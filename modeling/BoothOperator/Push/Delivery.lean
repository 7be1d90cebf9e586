import Mathlib.Data.Nat.Order.Lemmas
import BoothOperator.Push.Badges

/-! What the badge row promises along every interleaving: the delivered version
follows the version, it grows only, and it is one that has been sent. -/
namespace BoothOperator.Push

open BoothOperator.Schema

/-- No replica is at work; the row is new, or one that earlier runs have left. -/
structure Initial (world : World) : Prop where
  observer : world.observer = none
  dispatchers : world.dispatchers = []
  claims : world.claims = []
  sends : world.sends = []
  stored : world.stored = (world.state.map fun row => (row.badgeVersion, row.badgeCount)).toList
  delivered : ∀ row, world.state = some row → row.badgeDeliveredVersion ≤ row.badgeVersion
  token : ∀ row token, world.state = some row → row.badgeLeaseToken = some token →
    token < world.nextToken

/-- A dispatcher acts on a claim. -/
def Holds (world : World) (dispatcher : Nat) (claim : BadgeClaim) : Prop :=
  ∃ phase, world.dispatchers[dispatcher]? = some phase ∧ phase.held = some claim

/-- What a dispatcher knows of the row. -/
def Known (world : World) : Dispatcher → Prop
  | .claim _ _ state _ => (state.badgeVersion, state.badgeCount) ∈ world.stored
  | .complete _ claim => claim ∈ world.sends
  | _ => True

theorem Known.mono {world after : World} {phase : Dispatcher} (known : Known world phase)
    (stored : ∀ pair ∈ world.stored, pair ∈ after.stored)
    (sends : ∀ claim ∈ world.sends, claim ∈ after.sends) : Known after phase := by
  cases phase with
  | claim _ _ state _ => exact stored _ known
  | complete _ claim => exact sends claim known
  | _ => trivial

/-- A draft against the row it will replace. -/
def Drafted (state : Option PushNotificationState) (draft : PushNotificationState) : Prop :=
  match state with
  | none => draft.badgeDeliveredVersion = 0 ∧ draft.badgeLeaseToken = none
  | some row => draft.badgeDeliveredVersion = row.badgeDeliveredVersion ∧
      draft.badgeLeaseToken = row.badgeLeaseToken ∧
        (draft.badgeVersion = row.badgeVersion ∧ draft.badgeCount = row.badgeCount ∨
          draft.badgeVersion = row.badgeVersion + 1)

structure Sound (world : World) : Prop where
  delivered : ∀ row, world.state = some row → row.badgeDeliveredVersion ≤ row.badgeVersion
  listed : ∀ row, world.state = some row → (row.badgeVersion, row.badgeCount) ∈ world.stored
  newest : ∀ pair ∈ world.stored, ∃ row, world.state = some row ∧ pair.1 ≤ row.badgeVersion
  one : ∀ pair ∈ world.stored, ∀ other ∈ world.stored, pair.1 = other.1 → pair = other
  fresh : ∀ entry ∈ world.claims, entry.2 < world.nextToken
  unique : (world.claims.map (·.2)).Nodup
  token : ∀ row token, world.state = some row → row.badgeLeaseToken = some token →
    token < world.nextToken ∧
      ∀ dispatcher, (dispatcher, token) ∈ world.claims → world.claims.head? = some (dispatcher, token)
  held : ∀ dispatcher claim, Holds world dispatcher claim →
    (dispatcher, claim.leaseToken) ∈ world.claims ∧ (claim.version, claim.count) ∈ world.stored
  owned : ∀ dispatcher claim row, Holds world dispatcher claim → world.state = some row →
    row.badgeLeaseToken = some claim.leaseToken → row.badgeDeliveredVersion ≤ claim.version
  known : ∀ phase ∈ world.dispatchers, Known world phase
  drafted : ∀ observer draft, world.observer = some observer → observer.draft = some draft →
    Drafted world.state draft ∧ (observer.stage = .finished ∨ world.state = none)

theorem sound_initial {world : World} (initial : Initial world) : Sound world := by
  refine ⟨initial.delivered, ?_, ?_, ?_, ?_, ?_, ?_, ?_, ?_, ?_, ?_⟩
  · intro row stored
    rw [initial.stored, stored]
    exact List.mem_cons_self
  · intro pair member
    rw [initial.stored] at member
    cases stored : world.state with
    | none =>
      rw [stored] at member
      cases member
    | some row =>
      rw [stored] at member
      cases List.mem_singleton.mp member
      exact ⟨row, rfl, Nat.le_refl _⟩
  · intro pair member other there _
    rw [initial.stored] at member there
    cases stored : world.state with
    | none =>
      rw [stored] at member
      cases member
    | some row =>
      rw [stored] at member there
      exact (List.mem_singleton.mp member).trans (List.mem_singleton.mp there).symm
  · rw [initial.claims]
    exact fun entry member => absurd member List.not_mem_nil
  · rw [initial.claims]
    exact List.nodup_nil
  · intro row token stored leased
    refine ⟨initial.token row token stored leased, fun dispatcher member => ?_⟩
    rw [initial.claims] at member
    cases member
  · rintro dispatcher claim ⟨phase, there, _⟩
    rw [initial.dispatchers] at there
    cases there
  · rintro dispatcher claim row ⟨phase, there, _⟩
    rw [initial.dispatchers] at there
    cases there
  · rw [initial.dispatchers]
    exact fun phase member => absurd member List.not_mem_nil
  · intro observer draft open_
    rw [initial.observer] at open_
    cases open_

/-! ## The observations -/

section Steps

variable {world after : World}

/-- An update moves the version on by one, or keeps it with its count. -/
theorem updated_row {observation : Observation} {threshold count : Nat}
    {state row new : PushNotificationState}
    (written : updated observation threshold count state row = some new) :
    new.badgeDeliveredVersion = row.badgeDeliveredVersion ∧
      new.badgeLeaseToken = row.badgeLeaseToken ∧
        (new.badgeVersion = row.badgeVersion ∧ new.badgeCount = row.badgeCount ∨
          new.badgeVersion = row.badgeVersion + 1) := by
  cases observation with
  | notifyMessageReceived =>
    cases written
    exact ⟨rfl, rfl, .inr rfl⟩
  | observeModerationQueue =>
    cases written
    exact ⟨rfl, rfl, .inr rfl⟩
  | queueModerationBadgeRefresh =>
    cases written
    exact ⟨rfl, rfl, .inr rfl⟩
  | reconcileModerationBadgeState =>
    simp only [updated] at written
    split at written
    · cases written
      split
      · split
        · exact ⟨rfl, rfl, .inr rfl⟩
        · exact ⟨rfl, rfl, .inr rfl⟩
      · split
        · exact ⟨rfl, rfl, .inl ⟨rfl, rfl⟩⟩
        · exact ⟨rfl, rfl, .inl ⟨rfl, rfl⟩⟩
    · cases written

/-- A step of the observation that commits nothing. -/
theorem Sound.observing (sound : Sound world) {observer : Option Observer}
    (drafted : ∀ open_ draft, observer = some open_ → open_.draft = some draft →
      Drafted world.state draft ∧ (open_.stage = .finished ∨ world.state = none)) :
    Sound { world with observer } :=
  { sound with drafted }

theorem sound_upsert (sound : Sound world) {observer : Observer}
    (open_ : world.observer = some observer)
    (taken : advance world observer .upsert = some after) : Sound after := by
  simp only [advance] at taken
  split at taken
  · rename_i count stage
    split at taken
    · rename_i row _
      cases taken
      refine sound.observing fun other draft same written => ?_
      cases same
      obtain ⟨drafted, early⟩ := sound.drafted observer draft open_ written
      refine ⟨drafted, .inr (early.resolve_left fun finished => ?_)⟩
      rw [stage] at finished
      cases finished
    · rename_i absent
      cases taken
      obtain ⟨_, none⟩ := Option.or_eq_none_iff.mp absent
      refine sound.observing fun other draft same written => ?_
      cases same
      cases written
      rw [none]
      refine ⟨?_, .inr rfl⟩
      cases observer.observation with
      | notifyMessageReceived => exact ⟨rfl, rfl⟩
      | observeModerationQueue => exact ⟨rfl, rfl⟩
      | queueModerationBadgeRefresh => exact ⟨rfl, rfl⟩
      | reconcileModerationBadgeState => exact ⟨rfl, rfl⟩
  · cases taken

theorem sound_update (sound : Sound world) {observer : Observer}
    (open_ : world.observer = some observer)
    (taken : advance world observer .update = some after) : Sound after := by
  simp only [advance] at taken
  split at taken
  · rename_i count state stage
    cases taken
    refine sound.observing fun other draft same written => ?_
    cases same
    refine ⟨?_, .inl rfl⟩
    rcases Option.or_eq_some_iff.mp written with new | ⟨_, old⟩
    · obtain ⟨row, seen, new⟩ := Option.bind_eq_some_iff.mp new
      obtain ⟨delivered, token, version⟩ := updated_row new
      rcases Option.or_eq_some_iff.mp seen with own | ⟨_, stored⟩
      · obtain ⟨drafted, early⟩ := sound.drafted observer row open_ own
        have none : world.state = none := early.resolve_left fun finished => by
          rw [stage] at finished
          cases finished
        rw [none] at drafted ⊢
        exact ⟨delivered.trans drafted.1, token.trans drafted.2⟩
      · rw [stored]
        exact ⟨delivered, token, version⟩
    · exact (sound.drafted observer draft open_ old).1
  · cases taken

/-- A version that is committed is a new one, or the row's with its count. -/
theorem Sound.commit (sound : Sound world) {row : PushNotificationState}
    (drafted : Drafted world.state row) :
    Sound { world with
      state := some row
      observer := none
      stored := (row.badgeVersion, row.badgeCount) :: world.stored } := by
  have older : ∀ pair ∈ world.stored, pair.1 < row.badgeVersion ∨
      pair = (row.badgeVersion, row.badgeCount) := by
    intro pair member
    obtain ⟨old, stored, le⟩ := sound.newest pair member
    rw [stored] at drafted
    obtain ⟨_, _, ⟨version, count⟩ | version⟩ := drafted
    · rcases le.lt_or_eq with less | same
      · exact .inl (version ▸ less)
      · refine .inr ((sound.one pair member _ (sound.listed old stored) same).trans ?_)
        rw [version, count]
    · exact .inl (version ▸ Nat.lt_succ_of_le le)
  have based : row.badgeDeliveredVersion = 0 ∧ row.badgeLeaseToken = none ∨
      ∃ old, world.state = some old ∧ row.badgeDeliveredVersion = old.badgeDeliveredVersion ∧
        row.badgeLeaseToken = old.badgeLeaseToken ∧ old.badgeVersion ≤ row.badgeVersion := by
    cases stored : world.state with
    | none =>
      rw [stored] at drafted
      exact .inl drafted
    | some old =>
      rw [stored] at drafted
      obtain ⟨delivered, token, ⟨version, _⟩ | version⟩ := drafted
      · exact .inr ⟨old, rfl, delivered, token, version.symm.le⟩
      · exact .inr ⟨old, rfl, delivered, token, version ▸ Nat.le_succ _⟩
  have kept : ∀ pair ∈ world.stored, pair ∈ (row.badgeVersion, row.badgeCount) :: world.stored :=
    fun pair member => List.mem_cons_of_mem _ member
  refine ⟨?_, ?_, ?_, ?_, sound.fresh, sound.unique, ?_, ?_, ?_, ?_, ?_⟩
  · intro new same
    cases same
    rcases based with ⟨zero, _⟩ | ⟨old, stored, delivered, _, version⟩
    · exact zero ▸ Nat.zero_le _
    · exact delivered ▸ (sound.delivered old stored).trans version
  · intro new same
    cases same
    exact List.mem_cons_self
  · intro pair member
    refine ⟨row, rfl, ?_⟩
    rcases List.mem_cons.mp member with rfl | member
    · exact Nat.le_refl _
    · rcases older pair member with less | rfl
      · exact less.le
      · exact Nat.le_refl _
  · intro pair member other there same
    rcases List.mem_cons.mp member with rfl | member
    · rcases List.mem_cons.mp there with rfl | there
      · rfl
      · rcases older other there with less | rfl
        · exact absurd same.symm less.ne
        · rfl
    · rcases List.mem_cons.mp there with rfl | there
      · rcases older pair member with less | rfl
        · exact absurd same less.ne
        · rfl
      · exact sound.one pair member other there same
  · intro new token same leased
    cases same
    rcases based with ⟨_, none⟩ | ⟨old, stored, _, kept, _⟩
    · cases none.symm.trans leased
    · exact sound.token old token stored (kept.symm.trans leased)
  · intro dispatcher claim holds
    obtain ⟨claimed, version⟩ := sound.held dispatcher claim holds
    exact ⟨claimed, kept _ version⟩
  · intro dispatcher claim new holds same leased
    cases same
    rcases based with ⟨_, none⟩ | ⟨old, stored, delivered, kept, _⟩
    · cases none.symm.trans leased
    · exact delivered ▸ sound.owned dispatcher claim old holds stored (kept.symm.trans leased)
  · exact fun phase member => (sound.known phase member).mono kept fun _ sent => sent
  · exact fun _ _ same => nomatch same

theorem sound_commit (sound : Sound world) {observer : Observer}
    (open_ : world.observer = some observer)
    (taken : advance world observer .commit = some after) : Sound after := by
  simp only [advance] at taken
  split at taken
  · rename_i row _ written
    cases taken
    exact sound.commit (sound.drafted observer row open_ written).1
  · cases taken
    exact sound.observing fun _ _ same => nomatch same
  · cases taken

theorem sound_advance (sound : Sound world) {observer : Observer}
    (open_ : world.observer = some observer) {action : Action}
    (taken : advance world observer action = some after) : Sound after := by
  cases action with
  | count count =>
    simp only [advance] at taken
    split at taken
    · rename_i stage
      cases taken
      refine sound.observing fun other draft same written => ?_
      cases same
      obtain ⟨drafted, early⟩ := sound.drafted observer draft open_ written
      refine ⟨drafted, .inr (early.resolve_left fun finished => ?_)⟩
      rw [stage] at finished
      cases finished
    · cases taken
  | upsert => exact sound_upsert sound open_ taken
  | update => exact sound_update sound open_ taken
  | commit => exact sound_commit sound open_ taken
  | rollback =>
    cases taken
    exact sound.observing fun _ _ same => nomatch same
  | _ => cases taken

/-! ## The dispatchers -/

theorem mem_goto {dispatcher : Nat} {next phase : Dispatcher}
    (member : phase ∈ (world.goto dispatcher next).dispatchers) :
    phase ∈ world.dispatchers ∨ phase = next :=
  List.mem_or_eq_of_mem_set member

theorem holds_goto {dispatcher other : Nat} {next : Dispatcher} {claim : BadgeClaim}
    (holds : Holds (world.goto dispatcher next) other claim) :
    Holds world other claim ∨ other = dispatcher ∧ next.held = some claim := by
  obtain ⟨phase, there, held⟩ := holds
  rw [World.goto, List.getElem?_set] at there
  split at there
  · rename_i same
    split at there
    · cases there
      exact .inr ⟨same.symm, held⟩
    · cases there
  · exact .inl ⟨phase, there, held⟩

/-- A dispatcher goes on with no claim but the one it acts on. -/
theorem Sound.goto (sound : Sound world) {dispatcher : Nat} {next : Dispatcher}
    (held : ∀ claim, next.held = some claim → Holds world dispatcher claim)
    (known : Known world next) : Sound (world.goto dispatcher next) := by
  have before : ∀ other claim, Holds (world.goto dispatcher next) other claim →
      Holds world other claim := by
    intro other claim holds
    rcases holds_goto holds with old | ⟨rfl, own⟩
    · exact old
    · exact held claim own
  refine ⟨sound.delivered, sound.listed, sound.newest, sound.one, sound.fresh, sound.unique,
    sound.token, ?_, ?_, ?_, sound.drafted⟩
  · exact fun other claim holds => sound.held other claim (before other claim holds)
  · exact fun other claim row holds => sound.owned other claim row (before other claim holds)
  · intro phase member
    rcases mem_goto member with old | rfl
    · exact (sound.known phase old).mono (fun _ member => member) fun _ sent => sent
    · exact known.mono (fun _ member => member) fun _ sent => sent

/-- A statement that keeps the version and the count of the row. -/
theorem Sound.write (sound : Sound world) (free : world.rowLocked = false)
    {row new : PushNotificationState} (stored : world.state = some row)
    (version : new.badgeVersion = row.badgeVersion) (count : new.badgeCount = row.badgeCount)
    (delivered : new.badgeDeliveredVersion ≤ row.badgeVersion)
    (token : ∀ token, new.badgeLeaseToken = some token → row.badgeLeaseToken = some token)
    (owned : ∀ dispatcher claim, Holds world dispatcher claim →
      new.badgeLeaseToken = some claim.leaseToken → new.badgeDeliveredVersion ≤ claim.version) :
    Sound { world with state := some new } := by
  refine ⟨?_, ?_, ?_, sound.one, sound.fresh, sound.unique, ?_, sound.held, ?_, ?_, ?_⟩
  · intro other same
    cases same
    exact version ▸ delivered
  · intro other same
    cases same
    rw [version, count]
    exact sound.listed row stored
  · intro pair member
    obtain ⟨old, there, le⟩ := sound.newest pair member
    cases stored.symm.trans there
    exact ⟨new, rfl, version ▸ le⟩
  · intro other leased same own
    cases same
    exact sound.token row leased stored (token leased own)
  · intro dispatcher claim other holds same leased
    cases same
    exact owned dispatcher claim holds leased
  · exact fun phase member => (sound.known phase member).mono (fun _ member => member) fun _ sent => sent
  · intro observer draft open_ written
    have observing : world.observer = some observer := open_
    simp [World.rowLocked, stored, observing, written] at free

theorem updateMany_cases (world : World) {found : PushNotificationState → Bool}
    {change : PushNotificationState → PushNotificationState} :
    world.updateMany found change = (world, 0) ∨
      ∃ row, world.state = some row ∧ found row = true ∧
        world.updateMany found change = ({ world with state := some (change row) }, 1) := by
  unfold World.updateMany
  cases stored : world.state with
  | none => exact .inl rfl
  | some row =>
    by_cases matched : found row = true
    · exact .inr ⟨row, rfl, matched, by simp only [if_pos matched]⟩
    · exact .inl (by simp only [if_neg matched])

/-- **Who holds the row's token made the last claim.** -/
theorem last_claim (sound : Sound world) {dispatcher : Nat} {claim : BadgeClaim}
    {row : PushNotificationState} (holds : Holds world dispatcher claim)
    (stored : world.state = some row) (own : row.badgeLeaseToken = some claim.leaseToken) :
    world.claims.head? = some (dispatcher, claim.leaseToken) :=
  (sound.token row claim.leaseToken stored own).2 dispatcher (sound.held dispatcher claim holds).1

theorem version_le (sound : Sound world) {dispatcher : Nat} {claim : BadgeClaim}
    {row : PushNotificationState} (holds : Holds world dispatcher claim)
    (stored : world.state = some row) : claim.version ≤ row.badgeVersion := by
  obtain ⟨old, there, le⟩ := sound.newest _ (sound.held dispatcher claim holds).2
  cases stored.symm.trans there
  exact le

theorem sound_renew (sound : Sound world) (free : world.rowLocked = false) (leaseToken : Id)
    (now : Time) : Sound (renewModerationBadge world leaseToken now) := by
  unfold renewModerationBadge
  rcases updateMany_cases world with same | ⟨row, stored, _, changed⟩
  · rw [same]
    exact sound
  · rw [changed]
    exact sound.write free stored rfl rfl (sound.delivered row stored) (fun _ leased => leased)
      fun dispatcher claim holds own => sound.owned dispatcher claim row holds stored own

theorem sound_release (sound : Sound world) (free : world.rowLocked = false) (leaseToken : Id) :
    Sound (releaseModerationBadge world leaseToken) := by
  unfold releaseModerationBadge
  rcases updateMany_cases world with same | ⟨row, stored, _, changed⟩
  · rw [same]
    exact sound
  · rw [changed]
    exact sound.write free stored rfl rfl (sound.delivered row stored) (fun _ leased => nomatch leased)
      fun _ _ _ own => nomatch own

/-- What a dispatcher does after a completion holds no claim. -/
theorem held_nextDelivery (delivered : Nat) : (nextDelivery delivered).held = none := by
  unfold nextDelivery
  split
  · rfl
  · rfl

theorem held_nextAttempt (delivered attempt : Nat) : (nextAttempt delivered attempt).held = none := by
  unfold nextAttempt
  split
  · rfl
  · rfl

theorem known_nextDelivery (delivered : Nat) : Known world (nextDelivery delivered) := by
  unfold nextDelivery
  split
  · trivial
  · trivial

theorem known_nextAttempt (delivered attempt : Nat) : Known world (nextAttempt delivered attempt) := by
  unfold nextAttempt
  split
  · trivial
  · trivial

theorem Sound.let_go (sound : Sound world) {dispatcher : Nat} {next : Dispatcher}
    (idle : next.held = none) (known : Known world next) : Sound (world.goto dispatcher next) :=
  sound.goto (fun _ held => nomatch idle.symm.trans held) known

theorem sound_complete (sound : Sound world) (free : world.rowLocked = false)
    {dispatcher delivered : Nat} {claim : BadgeClaim} (holds : Holds world dispatcher claim) :
    Sound (completeModerationBadge world dispatcher delivered claim) := by
  unfold completeModerationBadge
  rcases updateMany_cases world with same | ⟨row, stored, _, changed⟩
  · rw [same]
    exact sound.let_go rfl trivial
  · rw [changed]
    have written : Sound { world with state := some { row with
        badgeDeliveredVersion := claim.version
        badgeLeaseToken := none
        badgeLeaseExpiresAt := none } } :=
      sound.write free stored rfl rfl (version_le sound holds stored)
        (fun _ leased => nomatch leased) fun _ _ _ own => nomatch own
    exact written.let_go (held_nextDelivery delivered) (known_nextDelivery delivered)

/-- A claim takes the row from whoever held it. -/
theorem Sound.take (sound : Sound world) (free : world.rowLocked = false) {dispatcher delivered : Nat}
    {row : PushNotificationState} (stored : world.state = some row) (expiresAt : Time) :
    Sound ({ world with
      state := some { row with
        badgeLeaseToken := some world.nextToken
        badgeLeaseExpiresAt := some expiresAt }
      nextToken := world.nextToken + 1
      claims := (dispatcher, world.nextToken) :: world.claims }.goto dispatcher
        (.sending delivered ⟨row.badgeCount, row.badgeVersion, world.nextToken⟩)) := by
  have unused : ∀ other, (other, world.nextToken) ∉ world.claims := fun other member =>
    absurd (sound.fresh _ member) (Nat.lt_irrefl _)
  have taken : ∀ other claim, Holds world other claim → claim.leaseToken ≠ world.nextToken := by
    intro other claim holds same
    exact unused other (same ▸ (sound.held other claim holds).1)
  have holds_cases : ∀ other claim, Holds (world.goto dispatcher
      (.sending delivered ⟨row.badgeCount, row.badgeVersion, world.nextToken⟩)) other claim →
      Holds world other claim ∨
        other = dispatcher ∧ claim = ⟨row.badgeCount, row.badgeVersion, world.nextToken⟩ :=
    fun other claim holds => (holds_goto holds).imp_right fun ⟨same, own⟩ =>
      ⟨same, (Option.some.inj own).symm⟩
  refine ⟨?_, ?_, ?_, sound.one, ?_, ?_, ?_, ?_, ?_, ?_, ?_⟩
  · intro new same
    cases same
    exact sound.delivered row stored
  · intro new same
    cases same
    exact sound.listed row stored
  · intro pair member
    obtain ⟨old, there, le⟩ := sound.newest pair member
    cases stored.symm.trans there
    exact ⟨_, rfl, le⟩
  · intro entry member
    rcases List.mem_cons.mp member with rfl | member
    · exact Nat.lt_succ_self _
    · exact (sound.fresh entry member).trans (Nat.lt_succ_self _)
  · refine List.nodup_cons.mpr ⟨fun member => ?_, sound.unique⟩
    obtain ⟨⟨other, token⟩, claimed, same⟩ := List.mem_map.mp member
    cases same
    exact unused other claimed
  · intro new token same leased
    cases same
    cases leased
    refine ⟨Nat.lt_succ_self _, fun other member => ?_⟩
    rcases List.mem_cons.mp member with same | member
    · exact congrArg some same.symm
    · exact absurd member (unused other)
  · intro other claim holds
    rcases holds_cases other claim holds with old | ⟨rfl, rfl⟩
    · obtain ⟨claimed, version⟩ := sound.held other claim old
      exact ⟨List.mem_cons_of_mem _ claimed, version⟩
    · exact ⟨List.mem_cons_self, sound.listed row stored⟩
  · intro other claim new holds same leased
    cases same
    rcases holds_cases other claim holds with old | ⟨rfl, rfl⟩
    · exact absurd (Option.some.inj leased).symm (taken other claim old)
    · exact sound.delivered row stored
  · intro phase member
    rcases mem_goto member with old | rfl
    · exact (sound.known phase old).mono (fun _ member => member) fun _ sent => sent
    · trivial
  · intro observer draft open_ written
    have observing : world.observer = some observer := open_
    simp [World.rowLocked, stored, observing, written] at free

/-- The row a claim finds as it was read has the count that was read with its version. -/
theorem sound_claim (sound : Sound world) (free : world.rowLocked = false)
    {dispatcher delivered attempt : Nat} {state : PushNotificationState} {claimedAt : Time}
    (known : (state.badgeVersion, state.badgeCount) ∈ world.stored) :
    Sound (claimModerationBadge world dispatcher delivered attempt state claimedAt) := by
  have spent : Sound { world with nextToken := world.nextToken + 1 } :=
    { sound with
      fresh := fun entry member => (sound.fresh entry member).trans (Nat.lt_succ_self _)
      token := fun row token stored leased =>
        ⟨(sound.token row token stored leased).1.trans (Nat.lt_succ_self _),
          (sound.token row token stored leased).2⟩
      known := fun phase member =>
        (sound.known phase member).mono (fun _ member => member) fun _ sent => sent }
  simp only [claimModerationBadge]
  generalize same : (fun row : PushNotificationState => decide (row.badgeVersion = state.badgeVersion ∧
      row.badgeLeaseToken = state.badgeLeaseToken ∧
        row.badgeLeaseExpiresAt = state.badgeLeaseExpiresAt)) = found
  rcases updateMany_cases world with kept | ⟨row, stored, matched, changed⟩
  · rw [kept]
    exact spent.let_go (held_nextAttempt delivered attempt) (known_nextAttempt delivered attempt)
  · rw [changed]
    subst same
    obtain ⟨version, _⟩ := of_decide_eq_true matched
    have count : row.badgeCount = state.badgeCount :=
      congrArg Prod.snd (sound.one _ (sound.listed row stored) _ known version)
    rw [← version, ← count]
    exact sound.take free stored (claimedAt + badgeLeaseDurationMs)

theorem sound_act (sound : Sound world) {dispatcher : Nat} {phase : Dispatcher} {action : Action}
    (there : world.dispatchers[dispatcher]? = some phase)
    (taken : phase.act world dispatcher action = some after) : Sound after := by
  have knows : Known world phase := sound.known phase (List.mem_of_getElem? there)
  have holds : ∀ claim, phase.held = some claim → Holds world dispatcher claim :=
    fun claim held => ⟨phase, there, held⟩
  unfold Dispatcher.act at taken
  split at taken
  · rename_i delivered attempt _ now
    cases taken
    cases stored : world.state with
    | none => exact sound.let_go rfl trivial
    | some state =>
      simp only [readBadge]
      split
      · exact sound.let_go rfl trivial
      · split
        · exact sound.let_go rfl trivial
        · exact sound.let_go rfl (sound.listed state stored)
  · split at taken
    · cases taken
    · rename_i free
      cases taken
      exact sound_claim sound (Bool.eq_false_of_not_eq_true free) knows
  · split at taken
    · cases taken
    · rename_i free
      cases taken
      exact sound_renew sound (Bool.eq_false_of_not_eq_true free) _ _
  · rename_i delivered claim _
    cases taken
    have sent : Sound { world with sends := claim :: world.sends } :=
      { sound with
        known := fun phase member => (sound.known phase member).mono (fun _ member => member)
          fun _ sent => List.mem_cons_of_mem _ sent }
    exact sent.goto holds List.mem_cons_self
  · cases taken
    exact sound.goto holds trivial
  · split at taken
    · cases taken
    · rename_i free
      cases taken
      exact sound_complete sound (Bool.eq_false_of_not_eq_true free) (holds _ rfl)
  · split at taken
    · cases taken
    · rename_i free
      cases taken
      exact (sound_release sound (Bool.eq_false_of_not_eq_true free) _).let_go rfl trivial
  · cases taken

theorem sound_step (sound : Sound world) {action : Action}
    (taken : step world action = some after) : Sound after := by
  unfold step at taken
  split at taken
  · split at taken
    · cases taken
      exact sound.observing fun _ _ same written => by cases same; cases written
    · cases taken
  · cases taken
    have alone : ∀ dispatcher claim, Holds { world with
        dispatchers := world.dispatchers ++ [.read 0 0] } dispatcher claim →
        Holds world dispatcher claim := by
      rintro dispatcher claim ⟨phase, there, held⟩
      rcases List.mem_append.mp (List.mem_of_getElem? there) with old | new
      · by_cases inside : dispatcher < world.dispatchers.length
        · exact ⟨phase, (List.getElem?_append_left inside).symm.trans there, held⟩
        · rw [List.getElem?_append_right (Nat.le_of_not_lt inside)] at there
          cases List.mem_singleton.mp (List.mem_of_getElem? there)
          cases held
      · cases List.mem_singleton.mp new
        cases held
    exact { sound with
      held := fun dispatcher claim holds => sound.held dispatcher claim (alone dispatcher claim holds)
      owned := fun dispatcher claim row holds =>
        sound.owned dispatcher claim row (alone dispatcher claim holds)
      known := fun phase member => by
        rcases List.mem_append.mp member with old | new
        · exact (sound.known phase old).mono (fun _ member => member) fun _ sent => sent
        · cases List.mem_singleton.mp new
          trivial }
  · cases taken
    exact sound.let_go rfl trivial
  · split at taken
    · obtain ⟨phase, there, taken⟩ := Option.bind_eq_some_iff.mp taken
      exact sound_act sound there taken
    · obtain ⟨observer, open_, taken⟩ := Option.bind_eq_some_iff.mp taken
      exact sound_advance sound open_ taken

/-! ## What a statement does to the row -/

/-- The statements that are fenced by the token of a claim. -/
def Action.fenced : Action → Option Nat
  | .renew dispatcher _ | .complete dispatcher | .release dispatcher => some dispatcher
  | _ => none

/-- A statement of a dispatcher on the row, by the claim that allows it. -/
inductive Writes (world : World) (row new : PushNotificationState) : Action → Prop where
  | claim {dispatcher : Nat} : new.badgeDeliveredVersion = row.badgeDeliveredVersion →
    Writes world row new (.claim dispatcher)
  | keep {action : Action} {dispatcher : Nat} {claim : BadgeClaim} :
    action.fenced = some dispatcher → Holds world dispatcher claim →
    row.badgeLeaseToken = some claim.leaseToken →
    new.badgeDeliveredVersion = row.badgeDeliveredVersion → Writes world row new action
  | complete {dispatcher : Nat} {claim : BadgeClaim} : Holds world dispatcher claim →
    row.badgeLeaseToken = some claim.leaseToken → claim ∈ world.sends →
    new.badgeDeliveredVersion = claim.version → Writes world row new (.complete dispatcher)

theorem state_goto (world : World) (dispatcher : Nat) (next : Dispatcher) :
    (world.goto dispatcher next).state = world.state := rfl

theorem act_state (sound : Sound world) {dispatcher : Nat} {phase : Dispatcher} {action : Action}
    (own : action.dispatcher = some dispatcher) (there : world.dispatchers[dispatcher]? = some phase)
    (taken : phase.act world dispatcher action = some after) :
    after.state = world.state ∨ ∃ row new, world.state = some row ∧ after.state = some new ∧
      Writes world row new action := by
  have knows : Known world phase := sound.known phase (List.mem_of_getElem? there)
  have holds : ∀ claim, phase.held = some claim → Holds world dispatcher claim :=
    fun claim held => ⟨phase, there, held⟩
  unfold Dispatcher.act at taken
  split at taken
  · cases taken
    exact .inl rfl
  · split at taken
    · cases taken
    · cases taken
      simp only [claimModerationBadge]
      rcases updateMany_cases world with same | ⟨row, stored, _, changed⟩
      · rw [same]
        exact .inl rfl
      · rw [changed]
        exact .inr ⟨row, _, stored, rfl, .claim rfl⟩
  · split at taken
    · cases taken
    · cases taken
      unfold renewModerationBadge
      rcases updateMany_cases world with same | ⟨row, stored, found, changed⟩
      · rw [same]
        exact .inl rfl
      · rw [changed]
        exact .inr ⟨row, _, stored, rfl, .keep own (holds _ rfl) (of_decide_eq_true found) rfl⟩
  · cases taken
    exact .inl rfl
  · cases taken
    exact .inl rfl
  · split at taken
    · cases taken
    · cases taken
      unfold completeModerationBadge
      rcases updateMany_cases world with same | ⟨row, stored, found, changed⟩
      · rw [same]
        exact .inl rfl
      · rw [changed]
        cases own
        exact .inr ⟨row, _, stored, rfl,
          .complete (holds _ rfl) (of_decide_eq_true found) knows rfl⟩
  · split at taken
    · cases taken
    · cases taken
      rw [state_goto]
      unfold releaseModerationBadge
      rcases updateMany_cases world with same | ⟨row, stored, found, changed⟩
      · rw [same]
        exact .inl rfl
      · rw [changed]
        exact .inr ⟨row, _, stored, rfl, .keep own (holds _ rfl) (of_decide_eq_true found) rfl⟩
  · cases taken

/-- The row is written by a commit and by the statements of the dispatchers. -/
theorem step_state (sound : Sound world) {action : Action} (taken : step world action = some after) :
    after.state = world.state ∨
      (∃ draft, action = .commit ∧ after.state = some draft ∧ Drafted world.state draft) ∨
      ∃ row new, world.state = some row ∧ after.state = some new ∧ Writes world row new action := by
  unfold step at taken
  split at taken
  · split at taken
    · cases taken
      exact .inl rfl
    · cases taken
  · cases taken
    exact .inl rfl
  · cases taken
    exact .inl rfl
  · split at taken
    · rename_i dispatcher own
      obtain ⟨phase, there, taken⟩ := Option.bind_eq_some_iff.mp taken
      exact (act_state sound own there taken).imp_right .inr
    · obtain ⟨observer, open_, taken⟩ := Option.bind_eq_some_iff.mp taken
      unfold advance at taken
      split at taken
      · split at taken
        · cases taken
          exact .inl rfl
        · cases taken
      · split at taken
        · split at taken
          · cases taken
            exact .inl rfl
          · cases taken
            exact .inl rfl
        · cases taken
      · split at taken
        · cases taken
          exact .inl rfl
        · cases taken
      · split at taken
        · rename_i draft _ written
          cases taken
          exact .inr (.inl ⟨draft, rfl, rfl, (sound.drafted observer draft open_ written).1⟩)
        · cases taken
          exact .inl rfl
        · cases taken
      · cases taken
        exact .inl rfl
      · cases taken

/-! ## The protocol -/

/-- What one statement, of any replica, may do to the row. -/
structure Delivers (before : World) (action : Action) (after : World) : Prop where
  bounded : ∀ row, after.state = some row → row.badgeDeliveredVersion ≤ row.badgeVersion
  grows : ∀ row, before.state = some row → ∃ new, after.state = some new ∧
    row.badgeDeliveredVersion ≤ new.badgeDeliveredVersion
  guarded : ∀ dispatcher, action.fenced = some dispatcher → after.state ≠ before.state →
    ∃ claim, Holds before dispatcher claim ∧
      before.claims.head? = some (dispatcher, claim.leaseToken)
  created : ∀ new, before.state = none → after.state = some new → new.badgeDeliveredVersion = 0
  sent : ∀ row new, before.state = some row → after.state = some new →
    new.badgeDeliveredVersion ≠ row.badgeDeliveredVersion →
      ∃ claim ∈ before.sends, claim.version = new.badgeDeliveredVersion ∧
        ∀ count, (claim.version, count) ∈ before.stored ↔ count = claim.count

/-- A statement that leaves the row alone. -/
theorem delivers_same (sound : Sound world) {action : Action} (same : after.state = world.state) :
    Delivers world action after := by
  refine ⟨?_, ?_, ?_, ?_, ?_⟩
  · rw [same]
    exact sound.delivered
  · exact fun row stored => ⟨row, same.trans stored, Nat.le_refl _⟩
  · exact fun _ _ changed => absurd same changed
  · intro new none stored
    rw [same, none] at stored
    cases stored
  · intro row new stored there changed
    cases stored.symm.trans (same.symm.trans there)
    exact absurd rfl changed

theorem delivers_commit (sound : Sound after) {draft : PushNotificationState}
    (stored : after.state = some draft) (drafted : Drafted world.state draft) :
    Delivers world .commit after := by
  have kept : ∀ row, world.state = some row →
      draft.badgeDeliveredVersion = row.badgeDeliveredVersion := by
    intro row before
    rw [before] at drafted
    exact drafted.1
  refine ⟨sound.delivered, ?_, ?_, ?_, ?_⟩
  · exact fun row before => ⟨draft, stored, (kept row before).symm.le⟩
  · exact fun _ fenced => nomatch fenced
  · intro new none there
    cases stored.symm.trans there
    rw [none] at drafted
    exact drafted.1
  · intro row new before there changed
    cases stored.symm.trans there
    exact absurd (kept row before) changed

theorem delivers_writes (sound : Sound world) (sound' : Sound after)
    {row new : PushNotificationState} {action : Action} (before : world.state = some row)
    (stored : after.state = some new) (writes : Writes world row new action) :
    Delivers world action after := by
  refine ⟨sound'.delivered, ?_, ?_, ?_, ?_⟩
  · intro other same
    cases before.symm.trans same
    refine ⟨new, stored, ?_⟩
    cases writes with
    | claim kept => exact kept.symm.le
    | keep _ _ _ kept => exact kept.symm.le
    | complete holds own _ completed =>
      exact (sound.owned _ _ row holds before own).trans completed.symm.le
  · intro dispatcher fenced _
    cases writes with
    | claim _ => cases fenced
    | keep same holds own _ =>
      cases same.symm.trans fenced
      exact ⟨_, holds, last_claim sound holds before own⟩
    | complete holds own _ _ =>
      cases fenced
      exact ⟨_, holds, last_claim sound holds before own⟩
  · intro _ none
    cases before.symm.trans none
  · intro other next same there changed
    cases before.symm.trans same
    cases stored.symm.trans there
    cases writes with
    | claim kept => exact absurd kept changed
    | keep _ _ _ kept => exact absurd kept changed
    | complete holds _ sent completed =>
      rename_i claim _
      have counted := (sound.held _ claim holds).2
      refine ⟨claim, sent, completed.symm, fun count => ⟨fun there => ?_, ?_⟩⟩
      · exact congrArg Prod.snd (sound.one _ there _ counted rfl)
      · rintro rfl
        exact counted

end Steps

/-- **Along every interleaving the delivered version grows only and stays at or
below the version, a fenced statement changes the row for the last claimant
only, and a version is delivered after the count stored with it was sent.** -/
theorem badge_delivery {start : World} (initial : Initial start) (actions : List Action) :
    Run.Along step Delivers start actions := by
  refine Run.along_of_invariant ?_ ?_ (sound_initial initial) actions
  · exact fun world action after sound taken => sound_step sound taken
  · intro world action after sound sound' taken
    rcases step_state sound taken with same | ⟨draft, rfl, stored, drafted⟩ |
      ⟨row, new, before, stored, writes⟩
    · exact delivers_same sound same
    · exact delivers_commit sound' stored drafted
    · exact delivers_writes sound sound' before stored writes

/-- A first count is claimed and sent while a second one is stored; a claimant that
stopped is overtaken when its lease has run out. -/
def overtaken : List Action :=
  [.observe .notifyMessageReceived 5, .count 3, .upsert, .update, .commit,
    .dispatch, .read 0 1000, .claim 0, .crash 0,
    .dispatch, .read 1 200000, .claim 1, .renew 1 200500,
    .observe .observeModerationQueue 5, .count 7, .upsert, .sent 1, .update, .commit,
    .complete 1]

theorem badge_delivery_overtaken :
    (Run.exec step {} overtaken).map (fun world => (world.sends, world.state)) =
        some ([⟨3, 1, 1⟩], some {
          active := true, threshold := 5, badgeCount := 7, badgeVersion := 2
          badgeDeliveredVersion := 1 }) ∧
      Run.Along step Delivers {} overtaken :=
  ⟨by decide, badge_delivery
    { observer := rfl
      dispatchers := rfl
      claims := rfl
      sends := rfl
      stored := rfl
      delivered := fun _ stored => by cases stored
      token := fun _ _ stored => by cases stored } overtaken⟩

end BoothOperator.Push
