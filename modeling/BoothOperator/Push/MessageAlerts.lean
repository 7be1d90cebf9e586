import Mathlib.Data.Nat.Order.Lemmas
import BoothOperator.Push.Badges

/-! `lib/push-events.ts`: the row of the message alert, at single statements. An
observation writes it in its transaction, which holds the advisory lock of the
queue; the replicas claim it outside of any; and the fence of a claim reads it in
a transaction that holds the lock again. Messages arrive and are decided at any
time, and a replica may stop for good between two statements. -/
namespace BoothOperator.Push.MessageAlerts

open BoothOperator.Schema

/-- `create` of the upsert; its `update` is empty. -/
def created : PushNotificationState where
  active := false
  threshold := 0
  badgeCount := 0
  badgeVersion := 0
  badgeDeliveredVersion := 0

/-- The update after the upsert that returned `state`, if there is one. -/
def updated (count : Nat) (shouldAlert : Bool) (state row : PushNotificationState) :
    Option PushNotificationState :=
  if !shouldAlert && state.badgeCount = count then none
  else some { row with
    active := shouldAlert && 0 < count
    threshold := 0
    badgeCount := count
    badgeVersion := row.badgeVersion + 1 }

structure MessageAlertClaim where
  count : Nat
  version : Nat
  deriving DecidableEq

/-- Where a fence is: it counts the messages, and then reads the row. -/
inductive FenceStage where
  | locked
  | counted (count : Nat)
  | read (count : Nat) (state : Option PushNotificationState)

/-- The transaction that holds the advisory lock. -/
inductive Holder where
  | observing (observation : Observation) (stage : Stage) (draft : Option PushNotificationState)
  | validating (claim : MessageAlertClaim) (stage : FenceStage)

/-- The next statement of `dispatchMessageAlerts`, with its locals. -/
inductive Replica where
  | read (delivered attempt : Nat)
  | claim (delivered attempt : Nat) (state : PushNotificationState)
  | sending (delivered : Nat) (claim : MessageAlertClaim)
  | done

/-- A fence that let its alert through: the messages it counted, and the versions
recorded when it did. -/
structure Pass where
  claim : MessageAlertClaim
  awaiting : Nat
  recorded : List (Nat × Nat)

structure World where
  state : Option PushNotificationState := none
  holder : Option Holder := none
  awaiting : Nat := 0
  replicas : List Replica := []
  /-- Every version the row had, with its count. -/
  recorded : List (Nat × Nat) := []
  /-- The claims that succeeded. -/
  claims : List MessageAlertClaim := []
  passes : List Pass := []

inductive Action where
  | queue (awaiting : Nat)
  | observe (observation : Observation)
  | count
  | upsert
  | update
  | find
  | commit
  | rollback
  | dispatch
  | read (replica : Nat)
  | claim (replica : Nat)
  | validate (replica : Nat)
  | sent (replica : Nat)
  | crash (replica : Nat)

/-- Whether an open observation has written the row. -/
def World.rowLocked (world : World) : Bool :=
  world.state.isSome && match world.holder with
    | some (.observing _ _ draft) => draft.isSome
    | _ => false

def World.goto (world : World) (replica : Nat) (next : Replica) : World :=
  { world with replicas := world.replicas.set replica next }

/-- `findUnique` of an attempt. -/
def readAlert (delivered attempt : Nat) (state : Option PushNotificationState) : Replica :=
  match state with
  | none => .done
  | some state =>
    if !state.active || state.badgeVersion ≤ state.badgeDeliveredVersion then .done
    else .claim delivered attempt state

/-- `updateMany` of an attempt. -/
def claimMessageAlert (world : World) (replica delivered attempt : Nat)
    (state : PushNotificationState) : World :=
  let retry := world.goto replica
    (if attempt + 1 < claimAttempts then .read delivered (attempt + 1) else .done)
  match world.state with
  | none => retry
  | some row =>
    if row.active && row.badgeVersion = state.badgeVersion then
      let claim := ⟨state.badgeCount, state.badgeVersion⟩
      { world with
        state := some { row with
          active := false
          badgeDeliveredVersion := state.badgeVersion
          badgeLeaseToken := none
          badgeLeaseExpiresAt := none }
        claims := claim :: world.claims }.goto replica (.sending delivered claim)
    else retry

/-- What the fence asks of the count and the row it has read. -/
def validates (claim : MessageAlertClaim) (count : Nat) (state : Option PushNotificationState) :
    Bool :=
  count = claim.count && state.any fun state =>
    !state.active && state.badgeCount = claim.count && state.badgeVersion = claim.version &&
      state.badgeDeliveredVersion = claim.version

/-- The statements of an observation: `updateMessageAlertState`, with the count
before it. What the transaction writes to the row of the badge is left out. -/
def observe (world : World) (observation : Observation) (stage : Stage)
    (draft : Option PushNotificationState) (action : Action) : Option World :=
  match action, stage with
  | .count, .locked =>
    some { world with holder := some (.observing observation (.counted world.awaiting) draft) }
  | .upsert, .counted count =>
    match draft.or world.state with
    | some row => some { world with holder := some (.observing observation (.upserted count row) draft) }
    | none =>
      some { world with
        holder := some (.observing observation (.upserted count created) (some created)) }
  | .update, .upserted count state =>
    let shouldAlert : Bool := observation = .notifyMessageReceived
    let written := (draft.or world.state).bind (updated count shouldAlert state)
    some { world with holder := some (.observing observation .finished (written.or draft)) }
  | .commit, .finished =>
    match draft with
    | some row => some { world with
        state := some row
        holder := none
        recorded := (row.badgeVersion, row.badgeCount) :: world.recorded }
    | none => some { world with holder := none }
  | .rollback, _ => some { world with holder := none }
  | _, _ => none

/-- The statements of `validateMessageAlert`. -/
def validate (world : World) (claim : MessageAlertClaim) (stage : FenceStage) (action : Action) :
    Option World :=
  match action, stage with
  | .count, .locked =>
    some { world with holder := some (.validating claim (.counted world.awaiting)) }
  | .find, .counted count =>
    some { world with holder := some (.validating claim (.read count world.state)) }
  | .commit, .read count state =>
    let pass := if validates claim count state then [⟨claim, count, world.recorded⟩] else []
    some { world with holder := none, passes := pass ++ world.passes }
  | .rollback, _ => some { world with holder := none }
  | _, _ => none

/-- The statements of a replica. A send calls its fence any number of times. -/
def Replica.act (world : World) (replica : Nat) : Replica → Action → Option World
  | .read delivered attempt, .read _ =>
    some (world.goto replica (readAlert delivered attempt world.state))
  | .claim delivered attempt state, .claim _ =>
    if world.rowLocked then none
    else some (claimMessageAlert world replica delivered attempt state)
  | .sending _ held, .validate _ =>
    match world.holder with
    | none => some { world with holder := some (.validating held .locked) }
    | some _ => none
  | .sending delivered _, .sent _ =>
    some (world.goto replica
      (if delivered + 1 < badgeDispatchBatchSize then .read (delivered + 1) 0 else .done))
  | _, _ => none

def step (world : World) (action : Action) : Option World :=
  match action with
  | .queue awaiting => some { world with awaiting }
  | .observe observation =>
    match world.holder with
    | none => some { world with holder := some (.observing observation .locked none) }
    | some _ => none
  | .dispatch => some { world with replicas := world.replicas ++ [.read 0 0] }
  | .crash replica => some (world.goto replica .done)
  | .read replica | .claim replica | .validate replica | .sent replica =>
    (world.replicas[replica]?).bind fun phase => phase.act world replica action
  | .count | .upsert | .update | .find | .commit | .rollback =>
    match world.holder with
    | some (.observing observation stage draft) => observe world observation stage draft action
    | some (.validating claim stage) => validate world claim stage action
    | none => none

/-- No replica is at work; the row is new, or one that earlier runs have left. -/
structure Initial (world : World) : Prop where
  holder : world.holder = none
  replicas : world.replicas = []
  claims : world.claims = []
  passes : world.passes = []
  recorded : world.recorded = (world.state.map fun row => (row.badgeVersion, row.badgeCount)).toList

/-- The version of a draft is a new one. -/
def Drafted (state : Option PushNotificationState) (draft : PushNotificationState) : Prop :=
  ∀ row, state = some row → draft.badgeVersion = row.badgeVersion + 1

/-- A fence that has let its alert through was right to. -/
structure Right (world : World) (pass : Pass) : Prop where
  claimed : pass.claim ∈ world.claims
  awaiting : pass.awaiting = pass.claim.count
  recorded : (pass.claim.version, pass.claim.count) ∈ pass.recorded
  newest : ∀ entry ∈ pass.recorded, entry.1 ≤ pass.claim.version

structure Sound (world : World) : Prop where
  listed : ∀ row, world.state = some row → (row.badgeVersion, row.badgeCount) ∈ world.recorded
  newest : ∀ pair ∈ world.recorded, ∃ row, world.state = some row ∧ pair.1 ≤ row.badgeVersion
  one : ∀ pair ∈ world.recorded, ∀ other ∈ world.recorded, pair.1 = other.1 → pair = other
  claimed : ∀ claim ∈ world.claims, (claim.version, claim.count) ∈ world.recorded ∧
    ∀ row, world.state = some row → row.badgeVersion = claim.version → row.active = false
  unique : (world.claims.map (·.version)).Nodup
  known : ∀ delivered attempt state, .claim delivered attempt state ∈ world.replicas →
    (state.badgeVersion, state.badgeCount) ∈ world.recorded
  held : ∀ delivered claim, .sending delivered claim ∈ world.replicas → claim ∈ world.claims
  drafted : ∀ observation stage draft,
    world.holder = some (.observing observation stage (some draft)) →
      Drafted world.state draft ∧ (stage = .finished ∨ world.state = none)
  validated : ∀ claim stage, world.holder = some (.validating claim stage) → claim ∈ world.claims
  fenced : ∀ claim count row, world.holder = some (.validating claim (.read count (some row))) →
    ∀ entry ∈ world.recorded, entry.1 ≤ row.badgeVersion
  passed : ∀ pass ∈ world.passes, Right world pass

theorem sound_initial {world : World} (initial : Initial world) : Sound world := by
  have lists : ∀ pair ∈ world.recorded, ∃ row, world.state = some row ∧
      pair = (row.badgeVersion, row.badgeCount) := by
    intro pair member
    rw [initial.recorded] at member
    cases stored : world.state with
    | none =>
      rw [stored] at member
      cases member
    | some row =>
      rw [stored] at member
      exact ⟨row, rfl, List.mem_singleton.mp member⟩
  refine ⟨?_, ?_, ?_, ?_, ?_, ?_, ?_, ?_, ?_, ?_, ?_⟩
  · intro row stored
    rw [initial.recorded, stored]
    exact List.mem_cons_self
  · intro pair member
    obtain ⟨row, stored, rfl⟩ := lists pair member
    exact ⟨row, stored, Nat.le_refl _⟩
  · intro pair member other there _
    obtain ⟨row, stored, rfl⟩ := lists pair member
    obtain ⟨row', stored', rfl⟩ := lists other there
    cases stored.symm.trans stored'
    rfl
  · rw [initial.claims]
    exact fun claim member => absurd member List.not_mem_nil
  · rw [initial.claims]
    exact List.nodup_nil
  · rw [initial.replicas]
    exact fun _ _ _ member => absurd member List.not_mem_nil
  · rw [initial.replicas]
    exact fun _ _ member => absurd member List.not_mem_nil
  · rw [initial.holder]
    exact fun _ _ _ open_ => nomatch open_
  · rw [initial.holder]
    exact fun _ _ open_ => nomatch open_
  · rw [initial.holder]
    exact fun _ _ _ open_ => nomatch open_
  · rw [initial.passes]
    exact fun pass member => absurd member List.not_mem_nil

section Steps

variable {world after : World}

theorem Right.mono {pass : Pass} (right : Right world pass)
    (claims : ∀ claim ∈ world.claims, claim ∈ after.claims) : Right after pass :=
  ⟨claims _ right.claimed, right.awaiting, right.recorded, right.newest⟩

/-! ## The observations -/

theorem updated_version {count : Nat} {shouldAlert : Bool} {state row new : PushNotificationState}
    (written : updated count shouldAlert state row = some new) :
    new.badgeVersion = row.badgeVersion + 1 := by
  unfold updated at written
  split at written
  · cases written
  · cases written
    rfl

/-- A statement of an observation that commits nothing. -/
theorem Sound.observing (sound : Sound world) {observation : Observation} {stage : Stage}
    {draft : Option PushNotificationState}
    (drafted : ∀ written, draft = some written →
      Drafted world.state written ∧ (stage = .finished ∨ world.state = none)) :
    Sound { world with holder := some (.observing observation stage draft) } := by
  refine ⟨sound.listed, sound.newest, sound.one, sound.claimed, sound.unique, sound.known,
    sound.held, ?_, ?_, ?_, fun pass member => (sound.passed pass member).mono fun _ own => own⟩
  · intro other stage' written same
    cases same
    exact drafted written rfl
  · intro claim other same
    cases same
  · intro claim count row same
    cases same

/-- The lock is let go of with nothing written. -/
theorem Sound.release (sound : Sound world) : Sound { world with holder := none } :=
  ⟨sound.listed, sound.newest, sound.one, sound.claimed, sound.unique, sound.known, sound.held,
    (fun _ _ _ same => nomatch same), (fun _ _ same => nomatch same),
    (fun _ _ _ same => nomatch same),
    fun pass member => (sound.passed pass member).mono fun _ own => own⟩

/-- The version that is committed is above every one before. -/
theorem Sound.commit (sound : Sound world) {row : PushNotificationState}
    (drafted : Drafted world.state row) :
    Sound { world with
      state := some row
      holder := none
      recorded := (row.badgeVersion, row.badgeCount) :: world.recorded } := by
  have older : ∀ pair ∈ world.recorded, pair.1 < row.badgeVersion := by
    intro pair member
    obtain ⟨old, stored, le⟩ := sound.newest pair member
    rw [drafted old stored]
    omega
  refine ⟨?_, ?_, ?_, ?_, sound.unique, ?_, sound.held,
    (fun _ _ _ same => nomatch same), (fun _ _ same => nomatch same),
    (fun _ _ _ same => nomatch same),
    fun pass member => (sound.passed pass member).mono fun _ own => own⟩
  · intro new same
    cases same
    exact List.mem_cons_self
  · intro pair member
    refine ⟨row, rfl, ?_⟩
    rcases List.mem_cons.mp member with rfl | member
    · exact Nat.le_refl _
    · exact (older pair member).le
  · intro pair member other there same
    rcases List.mem_cons.mp member with rfl | member
    · rcases List.mem_cons.mp there with rfl | there
      · rfl
      · exact absurd same.symm (older other there).ne
    · rcases List.mem_cons.mp there with rfl | there
      · exact absurd same (older pair member).ne
      · exact sound.one pair member other there same
  · intro claim member
    obtain ⟨recorded, -⟩ := sound.claimed claim member
    refine ⟨List.mem_cons_of_mem _ recorded, fun new same version => ?_⟩
    cases same
    exact absurd version.symm (older _ recorded).ne
  · exact fun delivered attempt state member =>
      List.mem_cons_of_mem _ (sound.known delivered attempt state member)

theorem sound_observe (sound : Sound world) {observation : Observation} {stage : Stage}
    {draft : Option PushNotificationState}
    (open_ : world.holder = some (.observing observation stage draft)) {action : Action}
    (taken : observe world observation stage draft action = some after) : Sound after := by
  have kept : ∀ written, draft = some written → stage ≠ .finished →
      Drafted world.state written ∧ world.state = none := by
    intro written same unfinished
    subst same
    obtain ⟨drafted, early⟩ := sound.drafted observation stage written open_
    exact ⟨drafted, early.resolve_left unfinished⟩
  unfold observe at taken
  split at taken
  · cases taken
    refine sound.observing fun written same => ?_
    obtain ⟨drafted, none⟩ := kept written same (fun finished => nomatch finished)
    exact ⟨drafted, .inr none⟩
  · split at taken
    · cases taken
      refine sound.observing fun written same => ?_
      obtain ⟨drafted, none⟩ := kept written same (fun finished => nomatch finished)
      exact ⟨drafted, .inr none⟩
    · rename_i absent
      cases taken
      obtain ⟨-, none⟩ := Option.or_eq_none_iff.mp absent
      refine sound.observing fun written same => ⟨fun row stored => ?_, .inr none⟩
      cases none.symm.trans stored
  · cases taken
    refine sound.observing fun written same => ⟨?_, .inl rfl⟩
    rcases Option.or_eq_some_iff.mp same with new | ⟨-, old⟩
    · obtain ⟨row, seen, new⟩ := Option.bind_eq_some_iff.mp new
      intro stored there
      rcases Option.or_eq_some_iff.mp seen with own | ⟨-, same⟩
      · obtain ⟨-, none⟩ := kept row own (fun finished => nomatch finished)
        cases none.symm.trans there
      · cases there.symm.trans same
        exact updated_version new
    · exact (kept written old (fun finished => nomatch finished)).1
  · split at taken
    · rename_i row
      cases taken
      exact sound.commit (sound.drafted observation .finished row open_).1
    · cases taken
      exact sound.release
  · cases taken
    exact sound.release
  · cases taken

/-! ## The fence -/

/-- A statement of a fence that lets nothing through. -/
theorem Sound.validating (sound : Sound world) {claim : MessageAlertClaim} {stage : FenceStage}
    (own : claim ∈ world.claims)
    (fenced : ∀ count row, stage = .read count (some row) →
      ∀ entry ∈ world.recorded, entry.1 ≤ row.badgeVersion) :
    Sound { world with holder := some (.validating claim stage) } := by
  refine ⟨sound.listed, sound.newest, sound.one, sound.claimed, sound.unique, sound.known,
    sound.held, ?_, ?_, ?_, fun pass member => (sound.passed pass member).mono fun _ own => own⟩
  · intro observation other written same
    cases same
  · intro other stage' same
    cases same
    exact own
  · intro other count row same
    cases same
    exact fenced count row rfl

theorem sound_validate (sound : Sound world) {claim : MessageAlertClaim} {stage : FenceStage}
    (open_ : world.holder = some (.validating claim stage)) {action : Action}
    (taken : validate world claim stage action = some after) : Sound after := by
  have own := sound.validated claim stage open_
  unfold validate at taken
  split at taken
  · cases taken
    exact sound.validating own fun _ _ same => nomatch same
  · cases taken
    refine sound.validating own fun count row same entry member => ?_
    obtain ⟨stored, there, le⟩ := sound.newest entry member
    injection same with _ same
    cases there.symm.trans same
    exact le
  · rename_i count state
    cases taken
    refine { sound.release with passed := fun pass member => ?_ }
    rcases List.mem_append.mp member with new | old
    · split at new
      · rename_i valid
        cases List.mem_singleton.mp new
        simp only [validates, Bool.and_eq_true, decide_eq_true_eq, Option.any_eq_true] at valid
        obtain ⟨counted, row, rfl, ⟨-, same⟩, -⟩ := valid
        obtain ⟨recorded, -⟩ := sound.claimed claim own
        refine ⟨own, counted, recorded, fun entry member => ?_⟩
        rw [← same]
        exact sound.fenced claim count row open_ entry member
      · cases new
    · exact (sound.passed pass old).mono fun _ own => own
  · cases taken
    exact sound.release
  · cases taken

/-! ## The replicas -/

theorem mem_goto {replica : Nat} {next phase : Replica}
    (member : phase ∈ (world.goto replica next).replicas) :
    phase ∈ world.replicas ∨ phase = next :=
  List.mem_or_eq_of_mem_set member

theorem Sound.goto (sound : Sound world) {replica : Nat} {next : Replica}
    (known : ∀ delivered attempt state, next = .claim delivered attempt state →
      (state.badgeVersion, state.badgeCount) ∈ world.recorded)
    (held : ∀ delivered claim, next = .sending delivered claim → claim ∈ world.claims) :
    Sound (world.goto replica next) := by
  refine { sound with known := ?_, held := ?_, passed := ?_ }
  · intro delivered attempt state member
    rcases mem_goto member with old | same
    · exact sound.known delivered attempt state old
    · exact known delivered attempt state same.symm
  · intro delivered claim member
    rcases mem_goto member with old | same
    · exact sound.held delivered claim old
    · exact held delivered claim same.symm
  · exact fun pass member => (sound.passed pass member).mono fun _ own => own

theorem sound_readAlert (sound : Sound world) (replica delivered attempt : Nat) :
    Sound (world.goto replica (readAlert delivered attempt world.state)) := by
  refine sound.goto ?_ ?_
  · intro delivered' attempt' state same
    unfold readAlert at same
    split at same
    · cases same
    · rename_i row stored
      split at same
      · cases same
      · cases same
        exact sound.listed state stored
  · intro delivered' claim same
    unfold readAlert at same
    split at same
    · cases same
    · split at same
      · cases same
      · cases same

/-- A claim that succeeds is the first of its version. -/
theorem sound_claim (sound : Sound world) (free : world.rowLocked = false)
    {replica delivered attempt : Nat} {state : PushNotificationState}
    (known : (state.badgeVersion, state.badgeCount) ∈ world.recorded) :
    Sound (claimMessageAlert world replica delivered attempt state) := by
  have retry : Sound (world.goto replica
      (if attempt + 1 < claimAttempts then .read delivered (attempt + 1) else .done)) := by
    split
    · exact sound.goto (fun _ _ _ same => nomatch same) fun _ _ same => nomatch same
    · exact sound.goto (fun _ _ _ same => nomatch same) fun _ _ same => nomatch same
  unfold claimMessageAlert
  simp only
  split
  · exact retry
  · rename_i row stored
    split
    · rename_i matched
      simp only [Bool.and_eq_true, decide_eq_true_eq] at matched
      obtain ⟨active, version⟩ := matched
      have fresh : state.badgeVersion ∉ world.claims.map (·.version) := by
        intro taken
        obtain ⟨claim, member, same⟩ := List.mem_map.mp taken
        have inactive := (sound.claimed claim member).2 row stored (version.trans same.symm)
        rw [active] at inactive
        cases inactive
      refine Sound.goto ?_ (fun _ _ _ same => nomatch same) ?_
      · refine ⟨?_, ?_, sound.one, ?_, ?_, sound.known, ?_, ?_, ?_, sound.fenced, ?_⟩
        · intro new same
          cases same
          exact sound.listed row stored
        · intro pair member
          obtain ⟨old, there, le⟩ := sound.newest pair member
          cases stored.symm.trans there
          exact ⟨_, rfl, le⟩
        · intro claim member
          refine ⟨?_, fun new same _ => ?_⟩
          · rcases List.mem_cons.mp member with rfl | old
            · exact known
            · exact (sound.claimed claim old).1
          · cases same
            rfl
        · exact List.nodup_cons.mpr ⟨fresh, sound.unique⟩
        · exact fun delivered claim member =>
            List.mem_cons_of_mem _ (sound.held delivered claim member)
        · intro observation stage draft open_
          have observing : world.holder = some (.observing observation stage (some draft)) := open_
          simp [World.rowLocked, stored, observing] at free
        · exact fun claim stage open_ =>
            List.mem_cons_of_mem _ (sound.validated claim stage open_)
        · exact fun pass member => (sound.passed pass member).mono
            fun _ own => List.mem_cons_of_mem _ own
      · intro delivered' claim same
        cases same
        exact List.mem_cons_self
    · exact retry

theorem sound_act (sound : Sound world) {replica : Nat} {phase : Replica} {action : Action}
    (member : phase ∈ world.replicas) (taken : phase.act world replica action = some after) :
    Sound after := by
  unfold Replica.act at taken
  split at taken
  · cases taken
    exact sound_readAlert sound _ _ _
  · split at taken
    · cases taken
    · rename_i free
      cases taken
      exact sound_claim sound (Bool.not_eq_true _ ▸ free) (sound.known _ _ _ member)
  · split at taken
    · cases taken
      exact sound.validating (sound.held _ _ member) fun _ _ same => nomatch same
    · cases taken
  · cases taken
    split
    · exact sound.goto (fun _ _ _ same => nomatch same) fun _ _ same => nomatch same
    · exact sound.goto (fun _ _ _ same => nomatch same) fun _ _ same => nomatch same
  · cases taken

theorem sound_step (sound : Sound world) {action : Action} (taken : step world action = some after) :
    Sound after := by
  have acted (replica : Nat) (moved : ((world.replicas[replica]?).bind fun phase =>
      phase.act world replica action) = some after) : Sound after := by
    obtain ⟨phase, there, moved⟩ := Option.bind_eq_some_iff.mp moved
    exact sound_act sound (List.mem_of_getElem? there) moved
  have held (moved : (match world.holder with
      | some (.observing observation stage draft) => observe world observation stage draft action
      | some (.validating claim stage) => validate world claim stage action
      | none => none) = some after) : Sound after := by
    split at moved
    · rename_i open_
      exact sound_observe sound open_ moved
    · rename_i open_
      exact sound_validate sound open_ moved
    · cases moved
  cases action with
  | queue awaiting =>
    cases taken
    exact { sound with passed := fun pass member => (sound.passed pass member).mono fun _ own => own }
  | observe observation =>
    simp only [step] at taken
    split at taken
    · cases taken
      exact sound.observing fun _ same => nomatch same
    · cases taken
  | dispatch =>
    cases taken
    refine { sound with known := ?_, held := ?_, passed := ?_ }
    · intro delivered attempt state member
      rcases List.mem_append.mp member with old | new
      · exact sound.known delivered attempt state old
      · cases List.mem_singleton.mp new
    · intro delivered claim member
      rcases List.mem_append.mp member with old | new
      · exact sound.held delivered claim old
      · cases List.mem_singleton.mp new
    · exact fun pass member => (sound.passed pass member).mono fun _ own => own
  | crash replica =>
    cases taken
    exact sound.goto (fun _ _ _ same => nomatch same) fun _ _ same => nomatch same
  | read replica => exact acted replica taken
  | claim replica => exact acted replica taken
  | validate replica => exact acted replica taken
  | sent replica => exact acted replica taken
  | count => exact held taken
  | upsert => exact held taken
  | update => exact held taken
  | find => exact held taken
  | commit => exact held taken
  | rollback => exact held taken

end Steps

/-- **The alert of a version is claimed at most once, and its fence lets it
through only while it is true.** -/
theorem messageAlert_claimed_once {world : World} (reached : Run.Reachable step Initial world) :
    (world.claims.map (·.version)).Nodup ∧ ∀ pass ∈ world.passes, Right world pass := by
  have sound := reached.invariant (fun _ => sound_initial)
    fun _ _ _ sound _ taken => sound_step sound taken
  exact ⟨sound.unique, sound.passed⟩

/-- Two replicas after one message: the first claims, fences and sends. -/
def twoReplicas : List Action :=
  [.queue 1, .observe .notifyMessageReceived, .count, .upsert, .update, .commit, .dispatch,
    .dispatch, .read 0, .read 1, .claim 0, .claim 1, .validate 0, .count, .find, .commit, .sent 0]

theorem messageAlert_claimed_once_two_replicas : ∃ world, Run.exec step {} twoReplicas = some world ∧
    world.claims = [⟨1, 1⟩] ∧ world.passes.map (·.awaiting) = [1] ∧
      (world.claims.map (·.version)).Nodup ∧ ∀ pass ∈ world.passes, Right world pass := by
  have ran : ∃ world, Run.exec step {} twoReplicas = some world ∧ world.claims = [⟨1, 1⟩] ∧
      world.passes.map (·.awaiting) = [1] := ⟨_, rfl, rfl, rfl⟩
  obtain ⟨world, ran, claims, passes⟩ := ran
  have initial : Initial {} := ⟨rfl, rfl, rfl, rfl, rfl⟩
  exact ⟨world, ran, claims, passes,
    messageAlert_claimed_once (Run.reachable_of_exec initial ran)⟩

end BoothOperator.Push.MessageAlerts
