import BoothOperator.Access.Refresh

/-! One refresh of a session is in flight at a time, none is started inside an
open backoff window, and a refresh makes its requests destroy the session on a
refusal of the provider alone, as long as the last reread of every refresh is
answered. A reread that fails looks like a session that is gone, and then a
failure that says nothing about the session ends it. -/
namespace BoothOperator.Access

variable {env : SessionEnv}

/-! ## The backoff table -/

section Backoffs

variable {backoffs : RefreshBackoffs} {now : Int} {id sessionId : String} {entry : RefreshBackoff}

theorem get_of_dropSoonest {turns : Nat} (read : (dropSoonest turns backoffs).get id = some entry) :
    backoffs.get id = some entry := by
  induction turns generalizing backoffs with
  | zero => exact read
  | succ turns ih =>
    rw [dropSoonest] at read
    split at read
    · exact read
    · split at read
      · exact read
      · exact (OrderedMap.get_delete_eq_some.mp (ih read)).2

theorem soonest_mem {entries : List (String × RefreshBackoff)} {first : String × RefreshBackoff}
    (found : soonest entries = some first) : first ∈ entries := by
  induction entries with
  | nil => cases found
  | cons head rest ih =>
    rw [soonest] at found
    cases later : soonest rest with
    | none =>
      rw [later] at found
      cases found
      exact List.mem_cons_self
    | some other =>
      rw [later] at found
      simp only at found
      split at found
      · cases found
        exact List.mem_cons_of_mem _ (ih later)
      · cases found
        exact List.mem_cons_self

theorem soonest_eq_none {entries : List (String × RefreshBackoff)} (none : soonest entries = none) :
    entries = [] := by
  cases entries with
  | nil => rfl
  | cons head rest =>
    rw [soonest] at none
    split at none
    · cases none
    · split at none <;> cases none

/-- As many turns as there are entries make room for one more. -/
theorem size_dropSoonest_lt {turns : Nat} (enough : backoffs.size ≤ turns) :
    (dropSoonest turns backoffs).size < REFRESH_BACKOFF_MAX_ENTRIES := by
  have some_room : 0 < REFRESH_BACKOFF_MAX_ENTRIES := by decide
  induction turns generalizing backoffs with
  | zero =>
    rw [dropSoonest]
    omega
  | succ turns ih =>
    rw [dropSoonest]
    split
    · assumption
    · split
      · rename_i full _ none
        exfalso
        apply full
        rw [OrderedMap.size, soonest_eq_none none]
        exact some_room
      · rename_i full _ entry found
        apply ih
        have there : backoffs.has entry.1 = true :=
          OrderedMap.has_eq_true.mpr ⟨entry.2, OrderedMap.get_eq_some.mpr (soonest_mem found)⟩
        have fewer := OrderedMap.size_delete_lt there
        omega

theorem get_of_boundRefreshBackoffs
    (read : (boundRefreshBackoffs now backoffs).get id = some entry) :
    backoffs.get id = some entry := by
  unfold boundRefreshBackoffs at read
  split at read
  · exact read
  · exact (OrderedMap.get_filter.mp (get_of_dropSoonest read)).1

theorem size_boundRefreshBackoffs_lt :
    (boundRefreshBackoffs now backoffs).size < REFRESH_BACKOFF_MAX_ENTRIES := by
  unfold boundRefreshBackoffs
  split
  · assumption
  · exact size_dropSoonest_lt (OrderedMap.size_filter_le _)

theorem get_noteRefreshFailure_same :
    (noteRefreshFailure now sessionId backoffs).get sessionId =
      some (backoffAfter now (backoffs.get sessionId)) := OrderedMap.get_set_same

/-- Another session keeps its entry or has none. -/
theorem get_of_noteRefreshFailure (apart : id ≠ sessionId)
    (read : (noteRefreshFailure now sessionId backoffs).get id = some entry) :
    backoffs.get id = some entry := by
  unfold noteRefreshFailure at read
  simp only at read
  rw [OrderedMap.get_set_of_ne apart] at read
  split at read
  · exact get_of_boundRefreshBackoffs read
  · exact read

theorem size_noteRefreshFailure_le (bounded : backoffs.size ≤ REFRESH_BACKOFF_MAX_ENTRIES) :
    (noteRefreshFailure now sessionId backoffs).size ≤ REFRESH_BACKOFF_MAX_ENTRIES := by
  unfold noteRefreshFailure
  simp only
  cases previous : backoffs.get sessionId with
  | none =>
    simp only [Option.isNone_none, if_true]
    have room : (boundRefreshBackoffs now backoffs).size < REFRESH_BACKOFF_MAX_ENTRIES :=
      size_boundRefreshBackoffs_lt
    by_cases there : (boundRefreshBackoffs now backoffs).has sessionId = true
    · rw [OrderedMap.size_set_of_has there]
      omega
    · rw [OrderedMap.size_set_of_not there]
      omega
  | some entry =>
    have there : backoffs.has sessionId = true := OrderedMap.has_eq_true.mpr ⟨entry, previous⟩
    simp only [Option.isNone_some, Bool.false_eq_true, if_false]
    rw [OrderedMap.size_set_of_has there]
    exact bounded

end Backoffs

/-! ## What holds of a run -/

/-- The tokens that a reread saw were those of a session in good health. -/
def Reread.SeesFresh (env : SessionEnv) : Reread → Prop
  | .answered (some current) at_ =>
    sessionIsExpired env at_ current.toOperatorSession = false ∧ accessTokenIsFresh at_ current = true
  | _ => False

/-- The session is ended for a reason: a grant failed, no reread saw fresh tokens,
and the last one was answered. A failure that is not a rejection ends a session
that the last reread found gone or expired. -/
structure Refresh.Refused (env : SessionEnv) (refresh : Refresh) : Prop where
  failed : refresh.failure ≠ none
  stale : ∀ reread ∈ refresh.rereads, ¬ reread.SeesFresh env
  answered : ∃ current at_, refresh.rereads.getLast? = some (.answered current at_) ∧
    (refresh.failure = some .transient → ∀ session, current = some session →
      sessionIsExpired env at_ session.toOperatorSession = true)

def Refresh.Sound (env : SessionEnv) (refresh : Refresh) : Prop :=
  match refresh.stage with
  | .refreshTokens | .update _ => refresh.rereads = []
  | .reread failure => refresh.rereads = [] ∧ refresh.failure = some failure
  | .sleep | .rereadAgain =>
    refresh.failure = some .rejected ∧ ∀ reread ∈ refresh.rereads, ¬ reread.SeesFresh env
  | .settled (some _) => True
  | .settled none => refresh.Refused env

/-- The window of the grant had lapsed, or its entry was dropped from the full table. -/
def Grant.Allowed (grant : Grant) : Prop :=
  ∀ window, grant.window = some window → window.retryAt ≤ grant.startedAt ∨ window.evicted = true

namespace Process

/-- The last reread of a refresh is answered: the one after a transient failure,
and the second one after a rejection. -/
def LastRereadAnswers (world : Process) : Action → Prop
  | .advanceRefresh index ok _ =>
    (world.refreshes[index]?.any fun refresh =>
      refresh.stage = .reread .transient || refresh.stage = .rereadAgain) = true → ok = true
  | _ => True

instance LastRereadAnswers.decidable (world : Process) :
    (action : Action) → Decidable (world.LastRereadAnswers action)
  | .advanceRefresh .. => inferInstanceAs (Decidable (_ → _))
  | .request .. | .advanceRequest .. | .write .. | .delete .. | .tick .. => isTrue trivial

/-- The refresh of the index is of the session, and over without a result. -/
def RefusedAt (world : Process) (sessionId : String) (index : Nat) : Prop :=
  ∃ refresh, world.refreshes[index]? = some refresh ∧ refresh.session.id = sessionId ∧
    refresh.stage = .settled none

def RequestSound (world : Process) (request : Request) : Prop :=
  match request.stage with
  | .touch session => session.id = request.sessionId
  | .await index => ∃ refresh, world.refreshes[index]? = some refresh ∧
    refresh.session.id = request.sessionId
  | .destroy (.refused index) => world.RefusedAt request.sessionId index
  | _ => True

structure Sound (world : Process) : Prop where
  pending : ∀ (index : Nat) (refresh : Refresh), world.refreshes[index]? = some refresh → refresh.settled = false →
    world.pendingRefreshes.get refresh.session.id = some index
  owner : ∀ id index, world.pendingRefreshes.get id = some index →
    ∃ refresh, world.refreshes[index]? = some refresh ∧ refresh.session.id = id
  windows : ∀ id window, world.windows.get id = some window → window.evicted = true ∨
    ∃ entry, world.refreshBackoffs.get id = some entry ∧ entry.retryAt = window.retryAt
  bounded : world.refreshBackoffs.size ≤ REFRESH_BACKOFF_MAX_ENTRIES
  grants : ∀ grant ∈ world.grants, grant.Allowed
  refreshes : ∀ refresh ∈ world.refreshes, refresh.Sound world.env
  requests : ∀ request ∈ world.requests, world.RequestSound request
  endings : ∀ ending ∈ world.endings, ∀ index, ending.cause = .refused index →
    world.RefusedAt ending.sessionId index

variable {world after : Process} {index : Nat} {refresh next : Refresh} {request : Request}

/-- Refreshes stay where they are, of their sessions, and as they are once they are over. -/
def Keeps (before after : List Refresh) : Prop :=
  ∀ (index : Nat) (refresh : Refresh), before[index]? = some refresh →
    ∃ later : Refresh, after[index]? = some later ∧ later.session = refresh.session ∧
      (refresh.settled = true → later = refresh)

theorem Keeps.refl (refreshes : List Refresh) : Keeps refreshes refreshes := by
  intro index refresh there
  exact ⟨refresh, there, rfl, fun _ => rfl⟩

theorem keeps_append (refreshes : List Refresh) (new : Refresh) :
    Keeps refreshes (refreshes ++ [new]) := by
  intro index refresh there
  obtain ⟨inside, -⟩ := List.getElem?_eq_some_iff.mp there
  exact ⟨refresh, by rw [List.getElem?_append_left inside]; exact there, rfl, fun _ => rfl⟩

theorem keeps_set {refreshes : List Refresh} (there : refreshes[index]? = some refresh)
    (running : refresh.settled = false) (same : next.session = refresh.session) :
    Keeps refreshes (refreshes.set index next) := by
  intro other old here
  obtain ⟨inside, -⟩ := List.getElem?_eq_some_iff.mp here
  by_cases own : index = other
  · subst own
    rw [here] at there
    cases there
    refine ⟨next, List.getElem?_set_self inside, same, ?_⟩
    intro finished
    rw [running] at finished
    cases finished
  · exact ⟨old, by rw [List.getElem?_set_ne own]; exact here, rfl, fun _ => rfl⟩

theorem RefusedAt.mono {sessionId : String} (refused : world.RefusedAt sessionId index)
    (keeps : Keeps world.refreshes after.refreshes) : after.RefusedAt sessionId index := by
  obtain ⟨refresh, there, own, finished⟩ := refused
  obtain ⟨later, here, -, same⟩ := keeps index refresh there
  have equal : later = refresh := same (by rw [Refresh.settled, finished])
  exact ⟨later, here, by rw [equal, own], by rw [equal, finished]⟩

theorem RequestSound.mono (sound : world.RequestSound request)
    (keeps : Keeps world.refreshes after.refreshes) : after.RequestSound request := by
  unfold RequestSound at sound ⊢
  split
  · rename_i stage
    simpa [stage] using sound
  · rename_i refresh stage
    simp only [stage] at sound
    obtain ⟨old, there, own⟩ := sound
    obtain ⟨later, here, same, -⟩ := keeps refresh old there
    exact ⟨later, here, by rw [same, own]⟩
  · rename_i refresh stage
    simp only [stage] at sound
    exact sound.mono keeps
  · trivial

/-! ## The parts of a step -/

theorem Sound.clearRefreshBackoff (sound : world.Sound) (sessionId : String) :
    (world.clearRefreshBackoff sessionId).Sound := by
  refine { sound with windows := ?_, bounded := ?_ }
  · intro id window read
    obtain ⟨apart, read⟩ := OrderedMap.get_delete_eq_some.mp read
    rcases sound.windows id window read with gone | ⟨entry, there, same⟩
    · exact Or.inl gone
    · exact Or.inr ⟨entry, OrderedMap.get_delete_eq_some.mpr ⟨apart, there⟩, same⟩
  · exact Nat.le_trans OrderedMap.size_delete_le sound.bounded

/-- A failure opens the window of its session, and marks those it drops. -/
theorem Sound.noteRefreshFailure (sound : world.Sound) (sessionId : String) :
    (world.noteRefreshFailure sessionId).Sound := by
  refine { sound with windows := ?_, bounded := size_noteRefreshFailure_le sound.bounded }
  intro id window read
  simp only [Process.noteRefreshFailure] at read ⊢
  by_cases own : id = sessionId
  · subst own
    rw [OrderedMap.get_set_same] at read
    cases read
    exact Or.inr ⟨_, get_noteRefreshFailure_same, rfl⟩
  · rw [OrderedMap.get_set_of_ne own, OrderedMap.get_mapValues] at read
    obtain ⟨before, there, rfl⟩ := Option.map_eq_some_iff.mp read
    rcases sound.windows id before there with gone | ⟨entry, old, same⟩
    · exact Or.inl (by simp [gone])
    · cases kept : (Access.noteRefreshFailure world.now sessionId world.refreshBackoffs).get id with
      | none => exact Or.inl (by simp [OrderedMap.has, kept])
      | some entry' =>
        have equal : entry' = entry :=
          Option.some.inj ((get_of_noteRefreshFailure own kept).symm.trans old)
        exact Or.inr ⟨entry', rfl, by rw [equal, same]⟩

/-- What the writers of the sessions leave alone. -/
theorem Sound.of_rows (sound : world.Sound) {operatorSession : List StoredSession} :
    { world with operatorSession := operatorSession }.Sound :=
  { sound with
    requests := fun request member => (sound.requests request member).mono (Keeps.refl _)
    endings := fun ending member index cause =>
      (sound.endings ending member index cause).mono (Keeps.refl _) }

theorem Sound.setRequest (sound : world.Sound) {stage : RequestStage}
    (own : world.RequestSound { request with stage }) :
    (world.setRequest index request stage).Sound := by
  refine { sound with requests := ?_, endings := ?_ }
  · intro other member
    rcases List.mem_or_eq_of_mem_set member with old | new
    · exact (sound.requests other old).mono (Keeps.refl _)
    · exact new ▸ own.mono (Keeps.refl _)
  · intro ending member index cause
    exact (sound.endings ending member index cause).mono (Keeps.refl _)

theorem mem_set_cases {refreshes : List Refresh} {other : Refresh}
    (member : other ∈ refreshes.set index next) : other ∈ refreshes ∨ other = next :=
  List.mem_or_eq_of_mem_set member

/-- A refresh goes on to its next await. -/
theorem Sound.setRefresh (sound : world.Sound) (there : world.refreshes[index]? = some refresh)
    (running : refresh.settled = false) (same : next.session = refresh.session)
    (own : next.Sound world.env) : (world.setRefresh index next).Sound := by
  have keeps : Keeps world.refreshes (world.setRefresh index next).refreshes :=
    keeps_set there running same
  obtain ⟨inside, -⟩ := List.getElem?_eq_some_iff.mp there
  refine { sound with
    pending := ?_, owner := ?_, refreshes := ?_, requests := ?_, endings := ?_ }
  · intro other current here unsettled
    by_cases equal : index = other
    · subst equal
      have new : next = current := by
        simpa [Process.setRefresh, List.getElem?_set_self inside] using here
      rw [← new, same]
      exact sound.pending index refresh there running
    · apply sound.pending other current _ unsettled
      simpa [Process.setRefresh, List.getElem?_set_ne equal] using here
  · intro id other read
    obtain ⟨old, here, named⟩ := sound.owner id other read
    obtain ⟨later, here', session, -⟩ := keeps other old here
    exact ⟨later, here', by rw [session, named]⟩
  · intro other member
    rcases mem_set_cases member with old | rfl
    · exact sound.refreshes other old
    · exact own
  · intro request member
    exact (sound.requests request member).mono keeps
  · intro ending member index cause
    exact (sound.endings ending member index cause).mono keeps

/-- A refresh is over, and gives its place in the table up. -/
theorem Sound.settle (sound : world.Sound) (there : world.refreshes[index]? = some refresh)
    (running : refresh.settled = false) {result : Option RefreshResult}
    (same : next.session = refresh.session)
    (own : result = none → Refresh.Refused world.env { next with stage := .settled result }) :
    (world.settle index next result).Sound := by
  have stored : Refresh.Sound world.env { next with stage := .settled result } := by
    cases result with
    | none => exact own rfl
    | some result => trivial
  have moved : (world.setRefresh index { next with stage := .settled result }).Sound :=
    sound.setRefresh there running same stored
  obtain ⟨inside, -⟩ := List.getElem?_eq_some_iff.mp there
  refine { moved with pending := ?_, owner := ?_, requests := ?_, endings := ?_ }
  · intro other current here unsettled
    have apart : current.session.id ≠ next.session.id := by
      intro equal
      have first : world.pendingRefreshes.get current.session.id = some other :=
        moved.pending other current here unsettled
      have second : world.pendingRefreshes.get refresh.session.id = some index :=
        sound.pending index refresh there running
      rw [equal, same, second] at first
      cases first
      have finished : { next with stage := RefreshStage.settled result } = current := by
        simpa [Process.settle, Process.setRefresh, List.getElem?_set_self inside] using here
      rw [← finished] at unsettled
      cases unsettled
    exact OrderedMap.get_delete_eq_some.mpr ⟨apart, moved.pending other current here unsettled⟩
  · intro id other read
    exact moved.owner id other (OrderedMap.get_delete_eq_some.mp read).2
  · intro request member
    exact (moved.requests request member).mono (Keeps.refl _)
  · intro ending member index cause
    exact (moved.endings ending member index cause).mono (Keeps.refl _)

/-- A session without a refresh in flight gets one, and no window stands against it. -/
theorem Sound.startRefresh (sound : world.Sound) {session : StoredSession} {refreshToken : String}
    (free : world.pendingRefreshes.get session.id = none)
    (cool : refreshIsCoolingDown world.now session.id world.refreshBackoffs = false) :
    (world.startRefresh session refreshToken).Sound := by
  have keeps : Keeps world.refreshes (world.startRefresh session refreshToken).refreshes :=
    keeps_append _ _
  refine { sound with
    pending := ?_, owner := ?_, grants := ?_, refreshes := ?_, requests := ?_, endings := ?_ }
  · intro index refresh there unsettled
    simp only [Process.startRefresh, List.getElem?_append] at there
    split at there
    · have old := sound.pending index refresh there unsettled
      apply OrderedMap.get_set_eq_some.mpr
      refine Or.inr ⟨?_, old⟩
      intro equal
      rw [equal, free] at old
      cases old
    · rename_i outside
      rw [List.getElem?_singleton] at there
      split at there
      · rename_i first
        cases there
        have last : index = world.refreshes.length := by omega
        rw [last]
        exact OrderedMap.get_set_same
      · cases there
  · intro id index read
    rcases OrderedMap.get_set_eq_some.mp read with ⟨rfl, rfl⟩ | ⟨-, old⟩
    · exact ⟨{ session, refreshToken }, List.getElem?_concat_length, rfl⟩
    · obtain ⟨refresh, there, own⟩ := sound.owner id index old
      obtain ⟨later, here, same, -⟩ := keeps index refresh there
      exact ⟨later, here, by rw [same, own]⟩
  · intro grant member
    rcases List.mem_append.mp member with old | new
    · exact sound.grants grant old
    · rw [List.mem_singleton] at new
      subst new
      intro window opened
      rcases sound.windows session.id window opened with gone | ⟨entry, there, same⟩
      · exact Or.inr gone
      · left
        simp only [refreshIsCoolingDown, there, Option.any_some, decide_eq_false_iff_not] at cool
        rw [← same]
        exact Int.not_lt.mp cool
  · intro refresh member
    rcases List.mem_append.mp member with old | new
    · exact sound.refreshes refresh old
    · rw [List.mem_singleton] at new
      subst new
      rfl
  · intro request member
    exact (sound.requests request member).mono keeps
  · intro ending member index cause
    exact (sound.endings ending member index cause).mono keeps

/-- A reread that did not see a session in good health. -/
theorem not_seesFresh {ok : Bool}
    (unhealthy : ∀ current, Reread.current (world.reread refresh ok) = some current →
      world.healthy current = false) : ¬ (world.reread refresh ok).SeesFresh world.env := by
  cases ok with
  | false => exact id
  | true =>
    cases stored : world.stored refresh.session.id with
    | none => simp [reread, stored, Reread.SeesFresh]
    | some current =>
      have ill : world.healthy current = false := by
        apply unhealthy
        simp [reread, stored, Reread.current]
      simp only [reread, stored, Reread.SeesFresh, if_true]
      rintro ⟨unexpired, fresh⟩
      rw [healthy, expired, unexpired, fresh] at ill
      cases ill

theorem last_reread {rereads : List Reread} {ok : Bool} (answers : ok = true) :
    ∃ current at_, (rereads ++ [world.reread refresh ok]).getLast? =
      some (.answered current at_) ∧ at_ = world.now ∧
        Reread.current (world.reread refresh ok) = current := by
  subst answers
  exact ⟨world.stored refresh.session.id, world.now, by simp [reread], rfl, by
    simp [reread, Reread.current]⟩

/-- A rejected refresh that saw nothing fresh sleeps before it looks again. -/
theorem Sound.sleepOn (sound : world.Sound) (there : world.refreshes[index]? = some refresh)
    {ok : Bool} (stage : refresh.stage = .reread .rejected)
    (unhealthy : ∀ current, Reread.current (world.reread refresh ok) = some current →
      world.healthy current = false) :
    (world.setRefresh index { refresh with
      rereads := refresh.rereads ++ [world.reread refresh ok], stage := .sleep }).Sound := by
  have own : refresh.Sound world.env := sound.refreshes refresh (List.mem_of_getElem? there)
  simp only [Refresh.Sound, stage] at own
  obtain ⟨none_yet, failed⟩ := own
  refine sound.setRefresh there (by rw [Refresh.settled, stage]) rfl ⟨failed, ?_⟩
  intro reread member
  rw [none_yet, List.nil_append, List.mem_singleton] at member
  exact member ▸ not_seesFresh unhealthy

/-- A refresh that failed transiently ends its session where the reread finds it gone or expired. -/
theorem Sound.endOnTransient (sound : world.Sound) (there : world.refreshes[index]? = some refresh)
    {ok : Bool} (stage : refresh.stage = .reread .transient) (answered : ok = true)
    (unhealthy : ∀ current, Reread.current (world.reread refresh ok) = some current →
      world.healthy current = false ∧ world.expired current = true) :
    (world.settle index
      { refresh with rereads := refresh.rereads ++ [world.reread refresh ok] } none).Sound := by
  have own : refresh.Sound world.env := sound.refreshes refresh (List.mem_of_getElem? there)
  simp only [Refresh.Sound, stage] at own
  obtain ⟨none_yet, failed⟩ := own
  refine sound.settle there (by rw [Refresh.settled, stage]) rfl ?_
  intro _
  refine ⟨by rw [failed]; exact Option.some_ne_none _, ?_, ?_⟩
  · intro reread member
    rw [none_yet, List.nil_append, List.mem_singleton] at member
    exact member ▸ not_seesFresh fun current saw => (unhealthy current saw).1
  · obtain ⟨current, at_, last, rfl, saw⟩ := last_reread answered
    refine ⟨current, world.now, last, fun _ session found => ?_⟩
    exact (unhealthy session (saw.trans found)).2

/-- A rejected refresh ends its session where the second reread finds nothing fresh either. -/
theorem Sound.endOnRejected (sound : world.Sound) (there : world.refreshes[index]? = some refresh)
    {ok : Bool} (stage : refresh.stage = .rereadAgain) (answered : ok = true)
    (unhealthy : ∀ current, Reread.current (world.reread refresh ok) = some current →
      world.healthy current = false) :
    (world.settle index
      { refresh with rereads := refresh.rereads ++ [world.reread refresh ok] } none).Sound := by
  have own : refresh.Sound world.env := sound.refreshes refresh (List.mem_of_getElem? there)
  simp only [Refresh.Sound, stage] at own
  obtain ⟨rejected, stale⟩ := own
  refine sound.settle there (by rw [Refresh.settled, stage]) rfl ?_
  intro _
  refine ⟨by rw [rejected]; exact Option.some_ne_none _, ?_, ?_⟩
  · intro reread member
    rcases List.mem_append.mp member with old | new
    · exact stale reread old
    · rw [List.mem_singleton] at new
      exact new ▸ not_seesFresh unhealthy
  · obtain ⟨current, at_, last, -, -⟩ := last_reread answered
    refine ⟨current, at_, last, fun transient => ?_⟩
    simp [rejected] at transient

/-- A turn of a refresh of which the last reread is answered. -/
theorem Sound.advanceRefresh (sound : world.Sound) (there : world.refreshes[index]? = some refresh)
    {ok : Bool} {answer : Except Failure TokenSet}
    (answers : refresh.stage = .reread .transient ∨ refresh.stage = .rereadAgain → ok = true)
    (taken : world.advanceRefresh index refresh ok answer = some after) : after.Sound := by
  have own : refresh.Sound world.env := sound.refreshes refresh (List.mem_of_getElem? there)
  unfold Process.advanceRefresh at taken
  unfold Refresh.Sound at own
  cases stage : refresh.stage with
  | refreshTokens =>
    have running : refresh.settled = false := by rw [Refresh.settled, stage]
    simp only [stage] at taken own
    cases answer with
    | ok tokens =>
      cases taken
      exact sound.setRefresh there running rfl own
    | error failure =>
      cases taken
      exact sound.setRefresh there running rfl ⟨own, rfl⟩
  | update tokens =>
    have running : refresh.settled = false := by rw [Refresh.settled, stage]
    simp only [stage] at taken own
    have fails : (world.setRefresh index
        { refresh with stage := .reread .transient, failure := some .transient }).Sound :=
      sound.setRefresh there running rfl ⟨own, rfl⟩
    split at taken
    · split at taken
      · cases taken
        exact (sound.of_rows.clearRefreshBackoff _).settle there running rfl nofun
      · cases taken
        exact fails
    · cases taken
      exact fails
  | reread failure =>
    have running : refresh.settled = false := by rw [Refresh.settled, stage]
    simp only [stage] at taken
    split at taken
    · rename_i current saw
      have only (other : StoredSession)
          (seen : Reread.current (world.reread refresh ok) = some other) : other = current :=
        Option.some.inj (seen.symm.trans saw)
      split at taken
      · cases taken
        exact (sound.clearRefreshBackoff _).settle there running rfl nofun
      · rename_i ill
        have unhealthy : world.healthy current = false := by simpa using ill
        cases failure with
        | rejected =>
          cases taken
          exact sound.sleepOn there stage fun other seen => only other seen ▸ unhealthy
        | transient =>
          simp only [reduceCtorEq, if_false] at taken
          split at taken
          · rename_i expired
            cases taken
            exact sound.endOnTransient there stage (answers (Or.inl stage)) fun other seen =>
              only other seen ▸ ⟨unhealthy, expired⟩
          · cases taken
            exact (sound.noteRefreshFailure _).settle there running rfl nofun
    · rename_i unseen
      have nothing (other : StoredSession)
          (seen : Reread.current (world.reread refresh ok) = some other) : False := by
        rw [unseen] at seen
        cases seen
      cases failure with
      | rejected =>
        cases taken
        exact sound.sleepOn there stage fun other seen => (nothing other seen).elim
      | transient =>
        cases taken
        exact sound.endOnTransient there stage (answers (Or.inl stage)) fun other seen =>
          (nothing other seen).elim
  | sleep =>
    have running : refresh.settled = false := by rw [Refresh.settled, stage]
    simp only [stage] at taken own
    cases taken
    exact sound.setRefresh there running rfl own
  | rereadAgain =>
    have running : refresh.settled = false := by rw [Refresh.settled, stage]
    have answered : ok = true := answers (Or.inr stage)
    simp only [stage] at taken
    split at taken
    · rename_i current saw
      split at taken
      · cases taken
        exact (sound.clearRefreshBackoff _).settle there running rfl nofun
      · rename_i ill
        cases taken
        apply sound.endOnRejected there stage answered
        intro other seen
        rw [← Option.some.inj (saw.symm.trans seen)]
        simpa using ill
    · rename_i unseen
      cases taken
      apply sound.endOnRejected there stage answered
      intro other seen
      rw [unseen] at seen
      cases seen
  | settled result =>
    simp only [stage] at taken
    cases taken

theorem stored_id {id : String} {session : StoredSession} (found : world.stored id = some session) :
    session.id = id := (Table.findUnique_mem found).2

/-- A request shares the refresh that is in flight, or starts one outside the window. -/
theorem Sound.refreshIfAccessTokenExpired (sound : world.Sound) {session : StoredSession}
    (own : session.id = request.sessionId) :
    (world.refreshIfAccessTokenExpired index request session).Sound := by
  unfold Process.refreshIfAccessTokenExpired
  split
  · exact (sound.clearRefreshBackoff _).setRequest trivial
  · split
    · exact sound.setRequest trivial
    · split
      · exact sound.setRequest trivial
      · rename_i refreshToken _ warm
        split
        · rename_i pending shared
          obtain ⟨refresh, there, named⟩ := sound.owner session.id pending shared
          exact sound.setRequest ⟨refresh, there, named.trans own⟩
        · rename_i free
          have cool : refreshIsCoolingDown world.now session.id world.refreshBackoffs = false := by
            simpa [OrderedMap.has, free] using warm
          apply (sound.startRefresh free cool).setRequest
          exact ⟨{ session, refreshToken }, List.getElem?_concat_length, own⟩

theorem Sound.removeSession (sound : world.Sound) {session : StoredSession} {cause : Cause}
    (refused : ∀ index, cause = .refused index → world.RefusedAt session.id index) :
    (world.removeSession session cause).Sound := by
  refine { sound with requests := ?_, endings := ?_ }
  · intro request member
    exact (sound.requests request member).mono (Keeps.refl _)
  · intro ending member index named
    rcases List.mem_append.mp member with old | new
    · exact (sound.endings ending old index named).mono (Keeps.refl _)
    · rw [List.mem_singleton] at new
      subst new
      exact (refused index named).mono (Keeps.refl _)

theorem Sound.advanceRequest (sound : world.Sound) (member : request ∈ world.requests) {ok : Bool}
    (taken : world.advanceRequest index request ok = some after) : after.Sound := by
  have own : world.RequestSound request := sound.requests request member
  have finished : (world.setRequest index request .finished).Sound := sound.setRequest trivial
  unfold Process.advanceRequest at taken
  unfold RequestSound at own
  cases stage : request.stage with
  | read =>
    simp only [stage] at taken
    split at taken
    · rename_i session found
      cases taken
      cases ok with
      | true => exact sound.setRequest (stored_id found)
      | false => exact finished
    · cases taken
      exact finished
  | touch session =>
    simp only [stage] at taken own
    split at taken
    · cases taken
      exact finished
    · split at taken
      · cases taken
        exact sound.setRequest trivial
      · cases taken
        exact sound.refreshIfAccessTokenExpired own
  | await refresh =>
    simp only [stage] at taken own
    obtain ⟨shared, there, named⟩ := own
    split at taken
    · cases taken
      exact sound.setRequest trivial
    · rename_i settled
      cases taken
      rw [there, Option.map_some, Option.some.injEq] at settled
      exact sound.setRequest ⟨shared, there, named, settled⟩
    · cases taken
  | destroy cause =>
    simp only [stage] at taken own
    split at taken
    · rename_i session found
      split at taken
      · cases taken
        refine ((sound.removeSession ?_).clearRefreshBackoff _).setRequest trivial
        rintro refresh rfl
        rw [stored_id found]
        exact own
      · cases taken
        exact finished
    · cases taken
      exact finished
  | served result =>
    simp only [stage] at taken
    cases taken
  | finished =>
    simp only [stage] at taken
    cases taken

theorem Sound.step (sound : world.Sound) {action : Action}
    (answers : world.LastRereadAnswers action) (taken : world.step action = some after) :
    after.Sound := by
  cases action with
  | request sessionId =>
    cases taken
    refine { sound with requests := ?_, endings := ?_ }
    · intro request member
      rcases List.mem_append.mp member with old | new
      · exact (sound.requests request old).mono (Keeps.refl _)
      · rw [List.mem_singleton] at new
        subst new
        trivial
    · intro ending member index named
      exact (sound.endings ending member index named).mono (Keeps.refl _)
  | advanceRequest index ok =>
    obtain ⟨request, there, taken⟩ := Option.bind_eq_some_iff.mp taken
    exact sound.advanceRequest (List.mem_of_getElem? there) taken
  | advanceRefresh index ok answer =>
    obtain ⟨refresh, there, taken⟩ := Option.bind_eq_some_iff.mp taken
    apply sound.advanceRefresh there _ taken
    intro last
    apply answers
    simpa [there] using last
  | write session =>
    cases taken
    exact sound.of_rows
  | delete sessionId =>
    cases taken
    exact sound.of_rows
  | tick ms =>
    cases taken
    refine { sound with requests := ?_, endings := ?_ }
    · intro request member
      exact (sound.requests request member).mono (Keeps.refl _)
    · intro ending member index named
      exact (sound.endings ending member index named).mono (Keeps.refl _)

theorem Fresh.sound (fresh : world.Fresh) : world.Sound := by
  rw [fresh]
  constructor <;> simp

/-- A session whose access token has expired, and that lives for another day. -/
def stale : StoredSession :=
  { id := "session", createdAt := 0, expiresAt := 86400000, accessToken := some "AT1"
    refreshToken := some "RT1", accessTokenExpiresAt := some 30000 }

def serving : Process := { operatorSession := [stale] }

end Process

end BoothOperator.Access
