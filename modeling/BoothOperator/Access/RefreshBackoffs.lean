import Mathlib.Order.WellFounded
import BoothOperator.Access.RefreshRuns

/-! The backoff table over runs of failures, ends of sessions and time. The table is bounded when
a session is added that it does not have: the lapsed entries go, and then the one that lapses
soonest. What is evicted so begins again with the shortest delay. -/
namespace BoothOperator.Access

/-! ## The eviction loop -/

/-- One turn of the loop. -/
inductive Evicts : RefreshBackoffs → RefreshBackoffs → Prop where
  | turn {backoffs : RefreshBackoffs} {entry : String × RefreshBackoff} :
      REFRESH_BACKOFF_MAX_ENTRIES ≤ backoffs.size → soonest backoffs.entries = some entry →
      Evicts backoffs (backoffs.delete entry.1)

section Loop

variable {backoffs after : RefreshBackoffs} {id other : String} {entry kept : RefreshBackoff}
  {now : Int} {turns : Nat}

theorem has_soonest {first : String × RefreshBackoff} (found : soonest backoffs.entries = some first) :
    backoffs.has first.1 = true :=
  OrderedMap.has_eq_true.mpr ⟨first.2, OrderedMap.get_eq_some.mpr (soonest_mem found)⟩

theorem Evicts.size_lt (turn : Evicts backoffs after) : after.size < backoffs.size := by
  obtain ⟨-, found⟩ := turn
  exact OrderedMap.size_delete_lt (has_soonest found)

/-- The loop ends from every table. -/
theorem evicts_wellFounded : WellFounded fun after before => Evicts before after :=
  Subrelation.wf Evicts.size_lt (InvImage.wf OrderedMap.size Nat.lt_wfRel.wf)

theorem evicts_dropSoonest (turns : Nat) (backoffs : RefreshBackoffs) :
    Relation.ReflTransGen Evicts backoffs (dropSoonest turns backoffs) := by
  induction turns generalizing backoffs with
  | zero => exact .refl
  | succ turns ih =>
    rw [dropSoonest]
    split
    · exact .refl
    · rename_i full
      split
      · exact .refl
      · rename_i first found
        exact .head (.turn (Nat.le_of_not_lt full) found) (ih _)

theorem soonest_le {entries : List (String × RefreshBackoff)} {first entry : String × RefreshBackoff}
    (found : soonest entries = some first) (member : entry ∈ entries) :
    first.2.retryAt ≤ entry.2.retryAt := by
  induction entries generalizing first with
  | nil => cases member
  | cons head rest ih =>
    rw [soonest] at found
    cases later : soonest rest with
    | none =>
      rw [later] at found
      cases found
      rw [soonest_eq_none later] at member
      rw [List.mem_singleton.mp member]
    | some least =>
      rw [later] at found
      simp only at found
      rcases List.mem_cons.mp member with rfl | there
      · split at found
        · cases found
          omega
        · cases found
          exact Int.le_refl _
      · have bound := ih later there
        split at found
        · cases found
          exact bound
        · cases found
          omega

/-- What the loop drops lapses no later than anything that it keeps. -/
theorem le_of_dropped (there : backoffs.get id = some entry)
    (gone : (dropSoonest turns backoffs).get id = none)
    (stays : (dropSoonest turns backoffs).get other = some kept) :
    entry.retryAt ≤ kept.retryAt := by
  induction turns generalizing backoffs with
  | zero => cases there.symm.trans gone
  | succ turns ih =>
    have keptBefore := get_of_dropSoonest stays
    rw [dropSoonest] at gone stays
    split at gone
    · cases there.symm.trans gone
    · rename_i full
      rw [if_neg full] at stays
      split at gone
      · cases there.symm.trans gone
      · rename_i first found
        rw [found] at stays
        by_cases own : id = first.1
        · have same : first = (id, entry) := by
            have read := OrderedMap.get_eq_some.mpr (soonest_mem found)
            rw [← own, there] at read
            exact Prod.ext own.symm (Option.some.inj read).symm
          have least := soonest_le found (OrderedMap.get_eq_some.mp keptBefore)
          rwa [same] at least
        · exact ih (OrderedMap.get_delete_eq_some.mpr ⟨own, there⟩) gone stays

/-- What bounding evicts has lapsed, or lapses no later than anything that it keeps. -/
theorem lapsed_or_soonest_of_bound (there : backoffs.get id = some entry)
    (gone : (boundRefreshBackoffs now backoffs).get id = none)
    (stays : (boundRefreshBackoffs now backoffs).get other = some kept) :
    entry.retryAt ≤ now ∨ entry.retryAt ≤ kept.retryAt := by
  unfold boundRefreshBackoffs at gone stays
  split at gone
  · cases there.symm.trans gone
  · rename_i full
    rw [if_neg full] at stays
    by_cases lapsed : entry.retryAt ≤ now
    · exact Or.inl lapsed
    · refine Or.inr (le_of_dropped ?_ gone stays)
      exact OrderedMap.get_filter.mpr ⟨there, by simpa using lapsed⟩

end Loop

/-! ## Runs -/

inductive BackoffEvent where
  | failed (sessionId : String)
  | cleared (sessionId : String)
  | time (now : Int)

/-- What happened to the table: a failure with its delay and the sessions that it evicted. -/
inductive Noted where
  | failed (sessionId : String) (delay : Int) (evicted : List String)
  | cleared (sessionId : String)

/-- The table, the clock, and what happened, the last first. -/
structure BackoffWorld where
  refreshBackoffs : RefreshBackoffs := .empty
  now : Int
  log : List Noted := []

/-- The sessions of a table that another one does not have. -/
def missing (before after : RefreshBackoffs) : List String :=
  (before.entries.map Prod.fst).filter fun id => !after.has id

namespace BackoffWorld

def step (world : BackoffWorld) : BackoffEvent → Option BackoffWorld
  | .failed sessionId =>
    let after := noteRefreshFailure world.now sessionId world.refreshBackoffs
    let retryAt := (backoffAfter world.now (world.refreshBackoffs.get sessionId)).retryAt
    some { world with
      refreshBackoffs := after
      log := .failed sessionId (retryAt - world.now) (missing world.refreshBackoffs after) ::
        world.log }
  | .cleared sessionId =>
    some { world with
      refreshBackoffs := world.refreshBackoffs.delete sessionId
      log := .cleared sessionId :: world.log }
  | .time now => some { world with now }

def Fresh (world : BackoffWorld) : Prop := world = { now := world.now }

end BackoffWorld

/-- The delays of the consecutive failures of a session, the last first. -/
def delaysOf (ends : Noted → Bool) (id : String) : List Noted → List Int
  | [] => []
  | noted :: log =>
    if ends noted then []
    else match noted with
      | .failed sessionId delay _ =>
        if sessionId = id then delay :: delaysOf ends id log else delaysOf ends id log
      | .cleared _ => delaysOf ends id log

/-- The session's refresh succeeded or it ended. -/
def Noted.clears (id : String) : Noted → Bool
  | .failed _ _ _ => false
  | .cleared sessionId => sessionId = id

/-- The session's entry is no longer in the table. -/
def Noted.drops (id : String) : Noted → Bool
  | .failed _ _ evicted => id ∈ evicted
  | .cleared sessionId => sessionId = id

/-- The delay of the n-th consecutive failure. -/
def delayOf (n : Nat) : Nat := min (REFRESH_BACKOFF_BASE_MS * 2 ^ (n - 1)) REFRESH_BACKOFF_MAX_MS

theorem delayOf_le {n m : Nat} (less : n ≤ m) : delayOf n ≤ delayOf m := by
  have power : 2 ^ (n - 1) ≤ 2 ^ (m - 1) := Nat.pow_le_pow_right (by decide) (by omega)
  have scaled := Nat.mul_le_mul_left REFRESH_BACKOFF_BASE_MS power
  unfold delayOf
  omega

/-- The delays of so many failures, the first first. -/
def delays (count : Nat) : List Int := (List.range count).map fun n => (delayOf (n + 1) : Int)

theorem delays_succ (count : Nat) :
    delays (count + 1) = delays count ++ [(delayOf (count + 1) : Int)] := by
  simp [delays, List.range_succ]

theorem delays_sorted (count : Nat) : (delays count).Pairwise (· ≤ ·) := by
  refine List.pairwise_map.mpr (List.pairwise_lt_range.imp fun less => ?_)
  exact Int.ofNat_le.mpr (delayOf_le (by omega))

/-- What is evicted has lapsed, or lapses no later than anything that stays. -/
def EvictsSoonest (now : Int) (sessionId : String) (before after : RefreshBackoffs) : Prop :=
  ∀ id entry, before.get id = some entry → after.get id = none →
    entry.retryAt ≤ now ∨ ∀ other kept, other ≠ sessionId → after.get other = some kept →
      entry.retryAt ≤ kept.retryAt

section Step

variable {world after : BackoffWorld} {backoffs : RefreshBackoffs} {id sessionId : String} {now : Int}

theorem mem_missing {before after : RefreshBackoffs} :
    id ∈ missing before after ↔ before.has id = true ∧ after.has id = false := by
  rw [missing, List.mem_filter, OrderedMap.mem_map_fst_iff_has, Bool.not_eq_true']

theorem get_noteRefreshFailure_of_ne (apart : id ≠ sessionId) :
    (noteRefreshFailure now sessionId backoffs).get id =
      if (backoffs.get sessionId).isNone then (boundRefreshBackoffs now backoffs).get id
      else backoffs.get id := by
  unfold noteRefreshFailure
  simp only
  rw [OrderedMap.get_set_of_ne apart]
  split <;> rfl

theorem evictsSoonest_noteRefreshFailure (now : Int) (sessionId : String)
    (backoffs : RefreshBackoffs) :
    EvictsSoonest now sessionId backoffs (noteRefreshFailure now sessionId backoffs) := by
  intro id entry there gone
  have apart : id ≠ sessionId := by
    rintro rfl
    rw [get_noteRefreshFailure_same] at gone
    cases gone
  rw [get_noteRefreshFailure_of_ne apart] at gone
  split at gone
  next fresh =>
    by_cases lapsed : entry.retryAt ≤ now
    · exact Or.inl lapsed
    · refine Or.inr fun other kept other_ne stays => ?_
      rw [get_noteRefreshFailure_of_ne other_ne, if_pos fresh] at stays
      exact (lapsed_or_soonest_of_bound there gone stays).resolve_left lapsed
  next => cases there.symm.trans gone

theorem get_delete_of_ne (apart : id ≠ sessionId) :
    (backoffs.delete sessionId).get id = backoffs.get id :=
  Option.ext fun _ => OrderedMap.get_delete_eq_some.trans (and_iff_right apart)

/-- A session whose entry is not evicted keeps it. -/
theorem get_noteRefreshFailure_of_stays (apart : id ≠ sessionId)
    (stays : id ∉ missing backoffs (noteRefreshFailure now sessionId backoffs)) :
    (noteRefreshFailure now sessionId backoffs).get id = backoffs.get id := by
  cases read : (noteRefreshFailure now sessionId backoffs).get id with
  | some entry => rw [get_of_noteRefreshFailure apart read]
  | none =>
    cases there : backoffs.get id with
    | none => rfl
    | some entry =>
      refine absurd (mem_missing.mpr ⟨?_, ?_⟩) stays
      · rw [OrderedMap.has, there, Option.isSome_some]
      · rw [OrderedMap.has, read, Option.isSome_none]

end Step

/-- The table is bounded, and has the count of each session's consecutive failures, whose delays
are those of the schedule. -/
structure BackoffWorld.Sound (world : BackoffWorld) : Prop where
  bounded : world.refreshBackoffs.size ≤ REFRESH_BACKOFF_MAX_ENTRIES
  counted : ∀ id, ((world.refreshBackoffs.get id).map RefreshBackoff.failures).getD 0 =
    (delaysOf (Noted.drops id) id world.log).length
  scheduled : ∀ id, (delaysOf (Noted.drops id) id world.log).reverse =
    delays (delaysOf (Noted.drops id) id world.log).length

section Sound

variable {world after : BackoffWorld} {event : BackoffEvent} {id sessionId : String}

section Failure

variable {log : List Noted} {delay : Int} {evicted : List String}

theorem delaysOf_cons_failed (ends : Noted → Bool) :
    delaysOf ends id (.failed sessionId delay evicted :: log) =
      if ends (.failed sessionId delay evicted) then []
      else if sessionId = id then delay :: delaysOf ends id log else delaysOf ends id log := rfl

theorem delaysOf_cons_cleared (ends : Noted → Bool) :
    delaysOf ends id (.cleared sessionId :: log) =
      if ends (.cleared sessionId) then [] else delaysOf ends id log := rfl

theorem delaysOf_failed_of_mem (gone : id ∈ evicted) :
    delaysOf (Noted.drops id) id (.failed sessionId delay evicted :: log) = [] := by
  rw [delaysOf_cons_failed, Noted.drops, if_pos (decide_eq_true gone)]

theorem delaysOf_failed_same (stays : id ∉ evicted) :
    delaysOf (Noted.drops id) id (.failed id delay evicted :: log) =
      delay :: delaysOf (Noted.drops id) id log := by
  rw [delaysOf_cons_failed, Noted.drops, if_neg (by simpa using stays)]
  exact if_pos rfl

theorem delaysOf_failed_of_ne (apart : sessionId ≠ id) (stays : id ∉ evicted) :
    delaysOf (Noted.drops id) id (.failed sessionId delay evicted :: log) =
      delaysOf (Noted.drops id) id log := by
  rw [delaysOf_cons_failed, Noted.drops, if_neg (by simpa using stays)]
  exact if_neg apart

end Failure

/-- The delay of a failure is the one of the schedule. -/
theorem BackoffWorld.Sound.delay (sound : world.Sound) (sessionId : String) :
    (backoffAfter world.now (world.refreshBackoffs.get sessionId)).retryAt - world.now =
      (delayOf ((delaysOf (Noted.drops sessionId) sessionId world.log).length + 1) : Int) := by
  simp only [backoffAfter, sound.counted sessionId, delayOf]
  omega

theorem BackoffWorld.Sound.failed (sound : world.Sound)
    (taken : world.step (.failed sessionId) = some after) : after.Sound := by
  cases taken
  have own : sessionId ∉ missing world.refreshBackoffs
      (noteRefreshFailure world.now sessionId world.refreshBackoffs) := by
    rw [mem_missing, OrderedMap.has, OrderedMap.has, get_noteRefreshFailure_same]
    intro gone
    cases gone.2
  refine ⟨size_noteRefreshFailure_le sound.bounded, fun id => ?_, fun id => ?_⟩
  · by_cases gone : id ∈ missing world.refreshBackoffs
        (noteRefreshFailure world.now sessionId world.refreshBackoffs)
    · have absent := (mem_missing.mp gone).2
      rw [OrderedMap.has, Option.isSome_eq_false_iff, Option.isNone_iff_eq_none] at absent
      rw [delaysOf_failed_of_mem gone, absent]
      rfl
    · by_cases same : sessionId = id
      · subst same
        rw [delaysOf_failed_same gone, get_noteRefreshFailure_same, List.length_cons,
          ← sound.counted sessionId]
        rfl
      · rw [delaysOf_failed_of_ne same gone,
          get_noteRefreshFailure_of_stays (Ne.symm same) gone]
        exact sound.counted id
  · by_cases gone : id ∈ missing world.refreshBackoffs
        (noteRefreshFailure world.now sessionId world.refreshBackoffs)
    · rw [delaysOf_failed_of_mem gone]
      rfl
    · by_cases same : sessionId = id
      · subst same
        rw [delaysOf_failed_same gone, List.reverse_cons, List.length_cons, delays_succ,
          sound.scheduled sessionId, sound.delay sessionId]
      · rw [delaysOf_failed_of_ne same gone]
        exact sound.scheduled id

theorem delaysOf_cleared (apart : sessionId ≠ id) (log : List Noted) :
    delaysOf (Noted.drops id) id (.cleared sessionId :: log) = delaysOf (Noted.drops id) id log := by
  rw [delaysOf_cons_cleared, Noted.drops, if_neg (by simpa using apart)]

theorem BackoffWorld.Sound.cleared (sound : world.Sound)
    (taken : world.step (.cleared sessionId) = some after) : after.Sound := by
  cases taken
  refine ⟨OrderedMap.size_delete_le.trans sound.bounded, fun id => ?_, fun id => ?_⟩
  · by_cases same : sessionId = id
    · subst same
      simp [OrderedMap.get_delete_same, delaysOf_cons_cleared, Noted.drops]
    · rw [delaysOf_cleared same, get_delete_of_ne (Ne.symm same)]
      exact sound.counted id
  · by_cases same : sessionId = id
    · subst same
      simp [delaysOf_cons_cleared, Noted.drops, delays]
    · rw [delaysOf_cleared same]
      exact sound.scheduled id

theorem BackoffWorld.Sound.step (sound : world.Sound) (taken : world.step event = some after) :
    after.Sound := by
  cases event with
  | failed sessionId => exact sound.failed taken
  | cleared sessionId => exact sound.cleared taken
  | time now =>
    cases taken
    exact ⟨sound.bounded, sound.counted, sound.scheduled⟩

theorem BackoffWorld.Fresh.sound (fresh : world.Fresh) : world.Sound := by
  rw [fresh]
  exact ⟨Nat.zero_le _, fun _ => rfl, fun _ => rfl⟩

theorem sound_of_reachable (reached : Run.Reachable BackoffWorld.step BackoffWorld.Fresh world) :
    world.Sound :=
  reached.invariant (fun _ fresh => fresh.sound) fun _ _ _ sound _ taken => sound.step taken

end Sound

/-- An entry goes by being cleared, or it had lapsed or lapses no later than anything that stays. -/
def GoesSoonest (world : BackoffWorld) (event : BackoffEvent) (after : BackoffWorld) : Prop :=
  ∀ id entry, world.refreshBackoffs.get id = some entry → after.refreshBackoffs.get id = none →
    event = .cleared id ∨ entry.retryAt ≤ world.now ∨ ∀ other kept, event ≠ .failed other →
      after.refreshBackoffs.get other = some kept → entry.retryAt ≤ kept.retryAt

theorem goesSoonest_of_step {world after : BackoffWorld} {event : BackoffEvent}
    (taken : world.step event = some after) : GoesSoonest world event after := by
  intro id entry there gone
  cases event with
  | failed sessionId =>
    cases taken
    refine Or.inr ((evictsSoonest_noteRefreshFailure _ _ _ id entry there gone).imp_right ?_)
    intro soonest other kept another stays
    exact soonest other kept (fun same => another (by rw [same])) stays
  | cleared sessionId =>
    cases taken
    by_cases same : id = sessionId
    · exact Or.inl (by rw [same])
    · simp only [get_delete_of_ne same] at gone
      cases there.symm.trans gone
  | time now =>
    cases taken
    cases there.symm.trans gone

/-- In every run the table is bounded, the eviction loop ends with room for one more, an entry that
is evicted had lapsed or lapses no later than any that stays, and the delays of the failures of a
session since its entry was last cleared or evicted are those of the schedule. -/
theorem refresh_backoffs_bounded {world : BackoffWorld}
    (reached : Run.Reachable BackoffWorld.step BackoffWorld.Fresh world) :
    world.refreshBackoffs.size ≤ REFRESH_BACKOFF_MAX_ENTRIES ∧
      WellFounded (fun after before => Evicts before after) ∧
      (boundRefreshBackoffs world.now world.refreshBackoffs).size < REFRESH_BACKOFF_MAX_ENTRIES ∧
      (REFRESH_BACKOFF_MAX_ENTRIES ≤ world.refreshBackoffs.size →
        Relation.ReflTransGen Evicts
          (world.refreshBackoffs.filter fun _ entry => ¬ entry.retryAt ≤ world.now)
          (boundRefreshBackoffs world.now world.refreshBackoffs)) ∧
      (∀ event after, world.step event = some after → GoesSoonest world event after) ∧
      ∀ id, ∃ count, (delaysOf (Noted.drops id) id world.log).reverse =
          (List.range count).map (fun n => (delayOf (n + 1) : Int)) ∧
        (delaysOf (Noted.drops id) id world.log).reverse.Pairwise (· ≤ ·) := by
  have sound := sound_of_reachable reached
  refine ⟨sound.bounded, evicts_wellFounded, size_boundRefreshBackoffs_lt, fun full => ?_,
    fun event after => goesSoonest_of_step, fun id => ⟨_, sound.scheduled id, ?_⟩⟩
  · rw [boundRefreshBackoffs, if_neg (Nat.not_lt.mpr full)]
    have fewer := evicts_dropSoonest world.refreshBackoffs.size
      (world.refreshBackoffs.filter fun _ entry => ¬ entry.retryAt ≤ world.now)
    exact fewer
  · rw [sound.scheduled id]
    exact delays_sorted _

/-! Eviction begins the schedule again: a lapsed entry of a full table goes before the session's
next failure. -/

section Restart

def sessionOf (n : Nat) : String := String.ofList (List.replicate n 'x')

theorem sessionOf_injective {n m : Nat} (same : sessionOf n = sessionOf m) : n = m := by
  have lists := String.ofList_injective same
  simpa using congrArg List.length lists

/-- So many sessions that have failed once, at once. -/
structure FailedOnce (count : Nat) (world : BackoffWorld) : Prop where
  reached : Run.Reachable BackoffWorld.step BackoffWorld.Fresh world
  start : world.now = 0
  entries : world.refreshBackoffs.entries =
    (List.range count).map fun n => (sessionOf n, ⟨1, 15000⟩)
  logged : delaysOf (Noted.clears (sessionOf 0)) (sessionOf 0) world.log =
    if count = 0 then [] else [15000]

variable {world : BackoffWorld} {count : Nat}

theorem FailedOnce.get_none (once : FailedOnce count world) {n : Nat} (new : count ≤ n) :
    world.refreshBackoffs.get (sessionOf n) = none := by
  cases read : world.refreshBackoffs.get (sessionOf n) with
  | none => rfl
  | some entry =>
    have member := OrderedMap.get_eq_some.mp read
    rw [once.entries, List.mem_map] at member
    obtain ⟨other, among, same⟩ := member
    have equal := sessionOf_injective (Prod.mk.inj same).1
    have below := List.mem_range.mp among
    omega

theorem exists_failedOnce (count : Nat) (fits : count ≤ REFRESH_BACKOFF_MAX_ENTRIES) :
    ∃ world, FailedOnce count world := by
  induction count with
  | zero => exact ⟨{ now := 0 }, .initial rfl, rfl, rfl, rfl⟩
  | succ count ih =>
    obtain ⟨world, once⟩ := ih (by omega)
    have absent := once.get_none (Nat.le_refl count)
    have room : world.refreshBackoffs.size < REFRESH_BACKOFF_MAX_ENTRIES := by
      rw [OrderedMap.size, once.entries, List.length_map, List.length_range]
      omega
    have taken := (rfl : world.step (.failed (sessionOf count)) = some _)
    refine ⟨_, once.reached.next trivial taken, once.start, ?_, ?_⟩
    · have fresh : ¬ world.refreshBackoffs.has (sessionOf count) = true := by
        simp [OrderedMap.has, absent]
      simp only [noteRefreshFailure, absent, Option.isNone_none, if_true, boundRefreshBackoffs,
        if_pos room, OrderedMap.set, dif_neg fresh, once.entries, once.start, List.range_succ,
        List.map_append]
      rfl
    · rw [delaysOf, Noted.clears, if_neg Bool.false_ne_true, once.logged, absent, once.start]
      cases count with
      | zero => rfl
      | succ count =>
        have another : sessionOf (count + 1) ≠ sessionOf 0 := by
          intro same
          cases sessionOf_injective same
        rw [if_neg another]
        rfl

/-- The sweep of a full table that has lapsed leaves nothing. -/
theorem FailedOnce.swept (once : FailedOnce REFRESH_BACKOFF_MAX_ENTRIES world) :
    (boundRefreshBackoffs 15000 world.refreshBackoffs).get (sessionOf 0) = none := by
  have full : ¬ world.refreshBackoffs.size < REFRESH_BACKOFF_MAX_ENTRIES := by
    rw [OrderedMap.size, once.entries, List.length_map, List.length_range]
    omega
  cases read : (boundRefreshBackoffs 15000 world.refreshBackoffs).get (sessionOf 0) with
  | none => rfl
  | some entry =>
    rw [boundRefreshBackoffs, if_neg full] at read
    obtain ⟨there, live⟩ := OrderedMap.get_filter.mp (get_of_dropSoonest read)
    have member := OrderedMap.get_eq_some.mp there
    rw [once.entries, List.mem_map] at member
    obtain ⟨_, -, same⟩ := member
    rw [← (Prod.mk.inj same).2] at live
    exact absurd live (by decide)

/-- A full table that has lapsed, a failure that sweeps it, and a clear. -/
theorem refresh_backoffs_bounded_swept_cleared :
    ∃ full swept after : BackoffWorld, FailedOnce REFRESH_BACKOFF_MAX_ENTRIES full ∧
      Run.exec BackoffWorld.step full
        [.time 15000, .failed (sessionOf REFRESH_BACKOFF_MAX_ENTRIES)] = some swept ∧
      swept.refreshBackoffs.get (sessionOf 0) = none ∧
      Run.exec BackoffWorld.step swept
        [.cleared (sessionOf REFRESH_BACKOFF_MAX_ENTRIES),
          .failed (sessionOf REFRESH_BACKOFF_MAX_ENTRIES), .failed (sessionOf 0)] = some after ∧
      after.refreshBackoffs.size ≤ REFRESH_BACKOFF_MAX_ENTRIES ∧
      WellFounded (fun later before => Evicts before later) ∧
      (boundRefreshBackoffs after.now after.refreshBackoffs).size < REFRESH_BACKOFF_MAX_ENTRIES ∧
      (REFRESH_BACKOFF_MAX_ENTRIES ≤ after.refreshBackoffs.size →
        Relation.ReflTransGen Evicts
          (after.refreshBackoffs.filter fun _ entry => ¬ entry.retryAt ≤ after.now)
          (boundRefreshBackoffs after.now after.refreshBackoffs)) ∧
      (∀ event later, after.step event = some later → GoesSoonest after event later) ∧
      ∀ id, ∃ count, (delaysOf (Noted.drops id) id after.log).reverse =
          (List.range count).map (fun n => (delayOf (n + 1) : Int)) ∧
        (delaysOf (Noted.drops id) id after.log).reverse.Pairwise (· ≤ ·) := by
  obtain ⟨full, once⟩ := exists_failedOnce REFRESH_BACKOFF_MAX_ENTRIES (Nat.le_refl _)
  have another : sessionOf REFRESH_BACKOFF_MAX_ENTRIES ≠ sessionOf 0 := by
    intro same
    cases sessionOf_injective same
  have gone : (noteRefreshFailure 15000 (sessionOf REFRESH_BACKOFF_MAX_ENTRIES)
      full.refreshBackoffs).get (sessionOf 0) = none := by
    rw [get_noteRefreshFailure_of_ne (Ne.symm another), once.get_none (Nat.le_refl _)]
    exact once.swept
  have swept := once.reached.exec Run.along_trivial (rfl : Run.exec BackoffWorld.step full
    [.time 15000, .failed (sessionOf REFRESH_BACKOFF_MAX_ENTRIES)] = some _)
  have cleared := swept.exec Run.along_trivial (rfl : Run.exec BackoffWorld.step _
    [.cleared (sessionOf REFRESH_BACKOFF_MAX_ENTRIES),
      .failed (sessionOf REFRESH_BACKOFF_MAX_ENTRIES), .failed (sessionOf 0)] = some _)
  exact ⟨full, _, _, once, rfl, gone, rfl, refresh_backoffs_bounded cleared⟩

/-- As long as no one clears its entry, the failures of a session are not always those of the
schedule: the first one and the one after an eviction both have the shortest delay. -/
theorem refresh_backoffs_restart_after_eviction :
    ¬ ∀ world, Run.Reachable BackoffWorld.step BackoffWorld.Fresh world → ∀ id, ∃ count,
      (delaysOf (Noted.clears id) id world.log).reverse =
        (List.range count).map fun n => (delayOf (n + 1) : Int) := by
  intro scheduled
  obtain ⟨world, once⟩ := exists_failedOnce REFRESH_BACKOFF_MAX_ENTRIES (Nat.le_refl _)
  have later := once.reached.next trivial (rfl : world.step (.time 15000) = some _)
  have evicting := later.next trivial (rfl : BackoffWorld.step { world with now := 15000 }
    (.failed (sessionOf REFRESH_BACKOFF_MAX_ENTRIES)) = some _)
  have again := evicting.next trivial
    (rfl : BackoffWorld.step _ (.failed (sessionOf 0)) = some _)
  have another : sessionOf REFRESH_BACKOFF_MAX_ENTRIES ≠ sessionOf 0 := by
    intro same
    cases sessionOf_injective same
  have evicted : (noteRefreshFailure 15000 (sessionOf REFRESH_BACKOFF_MAX_ENTRIES)
      world.refreshBackoffs).get (sessionOf 0) = none := by
    rw [get_noteRefreshFailure_of_ne (Ne.symm another), once.get_none (Nat.le_refl _)]
    exact once.swept
  obtain ⟨count, delays⟩ := scheduled _ again (sessionOf 0)
  simp only [delaysOf, Noted.clears, Bool.false_eq_true, if_false, if_true, if_neg another,
    once.logged, evicted, if_neg (by decide : REFRESH_BACKOFF_MAX_ENTRIES ≠ 0)] at delays
  have two : count = 2 := by simpa using (congrArg List.length delays).symm
  subst two
  exact absurd delays (by decide)

end Restart

end BoothOperator.Access
