import BoothOperator.Lib.OrderedMap
import BoothOperator.Lib.Run
import BoothOperator.Listings.Lists

/-! The overview cache of `routes/stats.ts` in one process. A request that misses aggregates and
then stores what it made, and gives up its turn in between; an invalidation clears what is
stored, and does not reach what is still being made. -/
namespace BoothOperator.Overviews

open BoothOperator.Listings (InstallationScopeFilter)
open BoothOperator.Schema (Time)

inductive StatsWindow where
  | day | week | month | all
  deriving DecidableEq

def StatsWindow.text : StatsWindow → String
  | .day => "24h"
  | .week => "7d"
  | .month => "30d"
  | .all => "all"

def statsWindowDurationMs : StatsWindow → Option Int
  | .day => some (24 * 60 * 60 * 1000)
  | .week => some (7 * 24 * 60 * 60 * 1000)
  | .month => some (30 * 24 * 60 * 60 * 1000)
  | .all => none

structure ResolvedRange where
  window : StatsWindow
  rangeStart : Option Time
  rangeEnd : Time

def presetRange (now : Time) (window : StatsWindow) : ResolvedRange where
  window
  rangeStart := (statsWindowDurationMs window).map fun windowMs => now - windowMs
  rangeEnd := now

def scopeCacheKey : InstallationScopeFilter → String
  | .all => "all"
  | .none => "none"
  | .one installationId => installationId.text

def cacheKey (window : StatsWindow) (scope : InstallationScopeFilter) : String :=
  window.text ++ ":" ++ scopeCacheKey scope

def OVERVIEW_CACHE_TTL_MS : Int := 30000

def CACHE_MAX_ENTRIES : Nat := 64

/-- An aggregate, and how many changes of the rows had been made when they were read for it. -/
structure Overview (ν : Type*) where
  value : ν
  readAt : Nat

structure CacheEntry (ν : Type*) where
  overview : Overview ν
  expiresAt : Time

abbrev OverviewCache (ν : Type*) := OrderedMap String (CacheEntry ν)

def cachePut {ν : Type*} (now : Time) (cache : OverviewCache ν) (key : String)
    (overview : Overview ν) (ttlMs : Int) : OverviewCache ν :=
  ((cache.filter fun _ entry => ¬entry.expiresAt ≤ now).set key
    { overview, expiresAt := now + ttlMs }).trim CACHE_MAX_ENTRIES

/-- A request that missed, and its aggregate once the rows have been read. -/
structure Aggregation (ν : Type*) where
  range : ResolvedRange
  scope : InstallationScopeFilter
  overview : Option (Overview ν) := none

/-- A response from the cache, and the last change that the cache had been invalidated for. -/
structure Hit (ν : Type*) where
  overview : Overview ν
  invalidated : Nat

structure Process (δ ν : Type*) where
  db : δ
  overviewCache : OverviewCache ν := .empty
  aggregations : List (Aggregation ν) := []
  changes : Nat := 0
  invalidated : Nat := 0
  hits : List (Hit ν) := []

inductive Action (δ : Type*) where
  /-- `getCachedOverview` up to its first await. -/
  | request (now : Time) (window : StatsWindow) (scope : InstallationScopeFilter)
  /-- `computeStatsOverview` reads the rows. -/
  | read (index : Nat)
  | store (now : Time) (index : Nat)
  /-- An end, a rollover or a purge commits, and later invalidates. -/
  | change (db : δ)
  | invalidateStatsCaches (change : Nat)

variable {δ ν : Type*} (computeStatsOverview : ResolvedRange → InstallationScopeFilter → δ → ν)

namespace Process

def request (world : Process δ ν) (now : Time) (window : StatsWindow)
    (scope : InstallationScopeFilter) : Process δ ν :=
  let miss : Process δ ν := { world with
    aggregations := world.aggregations ++ [{ range := presetRange now window, scope }] }
  match world.overviewCache.get (cacheKey window scope) with
  | none => miss
  | some cachedEntry =>
    if now < cachedEntry.expiresAt then
      { world with hits := world.hits ++ [⟨cachedEntry.overview, world.invalidated⟩] }
    else miss

def read (world : Process δ ν) (index : Nat) : Option (Process δ ν) :=
  world.aggregations[index]?.bind fun aggregation =>
    match aggregation.overview with
    | some _ => none
    | none => some { world with
        aggregations := world.aggregations.set index { aggregation with
          overview := some {
            value := computeStatsOverview aggregation.range aggregation.scope world.db
            readAt := world.changes } } }

def store (world : Process δ ν) (now : Time) (index : Nat) : Option (Process δ ν) :=
  world.aggregations[index]?.bind fun aggregation =>
    aggregation.overview.map fun overview =>
      { world with
        aggregations := world.aggregations.eraseIdx index
        overviewCache := cachePut now world.overviewCache
          (cacheKey aggregation.range.window aggregation.scope) overview OVERVIEW_CACHE_TTL_MS }

def step (world : Process δ ν) : Action δ → Option (Process δ ν)
  | .request now window scope => some (world.request now window scope)
  | .read index => world.read computeStatsOverview index
  | .store now index => world.store now index
  | .change db => some { world with db, changes := world.changes + 1 }
  | .invalidateStatsCaches change =>
    if change ≤ world.changes then
      some { world with overviewCache := .empty, invalidated := max world.invalidated change }
    else none

/-- A process that has just started. -/
def Fresh (world : Process δ ν) : Prop := world = { db := world.db }

/-- No response from the cache was made of rows read before a change that the cache had been
invalidated for. -/
def Effective (world : Process δ ν) : Prop := ∀ hit ∈ world.hits, hit.invalidated ≤ hit.overview.readAt

/-- What is stored was not read before a change that the cache has been invalidated for. -/
def Timely (world : Process δ ν) : Action δ → Prop
  | .store _ index => ∀ aggregation, world.aggregations[index]? = some aggregation →
      ∀ overview, aggregation.overview = some overview → world.invalidated ≤ overview.readAt
  | _ => True

instance (world : Process δ ν) : (action : Action δ) → Decidable (Timely world action)
  | .store _ index => inferInstanceAs (Decidable
      (∀ aggregation ∈ world.aggregations[index]?, ∀ overview ∈ aggregation.overview, _ ≤ _))
  | .request .. | .read .. | .change .. | .invalidateStatsCaches .. => isTrue trivial

/-- What is cached was read after the changes that the cache has been invalidated for. -/
structure Sound (world : Process δ ν) : Prop where
  cached : ∀ key entry, world.overviewCache.get key = some entry →
    world.invalidated ≤ entry.overview.readAt
  effective : world.Effective

end Process

/-! ## The cache -/

section Put

variable {cache : OverviewCache ν} {now : Time} {key other : String} {overview : Overview ν}
  {entry : CacheEntry ν} {ttlMs : Int}

theorem get_cachePut (read : (cachePut now cache key overview ttlMs).get other = some entry) :
    entry.overview = overview ∨ cache.get other = some entry := by
  rcases OrderedMap.get_set_eq_some.mp (OrderedMap.get_of_trim read) with ⟨-, rfl⟩ | ⟨-, kept⟩
  · exact Or.inl rfl
  · exact Or.inr (OrderedMap.get_filter.mp kept).1

theorem size_cachePut_le : (cachePut now cache key overview ttlMs).size ≤ CACHE_MAX_ENTRIES :=
  OrderedMap.size_trim_le _

end Put

/-! ## Runs -/

namespace Process

variable {computeStatsOverview} {world after : Process δ ν} {action : Action δ}

theorem sound_step (sound : Sound world) (timely : Timely world action)
    (taken : world.step computeStatsOverview action = some after) : Sound after := by
  cases action with
  | request now window scope =>
    cases taken
    unfold request
    split
    · exact ⟨sound.cached, sound.effective⟩
    · rename_i entry found
      split
      · refine ⟨sound.cached, fun hit member => ?_⟩
        rcases List.mem_append.mp member with before | here
        · exact sound.effective hit before
        · rw [List.mem_singleton.mp here]
          exact sound.cached _ entry found
      · exact ⟨sound.cached, sound.effective⟩
  | read index =>
    obtain ⟨aggregation, -, made⟩ := Option.bind_eq_some_iff.mp taken
    split at made
    · cases made
    · cases made
      exact ⟨sound.cached, sound.effective⟩
  | store now index =>
    obtain ⟨aggregation, there, made⟩ := Option.bind_eq_some_iff.mp taken
    obtain ⟨overview, ready, rfl⟩ := Option.map_eq_some_iff.mp made
    refine ⟨fun key entry read => ?_, sound.effective⟩
    rcases get_cachePut read with same | before
    · rw [same]
      exact timely aggregation there overview ready
    · exact sound.cached key entry before
  | change db =>
    cases taken
    exact ⟨sound.cached, sound.effective⟩
  | invalidateStatsCaches change =>
    simp only [step] at taken
    split at taken
    · cases taken
      exact ⟨fun key entry read => (by cases read), sound.effective⟩
    · cases taken

theorem size_step (bounded : world.overviewCache.size ≤ CACHE_MAX_ENTRIES)
    (taken : world.step computeStatsOverview action = some after) :
    after.overviewCache.size ≤ CACHE_MAX_ENTRIES := by
  cases action with
  | request now window scope =>
    cases taken
    unfold request
    split
    · exact bounded
    · split <;> exact bounded
  | read index =>
    obtain ⟨aggregation, -, made⟩ := Option.bind_eq_some_iff.mp taken
    split at made
    · cases made
    · cases made
      exact bounded
  | store now index =>
    obtain ⟨aggregation, -, made⟩ := Option.bind_eq_some_iff.mp taken
    obtain ⟨overview, -, rfl⟩ := Option.map_eq_some_iff.mp made
    exact size_cachePut_le
  | change db =>
    cases taken
    exact bounded
  | invalidateStatsCaches change =>
    simp only [step] at taken
    split at taken
    · cases taken
      exact Nat.zero_le _
    · cases taken

/-- **While every aggregate is stored before an invalidation for a later change, or after none,
no invalidated response is served; and the cache is always bounded.** -/
theorem invalidation_effective (computeStatsOverview : ResolvedRange → InstallationScopeFilter → δ → ν)
    (world : Process δ ν) :
    (Run.ReachableUnder (step computeStatsOverview) Fresh Timely world → Effective world) ∧
      (Run.Reachable (step computeStatsOverview) Fresh world →
        world.overviewCache.size ≤ CACHE_MAX_ENTRIES) := by
  constructor
  · intro reached
    have sound : Sound world := reached.invariant
      (fun start fresh => by
        rw [fresh]
        exact ⟨fun key entry read => (by cases read), fun hit member => (by cases member)⟩)
      fun before action after sound timely taken => sound_step sound timely taken
    exact sound.effective
  · intro reached
    exact reached.invariant
      (fun start fresh => by
        rw [fresh]
        exact Nat.zero_le _)
      fun before action after bounded _ taken => size_step bounded taken

/-! ## A store after an invalidation -/

/-- An overview that is just the rows. -/
def rowsOf (_ : ResolvedRange) (_ : InstallationScopeFilter) (db : Nat) : Nat := db

/-- A day that is cached and served until a change is invalidated for, and a week that misses,
is read after the change, stored after the invalidation, and served. -/
def storedTimely : List (Action Nat) :=
  [.request 0 .day .all, .read 0, .store 0 0, .change 1, .request 1 .day .all,
    .request 2 .week .all, .read 0, .invalidateStatsCaches 1, .store 3 0, .request 4 .week .all]

theorem invalidation_effective_storedTimely : ∃ world : Process Nat Nat,
    Run.exec (step rowsOf) { db := 0 } storedTimely = some world ∧
      world.hits = [⟨⟨0, 0⟩, 0⟩, ⟨⟨1, 1⟩, 1⟩] ∧ Effective world := by
  have timely : Run.Along (step rowsOf) (fun world action _ => Timely world action) { db := 0 }
      storedTimely := by decide
  have fresh : Run.ReachableUnder (step rowsOf) Fresh Timely { db := 0 } := .initial rfl
  exact ⟨_, rfl, rfl, (invalidation_effective rowsOf _).1 (fresh.exec timely rfl)⟩

/-- An aggregate of rows read before a change, stored after the invalidation for it. -/
def storedLate : List (Action Nat) :=
  [.request 0 .day .all, .read 0, .change 1, .invalidateStatsCaches 1, .store 0 0,
    .request 1 .day .all]

theorem not_effective_storedLate :
    ¬ ∀ world : Process Nat Nat, Run.Reachable (step rowsOf) Fresh world → Effective world := by
  intro effective
  have ran : ∃ after, Run.exec (step rowsOf) { db := 0 } storedLate = some after ∧
      after.hits = [⟨⟨0, 0⟩, 1⟩] := ⟨_, rfl, rfl⟩
  obtain ⟨after, ran, hits⟩ := ran
  have fresh : Fresh ({ db := 0 } : Process Nat Nat) := rfl
  have late := effective after (Run.reachable_of_exec fresh ran) ⟨⟨0, 0⟩, 1⟩ (hits ▸ List.mem_cons_self)
  exact absurd late (by decide)

end Process

end BoothOperator.Overviews
