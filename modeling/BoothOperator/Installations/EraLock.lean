import BoothOperator.Lib.Run
import BoothOperator.Purges.Requests

/-! `runWithOpenEra`: a writer looks for the open installation, takes its row
shared, and looks again when the installation has ended meanwhile. What ends or
deletes an installation takes the row exclusively, so it waits for the writers
that hold it, and is one step to those that look. -/
namespace BoothOperator.Installations.EraLock

open BoothOperator.Schema
open BoothOperator.Run

/-- The installations, with when they started and ended. -/
def eras (db : Db) : List (Id × Time × Option Time) :=
  db.installations.map fun row => (row.id, row.startedAt, row.endedAt)

def openEras (db : Db) : List Id :=
  (db.installations.filter fun row => row.endedAt = none).map (·.id)

/-- The `write` that is run under the lock: none starts, ends or deletes an installation. -/
structure Callback where
  run : Id → Db → Option Db
  keeps : ∀ era db after, run era db = some after →
    eras after = eras db ∧ db.nextId ≤ after.nextId

/-- Where a writer is. -/
inductive Phase where
  | begun
  | locking (attempt : Nat) (candidate : Id)
  | reopening (attempt : Nat) (candidate : Id)
  | holding (era : Id)
  | committed (era : Id)
  /-- `NoOpenEraError`. -/
  | noOpenEra
  /-- The callback has thrown, or the transaction timed out. -/
  | aborted

structure Writer where
  preferred : Option Id
  write : Callback
  phase : Phase := .begun
  /-- The installations that ended since the transaction began. -/
  overtaken : Nat := 0
  /-- The installation it started from had ended by then. -/
  stale : Bool := false

structure World where
  db : Db
  writers : List Writer := []

inductive Action where
  | begin (preferred : Option Id) (write : Callback)
  | advance (writer : Nat)
  | abort (writer : Nat)
  | start (data : Installation) (copyQuestions : Bool) (now : Time) (startedById : Option String)
  | finish (id : Id) (now : Time) (endedById : Option String)
  | purge (id : Id)

/-- One statement of `runWithOpenEra`. -/
def advance (db : Db) (writer : Writer) : Option (Db × Writer) :=
  match writer.phase with
  | .begun =>
    match writer.preferred <|> openEra db with
    | none => some (db, { writer with phase := .noOpenEra })
    | some candidate => some (db, { writer with
        phase := .locking 0 candidate, stale := !db.lockInstallationForWrite candidate })
  | .locking attempt candidate =>
    if db.lockInstallationForWrite candidate then some (db, { writer with phase := .holding candidate })
    else some (db, { writer with phase := .reopening attempt candidate })
  | .reopening attempt candidate =>
    match nextEra db attempt candidate with
    | none => some (db, { writer with phase := .noOpenEra })
    | some next => some (db, { writer with phase := .locking (attempt + 1) next })
  | .holding era =>
    match writer.write.run era db with
    | some after => some (after, { writer with phase := .committed era })
    | none => some (db, { writer with phase := .aborted })
  | _ => none

def Phase.looking : Phase → Bool
  | .begun | .locking _ _ | .reopening _ _ => true
  | _ => false

/-- No writer holds the installation. -/
def World.unheld (world : World) (id : Id) : Bool :=
  world.writers.all fun writer =>
    match writer.phase with
    | .holding era => era ≠ id
    | _ => true

/-- An installation has ended under the writers that look for one. -/
def Writer.overtake (writer : Writer) : Writer :=
  if writer.phase.looking then { writer with overtaken := writer.overtaken + 1 } else writer

def step (world : World) : Action → Option World
  -- a preferred installation is one that a row named
  | .begin preferred write =>
    if preferred.all fun id => id < world.db.nextId then
      some { world with writers := world.writers ++ [{ preferred, write }] }
    else none
  | .advance place => do
    let self ← world.writers[place]?
    let (db, self) ← advance world.db self
    some { db, writers := world.writers.set place self }
  | .abort place => do
    let self ← world.writers[place]?
    match self.phase with
    | .committed _ | .noOpenEra | .aborted => none
    | _ => some { world with writers := world.writers.set place { self with phase := .aborted } }
  | .start data copyQuestions now startedById =>
    match openEra world.db with
    | none => some { world with db := startInstallation data copyQuestions now startedById world.db }
    | some active =>
      if world.unheld active then
        some
          { db := startInstallation data copyQuestions now startedById world.db
            writers := world.writers.map Writer.overtake }
      else none
  | .finish id now endedById =>
    if world.unheld id then
      (endInstallation id now endedById world.db).map fun db =>
        { db, writers := world.writers.map Writer.overtake }
    else none
  | .purge id =>
    if world.unheld id ∧ (world.db.installation id).any fun era => era.endedAt ≠ none then
      some { world with db := Purges.deleteEra id world.db }
    else none

/-! ## What a writer is owed -/

/-- An installation that is held is the open one, until the writer lets it go. -/
def Held (world : World) : Prop :=
  ∀ writer ∈ world.writers, ∀ era, writer.phase = .holding era → openEras world.db = [era]

/-- The installations that a writer has seen ended. -/
def Writer.lost (writer : Writer) : Nat := writer.overtaken + if writer.stale then 1 else 0

/-- What a writer still has to do before it holds an installation or fails. -/
def Phase.left : Phase → Nat
  | .begun => 2 * eraLockAttempts + 1
  | .locking attempt _ => 2 * (eraLockAttempts - attempt)
  | .reopening attempt _ => 2 * (eraLockAttempts - attempt) - 1
  | _ => 0

/-- A statement of a writer that looks changes nothing, brings it nearer to its end,
lets it have the open installation only, and lets it fail only where none is open
or three have ended under it. -/
structure Answers (before : World) (place : Nat) (after : World) : Prop where
  unchanged : ∀ writer, before.writers[place]? = some writer → writer.phase.looking = true →
    after.db = before.db
  nearer : ∀ writer writer', before.writers[place]? = some writer → writer.phase.looking = true →
    after.writers[place]? = some writer' → writer'.phase.left < writer.phase.left
  ends : ∀ writer writer', before.writers[place]? = some writer → writer.phase.looking = true →
    after.writers[place]? = some writer' →
      writer'.phase.looking = true ∨ writer'.phase = .noOpenEra ∨ ∃ era, writer'.phase = .holding era
  fails : ∀ writer writer', before.writers[place]? = some writer →
    after.writers[place]? = some writer' → writer'.phase = .noOpenEra →
      openEras after.db = [] ∨ eraLockAttempts ≤ writer'.lost

/-- The constraints of the table hold, and no transaction is open. -/
structure Initial (world : World) : Prop where
  ids : (world.db.installations.map (·.id)).Nodup
  used : ∀ row ∈ world.db.installations, row.id < world.db.nextId
  /-- `Installation_single_active_idx`. -/
  one : (openEras world.db).length ≤ 1
  writers : world.writers = []

/-! ## Installations -/

section Eras

variable {db : Db}

theorem openEras_of_eras {after : Db} (same : eras after = eras db) : openEras after = openEras db := by
  have column : ∀ db : Db, openEras db =
      ((eras db).filter fun era => era.2.2 = none).map (·.1) := by
    intro db
    simp only [openEras, eras, List.filter_map, List.map_map]
    rfl
  rw [column, column, same]

theorem ids_of_eras {after : Db} (same : eras after = eras db) :
    after.installations.map (·.id) = db.installations.map (·.id) := by
  have column : ∀ db : Db, db.installations.map (·.id) = (eras db).map (·.1) := by
    intro db
    simp [eras]
  rw [column, column, same]

theorem mem_openEras {id : Id} :
    id ∈ openEras db ↔ ∃ row ∈ db.installations, row.endedAt = none ∧ row.id = id := by
  simp [openEras, and_assoc]

theorem lock_iff (ids : (db.installations.map (·.id)).Nodup) {id : Id} :
    db.lockInstallationForWrite id = true ↔ id ∈ openEras db := by
  rw [mem_openEras]
  unfold Db.lockInstallationForWrite
  constructor
  · intro locked
    split at locked
    · cases locked
    · rename_i era found
      obtain ⟨member, named⟩ := Table.findUnique_mem found
      exact ⟨era, member, of_decide_eq_true locked, named⟩
  · rintro ⟨row, member, running, rfl⟩
    have found : db.installation row.id = some row := Table.findUnique_of_mem ids member
    rw [found]
    exact decide_eq_true running

theorem openEra_mem {id : Id} (found : openEra db = some id) : id ∈ openEras db := by
  obtain ⟨active, first, rfl⟩ := Option.map_eq_some_iff.mp found
  obtain ⟨member, running⟩ := Table.latest_mem first
  exact mem_openEras.mpr ⟨active, member, by simpa using running, rfl⟩

theorem openEra_none (none : openEra db = none) : openEras db = [] := by
  have absent := Table.latest_eq_none.mp (Option.map_eq_none_iff.mp none)
  refine List.eq_nil_iff_forall_not_mem.mpr fun id member => ?_
  obtain ⟨row, there, running, -⟩ := mem_openEras.mp member
  exact absent row there (decide_eq_true running)

/-- The only installation that is open. -/
theorem openEras_eq (one : (openEras db).length ≤ 1) {id : Id} (member : id ∈ openEras db) :
    openEras db = [id] := by
  match found : openEras db with
  | [] => rw [found] at member; cases member
  | [other] =>
    rw [found] at member
    rw [List.mem_singleton.mp member]
  | first :: second :: rest =>
    rw [found] at one
    simp at one

/-- What `startInstallation` copies leaves the installations alone. -/
theorem eras_copyQuestions (installationId : Id) (questions : List Question) (db : Db) :
    eras (questions.foldl (copyQuestion installationId) db) = eras db ∧
      db.nextId ≤ (questions.foldl (copyQuestion installationId) db).nextId := by
  induction questions generalizing db with
  | nil => exact ⟨rfl, Nat.le_refl _⟩
  | cons question rest ih =>
    obtain ⟨same, grown⟩ := ih (copyQuestion installationId db question)
    have first : eras (copyQuestion installationId db question) = eras db ∧
        db.nextId ≤ (copyQuestion installationId db question).nextId := by
      unfold copyQuestion
      split
      · exact ⟨rfl, Nat.le_refl _⟩
      · exact ⟨rfl, Nat.le_succ _⟩
    exact ⟨same.trans first.1, Nat.le_trans first.2 grown⟩

/-- The tables that installations are kept in. -/
structure Tabled (db : Db) : Prop where
  ids : (db.installations.map (·.id)).Nodup
  used : ∀ row ∈ db.installations, row.id < db.nextId
  one : (openEras db).length ≤ 1

theorem Tabled.of_eras {after : Db} (tabled : Tabled db) (same : eras after = eras db)
    (nextId : db.nextId ≤ after.nextId) : Tabled after := by
  refine ⟨ids_of_eras same ▸ tabled.ids, fun row member => ?_, openEras_of_eras same ▸ tabled.one⟩
  have known : row.id ∈ db.installations.map (·.id) :=
    ids_of_eras same ▸ List.mem_map.mpr ⟨row, member, rfl⟩
  obtain ⟨old, there, named⟩ := List.mem_map.mp known
  exact named ▸ Nat.lt_of_lt_of_le (tabled.used old there) nextId

/-- An installation that ends was open, and no longer is. -/
theorem ended_eras {id : Id} {now : Time} {endedById : Option String} {after : Db} (tabled : Tabled db)
    (taken : endInstallation id now endedById db = some after) :
    Tabled after ∧ openEras db = [id] ∧ openEras after = [] ∧ after.nextId = db.nextId := by
  unfold endInstallation at taken
  split at taken
  · rename_i locked
    have alone := openEras_eq tabled.one ((lock_iff tabled.ids).mp locked)
    cases taken
    have ids : (Table.updateMany (fun row => row.id = id)
        (fun row : Installation => { row with endedAt := some now, endedById })
          db.installations).map (·.id) = db.installations.map (·.id) :=
      Table.map_updateMany (fun row : Installation => row.id) (by intro row; rfl) db.installations
    have none : openEras { closeOutInstallation id now db with
        installations := Table.updateMany (fun row => row.id = id)
          (fun row : Installation => { row with endedAt := some now, endedById })
            db.installations } = [] := by
      refine List.eq_nil_iff_forall_not_mem.mpr fun other member => ?_
      obtain ⟨row, there, running, rfl⟩ := mem_openEras.mp member
      obtain ⟨old, stored, rfl⟩ := Table.mem_updateMany.mp there
      by_cases own : old.id = id
      · simp [own] at running
      · simp only [own, decide_false, Bool.false_eq_true, if_false] at running
        have open' : old.id ∈ openEras db := mem_openEras.mpr ⟨old, stored, running, rfl⟩
        rw [alone] at open'
        exact own (List.mem_singleton.mp open')
    refine ⟨⟨?_, fun row member => ?_, ?_⟩, alone, none, rfl⟩
    · exact ids ▸ tabled.ids
    · obtain ⟨old, stored, rfl⟩ := Table.mem_updateMany.mp member
      have used := tabled.used old stored
      split
      · exact used
      · exact used
    · exact Nat.le_trans (Nat.le_of_eq (congrArg List.length none)) (Nat.zero_le _)
  · cases taken

/-- The installation that is created is the open one, where none was. -/
theorem opened_eras (data : Installation) (previous : Option Installation) (copyQuestions : Bool)
    (now : Time) (tabled : Tabled db) (none : openEras db = []) :
    Tabled (openInstallation data previous copyQuestions now db) ∧
      openEras (openInstallation data previous copyQuestions now db) = [db.nextId] ∧
        db.nextId < (openInstallation data previous copyQuestions now db).nextId := by
  have fresh : ∀ {installation : Installation}, installation.id = db.nextId →
      installation.endedAt = Option.none → ∀ {after : Db},
        eras after = eras { db with
          installations := db.installations ++ [installation], nextId := db.nextId + 1 } →
        db.nextId + 1 ≤ after.nextId → Tabled after ∧ openEras after = [db.nextId] ∧
          db.nextId < after.nextId := by
    intro installation named running after same grown
    have opened : openEras { db with
        installations := db.installations ++ [installation], nextId := db.nextId + 1 } =
          [db.nextId] := by
      have parts : openEras { db with
          installations := db.installations ++ [installation], nextId := db.nextId + 1 } =
            openEras db ++ [installation.id] := by
        simp [openEras, running]
      rw [parts, none, named]
      rfl
    have tabled' : Tabled { db with
        installations := db.installations ++ [installation], nextId := db.nextId + 1 } := by
      refine ⟨?_, fun row member => ?_, Nat.le_of_eq (congrArg List.length opened)⟩
      · rw [List.map_append, List.map_singleton, named]
        exact Table.nodup_append_fresh tabled.ids tabled.used
      · rcases List.mem_append.mp member with old | new
        · exact Nat.lt_succ_of_lt (tabled.used row old)
        · cases List.mem_singleton.mp new
          exact named ▸ Nat.lt_succ_self _
    exact ⟨tabled'.of_eras same grown, (openEras_of_eras same).trans opened,
      Nat.lt_of_succ_le grown⟩
  unfold openInstallation
  simp only
  split
  · obtain ⟨same, grown⟩ := eras_copyQuestions db.nextId
      (carriedForward _ { db with
        installations := db.installations ++ [_], nextId := db.nextId + 1 }) _
    exact fresh rfl rfl same grown
  · exact fresh rfl rfl rfl (Nat.le_refl _)

/-- The open installation can be ended. -/
theorem endInstallation_active {now : Time} {endedById : Option String} {active : Installation}
    (tabled : Tabled db) (found : db.findActiveInstallation = some active) :
    ∃ closed, endInstallation active.id now endedById db = some closed := by
  have running : active.id ∈ openEras db := by
    apply openEra_mem
    rw [openEra, found]
    rfl
  unfold endInstallation
  rw [if_pos ((lock_iff tabled.ids).mpr running)]
  exact ⟨_, rfl⟩

/-- The installation that starts is the open one. -/
theorem started_eras (data : Installation) (copyQuestions : Bool) (now : Time)
    (startedById : Option String) (tabled : Tabled db) :
    Tabled (startInstallation data copyQuestions now startedById db) ∧
      openEras (startInstallation data copyQuestions now startedById db) = [db.nextId] ∧
        db.nextId < (startInstallation data copyQuestions now startedById db).nextId := by
  unfold startInstallation
  cases found : db.findActiveInstallation with
  | none =>
    apply opened_eras _ _ _ _ tabled
    apply openEra_none
    rw [openEra, found]
    rfl
  | some active =>
    obtain ⟨closed, taken⟩ := @endInstallation_active db now startedById active tabled found
    obtain ⟨kept, -, none, nextId⟩ := ended_eras tabled taken
    simp only [taken]
    rw [← nextId]
    exact opened_eras _ _ _ _ kept none

/-- An ended installation is deleted without the open one. -/
theorem purged_eras {id : Id} (tabled : Tabled db) (ended : id ∉ openEras db) :
    Tabled (Purges.deleteEra id db) ∧ openEras (Purges.deleteEra id db) = openEras db := by
  have same : openEras (Purges.deleteEra id db) = openEras db := by
    have kept : ∀ row ∈ db.installations.filter (fun row => row.endedAt = none),
        decide (row.id ≠ id) = true := by
      intro row member
      obtain ⟨stored, running⟩ := List.mem_filter.mp member
      refine decide_eq_true fun named => ended ?_
      exact mem_openEras.mpr ⟨row, stored, of_decide_eq_true running, named⟩
    simp only [openEras, Purges.deleteEra]
    rw [List.filter_comm, List.filter_eq_self.mpr kept]
  refine ⟨⟨(List.filter_sublist.map _).nodup tabled.ids, fun row member => ?_, same ▸ tabled.one⟩, same⟩
  exact tabled.used row (List.mem_filter.mp member).1

end Eras

/-! ## Writers -/

/-- What a writer has behind it where it stands. -/
def Writer.Sound (db : Db) (writer : Writer) : Prop :=
  match writer.phase with
  | .begun => ∀ id, writer.preferred = some id → id < db.nextId
  | .locking attempt candidate => candidate < db.nextId ∧ attempt < eraLockAttempts ∧
      attempt ≤ writer.lost ∧ (candidate ∉ openEras db → attempt + 1 ≤ writer.lost)
  | .reopening attempt candidate => candidate < db.nextId ∧ attempt < eraLockAttempts ∧
      candidate ∉ openEras db ∧ attempt + 1 ≤ writer.lost
  | .holding era => openEras db = [era]
  | _ => True

structure Sound (world : World) : Prop where
  tabled : Tabled world.db
  writers : ∀ writer ∈ world.writers, writer.Sound world.db

section Writers

variable {world after : World} {writer writer' : Writer} {db db' : Db}

/-- What one statement of a writer does. -/
structure Advanced (db : Db) (writer : Writer) (db' : Db) (writer' : Writer) : Prop where
  sound : writer'.Sound db'
  tabled : Tabled db'
  eras : openEras db' = openEras db
  nextId : db.nextId ≤ db'.nextId
  unchanged : writer.phase.looking = true → db' = db
  nearer : writer.phase.looking = true → writer'.phase.left < writer.phase.left
  ends : writer.phase.looking = true → writer'.phase.looking = true ∨
    writer'.phase = .noOpenEra ∨ ∃ era, writer'.phase = .holding era
  fails : writer'.phase = .noOpenEra → openEras db = [] ∨ eraLockAttempts ≤ writer'.lost

theorem advanced (tabled : Tabled db) (sound : writer.Sound db)
    (taken : advance db writer = some (db', writer')) : Advanced db writer db' writer' := by
  obtain ⟨preferred, write, phase, overtaken, stale⟩ := writer
  cases phase with
  | begun =>
    simp only [advance] at taken
    split at taken
    · rename_i nothing
      cases taken
      refine ⟨trivial, tabled, rfl, Nat.le_refl _, fun _ => rfl, fun _ => by simp [Phase.left],
        fun _ => .inr (.inl rfl), fun _ => .inl (openEra_none ?_)⟩
      cases preferred with
      | none => exact nothing
      | some id => cases nothing
    · rename_i candidate found
      cases taken
      have used : candidate < db.nextId := by
        cases preferred with
        | none =>
          obtain ⟨row, there, -, rfl⟩ := mem_openEras.mp (openEra_mem found)
          exact tabled.used row there
        | some id =>
          cases found
          exact sound candidate rfl
      refine ⟨⟨used, by decide, Nat.zero_le _, fun ended => ?_⟩, tabled, rfl, Nat.le_refl _,
        fun _ => rfl, fun _ => by simp [Phase.left], fun _ => .inl rfl, fun other => nomatch other⟩
      have unlocked : db.lockInstallationForWrite candidate = false := by
        rw [Bool.eq_false_iff]
        exact fun locked => ended ((lock_iff tabled.ids).mp locked)
      simp [Writer.lost, unlocked]
  | locking attempt candidate =>
    obtain ⟨used, inside, lost, ended⟩ := sound
    simp only [advance] at taken
    split at taken
    · rename_i locked
      cases taken
      refine ⟨openEras_eq tabled.one ((lock_iff tabled.ids).mp locked), tabled, rfl, Nat.le_refl _,
        fun _ => rfl, fun _ => ?_, fun _ => .inr (.inr ⟨candidate, rfl⟩), fun other => nomatch other⟩
      simp only [Phase.left]
      omega
    · rename_i unlocked
      have gone : candidate ∉ openEras db := fun member =>
        unlocked ((lock_iff tabled.ids).mpr member)
      cases taken
      refine ⟨⟨used, inside, gone, ended gone⟩, tabled, rfl, Nat.le_refl _, fun _ => rfl,
        fun _ => ?_, fun _ => .inl rfl, fun other => nomatch other⟩
      simp only [Phase.left]
      omega
  | reopening attempt candidate =>
    obtain ⟨used, inside, ended, lost⟩ := sound
    have nearer : 0 < (Phase.reopening attempt candidate).left := by
      simp only [Phase.left]
      omega
    simp only [advance] at taken
    split at taken
    · rename_i given
      cases taken
      refine ⟨trivial, tabled, rfl, Nat.le_refl _, fun _ => rfl, fun _ => nearer,
        fun _ => .inr (.inl rfl), fun _ => ?_⟩
      rcases nextEra_eq_none given with nothing | same | spent
      · exact .inl (openEra_none nothing)
      · exact absurd (openEra_mem same) ended
      · exact .inr (Nat.le_trans spent lost)
    · rename_i next goes
      cases taken
      obtain ⟨found, further⟩ := nextEra_eq_some goes
      have running := openEra_mem found
      obtain ⟨row, there, -, rfl⟩ := mem_openEras.mp running
      refine ⟨⟨tabled.used row there, further, lost, fun gone => absurd running gone⟩, tabled, rfl, Nat.le_refl _, fun _ => rfl, fun _ => ?_, fun _ => .inl rfl,
        fun other => nomatch other⟩
      simp only [Phase.left]
      omega
  | holding era =>
    simp only [advance] at taken
    split at taken
    · rename_i after ran
      cases taken
      obtain ⟨same, grown⟩ := write.keeps era db _ ran
      exact ⟨trivial, tabled.of_eras same grown, openEras_of_eras same, grown,
        fun other => (nomatch other), fun other => (nomatch other), fun other => (nomatch other),
        fun other => nomatch other⟩
    · cases taken
      exact ⟨trivial, tabled, rfl, Nat.le_refl _, fun other => (nomatch other),
        fun other => (nomatch other), fun other => (nomatch other), fun other => nomatch other⟩
  | _ => cases taken

/-- Where the open installation is the one it was. -/
theorem Writer.Sound.same (sound : writer.Sound db) (eras : openEras db' = openEras db)
    (nextId : db.nextId ≤ db'.nextId) : writer.Sound db' := by
  obtain ⟨preferred, write, phase, overtaken, stale⟩ := writer
  cases phase with
  | begun => exact fun id named => Nat.lt_of_lt_of_le (sound id named) nextId
  | locking attempt candidate =>
    obtain ⟨used, inside, lost, ended⟩ := sound
    exact ⟨Nat.lt_of_lt_of_le used nextId, inside, lost, eras ▸ ended⟩
  | reopening attempt candidate =>
    obtain ⟨used, inside, ended, lost⟩ := sound
    exact ⟨Nat.lt_of_lt_of_le used nextId, inside, eras ▸ ended, lost⟩
  | holding era => exact eras.trans sound
  | _ => trivial

/-- Where none was open, and a new one may be. -/
theorem Writer.Sound.opened (sound : writer.Sound db) (none : openEras db = [])
    (eras : ∀ id ∈ openEras db', db.nextId ≤ id) (nextId : db.nextId ≤ db'.nextId) :
    writer.Sound db' := by
  obtain ⟨preferred, write, phase, overtaken, stale⟩ := writer
  have fresh : ∀ candidate, candidate < db.nextId → candidate ∉ openEras db' :=
    fun candidate used member => Nat.not_le_of_lt used (eras candidate member)
  cases phase with
  | begun => exact fun id named => Nat.lt_of_lt_of_le (sound id named) nextId
  | locking attempt candidate =>
    obtain ⟨used, inside, lost, ended⟩ := sound
    refine ⟨Nat.lt_of_lt_of_le used nextId, inside, lost, fun _ => ended ?_⟩
    simp [none]
  | reopening attempt candidate =>
    obtain ⟨used, inside, ended, lost⟩ := sound
    exact ⟨Nat.lt_of_lt_of_le used nextId, inside, fresh candidate used, lost⟩
  | holding era => exact nomatch none.symm.trans sound
  | _ => trivial

/-- Where the open one has ended under the writers that look, none of which holds it. -/
theorem Writer.Sound.overtaken (sound : writer.Sound db) {id : Id} (open' : openEras db = [id])
    (unheld : ∀ era, writer.phase = .holding era → era ≠ id)
    (eras : ∀ id ∈ openEras db', db.nextId ≤ id) (nextId : db.nextId ≤ db'.nextId) :
    writer.overtake.Sound db' := by
  obtain ⟨preferred, write, phase, overtaken, stale⟩ := writer
  have fresh : ∀ candidate, candidate < db.nextId → candidate ∉ openEras db' :=
    fun candidate used member => Nat.not_le_of_lt used (eras candidate member)
  cases phase with
  | begun => exact fun id named => Nat.lt_of_lt_of_le (sound id named) nextId
  | locking attempt candidate =>
    obtain ⟨used, inside, lost, -⟩ := sound
    simp only [Writer.lost] at lost
    refine ⟨Nat.lt_of_lt_of_le used nextId, inside, ?_, fun _ => ?_⟩ <;>
    · simp only [Writer.lost, Writer.overtake, Phase.looking, if_true]
      omega
  | reopening attempt candidate =>
    obtain ⟨used, inside, -, lost⟩ := sound
    simp only [Writer.lost] at lost
    refine ⟨Nat.lt_of_lt_of_le used nextId, inside, fresh candidate used, ?_⟩
    simp only [Writer.lost, Writer.overtake, Phase.looking, if_true]
    omega
  | holding era =>
    have same : [id] = [era] := open'.symm.trans sound
    exact absurd (List.singleton_inj.mp same).symm (unheld era rfl)
  | _ => trivial

end Writers

/-! ## Steps -/

section Steps

variable {world after : World} {action : Action}

theorem not_held {id : Id} (unheld : world.unheld id = true) :
    ∀ writer ∈ world.writers, ∀ era, writer.phase = .holding era → era ≠ id := by
  intro writer member era holding
  have own := List.all_eq_true.mp unheld writer member
  rw [holding] at own
  exact of_decide_eq_true own

theorem Sound.step (sound : Sound world) (taken : EraLock.step world action = some after) :
    Sound after := by
  obtain ⟨tabled, writers⟩ := sound
  cases action with
  | begin preferred write =>
    simp only [EraLock.step] at taken
    split at taken
    · rename_i used
      cases taken
      refine ⟨tabled, fun writer member => ?_⟩
      rcases List.mem_append.mp member with old | new
      · exact writers writer old
      · cases List.mem_singleton.mp new
        intro id named
        cases named
        simpa using used
    · cases taken
  | advance place =>
    obtain ⟨writer, found, taken⟩ := Option.bind_eq_some_iff.mp taken
    obtain ⟨⟨db, writer'⟩, moved, taken⟩ := Option.bind_eq_some_iff.mp taken
    cases taken
    have turn := advanced tabled (writers writer (List.mem_of_getElem? found)) moved
    refine ⟨turn.tabled, fun other member => ?_⟩
    rcases List.mem_or_eq_of_mem_set member with old | rfl
    · exact (writers other old).same turn.eras turn.nextId
    · exact turn.sound
  | abort place =>
    obtain ⟨writer, found, taken⟩ := Option.bind_eq_some_iff.mp taken
    split at taken
    · cases taken
    · cases taken
    · cases taken
    · cases taken
      refine ⟨tabled, fun other member => ?_⟩
      rcases List.mem_or_eq_of_mem_set member with old | rfl
      · exact writers other old
      · trivial
  | start data copyQuestions now startedById =>
    obtain ⟨tabled', opened, grown⟩ := started_eras data copyQuestions now startedById tabled
    have new : ∀ id ∈ openEras (startInstallation data copyQuestions now startedById world.db),
        world.db.nextId ≤ id := by
      intro id member
      rw [opened] at member
      exact Nat.le_of_eq (List.mem_singleton.mp member).symm
    simp only [EraLock.step] at taken
    split at taken
    · rename_i nothing
      cases taken
      exact ⟨tabled', fun writer member =>
        (writers writer member).opened (openEra_none nothing) new (Nat.le_of_lt grown)⟩
    · rename_i active running
      split at taken
      · rename_i unheld
        cases taken
        refine ⟨tabled', fun writer member => ?_⟩
        obtain ⟨old, there, rfl⟩ := List.mem_map.mp member
        exact (writers old there).overtaken (openEras_eq tabled.one (openEra_mem running))
          (not_held unheld old there) new (Nat.le_of_lt grown)
      · cases taken
  | finish id now endedById =>
    simp only [EraLock.step] at taken
    split at taken
    · rename_i unheld
      obtain ⟨db, ended, taken⟩ := Option.map_eq_some_iff.mp taken
      cases taken
      obtain ⟨tabled', running, none, nextId⟩ := ended_eras tabled ended
      refine ⟨tabled', fun writer member => ?_⟩
      obtain ⟨old, there, rfl⟩ := List.mem_map.mp member
      refine (writers old there).overtaken running (not_held unheld old there) ?_
        (Nat.le_of_eq nextId.symm)
      intro other member
      rw [none] at member
      cases member
    · cases taken
  | purge id =>
    simp only [EraLock.step] at taken
    split at taken
    · rename_i ended
      cases taken
      have gone : id ∉ openEras world.db := by
        intro member
        have locked := (lock_iff tabled.ids).mpr member
        unfold Db.lockInstallationForWrite at locked
        cases found : world.db.installation id with
        | none => simp [found] at locked
        | some era => simp_all
      obtain ⟨tabled', same⟩ := purged_eras tabled gone
      exact ⟨tabled', fun writer member => (writers writer member).same same (Nat.le_refl _)⟩
    · cases taken

theorem Sound.held (sound : Sound world) : Held world := by
  intro writer member era holding
  have own := sound.writers writer member
  unfold Writer.Sound at own
  rw [holding] at own
  exact own

theorem sound_initial (initial : Initial world) : Sound world := by
  refine ⟨⟨initial.ids, initial.used, initial.one⟩, fun writer member => ?_⟩
  rw [initial.writers] at member
  cases member

theorem Sound.answers {place : Nat} (sound : Sound world)
    (taken : EraLock.step world (.advance place) = some after) : Answers world place after := by
  obtain ⟨writer, found, taken⟩ := Option.bind_eq_some_iff.mp taken
  obtain ⟨⟨db, writer'⟩, moved, taken⟩ := Option.bind_eq_some_iff.mp taken
  cases taken
  have turn := advanced sound.tabled (sound.writers writer (List.mem_of_getElem? found)) moved
  obtain ⟨inside, -⟩ := List.getElem?_eq_some_iff.mp found
  have mine : (world.writers.set place writer')[place]? = some writer' := List.getElem?_set_self inside
  refine ⟨fun own same looking => ?_, fun own own' same looking there => ?_,
    fun own own' same looking there => ?_, fun own own' same there failed => ?_⟩
  · cases found.symm.trans same
    exact turn.unchanged looking
  · cases found.symm.trans same
    cases mine.symm.trans there
    exact turn.nearer looking
  · cases found.symm.trans same
    cases mine.symm.trans there
    exact turn.ends looking
  · cases found.symm.trans same
    cases mine.symm.trans there
    exact (turn.fails failed).imp_left turn.eras.trans

end Steps

/-- **A held installation stays open.** In every run of writers, ends, rollovers and
purges: the installation that a writer holds is the open one until the writer
commits or aborts; a writer that looks changes nothing and comes to its end, and
it fails only where no installation is open, or where three have ended under it,
the one it started from among them if that had ended before. -/
theorem era_stays_open {start : World} (initial : Initial start) (actions : List Action) :
    Along step (fun before action after => Held after ∧
      match action with
      | .advance place => Answers before place after
      | _ => True) start actions := by
  refine along_of_invariant (fun _ _ _ sound taken => sound.step taken) ?_ (sound_initial initial)
    actions
  intro before action after sound later taken
  refine ⟨later.held, ?_⟩
  split
  · exact sound.answers taken
  · trivial

/-- An ended installation and an open one. -/
def twoEras : World where
  db := { installations := [{ id := 0, endedAt := some 1 }, { id := 1, startedAt := 1 }], nextId := 2 }

theorem initial_twoEras : Initial twoEras := ⟨by decide, by decide, by decide, rfl⟩

def nothing : Callback := ⟨fun _ db => some db, fun _ _ _ ran => by cases ran; exact ⟨rfl, Nat.le_refl _⟩⟩

/-- A writer that prefers the ended installation, a rollover, and the installation it then holds. -/
def landing : List Action :=
  [.begin (some 0) nothing, .advance 0, .advance 0, .start { id := 0 } false 5 none, .advance 0,
    .advance 0]

theorem era_stays_open_chased :
    (∃ held, exec step twoEras landing = some held ∧ openEras held.db = [2] ∧
      held.writers.map Writer.phase = [.holding 2]) ∧
      Along step (fun before action after => Held after ∧
        match action with
        | .advance place => Answers before place after
        | _ => True) twoEras (landing ++ [.advance 0]) :=
  ⟨⟨_, rfl, rfl, rfl⟩, era_stays_open initial_twoEras _⟩

/-- Such a writer, and two rollovers. -/
def chase : List Action :=
  let rollover : Action := .start { id := 0 } false 5 none
  [.begin (some 0) nothing, .advance 0, .advance 0, .advance 0, rollover, .advance 0, .advance 0,
    rollover, .advance 0]

/-- **Two rollovers are enough for a writer that started from an ended installation to fail.** -/
theorem overtaken_twice_fails : Initial twoEras ∧
    ¬ ∀ before after writer, exec step twoEras chase = some before →
      step before (.advance 0) = some after → after.writers[0]? = some writer →
        writer.overtaken ≤ 2 → writer.phase = .noOpenEra → openEras after.db = [] := by
  refine ⟨initial_twoEras, fun lands => ?_⟩
  have open' := lands _ _ _ rfl rfl rfl (by decide) rfl
  exact absurd open' (by decide)

end BoothOperator.Installations.EraLock
