import BoothOperator.Events.Splitting

/-! The same batch again. A session's row already says what its entry says, so
the second delivery patches it to itself, and every event is a duplicate. -/
namespace BoothOperator.Events

open BoothOperator.Schema
open BoothOperator.Latest

/-- `events.length - accepted`. -/
def duplicates (events : List EventInput) (accepted : Nat) : Int := events.length - accepted

section Redelivery

variable {columns : ColumnTypes} {now later : Time} {db after : Db} {events : List EventInput}
  {era : Id}

/-! ## Sessions -/

theorem patch_patch (init : SessionInit) (row : CallSession) :
    patch init (patch init row) = patch init row := by
  simp only [patch, CallSession.mk.injEq, true_and, and_true]
  refine ⟨?_, ?_, ?_, ?_, ?_, ?_⟩
  · cases init.endedAt <;> rfl
  · cases init.digitsDialed.join <;> rfl
  · cases init.outcome.join <;> rfl
  · cases truthy init.recordingId.join <;> rfl
  · cases init.durationMs.join.bind int32 <;> rfl
  · cases truthy init.version.join <;> rfl

/-- A value that a test for truth lets through is the value itself. -/
theorem truthy_or_self (text : Option String) : (truthy text <|> text) = text := by
  cases text with
  | none => rfl
  | some value =>
    by_cases empty : value = ""
    · subst empty
      rfl
    · rw [truthy_of_ne empty]
      rfl

/-- A row created from an entry says what the entry says. -/
theorem patch_createdSession (init : SessionInit) :
    patch init (createdSession now era init) = createdSession now era init := by
  simp only [patch, createdSession, CallSession.mk.injEq, true_and, and_true]
  refine ⟨?_, ?_, ?_, ?_, ?_, ?_⟩
  · cases init.endedAt <;> rfl
  · cases init.digitsDialed.join <;> rfl
  · cases init.outcome.join <;> rfl
  · exact truthy_or_self init.recordingId.join
  · cases init.durationMs.join.bind int32 <;> rfl
  · exact truthy_or_self init.version.join

/-- What an entry made of a row, it makes of it again. -/
theorem rowAfter_again {init : SessionInit} (row : Option CallSession)
    (found : patchable db init.id (rowAfter db now era init row) = true) :
    patch init (rowAfter db now era init row) = rowAfter db now era init row := by
  cases row with
  | none => exact patch_createdSession init
  | some row =>
    simp only [rowAfter, Option.elim_some] at found ⊢
    by_cases matched : patchable db init.id row = true
    · rw [if_pos matched]
      exact patch_patch init row
    · rw [if_neg matched] at found
      exact absurd found matched

/-- An entry whose session's row already says what it says changes nothing. -/
theorem writeSession_again (distinct : (db.callSessions.map (·.id)).Nodup) {init : SessionInit}
    (fits : sessionFits columns init = true) {row : CallSession}
    (found : db.callSession init.id = some row)
    (same : patchable db init.id row = true → patch init row = row) :
    writeSession columns now era init db = .ok db := by
  unfold writeSession
  rw [fits, if_neg (by decide), any_patchable distinct, found, Option.any_some]
  by_cases matched : patchable db init.id row = true
  · rw [if_pos matched]
    have kept : Table.updateMany (patchable db init.id) (patch init) db.callSessions =
        db.callSessions := by
      rw [Table.updateMany]
      conv_rhs => rw [← List.map_id db.callSessions]
      refine List.map_congr_left fun other member => ?_
      by_cases own : patchable db init.id other = true
      · have named : other.id = init.id := (of_decide_eq_true own).1
        have there : db.callSession init.id = some other :=
          named ▸ Table.findUnique_of_mem distinct member
        rw [found, Option.some.injEq] at there
        subst there
        simp [own, same own]
      · simp [own]
    rw [kept]
  · rw [if_neg matched]
    simp

theorem sessionFrozen_congr {other : Db} (same : other.installations = db.installations) {id : String}
    (row : other.callSession id = db.callSession id) :
    sessionFrozen other id = sessionFrozen db id := by
  simp only [sessionFrozen, row, eraOpen, Option.all, lock_congr same]

/-- A frozen session's row is left alone, and stays frozen. -/
theorem sessionFrozen_ingestInto (consistent : Consistent db)
    (accepted : ingestInto columns now events (readKnown events db) era db = .ok after) {id : String}
    (frozen : sessionFrozen db id = true) : sessionFrozen after id = true := by
  have installations := installations_ingestInto accepted
  have row := callSession_ingestInto consistent accepted id
  cases found : db.callSession id with
  | none => simp [sessionFrozen, found] at frozen
  | some stored =>
    have closed : eraOpen db stored.installationId = false := by
      simpa [sessionFrozen, found] using frozen
    have same : after.callSession id = db.callSession id := by
      rw [row]
      cases entry events id with
      | none => rfl
      | some init => simp [found, rowAfter, patchable, closed]
    rw [sessionFrozen_congr installations same]
    exact frozen

/-! ## Events -/

theorem stored_insertEvents {known : Known}
    (inserted : events.foldlM (insertEvent columns now known era) db = .ok after)
    (other : EventInput) :
    stored after other = (stored db other || events.any fun event => sameKey event other) := by
  induction events generalizing db with
  | nil =>
    cases inserted
    simp
  | cons first rest ih =>
    obtain ⟨middle, taken, inserted⟩ := foldlM_cons_ok.mp inserted
    rw [ih inserted, stored_insertEvent taken, List.any_cons, Bool.or_assoc]

/-- Each insert adds at most one row, at the end. -/
theorem insertEvents_rows {known : Known}
    (inserted : events.foldlM (insertEvent columns now known era) db = .ok after) :
    ∃ rows, after.boothEvents = db.boothEvents ++ rows ∧ rows.length ≤ events.length := by
  induction events generalizing db with
  | nil =>
    cases inserted
    exact ⟨[], by simp, by simp⟩
  | cons first rest ih =>
    obtain ⟨middle, taken, inserted⟩ := foldlM_cons_ok.mp inserted
    obtain ⟨rows, added, bound⟩ := ih inserted
    unfold insertEvent at taken
    split at taken
    · cases taken
    split at taken
    · cases taken
      refine ⟨rows, added, ?_⟩
      rw [List.length_cons]
      omega
    simp only at taken
    split at taken
    · cases taken
    · cases taken
      refine ⟨buildRow now known era first db.nextId :: rows, ?_, ?_⟩
      · rw [added]
        simp
      · simp only [List.length_cons]
        omega

/-- Events that are all stored are all skipped. -/
theorem insertEvents_again {known : Known} (fits : ∀ event ∈ events, eventFits columns event = true)
    (there : ∀ event ∈ events, stored db event = true) :
    events.foldlM (insertEvent columns now known era) db = .ok db := by
  induction events with
  | nil => rfl
  | cons first rest ih =>
    rw [List.forall_mem_cons] at fits there
    refine foldlM_cons_ok.mpr ⟨db, ?_, ih fits.2 there.2⟩
    simp [insertEvent, fits.1, there.1]

/-! ## The transaction -/

theorem writeInits_again {known : Known} {inits : List SessionInit}
    (each : ∀ init ∈ inits, writeInit columns now known era db init = .ok db) :
    inits.foldlM (writeInit columns now known era) db = .ok db := by
  induction inits with
  | nil => rfl
  | cons first rest ih =>
    rw [List.forall_mem_cons] at each
    exact foldlM_cons_ok.mpr ⟨db, each.1, ih each.2⟩

theorem ingestInto_again (consistent : Consistent db) (filed : (db.installation era).isSome)
    (accepted : ingestInto columns now events (readKnown events db) era db = .ok after) :
    ingestInto columns later events (readKnown events after) era after = .ok after := by
  have ingestible := (ingestInto_accepted consistent filed).mp ⟨after, accepted⟩
  have installations := installations_ingestInto accepted
  have consistent' := consistent_ingestInto consistent accepted
  have sessions : (sessionInits events).foldlM
      (writeInit columns later (knownAlone events after) era) after = .ok after := by
    refine writeInits_again fun init member => ?_
    have found := entry_of_mem member
    have frozen : (knownAlone events after).frozen init.id = sessionFrozen after init.id :=
      frozen_knownAlone consistent' (referenced_of_entry found)
    unfold writeInit
    rw [frozen]
    by_cases closed : sessionFrozen after init.id = true
    · rw [if_pos closed]
    · rw [if_neg closed]
      have thawed : sessionFrozen db init.id = false := by
        by_contra frozen
        rw [Bool.not_eq_false] at frozen
        exact closed (sessionFrozen_ingestInto consistent accepted frozen)
      have fits : sessionFits columns init = true := by
        refine (sessionFits_entry ingestible.texts found).mpr fun event ended => ?_
        exact ⟨ingestible.durations _ event ended thawed, ingestible.calls _ event ended thawed⟩
      have row := callSession_ingestInto consistent accepted init.id
      rw [found] at row
      refine writeSession_again consistent'.sessions fits row fun matched => ?_
      rw [patchable_congr installations] at matched
      exact rowAfter_again (db.callSession init.id) matched
  have skipped : events.foldlM
      (insertEvent columns later (knownAlone events after) era) after = .ok after := by
    refine insertEvents_again ingestible.texts fun event member => ?_
    obtain ⟨middle, -, inserted⟩ := ingestInto_ok.mp accepted
    rw [stored_insertEvents inserted, Bool.or_eq_true]
    refine .inr (List.any_eq_true.mpr ⟨event, member, ?_⟩)
    simp [sameKey]
  exact ingestInto_ok.mpr ⟨after, sessions, skipped⟩

end Redelivery

/-- **A batch delivered again changes nothing and is all duplicates.** -/
theorem redelivery_idempotent {columns : ColumnTypes} {now : Time} {db after : Db} {accepted : Nat}
    (consistent : Consistent db) (batch : Batch)
    (ran : ingest columns now batch.events db = .ok (after, accepted)) (later : Time) :
    ingest columns later batch.events after = .ok (after, 0) ∧
      (∃ rows, after.boothEvents = db.boothEvents ++ rows ∧ rows.length = accepted) ∧
      accepted + duplicates batch.events accepted = batch.events.length ∧
      0 ≤ duplicates batch.events accepted := by
  obtain ⟨least, most⟩ := batch.size
  have nonempty : batch.events ≠ [] := List.ne_nil_of_length_pos least
  obtain ⟨active, opened, into⟩ := ingest_ok nonempty ran
  have filed : (db.installation active.id).isSome := by
    have found : db.installation active.id = some active :=
      Table.findUnique_of_mem consistent.installations (findActiveInstallation_mem opened).1
    rw [found]
    rfl
  have again : ingestInto columns later batch.events (readKnown batch.events after) active.id after =
      .ok after := ingestInto_again consistent filed into
  have still : after.findActiveInstallation = some active := by
    rw [findActiveInstallation_congr (installations_ingestInto into)]
    exact opened
  have counted : accepted = after.boothEvents.length - db.boothEvents.length := by
    unfold ingest at ran
    rw [if_neg nonempty, if_neg (Nat.not_lt.mpr most), opened] at ran
    simp only [into, Except.ok.injEq, Prod.mk.injEq, true_and] at ran
    exact ran.symm
  obtain ⟨middle, written, inserted⟩ := ingestInto_ok.mp into
  obtain ⟨rows, added, bound⟩ := insertEvents_rows inserted
  have before : middle.boothEvents = db.boothEvents := by rw [writeInits_frame written]
  rw [before] at added
  have length : rows.length = accepted := by
    rw [counted, added, List.length_append]
    omega
  refine ⟨?_, ⟨rows, added, length⟩, ?_, ?_⟩
  · unfold ingest
    rw [if_neg nonempty, if_neg (Nat.not_lt.mpr most), still]
    simp only [again, Nat.sub_self]
  · unfold duplicates
    omega
  · unfold duplicates
    omega

/-- A call from start to end, delivered twice: three rows, and then four duplicates. -/
theorem redelivery_idempotent_wholeCall :
    ∃ after, ingest roomyColumns 0 wholeCall openDb = .ok (after, 3) ∧
      after.boothEvents.map (·.eventId) = ["e-1", "e-2", "e-3"] ∧
      ingest roomyColumns 60000 wholeCall after = .ok (after, 0) ∧
      duplicates wholeCall 0 = 4 := by
  refine ⟨_, rfl, rfl, ?_, rfl⟩
  exact (redelivery_idempotent consistent_openDb wholeCallBatch rfl 60000).1

end BoothOperator.Events
