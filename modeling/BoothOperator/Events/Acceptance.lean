import BoothOperator.Events.Derivation

/-! When an ingest is accepted: the tables refuse a batch exactly for an event
whose session nobody has started or ended, for a call whose duration is no
32-bit integer, and for values their columns cannot hold. -/
namespace BoothOperator.Events

open BoothOperator.Schema
open BoothOperator.Latest

/-- The session's row belongs to an era that has ended. -/
def sessionFrozen (db : Db) (id : String) : Bool :=
  (db.callSession id).any fun row => ! eraOpen db row.installationId

/-- `@@unique([boothId, eventId])` among the events of the request. -/
def sameKey (one other : EventInput) : Bool :=
  one.boothId = other.boothId ∧ one.eventId = other.eventId

/-- What a batch must be for every row of it to be taken. -/
structure Ingestible (columns : ColumnTypes) (db : Db) (events : List EventInput) : Prop where
  /-- The session of an event that is not a duplicate is stored, or started or
  ended in the batch. -/
  sessions : ∀ before event after, events = before ++ event :: after →
    stored db event = false → (∀ earlier ∈ before, sameKey earlier event = false) →
      ∀ id, event.sessionId = some id →
        (db.callSession id).isSome ∨ ∃ other ∈ events, derives id other
  /-- The last end of a call whose era is open reports no duration, or one that fits. -/
  durations : ∀ id event, last (ends id) events = some event → sessionFrozen db id = false →
    ∀ value, reportedDuration event = some value → (int32 value).isSome
  texts : ∀ event ∈ events, eventFits columns event
  calls : ∀ id event, last (ends id) events = some event → sessionFrozen db id = false →
    (payloadText event "digits_dialed").all columns.text ∧
      (reportedRecording event).all columns.text

section Accepted

variable {columns : ColumnTypes} {now : Time} {db after : Db} {events : List EventInput} {era : Id}

/-! ## Sessions -/

theorem frozen_knownAlone (consistent : Consistent db) {id : String}
    (named : id ∈ referenced events) :
    (knownAlone events db).frozen id = sessionFrozen db id := by
  unfold Known.frozen sessionFrozen
  rw [session_knownAlone named]
  cases found : db.callSession id with
  | none => rfl
  | some row =>
    obtain ⟨member, own⟩ := Table.findUnique_mem found
    cases filed : row.installationId with
    | none => simp [filed, eraOpen]
    | some era =>
      obtain ⟨installation, there⟩ := Option.isSome_iff_exists.mp (consistent.eras row member era filed)
      obtain ⟨exists_, rfl⟩ := Table.findUnique_mem there
      have known : row ∈ (readKnown events db).sessions :=
        List.mem_filter.mpr ⟨member, by simpa [own] using named⟩
      have open_ : db.lockInstallationForWrite installation.id = decide (installation.endedAt = none) := by
        simp [Db.lockInstallationForWrite, there]
      simp only [Option.bind_some, filed, Option.any_some, eraOpen, Option.all_some, open_]
      rw [Bool.eq_iff_iff]
      simp only [decide_eq_true_eq, Bool.not_eq_true', decide_eq_false_iff_not]
      constructor
      · intro listed
        obtain ⟨other, chosen, same⟩ := List.mem_map.mp listed
        obtain ⟨chosen, past⟩ := List.mem_filter.mp chosen
        have one : other = installation :=
          Table.eq_of_key_eq consistent.installations chosen exists_ same
        exact one ▸ (of_decide_eq_true past).1
      · intro ended
        refine List.mem_map.mpr ⟨installation, List.mem_filter.mpr ⟨exists_, ?_⟩, rfl⟩
        refine decide_eq_true ⟨ended, List.any_eq_true.mpr ⟨row, known, ?_⟩⟩
        simp [filed]

/-- The values of an entry fit when those of the last end do. -/
theorem sessionFits_entry (texts : ∀ event ∈ events, eventFits columns event) {id : String}
    {init : SessionInit} (found : entry events id = some init) :
    sessionFits columns init = true ↔
      ∀ event, last (ends id) events = some event →
        (∀ value, reportedDuration event = some value → (int32 value).isSome) ∧
          (payloadText event "digits_dialed").all columns.text ∧
            (reportedRecording event).all columns.text := by
  rw [entry_eq, Option.map_eq_some_iff] at found
  obtain ⟨derived, chosen, rfl⟩ := found
  obtain ⟨member, kind⟩ := last_mem chosen
  have session : derived.sessionId = some id := by
    rcases Bool.or_eq_true _ _ ▸ kind with start | ended
    · exact (of_decide_eq_true start).2
    · exact (of_decide_eq_true ended).2
  have row := texts derived member
  simp only [eventFits, session, decide_eq_true_eq, Option.all_some] at row
  obtain ⟨_, booth, boot, _, named, _, _, version⟩ := row
  have moment : ∀ kind event, last kind events = some event → columns.timestamp event.occurredAt := by
    intro kind event found
    have row := texts event (last_mem found).1
    simp only [eventFits, decide_eq_true_eq] at row
    exact row.2.2.2.1
  have began : ((last (starts id) events).map (·.occurredAt)).all columns.timestamp = true := by
    cases found : last (starts id) events with
    | none => rfl
    | some event => exact moment _ event found
  cases found : last (ends id) events with
  | none => simp [sessionFits, named, booth, boot, began, version]
  | some event =>
    have ended := moment _ event found
    simp [sessionFits, named, booth, boot, began, version, ended, Option.all_eq_true]

theorem writeSession_accepted {init : SessionInit} (filed : (db.installation era).isSome) :
    (∃ after, writeSession columns now era init db = .ok after) ↔
      sessionFits columns init = true := by
  have known : (db.installation era).isNone = false := by
    rw [Option.isNone_eq_false_iff]
    exact filed
  unfold writeSession
  cases sessionFits columns init with
  | false => simp
  | true =>
    simp only [known, iff_true, reduceCtorEq, if_false, Bool.true_eq_false]
    split
    · exact ⟨_, rfl⟩
    split
    · exact ⟨_, rfl⟩
    · exact ⟨_, rfl⟩

theorem writeInits_accepted {known : Known} {inits : List SessionInit}
    (filed : ∀ id, (db.installation (known.eraFor era (some id))).isSome) :
    (∃ after, inits.foldlM (writeInit columns now known era) db = .ok after) ↔
      ∀ init ∈ inits, known.frozen init.id = true ∨ sessionFits columns init = true := by
  induction inits generalizing db with
  | nil =>
    simp only [List.not_mem_nil, false_implies, implies_true, iff_true]
    exact ⟨db, rfl⟩
  | cons first rest ih =>
    have here : (∃ middle, writeInit columns now known era db first = .ok middle) ↔
        known.frozen first.id = true ∨ sessionFits columns first = true := by
      unfold writeInit
      by_cases frozen : known.frozen first.id = true
      · simp [frozen]
      · rw [if_neg frozen, writeSession_accepted (filed first.id)]
        simp [frozen]
    rw [List.forall_mem_cons, ← here]
    constructor
    · rintro ⟨after, written⟩
      obtain ⟨middle, taken, written⟩ := foldlM_cons_ok.mp written
      have installations : middle.installations = db.installations := by rw [writeInit_frame taken]
      have filed : ∀ id, (middle.installation (known.eraFor era (some id))).isSome := by
        intro id
        rw [Db.installation, installations]
        exact filed id
      exact ⟨⟨middle, taken⟩, (ih filed).mp ⟨after, written⟩⟩
    · rintro ⟨⟨middle, taken⟩, later⟩
      have installations : middle.installations = db.installations := by rw [writeInit_frame taken]
      have filed : ∀ id, (middle.installation (known.eraFor era (some id))).isSome := by
        intro id
        rw [Db.installation, installations]
        exact filed id
      obtain ⟨after, written⟩ := (ih filed).mpr later
      exact ⟨after, foldlM_cons_ok.mpr ⟨middle, taken, written⟩⟩

/-! ## Events -/

theorem insertEvent_accepted {known : Known} {event : EventInput}
    (filed : ∀ id, (db.installation (known.eraFor era id)).isSome) :
    (∃ after, insertEvent columns now known era db event = .ok after) ↔
      eventFits columns event = true ∧
        (stored db event = false → ∀ id, event.sessionId = some id → (db.callSession id).isSome) := by
  have refers : refersToStored db (buildRow now known era event db.nextId) =
      event.sessionId.all fun id => (db.callSession id).isSome := by
    simp [refersToStored, buildRow, filed]
  unfold insertEvent
  simp only [refers]
  cases eventFits columns event with
  | false => simp
  | true =>
    cases stored db event with
    | true => simp
    | false =>
      cases event.sessionId with
      | none => simp
      | some id => cases stored : (db.callSession id).isSome <;> simp [stored]

theorem stored_insertEvent {known : Known} {event : EventInput}
    (inserted : insertEvent columns now known era db event = .ok after) (other : EventInput) :
    stored after other = (stored db other || sameKey event other) := by
  unfold insertEvent at inserted
  split at inserted
  · cases inserted
  split at inserted
  · rename_i duplicate
    cases inserted
    obtain ⟨row, member, same⟩ := List.any_eq_true.mp duplicate
    obtain ⟨booth, key⟩ := of_decide_eq_true same
    cases key' : sameKey event other with
    | false => simp
    | true =>
      obtain ⟨booth', key'⟩ := of_decide_eq_true key'
      rw [Bool.or_true]
      exact List.any_eq_true.mpr
        ⟨row, member, decide_eq_true ⟨booth.trans booth', key.trans key'⟩⟩
  simp only at inserted
  split at inserted
  · cases inserted
  · cases inserted
    simp [stored, buildRow, sameKey]

theorem insertEvents_accepted {known : Known}
    (filed : ∀ id, (db.installation (known.eraFor era id)).isSome) :
    (∃ after, events.foldlM (insertEvent columns now known era) db = .ok after) ↔
      (∀ event ∈ events, eventFits columns event = true) ∧
        ∀ before event after, events = before ++ event :: after → stored db event = false →
          (∀ earlier ∈ before, sameKey earlier event = false) →
            ∀ id, event.sessionId = some id → (db.callSession id).isSome := by
  induction events generalizing db with
  | nil =>
    simp only [List.not_mem_nil, false_implies, implies_true, true_and, List.nil_eq,
      List.append_eq_nil_iff, reduceCtorEq, and_false, iff_true]
    exact ⟨db, rfl⟩
  | cons first rest ih =>
    have frame : ∀ middle, insertEvent columns now known era db first = .ok middle →
        (∀ id, (middle.installation (known.eraFor era id)).isSome) ∧
          ∀ id, middle.callSession id = db.callSession id := by
      intro middle taken
      obtain ⟨sessions, installations⟩ := insertEvent_frame taken
      refine ⟨fun id => ?_, fun id => ?_⟩
      · rw [Db.installation, installations]
        exact filed id
      · rw [Db.callSession, sessions]
        rfl
    constructor
    · rintro ⟨after, inserted⟩
      obtain ⟨middle, taken, inserted⟩ := foldlM_cons_ok.mp inserted
      obtain ⟨filed', same⟩ := frame middle taken
      obtain ⟨fits, refs⟩ := (insertEvent_accepted filed).mp ⟨middle, taken⟩
      obtain ⟨restFits, restRefs⟩ := (ih filed').mp ⟨after, inserted⟩
      refine ⟨List.forall_mem_cons.mpr ⟨fits, restFits⟩, ?_⟩
      intro before event later cut new unseen id session
      cases before with
      | nil =>
        obtain ⟨rfl, rfl⟩ := List.cons.inj cut
        exact refs new id session
      | cons head before =>
        obtain ⟨rfl, rfl⟩ := List.cons.inj cut
        rw [List.forall_mem_cons] at unseen
        rw [← same]
        refine restRefs before event later rfl ?_ unseen.2 id session
        rw [stored_insertEvent taken, new, unseen.1, Bool.or_false]
    · rintro ⟨fits, refs⟩
      rw [List.forall_mem_cons] at fits
      obtain ⟨middle, taken⟩ := (insertEvent_accepted filed).mpr
        ⟨fits.1, fun new id session => refs [] first rest rfl new (by simp) id session⟩
      obtain ⟨filed', same⟩ := frame middle taken
      have later : ∃ after, rest.foldlM (insertEvent columns now known era) middle = .ok after := by
        refine (ih filed').mpr ⟨fits.2, ?_⟩
        intro before event later cut new unseen id session
        rw [stored_insertEvent taken, Bool.or_eq_false_iff] at new
        rw [same]
        refine refs (first :: before) event later (by rw [cut]; rfl) new.1 ?_ id session
        exact List.forall_mem_cons.mpr ⟨new.2, unseen⟩
      obtain ⟨after, inserted⟩ := later
      exact ⟨after, foldlM_cons_ok.mpr ⟨middle, taken, inserted⟩⟩

/-! ## The batch -/

theorem eraFor_stored (consistent : Consistent db) (filed : (db.installation era).isSome)
    (id : Option String) : (db.installation ((knownAlone events db).eraFor era id)).isSome := by
  unfold Known.eraFor
  cases known : (id.bind (knownAlone events db).session).bind (·.installationId) with
  | none => exact filed
  | some other =>
    obtain ⟨row, found, filedRow⟩ := Option.bind_eq_some_iff.mp known
    obtain ⟨id, _, found⟩ := Option.bind_eq_some_iff.mp found
    exact consistent.eras row (session_knownAlone_mem found).1 other filedRow

theorem callSession_isSome_writeInits (consistent : Consistent db) {middle : Db}
    (written : (sessionInits events).foldlM (writeInit columns now (knownAlone events db) era) db =
      .ok middle) (id : String) :
    (middle.callSession id).isSome ↔
      (db.callSession id).isSome ∨ ∃ other ∈ events, derives id other := by
  have row := callSession_writeInits consistent (frozenRows_alone consistent events)
    (sessionInits_distinct events) written id
  rw [row, show Table.findUnique (·.id) id (sessionInits events) = entry events id from rfl,
    entry_eq]
  cases derived : last (derives id) events with
  | none =>
    have never := last_eq_none.mp derived
    constructor
    · exact fun known => .inl known
    · rintro (known | ⟨other, member, kind⟩)
      · exact known
      · rw [never other member] at kind
        cases kind
  | some event => exact ⟨fun _ => .inr ⟨event, last_mem derived⟩, fun _ => rfl⟩

theorem entry_of_mem {init : SessionInit} (member : init ∈ sessionInits events) :
    entry events init.id = some init :=
  Table.findUnique_of_mem (sessionInits_distinct events) member

theorem ingestInto_accepted (consistent : Consistent db) (filed : (db.installation era).isSome) :
    (∃ after, ingestInto columns now events (readKnown events db) era db = .ok after) ↔
      Ingestible columns db events := by
  have known : ∀ id, (db.installation ((knownAlone events db).eraFor era id)).isSome :=
    eraFor_stored consistent filed
  have writes : (∃ middle, (sessionInits events).foldlM
      (writeInit columns now (knownAlone events db) era) db = .ok middle) ↔
        ∀ init ∈ sessionInits events, (knownAlone events db).frozen init.id = true ∨
          sessionFits columns init = true :=
    writeInits_accepted fun id => known (some id)
  have frozen : ∀ init ∈ sessionInits events,
      (knownAlone events db).frozen init.id = sessionFrozen db init.id :=
    fun init member => frozen_knownAlone consistent (referenced_of_entry (entry_of_mem member))
  have inserts : ∀ middle, (sessionInits events).foldlM
      (writeInit columns now (knownAlone events db) era) db = .ok middle →
        ((∃ after, events.foldlM (insertEvent columns now (knownAlone events db) era) middle =
            .ok after) ↔
          (∀ event ∈ events, eventFits columns event = true) ∧
            ∀ before event after, events = before ++ event :: after → stored db event = false →
              (∀ earlier ∈ before, sameKey earlier event = false) →
                ∀ id, event.sessionId = some id →
                  (db.callSession id).isSome ∨ ∃ other ∈ events, derives id other) := by
    intro middle written
    have frame := writeInits_frame written
    have filed' : ∀ id, (middle.installation ((knownAlone events db).eraFor era id)).isSome := by
      rw [frame]
      exact known
    have same : ∀ event, stored middle event = stored db event := by
      rw [frame]
      exact fun _ => rfl
    rw [insertEvents_accepted filed']
    simp only [same, callSession_isSome_writeInits consistent written]
  constructor
  · rintro ⟨after, accepted⟩
    obtain ⟨middle, written, inserted⟩ := ingestInto_ok.mp accepted
    obtain ⟨texts, sessions⟩ := (inserts middle written).mp ⟨after, inserted⟩
    have fits : ∀ id event, last (ends id) events = some event → sessionFrozen db id = false →
        (∀ value, reportedDuration event = some value → (int32 value).isSome) ∧
          (payloadText event "digits_dialed").all columns.text ∧
            (reportedRecording event).all columns.text := by
      intro id event ended thawed
      have there : ∃ init, entry events id = some init := by
        rw [entry_eq]
        cases derived : last (derives id) events with
        | none =>
          rw [(last_eq_none_of_derives derived).2] at ended
          cases ended
        | some event => exact ⟨_, rfl⟩
      obtain ⟨init, found⟩ := there
      obtain ⟨member, own⟩ := Table.findUnique_mem found
      rcases writes.mp ⟨middle, written⟩ init member with closed | fits
      · rw [frozen init member, own, thawed] at closed
        cases closed
      · exact (sessionFits_entry texts found).mp fits event ended
    exact ⟨sessions, fun id event ended thawed => (fits id event ended thawed).1, texts,
      fun id event ended thawed => (fits id event ended thawed).2⟩
  · intro ingestible
    have fits : ∀ init ∈ sessionInits events, (knownAlone events db).frozen init.id = true ∨
        sessionFits columns init = true := by
      intro init member
      rw [frozen init member]
      cases closed : sessionFrozen db init.id with
      | true => exact .inl rfl
      | false =>
        refine .inr ((sessionFits_entry ingestible.texts (entry_of_mem member)).mpr ?_)
        intro event ended
        exact ⟨ingestible.durations _ event ended closed, ingestible.calls _ event ended closed⟩
    obtain ⟨middle, written⟩ := writes.mpr fits
    obtain ⟨after, inserted⟩ := (inserts middle written).mpr
      ⟨ingestible.texts, ingestible.sessions⟩
    exact ⟨after, ingestInto_ok.mpr ⟨middle, written, inserted⟩⟩

end Accepted

theorem findActiveInstallation_mem {db : Db} {active : Installation}
    (found : db.findActiveInstallation = some active) :
    active ∈ db.installations ∧ active.endedAt = none := by
  obtain ⟨member, open_⟩ := Table.latest_mem found
  exact ⟨member, of_decide_eq_true open_⟩

/-- **A batch is ingested exactly when every row of it is one the tables take.** -/
theorem ingest_accepted_iff {columns : ColumnTypes} {now : Time} {db : Db} {active : Installation}
    (consistent : Consistent db) (opened : db.findActiveInstallation = some active)
    (batch : Batch) :
    (∃ stored, ingest columns now batch.events db = .ok stored) ↔
      Ingestible columns db batch.events := by
  have filed : (db.installation active.id).isSome := by
    have found : db.installation active.id = some active :=
      Table.findUnique_of_mem consistent.installations (findActiveInstallation_mem opened).1
    rw [found]
    rfl
  have accepted : (∃ after,
      ingestInto columns now batch.events (readKnown batch.events db) active.id db = .ok after) ↔
        Ingestible columns db batch.events :=
    ingestInto_accepted consistent filed
  rw [← accepted]
  obtain ⟨least, most⟩ := batch.size
  have nonempty : batch.events ≠ [] := List.ne_nil_of_length_pos least
  unfold ingest
  rw [if_neg nonempty, if_neg (Nat.not_lt.mpr most), opened]
  simp only
  cases ingestInto columns now batch.events (readKnown batch.events db) active.id db with
  | error reason => simp
  | ok after => simp

/-- One open installation, and nothing in it. -/
def openDb : Db where
  installations := [{ id := 0 }]
  nextId := 1

theorem consistent_openDb : Consistent openDb :=
  ⟨by decide, by decide, fun _ member => absurd member List.not_mem_nil⟩

/-- Columns that take every value. -/
def roomyColumns : ColumnTypes := ⟨fun _ => true, fun _ => true, fun _ => true⟩

/-- An event of one call. -/
def callEvent (eventId : String) (type : BoothEventType) (payload : JsonValue) : EventInput where
  eventId
  boothId := "booth-1"
  bootId := "3f2b8c1e-6d0a-4c57-9a1e-2b7c4d5e6f70"
  type
  occurredAt := 1760000000000
  sessionId := some "9d4c2a10-5b7e-4f63-8c21-1a2b3c4d5e6f"
  payload

/-- A call from start to end, with its digit sent twice and a fraction of a millisecond. -/
def wholeCall : List EventInput :=
  [callEvent "e-1" .callStarted .null,
    callEvent "e-2" .digitDialed (.obj [("digit", .num 1)]),
    callEvent "e-2" .digitDialed (.obj [("digit", .num 1)]),
    callEvent "e-3" .callEnded
      (.obj [("outcome", .str "recording_completed"), ("duration_ms", .num ⟨3001, 2, by decide, by decide⟩)])]

def wholeCallBatch : Batch := ⟨wholeCall, by decide, by decide +kernel⟩

theorem ingest_accepted_wholeCall : Ingestible roomyColumns openDb wholeCall ∧
    ∃ stored, ingest roomyColumns 0 wholeCall openDb = .ok stored ∧ stored.2 = 3 ∧
      stored.1.callSessions.map (·.durationMs) = [some 1500] := by
  have ran : ∃ stored, ingest roomyColumns 0 wholeCallBatch.events openDb = .ok stored := ⟨_, rfl⟩
  exact ⟨(ingest_accepted_iff consistent_openDb rfl wholeCallBatch).mp ran, _, rfl, rfl, rfl⟩

/-- A digit of a call nobody has started or ended is refused, whatever the columns take. -/
theorem unknownSession_rejected : ¬ ∀ (columns : ColumnTypes) (now : Time) (db : Db)
    (active : Installation) (batch : Batch), Consistent db →
      db.findActiveInstallation = some active →
        ∃ stored, ingest columns now batch.events db = .ok stored := by
  intro accepted
  let batch : Batch :=
    ⟨[callEvent "e-1" .digitDialed (.obj [("digit", .num 1)])], by decide, by decide +kernel⟩
  obtain ⟨stored, ran⟩ := accepted roomyColumns 0 openDb { id := 0 } batch consistent_openDb rfl
  have refused : ingest roomyColumns 0 batch.events openDb = .error .foreignKey := rfl
  rw [refused] at ran
  cases ran

end BoothOperator.Events
