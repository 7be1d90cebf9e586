import BoothOperator.Lib.Latest
import BoothOperator.Events.Ingest

/-! What the two loops of an ingest come to for one session: the entry a batch
spreads together is read off its last events, and a row changes only by the
entry of its session. -/
namespace BoothOperator.Events

open BoothOperator.Schema
open BoothOperator.Latest

/-! ## The entry of a session -/

/-- The event opens the session. -/
def starts (id : String) (event : EventInput) : Bool :=
  event.type = .callStarted ∧ event.sessionId = some id

/-- The event ends the session. -/
def ends (id : String) (event : EventInput) : Bool :=
  event.type = .callEnded ∧ event.sessionId = some id

/-- One of the two kinds of events a session is derived from. -/
def derives (id : String) (event : EventInput) : Bool := starts id event || ends id event

theorem last_eq_none_of_derives {id : String} {events : List EventInput}
    (none : last (derives id) events = none) :
    last (starts id) events = .none ∧ last (ends id) events = .none := by
  rw [last_eq_none] at none
  refine ⟨last_eq_none.mpr fun event member => ?_, last_eq_none.mpr fun event member => ?_⟩
  · have neither := none event member
    simp only [derives, Bool.or_eq_false_iff] at neither
    exact neither.1
  · have neither := none event member
    simp only [derives, Bool.or_eq_false_iff] at neither
    exact neither.2

/-- `sessionInits.get(id)`. -/
def entry (events : List EventInput) (id : String) : Option SessionInit :=
  Table.findUnique (·.id) id (sessionInits events)

/-- What one event says about its session. -/
def sessionData (event : EventInput) : Option SessionInit :=
  callStartedData event <|> callEndedData event

theorem collect_eq (inits : List SessionInit) (event : EventInput) :
    collect inits event = (sessionData event).elim inits (setInit inits) := by
  unfold collect sessionData callStartedData callEndedData
  cases event.type <;> cases event.sessionId <;> rfl

theorem sessionInits_snoc (events : List EventInput) (event : EventInput) :
    sessionInits (events ++ [event]) =
      (sessionData event).elim (sessionInits events) (setInit (sessionInits events)) := by
  rw [sessionInits, List.foldl_append, List.foldl_cons, List.foldl_nil, collect_eq]
  rfl

theorem sessionInits_distinct (events : List EventInput) :
    ((sessionInits events).map (·.id)).Nodup := by
  induction events using List.reverseRecOn with
  | nil => exact List.nodup_nil
  | append_singleton events event ih =>
    rw [sessionInits_snoc]
    cases sessionData event with
    | none => exact ih
    | some data =>
      refine Table.nodup_upsert ?_ ih
      exact fun _ => rfl

theorem entry_snoc (events : List EventInput) (event : EventInput) (id : String) :
    entry (events ++ [event]) id =
      match sessionData event with
      | none => entry events id
      | some data =>
        if data.id = id then some ((entry events id).elim data fun init => init.spread data)
        else entry events id := by
  rw [entry, sessionInits_snoc]
  cases sessionData event with
  | none => rfl
  | some data =>
    refine Table.findUnique_upsert ?_ id _
    exact fun _ => rfl

theorem sessionData_of_starts {id : String} {event : EventInput} (start : starts id event = true) :
    sessionData event = some
      { id
        boothId := event.boothId
        bootId := event.bootId
        startedAt := some event.occurredAt
        version := some event.version } := by
  obtain ⟨kind, session⟩ : event.type = .callStarted ∧ event.sessionId = some id := by
    simpa [starts] using start
  simp [sessionData, callStartedData, kind, session]

theorem sessionData_of_ends {id : String} {event : EventInput} (ended : ends id event = true) :
    sessionData event = some
      { id
        boothId := event.boothId
        bootId := event.bootId
        endedAt := some event.occurredAt
        outcome := some (reportedOutcome event)
        durationMs := some (reportedDuration event)
        digitsDialed := some (payloadText event "digits_dialed")
        recordingId := some (reportedRecording event)
        version := some event.version } := by
  obtain ⟨kind, session⟩ : event.type = .callEnded ∧ event.sessionId = some id := by
    simpa [ends] using ended
  simp [sessionData, callStartedData, callEndedData, kind, session]

theorem starts_not_ends {id : String} {event : EventInput} (start : starts id event = true) :
    ends id event = false := by
  have kind : event.type = .callStarted := (of_decide_eq_true start).1
  simp [ends, kind]

/-- An event of another kind or session says nothing about the session. -/
theorem sessionData_other {id : String} {event : EventInput} (other : derives id event = false) :
    ∀ data, sessionData event = some data → data.id ≠ id := by
  intro data some same
  unfold derives starts ends at other
  unfold sessionData callStartedData callEndedData at some
  cases kind : event.type <;> cases session : event.sessionId <;> simp_all
  all_goals
    subst some
    exact other same

/-- The entry a batch spreads together, read off its last events. -/
theorem entry_eq (events : List EventInput) (id : String) :
    entry events id = (last (derives id) events).map fun event =>
      { id
        boothId := event.boothId
        bootId := event.bootId
        startedAt := (last (starts id) events).map (·.occurredAt)
        endedAt := (last (ends id) events).map (·.occurredAt)
        outcome := (last (ends id) events).map reportedOutcome
        durationMs := (last (ends id) events).map reportedDuration
        digitsDialed := (last (ends id) events).map (payloadText · "digits_dialed")
        recordingId := (last (ends id) events).map reportedRecording
        version := some event.version } := by
  induction events using List.reverseRecOn with
  | nil => rfl
  | append_singleton events event ih =>
    rw [entry_snoc]
    simp only [last_snoc]
    by_cases start : starts id event = true
    · rw [sessionData_of_starts start, ih]
      have derived : derives id event = true := by simp [derives, start]
      simp only [start, starts_not_ends start, derived]
      cases before : last (derives id) events with
      | none => simp [last_eq_none_of_derives before]
      | some earlier => simp [SessionInit.spread]
    · by_cases ended : ends id event = true
      · rw [sessionData_of_ends ended, ih]
        have derived : derives id event = true := by simp [derives, ended]
        simp only [start, ended, derived]
        cases before : last (derives id) events with
        | none => simp [last_eq_none_of_derives before]
        | some earlier => simp [SessionInit.spread]
      · have other : derives id event = false := by simp [derives, start, ended]
        rw [Bool.not_eq_true] at start ended
        simp only [start, ended, other]
        have silent := sessionData_other other
        cases said : sessionData event with
        | none => exact ih
        | some data =>
          simp only [if_neg (silent data said)]
          exact ih

/-! ## The row of a session -/

/-- What the tables guarantee of the rows an ingest reads: the primary keys, and
that a session's era is stored. -/
structure Consistent (db : Db) : Prop where
  installations : (db.installations.map (·.id)).Nodup
  sessions : (db.callSessions.map (·.id)).Nodup
  eras : ∀ row ∈ db.callSessions, ∀ era, row.installationId = some era →
    (db.installation era).isSome

section Row

variable {columns : ColumnTypes} {now : Time} {era : Id} {db after : Db}

/-- What an entry makes of the row of its session. -/
def rowAfter (db : Db) (now : Time) (era : Id) (init : SessionInit) (row : Option CallSession) :
    CallSession :=
  row.elim (createdSession now era init) fun row =>
    if patchable db init.id row then patch init row else row

theorem any_patchable (distinct : (db.callSessions.map (·.id)).Nodup) (id : String) :
    db.callSessions.any (patchable db id) = (db.callSession id).any (patchable db id) := by
  rw [Bool.eq_iff_iff, List.any_eq_true, Option.any_eq_true]
  constructor
  · rintro ⟨row, member, matched⟩
    have own : row.id = id := (of_decide_eq_true matched).1
    exact ⟨row, own ▸ Table.findUnique_of_mem distinct member, matched⟩
  · rintro ⟨row, found, matched⟩
    exact ⟨row, (Table.findUnique_mem found).1, matched⟩

theorem callSession_writeSession (distinct : (db.callSessions.map (·.id)).Nodup)
    {init : SessionInit} (written : writeSession columns now era init db = .ok after) (id : String) :
    after.callSession id =
      if init.id = id then some (rowAfter db now era init (db.callSession id))
      else db.callSession id := by
  unfold writeSession at written
  rw [any_patchable distinct] at written
  split at written
  · cases written
  split at written
  · rename_i matched
    cases written
    have keeps : ∀ row, (patch init row).id = row.id := fun _ => rfl
    have moved : (Table.findUnique (·.id) id
        (Table.updateMany (patchable db init.id) (patch init) db.callSessions)) =
          (db.callSession id).map fun row => if patchable db init.id row then patch init row else row :=
      Table.findUnique_updateMany keeps id db.callSessions
    refine moved.trans ?_
    by_cases own : init.id = id
    · rw [if_pos own, ← own]
      obtain ⟨row, found, _⟩ := (Option.any_eq_true _ _).mp matched
      simp [rowAfter, found]
    · rw [if_neg own]
      cases found : db.callSession id with
      | none => rfl
      | some row =>
        have named : row.id ≠ init.id := fun same =>
          own (same.symm.trans (Table.findUnique_mem found).2)
        simp [patchable, named]
  · rename_i unmatched
    split at written
    · rename_i present
      cases written
      by_cases own : init.id = id
      · rw [if_pos own, ← own]
        obtain ⟨row, found⟩ := Option.isSome_iff_exists.mp present
        rw [found] at unmatched
        simp only [Option.any_some, Bool.not_eq_true] at unmatched
        simp [rowAfter, found, unmatched]
      · rw [if_neg own]
    · rename_i missing
      split at written
      · cases written
      · cases written
        have appended : Table.findUnique (·.id) id
            (db.callSessions ++ [createdSession now era init]) =
              (db.callSession id).or (if init.id = id then some (createdSession now era init) else none) :=
          Table.findUnique_append_single _ id _ _
        refine appended.trans ?_
        by_cases own : init.id = id
        · rw [if_pos own, if_pos own, ← own]
          have missing : db.callSession init.id = none := by simpa using missing
          simp [rowAfter, missing]
        · rw [if_neg own, if_neg own, Option.or_none]

/-- A session write touches no other table, and keeps the tables' guarantees. -/
theorem writeSession_frame {init : SessionInit}
    (written : writeSession columns now era init db = .ok after) :
    after = { db with callSessions := after.callSessions } := by
  unfold writeSession at written
  split at written
  · cases written
  split at written
  · cases written
    rfl
  split at written
  · cases written
    rfl
  split at written
  · cases written
  · cases written
    rfl

theorem consistent_writeSession (consistent : Consistent db) {init : SessionInit}
    (written : writeSession columns now era init db = .ok after) : Consistent after := by
  unfold writeSession at written
  split at written
  · cases written
  split at written
  · cases written
    refine ⟨consistent.installations, ?_, ?_⟩
    · rw [Table.map_updateMany _ ?_]
      · exact consistent.sessions
      · exact fun _ => rfl
    · intro row member era filed
      obtain ⟨old, there, same⟩ := Table.mem_updateMany.mp member
      have kept : row.installationId = old.installationId := by
        rw [same]
        split
        · rfl
        · rfl
      exact consistent.eras old there era (kept ▸ filed)
  split at written
  · cases written
    exact consistent
  split at written
  · cases written
  · rename_i missing stored
    cases written
    refine ⟨consistent.installations, ?_, ?_⟩
    · have fresh : ∀ row ∈ db.callSessions, row.id ≠ init.id := by
        refine Table.findUnique_eq_none.mp ?_
        simpa [Db.callSession] using missing
      rw [List.map_append]
      refine List.nodup_append.mpr ⟨consistent.sessions, List.nodup_singleton _, ?_⟩
      rintro _ used _ new rfl
      obtain ⟨row, member, same⟩ := List.mem_map.mp used
      rw [List.map_singleton, List.mem_singleton] at new
      exact fresh row member (same.trans new)
    · intro row member other filed
      rcases List.mem_append.mp member with there | new
      · exact consistent.eras row there other filed
      · rw [List.mem_singleton] at new
        subst new
        cases filed
        exact Option.isSome_iff_ne_none.mpr fun none => stored (Option.isNone_iff_eq_none.mpr none)

theorem patchable_congr {other : Db} (same : other.installations = db.installations) (id : String)
    (row : CallSession) : patchable other id row = patchable db id row := by
  have locks : other.lockInstallationForWrite = db.lockInstallationForWrite := by
    funext era
    simp only [Db.lockInstallationForWrite, Db.installation, same]
  unfold patchable eraOpen
  rw [decide_eq_decide, locks]

theorem rowAfter_congr {other : Db} (same : other.installations = db.installations)
    (init : SessionInit) (row : Option CallSession) :
    rowAfter other now era init row = rowAfter db now era init row := by
  cases row with
  | none => rfl
  | some row => simp only [rowAfter, Option.elim_some, patchable_congr same]

variable {known : Known}

/-- A session counts as frozen only when no update would find it. -/
def FrozenRows (known : Known) (db : Db) : Prop :=
  ∀ id, known.frozen id = true → ∃ row, db.callSession id = some row ∧ patchable db id row = false

/-- One turn of the loop, for the session it is about and for the others. -/
theorem callSession_writeInit (consistent : Consistent db) (frozenRows : FrozenRows known db)
    {init : SessionInit} (written : writeInit columns now known era db init = .ok after)
    (id : String) :
    after.callSession id =
      if init.id = id then
        some (rowAfter db now (known.eraFor era (some id)) init (db.callSession id))
      else db.callSession id := by
  unfold writeInit at written
  split at written
  · rename_i frozen
    cases written
    obtain ⟨row, found, closed⟩ := frozenRows init.id frozen
    by_cases own : init.id = id
    · rw [if_pos own, ← own, found]
      simp [rowAfter, closed]
    · rw [if_neg own]
  · rw [callSession_writeSession consistent.sessions written]
    by_cases own : init.id = id
    · rw [if_pos own, if_pos own, own]
    · rw [if_neg own, if_neg own]

theorem writeInit_frame {init : SessionInit}
    (written : writeInit columns now known era db init = .ok after) :
    after = { db with callSessions := after.callSessions } := by
  unfold writeInit at written
  split at written
  · cases written
    rfl
  · exact writeSession_frame written

theorem consistent_writeInit (consistent : Consistent db) {init : SessionInit}
    (written : writeInit columns now known era db init = .ok after) : Consistent after := by
  unfold writeInit at written
  split at written
  · cases written
    exact consistent
  · exact consistent_writeSession consistent written

theorem frozenRows_writeInit (consistent : Consistent db) (frozenRows : FrozenRows known db)
    {init : SessionInit} (written : writeInit columns now known era db init = .ok after) :
    FrozenRows known after := by
  intro id frozen
  obtain ⟨row, found, closed⟩ := frozenRows id frozen
  have installations : after.installations = db.installations := by
    rw [writeInit_frame written]
  refine ⟨row, ?_, (patchable_congr installations id row).trans closed⟩
  rw [callSession_writeInit consistent frozenRows written id]
  by_cases own : init.id = id
  · rw [if_pos own, found]
    simp [rowAfter, own, closed]
  · rw [if_neg own, found]

theorem foldlM_cons_ok {α β ε : Type} {step : β → α → Except ε β} {first : α} {rest : List α}
    {start done : β} :
    (first :: rest).foldlM step start = .ok done ↔
      ∃ middle, step start first = .ok middle ∧ rest.foldlM step middle = .ok done := by
  rw [List.foldlM_cons]
  cases step start first with
  | error reason => simp [bind, Except.bind]
  | ok middle => simp [bind, Except.bind]

/-- **The loop over the entries changes each row by the entry of its session.** -/
theorem callSession_writeInits (consistent : Consistent db) (frozenRows : FrozenRows known db)
    {inits : List SessionInit} (distinct : (inits.map (·.id)).Nodup)
    (written : inits.foldlM (writeInit columns now known era) db = .ok after) (id : String) :
    after.callSession id =
      match Table.findUnique (·.id) id inits with
      | none => db.callSession id
      | some init => some (rowAfter db now (known.eraFor era (some id)) init (db.callSession id)) := by
  induction inits generalizing db with
  | nil =>
    cases written
    rfl
  | cons first rest ih =>
    obtain ⟨middle, taken, written⟩ := foldlM_cons_ok.mp written
    rw [List.map_cons, List.nodup_cons] at distinct
    have installations : middle.installations = db.installations := by rw [writeInit_frame taken]
    have row := callSession_writeInit consistent frozenRows taken id
    have others := ih (consistent_writeInit consistent taken)
      (frozenRows_writeInit consistent frozenRows taken) distinct.2 written
    by_cases own : first.id = id
    · have absent : Table.findUnique (·.id) id rest = none := by
        refine Table.findUnique_eq_none.mpr fun init member same => distinct.1 ?_
        exact List.mem_map.mpr ⟨init, member, same.trans own.symm⟩
      rw [if_pos own] at row
      rw [absent] at others
      rw [others, row]
      simp [Table.findUnique, own]
    · rw [if_neg own] at row
      rw [others, row]
      have skipped : Table.findUnique (·.id) id (first :: rest) =
          Table.findUnique (·.id) id rest := by
        simp [Table.findUnique, own]
      rw [skipped]
      cases Table.findUnique (·.id) id rest with
      | none => rfl
      | some init => simp only [rowAfter_congr installations]

end Row

/-! ## With no other writer -/

section Alone

variable {columns : ColumnTypes} {now : Time} {db after : Db}

/-- What the request knows under the lock when nobody else writes. -/
def knownAlone (events : List EventInput) (db : Db) : Known := (readKnown events db).late events db

theorem session_knownAlone {events : List EventInput} {id : String}
    (named : id ∈ referenced events) (db : Db) :
    (knownAlone events db).session id = db.callSession id := by
  have early : (readKnown events db).session id = db.callSession id := by
    refine Table.findUnique_filter (fun row own => ?_) db.callSessions
    simpa [own] using named
  have both : (knownAlone events db).session id =
      ((readKnown events db).session id).or
        (Table.findUnique (·.id) id (db.callSessions.filter fun row =>
          row.id ∈ referenced events ∧ (readKnown events db).session row.id = none)) := by
    simp only [knownAlone, Known.session, Known.late, Table.findUnique, List.find?_append]
  rw [both, early]
  cases found : db.callSession id with
  | some row => rfl
  | none =>
    rw [Option.none_or]
    refine Table.findUnique_eq_none.mpr fun row member => ?_
    exact Table.findUnique_eq_none.mp found row (List.mem_of_mem_filter member)

/-- Known or not, a session that is not stored has no era of its own. -/
theorem session_knownAlone_mem {events : List EventInput} {id : String} {row : CallSession}
    (found : (knownAlone events db).session id = some row) : row ∈ db.callSessions ∧ row.id = id := by
  obtain ⟨member, own⟩ := Table.findUnique_mem found
  refine ⟨?_, own⟩
  rcases List.mem_append.mp member with early | late
  · exact List.mem_of_mem_filter early
  · exact List.mem_of_mem_filter late

theorem not_open_of_ended (distinct : (db.installations.map (·.id)).Nodup) {era : Installation}
    (member : era ∈ db.installations) (ended : era.endedAt ≠ none) :
    db.lockInstallationForWrite era.id = false := by
  have found : db.installation era.id = some era := Table.findUnique_of_mem distinct member
  simp [Db.lockInstallationForWrite, found, ended]

theorem frozenRows_alone (consistent : Consistent db) (events : List EventInput) :
    FrozenRows (knownAlone events db) db := by
  intro id frozen
  unfold Known.frozen at frozen
  cases known : (knownAlone events db).session id with
  | none => simp [known] at frozen
  | some row =>
    obtain ⟨member, own⟩ := session_knownAlone_mem known
    cases filed : row.installationId with
    | none => simp [known, filed] at frozen
    | some era =>
      have listed : era ∈ (readKnown events db).endedEras := by
        simp only [known, Option.bind_some, filed, decide_eq_true_eq] at frozen
        exact frozen
      obtain ⟨ended, there, rfl⟩ := List.mem_map.mp listed
      obtain ⟨there, past⟩ := List.mem_filter.mp there
      have closed := not_open_of_ended consistent.installations there (of_decide_eq_true past).1
      refine ⟨row, own ▸ Table.findUnique_of_mem consistent.sessions member, ?_⟩
      simp [patchable, eraOpen, filed, closed]

theorem referenced_of_entry {events : List EventInput} {id : String} {init : SessionInit}
    (found : entry events id = some init) : id ∈ referenced events := by
  rw [entry_eq, Option.map_eq_some_iff] at found
  obtain ⟨event, event_last, _⟩ := found
  obtain ⟨member, derived⟩ := last_mem event_last
  have session : event.sessionId = some id := by
    rcases Bool.or_eq_true _ _ ▸ derived with start | ended
    · exact (of_decide_eq_true start).2
    · exact (of_decide_eq_true ended).2
  exact List.mem_filterMap.mpr ⟨event, member, session⟩

/-- A session that is not stored goes to the open era. -/
theorem eraFor_fresh {events : List EventInput} {id : String} (named : id ∈ referenced events)
    (missing : db.callSession id = none) (era : Id) :
    (knownAlone events db).eraFor era (some id) = era := by
  simp [Known.eraFor, session_knownAlone named, missing]

theorem insertEvent_frame {known : Known} {era : Id} {event : EventInput}
    (inserted : insertEvent columns now known era db event = .ok after) :
    after.callSessions = db.callSessions ∧ after.installations = db.installations := by
  unfold insertEvent at inserted
  split at inserted
  · cases inserted
  split at inserted
  · cases inserted
    exact ⟨rfl, rfl⟩
  simp only at inserted
  split at inserted
  · cases inserted
  · cases inserted
    exact ⟨rfl, rfl⟩

theorem insertEvents_frame {known : Known} {era : Id} {events : List EventInput}
    (inserted : events.foldlM (insertEvent columns now known era) db = .ok after) :
    after.callSessions = db.callSessions ∧ after.installations = db.installations := by
  induction events generalizing db with
  | nil =>
    cases inserted
    exact ⟨rfl, rfl⟩
  | cons event rest ih =>
    obtain ⟨middle, first, inserted⟩ := foldlM_cons_ok.mp inserted
    have here := insertEvent_frame first
    have later := ih inserted
    exact ⟨later.1.trans here.1, later.2.trans here.2⟩

theorem writeInits_frame {known : Known} {era : Id} {inits : List SessionInit}
    (written : inits.foldlM (writeInit columns now known era) db = .ok after) :
    after = { db with callSessions := after.callSessions } := by
  induction inits generalizing db with
  | nil =>
    cases written
    rfl
  | cons first rest ih =>
    obtain ⟨middle, taken, written⟩ := foldlM_cons_ok.mp written
    have here := writeInit_frame taken
    have later := ih written
    rw [later, here]

theorem consistent_writeInits {known : Known} {era : Id} {inits : List SessionInit}
    (consistent : Consistent db)
    (written : inits.foldlM (writeInit columns now known era) db = .ok after) :
    Consistent after := by
  induction inits generalizing db with
  | nil =>
    cases written
    exact consistent
  | cons first rest ih =>
    obtain ⟨middle, taken, written⟩ := foldlM_cons_ok.mp written
    exact ih (consistent_writeInit consistent taken) written

theorem ingestInto_ok {events : List EventInput} {known : Known} {era : Id} :
    ingestInto columns now events known era db = .ok after ↔
      ∃ middle,
        (sessionInits events).foldlM (writeInit columns now (known.late events db) era) db =
            .ok middle ∧
          events.foldlM (insertEvent columns now (known.late events db) era) middle = .ok after := by
  simp only [ingestInto]
  cases (sessionInits events).foldlM (writeInit columns now (known.late events db) era) db with
  | error reason => simp [bind, Except.bind]
  | ok middle => simp [bind, Except.bind]

/-- The row of every session after a batch of events. -/
theorem callSession_ingestInto (consistent : Consistent db) {events : List EventInput} {era : Id}
    (accepted : ingestInto columns now events (readKnown events db) era db = .ok after)
    (id : String) :
    after.callSession id =
      match entry events id with
      | none => db.callSession id
      | some init => some (rowAfter db now era init (db.callSession id)) := by
  obtain ⟨middle, written, inserted⟩ := ingestInto_ok.mp accepted
  have row := callSession_writeInits consistent (frozenRows_alone consistent events)
    (sessionInits_distinct events) written id
  have same : after.callSession id = middle.callSession id := by
    simp only [Db.callSession, (insertEvents_frame inserted).1]
  rw [same, row]
  change (match entry events id with | none => _ | some init => _) = _
  cases found : entry events id with
  | none => rfl
  | some init =>
    cases old : db.callSession id with
    | some row => rfl
    | none =>
      have fresh := eraFor_fresh (referenced_of_entry found) old era
      change some (rowAfter db now ((knownAlone events db).eraFor era (some id)) init none) = _
      rw [fresh]

theorem consistent_ingestInto (consistent : Consistent db) {events : List EventInput} {era : Id}
    {known : Known} (accepted : ingestInto columns now events known era db = .ok after) :
    Consistent after := by
  obtain ⟨middle, written, inserted⟩ := ingestInto_ok.mp accepted
  have before := consistent_writeInits consistent written
  obtain ⟨sessions, installations⟩ := insertEvents_frame inserted
  refine ⟨?_, ?_, ?_⟩
  · rw [installations]
    exact before.installations
  · rw [sessions]
    exact before.sessions
  · intro row member era filed
    have stored := before.eras row (sessions ▸ member) era filed
    rwa [Db.installation, ← installations] at stored

theorem installations_ingestInto {events : List EventInput} {era : Id} {known : Known}
    (accepted : ingestInto columns now events known era db = .ok after) :
    after.installations = db.installations := by
  obtain ⟨middle, written, inserted⟩ := ingestInto_ok.mp accepted
  rw [(insertEvents_frame inserted).2, writeInits_frame written]

end Alone

end BoothOperator.Events
