import BoothOperator.Events.Acceptance

/-! Whether it matters how the booth's network cuts a stream of events into
batches. Inside a batch an entry takes every field of the next event, `null`
included; between batches a row keeps what a patch has no value for. The two
come to the same exactly when no `null` follows a value, the first event of a
new call is its start, and no empty recording id ends it. -/
namespace BoothOperator.Events

open BoothOperator.Schema
open BoothOperator.Latest

/-- Ingest batches one after the other, each at its own time. -/
def ingestAll (columns : ColumnTypes) (cut : List (Time × List EventInput)) (db : Db) :
    Except IngestRejection Db :=
  cut.foldlM (fun db batch => (ingest columns batch.1 batch.2 db).map (·.1)) db

/-- A way of cutting a list into consecutive batches. -/
def Cut (events : List EventInput) (cut : List (Time × List EventInput)) : Prop :=
  (∀ batch ∈ cut, batch.2 ≠ []) ∧ (cut.map (·.2)).flatten = events

/-- The columns of a call that its events fill. -/
structure CallFields where
  startedAt : Time
  endedAt : Option Time
  outcome : Option CallOutcome
  digitsDialed : Option String
  recordingId : Option String
  durationMs : Option Int
  version : Option String
  deriving DecidableEq

def callFields (row : CallSession) : CallFields where
  startedAt := row.startedAt
  endedAt := row.endedAt
  outcome := row.outcome
  digitsDialed := row.digitsDialed
  recordingId := row.recordingId
  durationMs := row.durationMs
  version := row.version

/-- The batches may write the session: it is not stored, or its era is open and
no close-out has ended it. -/
def callOpen (db : Db) (id : String) : Bool := (db.callSession id).all (patchable db id)

/-- A field that the event leaves out or sends as null keeps its value in the entry. -/
structure EntryKept (init data next : SessionInit) : Prop where
  outcome : ∀ value, init.outcome.join = some value → data.outcome.join = none →
    next.outcome.join = some value
  durationMs : ∀ value, init.durationMs.join = some value → data.durationMs.join = none →
    next.durationMs.join = some value
  digitsDialed : ∀ value, init.digitsDialed.join = some value → data.digitsDialed.join = none →
    next.digitsDialed.join = some value
  recordingId : ∀ value, init.recordingId.join = some value → data.recordingId.join = none →
    next.recordingId.join = some value
  version : ∀ value, init.version.join = some value → data.version.join = none →
    next.version.join = some value

/-- A field the entry has no value for keeps its value in the row. -/
structure RowKept (row : CallSession) (init : SessionInit) (next : CallSession) : Prop where
  outcome : init.outcome.join = none → next.outcome = row.outcome
  durationMs : init.durationMs.join = none → next.durationMs = row.durationMs
  digitsDialed : init.digitsDialed.join = none → next.digitsDialed = row.digitsDialed
  recordingId : init.recordingId.join = none → next.recordingId = row.recordingId
  version : init.version.join = none → next.version = row.version

/-- Ingestion does not depend on where the list is cut, and a null or absent
field replaces no value, inside a batch or across batches. -/
structure SplittingInvariant (columns : ColumnTypes) (db : Db) (events : List EventInput) :
    Prop where
  agree : ∀ now cut whole after, ingestAll columns [(now, events)] db = .ok whole →
    Cut events cut → ingestAll columns cut db = .ok after →
      ∀ id, (after.callSession id).map callFields = (whole.callSession id).map callFields
  inside : ∀ id, callOpen db id = true → ∀ skipped before event rest,
    events = skipped ++ before ++ event :: rest → ∀ init data next,
      entry before id = some init → sessionData event = some data → data.id = id →
        entry (before ++ [event]) id = some next → EntryKept init data next
  across : ∀ init row, RowKept row init (patch init row)

/-- What the events of a call that may be written have to be. -/
structure Cuttable (db : Db) (events : List EventInput) (id : String) : Prop where
  outcomes : Settled (ends id) reportedOutcome events
  durations : Settled (ends id) reportedDuration events
  digits : Settled (ends id) (payloadText · "digits_dialed") events
  recordings : Settled (ends id) reportedRecording events
  versions : Settled (derives id) (·.version) events
  /-- A call that is not stored begins with its start, and has one start time. -/
  started : db.callSession id = none → ∀ before event rest, events = before ++ event :: rest →
    (∀ earlier ∈ before, derives id earlier = false) → derives id event = true →
      starts id event = true ∧
        ∀ other ∈ events, starts id other = true → other.occurredAt = event.occurredAt
  /-- A last end with an empty recording id belongs to a stored call, and every
  other recording id the list has is the stored one. -/
  recorded : ∀ event, last (ends id) events = some event → reportedRecording event = some "" →
    ∃ row, db.callSession id = some row ∧ ∀ other ∈ events, ends id other = true →
      ∀ value, reportedRecording other = some value → value ≠ "" → row.recordingId = some value

section Splitting

variable {columns : ColumnTypes} {db : Db} {events : List EventInput} {id : String}

/-! ## Along a cut -/

/-- The row of an open call once a prefix of the list has been ingested. -/
structure Collected (db : Db) (id : String) (events : List EventInput) (row : CallSession) :
    Prop where
  patchable : patchable db id row = true
  started : ∀ old, db.callSession id = some old → row.startedAt = old.startedAt
  fresh : db.callSession id = none → ∀ event ∈ events, starts id event = true →
    row.startedAt = event.occurredAt
  endedAt : row.endedAt =
    ((last (ends id) events).bind (some ·.occurredAt) <|> (db.callSession id).bind (·.endedAt))
  outcome : row.outcome =
    ((last (ends id) events).bind reportedOutcome <|> (db.callSession id).bind (·.outcome))
  durationMs : row.durationMs =
    ((last (ends id) events).bind (fun event => (reportedDuration event).bind int32) <|>
      (db.callSession id).bind (·.durationMs))
  digitsDialed : row.digitsDialed =
    ((last (ends id) events).bind (payloadText · "digits_dialed") <|>
      (db.callSession id).bind (·.digitsDialed))
  version : row.version =
    ((last (derives id) events).bind (·.version) <|> (db.callSession id).bind (·.version))
  recording_last : ∀ event value, last (ends id) events = some event →
    reportedRecording event = some value → value ≠ "" → row.recordingId = some value
  recording_none : (∀ event ∈ events, ends id event = true → reportedRecording event = none) →
    row.recordingId = (db.callSession id).bind (·.recordingId)
  recording_stored : ∀ old, db.callSession id = some old →
    (∀ event ∈ events, ends id event = true → ∀ value, reportedRecording event = some value →
      value ≠ "" → old.recordingId = some value) → row.recordingId = old.recordingId

theorem not_ends_of_not_derives {event : EventInput} (other : derives id event = false) :
    starts id event = false ∧ ends id event = false := by
  simpa [derives] using other

/-- Events of other sessions and kinds leave the row as it is. -/
theorem collected_quiet {first second : List EventInput} {row : CallSession}
    (collected : Collected db id first row) (quiet : last (derives id) second = none) :
    Collected db id (first ++ second) row := by
  have silent := last_eq_none.mp quiet
  obtain ⟨noStart, noEnd⟩ := last_eq_none_of_derives quiet
  have keep {kind : EventInput → Bool} (none : last kind second = none) :
      last kind (first ++ second) = last kind first := by
    rw [last_append, none, Option.none_or]
  refine ⟨collected.patchable, collected.started, ?_, ?_, ?_, ?_, ?_, ?_, ?_, ?_, ?_⟩
  · intro missing event member start
    rcases List.mem_append.mp member with before | here
    · exact collected.fresh missing event before start
    · rw [(not_ends_of_not_derives (silent event here)).1] at start
      cases start
  · rw [keep noEnd]
    exact collected.endedAt
  · rw [keep noEnd]
    exact collected.outcome
  · rw [keep noEnd]
    exact collected.durationMs
  · rw [keep noEnd]
    exact collected.digitsDialed
  · rw [keep quiet]
    exact collected.version
  · rw [keep noEnd]
    exact collected.recording_last
  · intro none
    exact collected.recording_none fun event member => none event (List.mem_append_left _ member)
  · intro old stored same
    exact collected.recording_stored old stored fun event member =>
      same event (List.mem_append_left _ member)

/-- A stored row is what nothing has been collected into. -/
theorem collected_start {row : CallSession} (stored : db.callSession id = some row)
    (opened : callOpen db id = true) (quiet : last (derives id) events = none) :
    Collected db id events row := by
  obtain ⟨noStart, noEnd⟩ := last_eq_none_of_derives quiet
  have patchable : patchable db id row = true := by simpa [callOpen, stored] using opened
  refine ⟨patchable, ?_, ?_, ?_, ?_, ?_, ?_, ?_, ?_, ?_, ?_⟩
  · intro old same
    rw [stored] at same
    cases same
    rfl
  · intro missing
    rw [stored] at missing
    cases missing
  · simp [stored, noEnd]
  · simp [stored, noEnd]
  · simp [stored, noEnd]
  · simp [stored, noEnd]
  · simp [stored, quiet]
  · intro event value found
    rw [noEnd] at found
    cases found
  · intro _
    simp [stored]
  · intro old same _
    rw [stored] at same
    cases same
    rfl

theorem truthy_of_ne {value : String} (ne : value ≠ "") : truthy (some value) = some value := by
  simp [truthy, ne]

theorem version_ne_empty {event : EventInput} (valid : boothEventSchema event = true)
    {version : String} (given : event.version = some version) : version ≠ "" := by
  rintro rfl
  have bounds := of_decide_eq_true valid
  rw [given] at bounds
  exact absurd bounds.2.2.2.2.2.2 (by decide)

/-- The version that a patch lets through is the one the entry has. -/
theorem truthy_version {event : EventInput} (valid : boothEventSchema event = true) :
    truthy event.version = event.version := by
  cases given : event.version with
  | none => rfl
  | some version => exact truthy_of_ne (version_ne_empty valid given)

/-- A new call begins with its start, at the time of all its starts. -/
theorem first_start (cuttable : Cuttable db events id) (missing : db.callSession id = none)
    {first rest : List EventInput} (cut : events = first ++ rest)
    (some : ∃ event ∈ first, derives id event = true) :
    ∃ start ∈ first, starts id start = true ∧
      ∀ other ∈ events, starts id other = true → other.occurredAt = start.occurredAt := by
  cases found : first.find? (derives id) with
  | none =>
    obtain ⟨event, member, derived⟩ := some
    rw [List.find?_eq_none] at found
    exact absurd derived (found event member)
  | some start =>
    obtain ⟨derived, before, later, rfl, earlier⟩ := List.find?_eq_some_iff_append.mp found
    have shape : events = before ++ start :: (later ++ rest) := by
      rw [cut, List.append_assoc, List.cons_append]
    have quiet : ∀ event ∈ before, derives id event = false := by
      simpa using earlier
    exact ⟨start, List.mem_append_right _ List.mem_cons_self,
      cuttable.started missing before start _ shape quiet derived⟩

/-- A value of the last event of a piece is there when an earlier event has one. -/
theorem kept_of_settled {β : Type} {kind : EventInput → Bool} {value : EventInput → Option β}
    {first second : List EventInput} (settled : Settled kind value (first ++ second)) :
    ∀ later earlier, last kind second = some later → last kind first = some earlier →
      value later = none → value earlier = none := by
  intro later earlier here before missing
  by_contra some
  have late := settled.across (last_mem before).1 (last_mem here).1 (last_mem before).2
    (last_mem here).2 (Option.ne_none_iff_isSome.mp some)
  rw [missing] at late
  cases late

/-- What holds of every end of a piece's log holds of what an entry records of it. -/
theorem recording_of_entry {second : List EventInput} {value : String}
    (written : truthy ((last (ends id) second).map reportedRecording).join = some value) :
    ∃ event, last (ends id) second = some event ∧ reportedRecording event = some value ∧
      value ≠ "" := by
  cases found : last (ends id) second with
  | none => simp [found, truthy] at written
  | some event =>
    simp only [found, Option.map_some, Option.join_some, truthy, Option.filter_eq_some_iff,
      decide_eq_true_eq] at written
    exact ⟨event, rfl, written.1, written.2⟩

/-- A patch collects the events of its batch. -/
theorem collected_patch {first second rest : List EventInput} {row : CallSession}
    {init : SessionInit} (cuttable : Cuttable db events id) (cut : events = first ++ second ++ rest)
    (valid : ∀ event ∈ second, boothEventSchema event = true)
    (fits : ∀ event, last (ends id) second = some event → ∀ value,
      reportedDuration event = some value → (int32 value).isSome)
    (held : db.callSession id = none → ∃ event ∈ first, derives id event = true)
    (collected : Collected db id first row) (found : entry second id = some init) :
    Collected db id (first ++ second) (patch init row) := by
  rw [entry_eq, Option.map_eq_some_iff] at found
  obtain ⟨derived, chosen, rfl⟩ := found
  have settled {β : Type} {kind : EventInput → Bool} {value : EventInput → Option β}
      (settled : Settled kind value events) : Settled kind value (first ++ second) :=
    (cut ▸ settled).left
  refine ⟨?_, ?_, ?_, ?_, ?_, ?_, ?_, ?_, ?_, ?_, ?_⟩
  · obtain ⟨own, open_, era⟩ := of_decide_eq_true collected.patchable
    refine decide_eq_true ⟨own, ?_, era⟩
    change (((last (ends id) second).map reportedOutcome).join <|> row.outcome) ≠ _
    cases ended : last (ends id) second with
    | none => simpa using open_
    | some event =>
      cases reported : reportedOutcome event with
      | none => simpa [reported] using open_
      | some outcome =>
        have ne := reportedOutcome_ne event
        rw [reported] at ne
        simpa [reported] using ne
  · exact collected.started
  · intro missing event member start
    obtain ⟨opening, there, began, same⟩ := first_start cuttable missing
      (cut.trans (List.append_assoc _ _ _)) (held missing)
    have inList : event ∈ events := by
      rw [cut]
      exact List.mem_append_left _ member
    rw [same event inList start]
    exact collected.fresh missing opening there began
  · change (((last (ends id) second).map (·.occurredAt)) <|> row.endedAt) = _
    rw [collected.endedAt, last_append]
    cases last (ends id) second with
    | none => rfl
    | some event => rfl
  · change (((last (ends id) second).map reportedOutcome).join <|> row.outcome) = _
    rw [collected.outcome]
    exact register_step (kept_of_settled (settled cuttable.outcomes))
  · change (((last (ends id) second).map reportedDuration).join.bind int32 <|> row.durationMs) = _
    rw [collected.durationMs]
    have moved : ((last (ends id) second).map reportedDuration).join.bind int32 =
        ((last (ends id) second).map fun event => (reportedDuration event).bind int32).join := by
      cases last (ends id) second with
      | none => rfl
      | some event => simp
    rw [moved]
    refine register_step fun later earlier here before missing => ?_
    have none : reportedDuration later = .none := by
      cases reported : reportedDuration later with
      | none => rfl
      | some value =>
        have fit := fits later here value reported
        rw [reported, Option.bind_some] at missing
        rw [missing] at fit
        cases fit
    rw [kept_of_settled (settled cuttable.durations) later earlier here before none]
    rfl
  · change (((last (ends id) second).map (payloadText · "digits_dialed")).join <|>
      row.digitsDialed) = _
    rw [collected.digitsDialed]
    exact register_step (kept_of_settled (settled cuttable.digits))
  · change (truthy derived.version <|> row.version) = _
    rw [collected.version, truthy_version (valid derived (last_mem chosen).1)]
    have step : (((last (derives id) second).map (·.version)).join <|>
        ((last (derives id) first).bind (·.version) <|> (db.callSession id).bind (·.version))) =
          ((last (derives id) (first ++ second)).bind (·.version) <|>
            (db.callSession id).bind (·.version)) :=
      register_step (kept_of_settled (settled cuttable.versions))
    rw [chosen] at step
    exact step
  · intro event value ended reported ne
    change (truthy ((last (ends id) second).map reportedRecording).join <|> row.recordingId) = _
    rw [last_append] at ended
    cases here : last (ends id) second with
    | none =>
      rw [here, Option.none_or] at ended
      have before := collected.recording_last event value ended reported ne
      simpa [truthy] using before
    | some latest =>
      rw [here, Option.some_or, Option.some.injEq] at ended
      subst ended
      simp [reported, truthy_of_ne ne]
  · intro none
    have before := collected.recording_none fun event member =>
      none event (List.mem_append_left _ member)
    rw [← before]
    change (truthy ((last (ends id) second).map reportedRecording).join <|> row.recordingId) = _
    cases written : truthy ((last (ends id) second).map reportedRecording).join with
    | none => rfl
    | some value =>
      obtain ⟨event, ended, reported, _⟩ := recording_of_entry written
      have absent := none event (List.mem_append_right _ (last_mem ended).1) (last_mem ended).2
      rw [absent] at reported
      cases reported
  · intro old stored same
    have before := collected.recording_stored old stored fun event member =>
      same event (List.mem_append_left _ member)
    change (truthy ((last (ends id) second).map reportedRecording).join <|> row.recordingId) = _
    cases written : truthy ((last (ends id) second).map reportedRecording).join with
    | none => exact before
    | some value =>
      obtain ⟨event, ended, reported, ne⟩ := recording_of_entry written
      exact (same event (List.mem_append_right _ (last_mem ended).1) (last_mem ended).2 value
        reported ne).symm

/-- A create collects the events of its batch. -/
theorem collected_create {first second rest : List EventInput} {now : Time} {era : Id}
    {init : SessionInit} (cuttable : Cuttable db events id) (cut : events = first ++ second ++ rest)
    (missing : db.callSession id = none) (opened : db.lockInstallationForWrite era = true)
    (quiet : last (derives id) first = none) (found : entry second id = some init) :
    Collected db id (first ++ second) (createdSession now era init) := by
  have derivedThere : ∃ event ∈ second, derives id event = true := by
    rw [entry_eq, Option.map_eq_some_iff] at found
    obtain ⟨event, chosen, _⟩ := found
    exact ⟨event, last_mem chosen⟩
  rw [entry_eq, Option.map_eq_some_iff] at found
  obtain ⟨derived, chosen, rfl⟩ := found
  obtain ⟨noStart, noEnd⟩ := last_eq_none_of_derives quiet
  have only (kind : EventInput → Bool) (none : last kind first = none) :
      last kind (first ++ second) = last kind second := by
    rw [last_append, none, Option.or_none]
  refine ⟨?_, ?_, ?_, ?_, ?_, ?_, ?_, ?_, ?_, ?_, ?_⟩
  · refine decide_eq_true ⟨rfl, ?_, opened⟩
    change ((last (ends id) second).map reportedOutcome).join ≠ _
    cases ended : last (ends id) second with
    | none => simp
    | some event => simpa using reportedOutcome_ne event
  · intro old stored
    rw [missing] at stored
    cases stored
  · intro _ event member start
    obtain ⟨there, derivedIt⟩ := derivedThere
    obtain ⟨opening, member', began, same⟩ := first_start cuttable missing cut
      ⟨there, List.mem_append_right _ derivedIt.1, derivedIt.2⟩
    have inList : ∀ event ∈ first ++ second, event ∈ events := fun event member => by
      rw [cut]
      exact List.mem_append_left _ member
    rw [same event (inList event member) start]
    change ((last (starts id) second).map (·.occurredAt)).getD now = _
    cases started : last (starts id) second with
    | none =>
      have never := last_eq_none.mp ((only (starts id) noStart).trans started)
      rw [never opening member'] at began
      cases began
    | some latest =>
      obtain ⟨there, kind⟩ := last_mem started
      exact same latest (inList latest (List.mem_append_right _ there)) kind
  · change (last (ends id) second).map (·.occurredAt) = _
    rw [only _ noEnd, missing]
    cases last (ends id) second with
    | none => rfl
    | some event => rfl
  · change ((last (ends id) second).map reportedOutcome).join = _
    rw [only _ noEnd, missing]
    cases last (ends id) second with
    | none => rfl
    | some event => simp
  · change ((last (ends id) second).map reportedDuration).join.bind int32 = _
    rw [only _ noEnd, missing]
    cases last (ends id) second with
    | none => rfl
    | some event => simp
  · change ((last (ends id) second).map (payloadText · "digits_dialed")).join = _
    rw [only _ noEnd, missing]
    cases last (ends id) second with
    | none => rfl
    | some event => simp
  · change derived.version = _
    rw [only _ quiet, chosen, missing]
    simp
  · intro event value ended reported _
    rw [only _ noEnd] at ended
    change ((last (ends id) second).map reportedRecording).join = _
    simp [ended, reported]
  · intro none
    change ((last (ends id) second).map reportedRecording).join = _
    rw [missing]
    cases ended : last (ends id) second with
    | none => rfl
    | some event =>
      have absent := none event (List.mem_append_right _ (last_mem ended).1) (last_mem ended).2
      simp [absent]
  · intro old stored
    rw [missing] at stored
    cases stored

/-- The row of an open call after a prefix: untouched, or collected into. -/
def RowState (db : Db) (id : String) (events : List EventInput) (row : Option CallSession) : Prop :=
  match last (derives id) events with
  | none => row = db.callSession id
  | some _ => ∃ collected, row = some collected ∧ Collected db id events collected

/-- The durations of an accepted batch fit their column. -/
theorem fits_of_accepted {middle after : Db} {now : Time} {active : Installation}
    {second : List EventInput} (consistent : Consistent middle)
    (filed : (middle.installation active.id).isSome)
    (accepted : ingestInto columns now second (readKnown second middle) active.id middle = .ok after)
    (thawed : sessionFrozen middle id = false) :
    ∀ event, last (ends id) second = some event → ∀ value,
      reportedDuration event = some value → (int32 value).isSome := by
  have ingestible := (ingestInto_accepted consistent filed).mp ⟨after, accepted⟩
  exact fun event ended => ingestible.durations id event ended thawed

/-- One batch of a cut. -/
theorem rowState_step {first second rest : List EventInput} {now : Time} {active : Installation}
    {middle after : Db} (cuttable : Cuttable db events id)
    (cut : events = first ++ second ++ rest)
    (valid : ∀ event ∈ second, boothEventSchema event = true)
    (opened : callOpen db id = true) (era : db.lockInstallationForWrite active.id = true)
    (installations : middle.installations = db.installations) (consistent : Consistent middle)
    (accepted : ingestInto columns now second (readKnown second middle) active.id middle = .ok after)
    (state : RowState db id first (middle.callSession id)) :
    RowState db id (first ++ second) (after.callSession id) := by
  have row := callSession_ingestInto consistent accepted id
  have filed : (middle.installation active.id).isSome := by
    rw [Db.installation, installations]
    change (db.installation active.id).isSome = true
    unfold Db.lockInstallationForWrite at era
    cases found : db.installation active.id with
    | none => simp [found] at era
    | some _ => rfl
  have same := patchable_congr installations
  cases found : entry second id with
  | none =>
    rw [found] at row
    have quiet : last (derives id) second = none := by
      rw [entry_eq, Option.map_eq_none_iff] at found
      exact found
    unfold RowState at state ⊢
    rw [last_append, quiet, Option.none_or, row]
    cases before : last (derives id) first with
    | none =>
      rw [before] at state
      exact state
    | some event =>
      rw [before] at state
      obtain ⟨stored, there, collected⟩ := state
      exact ⟨stored, there, collected_quiet collected quiet⟩
  | some init =>
    rw [found] at row
    have derived : ∃ event, last (derives id) (first ++ second) = some event := by
      rw [entry_eq, Option.map_eq_some_iff] at found
      obtain ⟨event, chosen, _⟩ := found
      exact ⟨event, by rw [last_append, chosen, Option.some_or]⟩
    have own : init.id = id := (Table.findUnique_mem found).2
    obtain ⟨event, derived⟩ := derived
    unfold RowState
    rw [derived, row]
    have patched {stored : CallSession} (there : middle.callSession id = some stored)
        (collected : Collected db id first stored)
        (held : db.callSession id = none → ∃ event ∈ first, derives id event = true) :
        ∃ next, some (rowAfter middle now active.id init (middle.callSession id)) = some next ∧
          Collected db id (first ++ second) next := by
      have match_ : patchable middle init.id stored = true := by
        rw [same, own]
        exact collected.patchable
      have thawed : sessionFrozen middle id = false := by
        have open_ := (of_decide_eq_true match_).2.2
        simp [sessionFrozen, there, open_]
      refine ⟨patch init stored, ?_, ?_⟩
      · simp [rowAfter, there, match_]
      · exact collected_patch cuttable cut valid (fits_of_accepted consistent filed accepted thawed)
          held collected found
    unfold RowState at state
    cases before : last (derives id) first with
    | none =>
      rw [before] at state
      cases stored : db.callSession id with
      | none =>
        refine ⟨createdSession now active.id init, ?_, ?_⟩
        · simp [rowAfter, state, stored]
        · exact collected_create cuttable cut stored era before found
      | some stored' =>
        refine patched (state.trans stored) (collected_start stored opened before) ?_
        intro missing
        rw [stored] at missing
        cases missing
    | some earlier =>
      rw [before] at state
      obtain ⟨stored, there, collected⟩ := state
      exact patched there collected fun _ => ⟨earlier, last_mem before⟩

/-- What the events of a list come to, however they were cut. -/
theorem collected_unique (cuttable : Cuttable db events id)
    (derived : ∃ event ∈ events, derives id event = true) {one other : CallSession}
    (first : Collected db id events one) (second : Collected db id events other) :
    callFields one = callFields other := by
  have startedAt : one.startedAt = other.startedAt := by
    cases stored : db.callSession id with
    | some old => rw [first.started old stored, second.started old stored]
    | none =>
      obtain ⟨start, member, began, _⟩ :=
        first_start cuttable stored (List.append_nil _).symm derived
      rw [first.fresh stored start member began, second.fresh stored start member began]
  have recordingId : one.recordingId = other.recordingId := by
    cases ended : last (ends id) events with
    | none =>
      have none : ∀ event ∈ events, ends id event = true → reportedRecording event = none := by
        intro event member kind
        rw [last_eq_none.mp ended event member] at kind
        cases kind
      rw [first.recording_none none, second.recording_none none]
    | some final =>
      cases reported : reportedRecording final with
      | none =>
        have none : ∀ event ∈ events, ends id event = true → reportedRecording event = none := by
          intro event member kind
          by_contra some
          have late := cuttable.recordings.last member kind (Option.ne_none_iff_isSome.mp some) ended
          rw [reported] at late
          cases late
        rw [first.recording_none none, second.recording_none none]
      | some value =>
        by_cases empty : value = ""
        · subst empty
          obtain ⟨old, stored, same⟩ := cuttable.recorded final ended reported
          rw [first.recording_stored old stored same, second.recording_stored old stored same]
        · rw [first.recording_last final value ended reported empty,
            second.recording_last final value ended reported empty]
  simp only [callFields, CallFields.mk.injEq]
  exact ⟨startedAt, first.endedAt.trans second.endedAt.symm, first.outcome.trans second.outcome.symm,
    first.digitsDialed.trans second.digitsDialed.symm, recordingId,
    first.durationMs.trans second.durationMs.symm, first.version.trans second.version.symm⟩

theorem rowState_unique (cuttable : Cuttable db events id) {one other : Option CallSession}
    (first : RowState db id events one) (second : RowState db id events other) :
    one.map callFields = other.map callFields := by
  unfold RowState at first second
  cases derived : last (derives id) events with
  | none =>
    rw [derived] at first second
    rw [first, second]
  | some event =>
    rw [derived] at first second
    obtain ⟨row, rfl, collected⟩ := first
    obtain ⟨row', rfl, collected'⟩ := second
    have same := collected_unique cuttable ⟨event, last_mem derived⟩ collected collected'
    rw [Option.map_some, Option.map_some, same]

/-! ## Batches one after the other -/

variable {active : Installation}

theorem ingest_ok {now : Time} {middle after : Db} {accepted : Nat} (nonempty : events ≠ [])
    (ran : ingest columns now events middle = .ok (after, accepted)) :
    ∃ active, middle.findActiveInstallation = some active ∧
      ingestInto columns now events (readKnown events middle) active.id middle = .ok after := by
  unfold ingest at ran
  rw [if_neg nonempty] at ran
  split at ran
  · cases ran
  cases opened : middle.findActiveInstallation with
  | none => simp [opened] at ran
  | some active =>
    simp only [opened] at ran
    cases into : ingestInto columns now events (readKnown events middle) active.id middle with
    | error reason => simp [into] at ran
    | ok written =>
      simp only [into, Except.ok.injEq, Prod.mk.injEq] at ran
      exact ⟨active, rfl, ran.1 ▸ into⟩

theorem ingestAll_cons {batch : Time × List EventInput} {cut : List (Time × List EventInput)}
    {middle after : Db} :
    ingestAll columns (batch :: cut) middle = .ok after ↔
      ∃ next accepted, ingest columns batch.1 batch.2 middle = .ok (next, accepted) ∧
        ingestAll columns cut next = .ok after := by
  unfold ingestAll
  rw [foldlM_cons_ok]
  constructor
  · rintro ⟨next, taken, rest⟩
    cases ran : ingest columns batch.1 batch.2 middle with
    | error reason => simp [ran, Except.map] at taken
    | ok done =>
      simp only [ran, Except.map, Except.ok.injEq] at taken
      exact ⟨next, done.2, by rw [← taken], rest⟩
  · rintro ⟨next, accepted, ran, rest⟩
    exact ⟨next, by simp [ran, Except.map], rest⟩

theorem lock_of_active (consistent : Consistent db) (opened : db.findActiveInstallation = some active) :
    db.lockInstallationForWrite active.id = true := by
  obtain ⟨member, open_⟩ := findActiveInstallation_mem opened
  have found : db.installation active.id = some active :=
    Table.findUnique_of_mem consistent.installations member
  simp [Db.lockInstallationForWrite, found, open_]

theorem findActiveInstallation_congr {other : Db} (same : other.installations = db.installations) :
    other.findActiveInstallation = db.findActiveInstallation := by
  unfold Db.findActiveInstallation
  rw [same]

theorem lock_congr {other : Db} (same : other.installations = db.installations) (era : Id) :
    other.lockInstallationForWrite era = db.lockInstallationForWrite era := by
  simp only [Db.lockInstallationForWrite, Db.installation, same]

/-- The batches of a cut, one after the other. -/
theorem rowState_ingestAll (cuttable : Cuttable db events id)
    (valid : ∀ event ∈ events, boothEventSchema event = true) (opened : callOpen db id = true)
    {cut : List (Time × List EventInput)} (nonempty : ∀ batch ∈ cut, batch.2 ≠ [])
    {first : List EventInput} (shape : events = first ++ (cut.map (·.2)).flatten)
    {middle after : Db} (consistent : Consistent middle)
    (installations : middle.installations = db.installations)
    (ran : ingestAll columns cut middle = .ok after)
    (state : RowState db id first (middle.callSession id)) :
    RowState db id events (after.callSession id) := by
  induction cut generalizing first middle with
  | nil =>
    cases ran
    rw [shape]
    simpa using state
  | cons batch rest ih =>
    obtain ⟨next, _, here, later⟩ := ingestAll_cons.mp ran
    rw [List.forall_mem_cons] at nonempty
    obtain ⟨active, found, into⟩ := ingest_ok nonempty.1 here
    have split : events = first ++ batch.2 ++ (rest.map (·.2)).flatten := by
      rw [shape, List.map_cons, List.flatten_cons, List.append_assoc]
    have validBatch : ∀ event ∈ batch.2, boothEventSchema event = true := by
      intro event member
      refine valid event ?_
      rw [split]
      exact List.mem_append_left _ (List.mem_append_right _ member)
    have era : db.lockInstallationForWrite active.id = true :=
      (lock_congr installations active.id).symm.trans (lock_of_active consistent found)
    exact ih nonempty.2 split (consistent_ingestInto consistent into)
      ((installations_ingestInto into).trans installations) later
      (rowState_step cuttable split validBatch opened era installations consistent into state)

/-- A closed call keeps its row. -/
theorem closed_ingestAll (closed : callOpen db id = false) {cut : List (Time × List EventInput)}
    (nonempty : ∀ batch ∈ cut, batch.2 ≠ []) {middle after : Db} (consistent : Consistent middle)
    (installations : middle.installations = db.installations)
    (same : middle.callSession id = db.callSession id)
    (ran : ingestAll columns cut middle = .ok after) :
    after.callSession id = db.callSession id := by
  induction cut generalizing middle with
  | nil =>
    cases ran
    exact same
  | cons batch rest ih =>
    obtain ⟨next, _, here, later⟩ := ingestAll_cons.mp ran
    rw [List.forall_mem_cons] at nonempty
    obtain ⟨active, found, into⟩ := ingest_ok nonempty.1 here
    have row := callSession_ingestInto consistent into id
    refine ih nonempty.2 (consistent_ingestInto consistent into)
      ((installations_ingestInto into).trans installations) ?_ later
    rw [row, same]
    cases entered : entry batch.2 id with
    | none => rfl
    | some init =>
      have own : init.id = id := (Table.findUnique_mem entered).2
      unfold callOpen at closed
      cases stored : db.callSession id with
      | none => simp [stored] at closed
      | some row =>
        rw [stored, Option.all_some] at closed
        have kept : patchable middle init.id row = false := by
          rw [patchable_congr installations, own]
          exact closed
        simp [rowAfter, kept]

theorem patch_kept (init : SessionInit) (row : CallSession) : RowKept row init (patch init row) := by
  refine ⟨?_, ?_, ?_, ?_, ?_⟩
  all_goals
    intro none
    simp [patch, none, truthy]

/-! ## Inside a batch -/

/-- A field that events of a kind write into the entry of their session. -/
structure FieldOf (id : String) {β : Type} (kind : EventInput → Bool) (value : EventInput → Option β)
    (get : SessionInit → Option (Option β)) : Prop where
  derived : ∀ event, kind event = true → derives id event = true
  spread : ∀ init data, get (init.spread data) = (get data <|> get init)
  entry : ∀ events init, entry events id = some init → get init = (last kind events).map value
  data : ∀ event data, sessionData event = some data → data.id = id →
    get data = if kind event then some (value event) else none

theorem sessionData_cases {event : EventInput} {data : SessionInit}
    (said : sessionData event = some data) (own : data.id = id) :
    starts id event = true ∨ ends id event = true := by
  by_contra neither
  rw [not_or, Bool.not_eq_true, Bool.not_eq_true] at neither
  have other : derives id event = false := by simp [derives, neither]
  exact sessionData_other other data said own

/-- A field that ends fill, by what it is of an entry, a start and an end. -/
theorem fieldOf_ends {β : Type} {value : EventInput → Option β} {get : SessionInit → Option (Option β)}
    (spread : ∀ init data, get (init.spread data) = (get data <|> get init))
    (ended : ∀ events (event : EventInput), get
      { id
        boothId := event.boothId
        bootId := event.bootId
        startedAt := (last (starts id) events).map (·.occurredAt)
        endedAt := (last (ends id) events).map (·.occurredAt)
        outcome := (last (ends id) events).map reportedOutcome
        durationMs := (last (ends id) events).map reportedDuration
        digitsDialed := (last (ends id) events).map (payloadText · "digits_dialed")
        recordingId := (last (ends id) events).map reportedRecording
        version := some event.version } = (last (ends id) events).map value)
    (fromStart : ∀ event : EventInput, get
      { id
        boothId := event.boothId
        bootId := event.bootId
        startedAt := some event.occurredAt
        version := some event.version } = none)
    (fromEnd : ∀ event data, sessionData event = some data → ends id event = true →
      get data = some (value event)) : FieldOf id (ends id) value get := by
  refine ⟨fun event kind => by simp [derives, kind], spread, ?_, ?_⟩
  · intro events init found
    rw [entry_eq, Option.map_eq_some_iff] at found
    obtain ⟨event, _, rfl⟩ := found
    exact ended events event
  · intro event data said own
    rcases sessionData_cases said own with start | last
    · cases (sessionData_of_starts start).symm.trans said
      rw [fromStart event, starts_not_ends start]
      rfl
    · rw [fromEnd event data said last, last]
      rfl

theorem fieldOf_outcome : FieldOf id (ends id) reportedOutcome (·.outcome) := by
  refine fieldOf_ends (fun _ _ => rfl) (fun _ _ => rfl) (fun _ => rfl) fun event data said ended => ?_
  cases (sessionData_of_ends ended).symm.trans said
  rfl

theorem fieldOf_duration : FieldOf id (ends id) reportedDuration (·.durationMs) := by
  refine fieldOf_ends (fun _ _ => rfl) (fun _ _ => rfl) (fun _ => rfl) fun event data said ended => ?_
  cases (sessionData_of_ends ended).symm.trans said
  rfl

theorem fieldOf_digits :
    FieldOf id (ends id) (payloadText · "digits_dialed") (·.digitsDialed) := by
  refine fieldOf_ends (fun _ _ => rfl) (fun _ _ => rfl) (fun _ => rfl) fun event data said ended => ?_
  cases (sessionData_of_ends ended).symm.trans said
  rfl

theorem fieldOf_recording : FieldOf id (ends id) reportedRecording (·.recordingId) := by
  refine fieldOf_ends (fun _ _ => rfl) (fun _ _ => rfl) (fun _ => rfl) fun event data said ended => ?_
  cases (sessionData_of_ends ended).symm.trans said
  rfl

theorem fieldOf_version : FieldOf id (derives id) (·.version) (·.version) := by
  refine ⟨fun _ derived => derived, fun _ _ => rfl, ?_, ?_⟩
  · intro events init found
    rw [entry_eq, Option.map_eq_some_iff] at found
    obtain ⟨event, chosen, rfl⟩ := found
    rw [chosen]
    rfl
  · intro event data said own
    rcases sessionData_cases said own with start | ended
    · cases (sessionData_of_starts start).symm.trans said
      simp [derives, start]
    · cases (sessionData_of_ends ended).symm.trans said
      simp [derives, ended]

variable {β : Type} {kind : EventInput → Bool} {value : EventInput → Option β}
  {get : SessionInit → Option (Option β)}

theorem next_of_entry {before : List EventInput} {event : EventInput} {init data next : SessionInit}
    (found : entry before id = some init) (said : sessionData event = some data)
    (own : data.id = id) (after : entry (before ++ [event]) id = some next) :
    next = init.spread data := by
  rw [entry_snoc, said, found] at after
  simp only [own, if_true, Option.elim_some, Option.some.injEq] at after
  exact after.symm

/-- In a settled list a field that is not there replaces no value. -/
theorem field_kept (field : FieldOf id kind value get) {skipped before rest : List EventInput}
    {event : EventInput} (settled : Settled kind value (skipped ++ before ++ event :: rest))
    {init data next : SessionInit} (found : entry before id = some init)
    (said : sessionData event = some data) (own : data.id = id)
    (after : entry (before ++ [event]) id = some next) :
    ∀ old, (get init).join = some old → (get data).join = none → (get next).join = some old := by
  intro old held missing
  rw [next_of_entry found said own after, field.spread]
  rw [field.data event data said own] at missing ⊢
  by_cases written : kind event = true
  · rw [field.entry before init found] at held
    cases earlier : last kind before with
    | none => simp [earlier] at held
    | some previous =>
      rw [earlier, Option.map_some, Option.join_some] at held
      have late := settled.across (List.mem_append_right _ (last_mem earlier).1) List.mem_cons_self
        (last_mem earlier).2 written (by rw [held]; rfl)
      simp only [written, if_true, Option.join_some] at missing
      rw [missing] at late
      cases late
  · simpa [written] using held

/-- A list in which no field that is not there replaces a value is settled. -/
theorem settled_of_field (field : FieldOf id kind value get)
    (kept : ∀ before event rest, events = before ++ event :: rest → ∀ init data next,
      entry before id = some init → sessionData event = some data → data.id = id →
        entry (before ++ [event]) id = some next →
          ∀ old, (get init).join = some old → (get data).join = none → (get next).join = some old) :
    Settled kind value events := by
  have prefixes : ∀ first rest, events = first ++ rest → Settled kind value first := by
    intro first
    induction first using List.reverseRecOn with
    | nil => exact fun _ _ => List.Pairwise.nil
    | append_singleton first event ih =>
      intro rest shape
      rw [List.append_assoc, List.singleton_append] at shape
      refine settled_snoc (ih _ shape) fun own final found some => ?_
      by_contra missing
      rw [Option.not_isSome_iff_eq_none] at missing
      obtain ⟨old, held⟩ := Option.isSome_iff_exists.mp some
      have derived := field.derived event own
      have said : ∃ data, sessionData event = .some data ∧ data.id = id := by
        rcases Bool.or_eq_true _ _ ▸ derived with start | ended
        · exact ⟨_, sessionData_of_starts start, rfl⟩
        · exact ⟨_, sessionData_of_ends ended, rfl⟩
      obtain ⟨data, said, same⟩ := said
      have there : ∃ init, entry first id = .some init := by
        rw [entry_eq]
        cases any : last (derives id) first with
        | none =>
          have never := last_eq_none.mp any final (last_mem found).1
          rw [field.derived final (last_mem found).2] at never
          cases never
        | some event => exact ⟨_, rfl⟩
      obtain ⟨init, there⟩ := there
      have after : entry (first ++ [event]) id = .some (init.spread data) := by
        rw [entry_snoc, said, there]
        simp [same]
      have written : get data = .some none := by
        rw [field.data event data said same, own, if_pos rfl, missing]
      have value_kept := kept first event rest shape init data _ there said same after old
        (by rw [field.entry first init there, found]; simpa using held) (by rw [written]; rfl)
      rw [field.spread, written] at value_kept
      cases value_kept
  exact prefixes events [] (List.append_nil _).symm

/-! ## The condition -/

theorem splitting_invariant (consistent : Consistent db)
    (valid : ∀ event ∈ events, boothEventSchema event = true)
    (cuttable : ∀ id, callOpen db id = true → Cuttable db events id) :
    SplittingInvariant columns db events := by
  refine ⟨?_, ?_, patch_kept⟩
  · intro now cut whole after once shape ran id
    obtain ⟨nonempty, flat⟩ := shape
    by_cases empty : events = []
    · subst empty
      have none : cut = [] := by
        cases cut with
        | nil => rfl
        | cons batch rest =>
          rw [List.map_cons, List.flatten_cons, List.append_eq_nil_iff] at flat
          exact absurd flat.1 (nonempty batch List.mem_cons_self)
      subst none
      cases ran
      cases once
      rfl
    · have single : ∀ batch ∈ [(now, events)], batch.2 ≠ [] := by simpa using empty
      by_cases opened : callOpen db id = true
      · have start : RowState db id [] (db.callSession id) := rfl
        have first := rowState_ingestAll (cuttable id opened) valid opened nonempty
          (by rw [flat]; rfl) consistent rfl ran start
        have second := rowState_ingestAll (cuttable id opened) valid opened single
          (by simp) consistent rfl once start
        exact rowState_unique (cuttable id opened) first second
      · rw [Bool.not_eq_true] at opened
        rw [closed_ingestAll opened nonempty consistent rfl rfl ran,
          closed_ingestAll opened single consistent rfl rfl once]
  · intro id opened skipped before event rest shape init data next found said own after
    have settled := cuttable id opened
    subst shape
    exact ⟨field_kept fieldOf_outcome settled.outcomes found said own after,
      field_kept fieldOf_duration settled.durations found said own after,
      field_kept fieldOf_digits settled.digits found said own after,
      field_kept fieldOf_recording settled.recordings found said own after,
      field_kept fieldOf_version settled.versions found said own after⟩

/-- The list in two batches, or in one when nothing is left for the second. -/
def cutAfter (now : Time) (first rest : List EventInput) : List (Time × List EventInput) :=
  (now, first) :: if rest = [] then [] else [(0, rest)]

theorem cut_cutAfter {first rest : List EventInput} (nonempty : first ≠ []) (now : Time) :
    Cut (first ++ rest) (cutAfter now first rest) := by
  unfold Cut cutAfter
  by_cases empty : rest = []
  · subst empty
    simp [nonempty]
  · simp [nonempty, empty]

theorem rowAfter_startedAt {now : Time} {era : Id} {init : SessionInit} (row : CallSession) :
    (rowAfter db now era init (some row)).startedAt = row.startedAt := by
  simp only [rowAfter, Option.elim_some]
  split
  · rfl
  · rfl

theorem rowAfter_recordingId {now : Time} {era : Id} {init : SessionInit}
    (silent : truthy init.recordingId.join = none) (row : CallSession) :
    (rowAfter db now era init (some row)).recordingId = row.recordingId := by
  simp only [rowAfter, Option.elim_some]
  split
  · simp [patch, silent]
  · rfl

theorem recordingId_of_entry {events : List EventInput} {init : SessionInit}
    (found : entry events id = some init) :
    init.recordingId = (last (ends id) events).map reportedRecording :=
  fieldOf_recording.entry events init found

theorem startedAt_of_entry {events : List EventInput} {init : SessionInit}
    (found : entry events id = some init) :
    init.startedAt = (last (starts id) events).map (·.occurredAt) := by
  rw [entry_eq, Option.map_eq_some_iff] at found
  obtain ⟨_, _, rfl⟩ := found
  rfl

theorem entry_of_derives {events : List EventInput} {event : EventInput} (member : event ∈ events)
    (derived : derives id event = true) : ∃ init, entry events id = some init := by
  rw [entry_eq]
  cases any : last (derives id) events with
  | none =>
    rw [last_eq_none.mp any event member] at derived
    cases derived
  | some event => exact ⟨_, rfl⟩

/-- The row after the two batches: what the first made of it, with the start
it has then, and its recording id when the second batch brings none. -/
theorem row_cutAfter (consistent : Consistent db) {now : Time} {first rest : List EventInput}
    {after : Db} (nonempty : first ≠ [])
    (ran : ingestAll columns (cutAfter now first rest) db = .ok after) {init : SessionInit}
    (found : entry first id = some init) :
    ∃ era next, after.callSession id = some next ∧
      next.startedAt = (rowAfter db now era init (db.callSession id)).startedAt ∧
        ((∀ event, last (ends id) rest = some event → truthy (reportedRecording event) = none) →
          next.recordingId = (rowAfter db now era init (db.callSession id)).recordingId) := by
  obtain ⟨middle, _, here, later⟩ := ingestAll_cons.mp ran
  obtain ⟨active, opened, into⟩ := ingest_ok nonempty here
  have row := callSession_ingestInto consistent into id
  rw [found] at row
  refine ⟨active.id, ?_⟩
  by_cases empty : rest = []
  · rw [if_pos empty] at later
    cases later
    exact ⟨_, row, rfl, fun _ => rfl⟩
  · rw [if_neg empty] at later
    obtain ⟨final, _, last, done⟩ := ingestAll_cons.mp later
    cases done
    obtain ⟨active', _, into'⟩ := ingest_ok empty last
    have row' := callSession_ingestInto (consistent_ingestInto consistent into) into' id
    rw [row] at row'
    cases found' : entry rest id with
    | none =>
      rw [found'] at row'
      exact ⟨_, row', rfl, fun _ => rfl⟩
    | some init' =>
      rw [found'] at row'
      refine ⟨_, row', rowAfter_startedAt _, fun silent => rowAfter_recordingId ?_ _⟩
      rw [recordingId_of_entry found']
      cases ended : Latest.last (ends id) rest with
      | none => rfl
      | some event => simpa using silent event ended

section Converse

variable (consistent : Consistent db)
  (accepted : ∀ cut, Cut events cut → ∃ after, ingestAll columns cut db = .ok after)
  (invariant : SplittingInvariant columns db events)

include accepted invariant in
/-- The row is the same after every two batches. -/
theorem same_cutAfter {first rest : List EventInput} (shape : events = first ++ rest)
    (nonempty : first ≠ []) (now : Time) (id : String) :
    ∃ after whole, ingestAll columns (cutAfter now first rest) db = .ok after ∧
      ingestAll columns (cutAfter 0 events []) db = .ok whole ∧
        (after.callSession id).map callFields = (whole.callSession id).map callFields := by
  have listed : events ≠ [] := by
    rw [shape]
    exact List.append_ne_nil_of_left_ne_nil nonempty rest
  have cut : Cut events (cutAfter now first rest) := by
    rw [shape]
    exact cut_cutAfter nonempty now
  have single : Cut events (cutAfter 0 events []) := by
    have one : Cut (events ++ []) (cutAfter 0 events []) := cut_cutAfter listed 0
    rwa [List.append_nil] at one
  obtain ⟨after, ran⟩ := accepted _ cut
  obtain ⟨whole, once⟩ := accepted _ single
  exact ⟨after, whole, ran, once, invariant.agree 0 _ whole after once cut ran id⟩

include consistent accepted invariant

/-- A new call starts when the first batch that knows it says. -/
theorem startedAt_cutAfter (missing : db.callSession id = none) {first rest : List EventInput}
    (shape : events = first ++ rest) {event : EventInput} (member : event ∈ first)
    (derived : derives id event = true) (now : Time) :
    ((last (starts id) first).map (·.occurredAt)).getD now =
      ((last (starts id) events).map (·.occurredAt)).getD 0 := by
  have nonempty : first ≠ [] := List.ne_nil_of_mem member
  have listed : event ∈ events := by
    rw [shape]
    exact List.mem_append_left _ member
  obtain ⟨after, whole, ran, once, same⟩ := same_cutAfter accepted invariant shape nonempty now id
  obtain ⟨init, found⟩ := entry_of_derives member derived
  obtain ⟨init', found'⟩ := entry_of_derives listed derived
  obtain ⟨era, next, row, start, _⟩ := row_cutAfter consistent nonempty ran found
  obtain ⟨era', next', row', start', _⟩ :=
    row_cutAfter consistent (List.ne_nil_of_mem listed) once found'
  rw [row, row', Option.map_some, Option.map_some, Option.some.injEq] at same
  rw [missing] at start start'
  change next.startedAt = init.startedAt.getD now at start
  change next'.startedAt = init'.startedAt.getD 0 at start'
  rw [startedAt_of_entry found] at start
  rw [startedAt_of_entry found'] at start'
  rw [← start, ← start']
  exact congrArg CallFields.startedAt same

/-- A new call has one start time. -/
theorem startedAt_of_starts (missing : db.callSession id = none) {start : EventInput}
    (member : start ∈ events) (began : starts id start = true) :
    start.occurredAt = ((last (starts id) events).map (·.occurredAt)).getD 0 := by
  obtain ⟨before, rest, shape⟩ := List.append_of_mem member
  have cut : events = (before ++ [start]) ++ rest := by
    rw [shape, List.append_assoc, List.singleton_append]
  have derived : derives id start = true := by simp [derives, began]
  have same := startedAt_cutAfter consistent accepted invariant missing cut
    (List.mem_append_right _ List.mem_cons_self) derived 0
  rw [last_snoc, if_pos began] at same
  exact same

theorem starts_of_invariant (missing : db.callSession id = none) {before rest : List EventInput}
    {event : EventInput} (shape : events = before ++ event :: rest)
    (quiet : ∀ earlier ∈ before, derives id earlier = false) (derived : derives id event = true) :
    starts id event = true := by
  by_contra other
  rw [Bool.not_eq_true] at other
  have cut : events = (before ++ [event]) ++ rest := by
    rw [shape, List.append_assoc, List.singleton_append]
  have none : last (starts id) (before ++ [event]) = none := by
    rw [last_eq_none]
    intro earlier member
    rcases List.mem_append.mp member with there | here
    · exact (not_ends_of_not_derives (quiet earlier there)).1
    · rw [List.mem_singleton] at here
      exact here ▸ other
  have moment := startedAt_cutAfter consistent accepted invariant missing cut
    (List.mem_append_right _ List.mem_cons_self) derived
  have zero := moment 0
  have one := moment 1
  rw [none] at zero one
  have clash : (0 : Time) = 1 := zero.trans one.symm
  cases clash

/-- The recording id after the two batches, when only the first brings one. -/
theorem recordingId_cutAfter {first rest : List EventInput} (shape : events = first ++ rest)
    {event final : EventInput} (member : event ∈ first) (derived : derives id event = true)
    (empty : reportedRecording final = some "")
    (sole : ∀ other, last (ends id) rest = some other → other = final) :
    ∃ era era' init init', entry first id = some init ∧ entry events id = some init' ∧
      (rowAfter db 0 era init (db.callSession id)).recordingId =
        (rowAfter db 0 era' init' (db.callSession id)).recordingId := by
  have nonempty : first ≠ [] := List.ne_nil_of_mem member
  have listed : event ∈ events := by
    rw [shape]
    exact List.mem_append_left _ member
  obtain ⟨after, whole, ran, once, same⟩ := same_cutAfter accepted invariant shape nonempty 0 id
  obtain ⟨init, found⟩ := entry_of_derives member derived
  obtain ⟨init', found'⟩ := entry_of_derives listed derived
  obtain ⟨era, next, row, _, kept⟩ := row_cutAfter consistent nonempty ran found
  obtain ⟨era', next', row', _, kept'⟩ :=
    row_cutAfter consistent (List.ne_nil_of_mem listed) once found'
  rw [row, row', Option.map_some, Option.map_some, Option.some.injEq] at same
  refine ⟨era, era', init, init', found, found', ?_⟩
  rw [← kept ?_, ← kept' nofun]
  · exact congrArg CallFields.recordingId same
  · intro other last
    rw [sole other last, empty]
    rfl

theorem recorded_of_invariant (opened : callOpen db id = true) {final : EventInput}
    (ended : last (ends id) events = some final) (empty : reportedRecording final = some "") :
    ∃ row, db.callSession id = some row ∧ ∀ other ∈ events, ends id other = true →
      ∀ value, reportedRecording other = some value → value ≠ "" →
        row.recordingId = some value := by
  obtain ⟨finalMember, finalEnds⟩ := last_mem ended
  have derivedEnd : ∀ event, ends id event = true → derives id event = true := by
    intro event kind
    simp [derives, kind]
  cases stored : db.callSession id with
  | none =>
    -- The start of the call alone in the first batch leaves no recording id.
    cases first : events.find? (derives id) with
    | none =>
      rw [List.find?_eq_none] at first
      exact absurd (derivedEnd final finalEnds) (first final finalMember)
    | some start =>
      obtain ⟨derived, before, rest, shape, earlier⟩ := List.find?_eq_some_iff_append.mp first
      have quiet : ∀ event ∈ before, derives id event = false := by simpa using earlier
      have began := starts_of_invariant consistent accepted invariant stored shape quiet derived
      have cut : events = (before ++ [start]) ++ rest := by
        rw [shape, List.append_assoc, List.singleton_append]
      have noEnd : last (ends id) (before ++ [start]) = none := by
        rw [last_eq_none]
        intro event member
        rcases List.mem_append.mp member with there | here
        · exact (not_ends_of_not_derives (quiet event there)).2
        · rw [List.mem_singleton] at here
          exact here ▸ starts_not_ends began
      have sole : ∀ other, last (ends id) rest = some other → other = final := by
        intro other there
        rw [cut, last_append, there, Option.some_or, Option.some.injEq] at ended
        exact ended
      obtain ⟨era, era', init, init', found, found', same⟩ := recordingId_cutAfter consistent
        accepted invariant cut (List.mem_append_right _ List.mem_cons_self) derived empty sole
      rw [stored] at same
      change init.recordingId.join = init'.recordingId.join at same
      rw [recordingId_of_entry found, recordingId_of_entry found', noEnd, ended, Option.map_some,
        Option.join_some, empty] at same
      cases same
  | some row =>
    refine ⟨row, rfl, fun other member kind value reported ne => ?_⟩
    have patchable : patchable db id row = true := by simpa [callOpen, stored] using opened
    obtain ⟨before, rest, shape⟩ := List.append_of_mem member
    have cut : events = (before ++ [other]) ++ rest := by
      rw [shape, List.append_assoc, List.singleton_append]
    have sole : ∀ later, last (ends id) rest = some later → later = final := by
      intro later there
      rw [cut, last_append, there, Option.some_or, Option.some.injEq] at ended
      exact ended
    obtain ⟨era, era', init, init', found, found', same⟩ := recordingId_cutAfter consistent
      accepted invariant cut (List.mem_append_right _ List.mem_cons_self) (derivedEnd other kind)
        empty sole
    have own : init.id = id := (Table.findUnique_mem found).2
    have own' : init'.id = id := (Table.findUnique_mem found').2
    rw [stored] at same
    simp only [rowAfter, Option.elim_some, own, own', patchable, if_true] at same
    change (truthy init.recordingId.join <|> row.recordingId) =
      (truthy init'.recordingId.join <|> row.recordingId) at same
    have latest : last (ends id) (before ++ [other]) = some other := by
      rw [last_snoc, if_pos kind]
    rw [recordingId_of_entry found, recordingId_of_entry found', latest, ended, Option.map_some,
      Option.map_some, Option.join_some, Option.join_some, empty, reported, truthy_of_ne ne] at same
    exact same.symm

theorem cuttable_of_invariant (opened : callOpen db id = true) : Cuttable db events id := by
  have kept : ∀ before event rest, events = before ++ event :: rest → ∀ init data next,
      entry before id = some init → sessionData event = some data → data.id = id →
        entry (before ++ [event]) id = some next → EntryKept init data next :=
    fun before event rest shape => invariant.inside id opened [] before event rest shape
  refine ⟨?_, ?_, ?_, ?_, ?_, ?_, ?_⟩
  · refine settled_of_field fieldOf_outcome ?_
    intro before event rest shape init data next found said own after
    exact (kept before event rest shape init data next found said own after).outcome
  · refine settled_of_field fieldOf_duration ?_
    intro before event rest shape init data next found said own after
    exact (kept before event rest shape init data next found said own after).durationMs
  · refine settled_of_field fieldOf_digits ?_
    intro before event rest shape init data next found said own after
    exact (kept before event rest shape init data next found said own after).digitsDialed
  · refine settled_of_field fieldOf_recording ?_
    intro before event rest shape init data next found said own after
    exact (kept before event rest shape init data next found said own after).recordingId
  · refine settled_of_field fieldOf_version ?_
    intro before event rest shape init data next found said own after
    exact (kept before event rest shape init data next found said own after).version
  · intro missing before event rest shape quiet derived
    have began := starts_of_invariant consistent accepted invariant missing shape quiet derived
    refine ⟨began, fun other member start => ?_⟩
    have inList : event ∈ events := by
      rw [shape]
      exact List.mem_append_right _ List.mem_cons_self
    rw [startedAt_of_starts consistent accepted invariant missing member start,
      startedAt_of_starts consistent accepted invariant missing inList began]
  · exact fun final ended empty => recorded_of_invariant consistent accepted invariant opened ended empty

end Converse

end Splitting

/-- **Where a list of events is cut makes no difference when its calls are
cuttable, and only then when the tables take every cut of it.** -/
theorem splitting_invariant_iff {columns : ColumnTypes} {db : Db} {events : List EventInput}
    (consistent : Consistent db) (valid : ∀ event ∈ events, boothEventSchema event = true) :
    ((∀ id, callOpen db id = true → Cuttable db events id) →
        SplittingInvariant columns db events) ∧
      ((∀ cut, Cut events cut → ∃ after, ingestAll columns cut db = .ok after) →
        SplittingInvariant columns db events →
          ∀ id, callOpen db id = true → Cuttable db events id) :=
  ⟨splitting_invariant consistent valid, fun accepted invariant _ opened =>
    cuttable_of_invariant consistent accepted invariant opened⟩

/-- A call's start and its end, which may come without the version. -/
def callStart : EventInput :=
  { callEvent "e-1" .callStarted .null with version := some "0.3.2" }

def callEnd (version : Option String) : EventInput :=
  { callEvent "e-2" .callEnded (.obj [("outcome", .str "recording_completed")]) with version }

theorem splitting_invariant_call :
    SplittingInvariant roomyColumns openDb [callStart, callEnd (some "0.3.2")] := by
  refine (splitting_invariant_iff consistent_openDb (by decide +kernel)).1 fun id _ => ?_
  have startOnly : ends id callStart = false := by simp [ends, callStart, callEvent]
  have ended {β : Type} (value : EventInput → Option β) :
      Settled (ends id) value [callStart, callEnd (some "0.3.2")] := by
    by_cases own : ends id (callEnd (some "0.3.2")) = true
    · simp [Settled, startOnly, own]
    · simp [Settled, startOnly, own]
  have silent : ∀ event ∈ [callStart, callEnd (some "0.3.2")], reportedRecording event = none := by
    decide +kernel
  have versions : ∀ event ∈ [callStart, callEnd (some "0.3.2")], event.version.isSome := by decide
  have moments : ∀ event ∈ [callStart, callEnd (some "0.3.2")],
      event.occurredAt = callStart.occurredAt := by decide
  have together : derives id (callEnd (some "0.3.2")) = derives id callStart := by
    simp [derives, starts, ends, callStart, callEnd, callEvent]
  refine ⟨ended _, ended _, ended _, ended _, ?_, ?_, ?_⟩
  · refine List.pairwise_of_forall_mem_list fun earlier _ later member _ => ?_
    exact versions later (List.mem_of_mem_filter member)
  · intro _ before event rest shape quiet derived
    have inList : event ∈ [callStart, callEnd (some "0.3.2")] := by
      rw [shape]
      exact List.mem_append_right _ List.mem_cons_self
    have known : derives id callStart = true := by
      rcases List.mem_pair.mp inList with rfl | rfl
      · exact derived
      · exact together ▸ derived
    cases before with
    | nil =>
      obtain ⟨rfl, _⟩ := List.cons.inj shape
      have began : starts id callStart = true := by simpa [derives, startOnly] using derived
      exact ⟨began, fun other member _ => moments other member⟩
    | cons head before =>
      obtain ⟨rfl, _⟩ := List.cons.inj shape
      rw [quiet callStart List.mem_cons_self] at known
      cases known
  · intro event found reported
    rw [silent event (last_mem found).1] at reported
    cases reported

/-- A version the end leaves out replaces that of the start in one batch, and not in two. -/
theorem splitting_loses_version : ¬ ∀ (columns : ColumnTypes) (db : Db) (active : Installation)
    (events : List EventInput), Consistent db → db.findActiveInstallation = some active →
      (∀ event ∈ events, boothEventSchema event = true) → (events.map (·.eventId)).Nodup →
        SplittingInvariant columns db events := by
  intro invariant
  have split := invariant roomyColumns openDb { id := 0 } [callStart, callEnd none] consistent_openDb rfl
    (by decide +kernel) (by decide)
  have cut : Cut [callStart, callEnd none] [(0, [callStart]), (0, [callEnd none])] :=
    ⟨by decide, rfl⟩
  have same := split.agree 0 _ _ _ rfl cut rfl "9d4c2a10-5b7e-4f63-8c21-1a2b3c4d5e6f"
  exact absurd same (by decide +kernel)

end BoothOperator.Events
