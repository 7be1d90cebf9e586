import BoothOperator.Events.Splitting
import BoothOperator.Status.History

/-! A call's own end against the guess an idle report makes. The report stamps
an end, an outcome and no duration on a session without an end; the event
patches only what it carries. Whichever comes first, the event's values stay,
and what it leaves out is the report's guess only when the report came first. -/
namespace BoothOperator.Status

open BoothOperator.Schema
open BoothOperator.Events
open BoothOperator.Latest

/-- What the report writes on a session without an end. -/
def stamp (idleTime : Time) (row : CallSession) : CallSession :=
  { row with endedAt := some idleTime, outcome := some .aborted, durationMs := none }

/-- The event carries nothing that a row stamped at the time does not say. -/
structure Silent (event : EventInput) (idleTime : Time) (row : CallSession) : Prop where
  endedAt : event.occurredAt = idleTime
  outcome : ∀ outcome, reportedOutcome event = some outcome → outcome = .aborted
  durationMs : reportedDuration event = none
  digitsDialed : ∀ digits, payloadText event "digits_dialed" = some digits →
    row.digitsDialed = some digits
  recordingId : ∀ recording, truthy (reportedRecording event) = some recording →
    row.recordingId = some recording
  version : ∀ version, truthy event.version = some version → row.version = some version

/-- When the two orders leave the same row. The second case is a session that
a close-out has stamped and nobody has ended. -/
def Commutes (event : EventInput) (idleTime : Time) (row : CallSession) : Prop :=
  (row.outcome ≠ some .installationEnded ∧
      (reportedOutcome event = none → row.outcome = some .aborted) ∧
      (reportedDuration event = none → row.durationMs = none)) ∨
    (row.outcome = some .installationEnded ∧ Silent event idleTime row)

section Rows

variable {event : EventInput} {id : String} {row : CallSession} {idleTime : Time}

/-- The entry of a batch of one end. -/
def endInit (id : String) (event : EventInput) : SessionInit where
  id
  boothId := event.boothId
  bootId := event.bootId
  endedAt := some event.occurredAt
  outcome := some (reportedOutcome event)
  durationMs := some (reportedDuration event)
  digitsDialed := some (payloadText event "digits_dialed")
  recordingId := some (reportedRecording event)
  version := some event.version

theorem entry_end (ended : ends id event = true) : entry [event] id = some (endInit id event) := by
  have snoc := entry_snoc [] event id
  rw [List.nil_append, sessionData_of_ends ended] at snoc
  rw [snoc]
  simp only [if_true]
  rfl

/-- The event over the stamped row, and over the row itself. -/
theorem patch_stamp_iff (fits : ∀ value, reportedDuration event = some value →
    (int32 value).isSome) :
    patch (endInit id event) row = patch (endInit id event) (stamp idleTime row) ↔
      (reportedOutcome event = none → row.outcome = some .aborted) ∧
        (reportedDuration event = none → row.durationMs = none) := by
  have outcomes : ((reportedOutcome event <|> row.outcome) =
      (reportedOutcome event <|> some .aborted)) ↔
        (reportedOutcome event = none → row.outcome = some .aborted) := by
    cases reportedOutcome event with
    | none => simp
    | some outcome => simp
  have durations : (((reportedDuration event).bind int32 <|> row.durationMs) =
      ((reportedDuration event).bind int32 <|> none)) ↔
        (reportedDuration event = none → row.durationMs = none) := by
    cases given : reportedDuration event with
    | none => simp
    | some value =>
      obtain ⟨stored, same⟩ := Option.isSome_iff_exists.mp (fits value given)
      simp [same]
  rw [← outcomes, ← durations]
  simp [patch, stamp, endInit]

/-- The event over the stamped row changes nothing exactly when it is silent. -/
theorem patch_stamp_self (fits : ∀ value, reportedDuration event = some value →
    (int32 value).isSome) :
    stamp idleTime row = patch (endInit id event) (stamp idleTime row) ↔
      Silent event idleTime row := by
  have kept {β : Type} (new : Option β) (old : Option β) :
      old = (new <|> old) ↔ ∀ value, new = some value → old = some value := by
    cases new with
    | none => simp
    | some value => simp
  have outcomes : (some CallOutcome.aborted = (reportedOutcome event <|> some .aborted)) ↔
      ∀ outcome, reportedOutcome event = some outcome → outcome = .aborted := by
    rw [kept]
    simp [eq_comm]
  have durations : (none = (reportedDuration event).bind int32) ↔
      reportedDuration event = none := by
    cases given : reportedDuration event with
    | none => simp
    | some value =>
      obtain ⟨stored, same⟩ := Option.isSome_iff_exists.mp (fits value given)
      simp [same]
  constructor
  · intro same
    simp only [stamp, patch, endInit, CallSession.mk.injEq, true_and, and_true,
      Option.join_some] at same
    obtain ⟨endedAt, digits, outcome, recording, duration, version⟩ := same
    refine ⟨?_, outcomes.mp outcome, durations.mp ?_, (kept _ _).mp digits,
      (kept _ _).mp recording, (kept _ _).mp version⟩
    · simpa [eq_comm] using endedAt
    · simpa using duration
  · intro silent
    simp only [stamp, patch, endInit, CallSession.mk.injEq, true_and, and_true, Option.join_some]
    refine ⟨?_, (kept _ _).mpr silent.digitsDialed, outcomes.mpr silent.outcome,
      (kept _ _).mpr silent.recordingId, ?_, (kept _ _).mpr silent.version⟩
    · simp [silent.endedAt]
    · simpa using durations.mpr silent.durationMs

end Rows

/-! ## One report -/

section Report

variable {era : Id} {db after : Db} {reportedAt : Time} {update : StatusUpdate}
  {snapshot : BoothStatusSnapshot}

/-- The sessions an idle report closes. -/
def stale (era : Id) (idleTime : Time) (row : CallSession) : Bool :=
  row.endedAt = none ∧ row.startedAt ≤ idleTime ∧ row.installationId = some era

/-- An idle report stamps the stale sessions, at no earlier time than its own. -/
theorem putStatusInto_idle (idle : update.state = .idle)
    (put : putStatusInto era reportedAt update db = some (after, snapshot)) :
    after.callSessions = Table.updateMany (stale era snapshot.updatedAt) (stamp snapshot.updatedAt)
        db.callSessions ∧ reportedAt ≤ snapshot.updatedAt := by
  have late : reportedAt ≤ snapshot.updatedAt := by
    obtain ⟨-, ⟨run, -, rfl, -⟩ | ⟨-, rfl, -⟩⟩ := putStatusInto_cases put
    · simp only [widen]
      split
      · exact le_refl reportedAt
      · rename_i later
        exact Int.not_lt.mp later
    · exact le_refl reportedAt
  refine ⟨?_, late⟩
  unfold putStatusInto at put
  simp only [idle, Option.map_eq_some_iff] at put
  obtain ⟨⟨written, stored⟩, wrote, settled⟩ := put
  have untouched : written.callSessions = db.callSessions := by
    split at wrote
    · split at wrote
      · cases wrote
      · cases wrote
        rfl
    · cases wrote
      rfl
  cases settled
  simp only [reconcileStaleSessionsOnIdle, untouched]
  rfl

/-- A report reads nothing of the sessions and the events. -/
theorem putStatusInto_congr {other : Db} (idle : update.state = .idle)
    (put : putStatusInto era reportedAt update db = some (after, snapshot))
    (rows : other.boothStatusSnapshots = db.boothStatusSnapshots) :
    ∃ after' snapshot', putStatusInto era reportedAt update other = some (after', snapshot') ∧
      snapshot'.updatedAt = snapshot.updatedAt := by
  have runs : runOf era reportedAt update other = runOf era reportedAt update db := by
    unfold runOf enclosing successor
    rw [rows]
  unfold putStatusInto at put ⊢
  simp only [runs, idle] at put ⊢
  cases found : runOf era reportedAt update db with
  | some run =>
    simp only [found] at put ⊢
    by_cases full : maxInt ≤ run.repeatCount
    · simp [full] at put
    · simp only [full, if_false, if_true, Option.map_some, Option.some.injEq] at put ⊢
      cases put
      exact ⟨_, _, rfl, rfl⟩
  | none =>
    simp only [found] at put ⊢
    cases put
    exact ⟨_, _, rfl, rfl⟩

theorem consistent_putStatusInto (consistent : Consistent db) (idle : update.state = .idle)
    (put : putStatusInto era reportedAt update db = some (after, snapshot)) : Consistent after := by
  obtain ⟨installations, -⟩ := putStatusInto_cases put
  obtain ⟨rows, -⟩ := putStatusInto_idle idle put
  refine ⟨?_, ?_, ?_⟩
  · rw [installations]
    exact consistent.installations
  · rw [rows, Table.map_updateMany _ ?_]
    · exact consistent.sessions
    · exact fun _ => rfl
  · intro row member other filed
    rw [rows] at member
    obtain ⟨old, there, same⟩ := Table.mem_updateMany.mp member
    have kept : row.installationId = old.installationId := by
      rw [same]
      split
      · rfl
      · rfl
    have stored := consistent.eras old there other (kept ▸ filed)
    rwa [Db.installation, ← installations] at stored

theorem callSession_putStatusInto (idle : update.state = .idle)
    (put : putStatusInto era reportedAt update db = some (after, snapshot)) (id : String) :
    after.callSession id = (db.callSession id).map fun row =>
      if stale era snapshot.updatedAt row then stamp snapshot.updatedAt row else row := by
  have keeps : ∀ row, (stamp snapshot.updatedAt row).id = row.id := fun _ => rfl
  rw [Db.callSession, (putStatusInto_idle idle put).1]
  exact Table.findUnique_updateMany keeps id db.callSessions

end Report

/-! ## The two orders -/

/-- The events' inserts leave the snapshots alone. -/
theorem boothStatusSnapshots_insertEvents {columns : ColumnTypes} {now : Time} {known : Known}
    {era : Id} {events : List EventInput} {db after : Db}
    (inserted : events.foldlM (insertEvent columns now known era) db = .ok after) :
    after.boothStatusSnapshots = db.boothStatusSnapshots := by
  induction events generalizing db with
  | nil =>
    cases inserted
    rfl
  | cons event rest ih =>
    obtain ⟨middle, taken, inserted⟩ := foldlM_cons_ok.mp inserted
    rw [ih inserted]
    unfold insertEvent at taken
    split at taken
    · cases taken
    split at taken
    · cases taken
      rfl
    simp only at taken
    split at taken
    · cases taken
    · cases taken
      rfl

section Orders

variable {columns : ColumnTypes} {db : Db} {active : Installation} {event : EventInput}
  {id : String} {row : CallSession} {update : StatusUpdate} {eventTime reportTime : Time}

/-- A batch of one end is taken whatever its session's row says. -/
theorem ingestInto_end (consistent : Consistent db) (filed : (db.installation active.id).isSome)
    {other : Db} (consistent' : Consistent other)
    (installations : other.installations = db.installations)
    (found : db.callSession id = some row) (open' : eraOpen db row.installationId = true)
    (present : ∃ row', other.callSession id = some row' ∧
      eraOpen db row'.installationId = true)
    (ended : ends id event = true) {after : Db}
    (accepted : ingestInto columns eventTime [event] (readKnown [event] db) active.id db =
      .ok after) :
    ∃ after', ingestInto columns eventTime [event] (readKnown [event] other) active.id other =
      .ok after' := by
  have ingestible := (ingestInto_accepted consistent filed).mp ⟨after, accepted⟩
  have filed' : (other.installation active.id).isSome := by
    rw [Db.installation, installations]
    exact filed
  refine (ingestInto_accepted consistent' filed').mpr ⟨?_, ?_, ingestible.texts, ?_⟩
  · intro before one later cut new unseen named session
    have own : one ∈ [event] := by
      rw [cut]
      simp
    rw [List.mem_singleton] at own
    subst own
    exact .inr ⟨one, by simp, by
      have same : one.sessionId = some id := (of_decide_eq_true ended).2
      rw [session, Option.some.injEq] at same
      subst same
      simp [derives, ended]⟩
  all_goals
    intro named last' chosen thawed
    obtain ⟨member, kind⟩ := last_mem chosen
    rw [List.mem_singleton] at member
    subst member
    have same : named = id := by
      have one : last'.sessionId = some named := (of_decide_eq_true kind).2
      have two : last'.sessionId = some id := (of_decide_eq_true ended).2
      exact Option.some.inj (one.symm.trans two)
    subst same
    have before : sessionFrozen db named = false := by
      simp [sessionFrozen, found, open']
  · exact ingestible.durations named last' chosen before
  · exact ingestible.calls named last' chosen before

theorem patchable_of_open (named : row.id = id) (open' : eraOpen db row.installationId = true) :
    patchable db id row = decide (row.outcome ≠ some .installationEnded) := by
  simp [patchable, named, open']

/-- An end that was taken says a duration that its column holds. -/
theorem duration_fits (consistent : Consistent db) (filed : (db.installation active.id).isSome)
    (found : db.callSession id = some row) (open' : eraOpen db row.installationId = true)
    (ended : ends id event = true) {after : Db}
    (accepted : ingestInto columns eventTime [event] (readKnown [event] db) active.id db =
      .ok after) :
    ∀ value, reportedDuration event = some value → (int32 value).isSome := by
  have ingestible := (ingestInto_accepted consistent filed).mp ⟨after, accepted⟩
  refine ingestible.durations id event ?_ ?_
  · have snoc := last_snoc (ends id) ([] : List EventInput) event
    rw [List.nil_append, if_pos ended] at snoc
    exact snoc
  · simp [sessionFrozen, found, open']

/-- The event first: the report stamps the row only if the event patched nothing. -/
theorem callSession_end_report (consistent : Consistent db) (found : db.callSession id = some row)
    (open' : eraOpen db row.installationId = true) (ended : ends id event = true)
    (idle : update.state = .idle) {middle done : Db} {snapshot : BoothStatusSnapshot}
    (into : ingestInto columns eventTime [event] (readKnown [event] db) active.id db = .ok middle)
    (put : putStatusInto active.id reportTime update middle = some (done, snapshot))
    (unstamped : stale active.id snapshot.updatedAt row = true) :
    done.callSession id = some (if row.outcome = some .installationEnded
      then stamp snapshot.updatedAt row else patch (endInit id event) row) := by
  have named : row.id = id := (Table.findUnique_mem found).2
  have patched := callSession_ingestInto consistent into id
  rw [entry_end ended, found] at patched
  rw [callSession_putStatusInto idle put id, patched]
  simp only [rowAfter, Option.elim_some, Option.map_some]
  have decided : patchable db (endInit id event).id row =
      decide (row.outcome ≠ some .installationEnded) := patchable_of_open named open'
  rw [decided]
  by_cases closedOut : row.outcome = some .installationEnded
  · simp [closedOut, unstamped]
  · have kept : stale active.id snapshot.updatedAt (patch (endInit id event) row) = false := by
      simp [stale, patch, endInit]
    simp [closedOut, kept]

/-- The report first: the event finds the stamped row, and patches it. -/
theorem callSession_report_end (consistent : Consistent db)
    (stored : (db.installation active.id).isSome) (found : db.callSession id = some row)
    (open' : eraOpen db row.installationId = true) (ended : ends id event = true)
    (idle : update.state = .idle) {middle middle' : Db} {snapshot : BoothStatusSnapshot}
    (into : ingestInto columns eventTime [event] (readKnown [event] db) active.id db = .ok middle)
    (report : putStatusInto active.id reportTime update db = some (middle', snapshot))
    (unstamped : stale active.id snapshot.updatedAt row = true) :
    ∃ done', ingestInto columns eventTime [event] (readKnown [event] middle') active.id middle' =
        .ok done' ∧
      done'.callSession id = some (patch (endInit id event) (stamp snapshot.updatedAt row)) := by
  have named : row.id = id := (Table.findUnique_mem found).2
  have consistent' := consistent_putStatusInto consistent idle report
  obtain ⟨installations, -⟩ := putStatusInto_cases report
  have guessed := callSession_putStatusInto idle report id
  rw [found, Option.map_some, if_pos unstamped] at guessed
  obtain ⟨done', into'⟩ := ingestInto_end consistent stored consistent' installations found open'
    ⟨_, guessed, open'⟩ ended into
  refine ⟨done', into', ?_⟩
  have patched := callSession_ingestInto consistent' into' id
  rw [entry_end ended, guessed] at patched
  have matched : patchable middle' (endInit id event).id (stamp snapshot.updatedAt row) = true := by
    rw [patchable_congr installations]
    have opened : patchable db id (stamp snapshot.updatedAt row) = _ :=
      patchable_of_open named open'
    exact opened.trans (by simp [stamp])
  rw [patched]
  simp only [rowAfter, Option.elim_some]
  rw [if_pos matched]

/-- **The end of a call and an idle report commute exactly when the event
carries what the report would guess.** -/
theorem callEnded_report_commute_iff (consistent : Consistent db)
    (opened : db.findActiveInstallation = some active) (found : db.callSession id = some row)
    (unended : row.endedAt = none) (filed : row.installationId = some active.id)
    (ended : ends id event = true) (idle : update.state = .idle)
    (since : row.startedAt ≤ update.updatedAt.getD reportTime)
    {middle done : Db} {accepted : Nat} {snapshot : BoothStatusSnapshot}
    (first : ingest columns eventTime [event] db = .ok (middle, accepted))
    (second : putStatus reportTime update middle = some (done, snapshot)) :
    ∃ middle' done' accepted' snapshot', putStatus reportTime update db = some (middle', snapshot') ∧
      ingest columns eventTime [event] middle' = .ok (done', accepted') ∧
      (done.callSession id = done'.callSession id ↔ Commutes event snapshot.updatedAt row) := by
  have stored : (db.installation active.id).isSome := by
    have there : db.installation active.id = some active :=
      Table.findUnique_of_mem consistent.installations (findActiveInstallation_mem opened).1
    rw [there]
    rfl
  have open' : eraOpen db row.installationId = true := by
    simp [eraOpen, filed, lock_of_active consistent opened]
  -- the event first
  obtain ⟨_, active', into⟩ := ingest_ok (by simp) first
  rw [opened, Option.some.injEq] at active'
  subst active'
  have still : middle.findActiveInstallation = some active := by
    rw [findActiveInstallation_congr (installations_ingestInto into)]
    exact opened
  unfold putStatus at second
  rw [still] at second
  have unstamped : stale active.id snapshot.updatedAt row = true := by
    have past : row.startedAt ≤ snapshot.updatedAt := le_trans since (putStatusInto_idle idle second).2
    simp [stale, unended, filed, past]
  have stamped := callSession_end_report consistent found open' ended idle into second unstamped
  -- the report first
  have snapshots : db.boothStatusSnapshots = middle.boothStatusSnapshots := by
    obtain ⟨written, writes, inserts⟩ := ingestInto_ok.mp into
    rw [boothStatusSnapshots_insertEvents inserts, writeInits_frame writes]
  obtain ⟨middle', snapshot', report, same⟩ := putStatusInto_congr idle second snapshots
  obtain ⟨done', into', last⟩ := callSession_report_end consistent stored found open' ended idle into
    report (same ▸ unstamped)
  rw [same] at last
  have still' : middle'.findActiveInstallation = some active := by
    rw [findActiveInstallation_congr (putStatusInto_cases report).1]
    exact opened
  refine ⟨middle', done', done'.boothEvents.length - middle'.boothEvents.length, snapshot',
    ?_, ?_, ?_⟩
  · unfold putStatus
    rw [opened]
    exact report
  · have small : ¬ boothEventBatchMax < [event].length := by simp [boothEventBatchMax]
    unfold ingest
    rw [if_neg (by simp), if_neg small, still']
    simp only [into']
  · have fits := duration_fits consistent stored found open' ended into
    rw [last, stamped, Option.some.injEq]
    by_cases closedOut : row.outcome = some .installationEnded
    · rw [if_pos closedOut, patch_stamp_self fits]
      simp [Commutes, closedOut]
    · rw [if_neg closedOut, patch_stamp_iff fits]
      simp [Commutes, closedOut]

end Orders

/-- A call of the open installation that nobody has ended. -/
def ringing : CallSession where
  id := "9d4c2a10-5b7e-4f63-8c21-1a2b3c4d5e6f"
  boothId := "booth-1"
  bootId := "3f2b8c1e-6d0a-4c57-9a1e-2b7c4d5e6f70"
  startedAt := 1759999990000
  installationId := some 0

def ringingDb : Db := { openDb with callSessions := [ringing] }

theorem consistent_ringingDb : Consistent ringingDb := by
  refine ⟨by decide, by decide, fun row member other filed => ?_⟩
  obtain rfl : row = ringing := by simpa [ringingDb] using member
  obtain rfl : other = 0 := by simpa [ringing] using filed.symm
  rfl

/-- The phone is back on its hook. -/
def onHook : StatusUpdate where
  state := .idle
  updatedAt := some 1760000002000

/-- The end the booth reports with its outcome. -/
def hungUp : EventInput :=
  callEvent "e-2" .callEnded (.obj [("outcome", .str "hung_up_during_recording")])

theorem callEnded_report_commute_iff_ringing :
    ∃ middle done middle' done' : Db, ∃ accepted accepted' snapshot snapshot',
      ingest roomyColumns 0 [hungUp] ringingDb = .ok (middle, accepted) ∧
      putStatus 0 onHook middle = some (done, snapshot) ∧
      putStatus 0 onHook ringingDb = some (middle', snapshot') ∧
      ingest roomyColumns 0 [hungUp] middle' = .ok (done', accepted') ∧
      done.callSession ringing.id = done'.callSession ringing.id := by
  have since : ringing.startedAt ≤ onHook.updatedAt.getD 0 := by decide
  have found : ringingDb.callSession ringing.id = some ringing := rfl
  have spoken : reportedOutcome hungUp = some .hungUpDuringRecording := by decide +kernel
  have commutes (idleTime : Time) : Commutes hungUp idleTime ringing := by
    refine .inl ⟨by decide, ?_, fun _ => rfl⟩
    rw [spoken]
    intro silent
    cases silent
  obtain ⟨middle', done', accepted', snapshot', report, ingested, same⟩ :=
    callEnded_report_commute_iff consistent_ringingDb rfl found rfl rfl (by decide) rfl since
      (show ingest roomyColumns 0 [hungUp] ringingDb = .ok (_, _) from rfl) rfl
  exact ⟨_, _, middle', done', _, accepted', _, snapshot', rfl, rfl, report, ingested,
    same.mpr (commutes _)⟩

/-- An end that says nothing of its outcome leaves none when it comes first, and
the guess when it comes second. -/
theorem unspokenEnd_diverges :
    ¬ ∀ (columns : ColumnTypes) (db middle done middle' done' : Db) (active : Installation)
      (event : EventInput) (id : String) (row : CallSession) (update : StatusUpdate)
      (eventTime reportTime : Time) (accepted accepted' : Nat)
      (snapshot snapshot' : BoothStatusSnapshot), Consistent db →
        db.findActiveInstallation = some active → db.callSession id = some row →
        row.endedAt = none → row.installationId = some active.id → ends id event = true →
        update.state = .idle → row.startedAt ≤ update.updatedAt.getD reportTime →
        ingest columns eventTime [event] db = .ok (middle, accepted) →
        putStatus reportTime update middle = some (done, snapshot) →
        putStatus reportTime update db = some (middle', snapshot') →
        ingest columns eventTime [event] middle' = .ok (done', accepted') →
          done.callSession id = done'.callSession id := by
  intro commute
  have same := commute roomyColumns ringingDb _ _ _ _ { id := 0 }
    (callEvent "e-2" .callEnded .null) ringing.id ringing onHook 0 0 _ _ _ _ consistent_ringingDb
    rfl rfl rfl rfl (by decide) rfl (by decide) rfl rfl rfl rfl
  have outcomes := congrArg (Option.bind · (·.outcome)) same
  have differ : (none : Option CallOutcome) = some .aborted := outcomes
  cases differ

end BoothOperator.Status
