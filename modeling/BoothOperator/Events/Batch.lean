import Mathlib.Algebra.Ring.Nat
import Mathlib.Data.List.Basic
import BoothOperator.Schema

/-! The request of `POST /v1/events`, and what a batch says about the calls its
events belong to. A session's entry is spread together from its events one
after the other, so that a later `null` wins over an earlier value. -/
namespace BoothOperator.Events

open BoothOperator.Schema
open BoothOperator.Json (Value)

/-- An event of the request. A field that may be null or absent is read the
same way in both cases. -/
structure EventInput where
  eventId : String
  boothId : String
  bootId : String
  type : BoothEventType
  occurredAt : Time
  sessionId : Option String := none
  recordingId : Option String := none
  payload : JsonValue := .null
  version : Option String := none

/-! ## `BoothEventBatchSchema` -/

/-- `BOOTH_EVENT_BATCH_MAX`. -/
def boothEventBatchMax : Nat := 500

/-- `BOOTH_CLIENT_VERSION_MAX`. -/
def boothClientVersionMax : Nat := 64

/-- The length of a string in UTF-16 code units. -/
def utf16Length (text : String) : Nat :=
  (text.toList.map fun c => if c.toNat < 0x10000 then 1 else 2).sum

/-- `z.string().min(1).max(most)`. -/
def between (text : String) (most : Nat) : Bool :=
  1 ≤ utf16Length text ∧ utf16Length text ≤ most

def isHexDigit (c : Char) : Bool :=
  c.isDigit ∨ ('a' ≤ c ∧ c ≤ 'f') ∨ ('A' ≤ c ∧ c ≤ 'F')

/-- `z.guid()`. -/
def isGuid (text : String) : Bool :=
  (text.toList.splitOn '-').map List.length = [8, 4, 4, 4, 12] ∧
    text.toList.all fun c => c = '-' ∨ isHexDigit c

/-- Lower case changes no dash and keeps a hexadecimal digit one. -/
theorem toLower_guidChar {c : Char} (allowed : c = '-' ∨ isHexDigit c) :
    (c.toLower == '-') = (c == '-') ∧ (c.toLower = '-' ∨ isHexDigit c.toLower) := by
  have ascii : ∀ n < 128, (Char.ofNat n = '-' ∨ isHexDigit (Char.ofNat n)) →
      ((Char.ofNat n).toLower == '-') = (Char.ofNat n == '-') ∧
        ((Char.ofNat n).toLower = '-' ∨ isHexDigit (Char.ofNat n).toLower) := by
    decide +kernel
  have small : c.toNat < 128 := by
    rcases allowed with rfl | hex
    · decide
    · simp only [isHexDigit, Char.isDigit, decide_eq_true_eq, Bool.decide_or, Bool.or_eq_true,
        Bool.and_eq_true, Bool.decide_and, Char.le_def, UInt32.le_iff_toNat_le] at hex
      have bound : c.val.toNat < 128 := by
        rcases hex with ⟨_, top⟩ | ⟨_, top⟩ | ⟨_, top⟩
        · exact Nat.lt_of_le_of_lt top (by decide)
        · exact Nat.lt_of_le_of_lt top (by decide)
        · exact Nat.lt_of_le_of_lt top (by decide)
      exact bound
  have same := ascii c.toNat small
  rw [Char.ofNat_toNat] at same
  exact same allowed

theorem splitOn_lengths {change : Char → Char} {text : List Char}
    (dashes : ∀ c ∈ text, (change c == '-') = (c == '-')) :
    ((text.map change).splitOn '-').map List.length = (text.splitOn '-').map List.length := by
  unfold List.splitOn
  induction text with
  | nil => rfl
  | cons c rest ih =>
    have later := ih fun other member => dashes other (List.mem_cons_of_mem _ member)
    rw [List.map_cons, List.splitOnP_cons_eq_if_modifyHead, List.splitOnP_cons_eq_if_modifyHead, dashes c List.mem_cons_self]
    split
    · rw [List.map_cons, List.map_cons, later]
    · cases left : List.splitOnP (· == '-') (rest.map change) with
      | nil => exact absurd left (List.splitOnP_ne_nil _ _)
      | cons first others =>
        cases right : List.splitOnP (· == '-') rest with
        | nil => exact absurd right (List.splitOnP_ne_nil _ _)
        | cons first' others' =>
          rw [left, right] at later
          simpa using later

theorem isGuid_toLower {raw : String} (valid : isGuid raw) : isGuid raw.toLower := by
  obtain ⟨groups, chars⟩ := of_decide_eq_true valid
  have allowed : ∀ c ∈ raw.toList, c = '-' ∨ isHexDigit c := fun c member => by
    simpa using List.all_eq_true.mp chars c member
  have lowered : raw.toLower.toList = raw.toList.map Char.toLower := String.toList_map
  refine decide_eq_true ⟨?_, ?_⟩
  · rw [lowered, splitOn_lengths fun c member =>
      (toLower_guidChar (allowed c member)).1]
    exact groups
  · rw [lowered, List.all_map, List.all_eq_true]
    intro c member
    exact decide_eq_true (toLower_guidChar (allowed c member)).2

/-- `BoothEventSchema`; the bounds on the time are those of a four-digit year. -/
def boothEventSchema (event : EventInput) : Bool :=
  between event.eventId 128 ∧ between event.boothId 64 ∧ isGuid event.bootId ∧
    (-62167219200000 ≤ event.occurredAt ∧ event.occurredAt < 253402300800000) ∧
    event.sessionId.all isGuid ∧ event.recordingId.all (between · 128) ∧
    event.version.all (between · boothClientVersionMax)

/-- `BoothEventBatchSchema`. -/
structure Batch where
  events : List EventInput
  size : 1 ≤ events.length ∧ events.length ≤ boothEventBatchMax
  valid : ∀ event ∈ events, boothEventSchema event

/-! ## Session derivation -/

/-- `Partial<StoredCallSession>`: the outer `none` is a key that is not there,
the inner one is `null`. -/
structure SessionInit where
  id : String
  boothId : String
  bootId : String
  startedAt : Option Time := none
  endedAt : Option Time := none
  outcome : Option (Option CallOutcome) := none
  durationMs : Option (Option Number) := none
  digitsDialed : Option (Option String) := none
  recordingId : Option (Option String) := none
  version : Option (Option String) := none

/-- `{ ...init, ...next }`. -/
def SessionInit.spread (init next : SessionInit) : SessionInit where
  id := next.id
  boothId := next.boothId
  bootId := next.bootId
  startedAt := next.startedAt <|> init.startedAt
  endedAt := next.endedAt <|> init.endedAt
  outcome := next.outcome <|> init.outcome
  durationMs := next.durationMs <|> init.durationMs
  digitsDialed := next.digitsDialed <|> init.digitsDialed
  recordingId := next.recordingId <|> init.recordingId
  version := next.version <|> init.version

def callStartedData (event : EventInput) : Option SessionInit :=
  match event.type, event.sessionId with
  | .callStarted, some id =>
    some
      { id
        boothId := event.boothId
        bootId := event.bootId
        startedAt := some event.occurredAt
        version := some event.version }
  | _, _ => none

/-- `payload.name`; what is not an object has no such member. -/
def payloadMember (event : EventInput) (name : String) : JsonValue :=
  match event.payload with
  | .obj members => (Value.lookup name members).getD .null
  | _ => .null

/-- `BoothReportedCallOutcomeSchema`. -/
def reportedCallOutcome : String → Option CallOutcome
  | "hung_up_before_dial" => some .hungUpBeforeDial
  | "hung_up_during_prompt" => some .hungUpDuringPrompt
  | "hung_up_during_recording" => some .hungUpDuringRecording
  | "hung_up_during_upload" => some .hungUpDuringUpload
  | "recording_completed" => some .recordingCompleted
  | "recording_failed" => some .recordingFailed
  | "upload_failed" => some .uploadFailed
  | "operator_error" => some .operatorError
  | "aborted" => some .aborted
  | _ => none

def reportedOutcome (event : EventInput) : Option CallOutcome :=
  let outcomeRaw :=
    match payloadMember event "outcome" with
    | .null => payloadMember event "call_outcome"
    | value => value
  match outcomeRaw with
  | .str text => reportedCallOutcome text
  | _ => none

/-- A booth does not report what a rollover writes. -/
theorem reportedOutcome_ne (event : EventInput) :
    reportedOutcome event ≠ some .installationEnded := by
  unfold reportedOutcome
  simp only
  split
  · unfold reportedCallOutcome
    split <;> simp
  · nofun

/-- `typeof payload.duration_ms === "number" ? payload.duration_ms : null`. -/
def reportedDuration (event : EventInput) : Option Number :=
  match payloadMember event "duration_ms" with
  | .num value => some value
  | _ => none

/-- `typeof payload[name] === "string" ? payload[name] : null`. -/
def payloadText (event : EventInput) (name : String) : Option String :=
  match payloadMember event name with
  | .str text => some text
  | _ => none

def reportedRecording (event : EventInput) : Option String :=
  event.recordingId <|> payloadText event "recording_id"

def callEndedData (event : EventInput) : Option SessionInit :=
  match event.type, event.sessionId with
  | .callEnded, some id =>
    some
      { id
        boothId := event.boothId
        bootId := event.bootId
        endedAt := some event.occurredAt
        outcome := some (reportedOutcome event)
        durationMs := some (reportedDuration event)
        digitsDialed := some (payloadText event "digits_dialed")
        recordingId := some (reportedRecording event)
        version := some event.version }
  | _, _ => none

/-- `sessionInits.set(next.id, { ...sessionInits.get(next.id), ...next })`. -/
def setInit (inits : List SessionInit) (next : SessionInit) : List SessionInit :=
  Table.upsert (·.id) SessionInit.spread next inits

def collect (inits : List SessionInit) (event : EventInput) : List SessionInit :=
  let inits := (callStartedData event).elim inits (setInit inits)
  (callEndedData event).elim inits (setInit inits)

/-- The entries of a batch, in the order their sessions first appear. -/
def sessionInits (events : List EventInput) : List SessionInit := events.foldl collect []

end BoothOperator.Events
