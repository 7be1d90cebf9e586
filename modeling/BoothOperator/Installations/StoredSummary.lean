import Mathlib.Data.List.Sort
import BoothOperator.Lib.IsoTime
import BoothOperator.Lib.StableJson
import BoothOperator.Installations.Summary

/-! The summary of an installation as it is stored: the schema that reads it, also in the old
formats, how it is compared with another one, and which rows have a summary that can be read. -/
namespace BoothOperator.Installations

open BoothOperator.Schema
open BoothOperator.Json (Value sortKeys stringify decimal)

/-! ## Summaries as objects -/

/-- A summary with its instants as text. -/
structure SummaryData where
  calls : Nat
  interactions : Nat
  interactionBreakdown : InteractionBreakdown
  messages : Nat
  allRecordings : Nat
  byStatus : Record
  messagesApproved : Nat
  messagesRejected : Nat
  questions : Nat
  events : Nat
  recordedMs : Int
  firstActivityAt : Option String
  lastActivityAt : Option String
  deriving DecidableEq

def InstallationSummary.data (summary : InstallationSummary) : SummaryData where
  calls := summary.calls
  interactions := summary.interactions
  interactionBreakdown := summary.interactionBreakdown
  messages := summary.messages
  allRecordings := summary.allRecordings
  byStatus := summary.byStatus
  messagesApproved := summary.messagesApproved
  messagesRejected := summary.messagesRejected
  questions := summary.questions
  events := summary.events
  recordedMs := summary.recordedMs
  firstActivityAt := summary.firstActivityAt.map IsoTime.toISOString
  lastActivityAt := summary.lastActivityAt.map IsoTime.toISOString

section Objects

variable {ν : Type} (number : Int → ν)

def InteractionBreakdown.members (breakdown : InteractionBreakdown) : List (String × Value ν) :=
  [("noSelection", .num (number breakdown.noSelection)),
    ("wrongNumberAttempts", .num (number breakdown.wrongNumberAttempts)),
    ("messagesLeft", .num (number breakdown.messagesLeft)),
    ("messagePlaybackStarts", .num (number breakdown.messagePlaybackStarts)),
    ("instructionPlaybackStarts", .num (number breakdown.instructionPlaybackStarts))]

def recordMembers (record : Record) : List (String × Value ν) :=
  record.map fun entry => (entry.1, .num (number entry.2))

def nullable (text : Option String) : Value ν := text.elim .null .str

def SummaryData.members (summary : SummaryData) : List (String × Value ν) :=
  [("calls", .num (number summary.calls)), ("interactions", .num (number summary.interactions)),
    ("interactionBreakdown", .obj (summary.interactionBreakdown.members number)),
    ("messages", .num (number summary.messages)),
    ("allRecordings", .num (number summary.allRecordings)),
    ("byStatus", .obj (recordMembers number summary.byStatus)),
    ("messagesApproved", .num (number summary.messagesApproved)),
    ("messagesRejected", .num (number summary.messagesRejected)),
    ("questions", .num (number summary.questions)), ("events", .num (number summary.events)),
    ("recordedMs", .num (number summary.recordedMs)),
    ("firstActivityAt", nullable summary.firstActivityAt),
    ("lastActivityAt", nullable summary.lastActivityAt)]

end Objects

/-- Two summaries with the same members, whatever the order of `byStatus`. -/
structure SummaryData.Same (summary other : SummaryData) : Prop where
  byStatus : summary.byStatus.Perm other.byStatus
  others : { summary with byStatus := other.byStatus } = other

/-! ## `InstallationSummarySchema` -/

def MAX_SAFE_INTEGER : Int := 9007199254740991

/-- `z.number().int().nonnegative()`. -/
def readCount : JsonValue → Option Nat
  | .num value =>
    if value.den = 1 ∧ 0 ≤ value.num ∧ value.num ≤ MAX_SAFE_INTEGER then some value.num.toNat
    else none
  | _ => none

/-- `z.record(z.string(), z.number().int().nonnegative())`. -/
def readRecord : JsonValue → Option Record
  | .obj members => members.mapM fun member => (readCount member.2).map fun count => (member.1, count)
  | _ => none

/-- A field that has to be there. -/
def required {α : Type} (read : JsonValue → Option α) (field : Option JsonValue) : Option α :=
  field.bind read

/-- `.default(..)`. -/
def withDefault {α : Type} (read : JsonValue → Option α) (fallback : α) : Option JsonValue → Option α
  | none => some fallback
  | some value => read value

def emptyInteractionBreakdown : InteractionBreakdown := ⟨0, 0, 0, 0, 0⟩

def readBreakdown : JsonValue → Option InteractionBreakdown
  | .obj members => do
    let field name := required readCount (Value.lookup name members)
    some {
      noSelection := ← field "noSelection"
      wrongNumberAttempts := ← field "wrongNumberAttempts"
      messagesLeft := ← field "messagesLeft"
      messagePlaybackStarts := ← field "messagePlaybackStarts"
      instructionPlaybackStarts := ← field "instructionPlaybackStarts" }
  | _ => none

/-- `z.string().datetime().nullable()`. -/
def readInstant (isDatetime : String → Bool) : JsonValue → Option (Option String)
  | .null => some none
  | .str text => if isDatetime text then some (some text) else none
  | _ => none

/-- The schema over the fields that are given to it. -/
def summarySchema (isDatetime : String → Bool) (field : String → Option JsonValue) :
    Option SummaryData := do
  let count name := required readCount (field name)
  some {
    calls := ← count "calls"
    interactions := ← count "interactions"
    interactionBreakdown :=
      ← withDefault readBreakdown emptyInteractionBreakdown (field "interactionBreakdown")
    messages := ← count "messages"
    allRecordings := ← withDefault readCount 0 (field "allRecordings")
    byStatus := ← withDefault readRecord [] (field "byStatus")
    messagesApproved := ← count "messagesApproved"
    messagesRejected := ← count "messagesRejected"
    questions := ← count "questions"
    events := ← count "events"
    recordedMs := ((← count "recordedMs" : Nat) : Int)
    firstActivityAt := ← required (readInstant isDatetime) (field "firstActivityAt")
    lastActivityAt := ← required (readInstant isDatetime) (field "lastActivityAt") }

/-- The fields of a stored summary, those of the old formats under their new names. -/
def normalized (members : List (String × JsonValue)) (name : String) : Option JsonValue :=
  let record name := Value.lookup name members
  if name = "allRecordings" then (record "allRecordings").or (record "messages")
  else if name = "messages" then
    if (record "allRecordings").isSome then record "messages" else record "messagesApproved"
  else if name = "interactions" then (record "interactions").or (record "calls")
  else if name = "interactionBreakdown" then
    (record "interactionBreakdown").or
      (some (.obj (emptyInteractionBreakdown.members fun count => (count : Number))))
  else record name

def parseInstallationSummary (isDatetime : String → Bool) : Option JsonValue → Option SummaryData
  | some (.obj members) => summarySchema isDatetime (normalized members)
  | _ => none

/-! ## The environment -/

/-- What the code takes from its environment: the order of texts, the texts that `datetime()`
takes, and what a JSON column gives back of an object. -/
structure Environment where
  localeCompare : String → String → Ordering
  isDatetime : String → Bool
  column : JsonValue → JsonValue

/-- What the environment is documented to do. -/
structure Environment.Reliable (environment : Environment) : Prop where
  total : ∀ a b, (environment.localeCompare a b).isLE || (environment.localeCompare b a).isLE
  transitive : ∀ a b c, (environment.localeCompare a b).isLE → (environment.localeCompare b c).isLE →
    (environment.localeCompare a c).isLE
  /-- Texts of plain letters are told apart. -/
  letters : ∀ a b : String, a.toList.all Char.isAlpha → b.toList.all Char.isAlpha →
    (environment.localeCompare a b).isLE → (environment.localeCompare b a).isLE → a = b
  instants : ∀ time, IsoTime.InRange time → environment.isDatetime (IsoTime.format time) = true
  /-- A year has four digits, with no sign before them. -/
  unsigned : ∀ text, environment.isDatetime text = true →
    ∃ first rest, text.toList = first :: rest ∧ first.isDigit = true
  scalar : ∀ value : Number, environment.column (.num value) = .num value
  text : ∀ value, environment.column (.str value) = .str value
  null : environment.column .null = .null
  /-- The column keeps the members of an object, in an order of its own. -/
  members : ∀ members : List (String × JsonValue), (members.map Prod.fst).Nodup →
    ∃ stored, environment.column (.obj members) = .obj stored ∧
      stored.Perm (members.map (Prod.map id environment.column))

section Environment

variable (environment : Environment)

def stableStringify (value : Value Int) : String :=
  stringify decimal (sortKeys (fun left right => (environment.localeCompare left right).isLE) value)

/-- A summary as the comparison sees it. -/
def summaryValue (summary : Option SummaryData) : Value Int :=
  summary.elim .null fun summary => .obj (summary.members id)

/-- The summary as it is read back from where it has been stored. -/
def SummaryData.stored (summary : SummaryData) : JsonValue :=
  environment.column (.obj (summary.members fun value => (value : Number)))

end Environment

/-! ## The comparison -/

section Comparison

variable {environment : Environment} {summary other : SummaryData}

/-- The texts of the statuses. -/
def Lettered (record : Record) : Prop :=
  (record.map Prod.fst).Nodup ∧ ∀ name ∈ record.map Prod.fst, name.toList.all Char.isAlpha

theorem stableStringify_eq_iff {first second : Value Int} :
    stableStringify environment first = stableStringify environment second ↔
      sortKeys (fun left right => (environment.localeCompare left right).isLE) first =
        sortKeys (fun left right => (environment.localeCompare left right).isLE) second :=
  (Json.stringify_injective Json.literals_decimal).eq_iff

@[simp] theorem sortKeys_nullable (le : String → String → Bool) (text : Option String) :
    sortKeys le (nullable text : Value Int) = nullable text := by
  cases text with
  | none => exact Json.sortKeys_null
  | some text => exact Json.sortKeys_str text

theorem nullable_inj {first second : Option String} :
    (nullable first : Value Int) = nullable second ↔ first = second := by
  cases first <;> cases second <;> simp [nullable]

theorem breakdown_of_sorted {le : String → String → Bool} {first second : InteractionBreakdown}
    (sorted : sortKeys le (.obj (first.members id)) = sortKeys le (.obj (second.members id))) :
    first = second := by
  have members := (Json.perm_of_sortKeys_eq sorted).subset
  simp [InteractionBreakdown.members, List.subset_def] at members
  cases first
  cases second
  simpa using members

theorem record_of_sorted {le : String → String → Bool} {first second : Record}
    (sorted : sortKeys le (.obj (recordMembers id first)) =
      sortKeys le (.obj (recordMembers id second))) : first.Perm second := by
  have members := Json.perm_of_sortKeys_eq sorted
  have sortedMembers (record : Record) :
      (recordMembers id record).map (Prod.map id (sortKeys le)) =
        record.map fun entry => (entry.1, (.num (entry.2 : Int) : Value Int)) := by
    simp [recordMembers, Function.comp_def]
  rw [sortedMembers, sortedMembers] at members
  refine (List.map_perm_map_iff ?_).mp members
  rintro ⟨name, count⟩ ⟨name', count'⟩ same
  simpa [Int.natCast_inj] using same

/-- Summaries that are written alike are the same but for the order of their statuses. -/
theorem same_of_sorted {le : String → String → Bool}
    (sorted : sortKeys le (.obj (summary.members id)) = sortKeys le (.obj (other.members id))) :
    summary.Same other := by
  have members := (Json.perm_of_sortKeys_eq sorted).subset
  simp [SummaryData.members, List.subset_def, nullable_inj] at members
  obtain ⟨calls, interactions, breakdown, messages, allRecordings, byStatus, approved, rejected,
    questions, events, recorded, first, last⟩ := members
  refine ⟨record_of_sorted byStatus, ?_⟩
  rw [calls, interactions, breakdown_of_sorted breakdown, messages, allRecordings, approved,
    rejected, questions, events, recorded, first, last]

/-- A letter tells two names apart, and so their order. -/
theorem sorted_of_same (reliable : environment.Reliable) (lettered : Lettered other.byStatus)
    (same : summary.Same other) :
    sortKeys (fun left right => (environment.localeCompare left right).isLE)
        (.obj (summary.members id)) =
      sortKeys (fun left right => (environment.localeCompare left right).isLE)
        (.obj (other.members id)) := by
  have names : (recordMembers (id : Int → Int) other.byStatus).map Prod.fst =
      other.byStatus.map Prod.fst := by
    simp [recordMembers, Function.comp_def]
  have record : sortKeys (fun left right => (environment.localeCompare left right).isLE)
        (.obj (recordMembers (id : Int → Int) summary.byStatus)) =
      sortKeys (fun left right => (environment.localeCompare left right).isLE)
        (.obj (recordMembers (id : Int → Int) other.byStatus)) := by
    refine Json.sortKeys_obj_congr reliable.transitive reliable.total (names.symm ▸ lettered.1) ?_
      ((same.byStatus.map _).map _)
    rw [names]
    intro a there b here
    exact reliable.letters a b (lettered.2 a there) (lettered.2 b here)
  have others := same.others
  cases summary
  cases other
  simp only [SummaryData.mk.injEq] at others
  obtain ⟨rfl, rfl, rfl, rfl, rfl, -, rfl, rfl, rfl, rfl, rfl, rfl, rfl⟩ := others
  rw [sortKeys, sortKeys, Json.sortMembers_eq, Json.sortMembers_eq]
  simp only [SummaryData.members, List.map_cons, List.map_nil, Prod.map, id, record]

theorem stableStringify_summary_iff (reliable : environment.Reliable)
    {current : Option SummaryData} (lettered : Lettered other.byStatus) :
    stableStringify environment (summaryValue current) =
        stableStringify environment (summaryValue (some other)) ↔
      ∃ summary, current = some summary ∧ summary.Same other := by
  rw [stableStringify_eq_iff]
  cases current with
  | none =>
    refine iff_of_false ?_ ?_
    · rw [summaryValue, summaryValue, Option.elim_none, Option.elim_some, Json.sortKeys_null,
        sortKeys]
      intro same
      cases same
    · rintro ⟨_, same, _⟩
      cases same
  | some summary =>
    simp only [Option.some.injEq, exists_eq_left']
    exact ⟨same_of_sorted, sorted_of_same reliable lettered⟩

end Comparison

/-! ## Reading what was stored -/

section Reading

variable {environment : Environment} {summary : SummaryData} {count : Nat}

/-- Every count, and the instants, are as the schema wants them. -/
structure SummaryData.Readable (isDatetime : String → Bool) (summary : SummaryData) : Prop where
  calls : (summary.calls : Int) ≤ MAX_SAFE_INTEGER
  interactions : (summary.interactions : Int) ≤ MAX_SAFE_INTEGER
  noSelection : (summary.interactionBreakdown.noSelection : Int) ≤ MAX_SAFE_INTEGER
  wrongNumberAttempts : (summary.interactionBreakdown.wrongNumberAttempts : Int) ≤ MAX_SAFE_INTEGER
  messagesLeft : (summary.interactionBreakdown.messagesLeft : Int) ≤ MAX_SAFE_INTEGER
  messagePlaybackStarts :
    (summary.interactionBreakdown.messagePlaybackStarts : Int) ≤ MAX_SAFE_INTEGER
  instructionPlaybackStarts :
    (summary.interactionBreakdown.instructionPlaybackStarts : Int) ≤ MAX_SAFE_INTEGER
  messages : (summary.messages : Int) ≤ MAX_SAFE_INTEGER
  allRecordings : (summary.allRecordings : Int) ≤ MAX_SAFE_INTEGER
  byStatus : ∀ entry ∈ summary.byStatus, (entry.2 : Int) ≤ MAX_SAFE_INTEGER
  messagesApproved : (summary.messagesApproved : Int) ≤ MAX_SAFE_INTEGER
  messagesRejected : (summary.messagesRejected : Int) ≤ MAX_SAFE_INTEGER
  questions : (summary.questions : Int) ≤ MAX_SAFE_INTEGER
  events : (summary.events : Int) ≤ MAX_SAFE_INTEGER
  recorded : 0 ≤ summary.recordedMs ∧ summary.recordedMs ≤ MAX_SAFE_INTEGER
  first : ∀ text, summary.firstActivityAt = some text → isDatetime text = true
  last : ∀ text, summary.lastActivityAt = some text → isDatetime text = true

theorem readCount_num {value : Int} (positive : 0 ≤ value) (safe : value ≤ MAX_SAFE_INTEGER) :
    readCount (.num (value : Number)) = some value.toNat := by
  simp [readCount, positive, safe]

theorem readCount_count (safe : (count : Int) ≤ MAX_SAFE_INTEGER) :
    readCount (.num (((count : Int)) : Number)) = some count :=
  readCount_num (Int.natCast_nonneg count) safe

theorem le_of_readCount {value : JsonValue} (read : readCount value = some count) :
    (count : Int) ≤ MAX_SAFE_INTEGER := by
  cases value with
  | num value =>
    obtain ⟨⟨-, positive, safe⟩, same⟩ := Option.ite_none_right_eq_some.mp read
    cases same
    rwa [Int.toNat_of_nonneg positive]
  | _ => cases read

/-- Each member of an object is stored as it would be alone. -/
theorem lookup_stored (reliable : environment.Reliable) {members : List (String × JsonValue)}
    (distinct : (members.map Prod.fst).Nodup) :
    ∃ stored, environment.column (.obj members) = .obj stored ∧
      ∀ name, Value.lookup name stored = (Value.lookup name members).map environment.column := by
  obtain ⟨stored, same, perm⟩ := reliable.members members distinct
  refine ⟨stored, same, fun name => ?_⟩
  rw [Value.lookup_perm ((Json.map_fst_map environment.column members).symm ▸ distinct) perm,
    Value.lookup_map]

theorem readBreakdown_stored (reliable : environment.Reliable)
    (readable : summary.Readable environment.isDatetime) :
    readBreakdown (environment.column
      (.obj (summary.interactionBreakdown.members fun value => (value : Number)))) =
        some summary.interactionBreakdown := by
  have distinct : ((summary.interactionBreakdown.members fun value => (value : Number)).map
      Prod.fst).Nodup := by
    simp [InteractionBreakdown.members]
  obtain ⟨stored, same, found⟩ := lookup_stored reliable distinct
  have count (name : String) (number : Nat) (safe : (number : Int) ≤ MAX_SAFE_INTEGER)
      (member : (name, .num (((number : Int)) : Number)) ∈
        summary.interactionBreakdown.members fun value => (value : Number)) :
      required readCount (Value.lookup name stored) = some number := by
    rw [found, (Value.lookup_eq_some distinct).mpr member, Option.map_some, required,
      Option.bind_some, reliable.scalar, readCount_count safe]
  rw [same, readBreakdown]
  simp only [count "noSelection" _ readable.noSelection (by simp [InteractionBreakdown.members]),
    count "wrongNumberAttempts" _ readable.wrongNumberAttempts
      (by simp [InteractionBreakdown.members]),
    count "messagesLeft" _ readable.messagesLeft (by simp [InteractionBreakdown.members]),
    count "messagePlaybackStarts" _ readable.messagePlaybackStarts
      (by simp [InteractionBreakdown.members]),
    count "instructionPlaybackStarts" _ readable.instructionPlaybackStarts
      (by simp [InteractionBreakdown.members]), Option.bind_eq_bind, Option.bind_some]

theorem readRecord_map {record : Record}
    (safe : ∀ entry ∈ record, (entry.2 : Int) ≤ MAX_SAFE_INTEGER) :
    readRecord (.obj (recordMembers (fun value => (value : Number)) record)) = some record := by
  rw [readRecord, recordMembers]
  induction record with
  | nil => rfl
  | cons entry rest ih =>
    obtain ⟨first, later⟩ := List.forall_mem_cons.mp safe
    rw [List.map_cons, List.mapM_cons, ih later, readCount_count first]
    rfl

/-- A record is read with its entries in the order of the column. -/
theorem readRecord_stored (reliable : environment.Reliable)
    (distinct : (summary.byStatus.map Prod.fst).Nodup)
    (readable : summary.Readable environment.isDatetime) :
    ∃ record, readRecord (environment.column
      (.obj (recordMembers (fun value => (value : Number)) summary.byStatus))) = some record ∧
        record.Perm summary.byStatus := by
  have names : (recordMembers (fun value => (value : Number)) summary.byStatus).map Prod.fst =
      summary.byStatus.map Prod.fst := by
    simp [recordMembers, Function.comp_def]
  obtain ⟨stored, same, perm⟩ := reliable.members _ (names.symm ▸ distinct)
  have kept : (recordMembers (fun value => (value : Number)) summary.byStatus).map
      (Prod.map id environment.column) =
        recordMembers (fun value => (value : Number)) summary.byStatus := by
    simp [recordMembers, reliable.scalar]
  rw [kept, recordMembers] at perm
  obtain ⟨record, whole, rfl⟩ := Json.exists_map_of_perm perm
  refine ⟨record, ?_, whole⟩
  rw [same]
  exact readRecord_map fun entry member => readable.byStatus entry (whole.subset member)

theorem readInstant_stored (reliable : environment.Reliable) {text : Option String}
    (readable : ∀ instant, text = some instant → environment.isDatetime instant = true) :
    readInstant environment.isDatetime (environment.column (nullable text)) = some text := by
  cases text with
  | none => rw [nullable, Option.elim_none, reliable.null, readInstant]
  | some instant =>
    rw [nullable, Option.elim_some, reliable.text, readInstant, if_pos (readable instant rfl)]

/-- The fields of the new format are those that are stored. -/
theorem normalized_of_new {members : List (String × JsonValue)}
    (recordings : (Value.lookup "allRecordings" members).isSome)
    (interactions : (Value.lookup "interactions" members).isSome)
    (breakdown : (Value.lookup "interactionBreakdown" members).isSome) (name : String) :
    normalized members name = Value.lookup name members := by
  rw [normalized]
  split_ifs with one two three four
  · rw [one, Option.or_of_isSome recordings]
  · rw [two]
  · rw [three, Option.or_of_isSome interactions]
  · rw [four, Option.or_of_isSome breakdown]
  · rfl

theorem names_nodup (summary : SummaryData) :
    ((summary.members fun value => (value : Number)).map Prod.fst).Nodup := by
  simp [SummaryData.members]

/-- A summary that the schema takes is read as it was, but for the order of its statuses; it has
the fields that tell it from the old formats. -/
theorem parse_stored (reliable : environment.Reliable)
    (distinct : (summary.byStatus.map Prod.fst).Nodup)
    (readable : summary.Readable environment.isDatetime) :
    ∃ read, parseInstallationSummary environment.isDatetime (some (summary.stored environment)) =
      some read ∧ read.Same summary := by
  obtain ⟨stored, same, found⟩ := lookup_stored reliable (names_nodup summary)
  obtain ⟨record, read, perm⟩ := readRecord_stored reliable distinct readable
  have lookup (name : String) (value : JsonValue)
      (member : (name, value) ∈ summary.members fun value => (value : Number)) :
      Value.lookup name stored = some (environment.column value) := by
    rw [found, (Value.lookup_eq_some (names_nodup summary)).mpr member, Option.map_some]
  have field (name : String) (value : JsonValue)
      (member : (name, value) ∈ summary.members fun value => (value : Number)) :
      normalized stored name = some (environment.column value) := by
    rw [normalized_of_new, lookup name value member]
    · exact Option.isSome_of_eq_some (lookup "allRecordings" (.num ((summary.allRecordings : Int) : Number))
        (by simp [SummaryData.members]))
    · exact Option.isSome_of_eq_some (lookup "interactions" (.num ((summary.interactions : Int) : Number))
        (by simp [SummaryData.members]))
    · exact Option.isSome_of_eq_some (lookup "interactionBreakdown"
        (.obj (summary.interactionBreakdown.members fun value => (value : Number)))
        (by simp [SummaryData.members]))
  have count (name : String) (number : Nat) (safe : (number : Int) ≤ MAX_SAFE_INTEGER)
      (member : (name, .num (((number : Int)) : Number)) ∈
        summary.members fun value => (value : Number)) :
      (normalized stored name).bind readCount = some number := by
    rw [field name _ member, Option.bind_some, reliable.scalar, readCount_count safe]
  have recorded : (normalized stored "recordedMs").bind readCount =
      some summary.recordedMs.toNat := by
    rw [field "recordedMs" (.num (summary.recordedMs : Number)) (by simp [SummaryData.members]),
      Option.bind_some, reliable.scalar,
      readCount_num readable.recorded.1 readable.recorded.2]
  refine ⟨{ summary with byStatus := record }, ?_, perm, rfl⟩
  rw [SummaryData.stored, same, parseInstallationSummary, summarySchema]
  simp only [count "calls" summary.calls readable.calls (by simp [SummaryData.members]),
    count "interactions" summary.interactions readable.interactions (by simp [SummaryData.members]),
    count "messages" summary.messages readable.messages (by simp [SummaryData.members]),
    count "messagesApproved" summary.messagesApproved readable.messagesApproved
      (by simp [SummaryData.members]),
    count "messagesRejected" summary.messagesRejected readable.messagesRejected
      (by simp [SummaryData.members]),
    count "questions" summary.questions readable.questions (by simp [SummaryData.members]),
    count "events" summary.events readable.events (by simp [SummaryData.members]),
    field "allRecordings" (.num ((summary.allRecordings : Int) : Number))
      (by simp [SummaryData.members]),
    field "interactionBreakdown"
      (.obj (summary.interactionBreakdown.members fun value => (value : Number)))
      (by simp [SummaryData.members]),
    field "byStatus" (.obj (recordMembers (fun value => (value : Number)) summary.byStatus))
      (by simp [SummaryData.members]),
    field "firstActivityAt" (nullable summary.firstActivityAt) (by simp [SummaryData.members]),
    field "lastActivityAt" (nullable summary.lastActivityAt) (by simp [SummaryData.members]),
    recorded, withDefault, required, Option.bind_some, readBreakdown_stored reliable readable, read,
    reliable.scalar, readCount_count readable.allRecordings,
    readInstant_stored reliable readable.first, readInstant_stored reliable readable.last,
    Option.bind_eq_bind, Int.toNat_of_nonneg readable.recorded.1]

end Reading

/-! ## The summary of rows -/

section Rows

variable {rows : EraRows} {environment : Environment}

/-- The rows whose summary the schema takes: no count is beyond the safe integers, the recordings
do not last a negative time in all, and the first and the last event are in a year of four digits. -/
structure Presentable (rows : EraRows) : Prop where
  sessions : (rows.sessions.length : Int) ≤ MAX_SAFE_INTEGER
  recordings : (rows.landed.length : Int) ≤ MAX_SAFE_INTEGER
  questions : (rows.questions : Int) ≤ MAX_SAFE_INTEGER
  events : (rows.events.length : Int) ≤ MAX_SAFE_INTEGER
  recorded : 0 ≤ (rows.landed.map fun recording => recording.durationMs.getD 0).sum
  safe : (rows.landed.map fun recording => recording.durationMs.getD 0).sum ≤ MAX_SAFE_INTEGER
  first : ∀ time, (rows.events.map (·.occurredAt)).min? = some time → IsoTime.InRange time
  last : ∀ time, (rows.events.map (·.occurredAt)).max? = some time → IsoTime.InRange time

theorem incRecord_le {record : Record} {key : String} {most : Nat}
    (bounded : ∀ entry ∈ record, entry.2 ≤ most) :
    ∀ entry ∈ incRecord record key, entry.2 ≤ most + 1 := by
  induction record with
  | nil => simp [incRecord]
  | cons head rest ih =>
    obtain ⟨first, later⟩ := List.forall_mem_cons.mp bounded
    rw [incRecord]
    split
    · exact List.forall_mem_cons.mpr
        ⟨Nat.succ_le_succ first, fun entry member => Nat.le_succ_of_le (later entry member)⟩
    · exact List.forall_mem_cons.mpr ⟨Nat.le_succ_of_le first, ih later⟩

theorem mem_names_incRecord {record : Record} {key name : String} :
    name ∈ (incRecord record key).map Prod.fst ↔ name = key ∨ name ∈ record.map Prod.fst := by
  induction record with
  | nil => simp [incRecord]
  | cons head rest ih =>
    rw [incRecord]
    split
    · next same => simp [same]
    · rw [List.map_cons, List.mem_cons, ih, List.map_cons, List.mem_cons]
      exact or_left_comm

theorem names_incRecord_nodup {record : Record} {key : String}
    (distinct : (record.map Prod.fst).Nodup) : ((incRecord record key).map Prod.fst).Nodup := by
  induction record with
  | nil => simp [incRecord]
  | cons head rest ih =>
    obtain ⟨fresh, distinct⟩ := List.nodup_cons.mp distinct
    rw [incRecord]
    split
    · exact List.nodup_cons.mpr ⟨fresh, distinct⟩
    · next apart =>
      refine List.nodup_cons.mpr ⟨?_, ih distinct⟩
      rw [mem_names_incRecord]
      exact not_or.mpr ⟨apart, fresh⟩

/-- Counting texts names each of them once, and counts none more often than there are texts. -/
theorem count_texts (texts : List String) (record : Record) (most : Nat)
    (distinct : (record.map Prod.fst).Nodup) (bounded : ∀ entry ∈ record, entry.2 ≤ most) :
    ((texts.foldl incRecord record).map Prod.fst).Nodup ∧
      (∀ entry ∈ texts.foldl incRecord record, entry.2 ≤ most + texts.length) ∧
      ∀ name ∈ (texts.foldl incRecord record).map Prod.fst,
        name ∈ texts ∨ name ∈ record.map Prod.fst := by
  induction texts generalizing record most with
  | nil => exact ⟨distinct, bounded, fun name member => Or.inr member⟩
  | cons text rest ih =>
    obtain ⟨named, least, only⟩ := ih (incRecord record text) (most + 1)
      (names_incRecord_nodup distinct) (incRecord_le bounded)
    refine ⟨named, fun entry member => ?_, fun name member => ?_⟩
    · have small := least entry member
      rw [List.length_cons]
      omega
    · rcases only name member with later | there
      · exact Or.inl (List.mem_cons_of_mem text later)
      · rcases mem_names_incRecord.mp there with rfl | before
        · exact Or.inl List.mem_cons_self
        · exact Or.inr before

/-- A counter that each event raises by one at most is bounded by the events. -/
theorem counter_le {counter : InteractionActionsSummary → Nat}
    (raised : ∀ summary event, counter (countAction summary event) ≤ counter summary + 1)
    (events : List InteractionEvent) (summary : InteractionActionsSummary) :
    counter (events.foldl countAction summary) ≤ counter summary + events.length := by
  induction events generalizing summary with
  | nil => exact Nat.le_refl _
  | cons event rest ih =>
    have later := ih (countAction summary event)
    have here := raised summary event
    rw [List.foldl_cons, List.length_cons]
    omega

theorem countAction_le (summary : InteractionActionsSummary) (event : InteractionEvent) :
    (countAction summary event).wrongNumberAttempts ≤ summary.wrongNumberAttempts + 1 ∧
      (countAction summary event).messagePlaybackStarts ≤ summary.messagePlaybackStarts + 1 ∧
      (countAction summary event).instructionPlaybackStarts ≤
        summary.instructionPlaybackStarts + 1 := by
  rw [countAction]
  split
  · split
    · simp
    · rw [selectDigit]
      split_ifs <;> simp
  · split
    · rw [selectPlayback]
      split
      · split_ifs <;> simp
      · simp
    · simp

theorem actionEvents_length_le (rows : EraRows) :
    rows.actionEvents.length ≤ rows.events.length := by
  rw [EraRows.actionEvents, List.length_map]
  exact List.length_filter_le _ _

theorem counter_rows_le {counter : InteractionActionsSummary → Nat}
    (raised : ∀ summary event, counter (countAction summary event) ≤ counter summary + 1)
    (zero : counter { digitsDialed := emptyDigitsDialed } = 0) (rows : EraRows) :
    counter (rows.actionEvents.foldl countAction { digitsDialed := emptyDigitsDialed }) ≤
      rows.events.length := by
  have counted := counter_le raised rows.actionEvents { digitsDialed := emptyDigitsDialed }
  rw [zero, Nat.zero_add] at counted
  exact counted.trans (actionEvents_length_le rows)

theorem breakdown_le (rows : EraRows) :
    (computeInstallationSummary rows).interactionBreakdown.noSelection ≤ rows.sessions.length ∧
      (computeInstallationSummary rows).interactionBreakdown.messagesLeft ≤ rows.sessions.length ∧
      (computeInstallationSummary rows).interactionBreakdown.wrongNumberAttempts ≤
        rows.events.length ∧
      (computeInstallationSummary rows).interactionBreakdown.messagePlaybackStarts ≤
        rows.events.length ∧
      (computeInstallationSummary rows).interactionBreakdown.instructionPlaybackStarts ≤
        rows.events.length :=
  ⟨List.countP_le_length, List.countP_le_length,
    counter_rows_le (fun summary event => (countAction_le summary event).1) rfl rows,
    counter_rows_le (fun summary event => (countAction_le summary event).2.1) rfl rows,
    counter_rows_le (fun summary event => (countAction_le summary event).2.2) rfl rows⟩

/-- A decided message has landed. -/
theorem countP_status_le (rows : EraRows) {status : String} (landed : status ≠ "uploading") :
    (rows.recordings.countP fun recording => recording.status = status) ≤ rows.landed.length := by
  rw [EraRows.landed, ← List.countP_eq_length_filter]
  refine List.countP_mono_left fun recording _ same => ?_
  rw [decide_eq_true_iff] at same ⊢
  exact same ▸ landed

theorem byStatus_eq (rows : EraRows) : (computeInstallationSummary rows).byStatus =
    (rows.landed.map Recording.status).foldl incRecord [] :=
  List.foldl_map.symm

theorem byStatus_lettered (lettered : ∀ recording ∈ rows.recordings,
    recording.status.toList.all Char.isAlpha) :
    Lettered (computeInstallationSummary rows).byStatus := by
  rw [byStatus_eq]
  obtain ⟨distinct, -, only⟩ := count_texts (rows.landed.map Recording.status) [] 0 List.nodup_nil
    nofun
  refine ⟨distinct, fun name member => ?_⟩
  rcases only name member with there | nothing
  · obtain ⟨recording, landed, rfl⟩ := List.mem_map.mp there
    exact lettered recording (List.mem_of_mem_filter landed)
  · cases nothing

theorem isDatetime_toISOString (reliable : environment.Reliable) (time : Time) :
    environment.isDatetime (IsoTime.toISOString time) = true ↔ IsoTime.InRange time := by
  constructor
  · intro taken
    by_contra beyond
    obtain ⟨first, rest, written, digit⟩ := reliable.unsigned _ taken
    rw [IsoTime.toISOString, if_neg beyond] at written
    simp only [String.toList_ofList, List.cons_append, List.cons.injEq] at written
    obtain ⟨sign, -⟩ := written
    split at sign
    · exact absurd (sign ▸ digit) (by decide)
    · exact absurd (sign ▸ digit) (by decide)
  · intro range
    rw [IsoTime.toISOString, if_pos range]
    exact reliable.instants time range

/-- The schema takes the summary of presentable rows. -/
theorem Presentable.readable (presentable : Presentable rows) (reliable : environment.Reliable) :
    (computeInstallationSummary rows).data.Readable environment.isDatetime := by
  obtain ⟨noSelection, messagesLeft, wrongNumbers, messageStarts, instructionStarts⟩ :=
    breakdown_le rows
  have sessions := presentable.sessions
  have events := presentable.events
  have recordings := presentable.recordings
  have approved := countP_status_le rows (show "approved" ≠ "uploading" by decide)
  have rejected := countP_status_le rows (show "rejected" ≠ "uploading" by decide)
  have statuses := (count_texts (rows.landed.map Recording.status) [] 0 List.nodup_nil nofun).2.1
  exact {
    calls := sessions
    interactions := sessions
    noSelection := (Int.ofNat_le.mpr noSelection).trans sessions
    wrongNumberAttempts := (Int.ofNat_le.mpr wrongNumbers).trans events
    messagesLeft := (Int.ofNat_le.mpr messagesLeft).trans sessions
    messagePlaybackStarts := (Int.ofNat_le.mpr messageStarts).trans events
    instructionPlaybackStarts := (Int.ofNat_le.mpr instructionStarts).trans events
    messages := (Int.ofNat_le.mpr approved).trans recordings
    allRecordings := recordings
    byStatus := by
      intro entry member
      have small := statuses entry (byStatus_eq rows ▸ member)
      rw [Nat.zero_add, List.length_map] at small
      exact (Int.ofNat_le.mpr small).trans recordings
    messagesApproved := (Int.ofNat_le.mpr approved).trans recordings
    messagesRejected := (Int.ofNat_le.mpr rejected).trans recordings
    questions := presentable.questions
    events := events
    recorded := ⟨presentable.recorded, presentable.safe⟩
    first := by
      intro text written
      obtain ⟨time, least, rfl⟩ := Option.map_eq_some_iff.mp written
      exact (isDatetime_toISOString reliable time).mpr (presentable.first time least)
    last := by
      intro text written
      obtain ⟨time, most, rfl⟩ := Option.map_eq_some_iff.mp written
      exact (isDatetime_toISOString reliable time).mpr (presentable.last time most) }

theorem le_of_required {field : Option JsonValue} {count : Nat}
    (read : required readCount field = some count) : (count : Int) ≤ MAX_SAFE_INTEGER := by
  obtain ⟨value, -, read⟩ := Option.bind_eq_some_iff.mp read
  exact le_of_readCount read

theorem le_of_withDefault {field : Option JsonValue} {count : Nat}
    (read : withDefault readCount 0 field = some count) : (count : Int) ≤ MAX_SAFE_INTEGER := by
  cases field with
  | none =>
    cases read
    decide
  | some value => exact le_of_readCount read

theorem isDatetime_of_required {isDatetime : String → Bool} {field : Option JsonValue}
    {instant : Option String} (read : required (readInstant isDatetime) field = some instant) :
    ∀ text, instant = some text → isDatetime text = true := by
  obtain ⟨value, -, read⟩ := Option.bind_eq_some_iff.mp read
  cases value with
  | str text =>
    obtain ⟨taken, same⟩ := Option.ite_none_right_eq_some.mp read
    cases same
    rintro _ ⟨⟩
    exact taken
  | null =>
    cases read
    exact nofun
  | _ => cases read

/-- What the schema gives is within its bounds, and so are the rows that it is the summary of. -/
theorem presentable_of_parse (reliable : environment.Reliable) {stored : Option JsonValue}
    {summary : SummaryData}
    (parsed : parseInstallationSummary environment.isDatetime stored = some summary)
    (same : summary.Same (computeInstallationSummary rows).data) : Presentable rows := by
  unfold parseInstallationSummary at parsed
  split at parsed
  · next members =>
    rw [summarySchema] at parsed
    obtain ⟨calls, sessions, parsed⟩ := Option.bind_eq_some_iff.mp parsed
    obtain ⟨interactions, -, parsed⟩ := Option.bind_eq_some_iff.mp parsed
    obtain ⟨breakdown, -, parsed⟩ := Option.bind_eq_some_iff.mp parsed
    obtain ⟨messages, -, parsed⟩ := Option.bind_eq_some_iff.mp parsed
    obtain ⟨allRecordings, recordings, parsed⟩ := Option.bind_eq_some_iff.mp parsed
    obtain ⟨byStatus, -, parsed⟩ := Option.bind_eq_some_iff.mp parsed
    obtain ⟨approved, -, parsed⟩ := Option.bind_eq_some_iff.mp parsed
    obtain ⟨rejected, -, parsed⟩ := Option.bind_eq_some_iff.mp parsed
    obtain ⟨questions, asked, parsed⟩ := Option.bind_eq_some_iff.mp parsed
    obtain ⟨events, sent, parsed⟩ := Option.bind_eq_some_iff.mp parsed
    obtain ⟨recordedMs, recorded, parsed⟩ := Option.bind_eq_some_iff.mp parsed
    obtain ⟨first, early, parsed⟩ := Option.bind_eq_some_iff.mp parsed
    obtain ⟨last, late, parsed⟩ := Option.bind_eq_some_iff.mp parsed
    cases parsed
    have others := same.others
    simp only [SummaryData.mk.injEq, InstallationSummary.data] at others
    obtain ⟨rfl, -, -, -, rfl, -, -, -, rfl, rfl, total, rfl, rfl⟩ := others
    have range (time : Time) := (isDatetime_toISOString reliable time).mp
    exact {
      sessions := le_of_required sessions
      recordings := le_of_withDefault recordings
      questions := le_of_required asked
      events := le_of_required sent
      recorded := (Int.natCast_nonneg recordedMs).trans_eq total
      safe := total.symm.trans_le (le_of_required recorded)
      first := fun time least =>
        range time (isDatetime_of_required early _ (Option.map_eq_some_iff.mpr ⟨time, least, rfl⟩))
      last := fun time most =>
        range time (isDatetime_of_required late _ (Option.map_eq_some_iff.mpr ⟨time, most, rfl⟩)) }
  · cases parsed

end Rows

/-! ## An environment -/

/-- The order of the names in a `jsonb` object. -/
def shorterFirst (left right : String) : Bool :=
  left.length < right.length || (left.length = right.length && (compare left right).isLE)

/-- Texts by code point, the instants of `toISOString`, and objects as `jsonb` orders them. -/
def postgres : Environment where
  localeCompare := compare
  isDatetime text := (IsoTime.read text).any fun time => IsoTime.InRange time
  column := sortKeys shorterFirst

theorem isDatetime_postgres (text : String) : postgres.isDatetime text =
    (IsoTime.read text).any fun time => IsoTime.InRange time :=
  rfl

theorem digit_isDigit : ∀ value < 10, (IsoTime.digit (value : Nat)).isDigit = true := by
  decide

theorem postgres_reliable : postgres.Reliable where
  total a b := by
    have swapped : compare b a = (compare a b).swap := Std.OrientedCmp.eq_swap
    change (compare a b).isLE || (compare b a).isLE
    rw [swapped]
    cases compare a b <;> rfl
  transitive a b c before after := by
    change (compare a c).isLE
    exact Std.TransCmp.isLE_trans (b := b) before after
  letters a b _ _ before after := by
    change (compare a b).isLE at before
    exact Std.LawfulEqCmp.eq_of_compare (Std.OrientedCmp.isLE_antisymm before after)
  instants time range := by
    rw [isDatetime_postgres, IsoTime.read_format range, Option.any_some, decide_eq_true range]
  unsigned text taken := by
    obtain ⟨time, read, range⟩ := (Option.any_eq_true _ _).mp taken
    rw [← IsoTime.format_of_read read, IsoTime.format, String.toList_ofList]
    obtain ⟨low, high⟩ := of_decide_eq_true range
    refine ⟨_, _, rfl, ?_⟩
    have digit := digit_isDigit ((IsoTime.dateOf (time / 86400000)).year / 1000).toNat (by omega)
    rwa [Int.toNat_of_nonneg (by omega)] at digit
  scalar value := (Json.sortKeys_num value : sortKeys shorterFirst _ = _)
  text value := (Json.sortKeys_str value : sortKeys shorterFirst _ = _)
  null := (Json.sortKeys_null : sortKeys shorterFirst _ = _)
  members members _ := by
    refine ⟨_, Json.sortKeys_obj members, ?_⟩
    rw [Json.sortMembers_eq]
    exact List.mergeSort_perm _ _

end BoothOperator.Installations
