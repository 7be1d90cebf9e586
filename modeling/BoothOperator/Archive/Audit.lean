import BoothOperator.Archive.Documents
import BoothOperator.Audit.Trail
import BoothOperator.Lib.JsonReader

/-! `boundAuditFields`: the sizes an audit row is cut to before it is stored. The fields are cut as
the trail cuts its own, over code units. -/
namespace BoothOperator.Archive

open BoothOperator.Audit (boundString sanitizeMetadata MAX_ACTION_LENGTH MAX_PATH_LENGTH
  MAX_USER_AGENT_LENGTH MAX_LABEL_LENGTH MAX_TARGET_TYPE_LENGTH MAX_TARGET_ID_LENGTH
  MAX_METHOD_LENGTH MAX_IP_LENGTH)
open BoothOperator.Schema
open BoothOperator.Utf16 (Text units)

/-- The code units of a character. -/
def unitsOfChar (c : Char) : Text :=
  if c.toNat < 0x10000 then [UInt16.ofNat c.toNat]
  else [UInt16.ofNat (0xD800 + (c.toNat - 0x10000) / 0x400),
    UInt16.ofNat (0xDC00 + (c.toNat - 0x10000) % 0x400)]

def textOf (text : String) : Text := text.toList.flatMap unitsOfChar

/-- Half of a pair is stored as a replacement character. -/
def stringOf (text : Text) : String := Json.textOfUnits (text.reverse.map UInt16.toNat)

mutual

/-- A value over code units. -/
def valueOf : JsonValue → Utf16.Value Number
  | .str text => .str (textOf text)
  | .null => .null
  | .bool value => .bool value
  | .num value => .num value
  | .arr items => .arr (itemsOf items)
  | .obj members => .obj (membersOf members)

def itemsOf : List JsonValue → List (Utf16.Value Number)
  | [] => []
  | item :: rest => valueOf item :: itemsOf rest

def membersOf : List (String × JsonValue) → Utf16.Members Number
  | [] => []
  | (name, item) :: rest => (textOf name, valueOf item) :: membersOf rest

end

mutual

/-- The value that is stored. -/
def storedValue : Utf16.Value Number → JsonValue
  | .str text => .str (stringOf text)
  | .null => .null
  | .bool value => .bool value
  | .num value => .num value
  | .arr items => .arr (storedItems items)
  | .obj members => .obj (storedMembers members)

def storedItems : List (Utf16.Value Number) → List JsonValue
  | [] => []
  | item :: rest => storedValue item :: storedItems rest

def storedMembers : Utf16.Members Number → List (String × JsonValue)
  | [] => []
  | (name, item) :: rest => (stringOf name, storedValue item) :: storedMembers rest

end

/-- `boundString` of a member of the row. -/
def boundMember (value : JsonValue) (max : Nat) : Option String :=
  match value with
  | .str text => (boundString (some (textOf text)) max).map stringOf
  | _ => none

def stringOrNull : Option String → JsonValue
  | none => .null
  | some text => .str text

/-- The metadata of an audit row, when it is an object. -/
def metadataOf (row : Document) : Option (List (String × JsonValue)) :=
  match row.get .metadata with
  | some (.obj members) => some members
  | _ => none

def boundAuditFields (numberText : Number → List Char) (row : Document) : Document :=
  let bounded (column : Column) (max : Nat) : JsonValue :=
    stringOrNull (boundMember (row.read column) max)
  let named (column : Column) (max : Nat) (fallback : String) : JsonValue :=
    .str ((boundMember (row.read column) max).getD fallback)
  let metadata := sanitizeMetadata (fun number => units (String.ofList (numberText number)))
    ((metadataOf row).map membersOf)
  ((((((((row.put .action (named .action MAX_ACTION_LENGTH "unknown")).put
    .targetType (bounded .targetType MAX_TARGET_TYPE_LENGTH)).put
    .targetId (bounded .targetId MAX_TARGET_ID_LENGTH)).put
    .actorLabel (named .actorLabel MAX_LABEL_LENGTH "unknown")).put
    .ip (bounded .ip MAX_IP_LENGTH)).put
    .userAgent (bounded .userAgent MAX_USER_AGENT_LENGTH)).put
    .method (named .method MAX_METHOD_LENGTH "UNKNOWN")).put
    .path (named .path MAX_PATH_LENGTH "/")).put
    .metadata (match metadata with
      | none => .null
      | some metadata => .obj (storedMembers metadata))

end BoothOperator.Archive
