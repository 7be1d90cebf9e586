import BoothOperator.Lib.JsonReader

/-! A string of a document, or of a member of a document, is shorter than the text that it was
read from: each of its characters takes one of the text, and its quotes take two more. -/
namespace BoothOperator.Json

/-! ## Code units -/

theorem length_decodeUnits_le (units : List Nat) (low : Option Nat) (text : List Char) :
    (decodeUnits units low text).length ≤ units.length + text.length + low.toList.length := by
  induction units generalizing low text with
  | nil =>
    cases low with
    | none => simp [decodeUnits]
    | some low => simp [decodeUnits]
  | cons unit rest ih =>
    cases low with
    | none =>
      rw [decodeUnits]
      split_ifs
      all_goals refine Nat.le_trans (ih _ _) ?_
      all_goals simp only [List.length_cons, Option.toList_some, Option.toList_none, List.length_nil]
      all_goals omega
    | some low =>
      rw [decodeUnits]
      split_ifs
      all_goals refine Nat.le_trans (ih _ _) ?_
      all_goals simp only [List.length_cons, Option.toList_some, Option.toList_none, List.length_nil]
      all_goals omega

theorem length_textOfUnits_le (units : List Nat) : (textOfUnits units).length ≤ units.length := by
  have bound := length_decodeUnits_le units none []
  rw [textOfUnits, String.length_ofList]
  exact bound

/-! ## The reader -/

/-- The document is a shorter string, if it is a string. -/
def ShortString (bound : Nat) : Document → Prop
  | .str text => text.length < bound
  | _ => True

/-- So are its members. -/
def ShortStrings (bound : Nat) : Document → Prop
  | .obj members => ∀ member ∈ members, ShortString bound member.2
  | value => ShortString bound value

def Frame.Short (bound : Nat) : Frame → Prop
  | .arr _ => True
  | .obj done _ => ∀ member ∈ done, ShortString bound member.2

def Mode.Short (bound : Nat) : Mode → Prop
  | .string _ units _ => units.length < bound
  | .word _ means => ∀ some_bound, ShortStrings some_bound means
  | .after document => ShortStrings bound document
  | _ => True

/-- What is read of a text has shorter strings than the part of the text that is read. -/
structure ReadState.Short (bound : Nat) (state : ReadState) : Prop where
  stack : ∀ frame ∈ state.stack, frame.Short bound
  mode : state.mode.Short bound

section Step

variable {bound more : Nat} {value : Document} {stack : List Frame} {state after : ReadState} {c : Char}

theorem ShortString.mono (short : ShortString bound value) (le : bound ≤ more) :
    ShortString more value := by
  cases value with
  | str text => exact Nat.lt_of_lt_of_le short le
  | _ => trivial

theorem ShortStrings.mono (short : ShortStrings bound value) (le : bound ≤ more) :
    ShortStrings more value := by
  cases value with
  | str text => exact Nat.lt_of_lt_of_le short le
  | obj members => exact fun member among => (short member among).mono le
  | _ => trivial

theorem ShortStrings.self (short : ShortStrings bound value) : ShortString bound value := by
  cases value with
  | str text => exact short
  | _ => trivial

theorem Frame.Short.mono {frame : Frame} (short : frame.Short bound) (le : bound ≤ more) :
    frame.Short more := by
  cases frame with
  | arr done => trivial
  | obj done key => exact fun member among => (short member among).mono le

theorem shortMembers_append {done : List (String × Document)} (key : String)
    (short : ∀ member ∈ done, ShortString bound member.2) (last : ShortString bound value) :
    ∀ member ∈ done ++ [(key, value)], ShortString bound member.2 := by
  intro member among
  rcases List.mem_append.mp among with earlier | here
  · exact short member earlier
  · rw [List.mem_singleton.mp here]
    exact last

theorem startValue_short (frames : ∀ frame ∈ stack, frame.Short bound) (positive : 0 < bound)
    (read : startValue stack c = some after) : after.Short bound := by
  unfold startValue at read
  split_ifs at read
  all_goals cases read
  · exact ⟨frames, positive⟩
  · exact ⟨List.forall_mem_cons.mpr ⟨trivial, frames⟩, trivial⟩
  · exact ⟨List.forall_mem_cons.mpr ⟨fun _ among => (nomatch among), frames⟩, trivial⟩
  · exact ⟨frames, fun _ => trivial⟩
  · exact ⟨frames, fun _ => trivial⟩
  · exact ⟨frames, fun _ => trivial⟩
  · exact ⟨frames, trivial⟩
  · exact ⟨frames, trivial⟩
  · exact ⟨frames, trivial⟩

theorem afterValue_short (frames : ∀ frame ∈ stack, frame.Short bound)
    (short : ShortStrings bound value) (read : afterValue stack value c = some after) :
    after.Short bound := by
  unfold afterValue at read
  split at read
  · cases read
    exact ⟨frames, short⟩
  · cases stack with
    | nil => cases read
    | cons frame outer =>
      obtain ⟨inner, rest⟩ := List.forall_mem_cons.mp frames
      cases frame with
      | arr done =>
        simp only at read
        split_ifs at read
        · cases read
          exact ⟨List.forall_mem_cons.mpr ⟨trivial, rest⟩, trivial⟩
        · cases read
          exact ⟨rest, trivial⟩
      | obj done key =>
        have members := shortMembers_append key inner short.self
        simp only at read
        split_ifs at read
        · cases read
          exact ⟨List.forall_mem_cons.mpr ⟨members, rest⟩, trivial⟩
        · cases read
          exact ⟨rest, members⟩

theorem endString_short {isKey : Bool} {text : String} (frames : ∀ frame ∈ stack, frame.Short bound)
    (short : text.length < bound) (read : endString stack isKey text = some after) :
    after.Short bound := by
  unfold endString at read
  split at read
  · split at read
    · cases read
      obtain ⟨inner, rest⟩ := List.forall_mem_cons.mp frames
      exact ⟨List.forall_mem_cons.mpr ⟨inner, rest⟩, trivial⟩
    · cases read
  · cases read
    exact ⟨frames, short⟩

theorem readString_short {isKey : Bool} {units : List Nat} {escape : Escape}
    (frames : ∀ frame ∈ stack, frame.Short (bound + 1)) (short : units.length < bound)
    (read : readString stack isKey units escape c = some after) : after.Short (bound + 1) := by
  have fewer := length_textOfUnits_le units
  have one (unit : Nat) : (Mode.string isKey (unit :: units) .plain).Short (bound + 1) :=
    Nat.succ_lt_succ short
  have same (escape : Escape) : (Mode.string isKey units escape).Short (bound + 1) :=
    Nat.lt_succ_of_lt short
  unfold readString at read
  cases escape with
  | plain =>
    simp only at read
    split_ifs at read
    · exact endString_short frames (by omega) read
    · cases read; exact ⟨frames, same _⟩
    · cases read; exact ⟨frames, one _⟩
  | slash =>
    simp only at read
    split_ifs at read
    all_goals cases read
    all_goals first
      | exact ⟨frames, one _⟩
      | exact ⟨frames, same _⟩
  | unicode left unit =>
    simp only at read
    split at read
    · cases read
    · split_ifs at read
      · cases read; exact ⟨frames, one _⟩
      · cases read; exact ⟨frames, same _⟩

theorem readChar_short (short : state.Short bound) (read : readChar state c = some after) :
    after.Short (bound + 1) := by
  obtain ⟨stack, mode⟩ := state
  obtain ⟨frames, modes⟩ := short
  replace frames : ∀ frame ∈ stack, frame.Short (bound + 1) :=
    fun frame among => (frames frame among).mono (Nat.le_succ bound)
  have positive := Nat.succ_pos bound
  unfold readChar at read
  cases mode with
  | value =>
    simp only at read
    split at read
    · cases read; exact ⟨frames, trivial⟩
    · exact startValue_short frames positive read
  | firstItem =>
    simp only at read
    split_ifs at read
    · cases read; exact ⟨frames, trivial⟩
    · split at read
      · cases read
        exact ⟨(List.forall_mem_cons.mp frames).2, trivial⟩
      · cases read
    · exact startValue_short frames positive read
  | firstKey =>
    simp only at read
    split_ifs at read
    · cases read; exact ⟨frames, trivial⟩
    · split at read
      · cases read
        exact ⟨(List.forall_mem_cons.mp frames).2, fun _ among => nomatch among⟩
      · cases read
    · cases read; exact ⟨frames, positive⟩
  | nextKey =>
    simp only at read
    split_ifs at read
    · cases read; exact ⟨frames, trivial⟩
    · cases read; exact ⟨frames, positive⟩
  | colon =>
    simp only at read
    split_ifs at read
    · cases read; exact ⟨frames, trivial⟩
    · cases read; exact ⟨frames, trivial⟩
  | string isKey units escape => exact readString_short frames modes read
  | word rest means =>
    cases rest with
    | nil => exact afterValue_short frames (modes _) read
    | cons next rest =>
      simp only at read
      split at read
      · cases read
        refine ⟨frames, ?_⟩
        cases rest with
        | nil => exact modes _
        | cons => exact modes
      · cases read
  | number phase digits =>
    simp only at read
    split at read
    · cases read; exact ⟨frames, trivial⟩
    · split at read
      · have number : ShortStrings (bound + 1) (.num (String.ofList digits.reverse)) := trivial
        exact afterValue_short frames number read
      · cases read
  | after value => exact afterValue_short frames (ShortStrings.mono modes (Nat.le_succ _)) read

theorem foldlM_readChar_short {text : List Char} (short : state.Short bound)
    (read : text.foldlM readChar state = some after) : after.Short (bound + text.length) := by
  induction text generalizing state bound with
  | nil => cases read; exact short
  | cons c text ih =>
    obtain ⟨next, one, rest⟩ := Option.bind_eq_some_iff.mp read
    have later := ih (readChar_short short one) rest
    rwa [Nat.add_right_comm, Nat.add_assoc] at later

end Step

theorem parse_short {text : List Char} {value : Document} (read : parse text = some value) :
    ShortStrings text.length value := by
  obtain ⟨after, folded, ended⟩ := Option.bind_eq_some_iff.mp read
  have start : ReadState.Short 0 ⟨[], .value⟩ := ⟨fun _ among => (nomatch among), trivial⟩
  have short := (foldlM_readChar_short start folded).mode
  rw [Nat.zero_add] at short
  unfold finished at ended
  split at ended
  · rename_i kept
    cases ended
    rw [kept] at short
    exact short
  · split at ended
    · cases ended
      trivial
    · cases ended
  · cases ended

end BoothOperator.Json
