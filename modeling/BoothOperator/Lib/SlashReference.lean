import Mathlib.Data.List.DropRight

/-! The URL Standard's parser, for a reference that begins with a slash and a base
that is an `http` or `https` URL. Such a reference is a path on the base's host, or
names a host of its own after a second slash or backslash. How a host is read, with
its Unicode and its addresses, is a parameter, and credentials are left out. -/
namespace BoothOperator.SlashReference

inductive Scheme where
  | http | https
  deriving DecidableEq

def Scheme.defaultPort : Scheme → Nat
  | .http => 80
  | .https => 443

structure Origin (η : Type) where
  scheme : Scheme
  host : η
  port : Option Nat := none
  deriving DecidableEq

variable {η : Type}

/-! ## Characters -/

/-- The separators of a special URL. -/
def slash (c : Char) : Bool := c = '/' || c = '\\'

/-- What ends a segment, and an authority. -/
def ends (c : Char) : Bool := slash c || c = '?' || c = '#'

def tabOrNewline (c : Char) : Bool := c = '\t' || c = '\n' || c = '\r'

/-- A C0 control or space. -/
def c0OrSpace (c : Char) : Bool := c.toNat ≤ 0x20

/-- A character that neither parse nor serializer treats apart within a path's segment. -/
def plain (c : Char) : Bool := !c0OrSpace c && !ends c

/-- What is parsed of a text that follows a slash: no blank at its end, and no tab or newline. -/
def clean (text : List Char) : List Char :=
  (text.rdropWhile c0OrSpace).filter fun c => !tabOrNewline c

def hexDigit (n : Nat) : Char := "0123456789ABCDEF".toList.getD n '0'

/-- UTF-8 percent-encode a character that is in the set. -/
def percentEncode (set : Char → Bool) (c : Char) : List Char :=
  if set c then
    (String.utf8EncodeChar c).flatMap fun byte =>
      ['%', hexDigit (byte.toNat / 16), hexDigit (byte.toNat % 16)]
  else [c]

/-- The fragment percent-encode set. -/
def fragmentSet (c : Char) : Bool :=
  c0OrSpace c || 0x7E < c.toNat || c ∈ "\"<>`".toList

/-- The special-query percent-encode set. -/
def querySet (c : Char) : Bool :=
  c0OrSpace c || 0x7E < c.toNat || c ∈ "\"#<>'".toList

/-- The path percent-encode set. -/
def pathSet (c : Char) : Bool :=
  c0OrSpace c || 0x7E < c.toNat || c ∈ "\"#<>?^`\x7b\x7d".toList

/-! ## The path -/

def isSingleDot (segment : List Char) : Bool :=
  String.ofList (segment.map Char.toLower) ∈ [".", "%2e"]

def isDoubleDot (segment : List Char) : Bool :=
  String.ofList (segment.map Char.toLower) ∈ ["..", ".%2e", "%2e.", "%2e%2e"]

/-- The path when a segment has been read, up to a slash or to the path's end. -/
def endSegment (path : List (List Char)) (segment : List Char) (slashed : Bool) :
    List (List Char) :=
  if isDoubleDot segment then if slashed then path.dropLast else path.dropLast ++ [[]]
  else if isSingleDot segment then if slashed then path else path ++ [[]]
  else path ++ [segment]

/-- The path state: the segments, and the text from the query or the fragment on. -/
def pathState (path : List (List Char)) (segment : List Char) :
    List Char → List (List Char) × List Char
  | [] => (endSegment path segment false, [])
  | c :: rest =>
    if slash c then pathState (endSegment path segment true) [] rest
    else if c = '?' ∨ c = '#' then (endSegment path segment false, c :: rest)
    else pathState path (segment ++ percentEncode pathSet c) rest

theorem hexDigit_plain (n : Nat) : plain (hexDigit n) := by
  have digits : ∀ c ∈ "0123456789ABCDEF".toList, plain c :=
    List.all_eq_true.mp (by decide)
  rw [hexDigit, List.getD_eq_getElem?_getD]
  cases found : "0123456789ABCDEF".toList[n]? with
  | none => decide
  | some c => exact digits c (List.mem_of_getElem? found)

theorem percentEncode_plain {c : Char} (inside : ends c = false) :
    ∀ d ∈ percentEncode pathSet c, plain d := by
  intro d mem
  rw [percentEncode] at mem
  split at mem
  · obtain ⟨byte, -, mem⟩ := List.mem_flatMap.mp mem
    simp only [List.mem_cons, List.not_mem_nil, or_false] at mem
    rcases mem with rfl | rfl | rfl
    · decide
    · exact hexDigit_plain _
    · exact hexDigit_plain _
  · rename_i kept
    obtain rfl := List.mem_singleton.mp mem
    simp only [pathSet, Bool.or_eq_true, not_or] at kept
    simp [plain, inside, kept.1.1]

def PlainSegments (segments : List (List Char)) : Prop :=
  ∀ segment ∈ segments, ∀ c ∈ segment, plain c

theorem endSegment_ne_nil (path : List (List Char)) (segment : List Char) :
    endSegment path segment false ≠ [] := by
  rw [endSegment]
  split
  · simp
  · split <;> simp

theorem endSegment_plain {path : List (List Char)} {segment : List Char} (slashed : Bool)
    (before : PlainSegments path) (read : ∀ c ∈ segment, plain c) :
    PlainSegments (endSegment path segment slashed) := by
  have dropped : PlainSegments path.dropLast := fun segment mem =>
    before segment (List.dropLast_subset path mem)
  intro found mem
  rw [endSegment] at mem
  split at mem
  · split at mem
    · exact dropped found mem
    · rcases List.mem_append.mp mem with mem | mem
      · exact dropped found mem
      · simp [List.mem_singleton.mp mem]
  · split at mem
    · split at mem
      · exact before found mem
      · rcases List.mem_append.mp mem with mem | mem
        · exact before found mem
        · simp [List.mem_singleton.mp mem]
    · rcases List.mem_append.mp mem with mem | mem
      · exact before found mem
      · rw [List.mem_singleton.mp mem]
        exact read

theorem pathState_ne_nil (path : List (List Char)) (segment text : List Char) :
    (pathState path segment text).1 ≠ [] := by
  induction text generalizing path segment with
  | nil => exact endSegment_ne_nil path segment
  | cons c rest ih =>
    rw [pathState]
    split
    · exact ih _ _
    · split
      · exact endSegment_ne_nil path segment
      · exact ih _ _

/-- The path state keeps the segments plain: what is not plain ends a segment or is encoded. -/
theorem pathState_plain {path : List (List Char)} {segment : List Char} (text : List Char)
    (before : PlainSegments path) (read : ∀ c ∈ segment, plain c) :
    PlainSegments (pathState path segment text).1 := by
  induction text generalizing path segment with
  | nil => exact endSegment_plain false before read
  | cons c rest ih =>
    rw [pathState]
    split
    · exact ih (endSegment_plain true before read) (by simp)
    · rename_i unslashed
      split
      · exact endSegment_plain false before read
      · rename_i inside
        refine ih before fun d mem => ?_
        rcases List.mem_append.mp mem with mem | mem
        · exact read d mem
        · exact percentEncode_plain (by simp_all [ends]) d mem

/-- A path as its URL keeps it. -/
structure Path where
  segments : List (List Char)
  nonempty : segments ≠ []
  plain : PlainSegments segments

def Path.read (text : List Char) : Path where
  segments := (pathState [] [] text).1
  nonempty := pathState_ne_nil [] [] text
  plain := pathState_plain text (by simp [PlainSegments]) (by simp)

structure Url (η : Type) where
  origin : Origin η
  path : Path
  query : Option (List Char)
  fragment : Option (List Char)

def fragmentState : List Char → Option (List Char)
  | [] => none
  | _ :: rest => some (rest.flatMap (percentEncode fragmentSet))

def queryState (text : List Char) : Option (List Char) × Option (List Char) :=
  match text with
  | '?' :: rest =>
    (some ((rest.takeWhile (· ≠ '#')).flatMap (percentEncode querySet)),
      fragmentState (rest.dropWhile (· ≠ '#')))
  | _ => (none, fragmentState text)

def fromPath (origin : Origin η) (text : List Char) : Url η :=
  let (query, fragment) := queryState (pathState [] [] text).2
  { origin, path := Path.read text, query, fragment }

/-! ## The authority -/

/-- What follows the last at-sign. -/
def withoutCredentials (authority : List Char) : Option (List Char) :=
  if '@' ∈ authority then
    let host := authority.rtakeWhile (· ≠ '@')
    if host = [] then none else some host
  else some authority

/-- The host state: the host, and the digits after a colon outside brackets. -/
def hostState (inside : Bool) (host : List Char) : List Char → List Char × Option (List Char)
  | [] => (host, none)
  | c :: rest =>
    if c = ':' ∧ ¬ inside then (host, some rest)
    else hostState (c = '[' || (inside && c ≠ ']')) (host ++ [c]) rest

def portState (scheme : Scheme) (digits : List Char) : Option (Option Nat) :=
  if digits.all Char.isDigit then
    if digits = [] then some none
    else
      let port := digits.foldl (fun value digit => 10 * value + (digit.toNat - '0'.toNat)) 0
      if 65535 < port then none
      else some (if port = scheme.defaultPort then none else some port)
  else none

/-- The origin that an authority names. -/
def authorityState (parseHost : List Char → Option η) (scheme : Scheme) (authority : List Char) :
    Option (Origin η) := do
  let (host, digits) := hostState false [] (← withoutCredentials authority)
  if host = [] then none
  else
    let host ← parseHost host
    let port ← match digits with
      | none => some none
      | some digits => portState scheme digits
    some { scheme, host, port }

/-! ## References -/

/-- A reference that begins with a slash. -/
structure Reference where
  text : List Char
  slashed : ['/'] <+: text

def Reference.root : Reference := ⟨['/'], List.prefix_rfl⟩

/-- The authority of a text that follows a slash: a second slash begins it. -/
def authorityPart (text : List Char) : Option (List Char) :=
  if text.head?.any slash then some ((text.dropWhile slash).takeWhile fun c => !ends c) else none

def pathPart (text : List Char) : List Char :=
  if text.head?.any slash then
    let tail := (text.dropWhile slash).dropWhile fun c => !ends c
    if tail.head?.any slash then tail.tail else tail
  else text

/-- The origin that an authority names, where there is one, and the base's where there is none. -/
def namedOrigin (parseHost : List Char → Option η) (base : Origin η) :
    Option (List Char) → Option (Origin η)
  | none => some base
  | some authority => authorityState parseHost base.scheme authority

/-- The relative slash state, on what follows the slash. -/
def relativeSlash (parseHost : List Char → Option η) (base : Origin η) (text : List Char) :
    Option (Url η) :=
  (namedOrigin parseHost base (authorityPart text)).map fun origin => fromPath origin (pathPart text)

/-- `new URL(reference, base)`, or nothing where it throws. -/
def parse (parseHost : List Char → Option η) (base : Origin η) (reference : Reference) :
    Option (Url η) := relativeSlash parseHost base (clean reference.text.tail)

def Path.pathname (path : Path) : List Char := path.segments.flatMap ('/' :: ·)

namespace Url

def pathname (url : Url η) : List Char := url.path.pathname

def search (url : Url η) : List Char :=
  match url.query with
  | none | some [] => []
  | some query => '?' :: query

def hash (url : Url η) : List Char :=
  match url.fragment with
  | none | some [] => []
  | some fragment => '#' :: fragment

end Url

theorem Path.pathname_slashed (path : Path) : ['/'] <+: path.pathname := by
  obtain ⟨first, more, segments⟩ := List.exists_cons_of_ne_nil path.nonempty
  rw [Path.pathname, segments]
  exact ⟨first ++ more.flatMap ('/' :: ·), by simp⟩

/-- The URL without its origin, as a reference. -/
def Url.reference (url : Url η) : Reference where
  text := url.pathname ++ url.search ++ url.hash
  slashed := by
    rw [List.append_assoc]
    exact url.path.pathname_slashed.trans (List.prefix_append _ _)

example : ((parse some { scheme := .http, host := [] } ⟨"/a/./b/../c?d e#f".toList, ⟨_, rfl⟩⟩).map
    fun url => url.reference.text) = some "/a/c?d%20e#f".toList := by rfl

/-! ## A reference read again -/

theorem c0OrSpace_of_tabOrNewline {c : Char} (blank : tabOrNewline c) : c0OrSpace c := by
  simp only [tabOrNewline, Bool.or_eq_true, decide_eq_true_eq] at blank
  rcases blank with (rfl | rfl) | rfl <;> decide

theorem clean_append {front : List Char} (rest : List Char)
    (kept : ∀ c ∈ front, c0OrSpace c = false) : clean (front ++ rest) = front ++ clean rest := by
  have trimmed : (front ++ rest).rdropWhile c0OrSpace = front ++ rest.rdropWhile c0OrSpace := by
    have whole : front.reverse.dropWhile c0OrSpace = front.reverse := by
      rw [List.dropWhile_eq_self_iff]
      intro bound
      have last := kept _ (List.mem_reverse.mp (List.getElem_mem bound))
      rw [last]
      exact Bool.false_ne_true
    rw [List.rdropWhile, List.reverse_append, List.dropWhile_append, whole]
    split
    · rename_i blank
      rw [List.rdropWhile, List.isEmpty_iff.mp blank]
      simp
    · simp [List.rdropWhile]
  have unblank : front.filter (fun c => !tabOrNewline c) = front := by
    refine List.filter_eq_self.mpr fun c mem => ?_
    have := kept c mem
    cases blank : tabOrNewline c with
    | false => rfl
    | true => simp [c0OrSpace_of_tabOrNewline blank] at this
  rw [clean, trimmed, List.filter_append, unblank, clean]

/-- The text after a path: it is empty, or a question mark or a number sign begins it. -/
def FollowsPath (text : List Char) : Prop := ∀ c ∈ text.head?, c = '?' ∨ c = '#'

theorem FollowsPath.clean {text : List Char} (follows : FollowsPath text) :
    FollowsPath (clean text) := by
  cases text with
  | nil => exact follows
  | cons c rest =>
    have opens : c = '?' ∨ c = '#' := follows c rfl
    have kept : SlashReference.clean ([c] ++ rest) = [c] ++ SlashReference.clean rest :=
      clean_append rest (by rcases opens with rfl | rfl <;> simp [c0OrSpace])
    intro d mem
    rw [← List.singleton_append, kept] at mem
    obtain rfl : c = d := by simpa using mem
    exact opens

theorem FollowsPath.ends {text : List Char} (follows : FollowsPath text) :
    text.takeWhile (fun c => !ends c) = [] := by
  cases text with
  | nil => rfl
  | cons c rest => rcases follows c rfl with rfl | rfl <;> simp [SlashReference.ends]

theorem FollowsPath.unslashed {text : List Char} (follows : FollowsPath text) :
    text.head?.any slash = false := by
  cases text with
  | nil => rfl
  | cons c rest => rcases follows c rfl with rfl | rfl <;> simp [slash]

theorem Url.followsPath (url : Url η) : FollowsPath (url.search ++ url.hash) := by
  have hashed : FollowsPath url.hash := by
    rw [Url.hash]
    split
    · simp [FollowsPath]
    · simp [FollowsPath]
    · intro c mem
      exact .inr (by simpa using mem.symm)
  rw [Url.search]
  split
  · exact hashed
  · exact hashed
  · intro c mem
    exact .inl (by simpa using mem.symm)

/-- What a second reading of the path takes for an authority: where its first segment is
empty and others follow, the first of those that is not empty. -/
def Path.authority (path : Path) : Option (List Char) :=
  match path.segments with
  | [] :: second :: more => some (((second :: more).find? (· ≠ [])).getD [])
  | _ => none

theorem slash_of_plain {c : Char} (clear : plain c) : slash c = false := by
  simp_all [plain, ends]

theorem takeWhile_segments {segments : List (List Char)} {rest : List Char}
    (clear : PlainSegments segments) (follows : FollowsPath rest) :
    ((segments.flatMap ('/' :: ·) ++ rest).dropWhile slash).takeWhile (fun c => !ends c) =
      (segments.find? (· ≠ [])).getD [] := by
  induction segments with
  | nil =>
    cases rest with
    | nil => rfl
    | cons c rest =>
      have := follows.unslashed
      have := follows.ends
      simp_all
  | cons segment more ih =>
    have later : PlainSegments more := fun found mem => clear found (.tail _ mem)
    have opening : slash '/' = true := rfl
    cases segment with
    | nil => simpa [opening] using ih later
    | cons c segment =>
      have read : ∀ d ∈ c :: segment, ends d = false := fun d mem => by
        have := clear _ (.head _) d mem
        simp_all [plain]
      have stops : (more.flatMap ('/' :: ·) ++ rest).takeWhile (fun c => !ends c) = [] := by
        cases more with
        | nil => exact follows.ends
        | cons next more => simp [ends, slash]
      have first : slash c = false := slash_of_plain (clear _ (.head _) c (.head _))
      have whole : ((c :: segment) ++ (more.flatMap ('/' :: ·) ++ rest)).takeWhile
          (fun c => !ends c) = c :: segment := by
        rw [List.takeWhile_append_of_pos (by simpa using read), stops, List.append_nil]
      simpa [opening, first, List.append_assoc] using whole

theorem authorityPart_pathname (path : Path) {rest : List Char} (follows : FollowsPath rest) :
    authorityPart (path.pathname.tail ++ rest) = path.authority := by
  obtain ⟨segments, nonempty, clear⟩ := path
  rw [authorityPart]
  cases segments with
  | nil => exact absurd rfl nonempty
  | cons first more =>
    cases first with
    | cons c first =>
      have head : slash c = false := slash_of_plain (clear _ (.head _) c (.head _))
      simp [Path.pathname, Path.authority, head]
    | nil =>
      cases more with
      | nil => simp [Path.pathname, Path.authority, follows.unslashed]
      | cons second more =>
        have later : PlainSegments (second :: more) := fun found mem => clear found (.tail _ mem)
        have taken := takeWhile_segments later follows
        have opening : slash '/' = true := rfl
        simp only [List.flatMap_cons, List.append_assoc, List.cons_append] at taken
        simp only [Path.pathname, Path.authority, List.flatMap_cons, List.nil_append,
          List.cons_append, List.tail_cons, List.append_assoc, List.head?_cons, Option.any_some,
          opening, ↓reduceIte, taken]

theorem Path.pathname_kept (path : Path) : ∀ c ∈ path.pathname, c0OrSpace c = false := by
  intro c mem
  obtain ⟨segment, read, mem⟩ := List.mem_flatMap.mp mem
  rcases List.mem_cons.mp mem with rfl | mem
  · rfl
  · have := path.plain segment read c mem
    simp_all [SlashReference.plain]

/-- The origin of a URL's reference against a base is the base's, unless the path reads as an
authority of its own. -/
theorem parse_reference (parseHost : List Char → Option η) (base : Origin η) (url : Url η) :
    (parse parseHost base url.reference).map (·.origin) =
      namedOrigin parseHost base url.path.authority := by
  obtain ⟨text, pathname⟩ := url.path.pathname_slashed
  have rest : url.path.pathname.tail = text := by rw [← pathname]; rfl
  have kept : ∀ c ∈ url.path.pathname.tail, c0OrSpace c = false := fun c mem =>
    url.path.pathname_kept c (List.mem_of_mem_tail mem)
  have read : clean url.reference.text.tail =
      url.path.pathname.tail ++ clean (url.search ++ url.hash) := by
    rw [← clean_append _ kept, rest]
    simp [Url.reference, Url.pathname, ← pathname]
  rw [parse, relativeSlash, read, authorityPart_pathname url.path url.followsPath.clean,
    Option.map_map]
  exact Option.map_id'

end BoothOperator.SlashReference
