import BoothOperator.Lib.SlashReference

/-! Where a login goes when it is done. `GET /login` keeps the `return_to` that it is
given as a path of no host, and `GET /callback` reads that path against the console's
URL. How a host is read is a parameter, and so is the host of the URL that the first
reading is against, of which nothing is kept. -/
namespace BoothOperator.Access
open SlashReference

variable {η : Type} (parseHost : List Char → Option η)

def safeReturnTo (operatorLocal : η) (input : Option String) : Reference :=
  match input with
  | none | some "" => .root
  | some input =>
    if refused : ¬ ['/'] <+: input.toList ∨ ['/', '/'] <+: input.toList then .root
    else
      let reference : Reference := ⟨input.toList, not_not.mp (not_or.mp refused).1⟩
      match parse parseHost { scheme := .http, host := operatorLocal } reference with
      | some parsed => parsed.reference
      | none => .root

/-- The URL that the callback redirects to; `base` is the origin of `webRedirectBase`. -/
def webRedirectUrl (base : Origin η) (returnTo : Reference) : Option (Url η) :=
  parse parseHost base returnTo

/-- A path that still leads to the base when it is read alone: it does not begin with an empty
segment that others follow, or the first of those that is not empty is no authority, or
it is that of the base. -/
def LeadsHome (base : Origin η) (path : Path) : Prop :=
  ∀ origin ∈ namedOrigin parseHost base path.authority, origin = base

/-- What a `return_to` has to be for the redirect to stay: it is refused at once, or it names
a host that cannot be read, or its path leads home once its dot segments are gone. -/
def ReturnsHome (base : Origin η) (input : Option String) : Prop :=
  ∀ text ∈ input, ['/'] <+: text.toList → ¬ ['/', '/'] <+: text.toList →
    let after := clean text.toList.tail
    (∃ authority ∈ authorityPart after, authorityState parseHost .http authority = none) ∨
      LeadsHome parseHost base (Path.read (pathPart after))

theorem root_leads_home (base : Origin η) :
    ∀ url, webRedirectUrl parseHost base .root = some url → url.origin = base := by
  intro url redirected
  have home : (webRedirectUrl parseHost base .root).map (·.origin) = some base := rfl
  rw [redirected] at home
  exact Option.some.inj home

theorem reference_leads_home (base : Origin η) (url : Url η) :
    (∀ target, webRedirectUrl parseHost base url.reference = some target →
      target.origin = base) ↔ LeadsHome parseHost base url.path := by
  rw [LeadsHome, ← parse_reference, webRedirectUrl]
  cases parse parseHost base url.reference <;> simp

theorem parse_path {base : Origin η} {reference : Reference} {url : Url η}
    (parsed : parse parseHost base reference = some url) :
    url.path = Path.read (pathPart (clean reference.text.tail)) := by
  rw [parse, relativeSlash] at parsed
  obtain ⟨origin, -, rfl⟩ := Option.map_eq_some_iff.mp parsed
  rfl

theorem parse_eq_none {base : Origin η} {reference : Reference} :
    parse parseHost base reference = none ↔
      ∃ authority ∈ authorityPart (clean reference.text.tail),
        authorityState parseHost base.scheme authority = none := by
  rw [parse, relativeSlash, Option.map_eq_none_iff]
  cases authorityPart (clean reference.text.tail) <;> simp [namedOrigin]

theorem redirect_same_origin_iff (operatorLocal : η) (base : Origin η) (input : Option String) :
    (∀ url, webRedirectUrl parseHost base (safeReturnTo parseHost operatorLocal input) =
      some url → url.origin = base) ↔ ReturnsHome parseHost base input := by
  unfold safeReturnTo
  split
  · exact iff_of_true (root_leads_home parseHost base) (by simp [ReturnsHome])
  · exact iff_of_true (root_leads_home parseHost base) (by simp [ReturnsHome])
  · rename_i text _
    split
    · rename_i refused
      refine iff_of_true (root_leads_home parseHost base) ?_
      rintro _ ⟨⟩ slashed single
      exact absurd refused (by simp [slashed, single])
    · rename_i refused
      obtain ⟨slashed, single⟩ := not_or.mp refused
      have condition : ReturnsHome parseHost base (some text) ↔
          (∃ authority ∈ authorityPart (clean text.toList.tail),
            authorityState parseHost .http authority = none) ∨
            LeadsHome parseHost base (Path.read (pathPart (clean text.toList.tail))) := by
        simp [ReturnsHome, not_not.mp slashed, single]
      rw [condition]
      dsimp only
      split
      · rename_i parsed reading
        have readable := (parse_eq_none parseHost).not.mp (reading ▸ Option.some_ne_none parsed)
        rw [reference_leads_home, parse_path parseHost reading]
        exact (or_iff_right readable).symm
      · rename_i reading
        have unreadable := (parse_eq_none parseHost).mp reading
        exact iff_of_true (root_leads_home parseHost base) (.inl unreadable)

/-- The path of `/.//evil.example` is `//evil.example`, which the second reading takes for a
host. -/
theorem redirect_leaves_origin :
    ¬ ∀ url, webRedirectUrl (fun host => some (String.ofList host))
      { scheme := .https, host := "console.example" }
      (safeReturnTo (fun host => some (String.ofList host)) "operator.local"
        (some "/.//evil.example")) = some url →
      url.origin = { scheme := .https, host := "console.example" } := by
  have away : (webRedirectUrl (fun host => some (String.ofList host))
      { scheme := .https, host := "console.example" }
      (safeReturnTo (fun host => some (String.ofList host)) "operator.local"
        (some "/.//evil.example"))).map (·.origin) =
      some { scheme := .https, host := "evil.example" } := by rfl
  intro stays
  obtain ⟨url, redirected, origin⟩ := Option.map_eq_some_iff.mp away
  have := stays url redirected
  simp [origin] at this

end BoothOperator.Access
