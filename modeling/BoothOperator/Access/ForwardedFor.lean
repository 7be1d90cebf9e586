import BoothOperator.Access.ClientIp

/-! What a caller can do about the address that is recorded for it. The entries of trusted
proxies come after the text it sent, and the walk reaches that text exactly when it stops at
none of them: at one that is no bare address it does not stop. -/
namespace BoothOperator.ClientIp

/-- The header that a proxy passes on: what the caller sent, if anything, and then what the
proxies append. -/
def received (appended : Text) : Option Text → Text
  | none => appended
  | some sent => sent ++ ',' :: appended

/-- Two callers with the same proxies before them are given the same address. -/
def Independent (proxies : List Text) (appended : Text) : Prop :=
  ∀ one other, forwardedClientIp proxies (some (received appended one)) =
    forwardedClientIp proxies (some (received appended other))

/-- The walk ends at an entry that is an address, and not one of a trusted proxy. -/
def Stops (proxies : List Text) (entry : Text) : Prop :=
  ∃ candidate, normalize entry = some candidate ∧ (toBytes candidate).isSome ∧
    isTrustedBy candidate proxies ≠ .ok true

/-- Whatever a caller sends, every address in it is one of a trusted proxy. -/
def TrustsAll (proxies : List Text) : Prop :=
  ∀ sent, ∀ entry ∈ csv (some sent), ¬Stops proxies entry

theorem csv_append (sent appended : Text) :
    csv (some (sent ++ ',' :: appended)) = csv (some sent) ++ csv (some appended) := by
  simp only [csv, Option.getD_some, List.splitOn_append_cons_self, List.map_append,
    List.filter_append]

theorem csv_none : csv none = [] := rfl

section Walk

variable {proxies : List Text} {entry : Text} {entries earlier : List Text}

theorem walk_cons_of_not_stops (passed : ¬Stops proxies entry) :
    walk proxies (entry :: entries) = walk proxies entries := by
  rw [walk]
  cases normal : normalize entry with
  | none => rfl
  | some candidate =>
    by_cases address : (toBytes candidate).isSome
    · have trusted : isTrustedBy candidate proxies = .ok true := by
        by_contra untrusted
        exact passed ⟨candidate, normal, address, untrusted⟩
      simp [trusted]
    · simp [Option.not_isSome_iff_eq_none.mp address]

theorem walk_cons_of_stops (stops : Stops proxies entry) :
    walk proxies (entry :: entries) = walk proxies [entry] ∧
      walk proxies [entry] ≠ .ok none := by
  obtain ⟨candidate, normal, address, untrusted⟩ := stops
  obtain ⟨bytes, read⟩ := Option.isSome_iff_exists.mp address
  cases answer : isTrustedBy candidate proxies with
  | error reason => simp [walk, normal, read, answer]
  | ok trusted =>
    cases trusted with
    | true => exact absurd answer untrusted
    | false => simp [walk, normal, read, answer]

/-- Entries without a stop are walked over. -/
theorem walk_append_of_not_stops (passed : ∀ entry ∈ entries, ¬Stops proxies entry) :
    walk proxies (entries ++ earlier) = walk proxies earlier := by
  induction entries with
  | nil => rfl
  | cons entry entries ih =>
    rw [List.cons_append, walk_cons_of_not_stops (passed entry List.mem_cons_self)]
    exact ih fun other member => passed other (List.mem_cons_of_mem _ member)

/-- Past an entry with a stop nothing is read. -/
theorem walk_append_of_stops (stops : ∃ entry ∈ entries, Stops proxies entry) :
    walk proxies (entries ++ earlier) = walk proxies entries ∧
      walk proxies entries ≠ .ok none := by
  induction entries with
  | nil =>
    obtain ⟨entry, member, -⟩ := stops
    cases member
  | cons entry entries ih =>
    by_cases here : Stops proxies entry
    · have alone := @walk_cons_of_stops proxies entry entries here
      rw [List.cons_append, (walk_cons_of_stops here).1, alone.1]
      exact ⟨rfl, alone.2⟩
    · rw [List.cons_append, walk_cons_of_not_stops here, walk_cons_of_not_stops here]
      refine ih ?_
      obtain ⟨other, member, later⟩ := stops
      rcases List.mem_cons.mp member with rfl | member
      · exact absurd later here
      · exact ⟨other, member, later⟩

end Walk

theorem forwardedClientIp_received (proxies : List Text) (appended : Text) (sent : Option Text) :
    forwardedClientIp proxies (some (received appended sent)) =
      walk proxies ((csv (some appended)).reverse ++ (csv sent).reverse) := by
  cases sent with
  | none => rw [received, forwardedClientIp, csv_none, List.reverse_nil, List.append_nil]
  | some sent => rw [received, forwardedClientIp, csv_append, List.reverse_append]

theorem independent_iff (proxies : List Text) (appended : Text) :
    Independent proxies appended ↔
      (∃ entry ∈ csv (some appended), Stops proxies entry) ∨ TrustsAll proxies := by
  simp only [Independent, forwardedClientIp_received]
  constructor
  · intro same
    by_contra neither
    obtain ⟨passed, caught⟩ := not_or.mp neither
    have walked : ∀ entry ∈ (csv (some appended)).reverse, ¬Stops proxies entry :=
      fun entry member stops => passed ⟨entry, List.mem_reverse.mp member, stops⟩
    refine caught fun sent entry member stops => ?_
    have unsent := same none (some sent)
    rw [walk_append_of_not_stops walked, walk_append_of_not_stops walked] at unsent
    have stopped : ∃ entry ∈ (csv (some sent)).reverse, Stops proxies entry :=
      ⟨entry, List.mem_reverse.mpr member, stops⟩
    have found := @walk_append_of_stops proxies _ [] stopped
    exact found.2 unsent.symm
  · rintro (⟨entry, member, stops⟩ | trusting) one other
    · have found : ∃ entry ∈ (csv (some appended)).reverse, Stops proxies entry :=
        ⟨entry, List.mem_reverse.mpr member, stops⟩
      rw [(walk_append_of_stops found).1, (walk_append_of_stops found).1]
    · have walked (sent : Option Text) : ∀ entry ∈ (csv sent).reverse, ¬Stops proxies entry := by
        intro entry member
        cases sent with
        | none => simp [csv_none] at member
        | some sent => exact trusting sent entry (List.mem_reverse.mp member)
      rw [walk_append_of_not_stops (walked (some appended)),
        walk_append_of_not_stops (walked (some appended)), ← List.append_nil (csv one).reverse,
        ← List.append_nil (csv other).reverse, walk_append_of_not_stops (walked one),
        walk_append_of_not_stops (walked other)]

/-! ## An entry with a port -/

/-- A load balancer appends the caller's address with its port, and nginx the balancer's. -/
theorem not_independent_port :
    isTrustedBy "203.0.113.7:4711".toList ["10.0.0.0/8".toList] = .ok false ∧
    forwardedClientIp ["10.0.0.0/8".toList]
        (some (received " 203.0.113.7:4711, 10.0.0.1".toList (some "198.51.100.9".toList))) ≠
      forwardedClientIp ["10.0.0.0/8".toList]
        (some (received " 203.0.113.7:4711, 10.0.0.1".toList (some "198.51.100.10".toList))) := by
  decide +kernel

end BoothOperator.ClientIp
