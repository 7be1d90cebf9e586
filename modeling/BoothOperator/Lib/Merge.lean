import Mathlib.Data.List.Basic

/-! Merging entries into a keyed table: an entry replaces the row with its key
or is added, and what a row becomes is a relation between the two. A table that
has taken entries of distinct keys one after another holds what became of each
entry, and the rows no entry had the key of. -/
namespace BoothOperator.Merge

variable {ρ ε κ : Type*} (key : ρ → Option κ) (entryKey : ε → κ) (becomes : ε → ρ → Prop)

/-- An entry was put into a table. -/
structure Put (entry : ε) (before after : List ρ) : Prop where
  only : ∀ row ∈ after, becomes entry row ∨ (row ∈ before ∧ key row ≠ some (entryKey entry))
  kept : ∀ row ∈ before, key row ≠ some (entryKey entry) → row ∈ after
  there : ∃ row ∈ after, becomes entry row

/-- Entries were put into a table. -/
structure Merged (entries : List ε) (start result : List ρ) : Prop where
  only : ∀ row ∈ result, (∃ entry ∈ entries, becomes entry row) ∨
    (row ∈ start ∧ ∀ entry ∈ entries, key row ≠ some (entryKey entry))
  kept : ∀ row ∈ start, (∀ entry ∈ entries, key row ≠ some (entryKey entry)) → row ∈ result
  there : ∀ entry ∈ entries, ∃ row ∈ result, becomes entry row

variable {key entryKey becomes}

theorem merged_nil (start : List ρ) : Merged key entryKey becomes [] start start where
  only _ member := .inr ⟨member, fun _ none_ => absurd none_ List.not_mem_nil⟩
  kept _ member _ := member
  there _ none_ := absurd none_ List.not_mem_nil

/-- One more entry, of a key that none before it had. -/
theorem Merged.snoc {entries : List ε} {entry : ε} {start middle result : List ρ}
    (merged : Merged key entryKey becomes entries start middle)
    (put : Put key entryKey becomes entry middle result)
    (own : ∀ entry row, becomes entry row → key row = some (entryKey entry))
    (fresh : ∀ earlier ∈ entries, entryKey earlier ≠ entryKey entry) :
    Merged key entryKey becomes (entries ++ [entry]) start result := by
  constructor
  · intro row member
    rcases put.only row member with new | ⟨old, apart⟩
    · exact .inl ⟨entry, List.mem_append_right _ List.mem_cons_self, new⟩
    · rcases merged.only row old with ⟨earlier, among, became⟩ | ⟨first, others⟩
      · exact .inl ⟨earlier, List.mem_append_left _ among, became⟩
      · refine .inr ⟨first, fun other among => ?_⟩
        rcases List.mem_append.mp among with earlier | last
        · exact others other earlier
        · exact List.mem_singleton.mp last ▸ apart
  · intro row member others
    refine put.kept row (merged.kept row member fun other among => ?_) ?_
    · exact others other (List.mem_append_left _ among)
    · exact others entry (List.mem_append_right _ List.mem_cons_self)
  · intro other among
    rcases List.mem_append.mp among with earlier | last
    · obtain ⟨row, member, became⟩ := merged.there other earlier
      refine ⟨row, put.kept row member fun same => ?_, became⟩
      have keys := (own other row became).symm.trans same
      exact fresh other earlier (Option.some.inj keys)
    · exact List.mem_singleton.mp last ▸ put.there

end BoothOperator.Merge
