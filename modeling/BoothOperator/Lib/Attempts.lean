import Mathlib.Data.List.Forall2
import Mathlib.Data.List.Nodup
import Mathlib.Order.Lattice

/-! Attempts at a result for a subject, kept as a log: an attempt is pending until
it succeeds or fails, and the last one that succeeded, by the time it was begun,
counts. A log that has one pending attempt at a subject at most, and no success
that was begun after it, stays so under the moves below, and whatever succeeds
then counts at once. -/
namespace BoothOperator.Attempts

variable {ι σ τ ρ : Type*}

inductive Phase where
  | pending | succeeded | failed
  deriving DecidableEq

structure Attempt (ι σ τ ρ : Type*) where
  id : ι
  subject : σ
  begun : τ
  phase : Phase
  result : ρ

/-- An attempt stays as it is, or a pending one is settled. -/
inductive Evolves : Attempt ι σ τ ρ → Attempt ι σ τ ρ → Prop where
  | same (attempt : Attempt ι σ τ ρ) : Evolves attempt attempt
  | settle {before after : Attempt ι σ τ ρ} : before.phase = .pending → after.phase ≠ .pending →
    after.id = before.id → after.subject = before.subject → after.begun = before.begun →
    Evolves before after

/-- A pending attempt may be given up, and nothing else. -/
inductive GivesUp : Attempt ι σ τ ρ → Attempt ι σ τ ρ → Prop where
  | same (attempt : Attempt ι σ τ ρ) : GivesUp attempt attempt
  | fail {before after : Attempt ι σ τ ρ} : before.phase = .pending → after.phase = .failed →
    after.id = before.id → after.subject = before.subject → after.begun = before.begun →
    GivesUp before after

theorem GivesUp.evolves {before after : Attempt ι σ τ ρ} (moved : GivesUp before after) :
    Evolves before after := by
  cases moved with
  | same => exact .same _
  | fail pending failed id subject begun =>
    exact .settle pending (by rw [failed]; decide) id subject begun

inductive Move (log : List (Attempt ι σ τ ρ)) : List (Attempt ι σ τ ρ) → Prop where
  | settle {after : List (Attempt ι σ τ ρ)} : List.Forall₂ Evolves log after → Move log after
  | create {middle : List (Attempt ι σ τ ρ)} {new : Attempt ι σ τ ρ} :
    List.Forall₂ GivesUp log middle → (∀ other ∈ middle, other.id ≠ new.id) →
    (new.phase ≠ .failed → ∀ other ∈ middle, other.subject = new.subject → other.phase ≠ .pending) →
    Move log (middle ++ [new])

theorem mem_left {α β : Type*} {R : α → β → Prop} {first : List α} {second : List β}
    (related : List.Forall₂ R first second) {one : α} (member : one ∈ first) :
    ∃ other ∈ second, R one other := by
  induction related with
  | nil => cases member
  | cons here _ ih =>
    rcases List.mem_cons.mp member with rfl | later
    · exact ⟨_, List.mem_cons_self, here⟩
    · obtain ⟨other, there, moved⟩ := ih later
      exact ⟨other, List.mem_cons_of_mem _ there, moved⟩

theorem mem_right {α β : Type*} {R : α → β → Prop} {first : List α} {second : List β}
    (related : List.Forall₂ R first second) {other : β} (member : other ∈ second) :
    ∃ one ∈ first, R one other := mem_left related.flip member

theorem Evolves.frame {before after : Attempt ι σ τ ρ} (moved : Evolves before after) :
    after.id = before.id ∧ after.subject = before.subject ∧ after.begun = before.begun := by
  cases moved with
  | same => exact ⟨rfl, rfl, rfl⟩
  | settle _ _ id subject begun => exact ⟨id, subject, begun⟩

/-- What is still pending has not moved. -/
theorem Evolves.pending {before after : Attempt ι σ τ ρ} (moved : Evolves before after)
    (pending : after.phase = .pending) : after = before := by
  cases moved with
  | same => rfl
  | settle _ settled _ _ _ => exact absurd pending settled

variable {log after : List (Attempt ι σ τ ρ)}

theorem ids_evolve (moved : List.Forall₂ Evolves log after) :
    after.map (·.id) = log.map (·.id) := by
  induction moved with
  | nil => rfl
  | cons here _ ih => rw [List.map_cons, List.map_cons, here.frame.1, ih]

theorem Evolves.of_givesUp (moved : List.Forall₂ GivesUp log after) :
    List.Forall₂ Evolves log after :=
  moved.imp fun _ _ => GivesUp.evolves

/-- Giving up brings no success about. -/
theorem succeeded_of_givesUp (moved : List.Forall₂ GivesUp log after) {new : Attempt ι σ τ ρ}
    (member : new ∈ after) (succeeded : new.phase = .succeeded) : new ∈ log := by
  obtain ⟨old, there, moved⟩ := mem_right moved member
  cases moved with
  | same => exact there
  | fail _ failed _ _ _ =>
    rw [failed] at succeeded
    cases succeeded

variable [LinearOrder τ]

/-- The success that counts for its subject. -/
def Counts (log : List (Attempt ι σ τ ρ)) (attempt : Attempt ι σ τ ρ) : Prop :=
  attempt ∈ log ∧ attempt.phase = .succeeded ∧
    ∀ other ∈ log, other.subject = attempt.subject → other.phase = .succeeded →
      other ≠ attempt → other.begun < attempt.begun

structure Orderly (log : List (Attempt ι σ τ ρ)) : Prop where
  ids : (log.map (·.id)).Nodup
  times : ∀ one ∈ log, ∀ other ∈ log, one.begun = other.begun → one = other
  alone : ∀ one ∈ log, ∀ other ∈ log, one.subject = other.subject → one.phase = .pending →
    other.phase = .pending → one = other
  behind : ∀ pending ∈ log, ∀ done ∈ log, done.subject = pending.subject →
    pending.phase = .pending → done.phase = .succeeded → done.begun < pending.begun

/-- Attempts that are new were begun after those that are not. -/
def InOrder (log after : List (Attempt ι σ τ ρ)) : Prop :=
  ∀ new ∈ after, (∀ old ∈ log, old.id ≠ new.id) → ∀ old ∈ log, old.begun < new.begun

/-- What is settled stays, and what succeeds counts. -/
structure Settles (log after : List (Attempt ι σ τ ρ)) : Prop where
  kept : ∀ old ∈ log, ∃ new ∈ after, new.id = old.id ∧ new.subject = old.subject ∧
    new.begun = old.begun ∧ (old.phase ≠ .pending → new = old)
  succeeded : ∀ new ∈ after, new.phase = .succeeded → new ∈ log ∨ Counts after new

theorem orderly_nil : Orderly ([] : List (Attempt ι σ τ ρ)) := by
  refine ⟨List.nodup_nil, ?_, ?_, ?_⟩
  · exact fun one member => absurd member List.not_mem_nil
  · exact fun one member => absurd member List.not_mem_nil
  · exact fun one member => absurd member List.not_mem_nil

theorem Settles.refl (log : List (Attempt ι σ τ ρ)) : Settles log log where
  kept old member := ⟨old, member, rfl, rfl, rfl, fun _ => rfl⟩
  succeeded _ member _ := .inl member

/-- The attempt of a log with an id. -/
theorem Orderly.unique (orderly : Orderly log) {one other : Attempt ι σ τ ρ} (here : one ∈ log)
    (there : other ∈ log) (same : one.id = other.id) : one = other :=
  List.inj_on_of_nodup_map orderly.ids here there same

theorem orderly_evolve (orderly : Orderly log) (moved : List.Forall₂ Evolves log after) :
    Orderly after := by
  have ids : (after.map (·.id)).Nodup := (ids_evolve moved) ▸ orderly.ids
  have unique : ∀ one ∈ after, ∀ other ∈ after, one.id = other.id → one = other :=
    fun one here other there same => List.inj_on_of_nodup_map ids here there same
  refine ⟨ids, ?_, ?_, ?_⟩
  · intro one here other there same
    obtain ⟨one', here', moved1⟩ := mem_right moved here
    obtain ⟨other', there', moved2⟩ := mem_right moved there
    have begun : one'.begun = other'.begun :=
      moved1.frame.2.2.symm.trans (same.trans moved2.frame.2.2)
    have equal := orderly.times one' here' other' there' begun
    refine unique one here other there ?_
    rw [moved1.frame.1, moved2.frame.1, equal]
  · intro one here other there subject pending pending'
    obtain ⟨one', here', moved1⟩ := mem_right moved here
    obtain ⟨other', there', moved2⟩ := mem_right moved there
    obtain rfl := moved1.pending pending
    obtain rfl := moved2.pending pending'
    exact orderly.alone _ here' _ there' subject pending pending'
  · intro pending here done there subject waits succeeded
    obtain ⟨pending', here', moved1⟩ := mem_right moved here
    obtain ⟨done', there', moved2⟩ := mem_right moved there
    obtain rfl := moved1.pending waits
    cases moved2 with
    | same => exact orderly.behind _ here' _ there' subject waits succeeded
    | settle was _ id subject' _ =>
      have equal : done' = pending :=
        orderly.alone done' there' pending here' (subject'.symm.trans subject) was waits
      have same : done = pending := unique done there pending here (id.trans (congrArg _ equal))
      rw [same, waits] at succeeded
      cases succeeded

theorem settles_evolve (orderly : Orderly log) (moved : List.Forall₂ Evolves log after) :
    Settles log after := by
  have later := orderly_evolve orderly moved
  refine ⟨?_, ?_⟩
  · intro old member
    obtain ⟨new, there, evolved⟩ := mem_left moved member
    obtain ⟨id, subject, begun⟩ := evolved.frame
    refine ⟨new, there, id, subject, begun, fun settled => ?_⟩
    cases evolved with
    | same => rfl
    | settle pending _ _ _ _ => exact absurd pending settled
  · intro new there succeeded
    obtain ⟨old, member, evolved⟩ := mem_right moved there
    cases evolved with
    | same => exact .inl member
    | settle pending _ id subject begun =>
      refine .inr ⟨there, succeeded, fun other present subject' done differs => ?_⟩
      obtain ⟨other', was, evolved'⟩ := mem_right moved present
      have about : other'.subject = old.subject :=
        evolved'.frame.2.1.symm.trans (subject'.trans subject)
      rw [begun, evolved'.frame.2.2]
      cases evolved' with
      | same => exact orderly.behind old member other was about pending done
      | settle pending' _ id' _ _ =>
        have equal := orderly.alone other' was old member about pending' pending
        exact absurd (later.unique present there (id'.trans (equal ▸ id.symm))) differs

/-- An attempt begun after all the others. -/
theorem orderly_append (orderly : Orderly log) {new : Attempt ι σ τ ρ}
    (fresh : ∀ other ∈ log, other.id ≠ new.id) (last : ∀ other ∈ log, other.begun < new.begun)
    (alone : new.phase ≠ .failed → ∀ other ∈ log, other.subject = new.subject →
      other.phase ≠ .pending) : Orderly (log ++ [new]) := by
  have cases_new : ∀ {one}, one ∈ log ++ [new] → one ∈ log ∨ one = new := fun member =>
    (List.mem_append.mp member).imp_right List.mem_singleton.mp
  refine ⟨?_, ?_, ?_, ?_⟩
  · rw [List.map_append, List.map_singleton]
    refine List.nodup_append.mpr ⟨orderly.ids, List.nodup_singleton _, ?_⟩
    rintro used member _ other rfl
    obtain ⟨old, there, same⟩ := List.mem_map.mp member
    exact fresh old there (same.trans (List.mem_singleton.mp other))
  · intro one here other there same
    rcases cases_new here with old | rfl
    · rcases cases_new there with old' | rfl
      · exact orderly.times one old other old' same
      · exact absurd same (last one old).ne
    · rcases cases_new there with old' | rfl
      · exact absurd same.symm (last other old').ne
      · rfl
  · intro one here other there subject pending pending'
    rcases cases_new here with old | rfl
    · rcases cases_new there with old' | rfl
      · exact orderly.alone one old other old' subject pending pending'
      · exact absurd pending (alone (by rw [pending']; decide) one old subject)
    · rcases cases_new there with old' | rfl
      · exact absurd pending' (alone (by rw [pending]; decide) other old' subject.symm)
      · rfl
  · intro pending here done there subject waits succeeded
    rcases cases_new here with old | rfl
    · rcases cases_new there with old' | rfl
      · exact orderly.behind pending old done old' subject waits succeeded
      · exact absurd waits (alone (by rw [succeeded]; decide) pending old subject.symm)
    · rcases cases_new there with old' | rfl
      · exact last done old'
      · rw [waits] at succeeded
        cases succeeded

theorem begun_of_givesUp {middle : List (Attempt ι σ τ ρ)} {new : Attempt ι σ τ ρ}
    (moved : List.Forall₂ GivesUp log middle) (fresh : ∀ other ∈ middle, other.id ≠ new.id)
    (order : InOrder log (middle ++ [new])) : ∀ other ∈ middle, other.begun < new.begun := by
  intro other member
  obtain ⟨old, there, evolved⟩ := mem_right moved member
  rw [evolved.evolves.frame.2.2]
  refine order new (List.mem_append_right _ (List.mem_singleton_self _)) (fun one here => ?_) old there
  obtain ⟨one', here', evolved'⟩ := mem_left moved here
  exact evolved'.evolves.frame.1 ▸ fresh one' here'

theorem Move.orderly (moved : Move log after) (orderly : Orderly log) (order : InOrder log after) :
    Orderly after := by
  cases moved with
  | settle moved => exact orderly_evolve orderly moved
  | create moved fresh alone =>
    exact orderly_append (orderly_evolve orderly (Evolves.of_givesUp moved)) fresh
      (begun_of_givesUp moved fresh order) alone

theorem Move.settles (moved : Move log after) (orderly : Orderly log) (order : InOrder log after) :
    Settles log after := by
  cases moved with
  | settle moved => exact settles_evolve orderly moved
  | @create middle new moved fresh alone =>
    have last := begun_of_givesUp moved fresh order
    refine ⟨?_, ?_⟩
    · intro old member
      obtain ⟨kept, there, same⟩ := (settles_evolve orderly (Evolves.of_givesUp moved)).kept old member
      exact ⟨kept, List.mem_append_left _ there, same⟩
    · intro one member succeeded
      rcases List.mem_append.mp member with old | fresh
      · exact .inl (succeeded_of_givesUp moved old succeeded)
      · cases List.mem_singleton.mp fresh
        refine .inr ⟨member, succeeded, fun other there _ _ differs => ?_⟩
        rcases List.mem_append.mp there with old | same
        · exact last other old
        · exact absurd (List.mem_singleton.mp same) differs

/-- What counts goes on to count while nothing else succeeds for its subject. -/
theorem Settles.counts (settles : Settles log after) {attempt : Attempt ι σ τ ρ}
    (counts : Counts log attempt) (quiet : ∀ new ∈ after, new.subject = attempt.subject →
      new.phase = .succeeded → new ∈ log) : Counts after attempt := by
  obtain ⟨member, succeeded, last⟩ := counts
  obtain ⟨new, there, _, _, _, same⟩ := settles.kept attempt member
  cases same (by rw [succeeded]; decide)
  refine ⟨there, succeeded, fun other here subject done differs => ?_⟩
  exact last other (quiet other here subject done) subject done differs

end BoothOperator.Attempts
