import Mathlib.Algebra.Ring.Nat
import Mathlib.Order.Lattice
import BoothOperator.Schema

/-! The weighted choice of a question: every active question holds the tickets
of its weight that the cycle has not used, and the number drawn says whose turn
it is. -/
namespace BoothOperator.Questions

open BoothOperator.Schema

def questionWeightMin : Nat := 1
def questionWeightMax : Nat := 100
def questionDrawHistoryLimit : Nat := 100
def questionTicketCounterMax : Nat := 2147483647

structure QuestionTicketState where
  id : Id
  weight : Nat
  lastSelectedCycle : Option Nat
  selectionsInCycle : Nat

/-- The columns the draw selects. -/
def ticketState (question : Question) : QuestionTicketState where
  id := question.id
  weight := question.weight
  lastSelectedCycle := question.lastSelectedCycle
  selectionsInCycle := question.selectionsInCycle

/-- The tickets a question has used in a cycle. -/
def consumed (question : QuestionTicketState) (cycle : Nat) : Nat :=
  if question.lastSelectedCycle = some cycle then question.selectionsInCycle else 0

def remainingTickets (question : QuestionTicketState) (cycle : Nat) : Nat :=
  question.weight - consumed question cycle

/-- A source of `randomInt(total)`. -/
structure RandomInt where
  pick : Nat → Nat
  bound : ∀ total, 0 < total → pick total < total

inductive DrawError where
  | invalidQuestionDrawId
  | noOpenEra
  | installationDisappeared
  | invalidHistory
  | invalidWeight (question : Id)
  | drawExceededPool
  | noValidTickets
  deriving DecidableEq

structure Entry where
  question : QuestionTicketState
  tickets : Nat

/-- The loop over the pool; past its end the draw throws. -/
def pickTicket : List Entry → Nat → Except DrawError QuestionTicketState
  | [], _ => .error .drawExceededPool
  | entry :: rest, ticket =>
    if ticket < entry.tickets then .ok entry.question else pickTicket rest (ticket - entry.tickets)

def availableEntries (questions : List QuestionTicketState) (cycle : Nat) : List Entry :=
  (questions.map fun question => ⟨question, remainingTickets question cycle⟩).filter
    fun entry => 0 < entry.tickets

/-- The last selected question is left out while another has tickets. -/
def poolOf (available : List Entry) (lastSelectedQuestionId : Option Id) : List Entry :=
  let alternatives := available.filter fun entry => some entry.question.id ≠ lastSelectedQuestionId
  if 0 < alternatives.length then alternatives else available

def drawQuestion (questions : List QuestionTicketState) (cycle : Nat)
    (lastSelectedQuestionId : Option Id) (randomInt : RandomInt) :
    Except DrawError (Option QuestionTicketState) :=
  let pool := poolOf (availableEntries questions cycle) lastSelectedQuestionId
  let totalTickets := (pool.map (·.tickets)).sum
  if totalTickets = 0 then .ok none else (pickTicket pool (randomInt.pick totalTickets)).map some

/-! ## What is drawn -/

variable {questions : List QuestionTicketState} {cycle : Nat} {lastSelectedQuestionId : Option Id}
  {randomInt : RandomInt} {question : QuestionTicketState}

/-- A number below the total falls to an entry that has tickets. -/
theorem pickTicket_ok {pool : List Entry} {ticket : Nat}
    (inside : ticket < (pool.map (·.tickets)).sum) :
    ∃ entry ∈ pool, pickTicket pool ticket = .ok entry.question ∧ 0 < entry.tickets := by
  induction pool generalizing ticket with
  | nil => exact absurd inside (Nat.not_lt_zero _)
  | cons entry rest ih =>
    rw [List.map_cons, List.sum_cons] at inside
    by_cases here : ticket < entry.tickets
    · exact ⟨entry, List.mem_cons_self, if_pos here, Nat.zero_lt_of_lt here⟩
    · have later : ticket - entry.tickets < (rest.map (·.tickets)).sum := by omega
      obtain ⟨other, member, found, positive⟩ := ih later
      exact ⟨other, List.mem_cons_of_mem _ member, (if_neg here).trans found, positive⟩

theorem mem_availableEntries {entry : Entry} :
    entry ∈ availableEntries questions cycle ↔
      entry.question ∈ questions ∧ entry.tickets = remainingTickets entry.question cycle ∧
        0 < entry.tickets := by
  constructor
  · intro member
    obtain ⟨mapped, positive⟩ := List.mem_filter.mp member
    obtain ⟨question, there, rfl⟩ := List.mem_map.mp mapped
    exact ⟨there, rfl, of_decide_eq_true positive⟩
  · rintro ⟨there, same, positive⟩
    refine List.mem_filter.mpr ⟨List.mem_map.mpr ⟨entry.question, there, ?_⟩, decide_eq_true positive⟩
    rw [← same]

theorem poolOf_subset {available : List Entry} {entry : Entry}
    (member : entry ∈ poolOf available lastSelectedQuestionId) : entry ∈ available := by
  simp only [poolOf] at member
  split at member
  · exact (List.mem_filter.mp member).1
  · exact member

theorem poolOf_eq_nil {available : List Entry}
    (empty : poolOf available lastSelectedQuestionId = []) : available = [] := by
  simp only [poolOf] at empty
  split at empty
  · rename_i some
    rw [empty] at some
    exact absurd some (lt_irrefl 0)
  · exact empty

/-- The last selected question is in the pool only alone. -/
theorem poolOf_last {available : List Entry} {entry other : Entry}
    (member : entry ∈ poolOf available lastSelectedQuestionId)
    (last : some entry.question.id = lastSelectedQuestionId) (there : other ∈ available) :
    some other.question.id = lastSelectedQuestionId := by
  simp only [poolOf] at member
  split at member
  · exact absurd last (of_decide_eq_true (List.mem_filter.mp member).2)
  · rename_i none
    by_contra apart
    have alternative : other ∈ available.filter fun entry =>
        some entry.question.id ≠ lastSelectedQuestionId :=
      List.mem_filter.mpr ⟨there, decide_eq_true apart⟩
    exact none (List.length_pos_of_mem alternative)

/-- **What `drawQuestion` does**: nothing while no ticket is left, else it takes
a question with tickets, and the last one only when no other has any. -/
theorem drawQuestion_cases (questions : List QuestionTicketState) (cycle : Nat)
    (lastSelectedQuestionId : Option Id) (randomInt : RandomInt) :
    (drawQuestion questions cycle lastSelectedQuestionId randomInt = .ok none ∧
      ∀ question ∈ questions, remainingTickets question cycle = 0) ∨
    ∃ question ∈ questions,
      drawQuestion questions cycle lastSelectedQuestionId randomInt = .ok (some question) ∧
        0 < remainingTickets question cycle ∧
          (some question.id = lastSelectedQuestionId → ∀ other ∈ questions,
            0 < remainingTickets other cycle → some other.id = lastSelectedQuestionId) := by
  let pool := poolOf (availableEntries questions cycle) lastSelectedQuestionId
  by_cases zero : (pool.map (·.tickets)).sum = 0
  · refine .inl ⟨if_pos zero, fun question member => ?_⟩
    by_contra left
    have available : (⟨question, remainingTickets question cycle⟩ : Entry) ∈
        availableEntries questions cycle :=
      mem_availableEntries.mpr ⟨member, rfl, Nat.pos_of_ne_zero left⟩
    cases entries : pool with
    | nil =>
      rw [poolOf_eq_nil entries] at available
      cases available
    | cons entry rest =>
      have there : entry ∈ pool := by
        rw [entries]
        exact List.mem_cons_self
      obtain ⟨_, _, positive⟩ := mem_availableEntries.mp (poolOf_subset there)
      have none := List.sum_eq_zero_iff_forall_eq_nat.mp zero entry.tickets (List.mem_map_of_mem there)
      exact absurd none positive.ne'
  · right
    obtain ⟨entry, member, picked, _⟩ := pickTicket_ok (randomInt.bound _ (Nat.pos_of_ne_zero zero))
    obtain ⟨there, tickets, positive⟩ := mem_availableEntries.mp (poolOf_subset member)
    refine ⟨entry.question, there, ?_, tickets ▸ positive, fun last other stored left => ?_⟩
    · refine (if_neg zero).trans ?_
      rw [picked]
      rfl
    · exact poolOf_last member last
        (mem_availableEntries.mpr (show _ from ⟨stored, rfl, left⟩) :
          (⟨other, remainingTickets other cycle⟩ : Entry) ∈ _)

end BoothOperator.Questions
