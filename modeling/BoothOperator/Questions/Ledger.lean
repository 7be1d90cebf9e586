import BoothOperator.Lib.Run
import BoothOperator.Lib.TicketBag
import BoothOperator.Questions.Draws

/-! The draws of an installation are draws from a ticket bag. -/
namespace BoothOperator.Questions

open BoothOperator.Schema
open BoothOperator.Events (isGuid isGuid_toLower)
open BoothOperator.TicketBag (Bag Draw)

/-! ## The bag -/

/-- The fresh draws, as a bag. -/
def bag (world : World) : Bag Id :=
  ⟨world.turn, (world.log.filter (·.fresh)).map fun entry => (entry.turn, entry.question)⟩

/-- What may be drawn. -/
def Active (era : Id) (db : Db) (question : Id) : Prop :=
  ∃ row ∈ db.questions, row.id = question ∧ row.installationId = some era ∧ row.status = .active

def weightOf (db : Db) (question : Id) : Nat := ((db.question question).map (·.weight)).getD 0

/-- The open installation as a start leaves it: no draw yet, and every question
of it with a weight that the schema allows and no tickets used. -/
structure Initial (era : Id) (world : World) : Prop where
  opened : world.db.findActiveInstallation.map (·.id) = some era
  installations : (world.db.installations.map (·.id)).Nodup
  undrawn : ∀ row ∈ world.db.installations, row.id = era → row.questionSelectionCycle = 0 ∧
    row.lastSelectedQuestionId = none ∧ row.recentQuestionDraws = []
  questions : (world.db.questions.map (·.id)).Nodup
  bound : ∀ row ∈ world.db.questions, row.id < world.db.nextId
  unused : ∀ row ∈ world.db.questions, row.installationId = some era →
    row.lastSelectedCycle = none ∧ questionWeightSchema row.weight
  turn : world.turn = 0
  log : world.log = []

/-! ## What the operator's changes leave alone -/

/-- A row that keeps what the bag reads, its weight perhaps changed to an allowed one. -/
structure Reworded (old row : Question) : Prop where
  id : row.id = old.id
  installationId : row.installationId = old.installationId
  lastSelectedCycle : row.lastSelectedCycle = old.lastSelectedCycle
  selectionsInCycle : row.selectionsInCycle = old.selectionsInCycle
  weight : questionWeightSchema old.weight → questionWeightSchema row.weight

theorem Reworded.refl (row : Question) : Reworded row row := ⟨rfl, rfl, rfl, rfl, fun valid => valid⟩

theorem Reworded.consumed {old row : Question} (reworded : Reworded old row) (cycle : Nat) :
    consumed (ticketState row) cycle = consumed (ticketState old) cycle := by
  unfold Questions.consumed ticketState
  rw [reworded.lastSelectedCycle, reworded.selectionsInCycle]

/-- The rows of a table after rewording, and perhaps one new row. -/
structure Edited (db after : Db) : Prop where
  installations : after.installations = db.installations
  rows : ∃ change : Question → Question, (∀ row, Reworded row (change row)) ∧
    (after.questions = db.questions.map change ∧ after.nextId = db.nextId ∨
      ∃ new : Question, new.id = db.nextId ∧ new.lastSelectedCycle = none ∧
        questionWeightSchema new.weight ∧ after.questions = db.questions.map change ++ [new] ∧
          after.nextId = db.nextId + 1)

theorem edited_updateMany {db : Db} {found : Question → Bool} {change : Question → Question}
    (reworded : ∀ row, Reworded row (change row)) :
    Edited db { db with questions := Table.updateMany found change db.questions } := by
  refine ⟨rfl, fun row => if found row then change row else row, fun row => ?_, .inl ⟨rfl, rfl⟩⟩
  change Reworded row (if found row = true then change row else row)
  split
  · exact reworded row
  · exact .refl row

theorem withOpenEra_ok {installationId : Option Id} {write : Db → Except EditError Db} {db after : Db}
    (done : withOpenEra installationId write db = .ok after) : write db = .ok after := by
  unfold withOpenEra at done
  split at done
  · cases done
  · exact done

theorem setStatus_edited {id : Id} {status : QuestionStatus} {retiredAt : Option Time}
    {question : Question} {db after : Db}
    (done : setStatus id status retiredAt question db = .ok after) : Edited db after := by
  cases withOpenEra_ok done
  exact edited_updateMany fun _ => ⟨rfl, rfl, rfl, rfl, fun valid => valid⟩

theorem patchQuestion_reworded (body : QuestionUpdate) (row : Question) :
    Reworded row (patchQuestion body row) := by
  refine ⟨rfl, rfl, rfl, rfl, fun valid => ?_⟩
  have allowed := body.valid.2
  unfold patchQuestion
  cases given : body.weight with
  | none => exact valid
  | some weight =>
    rw [given] at allowed
    exact allowed

theorem postQuestion_edited {now : Time} {body : QuestionCreate} {db after : Db}
    (done : postQuestion now body db = .ok after) : Edited db after := by
  unfold postQuestion at done
  split at done
  · cases done
  split at done
  · cases done
  simp only at done
  split at done
  · cases done
  cases done
  have weight : questionWeightSchema (body.weight.getD 1) := by
    have allowed := body.valid.2
    cases given : body.weight with
    | none => decide
    | some weight =>
      rw [given] at allowed
      exact allowed
  refine ⟨rfl, id, Reworded.refl, .inr ?_⟩
  refine ⟨_, rfl, rfl, ?_, congrArg (· ++ _) (List.map_id _).symm, rfl⟩
  exact weight

theorem edit_edited {change : Edit} {db after : Db} (done : change.apply db = .ok after) :
    Edited db after := by
  cases change with
  | post now body => exact postQuestion_edited done
  | patch id body =>
    simp only [Edit.apply, patch] at done
    split at done
    · cases done
    split at done
    · cases done
    have wrote := withOpenEra_ok done
    split at wrote
    · cases wrote
    · cases wrote
      exact edited_updateMany (patchQuestion_reworded body)
  | activate id =>
    simp only [Edit.apply, activate] at done
    split at done
    · cases done
    · exact setStatus_edited done
  | deactivate id =>
    simp only [Edit.apply, deactivate] at done
    split at done
    · cases done
    · exact setStatus_edited done
  | archive id now =>
    simp only [Edit.apply, archive] at done
    split at done
    · cases done
    split at done
    · cases done
    · exact setStatus_edited done

/-! ## What the rows say about the bag -/

/-- The fresh draws that had an id, as the history stores them. -/
def drawn (log : List Served) : List QuestionDraw :=
  (log.filter (·.fresh)).filterMap fun entry => entry.drawId.map (⟨·, entry.question⟩)

/-- The ticket state of the open installation and the answers so far. -/
structure Sound (era : Id) (row : Installation) (world : World) : Prop where
  opened : world.db.findActiveInstallation = some row
  own : row.id = era
  installations : (world.db.installations.map (·.id)).Nodup
  questions : (world.db.questions.map (·.id)).Nodup
  bound : ∀ question ∈ world.db.questions, question.id < world.db.nextId
  weights : ∀ question ∈ world.db.questions, question.installationId = some era →
    questionWeightSchema question.weight
  tagged : ∀ question ∈ world.db.questions, question.installationId = some era →
    ∀ tag, question.lastSelectedCycle = some tag → tag ≤ row.questionSelectionCycle
  counter : row.questionSelectionCycle ≤ questionTicketCounterMax
  used : ∀ question ∈ world.db.questions, question.installationId = some era →
    consumed (ticketState question) row.questionSelectionCycle =
      (bag world).drawn world.turn question.id
  current : (bag world).Current
  known : ∀ entry ∈ world.log, ∃ question ∈ world.db.questions,
    question.id = entry.question ∧ question.installationId = some era
  last : row.lastSelectedQuestionId = ((world.log.filter (·.fresh)).getLast?).map (·.question)
  history : row.recentQuestionDraws =
    Recent.recent (·.drawId) questionDrawHistoryLimit (drawn world.log)
  guids : ∀ entry ∈ world.log, ∀ drawId, entry.drawId = some drawId → isGuid drawId

theorem sound_initial {era : Id} {world : World} (initial : Initial era world) :
    ∃ row, Sound era row world := by
  obtain ⟨row, opened, own⟩ := Option.map_eq_some_iff.mp initial.opened
  have stored : row ∈ world.db.installations := (Table.latest_mem opened).1
  obtain ⟨cycle, last, history⟩ := initial.undrawn row stored own
  have empty : bag world = ⟨0, []⟩ := by
    rw [bag, initial.turn, initial.log]
    rfl
  refine ⟨row, opened, own, initial.installations, initial.questions, initial.bound, ?_, ?_, ?_, ?_,
    ?_, ?_, ?_, ?_, ?_⟩
  · exact fun question member filed => (initial.unused question member filed).2
  · intro question member filed tag tagged
    rw [(initial.unused question member filed).1] at tagged
    cases tagged
  · rw [cycle]
    exact Nat.zero_le _
  · intro question member filed
    simp [consumed, ticketState, (initial.unused question member filed).1, empty, Bag.drawn]
  · rw [empty]
    exact fun _ _ _ => rfl
  · rw [initial.log]
    exact fun entry member => absurd member List.not_mem_nil
  · rw [last, initial.log]
    rfl
  · rw [history, initial.log]
    exact Recent.recent_nil.symm
  · rw [initial.log]
    exact fun entry member => absurd member List.not_mem_nil

section Steps

variable {era : Id} {row : Installation} {world : World}

/-- A new row has not been drawn. -/
theorem drawn_unknown (sound : Sound era row world) {turn : Nat} {question : Id}
    (unknown : ∀ old ∈ world.db.questions, old.id ≠ question) :
    (bag world).drawn turn question = 0 := by
  refine List.count_eq_zero.mpr fun member => ?_
  obtain ⟨entry, fresh, same⟩ := List.mem_map.mp member
  obtain ⟨old, stored, own, _⟩ := sound.known entry (List.mem_filter.mp fresh).1
  exact unknown old stored (own.trans (Prod.mk.inj same).2)

theorem findActive_congr {db after : Db} (same : after.installations = db.installations) :
    after.findActiveInstallation = db.findActiveInstallation := by
  unfold Db.findActiveInstallation
  rw [same]

/-- The operator's changes keep the ticket state. -/
theorem sound_edit (sound : Sound era row world) {db : Db} (edited : Edited world.db db) :
    Sound era row { world with db } := by
  obtain ⟨installations, change, reworded, shape⟩ := edited
  have old : ∀ question ∈ world.db.questions, change question ∈ db.questions := by
    intro question member
    rcases shape with ⟨rows, _⟩ | ⟨_, _, _, _, rows, _⟩
    · rw [rows]
      exact List.mem_map_of_mem member
    · rw [rows]
      exact List.mem_append_left _ (List.mem_map_of_mem member)
  have back : ∀ question ∈ db.questions, (∃ before ∈ world.db.questions, change before = question) ∨
      question.id = world.db.nextId ∧ question.lastSelectedCycle = none ∧
        questionWeightSchema question.weight := by
    intro question member
    rcases shape with ⟨rows, _⟩ | ⟨new, own, untagged, weight, rows, _⟩
    · rw [rows] at member
      exact .inl (List.mem_map.mp member)
    · rw [rows, List.mem_append, List.mem_singleton] at member
      rcases member with stored | rfl
      · exact .inl (List.mem_map.mp stored)
      · exact .inr ⟨own, untagged, weight⟩
  have ids : (world.db.questions.map change).map (·.id) = world.db.questions.map (·.id) := by
    rw [List.map_map]
    exact List.map_congr_left fun question _ => (reworded question).id
  refine ⟨(findActive_congr installations).trans sound.opened, sound.own, installations ▸ sound.installations,
    ?_, ?_, ?_, ?_, sound.counter, ?_, sound.current, ?_, sound.last, sound.history, sound.guids⟩
  · change (db.questions.map (·.id)).Nodup
    rcases shape with ⟨rows, _⟩ | ⟨new, own, _, _, rows, _⟩
    · rw [rows, ids]
      exact sound.questions
    · rw [rows, List.map_append, ids, List.map_singleton, own]
      exact Table.nodup_append_fresh sound.questions sound.bound
  · intro question member
    change question.id < db.nextId
    have later : world.db.nextId ≤ db.nextId := by
      rcases shape with ⟨_, same⟩ | ⟨_, _, _, _, _, next⟩
      · exact same.symm.le
      · exact next ▸ Nat.le_succ _
    rcases back question member with ⟨before, stored, rfl⟩ | ⟨own, _, _⟩
    · rw [(reworded before).id]
      exact lt_of_lt_of_le (sound.bound before stored) later
    · rcases shape with ⟨rows, _⟩ | ⟨_, _, _, _, _, next⟩
      · rw [rows] at member
        obtain ⟨before, stored, rfl⟩ := List.mem_map.mp member
        exact lt_of_lt_of_le ((reworded before).id ▸ sound.bound before stored) later
      · rw [own, next]
        exact Nat.lt_succ_self _
  · intro question member filed
    rcases back question member with ⟨before, stored, rfl⟩ | ⟨_, _, weight⟩
    · refine (reworded before).weight (sound.weights before stored ?_)
      exact (reworded before).installationId.symm.trans filed
    · exact weight
  · intro question member filed tag tagged
    rcases back question member with ⟨before, stored, rfl⟩ | ⟨_, untagged, _⟩
    · refine sound.tagged before stored ((reworded before).installationId.symm.trans filed) tag ?_
      exact (reworded before).lastSelectedCycle.symm.trans tagged
    · rw [untagged] at tagged
      cases tagged
  · intro question member filed
    rcases back question member with ⟨before, stored, rfl⟩ | ⟨own, untagged, _⟩
    · rw [(reworded before).consumed, (reworded before).id]
      exact sound.used before stored ((reworded before).installationId.symm.trans filed)
    · refine Eq.trans ?_ (drawn_unknown sound fun other stored => ?_).symm
      · simp [consumed, ticketState, untagged]
      · exact own ▸ (sound.bound other stored).ne
  · intro entry member
    obtain ⟨question, stored, own, filed⟩ := sound.known entry member
    exact ⟨change question, old question stored, (reworded question).id.trans own,
      (reworded question).installationId.trans filed⟩

/-! ## A draw from the bag -/

theorem weightOf_mem (sound : Sound era row world) {question : Question}
    (stored : question ∈ world.db.questions) : weightOf world.db question.id = question.weight := by
  simp only [weightOf, Db.question, Table.findUnique_of_mem sound.questions stored, Option.map_some,
    Option.getD_some]

theorem mem_activeQuestions {db : Db} {question : Question} :
    question ∈ activeQuestions era db ↔
      question ∈ db.questions ∧ question.installationId = some era ∧ question.status = .active := by
  simp [activeQuestions, List.mem_insertionSort]

/-- The rows a draw is recorded in, when it is, and the turn of the bag: those
there are, or those that a refill has put back. -/
structure Ready (era : Id) (row : Installation) (world : World) (cycle : Nat) (base : Db)
    (turn : Nat) : Prop where
  installations : base.installations = world.db.installations
  nextId : base.nextId = world.db.nextId
  rows : ∃ change : Question → Question, (∀ question, (change question).id = question.id ∧
    (change question).installationId = question.installationId ∧
      (change question).status = question.status ∧ (change question).weight = question.weight) ∧
        base.questions = world.db.questions.map change
  tagged : ∀ question ∈ base.questions, question.installationId = some era →
    ∀ tag, question.lastSelectedCycle = some tag → tag ≤ cycle
  counter : cycle ≤ questionTicketCounterMax
  used : ∀ question ∈ base.questions, question.installationId = some era →
    consumed (ticketState question) cycle = (bag world).drawn turn question.id
  turn : cycle = row.questionSelectionCycle ∧ turn = world.turn ∨
    cycle ≠ row.questionSelectionCycle ∧ turn = world.turn + 1 ∧
      ∀ question, Active era world.db question →
        weightOf world.db question ≤ (bag world).drawn world.turn question

theorem ready_same (sound : Sound era row world) :
    Ready era row world row.questionSelectionCycle world.db world.turn where
  installations := rfl
  nextId := rfl
  rows := ⟨id, fun _ => ⟨rfl, rfl, rfl, rfl⟩, (List.map_id _).symm⟩
  tagged := sound.tagged
  counter := sound.counter
  used := sound.used
  turn := .inl ⟨rfl, rfl⟩

/-- A refill leaves no question with tickets used: the cycle it begins is one
that no row is marked with. -/
theorem ready_refill (sound : Sound era row world)
    (spent : ∀ question ∈ activeQuestions era world.db,
      remainingTickets (ticketState question) row.questionSelectionCycle = 0)
    (questions : List QuestionTicketState) :
    Ready era row world (refill era row.questionSelectionCycle questions world.db).1
      (refill era row.questionSelectionCycle questions world.db).2.2 (world.turn + 1) := by
  have used : ∀ question, Active era world.db question →
      weightOf world.db question ≤ (bag world).drawn world.turn question := by
    rintro _ ⟨question, stored, rfl, filed, active⟩
    have none := spent question (mem_activeQuestions.mpr ⟨stored, filed, active⟩)
    rw [weightOf_mem sound stored, ← sound.used question stored filed]
    exact Nat.sub_eq_zero_iff_le.mp none
  have unused : ∀ question, (bag world).drawn (world.turn + 1) question = 0 :=
    fun question => sound.current _ _ (Nat.lt_succ_self _)
  by_cases wraps : row.questionSelectionCycle = questionTicketCounterMax
  · simp only [refill, if_pos wraps]
    have reset : ∀ question ∈ Table.updateMany (fun row => row.installationId = some era)
        (fun row => { row with lastSelectedCycle := none, selectionsInCycle := 0 })
          world.db.questions, question.installationId = some era → question.lastSelectedCycle = none := by
      intro question member filed
      obtain ⟨old, stored, rfl⟩ := Table.mem_updateMany.mp member
      split at filed
      · rename_i matched
        rw [if_pos matched]
      · rename_i other
        exact absurd (decide_eq_true filed) other
    refine ⟨rfl, rfl, ⟨_, fun question => ?_, rfl⟩, ?_, Nat.zero_le _, ?_, .inr ⟨?_, rfl, used⟩⟩
    · split
      · exact ⟨rfl, rfl, rfl, rfl⟩
      · exact ⟨rfl, rfl, rfl, rfl⟩
    · intro question member filed tag tagged
      rw [reset question member filed] at tagged
      cases tagged
    · intro question member filed
      rw [unused]
      simp [consumed, ticketState, reset question member filed]
    · rw [wraps]
      decide
  · simp only [refill, if_neg wraps]
    refine ⟨rfl, rfl, ⟨id, fun _ => ⟨rfl, rfl, rfl, rfl⟩, (List.map_id _).symm⟩, ?_, ?_, ?_,
      .inr ⟨Nat.succ_ne_self _, rfl, used⟩⟩
    · exact fun question member filed tag tagged =>
        (sound.tagged question member filed tag tagged).trans (Nat.le_succ _)
    · exact Nat.succ_le_of_lt (lt_of_le_of_ne sound.counter wraps)
    · intro question member filed
      rw [unused]
      refine if_neg fun tagged => ?_
      exact absurd (sound.tagged question member filed _ tagged) (Nat.not_succ_le_self _)

/-- The tickets a refill leaves are those of the rows it leaves. -/
theorem mem_refill {question : QuestionTicketState} :
    question ∈ (refill era row.questionSelectionCycle
        ((activeQuestions era world.db).map ticketState) world.db).2.1 ↔
      ∃ stored ∈ (refill era row.questionSelectionCycle
          ((activeQuestions era world.db).map ticketState) world.db).2.2.questions,
        question = ticketState stored ∧ stored.installationId = some era ∧ stored.status = .active := by
  unfold refill
  split
  · simp only [List.mem_map]
    constructor
    · rintro ⟨_, ⟨old, member, rfl⟩, rfl⟩
      obtain ⟨stored, filed, active⟩ := mem_activeQuestions.mp member
      refine ⟨{ old with lastSelectedCycle := none, selectionsInCycle := 0 },
        Table.mem_updateMany.mpr ⟨old, stored, ?_⟩, rfl, filed, active⟩
      rw [if_pos (decide_eq_true filed)]
    · rintro ⟨new, member, rfl, filed, active⟩
      obtain ⟨old, stored, rfl⟩ := Table.mem_updateMany.mp member
      split at filed
      · rename_i matched
        rw [if_pos matched] at active ⊢
        exact ⟨_, ⟨old, mem_activeQuestions.mpr ⟨stored, filed, active⟩, rfl⟩, rfl⟩
      · rename_i other
        exact absurd (decide_eq_true filed) other
  · simp only [List.mem_map]
    constructor
    · rintro ⟨old, member, rfl⟩
      obtain ⟨stored, filed, active⟩ := mem_activeQuestions.mp member
      exact ⟨old, stored, rfl, filed, active⟩
    · rintro ⟨old, stored, rfl, filed, active⟩
      exact ⟨old, mem_activeQuestions.mpr ⟨stored, filed, active⟩, rfl⟩

/-- The choice a draw makes among the rows it is recorded in. -/
structure Chosen (era : Id) (row : Installation) (cycle : Nat) (base : Db) (selected : Question) :
    Prop where
  stored : selected ∈ base.questions
  filed : selected.installationId = some era
  active : selected.status = .active
  left : 0 < remainingTickets (ticketState selected) cycle
  again : some selected.id = row.lastSelectedQuestionId → ∀ other ∈ base.questions,
    other.installationId = some era → other.status = .active →
      0 < remainingTickets (ticketState other) cycle → some other.id = row.lastSelectedQuestionId

theorem weights_valid (sound : Sound era row world) :
    (activeQuestions era world.db).find? invalidWeight = none := by
  refine List.find?_eq_none.mpr fun question member invalid => ?_
  obtain ⟨stored, filed, _⟩ := mem_activeQuestions.mp member
  have valid := of_decide_eq_true (sound.weights question stored filed)
  rcases of_decide_eq_true invalid with low | high
  · exact absurd valid.1 (not_le.mpr low)
  · exact absurd valid.2 (not_le.mpr high)

/-- **A draw from a pool that is not empty takes a ticket and does not throw.** -/
theorem drawTicket_ok (sound : Sound era row world) {question : Id}
    (some : Active era world.db question) (drawId : Option String) (randomInt : RandomInt) :
    ∃ cycle base turn selected, Ready era row world cycle base turn ∧
      Chosen era row cycle base selected ∧
        drawTicket era drawId randomInt row world.db =
          .ok (record era drawId row.recentQuestionDraws cycle (ticketState selected) base) := by
  obtain ⟨stored, there, rfl, filed, active⟩ := some
  have pooled := mem_activeQuestions.mpr ⟨there, filed, active⟩
  have nonempty : ¬ (activeQuestions era world.db).length = 0 :=
    (List.length_pos_of_mem pooled).ne'
  simp only [drawTicket, if_neg nonempty, weights_valid sound]
  rcases drawQuestion_cases ((activeQuestions era world.db).map ticketState)
      row.questionSelectionCycle row.lastSelectedQuestionId randomInt with
    ⟨none, spent⟩ | ⟨_, member, drawn, left, again⟩
  · have allSpent : ∀ question ∈ activeQuestions era world.db,
        remainingTickets (ticketState question) row.questionSelectionCycle = 0 :=
      fun question member => spent _ (List.mem_map_of_mem member)
    have ready := ready_refill sound allSpent ((activeQuestions era world.db).map ticketState)
    rw [none]
    rcases drawQuestion_cases (refill era row.questionSelectionCycle
        ((activeQuestions era world.db).map ticketState) world.db).2.1
        (refill era row.questionSelectionCycle
          ((activeQuestions era world.db).map ticketState) world.db).1
        row.lastSelectedQuestionId randomInt with ⟨_, nothing⟩ | ⟨_, member, drawn, left, again⟩
    · -- After a refill every question has the tickets of its weight.
      exfalso
      obtain ⟨change, same, rows⟩ := ready.rows
      obtain ⟨own, filed', active', weight⟩ := same stored
      have kept := mem_refill.mpr ⟨change stored, rows ▸ List.mem_map_of_mem there, rfl,
        filed'.trans filed, active'.trans active⟩
      have zero := nothing _ kept
      have unused := ready.used (change stored) (rows ▸ List.mem_map_of_mem there)
        (filed'.trans filed)
      have none : (bag world).drawn (world.turn + 1) (change stored).id = 0 :=
        sound.current _ _ (Nat.lt_succ_self _)
      rw [none] at unused
      rw [remainingTickets, unused] at zero
      have valid := of_decide_eq_true (sound.weights stored there filed)
      have positive : 0 < (change stored).weight := weight ▸ valid.1
      exact absurd zero positive.ne'
    · obtain ⟨selected, held, rfl, filed', active'⟩ := mem_refill.mp member
      refine ⟨_, _, _, selected, ready, ⟨held, filed', active', left, ?_⟩, ?_⟩
      · exact fun last other member filed active left =>
          again last _ (mem_refill.mpr ⟨other, member, rfl, filed, active⟩) left
      · simp only [drawn]
  · obtain ⟨selected, listed, rfl⟩ := List.mem_map.mp member
    obtain ⟨held, filed', active'⟩ := mem_activeQuestions.mp listed
    refine ⟨_, _, _, selected, ready_same sound, ⟨held, filed', active', left, ?_⟩, ?_⟩
    · exact fun last other member filed active left =>
        again last _ (List.mem_map_of_mem (mem_activeQuestions.mpr ⟨member, filed, active⟩)) left
    · simp only [drawn]

/-! ## The writes of a draw -/

/-- The installation's row after a draw. -/
def recorded (row : Installation) (drawId : Option String) (cycle : Nat) (selected : Question) :
    Installation :=
  { row with
    questionSelectionCycle := cycle
    lastSelectedQuestionId := some selected.id
    recentQuestionDraws := nextQuestionDraws drawId selected.id row.recentQuestionDraws }

/-- A question's row after it has been drawn. -/
def marked (cycle : Nat) (selected : Question) : Question :=
  { selected with
    lastSelectedCycle := some cycle
    selectionsInCycle := consumed (ticketState selected) cycle + 1 }

theorem openRow_eq (sound : Sound era row world) : openRow world.db = some row := by
  have stored : row ∈ world.db.installations := (Table.latest_mem sound.opened).1
  simp only [openRow, sound.opened, Option.bind_some]
  exact Table.findUnique_of_mem sound.installations stored

section Record

variable {cycle turn : Nat} {base : Db} {selected : Question} (drawId : Option String)

/-- The database a draw leaves, and the row it returns. -/
theorem record_eq (sound : Sound era row world) (ready : Ready era row world cycle base turn)
    (chosen : Chosen era row cycle base selected) :
    ∃ after, record era drawId row.recentQuestionDraws cycle (ticketState selected) base =
        (after, some (marked cycle selected)) ∧
      after.nextId = world.db.nextId ∧
      after.installations = Table.updateMany (·.id = era) (fun old => { old with
        questionSelectionCycle := cycle
        lastSelectedQuestionId := some selected.id
        recentQuestionDraws := nextQuestionDraws drawId selected.id row.recentQuestionDraws })
          world.db.installations ∧
      (after.questions.map (·.id)) = world.db.questions.map (·.id) ∧
      ∀ question, question ∈ after.questions ↔
        (question ∈ base.questions ∧ question.id ≠ selected.id) ∨ question = marked cycle selected := by
  obtain ⟨change, same, rows⟩ := ready.rows
  have ids : base.questions.map (·.id) = world.db.questions.map (·.id) := by
    rw [rows, List.map_map]
    exact List.map_congr_left fun question _ => (same question).1
  have distinct : (base.questions.map (·.id)).Nodup := ids ▸ sound.questions
  have count : (if (ticketState selected).lastSelectedCycle = some cycle
      then (ticketState selected).selectionsInCycle + 1 else 1) =
        consumed (ticketState selected) cycle + 1 := by
    unfold consumed
    split
    · rfl
    · rfl
  refine ⟨_, Prod.ext rfl ?_, ready.nextId, ?_, ?_, ?_⟩
  · simp only [record, Db.question, count]
    refine (Table.findUnique_updateMany ?_ _ _).trans ?_
    · exact fun _ => rfl
    · rw [ticketState, Table.findUnique_of_mem distinct chosen.stored]
      exact congrArg some (if_pos (decide_eq_true rfl))
  · simp only [record, ready.installations]
    rfl
  · refine (Table.map_updateMany _ ?_ _).trans ids
    exact fun _ => rfl
  · intro question
    simp only [record, count]
    exact Table.mem_updateMany_iff distinct chosen.stored question

variable {drawId}

theorem opened_record (sound : Sound era row world) {after : Db}
    (installations : after.installations = Table.updateMany (·.id = era) (fun old => { old with
      questionSelectionCycle := cycle
      lastSelectedQuestionId := some selected.id
      recentQuestionDraws := nextQuestionDraws drawId selected.id row.recentQuestionDraws })
        world.db.installations) :
    after.findActiveInstallation = some (recorded row drawId cycle selected) := by
  unfold Db.findActiveInstallation
  rw [installations, Table.latest_updateMany]
  · change (world.db.findActiveInstallation).map _ = _
    rw [sound.opened, Option.map_some, if_pos (decide_eq_true sound.own)]
    rfl
  · exact fun _ => rfl
  · exact fun _ => rfl

/-- The world after a fresh draw. -/
def drawnWorld (world : World) (db : Db) (turn : Nat) (drawId : Option String) (question : Id) :
    World :=
  { db, turn, log := world.log ++ [⟨drawId, question, true, turn⟩] }

theorem bag_drawnWorld (world : World) (db : Db) (turn : Nat) (drawId : Option String)
    (question : Id) :
    bag (drawnWorld world db turn drawId question) =
      ⟨turn, (bag world).log ++ [(turn, question)]⟩ := by
  simp [bag, drawnWorld]

/-- **A fresh draw takes a ticket from the bag**, of a question that may be drawn. -/
theorem draw_of_ready (sound : Sound era row world)
    (ready : Ready era row world cycle base turn) (chosen : Chosen era row cycle base selected)
    (db : Db) :
    Draw (Active era world.db) (weightOf world.db) selected.id (bag world)
      (bag (drawnWorld world db turn drawId selected.id)) := by
  obtain ⟨change, same, rows⟩ := ready.rows
  have held := chosen.stored
  rw [rows] at held
  obtain ⟨old, stored, changed⟩ := List.mem_map.mp held
  obtain ⟨own, filed, active, weight⟩ := same old
  rw [changed] at own filed active weight
  have pooled : Active era world.db selected.id :=
    ⟨old, stored, own.symm, filed.symm.trans chosen.filed, active.symm.trans chosen.active⟩
  have weighted : weightOf world.db selected.id = selected.weight := by
    rw [own, weightOf_mem sound stored, weight]
  have left : (bag world).drawn turn selected.id < weightOf world.db selected.id := by
    rw [weighted, ← ready.used selected chosen.stored chosen.filed]
    exact Nat.lt_of_sub_pos chosen.left
  rw [bag_drawnWorld]
  rcases ready.turn with ⟨_, rfl⟩ | ⟨_, rfl, spent⟩
  · exact .take _ pooled left
  · exact .refill _ pooled (Nat.zero_lt_of_lt left) spent

theorem drawn_snoc (log : List Served) (turn : Nat) (question : Id) :
    drawn (log ++ [⟨drawId, question, true, turn⟩]) =
      match drawId with
      | none => drawn log
      | some drawId => drawn log ++ [⟨drawId, question⟩] := by
  cases drawId with
  | none => simp [drawn]
  | some drawId => simp [drawn]

/-- A fresh draw keeps the ticket state. -/
theorem sound_record (sound : Sound era row world)
    (ready : Ready era row world cycle base turn) (chosen : Chosen era row cycle base selected)
    (guid : ∀ wanted, drawId = some wanted → isGuid wanted) {after : Db}
    (wrote : record era drawId row.recentQuestionDraws cycle (ticketState selected) base =
      (after, some (marked cycle selected))) :
    Sound era (recorded row drawId cycle selected)
      (drawnWorld world after turn drawId selected.id) := by
  obtain ⟨after', wrote', nextId, installations, ids, members⟩ :=
    record_eq drawId sound ready chosen
  obtain ⟨rfl, _⟩ := Prod.mk.inj (wrote.symm.trans wrote')
  have draw : Draw (Active era world.db) (weightOf world.db) selected.id (bag world)
      (bag (drawnWorld world after turn drawId selected.id)) := draw_of_ready sound ready chosen after
  obtain ⟨change, same, rows⟩ := ready.rows
  have back : ∀ question ∈ base.questions, ∃ old ∈ world.db.questions, old.id = question.id ∧
      old.installationId = question.installationId ∧ old.weight = question.weight := by
    intro question member
    rw [rows] at member
    obtain ⟨old, stored, rfl⟩ := List.mem_map.mp member
    exact ⟨old, stored, (same old).1.symm, (same old).2.1.symm, (same old).2.2.2.symm⟩
  have here : (bag (drawnWorld world after turn drawId selected.id)).turn = turn := rfl
  refine ⟨opened_record sound installations, sound.own, ?_, ?_, ?_, ?_, ?_, ready.counter, ?_,
    draw.current sound.current, ?_, ?_, ?_, ?_⟩
  · change (after.installations.map (·.id)).Nodup
    rw [installations, Table.map_updateMany]
    · exact sound.installations
    · exact fun _ => rfl
  · exact (congrArg List.Nodup ids).mpr sound.questions
  · intro question member
    change question.id < after.nextId
    have listed : question.id ∈ world.db.questions.map (·.id) :=
      ids ▸ List.mem_map_of_mem member
    obtain ⟨old, stored, own⟩ := List.mem_map.mp listed
    rw [nextId, ← own]
    exact sound.bound old stored
  · intro question member filed
    rcases (members question).mp member with ⟨kept, _⟩ | rfl
    · obtain ⟨old, stored, _, filed', weight⟩ := back question kept
      exact weight ▸ sound.weights old stored (filed'.trans filed)
    · obtain ⟨old, stored, _, filed', weight⟩ := back selected chosen.stored
      exact weight ▸ sound.weights old stored (filed'.trans chosen.filed)
  · intro question member filed tag tagged
    rcases (members question).mp member with ⟨kept, _⟩ | rfl
    · exact ready.tagged question kept filed tag tagged
    · cases tagged
      exact le_rfl
  · intro question member filed
    change consumed (ticketState question) cycle = _
    rw [draw.drawn_eq, here]
    change _ = (bag world).drawn turn question.id + _
    rcases (members question).mp member with ⟨kept, apart⟩ | rfl
    · rw [if_neg fun both => apart both.2.symm, Nat.add_zero]
      exact ready.used question kept filed
    · rw [if_pos ⟨rfl, rfl⟩]
      change _ = (bag world).drawn turn selected.id + 1
      rw [← ready.used selected chosen.stored chosen.filed]
      exact if_pos rfl
  · intro entry member
    have kept : ∀ question ∈ world.db.questions, question.installationId = some era →
        ∃ new ∈ after.questions, new.id = question.id ∧ new.installationId = some era := by
      intro question stored filed
      have there : change question ∈ base.questions := rows ▸ List.mem_map_of_mem stored
      by_cases own : (change question).id = selected.id
      · refine ⟨marked cycle selected, (members _).mpr (.inr rfl), ?_, chosen.filed⟩
        exact own.symm.trans (same question).1
      · exact ⟨change question, (members _).mpr (.inl ⟨there, own⟩), (same question).1,
          (same question).2.1.trans filed⟩
    rcases List.mem_append.mp member with old | new
    · obtain ⟨question, stored, own, filed⟩ := sound.known entry old
      obtain ⟨row, there, same, filed⟩ := kept question stored filed
      exact ⟨row, there, same.trans own, filed⟩
    · cases List.mem_singleton.mp new
      exact ⟨marked cycle selected, (members _).mpr (.inr rfl), rfl, chosen.filed⟩
  · simp [recorded, drawnWorld]
  · change nextQuestionDraws drawId selected.id row.recentQuestionDraws =
      Recent.recent _ _ (drawn (world.log ++ [⟨drawId, selected.id, true, turn⟩]))
    rw [sound.history, drawn_snoc]
    cases drawId with
    | none => rfl
    | some drawId => exact Recent.remember_recent _ _
  · intro entry member wanted given
    rcases List.mem_append.mp member with old | new
    · exact sound.guids entry old wanted given
    · cases List.mem_singleton.mp new
      exact guid wanted given

end Record

/-! ## One request -/

theorem guids_drawn (sound : Sound era row world) :
    questionDrawHistorySchema row.recentQuestionDraws := by
  refine List.all_eq_true.mpr fun draw member => ?_
  rw [sound.history] at member
  obtain ⟨entry, listed, given⟩ :=
    List.mem_filterMap.mp ((Recent.recent_sublist _).subset member)
  obtain ⟨wanted, id, rfl⟩ := Option.map_eq_some_iff.mp given
  exact sound.guids entry (List.mem_filter.mp listed).1 wanted id

/-- A request with a valid id is answered from the open installation. -/
theorem getRandom_eq (sound : Sound era row world) {rawDrawId : Option String}
    (valid : ∀ raw, rawDrawId = some raw → isGuid raw) (randomInt : RandomInt) :
    getRandom rawDrawId randomInt world.db =
      match replay era (rawDrawId.map String.toLower) row.recentQuestionDraws world.db with
      | some question => .ok (world.db, some question)
      | none => drawTicket era (rawDrawId.map String.toLower) randomInt row world.db := by
  have stored : row ∈ world.db.installations := (Table.latest_mem sound.opened).1
  have header : ¬ (rawDrawId.any fun raw => !questionDrawIdSchema raw) = true := by
    cases rawDrawId with
    | none => exact Bool.false_ne_true
    | some raw => simp [questionDrawIdSchema, valid raw rfl]
  have found : world.db.installation era = some row := by
    rw [← sound.own]
    exact Table.findUnique_of_mem sound.installations stored
  cases again : replay era (rawDrawId.map String.toLower) row.recentQuestionDraws world.db with
  | some question =>
    simp only [getRandom, if_neg header, sound.opened, sound.own, found,
      if_pos (guids_drawn sound), again]
  | none =>
    simp only [getRandom, if_neg header, sound.opened, sound.own, found,
      if_pos (guids_drawn sound), again]

theorem drawTicket_none {drawId : Option String} {randomInt : RandomInt}
    (nobody : ∀ question, ¬ Active era world.db question) :
    drawTicket era drawId randomInt row world.db = .ok (world.db, none) := by
  have empty : (activeQuestions era world.db).length = 0 := by
    rw [List.length_eq_zero_iff, List.eq_nil_iff_forall_not_mem]
    intro question member
    obtain ⟨stored, filed, active⟩ := mem_activeQuestions.mp member
    exact nobody question.id ⟨question, stored, rfl, filed, active⟩
  simp only [drawTicket, if_pos empty]

theorem guid_lower {request : Request} (valid : ∀ raw, request.rawDrawId = some raw → isGuid raw) :
    ∀ wanted, request.rawDrawId.map String.toLower = some wanted → isGuid wanted := by
  intro wanted given
  obtain ⟨raw, sent, rfl⟩ := Option.map_eq_some_iff.mp given
  exact isGuid_toLower (valid raw sent)

/-- What a request can do. -/
inductive Answer (era : Id) (row : Installation) (world : World) (drawId : Option String) :
    Db × Option Question → World → Prop where
  | nobody : (∀ question, ¬ Active era world.db question) →
      Answer era row world drawId (world.db, none) world
  | replayed (question : Question) :
      replay era drawId row.recentQuestionDraws world.db = some question →
      Answer era row world drawId (world.db, some question)
        { world with log := world.log ++ [⟨drawId, question.id, false, world.turn⟩] }
  | fresh (cycle turn : Nat) (base after : Db) (selected : Question) :
      replay era drawId row.recentQuestionDraws world.db = none →
      Ready era row world cycle base turn → Chosen era row cycle base selected →
      record era drawId row.recentQuestionDraws cycle (ticketState selected) base =
        (after, some (marked cycle selected)) →
      Answer era row world drawId (after, some (marked cycle selected))
        (drawnWorld world after turn drawId selected.id)

/-- **A request with a valid id is answered**, and what the world becomes. -/
theorem getRandom_answer (sound : Sound era row world) (request : Request)
    (valid : ∀ raw, request.rawDrawId = some raw → isGuid raw) :
    ∃ result after, getRandom request.rawDrawId request.randomInt world.db = .ok result ∧
      step world (.draw request) = some after ∧
        Answer era row world (request.rawDrawId.map String.toLower) result after := by
  have stepped : ∀ result, getRandom request.rawDrawId request.randomInt world.db = .ok result →
      step world (.draw request) = match result with
        | (db, none) => some { world with db }
        | (db, some question) => some (answered request world db question) := by
    intro result done
    simp only [step, done]
    rcases result with ⟨db, _ | question⟩
    · rfl
    · rfl
  have replaying : replays request.rawDrawId world.db =
      (replay era (request.rawDrawId.map String.toLower) row.recentQuestionDraws world.db).isSome := by
    simp only [replays, openRow_eq sound, Option.any_some, sound.own]
  have eq := getRandom_eq sound valid request.randomInt
  cases again : replay era (request.rawDrawId.map String.toLower) row.recentQuestionDraws world.db with
  | some question =>
    rw [again] at eq replaying
    refine ⟨_, _, eq, stepped _ eq, ?_⟩
    have same : answered request world world.db question = { world with
        log := world.log ++ [⟨request.rawDrawId.map String.toLower, question.id, false, world.turn⟩] } := by
      simp [answered, replaying]
    rw [same]
    exact .replayed question again
  | none =>
    rw [again] at eq replaying
    by_cases pool : ∃ question, Active era world.db question
    · obtain ⟨question, active⟩ := pool
      obtain ⟨cycle, base, turn, selected, ready, chosen, drew⟩ :=
        drawTicket_ok sound active (request.rawDrawId.map String.toLower) request.randomInt
      obtain ⟨after, wrote, _, installations, _⟩ :=
        record_eq (request.rawDrawId.map String.toLower) sound ready chosen
      rw [drew, wrote] at eq
      have opened : openRow after = some (recorded row _ cycle selected) :=
        openRow_eq (sound_record sound ready chosen (guid_lower valid) wrote)
      have turned : (if (openRow after).map (·.questionSelectionCycle) =
          (openRow world.db).map (·.questionSelectionCycle) then world.turn
            else world.turn + 1) = turn := by
        rw [opened, openRow_eq sound]
        rcases ready.turn with ⟨same, rfl⟩ | ⟨apart, rfl, _⟩
        · exact if_pos (congrArg some same)
        · exact if_neg fun same => apart (Option.some.inj same)
      have same : answered request world after (marked cycle selected) =
          drawnWorld world after turn (request.rawDrawId.map String.toLower) selected.id := by
        simp only [answered, drawnWorld, turned, replaying]
        rfl
      refine ⟨_, _, eq, stepped _ eq, ?_⟩
      rw [same]
      exact .fresh cycle turn base after selected again ready chosen wrote
    · have nobody : ∀ question, ¬ Active era world.db question :=
        fun question active => pool ⟨question, active⟩
      rw [drawTicket_none nobody] at eq
      exact ⟨_, _, eq, stepped _ eq, .nobody nobody⟩

/-- What a replay finds is a question of the installation, and the one its draw took. -/
theorem replay_some {drawId : Option String} {history : List QuestionDraw} {db : Db}
    {question : Question} (found : replay era drawId history db = some question) :
    question ∈ db.questions ∧ question.installationId = some era ∧
      ∃ wanted, drawId = some wanted ∧ (⟨wanted, question.id⟩ : QuestionDraw) ∈ history := by
  simp only [replay, Option.bind_eq_bind, Option.bind_eq_some_iff] at found
  obtain ⟨wanted, rfl, previousDraw, listed, stored⟩ := found
  have same : previousDraw.drawId = wanted := by simpa using List.find?_some listed
  have own : question.id = previousDraw.questionId ∧ question.installationId = some era := by
    simpa using List.find?_some stored
  refine ⟨List.mem_of_find?_eq_some stored, own.2, wanted, rfl, ?_⟩
  rw [← same, own.1]
  exact List.mem_of_find?_eq_some listed

theorem sound_replayed (sound : Sound era row world) {drawId : Option String} {question : Question}
    (guid : ∀ wanted, drawId = some wanted → isGuid wanted)
    (found : replay era drawId row.recentQuestionDraws world.db = some question) :
    Sound era row { world with log := world.log ++ [⟨drawId, question.id, false, world.turn⟩] } := by
  obtain ⟨stored, filed, _⟩ := replay_some found
  have fresh : (world.log ++ [(⟨drawId, question.id, false, world.turn⟩ : Served)]).filter (·.fresh) =
      world.log.filter (·.fresh) := by
    simp
  have same : bag { world with log := world.log ++ [⟨drawId, question.id, false, world.turn⟩] } =
      bag world := by
    simp only [bag, fresh]
  refine ⟨sound.opened, sound.own, sound.installations, sound.questions, sound.bound, sound.weights,
    sound.tagged, sound.counter, ?_, ?_, ?_, ?_, ?_, ?_⟩
  · rw [same]
    exact sound.used
  · rw [same]
    exact sound.current
  · intro entry member
    rcases List.mem_append.mp member with old | new
    · exact sound.known entry old
    · cases List.mem_singleton.mp new
      exact ⟨question, stored, rfl, filed⟩
  · rw [fresh]
    exact sound.last
  · simp only [drawn, fresh]
    exact sound.history
  · intro entry member wanted given
    rcases List.mem_append.mp member with old | new
    · exact sound.guids entry old wanted given
    · cases List.mem_singleton.mp new
      exact guid wanted given

/-- A request whose id is not one fails, and fails alone. -/
theorem step_invalid {request : Request} {raw : String} (sent : request.rawDrawId = some raw)
    (invalid : ¬ isGuid raw) : step world (.draw request) = some world := by
  have refused : getRandom request.rawDrawId request.randomInt world.db =
      .error .invalidQuestionDrawId := by
    refine if_pos ?_
    simp [sent, questionDrawIdSchema, invalid]
  simp only [step, refused]

/-- A draw does one of the three things, or fails for its id. -/
theorem step_draw (sound : Sound era row world) {request : Request} {after : World}
    (taken : step world (.draw request) = some after) :
    after = world ∨ ∃ result, (∀ raw, request.rawDrawId = some raw → isGuid raw) ∧
      getRandom request.rawDrawId request.randomInt world.db = .ok result ∧
        Answer era row world (request.rawDrawId.map String.toLower) result after := by
  by_cases valid : ∀ raw, request.rawDrawId = some raw → isGuid raw
  · obtain ⟨result, after', done, stepped, answer⟩ := getRandom_answer sound request valid
    cases taken.symm.trans stepped
    exact .inr ⟨result, valid, done, answer⟩
  · push Not at valid
    obtain ⟨raw, sent, invalid⟩ := valid
    cases taken.symm.trans (step_invalid sent (by simpa using invalid))
    exact .inl rfl

/-- **Every step keeps the ticket state.** -/
theorem sound_step (sound : Sound era row world) {action : Action} {after : World}
    (taken : step world action = some after) : ∃ row', Sound era row' after := by
  cases action with
  | draw request =>
    rcases step_draw sound taken with rfl | ⟨result, valid, _, answer⟩
    · exact ⟨row, sound⟩
    · have guid := guid_lower valid
      cases answer with
      | nobody => exact ⟨row, sound⟩
      | replayed question found => exact ⟨row, sound_replayed sound guid found⟩
      | fresh cycle turn base db selected _ ready chosen wrote =>
        exact ⟨_, sound_record sound ready chosen guid wrote⟩
  | edit change =>
    simp only [step] at taken
    split at taken
    · cases taken
      exact ⟨row, sound⟩
    · rename_i db done
      cases taken
      exact ⟨row, sound_edit sound (edit_edited done)⟩

end Steps

/-- The ticket state is right after every run. -/
theorem sound_exec {era : Id} {row : Installation} {world after : World} {actions : List Action}
    (sound : Sound era row world) (ran : Run.exec step world actions = some after) :
    ∃ row', Sound era row' after := by
  induction actions generalizing world row with
  | nil =>
    cases ran
    exact ⟨row, sound⟩
  | cons action rest ih =>
    simp only [Run.exec, Option.bind_eq_some_iff] at ran
    obtain ⟨next, taken, ran⟩ := ran
    obtain ⟨row', sound'⟩ := sound_step sound taken
    exact ih sound' ran

end BoothOperator.Questions
