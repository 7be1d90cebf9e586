import BoothOperator.Questions.Ledger

/-! The weighted draw is fair: every completed turn of the bag draws each question
as often as its weight says, whatever the random numbers are. -/
namespace BoothOperator.Questions

open BoothOperator.Schema
open BoothOperator.Events (isGuid)
open BoothOperator.TicketBag (Bag Draw Fair)

section Steps

variable {era : Id} {row : Installation} {world after : World} {drawId : Option String}
  {result : Db × Option Question}

/-! ## The pool along draws -/

theorem active_congr {db after : Db} {change : Question → Question}
    (same : ∀ question, (change question).id = question.id ∧
      (change question).installationId = question.installationId ∧
        (change question).status = question.status)
    (rows : after.questions = db.questions.map change) : Active era after = Active era db := by
  funext question
  refine propext ⟨?_, ?_⟩
  · rintro ⟨_, member, own, filed, active⟩
    rw [rows] at member
    obtain ⟨old, stored, rfl⟩ := List.mem_map.mp member
    obtain ⟨id, installationId, status⟩ := same old
    exact ⟨old, stored, id ▸ own, installationId ▸ filed, status ▸ active⟩
  · rintro ⟨old, stored, own, filed, active⟩
    obtain ⟨id, installationId, status⟩ := same old
    exact ⟨change old, rows ▸ List.mem_map_of_mem stored, id.trans own,
      installationId.trans filed, status.trans active⟩

theorem weightOf_congr {db after : Db} {change : Question → Question}
    (same : ∀ question, (change question).id = question.id ∧
      (change question).weight = question.weight)
    (rows : after.questions = db.questions.map change) : weightOf after = weightOf db := by
  funext question
  have found : after.question question = (db.question question).map change := by
    simp only [Db.question, Table.findUnique, rows, List.find?_map]
    refine congrArg (Option.map change) (congrArg (List.find? · db.questions) (funext fun old => ?_))
    simp only [Function.comp, (same old).1]
  rw [weightOf, weightOf, found, Option.map_map]
  refine congrArg (Option.getD · 0) (congrArg (Option.map · (db.question question)) ?_)
  exact funext fun old => (same old).2

/-- A draw marks a question and keeps what may be drawn and how often. -/
theorem pool_answer (answer : Answer era row world drawId result after) :
    Active era after.db = Active era world.db ∧ weightOf after.db = weightOf world.db := by
  cases answer with
  | nobody => exact ⟨rfl, rfl⟩
  | replayed => exact ⟨rfl, rfl⟩
  | fresh cycle turn base db selected _ ready chosen wrote =>
    obtain ⟨change, same, rows⟩ := ready.rows
    have based : Active era base = Active era world.db ∧ weightOf base = weightOf world.db :=
      ⟨active_congr (fun question => ⟨(same question).1, (same question).2.1, (same question).2.2.1⟩)
        rows, weightOf_congr (fun question => ⟨(same question).1, (same question).2.2.2⟩) rows⟩
    have written := (Prod.mk.inj wrote).1
    have marks : ∃ mark : Question → Question, (∀ question, (mark question).id = question.id ∧
        (mark question).installationId = question.installationId ∧
          (mark question).status = question.status ∧ (mark question).weight = question.weight) ∧
            db.questions = base.questions.map mark := by
      rw [← written]
      refine ⟨_, fun question => ?_, rfl⟩
      split
      · exact ⟨rfl, rfl, rfl, rfl⟩
      · exact ⟨rfl, rfl, rfl, rfl⟩
    obtain ⟨mark, kept, marked⟩ := marks
    rw [← based.1, ← based.2]
    exact ⟨active_congr (fun question => ⟨(kept question).1, (kept question).2.1, (kept question).2.2.1⟩)
      marked, weightOf_congr (fun question => ⟨(kept question).1, (kept question).2.2.2⟩) marked⟩

/-- What a request does to the bag: nothing, or one draw. -/
theorem bag_answer (sound : Sound era row world) (answer : Answer era row world drawId result after) :
    bag after = bag world ∨
      ∃ question, Draw (Active era world.db) (weightOf world.db) question (bag world) (bag after) := by
  cases answer with
  | nobody => exact .inl rfl
  | replayed question _ =>
    left
    simp [bag]
  | fresh cycle turn base db selected _ ready chosen _ =>
    exact .inr ⟨selected.id, draw_of_ready sound ready chosen db⟩

/-- One step draws a question over the weight it has then in no turn. -/
theorem step_drawn_le (sound : Sound era row world) {action : Action}
    (taken : step world action = some after) (turn : Nat) (question : Id) :
    (bag after).drawn turn question ≤ max ((bag world).drawn turn question)
      (if after.turn = turn then weightOf after.db question else 0) := by
  cases action with
  | edit change =>
    simp only [step] at taken
    split at taken
    · cases taken
      exact le_max_left _ _
    · cases taken
      exact le_max_left _ _
  | draw request =>
    rcases step_draw sound taken with rfl | ⟨result, _, _, answer⟩
    · exact le_max_left _ _
    · rw [(pool_answer answer).2]
      rcases bag_answer sound answer with same | ⟨drawn, draw⟩
      · rw [same]
        exact le_max_left _ _
      · exact draw.drawn_le_max sound.current turn question

/-- Two draws in a row of one question: nothing else had a ticket of the turn left. -/
def RepeatsAlone (era : Id) (before after : World) : Prop :=
  ∀ first second, (before.log.filter (·.fresh)).getLast? = some first →
    after.log = before.log ++ [second] → second.fresh → second.question = first.question →
      ∀ other, Active era before.db other → other ≠ second.question →
        weightOf before.db other ≤ (bag before).drawn second.turn other

theorem step_repeatsAlone (sound : Sound era row world) {request : Request}
    (taken : step world (.draw request) = some after) : RepeatsAlone era world after := by
  intro first second previous logged fresh same other pooled apart
  rcases step_draw sound taken with rfl | ⟨result, _, _, answer⟩
  · exact absurd (congrArg List.length logged) (by simp)
  cases answer with
  | nobody => exact absurd (congrArg List.length logged) (by simp)
  | replayed question _ =>
    cases List.append_cancel_left logged
    cases fresh
  | fresh cycle turn base db selected _ ready chosen _ =>
    cases List.append_cancel_left logged
    have last : some selected.id = row.lastSelectedQuestionId := by
      rw [sound.last, previous, Option.map_some]
      exact congrArg some same
    obtain ⟨change, kept, rows⟩ := ready.rows
    obtain ⟨stored, there, rfl, filed, active⟩ := pooled
    obtain ⟨own, filed', active', weight⟩ := kept stored
    have based : change stored ∈ base.questions := rows ▸ List.mem_map_of_mem there
    have used := ready.used (change stored) based (filed'.trans filed)
    by_contra left
    rw [weightOf_mem sound there, not_le] at left
    have tickets : 0 < remainingTickets (ticketState (change stored)) cycle := by
      rw [remainingTickets, used, own]
      exact Nat.sub_pos_of_lt (left.trans_eq weight.symm)
    have twin := chosen.again last (change stored) based (filed'.trans filed)
      (active'.trans active) tickets
    rw [← last] at twin
    exact apart (own.symm.trans (Option.some.inj twin))

end Steps

/-! ## Runs -/

/-- The largest weight a question has in the states of a turn. -/
def largestWeight (turn : Nat) (question : Id) (states : List World) : Nat :=
  ((states.filter (·.turn = turn)).map fun met => weightOf met.db question).foldr max 0

theorem largestWeight_cons (turn : Nat) (question : Id) (world : World) (states : List World) :
    largestWeight turn question (world :: states) =
      max (if world.turn = turn then weightOf world.db question else 0)
        (largestWeight turn question states) := by
  by_cases here : world.turn = turn
  · simp [largestWeight, here]
  · simp [largestWeight, here]

theorem le_largestWeight_trace (turn : Nat) (question : Id) (world : World) (actions : List Action) :
    (if world.turn = turn then weightOf world.db question else 0) ≤
      largestWeight turn question (Run.trace step world actions) := by
  cases actions with
  | nil =>
    rw [Run.trace, largestWeight_cons]
    exact le_max_left _ _
  | cons action rest =>
    rw [Run.trace, largestWeight_cons]
    exact le_max_left _ _

/-- No question is drawn in a turn more often than the largest weight it has in it. -/
theorem exec_drawn_le {era : Id} {row : Installation} {world after : World} {actions : List Action}
    (sound : Sound era row world) (ran : Run.exec step world actions = some after)
    (turn : Nat) (question : Id) :
    (bag after).drawn turn question ≤ max ((bag world).drawn turn question)
      (largestWeight turn question (Run.trace step world actions)) := by
  induction actions generalizing world row with
  | nil =>
    cases ran
    exact le_max_left _ _
  | cons action rest ih =>
    simp only [Run.exec, Option.bind_eq_some_iff] at ran
    obtain ⟨next, taken, ran⟩ := ran
    obtain ⟨row', sound'⟩ := sound_step sound taken
    simp only [Run.trace, taken, largestWeight_cons]
    refine (ih sound' ran).trans (max_le ?_ ?_)
    · refine (step_drawn_le sound taken turn question).trans (max_le (le_max_left _ _) ?_)
      exact (le_largestWeight_trace turn question next rest).trans
        ((le_max_right _ _).trans (le_max_right _ _))
    · exact (le_max_right _ _).trans (le_max_right _ _)

/-- Draws alone are draws from one pool with one weight. -/
theorem exec_fair {era : Id} {row : Installation} {start world after : World}
    {requests : List Request} (sound : Sound era row world)
    (pool : Active era world.db = Active era start.db) (weights : weightOf world.db = weightOf start.db)
    (fair : Fair (Active era start.db) (weightOf start.db) (bag start) (bag world))
    (ran : Run.exec step world (requests.map .draw) = some after) :
    Fair (Active era start.db) (weightOf start.db) (bag start) (bag after) := by
  induction requests generalizing world row with
  | nil =>
    cases ran
    exact fair
  | cons request rest ih =>
    simp only [List.map_cons, Run.exec, Option.bind_eq_some_iff] at ran
    obtain ⟨next, taken, ran⟩ := ran
    obtain ⟨row', sound'⟩ := sound_step sound taken
    rcases step_draw sound taken with rfl | ⟨result, _, _, answer⟩
    · exact ih sound' pool weights fair ran
    · obtain ⟨pool', weights'⟩ := pool_answer answer
      refine ih sound' (pool'.trans pool) (weights'.trans weights) ?_ ran
      rcases bag_answer sound answer with same | ⟨question, draw⟩
      · exact same ▸ fair
      · rw [pool, weights] at draw
        exact fair.draw sound.current draw

/-- What draws from a pool that stays come to: a turn completed among them has
drawn every question as often as its weight, the turn they began in has drawn
what it had left, and no turn more than that. -/
structure FairDraws (era : Id) (start after : World) : Prop where
  completed : ∀ turn question, Active era start.db question → start.turn < turn →
    turn < after.turn → (bag after).drawn turn question = weightOf start.db question
  resumed : ∀ question, Active era start.db question → start.turn < after.turn →
    (bag after).drawn start.turn question =
      max (weightOf start.db question) ((bag start).drawn start.turn question)
  partway : ∀ turn question, Active era start.db question →
    (bag after).drawn turn question ≤
      max (weightOf start.db question) ((bag start).drawn turn question)

theorem fairDraws {era : Id} {row : Installation} {start after : World} {requests : List Request}
    (sound : Sound era row start)
    (ran : Run.exec step start (requests.map .draw) = some after) : FairDraws era start after := by
  have fair := exec_fair sound rfl rfl (TicketBag.fair_start (bag start)) ran
  obtain ⟨row', sound'⟩ := sound_exec sound ran
  refine ⟨?_, ?_, ?_⟩
  · intro turn question pooled later done
    have fresh : (bag start).drawn turn question = 0 := sound.current turn question later
    rw [fair.completed turn question pooled later.le done, fresh]
    exact max_eq_left (Nat.zero_le _)
  · intro question pooled done
    exact fair.completed start.turn question pooled le_rfl done
  · intro turn question pooled
    rcases Nat.lt_trichotomy turn after.turn with before | rfl | later
    · rcases Nat.lt_or_ge turn start.turn with past | since
      · rw [fair.past turn question past]
        exact le_max_right _ _
      · exact (fair.completed turn question pooled since before).le
    · exact fair.partway question pooled
    · rw [sound'.current turn question later]
      exact Nat.zero_le _

/-- What every state shows about the bag: no throw of the selection, and tickets
marked with the cycle are tickets taken in the turn. -/
structure Healthy (era : Id) (world : World) : Prop where
  quiet : ∀ (request : Request) error, getRandom request.rawDrawId request.randomInt world.db = .error error →
    error = .invalidQuestionDrawId
  served : (∃ question, Active era world.db question) → ∀ request : Request,
    (∀ raw, request.rawDrawId = some raw → isGuid raw) →
      ∃ db question, getRandom request.rawDrawId request.randomInt world.db = .ok (db, some question)
  current : ∀ row, openRow world.db = some row → ∀ question ∈ world.db.questions,
    question.installationId = some era →
      consumed (ticketState question) row.questionSelectionCycle =
        (bag world).drawn world.turn question.id

theorem healthy {era : Id} {row : Installation} {world : World} (sound : Sound era row world) :
    Healthy era world := by
  refine ⟨?_, ?_, ?_⟩
  · intro request error failed
    by_cases valid : ∀ raw, request.rawDrawId = some raw → isGuid raw
    · obtain ⟨result, _, done, _⟩ := getRandom_answer sound request valid
      cases done.symm.trans failed
    · push Not at valid
      obtain ⟨raw, sent, invalid⟩ := valid
      have refused : getRandom request.rawDrawId request.randomInt world.db =
          .error .invalidQuestionDrawId := by
        refine if_pos ?_
        simp [sent, questionDrawIdSchema, invalid]
      cases refused.symm.trans failed
      rfl
  · intro pool request valid
    obtain ⟨result, after, done, _, answer⟩ := getRandom_answer sound request valid
    cases answer with
    | nobody nobody =>
      obtain ⟨question, pooled⟩ := pool
      exact absurd pooled (nobody question)
    | replayed question _ => exact ⟨_, question, done⟩
    | fresh cycle turn base db selected _ _ _ _ => exact ⟨db, _, done⟩
  · intro opened same question stored filed
    cases same.symm.trans (openRow_eq sound)
    exact sound.used question stored filed

theorem along_repeatsAlone {era : Id} {row : Installation} {world : World} (requests : List Request)
    (sound : Sound era row world) :
    Run.Along step (fun before _ after => RepeatsAlone era before after) world
      (requests.map .draw) := by
  induction requests generalizing world row with
  | nil => trivial
  | cons request rest ih =>
    intro after taken
    obtain ⟨row', sound'⟩ := sound_step sound taken
    exact ⟨step_repeatsAlone sound taken, ih sound'⟩

theorem step_total (world : World) (action : Action) : ∃ after, step world action = some after := by
  cases action with
  | draw request =>
    simp only [step]
    split
    · exact ⟨_, rfl⟩
    · exact ⟨_, rfl⟩
    · exact ⟨_, rfl⟩
  | edit change =>
    simp only [step]
    split
    · exact ⟨_, rfl⟩
    · exact ⟨_, rfl⟩

theorem exec_total (world : World) (actions : List Action) :
    ∃ after, Run.exec step world actions = some after := by
  induction actions generalizing world with
  | nil => exact ⟨world, rfl⟩
  | cons action rest ih =>
    obtain ⟨next, taken⟩ := step_total world action
    obtain ⟨after, ran⟩ := ih next
    exact ⟨after, Option.bind_eq_some_iff.mpr ⟨next, taken, ran⟩⟩

/-- **The ticket bag is fair.** In whatever state draws and changes by the
operator have led to, nothing throws, tickets of another turn do not count, and
no question has been drawn in a turn more often than the largest weight it had
in it; and any draws from there, with no changes between, draw every question of
the pool as often as its weight in each turn they complete, and one twice in a
row only when it alone has tickets left. -/
theorem ticket_bag_fair {era : Id} {first start : World} (initial : Initial era first)
    {actions : List Action} (ran : Run.exec step first actions = some start) :
    Healthy era start ∧
      (∀ turn question, (bag start).drawn turn question ≤
        largestWeight turn question (Run.trace step first actions)) ∧
      ∀ requests : List Request,
        Run.Along step (fun before _ after => RepeatsAlone era before after) start
          (requests.map .draw) ∧
        ∃ after, Run.exec step start (requests.map .draw) = some after ∧
          FairDraws era start after := by
  obtain ⟨row, sound⟩ := sound_initial initial
  obtain ⟨row', sound'⟩ := sound_exec sound ran
  refine ⟨healthy sound', fun turn question => ?_, fun requests =>
    ⟨along_repeatsAlone requests sound', ?_⟩⟩
  · have none : (bag first).drawn turn question = 0 := by
      simp [bag, initial.log, Bag.drawn]
    have most := exec_drawn_le sound ran turn question
    rwa [none, max_eq_right (Nat.zero_le _)] at most
  · obtain ⟨after, ran'⟩ := exec_total start (requests.map .draw)
    exact ⟨after, ran', fairDraws sound' ran'⟩

/-- A random source that always takes the first ticket. -/
def firstTicket : RandomInt where
  pick _ := 0
  bound _ positive := positive

def pairOfQuestions : World where
  db :=
    { installations := [{ id := 7 }]
      questions :=
        [{ id := 1, prompt := "one", status := .active, audioId := 3, weight := 2,
           installationId := some 7 },
         { id := 2, prompt := "two", status := .active, audioId := 4, installationId := some 7 }]
      nextId := 10 }

theorem initial_pairOfQuestions : Initial 7 pairOfQuestions :=
  ⟨rfl, by decide, by decide, by decide, by decide, by decide, rfl, rfl⟩

/-- Seven draws complete two turns of three tickets. -/
theorem ticket_bag_fair_pair : ∃ after,
    Run.exec step pairOfQuestions (List.replicate 7 (.draw ⟨none, firstTicket⟩)) = some after ∧
      (bag after).drawn 1 1 = 2 ∧ (bag after).drawn 1 2 = 1 := by
  have start : Run.exec step pairOfQuestions [] = some pairOfQuestions := rfl
  obtain ⟨after, ran, fair⟩ :=
    ((ticket_bag_fair initial_pairOfQuestions start).2.2 (List.replicate 7 ⟨none, firstTicket⟩)).2
  have turns : (Run.exec step pairOfQuestions
      (List.replicate 7 (.draw ⟨none, firstTicket⟩))).map (·.turn) = some 2 := by
    decide +kernel
  have requests : (List.replicate 7 (⟨none, firstTicket⟩ : Request)).map Action.draw =
      List.replicate 7 (.draw ⟨none, firstTicket⟩) := rfl
  rw [requests] at ran
  rw [ran, Option.map_some, Option.some.injEq] at turns
  have later : 1 < after.turn := turns ▸ Nat.one_lt_two
  have one : Active 7 pairOfQuestions.db 1 := ⟨_, List.mem_cons_self, rfl, rfl, rfl⟩
  have two : Active 7 pairOfQuestions.db 2 :=
    ⟨_, List.mem_cons_of_mem _ List.mem_cons_self, rfl, rfl, rfl⟩
  exact ⟨after, ran, fair.completed 1 1 one Nat.zero_lt_one later,
    fair.completed 1 2 two Nat.zero_lt_one later⟩

end BoothOperator.Questions
