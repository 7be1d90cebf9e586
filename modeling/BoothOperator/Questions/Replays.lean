import BoothOperator.Questions.Fairness

/-! A draw asked for again is answered as before, while the history still has it:
the history holds the ids that were drawn last, each with the question it drew. -/
namespace BoothOperator.Questions

open BoothOperator.Schema
open BoothOperator.Events (isGuid isHexDigit)

/-- The last draw ids of a log, each once. -/
def lastDrawIds (log : List QuestionDraw) : List String :=
  ((log.map (·.drawId)).dedup).rtake questionDrawHistoryLimit

/-- The stored history is the recent part of the fresh draws. -/
structure Recorded (world : World) (history : List QuestionDraw) : Prop where
  ids : history.map (·.drawId) = lastDrawIds (drawn world.log)
  distinct : (history.map (·.drawId)).Nodup
  bounded : history.length ≤ questionDrawHistoryLimit
  ordered : history.Sublist (drawn world.log)

theorem recorded_history {era : Id} {row : Installation} {world : World}
    (sound : Sound era row world) : Recorded world row.recentQuestionDraws := by
  rw [sound.history]
  exact ⟨Recent.keys_recent _, Recent.distinct_recent _, Recent.length_recent_le _,
    Recent.recent_sublist _⟩

/-- The question of a draw the history still has is one of the installation's. -/
theorem replay_found {era : Id} {row : Installation} {world : World} (sound : Sound era row world)
    {draw : QuestionDraw} (kept : draw ∈ row.recentQuestionDraws) :
    ∃ question, replay era (some draw.drawId) row.recentQuestionDraws world.db = some question ∧
      question.id = draw.questionId := by
  have distinct : (row.recentQuestionDraws.map (·.drawId)).Nodup := (recorded_history sound).distinct
  have listed : row.recentQuestionDraws.find? (fun entry => entry.drawId = draw.drawId) =
      some draw := by
    have found := Table.findUnique_of_mem distinct kept
    simpa only [Table.findUnique, ← Bool.beq_eq_decide_eq] using found
  have taken : draw ∈ drawn world.log := (recorded_history sound).ordered.subset kept
  obtain ⟨entry, member, given⟩ := List.mem_filterMap.mp taken
  obtain ⟨_, _, rfl⟩ := Option.map_eq_some_iff.mp given
  obtain ⟨question, stored, own, filed⟩ := sound.known entry (List.mem_filter.mp member).1
  have held : (world.db.questions.find? fun row =>
      row.id = entry.question ∧ row.installationId = some era).isSome := by
    rw [List.find?_isSome]
    exact ⟨question, stored, decide_eq_true ⟨own, filed⟩⟩
  obtain ⟨answer, found⟩ := Option.isSome_iff_exists.mp held
  have same : answer.id = entry.question ∧ answer.installationId = some era := by
    simpa using List.find?_some found
  refine ⟨answer, ?_, same.1⟩
  simp only [replay, Option.bind_eq_bind, Option.bind_some, listed, found]

/-- **A draw asked for again is answered with the question it was last drawn
for, and nothing changes**, as long as its id is among the last that were drawn;
and the history is these ids, in the order of their draws. -/
theorem draws_replay_safe {era : Id} {first start : World} (initial : Initial era first)
    {actions : List Action} (ran : Run.exec step first actions = some start) :
    (∃ row, openRow start.db = some row ∧ Recorded start row.recentQuestionDraws) ∧
      ∀ (request : Request) (raw : String), request.rawDrawId = some raw → isGuid raw →
        raw.toLower ∈ lastDrawIds (drawn start.log) →
          ∃ question, getRandom request.rawDrawId request.randomInt start.db =
              .ok (start.db, some question) ∧
            Latest.last (fun draw => draw.drawId = raw.toLower) (drawn start.log) =
              some ⟨raw.toLower, question.id⟩ := by
  obtain ⟨_, sound⟩ := sound_initial initial
  obtain ⟨row, sound⟩ := sound_exec sound ran
  refine ⟨⟨row, openRow_eq sound, recorded_history sound⟩, fun request raw sent guid recent => ?_⟩
  rw [← (recorded_history sound).ids] at recent
  obtain ⟨draw, kept, same⟩ := List.mem_map.mp recent
  obtain ⟨question, found, own⟩ := replay_found sound kept
  have valid : ∀ other, request.rawDrawId = some other → isGuid other := by
    intro other given
    cases sent.symm.trans given
    exact guid
  refine ⟨question, ?_, ?_⟩
  · rw [getRandom_eq sound valid, sent, Option.map_some, ← same, found]
  · rw [sound.history] at kept
    have last := Recent.last_of_mem_recent kept
    rw [same] at last
    rw [last, ← same, own]

/-! ## Long runs of draws on two questions -/

/-- A draw id with a number in its first two digits. -/
def drawIdOf (n : Nat) : String :=
  String.ofList (Nat.digitChar (n / 16 % 16) :: Nat.digitChar (n % 16) ::
    ['0', '0', '0', '0', '0', '0', '-', '0', '0', '0', '0', '-', '4', '0', '0', '0', '-',
     '8', '0', '0', '0', '-', '0', '0', '0', '0', '0', '0', '0', '0', '0', '0', '0', '0'])

theorem digitChar_spec {n : Nat} (small : n < 16) :
    isHexDigit (Nat.digitChar n) ∧ (Nat.digitChar n == '-') = false ∧
      (Nat.digitChar n).toLower = Nat.digitChar n := by
  have all : ∀ n < 16, isHexDigit (Nat.digitChar n) ∧ (Nat.digitChar n == '-') = false ∧
      (Nat.digitChar n).toLower = Nat.digitChar n := by decide
  exact all n small

theorem isGuid_drawIdOf (n : Nat) : isGuid (drawIdOf n) := by
  obtain ⟨hex, dash, _⟩ := digitChar_spec (Nat.mod_lt (n / 16) (by decide : 0 < 16))
  obtain ⟨hex', dash', _⟩ := digitChar_spec (Nat.mod_lt n (by decide : 0 < 16))
  refine decide_eq_true ⟨?_, ?_⟩
  · rw [drawIdOf, String.toList_ofList, List.splitOn, List.splitOnP_cons_eq_if_modifyHead,
      List.splitOnP_cons_eq_if_modifyHead, dash, dash']
    rfl
  · rw [drawIdOf, String.toList_ofList, List.all_cons, List.all_cons]
    simp only [hex, hex', or_true, decide_true, Bool.true_and]
    decide

theorem toLower_drawIdOf (n : Nat) : (drawIdOf n).toLower = drawIdOf n := by
  obtain ⟨_, _, lower⟩ := digitChar_spec (Nat.mod_lt (n / 16) (by decide : 0 < 16))
  obtain ⟨_, _, lower'⟩ := digitChar_spec (Nat.mod_lt n (by decide : 0 < 16))
  have lowered : (drawIdOf n).toLower.toList = (drawIdOf n).toList.map Char.toLower :=
    String.toList_map
  refine String.toList_injective ?_
  rw [lowered, drawIdOf, String.toList_ofList, List.map_cons, List.map_cons, lower, lower']
  rfl

def requestOf (n : Nat) : Request := ⟨some (drawIdOf n), firstTicket⟩

/-- The step of such a request, with nothing left to check. -/
def serve (era : Id) (world : World) (n : Nat) : World :=
  match openRow world.db with
  | none => world
  | some row =>
    match replay era (some (drawIdOf n)) row.recentQuestionDraws world.db with
    | some question =>
      { world with log := world.log ++ [⟨some (drawIdOf n), question.id, false, world.turn⟩] }
    | none =>
      match drawTicket era (some (drawIdOf n)) firstTicket row world.db with
      | .error _ => world
      | .ok (db, none) => { world with db }
      | .ok (db, some question) =>
        let turn :=
          if (openRow db).map (·.questionSelectionCycle) = some row.questionSelectionCycle
          then world.turn else world.turn + 1
        drawnWorld world db turn (some (drawIdOf n)) question.id

theorem step_serve {era : Id} {row : Installation} {world : World} (sound : Sound era row world)
    (n : Nat) : step world (.draw (requestOf n)) = some (serve era world n) := by
  have valid : ∀ raw, (requestOf n).rawDrawId = some raw → isGuid raw := by
    intro raw sent
    cases sent
    exact isGuid_drawIdOf n
  have eq := getRandom_eq sound valid (requestOf n).randomInt
  have lower : (requestOf n).rawDrawId.map String.toLower = some (drawIdOf n) := by
    rw [requestOf, Option.map_some, toLower_drawIdOf]
  rw [lower] at eq
  have asked : replays (requestOf n).rawDrawId world.db =
      (replay era (some (drawIdOf n)) row.recentQuestionDraws world.db).isSome := by
    simp only [replays, openRow_eq sound, Option.any_some, sound.own, lower]
  simp only [step, eq, serve, openRow_eq sound]
  cases again : replay era (some (drawIdOf n)) row.recentQuestionDraws world.db with
  | some question =>
    rw [again] at asked
    simp [answered, lower, asked]
  | none =>
    rw [again] at asked
    simp only [requestOf]
    cases drawTicket era (some (drawIdOf n)) firstTicket row world.db with
    | error _ => rfl
    | ok result =>
      rcases result with ⟨db, _ | question⟩
      · rfl
      · simp only [requestOf] at asked lower
        simp [answered, drawnWorld, lower, asked, openRow_eq sound]

theorem exec_serve {era : Id} {row : Installation} {world : World} (sound : Sound era row world)
    (ids : List Nat) :
    Run.exec step world (ids.map fun n => .draw (requestOf n)) = some (ids.foldl (serve era) world) := by
  induction ids generalizing world row with
  | nil => rfl
  | cons n rest ih =>
    obtain ⟨row', sound'⟩ := sound_step sound (step_serve sound n)
    rw [List.map_cons, Run.exec, step_serve sound n]
    exact ih sound'

def evenPair : World where
  db :=
    { installations := [{ id := 7 }]
      questions :=
        [{ id := 1, prompt := "one", status := .active, audioId := 3, installationId := some 7 },
         { id := 2, prompt := "two", status := .active, audioId := 4, installationId := some 7 }]
      nextId := 10 }

theorem initial_evenPair : Initial 7 evenPair :=
  ⟨rfl, by decide, by decide, by decide, by decide, by decide, rfl, rfl⟩

/-- The draw just made is repeated. -/
theorem draws_replay_safe_again : ∃ question,
    getRandom (some (drawIdOf 0)) firstTicket (serve 7 evenPair 0).db =
        .ok ((serve 7 evenPair 0).db, some question) ∧ question.id = 1 := by
  obtain ⟨_, sound⟩ := sound_initial initial_evenPair
  have ran : Run.exec step evenPair [.draw (requestOf 0)] = some (serve 7 evenPair 0) :=
    exec_serve sound [0]
  have recent : (drawIdOf 0).toLower ∈ lastDrawIds (drawn (serve 7 evenPair 0).log) := by
    rw [toLower_drawIdOf]
    decide +kernel
  obtain ⟨question, done, last⟩ := (draws_replay_safe initial_evenPair ran).2 (requestOf 0)
    (drawIdOf 0) rfl (isGuid_drawIdOf 0) recent
  have first : Latest.last (fun draw => draw.drawId = drawIdOf 0) (drawn (serve 7 evenPair 0).log) =
      some ⟨drawIdOf 0, 1⟩ := by decide +kernel
  rw [toLower_drawIdOf, first, Option.some.injEq, QuestionDraw.mk.injEq] at last
  exact ⟨question, done, last.2.symm⟩

/-- Draw safety as a reading of "the last draws" and of "the question it returned":
which answers count, and which of a draw's answers the next must repeat. -/
def ReplaySafe (counts : Served → Bool) (repeated : List Served → Option Served) : Prop :=
  ∀ (era : Id) (first start : World) (actions : List Action), Initial era first →
    Run.exec step first actions = some start →
      ∀ (request : Request) (raw : String), request.rawDrawId = some raw → isGuid raw →
        raw.toLower ∈ (((start.log.filter counts).filterMap (·.drawId)).dedup).rtake
            questionDrawHistoryLimit →
          ∃ question, getRandom request.rawDrawId request.randomInt start.db =
              .ok (start.db, some question) ∧
            (repeated (start.log.filter fun entry => entry.drawId = some raw.toLower)).map
              (·.question) = some question.id

/-- A safe draw logs the question it repeats. -/
theorem ReplaySafe.repeats {counts : Served → Bool} {repeated : List Served → Option Served}
    (safe : ReplaySafe counts repeated) (ids : List Nat) (n : Nat)
    (recent : drawIdOf n ∈ ((((ids.foldl (serve 7) evenPair).log.filter counts).filterMap
      (·.drawId)).dedup).rtake questionDrawHistoryLimit) :
    ((serve 7 (ids.foldl (serve 7) evenPair) n).log.getLast?).map (·.question) =
      (repeated ((ids.foldl (serve 7) evenPair).log.filter fun entry =>
        entry.drawId = some (drawIdOf n))).map (·.question) := by
  obtain ⟨_, sound⟩ := sound_initial initial_evenPair
  have ran := exec_serve sound ids
  obtain ⟨_, sound'⟩ := sound_exec sound ran
  rw [← toLower_drawIdOf n] at recent
  obtain ⟨question, done, same⟩ := safe 7 evenPair _ _ initial_evenPair ran (requestOf n) (drawIdOf n)
    rfl (isGuid_drawIdOf n) recent
  have stepped := step_serve sound' n
  simp only [step, done, Option.some.injEq] at stepped
  rw [toLower_drawIdOf] at same
  rw [same, ← stepped]
  simp [answered]


/-- What is looked at after a run: the answers to the first id, the last answer,
and the answers past the hundredth. -/
def outcome (world : World) : List Id × Option Id × List (Option String × Bool) :=
  ((world.log.filter fun entry => entry.drawId = some (drawIdOf 0)).map (·.question),
    (world.log.getLast?).map (·.question),
    (world.log.drop 100).map fun entry => (entry.drawId, entry.fresh))

/-- A draw, ninety-nine others, the first again, and one more other. -/
def crowding : List Nat := 0 :: List.range' 1 99 ++ [0, 100]

/-- The first id is then asked for twice more: it is drawn afresh, and repeated. -/
theorem crowding_outcomes : ([0, 0].scanl (serve 7) (crowding.foldl (serve 7) evenPair)).map outcome =
    [([1, 1], some 1, [(some (drawIdOf 0), false), (some (drawIdOf 100), true)]),
     ([1, 1, 2], some 2,
      [(some (drawIdOf 0), false), (some (drawIdOf 100), true), (some (drawIdOf 0), true)]),
     ([1, 1, 2, 2], some 2,
      [(some (drawIdOf 0), false), (some (drawIdOf 100), true), (some (drawIdOf 0), true),
       (some (drawIdOf 0), false)])] := by
  decide +kernel

theorem dedup_snoc (ids : List String) (id : String) :
    (ids ++ [id]).dedup = (ids.dedup.filter fun other => other ≠ id) ++ [id] := by
  have snoc : Recent.lasts (fun id : String => id) (ids ++ [id]) = _ := Recent.lasts_snoc ids id
  exact snoc

theorem mem_recent_last (ids : List String) (id : String) :
    id ∈ ((ids ++ [id]).dedup).rtake questionDrawHistoryLimit := by
  rw [dedup_snoc, questionDrawHistoryLimit, List.rtake_concat_succ]
  exact List.mem_append_right _ List.mem_cons_self

theorem mem_recent_before_last (ids : List String) {id last : String} (apart : id ≠ last) :
    id ∈ ((ids ++ [id] ++ [last]).dedup).rtake questionDrawHistoryLimit := by
  have kept : [id].filter (fun other => other ≠ last) = [id] := by simp [apart]
  rw [dedup_snoc, dedup_snoc, List.filter_append, kept, questionDrawHistoryLimit,
    List.rtake_concat_succ, List.rtake_concat_succ]
  exact List.mem_append_left _ (List.mem_append_right _ List.mem_cons_self)

/-- The ids that count in a log, from those of its end. -/
theorem ids_of_tail (counts : Bool → Bool) {log : List Served} {tail : List (Option String × Bool)}
    (ending : (log.drop 100).map (fun entry => (entry.drawId, entry.fresh)) = tail) :
    ∃ ids, (log.filter fun entry => counts entry.fresh).filterMap (·.drawId) =
      ids ++ (tail.filter fun entry => counts entry.2).filterMap (·.1) := by
  refine ⟨((log.take 100).filter fun entry => counts entry.fresh).filterMap (·.drawId), ?_⟩
  rw [← ending, List.filter_map, List.filterMap_map]
  conv_lhs => rw [← List.take_append_drop 100 log]
  rw [List.filter_append, List.filterMap_append]
  rfl

/-- **A draw that is replayed keeps its old place in the history, and one drawn
again is not answered as the first time.** A replay counts as service in the
first two readings, a fresh draw alone in the third. -/
theorem replay_safe_fails : ¬ ReplaySafe (fun _ => true) List.head? ∧
    ¬ ReplaySafe (fun _ => true) List.getLast? ∧ ¬ ReplaySafe (·.fresh) List.head? := by
  let world := crowding.foldl (serve 7) evenPair
  have next : (crowding ++ [0]).foldl (serve 7) evenPair = serve 7 world 0 := by
    rw [List.foldl_append, List.foldl_cons, List.foldl_nil]
  obtain ⟨before, during, after⟩ : outcome world = _ ∧ outcome (serve 7 world 0) = _ ∧
      outcome (serve 7 (serve 7 world 0) 0) = _ := by
    have outcomes := crowding_outcomes
    simp only [List.scanl_cons, List.scanl_nil, List.map_cons, List.map_nil, List.cons.injEq] at outcomes
    exact ⟨outcomes.1, outcomes.2.1, outcomes.2.2.1⟩
  simp only [outcome, Prod.mk.injEq] at before during after
  have apart : drawIdOf 0 ≠ drawIdOf 100 := by decide +kernel
  have crowded : drawIdOf 0 ∈ (((world.log.filter fun _ => true).filterMap (·.drawId)).dedup).rtake
      questionDrawHistoryLimit := by
    obtain ⟨ids, shape⟩ := ids_of_tail (fun _ => true) before.2.2
    rw [shape]
    have two : ids ++ [drawIdOf 0, drawIdOf 100] = ids ++ [drawIdOf 0] ++ [drawIdOf 100] := by simp
    exact two ▸ mem_recent_before_last ids apart
  refine ⟨fun safe => ?_, fun safe => ?_, fun safe => ?_⟩
  · have same := safe.repeats crowding 0 crowded
    rw [during.2.1, ← List.head?_map, before.1] at same
    cases same
  · have same := safe.repeats crowding 0 crowded
    rw [during.2.1, ← List.getLast?_map, before.1] at same
    cases same
  · have latest : drawIdOf 0 ∈ ((((serve 7 world 0).log.filter (·.fresh)).filterMap
        (·.drawId)).dedup).rtake questionDrawHistoryLimit := by
      obtain ⟨ids, shape⟩ := ids_of_tail (fun fresh => fresh) during.2.2
      rw [shape]
      have two : ids ++ [drawIdOf 100, drawIdOf 0] = ids ++ [drawIdOf 100] ++ [drawIdOf 0] := by simp
      exact two ▸ mem_recent_last _ _
    rw [← next] at latest
    have same := safe.repeats (crowding ++ [0]) 0 latest
    rw [next, after.2.1, ← List.head?_map, during.1] at same
    cases same

end BoothOperator.Questions
