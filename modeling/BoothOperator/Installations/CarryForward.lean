import BoothOperator.Installations.EraLock
import BoothOperator.Questions.Draws

/-! The questions that an era takes over from the one before. What was live when
that one ended is told by the time of its end on the rows that the close-out
retired, and no request changes the rows of an era that has ended. -/
namespace BoothOperator.Installations

open BoothOperator.Schema
open BoothOperator.Run
open BoothOperator.Installations.EraLock (Tabled eras openEras)

def questionsOf (era : Id) (db : Db) : List Question :=
  db.questions.filter fun row => row.installationId = some era

/-- The questions of an era that are in rotation or in draft. -/
def liveQuestions (era : Id) (db : Db) : List Question :=
  (questionsOf era db).filter fun row => row.status = .draft ∨ row.status = .active

/-- A row that carries a question over: a draft as a draft, any other as live, and
none of its tickets used. -/
structure CarriesOver (question row : Question) : Prop where
  prompt : row.prompt = question.prompt
  audioId : row.audioId = question.audioId
  weight : row.weight = question.weight
  status : row.status = if question.status = .draft then .draft else .active
  retiredAt : row.retiredAt = none
  lastSelectedCycle : row.lastSelectedCycle = none
  selectionsInCycle : row.selectionsInCycle = 0

/-- The questions of the era are the live ones, one for one. -/
structure CarriedOver (live : List Question) (era : Id) (after : Db) : Prop where
  oneForOne : List.Forall₂ CarriesOver live (questionsOf era after)
  prompts : ((questionsOf era after).map (·.prompt)).Nodup
  recordings : ((questionsOf era after).map (·.audioId)).Nodup

/-- The keys and references of the two tables. -/
structure Tables (db : Db) : Prop where
  tabled : Tabled db
  questionIds : (db.questions.map (·.id)).Nodup
  used : ∀ row ∈ db.questions, row.id < db.nextId
  filed : ∀ row ∈ db.questions, ∀ era, row.installationId = some era → era < db.nextId

/-- `@@unique([installationId, prompt])` and `@@unique([installationId, audioId])`. -/
structure Unique (db : Db) : Prop where
  prompts : ∀ era, ((questionsOf era db).map (·.prompt)).Nodup
  recordings : ∀ era, ((questionsOf era db).map (·.audioId)).Nodup

/-- No question of the era was retired by hand at the very time of its end. -/
def NoneRetiredAt (era : Id) (endedAt : Time) (db : Db) : Prop :=
  ∀ row ∈ questionsOf era db, row.status = .archived → row.retiredAt ≠ some endedAt

/-- A write that leaves the questions alone, and when eras start and end. -/
structure Elsewhere where
  run : Db → Db
  keeps : ∀ db, (run db).questions = db.questions ∧ eras (run db) = eras db ∧
    db.nextId ≤ (run db).nextId

inductive Request where
  | edit (change : Questions.Edit)
  | draw (rawDrawId : Option String) (randomInt : Questions.RandomInt)
  | start (data : Installation) (copyQuestions : Bool) (now : Time) (startedById : Option String)
  | finish (id : Id) (now : Time) (endedById : Option String)
  | purge (id : Id)
  | other (write : Elsewhere)

/-- A request that is refused leaves everything as it was. -/
def step (db : Db) : Request → Option Db
  | .edit change =>
    match change.apply db with
    | .error _ => some db
    | .ok after => some after
  | .draw rawDrawId randomInt =>
    match Questions.getRandom rawDrawId randomInt db with
    | .error _ => some db
    | .ok (after, _) => some after
  | .start data copyQuestions now startedById =>
    some (startInstallation data copyQuestions now startedById db)
  | .finish id now endedById => some ((endInstallation id now endedById db).getD db)
  | .purge id =>
    if (db.installation id).any fun era => era.endedAt ≠ none then some (Purges.deleteEra id db)
    else some db
  | .other write => some (write.run db)

/-! ## What a request does to the eras that have ended -/

/-- The tables stay sound, and an era that had ended is deleted or stays as it was. -/
structure Spares (db after : Db) : Prop where
  tables : Tables after
  nextId : db.nextId ≤ after.nextId
  ended : ∀ row ∈ after.installations, row.id < db.nextId →
    ∃ old ∈ db.installations, old.id = row.id ∧ (old.endedAt ≠ none →
      row.endedAt = old.endedAt ∧ questionsOf row.id after = questionsOf row.id db)

section Spares

variable {db after : Db}

theorem Spares.refl (tables : Tables db) : Spares db db :=
  ⟨tables, Nat.le_refl _, fun row stored _ => ⟨row, stored, rfl, fun _ => ⟨rfl, rfl⟩⟩⟩

theorem Spares.trans {middle : Db} (first : Spares db middle) (second : Spares middle after) :
    Spares db after := by
  refine ⟨second.tables, Nat.le_trans first.nextId second.nextId, ?_⟩
  intro row stored old
  obtain ⟨between, there, named, kept⟩ :=
    second.ended row stored (Nat.lt_of_lt_of_le old first.nextId)
  obtain ⟨early, here, named', kept'⟩ := first.ended between there (named ▸ old)
  refine ⟨early, here, named'.trans named, ?_⟩
  intro closed
  obtain ⟨same, rows⟩ := kept' closed
  obtain ⟨same', rows'⟩ := kept (same ▸ closed)
  rw [named] at rows
  exact ⟨same'.trans same, rows'.trans rows⟩

/-- A request that starts and ends no era, and whose questions are those of open eras. -/
theorem Spares.of_eras (tables : Tables after) (same : eras after = eras db)
    (nextId : db.nextId ≤ after.nextId)
    (rows : ∀ era, era ∉ openEras db → questionsOf era after = questionsOf era db)
    (before : Tabled db) : Spares db after := by
  refine ⟨tables, nextId, ?_⟩
  intro row stored _
  have known : (row.id, row.startedAt, row.endedAt) ∈ eras db :=
    same ▸ List.mem_map.mpr ⟨row, stored, rfl⟩
  obtain ⟨old, there, columns⟩ := List.mem_map.mp known
  simp only [Prod.mk.injEq] at columns
  refine ⟨old, there, columns.1, ?_⟩
  intro closed
  refine ⟨columns.2.2.symm, rows row.id ?_⟩
  intro running
  obtain ⟨other, stored', runs, named⟩ := EraLock.mem_openEras.mp running
  have one := Table.eq_of_key_eq before.ids stored' there (named.trans columns.1.symm)
  exact closed (one ▸ runs)

theorem questionsOf_mem {era : Id} {row : Question} :
    row ∈ questionsOf era db ↔ row ∈ db.questions ∧ row.installationId = some era := by
  simp [questionsOf]

/-- An update that finds no question of the era. -/
theorem questionsOf_update {found : Question → Bool} {change : Question → Question}
    (kept : ∀ row, (change row).installationId = row.installationId) {era : Id}
    (spared : ∀ row ∈ questionsOf era db, ¬ found row = true) :
    questionsOf era { db with questions := Table.updateMany found change db.questions } =
      questionsOf era db := by
  unfold questionsOf at *
  rw [Table.filter_updateMany (by intro row; rw [kept row])]
  apply Table.updateMany_of_none
  intro row member
  rw [← Bool.not_eq_true]
  exact spared row member

/-- An update of questions that open eras have, or none. -/
theorem spares_update (tables : Tables db) {found : Question → Bool} {change : Question → Question}
    (kept : ∀ row, (change row).id = row.id ∧ (change row).installationId = row.installationId)
    (open' : ∀ row ∈ db.questions, found row = true → ∀ era, row.installationId = some era →
      era ∈ openEras db) :
    Spares db { db with questions := Table.updateMany found change db.questions } := by
  have stored : ∀ row ∈ Table.updateMany found change db.questions, ∃ old ∈ db.questions,
      old.id = row.id ∧ old.installationId = row.installationId := by
    intro row member
    obtain ⟨old, there, rfl⟩ := Table.mem_updateMany.mp member
    refine ⟨old, there, ?_⟩
    by_cases matched : found old = true
    · rw [if_pos matched]
      exact ⟨(kept old).1.symm, (kept old).2.symm⟩
    · rw [if_neg matched]
      exact ⟨rfl, rfl⟩
  refine Spares.of_eras ?_ rfl (Nat.le_refl _) ?_ tables.tabled
  · refine ⟨tables.tabled.of_eras rfl (Nat.le_refl _), ?_, ?_, ?_⟩
    · simp only
      rw [Table.map_updateMany (fun row : Question => row.id) (fun row => (kept row).1)]
      exact tables.questionIds
    · intro row member
      obtain ⟨old, there, named, -⟩ := stored row member
      exact named ▸ tables.used old there
    · intro row member era its
      obtain ⟨old, there, -, filed⟩ := stored row member
      exact tables.filed old there era (filed.trans its)
  · intro era closed
    apply questionsOf_update fun row => (kept row).2
    intro row member matched
    obtain ⟨there, its⟩ := questionsOf_mem.mp member
    exact closed (open' row there matched era its)

/-- A new question of an open era. -/
theorem spares_insert (tables : Tables db) {row : Question} {era : Id} (named : row.id = db.nextId)
    (its : row.installationId = some era) (running : era ∈ openEras db) :
    Spares db { db with questions := db.questions ++ [row], nextId := db.nextId + 1 } := by
  obtain ⟨open', inside, -, rfl⟩ := EraLock.mem_openEras.mp running
  refine Spares.of_eras ?_ rfl (Nat.le_succ _) ?_ tables.tabled
  · refine ⟨tables.tabled.of_eras rfl (Nat.le_succ _), ?_, ?_, ?_⟩
    · rw [List.map_append, List.map_singleton, named]
      exact Table.nodup_append_fresh tables.questionIds tables.used
    · intro other member
      rcases List.mem_append.mp member with old | new
      · exact Nat.lt_succ_of_lt (tables.used other old)
      · rw [List.mem_singleton.mp new, named]
        exact Nat.lt_succ_self _
    · intro other member era its'
      rcases List.mem_append.mp member with old | new
      · exact Nat.lt_succ_of_lt (tables.filed other old era its')
      · rw [List.mem_singleton.mp new, its] at its'
        cases its'
        exact Nat.lt_succ_of_lt (tables.tabled.used open' inside)
  · intro era closed
    have apart : open'.id ≠ era := fun same => closed (same ▸ running)
    simp [questionsOf, List.filter_append, its, apart]

/-! ## The requests -/

theorem spares_withOpenEra (tables : Tables db) {question : Question} {id : Id}
    (there : db.question id = some question) {write : Db → Except Questions.EditError Db}
    (done : Questions.withOpenEra question.installationId write db = .ok after) :
    write db = .ok after ∧ ∀ row ∈ db.questions, row.id = id → ∀ era,
      row.installationId = some era → era ∈ openEras db := by
  unfold Questions.withOpenEra at done
  split at done
  · cases done
  · rename_i unlocked
    refine ⟨done, ?_⟩
    intro row member named era its
    obtain ⟨stored, named'⟩ := Table.findUnique_mem there
    have one := Table.eq_of_key_eq tables.questionIds member stored (named.trans named'.symm)
    rw [← one, its, Option.any_some, Bool.not_eq_true, Bool.not_eq_false'] at unlocked
    exact (EraLock.lock_iff tables.tabled.ids).mp unlocked

theorem spares_setStatus (tables : Tables db) {question : Question} {id : Id}
    (there : db.question id = some question) {status : QuestionStatus} {retiredAt : Option Time}
    (done : Questions.setStatus id status retiredAt question db = .ok after) : Spares db after := by
  obtain ⟨wrote, running⟩ := spares_withOpenEra tables there done
  cases wrote
  apply spares_update tables
  · exact fun _ => ⟨rfl, rfl⟩
  · intro row member matched
    exact running row member (of_decide_eq_true matched)

theorem openEras_active {active : Installation} (found : db.findActiveInstallation = some active) :
    active.id ∈ openEras db := by
  apply EraLock.openEra_mem
  rw [openEra, found]
  rfl

theorem spares_edit (tables : Tables db) {change : Questions.Edit}
    (done : change.apply db = .ok after) : Spares db after := by
  cases change with
  | post now body =>
    simp only [Questions.Edit.apply, Questions.postQuestion] at done
    split at done
    · cases done
    · split at done
      · cases done
      · rename_i active found
        split at done
        · cases done
        · cases done
          exact spares_insert tables rfl rfl (openEras_active found)
  | patch id body =>
    simp only [Questions.Edit.apply, Questions.patch] at done
    split at done
    · cases done
    · rename_i question there
      split at done
      · cases done
      · obtain ⟨wrote, running⟩ := spares_withOpenEra tables there done
        split at wrote
        · cases wrote
        · cases wrote
          apply spares_update tables
          · exact fun _ => ⟨rfl, rfl⟩
          · intro row member matched
            exact running row member (of_decide_eq_true matched).1
  | activate id =>
    simp only [Questions.Edit.apply, Questions.activate] at done
    split at done
    · cases done
    · rename_i question there
      exact spares_setStatus tables there done
  | deactivate id =>
    simp only [Questions.Edit.apply, Questions.deactivate] at done
    split at done
    · cases done
    · rename_i question there
      exact spares_setStatus tables there done
  | archive id now =>
    simp only [Questions.Edit.apply, Questions.archive] at done
    split at done
    · cases done
    · rename_i question there
      split at done
      · cases done
      · exact spares_setStatus tables there done

/-- The writes of a draw, for a question of the era. -/
theorem spares_record (tables : Tables db) {era : Id} (running : era ∈ openEras db)
    {drawId : Option String} {history : List QuestionDraw} {cycle : Nat}
    {selected : Questions.QuestionTicketState}
    (active : ∃ question ∈ questionsOf era db, question.id = selected.id) :
    Spares db (Questions.record era drawId history cycle selected db).1 := by
  obtain ⟨question, there, named⟩ := active
  obtain ⟨stored, its⟩ := questionsOf_mem.mp there
  have marked := @spares_update db tables (·.id = selected.id)
    (fun row => { row with
      lastSelectedCycle := some cycle
      selectionsInCycle :=
        if selected.lastSelectedCycle = some cycle then selected.selectionsInCycle + 1 else 1 })
    (fun _ => ⟨rfl, rfl⟩) (by
      intro row member matched other filed
      have one := Table.eq_of_key_eq tables.questionIds member stored
        ((of_decide_eq_true matched).trans named.symm)
      rw [one, its] at filed
      cases filed
      exact running)
  have same : eras (Questions.record era drawId history cycle selected db).1 = eras db := by
    apply Table.map_updateMany
    exact fun _ => rfl
  apply marked.trans
  refine Spares.of_eras ⟨tables.tabled.of_eras same (Nat.le_refl _), marked.tables.questionIds,
    marked.tables.used, marked.tables.filed⟩ same (Nat.le_refl _) ?_ marked.tables.tabled
  exact fun _ _ => rfl

/-- The bag is filled again with the same questions. -/
theorem spares_refill (tables : Tables db) {era : Id} (running : era ∈ openEras db) (cycle : Nat)
    (questions : List Questions.QuestionTicketState) :
    Spares db (Questions.refill era cycle questions db).2.2 ∧
      era ∈ openEras (Questions.refill era cycle questions db).2.2 ∧
      (∀ question ∈ (Questions.refill era cycle questions db).2.1,
        ∃ other ∈ questions, other.id = question.id) ∧
      ∀ question ∈ questionsOf era db, ∃ other ∈
        questionsOf era (Questions.refill era cycle questions db).2.2, other.id = question.id := by
  unfold Questions.refill
  split
  · refine ⟨?_, running, ?_, ?_⟩
    · apply spares_update tables
      · exact fun _ => ⟨rfl, rfl⟩
      · intro row _ matched other filed
        have its := of_decide_eq_true matched
        rw [its] at filed
        cases filed
        exact running
    · intro question member
      obtain ⟨other, there, rfl⟩ := List.mem_map.mp member
      exact ⟨other, there, rfl⟩
    · intro question member
      obtain ⟨stored, its⟩ := questionsOf_mem.mp member
      refine ⟨{ question with lastSelectedCycle := none, selectionsInCycle := 0 },
        questionsOf_mem.mpr ⟨Table.mem_updateMany.mpr ⟨question, stored, ?_⟩, its⟩, rfl⟩
      rw [if_pos (decide_eq_true its)]
  · exact ⟨Spares.refl tables, running, fun question member => ⟨question, member, rfl⟩,
      fun question member => ⟨question, member, rfl⟩⟩

theorem spares_drawTicket (tables : Tables db) {era : Id} (running : era ∈ openEras db)
    {drawId : Option String} {randomInt : Questions.RandomInt} {installation : Installation}
    {answer : Option Question}
    (drawn : Questions.drawTicket era drawId randomInt installation db = .ok (after, answer)) :
    Spares db after := by
  have active {question : Questions.QuestionTicketState}
      (member : question ∈ (Questions.activeQuestions era db).map Questions.ticketState) :
      ∃ other ∈ questionsOf era db, other.id = question.id := by
    obtain ⟨other, there, rfl⟩ := List.mem_map.mp member
    have stored := (List.perm_insertionSort _ _).mem_iff.mp there
    obtain ⟨inside, its⟩ := List.mem_filter.mp stored
    exact ⟨other, questionsOf_mem.mpr ⟨inside, (of_decide_eq_true its).1⟩, rfl⟩
  unfold Questions.drawTicket at drawn
  simp only at drawn
  split at drawn
  · cases drawn
    exact Spares.refl tables
  · split at drawn
    · cases drawn
    · rcases Questions.drawQuestion_cases ((Questions.activeQuestions era db).map Questions.ticketState)
          installation.questionSelectionCycle installation.lastSelectedQuestionId randomInt with
        ⟨empty, -⟩ | ⟨selected, member, taken, -⟩
      · obtain ⟨filled, still, sources, kept⟩ := spares_refill tables running
          installation.questionSelectionCycle
          ((Questions.activeQuestions era db).map Questions.ticketState)
        simp only [empty] at drawn
        rcases Questions.drawQuestion_cases (Questions.refill era installation.questionSelectionCycle
            ((Questions.activeQuestions era db).map Questions.ticketState) db).2.1
            (Questions.refill era installation.questionSelectionCycle
            ((Questions.activeQuestions era db).map Questions.ticketState) db).1
            installation.lastSelectedQuestionId randomInt with
          ⟨empty', -⟩ | ⟨selected, member, taken, -⟩
        · simp only [empty'] at drawn
          cases drawn
        · simp only [taken] at drawn
          cases drawn
          apply filled.trans
          apply spares_record filled.tables still
          obtain ⟨source, inside, named⟩ := sources selected member
          obtain ⟨question, there, named'⟩ := active inside
          obtain ⟨question', there', named''⟩ := kept question there
          exact ⟨question', there', named''.trans (named'.trans named)⟩
      · simp only [taken] at drawn
        cases drawn
        exact spares_record tables running (active member)

theorem spares_draw (tables : Tables db) {rawDrawId : Option String}
    {randomInt : Questions.RandomInt} {answer : Option Question}
    (drawn : Questions.getRandom rawDrawId randomInt db = .ok (after, answer)) : Spares db after := by
  unfold Questions.getRandom at drawn
  split at drawn
  · cases drawn
  · simp only at drawn
    split at drawn
    · cases drawn
    · rename_i locked found
      split at drawn
      · cases drawn
      · split at drawn
        · split at drawn
          · cases drawn
            exact Spares.refl tables
          · exact spares_drawTicket tables (openEras_active found) drawn
        · cases drawn

/-- The row of an era with what its end leaves on it. -/
def endedRow (endedAt : Time) (endedById : Option String) (row : Installation) : Installation :=
  { row with endedAt := some endedAt, endedById }

/-- A question as the close-out leaves it. -/
def retired (endedAt : Time) (row : Question) : Question :=
  { row with status := .archived, retiredAt := some endedAt }

theorem spares_end (tables : Tables db) {id : Id} {now : Time} {endedById : Option String}
    (taken : endInstallation id now endedById db = some after) : Spares db after := by
  obtain ⟨tabled, running, -, nextId⟩ := EraLock.ended_eras tables.tabled taken
  have still : id ∈ openEras db := running ▸ List.mem_singleton_self id
  have closing := @spares_update db tables
    (fun row => row.installationId = some id ∧ row.status = .active) (retired now)
    (fun _ => ⟨rfl, rfl⟩) (by
      intro row _ matched era filed
      rw [(of_decide_eq_true matched).1] at filed
      cases filed
      exact still)
  unfold endInstallation at taken
  split at taken
  · cases taken
    refine ⟨⟨tabled, closing.tables.questionIds, closing.tables.used, closing.tables.filed⟩,
      Nat.le_refl _, ?_⟩
    intro row member old
    obtain ⟨before, there, rfl⟩ := Table.mem_updateMany.mp member
    have named : (if decide (before.id = id) = true then endedRow now endedById before
        else before).id = before.id := by
      split
      · rfl
      · rfl
    refine ⟨before, there, named.symm, ?_⟩
    intro closed
    have other : before.id ≠ id := by
      intro own
      obtain ⟨open', inside, runs, own'⟩ := EraLock.mem_openEras.mp still
      have one := Table.eq_of_key_eq tables.tabled.ids there inside (own.trans own'.symm)
      exact closed (one ▸ runs)
    rw [if_neg (by simp [other])]
    refine ⟨rfl, ?_⟩
    have frame := @questionsOf_update db
      (fun row => row.installationId = some id ∧ row.status = .active) (retired now) (fun _ => rfl)
      before.id (by
        intro row inside matched
        have filed := (questionsOf_mem.mp inside).2
        rw [(of_decide_eq_true matched).1] at filed
        cases filed
        exact other rfl)
    exact frame
  · cases taken

/-- The row of a new era. -/
theorem spares_create (tables : Tables db) (none : openEras db = []) {installation : Installation}
    (named : installation.id = db.nextId) (running : installation.endedAt = Option.none) :
    Spares db { db with
      installations := db.installations ++ [installation], nextId := db.nextId + 1 } := by
  have tabled : Tabled { db with
      installations := db.installations ++ [installation], nextId := db.nextId + 1 } := by
    refine ⟨?_, ?_, ?_⟩
    · rw [List.map_append, List.map_singleton, named]
      exact Table.nodup_append_fresh tables.tabled.ids tables.tabled.used
    · intro row member
      rcases List.mem_append.mp member with old | new
      · exact Nat.lt_succ_of_lt (tables.tabled.used row old)
      · rw [List.mem_singleton.mp new, named]
        exact Nat.lt_succ_self _
    · have one : openEras { db with
          installations := db.installations ++ [installation], nextId := db.nextId + 1 } =
            openEras db ++ [installation.id] := by
        simp [openEras, running]
      rw [one, none]
      exact Nat.le_refl _
  refine ⟨⟨tabled, tables.questionIds, ?_, ?_⟩, Nat.le_succ _, ?_⟩
  · exact fun row member => Nat.lt_succ_of_lt (tables.used row member)
  · exact fun row member era its => Nat.lt_succ_of_lt (tables.filed row member era its)
  · intro row member old
    rcases List.mem_append.mp member with before | new
    · exact ⟨row, before, rfl, fun _ => ⟨rfl, rfl⟩⟩
    · rw [List.mem_singleton.mp new, named] at old
      exact absurd old (Nat.lt_irrefl _)

theorem spares_copyQuestions (tables : Tables db) {era : Id} (running : era ∈ openEras db)
    (questions : List Question) : Spares db (questions.foldl (copyQuestion era) db) := by
  induction questions generalizing db with
  | nil => exact Spares.refl tables
  | cons question rest ih =>
    have first : Spares db (copyQuestion era db question) ∧
        openEras (copyQuestion era db question) = openEras db := by
      unfold copyQuestion
      split
      · exact ⟨Spares.refl tables, rfl⟩
      · exact ⟨spares_insert tables rfl rfl running, rfl⟩
    exact first.1.trans (ih first.1.tables (first.2 ▸ running))

theorem spares_open (tables : Tables db) (none : openEras db = []) (data : Installation)
    (previous : Option Installation) (copyQuestions : Bool) (now : Time) :
    Spares db (openInstallation data previous copyQuestions now db) := by
  have created := @spares_create db tables none
    { data with id := db.nextId, startedAt := now, endedAt := Option.none } rfl rfl
  unfold openInstallation
  simp only
  split
  · apply created.trans
    apply spares_copyQuestions created.tables
    apply EraLock.mem_openEras.mpr
    exact ⟨_, List.mem_append_right _ (List.mem_singleton_self _), rfl, rfl⟩
  · exact created

theorem spares_start (tables : Tables db) (data : Installation) (copyQuestions : Bool) (now : Time)
    (startedById : Option String) :
    Spares db (startInstallation data copyQuestions now startedById db) := by
  unfold startInstallation
  cases found : db.findActiveInstallation with
  | none =>
    apply spares_open tables
    apply EraLock.openEra_none
    rw [openEra, found]
    rfl
  | some active =>
    cases taken : endInstallation active.id now startedById db with
    | none =>
      simp only [taken]
      exact Spares.refl tables
    | some closed =>
      simp only [taken]
      have ending := spares_end tables taken
      exact ending.trans
        (spares_open ending.tables (EraLock.ended_eras tables.tabled taken).2.2.1 _ _ _ _)

theorem spares_purge (tables : Tables db) {id : Id} (ended : id ∉ openEras db) :
    Spares db (Purges.deleteEra id db) := by
  obtain ⟨tabled, -⟩ := EraLock.purged_eras tables.tabled ended
  refine ⟨⟨tabled, (List.filter_sublist.map _).nodup tables.questionIds, ?_, ?_⟩,
    Nat.le_refl _, ?_⟩
  · exact fun row member => tables.used row (List.mem_of_mem_filter member)
  · exact fun row member era its => tables.filed row (List.mem_of_mem_filter member) era its
  · intro row member _
    obtain ⟨stored, other⟩ := List.mem_filter.mp member
    have apart : row.id ≠ id := of_decide_eq_true other
    refine ⟨row, stored, rfl, fun _ => ⟨rfl, ?_⟩⟩
    simp only [questionsOf, Purges.deleteEra, List.filter_filter]
    apply List.filter_congr
    intro question _
    by_cases its : question.installationId = some row.id
    · simp [its, apart]
    · simp [its]

/-- **One request** leaves the eras that have ended alone. -/
theorem spares_step (tables : Tables db) {request : Request} (taken : step db request = some after) :
    Spares db after := by
  cases request with
  | edit change =>
    simp only [step] at taken
    split at taken
    · cases taken
      exact Spares.refl tables
    · rename_i done
      cases taken
      exact spares_edit tables done
  | draw rawDrawId randomInt =>
    simp only [step] at taken
    split at taken
    · cases taken
      exact Spares.refl tables
    · rename_i drawn
      cases taken
      exact spares_draw tables drawn
  | start data copyQuestions now startedById =>
    cases taken
    exact spares_start tables data copyQuestions now startedById
  | finish id now endedById =>
    cases ending : endInstallation id now endedById db with
    | none =>
      simp only [step, ending, Option.getD_none] at taken
      cases taken
      exact Spares.refl tables
    | some closed =>
      simp only [step, ending, Option.getD_some] at taken
      cases taken
      exact spares_end tables ending
  | purge id =>
    simp only [step] at taken
    split at taken
    · rename_i closed
      cases taken
      apply spares_purge tables
      intro running
      obtain ⟨era, found, ended⟩ := (Option.any_eq_true _ _).mp closed
      obtain ⟨row, stored, runs, named⟩ := EraLock.mem_openEras.mp running
      obtain ⟨stored', named'⟩ := Table.findUnique_mem found
      have one := Table.eq_of_key_eq tables.tabled.ids stored' stored (named'.trans named.symm)
      rw [one] at ended
      exact of_decide_eq_true ended runs
    · cases taken
      exact Spares.refl tables
  | other write =>
    cases taken
    obtain ⟨questions, same, nextId⟩ := write.keeps db
    refine Spares.of_eras ⟨tables.tabled.of_eras same nextId, ?_, ?_, ?_⟩ same nextId ?_ tables.tabled
    · rw [questions]
      exact tables.questionIds
    · intro row member
      rw [questions] at member
      exact Nat.lt_of_lt_of_le (tables.used row member) nextId
    · intro row member era its
      rw [questions] at member
      exact Nat.lt_of_lt_of_le (tables.filed row member era its) nextId
    · intro era _
      unfold questionsOf
      rw [questions]

/-- **Every run** of requests does. -/
theorem spares_exec (tables : Tables db) {requests : List Request}
    (taken : exec step db requests = some after) : Spares db after := by
  induction requests generalizing db with
  | nil =>
    cases taken
    exact Spares.refl tables
  | cons request rest ih =>
    obtain ⟨middle, first, later⟩ := Option.bind_eq_some_iff.mp taken
    have spared := spares_step tables first
    exact spared.trans (ih spared.tables later)

end Spares

/-! ## What is copied -/

section Copies

variable {db after : Db} {era : Id} {endedAt : Time}

/-- The copies of questions that differ in prompt and recording among themselves
and from what the era has. -/
theorem foldl_copyQuestion {source : List Question}
    (apart : source.Pairwise fun one other => one.prompt ≠ other.prompt ∧ one.audioId ≠ other.audioId)
    (fresh : ∀ row ∈ questionsOf era db, ∀ question ∈ source,
      row.prompt ≠ question.prompt ∧ row.audioId ≠ question.audioId) :
    ∃ copies, questionsOf era (source.foldl (copyQuestion era) db) = questionsOf era db ++ copies ∧
      List.Forall₂ CarriesOver source copies := by
  induction source generalizing db with
  | nil => exact ⟨[], (List.append_nil _).symm, .nil⟩
  | cons question rest ih =>
    obtain ⟨differs, apart'⟩ := List.pairwise_cons.mp apart
    have absent : db.questions.any (fun row => row.installationId = some era ∧
        (row.prompt = question.prompt ∨ row.audioId = question.audioId)) = false := by
      rw [List.any_eq_false]
      intro row member matched
      obtain ⟨its, same⟩ := of_decide_eq_true matched
      obtain ⟨prompt, audio⟩ :=
        fresh row (questionsOf_mem.mpr ⟨member, its⟩) question List.mem_cons_self
      rcases same with same | same
      · exact prompt same
      · exact audio same
    obtain ⟨copy, carries, rows⟩ : ∃ copy, CarriesOver question copy ∧
        questionsOf era (copyQuestion era db question) = questionsOf era db ++ [copy] := by
      unfold copyQuestion
      rw [absent, if_neg Bool.false_ne_true]
      refine ⟨{ id := db.nextId
                prompt := question.prompt
                status := if question.status = .draft then .draft else .active
                audioId := question.audioId
                weight := question.weight
                installationId := some era }, ⟨rfl, rfl, rfl, rfl, rfl, rfl, rfl⟩, ?_⟩
      simp [questionsOf, List.filter_append]
    have fresh' : ∀ row ∈ questionsOf era (copyQuestion era db question), ∀ later ∈ rest,
        row.prompt ≠ later.prompt ∧ row.audioId ≠ later.audioId := by
      intro row member later there
      rw [rows] at member
      rcases List.mem_append.mp member with old | new
      · exact fresh row old later (List.mem_cons_of_mem _ there)
      · rw [List.mem_singleton.mp new, carries.prompt, carries.audioId]
        exact differs later there
    obtain ⟨copies, all, carried⟩ := ih apart' fresh'
    refine ⟨copy :: copies, ?_, .cons carries carried⟩
    rw [List.foldl_cons, all, rows, List.append_assoc]
    rfl

/-- A question that the close-out has gone past. -/
def closedOut (endedAt : Time) (row : Question) : Question :=
  if row.status = .active then retired endedAt row else row

/-- The era's questions when it has been closed out. -/
theorem questionsOf_end {endedById : Option String}
    (taken : endInstallation era endedAt endedById db = some after) :
    questionsOf era after = (questionsOf era db).map (closedOut endedAt) := by
  unfold endInstallation at taken
  split at taken
  · cases taken
    have filtered := @Table.filter_updateMany Question
      (fun row => row.installationId = some era ∧ row.status = .active)
      (fun row => row.installationId = some era) (retired endedAt) (fun _ => rfl) db.questions
    refine filtered.trans ?_
    apply List.map_congr_left
    intro row member
    have its := of_decide_eq_true (List.mem_filter.mp member).2
    by_cases active : row.status = .active
    · simp [closedOut, retired, its, active]
    · simp [closedOut, active]
  · cases taken

/-- Of the rows of an ended era those are taken that were live, and no others. -/
theorem carriedForward_closedOut {previous : Installation} {before : Db}
    (rows : questionsOf previous.id db = (questionsOf previous.id before).map (closedOut endedAt))
    (ended : previous.endedAt = some endedAt) (none : NoneRetiredAt previous.id endedAt before) :
    carriedForward previous db = (liveQuestions previous.id before).map (closedOut endedAt) := by
  have narrow : carriedForward previous db = (questionsOf previous.id db).filter fun row =>
      row.status = .active ∨ row.status = .draft ∨
        (row.status = .archived ∧ row.retiredAt.isSome ∧ row.retiredAt = previous.endedAt) := by
    unfold carriedForward questionsOf
    rw [List.filter_filter]
    apply List.filter_congr
    intro row _
    simp [and_comm]
  rw [narrow, rows, List.filter_map]
  unfold liveQuestions
  congr 1
  apply List.filter_congr
  intro row member
  cases status : row.status with
  | draft => simp [closedOut, status]
  | active => simp [closedOut, retired, status, ended]
  | archived =>
    have other := none row member status
    simp [closedOut, status, ended, other]

theorem carriesOver_closedOut {question row : Question} :
    CarriesOver (closedOut endedAt question) row ↔ CarriesOver question row := by
  by_cases active : question.status = .active
  · have same : closedOut endedAt question = retired endedAt question := if_pos active
    rw [same]
    constructor
    · intro carries
      refine ⟨carries.prompt, carries.audioId, carries.weight, ?_, carries.retiredAt,
        carries.lastSelectedCycle, carries.selectionsInCycle⟩
      rw [carries.status]
      simp [retired, active]
    · intro carries
      refine ⟨carries.prompt, carries.audioId, carries.weight, ?_, carries.retiredAt,
        carries.lastSelectedCycle, carries.selectionsInCycle⟩
      rw [carries.status]
      simp [retired, active]
  · rw [closedOut, if_neg active]

/-- Rows that carry questions over have their prompts and their recordings. -/
theorem columns_of_carried {source copies : List Question}
    (carried : List.Forall₂ CarriesOver source copies) :
    copies.map (·.prompt) = source.map (·.prompt) ∧
      copies.map (·.audioId) = source.map (·.audioId) := by
  induction carried with
  | nil => exact ⟨rfl, rfl⟩
  | cons carries _ ih =>
    simp only [List.map_cons, carries.prompt, carries.audioId, ih.1, ih.2, and_self]

/-- The era that is created takes the live questions of one that was closed out. -/
theorem carriedOver_open (tables : Tables db) {before : Db} (unique : Unique before)
    {previous : Installation}
    (rows : questionsOf previous.id db = (questionsOf previous.id before).map (closedOut endedAt))
    (ended : previous.endedAt = some endedAt) (none : NoneRetiredAt previous.id endedAt before)
    (data : Installation) (now : Time) :
    CarriedOver (liveQuestions previous.id before) db.nextId
      (openInstallation data (some previous) true now db) := by
  let started : Db := { db with
    installations := db.installations ++
      [{ data with id := db.nextId, startedAt := now, endedAt := Option.none }]
    nextId := db.nextId + 1 }
  have source : carriedForward previous started =
      (liveQuestions previous.id before).map (closedOut endedAt) :=
    @carriedForward_closedOut started endedAt previous before rows ended none
  have opened : openInstallation data (some previous) true now db =
      (carriedForward previous started).foldl (copyQuestion db.nextId) started := rfl
  have empty : questionsOf db.nextId started = [] := by
    rw [questionsOf, List.filter_eq_nil_iff]
    intro row member its
    exact Nat.lt_irrefl _ (tables.filed row member _ (of_decide_eq_true its))
  have live : (liveQuestions previous.id before).Sublist (questionsOf previous.id before) :=
    List.filter_sublist
  have prompts : ((liveQuestions previous.id before).map (·.prompt)).Nodup :=
    (live.map _).nodup (unique.prompts previous.id)
  have recordings : ((liveQuestions previous.id before).map (·.audioId)).Nodup :=
    (live.map _).nodup (unique.recordings previous.id)
  have kept (row : Question) : (closedOut endedAt row).prompt = row.prompt ∧
      (closedOut endedAt row).audioId = row.audioId := by
    unfold closedOut
    split
    · exact ⟨rfl, rfl⟩
    · exact ⟨rfl, rfl⟩
  have apart : ((liveQuestions previous.id before).map (closedOut endedAt)).Pairwise
      fun one other => one.prompt ≠ other.prompt ∧ one.audioId ≠ other.audioId := by
    rw [List.pairwise_map]
    simp only [kept]
    exact (List.pairwise_map.mp prompts).and (List.pairwise_map.mp recordings)
  obtain ⟨copies, all, carried⟩ := @foldl_copyQuestion started db.nextId _ apart (by
    intro row member
    rw [empty] at member
    cases member)
  rw [empty, List.nil_append] at all
  have oneForOne : List.Forall₂ CarriesOver (liveQuestions previous.id before) copies := by
    rw [List.forall₂_map_left_iff] at carried
    exact carried.imp fun _ _ => carriesOver_closedOut.mp
  obtain ⟨samePrompts, sameRecordings⟩ := columns_of_carried oneForOne
  rw [opened, source]
  refine ⟨?_, ?_, ?_⟩
  · rw [all]
    exact oneForOne
  · rw [all, samePrompts]
    exact prompts
  · rw [all, sameRecordings]
    exact recordings

/-- The era that ends is there with the time of its end. -/
theorem installation_end (tables : Tables db) {endedById : Option String}
    (taken : endInstallation era endedAt endedById db = some after) :
    ∃ row, after.installation era = some row ∧ row.id = era ∧ row.endedAt = some endedAt := by
  obtain ⟨tabled, running, -, -⟩ := EraLock.ended_eras tables.tabled taken
  have still : era ∈ openEras db := running ▸ List.mem_singleton_self era
  obtain ⟨row, stored, -, rfl⟩ := EraLock.mem_openEras.mp still
  unfold endInstallation at taken
  split at taken
  · cases taken
    refine ⟨endedRow endedAt endedById row, ?_, rfl, rfl⟩
    have there : endedRow endedAt endedById row ∈ Table.updateMany (fun other => other.id = row.id)
        (endedRow endedAt endedById) db.installations := by
      apply Table.mem_updateMany.mpr
      exact ⟨row, stored, by simp⟩
    exact Table.findUnique_of_mem tabled.ids there
  · cases taken

end Copies

/-- An era that is started takes over the questions of the era before, exactly: of
the one that the request itself ends, and of one that had ended, whatever was
requested in the meantime. -/
theorem questions_carried_forward {db : Db} (tables : Tables db) (unique : Unique db)
    (data : Installation) (now : Time) (startedById : Option String) :
    (∀ active, db.findActiveInstallation = some active → NoneRetiredAt active.id now db →
      CarriedOver (liveQuestions active.id db) db.nextId
        (startInstallation data true now startedById db)) ∧
    ∀ era endedAt endedById closed requests middle previous,
      endInstallation era endedAt endedById db = some closed → NoneRetiredAt era endedAt db →
      exec step closed requests = some middle → middle.findActiveInstallation = none →
      lastEnded middle = some previous → previous.id = era →
      CarriedOver (liveQuestions era db) middle.nextId
        (startInstallation data true now startedById middle) := by
  constructor
  · intro active found none
    obtain ⟨closed, taken⟩ :=
      @EraLock.endInstallation_active db now startedById active tables.tabled found
    obtain ⟨row, there, named, ended⟩ := installation_end tables taken
    have ending := spares_end tables taken
    have nextId : closed.nextId = db.nextId := (EraLock.ended_eras tables.tabled taken).2.2.2
    have rows := questionsOf_end taken
    unfold startInstallation
    simp only [found, taken, there]
    rw [← named] at rows none ⊢
    rw [← nextId]
    exact carriedOver_open ending.tables unique rows ended none data now
  · rintro era endedAt endedById closed requests middle previous taken none run idle last rfl
    have ending := spares_end tables taken
    have spared := spares_exec ending.tables run
    obtain ⟨row, there, named, ended⟩ := installation_end tables taken
    obtain ⟨stored, -⟩ := Table.findUnique_mem there
    have known : previous.id < closed.nextId := named ▸ ending.tables.tabled.used row stored
    obtain ⟨old, inside, named', kept⟩ := spared.ended previous (Table.latest_mem last).1 known
    have one : old = row :=
      Table.eq_of_key_eq ending.tables.tabled.ids inside stored (named'.trans named.symm)
    subst one
    obtain ⟨sameEnd, sameRows⟩ := kept (by simp [ended])
    unfold startInstallation
    simp only [idle, last]
    exact carriedOver_open spared.tables unique (sameRows.trans (questionsOf_end taken))
      (sameEnd.trans ended) none data now

/-- An open era with a draft, a question in rotation and one that was retired by hand. -/
def heldEra : Db :=
  { installations := [{ id := 1, name := "spring" }]
    questions :=
      [{ id := 2, prompt := "first", audioId := 11, installationId := some 1 },
        { id := 3, prompt := "second", status := .active, audioId := 12, weight := 4,
          lastSelectedCycle := some 6, selectionsInCycle := 2, installationId := some 1 },
        { id := 4, prompt := "third", status := .archived, audioId := 13, retiredAt := some 9,
          installationId := some 1 }]
    nextId := 20 }

theorem tables_heldEra : Tables heldEra where
  tabled := ⟨by decide, by decide, by decide⟩
  questionIds := by decide
  used := by decide
  filed := by
    intro row member era its
    have owned : ∀ row ∈ heldEra.questions, row.installationId = some 1 := by decide
    rw [owned row member] at its
    cases its
    decide

theorem unique_heldEra : Unique heldEra := by
  have other (era : Id) (apart : era ≠ 1) : questionsOf era heldEra = [] := by
    simp [questionsOf, heldEra, apart.symm]
  constructor
  · intro era
    by_cases own : era = 1
    · subst own
      decide
    · rw [other era own]
      exact List.nodup_nil
  · intro era
    by_cases own : era = 1
    · subst own
      decide
    · rw [other era own]
      exact List.nodup_nil

theorem questions_carried_forward_held :
    CarriedOver (liveQuestions 1 heldEra) 20
        (startInstallation { id := 0, name := "summer" } true 50 none heldEra) ∧
      CarriedOver (liveQuestions 1 heldEra) 20
        (startInstallation { id := 0, name := "summer" } true 50 none
          ((endInstallation 1 40 none heldEra).getD heldEra)) := by
  have carried := @questions_carried_forward heldEra tables_heldEra unique_heldEra
    { id := 0, name := "summer" } 50 none
  constructor
  · apply carried.1 { id := 1, name := "spring" } rfl
    unfold NoneRetiredAt
    decide
  · apply carried.2 1 40 none _ [.edit (.activate 4)] _ _ rfl _ rfl rfl rfl rfl
    unfold NoneRetiredAt
    decide

end BoothOperator.Installations
