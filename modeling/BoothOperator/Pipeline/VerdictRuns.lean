import BoothOperator.Pipeline.Validity

/-! What readers of a verdict may rely on: in every state the pipeline reaches,
a succeeded verdict is about the text its transcript reads as at that moment,
as long as no step stores a translation that only a second normalization
changes, or accepts a hash over a translation that normalizes to blank. -/
namespace BoothOperator.Pipeline

open BoothOperator.Schema
open BoothOperator.Processing

variable (sha256 : String → String)

/-- The runs in flight, one entry for each job that awaits its verdict. -/
def World.flights (world : World) : List (Id × VerdictInput) :=
  world.jobs.filterMap Activity.flight

def World.Sound (world : World) : Prop :=
  Pipeline.Sound sha256 world.db world.verdicts world.flights

/-- Nothing has been transcribed yet, and nothing is under way. -/
def Untouched (world : World) : Prop :=
  world.db.transcriptions = [] ∧ world.db.moderations = [] ∧ world.jobs = [] ∧ world.verdicts = []

/-- What a step stores is safe at that moment. -/
def StoresSafely (world : World) : Action → Prop
  | .advance job _ _ =>
    ∀ activity, world.jobs[job]? = some activity → activity.StoresSafely sha256 world.db
  | .complete userId messageId result now =>
    CompletionSafe sha256 now userId (extendLease now messageId world.db) messageId result
  | _ => True

instance (world : World) : (action : Action) → Decidable (StoresSafely sha256 world action)
  | .advance job _ _ =>
    inferInstanceAs (Decidable
      (∀ activity ∈ world.jobs[job]?, activity.StoresSafely sha256 world.db))
  | .complete .. => inferInstanceAs (Decidable (CompletionSafe _ _ _ _ _ _))
  | .start .. | .throw .. | .escape .. | .crash .. | .decide .. | .closeOut .. => isTrue trivial

/-- Every succeeded verdict on a transcript was computed on, or accepted with
the hash of, what the transcript reads as now. -/
def VerdictsCurrent (world : World) : Prop :=
  ∀ entry ∈ world.verdicts, ∀ verdict ∈ world.db.moderations,
    verdict.id = entry.1 → verdict.status = .succeeded →
    ∀ id, verdict.transcriptionId = some id →
      ∃ row ∈ world.db.transcriptions, row.id = id ∧ entry.2.Describes sha256 (moderationText row)

instance (world : World) : Decidable (VerdictsCurrent sha256 world) :=
  inferInstanceAs (Decidable (∀ _ ∈ world.verdicts, ∀ verdict ∈ world.db.moderations,
    _ → _ → ∀ _ ∈ verdict.transcriptionId, ∃ _ ∈ world.db.transcriptions, _ ∧ _))

section Steps

variable {sha256}

theorem sound_untouched {world : World} (untouched : Untouched world) : world.Sound sha256 := by
  obtain ⟨transcriptions, moderations, jobs, verdicts⟩ := untouched
  constructor <;> simp [Backed, World.flights, transcriptions, moderations, jobs, verdicts]

/-- A sound world vouches for its verdicts. -/
theorem World.Sound.current {world : World} (sound : world.Sound sha256) :
    VerdictsCurrent sha256 world := by
  intro entry settled verdict member same succeeded id refers
  obtain ⟨row, present, rfl, _⟩ := sound.target verdict member (.inr succeeded) id refers
  exact ⟨row, present, rfl, sound.valid entry settled verdict member same succeeded row present refers⟩

theorem flight_of_idle {activity : Activity} (idle : activity.awaited = none) :
    activity.flight = none := by
  cases flight : activity.flight with
  | none => rfl
  | some entry =>
    obtain ⟨run, awaits, _⟩ := flight_awaited.mp flight
    cases idle.symm.trans awaits

theorem mem_flights {world : World} {entry : Id × VerdictInput} :
    entry ∈ world.flights ↔ ∃ activity ∈ world.jobs, activity.flight = some entry := by
  simp [World.flights]

/-- Landing a job leaves the other runs in flight, and no new one. -/
theorem land_flights {world : World} {job : Nat} {landing : Option Activity}
    (grounded : ∀ activity, landing = some activity → activity.flight = none) :
    ∀ entry ∈ (world.land job landing).flights, entry ∈ world.flights := by
  intro entry member
  obtain ⟨activity, present, flight⟩ := mem_flights.mp member
  rcases mem_jobs_land present with old | landed
  · exact mem_flights.mpr ⟨activity, old, flight⟩
  · rw [grounded activity landed] at flight
    cases flight

theorem advanced_flights {world : World} {job : Nat} {out : Advanced} :
    ∀ entry ∈ (world.advanced job out).flights,
      entry ∈ out.next.flight.toList ++ world.flights := by
  intro entry member
  obtain ⟨activity, present, flight⟩ := mem_flights.mp member
  rw [List.mem_append, mem_flights]
  rcases mem_jobs_advanced present with old | next
  · exact .inr ⟨activity, old, flight⟩
  · exact .inl (by simp [next, Next.flight, flight])

theorem World.Sound.land {world : World} (sound : world.Sound sha256) {job : Nat}
    {landing : Option Activity}
    (grounded : ∀ activity, landing = some activity → activity.flight = none) :
    (world.land job landing).Sound sha256 := by
  have same : Pipeline.Sound sha256 (world.land job landing).db (world.land job landing).verdicts
      world.flights := by
    rw [land_db, land_verdicts]
    exact sound
  exact same.fewer (land_flights grounded)

theorem World.Sound.advanced {world : World} (sound : world.Sound sha256) {job : Nat} {now : Time}
    {reply : Reply} {activity : Activity} (here : world.jobs[job]? = some activity)
    (safe : activity.StoresSafely sha256 world.db) {out : Advanced}
    (taken : advance sha256 now reply world.db activity = some out) :
    (world.advanced job out).Sound sha256 := by
  have flying (entry : Id × VerdictInput) (flight : activity.flight = some entry) :
      entry ∈ world.flights :=
    mem_flights.mpr ⟨activity, List.mem_of_getElem? here, flight⟩
  have moved := Pipeline.Sound.advance sound flying safe taken
  rw [← advanced_db world job out, ← advanced_verdicts world job out] at moved
  exact moved.fewer advanced_flights

theorem sound_step {world after : World} {action : Action} (sound : world.Sound sha256)
    (safe : StoresSafely sha256 world action) (taken : step sha256 world action = some after) :
    after.Sound sha256 := by
  cases action with
  | start activity =>
    simp only [step] at taken
    split at taken
    · rename_i call
      cases taken
      have same : World.flights { world with jobs := world.jobs ++ [activity] } = world.flights := by
        simp [World.flights, flight_of_idle (call_awaited call)]
      rw [World.Sound, same]
      exact sound
    · cases taken
  | advance job now reply =>
    simp only [step] at taken
    split at taken
    · cases taken
    rename_i activity here
    obtain ⟨out, ran, rfl⟩ := Option.map_eq_some_iff.mp taken
    exact sound.advanced here (safe activity here) ran
  | throw job reason =>
    simp only [step] at taken
    split at taken <;> cases taken
    exact sound.land fun _ thrown => flight_of_idle (throw_awaited thrown)
  | escape job reason =>
    simp only [step] at taken
    split at taken <;> cases taken
    exact sound.land fun _ escaped => flight_of_idle (escape_awaited escaped)
  | crash job =>
    cases taken
    exact sound.land fun _ none => nomatch none
  | decide messageId decision notes userId now =>
    obtain ⟨db, decided, rfl⟩ := Option.map_eq_some_iff.mp taken
    unfold Messages.decide at decided
    split at decided
    · cases decided
    split at decided <;> cases decided
    exact Sound.updateMessages sound _ _
  | closeOut installationId endedAt =>
    cases taken
    exact Sound.updateMessages sound _ _
  | complete userId messageId result now =>
    simp only [step] at taken
    split at taken <;> cases taken
    rename_i done
    exact Pipeline.Sound.complete sound safe done

end Steps

/-- **Verdicts stay current in every run that stores safely.** -/
theorem verdicts_current {world : World}
    (reached : Run.ReachableUnder (step sha256) Untouched (StoresSafely sha256) world) :
    VerdictsCurrent sha256 world := by
  have sound : world.Sound sha256 :=
    reached.invariant (fun _ => sound_untouched) fun _ _ _ => sound_step
  exact sound.current

/-- A message nobody has transcribed. -/
def untouchedMessage : World where
  db :=
    { files := [{ id := 0 }]
      messages := [{ id := 1, audioId := 0 }]
      nextId := 2 }

/-- A submitted transcript, then an in-process verdict on it. -/
def moderatedTranscript (text : String) : List Action :=
  [.start (.recordTranscription
      { messageId := 1, text, provider := some .onDevice, processDownstream := false } {}),
    .advance 0 1 .nothing,
    .start (.moderate
      { messageId := 1, deps := { moderation := some ⟨"openai", "omni"⟩ }, caller := .route }),
    .advance 0 2 .nothing, .advance 0 3 .nothing,
    .advance 0 4 (.verdict { flagged := false, recommendation := .approve, maxScore := 0 }),
    .advance 0 5 .nothing]

/-- An operator's translation of it. -/
def submittedTranslation (translatedText : String) : List Action :=
  [.start (.recordTranslation { messageId := 1, translatedText }), .advance 1 6 .nothing]

/-- The translation supersedes the verdict on the transcript. -/
theorem verdicts_current_translated : ∃ world,
    Run.exec (step id) untouchedMessage
        (moderatedTranscript "hola" ++ submittedTranslation "hello") = some world ∧
      world.verdicts = [(3, .text "hola")] ∧ VerdictsCurrent id world := by
  have allowed : Run.Along (step id) (fun world action _ => StoresSafely id world action)
      untouchedMessage (moderatedTranscript "hola" ++ submittedTranslation "hello") := by
    decide +kernel
  have settled : (Run.exec (step id) untouchedMessage
      (moderatedTranscript "hola" ++ submittedTranslation "hello")).map (·.verdicts) =
        some [(3, .text "hola")] := by decide +kernel
  obtain ⟨world, ran, verdicts⟩ := Option.map_eq_some_iff.mp settled
  have first : Untouched untouchedMessage := ⟨rfl, rfl, rfl, rfl⟩
  exact ⟨world, ran, verdicts, verdicts_current id ((Run.ReachableUnder.initial first).exec allowed ran)⟩

/-- A fenced transcript, translated to the same text in one more fence: the
writer unwraps one and finds nothing new, the readers unwrap the other. -/
theorem verdict_outlives_text : ¬ ∀ sha256 world,
    Run.Reachable (step sha256) Untouched world → VerdictsCurrent sha256 world := by
  intro current
  have stale : (Run.exec (step id) untouchedMessage
      (moderatedTranscript "```\nhi\n```" ++ submittedTranslation "```\n```\nhi\n```\n```")).any
        (fun world => ¬ VerdictsCurrent id world) = true := by decide +kernel
  rw [Option.any_eq_true] at stale
  obtain ⟨world, ran, outdated⟩ := stale
  exact of_decide_eq_true outdated
    (current id world (Run.reachable_of_exec ⟨rfl, rfl, rfl, rfl⟩ ran))

end BoothOperator.Pipeline
