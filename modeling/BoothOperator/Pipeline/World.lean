import BoothOperator.Lib.Run
import BoothOperator.Messages
import BoothOperator.Pipeline.Jobs
import BoothOperator.Processing.Completion

/-! The pipeline with everything that runs beside it: any number of jobs, each
at its own statement, with operator decisions, era close-outs and
processing-lease completions between any two of their statements. A job may
throw where it awaits something, and it may stop for good at any point, as it
does when its process dies. -/
namespace BoothOperator.Pipeline

open BoothOperator.Schema
open BoothOperator.Messages
open BoothOperator.Processing (Completion complete)

structure World where
  db : Db
  jobs : List Activity := []
  results : List JobResult := []
  /-- The succeeded verdicts with what they were computed on or accepted with. -/
  verdicts : List (Id × VerdictInput) := []

inductive Action where
  | start (activity : Activity)
  | advance (job : Nat) (now : Time) (reply : Reply)
  | throw (job : Nat) (reason : String)
  | escape (job : Nat) (reason : String)
  | crash (job : Nat)
  | decide (messageId : Id) (decision : Decision) (notes userId : Option String) (now : Time)
  | closeOut (installationId : Id) (endedAt : Time)
  | complete (userId : String) (messageId : Id) (result : Completion) (now : Time)

variable (sha256 : String → String)

/-- Put a job where its exception landed, or take it away. -/
def World.land (world : World) (job : Nat) (landing : Option Activity) : World :=
  match landing with
  | some activity => { world with jobs := world.jobs.set job activity }
  | none => { world with jobs := world.jobs.eraseIdx job }

def World.advanced (world : World) (job : Nat) (out : Advanced) : World :=
  let verdicts := out.verdicts ++ world.verdicts
  match out.next with
  | .goto activity => { world with db := out.db, jobs := world.jobs.set job activity, verdicts }
  | .done result =>
    { db := out.db, jobs := world.jobs.eraseIdx job, results := result :: world.results, verdicts }

/-- The entry of the verdict a completion stored. -/
def completionVerdict (verdict : Option Id) (inputSha256 : Option String) :
    List (Id × VerdictInput) :=
  match verdict, inputSha256 with
  | some verdict, some hash => if hash = "" then [] else [(verdict, .hash hash)]
  | _, _ => []

def step (world : World) : Action → Option World
  | .start activity =>
    if activity.isCall then some { world with jobs := world.jobs ++ [activity] } else none
  | .advance job now reply =>
    match world.jobs[job]? with
    | none => none
    | some activity => (advance sha256 now reply world.db activity).map (world.advanced job)
  | .throw job reason =>
    match world.jobs[job]? with
    | none => none
    | some activity => some (world.land job (activity.throw reason))
  | .escape job reason =>
    match world.jobs[job]? with
    | none => none
    | some activity => some (world.land job (activity.escape reason))
  | .crash job => some (world.land job none)
  | .decide messageId decision notes userId now =>
    (Messages.decide messageId decision notes userId now world.db).map fun db => { world with db }
  | .closeOut installationId endedAt =>
    some { world with db := closeOutMessages installationId endedAt world.db }
  | .complete userId messageId result now =>
    match complete sha256 now userId messageId result world.db with
    | .error _ => none
    | .ok (stored, _) =>
      some { world with
        db := stored.db
        verdicts := completionVerdict stored.verdict (result.moderation.bind (·.inputSha256)) ++
          world.verdicts }

/-- The steps of the pipeline itself. -/
def Action.ofPipeline : Action → Bool
  | .decide .. | .closeOut .. => false
  | _ => true

@[simp]
theorem land_db (world : World) (job : Nat) (landing : Option Activity) :
    (world.land job landing).db = world.db := by
  cases landing <;> rfl

@[simp]
theorem land_verdicts (world : World) (job : Nat) (landing : Option Activity) :
    (world.land job landing).verdicts = world.verdicts := by
  cases landing <;> rfl

@[simp]
theorem advanced_db (world : World) (job : Nat) (out : Advanced) :
    (world.advanced job out).db = out.db := by
  unfold World.advanced
  cases out.next <;> rfl

@[simp]
theorem advanced_verdicts (world : World) (job : Nat) (out : Advanced) :
    (world.advanced job out).verdicts = out.verdicts ++ world.verdicts := by
  unfold World.advanced
  cases out.next <;> rfl

theorem mem_jobs_land {world : World} {job : Nat} {landing : Option Activity} {activity : Activity}
    (member : activity ∈ (world.land job landing).jobs) :
    activity ∈ world.jobs ∨ landing = some activity := by
  cases landing with
  | none => exact .inl (List.mem_of_mem_eraseIdx member)
  | some landed =>
    rcases List.mem_or_eq_of_mem_set member with old | rfl
    · exact .inl old
    · exact .inr rfl

theorem mem_jobs_advanced {world : World} {job : Nat} {out : Advanced} {activity : Activity}
    (member : activity ∈ (world.advanced job out).jobs) :
    activity ∈ world.jobs ∨ out.next = .goto activity := by
  unfold World.advanced at member
  cases next : out.next with
  | done result =>
    rw [next] at member
    exact .inl (List.mem_of_mem_eraseIdx member)
  | goto onward =>
    rw [next] at member
    rcases List.mem_or_eq_of_mem_set member with old | rfl
    · exact .inl old
    · exact .inr rfl

end BoothOperator.Pipeline
