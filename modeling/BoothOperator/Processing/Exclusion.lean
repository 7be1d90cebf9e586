import BoothOperator.Lib.Digest
import BoothOperator.Processing.Leases

/-! What a processing lease promises its holder and everyone else, step by step
of any run: it serves the holder of the latest claim only, a completion commits
on the state that was claimed, and only the failure of a last attempt is final. -/
namespace BoothOperator.Processing

open BoothOperator.Schema
open BoothOperator.Lease (Grant current)

variable (sha256 : String → String)

/-- The message and the lease that a request's next statement uses. -/
def Request.presents : Request → Option (Id × Holder)
  | .heartbeatWrite request _ _ | .release request | .failWrite request _ _ =>
    some (request.id, request.holder)
  | .completeStore userId id result _ _ => some (id, ⟨result.leaseToken, userId⟩)
  | _ => none

/-- The clock the lease is judged by: the statement's own, and for a completion
that of the statement that took the row lock. -/
def Request.judgedAt (clock : Time) : Request → Time
  | .completeStore _ _ _ lockedAt _ => lockedAt
  | _ => clock

section Answers

variable {sha256} {world : World} {job : Nat} {request : Request} {token : String}
  {clock : Time} {locked : Id → Bool} {db : Db} {out : Outcome}

/-- A request is told `ok` by the statement that uses its lease, and by no other. -/
theorem presents_of_ok
    (taken : request.advance sha256 clock token locked db = some out) (ok : out.next = .done .ok) :
    ∃ id holder event, request.presents = some (id, holder) ∧ out.event = some event ∧
      event.use = some (id, holder, request.judgedAt clock) := by
  cases request with
  | heartbeatWrite presented leaseSeconds active =>
    simp only [Request.advance] at taken
    split at taken <;> cases taken
    simp only [heartbeatUpdate] at ok ⊢
    split at ok
    · rename_i counted
      rw [if_pos counted]
      exact ⟨_, _, _, rfl, rfl, rfl⟩
    · cases ok
  | release presented =>
    simp only [Request.advance] at taken
    split at taken <;> cases taken
    simp only [releaseUpdate] at ok ⊢
    split at ok
    · cases ok
    · rename_i counted
      rw [if_neg counted]
      exact ⟨_, _, _, rfl, rfl, rfl⟩
  | failWrite presented error terminal =>
    simp only [Request.advance] at taken
    split at taken <;> cases taken
    simp only [failUpdate] at ok ⊢
    split at ok
    · cases ok
    · rename_i counted
      rw [if_neg counted]
      exact ⟨_, _, _, rfl, rfl, rfl⟩
  | completeStore userId id result lockedAt work =>
    cases taken
    unfold completeCommit at ok ⊢
    split at ok
    · cases ok
    split at ok
    · cases ok
    · exact ⟨_, _, _, rfl, rfl, rfl⟩
  | done response => cases taken
  | claimWrite claiming candidate page work =>
    cases taken
    unfold claimUpdate at ok
    split at ok <;> cases ok
  | heartbeat presented leaseSeconds => cases taken; cases ok
  | _ =>
    simp only [Request.advance] at taken
    repeat' split at taken
    all_goals cases taken
    all_goals cases ok

/-- A failure that is told `ok` ends the lease, for good if it was the last attempt. -/
theorem failWrite_event {presented : LeaseRequest} {error : String} {terminal : Bool}
    (taken : (Request.failWrite presented error terminal).advance sha256 clock token locked db =
      some out) (ok : out.next = .done .ok) :
    out.event = some (.ended presented.id presented.holder clock (.failed terminal)) := by
  simp only [Request.advance] at taken
  split at taken <;> cases taken
  simp only [failUpdate] at ok ⊢
  split at ok
  · cases ok
  · rename_i counted
    rw [if_neg counted]

/-- A claim that is answered with a message has just leased it. -/
theorem claim_event {id : Id} {holder : Holder} {expiresAt : Time}
    (taken : request.advance sha256 clock token locked db = some out)
    (granted : out.next = .done (.claim (some (id, holder, expiresAt)))) :
    ∃ claiming page work, request = .claimWrite claiming id page work ∧
      db.messages.countP (claimable claiming id) = 1 ∧
      out.db = db.updateMessages (claimable claiming id) (lease sha256 claiming token work) ∧
      ∃ moment claimed, out.event = some (.claimed id holder moment expiresAt claimed) := by
  cases request with
  | claimWrite claiming candidate page work =>
    cases taken
    unfold claimUpdate at granted ⊢
    split at granted
    · rename_i counted
      cases granted
      rw [if_pos counted]
      exact ⟨claiming, page, work, rfl, counted, rfl, _, _, rfl⟩
    · cases granted
  | heartbeatWrite presented leaseSeconds active =>
    simp only [Request.advance] at taken
    split at taken <;> cases taken
    simp only [heartbeatUpdate] at granted
    split at granted <;> cases granted
  | release presented =>
    simp only [Request.advance] at taken
    split at taken <;> cases taken
    simp only [releaseUpdate] at granted
    split at granted <;> cases granted
  | failWrite presented error terminal =>
    simp only [Request.advance] at taken
    split at taken <;> cases taken
    simp only [failUpdate] at granted
    split at granted <;> cases granted
  | completeStore userId id result lockedAt work =>
    cases taken
    unfold completeCommit at granted
    repeat' split at granted
    all_goals cases granted
  | heartbeat presented leaseSeconds => cases taken; cases granted
  | done response => cases taken
  | _ =>
    simp only [Request.advance] at taken
    repeat' split at taken
    all_goals cases taken
    all_goals cases granted

/-- The column is set by the last failure alone. -/
def SetsFailedAt (before : Db) (request : Request) (next : Request) (row : Message) : Prop :=
  (∃ old ∈ before.messages, old.id = row.id ∧ old.processingFailedAt = row.processingFailedAt) ∨
    ∃ presented error, request = .failWrite presented error true ∧ next = .done .ok ∧
      row.id = presented.id

private theorem kept_failedAt {found : Message → Bool} {change : Message → Message}
    (ids : ∀ row, (change row).id = row.id)
    (kept : ∀ row, (change row).processingFailedAt = row.processingFailedAt) {row : Message}
    (member : row ∈ (db.updateMessages found change).messages) :
    ∃ old ∈ db.messages, old.id = row.id ∧ old.processingFailedAt = row.processingFailedAt := by
  obtain ⟨old, there, rfl⟩ := Table.mem_updateMany.mp member
  refine ⟨old, there, ?_⟩
  split
  · exact ⟨(ids old).symm, (kept old).symm⟩
  · exact ⟨rfl, rfl⟩

theorem advance_failedAt (taken : request.advance sha256 clock token locked db = some out)
    {row : Message} (member : row ∈ out.db.messages) : SetsFailedAt db request out.next row := by
  have unchanged (same : out.db = db) : SetsFailedAt db request out.next row :=
    .inl ⟨row, same ▸ member, rfl, rfl⟩
  cases request with
  | claimWrite claiming candidate page work =>
    cases taken
    unfold claimUpdate at member unchanged ⊢
    split
    · rename_i counted
      rw [if_pos counted] at member
      refine .inl (kept_failedAt ?_ ?_ member)
      · exact fun _ => rfl
      · exact fun _ => rfl
    · rename_i counted
      rw [if_neg counted] at member
      exact .inl ⟨row, member, rfl, rfl⟩
  | heartbeatWrite presented leaseSeconds active =>
    simp only [Request.advance] at taken
    split at taken <;> cases taken
    simp only [heartbeatUpdate] at member ⊢
    split at member
    · refine .inl (kept_failedAt ?_ ?_ member)
      · exact fun _ => rfl
      · exact fun _ => rfl
    · exact .inl ⟨row, member, rfl, rfl⟩
  | release presented =>
    simp only [Request.advance] at taken
    split at taken <;> cases taken
    simp only [releaseUpdate] at member ⊢
    split at member
    · exact .inl ⟨row, member, rfl, rfl⟩
    · refine .inl (kept_failedAt ?_ ?_ member)
      · exact fun _ => rfl
      · exact fun _ => rfl
  | failWrite presented error terminal =>
    simp only [Request.advance] at taken
    split at taken <;> cases taken
    simp only [failUpdate] at member ⊢
    split at member
    · exact .inl ⟨row, member, rfl, rfl⟩
    rename_i counted
    rw [if_neg counted]
    cases terminal with
    | false =>
      refine .inl (kept_failedAt ?_ ?_ member)
      · exact fun _ => rfl
      · exact fun _ => rfl
    | true =>
      obtain ⟨old, there, rfl⟩ := Table.mem_updateMany.mp member
      by_cases leased : leasedTo sha256 clock presented old = true
      · rw [if_pos leased]
        refine .inr ⟨presented, error, rfl, rfl, ?_⟩
        simp only [leasedTo, decide_eq_true_eq] at leased
        exact leased.1
      · rw [if_neg leased]
        exact .inl ⟨old, there, rfl, rfl⟩
  | completeStore userId id result lockedAt work =>
    cases taken
    unfold completeCommit at member ⊢
    split at member
    · exact .inl ⟨row, member, rfl, rfl⟩
    rename_i stored done
    split at member
    · exact .inl ⟨row, member, rfl, rfl⟩
    rename_i after needs finished
    have written : after = _ := (finishCompletion_ok finished).2
    change row ∈ after.messages at member
    rw [written] at member
    have kept : ∃ old ∈ stored.db.messages, old.id = row.id ∧
        old.processingFailedAt = row.processingFailedAt := by
      refine kept_failedAt ?_ ?_ member
      · exact fun _ => rfl
      · exact fun _ => rfl
    obtain ⟨middle, there, ids, same⟩ := kept
    obtain ⟨old, before, oldId, _, failedAt, _⟩ := stored_row done there
    exact .inl ⟨old, before, oldId.trans ids, failedAt.trans same⟩
  | heartbeat presented leaseSeconds => cases taken; exact unchanged rfl
  | done response => cases taken
  | _ =>
    simp only [Request.advance] at taken
    repeat' split at taken
    all_goals cases taken
    all_goals exact unchanged rfl

end Answers

/-! ## What every step guarantees -/

/-- The three promises of a processing lease, for one step of any run. -/
structure Guarded (before after : World) : Prop where
  /-- A lease serves the holder of the latest claim, unexpired and not given up. -/
  uses : ∀ (job : Nat) (request : Request), before.requests[job]? = some request →
    (∀ response, request ≠ .done response) → after.requests[job]? = some (.done .ok) →
      ∃ id holder grant, request.presents = some (id, holder) ∧
        Lease.lastClaim id before.history = some (holder, grant.payload) ∧
        current id before.history = some grant ∧ grant.holder = holder ∧
        request.judgedAt before.clock < grant.expiresAt
  /-- A completion commits on the snapshot that was claimed. -/
  completes : ∀ (job : Nat) userId id result lockedAt work,
    before.requests[job]? = some (.completeStore userId id result lockedAt work) →
      after.requests[job]? = some (.done .ok) →
        ∃ grant, current id before.history = some grant ∧
          processingSnapshot work = grant.payload.snapshot
  /-- Only the last attempt's failure is terminal. -/
  failures : ∀ row ∈ after.db.messages, row.processingFailedAt ≠ none →
    (∃ old ∈ before.db.messages, old.id = row.id ∧
        old.processingFailedAt = row.processingFailedAt) ∨
      ∃ (job : Nat) (request : LeaseRequest) (error : String)
        (grant : Grant Holder Time Claimed),
        before.requests[job]? = some (.failWrite request error true) ∧
        after.requests[job]? = some (.done .ok) ∧ request.id = row.id ∧
        current row.id before.history = some grant ∧ grant.holder = request.holder ∧
        before.clock < grant.expiresAt ∧ maxAttempts ≤ grant.payload.attempt
  /-- A claim issues the current lease, never of a message that has failed for good. -/
  claims : ∀ (job : Nat) (request : Request) id holder expiresAt,
    before.requests[job]? = some request → (∀ response, request ≠ .done response) →
      after.requests[job]? = some (.done (.claim (some (id, holder, expiresAt)))) →
        (∃ grant, current id after.history = some grant ∧ grant.holder = holder ∧
          grant.expiresAt = expiresAt) ∧
        ∀ row, row ∈ before.db.messages ∨ row ∈ after.db.messages → row.id = id →
          row.processingFailedAt = none

section Guarantees

variable {sha256} {world after : World} {action : Action}

theorem uses_guarded (consistent : Consistent sha256 world) (injective : Function.Injective sha256)
    (taken : step sha256 world action = some after) {job : Nat} {request : Request}
    (here : world.requests[job]? = some request) (waiting : ∀ response, request ≠ .done response)
    (ok : after.requests[job]? = some (.done .ok)) :
    ∃ id holder grant, request.presents = some (id, holder) ∧
      Lease.lastClaim id world.history = some (holder, grant.payload) ∧
      current id world.history = some grant ∧ grant.holder = holder ∧
      request.judgedAt world.clock < grant.expiresAt := by
  have lawful := (consistent_step injective consistent taken).lawful
  obtain ⟨token, out, ran, rfl, next⟩ := step_answered taken here ok waiting nofun
  obtain ⟨id, holder, event, presents, recorded, use⟩ := presents_of_ok ran next
  have logged : (world.advanced job out).history = event :: world.history := by
    simp [World.advanced, recorded]
  rw [logged] at lawful
  obtain ⟨grant, held, same, later⟩ := lawful.1.held use
  have claimed := Lease.lastClaim_of_current held
  rw [same] at claimed
  exact ⟨id, holder, grant, presents, claimed, held, same, later⟩

theorem failures_guarded (consistent : Consistent sha256 world)
    (injective : Function.Injective sha256) (taken : step sha256 world action = some after)
    {row : Message} (member : row ∈ after.db.messages) (failed : row.processingFailedAt ≠ none) :
    (∃ old ∈ world.db.messages, old.id = row.id ∧
        old.processingFailedAt = row.processingFailedAt) ∨
      ∃ (job : Nat) (request : LeaseRequest) (error : String)
        (grant : Grant Holder Time Claimed),
        world.requests[job]? = some (.failWrite request error true) ∧
        after.requests[job]? = some (.done .ok) ∧ request.id = row.id ∧
        current row.id world.history = some grant ∧ grant.holder = request.holder ∧
        world.clock < grant.expiresAt ∧ maxAttempts ≤ grant.payload.attempt := by
  cases action with
  | advance job token =>
    have lawful := (consistent_step injective consistent taken).lawful
    simp only [step] at taken
    split at taken
    · cases taken
    rename_i request here
    obtain ⟨out, ran, rfl⟩ := Option.map_eq_some_iff.mp taken
    rcases advance_failedAt ran member with kept | ⟨presented, error, rfl, ok, own⟩
    · exact .inl kept
    · have recorded := failWrite_event ran ok
      have logged : (world.advanced job out).history =
          .ended presented.id presented.holder world.clock (.failed true) :: world.history := by
        simp [World.advanced, recorded]
      rw [logged] at lawful
      obtain ⟨grant, held, same, later, last⟩ := lawful.1
      have bound : job < world.requests.length := (List.getElem?_eq_some_iff.mp here).1
      refine .inr ⟨job, presented, error, grant, here, ?_, own.symm, own ▸ held, same, later, last rfl⟩
      simp [World.advanced, ok, bound]
  | others db =>
    simp only [step] at taken
    split at taken
    · rename_i spares
      cases taken
      rcases spares.2 row member with ⟨old, before, same, columns⟩ | ⟨_, unleased⟩
      · exact .inl ⟨old, before, same, congrArg LeaseColumns.failedAt columns⟩
      · exact absurd (congrArg LeaseColumns.failedAt unleased) failed
    · cases taken
  | arrive request =>
    simp only [step] at taken
    split at taken <;> cases taken
    exact .inl ⟨row, member, rfl, rfl⟩
  | tick later =>
    simp only [step] at taken
    split at taken <;> cases taken
    exact .inl ⟨row, member, rfl, rfl⟩
  | crash job =>
    cases taken
    exact .inl ⟨row, member, rfl, rfl⟩

theorem claims_guarded (consistent : Consistent sha256 world)
    (taken : step sha256 world action = some after) {job : Nat} {request : Request} {id : Id}
    {holder : Holder} {expiresAt : Time} (here : world.requests[job]? = some request)
    (waiting : ∀ response, request ≠ .done response)
    (granted : after.requests[job]? = some (.done (.claim (some (id, holder, expiresAt))))) :
    (∃ grant, current id after.history = some grant ∧ grant.holder = holder ∧
      grant.expiresAt = expiresAt) ∧
    ∀ row, row ∈ world.db.messages ∨ row ∈ after.db.messages → row.id = id →
      row.processingFailedAt = none := by
  obtain ⟨token, out, ran, rfl, next⟩ := step_answered taken here granted waiting nofun
  obtain ⟨claiming, page, work, rfl, counted, written, moment, claimed, recorded⟩ :=
    claim_event ran next
  have logged : (world.advanced job out).history =
      .claimed id holder moment expiresAt claimed :: world.history := by
    simp [World.advanced, recorded]
  have unfailed (row : Message) (member : row ∈ world.db.messages) (own : row.id = id) :
      row.processingFailedAt = none := by
    obtain ⟨found, there, matched⟩ := exists_of_countP (by rw [counted]; decide)
    simp only [claimable, decide_eq_true_eq] at matched
    rw [Table.eq_of_key_eq consistent.distinct member there (own.trans matched.1.symm)]
    exact matched.2.2.2.1
  refine ⟨⟨⟨holder, expiresAt, claimed⟩, by rw [logged]; simp [current], rfl, rfl⟩, ?_⟩
  rintro row (before | member) own
  · exact unfailed row before own
  · change row ∈ out.db.messages at member
    rw [written] at member
    have kept : ∃ old ∈ world.db.messages, old.id = row.id ∧
        old.processingFailedAt = row.processingFailedAt := by
      refine kept_failedAt ?_ ?_ member
      · exact fun _ => rfl
      · exact fun _ => rfl
    obtain ⟨old, there, ids, same⟩ := kept
    rw [← same]
    exact unfailed old there (ids.trans own)

end Guarantees

/-- **Processing leases exclude each other in every run.** -/
theorem leases_exclusive (injective : Function.Injective sha256) {world after : World}
    {action : Action} (reached : Run.Reachable (step sha256) Initial world)
    (taken : step sha256 world action = some after) : Guarded world after := by
  have consistent : Consistent sha256 world :=
    reached.invariant (fun _ => consistent_initial) fun _ _ _ before _ =>
      consistent_step injective before
  refine ⟨?_, ?_, ?_, ?_⟩
  · intro job request here waiting ok
    exact uses_guarded consistent injective taken here waiting ok
  · intro job userId id result lockedAt work here _
    obtain ⟨grant, held, _, _, same⟩ := consistent.locals job _ here
    exact ⟨grant, held, same⟩
  · exact fun row member failed => failures_guarded consistent injective taken member failed
  · intro job request id holder expiresAt here waiting granted
    exact claims_guarded consistent taken here waiting granted

/-- A received message in the open era. -/
def receivedMessage : World where
  db :=
    { installations := [{ id := 0 }]
      files := [{ id := 1 }]
      messages := [{ id := 2, status := .received, audioId := 1, installationId := some 0 }]
      nextId := 3 }
  known := [2]

def sampleToken : String := "dG9rZW4tb25lLWZvci10aGUtd2l0bmVzcy1ydW4tMDE"

/-- The digests of that token, and of the snapshot of an untouched message. -/
def sampleSha256 : String → String :=
  Digest.digest
    [(sampleToken, "8d85032b82d803d0dda526f284ee0734db6eaf3228cd7da575c94faa460e322d"),
      (snapshotText ⟨none, [], []⟩,
        "f56ca354fd1a9d53b33ee5e009b54dfdfc196098a42aaa3799e7b8042c3d3b67")]

/-- A device claims the message and submits its transcript, up to the commit. -/
def claimedAndTranscribed : List Action :=
  .arrive (.claim "device" [.transcription] 300) :: List.replicate 6 (.advance 0 sampleToken) ++
    .arrive (.complete "device" 2 { leaseToken := sampleToken, transcription := some { text := "hi" } }) ::
      List.replicate 4 (.advance 1 "")

theorem leases_exclusive_completion : ∃ world after,
    Run.exec (step sampleSha256) receivedMessage claimedAndTranscribed = some world ∧
      step sampleSha256 world (.advance 1 "") = some after ∧ after.history.length = 2 ∧
        Guarded world after := by
  have injective : Function.Injective sampleSha256 :=
    Digest.digest_injective (by decide) (by decide)
  have initial : Initial receivedMessage := ⟨by decide, by decide, rfl, rfl, rfl⟩
  have completed : ((Run.exec (step sampleSha256) receivedMessage claimedAndTranscribed).bind
      fun world => step sampleSha256 world (.advance 1 "")).map (·.history.length) = some 2 := by
    decide +kernel
  obtain ⟨after, ran, length⟩ := Option.map_eq_some_iff.mp completed
  obtain ⟨world, ran, taken⟩ := Option.bind_eq_some_iff.mp ran
  exact ⟨world, after, ran, taken, length,
    leases_exclusive sampleSha256 injective (Run.reachable_of_exec initial ran) taken⟩

end BoothOperator.Processing
