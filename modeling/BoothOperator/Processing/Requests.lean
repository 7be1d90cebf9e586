import BoothOperator.Lib.Lease
import BoothOperator.Lib.Run
import BoothOperator.Processing.Completion

/-! `routes/message-processing.ts` at the granularity of its database
statements. A request is where one handler stands and what its locals hold, and
`advance` runs its next statement; the two transactions that lock the message's
row hold it from their `FOR UPDATE` to their last statement. Beside the requests
the clock moves on and other writers change everything but the lease columns. -/
namespace BoothOperator.Processing

open BoothOperator.Schema

/-- `MAX_ATTEMPTS`. -/
def maxAttempts : Nat := 3

/-- `CLAIM_CANDIDATE_LIMIT`. -/
def claimCandidateLimit : Nat := 100

/-- Who presents a lease: the token and the signed-in user. -/
structure Holder where
  token : String
  userId : String
  deriving DecidableEq, Repr

/-- What a claim leaves with its lease: the attempt it counts as, and the
state of the message the holder was given. -/
structure Claimed where
  attempt : Nat
  snapshot : ProcessingSnapshot

/-- How a holder ends a lease. -/
inductive Ending where
  | released
  | failed (terminal : Bool)
  | completed (snapshot : ProcessingSnapshot)

abbrev LeaseEvent := Lease.Event Id Holder Time Claimed Ending

/-! ## Requests -/

/-- The locals of a claim: the era it found, and the clock it read, once. -/
structure Claiming where
  userId : String
  capabilities : List MessageProcessingStep
  leaseSeconds : Int
  era : Id
  now : Time

/-- The candidates left of a page, and where the next page starts. -/
structure Page where
  candidates : List Id
  skip : Nat

/-- A heartbeat, release or failure names its message and presents its lease. -/
structure LeaseRequest where
  id : Id
  holder : Holder

inductive Response where
  | claim (claimed : Option (Id × Holder × Time))
  | ok
  | notFound
  | installationEnded
  | leaseLost
  | rejected (reason : CompletionRejection)
  | aborted

/-- The next statement of a request, with the locals it uses. -/
inductive Request where
  | claim (userId : String) (capabilities : List MessageProcessingStep) (leaseSeconds : Int)
  | claimPage (claiming : Claiming) (skip : Nat)
  | claimEra (claiming : Claiming) (page : Page)
  | claimLock (claiming : Claiming) (candidate : Id) (page : Page)
  | claimRead (claiming : Claiming) (candidate : Id) (page : Page)
  | claimWrite (claiming : Claiming) (candidate : Id) (page : Page) (current : WorkMessage)
  | heartbeat (lease : LeaseRequest) (leaseSeconds : Int)
  | heartbeatRead (lease : LeaseRequest) (leaseSeconds : Int) (active : Option Id)
  | heartbeatWrite (lease : LeaseRequest) (leaseSeconds : Int) (active : Id)
  | release (lease : LeaseRequest)
  | fail (lease : LeaseRequest) (error : String)
  | failWrite (lease : LeaseRequest) (error : String) (terminal : Bool)
  | complete (userId : String) (id : Id) (result : Completion)
  | completeEra (userId : String) (id : Id) (result : Completion) (era : Id)
  | completeLock (userId : String) (id : Id) (result : Completion)
  | completeRead (userId : String) (id : Id) (result : Completion) (lockedAt : Time)
  | completeStore (userId : String) (id : Id) (result : Completion) (lockedAt : Time)
      (current : WorkMessage)
  | done (response : Response)

/-- The requests as they arrive. -/
def Request.isCall : Request → Bool
  | .claim .. | .heartbeat .. | .release .. | .fail .. | .complete .. => true
  | _ => false

/-- The message whose row the request's open transaction has locked. -/
def Request.locks : Request → Option Id
  | .claimRead _ candidate _ | .claimWrite _ candidate _ _ => some candidate
  | .completeRead _ id _ _ | .completeStore _ id _ _ _ => some id
  | _ => none

/-! ## Statements -/

variable (sha256 : String → String)

/-- `orderBy: [{ createdAt: "asc" }, { id: "asc" }]`. -/
def oldestFirst (rows : List Message) : List Message :=
  rows.insertionSort fun a b => a.createdAt < b.createdAt ∨ (a.createdAt = b.createdAt ∧ a.id ≤ b.id)

/-- One page of messages that could be claimed in the era. -/
def claimCandidates (era : Id) (skip : Nat) (db : Db) : List Id :=
  let open_ (row : Message) : Bool :=
    row.installationId = some era ∧ (row.status = .received ∨ row.status = .pending) ∧
      row.processingFailedAt = none
  (((oldestFirst (db.messages.filter open_)).drop skip).take claimCandidateLimit).map (·.id)

/-- No lease, or one that had expired when the claim read the clock. -/
def Unleased (now : Time) (row : Message) : Prop :=
  ∀ expiresAt, row.processingLeaseExpiresAt = some expiresAt → expiresAt ≤ now

instance (now : Time) (row : Message) : Decidable (Unleased now row) :=
  inferInstanceAs (Decidable (∀ expiresAt ∈ row.processingLeaseExpiresAt, expiresAt ≤ now))

/-- `WHERE` of the claim's locking `SELECT` and of its `updateMany`. -/
def claimable (claiming : Claiming) (candidate : Id) (row : Message) : Bool :=
  row.id = candidate ∧ row.installationId = some claiming.era ∧
    (row.status = .received ∨ row.status = .pending) ∧ row.processingFailedAt = none ∧
      Unleased claiming.now row

/-- Whether the message read under the lock is one for this device. -/
def wanted (claiming : Claiming) (current : WorkMessage) : Bool :=
  let needs := processingNeeds current
  needs ≠ [] ∧ Unleased claiming.now current.message ∧ ∀ need ∈ needs, need ∈ claiming.capabilities

def Claiming.expiresAt (claiming : Claiming) : Time := claiming.now + claiming.leaseSeconds * 1000

/-- `data` of the claim's `updateMany`. -/
def lease (claiming : Claiming) (token : String) (current : WorkMessage) (row : Message) : Message :=
  { row with
    processingLeaseTokenHash := some (leaseHash sha256 token)
    processingLeaseExpiresAt := some claiming.expiresAt
    processingLeasedAt := some claiming.now
    processingLeasedById := some claiming.userId
    processingSnapshotHash := some (processingSnapshotHash sha256 current)
    processingAttemptCount := row.processingAttemptCount + 1
    processingError := none }

/-- `where: { id, processingLeaseTokenHash, processingLeaseExpiresAt: { gt: now }, .. }`. -/
def leasedTo (now : Time) (request : LeaseRequest) (row : Message) : Bool :=
  row.id = request.id ∧ HoldsLease sha256 now request.holder.userId request.holder.token row

/-- What a statement did: the database, where the request goes on, and what
became of the message's lease. -/
structure Outcome where
  db : Db
  next : Request
  event : Option LeaseEvent := none

/-- Answer without a write. -/
def answer (db : Db) (response : Response) : Outcome := ⟨db, .done response, none⟩

/-- The claim's `updateMany`; an `updated.count` other than 1 leaves the
transaction empty-handed. -/
def claimUpdate (claiming : Claiming) (candidate : Id) (page : Page) (current : WorkMessage)
    (token : String) (db : Db) : Outcome :=
  if db.messages.countP (claimable claiming candidate) = 1 then
    { db := db.updateMessages (claimable claiming candidate) (lease sha256 claiming token current)
      next := .done (.claim (some (candidate, ⟨token, claiming.userId⟩, claiming.expiresAt)))
      event := some (.claimed candidate ⟨token, claiming.userId⟩ claiming.now claiming.expiresAt
        { attempt := ((db.message candidate).map (·.processingAttemptCount)).getD 0 + 1
          snapshot := processingSnapshot current }) }
  else ⟨db, .claimEra claiming page, none⟩

/-- The `updateMany` of `renewLease`. -/
def heartbeatUpdate (now : Time) (request : LeaseRequest) (leaseSeconds : Int) (active : Id)
    (db : Db) : Outcome :=
  let found (row : Message) : Bool :=
    leasedTo sha256 now request row ∧ row.installationId = some active
  let expiresAt := now + leaseSeconds * 1000
  if db.messages.countP found = 1 then
    { db := db.updateMessages found fun row => { row with processingLeaseExpiresAt := some expiresAt }
      next := .done .ok
      event := some (.renewed request.id request.holder now expiresAt) }
  else answer db .leaseLost

/-- The `updateMany` of a release. -/
def releaseUpdate (now : Time) (request : LeaseRequest) (db : Db) : Outcome :=
  let found := leasedTo sha256 now request
  if db.messages.countP found = 0 then answer db .leaseLost
  else
    { db := db.updateMessages found clearLease
      next := .done .ok
      event := some (.ended request.id request.holder now .released) }

/-- The `updateMany` of a failure. -/
def failUpdate (now : Time) (request : LeaseRequest) (error : String) (terminal : Bool) (db : Db) :
    Outcome :=
  let found := leasedTo sha256 now request
  if db.messages.countP found = 0 then answer db .leaseLost
  else
    { db := db.updateMessages found fun row =>
        { clearLease row with
          processingError := some error
          processingFailedAt := if terminal then some now else row.processingFailedAt }
      next := .done .ok
      event := some (.ended request.id request.holder now (.failed terminal)) }

/-- The statements of a completion after the snapshot check, in one: its row is
locked, and none of them is seen before the commit. -/
def completeCommit (now : Time) (userId : String) (id : Id) (result : Completion) (lockedAt : Time)
    (current : WorkMessage) (db : Db) : Outcome :=
  match storeParts sha256 now userId id result (extendLease now id db) with
  | .error reason => answer db (.rejected reason)
  | .ok stored =>
    match finishCompletion sha256 now userId id result.leaseToken stored.db with
    | .error reason => answer db (.rejected reason)
    | .ok (after, _) =>
      { db := after
        next := .done .ok
        event := some (.ended id ⟨result.leaseToken, userId⟩ lockedAt
          (.completed (processingSnapshot current))) }

/-- The next statement of a request; `none` while it waits for a row lock.
`token` is what `newLeaseToken` draws, `locked` which rows other transactions hold. -/
def Request.advance (now : Time) (token : String) (locked : Id → Bool) (db : Db) :
    Request → Option Outcome
  | .claim userId capabilities leaseSeconds =>
    match db.findActiveInstallation with
    | none => some (answer db (.claim none))
    | some active =>
      some ⟨db, .claimPage { userId, capabilities, leaseSeconds, era := active.id, now } 0, none⟩
  | .claimPage claiming skip =>
    match claimCandidates claiming.era skip db with
    | [] => some (answer db (.claim none))
    | candidates => some ⟨db, .claimEra claiming ⟨candidates, skip + candidates.length⟩, none⟩
  | .claimEra claiming page =>
    match page.candidates with
    | [] => some ⟨db, .claimPage claiming page.skip, none⟩
    | candidate :: candidates =>
      let page : Page := { page with candidates }
      if db.lockInstallationForWrite claiming.era then
        some ⟨db, .claimLock claiming candidate page, none⟩
      else some ⟨db, .claimEra claiming page, none⟩
  | .claimLock claiming candidate page =>
    -- `FOR UPDATE SKIP LOCKED`.
    if locked candidate = false ∧ db.messages.any (claimable claiming candidate) then
      some ⟨db, .claimRead claiming candidate page, none⟩
    else some ⟨db, .claimEra claiming page, none⟩
  | .claimRead claiming candidate page =>
    match findMessageWithWork db candidate with
    | none => some ⟨db, .claimEra claiming page, none⟩
    | some current =>
      if wanted claiming current then
        some ⟨db, .claimWrite claiming candidate page current, none⟩
      else some ⟨db, .claimEra claiming page, none⟩
  | .claimWrite claiming candidate page current =>
    some (claimUpdate sha256 claiming candidate page current token db)
  | .heartbeat request leaseSeconds =>
    some ⟨db, .heartbeatRead request leaseSeconds (db.findActiveInstallation.map (·.id)), none⟩
  | .heartbeatRead request leaseSeconds active =>
    match db.message request.id with
    | none => some (answer db .leaseLost)
    | some existing =>
      match active with
      | none => some (answer db .installationEnded)
      | some active =>
        if existing.installationId ≠ some active then some (answer db .installationEnded)
        else some ⟨db, .heartbeatWrite request leaseSeconds active, none⟩
  | .heartbeatWrite request leaseSeconds active =>
    if locked request.id then none
    else some (heartbeatUpdate sha256 now request leaseSeconds active db)
  | .release request =>
    if locked request.id then none else some (releaseUpdate sha256 now request db)
  | .fail request error =>
    match db.message request.id with
    | none => some (answer db .notFound)
    | some existing =>
      some ⟨db, .failWrite request error (maxAttempts ≤ existing.processingAttemptCount), none⟩
  | .failWrite request error terminal =>
    if locked request.id then none else some (failUpdate sha256 now request error terminal db)
  | .complete userId id result =>
    match db.message id with
    | none => some (answer db (.rejected .notFound))
    | some initial =>
      match initial.installationId with
      | none => some (answer db (.rejected .installationEnded))
      | some era => some ⟨db, .completeEra userId id result era, none⟩
  | .completeEra userId id result era =>
    if db.lockInstallationForWrite era then some ⟨db, .completeLock userId id result, none⟩
    else some (answer db (.rejected .installationEnded))
  | .completeLock userId id result =>
    if locked id then none
    else if db.messages.any (leasedTo sha256 now ⟨id, result.leaseToken, userId⟩) then
      some ⟨db, .completeRead userId id result now, none⟩
    else some (answer db (.rejected .leaseLost))
  | .completeRead userId id result lockedAt =>
    match findMessageWithWork db id with
    | none => some (answer db (.rejected .notFound))
    | some current =>
      if current.message.processingSnapshotHash = some (processingSnapshotHash sha256 current) then
        some ⟨db, .completeStore userId id result lockedAt current, none⟩
      else some (answer db (.rejected .staleSnapshot))
  | .completeStore userId id result lockedAt current =>
    some (completeCommit sha256 now userId id result lockedAt current db)
  | .done _ => none

/-- The statements of a request one after the other, with nothing between them. -/
def Request.uninterrupted (now : Time) (token : String) :
    Nat → Db → Request → Option Outcome
  | 0, db, request => some ⟨db, request, none⟩
  | more + 1, db, request =>
    match request.advance sha256 now token (fun _ => false) db with
    | none => none
    | some out =>
      match out.next with
      | .done _ => some out
      | next => Request.uninterrupted now token more out.db next

/-- The locking `SELECT` of a completion finds the one row of its id. -/
theorem any_leasedTo {db : Db} (distinct : (db.messages.map (·.id)).Nodup) {now : Time}
    {request : LeaseRequest} {row : Message} (found : db.message request.id = some row) :
    db.messages.any (leasedTo sha256 now request) =
      decide (HoldsLease sha256 now request.holder.userId request.holder.token row) := by
  obtain ⟨member, own⟩ := Table.findUnique_mem found
  rw [Bool.eq_iff_iff, List.any_eq_true, decide_eq_true_iff]
  constructor
  · rintro ⟨other, there, matched⟩
    obtain ⟨same, held⟩ : other.id = request.id ∧ _ := by simpa [leasedTo] using matched
    have one : other = row := Table.eq_of_key_eq distinct there member (same.trans own.symm)
    exact one ▸ held
  · intro held
    exact ⟨row, member, by simpa [leasedTo] using ⟨own, held⟩⟩

theorem findMessageWithWork_message {db : Db} {id : Id} {work : WorkMessage}
    (read : findMessageWithWork db id = some work) : db.message id = some work.message := by
  obtain ⟨row, found, rfl⟩ := Option.map_eq_some_iff.mp read
  exact found

/-- The commit is what `complete` does once the lease is checked. -/
theorem complete_of_checkLease {db : Db} {now : Time} {userId : String} {id : Id}
    {result : Completion} (current : WorkMessage)
    (checked : checkLease sha256 now userId id result.leaseToken db = .ok ()) :
    let out := completeCommit sha256 now userId id result now current db
    match complete sha256 now userId id result db with
    | .ok (stored, _) => out.db = stored.db ∧ out.next = .done .ok
    | .error reason => out.db = db ∧ out.next = .done (.rejected reason) := by
  simp only [complete, completeCommit, checked, bind, Except.bind]
  cases storeParts sha256 now userId id result (extendLease now id db) with
  | error reason => exact ⟨rfl, rfl⟩
  | ok stored =>
    simp only
    cases finishCompletion sha256 now userId id result.leaseToken stored.db with
    | error reason => exact ⟨rfl, rfl⟩
    | ok finished => exact ⟨rfl, rfl⟩

/-- The statements up to the snapshot check, run with nothing between them. -/
theorem uninterrupted_checkLease {db : Db} (distinct : (db.messages.map (·.id)).Nodup) (now : Time)
    (token userId : String) (id : Id) (result : Completion) :
    match checkLease sha256 now userId id result.leaseToken db with
    | .error reason =>
      Request.uninterrupted sha256 now token 5 db (.complete userId id result) =
        some (answer db (.rejected reason))
    | .ok () => ∃ current,
      Request.uninterrupted sha256 now token 5 db (.complete userId id result) =
        Request.uninterrupted sha256 now token 1 db (.completeStore userId id result now current) := by
  unfold checkLease
  cases found : db.message id with
  | none => simp [Request.uninterrupted, Request.advance, found, answer]
  | some row =>
    have any : db.messages.any (leasedTo sha256 now ⟨id, result.leaseToken, userId⟩) =
        decide (HoldsLease sha256 now userId result.leaseToken row) :=
      any_leasedTo sha256 distinct found
    cases named : row.installationId with
    | none => simp [Request.uninterrupted, Request.advance, found, named, answer]
    | some era =>
      by_cases writing : db.lockInstallationForWrite era = true
      · by_cases held : HoldsLease sha256 now userId result.leaseToken row
        · rw [decide_eq_true held] at any
          cases read : findMessageWithWork db id with
          | none =>
            simp [Request.uninterrupted, Request.advance, found, named, writing, held, any, read,
              answer]
          | some current =>
            obtain rfl : current.message = row :=
              Option.some.inj ((findMessageWithWork_message read).symm.trans found)
            by_cases fresh : current.message.processingSnapshotHash =
                some (processingSnapshotHash sha256 current)
            · simp only [named, writing, held, fresh, not_true_eq_false, if_false, if_true]
              exact ⟨current, by
                simp [Request.uninterrupted, Request.advance, found, named, writing, any, read,
                  fresh]⟩
            · simp [Request.uninterrupted, Request.advance, found, named, writing, held, any, read,
                fresh, answer]
        · simp [Request.uninterrupted, Request.advance, found, named, writing, held, any, answer]
      · simp [Request.uninterrupted, Request.advance, found, named, writing, answer]

/-- A completion nobody interrupts is the one transaction `complete` describes. -/
theorem complete_uninterrupted {db : Db} (distinct : (db.messages.map (·.id)).Nodup) (now : Time)
    (token userId : String) (id : Id) (result : Completion) :
    ∃ out, Request.uninterrupted sha256 now token 5 db (.complete userId id result) = some out ∧
      match complete sha256 now userId id result db with
      | .ok (stored, _) => out.db = stored.db ∧ out.next = .done .ok
      | .error reason => out.db = db ∧ out.next = .done (.rejected reason) := by
  have ran := uninterrupted_checkLease sha256 distinct now token userId id result
  cases checked : checkLease sha256 now userId id result.leaseToken db with
  | error reason =>
    rw [checked] at ran
    refine ⟨_, ran, ?_⟩
    simp [complete, checked, bind, Except.bind, answer]
  | ok =>
    rw [checked] at ran
    obtain ⟨current, ran⟩ := ran
    have commit := complete_of_checkLease sha256 current checked
    refine ⟨completeCommit sha256 now userId id result now current db, ?_, commit⟩
    rw [ran]
    simp only [Request.uninterrupted, Request.advance]
    split
    · rfl
    · split at commit
      · simp_all
      · simp_all

/-! ## Every interleaving -/

/-- The columns only this router writes. -/
structure LeaseColumns where
  tokenHash : Option String := none
  expiresAt : Option Time := none
  leasedById : Option String := none
  snapshotHash : Option String := none
  attemptCount : Nat := 0
  failedAt : Option Time := none
  deriving DecidableEq

def leaseColumns (row : Message) : LeaseColumns where
  tokenHash := row.processingLeaseTokenHash
  expiresAt := row.processingLeaseExpiresAt
  leasedById := row.processingLeasedById
  snapshotHash := row.processingSnapshotHash
  attemptCount := row.processingAttemptCount
  failedAt := row.processingFailedAt

structure World where
  db : Db
  clock : Time := 0
  requests : List Request := []
  /-- What became of leases so far, the latest first. -/
  history : List LeaseEvent := []
  /-- The ids of all messages there have been. -/
  known : List Id := []

inductive Action where
  | arrive (request : Request)
  | advance (request : Nat) (token : String)
  | crash (request : Nat)
  | tick (later : Time)
  | others (after : Db)

/-- What writers outside this router can do: anything, but a message keeps its
lease columns and a new one has an id of its own and no lease. -/
def SparesLeases (known : List Id) (before after : Db) : Prop :=
  (after.messages.map (·.id)).Nodup ∧
    ∀ row ∈ after.messages,
      (∃ old ∈ before.messages, old.id = row.id ∧ leaseColumns old = leaseColumns row) ∨
        (row.id ∉ known ∧ leaseColumns row = {})

instance (known : List Id) (before after : Db) : Decidable (SparesLeases known before after) :=
  inferInstanceAs (Decidable (_ ∧ _))

/-- Some open transaction has the message's row locked. -/
def World.locked (world : World) (id : Id) : Bool :=
  world.requests.any fun request => request.locks = some id

def World.advanced (world : World) (request : Nat) (out : Outcome) : World :=
  { world with
    db := out.db
    requests := world.requests.set request out.next
    history := out.event.toList ++ world.history }

def step (world : World) : Action → Option World
  | .arrive request =>
    if request.isCall then some { world with requests := world.requests ++ [request] } else none
  | .advance request token =>
    match world.requests[request]? with
    | none => none
    | some current =>
      (current.advance sha256 world.clock token world.locked world.db).map (world.advanced request)
  | .crash request =>
    some { world with requests := world.requests.set request (.done .aborted) }
  | .tick later => if world.clock ≤ later then some { world with clock := later } else none
  | .others after =>
    if SparesLeases world.known world.db after then
      some { world with db := after, known := after.messages.map (·.id) ++ world.known }
    else none

/-- A database whose messages nobody has claimed, and no request. -/
structure Initial (world : World) : Prop where
  distinct : (world.db.messages.map (·.id)).Nodup
  unleased : ∀ row ∈ world.db.messages, leaseColumns row = {}
  idle : world.requests = []
  history : world.history = []
  known : world.known = world.db.messages.map (·.id)

end BoothOperator.Processing
