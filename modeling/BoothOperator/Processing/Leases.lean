import BoothOperator.Processing.Requests

/-! Processing leases exclude each other. The lease columns of every message
are the current lease of the history, so a statement that presents a lease
succeeds for the holder of the latest claim only, and the history is lawful: a
completion ends the lease on the snapshot it was granted for, and a failure is
terminal only for a lease that was the last attempt. -/
namespace BoothOperator.Processing

open BoothOperator.Schema
open BoothOperator.Lease (Grant current claims HeldBy Lawful)

/-- A claim counts as one more attempt. -/
def Grants (id : Id) (past : List LeaseEvent) (claimed : Claimed) : Prop :=
  claimed.attempt = claims id past + 1

/-- A terminal failure is of the last attempt, a completion of the snapshot
that was granted. -/
def Permits (grant : Grant Holder Time Claimed) : Ending → Prop
  | .released => True
  | .failed terminal => terminal = true → maxAttempts ≤ grant.payload.attempt
  | .completed snapshot => snapshot = grant.payload.snapshot

variable (sha256 : String → String)

/-- The lease columns of a row are its current lease. -/
structure Represents (history : List LeaseEvent) (row : Message) : Prop where
  tokenHash : row.processingLeaseTokenHash =
    (current row.id history).map fun grant => leaseHash sha256 grant.holder.token
  expiresAt : row.processingLeaseExpiresAt = (current row.id history).map (·.expiresAt)
  leasedById : row.processingLeasedById = (current row.id history).map (·.holder.userId)
  snapshotHash : row.processingSnapshotHash =
    (current row.id history).map fun grant => sha256 (snapshotText grant.payload.snapshot)
  attempts : row.processingAttemptCount = claims row.id history
  attempt : ∀ grant, current row.id history = some grant →
    grant.payload.attempt = claims row.id history

/-- What a request's locals say about the history while it waits for its next statement. -/
def Locals (history : List LeaseEvent) : Request → Prop
  | .failWrite request _ terminal => terminal = true → maxAttempts ≤ claims request.id history
  | .completeRead userId id result lockedAt => HeldBy history id ⟨result.leaseToken, userId⟩ lockedAt
  | .completeStore userId id result lockedAt work =>
    ∃ grant, current id history = some grant ∧ grant.holder = ⟨result.leaseToken, userId⟩ ∧
      lockedAt < grant.expiresAt ∧ processingSnapshot work = grant.payload.snapshot
  | _ => True

/-- The invariant of every run. -/
structure Consistent (world : World) : Prop where
  distinct : (world.db.messages.map (·.id)).Nodup
  known : ∀ row ∈ world.db.messages, row.id ∈ world.known
  logged : ∀ event ∈ world.history, event.key ∈ world.known
  rows : ∀ row ∈ world.db.messages, Represents sha256 world.history row
  lawful : Lawful Grants Permits world.history
  exclusive : ∀ (i j : Nat) (one other : Request) (id : Id), world.requests[i]? = some one →
    world.requests[j]? = some other → one.locks = some id → other.locks = some id → i = j
  locals : ∀ (i : Nat) (request : Request), world.requests[i]? = some request → Locals world.history request

section Rows

variable {sha256} {history : List LeaseEvent} {row other : Message} {event : LeaseEvent}

theorem Represents.congr (represents : Represents sha256 history row) (ids : row.id = other.id)
    (columns : leaseColumns row = leaseColumns other) : Represents sha256 history other := by
  simp only [leaseColumns, LeaseColumns.mk.injEq] at columns
  obtain ⟨token, expires, leased, snapshot, attempts, _⟩ := columns
  constructor
  · rw [← token, ← ids]; exact represents.tokenHash
  · rw [← expires, ← ids]; exact represents.expiresAt
  · rw [← leased, ← ids]; exact represents.leasedById
  · rw [← snapshot, ← ids]; exact represents.snapshotHash
  · rw [← attempts, ← ids]; exact represents.attempts
  · rw [← ids]; exact represents.attempt

/-- What happens to another message's lease does not touch the row. -/
theorem Represents.of_other (represents : Represents sha256 history row)
    (elsewhere : row.id ≠ event.key) : Represents sha256 (event :: history) row := by
  have same : current row.id (event :: history) = current row.id history :=
    Lease.current_of_other elsewhere.symm
  have count : claims row.id (event :: history) = claims row.id history :=
    Lease.claims_of_other elsewhere.symm
  constructor
  all_goals simp only [same, count]
  · exact represents.tokenHash
  · exact represents.expiresAt
  · exact represents.leasedById
  · exact represents.snapshotHash
  · exact represents.attempts
  · exact represents.attempt

/-- A row nobody has leased, while the history knows nothing of it. -/
theorem Represents.of_unused (unleased : leaseColumns row = {})
    (unused : ∀ event ∈ history, event.key ≠ row.id) : Represents sha256 history row := by
  obtain ⟨none, zero⟩ := Lease.current_of_unused unused
  simp only [leaseColumns, LeaseColumns.mk.injEq] at unleased
  obtain ⟨token, expires, leased, snapshot, attempts, _⟩ := unleased
  constructor
  all_goals simp only [none, zero]
  · exact token
  · exact expires
  · exact leased
  · exact snapshot
  · exact attempts
  · intro grant held
    cases held

/-- A presented lease that the row honours is the current one, unexpired. -/
theorem Represents.held (represents : Represents sha256 history row)
    (injective : Function.Injective sha256) {now : Time} {userId token : String}
    (holds : HoldsLease sha256 now userId token row) :
    ∃ grant, current row.id history = some grant ∧ grant.holder = ⟨token, userId⟩ ∧
      now < grant.expiresAt := by
  obtain ⟨tokenHash, ⟨expiresAt, expires, later⟩, leasedById⟩ := holds
  rw [represents.tokenHash, Option.map_eq_some_iff] at tokenHash
  obtain ⟨grant, held, hash⟩ := tokenHash
  rw [represents.expiresAt, held, Option.map_some, Option.some.injEq] at expires
  rw [represents.leasedById, held, Option.map_some, Option.some.injEq] at leasedById
  refine ⟨grant, held, ?_, expires ▸ later⟩
  have token := injective hash
  cases holder : grant.holder with
  | mk heldToken heldUser =>
    rw [holder] at token leasedById
    simp only at token leasedById
    rw [token, leasedById]

/-- The row a claim may take has no live lease. -/
theorem Represents.unleased (represents : Represents sha256 history row) {now : Time}
    (unleased : Unleased now row) :
    ∀ grant, current row.id history = some grant → grant.expiresAt ≤ now := by
  intro grant held
  refine unleased grant.expiresAt ?_
  rw [represents.expiresAt, held, Option.map_some]

/-- The row after a claim is its new lease. -/
theorem Represents.leased (represents : Represents sha256 history row) (claiming : Claiming)
    (token : String) (work : WorkMessage) {moment : Time} {claimed : Claimed}
    (attempt : claimed.attempt = row.processingAttemptCount + 1)
    (snapshot : claimed.snapshot = processingSnapshot work) :
    Represents sha256
      (.claimed row.id ⟨token, claiming.userId⟩ moment claiming.expiresAt claimed :: history)
      (lease sha256 claiming token work row) := by
  have count := represents.attempts
  constructor
  all_goals simp only [lease, current, claims, if_true, Option.map_some]
  · rw [snapshot, processingSnapshotHash]
  · rw [count]
  · rintro grant ⟨⟩
    rw [attempt, count]

theorem Represents.renewed (represents : Represents sha256 history row)
    {grant : Grant Holder Time Claimed} (held : current row.id history = some grant)
    (holder : Holder) (moment expiresAt : Time) :
    Represents sha256 (.renewed row.id holder moment expiresAt :: history)
      { row with processingLeaseExpiresAt := some expiresAt } := by
  constructor
  all_goals simp only [current, claims, if_true, held, Option.map_some]
  · rw [represents.tokenHash, held, Option.map_some]
  · rw [represents.leasedById, held, Option.map_some]
  · rw [represents.snapshotHash, held, Option.map_some]
  · exact represents.attempts
  · rintro _ ⟨⟩
    exact represents.attempt grant held

/-- A row whose lease columns are cleared is one whose lease has ended. -/
theorem Represents.ended {id : Id} (own : row.id = id)
    (attempts : row.processingAttemptCount = claims id history)
    (cleared : leaseColumns row =
      { attemptCount := row.processingAttemptCount, failedAt := row.processingFailedAt })
    (holder : Holder) (moment : Time) (ending : Ending) :
    Represents sha256 (.ended id holder moment ending :: history) row := by
  subst own
  simp only [leaseColumns, LeaseColumns.mk.injEq, and_true] at cleared
  obtain ⟨token, expires, leased, snapshot⟩ := cleared
  constructor
  all_goals simp only [current, claims, if_true, Option.map_none]
  · exact token
  · exact expires
  · exact leased
  · exact snapshot
  · exact attempts
  · intro grant held
    cases held

end Rows

/-! ## Steps -/

section Steps

variable {sha256} {world : World} {job : Nat} {request : Request} {out : Outcome}

/-- What another message's event leaves of a request's locals. -/
theorem Locals.of_other {history : List LeaseEvent} {event : LeaseEvent}
    (locals : Locals history request) (elsewhere : request.locks ≠ some event.key) :
    Locals (event :: history) request := by
  cases request with
  | failWrite lease error terminal =>
    intro last
    exact (locals last).trans (Lease.claims_le event)
  | completeRead userId id result lockedAt =>
    have other : event.key ≠ id := fun same => elsewhere (congrArg some same.symm)
    obtain ⟨grant, held, rest⟩ := locals
    exact ⟨grant, (Lease.current_of_other other).trans held, rest⟩
  | completeStore userId id result lockedAt work =>
    have other : event.key ≠ id := fun same => elsewhere (congrArg some same.symm)
    obtain ⟨grant, held, rest⟩ := locals
    exact ⟨grant, (Lease.current_of_other other).trans held, rest⟩
  | _ => trivial

theorem advanced_request {i : Nat} {now : Request}
    (there : (world.advanced job out).requests[i]? = some now) :
    (i = job ∧ now = out.next) ∨ (i ≠ job ∧ world.requests[i]? = some now) := by
  simp only [World.advanced, List.getElem?_set] at there
  by_cases same : job = i
  · rw [if_pos same] at there
    split at there
    · cases there
      exact .inl ⟨same.symm, rfl⟩
    · cases there
  · rw [if_neg same] at there
    exact .inr ⟨fun agree => same agree.symm, there⟩

theorem locks_of_unlocked {id : Id} (unlocked : world.locked id = false) {i : Nat}
    {other : Request} (there : world.requests[i]? = some other) : other.locks ≠ some id := by
  intro held
  have locked : world.locked id = true :=
    List.any_eq_true.mpr ⟨other, List.mem_of_getElem? there, by simp [held]⟩
  rw [unlocked] at locked
  cases locked

/-- A statement that writes nothing and locks at most a free row. -/
theorem Consistent.quiet (consistent : Consistent sha256 world)
    (here : world.requests[job]? = some request) (unchanged : out.db = world.db)
    (silent : out.event = none) (locals : Locals world.history out.next)
    (locks : ∀ id, out.next.locks = some id → request.locks = some id ∨ world.locked id = false) :
    Consistent sha256 (world.advanced job out) := by
  have history : (world.advanced job out).history = world.history := by
    simp [World.advanced, silent]
  have db : (world.advanced job out).db = world.db := unchanged
  refine ⟨db ▸ consistent.distinct, db ▸ consistent.known, history ▸ consistent.logged, ?_,
    history ▸ consistent.lawful, ?_, ?_⟩
  · rw [db, history]
    exact consistent.rows
  · intro i j one other id oneThere otherThere oneLocks otherLocks
    rcases advanced_request oneThere with ⟨rfl, rfl⟩ | ⟨differs, before⟩
    · rcases advanced_request otherThere with ⟨rfl, rfl⟩ | ⟨_, otherBefore⟩
      · rfl
      · rcases locks id oneLocks with kept | unlocked
        · exact consistent.exclusive _ _ _ _ id here otherBefore kept otherLocks
        · exact absurd otherLocks (locks_of_unlocked unlocked otherBefore)
    · rcases advanced_request otherThere with ⟨rfl, rfl⟩ | ⟨_, otherBefore⟩
      · rcases locks id otherLocks with kept | unlocked
        · exact consistent.exclusive _ _ _ _ id before here oneLocks kept
        · exact absurd oneLocks (locks_of_unlocked unlocked before)
      · exact consistent.exclusive _ _ _ _ id before otherBefore oneLocks otherLocks
  · intro i now there
    rw [history]
    rcases advanced_request there with ⟨_, rfl⟩ | ⟨_, before⟩
    · exact locals
    · exact consistent.locals i now before

/-- A statement that writes nothing and leaves its request without a lock. -/
theorem Consistent.lockless (consistent : Consistent sha256 world)
    (here : world.requests[job]? = some request) (unchanged : out.db = world.db)
    (silent : out.event = none) (locals : Locals world.history out.next)
    (unlocked : out.next.locks = none) : Consistent sha256 (world.advanced job out) := by
  refine consistent.quiet here unchanged silent locals fun id locks => ?_
  cases unlocked.symm.trans locks

/-- A statement that makes a lawful event of a message nobody else has locked. -/
theorem Consistent.record (consistent : Consistent sha256 world) {event : LeaseEvent}
    (recorded : out.event = some event) {response : Response} (answered : out.next = .done response)
    (alone : ∀ (i : Nat) (other : Request), world.requests[i]? = some other →
      other.locks = some event.key → i = job)
    (allowed : event.Allowed Grants Permits world.history) (keyKnown : event.key ∈ world.known)
    (ids : out.db.messages.map (·.id) = world.db.messages.map (·.id))
    (rows : ∀ row ∈ out.db.messages, Represents sha256 (event :: world.history) row) :
    Consistent sha256 (world.advanced job out) := by
  have history : (world.advanced job out).history = event :: world.history := by
    simp [World.advanced, recorded]
  have idle : out.next.locks = none := by rw [answered]; rfl
  refine ⟨?_, ?_, ?_, ?_, ?_, ?_, ?_⟩
  · change (out.db.messages.map (·.id)).Nodup
    rw [ids]
    exact consistent.distinct
  · intro row member
    have there : row.id ∈ out.db.messages.map (·.id) := List.mem_map_of_mem member
    rw [ids] at there
    obtain ⟨old, present, same⟩ := List.mem_map.mp there
    rw [← same]
    exact consistent.known old present
  · rw [history]
    exact List.forall_mem_cons.mpr ⟨keyKnown, consistent.logged⟩
  · rw [history]
    exact rows
  · rw [history]
    exact ⟨allowed, consistent.lawful⟩
  · intro i j one other id oneThere otherThere oneLocks otherLocks
    rcases advanced_request oneThere with ⟨_, rfl⟩ | ⟨_, before⟩
    · rw [idle] at oneLocks
      cases oneLocks
    · rcases advanced_request otherThere with ⟨_, rfl⟩ | ⟨_, otherBefore⟩
      · rw [idle] at otherLocks
        cases otherLocks
      · exact consistent.exclusive i j one other id before otherBefore oneLocks otherLocks
  · intro i now there
    rw [history]
    rcases advanced_request there with ⟨_, rfl⟩ | ⟨differs, before⟩
    · rw [answered]
      trivial
    · refine (consistent.locals i now before).of_other fun held => ?_
      exact differs (alone i now before held)

/-- The rows after an update of the one row whose lease the event is about. -/
theorem Consistent.rows_updated (consistent : Consistent sha256 world) {found : Message → Bool}
    {change : Message → Message} {event : LeaseEvent}
    (some : ∃ row ∈ world.db.messages, found row = true)
    (own : ∀ row, found row = true → row.id = event.key)
    (changed : ∀ row ∈ world.db.messages, found row = true → row.id = event.key →
      Represents sha256 (event :: world.history) (change row)) :
    ∀ row ∈ (world.db.updateMessages found change).messages,
      Represents sha256 (event :: world.history) row := by
  intro row member
  rcases Table.mem_updateMany_unique consistent.distinct some own member with
    ⟨elsewhere, there⟩ | ⟨old, there, matched, key, rfl⟩
  · exact (consistent.rows row there).of_other elsewhere
  · exact changed old there matched key

theorem exists_of_countP {found : Message → Bool} {rows : List Message}
    (counted : rows.countP found ≠ 0) : ∃ row ∈ rows, found row = true :=
  List.countP_pos_iff.mp (Nat.pos_of_ne_zero counted)

/-- A presented lease that some row honours is the current lease of that message. -/
theorem Consistent.held (consistent : Consistent sha256 world)
    (injective : Function.Injective sha256) {now : Time} {presented : LeaseRequest} {row : Message}
    (member : row ∈ world.db.messages) (leased : leasedTo sha256 now presented row = true) :
    presented.id ∈ world.known ∧ ∃ grant, current presented.id world.history = some grant ∧
      grant.holder = presented.holder ∧ now < grant.expiresAt ∧
        grant.payload.attempt = claims presented.id world.history := by
  simp only [leasedTo, decide_eq_true_eq] at leased
  obtain ⟨same, holds⟩ := leased
  obtain ⟨grant, held, holder, later⟩ := (consistent.rows row member).held injective holds
  have attempt := (consistent.rows row member).attempt grant held
  rw [same] at held attempt
  exact ⟨same ▸ consistent.known row member, grant, held, holder, later, attempt⟩

theorem Consistent.claimWrite (consistent : Consistent sha256 world) {claiming : Claiming}
    {candidate : Id} {page : Page} {work : WorkMessage} {token : String}
    (here : world.requests[job]? = some (.claimWrite claiming candidate page work)) :
    Consistent sha256
      (world.advanced job (claimUpdate sha256 claiming candidate page work token world.db)) := by
  unfold claimUpdate
  by_cases counted : world.db.messages.countP (claimable claiming candidate) = 1
  · rw [if_pos counted]
    have nonzero : world.db.messages.countP (claimable claiming candidate) ≠ 0 := by omega
    have own (row : Message) (matched : claimable claiming candidate row = true) :
        row.id = candidate ∧ Unleased claiming.now row := by
      simp only [claimable, decide_eq_true_eq] at matched
      exact ⟨matched.1, matched.2.2.2.2⟩
    obtain ⟨row, member, matched⟩ := exists_of_countP nonzero
    obtain ⟨rfl, unleased⟩ := own row matched
    have represents := consistent.rows row member
    have found : world.db.message row.id = Option.some row :=
      Table.findUnique_of_mem consistent.distinct member
    refine consistent.record rfl rfl ?_ ?_ (consistent.known row member) ?_ ?_
    · intro i other there locks
      exact consistent.exclusive i job other _ row.id there here locks rfl
    · refine ⟨represents.unleased unleased, ?_⟩
      simp only [Grants, found, Option.map_some, Option.getD_some, represents.attempts]
    · refine Db.ids_updateMessages ?_ world.db
      exact fun _ => rfl
    · refine consistent.rows_updated ⟨row, member, matched⟩ (fun other hit => (own other hit).1) ?_
      intro other there hit key
      obtain rfl : other = row := Table.eq_of_key_eq consistent.distinct there member key
      refine (consistent.rows other there).leased claiming token work ?_ rfl
      simp [found]
  · rw [if_neg counted]
    exact consistent.lockless here rfl rfl trivial rfl

theorem Consistent.heartbeatWrite (consistent : Consistent sha256 world)
    (injective : Function.Injective sha256) {presented : LeaseRequest} {leaseSeconds : Int}
    {active : Id} {now : Time} (here : world.requests[job]? = some request)
    (unlocked : world.locked presented.id = false) :
    Consistent sha256
      (world.advanced job (heartbeatUpdate sha256 now presented leaseSeconds active world.db)) := by
  simp only [heartbeatUpdate]
  split
  · rename_i counted
    obtain ⟨row, member, matched⟩ := exists_of_countP (by rw [counted]; decide)
    simp only [decide_eq_true_eq] at matched
    obtain ⟨known, grant, held, holder, later, _⟩ := consistent.held injective member matched.1
    refine consistent.record rfl rfl ?_ ⟨grant, held, holder, later⟩ known ?_ ?_
    · intro i other there locks
      exact absurd locks (locks_of_unlocked unlocked there)
    · refine Db.ids_updateMessages ?_ world.db
      exact fun _ => rfl
    · refine consistent.rows_updated ⟨row, member, by simpa using matched⟩ ?_ ?_
      · intro other hit
        simp only [leasedTo, decide_eq_true_eq] at hit
        exact hit.1.1
      · intro other there hit key
        have own : other.id = presented.id := key
        rw [← own] at held ⊢
        exact (consistent.rows other there).renewed held presented.holder now _
  · exact consistent.lockless here rfl rfl trivial rfl

/-- A lease given up by its holder. -/
theorem Consistent.ended (consistent : Consistent sha256 world)
    (injective : Function.Injective sha256) {presented : LeaseRequest} {now : Time}
    (unlocked : world.locked presented.id = false) {change : Message → Message} {ending : Ending}
    (kept : ∀ row, (change row).id = row.id ∧
      (change row).processingAttemptCount = row.processingAttemptCount)
    (cleared : ∀ row, leaseColumns (change row) =
      { attemptCount := (change row).processingAttemptCount
        failedAt := (change row).processingFailedAt })
    (counted : world.db.messages.countP (leasedTo sha256 now presented) ≠ 0)
    (permitted : ∀ grant, current presented.id world.history = some grant →
      grant.payload.attempt = claims presented.id world.history → Permits grant ending) :
    Consistent sha256 (world.advanced job
      { db := world.db.updateMessages (leasedTo sha256 now presented) change
        next := .done .ok
        event := some (.ended presented.id presented.holder now ending) }) := by
  obtain ⟨row, member, matched⟩ := exists_of_countP counted
  obtain ⟨known, grant, held, holder, later, attempt⟩ := consistent.held injective member matched
  refine consistent.record rfl rfl ?_ ⟨grant, held, holder, later, permitted grant held attempt⟩
    known ?_ ?_
  · intro i other there locks
    exact absurd locks (locks_of_unlocked unlocked there)
  · exact world.db.ids_updateMessages fun row => (kept row).1
  · refine consistent.rows_updated ⟨row, member, matched⟩ ?_ ?_
    · intro other hit
      simp only [leasedTo, decide_eq_true_eq] at hit
      exact hit.1
    · intro other there _ key
      have own : (change other).id = presented.id := (kept other).1.trans key
      have attempts : (change other).processingAttemptCount =
          claims presented.id world.history := by
        rw [(kept other).2, (consistent.rows other there).attempts]
        exact congrArg (claims · world.history) key
      exact Represents.ended own attempts (cleared other) presented.holder now ending

end Steps

/-! ## The completing transaction -/

section Completing

variable {sha256} {now : Time} {userId : String} {id : Id} {db : Db}

/-- The lease columns of all messages. -/
def leaseStates (db : Db) : List (Id × LeaseColumns) :=
  db.messages.map fun row => (row.id, leaseColumns row)

theorem leaseStates_updateMessages {found : Message → Bool} {change : Message → Message}
    (ids : ∀ row, (change row).id = row.id)
    (columns : ∀ row, leaseColumns (change row) = leaseColumns row) (db : Db) :
    leaseStates (db.updateMessages found change) = leaseStates db := by
  refine Table.map_updateMany _ (fun row => ?_) db.messages
  rw [ids, columns]

theorem leaseStates_of_messages {after : Db} (same : after.messages = db.messages) :
    leaseStates after = leaseStates db := by
  rw [leaseStates, same, leaseStates]

theorem leaseStates_advanceMessage (id : Id) (db : Db) :
    leaseStates (Pipeline.advanceMessageAfterModeration id db) = leaseStates db := by
  refine leaseStates_updateMessages ?_ ?_ db
  · exact fun _ => rfl
  · exact fun _ => rfl

theorem completeTranscription_leaseStates {part : TranscriptionPart} {stored : Option Id × Db}
    (done : completeTranscription sha256 now userId id part db = .ok stored) :
    leaseStates stored.2 = leaseStates db := by
  rw [completeTranscription_ok done]
  have recorded := leaseStates_of_messages
    (Pipeline.recordTranscription_messages sha256 now (part.result userId id) db)
  rw [← recorded]
  unfold surfaceTranscript
  split
  · refine leaseStates_updateMessages ?_ ?_ _
    · exact fun _ => rfl
    · exact fun _ => rfl
  · exact leaseStates_advanceMessage id _

theorem completeTranslation_leaseStates {part : TranslationPart} {transcriptionId : Option Id}
    {stored : Option Id × Db}
    (done : completeTranslation sha256 now id part transcriptionId db = .ok stored) :
    leaseStates stored.2 = leaseStates db := by
  unfold completeTranslation at done
  split at done
  · rename_i recorded
    have same := congrArg (·.2.messages) recorded
    cases done
    exact leaseStates_of_messages
      (same.symm.trans (Pipeline.recordTranslation_messages sha256 now _ db))
  all_goals cases done

theorem completeModeration_leaseStates {part : ModerationPart} {transcriptionId : Option Id}
    {stored : Option Id × Db}
    (done : completeModeration sha256 now userId id part transcriptionId db = .ok stored) :
    leaseStates stored.2 = leaseStates db := by
  unfold completeModeration at done
  split at done
  · cases done
  split at done
  · rename_i recorded
    have same := congrArg (·.2.messages) recorded
    cases done
    rw [leaseStates_advanceMessage]
    exact leaseStates_of_messages
      (same.symm.trans (Pipeline.recordModeration_messages sha256 now _ db))
  · rename_i recorded
    have same := congrArg (·.2.messages) recorded
    cases done
    rw [leaseStates_advanceMessage]
    exact leaseStates_of_messages
      (same.symm.trans (Pipeline.recordModeration_messages sha256 now _ db))
  all_goals cases done

theorem completeReview_leaseStates {part : ReviewPart} {stored : Db}
    (done : completeReview now userId id part db = .ok stored) :
    leaseStates stored = leaseStates db := by
  unfold completeReview at done
  split at done
  · cases done
  split at done
  · cases done
  · rw [← Except.ok.inj done]
    refine leaseStates_updateMessages ?_ ?_ db
    · exact fun _ => rfl
    · exact fun _ => rfl

/-- Storing the parts leaves every lease alone. -/
theorem storeParts_leaseStates {result : Completion} {stored : Stored}
    (done : storeParts sha256 now userId id result db = .ok stored) :
    leaseStates stored.db = leaseStates db := by
  obtain ⟨transcribed, translated, moderated, one, two, three, four, _⟩ := storeParts_ok.mp done
  have transcription : leaseStates transcribed.2 = leaseStates db := by
    rcases optionally_ok.mp one with ⟨_, rfl⟩ | ⟨part, _, ok⟩
    · rfl
    · exact completeTranscription_leaseStates ok
  have translation : leaseStates translated.2 = leaseStates transcribed.2 := by
    rcases optionally_ok.mp two with ⟨_, rfl⟩ | ⟨part, _, ok⟩
    · rfl
    · exact completeTranslation_leaseStates ok
  have moderation : leaseStates moderated.2 = leaseStates translated.2 := by
    rcases optionally_ok.mp three with ⟨_, rfl⟩ | ⟨part, _, ok⟩
    · rfl
    · exact completeModeration_leaseStates ok
  have review : leaseStates stored.db = leaseStates moderated.2 := by
    rcases optionally_ok.mp four with ⟨_, same⟩ | ⟨part, _, ok⟩
    · rw [same]
    · exact completeReview_leaseStates ok
  rw [review, moderation, translation, transcription]

/-- A row as the last update finds it: the lease of the completed message has
been extended, and nothing else about leases has changed. -/
theorem stored_row {result : Completion} {stored : Stored}
    (done : storeParts sha256 now userId id result (extendLease now id db) = .ok stored)
    {row : Message} (member : row ∈ stored.db.messages) :
    ∃ old ∈ db.messages, old.id = row.id ∧
      old.processingAttemptCount = row.processingAttemptCount ∧
      old.processingFailedAt = row.processingFailedAt ∧
      (row.id ≠ id → leaseColumns old = leaseColumns row) := by
  have there : (row.id, leaseColumns row) ∈ leaseStates stored.db :=
    List.mem_map.mpr ⟨row, member, rfl⟩
  rw [storeParts_leaseStates done] at there
  obtain ⟨extended, present, same⟩ := List.mem_map.mp there
  obtain ⟨old, before, rfl⟩ := Table.mem_updateMany.mp present
  refine ⟨old, before, ?_⟩
  by_cases own : old.id = id
  · rw [if_pos (decide_eq_true own), Prod.mk.injEq] at same
    obtain ⟨ids, columns⟩ := same
    simp only [leaseColumns, LeaseColumns.mk.injEq] at columns
    obtain ⟨_, _, _, _, attempts, failedAt⟩ := columns
    exact ⟨ids, attempts, failedAt, fun elsewhere => absurd (ids.symm.trans own) elsewhere⟩
  · rw [if_neg (by simpa using own), Prod.mk.injEq] at same
    obtain ⟨ids, columns⟩ := same
    have rest := columns
    simp only [leaseColumns, LeaseColumns.mk.injEq] at rest
    exact ⟨ids, rest.2.2.2.2.1, rest.2.2.2.2.2, fun _ => columns⟩

theorem Consistent.completeStore {world : World} (consistent : Consistent sha256 world) {job : Nat}
    {result : Completion} {lockedAt : Time} {work : WorkMessage}
    (here : world.requests[job]? = some (.completeStore userId id result lockedAt work)) :
    Consistent sha256 (world.advanced job
      (completeCommit sha256 now userId id result lockedAt work world.db)) := by
  have refused (reason : CompletionRejection) :
      Consistent sha256 (world.advanced job (answer world.db (.rejected reason))) :=
    consistent.lockless here rfl rfl trivial rfl
  unfold completeCommit
  split
  · exact refused _
  rename_i stored done
  split
  · exact refused _
  rename_i after needs finished
  obtain ⟨counted, written⟩ := finishCompletion_ok finished
  have written : after = _ := written
  obtain ⟨grant, held, holder, later, snapshot⟩ := consistent.locals job _ here
  have ids : stored.db.messages.map (·.id) = world.db.messages.map (·.id) := by
    have states := congrArg (List.map Prod.fst) (storeParts_leaseStates done)
    simp only [leaseStates, List.map_map] at states
    refine states.trans ?_
    refine Db.ids_updateMessages ?_ world.db
    exact fun _ => rfl
  obtain ⟨leased, present, matched⟩ := exists_of_countP counted
  have known : id ∈ world.known := by
    obtain ⟨old, before, same, _⟩ := stored_row done present
    simp only [decide_eq_true_eq] at matched
    rw [← matched.1, ← same]
    exact consistent.known old before
  refine consistent.record rfl rfl ?_ ⟨grant, held, holder, later, snapshot⟩ known ?_ ?_
  · intro i other there locks
    exact consistent.exclusive i job other _ id there here locks rfl
  · change after.messages.map (·.id) = _
    rw [written]
    refine (Db.ids_updateMessages ?_ stored.db).trans ids
    exact fun _ => rfl
  · intro row member
    change row ∈ after.messages at member
    rw [written] at member
    have own (other : Message) (hit : decide (other.id = id ∧
        other.processingLeaseTokenHash = some (leaseHash sha256 result.leaseToken) ∧
          other.processingLeasedById = some userId) = true) : other.id = id :=
      (of_decide_eq_true hit).1
    rcases Table.mem_updateMany_unique (ids ▸ consistent.distinct) ⟨leased, present, matched⟩ own
      member with ⟨elsewhere, there⟩ | ⟨updated, there, _, key, rfl⟩
    · obtain ⟨old, before, same, _, _, columns⟩ := stored_row done there
      exact ((consistent.rows old before).congr same (columns elsewhere)).of_other elsewhere
    · obtain ⟨old, before, same, attempts, _⟩ := stored_row done there
      have counts : updated.processingAttemptCount = claims id world.history := by
        rw [← attempts, ← key, ← same]
        exact (consistent.rows old before).attempts
      refine Represents.ended ?_ ?_ ?_ _ _ _
      · exact key
      · exact counts
      · rfl

end Completing

/-! ## Runs -/

section Runs

variable {sha256} {world after : World}

/-- The lease a completion presents when it locks the row is still the one it
checks the snapshot of. -/
theorem Consistent.snapshotChecked (consistent : Consistent sha256 world)
    (injective : Function.Injective sha256) {job : Nat} {userId : String} {id : Id}
    {result : Completion} {lockedAt : Time} {work : WorkMessage}
    (here : world.requests[job]? = some (.completeRead userId id result lockedAt))
    (found : findMessageWithWork world.db id = some work)
    (fresh : work.message.processingSnapshotHash = some (processingSnapshotHash sha256 work)) :
    Locals world.history (.completeStore userId id result lockedAt work) := by
  obtain ⟨grant, held, holder, later⟩ := consistent.locals job _ here
  obtain ⟨row, present, rfl⟩ := Option.map_eq_some_iff.mp found
  obtain ⟨member, same⟩ := Table.findUnique_mem present
  have represents := (consistent.rows row member).snapshotHash
  rw [same, held, Option.map_some] at represents
  have hashes : sha256 (snapshotText grant.payload.snapshot) = processingSnapshotHash sha256 _ :=
    Option.some.inj (represents.symm.trans fresh)
  exact ⟨grant, held, holder, later, (snapshotText_injective (injective hashes)).symm⟩

theorem Consistent.advance (consistent : Consistent sha256 world)
    (injective : Function.Injective sha256) {job : Nat} {request : Request} {token : String}
    {out : Outcome} (here : world.requests[job]? = some request)
    (taken : request.advance sha256 world.clock token world.locked world.db = some out) :
    Consistent sha256 (world.advanced job out) := by
  have silent (response : Response) :
      Consistent sha256 (world.advanced job (answer world.db response)) :=
    consistent.lockless here rfl rfl trivial rfl
  cases request with
  | claim userId capabilities leaseSeconds =>
    simp only [Request.advance] at taken
    split at taken <;> cases taken
    · exact silent _
    · exact consistent.lockless here rfl rfl trivial rfl
  | claimPage claiming skip =>
    simp only [Request.advance] at taken
    split at taken <;> cases taken
    · exact silent _
    · exact consistent.lockless here rfl rfl trivial rfl
  | claimEra claiming page =>
    simp only [Request.advance] at taken
    repeat' split at taken
    all_goals cases taken
    all_goals exact consistent.lockless here rfl rfl trivial rfl
  | claimLock claiming candidate page =>
    simp only [Request.advance] at taken
    split at taken <;> cases taken
    · rename_i free
      refine consistent.quiet here rfl rfl trivial ?_
      rintro _ ⟨⟩
      exact .inr free.1
    · exact consistent.lockless here rfl rfl trivial rfl
  | claimRead claiming candidate page =>
    simp only [Request.advance] at taken
    repeat' split at taken
    all_goals cases taken
    · exact consistent.lockless here rfl rfl trivial rfl
    · exact consistent.quiet here rfl rfl trivial fun _ locks => .inl locks
    · exact consistent.lockless here rfl rfl trivial rfl
  | claimWrite claiming candidate page work =>
    cases taken
    exact consistent.claimWrite here
  | heartbeat presented leaseSeconds =>
    cases taken
    exact consistent.lockless here rfl rfl trivial rfl
  | heartbeatRead presented leaseSeconds active =>
    simp only [Request.advance] at taken
    repeat' split at taken
    all_goals cases taken
    all_goals exact consistent.lockless here rfl rfl trivial rfl
  | heartbeatWrite presented leaseSeconds active =>
    simp only [Request.advance] at taken
    split at taken
    · cases taken
    · rename_i unlocked
      cases taken
      exact consistent.heartbeatWrite injective here (by simpa using unlocked)
  | release presented =>
    simp only [Request.advance] at taken
    split at taken
    · cases taken
    · rename_i unlocked
      cases taken
      simp only [releaseUpdate]
      split
      · exact silent _
      · rename_i counted
        refine consistent.ended injective (by simpa using unlocked) ?_ ?_ counted ?_
        · exact fun _ => ⟨rfl, rfl⟩
        · exact fun _ => rfl
        · exact fun _ _ _ => trivial
  | fail presented error =>
    simp only [Request.advance] at taken
    split at taken <;> cases taken
    · exact silent _
    · rename_i existing found
      refine consistent.lockless here rfl rfl ?_ rfl
      obtain ⟨member, same⟩ := Table.findUnique_mem found
      intro terminal
      rw [← same, ← (consistent.rows existing member).attempts]
      exact of_decide_eq_true terminal
  | failWrite presented error terminal =>
    simp only [Request.advance] at taken
    split at taken
    · cases taken
    · rename_i unlocked
      cases taken
      simp only [failUpdate]
      split
      · exact silent _
      · rename_i counted
        refine consistent.ended injective (by simpa using unlocked) ?_ ?_ counted ?_
        · exact fun _ => ⟨rfl, rfl⟩
        · exact fun _ => rfl
        · intro grant _ attempt last
          rw [attempt]
          exact consistent.locals job _ here last
  | complete userId id result =>
    simp only [Request.advance] at taken
    repeat' split at taken
    all_goals cases taken
    all_goals exact consistent.lockless here rfl rfl trivial rfl
  | completeEra userId id result era =>
    simp only [Request.advance] at taken
    split at taken <;> cases taken
    all_goals exact consistent.lockless here rfl rfl trivial rfl
  | completeLock userId id result =>
    simp only [Request.advance] at taken
    split at taken
    · cases taken
    rename_i unlocked
    split at taken <;> cases taken
    · rename_i leased
      obtain ⟨row, member, matched⟩ := List.any_eq_true.mp leased
      obtain ⟨_, grant, held, holder, later, _⟩ := consistent.held injective member matched
      refine consistent.quiet here rfl rfl ⟨grant, held, holder, later⟩ ?_
      rintro _ ⟨⟩
      exact .inr (by simpa using unlocked)
    · exact silent _
  | completeRead userId id result lockedAt =>
    simp only [Request.advance] at taken
    repeat' split at taken
    all_goals cases taken
    · exact silent _
    · rename_i work found fresh
      refine consistent.quiet here rfl rfl ?_ fun _ locks => .inl locks
      exact consistent.snapshotChecked injective here found fresh
    · exact silent _
  | completeStore userId id result lockedAt work =>
    cases taken
    exact consistent.completeStore here
  | done response => cases taken

/-- A request that has just arrived has locked nothing and relies on nothing. -/
theorem call_locals {request : Request} (call : request.isCall = true)
    (history : List LeaseEvent) : request.locks = none ∧ Locals history request := by
  cases request <;> first | exact ⟨rfl, trivial⟩ | cases call

theorem Consistent.arrive (consistent : Consistent sha256 world) {request : Request}
    (call : request.isCall = true) :
    Consistent sha256 { world with requests := world.requests ++ [request] } := by
  obtain ⟨lockless, locals⟩ := call_locals call world.history
  have there {i : Nat} {now : Request} (found : (world.requests ++ [request])[i]? = some now) :
      world.requests[i]? = some now ∨ now = request := by
    rw [List.getElem?_append] at found
    split at found
    · exact .inl found
    · rw [List.getElem?_singleton] at found
      split at found
      · cases found
        exact .inr rfl
      · cases found
  refine { consistent with exclusive := ?_, locals := ?_ }
  · intro i j one other id oneThere otherThere oneLocks otherLocks
    rcases there oneThere with before | rfl
    · rcases there otherThere with otherBefore | rfl
      · exact consistent.exclusive i j one other id before otherBefore oneLocks otherLocks
      · rw [lockless] at otherLocks
        cases otherLocks
    · rw [lockless] at oneLocks
      cases oneLocks
  · intro i now found
    rcases there found with before | rfl
    · exact consistent.locals i now before
    · exact locals

/-- A process that dies gives up its transaction's locks. -/
theorem Consistent.crash (consistent : Consistent sha256 world) (job : Nat) :
    Consistent sha256
      { world with requests := world.requests.set job (.done .aborted) } := by
  have there {i : Nat} {now : Request}
      (found : (world.requests.set job (.done .aborted))[i]? = some now) :
      world.requests[i]? = some now ∨ now = .done .aborted := by
    rw [List.getElem?_set] at found
    split at found
    · split at found
      · cases found
        exact .inr rfl
      · cases found
    · exact .inl found
  refine { consistent with exclusive := ?_, locals := ?_ }
  · intro i j one other id oneThere otherThere oneLocks otherLocks
    rcases there oneThere with before | rfl
    · rcases there otherThere with otherBefore | rfl
      · exact consistent.exclusive i j one other id before otherBefore oneLocks otherLocks
      · cases otherLocks
    · cases oneLocks
  · intro i now found
    rcases there found with before | rfl
    · exact consistent.locals i now before
    · trivial

/-- Other writers leave every lease alone, and a new message has none. -/
theorem Consistent.others (consistent : Consistent sha256 world) {db : Db}
    (spares : SparesLeases world.known world.db db) :
    Consistent sha256
      { world with db, known := db.messages.map (·.id) ++ world.known } := by
  obtain ⟨distinct, rows⟩ := spares
  refine { consistent with distinct, known := ?_, logged := ?_, rows := ?_ }
  · intro row member
    exact List.mem_append_left _ (List.mem_map_of_mem member)
  · intro event member
    exact List.mem_append_right _ (consistent.logged event member)
  · intro row member
    rcases rows row member with ⟨old, before, same, columns⟩ | ⟨fresh, unleased⟩
    · exact (consistent.rows old before).congr same columns
    · refine .of_unused unleased fun event logged used => ?_
      exact fresh (used ▸ consistent.logged event logged)

theorem consistent_initial (initial : Initial world) : Consistent sha256 world := by
  have nothing : ∀ {i : Nat} {request : Request}, world.requests[i]? ≠ some request := by
    simp [initial.idle]
  refine ⟨initial.distinct, ?_, ?_, ?_, ?_, ?_, ?_⟩
  · intro row member
    rw [initial.known]
    exact List.mem_map_of_mem member
  · simp [initial.history]
  · intro row member
    refine .of_unused (initial.unleased row member) ?_
    simp [initial.history]
  · rw [initial.history]
    trivial
  · exact fun i j one other id there => absurd there nothing
  · exact fun i request there => absurd there nothing

theorem consistent_step {action : Action} (injective : Function.Injective sha256)
    (consistent : Consistent sha256 world) (taken : step sha256 world action = some after) :
    Consistent sha256 after := by
  cases action with
  | advance job token =>
    simp only [step] at taken
    split at taken
    · cases taken
    rename_i request here
    obtain ⟨out, ran, rfl⟩ := Option.map_eq_some_iff.mp taken
    exact consistent.advance injective here ran
  | tick later =>
    simp only [step] at taken
    split at taken <;> cases taken
    exact { consistent with }
  | arrive request =>
    simp only [step] at taken
    split at taken
    · rename_i call
      cases taken
      exact consistent.arrive call
    · cases taken
  | crash job =>
    cases taken
    exact consistent.crash job
  | others db =>
    simp only [step] at taken
    split at taken
    · rename_i spares
      cases taken
      exact consistent.others spares
    · cases taken

/-- Only its own next statement answers a request. -/
theorem step_answered {action : Action} (taken : step sha256 world action = some after) {job : Nat}
    {request : Request} (here : world.requests[job]? = some request) {response : Response}
    (answered : after.requests[job]? = some (.done response))
    (waiting : ∀ response, request ≠ .done response) (alive : response ≠ .aborted) :
    ∃ token out, request.advance sha256 world.clock token world.locked world.db = some out ∧
      after = world.advanced job out ∧ out.next = .done response := by
  have same (unchanged : after.requests[job]? = world.requests[job]?) : False := by
    rw [unchanged, here, Option.some.injEq] at answered
    exact waiting response answered
  cases action with
  | arrive request =>
    simp only [step] at taken
    split at taken <;> cases taken
    refine (same ?_).elim
    have bound : job < world.requests.length := (List.getElem?_eq_some_iff.mp here).1
    exact List.getElem?_append_left bound
  | advance other token =>
    simp only [step] at taken
    split at taken
    · cases taken
    rename_i current there
    obtain ⟨out, ran, rfl⟩ := Option.map_eq_some_iff.mp taken
    rcases advanced_request answered with ⟨rfl, next⟩ | ⟨_, before⟩
    · cases here.symm.trans there
      exact ⟨token, out, ran, rfl, next.symm⟩
    · exact absurd (Option.some.inj (here.symm.trans before)) (waiting response)
  | crash other =>
    cases taken
    simp only [List.getElem?_set] at answered
    split at answered
    · split at answered
      · cases answered
        exact absurd rfl alive
      · cases answered
    · exact absurd (Option.some.inj (here.symm.trans answered)) (waiting response)
  | tick later =>
    simp only [step] at taken
    split at taken <;> cases taken
    exact (same rfl).elim
  | others db =>
    simp only [step] at taken
    split at taken <;> cases taken
    exact (same rfl).elim

end Runs

end BoothOperator.Processing
