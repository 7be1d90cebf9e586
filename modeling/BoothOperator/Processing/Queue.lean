import BoothOperator.Processing.Requests

/-! Which message a claim hands out when nothing else happens: the candidates are scanned in
pages, and a message's eligibility is decided in the query, under the row lock and by the
update. The summary decides it once more, and counts what successive claims hand out. -/
namespace BoothOperator.Processing

open BoothOperator.Schema

/-- `messageWithWork` of a row. -/
def workOf (db : Db) (message : Message) : WorkMessage where
  message := message
  transcriptions := newestFirst (·.createdAt) (·.id)
    (db.transcriptions.filter fun row => row.messageId = message.id)
  moderations := newestFirst (·.createdAt) (·.id)
    (db.moderations.filter fun row => row.messageId = message.id)

/-- The ids of messages and installations are primary keys. -/
structure Keys (db : Db) : Prop where
  messages : (db.messages.map (·.id)).Nodup
  installations : (db.installations.map (·.id)).Nodup

/-! ## The summary -/

structure ProcessingSummary where
  queued : Nat := 0
  leased : Nat := 0
  terminal : Nat := 0
  needs : MessageProcessingStep → Nat := fun _ => 0
  generatedAt : Time

def activeLease (work : WorkMessage) (now : Time) : Bool :=
  work.message.processingLeaseExpiresAt.any (now < ·)

/-- A turn of the summary's loop. -/
def summarize (now : Time) (summary : ProcessingSummary) (work : WorkMessage) :
    ProcessingSummary :=
  let needs := processingNeeds work
  if needs = [] then summary
  else
    let summary := { summary with needs := fun step => summary.needs step + needs.count step }
    if work.message.processingFailedAt ≠ none then
      { summary with terminal := summary.terminal + 1 }
    else if activeLease work now then { summary with leased := summary.leased + 1 }
    else { summary with queued := summary.queued + 1 }

def summaryForCurrentInstallation (now : Time) (db : Db) : ProcessingSummary :=
  match db.findActiveInstallation with
  | none => { generatedAt := now }
  | some active =>
    let open_ (row : Message) : Bool :=
      row.installationId = some active.id ∧ (row.status = .received ∨ row.status = .pending)
    ((db.messages.filter open_).map (workOf db)).foldl (summarize now) { generatedAt := now }

/-! ## Eligible messages -/

/-- An undecided message of the open era that has not failed for good, is under no live lease,
and needs something, and nothing beyond the capabilities. -/
def eligible (db : Db) (now : Time) (capabilities : List MessageProcessingStep) (row : Message) :
    Bool :=
  let needs := processingNeeds (workOf db row)
  db.findActiveInstallation.any (fun active => row.installationId = some active.id) &&
  decide (row.status = .received ∨ row.status = .pending) &&
  decide (row.processingFailedAt = none) && decide (Unleased now row) && decide (needs ≠ []) &&
  needs.all (· ∈ capabilities)

/-- `(createdAt, id)` order. -/
def Before (one other : Message) : Prop :=
  one.createdAt < other.createdAt ∨ (one.createdAt = other.createdAt ∧ one.id ≤ other.id)

instance : DecidableRel Before := fun _ _ => inferInstanceAs (Decidable (_ ∨ _))

/-- A request that nothing interrupts is answered. -/
def Answers (sha256 : String → String) (now : Time) (token : String) (db : Db) (request : Request)
    (out : Outcome) : Prop :=
  ∃ statements, request.uninterrupted sha256 now token statements db = some out ∧
    ∃ response, out.next = .done response

section Claim

variable {sha256 : String → String} {now : Time} {token : String} {db : Db}

theorem answers_done {request : Request} {out : Outcome} (response : Response)
    (ran : request.advance sha256 now token (fun _ => false) db = some out)
    (ends : out.next = .done response) : Answers sha256 now token db request out := by
  refine ⟨1, ?_, response, ends⟩
  rw [Request.uninterrupted, ran]
  simp only [ends]

theorem answers_step {request : Request} (next : Request) {out : Outcome}
    (ran : request.advance sha256 now token (fun _ => false) db = some ⟨db, next, none⟩)
    (goes : ∀ response, next ≠ .done response) (later : Answers sha256 now token db next out) :
    Answers sha256 now token db request out := by
  obtain ⟨statements, found, ends⟩ := later
  refine ⟨statements + 1, ?_, ends⟩
  rw [Request.uninterrupted, ran]
  simp only
  exact found

theorem answers_of_step {request : Request} (next : Request) {out : Outcome}
    (ran : request.advance sha256 now token (fun _ => false) db = some ⟨db, next, none⟩)
    (goes : ∀ response, next ≠ .done response) (whole : Answers sha256 now token db request out) :
    Answers sha256 now token db next out := by
  obtain ⟨statements, found, response, ends⟩ := whole
  cases statements with
  | zero =>
    cases found
    simp only at ends
    rw [ends] at ran
    cases ran
  | succ statements =>
    rw [Request.uninterrupted, ran] at found
    simp only at found
    exact ⟨statements, found, response, ends⟩

theorem answers_unique {request : Request} {out out' : Outcome}
    (first : Answers sha256 now token db request out)
    (second : Answers sha256 now token db request out') : out = out' := by
  obtain ⟨statements, found, response, ends⟩ := first
  obtain ⟨statements', found', response', ends'⟩ := second
  induction statements generalizing db request statements' with
  | zero =>
    cases found
    simp only at ends
    subst ends
    cases statements' with
    | zero => exact Option.some.inj found'
    | succ statements' => cases found'
  | succ statements ih =>
    cases statements' with
    | zero =>
      cases found'
      simp only at ends'
      subst ends'
      cases found
    | succ statements' =>
      rw [Request.uninterrupted] at found found'
      cases ran : request.advance sha256 now token (fun _ => false) db with
      | none =>
        rw [ran] at found
        cases found
      | some step =>
        rw [ran] at found found'
        simp only at found found'
        split at found
        · rename_i ended
          rw [ended] at found'
          exact Option.some.inj (found.symm.trans found')
        · rename_i goes
          split at found'
          · rename_i answered ended
            exact absurd ended (goes answered)
          · exact ih found _ found'

theorem findMessageWithWork_of_mem (keys : Keys db) {row : Message} (member : row ∈ db.messages) :
    findMessageWithWork db row.id = some (workOf db row) := by
  have found : db.message row.id = some row := Table.findUnique_of_mem keys.messages member
  rw [findMessageWithWork, found]
  rfl

theorem lock_active (keys : Keys db) {active : Installation}
    (current : db.findActiveInstallation = some active) :
    db.lockInstallationForWrite active.id = true := by
  obtain ⟨member, writing⟩ := Table.latest_mem current
  have found : db.installation active.id = some active :=
    Table.findUnique_of_mem keys.installations member
  rw [Db.lockInstallationForWrite, found]
  exact writing

theorem status_of_eligible {capabilities : List MessageProcessingStep} {row : Message}
    (able : eligible db now capabilities row = true) :
    (row.status = .received ∨ row.status = .pending) ∧ row.processingFailedAt = none ∧
      Unleased now row := by
  simp only [eligible, Bool.and_eq_true, decide_eq_true_eq] at able
  exact ⟨able.1.1.1.1.2, able.1.1.1.2, able.1.1.2⟩

variable {claiming : Claiming} {active : Installation}

/-- The eligibility that a claim decides of a row, in its three steps. -/
theorem eligible_iff (current : db.findActiveInstallation = some active)
    (own : claiming.era = active.id) (row : Message) :
    eligible db claiming.now claiming.capabilities row = true ↔
      claimable claiming row.id row = true ∧ wanted claiming (workOf db row) = true := by
  simp only [eligible, claimable, wanted, current, own, Option.any_some, Bool.and_eq_true,
    decide_eq_true_eq, List.all_eq_true]
  tauto

/-- The locking `SELECT` finds the row of the candidate or none. -/
theorem any_claimable (keys : Keys db) {row : Message} (member : row ∈ db.messages) :
    db.messages.any (claimable claiming row.id) = claimable claiming row.id row := by
  rw [Bool.eq_iff_iff, List.any_eq_true]
  constructor
  · rintro ⟨other, there, met⟩
    have same : other.id = row.id := (of_decide_eq_true met).1
    rwa [Table.eq_of_key_eq keys.messages there member same] at met
  · intro met
    exact ⟨row, member, met⟩

/-- The update of a claim finds one row. -/
theorem countP_claimable (keys : Keys db) {row : Message} (member : row ∈ db.messages)
    (found : claimable claiming row.id row = true) :
    db.messages.countP (claimable claiming row.id) = 1 :=
  Table.countP_unique keys.messages member found fun _ met => (of_decide_eq_true met).1

section Candidate

variable {row : Message} {candidates : List Id} {skip : Nat} (keys : Keys db)
  (current : db.findActiveInstallation = some active) (own : claiming.era = active.id)
  (member : row ∈ db.messages)
include keys current own member

/-- A candidate that is not eligible is passed over. -/
theorem candidate_passed {out : Outcome}
    (ineligible : eligible db claiming.now claiming.capabilities row = false)
    (later : Answers sha256 now token db (.claimEra claiming ⟨candidates, skip⟩) out) :
    Answers sha256 now token db (.claimEra claiming ⟨row.id :: candidates, skip⟩) out := by
  have locked := lock_active keys current
  rw [← own] at locked
  refine answers_step (.claimLock claiming row.id ⟨candidates, skip⟩) ?_ (by simp) ?_
  · simp only [Request.advance, locked, if_true]
  by_cases found : claimable claiming row.id row = true
  · refine answers_step (.claimRead claiming row.id ⟨candidates, skip⟩) ?_ (by simp) ?_
    · simp only [Request.advance, any_claimable keys member, found, and_self, if_true]
    have unwanted : wanted claiming (workOf db row) = false := by
      by_contra read
      have able := (eligible_iff current own row).mpr ⟨found, Bool.eq_true_of_not_eq_false read⟩
      rw [able] at ineligible
      cases ineligible
    refine answers_step _ ?_ (by simp) later
    simp only [Request.advance, findMessageWithWork_of_mem keys member, unwanted]
    rfl
  · refine answers_step _ ?_ (by simp) later
    simp only [Request.advance, any_claimable keys member, found]
    rfl

/-- An eligible candidate is leased and handed out. -/
theorem candidate_claimed
    (able : eligible db claiming.now claiming.capabilities row = true) :
    Answers sha256 now token db (.claimEra claiming ⟨row.id :: candidates, skip⟩)
      (claimUpdate sha256 claiming row.id ⟨candidates, skip⟩ (workOf db row) token db) := by
  obtain ⟨found, read⟩ := (eligible_iff current own row).mp able
  have locked := lock_active keys current
  rw [← own] at locked
  have one := countP_claimable keys member found
  refine answers_step (.claimLock claiming row.id ⟨candidates, skip⟩) ?_ (by simp) ?_
  · simp only [Request.advance, locked, if_true]
  refine answers_step (.claimRead claiming row.id ⟨candidates, skip⟩) ?_ (by simp) ?_
  · simp only [Request.advance, any_claimable keys member, found, and_self, if_true]
  refine answers_step (.claimWrite claiming row.id ⟨candidates, skip⟩ (workOf db row)) ?_
    (by simp) ?_
  · simp only [Request.advance, findMessageWithWork_of_mem keys member, read, if_true]
  refine answers_done (.claim (some (row.id, ⟨token, claiming.userId⟩, claiming.expiresAt))) rfl ?_
  rw [claimUpdate, if_pos one]

end Candidate

variable (sha256) in
/-- What the claim hands out of the candidates that are left, the first that is eligible. -/
def Handed (db : Db) (claiming : Claiming) (token : String) (left : List Message) (out : Outcome) :
    Prop :=
  match left.find? (eligible db claiming.now claiming.capabilities) with
  | none => out = answer db (.claim none)
  | some row => out.next =
      .done (.claim (some (row.id, ⟨token, claiming.userId⟩, claiming.expiresAt))) ∧
        ∃ page, out = claimUpdate sha256 claiming row.id page (workOf db row) token db

/-- The rows that the pages of the scan go through. -/
def scanned (db : Db) (era : Id) : List Message :=
  oldestFirst (db.messages.filter fun row =>
    row.installationId = some era ∧ (row.status = .received ∨ row.status = .pending) ∧
      row.processingFailedAt = none)

theorem claimCandidates_eq (era : Id) (skip : Nat) :
    claimCandidates era skip db =
      (((scanned db era).drop skip).take claimCandidateLimit).map (·.id) := rfl

theorem mem_scanned {era : Id} {row : Message} : row ∈ scanned db era ↔ row ∈ db.messages ∧
    row.installationId = some era ∧ (row.status = .received ∨ row.status = .pending) ∧
      row.processingFailedAt = none := by
  rw [scanned, oldestFirst, (List.perm_insertionSort _ _).mem_iff, List.mem_filter,
    decide_eq_true_iff]

section Scan

variable (keys : Keys db) (current : db.findActiveInstallation = some active)
  (own : claiming.era = active.id)
include keys current own

theorem head_answers {row : Message} {page left : List Message} {skip : Nat}
    (member : row ∈ db.messages)
    (later : ∃ out, Answers sha256 now token db (.claimEra claiming ⟨page.map (·.id), skip⟩) out ∧
      Handed sha256 db claiming token left out) :
    ∃ out, Answers sha256 now token db (.claimEra claiming ⟨(row :: page).map (·.id), skip⟩) out ∧
      Handed sha256 db claiming token (row :: left) out := by
  cases able : eligible db claiming.now claiming.capabilities row with
  | true =>
    refine ⟨_, candidate_claimed keys current own member able, ?_⟩
    have one := countP_claimable keys member ((eligible_iff current own row).mp able).1
    rw [Handed, List.find?_cons_of_pos able]
    refine ⟨?_, _, rfl⟩
    rw [claimUpdate, if_pos one]
  | false =>
    obtain ⟨out, answered, handed⟩ := later
    refine ⟨out, candidate_passed keys current own member able answered, ?_⟩
    rw [Handed, List.find?_cons_of_neg (by simp [able])]
    exact handed

/-- From a page with its candidates and the rows behind it, the first eligible is handed out. -/
theorem scan_answers (left page : List Message) (skip : Nat)
    (paged : ∀ row ∈ page, row ∈ db.messages)
    (rows : page ++ (scanned db claiming.era).drop skip = left) :
    ∃ out, Answers sha256 now token db (.claimEra claiming ⟨page.map (·.id), skip⟩) out ∧
      Handed sha256 db claiming token left out := by
  induction left generalizing page skip with
  | nil =>
    obtain ⟨rfl, nothing⟩ := List.append_eq_nil_iff.mp rows
    have last : claimCandidates claiming.era skip db = [] := by
      rw [claimCandidates_eq, nothing]
      rfl
    refine ⟨answer db (.claim none), answers_step (.claimPage claiming skip) rfl (by simp)
      (answers_done _ ?_ rfl), rfl⟩
    simp only [Request.advance, last]
  | cons row left ih =>
    cases page with
    | cons first page =>
      obtain ⟨rfl, rest⟩ := List.cons.inj rows
      exact head_answers keys current own (paged first List.mem_cons_self)
        (ih page skip (fun other member => paged other (List.mem_cons_of_mem _ member)) rest)
    | nil =>
      have behind : (scanned db claiming.era).drop skip = row :: left := rows
      have stored : ∀ other ∈ row :: left, other ∈ db.messages := by
        intro other member
        rw [← behind] at member
        exact (mem_scanned.mp (List.mem_of_mem_drop member)).1
      let page := left.take (claimCandidateLimit - 1)
      have next : claimCandidates claiming.era skip db = (row :: page).map (·.id) := by
        rw [claimCandidates_eq, behind]
        rfl
      have rest : page ++ (scanned db claiming.era).drop (skip + (page.length + 1)) = left := by
        rw [← List.drop_drop, behind, List.drop_succ_cons]
        rcases Nat.le_total (claimCandidateLimit - 1) left.length with more | fewer
        · rw [List.length_take, Nat.min_eq_left more, List.take_append_drop]
        · rw [List.length_take, Nat.min_eq_right fewer, List.drop_length, List.append_nil]
          exact List.take_of_length_le fewer
      obtain ⟨out, answered, handed⟩ := head_answers keys current own
        (stored row List.mem_cons_self) (ih page _ (fun other member => stored other
          (List.mem_cons_of_mem _ (List.mem_of_mem_take member))) rest)
      refine ⟨out, answers_step (.claimPage claiming skip) rfl (by simp)
        (answers_step _ ?_ (by simp) answered), handed⟩
      simp only [Request.advance, next, List.map_cons, List.length_cons, List.length_map]

end Scan

theorem before_total (one other : Message) : Before one other ∨ Before other one := by
  rcases Int.lt_trichotomy one.createdAt other.createdAt with earlier | same | later
  · exact .inl (.inl earlier)
  · rcases Nat.le_total one.id other.id with first | second
    · exact .inl (.inr ⟨same, first⟩)
    · exact .inr (.inr ⟨same.symm, second⟩)
  · exact .inr (.inl later)

theorem before_trans {one other third : Message} (first : Before one other)
    (second : Before other third) : Before one third := by
  rcases first with earlier | ⟨same, low⟩
  · rcases second with later | ⟨same', -⟩
    · exact .inl (Int.lt_trans earlier later)
    · exact .inl (same' ▸ earlier)
  · rcases second with later | ⟨same', high⟩
    · exact .inl (same ▸ later)
    · exact .inr ⟨same.trans same', Nat.le_trans low high⟩

theorem scanned_sorted (era : Id) : (scanned db era).Pairwise Before := by
  have : Std.Total Before := ⟨before_total⟩
  have : IsTrans Message Before := ⟨fun _ _ _ => before_trans⟩
  exact List.pairwise_insertionSort Before _

end Claim

/-! ## The claim -/

section Oldest

variable {sha256 : String → String} {db : Db} (keys : Keys db) (now : Time) (token userId : String)
  (capabilities : List MessageProcessingStep) (leaseSeconds : Int)
include keys

theorem claim_handed {active : Installation} (current : db.findActiveInstallation = some active) :
    ∃ out, Answers sha256 now token db (.claim userId capabilities leaseSeconds) out ∧
      Handed sha256 db { userId, capabilities, leaseSeconds, era := active.id, now }
        token (scanned db active.id) out := by
  let claiming : Claiming := { userId, capabilities, leaseSeconds, era := active.id, now }
  have own : claiming.era = active.id := rfl
  obtain ⟨out, answered, handed⟩ :=
    scan_answers keys current own (scanned db active.id) [] 0 (by simp) rfl
  have paging := answers_of_step (.claimPage claiming 0) rfl (by simp) answered
  refine ⟨out, answers_step (.claimPage claiming 0) ?_ (by simp) paging, handed⟩
  simp only [Request.advance, current]
  rfl

end Oldest

end BoothOperator.Processing
