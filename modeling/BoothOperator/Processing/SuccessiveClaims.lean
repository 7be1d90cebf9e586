import BoothOperator.Processing.Queue

/-! Claims one after the other at one instant. Each leases the oldest message that is
eligible, which is not any longer, so a device with every capability gets as many as the
summary has queued. -/
namespace BoothOperator.Processing

open BoothOperator.Schema

/-- A claim answers with the oldest eligible message, which it leases, or with none where there
is none. -/
def HandsOutOldest (db : Db) (now : Time) (token userId : String)
    (capabilities : List MessageProcessingStep) (leaseSeconds : Int) (out : Outcome) : Prop :=
  (out.next = .done (.claim none) ∧ out.db = db ∧
    ∀ row ∈ db.messages, eligible db now capabilities row = false) ∨
  ∃ row ∈ db.messages, eligible db now capabilities row = true ∧
    (∀ other ∈ db.messages, eligible db now capabilities other = true → Before row other) ∧
    out.next = .done (.claim (some (row.id, ⟨token, userId⟩, now + leaseSeconds * 1000)))

/-- Claims of one device at one instant: how many are handed a message before one is not. -/
inductive Successive (sha256 : String → String) (now : Time) (userId : String)
    (capabilities : List MessageProcessingStep) (leaseSeconds : Int) : Db → Nat → Prop where
  | last {db : Db} {token : String} {out : Outcome}
      (answered : Answers sha256 now token db (.claim userId capabilities leaseSeconds) out)
      (none : out.next = .done (.claim none)) :
      Successive sha256 now userId capabilities leaseSeconds db 0
  | more {db : Db} {token : String} {out : Outcome} {handed : Id × Holder × Time} {count : Nat}
      (answered : Answers sha256 now token db (.claim userId capabilities leaseSeconds) out)
      (some : out.next = .done (.claim (some handed)))
      (rest : Successive sha256 now userId capabilities leaseSeconds out.db count) :
      Successive sha256 now userId capabilities leaseSeconds db (count + 1)

section Claim

variable {sha256 : String → String} {db : Db} {now : Time} {token userId : String}
  {capabilities : List MessageProcessingStep} {leaseSeconds : Int}

theorem eligible_scanned {active : Installation} (current : db.findActiveInstallation = some active)
    {row : Message} (member : row ∈ db.messages)
    (able : eligible db now capabilities row = true) : row ∈ scanned db active.id := by
  obtain ⟨status, unfailed, -⟩ := status_of_eligible able
  refine mem_scanned.mpr ⟨member, ?_, status, unfailed⟩
  simp only [eligible, current, Option.any_some, Bool.and_eq_true, decide_eq_true_eq] at able
  exact able.1.1.1.1.1

theorem not_eligible_of_no_era (closed : db.findActiveInstallation = none) (row : Message) :
    eligible db now capabilities row = false := by
  simp [eligible, closed]

theorem claim_no_era (closed : db.findActiveInstallation = none) :
    Answers sha256 now token db (.claim userId capabilities leaseSeconds)
      (answer db (.claim none)) := by
  refine answers_done _ ?_ rfl
  simp only [Request.advance, closed]

variable (sha256 now token userId capabilities leaseSeconds) in
/-- The message that a claim hands out, and what it leaves. -/
theorem claim_answers (keys : Keys db) :
    ∃ out, Answers sha256 now token db (.claim userId capabilities leaseSeconds) out ∧
      ((out = answer db (.claim none) ∧
        ∀ row ∈ db.messages, eligible db now capabilities row = false) ∨
      ∃ row ∈ db.messages, ∃ active page, db.findActiveInstallation = some active ∧
        eligible db now capabilities row = true ∧
        (∀ other ∈ db.messages, eligible db now capabilities other = true → Before row other) ∧
        out = claimUpdate sha256 { userId, capabilities, leaseSeconds, era := active.id, now }
          row.id page (workOf db row) token db) := by
  cases current : db.findActiveInstallation with
  | none =>
    exact ⟨_, claim_no_era current, .inl ⟨rfl, fun row _ => not_eligible_of_no_era current row⟩⟩
  | some active =>
    obtain ⟨out, answered, handed⟩ :=
      @claim_handed sha256 db keys now token userId capabilities leaseSeconds active current
    refine ⟨out, answered, ?_⟩
    unfold Handed at handed
    cases found : (scanned db active.id).find? (eligible db now capabilities) with
    | none =>
      simp only [found] at handed
      refine .inl ⟨handed, fun row member => ?_⟩
      by_contra able
      have able := Bool.eq_true_of_not_eq_false able
      exact List.find?_eq_none.mp found row (eligible_scanned current member able) able
    | some row =>
      simp only [found] at handed
      obtain ⟨-, page, same⟩ := handed
      obtain ⟨able, front, behind, split, earlier⟩ := List.find?_eq_some_iff_append.mp found
      have stored := (mem_scanned.mp (List.mem_of_find?_eq_some found)).1
      refine .inr ⟨row, stored, active, page, rfl, able, ?_, same⟩
      intro other member ability
      have there := eligible_scanned current member ability
      have sorted := @scanned_sorted db active.id
      rw [split] at there sorted
      rcases List.mem_append.mp there with before | after
      · have refused := earlier other before
        rw [ability] at refused
        cases refused
      · rcases List.mem_cons.mp after with rfl | later
        · exact .inr ⟨rfl, Nat.le_refl _⟩
        · exact List.rel_of_pairwise_cons (List.pairwise_append.mp sorted).2.1 later

/-! ## What a claim leaves -/

theorem claimUpdate_next (keys : Keys db) {active : Installation} {row : Message} {page : Page}
    (current : db.findActiveInstallation = some active) (member : row ∈ db.messages)
    (able : eligible db now capabilities row = true) :
    (claimUpdate sha256 { userId, capabilities, leaseSeconds, era := active.id, now } row.id page
      (workOf db row) token db).next =
      .done (.claim (some (row.id, ⟨token, userId⟩, now + leaseSeconds * 1000))) := by
  let claiming : Claiming := { userId, capabilities, leaseSeconds, era := active.id, now }
  have found := ((@eligible_iff db claiming active current rfl row).mp able).1
  have one := countP_claimable keys member found
  rw [claimUpdate, if_pos one]
  rfl

variable (sha256 token userId) in
/-- A leased message is eligible no longer, and no other changes. -/
theorem countP_claimUpdate (page : Page) (keys : Keys db) {active : Installation} {row : Message}
    (current : db.findActiveInstallation = some active) (positive : 0 < leaseSeconds)
    (member : row ∈ db.messages) (able : eligible db now capabilities row = true) :
    let out := claimUpdate sha256 { userId, capabilities, leaseSeconds, era := active.id, now }
      row.id page (workOf db row) token db
    Keys out.db ∧ out.db.messages.countP (eligible out.db now capabilities) + 1 =
      db.messages.countP (eligible db now capabilities) := by
  let claiming : Claiming := { userId, capabilities, leaseSeconds, era := active.id, now }
  have found := ((@eligible_iff db claiming active current rfl row).mp able).1
  have own : ∀ other, claimable claiming row.id other = true → other.id = row.id :=
    fun other met => (of_decide_eq_true met).1
  have one := countP_claimable keys member found
  have out : claimUpdate sha256 claiming row.id page (workOf db row) token db =
      { db := db.updateMessages (claimable claiming row.id)
          (lease sha256 claiming token (workOf db row))
        next := .done (.claim (some (row.id, ⟨token, userId⟩, claiming.expiresAt)))
        event := some (.claimed row.id ⟨token, userId⟩ now claiming.expiresAt
          { attempt := ((db.message row.id).map (·.processingAttemptCount)).getD 0 + 1
            snapshot := processingSnapshot (workOf db row) }) } := by
    rw [claimUpdate, if_pos one]
  have leased : eligible db now capabilities (lease sha256 claiming token (workOf db row) row) =
      false := by
    by_contra still
    obtain ⟨-, -, unleased⟩ := status_of_eligible (Bool.eq_true_of_not_eq_false still)
    have expired := unleased claiming.expiresAt rfl
    have longer : 0 < leaseSeconds * 1000 := by omega
    exact absurd expired (Int.not_le.mpr (Int.lt_add_of_pos_right now longer))
  intro out_
  have same : out_ = claimUpdate sha256 claiming row.id page (workOf db row) token db := rfl
  rw [same, out]
  refine ⟨⟨?_, keys.installations⟩, ?_⟩
  · have ids : (Table.updateMany (claimable claiming row.id)
        (lease sha256 claiming token (workOf db row)) db.messages).map Message.id =
        db.messages.map Message.id := by
      refine Table.map_updateMany Message.id ?_ db.messages
      exact fun _ => rfl
    exact ids.symm ▸ keys.messages
  · exact Table.countP_updateMany keys.messages member found own able leased

/-- As many claims are handed a message as there are eligible ones. -/
theorem successive_of_count (keys : Keys db) (positive : 0 < leaseSeconds) (count : Nat)
    (counted : db.messages.countP (eligible db now capabilities) = count) :
    Successive sha256 now userId capabilities leaseSeconds db count := by
  induction count generalizing db with
  | zero =>
    obtain ⟨out, answered, ⟨rfl, -⟩ | ⟨row, member, -, -, -, able, -⟩⟩ :=
      claim_answers sha256 now "" userId capabilities leaseSeconds keys
    · exact .last answered rfl
    · exact absurd able (List.countP_eq_zero.mp counted row member)
  | succ count ih =>
    obtain ⟨out, answered, ⟨rfl, ineligible⟩ | ⟨row, member, active, page, current, able, -, rfl⟩⟩ :=
      claim_answers sha256 now "" userId capabilities leaseSeconds keys
    · have zero : db.messages.countP (eligible db now capabilities) = 0 :=
        List.countP_eq_zero.mpr fun row member => by simp [ineligible row member]
      omega
    · obtain ⟨kept, fewer⟩ := countP_claimUpdate sha256 "" userId page keys current positive member
        able
      refine .more answered (claimUpdate_next keys current member able) (ih kept ?_)
      omega

/-- No other number of claims is. -/
theorem count_of_successive (keys : Keys db) (positive : 0 < leaseSeconds) {count : Nat}
    (claims : Successive sha256 now userId capabilities leaseSeconds db count) :
    db.messages.countP (eligible db now capabilities) = count := by
  induction claims with
  | @last db token out answered none =>
    obtain ⟨out, own, ⟨rfl, ineligible⟩ | ⟨row, member, active, page, current, able, -, rfl⟩⟩ :=
      claim_answers sha256 now token userId capabilities leaseSeconds keys
    · exact List.countP_eq_zero.mpr fun row member => by simp [ineligible row member]
    · cases answers_unique answered own
      rw [claimUpdate_next keys current member able] at none
      cases none
  | @more db token out handed count answered some rest ih =>
    obtain ⟨out, own, ⟨rfl, ineligible⟩ | ⟨row, member, active, page, current, able, -, rfl⟩⟩ :=
      claim_answers sha256 now token userId capabilities leaseSeconds keys
    · cases answers_unique answered own
      cases some
    · cases answers_unique answered own
      obtain ⟨kept, fewer⟩ := countP_claimUpdate sha256 token userId page keys current positive
        member able
      rw [← fewer, ih kept]

end Claim

/-! ## The summary's count -/

/-- The rows that a turn of the summary adds to `queued`. -/
def queues (now : Time) (work : WorkMessage) : Bool :=
  processingNeeds work ≠ [] ∧ work.message.processingFailedAt = none ∧ activeLease work now = false

theorem summarize_queued (now : Time) (summary : ProcessingSummary) (work : WorkMessage) :
    (summarize now summary work).queued = summary.queued + if queues now work then 1 else 0 := by
  simp only [summarize, queues]
  split_ifs <;> simp_all

theorem foldl_summarize_queued (now : Time) (works : List WorkMessage)
    (summary : ProcessingSummary) :
    (works.foldl (summarize now) summary).queued =
      summary.queued + works.countP (queues now) := by
  induction works generalizing summary with
  | nil => rfl
  | cons work works ih =>
    rw [List.foldl_cons, ih, summarize_queued, List.countP_cons]
    omega

theorem activeLease_eq_false (db : Db) (now : Time) (row : Message) :
    activeLease (workOf db row) now = false ↔ Unleased now row := by
  cases held : row.processingLeaseExpiresAt with
  | none => simp [activeLease, workOf, Unleased, held]
  | some expiresAt => simp [activeLease, workOf, Unleased, held]

theorem queued_eq (db : Db) (now : Time) {capabilities : List MessageProcessingStep}
    (full : ∀ step, step ∈ capabilities) :
    (summaryForCurrentInstallation now db).queued =
      db.messages.countP (eligible db now capabilities) := by
  unfold summaryForCurrentInstallation
  cases current : db.findActiveInstallation with
  | none =>
    refine (List.countP_eq_zero.mpr fun row _ => ?_).symm
    simp [not_eligible_of_no_era current row]
  | some active =>
    simp only
    rw [foldl_summarize_queued, List.countP_map, List.countP_filter, Nat.zero_add]
    refine List.countP_congr fun row _ => ?_
    have able : ∀ step ∈ processingNeeds (workOf db row), step ∈ capabilities :=
      fun step _ => full step
    simp only [Function.comp, queues, eligible, current, activeLease_eq_false, Option.any_some,
      Bool.and_eq_true, decide_eq_true_eq, List.all_eq_true]
    tauto

/-- A claim hands out the oldest eligible message however many rows precede it, and claims at
one instant go on for as long as the summary has messages queued. -/
theorem claim_oldest_and_queued (sha256 : String → String) (db : Db) (keys : Keys db) (now : Time)
    (userId : String) (leaseSeconds : Int) (positive : 0 < leaseSeconds) :
    (∀ token capabilities, ∃ out,
      Answers sha256 now token db (.claim userId capabilities leaseSeconds) out ∧
        HandsOutOldest db now token userId capabilities leaseSeconds out) ∧
      ∀ capabilities, (∀ step, step ∈ capabilities) → ∀ count,
        Successive sha256 now userId capabilities leaseSeconds db count ↔
          count = (summaryForCurrentInstallation now db).queued := by
  constructor
  · intro token capabilities
    obtain ⟨out, answered, handed⟩ :=
      claim_answers sha256 now token userId capabilities leaseSeconds keys
    refine ⟨out, answered, ?_⟩
    rcases handed with ⟨rfl, ineligible⟩ | ⟨row, member, active, page, current, able, first, rfl⟩
    · exact .inl ⟨rfl, rfl, ineligible⟩
    · exact .inr ⟨row, member, able, first, claimUpdate_next keys current member able⟩
  · intro capabilities full count
    rw [queued_eq db now full]
    constructor
    · exact fun claims => (count_of_successive keys positive claims).symm
    · rintro rfl
      exact successive_of_count keys positive _ rfl

/-- An era with a message under a live lease, then two of one time that need a transcription. -/
def queueDb : Db :=
  { installations := [{ id := 7 }]
    messages :=
      [{ id := 3, audioId := 3, installationId := some 7, status := .pending, createdAt := 20 },
       { id := 2, audioId := 2, installationId := some 7, status := .received, createdAt := 20 },
       { id := 1, audioId := 1, installationId := some 7, status := .pending, createdAt := 10,
         processingLeaseExpiresAt := some 400 }] }

theorem claim_oldest_and_queued_two :
    (∃ out, Answers id 100 "token" queueDb (.claim "device" [.transcription] 300) out ∧
      HandsOutOldest queueDb 100 "token" "device" [.transcription] 300 out) ∧
      Successive id 100 "device" [.transcription, .translation, .moderation, .review] 300
        queueDb 2 := by
  have keys : Keys queueDb := ⟨by decide, by decide⟩
  obtain ⟨oldest, queued⟩ :=
    claim_oldest_and_queued id queueDb keys 100 "device" 300 (by decide)
  have full : ∀ step, step ∈
      [MessageProcessingStep.transcription, .translation, .moderation, .review] := by
    intro step
    cases step <;> decide
  exact ⟨oldest "token" [.transcription], (queued _ full 2).mpr (by decide)⟩

end BoothOperator.Processing
