import Mathlib.Data.List.Infix
import Mathlib.Data.List.Perm.Subperm
import Mathlib.Data.String.Basic
import BoothOperator.Lib.Pages
import BoothOperator.Listings.Lists

/-! Following a listing's cursors from the first page to the last reads every row that the
filters keep, once, in descending order; and each cursor on the way is taken again. -/
namespace BoothOperator.Listings

variable {ρ ι : Type} {otherFormats : String → Option Instant}

/-! ## The cursors -/

/-- An endpoint reads a cursor that was made of a row as that row's columns. -/
def Listing.Reads (listing : Listing ρ ι) : Prop :=
  ∀ time id, listing.keysetFromCursor (encodeCursor (cursorOf listing.column time id)) =
    some (time, id)

/-- The cursor that is made of a row. -/
def Listing.token (listing : Listing ρ ι) (row : ρ) : String :=
  encodeCursor (cursorOf listing.column (listing.time row) (listing.id row))

theorem keysetOf_cursorOf (column : IdColumn ι) (time : Instant) (id : ι) :
    keysetOf otherFormats column (cursorOf column time id) = some (time, id) := by
  simp [keysetOf, cursorOf, newDate_toISOString, column.cast_text]

theorem encodeCursor_ne_empty (column : IdColumn ι) (time : Instant) (id : ι) :
    encodeCursor (cursorOf column time id) ≠ "" := by
  intro empty
  have decoded : decodeCursor (fun _ => none) (encodeCursor (cursorOf column time id)) =
      some (cursorOf column time id) := decodeCursor_encodeCursor column time id
  rw [empty] at decoded
  cases decoded

theorem createdAtKeysetFromCursor_cursorOf (time : Instant) (id : Uuid) :
    createdAtKeysetFromCursor otherFormats (encodeCursor (cursorOf uuidColumn time id)) =
      some (time, id) := by
  have same : Events.isGuid (cursorOf uuidColumn time id).id := id.guid
  simp [createdAtKeysetFromCursor, decodeCursor_encodeCursor, same, keysetOf_cursorOf]

theorem keysetFromCursor_cursorOf (time : Instant) (id : Uuid) :
    keysetFromCursor otherFormats (encodeCursor (cursorOf uuidColumn time id)) =
      some (time, id) := by
  have same : Events.isGuid (cursorOf uuidColumn time id).id := id.guid
  simp [keysetFromCursor, decodeCursor_encodeCursor, same, keysetOf_cursorOf]

theorem keysetFromDecoded_cursorOf (time : Instant) (id : TextId) :
    keysetFromDecoded otherFormats (encodeCursor (cursorOf textColumn time id)) =
      some (time, id) := by
  simp [keysetFromDecoded, decodeCursor_encodeCursor, keysetOf_cursorOf]

/-! ## A page -/

variable {listing : Listing ρ ι} {filters : ρ → Bool} {rows : List ρ}

theorem nodup_key (listing : Listing ρ ι) (distinct : (rows.map listing.id).Nodup) :
    ((rows.filter filters).map listing.key).Nodup := by
  have apart : (rows.map listing.key).Nodup := by
    refine List.Nodup.of_map (fun key => (ofLex key).2) ?_
    rw [List.map_map]
    exact distinct
  exact apart.sublist (List.filter_sublist.map _)

theorem serialize_items (limit : Nat) (rest : List ρ) :
    (listing.serialize limit (rest.take (limit + 1))).1 = rest.take limit := by
  simp [Listing.serialize, List.take_take]

theorem serialize_last {limit : Nat} {rest : List ρ} (last : rest.length ≤ limit) :
    (listing.serialize limit (rest.take (limit + 1))).2 = none := by
  have few : ¬limit < (rest.take (limit + 1)).length := by
    rw [List.length_take]
    omega
  simp only [Listing.serialize, gt_iff_lt, if_neg few]

theorem serialize_more {limit : Nat} {rest : List ρ} (more : limit < rest.length) :
    (listing.serialize limit (rest.take (limit + 1))).2 =
      (rest.take limit).getLast?.map listing.token := by
  have many : limit < (rest.take (limit + 1)).length := by
    rw [List.length_take]
    omega
  simp only [Listing.serialize, gt_iff_lt, if_pos many, List.take_take,
    Nat.min_eq_left (Nat.le_succ limit)]
  rfl

/-- A cursor that an answer has is that of a row. -/
theorem serialize_issues {limit : Nat} {found items : List ρ} {token : String}
    (issued : listing.serialize limit found = (items, some token)) :
    ∃ row, token = listing.token row := by
  have second : (listing.serialize limit found).2 = some token := by rw [issued]
  simp only [Listing.serialize] at second
  split at second
  · obtain ⟨row, -, rfl⟩ := Option.map_eq_some_iff.mp second
    exact ⟨row, rfl⟩
  · cases second

section Order

variable [LinearOrder ι]

/-- What a client is owed that starts without a cursor and follows those of the answers. -/
structure Complete (otherFormats : String → Option Instant) (listing : Listing ρ ι)
    (filters : ρ → Bool) (rows : List ρ) (answer : Option String → Answer ρ) : Prop where
  whole : ∃ turns items, Pages.follow answer turns none = some items ∧
    items.Perm (rows.filter filters) ∧
    items.Pairwise fun one other => listing.key other < listing.key one
  honoured : ∀ {cursor items token}, answer cursor = some (items, some token) →
    ∃ issued, token = encodeCursor issued ∧
      decodeCursor otherFormats token = some issued ∧ (answer (some token)).isSome

theorem before_iff (listing : Listing ρ ι) (row last : ρ) :
    listing.before (listing.time last, listing.id last) row = true ↔
      listing.key row < listing.key last := by
  simp [Listing.before, Listing.key, Prod.Lex.toLex_lt_toLex]

/-- The condition that a cursor adds leaves the rows below the one it was made of. -/
theorem findMany_before (listing : Listing ρ ι) (take : Nat) (last : ρ) :
    listing.findMany
        (fun row => filters row && listing.before (listing.time last, listing.id last) row)
        take rows =
      Keyset.findMany listing.key take (some (listing.key last)) (rows.filter filters) := by
  have same : (fun row => filters row &&
      listing.before (listing.time last, listing.id last) row) =
      fun row => decide (listing.key row < listing.key last) && filters row := by
    funext row
    rw [Bool.and_comm, Bool.eq_iff_iff.mpr
      ((before_iff listing row last).trans decide_eq_true_iff.symm)]
  simp only [Listing.findMany, Keyset.findMany, List.filter_filter, same, Option.all_some]

/-- A page after the rows before it. -/
theorem page_token (reads : listing.Reads) (limit : Limit)
    (distinct : (rows.map listing.id).Nodup) {front rest : List ρ}
    (ordered : Keyset.orderDesc listing.key (rows.filter filters) = front ++ rest) :
    listing.page filters limit rows (front.getLast?.map listing.token) =
      some (listing.serialize limit (rest.take (limit + 1))) := by
  have below := Keyset.findMany_below (nodup_key listing distinct) ordered (limit + 1)
  cases found : front.getLast? with
  | none =>
    have nothing : front = [] := List.getLast?_eq_none_iff.mp found
    subst nothing
    simp [Listing.page, Listing.findMany, ordered]
  | some last =>
    rw [found, Option.map_some] at below
    rw [Option.map_some, Listing.page, Listing.token, reads, Option.map_some, findMany_before,
      below]

/-! ## All pages -/

/-- A listing that is read page by page is complete, when its endpoint passes on the cursors
that it issued. -/
theorem page_complete (reads : listing.Reads) (limit : Limit)
    (distinct : (rows.map listing.id).Nodup) {passed : Option String → Option String}
    (start : passed none = none)
    (passes : ∀ row, passed (some (listing.token row)) = some (listing.token row)) :
    Complete otherFormats listing filters rows fun cursor =>
      listing.page filters limit rows (passed cursor) where
  whole := by
    have start : ∃ turns, Pages.follow (fun cursor => listing.page filters limit rows
        (passed cursor)) turns none = some (Pages.stretches limit.1 limit.1
          (Keyset.orderDesc listing.key (rows.filter filters))) := by
      let At (cursor : Option String) (rest : List ρ) : Prop := ∃ front : List ρ,
        Keyset.orderDesc listing.key (rows.filter filters) = front ++ rest ∧
          cursor = front.getLast?.map listing.token
      refine Pages.follow_eq At limit.2 ?_ ⟨[], rfl, rfl⟩
      rintro _ rest ⟨front, ordered, rfl⟩
      have passedOn : passed (front.getLast?.map listing.token) =
          front.getLast?.map listing.token := by
        cases front.getLast? with
        | none => exact start
        | some last => exact passes last
      refine ⟨(listing.serialize limit (rest.take (limit + 1))).2, ?_, serialize_last, ?_⟩
      · rw [passedOn, page_token reads limit distinct ordered,
          ← @serialize_items _ _ listing limit.1 rest]
      · intro more
        obtain ⟨last, found⟩ : ∃ last, (rest.take limit.1).getLast? = some last := by
          have some : rest.take limit.1 ≠ [] := by
            intro empty
            have none := congrArg List.length empty
            rw [List.length_take, List.length_nil] at none
            have positive := limit.2
            omega
          exact ⟨_, List.getLast?_eq_some_getLast some⟩
        refine ⟨listing.token last, ?_, front ++ rest.take limit, ?_, ?_⟩
        · rw [serialize_more more, found, Option.map_some]
        · rw [List.append_assoc, List.take_append_drop, ordered]
        · rw [List.getLast?_append, found, Option.some_or, Option.map_some]
    obtain ⟨turns, followed⟩ := start
    rw [Pages.stretches_self limit.2] at followed
    exact ⟨turns, _, followed, Keyset.orderDesc_perm _,
      Keyset.orderDesc_descends (nodup_key listing distinct)⟩
  honoured := by
    intro cursor items token answered
    have issued : ∃ found, listing.serialize limit found = (items, some token) := by
      cases taken : passed cursor with
      | none =>
        rw [taken] at answered
        exact ⟨_, Option.some.inj answered⟩
      | some raw =>
        rw [taken, Listing.page] at answered
        obtain ⟨keyset, -, serialized⟩ := Option.map_eq_some_iff.mp answered
        exact ⟨_, serialized⟩
    obtain ⟨found, serialized⟩ := issued
    obtain ⟨row, rfl⟩ := serialize_issues serialized
    refine ⟨_, rfl, decodeCursor_encodeCursor .., ?_⟩
    rw [passes, Listing.page, Listing.token, reads]
    rfl

end Order

/-! ## The endpoints -/

theorem questionListing_reads : (questionListing otherFormats).Reads := by
  unfold Listing.Reads questionListing
  exact createdAtKeysetFromCursor_cursorOf

theorem messageListing_reads : (messageListing otherFormats).Reads := by
  unfold Listing.Reads messageListing
  exact createdAtKeysetFromCursor_cursorOf

theorem eventListing_reads : (eventListing otherFormats).Reads := by
  unfold Listing.Reads eventListing
  exact keysetFromDecoded_cursorOf

theorem sessionListing_reads : (sessionListing otherFormats).Reads := by
  unfold Listing.Reads sessionListing
  exact keysetFromDecoded_cursorOf

theorem auditListing_reads : (auditListing otherFormats).Reads := by
  unfold Listing.Reads auditListing
  exact keysetFromCursor_cursorOf

/-- An endpoint for which an empty cursor is none passes on the cursors that it issued. -/
theorem filter_token (listing : Listing ρ ι) (row : ρ) :
    (some (listing.token row)).filter (· ≠ "") = some (listing.token row) := by
  simp [Option.filter, Listing.token, encodeCursor_ne_empty]

section Endpoints

variable [LinearOrder Uuid]

/-- An id list names at least as many rows as there are with these ids. -/
theorem length_ids_le {ids : List Uuid} {rows : List Question}
    (distinct : (rows.map Question.id).Nodup) :
    (rows.filter fun row => decide (row.id ∈ ids)).length ≤ ids.length := by
  have fewer : ((rows.filter fun row => decide (row.id ∈ ids)).map Question.id).Nodup :=
    distinct.sublist (List.filter_sublist.map _)
  have named : (rows.filter fun row => decide (row.id ∈ ids)).map Question.id ⊆ ids := by
    intro id member
    obtain ⟨row, kept, rfl⟩ := List.mem_map.mp member
    exact of_decide_eq_true (List.mem_filter.mp kept).2
  have count := (List.subperm_of_subset fewer named).length_le
  rwa [List.length_map] at count

theorem getQuestions_complete (active : Option Uuid) (questions : Keyed Question.id)
    (query : QuestionsQuery) :
    Complete otherFormats (questionListing otherFormats) (query.filters active) questions.rows
      (getQuestions otherFormats active questions.rows query) := by
  cases named : query.ids with
  | none =>
    have paged : getQuestions otherFormats active questions.rows query = fun cursor =>
        (questionListing otherFormats).page (query.filters active) query.limit questions.rows
          (id cursor) := by
      funext cursor
      simp only [getQuestions, named, id]
    rw [paged]
    exact page_complete questionListing_reads query.limit questions.distinct rfl
      fun _ => rfl
  | some ids =>
    have filters : query.filters active = fun row => decide (row.id ∈ ids) := by
      funext row
      simp only [QuestionsQuery.filters, named]
    have answer : getQuestions otherFormats active questions.rows query = fun _ =>
        some (Keyset.orderDesc (questionListing otherFormats).key
          (questions.rows.filter (query.filters active)), none) := by
      funext cursor
      have enough : (Keyset.orderDesc (questionListing otherFormats).key
          (questions.rows.filter (query.filters active))).length ≤ ids.length := by
        rw [(Keyset.orderDesc_perm _).length_eq, filters]
        exact length_ids_le questions.distinct
      simp only [getQuestions, named, Listing.findMany, List.take_of_length_le enough]
    rw [answer]
    refine ⟨⟨1, _, rfl, Keyset.orderDesc_perm _, Keyset.orderDesc_descends
      (nodup_key (questionListing otherFormats) questions.distinct)⟩, ?_⟩
    intro cursor items token answered
    cases answered

theorem getMessages_complete (questions : Keyed Question.id) (messages : Keyed Message.id)
    {question : Uuid} (exist : question ∈ questions.rows.map Question.id) (limit : Limit) :
    Complete otherFormats (messageListing otherFormats) (ofQuestion question) messages.rows
      (getMessages otherFormats questions.rows messages.rows question limit) := by
  have paged : getMessages otherFormats questions.rows messages.rows question limit =
      fun cursor => (messageListing otherFormats).page (ofQuestion question) limit messages.rows
        (id cursor) := by
    funext cursor
    rw [getMessages, if_pos exist, id]
  rw [paged]
  exact page_complete messageListing_reads limit messages.distinct rfl fun _ => rfl

theorem getAudit_complete (entries : Keyed AuditLog.id) (query : AuditQuery) :
    Complete otherFormats (auditListing otherFormats) query.filters entries.rows
      (getAudit otherFormats entries.rows query) :=
  page_complete auditListing_reads query.limit entries.distinct rfl (filter_token _)

theorem getTargetAudit_complete (entries : Keyed AuditLog.id) (targetType targetId : String)
    (limit : Limit) :
    Complete otherFormats (auditListing otherFormats) (ofTarget targetType targetId) entries.rows
      (getTargetAudit otherFormats entries.rows targetType targetId limit) :=
  page_complete auditListing_reads limit entries.distinct rfl (filter_token _)

variable [LinearOrder TextId]

theorem getEvents_complete (active : Option Uuid) (events : Keyed BoothEvent.id)
    (query : EventsQuery) :
    Complete otherFormats (eventListing otherFormats) (query.filters active) events.rows
      (getEvents otherFormats active events.rows query) :=
  page_complete eventListing_reads query.limit events.distinct rfl (filter_token _)

theorem getSessions_complete (active : Option Uuid) (sessions : Keyed CallSession.id)
    (query : SessionsQuery) :
    Complete otherFormats (sessionListing otherFormats) (query.filters active) sessions.rows
      (getSessions otherFormats active sessions.rows query) :=
  page_complete sessionListing_reads query.limit sessions.distinct rfl (filter_token _)

theorem every_listing_complete (otherFormats : String → Option Instant) (active : Option Uuid)
    (questions : Keyed Question.id) (messages : Keyed Message.id) (events : Keyed BoothEvent.id)
    (sessions : Keyed CallSession.id) (entries : Keyed AuditLog.id) :
    (∀ query : QuestionsQuery,
      Complete otherFormats (questionListing otherFormats) (query.filters active) questions.rows
        (getQuestions otherFormats active questions.rows query)) ∧
    (∀ question ∈ questions.rows.map Question.id, ∀ limit,
      Complete otherFormats (messageListing otherFormats) (ofQuestion question) messages.rows
        (getMessages otherFormats questions.rows messages.rows question limit)) ∧
    (∀ query : EventsQuery,
      Complete otherFormats (eventListing otherFormats) (query.filters active) events.rows
        (getEvents otherFormats active events.rows query)) ∧
    (∀ query : SessionsQuery,
      Complete otherFormats (sessionListing otherFormats) (query.filters active) sessions.rows
        (getSessions otherFormats active sessions.rows query)) ∧
    (∀ query : AuditQuery,
      Complete otherFormats (auditListing otherFormats) query.filters entries.rows
        (getAudit otherFormats entries.rows query)) ∧
    ∀ targetType targetId limit,
      Complete otherFormats (auditListing otherFormats) (ofTarget targetType targetId)
        entries.rows (getTargetAudit otherFormats entries.rows targetType targetId limit) :=
  ⟨getQuestions_complete active questions,
    fun _ exist limit => getMessages_complete questions messages exist limit,
    getEvents_complete active events, getSessions_complete active sessions,
    getAudit_complete entries, getTargetAudit_complete entries⟩

end Endpoints

/-! ## A page boundary between equal timestamps -/

@[reducible] def uuidsByText : LinearOrder Uuid :=
  LinearOrder.lift' Uuid.text fun one other same => by
    cases one
    cases other
    cases same
    rfl

@[reducible] def textIdsByText : LinearOrder TextId :=
  LinearOrder.lift' TextId.text fun one other same => by
    cases one
    cases other
    cases same
    rfl

def lowId : Uuid :=
  ⟨"00000000-0000-4000-8000-00000000000a", by decide, String.toList_inj.mp (by
    rw [String.toLower, String.toList_map]
    decide)⟩

def highId : Uuid :=
  ⟨"00000000-0000-4000-8000-00000000000b", by decide, String.toList_inj.mp (by
    rw [String.toLower, String.toList_map]
    decide)⟩

/-- Two messages of one question that were made in the same millisecond. -/
def twins : Keyed Message.id where
  rows := [⟨lowId, some lowId, ⟨0, by decide⟩⟩, ⟨highId, some lowId, ⟨0, by decide⟩⟩]
  distinct := by
    simp [lowId, highId]

def asked : Keyed Question.id where
  rows := [⟨lowId, .active, ⟨0, by decide⟩, none⟩]
  distinct := by
    simp

theorem every_listing_complete_twins :
    letI := uuidsByText
    Complete (fun _ => none) (messageListing fun _ => none) (ofQuestion lowId) twins.rows
      (getMessages (fun _ => none) asked.rows twins.rows lowId ⟨1, by decide⟩) := by
  let := uuidsByText
  let := textIdsByText
  exact (every_listing_complete (fun _ => none) none asked twins ⟨[], List.nodup_nil⟩
    ⟨[], List.nodup_nil⟩ ⟨[], List.nodup_nil⟩).2.1 lowId (by simp [asked]) ⟨1, by decide⟩

end BoothOperator.Listings
