import Mathlib.Data.List.Pairwise
import BoothOperator.Pipeline.PushWork

/-! When the replay of outstanding push work is complete. The pages take both
scans from their start to their end; what they keep of a row is decided by the
newest transcription of its message, whatever its status, where the writers go by
the latest succeeded one. -/
namespace BoothOperator.Pipeline

open BoothOperator.Schema
open BoothOperator.Keyset

variable {config : PushConfig} {take : Nat} {db : Db} {messageId : Id} {need : WorkNeed}

/-! ## The newest transcription -/

theorem get_firstOfEach_from (rows : List Transcription) (latest : OrderedMap Id Id) :
    (rows.foldl (fun latest row =>
      if latest.has row.messageId then latest else latest.set row.messageId row.id)
        latest).get messageId =
      (latest.get messageId).or ((rows.find? (·.messageId = messageId)).map (·.id)) := by
  induction rows generalizing latest with
  | nil => simp
  | cons row rest ih =>
    rw [List.foldl_cons, ih, List.find?_cons]
    by_cases own : row.messageId = messageId
    · subst own
      cases there : latest.get row.messageId with
      | none => simp [OrderedMap.has, there]
      | some id => simp [OrderedMap.has, there]
    · have apart : messageId ≠ row.messageId := fun same => own same.symm
      simp only [own, decide_false]
      split
      · rfl
      · rw [OrderedMap.get_set_of_ne apart]

theorem get_firstOfEach (rows : List Transcription) :
    (firstOfEach rows).get messageId = (rows.find? (·.messageId = messageId)).map (·.id) := by
  rw [firstOfEach, get_firstOfEach_from]
  rfl

theorem Keyed.transcriptionKeys (keyed : Keyed db) : (db.transcriptions.map transcriptionKey).Nodup := by
  apply List.Nodup.of_map fun key : PushWorkCursor => (ofLex key).2
  rw [List.map_map]
  exact keyed.transcriptions

theorem Keyed.moderationKeys (keyed : Keyed db) : (db.moderations.map moderationKey).Nodup := by
  apply List.Nodup.of_map fun key : PushWorkCursor => (ofLex key).2
  rw [List.map_map]
  exact keyed.moderations

/-- Of the messages asked for, the id that is found is that of the newest row. -/
theorem get_latestTranscriptionIds (keyed : Keyed db) {messageIds : List Id}
    (asked : messageId ∈ messageIds) :
    (latestTranscriptionIdsForMessages messageIds db).get messageId =
      (latestAttempt db messageId).map (·.id) := by
  have narrow : (db.transcriptions.filter fun row => row.messageId ∈ messageIds).filter
      (fun row => row.messageId = messageId) =
        db.transcriptions.filter fun row => row.messageId = messageId := by
    rw [List.filter_filter]
    apply List.filter_congr
    intro row _
    by_cases own : row.messageId = messageId
    · simp [own, asked]
    · simp [own]
  have distinct : ((db.transcriptions.filter fun row => row.messageId ∈ messageIds).map
      transcriptionKey).Nodup := keyed.transcriptionKeys.sublist (List.filter_sublist.map _)
  rw [latestTranscriptionIdsForMessages, get_firstOfEach, latestAttempt, ← narrow,
    orderDesc_filter distinct, List.head?_filter]

/-! ## The needs of a page -/

/-- The pairs of a map from messages to what they need. -/
def needsOf (work : WorkByMessage) : List (Id × WorkNeed) :=
  work.entries.flatMap fun entry => entry.2.map fun need => (entry.1, need)

theorem mem_needsOf {work : WorkByMessage} :
    (messageId, need) ∈ needsOf work ↔ ∃ needs, work.get messageId = some needs ∧ need ∈ needs := by
  simp only [needsOf, List.mem_flatMap, List.mem_map, Prod.mk.injEq, OrderedMap.get_eq_some]
  constructor
  · rintro ⟨entry, there, other, member, rfl, rfl⟩
    exact ⟨entry.2, there, member⟩
  · rintro ⟨needs, there, member⟩
    exact ⟨(messageId, needs), there, need, member, rfl, rfl⟩

/-- No message has a need twice. -/
def Once (work : WorkByMessage) : Prop :=
  ∀ messageId needs, work.get messageId = some needs → needs.Nodup

theorem nodup_needsOf {work : WorkByMessage} (once : Once work) : (needsOf work).Nodup := by
  rw [needsOf, List.nodup_flatMap]
  constructor
  · intro entry member
    have distinct : entry.2.Nodup := once entry.1 entry.2 (OrderedMap.get_eq_some.mpr member)
    exact distinct.map fun _ _ same => (Prod.mk.inj same).2
  · have keys : work.entries.Pairwise fun one other => one.1 ≠ other.1 := by
      have distinct := work.distinct
      rwa [List.Nodup, List.pairwise_map] at distinct
    apply keys.imp
    intro one other apart pair first second
    obtain ⟨_, _, rfl⟩ := List.mem_map.mp first
    obtain ⟨_, _, same⟩ := List.mem_map.mp second
    exact apart (Prod.mk.inj same).1.symm

theorem mem_needsOf_addNeed {work : WorkByMessage} {other : Id} {extra : WorkNeed} :
    (messageId, need) ∈ needsOf (addNeed work other extra) ↔
      (messageId, need) = (other, extra) ∨ (messageId, need) ∈ needsOf work := by
  simp only [mem_needsOf, addNeed, OrderedMap.get_set_eq_some, Prod.mk.injEq]
  by_cases own : messageId = other
  · subst own
    cases there : work.get messageId with
    | none => simp
    | some needs =>
      simp only [Option.getD_some, true_and, ne_eq, not_true_eq_false, false_and, or_false,
        exists_eq_left, Option.some.injEq]
      by_cases already : extra ∈ needs
      · rw [if_pos already]
        constructor
        · intro member
          exact Or.inr ⟨needs, rfl, member⟩
        · rintro (rfl | ⟨_, rfl, member⟩)
          · exact already
          · exact member
      · rw [if_neg already, List.mem_append, List.mem_singleton]
        constructor
        · rintro (member | rfl)
          · exact Or.inr ⟨needs, rfl, member⟩
          · exact Or.inl rfl
        · rintro (rfl | ⟨_, rfl, member⟩)
          · exact Or.inr rfl
          · exact Or.inl member
  · simp [own]

theorem Once.addNeed {work : WorkByMessage} (once : Once work) (other : Id) (extra : WorkNeed) :
    Once (addNeed work other extra) := by
  intro messageId needs read
  rcases OrderedMap.get_set_eq_some.mp read with ⟨rfl, rfl⟩ | ⟨-, old⟩
  · have before : ((work.get messageId).getD []).Nodup := by
      cases there : work.get messageId with
      | none => exact List.nodup_nil
      | some needs => exact once messageId needs there
    split
    · exact before
    · rename_i fresh
      apply before.append (List.nodup_singleton _)
      exact List.disjoint_singleton.mpr fresh
  · exact once messageId needs old

/-- What a loop over rows adds: for each row that counts, its need. -/
theorem mem_needsOf_foldl {ρ : Type} {add : WorkByMessage → ρ → WorkByMessage}
    {counts : ρ → Option Id} {extra : WorkNeed}
    (adds : ∀ work row, add work row = match counts row with
      | none => work
      | some id => addNeed work id extra) (rows : List ρ) (work : WorkByMessage) :
    ((messageId, need) ∈ needsOf (rows.foldl add work) ↔
      (need = extra ∧ ∃ row ∈ rows, counts row = some messageId) ∨
        (messageId, need) ∈ needsOf work) ∧
      (Once work → Once (rows.foldl add work)) := by
  induction rows generalizing work with
  | nil => simp
  | cons row rest ih =>
    obtain ⟨members, once⟩ := ih (add work row)
    rw [List.foldl_cons]
    constructor
    · rw [members, adds]
      cases counted : counts row with
      | none => simp [counted]
      | some id =>
        simp only [mem_needsOf_addNeed, List.mem_cons, exists_eq_or_imp, counted, Prod.mk.injEq,
          Option.some.injEq]
        constructor
        · rintro (⟨rfl, later⟩ | ⟨rfl, rfl⟩ | old)
          · exact Or.inl ⟨rfl, Or.inr later⟩
          · exact Or.inl ⟨rfl, Or.inl rfl⟩
          · exact Or.inr old
        · rintro (⟨rfl, rfl | later⟩ | old)
          · exact Or.inr (Or.inl ⟨rfl, rfl⟩)
          · exact Or.inl ⟨rfl, later⟩
          · exact Or.inr (Or.inr old)
    · intro before
      apply once
      rw [adds]
      cases counts row with
      | none => exact before
      | some id => exact before.addNeed id extra

/-- The message of a translation that is kept, and of a moderation that is. -/
def keptTranslation (db : Db) (row : Transcription) : Option Id :=
  if (latestAttempt db row.messageId).map (·.id) = some row.id then some row.messageId
  else none

def keptModeration (db : Db) (row : Moderation) : Option Id :=
  if row.transcriptionId ≠ none ∧
      (latestAttempt db row.messageId).map (·.id) = row.transcriptionId then
    some row.messageId
  else none

/-- A page keeps the rows on the newest transcription of their message. -/
theorem mem_needsOf_page {latestIds : OrderedMap Id Id} {translations : List Transcription}
    {moderations : List Moderation}
    (newest : ∀ id ∈ translations.map (·.messageId) ++ moderations.map (·.messageId),
      latestIds.get id = (latestAttempt db id).map (·.id)) :
    ((messageId, need) ∈ needsOf (moderations.foldl (addModeration latestIds)
        (translations.foldl (addTranslation latestIds) .empty)) ↔
      (need = .translation ∧ ∃ row ∈ translations, keptTranslation db row = some messageId) ∨
        (need = .moderation ∧ ∃ row ∈ moderations, keptModeration db row = some messageId)) ∧
      Once (moderations.foldl (addModeration latestIds)
        (translations.foldl (addTranslation latestIds) .empty)) := by
  have translated := @mem_needsOf_foldl messageId need Transcription (addTranslation latestIds)
    (fun row => if latestIds.get row.messageId = some row.id then some row.messageId else none)
    .translation (by intro work row; unfold addTranslation; split <;> rfl) translations .empty
  have moderated := @mem_needsOf_foldl messageId need Moderation (addModeration latestIds)
    (fun row => if row.transcriptionId ≠ none ∧ latestIds.get row.messageId = row.transcriptionId
      then some row.messageId else none)
    .moderation (by
      intro work row
      unfold addModeration
      cases row.transcriptionId with
      | none => simp
      | some id =>
        simp only [ne_eq, reduceCtorEq, not_false_eq_true, true_and]
        split <;> rfl)
    moderations (translations.foldl (addTranslation latestIds) .empty)
  have sameTranslations : (∃ row ∈ translations,
      (if latestIds.get row.messageId = some row.id then some row.messageId else none) =
        some messageId) ↔ ∃ row ∈ translations, keptTranslation db row = some messageId := by
    apply exists_congr
    intro row
    apply and_congr_right
    intro member
    rw [newest row.messageId (List.mem_append_left _ (List.mem_map_of_mem member)), keptTranslation]
  have sameModerations : (∃ row ∈ moderations,
      (if row.transcriptionId ≠ none ∧ latestIds.get row.messageId = row.transcriptionId
        then some row.messageId else none) = some messageId) ↔
        ∃ row ∈ moderations, keptModeration db row = some messageId := by
    apply exists_congr
    intro row
    apply and_congr_right
    intro member
    rw [newest row.messageId (List.mem_append_right _ (List.mem_map_of_mem member)), keptModeration]
  have nothing : (messageId, need) ∉ needsOf (.empty : WorkByMessage) := by
    simp [needsOf, OrderedMap.empty]
  constructor
  · rw [moderated.1, translated.1, sameTranslations, sameModerations, or_iff_left nothing, or_comm]
  · apply moderated.2
    apply translated.2
    intro id needs read
    cases read

theorem mem_needsOf_workOf (keyed : Keyed db) (translations : List Transcription)
    (moderations : List Moderation) :
    ((messageId, need) ∈ needsOf (workOf translations moderations db) ↔
      (need = .translation ∧ ∃ row ∈ translations, keptTranslation db row = some messageId) ∨
        (need = .moderation ∧ ∃ row ∈ moderations, keptModeration db row = some messageId)) ∧
      Once (workOf translations moderations db) :=
  mem_needsOf_page fun _ asked => get_latestTranscriptionIds keyed asked

theorem pairs_workOf (work : WorkByMessage) :
    pairs (work.entries.map fun entry => ⟨entry.1, entry.2⟩) = needsOf work := by
  rw [pairs, needsOf, List.flatMap_map]

/-! ## The loop -/

section Loop

/-- The rows of the two scans, in their order. -/
def translationScan (config : PushConfig) (db : Db) : List Transcription :=
  if config.translationProvider = .push then orderDesc transcriptionKey (translationRows none db)
  else []

def moderationScan (config : PushConfig) (db : Db) : List Moderation :=
  if config.moderationProvider = .push then orderDesc moderationKey (moderationRows none db)
  else []

/-- The cursors before the page of an index. -/
def cursorsAt (config : PushConfig) (take : Nat) (db : Db) (index : Nat) :
    OutstandingPushWorkCursor where
  translation := cursorAt transcriptionKey take index (translationScan config db)
  moderation := cursorAt moderationKey take index (moderationScan config db)

def workAt (config : PushConfig) (take : Nat) (db : Db) (index : Nat) : List OutstandingPushWork :=
  (workOf (pageAt take index (translationScan config db))
    (pageAt take index (moderationScan config db)) db).entries.map fun entry => ⟨entry.1, entry.2⟩

/-- There are rows to the end of the page of an index. -/
def Fills (config : PushConfig) (take : Nat) (db : Db) (index : Nat) : Prop :=
  (config.translationProvider = .push ∧
    (index + 1) * take ≤ (translationScan config db).length) ∨
  (config.moderationProvider = .push ∧ (index + 1) * take ≤ (moderationScan config db).length)

theorem pageAt_nil {ρ : Type} (take index : Nat) : pageAt take index ([] : List ρ) = [] := by
  simp [pageAt]

theorem Keyed.translationRows (keyed : Keyed db) (staleBefore : Option Time) :
    ((translationRows staleBefore db).map transcriptionKey).Nodup :=
  keyed.transcriptionKeys.sublist (List.filter_sublist.map _)

theorem Keyed.moderationRows (keyed : Keyed db) (staleBefore : Option Time) :
    ((moderationRows staleBefore db).map moderationKey).Nodup :=
  keyed.moderationKeys.sublist (List.filter_sublist.map _)

/-- The page that is found at the cursors of an index. -/
theorem findOutstandingPushWorkPage_cursorsAt (keyed : Keyed db) (index : Nat) :
    let page := findOutstandingPushWorkPage config none take (cursorsAt config take db index) db
    page.work = workAt config take db index ∧ page.cursor = cursorsAt config take db (index + 1) ∧
      (page.hasMore = true ↔ Fills config take db index) := by
  have translations : (if config.translationProvider = .push then
      findMany transcriptionKey take (cursorsAt config take db index).translation
        (translationRows none db) else []) = pageAt take index (translationScan config db) := by
    unfold cursorsAt translationScan
    by_cases push : config.translationProvider = .push
    · simp only [if_pos push]
      exact findMany_cursorAt (keyed.translationRows none) take index
    · simp only [if_neg push, pageAt_nil]
  have moderations : (if config.moderationProvider = .push then
      findMany moderationKey take (cursorsAt config take db index).moderation
        (moderationRows none db) else []) = pageAt take index (moderationScan config db) := by
    unfold cursorsAt moderationScan
    by_cases push : config.moderationProvider = .push
    · simp only [if_pos push]
      exact findMany_cursorAt (keyed.moderationRows none) take index
    · simp only [if_neg push, pageAt_nil]
  simp only [findOutstandingPushWorkPage, translations, moderations]
  refine ⟨rfl, ?_, ?_⟩
  · simp only [cursorsAt, advance_cursorAt]
  · simp [Fills, length_pageAt_eq]

/-- The loop goes on to the first page that the rows do not fill, if it has the turns. -/
theorem replayOutstandingWork_cursorsAt (keyed : Keyed db) {last : Nat}
    (fills : ∀ index < last, Fills config take db index) (ends : ¬ Fills config take db last)
    {turns index : Nat} (le : index ≤ last) :
    replayOutstandingWork config take db turns (cursorsAt config take db index) =
      if last - index < turns then
        some ((List.range' index (last - index + 1)).flatMap (workAt config take db))
      else none := by
  induction turns generalizing index with
  | zero => simp [replayOutstandingWork]
  | succ turns ih =>
    obtain ⟨work, cursor, more⟩ :=
      @findOutstandingPushWorkPage_cursorsAt config take db keyed index
    simp only [replayOutstandingWork, work, cursor]
    rcases Nat.eq_or_lt_of_le le with rfl | before
    · have finished : (findOutstandingPushWorkPage config none take (cursorsAt config take db index)
          db).hasMore = false := by
        rw [← Bool.not_eq_true, more]
        exact ends
      rw [if_neg (by simp [finished]), if_pos (by omega), Nat.sub_self]
      simp
    · have goes : (findOutstandingPushWorkPage config none take (cursorsAt config take db index)
          db).hasMore = true := more.mpr (fills index before)
      rw [if_pos goes, ih before]
      have rest : List.range' index (last - index + 1) =
          index :: List.range' (index + 1) (last - (index + 1) + 1) := by
        rw [List.range'_succ]
        congr 2
        omega
      by_cases enough : last - (index + 1) < turns
      · rw [if_pos enough, if_pos (by omega), Option.map_some, rest, List.flatMap_cons]
      · rw [if_neg enough, if_neg (by omega)]
        rfl

theorem cursorsAt_zero : cursorsAt config take db 0 = {} := by
  simp [cursorsAt, cursorAt_zero]

/-- Where every page is filled the loop has no end. -/
theorem replayOutstandingWork_endless (keyed : Keyed db)
    (fills : ∀ index, Fills config take db index) (turns index : Nat) :
    replayOutstandingWork config take db turns (cursorsAt config take db index) = none := by
  induction turns generalizing index with
  | zero => rfl
  | succ turns ih =>
    obtain ⟨work, cursor, more⟩ :=
      @findOutstandingPushWorkPage_cursorsAt config take db keyed index
    simp only [replayOutstandingWork, cursor, if_pos (more.mpr (fills index)), ih, Option.map_none]

/-- Pages of some size come to an end. -/
theorem exists_last (positive : 0 < take) : ∃ last, (∀ index < last, Fills config take db index) ∧
    ¬ Fills config take db last := by
  have ends : ∃ index, ¬ Fills config take db index := by
    refine ⟨(translationScan config db).length + (moderationScan config db).length, ?_⟩
    have grows : (translationScan config db).length + (moderationScan config db).length + 1 ≤
        ((translationScan config db).length + (moderationScan config db).length + 1) * take :=
      Nat.le_mul_of_pos_right _ positive
    unfold Fills
    omega
  classical
  refine ⟨Nat.find ends, ?_, Nat.find_spec ends⟩
  intro index before
  exact not_not.mp (Nat.find_min ends before)

end Loop

/-! ## What is sent -/

section Sent

variable {last : Nat}

/-- Pages of which the last is not full hold every row. -/
theorem covered {ρ : Type} {ordered : List ρ} {row : ρ} (positive : row ∈ ordered → 0 < take)
    (short : ordered.length < (last + 1) * take ∨ ordered = []) :
    (∃ index ∈ List.range' 0 (last + 1), row ∈ pageAt take index ordered) ↔ row ∈ ordered := by
  constructor
  · rintro ⟨index, -, member⟩
    exact List.drop_subset _ _ (List.take_subset _ _ member)
  · intro member
    obtain ⟨place, found⟩ := List.mem_iff_getElem?.mp member
    obtain ⟨inside, -⟩ := List.getElem?_eq_some_iff.mp found
    refine ⟨place / take, ?_, (mem_pageAt (positive member)).mpr ⟨place, found, rfl⟩⟩
    rcases short with fits | rfl
    · have within : place / take < last + 1 :=
        (Nat.div_lt_iff_lt_mul (positive member)).mpr (by omega)
      rw [List.mem_range'_1, Nat.zero_add]
      exact ⟨Nat.zero_le _, within⟩
    · cases inside

theorem mem_translationScan {row : Transcription} : row ∈ translationScan config db ↔
    config.translationProvider = .push ∧ row ∈ db.transcriptions ∧ pushTranslation row = true := by
  unfold translationScan
  by_cases push : config.translationProvider = .push
  · simp [push, mem_orderDesc, translationRows]
  · simp [push]

theorem mem_moderationScan {row : Moderation} : row ∈ moderationScan config db ↔
    config.moderationProvider = .push ∧ row ∈ db.moderations ∧ pushModeration row = true := by
  unfold moderationScan
  by_cases push : config.moderationProvider = .push
  · simp [push, mem_orderDesc, moderationRows]
  · simp [push]

theorem latestAttempt_mem {row : Transcription}
    (found : latestAttempt db messageId = some row) :
    row ∈ db.transcriptions ∧ row.messageId = messageId := by
  have member := mem_orderDesc.mp (List.mem_of_mem_head? found)
  simpa using List.mem_filter.mp member

theorem keptTranslation_eq_some (keyed : Keyed db) {row : Transcription}
    (member : row ∈ db.transcriptions) :
    keptTranslation db row = some messageId ↔ latestAttempt db messageId = some row := by
  unfold keptTranslation
  constructor
  · intro kept
    split at kept
    · rename_i newest
      cases kept
      obtain ⟨other, found, same⟩ := Option.map_eq_some_iff.mp newest
      rw [found, Table.eq_of_key_eq keyed.transcriptions (latestAttempt_mem found).1 member same]
    · cases kept
  · intro found
    obtain ⟨-, rfl⟩ := latestAttempt_mem found
    rw [found, Option.map_some, if_pos rfl]

theorem keptModeration_eq_some {row : Moderation} :
    keptModeration db row = some messageId ↔ row.messageId = messageId ∧
      row.transcriptionId ≠ none ∧
      (latestAttempt db row.messageId).map (·.id) = row.transcriptionId := by
  unfold keptModeration
  split
  · rename_i kept
    simp [kept]
  · rename_i dropped
    simp [dropped]

theorem awaitsModeration_iff : (∃ row ∈ moderationScan config db,
    keptModeration db row = some messageId) ↔ config.moderationProvider = .push ∧
      AwaitsModeration db messageId (latestAttempt db messageId) := by
  simp only [mem_moderationScan, keptModeration_eq_some]
  constructor
  · rintro ⟨row, ⟨push, member, pending⟩, rfl, refers, newest⟩
    cases target : row.transcriptionId with
    | none => exact absurd target refers
    | some id =>
      rw [target] at newest
      obtain ⟨transcript, found, rfl⟩ := Option.map_eq_some_iff.mp newest
      exact ⟨push, transcript, found, row, member, rfl, target, pending⟩
  · rintro ⟨push, transcript, found, row, member, rfl, target, pending⟩
    exact ⟨row, ⟨push, member, pending⟩, rfl, by simp [target], by rw [found, target]; rfl⟩

theorem awaitsTranslation_iff (keyed : Keyed db) : (∃ row ∈ translationScan config db,
    keptTranslation db row = some messageId) ↔ config.translationProvider = .push ∧
      AwaitsTranslation (latestAttempt db messageId) := by
  simp only [mem_translationScan]
  constructor
  · rintro ⟨row, ⟨push, member, pending⟩, kept⟩
    exact ⟨push, row, (keptTranslation_eq_some keyed member).mp kept, pending⟩
  · rintro ⟨push, row, found, pending⟩
    have member := (latestAttempt_mem found).1
    exact ⟨row, ⟨push, member, pending⟩, (keptTranslation_eq_some keyed member).mpr found⟩

/-- The pairs of the page of an index. -/
def pairsAt (config : PushConfig) (take : Nat) (db : Db) (index : Nat) : List (Id × WorkNeed) :=
  pairs (workAt config take db index)

theorem mem_pairsAt (keyed : Keyed db) {index : Nat} :
    (messageId, need) ∈ pairsAt config take db index ↔
      (need = .translation ∧ ∃ row ∈ pageAt take index (translationScan config db),
        keptTranslation db row = some messageId) ∨
      (need = .moderation ∧ ∃ row ∈ pageAt take index (moderationScan config db),
        keptModeration db row = some messageId) := by
  rw [pairsAt, workAt, pairs_workOf]
  exact (mem_needsOf_workOf keyed _ _).1

theorem nodup_pairsAt (keyed : Keyed db) (index : Nat) : (pairsAt config take db index).Nodup := by
  rw [pairsAt, workAt, pairs_workOf]
  exact nodup_needsOf (@mem_needsOf_workOf db 0 .translation keyed _ _).2

theorem pairs_flatMap (indices : List Nat) :
    pairs (indices.flatMap (workAt config take db)) = indices.flatMap (pairsAt config take db) := by
  rw [pairs, List.flatMap_assoc]
  rfl

/-- What all pages send is what the newest transcriptions call for. -/
theorem mem_pairs_all (keyed : Keyed db)
    (paged : config.translationProvider = .push ∨ config.moderationProvider = .push → 0 < take)
    (ends : ¬ Fills config take db last) :
    (messageId, need) ∈ (List.range' 0 (last + 1)).flatMap (pairsAt config take db) ↔
      match need with
      | .translation => config.translationProvider = .push ∧
        AwaitsTranslation (latestAttempt db messageId)
      | .moderation => config.moderationProvider = .push ∧
        AwaitsModeration db messageId (latestAttempt db messageId) := by
  have translations (row : Transcription) :
      (∃ index ∈ List.range' 0 (last + 1), row ∈ pageAt take index (translationScan config db)) ↔
        row ∈ translationScan config db := by
    apply covered
    · intro member
      exact paged (Or.inl (mem_translationScan.mp member).1)
    · by_cases push : config.translationProvider = .push
      · left
        by_contra long
        exact ends (Or.inl ⟨push, by omega⟩)
      · right
        simp [translationScan, push]
  have moderations (row : Moderation) :
      (∃ index ∈ List.range' 0 (last + 1), row ∈ pageAt take index (moderationScan config db)) ↔
        row ∈ moderationScan config db := by
    apply covered
    · intro member
      exact paged (Or.inr (mem_moderationScan.mp member).1)
    · by_cases push : config.moderationProvider = .push
      · left
        by_contra long
        exact ends (Or.inr ⟨push, by omega⟩)
      · right
        simp [moderationScan, push]
  rw [List.mem_flatMap]
  simp only [mem_pairsAt keyed]
  cases need with
  | translation =>
    simp only [true_and, reduceCtorEq, false_and, or_false]
    rw [← awaitsTranslation_iff keyed]
    constructor
    · rintro ⟨index, inside, row, member, kept⟩
      exact ⟨row, (translations row).mp ⟨index, inside, member⟩, kept⟩
    · rintro ⟨row, member, kept⟩
      obtain ⟨index, inside, here⟩ := (translations row).mpr member
      exact ⟨index, inside, row, here, kept⟩
  | moderation =>
    simp only [true_and, reduceCtorEq, false_and, false_or]
    rw [← awaitsModeration_iff]
    constructor
    · rintro ⟨index, inside, row, member, kept⟩
      exact ⟨row, (moderations row).mp ⟨index, inside, member⟩, kept⟩
    · rintro ⟨row, member, kept⟩
      obtain ⟨index, inside, here⟩ := (moderations row).mpr member
      exact ⟨index, inside, row, here, kept⟩

end Sent

/-! ## Completeness -/

section Complete

variable {last : Nat}

theorem moderationScan_of_push (push : config.moderationProvider = .push) :
    moderationScan config db = orderDesc moderationKey (moderationRows none db) := if_pos push

theorem nodup_scans (keyed : Keyed db) :
    (translationScan config db).Nodup ∧ (moderationScan config db).Nodup := by
  constructor
  · unfold translationScan
    split
    · exact ((orderDesc_perm _).nodup_iff.mpr (List.Nodup.of_map _ (keyed.translationRows none)))
    · exact List.nodup_nil
  · unfold moderationScan
    split
    · exact ((orderDesc_perm _).nodup_iff.mpr (List.Nodup.of_map _ (keyed.moderationRows none)))
    · exact List.nodup_nil

/-- A row has one place, and so one page. -/
theorem page_unique {ρ : Type} {ordered : List ρ} {row : ρ} {first second : Nat}
    (distinct : ordered.Nodup) (positive : 0 < take) (here : row ∈ pageAt take first ordered)
    (there : row ∈ pageAt take second ordered) : first = second := by
  obtain ⟨place, found, rfl⟩ := (mem_pageAt positive).mp here
  obtain ⟨place', found', rfl⟩ := (mem_pageAt positive).mp there
  obtain ⟨inside, -⟩ := List.getElem?_eq_some_iff.mp found
  rw [(List.getElem?_inj inside distinct).mp (found.trans found'.symm)]

/-- No two pages send the same pair when the verdicts on one transcription are on one page. -/
theorem disjoint_pages (keyed : Keyed db) (replayable : Replayable config take db)
    {first second : Nat} (apart : first ≠ second) :
    List.Disjoint (pairsAt config take db first) (pairsAt config take db second) := by
  rw [List.disjoint_left]
  rintro ⟨messageId, need⟩ here there
  rw [mem_pairsAt keyed] at here there
  rcases here with ⟨rfl, row, member, kept⟩ | ⟨rfl, row, member, kept⟩
  · rcases there with ⟨-, row', member', kept'⟩ | ⟨absent, -⟩
    · have scanned : row ∈ translationScan config db :=
        List.drop_subset _ _ (List.take_subset _ _ member)
      have scanned' : row' ∈ translationScan config db :=
        List.drop_subset _ _ (List.take_subset _ _ member')
      obtain ⟨push, stored, -⟩ := mem_translationScan.mp scanned
      have stored' := (mem_translationScan.mp scanned').2.1
      have one := (keptTranslation_eq_some keyed stored).mp kept
      have other := (keptTranslation_eq_some keyed stored').mp kept'
      have same : row = row' := Option.some.inj (one.symm.trans other)
      exact apart (page_unique (nodup_scans keyed).1 (replayable.paged (Or.inl push)) member
        (same ▸ member'))
    · cases absent
  · rcases there with ⟨absent, -⟩ | ⟨-, row', member', kept'⟩
    · cases absent
    · have scanned : row ∈ moderationScan config db :=
        List.drop_subset _ _ (List.take_subset _ _ member)
      obtain ⟨push, -, -⟩ := mem_moderationScan.mp scanned
      have positive : 0 < take := replayable.paged (Or.inr push)
      obtain ⟨rfl, refers, newest⟩ := keptModeration_eq_some.mp kept
      obtain ⟨message, -, newest'⟩ := keptModeration_eq_some.mp kept'
      obtain ⟨place, found, rfl⟩ := (mem_pageAt positive).mp member
      obtain ⟨place', found', rfl⟩ := (mem_pageAt positive).mp member'
      rw [moderationScan_of_push push] at found found'
      apply apart
      apply replayable.together push place place' row row' found found' message.symm _ refers newest
      rw [← newest, ← newest', message]

/-- Pages of no row have no end. -/
theorem paged_of_sent (keyed : Keyed db) {turns : Nat} {work : List OutstandingPushWork}
    (sent : replayOutstandingWork config take db turns {} = some work)
    (push : config.translationProvider = .push ∨ config.moderationProvider = .push) :
    0 < take := by
  by_contra none
  have zero : take = 0 := by omega
  have fills (index : Nat) : Fills config take db index := by
    rw [zero]
    rcases push with push | push
    · exact Or.inl ⟨push, Nat.zero_le _⟩
    · exact Or.inr ⟨push, Nat.zero_le _⟩
  have endless := replayOutstandingWork_endless keyed fills turns 0
  rw [cursorsAt_zero, sent] at endless
  cases endless

theorem exists_ends
    (paged : config.translationProvider = .push ∨ config.moderationProvider = .push → 0 < take) :
    ∃ last, (∀ index < last, Fills config take db index) ∧ ¬ Fills config take db last := by
  by_cases push : config.translationProvider = .push ∨ config.moderationProvider = .push
  · exact exists_last (paged push)
  · refine ⟨0, nofun, ?_⟩
    rintro (⟨translation, -⟩ | ⟨moderation, -⟩)
    · exact push (Or.inl translation)
    · exact push (Or.inr moderation)

/-- A row of the scan is on one of the pages that are read. -/
theorem page_mem_range {place : Nat} {row : Moderation} (positive : 0 < take)
    (push : config.moderationProvider = .push) (ends : ¬ Fills config take db last)
    (found : (moderationScan config db)[place]? = some row) :
    place / take ∈ List.range' 0 (last + 1) := by
  obtain ⟨within, -⟩ := List.getElem?_eq_some_iff.mp found
  have short : (moderationScan config db).length < (last + 1) * take := by
    by_contra long
    exact ends (Or.inr ⟨push, by omega⟩)
  rw [List.mem_range'_1, Nat.zero_add]
  exact ⟨Nat.zero_le _, (Nat.div_lt_iff_lt_mul positive).mpr (by omega)⟩

/-- Pages that send no pair twice have the verdicts on one transcription on one page. -/
theorem together_of_nodup (keyed : Keyed db) (positive : 0 < take)
    (push : config.moderationProvider = .push) (ends : ¬ Fills config take db last)
    (distinct : ((List.range' 0 (last + 1)).flatMap (pairsAt config take db)).Nodup)
    {first second : Nat} {one other : Moderation}
    (found : (moderationScan config db)[first]? = some one)
    (found' : (moderationScan config db)[second]? = some other)
    (message : one.messageId = other.messageId)
    (target : one.transcriptionId = other.transcriptionId) (refers : one.transcriptionId ≠ none)
    (newest : (latestAttempt db one.messageId).map (·.id) = one.transcriptionId) :
    first / take = second / take := by
  have sends {place : Nat} {row : Moderation} (found : (moderationScan config db)[place]? = some row)
      (kept : keptModeration db row = some one.messageId) :
      (one.messageId, .moderation) ∈ pairsAt config take db (place / take) :=
    (mem_pairsAt keyed).mpr (Or.inr ⟨rfl, row, (mem_pageAt positive).mpr ⟨place, found, rfl⟩, kept⟩)
  have here := sends found (keptModeration_eq_some.mpr ⟨rfl, refers, newest⟩)
  have there := sends found' (keptModeration_eq_some.mpr
    ⟨message.symm, target ▸ refers, by rw [← message, newest, target]⟩)
  by_contra apart
  have symmetric : Std.Symm (Function.onFun List.Disjoint (pairsAt config take db)) :=
    ⟨fun _ _ separate _ member member' => separate member' member⟩
  have pages := (List.nodup_flatMap.mp distinct).2
  exact List.disjoint_left.mp (pages.forall (page_mem_range positive push ends found)
    (page_mem_range positive push ends found') apart) here there

/-- The replay of every state is complete exactly where the newest transcription
of each message calls for the work that its latest transcript does, and the
pending verdicts on one transcription are on one page. -/
theorem replay_complete_iff (keyed : Keyed db) :
    ReplayComplete config take db ↔ Replayable config take db := by
  constructor
  · rintro ⟨turns, work, sent, distinct, members⟩
    have paged := paged_of_sent keyed sent
    obtain ⟨last, fills, ends⟩ := @exists_ends config take db paged
    have run := @replayOutstandingWork_cursorsAt config take db keyed last fills ends turns 0
      (Nat.zero_le last)
    rw [cursorsAt_zero, sent, Nat.sub_zero] at run
    split at run
    · cases run
      rw [pairs_flatMap] at distinct members
      refine ⟨paged, ?_, ?_, ?_⟩
      · intro push messageId
        have same := (mem_pairs_all keyed paged ends).symm.trans (members messageId .translation)
        simpa [Outstanding, push] using same
      · intro push messageId
        have same := (mem_pairs_all keyed paged ends).symm.trans (members messageId .moderation)
        simpa [Outstanding, push] using same
      · intro push first second one other
        rw [← moderationScan_of_push push]
        exact together_of_nodup keyed (paged (Or.inr push)) push ends distinct
    · cases run
  · intro replayable
    obtain ⟨last, fills, ends⟩ := @exists_ends config take db replayable.paged
    have run := @replayOutstandingWork_cursorsAt config take db keyed last fills ends (last + 1) 0
      (Nat.zero_le last)
    rw [cursorsAt_zero, Nat.sub_zero, if_pos (Nat.lt_succ_self last)] at run
    refine ⟨last + 1, _, run, ?_, ?_⟩
    · rw [pairs_flatMap, List.nodup_flatMap]
      refine ⟨fun index _ => nodup_pairsAt keyed index, ?_⟩
      apply List.Nodup.pairwise_of_forall_ne List.nodup_range'
      intro first _ second _ apart
      exact disjoint_pages keyed replayable apart
    · intro messageId need
      rw [pairs_flatMap, mem_pairs_all keyed replayable.paged ends]
      cases need with
      | translation =>
        apply and_congr_right
        exact fun push => replayable.translation push messageId
      | moderation =>
        apply and_congr_right
        exact fun push => replayable.moderation push messageId

/-- A transcript whose translation is left to a push worker, with a verdict of its own. -/
def awaitingTranscript : Transcription :=
  { id := 1, messageId := 1, provider := "local", status := .succeeded, text := some "hallo",
    createdAt := 10, translationStatus := some .pending, translationProvider := some "push" }

def awaitingVerdict : Moderation :=
  { id := 2, messageId := 1, transcriptionId := some 1, provider := "push", createdAt := 11 }

def awaitingDb : Db := { transcriptions := [awaitingTranscript], moderations := [awaitingVerdict] }

/-- The same transcript after a later attempt that failed. -/
def retriedDb : Db :=
  { transcriptions :=
      [awaitingTranscript,
        { id := 3, messageId := 1, provider := "local", status := .failed, createdAt := 20 }]
    moderations := [awaitingVerdict] }

/-- A later attempt that failed hides the work on the current transcript. -/
theorem failed_attempt_hides_work :
    replayOutstandingWork ⟨.push, .push⟩ 100 retriedDb 1 {} = some [] ∧
      Outstanding ⟨.push, .push⟩ retriedDb 1 .translation ∧
      Outstanding ⟨.push, .push⟩ retriedDb 1 .moderation ∧
      ¬ ReplayComplete ⟨.push, .push⟩ 100 retriedDb := by
  have page : (findOutstandingPushWorkPage ⟨.push, .push⟩ none 100 {} retriedDb).hasMore = false ∧
      (findOutstandingPushWorkPage ⟨.push, .push⟩ none 100 {} retriedDb).work = [] := by
    decide
  have latest : retriedDb.latestSucceeded 1 = some awaitingTranscript := rfl
  have translation : Outstanding ⟨.push, .push⟩ retriedDb 1 .translation :=
    ⟨rfl, awaitingTranscript, latest, rfl⟩
  have moderation : Outstanding ⟨.push, .push⟩ retriedDb 1 .moderation :=
    ⟨rfl, awaitingTranscript, latest, awaitingVerdict, List.mem_singleton_self _, rfl, rfl, rfl⟩
  refine ⟨by simp [replayOutstandingWork, page], translation, moderation, ?_⟩
  rintro ⟨turns, work, sent, -, members⟩
  cases turns with
  | zero => cases sent
  | succ turns =>
    simp only [replayOutstandingWork, page] at sent
    cases sent
    cases (members 1 .translation).mpr translation

/-- One transcript and one verdict are replayed, in pages of one row. -/
theorem replay_complete_iff_awaiting : ReplayComplete ⟨.push, .push⟩ 1 awaitingDb := by
  have newest (messageId : Id) :
      latestAttempt awaitingDb messageId = awaitingDb.latestSucceeded messageId := by
    by_cases own : 1 = messageId
    · subst own
      rfl
    · simp [latestAttempt, Db.latestSucceeded, Table.latest, Table.newest, awaitingDb,
        awaitingTranscript, own, orderDesc]
  apply (replay_complete_iff ⟨by decide, by decide⟩).mpr
  refine ⟨fun _ => Nat.one_pos, ?_, ?_, ?_⟩
  · intro _ messageId
    rw [newest]
  · intro _ messageId
    rw [newest]
  · intro _ first second one other found found' _ _ _ _
    have single : orderDesc moderationKey (moderationRows none awaitingDb) = [awaitingVerdict] :=
      rfl
    rw [single, List.getElem?_singleton] at found found'
    have first_zero : first = 0 := by
      by_contra later
      rw [if_neg later] at found
      cases found
    have second_zero : second = 0 := by
      by_contra later
      rw [if_neg later] at found'
      cases found'
    rw [first_zero, second_zero]

end Complete

end BoothOperator.Pipeline
