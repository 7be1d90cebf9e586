import BoothOperator.Console.Frames
import BoothOperator.Lib.Run

/-! The history that a console keeps up with live frames. A frame of a cached row takes its
place, also where it is newer than the entries before it; and the frame of a row that was lost
may come back behind what was seen of it. These are the frames that leave the history wrong. -/
namespace BoothOperator.Console

open BoothOperator.Schema (Db)
open BoothOperator.Status (Report openInstallation reportAt)

/-- The cached history, and the views of rows that the console has had. -/
structure Cache where
  history : List BoothStatus
  seen : List BoothStatus

def receive (limit : Nat) (cache : Cache) (frame : BoothStatus) : Option Cache :=
  some { history := mergeLiveStatus limit cache.history frame, seen := cache.seen ++ [frame] }

def NewestFirst (history : List BoothStatus) : Prop :=
  history.Pairwise fun newer older => older.updatedAt.ms ≤ newer.updatedAt.ms

instance (history : List BoothStatus) : Decidable (NewestFirst history) :=
  inferInstanceAs (Decidable (List.Pairwise _ _))

/-- No view of the row is further on than this one. -/
def Furthest (seen : List BoothStatus) (entry : BoothStatus) : Prop :=
  ∀ view ∈ seen, view.id = entry.id →
    view.updatedAt.ms ≤ entry.updatedAt.ms ∧ repeatCountOf view ≤ repeatCountOf entry

instance (seen : List BoothStatus) (entry : BoothStatus) : Decidable (Furthest seen entry) :=
  inferInstanceAs (Decidable (∀ view ∈ seen, _ → _ ∧ _))

structure Sound (cache : Cache) : Prop where
  newest : NewestFirst cache.history
  distinct : (cache.history.map (·.id)).Nodup
  furthest : ∀ entry ∈ cache.history, Furthest cache.seen entry

/-- What is lost is lost to the limit, and is the oldest. -/
def LosesOldest (limit : Nat) (before : Cache) (frame : BoothStatus) (after : Cache) : Prop :=
  ∀ entry ∈ frame :: before.history, (∀ kept ∈ after.history, kept.id ≠ entry.id) →
    after.history.length = limit ∧ ∀ kept ∈ after.history, entry.updatedAt.ms ≤ kept.updatedAt.ms

/-- The entries before the frame's row. -/
def ahead (history : List BoothStatus) (frame : BoothStatus) : List BoothStatus :=
  history.takeWhile fun other => other.id ≠ frame.id

/-- The frame of a cached row is no newer than an entry before it, unless it is stale. -/
def InPlace (history : List BoothStatus) (frame : BoothStatus) : Prop :=
  ∀ entry ∈ history, entry.id = frame.id → isStaleFrame entry frame = false →
    ∀ newer ∈ ahead history frame, frame.updatedAt.ms ≤ newer.updatedAt.ms

instance (history : List BoothStatus) (frame : BoothStatus) : Decidable (InPlace history frame) :=
  inferInstanceAs (Decidable (∀ entry ∈ history, _ → _ → ∀ newer ∈ ahead history frame, _))

/-- The frame of any other row, where it is kept, is the furthest view of its row. -/
def NoRelapse (limit : Nat) (cache : Cache) (frame : BoothStatus) : Prop :=
  (∀ entry ∈ cache.history, entry.id ≠ frame.id) → position cache.history frame < limit →
    Furthest cache.seen frame

instance (limit : Nat) (cache : Cache) (frame : BoothStatus) :
    Decidable (NoRelapse limit cache frame) :=
  inferInstanceAs (Decidable ((∀ entry ∈ cache.history, _) → _ → _))

def Welcome (limit : Nat) (cache : Cache) (frame : BoothStatus) : Prop :=
  InPlace cache.history frame ∧ NoRelapse limit cache frame

instance (limit : Nat) (cache : Cache) (frame : BoothStatus) : Decidable (Welcome limit cache frame) :=
  inferInstanceAs (Decidable (_ ∧ _))

/-- What the console has had are views that the API gave. -/
structure Drawn (given : List BoothStatus) (cache : Cache) : Prop where
  seen : ∀ view ∈ cache.seen, view ∈ given
  history : ∀ entry ∈ cache.history, entry ∈ cache.seen

/-! ## What a frame does -/

section Merge

variable {limit : Nat} {history front rest : List BoothStatus} {entry frame : BoothStatus}

theorem isSameRun_eq (one : entry.id.isSome) (other : frame.id.isSome) :
    isSameRun entry frame = decide (entry.id = frame.id) := by
  obtain ⟨id, read⟩ := Option.isSome_iff_exists.mp one
  obtain ⟨id', read'⟩ := Option.isSome_iff_exists.mp other
  simp [isSameRun, read, read']

theorem candidates_eq (named : frame.id.isSome) :
    candidates history frame = List.range history.length := by
  obtain ⟨id, read⟩ := Option.isSome_iff_exists.mp named
  simp [candidates, read]

/-- The frame of a cached row. -/
theorem mergeLiveStatus_cached (ids : Identified (front ++ entry :: rest)) (named : frame.id.isSome)
    (apart : ∀ other ∈ front, other.id ≠ frame.id) (own : entry.id = frame.id) :
    mergeLiveStatus limit (front ++ entry :: rest) frame =
      if isStaleFrame entry frame then front ++ entry :: rest else front ++ frame :: rest := by
  have here : (front ++ entry :: rest)[front.length]? = some entry := by simp
  have found : (candidates (front ++ entry :: rest) frame).find? (fun candidate =>
      (front ++ entry :: rest)[candidate]?.any (isSameRun · frame)) = some front.length := by
    rw [candidates_eq named, List.find?_range_eq_some]
    refine ⟨?_, ?_, ?_⟩
    · rw [here, Option.any_some,
        isSameRun_eq (ids entry (List.mem_append_right _ List.mem_cons_self)) named]
      exact decide_eq_true own
    · simp
    · intro earlier less
      have member : front[earlier] ∈ front := List.getElem_mem less
      rw [List.getElem?_append_left less, List.getElem?_eq_getElem less, Option.any_some,
        isSameRun_eq (ids _ (List.mem_append_left _ member)) named]
      simpa using apart _ member
  simp only [mergeLiveStatus, found, here, Option.any_some]
  split
  · rfl
  · simp

/-- The frame of any other row. -/
theorem mergeLiveStatus_other (ids : Identified history) (named : frame.id.isSome)
    (apart : ∀ other ∈ history, other.id ≠ frame.id) :
    mergeLiveStatus limit history frame =
      (history.take (position history frame) ++
        frame :: history.drop (position history frame)).take limit := by
  have found : (candidates history frame).find? (fun candidate =>
      history[candidate]?.any (isSameRun · frame)) = none := by
    rw [candidates_eq named, List.find?_eq_none]
    intro candidate member
    have less := List.mem_range.mp member
    have there : history[candidate] ∈ history := List.getElem_mem less
    rw [List.getElem?_eq_getElem less, Option.any_some, isSameRun_eq (ids _ there) named]
    simpa using apart _ there
  simp only [mergeLiveStatus, found]

theorem exists_split (there : ∃ entry ∈ history, entry.id = frame.id) :
    ∃ front entry rest, history = front ++ entry :: rest ∧ entry.id = frame.id ∧
      ∀ other ∈ front, other.id ≠ frame.id := by
  obtain ⟨entry, member, own⟩ := there
  have some : (history.find? fun other => other.id = frame.id).isSome := by
    rw [List.find?_isSome]
    exact ⟨entry, member, decide_eq_true own⟩
  obtain ⟨first, found⟩ := Option.isSome_iff_exists.mp some
  obtain ⟨same, front, rest, split, apart⟩ := List.find?_eq_some_iff_append.mp found
  refine ⟨front, first, rest, split, of_decide_eq_true same, fun other before => ?_⟩
  simpa using apart other before

theorem ahead_split (apart : ∀ other ∈ front, other.id ≠ frame.id) (own : entry.id = frame.id) :
    ahead (front ++ entry :: rest) frame = front := by
  rw [ahead, List.takeWhile_append_of_pos fun other member => decide_eq_true (apart other member)]
  simp [own]

/-- The frame goes before the first entry that is not newer. -/
theorem newestFirst_inserted (newest : NewestFirst history) :
    NewestFirst (history.take (position history frame) ++
      frame :: history.drop (position history frame)) := by
  have above : ∀ newer ∈ history.take (position history frame),
      frame.updatedAt.ms ≤ newer.updatedAt.ms := by
    intro newer member
    obtain ⟨index, less, rfl⟩ := List.mem_take_iff_getElem.mp member
    have before : index < position history frame := by omega
    have passed := List.not_of_lt_findIdx before
    rw [decide_eq_false_iff_not, not_le] at passed
    exact passed.le
  have below : ∀ older ∈ history.drop (position history frame),
      older.updatedAt.ms ≤ frame.updatedAt.ms := by
    intro older member
    have inside : position history frame < history.length := by
      by_contra past
      rw [List.drop_eq_nil_of_le (not_lt.mp past)] at member
      cases member
    have first : history[position history frame].updatedAt.ms ≤ frame.updatedAt.ms :=
      of_decide_eq_true (List.findIdx_getElem (w := inside))
    have tail : NewestFirst (history.drop (position history frame)) := newest.drop
    rw [List.drop_eq_getElem_cons inside] at tail member
    rcases List.mem_cons.mp member with rfl | later
    · exact first
    · exact ((List.pairwise_cons.mp tail).1 older later).trans first
  refine List.pairwise_append.mpr ⟨newest.take, List.pairwise_cons.mpr ⟨below, newest.drop⟩, ?_⟩
  intro newer member older there
  rcases List.mem_cons.mp there with rfl | later
  · exact above newer member
  · have split : NewestFirst (history.take (position history frame) ++
        history.drop (position history frame)) := by
      rwa [List.take_append_drop]
    exact (List.pairwise_append.mp split).2.2 newer member older later

end Merge

/-! ## One frame -/

section Receive

variable {limit : Nat} {given : List BoothStatus} {before after : Cache} {frame : BoothStatus}

theorem furthest_snoc {seen : List BoothStatus} {entry : BoothStatus} :
    Furthest (seen ++ [frame]) entry ↔ Furthest seen entry ∧ (frame.id = entry.id →
      frame.updatedAt.ms ≤ entry.updatedAt.ms ∧ repeatCountOf frame ≤ repeatCountOf entry) := by
  simp only [Furthest, List.forall_mem_append, List.forall_mem_singleton]

/-- A stale frame is behind in both ways. -/
theorem behind_of_stale (coherent : Coherent given) {entry : BoothStatus} (listed : frame ∈ given)
    (there : entry ∈ given) (own : entry.id = frame.id) (stale : isStaleFrame entry frame = true) :
    frame.updatedAt.ms ≤ entry.updatedAt.ms ∧ repeatCountOf frame ≤ repeatCountOf entry := by
  rcases (isStaleFrame_iff entry frame).mp stale with older | ⟨same, fewer⟩
  · refine ⟨older.le, ?_⟩
    by_contra more
    exact absurd (coherent entry there frame listed own (not_le.mp more).le) (not_le.mpr older)
  · exact ⟨same.le, fewer.le⟩

/-- A frame that is not stale is ahead in both ways. -/
theorem ahead_of_not_stale (coherent : Coherent given) {entry : BoothStatus} (listed : frame ∈ given)
    (there : entry ∈ given) (own : entry.id = frame.id) (moves : ¬isStaleFrame entry frame = true) :
    entry.updatedAt.ms ≤ frame.updatedAt.ms ∧ repeatCountOf entry ≤ repeatCountOf frame := by
  rw [isStaleFrame_iff, not_or, not_and, not_lt, not_lt] at moves
  obtain ⟨time, count⟩ := moves
  refine ⟨time, ?_⟩
  by_contra fewer
  have back := coherent frame listed entry there own.symm (not_le.mp fewer).le
  exact fewer (count (le_antisymm back time))

theorem newestFirst_replaced {front rest : List BoothStatus} {entry : BoothStatus}
    (newest : NewestFirst (front ++ entry :: rest)) (moves : entry.updatedAt.ms ≤ frame.updatedAt.ms) :
    NewestFirst (front ++ frame :: rest) ↔
      ∀ newer ∈ front, frame.updatedAt.ms ≤ newer.updatedAt.ms := by
  obtain ⟨above, here, across⟩ := List.pairwise_append.mp newest
  obtain ⟨below, tail⟩ := List.pairwise_cons.mp here
  constructor
  · intro replaced newer member
    exact (List.pairwise_append.mp replaced).2.2 newer member frame List.mem_cons_self
  · intro placed
    refine List.pairwise_append.mpr ⟨above, List.pairwise_cons.mpr ⟨?_, tail⟩, ?_⟩
    · exact fun older member => (below older member).trans moves
    · intro newer member older there
      rcases List.mem_cons.mp there with rfl | later
      · exact placed newer member
      · exact across newer member older (List.mem_cons_of_mem _ later)

theorem mem_replaced {front rest : List BoothStatus} {entry other : BoothStatus}
    (distinct : ((front ++ entry :: rest).map (·.id)).Nodup) (own : entry.id = frame.id) :
    other ∈ front ++ frame :: rest ↔
      other = frame ∨ other ∈ front ++ entry :: rest ∧ other.id ≠ frame.id := by
  rw [(List.perm_middle.map _).nodup_iff, List.map_cons, List.nodup_cons, own] at distinct
  have apart : other ∈ front ++ rest → other.id ≠ frame.id := fun member same =>
    distinct.1 (List.mem_map.mpr ⟨other, member, same⟩)
  rw [List.mem_append] at apart
  simp only [List.mem_append, List.mem_cons]
  constructor
  · rintro (earlier | rfl | later)
    · exact Or.inr ⟨Or.inl earlier, apart (Or.inl earlier)⟩
    · exact Or.inl rfl
    · exact Or.inr ⟨Or.inr (Or.inr later), apart (Or.inr later)⟩
  · rintro (rfl | ⟨earlier | rfl | later, different⟩)
    · exact Or.inr (Or.inl rfl)
    · exact Or.inl earlier
    · exact absurd own different
    · exact Or.inr (Or.inr later)

theorem mem_inserted {history : List BoothStatus} {other : BoothStatus} (index : Nat) :
    other ∈ history.take index ++ frame :: history.drop index ↔ other = frame ∨ other ∈ history := by
  rw [List.mem_append, List.mem_cons, or_left_comm, ← List.mem_append, List.take_append_drop]

/-- A merge brings in nothing but the frame. -/
theorem mem_mergeLiveStatus {history : List BoothStatus} {other : BoothStatus}
    (ids : Identified history) (named : frame.id.isSome)
    (member : other ∈ mergeLiveStatus limit history frame) : other = frame ∨ other ∈ history := by
  by_cases there : ∃ entry ∈ history, entry.id = frame.id
  · obtain ⟨front, entry, rest, rfl, own, apart⟩ := exists_split there
    rw [mergeLiveStatus_cached ids named apart own] at member
    split at member
    · exact Or.inr member
    · simp only [List.mem_append, List.mem_cons] at member ⊢
      tauto
  · have apart : ∀ entry ∈ history, entry.id ≠ frame.id := fun entry there' same =>
      there ⟨entry, there', same⟩
    rw [mergeLiveStatus_other ids named apart] at member
    exact (mem_inserted _).mp (List.mem_of_mem_take member)

/-- A history that is as it was stays sound where the frame is behind its row. -/
theorem sound_stale {history seen : List BoothStatus} {entry : BoothStatus}
    (sound : Sound { history, seen }) (here : entry ∈ history) (own : entry.id = frame.id)
    (behind : frame.updatedAt.ms ≤ entry.updatedAt.ms ∧
      repeatCountOf frame ≤ repeatCountOf entry) :
    Sound { history, seen := seen ++ [frame] } := by
  refine ⟨sound.newest, sound.distinct, fun other member => ?_⟩
  refine furthest_snoc.mpr ⟨sound.furthest other member, fun same => ?_⟩
  rw [List.inj_on_of_nodup_map sound.distinct member here (same.symm.trans own.symm)]
  exact behind

theorem sound_replaced_iff {front rest seen : List BoothStatus} {entry : BoothStatus}
    (sound : Sound { history := front ++ entry :: rest, seen }) (own : entry.id = frame.id)
    (moves : entry.updatedAt.ms ≤ frame.updatedAt.ms ∧
      repeatCountOf entry ≤ repeatCountOf frame) :
    Sound { history := front ++ frame :: rest, seen := seen ++ [frame] } ↔
      ∀ newer ∈ front, frame.updatedAt.ms ≤ newer.updatedAt.ms := by
  have here : entry ∈ front ++ entry :: rest := List.mem_append_right _ List.mem_cons_self
  refine ⟨fun sound' => (newestFirst_replaced sound.newest moves.1).mp sound'.newest,
    fun placed => ⟨(newestFirst_replaced sound.newest moves.1).mpr placed, ?_, ?_⟩⟩
  · simpa [own] using sound.distinct
  · intro other member
    rcases (mem_replaced sound.distinct own).mp member with rfl | ⟨old, apart⟩
    · refine furthest_snoc.mpr ⟨fun view viewed same => ?_, fun _ => ⟨le_rfl, le_rfl⟩⟩
      obtain ⟨time, count⟩ := sound.furthest entry here view viewed (same.trans own.symm)
      exact ⟨time.trans moves.1, count.trans moves.2⟩
    · exact furthest_snoc.mpr ⟨sound.furthest other old, fun same => absurd same.symm apart⟩

/-- The frame of a cached row loses nothing, and is sound where it is in place. -/
theorem receive_cached (coherent : Coherent given) (ids : Identified given)
    (drawn : Drawn given before) (sound : Sound before) (listed : frame ∈ given)
    (taken : receive limit before frame = some after)
    (there : ∃ entry ∈ before.history, entry.id = frame.id) :
    (Sound after ↔ InPlace before.history frame) ∧ LosesOldest limit before frame after := by
  obtain ⟨history, seen⟩ := before
  obtain ⟨front, entry, rest, rfl, own, apart⟩ := exists_split there
  have inGiven : ∀ other ∈ front ++ entry :: rest, other ∈ given := fun other member =>
    drawn.seen other (drawn.history other member)
  have here : entry ∈ front ++ entry :: rest := List.mem_append_right _ List.mem_cons_self
  have merged := @mergeLiveStatus_cached limit front rest entry frame
    (fun other member => ids other (inGiven other member)) (ids frame listed) apart own
  have one : ∀ other ∈ front ++ entry :: rest, other.id = frame.id → other = entry :=
    fun other member same => List.inj_on_of_nodup_map sound.distinct member here (same.trans own.symm)
  cases taken
  rw [merged]
  by_cases stale : isStaleFrame entry frame = true
  · have behind := behind_of_stale coherent listed (inGiven entry here) own stale
    rw [if_pos stale]
    refine ⟨iff_of_true (sound_stale sound here own behind) ?_, ?_⟩
    · intro other member same moves
      rw [one other member same, stale] at moves
      cases moves
    · intro lost member gone
      rcases List.mem_cons.mp member with rfl | kept
      · exact absurd own (gone entry here)
      · exact absurd rfl (gone lost kept)
  · have moves := ahead_of_not_stale coherent listed (inGiven entry here) own stale
    rw [if_neg stale, sound_replaced_iff sound own moves, InPlace, ahead_split apart own]
    refine ⟨⟨fun placed _ _ _ _ => placed,
      fun placed => placed entry here own (Bool.not_eq_true _ ▸ stale)⟩, ?_⟩
    intro lost member gone
    have kept : frame ∈ front ++ frame :: rest := List.mem_append_right _ List.mem_cons_self
    rcases List.mem_cons.mp member with rfl | old
    · exact absurd rfl (gone lost kept)
    · have different : lost.id ≠ frame.id := (gone frame kept).symm
      exact absurd rfl (gone lost ((mem_replaced sound.distinct own).mpr (Or.inr ⟨old, different⟩)))

theorem frame_mem_inserted_iff {history : List BoothStatus}
    (apart : ∀ entry ∈ history, entry.id ≠ frame.id) :
    frame ∈ (history.take (position history frame) ++
      frame :: history.drop (position history frame)).take limit ↔ position history frame < limit := by
  have front : (history.take (position history frame)).length = position history frame :=
    List.length_take_of_le List.findIdx_le_length
  have absent : frame ∉ history.take (position history frame) := fun member =>
    apart frame (List.mem_of_mem_take member) rfl
  rw [List.take_append, front, List.mem_append]
  cases left : limit - position history frame with
  | zero =>
    refine iff_of_false ?_ (by omega)
    rintro (earlier | nothing)
    · exact absent (List.mem_of_mem_take earlier)
    · cases nothing
  | succ more => exact iff_of_true (Or.inr List.mem_cons_self) (by omega)

theorem sound_inserted_iff {history seen : List BoothStatus} (sound : Sound { history, seen })
    (apart : ∀ entry ∈ history, entry.id ≠ frame.id) :
    Sound { history := (history.take (position history frame) ++
        frame :: history.drop (position history frame)).take limit, seen := seen ++ [frame] } ↔
      NoRelapse limit { history, seen } frame := by
  constructor
  · intro sound' _ kept
    exact (furthest_snoc.mp (sound'.furthest frame ((frame_mem_inserted_iff apart).mpr kept))).1
  · intro fresh
    refine ⟨(newestFirst_inserted sound.newest).take, ?_, ?_⟩
    · refine List.Nodup.sublist ((List.take_sublist _ _).map _) ?_
      rw [(List.perm_middle.map _).nodup_iff, List.take_append_drop, List.map_cons,
        List.nodup_cons]
      refine ⟨fun member => ?_, sound.distinct⟩
      obtain ⟨other, there, same⟩ := List.mem_map.mp member
      exact apart other there same
    · intro other member
      rcases (mem_inserted _).mp (List.mem_of_mem_take member) with rfl | old
      · exact furthest_snoc.mpr
          ⟨fresh apart ((frame_mem_inserted_iff apart).mp member), fun _ => ⟨le_rfl, le_rfl⟩⟩
      · exact furthest_snoc.mpr
          ⟨sound.furthest other old, fun same => absurd same.symm (apart other old)⟩

/-- The frame of another row loses the oldest, and is sound where it is no relapse. -/
theorem receive_other (ids : Identified given) (drawn : Drawn given before) (sound : Sound before)
    (listed : frame ∈ given) (taken : receive limit before frame = some after)
    (apart : ∀ entry ∈ before.history, entry.id ≠ frame.id) :
    (Sound after ↔ NoRelapse limit before frame) ∧ LosesOldest limit before frame after := by
  obtain ⟨history, seen⟩ := before
  have merged := @mergeLiveStatus_other limit history frame
    (fun other member => ids other (drawn.seen other (drawn.history other member)))
    (ids frame listed) apart
  cases taken
  rw [merged]
  refine ⟨sound_inserted_iff sound apart, ?_⟩
  intro lost member gone
  have newest := @newestFirst_inserted history frame sound.newest
  have inserted := (mem_inserted (position history frame)).mpr (List.mem_cons.mp member)
  rw [← List.take_append_drop limit (history.take (position history frame) ++
    frame :: history.drop (position history frame))] at inserted newest
  rcases List.mem_append.mp inserted with stays | dropped
  · exact absurd rfl (gone lost stays)
  · refine ⟨?_, fun kept still => (List.pairwise_append.mp newest).2.2 kept still lost dropped⟩
    have longer := List.length_pos_of_mem dropped
    rw [List.length_drop] at longer
    rw [List.length_take]
    omega

theorem drawn_receive (drawn : Drawn given before) (listed : frame ∈ given)
    (ids : Identified given) (taken : receive limit before frame = some after) :
    Drawn given after := by
  obtain ⟨history, seen⟩ := before
  have idsHere : Identified history := fun other member =>
    ids other (drawn.seen other (drawn.history other member))
  cases taken
  refine ⟨?_, ?_⟩
  · intro view member
    rcases List.mem_append.mp member with old | new
    · exact drawn.seen view old
    · exact List.mem_singleton.mp new ▸ listed
  · intro other member
    rcases mem_mergeLiveStatus idsHere (ids frame listed) member with rfl | old
    · exact List.mem_append_right _ List.mem_cons_self
    · exact List.mem_append_left _ (drawn.history other old)

theorem receive_sound_iff (coherent : Coherent given) (ids : Identified given)
    (drawn : Drawn given before) (sound : Sound before) (listed : frame ∈ given)
    (taken : receive limit before frame = some after) :
    (Sound after ↔ Welcome limit before frame) ∧ LosesOldest limit before frame after := by
  by_cases there : ∃ entry ∈ before.history, entry.id = frame.id
  · obtain ⟨sound_iff, loses⟩ := receive_cached coherent ids drawn sound listed taken there
    refine ⟨sound_iff.trans ⟨fun placed => ⟨placed, fun apart => ?_⟩, And.left⟩, loses⟩
    obtain ⟨entry, member, own⟩ := there
    exact absurd own (apart entry member)
  · have apart : ∀ entry ∈ before.history, entry.id ≠ frame.id := fun entry member same =>
      there ⟨entry, member, same⟩
    obtain ⟨sound_iff, loses⟩ := receive_other ids drawn sound listed taken apart
    exact ⟨sound_iff.trans ⟨fun fresh => ⟨fun entry member own => absurd own (apart entry member),
      fresh⟩, And.right⟩, loses⟩

end Receive

/-! ## Runs of frames -/

/-- The console has loaded a history. -/
def loaded (history : List BoothStatus) : Cache := { history, seen := history }

/-- A history as the API serves it. -/
structure Served (given history : List BoothStatus) : Prop where
  given : ∀ entry ∈ history, entry ∈ given
  newest : NewestFirst history
  distinct : (history.map (·.id)).Nodup

theorem sound_loaded {given history : List BoothStatus} (served : Served given history) :
    Sound (loaded history) := by
  refine ⟨served.newest, served.distinct, fun entry member view viewed same => ?_⟩
  rw [List.inj_on_of_nodup_map served.distinct viewed member same]
  exact ⟨le_rfl, le_rfl⟩

theorem identified_views (db : Db) (reports : List Report) : Identified (views db reports) := by
  intro frame member
  obtain ⟨snapshot, -, rfl⟩ := List.mem_map.mp member
  rfl

theorem along_sound_iff {limit : Nat} {given : List BoothStatus} (coherent : Coherent given)
    (ids : Identified given) {cache : Cache} (drawn : Drawn given cache) (sound : Sound cache)
    {frames : List BoothStatus} (listed : ∀ frame ∈ frames, frame ∈ given) :
    Run.Along (receive limit)
        (fun before frame after => Sound after ∧ LosesOldest limit before frame after) cache frames ↔
      Run.Along (receive limit) (fun before frame _ => Welcome limit before frame) cache frames := by
  induction frames generalizing cache with
  | nil => exact Iff.rfl
  | cons frame rest ih =>
    refine forall_congr' fun after => forall_congr' fun taken => ?_
    have here := listed frame List.mem_cons_self
    have later : ∀ frame ∈ rest, frame ∈ given := fun frame member =>
      listed frame (List.mem_cons_of_mem _ member)
    have drawn' := drawn_receive drawn here ids taken
    obtain ⟨sound_iff, loses⟩ := receive_sound_iff coherent ids drawn sound here taken
    constructor
    · rintro ⟨⟨sound', -⟩, others⟩
      exact ⟨sound_iff.mp sound', (ih drawn' sound' later).mp others⟩
    · rintro ⟨welcome, others⟩
      have sound' := sound_iff.mpr welcome
      exact ⟨⟨sound', loses⟩, (ih drawn' sound' later).mpr others⟩

/-- **Along every run of frames the history stays sound exactly when every frame of a cached row
is in its place, and every other one that is kept is no relapse.** -/
theorem live_history_sound_iff {db : Db} (stored : Stored db) (reports : List Report) (limit : Nat)
    {history frames : List BoothStatus} (served : Served (views db reports) history)
    (broadcast : ∀ frame ∈ frames, frame ∈ views db reports) :
    Run.Along (receive limit)
        (fun before frame after => Sound after ∧ LosesOldest limit before frame after)
        (loaded history) frames ↔
      Run.Along (receive limit) (fun before frame _ => Welcome limit before frame)
        (loaded history) frames :=
  along_sound_iff (coherent_views stored reports) (identified_views db reports)
    ⟨served.given, fun _ => id⟩ (sound_loaded served) broadcast

/-! ## A late report -/

theorem stored_openInstallation : Stored openInstallation.db :=
  ⟨List.nodup_nil, fun _ member => absurd member List.not_mem_nil⟩

theorem served_nil (given : List BoothStatus) : Served given [] :=
  ⟨fun _ member => absurd member List.not_mem_nil, List.Pairwise.nil, List.nodup_nil⟩

/-- The frames of some reports of a booth, in their order. -/
def framesOf (reports : List Report) : List BoothStatus :=
  (broadcasts openInstallation.db reports).map serializeStatus

theorem framesOf_views (reports : List Report) :
    ∀ frame ∈ framesOf reports, frame ∈ views openInstallation.db reports := by
  intro frame member
  obtain ⟨snapshot, there, rfl⟩ := List.mem_map.mp member
  exact List.mem_map.mpr ⟨snapshot, List.mem_append_right _ there, rfl⟩

/-- A heartbeat and a transition after it. -/
theorem live_history_sound_heartbeat :
    Run.Along (receive statusHistoryLimit)
      (fun before frame after => Sound after ∧ LosesOldest statusHistoryLimit before frame after)
      (loaded []) (framesOf [reportAt .idle 0, reportAt .idle 100, reportAt .recording 200]) :=
  (live_history_sound_iff stored_openInstallation
    [reportAt .idle 0, reportAt .idle 100, reportAt .recording 200] statusHistoryLimit
    (served_nil _) (framesOf_views _)).mpr (by decide +kernel)

/-- A late report opens a row within the window of another one, and a heartbeat extends it: the
row stays below the other one, which is older now. -/
theorem live_history_out_of_order :
    ¬ ∀ (db : Db), Stored db → ∀ (reports : List Report) (limit : Nat) (history frames : List BoothStatus),
      Served (views db reports) history → (∀ frame ∈ frames, frame ∈ views db reports) →
      Run.Along (receive limit)
        (fun before frame after => Sound after ∧ LosesOldest limit before frame after)
        (loaded history) frames := by
  intro always
  let reports : List Report :=
    [reportAt .idle 0, reportAt .idle 100, reportAt .recording 50, reportAt .recording 200]
  have stored := stored_openInstallation
  have served := served_nil (views openInstallation.db reports)
  have along := always openInstallation.db stored reports statusHistoryLimit [] (framesOf reports)
    served (framesOf_views reports)
  have welcome := (along_sound_iff (coherent_views stored reports) (identified_views _ reports)
    ⟨served.given, fun _ => id⟩ (sound_loaded served) (framesOf_views reports)).mp along
  exact absurd welcome (by decide +kernel)

end BoothOperator.Console
