import BoothOperator.Purges.Requests
import BoothOperator.Uploads.Turns

/-! A purge and the audio of what is left. The foreign keys keep a file that a
row refers to; a blob outlives its file until a worker, which has found no file
of its key, deletes it. In between a booth can bring the file back. -/
namespace BoothOperator.Purges

open BoothOperator.Schema
open BoothOperator.Run
open BoothOperator.Uploads (fileKeys blobKeys messageKeys uploading messageBlobName Rows Kept)

/-- The blobs that a worker has found no file of, and not yet deleted. -/
def Phase.deleting : Phase → List String
  | .deleteBlobs _ pool => pool.workers.filterMap fun worker =>
    match worker with
    | .deleting blobKey => some blobKey
    | _ => none
  | _ => []

/-- An upload does not bring back the file of a blob while a worker is about to
delete it. -/
def undisturbed (world : World) : Action → Bool
  | .upload (.advance place _ _) =>
    match world.uploads.requests[place]? with
    | some { body := .create body, phase := .upsertFile _ } =>
      (Uploads.fileOf world.db body.sha256).isSome ||
        world.purges.all fun purge => !purge.phase.deleting.contains (messageBlobName body.sha256)
    | _ => true
  | _ => true

structure Spares (before after : World) : Prop where
  /-- A file that a row refers to is kept. -/
  files : ∀ file ∈ before.db.files, after.references file.id = true →
    ∃ kept ∈ after.db.files, kept.id = file.id
  /-- A blob that is deleted has no file. -/
  blobs : ∀ blobKey ∈ before.blobs, blobKey ∉ after.blobs →
    ∀ file ∈ before.db.files, file.blobKey ≠ blobKey
  /-- A message that has landed has its recording. -/
  present : ∀ row ∈ after.db.messages, row.status ≠ .uploading →
    ∃ file ∈ after.db.files, file.id = row.audioId ∧ file.blobKey ∈ after.blobs

/-- The constraints of the schema hold, every landed message has its recording, and
nothing is under way. -/
structure Initial (world : World) : Prop where
  files : (world.db.files.map (·.id)).Nodup
  filesUsed : ∀ file ∈ world.db.files, file.id < world.db.nextId
  messages : (world.db.messages.map (·.id)).Nodup
  recordings : (world.db.messages.map (·.audioId)).Nodup
  messagesUsed : ∀ row ∈ world.db.messages, row.id < world.db.nextId
  references : ∀ file, world.references file = true → file ∈ world.db.files.map (·.id)
  present : ∀ row ∈ world.db.messages, row.status ≠ .uploading →
    ∀ file ∈ world.db.files, file.id = row.audioId → file.blobKey ∈ world.blobs
  requests : world.uploads.requests = []
  purges : world.purges = []

/-! ## A purge's statement -/

/-- What a statement of a purge takes away. -/
inductive Sweeps (world : World) (purge : Purge) : Turn → Prop where
  | look {phase : Phase} :
      (∀ key ∈ phase.deleting, key ∈ purge.phase.deleting ∨
        ∀ file ∈ world.db.files, file.blobKey ≠ key) →
      Sweeps world purge { db := world.db, blobs := world.blobs, phase }
  | rehome {db : Db} {phase : Phase} : Kept world.db db → phase.deleting = [] →
      Sweeps world purge { db, blobs := world.blobs, phase }
  | era {phase : Phase} : phase.deleting = [] →
      Sweeps world purge
        { db := deleteEra purge.installationId world.db, blobs := world.blobs, phase }
  | files {ids : List Id} {phase : Phase} :
      (∀ id ∈ ids, world.references id = false ∧ world.claims id = false) → phase.deleting = [] →
      Sweeps world purge { db := removeFiles ids world.db, blobs := world.blobs, phase }
  | blob {key : String} {phase : Phase} : key ∈ purge.phase.deleting →
      (∀ other ∈ phase.deleting, other ∈ purge.phase.deleting) →
      Sweeps world purge { db := world.db, blobs := world.blobs.filter (· ≠ key), phase }

section Purge

variable {world : World} {purge : Purge} {turn : Turn}

theorem sweeps_goto {phase : Phase} (quiet : phase.deleting = []) (taken : goto world phase = some turn) :
    Sweeps world purge turn := by
  cases taken
  refine .look fun key member => ?_
  rw [quiet] at member
  cases member

theorem sweeps_refuse {status : Nat} {error : String}
    (taken : refuse world status error = some turn) : Sweeps world purge turn :=
  sweeps_goto rfl taken

theorem startPool_quiet (rows : PurgedRows) (owned deleted : List OwnedFile) :
    (startPool rows owned deleted).deleting = [] := by
  refine List.filterMap_eq_nil_iff.mpr fun worker member => ?_
  cases List.eq_of_mem_replicate member
  rfl

theorem mem_deleting {rows : PurgedRows} {pool : Pool} {key : String} :
    key ∈ (Phase.deleteBlobs rows pool).deleting ↔ Worker.deleting key ∈ pool.workers := by
  simp only [Phase.deleting, List.mem_filterMap]
  constructor
  · rintro ⟨worker, member, found⟩
    cases worker with
    | deleting other =>
      cases found
      exact member
    | _ => cases found
  · intro member
    exact ⟨_, member, rfl⟩

/-- A worker that does not come to delete leaves the others to. -/
theorem deleting_set {pool : Pool} {place : Nat} {worker : Worker} {key : String}
    (member : Worker.deleting key ∈ pool.workers.set place worker) :
    Worker.deleting key ∈ pool.workers ∨ worker = .deleting key := by
  rcases List.mem_or_eq_of_mem_set member with old | new
  · exact .inl old
  · exact .inr new.symm

theorem sweeps_worker {fails : Bool} {rows : PurgedRows} {pool pool' : Pool} {place : Nat}
    {worker : Worker} {blobs : List String} (left : purge.phase = .deleteBlobs rows pool)
    (found : pool.workers[place]? = some worker)
    (taken : advanceWorker world fails pool place worker = some (blobs, pool')) :
    Sweeps world purge { db := world.db, blobs, phase := .deleteBlobs rows pool' } := by
  have others : ∀ {next : Worker} {more : Pool}, more.workers = pool.workers.set place next →
      ∀ key ∈ (Phase.deleteBlobs rows more).deleting,
        key ∈ purge.phase.deleting ∨ next = .deleting key := by
    intro next more workers key member
    rw [mem_deleting, workers] at member
    rw [left, mem_deleting]
    exact deleting_set member
  have quiet : ∀ {next : Worker} {more : Pool}, more.workers = pool.workers.set place next →
      (∀ key, next ≠ .deleting key) →
        ∀ key ∈ (Phase.deleteBlobs rows more).deleting, key ∈ purge.phase.deleting := by
    intro next more workers settled key member
    exact (others workers key member).resolve_right (settled key)
  cases worker with
  | idle =>
    simp only [advanceWorker] at taken
    split at taken
    · cases taken
      exact .look fun key member => .inl (quiet rfl (by intro key other; cases other) key member)
    · cases taken
      exact .look fun key member => .inl (quiet rfl (by intro key other; cases other) key member)
  | checking blobKey =>
    simp only [advanceWorker] at taken
    split at taken
    · cases taken
      exact .look fun key member => .inl (quiet rfl (by intro key other; cases other) key member)
    split at taken
    · cases taken
      exact .look fun key member => .inl (quiet rfl (by intro key other; cases other) key member)
    · rename_i free
      cases taken
      refine .look fun key member => (others rfl key member).imp_right fun own => ?_
      cases own
      intro file stored same
      exact free (List.any_eq_true.mpr ⟨file, stored, decide_eq_true same⟩)
  | deleting blobKey =>
    simp only [advanceWorker] at taken
    split at taken
    · cases taken
      exact .look fun key member => .inl (quiet rfl (by intro key other; cases other) key member)
    · cases taken
      refine .blob ?_ (quiet rfl (by intro key other; cases other))
      rw [left, mem_deleting]
      exact List.mem_of_getElem? found
  | done => cases taken

theorem unreferenced {orphans : List OwnedFile}
    (unclaimed : ¬ (orphans.any fun file => world.claims file.id) = true)
    (free : ¬ (orphans.any fun file => world.references file.id) = true) :
    ∀ id ∈ orphans.map (·.id), world.references id = false ∧ world.claims id = false := by
  intro id member
  obtain ⟨file, own, rfl⟩ := List.mem_map.mp member
  refine ⟨?_, ?_⟩
  · by_contra referred
    exact free (List.any_eq_true.mpr ⟨file, own, by simpa using referred⟩)
  · by_contra claimed
    exact unclaimed (List.any_eq_true.mpr ⟨file, own, by simpa using claimed⟩)

theorem kept_rehome {inFlight : List Id} {installationId : Id} {db : Db} :
    Kept db (db.updateMessages (fun row => inFlight.contains row.id)
      fun row => { row with installationId := some installationId }) := by
  refine ⟨rfl, rfl, Uploads.messageKeys_updateMessages (by intro row; rfl) (by intro row; rfl),
    Nat.le_refl _, fun id => ?_, fun question member => ⟨question, member, rfl⟩⟩
  unfold uploading
  rw [Db.message_updateMessages (by intro row; rfl)]
  cases db.message id with
  | none => rfl
  | some row =>
    simp only [Option.map_some, Option.any_some]
    split <;> rfl

theorem sweeps_advance {choice : Nat} {fails : Bool}
    (taken : advance world choice fails purge = some turn) : Sweeps world purge turn := by
  unfold advance at taken
  simp only at taken
  split at taken
  · exact sweeps_refuse taken
  rename_i unfailed
  split at taken
  · split at taken
    · exact sweeps_refuse taken
    split at taken
    · exact sweeps_refuse taken
    split at taken
    · exact sweeps_refuse taken
    · exact sweeps_goto rfl taken
  · refine sweeps_goto ?_ taken
    split <;> rfl
  · split at taken
    · exact sweeps_refuse taken
    · exact sweeps_goto rfl taken
  · split at taken
    · cases taken
    · cases taken
      exact .rehome kept_rehome rfl
  · have owned_quiet : ∀ questionFiles messageFiles,
        (afterOwned questionFiles messageFiles).deleting = [] := by
      intro questionFiles messageFiles
      unfold afterOwned
      split <;> rfl
    split at taken
    · exact sweeps_goto (owned_quiet _ _) taken
    · exact sweeps_goto (owned_quiet _ _) taken
    · cases taken
  · split at taken
    · cases taken
    split at taken
    · exact sweeps_refuse taken
    · cases taken
      refine .era ?_
      split <;> rfl
  · split at taken
    · cases taken
    · refine sweeps_goto ?_ taken
      unfold afterReferences
      split
      · dsimp only
        split
        · exact startPool_quiet _ _ _
        · rfl
      · rfl
  · split at taken
    · exact sweeps_goto rfl taken
    split at taken
    · cases taken
    rename_i unclaimed
    split at taken
    · exact sweeps_goto rfl taken
    · rename_i free
      cases taken
      exact .files (unreferenced unclaimed free) (startPool_quiet _ _ _)
  · split at taken
    · exact sweeps_goto (startPool_quiet _ _ _) taken
    split at taken
    · exact sweeps_goto rfl taken
    split at taken
    · cases taken
    rename_i unclaimed
    split at taken
    · exact sweeps_goto rfl taken
    · rename_i free
      cases taken
      refine .files (fun id member => ?_) rfl
      cases List.mem_singleton.mp member
      exact ⟨by simpa using free, by simpa using unclaimed⟩
  · rename_i rows pool left
    split at taken
    · exact sweeps_goto rfl taken
    · obtain ⟨worker, found, taken⟩ := Option.bind_eq_some_iff.mp taken
      obtain ⟨⟨blobs, pool'⟩, moved, taken⟩ := Option.bind_eq_some_iff.mp taken
      cases taken
      exact sweeps_worker left found moved
  · cases taken

end Purge

/-! ## Rows and files -/

/-- The foreign keys hold, and ids are handed out once. -/
structure Filed (world : World) : Prop where
  rows : Rows world.uploads
  ids : ((blobKeys world.db).map (·.1)).Nodup
  used : ∀ key ∈ blobKeys world.db, key.1 < world.db.nextId
  stored : ∀ key ∈ world.uploads.rowKeys, key.2 ∈ (blobKeys world.db).map (·.1)
  questions : ∀ question ∈ world.db.questions, question.audioId ∈ (blobKeys world.db).map (·.1)
  instructions : ∀ row ∈ world.instructions, row.audioId ∈ (blobKeys world.db).map (·.1)
  flying : ∀ request ∈ world.uploads.requests, ∀ row ∈ request.uncommitted,
    row.status = .uploading

section Rows

variable {world : World} {uploads : Uploads.World} {place : Nat} {request : Uploads.Request}
  {turn : Uploads.Turn}

theorem Filed.moved (filed : Filed world)
    (turns : Uploads.Turns world.uploads request.body request.phase turn)
    (moved : Uploads.Moved world.uploads place request turn uploads) :
    Filed { world with uploads } := by
  have files : blobKeys world.db ⊆ blobKeys turn.db := by
    rcases turns.files with same | ⟨_, _, _, _, _, grown, _⟩
    · exact same ▸ fun _ member => member
    · exact grown ▸ List.subset_append_left _ _
  have ids : ((blobKeys turn.db).map (·.1)).Nodup ∧
      ∀ key ∈ blobKeys turn.db, key.1 < turn.db.nextId := by
    rcases turns.files with same | ⟨_, _, _, _, _, grown, next⟩
    · rw [same]
      exact ⟨filed.ids, fun key member => Nat.lt_of_lt_of_le (filed.used key member) turns.nextId⟩
    · rw [grown, next]
      refine ⟨?_, fun key member => ?_⟩
      · rw [List.map_append]
        exact Table.nodup_append_fresh filed.ids filed.used
      · rcases List.mem_append.mp member with old | new
        · exact Nat.lt_succ_of_lt (filed.used key old)
        · cases List.mem_singleton.mp new
          exact Nat.lt_succ_self _
  have still : ∀ {audio : Id}, audio ∈ (blobKeys world.db).map (·.1) →
      audio ∈ (blobKeys uploads.db).map (·.1) := by
    intro audio member
    rw [moved.db]
    exact List.map_subset _ files member
  refine ⟨filed.rows.moved turns moved, ?_, ?_, fun key member => ?_, fun question member => ?_,
    fun row member => still (filed.instructions row member), fun other member row own => ?_⟩
  · rw [← moved.db] at ids
    exact ids.1
  · rw [← moved.db] at ids
    exact ids.2
  · rcases turns.rows moved with ⟨fewer, -⟩ | ⟨new, one, -, -, -, stored⟩
    · exact still (filed.stored key (fewer.subset member))
    · rcases List.mem_cons.mp (one.mem_iff.mp member) with rfl | old
      · exact still (Uploads.fileKeys_ids world.db ▸ stored)
      · exact still (filed.stored key old)
  · have member : question ∈ turn.db.questions := moved.db ▸ member
    obtain ⟨other, there, same⟩ := turns.questions question member
    exact same ▸ still (filed.questions other there)
  · have member : other ∈ uploads.requests := member
    rw [moved.requests] at member
    rcases List.mem_or_eq_of_mem_set member with old | rfl
    · exact filed.flying other old row own
    · exact (turns.uncommitted row own).2

theorem Filed.arrived {body : Uploads.Body} (filed : Filed world) :
    Filed { world with uploads :=
      { world.uploads with requests := world.uploads.requests ++ [{ body }] } } := by
  refine ⟨filed.rows.arrived, filed.ids, filed.used, fun key member => filed.stored key ?_,
    filed.questions, filed.instructions, fun request member row own => ?_⟩
  · simpa [Uploads.World.rowKeys, Uploads.Request.uncommittedKeys, Uploads.Request.uncommitted]
      using member
  · rcases List.mem_append.mp member with old | new
    · exact filed.flying request old row own
    · cases List.mem_singleton.mp new
      cases own

/-- Where the database only loses rows, and no file that it refers to. -/
theorem Filed.fewer {after : World} (filed : Filed world)
    (requests : after.uploads.requests = world.uploads.requests)
    (instructions : ∀ row ∈ after.instructions, row.audioId ∈ (blobKeys after.db).map (·.1))
    (messages : (messageKeys after.db).Sublist (messageKeys world.db))
    (nextId : world.db.nextId ≤ after.db.nextId)
    (files : (blobKeys after.db).Sublist (blobKeys world.db))
    (questions : ∀ question ∈ after.db.questions, question.audioId ∈ (blobKeys after.db).map (·.1))
    (stored : ∀ key ∈ after.uploads.rowKeys, key.2 ∈ (blobKeys after.db).map (·.1)) : Filed after := by
  have rows : after.uploads.rowKeys.Subperm world.uploads.rowKeys := by
    refine List.Sublist.subperm ?_
    unfold Uploads.World.rowKeys
    rw [requests]
    exact messages.append_right _
  exact ⟨filed.rows.fewer rows nextId, (files.map _).nodup filed.ids,
    fun key member => Nat.lt_of_lt_of_le (filed.used key (files.subset member)) nextId, stored,
    questions, instructions, requests ▸ filed.flying⟩

theorem Filed.kept {db : Db} (filed : Filed world) (kept : Kept world.db db) :
    Filed { world with uploads := { world.uploads with db } } := by
  have files : blobKeys db = blobKeys world.db := kept.blobs
  refine filed.fewer rfl (files ▸ filed.instructions) (kept.messages ▸ .refl _) kept.nextId
    (files ▸ .refl _) (fun question member => ?_) (fun key member => ?_)
  · obtain ⟨other, there, same⟩ := kept.questions question member
    exact files ▸ same ▸ filed.questions other there
  · refine files ▸ filed.stored key ?_
    simpa only [Uploads.World.rowKeys, kept.messages] using member

theorem fileIds_of_found {db : Db} {id : Id} (stored : (db.file id).isSome = true) :
    id ∈ (blobKeys db).map (·.1) :=
  Uploads.fileKeys_ids db ▸ Uploads.file_mem_keys stored

theorem Filed.inserted_question {question : Question} (filed : Filed world)
    (file : (world.db.file question.audioId).isSome = true) :
    Filed { world with uploads := { world.uploads with
      db := { world.db with
        questions := world.db.questions ++ [{ question with id := world.db.nextId }]
        nextId := world.db.nextId + 1 } } } := by
  refine filed.fewer rfl filed.instructions (.refl _) (Nat.le_succ _) (.refl _)
    (fun other member => ?_) filed.stored
  rcases List.mem_append.mp member with old | new
  · exact filed.questions other old
  · cases List.mem_singleton.mp new
    exact fileIds_of_found file

theorem Filed.inserted_instruction {audioId : Id} (filed : Filed world)
    (file : (world.db.file audioId).isSome = true) :
    Filed { world with
      instructions := world.instructions ++ [{ id := world.db.nextId, audioId }]
      uploads := { world.uploads with db := { world.db with nextId := world.db.nextId + 1 } } } := by
  refine filed.fewer rfl (fun row member => ?_) (.refl _) (Nat.le_succ _) (.refl _) filed.questions
    filed.stored
  rcases List.mem_append.mp member with old | new
  · exact filed.instructions row old
  · cases List.mem_singleton.mp new
    exact fileIds_of_found file

/-- A file that no row refers to is not one of a row's. -/
theorem references_eq_false {file : Id} (free : world.references file = false) :
    (∀ key ∈ messageKeys world.db, key.2 ≠ file) ∧
      (∀ question ∈ world.db.questions, question.audioId ≠ file) ∧
        ∀ row ∈ world.instructions, row.audioId ≠ file := by
  have absent : ∀ table, file ∉ world.audioIds table := by
    intro table member
    have referred : world.references file = true := by
      refine List.any_eq_true.mpr ⟨table, ?_, List.contains_iff_mem.mpr member⟩
      cases table <;> simp
    rw [free] at referred
    cases referred
  refine ⟨fun key member same => ?_, fun question member same => ?_, fun row member same => ?_⟩
  · obtain ⟨row, there, rfl⟩ := List.mem_map.mp member
    exact absent .messages (List.mem_map.mpr ⟨row, there, same⟩)
  · exact absent .questions (List.mem_map.mpr ⟨question, member, same⟩)
  · exact absent .instructions (List.mem_map.mpr ⟨row, member, same⟩)

theorem claims_eq_false {file : Id} (free : world.claims file = false) :
    ∀ request ∈ world.uploads.requests, ∀ key ∈ request.uncommittedKeys, key.2 ≠ file := by
  intro request member key own same
  obtain ⟨row, inserted, rfl⟩ := List.mem_map.mp own
  have claimed : world.claims file = true :=
    List.any_eq_true.mpr ⟨request, member, List.any_eq_true.mpr ⟨row, inserted, decide_eq_true same⟩⟩
  rw [free] at claimed
  cases claimed

theorem blobKeys_removeFiles (ids : List Id) (db : Db) :
    blobKeys (removeFiles ids db) = (blobKeys db).filter fun key => !ids.contains key.1 := by
  simp only [blobKeys, removeFiles, List.filter_map]
  rfl

theorem messageKeys_deleteEra (installationId : Id) (db : Db) :
    (messageKeys (deleteEra installationId db)).Sublist (messageKeys db) := by
  rw [messageKeys, deleteEra, List.map_map]
  exact List.filter_sublist.map _

theorem Filed.swept {purge : Purge} {turn : Turn} {purges : List Purge} (filed : Filed world)
    (sweeps : Sweeps world purge turn) :
    Filed { world with
      uploads := { world.uploads with db := turn.db }, blobs := turn.blobs, purges } := by
  cases sweeps with
  | look _ =>
    exact filed.fewer rfl filed.instructions (.refl _) (Nat.le_refl _) (.refl _) filed.questions
      filed.stored
  | rehome kept _ =>
    have still := filed.kept kept
    exact ⟨still.rows, still.ids, still.used, still.stored, still.questions, still.instructions,
      still.flying⟩
  | era _ =>
    refine filed.fewer rfl filed.instructions (messageKeys_deleteEra _ _) (Nat.le_refl _) (.refl _)
      (fun question member => filed.questions question (List.mem_filter.mp member).1)
      (fun key member => filed.stored key ?_)
    rcases List.mem_append.mp member with old | held
    · exact List.mem_append_left _ ((messageKeys_deleteEra _ _).subset old)
    · exact List.mem_append_right _ held
  | @files ids phase free _ =>
    have still : ∀ {audio : Id}, audio ∈ (blobKeys world.db).map (·.1) → audio ∉ ids →
        audio ∈ (blobKeys (removeFiles ids world.db)).map (·.1) := by
      intro audio member kept
      obtain ⟨key, there, rfl⟩ := List.mem_map.mp member
      rw [blobKeys_removeFiles]
      refine List.mem_map.mpr ⟨key, List.mem_filter.mpr ⟨there, ?_⟩, rfl⟩
      simpa using kept
    refine filed.fewer rfl (fun row member => still (filed.instructions row member) fun gone => ?_)
      (.refl _) (Nat.le_refl _) ?_
      (fun question member => still (filed.questions question member) fun gone => ?_)
      (fun key member => still (filed.stored key member) fun gone => ?_)
    · exact (references_eq_false (free _ gone).1).2.2 row member rfl
    · rw [blobKeys_removeFiles]
      exact List.filter_sublist
    · exact (references_eq_false (free _ gone).1).2.1 question member rfl
    · rcases List.mem_append.mp member with old | held
      · exact (references_eq_false (free _ gone).1).1 key old rfl
      · obtain ⟨request, there, own⟩ := List.mem_flatMap.mp held
        exact claims_eq_false (free _ gone).2 request there key own rfl
  | blob _ _ =>
    exact filed.fewer rfl filed.instructions (.refl _) (Nat.le_refl _) (.refl _) filed.questions
      filed.stored

end Rows

/-! ## Completions -/

/-- The file whose blob a completion is about to look up. -/
def heading : Uploads.Phase → Option File
  | .headBlob _ audio => some audio
  | _ => none

/-- A completion that has found the blob of its message. -/
def heard : Uploads.Phase → Bool
  | .updateFile _ _ _ | .updated _ _ _ => true
  | .begun (.promote _ _) _ | .locking (.promote _ _) _ _ | .reopening (.promote _ _) _ _ => true
  | .locked (.promote _ _) _ => true
  | _ => false

section Completions

variable {uploads : Uploads.World} {now : Time} {maxAudioBytes : Nat} {blob : Uploads.BlobHead}
  {id : Id} {phase : Uploads.Phase} {turn : Uploads.Turn}

theorem heard_refuse {status : Nat} {error : String}
    (taken : Uploads.refuse uploads status error = some turn) :
    heading turn.phase = none ∧ heard turn.phase = false := by
  cases taken
  exact ⟨rfl, rfl⟩

/-- How a completion comes to look a blob up, and to have found one. -/
inductive Hears (uploads : Uploads.World) (blob : Uploads.BlobHead) (id : Id)
    (phase : Uploads.Phase) (turn : Uploads.Turn) : Prop where
  | no : heading turn.phase = none → heard turn.phase = false → Hears uploads blob id phase turn
  | heads {message : Message} {audio : File} : uploads.db.message id = some message →
      uploads.db.file message.audioId = some audio → heading turn.phase = some audio →
      heard turn.phase = false → turn.db = uploads.db → Hears uploads blob id phase turn
  | hears {audio : File} : heading phase = some audio → blob.found = true →
      heading turn.phase = none → turn.db = uploads.db → Hears uploads blob id phase turn
  | heard : heard phase = true → heading turn.phase = none → Hears uploads blob id phase turn

theorem hears_complete
    (taken : Uploads.advanceComplete uploads now maxAudioBytes blob id phase = some turn) :
    Hears uploads blob id phase turn := by
  have refused : ∀ {status : Nat} {error : String},
      Uploads.refuse uploads status error = some turn → Hears uploads blob id phase turn := by
    intro status error taken
    exact .no (heard_refuse taken).1 (heard_refuse taken).2
  cases phase with
  | arrived =>
    simp only [Uploads.advanceComplete] at taken
    split at taken
    · exact refused taken
    rename_i message found
    split at taken
    · exact refused taken
    · rename_i audio found'
      cases taken
      exact .heads found found' rfl rfl rfl
  | headBlob message audio =>
    simp only [Uploads.advanceComplete] at taken
    split at taken
    · exact refused taken
    rename_i present
    split at taken
    · exact refused taken
    split at taken
    · exact refused taken
    split at taken
    · exact refused taken
    · cases taken
      exact .hears rfl (by simpa using present) rfl rfl
  | updateFile message audio sizeBytes =>
    simp only [Uploads.advanceComplete] at taken
    by_cases gone : (uploads.db.file audio.id).isNone = true
    · rw [if_pos gone] at taken
      exact refused taken
    · rw [if_neg gone] at taken
      cases taken
      refine .heard rfl ?_
      split <;> rfl
  | promoted receivedAt =>
    cases taken
    exact .no rfl rfl
  | reload =>
    simp only [Uploads.advanceComplete] at taken
    split at taken
    · cases taken
      exact .no rfl rfl
    · exact refused taken
  | _ => cases taken

theorem hears_transaction
    (taken : Uploads.advanceTransaction uploads now (.complete id) phase = some turn) :
    Hears uploads blob id phase turn := by
  have refused : ∀ {status : Nat} {error : String},
      Uploads.refuse uploads status error = some turn → Hears uploads blob id phase turn := by
    intro status error taken
    exact .no (heard_refuse taken).1 (heard_refuse taken).2
  -- a transaction goes on with the write it began with
  have through : ∀ {next : Uploads.Phase}, heading next = none → heard next = heard phase →
      Uploads.goto uploads next = some turn → Hears uploads blob id phase turn := by
    intro next quiet same taken
    cases taken
    cases known : heard phase with
    | true => exact .heard known quiet
    | false => exact .no quiet (same.trans known)
  cases phase with
  | begun write preferred =>
    simp only [Uploads.advanceTransaction] at taken
    split at taken
    · exact refused taken
    · exact through (by rfl) (by cases write <;> rfl) taken
  | locking write attempt candidate =>
    simp only [Uploads.advanceTransaction] at taken
    split at taken
    · exact through (by rfl) (by cases write <;> rfl) taken
    · exact through (by rfl) (by cases write <;> rfl) taken
  | reopening write attempt candidate =>
    simp only [Uploads.advanceTransaction] at taken
    split at taken
    · exact refused taken
    · exact through (by rfl) (by cases write <;> rfl) taken
  | locked write era =>
    cases write with
    | create audioId retried => cases taken
    | slot id => cases taken
    | promote receivedAt filed =>
      simp only [Uploads.advanceTransaction] at taken
      split at taken
      · cases taken
      split at taken
      · cases taken
        exact .heard rfl rfl
      · cases taken
        exact .no rfl rfl
  | inserted row era =>
    cases taken
    exact .no rfl rfl
  | updated receivedAt refiled era =>
    cases taken
    exact .no rfl rfl
  | _ => cases taken

theorem hears_advance {request : Uploads.Request} (complete : request.body = .complete id)
    (taken : Uploads.advance uploads now maxAudioBytes blob request = some turn) :
    Hears uploads blob id request.phase turn := by
  obtain ⟨body, phase⟩ := request
  cases complete
  simp only [Uploads.advance] at taken
  rcases Uploads.either taken with first | second
  · exact hears_complete first
  · exact hears_transaction second

end Completions

/-! ## Recordings -/

/-- The blob of a message, while the message has a file. -/
def Sounds (db : Db) (id : Id) (holds : String → Prop) : Prop :=
  ∀ audio blobKey, (id, audio) ∈ messageKeys db → (audio, blobKey) ∈ blobKeys db → holds blobKey

/-- The id is in use, and no open transaction is about to store it. -/
def Known (uploads : Uploads.World) (id : Id) : Prop :=
  id < uploads.db.nextId ∧
    ∀ request ∈ uploads.requests, ∀ key ∈ request.uncommittedKeys, key.1 ≠ id

/-- What has landed, or was found by a completion, has its blob. -/
structure Audible (world : World) : Prop where
  landed : ∀ id ∈ (messageKeys world.db).map (·.1), uploading world.db id = false →
    Sounds world.db id (· ∈ world.blobs)
  looks : ∀ request ∈ world.uploads.requests, ∀ id audio, request.body = .complete id →
    heading request.phase = some audio →
      Known world.uploads id ∧ Sounds world.db id (· = audio.blobKey)
  finds : ∀ request ∈ world.uploads.requests, ∀ id, request.body = .complete id →
    heard request.phase = true → Known world.uploads id ∧ Sounds world.db id (· ∈ world.blobs)

/-- No blob of a file is lost, and what is new has a new id. -/
structure Carried (before after : World) : Prop where
  messages : ∀ key ∈ messageKeys after.db, key ∈ messageKeys before.db ∨
    (∃ request ∈ before.uploads.requests, key ∈ request.uncommittedKeys) ∧
      uploading after.db key.1 = true
  files : ∀ key ∈ blobKeys after.db, key ∈ blobKeys before.db ∨ key.1 = before.db.nextId
  uncommitted : ∀ request ∈ after.uploads.requests, ∀ key ∈ request.uncommittedKeys,
    (∃ other ∈ before.uploads.requests, key ∈ other.uncommittedKeys) ∨ key.1 = before.db.nextId
  nextId : before.db.nextId ≤ after.db.nextId
  blobs : ∀ key ∈ blobKeys before.db, key.2 ∈ before.blobs → key.2 ∈ after.blobs

section Recordings

variable {before after : World} {id : Id}

theorem Carried.known (carried : Carried before after) (known : Known before.uploads id) :
    Known after.uploads id := by
  refine ⟨Nat.lt_of_lt_of_le known.1 carried.nextId, fun request member key own => ?_⟩
  rcases carried.uncommitted request member key own with ⟨other, there, held⟩ | new
  · exact known.2 other there key held
  · exact new ▸ Ne.symm (Nat.ne_of_lt known.1)

/-- A message in use is not brought again. -/
theorem Carried.own (carried : Carried before after) (known : Known before.uploads id) :
    ∀ audio, (id, audio) ∈ messageKeys after.db → (id, audio) ∈ messageKeys before.db := by
  intro audio member
  rcases carried.messages _ member with old | ⟨⟨request, there, held⟩, -⟩
  · exact old
  · exact absurd rfl (known.2 request there _ held)

theorem Carried.sounds (carried : Carried before after) (filed : Filed before)
    (own : ∀ audio, (id, audio) ∈ messageKeys after.db → (id, audio) ∈ messageKeys before.db)
    {holds holds' : String → Prop}
    (weaker : ∀ key ∈ blobKeys before.db, holds key.2 → holds' key.2)
    (sounds : Sounds before.db id holds) : Sounds after.db id holds' := by
  intro audio blobKey message file
  have stored := own audio message
  rcases carried.files _ file with old | new
  · exact weaker _ old (sounds audio blobKey stored old)
  · obtain ⟨key, there, same⟩ :=
      List.mem_map.mp (filed.stored _ (List.mem_append_left _ stored))
    have used := filed.used key there
    rw [same] at used
    exact absurd new (Nat.ne_of_lt used)

theorem known_of_message (filed : Filed before) {message : Message}
    (found : before.db.message id = some message) : Known before.uploads id := by
  have stored := Uploads.mem_keys_message found
  obtain ⟨key, there, rfl⟩ := List.mem_map.mp stored
  refine ⟨filed.rows.used key (List.mem_append_left _ there), fun request member other own => ?_⟩
  exact fun same => filed.rows.apart member own (same ▸ stored)

/-- The blob that a completion is about to look up is that of its message's file. -/
theorem sounds_of_found (filed : Filed before) {message : Message} {audio : File}
    (found : before.db.message id = some message)
    (file : before.db.file message.audioId = some audio) :
    Sounds before.db id (· = audio.blobKey) := by
  intro other blobKey member stored
  obtain ⟨there, named⟩ := Table.findUnique_mem found
  obtain ⟨there', named'⟩ := Table.findUnique_mem file
  have row : (id, other) = (message.id, message.audioId) :=
    List.inj_on_of_nodup_map filed.rows.ids (List.mem_append_left _ member)
      (List.mem_append_left _ (List.mem_map.mpr ⟨message, there, rfl⟩)) named.symm
  have key : (other, blobKey) = (audio.id, audio.blobKey) :=
    List.inj_on_of_nodup_map filed.ids stored (List.mem_map.mpr ⟨audio, there', rfl⟩)
      ((congrArg Prod.snd row).trans named'.symm)
  exact congrArg Prod.snd key

theorem Audible.carried (audible : Audible before) (filed : Filed before)
    (carried : Carried before after)
    (landed : ∀ id ∈ (messageKeys before.db).map (·.1), id ∈ (messageKeys after.db).map (·.1) →
      uploading after.db id = false → uploading before.db id = false ∨
        ∃ request ∈ before.uploads.requests, request.body = .complete id ∧
          heard request.phase = true)
    (headings : ∀ request ∈ after.uploads.requests, ∀ id audio, request.body = .complete id →
      heading request.phase = some audio →
        (∃ other ∈ before.uploads.requests, other.body = .complete id ∧
          heading other.phase = some audio) ∨
        ∃ message, before.db.message id = some message ∧
          before.db.file message.audioId = some audio)
    (hearings : ∀ request ∈ after.uploads.requests, ∀ id, request.body = .complete id →
      heard request.phase = true →
        (∃ other ∈ before.uploads.requests, other.body = .complete id ∧
          heard other.phase = true) ∨
        ∃ other ∈ before.uploads.requests, ∃ audio, other.body = .complete id ∧
          heading other.phase = some audio ∧ audio.blobKey ∈ before.blobs) : Audible after := by
  refine ⟨fun id member settled => ?_, fun request member id audio complete head => ?_,
    fun request member id complete hears => ?_⟩
  · have own : ∀ audio, (id, audio) ∈ messageKeys after.db → (id, audio) ∈ messageKeys before.db := by
      intro audio there
      rcases carried.messages _ there with old | ⟨-, flying⟩
      · exact old
      · exact nomatch settled.symm.trans flying
    have stored : id ∈ (messageKeys before.db).map (·.1) := by
      obtain ⟨key, there, rfl⟩ := List.mem_map.mp member
      exact List.mem_map.mpr ⟨key, own key.2 there, rfl⟩
    rcases landed id stored member settled with old | ⟨request, there, complete, hears⟩
    · exact carried.sounds filed own carried.blobs (audible.landed id stored old)
    · exact carried.sounds filed own carried.blobs (audible.finds request there id complete hears).2
  · have both : Known before.uploads id ∧ Sounds before.db id (· = audio.blobKey) := by
      rcases headings request member id audio complete head with
        ⟨other, there, same, head'⟩ | ⟨message, found, file⟩
      · exact audible.looks other there id audio same head'
      · exact ⟨known_of_message filed found, sounds_of_found filed found file⟩
    exact ⟨carried.known both.1,
      carried.sounds filed (carried.own both.1) (fun _ _ same => same) both.2⟩
  · rcases hearings request member id complete hears with
      ⟨other, there, same, hears'⟩ | ⟨other, there, audio, same, head, present⟩
    · obtain ⟨known, sounds⟩ := audible.finds other there id same hears'
      exact ⟨carried.known known, carried.sounds filed (carried.own known) carried.blobs sounds⟩
    · obtain ⟨known, sounds⟩ := audible.looks other there id audio same head
      refine ⟨carried.known known, carried.sounds filed (carried.own known) ?_ sounds⟩
      exact fun key stored named => carried.blobs key stored (named ▸ present)

/-- Where no request moves. -/
theorem Audible.still (audible : Audible before) (filed : Filed before)
    (carried : Carried before after) (requests : after.uploads.requests = before.uploads.requests)
    (landed : ∀ id ∈ (messageKeys before.db).map (·.1), id ∈ (messageKeys after.db).map (·.1) →
      uploading after.db id = false → uploading before.db id = false) : Audible after :=
  audible.carried filed carried (fun id known there settled => .inl (landed id known there settled))
    (fun request member _ _ complete head => .inl ⟨request, requests ▸ member, complete, head⟩)
    (fun request member _ complete hears => .inl ⟨request, requests ▸ member, complete, hears⟩)

end Recordings

/-! ## Steps -/

/-- No file has the key of a blob that a worker is about to delete. -/
def Cleared (world : World) : Prop :=
  ∀ purge ∈ world.purges, ∀ blobKey ∈ purge.phase.deleting,
    ∀ key ∈ blobKeys world.db, key.2 ≠ blobKey

structure Sound (world : World) : Prop where
  filed : Filed world
  audible : Audible world
  cleared : Cleared world

section Steps

variable {world : World} {uploads : Uploads.World} {maxAudioBytes : Nat}

theorem uploading_of_mem (filed : Filed world) {row : Message} (member : row ∈ world.db.messages) :
    uploading world.db row.id = decide (row.status = .uploading) :=
  Uploads.uploading_of_found (Table.findUnique_of_mem filed.rows.messages member)

/-- A message that its transaction stores is in flight. -/
theorem flying_of_stored (filed : Filed world) {db : Db} {request : Uploads.Request} {row : Message}
    {era : Id} (member : request ∈ world.uploads.requests) (left : request.phase = .inserted row era)
    (messages : db.messages = world.db.messages ++ [row]) : uploading db row.id = true := by
  have own : row ∈ request.uncommitted := by simp [Uploads.Request.uncommitted, left]
  have fresh : Table.findUnique (·.id) row.id world.db.messages = none := by
    refine Table.findUnique_eq_none.mpr fun other there same => ?_
    refine filed.rows.apart member (List.mem_map.mpr ⟨row, own, rfl⟩) ?_
    exact List.mem_map.mpr ⟨_, List.mem_map.mpr ⟨other, there, rfl⟩, same⟩
  have found : db.message row.id = some row := by
    unfold Db.message
    rw [messages, Table.findUnique_append_single, fresh]
    simp
  rw [Uploads.uploading_of_found found, filed.flying request member row own]
  rfl

theorem carried_turn (filed : Filed world) {place : Nat} {request : Uploads.Request}
    {turn : Uploads.Turn} (turns : Uploads.Turns world.uploads request.body request.phase turn)
    (moved : Uploads.Moved world.uploads place request turn uploads) :
    Carried world { world with uploads } := by
  have mine := List.mem_of_getElem? moved.found
  have now : World.db { world with uploads } = turn.db := moved.db
  refine ⟨fun key member => ?_, fun key member => ?_, fun other member key own => ?_,
    now ▸ turns.nextId, fun key _ present => present⟩
  · have member : key ∈ messageKeys turn.db := moved.db ▸ member
    rcases turns.messages with same | ⟨row, era, left, grown⟩
    · exact .inl (same ▸ member)
    · have parts : messageKeys turn.db = messageKeys world.db ++ [(row.id, row.audioId)] := by
        simp [messageKeys, grown]
      rcases List.mem_append.mp (parts ▸ member) with old | new
      · exact .inl old
      · cases List.mem_singleton.mp new
        refine .inr ⟨⟨request, mine, ?_⟩, ?_⟩
        · simp [Uploads.Request.uncommittedKeys, Uploads.Request.uncommitted, left]
        · exact now ▸ flying_of_stored filed mine left grown
  · have member : key ∈ blobKeys turn.db := moved.db ▸ member
    rcases turns.files with same | ⟨_, _, _, _, _, grown, _⟩
    · exact .inl (same ▸ member)
    · rcases List.mem_append.mp (grown ▸ member) with old | new
      · exact .inl old
      · cases List.mem_singleton.mp new
        exact .inr rfl
  · have member : other ∈ uploads.requests := member
    rw [moved.requests] at member
    rcases List.mem_or_eq_of_mem_set member with old | rfl
    · exact .inl ⟨other, old, own⟩
    · obtain ⟨row, inserted, rfl⟩ := List.mem_map.mp own
      exact .inr (turns.uncommitted row inserted).1

/-- A message that has landed by a turn was found by its completion. -/
theorem landed_turn {place : Nat} {request : Uploads.Request} {turn : Uploads.Turn} {id : Id}
    (turns : Uploads.Turns world.uploads request.body request.phase turn)
    (moved : Uploads.Moved world.uploads place request turn uploads)
    (known : id ∈ (messageKeys world.db).map (·.1)) (settled : uploading uploads.db id = false) :
    uploading world.db id = false ∨ ∃ request ∈ world.uploads.requests,
      request.body = .complete id ∧ heard request.phase = true := by
  rw [moved.db, turns.inFlight known] at settled
  cases flying : uploading world.db id with
  | false => exact .inl rfl
  | true =>
    have promoted : id ∈ turn.promotes := by
      by_contra absent
      simp [flying, absent] at settled
    cases turns.effect with
    | none quiet _ _ _ =>
      rw [quiet] at promoted
      cases promoted
    | promote complete holds _ promotes _ _ =>
      rw [promotes] at promoted
      cases List.mem_singleton.mp promoted
      refine .inr ⟨request, List.mem_of_getElem? moved.found, complete, ?_⟩
      unfold Uploads.Request.holds at holds
      split at holds
      · rename_i left
        rw [show request.phase = _ from left]
        rfl
      · cases holds
    | kick _ _ quiet _ _ =>
      rw [quiet] at promoted
      cases promoted

theorem stored_of_heads {place : Nat} {now : Time} {blob : Uploads.BlobHead}
    {request : Uploads.Request} {audio : File} (heads : world.heads (.advance place now blob) = true)
    (found : world.uploads.requests[place]? = some request)
    (head : heading request.phase = some audio) (present : blob.found = true) :
    audio.blobKey ∈ world.blobs := by
  obtain ⟨body, phase⟩ := request
  cases phase with
  | headBlob message file =>
    cases head
    simpa [World.heads, found, present] using heads
  | _ => cases head

theorem undisturbed_upsert {place : Nat} {now : Time} {blob : Uploads.BlobHead}
    {request : Uploads.Request} {body : Uploads.MessageCreate} {retried : Bool} {purge : Purge}
    (allowed : undisturbed world (.upload (.advance place now blob)) = true)
    (found : world.uploads.requests[place]? = some request) (made : request.body = .create body)
    (left : request.phase = .upsertFile retried)
    (missing : Uploads.fileOf world.db body.sha256 = none) (member : purge ∈ world.purges) :
    messageBlobName body.sha256 ∉ purge.phase.deleting := by
  obtain ⟨_, _⟩ := request
  cases made
  cases left
  have free : ∀ purge ∈ world.purges, messageBlobName body.sha256 ∉ purge.phase.deleting := by
    simpa [undisturbed, found, missing] using allowed
  exact free purge member

theorem Sound.uploaded {action : Uploads.Action} (sound : Sound world)
    (allowed : undisturbed world (.upload action) = true) (heads : world.heads action = true)
    (taken : Uploads.step maxAudioBytes world.uploads action = some uploads) :
    Sound { world with uploads } := by
  obtain ⟨filed, audible, cleared⟩ := sound
  rcases Uploads.step_cases taken with
    ⟨body, rfl⟩ | ⟨place, request, turn, turns, moved, advanced⟩ | ⟨db, kept, rfl⟩
  · refine ⟨filed.arrived, audible.carried filed ⟨fun _ member => .inl member,
      fun _ member => .inl member, fun request member key own => ?_, Nat.le_refl _,
      fun _ _ present => present⟩ (fun _ _ _ settled => .inl settled) ?_ ?_, cleared⟩
    · rcases List.mem_append.mp member with old | new
      · exact .inl ⟨request, old, own⟩
      · cases List.mem_singleton.mp new
        cases own
    · intro request member id audio complete head
      rcases List.mem_append.mp member with old | new
      · exact .inl ⟨request, old, complete, head⟩
      · cases List.mem_singleton.mp new
        cases head
    · intro request member id complete hears
      rcases List.mem_append.mp member with old | new
      · exact .inl ⟨request, old, complete, hears⟩
      · cases List.mem_singleton.mp new
        cases hears
  · have mine := List.mem_of_getElem? moved.found
    have hears : ∀ id, request.body = .complete id →
        (heading turn.phase = none ∧ heard turn.phase = false) ∨
          ∃ blob, Hears world.uploads blob id request.phase turn ∧
            ∀ audio, heading request.phase = some audio → blob.found = true →
              audio.blobKey ∈ world.blobs := by
      intro id complete
      rcases advanced with ⟨now, blob, rfl, advanced⟩ | rfl
      · exact .inr ⟨blob, hears_advance complete advanced, fun audio head found =>
          stored_of_heads heads moved.found head found⟩
      · exact .inl ⟨rfl, rfl⟩
    refine ⟨filed.moved turns moved, audible.carried filed (carried_turn filed turns moved)
      (fun id known _ settled => landed_turn turns moved known settled) ?_ ?_, ?_⟩
    · intro other member id audio complete head
      have member : other ∈ uploads.requests := member
      rw [moved.requests] at member
      rcases List.mem_or_eq_of_mem_set member with old | rfl
      · exact .inl ⟨other, old, complete, head⟩
      · rcases hears id complete with ⟨quiet, -⟩ | ⟨blob, hears, -⟩
        · exact nomatch quiet.symm.trans head
        · cases hears with
          | no quiet _ => exact nomatch quiet.symm.trans head
          | heads found file named _ _ =>
            cases named.symm.trans head
            exact .inr ⟨_, found, file⟩
          | hears _ _ quiet _ => exact nomatch quiet.symm.trans head
          | heard _ quiet => exact nomatch quiet.symm.trans head
    · intro other member id complete found
      have member : other ∈ uploads.requests := member
      rw [moved.requests] at member
      rcases List.mem_or_eq_of_mem_set member with old | rfl
      · exact .inl ⟨other, old, complete, found⟩
      · rcases hears id complete with ⟨-, quiet⟩ | ⟨blob, hears, stored⟩
        · exact nomatch quiet.symm.trans found
        · cases hears with
          | no _ quiet => exact nomatch quiet.symm.trans found
          | heads _ _ _ quiet _ => exact nomatch quiet.symm.trans found
          | hears head present _ _ =>
            exact .inr ⟨request, mine, _, complete, head, stored _ head present⟩
          | heard before _ => exact .inl ⟨request, mine, complete, before⟩
    · intro purge member blobKey deleting key stored
      have stored : key ∈ blobKeys turn.db := moved.db ▸ stored
      rcases turns.files with same | ⟨create, retried, made, left, fresh, grown, -⟩
      · exact cleared purge member blobKey deleting key (same ▸ stored)
      · rcases List.mem_append.mp (grown ▸ stored) with old | new
        · exact cleared purge member blobKey deleting key old
        · cases List.mem_singleton.mp new
          rcases advanced with ⟨now, blob, rfl, -⟩ | rfl
          · have missing : Uploads.fileOf world.db create.sha256 = none := by
              refine Table.findUnique_eq_none.mpr fun file there => ?_
              exact fresh _ (List.mem_map.mpr ⟨file, there, rfl⟩)
            rintro rfl
            exact undisturbed_upsert allowed moved.found made left missing member deleting
          · have length := congrArg List.length grown
            simp at length
  · have carried : Carried world { world with uploads := { world.uploads with db } } :=
      ⟨fun key member => .inl (kept.messages ▸ member), fun key member => .inl (kept.blobs ▸ member),
        fun request member key own => .inl ⟨request, member, own⟩, kept.nextId,
        fun _ _ present => present⟩
    refine ⟨filed.kept kept, audible.still filed carried rfl
      (fun id _ _ settled => (kept.uploading id).symm.trans settled), ?_⟩
    intro purge member blobKey deleting key stored
    exact cleared purge member blobKey deleting key (kept.blobs ▸ stored)

theorem carried_same {before after : World} (requests : after.uploads.requests = before.uploads.requests)
    (messages : messageKeys after.db ⊆ messageKeys before.db)
    (files : blobKeys after.db ⊆ blobKeys before.db) (nextId : before.db.nextId ≤ after.db.nextId)
    (blobs : ∀ key ∈ blobKeys before.db, key.2 ∈ before.blobs → key.2 ∈ after.blobs) :
    Carried before after :=
  ⟨fun _ member => .inl (messages member), fun _ member => .inl (files member),
    fun request member _ own => .inl ⟨request, requests ▸ member, own⟩, nextId, blobs⟩

/-- What is left of an era's deletion is as it was. -/
theorem uploading_deleteEra {installationId : Id} (filed : Filed world) {id : Id}
    (known : id ∈ (messageKeys (deleteEra installationId world.db)).map (·.1)) :
    uploading (deleteEra installationId world.db) id = uploading world.db id := by
  obtain ⟨_, there, rfl⟩ := List.mem_map.mp known
  obtain ⟨row, member, rfl⟩ := List.mem_map.mp there
  obtain ⟨old, kept, rfl⟩ := List.mem_map.mp member
  have distinct : ((deleteEra installationId world.db).messages.map (·.id)).Nodup := by
    rw [deleteEra, List.map_map]
    exact (List.filter_sublist.map _).nodup filed.rows.messages
  rw [Uploads.uploading_of_found (Table.findUnique_of_mem distinct member)]
  exact (uploading_of_mem filed (List.mem_filter.mp kept).1).symm

theorem Sweeps.files_subset {purge : Purge} {turn : Turn} (sweeps : Sweeps world purge turn) :
    blobKeys turn.db ⊆ blobKeys world.db := by
  cases sweeps with
  | look _ => exact List.Subset.refl _
  | rehome kept _ => exact kept.blobs ▸ List.Subset.refl _
  | era _ => exact List.Subset.refl _
  | files _ _ =>
    rw [blobKeys_removeFiles]
    exact List.filter_subset_self _
  | blob _ _ => exact List.Subset.refl _

theorem Sweeps.deleting_cleared {purge : Purge} {turn : Turn} (sweeps : Sweeps world purge turn)
    {blobKey : String} (member : blobKey ∈ turn.phase.deleting) :
    blobKey ∈ purge.phase.deleting ∨ ∀ key ∈ blobKeys world.db, key.2 ≠ blobKey := by
  cases sweeps with
  | look free =>
    refine (free blobKey member).imp_right fun free key stored => ?_
    obtain ⟨file, there, rfl⟩ := List.mem_map.mp stored
    exact free file there
  | rehome _ quiet =>
    rw [quiet] at member
    cases member
  | era quiet =>
    rw [quiet] at member
    cases member
  | files _ quiet =>
    rw [quiet] at member
    cases member
  | blob _ fewer => exact .inl (fewer blobKey member)

theorem Sound.swept {place : Nat} {purge : Purge} {turn : Turn} (sound : Sound world)
    (found : world.purges[place]? = some purge) (sweeps : Sweeps world purge turn) :
    Sound { world with
      uploads := { world.uploads with db := turn.db }
      blobs := turn.blobs
      purges := world.purges.set place { purge with phase := turn.phase } } := by
  obtain ⟨filed, audible, cleared⟩ := sound
  have mine := List.mem_of_getElem? found
  have files := sweeps.files_subset
  refine ⟨filed.swept sweeps, ?_, ?_⟩
  · cases sweeps with
    | look _ =>
      exact audible.still filed (carried_same rfl (.refl _) (.refl _) (Nat.le_refl _)
        fun _ _ present => present) rfl fun _ _ _ settled => settled
    | rehome kept _ =>
      refine audible.still filed (carried_same rfl (kept.messages ▸ .refl _) files kept.nextId
        fun _ _ present => present) rfl fun id _ _ settled => ?_
      exact (kept.uploading id).symm.trans settled
    | era _ =>
      refine audible.still filed (carried_same rfl (messageKeys_deleteEra _ _).subset files
        (Nat.le_refl _) fun _ _ present => present) rfl fun id _ there settled => ?_
      exact (uploading_deleteEra filed there).symm.trans settled
    | files _ _ =>
      exact audible.still filed (carried_same rfl (.refl _) files (Nat.le_refl _)
        fun _ _ present => present) rfl fun _ _ _ settled => settled
    | blob own _ =>
      refine audible.still filed (carried_same rfl (.refl _) files (Nat.le_refl _) ?_) rfl
        fun _ _ _ settled => settled
      intro key stored present
      exact List.mem_filter.mpr ⟨present, decide_eq_true (cleared purge mine _ own key stored)⟩
  · intro other member blobKey deleting key stored
    rcases List.mem_or_eq_of_mem_set member with old | rfl
    · exact cleared other old blobKey deleting key (files stored)
    · rcases sweeps.deleting_cleared deleting with before | free
      · exact cleared purge mine blobKey before key (files stored)
      · exact free key (files stored)

theorem Sound.step {after : World} {action : Action} (sound : Sound world)
    (allowed : undisturbed world action = true)
    (taken : Purges.step maxAudioBytes world action = some after) : Sound after := by
  obtain ⟨filed, audible, cleared⟩ := sound
  have still : ∀ {other : World}, other.uploads.requests = world.uploads.requests →
      messageKeys other.db = messageKeys world.db → blobKeys other.db = blobKeys world.db →
        world.db.nextId ≤ other.db.nextId → world.blobs ⊆ other.blobs →
          (∀ id, uploading other.db id = uploading world.db id) → Audible other := by
    intro other requests messages files nextId blobs flying
    refine audible.still filed (carried_same requests (messages ▸ .refl _) (files ▸ .refl _) nextId
      fun key _ present => blobs present) requests fun id _ _ settled => ?_
    exact (flying id).symm.trans settled
  cases action with
  | upload action =>
    simp only [Purges.step] at taken
    split at taken
    · rename_i heads
      obtain ⟨uploads, moved, taken⟩ := Option.map_eq_some_iff.mp taken
      cases taken
      exact Sound.uploaded ⟨filed, audible, cleared⟩ allowed heads moved
    · cases taken
  | putBlob blobKey =>
    cases taken
    refine ⟨?_, ?_, cleared⟩
    · exact filed.fewer rfl filed.instructions (.refl _) (Nat.le_refl _) (.refl _) filed.questions
        filed.stored
    · exact still rfl rfl rfl (Nat.le_refl _) (List.subset_append_left _ _) fun _ => rfl
  | insertQuestion question =>
    simp only [Purges.step] at taken
    split at taken
    · rename_i file
      cases taken
      exact ⟨filed.inserted_question file,
        still rfl rfl rfl (Nat.le_succ _) (.refl _) fun _ => rfl, cleared⟩
    · cases taken
  | insertInstruction audioId =>
    simp only [Purges.step] at taken
    split at taken
    · rename_i file
      cases taken
      exact ⟨filed.inserted_instruction file,
        still rfl rfl rfl (Nat.le_succ _) (.refl _) fun _ => rfl, cleared⟩
    · cases taken
  | arrive installationId confirmName =>
    cases taken
    refine ⟨?_, still rfl rfl rfl (Nat.le_refl _) (.refl _) fun _ => rfl, ?_⟩
    · exact filed.fewer rfl filed.instructions (.refl _) (Nat.le_refl _) (.refl _) filed.questions
        filed.stored
    · intro purge member blobKey deleting
      rcases List.mem_append.mp member with old | new
      · exact cleared purge old blobKey deleting
      · cases List.mem_singleton.mp new
        cases deleting
  | advance place choice fails =>
    obtain ⟨purge, found, taken⟩ := Option.bind_eq_some_iff.mp taken
    obtain ⟨turn, swept, taken⟩ := Option.bind_eq_some_iff.mp taken
    cases taken
    exact Sound.swept ⟨filed, audible, cleared⟩ found (sweeps_advance swept)

/-- A blob is taken away by a worker that was about to. -/
theorem blobs_step {after : World} {action : Action}
    (taken : Purges.step maxAudioBytes world action = some after) {blobKey : String}
    (present : blobKey ∈ world.blobs) (gone : blobKey ∉ after.blobs) :
    ∃ purge ∈ world.purges, blobKey ∈ purge.phase.deleting := by
  cases action with
  | upload action =>
    simp only [Purges.step] at taken
    split at taken
    · obtain ⟨uploads, -, taken⟩ := Option.map_eq_some_iff.mp taken
      cases taken
      exact absurd present gone
    · cases taken
  | putBlob other =>
    cases taken
    exact absurd (List.mem_append_left _ present) gone
  | insertQuestion question =>
    simp only [Purges.step] at taken
    split at taken
    · cases taken
      exact absurd present gone
    · cases taken
  | insertInstruction audioId =>
    simp only [Purges.step] at taken
    split at taken
    · cases taken
      exact absurd present gone
    · cases taken
  | arrive installationId confirmName =>
    cases taken
    exact absurd present gone
  | advance place choice fails =>
    obtain ⟨purge, found, taken⟩ := Option.bind_eq_some_iff.mp taken
    obtain ⟨turn, swept, taken⟩ := Option.bind_eq_some_iff.mp taken
    cases taken
    refine ⟨purge, List.mem_of_getElem? found, ?_⟩
    cases sweeps_advance swept with
    | look _ => exact absurd present gone
    | rehome _ _ => exact absurd present gone
    | era _ => exact absurd present gone
    | files _ _ => exact absurd present gone
    | @blob key phase own _ =>
      by_cases same : blobKey = key
      · exact same ▸ own
      · exact absurd (List.mem_filter.mpr ⟨present, decide_eq_true same⟩) gone

theorem sound_initial (initial : Initial world) : Sound world := by
  have files : (blobKeys world.db).map (·.1) = world.db.files.map (·.id) := by simp [blobKeys]
  have rows : world.uploads.rowKeys = messageKeys world.db := by
    simp [Uploads.World.rowKeys, initial.requests]
  have referred : ∀ table, ∀ audio ∈ world.audioIds table,
      audio ∈ (blobKeys world.db).map (·.1) := by
    intro table audio member
    rw [files]
    refine initial.references audio (List.any_eq_true.mpr ⟨table, ?_, List.contains_iff_mem.mpr member⟩)
    cases table <;> simp
  refine ⟨⟨⟨?_, ?_, ?_⟩, ?_, ?_, ?_, ?_, ?_, ?_⟩, ⟨?_, ?_, ?_⟩, ?_⟩
  · rw [rows, messageKeys, List.map_map]
    exact initial.messages
  · rw [rows, messageKeys, List.map_map]
    exact initial.recordings
  · rw [rows]
    intro key member
    obtain ⟨row, there, rfl⟩ := List.mem_map.mp member
    exact initial.messagesUsed row there
  · rw [files]
    exact initial.files
  · intro key member
    obtain ⟨file, there, rfl⟩ := List.mem_map.mp member
    exact initial.filesUsed file there
  · rw [rows]
    intro key member
    obtain ⟨row, there, rfl⟩ := List.mem_map.mp member
    exact referred .messages row.audioId (List.mem_map.mpr ⟨row, there, rfl⟩)
  · exact fun question member => referred .questions _ (List.mem_map.mpr ⟨question, member, rfl⟩)
  · exact fun row member => referred .instructions _ (List.mem_map.mpr ⟨row, member, rfl⟩)
  · simp [initial.requests]
  · intro id known settled audio blobKey message file
    obtain ⟨row, there, same⟩ := List.mem_map.mp message
    obtain ⟨stored, there', same'⟩ := List.mem_map.mp file
    cases same
    obtain ⟨named, rfl⟩ := Prod.mk.inj same'
    have found := Table.findUnique_of_mem initial.messages there
    have landed := (Uploads.uploading_of_found found).symm.trans settled
    exact initial.present row there (by simpa using landed) stored there' named
  · simp [initial.requests]
  · simp [initial.requests]
  · intro purge member
    rw [initial.purges] at member
    cases member

theorem Sound.spares {after : World} {action : Action} (sound : Sound world) (later : Sound after)
    (taken : Purges.step maxAudioBytes world action = some after) : Spares world after := by
  have files : (blobKeys after.db).map (·.1) = after.db.files.map (·.id) := by simp [blobKeys]
  have kept : ∀ file, file ∈ (blobKeys after.db).map (·.1) →
      ∃ kept ∈ after.db.files, kept.id = file := by
    intro file member
    rw [files] at member
    exact List.mem_map.mp member
  refine ⟨fun file _ referred => kept _ ?_, fun blobKey present gone file stored same => ?_,
    fun row member landed => ?_⟩
  · by_contra missing
    have free : ∀ table, file.id ∉ after.audioIds table := by
      intro table member
      cases table with
      | questions =>
        obtain ⟨question, there, same⟩ := List.mem_map.mp member
        exact missing (same ▸ later.filed.questions question there)
      | messages =>
        obtain ⟨row, there, same⟩ := List.mem_map.mp member
        refine missing (same ▸ later.filed.stored (row.id, row.audioId) ?_)
        exact List.mem_append_left _ (List.mem_map.mpr ⟨row, there, rfl⟩)
      | instructions =>
        obtain ⟨row, there, same⟩ := List.mem_map.mp member
        exact missing (same ▸ later.filed.instructions row there)
    obtain ⟨table, -, member⟩ := List.any_eq_true.mp referred
    exact free table (List.contains_iff_mem.mp member)
  · obtain ⟨purge, member, deleting⟩ := blobs_step taken present gone
    exact sound.cleared purge member blobKey deleting _ (List.mem_map.mpr ⟨file, stored, rfl⟩) same
  · have key : (row.id, row.audioId) ∈ messageKeys after.db := List.mem_map.mpr ⟨row, member, rfl⟩
    obtain ⟨file, there, same⟩ := kept _ (later.filed.stored _ (List.mem_append_left _ key))
    refine ⟨file, there, same, ?_⟩
    refine later.audible.landed row.id (List.mem_map.mpr ⟨_, key, rfl⟩) ?_ row.audioId _ key ?_
    · rw [uploading_of_mem later.filed member]
      simpa using landed
    · exact List.mem_map.mpr ⟨file, there, by rw [same]⟩

end Steps

/-- **A purge spares live audio unless an upload brings a file back between a
worker's look and its deletion.** In every run of purges, uploads, rollovers
and new questions in which none does: no file that a row refers to is deleted,
no blob is deleted while it has a file, and every landed message has its
recording. -/
theorem purge_spares_undisturbed {start : World} (initial : Initial start) {maxAudioBytes : Nat}
    {actions : List Action}
    (allowed : Along (step maxAudioBytes) (fun before action _ => undisturbed before action = true)
      start actions) :
    Along (step maxAudioBytes) (fun before _ after => Spares before after) start actions :=
  Along.of_invariant (fun _ _ _ sound allowed taken => sound.step allowed taken)
    (fun _ _ _ sound later _ taken => sound.spares later taken) (sound_initial initial) allowed

/-! ## One recording, twice -/

/-- An ended era with one message, of the recording that a booth sends again in the
open one. -/
def endedBooth : World where
  uploads :=
    { db :=
        { installations := [{ id := 0, name := "first", endedAt := some 1 }, { id := 1, startedAt := 2 }]
          files := [{ id := 2, blobKey := messageBlobName "f0", sha256 := "f0" }]
          messages := [{ id := 3, status := .approved, audioId := 2, installationId := some 0 }]
          nextId := 4 } }
  blobs := [messageBlobName "f0"]

theorem initial_endedBooth : Initial endedBooth := by
  refine ⟨by decide, by decide, by decide, by decide, by decide, fun file referred => ?_, by decide,
    rfl, rfl⟩
  simpa [World.references, World.audioIds, endedBooth] using referred

def sweeping (count : Nat) : List Action := List.replicate count (.advance 0 0 false)

/-- The purge up to the moment at which its worker has the blob's key. -/
def sweptRows : List Action :=
  .arrive 0 "first" :: sweeping 3 ++ [.advance 0 1 false] ++ sweeping 6

/-- The recording is sent again, put and completed. -/
def sentAgain : List Action :=
  let turns request count := List.replicate count (.upload (.advance request 5 ⟨true, some "f0", 3⟩))
  .upload (.arrive (.create { sha256 := "f0" })) :: turns 0 12 ++
    .putBlob (messageBlobName "f0") :: .upload (.arrive (.complete 5)) :: turns 1 8

/-- The worker looks for a file after the booth has brought it back, and passes the blob over. -/
theorem purge_spares_undisturbed_passed :
    (exec (step 10) endedBooth (sweptRows ++ sentAgain ++ sweeping 3)).isSome ∧
      Along (step 10) (fun before _ after => Spares before after) endedBooth
        (sweptRows ++ sentAgain ++ sweeping 3) :=
  ⟨by decide, purge_spares_undisturbed initial_endedBooth (by decide)⟩

/-- **It looks before, and deletes the blob of a message that has landed.** -/
theorem purge_deletes_live_audio : Initial endedBooth ∧
    ¬ Along (step 10) (fun before _ after => Spares before after) endedBooth
      (sweptRows ++ sweeping 1 ++ sentAgain ++ sweeping 1) := by
  refine ⟨initial_endedBooth, fun spared => ?_⟩
  have lost : ((exec (step 10) endedBooth (sweptRows ++ sweeping 1 ++ sentAgain)).any fun before =>
      (step 10 before (.advance 0 0 false)).any fun after =>
        after.blobs.isEmpty && after.db.messages.any (·.status ≠ .uploading)) = true := by
    decide
  cases ran : exec (step 10) endedBooth (sweptRows ++ sweeping 1 ++ sentAgain) with
  | none =>
    rw [ran] at lost
    cases lost
  | some before =>
    cases taken : step 10 before (.advance 0 0 false) with
    | none =>
      rw [ran, Option.any_some, taken] at lost
      cases lost
    | some after =>
      simp only [ran, taken, Option.any_some, Bool.and_eq_true, List.any_eq_true,
        List.isEmpty_iff] at lost
      obtain ⟨gone, row, member, landed⟩ := lost
      obtain ⟨file, -, -, present⟩ :=
        (spared.last ran taken).present row member (of_decide_eq_true landed)
      rw [gone] at present
      cases present

end BoothOperator.Purges
