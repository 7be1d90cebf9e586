import Mathlib.Data.List.Perm.Basic
import BoothOperator.Uploads.Requests

/-! What a statement of an upload can do: each reads and goes on, or writes one
row, and the database constraints say which rows it can write. -/
namespace BoothOperator.Uploads

open BoothOperator.Schema
open BoothOperator.Installations

/-! ## Keys -/

/-- The ids of the files, with the recordings they are of. -/
def fileKeys (db : Db) : List (Id × String) := db.files.map fun file => (file.id, file.sha256)

/-- The ids of the files, with the keys of their blobs. -/
def blobKeys (db : Db) : List (Id × String) := db.files.map fun file => (file.id, file.blobKey)

/-- The ids of the messages, with their files. -/
def messageKeys (db : Db) : List (Id × Id) := db.messages.map fun row => (row.id, row.audioId)

def Request.uncommittedKeys (request : Request) : List (Id × Id) :=
  request.uncommitted.map fun row => (row.id, row.audioId)

/-- The keys of the stored messages and of those that open transactions have inserted. -/
def World.rowKeys (world : World) : List (Id × Id) :=
  messageKeys world.db ++ world.requests.flatMap Request.uncommittedKeys

/-- The message of a recording. -/
def RecordingOf (db : Db) (sha256 : String) (id : Id) : Prop :=
  ∃ audio, (id, audio) ∈ messageKeys db ∧ (audio, sha256) ∈ fileKeys db

def uploading (db : Db) (id : Id) : Bool := (db.message id).any (·.status = .uploading)

/-- Every key is kept, and so is what is in flight. -/
structure Kept (before after : Db) : Prop where
  files : fileKeys after = fileKeys before
  blobs : blobKeys after = blobKeys before
  messages : messageKeys after = messageKeys before
  nextId : before.nextId ≤ after.nextId
  uploading : ∀ id, uploading after id = uploading before id
  /-- A question that is new has the file of another. -/
  questions : ∀ question ∈ after.questions, ∃ other ∈ before.questions,
    other.audioId = question.audioId

theorem Kept.refl (db : Db) : Kept db db :=
  ⟨rfl, rfl, rfl, Nat.le_refl _, fun _ => rfl, fun question member => ⟨question, member, rfl⟩⟩

theorem Kept.trans {first second third : Db} (one : Kept first second) (two : Kept second third) :
    Kept first third := by
  refine ⟨two.files.trans one.files, two.blobs.trans one.blobs, two.messages.trans one.messages,
    Nat.le_trans one.nextId two.nextId, fun id => (two.uploading id).trans (one.uploading id), ?_⟩
  intro question member
  obtain ⟨middle, there, same⟩ := two.questions question member
  obtain ⟨other, here, same'⟩ := one.questions middle there
  exact ⟨other, here, same'.trans same⟩

theorem Kept.of_tables {before after : Db} (files : after.files = before.files)
    (messages : after.messages = before.messages) (nextId : before.nextId ≤ after.nextId)
    (questions : ∀ question ∈ after.questions, ∃ other ∈ before.questions,
      other.audioId = question.audioId) : Kept before after := by
  refine ⟨?_, ?_, ?_, nextId, fun id => ?_, questions⟩
  · unfold fileKeys
    rw [files]
  · unfold blobKeys
    rw [files]
  · unfold messageKeys
    rw [messages]
  · unfold Uploads.uploading Db.message
    rw [messages]

theorem mem_fileKeys_of_find {db : Db} {sha256 : String} {file : File}
    (found : fileOf db sha256 = some file) : (file.id, sha256) ∈ fileKeys db := by
  obtain ⟨member, named⟩ := Table.findUnique_mem found
  exact List.mem_map.mpr ⟨file, member, by rw [named]⟩

theorem file_mem_keys {db : Db} {id : Id} (stored : (db.file id).isSome = true) :
    id ∈ (fileKeys db).map (·.1) := by
  obtain ⟨file, found⟩ := Option.isSome_iff_exists.mp stored
  obtain ⟨member, rfl⟩ := Table.findUnique_mem found
  exact List.mem_map.mpr ⟨_, List.mem_map.mpr ⟨file, member, rfl⟩, rfl⟩

theorem mem_messageKeys_of_find {db : Db} {audio : Id} {message : Message}
    (found : messageOf db audio = some message) : (message.id, audio) ∈ messageKeys db := by
  obtain ⟨member, named⟩ := Table.findUnique_mem found
  exact List.mem_map.mpr ⟨message, member, by rw [named]⟩

theorem message_mem_keys {db : Db} {id : Id} (known : id ∈ (messageKeys db).map (·.1)) :
    ∃ row, db.message id = some row := by
  obtain ⟨_, member, rfl⟩ := List.mem_map.mp known
  obtain ⟨row, stored, rfl⟩ := List.mem_map.mp member
  cases found : db.message row.id with
  | some other => exact ⟨other, rfl⟩
  | none => exact absurd rfl (Table.findUnique_eq_none.mp found row stored)

theorem mem_keys_message {db : Db} {id : Id} {row : Message} (found : db.message id = some row) :
    id ∈ (messageKeys db).map (·.1) := by
  obtain ⟨member, rfl⟩ := Table.findUnique_mem found
  exact List.mem_map.mpr ⟨_, List.mem_map.mpr ⟨row, member, rfl⟩, rfl⟩

theorem uploading_of_found {db : Db} {id : Id} {row : Message} (found : db.message id = some row) :
    uploading db id = decide (row.status = .uploading) := by
  simp [uploading, found]

/-! ## Rollovers -/

theorem messageKeys_updateMessages {db : Db} {found : Message → Bool} {change : Message → Message}
    (ids : ∀ row, (change row).id = row.id) (audio : ∀ row, (change row).audioId = row.audioId) :
    messageKeys (db.updateMessages found change) = messageKeys db :=
  Table.map_updateMany (fun row : Message => (row.id, row.audioId))
    (fun row => by rw [ids row, audio row]) db.messages

theorem messageKeys_promoteMessage (id : Id) (receivedAt : Time) (refiled : Option Id) (db : Db) :
    messageKeys (promoteMessage id receivedAt refiled db) = messageKeys db :=
  messageKeys_updateMessages (by intro row; rfl) (by intro row; rfl)

/-- The message has landed, and no other has moved. -/
theorem uploading_promoteMessage (id other : Id) (receivedAt : Time) (refiled : Option Id) (db : Db) :
    uploading (promoteMessage id receivedAt refiled db) other =
      (uploading db other && decide (other ≠ id)) := by
  unfold promoteMessage uploading
  rw [Db.message_updateMessages (by intro row; rfl)]
  cases found : db.message other with
  | none => rfl
  | some row =>
    obtain ⟨_, rfl⟩ := Table.findUnique_mem found
    simp only [Option.map_some, Option.any_some]
    by_cases same : row.id = id
    · by_cases flying : row.status = .uploading
      · simp [same, flying]
      · simp [flying]
    · simp [same]

/-- A recording in flight is left where it is. -/
theorem kept_closeOut (installationId : Id) (endedAt : Time) (db : Db) :
    Kept db (closeOutInstallation installationId endedAt db) := by
  refine ⟨rfl, rfl, messageKeys_updateMessages (by intro row; rfl) (by intro row; rfl),
    Nat.le_refl _, fun id => ?_, fun question member => ?_⟩
  rotate_left
  · obtain ⟨old, there, rfl⟩ := Table.mem_updateMany.mp member
    refine ⟨old, there, ?_⟩
    split <;> rfl
  change Option.any _ ((Messages.closeOutMessages installationId endedAt db).message id) = _
  unfold Messages.closeOutMessages Uploads.uploading
  rw [Db.message_updateMessages (by intro row; rfl)]
  cases db.message id with
  | none => rfl
  | some row =>
    simp only [Option.map_some, Option.any_some]
    split
    · rename_i closed
      have landed : row.status ≠ .uploading := by
        intro flying
        simp [flying] at closed
      simp [landed]
    · rfl

theorem kept_end {id : Id} {endedAt : Time} {endedById : Option String} {db after : Db}
    (taken : endInstallation id endedAt endedById db = some after) : Kept db after := by
  unfold endInstallation at taken
  split at taken
  · cases taken
    exact (kept_closeOut id endedAt db).trans
      (Kept.of_tables rfl rfl (Nat.le_refl _) fun question member => ⟨question, member, rfl⟩)
  · cases taken

theorem kept_copyQuestion {installationId : Id} {db : Db} {question : Question}
    (stored : ∃ other ∈ db.questions, other.audioId = question.audioId) :
    Kept db (copyQuestion installationId db question) := by
  unfold copyQuestion
  split
  · exact Kept.refl db
  · refine Kept.of_tables rfl rfl (Nat.le_succ _) fun copy member => ?_
    rcases List.mem_append.mp member with old | new
    · exact ⟨copy, old, rfl⟩
    · cases List.mem_singleton.mp new
      exact stored

theorem questions_copyQuestion (installationId : Id) (db : Db) (question : Question) :
    db.questions ⊆ (copyQuestion installationId db question).questions := by
  unfold copyQuestion
  split
  · exact fun _ member => member
  · exact List.subset_append_left _ _

theorem kept_copyQuestions (installationId : Id) (questions : List Question) (db : Db)
    (stored : questions ⊆ db.questions) :
    Kept db (questions.foldl (copyQuestion installationId) db) := by
  induction questions generalizing db with
  | nil => exact Kept.refl db
  | cons question rest ih =>
    obtain ⟨here, later⟩ := List.cons_subset.mp stored
    exact (kept_copyQuestion ⟨question, here, rfl⟩).trans
      (ih _ (List.Subset.trans later (questions_copyQuestion installationId db question)))

theorem kept_open (data : Installation) (previous : Option Installation) (copyQuestions : Bool)
    (now : Time) (db : Db) : Kept db (openInstallation data previous copyQuestions now db) := by
  unfold openInstallation
  simp only
  split
  · refine .trans ?_ (kept_copyQuestions _ _ _ (List.filter_subset_self _))
    exact Kept.of_tables rfl rfl (Nat.le_succ _) fun question member => ⟨question, member, rfl⟩
  · exact Kept.of_tables rfl rfl (Nat.le_succ _) fun question member => ⟨question, member, rfl⟩

theorem kept_start (data : Installation) (copyQuestions : Bool) (now : Time)
    (endedById : Option String) (db : Db) :
    Kept db (startInstallation data copyQuestions now endedById db) := by
  unfold startInstallation
  cases db.findActiveInstallation with
  | none => exact kept_open _ _ _ _ _
  | some active =>
    cases taken : endInstallation active.id now endedById db with
    | none =>
      simp only [taken]
      exact Kept.refl db
    | some closed =>
      simp only [taken]
      exact (kept_end taken).trans (kept_open _ _ _ _ _)

/-! ## Requests -/

def Write.fileId : Write → Option Id
  | .create audioId _ => some audioId
  | _ => none

def Write.slotId : Write → Option Id
  | .slot id => some id
  | _ => none

/-- The file whose id a request goes on with. -/
def Phase.file : Phase → Option Id
  | .findMessage existingFile => some existingFile.id
  | .recheck file | .raced file => some file
  | .begun write _ | .locking write _ _ | .reopening write _ _ | .locked write _ => write.fileId
  | .inserted row _ => some row.audioId
  | _ => none

/-- The message whose id a request hands out. -/
def Phase.slot : Phase → Option Id
  | .begun write _ | .locking write _ _ | .reopening write _ _ | .locked write _ => write.slotId
  | .answered (.created id) => some id
  | _ => none

/-- The ids a request goes on with are those of its recording. -/
structure Owns (db : Db) (sha256 : String) (phase : Phase) : Prop where
  file : ∀ id, phase.file = some id → (id, sha256) ∈ fileKeys db
  slot : ∀ id, phase.slot = some id → RecordingOf db sha256 id

def Owned (db : Db) (request : Request) : Prop :=
  ∀ body, request.body = .create body → Owns db body.sha256 request.phase

/-- No open transaction has written, and no promotion waits for its kick. -/
def Phase.quiet : Phase → Bool
  | .inserted _ _ | .updated _ _ _ | .promoted _ => false
  | _ => true

theorem quiet_uncommitted {body : Body} {phase : Phase} (quiet : phase.quiet = true) :
    Request.uncommittedKeys ⟨body, phase⟩ = [] := by
  cases phase with
  | inserted row era => cases quiet
  | _ => rfl

theorem quiet_holds {body : Body} {phase : Phase} {id : Id} (quiet : phase.quiet = true) :
    Request.holds ⟨body, phase⟩ id = false := by
  cases phase with
  | updated receivedAt refiled era => cases quiet
  | _ => cases body <;> rfl

theorem quiet_unpromoted {phase : Phase} (quiet : phase.quiet = true) (receivedAt : Time) :
    phase ≠ .promoted receivedAt := by
  intro same
  rw [same] at quiet
  cases quiet

/-- What a statement writes, and the request's next phase. -/
inductive Turns (world : World) (body : Body) (phase : Phase) : Turn → Prop where
  | look {db : Db} {next : Phase} : Kept world.db db → (∀ receivedAt, phase ≠ .promoted receivedAt) →
      next.quiet = true → (Owned world.db ⟨body, phase⟩ → Owned db ⟨body, next⟩) →
      Turns world body phase { db, phase := next }
  | file {create : MessageCreate} {retried : Bool} {file : File} {next : Phase} :
      body = .create create → phase = .upsertFile retried →
      (∀ key ∈ fileKeys world.db, key.2 ≠ create.sha256) → file.id = world.db.nextId →
      file.blobKey = messageBlobName create.sha256 → file.sha256 = create.sha256 →
      next.quiet = true →
      (∀ db, (file.id, file.sha256) ∈ fileKeys db → Owned db ⟨body, next⟩) →
      Turns world body phase
        { db := { world.db with
            files := world.db.files ++ [file], nextId := world.db.nextId + 1 }
          phase := next }
  | insert {row : Message} {era : Id} : row.id = world.db.nextId → row.status = .uploading →
      (∀ key ∈ world.rowKeys, key.2 ≠ row.audioId) → row.audioId ∈ (fileKeys world.db).map (·.1) →
      phase.quiet = true →
      (Owned world.db ⟨body, phase⟩ → Owned world.db ⟨body, .inserted row era⟩) →
      Turns world body phase
        { db := { world.db with nextId := world.db.nextId + 1 }, phase := .inserted row era }
  | commit {row : Message} {era : Id} : phase = .inserted row era →
      Turns world body phase
        { db := { world.db with messages := world.db.messages ++ [row] }
          phase := .begun (.slot row.id) none }
  | hold {id : Id} {receivedAt : Time} {refiled : Option Id} {era : Id} : body = .complete id →
      phase.quiet = true → (∀ request ∈ world.requests, request.holds id = false) →
      uploading world.db id = true →
      Turns world body phase { db := world.db, phase := .updated receivedAt refiled era }
  | promote {id : Id} {receivedAt : Time} {refiled : Option Id} {era : Id} :
      body = .complete id → phase = .updated receivedAt refiled era →
      Turns world body phase
        { db := promoteMessage id receivedAt refiled world.db
          phase := .promoted receivedAt
          promotes := [id] }
  | kick {id : Id} {receivedAt : Time} : body = .complete id → phase = .promoted receivedAt →
      Turns world body phase
        { db := world.db
          phase := .answered (.completed id .pending (some receivedAt))
          kicks := [id] }

section Advance

variable {world : World} {phase next : Phase} {turn : Turn} {now : Time}

theorem owned_complete {db : Db} {id : Id} {phase : Phase} : Owned db ⟨.complete id, phase⟩ :=
  fun _ create => nomatch create

theorem owned_create {db : Db} {body : MessageCreate} {phase : Phase}
    (owns : Owns db body.sha256 phase) : Owned db ⟨.create body, phase⟩ := by
  intro own create
  cases create
  exact owns

/-- A phase that goes on with no id. -/
theorem owns_nothing {db : Db} {sha256 : String} {phase : Phase} (file : phase.file = none)
    (slot : phase.slot = none) : Owns db sha256 phase :=
  ⟨fun id own => absurd (file.symm.trans own) (by simp),
    fun id own => absurd (slot.symm.trans own) (by simp)⟩

theorem owns_file {db : Db} {sha256 : String} {phase : Phase} {id : Id} (file : phase.file = some id)
    (slot : phase.slot = none) (stored : (id, sha256) ∈ fileKeys db) : Owns db sha256 phase := by
  refine ⟨fun other own => ?_, fun other own => absurd (slot.symm.trans own) (by simp)⟩
  cases file.symm.trans own
  exact stored

theorem owns_slot {db : Db} {sha256 : String} {phase : Phase} {id : Id} (file : phase.file = none)
    (slot : phase.slot = some id) (stored : RecordingOf db sha256 id) : Owns db sha256 phase := by
  refine ⟨fun other own => absurd (file.symm.trans own) (by simp), fun other own => ?_⟩
  cases slot.symm.trans own
  exact stored

theorem turns_goto {body : Body} (quiet : phase.quiet = true) (next_quiet : next.quiet = true)
    (owned : Owned world.db ⟨body, phase⟩ → Owned world.db ⟨body, next⟩)
    (taken : goto world next = some turn) :
    Turns world body phase turn := by
  cases taken
  exact .look (Kept.refl _) (quiet_unpromoted quiet) next_quiet owned

theorem turns_refuse {body : Body} {status : Nat} {error : String} (quiet : phase.quiet = true)
    (taken : refuse world status error = some turn) : Turns world body phase turn :=
  turns_goto quiet rfl (fun _ _ _ => owns_nothing rfl rfl) taken

theorem turns_resume {body : MessageCreate} {audio : Id} {message : Message}
    (quiet : phase.quiet = true) (file : phase.file = some audio)
    (found : messageOf world.db audio = some message)
    (taken : resume world body message = some turn) : Turns world (.create body) phase turn := by
  unfold resume at taken
  split at taken
  · refine turns_goto quiet rfl (fun owned => owned_create (owns_slot rfl rfl ?_)) taken
    exact ⟨audio, mem_messageKeys_of_find found, (owned body rfl).file audio file⟩
  · exact turns_refuse quiet taken

theorem turns_afterQuestion {body : MessageCreate} {existingFile : Option File}
    (quiet : phase.quiet = true) (taken : afterQuestion world body existingFile = some turn) :
    Turns world (.create body) phase turn := by
  unfold afterQuestion at taken
  split at taken
  · exact turns_refuse quiet taken
  · exact turns_goto quiet rfl (fun _ => owned_create (owns_nothing rfl rfl)) taken

theorem turns_create {body : MessageCreate}
    (taken : advanceCreate world body phase = some turn) : Turns world (.create body) phase turn := by
  cases phase with
  | arrived =>
    simp only [advanceCreate] at taken
    split at taken
    · exact turns_refuse rfl taken
    · exact turns_goto rfl rfl (fun _ => owned_create (owns_nothing rfl rfl)) taken
  | findFile =>
    simp only [advanceCreate] at taken
    split at taken
    · rename_i file found
      exact turns_goto rfl rfl
        (fun _ => owned_create (owns_file rfl rfl (mem_fileKeys_of_find found))) taken
    · exact turns_goto rfl rfl (fun _ => owned_create (owns_nothing rfl rfl)) taken
  | findMessage existingFile =>
    simp only [advanceCreate] at taken
    split at taken
    · rename_i message found
      exact turns_resume rfl rfl found taken
    · exact turns_goto rfl rfl (fun _ => owned_create (owns_nothing rfl rfl)) taken
  | findQuestion existingFile =>
    simp only [advanceCreate] at taken
    split at taken
    · exact turns_afterQuestion rfl taken
    split at taken
    · exact turns_refuse rfl taken
    split at taken
    · exact turns_afterQuestion rfl taken
    split at taken
    · exact turns_goto rfl rfl (fun _ => owned_create (owns_nothing rfl rfl)) taken
    · exact turns_refuse rfl taken
  | findEra question existingFile =>
    simp only [advanceCreate] at taken
    split at taken
    · exact turns_afterQuestion rfl taken
    · exact turns_refuse rfl taken
  | upsertFile retried =>
    have next_owns : ∀ db id, (id, body.sha256) ∈ fileKeys db → Owns db body.sha256
        (if retried then Phase.begun (.create id true) none else .recheck id) := by
      intro db id stored
      split
      · exact owns_file rfl rfl stored
      · exact owns_file rfl rfl stored
    have next_quiet : ∀ id, Phase.quiet
        (if retried then Phase.begun (.create id true) none else .recheck id) = true := by
      intro id
      split <;> rfl
    simp only [advanceCreate] at taken
    split at taken
    · rename_i file found
      exact turns_goto rfl (next_quiet _)
        (fun _ => owned_create (next_owns _ _ (mem_fileKeys_of_find found))) taken
    · rename_i missing
      split at taken
      · exact turns_refuse rfl taken
      · cases taken
        refine .file rfl rfl ?_ rfl rfl rfl (next_quiet _)
          fun db stored => owned_create (next_owns _ _ stored)
        intro key member
        obtain ⟨file, stored, rfl⟩ := List.mem_map.mp member
        exact Table.findUnique_eq_none.mp missing file stored
  | recheck file =>
    simp only [advanceCreate] at taken
    split at taken
    · rename_i message found
      exact turns_resume rfl rfl found taken
    · exact turns_goto rfl rfl
        (fun owned => owned_create (owns_file rfl rfl ((owned body rfl).file _ rfl))) taken
  | raced file =>
    simp only [advanceCreate] at taken
    split at taken
    · rename_i message found
      exact turns_resume rfl rfl found taken
    · exact turns_refuse rfl taken
  | _ => cases taken

theorem kept_updateFile {db : Db} {audio : Id} {sizeBytes : Int} :
    Kept db { db with
      files := Table.updateMany (fun file => file.id = audio)
        (fun file => { file with sizeBytes }) db.files } := by
  refine ⟨Table.map_updateMany (fun file : File => (file.id, file.sha256)) ?_ db.files,
    Table.map_updateMany (fun file : File => (file.id, file.blobKey)) ?_ db.files, rfl,
    Nat.le_refl _, fun _ => rfl, fun question member => ⟨question, member, rfl⟩⟩
  · intro file
    rfl
  · intro file
    rfl

theorem turns_complete {maxAudioBytes : Nat} {blob : BlobHead} {id : Id}
    (taken : advanceComplete world now maxAudioBytes blob id phase = some turn) :
    Turns world (.complete id) phase turn := by
  cases phase with
  | arrived =>
    simp only [advanceComplete] at taken
    split at taken
    · exact turns_refuse rfl taken
    split at taken
    · exact turns_refuse rfl taken
    · exact turns_goto rfl rfl (fun _ => owned_complete) taken
  | headBlob message audio =>
    simp only [advanceComplete] at taken
    split at taken
    · exact turns_refuse rfl taken
    split at taken
    · exact turns_refuse rfl taken
    split at taken
    · exact turns_refuse rfl taken
    split at taken
    · exact turns_refuse rfl taken
    · exact turns_goto rfl rfl (fun _ => owned_complete) taken
  | updateFile message audio sizeBytes =>
    simp only [advanceComplete] at taken
    by_cases gone : (world.db.file audio.id).isNone = true
    · rw [if_pos gone] at taken
      exact turns_refuse rfl taken
    · rw [if_neg gone] at taken
      cases taken
      refine .look kept_updateFile (fun _ other => nomatch other) ?_ fun _ => owned_complete
      split <;> rfl
  | promoted receivedAt =>
    cases taken
    exact .kick rfl rfl
  | reload =>
    simp only [advanceComplete] at taken
    split at taken
    · exact turns_goto rfl rfl (fun _ => owned_complete) taken
    · exact turns_refuse rfl taken
  | _ => cases taken

/-- A key that is neither stored nor in an open transaction. -/
theorem unused_audio {audio : Id} (stored : (messageOf world.db audio).isSome = false)
    (open' : (world.requests.any fun other => other.uncommitted.any (·.audioId = audio)) = false) :
    ∀ key ∈ world.rowKeys, key.2 ≠ audio := by
  intro key member
  rcases List.mem_append.mp member with kept | held
  · obtain ⟨row, there, rfl⟩ := List.mem_map.mp kept
    have missing : messageOf world.db audio = none := by simpa using stored
    exact Table.findUnique_eq_none.mp missing row there
  · obtain ⟨request, there, inside⟩ := List.mem_flatMap.mp held
    obtain ⟨row, own, rfl⟩ := List.mem_map.mp inside
    intro same
    have found : (world.requests.any fun other => other.uncommitted.any (·.audioId = audio)) = true :=
      List.any_eq_true.mpr ⟨request, there, List.any_eq_true.mpr ⟨row, own, decide_eq_true same⟩⟩
    rw [open'] at found
    cases found

theorem turns_insert {body : MessageCreate} {audio : Id} {retried : Bool} {era : Id}
    (quiet : phase.quiet = true) (file : phase.file = some audio)
    (taken : insertMessage world now body audio retried era = some turn) :
    Turns world (.create body) phase turn := by
  have owns : ∀ {next : Phase}, next.file = some audio → next.slot = none →
      Owned world.db ⟨.create body, phase⟩ → Owned world.db ⟨.create body, next⟩ :=
    fun own slot owned => owned_create (owns_file own slot ((owned body rfl).file audio file))
  unfold insertMessage at taken
  split at taken
  · split at taken
    · exact turns_refuse quiet taken
    · exact turns_goto quiet rfl (owns rfl rfl) taken
  rename_i free
  split at taken
  · cases taken
  rename_i unlocked
  split at taken
  · rename_i valid
    cases taken
    exact .insert rfl rfl (unused_audio (by simpa using free) (by simpa using unlocked))
      (file_mem_keys valid.1) quiet (owns rfl rfl)
  split at taken
  · exact turns_refuse quiet taken
  · exact turns_goto quiet rfl (fun _ => owned_create (owns_nothing rfl rfl)) taken

theorem turns_transaction {body : Body}
    (taken : advanceTransaction world now body phase = some turn) : Turns world body phase turn := by
  have through : ∀ {next : Phase}, phase.quiet = true → next.quiet = true →
      next.file = phase.file → next.slot = phase.slot → goto world next = some turn →
        Turns world body phase turn := by
    intro next quiet next_quiet file slot taken
    refine turns_goto quiet next_quiet (fun owned create same => ?_) taken
    obtain ⟨files, slots⟩ := owned create same
    exact ⟨fun id here => files id (file.symm.trans here),
      fun id here => slots id (slot.symm.trans here)⟩
  cases phase with
  | begun write preferred =>
    simp only [advanceTransaction] at taken
    split at taken
    · exact turns_refuse rfl taken
    · exact through rfl rfl (by rfl) (by rfl) taken
  | locking write attempt candidate =>
    simp only [advanceTransaction] at taken
    split at taken
    · exact through rfl rfl (by rfl) (by rfl) taken
    · exact through rfl rfl (by rfl) (by rfl) taken
  | reopening write attempt candidate =>
    simp only [advanceTransaction] at taken
    split at taken
    · exact turns_refuse rfl taken
    · exact through rfl rfl (by rfl) (by rfl) taken
  | locked write era =>
    cases write with
    | create audioId retried =>
      cases body with
      | create body => exact turns_insert rfl rfl taken
      | complete id => cases taken
    | slot id =>
      cases body with
      | complete own => cases taken
      | create body =>
        simp only [advanceTransaction] at taken
        split at taken
        · rename_i other message same found
          cases same
          split at taken
          · exact turns_goto rfl rfl
              (fun owned => owned_create (owns_slot rfl rfl ((owned body rfl).slot id rfl))) taken
          · exact turns_refuse rfl taken
        · exact turns_refuse rfl taken
        · cases taken
    | promote receivedAt filed =>
      cases body with
      | create body => cases taken
      | complete id =>
        simp only [advanceTransaction] at taken
        split at taken
        · cases taken
        rename_i unlocked
        split at taken
        · rename_i flying
          cases taken
          refine .hold rfl rfl ?_ flying
          intro request member
          by_contra held
          exact unlocked (List.any_eq_true.mpr ⟨request, member, by simpa using held⟩)
        · exact turns_goto rfl rfl (fun _ => owned_complete) taken
  | inserted row era =>
    cases taken
    exact .commit rfl
  | updated receivedAt refiled era =>
    cases body with
    | create body => cases taken
    | complete id =>
      cases taken
      exact .promote rfl rfl
  | _ => cases taken

theorem either {α : Type*} {first second : Option α} {value : α}
    (taken : (first <|> second) = some value) : first = some value ∨ second = some value := by
  cases first with
  | none => exact .inr taken
  | some other => exact .inl taken

theorem turns_advance {maxAudioBytes : Nat} {blob : BlobHead} {request : Request}
    (taken : advance world now maxAudioBytes blob request = some turn) :
    Turns world request.body request.phase turn := by
  obtain ⟨body, phase⟩ := request
  simp only [advance] at taken
  cases body with
  | create body =>
    rcases either taken with first | second
    · exact turns_create first
    · exact turns_transaction second
  | complete id =>
    rcases either taken with first | second
    · exact turns_complete first
    · exact turns_transaction second

end Advance

/-! ## Steps -/

/-- The request at its place takes its turn. -/
structure Moved (world : World) (place : Nat) (request : Request) (turn : Turn) (after : World) :
    Prop where
  found : world.requests[place]? = some request
  requests : after.requests = world.requests.set place { request with phase := turn.phase }
  db : after.db = turn.db
  promotions : after.promotions = world.promotions ++ turn.promotes.map (place, ·)
  kicks : after.kicks = world.kicks ++ turn.kicks.map (place, ·)
  notified : after.notified = world.notified ++ turn.kicks.map (place, ·)

/-- A step is a new request, a turn of a request, or a rollover. -/
theorem step_cases {maxAudioBytes : Nat} {world after : World} {action : Action}
    (taken : step maxAudioBytes world action = some after) :
    (∃ body, after = { world with requests := world.requests ++ [{ body }] }) ∨
      (∃ place request turn, Turns world request.body request.phase turn ∧
        Moved world place request turn after ∧
        ((∃ now blob, action = .advance place now blob ∧
            advance world now maxAudioBytes blob request = some turn) ∨
          turn = { db := world.db, phase := .answered (.refused 500 "internal") })) ∨
      ∃ db, Kept world.db db ∧ after = { world with db } := by
  cases action with
  | arrive body => exact .inl ⟨body, (Option.some.inj taken).symm⟩
  | advance place now blob =>
    obtain ⟨request, found, taken⟩ := Option.bind_eq_some_iff.mp taken
    obtain ⟨turn, moved, taken⟩ := Option.bind_eq_some_iff.mp taken
    cases taken
    exact .inr (.inl ⟨place, request, turn,
      turns_advance moved,
      ⟨found, rfl, rfl, rfl, rfl, rfl⟩, .inl ⟨now, blob, rfl, moved⟩⟩)
  | fail place =>
    obtain ⟨request, found, taken⟩ := Option.bind_eq_some_iff.mp taken
    split at taken
    · cases taken
    · cases taken
    · rename_i unpromoted _
      cases taken
      refine .inr (.inl ⟨place, request,
        { db := world.db, phase := .answered (.refused 500 "internal") },
        .look (Kept.refl _) (fun receivedAt => unpromoted receivedAt) rfl
          fun _ _ _ => owns_nothing rfl rfl,
        ⟨found, rfl, rfl, ?_, ?_, ?_⟩, .inr rfl⟩)
      · exact (List.append_nil _).symm
      · exact (List.append_nil _).symm
      · exact (List.append_nil _).symm
  | start data copyQuestions now startedById =>
    simp only [step] at taken
    split at taken
    · cases taken
      exact .inr (.inr ⟨_, kept_start data copyQuestions now startedById world.db, rfl⟩)
    · cases taken
  | finish id now endedById =>
    simp only [step] at taken
    split at taken
    · obtain ⟨db, ended, taken⟩ := Option.map_eq_some_iff.mp taken
      cases taken
      exact .inr (.inr ⟨db, kept_end ended, rfl⟩)
    · cases taken

/-! ## What a turn keeps -/

section Turns

variable {world after : World} {body : Body} {phase : Phase} {turn : Turn}

/-- Keys are never taken back. -/
theorem Turns.grown (turns : Turns world body phase turn) :
    fileKeys world.db ⊆ fileKeys turn.db ∧ messageKeys world.db ⊆ messageKeys turn.db := by
  cases turns with
  | look kept _ _ _ =>
    exact ⟨fun key member => kept.files ▸ member, fun key member => kept.messages ▸ member⟩
  | file _ _ _ _ _ _ _ _ =>
    refine ⟨fun key member => ?_, fun key member => member⟩
    simpa [fileKeys] using Or.inl (List.mem_map.mp member)
  | insert _ _ _ _ _ _ => exact ⟨fun key member => member, fun key member => member⟩
  | commit _ =>
    refine ⟨fun key member => member, fun key member => ?_⟩
    simpa [messageKeys] using Or.inl (List.mem_map.mp member)
  | hold _ _ _ _ => exact ⟨fun key member => member, fun key member => member⟩
  | promote _ _ =>
    refine ⟨fun key member => member, fun key member => ?_⟩
    exact (messageKeys_promoteMessage _ _ _ _).symm ▸ member
  | kick _ _ => exact ⟨fun key member => member, fun key member => member⟩

theorem fileKeys_ids (db : Db) : (fileKeys db).map (·.1) = (blobKeys db).map (·.1) := by
  simp [fileKeys, blobKeys]

theorem Turns.nextId (turns : Turns world body phase turn) :
    world.db.nextId ≤ turn.db.nextId := by
  cases turns with
  | look kept _ _ _ => exact kept.nextId
  | file _ _ _ _ _ _ _ _ => exact Nat.le_succ _
  | insert _ _ _ _ _ _ => exact Nat.le_succ _
  | commit _ => exact Nat.le_refl _
  | hold _ _ _ _ => exact Nat.le_refl _
  | promote _ _ => exact Nat.le_refl _
  | kick _ _ => exact Nat.le_refl _

/-- A turn brings a file only where there is none of the recording. -/
theorem Turns.files (turns : Turns world body phase turn) :
    blobKeys turn.db = blobKeys world.db ∨ ∃ create retried, body = .create create ∧
      phase = .upsertFile retried ∧ (∀ key ∈ fileKeys world.db, key.2 ≠ create.sha256) ∧
        blobKeys turn.db = blobKeys world.db ++ [(world.db.nextId, messageBlobName create.sha256)] ∧
          turn.db.nextId = world.db.nextId + 1 := by
  cases turns with
  | look kept _ _ _ => exact .inl kept.blobs
  | @file create retried file next made left fresh id blobKey _ _ _ =>
    refine .inr ⟨create, retried, made, left, fresh, ?_, rfl⟩
    simp [blobKeys, id, blobKey]
  | insert _ _ _ _ _ _ => exact .inl rfl
  | commit _ => exact .inl rfl
  | hold _ _ _ _ => exact .inl rfl
  | promote _ _ => exact .inl rfl
  | kick _ _ => exact .inl rfl

/-- A turn brings the message its request has inserted, and no other. -/
theorem Turns.messages (turns : Turns world body phase turn) :
    messageKeys turn.db = messageKeys world.db ∨ ∃ row era, phase = .inserted row era ∧
      turn.db.messages = world.db.messages ++ [row] := by
  cases turns with
  | look kept _ _ _ => exact .inl kept.messages
  | file _ _ _ _ _ _ _ _ => exact .inl rfl
  | insert _ _ _ _ _ _ => exact .inl rfl
  | @commit row era left => exact .inr ⟨row, era, left, rfl⟩
  | hold _ _ _ _ => exact .inl rfl
  | promote _ _ => exact .inl (messageKeys_promoteMessage _ _ _ _)
  | kick _ _ => exact .inl rfl

theorem Turns.questions (turns : Turns world body phase turn) :
    ∀ question ∈ turn.db.questions, ∃ other ∈ world.db.questions,
      other.audioId = question.audioId := by
  cases turns with
  | look kept _ _ _ => exact kept.questions
  | file _ _ _ _ _ _ _ _ => exact fun question member => ⟨question, member, rfl⟩
  | insert _ _ _ _ _ _ => exact fun question member => ⟨question, member, rfl⟩
  | commit _ => exact fun question member => ⟨question, member, rfl⟩
  | hold _ _ _ _ => exact fun question member => ⟨question, member, rfl⟩
  | promote _ _ => exact fun question member => ⟨question, member, rfl⟩
  | kick _ _ => exact fun question member => ⟨question, member, rfl⟩

theorem Turns.uncommitted (turns : Turns world body phase turn) :
    ∀ row ∈ Request.uncommitted ⟨body, turn.phase⟩,
      row.id = world.db.nextId ∧ row.status = .uploading := by
  have idle : ∀ {next : Phase}, next.quiet = true → ∀ row ∈ Request.uncommitted ⟨body, next⟩,
      row.id = world.db.nextId ∧ row.status = .uploading := by
    intro next quiet row member
    have none : Request.uncommittedKeys ⟨body, next⟩ = [] := quiet_uncommitted quiet
    rw [Request.uncommittedKeys, List.map_eq_nil_iff] at none
    rw [none] at member
    cases member
  cases turns with
  | look _ _ quiet _ => exact idle quiet
  | file _ _ _ _ _ _ quiet _ => exact idle quiet
  | insert fresh flying _ _ _ _ =>
    intro row member
    cases List.mem_singleton.mp member
    exact ⟨fresh, flying⟩
  | commit _ => exact idle rfl
  | hold _ _ _ _ => exact fun row member => nomatch member
  | promote _ _ => exact fun row member => nomatch member
  | kick _ _ => exact idle rfl

/-- What a turn leaves in flight, of the messages there are. -/
theorem Turns.inFlight (turns : Turns world body phase turn) {id : Id}
    (known : id ∈ (messageKeys world.db).map (·.1)) :
    uploading turn.db id = (uploading world.db id && decide (id ∉ turn.promotes)) := by
  have same : ∀ {db : Db}, db.messages = world.db.messages →
      uploading db id = (uploading world.db id && decide (id ∉ ([] : List Id))) := by
    intro db messages
    simp [uploading, Db.message, messages]
  cases turns with
  | look kept _ _ _ => simp [kept.uploading id]
  | file _ _ _ _ _ _ _ _ => exact same rfl
  | insert _ _ _ _ _ _ => exact same rfl
  | @commit row era _ =>
    obtain ⟨stored, found⟩ := message_mem_keys known
    have still : Table.findUnique (·.id) id (world.db.messages ++ [row]) = some stored := by
      rw [Table.findUnique_append_single]
      exact congrArg (fun found : Option Message => found.or _) found
    simp only [uploading, Db.message] at found ⊢
    rw [still, found]
    simp
  | hold _ _ _ _ => exact same rfl
  | promote _ _ => simp [uploading_promoteMessage]
  | kick _ _ => exact same rfl

theorem known_of_uploading {db : Db} {id : Id} (flying : uploading db id = true) :
    id ∈ (messageKeys db).map (·.1) := by
  unfold uploading at flying
  cases found : db.message id with
  | none =>
    rw [found] at flying
    cases flying
  | some row => exact mem_keys_message found

/-- What a turn does to the promotions: nothing, a promotion, or a kick. -/
inductive Effect (body : Body) (phase : Phase) (turn : Turn) : Prop where
  | none : turn.promotes = [] → turn.kicks = [] → (∀ receivedAt, phase ≠ .promoted receivedAt) →
      (∀ receivedAt, turn.phase ≠ .promoted receivedAt) → Effect body phase turn
  | promote {id : Id} {receivedAt : Time} : body = .complete id →
      Request.holds ⟨body, phase⟩ id = true → (∀ receivedAt, phase ≠ .promoted receivedAt) →
      turn.promotes = [id] → turn.kicks = [] → turn.phase = .promoted receivedAt →
      Effect body phase turn
  | kick {id : Id} {receivedAt : Time} : body = .complete id → phase = .promoted receivedAt →
      turn.promotes = [] → turn.kicks = [id] → (∀ receivedAt, turn.phase ≠ .promoted receivedAt) →
      Effect body phase turn

theorem Turns.effect (turns : Turns world body phase turn) : Effect body phase turn := by
  cases turns with
  | look _ unpromoted quiet _ => exact .none rfl rfl unpromoted (quiet_unpromoted quiet)
  | file _ left _ _ _ _ next_quiet _ =>
    exact .none rfl rfl (fun _ other => nomatch left.symm.trans other) (quiet_unpromoted next_quiet)
  | insert _ _ _ _ quiet _ =>
    exact .none rfl rfl (quiet_unpromoted quiet) (fun _ other => nomatch other)
  | commit left =>
    exact .none rfl rfl (fun _ other => nomatch left.symm.trans other) (fun _ other => nomatch other)
  | hold _ quiet _ _ =>
    exact .none rfl rfl (quiet_unpromoted quiet) (fun _ other => nomatch other)
  | promote complete left =>
    refine .promote complete ?_ (fun _ other => nomatch left.symm.trans other) rfl rfl rfl
    simp [Request.holds, complete, left]
  | kick complete left => exact .kick complete left rfl rfl (fun _ other => nomatch other)

/-- The keys of the rows, those of one request apart. -/
theorem Moved.rowKeys {place : Nat} {request : Request} (moved : Moved world place request turn after) :
    ∃ rest, world.rowKeys.Perm (messageKeys world.db ++ (request.uncommittedKeys ++ rest)) ∧
      after.rowKeys.Perm (messageKeys turn.db ++
        (Request.uncommittedKeys { request with phase := turn.phase } ++ rest)) := by
  obtain ⟨inside, here⟩ := List.getElem?_eq_some_iff.mp moved.found
  refine ⟨(world.requests.eraseIdx place).flatMap Request.uncommittedKeys, ?_, ?_⟩
  · have parts := (List.getElem_cons_eraseIdx_perm inside).symm
    rw [here] at parts
    exact (parts.flatMap_right Request.uncommittedKeys).append_left _
  · have parts := List.set_perm_cons_eraseIdx inside { request with phase := turn.phase }
    unfold World.rowKeys
    rw [moved.db, moved.requests]
    exact (parts.flatMap_right Request.uncommittedKeys).append_left _

theorem Moved.mine {place : Nat} {request : Request} (moved : Moved world place request turn after) :
    after.requests[place]? = some { request with phase := turn.phase } := by
  obtain ⟨inside, -⟩ := List.getElem?_eq_some_iff.mp moved.found
  rw [moved.requests]
  exact List.getElem?_set_self inside

theorem Moved.theirs {place other : Nat} {request : Request}
    (moved : Moved world place request turn after) (apart : other ≠ place) :
    after.requests[other]? = world.requests[other]? := by
  rw [moved.requests]
  exact List.getElem?_set_ne (Ne.symm apart)

/-- A turn takes rows back, or adds one whose keys are new. -/
theorem Turns.rows {place : Nat} {request : Request} (turns : Turns world request.body request.phase turn)
    (moved : Moved world place request turn after) :
    (after.rowKeys.Subperm world.rowKeys ∧ world.db.nextId ≤ turn.db.nextId) ∨
      ∃ key, after.rowKeys.Perm (key :: world.rowKeys) ∧ key.1 = world.db.nextId ∧
        turn.db.nextId = world.db.nextId + 1 ∧ (∀ other ∈ world.rowKeys, other.2 ≠ key.2) ∧
          key.2 ∈ (fileKeys world.db).map (·.1) := by
  obtain ⟨rest, before, later⟩ := moved.rowKeys
  have fewer : messageKeys turn.db = messageKeys world.db →
      Request.uncommittedKeys { request with phase := turn.phase } = [] →
        after.rowKeys.Subperm world.rowKeys := by
    intro same none
    rw [same, none, List.nil_append] at later
    exact later.subperm.trans (List.Sublist.subperm
      ((List.sublist_append_right _ rest).append_left _) |>.trans before.symm.subperm)
  cases turns with
  | look kept _ quiet _ => exact .inl ⟨fewer kept.messages (quiet_uncommitted quiet), kept.nextId⟩
  | file _ _ _ _ _ _ quiet _ => exact .inl ⟨fewer rfl (quiet_uncommitted quiet), Nat.le_succ _⟩
  | @insert row era fresh _ free stored quiet _ =>
    refine .inr ⟨(row.id, row.audioId), ?_, fresh, rfl, free, stored⟩
    have none : request.uncommittedKeys = [] := quiet_uncommitted quiet
    rw [none, List.nil_append] at before
    refine later.trans (List.perm_middle.trans (List.Perm.cons _ before.symm))
  | @commit row era left =>
    have own : request.uncommittedKeys = [(row.id, row.audioId)] := by
      simp [Request.uncommittedKeys, Request.uncommitted, left]
    refine .inl ⟨List.Perm.subperm (later.trans (.trans (.of_eq ?_) before.symm)), Nat.le_refl _⟩
    rw [own]
    simp [messageKeys, Request.uncommittedKeys, Request.uncommitted]
  | hold _ _ _ _ => exact .inl ⟨fewer rfl rfl, Nat.le_refl _⟩
  | promote _ _ => exact .inl ⟨fewer (messageKeys_promoteMessage _ _ _ _) rfl, Nat.le_refl _⟩
  | kick _ _ => exact .inl ⟨fewer rfl rfl, Nat.le_refl _⟩

/-- The unique columns of the messages, open transactions included. -/
structure Rows (world : World) : Prop where
  ids : (world.rowKeys.map (·.1)).Nodup
  recordings : (world.rowKeys.map (·.2)).Nodup
  used : ∀ key ∈ world.rowKeys, key.1 < world.db.nextId

theorem Rows.messages (rows : Rows world) : (world.db.messages.map (·.id)).Nodup := by
  have stored : (messageKeys world.db).Sublist world.rowKeys := List.sublist_append_left _ _
  have distinct := (stored.map Prod.fst).nodup rows.ids
  rwa [messageKeys, List.map_map] at distinct

/-- No open transaction has inserted the id of a stored message. -/
theorem Rows.apart (rows : Rows world) {request : Request} (member : request ∈ world.requests)
    {key : Id × Id} (own : key ∈ request.uncommittedKeys) :
    key.1 ∉ (messageKeys world.db).map (·.1) := by
  intro stored
  have distinct := rows.ids
  rw [World.rowKeys, List.map_append] at distinct
  exact (List.nodup_append.mp distinct).2.2 _ stored _
    (List.mem_map.mpr ⟨key, List.mem_flatMap.mpr ⟨request, member, own⟩, rfl⟩) rfl

/-- Rows that are taken back leave the others distinct. -/
theorem Rows.fewer (rows : Rows world) (fewer : after.rowKeys.Subperm world.rowKeys)
    (nextId : world.db.nextId ≤ after.db.nextId) : Rows after := by
  obtain ⟨keys, same, fewer⟩ := fewer
  have distinct : ∀ column : Id × Id → Id, (world.rowKeys.map column).Nodup →
      (after.rowKeys.map column).Nodup := fun column distinct =>
    (same.map column).nodup_iff.mp ((fewer.map column).nodup distinct)
  refine ⟨distinct _ rows.ids, distinct _ rows.recordings, fun key member => ?_⟩
  exact Nat.lt_of_lt_of_le (rows.used key (fewer.subset (same.mem_iff.mpr member))) nextId

theorem Rows.moved {place : Nat} {request : Request} (rows : Rows world)
    (turns : Turns world request.body request.phase turn)
    (moved : Moved world place request turn after) : Rows after := by
  rcases turns.rows moved with ⟨fewer, grown⟩ | ⟨key, one, fresh, grown, free, -⟩
  · exact rows.fewer fewer (moved.db ▸ grown)
  · refine ⟨?_, ?_, ?_⟩
    · refine (one.map _).nodup_iff.mpr (List.nodup_cons.mpr ⟨?_, rows.ids⟩)
      intro member
      obtain ⟨other, there, same⟩ := List.mem_map.mp member
      exact Nat.ne_of_lt (rows.used other there) (same.trans fresh)
    · refine (one.map _).nodup_iff.mpr (List.nodup_cons.mpr ⟨?_, rows.recordings⟩)
      intro member
      obtain ⟨other, there, same⟩ := List.mem_map.mp member
      exact free other there same
    · intro other member
      rw [moved.db, grown]
      rcases List.mem_cons.mp (one.mem_iff.mp member) with rfl | old
      · exact fresh ▸ Nat.lt_succ_self _
      · exact Nat.lt_succ_of_lt (rows.used other old)

theorem Rows.arrived {body : Body} (rows : Rows world) :
    Rows { world with requests := world.requests ++ [{ body }] } := by
  refine rows.fewer (List.Perm.subperm (.of_eq ?_)) (Nat.le_refl _)
  simp [World.rowKeys, Request.uncommittedKeys, Request.uncommitted]

theorem Rows.rolledOver {db : Db} (rows : Rows world) (kept : Kept world.db db) :
    Rows { world with db } := by
  refine rows.fewer (List.Perm.subperm (.of_eq ?_)) kept.nextId
  unfold World.rowKeys
  rw [kept.messages]

end Turns

end BoothOperator.Uploads
