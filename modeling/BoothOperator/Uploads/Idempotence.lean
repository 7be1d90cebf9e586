import BoothOperator.Uploads.Turns

/-! Uploads are idempotent: whatever the order of their statements, the requests
for one recording end up with one message, which leaves `uploading` once, and
the request that moved it kicks the pipeline and notifies of it. -/
namespace BoothOperator.Uploads

open BoothOperator.Schema
open BoothOperator.Run

/-- The unique columns of the tables are unique, and nothing is under way. -/
structure Initial (world : World) : Prop where
  hashes : (world.db.files.map (·.sha256)).Nodup
  ids : (world.db.messages.map (·.id)).Nodup
  recordings : (world.db.messages.map (·.audioId)).Nodup
  used : ∀ row ∈ world.db.messages, row.id < world.db.nextId
  requests : world.requests = []
  promotions : world.promotions = []
  kicks : world.kicks = []
  notified : world.notified = []

/-- No message is deleted or goes back to `uploading`, and one that leaves it
leaves by the commit of a completion. -/
structure Leaves (before : World) (action : Action) (after : World) : Prop where
  left : ∀ id, uploading before.db id = true → uploading after.db id = true ∨
    ∃ request now blob, action = .advance request now blob ∧
      after.promotions = before.promotions ++ [(request, id)]
  stays : ∀ id row, before.db.message id = some row → ∃ row', after.db.message id = some row' ∧
    (row.status ≠ .uploading → row'.status ≠ .uploading)

structure Idempotent (world : World) : Prop where
  /-- One message for a recording, and one row for a message. -/
  one : ∀ sha256 id other, RecordingOf world.db sha256 id → RecordingOf world.db sha256 other →
    id = other
  rows : (world.db.messages.map (·.id)).Nodup
  /-- Every `201` of a recording names its message. -/
  created : ∀ request ∈ world.requests, ∀ body id, request.body = .create body →
    request.phase = .answered (.created id) → RecordingOf world.db body.sha256 id
  once : (world.promotions.map (·.2)).Nodup
  landed : ∀ promotion ∈ world.promotions, uploading world.db promotion.2 = false
  /-- Only the request that moved a message out of `uploading` kicks, and it does so
  before it answers. -/
  kicked : (world.kicks.map (·.2)).Nodup
  moved : ∀ kick ∈ world.kicks, kick ∈ world.promotions
  kicks : ∀ promotion ∈ world.promotions, ∃ request,
    world.requests[promotion.1]? = some request ∧ request.body = .complete promotion.2 ∧
      (promotion ∈ world.kicks ∨ ∃ receivedAt, request.phase = .promoted receivedAt)
  notified : world.notified = world.kicks

/-! ## Keys -/

section Keys

variable {world after : World} {body : Body} {phase : Phase} {turn : Turn}

theorem RecordingOf.mono {before after : Db} {sha256 : String} {id : Id}
    (files : fileKeys before ⊆ fileKeys after) (messages : messageKeys before ⊆ messageKeys after)
    (recording : RecordingOf before sha256 id) : RecordingOf after sha256 id := by
  obtain ⟨audio, message, file⟩ := recording
  exact ⟨audio, messages message, files file⟩

theorem Owned.mono {before after : Db} {request : Request}
    (files : fileKeys before ⊆ fileKeys after) (messages : messageKeys before ⊆ messageKeys after)
    (owned : Owned before request) : Owned after request := by
  intro body create
  obtain ⟨file, slot⟩ := owned body create
  exact ⟨fun id own => files (file id own), fun id own => (slot id own).mono files messages⟩

theorem Turns.owned (turns : Turns world body phase turn) (before : Owned world.db ⟨body, phase⟩) :
    Owned turn.db ⟨body, turn.phase⟩ := by
  cases turns with
  | look _ _ _ owned => exact owned before
  | file _ _ _ _ _ _ _ owned =>
    refine owned _ ?_
    simp [fileKeys]
  | insert _ _ _ _ _ owned =>
    intro create same
    obtain ⟨file, slot⟩ := owned before create same
    exact ⟨file, slot⟩
  | @commit row era left =>
    intro create same
    refine owns_slot rfl rfl ⟨row.audioId, ?_, (before create same).file _ (by rw [left]; rfl)⟩
    simp [messageKeys]
  | hold complete _ _ _ =>
    cases complete
    exact owned_complete
  | promote complete _ =>
    cases complete
    exact owned_complete
  | kick complete _ =>
    cases complete
    exact owned_complete

/-- What the unique columns and the requests' own ids say of each other. -/
structure Keyed (world : World) : Prop where
  hashes : ((fileKeys world.db).map (·.2)).Nodup
  rows : Rows world
  owned : ∀ request ∈ world.requests, Owned world.db request

theorem Turns.hashes (turns : Turns world body phase turn) (keyed : Keyed world) :
    ((fileKeys turn.db).map (·.2)).Nodup := by
  cases turns with
  | look kept _ _ _ => exact kept.files ▸ keyed.hashes
  | @file create retried file next _ _ fresh _ _ named _ _ =>
    have appended : fileKeys { world.db with
        files := world.db.files ++ [file], nextId := world.db.nextId + 1 } =
          fileKeys world.db ++ [(file.id, file.sha256)] := by
      simp [fileKeys]
    rw [appended, List.map_append]
    refine List.nodup_append.mpr ⟨keyed.hashes, List.nodup_singleton _, ?_⟩
    intro used member other new
    obtain ⟨key, there, rfl⟩ := List.mem_map.mp member
    cases List.mem_singleton.mp new
    exact named ▸ fresh key there
  | insert _ _ _ _ _ _ => exact keyed.hashes
  | commit _ => exact keyed.hashes
  | hold _ _ _ _ => exact keyed.hashes
  | promote _ _ => exact keyed.hashes
  | kick _ _ => exact keyed.hashes

theorem Keyed.moved {place : Nat} {request : Request} (keyed : Keyed world)
    (turns : Turns world request.body request.phase turn)
    (moved : Moved world place request turn after) : Keyed after := by
  obtain ⟨files, messages⟩ := turns.grown
  refine ⟨moved.db ▸ turns.hashes keyed, keyed.rows.moved turns moved, fun other member => ?_⟩
  rw [moved.requests] at member
  rw [moved.db]
  rcases List.mem_or_eq_of_mem_set member with old | rfl
  · exact (keyed.owned other old).mono files messages
  · exact turns.owned (keyed.owned request (List.mem_of_getElem? moved.found))

theorem Keyed.arrived {body : Body} (keyed : Keyed world) :
    Keyed { world with requests := world.requests ++ [{ body }] } := by
  refine ⟨keyed.hashes, keyed.rows.arrived, fun request member => ?_⟩
  rcases List.mem_append.mp member with old | new
  · exact keyed.owned request old
  · cases List.mem_singleton.mp new
    exact fun _ _ => owns_nothing rfl rfl

theorem Keyed.rolledOver {db : Db} (keyed : Keyed world) (kept : Kept world.db db) :
    Keyed { world with db } := by
  refine ⟨kept.files ▸ keyed.hashes, keyed.rows.rolledOver kept, fun request member => ?_⟩
  exact (keyed.owned request member).mono (fun key there => kept.files ▸ there)
    (fun key there => kept.messages ▸ there)

/-- One message for a recording. -/
theorem Keyed.one (keyed : Keyed world) {sha256 : String} {id other : Id}
    (first : RecordingOf world.db sha256 id) (second : RecordingOf world.db sha256 other) :
    id = other := by
  obtain ⟨audio, message, file⟩ := first
  obtain ⟨audio', message', file'⟩ := second
  have audio_eq : (audio, sha256) = (audio', sha256) :=
    List.inj_on_of_nodup_map keyed.hashes file file' rfl
  have stored : ∀ key ∈ messageKeys world.db, key ∈ world.rowKeys :=
    fun key member => List.mem_append_left _ member
  have message_eq : (id, audio) = (other, audio') :=
    List.inj_on_of_nodup_map keyed.rows.recordings (stored _ message) (stored _ message')
      (congrArg Prod.fst audio_eq)
  exact congrArg Prod.fst message_eq

end Keys

/-! ## Promotions -/

section Promotions

variable {world after : World} {body : Body} {phase : Phase} {turn : Turn}

/-- A row is held by one request at most, and while it is, it is in flight. -/
structure Held (world : World) : Prop where
  one : ∀ {place other : Nat} {request rival : Request} {id : Id},
    world.requests[place]? = some request → world.requests[other]? = some rival →
      request.holds id = true → rival.holds id = true → place = other
  flying : ∀ request ∈ world.requests, ∀ id, request.holds id = true → uploading world.db id = true

/-- A request that comes to hold a row is the first to. -/
theorem Turns.holds (turns : Turns world body phase turn) {id : Id}
    (holds : Request.holds ⟨body, turn.phase⟩ id = true) :
    (∀ request ∈ world.requests, request.holds id = false) ∧ uploading turn.db id = true := by
  have idle : ∀ {next : Phase}, next.quiet = true → Request.holds ⟨body, next⟩ id ≠ true :=
    fun quiet held => nomatch (quiet_holds quiet).symm.trans held
  cases turns with
  | look _ _ quiet _ => exact absurd holds (idle quiet)
  | file _ _ _ _ _ _ quiet _ => exact absurd holds (idle quiet)
  | insert _ _ _ _ _ _ => cases body <;> cases holds
  | commit _ => exact absurd holds (idle rfl)
  | hold complete _ free flying =>
    cases complete
    cases of_decide_eq_true holds
    exact ⟨free, flying⟩
  | promote complete _ =>
    cases complete
    cases holds
  | kick _ _ => exact absurd holds (idle rfl)

theorem Held.moved {place : Nat} {request : Request} (held : Held world)
    (turns : Turns world request.body request.phase turn)
    (moved : Moved world place request turn after) : Held after := by
  refine ⟨?_, ?_⟩
  · intro first second one two id found found' holds holds'
    by_cases own : first = place
    · by_cases own' : second = place
      · exact own.trans own'.symm
      · cases Option.some.inj (moved.mine.symm.trans (own ▸ found))
        have free := (turns.holds holds).1 two (List.mem_of_getElem? (moved.theirs own' ▸ found'))
        exact nomatch free.symm.trans holds'
    · by_cases own' : second = place
      · cases Option.some.inj (moved.mine.symm.trans (own' ▸ found'))
        have free := (turns.holds holds').1 one (List.mem_of_getElem? (moved.theirs own ▸ found))
        exact nomatch free.symm.trans holds
      · exact held.one (moved.theirs own ▸ found) (moved.theirs own' ▸ found') holds holds'
  · intro one member id holds
    obtain ⟨first, found⟩ := List.getElem?_of_mem member
    rw [moved.db]
    by_cases own : first = place
    · cases Option.some.inj (moved.mine.symm.trans (own ▸ found))
      exact (turns.holds holds).2
    · rw [moved.theirs own] at found
      have flying := held.flying one (List.mem_of_getElem? found) id holds
      rw [turns.inFlight (known_of_uploading flying), flying, Bool.true_and]
      refine decide_eq_true fun promoted => ?_
      cases turns.effect with
      | none quiet _ _ _ =>
        rw [quiet] at promoted
        cases promoted
      | promote _ holds' _ promotes _ _ =>
        rw [promotes] at promoted
        cases List.mem_singleton.mp promoted
        exact own (held.one found moved.found holds holds')
      | kick _ _ quiet _ _ =>
        rw [quiet] at promoted
        cases promoted

theorem Held.arrived {body : Body} (held : Held world) :
    Held { world with requests := world.requests ++ [{ body }] } := by
  have old : ∀ {place : Nat} {request : Request} {id : Id},
      (world.requests ++ [({ body } : Request)])[place]? = some request → request.holds id = true →
        world.requests[place]? = some request := by
    intro place request id found holds
    rcases List.mem_append.mp (List.mem_of_getElem? found) with there | new
    · by_cases inside : place < world.requests.length
      · rwa [List.getElem?_append_left inside] at found
      · rw [List.getElem?_append_right (Nat.le_of_not_lt inside)] at found
        have new := List.mem_singleton.mp (List.mem_of_getElem? found)
        rw [new] at holds
        cases body <;> cases holds
    · cases List.mem_singleton.mp new
      cases body <;> cases holds
  refine ⟨?_, ?_⟩
  · intro place other request rival id found found' holds holds'
    exact held.one (old found holds) (old found' holds') holds holds'
  · intro request member id holds
    obtain ⟨place, found⟩ := List.getElem?_of_mem member
    exact held.flying request (List.mem_of_getElem? (old found holds)) id holds

theorem Held.rolledOver {db : Db} (held : Held world) (kept : Kept world.db db) :
    Held { world with db } :=
  ⟨held.one, fun request member id holds =>
    (kept.uploading id).trans (held.flying request member id holds)⟩

/-- The promotions, and the kicks that follow them, each by its own request. -/
structure Logged (world : World) : Prop where
  once : (world.promotions.map (·.2)).Nodup
  landed : ∀ promotion ∈ world.promotions, promotion.2 ∈ (messageKeys world.db).map (·.1) ∧
    uploading world.db promotion.2 = false
  waiting : ∀ place request receivedAt id, world.requests[place]? = some request →
    request.body = .complete id → request.phase = .promoted receivedAt →
      (place, id) ∈ world.promotions ∧ (place, id) ∉ world.kicks
  kicked : world.kicks.Nodup
  moved : ∀ kick ∈ world.kicks, kick ∈ world.promotions
  kicks : ∀ promotion ∈ world.promotions, ∃ request,
    world.requests[promotion.1]? = some request ∧ request.body = .complete promotion.2 ∧
      (promotion ∈ world.kicks ∨ ∃ receivedAt, request.phase = .promoted receivedAt)
  notified : world.notified = world.kicks

/-- The promotions' messages stay known and landed. -/
theorem Logged.still_landed {place : Nat} {request : Request} (logged : Logged world)
    (turns : Turns world request.body request.phase turn)
    (moved : Moved world place request turn after) {promotion : Nat × Id}
    (member : promotion ∈ world.promotions) :
    promotion.2 ∈ (messageKeys after.db).map (·.1) ∧ uploading after.db promotion.2 = false := by
  obtain ⟨known, landed⟩ := logged.landed promotion member
  rw [moved.db]
  refine ⟨List.map_subset _ turns.grown.2 known, ?_⟩
  rw [turns.inFlight known, landed, Bool.false_and]

/-- A request other than the one that took its turn waits as it did. -/
theorem Logged.others {place : Nat} {request : Request} (logged : Logged world)
    (moved : Moved world place request turn after) {other : Nat} (apart : other ≠ place)
    {rival : Request} {receivedAt : Time} {id : Id} (found : after.requests[other]? = some rival)
    (complete : rival.body = .complete id) (waits : rival.phase = .promoted receivedAt) :
    (other, id) ∈ world.promotions ∧ (other, id) ∉ world.kicks :=
  logged.waiting other rival receivedAt id (moved.theirs apart ▸ found) complete waits

/-- A promotion whose request had not to kick any more is where it was. -/
theorem Logged.handed {place : Nat} {request : Request} (logged : Logged world)
    (moved : Moved world place request turn after)
    (unpromoted : ∀ receivedAt, request.phase ≠ .promoted receivedAt) {promotion : Nat × Id}
    (member : promotion ∈ world.promotions) : ∃ request,
      after.requests[promotion.1]? = some request ∧ request.body = .complete promotion.2 ∧
        (promotion ∈ world.kicks ∨ ∃ receivedAt, request.phase = .promoted receivedAt) := by
  obtain ⟨own, found, complete, handed⟩ := logged.kicks promotion member
  by_cases mine : promotion.1 = place
  · cases Option.some.inj (moved.found.symm.trans (mine ▸ found))
    refine ⟨{ request with phase := turn.phase }, ?_, complete, .inl ?_⟩
    · rw [mine]
      exact moved.mine
    rcases handed with kicked | ⟨receivedAt, waits⟩
    · exact kicked
    · exact absurd waits (unpromoted receivedAt)
  · exact ⟨own, (moved.theirs mine).trans found, complete, handed⟩

theorem Logged.moved_on {place : Nat} {request : Request} (logged : Logged world)
    (held : Held world) (turns : Turns world request.body request.phase turn)
    (moved : Moved world place request turn after) : Logged after := by
  have landed : ∀ promotion ∈ world.promotions,
      promotion.2 ∈ (messageKeys after.db).map (·.1) ∧ uploading after.db promotion.2 = false :=
    fun promotion member => logged.still_landed turns moved member
  cases turns.effect with
  | none quiet idle unpromoted settled =>
    have promotions : after.promotions = world.promotions := by simp [moved.promotions, quiet]
    have kicks : after.kicks = world.kicks := by simp [moved.kicks, idle]
    have notified : after.notified = world.notified := by simp [moved.notified, idle]
    refine ⟨promotions ▸ logged.once, promotions ▸ landed, ?_, kicks ▸ logged.kicked, ?_, ?_, ?_⟩
    · intro other rival receivedAt id found complete waits
      rw [promotions, kicks]
      by_cases own : other = place
      · cases Option.some.inj (moved.mine.symm.trans (own ▸ found))
        exact absurd waits (settled receivedAt)
      · exact logged.others moved own found complete waits
    · rw [promotions, kicks]
      exact logged.moved
    · rw [promotions, kicks]
      exact fun promotion member => logged.handed moved unpromoted member
    · rw [notified, kicks]
      exact logged.notified
  | @promote id receivedAt complete holds unpromoted promotes idle promoted =>
    have promotions : after.promotions = world.promotions ++ [(place, id)] := by
      simp [moved.promotions, promotes]
    have kicks : after.kicks = world.kicks := by simp [moved.kicks, idle]
    have notified : after.notified = world.notified := by simp [moved.notified, idle]
    have flying := held.flying request (List.mem_of_getElem? moved.found) id holds
    have fresh : ∀ promotion ∈ world.promotions, promotion.2 ≠ id := by
      intro promotion member same
      have settled := (logged.landed promotion member).2
      rw [same, flying] at settled
      cases settled
    refine ⟨?_, ?_, ?_, kicks ▸ logged.kicked, ?_, ?_, ?_⟩
    · rw [promotions, List.map_append]
      refine List.nodup_append.mpr ⟨logged.once, List.nodup_singleton _, ?_⟩
      intro used member other new
      obtain ⟨promotion, there, rfl⟩ := List.mem_map.mp member
      cases List.mem_singleton.mp new
      exact fresh promotion there
    · intro promotion member
      rw [promotions] at member
      rcases List.mem_append.mp member with old | new
      · exact landed promotion old
      · cases List.mem_singleton.mp new
        rw [moved.db]
        refine ⟨List.map_subset _ turns.grown.2 (known_of_uploading flying), ?_⟩
        rw [turns.inFlight (known_of_uploading flying), promotes]
        simp
    · intro other rival receivedAt own found complete' waits
      rw [promotions, kicks]
      by_cases mine : other = place
      · cases Option.some.inj (moved.mine.symm.trans (mine ▸ found))
        cases complete.symm.trans complete'
        rw [mine]
        exact ⟨List.mem_append_right _ (List.mem_singleton_self _),
          fun kicked => fresh _ (logged.moved _ kicked) rfl⟩
      · obtain ⟨waited, unkicked⟩ := logged.others moved mine found complete' waits
        exact ⟨List.mem_append_left _ waited, unkicked⟩
    · intro kick member
      rw [promotions]
      exact List.mem_append_left _ (logged.moved kick (kicks ▸ member))
    · intro promotion member
      rw [promotions] at member
      rw [kicks]
      rcases List.mem_append.mp member with old | new
      · exact logged.handed moved unpromoted old
      · cases List.mem_singleton.mp new
        exact ⟨_, moved.mine, complete, .inr ⟨receivedAt, promoted⟩⟩
    · rw [notified, kicks]
      exact logged.notified
  | @kick id receivedAt complete left quiet kicked settled =>
    have promotions : after.promotions = world.promotions := by simp [moved.promotions, quiet]
    have kicks : after.kicks = world.kicks ++ [(place, id)] := by simp [moved.kicks, kicked]
    have notified : after.notified = world.notified ++ [(place, id)] := by
      simp [moved.notified, kicked]
    obtain ⟨waited, unkicked⟩ := logged.waiting place request receivedAt id moved.found complete left
    refine ⟨promotions ▸ logged.once, promotions ▸ landed, ?_, ?_, ?_, ?_, ?_⟩
    · intro other rival receivedAt own found complete' waits
      rw [promotions, kicks]
      by_cases mine : other = place
      · cases Option.some.inj (moved.mine.symm.trans (mine ▸ found))
        exact absurd waits (settled receivedAt)
      · obtain ⟨waited, unkicked⟩ := logged.others moved mine found complete' waits
        refine ⟨waited, fun member => ?_⟩
        rcases List.mem_append.mp member with old | new
        · exact unkicked old
        · exact mine (congrArg Prod.fst (List.mem_singleton.mp new))
    · rw [kicks]
      refine List.nodup_append.mpr ⟨logged.kicked, List.nodup_singleton _, ?_⟩
      intro old member other new same
      cases List.mem_singleton.mp new
      exact unkicked (same ▸ member)
    · intro kick member
      rw [promotions]
      rcases List.mem_append.mp (kicks ▸ member) with old | new
      · exact logged.moved kick old
      · exact List.mem_singleton.mp new ▸ waited
    · intro promotion member
      rw [promotions] at member
      rw [kicks]
      obtain ⟨own, found, complete', handed⟩ := logged.kicks promotion member
      by_cases mine : promotion.1 = place
      · cases Option.some.inj (moved.found.symm.trans (mine ▸ found))
        cases complete.symm.trans complete'
        refine ⟨{ request with phase := turn.phase }, ?_, complete,
          .inl (List.mem_append_right _ ?_)⟩
        · rw [mine]
          exact moved.mine
        · exact List.mem_singleton.mpr (Prod.ext mine rfl)
      · refine ⟨own, (moved.theirs mine).trans found, complete', ?_⟩
        exact handed.imp_left fun old => List.mem_append_left _ old
    · rw [notified, kicks, logged.notified]

theorem Logged.arrived {body : Body} (logged : Logged world) :
    Logged { world with requests := world.requests ++ [{ body }] } := by
  refine ⟨logged.once, logged.landed, ?_, logged.kicked, logged.moved, ?_, logged.notified⟩
  · intro place request receivedAt id found complete waits
    by_cases inside : place < world.requests.length
    · rw [List.getElem?_append_left inside] at found
      exact logged.waiting place request receivedAt id found complete waits
    · rw [List.getElem?_append_right (Nat.le_of_not_lt inside)] at found
      cases List.mem_singleton.mp (List.mem_of_getElem? found)
      cases waits
  · intro promotion member
    obtain ⟨request, found, complete, handed⟩ := logged.kicks promotion member
    obtain ⟨inside, -⟩ := List.getElem?_eq_some_iff.mp found
    exact ⟨request, (List.getElem?_append_left inside).trans found, complete, handed⟩

theorem Logged.rolledOver {db : Db} (logged : Logged world) (kept : Kept world.db db) :
    Logged { world with db } := by
  refine ⟨logged.once, fun promotion member => ?_, logged.waiting, logged.kicked, logged.moved,
    logged.kicks, logged.notified⟩
  obtain ⟨known, landed⟩ := logged.landed promotion member
  exact ⟨kept.messages ▸ known, (kept.uploading promotion.2).trans landed⟩

end Promotions

/-! ## Runs -/

structure Sound (world : World) : Prop where
  keyed : Keyed world
  held : Held world
  logged : Logged world

theorem sound_initial {start : World} (initial : Initial start) : Sound start := by
  have rows : start.rowKeys = messageKeys start.db := by
    simp [World.rowKeys, initial.requests]
  refine ⟨⟨?_, ⟨?_, ?_, ?_⟩, ?_⟩, ⟨?_, ?_⟩, ⟨?_, ?_, ?_, ?_, ?_, ?_, ?_⟩⟩
  · rw [fileKeys, List.map_map]
    exact initial.hashes
  · rw [rows, messageKeys, List.map_map]
    exact initial.ids
  · rw [rows, messageKeys, List.map_map]
    exact initial.recordings
  · rw [rows]
    intro key member
    obtain ⟨row, there, rfl⟩ := List.mem_map.mp member
    exact initial.used row there
  · simp [initial.requests]
  · simp [initial.requests]
  · simp [initial.requests]
  · simp [initial.promotions]
  · simp [initial.promotions]
  · simp [initial.requests]
  · simp [initial.kicks]
  · simp [initial.kicks]
  · simp [initial.promotions]
  · rw [initial.notified, initial.kicks]

theorem Sound.step {maxAudioBytes : Nat} {world after : World} {action : Action}
    (sound : Sound world) (taken : step maxAudioBytes world action = some after) : Sound after := by
  obtain ⟨keyed, held, logged⟩ := sound
  rcases step_cases taken with
    ⟨body, rfl⟩ | ⟨place, request, turn, turns, moved, -⟩ | ⟨db, kept, rfl⟩
  · exact ⟨keyed.arrived, held.arrived, logged.arrived⟩
  · exact ⟨keyed.moved turns moved, held.moved turns moved, logged.moved_on held turns moved⟩
  · exact ⟨keyed.rolledOver kept, held.rolledOver kept, logged.rolledOver kept⟩

theorem Sound.idempotent {world : World} (sound : Sound world) : Idempotent world := by
  obtain ⟨keyed, -, logged⟩ := sound
  refine ⟨fun sha256 id other first second => keyed.one first second, keyed.rows.messages, ?_,
    logged.once,
    fun promotion member => (logged.landed promotion member).2, ?_, logged.moved, logged.kicks,
    logged.notified⟩
  · intro request member body id create answered
    exact (keyed.owned request member body create).slot id (by rw [answered]; rfl)
  · refine List.Nodup.map_on (fun first here second there same => ?_) logged.kicked
    exact List.inj_on_of_nodup_map logged.once (logged.moved first here) (logged.moved second there)
      same

/-- Where a message is known and in flight before and after a step, it has not come back. -/
theorem stays_of_uploading {before after : Db} (messages : messageKeys before ⊆ messageKeys after)
    (landed : ∀ id ∈ (messageKeys before).map (·.1), uploading before id = false →
      uploading after id = false) {id : Id} {row : Message} (found : before.message id = some row) :
    ∃ row', after.message id = some row' ∧
      (row.status ≠ .uploading → row'.status ≠ .uploading) := by
  have known := mem_keys_message found
  obtain ⟨row', found'⟩ := message_mem_keys (List.map_subset (·.1) messages known)
  refine ⟨row', found', fun settled => ?_⟩
  have still := landed id known (by rw [uploading_of_found found]; simpa using settled)
  rw [uploading_of_found found'] at still
  simpa using still

theorem leaves_step {maxAudioBytes : Nat} {world after : World} {action : Action}
    (taken : step maxAudioBytes world action = some after) : Leaves world action after := by
  rcases step_cases taken with
    ⟨body, rfl⟩ | ⟨place, request, turn, turns, moved, promoter⟩ | ⟨db, kept, rfl⟩
  · exact ⟨fun id flying => .inl flying, fun id row found => ⟨row, found, fun settled => settled⟩⟩
  · refine ⟨fun id flying => ?_, fun id row found => ?_⟩
    · have now := turns.inFlight (known_of_uploading flying)
      rw [flying, Bool.true_and] at now
      rw [moved.db]
      by_cases promoted : id ∈ turn.promotes
      · rcases promoter with ⟨moment, blob, advanced, -⟩ | rfl
        case inr => cases promoted
        refine .inr ⟨place, moment, blob, advanced, ?_⟩
        rw [moved.promotions]
        cases turns.effect with
        | none quiet _ _ _ =>
          rw [quiet] at promoted
          cases promoted
        | promote _ _ _ promotes _ _ =>
          rw [promotes] at promoted ⊢
          cases List.mem_singleton.mp promoted
          rfl
        | kick _ _ quiet _ _ =>
          rw [quiet] at promoted
          cases promoted
      · exact .inl (now.trans (decide_eq_true promoted))
    · rw [moved.db]
      refine stays_of_uploading turns.grown.2 (fun id known landed => ?_) found
      rw [turns.inFlight known, landed, Bool.false_and]
  · refine ⟨fun id flying => .inl ((kept.uploading id).trans flying), fun id row found => ?_⟩
    exact stays_of_uploading (fun key member => kept.messages ▸ member)
      (fun id _ landed => (kept.uploading id).trans landed) found

/-- **Uploads are idempotent.** Whatever requests arrive and however their
statements interleave with each other, with failures and with rollovers: a
recording has one message, which every `201` for it names; the message leaves
`uploading` once, for good; and the request that moved it, and no other, kicks
the pipeline and notifies of it, once. -/
theorem uploads_idempotent {start : World} (initial : Initial start) (maxAudioBytes : Nat)
    (actions : List Action) :
    Along (step maxAudioBytes)
      (fun before action after => Leaves before action after ∧ Idempotent after) start actions :=
  along_of_invariant (fun _ _ _ sound taken => sound.step taken)
    (fun _ _ _ _ later taken => ⟨leaves_step taken, later.idempotent⟩)
    (sound_initial initial) actions

/-- A booth with an open era and no recording. -/
def openBooth : World where
  db := { installations := [{ id := 0 }], nextId := 1 }

def advances (request count : Nat) : List Action :=
  List.replicate count (.advance request 5 { found := true, sha256 := some "f0", sizeBytes := 3 })

/-- Two uploads of one recording race for its message, and two completions for its promotion. -/
def twoUploads : List Action :=
  [.arrive (.create { sha256 := "f0" }), .arrive (.create { sha256 := "f0" })] ++
    advances 0 6 ++ advances 1 6 ++ advances 0 6 ++ advances 1 7 ++
    [.arrive (.complete 2), .arrive (.complete 2)] ++
    advances 2 5 ++ advances 3 5 ++ advances 2 3 ++ advances 3 2

theorem initial_openBooth : Initial openBooth :=
  ⟨by decide, by decide, by decide, by decide, rfl, rfl, rfl, rfl⟩

theorem uploads_idempotent_raced :
    (∃ final, exec (step 10) openBooth twoUploads = some final ∧ final.promotions = [(2, 2)] ∧
        final.kicks = [(2, 2)]) ∧
      Along (step 10) (fun before action after => Leaves before action after ∧ Idempotent after)
        openBooth twoUploads :=
  ⟨⟨_, rfl, rfl, rfl⟩, uploads_idempotent initial_openBooth 10 twoUploads⟩

end BoothOperator.Uploads
