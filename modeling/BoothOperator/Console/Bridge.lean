import BoothOperator.Console.CurrentStatus
import BoothOperator.Lib.Run

/-! `BoothEnvelopeBridge`: what the console shows of the booth. Frames of the socket, the REST
status that is polled beside it and the rollovers of other consoles come in any order; the last two
say which exhibition it is, and a frame says how the booth is in it. -/
namespace BoothOperator.Console

open BoothOperator.Schema (BoothState RuntimeMode)

inductive InstallationState where
  | active | betweenExhibitions
  deriving DecidableEq

inductive BoothDisplayStatus where
  | idle | recording | playing | error
  deriving DecidableEq

def toBoothDisplayStatus : BoothState → BoothDisplayStatus
  | .error => .error
  | .recording | .uploading => .recording
  | .playingMessage | .playingQuestion | .playingInstructions | .callUnavailable => .playing
  | _ => .idle

/-- A status with its lifecycle, which the REST status has and a frame need not have. -/
structure LiveStatus extends BoothStatus where
  installationState : Option InstallationState := none
  isSynthetic : Option Bool := none
  deriving DecidableEq

/-- What `BoothStatusContext` holds of it. -/
structure StatusBoard where
  installationState : Option InstallationState := none
  status : BoothDisplayStatus := .idle
  runtimeMode : Option RuntimeMode := none
  lastStatusAt : Option Timestamp := none
  deriving DecidableEq

/-- The query cache and the refs of the bridge. The data of a query is `none` when it is undefined,
that of the status `some none` when it is null. Of an entry of the history only what it merges by
is kept. -/
structure Bridge where
  statusCache : Option (Option LiveStatus) := none
  historyCache : Option (List BoothStatus) := none
  latestStatus : Option LiveStatus := none
  installationState : Option InstallationState := none
  seenMessageIds : List String := []
  board : StatusBoard := {}
  deriving DecidableEq

def SEEN_MESSAGE_ID_LIMIT : Nat := 1000

namespace Bridge

def newer (status : LiveStatus) (current : Option LiveStatus) : Bool :=
  isNewerThan status.toBoothStatus (current.map LiveStatus.toBoothStatus)

/-- The bridge after a live status has joined the cache, and whether it became the current one. -/
def applyStatusToCache (bridge : Bridge) (status : LiveStatus) : Bridge × Bool :=
  let cached := bridge.statusCache.join
  let lifecycle := cached.bind LiveStatus.installationState
  if lifecycle = some .betweenExhibitions then (bridge, false)
  else
    let status :=
      if status.installationState = none then { status with installationState := lifecycle }
      else status
    let isCurrent := newer status cached
    ({ bridge with
      statusCache := if isCurrent then some (some status) else bridge.statusCache
      historyCache := some (mergeLiveStatus statusHistoryLimit (bridge.historyCache.getD [])
        status.toBoothStatus) }, isCurrent)

def clearStatus (bridge : Bridge) : Bridge :=
  { bridge with
    latestStatus := none
    board := { installationState := bridge.board.installationState } }

def setInstallationState (bridge : Bridge) (state : Option InstallationState) : Bridge :=
  { bridge with
    installationState := state
    board := { bridge.board with installationState := state } }

def syncStatus (bridge : Bridge) (status : LiveStatus) (authoritative : Bool) : Bridge :=
  let bridge :=
    if authoritative ∨ status.installationState ≠ none then
      bridge.setInstallationState status.installationState
    else bridge
  if status.isSynthetic = some true then bridge.clearStatus
  else if newer status bridge.latestStatus = false then bridge
  else { bridge with
    latestStatus := some status
    board := { bridge.board with
      status := toBoothDisplayStatus status.state
      runtimeMode := status.runtimeMode
      lastStatusAt := some status.updatedAt } }

def acceptLiveStatus (bridge : Bridge) (status : LiveStatus) : Bridge :=
  if bridge.installationState = some .betweenExhibitions then bridge
  else
    let applied := bridge.applyStatusToCache status
    if applied.2 then applied.1.syncStatus status false else applied.1

/-- The `message` envelope: the id is remembered, and the oldest forgotten over the limit. -/
def seeMessage (bridge : Bridge) (id : String) : Bridge :=
  if id ∈ bridge.seenMessageIds then bridge
  else
    let seen := bridge.seenMessageIds ++ [id]
    { bridge with
      seenMessageIds := if SEEN_MESSAGE_ID_LIMIT < seen.length then seen.tail else seen }

/-- The data of the reconciliation query has changed. -/
def reconcile (bridge : Bridge) : Option (Option LiveStatus) → Bridge
  | none => if bridge.latestStatus ≠ none then bridge.clearStatus else bridge
  | some none =>
    { bridge.clearStatus.setInstallationState none with
      statusCache := some none
      historyCache := some [] }
  | some (some data) =>
    let preserveHeartbeat :=
      data.isSynthetic ≠ some true ∨ data.installationState = some .active
    let reconciled :=
      match bridge.statusCache.join with
      | some current =>
        if preserveHeartbeat ∧ newer data (some current) = false then
          { current with installationState := data.installationState }
        else data
      | none => data
    { bridge with statusCache := some (some reconciled) }.syncStatus reconciled true

end Bridge

inductive BridgeEvent where
  | frame (status : LiveStatus)
  | installation (isActive : Bool)
  | message (id : String)
  | reconciled (data : Option (Option LiveStatus))
  | statusGone
  | history (items : List BoothStatus)
  deriving DecidableEq

namespace Bridge

/-- A rollover resets the queries of the status; `statusGone` is the effect that sees it. -/
def step (bridge : Bridge) : BridgeEvent → Option Bridge
  | .frame status => some (bridge.acceptLiveStatus status)
  | .installation isActive =>
    let state := if isActive then InstallationState.active else .betweenExhibitions
    some { bridge.clearStatus.setInstallationState (some state) with
      seenMessageIds := []
      statusCache := none
      historyCache := none }
  | .message id => some (bridge.seeMessage id)
  | .reconciled data => some (bridge.reconcile data)
  | .statusGone => if bridge.statusCache = none then some bridge.clearStatus else none
  | .history items => some { bridge with historyCache := some items }

def Fresh (bridge : Bridge) : Prop := bridge = {}

/-! ## What is shown -/

/-- What is shown is the latest status, or nothing, in the exhibition that the bridge knows of. -/
structure Coherent (bridge : Bridge) : Prop where
  lifecycle : bridge.board.installationState = bridge.installationState
  status : bridge.board.status =
    (bridge.latestStatus.map fun status => toBoothDisplayStatus status.state).getD .idle
  runtimeMode : bridge.board.runtimeMode =
    bridge.latestStatus.bind fun status => status.runtimeMode
  lastStatusAt : bridge.board.lastStatusAt = bridge.latestStatus.map fun status => status.updatedAt
  seen : bridge.seenMessageIds.Nodup ∧ bridge.seenMessageIds.length ≤ SEEN_MESSAGE_ID_LIMIT

section Shown

variable {bridge after : Bridge} {status : LiveStatus} {event : BridgeEvent}

theorem Coherent.clearStatus (coherent : bridge.Coherent) : bridge.clearStatus.Coherent :=
  ⟨coherent.lifecycle, rfl, rfl, rfl, coherent.seen⟩

theorem Coherent.setInstallationState (coherent : bridge.Coherent) (state : Option InstallationState) :
    (bridge.setInstallationState state).Coherent :=
  ⟨rfl, coherent.status, coherent.runtimeMode, coherent.lastStatusAt, coherent.seen⟩

/-- Only the caches change. -/
theorem Coherent.caches (coherent : bridge.Coherent) (statusCache : Option (Option LiveStatus))
    (historyCache : Option (List BoothStatus)) :
    ({ bridge with statusCache, historyCache } : Bridge).Coherent :=
  ⟨coherent.lifecycle, coherent.status, coherent.runtimeMode, coherent.lastStatusAt, coherent.seen⟩

theorem Coherent.syncStatus (coherent : bridge.Coherent) (status : LiveStatus) (authoritative : Bool) :
    (bridge.syncStatus status authoritative).Coherent := by
  have moved : (if authoritative = true ∨ status.installationState ≠ none then
      bridge.setInstallationState status.installationState else bridge).Coherent := by
    split
    · exact coherent.setInstallationState _
    · exact coherent
  unfold Bridge.syncStatus
  simp only
  generalize (if authoritative = true ∨ status.installationState ≠ none then
    bridge.setInstallationState status.installationState else bridge) = next at moved ⊢
  split
  · exact moved.clearStatus
  split
  · exact moved
  · exact ⟨moved.lifecycle, rfl, rfl, rfl, moved.seen⟩

theorem Coherent.seeMessage (coherent : bridge.Coherent) (id : String) :
    (bridge.seeMessage id).Coherent := by
  unfold Bridge.seeMessage
  split
  · exact coherent
  rename_i fresh
  refine ⟨coherent.lifecycle, coherent.status, coherent.runtimeMode, coherent.lastStatusAt, ?_⟩
  obtain ⟨distinct, few⟩ := coherent.seen
  have longer : (bridge.seenMessageIds ++ [id]).Nodup := by
    rw [List.nodup_append]
    refine ⟨distinct, List.nodup_singleton id, ?_⟩
    rintro old member _ new rfl
    exact fresh (List.mem_singleton.mp new ▸ member)
  simp only
  split
  · refine ⟨longer.sublist (List.tail_sublist _), ?_⟩
    rw [List.length_tail, List.length_append, List.length_singleton]
    omega
  · rename_i within
    exact ⟨longer, Nat.le_of_not_lt within⟩

theorem Coherent.step (coherent : bridge.Coherent) (taken : bridge.step event = some after) :
    after.Coherent := by
  cases event with
  | frame status =>
    cases taken
    unfold Bridge.acceptLiveStatus
    split
    · exact coherent
    have applied : (bridge.applyStatusToCache status).1.Coherent := by
      unfold Bridge.applyStatusToCache
      simp only
      split
      · exact coherent
      · exact coherent.caches _ _
    simp only
    split
    · exact applied.syncStatus status false
    · exact applied
  | installation isActive =>
    cases taken
    have cleared := coherent.clearStatus.setInstallationState
      (some (if isActive then InstallationState.active else .betweenExhibitions))
    exact ⟨cleared.lifecycle, cleared.status, cleared.runtimeMode, cleared.lastStatusAt,
      List.nodup_nil, Nat.zero_le _⟩
  | message id =>
    cases taken
    exact coherent.seeMessage id
  | reconciled data =>
    cases taken
    unfold Bridge.reconcile
    split
    · split
      · exact coherent.clearStatus
      · exact coherent
    · exact (coherent.clearStatus.setInstallationState none).caches _ _
    · exact (coherent.caches _ _).syncStatus _ true
  | statusGone =>
    simp only [Bridge.step] at taken
    split at taken
    · cases taken
      exact coherent.clearStatus
    · cases taken
  | history items =>
    cases taken
    exact coherent.caches _ _

theorem coherent_of_reachable (reached : Run.Reachable Bridge.step Bridge.Fresh bridge) :
    bridge.Coherent := by
  refine reached.invariant ?_ fun _ _ _ coherent _ taken => coherent.step taken
  rintro bridge rfl
  exact ⟨rfl, rfl, rfl, rfl, List.nodup_nil, Nat.zero_le _⟩

/-! ## Frames -/

/-- Between exhibitions a frame is not even looked at. -/
theorem frames_between {frames : List LiveStatus}
    (between : bridge.installationState = some .betweenExhibitions) :
    Run.exec Bridge.step bridge (frames.map .frame) = some bridge := by
  induction frames with
  | nil => rfl
  | cons frame rest ih =>
    have ignored : bridge.acceptLiveStatus frame = bridge := by
      rw [acceptLiveStatus, if_pos between]
    simp only [List.map_cons, Run.exec, Bridge.step, ignored, Option.bind_some]
    exact ih

/-- A frame without a lifecycle, once it has joined the cache or not. -/
theorem frame_cases (plain : status.installationState = none) :
    ∃ kept : Bridge, kept.latestStatus = bridge.latestStatus ∧
      kept.installationState = bridge.installationState ∧
      (bridge.acceptLiveStatus status = kept ∨
        status.isSynthetic = some true ∧ bridge.acceptLiveStatus status = kept.clearStatus ∨
        newer status bridge.latestStatus = true ∧
          (bridge.acceptLiveStatus status).latestStatus = some status ∧
          (bridge.acceptLiveStatus status).installationState = bridge.installationState) := by
  unfold acceptLiveStatus
  split
  · exact ⟨bridge, rfl, rfl, .inl rfl⟩
  have kept : (bridge.applyStatusToCache status).1.latestStatus = bridge.latestStatus ∧
      (bridge.applyStatusToCache status).1.installationState = bridge.installationState := by
    unfold applyStatusToCache
    simp only
    split
    · exact ⟨rfl, rfl⟩
    · exact ⟨rfl, rfl⟩
  refine ⟨(bridge.applyStatusToCache status).1, kept.1, kept.2, ?_⟩
  simp only
  split
  · have unsaid : ¬(false = true ∨ status.installationState ≠ none) := by simp [plain]
    rw [Bridge.syncStatus, if_neg unsaid]
    split
    · rename_i synthetic
      exact .inr (.inl ⟨synthetic, rfl⟩)
    split
    · exact .inl rfl
    · rename_i fresh
      rw [kept.1] at fresh
      exact .inr (.inr ⟨(Bool.not_eq_false _).mp fresh, rfl, kept.2⟩)
  · exact .inl rfl

/-- Frames that the API sends of rows say nothing of the lifecycle and are of a row. -/
def Plain (frames : List LiveStatus) : Prop :=
  ∀ frame ∈ frames, frame.installationState = none ∧ frame.isSynthetic ≠ some true ∧
    frame.id.isSome

/-- Frames leave the lifecycle alone, and what is shown never gets older by them. -/
theorem frames_advance {frames : List LiveStatus} {shown : LiveStatus} (plain : Plain frames)
    (latest : bridge.latestStatus = some shown) (identified : shown.id.isSome)
    (ran : Run.exec Bridge.step bridge (frames.map .frame) = some after) :
    after.installationState = bridge.installationState ∧
      ∃ now, after.latestStatus = some now ∧ (now = shown ∨ now ∈ frames) ∧
        rank shown.toBoothStatus ≤ rank now.toBoothStatus := by
  induction frames generalizing bridge shown with
  | nil =>
    cases ran
    exact ⟨rfl, shown, latest, .inl rfl, le_refl _⟩
  | cons frame rest ih =>
    obtain ⟨next, taken, ran⟩ := Option.bind_eq_some_iff.mp ran
    cases taken
    have later : Plain rest := fun other member => plain other (List.mem_cons_of_mem _ member)
    obtain ⟨unsaid, real, named⟩ := plain frame List.mem_cons_self
    obtain ⟨kept, same, lifecycle, moved⟩ := @frame_cases bridge frame unsaid
    rcases moved with still | ⟨synthetic, -⟩ | ⟨fresh, its, stays⟩
    · rw [still] at ran
      obtain ⟨state, now, read, from', older⟩ := ih later (same.trans latest) identified ran
      refine ⟨state.trans lifecycle, now, read, ?_, older⟩
      rcases from' with old | member
      · exact .inl old
      · exact .inr (List.mem_cons_of_mem _ member)
    · exact absurd synthetic real
    · obtain ⟨state, now, read, from', older⟩ := ih later its named ran
      rw [newer, latest, Option.map_some, isNewerThan_iff named identified] at fresh
      refine ⟨state.trans stays, now, read, ?_, le_trans fresh older⟩
      rcases from' with rfl | member
      · exact .inr List.mem_cons_self
      · exact .inr (List.mem_cons_of_mem _ member)

/-- In every run what the console shows is one status and the exhibition it knows of. Between
exhibitions no frame changes anything; else frames leave the lifecycle alone and what is shown never
gets older by them, whatever their order. -/
theorem bridge_shows_latest (reached : Run.Reachable Bridge.step Bridge.Fresh bridge) :
    bridge.Coherent ∧
    (bridge.installationState = some .betweenExhibitions → ∀ frames : List LiveStatus,
      Run.exec Bridge.step bridge (frames.map .frame) = some bridge) ∧
    ∀ frames shown after, Plain frames → bridge.latestStatus = some shown → shown.id.isSome →
      Run.exec Bridge.step bridge (frames.map .frame) = some after →
      after.installationState = bridge.installationState ∧
        ∃ now, after.latestStatus = some now ∧ (now = shown ∨ now ∈ frames) ∧
          rank shown.toBoothStatus ≤ rank now.toBoothStatus :=
  ⟨coherent_of_reachable reached, fun between _ => frames_between between,
    fun _ _ _ plain latest identified ran => frames_advance plain latest identified ran⟩

/-- The REST status of an active exhibition, two frames out of order and a rollover. -/
def rolledOver : List BridgeEvent :=
  [.reconciled (some (some { viewAt 4 "1970-01-01T00:00:00.020Z" 20 1 with
      installationState := some .active })),
    .frame { viewAt 6 "1970-01-01T00:00:00.040Z" 40 1 with },
    .frame { viewAt 5 "1970-01-01T00:00:00.030Z" 30 1 with },
    .message "m1", .installation false]

theorem bridge_shows_latest_rolledOver :
    ∃ bridge, Run.exec Bridge.step {} rolledOver = some bridge ∧
      bridge.board.installationState = some .betweenExhibitions ∧
      ∀ frames : List LiveStatus, Run.exec Bridge.step bridge (frames.map .frame) = some bridge := by
  obtain ⟨bridge, ran⟩ : ∃ bridge, Run.exec Bridge.step {} rolledOver = some bridge := ⟨_, rfl⟩
  have between : bridge.installationState = some .betweenExhibitions := by
    cases ran
    rfl
  have shows := bridge_shows_latest (Run.reachable_of_exec rfl ran)
  exact ⟨bridge, ran, shows.1.lifecycle.trans between, shows.2.1 between⟩

end Shown

end Bridge

end BoothOperator.Console
