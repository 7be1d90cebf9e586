import Mathlib.Data.List.Basic
import BoothOperator.Access.StatusSocket
import BoothOperator.Lib.OrderedMap
import BoothOperator.Lib.Run

/-! The status sockets of one process, `attachStatusWebSocket` over the `Broadcaster`. A socket is
open before it is authorized, and is subscribed when it has been; what is sent to it then is what
its kind may see. Every await and every event of a socket gives up the turn. -/
namespace BoothOperator.Live

open BoothOperator.Access (SubscriberKind)

inductive EnvelopeKind where
  | status | system | message | work | installation
  deriving DecidableEq

/-- An envelope, with its JSON text. -/
structure WsEnvelope where
  kind : EnvelopeKind
  text : String
  deriving DecidableEq

inductive ReadyState where
  | opened | closing | closed
  deriving DecidableEq

/-- A socket after its handshake. -/
structure LiveSocket where
  readyState : ReadyState := .opened
  isAlive : Option Bool := none
  clientId : Option Nat := none
  subscriberKind : Option SubscriberKind := none
  bufferedAmount : Nat := 0
  /-- What `authorizeStatusUpgrade` resolved to, when it has. -/
  authorized : Option (Option SubscriberKind) := none
  /-- Whether `replayOutstandingWork` was started on it. -/
  replaying : Bool := false
  /-- What was sent on it, the last first. -/
  sent : List WsEnvelope := []
  deriving DecidableEq

/-- `wss.clients` are the sockets that are not closed; a subscriber is the place of its socket. -/
structure Hub where
  sockets : List LiveSocket := []
  subscribers : OrderedMap Nat Nat := .empty
  closing : Bool := false
  deriving DecidableEq

def MAX_BUFFERED_BYTES : Nat := 1048576

def REPLAY_BUFFER_YIELD_BYTES : Nat := MAX_BUFFERED_BYTES / 2

def envelopeVisibleTo (kind : SubscriberKind) (envelope : WsEnvelope) : Bool :=
  match kind with
  | .worker => envelope.kind = .work
  | .monitor => envelope.kind = .status ∨ envelope.kind = .system
  | .operator => envelope.kind ≠ .work

namespace LiveSocket

/-- `ws.close(code)` and `ws.terminate()`: the `close` event comes later. -/
def shut (ws : LiveSocket) : LiveSocket :=
  { ws with readyState := if ws.readyState = .opened then .closing else ws.readyState }

/-- `none` when `ws.send` throws. -/
def sendEnvelopeToSocket (envelope : WsEnvelope) (throws : Bool) (ws : LiveSocket) :
    Option LiveSocket :=
  if ws.readyState ≠ .opened then some ws
  else if envelopeVisibleTo (ws.subscriberKind.getD .operator) envelope = false then some ws
  else if MAX_BUFFERED_BYTES < ws.bufferedAmount then some ws.shut
  else if throws then none
  else some { ws with sent := envelope :: ws.sent }

def beat (ws : LiveSocket) : LiveSocket :=
  if ws.readyState = .closed then ws
  else if ws.isAlive = some false then ws.shut
  else { ws with isAlive := some false }

/-- The `connection` handler. -/
def connect (place : Nat) (kind : SubscriberKind) (ws : LiveSocket) : LiveSocket :=
  { ws with
    isAlive := some true
    clientId := some place
    subscriberKind := some kind
    replaying := kind = .worker }

end LiveSocket

namespace Hub

def setSocket (hub : Hub) (place : Nat) (ws : LiveSocket) : Hub :=
  { hub with sockets := hub.sockets.set place ws }

/-- The callback of one subscriber, which is unsubscribed when it throws. -/
def deliver (envelope : WsEnvelope) (throwing : List Nat) (hub : Hub) (entry : Nat × Nat) : Hub :=
  match hub.sockets[entry.2]? with
  | none => hub
  | some ws =>
    match ws.sendEnvelopeToSocket envelope (entry.2 ∈ throwing) with
    | none => { hub with subscribers := hub.subscribers.delete entry.1 }
    | some ws => hub.setSocket entry.2 ws

def broadcast (envelope : WsEnvelope) (throwing : List Nat) (hub : Hub) : Hub :=
  hub.subscribers.entries.foldl (deliver envelope throwing) hub

/-- What follows the await of `authorizeStatusUpgrade`. -/
def authorize (hub : Hub) (place : Nat) (ws : LiveSocket) (kind : Option SubscriberKind) : Hub :=
  let ws := { ws with authorized := some kind }
  if hub.closing ∨ ws.readyState ≠ .opened then hub.setSocket place ws.shut
  else match kind with
    | none => hub.setSocket place ws.shut
    | some kind =>
      { hub.setSocket place (ws.connect place kind) with
        subscribers := hub.subscribers.set place place }

end Hub

inductive Event where
  | upgrade
  | authorized (place : Nat) (kind : Option SubscriberKind)
  | pong (place : Nat)
  | heartbeat
  | broadcast (envelope : WsEnvelope) (throwing : List Nat)
  | replay (place : Nat) (text : String)
  | buffered (place amount : Nat)
  | drop (place : Nat)
  | closed (place : Nat)
  | close
  deriving DecidableEq

/-- An upgrade of the status path is taken until the hub closes, and the heartbeat with it; the
events of a socket come while it is not closed, its `close` event last. -/
def Hub.step (hub : Hub) : Event → Option Hub
  | .upgrade =>
    if hub.closing then none else some { hub with sockets := hub.sockets ++ [{}] }
  | .authorized place kind => do
    let ws ← hub.sockets[place]?
    if ws.authorized = none then some (hub.authorize place ws kind) else none
  | .pong place => do
    let ws ← hub.sockets[place]?
    if ws.readyState ≠ .closed ∧ ws.clientId ≠ none then
      some (hub.setSocket place { ws with isAlive := some true })
    else none
  | .heartbeat =>
    if hub.closing then none else some { hub with sockets := hub.sockets.map LiveSocket.beat }
  | .broadcast envelope throwing => some (hub.broadcast envelope throwing)
  | .replay place text => do
    let ws ← hub.sockets[place]?
    if ws.replaying ∧ ¬(ws.readyState = .opened ∧ REPLAY_BUFFER_YIELD_BYTES < ws.bufferedAmount) then
      let ws ← ws.sendEnvelopeToSocket ⟨.work, text⟩ false
      some (hub.setSocket place ws)
    else none
  | .buffered place amount => do
    let ws ← hub.sockets[place]?
    some (hub.setSocket place { ws with bufferedAmount := amount })
  | .drop place => do
    let ws ← hub.sockets[place]?
    some (hub.setSocket place ws.shut)
  | .closed place => do
    let ws ← hub.sockets[place]?
    if ws.readyState = .closing then
      let hub := hub.setSocket place { ws with readyState := .closed }
      match ws.clientId with
      | none => some hub
      | some clientId => some { hub with subscribers := hub.subscribers.delete clientId }
    else none
  | .close =>
    if hub.closing then some hub
    else some { hub with closing := true, sockets := hub.sockets.map LiveSocket.shut }

def Hub.Fresh (hub : Hub) : Prop := hub = {}

/-! ## What a step does to a socket -/

/-- A step that leaves the authorization of a socket alone: it may close the socket, or send
something that its kind may see on it while it is open. -/
structure LiveSocket.Keeps (before after : LiveSocket) : Prop where
  clientId : after.clientId = before.clientId
  subscriberKind : after.subscriberKind = before.subscriberKind
  authorized : after.authorized = before.authorized
  replaying : after.replaying = before.replaying
  opened : after.readyState = .opened → before.readyState = .opened
  closed : after.readyState = .closed → before.readyState = .closed
  sent : after.sent = before.sent ∨ before.readyState = .opened ∧
    ∃ envelope, envelopeVisibleTo (before.subscriberKind.getD .operator) envelope = true ∧
      before.bufferedAmount ≤ MAX_BUFFERED_BYTES ∧ after.sent = envelope :: before.sent

section Keeps

variable {ws after : LiveSocket} {envelope : WsEnvelope} {throws : Bool}

theorem keeps_shut (ws : LiveSocket) : ws.Keeps ws.shut := by
  refine ⟨rfl, rfl, rfl, rfl, ?_, ?_, .inl rfl⟩
  all_goals
    simp only [LiveSocket.shut]
    split
    · intro state
      cases state
    · exact id

theorem shut_not_opened (ws : LiveSocket) : ws.shut.readyState ≠ .opened := by
  simp only [LiveSocket.shut]
  split
  · intro state
    cases state
  · assumption

theorem keeps_send (sent : ws.sendEnvelopeToSocket envelope throws = some after) :
    ws.Keeps after := by
  simp only [LiveSocket.sendEnvelopeToSocket] at sent
  split at sent
  · cases sent
    exact ⟨rfl, rfl, rfl, rfl, id, id, .inl rfl⟩
  rename_i opened
  split at sent
  · cases sent
    exact ⟨rfl, rfl, rfl, rfl, id, id, .inl rfl⟩
  rename_i visible
  split at sent
  · cases sent
    exact keeps_shut ws
  rename_i room
  split at sent
  · cases sent
  · cases sent
    refine ⟨rfl, rfl, rfl, rfl, id, id, .inr ⟨not_not.mp opened, envelope, ?_, ?_, rfl⟩⟩
    · exact (Bool.not_eq_false _).mp visible
    · exact Nat.le_of_not_lt room

theorem keeps_beat (ws : LiveSocket) : ws.Keeps ws.beat := by
  simp only [LiveSocket.beat]
  split
  · exact ⟨rfl, rfl, rfl, rfl, id, id, .inl rfl⟩
  split
  · exact keeps_shut ws
  · exact ⟨rfl, rfl, rfl, rfl, id, id, .inl rfl⟩

end Keeps

/-! ## The invariant -/

/-- What is known of a socket: it has a kind when it was authorized as that, and has been sent what
that kind may see. -/
structure LiveSocket.Sound (place : Nat) (ws : LiveSocket) : Prop where
  kind : ∀ kind, ws.subscriberKind = some kind → ws.authorized = some (some kind)
  clientId : ∀ id, ws.clientId = some id → id = place ∧ ws.subscriberKind ≠ none
  replaying : ws.replaying = true → ws.subscriberKind = some .worker
  sent : ∀ envelope ∈ ws.sent, ∃ kind, ws.subscriberKind = some kind ∧
    envelopeVisibleTo kind envelope = true

structure Hub.Sound (hub : Hub) : Prop where
  sockets : ∀ place (ws : LiveSocket), hub.sockets[place]? = some ws → ws.Sound place
  subscribed : ∀ id place, hub.subscribers.get id = some place → id = place ∧
    ∃ ws, hub.sockets[place]? = some ws ∧ ws.clientId = some id ∧ ws.readyState ≠ .closed
  closing : hub.closing = true → ∀ ws ∈ hub.sockets, ws.readyState ≠ .opened

section Invariant

variable {hub after : Hub} {place : Nat} {ws next : LiveSocket}

theorem LiveSocket.Sound.keeps (sound : ws.Sound place) (keeps : ws.Keeps next)
    (known : next.sent = ws.sent ∨ ws.subscriberKind ≠ none) : next.Sound place := by
  refine ⟨?_, ?_, ?_, ?_⟩
  · rw [keeps.subscriberKind, keeps.authorized]
    exact sound.kind
  · rw [keeps.clientId, keeps.subscriberKind]
    exact sound.clientId
  · rw [keeps.replaying, keeps.subscriberKind]
    exact sound.replaying
  · rw [keeps.subscriberKind]
    rcases keeps.sent with same | ⟨-, envelope, visible, -, more⟩
    · rw [same]
      exact sound.sent
    · intro other member
      rw [more] at member known
      rcases List.mem_cons.mp member with rfl | old
      · have kinded : ws.subscriberKind ≠ none :=
          known.resolve_left fun same => List.cons_ne_self _ _ same
        obtain ⟨kind, its⟩ := Option.ne_none_iff_exists'.mp kinded
        rw [its] at visible
        exact ⟨kind, its, visible⟩
      · exact sound.sent other old

/-- One socket changes, and is still the one that its subscriber stands for. -/
theorem Hub.Sound.replace (sound : hub.Sound) (there : hub.sockets[place]? = some ws)
    (own : next.Sound place)
    (live : ∀ id, hub.subscribers.get id = some place →
      next.clientId = some id ∧ next.readyState ≠ .closed)
    (opened : next.readyState = .opened → ws.readyState = .opened) :
    (hub.setSocket place next).Sound := by
  have inside : place < hub.sockets.length := (List.getElem?_eq_some_iff.mp there).1
  refine ⟨?_, ?_, ?_⟩
  · intro other found read
    by_cases same : place = other
    · subst same
      rw [Hub.setSocket, List.getElem?_set_self inside] at read
      cases read
      exact own
    · rw [Hub.setSocket, List.getElem?_set_ne same] at read
      exact sound.sockets other found read
  · intro id other subscribed
    obtain ⟨equal, found, read, client, state⟩ := sound.subscribed id other subscribed
    refine ⟨equal, ?_⟩
    by_cases same : place = other
    · subst same
      exact ⟨next, List.getElem?_set_self inside, live id subscribed⟩
    · exact ⟨found, (List.getElem?_set_ne same).trans read, client, state⟩
  · intro closing found member
    rcases List.mem_or_eq_of_mem_set member with old | rfl
    · exact sound.closing closing found old
    · exact fun state => sound.closing closing ws (List.mem_of_getElem? there) (opened state)

/-- One socket changes and no authorization does. -/
theorem Hub.Sound.setSocket (sound : hub.Sound) (there : hub.sockets[place]? = some ws)
    (keeps : ws.Keeps next) (known : next.sent = ws.sent ∨ ws.subscriberKind ≠ none) :
    (hub.setSocket place next).Sound := by
  refine sound.replace there ((sound.sockets place ws there).keeps keeps known) ?_ keeps.opened
  intro id subscribed
  obtain ⟨-, found, read, client, state⟩ := sound.subscribed id place subscribed
  cases there.symm.trans read
  exact ⟨keeps.clientId.trans client, fun closed => state (keeps.closed closed)⟩

/-- Every socket changes and no authorization does. -/
theorem Hub.Sound.map (sound : hub.Sound) {change : LiveSocket → LiveSocket}
    (keeps : ∀ ws : LiveSocket, ws.Keeps (change ws)) (quiet : ∀ ws, (change ws).sent = ws.sent)
    (shut : after.closing = true → hub.closing = true ∨ ∀ ws, (change ws).readyState ≠ .opened)
    (sockets : after.sockets = hub.sockets.map change)
    (subscribers : after.subscribers = hub.subscribers) : after.Sound := by
  refine ⟨?_, ?_, ?_⟩
  · intro place ws read
    rw [sockets, List.getElem?_map, Option.map_eq_some_iff] at read
    obtain ⟨old, there, rfl⟩ := read
    exact (sound.sockets place old there).keeps (keeps old) (.inl (quiet old))
  · intro id place subscribed
    rw [subscribers] at subscribed
    obtain ⟨same, ws, there, client, state⟩ := sound.subscribed id place subscribed
    refine ⟨same, change ws, ?_, (keeps ws).clientId.trans client, ?_⟩
    · rw [sockets, List.getElem?_map, there]
      rfl
    · exact fun closed => state ((keeps ws).closed closed)
  · intro closing ws member
    rw [sockets] at member
    obtain ⟨old, before, rfl⟩ := List.mem_map.mp member
    rcases shut closing with was | all
    · exact fun opened => sound.closing was old before ((keeps old).opened opened)
    · exact all old

theorem Hub.Sound.unsubscribe (sound : hub.Sound) (id : Nat) :
    ({ hub with subscribers := hub.subscribers.delete id } : Hub).Sound :=
  ⟨sound.sockets, fun other place read =>
    sound.subscribed other place (OrderedMap.get_delete_eq_some.mp read).2, sound.closing⟩

theorem Hub.Sound.deliver (sound : hub.Sound) (envelope : WsEnvelope) (throwing : List Nat)
    {entry : Nat × Nat} (kinded : ∀ ws, hub.sockets[entry.2]? = some ws → ws.subscriberKind ≠ none) :
    (hub.deliver envelope throwing entry).Sound := by
  unfold Hub.deliver
  split
  · exact sound
  · rename_i ws there
    split
    · exact sound.unsubscribe _
    · rename_i next sent
      exact sound.setSocket there (keeps_send sent) (.inr (kinded ws there))

/-- A delivery leaves the kind of every socket alone. -/
theorem deliver_kind (envelope : WsEnvelope) (throwing : List Nat) (entry : Nat × Nat)
    (place : Nat) :
    ((hub.deliver envelope throwing entry).sockets[place]?).map (·.subscriberKind) =
      hub.sockets[place]?.map (·.subscriberKind) := by
  unfold Hub.deliver
  split
  · rfl
  · rename_i ws there
    split
    · rfl
    · rename_i next sent
      have inside : entry.2 < hub.sockets.length := (List.getElem?_eq_some_iff.mp there).1
      by_cases own : entry.2 = place
      · subst own
        rw [Hub.setSocket, List.getElem?_set_self inside, there, Option.map_some, Option.map_some,
          (keeps_send sent).subscriberKind]
      · rw [Hub.setSocket, List.getElem?_set_ne own]

theorem Hub.Sound.deliverAll (envelope : WsEnvelope) (throwing : List Nat)
    (entries : List (Nat × Nat)) (sound : hub.Sound)
    (kinded : ∀ entry ∈ entries, ∀ ws, hub.sockets[entry.2]? = some ws →
      ws.subscriberKind ≠ none) :
    (entries.foldl (Hub.deliver envelope throwing) hub).Sound := by
  induction entries generalizing hub with
  | nil => exact sound
  | cons entry rest ih =>
    refine ih (sound.deliver envelope throwing (kinded entry List.mem_cons_self)) ?_
    intro other member ws there
    have kind := @deliver_kind hub envelope throwing entry other.2
    rw [there, Option.map_some] at kind
    obtain ⟨old, before, same⟩ := Option.map_eq_some_iff.mp kind.symm
    rw [← same]
    exact kinded other (List.mem_cons_of_mem _ member) old before

theorem Hub.Sound.broadcast (sound : hub.Sound) (envelope : WsEnvelope) (throwing : List Nat) :
    (hub.broadcast envelope throwing).Sound := by
  refine sound.deliverAll envelope throwing _ ?_
  rintro ⟨id, place⟩ member ws there
  obtain ⟨-, found, read, client, -⟩ :=
    sound.subscribed id place (OrderedMap.get_eq_some.mpr member)
  cases there.symm.trans read
  exact ((sound.sockets place ws there).clientId id client).2

/-- A socket that is not closed is subscribed under its own place. -/
theorem Hub.Sound.subscribe (sound : hub.Sound) (there : hub.sockets[place]? = some ws)
    (client : ws.clientId = some place) (state : ws.readyState ≠ .closed) :
    ({ hub with subscribers := hub.subscribers.set place place } : Hub).Sound := by
  refine ⟨sound.sockets, ?_, sound.closing⟩
  intro id other subscribed
  rcases OrderedMap.get_set_eq_some.mp subscribed with ⟨rfl, rfl⟩ | ⟨-, old⟩
  · exact ⟨rfl, ws, there, client, state⟩
  · exact sound.subscribed id other old

/-- Nothing is known of a socket whose authorization has not resolved. -/
theorem LiveSocket.Sound.pending (sound : ws.Sound place) (pending : ws.authorized = none) :
    ws.subscriberKind = none ∧ ws.clientId = none ∧ ws.sent = [] ∧ ws.replaying = false := by
  have unkinded : ws.subscriberKind = none := by
    refine Option.eq_none_iff_forall_ne_some.mpr fun kind its => ?_
    cases pending.symm.trans (sound.kind kind its)
  refine ⟨unkinded, ?_, ?_, ?_⟩
  · refine Option.eq_none_iff_forall_ne_some.mpr fun id its => ?_
    exact (sound.clientId id its).2 unkinded
  · refine List.eq_nil_iff_forall_not_mem.mpr fun envelope member => ?_
    obtain ⟨kind, its, -⟩ := sound.sent envelope member
    cases unkinded.symm.trans its
  · refine Bool.eq_false_iff.mpr fun replaying => ?_
    cases unkinded.symm.trans (sound.replaying replaying)

theorem Hub.Sound.authorize (sound : hub.Sound) (there : hub.sockets[place]? = some ws)
    (pending : ws.authorized = none) (kind : Option SubscriberKind) :
    (hub.authorize place ws kind).Sound := by
  have inside : place < hub.sockets.length := (List.getElem?_eq_some_iff.mp there).1
  obtain ⟨unkinded, unnamed, unsent, idle⟩ := (sound.sockets place ws there).pending pending
  have alone : ∀ id, hub.subscribers.get id ≠ some place := by
    intro id subscribed
    obtain ⟨-, found, read, client, -⟩ := sound.subscribed id place subscribed
    cases there.symm.trans read
    cases unnamed.symm.trans client
  have refused : (hub.setSocket place { ws with authorized := some kind }.shut).Sound := by
    refine sound.replace there ⟨?_, ?_, ?_, ?_⟩ (fun id its => absurd its (alone id)) ?_
    · intro kind its
      cases unkinded.symm.trans its
    · intro id its
      cases unnamed.symm.trans its
    · intro replaying
      cases idle.symm.trans replaying
    · intro envelope member
      change envelope ∈ ws.sent at member
      rw [unsent] at member
      cases member
    · exact fun state => absurd state (shut_not_opened _)
  unfold Hub.authorize
  simp only
  split
  · exact refused
  rename_i live
  rw [not_or, not_not] at live
  cases kind with
  | none => exact refused
  | some kind =>
    let granted := { ws with authorized := some (some kind) }.connect place kind
    have there' : (hub.setSocket place granted).sockets[place]? = some granted :=
      List.getElem?_set_self inside
    refine Hub.Sound.subscribe ?_ there' rfl ?_
    · refine sound.replace there ⟨?_, ?_, ?_, ?_⟩ (fun id its => absurd its (alone id)) id
      · intro other its
        cases its
        rfl
      · intro id its
        cases its
        exact ⟨rfl, Option.some_ne_none kind⟩
      · intro replaying
        exact congrArg some (of_decide_eq_true replaying)
      · intro envelope member
        change envelope ∈ ws.sent at member
        rw [unsent] at member
        cases member
    · intro closed
      cases live.2.symm.trans closed

theorem sound_new (place : Nat) : LiveSocket.Sound place {} := by
  refine ⟨?_, ?_, ?_, ?_⟩
  · intro kind its
    cases its
  · intro id its
    cases its
  · intro replaying
    cases replaying
  · intro envelope member
    cases member

/-- An event keeps the sockets to what they are authorized for. -/
theorem Hub.Sound.step (sound : hub.Sound) {event : Event} (taken : hub.step event = some after) :
    after.Sound := by
  cases event with
  | upgrade =>
    simp only [Hub.step] at taken
    split at taken
    · cases taken
    rename_i running
    cases taken
    refine ⟨?_, ?_, fun closing => absurd closing running⟩
    · intro place ws read
      by_cases inside : place < hub.sockets.length
      · rw [List.getElem?_append_left inside] at read
        exact sound.sockets place ws read
      · obtain rfl : ws = {} := by
          rw [List.getElem?_append_right (Nat.le_of_not_lt inside)] at read
          exact List.mem_singleton.mp (List.mem_of_getElem? read)
        exact sound_new place
    · intro id place subscribed
      obtain ⟨same, ws, there, rest⟩ := sound.subscribed id place subscribed
      have inside : place < hub.sockets.length := (List.getElem?_eq_some_iff.mp there).1
      exact ⟨same, ws, (List.getElem?_append_left inside).trans there, rest⟩
  | authorized place kind =>
    obtain ⟨ws, there, taken⟩ := Option.bind_eq_some_iff.mp taken
    split at taken
    · rename_i pending
      cases taken
      exact sound.authorize there pending kind
    · cases taken
  | pong place =>
    obtain ⟨ws, there, taken⟩ := Option.bind_eq_some_iff.mp taken
    split at taken
    · cases taken
      exact sound.setSocket there ⟨rfl, rfl, rfl, rfl, id, id, .inl rfl⟩ (.inl rfl)
    · cases taken
  | heartbeat =>
    simp only [Hub.step] at taken
    split at taken
    · cases taken
    · cases taken
      refine sound.map keeps_beat ?_ .inl rfl rfl
      intro ws
      unfold LiveSocket.beat
      split
      · rfl
      split
      · rfl
      · rfl
  | broadcast envelope throwing =>
    cases taken
    exact sound.broadcast envelope throwing
  | replay place text =>
    obtain ⟨ws, there, taken⟩ := Option.bind_eq_some_iff.mp taken
    split at taken
    · rename_i replays
      obtain ⟨next, sent, taken⟩ := Option.bind_eq_some_iff.mp taken
      cases taken
      refine sound.setSocket there (keeps_send sent) (.inr ?_)
      rw [(sound.sockets place ws there).replaying replays.1]
      exact Option.some_ne_none _
    · cases taken
  | buffered place amount =>
    obtain ⟨ws, there, taken⟩ := Option.bind_eq_some_iff.mp taken
    cases taken
    exact sound.setSocket there ⟨rfl, rfl, rfl, rfl, id, id, .inl rfl⟩ (.inl rfl)
  | drop place =>
    obtain ⟨ws, there, taken⟩ := Option.bind_eq_some_iff.mp taken
    cases taken
    exact sound.setSocket there (keeps_shut ws) (.inl rfl)
  | closed place =>
    obtain ⟨ws, there, taken⟩ := Option.bind_eq_some_iff.mp taken
    split at taken
    · rename_i closing
      have own : ({ ws with readyState := .closed } : LiveSocket).Sound place :=
        ⟨(sound.sockets place ws there).kind, (sound.sockets place ws there).clientId,
          (sound.sockets place ws there).replaying, (sound.sockets place ws there).sent⟩
      split at taken
      · rename_i unnamed
        cases taken
        refine sound.replace there own ?_ ?_
        · intro id subscribed
          obtain ⟨-, found, read, client, -⟩ := sound.subscribed id place subscribed
          cases there.symm.trans read
          cases unnamed.symm.trans client
        · intro state
          cases state
      · rename_i clientId named
        cases taken
        refine (sound.unsubscribe clientId).replace there own ?_ ?_
        · intro id subscribed
          obtain ⟨apart, subscribed⟩ := OrderedMap.get_delete_eq_some.mp subscribed
          obtain ⟨-, found, read, client, -⟩ := sound.subscribed id place subscribed
          cases there.symm.trans read
          exact absurd (Option.some.inj (client.symm.trans named)) apart
        · intro state
          cases state
    · cases taken
  | close =>
    simp only [Hub.step] at taken
    split at taken
    · cases taken
      exact sound
    · cases taken
      exact sound.map keeps_shut (fun _ => rfl)
        (fun _ => .inr shut_not_opened) rfl rfl

theorem Hub.sound_of_reachable (reached : Run.Reachable Hub.step Hub.Fresh hub) : hub.Sound := by
  refine reached.invariant ?_ fun _ _ _ sound _ taken => sound.step taken
  rintro _ rfl
  refine ⟨fun place ws read => ?_, fun id place read => ?_, fun closing => ?_⟩
  · cases read
  · cases read
  · cases closing

end Invariant

/-! ## A hub that closes -/

/-- What was sent on the socket of a place. -/
def Hub.sentOn (hub : Hub) (place : Nat) : Option (List WsEnvelope) :=
  hub.sockets[place]?.map (·.sent)

/-- Nothing is sent and nobody subscribes. -/
structure Hub.Silent (before after : Hub) : Prop where
  sent : ∀ place, after.sentOn place = before.sentOn place
  subscribers : ∀ id place, after.subscribers.get id = some place →
    before.subscribers.get id = some place

section Silent

variable {hub after : Hub} {place : Nat} {ws next : LiveSocket}

theorem Hub.Silent.refl (hub : Hub) : hub.Silent hub := ⟨fun _ => rfl, fun _ _ => id⟩

theorem Hub.Silent.trans {first second third : Hub} (one : first.Silent second)
    (two : second.Silent third) : first.Silent third :=
  ⟨fun place => (two.sent place).trans (one.sent place),
    fun id place read => one.subscribers id place (two.subscribers id place read)⟩

theorem silent_setSocket (there : hub.sockets[place]? = some ws) (same : next.sent = ws.sent) :
    hub.Silent (hub.setSocket place next) := by
  refine ⟨fun other => ?_, fun _ _ => id⟩
  by_cases own : place = other
  · subst own
    have inside : place < hub.sockets.length := (List.getElem?_eq_some_iff.mp there).1
    rw [Hub.sentOn, Hub.sentOn, Hub.setSocket, List.getElem?_set_self inside, there,
      Option.map_some, Option.map_some, same]
  · rw [Hub.sentOn, Hub.sentOn, Hub.setSocket, List.getElem?_set_ne own]

theorem silent_unsubscribe (id : Nat) :
    hub.Silent { hub with subscribers := hub.subscribers.delete id } :=
  ⟨fun _ => rfl, fun _ _ read => (OrderedMap.get_delete_eq_some.mp read).2⟩

theorem send_of_not_opened {envelope : WsEnvelope} {throws : Bool} (shut : ws.readyState ≠ .opened) :
    ws.sendEnvelopeToSocket envelope throws = some ws := if_pos shut

theorem deliverAll_of_shut (envelope : WsEnvelope) (throwing : List Nat)
    (entries : List (Nat × Nat)) (shut : ∀ ws ∈ hub.sockets, ws.readyState ≠ .opened) :
    entries.foldl (Hub.deliver envelope throwing) hub = hub := by
  induction entries with
  | nil => rfl
  | cons entry rest ih =>
    have still : hub.deliver envelope throwing entry = hub := by
      unfold Hub.deliver
      split
      · rfl
      · rename_i ws there
        rw [send_of_not_opened (shut ws (List.mem_of_getElem? there))]
        obtain ⟨inside, rfl⟩ := List.getElem?_eq_some_iff.mp there
        simp only [Hub.setSocket, List.set_getElem_self]
    rw [List.foldl_cons, still]
    exact ih

/-- Once the hub closes, an event sends nothing and subscribes nobody. -/
theorem silent_step (sound : hub.Sound) (closing : hub.closing = true) {event : Event}
    (taken : hub.step event = some after) : hub.Silent after ∧ after.closing = true := by
  have shut := sound.closing closing
  cases event with
  | upgrade =>
    rw [Hub.step, if_pos closing] at taken
    cases taken
  | heartbeat =>
    rw [Hub.step, if_pos closing] at taken
    cases taken
  | close =>
    rw [Hub.step, if_pos closing] at taken
    cases taken
    exact ⟨.refl hub, closing⟩
  | broadcast envelope throwing =>
    cases taken
    rw [Hub.broadcast, deliverAll_of_shut envelope throwing _ shut]
    exact ⟨.refl hub, closing⟩
  | authorized place kind =>
    obtain ⟨ws, there, taken⟩ := Option.bind_eq_some_iff.mp taken
    split at taken
    · cases taken
      unfold Hub.authorize
      simp only
      rw [if_pos (.inl closing)]
      exact ⟨silent_setSocket there rfl, closing⟩
    · cases taken
  | pong place =>
    obtain ⟨ws, there, taken⟩ := Option.bind_eq_some_iff.mp taken
    split at taken
    · cases taken
      exact ⟨silent_setSocket there rfl, closing⟩
    · cases taken
  | replay place text =>
    obtain ⟨ws, there, taken⟩ := Option.bind_eq_some_iff.mp taken
    split at taken
    · rw [send_of_not_opened (shut ws (List.mem_of_getElem? there))] at taken
      cases taken
      exact ⟨silent_setSocket there rfl, closing⟩
    · cases taken
  | buffered place amount =>
    obtain ⟨ws, there, taken⟩ := Option.bind_eq_some_iff.mp taken
    cases taken
    exact ⟨silent_setSocket there rfl, closing⟩
  | drop place =>
    obtain ⟨ws, there, taken⟩ := Option.bind_eq_some_iff.mp taken
    cases taken
    exact ⟨silent_setSocket there rfl, closing⟩
  | closed place =>
    obtain ⟨ws, there, taken⟩ := Option.bind_eq_some_iff.mp taken
    split at taken
    · have quiet : hub.Silent (hub.setSocket place { ws with readyState := .closed }) :=
        silent_setSocket there rfl
      split at taken
      · cases taken
        exact ⟨quiet, closing⟩
      · cases taken
        exact ⟨quiet.trans (silent_unsubscribe _), closing⟩
    · cases taken

theorem silent_exec (sound : hub.Sound) (closing : hub.closing = true) {events : List Event}
    (ran : Run.exec Hub.step hub events = some after) : hub.Silent after := by
  induction events generalizing hub with
  | nil =>
    cases ran
    exact .refl _
  | cons event rest ih =>
    obtain ⟨next, taken, ran⟩ := Option.bind_eq_some_iff.mp ran
    obtain ⟨quiet, still⟩ := silent_step sound closing taken
    exact quiet.trans (ih (sound.step taken) still ran)

end Silent

/-- In every run, what is sent on a socket is visible to the kind that it was authorized as; the
subscribers are sockets that were authorized and are not closed; and once the hub closes nothing
more is sent and nobody subscribes, whatever authorizations are still awaited. -/
theorem status_sockets_isolated {hub : Hub} (reached : Run.Reachable Hub.step Hub.Fresh hub) :
    (∀ ws ∈ hub.sockets, ∀ envelope ∈ ws.sent, ∃ kind, ws.authorized = some (some kind) ∧
      envelopeVisibleTo kind envelope = true) ∧
    (∀ id place, hub.subscribers.get id = some place → ∃ ws kind, hub.sockets[place]? = some ws ∧
      ws.readyState ≠ .closed ∧ ws.authorized = some (some kind)) ∧
    (hub.closing = true → ∀ events after, Run.exec Hub.step hub events = some after →
      hub.Silent after) := by
  have sound := Hub.sound_of_reachable reached
  refine ⟨?_, ?_, fun closing events after ran => silent_exec sound closing ran⟩
  · intro ws member envelope sent
    obtain ⟨place, there⟩ := List.getElem?_of_mem member
    obtain ⟨kind, its, visible⟩ := (sound.sockets place ws there).sent envelope sent
    exact ⟨kind, (sound.sockets place ws there).kind kind its, visible⟩
  · intro id place subscribed
    obtain ⟨-, ws, there, client, state⟩ := sound.subscribed id place subscribed
    obtain ⟨kind, its⟩ :=
      Option.ne_none_iff_exists'.mp ((sound.sockets place ws there).clientId id client).2
    exact ⟨ws, kind, there, state, (sound.sockets place ws there).kind kind its⟩

/-- A worker and a monitor, and what is broadcast to them. -/
def workerAndMonitor : List Event :=
  [.upgrade, .upgrade, .authorized 0 (some .worker), .authorized 1 (some .monitor),
    .broadcast ⟨.work, "work"⟩ [], .broadcast ⟨.status, "status"⟩ [], .close]

theorem status_sockets_isolated_run :
    ∃ hub, Run.exec Hub.step {} workerAndMonitor = some hub ∧
      hub.sentOn 0 = some [⟨.work, "work"⟩] ∧ hub.sentOn 1 = some [⟨.status, "status"⟩] ∧
      ∀ ws ∈ hub.sockets, ∀ envelope ∈ ws.sent, ∃ kind, ws.authorized = some (some kind) ∧
        envelopeVisibleTo kind envelope = true := by
  obtain ⟨hub, ran⟩ : ∃ hub, Run.exec Hub.step {} workerAndMonitor = some hub := ⟨_, rfl⟩
  have reached : Run.Reachable Hub.step Hub.Fresh hub := Run.reachable_of_exec rfl ran
  refine ⟨hub, ran, ?_, ?_, (status_sockets_isolated reached).1⟩
  · cases ran
    rfl
  · cases ran
    rfl

/-! ## The heartbeat -/

/-- No socket is opened, and whether each is alive is left alone. -/
def Hub.Calm (before after : Hub) : Prop :=
  ∀ (place : Nat) (ws' : LiveSocket), after.sockets[place]? = some ws' →
    ∃ ws : LiveSocket, before.sockets[place]? = some ws ∧ ws'.isAlive = ws.isAlive ∧
      (ws'.readyState = .opened → ws.readyState = .opened)

/-- What an event may do to one socket. -/
inductive Moved (event : Event) (place : Nat) (before after : LiveSocket) : Prop where
  | calm : after.isAlive = before.isAlive → Moved event place before after
  | beat : event = .heartbeat → after = before.beat → Moved event place before after
  | pong : event = .pong place → after.isAlive = some true → Moved event place before after
  | connected (kind : SubscriberKind) : event = .authorized place (some kind) →
      after.isAlive = some true → Moved event place before after

section Heartbeat

variable {hub before after : Hub} {place : Nat} {ws ws' next : LiveSocket} {event : Event}

theorem Hub.Calm.trans {first second third : Hub} (one : first.Calm second)
    (two : second.Calm third) : first.Calm third := by
  intro place ws' read
  obtain ⟨ws, there, alive, opened⟩ := two place ws' read
  obtain ⟨old, before, was, open'⟩ := one place ws there
  exact ⟨old, before, alive.trans was, open' ∘ opened⟩

theorem calm_of_sockets (same : after.sockets = hub.sockets) : hub.Calm after := by
  intro place ws' read
  exact ⟨ws', same ▸ read, rfl, id⟩

/-- One socket has been replaced. -/
theorem of_setSocket {found : LiveSocket} {other : Nat} (there : hub.sockets[place]? = some ws)
    (read : (hub.setSocket place next).sockets[other]? = some found) :
    other = place ∧ found = next ∨ hub.sockets[other]? = some found := by
  have inside : place < hub.sockets.length := (List.getElem?_eq_some_iff.mp there).1
  by_cases own : place = other
  · subst own
    rw [Hub.setSocket, List.getElem?_set_self inside] at read
    exact .inl ⟨rfl, (Option.some.inj read).symm⟩
  · rw [Hub.setSocket, List.getElem?_set_ne own] at read
    exact .inr read

theorem calm_setSocket (there : hub.sockets[place]? = some ws) (alive : next.isAlive = ws.isAlive)
    (opened : next.readyState = .opened → ws.readyState = .opened) :
    hub.Calm (hub.setSocket place next) := by
  intro other found read
  rcases of_setSocket there read with ⟨rfl, rfl⟩ | old
  · exact ⟨ws, there, alive, opened⟩
  · exact ⟨found, old, rfl, id⟩

theorem isAlive_send {envelope : WsEnvelope} {throws : Bool}
    (sent : ws.sendEnvelopeToSocket envelope throws = some next) : next.isAlive = ws.isAlive := by
  simp only [LiveSocket.sendEnvelopeToSocket] at sent
  split at sent
  · cases sent
    rfl
  split at sent
  · cases sent
    rfl
  split at sent
  · cases sent
    rfl
  split at sent
  · cases sent
  · cases sent
    rfl

theorem calm_deliverAll (envelope : WsEnvelope) (throwing : List Nat) (entries : List (Nat × Nat)) :
    hub.Calm (entries.foldl (Hub.deliver envelope throwing) hub) := by
  induction entries generalizing hub with
  | nil => exact calm_of_sockets rfl
  | cons entry rest ih =>
    refine Hub.Calm.trans ?_ ih
    unfold Hub.deliver
    split
    · exact calm_of_sockets rfl
    · rename_i ws there
      split
      · exact calm_of_sockets rfl
      · rename_i next sent
        exact calm_setSocket there (isAlive_send sent) (keeps_send sent).opened

/-- The socket is shut or connected when its authorization resolves. -/
theorem sockets_authorize (place : Nat) (ws : LiveSocket) (kind : Option SubscriberKind) :
    (hub.authorize place ws kind).sockets =
        (hub.setSocket place { ws with authorized := some kind }.shut).sockets ∨
      ∃ granted, kind = some granted ∧ (hub.authorize place ws kind).sockets =
        (hub.setSocket place ({ ws with authorized := some kind }.connect place granted)).sockets := by
  unfold Hub.authorize
  simp only
  split
  · exact .inl rfl
  · cases kind with
    | none => exact .inl rfl
    | some kind => exact .inr ⟨kind, rfl, rfl⟩

/-- A socket after an event is new, or is an old one that is not opened again. -/
theorem moved_of_step (taken : hub.step event = some after)
    (read : after.sockets[place]? = some ws') :
    (hub.sockets.length ≤ place ∧ ws' = {}) ∨ ∃ ws, hub.sockets[place]? = some ws ∧
      (ws'.readyState = .opened → ws.readyState = .opened) ∧ Moved event place ws ws' := by
  have calm (quiet : hub.Calm after) : ∃ ws, hub.sockets[place]? = some ws ∧
      (ws'.readyState = .opened → ws.readyState = .opened) ∧ Moved event place ws ws' := by
    obtain ⟨ws, there, alive, opened⟩ := quiet place ws' read
    exact ⟨ws, there, opened, .calm alive⟩
  cases event with
  | upgrade =>
    simp only [Hub.step] at taken
    split at taken
    · cases taken
    cases taken
    by_cases inside : place < hub.sockets.length
    · rw [List.getElem?_append_left inside] at read
      exact .inr ⟨ws', read, id, .calm rfl⟩
    · rw [List.getElem?_append_right (Nat.le_of_not_lt inside)] at read
      exact .inl ⟨Nat.le_of_not_lt inside, List.mem_singleton.mp (List.mem_of_getElem? read)⟩
  | authorized other kind =>
    obtain ⟨ws, there, taken⟩ := Option.bind_eq_some_iff.mp taken
    split at taken
    · cases taken
      rcases @sockets_authorize hub other ws kind with shut | ⟨kind, rfl, connected⟩
      · rw [shut] at read
        rcases of_setSocket there read with ⟨rfl, rfl⟩ | old
        · exact .inr ⟨ws, there, (keeps_shut _).opened, .calm rfl⟩
        · exact .inr ⟨ws', old, id, .calm rfl⟩
      · rw [connected] at read
        rcases of_setSocket there read with ⟨rfl, rfl⟩ | old
        · exact .inr ⟨ws, there, id, .connected kind rfl rfl⟩
        · exact .inr ⟨ws', old, id, .calm rfl⟩
    · cases taken
  | pong other =>
    obtain ⟨ws, there, taken⟩ := Option.bind_eq_some_iff.mp taken
    split at taken
    · cases taken
      rcases of_setSocket there read with ⟨rfl, rfl⟩ | old
      · exact .inr ⟨ws, there, id, .pong rfl rfl⟩
      · exact .inr ⟨ws', old, id, .calm rfl⟩
    · cases taken
  | heartbeat =>
    simp only [Hub.step] at taken
    split at taken
    · cases taken
    · cases taken
      rw [List.getElem?_map, Option.map_eq_some_iff] at read
      obtain ⟨ws, there, rfl⟩ := read
      exact .inr ⟨ws, there, (keeps_beat ws).opened, .beat rfl rfl⟩
  | broadcast envelope throwing =>
    cases taken
    exact .inr (calm (calm_deliverAll envelope throwing _))
  | replay other text =>
    obtain ⟨ws, there, taken⟩ := Option.bind_eq_some_iff.mp taken
    split at taken
    · obtain ⟨next, sent, taken⟩ := Option.bind_eq_some_iff.mp taken
      cases taken
      exact .inr (calm (calm_setSocket there (isAlive_send sent) (keeps_send sent).opened))
    · cases taken
  | buffered other amount =>
    obtain ⟨ws, there, taken⟩ := Option.bind_eq_some_iff.mp taken
    cases taken
    exact .inr (calm (calm_setSocket there rfl id))
  | drop other =>
    obtain ⟨ws, there, taken⟩ := Option.bind_eq_some_iff.mp taken
    cases taken
    exact .inr (calm (calm_setSocket there rfl (keeps_shut ws).opened))
  | closed other =>
    obtain ⟨ws, there, taken⟩ := Option.bind_eq_some_iff.mp taken
    split at taken
    · have quiet : hub.Calm (hub.setSocket other { ws with readyState := .closed }) :=
        calm_setSocket there rfl fun state => by cases state
      split at taken
      · cases taken
        exact .inr (calm quiet)
      · cases taken
        exact .inr (calm (quiet.trans (calm_of_sockets rfl)))
    · cases taken
  | close =>
    simp only [Hub.step] at taken
    split at taken
    · cases taken
      exact .inr ⟨ws', read, id, .calm rfl⟩
    · cases taken
      rw [List.getElem?_map, Option.map_eq_some_iff] at read
      obtain ⟨ws, there, rfl⟩ := read
      exact .inr ⟨ws, there, (keeps_shut ws).opened, .calm rfl⟩

theorem length_deliverAll (envelope : WsEnvelope) (throwing : List Nat)
    (entries : List (Nat × Nat)) :
    (entries.foldl (Hub.deliver envelope throwing) hub).sockets.length = hub.sockets.length := by
  induction entries generalizing hub with
  | nil => rfl
  | cons entry rest ih =>
    rw [List.foldl_cons, ih]
    unfold Hub.deliver
    split
    · rfl
    · split
      · rfl
      · exact List.length_set

/-- No socket is forgotten. -/
theorem length_step (taken : hub.step event = some after) :
    hub.sockets.length ≤ after.sockets.length := by
  cases event with
  | upgrade =>
    simp only [Hub.step] at taken
    split at taken
    · cases taken
    · cases taken
      simp
  | authorized other kind =>
    obtain ⟨ws, there, taken⟩ := Option.bind_eq_some_iff.mp taken
    split at taken
    · cases taken
      rcases @sockets_authorize hub other ws kind with same | ⟨granted, -, same⟩
      · simp [same, Hub.setSocket]
      · simp [same, Hub.setSocket]
    · cases taken
  | heartbeat =>
    simp only [Hub.step] at taken
    split at taken
    · cases taken
    · cases taken
      simp
  | broadcast envelope throwing =>
    cases taken
    exact Nat.le_of_eq (length_deliverAll envelope throwing _).symm
  | replay other text =>
    obtain ⟨ws, there, taken⟩ := Option.bind_eq_some_iff.mp taken
    split at taken
    · obtain ⟨next, sent, taken⟩ := Option.bind_eq_some_iff.mp taken
      cases taken
      simp [Hub.setSocket]
    · cases taken
  | close =>
    simp only [Hub.step] at taken
    split at taken
    · cases taken
      exact Nat.le_refl _
    · cases taken
      simp
  | pong other =>
    obtain ⟨ws, there, taken⟩ := Option.bind_eq_some_iff.mp taken
    split at taken
    · cases taken
      simp [Hub.setSocket]
    · cases taken
  | buffered other | drop other =>
    obtain ⟨ws, there, taken⟩ := Option.bind_eq_some_iff.mp taken
    cases taken
    simp [Hub.setSocket]
  | closed other =>
    obtain ⟨ws, there, taken⟩ := Option.bind_eq_some_iff.mp taken
    split at taken
    · split at taken
      all_goals
        cases taken
        simp [Hub.setSocket]
    · cases taken

/-- A socket that is there is a socket that was there, after an event. -/
theorem moved_there (there : hub.sockets[place]? = some ws) (taken : hub.step event = some after) :
    ∃ ws', after.sockets[place]? = some ws' ∧
      (ws'.readyState = .opened → ws.readyState = .opened) ∧ Moved event place ws ws' := by
  have inside : place < hub.sockets.length := (List.getElem?_eq_some_iff.mp there).1
  have still : place < after.sockets.length := Nat.lt_of_lt_of_le inside (length_step taken)
  have read := List.getElem?_eq_getElem still
  refine ⟨_, read, ?_⟩
  rcases moved_of_step taken read with ⟨outside, -⟩ | ⟨old, before, rest⟩
  · exact absurd inside (Nat.not_lt_of_le outside)
  · cases there.symm.trans before
    exact rest

theorem beat_pinged (ws : LiveSocket) :
    ws.beat.readyState = .opened → ws.beat.isAlive = some false := by
  unfold LiveSocket.beat
  split
  · rename_i closed
    intro opened
    cases closed.symm.trans opened
  split
  · exact fun opened => absurd opened (shut_not_opened ws)
  · exact fun _ => rfl

theorem beat_shuts (pinged : ws.readyState = .opened → ws.isAlive = some false) :
    ws.beat.readyState ≠ .opened := by
  unfold LiveSocket.beat
  split
  · rename_i closed
    rw [closed]
    intro state
    cases state
  split
  · exact shut_not_opened ws
  · rename_i alive
    exact fun opened => alive (pinged opened)

/-- A socket that has not answered the last ping stays so, or is shut, as long as it does not. -/
theorem unanswered_exec {events : List Event} (there : hub.sockets[place]? = some ws)
    (pinged : ws.readyState = .opened → ws.isAlive = some false)
    (unanswered : .pong place ∉ events) (unconnected : ∀ kind, .authorized place (some kind) ∉ events)
    (ran : Run.exec Hub.step hub events = some after) :
    ∃ ws', after.sockets[place]? = some ws' ∧
      (ws'.readyState = .opened → ws'.isAlive = some false) := by
  induction events generalizing hub ws with
  | nil =>
    cases ran
    exact ⟨ws, there, pinged⟩
  | cons event rest ih =>
    obtain ⟨next, taken, ran⟩ := Option.bind_eq_some_iff.mp ran
    obtain ⟨middle, found, opened, moved⟩ := moved_there there taken
    refine ih found ?_ (fun later => unanswered (List.mem_cons_of_mem _ later))
      (fun kind later => unconnected kind (List.mem_cons_of_mem _ later)) ran
    cases moved with
    | calm same =>
      rw [same]
      exact pinged ∘ opened
    | beat _ same =>
      rw [same]
      exact beat_pinged ws
    | pong answered _ => exact absurd (answered ▸ List.mem_cons_self) unanswered
    | connected kind granted _ => exact absurd (granted ▸ List.mem_cons_self) (unconnected kind)

theorem alive_pong (taken : hub.step (.pong place) = some after)
    (read : after.sockets[place]? = some ws') : ws'.isAlive = some true := by
  obtain ⟨ws, there, taken⟩ := Option.bind_eq_some_iff.mp taken
  split at taken
  · cases taken
    have inside : place < hub.sockets.length := (List.getElem?_eq_some_iff.mp there).1
    rw [Hub.setSocket, List.getElem?_set_self inside] at read
    cases read
    rfl
  · cases taken

/-- What a heartbeat finds unanswered, an earlier heartbeat has asked. -/
theorem pinged_since {events : List Event} (fresh : hub.Fresh)
    (ran : Run.exec Hub.step hub events = some after) (read : after.sockets[place]? = some ws)
    (pinged : ws.isAlive = some false) :
    ∃ earlier later, events = earlier ++ .heartbeat :: later ∧ .pong place ∉ later := by
  induction events using List.reverseRecOn generalizing after ws with
  | nil =>
    cases ran
    cases fresh
    cases read
  | append_singleton events event ih =>
    rw [Run.exec_append] at ran
    obtain ⟨middle, ran, last⟩ := Option.bind_eq_some_iff.mp ran
    obtain ⟨_, taken, done⟩ := Option.bind_eq_some_iff.mp last
    cases done
    rcases moved_of_step taken read with ⟨-, rfl⟩ | ⟨old, there, -, moved⟩
    · cases pinged
    cases moved with
    | calm same =>
      by_cases beat : event = .heartbeat
      · exact ⟨events, [], by rw [beat], List.not_mem_nil⟩
      obtain ⟨earlier, later, split, unanswered⟩ := ih ran there (same ▸ pinged)
      refine ⟨earlier, later ++ [event], by rw [split, List.append_assoc, List.cons_append], ?_⟩
      rw [List.mem_append, not_or, List.mem_singleton]
      refine ⟨unanswered, ?_⟩
      rintro rfl
      cases (alive_pong taken read).symm.trans pinged
    | beat same _ => exact ⟨events, [], by rw [same], List.not_mem_nil⟩
    | pong _ alive => cases alive.symm.trans pinged
    | connected _ _ alive => cases alive.symm.trans pinged

/-- What the heartbeat does to one socket. -/
theorem beaten_there (there : hub.sockets[place]? = some ws)
    (beaten : hub.step .heartbeat = some after) : after.sockets[place]? = some ws.beat := by
  simp only [Hub.step] at beaten
  split at beaten
  · cases beaten
  · cases beaten
    rw [List.getElem?_map, there]
    rfl

theorem asked_of_shut (opened : ws.readyState = .opened) (shut : ws.beat.readyState ≠ .opened) :
    ws.isAlive = some false := by
  by_contra alive
  refine shut ?_
  have open' : ¬ws.readyState = .closed := by
    rw [opened]
    intro state
    cases state
  rw [LiveSocket.beat, if_neg open', if_neg alive]
  exact opened

/-- From any heartbeat on, a socket that neither answers nor is authorized is closed by the next;
and one that a heartbeat closes has not answered since an earlier heartbeat. -/
theorem heartbeat_closes_silent {events : List Event} (fresh : hub.Fresh)
    (ran : Run.exec Hub.step hub events = some before) (there : before.sockets[place]? = some ws)
    (beaten : before.step .heartbeat = some after) :
    (∀ middle later last, Run.exec Hub.step after middle = some later → .pong place ∉ middle →
      (∀ kind, .authorized place (some kind) ∉ middle) → later.step .heartbeat = some last →
      ∃ ws', last.sockets[place]? = some ws' ∧ ws'.readyState ≠ .opened) ∧
    (ws.readyState = .opened →
      (∀ ws', after.sockets[place]? = some ws' → ws'.readyState ≠ .opened) →
      ∃ earlier later, events = earlier ++ .heartbeat :: later ∧ .pong place ∉ later) := by
  have first := beaten_there there beaten
  constructor
  · intro middle later last passed unanswered unconnected again
    obtain ⟨ws', found, pinged⟩ :=
      unanswered_exec first (beat_pinged ws) unanswered unconnected passed
    exact ⟨ws'.beat, beaten_there found again, beat_shuts pinged⟩
  · intro opened shut
    exact pinged_since fresh ran there (asked_of_shut opened (shut _ first))

/-- One socket answers the first heartbeat and the other does not. -/
theorem heartbeat_closes_silent_run :
    ∃ before after last : Hub, before.step .heartbeat = some after ∧
      Run.exec Hub.step after [.pong 0] = some last ∧ last.step .heartbeat ≠ none ∧
      ∀ final, last.step .heartbeat = some final →
        ∃ ws', final.sockets[1]? = some ws' ∧ ws'.readyState ≠ .opened := by
  let events : List Event :=
    [.upgrade, .upgrade, .authorized 0 (some .worker), .authorized 1 (some .operator)]
  obtain ⟨before, ran⟩ : ∃ hub, Run.exec Hub.step {} events = some hub := ⟨_, rfl⟩
  obtain ⟨after, beaten⟩ : ∃ after, before.step .heartbeat = some after := by
    cases ran
    exact ⟨_, rfl⟩
  obtain ⟨last, passed⟩ : ∃ last, Run.exec Hub.step after [.pong 0] = some last := by
    cases ran
    cases beaten
    exact ⟨_, rfl⟩
  obtain ⟨ws, there⟩ : ∃ ws, before.sockets[1]? = some ws := by
    cases ran
    exact ⟨_, rfl⟩
  refine ⟨before, after, last, beaten, passed, ?_, ?_⟩
  · cases ran
    cases beaten
    cases passed
    intro none
    cases none
  · intro final again
    refine (heartbeat_closes_silent rfl ran there beaten).1 [.pong 0] last final passed ?_ ?_ again
    · decide
    · intro kind member
      cases List.mem_singleton.mp member

end Heartbeat

end BoothOperator.Live
