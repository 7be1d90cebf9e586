import Mathlib.Algebra.Ring.Nat
import Mathlib.Data.List.Basic
import Mathlib.Order.Lattice
import BoothOperator.Lib.Run

/-! The one status socket of the console, `BoothWebSocketProvider`. Its effect runs each time the
provider mounts or is enabled, and the sockets and timers of an effect that has been cleaned up may
still report after the next one has begun. -/
namespace BoothOperator.Console

inductive BoothWebSocketState where
  | polling | connecting | live
  deriving DecidableEq

inductive SocketState where
  | connecting | opened | closing | closed
  deriving DecidableEq

/-- A `WebSocket` of the browser, and whether its `open` event has come. -/
structure BrowserSocket where
  readyState : SocketState := .connecting
  announced : Bool := false
  deriving DecidableEq

/-- The variables of one run of the effect, and the sockets it has made. -/
structure SocketEffect where
  sockets : List BrowserSocket := []
  socket : Option Nat := none
  /-- The wait of the timer that is armed. -/
  retry : Option Nat := none
  attempt : Nat := 0
  closed : Bool := false
  deriving DecidableEq

/-- The effects so far, the last of them mounted unless it is closed, and what they have set. -/
structure Provider where
  effects : List SocketEffect := []
  state : BoothWebSocketState := .polling
  connectionStatus : Option Bool := none
  deriving DecidableEq

def RECONNECT_BASE_MS : Nat := 1000

def RECONNECT_MAX_MS : Nat := 30000

def reconnectDelay (attempt : Nat) : Nat :=
  min RECONNECT_MAX_MS (RECONNECT_BASE_MS * 2 ^ attempt)

/-- `current.close()`. -/
def BrowserSocket.close (ws : BrowserSocket) : BrowserSocket :=
  { ws with
    readyState :=
      match ws.readyState with
      | .closed => .closed
      | _ => .closing }

namespace SocketEffect

def setSocket (effect : SocketEffect) (place : Nat) (ws : BrowserSocket) : SocketEffect :=
  { effect with sockets := effect.sockets.set place ws }

def reconnect (effect : SocketEffect) : SocketEffect :=
  if effect.closed ∨ effect.retry ≠ none then effect
  else { effect with
    retry := some (reconnectDelay effect.attempt)
    attempt := effect.attempt + 1 }

/-- `throws` when the URL of the socket is malformed. -/
def connect (effect : SocketEffect) (throws : Bool) : SocketEffect :=
  if throws then effect.reconnect
  else { effect with
    sockets := effect.sockets ++ [{}]
    socket := some effect.sockets.length }

/-- What the effect returns to be called when it is over. -/
def cleanup (effect : SocketEffect) : SocketEffect :=
  let effect := { effect with closed := true, retry := none }
  match effect.socket with
  | none => effect
  | some place =>
    match effect.sockets[place]? with
    | none => effect
    | some ws => effect.setSocket place ws.close

end SocketEffect

inductive SocketEvent where
  | mount (throws : Bool)
  | cleanup
  | timer (run : Nat) (throws : Bool)
  | opened (run place : Nat)
  | error (run place : Nat)
  | closed (run place : Nat)
  deriving DecidableEq

namespace Provider

def setEffect (provider : Provider) (run : Nat) (effect : SocketEffect) : Provider :=
  { provider with effects := provider.effects.set run effect }

/-- What `connect` sets `state` to. -/
def connectState (throws : Bool) : BoothWebSocketState :=
  if throws then .polling else .connecting

/-- The effect is cleaned up before it runs again. A socket opens while it is connecting, may fail
as long as it is not closed, and has its `close` event once. -/
def step (provider : Provider) : SocketEvent → Option Provider
  | .mount throws =>
    if ∀ effect ∈ provider.effects, effect.closed then
      some { provider with
        effects := provider.effects ++ [SocketEffect.connect {} throws]
        state := connectState throws }
    else none
  | .cleanup => do
    let effect ← provider.effects.getLast?
    if effect.closed then none
    else some (provider.setEffect (provider.effects.length - 1) effect.cleanup)
  | .timer run throws => do
    let effect ← provider.effects[run]?
    if effect.retry = none then none
    else
      let effect := { effect with retry := none }
      if effect.closed then some (provider.setEffect run effect)
      else some { provider.setEffect run (effect.connect throws) with state := connectState throws }
  | .opened run place => do
    let effect ← provider.effects[run]?
    let ws ← effect.sockets[place]?
    if ws.readyState = .connecting then
      let effect := effect.setSocket place { ws with readyState := .opened, announced := true }
      some { provider.setEffect run { effect with attempt := 0 } with
        state := .live
        connectionStatus := some true }
    else none
  | .error run place => do
    let effect ← provider.effects[run]?
    let ws ← effect.sockets[place]?
    if ws.readyState = .closed then none
    else if effect.socket ≠ some place then some provider
    else some { provider.setEffect run (effect.setSocket place ws.close) with
      connectionStatus := some false }
  | .closed run place => do
    let effect ← provider.effects[run]?
    let ws ← effect.sockets[place]?
    if ws.readyState = .closed then none
    else
      let effect := effect.setSocket place { ws with readyState := .closed }
      if effect.closed ∨ effect.socket ≠ some place then some (provider.setEffect run effect)
      else some { provider.setEffect run { effect with socket := none }.reconnect with
        state := .polling }

def Fresh (provider : Provider) : Prop := provider = {}

end Provider

/-! ## One effect -/

/-- What an effect that holds this is showing. -/
def SocketEffect.shown (effect : SocketEffect) : BoothWebSocketState :=
  match effect.socket with
  | none => .polling
  | some place =>
    match effect.sockets[place]? with
    | none => .polling
    | some ws => if ws.announced then .live else .connecting

/-- An effect that is over has let go of everything; one that is not holds the one socket that is
not closed, or else waits to make the next. -/
structure SocketEffect.Sound (effect : SocketEffect) : Prop where
  ended : effect.closed = true → effect.retry = none ∧
    ∀ ws ∈ effect.sockets, ws.readyState = .closing ∨ ws.readyState = .closed
  held : effect.closed = false → ∀ place, effect.socket = some place → effect.retry = none ∧
    ∃ ws, effect.sockets[place]? = some ws ∧ ws.readyState ≠ .closed ∧
      (ws.announced = true → effect.attempt = 0)
  waiting : effect.closed = false → effect.socket = none →
    ∃ attempt, effect.attempt = attempt + 1 ∧ effect.retry = some (reconnectDelay attempt)
  others : effect.closed = false → ∀ place (ws : BrowserSocket), effect.sockets[place]? = some ws →
    ws.readyState = .closed ∨ effect.socket = some place

/-- An effect that is about to connect or to wait. -/
structure SocketEffect.Idle (effect : SocketEffect) : Prop where
  mounted : effect.closed = false
  socket : effect.socket = none
  retry : effect.retry = none
  sockets : ∀ ws ∈ effect.sockets, ws.readyState = .closed

section Effect

variable {effect next : SocketEffect} {place : Nat} {ws ws' : BrowserSocket}

theorem reconnect_of_idle (idle : effect.Idle) :
    effect.reconnect = { effect with
      retry := some (reconnectDelay effect.attempt)
      attempt := effect.attempt + 1 } := by
  simp [SocketEffect.reconnect, idle.mounted, idle.retry]

theorem SocketEffect.Idle.reconnect (idle : effect.Idle) : effect.reconnect.Sound := by
  rw [reconnect_of_idle idle]
  refine ⟨?_, ?_, ?_, ?_⟩
  · intro ended
    cases ended.symm.trans idle.mounted
  · intro _ place holds
    cases holds.symm.trans idle.socket
  · intro _ _
    exact ⟨effect.attempt, rfl, rfl⟩
  · intro _ place ws there
    exact .inl (idle.sockets ws (List.mem_of_getElem? there))

theorem SocketEffect.Idle.connect (idle : effect.Idle) (throws : Bool) :
    (effect.connect throws).Sound ∧ (effect.connect throws).closed = false ∧
      (effect.connect throws).shown = Provider.connectState throws := by
  cases throws with
  | true =>
    refine ⟨idle.reconnect, ?_, ?_⟩
    · rw [SocketEffect.connect, if_pos rfl, reconnect_of_idle idle]
      exact idle.mounted
    · rw [SocketEffect.connect, if_pos rfl, reconnect_of_idle idle, SocketEffect.shown, idle.socket]
      rfl
  | false =>
    have made : (effect.sockets ++ [({} : BrowserSocket)])[effect.sockets.length]? = some {} :=
      List.getElem?_concat_length
    refine ⟨⟨?_, ?_, ?_, ?_⟩, idle.mounted, ?_⟩
    · intro ended
      cases ended.symm.trans idle.mounted
    · intro _ place holds
      cases holds
      refine ⟨idle.retry, {}, made, ?_, ?_⟩
      · intro state
        cases state
      · intro announced
        cases announced
    · intro _ none
      cases none
    · intro _ place ws there
      by_cases inside : place < effect.sockets.length
      · have old : effect.sockets[place]? = some ws := by
          rw [← there]
          exact (List.getElem?_append_left inside).symm
        exact .inl (idle.sockets ws (List.mem_of_getElem? old))
      · have bound : place < (effect.sockets ++ [({} : BrowserSocket)]).length :=
          (List.getElem?_eq_some_iff.mp there).1
        rw [List.length_append, List.length_singleton] at bound
        have last : place = effect.sockets.length := by omega
        rw [last]
        exact .inr rfl
    · simp [SocketEffect.connect, SocketEffect.shown, Provider.connectState]

/-- The socket that is held changes, and is not closed yet. -/
theorem SocketEffect.Sound.setSocket (sound : effect.Sound) (mounted : effect.closed = false)
    (holds : effect.socket = some place) (state : ws'.readyState ≠ .closed)
    (reset : ws'.announced = true → effect.attempt = 0) : (effect.setSocket place ws').Sound := by
  obtain ⟨unarmed, ws, there, -⟩ := sound.held mounted place holds
  have inside : place < effect.sockets.length := (List.getElem?_eq_some_iff.mp there).1
  refine ⟨?_, ?_, ?_, ?_⟩
  · intro ended
    cases ended.symm.trans mounted
  · intro _ other same
    cases holds.symm.trans same
    exact ⟨unarmed, ws', List.getElem?_set_self inside, state, reset⟩
  · intro _ none
    cases holds.symm.trans none
  · intro _ other found read
    by_cases same : place = other
    · exact .inr (same ▸ holds)
    · refine sound.others mounted other found ?_
      rw [← read]
      exact (List.getElem?_set_ne same).symm

/-- A socket of an effect that is over changes. -/
theorem SocketEffect.Sound.late (sound : effect.Sound) (ended : effect.closed = true)
    (state : ws'.readyState = .closing ∨ ws'.readyState = .closed) :
    (effect.setSocket place ws').Sound := by
  refine ⟨?_, ?_, ?_, ?_⟩
  · intro _
    refine ⟨(sound.ended ended).1, ?_⟩
    intro ws member
    rcases List.mem_or_eq_of_mem_set member with old | rfl
    · exact (sound.ended ended).2 ws old
    · exact state
  all_goals
    intro mounted
    cases mounted.symm.trans ended

theorem close_closing (ws : BrowserSocket) :
    ws.close.readyState = .closing ∨ ws.close.readyState = .closed := by
  unfold BrowserSocket.close
  split
  · exact .inr rfl
  · exact .inl rfl

theorem close_not_closed (state : ws.readyState ≠ .closed) : ws.close.readyState ≠ .closed := by
  unfold BrowserSocket.close
  split
  · contradiction
  · intro state
    cases state

theorem SocketEffect.cleanup_closed (effect : SocketEffect) : effect.cleanup.closed = true := by
  simp only [SocketEffect.cleanup]
  split
  · rfl
  · split
    · rfl
    · rfl

theorem SocketEffect.Sound.cleanup (sound : effect.Sound) (mounted : effect.closed = false) :
    effect.cleanup.Sound := by
  have others (place : Nat) (ws : BrowserSocket) (there : effect.sockets[place]? = some ws) :=
    sound.others mounted place ws there
  refine ⟨?_, ?_, ?_, ?_⟩
  · intro _
    unfold SocketEffect.cleanup
    cases holds : effect.socket with
    | none =>
      refine ⟨rfl, ?_⟩
      intro ws member
      obtain ⟨place, there⟩ := List.getElem?_of_mem member
      have closed := (others place ws there).resolve_right (holds ▸ (Option.some_ne_none place).symm)
      exact .inr closed
    | some place =>
      obtain ⟨-, ws, there, -⟩ := sound.held mounted place holds
      simp only [there]
      refine ⟨rfl, ?_⟩
      intro found member
      obtain ⟨other, read⟩ := List.getElem?_of_mem member
      have inside : place < effect.sockets.length := (List.getElem?_eq_some_iff.mp there).1
      by_cases same : place = other
      · subst same
        rw [SocketEffect.setSocket, List.getElem?_set_self inside] at read
        cases read
        exact close_closing ws
      · rw [SocketEffect.setSocket, List.getElem?_set_ne same] at read
        rcases others other found read with closed | held
        · exact .inr closed
        · cases holds.symm.trans held
          contradiction
  all_goals
    intro mounted
    cases mounted.symm.trans effect.cleanup_closed

/-- The socket that is held has closed. -/
theorem SocketEffect.Sound.retire (sound : effect.Sound) (mounted : effect.closed = false)
    (holds : effect.socket = some place) (state : ws'.readyState = .closed) :
    ({ effect.setSocket place ws' with socket := none } : SocketEffect).Idle := by
  refine ⟨mounted, rfl, (sound.held mounted place holds).1, ?_⟩
  intro ws member
  obtain ⟨-, old, there, -⟩ := sound.held mounted place holds
  have inside : place < effect.sockets.length := (List.getElem?_eq_some_iff.mp there).1
  obtain ⟨other, read⟩ := List.getElem?_of_mem member
  by_cases same : place = other
  · subst same
    rw [SocketEffect.setSocket, List.getElem?_set_self inside] at read
    cases read
    exact state
  · rw [SocketEffect.setSocket, List.getElem?_set_ne same] at read
    rcases sound.others mounted other ws read with closed | held
    · exact closed
    · cases holds.symm.trans held
      contradiction

/-- The timer that is armed has fired. -/
theorem SocketEffect.Sound.fired (sound : effect.Sound) (mounted : effect.closed = false)
    (armed : effect.retry ≠ none) : ({ effect with retry := none } : SocketEffect).Idle := by
  have unheld : effect.socket = none := by
    cases holds : effect.socket with
    | none => rfl
    | some place => exact absurd (sound.held mounted place holds).1 armed
  refine ⟨mounted, unheld, rfl, ?_⟩
  intro ws member
  obtain ⟨place, there⟩ := List.getElem?_of_mem member
  refine (sound.others mounted place ws there).resolve_right ?_
  rw [unheld]
  exact (Option.some_ne_none place).symm

theorem shown_setSocket (there : effect.sockets[place]? = some ws)
    (holds : effect.socket = some place) :
    (effect.setSocket place ws').shown = if ws'.announced then .live else .connecting := by
  have inside : place < effect.sockets.length := (List.getElem?_eq_some_iff.mp there).1
  have read : (effect.setSocket place ws').sockets[place]? = some ws' :=
    List.getElem?_set_self inside
  have still : (effect.setSocket place ws').socket = some place := holds
  simp only [SocketEffect.shown, still, read]

theorem shown_held (there : effect.sockets[place]? = some ws)
    (holds : effect.socket = some place) :
    effect.shown = if ws.announced then .live else .connecting := by
  simp only [SocketEffect.shown, holds, there]

end Effect

/-! ## All of them -/

structure Provider.Sound (provider : Provider) : Prop where
  effects : ∀ (run : Nat) (effect : SocketEffect), provider.effects[run]? = some effect → effect.Sound
  past : ∀ (run : Nat) (effect : SocketEffect), provider.effects[run]? = some effect →
    effect.closed = false → run + 1 = provider.effects.length
  state : ∀ (run : Nat) (effect : SocketEffect), provider.effects[run]? = some effect →
    effect.closed = false → provider.state = effect.shown

section Runs

variable {provider after : Provider} {event : SocketEvent} {run place : Nat}
  {effect next : SocketEffect} {ws : BrowserSocket}

/-- One effect changes: when it is over it stays so, and sets nothing. -/
theorem Provider.Sound.replace (sound : provider.Sound)
    (there : provider.effects[run]? = some effect)
    (effects : after.effects = provider.effects.set run next) (own : next.Sound)
    (ended : effect.closed = true → next.closed = true ∧ after.state = provider.state)
    (shows : next.closed = false → after.state = next.shown) : after.Sound := by
  have inside : run < provider.effects.length := (List.getElem?_eq_some_iff.mp there).1
  have read (other : Nat) (found : SocketEffect) (at' : after.effects[other]? = some found) :
      other = run ∧ found = next ∨ run ≠ other ∧ provider.effects[other]? = some found := by
    rw [effects] at at'
    by_cases same : run = other
    · subst same
      rw [List.getElem?_set_self inside] at at'
      exact .inl ⟨rfl, (Option.some.inj at').symm⟩
    · rw [List.getElem?_set_ne same] at at'
      exact .inr ⟨same, at'⟩
  have mounted (open' : next.closed = false) : effect.closed = false := by
    by_contra closed
    cases open'.symm.trans (ended ((Bool.not_eq_false _).mp closed)).1
  refine ⟨?_, ?_, ?_⟩
  · intro other found at'
    rcases read other found at' with ⟨rfl, rfl⟩ | ⟨-, old⟩
    · exact own
    · exact sound.effects other found old
  · intro other found at' open'
    rw [effects, List.length_set]
    rcases read other found at' with ⟨rfl, rfl⟩ | ⟨-, old⟩
    · exact sound.past other effect there (mounted open')
    · exact sound.past other found old open'
  · intro other found at' open'
    rcases read other found at' with ⟨rfl, rfl⟩ | ⟨apart, old⟩
    · exact shows open'
    · have closed : effect.closed = true := by
        by_contra still
        have mine := sound.past run effect there ((Bool.not_eq_true _).mp still)
        have its := sound.past other found old open'
        omega
      rw [(ended closed).2]
      exact sound.state other found old open'

theorem Provider.Sound.step (sound : provider.Sound) (taken : provider.step event = some after) :
    after.Sound := by
  cases event with
  | mount throws =>
    simp only [Provider.step] at taken
    split at taken
    · rename_i ended
      cases taken
      have idle : SocketEffect.Idle {} := ⟨rfl, rfl, rfl, by simp⟩
      obtain ⟨own, -, shown⟩ := idle.connect throws
      have read (other : Nat) (found : SocketEffect)
          (at' : (provider.effects ++ [SocketEffect.connect {} throws])[other]? = some found) :
          other = provider.effects.length ∧ found = SocketEffect.connect {} throws ∨
            provider.effects[other]? = some found := by
        by_cases inside : other < provider.effects.length
        · rw [List.getElem?_append_left inside] at at'
          exact .inr at'
        · have bound := (List.getElem?_eq_some_iff.mp at').1
          rw [List.length_append, List.length_singleton] at bound
          have last : other = provider.effects.length := by omega
          subst last
          rw [List.getElem?_concat_length] at at'
          exact .inl ⟨rfl, (Option.some.inj at').symm⟩
      refine ⟨?_, ?_, ?_⟩
      · intro other found at'
        rcases read other found at' with ⟨-, rfl⟩ | old
        · exact own
        · exact sound.effects other found old
      · intro other found at' open'
        rcases read other found at' with ⟨rfl, -⟩ | old
        · simp
        · cases open'.symm.trans (ended found (List.mem_of_getElem? old))
      · intro other found at' open'
        rcases read other found at' with ⟨-, rfl⟩ | old
        · exact shown.symm
        · cases open'.symm.trans (ended found (List.mem_of_getElem? old))
    · cases taken
  | cleanup =>
    obtain ⟨effect, last, taken⟩ := Option.bind_eq_some_iff.mp taken
    split at taken
    · cases taken
    · rename_i open'
      cases taken
      have mounted : effect.closed = false := (Bool.not_eq_true _).mp open'
      rw [List.getLast?_eq_getElem?] at last
      refine sound.replace last rfl ((sound.effects _ effect last).cleanup mounted) ?_ ?_
      · intro ended
        cases ended.symm.trans mounted
      · intro still
        cases still.symm.trans effect.cleanup_closed
  | timer run throws =>
    obtain ⟨effect, there, taken⟩ := Option.bind_eq_some_iff.mp taken
    split at taken
    · cases taken
    rename_i armed
    have own := sound.effects run effect there
    have mounted : effect.closed = false := by
      by_contra ended
      exact armed (own.ended ((Bool.not_eq_false _).mp ended)).1
    simp only at taken
    split at taken
    · rename_i ended
      cases ended.symm.trans mounted
    · cases taken
      obtain ⟨next, -, shown⟩ := (own.fired mounted armed).connect throws
      refine sound.replace there rfl next ?_ fun _ => shown.symm
      intro ended
      cases ended.symm.trans mounted
  | opened run place =>
    obtain ⟨effect, there, taken⟩ := Option.bind_eq_some_iff.mp taken
    obtain ⟨ws, found, taken⟩ := Option.bind_eq_some_iff.mp taken
    split at taken
    · rename_i connecting
      cases taken
      have own := sound.effects run effect there
      have mounted : effect.closed = false := by
        by_contra ended
        have gone := (own.ended ((Bool.not_eq_false _).mp ended)).2 ws (List.mem_of_getElem? found)
        rw [connecting] at gone
        rcases gone with state | state
        all_goals cases state
      have holds : effect.socket = some place := by
        refine (own.others mounted place ws found).resolve_left ?_
        rw [connecting]
        intro state
        cases state
      have reset : ({ effect with attempt := 0 } : SocketEffect).Sound := by
        refine ⟨own.ended, ?_, ?_, own.others⟩
        · intro _ other same
          obtain ⟨unarmed, ws, there, state, -⟩ := own.held mounted other same
          exact ⟨unarmed, ws, there, state, fun _ => rfl⟩
        · intro _ none
          cases holds.symm.trans none
      have next : (({ effect with attempt := 0 } : SocketEffect).setSocket place
          { ws with readyState := .opened, announced := true }).Sound := by
        refine reset.setSocket mounted holds ?_ fun _ => rfl
        intro state
        cases state
      refine sound.replace there rfl next ?_ ?_
      · intro ended
        cases ended.symm.trans mounted
      · intro _
        have shown : (effect.setSocket place
            { ws with readyState := .opened, announced := true }).shown = .live := by
          rw [shown_setSocket found holds]
          rfl
        exact shown.symm
    · cases taken
  | error run place =>
    obtain ⟨effect, there, taken⟩ := Option.bind_eq_some_iff.mp taken
    obtain ⟨ws, found, taken⟩ := Option.bind_eq_some_iff.mp taken
    split at taken
    · cases taken
    rename_i state
    split at taken
    · cases taken
      exact sound
    · rename_i holds
      cases taken
      have own := sound.effects run effect there
      have holds : effect.socket = some place := not_not.mp holds
      refine sound.replace there rfl ?_ (fun ended => ⟨ended, rfl⟩) ?_
      · by_cases ended : effect.closed = true
        · exact own.late ended (close_closing ws)
        · have mounted : effect.closed = false := (Bool.not_eq_true _).mp ended
          obtain ⟨-, held, read, -, reset⟩ := own.held mounted place holds
          cases found.symm.trans read
          exact own.setSocket mounted holds (close_not_closed state) reset
      · intro mounted
        have was := shown_held found holds
        rw [shown_setSocket found holds]
        exact (sound.state run effect there mounted).trans was
  | closed run place =>
    obtain ⟨effect, there, taken⟩ := Option.bind_eq_some_iff.mp taken
    obtain ⟨ws, found, taken⟩ := Option.bind_eq_some_iff.mp taken
    split at taken
    · cases taken
    rename_i state
    have own := sound.effects run effect there
    by_cases ended : effect.closed = true
    · rw [if_pos (.inl ended)] at taken
      cases taken
      refine sound.replace there rfl (own.late ended (.inr rfl)) (fun ended => ⟨ended, rfl⟩) ?_
      intro mounted
      cases mounted.symm.trans ended
    · have mounted : effect.closed = false := (Bool.not_eq_true _).mp ended
      have holds : effect.socket = some place :=
        (own.others mounted place ws found).resolve_left state
      have stays : ¬((effect.setSocket place { ws with readyState := .closed }).closed = true ∨
          (effect.setSocket place { ws with readyState := .closed }).socket ≠ some place) :=
        not_or.mpr ⟨ended, not_not.mpr holds⟩
      simp only at taken
      rw [if_neg stays] at taken
      cases taken
      have idle : ({ effect.setSocket place { ws with readyState := .closed } with
          socket := none } : SocketEffect).Idle := own.retire mounted holds rfl
      refine sound.replace there rfl idle.reconnect ?_ ?_
      · intro ended
        cases ended.symm.trans mounted
      · intro _
        rw [reconnect_of_idle idle]
        rfl

theorem Provider.sound_of_reachable (reached : Run.Reachable Provider.step Provider.Fresh provider) :
    provider.Sound := by
  refine reached.invariant ?_ fun _ _ _ sound _ taken => sound.step taken
  rintro provider rfl
  refine ⟨?_, ?_, ?_⟩
  all_goals
    intro run effect none
    cases none

/-- A socket of one of the effects that can carry frames, or soon will. -/
def Provider.Connected (provider : Provider) (run place : Nat) : Prop :=
  ∃ (effect : SocketEffect) (ws : BrowserSocket), provider.effects[run]? = some effect ∧
    effect.sockets[place]? = some ws ∧ (ws.readyState = .connecting ∨ ws.readyState = .opened)

theorem Provider.Sound.connected (sound : provider.Sound) (connected : provider.Connected run place) :
    ∃ effect, provider.effects[run]? = some effect ∧ run + 1 = provider.effects.length ∧
      effect.socket = some place := by
  obtain ⟨effect, ws, there, found, state⟩ := connected
  have own := sound.effects run effect there
  have mounted : effect.closed = false := by
    by_contra ended
    have gone := (own.ended ((Bool.not_eq_false _).mp ended)).2 ws (List.mem_of_getElem? found)
    rcases gone with gone | gone
    all_goals
      rw [gone] at state
      rcases state with state | state
      all_goals cases state
  refine ⟨effect, there, sound.past run effect there mounted, ?_⟩
  refine (own.others mounted place ws found).resolve_left ?_
  intro closed
  rw [closed] at state
  rcases state with state | state
  all_goals cases state

/-- However its effects come and go and however late their sockets report, the console has one
connection at most. An effect that is over waits for nothing; one that is mounted has a socket that
is not closed or waits to make one, never both, and `state` says which. -/
theorem one_status_socket (reached : Run.Reachable Provider.step Provider.Fresh provider) :
    (∀ run place other there, provider.Connected run place → provider.Connected other there →
      run = other ∧ place = there) ∧
    ∀ (run : Nat) (effect : SocketEffect), provider.effects[run]? = some effect →
      (effect.closed = true → effect.retry = none) ∧
      (effect.closed = false → provider.state = effect.shown ∧
        (effect.retry = none ↔ ∃ place ws, effect.socket = some place ∧
          effect.sockets[place]? = some ws ∧ ws.readyState ≠ .closed)) := by
  have sound := Provider.sound_of_reachable reached
  constructor
  · intro run place other there one two
    obtain ⟨effect, mine, last, holds⟩ := sound.connected one
    obtain ⟨found, its, also, held⟩ := sound.connected two
    have same : run = other := by omega
    subst same
    cases mine.symm.trans its
    exact ⟨rfl, Option.some.inj (holds.symm.trans held)⟩
  · intro run effect there
    have own := sound.effects run effect there
    refine ⟨fun ended => (own.ended ended).1, fun mounted => ⟨sound.state run effect there mounted, ?_⟩⟩
    constructor
    · intro unarmed
      cases holds : effect.socket with
      | none =>
        obtain ⟨_, _, armed⟩ := own.waiting mounted holds
        cases unarmed.symm.trans armed
      | some place =>
        obtain ⟨-, ws, found, state, -⟩ := own.held mounted place holds
        exact ⟨place, ws, rfl, found, state⟩
    · rintro ⟨place, ws, holds, -, -⟩
      exact (own.held mounted place holds).1

/-- A first socket opens and closes, its successor too late for its effect, whose own has opened. -/
theorem one_status_socket_run :
    ∃ provider, Run.exec Provider.step {} [.mount false, .opened 0 0, .closed 0 0, .timer 0 false,
      .cleanup, .mount true, .timer 1 false, .opened 1 0, .closed 0 1] = some provider ∧
      provider.state = .live ∧
      ∀ run place other there, provider.Connected run place → provider.Connected other there →
        run = other ∧ place = there := by
  obtain ⟨provider, ran⟩ : ∃ provider, Run.exec Provider.step {} [.mount false, .opened 0 0,
    .closed 0 0, .timer 0 false, .cleanup, .mount true, .timer 1 false, .opened 1 0, .closed 0 1] =
      some provider := ⟨_, rfl⟩
  refine ⟨provider, ran, ?_, (one_status_socket (Run.reachable_of_exec rfl ran)).1⟩
  cases ran
  rfl

/-! ## The waits -/

theorem reconnectDelay_mono {earlier later : Nat} (grew : earlier ≤ later) :
    reconnectDelay earlier ≤ reconnectDelay later := by
  have power : 2 ^ earlier ≤ 2 ^ later := Nat.pow_le_pow_right (by decide) grew
  have scaled : RECONNECT_BASE_MS * 2 ^ earlier ≤ RECONNECT_BASE_MS * 2 ^ later :=
    Nat.mul_le_mul_left _ power
  simp only [reconnectDelay]
  omega

theorem attempt_reconnect (effect : SocketEffect) : effect.attempt ≤ effect.reconnect.attempt := by
  unfold SocketEffect.reconnect
  split
  · exact Nat.le_refl _
  · exact Nat.le_succ _

theorem attempt_connect (effect : SocketEffect) (throws : Bool) :
    effect.attempt ≤ (effect.connect throws).attempt := by
  cases throws with
  | true => exact attempt_reconnect effect
  | false => exact Nat.le_refl _

theorem attempt_cleanup (effect : SocketEffect) : effect.cleanup.attempt = effect.attempt := by
  simp only [SocketEffect.cleanup]
  split
  · rfl
  · split
    · rfl
    · rfl

/-- An effect is there as long as the provider, one of its sockets opens or it counts no less. -/
theorem attempt_setEffect {other : Nat} {found : SocketEffect}
    (there : provider.effects[run]? = some effect) (read : provider.effects[other]? = some found)
    (effects : after.effects = provider.effects.set other next)
    (grew : other = run → found.attempt ≤ next.attempt ∨ ∃ place, event = .opened run place) :
    ∃ later, after.effects[run]? = some later ∧
      (effect.attempt ≤ later.attempt ∨ ∃ place, event = .opened run place) := by
  have inside : other < provider.effects.length := (List.getElem?_eq_some_iff.mp read).1
  rw [effects]
  by_cases same : other = run
  · subst same
    cases there.symm.trans read
    exact ⟨next, List.getElem?_set_self inside, grew rfl⟩
  · exact ⟨effect, (List.getElem?_set_ne same).trans there, .inl (Nat.le_refl _)⟩

theorem attempt_step (there : provider.effects[run]? = some effect)
    (taken : provider.step event = some after) :
    ∃ later, after.effects[run]? = some later ∧
      (effect.attempt ≤ later.attempt ∨ ∃ place, event = .opened run place) := by
  cases event with
  | mount throws =>
    simp only [Provider.step] at taken
    split at taken
    · cases taken
      have inside : run < provider.effects.length := (List.getElem?_eq_some_iff.mp there).1
      exact ⟨effect, (List.getElem?_append_left inside).trans there, .inl (Nat.le_refl _)⟩
    · cases taken
  | cleanup =>
    obtain ⟨found, last, taken⟩ := Option.bind_eq_some_iff.mp taken
    rw [List.getLast?_eq_getElem?] at last
    split at taken
    · cases taken
    · cases taken
      exact attempt_setEffect there last rfl fun _ => .inl (Nat.le_of_eq (attempt_cleanup _).symm)
  | timer other throws =>
    obtain ⟨found, read, taken⟩ := Option.bind_eq_some_iff.mp taken
    split at taken
    · cases taken
    simp only at taken
    split at taken
    · cases taken
      exact attempt_setEffect there read rfl fun _ => .inl (Nat.le_refl _)
    · cases taken
      exact attempt_setEffect there read rfl fun _ => .inl (attempt_connect { found with retry := none } _)
  | opened other place =>
    obtain ⟨found, read, taken⟩ := Option.bind_eq_some_iff.mp taken
    obtain ⟨ws, _, taken⟩ := Option.bind_eq_some_iff.mp taken
    split at taken
    · cases taken
      refine attempt_setEffect there read rfl ?_
      rintro rfl
      exact .inr ⟨place, rfl⟩
    · cases taken
  | error other place =>
    obtain ⟨found, read, taken⟩ := Option.bind_eq_some_iff.mp taken
    obtain ⟨ws, _, taken⟩ := Option.bind_eq_some_iff.mp taken
    split at taken
    · cases taken
    split at taken
    · cases taken
      exact ⟨effect, there, .inl (Nat.le_refl _)⟩
    · cases taken
      exact attempt_setEffect there read rfl fun _ => .inl (Nat.le_refl _)
  | closed other place =>
    obtain ⟨found, read, taken⟩ := Option.bind_eq_some_iff.mp taken
    obtain ⟨ws, _, taken⟩ := Option.bind_eq_some_iff.mp taken
    split at taken
    · cases taken
    simp only at taken
    split at taken
    · cases taken
      exact attempt_setEffect there read rfl fun _ => .inl (Nat.le_refl _)
    · cases taken
      exact attempt_setEffect there read rfl fun _ => .inl (attempt_reconnect
        { found.setSocket place { ws with readyState := .closed } with socket := none })

theorem attempt_exec {events : List SocketEvent} (there : provider.effects[run]? = some effect)
    (unopened : ∀ place, .opened run place ∉ events)
    (ran : Run.exec Provider.step provider events = some after) :
    ∃ later, after.effects[run]? = some later ∧ effect.attempt ≤ later.attempt := by
  induction events generalizing provider effect with
  | nil =>
    cases ran
    exact ⟨effect, there, Nat.le_refl _⟩
  | cons event rest ih =>
    obtain ⟨middle, taken, ran⟩ := Option.bind_eq_some_iff.mp ran
    obtain ⟨found, read, grew⟩ := attempt_step there taken
    obtain ⟨later, last, more⟩ :=
      ih read (fun place member => unopened place (List.mem_cons_of_mem _ member)) ran
    refine ⟨later, last, Nat.le_trans ?_ more⟩
    rcases grew with grew | ⟨place, rfl⟩
    · exact grew
    · exact absurd List.mem_cons_self (unopened place)

theorem Provider.Sound.waits (sound : provider.Sound) (there : provider.effects[run]? = some effect)
    {delay : Nat} (armed : effect.retry = some delay) :
    ∃ attempt, effect.attempt = attempt + 1 ∧ delay = reconnectDelay attempt := by
  have own := sound.effects run effect there
  have mounted : effect.closed = false := by
    by_contra ended
    cases armed.symm.trans (own.ended ((Bool.not_eq_false _).mp ended)).1
  have unheld : effect.socket = none := by
    cases holds : effect.socket with
    | none => rfl
    | some place => cases armed.symm.trans (own.held mounted place holds).1
  obtain ⟨attempt, counted, its⟩ := own.waiting mounted unheld
  exact ⟨attempt, counted, Option.some.inj (armed.symm.trans its)⟩

/-- An effect whose socket had opened starts to count again when that closes. -/
theorem attempt_retired {later : SocketEffect} {wait : Nat} (sound : provider.Sound)
    (there : provider.effects[run]? = some effect) (holds : effect.socket = some place)
    (found : effect.sockets[place]? = some ws) (announced : ws.announced = true)
    (taken : provider.step (.closed run place) = some after)
    (last : after.effects[run]? = some later) (waits : later.retry = some wait) :
    later.attempt = 1 := by
  have own := sound.effects run effect there
  have inside : run < provider.effects.length := (List.getElem?_eq_some_iff.mp there).1
  obtain ⟨_, read, taken⟩ := Option.bind_eq_some_iff.mp taken
  cases there.symm.trans read
  obtain ⟨_, read, taken⟩ := Option.bind_eq_some_iff.mp taken
  cases found.symm.trans read
  split at taken
  · cases taken
  simp only at taken
  split at taken
  · rename_i ended
    cases taken
    cases Option.some.inj ((List.getElem?_set_self inside).symm.trans last)
    rcases ended with ended | other
    · cases waits.symm.trans (own.ended ended).1
    · exact absurd holds other
  · rename_i ended
    cases taken
    have mounted : effect.closed = false := (Bool.not_eq_true _).mp (not_or.mp ended).1
    have idle : ({ effect.setSocket place { ws with readyState := .closed } with
        socket := none } : SocketEffect).Idle := own.retire mounted holds rfl
    obtain ⟨-, _, read, -, reset⟩ := own.held mounted place holds
    cases found.symm.trans read
    have same := (List.getElem?_set_self inside).symm.trans last
    rw [reconnect_of_idle idle] at same
    cases Option.some.inj same
    exact congrArg (· + 1) (reset announced)

/-- Until a socket opens the waits of an effect never get shorter, and none is over thirty seconds;
the one after a socket that had opened is a second. -/
theorem reconnect_waits_grow {events : List SocketEvent} {later : SocketEffect} {wait : Nat}
    (reached : Run.Reachable Provider.step Provider.Fresh provider)
    (ran : Run.exec Provider.step provider events = some after)
    (there : provider.effects[run]? = some effect) (last : after.effects[run]? = some later)
    (waits : later.retry = some wait) :
    wait ≤ RECONNECT_MAX_MS ∧
    (∀ delay, effect.retry = some delay → (∀ place, .opened run place ∉ events) → delay ≤ wait) ∧
    (∀ place ws, effect.socket = some place → effect.sockets[place]? = some ws →
      ws.announced = true → events = [.closed run place] → wait = RECONNECT_BASE_MS) := by
  have sound := Provider.sound_of_reachable reached
  have reached' : Run.Reachable Provider.step Provider.Fresh after :=
    reached.exec Run.along_trivial ran
  obtain ⟨count, counted, rfl⟩ := (Provider.sound_of_reachable reached').waits last waits
  refine ⟨Nat.min_le_left _ _, ?_, ?_⟩
  · intro delay armed unopened
    obtain ⟨attempt, tried, rfl⟩ := sound.waits there armed
    obtain ⟨found, read, grew⟩ := attempt_exec there unopened ran
    cases last.symm.trans read
    exact reconnectDelay_mono (by omega)
  · rintro place ws holds found announced rfl
    have taken : provider.step (.closed run place) = some after := by
      obtain ⟨_, taken, done⟩ := Option.bind_eq_some_iff.mp ran
      cases done
      exact taken
    have started := attempt_retired sound there holds found announced taken last waits
    have first : count = 0 := by omega
    rw [first]
    rfl

/-- A socket that never opens, and one that does. -/
theorem reconnect_waits_grow_run :
    ∃ provider after effect later, Run.exec Provider.step {} [.mount true, .timer 0 true] =
        some provider ∧
      Run.exec Provider.step provider [.timer 0 true] = some after ∧
      provider.effects[0]? = some effect ∧ after.effects[0]? = some later ∧
      effect.retry = some 2000 ∧ later.retry = some 4000 ∧ 4000 ≤ RECONNECT_MAX_MS ∧ 2000 ≤ 4000 := by
  obtain ⟨provider, ran⟩ : ∃ provider, Run.exec Provider.step {} [.mount true, .timer 0 true] =
    some provider := ⟨_, rfl⟩
  obtain ⟨after, again⟩ : ∃ after, Run.exec Provider.step provider [.timer 0 true] = some after := by
    cases ran
    exact ⟨_, rfl⟩
  obtain ⟨effect, there, armed⟩ : ∃ effect : SocketEffect, provider.effects[0]? = some effect ∧
      effect.retry = some 2000 := by
    cases ran
    exact ⟨_, rfl, rfl⟩
  obtain ⟨later, last, waits⟩ : ∃ later : SocketEffect, after.effects[0]? = some later ∧
      later.retry = some 4000 := by
    cases ran
    cases again
    exact ⟨_, rfl, rfl⟩
  have grow := reconnect_waits_grow (Run.reachable_of_exec rfl ran) again there last waits
  refine ⟨provider, after, effect, later, ran, again, there, last, armed, waits, grow.1, ?_⟩
  refine grow.2.1 2000 armed ?_
  intro place member
  cases List.mem_singleton.mp member

end Runs

end BoothOperator.Console
