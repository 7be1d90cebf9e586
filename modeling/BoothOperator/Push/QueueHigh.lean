import BoothOperator.Push.Badges

/-! The queue-high alert. Three of the observations decide whether to send it,
from the flag and the threshold that the row holds; the refresh moves the count
of the row and leaves both alone. At a fixed threshold the flag of a committed
row is therefore what the last decision saw, and an alert is decided exactly
where the count crosses the threshold. -/
namespace BoothOperator.Push

open BoothOperator.Schema

/-- A decision of an observation: the count it saw, and whether it alerts. -/
structure Decision where
  count : Nat
  shouldNotify : Bool
  deriving DecidableEq

/-- The result of the transaction whose upsert returned `state`; the refresh has none. -/
def decision (observation : Observation) (threshold count : Nat) (state : PushNotificationState) :
    Option Decision :=
  let nextActive := decide (threshold ≤ count)
  let activeAtThisThreshold := decide (state.threshold = threshold) && state.active
  match observation with
  | .queueModerationBadgeRefresh => none
  | _ => some { count, shouldNotify := nextActive && !activeAtThisThreshold }

/-- The badge row with the decisions of its observations, in the order they commit. -/
structure Watched where
  world : World := {}
  pending : Option Decision := none
  log : List Decision := []

/-- The result of an observation that is at its update. -/
def Observer.result (observer : Observer) : Option Decision :=
  match observer.stage with
  | .upserted count state => decision observer.observation observer.threshold count state
  | _ => none

def watch (watched : Watched) (action : Action) : Option Watched :=
  (step watched.world action).map fun world =>
    match action with
    | .update => { watched with world, pending := watched.world.observer.bind Observer.result }
    | .commit => { world, log := watched.log ++ watched.pending.toList }
    | .rollback => { watched with world, pending := none }
    | _ => { watched with world }

/-- No replica is at work and the table is empty. -/
def Blank (watched : Watched) : Prop := watched = {}

/-- Observations are made at one threshold. -/
def AtThreshold (threshold : Nat) (_ : Watched) : Action → Prop
  | .observe _ other => other = threshold
  | _ => True

/-- Whether the last of the decisions saw a queue that is high. -/
def high (threshold : Nat) (log : List Decision) : Bool :=
  log.getLast?.any fun last => threshold ≤ last.count

/-- A decision after others alerts on a crossing and on nothing else. -/
def Crossing (threshold : Nat) (log : List Decision) (made : Decision) : Prop :=
  made.shouldNotify = true ↔
    threshold ≤ made.count ∧ ∀ previous, log.getLast? = some previous → previous.count < threshold

def EdgeTriggered (threshold : Nat) (log : List Decision) : Prop :=
  ∀ before made rest, log = before ++ made :: rest → Crossing threshold before made

/-! ## Decisions -/

section Decisions

variable {threshold count : Nat} {observation : Observation} {state row : PushNotificationState}
  {log : List Decision} {made : Decision}

/-- What a decision reads of the row. -/
def alerting (row : PushNotificationState) : Nat × Bool := (row.threshold, row.active)

@[simp] theorem high_nil : high threshold [] = false := rfl

theorem high_eq_false : high threshold log = false ↔
    ∀ previous, log.getLast? = some previous → previous.count < threshold := by
  unfold high
  cases log.getLast? with
  | none => simp
  | some last => simp

theorem edgeTriggered_snoc (triggered : EdgeTriggered threshold log)
    (crossing : Crossing threshold log made) : EdgeTriggered threshold (log ++ [made]) := by
  intro before other rest cut
  rcases List.eq_nil_or_concat rest with rfl | ⟨rest, last, rfl⟩
  · obtain ⟨rfl, same⟩ := List.append_inj' cut rfl
    cases same
    exact crossing
  · have longer : log ++ [made] = (before ++ other :: rest) ++ [last] := by
      rw [cut]
      simp
    obtain ⟨rfl, -⟩ := List.append_inj' longer rfl
    exact triggered before other rest rfl

/-- A decision from a row whose flag is that of the last one. -/
theorem crossing_decision (flag : alerting state = (threshold, high threshold log))
    (made_ : decision observation threshold count state = some made) :
    made.count = count ∧ Crossing threshold log made := by
  simp only [alerting, Prod.mk.injEq] at flag
  have shape : made =
      { count, shouldNotify := decide (threshold ≤ count) && !high threshold log } := by
    cases observation with
    | queueModerationBadgeRefresh => cases made_
    | _ =>
      simp only [decision, flag.1, flag.2, decide_true, Bool.true_and, Option.some.injEq] at made_
      exact made_.symm
  subst shape
  refine ⟨rfl, ?_⟩
  rw [Crossing, ← high_eq_false]
  simp

/-- The flag after the statements of an observation is that of its own decision,
and the refresh keeps it. -/
theorem alerting_updated (flag : alerting state = (threshold, high threshold log))
    (same : alerting row = alerting state) :
    alerting ((updated observation threshold count state row).getD row) =
      (threshold, high threshold (log ++ (decision observation threshold count state).toList)) := by
  rw [flag] at same
  cases observation with
  | notifyMessageReceived => simp [updated, decision, alerting, high]
  | observeModerationQueue => simp [updated, decision, alerting, high]
  | queueModerationBadgeRefresh => simpa [updated, decision, alerting] using same
  | reconcileModerationBadgeState =>
    have last : high threshold (log ++ (decision .reconcileModerationBadgeState threshold count
        state).toList) = decide (threshold ≤ count) := by
      simp [decision, high]
    rw [last]
    simp only [alerting, Prod.mk.injEq] at flag same ⊢
    simp only [updated, flag.1, flag.2]
    by_cases crossed : high threshold log = decide (threshold ≤ count)
    · by_cases stale : state.badgeCount ≠ count ∨
          state.badgeVersion = 0 ∧ state.badgeDeliveredVersion = 0
      · simp [crossed, stale, same]
      · simp [crossed, stale, same]
    · by_cases stale : state.badgeCount ≠ count ∨
          state.badgeVersion = 0 ∧ state.badgeDeliveredVersion = 0
      · simp [crossed, stale]
      · simp [crossed, stale]

end Decisions

/-! ## Runs -/

/-- What the open observation knows at its stage. -/
def InStage (threshold : Nat) (watched : Watched) (observer : Observer) : Prop :=
  match observer.stage with
  | .upserted _ state => watched.pending = none ∧
      alerting state = (threshold, high threshold watched.log) ∧
        (observer.row watched.world).map alerting =
          some (threshold, high threshold watched.log)
  | .finished => (∀ made, watched.pending = some made → Crossing threshold watched.log made) ∧
      (observer.row watched.world).map alerting =
        some (threshold, high threshold (watched.log ++ watched.pending.toList))
  | _ => watched.pending = none ∧ observer.draft = none

/-- The flag of the row is what the last decision saw. -/
structure Flagged (threshold : Nat) (watched : Watched) : Prop where
  triggered : EdgeTriggered threshold watched.log
  stored : ∀ row, watched.world.state = some row →
    alerting row = (threshold, high threshold watched.log)
  empty : watched.world.state = none → watched.log = []
  fixed : ∀ observer, watched.world.observer = some observer → observer.threshold = threshold
  staged : ∀ observer, watched.world.observer = some observer → InStage threshold watched observer
  idle : watched.world.observer = none → watched.pending = none

section Runs

variable {threshold : Nat} {watched : Watched} {world after : World}

theorem flagged_blank (blank : Blank watched) : Flagged threshold watched := by
  subst blank
  refine ⟨?_, ?_, fun _ => rfl, ?_, ?_, fun _ => rfl⟩
  · intro before made rest cut
    cases before with
    | nil => cases cut
    | cons _ _ => cases cut
  · intro row stored
    cases stored
  · intro observer open_
    cases open_
  · intro observer open_
    cases open_

theorem alerting_updateMany {found : PushNotificationState → Bool}
    {change : PushNotificationState → PushNotificationState}
    (keeps : ∀ row, alerting (change row) = alerting row) :
    (world.updateMany found change).1.state.map alerting = world.state.map alerting ∧
      (world.updateMany found change).1.observer = world.observer := by
  unfold World.updateMany
  cases stored : world.state with
  | none => simp [stored]
  | some row =>
    by_cases matched : found row = true
    · simp [matched, keeps]
    · simp [matched, stored]

/-- A dispatcher leaves the flag and the open observation alone. -/
theorem alerting_act {phase : Dispatcher} {dispatcher : Nat} {action : Action}
    (taken : phase.act world dispatcher action = some after) :
    after.state.map alerting = world.state.map alerting ∧ after.observer = world.observer := by
  unfold Dispatcher.act at taken
  split at taken
  · cases taken
    exact ⟨rfl, rfl⟩
  · split at taken
    · cases taken
    · cases taken
      unfold claimModerationBadge
      simp only
      split
      · exact alerting_updateMany fun _ => rfl
      · exact alerting_updateMany fun _ => rfl
  · split at taken
    · cases taken
    · cases taken
      exact alerting_updateMany fun _ => rfl
  · cases taken
    exact ⟨rfl, rfl⟩
  · cases taken
    exact ⟨rfl, rfl⟩
  · split at taken
    · cases taken
    · cases taken
      exact alerting_updateMany fun _ => rfl
  · split at taken
    · cases taken
    · cases taken
      exact alerting_updateMany fun _ => rfl
  · cases taken

/-- A step that keeps the flag of the row and the open observation. -/
theorem Flagged.frame (flagged : Flagged threshold watched)
    (state : after.state.map alerting = watched.world.state.map alerting)
    (observer : after.observer = watched.world.observer) :
    Flagged threshold { watched with world := after } := by
  have rows (open_ : Observer) :
      (open_.row after).map alerting = (open_.row watched.world).map alerting := by
    unfold Observer.row
    rw [Option.map_or, Option.map_or, state]
  refine ⟨flagged.triggered, ?_, ?_, ?_, ?_, ?_⟩
  · intro row stored
    have there : watched.world.state.map alerting = some (alerting row) := by
      rw [← state]
      exact congrArg (Option.map alerting) stored
    obtain ⟨old, before, same⟩ := Option.map_eq_some_iff.mp there
    rw [← same]
    exact flagged.stored old before
  · intro absent
    have before : watched.world.state.map alerting = none := by
      rw [← state]
      exact congrArg (Option.map alerting) absent
    exact flagged.empty (Option.map_eq_none_iff.mp before)
  · intro open_ same
    exact flagged.fixed open_ (observer ▸ same)
  · intro open_ same
    have staged := flagged.staged open_ (observer ▸ same)
    unfold InStage at staged ⊢
    simp only [rows]
    exact staged
  · intro closed
    exact flagged.idle (observer ▸ closed)

/-- A statement of the open observation that is not its last. -/
theorem Flagged.observing (flagged : Flagged threshold watched) {open_ : Observer}
    {pending : Option Decision} (fixed : open_.threshold = threshold)
    (staged : InStage threshold
      { watched with world := { watched.world with observer := some open_ }, pending } open_) :
    Flagged threshold
      { watched with world := { watched.world with observer := some open_ }, pending } := by
  refine ⟨flagged.triggered, flagged.stored, flagged.empty, ?_, ?_, ?_⟩
  · intro other same
    cases same
    exact fixed
  · intro other same
    cases same
    exact staged
  · intro closed
    cases closed

theorem flagged_upsert (flagged : Flagged threshold watched) {observer : Observer}
    (open_ : watched.world.observer = some observer)
    (taken : advance watched.world observer .upsert = some after) :
    Flagged threshold { watched with world := after } := by
  have fixed := flagged.fixed observer open_
  have staged := flagged.staged observer open_
  simp only [advance] at taken
  split at taken
  · rename_i count stage
    rw [InStage, stage] at staged
    obtain ⟨pending, undrafted⟩ := staged
    split at taken
    · rename_i row seen
      cases taken
      have stored : watched.world.state = some row := by
        rw [Observer.row, undrafted, Option.none_or] at seen
        exact seen
      have flag := flagged.stored row stored
      refine flagged.observing fixed ⟨pending, flag, ?_⟩
      rw [Observer.row, undrafted, Option.none_or]
      exact (congrArg (Option.map alerting) stored).trans (congrArg some flag)
    · rename_i absent
      cases taken
      have unstored : watched.world.state = none := (Option.or_eq_none_iff.mp absent).2
      have new : alerting (created observer.observation observer.threshold count) =
          (threshold, high threshold watched.log) := by
        rw [flagged.empty unstored, high_nil, ← fixed]
        cases observer.observation with
        | notifyMessageReceived => rfl
        | observeModerationQueue => rfl
        | queueModerationBadgeRefresh => rfl
        | reconcileModerationBadgeState => rfl
      exact flagged.observing fixed ⟨pending, new, congrArg some new⟩
  · cases taken

theorem flagged_update (flagged : Flagged threshold watched) {observer : Observer}
    (open_ : watched.world.observer = some observer)
    (taken : advance watched.world observer .update = some after) :
    Flagged threshold { watched with world := after, pending := observer.result } := by
  have fixed := flagged.fixed observer open_
  have staged := flagged.staged observer open_
  simp only [advance] at taken
  split at taken
  · rename_i count state stage
    rw [InStage, stage] at staged
    obtain ⟨-, flag, seen⟩ := staged
    obtain ⟨row, there, same⟩ := Option.map_eq_some_iff.mp seen
    have made : observer.result = decision observer.observation threshold count state := by
      rw [Observer.result, stage, fixed]
    have written : alerting ((updated observer.observation threshold count state row).getD row) =
        (threshold, high threshold (watched.log ++
          (decision observer.observation threshold count state).toList)) :=
      alerting_updated flag (same.trans flag.symm)
    cases taken
    refine flagged.observing fixed ⟨?_, ?_⟩
    · intro own decided
      rw [made] at decided
      exact (crossing_decision flag decided).2
    · have after : (((observer.row watched.world).bind
          (updated observer.observation observer.threshold count state)).or observer.draft).or
            watched.world.state =
          some ((updated observer.observation threshold count state row).getD row) := by
        rw [there, fixed, Option.bind_some]
        cases updated observer.observation threshold count state row with
        | some new => rfl
        | none => exact there
      rw [made, ← written]
      exact congrArg (Option.map alerting) after
  · cases taken

theorem flagged_commit (flagged : Flagged threshold watched) {observer : Observer}
    (open_ : watched.world.observer = some observer)
    (taken : advance watched.world observer .commit = some after) :
    Flagged threshold { world := after, log := watched.log ++ watched.pending.toList } := by
  have staged := flagged.staged observer open_
  have triggered (crossing : ∀ made, watched.pending = some made →
      Crossing threshold watched.log made) :
      EdgeTriggered threshold (watched.log ++ watched.pending.toList) := by
    cases made : watched.pending with
    | none => simpa using flagged.triggered
    | some own => exact edgeTriggered_snoc flagged.triggered (crossing own made)
  simp only [advance] at taken
  split at taken
  · rename_i row stage written
    rw [InStage, stage] at staged
    obtain ⟨crossing, seen⟩ := staged
    cases taken
    refine ⟨triggered crossing, ?_, ?_, ?_, ?_, fun _ => rfl⟩
    · intro stored same
      cases same
      rw [Observer.row, written, Option.some_or, Option.map_some] at seen
      exact Option.some.inj seen
    · intro absent
      cases absent
    · intro other same
      cases same
    · intro other same
      cases same
  · rename_i stage undrafted
    rw [InStage, stage] at staged
    obtain ⟨crossing, seen⟩ := staged
    cases taken
    rw [Observer.row, undrafted, Option.none_or] at seen
    refine ⟨triggered crossing, ?_, ?_, ?_, ?_, fun _ => rfl⟩
    · intro stored same
      have there : watched.world.state = some stored := same
      rw [there, Option.map_some] at seen
      exact Option.some.inj seen
    · intro absent
      have gone : watched.world.state = none := absent
      rw [gone] at seen
      cases seen
    · intro other same
      cases same
    · intro other same
      cases same
  · cases taken

theorem flagged_rollback (flagged : Flagged threshold watched) :
    Flagged threshold { watched with
      world := { watched.world with observer := none }, pending := none } := by
  refine ⟨flagged.triggered, flagged.stored, flagged.empty, ?_, ?_, fun _ => rfl⟩
  · intro other same
    cases same
  · intro other same
    cases same

theorem flagged_watch (flagged : Flagged threshold watched) {action : Action} {next : Watched}
    (fixed : AtThreshold threshold watched action) (taken : watch watched action = some next) :
    Flagged threshold next := by
  obtain ⟨world, moved, rfl⟩ := Option.map_eq_some_iff.mp taken
  have dispatched (number : Nat) (own : action.dispatcher = some number)
      (acted : ((watched.world.dispatchers[number]?).bind fun phase =>
        phase.act watched.world number action) = some world) :
      Flagged threshold { watched with world } := by
    obtain ⟨phase, -, acted⟩ := Option.bind_eq_some_iff.mp acted
    obtain ⟨state, observer⟩ := alerting_act acted
    exact flagged.frame state observer
  cases action with
  | observe observation other =>
    simp only [step] at moved
    split at moved
    · rename_i closed
      cases moved
      exact flagged.observing fixed ⟨flagged.idle closed, rfl⟩
    · cases moved
  | dispatch =>
    cases moved
    exact flagged.frame rfl rfl
  | crash dispatcher =>
    cases moved
    exact flagged.frame rfl rfl
  | count count =>
    obtain ⟨observer, open_, moved⟩ := Option.bind_eq_some_iff.mp moved
    have staged := flagged.staged observer open_
    simp only [advance] at moved
    split at moved
    · rename_i stage
      rw [InStage, stage] at staged
      cases moved
      exact flagged.observing (flagged.fixed observer open_) staged
    · cases moved
  | upsert =>
    obtain ⟨observer, open_, moved⟩ := Option.bind_eq_some_iff.mp moved
    exact flagged_upsert flagged open_ moved
  | update =>
    obtain ⟨observer, open_, moved⟩ := Option.bind_eq_some_iff.mp moved
    simp only [open_, Option.bind_some]
    exact flagged_update flagged open_ moved
  | commit =>
    obtain ⟨observer, open_, moved⟩ := Option.bind_eq_some_iff.mp moved
    exact flagged_commit flagged open_ moved
  | rollback =>
    obtain ⟨observer, open_, moved⟩ := Option.bind_eq_some_iff.mp moved
    cases moved
    exact flagged_rollback flagged
  | read dispatcher now => exact dispatched dispatcher rfl moved
  | claim dispatcher => exact dispatched dispatcher rfl moved
  | renew dispatcher now => exact dispatched dispatcher rfl moved
  | sent dispatcher => exact dispatched dispatcher rfl moved
  | failed dispatcher => exact dispatched dispatcher rfl moved
  | complete dispatcher => exact dispatched dispatcher rfl moved
  | release dispatcher => exact dispatched dispatcher rfl moved

/-- **The alert of a full queue is edge triggered**: along every interleaving of
the observations, the refresh and the dispatchers, a decision alerts exactly
when its count has reached the threshold and the one before it had not. -/
theorem queueHigh_edge_triggered {watched : Watched}
    (reached : Run.ReachableUnder watch Blank (AtThreshold threshold) watched) :
    EdgeTriggered threshold watched.log :=
  (reached.invariant (fun _ => flagged_blank)
    fun _ _ _ flagged fixed taken => flagged_watch flagged fixed taken).triggered

end Runs

/-- An observation that nothing disturbs. -/
def observed (observation : Observation) (threshold count : Nat) : List Action :=
  [.observe observation threshold, .count count, .upsert, .update, .commit]

/-- The queue grows past the threshold of two, with a refresh in between. -/
def refreshed : List Action :=
  observed .reconcileModerationBadgeState 2 1 ++ observed .notifyMessageReceived 2 2 ++
    observed .queueModerationBadgeRefresh 2 0 ++ observed .observeModerationQueue 2 3

theorem queueHigh_edge_triggered_refreshed : ∃ watched, Run.exec watch {} refreshed = some watched ∧
    watched.log = [⟨1, false⟩, ⟨2, true⟩, ⟨3, false⟩] ∧ EdgeTriggered 2 watched.log := by
  have ran : ∃ watched, Run.exec watch {} refreshed = some watched ∧
      watched.log = [⟨1, false⟩, ⟨2, true⟩, ⟨3, false⟩] := ⟨_, rfl, rfl⟩
  obtain ⟨watched, ran, log⟩ := ran
  have allowed : Run.Along watch (fun s a _ => AtThreshold 2 s a) {} refreshed := by
    simp [refreshed, observed, Run.Along, AtThreshold]
  have blank : Blank {} := rfl
  exact ⟨watched, ran, log,
    queueHigh_edge_triggered ((Run.ReachableUnder.initial blank).exec allowed ran)⟩

end BoothOperator.Push
