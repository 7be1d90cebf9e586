import Mathlib.Data.List.Basic

/-! Runs of a system that moves by a partial step function: an action is either
enabled, and then has one successor, or it is not. An interleaving of several
parties is a list of their actions, so a statement about every interleaving is
a statement about every list. -/
namespace BoothOperator.Run

variable {σ α : Type*} {step : σ → α → Option σ} {init : σ → Prop} {ok : σ → α → Prop}

/-- Take the actions in order, stopping at the first that is not enabled. -/
def exec (step : σ → α → Option σ) : σ → List α → Option σ
  | state, [] => some state
  | state, action :: rest => (step state action).bind fun next => exec step next rest

/-- The states a run meets, the first one included. -/
def trace (step : σ → α → Option σ) : σ → List α → List σ
  | state, [] => [state]
  | state, action :: rest =>
    state :: match step state action with
      | none => []
      | some next => trace step next rest

/-- The states met by the runs all of whose steps are taken as `ok` allows. -/
inductive ReachableUnder (step : σ → α → Option σ) (init : σ → Prop) (ok : σ → α → Prop) :
    σ → Prop where
  | initial {state : σ} : init state → ReachableUnder step init ok state
  | next {state after : σ} {action : α} : ReachableUnder step init ok state → ok state action →
      step state action = some after → ReachableUnder step init ok after

/-- The states met by any run at all. -/
abbrev Reachable (step : σ → α → Option σ) (init : σ → Prop) : σ → Prop :=
  ReachableUnder step init fun _ _ => True

/-- Every transition of the run from a state satisfies the relation. -/
def Along (step : σ → α → Option σ) (holds : σ → α → σ → Prop) : σ → List α → Prop
  | _, [] => True
  | state, action :: rest => ∀ after, step state action = some after →
      holds state action after ∧ Along step holds after rest

/-- Whether a relation holds along a run is found by taking the run. -/
instance Along.decidable {holds : σ → α → σ → Prop} [∀ s a s', Decidable (holds s a s')]
    (state : σ) : (actions : List α) → Decidable (Along step holds state actions)
  | [] => isTrue trivial
  | action :: rest =>
    match taken : step state action with
    | none => isTrue fun _ reached => nomatch taken.symm.trans reached
    | some next =>
      have : Decidable (Along step holds next rest) := Along.decidable next rest
      decidable_of_iff (holds state action next ∧ Along step holds next rest)
        ⟨fun both _ reached => Option.some.inj (taken.symm.trans reached) ▸ both,
          fun along => along next taken⟩

/-- What every allowed step preserves holds of every state such runs meet. -/
theorem ReachableUnder.invariant {inv : σ → Prop} {state : σ}
    (reached : ReachableUnder step init ok state) (start : ∀ s, init s → inv s)
    (preserved : ∀ s a s', inv s → ok s a → step s a = some s' → inv s') : inv state := by
  induction reached with
  | initial first => exact start _ first
  | next _ allowed taken ih => exact preserved _ _ _ ih allowed taken

theorem exec_append (state : σ) (first second : List α) :
    exec step state (first ++ second) =
      (exec step state first).bind fun middle => exec step middle second := by
  induction first generalizing state with
  | nil => rfl
  | cons action rest ih =>
    simp only [List.cons_append, exec]
    cases step state action with
    | none => rfl
    | some next => exact ih next

/-- The state that a run has come to is one that it meets. -/
theorem mem_trace_of_exec {state middle : σ} {first : List α}
    (ran : exec step state first = some middle) (rest : List α) :
    middle ∈ trace step state (first ++ rest) := by
  induction first generalizing state with
  | nil =>
    cases ran
    cases rest with
    | nil => exact List.mem_singleton_self _
    | cons action rest => exact List.mem_cons_self
  | cons action first ih =>
    obtain ⟨next, taken, ran⟩ := Option.bind_eq_some_iff.mp ran
    refine List.mem_cons_of_mem _ ?_
    rw [taken]
    exact ih ran

/-- A run of allowed steps from a reachable state ends in a reachable state. -/
theorem ReachableUnder.exec {state after : σ} {actions : List α}
    (reached : ReachableUnder step init ok state)
    (allowed : Along step (fun s a _ => ok s a) state actions)
    (ran : Run.exec step state actions = some after) : ReachableUnder step init ok after := by
  induction actions generalizing state with
  | nil => cases ran; exact reached
  | cons action rest ih =>
    simp only [Run.exec, Option.bind_eq_some_iff] at ran
    obtain ⟨next, taken, ran⟩ := ran
    obtain ⟨here, later⟩ := allowed next taken
    exact ih (reached.next here taken) later ran

theorem along_trivial {state : σ} {actions : List α} :
    Along step (fun _ _ _ => True) state actions := by
  induction actions generalizing state with
  | nil => trivial
  | cons action rest ih => exact fun after _ => ⟨trivial, ih⟩

/-- A run that starts in an initial state reaches its end. -/
theorem reachable_of_exec {start after : σ} {actions : List α} (first : init start)
    (ran : Run.exec step start actions = some after) : Reachable step init after :=
  (ReachableUnder.initial first).exec along_trivial ran

/-- What holds along a run holds of its last transition. -/
theorem Along.last {holds : σ → α → σ → Prop} {start before after : σ} {first : List α} {action : α}
    (along : Along step holds start (first ++ [action])) (ran : Run.exec step start first = some before)
    (taken : step before action = some after) : holds before action after := by
  induction first generalizing start with
  | nil =>
    cases ran
    exact (along after taken).1
  | cons head rest ih =>
    simp only [Run.exec, Option.bind_eq_some_iff] at ran
    obtain ⟨next, here, later⟩ := ran
    exact ih (along next here).2 later

/-- What holds of every allowed transition between states of the invariant holds
along the runs whose transitions are allowed. -/
theorem Along.of_invariant {inv : σ → Prop} {allowed holds : σ → α → σ → Prop}
    (preserved : ∀ s a s', inv s → allowed s a s' → step s a = some s' → inv s')
    (sound : ∀ s a s', inv s → inv s' → allowed s a s' → step s a = some s' → holds s a s')
    {state : σ} (start : inv state) {actions : List α} (along : Along step allowed state actions) :
    Along step holds state actions := by
  induction actions generalizing state with
  | nil => trivial
  | cons action rest ih =>
    intro after taken
    obtain ⟨here, later⟩ := along after taken
    have kept := preserved _ _ _ start here taken
    exact ⟨sound _ _ _ start kept here taken, ih kept later⟩

theorem along_of_invariant {inv : σ → Prop} {holds : σ → α → σ → Prop}
    (preserved : ∀ s a s', inv s → step s a = some s' → inv s')
    (sound : ∀ s a s', inv s → inv s' → step s a = some s' → holds s a s')
    {state : σ} (start : inv state) (actions : List α) : Along step holds state actions :=
  Along.of_invariant (fun s a s' kept _ => preserved s a s' kept)
    (fun s a s' kept later _ => sound s a s' kept later) start along_trivial

/-- Two relations that agree on every transition hold along the same runs. -/
theorem along_congr {holds holds' : σ → α → σ → Prop}
    (agree : ∀ s a s', step s a = some s' → (holds s a s' ↔ holds' s a s'))
    (state : σ) (actions : List α) :
    Along step holds state actions ↔ Along step holds' state actions := by
  induction actions generalizing state with
  | nil => exact Iff.rfl
  | cons action rest ih =>
    refine forall_congr' fun after => forall_congr' fun taken => ?_
    rw [agree _ _ _ taken, ih after]

end BoothOperator.Run
