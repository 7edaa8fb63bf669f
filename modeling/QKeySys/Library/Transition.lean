import Mathlib.Logic.Relation

/-! Labelled transition systems: reachable states, runs under a step condition, invariants.
Nothing here names a program; a model supplies its states, labels and steps.
-/

namespace QKeySys.Library

/-- A labelled transition system is given by its initial states and its labelled steps. -/
structure Lts (State Label : Type*) where
  init : State → Prop
  next : State → Label → State → Prop

namespace Lts

variable {State Label : Type*} {system : Lts State Label}

/-- Some label leads from `before` to `after`. -/
def Step (system : Lts State Label) (before after : State) : Prop :=
  ∃ label, system.next before label after

/-- A finite path of steps, possibly empty. -/
abbrev Steps (system : Lts State Label) : State → State → Prop :=
  Relation.ReflTransGen system.Step

/-- Some path from an initial state ends in `state`. -/
def Reachable (system : Lts State Label) (state : State) : Prop :=
  ∃ start, system.init start ∧ system.Steps start state

/-- An initial state is reachable, by the empty path. -/
theorem Reachable.start {state : State} (initial : system.init state)
    : system.Reachable state :=
  ⟨state, initial, .refl⟩

/-- A path out of a reachable state stays reachable, by joining the paths. -/
theorem Reachable.steps {before after : State} (reached : system.Reachable before)
    (path : system.Steps before after)
    : system.Reachable after := by
  obtain ⟨start, initial, earlier⟩ := reached
  exact ⟨start, initial, earlier.trans path⟩

/-- One more step of a reachable state is reachable. -/
theorem Reachable.next {before after : State} {label : Label}
    (reached : system.Reachable before) (step : system.next before label after)
    : system.Reachable after :=
  reached.steps (.single ⟨label, step⟩)

/-- The runs of `system` whose steps all meet `guard` in the state before the step. -/
def restrict (system : Lts State Label) (guard : State → Label → Prop)
    : Lts State Label where
  init := system.init
  next before label after := guard before label ∧ system.next before label after

/-- A restricted path is a path of the whole system, by forgetting the condition. -/
theorem Steps.of_restrict {guard : State → Label → Prop} {before after : State}
    (path : (system.restrict guard).Steps before after)
    : system.Steps before after :=
  Relation.ReflTransGen.mono (fun _ _ ⟨label, _, step⟩ => ⟨label, step⟩) _ _ path

/-- A state reachable under a condition is reachable without it. -/
theorem Reachable.of_restrict {guard : State → Label → Prop} {state : State}
    (reached : (system.restrict guard).Reachable state)
    : system.Reachable state := by
  obtain ⟨start, initial, path⟩ := reached
  exact ⟨start, initial, Steps.of_restrict path⟩

/-- `holds` is true initially and every step of the system preserves it. -/
structure Invariant (system : Lts State Label) (holds : State → Prop) : Prop where
  init : ∀ state, system.init state → holds state
  step : ∀ before label after, holds before → system.next before label after → holds after

/-- A preserved property survives any path, by induction on the path. -/
theorem Invariant.steps {holds : State → Prop} (invariant : system.Invariant holds)
    {before after : State} (path : system.Steps before after) (now : holds before)
    : holds after := by
  induction path with
  | refl => exact now
  | tail _ step ih =>
      obtain ⟨label, step⟩ := step
      exact invariant.step _ label _ ih step

/-- An invariant holds in every reachable state. -/
theorem Invariant.reachable {holds : State → Prop} (invariant : system.Invariant holds)
    {state : State} (reached : system.Reachable state)
    : holds state := by
  obtain ⟨start, initial, path⟩ := reached
  exact invariant.steps path (invariant.init start initial)

/-- An invariant of the whole system is one of every restriction of it. -/
theorem Invariant.restrict {holds : State → Prop} (invariant : system.Invariant holds)
    (guard : State → Label → Prop)
    : (system.restrict guard).Invariant holds where
  init := invariant.init
  step before label after now taken := invariant.step before label after now taken.2

/-- Induction over the reachable states; the step may use that its states are reachable,
and so every invariant established before.
-/
theorem Reachable.induct (holds : State → Prop)
    (init : ∀ state, system.init state → holds state)
    (step : ∀ before label after, system.Reachable before → holds before →
      system.next before label after → holds after)
    {state : State} (reached : system.Reachable state)
    : holds state := by
  have invariant : system.Invariant (fun state => system.Reachable state ∧ holds state) := {
    init := fun state initial => ⟨.start initial, init state initial⟩
    step := fun before label after now taken =>
      ⟨now.1.next taken, step before label after now.1 now.2 taken⟩
  }
  exact (invariant.reachable reached).2

/-- A state reached by steps that all meet another condition is reachable under that one, by
induction on the path. The step may use that its state is reachable under both.
-/
theorem Reachable.of_meets {guard guard' : State → Label → Prop}
    (meets
      : ∀ before label after, (system.restrict guard).Reachable before →
          (system.restrict guard').Reachable before →
          (system.restrict guard).next before label after → guard' before label)
    {state : State} (reached : (system.restrict guard).Reachable state)
    : (system.restrict guard').Reachable state := by
  refine Reachable.induct _ ?_ ?_ reached
  · exact fun _ initial => .start initial
  · intro before label after reached reached' step
    have taken : (system.restrict guard').next before label after :=
      ⟨meets before label after reached reached' step, step.2⟩
    exact reached'.next taken

/-- When every step of one system is a path of another between the states a projection gives,
reachable states are projected to reachable ones, by induction on the path.
-/
theorem Reachable.project {State' Label' : Type*} {fine : Lts State' Label'}
    (view : State' → State) (init : ∀ state, fine.init state → system.init (view state))
    (step : ∀ before label after, fine.next before label after →
      system.Steps (view before) (view after))
    {state : State'} (reached : fine.Reachable state)
    : system.Reachable (view state) := by
  obtain ⟨start, initial, path⟩ := reached
  refine ⟨view start, init start initial, ?_⟩
  induction path with
  | refl => exact .refl
  | tail _ taken ih =>
      obtain ⟨label, taken⟩ := taken
      exact ih.trans (step _ label _ taken)

/-- When every step of one system is a path of another with the same start, reachable
states carry over.
-/
theorem Reachable.of_refines {Label' : Type*} {coarse : Lts State Label'}
    (init : ∀ state, coarse.init state → system.init state)
    (step : ∀ before label after, coarse.next before label after →
      system.Steps before after)
    {state : State} (reached : coarse.Reachable state)
    : system.Reachable state :=
  reached.project id init step

/-- The system of a partial step function; `none` means that the label is not enabled. -/
def ofFunction (start : State) (step : State → Label → Option State)
    : Lts State Label where
  init state := state = start
  next before label after := step before label = some after

/-- Runs a list of labels, stopping when one of them is not enabled. -/
def execute (step : State → Label → Option State) : State → List Label → Option State
  | state, [] => some state
  | state, label :: rest => (step state label).bind (fun next => execute step next rest)

/-- A successful execution of sound steps is a path, by induction on its labels. -/
theorem execute_steps {guarded : State → Label → Option State}
    (sound : ∀ state label after, guarded state label = some after →
      system.next state label after)
    {before after : State} {labels : List Label}
    (ran : execute guarded before labels = some after)
    : system.Steps before after := by
  induction labels generalizing before with
  | nil =>
      obtain rfl : before = after := Option.some.inj ran
      exact .refl
  | cons label rest ih =>
      obtain ⟨middle, first, later⟩ := Option.bind_eq_some_iff.mp ran
      exact .head ⟨label, sound _ _ _ first⟩ (ih later)

/-- A step that is only taken when it meets the condition. -/
def guardedStep (step : State → Label → Option State) (guard : State → Label → Prop)
    [∀ state label, Decidable (guard state label)] (state : State) (label : Label)
    : Option State :=
  if guard state label then step state label else none

/-- A guarded step is one of the restricted system. -/
theorem guardedStep_sound {start : State} {step : State → Label → Option State}
    {guard : State → Label → Prop} [∀ state label, Decidable (guard state label)]
    (state : State) (label : Label) (after : State)
    (taken : guardedStep step guard state label = some after)
    : ((ofFunction start step).restrict guard).next state label after := by
  unfold guardedStep at taken
  split at taken
  case isTrue met => exact ⟨met, taken⟩
  case isFalse => cases taken

/-- The state in which a guarded execution ends is reachable under the condition. -/
theorem execute_reachable {start : State} {step : State → Label → Option State}
    {guard : State → Label → Prop} [∀ state label, Decidable (guard state label)]
    (labels : List Label) (ran : (execute (guardedStep step guard) start labels).isSome)
    : ((ofFunction start step).restrict guard).Reachable (Option.get _ ran) :=
  ⟨start, rfl, execute_steps guardedStep_sound (Option.some_get ran).symm⟩

/-- An execution whose labels keep a property, under which they meet the condition, is a path
under the condition, by induction on its labels.
-/
theorem execute_steps_within {start before after : State}
    {step : State → Label → Option State} {guard : State → Label → Prop}
    {holds : State → Prop} {kept : Label → Bool}
    (keeps
      : ∀ state label after, holds state → kept label = true → step state label = some after →
          guard state label ∧ holds after)
    (now : holds before) {labels : List Label} (all : labels.all kept = true)
    (ran : execute step before labels = some after)
    : ((ofFunction start step).restrict guard).Steps before after := by
  induction labels generalizing before with
  | nil =>
      obtain rfl : before = after := Option.some.inj ran
      exact .refl
  | cons label rest ih =>
      obtain ⟨keptNow, later⟩ := (Bool.and_eq_true _ _).mp all
      obtain ⟨middle, first, ran⟩ := Option.bind_eq_some_iff.mp ran
      obtain ⟨met, now'⟩ := keeps before label middle now keptNow first
      exact .head ⟨label, met, first⟩ (ih now' later ran)

end Lts

end QKeySys.Library
