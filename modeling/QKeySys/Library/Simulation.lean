import QKeySys.Library.Transition

/-! Forward simulations: every step of a fine system is matched by a path of a coarse one, so
that what holds of all states of the coarse system holds of the fine one through the relation.
When the path also shows an observer what the step shows, both have the same histories.
-/

namespace QKeySys.Library.Lts

variable {State Label State' Label' : Type*}

/-- Related states stay related when the fine system steps and the coarse one follows. -/
structure Simulation (fine : Lts State Label) (coarse : Lts State' Label')
    (rel : State → State' → Prop) : Prop where
  init : ∀ state, fine.init state → ∃ state', coarse.init state' ∧ rel state state'
  step
    : ∀ before label after before', fine.Reachable before → coarse.Reachable before' →
        rel before before' → fine.next before label after →
        ∃ after', coarse.Steps before' after' ∧ rel after after'

variable {fine : Lts State Label} {coarse : Lts State' Label'} {rel : State → State' → Prop}

/-- Every reachable state has a reachable counterpart, by induction on its path. -/
theorem Simulation.reachable (simulation : fine.Simulation coarse rel) {state : State}
    (reached : fine.Reachable state)
    : ∃ state', coarse.Reachable state' ∧ rel state state' := by
  refine Reachable.induct (fun state => ∃ state', coarse.Reachable state' ∧ rel state state')
    ?_ ?_ reached
  · intro state initial
    obtain ⟨state', initial', related⟩ := simulation.init state initial
    exact ⟨state', .start initial', related⟩
  · rintro before label after reached ⟨before', reached', related⟩ step
    obtain ⟨after', path, related⟩ :=
      simulation.step before label after before' reached reached' related step
    exact ⟨after', reached'.steps path, related⟩

-----------------------------------------------------------------------------------------
-- Histories
-----------------------------------------------------------------------------------------

variable {Event : Type*} {system : Lts State Label} {shown : State → Label → State → List Event}
  {shown' : State' → Label' → State' → List Event}

/-- A finite path with what its steps show an observer, in their order. -/
inductive Trace (system : Lts State Label) (shown : State → Label → State → List Event)
    (start : State) : List Event → State → Prop where
  | refl : Trace system shown start [] start
  | tail {events : List Event} {before : State} (label : Label) (after : State)
      (earlier : Trace system shown start events before)
      (step : system.next before label after)
      : Trace system shown start (events ++ shown before label after) after

/-- An observer may see `events` in a run that ends in `state`. -/
def History (system : Lts State Label) (shown : State → Label → State → List Event)
    (events : List Event) (state : State) : Prop :=
  ∃ start, system.init start ∧ system.Trace shown start events state

/-- A step shows its own events. -/
theorem Trace.single {before : State} (label : Label) (after : State)
    (step : system.next before label after)
    : system.Trace shown before (shown before label after) after :=
  .tail label after .refl step

/-- Two traces join, by induction on the later one. -/
theorem Trace.trans {start middle state : State} {events more : List Event}
    (earlier : system.Trace shown start events middle)
    (later : system.Trace shown middle more state)
    : system.Trace shown start (events ++ more) state := by
  induction later with
  | refl => rwa [List.append_nil]
  | tail label after _ step ih =>
      rw [← List.append_assoc]
      exact .tail label after ih step

/-- Related states stay related when the coarse system follows a step of the fine one and
shows what it shows.
-/
structure TraceSimulation (fine : Lts State Label) (shown : State → Label → State → List Event)
    (coarse : Lts State' Label') (shown' : State' → Label' → State' → List Event)
    (rel : State → State' → Prop) : Prop where
  init : ∀ state, fine.init state → ∃ state', coarse.init state' ∧ rel state state'
  step
    : ∀ before label after before', rel before before' → fine.next before label after →
        ∃ after', coarse.Trace shown' before' (shown before label after) after'
          ∧ rel after after'

/-- What an observer sees of the fine system the coarse one shows as well, by induction on the
trace.
-/
theorem TraceSimulation.history
    (simulation : fine.TraceSimulation shown coarse shown' rel) {events : List Event}
    {state : State} (seen : fine.History shown events state)
    : ∃ state', coarse.History shown' events state' ∧ rel state state' := by
  obtain ⟨start, initial, trace⟩ := seen
  obtain ⟨start', initial', related⟩ := simulation.init start initial
  induction trace with
  | refl => exact ⟨start', ⟨start', initial', .refl⟩, related⟩
  | tail label after _ step ih =>
      obtain ⟨before', ⟨start', initial', trace'⟩, related⟩ := ih
      obtain ⟨after', more, related'⟩ := simulation.step _ label after before' related step
      exact ⟨after', ⟨start', initial', trace'.trans more⟩, related'⟩

/-- What the steps of an execution show. -/
def executeShown (step : State → Label → Option State)
    (shown : State → Label → State → List Event) : State → List Label → List Event
  | _, [] => []
  | state, label :: rest =>
      (step state label).elim []
        (fun next => shown state label next ++ executeShown step shown next rest)

/-- An execution whose labels keep a property, under which they meet the condition, is a trace
under the condition, by induction on its labels.
-/
theorem execute_trace_within {start before after : State}
    {step : State → Label → Option State} {guard : State → Label → Prop}
    {holds : State → Prop} {kept : Label → Bool}
    (keeps
      : ∀ state label after, holds state → kept label = true → step state label = some after →
          guard state label ∧ holds after)
    (now : holds before) {labels : List Label} (all : labels.all kept = true)
    (ran : execute step before labels = some after)
    : ((ofFunction start step).restrict guard).Trace shown before
        (executeShown step shown before labels) after := by
  induction labels generalizing before with
  | nil =>
      obtain rfl : before = after := Option.some.inj ran
      exact .refl
  | cons label rest ih =>
      obtain ⟨keptNow, later⟩ := (Bool.and_eq_true _ _).mp all
      obtain ⟨middle, first, ran⟩ := Option.bind_eq_some_iff.mp ran
      obtain ⟨met, now'⟩ := keeps before label middle now keptNow first
      have taken : ((ofFunction start step).restrict guard).next before label middle :=
        ⟨met, first⟩
      simp only [executeShown, first, Option.elim_some]
      exact (Trace.single label middle taken).trans (ih now' later ran)

end QKeySys.Library.Lts
