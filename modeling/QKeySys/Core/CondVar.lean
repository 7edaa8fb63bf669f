import Mathlib.Logic.Function.Basic
import QKeySys.Library.Transition

/-! The condition variable of the Windows port, emulated by a manual-reset event: one thread
waits for a predicate that any number of others make true.
-/

namespace QKeySys.Core.CondVar

open QKeySys.Library

/-- The waiting thread, or one of those that signal. -/
inductive Thread (ι : Type) where
  | waiter
  | signaller (i : ι)
  deriving DecidableEq

/-- Next step of `lock; while(!pred) qks_cond_wait(c, m); consume pred; unlock`. The steps
`leave`, `wait`, `reset` and `enter` are those of `qks_cond_wait`.
-/
inductive WaiterPc where
  | lock
  | test
  | leave
  | wait
  | reset
  | enter
  | consume
  | unlock
  deriving DecidableEq, Repr

/-- The waiter is between locking and unlocking. -/
def WaiterPc.inside : WaiterPc → Bool
  | .test => true
  | .leave => true
  | .consume => true
  | .unlock => true
  | _ => false

/-- Next step of `lock; pred := true; qks_cond_signal(c); unlock`. -/
inductive SignallerPc where
  | lock
  | set
  | signal
  | unlock
  deriving DecidableEq, Repr

/-- The critical section, the event and the predicate with the threads around them. -/
structure System (ι : Type) where
  owner : Option (Thread ι)
  event : Bool
  pred : Bool
  waiter : WaiterPc
  signaller : ι → SignallerPc

namespace System

variable {ι : Type} [DecidableEq ι]

/-- `EnterCriticalSection`, which blocks while another thread is inside. -/
def enterCriticalSection (s : System ι) (t : Thread ι) : Option (System ι) :=
  if s.owner = none then some { s with owner := some t } else none

/-- `LeaveCriticalSection` -/
def leaveCriticalSection (s : System ι) : System ι := { s with owner := none }

/-- `WaitForSingleObject` on the event, which stays set. -/
def waitForSingleObject (s : System ι) : Option (System ι) :=
  if s.event then some s else none

/-- `ResetEvent` -/
def resetEvent (s : System ι) : System ι := { s with event := false }

/-- `qks_cond_signal` -/
def condSignal (s : System ι) : System ι := { s with event := true }

/-- `qks_cond_broadcast`, the same as a signal. -/
def condBroadcast (s : System ι) : System ι := { s with event := true }

def waiterStep (s : System ι) : Option (System ι) :=
  match s.waiter with
  | .lock => (s.enterCriticalSection .waiter).map (fun s => { s with waiter := .test })
  | .test => some { s with waiter := if s.pred then .consume else .leave }
  | .leave => some { s.leaveCriticalSection with waiter := .wait }
  | .wait => s.waitForSingleObject.map (fun s => { s with waiter := .reset })
  | .reset => some { s.resetEvent with waiter := .enter }
  | .enter => (s.enterCriticalSection .waiter).map (fun s => { s with waiter := .test })
  | .consume => some { s with pred := false, waiter := .unlock }
  | .unlock => some { s.leaveCriticalSection with waiter := .lock }

def setSignaller (s : System ι) (i : ι) (pc : SignallerPc) : System ι :=
  { s with signaller := Function.update s.signaller i pc }

def signallerStep (s : System ι) (i : ι) (broadcast : Bool) : Option (System ι) :=
  match s.signaller i with
  | .lock => (s.enterCriticalSection (.signaller i)).map (fun s => s.setSignaller i .set)
  | .set => some ({ s with pred := true }.setSignaller i .signal)
  | .signal =>
      some ((if broadcast then s.condBroadcast else s.condSignal).setSignaller i .unlock)
  | .unlock => some (s.leaveCriticalSection.setSignaller i .lock)

/-- Each signaller chooses between signal and broadcast anew. -/
inductive Action (ι : Type) where
  | waiter
  | signaller (i : ι) (broadcast : Bool)

def step (s : System ι) : Action ι → Option (System ι)
  | .waiter => s.waiterStep
  | .signaller i broadcast => s.signallerStep i broadcast

/-- All threads are outside; predicate and event may be stale. -/
def Initial (s : System ι) : Prop :=
  s.owner = none ∧ s.waiter = .lock ∧ ∀ i, s.signaller i = .lock

/-- All interleavings. -/
def system (ι : Type) [DecidableEq ι] : Lts (System ι) (Action ι) where
  init := Initial
  next before action after := before.step action = some after

-----------------------------------------------------------------------------------------
-- Invariant
-----------------------------------------------------------------------------------------

/-- The owner of the critical section is the thread inside. A waiter that gives up its turn saw
the predicate false, and one that waits while it is true will find the event set: by now, or
when the signaller inside has signalled.
-/
structure Invariant (s : System ι) : Prop where
  waiter_owns : s.waiter.inside = true → s.owner = some .waiter
  signaller_owns : ∀ i, s.signaller i ≠ .lock → s.owner = some (.signaller i)
  leaves : s.waiter = .leave → s.pred = false
  promised
    : s.waiter = .wait → s.pred = true → s.event = true ∨ ∃ i, s.signaller i = .signal

variable {s s' : System ι}

omit [DecidableEq ι] in
theorem Initial.invariant (initial : s.Initial) : s.Invariant := by
  obtain ⟨free, outside, outside'⟩ := initial
  constructor
  · simp [outside, WaiterPc.inside]
  · exact fun i inside => absurd (outside' i) inside
  · simp [outside]
  · simp [outside]

omit [DecidableEq ι] in
/-- While the critical section is free or the waiter's, no signaller is inside. -/
theorem Invariant.signallers_outside (now : s.Invariant)
    (other : ∀ i, s.owner ≠ some (.signaller i)) (i : ι)
    : s.signaller i = .lock := by
  by_contra inside
  exact other i (now.signaller_owns i inside)

omit [DecidableEq ι] in
/-- The steps of the waiter keep the invariant, by cases on where it is. -/
theorem Invariant.waiterStep (now : s.Invariant) (step : s.waiterStep = some s')
    : s'.Invariant := by
  have alone (mine : s.waiter.inside = true) (i : ι) : s.signaller i = .lock :=
    now.signallers_outside (by simp [now.waiter_owns mine]) i
  have entered (after : System ι)
      (enters : s.enterCriticalSection .waiter = some after)
      : ({ after with waiter := .test } : System ι).Invariant := by
    unfold enterCriticalSection at enters
    split at enters
    case isTrue free =>
      obtain rfl := Option.some.inj enters
      have outside := now.signallers_outside (by simp [free])
      constructor <;> simp [outside]
    case isFalse => cases enters
  unfold System.waiterStep at step
  cases pc : s.waiter with
  | lock | enter =>
      simp only [pc] at step
      obtain ⟨after, enters, rfl⟩ := Option.map_eq_some_iff.mp step
      exact entered after enters
  | test =>
      simp only [pc, Option.some.injEq] at step
      subst step
      have mine := now.waiter_owns (by rw [pc]; rfl)
      refine ⟨fun _ => mine, now.signaller_owns, ?_, ?_⟩
      · cases pred : s.pred <;> simp
      · cases pred : s.pred <;> simp
  | leave =>
      simp only [pc, Option.some.injEq] at step
      subst step
      have outside := alone (by rw [pc]; rfl)
      refine ⟨by simp [WaiterPc.inside], fun i inside => absurd (outside i) inside, by simp, ?_⟩
      intro _ pred
      cases (now.leaves pc).symm.trans pred
  | wait =>
      simp only [pc] at step
      obtain ⟨after, waits, rfl⟩ := Option.map_eq_some_iff.mp step
      unfold waitForSingleObject at waits
      split at waits
      case isTrue set =>
        obtain rfl := Option.some.inj waits
        exact ⟨by simp [WaiterPc.inside], now.signaller_owns, by simp, by simp⟩
      case isFalse => cases waits
  | reset =>
      simp only [pc, Option.some.injEq] at step
      subst step
      exact ⟨by simp [WaiterPc.inside], now.signaller_owns, by simp, by simp⟩
  | consume =>
      simp only [pc, Option.some.injEq] at step
      subst step
      have mine := now.waiter_owns (by rw [pc]; rfl)
      exact ⟨fun _ => mine, now.signaller_owns, by simp, by simp⟩
  | unlock =>
      simp only [pc, Option.some.injEq] at step
      subst step
      have outside := alone (by rw [pc]; rfl)
      exact ⟨by simp [WaiterPc.inside], fun i inside => absurd (outside i) inside, by simp,
        by simp⟩

@[simp]
theorem setSignaller_signaller (s : System ι) (i j : ι) (pc : SignallerPc)
    : (s.setSignaller i pc).signaller j = if j = i then pc else s.signaller j := by
  simp [setSignaller, Function.update_apply]

omit [DecidableEq ι] in
/-- While the critical section is free or a signaller's, the waiter is outside. -/
theorem Invariant.waiter_outside (now : s.Invariant) (other : s.owner ≠ some .waiter)
    : s.waiter.inside = false := by
  cases inside : s.waiter.inside with
  | false => rfl
  | true => exact absurd (now.waiter_owns inside) other

/-- A signaller that steps inside its critical section, alone with the waiter outside, keeps
the invariant if it leaves the waiter a reason to wake up.
-/
theorem Invariant.of_inside {i : ι} {pc : SignallerPc}
    (owns : s.owner = some (.signaller i)) (outside : s.waiter.inside = false)
    (others : ∀ j, j ≠ i → s.signaller j = .lock)
    (reason : pc = .signal ∨ (s.waiter = .wait → s.pred = true → s.event = true))
    : (s.setSignaller i pc).Invariant := by
  have here : (s.setSignaller i pc).signaller i = pc := by simp
  have there (j : ι) (other : j ≠ i) : (s.setSignaller i pc).signaller j = .lock := by
    simp [other, others j other]
  constructor
  · intro waiter_inside
    cases outside.symm.trans waiter_inside
  · intro j inside'
    by_cases same : j = i
    · rw [same]
      exact owns
    · exact absurd (there j same) inside'
  · intro leaves
    rw [show s.waiter = .leave from leaves] at outside
    cases outside
  · intro waits pred
    rcases reason with signals | wakes
    · exact .inr ⟨i, here.trans signals⟩
    · exact .inl (wakes waits pred)

/-- The steps of a signaller keep the invariant, by cases on where it is. -/
theorem Invariant.signallerStep (now : s.Invariant) {i : ι} {broadcast : Bool}
    (step : s.signallerStep i broadcast = some s')
    : s'.Invariant := by
  unfold System.signallerStep at step
  by_cases first : s.signaller i = .lock
  · simp only [first] at step
    obtain ⟨after, enters, rfl⟩ := Option.map_eq_some_iff.mp step
    unfold enterCriticalSection at enters
    split at enters
    case isTrue free =>
      obtain rfl := Option.some.inj enters
      have others := now.signallers_outside (by simp [free])
      apply Invariant.of_inside (s := { s with owner := some (.signaller i) }) rfl
        (now.waiter_outside (by simp [free])) (fun j _ => others j)
      refine .inr (fun waits pred => ?_)
      rcases now.promised waits pred with set | ⟨j, signals⟩
      · exact set
      · cases (others j).symm.trans signals
    case isFalse => cases enters
  · have owns := now.signaller_owns i first
    have outside := now.waiter_outside (by simp [owns])
    have others (j : ι) (other : j ≠ i) : s.signaller j = .lock := by
      by_contra inside
      have owns' := owns.symm.trans (now.signaller_owns j inside)
      cases owns'
      exact other rfl
    cases pc : s.signaller i with
    | lock => exact absurd pc first
    | set =>
        simp only [pc, Option.some.injEq] at step
        subst step
        exact .of_inside owns outside others (.inl rfl)
    | signal =>
        simp only [pc, Option.some.injEq] at step
        subst step
        cases broadcast with
        | false => exact .of_inside owns outside others (.inr (fun _ _ => rfl))
        | true => exact .of_inside owns outside others (.inr (fun _ _ => rfl))
    | unlock =>
        simp only [pc, Option.some.injEq] at step
        subst step
        have all (j : ι) : (s.leaveCriticalSection.setSignaller i .lock).signaller j = .lock := by
          by_cases same : j = i
          · simp [same]
          · simp [leaveCriticalSection, others j same]
        refine ⟨?_, fun j inside => absurd (all j) inside, ?_, ?_⟩
        · intro inside
          cases outside.symm.trans inside
        · exact now.leaves
        · intro waits pred
          rcases now.promised waits pred with set | ⟨j, signals⟩
          · exact .inl set
          · by_cases same : j = i
            · cases (same ▸ signals).symm.trans pc
            · cases (others j same).symm.trans signals

/-- Every reachable state has the invariant, by induction on the interleaving. -/
theorem invariant_reachable (reached : (system ι).Reachable s) : s.Invariant := by
  have invariant : (system ι).Invariant System.Invariant := {
    init := fun _ initial => initial.invariant
    step := by
      intro before action after now step
      cases action with
      | waiter => exact now.waiterStep step
      | signaller i broadcast => exact now.signallerStep step
  }
  exact invariant.reachable reached

/-- No wake-up is lost: a waiter inside its wait finds the event set when the predicate is true
and no signaller is inside its critical section.
-/
theorem no_wakeup_lost (reached : (system ι).Reachable s)
    : ¬ (s.pred = true ∧ (∀ i, s.signaller i = .lock) ∧ s.waiter = .wait ∧ s.event = false) := by
  rintro ⟨pred, outside, waits, unset⟩
  rcases (invariant_reachable reached).promised waits pred with set | ⟨i, signals⟩
  · cases unset.symm.trans set
  · cases (outside i).symm.trans signals

/-- Witness: a signal that comes after the waiter has left its critical section. -/
theorem no_wakeup_lost_late
    : ∃ s : System Unit,
        s.waiter = .wait ∧ s.pred = true
        ∧ ¬ (s.pred = true ∧ (∀ i, s.signaller i = .lock) ∧ s.waiter = .wait
          ∧ s.event = false) := by
  let start : System Unit := ⟨none, false, false, .lock, fun _ => .lock⟩
  have ran
      : (Lts.execute step start
          ([.waiter, .waiter, .waiter] ++ List.replicate 4 (.signaller () false))).isSome := by
    decide
  have reached : (system Unit).Reachable (Option.get _ ran) :=
    ⟨start, ⟨rfl, rfl, fun _ => rfl⟩,
      Lts.execute_steps (fun _ _ _ taken => taken) (Option.some_get ran).symm⟩
  exact ⟨Option.get _ ran, rfl, rfl, no_wakeup_lost reached⟩

end System

end QKeySys.Core.CondVar
