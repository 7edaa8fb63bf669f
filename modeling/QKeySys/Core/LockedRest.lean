import QKeySys.Core.Drained
import QKeySys.Core.Locks

/-! Rest with the mutexes: as long as no init thread is cancelled inside a critical section,
whoever owns a mutex has a next step, so that nobody waits for a mutex when no thread has one.
-/

namespace QKeySys.Core

open QKeySys.Library

/-- The step is one of a thread; the operations of the mutexes are. -/
def LockedAction.byThread : LockedAction → Bool
  | .lock _ | .unlock _ _ => true
  | .step action => action.byThread

namespace LockedCtx

variable {s s' : LockedCtx}

/-- A condition wait returns because it was notified. -/
def prompted (s : LockedCtx) : LockedAction → Prop
  | .step action => s.ctx.prompted action
  | _ => True

/-- No thread has a next step, with condition waits that return only when notified and
cancellations that take effect outside the critical sections.
-/
def Idle (s : LockedCtx) : Prop :=
  ∀ label, label.byThread = true → s.prompted label → s.cancelsOutside label →
    s.step label = none

/-- An init thread that has entered a critical section is at its body. -/
def AtBodies (s : LockedCtx) : Prop :=
  ∀ (m : Mutex) (k : Nat), s.owner m = some ⟨k, false⟩ →
    ∃ t, s.ctx.initThreads[k]? = some t ∧ t.pc.mutex = some m

theorem AtBodies.init (role : Role) : (LockedCtx.init role).AtBodies := by
  intro m k owned
  cases owned

/-- Every move keeps the entered threads at their bodies when cancellations wait for the end of
a critical section, by cases on the move.
-/
theorem AtBodies.move (now : s.AtBodies) {label : LockedAction}
    (waits : s.cancelsOutside label) (move : s.Move label s')
    : s'.AtBodies := by
  cases move with
  | lock k t m found needed free =>
      intro m' k' owned
      rw [setOwner_owner, Function.update_apply] at owned
      split at owned
      case isTrue same =>
        obtain ⟨rfl, -⟩ := Ownership.mk.inj (Option.some.inj owned)
        exact ⟨t, found, same ▸ needed⟩
      case isFalse => exact now m' k' owned
  | unlock k m owned =>
      intro m' k' owned'
      rw [setOwner_owner, Function.update_apply] at owned'
      split at owned'
      case isTrue => cases owned'
      case isFalse => exact now m' k' owned'
  | body k t m found needed owned c taken =>
      intro m' k' owned'
      rw [setOwner_owner, Function.update_apply] at owned'
      split at owned'
      case isTrue => cases owned'
      case isFalse different =>
        obtain ⟨u, entered, needed'⟩ := now m' k' owned'
        have other : k' ≠ k := by
          rintro rfl
          obtain rfl : t = u := Option.some.inj (found.symm.trans entered)
          exact different (Option.some.inj (needed'.symm.trans needed))
        obtain ⟨u', entered', pc⟩ := (Ctx.step_anyMove taken).keepsPc entered
          (fun same => other (Action.init.inj same).symm) (by simp)
        exact ⟨u', entered', pc ▸ needed'⟩
  | other action c outside taken =>
      intro m k owned
      obtain ⟨t, entered, needed⟩ := now m k owned
      have notOwn : action ≠ .init k := fun same =>
        outside_iff.mp (outside k same) m _ owned rfl
      have notCancelled : action ≠ .cancel k := by
        rintro rfl
        exact outside_iff.mp waits m _ owned rfl
      obtain ⟨t', entered', pc⟩ :=
        (Ctx.step_anyMove taken).keepsPc entered notOwn notCancelled
      exact ⟨t', entered', pc ▸ needed⟩

/-- The body of a critical section is a step of its thread. -/
theorem initStep_ne_none {c : Ctx} {k : Nat} {t : InitThread} {m : Mutex}
    (found : c.initThreads[k]? = some t) (needed : t.pc.mutex = some m)
    : c.initStep k ≠ none := by
  cases pc : t.pc <;> simp [pc, InitPc.mutex] at needed <;> simp [Ctx.initStep, found, pc]

/-- At rest no mutex is owned: its owner would have a next step. -/
theorem Idle.unowned (idle : s.Idle) (alive : s.OwnersAlive) (bodies : s.AtBodies) (m : Mutex)
    : s.owner m = none := by
  cases owned : s.owner m with
  | none => rfl
  | some o =>
      obtain ⟨k, bodyDone⟩ := o
      cases bodyDone with
      | true =>
          obtain ⟨t, found, running⟩ := alive m _ owned
          have released := idle (.unlock k m) rfl trivial trivial
          simp [step, unlock, owned, Ctx.dead_iff found, running] at released
      | false =>
          obtain ⟨t, found, needed⟩ := bodies m k owned
          have body : s.initStep k = none := idle (.step (.init k)) rfl trivial trivial
          simp only [initStep, found, Option.bind_some, needed, owned, if_true,
            Option.map_eq_none_iff] at body
          exact absurd body (initStep_ne_none found needed)

/-- With every mutex free, a context at rest is at rest without its mutexes. -/
theorem Idle.ctx (idle : s.Idle) (unowned : ∀ m, s.owner m = none) : s.ctx.Idle := by
  have outside (k : Nat) : s.outside k = true := by
    refine outside_iff.mpr (fun m o owned => ?_)
    rw [unowned m] at owned
    cases owned
  have available (needed : Option Mutex) : s.available needed = true := by
    cases needed <;> simp [LockedCtx.available, unowned]
  intro action thread prompted
  by_cases own : ∃ k, action = .init k
  · obtain ⟨k, rfl⟩ := own
    cases found : s.ctx.initThreads[k]? with
    | none => simp [Ctx.step, Ctx.initStep, found]
    | some t =>
        have taken : s.initStep k = none := idle (.step (.init k)) rfl trivial trivial
        have enters : s.lock k = none := idle (.lock k) rfl trivial trivial
        cases needed : t.pc.mutex with
        | some m => simp [lock, found, needed, outside, unowned] at enters
        | none =>
            simp only [initStep, found, Option.bind_some, needed, outside, if_true,
              Option.map_eq_none_iff] at taken
            exact taken
  · have taken : s.step (.step action) = none := by
      refine idle (.step action) thread prompted ?_
      cases action with
      | cancel k => exact outside k
      | _ => trivial
    have stepped
        : (if s.available (s.ctx.mutex action) then
            (s.ctx.step action).map (fun c => { s with ctx := c }) else none) = none := by
      cases action with
      | init k => exact absurd ⟨k, rfl⟩ own
      | _ => exact taken
    rw [if_pos (available _), Option.map_eq_none_iff] at stepped
    exact stepped

/-- The conditions under which the events get through, with the mutexes. -/
def undisturbed (s : LockedCtx) : LockedAction → Prop
  | .step action =>
      action ≠ .requestStop ∧ s.ctx.undisturbed action ∧ s.cancelsOutside (.step action)
  | _ => True

theorem undisturbed.cancelsOutside {label : LockedAction} (met : s.undisturbed label)
    : s.cancelsOutside label := by
  cases label with
  | step action => exact met.2.2
  | lock k | unlock k m => trivial

end LockedCtx

section Runs

variable {role : Role} {cond : LockedCtx → LockedAction → Prop} {s : LockedCtx}

/-- Without its mutexes a run is one of the context, under a condition on the steps. -/
theorem lockedRuns_runsWhen {cond' : Ctx → Action → Prop}
    (met : ∀ s action, cond s (.step action) → action ≠ .requestStop ∧ cond' s.ctx action)
    (reached : (lockedRuns role cond).Reachable s)
    : (runsWhen role cond').Reachable s.ctx := by
  have start (s : LockedCtx) (initial : (lockedRuns role cond).init s)
      : (runsWhen role cond').init s.ctx := by
    obtain rfl : s = .init role := initial
    rfl
  refine reached.project LockedCtx.ctx start (fun s label s' step => ?_)
  cases LockedCtx.step_move step.2 with
  | lock | unlock => exact .refl
  | body k t m found needed owned c taken => exact .single ⟨_, met s _ step.1, taken⟩
  | other action c outside taken => exact .single ⟨_, met s _ step.1, taken⟩

theorem lockedRuns_ownersAlive (waits : ∀ s label, cond s label → s.cancelsOutside label)
    (reached : (lockedRuns role cond).Reachable s)
    : s.OwnersAlive :=
  cancelsOutside_ownersAlive
    (reached.of_meets (fun _ _ _ _ _ step => waits _ _ step.1))

theorem lockedRuns_atBodies (waits : ∀ s label, cond s label → s.cancelsOutside label)
    (reached : (lockedRuns role cond).Reachable s)
    : s.AtBodies := by
  refine Lts.Reachable.induct LockedCtx.AtBodies ?_ ?_ reached
  · rintro _ rfl
    exact .init role
  · intro s label s' _ now step
    exact now.move (waits s label step.1) (LockedCtx.step_move step.2)

end Runs

/-- In every state in which no thread has a next step nothing is left. -/
def Drains (system : Lts LockedCtx LockedAction) : Prop :=
  ∀ s, system.Reachable s → s.Idle → s.ctx.Drained

/-- An undisturbed system, in which init threads are cancelled outside their critical sections
only and no stop is requested, comes to rest only when every injected event was completed or
dropped.
-/
theorem undisturbed_drains (role : Role)
    : Drains (lockedRuns role LockedCtx.undisturbed) := by
  intro s reached idle
  have waits (s : LockedCtx) (label : LockedAction) (met : s.undisturbed label) :=
    met.cancelsOutside
  have unowned :=
    idle.unowned (lockedRuns_ownersAlive waits reached) (lockedRuns_atBodies waits reached)
  have reached := lockedRuns_runsWhen (fun _ _ met => ⟨met.1, met.2.1⟩) reached
  exact runsWhen_drained reached (idle.ctx unowned)

end QKeySys.Core
