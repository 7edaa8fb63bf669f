import QKeySys.Core.Ledger

/-! Execution cannot be interrupted and happens at most once, as long as no init thread
switches the stage while the scheduler is preempting it.
-/

namespace QKeySys.Core

open QKeySys.Library

namespace Ctx

variable {c c' : Ctx}

/-- The slot holds the event numbered `id` in stage EXEC. -/
def Executes (c : Ctx) (id : Nat) : Prop :=
  c.q.hasExec = true ∧ c.q.execEvent.stage = .exec ∧ c.q.execEvent.id = id

instance (c : Ctx) (id : Nat) : Decidable (c.Executes id) :=
  inferInstanceAs (Decidable (_ ∧ _))

/-- The step is the dispatcher's notification for the event numbered `id`. -/
def completes (c : Ctx) (id : Nat) : Action → Prop
  | .dispatcher => ∃ t ids, c.exec.dispatcher = .notifyClear t ids ∧ id ∈ ids
  | _ => False

/-- An execution goes on over every move but its own completion, by cases on the move. -/
theorem Executes.move {id : Nat} (now : c.Executes id) {holder : Holder}
    (held : c.HeldBy holder) (tagged : c.exec.Tagged) {action : Action}
    (goesOn : ¬ c.completes id action) (move : Move c action c')
    : c'.Executes id := by
  have same := now
  obtain ⟨occupied, stage, rfl⟩ := same
  have occupiedBy : holder ≠ .nobody := by simpa [occupied] using held.hasExec
  cases move with
  | sched ok c' move =>
      cases move with
      | claim e pc => exact absurd (held.nobody (.inr (by rw [pc]; rfl))) occupiedBy
      | install e pc => exact absurd (held.nobody (.inr (by rw [pc]; rfl))) occupiedBy
      | clear prev pc =>
          have window := (held.window (held.isWindow (by rw [pc]; rfl))).1
          rw [stage] at window
          cases window
      | actStage pc =>
          exact ⟨by simpa using occupied, by simp [Queue.updateStage_execEvent, occupied],
            by simp⟩
      | _ => exact now
  | init k t found c' move =>
      cases move with
      | stage pc =>
          exact ⟨by simpa using occupied, by simp [Queue.updateStage_execEvent, occupied],
            by simp⟩
      | _ => exact now
  | dispatch c' move =>
      cases move with
      | clear t ids pc =>
          obtain ⟨-, same, -⟩ := held.clearing tagged pc
          exact absurd ⟨t, ids, pc, by simp [same]⟩ goesOn
      | _ => exact now
  | _ => exact now

/-- No number occurs twice in all places together. -/
theorem Balanced.nodup (now : c.Balanced) (arrivals : c.Arrivals)
    : (c.places.map Event.id).Nodup := by
  have ids : (c.places.map Event.id).Perm (c.log.injected.map Event.id) := by
    have numbers := now.balance.map Record.id
    rw [List.map_map, List.map_map] at numbers
    exact numbers
  refine ids.nodup_iff.mpr ?_
  rw [List.nodup_iff_pairwise_ne, List.pairwise_map]
  exact arrivals.increasing.imp (fun less => Nat.ne_of_lt less)

/-- The events in the wait heap, in the slot and behind it are all different. -/
theorem Balanced.nodup_behind (now : c.Balanced) (arrivals : c.Arrivals)
    : ((c.q.waitHeap.events ++ (c.q.inSlot ++ c.log.completed)).map Event.id).Nodup := by
  have part : (c.q.waitHeap.events ++ (c.q.inSlot ++ c.log.completed)).Sublist c.places := by
    simp only [places, List.append_assoc]
    refine .trans (.append_left (.trans ?_ (List.sublist_append_right _ _)) _)
      (List.sublist_append_right _ _)
    exact .append_left (List.sublist_append_left _ _) _
  exact (now.nodup arrivals).sublist (part.map Event.id)

/-- An event in the slot is not in the wait heap as well. -/
theorem Balanced.slot_not_heap (now : c.Balanced) (arrivals : c.Arrivals)
    (occupied : c.q.hasExec = true) {e : Event} (member : e ∈ c.q.waitHeap.events)
    : e.id ≠ c.q.execEvent.id := by
  have distinct := now.nodup_behind arrivals
  rw [List.map_append, List.nodup_append] at distinct
  refine distinct.2.2 e.id (List.mem_map_of_mem member) c.q.execEvent.id ?_
  simp [Queue.inSlot, occupied]

/-- The dispatched events are the completed ones and the one the dispatcher works on. -/
def DispatchesOnce (c : Ctx) : Prop :=
  c.exec.log.dispatched = c.log.completed.map Event.id ++ c.exec.dispatcher.ids

/-- Every move keeps the dispatches in line with the completions, by cases on the move. -/
theorem DispatchesOnce.move (now : c.DispatchesOnce) {holder : Holder}
    (held : c.HeldBy holder) (tagged : c.exec.Tagged) {action : Action}
    (move : Move c action c')
    : c'.DispatchesOnce := by
  unfold DispatchesOnce at now
  cases move with
  | sched ok c' move => cases move <;> exact now
  | init k t found c' move => cases move <;> exact now
  | dispatch c' move =>
      cases move with
      | inside x move busy => exact move.dispatched_eq busy now
      | clear t ids pc =>
          obtain ⟨rfl, rfl, -⟩ := held.clearing tagged pc
          have occupied : c.q.hasExec = true := by simpa using held.hasExec
          rw [pc] at now
          simpa [DispatchesOnce, occupied, DispatcherPc.ids] using now
      | wake pc =>
          rw [pc] at now
          simpa [DispatchesOnce, DispatcherPc.ids] using now
  | quiet action x same =>
      unfold DispatchesOnce
      simp only [same.dispatched, same.ids, now]
  | _ => exact now

/-- No event is dispatched twice: the completed ones and the one in the slot differ. -/
theorem DispatchesOnce.nodup (now : c.DispatchesOnce) {holder : Holder}
    (held : c.HeldBy holder) (balanced : c.Balanced) (arrivals : c.Arrivals)
    : c.exec.log.dispatched.Nodup := by
  have inSlot : c.exec.dispatcher.ids.Sublist (c.q.inSlot.map Event.id) := by
    refine (List.sublist_append_left _ c.exec.pendingIds).trans ?_
    have flight := held.inFlight
    rw [Exec.inFlight] at flight
    rw [flight]
    split
    case isTrue running =>
      have occupied : c.q.hasExec = true := by simp [held.hasExec, running]
      simp [Queue.inSlot, occupied]
    case isFalse => exact List.nil_sublist _
  have distinct := balanced.nodup_behind arrivals
  rw [List.map_append, List.nodup_append, List.map_append] at distinct
  rw [now, List.perm_append_comm.nodup_iff]
  exact distinct.2.1.sublist (inSlot.append_right _)

end Ctx

/-- From the step that sets its stage to EXEC until its completion, an event keeps the slot
and stays out of the wait heap; no event is dispatched twice, and a notification finds
exactly its own event in the slot.
-/
structure ExecutesOnce (system : Lts Ctx Action) : Prop where
  kept
    : ∀ (c c' d : Ctx) (action : Action) (id : Nat), system.Reachable c →
        system.next c action c' → ¬ c.Executes id → c'.Executes id →
        (system.restrict (fun c action => ¬ c.completes id action)).Steps c' d →
        d.Executes id ∧ ∀ e ∈ d.q.waitHeap.events, e.id ≠ id
  once : ∀ c, system.Reachable c → c.exec.log.dispatched.Nodup
  own
    : ∀ (c : Ctx) (t : EventType) (ids : List Nat), system.Reachable c →
        c.exec.dispatcher = .notifyClear t ids →
        c.q.hasExec = true ∧ ids = [c.q.execEvent.id]

section Runs

variable {role : Role} {cond : Ctx → Action → Prop}

theorem runsWhen_dispatchesOnce (inTime : ∀ c action, cond c action → c.actsInTime action)
    {c : Ctx} (reached : (runsWhen role cond).Reachable c)
    : c.DispatchesOnce := by
  refine runsWhen_induct Ctx.DispatchesOnce rfl ?_ reached
  intro c action c' reached now _ move
  obtain ⟨holder, held⟩ := runsWhen_held inTime reached
  exact now.move held (runsWhen_tagged reached) move

/-- An execution goes on along any path without its completion, by induction on the path. -/
theorem runsWhen_executes (inTime : ∀ c action, cond c action → c.actsInTime action)
    {id : Nat} {c d : Ctx} (reached : (runsWhen role cond).Reachable c)
    (now : c.Executes id)
    (path
      : ((runsWhen role cond).restrict (fun c action => ¬ c.completes id action)).Steps c d)
    : d.Executes id := by
  induction path with
  | refl => exact now
  | tail path step ih =>
      obtain ⟨action, goesOn, ⟨running, -⟩, taken⟩ := step
      have reached := reached.steps (Lts.Steps.of_restrict path)
      obtain ⟨holder, held⟩ := runsWhen_held inTime reached
      exact ih.move held (runsWhen_tagged reached) goesOn
        (Ctx.step_move (runsWhen_go reached) running taken)

end Runs

/-- When the init threads act in time, execution is not interrupted and happens once. -/
theorem actsInTime_executesOnce (role : Role)
    : ExecutesOnce (runsWhen role Ctx.actsInTime) where
  kept := by
    intro c c' d action id reached step _ executes path
    have later : (runsWhen role Ctx.actsInTime).Reachable d :=
      (reached.next step).steps (Lts.Steps.of_restrict path)
    have still := runsWhen_executes (fun _ _ met => met) (reached.next step) executes path
    refine ⟨still, fun e member => ?_⟩
    rw [← still.2.2]
    exact (runsWhen_balanced (fun _ _ met => met) later).slot_not_heap
      (runsWhen_arrivals later) still.1 member
  once := by
    intro c reached
    obtain ⟨holder, held⟩ := runsWhen_held (fun _ _ met => met) reached
    exact (runsWhen_dispatchesOnce (fun _ _ met => met) reached).nodup held
      (runsWhen_balanced (fun _ _ met => met) reached) (runsWhen_arrivals reached)
  own := by
    intro c t ids reached pc
    obtain ⟨holder, held⟩ := runsWhen_held (fun _ _ met => met) reached
    obtain ⟨rfl, same, -⟩ := held.clearing (runsWhen_tagged reached) pc
    exact ⟨by simpa using held.hasExec, same⟩

/-- A low MASTER is in its Init window, its thread about to switch the stage, when the
scheduler has found the window open for a preempting arrival.
-/
def lateActRun : List Action :=
  [.inject .keyRefill .master 0 true]
    ++ List.replicate 13 (.sched true)
    ++ List.replicate 11 (.init 0)
    ++ [.inject .deviceAuth .master 0 true]
    ++ List.replicate 8 (.sched true)

/-- The scheduler goes on to remove the event that has just been switched to EXEC. -/
def preemptedRun : List Action :=
  [.sched true, .sched true, .cancel 0, .sched true, .sched true, .sched true]

/-- A step of `runs` that is not the dispatcher's completes nothing. -/
def undispatchedStep (c : Ctx) (action : Action) : Option Ctx :=
  if action = .dispatcher then none else runsStep c action

theorem undispatchedStep_sound {role : Role} {id : Nat} (c : Ctx) (action : Action) (c' : Ctx)
    (taken : undispatchedStep c action = some c')
    : ((runs role).restrict (fun c action => ¬ c.completes id action)).next c action c' := by
  unfold undispatchedStep at taken
  split at taken
  case isTrue => cases taken
  case isFalse other =>
    refine ⟨?_, runsStep_sound c action c' taken⟩
    cases action with
    | dispatcher => exact absurd rfl other
    | _ => exact fun never => never

/-- The state in which the scheduler is about to preempt. -/
def lateActState : Ctx :=
  Option.get (Lts.execute runsStep (Ctx.init .a) lateActRun) (by decide +kernel)

/-- The state after the init thread has switched the stage to EXEC. -/
def actedState : Ctx := Option.get (runsStep lateActState (.init 0)) (by decide +kernel)

/-- The state after the scheduler has cleared the slot. -/
def preemptedState : Ctx :=
  Option.get (Lts.execute undispatchedStep actedState preemptedRun) (by decide +kernel)

/-- Execution can be interrupted: the event of `lateActRun` is switched to EXEC and then
removed from the slot on `preemptedRun`.
-/
theorem lateAct_interrupted : ¬ ∀ role, ExecutesOnce (runs role) := by
  intro always
  have reached : (runs .a).Reachable lateActState := runs_reachable .a lateActRun _
  have acts : (runs .a).next lateActState (.init 0) actedState :=
    runsStep_sound _ _ _ (Option.some_get _).symm
  have path
      : ((runs .a).restrict (fun c action => ¬ c.completes 1 action)).Steps actedState
          preemptedState :=
    Lts.execute_steps undispatchedStep_sound (Option.some_get _).symm
  have kept := (always .a).kept lateActState actedState preemptedState (.init 0) 1 reached acts
    (by decide +kernel) (by decide +kernel) path
  exact absurd kept.1 (by decide +kernel)

end QKeySys.Core
