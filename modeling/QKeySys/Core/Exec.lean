import Mathlib.Logic.Function.Basic
import QKeySys.Core.Event

/-! Execution dispatch: the signal of a started event, the dispatcher and the six workers.
Each definition is one critical section on `exec_sig.mu` or on one `worker_sig[i].mu`.
-/

namespace QKeySys.Core

/-- Program points of `dispatcher_thread`, with the locals still needed there. `ids` names
the events whose signals it has taken and is auxiliary.
-/
inductive DispatcherPc where
  | wait
  | asleep
  | wakeWorker (t : EventType) (r : Role) (ids : List Nat)
  | waitDone (t : EventType) (ids : List Nat)
  | asleepDone (t : EventType) (ids : List Nat)
  | notifyClear (t : EventType) (ids : List Nat)
  | notifyWake
  | exited
  deriving DecidableEq, Repr

/-- The events whose signals the dispatcher is working on. -/
def DispatcherPc.ids : DispatcherPc → List Nat
  | .wakeWorker _ _ ids | .waitDone _ ids | .asleepDone _ ids | .notifyClear _ ids => ids
  | _ => []

/-- The dispatcher is between taking a signal and the notification. -/
def DispatcherPc.working : DispatcherPc → Bool
  | .wakeWorker _ _ _ | .waitDone _ _ | .asleepDone _ _ | .notifyClear _ _ => true
  | _ => false

/-- Program points of `worker_thread`; `running` spans the work between its two locks. -/
inductive WorkerPc where
  | wait
  | asleep
  | running
  | exited
  deriving DecidableEq, Repr

structure WorkerSig where
  wake : Bool
  cv : Cond
  deriving DecidableEq, Repr

/-- Auxiliary record of what happened so far, oldest first. -/
structure ExecLog where
  signals : List (EventType × Role)
  dispatched : List Nat
  started : List (Fin 6)
  ended : List (Fin 6)
  notified : List EventType
  deriving DecidableEq, Repr

/-- `exec_sig`, the six `worker_sig` and the program points of the seven threads.
`pendingIds` is auxiliary: the events whose signals `wake` stands for.
-/
structure Exec where
  wake : Bool
  pendingType : EventType
  pendingRole : Role
  pendingIds : List Nat
  workerDone : Bool
  cv : Cond
  cvDone : Cond
  workerSig : Fin 6 → WorkerSig
  dispatcher : DispatcherPc
  worker : Fin 6 → WorkerPc
  log : ExecLog

/-- The worker of an event type and a role: 0/1 AUTH, 2/3 CLOCK, 4/5 KEYREFILL. -/
def workerIndex (t : EventType) (r : Role) : Fin 6 :=
  let ti : Fin 3 := if t = .deviceAuth then 0 else if t = .clockSync then 1 else 2
  let ri : Fin 2 := if r = .b then 1 else 0
  ⟨ti * 2 + ri, by omega⟩

/-- The event type that worker `idx` decodes from its index. -/
def workerType (idx : Fin 6) : EventType :=
  if idx.val / 2 = 0 then .deviceAuth
  else if idx.val / 2 = 1 then .clockSync
  else .keyRefill

/-- The role that worker `idx` decodes from its index. -/
def workerRole (idx : Fin 6) : Role := if idx.val % 2 = 0 then .a else .b

/-- One of the three enumerated event types. -/
def EventType.known : EventType → Prop
  | .other _ => False
  | _ => True

instance (t : EventType) : Decidable t.known :=
  match t with
  | .other _ => isFalse id
  | .deviceAuth | .clockSync | .keyRefill => isTrue trivial

/-- A worker decodes the type and the role that the dispatcher encoded. -/
theorem workerIndex_decodes {t : EventType} (known : t.known) (r : Role)
    : workerType (workerIndex t r) = t ∧ workerRole (workerIndex t r) = r := by
  cases t with
  | other => cases known
  | deviceAuth => cases r <;> decide
  | clockSync => cases r <;> decide
  | keyRefill => cases r <;> decide

namespace Exec

/-- `qks_exec_threads_start`: all flags are zero and all threads at their first wait. -/
def init : Exec where
  wake := false
  pendingType := .other 0
  pendingRole := .a
  pendingIds := []
  workerDone := false
  cv := .init
  cvDone := .init
  workerSig := fun _ => ⟨false, .init⟩
  dispatcher := .wait
  worker := fun _ => .wait
  log := ⟨[], [], [], [], []⟩

/-- `qks_exec_signal`, for the event numbered `id`. -/
def signal (x : Exec) (t : EventType) (r : Role) (id : Nat) : Exec :=
  { x with
    pendingType := t
    pendingRole := r
    wake := true
    cv := x.cv.signal
    pendingIds := x.pendingIds ++ [id]
    log := { x.log with signals := x.log.signals ++ [(t, r)] } }

/-- The next critical section of the dispatcher; none while it sleeps. The slot itself is
cleared and the scheduler woken by whoever owns the queue.
-/
def dispatcherStep (x : Exec) (stop : Bool) : Option Exec :=
  match x.dispatcher with
  | .wait =>
      if !x.wake && !stop then
        some { x with dispatcher := .asleep, cv := x.cv.wait }
      else if stop then
        some { x with dispatcher := .exited }
      else
        some {
          x with
          wake := false
          pendingIds := []
          dispatcher := .wakeWorker x.pendingType x.pendingRole x.pendingIds
          log := { x.log with dispatched := x.log.dispatched ++ x.pendingIds }
        }
  | .asleep => none
  | .wakeWorker t r ids =>
      let idx := workerIndex t r
      some {
        x with
        workerSig := Function.update x.workerSig idx ⟨true, (x.workerSig idx).cv.signal⟩
        dispatcher := .waitDone t ids
      }
  | .waitDone t ids =>
      if !x.workerDone && !stop then
        some { x with dispatcher := .asleepDone t ids, cvDone := x.cvDone.wait }
      else
        some { x with workerDone := false, dispatcher := .notifyClear t ids }
  | .asleepDone _ _ => none
  | .notifyClear t _ =>
      some {
        x with
        dispatcher := .notifyWake
        log := { x.log with notified := x.log.notified ++ [t] }
      }
  | .notifyWake => some { x with dispatcher := .wait }
  | .exited => none

/-- The dispatcher returns from a condition wait, signalled or not, and tests again. -/
def dispatcherReturn (x : Exec) : Option Exec :=
  match x.dispatcher with
  | .asleep => some { x with dispatcher := .wait }
  | .asleepDone t ids => some { x with dispatcher := .waitDone t ids }
  | _ => none

/-- The next critical section of worker `i`; its work ends with `worker_done`. -/
def workerStep (x : Exec) (stop : Bool) (i : Fin 6) : Option Exec :=
  match x.worker i with
  | .wait =>
      if !(x.workerSig i).wake && !stop then
        some {
          x with
          worker := Function.update x.worker i .asleep
          workerSig := Function.update x.workerSig i
            { x.workerSig i with cv := (x.workerSig i).cv.wait }
        }
      else if stop then
        some { x with worker := Function.update x.worker i .exited }
      else
        some {
          x with
          worker := Function.update x.worker i .running
          workerSig := Function.update x.workerSig i { x.workerSig i with wake := false }
          log := { x.log with started := x.log.started ++ [i] }
        }
  | .asleep => none
  | .running =>
      some {
        x with
        workerDone := true
        cvDone := x.cvDone.signal
        worker := Function.update x.worker i .wait
        log := { x.log with ended := x.log.ended ++ [i] }
      }
  | .exited => none

def workerReturn (x : Exec) (i : Fin 6) : Option Exec :=
  match x.worker i with
  | .asleep => some { x with worker := Function.update x.worker i .wait }
  | _ => none

/-- The moves of the dispatcher. -/
inductive DispatcherRule (x : Exec) : Exec → Prop where
  | sleep (pc : x.dispatcher = .wait) (quiet : x.wake = false)
      : DispatcherRule x { x with dispatcher := .asleep, cv := x.cv.wait }
  | take (pc : x.dispatcher = .wait) (awake : x.wake = true)
      : DispatcherRule x {
          x with
          wake := false
          pendingIds := []
          dispatcher := .wakeWorker x.pendingType x.pendingRole x.pendingIds
          log := { x.log with dispatched := x.log.dispatched ++ x.pendingIds }
        }
  | wakeWorker (t : EventType) (r : Role) (ids : List Nat)
      (pc : x.dispatcher = .wakeWorker t r ids)
      : DispatcherRule x {
          x with
          workerSig := Function.update x.workerSig (workerIndex t r)
            ⟨true, (x.workerSig (workerIndex t r)).cv.signal⟩
          dispatcher := .waitDone t ids
        }
  | sleepDone (t : EventType) (ids : List Nat) (pc : x.dispatcher = .waitDone t ids)
      (undone : x.workerDone = false)
      : DispatcherRule x {
          x with dispatcher := .asleepDone t ids, cvDone := x.cvDone.wait
        }
  | collect (t : EventType) (ids : List Nat) (pc : x.dispatcher = .waitDone t ids)
      (done : x.workerDone = true)
      : DispatcherRule x { x with workerDone := false, dispatcher := .notifyClear t ids }
  | notifyClear (t : EventType) (ids : List Nat) (pc : x.dispatcher = .notifyClear t ids)
      : DispatcherRule x {
          x with
          dispatcher := .notifyWake
          log := { x.log with notified := x.log.notified ++ [t] }
        }
  | notifyWake (pc : x.dispatcher = .notifyWake)
      : DispatcherRule x { x with dispatcher := .wait }

/-- Every step of the dispatcher is one of its moves, by cases on its program point. -/
theorem dispatcherStep_rule {x y : Exec} (step : x.dispatcherStep false = some y)
    : DispatcherRule x y := by
  unfold dispatcherStep at step
  cases pc : x.dispatcher with
  | wait =>
      simp only [pc] at step
      split at step
      case isTrue quiet =>
        obtain rfl := Option.some.inj step
        exact .sleep pc (by simpa using quiet)
      case isFalse awake =>
        simp only [Bool.false_eq_true, if_false] at step
        obtain rfl := Option.some.inj step
        exact .take pc (by simpa using awake)
  | wakeWorker t r ids =>
      simp only [pc] at step
      obtain rfl := Option.some.inj step
      exact .wakeWorker t r ids pc
  | waitDone t ids =>
      simp only [pc] at step
      split at step
      case isTrue undone =>
        obtain rfl := Option.some.inj step
        exact .sleepDone t ids pc (by simpa using undone)
      case isFalse done =>
        obtain rfl := Option.some.inj step
        exact .collect t ids pc (by simpa using done)
  | notifyClear t ids =>
      simp only [pc] at step
      obtain rfl := Option.some.inj step
      exact .notifyClear t ids pc
  | notifyWake =>
      simp only [pc] at step
      obtain rfl := Option.some.inj step
      exact .notifyWake pc
  | asleep => simp [pc] at step
  | asleepDone t ids => simp [pc] at step
  | exited => simp [pc] at step

/-- The moves of worker `i`. -/
inductive WorkerRule (x : Exec) (i : Fin 6) : Exec → Prop where
  | sleep (pc : x.worker i = .wait) (quiet : (x.workerSig i).wake = false)
      : WorkerRule x i {
          x with
          worker := Function.update x.worker i .asleep
          workerSig := Function.update x.workerSig i
            { x.workerSig i with cv := (x.workerSig i).cv.wait }
        }
  | start (pc : x.worker i = .wait) (awake : (x.workerSig i).wake = true)
      : WorkerRule x i {
          x with
          worker := Function.update x.worker i .running
          workerSig := Function.update x.workerSig i { x.workerSig i with wake := false }
          log := { x.log with started := x.log.started ++ [i] }
        }
  | finish (pc : x.worker i = .running)
      : WorkerRule x i {
          x with
          workerDone := true
          cvDone := x.cvDone.signal
          worker := Function.update x.worker i .wait
          log := { x.log with ended := x.log.ended ++ [i] }
        }

/-- Every step of a worker is one of its moves, by cases on its program point. -/
theorem workerStep_rule {x y : Exec} {i : Fin 6} (step : x.workerStep false i = some y)
    : WorkerRule x i y := by
  unfold workerStep at step
  cases pc : x.worker i with
  | wait =>
      simp only [pc] at step
      split at step
      case isTrue quiet =>
        obtain rfl := Option.some.inj step
        exact .sleep pc (by simpa using quiet)
      case isFalse awake =>
        simp only [Bool.false_eq_true, if_false] at step
        obtain rfl := Option.some.inj step
        exact .start pc (by simpa using awake)
  | running =>
      simp only [pc] at step
      obtain rfl := Option.some.inj step
      exact .finish pc
  | asleep => simp [pc] at step
  | exited => simp [pc] at step

/-- A wait of the dispatcher returns from one of its two sleeps. -/
theorem dispatcherReturn_cases {x y : Exec} (step : x.dispatcherReturn = some y)
    : (x.dispatcher = .asleep ∧ y = { x with dispatcher := .wait })
      ∨ ∃ t ids, x.dispatcher = .asleepDone t ids
        ∧ y = { x with dispatcher := .waitDone t ids } := by
  unfold dispatcherReturn at step
  cases pc : x.dispatcher with
  | asleep =>
      simp only [pc] at step
      exact .inl ⟨rfl, (Option.some.inj step).symm⟩
  | asleepDone t ids =>
      simp only [pc] at step
      exact .inr ⟨t, ids, rfl, (Option.some.inj step).symm⟩
  | _ => simp [pc] at step

/-- A wait of a worker returns from its sleep. -/
theorem workerReturn_cases {x y : Exec} {i : Fin 6} (step : x.workerReturn i = some y)
    : x.worker i = .asleep ∧ y = { x with worker := Function.update x.worker i .wait } := by
  unfold workerReturn at step
  cases pc : x.worker i with
  | asleep =>
      simp only [pc] at step
      exact ⟨rfl, (Option.some.inj step).symm⟩
  | _ => simp [pc] at step

/-- The signalled events whose notification has not cleared the slot yet. -/
def inFlight (x : Exec) : List Nat := x.dispatcher.ids ++ x.pendingIds

/-- The wake flag stands for at least one event, and so does a dispatcher at work. -/
structure Tagged (x : Exec) : Prop where
  wake : x.wake = true ↔ x.pendingIds ≠ []
  work : x.dispatcher.working = true → x.dispatcher.ids ≠ []

theorem init_tagged : Exec.init.Tagged := by
  constructor <;> simp [init, DispatcherPc.working]

theorem init_inFlight : Exec.init.inFlight = [] := rfl

@[simp]
theorem signal_inFlight (x : Exec) (t : EventType) (r : Role) (id : Nat)
    : (x.signal t r id).inFlight = x.inFlight ++ [id] := by
  simp [inFlight, signal]

theorem Tagged.signal {x : Exec} (now : x.Tagged) (t : EventType) (r : Role) (id : Nat)
    : (x.signal t r id).Tagged :=
  ⟨by simp [Exec.signal], now.work⟩

/-- Until the notification the dispatcher only hands the events on. -/
theorem DispatcherRule.inFlight_eq {x y : Exec} (move : DispatcherRule x y)
    (busy : ∀ t ids, x.dispatcher ≠ .notifyClear t ids)
    : y.inFlight = x.inFlight := by
  cases move with
  | notifyClear t ids pc => exact absurd pc (busy t ids)
  | _ => simp [inFlight, DispatcherPc.ids, *]

/-- Every event that the dispatcher works on was dispatched, and it dispatches nothing else. -/
theorem DispatcherRule.dispatched_eq {x y : Exec} (move : DispatcherRule x y)
    (busy : ∀ t ids, x.dispatcher ≠ .notifyClear t ids) {past : List Nat}
    (now : x.log.dispatched = past ++ x.dispatcher.ids)
    : y.log.dispatched = past ++ y.dispatcher.ids := by
  cases move with
  | notifyClear t ids pc => exact absurd pc (busy t ids)
  | _ => simp_all [DispatcherPc.ids]

theorem DispatcherRule.tagged {x y : Exec} (move : DispatcherRule x y) (now : x.Tagged)
    : y.Tagged := by
  obtain ⟨wake, work⟩ := now
  cases move <;> constructor <;> simp_all [DispatcherPc.ids, DispatcherPc.working]

/-- Workers and returning waits do not touch the signals. -/
structure SameSignals (x y : Exec) : Prop where
  wake : y.wake = x.wake
  pendingIds : y.pendingIds = x.pendingIds
  ids : y.dispatcher.ids = x.dispatcher.ids
  working : y.dispatcher.working = x.dispatcher.working
  dispatched : y.log.dispatched = x.log.dispatched

theorem SameSignals.inFlight {x y : Exec} (same : SameSignals x y)
    : y.inFlight = x.inFlight := by
  rw [Exec.inFlight, Exec.inFlight, same.ids, same.pendingIds]

theorem SameSignals.tagged {x y : Exec} (same : SameSignals x y) (now : x.Tagged)
    : y.Tagged := by
  constructor
  · rw [same.wake, same.pendingIds]
    exact now.wake
  · rw [same.ids, same.working]
    exact now.work

theorem WorkerRule.sameSignals {x y : Exec} {i : Fin 6} (move : WorkerRule x i y)
    : SameSignals x y := by
  cases move <;> exact ⟨rfl, rfl, rfl, rfl, rfl⟩

theorem dispatcherReturn_sameSignals {x y : Exec} (step : x.dispatcherReturn = some y)
    : SameSignals x y := by
  rcases dispatcherReturn_cases step with ⟨pc, rfl⟩ | ⟨t, ids, pc, rfl⟩ <;>
    exact ⟨rfl, rfl, by rw [pc]; rfl, by rw [pc]; rfl, rfl⟩

theorem workerReturn_sameSignals {x y : Exec} {i : Fin 6} (step : x.workerReturn i = some y)
    : SameSignals x y := by
  obtain ⟨_, rfl⟩ := workerReturn_cases step
  exact ⟨rfl, rfl, rfl, rfl, rfl⟩

end Exec

end QKeySys.Core
