import QKeySys.Core.Exec
import QKeySys.Library.Transition

/-! The dispatch handshake on its own: signals come in from outside, the dispatcher and the
six workers take their critical sections in any order, and any wait may return early.
-/

namespace QKeySys.Core

open QKeySys.Library

/-- One critical section of one party, or the return of one condition wait. -/
inductive HandshakeAction where
  | signal (t : EventType) (r : Role) (id : Nat)
  | dispatcher
  | dispatcherReturn
  | worker (i : Fin 6)
  | workerReturn (i : Fin 6)

/-- The threads of the execution layer with `stop = 0`. -/
def Exec.handshakeStep (x : Exec) : HandshakeAction → Option Exec
  | .signal t r id => some (x.signal t r id)
  | .dispatcher => x.dispatcherStep false
  | .dispatcherReturn => x.dispatcherReturn
  | .worker i => x.workerStep false i
  | .workerReturn i => x.workerReturn i

/-- A signal waits for the notification of every earlier one, as the hard block ensures. -/
def Exec.signalsInTurn (x : Exec) : HandshakeAction → Prop
  | .signal t _ _ => t.known ∧ x.log.notified.length = x.log.signals.length
  | _ => True

instance (x : Exec) (action : HandshakeAction) : Decidable (x.signalsInTurn action) :=
  match action with
  | .signal t _ _ => inferInstanceAs (Decidable (t.known ∧ _))
  | .dispatcher | .dispatcherReturn | .worker _ | .workerReturn _ => isTrue trivial

/-- The runs of the handshake in which signals come in turn. -/
def handshake : Lts Exec HandshakeAction :=
  (Lts.ofFunction Exec.init Exec.handshakeStep).restrict Exec.signalsInTurn

/-- How far the current event has come; `idle` when there is none. -/
inductive Phase where
  | idle
  | signalled
  | taken
  | woken
  | running
  | ended
  | collected
  deriving DecidableEq

namespace Phase

/-- The signal of the current event has been given. -/
@[simp]
def begun : Phase → Bool
  | idle => false
  | _ => true

/-- The worker run of the current event has started. -/
@[simp]
def hasStarted : Phase → Bool
  | running | ended | collected => true
  | _ => false

/-- The worker run of the current event has ended. -/
@[simp]
def hasEnded : Phase → Bool
  | ended | collected => true
  | _ => false

/-- The dispatcher's program point in each phase. -/
@[simp]
def dispatcherAt (phase : Phase) (t : EventType) (r : Role) (pc : DispatcherPc) : Prop :=
  match phase with
  | idle | signalled => pc = .wait ∨ pc = .asleep ∨ pc = .notifyWake
  | taken => ∃ ids, pc = .wakeWorker t r ids
  | woken | running | ended => ∃ ids, pc = .waitDone t ids ∨ pc = .asleepDone t ids
  | collected => ∃ ids, pc = .notifyClear t ids

end Phase

/-- The signals of `served` are through and the event `(t, r)` is in the given phase. -/
structure InPhase (phase : Phase) (served : List (EventType × Role)) (t : EventType)
    (r : Role) (x : Exec) : Prop where
  signals : x.log.signals = served ++ (if phase.begun then [(t, r)] else [])
  started
    : x.log.started
      = (served ++ (if phase.hasStarted then [(t, r)] else [])).map
          (fun p => workerIndex p.1 p.2)
  ended
    : x.log.ended
      = (served ++ (if phase.hasEnded then [(t, r)] else [])).map
          (fun p => workerIndex p.1 p.2)
  notified : x.log.notified = served.map Prod.fst
  wake : x.wake = decide (phase = .signalled)
  pending : phase = .signalled → x.pendingType = t ∧ x.pendingRole = r
  workerDone : x.workerDone = decide (phase = .ended)
  flags : ∀ i, (x.workerSig i).wake = decide (phase = .woken ∧ i = workerIndex t r)
  running : ∀ i, x.worker i = .running ↔ phase = .running ∧ i = workerIndex t r
  alive : ∀ i, x.worker i ≠ .exited
  dispatcher : phase.dispatcherAt t r x.dispatcher

/-- Some event is in some phase. -/
def Exec.Orderly (x : Exec) : Prop :=
  ∃ phase served t r, InPhase phase served t r x

theorem Exec.init_orderly : Exec.init.Orderly := by
  refine ⟨.idle, [], .deviceAuth, .a, ?_⟩
  constructor <;> simp [Exec.init]

section Steps

variable {phase : Phase} {served : List (EventType × Role)} {t : EventType} {r : Role}
  {x y : Exec}

/-- A signal in turn finds no current event and starts the next one. -/
theorem InPhase.signal (now : InPhase phase served t r x)
    (turn : x.log.notified.length = x.log.signals.length) (t' : EventType) (r' : Role)
    (id : Nat)
    : InPhase .signalled served t' r' (x.signal t' r' id) := by
  have idle : phase = .idle := by
    rw [now.notified, now.signals] at turn
    cases phase with
    | idle => rfl
    | _ => simp [Phase.begun] at turn
  subst idle
  obtain ⟨signals, started, ended, notified, -, -, done, flags, running, alive,
    dispatcher⟩ := now
  constructor <;> simp_all [Exec.signal]

/-- A critical section of the dispatcher keeps the phase or moves it on, by cases on its
move and on the phases that allow it.
-/
theorem InPhase.dispatcher_move (now : InPhase phase served t r x)
    (move : Exec.DispatcherRule x y)
    : y.Orderly := by
  obtain ⟨signals, started, ended, notified, wake, pending, done, flags, running,
    alive, point⟩ := id now
  cases move with
  | sleep pc quiet =>
      cases phase <;> simp [pc] at point
      case idle => exact ⟨.idle, served, t, r, { now with dispatcher := .inr (.inl rfl) }⟩
      case signalled => simp [wake] at quiet
  | take pc awake =>
      cases phase <;> simp [pc] at point
      case idle => simp [wake] at awake
      case signalled =>
        obtain ⟨rfl, rfl⟩ := pending rfl
        refine ⟨.taken, served, x.pendingType, x.pendingRole, ?_⟩
        constructor <;> simp_all
  | wakeWorker t' r' ids pc =>
      cases phase <;> simp [pc] at point
      obtain ⟨rfl, rfl⟩ := point
      refine ⟨.woken, served, t', r', ?_⟩
      constructor <;> simp_all [Function.update_apply]
      intro i
      split <;> simp_all
  | sleepDone t' ids pc undone =>
      cases phase <;> simp [pc] at point
      all_goals subst point
      case woken => exact ⟨.woken, served, t', r, { now with dispatcher := ⟨ids, .inr rfl⟩ }⟩
      case running =>
        exact ⟨.running, served, t', r, { now with dispatcher := ⟨ids, .inr rfl⟩ }⟩
      case ended => simp [done] at undone
  | collect t' ids pc finished =>
      cases phase <;> simp [pc] at point
      all_goals subst point
      case ended =>
        refine ⟨.collected, served, t', r, ?_⟩
        constructor <;> simp_all
      all_goals simp [done] at finished
  | notifyClear t' ids pc =>
      cases phase <;> simp [pc] at point
      subst point
      refine ⟨.idle, served ++ [(t', r)], t', r, ?_⟩
      constructor <;> simp_all
  | notifyWake pc =>
      cases phase <;> simp [pc] at point
      case idle => exact ⟨.idle, served, t, r, { now with dispatcher := .inl rfl }⟩
      case signalled => exact ⟨.signalled, served, t, r, { now with dispatcher := .inl rfl }⟩

/-- A returning wait of the dispatcher keeps the phase. -/
theorem InPhase.dispatcher_return (now : InPhase phase served t r x)
    (step : x.dispatcherReturn = some y)
    : InPhase phase served t r y := by
  have point := now.dispatcher
  rcases Exec.dispatcherReturn_cases step with ⟨pc, rfl⟩ | ⟨t', ids, pc, rfl⟩
  · refine { now with dispatcher := ?_ }
    cases phase <;> simp_all
  · refine { now with dispatcher := ?_ }
    cases phase <;> simp_all

/-- A critical section of a worker keeps the phase or moves it on, by cases on its move;
only the current event's worker finds its flag set or is running.
-/
theorem InPhase.worker_move (now : InPhase phase served t r x) {i : Fin 6}
    (move : Exec.WorkerRule x i y)
    : y.Orderly := by
  obtain ⟨signals, started, ended, notified, wake, pending, done, flags, running,
    alive, point⟩ := id now
  cases move with
  | sleep pc quiet =>
      refine ⟨phase, served, t, r, ?_⟩
      constructor <;> simp_all [Function.update_apply]
      all_goals grind
  | start pc awake =>
      obtain ⟨rfl, rfl⟩ : phase = .woken ∧ i = workerIndex t r := by
        simpa [awake] using (flags i).symm
      refine ⟨.running, served, t, r, ?_⟩
      constructor <;> simp_all [Function.update_apply]
      all_goals grind
  | finish pc =>
      obtain ⟨rfl, rfl⟩ := (running i).mp pc
      refine ⟨.ended, served, t, r, ?_⟩
      constructor <;> simp_all [Function.update_apply]
      all_goals grind

/-- A returning wait of a worker keeps the phase. -/
theorem InPhase.worker_return (now : InPhase phase served t r x) {i : Fin 6}
    (step : x.workerReturn i = some y)
    : InPhase phase served t r y := by
  obtain ⟨pc, rfl⟩ := Exec.workerReturn_cases step
  have running := now.running
  have alive := now.alive
  refine { now with running := ?_, alive := ?_ }
  · simp only [Function.update_apply]
    grind
  · simp only [Function.update_apply]
    grind

end Steps

/-- Every run keeps the current event in one of the phases, by cases on the action. -/
theorem handshake_orderly : handshake.Invariant Exec.Orderly where
  init := by
    rintro _ rfl
    exact Exec.init_orderly
  step := by
    rintro x action y ⟨phase, served, t, r, now⟩ ⟨turn, step⟩
    cases action with
    | signal t' r' id =>
        obtain rfl := Option.some.inj step
        exact ⟨_, _, _, _, now.signal turn.2 t' r' id⟩
    | dispatcher => exact now.dispatcher_move (Exec.dispatcherStep_rule step)
    | dispatcherReturn => exact ⟨_, _, _, _, now.dispatcher_return step⟩
    | worker i => exact now.worker_move (Exec.workerStep_rule step)
    | workerReturn i => exact ⟨_, _, _, _, now.worker_return step⟩

/-- Signals in turn are for enumerated event types. -/
theorem handshake_known
    : handshake.Invariant (fun x => ∀ p ∈ x.log.signals, p.1.known) where
  init := by
    rintro _ rfl
    simp [Exec.init]
  step := by
    rintro x action y known ⟨turn, step⟩
    cases action with
    | signal t r id =>
        obtain rfl := Option.some.inj step
        simpa [Exec.signal, or_imp, forall_and, turn.1] using known
    | dispatcher => cases Exec.dispatcherStep_rule step <;> exact known
    | dispatcherReturn =>
        rcases Exec.dispatcherReturn_cases step with ⟨_, rfl⟩ | ⟨_, _, _, rfl⟩ <;> exact known
    | worker i => cases Exec.workerStep_rule step <;> exact known
    | workerReturn i =>
        obtain ⟨_, rfl⟩ := Exec.workerReturn_cases step
        exact known

/-- Every one of the seven threads sleeps on a condition that is false. -/
def Exec.AllAsleep (x : Exec) : Prop :=
  ((x.dispatcher = .asleep ∧ x.wake = false)
    ∨ ∃ t ids, x.dispatcher = .asleepDone t ids ∧ x.workerDone = false)
  ∧ ∀ i, x.worker i = .asleep ∧ (x.workerSig i).wake = false

/-- Worker runs and notifications follow the signals one by one, an outstanding signal
leaves somebody awake, and no flag is left over between two signals.
-/
structure Exec.InStep (x : Exec) : Prop where
  run_for_signal
    : ∀ (i : Nat) (w : Fin 6), x.log.started[i]? = some w →
        ∃ t r, x.log.signals[i]? = some (t, r) ∧ w = workerIndex t r
          ∧ workerType w = t ∧ workerRole w = r
  notified_after_run
    : ∀ (i : Nat) (t : EventType), x.log.notified[i]? = some t →
        ∃ r w, x.log.signals[i]? = some (t, r) ∧ x.log.started[i]? = some w
          ∧ x.log.ended[i]? = some w
  outstanding : x.log.notified.length < x.log.signals.length → ¬ x.AllAsleep
  clean
    : (x.dispatcher = .wait ∨ x.dispatcher = .asleep) → x.wake = false →
        x.workerDone = false ∧ ∀ i, (x.workerSig i).wake = false

/-- In no phase but `idle` are all seven threads asleep on false conditions, by cases on the
phase.
-/
theorem InPhase.not_allAsleep {phase : Phase} {served : List (EventType × Role)}
    {t : EventType} {r : Role} {x : Exec} (now : InPhase phase served t r x)
    (begun : phase.begun = true)
    : ¬ x.AllAsleep := by
  rintro ⟨dispatcher, workers⟩
  have point := now.dispatcher
  cases phase with
  | idle => cases begun
  | signalled =>
      have awake : x.wake = true := now.wake
      rcases dispatcher with ⟨_, quiet⟩ | ⟨t', ids, pc, _⟩
      · simp [awake] at quiet
      · simp [pc] at point
  | taken =>
      obtain ⟨ids, pc⟩ := point
      simp [pc] at dispatcher
  | woken =>
      have flag := now.flags (workerIndex t r)
      simp [(workers _).2] at flag
  | running =>
      have run := (now.running (workerIndex t r)).mpr ⟨rfl, rfl⟩
      simp [(workers _).1] at run
  | ended =>
      have done : x.workerDone = true := now.workerDone
      rcases dispatcher with ⟨pc, _⟩ | ⟨t', ids, _, undone⟩
      · simp [pc] at point
      · simp [done] at undone
  | collected =>
      obtain ⟨ids, pc⟩ := point
      simp [pc] at dispatcher

/-- In any phase the logs follow the signals, by reading off the current event's place. -/
theorem InPhase.inStep {phase : Phase} {served : List (EventType × Role)} {t : EventType}
    {r : Role} {x : Exec} (now : InPhase phase served t r x)
    (known : ∀ p ∈ x.log.signals, p.1.known)
    : x.InStep where
  run_for_signal := by
    intro i w found
    rw [now.started, List.getElem?_map, Option.map_eq_some_iff] at found
    obtain ⟨⟨t', r'⟩, found, rfl⟩ := found
    have signalled : x.log.signals[i]? = some (t', r') := by
      rw [now.signals]
      cases phase <;> grind [Phase.hasStarted, Phase.begun]
    obtain ⟨type, role⟩ := workerIndex_decodes (known _ (List.mem_of_getElem? signalled)) r'
    exact ⟨t', r', signalled, rfl, type, role⟩
  notified_after_run := by
    intro i t' found
    rw [now.notified, List.getElem?_map, Option.map_eq_some_iff] at found
    obtain ⟨⟨t', r'⟩, found, rfl⟩ := found
    have earlier (more : List (EventType × Role)) : (served ++ more)[i]? = some (t', r') := by
      rw [List.getElem?_append_left (List.getElem?_eq_some_iff.mp found).1, found]
    refine ⟨r', workerIndex t' r', ?_, ?_, ?_⟩
    · rw [now.signals, earlier]
    · rw [now.started, List.getElem?_map, earlier, Option.map_some]
    · rw [now.ended, List.getElem?_map, earlier, Option.map_some]
  outstanding := by
    intro outstanding
    refine now.not_allAsleep ?_
    rw [now.notified, now.signals] at outstanding
    cases phase with
    | idle => simp at outstanding
    | _ => rfl
  clean := by
    intro outer quiet
    have point := now.dispatcher
    cases phase with
    | idle => exact ⟨now.workerDone, now.flags⟩
    | signalled => simp [now.wake] at quiet
    | _ => rcases outer with pc | pc <;> simp [pc] at point

/-- The dispatch handshake, from the phase of the current event. -/
theorem handshake_inStep {x : Exec} (reached : handshake.Reachable x) : x.InStep := by
  obtain ⟨phase, served, t, r, now⟩ := handshake_orderly.reachable reached
  exact now.inStep (handshake_known.reachable reached)

/-- Two events in turn: the first is through, the second has reached its worker's flag. -/
theorem handshake_inStep_twoEvents
    : ∃ x, handshake.Reachable x ∧ x.log.notified = [.keyRefill]
        ∧ x.log.signals = [(.keyRefill, .b), (.clockSync, .a)]
        ∧ x.InStep := by
  let labels : List HandshakeAction := [
    .worker 5, .dispatcher, .signal .keyRefill .b 1, .dispatcherReturn, .dispatcher,
    .dispatcher, .workerReturn 5, .worker 5, .dispatcher, .worker 5, .dispatcherReturn,
    .dispatcher, .dispatcher, .signal .clockSync .a 2, .dispatcher, .dispatcher, .dispatcher
  ]
  have reached : handshake.Reachable _ :=
    Lts.execute_reachable labels (by decide +kernel)
  exact ⟨_, reached, by decide +kernel, by decide +kernel, handshake_inStep reached⟩

end QKeySys.Core
