import QKeySys.Core.AllRuns
import QKeySys.Core.Execution

/-! The dispatch handshake inside the whole system: the scheduler and the init threads give
their signals in turn, so that what holds of the handshake alone holds of every run, and the
events that complete are the ones whose workers ran.
-/

namespace QKeySys.Core

open QKeySys.Library

/-- Injections are of the three enumerated event types. -/
def Action.known : Action → Prop
  | .inject type _ _ _ => type.known
  | _ => True

namespace Ctx

variable {c c' : Ctx} {role : Role}

/-- The init threads act in time, and all events are of enumerated types. -/
def actsKnown (c : Ctx) (action : Action) : Prop := c.actsInTime action ∧ action.known

/-- All injected events are of enumerated types. -/
def KnownTypes (c : Ctx) : Prop := ∀ e ∈ c.log.injected, e.type.known

/-- Only an arrival adds to the injected events, by cases on the move. -/
theorem KnownTypes.move (now : c.KnownTypes) {action : Action} (known : action.known)
    (move : Move c action c')
    : c'.KnownTypes := by
  cases move with
  | arrive type dir payload =>
      intro e member
      rcases List.mem_append.mp member with earlier | last
      · exact now e earlier
      · obtain rfl := List.mem_singleton.mp last
        exact known
  | sched ok c' move => cases move <;> exact now
  | init k t found c' move => cases move <;> exact now
  | dispatch c' move => cases move <;> exact now
  | _ => exact now

/-- The event in the slot is of an enumerated type, since its record was injected. -/
theorem KnownTypes.slot (now : c.KnownTypes) (balanced : c.Balanced)
    (occupied : c.q.hasExec = true)
    : c.q.execEvent.type.known := by
  have placed : c.q.execEvent ∈ c.places := by simp [places, Queue.inSlot, occupied]
  obtain ⟨e, member, same⟩ := balanced.origin placed
  have type : e.type = c.q.execEvent.type := congrArg Record.type same
  exact type ▸ now e member

/-- The execution layer is in a run of the handshake on its own. It was given the signals of
the completed events and of the one that it works on, and has notified of the completed ones.
-/
structure Linked (role : Role) (c : Ctx) : Prop where
  reached : handshake.Reachable c.exec
  side : c.role = role
  signals
    : c.exec.log.signals
      = c.log.completed.map (fun e => (e.type, role))
        ++ c.exec.inFlight.map (fun _ => (c.q.execEvent.type, role))
  notified : c.exec.log.notified = c.log.completed.map Event.type

namespace Linked

theorem init (role : Role) : (Ctx.init role).Linked role := by
  refine ⟨.start rfl, rfl, ?_, ?_⟩ <;>
    simp [Ctx.init, Exec.init, Exec.inFlight, DispatcherPc.ids]

/-- Nothing but the type of a free slot may change beside the execution layer. -/
theorem same (now : c.Linked role) (exec : c'.exec = c.exec) (owner : c'.role = c.role)
    (completed : c'.log.completed = c.log.completed)
    (type : c.exec.inFlight ≠ [] → c'.q.execEvent.type = c.q.execEvent.type)
    : c'.Linked role where
  reached := exec ▸ now.reached
  side := owner.trans now.side
  signals := by
    rw [exec, completed, now.signals]
    by_cases idle : c.exec.inFlight = []
    · simp [idle]
    · rw [type idle]
  notified := by
    rw [exec, completed]
    exact now.notified

/-- A step of the execution layer that gives no signal and no notification. -/
theorem inner (now : c.Linked role) (action : HandshakeAction) {x : Exec}
    (step : c.exec.handshakeStep action = some x) (turn : c.exec.signalsInTurn action)
    (signals : x.log.signals = c.exec.log.signals)
    (notified : x.log.notified = c.exec.log.notified)
    (inFlight : x.inFlight = c.exec.inFlight)
    : Linked role { c with exec := x } where
  reached := now.reached.next ⟨turn, step⟩
  side := now.side
  signals := by
    rw [signals, inFlight]
    exact now.signals
  notified := notified.trans now.notified

/-- With nothing in flight, every signal was notified of. -/
theorem turn (now : c.Linked role) (idle : c.exec.inFlight = [])
    : c.exec.log.notified.length = c.exec.log.signals.length := by
  simp [now.notified, now.signals, idle]

/-- A signal for the event in the slot, with nothing in flight, is given in turn. -/
theorem signal (now : c.Linked role) (idle : c.exec.inFlight = [])
    (known : c.q.execEvent.type.known)
    : Linked role {
        c with exec := c.exec.signal c.q.execEvent.type c.role c.q.execEvent.id
      } where
  reached := by
    have taken
        : handshake.next c.exec (.signal c.q.execEvent.type c.role c.q.execEvent.id)
            (c.exec.signal c.q.execEvent.type c.role c.q.execEvent.id) :=
      ⟨⟨known, now.turn idle⟩, rfl⟩
    exact now.reached.next taken
  side := now.side
  signals := by
    have signals := now.signals
    simp only [idle, List.map_nil, List.append_nil] at signals
    rw [Exec.signal_inFlight, idle]
    simp [Exec.signal, signals, now.side]
  notified := now.notified

/-- The moves of the scheduler, by cases: it gives a signal for its own SLAVE only, and changes
the slot only when it is free.
-/
theorem sched (now : c.Linked role) {holder : Holder} (held : c.HeldBy holder)
    (known : c.q.hasExec = true → c.q.execEvent.type.known) {ok : Bool}
    (move : SchedMove c ok c')
    : c'.Linked role := by
  have idle (free : holder ≠ .running) : c.exec.inFlight = [] := by
    rw [held.inFlight, if_neg free]
  cases move with
  | claim e pc =>
      have nobody := held.nobody (.inr (by rw [pc]; rfl))
      exact now.same rfl rfl rfl (fun busy => absurd (idle (by simp [nobody])) busy)
  | install e pc =>
      have nobody := held.nobody (.inr (by rw [pc]; rfl))
      exact now.same rfl rfl rfl (fun busy => absurd (idle (by simp [nobody])) busy)
  | actStage pc => exact now.same rfl rfl rfl (fun _ => by simp)
  | actSignal t id pc =>
      have slave := held.isSlave (by rw [pc]; rfl)
      have occupied : c.q.hasExec = true := by simp [held.hasExec, slave]
      obtain ⟨rfl, rfl⟩ := held.slaveSignal t id pc
      have next := now.signal (idle (by simp [slave])) (known occupied)
      exact next.same rfl rfl rfl (fun _ => rfl)
  | _ => exact now.same rfl rfl rfl (fun _ => rfl)

/-- The moves of an init thread, by cases: it gives its signal for the event in the slot. -/
theorem initMove (now : c.Linked role) {holder : Holder} (held : c.HeldBy holder)
    (known : c.q.hasExec = true → c.q.execEvent.type.known) {k : Nat} {t : InitThread}
    (found : c.initThreads[k]? = some t) (move : InitMove c k t c')
    : c'.Linked role := by
  cases move with
  | stage pc => exact now.same rfl rfl rfl (fun _ => by simp)
  | signal type id pc =>
      have acting := (held.threads.acting k t found (by rw [pc]; rfl)).1
      have occupied : c.q.hasExec = true := by simp [held.hasExec, acting]
      obtain ⟨rfl, rfl⟩ := held.threads.signal k t type id found pc
      have idle : c.exec.inFlight = [] := by simp [held.inFlight, acting]
      exact (now.signal idle (known occupied)).same rfl rfl rfl (fun _ => rfl)
  | _ => exact now.same rfl rfl rfl (fun _ => rfl)

/-- The dispatcher notifies of the event in the slot: it is the last one signalled. -/
theorem notifies (now : c.Linked role) {holder : Holder} (held : c.HeldBy holder)
    (tagged : c.exec.Tagged) {t : EventType} {ids : List Nat}
    (pc : c.exec.dispatcher = .notifyClear t ids)
    : t = c.q.execEvent.type := by
  obtain ⟨rfl, -, -⟩ := held.clearing tagged pc
  obtain ⟨phase, served, t', r, phased⟩ := handshake_orderly.reachable now.reached
  have point := phased.dispatcher
  cases phase <;> simp [pc] at point
  subst point
  have signals := phased.signals
  rw [now.signals, held.inFlight] at signals
  have last := (List.append_inj_right' signals rfl)
  simp only [if_true, List.map_cons, List.map_nil, Phase.begun, List.cons.injEq, Prod.mk.injEq]
    at last
  exact last.1.1.symm

/-- The moves of the dispatcher, by cases: a notification moves the event in flight to the
completed ones.
-/
theorem dispatch (now : c.Linked role) {holder : Holder} (held : c.HeldBy holder)
    (tagged : c.exec.Tagged) {x : Exec} (inner : c.exec.dispatcherStep false = some x)
    (move : DispatchMove c c') (exec : c'.exec = x)
    : c'.Linked role := by
  have taken : handshake.next c.exec .dispatcher x := ⟨trivial, inner⟩
  have reached := now.reached.next taken
  cases move with
  | inside x' move busy =>
      obtain rfl : x' = x := exec
      refine now.inner .dispatcher inner trivial ?_ ?_ (move.inFlight_eq busy)
      · cases move <;> rfl
      · cases move with
        | notifyClear t ids pc => exact absurd pc (busy t ids)
        | _ => rfl
  | clear t ids pc =>
      have type := now.notifies held tagged pc
      obtain ⟨rfl, rfl, nothing⟩ := held.clearing tagged pc
      have occupied : c.q.hasExec = true := by simpa using held.hasExec
      refine ⟨exec ▸ reached, now.side, ?_, ?_⟩
      · have signals := now.signals
        simp only [held.inFlight, if_true, List.map_cons, List.map_nil] at signals
        simp [signals, occupied, Exec.inFlight, DispatcherPc.ids, nothing]
      · simp [now.notified, occupied, type]
  | wake pc =>
      refine ⟨exec ▸ reached, now.side, ?_, now.notified⟩
      have signals := now.signals
      simpa [Exec.inFlight, pc, DispatcherPc.ids, Queue.wake] using signals

/-- Every step keeps the link, by cases on the action. -/
theorem step (now : c.Linked role) {holder : Holder} (held : c.HeldBy holder)
    (tagged : c.exec.Tagged) (known : c.q.hasExec = true → c.q.execEvent.type.known)
    (go : c.stop = false) {action : Action} (step : c.step action = some c')
    : c'.Linked role := by
  cases action with
  | inject type dir payload mallocOk =>
      obtain rfl := Option.some.inj step
      cases mallocOk <;> exact now.same rfl rfl rfl (fun _ => rfl)
  | sched ok => exact now.sched held known (schedStep_move step)
  | schedReturn =>
      rcases schedReturn_cases step with ⟨_, rfl⟩ | ⟨_, rfl⟩ <;>
        exact now.same rfl rfl rfl (fun _ => rfl)
  | init k =>
      obtain ⟨t, found, move⟩ := initStep_move step
      exact now.initMove held known found move
  | cancel k =>
      obtain ⟨t, _, _, _, rfl⟩ := cancelEffect_cases step
      exact now.same rfl rfl rfl (fun _ => rfl)
  | dispatcher =>
      have move := dispatcherStep_move go step
      obtain ⟨x, inner, moved⟩ := Option.map_eq_some_iff.mp step
      rw [go] at inner
      refine now.dispatch held tagged inner move ?_
      rw [← moved]
      split <;> rfl
  | dispatcherReturn =>
      obtain ⟨x, inner, rfl⟩ := Option.map_eq_some_iff.mp step
      have same := Exec.dispatcherReturn_sameSignals inner
      refine now.inner .dispatcherReturn inner trivial ?_ ?_ same.inFlight
      all_goals rcases Exec.dispatcherReturn_cases inner with ⟨_, rfl⟩ | ⟨_, _, _, rfl⟩ <;> rfl
  | worker i =>
      obtain ⟨x, inner, rfl⟩ := Option.map_eq_some_iff.mp step
      rw [go] at inner
      have rule := Exec.workerStep_rule inner
      refine now.inner (.worker i) inner trivial ?_ ?_ rule.sameSignals.inFlight
      all_goals cases rule <;> rfl
  | workerReturn i =>
      obtain ⟨x, inner, rfl⟩ := Option.map_eq_some_iff.mp step
      have same := Exec.workerReturn_sameSignals inner
      refine now.inner (.workerReturn i) inner trivial ?_ ?_ same.inFlight
      all_goals
        obtain ⟨_, rfl⟩ := Exec.workerReturn_cases inner
        rfl
  | requestStop =>
      obtain rfl := Option.some.inj step
      exact now.same rfl rfl rfl (fun _ => rfl)

end Linked

/-- The worker runs are those of the completed events, in the order of their completion, and
the one of the event in the slot.
-/
structure RunsOwn (role : Role) (c : Ctx) : Prop where
  completed
    : ∀ (i : Nat) (e : Event), c.log.completed[i]? = some e →
        c.exec.log.started[i]? = some (workerIndex e.type role)
        ∧ c.exec.log.ended[i]? = some (workerIndex e.type role)
        ∧ workerType (workerIndex e.type role) = e.type
        ∧ workerRole (workerIndex e.type role) = role
  current
    : ∀ (i : Nat) (w : Fin 6), c.exec.log.started[i]? = some w →
        c.log.completed.length ≤ i →
        i = c.log.completed.length ∧ c.q.hasExec = true ∧ c.q.execEvent.stage = .exec
        ∧ w = workerIndex c.q.execEvent.type role
  running
    : ∀ w : Fin 6, c.exec.worker w = .running →
        c.q.hasExec = true ∧ c.q.execEvent.stage = .exec
        ∧ w = workerIndex c.q.execEvent.type role

namespace Linked

/-- A signal behind those of the completed events is for the event in the slot. -/
theorem last_signal (now : c.Linked role) {holder : Holder} (held : c.HeldBy holder) {i : Nat}
    {t : EventType} {r : Role} (found : c.exec.log.signals[i]? = some (t, r))
    (late : c.log.completed.length ≤ i)
    : i = c.log.completed.length ∧ c.q.hasExec = true ∧ c.q.execEvent.stage = .exec
        ∧ t = c.q.execEvent.type ∧ r = role := by
  rw [now.signals, List.getElem?_append_right (by simpa using late), List.length_map,
    held.inFlight] at found
  split at found
  case isTrue running =>
    cases gap : i - c.log.completed.length with
    | zero =>
        simp only [gap, List.map_cons, List.getElem?_cons_zero, Option.some.injEq,
          Prod.mk.injEq] at found
        exact ⟨by omega, by simp [held.hasExec, running], held.exec (.inr running),
          found.1.symm, found.2.symm⟩
    | succ n => simp [gap] at found
  case isFalse => simp at found

/-- The handshake on its own accounts for the worker runs. -/
theorem runsOwn (now : c.Linked role) {holder : Holder} (held : c.HeldBy holder)
    : c.RunsOwn role := by
  obtain ⟨phase, served, t, r, phased⟩ := handshake_orderly.reachable now.reached
  have inStep := phased.inStep (handshake_known.reachable now.reached)
  refine ⟨fun i e found => ?_, fun i w found late => ?_, fun w running => ?_⟩
  · have notified : c.exec.log.notified[i]? = some e.type := by
      rw [now.notified, List.getElem?_map, found, Option.map_some]
    have signalled : c.exec.log.signals[i]? = some (e.type, role) := by
      rw [now.signals, List.getElem?_append_left (by
        simpa using (List.getElem?_eq_some_iff.mp found).1), List.getElem?_map, found,
        Option.map_some]
    obtain ⟨r', w, signalled', started, ended⟩ := inStep.notified_after_run i e.type notified
    obtain ⟨t', r'', signalled'', rfl, type, owner⟩ := inStep.run_for_signal i w started
    rw [signalled] at signalled''
    obtain ⟨rfl, rfl⟩ := Prod.mk.inj (Option.some.inj signalled'')
    exact ⟨started, ended, type, owner⟩
  · obtain ⟨t', r', signalled, rfl, -, -⟩ := inStep.run_for_signal i w found
    obtain ⟨here, occupied, stage, rfl, rfl⟩ := now.last_signal held signalled late
    exact ⟨here, occupied, stage, rfl⟩
  · obtain ⟨rfl, rfl⟩ := (phased.running w).mp running
    have signalled : c.exec.log.signals[served.length]? = some (t, r) := by
      rw [phased.signals]
      simp
    have late : c.log.completed.length ≤ served.length := by
      have lengths := congrArg List.length (now.notified.symm.trans phased.notified)
      simp only [List.length_map] at lengths
      omega
    obtain ⟨-, occupied, stage, rfl, rfl⟩ := now.last_signal held signalled late
    exact ⟨occupied, stage, rfl⟩

end Linked

end Ctx

section Runs

variable {role : Role} {cond : Ctx → Action → Prop} {c : Ctx}

theorem runsWhen_knownTypes (known : ∀ c action, cond c action → action.known)
    (reached : (runsWhen role cond).Reachable c)
    : c.KnownTypes := by
  refine runsWhen_induct Ctx.KnownTypes ?_ ?_ reached
  · intro e member
    cases member
  · intro c action c' _ now met move
    exact now.move (known c action met) move

/-- In every run in time the execution layer stays in a run of the handshake, by induction. -/
theorem runsWhen_linked (inTime : ∀ c action, cond c action → c.actsInTime action)
    (known : ∀ c action, cond c action → action.known)
    (reached : (runsWhen role cond).Reachable c)
    : c.Linked role := by
  refine Lts.Reachable.induct (Ctx.Linked role) ?_ ?_ reached
  · rintro _ rfl
    exact .init role
  · rintro c action c' reached now ⟨_, taken⟩
    obtain ⟨holder, held⟩ := runsWhen_held inTime reached
    have balanced := runsWhen_balanced inTime reached
    exact now.step held (runsWhen_tagged reached)
      ((runsWhen_knownTypes known reached).slot balanced) (runsWhen_go reached) taken

end Runs

/-- In every state the execution layer is in a run of the handshake with signals in turn, and
the worker runs are those of the events.
-/
def HandshakeKept (role : Role) (system : Lts Ctx Action) : Prop :=
  ∀ c, system.Reachable c → handshake.Reachable c.exec ∧ c.RunsOwn role

/-- Before a stop request, when the init threads act in time and the events have known types,
the whole system gives its signals in turn, and every completed event was run by the worker of
its type.
-/
theorem actsKnown_handshakeKept (role : Role)
    : HandshakeKept role (runsWhen role Ctx.actsKnown) := by
  intro c reached
  have linked := runsWhen_linked (fun _ _ met => met.1) (fun _ _ met => met.2) reached
  obtain ⟨holder, held⟩ := runsWhen_held (fun _ _ met => met.1) reached
  exact ⟨linked.reached, linked.runsOwn held⟩

end QKeySys.Core
