import QKeySys.Core.AllRuns
import QKeySys.Core.Config

/-! The whole program from the start of its threads on: the main thread with its timer and its
stop sequence, the threads that only poll the stop flag, and the scheduling context.
-/

namespace QKeySys.Core

open QKeySys.Library

-----------------------------------------------------------------------------------------
-- Program points
-----------------------------------------------------------------------------------------

/-- The threads whose loops only wait for the stop flag, in the order of their joins. -/
inductive Poller where
  | injector
  | zigbee
  | clock
  | storage
  deriving DecidableEq, Repr

inductive PollerPc where
  | absent
  | starting
  | polling
  | exited
  deriving DecidableEq, Repr

/-- Program points of `timer_thread`; `sleeping i` is the head of its loop. -/
inductive TimerPc where
  | absent
  | sleeping (i : Nat)
  | setStop
  | exited
  deriving DecidableEq, Repr

/-- Program points of `main` behind `qks_threads_start_all`. From `setStop` to `killJoin` it is
in `qks_threads_stop_all`, from `execStop` to `joinWorker` in `qks_exec_threads_stop`.
-/
inductive MainPc where
  | createTimer
  | polling
  | setStop
  | wake
  | joinScheduler
  | stopInjector
  | joinPoller (x : Poller)
  | execStop
  | wakeWorker (i : Fin 6)
  | joinDispatcher
  | joinWorker (i : Fin 6)
  | killCurrent
  | killJoin (k : Nat)
  | returned
  deriving DecidableEq, Repr

/-- `qks_threads_stop_all` has set the flag. -/
def MainPc.requested : MainPc → Bool
  | .createTimer => false
  | .polling => false
  | .setStop => false
  | _ => true

/-- The context with the threads around it; `simRunning` is `g_sim_running`. -/
structure Program where
  cfg : Config
  ctx : Ctx
  main : MainPc
  timer : TimerPc
  poller : Poller → PollerPc
  simRunning : Bool

namespace Program

/-- `qks_threads_start_all` has created its threads, and none of them has run yet. -/
def init (cfg : Config) : Program where
  cfg := cfg
  ctx := .init cfg.role
  main := .createTimer
  timer := .absent
  poller
    | .injector => if cfg.simEnabled then .starting else .absent
    | .zigbee => .starting
    | .clock => .starting
    | .storage => if cfg.role = .b then .starting else .absent
  simRunning := false

-----------------------------------------------------------------------------------------
-- Steps
-----------------------------------------------------------------------------------------

/-- Where the stop sequence goes on after a poller is joined. -/
def afterPoller : Poller → MainPc
  | .injector => .joinPoller .zigbee
  | .zigbee => .joinPoller .clock
  | .clock => .joinPoller .storage
  | .storage => .execStop

/-- The next index of a loop over the six workers. -/
def nextWorker (i : Fin 6) : Option (Fin 6) := if h : i.val + 1 < 6 then some ⟨i + 1, h⟩ else none

/-- The next step of the main thread; none while it waits in a join. `ok` is the outcome of a
thread creation.
-/
def mainStep (p : Program) (ok : Bool) : Option Program :=
  match p.main with
  | .createTimer =>
      let timer := if 0 < p.cfg.runSeconds ∧ ok = true then .sleeping 0 else .absent
      some { p with timer := timer, main := .polling }
  | .polling => some { p with main := if p.ctx.stop then .setStop else .polling }
  | .setStop => some { p with ctx := { p.ctx with stop := true }, main := .wake }
  | .wake => some { p with ctx := { p.ctx with q := p.ctx.q.wake }, main := .joinScheduler }
  | .joinScheduler =>
      if p.ctx.sched = .exited then some { p with main := .stopInjector } else none
  | .stopInjector => some { p with simRunning := false, main := .joinPoller .injector }
  | .joinPoller x =>
      match p.poller x with
      | .absent => some { p with main := afterPoller x }
      | .exited => some { p with main := afterPoller x }
      | .starting => none
      | .polling => none
  | .execStop =>
      let exec :=
        { p.ctx.exec with cv := p.ctx.exec.cv.broadcast, cvDone := p.ctx.exec.cvDone.broadcast }
      some { p with ctx := { p.ctx with stop := true, exec := exec }, main := .wakeWorker 0 }
  | .wakeWorker i =>
      let sig := p.ctx.exec.workerSig i
      let sigs := Function.update p.ctx.exec.workerSig i { sig with cv := sig.cv.broadcast }
      some {
        p with
        ctx := { p.ctx with exec := { p.ctx.exec with workerSig := sigs } }
        main := (nextWorker i).elim .joinDispatcher .wakeWorker
      }
  | .joinDispatcher =>
      if p.ctx.exec.dispatcher = .exited then some { p with main := .joinWorker 0 } else none
  | .joinWorker i =>
      if p.ctx.exec.worker i = .exited then
        some { p with main := (nextWorker i).elim .killCurrent .joinWorker }
      else
        none
  | .killCurrent =>
      match p.ctx.thInitMaster with
      | some k => some { p with ctx := p.ctx.requestCancel k, main := .killJoin k }
      | none =>
          some { p with ctx := { p.ctx with initMasterRunning := false }, main := .returned }
  | .killJoin k =>
      if p.ctx.dead k then some { p with ctx := p.ctx.join k, main := .returned } else none
  | .returned => none

/-- The next step of the timer, which asks for the stop when its time is over or the stop has
been asked for.
-/
def timerStep (p : Program) : Option Program :=
  match p.timer with
  | .absent => none
  | .sleeping i =>
      let timer :=
        if i < p.cfg.runSeconds ∧ p.ctx.stop = false then .sleeping (i + 1) else .setStop
      some { p with timer := timer }
  | .setStop => some { p with ctx := { p.ctx with stop := true }, timer := .exited }
  | .exited => none

def setPoller (p : Program) (x : Poller) (pc : PollerPc) : Program :=
  { p with poller := fun y => if y = x then pc else p.poller y }

/-- The next step of a polling thread. The injector has a flag of its own as well. -/
def pollerStep (p : Program) (x : Poller) : Option Program :=
  match p.poller x with
  | .absent => none
  | .starting =>
      some { p.setPoller x .polling with simRunning := x = .injector || p.simRunning }
  | .polling =>
      if p.ctx.stop ∨ x = .injector ∧ p.simRunning = false then
        some {
          p.setPoller x .exited with
          simRunning := if x = .injector then false else p.simRunning
        }
      else
        some p
  | .exited => none

end Program

/-- The steps of all threads. `qks_scheduler_stop`, which any thread may call, is the stop
request among the actions of the context.
-/
inductive ProgramAction where
  | ctx (action : Action)
  | main (ok : Bool)
  | timer
  | poller (x : Poller)
  deriving DecidableEq, Repr

namespace Program

def step (p : Program) : ProgramAction → Option Program
  | .ctx action => (p.ctx.step action).map (fun c => { p with ctx := c })
  | .main ok => p.mainStep ok
  | .timer => p.timerStep
  | .poller x => p.pollerStep x

end Program

/-- All interleavings of a program with its stop requests. -/
def program (cfg : Config) : Lts Program ProgramAction :=
  Lts.ofFunction (Program.init cfg) Program.step

-----------------------------------------------------------------------------------------
-- What each step does to the stop flag
-----------------------------------------------------------------------------------------

namespace Ctx

/-- Behind its very first step the scheduler leaves the flag alone. -/
theorem SchedMove.stop {c c' : Ctx} {ok : Bool} (move : SchedMove c ok c')
    (behind : c.sched ≠ .start)
    : c'.stop = c.stop := by
  cases move with
  | start pc => exact absurd pc behind
  | _ => rfl

/-- The master-init threads leave the flag alone. -/
theorem InitMove.stop {c c' : Ctx} {k : Nat} {t : InitThread} (move : InitMove c k t c')
    : c'.stop = c.stop := by
  cases move <;> rfl

theorem dispose_ne_exited (e : Event) : dispose e ≠ .exited := by
  unfold dispose
  split <;> simp

/-- The scheduler only exits when it has seen the flag. -/
theorem SchedMove.exits {c c' : Ctx} {ok : Bool} (move : SchedMove c ok c')
    (exits : c'.sched = .exited)
    : c.stop = true := by
  cases move with
  | silent next move =>
      obtain rfl : next = .exited := exits
      cases move with
      | exitTop pc stop => exact stop
      | exitCheck pc stop => exact stop
  | popReady e => exact absurd exits (dispose_ne_exited e)
  | popWait e => exact absurd exits (dispose_ne_exited e)
  | install e =>
      have somewhere
          : (if e.dir = .master then SchedPc.spawnCheck else .loopTop) = .exited :=
        exits
      split at somewhere <;> cases somewhere
  | _ => cases exits

/-- The flag is cleared by the first step of the scheduler, set by a stop request, and left
alone by everything else.
-/
theorem step_stop {c c' : Ctx} {action : Action} (step : c.step action = some c')
    : (c.sched = .start ∧ (∃ ok, action = .sched ok) ∧ c'.stop = false)
      ∨ (action = .requestStop ∧ c'.stop = true)
      ∨ c'.stop = c.stop := by
  cases action with
  | inject type dir payload mallocOk =>
      obtain rfl := Option.some.inj step
      exact .inr (.inr rfl)
  | sched ok =>
      by_cases pc : c.sched = .start
      · have first : c.schedStep ok = some c' := step
        rw [schedStep, pc] at first
        obtain rfl := Option.some.inj first
        exact .inl ⟨pc, ⟨ok, rfl⟩, rfl⟩
      · exact .inr (.inr ((schedStep_move step).stop pc))
  | schedReturn =>
      rcases schedReturn_cases step with ⟨_, rfl⟩ | ⟨_, rfl⟩ <;> exact .inr (.inr rfl)
  | init k =>
      obtain ⟨t, _, move⟩ := initStep_move step
      exact .inr (.inr move.stop)
  | cancel k =>
      obtain ⟨t, _, _, _, rfl⟩ := cancelEffect_cases step
      exact .inr (.inr rfl)
  | dispatcher =>
      obtain ⟨x, _, rfl⟩ := Option.map_eq_some_iff.mp step
      split <;> exact .inr (.inr rfl)
  | dispatcherReturn | worker i | workerReturn i =>
      obtain ⟨x, _, rfl⟩ := Option.map_eq_some_iff.mp step
      exact .inr (.inr rfl)
  | requestStop =>
      obtain rfl := Option.some.inj step
      exact .inr (.inl ⟨rfl, rfl⟩)

/-- Nothing but a set flag makes the scheduler exit. -/
theorem step_exits {c c' : Ctx} {action : Action} (step : c.step action = some c')
    (exits : c'.sched = .exited)
    : c.sched = .exited ∨ c.stop = true := by
  cases action with
  | sched ok => exact .inr ((schedStep_move step).exits exits)
  | schedReturn => rcases schedReturn_cases step with ⟨_, rfl⟩ | ⟨_, rfl⟩ <;> cases exits
  | inject type dir payload mallocOk | requestStop =>
      obtain rfl := Option.some.inj step
      exact .inl exits
  | init k =>
      obtain ⟨t, _, move⟩ := initStep_move step
      cases move <;> exact .inl exits
  | cancel k =>
      obtain ⟨t, _, _, _, rfl⟩ := cancelEffect_cases step
      exact .inl exits
  | dispatcher =>
      obtain ⟨x, _, rfl⟩ := Option.map_eq_some_iff.mp step
      split at exits <;> exact .inl exits
  | dispatcherReturn | worker i | workerReturn i =>
      obtain ⟨x, _, rfl⟩ := Option.map_eq_some_iff.mp step
      exact .inl exits

end Ctx

namespace Program

variable {p p' : Program} {action : ProgramAction}

/-- The scheduler thread takes its first step, which resets the flag. -/
def Restarts (p : Program) (action : ProgramAction) : Prop :=
  p.ctx.sched = .start ∧ ∃ ok, action = .ctx (.sched ok)

/-- The scheduler thread does not take its first step after a stop request. -/
def OnTime (p : Program) (action : ProgramAction) : Prop :=
  p.Restarts action → p.ctx.stop = false

/-- The main thread never clears the flag, by cases on where it is. -/
theorem mainStep_stop {ok : Bool} (step : p.mainStep ok = some p') (stopped : p.ctx.stop = true)
    : p'.ctx.stop = true := by
  unfold mainStep at step
  cases pc : p.main with
  | createTimer | polling | wake | stopInjector | wakeWorker i =>
      simp only [pc, Option.some.injEq] at step
      subst step
      exact stopped
  | setStop | execStop =>
      simp only [pc, Option.some.injEq] at step
      subst step
      rfl
  | joinScheduler | joinDispatcher | joinWorker i | killJoin k =>
      simp only [pc] at step
      split at step
      · obtain rfl := Option.some.inj step
        exact stopped
      · cases step
  | joinPoller x =>
      simp only [pc] at step
      split at step <;> cases step <;> exact stopped
  | killCurrent =>
      simp only [pc] at step
      split at step <;>
        obtain rfl := Option.some.inj step <;>
        exact stopped
  | returned => simp [pc] at step

theorem timerStep_stop (step : p.timerStep = some p') (stopped : p.ctx.stop = true)
    : p'.ctx.stop = true := by
  unfold timerStep at step
  cases pc : p.timer with
  | absent => simp [pc] at step
  | sleeping i =>
      simp only [pc, Option.some.injEq] at step
      subst step
      exact stopped
  | setStop =>
      simp only [pc, Option.some.injEq] at step
      subst step
      rfl
  | exited => simp [pc] at step

/-- A polling thread moves itself and the flag of the injector. -/
theorem pollerStep_aside {x : Poller} (step : p.pollerStep x = some p')
    : p' = { p with poller := p'.poller, simRunning := p'.simRunning } := by
  unfold pollerStep at step
  cases pc : p.poller x with
  | absent => simp [pc] at step
  | starting =>
      simp only [pc, Option.some.injEq] at step
      subst step
      rfl
  | polling =>
      simp only [pc] at step
      split at step <;> obtain rfl := Option.some.inj step <;> rfl
  | exited => simp [pc] at step

/-- A requested stop survives a step exactly if the scheduler thread does not begin with it. -/
theorem step_stop_iff (step : p.step action = some p') (stopped : p.ctx.stop = true)
    : p'.ctx.stop = true ↔ p.OnTime action := by
  constructor
  · rintro kept ⟨pc, ok, rfl⟩
    obtain ⟨c, first, rfl⟩ := Option.map_eq_some_iff.mp step
    rw [Ctx.step, Ctx.schedStep, pc] at first
    obtain rfl := Option.some.inj first
    cases kept
  · intro onTime
    cases action with
    | ctx action =>
        obtain ⟨c, inner, rfl⟩ := Option.map_eq_some_iff.mp step
        rcases Ctx.step_stop inner with ⟨pc, ⟨ok, rfl⟩, _⟩ | ⟨_, set⟩ | same
        · cases (onTime ⟨pc, ok, rfl⟩).symm.trans stopped
        · exact set
        · exact same.trans stopped
    | main ok => exact mainStep_stop step stopped
    | timer => exact timerStep_stop step stopped
    | poller x =>
        rw [pollerStep_aside step]
        exact stopped

/-- The stop sequence begins by setting the flag. -/
theorem mainStep_requested {ok : Bool} (step : p.mainStep ok = some p')
    (requested : p'.main.requested = true)
    : p.main.requested = true ∨ p'.ctx.stop = true := by
  unfold mainStep at step
  cases pc : p.main with
  | createTimer =>
      simp only [pc, Option.some.injEq] at step
      subst step
      cases requested
  | polling =>
      simp only [pc, Option.some.injEq] at step
      subst step
      cases stop : p.ctx.stop <;> simp [stop, MainPc.requested] at requested
  | setStop =>
      simp only [pc, Option.some.injEq] at step
      subst step
      exact .inr rfl
  | _ => exact .inl rfl

/-- The other threads leave the main thread where it is. -/
theorem step_main (step : p.step action = some p') (other : ∀ ok, action ≠ .main ok)
    : p'.main = p.main := by
  cases action with
  | ctx action =>
      obtain ⟨c, _, rfl⟩ := Option.map_eq_some_iff.mp step
      rfl
  | main ok => exact absurd rfl (other ok)
  | timer =>
      have moved : p.timerStep = some p' := step
      unfold timerStep at moved
      split at moved <;> cases moved <;> rfl
  | poller x => rw [pollerStep_aside step]

end Program

-----------------------------------------------------------------------------------------
-- Runs
-----------------------------------------------------------------------------------------

section Runs

variable {cfg : Config} {p : Program}

/-- All interleavings in which the scheduler thread does not begin after a stop request. -/
abbrev onTimeRuns (cfg : Config) : Lts Program ProgramAction :=
  (program cfg).restrict Program.OnTime

/-- Whenever the stop sequence is under way the flag is set, by induction on the run. -/
theorem requested_stop (reached : (onTimeRuns cfg).Reachable p)
    (requested : p.main.requested = true)
    : p.ctx.stop = true := by
  have invariant
      : (onTimeRuns cfg).Invariant (fun p => p.main.requested = true → p.ctx.stop = true) := {
    init := by
      rintro _ rfl requested
      cases requested
    step := by
      rintro p action p' now ⟨onTime, step⟩ requested
      by_cases main : ∃ ok, action = .main ok
      · obtain ⟨ok, rfl⟩ := main
        rcases Program.mainStep_requested step requested with earlier | set
        · exact (Program.step_stop_iff step (now earlier)).mpr onTime
        · exact set
      · have same := Program.step_main step (fun ok same => main ⟨ok, same⟩)
        exact (Program.step_stop_iff step (now (same ▸ requested))).mpr onTime
  }
  exact invariant.reachable reached requested

/-- A stop request that is made once stays: no path from there on clears the flag, and the
scheduler is never waited for without it.
-/
theorem stop_kept (reached : (onTimeRuns cfg).Reachable p)
    : (p.ctx.stop = true → ∀ p', (onTimeRuns cfg).Steps p p' → p'.ctx.stop = true)
      ∧ ¬ (p.main = .joinScheduler ∧ p.ctx.sched ≠ .exited ∧ p.ctx.stop = false) := by
  constructor
  · intro stopped p' path
    induction path with
    | refl => exact stopped
    | tail _ step ih =>
        obtain ⟨action, onTime, step⟩ := step
        exact (Program.step_stop_iff step ih).mpr onTime
  · rintro ⟨joining, _, unset⟩
    have set := requested_stop reached (by rw [joining]; rfl)
    cases unset.symm.trans set

/-- Witness: a stop that is requested after the scheduler thread has begun. -/
theorem stop_kept_begun
    : ∃ p, p.ctx.stop = true
        ∧ ∀ p', (onTimeRuns ⟨.a, false, .mixed, 0⟩).Steps p p' → p'.ctx.stop = true := by
  let start := Program.init ⟨.a, false, .mixed, 0⟩
  let first := { start with ctx := { start.ctx with sched := .loopTop } }
  let second := { first with ctx := { first.ctx with stop := true } }
  have initial : (onTimeRuns ⟨.a, false, .mixed, 0⟩).Reachable start := .start rfl
  have begins : start.step (.ctx (.sched true)) = some first := rfl
  have requests : first.step (.ctx .requestStop) = some second := rfl
  have onTime : first.OnTime (.ctx .requestStop) := fun restarts => nomatch restarts.1
  have stopped := (initial.next ⟨fun _ => rfl, begins⟩).next ⟨onTime, requests⟩
  exact ⟨second, rfl, (stop_kept stopped).1 rfl⟩

/-- The main thread waits for a scheduler that has not seen the request, and nobody is left to
repeat it.
-/
structure Program.Stuck (p : Program) : Prop where
  joining : p.main = .joinScheduler
  running : p.ctx.sched ≠ .exited
  unset : p.ctx.stop = false
  timer : p.timer = .absent ∨ p.timer = .exited

/-- Without another request from outside this is for ever, by cases on the thread that steps. -/
theorem Program.Stuck.step {p' : Program} {action : ProgramAction} (stuck : p.Stuck)
    (step : p.step action = some p') (silent : action ≠ .ctx .requestStop)
    : p'.Stuck := by
  obtain ⟨joining, running, unset, timer⟩ := stuck
  cases action with
  | ctx action =>
      obtain ⟨c, inner, rfl⟩ := Option.map_eq_some_iff.mp step
      refine ⟨joining, ?_, ?_, timer⟩
      · intro exits
        rcases Ctx.step_exits inner exits with exited | stop
        · exact running exited
        · cases unset.symm.trans stop
      · rcases Ctx.step_stop inner with ⟨_, _, cleared⟩ | ⟨rfl, _⟩ | same
        · exact cleared
        · exact absurd rfl silent
        · exact same.trans unset
  | main ok =>
      have waits : p.mainStep ok = none := by rw [Program.mainStep, joining]; exact if_neg running
      cases waits.symm.trans step
  | timer =>
      have ended : p.timerStep = none := by
        rcases timer with absent | exited
        · rw [Program.timerStep, absent]
        · rw [Program.timerStep, exited]
      cases ended.symm.trans step
  | poller x =>
      rw [Program.pollerStep_aside step]
      exact ⟨joining, running, unset, timer⟩

/-- By induction on the path, nothing that the threads do ends the wait. -/
theorem stuck_forever {p' : Program} (stuck : p.Stuck)
    (path
      : ((program cfg).restrict (fun _ action => action ≠ .ctx .requestStop)).Steps p p')
    : p'.Stuck := by
  induction path with
  | refl => exact stuck
  | tail _ step ih =>
      obtain ⟨action, silent, step⟩ := step
      exact ih.step step silent

/-- Witness: the timer runs out before the scheduler thread begins. Its request is lost, and
the program never ends.
-/
theorem stop_lost
    : ∃ p, (program ⟨.a, false, .mixed, 1⟩).Reachable p ∧ p.main = .joinScheduler
        ∧ p.ctx.sched = .asleepNonempty ∧ p.ctx.stop = false := by
  have ran
      : (Lts.execute Program.step (Program.init ⟨.a, false, .mixed, 1⟩)
          ([.main true, .timer, .timer, .timer, .main true, .main true, .main true]
            ++ List.replicate 4 (.ctx (.sched true)))).isSome := by
    decide
  have reached : (program ⟨.a, false, .mixed, 1⟩).Reachable (Option.get _ ran) :=
    ⟨_, rfl, Lts.execute_steps (fun _ _ _ taken => taken) (Option.some_get ran).symm⟩
  exact ⟨Option.get _ ran, reached, rfl, rfl, rfl⟩

end Runs

end QKeySys.Core
