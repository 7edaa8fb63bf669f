import QKeySys.Core.LockedRest
import QKeySys.Library.Termination

/-! The end of the program with the mutexes: when init threads are cancelled outside their
critical sections only, the threads have so many steps left behind a stop request, their
operations on the mutexes included, and do not wait for one another for ever.
-/

namespace QKeySys.Core

open QKeySys.Library

-----------------------------------------------------------------------------------------
-- The program with its mutexes
-----------------------------------------------------------------------------------------

/-- `qks_queue_wake` takes `q.mu` and `qks_exec_threads_stop` takes `exec_sig.mu`. -/
def MainPc.mutex : MainPc → Option Mutex
  | .wake => some .queue
  | .execStop => some .signal
  | _ => none

/-- The program with the mutexes that init threads own. -/
structure LockedProgram where
  program : Program
  owner : Mutex → Option Ownership

/-- The steps of the context with its mutexes, and those of the threads around it. -/
inductive LockedProgramAction where
  | ctx (label : LockedAction)
  | main (ok : Bool)
  | timer
  | poller (x : Poller)
  deriving DecidableEq, Repr

/-- The step is one of a thread, and neither an injection nor a request for the stop. -/
def LockedProgramAction.byThread : LockedProgramAction → Prop
  | .ctx label => label.byThread = true
  | _ => True

namespace LockedProgram

def init (cfg : Config) : LockedProgram where
  program := .init cfg
  owner _ := none

/-- The scheduling context with its mutexes. -/
def locked (p : LockedProgram) : LockedCtx := ⟨p.program.ctx, p.owner⟩

/-- The steps of all threads; one of the main thread waits for the mutex that it takes. -/
def step (p : LockedProgram) : LockedProgramAction → Option LockedProgram
  | .ctx label =>
      (p.locked.step label).map (fun s =>
        { program := { p.program with ctx := s.ctx }, owner := s.owner })
  | .main ok =>
      if p.locked.available p.program.main.mutex then
        (p.program.mainStep ok).map (fun program => { p with program := program })
      else
        none
  | .timer => p.program.timerStep.map (fun program => { p with program := program })
  | .poller x => (p.program.pollerStep x).map (fun program => { p with program := program })

/-- A cancellation takes effect outside the critical sections of its thread. -/
def cancelsOutside (p : LockedProgram) : LockedProgramAction → Prop
  | .ctx label => p.locked.cancelsOutside label
  | _ => True

/-- The scheduler thread does not take its first step after a stop request. -/
def onTime (p : LockedProgram) : LockedProgramAction → Prop
  | .ctx (.step action) => p.program.OnTime (.ctx action)
  | _ => True

end LockedProgram

/-- All interleavings of a program with its mutexes and its stop requests, in which init threads
are cancelled outside their critical sections.
-/
def lockedProgram (cfg : Config) : Lts LockedProgram LockedProgramAction :=
  (Lts.ofFunction (LockedProgram.init cfg) LockedProgram.step).restrict
    LockedProgram.cancelsOutside

/-- Those in which the scheduler thread does not begin after a stop request. -/
abbrev onTimeLockedRuns (cfg : Config) : Lts LockedProgram LockedProgramAction :=
  (lockedProgram cfg).restrict LockedProgram.onTime

-----------------------------------------------------------------------------------------
-- What a step can do
-----------------------------------------------------------------------------------------

/-- The threads around the context are always on time. -/
theorem Program.onTime_around {p : Program} {action : ProgramAction}
    (around : ∀ inner, action ≠ .ctx inner)
    : p.OnTime action := by
  rintro ⟨-, ok, rfl⟩
  exact absurd rfl (around _)

namespace LockedProgram

variable {p p' : LockedProgram}

/-- The moves with the mutexes. -/
inductive Move (p : LockedProgram) : LockedProgramAction → LockedProgram → Prop where
  | lock (k : Nat) (m : Mutex) (free : p.owner m = none)
      : Move p (.ctx (.lock k))
          { p with owner := Function.update p.owner m (some ⟨k, false⟩) }
  | unlock (k : Nat) (m : Mutex) (owned : p.owner m = some ⟨k, true⟩)
      : Move p (.ctx (.unlock k m)) { p with owner := Function.update p.owner m none }
  | body (k : Nat) (m : Mutex) (owned : p.owner m = some ⟨k, false⟩) (program : Program)
      (taken : p.program.step (.ctx (.init k)) = some program)
      : Move p (.ctx (.step (.init k)))
          ⟨program, Function.update p.owner m (some ⟨k, true⟩)⟩
  | inside (action : Action) (program : Program)
      (taken : p.program.step (.ctx action) = some program)
      : Move p (.ctx (.step action)) { p with program := program }
  | main (ok : Bool) (program : Program) (taken : p.program.step (.main ok) = some program)
      : Move p (.main ok) { p with program := program }
  | timer (program : Program) (taken : p.program.step .timer = some program)
      : Move p .timer { p with program := program }
  | poller (x : Poller) (program : Program)
      (taken : p.program.step (.poller x) = some program)
      : Move p (.poller x) { p with program := program }

/-- Every step is one of the moves, by cases on the action. -/
theorem step_move {action : LockedProgramAction} (step : p.step action = some p')
    : p.Move action p' := by
  have aside {c : Ctx} {action : Action} (taken : p.locked.ctx.step action = some c)
      : p.program.step (.ctx action) = some { p.program with ctx := c } :=
    congrArg (Option.map _) taken
  cases action with
  | ctx label =>
      obtain ⟨s, inner, rfl⟩ := Option.map_eq_some_iff.mp step
      cases LockedCtx.step_move inner with
      | lock k t m found needed free => exact .lock k m free
      | unlock k m owned => exact .unlock k m owned
      | body k t m found needed owned c taken => exact .body k m owned _ (aside taken)
      | other action c outside taken => exact .inside action _ (aside taken)
  | main ok =>
      simp only [LockedProgram.step] at step
      split at step
      case isTrue =>
        obtain ⟨program, taken, rfl⟩ := Option.map_eq_some_iff.mp step
        exact .main ok program taken
      case isFalse => cases step
  | timer =>
      obtain ⟨program, taken, rfl⟩ := Option.map_eq_some_iff.mp step
      exact .timer program taken
  | poller x =>
      obtain ⟨program, taken, rfl⟩ := Option.map_eq_some_iff.mp step
      exact .poller x program taken

/-- Without the mutexes a move is a step of the program, on time as the move is, or no step at
all.
-/
theorem Move.program {action : LockedProgramAction} (move : p.Move action p')
    (onTime : p.onTime action)
    : p'.program = p.program
      ∨ ∃ action', p.program.OnTime action' ∧ p.program.step action' = some p'.program := by
  cases move with
  | lock | unlock => exact .inl rfl
  | body k m owned program taken => exact .inr ⟨_, onTime, taken⟩
  | inside action program taken => exact .inr ⟨_, onTime, taken⟩
  | main ok program taken => exact .inr ⟨_, Program.onTime_around (by simp), taken⟩
  | timer program taken => exact .inr ⟨_, Program.onTime_around (by simp), taken⟩
  | poller x program taken => exact .inr ⟨_, Program.onTime_around (by simp), taken⟩

end LockedProgram

/-- The threads around the context leave each init thread where it was. -/
theorem Program.keepsPc {p p' : Program} {action : ProgramAction}
    (step : p.step action = some p') (around : ∀ inner, action ≠ .ctx inner) {k : Nat}
    {t : InitThread} (found : p.ctx.initThreads[k]? = some t)
    : ∃ t', p'.ctx.initThreads[k]? = some t' ∧ t'.pc = t.pc := by
  cases action with
  | ctx inner => exact absurd rfl (around inner)
  | timer =>
      obtain ⟨-, stop, ctx⟩ := timerStep_ctx step
      rw [ctx]
      exact ⟨t, found, rfl⟩
  | poller x =>
      rw [pollerStep_aside step]
      exact ⟨t, found, rfl⟩
  | main ok =>
      have moved : p.mainStep ok = some p' := step
      unfold mainStep at moved
      cases pc : p.main with
      | killCurrent =>
          simp only [pc] at moved
          split at moved <;> obtain rfl := Option.some.inj moved
          · exact modify_keepsPc found _ (fun _ => rfl)
          · exact ⟨t, found, rfl⟩
      | killJoin k' =>
          simp only [pc] at moved
          split at moved <;> cases moved
          exact modify_keepsPc found k' (fun _ => rfl)
      | returned => simp [pc] at moved
      | _ =>
          simp only [pc] at moved
          first
            | (obtain rfl := Option.some.inj moved
               exact ⟨t, found, rfl⟩)
            | (split at moved <;> cases moved <;> exact ⟨t, found, rfl⟩)

-----------------------------------------------------------------------------------------
-- The owners
-----------------------------------------------------------------------------------------

/-- When the mutexes and the program points of the init threads are kept, their owners are as
they were.
-/
theorem LockedCtx.owners_keep {s s' : LockedCtx} (owner : s'.owner = s.owner)
    (keeps
      : ∀ (k : Nat) (t : InitThread), s.ctx.initThreads[k]? = some t →
          ∃ t', s'.ctx.initThreads[k]? = some t' ∧ t'.pc = t.pc)
    (alive : s.OwnersAlive) (bodies : s.AtBodies)
    : s'.OwnersAlive ∧ s'.AtBodies := by
  refine ⟨fun m o owned => ?_, fun m k owned => ?_⟩
  · obtain ⟨t, found, running⟩ := alive m o (owner ▸ owned)
    obtain ⟨t', found', pc⟩ := keeps _ t found
    exact ⟨t', found', pc ▸ running⟩
  · obtain ⟨t, found, needed⟩ := bodies m k (owner ▸ owned)
    obtain ⟨t', found', pc⟩ := keeps _ t found
    exact ⟨t', found', pc ▸ needed⟩

section Runs

variable {cfg : Config} {p p' : LockedProgram}

/-- Whoever owns a mutex is still running, and at the body of its section when it has just
entered, by induction on the run.
-/
theorem lockedProgram_owners (reached : (lockedProgram cfg).Reachable p)
    : p.locked.OwnersAlive ∧ p.locked.AtBodies := by
  refine Lts.Reachable.induct (fun p => p.locked.OwnersAlive ∧ p.locked.AtBodies) ?_ ?_ reached
  · rintro _ rfl
    exact ⟨.init cfg.role, .init cfg.role⟩
  · rintro p action p' - ⟨alive, bodies⟩ ⟨waits, step⟩
    have around {action : ProgramAction} {program : Program}
        (taken : p.program.step action = some program) (around : ∀ inner, action ≠ .ctx inner)
        : (LockedCtx.mk program.ctx p.owner).OwnersAlive
          ∧ (LockedCtx.mk program.ctx p.owner).AtBodies :=
      LockedCtx.owners_keep (s := p.locked) rfl
        (fun _ _ found => Program.keepsPc taken around found) alive bodies
    cases action with
    | ctx label =>
        obtain ⟨s, inner, rfl⟩ := Option.map_eq_some_iff.mp step
        have move := LockedCtx.step_move inner
        exact ⟨alive.move waits move, bodies.move waits move⟩
    | main ok =>
        cases LockedProgram.step_move step with
        | main _ program taken => exact around taken (by simp)
    | timer =>
        cases LockedProgram.step_move step with
        | timer program taken => exact around taken (by simp)
    | poller x =>
        cases LockedProgram.step_move step with
        | poller _ program taken => exact around taken (by simp)

/-- Without its mutexes a run is one of the program. -/
theorem onTimeLockedRuns_program (reached : (onTimeLockedRuns cfg).Reachable p)
    : (onTimeRuns cfg).Reachable p.program := by
  have start (p : LockedProgram) (initial : (onTimeLockedRuns cfg).init p)
      : (onTimeRuns cfg).init p.program := by
    obtain rfl : p = .init cfg := initial
    rfl
  refine reached.project LockedProgram.program start (fun p action p' step => ?_)
  rcases (LockedProgram.step_move step.2.2).program step.1 with same | ⟨action', onTime, taken⟩
  · rw [same]
  · exact .single ⟨action', onTime, taken⟩

end Runs

-----------------------------------------------------------------------------------------
-- Steps left
-----------------------------------------------------------------------------------------

/-- What the owner of a mutex has left of its section. The body pays for itself and for the
release, as it is a step of the program, too.
-/
def ownerLeft : Option Ownership → Nat
  | none => 1
  | some ⟨_, false⟩ => 0
  | some ⟨_, true⟩ => 2

namespace LockedProgram

variable {p p' : LockedProgram} {cfg : Config}

def ownersLeft (owner : Mutex → Option Ownership) : Nat :=
  ownerLeft (owner .queue) + ownerLeft (owner .signal)

/-- The steps that all threads have left at most behind a stop request. -/
def left (p : LockedProgram) : Nat := 3 * p.program.left + ownersLeft p.owner

/-- One mutex changes hands. -/
theorem ownersLeft_update (owner : Mutex → Option Ownership) (m : Mutex)
    (o : Option Ownership)
    : ownersLeft (Function.update owner m o) + ownerLeft (owner m)
      = ownersLeft owner + ownerLeft o := by
  cases m <;> simp [ownersLeft] <;> omega

/-- Every step of a thread costs one of those that are left, by cases on the move. -/
theorem Move.left {action : LockedProgramAction} (move : p.Move action p')
    (stopped : p.program.ctx.stop = true) (begun : p.program.ctx.sched ≠ .start)
    : (action.byThread → p'.left < p.left) ∧ (¬ action.byThread → p'.left ≤ p.left) := by
  cases move with
  | lock k m free =>
      have moved := ownersLeft_update p.owner m (some ⟨k, false⟩)
      rw [free] at moved
      refine ⟨fun _ => ?_, fun free => absurd rfl free⟩
      simp only [LockedProgram.left, ownerLeft] at moved ⊢
      omega
  | unlock k m owned =>
      have moved := ownersLeft_update p.owner m none
      rw [owned] at moved
      refine ⟨fun _ => ?_, fun free => absurd rfl free⟩
      simp only [LockedProgram.left, ownerLeft] at moved ⊢
      omega
  | body k m owned program taken =>
      have moved := ownersLeft_update p.owner m (some ⟨k, true⟩)
      have lowered := (Program.step_left taken stopped begun).1 rfl
      rw [owned] at moved
      refine ⟨fun _ => ?_, fun free => absurd rfl free⟩
      simp only [LockedProgram.left, ownerLeft] at moved ⊢
      omega
  | inside action program taken =>
      have lowered := Program.step_left taken stopped begun
      refine ⟨fun thread => ?_, fun free => ?_⟩
      · have less := lowered.1 thread
        simp only [LockedProgram.left]
        omega
      · have same := lowered.2 free
        simp only [LockedProgram.left]
        omega
  | main ok program taken | timer program taken | poller x program taken =>
      have less := (Program.step_left taken stopped begun).1 trivial
      refine ⟨fun _ => ?_, fun free => absurd trivial free⟩
      simp only [LockedProgram.left]
      omega

-----------------------------------------------------------------------------------------
-- Nobody waits for ever
-----------------------------------------------------------------------------------------

/-- A condition wait of the context returns because it was notified. -/
def prompted (p : LockedProgram) : LockedProgramAction → Prop
  | .ctx label => p.locked.prompted label
  | _ => True

/-- No thread has a next step, with condition waits that return only when notified and
cancellations that take effect outside the critical sections.
-/
def Idle (p : LockedProgram) : Prop :=
  ∀ action, action.byThread → p.prompted action → p.cancelsOutside action →
    p.step action = none

/-- A program at rest is at rest without its mutexes, which nobody owns. -/
theorem Idle.program (idle : p.Idle) (alive : p.locked.OwnersAlive)
    (bodies : p.locked.AtBodies)
    : p.program.Idle := by
  have locked : p.locked.Idle := fun label thread prompted waits =>
    Option.map_eq_none_iff.mp (idle (.ctx label) thread prompted waits)
  have unowned := locked.unowned alive bodies
  have available (needed : Option Mutex) : p.locked.available needed = true := by
    cases needed <;> simp [LockedCtx.available, unowned]
  intro action thread prompted
  cases action with
  | ctx action => exact Option.map_eq_none_iff.mpr (locked.ctx unowned action thread prompted)
  | main ok =>
      have rests := idle (.main ok) trivial trivial trivial
      simp only [LockedProgram.step, available, if_true, Option.map_eq_none_iff] at rests
      exact rests
  | timer => exact Option.map_eq_none_iff.mp (idle .timer trivial trivial trivial)
  | poller x => exact Option.map_eq_none_iff.mp (idle (.poller x) trivial trivial trivial)

/-- A stop is requested and the scheduler thread has begun, so that the request stays. -/
structure Ending (cfg : Config) (p : LockedProgram) : Prop where
  reached : (onTimeLockedRuns cfg).Reachable p
  stopped : p.program.ctx.stop = true
  begun : p.program.ctx.sched ≠ .start

theorem Ending.program (now : p.Ending cfg) : p.program.Ending cfg :=
  ⟨onTimeLockedRuns_program now.reached, now.stopped, now.begun⟩

theorem Ending.step {action : LockedProgramAction} (now : p.Ending cfg)
    (step : (lockedProgram cfg).next p action p')
    : p'.Ending cfg := by
  have onTime : p.onTime action := by
    cases action with
    | ctx label =>
        cases label with
        | step action => exact fun restarts => absurd restarts.1 now.begun
        | _ => trivial
    | _ => trivial
  have reached := now.reached.next ⟨onTime, step⟩
  rcases (step_move step.2).program onTime with same | ⟨action', -, taken⟩
  · exact ⟨reached, same ▸ now.stopped, same ▸ now.begun⟩
  · have later := now.program.step taken
    exact ⟨reached, later.stopped, later.begun⟩

end LockedProgram

section Runs

variable {cfg : Config} {p : LockedProgram}

/-- Behind a stop request the threads pay for each of their steps. -/
theorem lockedEnding_ranking (cfg : Config)
    : (lockedProgram cfg).Ranking LockedProgramAction.byThread (LockedProgram.Ending cfg)
        LockedProgram.left where
  stays _ _ _ now step := now.step step
  lowers _ _ _ now step thread :=
    ((LockedProgram.step_move step.2).left now.stopped now.begun).1 thread
  keeps _ _ _ now step free :=
    ((LockedProgram.step_move step.2).left now.stopped now.begun).2 free

/-- Behind a stop request the threads take at most `p.left` steps more, whatever is injected
meanwhile, and when none of them has a next step the main thread has returned, as long as init
threads are cancelled outside their critical sections only.
-/
theorem shutdown_ends (reached : (onTimeLockedRuns cfg).Reachable p)
    (stopped : p.program.ctx.stop = true) (begun : p.program.ctx.sched ≠ .start)
    : (∀ n p', (lockedProgram cfg).Counted LockedProgramAction.byThread n p p' → n ≤ p.left)
      ∧ (∀ p', (lockedProgram cfg).Steps p p' → p'.Idle → p'.program.main = .returned)
      ∧ ∃ p', (lockedProgram cfg).Steps p p' ∧ p'.Idle := by
  have ranking := lockedEnding_ranking cfg
  have now : p.Ending cfg := ⟨reached, stopped, begun⟩
  refine ⟨fun n p' path => ?_, fun p' path idle => ?_, ?_⟩
  · have paid := ranking.bounds now path
    omega
  · have later := ranking.steps now path
    obtain ⟨alive, bodies⟩ := lockedProgram_owners later.reached.of_restrict
    exact (idle.program alive bodies).returned (attended later.program.reached)
      later.stopped
  · refine ranking.reaches (fun p' _ busy => ?_) now
    simp only [LockedProgram.Idle, not_forall] at busy
    obtain ⟨action, thread, _, waits, taken⟩ := busy
    obtain ⟨p'', step⟩ := Option.ne_none_iff_exists'.mp taken
    exact ⟨action, p'', thread, waits, step⟩

/-- Witness: the stop is requested at once, with 122 steps left. -/
theorem shutdown_ends_begun
    : ∃ p, p.left = 122
        ∧ (∀ n p', (lockedProgram ⟨.a, false, .mixed, 0⟩).Counted
            LockedProgramAction.byThread n p p' → n ≤ p.left)
        ∧ (∀ p', (lockedProgram ⟨.a, false, .mixed, 0⟩).Steps p p' → p'.Idle →
            p'.program.main = .returned)
        ∧ ∃ p', (lockedProgram ⟨.a, false, .mixed, 0⟩).Steps p p' ∧ p'.Idle := by
  let start := Program.init ⟨.a, false, .mixed, 0⟩
  let first := { start with ctx := { start.ctx with sched := .loopTop } }
  let second := { first with ctx := { first.ctx with stop := true } }
  let locked (program : Program) : LockedProgram := ⟨program, fun _ => none⟩
  have initial : (onTimeLockedRuns ⟨.a, false, .mixed, 0⟩).Reachable (locked start) :=
    .start rfl
  have begins
      : (onTimeLockedRuns ⟨.a, false, .mixed, 0⟩).next (locked start)
          (.ctx (.step (.sched true))) (locked first) :=
    ⟨fun _ => rfl, trivial, rfl⟩
  have requests
      : (onTimeLockedRuns ⟨.a, false, .mixed, 0⟩).next (locked first)
          (.ctx (.step .requestStop)) (locked second) :=
    ⟨fun restarts => (nomatch restarts.1), trivial, rfl⟩
  have stopped := (initial.next begins).next requests
  exact ⟨locked second, by decide, shutdown_ends stopped rfl (by decide)⟩

end Runs

end QKeySys.Core
