import Mathlib.Logic.Function.Basic
import QKeySys.Core.AllRuns

/-! The mutexes `q.mu` and `exec_sig.mu` under asynchronous cancellation: the critical sections
of an init thread are taken apart, so that it can be cancelled while it owns one of them.
-/

namespace QKeySys.Core

open QKeySys.Library

-----------------------------------------------------------------------------------------
-- The mutexes of the critical sections
-----------------------------------------------------------------------------------------

/-- `q.mu` and `exec_sig.mu`; a worker's own mutex is never taken by an init thread. -/
inductive Mutex where
  | queue
  | signal
  deriving DecidableEq, Repr

/-- An owned mutex: by which init thread, and whether the section's body is done already. -/
structure Ownership where
  thread : Nat
  bodyDone : Bool
  deriving DecidableEq, Repr

/-- The mutex of the critical section that an init thread enters next. -/
def InitPc.mutex : InitPc → Option Mutex
  | .updateStage | .setBlocking => some .queue
  | .signal _ _ => some .signal
  | _ => none

/-- The scheduler's program points without a mutex are its unlocked reads and its waits for a
thread.
-/
def SchedPc.mutex : SchedPc → Option Mutex
  | .start | .loopTop | .readHasExec | .stopCheck | .readSlot _ | .onActReadType
  | .spawnCheck | .spawnJoin _ | .spawnCreate | .readStage _ _ | .readDir _ _
  | .killCurrent | .killJoin _ | .readPrev | .exited => none
  | .onActSignal _ _ => some .signal
  | _ => some .queue

def DispatcherPc.mutex : DispatcherPc → Option Mutex
  | .wait | .waitDone _ _ => some .signal
  | .notifyClear _ _ | .notifyWake => some .queue
  | _ => none

/-- A worker reports its result under `exec_sig.mu`. -/
def WorkerPc.mutex : WorkerPc → Option Mutex
  | .running => some .signal
  | _ => none

/-- The mutex that a step of a thread other than an init thread has to take. A thread takes
the mutex of its condition again before it returns from the wait.
-/
def Ctx.mutex (c : Ctx) : Action → Option Mutex
  | .inject _ _ _ _ => some .queue
  | .sched _ => c.sched.mutex
  | .schedReturn => some .queue
  | .dispatcher => c.exec.dispatcher.mutex
  | .dispatcherReturn => some .signal
  | .worker i => (c.exec.worker i).mutex
  | .init _ | .cancel _ | .workerReturn _ | .requestStop => none

-----------------------------------------------------------------------------------------
-- The context with its mutexes
-----------------------------------------------------------------------------------------

/-- The context with the mutexes that init threads own. All other threads run through a
critical section in one step, which is enabled when its mutex is free.
-/
structure LockedCtx where
  ctx : Ctx
  owner : Mutex → Option Ownership

/-- An init thread enters or leaves a critical section, or some thread takes a step; the step
of an init thread in its critical section is the body.
-/
inductive LockedAction where
  | lock (k : Nat)
  | unlock (k : Nat) (m : Mutex)
  | step (action : Action)
  deriving DecidableEq, Repr

namespace LockedCtx

def init (role : Role) : LockedCtx where
  ctx := .init role
  owner _ := none

/-- Init thread `k` owns the mutex `m`. -/
def owns (s : LockedCtx) (k : Nat) (m : Mutex) : Bool :=
  (s.owner m).any (fun o => o.thread == k)

/-- Init thread `k` is in none of its critical sections. -/
def outside (s : LockedCtx) (k : Nat) : Bool := !s.owns k .queue && !s.owns k .signal

/-- A mutex that is needed is free. -/
def available (s : LockedCtx) (needed : Option Mutex) : Bool :=
  needed.all (fun m => (s.owner m).isNone)

def setOwner (s : LockedCtx) (m : Mutex) (o : Option Ownership) : LockedCtx :=
  { s with owner := Function.update s.owner m o }

/-- `qks_mutex_lock` by init thread `k` before its next critical section. -/
def lock (s : LockedCtx) (k : Nat) : Option LockedCtx :=
  (s.ctx.initThreads[k]?).bind (fun t => t.pc.mutex.bind (fun m =>
    if s.outside k ∧ s.owner m = none then
      some (s.setOwner m (some ⟨k, false⟩))
    else
      none))

/-- `qks_mutex_unlock` by init thread `k` after the body; a dead thread unlocks nothing. -/
def unlock (s : LockedCtx) (k : Nat) (m : Mutex) : Option LockedCtx :=
  if s.owner m = some ⟨k, true⟩ ∧ s.ctx.dead k = false then
    some (s.setOwner m none)
  else
    none

/-- A step of init thread `k`: the body of the critical section it is in, or a step between
two critical sections.
-/
def initStep (s : LockedCtx) (k : Nat) : Option LockedCtx :=
  (s.ctx.initThreads[k]?).bind (fun t =>
    match t.pc.mutex with
    | some m =>
        if s.owner m = some ⟨k, false⟩ then
          (s.ctx.initStep k).map (fun c => { s.setOwner m (some ⟨k, true⟩) with ctx := c })
        else
          none
    | none =>
        if s.outside k then (s.ctx.initStep k).map (fun c => { s with ctx := c }) else none)

/-- The steps with the mutexes. A cancellation takes effect whatever the thread owns, and
frees nothing.
-/
def step (s : LockedCtx) : LockedAction → Option LockedCtx
  | .lock k => s.lock k
  | .unlock k m => s.unlock k m
  | .step (.init k) => s.initStep k
  | .step action =>
      if s.available (s.ctx.mutex action) then
        (s.ctx.step action).map (fun c => { s with ctx := c })
      else
        none

end LockedCtx

/-- All interleavings of all threads with the mutexes, with stop requests at any time, whose
steps all meet a condition on the state before the step.
-/
def lockedRuns (role : Role) (cond : LockedCtx → LockedAction → Prop)
    : Lts LockedCtx LockedAction :=
  (Lts.ofFunction (LockedCtx.init role) LockedCtx.step).restrict cond

-----------------------------------------------------------------------------------------
-- What a step can do
-----------------------------------------------------------------------------------------

/-- A change of some threads that keeps their program points leaves each thread where it was. -/
theorem modify_keepsPc {threads : List InitThread} {k : Nat} {t : InitThread}
    (found : threads[k]? = some t) (k' : Nat) {f : InitThread → InitThread}
    (same : ∀ t, (f t).pc = t.pc)
    : ∃ t', (threads.modify k' f)[k]? = some t' ∧ t'.pc = t.pc := by
  rw [List.getElem?_modify, found]
  refine ⟨_, rfl, ?_⟩
  split
  · exact same t
  · rfl

/-- A step leaves an init thread where it was, unless it is its own or its cancellation. -/
theorem Ctx.AnyMove.keepsPc {c c' : Ctx} {action : Action} (move : Ctx.AnyMove c action c')
    {k : Nat} {t : InitThread} (found : c.initThreads[k]? = some t)
    (notOwn : action ≠ .init k) (notCancelled : action ≠ .cancel k)
    : ∃ t', c'.initThreads[k]? = some t' ∧ t'.pc = t.pc := by
  cases move with
  | sched ok c' move =>
      cases move with
      | spawnKill k' pc busy handle => exact modify_keepsPc found k' (fun _ => rfl)
      | kill k' pc handle => exact modify_keepsPc found k' (fun _ => rfl)
      | spawnJoined k' pc ended => exact modify_keepsPc found k' (fun _ => rfl)
      | killJoined k' pc ended => exact modify_keepsPc found k' (fun _ => rfl)
      | spawned pc created =>
          have inside := (List.getElem?_eq_some_iff.mp found).1
          exact ⟨t, (List.getElem?_append_left inside).trans found, rfl⟩
      | _ => exact ⟨t, found, rfl⟩
  | init k' t' found' c' move =>
      obtain ⟨pc, threads, -⟩ := move.threads
      have other : k' ≠ k := fun same => notOwn (by rw [same])
      rw [threads, Ctx.setInit_threads, List.getElem?_set_ne other]
      exact ⟨t, found, rfl⟩
  | cancel k' t' found' pending alive =>
      have other : k' ≠ k := fun same => notCancelled (by rw [same])
      rw [Ctx.setInit_threads, List.getElem?_set_ne other]
      exact ⟨t, found, rfl⟩
  | _ => exact ⟨t, found, rfl⟩

/-- The body of a critical section does not end its thread. -/
theorem Ctx.InitMove.survivesBody {c c' : Ctx} {k : Nat} {t : InitThread} {m : Mutex}
    (found : c.initThreads[k]? = some t) (move : Ctx.InitMove c k t c')
    (needed : t.pc.mutex = some m)
    : ∃ t', c'.initThreads[k]? = some t' ∧ t'.pc.ended = false := by
  have inside := (List.getElem?_eq_some_iff.mp found).1
  cases move with
  | walk old new pc walk => cases walk <;> simp [pc, InitPc.mutex] at needed
  | clear pc => simp [pc, InitPc.mutex] at needed
  | stage pc => exact ⟨{ t with pc := .setBlocking }, by simp [inside], rfl⟩
  | block pc => exact ⟨{ t with pc := .readType }, by simp [inside], rfl⟩
  | signal type id pc => exact ⟨{ t with pc := .clearRunning }, by simp [inside], rfl⟩

namespace LockedCtx

variable {s s' : LockedCtx}

@[simp]
theorem setOwner_ctx (m : Mutex) (o : Option Ownership) : (s.setOwner m o).ctx = s.ctx := rfl

@[simp]
theorem setOwner_owner (m : Mutex) (o : Option Ownership)
    : (s.setOwner m o).owner = Function.update s.owner m o := rfl

/-- A thread outside its critical sections owns neither mutex. -/
theorem outside_iff {k : Nat}
    : s.outside k = true
      ↔ ∀ (m : Mutex) (o : Ownership), s.owner m = some o → o.thread ≠ k := by
  constructor
  · intro quiet m o owned same
    cases m <;> simp [outside, owns, owned, same] at quiet
  · intro notOwned
    have none (m : Mutex) : s.owns k m = false := by
      cases owned : s.owner m with
      | none => simp [owns, owned]
      | some o => simp [owns, owned, notOwned m o owned]
    simp [outside, none]

/-- The moves with the mutexes. -/
inductive Move (s : LockedCtx) : LockedAction → LockedCtx → Prop where
  | lock (k : Nat) (t : InitThread) (m : Mutex) (found : s.ctx.initThreads[k]? = some t)
      (needed : t.pc.mutex = some m) (free : s.owner m = none)
      : Move s (.lock k) (s.setOwner m (some ⟨k, false⟩))
  | unlock (k : Nat) (m : Mutex) (owned : s.owner m = some ⟨k, true⟩)
      : Move s (.unlock k m) (s.setOwner m none)
  | body (k : Nat) (t : InitThread) (m : Mutex) (found : s.ctx.initThreads[k]? = some t)
      (needed : t.pc.mutex = some m) (owned : s.owner m = some ⟨k, false⟩) (c : Ctx)
      (taken : s.ctx.step (.init k) = some c)
      : Move s (.step (.init k)) { s.setOwner m (some ⟨k, true⟩) with ctx := c }
  | other (action : Action) (c : Ctx)
      (outside : ∀ k, action = .init k → s.outside k = true)
      (taken : s.ctx.step action = some c)
      : Move s (.step action) { s with ctx := c }

/-- Every step is one of the moves, by cases on the label. -/
theorem step_move {label : LockedAction} (step : s.step label = some s')
    : s.Move label s' := by
  cases label with
  | lock k =>
      obtain ⟨t, found, step⟩ := Option.bind_eq_some_iff.mp step
      obtain ⟨m, needed, step⟩ := Option.bind_eq_some_iff.mp step
      split at step
      case isTrue enabled =>
        obtain rfl := Option.some.inj step
        exact .lock k t m found needed enabled.2
      case isFalse => cases step
  | unlock k m =>
      simp only [LockedCtx.step, unlock] at step
      split at step
      case isTrue enabled =>
        obtain rfl := Option.some.inj step
        exact .unlock k m enabled.1
      case isFalse => cases step
  | step action =>
      by_cases own : ∃ k, action = .init k
      · obtain ⟨k, rfl⟩ := own
        obtain ⟨t, found, step⟩ := Option.bind_eq_some_iff.mp step
        split at step
        case h_1 m needed =>
          split at step
          case isTrue owned =>
            obtain ⟨c, taken, rfl⟩ := Option.map_eq_some_iff.mp step
            exact .body k t m found needed owned c taken
          case isFalse => cases step
        case h_2 =>
          split at step
          case isTrue outside =>
            obtain ⟨c, taken, rfl⟩ := Option.map_eq_some_iff.mp step
            refine .other (.init k) c ?_ taken
            rintro k' same
            obtain rfl := Action.init.inj same
            exact outside
          case isFalse => cases step
      · have step : (if s.available (s.ctx.mutex action) then
            (s.ctx.step action).map (fun c => { s with ctx := c }) else none) = some s' := by
          cases action with
          | init k => exact absurd ⟨k, rfl⟩ own
          | _ => exact step
        split at step
        case isTrue =>
          obtain ⟨c, taken, rfl⟩ := Option.map_eq_some_iff.mp step
          exact .other action c (fun k same => absurd ⟨k, same⟩ own) taken
        case isFalse => cases step

/-- Without the mutexes a move is a step of the context or no step at all. -/
theorem Move.ctx {label : LockedAction} (move : s.Move label s')
    : s'.ctx = s.ctx ∨ ∃ action, s.ctx.step action = some s'.ctx := by
  cases move with
  | lock k t m found needed free => exact .inl rfl
  | unlock k m owned => exact .inl rfl
  | body k t m found needed owned c taken => exact .inr ⟨_, taken⟩
  | other action c outside taken => exact .inr ⟨_, taken⟩

-----------------------------------------------------------------------------------------
-- The owners are alive
-----------------------------------------------------------------------------------------

/-- A cancellation takes effect outside the critical sections of its thread. -/
def cancelsOutside (s : LockedCtx) : LockedAction → Prop
  | .step (.cancel k) => s.outside k = true
  | _ => True

/-- Whoever owns a mutex is still running. -/
def OwnersAlive (s : LockedCtx) : Prop :=
  ∀ (m : Mutex) (o : Ownership), s.owner m = some o →
    ∃ t, s.ctx.initThreads[o.thread]? = some t ∧ t.pc.ended = false

namespace OwnersAlive

theorem init (role : Role) : (LockedCtx.init role).OwnersAlive := by
  intro m o owned
  cases owned

/-- Every move keeps the owners alive when cancellations wait for the end of a critical
section, by cases on the move.
-/
theorem move (now : s.OwnersAlive) {label : LockedAction} (waits : s.cancelsOutside label)
    (move : s.Move label s')
    : s'.OwnersAlive := by
  cases move with
  | lock k t m found needed free =>
      intro m' o owned
      rw [setOwner_owner, Function.update_apply] at owned
      split at owned
      case isTrue =>
        obtain rfl := Option.some.inj owned
        refine ⟨t, found, ?_⟩
        cases pc : t.pc <;> simp_all [InitPc.mutex, InitPc.ended]
      case isFalse => exact now m' o owned
  | unlock k m owned =>
      intro m' o owned'
      rw [setOwner_owner, Function.update_apply] at owned'
      split at owned'
      case isTrue => cases owned'
      case isFalse => exact now m' o owned'
  | body k t m found needed owned c taken =>
      obtain ⟨t', found', move⟩ := Ctx.initStep_move taken
      obtain rfl : t = t' := Option.some.inj (found.symm.trans found')
      have survivor := move.survivesBody found needed
      intro m' o owned'
      by_cases own : o.thread = k
      · rw [own]
        exact survivor
      · have before : s.owner m' = some o := by
          rw [setOwner_owner, Function.update_apply] at owned'
          split at owned'
          case isTrue =>
            obtain rfl := Option.some.inj owned'
            exact absurd rfl own
          case isFalse => exact owned'
        obtain ⟨u, running, alive⟩ := now m' o before
        obtain ⟨u', running', pc⟩ := (Ctx.step_anyMove taken).keepsPc running
          (fun same => own (Action.init.inj same).symm) (by simp)
        exact ⟨u', running', pc ▸ alive⟩
  | other action c outside taken =>
      intro m o owned
      obtain ⟨t, found, alive⟩ := now m o owned
      have notOwn : action ≠ .init o.thread := fun same =>
        outside_iff.mp (outside o.thread same) m o owned rfl
      have notCancelled : action ≠ .cancel o.thread := by
        rintro rfl
        exact outside_iff.mp waits m o owned rfl
      obtain ⟨t', found', pc⟩ :=
        (Ctx.step_anyMove taken).keepsPc found notOwn notCancelled
      exact ⟨t', found', pc ▸ alive⟩

end OwnersAlive

end LockedCtx

-----------------------------------------------------------------------------------------
-- Killing an init thread
-----------------------------------------------------------------------------------------

/-- When `qks_init_master_kill_current` returns after the join of thread `k`, neither mutex is
owned by that thread, and `qks_queue_clear_exec_slot` finds `q.mu` free afterwards.
-/
structure KillFreesMutexes (system : Lts LockedCtx LockedAction) : Prop where
  killed
    : ∀ s label s' k, system.Reachable s → system.next s label s' →
        s.ctx.sched = .killJoin k → s'.ctx.sched = .readPrev →
        ∀ m o, s'.owner m = some o → o.thread ≠ k
  canClear
    : ∀ s prev, system.Reachable s → s.ctx.sched = .clearSlot prev → s.owner .queue = none

section Runs

variable {role : Role} {cond : LockedCtx → LockedAction → Prop} {s : LockedCtx}

/-- Without its mutexes a run is one of the context. -/
theorem lockedRuns_ctx (reached : (lockedRuns role cond).Reachable s)
    : (allRuns role (fun _ _ => True)).Reachable s.ctx := by
  have start (s : LockedCtx) (initial : (lockedRuns role cond).init s)
      : (allRuns role (fun _ _ => True)).init s.ctx := by
    obtain rfl : s = .init role := initial
    rfl
  refine reached.project LockedCtx.ctx start (fun s label s' step => ?_)
  rcases (LockedCtx.step_move step.2).ctx with same | ⟨action, taken⟩
  · rw [same]
  · exact .single ⟨action, trivial, taken⟩

theorem cancelsOutside_ownersAlive
    (reached : (lockedRuns role LockedCtx.cancelsOutside).Reachable s)
    : s.OwnersAlive := by
  refine Lts.Reachable.induct LockedCtx.OwnersAlive ?_ ?_ reached
  · rintro _ rfl
    exact .init role
  · intro s label s' _ now step
    exact now.move step.1 (LockedCtx.step_move step.2)

/-- The scheduler's wait for thread `k` ends when the thread is dead only. -/
theorem Ctx.AnyMove.killJoined {c c' : Ctx} {action : Action} (move : Ctx.AnyMove c action c')
    {k : Nat} (waiting : c.sched = .killJoin k) (joined : c'.sched = .readPrev)
    : c.dead k = true := by
  have stays (same : c'.sched = c.sched) : c.dead k = true := by
    simp [same, waiting] at joined
  cases move with
  | sched ok c' move =>
      cases move with
      | killJoined k' pc ended =>
          obtain rfl : k' = k := by simpa [pc] using waiting
          exact ended
      | silent next move => cases move <;> simp_all
      | popReady e rest pc head => rcases pc with pc | pc <;> simp [pc] at waiting
      | _ => simp_all
  | wakeNonempty pc => simp [pc] at waiting
  | wakeForFifo pc => simp [pc] at waiting
  | init k' t found c' move =>
      obtain ⟨-, -, sched, -⟩ := move.threads
      exact stays sched
  | _ => exact stays rfl

/-- A step that ends the wait for thread `k` leaves the mutexes alone. -/
theorem killJoin_cases {label : LockedAction} {s' : LockedCtx} {k : Nat}
    (step : s.step label = some s') (waiting : s.ctx.sched = .killJoin k)
    (joined : s'.ctx.sched = .readPrev)
    : s'.owner = s.owner ∧ s.ctx.dead k = true := by
  cases LockedCtx.step_move step with
  | lock k' t m found needed free => simp [waiting] at joined
  | unlock k' m owned => simp [waiting] at joined
  | body k' t m found needed owned c taken =>
      obtain ⟨u, found', move⟩ := Ctx.initStep_move taken
      obtain ⟨-, -, sched, -⟩ := move.threads
      simp [sched, waiting] at joined
  | other action c quiet taken =>
      exact ⟨rfl, (Ctx.step_anyMove taken).killJoined waiting joined⟩

/-- A cancellation inside a critical section leaves its mutex owned when the kill returns. -/
theorem ownedCancel_leavesMutex {s' : LockedCtx} {k : Nat} {m : Mutex} {o : Ownership}
    (waiting : s.ctx.sched = .killJoin k) (owned : s.owner m = some o)
    (step : s.step (.step (.cancel k)) = some s') (ok : Bool)
    : ∃ s'', s'.step (.step (.sched ok)) = some s'' ∧ s''.ctx.sched = .readPrev
        ∧ s''.owner m = some o := by
  cases LockedCtx.step_move step with
  | other action c quiet taken =>
      obtain ⟨t, found, pending, alive, rfl⟩ := Ctx.cancelEffect_cases taken
      have inside := (List.getElem?_eq_some_iff.mp found).1
      have dead : (s.ctx.setInit k t .killed).dead k = true := by
        simp [Ctx.dead, inside, InitPc.ended]
      refine ⟨{
        s with ctx := { (s.ctx.setInit k t .killed).join k with sched := .readPrev }
      }, ?_, rfl, owned⟩
      simp [LockedCtx.step, LockedCtx.available, Ctx.mutex, Ctx.step, Ctx.schedStep, waiting,
        SchedPc.mutex, dead]

end Runs

/-- When a cancellation takes effect outside the critical sections only, no killed thread
leaves a mutex behind.
-/
theorem cancelsOutside_killFreesMutexes (role : Role)
    : KillFreesMutexes (lockedRuns role LockedCtx.cancelsOutside) where
  killed s label s' k reached step waiting joined m o owned same := by
    obtain ⟨owner, dead⟩ := killJoin_cases step.2 waiting joined
    obtain ⟨t, found, alive⟩ := cancelsOutside_ownersAlive reached m o (owner ▸ owned)
    rw [same] at found
    rw [Ctx.dead_iff found, alive] at dead
    cases dead
  canClear s prev reached pc := by
    cases owned : s.owner .queue with
    | none => rfl
    | some o =>
        obtain ⟨t, found, alive⟩ := cancelsOutside_ownersAlive reached .queue o owned
        have ended := (allRuns_oneThread (lockedRuns_ctx reached)).alone
          (by simp [pc, SchedPc.afterJoin]) o.thread t found
        rw [alive] at ended
        cases ended

/-- A MASTER's init thread is about to switch the stage when a more urgent event arrives; the
scheduler decides to preempt, the thread takes `q.mu` and is cancelled, and the kill returns.
-/
def killedInsideRun : List LockedAction :=
  [.step (.inject .keyRefill .master 0 true)] ++ List.replicate 13 (.step (.sched true))
    ++ List.replicate 11 (.step (.init 0)) ++ [.step (.inject .deviceAuth .master 0 true)]
    ++ List.replicate 10 (.step (.sched true)) ++ [.lock 0, .step (.cancel 0)]
    ++ List.replicate 2 (.step (.sched true))

/-- The step of all runs as a function. -/
def lockedRunStep : LockedCtx → LockedAction → Option LockedCtx :=
  Lts.guardedStep LockedCtx.step (fun _ _ => True)

/-- The state after `killedInsideRun`, with `q.mu` owned by a dead thread. -/
def killedInsideState : LockedCtx :=
  Option.get (Lts.execute lockedRunStep (LockedCtx.init .a) killedInsideRun) (by decide +kernel)

/-- A killed thread can leave a mutex behind: after `killedInsideRun` the scheduler is about to
clear the slot, and `q.mu` is owned by the thread it killed.
-/
theorem killedInside_keepsMutex
    : ¬ ∀ role, KillFreesMutexes (lockedRuns role (fun _ _ => True)) := by
  intro always
  have reached : (lockedRuns .a (fun _ _ => True)).Reachable killedInsideState :=
    Lts.execute_reachable killedInsideRun _
  have pc : killedInsideState.ctx.sched = .clearSlot killedInsideState.ctx.q.execEvent := by
    decide +kernel
  have owned : killedInsideState.owner .queue = some ⟨0, false⟩ := by decide +kernel
  have free := (always .a).canClear killedInsideState _ reached pc
  simp [owned] at free

end QKeySys.Core
