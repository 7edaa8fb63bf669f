import Mathlib.Logic.Function.Basic
import QKeySys.KeyPool.Facade

/-! The key pool with the threads that use it: any number of callers of its interface, which
may initialise it at the same time, the polling thread, and an application that stops it. Every
access to a shared flag, every operation of a mutex and every use of the key list is one step.
-/

namespace QKeySys.KeyPool

open QKeySys.Library

namespace KeyManager

/-- The part of `KeyManager_Init` before the flags: the configuration and the first keys. -/
def firstRequest (env : Env) (self : KeyManager) : Except Fault KeyManager :=
  checkAndRequestKeys env { self with config := env.defaultConfig, localKeys := .init }

/-- One more call of `pthread_create`. -/
def countCreation (self : KeyManager) : KeyManager :=
  { self with world := { self.world with creations := self.world.creations + 1 } }

/-- `KeyInfoList_Free` of the local list. -/
def freeKeys (self : KeyManager) : Except Fault KeyManager := do
  let (w, keys) ← self.localKeys.free self.world
  .ok { self with world := w, localKeys := keys }

end KeyManager

-----------------------------------------------------------------------------------------
-- Program points
-----------------------------------------------------------------------------------------

/-- The calls of the interface, once their argument is not `NULL` and not empty. -/
inductive Request where
  | update (qkStr : CString)
  | execute (payload : Option CString)
  deriving DecidableEq, Repr

/-- What a caller does under the mutex. -/
def Request.perform (env : Env) (self : KeyManager) : Request → Except Fault KeyManager
  | .update qkStr => self.addLocked env qkStr
  | .execute _ => self.checkLocked env

/-- Program points of a caller: `keypool_init_if_needed` with `KeyManager_Init`, the tests of
the interface and of the manager, and `KeyManager_Stop`.
-/
inductive CallerPc where
  | idle
  | readCalled
  | lockInit
  | recheck
  | getInstance
  | initTest
  | initRequest
  | setRunning
  | createThread
  | setInited
  | clearRunning
  | freeList
  | dropPointer
  | setCalled
  | unlockInit
  | readPointer
  | readInited
  | managerInited
  | lock
  | access
  | unlock
  | stopTest
  | stopRunning
  | stopJoin
  | stopFree
  | stopInited
  deriving DecidableEq, Repr

/-- The caller is in `KeyManager_Stop`. -/
def CallerPc.stops : CallerPc → Bool
  | .stopTest | .stopRunning | .stopJoin | .stopFree | .stopInited => true
  | _ => false

/-- Program points of `KeyManager_PollThreadFunc`; `nap` has the local `i`. -/
inductive PollPc where
  | absent
  | testRunning
  | nap (i : Nat)
  | checkInited
  | lock
  | access
  | unlock
  | ended
  deriving DecidableEq, Repr

/-- The thread does not run. -/
def PollPc.isOver : PollPc → Bool
  | .absent | .ended => true
  | _ => false

/-- Whoever owns the manager's mutex. -/
inductive Accessor where
  | caller (i : Nat)
  | poll
  deriving DecidableEq, Repr

structure Caller where
  pc : CallerPc
  request : Request
  deriving DecidableEq, Repr

/-- The caller goes on to another program point. -/
def Caller.go (caller : Caller) (pc : CallerPc) : Caller := { caller with pc := pc }

/-- A caller that has entered `qks_keypool_update`, which refuses the empty string. -/
def Caller.ofUpdate (qkStr : CString) : Caller where
  pc := if qkStr.length = 0 then .idle else .readCalled
  request := .update qkStr

/-- The variables of `keypool.c`, the manager, the two mutexes with their owners, and the
threads.
-/
structure SharedPool where
  manager : KeyManager
  gKeyManager : Bool
  initCalled : Bool
  initMutex : Option Nat
  mutex : Option Accessor
  callers : Nat → Caller
  poll : PollPc

/-- The steps of all threads. -/
inductive SharedAction where
  | call (i : Nat) (request : Request)
  | stop (i : Nat)
  | caller (i : Nat)
  | poll
  deriving DecidableEq, Repr

namespace SharedPool

def init : SharedPool where
  manager := .initInstance
  gKeyManager := false
  initCalled := false
  initMutex := none
  mutex := none
  callers _ := ⟨.idle, .execute none⟩
  poll := .absent

/-- Caller `i` becomes another one. -/
def put (s : SharedPool) (i : Nat) (caller : Caller) : SharedPool :=
  { s with callers := Function.update s.callers i caller }

/-- Caller `i` goes on to another program point. -/
def goto (s : SharedPool) (i : Nat) (pc : CallerPc) : SharedPool :=
  s.put i ((s.callers i).go pc)

/-- The next step of caller `i`; none while it waits for a mutex or for the polling thread, and
where it runs into a fault. `env.creates` decides whether the polling thread is created.
-/
def callerStep (env : Env) (s : SharedPool) (i : Nat) : Option SharedPool :=
  match (s.callers i).pc with
  | .idle => none
  | .readCalled => some (s.goto i (if s.initCalled then .readPointer else .lockInit))
  | .lockInit =>
      match s.initMutex with
      | none => some (goto { s with initMutex := some i } i .recheck)
      | some _ => none
  | .recheck => some (s.goto i (if s.initCalled then .unlockInit else .getInstance))
  | .getInstance => some (goto { s with gKeyManager := true } i .initTest)
  | .initTest => some (s.goto i (if s.manager.isInited then .dropPointer else .initRequest))
  | .initRequest =>
      (s.manager.firstRequest env).toOption.map (fun manager =>
        goto { s with manager := manager } i .setRunning)
  | .setRunning =>
      some (goto { s with manager := { s.manager with isRunning := true } } i .createThread)
  | .createThread =>
      let manager := s.manager.countCreation
      if env.creates s.manager.world.creations then
        some (goto { s with manager := manager, poll := .testRunning } i .setInited)
      else
        some (goto { s with manager := manager } i .clearRunning)
  | .setInited =>
      some (goto { s with manager := { s.manager with isInited := true } } i .setCalled)
  | .clearRunning =>
      some (goto { s with manager := { s.manager with isRunning := false } } i .freeList)
  | .freeList =>
      s.manager.freeKeys.toOption.map (fun manager =>
        goto { s with manager := manager } i .dropPointer)
  | .dropPointer => some (goto { s with gKeyManager := false } i .setCalled)
  | .setCalled => some (goto { s with initCalled := true } i .unlockInit)
  | .unlockInit => some (goto { s with initMutex := none } i .readPointer)
  | .readPointer => some (s.goto i (if s.gKeyManager then .readInited else .idle))
  | .readInited =>
      if s.manager.isInited then
        match (s.callers i).request with
        | .execute (some qkStr) =>
            some (s.put i (.ofUpdate qkStr))
        | _ => some (s.goto i .managerInited)
      else
        some (s.goto i .idle)
  | .managerInited => some (s.goto i (if s.manager.isInited then .lock else .idle))
  | .lock =>
      match s.mutex with
      | none => some (goto { s with mutex := some (.caller i) } i .access)
      | some _ => none
  | .access =>
      ((s.callers i).request.perform env s.manager).toOption.map (fun manager =>
        goto { s with manager := manager } i .unlock)
  | .unlock => some (goto { s with mutex := none } i .idle)
  | .stopTest => some (s.goto i (if s.manager.isInited then .stopRunning else .idle))
  | .stopRunning =>
      some (goto { s with manager := { s.manager with isRunning := false } } i .stopJoin)
  | .stopJoin => if s.poll.isOver then some (s.goto i .stopFree) else none
  | .stopFree =>
      s.manager.freeKeys.toOption.map (fun manager =>
        goto { s with manager := manager } i .stopInited)
  | .stopInited =>
      some (goto { s with manager := { s.manager with isInited := false } } i .idle)

/-- The turns of the sleeping loop for the result of `KeyConfig_GetPollCycle`. -/
def naps (pollCycle : Int) : Nat := ((if pollCycle ≤ 0 then 1 else pollCycle) * 10).toNat

/-- The next step of the polling thread. -/
def pollStep (env : Env) (pollCycle : Int) (s : SharedPool) : Option SharedPool :=
  match s.poll with
  | .absent => none
  | .testRunning => some { s with poll := if s.manager.isRunning then .nap 0 else .ended }
  | .nap i =>
      let goesOn := i < naps pollCycle ∧ s.manager.isRunning
      some { s with poll := if goesOn then .nap (i + 1) else .checkInited }
  | .checkInited => some { s with poll := if s.manager.isInited then .lock else .testRunning }
  | .lock =>
      match s.mutex with
      | none => some { s with mutex := some .poll, poll := .access }
      | some _ => none
  | .access =>
      (s.manager.checkLocked env).toOption.map (fun manager =>
        { s with manager := manager, poll := .unlock })
  | .unlock => some { s with mutex := none, poll := .testRunning }
  | .ended => none

/-- The next step of a thread; a caller that is idle makes a call or stops the manager. -/
def step (env : Env) (pollCycle : Int) (s : SharedPool) : SharedAction → Option SharedPool
  | .call i request =>
      if (s.callers i).pc = .idle then
        match request with
        | .update qkStr => some (s.put i (.ofUpdate qkStr))
        | .execute _ => some (s.put i ⟨.readCalled, request⟩)
      else
        none
  | .stop i => if (s.callers i).pc = .idle then some (s.goto i .stopTest) else none
  | .caller i => s.callerStep env i
  | .poll => s.pollStep env pollCycle

/-- The application stops the manager when nobody else uses the interface, and nobody uses it
until the manager is stopped.
-/
def stopsAlone (s : SharedPool) : SharedAction → Prop
  | .call i _ => ∀ j, j ≠ i → (s.callers j).pc.stops = false
  | .stop i => ∀ j, j ≠ i → (s.callers j).pc = .idle
  | _ => True

end SharedPool

/-- All interleavings of the callers and the polling thread with a stop that is alone. -/
def sharedPools (env : Env) (pollCycle : Int) : Lts SharedPool SharedAction :=
  (Lts.ofFunction SharedPool.init (SharedPool.step env pollCycle)).restrict
    SharedPool.stopsAlone

-----------------------------------------------------------------------------------------
-- What a step does
-----------------------------------------------------------------------------------------

namespace SharedPool

variable {env : Env} {s s' : SharedPool} {i j : Nat}

@[simp] theorem put_callers_self (caller : Caller) : (s.put i caller).callers i = caller :=
  Function.update_self ..

theorem put_callers_ne (caller : Caller) (other : j ≠ i)
    : (s.put i caller).callers j = s.callers j :=
  Function.update_of_ne other ..

/-- The steps of a caller that only change its program point. -/
inductive LocalMove (s : SharedPool) (c : Caller) : CallerPc → Prop where
  | called (pc : c.pc = .readCalled) (called : s.initCalled = true) : LocalMove s c .readPointer
  | early (pc : c.pc = .readCalled) (early : s.initCalled = false) : LocalMove s c .lockInit
  | late (pc : c.pc = .recheck) (called : s.initCalled = true) : LocalMove s c .unlockInit
  | first (pc : c.pc = .recheck) (early : s.initCalled = false) : LocalMove s c .getInstance
  | again (pc : c.pc = .initTest) (inited : s.manager.isInited = true)
      : LocalMove s c .dropPointer
  | begins (pc : c.pc = .initTest) (fresh : s.manager.isInited = false)
      : LocalMove s c .initRequest
  | nowhere (pc : c.pc = .readPointer) (null : s.gKeyManager = false) : LocalMove s c .idle
  | points (pc : c.pc = .readPointer) (points : s.gKeyManager = true)
      : LocalMove s c .readInited
  | refused (pc : c.pc ∈ [.readInited, .managerInited, .stopTest])
      (refused : s.manager.isInited = false)
      : LocalMove s c .idle
  | accepted (pc : c.pc = .readInited) (inited : s.manager.isInited = true)
      (plain : ∀ qkStr, c.request ≠ .execute (some qkStr))
      : LocalMove s c .managerInited
  | asks (pc : c.pc = .managerInited) (inited : s.manager.isInited = true)
      : LocalMove s c .lock
  | stops (pc : c.pc = .stopTest) (inited : s.manager.isInited = true)
      : LocalMove s c .stopRunning
  | joined (pc : c.pc = .stopJoin) (ended : s.poll.isOver = true) : LocalMove s c .stopFree

/-- The steps of caller `i`: what becomes of the shared variables and of the caller. -/
inductive CallerMove (env : Env) (s : SharedPool) (i : Nat) : SharedPool → Caller → Prop where
  | silent (next : CallerPc) (move : LocalMove s (s.callers i) next)
      : CallerMove env s i s ((s.callers i).go next)
  | lockInit (pc : (s.callers i).pc = .lockInit) (free : s.initMutex = none)
      : CallerMove env s i { s with initMutex := some i } ((s.callers i).go .recheck)
  | getInstance (pc : (s.callers i).pc = .getInstance)
      : CallerMove env s i { s with gKeyManager := true } ((s.callers i).go .initTest)
  | request (manager : KeyManager) (pc : (s.callers i).pc = .initRequest)
      (ran : s.manager.firstRequest env = .ok manager)
      : CallerMove env s i { s with manager := manager } ((s.callers i).go .setRunning)
  | setRunning (pc : (s.callers i).pc = .setRunning)
      : CallerMove env s i { s with manager := { s.manager with isRunning := true } }
          ((s.callers i).go .createThread)
  | created (pc : (s.callers i).pc = .createThread)
      (created : env.creates s.manager.world.creations = true)
      : CallerMove env s i
          { s with manager := s.manager.countCreation, poll := .testRunning }
          ((s.callers i).go .setInited)
  | notCreated (pc : (s.callers i).pc = .createThread)
      (failed : env.creates s.manager.world.creations = false)
      : CallerMove env s i { s with manager := s.manager.countCreation }
          ((s.callers i).go .clearRunning)
  | setInited (pc : (s.callers i).pc = .setInited)
      : CallerMove env s i { s with manager := { s.manager with isInited := true } }
          ((s.callers i).go .setCalled)
  | clearRunning (pc : (s.callers i).pc = .clearRunning)
      : CallerMove env s i { s with manager := { s.manager with isRunning := false } }
          ((s.callers i).go .freeList)
  | freeList (manager : KeyManager) (pc : (s.callers i).pc = .freeList)
      (ran : s.manager.freeKeys = .ok manager)
      : CallerMove env s i { s with manager := manager } ((s.callers i).go .dropPointer)
  | dropPointer (pc : (s.callers i).pc = .dropPointer)
      : CallerMove env s i { s with gKeyManager := false } ((s.callers i).go .setCalled)
  | setCalled (pc : (s.callers i).pc = .setCalled)
      : CallerMove env s i { s with initCalled := true } ((s.callers i).go .unlockInit)
  | unlockInit (pc : (s.callers i).pc = .unlockInit)
      : CallerMove env s i { s with initMutex := none } ((s.callers i).go .readPointer)
  | passOn (qkStr : CString) (pc : (s.callers i).pc = .readInited)
      (inited : s.manager.isInited = true)
      (request : (s.callers i).request = .execute (some qkStr))
      : CallerMove env s i s (.ofUpdate qkStr)
  | lock (pc : (s.callers i).pc = .lock) (free : s.mutex = none)
      : CallerMove env s i { s with mutex := some (.caller i) } ((s.callers i).go .access)
  | access (manager : KeyManager) (pc : (s.callers i).pc = .access)
      (ran : (s.callers i).request.perform env s.manager = .ok manager)
      : CallerMove env s i { s with manager := manager } ((s.callers i).go .unlock)
  | unlock (pc : (s.callers i).pc = .unlock)
      : CallerMove env s i { s with mutex := none } ((s.callers i).go .idle)
  | stopRunning (pc : (s.callers i).pc = .stopRunning)
      : CallerMove env s i { s with manager := { s.manager with isRunning := false } }
          ((s.callers i).go .stopJoin)
  | stopFree (manager : KeyManager) (pc : (s.callers i).pc = .stopFree)
      (ran : s.manager.freeKeys = .ok manager)
      : CallerMove env s i { s with manager := manager } ((s.callers i).go .stopInited)
  | stopInited (pc : (s.callers i).pc = .stopInited)
      : CallerMove env s i { s with manager := { s.manager with isInited := false } }
          ((s.callers i).go .idle)

/-- Every step of a caller is one of its moves, by cases on its program point. -/
theorem callerStep_move (step : s.callerStep env i = some s')
    : ∃ shared caller, CallerMove env s i shared caller ∧ s' = shared.put i caller := by
  unfold callerStep at step
  cases pc : (s.callers i).pc with
  | idle => simp [pc] at step
  | readCalled =>
      simp only [pc] at step
      cases step
      refine ⟨s, _, .silent _ ?_, rfl⟩
      split
      case isTrue called => exact .called pc called
      case isFalse early => exact .early pc (by simpa using early)
  | lockInit =>
      simp only [pc] at step
      split at step
      case h_1 free =>
        cases step
        exact ⟨_, _, .lockInit pc free, rfl⟩
      case h_2 => cases step
  | recheck =>
      simp only [pc] at step
      cases step
      refine ⟨s, _, .silent _ ?_, rfl⟩
      split
      case isTrue called => exact .late pc called
      case isFalse early => exact .first pc (by simpa using early)
  | getInstance =>
      simp only [pc] at step
      cases step
      exact ⟨_, _, .getInstance pc, rfl⟩
  | initTest =>
      simp only [pc] at step
      cases step
      refine ⟨s, _, .silent _ ?_, rfl⟩
      split
      case isTrue inited => exact .again pc inited
      case isFalse fresh => exact .begins pc (by simpa using fresh)
  | initRequest =>
      simp only [pc] at step
      obtain ⟨manager, ran, rfl⟩ := Option.map_eq_some_iff.mp step
      exact ⟨_, _, .request manager pc (ok_of_toOption ran), rfl⟩
  | setRunning =>
      simp only [pc] at step
      cases step
      exact ⟨_, _, .setRunning pc, rfl⟩
  | createThread =>
      simp only [pc] at step
      split at step
      case isTrue created =>
        cases step
        exact ⟨_, _, .created pc created, rfl⟩
      case isFalse failed =>
        cases step
        exact ⟨_, _, .notCreated pc (by simpa using failed), rfl⟩
  | setInited =>
      simp only [pc] at step
      cases step
      exact ⟨_, _, .setInited pc, rfl⟩
  | clearRunning =>
      simp only [pc] at step
      cases step
      exact ⟨_, _, .clearRunning pc, rfl⟩
  | freeList =>
      simp only [pc] at step
      obtain ⟨manager, ran, rfl⟩ := Option.map_eq_some_iff.mp step
      exact ⟨_, _, .freeList manager pc (ok_of_toOption ran), rfl⟩
  | dropPointer =>
      simp only [pc] at step
      cases step
      exact ⟨_, _, .dropPointer pc, rfl⟩
  | setCalled =>
      simp only [pc] at step
      cases step
      exact ⟨_, _, .setCalled pc, rfl⟩
  | unlockInit =>
      simp only [pc] at step
      cases step
      exact ⟨_, _, .unlockInit pc, rfl⟩
  | readPointer =>
      simp only [pc] at step
      cases step
      refine ⟨s, _, .silent _ ?_, rfl⟩
      split
      case isTrue points => exact .points pc points
      case isFalse null => exact .nowhere pc (by simpa using null)
  | readInited =>
      simp only [pc] at step
      split at step
      case isTrue inited =>
        split at step
        case h_1 qkStr request =>
          cases step
          exact ⟨s, _, .passOn qkStr pc inited request, rfl⟩
        case h_2 plain =>
          cases step
          exact ⟨s, _, .silent _ (.accepted pc inited plain), rfl⟩
      case isFalse refused =>
        cases step
        exact ⟨s, _, .silent _ (.refused (by simp [pc]) (by simpa using refused)), rfl⟩
  | managerInited =>
      simp only [pc] at step
      cases step
      refine ⟨s, _, .silent _ ?_, rfl⟩
      split
      case isTrue inited => exact .asks pc inited
      case isFalse refused => exact .refused (by simp [pc]) (by simpa using refused)
  | lock =>
      simp only [pc] at step
      split at step
      case h_1 free =>
        cases step
        exact ⟨_, _, .lock pc free, rfl⟩
      case h_2 => cases step
  | access =>
      simp only [pc] at step
      obtain ⟨manager, ran, rfl⟩ := Option.map_eq_some_iff.mp step
      exact ⟨_, _, .access manager pc (ok_of_toOption ran), rfl⟩
  | unlock =>
      simp only [pc] at step
      cases step
      exact ⟨_, _, .unlock pc, rfl⟩
  | stopTest =>
      simp only [pc] at step
      cases step
      refine ⟨s, _, .silent _ ?_, rfl⟩
      split
      case isTrue inited => exact .stops pc inited
      case isFalse refused => exact .refused (by simp [pc]) (by simpa using refused)
  | stopRunning =>
      simp only [pc] at step
      cases step
      exact ⟨_, _, .stopRunning pc, rfl⟩
  | stopJoin =>
      simp only [pc] at step
      split at step
      case isTrue ended =>
        cases step
        exact ⟨s, _, .silent _ (.joined pc ended), rfl⟩
      case isFalse => cases step
  | stopFree =>
      simp only [pc] at step
      obtain ⟨manager, ran, rfl⟩ := Option.map_eq_some_iff.mp step
      exact ⟨_, _, .stopFree manager pc (ok_of_toOption ran), rfl⟩
  | stopInited =>
      simp only [pc] at step
      cases step
      exact ⟨_, _, .stopInited pc, rfl⟩

/-- The steps of the polling thread. -/
inductive PollMove (env : Env) (pollCycle : Int) (s : SharedPool) : SharedPool → Prop where
  | goes (pc : s.poll = .testRunning) (running : s.manager.isRunning = true)
      : PollMove env pollCycle s { s with poll := .nap 0 }
  | ends (pc : s.poll = .testRunning) (stopped : s.manager.isRunning = false)
      : PollMove env pollCycle s { s with poll := .ended }
  | sleeps (n : Nat) (pc : s.poll = .nap n) (less : n < naps pollCycle)
      (running : s.manager.isRunning = true)
      : PollMove env pollCycle s { s with poll := .nap (n + 1) }
  | wakes (n : Nat) (pc : s.poll = .nap n)
      (done : ¬ (n < naps pollCycle ∧ s.manager.isRunning = true))
      : PollMove env pollCycle s { s with poll := .checkInited }
  | asks (pc : s.poll = .checkInited) (inited : s.manager.isInited = true)
      : PollMove env pollCycle s { s with poll := .lock }
  | skips (pc : s.poll = .checkInited) (fresh : s.manager.isInited = false)
      : PollMove env pollCycle s { s with poll := .testRunning }
  | lock (pc : s.poll = .lock) (free : s.mutex = none)
      : PollMove env pollCycle s { s with mutex := some .poll, poll := .access }
  | access (manager : KeyManager) (pc : s.poll = .access)
      (ran : s.manager.checkLocked env = .ok manager)
      : PollMove env pollCycle s { s with manager := manager, poll := .unlock }
  | unlock (pc : s.poll = .unlock)
      : PollMove env pollCycle s { s with mutex := none, poll := .testRunning }

/-- Every step of the polling thread is one of its moves. -/
theorem pollStep_move {pollCycle : Int} (step : s.pollStep env pollCycle = some s')
    : PollMove env pollCycle s s' := by
  unfold pollStep at step
  cases pc : s.poll with
  | absent | ended => simp [pc] at step
  | testRunning =>
      simp only [pc] at step
      cases step
      split
      case isTrue running => exact .goes pc running
      case isFalse stopped => exact .ends pc (by simpa using stopped)
  | nap n =>
      simp only [pc] at step
      cases step
      split
      case isTrue goesOn => exact .sleeps n pc goesOn.1 goesOn.2
      case isFalse done => exact .wakes n pc done
  | checkInited =>
      simp only [pc] at step
      cases step
      split
      case isTrue inited => exact .asks pc inited
      case isFalse fresh => exact .skips pc (by simpa using fresh)
  | lock =>
      simp only [pc] at step
      split at step
      case h_1 free =>
        cases step
        exact .lock pc free
      case h_2 => cases step
  | access =>
      simp only [pc] at step
      obtain ⟨manager, ran, rfl⟩ := Option.map_eq_some_iff.mp step
      exact .access manager pc (ok_of_toOption ran)
  | unlock =>
      simp only [pc] at step
      cases step
      exact .unlock pc

end SharedPool

end QKeySys.KeyPool
