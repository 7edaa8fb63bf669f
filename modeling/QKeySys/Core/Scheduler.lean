import QKeySys.Core.Exec
import QKeySys.Core.Queue
import QKeySys.Library.Transition

/-! The scheduling context with its threads: the scheduler loop, the master-init threads,
the dispatcher and the workers. Every critical section and every unlocked read of a queue
field is one step; program points carry the locals that are still needed.
-/

namespace QKeySys.Core

open QKeySys.Library

-----------------------------------------------------------------------------------------
-- Program points
-----------------------------------------------------------------------------------------

/-- `QKS_ACK_TIMEOUT_MS` -/
def ackTimeoutMs : Nat := 500

/-- Program points of a master-init thread. `ackWait` is the head of the waiting loop;
`signal` holds the type read for `qks_exec_signal` and, as auxiliary, whose type it was.
-/
inductive InitPc where
  | snapshot
  | ackWait (elapsed : Nat)
  | updateStage
  | setBlocking
  | readType
  | signal (t : EventType) (id : Nat)
  | clearRunning
  | finished
  | killed
  deriving DecidableEq, Repr

/-- The thread takes no further step. -/
def InitPc.ended : InitPc → Bool
  | .finished | .killed => true
  | _ => false

/-- A created master-init thread. `cancelled` is a pending cancellation, `joined` says that
its handle was released. `owner` is auxiliary: the event it was started for.
-/
structure InitThread where
  pc : InitPc
  cancelled : Bool
  joined : Bool
  owner : Nat
  deriving DecidableEq, Repr

/-- Program points of `qks_scheduler_start` and of what it calls. `pri` is the local
`guard_pri`, `f` and `h` are the peeked events, `e` and `prev` the events in hand.
-/
inductive SchedPc where
  | start
  | loopTop
  | readHasExec
  | waitNonempty
  | asleepNonempty
  | peekForWait
  | waitForFifo
  | asleepForFifo
  | stopCheck
  | getGuard
  | readSlot (pri : Int)
  | freePeekFifo
  | freePeekWait (f : Option Event)
  | freePopReady
  | freePopWait
  | acceptAndClaim (e : Event)
  | onActStage
  | onActBlock
  | onActReadType
  | onActSignal (t : EventType) (id : Nat)
  | handleEvent (e : Event)
  | spawnCheck
  | spawnJoin (k : Nat)
  | spawnCreate
  | busyPeekFifo (pri : Int)
  | readStage (pri : Int) (f : Event)
  | readDir (pri : Int) (f : Event)
  | killCurrent
  | killJoin (k : Nat)
  | readPrev
  | clearSlot (prev : Event)
  | pushPrev (prev : Event)
  | popPreempting
  | popBlocked
  | parkBlocked (f : Event)
  | exited
  deriving DecidableEq, Repr

/-- The scheduler is not past reading the guard, so it is between two iterations. -/
def SchedPc.betweenIterations : SchedPc → Bool
  | .start | .loopTop | .readHasExec | .waitNonempty | .asleepNonempty | .peekForWait
  | .waitForFifo | .asleepForFifo | .stopCheck | .getGuard | .exited => true
  | _ => false

-----------------------------------------------------------------------------------------
-- The context
-----------------------------------------------------------------------------------------

/-- Auxiliary record of the events: how often one was offered to the FIFO, which were
stored there, which completed, which were dropped as SLAVE and which were lost to a full
wait heap. `underBlock` numbers the SLAVE events that were stored under a hard block.
-/
structure CtxLog where
  attempts : Nat
  injected : List Event
  completed : List Event
  dropped : List Event
  lost : List Event
  underBlock : List Nat
  deriving DecidableEq, Repr

/-- `qks_sched_ctx_t` with the program points of its threads. -/
structure Ctx where
  q : Queue
  stop : Bool
  role : Role
  exec : Exec
  sched : SchedPc
  initMasterRunning : Bool
  thInitMaster : Option Nat
  initThreads : List InitThread
  log : CtxLog

namespace Ctx

/-- The zeroed context of `main` after `qks_queue_init`, with its threads started. -/
def init (role : Role) : Ctx where
  q := .init
  stop := false
  role := role
  exec := .init
  sched := .start
  initMasterRunning := false
  thInitMaster := none
  initThreads := []
  log := ⟨0, [], [], [], [], []⟩

-----------------------------------------------------------------------------------------
-- Injection
-----------------------------------------------------------------------------------------

/-- `qks_inject_event`: builds a pending event with number zero and offers it to the FIFO. -/
def injectEvent (c : Ctx) (type : EventType) (dir : EventDir) (payload : Nat)
    (mallocOk : Bool) : Int × Ctx :=
  let e : Event := {
    type := type
    dir := dir
    priority := priorityOf type
    stage := .pending
    payload := payload
    seq := 0
    id := c.log.attempts + 1
  }
  let (result, q) := c.q.pushReady e mallocOk
  (result, {
    c with
    q := q
    log := {
      c.log with
      attempts := c.log.attempts + 1
      injected := if mallocOk then c.log.injected ++ [c.q.numbered e] else c.log.injected
      underBlock :=
        if mallocOk ∧ dir = .slave ∧ c.q.hardBlocking then c.log.underBlock ++ [e.id]
        else c.log.underBlock
    }
  })

-----------------------------------------------------------------------------------------
-- The scheduler loop
-----------------------------------------------------------------------------------------

/-- Only the priorities are compared; the smaller number preempts. -/
def canPreempt (guardPriority : Int) (e : Event) : Bool := e.priority < guardPriority

/-- The choice between the FIFO head and the top of the wait heap. -/
def chooseFifo (f h : Event) : Bool :=
  f.priority < h.priority || (f.priority == h.priority && f.seq < h.seq)

/-- Where a popped candidate goes next. -/
def dispose (e : Event) : SchedPc :=
  match e.dir with
  | .slave => .acceptAndClaim e
  | .master => .handleEvent e

/-- The event that `qks_init_slave_accept_and_claim` builds from a type and a payload; its
other fields are zero or set anew.
-/
def claimed (e : Event) : Event where
  type := e.type
  dir := .slave
  priority := priorityOf e.type
  stage := .iwait
  payload := e.payload
  seq := 0
  id := e.id

/-- A thread no longer runs. -/
def dead (c : Ctx) (k : Nat) : Bool :=
  match c.initThreads[k]? with
  | some t => t.pc.ended
  | none => false

/-- `pthread_cancel` leaves a request behind that takes effect at any later step. -/
def requestCancel (c : Ctx) (k : Nat) : Ctx :=
  { c with initThreads := c.initThreads.modify k (fun t => { t with cancelled := true }) }

/-- `pthread_join` of a dead thread, after which the handle is reset. -/
def join (c : Ctx) (k : Nat) : Ctx :=
  { c with
    initThreads := c.initThreads.modify k (fun t => { t with joined := true })
    thInitMaster := none
    initMasterRunning := false }

/-- The thread that `qks_thread_create` starts for the event in the slot. -/
def newThread (c : Ctx) : InitThread where
  pc := .snapshot
  cancelled := false
  joined := false
  owner := c.q.execEvent.id

/-- The next step of the scheduler; none while it sleeps, while it waits for a thread to
end and after its exit. `ok` is the outcome of an allocation or of a thread creation.
-/
def schedStep (c : Ctx) (ok : Bool) : Option Ctx :=
  match c.sched with
  | .start => some { c with stop := false, sched := .loopTop }
  | .loopTop => some { c with sched := if c.stop then .exited else .readHasExec }
  | .readHasExec =>
      some { c with sched := if !c.q.hasExec then .waitNonempty else .peekForWait }
  | .waitNonempty =>
      if c.q.nonemptySleeps c.stop then
        some { c with q := c.q.sleep, sched := .asleepNonempty }
      else
        some { c with sched := .stopCheck }
  | .asleepNonempty => none
  | .peekForWait =>
      match c.q.peekFifo with
      | none => some { c with sched := .waitForFifo }
      | some _ => some { c with sched := .stopCheck }
  | .waitForFifo =>
      if c.q.fifoSleeps c.stop then
        some { c with q := c.q.sleep, sched := .asleepForFifo }
      else
        some { c with sched := .stopCheck }
  | .asleepForFifo => none
  | .stopCheck => some { c with sched := if c.stop then .exited else .getGuard }
  | .getGuard =>
      let (hardBlock, guardPri) := c.q.getGuard
      some { c with sched := if hardBlock then .loopTop else .readSlot guardPri }
  | .readSlot pri =>
      some { c with sched := if !c.q.hasExec then .freePeekFifo else .busyPeekFifo pri }
  | .freePeekFifo => some { c with sched := .freePeekWait c.q.peekFifo }
  | .freePeekWait f =>
      match f, c.q.peekWait with
      | none, none => some { c with sched := .loopTop }
      | some _, none => some { c with sched := .freePopReady }
      | none, some _ => some { c with sched := .freePopWait }
      | some f, some h =>
          some { c with sched := if chooseFifo f h then .freePopReady else .freePopWait }
  | .freePopReady => c.q.popReady.map (fun (e, q) => { c with q := q, sched := dispose e })
  | .freePopWait => c.q.popWait.map (fun (e, q) => { c with q := q, sched := dispose e })
  | .acceptAndClaim e =>
      some { c with q := c.q.setExecSlot (claimed e) .iwait true, sched := .onActStage }
  | .onActStage => some { c with q := c.q.updateStage .exec, sched := .onActBlock }
  | .onActBlock => some { c with q := c.q.setBlocking true, sched := .onActReadType }
  | .onActReadType =>
      some { c with sched := .onActSignal c.q.execEvent.type c.q.execEvent.id }
  | .onActSignal t id => some { c with exec := c.exec.signal t c.role id, sched := .loopTop }
  | .handleEvent e =>
      some {
        c with
        q := c.q.setExecSlot e .init false
        sched := if e.dir = .master then .spawnCheck else .loopTop
      }
  | .spawnCheck =>
      match c.initMasterRunning, c.thInitMaster with
      | true, some k => some { c.requestCancel k with sched := .spawnJoin k }
      | _, _ => some { c with sched := .spawnCreate }
  | .spawnJoin k => if c.dead k then some { c.join k with sched := .spawnCreate } else none
  | .spawnCreate =>
      if ok then
        some {
          c with
          initMasterRunning := true
          initThreads := c.initThreads ++ [c.newThread]
          thInitMaster := some c.initThreads.length
          sched := .loopTop
        }
      else
        some { c with initMasterRunning := true, sched := .loopTop }
  | .busyPeekFifo pri =>
      match c.q.peekFifo with
      | none => some { c with sched := .loopTop }
      | some f => some { c with sched := .readStage pri f }
  | .readStage pri f =>
      some {
        c with sched := if c.q.execEvent.stage = .init then .readDir pri f else .popBlocked
      }
  | .readDir pri f =>
      some {
        c with
        sched :=
          if c.q.execEvent.dir = .master ∧ canPreempt pri f then .killCurrent
          else .popBlocked
      }
  | .killCurrent =>
      match c.thInitMaster with
      | some k => some { c.requestCancel k with sched := .killJoin k }
      | none => some { c with initMasterRunning := false, sched := .readPrev }
  | .killJoin k => if c.dead k then some { c.join k with sched := .readPrev } else none
  | .readPrev => some { c with sched := .clearSlot c.q.execEvent }
  | .clearSlot prev => some { c with q := c.q.clearExecSlot, sched := .pushPrev prev }
  | .pushPrev prev =>
      let lost :=
        if (c.q.waitHeap.heapPush prev ok).1 = 0 then c.log.lost else c.log.lost ++ [prev]
      some {
        c with
        q := (c.q.pushWait prev ok).2
        sched := .popPreempting
        log := { c.log with lost := lost }
      }
  | .popPreempting => c.q.popReady.map (fun (f, q) => { c with q := q, sched := dispose f })
  | .popBlocked =>
      c.q.popReady.map (fun (f, q) =>
        match f.dir with
        | .master => { c with q := q, sched := .parkBlocked f }
        | .slave => {
            c with
            q := q
            sched := .loopTop
            log := { c.log with dropped := c.log.dropped ++ [f] }
          })
  | .parkBlocked f =>
      let lost :=
        if (c.q.waitHeap.heapPush f ok).1 = 0 then c.log.lost else c.log.lost ++ [f]
      some {
        c with
        q := (c.q.pushWait f ok).2
        sched := .loopTop
        log := { c.log with lost := lost }
      }
  | .exited => none

/-- The scheduler returns from a condition wait, signalled or not, and tests again. -/
def schedReturn (c : Ctx) : Option Ctx :=
  match c.sched with
  | .asleepNonempty => some { c with sched := .waitNonempty }
  | .asleepForFifo => some { c with sched := .waitForFifo }
  | _ => none

-----------------------------------------------------------------------------------------
-- The other threads
-----------------------------------------------------------------------------------------

/-- The next step of the master-init thread `k`: `init_master_thread` with
`qks_init_master_start` and `qks_init_master_send_act`.
-/
def initStep (c : Ctx) (k : Nat) : Option Ctx :=
  match c.initThreads[k]? with
  | none => none
  | some t =>
      let moved (pc : InitPc) := c.initThreads.set k { t with pc := pc }
      match t.pc with
      | .snapshot => some { c with initThreads := moved (.ackWait 0) }
      | .ackWait elapsed =>
          if elapsed < ackTimeoutMs then
            if c.stop then
              some { c with initThreads := moved .clearRunning }
            else
              some { c with initThreads := moved (.ackWait (elapsed + 60)) }
          else
            some { c with initThreads := moved .updateStage }
      | .updateStage =>
          some { c with q := c.q.updateStage .exec, initThreads := moved .setBlocking }
      | .setBlocking =>
          some { c with q := c.q.setBlocking true, initThreads := moved .readType }
      | .readType =>
          let pc := .signal c.q.execEvent.type c.q.execEvent.id
          some { c with initThreads := moved pc }
      | .signal type id =>
          some {
            c with
            exec := c.exec.signal type c.role id
            initThreads := moved .clearRunning
          }
      | .clearRunning =>
          some { c with initMasterRunning := false, initThreads := moved .finished }
      | .finished => none
      | .killed => none

/-- A pending cancellation takes effect on a thread that still runs. -/
def cancelEffect (c : Ctx) (k : Nat) : Option Ctx :=
  match c.initThreads[k]? with
  | none => none
  | some t =>
      if t.cancelled ∧ ¬ c.dead k then
        some { c with initThreads := c.initThreads.set k { t with pc := .killed } }
      else
        none

/-- The next step of the dispatcher, with the two critical sections of
`qks_scheduler_notify_event_done` on the queue.
-/
def dispatcherStep (c : Ctx) : Option Ctx :=
  (c.exec.dispatcherStep c.stop).map (fun x =>
    match c.exec.dispatcher with
    | .notifyClear _ _ =>
        let completed :=
          if c.q.hasExec then c.log.completed ++ [c.q.execEvent] else c.log.completed
        {
          c with
          exec := x
          q := c.q.clearExecSlot
          log := { c.log with completed := completed }
        }
    | .notifyWake => { c with exec := x, q := c.q.wake }
    | _ => { c with exec := x })

end Ctx

/-- The steps of all threads, with the outcome of what the environment decides. -/
inductive Action where
  | inject (type : EventType) (dir : EventDir) (payload : Nat) (mallocOk : Bool)
  | sched (ok : Bool)
  | schedReturn
  | init (k : Nat)
  | cancel (k : Nat)
  | dispatcher
  | dispatcherReturn
  | worker (i : Fin 6)
  | workerReturn (i : Fin 6)
  | requestStop
  deriving DecidableEq, Repr

namespace Ctx

def step (c : Ctx) : Action → Option Ctx
  | .inject type dir payload mallocOk => some (c.injectEvent type dir payload mallocOk).2
  | .sched ok => c.schedStep ok
  | .schedReturn => c.schedReturn
  | .init k => c.initStep k
  | .cancel k => c.cancelEffect k
  | .dispatcher => c.dispatcherStep
  | .dispatcherReturn => c.exec.dispatcherReturn.map (fun x => { c with exec := x })
  | .worker i => (c.exec.workerStep c.stop i).map (fun x => { c with exec := x })
  | .workerReturn i => (c.exec.workerReturn i).map (fun x => { c with exec := x })
  | .requestStop => some { c with stop := true }

end Ctx

/-- The runs with `stop = 0`, all interleavings of all threads without a stop request, whose
steps all meet a condition on the state before the step.
-/
def runsWhen (role : Role) (cond : Ctx → Action → Prop) : Lts Ctx Action :=
  (Lts.ofFunction (Ctx.init role) Ctx.step).restrict
    (fun c action => action ≠ .requestStop ∧ cond c action)

/-- All runs with `stop = 0`. -/
abbrev runs (role : Role) : Lts Ctx Action := runsWhen role (fun _ _ => True)

/-- The step of `runs` as a function, for running it on given actions. -/
def runsStep : Ctx → Action → Option Ctx :=
  Lts.guardedStep Ctx.step (fun _ action => action ≠ .requestStop ∧ True)

theorem runsStep_sound {role : Role} (c : Ctx) (action : Action) (c' : Ctx)
    (taken : runsStep c action = some c')
    : (runs role).next c action c' :=
  Lts.guardedStep_sound c action c' taken

/-- The state after some actions is reachable. -/
theorem runs_reachable (role : Role) (actions : List Action)
    (ran : (Lts.execute runsStep (Ctx.init role) actions).isSome)
    : (runs role).Reachable (Option.get _ ran) :=
  Lts.execute_reachable actions ran

end QKeySys.Core
