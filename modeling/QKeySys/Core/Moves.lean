import QKeySys.Core.Scheduler

/-! What one step of each thread can do, as one constructor for each way through the code.
The invariants are derived from these moves and never unfold the step functions.
-/

namespace QKeySys.Core

namespace Ctx

-----------------------------------------------------------------------------------------
-- The scheduler
-----------------------------------------------------------------------------------------

/-- The scheduler reads and branches; only its program point changes, to the given one. -/
inductive SilentMove (c : Ctx) : SchedPc → Prop where
  | loop (pc : c.sched = .loopTop) (go : c.stop = false) : SilentMove c .readHasExec
  | exitTop (pc : c.sched = .loopTop) (stop : c.stop = true) : SilentMove c .exited
  | seesFree (pc : c.sched = .readHasExec) (free : c.q.hasExec = false)
      : SilentMove c .waitNonempty
  | seesBusy (pc : c.sched = .readHasExec) (busy : c.q.hasExec = true)
      : SilentMove c .peekForWait
  | nonemptyAwake (pc : c.sched = .waitNonempty)
      (awake : c.q.nonemptySleeps c.stop = false)
      : SilentMove c .stopCheck
  | fifoEmpty (pc : c.sched = .peekForWait) (empty : c.q.fifo = [])
      : SilentMove c .waitForFifo
  | fifoFilled (pc : c.sched = .peekForWait) (filled : c.q.fifo ≠ [])
      : SilentMove c .stopCheck
  | fifoAwake (pc : c.sched = .waitForFifo) (awake : c.q.fifoSleeps c.stop = false)
      : SilentMove c .stopCheck
  | exitCheck (pc : c.sched = .stopCheck) (stop : c.stop = true) : SilentMove c .exited
  | goOn (pc : c.sched = .stopCheck) (go : c.stop = false) : SilentMove c .getGuard
  | guardHard (pc : c.sched = .getGuard) (hard : c.q.hardBlocking = true)
      : SilentMove c .loopTop
  | guardSoft (pc : c.sched = .getGuard) (soft : c.q.hardBlocking = false)
      : SilentMove c (.readSlot c.q.guardPriority)
  | free (pri : Int) (pc : c.sched = .readSlot pri) (free : c.q.hasExec = false)
      : SilentMove c .freePeekFifo
  | busy (pri : Int) (pc : c.sched = .readSlot pri) (busy : c.q.hasExec = true)
      : SilentMove c (.busyPeekFifo pri)
  | peekFree (pc : c.sched = .freePeekFifo) : SilentMove c (.freePeekWait c.q.fifo.head?)
  | nothing (pc : c.sched = .freePeekWait none) (empty : c.q.peekWait = none)
      : SilentMove c .loopTop
  | takeFifo (f : Event) (pc : c.sched = .freePeekWait (some f))
      (chosen : ∀ h, c.q.peekWait = some h → chooseFifo f h = true)
      : SilentMove c .freePopReady
  | takeHeap (f : Option Event) (h : Event) (pc : c.sched = .freePeekWait f)
      (top : c.q.peekWait = some h) (chosen : ∀ e, f = some e → chooseFifo e h = false)
      : SilentMove c .freePopWait
  | readType (pc : c.sched = .onActReadType)
      : SilentMove c (.onActSignal c.q.execEvent.type c.q.execEvent.id)
  | spawnFree (pc : c.sched = .spawnCheck)
      (idle : c.initMasterRunning = false ∨ c.thInitMaster = none)
      : SilentMove c .spawnCreate
  | nothingNew (pri : Int) (pc : c.sched = .busyPeekFifo pri) (empty : c.q.fifo = [])
      : SilentMove c .loopTop
  | peekBusy (pri : Int) (f : Event) (pc : c.sched = .busyPeekFifo pri)
      (head : c.q.fifo.head? = some f)
      : SilentMove c (.readStage pri f)
  | stageInit (pri : Int) (f : Event) (pc : c.sched = .readStage pri f)
      (stage : c.q.execEvent.stage = .init)
      : SilentMove c (.readDir pri f)
  | stageOther (pri : Int) (f : Event) (pc : c.sched = .readStage pri f)
      (stage : c.q.execEvent.stage ≠ .init)
      : SilentMove c .popBlocked
  | preempt (pri : Int) (f : Event) (pc : c.sched = .readDir pri f)
      (master : c.q.execEvent.dir = .master) (allowed : canPreempt pri f = true)
      : SilentMove c .killCurrent
  | noPreempt (pri : Int) (f : Event) (pc : c.sched = .readDir pri f)
      (blocked : ¬ (c.q.execEvent.dir = .master ∧ canPreempt pri f = true))
      : SilentMove c .popBlocked
  | readPrev (pc : c.sched = .readPrev) : SilentMove c (.clearSlot c.q.execEvent)

/-- The moves of the scheduler; `ok` is the outcome of the allocation or creation. -/
inductive SchedMove (c : Ctx) (ok : Bool) : Ctx → Prop where
  | start (pc : c.sched = .start)
      : SchedMove c ok { c with stop := false, sched := .loopTop }
  | silent (next : SchedPc) (move : SilentMove c next)
      : SchedMove c ok { c with sched := next }
  | sleepNonempty (pc : c.sched = .waitNonempty)
      (sleeps : c.q.nonemptySleeps c.stop = true)
      : SchedMove c ok { c with q := c.q.sleep, sched := .asleepNonempty }
  | sleepForFifo (pc : c.sched = .waitForFifo) (sleeps : c.q.fifoSleeps c.stop = true)
      : SchedMove c ok { c with q := c.q.sleep, sched := .asleepForFifo }
  | popReady (e : Event) (rest : List Event)
      (pc : c.sched = .freePopReady ∨ c.sched = .popPreempting)
      (head : c.q.fifo = e :: rest)
      : SchedMove c ok { c with q := { c.q with fifo := rest }, sched := dispose e }
  | popWait (e : Event) (heap : WaitHeap) (pc : c.sched = .freePopWait)
      (popped : c.q.waitHeap.heapPop = some (e, heap))
      : SchedMove c ok { c with q := { c.q with waitHeap := heap }, sched := dispose e }
  | claim (e : Event) (pc : c.sched = .acceptAndClaim e)
      : SchedMove c ok {
          c with q := c.q.setExecSlot (claimed e) .iwait true, sched := .onActStage
        }
  | actStage (pc : c.sched = .onActStage)
      : SchedMove c ok { c with q := c.q.updateStage .exec, sched := .onActBlock }
  | actBlock (pc : c.sched = .onActBlock)
      : SchedMove c ok { c with q := c.q.setBlocking true, sched := .onActReadType }
  | actSignal (t : EventType) (id : Nat) (pc : c.sched = .onActSignal t id)
      : SchedMove c ok { c with exec := c.exec.signal t c.role id, sched := .loopTop }
  | install (e : Event) (pc : c.sched = .handleEvent e)
      : SchedMove c ok {
          c with
          q := c.q.setExecSlot e .init false
          sched := if e.dir = .master then .spawnCheck else .loopTop
        }
  | spawnKill (k : Nat) (pc : c.sched = .spawnCheck) (busy : c.initMasterRunning = true)
      (handle : c.thInitMaster = some k)
      : SchedMove c ok { c.requestCancel k with sched := .spawnJoin k }
  | spawnJoined (k : Nat) (pc : c.sched = .spawnJoin k) (ended : c.dead k = true)
      : SchedMove c ok { c.join k with sched := .spawnCreate }
  | spawned (pc : c.sched = .spawnCreate) (created : ok = true)
      : SchedMove c ok {
          c with
          initMasterRunning := true
          initThreads := c.initThreads ++ [c.newThread]
          thInitMaster := some c.initThreads.length
          sched := .loopTop
        }
  | spawnFailed (pc : c.sched = .spawnCreate) (failed : ok = false)
      : SchedMove c ok { c with initMasterRunning := true, sched := .loopTop }
  | kill (k : Nat) (pc : c.sched = .killCurrent) (handle : c.thInitMaster = some k)
      : SchedMove c ok { c.requestCancel k with sched := .killJoin k }
  | killNone (pc : c.sched = .killCurrent) (handle : c.thInitMaster = none)
      : SchedMove c ok { c with initMasterRunning := false, sched := .readPrev }
  | killJoined (k : Nat) (pc : c.sched = .killJoin k) (ended : c.dead k = true)
      : SchedMove c ok { c.join k with sched := .readPrev }
  | clear (prev : Event) (pc : c.sched = .clearSlot prev)
      : SchedMove c ok { c with q := c.q.clearExecSlot, sched := .pushPrev prev }
  | storePrev (prev : Event) (heap : WaitHeap) (pc : c.sched = .pushPrev prev)
      (stored : heap.events.Perm (prev :: c.q.waitHeap.events))
      : SchedMove c ok {
          c with q := { c.q with waitHeap := heap }, sched := .popPreempting
        }
  | losePrev (prev : Event) (pc : c.sched = .pushPrev prev) (failed : ok = false)
      : SchedMove c ok {
          c with
          sched := .popPreempting
          log := { c.log with lost := c.log.lost ++ [prev] }
        }
  | popBlocked (f : Event) (rest : List Event) (pc : c.sched = .popBlocked)
      (head : c.q.fifo = f :: rest) (master : f.dir = .master)
      : SchedMove c ok { c with q := { c.q with fifo := rest }, sched := .parkBlocked f }
  | drop (f : Event) (rest : List Event) (pc : c.sched = .popBlocked)
      (head : c.q.fifo = f :: rest) (slave : f.dir = .slave)
      : SchedMove c ok {
          c with
          q := { c.q with fifo := rest }
          sched := .loopTop
          log := { c.log with dropped := c.log.dropped ++ [f] }
        }
  | park (f : Event) (heap : WaitHeap) (pc : c.sched = .parkBlocked f)
      (stored : heap.events.Perm (f :: c.q.waitHeap.events))
      : SchedMove c ok { c with q := { c.q with waitHeap := heap }, sched := .loopTop }
  | loseBlocked (f : Event) (pc : c.sched = .parkBlocked f) (failed : ok = false)
      : SchedMove c ok {
          c with
          sched := .loopTop
          log := { c.log with lost := c.log.lost ++ [f] }
        }

/-- Pushing onto the wait heap stores the event or, when the heap cannot grow, loses it. -/
theorem pushWait_cases (q : Queue) (e : Event) (ok : Bool)
    : (q.waitHeap.heapPush e ok).1 = 0
        ∧ (∃ heap : WaitHeap, heap.events.Perm (e :: q.waitHeap.events)
          ∧ (q.pushWait e ok).2 = { q with waitHeap := heap })
      ∨ (q.waitHeap.heapPush e ok).1 ≠ 0 ∧ ok = false ∧ (q.pushWait e ok).2 = q := by
  rcases q.waitHeap.heapPush_cases e ok with ⟨success, stored⟩ | ⟨failed, unchanged⟩
  · exact .inl ⟨success, _, stored, rfl⟩
  · refine .inr ⟨by simp [unchanged], failed, ?_⟩
    simp only [Queue.pushWait, unchanged]

/-- Every step of the scheduler is one of its moves, by cases on its program point. -/
theorem schedStep_move {c c' : Ctx} {ok : Bool} (step : c.schedStep ok = some c')
    : SchedMove c ok c' := by
  unfold schedStep at step
  cases pc : c.sched with
  | start =>
      simp only [pc] at step
      cases step
      exact .start pc
  | loopTop =>
      simp only [pc] at step
      cases step
      split
      case isTrue stop => exact .silent _ (.exitTop pc stop)
      case isFalse go => exact .silent _ (.loop pc (by simpa using go))
  | readHasExec =>
      simp only [pc] at step
      cases step
      split
      case isTrue free => exact .silent _ (.seesFree pc (by simpa using free))
      case isFalse busy => exact .silent _ (.seesBusy pc (by simpa using busy))
  | waitNonempty =>
      simp only [pc] at step
      split at step
      case isTrue sleeps =>
        cases step
        exact .sleepNonempty pc sleeps
      case isFalse awake =>
        cases step
        exact .silent _ (.nonemptyAwake pc (by simpa using awake))
  | asleepNonempty => simp [pc] at step
  | peekForWait =>
      simp only [pc] at step
      split at step <;> cases step
      case h_1 none => exact .silent _ (.fifoEmpty pc (List.head?_eq_none_iff.mp none))
      case h_2 found =>
        refine .silent _ (.fifoFilled pc ?_)
        intro empty
        simp [Queue.peekFifo, empty] at found
  | waitForFifo =>
      simp only [pc] at step
      split at step
      case isTrue sleeps =>
        cases step
        exact .sleepForFifo pc sleeps
      case isFalse awake =>
        cases step
        exact .silent _ (.fifoAwake pc (by simpa using awake))
  | asleepForFifo => simp [pc] at step
  | stopCheck =>
      simp only [pc] at step
      cases step
      split
      case isTrue stop => exact .silent _ (.exitCheck pc stop)
      case isFalse go => exact .silent _ (.goOn pc (by simpa using go))
  | getGuard =>
      cases hard : c.q.hardBlocking with
      | true =>
          simp only [pc, Queue.getGuard, hard, if_true] at step
          cases step
          exact .silent _ (.guardHard pc hard)
      | false =>
          simp only [pc, Queue.getGuard, hard, Bool.false_eq_true, if_false] at step
          cases step
          exact .silent _ (.guardSoft pc hard)
  | readSlot pri =>
      simp only [pc] at step
      cases step
      split
      case isTrue free => exact .silent _ (.free pri pc (by simpa using free))
      case isFalse busy => exact .silent _ (.busy pri pc (by simpa using busy))
  | freePeekFifo =>
      simp only [pc] at step
      cases step
      exact .silent _ (.peekFree pc)
  | freePeekWait f =>
      simp only [pc] at step
      split at step <;> cases step
      case h_1 empty => exact .silent _ (.nothing pc empty)
      case h_2 f empty => exact .silent _ (.takeFifo f pc (by simp [empty]))
      case h_3 h top => exact .silent _ (.takeHeap none h pc top (by simp))
      case h_4 f h top =>
        split
        case isTrue chosen => exact .silent _ (.takeFifo f pc (by simp [top, chosen]))
        case isFalse chosen =>
          exact .silent _ (.takeHeap (some f) h pc top (by simpa using chosen))
  | freePopReady =>
      simp only [pc, Queue.popReady] at step
      split at step <;> cases step
      case h_2 e rest head => exact .popReady e rest (.inl pc) head
  | freePopWait =>
      simp only [pc, Queue.popWait, Option.map_eq_some_iff] at step
      obtain ⟨_, ⟨⟨e, heap⟩, popped, rfl⟩, rfl⟩ := step
      exact .popWait e heap pc popped
  | acceptAndClaim e =>
      simp only [pc] at step
      cases step
      exact .claim e pc
  | onActStage =>
      simp only [pc] at step
      cases step
      exact .actStage pc
  | onActBlock =>
      simp only [pc] at step
      cases step
      exact .actBlock pc
  | onActReadType =>
      simp only [pc] at step
      cases step
      exact .silent _ (.readType pc)
  | onActSignal t id =>
      simp only [pc] at step
      cases step
      exact .actSignal t id pc
  | handleEvent e =>
      simp only [pc] at step
      cases step
      exact .install e pc
  | spawnCheck =>
      simp only [pc] at step
      split at step <;> cases step
      case h_1 k busy handle => exact .spawnKill k pc busy handle
      case h_2 idle =>
        refine .silent _ (.spawnFree pc ?_)
        rcases running : c.initMasterRunning with _ | _
        · exact .inl rfl
        · rcases handle : c.thInitMaster with _ | k
          · exact .inr rfl
          · exact absurd handle (idle k running)
  | spawnJoin k =>
      simp only [pc] at step
      split at step
      case isTrue ended =>
        cases step
        exact .spawnJoined k pc ended
      case isFalse => cases step
  | spawnCreate =>
      simp only [pc] at step
      split at step
      case isTrue created =>
        cases step
        exact .spawned pc created
      case isFalse failed =>
        cases step
        exact .spawnFailed pc (by simpa using failed)
  | busyPeekFifo pri =>
      simp only [pc] at step
      split at step <;> cases step
      case h_1 none => exact .silent _ (.nothingNew pri pc (List.head?_eq_none_iff.mp none))
      case h_2 f head => exact .silent _ (.peekBusy pri f pc head)
  | readStage pri f =>
      simp only [pc] at step
      cases step
      split
      case isTrue stage => exact .silent _ (.stageInit pri f pc stage)
      case isFalse stage => exact .silent _ (.stageOther pri f pc stage)
  | readDir pri f =>
      simp only [pc] at step
      cases step
      split
      case isTrue allowed => exact .silent _ (.preempt pri f pc allowed.1 allowed.2)
      case isFalse blocked => exact .silent _ (.noPreempt pri f pc blocked)
  | killCurrent =>
      simp only [pc] at step
      split at step <;> cases step
      case h_1 k handle => exact .kill k pc handle
      case h_2 handle => exact .killNone pc handle
  | killJoin k =>
      simp only [pc] at step
      split at step
      case isTrue ended =>
        cases step
        exact .killJoined k pc ended
      case isFalse => cases step
  | readPrev =>
      simp only [pc] at step
      cases step
      exact .silent _ (.readPrev pc)
  | clearSlot prev =>
      simp only [pc] at step
      cases step
      exact .clear prev pc
  | pushPrev prev =>
      simp only [pc] at step
      cases step
      rcases pushWait_cases c.q prev ok with
        ⟨success, heap, stored, pushed⟩ | ⟨failure, failed, unchanged⟩
      · rw [pushed, if_pos success]
        exact .storePrev prev heap pc stored
      · rw [unchanged, if_neg failure]
        exact .losePrev prev pc failed
  | popPreempting =>
      simp only [pc, Queue.popReady] at step
      split at step <;> cases step
      case h_2 e rest head => exact .popReady e rest (.inr pc) head
  | popBlocked =>
      simp only [pc, Queue.popReady] at step
      split at step
      case h_1 => cases step
      case h_2 f rest head =>
        cases dir : f.dir with
        | master =>
            simp only [Option.map_some, dir] at step
            cases step
            exact .popBlocked f rest pc head dir
        | slave =>
            simp only [Option.map_some, dir] at step
            cases step
            exact .drop f rest pc head dir
  | parkBlocked f =>
      simp only [pc] at step
      cases step
      rcases pushWait_cases c.q f ok with
        ⟨success, heap, stored, pushed⟩ | ⟨failure, failed, unchanged⟩
      · rw [pushed, if_pos success]
        exact .park f heap pc stored
      · rw [unchanged, if_neg failure]
        exact .loseBlocked f pc failed
  | exited => simp [pc] at step

/-- A return from a wait of the scheduler, by cases on its program point. -/
theorem schedReturn_cases {c c' : Ctx} (step : c.schedReturn = some c')
    : (c.sched = .asleepNonempty ∧ c' = { c with sched := .waitNonempty })
      ∨ (c.sched = .asleepForFifo ∧ c' = { c with sched := .waitForFifo }) := by
  unfold schedReturn at step
  cases pc : c.sched with
  | asleepNonempty =>
      simp only [pc] at step
      exact .inl ⟨rfl, (Option.some.inj step).symm⟩
  | asleepForFifo =>
      simp only [pc] at step
      exact .inr ⟨rfl, (Option.some.inj step).symm⟩
  | _ => simp [pc] at step

-----------------------------------------------------------------------------------------
-- The master-init threads
-----------------------------------------------------------------------------------------

/-- The context after thread `k` went on to another program point. -/
def setInit (c : Ctx) (k : Nat) (t : InitThread) (pc : InitPc) : Ctx :=
  { c with initThreads := c.initThreads.set k { t with pc := pc } }

section Fields

variable (c : Ctx) (k : Nat) (t : InitThread) (pc : InitPc)

@[simp]
theorem setInit_q : (c.setInit k t pc).q = c.q := rfl

@[simp]
theorem setInit_exec : (c.setInit k t pc).exec = c.exec := rfl

@[simp]
theorem setInit_sched : (c.setInit k t pc).sched = c.sched := rfl

@[simp]
theorem setInit_running : (c.setInit k t pc).initMasterRunning = c.initMasterRunning := rfl

@[simp]
theorem setInit_log : (c.setInit k t pc).log = c.log := rfl

@[simp]
theorem setInit_threads
    : (c.setInit k t pc).initThreads = c.initThreads.set k { t with pc := pc } := rfl

end Fields

/-- Moves of a master-init thread that change nothing but its own program point. -/
inductive InitWalk (c : Ctx) : InitPc → InitPc → Prop where
  | snapshot : InitWalk c .snapshot (.ackWait 0)
  | tick (elapsed : Nat) (go : c.stop = false)
      : InitWalk c (.ackWait elapsed) (.ackWait (elapsed + 60))
  | stopped (elapsed : Nat) (stop : c.stop = true) : InitWalk c (.ackWait elapsed) .clearRunning
  | acknowledged (elapsed : Nat) (late : ackTimeoutMs ≤ elapsed)
      : InitWalk c (.ackWait elapsed) .updateStage
  | readType : InitWalk c .readType (.signal c.q.execEvent.type c.q.execEvent.id)

/-- The moves of the master-init thread `k`, which is `t` before the step. -/
inductive InitMove (c : Ctx) (k : Nat) (t : InitThread) : Ctx → Prop where
  | walk (old new : InitPc) (pc : t.pc = old) (walk : InitWalk c old new)
      : InitMove c k t (c.setInit k t new)
  | stage (pc : t.pc = .updateStage)
      : InitMove c k t { c.setInit k t .setBlocking with q := c.q.updateStage .exec }
  | block (pc : t.pc = .setBlocking)
      : InitMove c k t { c.setInit k t .readType with q := c.q.setBlocking true }
  | signal (type : EventType) (id : Nat) (pc : t.pc = .signal type id)
      : InitMove c k t {
          c.setInit k t .clearRunning with exec := c.exec.signal type c.role id
        }
  | clear (pc : t.pc = .clearRunning)
      : InitMove c k t { c.setInit k t .finished with initMasterRunning := false }

/-- Every step of a master-init thread is one of its moves, by cases on its program point. -/
theorem initStep_move {c c' : Ctx} {k : Nat} (step : c.initStep k = some c')
    : ∃ t, c.initThreads[k]? = some t ∧ InitMove c k t c' := by
  unfold initStep at step
  cases found : c.initThreads[k]? with
  | none => simp [found] at step
  | some t =>
      refine ⟨t, rfl, ?_⟩
      simp only [found] at step
      cases pc : t.pc with
      | snapshot =>
          simp only [pc] at step
          cases step
          exact .walk _ _ pc .snapshot
      | ackWait elapsed =>
          simp only [pc] at step
          split at step
          case isTrue early =>
            split at step
            case isTrue stop =>
              cases step
              exact .walk _ _ pc (.stopped elapsed stop)
            case isFalse go =>
              cases step
              exact .walk _ _ pc (.tick elapsed (by simpa using go))
          case isFalse late =>
            cases step
            exact .walk _ _ pc (.acknowledged elapsed (by omega))
      | updateStage =>
          simp only [pc] at step
          cases step
          exact .stage pc
      | setBlocking =>
          simp only [pc] at step
          cases step
          exact .block pc
      | readType =>
          simp only [pc] at step
          cases step
          exact .walk _ _ pc .readType
      | signal type id =>
          simp only [pc] at step
          cases step
          exact .signal type id pc
      | clearRunning =>
          simp only [pc] at step
          cases step
          exact .clear pc
      | finished => simp [pc] at step
      | killed => simp [pc] at step

/-- A cancellation kills a thread that is still running. -/
theorem cancelEffect_cases {c c' : Ctx} {k : Nat} (step : c.cancelEffect k = some c')
    : ∃ t, c.initThreads[k]? = some t ∧ t.cancelled = true ∧ c.dead k = false
        ∧ c' = c.setInit k t .killed := by
  unfold cancelEffect at step
  cases found : c.initThreads[k]? with
  | none => simp [found] at step
  | some t =>
      simp only [found] at step
      split at step
      case isTrue pending =>
        exact ⟨t, rfl, pending.1, by simpa using pending.2, (Option.some.inj step).symm⟩
      case isFalse => cases step

-----------------------------------------------------------------------------------------
-- The dispatcher
-----------------------------------------------------------------------------------------

/-- The moves of the dispatcher with the two that belong to the notification. -/
inductive DispatchMove (c : Ctx) : Ctx → Prop where
  | inside (x : Exec) (move : Exec.DispatcherRule c.exec x)
      (pc : ∀ t ids, c.exec.dispatcher ≠ .notifyClear t ids)
      : DispatchMove c { c with exec := x }
  | clear (t : EventType) (ids : List Nat) (pc : c.exec.dispatcher = .notifyClear t ids)
      : DispatchMove c {
          c with
          exec := {
            c.exec with
            dispatcher := .notifyWake
            log := { c.exec.log with notified := c.exec.log.notified ++ [t] }
          }
          q := c.q.clearExecSlot
          log := {
            c.log with
            completed :=
              if c.q.hasExec then c.log.completed ++ [c.q.execEvent] else c.log.completed
          }
        }
  | wake (pc : c.exec.dispatcher = .notifyWake)
      : DispatchMove c { c with exec := { c.exec with dispatcher := .wait }, q := c.q.wake }

/-- Every step of the dispatcher is one of its moves, by cases on its program point. -/
theorem dispatcherStep_move {c c' : Ctx} (go : c.stop = false)
    (step : c.dispatcherStep = some c')
    : DispatchMove c c' := by
  unfold dispatcherStep at step
  rw [Option.map_eq_some_iff] at step
  obtain ⟨x, step, rfl⟩ := step
  rw [go] at step
  have move := Exec.dispatcherStep_rule step
  split
  case h_1 t ids pc =>
    cases move with
    | notifyClear t' ids' pc' =>
        obtain ⟨rfl, rfl⟩ : t = t' ∧ ids = ids' := by simpa [pc] using pc'
        exact .clear t ids pc
    | _ => simp_all
  case h_2 pc =>
    cases move with
    | notifyWake => exact .wake pc
    | _ => simp_all
  case h_3 other _ => exact .inside x move other

-----------------------------------------------------------------------------------------
-- All threads
-----------------------------------------------------------------------------------------

/-- The event that an injection stores. -/
def arrival (c : Ctx) (type : EventType) (dir : EventDir) (payload : Nat) : Event where
  type := type
  dir := dir
  priority := priorityOf type
  stage := .pending
  payload := payload
  seq := c.q.seqCounter + 1
  id := c.log.attempts + 1

/-- The moves of all threads and of the environment. The workers and the returning waits of
the execution layer are `quiet` here.
-/
inductive Move (c : Ctx) : Action → Ctx → Prop where
  | arrive (type : EventType) (dir : EventDir) (payload : Nat)
      : Move c (.inject type dir payload true) {
          c with
          q := {
            c.q with
            fifo := c.q.fifo ++ [c.arrival type dir payload]
            seqCounter := c.q.seqCounter + 1
            cv := c.q.cv.signal
          }
          log := {
            c.log with
            attempts := c.log.attempts + 1
            injected := c.log.injected ++ [c.arrival type dir payload]
            underBlock :=
              if dir = .slave ∧ c.q.hardBlocking = true then
                c.log.underBlock ++ [c.log.attempts + 1]
              else c.log.underBlock
          }
        }
  | reject (type : EventType) (dir : EventDir) (payload : Nat)
      : Move c (.inject type dir payload false) {
          c with
          q := { c.q with seqCounter := c.q.seqCounter + 1 }
          log := { c.log with attempts := c.log.attempts + 1 }
        }
  | sched (ok : Bool) (c' : Ctx) (move : SchedMove c ok c') : Move c (.sched ok) c'
  | wakeNonempty (pc : c.sched = .asleepNonempty)
      : Move c .schedReturn { c with sched := .waitNonempty }
  | wakeForFifo (pc : c.sched = .asleepForFifo)
      : Move c .schedReturn { c with sched := .waitForFifo }
  | init (k : Nat) (t : InitThread) (found : c.initThreads[k]? = some t) (c' : Ctx)
      (move : InitMove c k t c')
      : Move c (.init k) c'
  | cancel (k : Nat) (t : InitThread) (found : c.initThreads[k]? = some t)
      (pending : t.cancelled = true) (alive : c.dead k = false)
      : Move c (.cancel k) (c.setInit k t .killed)
  | dispatch (c' : Ctx) (move : DispatchMove c c') : Move c .dispatcher c'
  | quiet (action : Action) (x : Exec) (same : Exec.SameSignals c.exec x)
      : Move c action { c with exec := x }

/-- Every step without a stop request is one of the moves, by cases on the action. -/
theorem step_move {c c' : Ctx} {action : Action} (go : c.stop = false)
    (running : action ≠ .requestStop) (step : c.step action = some c')
    : Move c action c' := by
  cases action with
  | inject type dir payload mallocOk =>
      obtain rfl := Option.some.inj step
      cases mallocOk with
      | true => simpa [injectEvent, Queue.pushReady, Queue.numbered, Queue.counted, arrival]
          using Move.arrive type dir payload
      | false => simpa [injectEvent, Queue.pushReady, Queue.numbered, Queue.counted]
          using Move.reject type dir payload
  | sched ok => exact .sched ok c' (schedStep_move step)
  | schedReturn =>
      rcases schedReturn_cases step with ⟨pc, rfl⟩ | ⟨pc, rfl⟩
      · exact .wakeNonempty pc
      · exact .wakeForFifo pc
  | init k =>
      obtain ⟨t, found, move⟩ := initStep_move step
      exact .init k t found c' move
  | cancel k =>
      obtain ⟨t, found, pending, alive, rfl⟩ := cancelEffect_cases step
      exact .cancel k t found pending alive
  | dispatcher => exact .dispatch c' (dispatcherStep_move go step)
  | dispatcherReturn =>
      obtain ⟨x, inner, rfl⟩ := Option.map_eq_some_iff.mp step
      exact .quiet _ x (Exec.dispatcherReturn_sameSignals inner)
  | worker i =>
      obtain ⟨x, inner, rfl⟩ := Option.map_eq_some_iff.mp step
      rw [go] at inner
      exact .quiet _ x (Exec.workerStep_rule inner).sameSignals
  | workerReturn i =>
      obtain ⟨x, inner, rfl⟩ := Option.map_eq_some_iff.mp step
      exact .quiet _ x (Exec.workerReturn_sameSignals inner)
  | requestStop => exact absurd rfl running

/-- No move sets the stop flag, by cases on the move. -/
theorem Move.stop {c c' : Ctx} {action : Action} (go : c.stop = false)
    (move : Move c action c')
    : c'.stop = false := by
  cases move with
  | sched ok c' move => cases move <;> first | exact go | rfl
  | init k t found c' move => cases move <;> exact go
  | dispatch c' move => cases move <;> exact go
  | _ => exact go

/-- Every move keeps the signals tagged with their events, by cases on the move. -/
theorem Move.tagged {c c' : Ctx} {action : Action} (move : Move c action c')
    (now : c.exec.Tagged)
    : c'.exec.Tagged := by
  cases move with
  | sched ok c' move =>
      cases move with
      | actSignal t id pc => exact now.signal t c.role id
      | _ => exact now
  | init k t found c' move =>
      cases move with
      | signal type id pc => exact now.signal type c.role id
      | _ => exact now
  | dispatch c' move =>
      cases move with
      | inside x move busy => exact move.tagged now
      | clear t ids pc => exact Exec.DispatcherRule.tagged (.notifyClear t ids pc) now
      | wake pc => exact Exec.DispatcherRule.tagged (.notifyWake pc) now
  | quiet action x same => exact same.tagged now
  | _ => exact now

end Ctx

section Runs

open QKeySys.Library

variable {role : Role} {cond : Ctx → Action → Prop}

/-- Nobody requests a stop, so the flag stays clear. -/
theorem runsWhen_go {c : Ctx} (reached : (runsWhen role cond).Reachable c)
    : c.stop = false := by
  refine Lts.Reachable.induct (fun c => c.stop = false) ?_ ?_ reached
  · rintro _ rfl
    rfl
  · rintro c action c' - go ⟨⟨running, -⟩, taken⟩
    exact (Ctx.step_move go running taken).stop go

/-- Induction over the reachable states, with one case for each move. -/
theorem runsWhen_induct (holds : Ctx → Prop) (init : holds (Ctx.init role))
    (step : ∀ c action c', (runsWhen role cond).Reachable c → holds c → cond c action →
      Ctx.Move c action c' → holds c')
    {c : Ctx} (reached : (runsWhen role cond).Reachable c)
    : holds c := by
  refine Lts.Reachable.induct holds ?_ ?_ reached
  · rintro _ rfl
    exact init
  · rintro c action c' reached now ⟨⟨running, met⟩, taken⟩
    exact step c action c' reached now met
      (Ctx.step_move (runsWhen_go reached) running taken)

/-- The signals are always tagged with their events. -/
theorem runsWhen_tagged {c : Ctx} (reached : (runsWhen role cond).Reachable c)
    : c.exec.Tagged :=
  runsWhen_induct (fun c => c.exec.Tagged) Exec.init_tagged
    (fun _ _ _ _ now _ move => move.tagged now) reached

end Runs

end QKeySys.Core
