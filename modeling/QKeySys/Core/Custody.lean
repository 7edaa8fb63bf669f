import QKeySys.Core.Threads

/-! Who holds the execution slot: nobody, a MASTER in its Init window, its init thread on the
way to the signal, the scheduler on behalf of a SLAVE, or the execution itself.
-/

namespace QKeySys.Core

open QKeySys.Library

-----------------------------------------------------------------------------------------
-- Parts of the code
-----------------------------------------------------------------------------------------

/-- The init thread has not switched the stage yet. -/
def InitPc.early : InitPc → Bool
  | .snapshot | .ackWait _ | .updateStage => true
  | _ => false

/-- The init thread has switched the stage and not given the signal yet. -/
def InitPc.acting : InitPc → Bool
  | .setBlocking | .readType | .signal _ _ => true
  | _ => false

/-- What a part of the scheduler loop relies on: a slot it knows to be free (`choosing`, or
`taking` with an event in hand or the preempted one just removed), a MASTER in its Init
window, or its own SLAVE.
-/
inductive Region where
  | outside
  | choosing
  | taking
  | window
  | slave
  deriving DecidableEq

namespace SchedPc

/-- The Init window is relied on from the decision to preempt on. -/
def region : SchedPc → Region
  | freePeekFifo | freePeekWait _ | freePopReady | freePopWait => .choosing
  | acceptAndClaim _ | handleEvent _ | pushPrev _ | popPreempting => .taking
  | readDir pri f => if Ctx.canPreempt pri f then .window else .outside
  | spawnCheck | spawnJoin _ | spawnCreate => .window
  | killCurrent | killJoin _ | readPrev | clearSlot _ => .window
  | onActStage | onActBlock | onActReadType | onActSignal _ _ => .slave
  | _ => .outside

/-- The scheduler has installed a MASTER and not started its init thread yet. -/
def spawning : SchedPc → Bool
  | spawnCheck | spawnJoin _ | spawnCreate => true
  | _ => false

/-- The scheduler has decided to preempt and has not yet joined the init thread. -/
def preempting : SchedPc → Bool
  | readDir pri f => Ctx.canPreempt pri f
  | killCurrent | killJoin _ => true
  | _ => false

/-- The direction of the event in hand fits what will be done with it. -/
def Sorted : SchedPc → Prop
  | handleEvent e | pushPrev e | parkBlocked e => e.dir = .master
  | acceptAndClaim e => e.dir = .slave
  | _ => True

end SchedPc

theorem dispose_sorted (e : Event) : (Ctx.dispose e).Sorted := by
  cases dir : e.dir <;> simp [Ctx.dispose, dir, SchedPc.Sorted]

@[simp]
theorem dispose_region (e : Event) : (Ctx.dispose e).region = .taking := by
  cases dir : e.dir <;> simp [Ctx.dispose, dir, SchedPc.region]

@[simp]
theorem dispose_spawning (e : Event) : (Ctx.dispose e).spawning = false := by
  cases dir : e.dir <;> simp [Ctx.dispose, dir, SchedPc.spawning]

-----------------------------------------------------------------------------------------
-- The holder of the slot
-----------------------------------------------------------------------------------------

/-- Who is responsible for the execution slot. -/
inductive Holder where
  | nobody
  | window
  | acting
  | slave
  | running
  deriving DecidableEq

/-- The parts of the scheduler loop that go with a holder. -/
def Holder.allows : Holder → Region → Bool
  | nobody, .outside | nobody, .choosing | nobody, .taking => true
  | window, .outside | window, .window => true
  | acting, .outside => true
  | slave, .slave => true
  | running, .outside => true
  | _, _ => false

namespace Ctx

variable {c c' : Ctx}

/-- No init thread is between its start and its signal. -/
def QuietThreads (threads : List InitThread) : Prop :=
  ∀ (k : Nat) (t : InitThread), threads[k]? = some t →
    t.pc.early = false ∧ t.pc.acting = false

/-- An init thread before its signal works for the event in the slot. -/
structure ThreadsServe (holder : Holder) (c : Ctx) : Prop where
  early
    : ∀ (k : Nat) (t : InitThread), c.initThreads[k]? = some t → t.pc.early = true →
        holder = .window ∧ c.sched.spawning = false ∧ t.owner = c.q.execEvent.id
  acting
    : ∀ (k : Nat) (t : InitThread), c.initThreads[k]? = some t → t.pc.acting = true →
        holder = .acting ∧ t.owner = c.q.execEvent.id
  signal
    : ∀ (k : Nat) (t : InitThread) (type : EventType) (id : Nat),
        c.initThreads[k]? = some t → t.pc = .signal type id →
        type = c.q.execEvent.type ∧ id = c.q.execEvent.id

/-- The given holder is responsible for the slot. -/
structure HeldBy (holder : Holder) (c : Ctx) : Prop where
  hasExec : c.q.hasExec = decide (holder ≠ .nobody)
  region : holder.allows c.sched.region = true
  notInit : holder = .nobody → c.sched.region ≠ .taking → c.q.execEvent.stage ≠ .init
  window : holder = .window → c.q.execEvent.stage = .init ∧ c.q.execEvent.dir = .master
  exec : holder = .acting ∨ holder = .running → c.q.execEvent.stage = .exec
  slave
    : holder = .slave → c.q.execEvent.dir = .slave
        ∧ (c.sched ≠ .onActStage → c.q.execEvent.stage = .exec)
  slaveSignal
    : ∀ (t : EventType) (id : Nat), c.sched = .onActSignal t id →
        t = c.q.execEvent.type ∧ id = c.q.execEvent.id
  prev : ∀ (prev : Event), c.sched = .clearSlot prev → prev = c.q.execEvent
  sorted : c.sched.Sorted
  inFlight : c.exec.inFlight = if holder = .running then [c.q.execEvent.id] else []
  threads : ThreadsServe holder c

/-- Somebody, or nobody, is responsible for the slot. -/
def Held (c : Ctx) : Prop := ∃ holder, c.HeldBy holder

/-- An init thread does not switch the stage between the decision to preempt and the end of
the thread.
-/
def actsInTime (c : Ctx) : Action → Prop
  | .init k =>
      c.sched.preempting = true →
        ∀ t, c.initThreads[k]? = some t → t.pc ≠ .updateStage
  | _ => True

/-- Quiet threads serve any holder. -/
theorem QuietThreads.serve {threads : List InitThread} (quiet : QuietThreads threads)
    (same : c.initThreads = threads) {holder : Holder}
    : ThreadsServe holder c := by
  subst same
  constructor
  · intro k t found early
    simp [(quiet k t found).1] at early
  · intro k t found acting
    simp [(quiet k t found).2] at acting
  · intro k t type id found pc
    have acting := (quiet k t found).2
    simp [pc, InitPc.acting] at acting

/-- Threads that have all ended are quiet. -/
theorem QuietThreads.of_ended {threads : List InitThread}
    (ended : ∀ (k : Nat) (t : InitThread), threads[k]? = some t → t.pc.ended = true)
    : QuietThreads threads := by
  intro k t found
  have last := ended k t found
  cases pc : t.pc <;> simp [pc, InitPc.ended, InitPc.early, InitPc.acting] at last ⊢

/-- Beside a running thread all others are quiet. -/
theorem OneThread.others_quiet (threads : c.OneThread) {k : Nat}
    {t : InitThread} (found : c.initThreads[k]? = some t) (alive : t.pc.ended = false)
    {k' : Nat} {t' : InitThread} (found' : c.initThreads[k']? = some t') (other : k' ≠ k)
    : t'.pc.early = false ∧ t'.pc.acting = false := by
  have ended : t'.pc.ended = true := by
    cases alive' : t'.pc.ended with
    | true => rfl
    | false => exact absurd (threads.unique found' alive' found alive) other
  cases pc : t'.pc <;> simp [pc, InitPc.ended, InitPc.early, InitPc.acting] at ended ⊢

theorem init_held (role : Role) : (Ctx.init role).Held := by
  refine ⟨.nobody, ?_⟩
  constructor
  case threads =>
    have quiet : QuietThreads [] := by simp [QuietThreads]
    exact quiet.serve (by rfl)
  all_goals simp [Ctx.init, Queue.init, Event.zero, SchedPc.region, Holder.allows,
    SchedPc.Sorted, Exec.init_inFlight]

namespace HeldBy

variable {holder : Holder}

/-- While the dispatcher notifies, the slot holds exactly the event it notifies of. -/
theorem clearing (now : c.HeldBy holder) (tagged : c.exec.Tagged) {t : EventType}
    {ids : List Nat} (pc : c.exec.dispatcher = .notifyClear t ids)
    : holder = .running ∧ ids = [c.q.execEvent.id] ∧ c.exec.pendingIds = [] := by
  have work : ids ≠ [] := by
    simpa [pc, DispatcherPc.working, DispatcherPc.ids] using tagged.work
  have flight := now.inFlight
  simp only [Exec.inFlight, pc, DispatcherPc.ids] at flight
  split at flight
  case isTrue running =>
    refine ⟨running, ?_⟩
    cases ids with
    | nil => cases work rfl
    | cons id rest => simp_all
  case isFalse => simp [work] at flight

/-- Only the window and the acting thread have a thread before its signal. -/
theorem quiet (now : c.HeldBy holder) (noWindow : holder ≠ .window)
    (noActing : holder ≠ .acting)
    : QuietThreads c.initThreads := by
  intro k t found
  constructor
  · cases early : t.pc.early with
    | false => rfl
    | true => exact absurd (now.threads.early k t found early).1 noWindow
  · cases acting : t.pc.acting with
    | false => rfl
    | true => exact absurd (now.threads.acting k t found acting).1 noActing

/-- In the regions that rely on a free slot nobody holds it. -/
theorem nobody (now : c.HeldBy holder)
    (region : c.sched.region = .choosing ∨ c.sched.region = .taking)
    : holder = .nobody := by
  have allowed := now.region
  cases holder <;> rcases region with region | region <;>
    simp [region, Holder.allows] at allowed ⊢

/-- In the regions that rely on the Init window a MASTER in its Init window holds it. -/
theorem isWindow (now : c.HeldBy holder) (region : c.sched.region = .window)
    : holder = .window := by
  have allowed := now.region
  cases holder <;> simp [region, Holder.allows] at allowed ⊢

/-- In the region of the SLAVE path a SLAVE holds it. -/
theorem isSlave (now : c.HeldBy holder) (region : c.sched.region = .slave)
    : holder = .slave := by
  have allowed := now.region
  cases holder <;> simp [region, Holder.allows] at allowed ⊢

/-- The holder depends on the slot, the signals, the scheduler and the threads only. -/
theorem same (now : c.HeldBy holder) (hasExec : c'.q.hasExec = c.q.hasExec)
    (event : c'.q.execEvent = c.q.execEvent) (exec : c'.exec = c.exec)
    (sched : c'.sched = c.sched) (threads : c'.initThreads = c.initThreads)
    : c'.HeldBy holder := by
  have serve : ThreadsServe holder c' := by
    constructor <;> simp only [threads, event, sched]
    · exact now.threads.early
    · exact now.threads.acting
    · exact now.threads.signal
  constructor
  case threads => exact serve
  all_goals simp only [hasExec, event, exec, sched]
  · exact now.hasExec
  · exact now.region
  · exact now.notInit
  · exact now.window
  · exact now.exec
  · exact now.slave
  · exact now.slaveSignal
  · exact now.prev
  · exact now.sorted
  · exact now.inFlight

-----------------------------------------------------------------------------------------
-- Moves of the scheduler
-----------------------------------------------------------------------------------------

/-- A move of the scheduler's program point keeps the holder when the new point relies on
nothing else.
-/
theorem goto (now : c.HeldBy holder) {next : SchedPc}
    (region : holder.allows next.region = true)
    (taking : c.sched.region = .taking → next.region = .taking)
    (spawning : next.spawning = true → c.sched.spawning = true)
    (acted : c.sched = .onActStage → holder ≠ .slave)
    (signal
      : ∀ t id, next = .onActSignal t id →
          t = c.q.execEvent.type ∧ id = c.q.execEvent.id)
    (prev : ∀ prev, next = .clearSlot prev → prev = c.q.execEvent) (sorted : next.Sorted)
    : HeldBy holder { c with sched := next } := {
  now with
  region := region
  notInit := fun free other => now.notInit free (fun same => other (taking same))
  slave := fun slave =>
    ⟨(now.slave slave).1, fun _ => (now.slave slave).2 (fun pc => acted pc slave)⟩
  slaveSignal := signal
  prev := prev
  sorted := sorted
  threads := {
    now.threads with
    early := fun k t found early => by
      obtain ⟨window, quiet, owner⟩ := now.threads.early k t found early
      refine ⟨window, ?_, owner⟩
      cases busy : next.spawning with
      | false => rfl
      | true => simp [spawning busy] at quiet
  }
}

/-- Between two program points that rely on nothing the holder stays. -/
theorem outside (now : c.HeldBy holder) (before : c.sched.region = .outside)
    (after : c'.sched.region = .outside) (sorted : c'.sched.Sorted)
    (hasExec : c'.q.hasExec = c.q.hasExec)
    (event : c'.q.execEvent = c.q.execEvent) (exec : c'.exec = c.exec)
    (threads : c'.initThreads = c.initThreads)
    : c'.HeldBy holder := by
  have region := now.region
  rw [before, ← after] at region
  refine (now.goto region (by simp [before]) ?_ ?_ ?_ ?_ sorted).same hasExec event exec rfl
    threads
  · intro spawning
    cases pc : c'.sched <;> simp [pc, SchedPc.region, SchedPc.spawning] at after spawning
  · intro pc
    simp [pc, SchedPc.region] at before
  · intro t id pc
    simp [pc, SchedPc.region] at after
  · intro prev pc
    simp [pc, SchedPc.region] at after

/-- Silent moves keep the holder, by cases on the move: where the scheduler starts to rely
on something, the branch it took has just tested it.
-/
theorem silent (now : c.HeldBy holder) {next : SchedPc} (move : SilentMove c next)
    : HeldBy holder { c with sched := next } := by
  have region := now.region
  cases move with
  | free pri pc free =>
      have nobody : holder = .nobody := by simpa [free] using now.hasExec
      refine now.goto ?_ ?_ ?_ ?_ ?_ ?_ trivial <;>
        simp [nobody, pc, SchedPc.region, Holder.allows, SchedPc.spawning]
  | nothing pc empty =>
      obtain rfl := now.nobody (.inl (by rw [pc]; rfl))
      refine now.goto rfl ?_ ?_ ?_ ?_ ?_ trivial <;> simp [pc, SchedPc.region, SchedPc.spawning]
  | stageInit pri f pc stage =>
      have window : holder = .window := by
        cases holder with
        | window => rfl
        | nobody => exact absurd stage (now.notInit rfl (by simp [pc, SchedPc.region]))
        | acting => simp [now.exec (.inl rfl)] at stage
        | running => simp [now.exec (.inr rfl)] at stage
        | slave => simp [pc, SchedPc.region, Holder.allows] at region
      refine now.goto ?_ ?_ ?_ ?_ ?_ ?_ trivial
      · rw [window, SchedPc.region]
        split <;> rfl
      all_goals simp [pc, SchedPc.region, SchedPc.spawning]
  | noPreempt pri f pc blocked =>
      refine now.goto ?_ ?_ ?_ ?_ ?_ ?_ trivial
      · rw [pc, SchedPc.region] at region
        split at region <;> cases holder <;> simp_all [Holder.allows, SchedPc.region]
      · rw [pc, SchedPc.region]
        split <;> simp
      all_goals simp [pc, SchedPc.spawning]
  | _ =>
      refine now.goto ?_ ?_ ?_ ?_ ?_ ?_ trivial <;>
        simp_all [SchedPc.region, SchedPc.spawning]

/-- A cancelled or joined thread is where it was before. -/
theorem sameThreads (now : c.HeldBy holder) {threads : List InitThread}
    (same
      : ∀ (k : Nat) (t' : InitThread), threads[k]? = some t' →
          ∃ t, c.initThreads[k]? = some t ∧ t'.pc = t.pc ∧ t'.owner = t.owner)
    : HeldBy holder { c with initThreads := threads } := {
  now with
  threads := {
    early := fun k t' found early => by
      obtain ⟨t, found, pc, owner⟩ := same k t' found
      rw [owner]
      exact now.threads.early k t found (pc ▸ early)
    acting := fun k t' found acting => by
      obtain ⟨t, found, pc, owner⟩ := same k t' found
      rw [owner]
      exact now.threads.acting k t found (pc ▸ acting)
    signal := fun k t' type id found at_signal => by
      obtain ⟨t, found, pc, -⟩ := same k t' found
      exact now.threads.signal k t type id found (pc ▸ at_signal)
  }
}

/-- While nobody holds the slot the scheduler may take up an event. -/
theorem taking (now : c.HeldBy .nobody) (after : c'.sched.region = .taking)
    (sorted : c'.sched.Sorted) (hasExec : c'.q.hasExec = c.q.hasExec)
    (event : c'.q.execEvent = c.q.execEvent) (exec : c'.exec = c.exec)
    (threads : c'.initThreads = c.initThreads)
    : c'.HeldBy .nobody := by
  refine (now.goto (by rw [after]; rfl) (fun _ => after) ?_ (by simp) ?_ ?_ sorted).same
    hasExec event exec rfl threads
  · intro spawning
    cases pc : c'.sched <;> simp [pc, SchedPc.region, SchedPc.spawning] at after spawning
  · intro t id pc
    simp [pc, SchedPc.region] at after
  · intro prev pc
    simp [pc, SchedPc.region] at after

/-- Inside the window the scheduler works on the init thread. -/
theorem inWindow (now : c.HeldBy .window) (before : c.sched.region = .window)
    (region : c'.sched.region = .window ∨ c'.sched.region = .outside)
    (spawning : c'.sched.spawning = true → c.sched.spawning = true)
    (prev : ∀ prev, c'.sched = .clearSlot prev → prev = c.q.execEvent)
    (sorted : c'.sched.Sorted) (q : c'.q = c.q) (exec : c'.exec = c.exec)
    (threads
      : ∀ (k : Nat) (t' : InitThread), c'.initThreads[k]? = some t' →
          ∃ t, c.initThreads[k]? = some t ∧ t'.pc = t.pc ∧ t'.owner = t.owner)
    : c'.HeldBy .window := by
  have next : HeldBy .window { c with sched := c'.sched } := by
    refine now.goto ?_ (by simp [before]) spawning (by simp) ?_ prev sorted
    · rcases region with region | region <;> rw [region] <;> rfl
    · intro t id pc
      simp [pc, SchedPc.region] at region
  exact (next.sameThreads threads).same (by rw [q]) (by rw [q]) exec rfl rfl

/-- Installing a SLAVE hands the slot to the scheduler itself. -/
theorem claim (now : c.HeldBy .nobody) (e : Event)
    : HeldBy .slave {
        c with q := c.q.setExecSlot (claimed e) .iwait true, sched := .onActStage
      } := by
  constructor
  case threads => exact (now.quiet (by simp) (by simp)).serve (by rfl)
  case inFlight => simpa using now.inFlight
  all_goals simp [SchedPc.region, Holder.allows, claimed, SchedPc.Sorted]

/-- Switching the SLAVE's stage keeps the scheduler responsible. -/
theorem actStage (now : c.HeldBy .slave)
    : HeldBy .slave { c with q := c.q.updateStage .exec, sched := .onActBlock } := by
  have occupied : c.q.hasExec = true := by simpa using now.hasExec
  constructor
  case threads => exact (now.quiet (by simp) (by simp)).serve (by rfl)
  case inFlight => simpa using now.inFlight
  case slave => simp [(now.slave rfl).1, Queue.updateStage_execEvent, occupied]
  all_goals simp [SchedPc.region, Holder.allows, SchedPc.Sorted, occupied]

/-- The signal of a SLAVE hands the slot to its execution. -/
theorem actSignal (now : c.HeldBy .slave) {t : EventType} {id : Nat}
    (pc : c.sched = .onActSignal t id)
    : HeldBy .running { c with exec := c.exec.signal t c.role id, sched := .loopTop } := by
  obtain ⟨rfl, rfl⟩ := now.slaveSignal t id pc
  constructor
  case threads => exact (now.quiet (by simp) (by simp)).serve (by rfl)
  case inFlight => simp [now.inFlight]
  case exec => exact fun _ => (now.slave rfl).2 (by simp [pc])
  all_goals simp [SchedPc.region, Holder.allows, SchedPc.Sorted, now.hasExec]

/-- Installing a MASTER opens its Init window. -/
theorem install (now : c.HeldBy .nobody) {e : Event} (master : e.dir = .master)
    : HeldBy .window {
        c with
        q := c.q.setExecSlot e .init false
        sched := if e.dir = .master then .spawnCheck else .loopTop
      } := by
  rw [if_pos master]
  constructor
  case threads => exact (now.quiet (by simp) (by simp)).serve (by rfl)
  case inFlight => simpa using now.inFlight
  all_goals simp [SchedPc.region, Holder.allows, SchedPc.Sorted, master]

/-- The new thread serves the event in the slot; all earlier ones have ended. -/
theorem spawned (now : c.HeldBy .window) (threads : c.OneThread)
    (pc : c.sched = .spawnCreate)
    : HeldBy .window {
        c with
        initMasterRunning := true
        initThreads := c.initThreads ++ [c.newThread]
        thInitMaster := some c.initThreads.length
        sched := .loopTop
      } := by
  have others := QuietThreads.of_ended (threads.alone (by rw [pc]; rfl))
  have next : HeldBy .window { c with sched := .loopTop } :=
    now.inWindow (by rw [pc]; rfl) (.inr rfl) (by simp [SchedPc.spawning]) (by simp) trivial
      rfl rfl (fun _ t found => ⟨t, found, rfl, rfl⟩)
  have serve : ThreadsServe .window {
      c with initThreads := c.initThreads ++ [c.newThread], sched := .loopTop } := by
    constructor
    · intro k t found early
      rcases spawned_found found with ⟨rfl, rfl⟩ | found
      · exact ⟨rfl, rfl, rfl⟩
      · simp [(others k t found).1] at early
    · intro k t found acting
      rcases spawned_found found with ⟨rfl, rfl⟩ | found
      · simp [newThread, InitPc.acting] at acting
      · simp [(others k t found).2] at acting
    · intro k t type id found at_signal
      rcases spawned_found found with ⟨rfl, rfl⟩ | found
      · simp [newThread] at at_signal
      · have acting := (others k t found).2
        simp [at_signal, InitPc.acting] at acting
  exact { next with threads := ⟨serve.early, serve.acting, serve.signal⟩ }

/-- Removing the preempted MASTER frees the slot. -/
theorem clear (now : c.HeldBy .window) (threads : c.OneThread) {prev : Event}
    (pc : c.sched = .clearSlot prev)
    : HeldBy .nobody { c with q := c.q.clearExecSlot, sched := .pushPrev prev } := by
  constructor
  case threads =>
    exact (QuietThreads.of_ended (threads.alone (by rw [pc]; rfl))).serve (by rfl)
  case inFlight => simpa using now.inFlight
  case sorted =>
    rw [now.prev prev pc]
    exact (now.window rfl).2
  all_goals simp [SchedPc.region, Holder.allows]

/-- The scheduler's own moves pass the slot on to a new holder, by cases on the move. -/
theorem sched (now : c.HeldBy holder) (threads : c.OneThread) {ok : Bool}
    (move : SchedMove c ok c')
    : c'.Held := by
  cases move with
  | start pc =>
      exact ⟨holder, now.outside (by rw [pc]; rfl) rfl trivial rfl rfl rfl rfl⟩
  | silent next move => exact ⟨holder, now.silent move⟩
  | sleepNonempty pc sleeps =>
      exact ⟨holder, now.outside (by rw [pc]; rfl) rfl trivial rfl rfl rfl rfl⟩
  | sleepForFifo pc sleeps =>
      exact ⟨holder, now.outside (by rw [pc]; rfl) rfl trivial rfl rfl rfl rfl⟩
  | popReady e rest pc head =>
      obtain rfl := now.nobody (by rcases pc with pc | pc <;> simp [pc, SchedPc.region])
      exact ⟨.nobody, now.taking (dispose_region e) (dispose_sorted e) rfl rfl rfl rfl⟩
  | popWait e heap pc popped =>
      obtain rfl := now.nobody (.inl (by rw [pc]; rfl))
      exact ⟨.nobody, now.taking (dispose_region e) (dispose_sorted e) rfl rfl rfl rfl⟩
  | claim e pc =>
      obtain rfl := now.nobody (.inr (by rw [pc]; rfl))
      exact ⟨.slave, now.claim e⟩
  | actStage pc =>
      obtain rfl := now.isSlave (by rw [pc]; rfl)
      exact ⟨.slave, now.actStage⟩
  | actBlock pc =>
      obtain rfl := now.isSlave (by rw [pc]; rfl)
      have next : HeldBy .slave { c with sched := .onActReadType } := by
        refine now.goto rfl ?_ ?_ ?_ ?_ ?_ trivial <;>
          simp [pc, SchedPc.region, SchedPc.spawning]
      exact ⟨.slave, next.same rfl rfl rfl rfl rfl⟩
  | actSignal t id pc =>
      obtain rfl := now.isSlave (by rw [pc]; rfl)
      exact ⟨.running, now.actSignal pc⟩
  | install e pc =>
      obtain rfl := now.nobody (.inr (by rw [pc]; rfl))
      have master : e.dir = .master := by simpa [pc, SchedPc.Sorted] using now.sorted
      exact ⟨.window, now.install master⟩
  | spawnKill k pc busy handle =>
      obtain rfl := now.isWindow (by rw [pc]; rfl)
      exact ⟨.window, now.inWindow (by rw [pc]; rfl) (.inl rfl) (by simp [pc, SchedPc.spawning])
        (by simp) trivial rfl rfl (fun _ _ => requestCancel_found)⟩
  | spawnJoined k pc ended =>
      obtain rfl := now.isWindow (by rw [pc]; rfl)
      exact ⟨.window, now.inWindow (by rw [pc]; rfl) (.inl rfl) (by simp [pc, SchedPc.spawning])
        (by simp) trivial rfl rfl (fun _ _ => join_found)⟩
  | spawned pc created =>
      obtain rfl := now.isWindow (by rw [pc]; rfl)
      exact ⟨.window, now.spawned threads pc⟩
  | spawnFailed pc failed =>
      obtain rfl := now.isWindow (by rw [pc]; rfl)
      exact ⟨.window, now.inWindow (by rw [pc]; rfl) (.inr rfl) (by simp [SchedPc.spawning])
        (by simp) trivial rfl rfl (fun _ t found => ⟨t, found, rfl, rfl⟩)⟩
  | kill k pc handle =>
      obtain rfl := now.isWindow (by rw [pc]; rfl)
      exact ⟨.window, now.inWindow (by rw [pc]; rfl) (.inl rfl) (by simp [SchedPc.spawning])
        (by simp) trivial rfl rfl (fun _ _ => requestCancel_found)⟩
  | killNone pc handle =>
      obtain rfl := now.isWindow (by rw [pc]; rfl)
      exact ⟨.window, now.inWindow (by rw [pc]; rfl) (.inl rfl) (by simp [SchedPc.spawning])
        (by simp) trivial rfl rfl (fun _ t found => ⟨t, found, rfl, rfl⟩)⟩
  | killJoined k pc ended =>
      obtain rfl := now.isWindow (by rw [pc]; rfl)
      exact ⟨.window, now.inWindow (by rw [pc]; rfl) (.inl rfl) (by simp [SchedPc.spawning])
        (by simp) trivial rfl rfl (fun _ _ => join_found)⟩
  | clear prev pc =>
      obtain rfl := now.isWindow (by rw [pc]; rfl)
      exact ⟨.nobody, now.clear threads pc⟩
  | storePrev prev heap pc stored =>
      obtain rfl := now.nobody (.inr (by rw [pc]; rfl))
      exact ⟨.nobody, now.taking rfl trivial rfl rfl rfl rfl⟩
  | losePrev prev pc failed =>
      obtain rfl := now.nobody (.inr (by rw [pc]; rfl))
      exact ⟨.nobody, now.taking rfl trivial rfl rfl rfl rfl⟩
  | popBlocked f rest pc head master =>
      exact ⟨holder, now.outside (by rw [pc]; rfl) rfl master rfl rfl rfl rfl⟩
  | drop f rest pc head slave =>
      exact ⟨holder, now.outside (by rw [pc]; rfl) rfl trivial rfl rfl rfl rfl⟩
  | park f heap pc stored =>
      exact ⟨holder, now.outside (by rw [pc]; rfl) rfl trivial rfl rfl rfl rfl⟩
  | loseBlocked f pc failed =>
      exact ⟨holder, now.outside (by rw [pc]; rfl) rfl trivial rfl rfl rfl rfl⟩

-----------------------------------------------------------------------------------------
-- Moves of the init threads
-----------------------------------------------------------------------------------------

/-- A thread that does not come closer to its signal keeps the holder. -/
theorem moveThread (now : c.HeldBy holder) {k : Nat} {t : InitThread} {pc : InitPc}
    (found : c.initThreads[k]? = some t) (early : pc.early = true → t.pc.early = true)
    (acting : pc.acting = true → t.pc.acting = true)
    (signal
      : ∀ type id, pc = .signal type id →
          type = c.q.execEvent.type ∧ id = c.q.execEvent.id)
    : HeldBy holder (c.setInit k t pc) := by
  have serve : ThreadsServe holder (c.setInit k t pc) := by
    constructor
    · intro k' t' found' early'
      rcases setInit_found found' with ⟨rfl, rfl⟩ | ⟨-, found'⟩
      · exact now.threads.early k' t found (early early')
      · exact now.threads.early k' t' found' early'
    · intro k' t' found' acting'
      rcases setInit_found found' with ⟨rfl, rfl⟩ | ⟨-, found'⟩
      · exact now.threads.acting k' t found (acting acting')
      · exact now.threads.acting k' t' found' acting'
    · intro k' t' type id found' at_signal
      rcases setInit_found found' with ⟨rfl, rfl⟩ | ⟨-, found'⟩
      · exact signal type id at_signal
      · exact now.threads.signal k' t' type id found' at_signal
  exact { now with threads := serve }

/-- Switching the stage in time closes the Init window. -/
theorem stage (now : c.HeldBy holder) (threads : c.OneThread) {k : Nat} {t : InitThread}
    (found : c.initThreads[k]? = some t) (pc : t.pc = .updateStage)
    (inTime : c.sched.preempting = false)
    : HeldBy .acting { c.setInit k t .setBlocking with q := c.q.updateStage .exec } := by
  obtain ⟨rfl, quiet, owner⟩ := now.threads.early k t found (by rw [pc]; rfl)
  have alive : t.pc.ended = false := by rw [pc]; rfl
  have occupied : c.q.hasExec = true := by simpa using now.hasExec
  have outside : c.sched.region = .outside := by
    have allowed := now.region
    have joined : c.sched.afterJoin = false := by
      cases joined : c.sched.afterJoin with
      | false => rfl
      | true => simp [threads.alone joined k t found] at alive
    cases at_pc : c.sched <;> simp_all [SchedPc.region, SchedPc.preempting, SchedPc.spawning,
      SchedPc.afterJoin, Holder.allows]
  have serve : ThreadsServe .acting
      { c.setInit k t .setBlocking with q := c.q.updateStage .exec } := by
    constructor
    · intro k' t' found' early'
      rcases setInit_found found' with ⟨rfl, rfl⟩ | ⟨other, found'⟩
      · cases early'
      · simp [(threads.others_quiet found alive found' other).1] at early'
    · intro k' t' found' acting'
      rcases setInit_found found' with ⟨rfl, rfl⟩ | ⟨other, found'⟩
      · exact ⟨rfl, by simpa using owner⟩
      · simp [(threads.others_quiet found alive found' other).2] at acting'
    · intro k' t' type id found' at_signal
      rcases setInit_found found' with ⟨rfl, rfl⟩ | ⟨other, found'⟩
      · cases at_signal
      · have acting := (threads.others_quiet found alive found' other).2
        simp [at_signal, InitPc.acting] at acting
  constructor
  case threads => exact serve
  case inFlight => simpa using now.inFlight
  case exec => simp [Queue.updateStage_execEvent, occupied]
  case sorted => exact now.sorted
  case slaveSignal =>
    intro type id at_signal
    rw [setInit_sched] at at_signal
    simp [at_signal, SchedPc.region] at outside
  case prev =>
    intro prev at_clear
    rw [setInit_sched] at at_clear
    simp [at_clear, SchedPc.region] at outside
  all_goals simp [occupied, outside, Holder.allows]

/-- The signal of the init thread hands the slot to the execution. -/
theorem signal (now : c.HeldBy holder) (threads : c.OneThread) {k : Nat} {t : InitThread}
    (found : c.initThreads[k]? = some t) {type : EventType} {id : Nat}
    (pc : t.pc = .signal type id)
    : HeldBy .running {
        c.setInit k t .clearRunning with exec := c.exec.signal type c.role id
      } := by
  obtain ⟨rfl, owner⟩ := now.threads.acting k t found (by rw [pc]; rfl)
  obtain ⟨rfl, rfl⟩ := now.threads.signal k t type id found pc
  have alive : t.pc.ended = false := by rw [pc]; rfl
  have quiet : QuietThreads (c.setInit k t .clearRunning).initThreads := by
    intro k' t' found'
    rcases setInit_found found' with ⟨rfl, rfl⟩ | ⟨other, found'⟩
    · exact ⟨rfl, rfl⟩
    · exact threads.others_quiet found alive found' other
  constructor
  case threads => exact quiet.serve (by rfl)
  case inFlight => simp [now.inFlight]
  case exec => exact fun _ => now.exec (.inl rfl)
  case region =>
    have allowed := now.region
    cases region : c.sched.region <;> simp [region, Holder.allows] at allowed ⊢
  case sorted => exact now.sorted
  case slaveSignal => exact now.slaveSignal
  case prev => exact now.prev
  all_goals simp [now.hasExec]

/-- The init threads pass the slot on to a new holder, by cases on the move. -/
theorem initMove (now : c.HeldBy holder) (threads : c.OneThread) {k : Nat} {t : InitThread}
    (found : c.initThreads[k]? = some t)
    (inTime : c.sched.preempting = true → t.pc ≠ .updateStage) (move : InitMove c k t c')
    : c'.Held := by
  cases move with
  | walk old new pc walk =>
      refine ⟨holder, now.moveThread found ?_ ?_ ?_⟩ <;> cases walk <;>
        simp [pc, InitPc.early, InitPc.acting]
  | stage pc =>
      refine ⟨.acting, now.stage threads found pc ?_⟩
      cases late : c.sched.preempting with
      | false => rfl
      | true => exact absurd pc (inTime late)
  | block pc =>
      have next : HeldBy holder (c.setInit k t .readType) :=
        now.moveThread found (by simp [InitPc.early]) (by simp [pc, InitPc.acting]) (by simp)
      exact ⟨holder, next.same rfl rfl rfl rfl rfl⟩
  | signal type id pc => exact ⟨.running, now.signal threads found pc⟩
  | clear pc =>
      have next : HeldBy holder (c.setInit k t .finished) :=
        now.moveThread found (by simp [InitPc.early]) (by simp [InitPc.acting]) (by simp)
      exact ⟨holder, next.same rfl rfl rfl rfl rfl⟩

-----------------------------------------------------------------------------------------
-- Moves of the dispatcher, and all moves
-----------------------------------------------------------------------------------------

/-- The notification frees the slot; the dispatcher's other moves keep the holder. -/
theorem dispatch (now : c.HeldBy holder) (tagged : c.exec.Tagged)
    (move : DispatchMove c c')
    : c'.Held := by
  cases move with
  | inside x move busy =>
      exact ⟨holder, {
        now with
        inFlight := (move.inFlight_eq busy).trans now.inFlight
        threads := ⟨now.threads.early, now.threads.acting, now.threads.signal⟩
      }⟩
  | clear t ids pc =>
      obtain ⟨rfl, rfl, nothing⟩ := now.clearing tagged pc
      refine ⟨.nobody, ?_⟩
      constructor
      case threads => exact (now.quiet (by simp) (by simp)).serve (by rfl)
      case inFlight => simp [Exec.inFlight, DispatcherPc.ids, nothing]
      case notInit => simp [now.exec (.inr rfl)]
      case region =>
        have allowed := now.region
        cases region : c.sched.region <;> simp [region, Holder.allows] at allowed ⊢
      case sorted => exact now.sorted
      case slaveSignal => exact now.slaveSignal
      case prev => exact now.prev
      all_goals simp
  | wake pc =>
      exact ⟨holder, {
        now with
        inFlight :=
          (Exec.DispatcherRule.inFlight_eq (.notifyWake pc) (by simp [pc])).trans now.inFlight
        threads := ⟨now.threads.early, now.threads.acting, now.threads.signal⟩
      }⟩

/-- Every move in time passes the slot on, by cases on the move. -/
theorem move (now : c.HeldBy holder) (threads : c.OneThread) (tagged : c.exec.Tagged)
    {action : Action} (inTime : c.actsInTime action) (move : Move c action c')
    : c'.Held := by
  cases move with
  | arrive type dir payload => exact ⟨holder, now.same rfl rfl rfl rfl rfl⟩
  | reject type dir payload => exact ⟨holder, now.same rfl rfl rfl rfl rfl⟩
  | sched ok c' move => exact now.sched threads move
  | wakeNonempty pc =>
      exact ⟨holder, now.outside (by rw [pc]; rfl) rfl trivial rfl rfl rfl rfl⟩
  | wakeForFifo pc =>
      exact ⟨holder, now.outside (by rw [pc]; rfl) rfl trivial rfl rfl rfl rfl⟩
  | init k t found c' move =>
      exact now.initMove threads found (fun late => inTime late t found) move
  | cancel k t found pending alive =>
      exact ⟨holder, now.moveThread found (by simp [InitPc.early]) (by simp [InitPc.acting])
        (by simp)⟩
  | dispatch c' move => exact now.dispatch tagged move
  | quiet action x same =>
      exact ⟨holder, {
        now with
        inFlight := same.inFlight.trans now.inFlight
        threads := ⟨now.threads.early, now.threads.acting, now.threads.signal⟩
      }⟩

end HeldBy

end Ctx

/-- When the init threads act in time, the slot always has a holder. -/
theorem runsWhen_held {role : Role} {cond : Ctx → Action → Prop}
    (inTime : ∀ c action, cond c action → c.actsInTime action) {c : Ctx}
    (reached : (runsWhen role cond).Reachable c)
    : c.Held := by
  refine runsWhen_induct Ctx.Held (Ctx.init_held role) ?_ reached
  rintro c action c' reached ⟨holder, now⟩ met move
  exact now.move (runsWhen_oneThread reached) (runsWhen_tagged reached) (inTime c action met)
    move

end QKeySys.Core
