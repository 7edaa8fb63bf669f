import QKeySys.Core.AtomicAct

/-! Preemption: only a MASTER in its Init window is replaced, only by an event of smaller
priority number, and it returns to the wait heap; the Init window is ahead of that heap.
-/

namespace QKeySys.Core

open QKeySys.Library

namespace Ctx

variable {c c' : Ctx} {holder : Holder}

/-- No init thread is halfway through `qks_init_master_send_act`, and an event in stage EXEC
blocks hard, but for the SLAVE that the scheduler is just switching.
-/
structure Blocked (c : Ctx) : Prop where
  whole
    : ∀ (k : Nat) (t : InitThread), c.initThreads[k]? = some t → t.pc.acting = false
  hard
    : c.q.hasExec = true → c.q.execEvent.stage = .exec → c.sched ≠ .onActBlock →
        c.q.hardBlocking = true

/-- The block depends on the slot, the scheduler and the threads' program points only. -/
theorem Blocked.same (now : c.Blocked) (hasExec : c'.q.hasExec = c.q.hasExec)
    (event : c'.q.execEvent = c.q.execEvent)
    (hardBlocking : c'.q.hardBlocking = c.q.hardBlocking)
    (sched : c.sched ≠ .onActBlock ∨ c'.sched = .onActBlock)
    (threads
      : ∀ (k : Nat) (t' : InitThread), c'.initThreads[k]? = some t' →
          t'.pc.acting = true → ∃ t, c.initThreads[k]? = some t ∧ t'.pc = t.pc)
    : c'.Blocked where
  whole k t' found := by
    cases acting : t'.pc.acting with
    | false => rfl
    | true =>
        obtain ⟨t, found, pc⟩ := threads k t' found acting
        rw [pc, now.whole k t found] at acting
        cases acting
  hard := by
    rw [hasExec, event, hardBlocking]
    intro occupied stage other
    refine now.hard occupied stage (sched.resolve_right ?_)
    exact fun pc => other pc

/-- The scheduler's moves keep the block, by cases on the move. -/
theorem Blocked.sched (now : c.Blocked) {ok : Bool} (move : SchedMove c ok c')
    : c'.Blocked := by
  have kept (k : Nat) (t : InitThread) (found : c.initThreads[k]? = some t)
      (_ : t.pc.acting = true) : ∃ t', c.initThreads[k]? = some t' ∧ t.pc = t'.pc :=
    ⟨t, found, rfl⟩
  cases move with
  | silent next move =>
      have other : c.sched ≠ .onActBlock := by cases move <;> simp [‹c.sched = _›]
      exact now.same rfl rfl rfl (.inl other) kept
  | popReady e rest pc head =>
      refine now.same rfl rfl rfl (.inl ?_) kept
      rcases pc with pc | pc <;> simp [pc]
  | claim e pc => exact ⟨now.whole, by simp⟩
  | actStage pc => exact ⟨now.whole, by simp⟩
  | actBlock pc => exact ⟨now.whole, by simp⟩
  | install e pc => exact ⟨now.whole, by simp⟩
  | clear prev pc => exact ⟨now.whole, by simp⟩
  | spawnKill k pc busy handle =>
      refine now.same rfl rfl rfl (.inl (by simp [pc])) (fun k t found _ => ?_)
      obtain ⟨t', found, pc, -⟩ := requestCancel_found found
      exact ⟨t', found, pc⟩
  | kill k pc handle =>
      refine now.same rfl rfl rfl (.inl (by simp [pc])) (fun k t found _ => ?_)
      obtain ⟨t', found, pc, -⟩ := requestCancel_found found
      exact ⟨t', found, pc⟩
  | spawnJoined k pc ended =>
      refine now.same rfl rfl rfl (.inl (by simp [pc])) (fun k t found _ => ?_)
      obtain ⟨t', found, pc, -⟩ := join_found found
      exact ⟨t', found, pc⟩
  | killJoined k pc ended =>
      refine now.same rfl rfl rfl (.inl (by simp [pc])) (fun k t found _ => ?_)
      obtain ⟨t', found, pc, -⟩ := join_found found
      exact ⟨t', found, pc⟩
  | spawned pc created =>
      refine now.same rfl rfl rfl (.inl (by simp [pc])) (fun k t found acting => ?_)
      rcases spawned_found found with ⟨rfl, rfl⟩ | found
      · simp [newThread, InitPc.acting] at acting
      · exact ⟨t, found, rfl⟩
  | _ => exact now.same rfl rfl rfl (.inl (by simp [‹c.sched = _›])) kept

/-- A thread that goes to a point outside of its act keeps the block. -/
theorem Blocked.setInit (now : c.Blocked) {k : Nat} {t : InitThread} {pc : InitPc}
    (outside : pc.acting = false)
    : (c.setInit k t pc).Blocked := by
  refine now.same rfl rfl rfl (ne_or_eq _ _) (fun k' t' found acting => ?_)
  rcases setInit_found found with ⟨rfl, rfl⟩ | ⟨-, found⟩
  · simp [outside] at acting
  · exact ⟨t', found, rfl⟩

/-- The moves of atomic runs keep the block, by cases on the move. -/
theorem Blocked.move (now : c.Blocked) (move : c.AtomicMove c')
    : c'.Blocked := by
  cases move with
  | single action succeeds whole c' move =>
      cases move with
      | sched ok c' move => exact now.sched move
      | wakeNonempty pc =>
          exact now.same rfl rfl rfl (.inl (by simp [pc])) (fun _ t found _ => ⟨t, found, rfl⟩)
      | wakeForFifo pc =>
          exact now.same rfl rfl rfl (.inl (by simp [pc])) (fun _ t found _ => ⟨t, found, rfl⟩)
      | init k t found c' move =>
          have outside : t.pc.inAct = false := by simpa [splitsAct, found] using whole
          cases move with
          | walk old new pc walk =>
              refine now.setInit ?_
              rw [pc] at outside
              cases walk <;> first | rfl | cases outside
          | stage pc => simp [pc, InitPc.inAct] at outside
          | block pc => simp [pc, InitPc.inAct] at outside
          | signal type id pc => simp [pc, InitPc.inAct] at outside
          | clear pc =>
              have next : (c.setInit k t .finished).Blocked := now.setInit rfl
              exact ⟨next.whole, next.hard⟩
      | cancel k t found pending alive => exact now.setInit rfl
      | dispatch c' move =>
          cases move with
          | clear t ids pc => exact ⟨now.whole, by simp⟩
          | _ => exact ⟨now.whole, now.hard⟩
      | _ => exact ⟨now.whole, now.hard⟩
  | act k t between found pc =>
      have next : (c.setInit k t .clearRunning).Blocked := now.setInit rfl
      exact ⟨next.whole, by simp⟩

/-- How far the iteration has come that started with the MASTER `e` in its Init window: `e`
is still in the slot, in the scheduler's hand or in the heap with a smaller priority number
on its way to the slot.
-/
inductive Replacing (e : Event) (c : Ctx) : Prop where
  | kept (occupied : c.q.hasExec = true) (slot : c.q.execEvent = e)
  | removed (pc : c.sched = .pushPrev e)
  | stored (pc : c.sched = .popPreempting) (inHeap : e ∈ c.q.waitHeap.events)
      (preempts : ∃ f, c.q.fifo.head? = some f ∧ f.priority < e.priority)
  | taken (g : Event) (pc : c.sched = .acceptAndClaim g ∨ c.sched = .handleEvent g)
      (inHeap : e ∈ c.q.waitHeap.events) (preempts : g.priority < e.priority)
  | replaced (inHeap : e ∈ c.q.waitHeap.events)
      (preempts : c.q.execEvent.priority < e.priority)
      (pc
        : c.sched.betweenIterations = true ∨ c.sched.region = .slave
          ∨ c.sched.spawning = true)

/-- A MASTER in stage INIT in the slot is in its Init window. -/
theorem HeldBy.window_of_init (held : c.HeldBy holder) (occupied : c.q.hasExec = true)
    (master : c.q.execEvent.dir = .master) (stage : c.q.execEvent.stage = .init)
    : holder = .window := by
  cases holder with
  | nobody => simp [held.hasExec] at occupied
  | window => rfl
  | acting => simp [held.exec (.inl rfl)] at stage
  | slave => simp [(held.slave rfl).1] at master
  | running => simp [held.exec (.inr rfl)] at stage

/-- Moves that leave slot, heap and FIFO head alone keep the iteration where it is. -/
theorem Replacing.same {e : Event} (now : c.Replacing e) (sched : c'.sched = c.sched)
    (heap : c'.q.waitHeap = c.q.waitHeap)
    (head : ∀ f, c.q.fifo.head? = some f → c'.q.fifo.head? = some f)
    (event : c'.q.execEvent = c.q.execEvent)
    (hasExec : c.q.hasExec = true → c.q.execEvent = e → c'.q.hasExec = true)
    : c'.Replacing e := by
  cases now with
  | kept occupied slot => exact .kept (hasExec occupied slot) (event.trans slot)
  | removed pc => exact .removed (sched.trans pc)
  | stored pc inHeap preempts =>
      refine .stored (sched.trans pc) (heap ▸ inHeap) ?_
      exact preempts.imp (fun f both => ⟨head f both.1, both.2⟩)
  | taken g pc inHeap preempts => exact .taken g (sched ▸ pc) (heap ▸ inHeap) preempts
  | replaced inHeap preempts pc =>
      exact .replaced (heap ▸ inHeap) (event ▸ preempts) (sched ▸ pc)

/-- While the window is open the scheduler takes nothing but the event in it. -/
theorem Replacing.kept_sched {e : Event} (held : c.HeldBy .window)
    (slot : c.q.execEvent = e) {ok : Bool} (move : SchedMove c ok c')
    : c'.Replacing e := by
  have occupied : c.q.hasExec = true := by simpa using held.hasExec
  have region := held.region
  cases move with
  | silent next move => exact .kept occupied slot
  | popReady g rest pc head => rcases pc with pc | pc <;> rw [pc] at region <;> cases region
  | clear prev pc => exact .removed (by simp [held.prev prev pc, slot])
  | popWait g heap pc popped => rw [pc] at region; cases region
  | claim g pc => rw [pc] at region; cases region
  | actStage pc => rw [pc] at region; cases region
  | install g pc => rw [pc] at region; cases region
  | _ => exact .kept occupied slot

/-- The scheduler's moves take the iteration further, by cases on how far it has come. -/
theorem Replacing.sched {e : Event} (now : c.Replacing e) (held : c.HeldBy holder)
    (ranked : c.Ranked) (balanced : c.Balanced) (arrivals : c.Arrivals)
    (master : e.dir = .master) (init : e.stage = .init)
    (inside : c.sched.betweenIterations = false) {ok : Bool} (succeeds : ok = true)
    (move : SchedMove c ok c')
    : c'.Replacing e := by
  cases now with
  | kept occupied slot =>
      obtain rfl := held.window_of_init occupied (by rw [slot, master]) (by rw [slot, init])
      exact .kept_sched held slot move
  | removed pc =>
      have promise := ranked.promise
      rw [pc] at promise
      cases move with
      | storePrev prev heap pc' stored =>
          obtain rfl : prev = e := by simpa [pc] using pc'.symm
          exact .stored rfl (stored.mem_iff.mpr List.mem_cons_self) promise.2
      | losePrev prev pc' failed => simp [succeeds] at failed
      | silent next move => cases move <;> simp_all
      | _ => simp_all
  | stored pc inHeap preempts =>
      obtain ⟨f, head, less⟩ := preempts
      cases move with
      | popReady g rest pc' split =>
          obtain rfl : g = f := by simpa [split] using head
          refine .taken g ?_ inHeap less
          cases dir : g.dir <;> simp [dispose, dir]
      | silent next move => cases move <;> simp_all
      | _ => simp_all
  | taken g pc inHeap preempts =>
      have standard : g.priority = priorityOf g.type := by
        refine balanced.standard arrivals ?_
        rcases pc with pc | pc <;> simp [places, pc, SchedPc.inHand]
      cases move with
      | claim g' pc' =>
          obtain rfl : g' = g := by simpa [pc'] using pc
          refine .replaced inHeap ?_ (.inr (.inl rfl))
          simpa [claimed, ← standard] using preempts
      | install g' pc' =>
          obtain rfl : g' = g := by simpa [pc'] using pc
          refine .replaced inHeap preempts ?_
          split
          · exact .inr (.inr rfl)
          · exact .inl rfl
      | popReady g' rest pc' split => rcases pc' with pc' | pc' <;> simp [pc'] at pc
      | silent next move => cases move <;> simp_all
      | _ => simp_all
  | replaced inHeap preempts pc =>
      have pc := pc.resolve_left (by simp [inside])
      cases move with
      | actStage pc' =>
          exact .replaced (by simpa using inHeap) (by simpa using preempts) (.inr (.inl rfl))
      | silent next move =>
          cases move with
          | readType pc' => exact .replaced inHeap preempts (.inr (.inl rfl))
          | spawnFree pc' idle => exact .replaced inHeap preempts (.inr (.inr rfl))
          | preempt pri f pc' | noPreempt pri f pc' =>
              rw [pc', SchedPc.region] at pc
              split at pc <;> simp [SchedPc.spawning] at pc
          | _ => simp [‹c.sched = _›, SchedPc.region, SchedPc.spawning] at pc
      | actBlock pc' => exact .replaced inHeap preempts (.inr (.inl rfl))
      | actSignal t id pc' => exact .replaced inHeap preempts (.inl rfl)
      | spawnKill k pc' busy handle => exact .replaced inHeap preempts (.inr (.inr rfl))
      | spawnJoined k pc' ended => exact .replaced inHeap preempts (.inr (.inr rfl))
      | spawned pc' created => exact .replaced inHeap preempts (.inl rfl)
      | spawnFailed pc' failed => exact .replaced inHeap preempts (.inl rfl)
      | popReady g rest pc' split =>
          rcases pc' with pc' | pc' <;> simp [pc', SchedPc.region, SchedPc.spawning] at pc
      | _ => simp [‹c.sched = _›, SchedPc.region, SchedPc.spawning] at pc

/-- Inside an iteration every move takes it further or leaves it alone. -/
theorem Replacing.move {e : Event} (now : c.Replacing e) (held : c.HeldBy holder)
    (tagged : c.exec.Tagged) (ranked : c.Ranked) (balanced : c.Balanced)
    (arrivals : c.Arrivals) (master : e.dir = .master) (init : e.stage = .init)
    (inside : c.sched.betweenIterations = false) (move : c.AtomicMove c')
    : c'.Replacing e := by
  cases move with
  | act k t between found pc => simp [inside] at between
  | single action succeeds whole c' move =>
      cases move with
      | sched ok c' move =>
          exact now.sched held ranked balanced arrivals master init inside succeeds move
      | arrive type dir payload =>
          refine now.same rfl rfl (fun f head => ?_) rfl (fun occupied _ => occupied)
          simp [head]
      | wakeNonempty pc => simp [pc, SchedPc.betweenIterations] at inside
      | wakeForFifo pc => simp [pc, SchedPc.betweenIterations] at inside
      | init k t found c' move =>
          have outside : t.pc.inAct = false := by simpa [splitsAct, found] using whole
          cases move with
          | stage pc => simp [pc, InitPc.inAct] at outside
          | _ => exact now.same rfl rfl (fun _ head => head) rfl (fun occupied _ => occupied)
      | dispatch c' move =>
          cases move with
          | clear t ids pc =>
              refine now.same rfl rfl (fun _ head => head) rfl (fun occupied slot => ?_)
              obtain ⟨running, -⟩ := held.clearing tagged pc
              obtain window := held.window_of_init occupied (by rw [slot, master])
                (by rw [slot, init])
              cases running.symm.trans window
          | _ => exact now.same rfl rfl (fun _ head => head) rfl (fun occupied _ => occupied)
      | _ => exact now.same rfl rfl (fun _ head => head) rfl (fun occupied _ => occupied)

/-- No single move replaces the event in an occupied slot, by cases on the move. -/
theorem Move.slot_id {action : Action} (move : Move c action c') (held : c.HeldBy holder)
    (occupied : c.q.hasExec = true)
    : c'.q.execEvent.id = c.q.execEvent.id := by
  have someone : holder ≠ .nobody := by simpa [occupied] using held.hasExec
  cases move with
  | sched ok c' move =>
      cases move with
      | claim e pc => exact absurd (held.nobody (.inr (by rw [pc]; rfl))) someone
      | install e pc => exact absurd (held.nobody (.inr (by rw [pc]; rfl))) someone
      | actStage pc => simp
      | _ => rfl
  | init k t found c' move => cases move <;> simp
  | dispatch c' move => cases move <;> rfl
  | _ => rfl

/-- An iteration that reads an open guard in an occupied slot starts in an Init window. -/
theorem Blocked.window (blocked : c.Blocked) (held : c.HeldBy holder)
    (pc : c.sched = .getGuard) (occupied : c.q.hasExec = true)
    (soft : c.q.hardBlocking = false)
    : c.q.execEvent.dir = .master ∧ c.q.execEvent.stage = .init := by
  have waiting : c.Waiting := by
    refine ⟨occupied, fun stage => ?_⟩
    have hard := blocked.hard occupied stage (by simp [pc])
    simp [soft] at hard
  have window := held.window_of_waiting waiting (by simp [pc, SchedPc.region])
  exact (held.window window).symm

end Ctx

/-- The scheduler reads the guard in `c` and reaches `c'` at the end of this iteration; the
other threads may take steps in between.
-/
def Iteration (system : Lts Ctx AtomicAction) (c c' : Ctx) : Prop :=
  c.sched = .getGuard ∧ c'.sched.betweenIterations = true
  ∧ ∃ d, system.next c (.single (.sched true)) d
      ∧ (system.restrict (fun c _ => c.sched.betweenIterations = false)).Steps d c'

/-- Only an iteration replaces the event in an occupied slot, only a MASTER in stage INIT and
only by an event of smaller priority number, and it puts the old one unchanged into the wait
heap. In the Init window the guard stands for the event in the slot, without a hard block,
and the wait heap is `below` that event.
-/
structure PreemptionDiscipline (system : Lts Ctx AtomicAction)
    (below : Ctx → Event → Event → Prop) : Prop where
  single
    : ∀ (c c' : Ctx) (action : AtomicAction), system.Reachable c →
        system.next c action c' → c.q.hasExec = true → c'.q.hasExec = true →
        c'.q.execEvent.id = c.q.execEvent.id
  replaces
    : ∀ c c', system.Reachable c → Iteration system c c' → c.q.hasExec = true →
        c'.q.hasExec = true → c'.q.execEvent.id ≠ c.q.execEvent.id →
        c.q.execEvent.dir = .master ∧ c.q.execEvent.stage = .init
        ∧ c'.q.execEvent.priority < c.q.execEvent.priority
        ∧ c.q.execEvent ∈ c'.q.waitHeap.events
  window
    : ∀ c, system.Reachable c → c.sched.betweenIterations = true → c.q.hasExec = true →
        c.q.execEvent.dir = .master → c.q.execEvent.stage = .init →
        c.q.guardPriority = c.q.execEvent.priority ∧ c.q.hardBlocking = false
        ∧ ∀ h ∈ c.q.waitHeap.events, below c c.q.execEvent h

/-- `e` is strictly before `h` for `cmp`. -/
def strictlyBelow (_ : Ctx) (e h : Event) : Prop := e.key < h.key

/-- `h` has no smaller priority number than `e`, and `e` is strictly before `h` for `cmp` as
long as fewer than 2^64 events were offered.
-/
def belowUntilWrap (c : Ctx) (e h : Event) : Prop :=
  e.priority ≤ h.priority ∧ (c.log.attempts < UInt64.size → e.key < h.key)

section Runs

variable {role : Role} {c c' : Ctx}

theorem atomicRuns_blocked (reached : (atomicRuns role).Reachable c) : c.Blocked := by
  refine atomicRuns_induct Ctx.Blocked ?_ (fun _ _ _ now move => now.move move) reached
  constructor <;> simp [Ctx.init, Queue.init]

/-- A path inside the iteration takes it further, by induction on the path. -/
theorem atomicRuns_replacing {e : Event} (master : e.dir = .master) (init : e.stage = .init)
    (reached : (atomicRuns role).Reachable c) (now : c.Replacing e)
    (path
      : ((atomicRuns role).restrict (fun c _ => c.sched.betweenIterations = false)).Steps
          c c')
    : c'.Replacing e := by
  induction path with
  | refl => exact now
  | tail path step ih =>
      obtain ⟨action, inside, step⟩ := step
      have reached := reached.steps (Lts.Steps.of_restrict path)
      have inOrder := atomicRuns_reachable reached
      obtain ⟨holder, held⟩ := runsWhen_held (fun _ _ met => met.1) inOrder
      exact ih.move held (runsWhen_tagged inOrder)
        (runsWhen_ranked (fun _ _ met => met.1) inOrder)
        (runsWhen_balanced (fun _ _ met => met.1) inOrder) (runsWhen_arrivals inOrder)
        master init inside (atomicRuns_move reached step)

/-- An iteration that replaces the event in the slot preempts it. -/
theorem atomicRuns_replaces (reached : (atomicRuns role).Reachable c)
    (iteration : Iteration (atomicRuns role) c c') (occupied : c.q.hasExec = true)
    (other : c'.q.execEvent.id ≠ c.q.execEvent.id)
    : c.q.execEvent.dir = .master ∧ c.q.execEvent.stage = .init
      ∧ c'.q.execEvent.priority < c.q.execEvent.priority
      ∧ c.q.execEvent ∈ c'.q.waitHeap.events := by
  obtain ⟨pc, between, d, first, path⟩ := iteration
  have inOrder := atomicRuns_reachable reached
  obtain ⟨holder, held⟩ := runsWhen_held (fun _ _ met => met.1) inOrder
  have later := reached.next first
  cases soft : c.q.hardBlocking with
  | true =>
      -- The iteration ends at once and the slot is as before.
      have ended : d = { c with sched := .loopTop } := by
        have step : c.schedStep true = some d := first.2
        simp only [Ctx.schedStep, pc, Queue.getGuard, soft, if_true, Option.some.injEq] at step
        exact step.symm
      rcases Relation.ReflTransGen.cases_head path with rfl | ⟨_, ⟨action, inside, -⟩, -⟩
      · rw [ended] at other
        exact absurd rfl other
      · rw [ended] at inside
        cases inside
  | false =>
      obtain ⟨master, init⟩ := (atomicRuns_blocked reached).window held pc occupied soft
      have started : d.Replacing c.q.execEvent := by
        have step : c.schedStep true = some d := first.2
        simp only [Ctx.schedStep, pc, Queue.getGuard, soft, Bool.false_eq_true, if_false,
          Option.some.injEq] at step
        rw [← step]
        exact .kept occupied rfl
      refine ⟨master, init, ?_⟩
      cases atomicRuns_replacing master init later started path with
      | kept occupied' slot => exact absurd (congrArg Event.id slot) other
      | removed pc' => simp [pc', SchedPc.betweenIterations] at between
      | stored pc' => simp [pc', SchedPc.betweenIterations] at between
      | taken g pc' =>
          rcases pc' with pc' | pc' <;> simp [pc', SchedPc.betweenIterations] at between
      | replaced inHeap preempts pc' => exact ⟨preempts, inHeap⟩

end Runs

/-- Preemption keeps its discipline, with the order of the wait heap until the counter of the
sequence numbers wraps around.
-/
theorem atomicRuns_preemptionDiscipline (role : Role)
    : PreemptionDiscipline (atomicRuns role) belowUntilWrap where
  single := by
    intro c c' action reached step occupied _
    obtain ⟨holder, held⟩ := runsWhen_held (fun _ _ met => met.1) (atomicRuns_reachable reached)
    cases atomicRuns_move reached step with
    | single action succeeds whole c' move => exact move.slot_id held occupied
    | act k t between found pc => simp
  replaces := by
    intro c c' reached iteration occupied _ other
    exact atomicRuns_replaces reached iteration occupied other
  window := by
    intro c reached between occupied master stage
    have inOrder := atomicRuns_reachable reached
    have inTime : ∀ c action, Ctx.actsInOrder c action → c.actsInTime action :=
      fun _ _ met => met.1
    have guarded := runsWhen_guarded inTime inOrder
    have balanced := runsWhen_balanced inTime inOrder
    have arrivals := runsWhen_arrivals inOrder
    have slot : c.q.execEvent ∈ c.places := by simp [Ctx.places, Queue.inSlot, occupied]
    refine ⟨guarded.guard occupied, guarded.soft occupied stage, fun h inHeap => ?_⟩
    have ahead := (runsWhen_ranked inTime inOrder).slot ⟨occupied, by simp [stage]⟩ h inHeap
    refine ⟨ahead.priority_le, fun bound => Event.key_lt_iff.mpr ?_⟩
    refine ahead.imp_right (.imp_right (fun order => ?_))
    have placed : h ∈ c.places := by simp [Ctx.places, inHeap]
    have numbered := balanced.numbered arrivals slot master
    have numbered' := balanced.numbered arrivals placed (balanced.heap h inHeap)
    exact (Event.seq_lt_iff bound numbered numbered' (balanced.bounded arrivals slot)
      (balanced.bounded arrivals placed)).mpr (order bound)

/-- The MASTER that stays in its Init window, with the first number. -/
def windowEvent : Event where
  type := .keyRefill
  dir := .master
  priority := 4
  stage := .init
  payload := 0
  seq := 1
  id := 1

/-- The event of a later arrival of the same type. -/
def lateEvent (dir : EventDir) (s : UInt64) (n : Nat) : Event where
  type := .keyRefill
  dir := dir
  priority := 4
  stage := .pending
  payload := 0
  seq := s + 1
  id := n + 1

/-- The scheduler is between iterations while `windowEvent` is in its Init window; the counter
stands at `s` after `n` injections.
-/
def windowState (s : UInt64) (n : Nat) (injected dropped : List Event) : Ctx where
  q := {
    fifo := []
    waitHeap := .empty
    hasExec := true
    execEvent := windowEvent
    hardBlocking := false
    guardPriority := 4
    seqCounter := s
    cv := ⟨true⟩
  }
  stop := false
  role := .a
  exec := .init
  sched := .loopTop
  initMasterRunning := true
  thInitMaster := some 0
  initThreads := [⟨.snapshot, false, false, 1⟩]
  log := ⟨n, injected, [], dropped, [], []⟩

/-- The state after a MASTER has arrived and was parked. -/
def parkedState (s : UInt64) (n : Nat) (injected dropped : List Event) : Ctx :=
  let state := windowState (s + 1) (n + 1) injected dropped
  { state with
    q := {
      state.q with waitHeap := (WaitHeap.empty.heapPush (lateEvent .master s n) true).2
    }
  }

/-- The arrival of an event of the same type, and the iteration that takes it. -/
def arrivalRun (dir : EventDir) (length : Nat) : List AtomicAction :=
  .single (.inject .keyRefill dir 0 true) :: List.replicate length (.single (.sched true))

theorem windowState_start
    : Lts.execute atomicRunStep (Ctx.init .a) (arrivalRun .master 13)
      = some (windowState 1 1 [{ windowEvent with stage := .pending }] []) := by
  rfl

/-- A SLAVE that arrives in the window is dropped and leaves everything but the counter. -/
theorem windowState_next (s : UInt64) (n : Nat) (injected dropped : List Event)
    : Lts.execute atomicRunStep (windowState s n injected dropped) (arrivalRun .slave 10)
      = some (windowState (s + 1) (n + 1) (injected ++ [lateEvent .slave s n])
          (dropped ++ [lateEvent .slave s n])) := by
  rfl

/-- A MASTER that arrives in the window is parked in the wait heap. -/
theorem windowState_park (s : UInt64) (n : Nat) (injected dropped : List Event)
    : Lts.execute atomicRunStep (windowState s n injected dropped) (arrivalRun .master 11)
      = some (parkedState s n (injected ++ [lateEvent .master s n]) dropped) := by
  rfl

/-- The window can stay open for any number of arrivals, by induction on their number. -/
theorem windowState_reachable (n : Nat)
    : ∃ injected dropped,
        (atomicRuns .a).Reachable
          (windowState (UInt64.ofNat (n + 1)) (n + 1) injected dropped) := by
  induction n with
  | zero => exact ⟨_, _, atomicRuns_executed (.start rfl) windowState_start⟩
  | succ n ih =>
      obtain ⟨injected, dropped, reached⟩ := ih
      have next := atomicRuns_executed reached (windowState_next _ _ injected dropped)
      rw [← UInt64.ofNat_one, ← UInt64.ofNat_add] at next
      exact ⟨_, _, next⟩

/-- After 2^64 injections the wait heap is not strictly below the Init window: the counter has
wrapped around and the parked event is the one with the smaller number.
-/
theorem wrap_not_strictlyBelow
    : ¬ ∀ role, PreemptionDiscipline (atomicRuns role) strictlyBelow := by
  intro always
  obtain ⟨injected, dropped, reached⟩ := windowState_reachable (2 ^ 64 - 2)
  have parked := atomicRuns_executed reached (windowState_park _ _ injected dropped)
  obtain ⟨-, -, below⟩ := (always .a).window _ parked rfl rfl rfl rfl
  have stored := WaitHeap.heapPush_cases .empty
    (lateEvent .master (UInt64.ofNat (2 ^ 64 - 2 + 1)) (2 ^ 64 - 2 + 1)) true
  have inHeap := (stored.resolve_right (by simp)).2.mem_iff.mpr List.mem_cons_self
  have order := Event.key_lt_iff.mp (below _ inHeap)
  simp [lateEvent, windowEvent, parkedState, windowState] at order

end QKeySys.Core
