import QKeySys.Core.Ranking
import QKeySys.Library.PriorityServer
import QKeySys.Library.Simulation

/-! What the scheduler is for: it runs the place of a priority server. The FIFO is the line of
that server, the wait heap its room, and the execution slot, together with the event that the
scheduler takes into it or out of it, its place.
-/

namespace QKeySys.Core

open QKeySys.Library

-----------------------------------------------------------------------------------------
-- Events as jobs
-----------------------------------------------------------------------------------------

/-- What stays of an event on its way: not its stage, and not its sequence number, which an
accepted SLAVE loses.
-/
structure Job where
  id : Nat
  type : EventType
  dir : EventDir
  priority : Int
  payload : Nat
  deriving DecidableEq

def Event.job (e : Event) : Job where
  id := e.id
  type := e.type
  dir := e.dir
  priority := e.priority
  payload := e.payload

/-- Priority first, then the sequence number that the arrival has drawn. -/
def Job.key (job : Job) : ℤ ×ₗ ℕ := toLex (job.priority, (UInt64.ofNat job.id).toNat)

/-- The discipline of the scheduler: `cmp` orders, only the priority preempts, and only MASTER
events wait.
-/
def eventDiscipline : Discipline Job (ℤ ×ₗ ℕ) Int where
  key := Job.key
  rank := Job.priority
  canWait job := job.dir = .master
  rank_key less := Prod.Lex.toLex_lt_toLex.mpr (.inl less)

theorem Event.job_key {e : Event} (numbered : e.seq = UInt64.ofNat e.id)
    : eventDiscipline.key e.job = e.key := by
  simp only [eventDiscipline, Job.key, job, key, numbered]

/-- A job as the installed slot has it: committed unless it is a MASTER in its Init window. -/
def Queue.serving (q : Queue) : Option (Job × Bool) :=
  if q.hasExec then
    some (q.execEvent.job, decide (¬ (q.execEvent.stage = .init ∧ q.execEvent.dir = .master)))
  else
    none

namespace SchedPc

/-- The event that the scheduler takes into the slot or out of it. -/
def bringing : SchedPc → Option (Job × Bool)
  | acceptAndClaim e => some (e.job, true)
  | handleEvent e | pushPrev e => some (e.job, false)
  | _ => none

/-- The event on its way from the FIFO to the wait heap. -/
def parking : SchedPc → List Event
  | parkBlocked f => [f]
  | _ => []

end SchedPc

@[simp]
theorem dispose_bringing (e : Event)
    : (Ctx.dispose e).bringing = some (e.job, decide (e.dir = .slave)) := by
  cases dir : e.dir <;> simp [Ctx.dispose, dir, SchedPc.bringing]

@[simp]
theorem dispose_parking (e : Event) : (Ctx.dispose e).parking = [] := by
  cases dir : e.dir <;> simp [Ctx.dispose, dir, SchedPc.parking]

namespace Ctx

/-- The job in the place of the server. -/
def served (c : Ctx) : Option (Job × Bool) := c.sched.bringing.or c.q.serving

/-- The server that a context stands for, but for what the scheduler has seen. -/
def server (c : Ctx) (view : View Job) : Server Job where
  line := c.q.fifo.map Event.job
  room := ((c.sched.parking ++ c.q.waitHeap.events).map Event.job : List Job)
  serving := c.served
  view := view
  finished := c.log.completed.map Event.job
  refused := c.log.dropped.map Event.job
  lost := c.log.lost.map Event.job

/-- What the scheduler has seen at a program point. A chosen FIFO head is ahead of the whole
wait heap, and a chosen heap top not behind the head that was peeked.
-/
def Sees (c : Ctx) (view : View Job) : Prop :=
  match c.sched with
  | .freePeekWait f => view = .free (f.map Event.job)
  | .freePopReady | .popPreempting =>
      ∃ f, view = .free (some f.job) ∧ c.q.fifo.head? = some f
        ∧ ∀ h ∈ c.q.waitHeap.events, f.key < h.key
  | .freePopWait =>
      ∃ head, view = .free head
        ∧ ∀ top job, c.q.peekWait = some top → head = some job →
          eventDiscipline.key top.job ≤ eventDiscipline.key job
  | .busyPeekFifo _ | .readStage _ _ | .readDir _ _ | .killCurrent | .killJoin _ | .readPrev
  | .clearSlot _ | .pushPrev _ | .popBlocked => view = .busy
  | _ => True

/-- The context stands for the server. -/
def Stands (c : Ctx) (s : Server Job) : Prop := ∃ view, c.Sees view ∧ s = c.server view

/-- The server follows a step of the threads. -/
def Followed (c c' : Ctx) (view : View Job) : Prop :=
  ∃ view', c'.Sees view' ∧ (Server.runs eventDiscipline).Steps (c.server view) (c'.server view')

variable {c c' : Ctx} {view : View Job}

theorem Followed.stay (sees : c'.Sees view) (same : c'.server view = c.server view)
    : c.Followed c' view :=
  ⟨view, sees, same ▸ .refl⟩

theorem Followed.step (view' : View Job) {s' : Server Job} (sees : c'.Sees view')
    (step : Server.Step eventDiscipline (c.server view) s') (same : c'.server view' = s')
    : c.Followed c' view :=
  ⟨view', sees, same ▸ .single ⟨(), step⟩⟩

theorem Followed.steps (view' : View Job) {between s' : Server Job} (sees : c'.Sees view')
    (first : Server.Step eventDiscipline (c.server view) between)
    (last : Server.Step eventDiscipline between s') (same : c'.server view' = s')
    : c.Followed c' view :=
  ⟨view', sees, same ▸ .tail (.single ⟨(), first⟩) ⟨(), last⟩⟩

/-- The FIFO head is chosen exactly when `cmp` ranks it ahead of the top of the heap. -/
theorem chooseFifo_iff {f h : Event} : chooseFifo f h = true ↔ f.key < h.key := by
  simp [chooseFifo, Event.key_lt_iff]

/-- The invariants of the scheduler that the server rests on. -/
structure Disciplined (holder : Holder) (c : Ctx) : Prop where
  held : c.HeldBy holder
  peek : c.PeekHolds
  line : c.Line
  ranked : c.Ranked
  balanced : c.Balanced
  arrivals : c.Arrivals

variable {holder : Holder}

theorem Disciplined.fifo_key (now : c.Disciplined holder) {f : Event} (member : f ∈ c.q.fifo)
    : eventDiscipline.key f.job = f.key :=
  Event.job_key (now.line.numbered f member)

theorem Disciplined.heap_key (now : c.Disciplined holder) {h : Event}
    (member : h ∈ c.q.waitHeap.events)
    : eventDiscipline.key h.job = h.key :=
  Event.job_key (now.balanced.numbered now.arrivals (by simp [places, member])
    (now.balanced.heap h member))

theorem Disciplined.top_key (now : c.Disciplined holder) {top : Event}
    (shown : c.q.peekWait = some top)
    : eventDiscipline.key top.job = top.key :=
  now.heap_key (Array.mem_toList_iff.mpr (Array.mem_of_getElem? shown))

/-- The scheduler looks and compares, by cases on the move. -/
theorem Disciplined.silent (now : c.Disciplined holder) (sees : c.Sees view) {next : SchedPc}
    (move : SilentMove c next)
    : c.Followed { c with sched := next } view := by
  have before : c.sched.bringing = none ∧ c.sched.parking = [] := by
    cases move <;> rw [‹c.sched = _›] <;> exact ⟨rfl, rfl⟩
  have after : next.bringing = none ∧ next.parking = [] := by
    cases move <;> exact ⟨rfl, rfl⟩
  have same (view : View Job) : server { c with sched := next } view = c.server view := by
    simp [server, served, before, after]
  cases move with
  | busy pri pc occupied =>
      have busy : (c.server view).serving ≠ none := by
        simp [server, served, before, Queue.serving, occupied]
      exact .step .busy rfl (.lookBusy busy) (same .busy)
  | peekFree pc =>
      have free : (c.server view).serving = none := by
        obtain rfl := now.held.nobody (.inl (by rw [pc]; rfl))
        simp [server, served, before, Queue.serving, now.held.hasExec]
      refine .step (.free (c.q.fifo.head?.map Event.job)) rfl (.lookFree free) ?_
      simp [server, served, before, after]
  | takeFifo f pc chosen =>
      rw [Sees, pc] at sees
      have head : c.q.fifo.head? = some f := now.peek f (by rw [pc]; rfl)
      refine .stay ⟨f, sees, head, fun h member => ?_⟩ (same view)
      cases top : c.q.peekWait with
      | none => simp [WaitHeap.heapPeek_eq_none.mp top] at member
      | some root =>
          have less : f.key < root.key := chooseFifo_iff.mp (chosen root top)
          exact less.trans_le (WaitHeap.heapPeek_le top member)
  | takeHeap f h pc top chosen =>
      rw [Sees, pc] at sees
      refine .stay ⟨_, sees, fun root job shown head => ?_⟩ (same view)
      obtain rfl : h = root := Option.some.inj (top.symm.trans shown)
      obtain ⟨e, rfl, rfl⟩ := Option.map_eq_some_iff.mp head
      have first : c.q.fifo.head? = some e := now.peek e (by rw [pc]; rfl)
      rw [now.top_key top, now.fifo_key (List.mem_of_mem_head? first)]
      refine not_lt.mp (fun less => ?_)
      simp [chooseFifo_iff.mpr less] at chosen
  | peekBusy pri f pc | stageInit pri f pc | stageOther pri f pc | preempt pri f pc
  | noPreempt pri f pc | readPrev pc =>
      rw [Sees, pc] at sees
      exact .stay sees (same view)
  | _ => exact .stay trivial (same view)

/-- With nothing in hand the place is free when the slot is. -/
theorem server_free (view : View Job) (bringing : c.sched.bringing = none)
    (free : c.q.hasExec = false)
    : (c.server view).serving = none := by
  simp [server, served, bringing, Queue.serving, free]

/-- Taking the chosen head out of the FIFO starts it. -/
theorem Disciplined.popReady (now : c.Disciplined holder) (sees : c.Sees view) {e : Event}
    {rest : List Event} (pc : c.sched = .freePopReady ∨ c.sched = .popPreempting)
    (head : c.q.fifo = e :: rest)
    : c.Followed { c with q := { c.q with fifo := rest }, sched := dispose e } view := by
  obtain ⟨f, seen, first, ahead⟩
      : ∃ f, view = .free (some f.job) ∧ c.q.fifo.head? = some f
        ∧ ∀ h ∈ c.q.waitHeap.events, f.key < h.key := by
    rcases pc with pc | pc <;> simpa only [Sees, pc] using sees
  obtain rfl : e = f := by simpa [head] using first
  have empty : c.sched.bringing = none ∧ c.sched.parking = [] := by
    rcases pc with pc | pc <;> rw [pc] <;> exact ⟨rfl, rfl⟩
  have free : (c.server view).serving = none := by
    obtain rfl := now.held.nobody (by rcases pc with pc | pc <;> simp [pc, SchedPc.region])
    exact server_free view empty.1 (by simp [now.held.hasExec])
  have line : (c.server view).line = e.job :: rest.map Event.job := by simp [server, head]
  have first : ∀ other ∈ (c.server view).room,
      eventDiscipline.key e.job < eventDiscipline.key other := by
    simp only [server, empty, List.nil_append, Multiset.mem_coe, List.mem_map,
      forall_exists_index, and_imp, forall_apply_eq_imp_iff₂]
    intro h member
    rw [now.fifo_key (by simp [head]), now.heap_key member]
    exact ahead h member
  have waits : decide (e.dir = .slave) = false → eventDiscipline.canWait e.job := by
    cases dir : e.dir <;> simp [eventDiscipline, Event.job, dir]
  refine .step .none ?_ (.startLine _ _ _ seen line free first waits) ?_
  · cases dir : e.dir <;> simp [Sees, dispose, dir]
  · simp [server, served, empty]

/-- Taking the chosen top out of the wait heap starts it. -/
theorem Disciplined.popWait (now : c.Disciplined holder) (sees : c.Sees view) {e : Event}
    {heap : WaitHeap} (pc : c.sched = .freePopWait)
    (popped : c.q.waitHeap.heapPop = some (e, heap))
    : c.Followed { c with q := { c.q with waitHeap := heap }, sched := dispose e } view := by
  rw [Sees, pc] at sees
  obtain ⟨head, seen, before⟩ := sees
  have top : c.q.peekWait = some e := by
    rw [Queue.peekWait, ← WaitHeap.heapPop_fst, popped]
    rfl
  have split := WaitHeap.heapPop_events popped
  have inHeap : e ∈ c.q.waitHeap.events := split.mem_iff.mpr List.mem_cons_self
  have master : e.dir = .master := now.balanced.heap e inHeap
  have free : (c.server view).serving = none := by
    obtain rfl := now.held.nobody (.inl (by rw [pc]; rfl))
    exact server_free view (by rw [pc]; rfl) (by simp [now.held.hasExec])
  have room : (c.server view).room = e.job ::ₘ (heap.events.map Event.job : List Job) := by
    simpa [server, pc, SchedPc.parking] using split.map Event.job
  have first : ∀ other ∈ ((heap.events.map Event.job : List Job) : Multiset Job),
      eventDiscipline.key e.job ≤ eventDiscipline.key other := by
    simp only [Multiset.mem_coe, List.mem_map, forall_exists_index, and_imp,
      forall_apply_eq_imp_iff₂]
    intro h member
    have member : h ∈ c.q.waitHeap.events := split.mem_iff.mpr (List.mem_cons_of_mem e member)
    rw [now.heap_key inHeap, now.heap_key member]
    exact WaitHeap.heapPeek_le top member
  have order : ∀ job, head = some job → eventDiscipline.key e.job ≤ eventDiscipline.key job :=
    fun job => before e job top
  refine .step .none ?_ (.startRoom _ _ head seen room free first order) ?_
  · simp [Sees, dispose, master]
  · simp [server, served, master]

/-- Giving up the event in the Init window puts it back for the FIFO head. -/
theorem Disciplined.evict (now : c.Disciplined holder) (sees : c.Sees view) {prev : Event}
    (pc : c.sched = .pushPrev prev)
    : ∃ f, c.q.fifo.head? = some f ∧ (∀ h ∈ prev :: c.q.waitHeap.events, f.key < h.key)
        ∧ Server.Step eventDiscipline (c.server view) {
            c.server view with
            room := prev.job ::ₘ (c.server view).room
            serving := none
            view := .free (some f.job)
          } := by
  have promise := now.ranked.promise
  rw [pc] at promise
  obtain ⟨ahead, f, head, preempts⟩ := promise
  rw [Sees, pc] at sees
  refine ⟨f, head, fun h member => Event.key_lt_iff.mpr (.inl ?_), ?_⟩
  · rcases List.mem_cons.mp member with rfl | member
    · exact preempts
    · exact preempts.trans_le (ahead h member).priority_le
  · obtain ⟨rest, fifo⟩ := List.head?_eq_some_iff.mp head
    have line : (c.server view).line = f.job :: rest.map Event.job := by simp [server, fifo]
    have serving : (c.server view).serving = some (prev.job, false) := by
      simp [server, served, pc, SchedPc.bringing]
    exact .evict f.job prev.job _ sees line serving preempts

/-- What is served while the scheduler cannot preempt does not yield to the FIFO head. -/
theorem Disciplined.stays (now : c.Disciplined holder) (pc : c.sched = .popBlocked) {f : Event}
    {rest : List Event} (head : c.q.fifo = f :: rest)
    : ¬ (c.server view).Yields eventDiscipline f.job := by
  have promise := now.ranked.promise
  rw [pc] at promise
  obtain ⟨f', first, ahead⟩ := promise
  obtain rfl : f = f' := by simpa [head] using first
  rintro ⟨current, serving, less⟩
  simp only [server, served, pc, SchedPc.bringing, Option.none_or, Queue.serving] at serving
  split at serving
  case isTrue occupied =>
    obtain ⟨rfl, early⟩ := Prod.mk.inj (Option.some.inj serving)
    have window := of_decide_eq_false early
    have waiting : c.Waiting := ⟨occupied, by simp [(not_not.mp window).1]⟩
    exact absurd less (not_lt.mpr (ahead waiting).priority_le)
  case isFalse => cases serving

/-- The scheduler takes events in and out, by cases on the move. -/
theorem Disciplined.sched (now : c.Disciplined holder) (sees : c.Sees view) {ok : Bool}
    (move : SchedMove c ok c')
    : c.Followed c' view := by
  have held := now.held
  cases move with
  | silent next move => exact now.silent sees move
  | start pc | sleepNonempty pc | sleepForFifo pc | actBlock pc | actSignal t id pc
  | spawnKill k pc | spawnJoined k pc | spawned pc | spawnFailed pc =>
      refine .stay trivial ?_
      simp [server, served, pc, SchedPc.bringing, SchedPc.parking, requestCancel, join,
        Queue.sleep, Queue.serving]
  | kill k pc | killNone pc | killJoined k pc =>
      rw [Sees, pc] at sees
      refine .stay sees ?_
      simp [server, served, pc, SchedPc.bringing, SchedPc.parking, requestCancel, join]
  | popReady e rest pc head => exact now.popReady sees pc head
  | popWait e heap pc popped => exact now.popWait sees pc popped
  | claim e pc =>
      have slave : e.dir = .slave := by simpa [pc, SchedPc.Sorted] using held.sorted
      have standard : e.priority = priorityOf e.type :=
        now.balanced.standard now.arrivals (by simp [places, pc, SchedPc.inHand])
      refine .stay trivial ?_
      simp [server, served, pc, SchedPc.bringing, SchedPc.parking, Queue.serving, Event.job,
        claimed, slave, standard]
  | actStage pc =>
      obtain rfl := held.isSlave (by rw [pc]; rfl)
      have slave : c.q.execEvent.dir = .slave := (held.slave rfl).1
      refine .stay trivial ?_
      simp [server, served, pc, SchedPc.bringing, SchedPc.parking, Queue.serving, Event.job,
        Queue.updateStage_execEvent, slave, held.hasExec]
  | install e pc =>
      have master : e.dir = .master := by simpa [pc, SchedPc.Sorted] using held.sorted
      refine .stay (by simp [Sees, master]) ?_
      simp [server, served, pc, SchedPc.bringing, SchedPc.parking, Queue.serving, Event.job,
        master]
  | clear prev pc =>
      obtain rfl := held.isWindow (by rw [pc]; rfl)
      obtain rfl := held.prev prev pc
      rw [Sees, pc] at sees
      refine .stay sees ?_
      simp [server, served, pc, SchedPc.bringing, SchedPc.parking, Queue.serving,
        held.hasExec, held.window rfl]
  | storePrev prev heap pc stored =>
      obtain ⟨f, head, ahead, evict⟩ := now.evict sees pc
      obtain rfl := held.nobody (.inr (by rw [pc]; rfl))
      refine .step (.free (some f.job)) ?_ evict ?_
      · exact ⟨f, rfl, head, fun h member => ahead h (stored.mem_iff.mp member)⟩
      · have room := stored.map Event.job
        simpa [server, served, pc, SchedPc.bringing, SchedPc.parking, Queue.serving,
          held.hasExec] using room
  | losePrev prev pc failed =>
      obtain ⟨f, head, ahead, evict⟩ := now.evict sees pc
      obtain rfl := held.nobody (.inr (by rw [pc]; rfl))
      refine .steps (.free (some f.job)) ?_ evict
        (.lose prev.job (c.server view).room rfl) ?_
      · exact ⟨f, rfl, head, fun h member => ahead h (List.mem_cons_of_mem prev member)⟩
      · simp [server, served, pc, SchedPc.bringing, SchedPc.parking, Queue.serving,
          held.hasExec]
  | popBlocked f rest pc head master =>
      have busy := sees
      rw [Sees, pc] at busy
      have line : (c.server view).line = f.job :: rest.map Event.job := by simp [server, head]
      refine .step .none trivial (.park f.job _ busy line master (now.stays pc head)) ?_
      simp [server, served, pc, SchedPc.bringing, SchedPc.parking, Queue.serving]
  | drop f rest pc head slave =>
      have busy := sees
      rw [Sees, pc] at busy
      have line : (c.server view).line = f.job :: rest.map Event.job := by simp [server, head]
      have cannot : ¬ eventDiscipline.canWait f.job := by
        simp [eventDiscipline, Event.job, slave]
      refine .step .none trivial (.refuse f.job _ busy line cannot (now.stays pc head)) ?_
      simp [server, served, pc, SchedPc.bringing, SchedPc.parking, Queue.serving]
  | park f heap pc stored =>
      refine .stay trivial ?_
      have room := stored.map Event.job
      simpa [server, served, pc, SchedPc.bringing, SchedPc.parking, Queue.serving] using room
  | loseBlocked f pc failed =>
      have room
          : (c.server view).room
            = f.job ::ₘ (c.q.waitHeap.events.map Event.job : List Job) := by
        simp [server, pc, SchedPc.parking]
      refine .step view trivial (.lose f.job _ room) ?_
      simp [server, served, pc, SchedPc.bringing, SchedPc.parking, Queue.serving]

/-- What the scheduler has seen lasts while only the others move. -/
theorem Sees.others (now : c.Sees view) (sched : c'.sched = c.sched)
    (heap : c'.q.waitHeap = c.q.waitHeap)
    (head : ∀ f, c.q.fifo.head? = some f → c'.q.fifo.head? = some f)
    : c'.Sees view := by
  cases pc : c.sched <;> simp only [Sees, sched, pc, Queue.peekWait, heap] at now ⊢ <;>
    try exact now
  case freePopReady | popPreempting =>
    obtain ⟨f, seen, first, ahead⟩ := now
    exact ⟨f, seen, head f first, ahead⟩

/-- Only a scheduler that relies on a free slot brings an event into it or out of it. -/
theorem HeldBy.bringing (held : c.HeldBy holder) (occupied : holder ≠ .nobody)
    : c.sched.bringing = none := by
  cases pc : c.sched with
  | acceptAndClaim e | handleEvent e | pushPrev e =>
      exact absurd (held.nobody (.inr (by rw [pc]; rfl))) occupied
  | _ => rfl

/-- Every move is followed, by cases on the move: an init thread commits its event, and the
notification finishes the event in the slot.
-/
theorem Disciplined.move (now : c.Disciplined holder) (tagged : c.exec.Tagged)
    (sees : c.Sees view) {action : Action} (move : Move c action c')
    : c.Followed c' view := by
  have held := now.held
  cases move with
  | arrive type dir payload =>
      refine .step view ?_ (.arrive (c.arrival type dir payload).job) ?_
      · exact sees.others rfl rfl (fun f head => by simp [head])
      · simp [server, served, Queue.serving]
  | sched ok c' move => exact now.sched sees move
  | wakeNonempty pc | wakeForFifo pc =>
      refine .stay trivial ?_
      simp [server, served, pc, SchedPc.bringing, SchedPc.parking]
  | init k t found c' move =>
      cases move with
      | stage pc =>
          obtain ⟨rfl, -⟩ := held.threads.early k t found (by rw [pc]; rfl)
          have none := held.bringing (by simp)
          have serving : (c.server view).serving = some (c.q.execEvent.job, false) := by
            simp [server, served, none, Queue.serving, held.hasExec, held.window rfl]
          refine .step view (sees.others rfl (by simp) (by simp)) (.commit _ serving) ?_
          simp [server, served, none, Queue.serving, held.hasExec,
            Queue.updateStage_execEvent, Event.job]
      | _ => exact .stay sees rfl
  | dispatch c' move =>
      cases move with
      | clear t ids pc =>
          obtain ⟨rfl, -, -⟩ := held.clearing tagged pc
          have none := held.bringing (by simp)
          have serving : (c.server view).serving = some (c.q.execEvent.job, true) := by
            simp [server, served, none, Queue.serving, held.hasExec, held.exec (.inr rfl)]
          refine .step view (sees.others rfl rfl (fun _ head => head)) (.finish _ serving) ?_
          simp [server, served, none, Queue.serving, held.hasExec]
      | _ => exact .stay sees rfl
  | _ => exact .stay sees rfl

end Ctx

section Runs

variable {role : Role} {cond : Ctx → Action → Prop} {c : Ctx}

end Runs

end QKeySys.Core
