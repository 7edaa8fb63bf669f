import QKeySys.Core.Line

/-! Nothing in the wait heap outranks an event that is on its way to its execution: not the
MASTER in its Init window, not the event that the scheduler is about to install.
-/

namespace QKeySys.Core

open QKeySys.Library

namespace Ctx

variable {c c' : Ctx} {holder : Holder}

/-- `e` goes before `h`: by priority, or by arrival as long as the numbers are distinct. -/
def Ahead (c : Ctx) (e h : Event) : Prop :=
  e.priority < h.priority
  ∨ (e.priority = h.priority ∧ (c.log.attempts < UInt64.size → e.id < h.id))

/-- `e` goes before everything in the wait heap. -/
def AheadOfHeap (c : Ctx) (e : Event) : Prop := ∀ h ∈ c.q.waitHeap.events, c.Ahead e h

/-- Being ahead depends on priority and arrival only, and lasts when more events arrive. -/
theorem Ahead.mono {e h e' : Event} (now : c.Ahead e h)
    (attempts : c.log.attempts ≤ c'.log.attempts) (priority : e'.priority = e.priority)
    (id : e'.id = e.id)
    : c'.Ahead e' h := by
  unfold Ahead at now ⊢
  rw [priority, id]
  exact now.imp_right (.imp_right (fun order bound => order (by omega)))

theorem Ahead.priority_le {e h : Event} (now : c.Ahead e h) : e.priority ≤ h.priority := by
  rcases now with less | ⟨same, -⟩
  · exact less.le
  · exact same.le

theorem AheadOfHeap.mono {e e' : Event} (now : c.AheadOfHeap e)
    (attempts : c.log.attempts ≤ c'.log.attempts) (priority : e'.priority = e.priority)
    (id : e'.id = e.id)
    (heap : ∀ h ∈ c'.q.waitHeap.events, h ∈ c.q.waitHeap.events)
    : c'.AheadOfHeap e' :=
  fun h member => (now h (heap h member)).mono attempts priority id

/-- A numbered event that `cmp` ranks no later than another numbered one is ahead of it. -/
theorem ahead_of_key_le {e h : Event} (ranked : e.key ≤ h.key) (other : e.id ≠ h.id)
    (numbered : e.seq = UInt64.ofNat e.id) (numbered' : h.seq = UInt64.ofNat h.id)
    (bounded : e.id ≤ c.log.attempts) (bounded' : h.id ≤ c.log.attempts)
    : c.Ahead e h := by
  rcases Event.key_le_iff.mp ranked with less | ⟨same, order⟩
  · exact .inl less
  · refine .inr ⟨same, fun bound => ?_⟩
    have notAfter := mt (Event.seq_lt_iff bound numbered' numbered bounded' bounded).mpr
      (UInt64.not_lt.mpr order)
    omega

/-- A choice for the FIFO head ranks it no later than the top of the heap. -/
theorem key_le_of_chooseFifo {f h : Event} (chosen : chooseFifo f h = true)
    : f.key ≤ h.key := by
  refine (Event.key_lt_iff.mpr ?_).le
  simpa [chooseFifo] using chosen

/-- The event in the slot has not been switched to EXEC yet. -/
def Waiting (c : Ctx) : Prop := c.q.hasExec = true ∧ c.q.execEvent.stage ≠ .exec

/-- What the scheduler has established at a program point about the event it will take or
has taken: it is ahead of the wait heap, it preempts, or it does not preempt.
-/
def Promised (c : Ctx) : SchedPc → Prop
  | .freePopReady | .popPreempting => ∃ f, c.q.fifo.head? = some f ∧ c.AheadOfHeap f
  | .acceptAndClaim e | .handleEvent e => c.AheadOfHeap e
  | .killCurrent | .killJoin _ | .readPrev | .clearSlot _ =>
      ∃ f, c.q.fifo.head? = some f ∧ f.priority < c.q.execEvent.priority
  | .pushPrev prev =>
      c.AheadOfHeap prev ∧ ∃ f, c.q.fifo.head? = some f ∧ f.priority < prev.priority
  | .popBlocked =>
      ∃ f, c.q.fifo.head? = some f ∧ (c.Waiting → c.Ahead c.q.execEvent f)
  | .parkBlocked f => c.Waiting → c.Ahead c.q.execEvent f
  | _ => True

/-- The event in the slot is ahead of the wait heap until it is switched to EXEC, and the
scheduler keeps what it has established.
-/
structure Ranked (c : Ctx) : Prop where
  slot : c.Waiting → c.AheadOfHeap c.q.execEvent
  promise : c.Promised c.sched

theorem promised_dispose {e : Event} (ahead : c.AheadOfHeap e) : c.Promised (dispose e) := by
  cases dir : e.dir <;> simpa [dispose, dir, Promised] using ahead

/-- More arrivals and a change of the stage keep what the scheduler has established. -/
theorem Promised.mono {pc : SchedPc} (now : c.Promised pc)
    (attempts : c.log.attempts ≤ c'.log.attempts)
    (heap : c'.q.waitHeap = c.q.waitHeap)
    (head : ∀ f, c.q.fifo.head? = some f → c'.q.fifo.head? = some f)
    (priority : c'.q.execEvent.priority = c.q.execEvent.priority)
    (id : c'.q.execEvent.id = c.q.execEvent.id) (waiting : c'.Waiting → c.Waiting)
    : c'.Promised pc := by
  have ahead {e : Event} (before : c.AheadOfHeap e) : c'.AheadOfHeap e :=
    before.mono attempts rfl rfl (by simp [heap])
  cases pc <;> simp only [Promised] at now ⊢
  case freePopReady | popPreempting =>
    exact now.imp (fun f both => ⟨head f both.1, ahead both.2⟩)
  case acceptAndClaim | handleEvent => exact ahead now
  case killCurrent | killJoin | readPrev | clearSlot =>
    exact now.imp (fun f both => ⟨head f both.1, priority ▸ both.2⟩)
  case pushPrev => exact ⟨ahead now.1, now.2.imp (fun f both => ⟨head f both.1, both.2⟩)⟩
  case popBlocked =>
    exact now.imp (fun f both =>
      ⟨head f both.1, fun later => (both.2 (waiting later)).mono attempts priority id⟩)
  case parkBlocked => exact fun later => (now (waiting later)).mono attempts priority id

/-- More arrivals and a change of the stage keep the ranking. -/
theorem Ranked.mono (now : c.Ranked) (attempts : c.log.attempts ≤ c'.log.attempts)
    (heap : c'.q.waitHeap = c.q.waitHeap)
    (head : ∀ f, c.q.fifo.head? = some f → c'.q.fifo.head? = some f)
    (priority : c'.q.execEvent.priority = c.q.execEvent.priority)
    (id : c'.q.execEvent.id = c.q.execEvent.id) (waiting : c'.Waiting → c.Waiting)
    (promise : c.Promised c'.sched)
    : c'.Ranked where
  slot later := (now.slot (waiting later)).mono attempts priority id (by simp [heap])
  promise := promise.mono attempts heap head priority id waiting

/-- A slot that is waiting for its execution, while the scheduler is elsewhere, is an Init
window.
-/
theorem HeldBy.window_of_waiting (held : c.HeldBy holder) (waiting : c.Waiting)
    (region : c.sched.region ≠ .slave)
    : holder = .window := by
  obtain ⟨occupied, stage⟩ := waiting
  have allowed := held.region
  cases holder with
  | nobody => simp [held.hasExec] at occupied
  | window => rfl
  | acting => exact absurd (held.exec (.inl rfl)) stage
  | slave => cases region' : c.sched.region <;> simp_all [Holder.allows]
  | running => exact absurd (held.exec (.inr rfl)) stage

/-- Silent moves establish their promises by comparing, by cases on the move. -/
theorem Ranked.silent (now : c.Ranked) (held : c.HeldBy holder) (guarded : c.Guarded)
    (peek : c.PeekHolds) (line : c.Line) (balanced : c.Balanced) (arrivals : c.Arrivals)
    {next : SchedPc}
    (move : SilentMove c next)
    : Ranked { c with sched := next } := by
  refine now.mono (le_refl _) rfl (fun _ head => head) rfl rfl id ?_
  cases move with
  | takeFifo f pc chosen =>
      have head : c.q.fifo.head? = some f := peek f (by rw [pc]; rfl)
      have inFifo : f ∈ c.q.fifo := List.mem_of_mem_head? head
      refine ⟨f, head, fun h inHeap => ?_⟩
      cases top : c.q.peekWait with
      | none =>
          have empty := WaitHeap.heapPeek_eq_none.mp top
          simp [empty] at inHeap
      | some root =>
          have ranked : f.key ≤ h.key :=
            (key_le_of_chooseFifo (chosen root top)).trans (WaitHeap.heapPeek_le top inHeap)
          have later := line.behind h (by simp [taken, inHeap]) f inFifo
          refine ahead_of_key_le ranked later.ne' (line.numbered f inFifo) ?_ ?_ ?_
          · exact balanced.numbered arrivals (by simp [places, inHeap]) (balanced.heap h inHeap)
          · exact balanced.bounded arrivals (by simp [places, inFifo])
          · exact balanced.bounded arrivals (by simp [places, inHeap])
  | preempt pri f pc master allowed =>
      have window := held.isWindow (by simp [pc, SchedPc.region, allowed])
      have occupied : c.q.hasExec = true := by simp [held.hasExec, window]
      refine ⟨f, peek f (by rw [pc]; rfl), ?_⟩
      rw [← guarded.read pri (by rw [pc]; rfl) occupied]
      simpa [canPreempt] using allowed
  | stageOther pri f pc stage =>
      refine ⟨f, peek f (by rw [pc]; rfl), fun waiting => ?_⟩
      have window := held.window_of_waiting waiting (by simp [pc, SchedPc.region])
      exact absurd (held.window window).1 stage
  | noPreempt pri f pc blocked =>
      have head : c.q.fifo.head? = some f := peek f (by rw [pc]; rfl)
      refine ⟨f, head, fun waiting => ?_⟩
      have region : c.sched.region ≠ .slave := by
        rw [pc, SchedPc.region]
        split <;> simp
      have window := held.window_of_waiting waiting region
      have same := guarded.read pri (by rw [pc]; rfl) waiting.1
      have notLess : ¬ f.priority < c.q.execEvent.priority := by
        rw [← same]
        intro less
        exact blocked ⟨(held.window window).2, by simpa [canPreempt] using less⟩
      have order : c.q.execEvent.id < f.id :=
        line.behind _ (by simp [taken, Queue.inSlot, waiting.1]) f (List.mem_of_mem_head? head)
      rcases lt_or_eq_of_le (not_lt.mp notLess) with less | equal
      · exact .inl less
      · exact .inr ⟨equal, fun _ => order⟩
  | readPrev pc =>
      have promise := now.promise
      rw [pc] at promise
      exact promise
  | _ => trivial

/-- The scheduler's moves keep the ranking, by cases on the move: what is popped, installed
or put back is what the promise was about.
-/
theorem Ranked.sched (now : c.Ranked) (held : c.HeldBy holder) (guarded : c.Guarded)
    (peek : c.PeekHolds) (line : c.Line) (balanced : c.Balanced) (arrivals : c.Arrivals)
    {ok : Bool}
    (move : SchedMove c ok c')
    : c'.Ranked := by
  have promise := now.promise
  cases move with
  | silent next move => exact now.silent held guarded peek line balanced arrivals move
  | popReady e rest pc head =>
      have ahead : c.AheadOfHeap e := by
        rcases pc with pc | pc <;> rw [pc] at promise <;> obtain ⟨f, first, ahead⟩ := promise
          <;> simp only [head, List.head?_cons, Option.some.injEq] at first
          <;> exact first ▸ ahead
      exact ⟨now.slot, promised_dispose ahead⟩
  | popWait e heap pc popped =>
      have split := WaitHeap.heapPop_events popped
      have rest : ∀ h ∈ heap.events, h ∈ c.q.waitHeap.events := fun h inRest =>
        split.mem_iff.mpr (List.mem_cons_of_mem e inRest)
      have inHeap : e ∈ c.q.waitHeap.events := split.mem_iff.mpr List.mem_cons_self
      have top : c.q.waitHeap.heapPeek = some e := by
        rw [← WaitHeap.heapPop_fst, popped]
        rfl
      have distinct := (balanced.nodup_behind arrivals)
      refine ⟨fun waiting h inRest => now.slot waiting h (rest h inRest), ?_⟩
      refine promised_dispose (fun h inRest => ?_)
      refine ahead_of_key_le (WaitHeap.heapPeek_le top (rest h inRest)) ?_ ?_ ?_ ?_ ?_
      · rw [List.map_append, List.nodup_append, (split.map Event.id).nodup_iff,
          List.map_cons, List.nodup_cons] at distinct
        intro same
        exact distinct.1.1 (same ▸ List.mem_map_of_mem inRest)
      · exact balanced.numbered arrivals (by simp [places, inHeap]) (balanced.heap e inHeap)
      · exact balanced.numbered arrivals (by simp [places, rest h inRest])
          (balanced.heap h (rest h inRest))
      · exact balanced.bounded arrivals (by simp [places, inHeap])
      · exact balanced.bounded arrivals (by simp [places, rest h inRest])
  | claim e pc =>
      rw [pc] at promise
      have standard : e.priority = priorityOf e.type :=
        balanced.standard arrivals (by simp [places, pc, SchedPc.inHand])
      refine ⟨fun _ => ?_, trivial⟩
      exact AheadOfHeap.mono promise (le_refl _) standard.symm rfl (fun _ member => member)
  | actStage pc =>
      refine ⟨fun waiting => ?_, trivial⟩
      obtain ⟨occupied, stage⟩ := waiting
      have occupied : c.q.hasExec = true := by simpa using occupied
      simp [Queue.updateStage_execEvent, occupied] at stage
  | install e pc =>
      rw [pc] at promise
      refine ⟨fun _ => ?_, by split <;> trivial⟩
      exact AheadOfHeap.mono promise (le_refl _) rfl rfl (fun _ member => member)
  | kill k pc handle => exact ⟨now.slot, by rw [pc] at promise; exact promise⟩
  | killNone pc handle => exact ⟨now.slot, by rw [pc] at promise; exact promise⟩
  | killJoined k pc ended => exact ⟨now.slot, by rw [pc] at promise; exact promise⟩
  | clear prev pc =>
      rw [pc] at promise
      obtain rfl := held.isWindow (by rw [pc]; rfl)
      obtain rfl := held.prev prev pc
      have waiting : c.Waiting := ⟨by simpa using held.hasExec, by simp [(held.window rfl).1]⟩
      exact ⟨by simp [Waiting], now.slot waiting, promise⟩
  | storePrev prev heap pc stored =>
      rw [pc] at promise
      obtain ⟨ahead, f, head, preempts⟩ := promise
      obtain rfl := held.nobody (.inr (by rw [pc]; rfl))
      refine ⟨fun waiting => ?_, f, head, fun h inHeap => .inl ?_⟩
      · have free := waiting.1
        simp [held.hasExec] at free
      · rcases List.mem_cons.mp (stored.mem_iff.mp inHeap) with rfl | inHeap
        · exact preempts
        · exact preempts.trans_le (ahead h inHeap).priority_le
  | losePrev prev pc failed =>
      rw [pc] at promise
      obtain ⟨ahead, f, head, preempts⟩ := promise
      refine ⟨now.slot, f, head, fun h inHeap => .inl ?_⟩
      exact preempts.trans_le (ahead h inHeap).priority_le
  | popBlocked f rest pc head master =>
      rw [pc] at promise
      obtain ⟨f', first, ahead⟩ := promise
      obtain rfl : f = f' := by simpa [head] using first
      exact ⟨now.slot, ahead⟩
  | park f heap pc stored =>
      rw [pc] at promise
      refine ⟨fun waiting h inHeap => ?_, trivial⟩
      rcases List.mem_cons.mp (stored.mem_iff.mp inHeap) with rfl | inHeap
      · exact promise waiting
      · exact now.slot waiting h inHeap
  | _ => exact ⟨now.slot, trivial⟩

/-- Every move keeps the ranking, by cases on the move. -/
theorem Ranked.move (now : c.Ranked) (held : c.HeldBy holder) (guarded : c.Guarded)
    (peek : c.PeekHolds) (line : c.Line) (balanced : c.Balanced) (arrivals : c.Arrivals)
    {action : Action}
    (move : Move c action c')
    : c'.Ranked := by
  cases move with
  | arrive type dir payload =>
      refine now.mono (Nat.le_succ _) rfl (fun f head => ?_) rfl rfl id now.promise
      simp [head]
  | reject type dir payload =>
      exact now.mono (Nat.le_succ _) rfl (fun _ head => head) rfl rfl id now.promise
  | sched ok c' move => exact now.sched held guarded peek line balanced arrivals move
  | init k t found c' move =>
      cases move with
      | stage pc =>
          refine now.mono (le_refl _) (by simp) (by simp) (by simp) (by simp) ?_ now.promise
          intro waiting
          obtain ⟨occupied, stage⟩ := waiting
          have occupied : c.q.hasExec = true := by simpa using occupied
          simp [Queue.updateStage_execEvent, occupied] at stage
      | _ => exact now.mono (le_refl _) rfl (fun _ head => head) rfl rfl id now.promise
  | dispatch c' move =>
      cases move with
      | clear t ids pc =>
          refine now.mono (le_refl _) rfl (fun _ head => head) rfl rfl ?_ now.promise
          simp [Waiting]
      | _ => exact now.mono (le_refl _) rfl (fun _ head => head) rfl rfl id now.promise
  | wakeNonempty pc => exact now.mono (le_refl _) rfl (fun _ head => head) rfl rfl id trivial
  | wakeForFifo pc => exact now.mono (le_refl _) rfl (fun _ head => head) rfl rfl id trivial
  | _ => exact now.mono (le_refl _) rfl (fun _ head => head) rfl rfl id now.promise

end Ctx

section Runs

variable {role : Role} {cond : Ctx → Action → Prop} {c : Ctx}

/-- When the init threads act in time, nothing in the wait heap outranks the Init window. -/
theorem runsWhen_ranked (inTime : ∀ c action, cond c action → c.actsInTime action)
    (reached : (runsWhen role cond).Reachable c)
    : c.Ranked := by
  refine runsWhen_induct Ctx.Ranked ?_ ?_ reached
  · constructor <;> simp [Ctx.init, Queue.init, Ctx.Waiting, Ctx.Promised]
  · intro c action c' reached now _ move
    obtain ⟨holder, held⟩ := runsWhen_held inTime reached
    exact now.move held (runsWhen_guarded inTime reached) (runsWhen_peekHolds reached)
      (runsWhen_line inTime reached) (runsWhen_balanced inTime reached)
      (runsWhen_arrivals reached) move

end Runs

end QKeySys.Core
