import QKeySys.Core.Execution

/-! What the scheduler may rely on when it compares events: the guard stands for the event
in the slot, and events leave the FIFO in order of arrival.
-/

namespace QKeySys.Core

open QKeySys.Library

/-- The guard priority that the scheduler has read in this iteration. -/
def SchedPc.guardRead : SchedPc → Option Int
  | readSlot pri | busyPeekFifo pri | readStage pri _ | readDir pri _ => some pri
  | _ => none

/-- The FIFO head as the scheduler has peeked it. -/
def SchedPc.peeked : SchedPc → Option Event
  | freePeekWait f => f
  | readStage _ f | readDir _ f => some f
  | _ => none

@[simp]
theorem dispose_guardRead (e : Event) : (Ctx.dispose e).guardRead = none := by
  cases dir : e.dir <;> simp [Ctx.dispose, dir, SchedPc.guardRead]

@[simp]
theorem dispose_peeked (e : Event) : (Ctx.dispose e).peeked = none := by
  cases dir : e.dir <;> simp [Ctx.dispose, dir, SchedPc.peeked]

namespace Ctx

variable {c c' : Ctx} {holder : Holder}

/-- The guard has the priority of the event in the slot, also as the scheduler has read it,
and the Init window is not hard-blocked.
-/
structure Guarded (c : Ctx) : Prop where
  guard : c.q.hasExec = true → c.q.guardPriority = c.q.execEvent.priority
  read
    : ∀ pri, c.sched.guardRead = some pri → c.q.hasExec = true →
        pri = c.q.execEvent.priority
  soft : c.q.hasExec = true → c.q.execEvent.stage = .init → c.q.hardBlocking = false

/-- A move that keeps slot and guard keeps what the guard stands for. -/
theorem Guarded.goto (now : c.Guarded) (next : SchedPc)
    (read
      : ∀ pri, next.guardRead = some pri →
          c.sched.guardRead = some pri ∨ pri = c.q.guardPriority)
    : Guarded { c with sched := next } where
  guard := now.guard
  read pri known occupied := by
    rcases read pri known with before | rfl
    · exact now.read pri before occupied
    · exact now.guard occupied
  soft := now.soft

/-- The guard depends on the slot and the scheduler's program point only. -/
theorem Guarded.same (now : c.Guarded) (sched : c'.sched = c.sched)
    (hasExec : c'.q.hasExec = c.q.hasExec) (event : c'.q.execEvent = c.q.execEvent)
    (hard : c'.q.hardBlocking = c.q.hardBlocking)
    (guard : c'.q.guardPriority = c.q.guardPriority)
    : c'.Guarded := by
  constructor <;> simp only [sched, hasExec, event, hard, guard]
  · exact now.guard
  · exact now.read
  · exact now.soft

/-- Silent moves read the guard in one place only, by cases on the move. -/
theorem Guarded.silent (now : c.Guarded) {next : SchedPc} (move : SilentMove c next)
    : Guarded { c with sched := next } := by
  refine now.goto next ?_
  intro pri known
  cases move with
  | guardSoft pc soft => exact .inr (Option.some.inj known).symm
  | busy pri' pc busy => exact .inl (by rw [pc]; exact known)
  | peekBusy pri' f pc head => exact .inl (by rw [pc]; exact known)
  | stageInit pri' f pc stage => exact .inl (by rw [pc]; exact known)
  | _ => cases known

/-- The scheduler's moves keep the guard in line with the slot, by cases on the move. -/
theorem Guarded.sched (now : c.Guarded) (held : c.HeldBy holder) {ok : Bool}
    (move : SchedMove c ok c')
    : c'.Guarded := by
  cases move with
  | silent next move => exact now.silent move
  | claim e pc =>
      constructor <;> simp [SchedPc.guardRead]
  | actStage pc =>
      constructor
      case soft =>
        intro occupied stage
        have occupied : c.q.hasExec = true := by simpa using occupied
        simp [Queue.updateStage_execEvent, occupied] at stage
      case guard => simpa using now.guard
      case read => simp [SchedPc.guardRead]
  | actBlock pc =>
      constructor
      case soft =>
        intro occupied stage
        obtain rfl := held.isSlave (by rw [pc]; rfl)
        have acted := (held.slave rfl).2 (by simp [pc])
        simp [acted] at stage
      case guard => exact now.guard
      case read => simp [SchedPc.guardRead]
  | install e pc =>
      constructor
      case read =>
        intro pri known
        split at known <;> simp [SchedPc.guardRead] at known
      all_goals simp
  | clear prev pc =>
      constructor <;> simp
  | popReady e rest pc head =>
      exact (now.goto (dispose e) (by simp)).same rfl rfl rfl rfl rfl
  | popWait e heap pc popped =>
      exact (now.goto (dispose e) (by simp)).same rfl rfl rfl rfl rfl
  | _ =>
      refine (now.goto _ ?_).same rfl rfl rfl rfl rfl
      simp [SchedPc.guardRead]

/-- Every move keeps the guard in line with the slot, by cases on the move. -/
theorem Guarded.move (now : c.Guarded) (held : c.HeldBy holder) {action : Action}
    (move : Move c action c')
    : c'.Guarded := by
  cases move with
  | sched ok c' move => exact now.sched held move
  | wakeNonempty pc => exact now.goto _ (by simp [SchedPc.guardRead])
  | wakeForFifo pc => exact now.goto _ (by simp [SchedPc.guardRead])
  | init k t found c' move =>
      cases move with
      | stage pc =>
          constructor
          case soft =>
            intro occupied stage
            have occupied : c.q.hasExec = true := by simpa using occupied
            simp [Queue.updateStage_execEvent, occupied] at stage
          case guard => simpa using now.guard
          case read => simpa using now.read
      | block pc =>
          refine ⟨now.guard, now.read, ?_⟩
          intro occupied stage
          obtain ⟨acting, -⟩ := held.threads.acting k t found (by rw [pc]; rfl)
          have acted : c.q.execEvent.stage = .exec := held.exec (.inl acting)
          simp [acted] at stage
      | _ => exact now.same rfl rfl rfl rfl rfl
  | dispatch c' move =>
      cases move with
      | clear t ids pc => constructor <;> simp
      | _ => exact now.same rfl rfl rfl rfl rfl
  | _ => exact now.same rfl rfl rfl rfl rfl

/-- A peeked event stays the FIFO head: only the scheduler takes events out. -/
def PeekHolds (c : Ctx) : Prop :=
  ∀ f, c.sched.peeked = some f → c.q.fifo.head? = some f

/-- Every move keeps what was peeked, by cases on the move. -/
theorem PeekHolds.move (now : c.PeekHolds) {action : Action} (move : Move c action c')
    : c'.PeekHolds := by
  intro f known
  cases move with
  | arrive type dir payload => simp [now f known]
  | sched ok c' move =>
      cases move with
      | silent next move =>
          cases move with
          | peekFree pc => exact known
          | peekBusy pri f' pc head => exact head.trans known
          | stageInit pri f' pc stage => exact now f (by rw [pc]; exact known)
          | _ => cases known
      | popReady e rest pc head => simp at known
      | popWait e heap pc popped => simp at known
      | install e pc => split at known <;> cases known
      | _ => cases known
  | wakeNonempty pc => cases known
  | wakeForFifo pc => cases known
  | init k t found c' move =>
      cases move with
      | stage pc => simpa using now f known
      | _ => exact now f known
  | dispatch c' move => cases move <;> exact now f known
  | _ => exact now f known

/-- The events that have left the FIFO and have not been completed. -/
def taken (c : Ctx) : List Event := c.q.waitHeap.events ++ c.sched.inHand ++ c.q.inSlot

/-- The FIFO is in order of arrival, numbered accordingly, and behind everything taken out
of it.
-/
structure Line (c : Ctx) : Prop where
  sorted : c.q.fifo.Pairwise (fun a b => a.id < b.id)
  numbered : ∀ f ∈ c.q.fifo, f.seq = UInt64.ofNat f.id
  behind : ∀ e ∈ c.taken, ∀ f ∈ c.q.fifo, e.id < f.id

/-- Moves that leave the FIFO alone and take no other events keep the line. -/
theorem Line.keep (now : c.Line) (fifo : c'.q.fifo = c.q.fifo)
    (taken : ∀ e' ∈ c'.taken, ∃ e ∈ c.taken, e.id = e'.id)
    : c'.Line where
  sorted := by rw [fifo]; exact now.sorted
  numbered := by rw [fifo]; exact now.numbered
  behind := by
    rw [fifo]
    intro e' member f inFifo
    obtain ⟨e, member, same⟩ := taken e' member
    exact same ▸ now.behind e member f inFifo

/-- Moves that leave FIFO and taken events alone keep the line. -/
theorem Line.stay (now : c.Line) (fifo : c'.q.fifo = c.q.fifo) (taken : c'.taken = c.taken)
    : c'.Line :=
  now.keep fifo (fun e member => ⟨e, taken ▸ member, rfl⟩)

/-- Taking the head out of the FIFO keeps the line. -/
theorem Line.pop (now : c.Line) {e : Event} {rest : List Event}
    (head : c.q.fifo = e :: rest) (fifo : c'.q.fifo = rest)
    (taken : ∀ x ∈ c'.taken, x = e ∨ x ∈ c.taken)
    : c'.Line := by
  have sorted := now.sorted
  rw [head, List.pairwise_cons] at sorted
  constructor
  case sorted => exact fifo ▸ sorted.2
  case numbered =>
    rw [fifo]
    exact fun f member => now.numbered f (head ▸ List.mem_cons_of_mem e member)
  case behind =>
    rw [fifo]
    intro x member f inRest
    rcases taken x member with rfl | member
    · exact sorted.1 f inRest
    · exact now.behind x member f (head ▸ List.mem_cons_of_mem e inRest)

/-- Silent moves take no event. -/
theorem Line.silent (now : c.Line) {next : SchedPc} (move : SilentMove c next)
    : Line { c with sched := next } := by
  have before : c.sched.inHand = [] := by cases move <;> rw [‹c.sched = _›] <;> rfl
  have after : next.inHand = [] := by cases move <;> rfl
  refine now.stay rfl ?_
  simp only [taken, before, after]

/-- Switching the stage takes no event. -/
theorem taken_updateStage (stage : Stage) (q : c'.q = c.q.updateStage stage)
    (inHand : c'.sched.inHand = c.sched.inHand) (e' : Event) (member : e' ∈ c'.taken)
    : ∃ e ∈ c.taken, e.id = e'.id := by
  simp only [taken, q, inHand, Queue.inSlot, Queue.updateStage_waitHeap,
    Queue.updateStage_hasExec, List.mem_append] at member
  rcases member with member | member
  · exact ⟨e', by simp only [taken, List.mem_append]; exact .inl member, rfl⟩
  · split at member
    case isTrue occupied =>
      refine ⟨c.q.execEvent, by simp [taken, Queue.inSlot, occupied], ?_⟩
      rw [List.mem_singleton.mp member, Queue.updateStage_execEvent_id]
    case isFalse => cases member

/-- The scheduler's moves keep the line, by cases on the move. -/
theorem Line.sched (now : c.Line) (held : c.HeldBy holder) {ok : Bool}
    (move : SchedMove c ok c')
    : c'.Line := by
  cases move with
  | silent next move => exact now.silent move
  | popReady e rest pc head =>
      refine now.pop head rfl ?_
      simp only [taken, dispose_inHand, Queue.inSlot, List.mem_append, List.mem_singleton]
      tauto
  | popWait e heap pc popped =>
      have split := WaitHeap.heapPop_events popped
      refine now.keep rfl (fun x member => ⟨x, ?_, rfl⟩)
      simp only [taken, dispose_inHand, List.mem_append, List.mem_singleton] at member
      simp only [taken, List.mem_append, split.mem_iff, List.mem_cons]
      tauto
  | claim e pc =>
      refine now.keep rfl (fun x member => ?_)
      simp only [taken, SchedPc.inHand, Queue.inSlot, Queue.setExecSlot_hasExec, if_true,
        Queue.setExecSlot_waitHeap, Queue.setExecSlot_execEvent, List.append_nil,
        List.mem_append, List.mem_singleton] at member
      rcases member with member | rfl
      · exact ⟨x, by simp [taken, member], rfl⟩
      · exact ⟨e, by simp [taken, pc, SchedPc.inHand], rfl⟩
  | install e pc =>
      have empty : (if e.dir = .master then SchedPc.spawnCheck else .loopTop).inHand = [] := by
        split <;> rfl
      refine now.keep rfl (fun x member => ?_)
      simp only [taken, empty, Queue.inSlot, Queue.setExecSlot_hasExec, if_true,
        Queue.setExecSlot_waitHeap, Queue.setExecSlot_execEvent, List.append_nil,
        List.mem_append, List.mem_singleton] at member
      rcases member with member | rfl
      · exact ⟨x, by simp [taken, member], rfl⟩
      · exact ⟨e, by simp [taken, pc, SchedPc.inHand], rfl⟩
  | actStage pc =>
      exact now.keep (by simp) (taken_updateStage .exec rfl (by rw [pc]; rfl))
  | clear prev pc =>
      obtain rfl := held.isWindow (by rw [pc]; rfl)
      obtain rfl := held.prev prev pc
      have occupied : c.q.hasExec = true := by simpa using held.hasExec
      refine now.keep rfl (fun x member => ⟨x, ?_, rfl⟩)
      simpa [taken, pc, SchedPc.inHand, Queue.inSlot, occupied] using member
  | storePrev prev heap pc stored =>
      refine now.keep rfl (fun x member => ⟨x, ?_, rfl⟩)
      simp only [taken, SchedPc.inHand, List.mem_append, stored.mem_iff, List.mem_cons]
        at member
      simp only [taken, pc, SchedPc.inHand, List.mem_append, List.mem_singleton]
      tauto
  | losePrev prev pc failed =>
      refine now.keep rfl (fun x member => ⟨x, ?_, rfl⟩)
      simp only [taken, SchedPc.inHand, List.mem_append] at member
      simp only [taken, pc, SchedPc.inHand, List.mem_append, List.mem_singleton]
      tauto
  | popBlocked f rest pc head master =>
      refine now.pop head rfl ?_
      simp only [taken, SchedPc.inHand, Queue.inSlot, List.mem_append, List.mem_singleton]
      tauto
  | drop f rest pc head slave =>
      refine now.pop head rfl (fun x member => .inr ?_)
      simpa [taken, pc, SchedPc.inHand, Queue.inSlot] using member
  | park f heap pc stored =>
      refine now.keep rfl (fun x member => ⟨x, ?_, rfl⟩)
      simp only [taken, SchedPc.inHand, List.mem_append, stored.mem_iff, List.mem_cons]
        at member
      simp only [taken, pc, SchedPc.inHand, List.mem_append, List.mem_singleton]
      tauto
  | loseBlocked f pc failed =>
      refine now.keep rfl (fun x member => ⟨x, ?_, rfl⟩)
      simp only [taken, SchedPc.inHand, List.mem_append] at member
      simp only [taken, pc, SchedPc.inHand, List.mem_append, List.mem_singleton]
      tauto
  | _ =>
      refine now.stay rfl ?_
      rw [taken, taken, ‹c.sched = _›]
      rfl

/-- Every move keeps the line; an arrival is numbered behind all others. -/
theorem Line.move (now : c.Line) (held : c.HeldBy holder) (balanced : c.Balanced)
    (arrivals : c.Arrivals) {action : Action} (move : Move c action c')
    : c'.Line := by
  cases move with
  | arrive type dir payload =>
      constructor
      case sorted =>
        refine List.pairwise_append.mpr ⟨now.sorted, List.pairwise_singleton _ _, ?_⟩
        intro a member b last
        rw [List.mem_singleton.mp last]
        exact Nat.lt_succ_of_le (balanced.bounded arrivals (by simp [places, member]))
      case numbered =>
        intro f member
        rcases List.mem_append.mp member with member | last
        · exact now.numbered f member
        · rw [List.mem_singleton.mp last]
          simp only [arrival, arrivals.counter, UInt64.ofNat_add]
          rfl
      case behind =>
        intro e member f inFifo
        rcases List.mem_append.mp inFifo with inFifo | last
        · exact now.behind e member f inFifo
        · rw [List.mem_singleton.mp last]
          refine Nat.lt_succ_of_le (balanced.bounded arrivals ?_)
          simp only [taken, Queue.inSlot, List.mem_append] at member
          simp only [places, Queue.inSlot, List.mem_append]
          tauto
  | sched ok c' move => exact now.sched held move
  | wakeNonempty pc =>
      exact now.stay rfl (by rw [taken, taken, pc]; rfl)
  | wakeForFifo pc =>
      exact now.stay rfl (by rw [taken, taken, pc]; rfl)
  | init k t found c' move =>
      cases move with
      | stage pc =>
          exact now.keep (by simp) (taken_updateStage .exec rfl rfl)
      | _ => exact ⟨now.sorted, now.numbered, now.behind⟩
  | dispatch c' move =>
      cases move with
      | clear t ids pc =>
          refine now.keep rfl (fun x member => ⟨x, ?_, rfl⟩)
          simp only [taken, Queue.inSlot, Queue.clearExecSlot_hasExec, Bool.false_eq_true,
            if_false, Queue.clearExecSlot_waitHeap, List.append_nil] at member
          simp only [taken]
          exact List.mem_append_left _ member
      | _ => exact ⟨now.sorted, now.numbered, now.behind⟩
  | _ => exact ⟨now.sorted, now.numbered, now.behind⟩

end Ctx

section Runs

variable {role : Role} {cond : Ctx → Action → Prop} {c : Ctx}

theorem runsWhen_peekHolds (reached : (runsWhen role cond).Reachable c) : c.PeekHolds :=
  runsWhen_induct Ctx.PeekHolds (by simp [Ctx.PeekHolds, Ctx.init, SchedPc.peeked])
    (fun _ _ _ _ now _ move => now.move move) reached

/-- When the init threads act in time, the guard stands for the event in the slot. -/
theorem runsWhen_guarded (inTime : ∀ c action, cond c action → c.actsInTime action)
    (reached : (runsWhen role cond).Reachable c)
    : c.Guarded := by
  refine runsWhen_induct Ctx.Guarded ?_ ?_ reached
  · constructor <;> simp [Ctx.init, Queue.init]
  · intro c action c' reached now _ move
    obtain ⟨holder, held⟩ := runsWhen_held inTime reached
    exact now.move held move

/-- When the init threads act in time, events leave the FIFO in order of arrival. -/
theorem runsWhen_line (inTime : ∀ c action, cond c action → c.actsInTime action)
    (reached : (runsWhen role cond).Reachable c)
    : c.Line := by
  refine runsWhen_induct Ctx.Line ?_ ?_ reached
  · constructor <;> simp [Ctx.init, Queue.init]
  · intro c action c' reached now _ move
    obtain ⟨holder, held⟩ := runsWhen_held inTime reached
    exact now.move held (runsWhen_balanced inTime reached) (runsWhen_arrivals reached) move

end Runs

end QKeySys.Core
