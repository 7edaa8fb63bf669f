import QKeySys.Core.Line

/-! SLAVE events that arrive under a hard block. They are to be dropped, and they are as long
as the scheduler meets them in its blocked branch; a slot that becomes free while one of them
is the FIFO head lets it in.
-/

namespace QKeySys.Core

open QKeySys.Library

namespace Exec

/-- The dispatcher takes over nothing but signalled events, by cases on the move. -/
theorem DispatcherRule.dispatched_mem {x y : Exec} (move : DispatcherRule x y) {id : Nat}
    (member : id ∈ y.log.dispatched)
    : id ∈ x.log.dispatched ∨ id ∈ x.inFlight := by
  cases move with
  | take pc awake =>
      rcases List.mem_append.mp member with before | pending
      · exact .inl before
      · exact .inr (List.mem_append_right _ pending)
  | _ => exact .inl member

end Exec

/-- The numbers of the events that the scheduler holds at a program point. -/
def SchedPc.holding : SchedPc → List Nat
  | acceptAndClaim e | handleEvent e | pushPrev e | parkBlocked e | clearSlot e => [e.id]
  | onActSignal _ id => [id]
  | _ => []

/-- The scheduler is going to take the FIFO head for the slot. -/
def SchedPc.takesHead : SchedPc → Bool
  | freePopReady | killCurrent | killJoin _ | readPrev | clearSlot _ | pushPrev _
  | popPreempting => true
  | _ => false

theorem dispose_holding (e : Event) : (Ctx.dispose e).holding = [e.id] := by
  cases dir : e.dir <;> simp [Ctx.dispose, dir, SchedPc.holding]

@[simp]
theorem dispose_takesHead (e : Event) : (Ctx.dispose e).takesHead = false := by
  cases dir : e.dir <;> simp [Ctx.dispose, dir, SchedPc.takesHead]

namespace Ctx

variable {c c' : Ctx} {P Q : Nat → Prop}

/-- All events that left the FIFO, other than by being dropped, have numbers in `P`; so do
the signals given for them.
-/
structure Behind (P : Nat → Prop) (c : Ctx) : Prop where
  heap : ∀ e ∈ c.q.waitHeap.events, P e.id
  holding : ∀ id ∈ c.sched.holding, P id
  slot : P c.q.execEvent.id
  completed : ∀ e ∈ c.log.completed, P e.id
  lost : ∀ e ∈ c.log.lost, P e.id
  threads
    : ∀ (k : Nat) (t : InitThread) (type : EventType) (id : Nat),
        c.initThreads[k]? = some t → t.pc = .signal type id → P id
  inFlight : ∀ id ∈ c.exec.inFlight, P id
  dispatched : ∀ id ∈ c.exec.log.dispatched, P id

namespace Behind

theorem imp (now : c.Behind P) (weaker : ∀ id, P id → Q id) : c.Behind Q where
  heap e member := weaker _ (now.heap e member)
  holding id member := weaker id (now.holding id member)
  slot := weaker _ now.slot
  completed e member := weaker _ (now.completed e member)
  lost e member := weaker _ (now.lost e member)
  threads k t type id found pc := weaker id (now.threads k t type id found pc)
  inFlight id member := weaker id (now.inFlight id member)
  dispatched id member := weaker id (now.dispatched id member)

theorem and (now : c.Behind P) (also : c.Behind Q) : c.Behind (fun id => P id ∧ Q id) where
  heap e member := ⟨now.heap e member, also.heap e member⟩
  holding id member := ⟨now.holding id member, also.holding id member⟩
  slot := ⟨now.slot, also.slot⟩
  completed e member := ⟨now.completed e member, also.completed e member⟩
  lost e member := ⟨now.lost e member, also.lost e member⟩
  threads k t type id found pc :=
    ⟨now.threads k t type id found pc, also.threads k t type id found pc⟩
  inFlight id member := ⟨now.inFlight id member, also.inFlight id member⟩
  dispatched id member := ⟨now.dispatched id member, also.dispatched id member⟩

/-- Moves of the scheduler that only pass on what it knows keep the numbers. -/
theorem goto (now : c.Behind P) (event : c'.q.execEvent.id = c.q.execEvent.id)
    (holding : ∀ id ∈ c'.sched.holding, P id)
    (heap : ∀ e ∈ c'.q.waitHeap.events, P e.id) (exec : c'.exec = c.exec)
    (completed : c'.log.completed = c.log.completed) (lost : ∀ e ∈ c'.log.lost, P e.id)
    (threads
      : ∀ (k : Nat) (t' : InitThread), c'.initThreads[k]? = some t' →
          (∃ t, c.initThreads[k]? = some t ∧ t'.pc = t.pc) ∨ t'.pc = .snapshot)
    : c'.Behind P where
  heap := heap
  holding := holding
  slot := event ▸ now.slot
  completed := completed ▸ now.completed
  lost := lost
  threads := by
    intro k t' type id found at_signal
    rcases threads k t' found with ⟨t, found, pc⟩ | fresh
    · exact now.threads k t type id found (pc ▸ at_signal)
    · simp [fresh] at at_signal
  inFlight := exec ▸ now.inFlight
  dispatched := exec ▸ now.dispatched

/-- The scheduler's moves keep the numbers when what is taken from the FIFO is in `P`. -/
theorem sched (now : c.Behind P)
    (taken
      : ∀ f, c.q.fifo.head? = some f →
          c.sched.takesHead = true ∨ (c.sched = .popBlocked ∧ f.dir = .master) → P f.id)
    {ok : Bool} (move : SchedMove c ok c')
    : c'.Behind P := by
  have heap := now.heap
  have holding := now.holding
  have lost := now.lost
  have same (k : Nat) (t : InitThread) (found : c.initThreads[k]? = some t)
      : (∃ t', c.initThreads[k]? = some t' ∧ t.pc = t'.pc) ∨ t.pc = .snapshot :=
    .inl ⟨t, found, rfl⟩
  cases move with
  | silent next move =>
      refine now.goto rfl ?_ heap rfl rfl lost same
      cases move with
      | readType pc => simpa [SchedPc.holding] using now.slot
      | readPrev pc => simpa [SchedPc.holding] using now.slot
      | _ => simp [SchedPc.holding]
  | popReady e rest pc head =>
      have mine : P e.id := by
        refine taken e (by simp [head]) (.inl ?_)
        rcases pc with pc | pc <;> rw [pc] <;> rfl
      exact now.goto rfl (by simpa [dispose_holding] using mine) heap rfl rfl lost same
  | popWait e rest pc popped =>
      have split := WaitHeap.heapPop_events popped
      have mine : P e.id := heap e (split.mem_iff.mpr List.mem_cons_self)
      refine now.goto rfl (by simpa [dispose_holding] using mine) ?_ rfl rfl lost same
      exact fun x member => heap x (split.mem_iff.mpr (List.mem_cons_of_mem e member))
  | claim e pc =>
      have mine : P e.id := holding e.id (by simp [pc, SchedPc.holding])
      exact { now with slot := mine, holding := by simp [SchedPc.holding] }
  | actStage pc =>
      exact now.goto (by simp) (by simp [SchedPc.holding]) (by simpa using heap) rfl rfl lost
        same
  | actSignal t id pc =>
      have mine : P id := holding id (by simp [pc, SchedPc.holding])
      have next : Behind P { c with sched := .loopTop } :=
        now.goto rfl (by simp [SchedPc.holding]) heap rfl rfl lost same
      refine { next with inFlight := ?_ }
      simpa [or_imp, forall_and, mine] using now.inFlight
  | install e pc =>
      have mine : P e.id := holding e.id (by simp [pc, SchedPc.holding])
      refine { now with slot := mine, holding := ?_ }
      intro id member
      split at member <;> cases member
  | spawnKill k pc busy handle =>
      refine now.goto rfl (by simp [SchedPc.holding]) heap rfl rfl lost (fun k t found => ?_)
      obtain ⟨t', found, pc, -⟩ := requestCancel_found found
      exact .inl ⟨t', found, pc⟩
  | kill k pc handle =>
      refine now.goto rfl (by simp [SchedPc.holding]) heap rfl rfl lost (fun k t found => ?_)
      obtain ⟨t', found, pc, -⟩ := requestCancel_found found
      exact .inl ⟨t', found, pc⟩
  | spawnJoined k pc ended =>
      refine now.goto rfl (by simp [SchedPc.holding]) heap rfl rfl lost (fun k t found => ?_)
      obtain ⟨t', found, pc, -⟩ := join_found found
      exact .inl ⟨t', found, pc⟩
  | killJoined k pc ended =>
      refine now.goto rfl (by simp [SchedPc.holding]) heap rfl rfl lost (fun k t found => ?_)
      obtain ⟨t', found, pc, -⟩ := join_found found
      exact .inl ⟨t', found, pc⟩
  | spawned pc created =>
      refine now.goto rfl (by simp [SchedPc.holding]) heap rfl rfl lost (fun k t found => ?_)
      rcases spawned_found found with ⟨rfl, rfl⟩ | found
      · exact .inr rfl
      · exact .inl ⟨t, found, rfl⟩
  | clear prev pc =>
      have mine : P prev.id := holding prev.id (by simp [pc, SchedPc.holding])
      exact now.goto rfl (by simpa [SchedPc.holding] using mine) heap rfl rfl lost same
  | storePrev prev rest pc stored =>
      have mine : P prev.id := holding prev.id (by simp [pc, SchedPc.holding])
      refine now.goto rfl (by simp [SchedPc.holding]) (fun x member => ?_) rfl rfl lost same
      rcases List.mem_cons.mp (stored.mem_iff.mp member) with rfl | member
      · exact mine
      · exact heap x member
  | losePrev prev pc failed =>
      have mine : P prev.id := holding prev.id (by simp [pc, SchedPc.holding])
      refine now.goto rfl (by simp [SchedPc.holding]) heap rfl rfl ?_ same
      simpa [or_imp, forall_and, mine] using lost
  | popBlocked f rest pc head master =>
      have mine : P f.id := taken f (by simp [head]) (.inr ⟨pc, master⟩)
      exact now.goto rfl (by simpa [SchedPc.holding] using mine) heap rfl rfl lost same
  | park f rest pc stored =>
      have mine : P f.id := holding f.id (by simp [pc, SchedPc.holding])
      refine now.goto rfl (by simp [SchedPc.holding]) (fun x member => ?_) rfl rfl lost same
      rcases List.mem_cons.mp (stored.mem_iff.mp member) with rfl | member
      · exact mine
      · exact heap x member
  | loseBlocked f pc failed =>
      have mine : P f.id := holding f.id (by simp [pc, SchedPc.holding])
      refine now.goto rfl (by simp [SchedPc.holding]) heap rfl rfl ?_ same
      simpa [or_imp, forall_and, mine] using lost
  | _ => exact now.goto rfl (by simp [SchedPc.holding]) heap rfl rfl lost same

/-- Every move keeps the numbers when what is taken from the FIFO is in `P`. -/
theorem move (now : c.Behind P)
    (taken
      : ∀ f, c.q.fifo.head? = some f →
          c.sched.takesHead = true ∨ (c.sched = .popBlocked ∧ f.dir = .master) → P f.id)
    {action : Action} (move : Move c action c')
    : c'.Behind P := by
  have same (k : Nat) (t : InitThread) (found : c.initThreads[k]? = some t)
      : (∃ t', c.initThreads[k]? = some t' ∧ t.pc = t'.pc) ∨ t.pc = .snapshot :=
    .inl ⟨t, found, rfl⟩
  cases move with
  | sched ok c' move => exact now.sched taken move
  | wakeNonempty pc =>
      exact now.goto rfl (by simp [SchedPc.holding]) now.heap rfl rfl now.lost same
  | wakeForFifo pc =>
      exact now.goto rfl (by simp [SchedPc.holding]) now.heap rfl rfl now.lost same
  | init k t found c' move =>
      have moved {pc : InitPc} (mine : ∀ type id, pc = .signal type id → P id)
          : (c.setInit k t pc).Behind P := by
        refine { now with threads := fun k' t' type id found' at_signal => ?_ }
        rcases setInit_found found' with ⟨rfl, rfl⟩ | ⟨-, found'⟩
        · exact mine type id at_signal
        · exact now.threads k' t' type id found' at_signal
      cases move with
      | walk old new pc walk =>
          refine moved (fun type id at_signal => ?_)
          cases walk <;> cases at_signal
          exact now.slot
      | stage pc =>
          have next : (c.setInit k t .setBlocking).Behind P := moved (by simp)
          exact { next with heap := by simpa using now.heap, slot := by simpa using now.slot }
      | block pc =>
          have next : (c.setInit k t .readType).Behind P := moved (by simp)
          exact { next with heap := now.heap, slot := now.slot }
      | signal type id pc =>
          have mine := now.threads k t type id found pc
          have next : (c.setInit k t .clearRunning).Behind P := moved (by simp)
          refine { next with inFlight := ?_ }
          simpa [or_imp, forall_and, mine] using now.inFlight
      | clear pc =>
          have next : (c.setInit k t .finished).Behind P := moved (by simp)
          exact { next with heap := now.heap }
  | cancel k t found pending alive =>
      refine { now with threads := fun k' t' type id found' at_signal => ?_ }
      rcases setInit_found found' with ⟨rfl, rfl⟩ | ⟨-, found'⟩
      · cases at_signal
      · exact now.threads k' t' type id found' at_signal
  | dispatch c' move =>
      cases move with
      | inside x move busy =>
          refine { now with inFlight := ?_, dispatched := fun id member => ?_ }
          · rw [move.inFlight_eq busy]
            exact now.inFlight
          · rcases move.dispatched_mem member with before | flight
            · exact now.dispatched id before
            · exact now.inFlight id flight
      | clear t ids pc =>
          have completed : ∀ e ∈ (if c.q.hasExec then c.log.completed ++ [c.q.execEvent]
              else c.log.completed), P e.id := by
            split
            · simpa [or_imp, forall_and, now.slot] using now.completed
            · exact now.completed
          refine { now with completed := completed, inFlight := fun id member => ?_ }
          exact now.inFlight id (List.mem_append_right _ (by simpa [Exec.inFlight,
            DispatcherPc.ids] using member))
      | wake pc =>
          refine { now with inFlight := fun id member => ?_ }
          exact now.inFlight id (List.mem_append_right _ (by simpa [Exec.inFlight,
            DispatcherPc.ids] using member))
  | quiet action x same =>
      refine { now with inFlight := ?_, dispatched := ?_ }
      · rw [same.inFlight]
        exact now.inFlight
      · rw [same.dispatched]
        exact now.dispatched
  | _ => exact { now with heap := now.heap }

end Behind

/-- All numbers are bounded by the number of injections, and what arrived under a hard block
and is still in the FIFO is a SLAVE.
-/
structure Marked (c : Ctx) : Prop where
  behind : c.Behind (fun id => id ≤ c.log.attempts)
  fifo : ∀ f ∈ c.q.fifo, f.id ≤ c.log.attempts
  late : ∀ id ∈ c.log.underBlock, id ≤ c.log.attempts
  slave : ∀ f ∈ c.q.fifo, f.id ∈ c.log.underBlock → f.dir = .slave

/-- Moves other than an arrival add nothing to the FIFO and to the late events. -/
theorem Move.fifo_sub {action : Action} (move : Move c action c')
    : (∃ type dir payload, action = .inject type dir payload true)
      ∨ (∀ f ∈ c'.q.fifo, f ∈ c.q.fifo) ∧ c'.log.underBlock = c.log.underBlock
        ∧ c.log.attempts ≤ c'.log.attempts := by
  cases move with
  | arrive type dir payload => exact .inl ⟨type, dir, payload, rfl⟩
  | reject type dir payload => exact .inr ⟨fun _ member => member, rfl, Nat.le_succ _⟩
  | sched ok c' move =>
      refine .inr ?_
      cases move with
      | popReady e rest pc head =>
          exact ⟨fun f member => head ▸ List.mem_cons_of_mem e member, rfl, le_refl _⟩
      | popBlocked e rest pc head master =>
          exact ⟨fun f member => head ▸ List.mem_cons_of_mem e member, rfl, le_refl _⟩
      | drop e rest pc head slave =>
          exact ⟨fun f member => head ▸ List.mem_cons_of_mem e member, rfl, le_refl _⟩
      | actStage pc => exact ⟨fun f member => by simpa using member, rfl, le_refl _⟩
      | _ => exact ⟨fun _ member => member, rfl, le_refl _⟩
  | init k t found c' move =>
      refine .inr ?_
      cases move with
      | stage pc => exact ⟨fun f member => by simpa using member, rfl, le_refl _⟩
      | _ => exact ⟨fun _ member => member, rfl, le_refl _⟩
  | dispatch c' move =>
      refine .inr ?_
      cases move <;> exact ⟨fun _ member => member, rfl, le_refl _⟩
  | _ => exact .inr ⟨fun _ member => member, rfl, le_refl _⟩

theorem Marked.move (now : c.Marked) {action : Action} (move : Move c action c')
    : c'.Marked := by
  have behind : c'.Behind (fun id => id ≤ c.log.attempts) :=
    now.behind.move (fun f head _ => now.fifo f (List.mem_of_mem_head? head)) move
  rcases move.fifo_sub with ⟨type, dir, payload, rfl⟩ | ⟨fifo, late, attempts⟩
  · cases move with
    | quiet action x same => exact ⟨behind, now.fifo, now.late, now.slave⟩
    | arrive =>
        have fresh {id : Nat} (member : id ∈ c.log.underBlock) : id ≠ c.log.attempts + 1 :=
          (Nat.lt_succ_of_le (now.late id member)).ne
        constructor
        case behind => exact behind.imp (fun id bound => bound.trans (Nat.le_succ _))
        case fifo =>
          simp only [List.mem_append, List.mem_singleton, or_imp, forall_and, forall_eq]
          exact ⟨fun f member => (now.fifo f member).trans (Nat.le_succ _), le_refl _⟩
        case late =>
          intro id member
          split at member
          · rcases List.mem_append.mp member with member | last
            · exact (now.late id member).trans (Nat.le_succ _)
            · exact (List.mem_singleton.mp last).le
          · exact (now.late id member).trans (Nat.le_succ _)
        case slave =>
          intro f inFifo member
          rcases List.mem_append.mp inFifo with inFifo | last
          · refine now.slave f inFifo ?_
            have older : f.id ≠ c.log.attempts + 1 :=
              (Nat.lt_succ_of_le (now.fifo f inFifo)).ne
            split at member
            · exact (List.mem_append.mp member).resolve_right (by simpa using older)
            · exact member
          · obtain rfl := List.mem_singleton.mp last
            split at member
            case isTrue hard => exact hard.1
            case isFalse => exact absurd rfl (fresh member)
  · constructor
    case behind => exact behind.imp (fun id bound => bound.trans attempts)
    case fifo => exact fun f member => (now.fifo f (fifo f member)).trans attempts
    case late => exact fun id member => (now.late id (late ▸ member)).trans attempts
    case slave => exact fun f inFifo member => now.slave f (fifo f inFifo) (late ▸ member)

/-- The scheduler meets the SLAVE events that arrived under a hard block in its blocked branch
only: it passes over them when it finds the slot free, and they do not preempt.
-/
def passesOver (c : Ctx) : Action → Prop
  | .sched _ =>
      (∀ f, c.sched = .freePeekWait (some f) → f.id ∈ c.log.underBlock →
        ∃ h, c.q.peekWait = some h ∧ chooseFifo f h = false)
      ∧ ∀ pri f, c.sched = .readDir pri f → f.id ∈ c.log.underBlock →
          ¬ (c.q.execEvent.dir = .master ∧ canPreempt pri f = true)
  | _ => True

/-- The SLAVE events that arrived under a hard block stay in the FIFO until they are dropped. -/
structure Shunned (c : Ctx) : Prop where
  behind : c.Behind (fun id => id ∉ c.log.underBlock)
  head
    : c.sched.takesHead = true →
        ∃ f, c.q.fifo.head? = some f ∧ f.id ∉ c.log.underBlock
  waits
    : ∀ id ∈ c.log.underBlock,
        (∃ f ∈ c.q.fifo, f.id = id) ∨ ∃ e ∈ c.log.dropped, e.id = id

/-- The scheduler makes up its mind about a FIFO head that is not late. -/
theorem Shunned.silent_head (now : c.Shunned) (peek : c.PeekHolds) {ok : Bool}
    (passes : c.passesOver (.sched ok)) {next : SchedPc} (move : SilentMove c next)
    (takes : next.takesHead = true)
    : ∃ f, c.q.fifo.head? = some f ∧ f.id ∉ c.log.underBlock := by
  cases move with
  | takeFifo f pc chosen =>
      refine ⟨f, peek f (by rw [pc]; rfl), fun late => ?_⟩
      obtain ⟨h, top, passed⟩ := passes.1 f pc late
      rw [chosen h top] at passed
      cases passed
  | preempt pri f pc master allowed =>
      exact ⟨f, peek f (by rw [pc]; rfl), fun late => passes.2 pri f pc late ⟨master, allowed⟩⟩
  | readPrev pc => exact now.head (by rw [pc]; rfl)
  | _ => cases takes

/-- What the scheduler takes out of the FIFO, other than to drop it, is not late. -/
theorem Shunned.taken (now : c.Shunned) (marked : c.Marked) (f : Event)
    (head : c.q.fifo.head? = some f)
    (takes : c.sched.takesHead = true ∨ (c.sched = .popBlocked ∧ f.dir = .master))
    : f.id ∉ c.log.underBlock := by
  intro late
  rcases takes with takes | ⟨-, master⟩
  · obtain ⟨f', head', other⟩ := now.head takes
    obtain rfl := Option.some.inj (head.symm.trans head')
    exact other late
  · simp [marked.slave f (List.mem_of_mem_head? head) late] at master

/-- The scheduler's moves leave the late SLAVE events in the FIFO or drop them. -/
theorem Shunned.sched (now : c.Shunned) (marked : c.Marked) (peek : c.PeekHolds) {ok : Bool}
    (passes : c.passesOver (.sched ok)) (move : SchedMove c ok c')
    : c'.Shunned := by
  have taken := now.taken marked
  have behind := now.behind.sched taken move
  -- An event that is taken without being late leaves the late ones in the FIFO.
  have pop {e : Event} {rest : List Event} (head : c.q.fifo = e :: rest)
      (other : e.id ∉ c.log.underBlock) (id : Nat) (late : id ∈ c.log.underBlock)
      : (∃ f ∈ rest, f.id = id) ∨ ∃ e ∈ c.log.dropped, e.id = id := by
    refine (now.waits id late).imp_left ?_
    rintro ⟨f, inFifo, rfl⟩
    rw [head] at inFifo
    rcases List.mem_cons.mp inFifo with rfl | inRest
    · exact absurd late other
    · exact ⟨f, inRest, rfl⟩
  cases move with
  | silent next move => exact ⟨behind, now.silent_head peek passes move, now.waits⟩
  | popReady e rest pc head =>
      refine ⟨behind, by simp, pop head (taken e (by simp [head]) (.inl ?_))⟩
      rcases pc with pc | pc <;> rw [pc] <;> rfl
  | popWait e heap pc popped => exact ⟨behind, by simp, now.waits⟩
  | actStage pc =>
      exact ⟨behind, by simp [SchedPc.takesHead], by simpa using now.waits⟩
  | install e pc =>
      refine ⟨behind, ?_, now.waits⟩
      split <;> simp [SchedPc.takesHead]
  | popBlocked f rest pc head master =>
      exact ⟨behind, by simp [SchedPc.takesHead],
        pop head (taken f (by simp [head]) (.inr ⟨pc, master⟩))⟩
  | drop f rest pc head slave =>
      refine ⟨behind, by simp [SchedPc.takesHead], fun id late => ?_⟩
      rcases now.waits id late with ⟨f', inFifo, rfl⟩ | ⟨e, dropped, same⟩
      · rw [head] at inFifo
        rcases List.mem_cons.mp inFifo with rfl | inRest
        · exact .inr ⟨f', by simp, rfl⟩
        · exact .inl ⟨f', inRest, rfl⟩
      · exact .inr ⟨e, by simp [dropped], same⟩
  | kill k pc handle => exact ⟨behind, fun _ => now.head (by rw [pc]; rfl), now.waits⟩
  | killNone pc handle => exact ⟨behind, fun _ => now.head (by rw [pc]; rfl), now.waits⟩
  | killJoined k pc ended => exact ⟨behind, fun _ => now.head (by rw [pc]; rfl), now.waits⟩
  | clear prev pc => exact ⟨behind, fun _ => now.head (by rw [pc]; rfl), now.waits⟩
  | storePrev prev heap pc stored =>
      exact ⟨behind, fun _ => now.head (by rw [pc]; rfl), now.waits⟩
  | losePrev prev pc failed =>
      exact ⟨behind, fun _ => now.head (by rw [pc]; rfl), now.waits⟩
  | _ => exact ⟨behind, by simp [SchedPc.takesHead], now.waits⟩

/-- Every move that passes over the late SLAVE events leaves them in the FIFO or drops them. -/
theorem Shunned.move (now : c.Shunned) (marked : c.Marked) (peek : c.PeekHolds)
    {action : Action} (passes : c.passesOver action) (move : Move c action c')
    : c'.Shunned := by
  have behind := now.behind.move (now.taken marked) move
  cases move with
  | sched ok c' move => exact now.sched marked peek passes move
  | arrive type dir payload =>
      -- The new number is larger than all others.
      have grown {id : Nat} (old : id ≤ c.log.attempts ∧ id ∉ c.log.underBlock)
          : id ∉ if dir = .slave ∧ c.q.hardBlocking = true
              then c.log.underBlock ++ [c.log.attempts + 1] else c.log.underBlock := by
        have other : id ≠ c.log.attempts + 1 := (Nat.lt_succ_of_le old.1).ne
        split <;> simp [old.2, other]
      constructor
      case behind =>
        have later := (marked.behind.and now.behind).imp (fun _ old => grown old)
        exact { later with heap := later.heap }
      case head =>
        intro takes
        obtain ⟨f, head, other⟩ := now.head takes
        refine ⟨f, by simp [head], grown ⟨?_, other⟩⟩
        exact marked.fifo f (List.mem_of_mem_head? head)
      case waits =>
        intro id late
        have older (member : id ∈ c.log.underBlock)
            : (∃ f ∈ c.q.fifo ++ [c.arrival type dir payload], f.id = id)
              ∨ ∃ e ∈ c.log.dropped, e.id = id := by
          refine (now.waits id member).imp_left ?_
          rintro ⟨f, inFifo, same⟩
          exact ⟨f, List.mem_append_left _ inFifo, same⟩
        split at late
        · rcases List.mem_append.mp late with late | last
          · exact older late
          · exact .inl ⟨c.arrival type dir payload, by simp, (List.mem_singleton.mp last).symm⟩
        · exact older late
  | wakeNonempty pc => exact ⟨behind, by simp [SchedPc.takesHead], now.waits⟩
  | wakeForFifo pc => exact ⟨behind, by simp [SchedPc.takesHead], now.waits⟩
  | init k t found c' move =>
      cases move with
      | stage pc => exact ⟨behind, by simpa using now.head, by simpa using now.waits⟩
      | _ => exact ⟨behind, now.head, now.waits⟩
  | dispatch c' move => cases move <;> exact ⟨behind, now.head, now.waits⟩
  | _ => exact ⟨behind, now.head, now.waits⟩

end Ctx

section Runs

variable {role : Role} {c : Ctx}

theorem runsWhen_marked {cond : Ctx → Action → Prop}
    (reached : (runsWhen role cond).Reachable c)
    : c.Marked := by
  refine runsWhen_induct Ctx.Marked ?_ (fun _ _ _ _ now _ move => now.move move) reached
  constructor
  case behind =>
    have quiet : Exec.init.log.dispatched = [] := rfl
    constructor <;> simp [Ctx.init, Queue.init, Event.zero, SchedPc.holding,
      Exec.init_inFlight, quiet]
  all_goals simp [Ctx.init, Queue.init]

theorem runsWhen_shunned (reached : (runsWhen role Ctx.passesOver).Reachable c)
    : c.Shunned := by
  refine runsWhen_induct Ctx.Shunned ?_ ?_ reached
  · constructor
    case behind => constructor <;> simp [Ctx.init]
    all_goals simp [Ctx.init, SchedPc.takesHead]
  · intro c action c' reached now passes move
    exact now.move (runsWhen_marked reached) (runsWhen_peekHolds reached) passes move

end Runs

/-- A SLAVE that was injected under a hard block is never installed, executed or put into the
wait heap: it is in the FIFO or was dropped.
-/
def SlaveNeverWaits (system : Lts Ctx Action) : Prop :=
  ∀ c, system.Reachable c → ∀ id ∈ c.log.underBlock,
    (c.q.hasExec = true → c.q.execEvent.id ≠ id)
    ∧ id ∉ c.exec.log.dispatched ∧ (∀ e ∈ c.log.completed, e.id ≠ id)
    ∧ (∀ e ∈ c.q.waitHeap.events, e.id ≠ id)
    ∧ ((∃ f ∈ c.q.fifo, f.id = id) ∨ ∃ e ∈ c.log.dropped, e.id = id)

/-- As long as the scheduler passes over the late SLAVE events they are only dropped. -/
theorem passesOver_slaveNeverWaits (role : Role)
    : SlaveNeverWaits (runsWhen role Ctx.passesOver) := by
  intro c reached id late
  obtain ⟨behind, -, waits⟩ := runsWhen_shunned reached
  refine ⟨?_, ?_, ?_, ?_, waits id late⟩
  · rintro - rfl
    exact behind.slot late
  · exact fun member => behind.dispatched id member late
  · rintro e member rfl
    exact behind.completed e member late
  · rintro e member rfl
    exact behind.heap e member late

/-- A MASTER is executing, under the hard block of its init thread, when a SLAVE arrives; after
the completion the scheduler finds the slot free.
-/
def lateSlaveRun : List Action :=
  [.inject .keyRefill .master 0 true]
    ++ List.replicate 13 (.sched true)
    ++ List.replicate 15 (.init 0)
    ++ [.inject .keyRefill .slave 0 true]
    ++ [.dispatcher, .dispatcher]
    ++ List.replicate 2 (.worker (workerIndex .keyRefill .a))
    ++ [.dispatcher, .dispatcher]
    ++ List.replicate 10 (.sched true)

/-- The state in which the scheduler has installed the SLAVE of `lateSlaveRun`. -/
def lateSlaveState : Ctx :=
  Option.get (Lts.execute runsStep (Ctx.init .a) lateSlaveRun) (by decide +kernel)

/-- A late SLAVE can be accepted: the one of `lateSlaveRun` waits in the FIFO for the
completion and is then installed.
-/
theorem lateSlave_installed : ¬ ∀ role, SlaveNeverWaits (runs role) := by
  intro always
  have reached : (runs .a).Reachable lateSlaveState := runs_reachable .a lateSlaveRun _
  have spared := (always .a lateSlaveState reached 2 (by decide +kernel)).1
  exact spared (by decide +kernel) (by decide +kernel)

end QKeySys.Core
