import QKeySys.Core.Moves

/-! The master-init threads: at most one of them runs, and it is the one whose handle the
context holds.
-/

namespace QKeySys.Core

open QKeySys.Library

/-- Program points at which the scheduler has just waited for the last thread to end. -/
def SchedPc.afterJoin : SchedPc → Bool
  | .spawnCreate | .readPrev | .clearSlot _ | .pushPrev _ | .popPreempting => true
  | _ => false

@[simp]
theorem dispose_afterJoin (e : Event) : (Ctx.dispose e).afterJoin = false := by
  cases dir : e.dir <;> simp [Ctx.dispose, dir, SchedPc.afterJoin]

@[simp]
theorem dispose_ne_spawnJoin (e : Event) (k : Nat) : Ctx.dispose e ≠ .spawnJoin k := by
  cases dir : e.dir <;> simp [Ctx.dispose, dir]

@[simp]
theorem dispose_ne_killJoin (e : Event) (k : Nat) : Ctx.dispose e ≠ .killJoin k := by
  cases dir : e.dir <;> simp [Ctx.dispose, dir]

namespace Ctx

variable {c c' : Ctx}

/-- A thread of the context after thread `k` moved is the moved one or an untouched one. -/
theorem setInit_found {k k' : Nat} {t t' : InitThread} {pc : InitPc}
    (found : (c.setInit k t pc).initThreads[k']? = some t')
    : (k' = k ∧ t' = { t with pc := pc })
      ∨ (k' ≠ k ∧ c.initThreads[k']? = some t') := by
  rw [setInit_threads, List.getElem?_set] at found
  grind

/-- A cancellation request changes neither the program point nor the owner of a thread. -/
theorem requestCancel_found {k k' : Nat} {t' : InitThread}
    (found : (c.requestCancel k).initThreads[k']? = some t')
    : ∃ t, c.initThreads[k']? = some t ∧ t'.pc = t.pc ∧ t'.owner = t.owner := by
  simp only [requestCancel, List.getElem?_modify] at found
  grind

/-- Joining a thread changes neither the program point nor the owner of a thread. -/
theorem join_found {k k' : Nat} {t' : InitThread}
    (found : (c.join k).initThreads[k']? = some t')
    : ∃ t, c.initThreads[k']? = some t ∧ t'.pc = t.pc ∧ t'.owner = t.owner := by
  simp only [join, List.getElem?_modify] at found
  grind

/-- A thread of the context after a creation is the new one or an earlier one. -/
theorem spawned_found {k : Nat} {t : InitThread}
    (found : (c.initThreads ++ [c.newThread])[k]? = some t)
    : (k = c.initThreads.length ∧ t = c.newThread) ∨ c.initThreads[k]? = some t := by
  rw [List.getElem?_append] at found
  grind

theorem dead_iff {k : Nat} {t : InitThread} (found : c.initThreads[k]? = some t)
    : c.dead k = t.pc.ended := by
  simp [dead, found]

/-- A thread that moves has not ended. -/
theorem InitMove.alive {k : Nat} {t : InitThread} (move : InitMove c k t c')
    : t.pc.ended = false := by
  cases move with
  | walk old new pc walk => cases walk <;> rw [pc] <;> rfl
  | stage pc => rw [pc]; rfl
  | block pc => rw [pc]; rfl
  | signal type id pc => rw [pc]; rfl
  | clear pc => rw [pc]; rfl

/-- A move changes the program point of its own thread, and the flag only when it ends. -/
theorem InitMove.threads {k : Nat} {t : InitThread} (move : InitMove c k t c')
    : ∃ pc, c'.initThreads = (c.setInit k t pc).initThreads ∧ c'.sched = c.sched
        ∧ c'.thInitMaster = c.thInitMaster
        ∧ (pc.ended = false → c'.initMasterRunning = c.initMasterRunning) := by
  cases move with
  | clear pc => exact ⟨.finished, rfl, rfl, rfl, fun alive => by cases alive⟩
  | _ => exact ⟨_, rfl, rfl, rfl, fun _ => rfl⟩

/-- The only thread that may be running is the one behind the handle. -/
structure OneThread (c : Ctx) : Prop where
  handle
    : ∀ (k : Nat) (t : InitThread), c.initThreads[k]? = some t → t.pc.ended = false →
        c.thInitMaster = some k ∧ c.initMasterRunning = true
  joining
    : ∀ k, c.sched = .spawnJoin k ∨ c.sched = .killJoin k → c.thInitMaster = some k
  alone
    : c.sched.afterJoin = true →
        ∀ (k : Nat) (t : InitThread), c.initThreads[k]? = some t → t.pc.ended = true

namespace OneThread

/-- Two running threads are the same one. -/
theorem unique (now : c.OneThread) {k k' : Nat} {t t' : InitThread}
    (found : c.initThreads[k]? = some t) (alive : t.pc.ended = false)
    (found' : c.initThreads[k']? = some t') (alive' : t'.pc.ended = false)
    : k = k' := by
  have first := (now.handle k t found alive).1
  have second := (now.handle k' t' found' alive').1
  exact Option.some.inj (first.symm.trans second)

/-- Once the thread behind the handle is dead, none is running. -/
theorem ended_of_dead (now : c.OneThread) {k : Nat}
    (joining : c.thInitMaster = some k) (dead : c.dead k = true) {k' : Nat}
    {t : InitThread} (found : c.initThreads[k']? = some t)
    : t.pc.ended = true := by
  cases alive : t.pc.ended with
  | true => rfl
  | false =>
      have same := (now.handle k' t found alive).1
      rw [joining] at same
      cases same
      rw [dead_iff found, alive] at dead
      cases dead

theorem init (role : Role) : (Ctx.init role).OneThread := by
  constructor <;> simp [Ctx.init, SchedPc.afterJoin]

/-- Silent moves keep the threads; the one into `spawnCreate` finds no running thread. -/
theorem silent (now : c.OneThread) {next : SchedPc} (move : SilentMove c next)
    : OneThread { c with sched := next } where
  handle := now.handle
  joining := by cases move <;> simp
  alone := by
    cases move with
    | spawnFree pc idle =>
        rintro - k t found
        cases alive : t.pc.ended with
        | true => rfl
        | false =>
            have running := now.handle k t found alive
            rcases idle with idle | idle <;> simp [idle] at running
    | readPrev pc => exact fun _ => now.alone (by simp [pc, SchedPc.afterJoin])
    | _ => simp [SchedPc.afterJoin]

/-- The scheduler's moves keep the running thread behind the handle, by cases on the move. -/
theorem sched (now : c.OneThread) {ok : Bool} (move : SchedMove c ok c')
    : c'.OneThread := by
  cases move with
  | silent next move => exact now.silent move
  | spawnKill k pc busy handle =>
      refine ⟨?_, by simp [requestCancel, handle], by simp [SchedPc.afterJoin]⟩
      intro k' t' found alive
      obtain ⟨t, found, same, -⟩ := requestCancel_found found
      exact now.handle k' t found (same ▸ alive)
  | kill k pc handle =>
      refine ⟨?_, by simp [requestCancel, handle], by simp [SchedPc.afterJoin]⟩
      intro k' t' found alive
      obtain ⟨t, found, same, -⟩ := requestCancel_found found
      exact now.handle k' t found (same ▸ alive)
  | spawnJoined k pc ended =>
      have none (k' : Nat) (t' : InitThread) (found : (c.join k).initThreads[k']? = some t')
          : t'.pc.ended = true := by
        obtain ⟨t, found, same, -⟩ := join_found found
        exact same ▸ now.ended_of_dead (now.joining k (.inl pc)) ended found
      exact ⟨fun k' t' found alive => by simp [none k' t' found] at alive, by simp,
        fun _ => none⟩
  | killJoined k pc ended =>
      have none (k' : Nat) (t' : InitThread) (found : (c.join k).initThreads[k']? = some t')
          : t'.pc.ended = true := by
        obtain ⟨t, found, same, -⟩ := join_found found
        exact same ▸ now.ended_of_dead (now.joining k (.inr pc)) ended found
      exact ⟨fun k' t' found alive => by simp [none k' t' found] at alive, by simp,
        fun _ => none⟩
  | killNone pc handle =>
      have none (k : Nat) (t : InitThread) (found : c.initThreads[k]? = some t)
          : t.pc.ended = true := by
        cases alive : t.pc.ended with
        | true => rfl
        | false =>
            have running := now.handle k t found alive
            simp [handle] at running
      exact ⟨fun k t found alive => by simp [none k t found] at alive, by simp,
        fun _ => none⟩
  | spawned pc created =>
      have none := now.alone (by simp [pc, SchedPc.afterJoin])
      refine ⟨?_, by simp, by simp [SchedPc.afterJoin]⟩
      intro k t found alive
      rcases spawned_found found with ⟨rfl, rfl⟩ | found
      · exact ⟨rfl, rfl⟩
      · simp [none k t found] at alive
  | spawnFailed pc failed =>
      have none := now.alone (by simp [pc, SchedPc.afterJoin])
      exact ⟨fun k t found alive => by simp [none k t found] at alive, by simp,
        by simp [SchedPc.afterJoin]⟩
  | clear prev pc =>
      exact ⟨now.handle, by simp, fun _ => now.alone (by simp [pc, SchedPc.afterJoin])⟩
  | storePrev prev heap pc stored =>
      exact ⟨now.handle, by simp, fun _ => now.alone (by simp [pc, SchedPc.afterJoin])⟩
  | losePrev prev pc failed =>
      exact ⟨now.handle, by simp, fun _ => now.alone (by simp [pc, SchedPc.afterJoin])⟩
  | install e pc =>
      refine ⟨now.handle, ?_, ?_⟩
      · split <;> simp
      · split <;> simp [SchedPc.afterJoin]
  | popReady e rest pc head => exact ⟨now.handle, by simp, by simp⟩
  | popWait e heap pc popped => exact ⟨now.handle, by simp, by simp⟩
  | _ => exact ⟨now.handle, by simp, by simp [SchedPc.afterJoin]⟩

/-- A thread that moves stays behind the handle until it ends; no other one is running. -/
theorem initMove (now : c.OneThread) {k : Nat} {t : InitThread}
    (found : c.initThreads[k]? = some t) (move : InitMove c k t c')
    : c'.OneThread := by
  have running := now.handle k t found move.alive
  obtain ⟨pc, threads, sched, handle, flag⟩ := move.threads
  constructor
  case handle =>
    intro k' t' found' alive
    rw [threads] at found'
    rw [handle]
    rcases setInit_found found' with ⟨rfl, rfl⟩ | ⟨other, found'⟩
    · exact ⟨running.1, by rw [flag alive, running.2]⟩
    · exact absurd (now.unique found' alive found move.alive) other
  case joining => rw [sched, handle]; exact now.joining
  case alone =>
    rw [sched]
    intro joined
    have last := now.alone joined k t found
    rw [move.alive] at last
    cases last

/-- A killed thread leaves the others as they were. -/
theorem cancel (now : c.OneThread) {k : Nat} {t : InitThread}
    (found : c.initThreads[k]? = some t)
    : (c.setInit k t .killed).OneThread := by
  constructor
  case handle =>
    intro k' t' found' alive
    rcases setInit_found found' with ⟨rfl, rfl⟩ | ⟨-, found'⟩
    · cases alive
    · exact now.handle k' t' found' alive
  case joining => exact now.joining
  case alone =>
    intro joined k' t' found'
    rcases setInit_found found' with ⟨rfl, rfl⟩ | ⟨-, found'⟩
    · rfl
    · exact now.alone joined k' t' found'

/-- Every move keeps the running thread behind the handle, by cases on the move. -/
theorem move (now : c.OneThread) {action : Action} (move : Move c action c')
    : c'.OneThread := by
  cases move with
  | sched ok c' move => exact now.sched move
  | wakeNonempty pc => exact ⟨now.handle, by simp, by simp [SchedPc.afterJoin]⟩
  | wakeForFifo pc => exact ⟨now.handle, by simp, by simp [SchedPc.afterJoin]⟩
  | init k t found c' move => exact now.initMove found move
  | cancel k t found pending alive => exact now.cancel found
  | dispatch c' move => cases move <;> exact ⟨now.handle, now.joining, now.alone⟩
  | _ => exact ⟨now.handle, now.joining, now.alone⟩

end OneThread

end Ctx

/-- In every reachable state at most the thread behind the handle is running. -/
theorem runsWhen_oneThread {role : Role} {cond : Ctx → Action → Prop} {c : Ctx}
    (reached : (runsWhen role cond).Reachable c)
    : c.OneThread :=
  runsWhen_induct Ctx.OneThread (.init role) (fun _ _ _ _ now _ move => now.move move) reached

end QKeySys.Core
