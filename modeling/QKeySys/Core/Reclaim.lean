import QKeySys.Core.AllRuns
import QKeySys.Core.Handover

/-! Reclaiming the master-init threads: a thread that was created and not joined is the one
behind the handle, as long as no thread is started over the handle of one that ended by itself.
-/

namespace QKeySys.Core

open QKeySys.Library

@[simp]
theorem dispose_ne_spawnCreate (e : Event) : Ctx.dispose e ≠ .spawnCreate := by
  cases dir : e.dir <;> simp [Ctx.dispose, dir]

namespace Ctx

variable {c c' : Ctx}

/-- `qks_init_master_spawn` does not find a handle behind a cleared running flag. -/
def joinsFirst (c : Ctx) : Action → Prop
  | .sched _ =>
      c.sched = .spawnCheck → c.initMasterRunning = true ∨ c.thInitMaster = none
  | _ => True

/-- A thread that was not joined is the one behind the handle, and the handle is clear when a
thread is about to be created.
-/
structure OneHandle (c : Ctx) : Prop where
  held
    : ∀ (k : Nat) (t : InitThread), c.initThreads[k]? = some t → t.joined = false →
        c.thInitMaster = some k
  behind
    : ∀ k : Nat, c.thInitMaster = some k → ∃ t, c.initThreads[k]? = some t
  creating : c.sched = .spawnCreate → c.thInitMaster = none

namespace OneHandle

theorem init (role : Role) : (Ctx.init role).OneHandle := by
  constructor <;> simp [Ctx.init]

/-- The handle depends on which threads are joined only. -/
theorem same (now : c.OneHandle) (handle : c'.thInitMaster = c.thInitMaster)
    (threads
      : ∀ k : Nat, (c'.initThreads[k]?).map InitThread.joined
          = (c.initThreads[k]?).map InitThread.joined)
    (creating : c'.sched = .spawnCreate → c.thInitMaster = none)
    : c'.OneHandle where
  held k t found unjoined := by
    have joined := threads k
    rw [found, Option.map_some] at joined
    obtain ⟨t', found', same⟩ := Option.map_eq_some_iff.mp joined.symm
    rw [handle]
    exact now.held k t' found' (same.trans unjoined)
  behind k held := by
    obtain ⟨t, found⟩ := now.behind k (handle ▸ held)
    have joined := threads k
    rw [found, Option.map_some] at joined
    obtain ⟨t', found', -⟩ := Option.map_eq_some_iff.mp joined
    exact ⟨t', found'⟩
  creating := fun pc => handle.trans (creating pc)

/-- After the join of the thread behind the handle every thread is joined. -/
theorem join (now : c.OneHandle) {k : Nat} (joining : c.thInitMaster = some k)
    (next : SchedPc)
    : OneHandle { c.join k with sched := next } where
  held k' t found unjoined := by
    simp only [Ctx.join, List.getElem?_modify] at found
    obtain ⟨t', found', same⟩ := Option.map_eq_some_iff.mp found
    split at same
    case isTrue =>
      subst same
      cases unjoined
    case isFalse other =>
      obtain rfl : t' = t := same
      have handle := now.held k' t' found' unjoined
      exact absurd (Option.some.inj (joining.symm.trans handle)) other
  behind k' held := by cases held
  creating _ := rfl

/-- A cancellation request joins nothing. -/
theorem requestCancel (now : c.OneHandle) (k : Nat) {next : SchedPc}
    (other : next ≠ .spawnCreate)
    : OneHandle { c.requestCancel k with sched := next } := by
  refine now.same rfl (fun k' => ?_) (fun pc => absurd pc other)
  simp only [Ctx.requestCancel, List.getElem?_modify]
  cases c.initThreads[k']? with
  | none => rfl
  | some t => by_cases same : k = k' <;> simp [same]

/-- The silent moves lead to a creation only when the handle is clear. -/
theorem silent (now : c.OneHandle) {ok : Bool} (first : c.joinsFirst (.sched ok))
    {next : SchedPc} (move : SilentMove c next)
    : OneHandle { c with sched := next } := by
  refine now.same rfl (fun _ => rfl) ?_
  cases move with
  | spawnFree pc idle =>
      intro _
      rcases idle with idle | clear
      · exact (first pc).resolve_left (by simp [idle])
      · exact clear
  | _ => simp

/-- The scheduler's moves keep unjoined threads behind the handle, by cases on the move. -/
theorem sched (now : c.OneHandle) (threads : c.OneThread) {ok : Bool}
    (first : c.joinsFirst (.sched ok)) (move : SchedMove c ok c')
    : c'.OneHandle := by
  cases move with
  | silent next move => exact now.silent first move
  | spawnKill k pc busy handle => exact now.requestCancel k (by simp)
  | kill k pc handle => exact now.requestCancel k (by simp)
  | spawnJoined k pc ended => exact now.join (threads.joining k (.inl pc)) _
  | killJoined k pc ended => exact now.join (threads.joining k (.inr pc)) _
  | spawned pc created =>
      have clear := now.creating pc
      refine ⟨fun k t found unjoined => ?_, fun k held => ?_, by simp⟩
      · rcases spawned_found found with ⟨rfl, -⟩ | found
        · rfl
        · exact absurd (clear.symm.trans (now.held k t found unjoined)) (by simp)
      · obtain rfl := Option.some.inj held
        exact ⟨c.newThread, by simp⟩
  | install e pc =>
      refine now.same rfl (fun _ => rfl) ?_
      split <;> simp
  | popReady e rest pc head => exact now.same rfl (fun _ => rfl) (by simp)
  | popWait e heap pc popped => exact now.same rfl (fun _ => rfl) (by simp)
  | _ => exact now.same rfl (fun _ => rfl) (by simp)

/-- A thread that moves is joined or not as before. -/
theorem setInit_joined {k : Nat} {t : InitThread} (found : c.initThreads[k]? = some t)
    (pc : InitPc) (k' : Nat)
    : ((c.setInit k t pc).initThreads[k']?).map InitThread.joined
      = (c.initThreads[k']?).map InitThread.joined := by
  rw [setInit_threads, List.getElem?_set]
  split
  case isTrue same =>
    subst same
    rw [if_pos (List.getElem?_eq_some_iff.mp found).1, found]
    rfl
  case isFalse => rfl

/-- Every move keeps unjoined threads behind the handle, by cases on the move. -/
theorem move (now : c.OneHandle) (threads : c.OneThread) {action : Action}
    (first : c.joinsFirst action) (move : AnyMove c action c')
    : c'.OneHandle := by
  cases move with
  | sched ok c' move => exact now.sched threads first move
  | wakeNonempty pc => exact now.same rfl (fun _ => rfl) (by simp)
  | wakeForFifo pc => exact now.same rfl (fun _ => rfl) (by simp)
  | init k t found c' move =>
      obtain ⟨pc, same, sched, handle, -⟩ := move.threads
      refine now.same handle (fun k' => ?_) (fun pc => now.creating (sched ▸ pc))
      rw [same]
      exact setInit_joined found pc k'
  | cancel k t found pending alive =>
      exact now.same rfl (setInit_joined found .killed) now.creating
  | clear t ids pc x log wake done => exact now.same rfl (fun _ => rfl) now.creating
  | aside action q stop x log slot handsOn => exact now.same rfl (fun _ => rfl) now.creating

end OneHandle

end Ctx

/-- At most one master-init thread is created and not joined, it is the one behind
`th_init_master`, and that handle changes only after the thread behind it was joined.
-/
structure Reclaimed (system : Lts Ctx Action) : Prop where
  atMostOne
    : ∀ c, system.Reachable c → c.initThreads.countP (fun t => !t.joined) ≤ 1
  behindHandle
    : ∀ c k t, system.Reachable c → c.initThreads[k]? = some t → t.joined = false →
        c.thInitMaster = some k
  joinedFirst
    : ∀ c action c' k, system.Reachable c → system.next c action c' →
        c.thInitMaster = some k → c'.thInitMaster ≠ some k →
        ∃ t, c'.initThreads[k]? = some t ∧ t.joined = true

/-- Where at most one index meets a test, the test counts at most one, by induction on the
list.
-/
theorem countP_le_one {α : Type*} (test : α → Bool) (entries : List α)
    (unique
      : ∀ (i j : Nat) (a b : α), entries[i]? = some a → entries[j]? = some b →
          test a = true → test b = true → i = j)
    : entries.countP test ≤ 1 := by
  induction entries with
  | nil => simp
  | cons head rest ih =>
      rw [List.countP_cons]
      split
      case isTrue met =>
        have none : rest.countP test = 0 := by
          refine List.countP_eq_zero.mpr (fun b inside also => ?_)
          obtain ⟨j, found⟩ := List.mem_iff_getElem?.mp inside
          have same := unique 0 (j + 1) head b rfl (by simpa using found) met also
          omega
        omega
      case isFalse =>
        refine ih (fun i j a b first second met also => ?_)
        have same := unique (i + 1) (j + 1) a b (by simpa using first) (by simpa using second)
          met also
        omega

section Runs

variable {role : Role}

theorem joinsFirst_oneHandle {c : Ctx} (reached : (allRuns role Ctx.joinsFirst).Reachable c)
    : c.OneHandle :=
  allRuns_induct Ctx.OneHandle (.init role)
    (fun _ _ _ reached now first move => now.move (allRuns_oneThread reached) first move)
    reached

/-- No step forgets a created thread. -/
theorem Ctx.AnyMove.keepsThread {c c' : Ctx} {action : Action} (move : Ctx.AnyMove c action c')
    {k : Nat} {t : InitThread} (found : c.initThreads[k]? = some t)
    : ∃ t', c'.initThreads[k]? = some t' := by
  have inside := (List.getElem?_eq_some_iff.mp found).1
  suffices kept : c.initThreads.length ≤ c'.initThreads.length from
    ⟨_, List.getElem?_eq_getElem (Nat.lt_of_lt_of_le inside kept)⟩
  cases move with
  | sched ok c' move =>
      cases move <;> simp [Ctx.requestCancel, Ctx.join]
  | init k t found c' move =>
      obtain ⟨pc, same, -⟩ := move.threads
      simp [same]
  | cancel k t found pending alive => simp
  | _ => exact Nat.le_refl _

end Runs

/-- When no thread is started over a handle that is still held, all threads are reclaimed. -/
theorem joinsFirst_reclaimed (role : Role) : Reclaimed (allRuns role Ctx.joinsFirst) where
  atMostOne c reached := by
    have now := joinsFirst_oneHandle reached
    refine countP_le_one _ _ (fun i j t t' found found' unjoined unjoined' => ?_)
    have first := now.held i t found (by simpa using unjoined)
    have second := now.held j t' found' (by simpa using unjoined')
    exact Option.some.inj (first.symm.trans second)
  behindHandle c k t reached found unjoined :=
    (joinsFirst_oneHandle reached).held k t found unjoined
  joinedFirst c action c' k reached step held other := by
    obtain ⟨t, found⟩ := (joinsFirst_oneHandle reached).behind k held
    obtain ⟨t', found'⟩ := (Ctx.step_anyMove step.2).keepsThread found
    refine ⟨t', found', ?_⟩
    cases unjoined : t'.joined with
    | true => rfl
    | false =>
        have next := joinsFirst_oneHandle (reached.next step)
        exact absurd (next.held k t' found' unjoined) other

instance (c : Ctx) (action : Action) : Decidable (c.spawnSucceeds action) :=
  match action with
  | .sched ok => inferInstanceAs (Decidable (c.sched = .spawnCreate → ok = true))
  | .inject _ _ _ _ | .schedReturn | .init _ | .cancel _ | .dispatcher | .dispatcherReturn
  | .worker _ | .workerReturn _ | .requestStop => isTrue trivial

/-- A MASTER runs through to its completion, and the next one is installed. -/
def backToBackRun : List Action :=
  [.inject .keyRefill .master 0 true] ++ List.replicate 13 (.sched true)
    ++ List.replicate 16 (.init 0) ++ List.replicate 2 .dispatcher
    ++ List.replicate 2 (.worker (workerIndex .keyRefill .a)) ++ List.replicate 3 .dispatcher
    ++ [.inject .keyRefill .master 0 true] ++ List.replicate 12 (.sched true)

/-- The state after `backToBackRun`, with two threads that nobody joined. -/
def unreclaimedState : Ctx :=
  Option.get
    (Lts.execute (Lts.guardedStep Ctx.step Ctx.spawnSucceeds) (Ctx.init .a) backToBackRun)
    (by decide +kernel)

/-- Threads are left behind even when every creation succeeds: the second MASTER of
`backToBackRun` is given a thread while the first one's is not joined.
-/
theorem backToBack_unreclaimed
    : ¬ ∀ role, Reclaimed (allRuns role Ctx.spawnSucceeds) := by
  intro always
  have reached : (allRuns .a Ctx.spawnSucceeds).Reachable unreclaimedState :=
    Lts.execute_reachable backToBackRun _
  have most := (always .a).atMostOne unreclaimedState reached
  have two : unreclaimedState.initThreads.countP (fun t => !t.joined) = 2 := by
    decide +kernel
  omega

end QKeySys.Core
