import QKeySys.KeyPool.Exclusion
import QKeySys.KeyPool.KeyValue
import QKeySys.KeyPool.Memory

/-! The blocks of the shared key pool: in every interleaving of the callers, the polling thread
and a lone stop the local list has the only live block, and a manager that is stopped has none.
-/

namespace QKeySys.KeyPool

open QKeySys.Library BlockMemory

variable {env : Env} {pollCycle : Int}

/-- The first request of a new manager makes the only block. -/
theorem KeyManager.firstRequest_owned {m : KeyManager}
    (ran : KeyManager.initInstance.firstRequest env = .ok m)
    : m.world.memory.Owned [m.localKeys.data] :=
  (checkAndRequestKeys_handed ran).owned _ (empty_owned _)

namespace SharedPool

variable {s : SharedPool} {k : Keypool} {phase : Phase}

/-- In every phase the shared list owns what the list of the sequential interface owns, or what
the first request made.
-/
theorem Agrees.owned (agrees : s.Agrees env k phase) (sole : k.manager.Sole)
    : s.manager.world.memory.Owned [s.manager.localKeys.data] := by
  have settled {gKeyManager : Bool} {poll : PollPc} {manager : KeyManager}
      (now : Settled manager gKeyManager poll k)
      : manager.world.memory.Owned [manager.localKeys.data] := by
    have owned := sole.owned
    rw [now.same] at owned
    exact owned
  cases agrees with
  | fresh early manager =>
      rw [manager]
      exact empty_owned _
  | asking i early asking =>
      have manager : s.manager = .initInstance := by
        cases pc : (s.callers i).pc <;> simp only [pc, Asking] at asking
        all_goals exact asking.1
      rw [manager]
      exact empty_owned _
  | requested i early m ran requested =>
      have owned := KeyManager.firstRequest_owned ran
      have same : s.manager.world.memory = m.world.memory
          ∧ s.manager.localKeys = m.localKeys := by
        cases pc : (s.callers i).pc <;> simp only [pc, Requested] at requested
        all_goals
          rw [requested.1]
          exact ⟨rfl, rfl⟩
      rw [same.1, same.2]
      exact owned
  | inited i early inited =>
      cases pc : (s.callers i).pc <;> simp only [pc, Inited] at inited
      case dropPointer => exact settled inited.1
      case setCalled => exact settled inited
  | up called now => exact settled now
  | closing i called closing =>
      cases pc : (s.callers i).pc <;> simp only [pc, Closing] at closing
      case stopJoin | stopFree =>
        have owned := sole.owned
        rw [closing.1] at owned
        exact owned
      case stopInited =>
        exact @settled _ _ { s.manager with isInited := false } closing

/-- Outside of the initialisation a manager that is not initialised has no block. -/
theorem Agrees.noneLive (agrees : s.Agrees env k phase) (sole : k.manager.Sole)
    (out : s.manager.isInited = false) (settled : ∀ i, phase ≠ .starting i)
    : ∀ a, s.manager.world.memory.block a = none := by
  cases agrees with
  | fresh early manager =>
      rw [manager]
      exact fun a => rfl
  | asking i | requested i | inited i => exact absurd rfl (settled i)
  | up called now =>
      rw [now.same] at sole
      exact sole.noneLive out
  | closing i called closing =>
      cases pc : (s.callers i).pc <;> simp only [pc, Closing] at closing
      case stopJoin | stopFree => exact absurd (out.symm.trans closing.2.2.1) Bool.false_ne_true
      case stopInited =>
        rw [closing.same] at sole
        exact sole.noneLive rfl

end SharedPool

open SharedPool

variable {s : SharedPool}

/-- In every interleaving with a lone stop every live block belongs to the local list; when the
manager is not initialised and nobody is initialising it, before its first use or after a stop,
none is live.
-/
theorem sharedPools_leakNothing (reached : (sharedPools env pollCycle).Reachable s)
    : s.manager.world.memory.Owned [s.manager.localKeys.data]
      ∧ (s.manager.isInited = false → s.initMutex = none →
          ∀ a, s.manager.world.memory.block a = none) := by
  obtain ⟨k, reached', phase, fits, agrees⟩ :=
    (follows_simulation env pollCycle).reachable reached
  have sole := (calls_sole env).reachable (manager_reachable reached'.of_restrict)
  refine ⟨agrees.owned sole, fun out free => agrees.noneLive sole out (fun i starting => ?_)⟩
  have starts := (fits.callers i).starts.mp starting
  have holds := (fits.callers i).initMutex.mpr (CallerPc.holdsInit_of_starts starts)
  cases free.symm.trans holds

/-- The first caller stops the manager: the polling thread wakes up, looks at the keys once more
and ends, and the list is freed.
-/
def stoppedActions : List SharedAction :=
  stopActions ++ List.replicate 6 .poll ++ List.replicate 3 (.caller 0)

theorem stoppedActions_run
    : (Lts.execute (SharedPool.step standstill 18) .init stoppedActions).isSome := by
  decide +kernel

def stopped : SharedPool := Option.get _ stoppedActions_run

theorem stopped_leakNothing
    : stopped.manager.world.memory.next = 2
      ∧ ∀ a, stopped.manager.world.memory.block a = none := by
  have reached := ofFirst_reachable (by decide) stoppedActions_run
  exact ⟨by decide +kernel,
    (sharedPools_leakNothing reached).2 (by decide +kernel) (by decide +kernel)⟩

end QKeySys.KeyPool
