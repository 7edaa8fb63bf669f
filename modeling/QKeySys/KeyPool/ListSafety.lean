import QKeySys.KeyPool.Functions

/-! The local list over all sequences of calls: it stays well formed as long as no check of
all keys deletes every one of them.
-/

namespace QKeySys.KeyPool

open QKeySys.Library

variable {env : Env} {self : KeyManager} {keys : List KeyInfo}

/-- The local list stands for a list of keys. -/
def KeyManager.Intact (self : KeyManager) : Prop :=
  ∃ keys, self.localKeys.Represents self.world.memory keys

/-- A check of all keys finds one that is not to be deleted, if it looks at any key. -/
def keepsOne (env : Env) (self : KeyManager) : Call → Prop
  | .checkAllKeys =>
      self.isInited = true → self.localKeys.size ≠ 0 →
        ∃ i key, self.keyAt i = some key
          ∧ statusAt key self.config (env.clock (self.world.readings + i)) ≠ .deleted
  | _ => True

/-- Over all sequences of calls that meet the condition, the local list is well formed and no
call stores into a released block or releases it again.
-/
structure ListSafe (env : Env) (allowed : KeyManager → Call → Prop) : Prop where
  wellFormed
    : ∀ self, ((calls env).restrict allowed).Reachable self →
        self.localKeys.WellFormed self.world.memory
  live
    : ∀ self call, ((calls env).restrict allowed).Reachable self → allowed self call →
        self.call env call ≠ .error .released

/-- A check keeps a key exactly when it finds one that is not to be deleted. -/
theorem kept_ne_nil_iff (now : self.localKeys.Represents self.world.memory keys)
    : kept (refreshed env self.config self.world.readings keys) ≠ []
      ↔ ∃ i key, self.keyAt i = some key
          ∧ statusAt key self.config (env.clock (self.world.readings + i)) ≠ .deleted := by
  simp only [KeyManager.keyAt_eq now]
  constructor
  · intro some_stays
    obtain ⟨key', inside⟩ := List.exists_mem_of_ne_nil _ some_stays
    obtain ⟨updated, stays⟩ := mem_kept.mp inside
    obtain ⟨i, key, found, rfl⟩ := mem_refreshed.mp updated
    exact ⟨i, key, found, stays⟩
  · rintro ⟨i, key, found, stays⟩
    exact List.ne_nil_of_mem (mem_kept.mpr ⟨mem_refreshed.mpr ⟨i, key, found, rfl⟩, stays⟩)

/-- A check that keeps one, if it looks at any key. -/
theorem kept_of_keepsOne (now : self.localKeys.Represents self.world.memory keys)
    (inited : self.isInited = true) (one : keepsOne env self .checkAllKeys)
    : kept (refreshed env self.config self.world.readings keys) ≠ [] ∨ keys = [] := by
  by_cases empty : keys = []
  · exact .inr empty
  · have some_keys : self.localKeys.size ≠ 0 := by
      have size := now.size
      have positive := List.length_pos_iff.mpr empty
      omega
    exact .inl ((kept_ne_nil_iff now).mpr (one inited some_keys))

/-- Every call leaves an intact list, or runs into an access outside of a block. -/
theorem intact_call (intact : self.Intact) (call : Call) (one : keepsOne env self call)
    : (∃ after, self.call env call = .ok after ∧ after.Intact)
      ∨ self.call env call = .error .outside := by
  by_cases skipped : call.skipped self = true
  · exact .inl ⟨self, KeyManager.call_skipped skipped, intact⟩
  obtain ⟨keys, now⟩ := intact
  cases call with
  | init =>
      have fresh : self.isInited = false := by simpa [Call.skipped] using skipped
      obtain ⟨created, w', list', keys', ran, -, -, represents, -⟩ :=
        KeyManager.init_spec env fresh
      exact .inl ⟨_, congrArg (Except.map Prod.snd) ran, keys', represents⟩
  | checkAllKeys =>
      have inited : self.isInited = true := by simpa [Call.skipped] using skipped
      obtain ⟨w', list', added, ran, -, -, -, represents, -⟩ :=
        KeyManager.checkAllKeys_spec env inited now (kept_of_keepsOne now inited one)
      exact .inl ⟨_, ran, _, represents⟩
  | addExternalKey keyValue =>
      have inited : self.isInited = true := by simpa [Call.skipped] using skipped
      rcases KeyManager.addExternalKey_spec env keyValue inited now with
        ⟨w', list', front, key, ran, -, -, represents, -⟩ | ⟨-, -, failed⟩
      · exact .inl ⟨_, congrArg (Except.map Prod.snd) ran, _, represents⟩
      · exact .inr (congrArg (Except.map Prod.snd) failed)
  | simulateKeyExpiry number =>
      obtain ⟨w', keys', ran, -, represents, -⟩ := KeyManager.simulateKeyExpiry_spec number now
      exact .inl ⟨_, ran, keys', represents⟩
  | getValidKey =>
      have inited : self.isInited = true := by simpa [Call.skipped] using skipped
      have ran := KeyManager.getValidKey_spec inited now
      exact .inl ⟨self, congrArg (Except.map _) ran, keys, now⟩
  | reset =>
      obtain ⟨w', ran, -⟩ := KeyManager.reset_spec env now
      exact .inl ⟨_, ran, [], KeyInfoList.init_represents _⟩
  | stop =>
      have inited : self.isInited = true := by simpa [Call.skipped] using skipped
      obtain ⟨w', ran, -⟩ := KeyManager.stop_spec inited now
      exact .inl ⟨_, ran, [], KeyInfoList.init_represents _⟩

/-- In every run whose checks of all keys keep one, the local list is intact. -/
theorem keepsOne_intact (env : Env)
    : ((calls env).restrict (keepsOne env)).Invariant KeyManager.Intact where
  init self start := by
    obtain rfl := start
    exact ⟨[], KeyInfoList.init_represents _⟩
  step self call after intact step := by
    obtain ⟨one, ran⟩ := step
    rcases intact_call intact call one with ⟨after', ran', intact'⟩ | failed
    · obtain rfl := Except.ok.inj (ran.symm.trans ran')
      exact intact'
    · exact absurd (ran.symm.trans failed) (by simp)

/-- When every check of all keys keeps one, the local list stays well formed and only live
blocks are accessed.
-/
theorem keepsOne_listSafe (env : Env) : ListSafe env (keepsOne env) where
  wellFormed self reached := by
    obtain ⟨keys, now⟩ := (keepsOne_intact env).reachable reached
    exact now.wellFormed
  live self call reached one released := by
    rcases intact_call ((keepsOne_intact env).reachable reached) call one with
      ⟨after, ran, -⟩ | failed
    · exact absurd (released.symm.trans ran) (by simp)
    · exact absurd (released.symm.trans failed) (by simp)

/-- A check of all keys that keeps none and succeeds leaves the list pointing to the released
block.
-/
theorem keepsNone_released {after : KeyManager} (intact : self.Intact)
    (none_kept : ¬ keepsOne env self .checkAllKeys)
    (ran : self.call env .checkAllKeys = .ok after)
    : after.localKeys.Released after.world.memory := by
  obtain ⟨keys, now⟩ := intact
  simp only [keepsOne, not_forall] at none_kept
  obtain ⟨inited, some_keys, none_kept⟩ := none_kept
  have some_keys : keys ≠ [] := by
    rintro rfl
    exact some_keys now.size
  have nothing := not_not.mp (mt (kept_ne_nil_iff now).mp none_kept)
  obtain ⟨w', list', rfl, -, released⟩ :=
    KeyManager.checkAllKeys_nothing inited now nothing some_keys ran
  exact released

/-- So it never leaves a well-formed list. -/
theorem keepsNone_illFormed {after : KeyManager} (intact : self.Intact)
    (none_kept : ¬ keepsOne env self .checkAllKeys)
    (ran : self.call env .checkAllKeys = .ok after)
    : ¬ after.localKeys.WellFormed after.world.memory :=
  (keepsNone_released intact none_kept ran).not_wellFormed

/-- The clock jumps past the end of the freeze after the first three keys are requested. -/
def longPause : Env where
  clock n := if n < 3 then 1000 else 2000
  grants _ := true
  creates _ := true
  defaultConfig := defaultConfig

/-- Not every run is safe: the first check after the pause deletes all keys and then stores
the first new key into the block that the deletion released.
-/
theorem longPause_unsafe : ¬ ∀ env, ListSafe env (fun _ _ => True) := by
  intro safe
  have fault : ((KeyManager.initInstance.call longPause .init).bind
      (·.call longPause .checkAllKeys)).map (fun _ => ()) = .error .released := by
    decide +kernel
  cases started : KeyManager.initInstance.call longPause .init with
  | error fault' =>
      have starts : (KeyManager.initInstance.call longPause .init).isOk = true := by
        decide +kernel
      simp [started, Except.isOk, Except.toBool] at starts
  | ok self =>
      rw [started] at fault
      have reached : ((calls longPause).restrict (fun _ _ => True)).Reachable self :=
        .next (.start rfl) (show _ ∧ _ from ⟨trivial, started⟩)
      refine (safe longPause).live self .checkAllKeys reached trivial ?_
      cases checked : self.call longPause .checkAllKeys with
      | error fault' => simpa [checked, Except.bind, Except.map] using fault
      | ok after => simp [checked, Except.bind, Except.map] at fault

end QKeySys.KeyPool
