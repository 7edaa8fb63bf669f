import QKeySys.KeyPool.Functions

/-! What a call that runs into no fault does to the stored keys, once for all invariants. -/

namespace QKeySys.KeyPool

open QKeySys.Library

variable {env : Env} {self after : KeyManager} {keys keys' : List KeyInfo} {call : Call}

/-- The keys that a state stores; a released list stores none. -/
def KeyManager.Stores (self : KeyManager) (keys : List KeyInfo) : Prop :=
  self.localKeys.Represents self.world.memory keys
    ∨ keys = [] ∧ self.localKeys.Released self.world.memory

theorem KeyManager.Stores.keyAt_eq (now : self.Stores keys) (i : Nat)
    : self.keyAt i = keys[i]? := by
  rcases now with represents | ⟨rfl, released⟩
  · exact KeyManager.keyAt_eq represents i
  · have size := released.size
    rw [KeyManager.keyAt, if_neg (by omega)]
    rfl

/-- The key that `KeyManager_GetValidKey` returns is a stored valid key. -/
theorem KeyManager.Stores.getValidKey (now : self.Stores keys) {key : KeyInfo}
    (returned : self.getValidKey = .ok (some key))
    : key ∈ keys ∧ key.status = .valid := by
  by_cases inited : self.isInited = true
  · rcases now with represents | ⟨rfl, released⟩
    · rw [KeyManager.getValidKey_spec inited represents] at returned
      have found := Except.ok.inj returned
      exact ⟨List.mem_of_find?_eq_some found, by simpa using List.find?_some found⟩
    · rw [KeyManager.getValidKey_released released] at returned
      cases returned
  · rw [KeyManager.getValidKey, if_pos (by simpa using inited)] at returned
    cases returned

/-- The calls that leave everything as it is: those that return at once, and without a key to
mark or to look at the expiry and the lookup.
-/
def Call.idles (self : KeyManager) (call : Call) : Prop :=
  call.skipped self = true ∨ call = .getValidKey ∨ ∃ number, call = .simulateKeyExpiry number

/-- What a call leaves of a manager that stores keys, and the keys that are stored then. -/
inductive Effect (env : Env) (self : KeyManager) (keys : List KeyInfo)
    : Call → KeyManager → List KeyInfo → Prop where
  | idle {call : Call} (idles : call.idles self) : Effect env self keys call self keys
  | begun {created : Bool} {w' : World} {list' : KeyInfoList} {keys' : List KeyInfo}
    (fresh : self.isInited = false) (later : Later self.world w')
    (new : Fresh self.world w' keys') (represents : list'.Represents w'.memory keys')
    (some_of
      : keys'.Sublist
          (requested env self.world (KeyManager.needed env.defaultConfig [])))
    : Effect env self keys .init {
        self with
        world := w', localKeys := list', config := env.defaultConfig
        isInited := created, isRunning := created } keys'
  | cleared {w' : World} {list' : KeyInfoList} (inited : self.isInited = true)
    (later : Later self.world w') (released : list'.Released w'.memory)
    : Effect env self keys .checkAllKeys { self with world := w', localKeys := list' } []
  | checked {w' : World} {list' : KeyInfoList} {added : List KeyInfo}
    (inited : self.isInited = true)
    (now : self.localKeys.Represents self.world.memory keys)
    (later : Later self.world w') (readings : self.world.readings + keys.length ≤ w'.readings)
    (new : Fresh self.world w' added)
    (represents : list'.Represents w'.memory (KeyManager.survivors env self keys ++ added))
    (origin : added = KeyManager.checkAdds env self keys)
    : Effect env self keys .checkAllKeys { self with world := w', localKeys := list' }
        (KeyManager.survivors env self keys ++ added)
  | extended {keyValue : CString} {w' : World} {list' : KeyInfoList} {front : List KeyInfo}
    {key : KeyInfo} (inited : self.isInited = true)
    (now : self.localKeys.Represents self.world.memory keys)
    (readings : w'.readings = self.world.readings + 2)
    (serials : w'.serials = self.world.serials + 1)
    (represents
      : list'.Represents w'.memory (front ++ [updateKeyStatus key self.config
          (env.clock (self.world.readings + 1))]))
    (origin
      : (self.localKeys.room self.world).takes env = true ∧ front = keys
            ∧ key = KeyManager.externalKey env self keyValue
          ∨ (self.localKeys.room self.world).takes env = false ∧ keys = front ++ [key])
    : Effect env self keys (.addExternalKey keyValue) {
        self with world := w', localKeys := list', seq := int32 (self.seq + 1) }
        (front ++ [updateKeyStatus key self.config (env.clock (self.world.readings + 1))])
  | marked {number : Int} {w' : World} {keys' : List KeyInfo}
    (calls : KeyInfoList.SameCalls self.world w')
    (represents : self.localKeys.Represents w'.memory keys') (marked : Marked keys keys')
    : Effect env self keys (.simulateKeyExpiry number) { self with world := w' } keys'
  | reset {w' : World} (calls : KeyInfoList.SameCalls self.world w')
    : Effect env self keys .reset {
        self with world := w', localKeys := .init, config := env.defaultConfig } []
  | stopped {w' : World} (calls : KeyInfoList.SameCalls self.world w')
    : Effect env self keys .stop {
        self with
        world := w', localKeys := .init, isInited := false, isRunning := false } []

namespace KeyManager.Stores

/-- The effect of a check: it keeps keys and adds new ones, or leaves a released list. -/
theorem check_effect (stores : self.Stores keys) (inited : self.isInited = true)
    (ran : self.checkAllKeys env = .ok after)
    : ∃ keys', Effect env self keys .checkAllKeys after keys' := by
  rcases stores with now | ⟨-, released⟩
  case inr =>
    obtain ⟨w', rfl, later, released'⟩ := checkAllKeys_released inited released ran
    exact ⟨[], .cleared inited later released'⟩
  by_cases nothing : survivors env self keys = [] ∧ keys ≠ []
  · obtain ⟨w', list', rfl, later, released⟩ :=
      checkAllKeys_nothing inited now nothing.1 nothing.2 ran
    exact ⟨[], .cleared inited later released⟩
  · obtain ⟨w', list', added, ran', later, readings, new, represents, origin⟩ :=
      checkAllKeys_spec env inited now ((not_and_or.mp nothing).imp_right not_not.mp)
    obtain rfl := Except.ok.inj (ran.symm.trans ran')
    exact ⟨_, .checked inited now later readings new represents origin⟩

/-- The effect of an addition, which a released list and one without entries do not survive. -/
theorem addition_effect {keyValue : CString} (stores : self.Stores keys)
    (inited : self.isInited = true)
    (ran : self.call env (.addExternalKey keyValue) = .ok after)
    : ∃ keys', Effect env self keys (.addExternalKey keyValue) after keys' := by
  obtain ⟨⟨made, after'⟩, added, rfl⟩ := of_map ran
  rcases stores with now | ⟨-, released⟩
  case inr => cases added.symm.trans (addExternalKey_released inited released keyValue)
  rcases addExternalKey_spec env keyValue inited now with
    ⟨w', list', front, key, ran', readings, serials, represents, origin⟩ | ⟨-, -, failed⟩
  case inr => cases added.symm.trans failed
  obtain ⟨-, rfl⟩ := Prod.mk.inj (Except.ok.inj (added.symm.trans ran'))
  exact ⟨_, .extended inited now readings serials represents origin⟩

/-- Every call that runs into no fault has one of the effects. -/
theorem effect (stores : self.Stores keys) (ran : self.call env call = .ok after)
    : ∃ keys', Effect env self keys call after keys' := by
  by_cases skipped : call.skipped self = true
  · obtain rfl := Except.ok.inj (ran.symm.trans (call_skipped skipped))
    exact ⟨keys, .idle (.inl skipped)⟩
  cases call with
  | init =>
      have fresh : self.isInited = false := by simpa [Call.skipped] using skipped
      obtain ⟨created, w', list', keys', ran', later, new, represents, some_of, -⟩ :=
        init_spec env fresh
      obtain rfl := Except.ok.inj (ran.symm.trans (congrArg (Except.map Prod.snd) ran'))
      exact ⟨keys', .begun fresh later new represents some_of⟩
  | checkAllKeys =>
      have inited : self.isInited = true := by simpa [Call.skipped] using skipped
      exact stores.check_effect inited ran
  | addExternalKey keyValue =>
      have inited : self.isInited = true := by simpa [Call.skipped] using skipped
      exact stores.addition_effect inited ran
  | simulateKeyExpiry number =>
      rcases stores with now | ⟨-, released⟩
      · obtain ⟨w', keys', ran', calls, represents, marked⟩ :=
          simulateKeyExpiry_spec number now
        obtain rfl := Except.ok.inj (ran.symm.trans ran')
        exact ⟨keys', .marked calls represents marked⟩
      · obtain rfl := Except.ok.inj
          (ran.symm.trans (simulateKeyExpiry_released released number))
        exact ⟨keys, .idle (.inr (.inr ⟨number, rfl⟩))⟩
  | getValidKey =>
      obtain ⟨found, -, rfl⟩ := of_map ran
      exact ⟨keys, .idle (.inr (.inl rfl))⟩
  | reset =>
      rcases stores with now | ⟨-, released⟩
      · obtain ⟨w', ran', calls⟩ := reset_spec env now
        obtain rfl := Except.ok.inj (ran.symm.trans ran')
        exact ⟨[], .reset calls⟩
      · cases ran.symm.trans (reset_released released)
  | stop =>
      have inited : self.isInited = true := by simpa [Call.skipped] using skipped
      rcases stores with now | ⟨-, released⟩
      · obtain ⟨w', ran', calls⟩ := stop_spec inited now
        obtain rfl := Except.ok.inj (ran.symm.trans ran')
        exact ⟨[], .stopped calls⟩
      · cases ran.symm.trans (stop_released inited released)

end KeyManager.Stores

/-- The keys of the effect are those that the manager stores. -/
theorem Effect.stores (effect : Effect env self keys call after keys') (stores : self.Stores keys)
    : after.Stores keys' := by
  cases effect with
  | idle => exact stores
  | begun fresh later new represents => exact .inl represents
  | cleared inited later released => exact .inr ⟨rfl, released⟩
  | checked inited now later readings new represents => exact .inl represents
  | extended inited now readings serials represents => exact .inl represents
  | marked calls represents => exact .inl represents
  | reset | stopped => exact .inl (KeyInfoList.init_represents _)

/-- What holds of the texts of all stored keys stays true when it holds of the keys that the
gateway makes and of the one that is added: no call changes a text.
-/
theorem Effect.texts {holds : CString → CString → Prop}
    (effect : Effect env self keys call after keys')
    (now : ∀ key ∈ keys, holds key.keyId key.keyValue)
    (gateway
      : ∀ w i, holds (requestedKey env w i).keyId (requestedKey env w i).keyValue)
    (external
      : ∀ keyValue, call = .addExternalKey keyValue →
          holds (KeyManager.externalKey env self keyValue).keyId
            (KeyManager.externalKey env self keyValue).keyValue)
    : ∀ key ∈ keys', holds key.keyId key.keyValue := by
  have made {w : World} {n : Nat} {new : List KeyInfo}
      (some_of : new.Sublist (requested env w n))
      : ∀ key ∈ new, holds key.keyId key.keyValue := by
    intro key inside
    obtain ⟨i, -, rfl⟩ := mem_requested.mp (some_of.subset inside)
    exact gateway w i
  cases effect with
  | idle => exact now
  | begun fresh later new represents some_of => exact made some_of
  | cleared | reset | stopped => simp
  | checked inited represents later readings new represents' origin =>
      intro key inside
      rcases List.mem_append.mp inside with stays | added
      · obtain ⟨refreshed, -⟩ := mem_kept.mp stays
        obtain ⟨i, old, found, rfl⟩ := mem_refreshed.mp refreshed
        exact now old (List.mem_of_getElem? found)
      · rw [origin] at added
        exact made (KeyManager.replenished_sublist _ _) key added
  | @extended keyValue w' list' front key inited now' readings serials represents origin =>
      rcases origin with ⟨-, rfl, rfl⟩ | ⟨-, rfl⟩
      · intro key inside
        rcases List.mem_append.mp inside with earlier | last
        · exact now key earlier
        · rw [List.mem_singleton.mp last]
          exact external keyValue rfl
      · intro key' inside
        rcases List.mem_append.mp inside with earlier | last
        · exact now key' (List.mem_append_left _ earlier)
        · rw [List.mem_singleton.mp last]
          exact now key (by simp)
  | marked calls represents marked =>
      intro key' inside
      obtain ⟨i, found⟩ := List.mem_iff_getElem?.mp inside
      obtain ⟨key, found', rfl | rfl⟩ := marked i key' found
      · exact now _ (List.mem_of_getElem? found')
      · exact now key (List.mem_of_getElem? found')

/-- Readings and initialised keys are only added. -/
theorem Effect.later (effect : Effect env self keys call after keys')
    : Later self.world after.world := by
  cases effect with
  | idle => exact .refl _
  | begun fresh later | cleared inited later | checked inited now later => exact later
  | extended inited now readings serials => exact ⟨by simp only; omega, by simp only; omega⟩
  | marked calls | reset calls | stopped calls => exact calls.later

end QKeySys.KeyPool
