import QKeySys.KeyPool.Contents

/-! What each function of the key manager does to a pool whose array stands for a list of
keys, and to one whose array was released behind its back.
-/

namespace QKeySys.KeyPool

open QKeySys.Library

variable {env : Env} {w : World} {list : KeyInfoList} {keys : List KeyInfo} {self : KeyManager}
  {key : KeyInfo}

/-- Keys were at most marked as deleted. -/
def Marked (keys keys' : List KeyInfo) : Prop :=
  ∀ (i : Nat) (key' : KeyInfo), keys'[i]? = some key' →
    ∃ key, keys[i]? = some key ∧ (key' = key ∨ key' = { key with status := .deleted })

theorem Marked.refl (keys : List KeyInfo) : Marked keys keys :=
  fun _ key found => ⟨key, found, .inl rfl⟩

/-- Marking one more key. -/
theorem Marked.delete {keys' : List KeyInfo} (marked : Marked keys keys') {i : Nat}
    (less : i < keys'.length)
    : Marked keys (keys'.set i { keys'[i] with status := .deleted }) := by
  intro j key' found
  rw [List.getElem?_set] at found
  split at found
  case isTrue same =>
    subst same
    obtain ⟨key, origin, change⟩ := marked i keys'[i] (List.getElem?_eq_getElem less)
    obtain rfl := Option.some.inj found
    refine ⟨key, origin, .inr ?_⟩
    rcases change with same | same <;> rw [same]
  case isFalse => exact marked j key' found

namespace KeyManager

/-- The search returns the first valid key. -/
theorem getValidKey_spec (inited : self.isInited = true)
    (now : self.localKeys.Represents self.world.memory keys)
    : self.getValidKey = .ok (keys.find? (fun key => key.status = .valid)) := by
  have size : self.localKeys.size.toNat = keys.length := by simp [now.size]
  obtain ⟨found, ran, first⟩ :
      ∃ found, forLoop self.localKeys.size.toNat (findTurn self.world self.localKeys) none
        = .ok found
      ∧ found = (keys.take self.localKeys.size.toNat).find?
          (fun key => key.status = .valid) := by
    refine forLoop_ok _ _ _ (fun i (found : Option KeyInfo) =>
      found = (keys.take i).find? (fun key => key.status = .valid)) rfl
      (fun i less found first => ?_)
    have less : i < keys.length := size ▸ less
    have there := now.load (List.getElem?_eq_getElem less)
    rw [List.take_add_one, List.getElem?_eq_getElem less, Option.toList_some, List.find?_append,
      ← first]
    cases found with
    | some key => exact ⟨some key, rfl, rfl⟩
    | none =>
        refine ⟨_, by rw [findTurn, there]; rfl, ?_⟩
        by_cases valid : keys[i].status = .valid <;> simp [valid]
  rw [getValidKey, inited, ran, first, size, List.take_length]
  rfl

/-- One turn of the expiry leaves the keys alone or marks one of them. -/
theorem expireTurn_spec {w' : World} (now : list.Represents w'.memory keys) {i : Nat}
    (less : i < keys.length) (number count : Int)
    : ∃ w'' count' keys', expireTurn list number i (w', count) = .ok (w'', count')
        ∧ KeyInfoList.SameCalls w' w'' ∧ list.Represents w''.memory keys'
        ∧ (keys' = keys ∨ keys' = keys.set i { keys[i] with status := .deleted }) := by
  by_cases more : count < number
  · have there := now.load (List.getElem?_eq_getElem less)
    by_cases valid : keys[i].status = .valid
    · obtain ⟨memory, stored, -, represents⟩ :=
        now.store less { keys[i] with status := .deleted }
      refine ⟨{ w' with memory := memory }, count + 1, _, ?_, ⟨rfl, rfl, rfl⟩, represents,
        .inr rfl⟩
      refine (if_pos more).trans ?_
      rw [there]
      refine (if_pos valid).trans ?_
      rw [stored]
      rfl
    · refine ⟨w', count, keys, ?_, .refl _, now, .inl rfl⟩
      refine (if_pos more).trans ?_
      rw [there]
      exact if_neg valid
  · exact ⟨w', count, keys, if_neg more, .refl _, now, .inl rfl⟩

/-- The simulated expiry only marks keys as deleted. -/
theorem simulateKeyExpiry_spec (number : Int)
    (now : self.localKeys.Represents self.world.memory keys)
    : ∃ w' keys', self.simulateKeyExpiry number = .ok { self with world := w' }
        ∧ KeyInfoList.SameCalls self.world w' ∧ self.localKeys.Represents w'.memory keys'
        ∧ Marked keys keys' := by
  have size : self.localKeys.size.toNat = keys.length := by simp [now.size]
  unfold simulateKeyExpiry
  split
  case isTrue => exact ⟨self.world, keys, rfl, .refl _, now, .refl keys⟩
  case isFalse =>
    obtain ⟨⟨w', count⟩, ran, calls, keys', represents, marked⟩ :=
      forLoop_ok self.localKeys.size.toNat (expireTurn self.localKeys number) (self.world, 0)
        (fun _ state => KeyInfoList.SameCalls self.world state.1
          ∧ ∃ keys', self.localKeys.Represents state.1.memory keys' ∧ Marked keys keys')
        ⟨.refl _, keys, now, .refl keys⟩
        (fun i less (w', count) ⟨calls, keys', represents, marked⟩ => by
          have less : i < keys'.length := by
            have size' := represents.size
            omega
          obtain ⟨w'', count', keys'', ran, calls', represents', same | one⟩ :=
            expireTurn_spec represents less number count
          · exact ⟨_, ran, calls.trans calls', keys'', represents', same ▸ marked⟩
          · exact ⟨_, ran, calls.trans calls', keys'', represents', one ▸ marked.delete less⟩)
    exact ⟨w', keys', by rw [ran]; rfl, calls, represents, marked⟩

/-- `KeyManager_Init` starts from an empty list of its own; when the polling thread is not
created it gives the keys back.
-/
theorem init_spec (env : Env) (fresh : self.isInited = false)
    : ∃ created w' list' keys',
        self.init env = .ok (created, {
          self with
          world := w', localKeys := list', config := env.defaultConfig
          isInited := created, isRunning := created })
        ∧ Later self.world w' ∧ Fresh self.world w' keys'
        ∧ list'.Represents w'.memory keys'
        ∧ keys'.Sublist (requested env self.world (needed env.defaultConfig []))
        ∧ ∃ n, created = env.creates n := by
  obtain ⟨world, localKeys, config, isInited, isRunning, seq⟩ := self
  obtain rfl : isInited = false := fresh
  let self : KeyManager := ⟨world, localKeys, config, false, isRunning, seq⟩
  obtain ⟨w₁, list, added, requested, later, fresh', represents, origin⟩ :=
    checkAndRequestKeys_spec env { self with config := env.defaultConfig, localKeys := .init }
      (KeyInfoList.init_represents _)
  have body : self.init env
      = if env.creates w₁.creations then
          .ok (true, {
            self with
            world := { w₁ with creations := w₁.creations + 1 }, localKeys := list
            config := env.defaultConfig, isInited := true, isRunning := true })
        else
          (list.free { w₁ with creations := w₁.creations + 1 }).map (fun freed =>
            (false, {
              self with
              world := freed.1, localKeys := freed.2
              config := env.defaultConfig, isRunning := false })) := by
    exact bind_ok requested _
  have later' : Later w₁ { w₁ with creations := w₁.creations + 1 } :=
    ⟨Nat.le_refl _, Nat.le_refl _⟩
  rw [body]
  by_cases created : env.creates w₁.creations
  · exact ⟨true, _, list, added, if_pos created, later.trans later',
      fresh'.sublist (.refl _) later', represents, origin ▸ replenished_sublist _ _,
      _, created.symm⟩
  · have wellFormed
        : list.WellFormed { w₁ with creations := w₁.creations + 1 }.memory :=
      represents.wellFormed
    obtain ⟨w₂, freed, calls, -⟩ := wellFormed.free
    refine ⟨false, w₂, .init, [], ?_, (later.trans later').trans calls.later, .nil _ _,
      KeyInfoList.init_represents _, List.nil_sublist _, _, (eq_false_of_ne_true created).symm⟩
    exact (if_neg created).trans (congrArg (Except.map _) freed)

/-- `KeyManager_Stop` and `KeyManager_Reset` give the keys back. -/
theorem stop_spec (inited : self.isInited = true)
    (now : self.localKeys.Represents self.world.memory keys)
    : ∃ w', self.stop = .ok {
          self with
          world := w', localKeys := .init, isInited := false, isRunning := false }
        ∧ KeyInfoList.SameCalls self.world w' := by
  obtain ⟨w', freed, calls, -⟩ := now.wellFormed.free
  refine ⟨w', ?_, calls⟩
  rw [stop, inited, freed]
  rfl

theorem reset_spec (env : Env) (now : self.localKeys.Represents self.world.memory keys)
    : ∃ w', self.reset env = .ok {
          self with world := w', localKeys := .init, config := env.defaultConfig }
        ∧ KeyInfoList.SameCalls self.world w' := by
  obtain ⟨w', freed, calls, -⟩ := now.wellFormed.free
  refine ⟨w', ?_, calls⟩
  rw [reset, freed]
  rfl

/-- The world after the clock has been read once for each key. -/
def afterUpdate (self : KeyManager) (keys : List KeyInfo) : World :=
  { self.world with readings := self.world.readings + keys.length }

/-- The keys that a check keeps, with their statuses updated. -/
def survivors (env : Env) (self : KeyManager) (keys : List KeyInfo) : List KeyInfo :=
  kept (refreshed env self.config self.world.readings keys)

/-- The keys that a check requests and stores. -/
def checkAdds (env : Env) (self : KeyManager) (keys : List KeyInfo) : List KeyInfo :=
  replenished env (self.afterUpdate keys)
    ((self.localKeys.room self.world).shrink env (survivors env self keys).length)
    (needed self.config (survivors env self keys))

/-- With enough memory a check adds all keys that it requests. -/
theorem checkAdds_eq_requested
    (allocates
      : let r := (self.localKeys.room self.world).shrink env (survivors env self keys).length
        let n := needed self.config (survivors env self keys)
        (Room.empty r.reallocs).takesAll env n ∧ (afterBatch env r n).takesAll env n)
    : checkAdds env self keys
      = requested env (self.afterUpdate keys)
        (needed self.config (survivors env self keys)) := by
  obtain ⟨batch, all⟩ := allocates
  rw [checkAdds, replenished, if_pos batch, Room.accepted_eq_self, requested_length]
  exact all

/-- A check, once the statuses are updated and the deleted keys are gone. -/
theorem checkAllKeys_eq {w₁ w₂ : World} {list : KeyInfoList} (inited : self.isInited = true)
    (updated : updateAll env self.config self.world self.localKeys = .ok w₁)
    (compacted : deleteExpiredKeys env w₁ self.localKeys = .ok (w₂, list))
    : self.checkAllKeys env
      = checkAndRequestKeys env { self with world := w₂, localKeys := list } := by
  rw [checkAllKeys_eq_locked inited]
  exact (bind_ok updated _).trans (bind_ok compacted _)

/-- `KeyManager_CheckAllKeys` keeps the keys that are not deleted after the update and
requests new ones, unless it keeps none.
-/
theorem checkAllKeys_spec (env : Env) (inited : self.isInited = true)
    (now : self.localKeys.Represents self.world.memory keys)
    (some_kept : survivors env self keys ≠ [] ∨ keys = [])
    : ∃ w' list' added,
        self.checkAllKeys env = .ok { self with world := w', localKeys := list' }
        ∧ Later self.world w' ∧ self.world.readings + keys.length ≤ w'.readings
        ∧ Fresh self.world w' added
        ∧ list'.Represents w'.memory (survivors env self keys ++ added)
        ∧ added = checkAdds env self keys := by
  obtain ⟨w₁, updated, readings, serials, reallocs, represents⟩ :=
    updateAll_spec env self.config now
  obtain ⟨w₂, list, compacted, calls, room, outcome⟩ := deleteExpiredKeys_spec env represents
  have there : list.Represents w₂.memory (survivors env self keys) := by
    rcases outcome with ⟨none_left, some_keys, -⟩ | ⟨-, there⟩
    · rcases some_kept with some_left | rfl
      · exact absurd none_left some_left
      · exact absurd rfl some_keys
    · exact there
  obtain ⟨w₃, list', added, asked, later, fresh, represents', origin⟩ :=
    checkAndRequestKeys_spec env { self with world := w₂, localKeys := list } there
  simp only at asked later fresh origin
  have readings' : w₂.readings = self.world.readings + keys.length := by
    rw [calls.readings, readings]
  have serials' : w₂.serials = self.world.serials := by rw [calls.serials, serials]
  have later' : Later self.world w₂ := ⟨by omega, Nat.le_of_eq serials'.symm⟩
  have room' : list.room w₂
      = (self.localKeys.room self.world).shrink env (survivors env self keys).length := by
    rw [room, KeyInfoList.room, reallocs]
    rfl
  refine ⟨w₃, list', added, ?_, later'.trans later, readings' ▸ later.readings,
    fresh.earlier later', represents', ?_⟩
  · rw [checkAllKeys_eq inited updated compacted]
    exact asked
  · rw [origin, room', replenished, checkAdds, replenished,
      requested_congr (w := self.afterUpdate keys) readings' serials']

/-- A check that updates no status and requests no key keeps the list, and initialises no key.
-/
theorem checkAllKeys_settled (env : Env) (inited : self.isInited = true)
    (now : self.localKeys.Represents self.world.memory keys)
    (settled : survivors env self keys = keys) (enough : needed self.config keys = 0)
    : ∃ w' list', self.checkAllKeys env = .ok { self with world := w', localKeys := list' }
        ∧ w'.serials = self.world.serials ∧ list'.Represents w'.memory keys := by
  obtain ⟨w₁, updated, readings, serials, -, represents⟩ := updateAll_spec env self.config now
  obtain ⟨w₂, list, compacted, calls, -, outcome⟩ := deleteExpiredKeys_spec env represents
  have there : list.Represents w₂.memory keys := by
    have settled : kept (refreshed env self.config self.world.readings keys) = keys := settled
    rw [settled] at outcome
    rcases outcome with ⟨nothing, some_keys, -⟩ | ⟨-, there⟩
    · have length := congrArg List.length nothing
      rw [← refreshed_length self.config self.world.readings] at length
      exact absurd (List.length_eq_zero_iff.mp length) some_keys
    · exact there
  refine ⟨w₂, list, ?_, calls.serials.trans serials, there⟩
  rw [checkAllKeys_eq inited updated compacted]
  exact checkAndRequestKeys_enough _ there enough

/-- The last key is the one behind the size. -/
theorem updateLast (now : list.Represents w.memory (keys ++ [key])) (key' : KeyInfo)
    : w.memory.load list.data (list.size - 1) = .ok key
      ∧ ∃ memory, w.memory.store list.data (list.size - 1) key' = .ok memory
        ∧ list.Represents memory (keys ++ [key']) := by
  have last : list.size - 1 = (keys.length : Nat) := by
    have size := now.size
    simp only [List.length_append, List.length_singleton] at size
    omega
  rw [last]
  refine ⟨now.load (by simp), ?_⟩
  obtain ⟨memory, stored, -, represents⟩ := now.store (i := keys.length) (by simp) key'
  exact ⟨memory, stored, by simpa using represents⟩

/-- The key that `KeyManager_AddExternalKey` makes of a value. -/
def externalKey (env : Env) (self : KeyManager) (keyValue : CString) : KeyInfo :=
  let currentTs := env.clock self.world.readings
  .init (fit keyIdMaxLen
    ("ext_".toList ++ decimal currentTs ++ '_' :: decimal ((int32 (self.seq + 1)).tmod 1000)))
    keyValue currentTs self.world.serials

/-- `KeyManager_AddExternalKey` appends a key and updates its status. When the array cannot
grow it updates the last key instead, which an empty list does not have.
-/
theorem addExternalKey_spec (env : Env) (keyValue : CString) (inited : self.isInited = true)
    (now : self.localKeys.Represents self.world.memory keys)
    : (∃ w' list' front key,
        self.addExternalKey env keyValue
          = .ok (true, {
            self with world := w', localKeys := list', seq := int32 (self.seq + 1) })
        ∧ w'.readings = self.world.readings + 2 ∧ w'.serials = self.world.serials + 1
        ∧ list'.Represents w'.memory (front ++ [updateKeyStatus key self.config
          (env.clock (self.world.readings + 1))])
        ∧ ((self.localKeys.room self.world).takes env = true ∧ front = keys
            ∧ key = externalKey env self keyValue
          ∨ (self.localKeys.room self.world).takes env = false ∧ keys = front ++ [key]))
      ∨ (self.localKeys.room self.world).takes env = false ∧ keys = []
        ∧ self.addExternalKey env keyValue = .error .outside := by
  let ready : World := {
    self.world with
    readings := self.world.readings + 1, serials := self.world.serials + 1 }
  have there : self.localKeys.Represents ready.memory keys := now
  obtain ⟨w', list', result, added, calls, -, -, outcome⟩ :=
    there.add env (externalKey env self keyValue)
  have locked : self.addLocked env keyValue
      = (w'.memory.load list'.data (list'.size - 1)).bind (fun key =>
          (w'.memory.store list'.data (list'.size - 1)
            (updateKeyStatus key self.config (env.clock w'.readings))).map (fun memory =>
            {
              self with
              world := { w' with memory := memory, readings := w'.readings + 1 }
              localKeys := list', seq := int32 (self.seq + 1) })) :=
    bind_ok added _
  have readings : w'.readings = self.world.readings + 1 := calls.readings
  rw [addExternalKey_eq_locked inited, locked, readings]
  have room : self.localKeys.room ready = self.localKeys.room self.world := rfl
  rw [room] at outcome
  rcases outcome with ⟨taken, -, represents⟩ | ⟨refused, -, same, rfl⟩
  · obtain ⟨loaded, memory, stored, represents'⟩ := updateLast represents
      (updateKeyStatus (externalKey env self keyValue) self.config
        (env.clock (self.world.readings + 1)))
    refine .inl ⟨{ w' with memory := memory, readings := w'.readings + 1 }, list', keys,
      externalKey env self keyValue, ?_, by simp [readings], calls.serials, represents',
      .inl ⟨taken, rfl, rfl⟩⟩
    rw [loaded, readings]
    exact congrArg (Except.map _) (congrArg (Except.map _) stored)
  · have represents : self.localKeys.Represents w'.memory keys := same ▸ now
    rcases List.eq_nil_or_concat keys with rfl | ⟨front, last, rfl⟩
    · refine .inr ⟨refused, rfl, ?_⟩
      have size := now.size
      have fits := now.wellFormed.fits
      have full : self.localKeys.capacity ≤ self.localKeys.size :=
        (Room.takes_eq_false.mp refused).1
      have empty : self.localKeys.capacity = 0 := by simp at size; omega
      rw [now.wellFormed.null.mpr empty]
      rfl
    · rw [List.concat_eq_append] at represents ⊢
      obtain ⟨loaded, memory, stored, represents'⟩ := updateLast represents
        (updateKeyStatus last self.config (env.clock (self.world.readings + 1)))
      refine .inl ⟨{ w' with memory := memory, readings := w'.readings + 1 }, self.localKeys,
        front, last, ?_, by simp [readings], calls.serials, represents',
        .inr ⟨refused, rfl⟩⟩
      rw [loaded, readings]
      exact congrArg (Except.map _) (congrArg (Except.map _) stored)

/-- Copying a key into a released list runs into a fault, so that a copy that succeeds copied
none.
-/
theorem addAll_released {newList : KeyInfoList} {result : World × KeyInfoList}
    (now : list.Released w.memory) (ran : addAll env w list newList = .ok result)
    : newList.size.toNat = 0 ∧ result = (w, list) := by
  refine forLoop_inv (fun i state => i = 0 ∧ state = (w, list)) ⟨rfl, rfl⟩
    (fun i _ state state' same step => ?_) ran
  obtain ⟨-, rfl⟩ := same
  rw [addTurn] at step
  cases loaded : w.memory.load newList.data i with
  | error fault => simp [loaded, bind, Except.bind] at step
  | ok key => simp [loaded, now.add, bind, Except.bind] at step

/-- No valid key is found in a released list. -/
theorem countValid_released (now : list.Released w.memory) : countValid w list = .ok 0 := by
  rw [countValid, now.size]
  rfl

/-- No status is updated in a released list. -/
theorem updateAll_released {config : KeyConfig} (now : list.Released w.memory)
    : updateAll env config w list = .ok w := by
  rw [updateAll, now.size]
  rfl

/-- A request that succeeds on a released list leaves it released. -/
theorem checkAndRequestKeys_released (self : KeyManager) {after : KeyManager}
    (now : self.localKeys.Released self.world.memory)
    (ran : checkAndRequestKeys env self = .ok after)
    : ∃ w', after = { self with world := w' } ∧ Later self.world w'
        ∧ self.localKeys.Released w'.memory := by
  have counted := countValid_released now
  by_cases few : (0 : Int) < self.config.validThreshold
  · obtain ⟨w', newKeys, result, new, asked, newList, -⟩ :=
      requestNewKeys_spec env self.world (Int.sub_pos.mpr few)
    rw [checkAndRequestKeys_eq counted few asked] at ran
    obtain ⟨a, data, used, -⟩ := now.gone
    have there := now.frame newList.touches (by simp [data])
    have apart : self.localKeys.data ≠ newKeys.data := data ▸ (newList.apart used).symm
    obtain ⟨⟨w₁, list⟩, copied, rest⟩ := of_bind ran
    have same : (w₁, list) = (w', self.localKeys) := by
      split at copied
      case isTrue => exact (addAll_released there copied).2
      case isFalse => exact (Except.ok.inj copied).symm
    obtain ⟨rfl, rfl⟩ := Prod.mk.inj same
    obtain ⟨w₂, freed, calls, touches⟩ := newList.represents.wellFormed.free
    have rest : (newKeys.free w₁).map
        (fun freed => { self with world := freed.1, localKeys := self.localKeys })
        = .ok after := rest
    rw [freed] at rest
    obtain rfl := Except.ok.inj rest
    exact ⟨w₂, rfl, newList.later.trans calls.later, there.frame touches apart⟩
  · rw [checkAndRequestKeys, counted] at ran
    obtain rfl := Except.ok.inj ((if_neg few).symm.trans ran)
    exact ⟨self.world, rfl, .refl _, now⟩

/-- A request on a released list fails when the gateway delivers a key. -/
theorem checkAndRequestKeys_released_fails (self : KeyManager) {after : KeyManager}
    (now : self.localKeys.Released self.world.memory)
    (few : 0 < self.config.validThreshold)
    (all : (Room.empty self.world.reallocs).takesAll env self.config.validThreshold.toNat)
    : checkAndRequestKeys env self ≠ .ok after := by
  intro ran
  obtain ⟨w', newKeys, result, new, asked, newList, progress⟩ :=
    requestNewKeys_spec env self.world (Int.sub_pos.mpr few)
  rw [checkAndRequestKeys_eq (countValid_released now) few asked] at ran
  rw [Int.sub_zero] at progress
  cases progress with
  | filling =>
      obtain ⟨a, data, -, -⟩ := now.gone
      have there := now.frame newList.touches (by simp [data])
      obtain ⟨copied, added, -⟩ := of_bind ran
      have none_new := (addAll_released there added).1
      have size := newList.represents.size
      rw [requested_length] at size
      omega
  | refused _ _ j less some_refused => cases (all j less).symm.trans some_refused

/-- Up to its request a check that keeps no key succeeds, with a released list. -/
theorem compacted_nothing (env : Env)
    (now : self.localKeys.Represents self.world.memory keys)
    (none_kept : survivors env self keys = []) (some_keys : keys ≠ [])
    : ∃ w₁ w₂ list, updateAll env self.config self.world self.localKeys = .ok w₁
        ∧ deleteExpiredKeys env w₁ self.localKeys = .ok (w₂, list)
        ∧ Later self.world w₂
        ∧ list.room w₂ = (self.localKeys.room self.world).shrink env 0
        ∧ list.Released w₂.memory := by
  obtain ⟨w₁, updated, readings, serials, reallocs, represents⟩ :=
    updateAll_spec env self.config now
  obtain ⟨w₂, list, compacted, calls, room, outcome⟩ := deleteExpiredKeys_spec env represents
  refine ⟨w₁, w₂, list, updated, compacted, ⟨?_, ?_⟩, ?_, ?_⟩
  · rw [calls.readings, readings]
    exact Nat.le_add_right _ _
  · exact Nat.le_of_eq (by rw [calls.serials, serials])
  · have none_kept : kept (refreshed env self.config self.world.readings keys) = [] := none_kept
    rw [room, none_kept, KeyInfoList.room, reallocs]
    rfl
  · rcases outcome with ⟨-, -, released⟩ | ⟨some_left | empty, -⟩
    · exact released
    · exact absurd none_kept some_left
    · have length := congrArg List.length empty
      simp [some_keys] at length

/-- A check that deletes every key and succeeds leaves a released list. -/
theorem checkAllKeys_nothing {after : KeyManager} (inited : self.isInited = true)
    (now : self.localKeys.Represents self.world.memory keys)
    (none_kept : survivors env self keys = [])
    (some_keys : keys ≠ []) (ran : self.checkAllKeys env = .ok after)
    : ∃ w' list', after = { self with world := w', localKeys := list' }
        ∧ Later self.world w' ∧ list'.Released w'.memory := by
  obtain ⟨w₁, w₂, list, updated, compacted, later, -, released⟩ :=
    compacted_nothing env now none_kept some_keys
  rw [checkAllKeys_eq inited updated compacted] at ran
  obtain ⟨w₃, rfl, later', released'⟩ :=
    checkAndRequestKeys_released { self with world := w₂, localKeys := list } released ran
  exact ⟨w₃, list, rfl, later.trans later', released'⟩

/-- A check that deletes every key succeeds when it does not have to request any. -/
theorem checkAllKeys_empties (env : Env) (inited : self.isInited = true)
    (now : self.localKeys.Represents self.world.memory keys)
    (none_kept : survivors env self keys = []) (some_keys : keys ≠ [])
    (enough : self.config.validThreshold ≤ 0)
    : ∃ w' list', self.checkAllKeys env = .ok { self with world := w', localKeys := list' }
        ∧ list'.Released w'.memory := by
  obtain ⟨w₁, w₂, list, updated, compacted, -, -, released⟩ :=
    compacted_nothing env now none_kept some_keys
  refine ⟨w₂, list, ?_, released⟩
  rw [checkAllKeys_eq inited updated compacted, checkAndRequestKeys,
    countValid_released released]
  exact if_neg (Int.not_lt.mpr enough)

/-- A check that deletes every key fails when the gateway delivers a new one. -/
theorem checkAllKeys_fails {after : KeyManager} (inited : self.isInited = true)
    (now : self.localKeys.Represents self.world.memory keys)
    (none_kept : survivors env self keys = []) (some_keys : keys ≠ [])
    (few : 0 < self.config.validThreshold)
    (all : (Room.empty ((self.localKeys.room self.world).shrink env 0).reallocs).takesAll env
      self.config.validThreshold.toNat)
    : self.checkAllKeys env ≠ .ok after := by
  obtain ⟨w₁, w₂, list, updated, compacted, -, room, released⟩ :=
    compacted_nothing env now none_kept some_keys
  rw [checkAllKeys_eq inited updated compacted]
  rw [← room] at all
  exact checkAndRequestKeys_released_fails _ released few all

/-- A check of a released list that is to request nothing does nothing. -/
theorem checkAllKeys_idle (env : Env) (inited : self.isInited = true)
    (now : self.localKeys.Released self.world.memory)
    (enough : self.config.validThreshold ≤ 0)
    : self.checkAllKeys env = .ok self := by
  rw [checkAllKeys_eq inited (updateAll_released now) (if_pos now.size), checkAndRequestKeys,
    countValid_released now]
  exact if_neg (Int.not_lt.mpr enough)

/-- What succeeds on a released list: no call gives it back or adds to it. -/
theorem checkAllKeys_released {after : KeyManager} (inited : self.isInited = true)
    (now : self.localKeys.Released self.world.memory) (ran : self.checkAllKeys env = .ok after)
    : ∃ w', after = { self with world := w' } ∧ Later self.world w'
        ∧ self.localKeys.Released w'.memory := by
  rw [checkAllKeys_eq inited (updateAll_released now) (if_pos now.size)] at ran
  exact checkAndRequestKeys_released _ now ran

theorem addExternalKey_released (inited : self.isInited = true)
    (now : self.localKeys.Released self.world.memory) (keyValue : CString)
    : self.addExternalKey env keyValue = .error .released := by
  let ready : World := {
    self.world with
    readings := self.world.readings + 1, serials := self.world.serials + 1 }
  have there : self.localKeys.Released ready.memory := now
  have locked : self.addLocked env keyValue = .error .released := bind_error (there.add _) _
  rw [addExternalKey_eq_locked inited, locked]
  rfl

theorem simulateKeyExpiry_released (now : self.localKeys.Released self.world.memory)
    (number : Int)
    : self.simulateKeyExpiry number = .ok self := by
  unfold simulateKeyExpiry
  rw [now.size]
  split <;> rfl

theorem getValidKey_released (now : self.localKeys.Released self.world.memory)
    : self.getValidKey = .ok none := by
  unfold getValidKey
  rw [now.size]
  split <;> rfl

theorem reset_released (now : self.localKeys.Released self.world.memory)
    : self.reset env = .error .released := by
  rw [reset, now.free]
  rfl

theorem stop_released (inited : self.isInited = true)
    (now : self.localKeys.Released self.world.memory)
    : self.stop = .error .released := by
  rw [stop, inited, now.free]
  rfl

end KeyManager

/-- Calls that return at once: another initialisation, and without one all but the reset. -/
def Call.skipped (self : KeyManager) : Call → Bool
  | .init => self.isInited
  | .reset => false
  | _ => !self.isInited

/-- A skipped call changes nothing. -/
theorem KeyManager.call_skipped {call : Call} (skipped : call.skipped self = true)
    : self.call env call = .ok self := by
  cases call <;> simp only [Call.skipped, Bool.not_eq_true', Bool.false_eq_true] at skipped
  case init => rw [call, init, if_pos skipped]; rfl
  case checkAllKeys => rw [call, checkAllKeys, if_pos (by simp [skipped])]
  case addExternalKey => rw [call, addExternalKey, if_pos (by simp [skipped])]; rfl
  case simulateKeyExpiry => rw [call, simulateKeyExpiry, if_pos (.inr skipped)]
  case getValidKey => rw [call, getValidKey, if_pos (by simp [skipped])]; rfl
  case stop => rw [call, stop, if_pos (by simp [skipped])]

/-- The stored key at an index. -/
def KeyManager.keyAt (self : KeyManager) (i : Nat) : Option KeyInfo :=
  if i < self.localKeys.size then (self.world.memory.load self.localKeys.data i).toOption
  else none

theorem KeyManager.keyAt_eq (now : self.localKeys.Represents self.world.memory keys) (i : Nat)
    : self.keyAt i = keys[i]? := by
  unfold KeyManager.keyAt
  have size := now.size
  split
  case isTrue less =>
    have less : i < keys.length := by omega
    rw [now.load (List.getElem?_eq_getElem less), List.getElem?_eq_getElem less]
    rfl
  case isFalse beyond => rw [List.getElem?_eq_none (by omega)]

/-- The keys behind an array are determined by it. -/
theorem KeyManager.represented_unique {keys' : List KeyInfo}
    (now : self.localKeys.Represents self.world.memory keys)
    (also : self.localKeys.Represents self.world.memory keys')
    : keys = keys' :=
  List.ext_getElem? (fun i => (keyAt_eq now i).symm.trans (keyAt_eq also i))

end QKeySys.KeyPool
