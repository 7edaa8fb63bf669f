import QKeySys.KeyPool.KeyInfoList
import QKeySys.Library.Transition

/-! The key manager: each of its functions under the mutex is one step, with the faults of the
memory it works on.
-/

namespace QKeySys.KeyPool

open QKeySys.Library

-----------------------------------------------------------------------------------------
-- The gateway
-----------------------------------------------------------------------------------------

/-- `KeyInfo_Init` of a new key. -/
def World.newKey (w : World) (keyId keyValue : CString) (createTs : Int)
    : KeyInfo × World :=
  (.init keyId keyValue createTs w.serials, { w with serials := w.serials + 1 })

/-- One turn of the loop of `GatewayComm_RequestNewKeys`; nothing after a turn that failed. -/
def requestTurn (env : Env) (i : Nat) (state : World × KeyInfoList × Int)
    : Except Fault (World × KeyInfoList × Int) :=
  let (w, outKeys, result) := state
  if result ≠ 0 then
    .ok (w, outKeys, result)
  else do
    let (currentTs, w) := w.getCurrentTime env
    let tail := decimal currentTs ++ '_' :: decimal (i + 1)
    let keyId := fit keyIdMaxLen ("key_".toList ++ tail)
    let keyValue := fit keyValueMaxLen ("value_".toList ++ tail ++ "_abc123".toList)
    let (key, w) := w.newKey keyId keyValue currentTs
    let (w, outKeys, added) ← outKeys.add env w key
    if added ≠ 0 then
      let (w, outKeys) ← outKeys.free w
      .ok (w, outKeys, -1)
    else
      .ok (w, outKeys, 0)

/-- `GatewayComm_RequestNewKeys` -/
def requestNewKeys (env : Env) (w : World) (needCount : Int) (outKeys : KeyInfoList)
    : Except Fault (World × KeyInfoList × Int) :=
  if needCount ≤ 0 then .ok (w, outKeys, -1)
  else forLoop needCount.toNat (requestTurn env) (w, outKeys, 0)

-----------------------------------------------------------------------------------------
-- The manager
-----------------------------------------------------------------------------------------

/-- `KeyManager` with its world. `seq` is the static counter of `KeyManager_AddExternalKey`. -/
structure KeyManager where
  world : World
  localKeys : KeyInfoList
  config : KeyConfig
  isInited : Bool
  isRunning : Bool
  seq : Int

namespace KeyManager

/-- `KeyManager_InitInstance` -/
def initInstance : KeyManager where
  world := .init
  localKeys := .init
  config := ⟨0, 0, 0⟩
  isInited := false
  isRunning := false
  seq := 0

/-- The loop that counts the valid keys. -/
def countTurn (w : World) (keys : KeyInfoList) (i : Nat) (count : Int)
    : Except Fault Int := do
  let key ← w.memory.load keys.data i
  .ok (if key.status = .valid then count + 1 else count)

def countValid (w : World) (keys : KeyInfoList) : Except Fault Int :=
  forLoop keys.size.toNat (countTurn w keys) 0

/-- The loop that copies new keys into the local list; `KeyInfoList_Add` may fail. -/
def addTurn (env : Env) (newKeys : KeyInfoList) (i : Nat) (state : World × KeyInfoList)
    : Except Fault (World × KeyInfoList) := do
  let key ← state.1.memory.load newKeys.data i
  let (w, keys, _) ← state.2.add env state.1 key
  .ok (w, keys)

def addAll (env : Env) (w : World) (keys newKeys : KeyInfoList)
    : Except Fault (World × KeyInfoList) :=
  forLoop newKeys.size.toNat (addTurn env newKeys) (w, keys)

/-- `KeyManager_CheckAndRequestKeys` -/
def checkAndRequestKeys (env : Env) (self : KeyManager) : Except Fault KeyManager := do
  let validCount ← countValid self.world self.localKeys
  if validCount < self.config.validThreshold then
    let needCount := self.config.validThreshold - validCount
    let (w, newKeys, result) ← requestNewKeys env self.world needCount .init
    let (w, keys) ←
      if result = 0 then addAll env w self.localKeys newKeys else .ok (w, self.localKeys)
    let (w, _) ← newKeys.free w
    .ok { self with world := w, localKeys := keys }
  else
    .ok self

/-- The loop that updates the status of every key. -/
def updateTurn (env : Env) (config : KeyConfig) (keys : KeyInfoList) (i : Nat) (w : World)
    : Except Fault World := do
  let key ← w.memory.load keys.data i
  let (now, w) := w.getCurrentTime env
  let memory ← w.memory.store keys.data i (updateKeyStatus key config now)
  .ok { w with memory := memory }

def updateAll (env : Env) (config : KeyConfig) (w : World) (keys : KeyInfoList)
    : Except Fault World :=
  forLoop keys.size.toNat (updateTurn env config keys) w

/-- The loop that moves the keys that stay to the front, and counts them. -/
def compactTurn (keys : KeyInfoList) (i : Nat) (state : World × Nat)
    : Except Fault (World × Nat) := do
  let (w, newSize) := state
  let key ← w.memory.load keys.data i
  if key.status ≠ .deleted then
    let memory ← w.memory.store keys.data newSize key
    .ok ({ w with memory := memory }, newSize + 1)
  else
    .ok (w, newSize)

def compact (w : World) (keys : KeyInfoList) : Except Fault (World × Nat) :=
  forLoop keys.size.toNat (compactTurn keys) (w, 0)

/-- `KeyManager_DeleteExpiredKeys`: the block and its capacity are only replaced when
`realloc` returns a block.
-/
def deleteExpiredKeys (env : Env) (w : World) (keys : KeyInfoList)
    : Except Fault (World × KeyInfoList) :=
  if keys.size = 0 then
    .ok (w, keys)
  else do
    let (w, newSize) ← compact w keys
    if newSize < keys.size then
      let (w, newData) ← w.realloc env keys.data newSize
      match newData with
      | some a => .ok (w, { data := some a, size := newSize, capacity := newSize })
      | none => .ok (w, { keys with size := newSize })
    else
      .ok (w, keys)

/-- What `KeyManager_CheckAllKeys` does under the mutex. -/
def checkLocked (env : Env) (self : KeyManager) : Except Fault KeyManager := do
  let w ← updateAll env self.config self.world self.localKeys
  let (w, keys) ← deleteExpiredKeys env w self.localKeys
  checkAndRequestKeys env { self with world := w, localKeys := keys }

/-- `KeyManager_CheckAllKeys` -/
def checkAllKeys (env : Env) (self : KeyManager) : Except Fault KeyManager :=
  if !self.isInited then .ok self else self.checkLocked env

/-- `KeyManager_Init`; it fails when it has run or when the polling thread is not created. -/
def init (env : Env) (self : KeyManager) : Except Fault (Bool × KeyManager) :=
  if self.isInited then
    .ok (false, self)
  else do
    let self := { self with config := env.defaultConfig, localKeys := .init }
    let self ← checkAndRequestKeys env self
    let created := env.creates self.world.creations
    let self := {
      self with world := { self.world with creations := self.world.creations + 1 } }
    if created then
      .ok (true, { self with isRunning := true, isInited := true })
    else
      let (w, keys) ← self.localKeys.free self.world
      .ok (false, { self with world := w, localKeys := keys, isRunning := false })

/-- `KeyManager_Stop`, with the polling thread joined. The last check that this thread may make
meanwhile is a call of `KeyManager_CheckAllKeys` of its own, before this one.
-/
def stop (self : KeyManager) : Except Fault KeyManager :=
  if !self.isInited then
    .ok self
  else do
    let (w, keys) ← self.localKeys.free self.world
    .ok { self with world := w, localKeys := keys, isRunning := false, isInited := false }

/-- The loop that looks for a valid key; turns after the break do nothing. -/
def findTurn (w : World) (keys : KeyInfoList) (i : Nat) (found : Option KeyInfo)
    : Except Fault (Option KeyInfo) :=
  match found with
  | some key => .ok (some key)
  | none => do
      let key ← w.memory.load keys.data i
      .ok (if key.status = .valid then some key else none)

/-- `KeyManager_GetValidKey` -/
def getValidKey (self : KeyManager) : Except Fault (Option KeyInfo) :=
  if !self.isInited then .ok none
  else forLoop self.localKeys.size.toNat (findTurn self.world self.localKeys) none

/-- `KeyManager_Reset` -/
def reset (env : Env) (self : KeyManager) : Except Fault KeyManager := do
  let (w, _) ← self.localKeys.free self.world
  .ok { self with world := w, localKeys := .init, config := env.defaultConfig }

/-- The loop that marks valid keys as deleted; turns after the last of them do nothing. -/
def expireTurn (keys : KeyInfoList) (number : Int) (i : Nat) (state : World × Int)
    : Except Fault (World × Int) := do
  let (w, expiredCount) := state
  if expiredCount < number then
    let key ← w.memory.load keys.data i
    if key.status = .valid then
      let memory ← w.memory.store keys.data i { key with status := .deleted }
      .ok ({ w with memory := memory }, expiredCount + 1)
    else
      .ok (w, expiredCount)
  else
    .ok (w, expiredCount)

/-- `KeyManager_SimulateKeyExpiry` -/
def simulateKeyExpiry (self : KeyManager) (number : Int) : Except Fault KeyManager :=
  if number ≤ 0 ∨ self.isInited = false then
    .ok self
  else do
    let (w, _) ← forLoop self.localKeys.size.toNat (expireTurn self.localKeys number)
      (self.world, 0)
    .ok { self with world := w }

/-- What `KeyManager_AddExternalKey` does under the mutex: the result of `KeyInfoList_Add` is
not looked at, and the status of the last key is updated.
-/
def addLocked (env : Env) (self : KeyManager) (keyValue : CString)
    : Except Fault KeyManager := do
  let (currentTs, w) := self.world.getCurrentTime env
  let seq := int32 (self.seq + 1)
  let keyId := fit keyIdMaxLen
    ("ext_".toList ++ decimal currentTs ++ '_' :: decimal (seq.tmod 1000))
  let (newKey, w) := w.newKey keyId keyValue currentTs
  let (w, keys, _) ← self.localKeys.add env w newKey
  let key ← w.memory.load keys.data (keys.size - 1)
  let (now, w) := w.getCurrentTime env
  let memory ← w.memory.store keys.data (keys.size - 1) (updateKeyStatus key self.config now)
  .ok { self with world := { w with memory := memory }, localKeys := keys, seq := seq }

/-- `KeyManager_AddExternalKey` -/
def addExternalKey (env : Env) (self : KeyManager) (keyValue : CString)
    : Except Fault (Bool × KeyManager) :=
  if !self.isInited then .ok (false, self)
  else (self.addLocked env keyValue).map (fun after => (true, after))

section Inited

variable {env : Env} {self : KeyManager}

theorem checkAllKeys_eq_locked (inited : self.isInited = true)
    : self.checkAllKeys env = self.checkLocked env :=
  if_neg (by simp [inited])

theorem addExternalKey_eq_locked {keyValue : CString} (inited : self.isInited = true)
    : self.addExternalKey env keyValue
      = (self.addLocked env keyValue).map (fun after => (true, after)) :=
  if_neg (by simp [inited])

end Inited

end KeyManager

-----------------------------------------------------------------------------------------
-- Sequences of calls
-----------------------------------------------------------------------------------------

/-- The calls of the manager's functions. -/
inductive Call where
  | init
  | checkAllKeys
  | addExternalKey (keyValue : CString)
  | simulateKeyExpiry (number : Int)
  | getValidKey
  | reset
  | stop
  deriving DecidableEq, Repr

/-- The state after a call, or the fault that the call runs into. -/
def KeyManager.call (env : Env) (self : KeyManager) : Call → Except Fault KeyManager
  | .init => (self.init env).map Prod.snd
  | .checkAllKeys => self.checkAllKeys env
  | .addExternalKey keyValue => (self.addExternalKey env keyValue).map Prod.snd
  | .simulateKeyExpiry number => self.simulateKeyExpiry number
  | .getValidKey => self.getValidKey.map (fun _ => self)
  | .reset => self.reset env
  | .stop => self.stop

/-- All sequences of calls that run into no fault. -/
def calls (env : Env) : Lts KeyManager Call where
  init self := self = .initInstance
  next self call after := self.call env call = .ok after

/-- A call that runs into no fault, to execute sequences of calls. -/
def KeyManager.step (env : Env) (self : KeyManager) (call : Call) : Option KeyManager :=
  (self.call env call).toOption

theorem KeyManager.step_sound {env : Env} (self : KeyManager) (call : Call)
    (after : KeyManager) (taken : self.step env call = some after)
    : (calls env).next self call after :=
  ok_of_toOption taken

/-- The clock stands still and every request is granted. -/
def standstill : Env where
  clock _ := 1000
  grants _ := true
  creates _ := true
  defaultConfig := defaultConfig

end QKeySys.KeyPool
