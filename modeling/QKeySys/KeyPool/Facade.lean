import QKeySys.KeyPool.ListSafety

/-! The module's interface to the other parts of the program: it initialises the manager once,
keeps a pointer to it, and passes keys on to it.
-/

namespace QKeySys.KeyPool

open QKeySys.Library

variable {env : Env}

/-- The manager with the variables of `keypool.c`: `gKeyManager` when the pointer to the
manager is not `NULL`, and the flag of `keypool_init_if_needed`.
-/
structure Keypool where
  manager : KeyManager
  gKeyManager : Bool
  initCalled : Bool

/-- The calls of the manager's functions and of the interface, whose strings may be `NULL`. -/
inductive KeypoolCall where
  | manager (call : Call)
  | update (qkStr : Option CString)
  | execute (payload : Option CString)
  deriving DecidableEq, Repr

namespace Keypool

def init : Keypool where
  manager := .initInstance
  gKeyManager := false
  initCalled := false

/-- `keypool_init_if_needed`: the pointer is `NULL` after an initialisation that failed. -/
def initIfNeeded (env : Env) (s : Keypool) : Except Fault Keypool :=
  if s.initCalled then
    .ok s
  else do
    let (inited, manager) ← s.manager.init env
    .ok { manager := manager, gKeyManager := inited, initCalled := true }

/-- `qks_keypool_update` -/
def update (env : Env) (s : Keypool) (qkStr : Option CString) : Except Fault (Int × Keypool) :=
  match qkStr with
  | none => .ok (-1, s)
  | some qkStr =>
      if qkStr.length = 0 then
        .ok (-1, s)
      else do
        let s ← s.initIfNeeded env
        if !s.gKeyManager then
          .ok (-1, s)
        else if !s.manager.isInited then
          .ok (-1, s)
        else
          let (added, manager) ← s.manager.addExternalKey env qkStr
          .ok (if added then 0 else -1, { s with manager := manager })

/-- `qks_keypool_execute` -/
def execute (env : Env) (s : Keypool) (payload : Option CString)
    : Except Fault (Int × Keypool) := do
  let s ← s.initIfNeeded env
  if !s.gKeyManager then
    .ok (-1, s)
  else if !s.manager.isInited then
    .ok (-1, s)
  else
    match payload with
    | some qkStr => s.update env (some qkStr)
    | none =>
        let manager ← s.manager.checkAllKeys env
        .ok (0, { s with manager := manager })

/-- The state after a call, or the fault that the call runs into. -/
def call (env : Env) (s : Keypool) : KeypoolCall → Except Fault Keypool
  | .manager call =>
      (s.manager.call env call).map (fun manager => { s with manager := manager })
  | .update qkStr => (s.update env qkStr).map Prod.snd
  | .execute payload => (s.execute env payload).map Prod.snd

end Keypool

/-- All sequences of calls that run into no fault. -/
def keypools (env : Env) : Lts Keypool KeypoolCall where
  init s := s = .init
  next s call s' := s.call env call = .ok s'

/-- A call that passed on the string: it returns 0 and appends one key with the string, cut to
fit.
-/
def PassesOn (s : Keypool) (qkStr : CString) (called : Except Fault (Int × Keypool)) : Prop :=
  ∃ s' keys key, called = .ok (0, s')
    ∧ s.manager.localKeys.Represents s.manager.world.memory keys
    ∧ s'.manager.localKeys.Represents s'.manager.world.memory (keys ++ [key])
    ∧ key.keyValue = fit keyValueMaxLen qkStr

/-- In every run of such calls, when the manager is initialised and its list can take a key,
both functions of the interface pass a string on that is not empty.
-/
structure FacadeAgrees (env : Env) (allowed : Keypool → KeypoolCall → Prop) : Prop where
  update
    : ∀ s qkStr, ((keypools env).restrict allowed).Reachable s →
        allowed s (.update (some qkStr)) → qkStr ≠ [] → s.manager.isInited = true →
        (s.manager.localKeys.room s.manager.world).takes env = true →
        PassesOn s qkStr (s.update env (some qkStr))
  execute
    : ∀ s qkStr, ((keypools env).restrict allowed).Reachable s →
        allowed s (.execute (some qkStr)) → qkStr ≠ [] → s.manager.isInited = true →
        (s.manager.localKeys.room s.manager.world).takes env = true →
        PassesOn s qkStr (s.execute env (some qkStr))

/-- If the interface is still to initialise the manager, no one else has done it. -/
def Keypool.InTime (s : Keypool) : Prop := s.initCalled = false → s.manager.isInited = false

/-- The interface initialises the manager in time, and no check deletes all keys. -/
def initsFirst (env : Env) (s : Keypool) : KeypoolCall → Prop
  | .manager call => keepsOne env s.manager call
  | .update none => True
  | .update (some qkStr) => qkStr ≠ [] → s.InTime
  | .execute payload =>
      s.InTime
      ∧ (payload = none →
          ∀ s', s.initIfNeeded env = .ok s' → keepsOne env s'.manager .checkAllKeys)

namespace Keypool

variable {s s' : Keypool} {qkStr : CString}

-----------------------------------------------------------------------------------------
-- The functions of the interface
-----------------------------------------------------------------------------------------

/-- A string that is not empty goes to the manager behind the pointer, if it is initialised. -/
theorem update_eq (ready : s.initIfNeeded env = .ok s') (points : s'.gKeyManager = true)
    (some_text : qkStr ≠ [])
    : s.update env (some qkStr)
      = if s'.manager.isInited then
          (s'.manager.addExternalKey env qkStr).map (fun made =>
            (if made.1 then 0 else -1, { s' with manager := made.2 }))
        else
          .ok (-1, s') := by
  have long : qkStr.length ≠ 0 := mt List.length_eq_zero_iff.mp some_text
  refine (if_neg long).trans ((bind_ok ready _).trans ?_)
  rw [points]
  cases s'.manager.isInited <;> rfl

/-- A string goes on to the other function of the interface. -/
theorem execute_eq (ready : s.initIfNeeded env = .ok s') (points : s'.gKeyManager = true)
    (payload : Option CString)
    : s.execute env payload
      = if s'.manager.isInited then
          match payload with
          | some qkStr => s'.update env (some qkStr)
          | none => (s'.manager.checkAllKeys env).map (fun manager =>
              (0, { s' with manager := manager }))
        else
          .ok (-1, s') := by
  refine (bind_ok ready _).trans ?_
  rw [points]
  cases s'.manager.isInited <;> rfl

/-- With an initialised manager behind the pointer and a list that takes a key, a string is
passed on.
-/
theorem update_passesOn (called : s.initCalled = true) (points : s.gKeyManager = true)
    (inited : s.manager.isInited = true) (intact : s.manager.Intact)
    (taken : (s.manager.localKeys.room s.manager.world).takes env = true)
    (some_text : qkStr ≠ [])
    : PassesOn s qkStr (s.update env (some qkStr)) := by
  obtain ⟨keys, represents⟩ := intact
  rw [update_eq (if_pos called) points some_text, if_pos inited]
  rcases KeyManager.addExternalKey_spec env qkStr inited represents with
    ⟨w', list', front, key, ran, -, -, represents', ⟨-, rfl, rfl⟩ | ⟨refused, -⟩⟩
    | ⟨refused, -, -⟩
  · exact ⟨_, front, _, congrArg (Except.map _) ran, represents, represents', rfl⟩
  · cases taken.symm.trans refused
  · cases taken.symm.trans refused

-----------------------------------------------------------------------------------------
-- The pointer to the manager
-----------------------------------------------------------------------------------------

/-- The interface points to the manager once it has asked for it, and the list is intact. -/
structure Attached (s : Keypool) : Prop where
  points : s.initCalled = true → s.gKeyManager = true
  intact : s.manager.Intact

/-- When the manager is initialised and the interface not late, it has asked for it. -/
theorem InTime.called (inTime : s.InTime) (inited : s.manager.isInited = true)
    : s.initCalled = true := by
  by_contra early
  cases inited.symm.trans (inTime (eq_false_of_ne_true early))

/-- When threads are created, an initialisation in time leaves the interface attached. -/
theorem Attached.initIfNeeded (now : s.Attached) (creates : ∀ n, env.creates n = true)
    (inTime : s.InTime)
    : ∃ s', s.initIfNeeded env = .ok s' ∧ s'.Attached ∧ s'.initCalled = true := by
  cases called : s.initCalled with
  | true => exact ⟨s, if_pos called, now, called⟩
  | false =>
      obtain ⟨created, w', list', keys, ran, -, -, represents, -, n, same⟩ :=
        KeyManager.init_spec env (inTime called)
      have points : created = true := same.trans (creates n)
      let manager : KeyManager := {
        s.manager with
        world := w', localKeys := list', config := env.defaultConfig
        isInited := created, isRunning := created }
      refine ⟨⟨manager, created, true⟩, ?_, ⟨fun _ => points, keys, represents⟩, rfl⟩
      rw [Keypool.initIfNeeded, if_neg (by simp [called])]
      exact bind_ok ran _

/-- A call of the manager leaves the interface attached. -/
theorem Attached.manager (now : s.Attached) {call : Call} {after : KeyManager}
    (one : keepsOne env s.manager call) (ran : s.manager.call env call = .ok after)
    : Attached { s with manager := after } where
  points := now.points
  intact := by
    rcases intact_call now.intact call one with ⟨after', ran', intact⟩ | failed
    · exact Except.ok.inj (ran.symm.trans ran') ▸ intact
    · cases ran.symm.trans failed

/-- A string that is passed on leaves the interface attached. -/
theorem Attached.update (now : s.Attached) (creates : ∀ n, env.creates n = true)
    (inTime : qkStr ≠ [] → s.InTime) {made : Int × Keypool}
    (ran : s.update env (some qkStr) = .ok made)
    : made.2.Attached := by
  by_cases empty : qkStr = []
  · subst empty
    exact Except.ok.inj ran ▸ now
  obtain ⟨s₁, ready, attached, called⟩ := now.initIfNeeded creates (inTime empty)
  rw [update_eq ready (attached.points called) empty] at ran
  split at ran
  case isTrue inited =>
    obtain ⟨after, added, rfl⟩ := of_map ran
    have passed : s₁.manager.call env (.addExternalKey qkStr) = .ok after.2 :=
      congrArg (Except.map Prod.snd) added
    exact attached.manager (show keepsOne env _ (.addExternalKey qkStr) from trivial) passed
  case isFalse => exact Except.ok.inj ran ▸ attached

/-- So does any other use of the older function. -/
theorem Attached.execute (now : s.Attached) (creates : ∀ n, env.creates n = true)
    {payload : Option CString} (allowed : initsFirst env s (.execute payload))
    {made : Int × Keypool} (ran : s.execute env payload = .ok made)
    : made.2.Attached := by
  obtain ⟨inTime, one⟩ := allowed
  obtain ⟨s₁, ready, attached, called⟩ := now.initIfNeeded creates inTime
  rw [execute_eq ready (attached.points called)] at ran
  have inTime' : s₁.InTime := fun new => by cases called.symm.trans new
  split at ran
  case isTrue inited =>
    cases payload with
    | some qkStr => exact attached.update creates (fun _ => inTime') ran
    | none =>
        obtain ⟨after, checked, rfl⟩ := of_map ran
        exact attached.manager (one rfl s₁ ready) checked
  case isFalse => exact Except.ok.inj ran ▸ attached

/-- Every call under the condition leaves the interface attached. -/
theorem Attached.call (now : s.Attached) (creates : ∀ n, env.creates n = true)
    {call : KeypoolCall} (allowed : initsFirst env s call) (ran : s.call env call = .ok s')
    : s'.Attached := by
  cases call with
  | manager call =>
      obtain ⟨after, called, rfl⟩ := of_map ran
      exact now.manager allowed called
  | update qkStr =>
      obtain ⟨made, returned, rfl⟩ := of_map ran
      cases qkStr with
      | none => exact Except.ok.inj returned ▸ now
      | some qkStr => exact now.update creates allowed returned
  | execute payload =>
      obtain ⟨made, returned, rfl⟩ := of_map ran
      exact now.execute creates allowed returned

end Keypool

-----------------------------------------------------------------------------------------
-- Runs
-----------------------------------------------------------------------------------------

/-- In every run under the condition the interface is attached. -/
theorem initsFirst_attached (creates : ∀ n, env.creates n = true)
    : ((keypools env).restrict (initsFirst env)).Invariant Keypool.Attached where
  init s start := by
    obtain rfl := start
    exact ⟨fun called => (by cases called), [], KeyInfoList.init_represents _⟩
  step s call s' attached step := by
    obtain ⟨allowed, ran⟩ := step
    exact attached.call creates allowed ran

/-- The interface agrees with the manager as long as its first call finds the manager not
initialised and no check deletes all keys.
-/
theorem initsFirst_agrees (env : Env) (creates : ∀ n, env.creates n = true)
    : FacadeAgrees env (initsFirst env) where
  update s qkStr reached allowed some_text inited taken := by
    have attached := (initsFirst_attached creates).reachable reached
    have called := (allowed some_text).called inited
    exact Keypool.update_passesOn called (attached.points called) inited attached.intact taken
      some_text
  execute s qkStr reached allowed some_text inited taken := by
    have attached := (initsFirst_attached creates).reachable reached
    have called := allowed.1.called inited
    rw [Keypool.execute_eq (if_pos called) (attached.points called), if_pos inited]
    exact Keypool.update_passesOn called (attached.points called) inited attached.intact taken
      some_text

theorem standstill_facadeAgrees : FacadeAgrees standstill (initsFirst standstill) :=
  initsFirst_agrees standstill (fun _ => rfl)

-----------------------------------------------------------------------------------------
-- An interface that comes too late
-----------------------------------------------------------------------------------------

namespace Keypool

variable {s s' : Keypool} {qkStr : CString}

/-- The interface has asked for the manager and does not point to it. -/
def Detached (s : Keypool) : Prop := s.initCalled = true ∧ s.gKeyManager = false

/-- A detached interface refuses everything. -/
theorem Detached.refuses (now : s.Detached)
    : (∀ qkStr, s.update env qkStr = .ok (-1, s))
      ∧ ∀ payload, s.execute env payload = .ok (-1, s) := by
  obtain ⟨called, points⟩ := now
  have ready : s.initIfNeeded env = .ok s := if_pos called
  have nowhere : (!s.gKeyManager) = true := by simp [points]
  constructor
  · intro qkStr
    cases qkStr with
    | none => rfl
    | some qkStr =>
        rw [update]
        split
        case isTrue => rfl
        case isFalse => exact (bind_ok ready _).trans (if_pos nowhere)
  · intro payload
    exact (bind_ok ready _).trans (if_pos nowhere)

/-- It stays detached. -/
theorem Detached.call (now : s.Detached) {call : KeypoolCall} (ran : s.call env call = .ok s')
    : s'.Detached := by
  cases call with
  | manager call =>
      obtain ⟨after, -, rfl⟩ := of_map ran
      exact now
  | update qkStr =>
      obtain ⟨made, returned, rfl⟩ := of_map ran
      exact Except.ok.inj ((now.refuses.1 qkStr).symm.trans returned) ▸ now
  | execute payload =>
      obtain ⟨made, returned, rfl⟩ := of_map ran
      exact Except.ok.inj ((now.refuses.2 payload).symm.trans returned) ▸ now

/-- When the manager is initialised before the interface asks for it, the interface refuses
the string at hand, and everything else from then on.
-/
theorem late_refuses (late : ¬ s.InTime) (some_text : qkStr ≠ [])
    : ∃ s', s.update env (some qkStr) = .ok (-1, s')
        ∧ ∀ s'', (keypools env).Steps s' s'' →
            (∀ qkStr', s''.update env qkStr' = .ok (-1, s''))
            ∧ ∀ payload, s''.execute env payload = .ok (-1, s'') := by
  obtain ⟨early, inited⟩ := Classical.not_imp.mp late
  have inited : s.manager.isInited = true := by simpa using inited
  have ready : s.initIfNeeded env = .ok ⟨s.manager, false, true⟩ := by
    rw [initIfNeeded, if_neg (by simp [early])]
    exact bind_ok (if_pos inited) _
  have long : qkStr.length ≠ 0 := mt List.length_eq_zero_iff.mp some_text
  refine ⟨⟨s.manager, false, true⟩, (if_neg long).trans (bind_ok ready _), ?_⟩
  intro s'' path
  have detached : s''.Detached := by
    induction path with
    | refl => exact ⟨rfl, rfl⟩
    | tail _ step ih =>
        obtain ⟨call, ran⟩ := step
        exact ih.call ran
  exact detached.refuses

end Keypool

/-- The calls of an application that initialises and stops the manager itself. -/
def KeypoolCall.ofApplication : KeypoolCall → Bool
  | .manager .init | .manager .stop | .update _ | .execute _ => true
  | .manager _ => false

/-- The application has initialised the manager. -/
def appFirst : Keypool :=
  Option.get (Keypool.init.call standstill (.manager .init)).toOption (by decide +kernel)

/-- Not in every run does the interface agree with the manager: it takes a manager that is
initialised already for one that cannot be initialised.
-/
theorem appFirst_disagrees
    : ¬ ∀ env, (∀ n, env.grants n = true) → (∀ n, env.creates n = true) →
        FacadeAgrees env (fun _ call => call.ofApplication = true) := by
  intro agrees
  have started : Keypool.init.call standstill (.manager .init) = .ok appFirst :=
    ok_of_toOption (Option.some_get _).symm
  have reached : ((keypools standstill).restrict
      (fun _ call => call.ofApplication = true)).Reachable appFirst :=
    .next (.start rfl) (show _ ∧ _ from ⟨rfl, started⟩)
  have inited : appFirst.manager.isInited = true := by decide +kernel
  have taken : (appFirst.manager.localKeys.room appFirst.manager.world).takes standstill
      = true := by decide +kernel
  obtain ⟨s', keys, key, passed, -⟩ :=
    (agrees standstill (fun _ => rfl) (fun _ => rfl)).update appFirst ['k'] reached rfl
      (by decide) inited taken
  have refused : (appFirst.update standstill (some ['k'])).map Prod.fst = .ok (-1) := by
    decide +kernel
  rw [passed] at refused
  cases refused

end QKeySys.KeyPool
