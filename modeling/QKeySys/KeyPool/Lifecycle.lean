import QKeySys.KeyPool.Functions

/-! The life of the manager over all sequences of calls: whether it is initialised, whether it
counts as running, and how many polling threads were created and not joined.
-/

namespace QKeySys.KeyPool

open QKeySys.Library

variable {env : Env} {w w' : World} {list list' : KeyInfoList} {self after : KeyManager}

-----------------------------------------------------------------------------------------
-- What the functions leave alone
-----------------------------------------------------------------------------------------

namespace KeyInfoList

theorem realloc_sameCalls {p p' : Pointer} {count : Int}
    (ran : w.realloc env p count = .ok (w', p'))
    : SameCalls w w' := by
  obtain ⟨moved, -, same⟩ := of_map ran
  obtain ⟨rfl, -⟩ := Prod.mk.inj same
  exact ⟨rfl, rfl, rfl⟩

theorem append_sameCalls {key : KeyInfo} {result : Int}
    (ran : append w list key = .ok (w', list', result))
    : SameCalls w w' := by
  obtain ⟨memory, -, same⟩ := of_map ran
  obtain ⟨rfl, -⟩ := Prod.mk.inj same
  exact ⟨rfl, rfl, rfl⟩

theorem add_sameCalls {key : KeyInfo} {result : Int}
    (ran : add env w list key = .ok (w', list', result))
    : SameCalls w w' := by
  unfold add at ran
  split at ran
  case isFalse => exact append_sameCalls ran
  case isTrue =>
    obtain ⟨⟨w₁, newData⟩, moved, rest⟩ := of_bind ran
    have grown : SameCalls w w₁ := realloc_sameCalls moved
    cases newData with
    | none =>
        obtain ⟨rfl, -⟩ := Prod.mk.inj (Except.ok.inj rest)
        exact grown
    | some a => exact grown.trans (append_sameCalls rest)

/-- Giving an array back leaves an empty one. -/
theorem free_sameCalls (ran : free w list = .ok (w', list'))
    : SameCalls w w' ∧ list' = .init := by
  obtain ⟨memory, -, same⟩ := of_map ran
  obtain ⟨rfl, rfl⟩ := Prod.mk.inj same
  exact ⟨⟨rfl, rfl, rfl⟩, rfl⟩

end KeyInfoList

/-- From `w` to `w'` every key was initialised after a reading of the clock of its own, and no
thread was created.
-/
structure Requests (w w' : World) : Prop where
  creations : w'.creations = w.creations
  stepwise : w'.readings + w.serials = w.readings + w'.serials

theorem Requests.refl (w : World) : Requests w w := ⟨rfl, rfl⟩

theorem Requests.trans {w'' : World} (first : Requests w w') (second : Requests w' w'')
    : Requests w w'' where
  creations := second.creations.trans first.creations
  stepwise := by
    have before := first.stepwise
    have behind := second.stepwise
    omega

theorem KeyInfoList.SameCalls.requests (calls : KeyInfoList.SameCalls w w') : Requests w w' where
  creations := calls.creations
  stepwise := by rw [calls.readings, calls.serials]

/-- One turn of the gateway reads the clock and initialises a key, or does nothing. -/
theorem requestTurn_requests {i : Nat} {state state' : World × KeyInfoList × Int}
    (ran : requestTurn env i state = .ok state')
    : Requests state.1 state'.1 := by
  obtain ⟨w, outKeys, result⟩ := state
  by_cases stopped : result ≠ 0
  · obtain rfl := Except.ok.inj ((if_pos stopped).symm.trans ran)
    exact .refl w
  · obtain ⟨⟨w₁, list₁, added⟩, stored, rest⟩ := of_bind ((if_neg stopped).symm.trans ran)
    have counted : Requests w w₁ := by
      have calls := KeyInfoList.add_sameCalls stored
      refine ⟨calls.creations, ?_⟩
      rw [calls.readings, calls.serials]
      exact Nat.add_right_comm w.readings 1 w.serials
    by_cases failed : added ≠ 0
    · obtain ⟨⟨w₂, list₂⟩, freed, same⟩ := of_bind ((if_pos failed).symm.trans rest)
      obtain rfl := Except.ok.inj same
      exact counted.trans (KeyInfoList.free_sameCalls freed).1.requests
    · obtain rfl := Except.ok.inj ((if_neg failed).symm.trans rest)
      exact counted

theorem requestNewKeys_requests {needCount result : Int}
    (ran : requestNewKeys env w needCount list = .ok (w', list', result))
    : Requests w w' := by
  unfold requestNewKeys at ran
  split at ran
  case isTrue =>
    obtain ⟨rfl, -⟩ := Prod.mk.inj (Except.ok.inj ran)
    exact .refl w
  case isFalse =>
    exact forLoop_inv (fun _ state => Requests w state.1) (.refl w)
      (fun _ _ _ _ earlier step => earlier.trans (requestTurn_requests step)) ran

namespace KeyManager

theorem addAll_sameCalls {newKeys : KeyInfoList}
    (ran : addAll env w list newKeys = .ok (w', list'))
    : KeyInfoList.SameCalls w w' := by
  refine forLoop_inv (fun _ state => KeyInfoList.SameCalls w state.1) (.refl w)
    (fun _ _ state state' earlier step => ?_) ran
  obtain ⟨key, -, rest⟩ := of_bind step
  obtain ⟨⟨w₁, list₁, added⟩, stored, same⟩ := of_bind rest
  obtain rfl := Except.ok.inj same
  exact earlier.trans (KeyInfoList.add_sameCalls stored)

/-- A request changes the keys and the world only. -/
theorem checkAndRequestKeys_requests (ran : checkAndRequestKeys env self = .ok after)
    : ∃ w' list', after = { self with world := w', localKeys := list' }
        ∧ Requests self.world w' := by
  obtain ⟨validCount, -, rest⟩ := of_bind ran
  by_cases few : validCount < self.config.validThreshold
  · obtain ⟨⟨w₁, newKeys, result⟩, asked, rest⟩ := of_bind ((if_pos few).symm.trans rest)
    obtain ⟨w₂, list, calls, rest⟩ : ∃ w₂ list, KeyInfoList.SameCalls w₁ w₂
        ∧ (newKeys.free w₂).map
          (fun freed => { self with world := freed.1, localKeys := list }) = .ok after := by
      by_cases succeeded : result = 0
      · obtain ⟨⟨w₂, list⟩, copied, rest⟩ := of_bind ((if_pos succeeded).symm.trans rest)
        exact ⟨w₂, list, addAll_sameCalls copied, rest⟩
      · exact ⟨w₁, self.localKeys, .refl w₁, (if_neg succeeded).symm.trans rest⟩
    obtain ⟨⟨w₃, none_left⟩, freed, rfl⟩ := of_map rest
    exact ⟨w₃, list, rfl, (requestNewKeys_requests asked).trans
      (calls.requests.trans (KeyInfoList.free_sameCalls freed).1.requests)⟩
  · obtain rfl := Except.ok.inj ((if_neg few).symm.trans rest)
    exact ⟨self.world, self.localKeys, rfl, .refl _⟩

/-- A check reads the clock once for each stored key and once for each key it initialises. -/
theorem checkAllKeys_stepwise {keys : List KeyInfo} (inited : self.isInited = true)
    (now : self.localKeys.Represents self.world.memory keys)
    (ran : self.checkAllKeys env = .ok after)
    : after.world.readings + self.world.serials
      = self.world.readings + keys.length + after.world.serials := by
  obtain ⟨w₁, updated, readings, serials, -, represents⟩ := updateAll_spec env self.config now
  obtain ⟨w₂, list, compacted, calls, -⟩ := deleteExpiredKeys_spec env represents
  rw [checkAllKeys_eq inited updated compacted] at ran
  obtain ⟨w₃, list', rfl, requests⟩ := checkAndRequestKeys_requests ran
  have stepwise := requests.stepwise
  simp only [calls.readings, calls.serials, readings, serials] at stepwise
  exact stepwise

/-- The flags of the manager stay and no thread is created. -/
structure SameLife (before after : KeyManager) : Prop where
  isInited : after.isInited = before.isInited
  isRunning : after.isRunning = before.isRunning
  creations : after.world.creations = before.world.creations

theorem SameLife.refl (self : KeyManager) : SameLife self self := ⟨rfl, rfl, rfl⟩

theorem updateAll_creations (ran : updateAll env self.config w list = .ok w')
    : w'.creations = w.creations := by
  refine forLoop_inv (fun _ state => state.creations = w.creations) rfl
    (fun _ _ state state' earlier step => ?_) ran
  obtain ⟨key, -, rest⟩ := of_bind step
  obtain ⟨memory, -, rfl⟩ := of_map rest
  exact earlier

theorem compact_creations {n : Nat} (ran : compact w list = .ok (w', n))
    : w'.creations = w.creations := by
  refine forLoop_inv (fun _ state => state.1.creations = w.creations) rfl
    (fun _ _ state state' earlier step => ?_) ran
  obtain ⟨key, -, rest⟩ := of_bind step
  by_cases stays : key.status ≠ .deleted
  · obtain ⟨memory, -, rfl⟩ := of_map ((if_pos stays).symm.trans rest)
    exact earlier
  · obtain rfl := Except.ok.inj ((if_neg stays).symm.trans rest)
    exact earlier

theorem deleteExpiredKeys_creations (ran : deleteExpiredKeys env w list = .ok (w', list'))
    : w'.creations = w.creations := by
  by_cases empty : list.size = 0
  · obtain ⟨rfl, -⟩ := Prod.mk.inj (Except.ok.inj ((if_pos empty).symm.trans ran))
    rfl
  · obtain ⟨⟨w₁, n⟩, compacted, -⟩ := of_bind ((if_neg empty).symm.trans ran)
    rw [deleteExpiredKeys_eq empty compacted] at ran
    have same := compact_creations compacted
    split at ran
    case isTrue =>
      obtain ⟨⟨w₂, block⟩, moved, cut⟩ := of_map ran
      obtain ⟨rfl, -⟩ := Prod.mk.inj cut
      exact (KeyInfoList.realloc_sameCalls moved).creations.trans same
    case isFalse =>
      obtain ⟨rfl, -⟩ := Prod.mk.inj (Except.ok.inj ran)
      exact same

theorem checkLocked_sameLife (ran : self.checkLocked env = .ok after)
    : SameLife self after := by
  obtain ⟨w₁, updated, rest⟩ := of_bind ran
  obtain ⟨⟨w₂, list⟩, deleted, asked⟩ := of_bind rest
  obtain ⟨w₃, list', rfl, requests⟩ := checkAndRequestKeys_requests asked
  exact ⟨rfl, rfl, requests.creations.trans
    ((deleteExpiredKeys_creations deleted).trans (updateAll_creations updated))⟩

theorem checkAllKeys_sameLife (ran : self.checkAllKeys env = .ok after)
    : SameLife self after := by
  by_cases out : (!self.isInited) = true
  · obtain rfl := Except.ok.inj ((if_pos out).symm.trans ran)
    exact .refl self
  · exact checkLocked_sameLife ((if_neg out).symm.trans ran)

theorem addLocked_sameLife {keyValue : CString} (ran : self.addLocked env keyValue = .ok after)
    : SameLife self after := by
  obtain ⟨⟨w₁, list, result⟩, stored, rest⟩ := of_bind ran
  obtain ⟨key, -, rest⟩ := of_bind rest
  obtain ⟨memory, -, rfl⟩ := of_map rest
  exact ⟨rfl, rfl, (KeyInfoList.add_sameCalls stored).creations⟩

theorem addExternalKey_sameLife {keyValue : CString} {added : Bool}
    (ran : self.addExternalKey env keyValue = .ok (added, after))
    : SameLife self after := by
  by_cases out : (!self.isInited) = true
  · obtain ⟨-, rfl⟩ := Prod.mk.inj (Except.ok.inj ((if_pos out).symm.trans ran))
    exact .refl self
  · obtain ⟨after', locked, same⟩ := of_map ((if_neg out).symm.trans ran)
    obtain ⟨-, rfl⟩ := Prod.mk.inj same
    exact addLocked_sameLife locked

theorem expireTurn_creations {number : Int} {i : Nat} {state state' : World × Int}
    (ran : expireTurn list number i state = .ok state')
    : state'.1.creations = state.1.creations := by
  obtain ⟨w, count⟩ := state
  by_cases more : count < number
  · obtain ⟨key, -, rest⟩ := of_bind ((if_pos more).symm.trans ran)
    by_cases valid : key.status = .valid
    · obtain ⟨memory, -, rfl⟩ := of_map ((if_pos valid).symm.trans rest)
      rfl
    · obtain rfl := Except.ok.inj ((if_neg valid).symm.trans rest)
      rfl
  · obtain rfl := Except.ok.inj ((if_neg more).symm.trans ran)
    rfl

theorem simulateKeyExpiry_sameLife {number : Int}
    (ran : self.simulateKeyExpiry number = .ok after)
    : SameLife self after := by
  by_cases out : number ≤ 0 ∨ self.isInited = false
  · obtain rfl := Except.ok.inj ((if_pos out).symm.trans ran)
    exact .refl self
  · obtain ⟨⟨w', count⟩, marked, same⟩ := of_map ((if_neg out).symm.trans ran)
    obtain rfl := same
    refine ⟨rfl, rfl, ?_⟩
    exact forLoop_inv (fun _ state => state.1.creations = self.world.creations) rfl
      (fun _ _ _ _ earlier step => (expireTurn_creations step).trans earlier) marked

/-- `KeyManager_Reset` leaves an empty list. -/
theorem reset_sameLife (ran : self.reset env = .ok after)
    : SameLife self after ∧ after.localKeys = .init := by
  obtain ⟨⟨w', list⟩, freed, rfl⟩ := of_map ran
  exact ⟨⟨rfl, rfl, (KeyInfoList.free_sameCalls freed).1.creations⟩, rfl⟩

/-- `KeyManager_Stop` of an initialised manager leaves an empty list and both flags cleared. -/
theorem stop_ends (inited : self.isInited = true) (ran : self.stop = .ok after)
    : after.isInited = false ∧ after.isRunning = false ∧ after.localKeys = .init
      ∧ after.world.creations = self.world.creations := by
  obtain ⟨⟨w', list⟩, freed, rfl⟩ :=
    of_map ((if_neg (by simp [inited])).symm.trans ran)
  obtain ⟨calls, rfl⟩ := KeyInfoList.free_sameCalls freed
  exact ⟨rfl, rfl, rfl, calls.creations⟩

/-- `KeyManager_Init` tries to create one thread, and what it leaves depends on the outcome
alone. It initialises keys at one reading of the clock each.
-/
theorem init_begins {created : Bool} (fresh : self.isInited = false)
    (ran : self.init env = .ok (created, after))
    : created = env.creates self.world.creations
      ∧ after.isInited = created ∧ after.isRunning = created
      ∧ (created = false → after.localKeys = .init)
      ∧ after.world.creations = self.world.creations + 1
      ∧ after.world.readings + self.world.serials
        = self.world.readings + after.world.serials := by
  obtain ⟨asked, requested, rest⟩ := of_bind ((if_neg (by simp [fresh])).symm.trans ran)
  obtain ⟨w₁, list, rfl, requests⟩ := checkAndRequestKeys_requests requested
  have same : w₁.creations = self.world.creations := requests.creations
  rw [← same]
  by_cases succeeded : env.creates w₁.creations = true
  · obtain ⟨rfl, rfl⟩ := Prod.mk.inj (Except.ok.inj ((if_pos succeeded).symm.trans rest))
    exact ⟨succeeded.symm, rfl, rfl, fun failed => (by cases failed), rfl, requests.stepwise⟩
  · obtain ⟨⟨w₂, list'⟩, freed, made⟩ := of_map ((if_neg succeeded).symm.trans rest)
    obtain ⟨rfl, rfl⟩ := Prod.mk.inj made
    obtain ⟨calls, rfl⟩ := KeyInfoList.free_sameCalls freed
    refine ⟨(eq_false_of_ne_true succeeded).symm, fresh, rfl, fun _ => rfl, calls.creations, ?_⟩
    simp only [calls.readings, calls.serials]
    exact requests.stepwise

end KeyManager

-----------------------------------------------------------------------------------------
-- The polling threads
-----------------------------------------------------------------------------------------

/-- The manager with the number of its calls of `pthread_join`. -/
structure Lifecycle where
  manager : KeyManager
  joined : Nat

/-- How many calls of `pthread_create` have created a thread so far. -/
def World.created (env : Env) (w : World) : Nat := (List.range w.creations).countP env.creates

theorem World.created_congr (same : w'.creations = w.creations)
    : w'.created env = w.created env := by
  rw [World.created, World.created, same]

theorem World.created_succ (next : w'.creations = w.creations + 1)
    : w'.created env = w.created env + if env.creates w.creations then 1 else 0 := by
  rw [World.created, World.created, next, List.range_succ, List.countP_append]
  simp

namespace Lifecycle

def init : Lifecycle := ⟨.initInstance, 0⟩

/-- The polling threads that were created and not joined. -/
def threads (env : Env) (s : Lifecycle) : Int := (s.manager.world.created env : Int) - s.joined

/-- The calls of `pthread_join` in a call: `KeyManager_Stop` joins the polling thread unless
it returns at once.
-/
def joins (self : KeyManager) : Call → Nat
  | .stop => if self.isInited then 1 else 0
  | _ => 0

/-- A call of the manager. -/
def call (env : Env) (s : Lifecycle) (call : Call) : Except Fault Lifecycle :=
  (s.manager.call env call).map (fun after => ⟨after, s.joined + joins s.manager call⟩)

end Lifecycle

/-- All sequences of calls that run into no fault. -/
def lifecycles (env : Env) : Lts Lifecycle Call where
  init s := s = .init
  next s call s' := s.call env call = .ok s'

/-- Between two calls the flags and the one polling thread go together, and without them the
list is empty. An initialisation that returns false leaves all of this as it was, and one of a
manager that is not initialised returns what comes of the creation of the thread.
-/
structure Lifecycle.Coherent (env : Env) (s : Lifecycle) : Prop where
  running : s.manager.isRunning = s.manager.isInited
  thread : s.threads env = 1 ↔ s.manager.isInited = true
  noThread : s.manager.isInited = false → s.threads env = 0
  noKeys : s.manager.isInited = false → s.manager.localKeys = ⟨none, 0, 0⟩
  failed
    : ∀ after, s.manager.init env = .ok (false, after) →
        after.localKeys = s.manager.localKeys
        ∧ after.isInited = s.manager.isInited
        ∧ after.isRunning = s.manager.isRunning
        ∧ threads env { s with manager := after } = s.threads env
  again
    : s.manager.isInited = false →
        ∃ after, s.manager.init env = .ok (env.creates s.manager.world.creations, after)

namespace Lifecycle

variable {s s' : Lifecycle}

/-- What every call keeps: the flags agree, they say how many threads there are, and a manager
that is not initialised has an empty list.
-/
structure Steady (env : Env) (s : Lifecycle) : Prop where
  running : s.manager.isRunning = s.manager.isInited
  threads : s.threads env = if s.manager.isInited then 1 else 0
  empty : s.manager.isInited = false → s.manager.localKeys = .init

/-- A call that leaves the flags and the threads alone. -/
theorem Steady.same (now : s.Steady env) (same : KeyManager.SameLife s.manager after)
    (empty : s.manager.isInited = false → after.localKeys = .init)
    : Steady env { s with manager := after } where
  running := by rw [same.isRunning, same.isInited, now.running]
  threads := by
    have threads := now.threads
    rw [Lifecycle.threads] at threads ⊢
    rw [World.created_congr same.creations, same.isInited]
    exact threads
  empty out := empty (same.isInited.symm.trans out)

/-- An initialisation of a manager that is not initialised, by the outcome of the creation. -/
theorem Steady.init (now : s.Steady env) (fresh : s.manager.isInited = false) {created : Bool}
    (ran : s.manager.init env = .ok (created, after))
    : Steady env { s with manager := after } := by
  obtain ⟨outcome, inited, running, empty, creations, -⟩ := KeyManager.init_begins fresh ran
  constructor
  · rw [running, inited]
  · have threads := now.threads
    rw [fresh, Lifecycle.threads] at threads
    rw [Lifecycle.threads, World.created_succ creations, ← outcome, inited]
    cases created <;> simp at threads ⊢ <;> omega
  · exact fun out => empty (inited.symm.trans out)

/-- Stopping an initialised manager joins its one thread. -/
theorem Steady.stop (now : s.Steady env) (inited : s.manager.isInited = true)
    (ran : s.manager.stop = .ok after)
    : Steady env { manager := after, joined := s.joined + 1 } := by
  obtain ⟨out, idle, empty, creations⟩ := KeyManager.stop_ends inited ran
  constructor
  · rw [out, idle]
  · have threads := now.threads
    rw [inited, Lifecycle.threads] at threads
    rw [Lifecycle.threads, World.created_congr creations, out]
    simp at threads ⊢
    omega
  · exact fun _ => empty

/-- Every call keeps the manager steady. -/
theorem Steady.call (now : s.Steady env) {call : Call} (ran : s.call env call = .ok s')
    : s'.Steady env := by
  obtain ⟨after, called, rfl⟩ := of_map ran
  by_cases skipped : call.skipped s.manager = true
  · obtain rfl := Except.ok.inj (called.symm.trans (KeyManager.call_skipped skipped))
    have none_joined : joins s.manager call = 0 := by
      cases call <;> simp_all [Call.skipped, joins]
    rw [none_joined]
    exact now
  cases call with
  | init =>
      have fresh : s.manager.isInited = false := by simpa [Call.skipped] using skipped
      obtain ⟨⟨created, after'⟩, begun, rfl⟩ := of_map called
      exact now.init fresh begun
  | checkAllKeys =>
      have inited : s.manager.isInited = true := by simpa [Call.skipped] using skipped
      refine now.same (KeyManager.checkAllKeys_sameLife called) (fun out => ?_)
      cases inited.symm.trans out
  | addExternalKey keyValue =>
      have inited : s.manager.isInited = true := by simpa [Call.skipped] using skipped
      obtain ⟨⟨added, after'⟩, made, rfl⟩ := of_map called
      refine now.same (KeyManager.addExternalKey_sameLife made) (fun out => ?_)
      cases inited.symm.trans out
  | simulateKeyExpiry number =>
      have inited : s.manager.isInited = true := by simpa [Call.skipped] using skipped
      refine now.same (KeyManager.simulateKeyExpiry_sameLife called) (fun out => ?_)
      cases inited.symm.trans out
  | getValidKey =>
      obtain ⟨found, -, rfl⟩ := of_map called
      exact now
  | reset =>
      obtain ⟨same, empty⟩ := KeyManager.reset_sameLife called
      exact now.same same (fun _ => empty)
  | stop =>
      have inited : s.manager.isInited = true := by simpa [Call.skipped] using skipped
      have one_joined : joins s.manager .stop = 1 := if_pos inited
      rw [one_joined]
      exact now.stop inited called

/-- In every run the manager is steady. -/
theorem steady (env : Env) : (lifecycles env).Invariant (Steady env) where
  init s start := by
    obtain rfl := start
    exact ⟨rfl, rfl, fun _ => rfl⟩
  step s call s' now ran := now.call ran

/-- A steady manager is coherent. -/
theorem Steady.coherent (now : s.Steady env) : s.Coherent env where
  running := now.running
  thread := by
    rw [now.threads]
    cases s.manager.isInited <;> simp
  noThread out := by rw [now.threads, out]; rfl
  noKeys := now.empty
  failed after ran := by
    cases inited : s.manager.isInited with
    | true =>
        obtain ⟨-, rfl⟩ := Prod.mk.inj (Except.ok.inj ((if_pos inited).symm.trans ran))
        exact ⟨rfl, inited, rfl, rfl⟩
    | false =>
        obtain ⟨-, out, idle, empty, -⟩ := KeyManager.init_begins inited ran
        have threads := (now.init inited ran).threads
        rw [out] at threads
        refine ⟨(empty rfl).trans (now.empty inited).symm, out, ?_, ?_⟩
        · rw [idle, now.running, inited]
        · rw [now.threads, inited]
          exact threads
  again out := by
    obtain ⟨created, w', list', keys, ran, -⟩ := KeyManager.init_spec env out
    obtain rfl := (KeyManager.init_begins out ran).1
    exact ⟨_, ran⟩

end Lifecycle

/-- In every sequence of calls the flags, the thread and the list go together, whatever comes
of the creations of threads.
-/
theorem lifecycles_coherent (env : Env) (s : Lifecycle)
    (reached : (lifecycles env).Reachable s)
    : s.Coherent env :=
  ((Lifecycle.steady env).reachable reached).coherent

/-- The first thread is not created, the later ones are. -/
def secondTry : Env := { standstill with creates := fun n => n ≠ 0 }

def Lifecycle.step (env : Env) (s : Lifecycle) (call : Call) : Option Lifecycle :=
  (s.call env call).toOption

/-- The manager after a failed and a successful initialisation. -/
def retried : Lifecycle :=
  Option.get (Lts.execute (Lifecycle.step secondTry) .init [.init, .reset, .init])
    (by decide +kernel)

theorem retried_coherent : retried.Coherent secondTry ∧ retried.manager.isInited = true := by
  refine ⟨lifecycles_coherent secondTry retried ⟨.init, rfl, ?_⟩, by decide +kernel⟩
  exact Lts.execute_steps (fun _ _ _ taken => ok_of_toOption taken) (Option.some_get _).symm

end QKeySys.KeyPool
