import QKeySys.KeyPool.Sharing
import QKeySys.Library.Simulation

/-! Sharing the key pool: in every interleaving the callers, the polling thread and a lone stop
of the manager do what the interface does when its functions are called one after the other.
-/

namespace QKeySys.KeyPool

open QKeySys.Library

variable {env : Env}

-----------------------------------------------------------------------------------------
-- One call after the other
-----------------------------------------------------------------------------------------

/-- The calls of the interface and the stop of the manager. -/
def KeypoolCall.ofInterface : KeypoolCall → Bool
  | .manager .stop | .update _ | .execute _ => true
  | .manager _ => false

/-- All sequences of such calls. -/
def serialPools (env : Env) : Lts Keypool KeypoolCall :=
  (keypools env).restrict (fun _ call => call.ofInterface = true)

namespace Keypool

variable {k k' : Keypool} {manager : KeyManager}

/-- An initialisation leaves what a call leaves that has nothing to add. -/
theorem serial_init (ready : k.initIfNeeded env = .ok k') : (serialPools env).Steps k k' := by
  have executed : (k.execute env (some [])).map Prod.snd = .ok k' := by
    refine (congrArg (Except.map Prod.snd) (bind_ok ready _)).trans ?_
    cases k'.gKeyManager with
    | false => rfl
    | true => cases k'.manager.isInited <;> rfl
  exact .single ⟨.execute (some []), rfl, executed⟩

/-- The interface has initialised the manager and points to it. -/
structure Ready (k : Keypool) : Prop where
  called : k.initCalled = true
  points : k.gKeyManager = true
  inited : k.manager.isInited = true

/-- A string that gets to the manager. -/
theorem Ready.update {qkStr : CString} (ready : k.Ready) (some_text : qkStr ≠ [])
    (ran : (Request.update qkStr).perform env k.manager = .ok manager)
    : k.update env (some qkStr) = .ok (0, { k with manager := manager }) := by
  have called : k.initIfNeeded env = .ok k := if_pos ready.called
  rw [update_eq called ready.points some_text, if_pos ready.inited,
    KeyManager.addExternalKey_of_locked ready.inited ran]
  rfl

/-- A check that gets to the manager. -/
theorem Ready.execute (ready : k.Ready)
    (ran : (Request.execute none).perform env k.manager = .ok manager)
    : k.execute env none = .ok (0, { k with manager := manager }) := by
  have called : k.initIfNeeded env = .ok k := if_pos ready.called
  rw [execute_eq called ready.points, if_pos ready.inited]
  exact congrArg (Except.map _) ((KeyManager.checkAllKeys_eq_locked ready.inited).trans ran)

/-- A call that gets to the manager. -/
theorem serial_perform (ready : k.Ready) {request : Request} (proper : request ≠ .update [])
    (plain : ∀ qkStr, request ≠ .execute (some qkStr))
    (ran : request.perform env k.manager = .ok manager)
    : (serialPools env).Steps k { k with manager := manager } := by
  match request, proper, plain, ran with
  | .update qkStr, proper, _, ran =>
      have updated := ready.update (fun empty => proper (congrArg _ empty)) ran
      exact .single ⟨.update (some qkStr), rfl, congrArg (Except.map Prod.snd) updated⟩
  | .execute none, _, _, ran =>
      exact .single ⟨.execute none, rfl, congrArg (Except.map Prod.snd) (ready.execute ran)⟩
  | .execute (some qkStr), _, plain, _ => exact absurd rfl (plain qkStr)

theorem serial_stop (ran : k.manager.stop = .ok manager)
    : (serialPools env).Steps k { k with manager := manager } :=
  .single ⟨.manager .stop, rfl, congrArg (Except.map _) ran⟩

end Keypool

/-- What the sequential interface does when a caller takes a step: it initialises the manager
when the flag is set or the list is freed again, it serves the request under the mutex, and it
stops the manager when the list is freed.
-/
inductive Caller.Serves (env : Env) (c : Caller) (k : Keypool) : Keypool → Prop where
  | nothing (aside : c.pc ∉ [.setInited, .freeList, .access, .stopFree]) : Serves env c k k
  | init (k' : Keypool) (pc : c.pc ∈ [.setInited, .freeList])
      (ran : k.initIfNeeded env = .ok k')
      : Serves env c k k'
  | perform (manager : KeyManager) (pc : c.pc = .access) (ready : k.Ready)
      (ran : c.request.perform env k.manager = .ok manager)
      : Serves env c k { k with manager := manager }
  | stop (manager : KeyManager) (pc : c.pc = .stopFree) (ran : k.manager.stop = .ok manager)
      : Serves env c k { k with manager := manager }

/-- What is done for a caller is none or one of the calls. -/
theorem Caller.Serves.steps {c : Caller} {k k' : Keypool} (serves : c.Serves env k k')
    (proper : c.pc = .access → c.request ≠ .update [])
    (plain : c.pc = .access → ∀ qkStr, c.request ≠ .execute (some qkStr))
    : (serialPools env).Steps k k' := by
  cases serves with
  | nothing => exact .refl
  | init _ _ ran => exact Keypool.serial_init ran
  | perform manager pc ready ran =>
      exact Keypool.serial_perform ready (proper pc) (plain pc) ran
  | stop manager _ ran => exact Keypool.serial_stop ran

/-- What the sequential interface does when the polling thread takes a step. -/
inductive Keypool.Checks (env : Env) (k : Keypool) : Keypool → Prop where
  | nothing : Checks env k k
  | check (manager : KeyManager) (ready : k.Ready)
      (ran : (Request.execute none).perform env k.manager = .ok manager)
      : Checks env k { k with manager := manager }

theorem Keypool.Checks.steps {k k' : Keypool} (checks : k.Checks env k')
    : (serialPools env).Steps k k' := by
  cases checks with
  | nothing => exact .refl
  | check manager ready ran => exact serial_perform ready (by simp) (by simp) ran

namespace SharedPool

variable {s s' shared : SharedPool} {phase : Phase} {i : Nat} {c : Caller} {k : Keypool}

-----------------------------------------------------------------------------------------
-- The state of the sequential interface
-----------------------------------------------------------------------------------------

/-- Between the calls both interfaces have the same manager; while it is not initialised, no
polling thread runs.
-/
structure Settled (manager : KeyManager) (gKeyManager : Bool) (poll : PollPc) (k : Keypool)
    : Prop where
  same : k = ⟨manager, gKeyManager, true⟩
  points : manager.isInited = true → gKeyManager = true
  running : manager.isRunning = manager.isInited
  ended : manager.isInited = false → poll.isOver = true

/-- The initialisation at its program points, up to the first request. -/
def Asking (manager : KeyManager) (gKeyManager : Bool) (poll : PollPc) : CallerPc → Prop
  | .getInstance => manager = .initInstance ∧ poll = .absent
  | .initTest | .initRequest =>
      manager = .initInstance ∧ poll = .absent ∧ gKeyManager = true
  | _ => False

/-- From the first request, which left `m`, up to where the sequential initialisation takes
place: when the flag is set or the list is freed.
-/
def Requested (env : Env) (m manager : KeyManager) (poll : PollPc) : CallerPc → Prop
  | .setRunning => manager = m ∧ poll = .absent
  | .createThread => manager = m.setRunning true ∧ poll = .absent
  | .setInited =>
      manager = m.countCreation.setRunning true ∧ env.creates m.world.creations = true
  | .clearRunning =>
      manager = m.countCreation.setRunning true ∧ poll = .absent
        ∧ env.creates m.world.creations = false
  | .freeList =>
      manager = m.countCreation.setRunning false ∧ poll = .absent
        ∧ env.creates m.world.creations = false
  | _ => False

/-- And from there on. -/
def Inited (manager : KeyManager) (gKeyManager : Bool) (poll : PollPc) (k : Keypool)
    : CallerPc → Prop
  | .dropPointer => Settled manager false poll k ∧ manager.isInited = false
  | .setCalled => Settled manager gKeyManager poll k
  | _ => False

/-- The stop at its program points; the sequential one takes place when the list is freed. -/
def Closing (manager : KeyManager) (gKeyManager : Bool) (poll : PollPc) (k : Keypool)
    : CallerPc → Prop
  | .stopJoin =>
      k = ⟨manager.setRunning true, true, true⟩ ∧ gKeyManager = true
        ∧ manager.isInited = true ∧ manager.isRunning = false
  | .stopFree =>
      k = ⟨manager.setRunning true, true, true⟩ ∧ gKeyManager = true
        ∧ manager.isInited = true ∧ manager.isRunning = false ∧ poll.isOver = true
  | .stopInited => Settled { manager with isInited := false } gKeyManager poll k
  | _ => False

/-- What the shared variables and the sequential interface have in common in a phase. -/
inductive Agrees (env : Env) (s : SharedPool) (k : Keypool) : Phase → Prop where
  | fresh (early : s.initCalled = false) (manager : s.manager = .initInstance)
      (absent : s.poll = .absent) (null : s.gKeyManager = false) (start : k = .init)
      : Agrees env s k .fresh
  | asking (i : Nat) (early : s.initCalled = false)
      (asking : Asking s.manager s.gKeyManager s.poll (s.callers i).pc) (start : k = .init)
      : Agrees env s k (.starting i)
  | requested (i : Nat) (early : s.initCalled = false) (m : KeyManager)
      (ran : KeyManager.initInstance.firstRequest env = .ok m)
      (requested : Requested env m s.manager s.poll (s.callers i).pc)
      (points : s.gKeyManager = true) (start : k = .init)
      : Agrees env s k (.starting i)
  | inited (i : Nat) (early : s.initCalled = false)
      (inited : Inited s.manager s.gKeyManager s.poll k (s.callers i).pc)
      : Agrees env s k (.starting i)
  | up (called : s.initCalled = true)
      (settled : Settled s.manager s.gKeyManager s.poll k)
      : Agrees env s k .up
  | closing (i : Nat) (called : s.initCalled = true)
      (closing : Closing s.manager s.gKeyManager s.poll k (s.callers i).pc)
      : Agrees env s k (.closing i)

/-- The sequential interface that corresponds to the shared pool. -/
def Follows (env : Env) (s : SharedPool) (k : Keypool) : Prop :=
  ∃ phase, s.Fits phase ∧ s.Agrees env k phase

/-- The correspondence is one of these variables and of the program point of the caller that
the phase is about.
-/
theorem Agrees.congr (agrees : s.Agrees env k phase) (manager : s'.manager = s.manager)
    (gKeyManager : s'.gKeyManager = s.gKeyManager) (initCalled : s'.initCalled = s.initCalled)
    (poll : s'.poll = s.poll)
    (callers : ∀ i, phase = .starting i ∨ phase = .closing i →
      (s'.callers i).pc = (s.callers i).pc)
    : s'.Agrees env k phase := by
  cases agrees with
  | fresh early same absent null start =>
      exact .fresh (initCalled.trans early) (manager.trans same) (poll.trans absent)
        (gKeyManager.trans null) start
  | asking i early asking start =>
      refine .asking i (initCalled.trans early) ?_ start
      rw [manager, gKeyManager, poll, callers i (.inl rfl)]
      exact asking
  | requested i early m ran requested points start =>
      refine .requested i (initCalled.trans early) m ran ?_ (gKeyManager.trans points) start
      rw [manager, poll, callers i (.inl rfl)]
      exact requested
  | inited i early inited =>
      refine .inited i (initCalled.trans early) ?_
      rw [manager, gKeyManager, poll, callers i (.inl rfl)]
      exact inited
  | up called settled =>
      refine .up (initCalled.trans called) ?_
      rw [manager, gKeyManager, poll]
      exact settled
  | closing i called closing =>
      refine .closing i (initCalled.trans called) ?_
      rw [manager, gKeyManager, poll, callers i (.inr rfl)]
      exact closing

/-- The invariant is one of the manager's flag only. -/
theorem Fits.setManager (fits : s.Fits phase) {manager : KeyManager}
    (same : manager.isInited = s.manager.isInited)
    : Fits { s with manager := manager } phase where
  callers j := by
    have stands := fits.callers j
    exact ⟨stands.initMutex, stands.mutex, stands.starts, stands.closes, stands.knows,
      fun used => same.trans (stands.uses used), stands.proper, stands.plain⟩
  pollMutex := fits.pollMutex
  pollUses used := same.trans (fits.pollUses used)
  alone := fits.alone

/-- A caller outside the phases moves on without the shared variables. -/
theorem Agrees.aside (agrees : s.Agrees env k phase) (fits : s.Fits phase)
    (before : (s.callers i).pc.starts = false ∧ (s.callers i).pc.closes = false)
    (after : c.pc.starts = false ∧ c.pc.closes = false)
    (manager : shared.manager = s.manager) (gKeyManager : shared.gKeyManager = s.gKeyManager)
    (initCalled : shared.initCalled = s.initCalled) (poll : shared.poll = s.poll)
    (callers : shared.callers = s.callers)
    : (shared.put i c).Agrees env k (phase.moved i c.pc) := by
  have notStarting : phase ≠ .starting i := fun starting =>
    Bool.false_ne_true (before.1.symm.trans ((fits.callers i).starts.mp starting))
  have notClosing : phase ≠ .closing i := fun closing =>
    Bool.false_ne_true (before.2.symm.trans ((fits.callers i).closes.mp closing))
  rw [Phase.moved_same after.1 after.2 notStarting notClosing]
  refine agrees.congr manager gKeyManager initCalled poll (fun j about => ?_)
  have other : j ≠ i := by
    rintro rfl
    exact about.elim notStarting notClosing
  rw [put_callers_ne c other, callers]

/-- The phase of a caller that initialises the manager. -/
theorem Fits.starting (fits : s.Fits phase) (i : Nat) (starts : (s.callers i).pc.starts = true)
    : phase = .starting i :=
  (fits.callers i).starts.mpr starts

theorem Agrees.of_asking (agrees : s.Agrees env k phase) (fits : s.Fits phase) (i : Nat)
    (pc : (s.callers i).pc ∈ [.getInstance, .initTest, .initRequest])
    : s.initCalled = false ∧ Asking s.manager s.gKeyManager s.poll (s.callers i).pc
      ∧ k = .init := by
  simp only [List.mem_cons, List.not_mem_nil, or_false] at pc
  obtain rfl := fits.starting i (by rcases pc with pc | pc | pc <;> simp [pc])
  cases agrees with
  | asking _ early asking start => exact ⟨early, asking, start⟩
  | requested _ early m ran requested =>
      rcases pc with pc | pc | pc <;> simp [pc, Requested] at requested
  | inited _ early inited => rcases pc with pc | pc | pc <;> simp [pc, Inited] at inited

theorem Agrees.of_requested (agrees : s.Agrees env k phase) (fits : s.Fits phase) (i : Nat)
    (pc : (s.callers i).pc
      ∈ [.setRunning, .createThread, .setInited, .clearRunning, .freeList])
    : s.initCalled = false ∧ s.gKeyManager = true ∧ k = .init
      ∧ ∃ m, KeyManager.initInstance.firstRequest env = .ok m
        ∧ Requested env m s.manager s.poll (s.callers i).pc := by
  simp only [List.mem_cons, List.not_mem_nil, or_false] at pc
  obtain rfl :=
    fits.starting i (by rcases pc with pc | pc | pc | pc | pc <;> simp [pc])
  cases agrees with
  | asking _ early asking =>
      rcases pc with pc | pc | pc | pc | pc <;> simp [pc, Asking] at asking
  | requested _ early m ran requested points start =>
      exact ⟨early, points, start, m, ran, requested⟩
  | inited _ early inited =>
      rcases pc with pc | pc | pc | pc | pc <;> simp [pc, Inited] at inited

theorem Agrees.of_inited (agrees : s.Agrees env k phase) (fits : s.Fits phase) (i : Nat)
    (pc : (s.callers i).pc ∈ [.dropPointer, .setCalled])
    : s.initCalled = false
      ∧ Inited s.manager s.gKeyManager s.poll k (s.callers i).pc := by
  simp only [List.mem_cons, List.not_mem_nil, or_false] at pc
  obtain rfl := fits.starting i (by rcases pc with pc | pc <;> simp [pc])
  cases agrees with
  | asking _ early asking => rcases pc with pc | pc <;> simp [pc, Asking] at asking
  | requested _ early m ran requested =>
      rcases pc with pc | pc <;> simp [pc, Requested] at requested
  | inited _ early inited => exact ⟨early, inited⟩

theorem Agrees.of_closing (agrees : s.Agrees env k phase) (fits : s.Fits phase) (i : Nat)
    (closes : (s.callers i).pc.closes = true)
    : s.initCalled = true ∧ Closing s.manager s.gKeyManager s.poll k (s.callers i).pc := by
  obtain rfl := (fits.callers i).closes.mpr closes
  cases agrees with
  | closing _ called closing => exact ⟨called, closing⟩

theorem Agrees.silent {next : CallerPc} (agrees : s.Agrees env k phase) (fits : s.Fits phase)
    (move : LocalMove s (s.callers i) next)
    : (s.put i ((s.callers i).go next)).Agrees env k (phase.moved i next) := by
  cases move with
  | first pc early =>
      rw [Phase.moved_starts rfl]
      have holds : (s.callers i).pc.holdsInit = true := by simp [pc]
      cases agrees with
      | fresh early manager absent null start =>
          refine .asking i early ?_ start
          rw [put_callers_self]
          exact ⟨manager, absent⟩
      | asking j | requested j | inited j =>
          by_cases self : j = i
          · subst self
            have starts := (fits.callers j).starts.mp rfl
            simp [pc] at starts
          · exact absurd rfl (fits.not_starting holds self)
      | up called => cases early.symm.trans called
      | closing j called => cases early.symm.trans called
  | again pc inited =>
      obtain ⟨-, asking, -⟩ := agrees.of_asking fits i (by simp [pc])
      rw [pc] at asking
      rw [asking.1] at inited
      cases inited
  | begins pc fresh =>
      obtain ⟨early, asking, start⟩ := agrees.of_asking fits i (by simp [pc])
      rw [pc] at asking
      refine .asking i early ?_ start
      rw [put_callers_self]
      exact asking
  | joined pc ended =>
      obtain ⟨called, closing⟩ := agrees.of_closing fits i (by simp [pc])
      rw [pc] at closing
      obtain ⟨same, points, inited, stopped⟩ := closing
      refine .closing i called ?_
      rw [put_callers_self]
      exact ⟨same, points, inited, stopped, ended⟩
  | refused pc refused =>
      simp only [List.mem_cons, List.not_mem_nil, or_false] at pc
      refine agrees.aside fits ?_ ⟨rfl, rfl⟩ rfl rfl rfl rfl rfl
      rcases pc with pc | pc | pc <;> simp [pc]
  | _ pc => exact agrees.aside fits (by simp [pc]) ⟨rfl, rfl⟩ rfl rfl rfl rfl rfl

/-- While the manager is initialised and its list is not freed, the correspondence is one of
these two kinds, and stays with another manager that meets it.
-/
theorem Agrees.inited_cases (agrees : s.Agrees env k phase)
    (inited : s.manager.isInited = true)
    (before_free : ∀ j, phase = .closing j → (s.callers j).pc = .stopJoin)
    : (Settled s.manager s.gKeyManager s.poll k
        ∧ ∀ manager k', Settled manager s.gKeyManager s.poll k' →
          Agrees env { s with manager := manager } k' phase)
      ∨ Closing s.manager s.gKeyManager s.poll k .stopJoin
        ∧ ∀ manager k', Closing manager s.gKeyManager s.poll k' .stopJoin →
          Agrees env { s with manager := manager } k' phase := by
  cases agrees with
  | fresh early manager =>
      rw [manager] at inited
      cases inited
  | asking j early asking =>
      cases pc : (s.callers j).pc <;> simp_all [Asking, KeyManager.initInstance]
  | requested j early m ran requested =>
      have fresh : m.isInited = false := (KeyManager.firstRequest_sameLife ran).isInited
      cases pc : (s.callers j).pc <;>
        simp_all [Requested, KeyManager.setRunning, KeyManager.countCreation]
  | inited j early now =>
      cases pc : (s.callers j).pc with
      | setCalled =>
          rw [pc] at now
          refine .inl ⟨now, fun manager k' settled => .inited j early ?_⟩
          rw [pc]
          exact settled
      | _ => simp_all [Inited]
  | up called now => exact .inl ⟨now, fun manager k' settled => .up called settled⟩
  | closing j called closing =>
      have pc := before_free j rfl
      rw [pc] at closing
      refine .inr ⟨closing, fun manager k' closing' => .closing j called ?_⟩
      rw [pc]
      exact closing'

/-- Whoever owns the manager's mutex owns it while the manager is initialised. -/
theorem Fits.owned (fits : s.Fits phase) (owned : s.mutex ≠ none)
    : s.manager.isInited = true := by
  obtain ⟨owner, owned⟩ := Option.ne_none_iff_exists'.mp owned
  cases owner with
  | caller i =>
      have holds := (fits.callers i).mutex.mp owned
      refine (fits.callers i).uses ?_
      revert holds
      cases (s.callers i).pc <;> simp
  | poll =>
      have holds := fits.pollMutex.mp owned
      refine fits.pollUses ?_
      revert holds
      cases s.poll <;> simp

/-- Nobody frees the list while somebody owns the manager's mutex. -/
theorem Agrees.before_free (agrees : s.Agrees env k phase) (fits : s.Fits phase)
    (owned : s.mutex ≠ none) (j : Nat) (closing : phase = .closing j)
    : (s.callers j).pc = .stopJoin := by
  have closes := (fits.callers j).closes.mp closing
  obtain ⟨owner, owned⟩ := Option.ne_none_iff_exists'.mp owned
  cases owner with
  | caller i =>
      have holds := (fits.callers i).mutex.mp owned
      have busy : (s.callers i).pc ≠ .idle := fun idle => by simp [idle] at holds
      by_cases self : j = i
      · subst self
        cases pc : (s.callers j).pc <;> simp_all
      · exact absurd closing (fits.not_closing busy self)
  | poll =>
      have runs : s.poll.isOver = false := by
        have holds := fits.pollMutex.mp owned
        revert holds
        cases s.poll <;> simp [PollPc.isOver]
      obtain ⟨-, closing⟩ := agrees.of_closing fits j closes
      revert closing
      cases (s.callers j).pc with
      | stopJoin => exact fun _ => rfl
      | stopFree => exact fun now => absurd (runs.symm.trans now.2.2.2.2) Bool.false_ne_true
      | stopInited =>
          exact fun now => absurd (runs.symm.trans (now.ended rfl)) Bool.false_ne_true
      | _ => exact False.elim

/-- What is done under the mutex keeps the correspondence, when the sequential interface does
it too.
-/
theorem Agrees.perform (agrees : s.Agrees env k phase) (fits : s.Fits phase)
    (owned : s.mutex ≠ none) (request : Request) {manager : KeyManager}
    (ran : request.perform env s.manager = .ok manager)
    : k.Ready ∧ ∃ manager', request.perform env k.manager = .ok manager'
        ∧ Agrees env { s with manager := manager } { k with manager := manager' } phase := by
  have inited := fits.owned owned
  have same := Request.perform_sameLife request ran
  have inited' := same.isInited.trans inited
  rcases agrees.inited_cases inited (agrees.before_free fits owned) with
    ⟨now, next⟩ | ⟨now, next⟩
  · have points := now.points inited
    have running := same.isRunning.trans (now.running.trans inited)
    rw [now.same]
    refine ⟨⟨rfl, points, inited⟩, manager, ran, next _ _ ⟨rfl, fun _ => points, ?_, ?_⟩⟩
    · exact running.trans inited'.symm
    · exact fun fresh => absurd (fresh.symm.trans inited') Bool.false_ne_true
  · obtain ⟨live, points, -, stopped⟩ := now
    rw [live]
    refine ⟨⟨rfl, rfl, inited⟩, manager.setRunning true,
      Request.perform_setRunning request true ran, next _ _ ⟨rfl, points, inited', ?_⟩⟩
    exact same.isRunning.trans stopped

/-- A caller that is going to stop the manager finds it up. -/
theorem Agrees.of_stops (agrees : s.Agrees env k phase) (fits : s.Fits phase) (i : Nat)
    (pc : (s.callers i).pc = .stopRunning) (inited : s.manager.isInited = true)
    : s.initCalled = true ∧ Settled s.manager s.gKeyManager s.poll k := by
  have stops : (s.callers i).pc.stops = true := by simp [pc, CallerPc.stops]
  have busy : (s.callers i).pc ≠ .idle := by simp [pc]
  have stands := fits.callers i
  cases agrees with
  | fresh early manager =>
      rw [manager] at inited
      cases inited
  | asking j | requested j | inited j =>
      by_cases self : j = i
      · subst self
        have starts := stands.starts.mp rfl
        simp [pc] at starts
      · exact absurd rfl (fits.not_starting_of_stops stops self)
  | up called settled => exact ⟨called, settled⟩
  | closing j =>
      by_cases self : j = i
      · subst self
        have closes := stands.closes.mp rfl
        simp [pc] at closes
      · exact absurd rfl (fits.not_closing busy self)

/-- The steps that only change the program point are none of those. -/
theorem LocalMove.aside {next : CallerPc} (move : LocalMove s c next)
    : c.pc ∉ [.setInited, .freeList, .access, .stopFree] := by
  cases move with
  | refused pc =>
      simp only [List.mem_cons, List.not_mem_nil, or_false] at pc
      rcases pc with pc | pc | pc <;> simp [pc]
  | _ pc => simp [pc]

/-- Every move of a caller is followed by the sequential interface. -/
theorem Agrees.move (agrees : s.Agrees env k phase) (fits : s.Fits phase)
    (move : CallerMove env s i shared c)
    : ∃ k', (s.callers i).Serves env k k'
        ∧ (shared.put i c).Agrees env k' (phase.moved i c.pc) := by
  cases move with
  | silent next move => exact ⟨k, .nothing move.aside, agrees.silent fits move⟩
  | lockInit pc | unlockInit pc | lock pc | unlock pc =>
      exact ⟨k, .nothing (by simp [pc]),
        agrees.aside fits (by simp [pc]) ⟨rfl, rfl⟩ rfl rfl rfl rfl rfl⟩
  | passOn qkStr pc =>
      refine ⟨k, .nothing (by simp [pc]),
        agrees.aside fits (by simp [pc]) ?_ rfl rfl rfl rfl rfl⟩
      by_cases empty : qkStr = [] <;> simp [Caller.ofUpdate, empty]
  | getInstance pc =>
      obtain ⟨early, asking, start⟩ := agrees.of_asking fits i (by simp [pc])
      rw [pc] at asking
      refine ⟨k, .nothing (by simp [pc]), .asking i early ?_ start⟩
      rw [put_callers_self]
      exact ⟨asking.1, asking.2, rfl⟩
  | request manager pc ran =>
      obtain ⟨early, asking, start⟩ := agrees.of_asking fits i (by simp [pc])
      rw [pc] at asking
      obtain ⟨initial, absent, points⟩ := asking
      rw [initial] at ran
      refine ⟨k, .nothing (by simp [pc]), .requested i early manager ran ?_ points start⟩
      rw [put_callers_self]
      exact ⟨rfl, absent⟩
  | setRunning pc =>
      obtain ⟨early, points, start, m, ran, requested⟩ :=
        agrees.of_requested fits i (by simp [pc])
      rw [pc] at requested
      refine ⟨k, .nothing (by simp [pc]), .requested i early m ran ?_ points start⟩
      rw [put_callers_self]
      exact ⟨congrArg (KeyManager.setRunning · true) requested.1, requested.2⟩
  | created pc created =>
      obtain ⟨early, points, start, m, ran, requested⟩ :=
        agrees.of_requested fits i (by simp [pc])
      rw [pc] at requested
      rw [requested.1] at created
      refine ⟨k, .nothing (by simp [pc]), .requested i early m ran ?_ points start⟩
      rw [put_callers_self]
      exact ⟨congrArg KeyManager.countCreation requested.1, created⟩
  | notCreated pc failed =>
      obtain ⟨early, points, start, m, ran, requested⟩ :=
        agrees.of_requested fits i (by simp [pc])
      rw [pc] at requested
      rw [requested.1] at failed
      refine ⟨k, .nothing (by simp [pc]), .requested i early m ran ?_ points start⟩
      rw [put_callers_self]
      exact ⟨congrArg KeyManager.countCreation requested.1, requested.2, failed⟩
  | setInited pc =>
      obtain ⟨early, points, start, m, ran, requested⟩ :=
        agrees.of_requested fits i (by simp [pc])
      rw [pc] at requested
      obtain ⟨made, created⟩ := requested
      refine ⟨⟨{ s.manager with isInited := true }, true, true⟩, ?_, .inited i early ?_⟩
      · rw [start, made]
        exact .init _ (by simp [pc]) (bind_ok (KeyManager.init_created rfl ran created) _)
      · rw [put_callers_self]
        refine ⟨?_, fun _ => points, ?_, fun fresh => by cases fresh⟩
        · exact congrArg (Keypool.mk _ · true) points.symm
        · exact congrArg KeyManager.isRunning made
  | clearRunning pc =>
      obtain ⟨early, points, start, m, ran, requested⟩ :=
        agrees.of_requested fits i (by simp [pc])
      rw [pc] at requested
      refine ⟨k, .nothing (by simp [pc]), .requested i early m ran ?_ points start⟩
      rw [put_callers_self]
      have made := congrArg (KeyManager.setRunning · false) requested.1
      exact ⟨made, requested.2⟩
  | freeList manager pc freed =>
      obtain ⟨early, points, start, m, ran, requested⟩ :=
        agrees.of_requested fits i (by simp [pc])
      rw [pc] at requested
      obtain ⟨made, absent, failed⟩ := requested
      rw [made] at freed
      have first := KeyManager.firstRequest_sameLife ran
      have same := KeyManager.freeKeys_sameLife freed
      have fresh : manager.isInited = false := same.isInited.trans first.isInited
      refine ⟨⟨manager, false, true⟩, ?_, .inited i early ?_⟩
      · rw [start]
        exact .init _ (by simp [pc]) (bind_ok (KeyManager.init_failed rfl ran failed freed) _)
      · rw [put_callers_self]
        refine ⟨⟨rfl, fun inited => ?_, same.isRunning.trans fresh.symm, fun _ => ?_⟩, fresh⟩
        · exact absurd (fresh.symm.trans inited) Bool.false_ne_true
        · exact congrArg PollPc.isOver absent
  | dropPointer pc =>
      obtain ⟨early, inited⟩ := agrees.of_inited fits i (by simp [pc])
      rw [pc] at inited
      refine ⟨k, .nothing (by simp [pc]), .inited i early ?_⟩
      rw [put_callers_self]
      exact inited.1
  | setCalled pc =>
      obtain rfl := fits.starting i (by simp [pc])
      obtain ⟨early, inited⟩ := agrees.of_inited fits i (by simp [pc])
      rw [pc] at inited
      refine ⟨k, .nothing (by simp [pc]), ?_⟩
      rw [Phase.moved_up rfl rfl (.inl rfl)]
      exact .up rfl inited
  | access manager pc ran =>
      have owned := (fits.callers i).mutex.mpr (by simp [pc])
      obtain ⟨ready, manager', ran', agrees'⟩ := agrees.perform fits (by simp [owned]) _ ran
      have quiet : (s.callers i).pc.starts = false ∧ (s.callers i).pc.closes = false := by
        simp [pc]
      have fits' := fits.setManager (Request.perform_sameLife _ ran).isInited
      exact ⟨_, .perform manager' pc ready ran',
        agrees'.aside fits' quiet ⟨rfl, rfl⟩ rfl rfl rfl rfl rfl⟩
  | stopRunning pc =>
      have inited := (fits.callers i).uses (by simp [pc])
      obtain ⟨called, settled⟩ := agrees.of_stops fits i pc inited
      refine ⟨k, .nothing (by simp [pc]), .closing i called ?_⟩
      rw [put_callers_self]
      have running := settled.running.trans inited
      refine ⟨?_, settled.points inited, inited, rfl⟩
      rw [settled.same, settled.points inited]
      exact congrArg (Keypool.mk · true true) (KeyManager.setRunning_eq_self running).symm
  | stopFree manager pc freed =>
      obtain ⟨called, closing⟩ := agrees.of_closing fits i (by simp [pc])
      rw [pc] at closing
      obtain ⟨live, points, inited, stopped, ended⟩ := closing
      have same := KeyManager.freeKeys_sameLife freed
      have stopped' : manager.isRunning = false := same.isRunning.trans stopped
      refine ⟨⟨{ manager with isInited := false }, true, true⟩, ?_, .closing i called ?_⟩
      · rw [live]
        have freed' := KeyManager.freeKeys_setRunning true freed
        have made : { manager with isInited := false }
            = { manager.setRunning true with isRunning := false, isInited := false } := by
          rw [← stopped']
          rfl
        rw [made]
        exact .stop _ pc (KeyManager.stop_of_freeKeys inited freed')
      · rw [put_callers_self]
        exact ⟨congrArg (Keypool.mk _ · true) points.symm, fun inited => (by cases inited),
          stopped', fun _ => ended⟩
  | stopInited pc =>
      obtain ⟨called, closing⟩ := agrees.of_closing fits i (by simp [pc])
      obtain rfl := (fits.callers i).closes.mpr (by simp [pc])
      rw [pc] at closing
      refine ⟨k, .nothing (by simp [pc]), ?_⟩
      rw [Phase.moved_up rfl rfl (.inr rfl)]
      exact .up called closing

/-- Every move of a caller keeps the relation to the sequential interface. -/
theorem Follows.move (now : Follows env s k) (move : CallerMove env s i shared c)
    : ∃ k', (s.callers i).Serves env k k' ∧ Follows env (shared.put i c) k' := by
  obtain ⟨phase, fits, agrees⟩ := now
  obtain ⟨k', serves, agrees'⟩ := agrees.move fits move
  refine ⟨k', serves, _, fits.move move (fun pc => ?_) (fun pc => ?_), agrees'⟩
  · obtain ⟨-, -, -, m, -, requested⟩ := agrees.of_requested fits i (by simp [pc])
    rw [pc] at requested
    exact requested.2
  · obtain ⟨-, closing⟩ := agrees.of_closing fits i (by simp [pc])
    rw [pc] at closing
    -- Until the flag is cleared, the stop has settled for a manager that is not initialised.
    exact closing.ended rfl

/-- A polling thread that runs has another program point, and perhaps the mutex. -/
theorem Fits.setPoll (fits : s.Fits phase) {mutex : Option Accessor} {poll : PollPc}
    (owns : mutex = some .poll ↔ poll.holdsMutex = true)
    (others : ∀ j, mutex = some (.caller j) ↔ s.mutex = some (.caller j))
    (uses : poll.uses = true → s.manager.isInited = true)
    : Fits { s with mutex := mutex, poll := poll } phase where
  callers j := by
    have stands := fits.callers j
    exact ⟨stands.initMutex, (others j).trans stands.mutex, stands.starts, stands.closes,
      stands.knows, stands.uses, stands.proper, stands.plain⟩
  pollMutex := owns
  pollUses := uses
  alone := fits.alone

/-- While the polling thread runs, the correspondence does not depend on where it is. -/
theorem Agrees.setPoll (agrees : s.Agrees env k phase) (runs : s.poll.isOver = false)
    (mutex : Option Accessor) (poll : PollPc)
    : Agrees env { s with mutex := mutex, poll := poll } k phase := by
  have present : s.poll ≠ .absent := by
    intro absent
    simp [absent, PollPc.isOver] at runs
  have settled {manager : KeyManager} {gKeyManager : Bool}
      (now : Settled manager gKeyManager s.poll k)
      : Settled manager gKeyManager poll k :=
    ⟨now.same, now.points, now.running,
      fun fresh => absurd (runs.symm.trans (now.ended fresh)) Bool.false_ne_true⟩
  cases agrees with
  | fresh early manager absent => exact absurd absent present
  | asking j early asking =>
      cases pc : (s.callers j).pc <;> simp_all [Asking]
  | requested j early m ran requested points start =>
      refine .requested j early m ran ?_ points start
      cases pc : (s.callers j).pc <;> simp_all [Requested]
  | inited j early inited =>
      refine .inited j early ?_
      revert inited
      cases (s.callers j).pc with
      | dropPointer => exact fun now => ⟨settled now.1, now.2⟩
      | setCalled => exact settled
      | _ => exact id
  | up called now => exact .up called (settled now)
  | closing j called closing =>
      refine .closing j called ?_
      revert closing
      cases (s.callers j).pc with
      | stopFree =>
          exact fun now => absurd (runs.symm.trans now.2.2.2.2) Bool.false_ne_true
      | stopInited => exact settled
      | _ => exact id

/-- So does every move of the polling thread. -/
theorem Follows.poll {pollCycle : Int} (now : Follows env s k)
    (move : PollMove env pollCycle s s')
    : ∃ k', k.Checks env k' ∧ Follows env s' k' := by
  obtain ⟨phase, fits, agrees⟩ := now
  have owns := fits.pollMutex
  have aside {mutex : Option Accessor} {poll : PollPc} (runs : s.poll.isOver = false)
      (owns : mutex = some .poll ↔ poll.holdsMutex = true)
      (others : ∀ j, mutex = some (.caller j) ↔ s.mutex = some (.caller j))
      (uses : poll.uses = true → s.manager.isInited = true)
      : ∃ k', k.Checks env k' ∧ Follows env { s with mutex := mutex, poll := poll } k' :=
    ⟨k, .nothing, phase, fits.setPoll owns others uses, agrees.setPoll runs mutex poll⟩
  cases move with
  | goes pc | ends pc | skips pc | sleeps n pc | wakes n pc =>
      rw [pc] at owns
      exact aside (by rw [pc]; rfl) owns (fun _ => Iff.rfl) (fun uses => by cases uses)
  | asks pc inited =>
      rw [pc] at owns
      exact aside (by rw [pc]; rfl) owns (fun _ => Iff.rfl) (fun _ => inited)
  | lock pc free =>
      refine aside (by rw [pc]; rfl) (by simp) (fun j => ?_)
        (fun _ => fits.pollUses (by simp [pc]))
      simp [free]
  | unlock pc =>
      refine aside (by rw [pc]; rfl) (by simp) (fun j => ?_) (fun uses => by cases uses)
      simp [owns.mpr (by simp [pc])]
  | access manager pc ran =>
      have runs : s.poll.isOver = false := by rw [pc]; rfl
      have inited := fits.pollUses (by simp [pc])
      have owned := owns.mpr (by simp [pc])
      obtain ⟨ready, manager', ran', agrees'⟩ :=
        agrees.perform fits (by simp [owned]) (.execute none) ran
      have kept := (Request.perform_sameLife (.execute none) ran).isInited
      refine ⟨_, .check manager' ready ran', phase, ?_, agrees'.setPoll runs s.mutex .unlock⟩
      rw [pc] at owns
      exact (fits.setManager kept).setPoll owns (fun _ => Iff.rfl) (fun _ => kept.trans inited)

/-- A caller that is idle begins a call, or begins to stop the manager. -/
theorem Follows.enter (now : Follows env s k) (idle : (s.callers i).pc = .idle)
    (entry : c.pc ∈ [.idle, .readCalled, .stopTest])
    (proper : c.pc = .readCalled → c.request ≠ .update [])
    (alone : c.pc ≠ .idle → ∀ j, j ≠ i → (s.callers j).pc.stops = false)
    (lonely : c.pc = .stopTest → ∀ j, j ≠ i → (s.callers j).pc = .idle)
    : Follows env (s.put i c) k := by
  obtain ⟨phase, fits, agrees⟩ := now
  have stands := fits.callers i
  simp only [List.mem_cons, List.not_mem_nil, or_false] at entry
  have notStarting : phase ≠ .starting i := by
    intro starting
    have starts := stands.starts.mp starting
    simp [idle] at starts
  have notClosing : phase ≠ .closing i := by
    intro closing
    have closes := stands.closes.mp closing
    simp [idle] at closes
  refine ⟨phase, ⟨fun j => ?_, fits.pollMutex, fits.pollUses, fun a b other stops => ?_⟩, ?_⟩
  · by_cases self : j = i
    · subst self
      rw [put_callers_self]
      obtain ⟨initMutex, mutex, starts, closes, -⟩ := stands
      simp only [idle] at initMutex mutex starts closes
      rcases entry with entry | entry | entry
      all_goals constructor <;> simp_all [SharedPool.put, CallerPc.stops]
    · rw [put_callers_ne c self]
      exact (fits.callers j).put
  · by_cases self : a = i
    · subst self
      rw [put_callers_self] at stops
      rw [put_callers_ne c other]
      rcases entry with entry | entry | entry
      · simp [entry, CallerPc.stops] at stops
      · simp [entry, CallerPc.stops] at stops
      · exact lonely entry b other
    · rw [put_callers_ne c self] at stops
      by_cases same : b = i
      · subst same
        rw [put_callers_self]
        by_contra busy
        exact absurd ((alone busy a self).symm.trans stops) Bool.false_ne_true
      · rw [put_callers_ne c same]
        exact fits.alone a b other stops
  · refine agrees.congr rfl rfl rfl rfl (fun j about => ?_)
    have other : j ≠ i := by
      rintro rfl
      exact about.elim notStarting notClosing
    rw [put_callers_ne c other]

/-- A caller that begins a call has nothing done for it yet. -/
theorem Follows.call {pollCycle : Int} {request : Request} (now : Follows env s k)
    (step : (sharedPools env pollCycle).next s (.call i request) s')
    : Follows env s' k := by
  obtain ⟨allowed, step⟩ := step
  obtain ⟨idle, step⟩ := Option.ite_none_right_eq_some.mp step
  cases request with
  | update qkStr =>
      cases step
      refine now.enter idle ?_ ?_ (fun _ => allowed) ?_
      all_goals by_cases empty : qkStr = [] <;> simp [Caller.ofUpdate, empty]
  | execute payload =>
      cases step
      exact now.enter idle (by simp) (by simp) (fun _ => allowed) (by simp)

/-- Nor has one that begins to stop the manager. -/
theorem Follows.stop {pollCycle : Int} (now : Follows env s k)
    (step : (sharedPools env pollCycle).next s (.stop i) s')
    : Follows env s' k := by
  obtain ⟨allowed, step⟩ := step
  obtain ⟨idle, step⟩ := Option.ite_none_right_eq_some.mp step
  cases step
  refine now.enter idle (by simp [Caller.go]) (by simp [Caller.go]) ?_ (fun _ => allowed)
  intro _ j other
  rw [allowed j other]
  rfl

/-- Every step is followed by the sequential interface. -/
theorem Follows.step {pollCycle : Int} {action : SharedAction} (now : Follows env s k)
    (step : (sharedPools env pollCycle).next s action s')
    : ∃ k', (serialPools env).Steps k k' ∧ Follows env s' k' := by
  cases action with
  | call i request => exact ⟨k, .refl, now.call step⟩
  | stop i => exact ⟨k, .refl, now.stop step⟩
  | caller i =>
      obtain ⟨shared, c, move, rfl⟩ := callerStep_move step.2
      obtain ⟨k', serves, now'⟩ := now.move move
      obtain ⟨phase, fits, -⟩ := now
      have stands := fits.callers i
      refine ⟨k', serves.steps (fun pc => ?_) (fun pc => ?_), now'⟩
      · exact stands.proper (by simp [pc]) (by simp [pc, CallerPc.stops])
      · exact stands.plain (by simp [pc])
  | poll =>
      obtain ⟨k', checks, now'⟩ := now.poll (pollStep_move step.2)
      exact ⟨k', checks.steps, now'⟩

theorem follows_init (env : Env) : Follows env .init .init := by
  refine ⟨.fresh, ⟨fun i => ?_, by simp [init], by simp [init], fun a b _ stops => rfl⟩,
    .fresh rfl rfl rfl rfl rfl⟩
  constructor <;> simp [init]

/-- What both interfaces have in common: between initialisation and stop the variables, and
whoever owns the manager's mutex works on the same keys.
-/
structure Shows (s : SharedPool) (k : Keypool) : Prop where
  between
    : (∀ i, (s.callers i).pc.starts = false ∧ (s.callers i).pc.closes = false) →
        k = ⟨s.manager, s.gKeyManager, s.initCalled⟩
  owned : s.mutex ≠ none → k = ⟨s.manager.setRunning true, true, true⟩

theorem Follows.shows (now : Follows env s k) : s.Shows k := by
  obtain ⟨phase, fits, agrees⟩ := now
  refine ⟨fun quiet => ?_, fun owned => ?_⟩
  · cases agrees with
    | fresh early manager absent null start => rw [start, early, manager, null]; rfl
    | asking j | requested j | inited j =>
        have starts := (fits.callers j).starts.mp rfl
        exact absurd ((quiet j).1.symm.trans starts) Bool.false_ne_true
    | up called settled => rw [called]; exact settled.same
    | closing j =>
        have closes := (fits.callers j).closes.mp rfl
        exact absurd ((quiet j).2.symm.trans closes) Bool.false_ne_true
  · have inited := fits.owned owned
    rcases agrees.inited_cases inited (agrees.before_free fits owned) with
      ⟨settled, -⟩ | ⟨closing, -⟩
    · have running := settled.running.trans inited
      rw [settled.same, settled.points inited, KeyManager.setRunning_eq_self running]
    · exact closing.1

/-- Every step of a thread is a call of the sequential interface, or none. -/
theorem follows_simulation (env : Env) (pollCycle : Int)
    : (sharedPools env pollCycle).Simulation (serialPools env) (Follows env) where
  init s start := by
    obtain rfl := start
    exact ⟨.init, rfl, follows_init env⟩
  step before action after before' _ _ follows step := follows.step step

end SharedPool

end QKeySys.KeyPool
