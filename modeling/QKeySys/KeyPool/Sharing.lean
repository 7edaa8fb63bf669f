import QKeySys.KeyPool.Callers
import QKeySys.KeyPool.Lifecycle

/-! Who owns what in the shared key pool: the two mutexes, the initialisation and the stop each
belong to one caller, and nobody loses what it has seen of the flags.
-/

namespace QKeySys.KeyPool

open QKeySys.Library

variable {env : Env}

-----------------------------------------------------------------------------------------
-- The functions of the manager in parts
-----------------------------------------------------------------------------------------

namespace KeyManager

variable {self after : KeyManager}

/-- The manager with another flag for the polling thread. -/
def setRunning (self : KeyManager) (running : Bool) : KeyManager :=
  { self with isRunning := running }

/-- The flag for the polling thread plays no part in a request. -/
theorem checkAndRequestKeys_setRunning (running : Bool)
    (ran : checkAndRequestKeys env self = .ok after)
    : checkAndRequestKeys env (self.setRunning running) = .ok (after.setRunning running) := by
  obtain ⟨validCount, counted, rest⟩ := of_bind ran
  refine (bind_ok counted _).trans ?_
  by_cases few : validCount < self.config.validThreshold
  · obtain ⟨⟨w₁, newKeys, result⟩, asked, rest⟩ := of_bind ((if_pos few).symm.trans rest)
    refine (if_pos few).trans ((bind_ok asked _).trans ?_)
    by_cases succeeded : result = 0
    · obtain ⟨⟨w₂, list⟩, copied, rest⟩ := of_bind ((if_pos succeeded).symm.trans rest)
      obtain ⟨⟨w₃, none_left⟩, freed, rfl⟩ := of_map rest
      exact (if_pos succeeded).trans ((bind_ok copied _).trans (bind_ok freed _))
    · obtain ⟨⟨w₃, none_left⟩, freed, rfl⟩ := of_map ((if_neg succeeded).symm.trans rest)
      exact (if_neg succeeded).trans (bind_ok freed _)
  · obtain rfl := Except.ok.inj ((if_neg few).symm.trans rest)
    exact if_neg few

theorem checkLocked_setRunning (running : Bool) (ran : self.checkLocked env = .ok after)
    : (self.setRunning running).checkLocked env = .ok (after.setRunning running) := by
  obtain ⟨w₁, updated, rest⟩ := of_bind ran
  obtain ⟨⟨w₂, list⟩, deleted, asked⟩ := of_bind rest
  refine (bind_ok updated _).trans ((bind_ok deleted _).trans ?_)
  exact checkAndRequestKeys_setRunning running asked

theorem addLocked_setRunning {keyValue : CString} (running : Bool)
    (ran : self.addLocked env keyValue = .ok after)
    : (self.setRunning running).addLocked env keyValue = .ok (after.setRunning running) := by
  obtain ⟨⟨w₁, list, result⟩, stored, rest⟩ := of_bind ran
  refine (bind_ok stored _).trans ?_
  obtain ⟨key, found, rest⟩ := of_bind rest
  refine (bind_ok found _).trans ?_
  obtain ⟨memory, kept, rfl⟩ := of_map rest
  exact bind_ok kept _

theorem freeKeys_setRunning (running : Bool) (ran : self.freeKeys = .ok after)
    : (self.setRunning running).freeKeys = .ok (after.setRunning running) := by
  obtain ⟨⟨w, list⟩, freed, rfl⟩ := of_map ran
  exact bind_ok freed _

theorem addExternalKey_of_locked {keyValue : CString} (inited : self.isInited = true)
    (ran : self.addLocked env keyValue = .ok after)
    : self.addExternalKey env keyValue = .ok (true, after) := by
  rw [addExternalKey_eq_locked inited, ran]
  rfl

theorem stop_of_freeKeys (inited : self.isInited = true) (ran : self.freeKeys = .ok after)
    : self.stop = .ok { after with isRunning := false, isInited := false } := by
  obtain ⟨⟨w, list⟩, freed, rfl⟩ := of_map ran
  exact (if_neg (by simp [inited])).trans (bind_ok freed _)

theorem freeKeys_sameLife (ran : self.freeKeys = .ok after) : SameLife self after := by
  obtain ⟨⟨w, list⟩, freed, rfl⟩ := of_map ran
  exact ⟨rfl, rfl, (KeyInfoList.free_sameCalls freed).1.creations⟩

theorem firstRequest_sameLife (ran : self.firstRequest env = .ok after)
    : SameLife self after := by
  obtain ⟨w, list, rfl, requests⟩ := checkAndRequestKeys_requests ran
  exact ⟨rfl, rfl, requests.creations⟩

/-- `KeyManager_Init` when the polling thread is created. -/
theorem init_created (fresh : self.isInited = false) (ran : self.firstRequest env = .ok after)
    (created : env.creates after.world.creations = true)
    : self.init env
      = .ok (true, { after.countCreation with isRunning := true, isInited := true }) :=
  (if_neg (by simp [fresh])).trans ((bind_ok ran _).trans (if_pos created))

/-- `KeyManager_Init` when it is not. -/
theorem init_failed (fresh : self.isInited = false) (ran : self.firstRequest env = .ok after)
    (failed : env.creates after.world.creations = false) {freed : KeyManager}
    (rolledBack : (after.countCreation.setRunning false).freeKeys = .ok freed)
    : self.init env = .ok (false, freed) := by
  obtain ⟨⟨w, list⟩, gone, rfl⟩ := of_map rolledBack
  refine (if_neg (by simp [fresh])).trans ((bind_ok ran _).trans ?_)
  exact (if_neg (by simp [failed])).trans (bind_ok gone _)

theorem setRunning_eq_self {running : Bool} (same : self.isRunning = running)
    : self.setRunning running = self := by
  subst same
  rfl

end KeyManager

namespace Request

variable {self after : KeyManager}

theorem perform_setRunning (request : Request) (running : Bool)
    (ran : request.perform env self = .ok after)
    : request.perform env (self.setRunning running) = .ok (after.setRunning running) := by
  cases request with
  | update qkStr => exact KeyManager.addLocked_setRunning running ran
  | execute payload => exact KeyManager.checkLocked_setRunning running ran

/-- What is done under the mutex leaves the flags of the manager. -/
theorem perform_sameLife (request : Request) (ran : request.perform env self = .ok after)
    : KeyManager.SameLife self after := by
  cases request with
  | update qkStr => exact KeyManager.addLocked_sameLife ran
  | execute payload => exact KeyManager.checkLocked_sameLife ran

end Request

-----------------------------------------------------------------------------------------
-- Program points
-----------------------------------------------------------------------------------------

namespace CallerPc

/-- The caller owns the mutex of `keypool_init_if_needed`. -/
@[simp] def holdsInit : CallerPc → Bool
  | .recheck | .getInstance | .initTest | .initRequest | .setRunning | .createThread
  | .setInited | .clearRunning | .freeList | .dropPointer | .setCalled | .unlockInit => true
  | _ => false

/-- The caller is the one that initialises the manager. -/
@[simp] def starts : CallerPc → Bool
  | .getInstance | .initTest | .initRequest | .setRunning | .createThread | .setInited
  | .clearRunning | .freeList | .dropPointer | .setCalled => true
  | _ => false

/-- The caller owns the manager's mutex. -/
@[simp] def holdsMutex : CallerPc → Bool
  | .access | .unlock => true
  | _ => false

/-- The caller has told the polling thread to end and the manager is not stopped yet. -/
@[simp] def closes : CallerPc → Bool
  | .stopJoin | .stopFree | .stopInited => true
  | _ => false

/-- The caller has seen that the interface has asked for the manager. -/
@[simp] def knows : CallerPc → Bool
  | .unlockInit | .readPointer | .readInited | .managerInited | .lock | .access
  | .unlock => true
  | _ => false

/-- The caller has seen that the manager is initialised. -/
@[simp] def uses : CallerPc → Bool
  | .managerInited | .lock | .access | .unlock | .stopRunning => true
  | _ => false

/-- The caller is in the manager's own functions, past those of the interface. -/
@[simp] def inManager : CallerPc → Bool
  | .managerInited | .lock | .access | .unlock => true
  | _ => false

theorem holdsInit_of_starts {pc : CallerPc} (starts : pc.starts = true)
    : pc.holdsInit = true := by
  cases pc <;> simp at starts ⊢

end CallerPc

namespace PollPc

@[simp] def holdsMutex : PollPc → Bool
  | .access | .unlock => true
  | _ => false

@[simp] def uses : PollPc → Bool
  | .lock | .access | .unlock => true
  | _ => false

end PollPc

/-- Where the manager is in its life, with the caller that initialises or stops it. -/
inductive Phase where
  | fresh
  | starting (i : Nat)
  | up
  | closing (i : Nat)
  deriving DecidableEq, Repr

/-- The phase after caller `i` has come to a program point. -/
def Phase.moved (phase : Phase) (i : Nat) (pc : CallerPc) : Phase :=
  if pc.starts then .starting i
  else if pc.closes then .closing i
  else if phase = .starting i ∨ phase = .closing i then .up
  else phase

/-- The phase of another caller is not affected, when that caller has none. -/
theorem Phase.moved_starting {phase : Phase} {i j : Nat} {pc : CallerPc} (other : j ≠ i)
    (apart : pc.starts = true ∨ pc.closes = true → phase ≠ .starting j)
    : phase.moved i pc = .starting j ↔ phase = .starting j := by
  unfold Phase.moved
  split
  case isTrue starts => simp [other.symm, apart (.inl starts)]
  case isFalse =>
    split
    case isTrue closes => simp [apart (.inr closes)]
    case isFalse =>
      split
      case isTrue own => rcases own with own | own <;> simp [own, other.symm]
      case isFalse => rfl

theorem Phase.moved_closing {phase : Phase} {i j : Nat} {pc : CallerPc} (other : j ≠ i)
    (apart : phase ≠ .closing j)
    : phase.moved i pc = .closing j ↔ phase = .closing j := by
  unfold Phase.moved
  split
  case isTrue starts => simp [apart]
  case isFalse =>
    split
    case isTrue closes => simp [other.symm, apart]
    case isFalse =>
      split
      case isTrue own => simp [apart]
      case isFalse => rfl

theorem Phase.moved_starts {phase : Phase} {i : Nat} {pc : CallerPc} (starts : pc.starts = true)
    : phase.moved i pc = .starting i :=
  if_pos starts

theorem Phase.moved_same {phase : Phase} {i : Nat} {pc : CallerPc} (starts : pc.starts = false)
    (closes : pc.closes = false) (notStarting : phase ≠ .starting i)
    (notClosing : phase ≠ .closing i)
    : phase.moved i pc = phase := by
  unfold Phase.moved
  rw [starts, closes, if_neg Bool.false_ne_true, if_neg Bool.false_ne_true,
    if_neg (not_or.mpr ⟨notStarting, notClosing⟩)]

/-- Behind the initialisation and the stop the manager is up. -/
theorem Phase.moved_up {phase : Phase} {i : Nat} {pc : CallerPc} (starts : pc.starts = false)
    (closes : pc.closes = false) (own : phase = .starting i ∨ phase = .closing i)
    : phase.moved i pc = .up := by
  unfold Phase.moved
  rw [starts, closes, if_neg Bool.false_ne_true, if_neg Bool.false_ne_true, if_pos own]

namespace SharedPool

/-- A caller with the shared variables: it owns what its program point says, and what it has
seen still holds.
-/
structure Stands (s : SharedPool) (phase : Phase) (i : Nat) (c : Caller) : Prop where
  initMutex : s.initMutex = some i ↔ c.pc.holdsInit = true
  mutex : s.mutex = some (.caller i) ↔ c.pc.holdsMutex = true
  starts : phase = .starting i ↔ c.pc.starts = true
  closes : phase = .closing i ↔ c.pc.closes = true
  knows : c.pc.knows = true → s.initCalled = true
  uses : c.pc.uses = true → s.manager.isInited = true
  proper : c.pc ≠ .idle → c.pc.stops = false → c.request ≠ .update []
  plain : c.pc.inManager = true → ∀ qkStr, c.request ≠ .execute (some qkStr)

/-- All callers stand so, the polling thread too, and whoever stops the manager is alone. -/
structure Fits (s : SharedPool) (phase : Phase) : Prop where
  callers : ∀ i, s.Stands phase i (s.callers i)
  pollMutex : s.mutex = some .poll ↔ s.poll.holdsMutex = true
  pollUses : s.poll.uses = true → s.manager.isInited = true
  alone : ∀ i j, j ≠ i → (s.callers i).pc.stops = true → (s.callers j).pc = .idle

variable {s s' shared : SharedPool} {phase phase' : Phase} {i j : Nat} {c : Caller}

/-- What another caller does to the shared variables does not concern caller `j`. -/
structure Spares (s : SharedPool) (phase : Phase) (shared : SharedPool) (phase' : Phase)
    (j : Nat) : Prop where
  initMutex : shared.initMutex = some j ↔ s.initMutex = some j
  mutex : shared.mutex = some (.caller j) ↔ s.mutex = some (.caller j)
  starts : phase' = .starting j ↔ phase = .starting j
  closes : phase' = .closing j ↔ phase = .closing j
  initCalled : s.initCalled = true → shared.initCalled = true
  isInited
    : s.manager.isInited = true → shared.manager.isInited = true ∨ (s.callers j).pc = .idle

/-- A caller that is spared stands as before. -/
theorem Stands.spared (stands : s.Stands phase j (s.callers j))
    (spares : s.Spares phase shared phase' j)
    : shared.Stands phase' j (s.callers j) where
  initMutex := spares.initMutex.trans stands.initMutex
  mutex := spares.mutex.trans stands.mutex
  starts := spares.starts.trans stands.starts
  closes := spares.closes.trans stands.closes
  knows known := spares.initCalled (stands.knows known)
  uses used := by
    rcases spares.isInited (stands.uses used) with inited | idle
    · exact inited
    · simp [idle] at used
  proper := stands.proper
  plain := stands.plain

/-- How a caller stands does not depend on the other callers. -/
theorem Stands.put {c' : Caller} (stands : s.Stands phase j c)
    : (s.put i c').Stands phase j c where
  initMutex := stands.initMutex
  mutex := stands.mutex
  starts := stands.starts
  closes := stands.closes
  knows := stands.knows
  uses := stands.uses
  proper := stands.proper
  plain := stands.plain

/-- A caller that is not idle is the only one that may be stopping the manager. -/
theorem Fits.not_stops (fits : s.Fits phase) (busy : (s.callers i).pc ≠ .idle) (other : j ≠ i)
    : (s.callers j).pc.stops = false := by
  by_contra stops
  exact busy (fits.alone j i other.symm (by simpa using stops))

/-- A step of one caller that spares the others, with the caller standing well after it. -/
theorem Fits.put (fits : s.Fits phase) (callers : shared.callers = s.callers)
    (busy : (s.callers i).pc ≠ .idle) (spares : ∀ j, j ≠ i → s.Spares phase shared phase' j)
    (stands : shared.Stands phase' i c)
    (pollMutex : shared.mutex = some .poll ↔ shared.poll.holdsMutex = true)
    (pollUses : shared.poll.uses = true → shared.manager.isInited = true)
    (stops : c.pc.stops = true → (s.callers i).pc.stops = true)
    : (shared.put i c).Fits phase' where
  callers j := by
    by_cases self : j = i
    · subst self
      rw [put_callers_self]
      exact stands.put
    · rw [put_callers_ne c self, callers]
      exact ((fits.callers j).spared (spares j self)).put
  pollMutex := pollMutex
  pollUses := pollUses
  alone a b other stopping := by
    by_cases self : a = i
    · subst self
      rw [put_callers_self] at stopping
      rw [put_callers_ne c other, callers]
      exact fits.alone a b other (stops stopping)
    · rw [put_callers_ne c self, callers, fits.not_stops busy self] at stopping
      cases stopping

-----------------------------------------------------------------------------------------
-- The moves of the callers
-----------------------------------------------------------------------------------------

/-- The mover stands as its new program point says, in the phase that it brings about. -/
theorem CallerMove.stands (move : CallerMove env s i shared c)
    (stands : s.Stands phase i (s.callers i))
    (kept : (s.callers i).pc = .access → shared.manager.isInited = s.manager.isInited)
    : shared.Stands (phase.moved i c.pc) i c := by
  obtain ⟨initMutex, mutex, starts, closes, knows, uses, proper, plain⟩ := stands
  cases move with
  | silent next move =>
      cases move with
      | refused pc refused =>
          simp only [List.mem_cons, List.not_mem_nil, or_false] at pc
          rcases pc with pc | pc | pc
          all_goals
            simp [pc] at initMutex mutex starts closes knows uses proper plain
            constructor <;> simp_all [Caller.go, Phase.moved]
      | _ pc =>
          simp [pc] at initMutex mutex starts closes knows uses proper plain
          constructor <;> simp_all [Caller.go, Phase.moved, CallerPc.stops]
  | passOn qkStr pc inited request =>
      simp [pc] at initMutex mutex starts closes knows uses proper plain
      by_cases empty : qkStr = []
      · constructor <;> simp_all [Caller.ofUpdate, Phase.moved, CallerPc.stops]
      · constructor <;> simp_all [Caller.ofUpdate, Phase.moved, CallerPc.stops]
  | request manager pc | freeList manager pc | access manager pc | stopFree manager pc =>
      simp [pc] at initMutex mutex starts closes knows uses proper plain
      constructor <;> simp_all [Caller.go, Phase.moved, CallerPc.stops]
  | _ pc =>
      simp [pc] at initMutex mutex starts closes knows uses proper plain
      constructor <;> simp_all [Caller.go, Phase.moved, CallerPc.stops]

/-- Whoever owns the mutex of the initialisation is the only one to initialise. -/
theorem Fits.not_starting (fits : s.Fits phase) (holds : (s.callers i).pc.holdsInit = true)
    (other : j ≠ i)
    : phase ≠ .starting j := by
  intro starting
  have holds' := CallerPc.holdsInit_of_starts ((fits.callers j).starts.mp starting)
  have owner := (fits.callers j).initMutex.mpr holds'
  rw [(fits.callers i).initMutex.mpr holds] at owner
  exact other (Option.some.inj owner).symm

/-- Nobody stops the manager while another caller is not idle. -/
theorem Fits.not_closing (fits : s.Fits phase) (busy : (s.callers i).pc ≠ .idle)
    (other : j ≠ i)
    : phase ≠ .closing j := by
  intro closing
  have closes := (fits.callers j).closes.mp closing
  have stops := fits.not_stops busy other
  revert closes stops
  cases (s.callers j).pc <;> simp [CallerPc.stops]

/-- Nobody initialises the manager while it is stopped. -/
theorem Fits.not_starting_of_stops (fits : s.Fits phase)
    (stops : (s.callers i).pc.stops = true) (other : j ≠ i)
    : phase ≠ .starting j := by
  intro starting
  have starts := (fits.callers j).starts.mp starting
  rw [fits.alone i j other stops] at starts
  cases starts

/-- A caller that moves is not idle. -/
theorem CallerMove.busy (move : CallerMove env s i shared c) : (s.callers i).pc ≠ .idle := by
  cases move with
  | silent next move =>
      cases move with
      | refused pc =>
          intro idle
          simp [idle] at pc
      | _ pc => simp [pc]
  | request manager pc | freeList manager pc | access manager pc | stopFree manager pc
  | passOn manager pc => simp [pc]
  | _ pc => simp [pc]

/-- Only the setting and the clearing of the flag change it. -/
theorem CallerMove.isInited (move : CallerMove env s i shared c)
    : shared.manager.isInited = s.manager.isInited ∨ shared.manager.isInited = true
      ∨ (s.callers i).pc = .stopInited := by
  cases move with
  | request manager pc ran =>
      exact .inl (KeyManager.firstRequest_sameLife ran).isInited
  | freeList manager pc ran | stopFree manager pc ran =>
      exact .inl (KeyManager.freeKeys_sameLife ran).isInited
  | access manager pc ran =>
      exact .inl (Request.perform_sameLife _ ran).isInited
  | setInited pc => exact .inr (.inl rfl)
  | stopInited pc => exact .inr (.inr pc)
  | _ => exact .inl rfl

/-- Only an owner of the mutex of the initialisation initialises. -/
theorem CallerMove.starts (move : CallerMove env s i shared c) (starts : c.pc.starts = true)
    : (s.callers i).pc.holdsInit = true := by
  cases move with
  | silent next move =>
      cases move with
      | refused => cases starts
      | _ pc => simp_all [Caller.go]
  | passOn qkStr =>
      by_cases empty : qkStr = [] <;> simp [Caller.ofUpdate, empty] at starts
  | request manager pc | freeList manager pc | access manager pc | stopFree manager pc =>
      simp_all [Caller.go]
  | _ pc => simp_all [Caller.go]

/-- A caller comes to stop the manager only by `KeyManager_Stop`. -/
theorem CallerMove.stops (move : CallerMove env s i shared c) (stops : c.pc.stops = true)
    : (s.callers i).pc.stops = true := by
  cases move with
  | silent next move =>
      cases move with
      | refused => cases stops
      | _ pc => simp_all [Caller.go, CallerPc.stops]
  | passOn qkStr =>
      by_cases empty : qkStr = [] <;> simp [Caller.ofUpdate, empty, CallerPc.stops] at stops
  | request manager pc | freeList manager pc | access manager pc | stopFree manager pc =>
      simp_all [Caller.go, CallerPc.stops]
  | _ pc => simp_all [Caller.go, CallerPc.stops]

theorem CallerPc.stops_of_closes {pc : CallerPc} (closes : pc.closes = true)
    : pc.stops = true := by
  cases pc <;> simp_all [CallerPc.stops]

/-- A move spares all other callers. -/
theorem CallerMove.spares (move : CallerMove env s i shared c) (fits : s.Fits phase)
    (other : j ≠ i)
    : s.Spares phase shared (phase.moved i c.pc) j where
  initMutex := by
    cases move with
    | lockInit pc free => simp [free, other.symm]
    | unlockInit pc =>
        have owner := (fits.callers i).initMutex.mpr (by simp [pc])
        simp [owner, other.symm]
    | _ => exact Iff.rfl
  mutex := by
    cases move with
    | lock pc free => simp [free, other.symm]
    | unlock pc =>
        have owner := (fits.callers i).mutex.mpr (by simp [pc])
        simp [owner, other.symm]
    | _ => exact Iff.rfl
  starts := by
    refine Phase.moved_starting other (fun took => ?_)
    rcases took with starts | closes
    · exact fits.not_starting (move.starts starts) other
    · exact fits.not_starting_of_stops (move.stops (CallerPc.stops_of_closes closes)) other
  closes := Phase.moved_closing other (fits.not_closing move.busy other)
  initCalled := by
    cases move with
    | setCalled pc => exact fun _ => rfl
    | _ => exact id
  isInited inited := by
    rcases move.isInited with same | set | stops
    · exact .inl (same.trans inited)
    · exact .inl set
    · exact .inr (fits.alone i j other (by simp [stops, CallerPc.stops]))

/-- The polling thread is left alone, or begins. -/
theorem CallerMove.poll (move : CallerMove env s i shared c)
    : shared.poll = s.poll ∨ shared.poll = .testRunning := by
  cases move with
  | created pc => exact .inr rfl
  | _ => exact .inl rfl

/-- Every move of a caller keeps the invariant. -/
theorem Fits.move (fits : s.Fits phase) (move : CallerMove env s i shared c)
    (absent : (s.callers i).pc = .createThread → s.poll = .absent)
    (ended : (s.callers i).pc = .stopInited → s.poll.isOver = true)
    : (shared.put i c).Fits (phase.moved i c.pc) := by
  refine fits.put ?_ move.busy (fun j other => move.spares fits other) ?_ ?_ ?_ move.stops
  · cases move <;> rfl
  · refine move.stands (fits.callers i) (fun pc => ?_)
    rcases move.isInited with same | set | stops
    · exact same
    · exact set.trans ((fits.callers i).uses (by simp [pc])).symm
    · cases pc.symm.trans stops
  · cases move with
    | created pc => simp [fits.pollMutex, absent pc]
    | lock pc free =>
        have holds := fits.pollMutex
        simp only [free] at holds
        simpa using holds
    | unlock pc =>
        have holds := fits.pollMutex
        simp only [(fits.callers i).mutex.mpr (by simp [pc])] at holds
        simpa using holds
    | _ => exact fits.pollMutex
  · intro uses
    rcases move.poll with same | created
    · rw [same] at uses
      rcases move.isInited with kept | set | stops
      · exact kept.trans (fits.pollUses uses)
      · exact set
      · have gone := ended stops
        cases poll : s.poll <;> simp_all [PollPc.isOver]
    · simp [created] at uses

end SharedPool

end QKeySys.KeyPool
