import QKeySys.KeyPool.KeyValue
import QKeySys.KeyPool.Serial
import QKeySys.Library.Termination

/-! What sharing the key pool relies on: the list of keys is used by one thread at a time, no
state is a deadlock, and the stop of the manager takes a bounded number of steps.
-/

namespace QKeySys.KeyPool

open QKeySys.Library

variable {env : Env} {pollCycle : Int}

namespace SharedPool

variable {s s' : SharedPool} {phase : Phase} {i j : Nat} {k : Keypool} {a b : Accessor}

-----------------------------------------------------------------------------------------
-- The users of the list
-----------------------------------------------------------------------------------------

/-- What the next step of a thread does with the list of keys. -/
def operation (env : Env) (s : SharedPool) : Accessor → Option (Except Fault KeyManager)
  | .caller i =>
      match (s.callers i).pc with
      | .initRequest => some (s.manager.firstRequest env)
      | .freeList | .stopFree => some s.manager.freeKeys
      | .access => some ((s.callers i).request.perform env s.manager)
      | _ => none
  | .poll => if s.poll = .access then some (s.manager.checkLocked env) else none

/-- The thread uses the list in its next step. -/
def AtList (env : Env) (s : SharedPool) (a : Accessor) : Prop := (s.operation env a).isSome

theorem atList_caller
    : s.AtList env (.caller i)
      ↔ (s.callers i).pc ∈ [.initRequest, .freeList, .access, .stopFree] := by
  unfold AtList operation
  cases pc : (s.callers i).pc <;> simp [pc]

theorem atList_poll : s.AtList env .poll ↔ s.poll = .access := by
  unfold AtList operation
  split <;> simp_all

/-- At most one thread uses the list, and the list stores keys then. -/
structure Exclusive (env : Env) (s : SharedPool) : Prop where
  alone : ∀ a b, s.AtList env a → s.AtList env b → a = b
  stores : ∀ a, s.AtList env a → ∃ keys, s.manager.Stores keys

/-- A manager that is being initialised is not initialised yet. -/
theorem Agrees.fresh_of_starts (agrees : s.Agrees env k phase) (fits : s.Fits phase)
    (pc : (s.callers i).pc ∈ [.initRequest, .freeList])
    : s.manager.isInited = false := by
  simp only [List.mem_cons, List.not_mem_nil, or_false] at pc
  rcases pc with pc | pc
  · obtain ⟨-, asking, -⟩ := agrees.of_asking fits i (by simp [pc])
    rw [pc] at asking
    rw [asking.1]
    rfl
  · obtain ⟨-, -, -, m, ran, requested⟩ := agrees.of_requested fits i (by simp [pc])
    rw [pc] at requested
    rw [requested.1]
    exact (KeyManager.firstRequest_sameLife ran).isInited

/-- While a caller initialises the manager, nobody else has seen it initialised. -/
theorem Agrees.starts_alone (agrees : s.Agrees env k phase) (fits : s.Fits phase)
    (pc : (s.callers i).pc ∈ [.initRequest, .freeList]) (atList : s.AtList env b)
    : b = .caller i := by
  have fresh := agrees.fresh_of_starts fits pc
  simp only [List.mem_cons, List.not_mem_nil, or_false] at pc
  have starting := fits.starting i (by rcases pc with pc | pc <;> simp [pc])
  cases b with
  | poll =>
      have inited := fits.pollUses (by simp [atList_poll.mp atList])
      exact absurd (fresh.symm.trans inited) Bool.false_ne_true
  | caller j =>
      have pc' := atList_caller.mp atList
      simp only [List.mem_cons, List.not_mem_nil, or_false] at pc'
      rcases pc' with pc' | pc' | pc' | pc'
      · have starting' := fits.starting j (by simp [pc'])
        cases starting.symm.trans starting'
        rfl
      · have starting' := fits.starting j (by simp [pc'])
        cases starting.symm.trans starting'
        rfl
      · have inited := (fits.callers j).uses (by simp [pc'])
        exact absurd (fresh.symm.trans inited) Bool.false_ne_true
      · have closing := (fits.callers j).closes.mpr (by simp [pc'])
        cases starting.symm.trans closing

/-- While a caller frees the list to stop the manager, all others are idle and the polling
thread has ended.
-/
theorem Agrees.stop_alone (agrees : s.Agrees env k phase) (fits : s.Fits phase)
    (pc : (s.callers i).pc = .stopFree) (atList : s.AtList env b)
    : b = .caller i := by
  cases b with
  | poll =>
      obtain ⟨-, closing⟩ := agrees.of_closing fits i (by simp [pc])
      rw [pc] at closing
      have ended := closing.2.2.2.2
      rw [atList_poll.mp atList] at ended
      cases ended
  | caller j =>
      by_cases self : j = i
      · rw [self]
      · have pc' := atList_caller.mp atList
        rw [fits.alone i j self (by simp [pc, CallerPc.stops])] at pc'
        simp at pc'

/-- The users of the list exclude each other: by the manager's mutex, by the phase of the
initialisation, or because the stop is alone.
-/
theorem Follows.alone (now : Follows env s k) (atList : s.AtList env a)
    (atList' : s.AtList env b)
    : a = b := by
  obtain ⟨phase, fits, agrees⟩ := now
  have owner {a : Accessor} (atList : s.AtList env a)
      : s.mutex = some a ∨ ∃ i, a = .caller i ∧ ∀ b, s.AtList env b → b = .caller i := by
    cases a with
    | poll => exact .inl (fits.pollMutex.mpr (by simp [atList_poll.mp atList]))
    | caller i =>
        have pc := atList_caller.mp atList
        simp only [List.mem_cons, List.not_mem_nil, or_false] at pc
        rcases pc with pc | pc | pc | pc
        · exact .inr ⟨i, rfl, fun b => agrees.starts_alone fits (by simp [pc])⟩
        · exact .inr ⟨i, rfl, fun b => agrees.starts_alone fits (by simp [pc])⟩
        · exact .inl ((fits.callers i).mutex.mpr (by simp [pc]))
        · exact .inr ⟨i, rfl, fun b => agrees.stop_alone fits pc⟩
  rcases owner atList with owned | ⟨i, rfl, only⟩
  · rcases owner atList' with owned' | ⟨j, rfl, only⟩
    · exact Option.some.inj (owned.symm.trans owned')
    · exact only a atList
  · exact (only b atList').symm

/-- The list stores keys whenever a thread uses it: it is the one of the sequential interface,
or that of a manager that is being initialised.
-/
theorem Follows.stores (now : Follows env s k) (reached : (serialPools env).Reachable k)
    (atList : s.AtList env a)
    : ∃ keys, s.manager.Stores keys := by
  have stored : ∃ keys, k.manager.Stores keys :=
    (calls_stores env).reachable (manager_reachable reached.of_restrict)
  have shown := now.shows
  obtain ⟨phase, fits, agrees⟩ := now
  have owned (owned : s.mutex ≠ none) : ∃ keys, s.manager.Stores keys := by
    rw [shown.owned owned] at stored
    exact stored
  cases a with
  | poll =>
      exact owned (by rw [fits.pollMutex.mpr (by simp [atList_poll.mp atList])]; simp)
  | caller i =>
      have pc := atList_caller.mp atList
      simp only [List.mem_cons, List.not_mem_nil, or_false] at pc
      rcases pc with pc | pc | pc | pc
      · obtain ⟨-, asking, -⟩ := agrees.of_asking fits i (by simp [pc])
        rw [pc] at asking
        rw [asking.1]
        exact ⟨[], .inl (KeyInfoList.init_represents _)⟩
      · obtain ⟨-, -, -, m, ran, requested⟩ := agrees.of_requested fits i (by simp [pc])
        rw [pc] at requested
        rw [requested.1]
        obtain ⟨w, list, added, ran', -, -, represents, -⟩ :=
          KeyManager.checkAndRequestKeys_spec env
            { KeyManager.initInstance with config := env.defaultConfig }
            (KeyInfoList.init_represents _)
        obtain rfl := Except.ok.inj (ran'.symm.trans ran)
        exact ⟨_, .inl represents⟩
      · exact owned (by rw [(fits.callers i).mutex.mpr (by simp [pc])]; simp)
      · obtain ⟨-, closing⟩ := agrees.of_closing fits i (by simp [pc])
        rw [pc] at closing
        rw [closing.1] at stored
        exact stored

-----------------------------------------------------------------------------------------
-- Progress
-----------------------------------------------------------------------------------------

/-- The thread has something to do. -/
def Busy (s : SharedPool) : Accessor → Prop
  | .caller i => (s.callers i).pc ≠ .idle
  | .poll => s.poll.isOver = false

/-- The thread waits for a mutex or for the end of the polling thread. -/
def Waits (s : SharedPool) : Accessor → Prop
  | .caller i =>
      (s.callers i).pc = .lockInit ∧ s.initMutex ≠ none
        ∨ (s.callers i).pc = .lock ∧ s.mutex ≠ none
        ∨ (s.callers i).pc = .stopJoin ∧ s.poll.isOver = false
  | .poll => s.poll = .lock ∧ s.mutex ≠ none

/-- The thread's use of the list runs into a fault. -/
def Faults (env : Env) (s : SharedPool) (a : Accessor) : Prop :=
  ∃ fault, s.operation env a = some (.error fault)

end SharedPool

/-- The step of a thread. -/
def Accessor.action : Accessor → SharedAction
  | .caller i => .caller i
  | .poll => .poll

namespace SharedPool

variable {s s' : SharedPool} {phase : Phase} {i j : Nat} {k : Keypool} {a b : Accessor}

/-- Some thread does not wait when one has something to do: the owner of a mutex, or the
polling thread that a stop waits for.
-/
theorem Fits.not_waits (fits : s.Fits phase) (busy : s.Busy a)
    : ∃ b, s.Busy b ∧ ¬ s.Waits b := by
  cases owned : s.mutex with
  | some owner =>
      refine ⟨owner, ?_⟩
      cases owner with
      | caller i =>
          have holds := (fits.callers i).mutex.mp owned
          unfold Busy Waits
          cases pc : (s.callers i).pc <;> simp_all
      | poll =>
          have holds := fits.pollMutex.mp owned
          unfold Busy Waits
          cases pc : s.poll <;> simp_all [PollPc.isOver]
  | none =>
      cases owned' : s.initMutex with
      | some i =>
          have holds := (fits.callers i).initMutex.mp owned'
          refine ⟨.caller i, ?_⟩
          unfold Busy Waits
          cases pc : (s.callers i).pc <;> simp_all
      | none =>
          by_cases runs : s.poll.isOver = true
          · exact ⟨a, busy, by cases a <;> simp [Waits, owned, owned', runs]⟩
          · exact ⟨.poll, by simpa [Busy] using runs, by simp [Waits, owned]⟩

/-- A busy thread that does not wait takes a step or runs into a fault. -/
theorem step_of_not_waits (env : Env) (pollCycle : Int) (busy : s.Busy a)
    (ready : ¬ s.Waits a)
    : s.Faults env a ∨ ∃ s', s.step env pollCycle a.action = some s' := by
  have used (ran : Except Fault KeyManager) (used : s.operation env a = some ran)
      : s.Faults env a ∨ ∃ manager, ran.toOption = some manager := by
    cases ran with
    | error fault => exact .inl ⟨fault, used⟩
    | ok manager => exact .inr ⟨manager, rfl⟩
  cases a with
  | caller i =>
      simp only [Accessor.action, step, callerStep]
      cases pc : (s.callers i).pc with
      | idle => exact absurd pc busy
      | lockInit =>
          have free : s.initMutex = none := by
            by_contra owned
            exact ready (.inl ⟨pc, owned⟩)
          exact .inr ⟨_, by rw [free]⟩
      | lock =>
          have free : s.mutex = none := by
            by_contra owned
            exact ready (.inr (.inl ⟨pc, owned⟩))
          exact .inr ⟨_, by rw [free]⟩
      | stopJoin =>
          have ended : s.poll.isOver = true := by
            by_contra runs
            exact ready (.inr (.inr ⟨pc, by simpa using runs⟩))
          exact .inr ⟨_, if_pos ended⟩
      | initRequest | freeList | access | stopFree =>
          refine (used _ (by simp only [operation, pc]; rfl)).imp_right ?_
          rintro ⟨manager, ran⟩
          exact ⟨_, by rw [ran]; rfl⟩
      | createThread =>
          right
          dsimp only
          split <;> exact ⟨_, rfl⟩
      | readInited =>
          right
          dsimp only
          split
          · split <;> exact ⟨_, rfl⟩
          · exact ⟨_, rfl⟩
      | _ => exact .inr ⟨_, rfl⟩
  | poll =>
      simp only [Accessor.action, step, pollStep]
      cases pc : s.poll with
      | absent | ended => simp [Busy, pc, PollPc.isOver] at busy
      | lock =>
          have free : s.mutex = none := by
            by_contra owned
            exact ready ⟨pc, owned⟩
          exact .inr ⟨_, by rw [free]⟩
      | access =>
          refine (used _ (if_pos pc)).imp_right ?_
          rintro ⟨manager, ran⟩
          exact ⟨_, by rw [ran]; rfl⟩
      | _ => exact .inr ⟨_, rfl⟩

/-- Unless nothing is left to do, some thread takes a step or runs into a fault. -/
def NeverStuck (env : Env) (pollCycle : Int) (s : SharedPool) : Prop :=
  ∀ a, s.Busy a → ∃ b, s.Busy b
    ∧ (s.Faults env b ∨ ∃ s', (sharedPools env pollCycle).next s b.action s')

theorem Fits.neverStuck (fits : s.Fits phase) (env : Env) (pollCycle : Int)
    : s.NeverStuck env pollCycle := by
  intro a busy
  obtain ⟨b, busy', ready⟩ := fits.not_waits busy
  refine ⟨b, busy', (step_of_not_waits env pollCycle busy' ready).imp_right ?_⟩
  rintro ⟨s', step⟩
  refine ⟨s', ?_, step⟩
  cases b <;> trivial

-----------------------------------------------------------------------------------------
-- The stop
-----------------------------------------------------------------------------------------

end SharedPool

/-- The steps that the polling thread still takes once it is told to end. -/
def PollPc.stepsLeft : PollPc → Nat
  | .absent | .ended => 0
  | .testRunning => 1
  | .unlock => 2
  | .access => 3
  | .lock => 4
  | .checkInited => 5
  | .nap _ => 6

/-- The steps that the caller still takes in `KeyManager_Stop`. -/
def CallerPc.stepsLeft : CallerPc → Nat
  | .stopJoin => 3
  | .stopFree => 2
  | .stopInited => 1
  | _ => 0

/-- The runs in which caller `i` has told the polling thread to end and still stops the
manager.
-/
def stoppings (env : Env) (pollCycle : Int) (i : Nat) : Lts SharedPool SharedAction :=
  (sharedPools env pollCycle).restrict (fun s _ => (s.callers i).pc.closes = true)

namespace SharedPool

variable {s s' : SharedPool} {phase : Phase} {i j : Nat} {k : Keypool} {a b : Accessor}

def stepsLeft (i : Nat) (s : SharedPool) : Nat :=
  (s.callers i).pc.stepsLeft + s.poll.stepsLeft

/-- During the stop the polling thread is told to end. -/
theorem Agrees.told (agrees : s.Agrees env k phase) (fits : s.Fits phase)
    (closes : (s.callers i).pc.closes = true)
    : s.manager.isRunning = false := by
  obtain ⟨-, closing⟩ := agrees.of_closing fits i closes
  revert closing
  cases (s.callers i).pc with
  | stopJoin => exact fun now => now.2.2.2
  | stopFree => exact fun now => now.2.2.2.1
  | stopInited => exact fun now => now.running
  | _ => exact False.elim

/-- A step of the polling thread brings it closer to its end, once it is told to end. -/
theorem PollMove.lowers (move : PollMove env pollCycle s s')
    (told : s.manager.isRunning = false)
    : s'.poll.stepsLeft < s.poll.stepsLeft ∧ s'.callers = s.callers := by
  cases move with
  | goes pc running | sleeps n pc less running => cases told.symm.trans running
  | ends pc | asks pc | skips pc | lock pc | unlock pc | wakes n pc | access manager pc =>
      simp [pc, PollPc.stepsLeft]

/-- A step of the caller that stops the manager brings it closer to its end. -/
theorem CallerMove.lowers {shared : SharedPool} {c : Caller}
    (move : CallerMove env s i shared c) (closes : (s.callers i).pc.closes = true)
    : c.pc.stepsLeft < (s.callers i).pc.stepsLeft ∧ shared.poll = s.poll := by
  cases move with
  | silent next move =>
      cases move with
      | refused pc =>
          simp only [List.mem_cons, List.not_mem_nil, or_false] at pc
          rcases pc with pc | pc | pc <;> simp [pc] at closes
      | _ pc => simp_all [Caller.go, CallerPc.stepsLeft]
  | request manager pc | freeList manager pc | access manager pc | stopFree manager pc
  | passOn manager pc => simp_all [Caller.go, CallerPc.stepsLeft]
  | _ pc => simp_all [Caller.go, CallerPc.stepsLeft]

/-- During the stop only its caller and the polling thread take steps. -/
theorem Fits.stopping_moves (fits : s.Fits phase) {action : SharedAction}
    (step : (stoppings env pollCycle i).next s action s')
    : (∃ shared c, CallerMove env s i shared c ∧ s' = shared.put i c)
      ∨ PollMove env pollCycle s s' := by
  obtain ⟨closes, allowed, step⟩ := step
  have stops := CallerPc.stops_of_closes closes
  have busy : (s.callers i).pc ≠ .idle := fun idle => by simp [idle] at closes
  cases action with
  | call j request =>
      obtain ⟨free, -⟩ := Option.ite_none_right_eq_some.mp step
      have other : i ≠ j := fun same => busy (same ▸ free)
      exact absurd ((allowed i other).symm.trans stops) Bool.false_ne_true
  | stop j =>
      obtain ⟨free, -⟩ := Option.ite_none_right_eq_some.mp step
      have other : i ≠ j := fun same => busy (same ▸ free)
      exact absurd (allowed i other) busy
  | caller j =>
      obtain ⟨shared, c, move, same⟩ := callerStep_move step
      by_cases self : j = i
      · subst self
        exact .inl ⟨shared, c, move, same⟩
      · exact absurd (fits.alone i j self stops) move.busy
  | poll => exact .inr (pollStep_move step)

/-- Each of these steps brings the end closer. -/
theorem Follows.lowers (now : Follows env s k) {action : SharedAction}
    (step : (stoppings env pollCycle i).next s action s')
    : s'.stepsLeft i < s.stepsLeft i := by
  obtain ⟨phase, fits, agrees⟩ := now
  have closes := step.1
  unfold stepsLeft
  rcases fits.stopping_moves step with ⟨shared, c, move, rfl⟩ | move
  · obtain ⟨less, same⟩ := move.lowers closes
    rw [put_callers_self]
    exact Nat.add_lt_add_of_lt_of_le less (Nat.le_of_eq (congrArg _ same))
  · obtain ⟨less, same⟩ := move.lowers (agrees.told fits closes)
    rw [same]
    exact Nat.add_lt_add_left less _

/-- The manager is stopped: the caller has returned and no polling thread runs. -/
def Stopped (i : Nat) (s : SharedPool) : Prop :=
  (s.callers i).pc = .idle ∧ s.manager.isInited = false ∧ s.poll.isOver = true

/-- The last step of the caller leaves the manager stopped. -/
theorem Agrees.stopped {shared : SharedPool} {c : Caller} (agrees : s.Agrees env k phase)
    (fits : s.Fits phase) (move : CallerMove env s i shared c)
    (closes : (s.callers i).pc.closes = true)
    : c.pc.closes = true ∨ Stopped i (shared.put i c) := by
  unfold Stopped
  rw [put_callers_self]
  cases move with
  | silent next move =>
      cases move with
      | refused pc =>
          simp only [List.mem_cons, List.not_mem_nil, or_false] at pc
          rcases pc with pc | pc | pc <;> simp [pc] at closes
      | joined pc => exact .inl rfl
      | _ pc => simp [pc] at closes
  | stopFree manager pc => exact .inl rfl
  | stopInited pc =>
      obtain ⟨-, closing⟩ := agrees.of_closing fits i closes
      rw [pc] at closing
      exact .inr ⟨rfl, rfl, closing.ended rfl⟩
  | request manager pc | freeList manager pc | access manager pc | passOn manager pc =>
      simp [pc] at closes
  | _ pc => simp [pc] at closes

theorem Follows.stopping (now : Follows env s k) {action : SharedAction}
    (step : (stoppings env pollCycle i).next s action s')
    : (s'.callers i).pc.closes = true ∨ s'.Stopped i := by
  obtain ⟨phase, fits, agrees⟩ := now
  have closes := step.1
  rcases fits.stopping_moves step with ⟨shared, c, move, rfl⟩ | move
  · have left := agrees.stopped fits move closes
    rw [put_callers_self]
    exact left
  · rw [(move.lowers (agrees.told fits closes)).2]
    exact .inl closes

/-- Every run of the stop takes at most nine steps of all threads together, and one of them
ends with the manager stopped or in a fault.
-/
structure StopEnds (env : Env) (pollCycle : Int) (i : Nat) (s : SharedPool) : Prop where
  bounded
    : ∀ n s', (stoppings env pollCycle i).Counted (fun _ => True) n s s' → n ≤ 9
  ends
    : ∃ s', (stoppings env pollCycle i).Steps s s'
        ∧ (s'.Stopped i ∨ ∃ a, s'.Faults env a)

theorem stepsLeft_le (i : Nat) (s : SharedPool) : s.stepsLeft i ≤ 9 := by
  have caller : (s.callers i).pc.stepsLeft ≤ 3 := by
    cases (s.callers i).pc <;> simp [CallerPc.stepsLeft]
  have poll : s.poll.stepsLeft ≤ 6 := by
    cases s.poll <;> simp [PollPc.stepsLeft]
  exact Nat.add_le_add caller poll

end SharedPool

open SharedPool

/-- The steps left are a ranking of the stop, with every step counted. -/
theorem stoppings_ranking (env : Env) (pollCycle : Int) (i : Nat)
    : (stoppings env pollCycle i).Ranking (fun _ => True)
        (fun s => (∃ k, Follows env s k) ∧ ((s.callers i).pc.closes = true ∨ s.Stopped i))
        (stepsLeft i) where
  stays before label after now step := by
    obtain ⟨⟨k, follows⟩, -⟩ := now
    obtain ⟨k', -, follows'⟩ := follows.step step.2
    exact ⟨⟨k', follows'⟩, follows.stopping step⟩
  lowers before label after now step _ := by
    obtain ⟨⟨k, follows⟩, -⟩ := now
    exact follows.lowers step
  keeps before label after now step free := absurd trivial free

/-- A stop that has begun can end, with the manager stopped or in a fault. -/
theorem SharedPool.Follows.stop_reaches {s : SharedPool} {k : Keypool}
    (follows : Follows env s k) (pollCycle : Int) {i : Nat}
    (closes : (s.callers i).pc.closes = true)
    : ∃ s', (stoppings env pollCycle i).Steps s s'
        ∧ (s'.Stopped i ∨ ∃ a, s'.Faults env a) := by
  refine (stoppings_ranking env pollCycle i).reaches (fun s' now going => ?_)
    ⟨⟨k, follows⟩, .inl closes⟩
  obtain ⟨goesOn, nofault⟩ := not_or.mp going
  obtain ⟨⟨k', phase, fits, -⟩, closes | stopped⟩ := now
  · have busy : s'.Busy (.caller i) := fun idle => by simp [idle] at closes
    obtain ⟨b, -, fault | ⟨s'', step⟩⟩ := fits.neverStuck env pollCycle _ busy
    · exact absurd ⟨b, fault⟩ nofault
    · exact ⟨b.action, s'', trivial, closes, step⟩
  · exact absurd stopped goesOn

-----------------------------------------------------------------------------------------
-- One caller
-----------------------------------------------------------------------------------------

/-- The actions of the first caller and of the polling thread. -/
def SharedAction.ofFirst : SharedAction → Bool
  | .call i _ | .stop i | .caller i => i = 0
  | .poll => true

/-- The first caller may do everything while the others are idle, and leaves them idle. -/
theorem SharedPool.step_ofFirst (s : SharedPool) (action : SharedAction) (s' : SharedPool)
    (idle : ∀ j, j ≠ 0 → (s.callers j).pc = .idle) (first : action.ofFirst = true)
    (step : s.step env pollCycle action = some s')
    : s.stopsAlone action ∧ ∀ j, j ≠ 0 → (s'.callers j).pc = .idle := by
  cases action with
  | call i request =>
      obtain rfl : i = 0 := by simpa [SharedAction.ofFirst] using first
      obtain ⟨-, step⟩ := Option.ite_none_right_eq_some.mp step
      refine ⟨fun j other => by rw [idle j other]; rfl, fun j other => ?_⟩
      cases request with
      | update qkStr | execute payload =>
          cases step
          rw [put_callers_ne _ other]
          exact idle j other
  | stop i =>
      obtain rfl : i = 0 := by simpa [SharedAction.ofFirst] using first
      obtain ⟨-, step⟩ := Option.ite_none_right_eq_some.mp step
      refine ⟨idle, fun j other => ?_⟩
      cases step
      rw [goto, put_callers_ne _ other]
      exact idle j other
  | caller i =>
      obtain rfl : i = 0 := by simpa [SharedAction.ofFirst] using first
      obtain ⟨shared, c, move, rfl⟩ := callerStep_move step
      refine ⟨trivial, fun j other => ?_⟩
      rw [put_callers_ne _ other]
      have same : shared.callers = s.callers := by cases move <;> rfl
      rw [same]
      exact idle j other
  | poll =>
      have same : s'.callers = s.callers := by cases pollStep_move step <;> rfl
      exact ⟨trivial, by rw [same]; exact idle⟩

/-- What the first caller does up to some point is reachable. -/
theorem ofFirst_reachable {actions : List SharedAction}
    (first : actions.all SharedAction.ofFirst = true)
    (ran : (Lts.execute (SharedPool.step env pollCycle) .init actions).isSome)
    : (sharedPools env pollCycle).Reachable (Option.get _ ran) :=
  ⟨.init, rfl, Lts.execute_steps_within SharedPool.step_ofFirst (fun _ _ => rfl) first
    (Option.some_get ran).symm⟩

/-- The first caller initialises the manager and comes to check the keys. -/
def checkActions : List SharedAction :=
  .call 0 (.execute none) :: List.replicate 15 (.caller 0)

/-- It checks them, the polling thread naps, and the caller begins to stop the manager. -/
def stopActions : List SharedAction :=
  checkActions ++ [.caller 0, .caller 0, .poll, .stop 0, .caller 0, .caller 0]

theorem stopActions_run
    : (Lts.execute (SharedPool.step standstill 18) .init stopActions).isSome := by
  decide +kernel

def stopping : SharedPool := Option.get _ stopActions_run

-----------------------------------------------------------------------------------------
-- All interleavings
-----------------------------------------------------------------------------------------

variable {s : SharedPool}

/-- No interleaving with a lone stop is stuck. -/
theorem sharedPools_neverStuck (reached : (sharedPools env pollCycle).Reachable s)
    : s.NeverStuck env pollCycle := by
  obtain ⟨k, -, phase, fits, -⟩ := (follows_simulation env pollCycle).reachable reached
  exact fits.neverStuck env pollCycle

theorem stopping_neverStuck
    : stopping.NeverStuck standstill 18 ∧ stopping.Waits (.caller 0) :=
  ⟨sharedPools_neverStuck (ofFirst_reachable (by decide) stopActions_run),
    .inr (.inr (by decide +kernel))⟩

/-- In every interleaving a lone stop ends, once it has told the polling thread to end. -/
theorem sharedPools_stopEnds (reached : (sharedPools env pollCycle).Reachable s) {i : Nat}
    (closes : (s.callers i).pc.closes = true)
    : s.StopEnds env pollCycle i := by
  obtain ⟨k, -, follows⟩ := (follows_simulation env pollCycle).reachable reached
  refine ⟨fun n s' path => ?_, follows.stop_reaches pollCycle closes⟩
  have bounds := (stoppings_ranking env pollCycle i).bounds ⟨⟨k, follows⟩, .inl closes⟩ path
  have most := stepsLeft_le i s
  omega

theorem stopping_ends : stopping.StopEnds standstill 18 0 :=
  sharedPools_stopEnds (ofFirst_reachable (by decide) stopActions_run) (by decide +kernel)

end QKeySys.KeyPool
