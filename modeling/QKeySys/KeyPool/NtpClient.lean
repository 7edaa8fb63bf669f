import QKeySys.KeyPool.StandingClock

/-! The clock of the key pool: a simulated time that is taken from the system once and moves
only when it is told to. With the functions that move it left alone, as the program leaves them,
no key ever runs out.
-/

namespace QKeySys.KeyPool

open QKeySys.Library

-----------------------------------------------------------------------------------------
-- The client
-----------------------------------------------------------------------------------------

/-- The static variables of `NTPClient.c`. `times` counts the calls of `time`. -/
structure NtpClient where
  simulateTimeSync : Bool
  simulatedTime : Int
  times : Nat
  deriving DecidableEq, Repr

namespace NtpClient

def init : NtpClient where
  simulateTimeSync := true
  simulatedTime := 0
  times := 0

/-- `time(NULL)`: `system` gives the result of every call. -/
def time (system : Nat → Int) (c : NtpClient) : Int × NtpClient :=
  (system c.times, { c with times := c.times + 1 })

/-- `NTPClient_InitSimulatedTime` -/
def initSimulatedTime (system : Nat → Int) (c : NtpClient) : NtpClient :=
  if c.simulatedTime = 0 then
    let (now, c) := c.time system
    { c with simulatedTime := now }
  else
    c

/-- `NTPClient_GetCurrentTime` -/
def getCurrentTime (system : Nat → Int) (c : NtpClient) : Int × NtpClient :=
  let c := c.initSimulatedTime system
  if c.simulateTimeSync then (c.simulatedTime, c) else c.time system

/-- `NTPClient_CheckTimeSync` -/
def checkTimeSync (c : NtpClient) (maxDiff : Int) : Bool :=
  if maxDiff ≤ 0 then false
  else if c.simulateTimeSync then true
  else false

/-- `NTPClient_SyncTime` -/
def syncTime (system : Nat → Int) (c : NtpClient) : Bool × NtpClient :=
  let (now, c) := c.time system
  (true, { c with simulatedTime := now, simulateTimeSync := true })

/-- `NTPClient_SetSimulateTimeSync` -/
def setSimulateTimeSync (c : NtpClient) (isSync : Bool) : NtpClient :=
  { c with simulateTimeSync := isSync }

/-- `NTPClient_ResetSimulatedTime` -/
def resetSimulatedTime (c : NtpClient) : NtpClient :=
  { c with simulatedTime := 0, simulateTimeSync := true }

/-- `NTPClient_AdvanceSimulatedTime` -/
def advanceSimulatedTime (system : Nat → Int) (c : NtpClient) (seconds : Int) : NtpClient :=
  if seconds ≤ 0 then
    c
  else
    let c := c.initSimulatedTime system
    { c with simulatedTime := int64 (c.simulatedTime + seconds) }

end NtpClient

/-- The calls of the client's functions. -/
inductive NtpCall where
  | getCurrentTime
  | checkTimeSync (maxDiff : Int)
  | syncTime
  | setSimulateTimeSync (isSync : Bool)
  | resetSimulatedTime
  | advanceSimulatedTime (seconds : Int)
  deriving DecidableEq, Repr

/-- The state after a call. -/
def NtpClient.call (system : Nat → Int) (c : NtpClient) : NtpCall → NtpClient
  | .getCurrentTime => (c.getCurrentTime system).2
  | .checkTimeSync _ => c
  | .syncTime => (c.syncTime system).2
  | .setSimulateTimeSync isSync => c.setSimulateTimeSync isSync
  | .resetSimulatedTime => c.resetSimulatedTime
  | .advanceSimulatedTime seconds => c.advanceSimulatedTime system seconds

-----------------------------------------------------------------------------------------
-- The manager with its clock
-----------------------------------------------------------------------------------------

/-- The client after so many more readings. -/
def NtpClient.after (system : Nat → Int) (c : NtpClient) : Nat → NtpClient
  | 0 => c
  | n + 1 => ((c.after system n).getCurrentTime system).2

/-- What a manager that has read the clock `start` times reads from now on. -/
def NtpClient.clock (system : Nat → Int) (c : NtpClient) (start n : Nat) : Int :=
  ((c.after system (n - start)).getCurrentTime system).1

/-- The manager and the client that it reads the time from. -/
structure Clocked where
  client : NtpClient
  manager : KeyManager

/-- The calls of the manager and of the client. -/
inductive ClockedCall where
  | manager (call : Call)
  | client (call : NtpCall)
  deriving DecidableEq, Repr

namespace Clocked

def init : Clocked := ⟨.init, .initInstance⟩

/-- The manager's environment, with the clock of the client. -/
def reads (env : Env) (system : Nat → Int) (s : Clocked) : Env :=
  { env with clock := s.client.clock system s.manager.world.readings }

/-- The state after a call, or the fault that the call runs into. -/
def call (env : Env) (system : Nat → Int) (s : Clocked)
    : ClockedCall → Except Fault Clocked
  | .manager call =>
      (s.manager.call (s.reads env system) call).map (fun manager => {
        client := s.client.after system (manager.world.readings - s.manager.world.readings)
        manager := manager })
  | .client call => .ok { s with client := s.client.call system call }

end Clocked

/-- Nothing moves the simulated time, and no key is marked as deleted for a test. -/
def ClockedCall.inProgram : ClockedCall → Bool
  | .manager call => call.marksNone
  | .client .getCurrentTime | .client (.checkTimeSync _) => true
  | .client _ => false

/-- All sequences of such calls that run into no fault. -/
def clockedPools (env : Env) (system : Nat → Int) : Lts Clocked ClockedCall where
  init s := s = .init
  next s call s' := call.inProgram = true ∧ s.call env system call = .ok s'

-----------------------------------------------------------------------------------------
-- The clock stands still
-----------------------------------------------------------------------------------------

variable {env : Env} {system : Nat → Int} {c : NtpClient} {s : Clocked}

namespace NtpClient

/-- The client simulates the time, and has either not looked at the system or taken over its
first time.
-/
structure Untouched (system : Nat → Int) (c : NtpClient) : Prop where
  simulates : c.simulateTimeSync = true
  taken : c.simulatedTime = 0 ∧ c.times = 0 ∨ c.simulatedTime = system 0

/-- A reading gives the first time of the system, whatever the system shows now. -/
theorem Untouched.getCurrentTime (now : c.Untouched system) (started : system 0 ≠ 0)
    : (c.getCurrentTime system).1 = system 0
      ∧ Untouched system (c.getCurrentTime system).2 := by
  have simulates := now.simulates
  have ready : (c.initSimulatedTime system).simulateTimeSync = true
      ∧ (c.initSimulatedTime system).simulatedTime = system 0 := by
    unfold initSimulatedTime
    rcases now.taken with ⟨unset, first⟩ | set
    · rw [if_pos unset]
      exact ⟨simulates, congrArg system first⟩
    · rw [if_neg (set ▸ started)]
      exact ⟨simulates, set⟩
  unfold NtpClient.getCurrentTime
  rw [if_pos ready.1]
  exact ⟨ready.2, ready.1, .inr ready.2⟩

theorem Untouched.after (now : c.Untouched system) (started : system 0 ≠ 0) (n : Nat)
    : Untouched system (c.after system n) := by
  induction n with
  | zero => exact now
  | succ n ih => exact (ih.getCurrentTime started).2

theorem Untouched.clock (now : c.Untouched system) (started : system 0 ≠ 0) (start n : Nat)
    : c.clock system start n = system 0 :=
  ((now.after started (n - start)).getCurrentTime started).1

end NtpClient

/-- A manager of the program: its client is untouched and its keys last. -/
def Clocked.Inert (env : Env) (system : Nat → Int) (s : Clocked) : Prop :=
  s.client.Untouched system ∧ ∃ keys, Lasting env.defaultConfig (system 0) s.manager keys

/-- For the manager the clock stands at the first time of the system, and its keys last. -/
theorem Clocked.call_lasts (untouched : s.client.Untouched system) (started : system 0 ≠ 0)
    (unexpired : system 0 < int64 (system 0 + env.defaultConfig.keyValidity))
    {keys : List KeyInfo} (lasting : Lasting env.defaultConfig (system 0) s.manager keys)
    {call : Call} (marks : call.marksNone = true)
    : (∃ after keys', s.manager.call (s.reads env system) call = .ok after
        ∧ Lasting env.defaultConfig (system 0) after keys'
        ∧ (call.empties = false → keys <+: keys'))
      ∨ (s.manager.localKeys.room s.manager.world).takes env = false ∧ keys = []
        ∧ s.manager.call (s.reads env system) call = .error .outside
        ∧ ∃ keyValue, call = .addExternalKey keyValue := by
  have standing : StandsAt (s.reads env system) (system 0) :=
    ⟨fun n => untouched.clock started _ n, unexpired⟩
  have lasting : Lasting (s.reads env system).defaultConfig (system 0) s.manager keys := lasting
  exact lasting.call standing marks

/-- No call of the program moves the clock or lets a key run out. -/
theorem clockedPools_inert (started : system 0 ≠ 0)
    (unexpired : system 0 < int64 (system 0 + env.defaultConfig.keyValidity))
    : (clockedPools env system).Invariant (Clocked.Inert env system) where
  init s start := by
    obtain rfl := start
    exact ⟨⟨rfl, .inl ⟨rfl, rfl⟩⟩, [], .start _ _⟩
  step s call s' now step := by
    obtain ⟨untouched, keys, lasting⟩ := now
    obtain ⟨program, ran⟩ := step
    cases call with
    | manager call =>
        obtain ⟨after, called, rfl⟩ := of_map ran
        refine ⟨untouched.after started _, ?_⟩
        rcases Clocked.call_lasts untouched started unexpired lasting program with
          ⟨after', keys', called', lasting', -⟩ | ⟨-, -, failed, -⟩
        · cases called.symm.trans called'
          exact ⟨keys', lasting'⟩
        · cases called.symm.trans failed
    | client call =>
        obtain rfl := Except.ok.inj ran
        cases call with
        | getCurrentTime => exact ⟨(untouched.getCurrentTime started).2, keys, lasting⟩
        | checkTimeSync => exact ⟨untouched, keys, lasting⟩
        | _ => cases program

/-- In every run of the program, however the time of the system goes on, the key list is intact
and all its keys are valid; every call succeeds and only appends keys or gives them back, unless
it adds a key to an empty list for which there is no memory.
-/
theorem clockedPools_neverExpire (env : Env) (system : Nat → Int) (s : Clocked)
    (started : system 0 ≠ 0)
    (unexpired : system 0 < int64 (system 0 + env.defaultConfig.keyValidity))
    (reached : (clockedPools env system).Reachable s)
    : ∃ keys, s.manager.localKeys.Represents s.manager.world.memory keys
        ∧ (∀ key ∈ keys, key.status = .valid ∧ key.createTs = system 0)
        ∧ ∀ call : Call, call.marksNone = true →
            (∃ s' keys', s.call env system (.manager call) = .ok s'
              ∧ s'.manager.localKeys.Represents s'.manager.world.memory keys'
              ∧ (call.empties = false → keys <+: keys'))
            ∨ (s.manager.localKeys.room s.manager.world).takes env = false ∧ keys = []
              ∧ ∃ keyValue, call = .addExternalKey keyValue := by
  obtain ⟨untouched, keys, lasting⟩ := (clockedPools_inert started unexpired).reachable reached
  refine ⟨keys, lasting.represents,
    fun key inside => ⟨lasting.valid key inside, lasting.made key inside⟩, fun call marks => ?_⟩
  rcases Clocked.call_lasts untouched started unexpired lasting marks with
    ⟨after, keys', called, lasting', appended⟩ | ⟨refused, nothing, -, addition⟩
  · exact .inl ⟨_, keys', congrArg (Except.map _) called, lasting'.represents, appended⟩
  · exact .inr ⟨refused, nothing, addition⟩

/-- A time of the system that runs away: every look at it is a thousand seconds later. -/
def racing (n : Nat) : Int := 1000 * (n + 1)

/-- A call of the program that runs into no fault, to execute sequences of calls. -/
def Clocked.step (env : Env) (system : Nat → Int) (s : Clocked) (call : ClockedCall)
    : Option Clocked :=
  if call.inProgram then (s.call env system call).toOption else none

theorem Clocked.step_sound (s : Clocked) (call : ClockedCall) (s' : Clocked)
    (taken : s.step env system call = some s')
    : (clockedPools env system).next s call s' := by
  unfold Clocked.step at taken
  split at taken
  case isTrue program => exact ⟨program, ok_of_toOption taken⟩
  case isFalse => cases taken

/-- An initialised manager with one key of its own and one check. -/
theorem checked_run
    : (Lts.execute (Clocked.step standstill racing) .init
        [.manager .init, .client .getCurrentTime, .manager (.addExternalKey ['k']),
          .manager .checkAllKeys]).isSome := by
  decide +kernel

theorem checked_neverExpires
    : ∃ keys, (Option.get _ checked_run).manager.localKeys.Represents
          (Option.get _ checked_run).manager.world.memory keys
        ∧ ∀ key ∈ keys, key.status = .valid ∧ key.createTs = 1000 := by
  obtain ⟨keys, represents, valid, -⟩ :=
    clockedPools_neverExpire standstill racing (Option.get _ checked_run) (by decide)
      (by decide) ⟨.init, rfl, Lts.execute_steps Clocked.step_sound (Option.some_get _).symm⟩
  exact ⟨keys, represents, valid⟩

end QKeySys.KeyPool
