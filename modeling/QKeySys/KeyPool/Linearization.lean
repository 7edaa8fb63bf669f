import QKeySys.KeyPool.Serial
import QKeySys.Library.AtomicObject

/-! What the callers of the key pool see: in every interleaving with a lone stop their calls and
the results are those of an interface that serves each call at one moment between its call and
its return.
-/

namespace QKeySys.KeyPool

open QKeySys.Library QKeySys.Library.AtomicObject

variable {env : Env} {pollCycle : Int}

-----------------------------------------------------------------------------------------
-- The atomic key pool
-----------------------------------------------------------------------------------------

/-- What a thread may call: the interface, or the stop of the manager. -/
inductive Operation where
  | request (request : Request)
  | stop
  deriving DecidableEq, Repr

/-- What the callers see of their calls; `KeyManager_Stop` returns nothing. -/
abbrev KeypoolEvent := CallEvent Operation (Option Int)

abbrev KeypoolClient := Client Operation (Option Int)

/-- The interface with the callers as its clients. -/
abbrev ServedKeypool := Served Keypool Operation (Option Int)

namespace Keypool

/-- What the interface returns for a request, and leaves. -/
def serve (env : Env) (k : Keypool) : Request → Except Fault (Int × Keypool)
  | .update qkStr => k.update env (some qkStr)
  | .execute payload => k.execute env payload

/-- What an operation returns, and leaves. -/
def operate (env : Env) (k : Keypool) : Operation → Except Fault (Option Int × Keypool)
  | .request request => (k.serve env request).map (fun (result, after) => (some result, after))
  | .stop => (k.call env (.manager .stop)).map (fun after => (none, after))

end Keypool

/-- The key pool when its operations are atomic: it may initialise the manager for a call before
it serves it, unless that call is refused at once, and its polling thread checks the keys.
-/
def atomicKeypool (env : Env) : AtomicObject Keypool Operation (Option Int) where
  start := .init
  prepare k op k' :=
    ∃ request, op = .request request ∧ request ≠ .update [] ∧ k.initIfNeeded env = .ok k'
  perform k op result k' := k.operate env op = .ok (result, k')
  own k k' := k.call env (.manager .checkAllKeys) = .ok k'

-----------------------------------------------------------------------------------------
-- What the shared key pool shows
-----------------------------------------------------------------------------------------

/-- What a call returns that ends at this program point of its caller. -/
def Caller.result (c : Caller) : Option Int :=
  match c.pc, c.request with
  | .readPointer, _ | .readInited, _ => some (-1)
  | .managerInited, .update _ => some (-1)
  | .managerInited, .execute _ => some 0
  | .unlock, _ => some 0
  | _, _ => none

/-- The calls and the returns among the steps. An empty string is refused at once. -/
def SharedPool.events (s : SharedPool) (action : SharedAction) (s' : SharedPool)
    : List KeypoolEvent :=
  match action with
  | .call i request =>
      .call i (.request request)
        :: if (s'.callers i).pc = .idle then [.ret i (some (-1))] else []
  | .stop i => [.call i .stop]
  | .caller i => if (s'.callers i).pc = .idle then [.ret i (s.callers i).result] else []
  | .poll => []

-----------------------------------------------------------------------------------------
-- What a call of the sequential interface returns
-----------------------------------------------------------------------------------------

/-- `qks_keypool_execute` goes on as `qks_keypool_update` with its string. -/
inductive Request.Becomes : Request → Request → Prop where
  | same (request : Request) : Becomes request request
  | passOn (qkStr : CString) : Becomes (.execute (some qkStr)) (.update qkStr)

theorem Request.Becomes.trans {first second third : Request} (early : first.Becomes second)
    (late : second.Becomes third)
    : first.Becomes third := by
  cases late with
  | same => exact early
  | passOn qkStr =>
      cases early with
      | same => exact .passOn qkStr

theorem Request.Becomes.proper {first second : Request} (becomes : first.Becomes second)
    (proper : second ≠ .update [])
    : first ≠ .update [] := by
  cases becomes with
  | same => exact proper
  | passOn => simp

namespace Keypool

variable {k : Keypool} {manager : KeyManager} {request request' : Request}

/-- Without an initialised manager behind the pointer every call returns -1. -/
theorem serve_refused (called : k.initCalled = true)
    (out : k.gKeyManager = false ∨ k.manager.isInited = false) (request : Request)
    : k.serve env request = .ok (-1, k) := by
  have ready : k.initIfNeeded env = .ok k := if_pos called
  cases request with
  | update qkStr =>
      by_cases empty : qkStr.length = 0
      · exact if_pos empty
      · refine (if_neg empty).trans ((bind_ok ready _).trans ?_)
        rcases out with null | fresh
        · simp [null]
        · cases points : k.gKeyManager <;> simp [fresh]
  | execute payload =>
      refine (bind_ok ready _).trans ?_
      rcases out with null | fresh
      · simp [null]
      · cases points : k.gKeyManager <;> simp [fresh]

/-- An empty string is refused, whichever function gets it. -/
theorem serve_empty (called : k.initCalled = true)
    : k.serve env (.execute (some [])) = .ok (-1, k) := by
  refine (bind_ok (if_pos called) _).trans ?_
  cases points : k.gKeyManager with
  | false => rfl
  | true => cases inited : k.manager.isInited <;> simp [update]

/-- What is done under the mutex is what the interface does for the call. -/
theorem Ready.serve (ready : k.Ready) (becomes : request.Becomes request')
    (proper : request' ≠ .update []) (plain : ∀ qkStr, request' ≠ .execute (some qkStr))
    (ran : request'.perform env k.manager = .ok manager)
    : k.serve env request = .ok (0, { k with manager := manager }) := by
  match becomes, proper, plain, ran with
  | .same (.update qkStr), proper, _, ran =>
      exact ready.update (fun empty => proper (congrArg _ empty)) ran
  | .same (.execute none), _, _, ran => exact ready.execute ran
  | .same (.execute (some qkStr)), _, plain, _ => exact absurd rfl (plain qkStr)
  | .passOn qkStr, proper, _, ran =>
      have called : k.initIfNeeded env = .ok k := if_pos ready.called
      refine (execute_eq called ready.points (some qkStr)).trans ?_
      refine (if_pos ready.inited).trans ?_
      exact ready.update (fun empty => proper (congrArg _ empty)) ran

theorem operate_request {result : Int} {k' : Keypool}
    (ran : k.serve env request = .ok (result, k'))
    : k.operate env (.request request) = .ok (some result, k') :=
  congrArg (Except.map _) ran

/-- A stop of a manager that is not initialised does nothing. -/
theorem operate_stop_refused (fresh : k.manager.isInited = false)
    : k.operate env .stop = .ok (none, k) := by
  have stopped : k.manager.stop = .ok k.manager := if_pos (by simp [fresh])
  have called : k.call env (.manager .stop) = .ok k := congrArg (Except.map _) stopped
  exact congrArg (Except.map _) called

end Keypool

-----------------------------------------------------------------------------------------
-- Callers and clients
-----------------------------------------------------------------------------------------

/-- The call of a caller at this program point is begun and not served. -/
@[simp] def CallerPc.asks : CallerPc → Bool
  | .idle | .unlock | .stopTest | .stopRunning | .stopJoin | .stopFree | .stopInited => false
  | _ => true

/-- The stop of a caller at this program point is begun and has not taken place. -/
@[simp] def CallerPc.asksStop : CallerPc → Bool
  | .stopTest | .stopRunning | .stopJoin | .stopFree => true
  | _ => false

/-- What a caller stands for at its program point. -/
def Caller.Awaits (c : Caller) (client : KeypoolClient) : Prop :=
  match c.pc with
  | .idle => client = .idle
  | .unlock => client = .answered (some 0)
  | .stopTest | .stopRunning | .stopJoin | .stopFree => client = .asked .stop
  | .stopInited => client = .answered none
  | _ => ∃ request, client = .asked (.request request) ∧ request.Becomes c.request

theorem Caller.awaits_asks {c : Caller} {client : KeypoolClient}
    (asks : c.pc.asks = true)
    : c.Awaits client
      ↔ ∃ request, client = .asked (.request request) ∧ request.Becomes c.request := by
  unfold Caller.Awaits
  cases pc : c.pc <;> simp_all

theorem Caller.awaits_asksStop {c : Caller} {client : KeypoolClient}
    (asks : c.pc.asksStop = true)
    : c.Awaits client ↔ client = .asked .stop := by
  unfold Caller.Awaits
  cases pc : c.pc <;> simp_all

/-- A step without an effect leaves the sequential interface as it is. -/
theorem Caller.Serves.eq_self {c : Caller} {k k' : Keypool} (serves : c.Serves env k k')
    (aside : c.pc ∉ [.setInited, .freeList, .access, .stopFree])
    : k' = k := by
  cases serves with
  | nothing => rfl
  | init _ pc =>
      simp only [List.mem_cons, List.not_mem_nil, or_false] at pc
      rcases pc with pc | pc <;> simp [pc] at aside
  | perform _ pc | stop _ pc => simp [pc] at aside

namespace SharedPool

variable {s s' shared : SharedPool} {phase : Phase} {i : Nat} {c : Caller} {k : Keypool}
  {served : ServedKeypool}

/-- What a move of a caller is to its client: it waits, its call is refused or served, or it
gets the result; and so for a stop.
-/
inductive ClientMove (s : SharedPool) (before after : Caller) : Prop where
  | waits (asked : before.pc.asks = true) (asks : after.pc.asks = true)
      (becomes : before.request.Becomes after.request) (aside : before.pc ≠ .access)
  | refused (pc : before.pc ∈ [.readPointer, .readInited])
      (out : s.gKeyManager = false ∨ s.manager.isInited = false) (ends : after.pc = .idle)
  | empty (pc : before.pc = .readInited) (request : before.request = .execute (some []))
      (ends : after.pc = .idle)
  | served (pc : before.pc = .access) (leaves : after.pc = .unlock)
  | returned (pc : before.pc = .unlock) (ends : after.pc = .idle)
  | stopWaits (asked : before.pc.asksStop = true) (asks : after.pc.asksStop = true)
      (aside : before.pc ≠ .stopFree)
  | stopRefused (pc : before.pc = .stopTest) (fresh : s.manager.isInited = false)
      (ends : after.pc = .idle)
  | stopServed (pc : before.pc = .stopFree) (leaves : after.pc = .stopInited)
  | stopReturned (pc : before.pc = .stopInited) (ends : after.pc = .idle)

/-- Every move of a caller is one of these, by cases on the move. A manager that has been seen
initialised still is when `KeyManager_CheckAllKeys` and `KeyManager_AddExternalKey` look.
-/
theorem CallerMove.client (move : CallerMove env s i shared c) (fits : s.Fits phase)
    : s.ClientMove (s.callers i) c := by
  cases move with
  | silent next move =>
      cases move with
      | nowhere pc null => exact .refused (by simp [pc]) (.inl null) rfl
      | refused pc refused =>
          simp only [List.mem_cons, List.not_mem_nil, or_false] at pc
          rcases pc with pc | pc | pc
          · exact .refused (by simp [pc]) (.inr refused) rfl
          · have inited := (fits.callers i).uses (by simp [pc])
            exact absurd (refused.symm.trans inited) Bool.false_ne_true
          · exact .stopRefused pc refused rfl
      | stops pc | joined pc =>
          exact .stopWaits (by simp [pc]) rfl (by simp [pc])
      | _ pc => exact .waits (by simp [pc]) rfl (.same _) (by simp [pc])
  | passOn qkStr pc inited request =>
      by_cases empty : qkStr = []
      · subst empty
        exact .empty pc request rfl
      · refine .waits (by simp [pc]) ?_ ?_ (by simp [pc])
        · simp [Caller.ofUpdate, empty]
        · rw [request]
          exact .passOn qkStr
  | request manager pc | freeList manager pc =>
      exact .waits (by simp [pc]) rfl (.same _) (by simp [pc])
  | access manager pc => exact .served pc rfl
  | unlock pc => exact .returned pc rfl
  | stopRunning pc => exact .stopWaits (by simp [pc]) rfl (by simp [pc])
  | stopFree manager pc => exact .stopServed pc rfl
  | stopInited pc => exact .stopReturned pc rfl
  | _ pc => exact .waits (by simp [pc]) rfl (.same _) (by simp [pc])

/-- A caller that knows of the initialisation finds the sequential interface as it is. -/
theorem Agrees.of_knows (agrees : s.Agrees env k phase) (fits : s.Fits phase)
    (knows : (s.callers i).pc.knows = true)
    : k = ⟨s.manager, s.gKeyManager, true⟩ := by
  have called := (fits.callers i).knows knows
  have late (early : s.initCalled = false) : False :=
    Bool.false_ne_true (early.symm.trans called)
  cases agrees with
  | fresh early => exact (late early).elim
  | asking j early | requested j early | inited j early => exact (late early).elim
  | up called settled => exact settled.same
  | closing j =>
      have busy : (s.callers i).pc ≠ .idle := fun idle => by simp [idle] at knows
      by_cases self : j = i
      · subst self
        have closes := (fits.callers j).closes.mp rfl
        revert closes knows
        cases (s.callers j).pc <;> simp
      · exact absurd rfl (fits.not_closing busy self)

/-- A caller that is about to stop the manager finds the sequential interface as it is. -/
theorem Follows.of_stopTest (now : Follows env s k) (pc : (s.callers i).pc = .stopTest)
    : k = ⟨s.manager, s.gKeyManager, s.initCalled⟩ := by
  obtain ⟨phase, fits, -⟩ := id now
  refine now.shows.between (fun j => ?_)
  by_cases self : j = i
  · subst self
    simp [pc]
  · simp [fits.alone i j self (by simp [pc, CallerPc.stops])]

-----------------------------------------------------------------------------------------
-- The simulation
-----------------------------------------------------------------------------------------

/-- The atomic key pool behind the shared one: the interface follows, and each client is where
its caller is.
-/
structure Linear (env : Env) (s : SharedPool) (served : ServedKeypool) : Prop where
  follows : Follows env s served.object
  awaits : ∀ i, (s.callers i).Awaits (served.clients i)

/-- A caller and its client move, the others stay. -/
theorem Linear.put {client : KeypoolClient} (now : s.Linear env served)
    (callers : shared.callers = s.callers) (follows : Follows env (shared.put i c) k)
    (awaits : c.Awaits client)
    : (shared.put i c).Linear env (served.go k i client) where
  follows := follows
  awaits j := by
    by_cases self : j = i
    · subst self
      rw [put_callers_self, Served.go_self]
      exact awaits
    · rw [put_callers_ne c self, Served.go_ne self, callers]
      exact now.awaits j

/-- The atomic key pool shows what a move of caller `i` shows, and its client comes to where the
caller comes.
-/
def Matches (env : Env) (served : ServedKeypool) (i : Nat) (before after : Caller)
    (k : Keypool) : Prop :=
  ∃ client, (atomicKeypool env).served.Trace AtomicObject.shown served
      (if after.pc = .idle then [.ret i before.result] else []) (served.go k i client)
    ∧ after.Awaits client

/-- A call that ends shows its result. -/
theorem matches_ends {before : Caller} {result : Option Int} (ends : c.pc = .idle)
    (returns : before.result = result)
    (trace
      : (atomicKeypool env).served.Trace AtomicObject.shown served [.ret i result]
          (served.go k i .idle))
    : Matches env served i before c k := by
  refine ⟨.idle, ?_, by simp [Caller.Awaits, ends]⟩
  rw [if_pos ends, returns]
  exact trace

/-- A call that has taken place shows the result that its client has. -/
theorem matches_returns {before : Caller} {result : Option Int}
    (serves : before.Serves env served.object k)
    (aside : before.pc ∉ [.setInited, .freeList, .access, .stopFree])
    (answered : served.clients i = .answered result) (returns : before.result = result)
    (ends : c.pc = .idle)
    : Matches env served i before c k := by
  obtain rfl := serves.eq_self aside
  exact matches_ends ends returns (Step.ret i result answered).trace

/-- A call that goes on shows nothing. -/
theorem matches_goes {before : Caller} {client : KeypoolClient}
    (goes : c.pc ≠ .idle) (awaits : c.Awaits client)
    (trace
      : (atomicKeypool env).served.Trace AtomicObject.shown served [] (served.go k i client))
    : Matches env served i before c k := by
  refine ⟨client, ?_, awaits⟩
  rw [if_neg goes]
  exact trace

/-- For a call that waits the manager may be initialised. -/
theorem Linear.waits (now : s.Linear env served)
    (serves : (s.callers i).Serves env served.object k)
    (asked : (s.callers i).pc.asks = true) (asks : c.pc.asks = true)
    (becomes : (s.callers i).request.Becomes c.request) (aside : (s.callers i).pc ≠ .access)
    : Matches env served i (s.callers i) c k := by
  obtain ⟨phase, fits, -⟩ := id now.follows
  obtain ⟨request, client, becomes'⟩ := (Caller.awaits_asks asked).mp (now.awaits i)
  have awaits : c.Awaits (served.clients i) :=
    (Caller.awaits_asks asks).mpr ⟨request, client, becomes'.trans becomes⟩
  refine matches_goes (fun idle => by simp [idle] at asks) awaits ?_
  rw [Served.go_same]
  cases serves with
  | nothing => exact .refl
  | init _ pc ran =>
      have proper : (s.callers i).request ≠ .update [] := by
        simp only [List.mem_cons, List.not_mem_nil, or_false] at pc
        rcases pc with pc | pc <;>
          exact (fits.callers i).proper (by simp [pc]) (by simp [pc, CallerPc.stops])
      have prepared : (atomicKeypool env).prepare served.object (.request request) k :=
        ⟨request, rfl, becomes'.proper proper, ran⟩
      exact (Step.prepare i _ k client prepared).trace
  | perform _ pc => exact absurd pc aside
  | stop _ pc => simp [pc] at asked

/-- A call that is refused takes place when it ends. -/
theorem Linear.refused (now : s.Linear env served)
    (serves : (s.callers i).Serves env served.object k)
    (pc : (s.callers i).pc ∈ [.readPointer, .readInited])
    (out : s.gKeyManager = false ∨ s.manager.isInited = false) (ends : c.pc = .idle)
    : Matches env served i (s.callers i) c k := by
  obtain ⟨phase, fits, agrees⟩ := id now.follows
  simp only [List.mem_cons, List.not_mem_nil, or_false] at pc
  have knows : (s.callers i).pc.knows = true := by rcases pc with pc | pc <;> simp [pc]
  have asks : (s.callers i).pc.asks = true := by
    rcases pc with pc | pc <;> simp [pc]
  have same := agrees.of_knows fits knows
  obtain rfl := serves.eq_self (by rcases pc with pc | pc <;> simp [pc])
  obtain ⟨request, client, -⟩ := (Caller.awaits_asks asks).mp (now.awaits i)
  have ran : served.object.serve env request = .ok (-1, served.object) :=
    Keypool.serve_refused (by rw [same]) (by rw [same]; exact out) request
  refine matches_ends ends ?_ (trace_answer client (Keypool.operate_request ran))
  rcases pc with pc | pc <;> simp [Caller.result, pc]

/-- So does a call with an empty string that is passed on. -/
theorem Linear.empty (now : s.Linear env served)
    (serves : (s.callers i).Serves env served.object k) (pc : (s.callers i).pc = .readInited)
    (request : (s.callers i).request = .execute (some [])) (ends : c.pc = .idle)
    : Matches env served i (s.callers i) c k := by
  obtain ⟨phase, fits, agrees⟩ := id now.follows
  have same := agrees.of_knows fits (i := i) (by simp [pc])
  obtain rfl := serves.eq_self (by simp [pc])
  obtain ⟨request', client, becomes⟩ :=
    (Caller.awaits_asks (by simp [pc])).mp (now.awaits i)
  rw [request] at becomes
  cases becomes
  have ran : served.object.serve env (.execute (some [])) = .ok (-1, served.object) :=
    Keypool.serve_empty (by rw [same])
  exact matches_ends ends (by simp [Caller.result, pc])
    (trace_answer client (Keypool.operate_request ran))

/-- A call takes place when its caller works on the keys. -/
theorem Linear.answers (now : s.Linear env served)
    (serves : (s.callers i).Serves env served.object k) (pc : (s.callers i).pc = .access)
    (leaves : c.pc = .unlock)
    : Matches env served i (s.callers i) c k := by
  obtain ⟨phase, fits, -⟩ := id now.follows
  have stands := fits.callers i
  obtain ⟨request, client, becomes⟩ :=
    (Caller.awaits_asks (by simp [pc])).mp (now.awaits i)
  have awaits : c.Awaits (.answered (some 0)) := by simp [Caller.Awaits, leaves]
  refine matches_goes (by simp [leaves]) awaits ?_
  cases serves with
  | perform manager _ ready ran =>
      have proper := stands.proper (by simp [pc]) (by simp [pc, CallerPc.stops])
      have served := ready.serve becomes proper (stands.plain (by simp [pc])) ran
      exact (Step.perform i _ _ _ client (Keypool.operate_request served)).trace
  | nothing aside | init _ aside => simp [pc] at aside
  | stop _ pc' => cases pc.symm.trans pc'

/-- The stop takes place when the list is freed. -/
theorem Linear.stopServed (now : s.Linear env served)
    (serves : (s.callers i).Serves env served.object k) (pc : (s.callers i).pc = .stopFree)
    (leaves : c.pc = .stopInited)
    : Matches env served i (s.callers i) c k := by
  have client :=
    (Caller.awaits_asksStop (by simp [pc])).mp (now.awaits i)
  have awaits : c.Awaits (.answered none) := by simp [Caller.Awaits, leaves]
  refine matches_goes (by simp [leaves]) awaits ?_
  cases serves with
  | stop manager _ ran =>
      have called : served.object.call env (.manager .stop)
          = .ok { served.object with manager := manager } :=
        congrArg (Except.map _) ran
      exact (Step.perform i _ _ _ client (congrArg (Except.map _) called)).trace
  | nothing aside | init _ aside => simp [pc] at aside
  | perform _ pc' => cases pc.symm.trans pc'

/-- What a move of a caller is to its client, the atomic key pool does. -/
theorem ClientMove.trace (kind : s.ClientMove (s.callers i) c) (now : s.Linear env served)
    (serves : (s.callers i).Serves env served.object k)
    : Matches env served i (s.callers i) c k := by
  have awaits := now.awaits i
  cases kind with
  | waits asked asks becomes aside => exact now.waits serves asked asks becomes aside
  | refused pc out ends => exact now.refused serves pc out ends
  | empty pc request ends => exact now.empty serves pc request ends
  | served pc leaves => exact now.answers serves pc leaves
  | returned pc ends =>
      have client : served.clients i = .answered (some 0) := by
        simpa [Caller.Awaits, pc] using awaits
      exact matches_returns serves (by simp [pc]) client (by simp [Caller.result, pc]) ends
  | stopWaits asked asks aside =>
      have client := (Caller.awaits_asksStop asked).mp awaits
      obtain rfl := serves.eq_self (by
        cases pc : (s.callers i).pc <;> simp_all)
      refine matches_goes (fun idle => by simp [idle] at asks)
        ((Caller.awaits_asksStop asks).mpr client) ?_
      rw [Served.go_same]
      exact .refl
  | stopRefused pc fresh ends =>
      have same := now.follows.of_stopTest pc
      obtain rfl := serves.eq_self (by simp [pc])
      have client := (Caller.awaits_asksStop (by simp [pc])).mp awaits
      have ran : served.object.operate env .stop = .ok (none, served.object) :=
        Keypool.operate_stop_refused (by rw [same]; exact fresh)
      exact matches_ends ends (by simp [Caller.result, pc]) (trace_answer client ran)
  | stopServed pc leaves => exact now.stopServed serves pc leaves
  | stopReturned pc ends =>
      have client : served.clients i = .answered none := by
        simpa [Caller.Awaits, pc] using awaits
      exact matches_returns serves (by simp [pc]) client (by simp [Caller.result, pc]) ends

/-- A client calls an operation when its caller begins one. -/
theorem Linear.begins (now : s.Linear env served) (idle : (s.callers i).pc = .idle)
    (op : Operation)
    : (atomicKeypool env).served.Trace AtomicObject.shown served [.call i op]
        (served.go served.object i (.asked op)) := by
  have client : served.clients i = .idle := by
    have awaits := now.awaits i
    rwa [Caller.Awaits, idle] at awaits
  exact (Step.call i op client).trace

/-- A call that begins; one with an empty string ends as well. -/
theorem Linear.call {request : Request} (now : s.Linear env served)
    (step : (sharedPools env pollCycle).next s (.call i request) s')
    : ∃ served', (atomicKeypool env).served.Trace AtomicObject.shown served
          (s.events (.call i request) s') served'
        ∧ s'.Linear env served' := by
  have follows := now.follows.call step
  obtain ⟨idle, step⟩ := Option.ite_none_right_eq_some.mp step.2
  have begins := now.begins idle (.request request)
  cases request with
  | update qkStr =>
      cases step
      by_cases empty : qkStr = []
      · subst empty
        let asked := served.go served.object i (.asked (.request (.update [])))
        have ran : asked.object.operate env (.request (.update []))
            = .ok (some (-1), served.object) :=
          Keypool.operate_request rfl
        have ends : (atomicKeypool env).served.Trace AtomicObject.shown asked
            [.ret i (some (-1))] (asked.go served.object i .idle) :=
          trace_answer Served.go_self ran
        rw [Served.go_go] at ends
        refine ⟨_, ?_, now.put rfl follows rfl⟩
        simp only [events, put_callers_self]
        exact begins.trans ends
      · have pc : (Caller.ofUpdate qkStr).pc = .readCalled := by simp [Caller.ofUpdate, empty]
        have awaits
            : (Caller.ofUpdate qkStr).Awaits (.asked (.request (.update qkStr))) :=
          (Caller.awaits_asks (by rw [pc]; rfl)).mpr ⟨.update qkStr, rfl, .same _⟩
        refine ⟨_, ?_, now.put rfl follows awaits⟩
        simpa [events, pc] using begins
  | execute payload =>
      cases step
      have awaits
          : (Caller.mk .readCalled (.execute payload)).Awaits
              (.asked (.request (.execute payload))) :=
        ⟨.execute payload, rfl, .same _⟩
      refine ⟨_, ?_, now.put rfl follows awaits⟩
      simpa [events] using begins

/-- The polling thread shows nothing. -/
theorem Linear.poll (now : s.Linear env served) (move : PollMove env pollCycle s s')
    : ∃ served', (atomicKeypool env).served.Trace AtomicObject.shown served [] served'
        ∧ s'.Linear env served' := by
  obtain ⟨k, checks, follows⟩ := now.follows.poll move
  have same : s'.callers = s.callers := by cases move <;> rfl
  refine ⟨⟨k, served.clients⟩, ?_, follows, by rw [same]; exact now.awaits⟩
  cases checks with
  | nothing => exact .refl
  | check manager ready ran =>
      have checked := (KeyManager.checkAllKeys_eq_locked ready.inited).trans ran
      exact (Step.own _ (congrArg (Except.map _) checked)).trace

/-- Every step of the shared key pool is one that the atomic one shows as well. -/
theorem Linear.step {action : SharedAction} (now : s.Linear env served)
    (step : (sharedPools env pollCycle).next s action s')
    : ∃ served', (atomicKeypool env).served.Trace AtomicObject.shown served
          (s.events action s') served'
        ∧ s'.Linear env served' := by
  cases action with
  | call i request => exact now.call step
  | stop i =>
      have follows := now.follows.stop step
      obtain ⟨idle, step⟩ := Option.ite_none_right_eq_some.mp step.2
      cases step
      exact ⟨_, now.begins idle .stop, now.put rfl follows rfl⟩
  | caller i =>
      obtain ⟨shared, c, move, rfl⟩ := callerStep_move step.2
      obtain ⟨k, serves, follows⟩ := now.follows.move move
      obtain ⟨phase, fits, -⟩ := id now.follows
      obtain ⟨client, trace, awaits⟩ := (move.client fits).trace now serves
      refine ⟨served.go k i client, ?_, now.put (by cases move <;> rfl) follows awaits⟩
      simp only [events, put_callers_self]
      exact trace
  | poll => exact now.poll (pollStep_move step.2)

/-- The atomic key pool follows the shared one and shows the same. -/
theorem linear_simulation (env : Env) (pollCycle : Int)
    : (sharedPools env pollCycle).TraceSimulation SharedPool.events (atomicKeypool env).served
        AtomicObject.shown (Linear env) where
  init s start := by
    obtain rfl := start
    exact ⟨_, rfl, follows_init env, fun i => rfl⟩
  step before action after served now step := now.step step

end SharedPool

-----------------------------------------------------------------------------------------
-- All interleavings
-----------------------------------------------------------------------------------------

/-- The key pool is linearizable. In every interleaving of the callers, the polling thread and a
lone stop, the callers see a history of calls and results that the atomic key pool shows its
clients, and the variables are those of the atomic key pool whenever the manager is not being
initialised or stopped, its keys whenever somebody has the mutex.
-/
theorem sharedPools_linearizable {s : SharedPool} {history : List KeypoolEvent}
    (seen : (sharedPools env pollCycle).History SharedPool.events history s)
    : ∃ served, (atomicKeypool env).served.History AtomicObject.shown history served
        ∧ s.Shows served.object := by
  obtain ⟨served, seen', linear⟩ := (SharedPool.linear_simulation env pollCycle).history seen
  exact ⟨served, seen', linear.follows.shows⟩

/-- The actions of callers that do not stop the manager, and of the polling thread. -/
def SharedAction.keepsUp : SharedAction → Bool
  | .stop _ => false
  | _ => true

/-- While nobody stops the manager all calls are allowed, and nobody comes to stop it. -/
theorem SharedPool.step_keepsUp (s : SharedPool) (action : SharedAction) (s' : SharedPool)
    (up : ∀ j, (s.callers j).pc.stops = false) (keeps : action.keepsUp = true)
    (step : s.step env pollCycle action = some s')
    : s.stopsAlone action ∧ ∀ j, (s'.callers j).pc.stops = false := by
  have put {shared : SharedPool} {i : Nat} {c : Caller} (callers : shared.callers = s.callers)
      (entry : c.pc.stops = false) (j : Nat)
      : ((shared.put i c).callers j).pc.stops = false := by
    by_cases self : j = i
    · rw [self, put_callers_self]
      exact entry
    · rw [put_callers_ne c self, callers]
      exact up j
  cases action with
  | call i request =>
      obtain ⟨-, step⟩ := Option.ite_none_right_eq_some.mp step
      cases request with
      | update qkStr =>
          cases step
          refine ⟨fun j _ => up j, put rfl ?_⟩
          by_cases empty : qkStr = [] <;> simp [Caller.ofUpdate, empty, CallerPc.stops]
      | execute payload =>
          cases step
          exact ⟨fun j _ => up j, put rfl rfl⟩
  | stop i => cases keeps
  | caller i =>
      obtain ⟨shared, c, move, rfl⟩ := callerStep_move step
      refine ⟨trivial, put (by cases move <;> rfl) ?_⟩
      by_contra stops
      exact absurd ((up i).symm.trans (move.stops (by simpa using stops))) Bool.false_ne_true
  | poll =>
      have same : s'.callers = s.callers := by cases pollStep_move step <;> rfl
      exact ⟨trivial, by rw [same]; exact up⟩

/-- Two callers find the manager not initialised, and a third has nothing to add; the first one
initialises it, and the second one is served before it.
-/
def raceActions : List SharedAction :=
  [.call 0 (.update ['k']), .call 1 (.execute none), .call 2 (.update []), .caller 0, .caller 1]
    ++ List.replicate 10 (.caller 0) ++ List.replicate 9 (.caller 1)
    ++ List.replicate 6 (.caller 0)

theorem raceActions_run
    : (Lts.execute (SharedPool.step standstill 18) .init raceActions).isSome := by
  decide +kernel

def raced : SharedPool := Option.get _ raceActions_run

theorem raced_linearizable
    : ∃ served, (atomicKeypool standstill).served.History AtomicObject.shown
          [.call 0 (.request (.update ['k'])), .call 1 (.request (.execute none)),
            .call 2 (.request (.update [])), .ret 2 (some (-1)), .ret 1 (some 0),
            .ret 0 (some 0)]
          served
        ∧ raced.Shows served.object := by
  have trace : (sharedPools standstill 18).Trace SharedPool.events .init
      (Lts.executeShown (SharedPool.step standstill 18) SharedPool.events .init raceActions)
      raced :=
    Lts.execute_trace_within SharedPool.step_keepsUp (fun _ => rfl) (by decide)
      (Option.some_get raceActions_run).symm
  have shows
      : Lts.executeShown (SharedPool.step standstill 18) SharedPool.events .init raceActions
        = [.call 0 (.request (.update ['k'])), .call 1 (.request (.execute none)),
            .call 2 (.request (.update [])), .ret 2 (some (-1)), .ret 1 (some 0),
            .ret 0 (some 0)] := by
    decide +kernel
  rw [shows] at trace
  exact sharedPools_linearizable ⟨.init, rfl, trace⟩

end QKeySys.KeyPool
