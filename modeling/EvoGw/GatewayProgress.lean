import EvoGw.GatewayPool
import EvoGw.LockDiscipline
import EvoGw.WorkBudgets

/-!
# The gateway always comes to rest

The handlers, the requests and the subscriber threads share two mutexes. None of
them takes a mutex inside the section of the other, none waits for Redis' BLPOP
inside a section, and `synchronize` gives the mutex back when the body raises. So
the threads cannot block each other, whatever fails: somebody can move until all
threads have ended. `CONNECTIONS`, the lists `response:*` and the registries of
subscribed channels are changed under their mutexes only.

The programs have no loops except over the items of a body, so every thread ends
after a number of steps that its kind tells.
-/
namespace EvoGw.GatewayProgress
open ThreadPrograms ThreadPools PoolTraces LockDiscipline WorkBudgets
open GatewayCalls JsonValues WebSocketHandler ServerRoute GatewayPool
open DevicesSender (Sends IsSend sends_send uses_lift uses_parse uses_redis uses_generate)

/-- The mutex under which a kind of thread performs a primitive. Published commands
write their frames under the mutex of the registries, other threads write freely. -/
def guard (kind : Kind) : Prim sig → Option Mutex
  | .call (.connSet _ _) => some .connections
  | .call (.connKey _) => some .connections
  | .call (.connDelete _) => some .connections
  | .call (.registered _ _) => some .subscribedChannels
  | .call (.register _ _) => some .subscribedChannels
  | .call (.unregister _ _) => some .subscribedChannels
  | .push _ _ => some .connections
  | .clear _ => some .connections
  | .call (.wsSend _ _) =>
      match kind with
      | .command _ _ => some .subscribedChannels
      | _ => none
  | _ => none

/-- How many steps a thread can take, its entry not counted. -/
def budget (rt : Runtime) : Kind → ℕ
  | .opened _ => 3
  | .message _ _ => 21
  | .closed _ => 6
  | .post _ command body => 5 * (commandArgs rt command body).length
  | .command _ _ => 4
  | .disconnected _ => 5

section Sections
variable {rt : Runtime} {held : Option Mutex} {kind : Kind}

theorem balanced_call {c : Call} (h : ∀ m, guard kind (.call c) = some m → held = some m) :
    Balanced (guard kind) held held (call c) := ⟨h, fun _ => rfl⟩

theorem balanced_free {c : Call} (h : guard kind (.call c) = none) :
    Balanced (guard kind) held held (call c) := by
  refine balanced_call (fun m hm => ?_)
  rw [h] at hm
  cases hm

theorem balanced_onOpen (w : Sock) : Balanced (guard kind) none none (onOpen w) :=
  Balanced.synchronize (balanced_call (fun _ h => h))

theorem balanced_handOver (sn : Json) (data : String) :
    Balanced (guard kind) none none (handOver rt sn data) := by
  refine Balanced.synchronize ?_
  split_ifs
  · refine Balanced.bind (p := lpush _ data) ⟨fun _ h => h, fun done => ?_⟩ (fun _ => ?_)
    · exact Balanced.of_uses (uses_redis done)
    · exact ⟨fun _ h => h, fun done => Balanced.of_uses (uses_redis done)⟩
  · rfl

theorem balanced_registerRoute (w : Sock) (sn : Json) :
    Balanced (guard kind) none none (registerRoute w sn) := by
  unfold registerRoute
  split_ifs
  · exact Balanced.synchronize
      ((balanced_free rfl).bind (fun _ => balanced_call (fun _ h => h)))
  · rfl

theorem balanced_handleReg (w : Sock) (data : String) (message : Json) (ws : Option Sock) :
    Balanced (guard (.message w data)) none none (handleReg rt message ws) := by
  refine Balanced.of_uses ((uses_handleReg message).mono ?_)
  rintro q (rfl | ⟨doc, rfl⟩)
  · exact ⟨fun m hm => (by cases hm), rfl⟩
  · exact ⟨fun m hm => (by cases hm), rfl⟩

theorem balanced_start (sid : Sid) (w : Sock) (channel : Json) :
    Balanced (guard kind) none none (start sid w channel) := by
  refine Balanced.bind (Balanced.synchronize ?_) (fun known => ?_)
  · exact balanced_call (fun _ h => h)
  split_ifs
  · rfl
  · refine (balanced_free rfl).bind (fun alive => ?_)
    split_ifs
    · rfl
    · refine Balanced.bind (Balanced.synchronize ?_) (fun _ => balanced_free rfl)
      exact balanced_call (fun _ h => h)

theorem balanced_onMessage (w : Sock) (data : String) :
    Balanced (guard (.message w data)) none none (onMessage rt w data) := by
  refine (Balanced.of_uses (uses_parse data)).bind (fun message => ?_)
  refine (Balanced.of_uses (uses_lift _)).bind (fun sn => ?_)
  refine (balanced_handOver sn data).bind (fun _ => ?_)
  refine (Balanced.of_uses (uses_lift _)).bind (fun command => ?_)
  refine (balanced_registerRoute w sn).bind (fun _ => ?_)
  refine (balanced_free rfl).bind (fun ws => ?_)
  refine (balanced_handleReg w data message ws).bind (fun _ => ?_)
  split_ifs
  · exact (balanced_free rfl).bind (fun done => Balanced.of_uses (uses_redis done))
  · refine (balanced_free rfl).bind (fun ws' => ?_)
    exact (balanced_free rfl).bind (fun sid => balanced_start sid w sn)

theorem balanced_onClose (w : Sock) : Balanced (guard kind) none none (onClose w) := by
  refine Balanced.bind (Balanced.synchronize ?_) (fun _ => balanced_free rfl)
  refine (balanced_free rfl).bind (fun ws => ?_)
  exact (balanced_call (fun _ h => h)).bind (fun key => balanced_call (fun _ h => h))

theorem balanced_post (channel command body : String) :
    Balanced (guard (.post channel command body)) none none (post rt channel command body) := by
  refine Balanced.of_uses (uses_post (fun args => uses_handleWsCommand ?_ ?_ ?_ (fun w => ?_)))
  · exact ⟨fun m hm => (by cases hm), rfl⟩
  · exact ⟨fun m hm => (by cases hm), rfl⟩
  · exact ⟨rfl, rfl⟩
  · refine (sends_send command args).uses.mono ?_
    rintro q ⟨doc, rfl⟩
    exact ⟨fun m hm => (by cases hm), rfl⟩

theorem balanced_onPublished (sid : Sid) (ws : Option Sock) (text : String) :
    Balanced (guard (.command sid text)) none none (onPublished rt sid ws text) := by
  refine (balanced_free rfl).bind (fun stopped => ?_)
  split_ifs
  · rfl
  refine Balanced.rescue ?_ (fun _ => rfl)
  refine (Balanced.of_uses (uses_parse text)).bind (fun payload => ?_)
  refine (Balanced.of_uses (uses_lift _)).bind (fun command => ?_)
  refine (Balanced.of_uses (uses_lift _)).bind (fun args => ?_)
  split
  · refine Balanced.synchronize (Balanced.of_uses ((sends_sendPayload command _).uses.mono ?_))
    rintro q ⟨doc, rfl⟩
    exact ⟨fun m hm => hm, rfl⟩
  · rfl

theorem balanced_subscriberEnds (sid : Sid) (w : Sock) (channel : Json) :
    Balanced (guard kind) none none (subscriberEnds sid w channel) := by
  refine Balanced.bind (Balanced.synchronize ?_) (fun _ => balanced_free rfl)
  refine (balanced_call (fun _ h => h)).bind (fun known => ?_)
  split_ifs
  · exact balanced_call (fun _ h => h)
  · rfl

end Sections

theorem balanced_enter (rt : Runtime) (w : World) (t : Tid) (kind : Kind) (w' : World)
    (p : Code Out) (h : (gateway rt).enter w t kind = some (w', p)) :
    Balanced (guard kind) none none p := by
  obtain ⟨q, hq, heq⟩ := Option.map_eq_some_iff.mp h
  cases heq
  exact program_cases (P := fun kind p => Balanced (guard kind) none none p) hq
    (fun w => (balanced_onOpen w).bind (fun _ => rfl))
    (fun w data => (balanced_onMessage w data).bind (fun _ => rfl))
    (fun w => (balanced_onClose w).bind (fun _ => rfl))
    (fun channel command body => (balanced_post channel command body).bind (fun _ => rfl))
    (fun sid ws text => (balanced_onPublished sid ws text).bind (fun _ => rfl))
    (fun sid w channel => (balanced_subscriberEnds sid w channel).bind (fun _ => rfl))

theorem run_lockDisciplined {rt : Runtime} {ls : List (Label (gateway rt))} {s : State (gateway rt)}
    (h : exec (boot rt) ls = some s) : Disciplined guard s :=
  exec_disciplined (balanced_enter rt) h

/-! ### How long threads take -/

section Budgets
variable {rt : Runtime}

theorem within_call (c : Call) : Within 1 (call c) := ⟨Nat.le_refl 1, fun _ => trivial⟩

theorem within_then {A : Type} {n : ℕ} {c : Call} {f : c.Resp → Code A}
    (hf : ∀ r, Within n (f r)) : Within (n + 1) (call c >>= f) :=
  ⟨Nat.le_add_left 1 n, hf⟩

theorem within_wsSend (ws : Option Sock) (doc : Json) : Within 1 (wsSend rt ws doc) := by
  refine Within.silent (uses_generate doc) (fun _ => ?_)
  refine within_then (fun sent => ?_)
  cases sent <;> trivial

theorem within_sends {ws : Option Sock} {p : Code Unit} (h : Sends rt ws p) : Within 1 p := by
  cases h with
  | document doc => exact (within_wsSend ws doc).rescue (b := 0) (fun _ => trivial)
  | refused e => trivial
  | unknown => trivial

theorem within_onOpen (w : Sock) : Within 3 (onOpen w) := (within_call _).synchronize

theorem within_handOver (sn : Json) (data : String) : Within 4 (handOver rt sn data) := by
  refine Within.synchronize (n := 2) ?_
  split_ifs
  · have hpush : Within 1 (lpush (responseKey (rt.toS sn)) data) :=
      ⟨Nat.le_refl 1, fun done => by cases done <;> trivial⟩
    have hdel : Within 1 (del (responseKey (rt.toS sn))) :=
      ⟨Nat.le_refl 1, fun done => by cases done <;> trivial⟩
    exact hpush.bind (fun _ => hdel)
  · trivial

theorem within_registerRoute (w : Sock) (sn : Json) : Within 4 (registerRoute w sn) := by
  unfold registerRoute
  split_ifs
  · exact Within.synchronize (within_then (fun _ => within_call _))
  · trivial

theorem within_handleReg (message : Json) (ws : Option Sock) :
    Within 2 (handleReg rt message ws) := by
  have respond : ∀ doc, Within 1 (responseWs rt ws doc) := fun doc =>
    (within_wsSend ws doc).bind (b := 0) (fun _ => (by
      unfold generate
      split_ifs <;> trivial))
  refine Within.silent (uses_lift _) (fun _ => ?_)
  refine Within.silent (uses_generate _) (fun _ => ?_)
  refine Within.silent (uses_lift _) (fun cmd => ?_)
  split_ifs
  · exact within_then (fun _ => respond _)
  · refine Within.silent (uses_lift _) (fun count => ?_)
    refine Within.silent (uses_lift _) (fun logindex => ?_)
    exact within_then (fun _ => respond _)
  · trivial

theorem within_start (sid : Sid) (w : Sock) (channel : Json) :
    Within 8 (start sid w channel) := by
  refine Within.bind (n := 3) (b := 5) (within_call _).synchronize (fun known => ?_)
  split_ifs
  · trivial
  · refine within_then (fun alive => ?_)
    split_ifs
    · trivial
    · exact Within.bind (n := 3) (within_call _).synchronize (fun _ => within_call _)

theorem within_onMessage (w : Sock) (data : String) : Within 21 (onMessage rt w data) := by
  refine Within.silent (uses_parse data) (fun message => ?_)
  refine Within.silent (uses_lift _) (fun sn => ?_)
  refine (within_handOver sn data).bind (b := 17) (fun _ => ?_)
  refine Within.silent (uses_lift _) (fun command => ?_)
  refine (within_registerRoute w sn).bind (b := 13) (fun _ => ?_)
  refine within_then (fun ws => ?_)
  refine (within_handleReg message ws).bind (b := 10) (fun _ => ?_)
  split_ifs
  · exact within_then (fun done => by cases done <;> trivial)
  · exact within_then (fun ws' => within_then (fun sid => within_start sid w sn))

theorem within_onClose (w : Sock) : Within 6 (onClose w) := by
  refine Within.bind (n := 5) (Within.synchronize (n := 3) ?_) (fun _ => within_call _)
  exact within_then (fun ws => within_then (fun key => within_call _))

theorem within_handleWsCommand (channel command : String) (args : List Json) :
    Within 5 (handleWsCommand rt channel command args) := by
  have hwait : Within 3 (awaitReply rt channel) := by
    rw [awaitReply_eq]
    refine ⟨by simp [cost], fun opened => ?_⟩
    cases opened with
    | false => trivial
    | true =>
        refine ⟨Nat.le_refl 2, fun reply => ?_⟩
        cases reply with
        | got raw => exact Within.silent (uses_parse raw) (fun _ => trivial)
        | timedOut => trivial
        | failed => trivial
  rw [handleWsCommand_eq]
  refine ⟨by simp [cost], fun found => ?_⟩
  cases found with
  | none => trivial
  | some ws => exact (within_sends (sends_send command args)).bind (fun _ => hwait)

theorem within_batch (channel command : String) (index : ℕ) (items : List Json) :
    Within (5 * items.length) (batch rt channel command index items) := by
  induction items generalizing index with
  | nil => trivial
  | cons item items ih =>
      rw [List.length_cons, Nat.mul_succ, Nat.add_comm]
      refine (within_handleWsCommand channel command _).bind (fun result => ?_)
      refine Within.silent (uses_lift _) (fun entry => ?_)
      exact (ih (index + 1)).bind (b := 0) (fun _ => trivial)

theorem within_post (channel command body : String) :
    Within (5 * (commandArgs rt command body).length) (post rt channel command body) := by
  have single : ∀ args, Within 5 (do
      let response ← handleWsCommand rt channel command args
      responseHttp response) := fun args =>
    (within_handleWsCommand channel command args).bind (b := 0)
      (fun _ => Within.silent (uses_lift _) (fun _ => trivial))
  have settled : ∀ {n : ℕ}, Within n (postBody rt channel command body) →
      Within n ((postBody rt channel command body).rescue (fun e =>
        if e = .parserError then pure ⟨400, .error "Invalid JSON"⟩ else .raise e)) := fun h =>
    h.rescue (b := 0) (fun e => by split <;> trivial)
  unfold post commandArgs
  split_ifs with hcommand hbody
  · exact single []
  · refine settled ?_
    unfold postBody
    rw [if_pos hbody]
    trivial
  · refine settled ?_
    cases hparse : rt.parse (strip body) with
    | none =>
        unfold postBody parse
        rw [if_neg hbody, hparse]
        trivial
    | some v =>
        cases v with
        | arr items =>
            rw [postBody_array hbody hparse]
            simp only [List.length_map]
            exact (within_batch channel command 0 items).bind (b := 0)
              (fun _ => Within.silent (uses_lift _) (fun _ => trivial))
        | _ =>
            rw [postBody_value hbody hparse (by simp)]
            exact single _

theorem within_onPublished (sid : Sid) (ws : Option Sock) (text : String) :
    Within 4 (onPublished rt sid ws text) := by
  refine within_then (fun stopped => ?_)
  split_ifs
  · trivial
  refine Within.rescue (n := 3) (b := 0) ?_ (fun _ => trivial)
  refine Within.silent (uses_parse text) (fun payload => ?_)
  refine Within.silent (uses_lift _) (fun command => ?_)
  refine Within.silent (uses_lift _) (fun args => ?_)
  split
  · exact (within_sends (sends_sendPayload command _)).synchronize
  · trivial

theorem within_subscriberEnds (sid : Sid) (w : Sock) (channel : Json) :
    Within 5 (subscriberEnds sid w channel) := by
  refine Within.bind (n := 4) (Within.synchronize (n := 2) ?_) (fun _ => within_call _)
  refine within_then (fun known => ?_)
  split_ifs
  · exact within_call _
  · trivial

end Budgets

theorem within_enter (rt : Runtime) (w : World) (t : Tid) (kind : Kind) (w' : World)
    (p : Code Out) (h : (gateway rt).enter w t kind = some (w', p)) :
    Within (budget rt kind) p := by
  obtain ⟨q, hq, heq⟩ := Option.map_eq_some_iff.mp h
  cases heq
  exact program_cases (P := fun kind p => Within (budget rt kind) p) hq
    (fun w => (within_onOpen w).bind (b := 0) (fun _ => trivial))
    (fun w data => (within_onMessage w data).bind (b := 0) (fun _ => trivial))
    (fun w => (within_onClose w).bind (b := 0) (fun _ => trivial))
    (fun channel command body => (within_post channel command body).bind (b := 0)
      (fun _ => trivial))
    (fun sid ws text => (within_onPublished sid ws text).bind (b := 0) (fun _ => trivial))
    (fun sid w channel => (within_subscriberEnds sid w channel).bind (b := 0) (fun _ => trivial))

/-- All threads have ended, the mutexes are free and no request waits. -/
def AtRest {rt : Runtime} (s : State (gateway rt)) : Prop :=
  (∀ th ∈ s.threads, th.prog.Finished) ∧ (∀ m, s.locks m = none) ∧ s.waiting = []

/-- The step is one of the thread that holds the mutex. -/
def ByOwner {rt : Runtime} (s : State (gateway rt)) (l : Label (gateway rt)) (m : Mutex) : Prop :=
  ∃ t, Label.thread? l = some t ∧ s.locks m = some t

/-- Only calls under a mutex change `CONNECTIONS` and the registries. -/
theorem perform_guarded (w : World) (choice : Choice) (c : Call) :
    ((perform w choice c).1.connections ≠ w.connections →
      ∀ kind, guard kind (.call c) = some .connections) ∧
    ((perform w choice c).1.subscribed ≠ w.subscribed →
      ∀ kind, guard kind (.call c) = some .subscribedChannels) := by
  cases c with
  | connDelete key => cases key <;> simp [perform, guard]
  | wsSend ws doc => cases ws <;> simp [perform, guard]
  | _ => simp [perform, guard, World.setService]

theorem funds_closed {rt : Runtime} {ls : List (Label (gateway rt))}
    (h : ∀ l ∈ ls, (Label.thread? l).isSome = true) : funds (budget rt) ls = 0 := by
  induction ls with
  | nil => rfl
  | cons l ls ih =>
      obtain ⟨hl, hls⟩ := List.forall_mem_cons.mp h
      cases l with
      | enter kind => cases hl
      | run t choice => exact ih hls
      | expire t => exact ih hls

section Runs
variable {rt : Runtime} {ls : List (Label (gateway rt))} {s s' : State (gateway rt)}

/-- The world changes only by a call of a thread. -/
theorem step_calls {l : Label (gateway rt)} {o : Obs (gateway rt)} (h : Step s l o s') :
    s'.world = s.world ∨ ∃ (t : Tid) (kind : Kind) (c : Call) (k : c.Resp → Code Out)
      (choice : Choice), s.threads[t]? = some ⟨kind, .act (.call c) k⟩ ∧
      o = .called t c (perform s.world choice c).2 ∧
      s'.world = (perform s.world choice c).1 := by
  cases h with
  | enter he =>
      obtain ⟨q, -, heq⟩ := Option.map_eq_some_iff.mp he
      exact .inl (Prod.mk.inj heq).1.symm
  | @call t choice kind c k ht => exact .inr ⟨t, kind, c, k, choice, ht, rfl, rfl⟩
  | _ => exact .inl rfl

/-- In every interleaving, whatever fails, a thread that has not ended can move, or
it waits for a mutex that another thread holds, and that thread can move. -/
theorem no_deadlock (h : exec (boot rt) ls = some s) {t : Tid} {th : Thread (gateway rt)}
    (ht : s.threads[t]? = some th) (hrun : ¬ th.prog.Finished) :
    CanMove s t ∨ ∃ m u, (∃ k, th.prog = .act (.acquire m) k) ∧ s.locks m = some u ∧ u ≠ t ∧
      CanMove s u := by
  obtain ⟨kind, prog⟩ := th
  cases prog with
  | done a => exact absurd trivial hrun
  | raise e => exact absurd trivial hrun
  | act p k =>
      refine (run_lockDisciplined h).progress ht {} |>.imp_right ?_
      rintro ⟨m, u, rfl, hrest⟩
      exact ⟨m, u, ⟨k, rfl⟩, hrest⟩

/-- Once no more threads enter, the gateway comes to rest after a bounded number of
steps, whichever thread moves and whatever fails: the steps are bounded by the
threads that have entered, and there is a next step until all have ended. -/
theorem comes_to_rest (h : exec (boot rt) ls = some s) {ls' : List (Label (gateway rt))}
    (h' : exec s ls' = some s') (hclosed : ∀ l ∈ ls', (Label.thread? l).isSome = true) :
    ls.length + ls'.length ≤ funds (budget rt) ls ∧
    (AtRest s' ∨ ∃ t, CanMove s' t) := by
  have hwhole := exec_trans h h'
  refine ⟨?_, ?_⟩
  · have hle := exec_length_le (within_enter rt) hwhole
    rw [List.length_append, funds_append, funds_closed hclosed, Nat.add_zero] at hle
    exact hle
  · by_cases hstuck : ∃ t, CanMove s' t
    · exact .inr hstuck
    · exact .inl ((run_lockDisciplined hwhole).quiescent {} (fun t ht => hstuck ⟨t, ht⟩))

/-- What a step can change, and who makes it. -/
theorem step_tables (d : Disciplined guard s) {l : Label (gateway rt)} {o : Obs (gateway rt)}
    (h : Step s l o s') :
    (s'.world.connections ≠ s.world.connections → ByOwner s l .connections) ∧
    (s'.world.subscribed ≠ s.world.subscribed → ByOwner s l .subscribedChannels) ∧
    ∀ key, (s.lists key).length < (s'.lists key).length → ByOwner s l .connections := by
  have same : ∀ {s' : State (gateway rt)} {l : Label (gateway rt)}, s'.world = s.world →
      (∀ key, (s'.lists key).length ≤ (s.lists key).length) →
      (s'.world.connections ≠ s.world.connections → ByOwner s l .connections) ∧
      (s'.world.subscribed ≠ s.world.subscribed → ByOwner s l .subscribedChannels) ∧
      ∀ key, (s.lists key).length < (s'.lists key).length → ByOwner s l .connections :=
    fun hworld hlists => ⟨fun hne => absurd (by rw [hworld]) hne,
      fun hne => absurd (by rw [hworld]) hne,
      fun key hlt => absurd hlt (Nat.not_lt.mpr (hlists key))⟩
  cases h with
  | enter he =>
      obtain ⟨q, -, heq⟩ := Option.map_eq_some_iff.mp he
      cases heq
      exact same rfl (fun _ => Nat.le_refl _)
  | @call t choice kind c k ht =>
      have hguard := perform_guarded s.world choice c
      exact ⟨fun hne => ⟨t, rfl, d.guarded ht trivial (hguard.1 hne kind)⟩,
        fun hne => ⟨t, rfl, d.guarded ht trivial (hguard.2 hne kind)⟩,
        fun key hlt => absurd hlt (Nat.lt_irrefl _)⟩
  | pushKeep ht _ _ =>
      exact ⟨fun hne => absurd rfl hne, fun hne => absurd rfl hne,
        fun _ _ => ⟨_, rfl, d.guarded ht trivial rfl⟩⟩
  | @clear t _ _ key _ ht _ =>
      refine same rfl (fun key' => ?_)
      by_cases hk : key' = key <;> simp [hk]
  | @awaitTake t _ _ key i is _ ht _ _ hlist =>
      refine same rfl (fun key' => ?_)
      by_cases hk : key' = key
      · simp [hk, hlist]
      · simp [hk]
  | _ => exact same rfl (fun _ => Nat.le_refl _)

/-- `CONNECTIONS` and the registries change, and a list of replies grows, only by a
step of the thread that holds the mutex of the table; and published commands are
written one at a time, under the mutex of the registries. -/
theorem tables_guarded (h : exec (boot rt) ls = some s) {l : Label (gateway rt)}
    (hstep : step s l = some s') :
    (s'.world.connections ≠ s.world.connections → ByOwner s l .connections) ∧
    (s'.world.subscribed ≠ s.world.subscribed → ByOwner s l .subscribedChannels) ∧
    (∀ key, (s.lists key).length < (s'.lists key).length → ByOwner s l .connections) ∧
    ∀ t sid text ws doc k, s.threads[t]? =
      some ⟨.command sid text, .act (.call (.wsSend ws doc)) k⟩ →
      s.locks .subscribedChannels = some t := by
  have d := run_lockDisciplined h
  obtain ⟨o, hs⟩ := step_sound hstep
  obtain ⟨hconnections, hsubscribed, hlists⟩ := step_tables d hs
  refine ⟨hconnections, hsubscribed, hlists, fun t sid text ws doc k ht => ?_⟩
  exact d.guarded ht trivial rfl

end Runs

/-- The handlers of two open events meet at the mutex of `CONNECTIONS`. -/
def meeting : List (Label (gateway (Runtime.ofTable []))) :=
  [.enter (.opened 0), .enter (.opened 1), .run 0 {}]

theorem exec_meeting : exec (boot (Runtime.ofTable [])) meeting = some (after meeting) := rfl

theorem no_deadlock_meeting : ∃ th, (after meeting).threads[1]? = some th ∧
    (CanMove (after meeting) 1 ∨ ∃ m u, (∃ k, th.prog = .act (.acquire m) k) ∧
      (after meeting).locks m = some u ∧ u ≠ 1 ∧ CanMove (after meeting) u) :=
  ⟨_, rfl, no_deadlock exec_meeting rfl (fun hf => hf)⟩

/-- Both handlers run to their end. -/
def parting : List (Label (gateway (Runtime.ofTable []))) := turns 0 2 ++ turns 1 3

theorem comes_to_rest_meeting : ∃ s', exec (after meeting) parting = some s' ∧ AtRest s' := by
  have hclosed : ∀ l ∈ parting, (Label.thread? l).isSome = true := by decide
  have run : exec (after meeting) parting = some (after (meeting ++ parting)) := rfl
  have progs : (after (meeting ++ parting)).threads.map Thread.prog =
      [.done .handled, .done .handled] := rfl
  refine ⟨_, run, (comes_to_rest exec_meeting run hclosed).2.resolve_right ?_⟩
  rintro ⟨t, hmove⟩
  obtain ⟨th, hth, hrunning⟩ := hmove.running
  have hprog : th.prog ∈ (after (meeting ++ parting)).threads.map Thread.prog :=
    List.mem_map_of_mem hth
  rw [progs] at hprog
  simp only [List.mem_cons, List.not_mem_nil, or_false, or_self] at hprog
  exact hrunning (hprog ▸ trivial)

theorem tables_guarded_meeting : ∃ s', step (after meeting) (.run 0 {}) = some s' ∧
    ByOwner (after meeting) (.run 0 {}) .connections := by
  refine ⟨_, rfl, (tables_guarded exec_meeting rfl).1 (fun heq => ?_)⟩
  exact Nat.one_ne_zero (congrArg (fun table => table.entries.length) heq)

end EvoGw.GatewayProgress
