import EvoGw.FailureCauses
import EvoGw.BadBodies

/-!
# What makes a thread fail

An exception that leaves a handler or a request ends its thread. Only the handler
of a message and a request can end so, and each for few reasons. Either the text or
the body is to blame, which can be told before the thread runs, or a library call of
the thread itself has failed, or the device has replied something that is no object.
A failed write never ends a request, since the sender logs it.
-/
namespace EvoGw.ThreadFailures
open ThreadPrograms ThreadPools PoolTraces FailureCauses
open GatewayCalls JsonValues WebSocketHandler ServerRoute GatewayPool CommandDocuments
open CommandResults BadBodies

/-- The documents which the handler of a message turns into text. -/
def Printed (message doc : Json) : Prop :=
  doc = message ∨
  (message.index "cmd" = .ok (.str "reg") ∧ ∃ time, doc = regResponse time) ∨
  (message.index "cmd" = .ok (.str "sendlog") ∧ ∃ count logindex time,
    message.index "count" = .ok count ∧ message.index "logindex" = .ok logindex ∧
    doc = sendlogResponse count logindex time)

/-- The exceptions for which the input of a thread is to blame. -/
def Blame (rt : Runtime) : Kind → RubyError → Prop
  | .message _ data, e =>
      match rt.parse data with
      | none => e = .parserError
      | some message => message.index "sn" = .error e ∨
          e = .generatorError ∧ ∃ doc, Printed message doc ∧ rt.generates doc = false
  | .post _ command body, e =>
      (∃ args ∈ commandArgs rt command body, document command args = .error e) ∨
      e = .noMethodError ∧ command ∉ commandsWithoutBody ∧ strip body ≠ "" ∧
        rt.parse (strip body) = some (.arr [])
  | _, _ => False

/-- What a value that is no object makes the route raise. -/
def Unfit (v : Json) (e : RubyError) : Prop :=
  (∀ fields, v ≠ .obj fields) ∧ (e = .typeError ∨ e = .noMethodError)

/-- The exceptions for which the reply of the device is to blame. -/
def Unreadable (rt : Runtime) (raw : String) (e : RubyError) : Prop :=
  match rt.parse raw with
  | none => e = .parserError
  | some v => Unfit v e

/-- The exceptions for which an answer to the thread is to blame. -/
def Fault (rt : Runtime) : Kind → Event sig → RubyError → Prop
  | .message _ _, ⟨.push _ _, done⟩, e => done = false ∧ e = .redisError
  | .message _ _, ⟨.clear _, done⟩, e => done = false ∧ e = .redisError
  | .message _ _, ⟨.call (.publish _ _), done⟩, e => done = false ∧ e = .redisError
  | .message _ _, ⟨.call (.wsSend _ _), sent⟩, e => sent = .raised ∧ e = .socketError
  | .post _ _ _, ⟨.call .redisNew, opened⟩, e => opened = false ∧ e = .redisError
  | .post _ _ _, ⟨.await _, .failed⟩, e => e = .redisError
  | .post _ _ _, ⟨.await _, .got raw⟩, e => Unreadable rt raw e
  | _, _, _ => False

/-- Nothing is said about the result. -/
def Any {A : Type} (_ : RubyError → Prop) (_ : A) : Prop := True

theorem stable_any {A : Type} : Stable (S := sig) (Any (A := A)) := fun _ _ _ _ _ => trivial

section Statements
variable {rt : Runtime} {kind : Kind} {A B : Type} {post : (RubyError → Prop) → B → Prop}
  {fault : Event sig → RubyError → Prop} {cause : RubyError → Prop}

theorem fails_lift {x : Except RubyError A} {f : A → Code B} (herr : ∀ e, x = .error e → cause e)
    (hok : ∀ a, x = .ok a → Fails fault post cause (f a)) :
    Fails fault post cause (lift x >>= f) := by
  cases x with
  | ok a => exact hok a rfl
  | error e => exact herr e rfl

theorem fails_call (c : Call) : Fails fault Any cause (call c) := fun _ => trivial

theorem fails_generate {doc : Json} (h : rt.generates doc = false → cause .generatorError) :
    Fails fault Any cause (generate rt doc) := by
  unfold generate
  split_ifs with hdoc
  · trivial
  · exact h (Bool.eq_false_of_not_eq_true hdoc)

theorem fails_redis {done : Bool} (h : done = false → cause .redisError) :
    Fails fault Any cause (redis done) := by
  cases done with
  | true => trivial
  | false => exact h rfl

end Statements

/-! ### The handler of a message -/

section Messages
variable {rt : Runtime} {w : Sock} {data : String} {message sn : Json} {cause : RubyError → Prop}

theorem fails_handOver : Fails (Fault rt (.message w data)) Any cause (handOver rt sn data) := by
  refine Fails.synchronize ?_ stable_any
  split_ifs
  · have pushes : ∀ key, Fails (Fault rt (.message w data)) Any cause (lpush key data) :=
      fun _ done => fails_redis (fun hdone => .inr ⟨hdone, rfl⟩)
    refine (pushes _).bind (fun _ _ _ _ => ?_)
    exact fun done => fails_redis (fun hdone => .inr ⟨hdone, rfl⟩)
  · trivial

theorem fails_registerRoute {kind : Kind} :
    Fails (Fault rt kind) Any cause (registerRoute w sn) := by
  unfold registerRoute
  split_ifs
  · exact Fails.synchronize (fun _ _ => trivial) stable_any
  · trivial

theorem fails_responseWs {ws : Option Sock} {doc : Json}
    (h : rt.generates doc = false → cause .generatorError) :
    Fails (Fault rt (.message w data)) Any cause (responseWs rt ws doc) := by
  have sends : Fails (Fault rt (.message w data)) Any cause (wsSend rt ws doc) := by
    refine (fails_generate h).bind (fun known _ _ _ => ?_)
    intro sent
    cases sent with
    | raised => exact .inr ⟨rfl, rfl⟩
    | _ => trivial
  exact sends.bind (fun known _ hknown _ => fails_generate (fun hdoc => hknown _ (h hdoc)))

/-- The index of a message that has answered one key answers them all. -/
theorem index_fails {u : Json} {key key' : String} {e : RubyError} (h : message.index key = .ok u)
    (herr : message.index key' = .error e) : False := by
  obtain ⟨u', hu'⟩ := index_ok h key'
  cases hu'.symm.trans herr

theorem fails_handleReg {ws : Option Sock} (hsn : message.index "sn" = .ok sn)
    (hprint : ∀ doc, Printed message doc → rt.generates doc = false → cause .generatorError) :
    Fails (Fault rt (.message w data)) Any cause (handleReg rt message ws) := by
  have reads : ∀ key e, message.index key = .error e → False := fun _ _ => index_fails hsn
  refine fails_lift (fun e he => (reads _ e he).elim) (fun _ _ => ?_)
  refine (fails_generate (hprint message (.inl rfl))).bind (fun known _ hknown _ => ?_)
  refine fails_lift (fun e he => (reads _ e he).elim) (fun cmd hcmd => ?_)
  split_ifs with hreg hlog
  · subst hreg
    intro time
    exact fails_responseWs (fun hdoc =>
      .inl (hknown _ (hprint _ (.inr (.inl ⟨hcmd, time, rfl⟩)) hdoc)))
  · subst hlog
    refine fails_lift (fun e he => (reads _ e he).elim) (fun count hcount => ?_)
    refine fails_lift (fun e he => (reads _ e he).elim) (fun logindex hlogindex => ?_)
    intro time
    refine fails_responseWs (fun hdoc => .inl (hknown _ (hprint _ (.inr (.inr ?_)) hdoc)))
    exact ⟨hcmd, count, logindex, time, hcount, hlogindex, rfl⟩
  · trivial

theorem fails_start {kind : Kind} (sid : Sid) (channel : Json) :
    Fails (Fault rt kind) Any cause (start sid w channel) := by
  have known : ∀ {cause : RubyError → Prop} (c : Call),
      Fails (Fault rt kind) Any cause (Program.synchronize .subscribedChannels (call c)) :=
    fun c => (fails_call c).synchronize stable_any
  refine (known _).bind (fun _ registered _ _ => ?_)
  split_ifs
  · trivial
  · refine (fails_call _).bind (fun _ alive _ _ => ?_)
    split_ifs
    · trivial
    · exact (known _).bind (fun _ _ _ _ => fails_call _)

/-- The handler of a message fails because of its text, of Redis or of the socket. -/
theorem fails_onMessage : Fails (Fault rt (.message w data)) Any (Blame rt (.message w data))
    (onMessage rt w data) := by
  unfold onMessage parse
  cases hparse : rt.parse data with
  | none => simp [Fails, Blame, hparse]
  | some message =>
      have blame : ∀ e, Blame rt (.message w data) e ↔ message.index "sn" = .error e ∨
          e = .generatorError ∧ ∃ doc, Printed message doc ∧ rt.generates doc = false := by
        intro e
        simp only [Blame, hparse]
      refine fails_lift (fun e he => (blame e).mpr (.inl he)) (fun sn hsn => ?_)
      refine fails_handOver.bind (fun known₁ _ h₁ _ => ?_)
      refine fails_lift (fun e he => (index_fails hsn he).elim) (fun command _ => ?_)
      refine fails_registerRoute.bind (fun known₂ _ h₂ _ => ?_)
      intro ws
      refine (fails_handleReg hsn (fun doc hdoc hgen => ?_)).bind (fun known₃ _ _ _ => ?_)
      · exact .inl (h₂ _ (h₁ _ ((blame _).mpr (.inr ⟨rfl, doc, hdoc, hgen⟩))))
      split_ifs
      · exact fun done => fails_redis (fun hdone => .inr ⟨hdone, rfl⟩)
      · exact fun _ sid => fails_start sid sn

end Messages

/-! ### The request -/

section Requests
variable {rt : Runtime} {channel command body : String} {cause : RubyError → Prop}

/-- What the route raises over a result is known to have a cause. -/
def Sane (cause : RubyError → Prop) (result : Result) : Prop :=
  ∀ v e, result = .device v → Unfit v e → cause e

theorem stable_sane : Stable (S := sig) Sane :=
  fun _ _ _ hcause h v e hv hunfit => hcause e (h v e hv hunfit)

theorem Sane.index {result : Result} (h : Sane cause result) {key : String} {e : RubyError}
    (he : result.index key = .error e) : cause e := by
  cases result with
  | error m => cases he
  | device v =>
      refine h v e rfl ?_
      cases v <;> cases he <;> exact ⟨by simp, by simp⟩

theorem Sane.reject_error {result : Result} (h : Sane cause result) {e : RubyError}
    (he : result.reject = .error e) : cause e := by
  cases result with
  | error m => cases he
  | device v =>
      refine h v e rfl ?_
      cases v <;> cases he <;> exact ⟨by simp, by simp⟩

/-- Rejecting fields or elements makes no object of an array and no array of an object. -/
theorem Sane.reject_ok {result response : Result} (h : Sane cause result)
    (hok : result.reject = .ok response) : Sane cause response := by
  cases result with
  | error m =>
      cases hok
      exact h
  | device v =>
      cases v with
      | obj fields =>
          cases hok
          rintro v e ⟨⟩ ⟨hobj, -⟩
          exact absurd rfl (hobj _)
      | arr items =>
          cases hok
          rintro v e ⟨⟩ ⟨-, he⟩
          exact h _ e rfl ⟨by simp, he⟩
      | _ => cases hok

theorem fails_replyOf {key : String} {reply : Awaited String}
    (h : ∀ e, Fault rt (.post channel command body) ⟨.await key, reply⟩ e → cause e) :
    Fails (Fault rt (.post channel command body)) Sane cause (replyOf rt reply) := by
  cases reply with
  | timedOut => exact fun v e hv => by cases hv
  | failed => exact h _ rfl
  | got raw =>
      have hraw : ∀ e, Unreadable rt raw e → cause e := h
      unfold Unreadable at hraw
      simp only [replyOf, parse]
      cases hparse : rt.parse raw with
      | none =>
          rw [hparse] at hraw
          exact hraw _ rfl
      | some v =>
          rw [hparse] at hraw
          rintro v' e ⟨⟩ hunfit
          exact hraw e hunfit

/-- Whatever becomes of the frame, only arguments that do not fit the command raise. -/
theorem fails_send {fault : Event sig → RubyError → Prop} {ws : Option Sock} {args : List Json}
    (h : ∀ e, document command args = .error e → cause e) :
    Fails fault Any cause (DevicesSender.send rt ws command args) := by
  rw [send_eq]
  cases hdoc : document command args with
  | error e => exact h e hdoc
  | ok made =>
      cases made with
      | none => trivial
      | some doc =>
          simp only [sendWsCommand_eq]
          split_ifs
          · exact fun _ => trivial
          · trivial

theorem fails_handleWsCommand {args : List Json}
    (h : ∀ e, document command args = .error e → cause e) :
    Fails (Fault rt (.post channel command body)) Sane cause
      (handleWsCommand rt channel command args) := by
  rw [handleWsCommand_eq]
  intro found
  cases found with
  | none => exact fun v e hv => by cases hv
  | some ws =>
      refine (fails_send (fun e he => .inl (h e he))).bind (fun known _ _ _ => ?_)
      rw [awaitReply_eq]
      intro opened
      cases opened with
      | false => exact .inr ⟨rfl, rfl⟩
      | true =>
          exact fun reply => fails_replyOf (fun e he => .inr he)

theorem fails_single {args : List Json} (h : ∀ e, document command args = .error e → cause e) :
    Fails (Fault rt (.post channel command body)) Any cause (do
      let response ← handleWsCommand rt channel command args
      responseHttp response) := by
  refine (fails_handleWsCommand h).bind (fun known response _ hsane => ?_)
  exact fails_lift (fun e he => hsane.index he) (fun _ _ => trivial)

theorem bind_error {A B : Type} {x : Except RubyError A} {f : A → Except RubyError B}
    {e : RubyError} (h : x >>= f = .error e) : x = .error e ∨ ∃ a, f a = .error e := by
  cases x with
  | ok a => exact .inr ⟨a, h⟩
  | error e' =>
      cases h
      exact .inl rfl

theorem bind_ok {A B : Type} {x : Except RubyError A} {f : A → Except RubyError B} {b : B}
    (h : x >>= f = .ok b) : ∃ a, x = .ok a ∧ f a = .ok b := by
  cases x with
  | ok a => exact ⟨a, rfl, h⟩
  | error e => cases h

theorem entryOf_error {index : ℕ} {result : Result} (h : Sane cause result) {e : RubyError}
    (he : entryOf index result = .error e) : cause e := by
  rcases bind_error he with hreject | ⟨response, he⟩
  · exact h.reject_error hreject
  split_ifs at he
  · rcases bind_error he with hret | ⟨ret, he⟩
    · exact h.index hret
    rcases bind_error he with hsn | ⟨sn, he⟩
    · exact h.index hsn
    · cases he
  · cases he

theorem entryOf_sane {index : ℕ} {result : Result} {entry : Entry} (h : Sane cause result)
    (hok : entryOf index result = .ok entry) : Sane cause entry.response := by
  obtain ⟨response, hreject, hok⟩ := bind_ok hok
  split_ifs at hok
  · obtain ⟨ret, -, hok⟩ := bind_ok hok
    obtain ⟨sn, -, hok⟩ := bind_ok hok
    cases hok
    exact h.reject_ok hreject
  · cases hok
    exact h.reject_ok hreject

/-- The entries of a batch: one for each item, all of them sane. -/
def SaneEntries (n : ℕ) (cause : RubyError → Prop) (entries : List Entry) : Prop :=
  entries.length = n ∧ ∀ entry ∈ entries, Sane cause entry.response

theorem fails_batch {items : List Json}
    (h : ∀ item ∈ items, ∀ e, document command (itemArgs item) = .error e → cause e) (index : ℕ) :
    Fails (Fault rt (.post channel command body)) (SaneEntries items.length) cause
      (batch rt channel command index items) := by
  induction items generalizing index cause with
  | nil => exact ⟨rfl, by simp⟩
  | cons item items ih =>
      obtain ⟨hitem, hitems⟩ := List.forall_mem_cons.mp h
      refine (fails_handleWsCommand hitem).bind (fun known result hknown hsane => ?_)
      refine fails_lift (fun e he => entryOf_error hsane he) (fun entry hentry => ?_)
      have hrest := ih (fun item hmem e he => hknown e (hitems item hmem e he)) (index + 1)
      refine hrest.bind (fun known' entries hknown' hentries => ?_)
      refine ⟨congrArg (· + 1) hentries.1, List.forall_mem_cons.mpr ⟨?_, hentries.2⟩⟩
      exact stable_sane hknown' (entryOf_sane hsane hentry)

theorem batchStatus_error {n : ℕ} {entries : List Entry} (h : SaneEntries n cause entries)
    {e : RubyError} (he : batchStatus entries = .error e) :
    cause e ∨ n = 0 ∧ e = .noMethodError := by
  unfold batchStatus at he
  split at he
  · rename_i entry hlast
    exact .inl ((h.2 entry (List.mem_of_getLast? hlast)).index he)
  · rename_i hlast
    cases he
    refine .inr ⟨?_, rfl⟩
    rw [← h.1, List.getLast?_eq_none_iff.mp hlast]
    rfl

/-- The parser error of a body is the one which the route rescues. -/
theorem fails_postBody (hcommand : command ∉ commandsWithoutBody) :
    Fails (Fault rt (.post channel command body)) Any
      (fun e => Blame rt (.post channel command body) e ∨ e = .parserError)
      (postBody rt channel command body) := by
  by_cases hblank : strip body = ""
  · unfold postBody
    rw [if_pos hblank]
    trivial
  cases hparse : rt.parse (strip body) with
  | none =>
      unfold postBody parse
      rw [if_neg hblank, hparse]
      exact .inr rfl
  | some v =>
      by_cases harr : ∃ items, v = .arr items
      · obtain ⟨items, rfl⟩ := harr
        have hargs : commandArgs rt command body = items.map itemArgs := by
          simp [commandArgs, hcommand, hblank, hparse]
        have hitems : ∀ item ∈ items, ∀ e, document command (itemArgs item) = .error e →
            Blame rt (.post channel command body) e ∨ e = .parserError := by
          intro item hmem e he
          refine .inl (.inl ⟨itemArgs item, ?_, he⟩)
          rw [hargs]
          exact List.mem_map_of_mem hmem
        rw [postBody_array hblank hparse]
        refine (fails_batch hitems 0).bind (fun known entries hknown hentries => ?_)
        refine fails_lift (fun e he => ?_) (fun _ _ => trivial)
        rcases batchStatus_error hentries he with hcause | ⟨hnone, rfl⟩
        · exact hcause
        · rw [List.length_eq_zero_iff.mp hnone] at hparse
          exact hknown _ (.inl (.inr ⟨rfl, hcommand, hblank, hparse⟩))
      · have hv : ∀ items, v ≠ .arr items := fun items h => harr ⟨items, h⟩
        have hargs : commandArgs rt command body = [itemArgs v] := by
          unfold commandArgs
          rw [if_neg hcommand, if_neg hblank, hparse]
          cases v with
          | arr items => exact absurd rfl (hv items)
          | _ => rfl
        rw [postBody_value hblank hparse hv]
        refine fails_single (fun e he => .inl (.inl ⟨itemArgs v, ?_, he⟩))
        rw [hargs]
        exact List.mem_singleton_self _

/-- A request fails because of its body, of Redis or of a reply that is no object. -/
theorem fails_post : Fails (Fault rt (.post channel command body)) Any
    (Blame rt (.post channel command body)) (post rt channel command body) := by
  unfold post
  split_ifs with hcommand
  · refine fails_single (fun e he => .inl ⟨[], ?_, he⟩)
    simp [commandArgs, hcommand]
  · refine (Fails.rescue_one (fails_postBody hcommand)).mono stable_any (fun _ _ he => he.1) ?_
    rintro e ⟨hblame | hparser, hne⟩
    · exact hblame
    · exact absurd hparser hne

end Requests

/-! ### All threads -/

section Threads
variable {rt : Runtime}

theorem fails_onPublished (sid : Sid) (ws : Option Sock) (text : String) (kind : Kind)
    {cause : RubyError → Prop} : Fails (Fault rt kind) Any cause (onPublished rt sid ws text) := by
  refine (fails_call _).bind (fun _ stopped _ _ => ?_)
  split_ifs
  · trivial
  · exact Fails.rescue_any (fun _ _ => trivial) (fun _ _ => trivial)

theorem fails_subscriberEnds (sid : Sid) (w : Sock) (channel : Json) (kind : Kind)
    {cause : RubyError → Prop} :
    Fails (Fault rt kind) Any cause (subscriberEnds sid w channel) := by
  have unlists : ∀ {cause : RubyError → Prop}, Fails (Fault rt kind) Any cause (do
      let known ← call (.registered w channel)
      if known then call (.unregister w channel) else pure ()) := by
    refine (fails_call _).bind (fun _ known _ _ => ?_)
    split_ifs
    · exact fails_call _
    · trivial
  exact (unlists.synchronize stable_any).bind (fun _ _ _ _ => fails_call _)

theorem fails_onClose (w : Sock) (kind : Kind) {cause : RubyError → Prop} :
    Fails (Fault rt kind) Any cause (onClose w) := by
  have removes : ∀ {cause : RubyError → Prop}, Fails (Fault rt kind) Any cause (do
      let ws ← call (.wsVar w)
      let sn ← call (.connKey ws)
      call (.connDelete sn)) :=
    (fails_call _).bind (fun _ _ _ _ => (fails_call _).bind (fun _ _ _ _ => fails_call _))
  exact (removes.synchronize stable_any).bind (fun _ _ _ _ => fails_call _)

/-- What a thread raises, from its entry to its end. -/
theorem fails_enter (w : World) (t : Tid) (kind : Kind) (w' : World) (p : Code Out)
    (h : (gateway rt).enter w t kind = some (w', p)) :
    Fails (Fault rt kind) Any (Blame rt kind) p := by
  obtain ⟨q, hq, heq⟩ := Option.map_eq_some_iff.mp h
  cases heq
  cases kind with
  | opened w =>
      cases hq
      exact ((fails_call _).synchronize stable_any).bind (fun _ _ _ _ => trivial)
  | message w data =>
      cases hq
      exact fails_onMessage.bind (fun _ _ _ _ => trivial)
  | closed w =>
      cases hq
      exact (fails_onClose w _).bind (fun _ _ _ _ => trivial)
  | post channel command body =>
      cases hq
      exact fails_post.bind (fun _ _ _ _ => trivial)
  | command sid text =>
      simp only [program] at hq
      split at hq
      · split_ifs at hq
        cases hq
        exact (fails_onPublished sid _ text _).bind (fun _ _ _ _ => trivial)
      · cases hq
  | disconnected sid =>
      simp only [program] at hq
      split at hq
      · split_ifs at hq
        cases hq
        exact (fails_subscriberEnds sid _ _ _).bind (fun _ _ _ _ => trivial)
      · cases hq

end Threads

section Runs
variable {rt : Runtime} {ls : List (Label (gateway rt))} {s : State (gateway rt)}

/-- A request that has heard only JSON texts does not fail over one that is none. -/
theorem post_parses {channel command body : String} {tr : List (Event sig)} {e : RubyError}
    (hjson : ∀ ev ∈ tr, HearsJson rt ev) (h : Blame rt (.post channel command body) e ∨
      ∃ ev ∈ tr, Fault rt (.post channel command body) ev e) : e ≠ .parserError := by
  rintro rfl
  rcases h with (⟨args, -, hdoc⟩ | ⟨⟨⟩, -⟩) | ⟨⟨p, r⟩, hev, hfault⟩
  · rcases document_error hdoc with h | h | h <;> cases h
  · cases p with
    | await key =>
        cases r with
        | got raw =>
            obtain ⟨v, hv⟩ := Option.isSome_iff_exists.mp (hjson _ hev)
            simp only [Fault, Unreadable, hv] at hfault
            rcases hfault.2 with h | h <;> cases h
        | timedOut => exact hfault
        | failed => cases hfault
    | call c =>
        cases c with
        | redisNew => cases hfault.2
        | _ => exact hfault
    | _ => exact hfault

/-- In every reachable state a thread that an exception has ended is the handler of
a message or a request. Its own input is to blame, or an answer to a step of its own;
a request is never ended by a parser error. -/
theorem failure_cause (h : exec (boot rt) ls = some s) {t : Tid} {kind : Kind} {e : RubyError}
    (ht : s.threads[t]? = some ⟨kind, .raise e⟩) :
    (Blame rt kind e ∨ ∃ ev ∈ trace t s.log, Fault rt kind ev e) ∧
    ((∃ w data, kind = .message w data) ∨
      (∃ channel command body, kind = .post channel command body) ∧ e ≠ .parserError) := by
  obtain ⟨v, v', p, hp, hres⟩ := exec_residual h ht
  have hcause := (fails_enter v t kind v' p hp).residual hres rfl
  refine ⟨hcause, ?_⟩
  cases kind with
  | message w data => exact .inl ⟨w, data, rfl⟩
  | post channel command body =>
      exact .inr ⟨⟨channel, command, body, rfl⟩, post_parses (heard_json h t) hcause⟩
  | _ =>
      rcases hcause with hblame | ⟨ev, -, hfault⟩
      · exact hblame.elim
      · exact hfault.elim

end Runs

/-- A runtime which reads one text, the message of a device. -/
def oneText : Runtime := Runtime.ofTable [("m", .obj [("sn", .str "A")])]

/-- The handler of this message enters its section, Redis refuses the push, and the
section is left. -/
def refusedPush : List (Label (gateway oneText)) :=
  [.enter (.message 0 "m"), .run 0 {}, .run 0 { fails := true }, .run 0 {}]

theorem failure_cause_push :
    ∃ ev ∈ trace 0 (after refusedPush).log, Fault oneText (.message 0 "m") ev .redisError := by
  have run : exec (boot oneText) refusedPush = some (after refusedPush) := rfl
  have raised : (after refusedPush).threads[0]? = some ⟨.message 0 "m", .raise .redisError⟩ := rfl
  refine (failure_cause run raised).1.resolve_left ?_
  rintro (hsn | ⟨⟨⟩, -⟩)
  cases hsn

end EvoGw.ThreadFailures
