import EvoGw.CommandCourses
import EvoGw.Deliveries
import EvoGw.GatewayPool
import EvoGw.PoolContracts

/-!
# What the commands of a request have returned

A request calls `handle_ws_command` once, or once per item of its array, one call
after another. `Calls` reads off the events of a request which calls are over and
what they have returned, whether the request itself has ended or not. A call
returns the message which Redis has given it, parsed, and no other: the messages
which a request has returned are those it was served with, each of them brought by
the handler that has pushed it.

Threads run in any order, and Redis and the sockets may fail.
-/
namespace EvoGw.CommandResults
open ThreadPrograms ThreadPools PoolTraces PoolContracts HandoffFate ListHistories Deliveries
open GatewayCalls JsonValues DevicesSender ServerRoute CommandCourses GatewayPool

/-- The device message in a result. -/
def message? : Result → Option Json
  | .device v => some v
  | .error _ => none

/-- The calls with these arguments, as far as these events go, have returned these
results. The call after them may be under way, or have raised. -/
inductive Calls (rt : Runtime) (channel command : String) :
    List (List Json) → List (Event sig) → List Result → Prop
  | rest {argss : List (List Json)} : Calls rt channel command argss [] []
  | running {args : List Json} {argss : List (List Json)} {tr : List (Event sig)}
      {q : Code Result} : Residual (handleWsCommand rt channel command args) tr q →
      (∀ result, q ≠ .done result) → Calls rt channel command (args :: argss) tr []
  | cons {args : List Json} {argss : List (List Json)} {tr trs : List (Event sig)}
      {result : Result} {results : List Result} :
      Residual (handleWsCommand rt channel command args) tr (.done result) →
      Calls rt channel command argss trs results →
      Calls rt channel command (args :: argss) (tr ++ trs) (result :: results)

/-- The entries of a batch from an index on, each made of its own result. -/
inductive Entered : ℕ → List Result → List Entry → Prop
  | nil (index : ℕ) : Entered index [] []
  | cons {index : ℕ} {result : Result} {entry : Entry} {results : List Result}
      {entries : List Entry} : entryOf index result = .ok entry →
      Entered (index + 1) results entries →
      Entered index (result :: results) (entry :: entries)

/-- The body of an answer shows these results and reads its status off the last. -/
inductive Shows : Body → List Result → Prop
  | single {status : Json} {result : Result} : result.index "result" = .ok status →
      Shows (.single status result) [result]
  | batch {status : Json} {results : List Result} {entries : List Entry} :
      Entered 0 results entries → batchStatus entries = .ok status →
      Shows (.batch status entries) results

/-- An answer 200 shows one result per call. -/
def Concludes (argss : List (List Json)) (results : List Result) (q : Code Answer) : Prop :=
  ∀ a, q = .done a → a.code = 200 → results.length = argss.length ∧ Shows a.body results

/-! ### The route is its calls -/

section Calls
variable {rt : Runtime} {channel command : String} {tr : List (Event sig)}

theorem calls_of_batch {items : List Json} {index : ℕ} {q : Code (List Entry)}
    (h : Residual (batch rt channel command index items) tr q) :
    ∃ results, Calls rt channel command (items.map itemArgs) tr results ∧
      ∀ entries, q = .done entries → results.length = items.length ∧
        Entered index results entries := by
  induction items generalizing index tr q with
  | nil =>
      obtain ⟨rfl, rfl⟩ := h.of_finished trivial
      refine ⟨[], .rest, fun entries hq => ⟨rfl, ?_⟩⟩
      cases hq
      exact .nil index
  | cons item items ih =>
      rcases Residual.bind_inv h with ⟨p, hp, hrun, hq⟩ | ⟨result, tr₁, rest, rfl, hcall, h⟩
      · exact ⟨[], .running hp hrun, fun entries heq => absurd heq (hq entries)⟩
      cases hentry : entryOf index result with
      | error e =>
          rw [hentry] at h
          obtain ⟨rfl, rfl⟩ := h.of_finished trivial
          refine ⟨[result], .cons hcall .rest, fun entries heq => ?_⟩
          cases heq
      | ok entry =>
          rw [hentry] at h
          change Residual (batch rt channel command (index + 1) items >>= fun entries =>
            pure (entry :: entries)) rest q at h
          rcases Residual.bind_inv h with ⟨p, hp, -, hq⟩ | ⟨entries, tr₂, tr₃, rfl, hloop, h⟩
          · obtain ⟨results, hcalls, -⟩ := ih hp
            exact ⟨result :: results, .cons hcall hcalls,
              fun entries heq => absurd heq (hq entries)⟩
          · obtain ⟨rfl, rfl⟩ := h.of_finished trivial
            obtain ⟨results, hcalls, hdone⟩ := ih hloop
            obtain ⟨hlength, hentered⟩ := hdone entries rfl
            rw [List.append_nil]
            refine ⟨result :: results, .cons hcall hcalls, fun entries' heq => ?_⟩
            cases heq
            exact ⟨congrArg (· + 1) hlength, .cons hentry hentered⟩

theorem calls_of_single {args : List Json} {q : Code Answer} (h : Residual (do
      let response ← handleWsCommand rt channel command args
      responseHttp response) tr q) :
    ∃ results, Calls rt channel command [args] tr results ∧ Concludes [args] results q := by
  rcases Residual.bind_inv h with ⟨p, hp, hrun, hq⟩ | ⟨response, tr₁, tr₂, rfl, hcall, h⟩
  · exact ⟨[], .running hp hrun, fun a heq => absurd heq (hq a)⟩
  have hend : (responseHttp response).Finished :=
    (finished_lift (response.index "result")).bind (fun _ => trivial)
  obtain ⟨rfl, rfl⟩ := h.of_finished hend
  refine ⟨[response], .cons hcall .rest, fun a heq _ => ⟨rfl, ?_⟩⟩
  unfold responseHttp at heq
  cases hstatus : response.index "result" with
  | error e =>
      rw [hstatus] at heq
      cases heq
  | ok status =>
      rw [hstatus] at heq
      cases heq
      exact .single hstatus

theorem calls_of_array {items : List Json} {q : Code Answer} (h : Residual (do
      let responses ← batch rt channel command 0 items
      let status ← lift (batchStatus responses)
      pure (Answer.mk 200 (.batch status responses))) tr q) :
    ∃ results, Calls rt channel command (items.map itemArgs) tr results ∧
      Concludes (items.map itemArgs) results q := by
  rcases Residual.bind_inv h with ⟨p, hp, -, hq⟩ | ⟨entries, tr₁, tr₂, rfl, hloop, h⟩
  · obtain ⟨results, hcalls, -⟩ := calls_of_batch hp
    exact ⟨results, hcalls, fun a heq => absurd heq (hq a)⟩
  obtain ⟨results, hcalls, hdone⟩ := calls_of_batch hloop
  obtain ⟨hlength, hentered⟩ := hdone entries rfl
  have hend : (lift (batchStatus entries) >>= fun status =>
      (pure ⟨200, .batch status entries⟩ : Code Answer)).Finished :=
    (finished_lift _).bind (fun _ => trivial)
  obtain ⟨rfl, rfl⟩ := h.of_finished hend
  rw [List.append_nil]
  refine ⟨results, hcalls, fun a heq _ => ⟨by rw [hlength, List.length_map], ?_⟩⟩
  cases hstatus : batchStatus entries with
  | error e =>
      rw [hstatus] at heq
      cases heq
  | ok status =>
      rw [hstatus] at heq
      cases heq
      exact .batch hentered hstatus

theorem calls_of_postBody {body : String} {q : Code Answer}
    (hcommand : command ∉ commandsWithoutBody)
    (h : Residual (postBody rt channel command body) tr q) :
    ∃ results, Calls rt channel command (commandArgs rt command body) tr results ∧
      Concludes (commandArgs rt command body) results q := by
  by_cases hbody : strip body = ""
  · rw [postBody, if_pos hbody] at h
    obtain ⟨rfl, rfl⟩ := h.of_finished trivial
    refine ⟨[], .rest, fun a heq hok => ?_⟩
    cases heq
    cases hok
  cases hparse : rt.parse (strip body) with
  | none =>
      rw [postBody, if_neg hbody, parse, hparse] at h
      obtain ⟨rfl, rfl⟩ := h.of_finished trivial
      refine ⟨[], .rest, fun a heq _ => ?_⟩
      cases heq
  | some v =>
      by_cases harr : ∃ items, v = .arr items
      · obtain ⟨items, rfl⟩ := harr
        have hargs : commandArgs rt command body = items.map itemArgs := by
          simp only [commandArgs, if_neg hcommand, if_neg hbody, hparse]
        rw [postBody_array hbody hparse] at h
        rw [hargs]
        exact calls_of_array h
      · have hv : ∀ items, v ≠ .arr items := fun items heq => harr ⟨items, heq⟩
        have hargs : commandArgs rt command body = [itemArgs v] := by
          simp only [commandArgs, if_neg hcommand, if_neg hbody, hparse]
        rw [postBody_value hbody hparse hv] at h
        rw [hargs]
        exact calls_of_single h

/-- Whatever a request has done so far it has done in its calls. -/
theorem calls_of_post {body : String} {q : Code Answer}
    (h : Residual (post rt channel command body) tr q) :
    ∃ results, Calls rt channel command (commandArgs rt command body) tr results ∧
      Concludes (commandArgs rt command body) results q := by
  unfold post at h
  split_ifs at h with hcommand
  · rw [commandArgs, if_pos hcommand]
    exact calls_of_single h
  obtain ⟨p, hp, rfl⟩ := h.rescue_inv (fun e => by split_ifs <;> trivial)
  obtain ⟨results, hcalls, hdone⟩ := calls_of_postBody hcommand hp
  refine ⟨results, hcalls, fun a heq hok => ?_⟩
  cases p with
  | done a' => exact hdone a heq hok
  | raise e =>
      rw [Program.rescue_raise] at heq
      split_ifs at heq
      cases heq
      cases hok
  | act p k => cases heq

/-- What every command of a request relies on is what the request relies on. -/
theorem relies_requests {sound : Event sig → Prop} {ok : Prim sig → Prop} {body : String}
    (h : ∀ args, Relies sound ok (fun _ => True) (handleWsCommand rt channel command args)) :
    Relies sound ok (fun _ => True) (post rt channel command body) := by
  have single : ∀ args, Relies sound ok (fun _ => True) (do
      let response ← handleWsCommand rt channel command args
      responseHttp response) := fun args =>
    (h args).seq (fun _ => Relies.of_uses ((uses_lift _).bind (fun _ => trivial)))
  have several : ∀ index items,
      Relies sound ok (fun _ => True) (batch rt channel command index items) := by
    intro index items
    induction items generalizing index with
    | nil => trivial
    | cons item items ih =>
        refine (h _).seq (fun result => ?_)
        refine (Relies.of_uses (uses_lift _)).seq (fun entry => ?_)
        exact (ih (index + 1)).seq (fun _ => trivial)
  unfold post
  split
  · exact single []
  · refine Relies.rescue ?_ (fun e => by split <;> trivial)
    unfold postBody
    split
    · trivial
    · refine (Relies.of_uses (uses_parse _)).seq (fun parsed => ?_)
      split
      · refine (several 0 _).seq (fun _ => ?_)
        exact Relies.of_uses ((uses_lift _).bind (fun _ => trivial))
      · exact single _

end Calls

/-! ### A call returns what it was answered -/

section Answers
variable {rt : Runtime} {channel command : String} {args : List Json} {tr : List (Event sig)}

/-- Only JSON texts are received. -/
def HearsJson (rt : Runtime) : Event sig → Prop
  | ⟨.await _, .got d⟩ => (rt.parse d).isSome = true
  | _ => True

/-- Once a wait is answered with a JSON text, the program is done with it. -/
def Conveys (rt : Runtime) (e : Event sig) (q : Code Result) : Prop :=
  ∀ key d v, e = ⟨.await key, .got d⟩ → rt.parse d = some v → q = .done (.device v)

theorem conveys_awaitReply : After (Conveys rt) (awaitReply rt channel) := by
  rw [awaitReply_eq]
  intro opened
  refine ⟨by simp [Conveys], ?_⟩
  cases opened with
  | false => trivial
  | true =>
      intro r
      constructor
      · rintro key d v he hv
        cases he
        simp only [replyOf, parse, hv]
        rfl
      · cases r with
        | got raw =>
            simp only [replyOf, parse]
            cases rt.parse raw <;> trivial
        | timedOut => trivial
        | failed => trivial

theorem conveys_handleWsCommand :
    After (Conveys rt) (handleWsCommand rt channel command args) := by
  rw [handleWsCommand_eq]
  intro found
  refine ⟨by simp [Conveys], ?_⟩
  cases found with
  | none => trivial
  | some ws =>
      have sends : After (fun e _ => IsSend (some ws) e.prim) (send rt (some ws) command args) :=
        (sends_send command args).uses.after (fun _ _ h => h)
      refine sends.bind ?_ (fun _ => conveys_awaitReply)
      rintro e q ⟨doc, hdoc⟩ key d v rfl
      cases hdoc

/-- A call that has not returned has not been answered. -/
theorem running_got {q : Code Result} (hjson : ∀ e ∈ tr, HearsJson rt e)
    (h : Residual (handleWsCommand rt channel command args) tr q)
    (hq : ∀ result, q ≠ .done result) : tr.filterMap got? = [] := by
  rw [List.filterMap_eq_nil_iff]
  intro e he
  cases hgot : got? e with
  | none => rfl
  | some d =>
      obtain ⟨key, rfl⟩ := got?_eq_some hgot
      obtain ⟨v, hv⟩ := Option.isSome_iff_exists.mp (hjson _ he)
      obtain ⟨q', tr', hconveys, hrest⟩ := conveys_handleWsCommand.of_mem h he
      rw [hconveys key d v rfl hv] at hrest
      exact absurd hrest.of_done (hq _)

theorem got?_passes {w : Sock} {sent : List (Event sig)} (h : Passes rt command args w sent) :
    sent.filterMap got? = [] := by
  cases h <;> rfl

/-- A call that has returned was answered at most once, and returns the answer. -/
theorem returned_got {result : Result}
    (h : Residual (handleWsCommand rt channel command args) tr (.done result)) :
    (tr.filterMap got?).map rt.parse = (message? result).toList.map some ∧
      ∀ m, result = .error m → result = notConnected ∨ result = noAnswer := by
  have course := course_of_behaves (h.behaves rfl)
  generalize hout : (Except.ok result : Except RubyError Result) = out at course
  cases course with
  | absent =>
      cases hout
      exact ⟨rfl, fun _ _ => .inl rfl⟩
  | refused w e _ => cases hout
  | offline w sent _ => cases hout
  | waited w sent reply hsent =>
      have hgot : (⟨.call (.connGet channel), some w⟩ :: (sent ++ [⟨.call .redisNew, true⟩,
          ⟨.await (responseKey channel), reply⟩]) : List (Event sig)).filterMap got? =
          [(⟨.await (responseKey channel), reply⟩ : Event sig)].filterMap got? := by
        rw [List.filterMap_cons, List.filterMap_append, got?_passes hsent]
        rfl
      rw [hgot]
      cases reply with
      | timedOut =>
          cases hout
          exact ⟨rfl, fun _ _ => .inr rfl⟩
      | failed => cases hout
      | got raw =>
          simp only [readReply] at hout
          cases hp : rt.parse raw with
          | none =>
              rw [hp] at hout
              cases hout
          | some v =>
              rw [hp] at hout
              cases hout
              refine ⟨congrArg (fun x => [x]) hp, fun m heq => ?_⟩
              cases heq

variable {argss : List (List Json)} {results : List Result}

/-- The messages returned are the answers to the waits, in this order. -/
theorem Calls.got (h : Calls rt channel command argss tr results)
    (hjson : ∀ e ∈ tr, HearsJson rt e) :
    (results.filterMap message?).map some = (tr.filterMap got?).map rt.parse := by
  induction h with
  | rest => rfl
  | running hcall hrun =>
      rw [running_got hjson hcall hrun]
      rfl
  | @cons _ _ tr trs result results hcall _ ih =>
      obtain ⟨-, htrs⟩ := List.forall_mem_append.mp hjson
      rw [List.filterMap_append, List.map_append, (returned_got hcall).1, ← ih htrs]
      cases result <;> rfl

theorem Calls.errors (h : Calls rt channel command argss tr results) {m : String}
    (hm : .error m ∈ results) : .error m = notConnected ∨ .error m = noAnswer := by
  induction h with
  | rest => cases hm
  | running _ _ => cases hm
  | cons hcall _ ih =>
      rcases List.mem_cons.mp hm with rfl | hm
      · exact (returned_got hcall).2 m rfl
      · exact ih hm

end Answers

/-! ### Runs -/

section Runs
variable {rt : Runtime} {ls : List (Label (gateway rt))} {s : State (gateway rt)}

/-- Whoever has pushed is the handler of a message event, and has pushed its text. -/
theorem pusher_message (h : exec (boot rt) ls = some s) {t : Tid} {key d : String} {q : List Tid}
    (hpushed : Obs.pushed t key d q ∈ s.log) :
    (∃ (w : Sock) (p : Code Out), s.threads[t]? = some ⟨.message w d, p⟩) ∧
      (rt.parse d).isSome = true := by
  have hevent : (⟨.push key d, true⟩ : Event sig) ∈ trace t s.log :=
    List.mem_flatMap.mpr ⟨_, hpushed, by simp [events]⟩
  obtain ⟨⟨kind, p⟩, ht, ⟨w, hkind⟩, hjson⟩ := exec_uses (performs_enter rt) h hevent
  cases hkind
  exact ⟨⟨w, p, ht⟩, hjson⟩

/-- In every reachable state all that was received are JSON texts. -/
theorem heard_json (h : exec (boot rt) ls = some s) (t : Tid) :
    ∀ e ∈ trace t s.log, HearsJson rt e := by
  intro e he
  obtain ⟨p, r⟩ := e
  cases p with
  | await key =>
      cases r with
      | got d =>
          obtain ⟨u, q, hpushed⟩ := pushed_of_got h he
          exact (pusher_message h hpushed).2
      | timedOut => trivial
      | failed => trivial
  | _ => trivial

/-- Whoever is served is a request, on the list of its channel. -/
theorem receiver_request (h : exec (boot rt) ls = some s) {r : Tid} {x : Delivery sig}
    (hx : x ∈ deliveredTo r s.log) : ∃ (c command body : String) (p : Code Out),
      s.threads[r]? = some ⟨.post c command body, p⟩ ∧ x.key = responseKey c := by
  have hgot := got_of_delivered (exec_recorded h) hx
  obtain ⟨⟨kind, p⟩, hr, c, command, body, hkind, hkey⟩ := exec_uses (performs_enter rt) h hgot
  cases hkind
  exact ⟨c, command, body, p, hr, hkey⟩

theorem sender_message (h : exec (boot rt) ls = some s) {r : Tid} {x : Delivery sig}
    (hx : x ∈ deliveredTo r s.log) :
    ∃ (w : Sock) (p : Code Out), s.threads[x.sender]? = some ⟨.message w x.data, p⟩ := by
  obtain ⟨⟨o, ho, hd⟩, -⟩ := mem_deliveredTo.mp hx
  obtain ⟨-, q, hpushed⟩ := delivers_of_delivered (exec_recorded h) ho hd
  exact (pusher_message h hpushed).1

/-- The commands of the request `r` on `c` have returned these results so far. -/
def HasReturned (s : State (gateway rt)) (r : Tid) (c : String) (results : List Result) : Prop :=
  ∃ command body p, s.threads[r]? = some ⟨.post c command body, p⟩ ∧
    Calls rt c command (commandArgs rt command body) (trace r s.log) results

/-- The handler `t` is that of a message event with this message. -/
def Brings (s : State (gateway rt)) (v : Json) (t : Tid) : Prop :=
  ∃ w data p, s.threads[t]? = some ⟨.message w data, p⟩ ∧ rt.parse data = some v

/-- The request returns the message which the handler `t` has pushed. -/
def ReturnedFrom (s : State (gateway rt)) (r t : Tid) : Prop :=
  ∃ c results v, HasReturned s r c results ∧
    (v, t) ∈ (results.filterMap message?).zip (senders r s.log) ∧ Brings s v t

/-- What a request has returned is known at any time, and an answer 200 shows it. -/
theorem exec_returned (h : exec (boot rt) ls = some s) {r : Tid} {c command body : String}
    {p : Code Out} (hr : s.threads[r]? = some ⟨.post c command body, p⟩) :
    ∃ results, HasReturned s r c results ∧
      ∀ a, outcome s r = some (.answered a) → a.code = 200 →
        results.length = (commandArgs rt command body).length ∧ Shows a.body results := by
  obtain ⟨u, u', prog, henter, hres⟩ := exec_residual h hr
  cases henter
  rcases Residual.bind_inv hres with ⟨q, hq, -, hrun⟩ | ⟨a, tr₁, tr₂, htr, hpost, hend⟩
  · obtain ⟨results, hcalls, -⟩ := calls_of_post hq
    refine ⟨results, ⟨command, body, p, hr, hcalls⟩, fun a hout => ?_⟩
    exact absurd (prog_of_outcome hr hout) (hrun _)
  · obtain ⟨results, hcalls, hdone⟩ := calls_of_post hpost
    obtain ⟨rfl, hp⟩ := hend.of_finished trivial
    rw [List.append_nil] at htr
    refine ⟨results, ⟨command, body, p, hr, htr ▸ hcalls⟩, fun a' hout hok => ?_⟩
    have heq := (prog_of_outcome hr hout).symm.trans hp
    cases heq
    exact hdone a rfl hok

variable {r : Tid} {c : String} {results : List Result}

theorem HasReturned.messages (hr : HasReturned s r c results) (h : exec (boot rt) ls = some s) :
    (results.filterMap message?).map some = (inbox r s.log).map rt.parse := by
  obtain ⟨command, body, p, -, hcalls⟩ := hr
  rw [inbox_eq (exec_recorded h), hcalls.got (heard_json h r)]

/-- Each message a request has returned was brought by the handler that has pushed it. -/
theorem HasReturned.brought (hr : HasReturned s r c results) (h : exec (boot rt) ls = some s) :
    List.Forall₂ (Brings s) (results.filterMap message?) (senders r s.log) := by
  have hall := hr.messages h
  rw [inbox, List.map_map, ← List.forall₂_eq_eq_eq, List.forall₂_map_left_iff,
    List.forall₂_map_right_iff] at hall
  rw [senders, List.forall₂_map_right_iff]
  obtain ⟨hlength, hzip⟩ := List.forall₂_iff_zip.mp hall
  refine List.forall₂_iff_zip.mpr ⟨hlength, fun {v x} hvx => ?_⟩
  obtain ⟨w, p, ht⟩ := sender_message h (List.of_mem_zip hvx).2
  exact ⟨w, x.data, p, ht, (hzip hvx).symm⟩

/-- A request returns the message of `t` exactly if it was served with it. -/
theorem returnedFrom_iff (h : exec (boot rt) ls = some s) {t : Tid} :
    ReturnedFrom s r t ↔ r ∈ receivers t s.log := by
  rw [← mem_senders]
  constructor
  · rintro ⟨c, results, v, -, hvt, -⟩
    exact (List.of_mem_zip hvt).2
  · intro ht
    obtain ⟨x, hx, -⟩ := List.mem_map.mp ht
    obtain ⟨c, command, body, p, hr, -⟩ := receiver_request h hx
    obtain ⟨results, hreturned, -⟩ := exec_returned h hr
    obtain ⟨hlength, hzip⟩ := List.forall₂_iff_zip.mp (hreturned.brought h)
    rw [← List.map_snd_zip hlength.ge] at ht
    obtain ⟨⟨v, t⟩, hvt, rfl⟩ := List.mem_map.mp ht
    exact ⟨c, results, v, hreturned, hvt, hzip hvt⟩

/-- Every message that is returned comes from some handler. -/
theorem HasReturned.from_handler (hr : HasReturned s r c results) (h : exec (boot rt) ls = some s)
    {v : Json} (hv : .device v ∈ results) : ∃ t ∈ senders r s.log, Brings s v t := by
  have hmem : v ∈ results.filterMap message? := List.mem_filterMap.mpr ⟨_, hv, rfl⟩
  obtain ⟨hlength, hzip⟩ := List.forall₂_iff_zip.mp (hr.brought h)
  rw [← List.map_fst_zip hlength.le] at hmem
  obtain ⟨⟨v, t⟩, hvt, rfl⟩ := List.mem_map.mp hmem
  exact ⟨t, (List.of_mem_zip hvt).2, hzip hvt⟩

end Runs

end EvoGw.CommandResults
