import EvoGw.CommandResults

/-!
# The hand-off of device messages to waiting requests

The message handler pushes onto `response:sn` and deletes that list inside one
section of `mutex_connections`; a POST request pops `response:channel` outside of
it. Every program of the gateway keeps this discipline, so the fate of a device
message is the one which `HandoffFate` determines, and the request which gets it
returns it.
-/
namespace EvoGw.ReplyHandoff
open ThreadPrograms ThreadPools PoolTraces LockedHandoff HandoffFate ListHistories Deliveries
open GatewayCalls JsonValues GatewayPool CommandResults

/-- The list that a device message is pushed onto, if it is pushed at all. -/
def replyKey (rt : Runtime) (data : String) : Option String :=
  match rt.parse data with
  | some message =>
      match message.index "sn" with
      | .ok sn => if sn.truthy then some (responseKey (rt.toS sn)) else none
      | .error _ => none
  | none => none

/-- The device message is one with this string as its `sn`. -/
def Carries (rt : Runtime) (data c : String) : Prop :=
  ∃ message, rt.parse data = some message ∧ message.index "sn" = .ok (.str c)

theorem Carries.replyKey {rt : Runtime} {data c : String} (h : Carries rt data c) :
    replyKey rt data = some (responseKey c) := by
  obtain ⟨message, hp, hs⟩ := h
  simp [ReplyHandoff.replyKey, hp, hs]

/-- What each kind of thread may push and wait for. -/
def permit (rt : Runtime) : Kind → Permit sig
  | .message _ data => ⟨(replyKey rt data).map (fun key => (key, data)), none⟩
  | .post channel _ _ => ⟨none, some (responseKey channel)⟩
  | _ => ⟨none, none⟩

section Programs
variable {rt : Runtime} {p : Permit sig} {A : Type}

theorem keeps_lift (e : Except RubyError A) (ph : Phase sig) :
    Keeps (S := sig) .connections p (fun q => q = ph) ph (lift e) := by
  cases e <;> rfl

theorem keeps_parse (text : String) (ph : Phase sig) :
    Keeps (S := sig) .connections p (fun q => q = ph) ph (parse rt text) := by
  unfold parse
  split <;> rfl

theorem keeps_call (c : Call) (b : Bool) :
    Keeps (S := sig) .connections p (fun q => q = .idle b) (.idle b) (call c) :=
  ⟨trivial, fun _ _ => rfl⟩

/-- Push and deletion take the thread from its fresh to its spent phase. -/
theorem keeps_handOver {sn : Json} {data : String}
    (hp : sn.truthy = true → p.pushes = some (responseKey (rt.toS sn), data)) :
    Keeps (S := sig) .connections p (fun q => q = .idle sn.truthy) (.idle false)
      (WebSocketHandler.handOver rt sn data) := by
  apply Keeps.synchronize
  cases hsn : sn.truthy with
  | false => rfl
  | true =>
      refine ⟨⟨rfl, hp hsn⟩, ?_⟩
      rintro r (rfl : r = true)
      refine ⟨rfl, ?_⟩
      rintro r (rfl : r = true)
      rfl

theorem keeps_registerRoute (w : Sock) (sn : Json) (b : Bool) :
    Keeps (S := sig) .connections p (fun q => q = .idle b) (.idle b)
      (WebSocketHandler.registerRoute w sn) := by
  unfold WebSocketHandler.registerRoute
  split_ifs
  · exact Keeps.synchronize
      (Keeps.of_calls ⟨trivial, fun _ => ⟨trivial, fun _ => trivial⟩⟩ (by simp))
  · rfl

theorem keeps_start (sid : Sid) (w : Sock) (channel : Json) (b : Bool) :
    Keeps (S := sig) .connections p (fun q => q = .idle b) (.idle b)
      (WebSocketHandler.start sid w channel) := by
  have section_call : ∀ c : Call, Keeps (S := sig) .connections p (fun q => q = .idle b) (.idle b)
      (Program.synchronize .subscribedChannels (call c)) := fun c =>
    Keeps.synchronize_other (by decide) (keeps_call c b)
  refine (section_call _).seq (fun known => ?_) rfl
  split_ifs
  · rfl
  · refine (keeps_call _ b).seq (fun alive => ?_) rfl
    split_ifs
    · rfl
    · exact (section_call _).seq (fun _ => keeps_call _ b) rfl

theorem keeps_startSubscriber (w : Sock) (sn : Json) (b : Bool) :
    Keeps (S := sig) .connections p (fun q => q = .idle b) (.idle b)
      (WebSocketHandler.startSubscriber w sn) :=
  (keeps_call _ b).seq (fun _ => (keeps_call _ b).seq (fun _ => keeps_start _ w sn b) rfl) rfl

theorem keeps_subscriberEnds (sid : Sid) (w : Sock) (channel : Json) (b : Bool) :
    Keeps (S := sig) .connections p (fun q => q = .idle b) (.idle b)
      (WebSocketHandler.subscriberEnds sid w channel) := by
  have unregister : Keeps (S := sig) .connections p (fun q => q = .idle b) (.idle b) (do
      let known ← call (.registered w channel)
      if known then call (.unregister w channel) else pure ()) := by
    refine (keeps_call _ b).seq (fun known => ?_) rfl
    cases known with
    | true => exact keeps_call _ b
    | false => rfl
  exact (Keeps.synchronize_other (by decide) unregister).seq (fun _ => keeps_call _ b) rfl

theorem keeps_handlePayload (ws : Option Sock) (text : String) (b : Bool) :
    Keeps (S := sig) .connections p (fun q => q = .idle b) (.idle b)
      (WebSocketHandler.handlePayload rt ws text) := by
  refine (keeps_parse text _).seq (fun payload => ?_) rfl
  refine (keeps_lift _ _).seq (fun command => ?_) rfl
  refine (keeps_lift _ _).seq (fun args => ?_) rfl
  by_cases hc : command.truthy = true
  · rw [if_pos hc]
    exact Keeps.synchronize_other (by decide)
      (Keeps.of_calls
        ((WebSocketHandler.sends_sendPayload command _).uses.mono (fun _ h => h.isCall)) (by simp))
  · rw [if_neg hc]
    rfl

theorem keeps_publish (channel data : String) (b : Bool) :
    Keeps (S := sig) .connections p (fun q => q = .idle b) (.idle b) (publish channel data) := by
  refine (keeps_call _ b).seq (fun ok => ?_) rfl
  cases ok <;> rfl

theorem keeps_awaitReply {channel : String} (hp : p.awaits = some (responseKey channel))
    (b : Bool) :
    Keeps (S := sig) .connections p (fun q => q = .idle b) (.idle b)
      (ServerRoute.awaitReply rt channel) := by
  refine (keeps_call _ b).seq (fun opened => ?_) rfl
  cases opened with
  | false => rfl
  | true =>
      refine ⟨hp, fun r _ => ?_⟩
      cases r with
      | got raw => exact (keeps_parse raw _).seq (fun _ => rfl) rfl
      | timedOut => rfl
      | failed => rfl

theorem keeps_handleWsCommand {channel : String} (hp : p.awaits = some (responseKey channel))
    (command : String) (args : List Json) (b : Bool) :
    Keeps (S := sig) .connections p (fun q => q = .idle b) (.idle b)
      (ServerRoute.handleWsCommand rt channel command args) := by
  refine (keeps_call _ b).seq (fun found => ?_) rfl
  cases found with
  | none => rfl
  | some ws =>
      have calls : Uses Prim.IsCall (DevicesSender.send rt (some ws) command args) :=
        (DevicesSender.sends_send command args).uses.mono (fun _ h => h.isCall)
      exact (Keeps.of_calls calls (by simp)).seq (fun _ => keeps_awaitReply hp b) rfl

theorem keeps_responseHttp (response : ServerRoute.Result) (ph : Phase sig) :
    Keeps (S := sig) .connections p (fun q => q = ph) ph (ServerRoute.responseHttp response) :=
  (keeps_lift _ ph).seq (fun _ => rfl) rfl

theorem keeps_batch {channel : String} (hp : p.awaits = some (responseKey channel))
    (command : String) (index : ℕ) (items : List Json) (b : Bool) :
    Keeps (S := sig) .connections p (fun q => q = .idle b) (.idle b)
      (ServerRoute.batch rt channel command index items) := by
  induction items generalizing index with
  | nil => rfl
  | cons item items ih =>
      refine (keeps_handleWsCommand hp command _ b).seq (fun result => ?_) rfl
      refine (keeps_lift _ _).seq (fun entry => ?_) rfl
      exact (ih (index + 1)).seq (fun _ => rfl) rfl

theorem keeps_postBody {channel : String} (hp : p.awaits = some (responseKey channel))
    (command body : String) (b : Bool) :
    Keeps (S := sig) .connections p (fun q => q = .idle b) (.idle b)
      (ServerRoute.postBody rt channel command body) := by
  unfold ServerRoute.postBody
  split
  · rfl
  · refine (keeps_parse _ _).seq (fun parsed => ?_) rfl
    split
    · refine (keeps_batch hp command 0 _ b).seq (fun responses => ?_) rfl
      exact (keeps_lift _ _).seq (fun _ => rfl) rfl
    · exact (keeps_handleWsCommand hp command _ b).seq (fun r => keeps_responseHttp r _) rfl

theorem keeps_post {channel : String} (hp : p.awaits = some (responseKey channel))
    (command body : String) (b : Bool) :
    Keeps (S := sig) .connections p (fun q => q = .idle b) (.idle b)
      (ServerRoute.post rt channel command body) := by
  unfold ServerRoute.post
  split
  · exact (keeps_handleWsCommand hp command _ b).seq (fun r => keeps_responseHttp r _) rfl
  · refine (keeps_postBody hp command body b).rescue (fun ph e h => ?_) (fun _ h => h)
    split <;> exact h

end Programs

theorem keeps_onMessage (rt : Runtime) (w : Sock) (data : String) :
    Keeps (S := sig) .connections (permit rt (.message w data)) IsIdle (.idle false)
      (WebSocketHandler.onMessage rt w data) := by
  unfold WebSocketHandler.onMessage
  cases hm : rt.parse data with
  | none =>
      simp only [parse, hm]
      rfl
  | some message =>
      simp only [parse, hm, Program.pure_eq, Program.done_bind]
      cases hsn : message.index "sn" with
      | error e =>
          simp only [lift]
          rfl
      | ok sn =>
          simp only [lift, Program.pure_eq, Program.done_bind]
          refine (keeps_handOver ?_).seq (fun _ => ?_) rfl
          · intro ht
            simp [permit, replyKey, hm, hsn, ht]
          generalize sn.truthy = b
          refine (keeps_lift _ (.idle b)).seq (fun command => ?_) rfl
          refine (keeps_registerRoute w sn b).seq (fun _ => ?_) rfl
          refine (keeps_call _ b).seq (fun ws => ?_) rfl
          have calls : Uses Prim.IsCall (WebSocketHandler.handleReg rt message ws) :=
            (WebSocketHandler.uses_handleReg message).mono (fun _ h => h.isCall)
          refine (Keeps.of_calls calls (by simp)).seq (fun _ => ?_) rfl
          have idle : ∀ ph : Phase sig, ph = .idle b → IsIdle ph := fun ph h => h ▸ rfl
          split_ifs
          · exact (keeps_publish _ data b).mono idle
          · exact (keeps_startSubscriber w sn b).mono idle

theorem keeps_onOpen (rt : Runtime) (w : Sock) :
    Keeps (S := sig) .connections (permit rt (.opened w)) (fun q => q = .idle false) (.idle false)
      (WebSocketHandler.onOpen w) := by
  apply Keeps.synchronize
  exact Keeps.of_calls ⟨trivial, fun _ => trivial⟩ (by simp)

theorem keeps_onClose (rt : Runtime) (w : Sock) :
    Keeps (S := sig) .connections (permit rt (.closed w)) (fun q => q = .idle false) (.idle false)
      (WebSocketHandler.onClose w) := by
  have body : Keeps (S := sig) .connections (permit rt (.closed w)) (fun q => q = .held false)
      (.held false) (do
        let ws ← call (.wsVar w)
        let sn ← call (.connKey ws)
        call (.connDelete sn)) :=
    Keeps.of_calls ⟨trivial, fun _ => ⟨trivial, fun _ => ⟨trivial, fun _ => trivial⟩⟩⟩ (by simp)
  exact body.synchronize.seq (fun _ => keeps_call _ false) rfl

theorem keeps_onPublished (rt : Runtime) (sid : Sid) (ws : Option Sock) (text : String) :
    Keeps (S := sig) .connections (permit rt (.command sid text)) (fun q => q = .idle false)
      (.idle false) (WebSocketHandler.onPublished rt sid ws text) := by
  refine (keeps_call _ false).seq (fun stopped => ?_) rfl
  cases stopped with
  | true => rfl
  | false => exact (keeps_handlePayload ws text false).rescue (fun _ _ h => h) (fun _ h => h)

/-- Every program with which a thread of the gateway enters keeps the discipline. -/
theorem enter_keeps (rt : Runtime) (w : World) (t : Tid) (kind : Kind) (w' : World) (p : Code Out)
    (h : (gateway rt).enter w t kind = some (w', p)) :
    Keeps (S := sig) .connections (permit rt kind) IsIdle (.idle false) p := by
  have idle : ∀ ph : Phase sig, ph = .idle false → IsIdle ph := fun ph h => h ▸ rfl
  simp only [gateway, Option.map_eq_some_iff, Prod.mk.injEq] at h
  obtain ⟨q, hq, -, rfl⟩ := h
  cases kind with
  | opened w =>
      cases hq
      exact (keeps_onOpen rt w).bind (fun ph _ h => idle ph h) idle
  | message w data =>
      cases hq
      exact (keeps_onMessage rt w data).bind (fun _ _ h => h) (fun _ h => h)
  | closed w =>
      cases hq
      exact (keeps_onClose rt w).bind (fun ph _ h => idle ph h) idle
  | post channel command body =>
      cases hq
      exact (keeps_post rfl command body false).bind (fun ph _ h => idle ph h) idle
  | command sid text =>
      simp only [program] at hq
      split at hq
      · split_ifs at hq
        cases hq
        exact (keeps_onPublished rt sid _ text).bind (fun ph _ h => idle ph h) idle
      · cases hq
  | disconnected sid =>
      simp only [program] at hq
      split at hq
      · split_ifs at hq
        cases hq
        exact (keeps_subscriberEnds sid _ _ false).bind (fun ph _ h => idle ph h) idle
      · cases hq

section Runs
variable {rt : Runtime} {ls : List (Label (gateway rt))} {s : State (gateway rt)}

theorem run_guarded (h : exec (boot rt) ls = some s) (calm : ∀ l ∈ ls, l.Calm) :
    Guarded (S := sig) .connections (permit rt) s := exec_guarded (enter_keeps rt) h calm

theorem run_fated (h : exec (boot rt) ls = some s) (calm : ∀ l ∈ ls, l.Calm) :
    Fated (S := sig) .connections s := exec_fated (enter_keeps rt) h calm

theorem run_attributed (h : exec (boot rt) ls = some s) (calm : ∀ l ∈ ls, l.Calm) :
    Attributed (S := sig) .connections (permit rt) s := exec_attributed (enter_keeps rt) h calm

/-- The thread is a POST request on this channel. -/
def IsRequest (s : State (gateway rt)) (c : String) (t : Tid) : Prop :=
  ∃ command body p, s.threads[t]? = some ⟨.post c command body, p⟩

/-- The handler is between its LPUSH and its DEL. -/
def MidSection (s : State (gateway rt)) (t : Tid) : Prop :=
  ∃ key, phase (S := sig) .connections t s.log = .pushed key

/-- The requests that can get the element of `t`: those blocked on the key at its
push, longest first, and then those that pop the key before its deletion. -/
def candidates (t : Tid) (key : String) (queue : List Tid) (post : List (Obs (gateway rt))) :
    List Tid :=
  queue ++ issuers key (untilClear t post)

/-- What has become of the message of the handler `t`: it is not pushed yet and no
request returns it, or the first candidate gets and returns it, if there is one,
and no other request does. -/
def Fate (s : State (gateway rt)) (t : Tid) (c data : String) : Prop :=
  ((∀ key d q, Obs.pushed t key d q ∉ s.log) ∧ receivers t s.log = [] ∧
    ∀ r, ¬ ReturnedFrom s r t) ∨
  ∃ pre queue post, s.log = pre ++ .pushed t (responseKey c) data queue :: post ∧
    receivers t s.log = (candidates t (responseKey c) queue post).take 1 ∧
    (∀ r ∈ candidates t (responseKey c) queue post, IsRequest s c r) ∧
    (∀ r ∈ receivers t s.log, ⟨.await (responseKey c), .got data⟩ ∈ trace r s.log) ∧
    ∀ r, ReturnedFrom s r t ↔ r ∈ (candidates t (responseKey c) queue post).take 1

/-- A request returns the messages it has got, each from the handler that has pushed
it, and no others; an answer 200 shows them. -/
def ReturnsDelivered (s : State (gateway rt)) (r : Tid) (c : String) : Prop :=
  ∃ results, HasReturned s r c results ∧
    List.Forall₂ (Brings s) (results.filterMap message?) (senders r s.log) ∧
    ∀ a, outcome s r = some (.answered a) → a.code = 200 → Shows a.body results

theorem isRequest_of_awaited (c : Attributed (S := sig) .connections (permit rt) s) {t : Tid}
    {channel : String} {got : Option (Item sig)}
    (h : Obs.awaited t (responseKey channel) got ∈ s.log) : IsRequest s channel t := by
  obtain ⟨kind, p, ht, hk⟩ := c.awaited t _ got h
  cases kind with
  | post channel' command body =>
      simp only [permit, Option.some.injEq, responseKey_inj] at hk
      subst hk
      exact ⟨command, body, p, ht⟩
  | _ => cases hk

theorem mem_issuers {key : String} {t : Tid} {log : List (Obs (gateway rt))}
    (h : t ∈ issuers key log) : ∃ got, Obs.awaited t key got ∈ log := by
  obtain ⟨o, ho, ht⟩ := List.mem_filterMap.mp h
  cases o with
  | awaited u key' got =>
      simp only [issuer?] at ht
      split_ifs at ht with hk
      cases ht
      subst hk
      exact ⟨got, ho⟩
  | _ => cases ht

theorem candidates_request (c : Attributed (S := sig) .connections (permit rt) s) {t r : Tid}
    {channel data : String} {queue : List Tid} {pre post : List (Obs (gateway rt))}
    (hs : s.log = pre ++ .pushed t (responseKey channel) data queue :: post)
    (hr : r ∈ candidates t (responseKey channel) queue post) : IsRequest s channel r := by
  rcases List.mem_append.mp hr with hr | hr
  · have hp : Obs.pushed t (responseKey channel) data queue ∈ s.log := by simp [hs]
    exact isRequest_of_awaited c (c.queued _ _ _ _ hp r hr)
  · obtain ⟨got, hg⟩ := mem_issuers hr
    have hpost : Obs.awaited r (responseKey channel) got ∈ post :=
      (List.takeWhile_prefix _).subset hg
    have hmem : Obs.awaited r (responseKey channel) got ∈ s.log := by simp [hs, hpost]
    exact isRequest_of_awaited c hmem

theorem pushed_own (c : Attributed (S := sig) .connections (permit rt) s) {t : Tid} {w : Sock}
    {data channel : String} {p : Code Out} (ht : s.threads[t]? = some ⟨.message w data, p⟩)
    (hc : Carries rt data channel) {key d : String} {q : List Tid}
    (h : Obs.pushed t key d q ∈ s.log) : key = responseKey channel ∧ d = data := by
  obtain ⟨kind, p', ht', hk⟩ := c.pushed t key d q h
  rw [ht, Option.some.injEq, Thread.mk.injEq] at ht'
  obtain ⟨rfl, -⟩ := ht'
  simp only [permit, hc.replyKey, Option.map_some, Option.some.injEq, Prod.mk.injEq] at hk
  exact ⟨hk.1.symm, hk.2.symm⟩

theorem receiver_trace (r : Recorded s) (c : Attributed (S := sig) .connections (permit rt) s)
    {t u : Tid} {w : Sock} {data channel : String} {p : Code Out}
    (ht : s.threads[t]? = some ⟨.message w data, p⟩) (hc : Carries rt data channel)
    (hu : u ∈ receivers t s.log) :
    ⟨.await (responseKey channel), .got data⟩ ∈ trace u s.log := by
  obtain ⟨o, ho, hr⟩ := List.mem_filterMap.mp hu
  obtain ⟨key, d, q, hd, hq⟩ := r.delivered o ho t u hr
  obtain ⟨rfl, rfl⟩ := pushed_own c ht hc hq
  exact List.mem_flatMap.mpr ⟨o, ho, by rw [hd.event]; exact List.mem_cons_self⟩

theorem fate_of_message (h : exec (boot rt) ls = some s) (calm : ∀ l ∈ ls, l.Calm) {t : Tid}
    {w : Sock} {data channel : String} {p : Code Out}
    (ht : s.threads[t]? = some ⟨.message w data, p⟩) (hc : Carries rt data channel) :
    Fate s t channel data := by
  have r := exec_recorded h
  have c := run_attributed h calm
  by_cases hp : ∃ key d q, Obs.pushed t key d q ∈ s.log
  · obtain ⟨key, d, q, hp⟩ := hp
    obtain ⟨rfl, rfl⟩ := pushed_own c ht hc hp
    obtain ⟨pre, post, hs⟩ := List.append_of_mem hp
    have hreceivers := ((run_fated h calm).story pre t _ _ q post hs).1
    refine .inr ⟨pre, q, post, hs, hreceivers, fun _ hr => candidates_request c hs hr,
      fun _ hu => receiver_trace r c ht hc hu, fun u => ?_⟩
    rw [returnedFrom_iff h, hreceivers]
    rfl
  · push Not at hp
    have nobody : ∀ u, u ∉ receivers t s.log := by
      intro u hu
      obtain ⟨o, ho, hr⟩ := List.mem_filterMap.mp hu
      obtain ⟨key, d, q, -, hq⟩ := r.delivered o ho t u hr
      exact hp key d q hq
    exact .inl ⟨hp, List.eq_nil_iff_forall_not_mem.mpr nobody,
      fun u hu => nobody u ((returnedFrom_iff h).mp hu)⟩

theorem returns_delivered (h : exec (boot rt) ls = some s) {r : Tid} {c : String}
    (hr : IsRequest s c r) : ReturnsDelivered s r c := by
  obtain ⟨command, body, p, hr⟩ := hr
  obtain ⟨results, hreturned, hshows⟩ := exec_returned h hr
  exact ⟨results, hreturned, hreturned.brought h, fun a hout hok => (hshows a hout hok).2⟩

/-- Between sections every list is empty. -/
theorem lists_empty (g : Guarded (S := sig) .connections (permit rt) s)
    (hmid : ∀ t, ¬ MidSection s t) (key : String) : s.lists key = [] := by
  rw [List.eq_nil_iff_forall_not_mem]
  intro i hi
  exact hmid i.pusher ⟨key, g.items key i hi⟩

/-- The hand-off of device messages in every interleaving without Redis failures:
the fate of each message, what requests return, whose elements a deletion removes,
what the lists hold between sections, and that nothing is delivered after its
deletion. -/
theorem handoff_exact (h : exec (boot rt) ls = some s) (calm : ∀ l ∈ ls, l.Calm) :
    (∀ t w data p c, s.threads[t]? = some ⟨.message w data, p⟩ → Carries rt data c →
      Fate s t c data) ∧
    (∀ r c, IsRequest s c r → ReturnsDelivered s r c) ∧
    (∀ t key dropped, Obs.cleared t key dropped ∈ s.log → ∀ i ∈ dropped, i.pusher = t) ∧
    ((∀ t, ¬ MidSection s t) → ∀ key, s.lists key = []) ∧
    (∀ pre t key dropped (post : List (Obs (gateway rt))),
      s.log = pre ++ .cleared t key dropped :: post → receivers t post = []) := by
  have g := run_guarded h calm
  have c := run_attributed h calm
  refine ⟨?_, fun r channel hr => returns_delivered h hr, c.cleared, lists_empty g, ?_⟩
  · intro t w data p channel ht hc
    exact fate_of_message h calm ht hc
  · intro pre t key dropped post hs
    exact (c.closed pre t key dropped post hs).2

end Runs

/-- The texts of one reader with serial `A`. -/
def reader : Runtime := Runtime.ofTable
  [("reg", .obj [("cmd", .str "reg"), ("sn", .str "A")]),
   ("sendlog", .obj [("cmd", .str "sendlog"), ("sn", .str "A"), ("count", .int 1),
     ("logindex", .int 0)]),
   ("reply", .obj [("ret", .str "getuserlist"), ("sn", .str "A"), ("result", .bool true)]),
   ("second reply", .obj [("ret", .str "reboot"), ("sn", .str "A"), ("result", .bool true)])]

/-- Socket 0 opens and registers as `A`; both handlers run to their end. -/
def registration : List (Label (gateway reader)) :=
  .enter (.opened 0) :: turns 0 3 ++ .enter (.message 0 "reg") :: turns 1 21

/-- A request blocks and the reader's reply is handed to it. -/
def answered : List (Label (gateway reader)) :=
  registration ++ .enter (.post "A" "user_list" "") :: turns 2 4 ++
    .enter (.message 0 "reply") :: turns 3 3

/-- The request of the reader's run returns the reply, and nobody else does. -/
theorem handoff_exact_reader : ∃ s, exec (boot reader) answered = some s ∧
    receivers 3 s.log = [2] ∧ ∀ r, ReturnedFrom s r 3 ↔ r = 2 := by
  have run : exec (boot reader) answered = some (after answered) := rfl
  have calm : ∀ l ∈ answered, l.Calm := by decide
  have received : receivers 3 (after answered).log = [2] := rfl
  refine ⟨after answered, run, received, fun r => ?_⟩
  rcases (handoff_exact run calm).1 3 0 "reply" _ "A" rfl ⟨_, rfl, rfl⟩ with
    ⟨-, hnone, -⟩ | ⟨pre, queue, post, -, hfirst, -, -, hreturned⟩
  · rw [received] at hnone
    cases hnone
  · rw [hreturned, ← hfirst, received, List.mem_singleton]

end EvoGw.ReplyHandoff
