import EvoGw.GatewayProgress
import EvoGw.CommandDocuments
import EvoGw.EffectScripts

/-!
# What each thread does to the outside

Frames, publications and pushes on the lists of replies are the deeds of a thread.
Its kind tells them beforehand: a message is pushed for a waiting request, answered
and published, as far as its fields ask for it; a request writes the frames of its
commands in the order of its body; a published command makes one frame.

In every interleaving the deeds of a message handler are the beginning of this
script, and all of it once the handler has ended without an exception. Requests and
published commands can leave frames out, when the device is not connected or the
document cannot be encoded, but they never write others, in another order or twice.
-/
namespace EvoGw.ThreadScripts
open ThreadPrograms ThreadPools PoolTraces EffectScripts
open GatewayCalls JsonValues WebSocketHandler ServerRoute GatewayPool GatewayProgress
open CommandDocuments (document send_eq)
open DevicesSender (uses_lift uses_parse uses_redis uses_generate sendWsCommand)

inductive Deed where
  | push (key data : String)
  | reg
  | log (count logindex : Json)
  | publish (data : String)
  | frame (doc : Json)
  deriving DecidableEq

/-- The primitive does this deed. The time in an answer is not told beforehand, nor
is the socket of a frame. -/
def Deed.is : Deed → Prim sig → Prop
  | .push key data, p => p = .push key data
  | .reg, p => ∃ ws time, p = .call (.wsSend ws (regResponse time))
  | .log count logindex, p =>
      ∃ ws time, p = .call (.wsSend ws (sendlogResponse count logindex time))
  | .publish data, p => p = .call (.publish sendlogChannel data)
  | .frame doc, p => ∃ ws, p = .call (.wsSend ws doc)

def isDeed : Prim sig → Bool
  | .push _ _ => true
  | .call (.wsSend _ _) => true
  | .call (.publish _ _) => true
  | _ => false

/-- A field of a message, `nil` where reading it raises. -/
def fieldOf (message : Json) (key : String) : Json :=
  match message.index key with
  | .ok v => v
  | .error _ => .null

def answerScript (message : Json) : List Deed :=
  if fieldOf message "cmd" = .str "reg" then [.reg] else
    if fieldOf message "cmd" = .str "sendlog" then
      [.log (fieldOf message "count") (fieldOf message "logindex")]
    else []

def messageScript (rt : Runtime) (data : String) : List Deed :=
  match rt.parse data with
  | none => []
  | some message =>
      (if (fieldOf message "sn").truthy then
        [.push (responseKey (rt.toS (fieldOf message "sn"))) data] else []) ++
      (answerScript message ++
      if fieldOf message "cmd" = .str "sendlog" then [.publish data] else [])

/-- The document of a command whose arguments fit. -/
def docOf (command : String) (args : List Json) : Option Json :=
  match document command args with
  | .ok doc => doc
  | .error _ => none

def commandScript (command : String) (args : List Json) : List Deed :=
  (docOf command args).toList.map .frame

def requestScript (rt : Runtime) (command body : String) : List Deed :=
  (commandArgs rt command body).flatMap (commandScript command)

/-- A published payload makes the frame of its command. -/
def payloadScript (rt : Runtime) (text : String) : List Deed :=
  match rt.parse text with
  | none => []
  | some payload =>
      match fieldOf payload "cmd" with
      | .str name => commandScript name
          (if (fieldOf payload "args").truthy then (fieldOf payload "args").splat else [])
      | _ => []

def script (rt : Runtime) : Kind → List Deed
  | .message _ data => messageScript rt data
  | .post _ command body => requestScript rt command body
  | .command _ text => payloadScript rt text
  | _ => []

section Programs
variable {rt : Runtime} {skip : Prop} {ds : List Deed} {A B : Type}

theorem emits_lift {e : Except RubyError A} {f : A → Code B}
    (hf : ∀ a, e = .ok a → Emits isDeed Deed.is skip ds (f a)) :
    Emits isDeed Deed.is skip ds (lift e >>= f) := by
  cases e with
  | error e => trivial
  | ok a => exact hf a rfl

theorem fieldOf_ok {message v : Json} {key : String} (h : message.index key = .ok v) :
    fieldOf message key = v := by
  simp [fieldOf, h]

theorem emits_wsSend {ws : Option Sock} {doc : Json} {d : Deed}
    (hd : d.is (.call (.wsSend ws doc))) :
    Emits isDeed Deed.is skip [d] (wsSend rt ws doc) := by
  refine Emits.after (uses_generate doc) (fun _ => emits_deed rfl hd (fun sent => ?_))
  cases sent with
  | raised => trivial
  | written => exact .inr rfl
  | dropped => exact .inr rfl

theorem emits_responseWs {ws : Option Sock} {doc : Json} {d : Deed}
    (hd : d.is (.call (.wsSend ws doc))) :
    Emits isDeed Deed.is skip [d] (responseWs rt ws doc) :=
  (emits_wsSend hd).before (fun _ => uses_generate _)

theorem emits_handOver (sn : Json) (data : String) :
    Emits isDeed Deed.is skip
      (if sn.truthy then [.push (responseKey (rt.toS sn)) data] else []) (handOver rt sn data) := by
  refine Emits.synchronize rfl rfl ?_
  split_ifs
  · refine Emits.before (p := lpush _ data) (emits_deed rfl rfl (fun done => ?_))
      (fun _ => ⟨rfl, uses_redis⟩)
    exact Emits.of_uses (uses_redis done)
  · exact .inr rfl

theorem emits_handleReg (message : Json) (ws : Option Sock) :
    Emits isDeed Deed.is skip (answerScript message) (handleReg rt message ws) := by
  refine Emits.after (uses_lift _) (fun _ => Emits.after (uses_generate message) (fun _ => ?_))
  refine emits_lift (fun cmd hcmd => ?_)
  unfold answerScript
  rw [fieldOf_ok hcmd]
  split_ifs
  · refine emits_quiet rfl (fun time => ?_)
    refine emits_responseWs ?_
    exact ⟨ws, time, rfl⟩
  · refine emits_lift (fun count hcount => emits_lift (fun logindex hlog => ?_))
    rw [fieldOf_ok hcount, fieldOf_ok hlog]
    refine emits_quiet rfl (fun time => ?_)
    refine emits_responseWs ?_
    exact ⟨ws, time, rfl⟩
  · exact .inr rfl

theorem registerRoute_no_deed (w : Sock) (sn : Json) :
    Uses (fun q => isDeed q = false) (registerRoute w sn) :=
  (uses_registerRoute w sn).mono (fun _ h => by cases h <;> rfl)

theorem startSubscriber_no_deed (w : Sock) (sn : Json) :
    Uses (fun q => isDeed q = false) (startSubscriber w sn) := by
  refine (uses_startSubscriber w sn).mono (fun p h => ?_)
  cases h with
  | start sid h => rcases h with rfl | rfl | rfl | rfl | rfl | rfl <;> rfl
  | _ => rfl

theorem emits_onMessage (w : Sock) (data : String) :
    Emits isDeed Deed.is False (messageScript rt data) (onMessage rt w data) := by
  unfold onMessage parse messageScript
  cases rt.parse data with
  | none => trivial
  | some message =>
      refine emits_lift (fun sn hsn => ?_)
      dsimp only
      rw [fieldOf_ok hsn]
      refine (emits_handOver sn data).bind (fun _ => emits_lift (fun command hcommand => ?_))
      rw [fieldOf_ok hcommand]
      refine Emits.after (registerRoute_no_deed w sn) (fun _ => emits_quiet rfl (fun ws => ?_))
      refine (emits_handleReg message ws).bind (fun _ => ?_)
      split_ifs
      · exact emits_deed rfl rfl (fun done => Emits.of_uses (uses_redis done))
      · exact Emits.of_uses (startSubscriber_no_deed w sn)

theorem emits_send (ws : Option Sock) (command : String) (args : List Json) :
    Emits isDeed Deed.is True (commandScript command args)
      (DevicesSender.send rt ws command args) := by
  rw [send_eq]
  unfold commandScript docOf
  cases document command args with
  | error e => trivial
  | ok doc =>
      cases doc with
      | none => exact .inl trivial
      | some doc =>
          refine Emits.rescue trivial (emits_wsSend ?_) (fun _ => .inl trivial)
          exact ⟨ws, rfl⟩

theorem emits_handleWsCommand (channel command : String) (args : List Json) :
    Emits isDeed Deed.is True (commandScript command args)
      (handleWsCommand rt channel command args) := by
  rw [handleWsCommand_eq]
  refine emits_quiet rfl (fun found => ?_)
  cases found with
  | none => exact .inl trivial
  | some ws => exact (emits_send _ command args).before (fun _ => uses_awaitReply rfl rfl)

theorem emits_batch (channel command : String) (index : ℕ) (items : List Json) :
    Emits isDeed Deed.is True ((items.map itemArgs).flatMap (commandScript command))
      (batch rt channel command index items) := by
  induction items generalizing index with
  | nil => exact .inl trivial
  | cons item items ih =>
      rw [List.map_cons, List.flatMap_cons]
      refine (emits_handleWsCommand channel command _).bind (fun result => ?_)
      refine Emits.after (uses_lift _) (fun entry => ?_)
      exact (ih (index + 1)).before (fun _ => trivial)

theorem emits_post (channel command body : String) :
    Emits isDeed Deed.is True (requestScript rt command body) (post rt channel command body) := by
  have single : ∀ args, Emits isDeed Deed.is True (commandScript command args) (do
      let response ← handleWsCommand rt channel command args
      responseHttp response) := fun args =>
    (emits_handleWsCommand channel command args).before
      (fun _ => (uses_lift _).bind (fun _ => trivial))
  have settled : ∀ {ds : List Deed},
      Emits isDeed Deed.is True ds (postBody rt channel command body) →
      Emits isDeed Deed.is True ds ((postBody rt channel command body).rescue (fun e =>
        if e = .parserError then pure ⟨400, .error "Invalid JSON"⟩ else .raise e)) := fun h =>
    h.rescue trivial (fun e => by split <;> first | exact .inl trivial | trivial)
  unfold post requestScript commandArgs
  split_ifs with hcommand hbody
  · rw [List.flatMap_singleton]
    exact single []
  · refine settled ?_
    unfold postBody
    rw [if_pos hbody]
    exact .inl trivial
  · refine settled ?_
    cases hparse : rt.parse (strip body) with
    | none =>
        unfold postBody parse
        rw [if_neg hbody, hparse]
        trivial
    | some v =>
        cases v with
        | arr items =>
            rw [postBody_array hbody hparse]
            exact (emits_batch channel command 0 items).before
              (fun _ => (uses_lift _).bind (fun _ => trivial))
        | _ =>
            rw [postBody_value hbody hparse (by simp)]
            dsimp only
            rw [List.flatMap_singleton]
            exact single _

theorem emits_onPublished (sid : Sid) (ws : Option Sock) (text : String) :
    Emits isDeed Deed.is True (payloadScript rt text) (onPublished rt sid ws text) := by
  refine Emits.after (p := call _) ⟨rfl, fun _ => trivial⟩ (fun stopped => ?_)
  split_ifs
  · exact .inl trivial
  refine Emits.rescue trivial ?_ (fun _ => .inl trivial)
  unfold handlePayload parse payloadScript
  cases rt.parse text with
  | none => trivial
  | some payload =>
      refine emits_lift (fun command hcommand => emits_lift (fun args hargs => ?_))
      dsimp only
      rw [fieldOf_ok hcommand, fieldOf_ok hargs]
      by_cases htruthy : command.truthy = true
      · rw [if_pos htruthy]
        refine Emits.synchronize rfl rfl ?_
        cases command with
        | str name => exact emits_send ws name _
        | _ => exact .inl trivial
      · rw [if_neg htruthy]
        exact .inl trivial

end Programs

/-- Message handlers leave nothing out. -/
def Skips : Kind → Prop
  | .message _ _ => False
  | _ => True

theorem emits_enter (rt : Runtime) (w : World) (t : Tid) (kind : Kind) (w' : World) (p : Code Out)
    (h : (gateway rt).enter w t kind = some (w', p)) :
    Emits isDeed Deed.is (Skips kind) (script rt kind) p := by
  obtain ⟨q, hq, heq⟩ := Option.map_eq_some_iff.mp h
  cases heq
  refine program_cases (P := fun kind p => Emits isDeed Deed.is (Skips kind) (script rt kind) p) hq
    ?_ ?_ ?_ ?_ ?_ ?_
  · intro w
    refine Emits.of_uses (Uses.bind (p := onOpen w) ?_ (fun _ => trivial))
    exact (uses_onOpen w).mono (fun _ h => by cases h <;> rfl)
  · exact fun w data => (emits_onMessage w data).before (fun _ => trivial)
  · intro w
    refine Emits.of_uses (Uses.bind (p := onClose w) ?_ (fun _ => trivial))
    exact (uses_onClose w).mono (fun _ h => by cases h <;> rfl)
  · exact fun channel command body => (emits_post channel command body).before (fun _ => trivial)
  · exact fun sid ws text => (emits_onPublished sid ws text).before (fun _ => trivial)
  · intro sid w channel
    refine Emits.of_uses (Uses.bind (p := subscriberEnds sid w channel) ?_ (fun _ => trivial))
    exact (uses_subscriberEnds sid w channel).mono (fun _ h => by cases h <;> rfl)

/-- What a thread has done to the outside so far. -/
def deeds {rt : Runtime} (t : Tid) (log : List (Obs (gateway rt))) : List (Event sig) :=
  (trace t log).filter (fun e => isDeed e.prim)

section Runs
variable {rt : Runtime} {ls : List (Label (gateway rt))} {s : State (gateway rt)} {t : Tid}

theorem script_residual (h : exec (boot rt) ls = some s) {th : Thread (gateway rt)}
    (ht : s.threads[t]? = some th) : ∃ past future : List Deed,
      List.Forall₂ (fun e d => d.is e.prim) (deeds t s.log) past ∧
      (past ++ future).Sublist (script rt th.kind) ∧
      (Skips th.kind ∨ past ++ future = script rt th.kind) ∧
      Emits isDeed Deed.is (Skips th.kind) future th.prog := by
  obtain ⟨v, v', p, henter, hres⟩ := exec_residual h ht
  exact (emits_enter rt _ _ _ _ _ henter).residual hres

/-- In every interleaving and under every failure, what a thread does to the outside
is told by its script: nothing else, nothing twice and nothing in another order. -/
theorem script_kept (h : exec (boot rt) ls = some s) {th : Thread (gateway rt)}
    (ht : s.threads[t]? = some th) : ∃ past : List Deed,
      List.Forall₂ (fun e d => d.is e.prim) (deeds t s.log) past ∧
      past.Sublist (script rt th.kind) := by
  obtain ⟨past, future, hpast, hsub, -⟩ := script_residual h ht
  exact ⟨past, hpast, (List.sublist_append_left past future).trans hsub⟩

/-- What the handler of a message has done is the beginning of its script, and all
of it once the handler has ended without an exception. -/
theorem message_script (h : exec (boot rt) ls = some s) {w : Sock} {data : String} {p : Code Out}
    (ht : s.threads[t]? = some ⟨.message w data, p⟩) : ∃ past future : List Deed,
      List.Forall₂ (fun e d => d.is e.prim) (deeds t s.log) past ∧
      past ++ future = messageScript rt data ∧ ∀ out, p = .done out → future = [] := by
  obtain ⟨past, future, hpast, -, hall, hrest⟩ := script_residual h ht
  refine ⟨past, future, hpast, hall.resolve_left (fun hskip => hskip), ?_⟩
  rintro out rfl
  exact hrest.resolve_left (fun hskip => hskip)

end Runs

/-- A log of reader `A`. -/
def logs : Runtime := Runtime.ofTable
  [("log", .obj [("cmd", .str "sendlog"), ("sn", .str "A"), ("count", .int 1),
    ("logindex", .int 0)])]

/-- The log is handled, and a request writes its frame. -/
def logThenRequest : List (Label (gateway logs)) :=
  .enter (.message 0 "log") :: turns 0 12 ++ .enter (.post "A" "user_list" "") :: turns 1 2

theorem script_kept_request : ∃ past : List Deed,
    List.Forall₂ (fun e d => d.is e.prim) (deeds 1 (after logThenRequest).log) past ∧
    past.Sublist [.frame (.obj [("cmd", .str "getuserlist"), ("stn", .bool true)])] := by
  have h : exec (boot logs) logThenRequest = some (after logThenRequest) := rfl
  exact script_kept h (t := 1) rfl

theorem message_script_log :
    List.Forall₂ (fun e d => Deed.is d e.prim) (deeds 0 (after logThenRequest).log)
      [.push "response:A" "log", .log (.int 1) (.int 0), .publish "log"] := by
  have h : exec (boot logs) logThenRequest = some (after logThenRequest) := rfl
  obtain ⟨past, future, hpast, hall, hdone⟩ := message_script h (t := 0) rfl
  rw [hdone _ rfl, List.append_nil] at hall
  rw [hall] at hpast
  exact hpast

end EvoGw.ThreadScripts
