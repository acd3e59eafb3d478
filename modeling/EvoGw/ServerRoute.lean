import EvoGw.DevicesSender

/-!
# `handle_ws_command` and the POST route

One command of a request is four steps on shared state: look the socket up,
write the frame, open a Redis connection and pop the device's list. The route
turns a body into one such command, or into one per item of an array, and
reshapes what the commands return.

An error hash of the gateway has symbol keys, so reading a string key from it
gives `nil`; it is kept apart from the values a device sends.
-/
namespace EvoGw.ServerRoute
open ThreadPrograms GatewayCalls JsonValues

/-- What `handle_ws_command` returns: a parsed device message or `{ error: ... }`. -/
inductive Result where
  | device (v : Json)
  | error (message : String)
  deriving DecidableEq

def notConnected : Result := .error "Dispositivo não conectado"

def noAnswer : Result := .error "Timeout esperando resposta do dispositivo"

/-- What is left of a command once its frame is out: wait for the reply. -/
def awaitReply (rt : Runtime) (channel : String) : Code Result := do
  redis (← call .redisNew)
  match ← blpop (responseKey channel) with
  | some raw => Result.device <$> parse rt raw
  | none => pure noAnswer

def handleWsCommand (rt : Runtime) (channel command : String) (args : List Json) :
    Code Result := do
  match ← call (.connGet channel) with
  | none => pure notConnected
  | some ws => do
      DevicesSender.send rt (some ws) command args
      awaitReply rt channel

/-- What the answer to BLPOP makes of a command. -/
def replyOf (rt : Runtime) : Awaited String → Code Result
  | .got raw => Result.device <$> parse rt raw
  | .timedOut => .done noAnswer
  | .failed => .raise .redisError

theorem awaitReply_eq (rt : Runtime) (channel : String) :
    awaitReply rt channel = .act (.call .redisNew) (fun opened =>
      if opened then .act (.await (responseKey channel)) (replyOf rt) else .raise .redisError) := by
  refine congrArg (Program.act (S := sig) (.call .redisNew)) (funext fun opened => ?_)
  cases opened with
  | false => rfl
  | true =>
      refine congrArg (Program.act (S := sig) (.await (responseKey channel))) (funext fun r => ?_)
      cases r <;> rfl

theorem handleWsCommand_eq (rt : Runtime) (channel command : String) (args : List Json) :
    handleWsCommand rt channel command args = .act (.call (.connGet channel)) (fun
      | none => .done notConnected
      | some ws => DevicesSender.send rt (some ws) command args >>= fun _ =>
          awaitReply rt channel) := by
  refine congrArg (Program.act (S := sig) (.call (.connGet channel))) (funext fun found => ?_)
  cases found <;> rfl

/-- `result[key]`. -/
def Result.index (r : Result) (key : String) : Except RubyError Json :=
  match r with
  | .device v => v.index key
  | .error _ => .ok .null

/-- The block parameter `k` of `|k, _v|` for an element of an array. -/
def blockKey : Json → Json
  | .arr (v :: _) => v
  | .arr [] => .null
  | v => v

/-- `result.reject { |k, _v| ["ret", "sn"].include?(k) }`. -/
def Result.reject : Result → Except RubyError Result
  | .error m => .ok (.error m)
  | .device (.obj fields) => .ok (.device (.obj (fields.filter (fun f => f.1 ∉ ["ret", "sn"]))))
  | .device (.arr items) =>
      .ok (.device (.arr (items.filter (fun v => blockKey v ∉ [.str "ret", .str "sn"]))))
  | .device _ => .error .noMethodError

/-- One element of `responses`; `head` holds `ret` and `sn` of the first result. -/
structure Entry where
  response : Result
  head : Option (Json × Json)
  deriving DecidableEq

inductive Body where
  | error (message : String)
  | single (status : Json) (response : Result)
  | batch (status : Json) (responses : List Entry)
  deriving DecidableEq

structure Answer where
  code : ℕ
  body : Body
  deriving DecidableEq

/-- Ruby's `strip` removes white space and null characters at both ends. -/
@[irreducible] def strip (s : String) : String :=
  let blank : Char → Bool := fun c => DevicesSender.isSpace c || c = '\x00'
  String.ofList ((s.toList.dropWhile blank).reverse.dropWhile blank).reverse

def commandsWithoutBody : List String :=
  ["user_list", "clean_user", "get_new_log", "clean_log", "initsys", "reboot", "clean_admin"]

/-- The positional arguments of a body or of one item of it. -/
def itemArgs : Json → List Json
  | .obj fields => fields.map Prod.snd
  | v => v.splat

def responseHttp (response : Result) : Code Answer := do
  let status ← lift (response.index "result")
  pure ⟨200, .single status response⟩

/-- The entry which the loop appends for the result of one item. -/
def entryOf (index : ℕ) (result : Result) : Except RubyError Entry := do
  let response ← result.reject
  if index = 0 then do
    let ret ← result.index "ret"
    let sn ← result.index "sn"
    pure ⟨response, some (ret, sn)⟩
  else pure ⟨response, none⟩

/-- `parsed.each_with_index`, from a given index on. -/
def batch (rt : Runtime) (channel command : String) : ℕ → List Json → Code (List Entry)
  | _, [] => pure []
  | index, item :: items => do
      let result ← handleWsCommand rt channel command (itemArgs item)
      let entry ← lift (entryOf index result)
      let entries ← batch rt channel command (index + 1) items
      pure (entry :: entries)

/-- `responses.last[:response][:response]["result"]`. -/
def batchStatus (responses : List Entry) : Except RubyError Json :=
  match responses.getLast? with
  | some entry => entry.response.index "result"
  | none => .error .noMethodError

def postBody (rt : Runtime) (channel command body : String) : Code Answer :=
  if strip body = "" then pure ⟨400, .error "Missing JSON body"⟩ else do
    let parsed ← parse rt (strip body)
    match parsed with
    | .arr items => do
        let responses ← batch rt channel command 0 items
        let status ← lift (batchStatus responses)
        pure ⟨200, .batch status responses⟩
    | _ => do
        let response ← handleWsCommand rt channel command (itemArgs parsed)
        responseHttp response

/-- `post 'pub/chat/:channel/:command'`. Only `JSON::ParserError` is rescued. -/
def post (rt : Runtime) (channel command body : String) : Code Answer :=
  if command ∈ commandsWithoutBody then do
    let response ← handleWsCommand rt channel command []
    responseHttp response
  else (postBody rt channel command body).rescue (fun e =>
    if e = .parserError then pure ⟨400, .error "Invalid JSON"⟩ else .raise e)

section Primitives
variable {rt : Runtime} {channel command : String} {ok : Prim sig → Prop}

theorem uses_awaitReply (hnew : ok (.call .redisNew)) (hwait : ok (.await (responseKey channel))) :
    Uses ok (awaitReply rt channel) := by
  rw [awaitReply_eq]
  refine ⟨hnew, fun opened => ?_⟩
  cases opened with
  | false => trivial
  | true =>
      refine ⟨hwait, fun reply => ?_⟩
      cases reply with
      | got raw => exact (DevicesSender.uses_parse raw).bind (fun _ => trivial)
      | timedOut => trivial
      | failed => trivial

/-- A command looks its socket up, writes to it and waits. -/
theorem uses_handleWsCommand {args : List Json} (hget : ok (.call (.connGet channel)))
    (hnew : ok (.call .redisNew)) (hwait : ok (.await (responseKey channel)))
    (hsend : ∀ w, Uses ok (DevicesSender.send rt (some w) command args)) :
    Uses ok (handleWsCommand rt channel command args) := by
  rw [handleWsCommand_eq]
  refine ⟨hget, fun found => ?_⟩
  cases found with
  | none => trivial
  | some w => exact (hsend w).bind (fun _ => uses_awaitReply hnew hwait)

theorem uses_batch {items : List Json}
    (h : ∀ item ∈ items, Uses ok (handleWsCommand rt channel command (itemArgs item)))
    (index : ℕ) : Uses ok (batch rt channel command index items) := by
  induction items generalizing index with
  | nil => trivial
  | cons item items ih =>
      obtain ⟨hitem, hitems⟩ := List.forall_mem_cons.mp h
      refine hitem.bind (fun result => (DevicesSender.uses_lift _).bind (fun _ => ?_))
      exact (ih hitems (index + 1)).bind (fun _ => trivial)

/-- Besides its commands the route performs nothing. -/
theorem uses_post {body : String} (h : ∀ args, Uses ok (handleWsCommand rt channel command args)) :
    Uses ok (post rt channel command body) := by
  have single : ∀ args, Uses ok (do
      let response ← handleWsCommand rt channel command args
      responseHttp response) := fun args =>
    (h args).bind (fun _ => (DevicesSender.uses_lift _).bind (fun _ => trivial))
  unfold post
  split
  · exact single []
  · refine Uses.rescue ?_ (fun e => by split <;> trivial)
    unfold postBody
    split
    · trivial
    · refine (DevicesSender.uses_parse _).bind (fun parsed => ?_)
      split
      · refine (uses_batch (fun _ _ => h _) 0).bind (fun _ => ?_)
        exact (DevicesSender.uses_lift _).bind (fun _ => trivial)
      · exact single _

/-- What the commands of a request on this channel perform. -/
inductive IsCommand (channel : String) : Prim sig → Prop
  | connGet : IsCommand channel (.call (.connGet channel))
  | send {p : Prim sig} (w : Sock) : DevicesSender.IsSend (some w) p → IsCommand channel p
  | redisNew : IsCommand channel (.call .redisNew)
  | await : IsCommand channel (.await (responseKey channel))

theorem uses_commands (channel command body : String) :
    Uses (IsCommand channel) (post rt channel command body) :=
  uses_post (fun args => uses_handleWsCommand .connGet .redisNew .await
    (fun w => (DevicesSender.sends_send command args).uses.mono (fun _ h => .send w h)))

end Primitives

/-- The arguments of the commands which a request makes, in order. -/
def commandArgs (rt : Runtime) (command body : String) : List (List Json) :=
  if command ∈ commandsWithoutBody then [[]] else
    if strip body = "" then [] else
      match rt.parse (strip body) with
      | some (.arr items) => items.map itemArgs
      | some v => [itemArgs v]
      | none => []

section Bodies
variable {rt : Runtime} {channel command body : String}

theorem postBody_array (hbody : strip body ≠ "") {items : List Json}
    (hparse : rt.parse (strip body) = some (.arr items)) :
    postBody rt channel command body = (do
      let responses ← batch rt channel command 0 items
      let status ← lift (batchStatus responses)
      pure ⟨200, .batch status responses⟩) := by
  unfold postBody parse
  rw [if_neg hbody, hparse]
  rfl

/-- A body that is no array makes one command. -/
theorem postBody_value (hbody : strip body ≠ "") {v : Json}
    (hparse : rt.parse (strip body) = some v) (hv : ∀ items, v ≠ .arr items) :
    postBody rt channel command body = (do
      let response ← handleWsCommand rt channel command (itemArgs v)
      responseHttp response) := by
  unfold postBody parse
  rw [if_neg hbody, hparse]
  cases v with
  | arr items => exact absurd rfl (hv items)
  | _ => rfl

end Bodies

end EvoGw.ServerRoute
