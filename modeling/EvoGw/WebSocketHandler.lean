import EvoGw.DevicesSender

/-!
# The event handlers of one connection

`WebSocketHandler#call` installs the handlers of the open, message and close
events, with `Devices.handle_reg` and `RedisSubscriberService` behind the
message event. They are written down statement by statement. Every read of the
captured variable `ws` is a call of its own, because the close handler sets it
to `nil`.

A message whose `sn` is falsy goes through the same statements; it pushes and
registers nothing and still starts a subscriber service, for channel `nil`.
-/
namespace EvoGw.WebSocketHandler
open ThreadPrograms GatewayCalls JsonValues
open Program (synchronize)

def sendlogChannel : String := "sendlog_channel"

/-- The `reg` answer of `Devices.handle_reg`. -/
def regResponse (cloudtime : String) : Json :=
  .obj [("ret", .str "reg"), ("result", .bool true), ("cloudtime", .str cloudtime),
    ("nosenduser", .bool true)]

/-- The `sendlog` answer, with the message's own `count` and `logindex`. -/
def sendlogResponse (count logindex : Json) (cloudtime : String) : Json :=
  .obj [("ret", .str "sendlog"), ("result", .bool true), ("count", count), ("logindex", logindex),
    ("cloudtime", .str cloudtime), ("access", .int 1),
    ("message", .str "Logs recebidos com sucesso")]

/-- `Devices.response_ws`, which prints the answer after it was sent. -/
def responseWs (rt : Runtime) (ws : Option Sock) (response : Json) : Code Unit := do
  wsSend rt ws response
  generate rt response

/-- `Devices.handle_reg`, which prints the whole message first. -/
def handleReg (rt : Runtime) (message : Json) (ws : Option Sock) : Code Unit := do
  let _ ← lift (message.index "sn")
  generate rt message
  let cmd ← lift (message.index "cmd")
  if cmd = .str "reg" then do
    let cloudtime ← call .timeNow
    responseWs rt ws (regResponse cloudtime)
  else if cmd = .str "sendlog" then do
    let count ← lift (message.index "count")
    let logindex ← lift (message.index "logindex")
    let cloudtime ← call .timeNow
    responseWs rt ws (sendlogResponse count logindex cloudtime)
  else pure ()

/-- `RedisSubscriberService#start`: the test and the insertion are two sections. -/
def start (sid : Sid) (registry : Sock) (channel : Json) : Code Unit := do
  let known ← synchronize .subscribedChannels (call (.registered registry channel))
  if known then pure () else do
    let alive ← call (.threadAlive sid)
    if alive then pure () else do
      synchronize .subscribedChannels (call (.register registry channel))
      call (.threadNew sid)

/-- `RedisSubscriberService#stop`. -/
def stop (sid : Sid) (registry : Sock) (channel : Json) : Code Unit := do
  call (.requestStop sid)
  let alive ← call (.threadAlive sid)
  (if alive then call (.threadKill sid) else pure ())
  synchronize .subscribedChannels (call (.unregister registry channel))

/-- The end of a subscriber thread that cannot connect to Redis or is killed: its
`ensure` clause. Every other exception makes the thread try again. -/
def subscriberEnds (sid : Sid) (registry : Sock) (channel : Json) : Code Unit := do
  synchronize .subscribedChannels do
    let known ← call (.registered registry channel)
    if known then call (.unregister registry channel) else pure ()
  call (.threadEnd sid)

/-- The command of a published payload. Only strings are keys of the command
table; any other value is an unknown command. -/
def sendPayload (rt : Runtime) (ws : Option Sock) (command : Json) (args : List Json) :
    Code Unit :=
  match command with
  | .str name => DevicesSender.send rt ws name args
  | _ => pure ()

/-- The body of the `on.message` block, without its rescue clauses. -/
def handlePayload (rt : Runtime) (ws : Option Sock) (text : String) : Code Unit := do
  let payload ← parse rt text
  let command ← lift (payload.index "cmd")
  let args ← lift (payload.index "args")
  if command.truthy then
    synchronize .subscribedChannels
      (sendPayload rt ws command (if args.truthy then args.splat else []))
  else pure ()

/-- The `on.message` block of a subscriber thread; every exception is logged. -/
def onPublished (rt : Runtime) (sid : Sid) (ws : Option Sock) (text : String) : Code Unit := do
  let stopped ← call (.stopRequested sid)
  if stopped then pure () else (handlePayload rt ws text).rescue (fun _ => pure ())

/-- The first section of the message handler: wake a waiting request, keep nothing. -/
def handOver (rt : Runtime) (sn : Json) (data : String) : Code Unit :=
  synchronize .connections (if sn.truthy then do
    lpush (responseKey (rt.toS sn)) data
    del (responseKey (rt.toS sn))
  else pure ())

/-- The second section: `@connections[sn] = ws`. -/
def registerRoute (w : Sock) (sn : Json) : Code Unit :=
  if sn.truthy then synchronize .connections do
    let ws ← call (.wsVar w)
    call (.connSet (.serial sn.eqlKey) ws)
  else pure ()

def startSubscriber (w : Sock) (sn : Json) : Code Unit := do
  let ws ← call (.wsVar w)
  let sid ← call (.newService w sn ws)
  start sid w sn

def onOpen (w : Sock) : Code Unit :=
  synchronize .connections (call (.connSet (.socket w) none))

def onMessage (rt : Runtime) (w : Sock) (data : String) : Code Unit := do
  let message ← parse rt data
  let sn ← lift (message.index "sn")
  handOver rt sn data
  let command ← lift (message.index "cmd")
  registerRoute w sn
  let ws ← call (.wsVar w)
  handleReg rt message ws
  if command = .str "sendlog" then publish sendlogChannel data else startSubscriber w sn

def onClose (w : Sock) : Code Unit := do
  synchronize .connections do
    let ws ← call (.wsVar w)
    let sn ← call (.connKey ws)
    call (.connDelete sn)
  call (.wsClear w)

/-! ### What each handler performs -/

section Uses
open DevicesSender (IsSend Sends sends_send uses_lift uses_parse uses_redis uses_generate
  uses_wsSend)
variable {rt : Runtime} {ws : Option Sock} {w : Sock} {sid : Sid} {data : String}

/-- What `handle_reg` does: read the clock and write to the socket. -/
def IsAnswer (ws : Option Sock) (p : Prim sig) : Prop := p = .call .timeNow ∨ IsSend ws p

theorem IsAnswer.isCall {p : Prim sig} (h : IsAnswer ws p) : p.IsCall := by
  rcases h with rfl | h
  · trivial
  · exact h.isCall

theorem uses_responseWs (doc : Json) : Uses (IsAnswer ws) (responseWs rt ws doc) :=
  ((uses_wsSend doc).mono (fun _ h => .inr h)).bind (fun _ => uses_generate doc)

theorem uses_handleReg (message : Json) : Uses (IsAnswer ws) (handleReg rt message ws) := by
  refine (uses_lift _).bind (fun _ => ?_)
  refine (uses_generate _).bind (fun _ => ?_)
  refine (uses_lift _).bind (fun cmd => ?_)
  split_ifs
  · exact ⟨.inl rfl, fun _ => uses_responseWs _⟩
  · refine (uses_lift _).bind (fun _ => ?_)
    refine (uses_lift _).bind (fun _ => ?_)
    exact ⟨.inl rfl, fun _ => uses_responseWs _⟩
  · trivial

theorem sends_sendPayload (command : Json) (args : List Json) :
    Sends rt ws (sendPayload rt ws command args) := by
  unfold sendPayload
  split
  · exact sends_send _ _
  · exact .unknown

/-- What a call of `start` may perform. -/
def IsStart (sid : Sid) (registry : Sock) (channel : Json) (p : Prim sig) : Prop :=
  p = .acquire .subscribedChannels ∨ p = .release .subscribedChannels ∨
    p = .call (.registered registry channel) ∨ p = .call (.threadAlive sid) ∨
    p = .call (.register registry channel) ∨ p = .call (.threadNew sid)

theorem uses_start (sid : Sid) (registry : Sock) (channel : Json) :
    Uses (IsStart sid registry channel) (start sid registry channel) := by
  have section_of : ∀ c, IsStart sid registry channel (.call c) →
      Uses (IsStart sid registry channel)
        (Program.synchronize (S := sig) .subscribedChannels (call c)) := fun c hc =>
    Uses.synchronize (.inl rfl) (.inr (.inl rfl)) ⟨hc, fun _ => trivial⟩
  refine (section_of _ (by simp [IsStart])).bind (fun known => ?_)
  split_ifs
  · trivial
  · refine Uses.bind (p := call (.threadAlive sid)) ⟨by simp [IsStart], fun _ => trivial⟩
      (fun alive => ?_)
    split_ifs
    · trivial
    · refine (section_of _ (by simp [IsStart])).bind (fun _ => ?_)
      exact ⟨by simp [IsStart], fun _ => trivial⟩

inductive IsSubscriberEnds (sid : Sid) (registry : Sock) (channel : Json) : Prim sig → Prop
  | acquire : IsSubscriberEnds sid registry channel (.acquire .subscribedChannels)
  | release : IsSubscriberEnds sid registry channel (.release .subscribedChannels)
  | registered : IsSubscriberEnds sid registry channel (.call (.registered registry channel))
  | unregister : IsSubscriberEnds sid registry channel (.call (.unregister registry channel))
  | threadEnd : IsSubscriberEnds sid registry channel (.call (.threadEnd sid))

theorem uses_subscriberEnds (sid : Sid) (registry : Sock) (channel : Json) :
    Uses (IsSubscriberEnds sid registry channel) (subscriberEnds sid registry channel) := by
  refine Uses.bind (Uses.synchronize .acquire .release ⟨.registered, fun known => ?_⟩)
    (fun _ => ⟨.threadEnd, fun _ => trivial⟩)
  cases known with
  | true => exact ⟨.unregister, fun _ => trivial⟩
  | false => trivial

inductive IsPublished (sid : Sid) (ws : Option Sock) : Prim sig → Prop
  | stopRequested : IsPublished sid ws (.call (.stopRequested sid))
  | acquire : IsPublished sid ws (.acquire .subscribedChannels)
  | release : IsPublished sid ws (.release .subscribedChannels)
  | send {p : Prim sig} : IsSend ws p → IsPublished sid ws p

theorem uses_onPublished (text : String) :
    Uses (IsPublished sid ws) (onPublished rt sid ws text) := by
  refine ⟨.stopRequested, fun stopped => ?_⟩
  cases stopped with
  | true => trivial
  | false =>
      refine Uses.rescue ?_ (fun _ => trivial)
      refine (uses_parse text).bind (fun payload => (uses_lift _).bind (fun command => ?_))
      refine (uses_lift _).bind (fun args => ?_)
      split
      · exact Uses.synchronize .acquire .release
          ((sends_sendPayload command _).uses.mono (fun _ h => .send h))
      · trivial

inductive IsHandOver (rt : Runtime) (sn : Json) (data : String) : Prim sig → Prop
  | acquire : IsHandOver rt sn data (.acquire .connections)
  | release : IsHandOver rt sn data (.release .connections)
  | push : IsHandOver rt sn data (.push (responseKey (rt.toS sn)) data)
  | clear : IsHandOver rt sn data (.clear (responseKey (rt.toS sn)))

theorem uses_handOver (sn : Json) (data : String) :
    Uses (IsHandOver rt sn data) (handOver rt sn data) := by
  refine Uses.synchronize .acquire .release ?_
  split_ifs
  · exact Uses.bind (p := lpush _ data) ⟨.push, uses_redis⟩ (fun _ => ⟨.clear, uses_redis⟩)
  · trivial

inductive IsRegisterRoute (w : Sock) (sn : Json) : Prim sig → Prop
  | acquire : IsRegisterRoute w sn (.acquire .connections)
  | release : IsRegisterRoute w sn (.release .connections)
  | wsVar : IsRegisterRoute w sn (.call (.wsVar w))
  | connSet (ws : Option Sock) : IsRegisterRoute w sn (.call (.connSet (.serial sn.eqlKey) ws))

theorem uses_registerRoute (w : Sock) (sn : Json) :
    Uses (IsRegisterRoute w sn) (registerRoute w sn) := by
  unfold registerRoute
  split_ifs
  · exact Uses.synchronize .acquire .release
      ⟨.wsVar, fun ws => ⟨.connSet ws, fun _ => trivial⟩⟩
  · trivial

inductive IsStartSubscriber (w : Sock) (sn : Json) : Prim sig → Prop
  | wsVar : IsStartSubscriber w sn (.call (.wsVar w))
  | newService (ws : Option Sock) : IsStartSubscriber w sn (.call (.newService w sn ws))
  | start {p : Prim sig} (sid : Sid) : IsStart sid w sn p → IsStartSubscriber w sn p

theorem uses_startSubscriber (w : Sock) (sn : Json) :
    Uses (IsStartSubscriber w sn) (startSubscriber w sn) :=
  ⟨.wsVar, fun ws => ⟨.newService ws, fun sid => (uses_start sid w sn).mono
    (fun _ h => .start sid h)⟩⟩

/-- What the handler of a message performs once its route is stored. -/
inductive IsConclusion (w : Sock) (sn : Json) (data : String) : Prim sig → Prop
  | wsVar : IsConclusion w sn data (.call (.wsVar w))
  | answer {p : Prim sig} (ws : Option Sock) : IsAnswer ws p → IsConclusion w sn data p
  | publish : IsConclusion w sn data (.call (.publish sendlogChannel data))
  | startSubscriber {p : Prim sig} : IsStartSubscriber w sn p → IsConclusion w sn data p

/-- It touches neither the table of connections nor a list. -/
theorem IsConclusion.calls_or_locks {sn : Json} {p : Prim sig} (h : IsConclusion w sn data p) :
    p.IsCall ∨ p = .acquire .subscribedChannels ∨ p = .release .subscribedChannels := by
  cases h with
  | answer ws h => exact .inl h.isCall
  | startSubscriber h =>
      cases h with
      | start sid h => rcases h with rfl | rfl | rfl | rfl | rfl | rfl <;> simp [Prim.IsCall]
      | _ => exact .inl trivial
  | _ => exact .inl trivial

theorem uses_conclusion (w : Sock) (data : String) (message sn command : Json) :
    Uses (IsConclusion w sn data) (do
      let ws ← call (.wsVar w)
      handleReg rt message ws
      if command = .str "sendlog" then publish sendlogChannel data else startSubscriber w sn) := by
  refine ⟨.wsVar, fun ws => ?_⟩
  refine ((uses_handleReg message).mono (fun _ h => .answer ws h)).bind (fun _ => ?_)
  split_ifs
  · exact ⟨.publish, uses_redis⟩
  · exact (uses_startSubscriber w sn).mono (fun _ h => .startSubscriber h)

/-- What the handler of a message performs. It comes to its hand-over only with a
message that is JSON. -/
inductive IsMessage (rt : Runtime) (w : Sock) (data : String) : Prim sig → Prop
  | handOver {p : Prim sig} (message sn : Json) : rt.parse data = some message →
      message.index "sn" = .ok sn → IsHandOver rt sn data p → IsMessage rt w data p
  | registerRoute {p : Prim sig} (sn : Json) : IsRegisterRoute w sn p → IsMessage rt w data p
  | conclusion {p : Prim sig} (sn : Json) : IsConclusion w sn data p → IsMessage rt w data p

theorem uses_onMessage (w : Sock) (data : String) :
    Uses (IsMessage rt w data) (onMessage rt w data) := by
  unfold onMessage parse
  cases hp : rt.parse data with
  | none => trivial
  | some message =>
      simp only [Program.pure_eq, Program.done_bind]
      cases hsn : message.index "sn" with
      | error e => trivial
      | ok sn =>
          refine ((uses_handOver sn data).mono (fun _ h => .handOver message sn hp hsn h)).bind
            (fun _ => (uses_lift _).bind (fun command => ?_))
          refine ((uses_registerRoute w sn).mono (fun _ h => .registerRoute sn h)).bind
            (fun _ => ?_)
          exact (uses_conclusion w data message sn command).mono (fun _ h => .conclusion sn h)

inductive IsOpen (w : Sock) : Prim sig → Prop
  | acquire : IsOpen w (.acquire .connections)
  | release : IsOpen w (.release .connections)
  | connSet : IsOpen w (.call (.connSet (.socket w) none))

theorem uses_onOpen (w : Sock) : Uses (IsOpen w) (onOpen w) :=
  Uses.synchronize .acquire .release ⟨.connSet, fun _ => trivial⟩

inductive IsClose (w : Sock) : Prim sig → Prop
  | acquire : IsClose w (.acquire .connections)
  | release : IsClose w (.release .connections)
  | wsVar : IsClose w (.call (.wsVar w))
  | connKey (ws : Option Sock) : IsClose w (.call (.connKey ws))
  | connDelete (key : Option ConnKey) : IsClose w (.call (.connDelete key))
  | wsClear : IsClose w (.call (.wsClear w))

theorem uses_onClose (w : Sock) : Uses (IsClose w) (onClose w) := by
  refine Uses.bind (Uses.synchronize .acquire .release ?_) (fun _ => ⟨.wsClear, fun _ => trivial⟩)
  exact ⟨.wsVar, fun ws => ⟨.connKey ws, fun key => ⟨.connDelete key, fun _ => trivial⟩⟩⟩

end Uses

end EvoGw.WebSocketHandler
