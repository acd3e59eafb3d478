import EvoGw.ThreadPrograms
import EvoGw.ThreadPools
import EvoGw.InsertionHash
import EvoGw.JsonValues

/-!
# The shared state of the gateway and the calls on it

`World` is what the threads of the server share besides the mutexes and the
Redis lists: the `CONNECTIONS` table, the local variable `ws` of every
connection's handlers, the `RedisSubscriberService` objects and the
`@subscribed_channels` hash of every `WebSocketHandler`. `Server` makes one
handler per connection, so the socket names the handler, its variable `ws` and
its hash.

A call is one access to this state or one request to a library. Its outcome is
chosen by the surroundings where a library may fail: `fails` is a Redis call
that raises, `sent` is what `Faye::WebSocket#send` does with a text. The mutexes
and the Redis lists are the primitives of `ThreadPrograms`; log lines have no
effect on any of this and are left out.
-/
namespace EvoGw.GatewayCalls
open ThreadPrograms ThreadPools InsertionHash JsonValues

abbrev Sock := ℕ
abbrev Sid := ℕ

/-- The keys of `CONNECTIONS`: sockets from the open event, serials from
messages. -/
inductive ConnKey where
  | socket (w : Sock)
  | serial (v : Json)
  deriving DecidableEq

inductive Mutex where
  | connections
  | subscribedChannels
  deriving DecidableEq

/-- `ws.send`: the frame goes out, the socket is closing and takes nothing, or
an exception is raised. -/
inductive Sent where
  | written
  | dropped
  | raised
  deriving DecidableEq, Repr

/-- `@thread`. A killed thread aborts: it still runs its `ensure` clause, at any
later moment. A thread in this clause is ending. -/
inductive ThreadStatus where
  | absent
  | alive
  | aborting
  | ending
  | dead
  deriving DecidableEq, Repr

/-- `@thread&.alive?`, true until the `ensure` clause is over. -/
def ThreadStatus.isAlive : ThreadStatus → Bool
  | .absent => false
  | .dead => false
  | _ => true

/-- `@thread.kill` -/
def ThreadStatus.kill : ThreadStatus → ThreadStatus
  | .alive => .aborting
  | status => status

/-- A `RedisSubscriberService` object. `registry` is the connection whose
handler shares its `@subscribed_channels` with it. -/
structure Service where
  registry : Sock
  channel : Json
  ws : Option Sock
  thread : ThreadStatus
  stopRequested : Bool
  deriving DecidableEq

/-- The entry of a service in the registry. -/
def Service.entry (v : Service) : Sock × Json := (v.registry, v.channel.eqlKey)

inductive Call where
  | connGet (channel : String)
  | connSet (key : ConnKey) (ws : Option Sock)
  | connKey (ws : Option Sock)
  | connDelete (key : Option ConnKey)
  | wsVar (w : Sock)
  | wsClear (w : Sock)
  | wsSend (ws : Option Sock) (doc : Json)
  | redisNew
  | publish (channel data : String)
  | timeNow
  | newService (registry : Sock) (channel : Json) (ws : Option Sock)
  | registered (registry : Sock) (channel : Json)
  | register (registry : Sock) (channel : Json)
  | unregister (registry : Sock) (channel : Json)
  | threadAlive (sid : Sid)
  | threadNew (sid : Sid)
  | threadKill (sid : Sid)
  | threadEnd (sid : Sid)
  | stopRequested (sid : Sid)
  | requestStop (sid : Sid)

@[reducible] def Call.Resp : Call → Type
  | .connGet _ => Option Sock
  | .connKey _ => Option ConnKey
  | .wsVar _ => Option Sock
  | .wsSend _ _ => Sent
  | .redisNew => Bool
  | .publish _ _ => Bool
  | .timeNow => String
  | .newService _ _ _ => Sid
  | .registered _ _ => Bool
  | .threadAlive _ => Bool
  | .stopRequested _ => Bool
  | _ => Unit

/-- Keys and elements of the Redis lists are strings. -/
@[reducible] def sig : Signature where
  Call := Call
  Resp := Call.Resp
  Mutex := Mutex
  Key := String
  Data := String
  Err := RubyError

structure Choice where
  fails : Bool := false
  sent : Sent := .written
  time : String := ""
  deriving DecidableEq, Repr

structure World where
  connections : Hash ConnKey (Option Sock)
  cleared : List Sock
  services : List Service
  subscribed : List (Sock × Json)

/-- The server before the first connection. -/
def World.start : World := ⟨Hash.empty, [], [], []⟩

def World.setService (w : World) (sid : Sid) (f : Service → Service) : World :=
  {w with services := w.services.modify sid f}

theorem getElem?_setService (world : World) (sid sid' : Sid) (f : Service → Service) :
    (world.setService sid' f).services[sid]? =
      (world.services[sid]?).map (fun v => if sid' = sid then f v else v) := by
  rw [World.setService, List.getElem?_modify]
  by_cases hsid : sid' = sid
  · simp [hsid]
  · simp [hsid]

/-- `@subscribed_channels.key?(@channel)` -/
def World.isRegistered (w : World) (registry : Sock) (channel : Json) : Bool :=
  decide ((registry, channel.eqlKey) ∈ w.subscribed)

/-- One call. A read of `CONNECTIONS` does not tell an absent key from a key
that holds `nil`; deleting the `nil` key, which never is present, does nothing;
`nil` has no frame to write. -/
def perform (w : World) (choice : Choice) : (c : Call) → World × c.Resp
  | .connGet channel => (w, (w.connections.get? (.serial (.str channel))).join)
  | .connSet key ws => ({w with connections := w.connections.insert key ws}, ())
  | .connKey ws => (w, w.connections.keyOf ws)
  | .connDelete (some key) => ({w with connections := w.connections.erase key}, ())
  | .connDelete none => (w, ())
  | .wsVar s => (w, if s ∈ w.cleared then none else some s)
  | .wsClear s => ({w with cleared := s :: w.cleared}, ())
  | .wsSend none _ => (w, .raised)
  | .wsSend (some _) _ => (w, choice.sent)
  | .redisNew => (w, !choice.fails)
  | .publish _ _ => (w, !choice.fails)
  | .timeNow => (w, choice.time)
  | .newService registry channel ws =>
      ({w with services := w.services ++ [⟨registry, channel, ws, .absent, false⟩]},
        w.services.length)
  | .registered registry channel => (w, w.isRegistered registry channel)
  | .register registry channel =>
      ({w with subscribed := (registry, channel.eqlKey) :: w.subscribed}, ())
  | .unregister registry channel =>
      ({w with subscribed := w.subscribed.filter (fun e => e ≠ (registry, channel.eqlKey))}, ())
  | .threadAlive sid =>
      (w, ((w.services[sid]?).map (fun v => v.thread.isAlive)).getD false)
  | .threadNew sid => (w.setService sid (fun v => {v with thread := .alive}), ())
  | .threadKill sid => (w.setService sid (fun v => {v with thread := v.thread.kill}), ())
  | .threadEnd sid => (w.setService sid (fun v => {v with thread := .dead}), ())
  | .stopRequested sid => (w, ((w.services[sid]?).map Service.stopRequested).getD false)
  | .requestStop sid => (w.setService sid (fun v => {v with stopRequested := true}), ())

/-- Two states of one service object: only its thread and its flag differ. -/
def Service.Same (v v' : Service) : Prop :=
  v.registry = v'.registry ∧ v.channel = v'.channel ∧ v.ws = v'.ws

/-- A call leaves the services alone, makes one, or changes the state of one. -/
theorem perform_services (w : World) (choice : Choice) (c : Call) :
    (perform w choice c).1.services = w.services ∨
    (∃ registry channel ws, c = .newService registry channel ws ∧
      (perform w choice c).1.services = w.services ++ [⟨registry, channel, ws, .absent, false⟩]) ∨
    ∃ sid f, (∀ v : Service, (f v).Same v) ∧
      (perform w choice c).1.services = w.services.modify sid f := by
  cases c with
  | newService registry channel ws => exact .inr (.inl ⟨registry, channel, ws, rfl, rfl⟩)
  | threadNew sid =>
      exact .inr (.inr ⟨sid, fun v => {v with thread := .alive}, fun _ => ⟨rfl, rfl, rfl⟩, rfl⟩)
  | threadKill sid =>
      exact .inr (.inr
        ⟨sid, fun v => {v with thread := v.thread.kill}, fun _ => ⟨rfl, rfl, rfl⟩, rfl⟩)
  | threadEnd sid =>
      exact .inr (.inr ⟨sid, fun v => {v with thread := .dead}, fun _ => ⟨rfl, rfl, rfl⟩, rfl⟩)
  | requestStop sid =>
      exact .inr (.inr
        ⟨sid, fun v => {v with stopRequested := true}, fun _ => ⟨rfl, rfl, rfl⟩, rfl⟩)
  | connDelete key => exact .inl (by cases key <;> rfl)
  | wsSend ws doc => exact .inl (by cases ws <;> rfl)
  | _ => exact .inl rfl

/-- Services stay. -/
theorem perform_service_stays (w : World) (choice : Choice) (c : Call) {sid : Sid} {v : Service}
    (h : w.services[sid]? = some v) :
    ∃ v', (perform w choice c).1.services[sid]? = some v' ∧ v'.Same v := by
  rcases perform_services w choice c with heq | ⟨_, _, _, -, heq⟩ | ⟨sid', f, hf, heq⟩
  · rw [heq]
    exact ⟨v, h, rfl, rfl, rfl⟩
  · have hlt := (List.getElem?_eq_some_iff.mp h).choose
    rw [heq, List.getElem?_append_left hlt]
    exact ⟨v, h, rfl, rfl, rfl⟩
  · rw [heq, List.getElem?_modify, h]
    by_cases hs : sid' = sid
    · exact ⟨f v, by simp [hs], hf v⟩
    · exact ⟨v, by simp [hs], rfl, rfl, rfl⟩

/-- A service is old or was just made. -/
theorem perform_service (w : World) (choice : Choice) (c : Call) {sid : Sid} {v : Service}
    (h : (perform w choice c).1.services[sid]? = some v) :
    (∃ v₀, w.services[sid]? = some v₀ ∧ v.Same v₀) ∨ c = .newService v.registry v.channel v.ws := by
  rcases perform_services w choice c with
    heq | ⟨registry, channel, ws, hc, heq⟩ | ⟨sid', f, hf, heq⟩
  · rw [heq] at h
    exact .inl ⟨v, h, rfl, rfl, rfl⟩
  · rw [heq, List.getElem?_append] at h
    split at h
    · exact .inl ⟨v, h, rfl, rfl, rfl⟩
    · have hv := (List.getElem?_eq_some_iff.mp h).choose_spec
      rw [List.getElem_singleton] at hv
      subst hv
      exact .inr hc
  · rw [heq, List.getElem?_modify] at h
    obtain ⟨v₀, hv₀, rfl⟩ := Option.map_eq_some_iff.mp h
    refine .inl ⟨v₀, hv₀, ?_⟩
    by_cases hs : sid' = sid
    · rw [if_pos hs]
      exact hf v₀
    · rw [if_neg hs]
      exact ⟨rfl, rfl, rfl⟩

/-- A route is old or was just stored. -/
theorem perform_route (w : World) (choice : Choice) (c : Call) {key : ConnKey} {ws : Option Sock}
    (h : (key, ws) ∈ (perform w choice c).1.connections.entries) :
    (key, ws) ∈ w.connections.entries ∨ c = .connSet key ws := by
  cases c with
  | connSet key' ws' =>
      rcases Hash.mem_insert.mp h with ⟨rfl, rfl⟩ | ⟨-, hm⟩
      · exact .inr rfl
      · exact .inl hm
  | connDelete key' =>
      cases key' with
      | none => exact .inl h
      | some key' => exact .inl (Hash.mem_erase.mp h).2
  | wsSend ws' doc => cases ws' <;> exact .inl h
  | _ => exact .inl h

abbrev Code := Program sig

def call (c : Call) : Code c.Resp := .act (.call c) .done

/-- A Redis command of the shared connection; a refusal raises. -/
def redis (done : Bool) : Code Unit := if done then pure () else .raise .redisError

def lpush (key data : String) : Code Unit :=
  .act (.push key data) redis

def del (key : String) : Code Unit :=
  .act (.clear key) redis

def publish (channel data : String) : Code Unit := do redis (← call (.publish channel data))

/-- `redis.blpop(key, timeout: 1000)`: `none` is the timeout. -/
def blpop (key : String) : Code (Option String) :=
  .act (.await key) (fun
    | .got raw => pure (some raw)
    | .timedOut => pure none
    | .failed => .raise .redisError)

def lift {A : Type} : Except RubyError A → Code A
  | .ok a => pure a
  | .error e => .raise e

theorem finished_lift {A : Type} (e : Except RubyError A) : (lift e).Finished := by
  cases e <;> trivial

/-- `JSON.parse`. -/
def parse (rt : Runtime) (text : String) : Code Json :=
  match rt.parse text with
  | some v => pure v
  | none => .raise .parserError

/-- `doc.to_json` and `JSON.pretty_generate(doc)`, of which only the failure matters. -/
def generate (rt : Runtime) (doc : Json) : Code Unit :=
  if rt.generates doc then pure () else .raise .generatorError

/-- `ws.send(doc.to_json)`. A frame is recorded as the document it carries. -/
def wsSend (rt : Runtime) (ws : Option Sock) (doc : Json) : Code Unit := do
  generate rt doc
  match ← call (.wsSend ws doc) with
  | .raised => .raise .socketError
  | _ => pure ()

/-- `"response:#{value}"`. -/
def responseKey (s : String) : String := "response:" ++ s

theorem responseKey_inj {s s' : String} : responseKey s = responseKey s' ↔ s = s' :=
  String.append_right_inj _

end EvoGw.GatewayCalls
