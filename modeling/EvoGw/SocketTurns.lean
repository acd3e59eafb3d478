import EvoGw.GatewayPool
import EvoGw.SerialThreads

/-!
# Events handled one at a time

A turn is one open, message or close event whose handler runs to its end before
the next event is handled. What a turn can do to the shared state is said here
once: an open event stores the socket under `nil`, a close event removes the
first key that holds the socket, and a message stores the socket under its
serial and may start a subscriber service. `serial_turns` relates the turns to
the pool of threads.

A socket sends nothing after its close, and closes once; such events have no
turn. `cleared` holds the sockets that have closed.
-/
namespace EvoGw.SocketTurns
open ThreadPrograms ThreadPools PoolTraces SoloRuns SerialThreads InsertionHash
open GatewayCalls JsonValues WebSocketHandler GatewayPool

inductive SocketEvent where
  | opened (w : Sock)
  | message (w : Sock) (data : String)
  | closed (w : Sock)
  deriving DecidableEq

def SocketEvent.kind : SocketEvent → Kind
  | .opened w => .opened w
  | .message w data => .message w data
  | .closed w => .closed w

def handler (rt : Runtime) : SocketEvent → Code Unit
  | .opened w => onOpen w
  | .message w data => onMessage rt w data
  | .closed w => onClose w

instance : Inhabited Choice := ⟨{}⟩

/-- An event, and how the library calls of its handler turn out. -/
structure Turn where
  event : SocketEvent
  choices : List Choice := []
  deriving DecidableEq

/-- The surroundings of a handler that runs alone. Calls do not depend on the
thread that makes them. -/
@[reducible] def solo (rt : Runtime) :
    Alone (gateway rt) → (p : Prim sig) → Alone (gateway rt) × p.Resp := alone 0

/-- The run of the handler alone. -/
def handle (rt : Runtime) (world : World) (turn : Turn) : Run sig (Alone (gateway rt)) Unit :=
  drive (solo rt) ⟨world, turn.choices⟩ (handler rt turn.event)

/-- Closed sockets have no further message and no further close event. -/
def Enabled (world : World) : SocketEvent → Prop
  | .opened _ => True
  | .message w _ => w ∉ world.cleared
  | .closed w => w ∉ world.cleared

instance (world : World) (event : SocketEvent) : Decidable (Enabled world event) :=
  match event with
  | .opened _ => .isTrue trivial
  | .message w _ => inferInstanceAs (Decidable (w ∉ world.cleared))
  | .closed w => inferInstanceAs (Decidable (w ∉ world.cleared))

def turn (rt : Runtime) (world : World) (t : Turn) : Option World :=
  if Enabled world t.event then some (handle rt world t).state.world else none

/-- No Redis call of the turn fails. -/
def Turn.Calm (t : Turn) : Prop := ∀ c ∈ t.choices, c.fails = false

/-- `@connections[sn] = ws` for a message of an open socket with a serial. -/
def routed (world : World) (w : Sock) (sn : Json) : World :=
  if sn.truthy then
    {world with connections := world.connections.insert (.serial sn.eqlKey) (some w)}
  else world

/-- A service of the connection was made and its thread is in this state. -/
def enlisted (world : World) (w : Sock) (channel : Json) (thread : ThreadStatus) : World :=
  {world with services := world.services ++ [⟨w, channel, some w, thread, false⟩]}

/-- A new service, with a thread unless the connection has subscribed to the
channel before. -/
def subscribe (world : World) (w : Sock) (channel : Json) : World :=
  if world.isRegistered w channel then enlisted world w channel .absent
  else {enlisted world w channel .alive with
    subscribed := (w, channel.eqlKey) :: world.subscribed}

/-- The route of the socket that was stored first is removed. -/
def unrouted (world : World) (w : Sock) : World :=
  match world.connections.keyOf (some w) with
  | some key => {world with
      connections := world.connections.erase key
      cleared := w :: world.cleared}
  | none => {world with cleared := w :: world.cleared}

section Fields
variable {world : World} {w : Sock} {sn : Json}

theorem subscribe_connections (channel : Json) :
    (subscribe world w channel).connections = world.connections := by
  unfold subscribe
  split <;> rfl

theorem subscribe_cleared (channel : Json) :
    (subscribe world w channel).cleared = world.cleared := by
  unfold subscribe
  split <;> rfl

theorem routed_cleared : (routed world w sn).cleared = world.cleared := by
  unfold routed
  split <;> rfl

theorem routed_services : (routed world w sn).services = world.services := by
  unfold routed
  split <;> rfl

theorem routed_subscribed : (routed world w sn).subscribed = world.subscribed := by
  unfold routed
  split <;> rfl

theorem get?_routed (c : String) : (routed world w (.str c)).connections.get? (.serial (.str c)) =
    some (some w) := by
  simp [routed]

theorem get?_routed_ne {c : String} (h : sn ≠ .str c) :
    (routed world w sn).connections.get? (.serial (.str c)) =
      world.connections.get? (.serial (.str c)) := by
  unfold routed
  split
  · refine Hash.get?_insert_ne _ _ ?_
    intro heq
    injection heq with heq
    exact h (Json.eqlKey_eq_str.mp heq.symm)
  · rfl

/-- The entries after a message: the new route and the other old entries. -/
theorem mem_routed {key : ConnKey} {ws : Option Sock}
    (h : (key, ws) ∈ (routed world w sn).connections.entries) :
    (key = .serial sn.eqlKey ∧ ws = some w) ∨ (key, ws) ∈ world.connections.entries := by
  unfold routed at h
  split at h
  · rcases Hash.mem_insert.mp h with hnew | ⟨-, hold⟩
    · exact .inl hnew
    · exact .inr hold
  · exact .inr h

theorem unrouted_cleared : (unrouted world w).cleared = w :: world.cleared := by
  unfold unrouted
  split <;> rfl

theorem unrouted_services : (unrouted world w).services = world.services := by
  unfold unrouted
  split <;> rfl

theorem unrouted_subscribed : (unrouted world w).subscribed = world.subscribed := by
  unfold unrouted
  split <;> rfl

/-- The entries after a close: all old ones but that of the key found first. -/
theorem mem_unrouted {key : ConnKey} {ws : Option Sock} :
    (key, ws) ∈ (unrouted world w).connections.entries ↔
      (key, ws) ∈ world.connections.entries ∧ world.connections.keyOf (some w) ≠ some key := by
  unfold unrouted
  cases hk : world.connections.keyOf (some w) with
  | none => simp
  | some key' =>
      rw [Hash.mem_erase]
      simp only [ne_eq, Option.some.injEq, eq_comm (a := key')]
      exact and_comm

end Fields

section Effects
variable {rt : Runtime} {s : Alone (gateway rt)} {w : Sock} {sn : Json} {data : String}

theorem leads_section {A : Type} {m : Mutex} {p : Code A}
    {Q : Alone (gateway rt) → Except RubyError A → Prop} (hp : Leads (solo rt) s p Q) :
    Leads (solo rt) s (Program.synchronize (S := sig) m p) Q :=
  hp.synchronize (fun _ => rfl) (fun _ => rfl)

theorem leads_call {A : Type} {c : Call} {k : c.Resp → Code A}
    {Q : Alone (gateway rt) → Except RubyError A → Prop}
    (h : Leads (solo rt) ⟨(perform s.world s.choice c).1, s.choices.tail⟩
      (k (perform s.world s.choice c).2) Q) : Leads (solo rt) s (call c >>= k) Q := h

/-- The variable `ws` of an open socket. -/
theorem leads_wsVar {A : Type} {k : Option Sock → Code A}
    {Q : Alone (gateway rt) → Except RubyError A → Prop} (hw : w ∉ s.world.cleared)
    (h : Leads (solo rt) ⟨s.world, s.choices.tail⟩ (k (some w)) Q) :
    Leads (solo rt) s (call (.wsVar w) >>= k) Q := by
  have hvar : (perform s.world s.choice (.wsVar w)).2 = some w := if_neg hw
  refine leads_call ?_
  rw [hvar]
  exact h

theorem leads_onOpen : Leads (solo rt) s (onOpen w) (fun s' _ => s'.world =
    {s.world with connections := s.world.connections.insert (.socket w) none}) :=
  leads_section rfl

theorem leads_onClose (hw : w ∉ s.world.cleared) :
    Leads (solo rt) s (onClose w) (fun s' _ => s'.world = unrouted s.world w) := by
  have body : Leads (solo rt) s (do
      let ws ← call (.wsVar w)
      let sn ← call (.connKey ws)
      call (.connDelete sn)) (fun s' out => out = .ok () ∧
        {s'.world with cleared := w :: s'.world.cleared} = unrouted s.world w) := by
    refine leads_wsVar hw (leads_call ?_)
    simp only [perform, unrouted]
    cases s.world.connections.keyOf (some w) with
    | none => exact ⟨rfl, rfl⟩
    | some key => exact ⟨rfl, rfl⟩
  refine (leads_section body).bind (fun s' _ h => h.2) (fun s' e h => ?_)
  cases h.1

theorem choice_calm (h : ∀ c ∈ s.choices, c.fails = false) : s.choice.fails = false := by
  obtain ⟨world, choices⟩ := s
  cases choices with
  | nil => rfl
  | cons c choices => exact h c List.mem_cons_self

/-- LPUSH, DEL and PUBLISH change nothing here, and fail as chosen. -/
theorem leads_redis {p : Code Unit} (hp : ∀ Q, Leads (solo rt) s p Q ↔
      Leads (solo rt) ⟨s.world, s.choices.tail⟩ (redis (!s.choice.fails)) Q) :
    Leads (solo rt) s p (fun s' out => s' = ⟨s.world, s.choices.tail⟩ ∧
      (s.choice.fails = false → out = .ok ())) := by
  rw [hp]
  cases s.choice.fails with
  | false => exact ⟨rfl, fun _ => rfl⟩
  | true => exact ⟨rfl, fun h => by cases h⟩

/-- Only a failing Redis call ends the first section with an exception. -/
theorem leads_handOver : Leads (solo rt) s (handOver rt sn data) (fun s' out =>
    s'.world = s.world ∧ ((∀ c ∈ s.choices, c.fails = false) → out = .ok ())) := by
  refine leads_section ?_
  cases sn.truthy with
  | false => exact ⟨rfl, fun _ => rfl⟩
  | true =>
      refine (leads_redis (p := lpush _ data) (fun _ => Iff.rfl)).bind (fun s₁ _ h₁ => ?_)
        (fun s₁ e h₁ => ?_)
      · refine (leads_redis (p := del _) (fun _ => Iff.rfl)).mono (fun s₂ out h₂ => ?_)
        rw [h₂.1, h₁.1]
        refine ⟨rfl, fun calm => h₂.2 (choice_calm ?_)⟩
        rw [h₁.1]
        exact fun c hc => calm c (List.mem_of_mem_tail hc)
      · rw [h₁.1]
        refine ⟨rfl, fun calm => ?_⟩
        cases h₁.2 (choice_calm calm)

theorem leads_registerRoute (hw : w ∉ s.world.cleared) :
    Leads (solo rt) s (registerRoute w sn) (fun s' out =>
      s'.world = routed s.world w sn ∧ out = .ok ()) := by
  unfold registerRoute routed
  cases sn.truthy with
  | false => exact ⟨rfl, rfl⟩
  | true => exact leads_section (leads_wsVar hw ⟨rfl, rfl⟩)

/-- `start` of the service that was made last. -/
theorem leads_start {world : World} {channel : Json} {sid : Sid}
    (hs : s.world = enlisted world w channel .absent) (hsid : sid = world.services.length) :
    Leads (solo rt) s (start sid w channel) (fun s' _ => s'.world = subscribe world w channel) := by
  have known : Leads (solo rt) s (Program.synchronize (S := sig) .subscribedChannels
      (call (.registered w channel))) (fun s' out => s'.world = s.world ∧
        out = .ok (s.world.isRegistered w channel)) :=
    leads_section ⟨rfl, rfl⟩
  refine known.bind ?_ ?_
  · rintro s' known ⟨hs', hknown⟩
    rw [hs] at hs' hknown
    cases hknown
    have same : (enlisted world w channel .absent).isRegistered w channel =
        world.isRegistered w channel := rfl
    rw [same]
    unfold subscribe
    by_cases hsub : world.isRegistered w channel
    · simp only [hsub, if_true]
      exact hs'
    · have absent : (perform s'.world s'.choice (.threadAlive sid)).2 = false := by
        rw [hs', hsid]
        simp [perform, enlisted, ThreadStatus.isAlive]
      simp only [hsub, Bool.false_eq_true, if_false]
      refine leads_call ?_
      rw [absent]
      have register : Leads (solo rt) ⟨s'.world, s'.choices.tail⟩
          (Program.synchronize (S := sig) .subscribedChannels (call (.register w channel)))
          (fun s'' out => out = .ok () ∧ s''.world =
            {s'.world with subscribed := (w, channel.eqlKey) :: s'.world.subscribed}) :=
        leads_section ⟨rfl, rfl⟩
      refine register.bind (fun s'' _ h => ?_) (fun s'' e h => by cases h.1)
      show (perform s''.world s''.choice (.threadNew sid)).1 = _
      have last : ∀ (v : Service) (f : Service → Service),
          (world.services ++ [v]).modify world.services.length f = world.services ++ [f v] :=
        fun v f => List.modifyTailIdx_add (List.modifyHead f) 0 world.services [v]
      rw [h.2, hs', hsid]
      simp only [perform, enlisted, World.setService, last]
  · rintro s' e ⟨-, he⟩
    cases he

theorem leads_startSubscriber (hw : w ∉ s.world.cleared) :
    Leads (solo rt) s (startSubscriber w sn) (fun s' _ => s'.world = subscribe s.world w sn) := by
  refine leads_wsVar hw (leads_call ?_)
  exact leads_start rfl rfl

/-- The text is a message with this `sn`, which may be absent. -/
def SnOf (rt : Runtime) (data : String) (sn : Json) : Prop :=
  ∃ message, rt.parse data = some message ∧ message.index "sn" = .ok sn

/-- A message has one `sn`. -/
theorem snOf_unique {sn' : Json} (h : SnOf rt data sn) (h' : SnOf rt data sn') : sn = sn' := by
  obtain ⟨message, hp, hsn⟩ := h
  obtain ⟨message', hp', hsn'⟩ := h'
  rw [hp, Option.some.injEq] at hp'
  subst hp'
  rw [hsn, Except.ok.injEq] at hsn'
  exact hsn'

/-- What the handler does once the message is handed over. -/
def register (rt : Runtime) (w : Sock) (data : String) (message sn command : Json) : Code Unit := do
  registerRoute w sn
  let ws ← call (.wsVar w)
  handleReg rt message ws
  if command = .str "sendlog" then publish sendlogChannel data else startSubscriber w sn

theorem onMessage_eq {message command : Json} (hp : rt.parse data = some message)
    (hsn : message.index "sn" = .ok sn) (hcommand : message.index "cmd" = .ok command) (w : Sock) :
    onMessage rt w data = (do
      handOver rt sn data
      register rt w data message sn command) := by
  unfold onMessage
  simp only [parse, hp, hsn, hcommand, lift, Program.pure_eq, Program.done_bind]
  rfl

theorem leads_register (hw : w ∉ s.world.cleared) (message command : Json) :
    Leads (solo rt) s (register rt w data message sn command) (fun s' _ =>
      s'.world = routed s.world w sn ∨ s'.world = subscribe (routed s.world w sn) w sn) := by
  have hcleared : w ∉ (routed s.world w sn).cleared := by
    rw [routed_cleared]
    exact hw
  refine (leads_registerRoute hw).bind (fun s₁ _ h₁ => ?_) (fun s₁ e h₁ => by cases h₁.2)
  rw [← h₁.1] at hcleared ⊢
  refine leads_wsVar hcleared ?_
  have answer : Leads (solo rt) ⟨s₁.world, s₁.choices.tail⟩ (handleReg rt message (some w))
      (fun s₂ _ => s₂.world = s₁.world) := by
    refine Leads.invariant (I := fun s₂ : Alone (gateway rt) => s₂.world = s₁.world)
      (uses_handleReg message) ?_ rfl
    rintro s₂ q (rfl | ⟨doc, rfl⟩) h
    · exact h
    · exact h
  refine answer.bind (fun s₂ _ h₂ => ?_) (fun s₂ e h₂ => .inl h₂)
  split
  · refine (leads_redis (p := publish sendlogChannel data) (fun _ => Iff.rfl)).mono
      (fun s₃ _ h₃ => .inl ?_)
    rw [h₃.1]
    exact h₂
  · rw [← h₂] at hcleared ⊢
    exact (leads_startSubscriber hcleared).mono (fun _ _ h => .inr h)

/-- What a message of an open socket can do. Without a Redis failure its serial
is routed. -/
theorem leads_onMessage (hw : w ∉ s.world.cleared) :
    Leads (solo rt) s (onMessage rt w data) (fun s' _ =>
      (s'.world = s.world ∧ ((∀ c ∈ s.choices, c.fails = false) → ∀ sn, ¬ SnOf rt data sn)) ∨
      ∃ sn, SnOf rt data sn ∧
        (s'.world = routed s.world w sn ∨ s'.world = subscribe (routed s.world w sn) w sn)) := by
  cases hp : rt.parse data with
  | none =>
      unfold onMessage
      simp only [parse, hp]
      refine .inl ⟨rfl, ?_⟩
      rintro - sn ⟨message, hm, -⟩
      rw [hp] at hm
      cases hm
  | some message =>
      cases hsn : message.index "sn" with
      | error e =>
          unfold onMessage
          simp only [parse, hp, hsn, Program.pure_eq, Program.done_bind]
          refine .inl ⟨rfl, ?_⟩
          rintro - sn ⟨message', hm, hsn'⟩
          rw [hp] at hm
          cases hm
          rw [hsn] at hsn'
          cases hsn'
      | ok sn =>
          obtain ⟨command, hcommand⟩ := index_ok hsn "cmd"
          rw [onMessage_eq hp hsn hcommand]
          refine leads_handOver.bind (fun s₁ _ h₁ => ?_) (fun s₁ e h₁ => ?_)
          · rw [← h₁.1] at hw ⊢
            exact (leads_register hw message command).mono
              (fun _ _ h => .inr ⟨sn, ⟨message, hp, hsn⟩, h⟩)
          · refine .inl ⟨h₁.1, fun calm => ?_⟩
            cases h₁.2 calm

end Effects

/-- Everything that a turn can do. -/
inductive Effect (rt : Runtime) (world : World) (t : Turn) : World → Prop
  | opened {w : Sock} : t.event = .opened w →
      Effect rt world t {world with connections := world.connections.insert (.socket w) none}
  | closed {w : Sock} : t.event = .closed w → w ∉ world.cleared →
      Effect rt world t (unrouted world w)
  | ignored {w : Sock} {data : String} : t.event = .message w data → w ∉ world.cleared →
      (t.Calm → ∀ sn, ¬ SnOf rt data sn) → Effect rt world t world
  | registered {w : Sock} {data : String} {sn : Json} : t.event = .message w data →
      w ∉ world.cleared → SnOf rt data sn → Effect rt world t (routed world w sn)
  | subscribed {w : Sock} {data : String} {sn : Json} : t.event = .message w data →
      w ∉ world.cleared → SnOf rt data sn →
      Effect rt world t (subscribe (routed world w sn) w sn)

section Turns
variable {rt : Runtime} {world world' : World} {t : Turn}

theorem turn_effect (h : turn rt world t = some world') : Effect rt world t world' := by
  obtain ⟨event, choices⟩ := t
  unfold turn at h
  split at h
  · rename_i henabled
    cases h
    cases event with
    | opened w =>
        have hrun : Leads (solo rt) ⟨world, choices⟩ (onOpen w) _ := leads_onOpen
        simp only [handle, handler]
        rw [hrun]
        exact .opened rfl
    | closed w =>
        have hrun : Leads (solo rt) ⟨world, choices⟩ (onClose w) _ := leads_onClose henabled
        simp only [handle, handler]
        rw [hrun]
        exact .closed rfl henabled
    | message w data =>
        have hrun : Leads (solo rt) ⟨world, choices⟩ (onMessage rt w data) _ :=
          leads_onMessage henabled
        simp only [handle, handler]
        rcases hrun with ⟨hw, hignored⟩ | ⟨sn, hsn, hw | hw⟩
        · rw [hw]
          exact .ignored rfl henabled hignored
        · rw [hw]
          exact .registered rfl henabled hsn
        · rw [hw]
          exact .subscribed rfl henabled hsn
  · cases h

/-- A sequence of turns; it ends where an event has no turn. -/
def run (rt : Runtime) (world : World) (ts : List Turn) : Option World := ts.foldlM (turn rt) world

theorem run_cons {ts : List Turn} (h : run rt world (t :: ts) = some world') :
    ∃ world₁, turn rt world t = some world₁ ∧ run rt world₁ ts = some world' :=
  Option.bind_eq_some_iff.mp h

theorem run_world {ts : List Turn} (h : run rt world ts = some world') :
    world' = ts.foldl (fun w t => (handle rt w t).state.world) world := by
  induction ts generalizing world with
  | nil =>
      cases h
      rfl
  | cons t ts ih =>
      obtain ⟨world₁, hturn, hrest⟩ := run_cons h
      unfold turn at hturn
      split at hturn
      · cases hturn
        exact ih hrest
      · cases hturn

end Turns

section Serial
variable {rt : Runtime}

/-- Entered as a thread, a handler does what its turn does. -/
theorem handler_enters (event : SocketEvent) (world : World) (t : Tid) (world' : World)
    (p : Code Out) (h : (gateway rt).enter world t event.kind = some (world', p)) :
    Uses NoWait p ∧ ∀ choices,
      (drive (alone (M := gateway rt) t) ⟨world', choices⟩ p).state.world =
        (handle rt world ⟨event, choices⟩).state.world := by
  constructor
  · -- only requests wait
    refine (performs_enter rt world t event.kind world' p h).mono (fun q hq => ?_)
    cases q with
    | await key =>
        obtain ⟨channel, command, body, hkind, -⟩ := hq
        cases event <;> cases hkind
    | _ => trivial
  · intro choices
    obtain ⟨q, hq, heq⟩ := Option.map_eq_some_iff.mp h
    cases heq
    have hcode : p = (fun _ => .handled) <$> handler rt event := by
      cases event <;> exact (Option.some.inj hq).symm
    subst hcode
    rw [map_eq_pure_bind]
    have hsolo : alone (M := gateway rt) t = solo rt := by
      funext s q
      cases q <;> rfl
    rw [hsolo, drive_bind]
    unfold handle Run.andThen
    split <;> rfl

/-- In a serial run of the pool, the events change the world as their turns do. -/
theorem serial_turns {ok : Choice → Prop} {s s' : State (gateway rt)} {events : List SocketEvent}
    (wf : Wf s) (h : Serial ok s (events.map SocketEvent.kind) s') :
    ∃ ts : List Turn, ts.map Turn.event = events ∧ (∀ t ∈ ts, ∀ c ∈ t.choices, ok c) ∧
      ∀ world, run rt s.world ts = some world → s'.world = world := by
  obtain ⟨turns, hevents, hok, hworld⟩ := serial_worlds handler_enters wf h
  refine ⟨turns.map (fun turn => ⟨turn.1, turn.2⟩), ?_, ?_, ?_⟩
  · rw [List.map_map]
    exact hevents
  · intro t ht
    obtain ⟨turn, hturn, rfl⟩ := List.mem_map.mp ht
    exact hok turn hturn
  · intro world hrun
    rw [hworld, run_world hrun, List.foldl_map]

/-- The sockets whose close event has been handled. -/
def closedBy (cleared : List Sock) : SocketEvent → List Sock
  | .closed w => w :: cleared
  | _ => cleared

/-- Sockets close once, and no message of a socket comes after its close. -/
def Orderly (cleared : List Sock) : List SocketEvent → Prop
  | [] => True
  | event :: events =>
      (match event with
        | .opened _ => True
        | .message w _ => w ∉ cleared
        | .closed w => w ∉ cleared) ∧ Orderly (closedBy cleared event) events

theorem Effect.cleared {world world' : World} {t : Turn} (h : Effect rt world t world') :
    world'.cleared = closedBy world.cleared t.event := by
  cases h with
  | opened he =>
      rw [he]
      rfl
  | closed he _ =>
      rw [he]
      exact unrouted_cleared
  | ignored he _ _ =>
      rw [he]
      rfl
  | registered he _ _ =>
      rw [he]
      exact routed_cleared
  | subscribed he _ _ =>
      rw [he]
      exact (subscribe_cleared _).trans routed_cleared

theorem enabled_of_orderly {world : World} {event : SocketEvent} {events : List SocketEvent}
    (h : Orderly world.cleared (event :: events)) : Enabled world event := by
  cases event with
  | opened w => trivial
  | message w data => exact h.1
  | closed w => exact h.1

/-- Orderly events have all their turns. -/
theorem run_orderly {ts : List Turn} {world : World}
    (h : Orderly world.cleared (ts.map Turn.event)) : ∃ world', run rt world ts = some world' := by
  induction ts generalizing world with
  | nil => exact ⟨world, rfl⟩
  | cons t ts ih =>
      have hturn : turn rt world t = some (handle rt world t).state.world :=
        if_pos (enabled_of_orderly h)
      have hrest : Orderly (handle rt world t).state.world.cleared (ts.map Turn.event) := by
        rw [(turn_effect hturn).cleared]
        exact h.2
      obtain ⟨world', hrest⟩ := ih hrest
      exact ⟨world', Option.bind_eq_some_iff.mpr ⟨_, hturn, hrest⟩⟩

/-- A run of the pool which handles orderly events one after another is a sequence
of turns. -/
theorem serial_refines {ok : Choice → Prop} {s s' : State (gateway rt)}
    {events : List SocketEvent} (wf : Wf s) (h : Serial ok s (events.map SocketEvent.kind) s')
    (horderly : Orderly s.world.cleared events) :
    ∃ ts : List Turn, ts.map Turn.event = events ∧ (∀ t ∈ ts, ∀ c ∈ t.choices, ok c) ∧
      run rt s.world ts = some s'.world := by
  obtain ⟨ts, hevents, hok, hworld⟩ := serial_turns wf h
  rw [← hevents] at horderly
  obtain ⟨world, hrun⟩ : ∃ world, run rt s.world ts = some world := run_orderly horderly
  rw [hworld world hrun]
  exact ⟨ts, hevents, hok, hrun⟩

/-- Socket 0 opens, and its handler runs to its end. -/
def opening : List (Label (gateway (Runtime.ofTable []))) := .enter (.opened 0) :: turns 0 3

/-- Socket 0 opens and closes. -/
def visit : List (Label (gateway (Runtime.ofTable []))) :=
  opening ++ .enter (.closed 0) :: turns 1 6

theorem serial_refines_visit : ∃ ts : List Turn, ts.map Turn.event = [.opened 0, .closed 0] ∧
    run (Runtime.ofTable []) World.start ts = some (after visit).world := by
  have choice : ∀ {t : Tid} {n : ℕ} (l : Label (gateway (Runtime.ofTable []))), l ∈ turns t n →
      ∃ c : Choice, c = {} ∧ l = .run t c := fun l hl => ⟨{}, rfl, (List.mem_replicate.mp hl).2⟩
  have h₀ : exec (after [.enter (.opened 0)]) (turns 0 3) = some (after opening) := rfl
  have h₁ : exec (after (opening ++ [.enter (.closed 0)])) (turns 1 6) = some (after visit) := rfl
  have h : Serial (fun c : Choice => c = {}) (boot (Runtime.ofTable []))
      ([SocketEvent.opened 0, .closed 0].map SocketEvent.kind) (after visit) :=
    .cons rfl choice h₀ ⟨_, rfl, trivial⟩ (.cons rfl choice h₁ ⟨_, rfl, trivial⟩ (.nil _))
  have horderly : Orderly (boot (Runtime.ofTable [])).world.cleared [.opened 0, .closed 0] :=
    ⟨trivial, List.not_mem_nil, trivial⟩
  obtain ⟨ts, hevents, -, hrun⟩ := serial_refines (wf_initial _) h horderly
  exact ⟨ts, hevents, hrun⟩

end Serial

end EvoGw.SocketTurns
