import EvoGw.WebSocketHandler
import EvoGw.ServerRoute

/-!
# The gateway as a pool of threads

Six kinds of threads enter at any time and in any number: the handlers of the
open, message and close events of a socket, POST requests, the block that a
subscriber thread runs for a published command, and the end of a subscriber
thread that cannot connect. A published command reaches only a service whose
thread runs and whose channel Redis has accepted. No order among the handlers is
imposed here; results that assume one say so. What a thread may do to the Redis
lists is read off its kind.
-/
namespace EvoGw.GatewayPool
open ThreadPrograms ThreadPools GatewayCalls JsonValues

inductive Kind where
  | opened (w : Sock)
  | message (w : Sock) (data : String)
  | closed (w : Sock)
  | post (channel command body : String)
  | command (sid : Sid) (text : String)
  | disconnected (sid : Sid)
  deriving DecidableEq

inductive Out where
  | handled
  | answered (a : ServerRoute.Answer)
  deriving DecidableEq

/-- The thread of a service has subscribed to a channel and receives from it. -/
def Listens (rt : Runtime) (v : Service) : Prop := v.thread = .alive ∧ rt.channels v.channel ≠ []

instance (rt : Runtime) (v : Service) : Decidable (Listens rt v) :=
  inferInstanceAs (Decidable (_ ∧ _))

def program (rt : Runtime) (world : World) : Kind → Option (Code Out)
  | .opened w => some ((fun _ => .handled) <$> WebSocketHandler.onOpen w)
  | .message w data => some ((fun _ => .handled) <$> WebSocketHandler.onMessage rt w data)
  | .closed w => some ((fun _ => .handled) <$> WebSocketHandler.onClose w)
  | .post channel command body => some (.answered <$> ServerRoute.post rt channel command body)
  | .command sid text =>
      match world.services[sid]? with
      | some v => if Listens rt v then
          some ((fun _ => .handled) <$> WebSocketHandler.onPublished rt sid v.ws text) else none
      | none => none
  | .disconnected sid =>
      match world.services[sid]? with
      | some v => if v.thread = .alive then
          some ((fun _ => .handled) <$>
            WebSocketHandler.subscriberEnds sid v.registry v.channel) else none
      | none => none

@[reducible] def gateway (rt : Runtime) : Semantics sig where
  World := World
  Choice := Choice
  Kind := Kind
  Out := Out
  fails := Choice.fails
  perform := fun w _ c choice => perform w choice c
  enter := fun w _ kind => (program rt w kind).map (fun p => (w, p))

/-- The running server before its first connection. -/
def boot (rt : Runtime) : State (gateway rt) := initial World.start

/-- What a thread has returned, once it has ended without an exception. -/
def outcome {rt : Runtime} (s : State (gateway rt)) (t : Tid) : Option Out :=
  match s.threads[t]? with
  | some ⟨_, .done out⟩ => some out
  | _ => none

theorem prog_of_outcome {rt : Runtime} {s : State (gateway rt)} {t : Tid} {kind : Kind}
    {p : Code Out} {out : Out} (ht : s.threads[t]? = some ⟨kind, p⟩)
    (h : outcome s t = some out) : p = .done out := by
  simp only [outcome, ht] at h
  split at h
  · rename_i heq
    cases heq
    rw [Option.some.inj h]
  · cases h

/-- The state at the end of a run that is known to be one. -/
def after {rt : Runtime} (ls : List (Label (gateway rt))) : State (gateway rt) :=
  (exec (boot rt) ls).getD (boot rt)

/-- A thread runs for so many steps while every library call succeeds. -/
def turns {rt : Runtime} (t : Tid) (n : ℕ) : List (Label (gateway rt)) :=
  List.replicate n (.run t {})

/-! ### What a thread performs -/

section Primitives
open WebSocketHandler ServerRoute
variable {rt : Runtime} {kind : Kind}

/-- The programs with which threads enter. -/
theorem program_cases {rt : Runtime} {P : Kind → Code Out → Prop} {world : World} {kind : Kind}
    {p : Code Out} (h : program rt world kind = some p)
    (hopened : ∀ w, P (.opened w) ((fun _ => .handled) <$> onOpen w))
    (hmessage : ∀ w data, P (.message w data) ((fun _ => .handled) <$> onMessage rt w data))
    (hclosed : ∀ w, P (.closed w) ((fun _ => .handled) <$> onClose w))
    (hpost : ∀ channel command body,
      P (.post channel command body) (.answered <$> post rt channel command body))
    (hcommand : ∀ sid ws text,
      P (.command sid text) ((fun _ => .handled) <$> onPublished rt sid ws text))
    (hends : ∀ sid w channel,
      P (.disconnected sid) ((fun _ => .handled) <$> subscriberEnds sid w channel)) : P kind p := by
  cases kind with
  | opened w =>
      cases h
      exact hopened w
  | message w data =>
      cases h
      exact hmessage w data
  | closed w =>
      cases h
      exact hclosed w
  | post channel command body =>
      cases h
      exact hpost channel command body
  | command sid text =>
      simp only [program] at h
      split at h
      · split_ifs at h
        cases h
        exact hcommand sid _ text
      · cases h
  | disconnected sid =>
      simp only [program] at h
      split at h
      · split_ifs at h
        cases h
        exact hends sid _ _
      · cases h

/-- The primitives of a thread of this kind. -/
def Primitive (rt : Runtime) : Kind → Prim sig → Prop
  | .opened w, p => IsOpen w p
  | .message w data, p => IsMessage rt w data p
  | .closed w, p => IsClose w p
  | .post channel _ _, p => IsCommand channel p
  | .command sid _, p => ∃ ws, IsPublished sid ws p
  | .disconnected sid, p => ∃ registry channel, IsSubscriberEnds sid registry channel p

/-- What a thread performs, from its entry to its end. -/
theorem uses_enter (rt : Runtime) (w : World) (t : Tid) (kind : Kind) (w' : World) (p : Code Out)
    (h : (gateway rt).enter w t kind = some (w', p)) : Uses (Primitive rt kind) p := by
  obtain ⟨q, hq, heq⟩ := Option.map_eq_some_iff.mp h
  cases heq
  refine program_cases (P := fun kind p => Uses (Primitive rt kind) p) hq ?_ ?_ ?_ ?_ ?_ ?_
  · exact fun w => (uses_onOpen w).bind (fun _ => trivial)
  · exact fun w data => (uses_onMessage w data).bind (fun _ => trivial)
  · exact fun w => (uses_onClose w).bind (fun _ => trivial)
  · exact fun channel command body => (uses_commands channel command body).bind (fun _ => trivial)
  · exact fun sid ws text =>
      ((uses_onPublished text).mono (fun _ h => ⟨ws, h⟩)).bind (fun _ => trivial)
  · exact fun sid w channel =>
      ((uses_subscriberEnds sid w channel).mono (fun _ h => ⟨w, channel, h⟩)).bind
        (fun _ => trivial)

/-- The list operations of a thread: the handler of a message pushes its own text,
which is JSON, and deletes lists; a request waits on the list of its channel. -/
def Performs (rt : Runtime) (kind : Kind) : Prim sig → Prop
  | .push _ d => (∃ w, kind = .message w d) ∧ (rt.parse d).isSome = true
  | .clear _ => ∃ w data, kind = .message w data
  | .await key => ∃ channel command body,
      kind = .post channel command body ∧ key = responseKey channel
  | _ => True

theorem performs_calls {p : Prim sig} (h : p.IsCall) : Performs rt kind p := by
  cases p with
  | call c => trivial
  | _ => exact h.elim

theorem Primitive.performs {p : Prim sig} (h : Primitive rt kind p) : Performs rt kind p := by
  cases kind with
  | opened w => cases h <;> trivial
  | closed w => cases h <;> trivial
  | message w data =>
      cases h with
      | handOver message sn hparse hsn h =>
          cases h with
          | push => exact ⟨⟨w, rfl⟩, Option.isSome_of_mem hparse⟩
          | clear => exact ⟨w, data, rfl⟩
          | _ => trivial
      | registerRoute sn h => cases h <;> trivial
      | conclusion sn h =>
          rcases h.calls_or_locks with h | rfl | rfl
          · exact performs_calls h
          · trivial
          · trivial
  | post channel command body =>
      cases h with
      | send w h => exact performs_calls h.isCall
      | await => exact ⟨channel, command, body, rfl, rfl⟩
      | _ => trivial
  | command sid text =>
      obtain ⟨ws, h⟩ := h
      cases h with
      | send h => exact performs_calls h.isCall
      | _ => trivial
  | disconnected sid =>
      obtain ⟨registry, channel, h⟩ := h
      cases h <;> trivial

/-- What a thread does with the lists. -/
theorem performs_enter (rt : Runtime) (w : World) (t : Tid) (kind : Kind) (w' : World)
    (p : Code Out) (h : (gateway rt).enter w t kind = some (w', p)) :
    Uses (Performs rt kind) p := (uses_enter rt w t kind w' p h).mono (fun _ hp => hp.performs)

end Primitives

end EvoGw.GatewayPool
