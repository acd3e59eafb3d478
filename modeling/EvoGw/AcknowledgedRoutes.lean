import EvoGw.CommandResults
import EvoGw.RoutingTable

/-!
# Commands reach a device that has been answered

The message handler stores the route of the device before it answers the device.
So a device that has its answer can be reached: while it stays connected and no
other socket speaks for its serial, every request that comes in later finds its
socket and writes to no other one. This holds in every interleaving and under
every failure of Redis or of a socket.
-/
namespace EvoGw.AcknowledgedRoutes
open ThreadPrograms ThreadPools PoolTraces PoolContracts LockedViews
open GatewayCalls JsonValues InsertionHash WebSocketHandler ServerRoute GatewayPool
open SocketTurns RoutingTable GatewayProgress
open DevicesSender (sends_send uses_lift uses_redis)
open CommandResults (relies_requests)

variable {rt : Runtime}

/-- From `s₀` to `s` only the socket `w` speaks for the serial `c`, and it is not
closed. Handlers that have ended before `s₀` do not count. -/
structure Speaks (rt : Runtime) (c : String) (w : Sock) (s₀ s : State (gateway rt)) : Prop where
  past : ∃ ls, exec (boot rt) ls = some s₀
  connected : w ∉ closedSockets s
  others : ∀ t w' data p, s.threads[t]? = some ⟨.message w' data, p⟩ →
    SnOf rt data (.str c) → w' = w ∨ Ended s₀ t

section Speaks
variable {c : String} {w : Sock} {s₀ s₁ s : State (gateway rt)} {ls ls' : List (Label (gateway rt))}

theorem Speaks.first (sp : Speaks rt c w s₀ s) (h : exec s₀ ls = some s₁)
    (h' : exec s₁ ls' = some s) : Speaks rt c w s₀ s₁ where
  past := sp.past
  connected := by
    obtain ⟨ls₀, h₀⟩ := sp.past
    exact fun hw => sp.connected (closedSockets_exec (exec_wf_from (exec_wf h₀) h) h' hw)
  others := by
    intro t w' data p ht hsn
    obtain ⟨ls₀, h₀⟩ := sp.past
    obtain ⟨q, hq⟩ := exec_kind (exec_wf_from (exec_wf h₀) h) h' ht
    exact sp.others t w' data q hq hsn

theorem Speaks.rest (sp : Speaks rt c w s₀ s) (h : exec s₀ ls = some s₁) :
    Speaks rt c w s₁ s where
  past := by
    obtain ⟨ls₀, h₀⟩ := sp.past
    exact ⟨ls₀ ++ ls, exec_trans h₀ h⟩
  connected := sp.connected
  others := by
    obtain ⟨ls₀, h₀⟩ := sp.past
    exact fun t w' data p ht hsn =>
      (sp.others t w' data p ht hsn).imp_right (fun hended => exec_ended (exec_wf h₀) h hended)

end Speaks

section Requests

/-- The lookups of the channel `c` find `w`. -/
def LookupsFind (c : String) (w : Sock) : Event sig → Prop
  | ⟨.call (.connGet channel), found⟩ => channel = c → found = some w
  | _ => True

/-- Frames go to `w`. -/
def Targets (w : Sock) : Prim sig → Prop
  | .call (.wsSend ws _) => ws = some w
  | _ => True

/-- A request writes to the socket which it has found. -/
theorem relies_frames (c : String) (w : Sock) (command body : String) :
    Relies (LookupsFind c w) (Targets w) (fun _ => True) (post rt c command body) := by
  refine relies_requests (fun args => ?_)
  rw [handleWsCommand_eq]
  refine ⟨trivial, fun found hfound => ?_⟩
  obtain rfl : found = some w := hfound rfl
  have frames : Uses (Targets w) (DevicesSender.send rt (some w) command args) := by
    refine (sends_send command args).uses.mono ?_
    rintro p ⟨doc, rfl⟩
    rfl
  exact (Relies.of_uses frames).seq
    (fun _ => Relies.of_uses (uses_awaitReply trivial trivial))

end Requests

/-- What the handler of a message with this serial stores is its socket, unless the
socket is closed. -/
theorem stored_of_admits {closed : Set Sock} {w : Sock} {data c : String} {table : Table}
    {key : ConnKey} {ws : Option Sock} (hsn : SnOf rt data (.str c)) (hw : w ∉ closed)
    (h : Admits rt closed (.message w data) table (.connSet key ws)) :
    (effect table (.connSet key ws)).get? (.serial (.str c)) = some (some w) := by
  obtain ⟨commit, hcommit, happly⟩ := h
  cases commit with
  | stored sn ws' =>
      obtain ⟨hsn', -, hws⟩ := hcommit
      obtain rfl := snOf_unique hsn hsn'
      obtain rfl : ws' = some w := hws.resolve_right (fun hnone => hw hnone.2)
      rw [happly, Commit.apply, Json.eqlKey_str, Hash.get?_insert_self]
  | _ => exact hcommit.elim

section Registration
variable {c : String} {w : Sock} {data : String}

def IsStore (c : String) (p : Prim sig) : Prop :=
  ∃ ws, p = .call (.connSet (.serial (.str c)) ws)

def IsFrame : Prim sig → Prop
  | .call (.wsSend _ _) => True
  | _ => False

/-- The handler stores the route before it answers. -/
theorem stores_before_answer (hsn : SnOf rt data (.str c)) :
    Before (IsStore c) IsFrame (onMessage rt w data) := by
  obtain ⟨message, hp, hsn⟩ := hsn
  have hparse : parse rt data = .done message := by simp [parse, hp]
  have hserial : lift (message.index "sn") = .done (.str c) := by
    rw [hsn]
    rfl
  have quiet : Uses (fun q => ¬ IsFrame q) (handOver rt (.str c) data) := by
    refine Uses.synchronize id id ?_
    split_ifs
    · exact Uses.bind (p := lpush _ data) ⟨id, uses_redis⟩ (fun _ => ⟨id, uses_redis⟩)
    · trivial
  unfold onMessage
  rw [hparse, Program.done_bind, hserial, Program.done_bind]
  refine (Before.of_uses quiet).bind (fun _ => ?_)
  refine (Before.of_uses (uses_lift _)).bind (fun command => ?_)
  unfold registerRoute
  rw [if_pos (Json.truthy_str c), Json.eqlKey_str]
  exact ⟨id, .inr (fun _ => ⟨id, .inr (fun ws => ⟨id, .inl ⟨ws, rfl⟩⟩)⟩)⟩

end Registration

section Reachable
variable {c : String} {w : Sock} {s₀ s₁ s₂ : State (gateway rt)}
  {ls₁ ls₂ : List (Label (gateway rt))}

/-- Once the handler of a message of `w` has answered, the route of its serial is
the socket `w`. -/
theorem route_of_answer (sp : Speaks rt c w s₀ s₁) (h₁ : exec s₀ ls₁ = some s₁) {t : Tid}
    {data : String} {p : Code Out} (ht : s₀.threads.length ≤ t)
    (hkind : s₁.threads[t]? = some ⟨.message w data, p⟩) (hsn : SnOf rt data (.str c))
    {ws : Option Sock} {doc : Json} {sent : Sent}
    (hanswer : .called t (.wsSend ws doc) sent ∈ s₁.log) :
    s₁.world.connections.get? (.serial (.str c)) = some (some w) := by
  obtain ⟨ls₀, h₀⟩ := sp.past
  have hrun := exec_trans h₀ h₁
  -- the handler has stored the route before
  have hevent := trace_of_called hanswer
  obtain ⟨v, v', prog, henter, hres⟩ := exec_residual hrun hkind
  cases henter
  have hbefore : Before (IsStore c) IsFrame
      ((fun _ => Out.handled) <$> onMessage rt w data) :=
    (stores_before_answer hsn).bind (fun _ => trivial)
  obtain ⟨⟨q, stored⟩, hstored, ws', rfl⟩ := hbefore.of_mem hres hevent trivial
  obtain ⟨lsa, l, lsb, sa, sb, -, ha, hstep, hb⟩ :=
    exec_split_called h₀ h₁ ht (called_of_trace hstored)
  have hruna := exec_trans h₀ ha
  have hrunb := exec_snoc hruna hstep
  have sp' := sp.rest (exec_snoc ha hstep)
  refine exec_route hrunb hb ?_ sp'.connected sp'.others
  -- what was stored is the socket itself, because it is not closed
  have a := exec_performs hruna (fun _ hw => hw)
  have wf := exec_wf hruna
  cases hstep with
  | @call _ choice kind _ k hta =>
      obtain ⟨q', hq'⟩ := exec_kind (exec_wf hrunb) hb (State.setProg_self hta _)
      cases hkind.symm.trans hq'
      have hclosed : w ∉ closedSockets sa :=
        fun hw => sp'.connected
          (closedSockets_exec (exec_wf hrunb) hb (closedSockets_step wf (.call hta) hw))
      exact stored_of_admits hsn hclosed (a.admitted hta)

/-- Once a device has been answered, requests that come in later find its socket
and write to no other one, while the device stays connected and nobody else speaks
for its serial. -/
theorem answered_reachable (sp : Speaks rt c w s₀ s₂) (h₁ : exec s₀ ls₁ = some s₁)
    (h₂ : exec s₁ ls₂ = some s₂) {t : Tid} {data : String} {p : Code Out}
    (ht : s₀.threads.length ≤ t) (hkind : s₁.threads[t]? = some ⟨.message w data, p⟩)
    (hsn : SnOf rt data (.str c)) {ws : Option Sock} {doc : Json} {sent : Sent}
    (hanswer : .called t (.wsSend ws doc) sent ∈ s₁.log) {u : Tid} {command body : String}
    {q : Code Out} (hu : s₁.threads.length ≤ u)
    (hpost : s₂.threads[u]? = some ⟨.post c command body, q⟩) :
    (∀ found, .called u (.connGet c) found ∈ s₂.log → found = some w) ∧
    ∀ ws doc sent, .called u (.wsSend ws doc) sent ∈ s₂.log → ws = some w := by
  have sp₁ := sp.rest h₁
  obtain ⟨ls, hrun₁⟩ := sp₁.past
  have hroute := route_of_answer (sp.first h₁ h₂) h₁ ht hkind hsn hanswer
  have finds : ∀ found, .called u (.connGet c) found ∈ s₂.log → found = some w :=
    fun _ hfound => exec_lookup hrun₁ h₂ hroute sp₁.connected sp₁.others hu hfound
  refine ⟨finds, fun ws doc sent hframe => ?_⟩
  have hrun₂ := exec_trans hrun₁ h₂
  obtain ⟨v, v', prog, henter, hres⟩ := exec_residual hrun₂ hpost
  cases henter
  have hrelies : Relies (LookupsFind c w) (Targets w) (fun _ => True)
      (Out.answered <$> post rt c command body) :=
    (relies_frames c w command body).seq (fun _ => trivial)
  have hsound : ∀ e ∈ trace u s₂.log, LookupsFind c w e := by
    rintro ⟨p, r⟩ he
    cases p with
    | call call =>
        cases call with
        | connGet channel =>
            rintro rfl
            exact finds r (called_of_trace he)
        | _ => trivial
    | _ => trivial
  exact hrelies.performed hres hsound _ (trace_of_called hframe)

end Reachable

/-- Reader `A` registers on socket 0 and is answered. -/
def registers : List (Label (gateway ConnectionTable.twoSerials)) :=
  .enter (.message 0 "reg A") :: turns 0 21

/-- A request for reader `A` writes its frame. -/
def oneRequest : List (Label (gateway ConnectionTable.twoSerials)) :=
  .enter (.post "A" "user_list" "") :: turns 1 2

theorem answered_reachable_registers :
    ∃ s₂, exec (after registers) oneRequest = some s₂ ∧
      ∀ found, .called 1 (.connGet "A") found ∈ s₂.log → found = some 0 := by
  have h₁ : exec (boot ConnectionTable.twoSerials) registers = some (after registers) := rfl
  obtain ⟨s₂, h₂⟩ : ∃ s₂, exec (after registers) oneRequest = some s₂ := ⟨_, rfl⟩
  have threads : ∃ p q, s₂.threads = [⟨.message 0 "reg A", p⟩, ⟨.post "A" "user_list" "", q⟩] := by
    cases h₂
    exact ⟨_, _, rfl⟩
  obtain ⟨p, q, hthreads⟩ := threads
  have sp : Speaks ConnectionTable.twoSerials "A" 0 (boot ConnectionTable.twoSerials) s₂ := by
    refine ⟨⟨[], rfl⟩, ?_, ?_⟩
    · rintro ⟨t, p', ht⟩
      have hm := List.mem_of_getElem? ht
      simp [hthreads] at hm
    · intro t w' data p' ht _
      have hm := List.mem_of_getElem? ht
      simp only [hthreads, List.mem_cons, Thread.mk.injEq, Kind.message.injEq, reduceCtorEq,
        false_and, List.not_mem_nil, or_false] at hm
      exact .inl hm.1.1
  have hkind : (after registers).threads[0]? = some ⟨.message 0 "reg A", .done .handled⟩ := rfl
  have hanswer : (after registers).log[11]? =
      some (.called 0 (.wsSend (some 0) (regResponse "")) .written) := rfl
  have hpost : s₂.threads[1]? = some ⟨.post "A" "user_list" "", q⟩ := by
    rw [hthreads]
    rfl
  exact ⟨s₂, h₂, (answered_reachable sp h₁ h₂ (Nat.le_refl 0) hkind ⟨_, rfl, rfl⟩
    (List.mem_of_getElem? hanswer) (Nat.le_refl 1) hpost).1⟩

end EvoGw.AcknowledgedRoutes
