import EvoGw.LogForwarding

/-!
# Messages without a serial

The routing state of the gateway is the table of connections, the lists of
replies, the started subscriber services and the channels they are registered
for. A message without `sn` should leave it alone. Of the four statements that
change it, LPUSH with DEL and the insertion into the table are guarded by
`if sn`, but the start of the subscriber service is not: it is reached by every
message that is no log, unless an exception comes first. And `String#[]` finds
`"sn"` in every JSON string that contains it.
-/
namespace EvoGw.SerialLessMessages
open ThreadPrograms ThreadPools PoolTraces SoloRuns SerialThreads InsertionHash
open GatewayCalls JsonValues WebSocketHandler GatewayPool SocketTurns
open LogForwarding (Fine drive_responseWs)

/-- What the lists hold, and how many requests are blocked on each. -/
structure Shelves where
  held : String → List String
  blocked : String → ℕ

/-- A push is handed to a blocked request, if there is one, and kept otherwise. -/
def Shelves.after (l : Shelves) : Event sig → Shelves
  | ⟨.push key d, true⟩ =>
      if l.blocked key = 0 then {l with held := Function.update l.held key (d :: l.held key)}
      else {l with blocked := Function.update l.blocked key (l.blocked key - 1)}
  | ⟨.clear key, true⟩ => {l with held := Function.update l.held key []}
  | _ => l

/-- The services whose thread was started. -/
def startedServices (world : World) : List Service :=
  world.services.filter (fun v => v.thread ≠ .absent)

structure SameRouting (world world' : World) : Prop where
  connections : world'.connections = world.connections
  subscribed : world'.subscribed = world.subscribed
  services : startedServices world' = startedServices world

/-- The handler of the message leaves the routing state as it was, from every
state and however its calls turn out, and whether it finishes or raises. -/
def LeavesRouting (rt : Runtime) (w : Sock) (data : String) : Prop :=
  ∀ (s : Alone (gateway rt)) (shelves : Shelves),
    SameRouting s.world (drive (solo rt) s (onMessage rt w data)).state.world ∧
    ((drive (solo rt) s (onMessage rt w data)).events.foldl Shelves.after shelves).held =
      shelves.held

/-- The message cannot be printed, or is a log, or its answer cannot be encoded. -/
def StopsEarly (rt : Runtime) (message : Json) : Prop :=
  rt.generates message = false ∨ message.index "cmd" = .ok (.str "sendlog") ∨
  message.index "cmd" = .ok (.str "reg") ∧ ∀ time, rt.generates (regResponse time) = false

/-- The text is no JSON, or its value has no `[]`, or it has a falsy `sn` and
stops early. -/
def Harmless (rt : Runtime) (data : String) : Prop :=
  ∀ message sn, rt.parse data = some message → message.index "sn" = .ok sn →
    sn.truthy = false ∧ StopsEarly rt message

/-! ### Handlers that touch nothing -/

/-- The primitives that leave the routing state alone. -/
def Still : Prim sig → Prop
  | .acquire _ => True
  | .release _ => True
  | .call (.wsVar _) => True
  | .call .timeNow => True
  | .call (.wsSend _ _) => True
  | .call (.publish _ _) => True
  | _ => False

section Still
variable {rt : Runtime} {w : Sock} {data : String} {message sn : Json}

theorem still_answer {ws : Option Sock} {p : Prim sig} (h : IsAnswer ws p) : Still p := by
  rcases h with rfl | ⟨doc, rfl⟩ <;> trivial

theorem still_publish (channel : String) : Uses Still (publish channel data) := by
  refine ⟨trivial, fun done => ?_⟩
  cases done <;> trivial

theorem still_register (ws : Option Sock) {command : Json} (hsn : message.index "sn" = .ok sn)
    (hcommand : message.index "cmd" = .ok command) (hstops : StopsEarly rt message) :
    Uses Still (do
      handleReg rt message ws
      if command = .str "sendlog" then publish sendlogChannel data else startSubscriber w sn) := by
  rcases hstops with hprint | hlog | ⟨hreg, hanswer⟩
  · have hraise : handleReg rt message ws = .raise .generatorError := by
      unfold handleReg generate
      simp [hsn, lift, hprint]
    rw [hraise]
    trivial
  · cases hcommand.symm.trans hlog
    rw [if_pos rfl]
    exact ((uses_handleReg message).mono (fun _ => still_answer)).bind (fun _ => still_publish _)
  · have hraise : ∀ time, responseWs rt ws (regResponse time) = .raise .generatorError := by
      intro time
      unfold responseWs wsSend generate
      simp [hanswer time]
    unfold handleReg generate
    simp only [hsn, hreg, lift, hraise, Program.pure_eq, Program.done_bind, if_true]
    split_ifs
    all_goals first | trivial | exact ⟨trivial, fun _ => trivial⟩

/-- A harmless message performs nothing that touches the routing state. -/
theorem still_onMessage (h : Harmless rt data) : Uses Still (onMessage rt w data) := by
  unfold onMessage parse
  cases hp : rt.parse data with
  | none => trivial
  | some message =>
      simp only [Program.pure_eq, Program.done_bind]
      cases hsn : message.index "sn" with
      | error e => trivial
      | ok sn =>
          obtain ⟨hfalsy, hstops⟩ := h message sn hp hsn
          obtain ⟨command, hcommand⟩ := index_ok hsn "cmd"
          simp only [lift, hcommand, handOver, registerRoute, hfalsy, Bool.false_eq_true, if_false,
            Program.pure_eq, Program.done_bind]
          refine Uses.bind (Uses.synchronize trivial trivial ?_) (fun _ => ⟨trivial, fun ws => ?_⟩)
          · trivial
          · exact still_register ws hsn hcommand hstops

/-- What such programs leave as it was. -/
theorem still_leaves {p : Code Unit} (hp : Uses Still p) (s : Alone (gateway rt))
    (shelves : Shelves) : (drive (solo rt) s p).state.world = s.world ∧
      (drive (solo rt) s p).events.foldl Shelves.after shelves = shelves := by
  constructor
  · refine Leads.invariant (I := fun s' : Alone (gateway rt) => s'.world = s.world) hp ?_ rfl
    intro s' q hq hs'
    cases q with
    | call c =>
        cases c with
        | wsSend ws doc => cases ws <;> exact hs'
        | wsVar _ => exact hs'
        | timeNow => exact hs'
        | publish _ _ => exact hs'
        | _ => exact hq.elim
    | acquire _ => exact hs'
    | release _ => exact hs'
    | _ => exact hq.elim
  · have hstill := uses_events (solo rt) hp s
    generalize (drive (solo rt) s p).events = events at hstill
    induction events with
    | nil => rfl
    | cons e events ih =>
        obtain ⟨he, hevents⟩ := List.forall_mem_cons.mp hstill
        have hsame : shelves.after e = shelves := by
          obtain ⟨q, r⟩ := e
          cases q with
          | push _ _ => exact he.elim
          | clear _ => exact he.elim
          | _ => rfl
        rw [List.foldl_cons, hsame]
        exact ih hevents

end Still

/-! ### Handlers that come to the subscriber -/

section Started
variable {rt : Runtime} {s : Alone (gateway rt)} {w : Sock} {data : String}
  {message sn command : Json}

theorem leads_handleReg (hs : Fine s) (hsn : message.index "sn" = .ok sn)
    (hcommand : message.index "cmd" = .ok command) (hprint : rt.generates message = true)
    (hlog : command ≠ .str "sendlog")
    (hreg : command = .str "reg" → rt.generates (regResponse s.choice.time) = true) :
    Leads (solo rt) s (handleReg rt message (some w)) (fun s' out =>
      s'.world = s.world ∧ out = .ok ()) := by
  unfold handleReg generate
  simp only [hsn, hcommand, hprint, lift, Program.pure_eq, Program.done_bind, if_true]
  by_cases hcmd : command = .str "reg"
  · rw [if_pos hcmd]
    refine leads_call ?_
    have rest : Fine (⟨s.world, s.choices.tail⟩ : Alone (gateway rt)) :=
      fun c hc => hs c (List.mem_of_mem_tail hc)
    have answer : Leads (solo rt) ⟨s.world, s.choices.tail⟩
        (responseWs rt (some w) (regResponse s.choice.time)) (fun s' out =>
          s'.world = s.world ∧ out = .ok ()) := by
      unfold Leads
      rw [drive_responseWs rest (hreg hcmd)]
      exact ⟨rfl, rfl⟩
    exact answer
  · rw [if_neg hcmd, if_neg hlog]
    exact ⟨rfl, rfl⟩

/-- A message that is not stopped starts a service, with or without `sn`. -/
theorem leads_started (time : String) (hp : rt.parse data = some message)
    (hsn : message.index "sn" = .ok sn) (hfalsy : sn.truthy = false)
    (hcommand : message.index "cmd" = .ok command) (hprint : rt.generates message = true)
    (hlog : command ≠ .str "sendlog")
    (hreg : command = .str "reg" → rt.generates (regResponse time) = true) :
    Leads (solo rt) ⟨World.start, [{}, {time := time}]⟩ (onMessage rt w data) (fun s' _ =>
      s'.world = subscribe World.start w sn) := by
  unfold onMessage
  simp only [parse, hp, hsn, hcommand, lift, handOver, registerRoute, hfalsy, Bool.false_eq_true,
    if_false, Program.pure_eq, Program.done_bind]
  have handed : Leads (solo rt) ⟨World.start, [{}, {time := time}]⟩
      (Program.synchronize (S := sig) .connections (.done ()))
      (fun s' out => s' = ⟨World.start, [{}, {time := time}]⟩ ∧ out = .ok ()) :=
    leads_section ⟨rfl, rfl⟩
  refine handed.bind ?_ (fun _ _ h => by cases h.2)
  rintro _ _ ⟨rfl, -⟩
  refine leads_wsVar (by simp [World.start]) ?_
  have fine : Fine (⟨World.start, [{time := time}]⟩ : Alone (gateway rt)) := by
    intro c hc
    rw [List.mem_singleton.mp hc]
    exact ⟨rfl, rfl⟩
  refine (leads_handleReg fine hsn hcommand hprint hlog hreg).bind (fun s₁ _ h₁ => ?_)
    (fun _ _ h => by cases h.2)
  obtain ⟨hs₁, -⟩ : s₁.world = World.start ∧ _ := h₁
  have hw : w ∉ s₁.world.cleared := by
    rw [hs₁]
    simp [World.start]
  rw [if_neg hlog, ← hs₁]
  exact leads_startSubscriber hw

end Started

section Leaves
variable {rt : Runtime} {w : Sock} {data : String} {message sn : Json}

/-- A truthy `sn` is routed in an empty table. -/
theorem falsy_of_leaves (h : LeavesRouting rt w data) (hp : rt.parse data = some message)
    (hsn : message.index "sn" = .ok sn) : sn.truthy = false := by
  have run : Leads (solo rt) ⟨World.start, []⟩ (onMessage rt w data) _ :=
    leads_onMessage (by simp [World.start])
  have hsame := (h ⟨World.start, []⟩ ⟨fun _ => [], fun _ => 0⟩).1.connections
  have hrouted : (routed World.start w sn).connections = World.start.connections := by
    rcases run with ⟨-, hno⟩ | ⟨sn', hsn', hworld | hworld⟩
    · exact absurd ⟨message, hp, hsn⟩ (hno (by simp) sn)
    · rw [snOf_unique ⟨message, hp, hsn⟩ hsn', ← hworld]
      exact hsame
    · rw [snOf_unique ⟨message, hp, hsn⟩ hsn', ← subscribe_connections sn', ← hworld]
      exact hsame
  by_contra htruthy
  rw [routed, if_pos ((Bool.not_eq_false _).mp htruthy)] at hrouted
  have hget := congrArg (fun table => table.get? (.serial sn.eqlKey)) hrouted
  simp only [Hash.get?_insert_self] at hget
  cases hget

theorem stopsEarly_of_leaves (h : LeavesRouting rt w data) (hp : rt.parse data = some message)
    (hsn : message.index "sn" = .ok sn) : StopsEarly rt message := by
  have hfalsy := falsy_of_leaves h hp hsn
  obtain ⟨command, hcommand⟩ := index_ok hsn "cmd"
  by_contra hstops
  unfold StopsEarly at hstops
  rw [hcommand] at hstops
  push Not at hstops
  obtain ⟨hprint, hlog, hreg⟩ := hstops
  obtain ⟨time, htime⟩ : ∃ time, command = .str "reg" → rt.generates (regResponse time) = true := by
    by_cases hcmd : command = .str "reg"
    · obtain ⟨time, htime⟩ := hreg (congrArg _ hcmd)
      exact ⟨time, fun _ => (Bool.not_eq_false _).mp htime⟩
    · exact ⟨"", fun heq => absurd heq hcmd⟩
  have run : Leads (solo rt) _ (onMessage rt w data) _ :=
    leads_started time hp hsn hfalsy hcommand ((Bool.not_eq_false _).mp hprint)
      (fun heq => hlog (congrArg _ heq)) htime
  have hsame := (h ⟨World.start, [{}, {time := time}]⟩ ⟨fun _ => [], fun _ => 0⟩).1.subscribed
  rw [run] at hsame
  cases hsame

end Leaves

/-- A message leaves the routing state as it was exactly if it is harmless. -/
theorem leaves_routing_iff (rt : Runtime) (w : Sock) (data : String) :
    LeavesRouting rt w data ↔ Harmless rt data := by
  refine ⟨fun h message sn hp hsn => ⟨falsy_of_leaves h hp hsn, stopsEarly_of_leaves h hp hsn⟩,
    fun h s shelves => ?_⟩
  obtain ⟨hworld, hshelves⟩ := still_leaves (still_onMessage (w := w) h) s shelves
  rw [hworld, hshelves]
  exact ⟨⟨rfl, rfl, rfl⟩, rfl⟩

/-- Two texts without a serial: a registration, and a JSON string. -/
def nameless : Runtime := Runtime.ofTable
  [("registration", .obj [("cmd", .str "reg")]), ("string", .str "no sn here")]

/-- The registration registers and starts a service for channel `nil`, and the
string is stored in the table as the device `"sn"`. -/
theorem routing_changed :
    ¬ LeavesRouting nameless 0 "registration" ∧ ¬ LeavesRouting nameless 0 "string" := by
  constructor
  · intro h
    have hsame := (h ⟨World.start, []⟩ ⟨fun _ => [], fun _ => 0⟩).1.services
    cases hsame
  · intro h
    have hsame := (h ⟨World.start, []⟩ ⟨fun _ => [], fun _ => 0⟩).1.connections
    cases congrArg Hash.entries hsame

end EvoGw.SerialLessMessages
