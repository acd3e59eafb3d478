import EvoGw.SocketTurns

/-!
# The three names of a device

A device is named three times by its serial. Its messages are pushed onto the list
of the printed serial, its socket is stored under the JSON value itself, and a
request looks the socket up under a string of its URL. The names coincide for a
serial that is a string. An integer is printed like the string of its digits but
is another key, so the lookup finds the socket only if the device has also sent
this string.
-/
namespace EvoGw.DeviceIdentity
open ThreadPrograms SoloRuns SerialThreads InsertionHash
open GatewayCalls JsonValues WebSocketHandler ServerRoute GatewayPool SocketTurns

/-- The text was pushed onto the list of this channel. -/
def Pushed (events : List (Event sig)) (c data : String) : Prop :=
  ⟨.push (responseKey c) data, true⟩ ∈ events

/-- `handle_ws_command` finds this socket for the channel, whatever the command. -/
def Finds (rt : Runtime) (world : World) (c : String) (w : Sock) : Prop :=
  ∀ command args choices, ∃ rest,
    (drive (solo rt) ⟨world, choices⟩ (handleWsCommand rt c command args)).events =
      ⟨.call (.connGet c), some w⟩ :: rest

theorem finds_iff {rt : Runtime} {world : World} {c : String} {w : Sock} :
    Finds rt world c w ↔ world.connections.get? (.serial (.str c)) = some (some w) := by
  have lookup : ∀ command args choices, ∃ rest,
      (drive (solo rt) ⟨world, choices⟩ (handleWsCommand rt c command args)).events =
        ⟨.call (.connGet c), (world.connections.get? (.serial (.str c))).join⟩ :: rest := by
    intro command args choices
    rw [handleWsCommand_eq]
    exact ⟨_, rfl⟩
  constructor
  · intro h
    obtain ⟨rest, hrest⟩ := h "" [] []
    obtain ⟨rest', hrest'⟩ := lookup "" [] []
    rw [hrest'] at hrest
    simp only [List.cons.injEq, Event.mk.injEq, heq_eq_eq, true_and] at hrest
    exact Option.join_eq_some_iff.mp hrest.1
  · intro h command args choices
    obtain ⟨rest, hrest⟩ := lookup command args choices
    rw [h] at hrest
    exact ⟨rest, hrest⟩

section Handler
variable {rt : Runtime} {w : Sock} {data : String} {message sn command : Json}

/-- The only list onto which the handler pushes. -/
def Feeds (rt : Runtime) (data : String) (sn : Json) : Prim sig → Prop
  | .push key d => key = responseKey (rt.toS sn) ∧ d = data
  | _ => True

theorem feeds_handOver : Uses (Feeds rt data sn) (handOver rt sn data) := by
  refine (uses_handOver sn data).mono (fun p h => ?_)
  cases h with
  | push => exact ⟨rfl, rfl⟩
  | _ => trivial

theorem feeds_register : Uses (Feeds rt data sn) (register rt w data message sn command) := by
  refine Uses.bind ((uses_registerRoute w sn).mono (fun _ h => by cases h <;> trivial))
    (fun _ => ?_)
  refine (uses_conclusion w data message sn command).mono (fun p h => ?_)
  rcases h.calls_or_locks with hcall | rfl | rfl
  · cases p with
    | call c => trivial
    | _ => exact hcall.elim
  · trivial
  · trivial

/-- The hand-over of a message with a serial returns only if its push has
succeeded. -/
theorem handOver_pushed {s : Alone (gateway rt)} (hsn : sn.truthy = true)
    (h : (drive (solo rt) s (handOver rt sn data)).out = .ok ()) :
    Pushed (drive (solo rt) s (handOver rt sn data)).events (rt.toS sn) data := by
  unfold handOver at h ⊢
  rw [hsn, if_pos rfl] at h ⊢
  rw [drive_synchronize _ _ (fun _ => rfl) (fun _ => rfl)] at h ⊢
  unfold Pushed
  cases hfails : s.choice.fails with
  | true => simp [lpush, redis, drive, alone, hfails] at h
  | false => simp [lpush, redis, drive, alone, hfails]

/-- When the handler has returned, the message was pushed onto one list and its
serial is routed. -/
theorem message_handled {s : Alone (gateway rt)} (hw : w ∉ s.world.cleared)
    (hp : rt.parse data = some message) (hindex : message.index "sn" = .ok sn)
    (hsn : sn.truthy = true) (h : (drive (solo rt) s (onMessage rt w data)).out = .ok ()) :
    (∀ c, Pushed (drive (solo rt) s (onMessage rt w data)).events c data ↔ c = rt.toS sn) ∧
    (drive (solo rt) s (onMessage rt w data)).state.world.connections =
      (routed s.world w sn).connections := by
  obtain ⟨command, hcommand⟩ := index_ok hindex "cmd"
  rw [onMessage_eq hp hindex hcommand] at h ⊢
  have handed : Leads (solo rt) s (handOver rt sn data) _ := leads_handOver
  rw [drive_bind] at h ⊢
  cases hout : (drive (solo rt) s (handOver rt sn data)).out with
  | error e =>
      simp only [Run.andThen, hout] at h
      cases h
  | ok u =>
      simp only [Run.andThen, hout]
      refine ⟨fun c => ⟨fun hc => ?_, ?_⟩, ?_⟩
      · rcases List.mem_append.mp hc with hc | hc
        · exact responseKey_inj.mp (uses_events _ feeds_handOver _ _ hc).1
        · exact responseKey_inj.mp (uses_events _ feeds_register _ _ hc).1
      · rintro rfl
        exact List.mem_append_left _ (handOver_pushed hsn hout)
      · rw [← handed.1] at hw ⊢
        have registered : Leads (solo rt) _ (register rt w data message sn command) _ :=
          leads_register hw message command
        rcases registered with hworld | hworld
        · rw [hworld]
        · rw [hworld, subscribe_connections]

end Handler

/-- When the handler of a message with a serial has returned, a command for the
channel whose list was fed finds the socket of the message exactly if the serial
is a string, or the printed serial was routed to this socket before. -/
theorem fed_channel_found_iff {rt : Runtime} {world : World} {w : Sock} {data : String}
    {fields : List (String × Json)} {choices : List Choice} (hw : w ∉ world.cleared)
    (hp : rt.parse data = some (.obj fields)) (hsn : (fetch fields "sn").IsName)
    (h : (handle rt world ⟨.message w data, choices⟩).out = .ok ()) :
    (∀ c, Pushed (handle rt world ⟨.message w data, choices⟩).events c data →
      Finds rt (handle rt world ⟨.message w data, choices⟩).state.world c w) ↔
    (∃ c, fetch fields "sn" = .str c) ∨ Finds rt world (rt.toS (fetch fields "sn")) w := by
  have htruthy : (fetch fields "sn").truthy = true := by
    cases hv : fetch fields "sn" with
    | str c => rfl
    | int n => rfl
    | _ =>
        rw [hv] at hsn
        exact hsn.elim
  obtain ⟨hpushed, hroutes⟩ := message_handled (s := ⟨world, choices⟩) hw hp rfl htruthy h
  have hfed : (∀ c, Pushed (handle rt world ⟨.message w data, choices⟩).events c data →
      Finds rt (handle rt world ⟨.message w data, choices⟩).state.world c w) ↔
      (routed world w (fetch fields "sn")).connections.get?
        (.serial (.str (rt.toS (fetch fields "sn")))) = some (some w) := by
    rw [← hroutes]
    constructor
    · exact fun hall => finds_iff.mp (hall _ ((hpushed _).mpr rfl))
    · intro hfound c hc
      rw [(hpushed c).mp hc]
      exact finds_iff.mpr hfound
  rw [hfed, finds_iff]
  cases hv : fetch fields "sn" with
  | str c => exact iff_of_true (get?_routed c) (.inl ⟨c, rfl⟩)
  | int n =>
      rw [get?_routed_ne (by simp)]
      simp
  | _ =>
      rw [hv] at hsn
      exact hsn.elim

/-- One reader whose serial is a string, and one whose serial is an integer. -/
def readers : Runtime := Runtime.ofTable
  [("reg A", .obj [("cmd", .str "reg"), ("sn", .str "A")]),
   ("reg 5", .obj [("cmd", .str "reg"), ("sn", .int 5)])]

theorem fed_channel_found_string :
    Pushed (handle readers World.start ⟨.message 0 "reg A", []⟩).events "A" "reg A" ∧
    Finds readers (handle readers World.start ⟨.message 0 "reg A", []⟩).state.world "A" 0 := by
  have hp : readers.parse "reg A" = some (.obj [("cmd", .str "reg"), ("sn", .str "A")]) := rfl
  have hpushed : Pushed (handle readers World.start ⟨.message 0 "reg A", []⟩).events "A" "reg A" :=
    List.mem_cons_of_mem _ List.mem_cons_self
  refine ⟨hpushed, ?_⟩
  exact (fed_channel_found_iff (by decide) hp trivial rfl).mpr (.inl ⟨"A", rfl⟩) "A" hpushed

/-- The messages of reader 5 feed the list of channel `"5"`, and a command for this
channel finds no socket. -/
theorem fed_channel_lost :
    (handle readers World.start ⟨.message 0 "reg 5", []⟩).out = .ok () ∧
    Pushed (handle readers World.start ⟨.message 0 "reg 5", []⟩).events "5" "reg 5" ∧
    ¬ Finds readers (handle readers World.start ⟨.message 0 "reg 5", []⟩).state.world "5" 0 := by
  refine ⟨rfl, ?_, ?_⟩
  · exact List.mem_cons_of_mem _ List.mem_cons_self
  · rw [finds_iff]
    decide

end EvoGw.DeviceIdentity
