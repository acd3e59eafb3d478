import Mathlib.Data.Finset.SDiff
import Mathlib.Data.Finset.Card
import EvoGw.SocketTurns
import EvoGw.ReplyHandoff
import EvoGw.StepConditions

/-!
# The table of connections

The table holds sockets under `nil` values and serials under their sockets. The
close handler finds what to delete by a reverse lookup of its socket. It never
hits another socket's route, but it removes one route only: a socket that has
announced two serials leaves a route behind that leads to a closed socket. The
entry under the socket itself holds `nil`, so the lookup never finds it: every
socket that has opened stays a key for ever.
-/
namespace EvoGw.ConnectionTable
open ThreadPrograms SoloRuns SerialThreads InsertionHash StepConditions
open GatewayCalls JsonValues ServerRoute GatewayPool ReplyHandoff SocketTurns

section Kept
variable {rt : Runtime} {world world' : World} {t : Turn} {w : Sock} {c data : String}

/-- The turn of a message with a serial stores the route. -/
theorem route_made (h : turn rt world t = some world') (calm : t.Calm)
    (he : t.event = .message w data) (hc : Carries rt data c) :
    world'.connections.get? (.serial (.str c)) = some (some w) := by
  cases turn_effect h with
  | opened he' => rw [he] at he'; cases he'
  | closed he' => rw [he] at he'; cases he'
  | ignored he' _ hnone =>
      rw [he] at he'
      cases he'
      exact absurd hc (hnone calm (.str c))
  | registered he' _ hsn =>
      rw [he] at he'
      cases he'
      rw [snOf_unique hsn hc, get?_routed]
  | subscribed he' _ hsn =>
      rw [he] at he'
      cases he'
      rw [snOf_unique hsn hc, subscribe_connections, get?_routed]

/-- Only a message with the serial or the close of its socket changes a route. -/
theorem route_stays (h : turn rt world t = some world')
    (hroute : world.connections.get? (.serial (.str c)) = some (some w))
    (hclose : t.event ≠ .closed w)
    (hmessage : ∀ w' data, t.event = .message w' data → ¬ Carries rt data c) :
    world'.connections.get? (.serial (.str c)) = some (some w) := by
  have other : ∀ w' data sn, t.event = .message w' data → SnOf rt data sn →
      (routed world w' sn).connections.get? (.serial (.str c)) = some (some w) := by
    intro w' data sn he hsn
    have hne : sn ≠ .str c := by
      rintro rfl
      exact hmessage w' data he hsn
    rw [get?_routed_ne hne]
    exact hroute
  cases turn_effect h with
  | opened he =>
      rw [Hash.get?_insert_ne _ _ (by simp)]
      exact hroute
  | @closed w' he =>
      have hne : some w' ≠ some w := by
        intro heq
        rw [Option.some.inj heq] at he
        exact hclose he
      rw [Hash.get?_eq_some] at hroute ⊢
      refine mem_unrouted.mpr ⟨hroute, fun hkey => hne ?_⟩
      have hfound := Hash.get?_keyOf hkey
      rw [Hash.get?_eq_some.mpr hroute, Option.some.injEq] at hfound
      exact hfound.symm
  | ignored => exact hroute
  | registered he _ hsn => exact other _ _ _ he hsn
  | subscribed he _ hsn =>
      rw [subscribe_connections]
      exact other _ _ _ he hsn

theorem route_stays_run {ts : List Turn} (h : run rt world ts = some world')
    (hroute : world.connections.get? (.serial (.str c)) = some (some w))
    (hclose : .closed w ∉ ts.map Turn.event)
    (hmessage : ∀ w' data, .message w' data ∈ ts.map Turn.event → ¬ Carries rt data c) :
    world'.connections.get? (.serial (.str c)) = some (some w) := by
  induction ts generalizing world with
  | nil =>
      cases h
      exact hroute
  | cons t ts ih =>
      obtain ⟨world₁, hturn, hrest⟩ := run_cons h
      simp only [List.map_cons, List.mem_cons, not_or] at hclose hmessage
      have hroute₁ := route_stays hturn hroute (fun he => hclose.1 he.symm)
        (fun w' data he => hmessage w' data (.inl he.symm))
      exact ih hrest hroute₁ hclose.2 (fun w' data hm => hmessage w' data (.inr hm))

/-- The socket of the last message with a serial has the route of the serial as
long as it is open, whatever other sockets do. -/
theorem route_kept {ts : List Turn} (h : run rt World.start ts = some world)
    (calm : ∀ t ∈ ts, t.Calm) {before after : List SocketEvent}
    (hevents : ts.map Turn.event = before ++ .message w data :: after) (hc : Carries rt data c)
    (hlast : ∀ w' data', .message w' data' ∈ after → ¬ Carries rt data' c)
    (hopen : .closed w ∉ after) :
    world.connections.get? (.serial (.str c)) = some (some w) := by
  obtain ⟨ts₁, ts₂, rfl, -, hts₂⟩ := List.map_eq_append_iff.mp hevents
  obtain ⟨t, ts₃, rfl, he, rfl⟩ := List.map_eq_cons_iff.mp hts₂
  unfold run at h
  rw [List.foldlM_append] at h
  obtain ⟨world₁, -, hrest⟩ := Option.bind_eq_some_iff.mp h
  obtain ⟨world₂, hturn, hrun⟩ := run_cons hrest
  have hmade := route_made hturn (calm t (by simp)) he hc
  exact route_stays_run hrun hmade hopen hlast

end Kept

/-- The registrations of the serials `A` and `B`. -/
def twoSerials : Runtime := Runtime.ofTable
  [("reg A", .obj [("cmd", .str "reg"), ("sn", .str "A")]),
   ("reg B", .obj [("cmd", .str "reg"), ("sn", .str "B")])]

/-- Reader `A` comes back on socket 1, then its old socket 0 closes, and so does
socket 2, which never sent a serial. -/
def reconnected : List Turn :=
  [⟨.opened 0, []⟩, ⟨.message 0 "reg A", []⟩, ⟨.opened 1, []⟩, ⟨.message 1 "reg A", []⟩,
   ⟨.opened 2, []⟩, ⟨.closed 0, []⟩, ⟨.closed 2, []⟩]

theorem route_kept_reconnected : ∃ world, run twoSerials World.start reconnected = some world ∧
    world.connections.get? (.serial (.str "A")) = some (some 1) := by
  have calm : ∀ t ∈ reconnected, t.Calm := by
    simp [reconnected, Turn.Calm]
  have events : reconnected.map Turn.event =
      [.opened 0, .message 0 "reg A", .opened 1] ++ .message 1 "reg A" ::
        [.opened 2, .closed 0, .closed 2] := rfl
  have carries : Carries twoSerials "reg A" "A" := ⟨_, rfl, rfl⟩
  exact ⟨_, rfl, route_kept rfl calm events carries (by simp) (by simp)⟩

section Dead
variable {rt : Runtime} {world world' : World} {t : Turn}

/-- Every serial leads to a socket that has not closed. -/
def NoDeadRoute (world : World) : Prop :=
  ∀ serial ws, (ConnKey.serial serial, ws) ∈ world.connections.entries →
    ∃ w, ws = some w ∧ w ∉ world.cleared

/-- No open socket has the route of this channel. -/
def Gone (world : World) (c : String) : Prop :=
  ∀ w, world.connections.get? (.serial (.str c)) = some (some w) → w ∈ world.cleared

/-- A command for a channel whose socket is gone is refused at once: nothing is
written and nothing is awaited. -/
def RefusesGone (rt : Runtime) (world : World) : Prop :=
  ∀ c command args choices, Gone world c →
    drive (solo rt) ⟨world, choices⟩ (handleWsCommand rt c command args) =
      ⟨⟨world, choices.tail⟩, [⟨.call (.connGet c), none⟩], .ok notConnected⟩

/-- If a socket closes, then at most one serial leads to it. -/
def OneRoute (world : World) (t : Turn) : Prop :=
  ∀ w, t.event = .closed w → ∀ serial serial',
    (ConnKey.serial serial, some w) ∈ world.connections.entries →
    (ConnKey.serial serial', some w) ∈ world.connections.entries → serial = serial'

/-- The open handler stores sockets under `nil`, and nothing else stores them. -/
def SocketsNil (world : World) : Prop :=
  ∀ w ws, (ConnKey.socket w, ws) ∈ world.connections.entries → ws = none

theorem refuses_gone (h : NoDeadRoute world) : RefusesGone rt world := by
  intro c command args choices hgone
  have hnone : world.connections.get? (.serial (.str c)) = none := by
    rw [Option.eq_none_iff_forall_ne_some]
    intro ws hws
    obtain ⟨w, rfl, hw⟩ := h _ ws (Hash.get?_eq_some.mp hws)
    exact hw (hgone w hws)
  have hfound : (perform world (Alone.choice (M := gateway rt) ⟨world, choices⟩)
      (.connGet c)).2 = none := by
    simp only [perform, hnone]
    rfl
  rw [handleWsCommand_eq]
  simp only [drive, alone]
  rw [hfound]
  rfl

theorem turn_socketsNil (hnil : SocketsNil world) (h : turn rt world t = some world') :
    SocketsNil world' := by
  have afterRoute : ∀ w' sn, SocketsNil (routed world w' sn) := by
    intro w' sn w ws hm
    rcases mem_routed hm with ⟨heq, -⟩ | hold
    · cases heq
    · exact hnil w ws hold
  cases turn_effect h with
  | opened he =>
      intro w ws hm
      rcases Hash.mem_insert.mp hm with ⟨-, rfl⟩ | ⟨-, hold⟩
      · rfl
      · exact hnil w ws hold
  | closed he _ => exact fun w ws hm => hnil w ws (mem_unrouted.mp hm).1
  | ignored => exact hnil
  | registered => exact afterRoute _ _
  | subscribed =>
      intro w ws hm
      rw [subscribe_connections] at hm
      exact afterRoute _ _ w ws hm

/-- The key which the close handler finds is a serial. -/
theorem found_serial (hnil : SocketsNil world) {w : Sock} {key : ConnKey}
    (h : world.connections.keyOf (some w) = some key) :
    ∃ serial, key = .serial serial ∧ (key, some w) ∈ world.connections.entries := by
  have hm := Hash.get?_eq_some.mp (Hash.get?_keyOf h)
  cases key with
  | socket w' => cases hnil w' _ hm
  | serial serial => exact ⟨serial, rfl, hm⟩

/-- A close leaves no dead route exactly if at most one route led to the socket. -/
theorem close_iff (hnil : SocketsNil world) (hlive : NoDeadRoute world) {w : Sock} :
    NoDeadRoute (unrouted world w) ↔ ∀ serial serial',
      (ConnKey.serial serial, some w) ∈ world.connections.entries →
      (ConnKey.serial serial', some w) ∈ world.connections.entries → serial = serial' := by
  constructor
  · intro h
    have removed : ∀ serial, (ConnKey.serial serial, some w) ∈ world.connections.entries →
        world.connections.keyOf (some w) = some (.serial serial) := by
      intro serial hm
      by_contra hkey
      obtain ⟨w', hw', hopen⟩ := h serial (some w) (mem_unrouted.mpr ⟨hm, hkey⟩)
      rw [unrouted_cleared, ← Option.some.inj hw'] at hopen
      exact hopen List.mem_cons_self
    intro serial serial' hm hm'
    have hkey := (removed serial hm).symm.trans (removed serial' hm')
    simpa using hkey
  · intro hone serial ws hm
    obtain ⟨hold, hkey⟩ := mem_unrouted.mp hm
    obtain ⟨w', rfl, hw'⟩ := hlive serial ws hold
    refine ⟨w', rfl, ?_⟩
    rw [unrouted_cleared, List.mem_cons, not_or]
    refine ⟨?_, hw'⟩
    rintro rfl
    cases hfound : world.connections.keyOf (some w') with
    | none => exact Hash.keyOf_none hfound _ hold
    | some key =>
        obtain ⟨serial', rfl, hm'⟩ := found_serial hnil hfound
        rw [hone serial' serial hm' hold] at hfound
        exact hkey hfound

/-- The route of an open socket is not dead. -/
theorem routed_live (hlive : NoDeadRoute world) {w : Sock} (hw : w ∉ world.cleared) (sn : Json) :
    NoDeadRoute (routed world w sn) := by
  intro serial ws hm
  rw [routed_cleared]
  rcases mem_routed hm with ⟨-, rfl⟩ | hold
  · exact ⟨w, rfl, hw⟩
  · exact hlive serial ws hold

theorem turn_noDeadRoute (hnil : SocketsNil world) (hlive : NoDeadRoute world)
    (h : turn rt world t = some world') : NoDeadRoute world' ↔ OneRoute world t := by
  have notClosed : (∀ w, t.event ≠ .closed w) → OneRoute world t :=
    fun hne w he => absurd he (hne w)
  cases turn_effect h with
  | @opened w he =>
      refine iff_of_true ?_ (notClosed (by simp [he]))
      intro serial ws hm
      rcases Hash.mem_insert.mp hm with ⟨heq, -⟩ | ⟨-, hold⟩
      · cases heq
      · exact hlive serial ws hold
  | @closed w he _ =>
      rw [close_iff hnil hlive]
      constructor
      · intro hone w' he'
        rw [he] at he'
        cases he'
        exact hone
      · exact fun hone => hone w he
  | ignored he => exact iff_of_true hlive (notClosed (by simp [he]))
  | registered he hw => exact iff_of_true (routed_live hlive hw _) (notClosed (by simp [he]))
  | subscribed he hw =>
      refine iff_of_true ?_ (notClosed (by simp [he]))
      intro serial ws hm
      rw [subscribe_connections] at hm
      rw [subscribe_cleared]
      exact routed_live hlive hw _ serial ws hm

/-- In every state of a run all routes lead to open sockets, and commands for
closed ones are refused, exactly if every socket has at most one route when it
closes. -/
theorem no_dead_route_iff (ts : List Turn) :
    Throughout (turn rt) (fun world => NoDeadRoute world ∧ RefusesGone rt world) World.start ts ↔
      EachStep (turn rt) OneRoute World.start ts := by
  have start : NoDeadRoute World.start := by simp [NoDeadRoute, World.start, Hash.empty]
  refine throughout_iff (I := SocketsNil) (fun _ _ _ hnil h => turn_socketsNil hnil h) ?_ ?_
    ⟨start, refuses_gone start⟩ ts
  · intro world t world' hnil hlive h
    rw [← turn_noDeadRoute hnil hlive.1 h]
    exact ⟨fun h' => h'.1, fun h' => ⟨h', refuses_gone h'⟩⟩
  · simp [SocketsNil, World.start, Hash.empty]

end Dead

/-- One socket registers under two serials and closes. -/
def abandoned : List Turn :=
  [⟨.opened 0, []⟩, ⟨.message 0 "reg A", []⟩, ⟨.message 0 "reg B", []⟩, ⟨.closed 0, []⟩]

/-- The route of `B` leads to the closed socket: a command for `B` is written to
it, is dropped there, and its request waits until the timeout. -/
theorem dead_route : ∃ world, run twoSerials World.start abandoned = some world ∧
    0 ∈ world.cleared ∧ world.connections.get? (.serial (.str "B")) = some (some 0) ∧
    drive (solo twoSerials) ⟨world, [{}, {sent := .dropped}]⟩
        (handleWsCommand twoSerials "B" "reboot" []) =
      ⟨⟨world, []⟩, [⟨.call (.connGet "B"), some 0⟩,
        ⟨.call (.wsSend (some 0) (.obj [("cmd", .str "reboot")])), Sent.dropped⟩,
        ⟨.call .redisNew, true⟩, ⟨.await (responseKey "B"), .timedOut⟩], .ok noAnswer⟩ ∧
    ¬ NoDeadRoute world := by
  refine ⟨_, rfl, by decide, rfl, rfl, ?_⟩
  intro h
  obtain ⟨w, hw, hopen⟩ := h (.str "B") (some 0) (Hash.get?_eq_some.mp rfl)
  cases hw
  exact hopen (by decide)

/-! ### Sockets as keys -/

section Keys
variable {rt : Runtime} {world world' : World} {t : Turn}

/-- The sockets that are keys of the table. -/
def socketKeys (world : World) : Finset Sock :=
  (world.connections.entries.filterMap (fun
    | (.socket w, _) => some w
    | (.serial _, _) => none)).toFinset

def openedIn (events : List SocketEvent) : Finset Sock :=
  (events.filterMap (fun
    | .opened w => some w
    | _ => none)).toFinset

def closedIn (events : List SocketEvent) : Finset Sock :=
  (events.filterMap (fun
    | .closed w => some w
    | _ => none)).toFinset

/-- The sockets that have opened and not yet closed. -/
def openSockets (events : List SocketEvent) : Finset Sock := openedIn events \ closedIn events

theorem mem_socketKeys {w : Sock} :
    w ∈ socketKeys world ↔ ∃ ws, (ConnKey.socket w, ws) ∈ world.connections.entries := by
  unfold socketKeys
  rw [List.mem_toFinset, List.mem_filterMap]
  constructor
  · rintro ⟨⟨key, ws⟩, hm, hkey⟩
    cases key with
    | serial _ => cases hkey
    | socket w' =>
        cases hkey
        exact ⟨ws, hm⟩
  · rintro ⟨ws, hm⟩
    exact ⟨_, hm, rfl⟩

theorem mem_openedIn {events : List SocketEvent} {w : Sock} :
    w ∈ openedIn events ↔ .opened w ∈ events := by
  unfold openedIn
  rw [List.mem_toFinset, List.mem_filterMap]
  constructor
  · rintro ⟨event, hm, hevent⟩
    cases event with
    | opened w' =>
        cases hevent
        exact hm
    | _ => cases hevent
  · exact fun hm => ⟨_, hm, rfl⟩

/-- A turn adds the socket of an open event to the keys, and removes none. -/
theorem turn_socketKeys (hnil : SocketsNil world) (h : turn rt world t = some world') (w : Sock) :
    w ∈ socketKeys world' ↔ t.event = .opened w ∨ w ∈ socketKeys world := by
  have stays : ∀ w' sn, w ∈ socketKeys (routed world w' sn) ↔ w ∈ socketKeys world := by
    intro w' sn
    unfold routed
    split
    · simp only [mem_socketKeys, Hash.mem_insert]
      simp
    · exact Iff.rfl
  have message : ∀ {w' data}, t.event = .message w' data →
      (w ∈ socketKeys world ↔ t.event = .opened w ∨ w ∈ socketKeys world) := by
    intro w' data he
    simp [he]
  cases turn_effect h with
  | @opened w' he =>
      simp only [mem_socketKeys, Hash.mem_insert, he, SocketEvent.opened.injEq,
        ConnKey.socket.injEq]
      constructor
      · rintro ⟨ws, ⟨rfl, -⟩ | ⟨-, hold⟩⟩
        · exact .inl rfl
        · exact .inr ⟨ws, hold⟩
      · intro hw
        by_cases heq : w = w'
        · exact ⟨none, .inl ⟨heq, rfl⟩⟩
        · obtain ⟨ws, hold⟩ := hw.resolve_left (fun heq' => heq heq'.symm)
          exact ⟨ws, .inr ⟨by simpa using heq, hold⟩⟩
  | @closed w' he _ =>
      have kept : ∀ ws, world.connections.keyOf (some w') ≠ some (.socket ws) := by
        intro ws hfound
        obtain ⟨serial, hserial, -⟩ := found_serial hnil hfound
        cases hserial
      simp only [mem_socketKeys, mem_unrouted, he]
      simp [kept]
  | ignored he => exact message he
  | registered he => exact (stays _ _).trans (message he)
  | subscribed he =>
      rw [mem_socketKeys, subscribe_connections, ← mem_socketKeys, stays]
      exact message he

/-- After a run the sockets among the keys are those that have opened. -/
theorem run_socketKeys {ts : List Turn} (hnil : SocketsNil world)
    (h : run rt world ts = some world') (w : Sock) :
    w ∈ socketKeys world' ↔ w ∈ openedIn (ts.map Turn.event) ∨ w ∈ socketKeys world := by
  induction ts generalizing world with
  | nil =>
      cases h
      simp [mem_openedIn]
  | cons t ts ih =>
      obtain ⟨world₁, hturn, hrest⟩ := run_cons h
      rw [ih (turn_socketsNil hnil hturn) hrest, turn_socketKeys hnil hturn]
      simp only [mem_openedIn, List.map_cons, List.mem_cons, eq_comm (a := SocketEvent.opened w)]
      tauto

/-- In a reachable state the sockets among the keys are the open ones exactly if no
socket that has opened has closed, and their number is bounded by that of the
open connections under the same condition only. -/
theorem keys_are_open_iff {ts : List Turn} (h : run rt World.start ts = some world) :
    (socketKeys world = openSockets (ts.map Turn.event) ↔
      Disjoint (openedIn (ts.map Turn.event)) (closedIn (ts.map Turn.event))) ∧
    ((socketKeys world).card ≤ (openSockets (ts.map Turn.event)).card ↔
      Disjoint (openedIn (ts.map Turn.event)) (closedIn (ts.map Turn.event))) := by
  have hkeys : socketKeys world = openedIn (ts.map Turn.event) := by
    ext w
    have hnil : SocketsNil World.start := by simp [SocketsNil, World.start, Hash.empty]
    rw [run_socketKeys hnil h]
    simp [mem_socketKeys, World.start, Hash.empty]
  rw [hkeys]
  unfold openSockets
  constructor
  · rw [eq_comm, Finset.sdiff_eq_self_iff_disjoint]
  · rw [← Finset.sdiff_eq_self_iff_disjoint]
    refine ⟨fun hcard => Finset.eq_of_subset_of_card_le Finset.sdiff_subset hcard, fun heq => ?_⟩
    rw [heq]

end Keys

/-- Two readers connect, and one of them registers. -/
def arrivals : List Turn :=
  [⟨.opened 0, []⟩, ⟨.message 0 "reg A", []⟩, ⟨.opened 1, []⟩]

theorem keys_are_open_arrivals : ∃ world, run twoSerials World.start arrivals = some world ∧
    socketKeys world = openSockets (arrivals.map Turn.event) := by
  obtain ⟨world, hrun⟩ : ∃ world, run twoSerials World.start arrivals = some world := ⟨_, rfl⟩
  exact ⟨world, hrun, (keys_are_open_iff hrun).1.mpr (by decide)⟩

/-- A socket that has opened and closed is left as a key, and no connection is
open. -/
theorem leaked_key : ∃ world,
    run twoSerials World.start [⟨.opened 0, []⟩, ⟨.closed 0, []⟩] = some world ∧
    socketKeys world = {0} ∧ openSockets [.opened 0, .closed 0] = ∅ :=
  ⟨_, rfl, by decide, by decide⟩

end EvoGw.ConnectionTable
