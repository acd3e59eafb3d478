import EvoGw.ConnectionTable

/-!
# Subscriber threads and their channels

Every connection has its own registry of subscribed channels, subscriber threads
run on when their connection closes, and the table of connections is shared. So
the thread which a reader's old connection has started keeps its channel when the
reader comes back, and a command published on the channel is then written to the
old socket as well as to the new one.
-/
namespace EvoGw.SubscriberChannels
open ThreadPrograms SoloRuns SerialThreads InsertionHash StepConditions
open GatewayCalls JsonValues WebSocketHandler GatewayPool ReplyHandoff SocketTurns ConnectionTable

/-- The service has a running thread that is subscribed to the channel. -/
def Running (rt : Runtime) (v : Service) (c : String) : Prop :=
  v.thread = .alive ∧ c ∈ rt.channels v.channel

instance (rt : Runtime) (v : Service) (c : String) : Decidable (Running rt v c) :=
  inferInstanceAs (Decidable (_ ∧ _))

/-- This is a service of the world, with a running thread on the channel. -/
def Serves (rt : Runtime) (world : World) (sid : Sid) (v : Service) (c : String) : Prop :=
  world.services[sid]? = some v ∧ Running rt v c

/-- At most one thread runs for the channel, and its socket has the route. -/
structure Exclusive (rt : Runtime) (world : World) (c : String) : Prop where
  unique : ∀ i j v v', Serves rt world i v c → Serves rt world j v' c → i = j
  socket : ∀ i v, Serves rt world i v c →
    ∃ w, v.ws = some w ∧ world.connections.get? (.serial (.str c)) = some (some w)

/-- The sockets to which these calls write. -/
def writtenTo (events : List (Event sig)) : List (Option Sock) :=
  events.filterMap (fun
    | ⟨.call (.wsSend ws _), _⟩ => some ws
    | _ => none)

/-- The frames of one service for a text published on the channel. -/
def serviceFrames (rt : Runtime) (world : World) (choices : Sid → List Choice) (c text : String)
    (sid : Sid) : List (Option Sock) :=
  match world.services[sid]? with
  | some v => if Running rt v c then
      writtenTo (drive (solo rt) ⟨world, choices sid⟩ (onPublished rt sid v.ws text)).events else []
  | none => []

/-- The frames that are written for a text published on the channel. -/
def commandFrames (rt : Runtime) (world : World) (choices : Sid → List Choice) (c text : String) :
    List (Option Sock) :=
  (List.range world.services.length).flatMap (serviceFrames rt world choices c text)

/-- A published command is written at most once, and to the socket which
`handle_ws_command` would look up. -/
def WrittenOnce (rt : Runtime) (world : World) : Prop :=
  ∀ choices c text, (commandFrames rt world choices c text).length ≤ 1 ∧
    ∀ ws ∈ commandFrames rt world choices c text, (perform world {} (.connGet c)).2 = ws

section Written
variable {rt : Runtime} {world : World}

/-- Run alone, the program writes at most one frame, to this socket. -/
def OneFrame (s : Alone (gateway rt)) (ws : Option Sock) (p : Code Unit) : Prop :=
  writtenTo (drive (solo rt) s p).events = [] ∨ writtenTo (drive (solo rt) s p).events = [ws]

theorem oneFrame_rescued {s : Alone (gateway rt)} {ws : Option Sock} {p : Code Unit}
    (h : OneFrame s ws p) : OneFrame s ws (p.rescue (fun _ => pure ())) := by
  unfold OneFrame
  rw [events_rescue_finished (solo rt) s p (f := fun _ => pure ()) (fun _ => trivial)]
  exact h

theorem oneFrame_section {s : Alone (gateway rt)} {ws : Option Sock} {p : Code Unit} (m : Mutex)
    (h : OneFrame s ws p) : OneFrame s ws (Program.synchronize (S := sig) m p) := by
  have same : writtenTo (drive (solo rt) s (Program.synchronize (S := sig) m p)).events =
      writtenTo (drive (solo rt) s p).events := by
    rw [drive_synchronize (solo rt) m (fun _ => rfl) (fun _ => rfl)]
    simp [writtenTo]
  rw [OneFrame, same]
  exact h

/-- A command writes at most one frame, to its own socket. -/
theorem oneFrame_sends {ws : Option Sock} {p : Code Unit} (h : DevicesSender.Sends rt ws p)
    (s : Alone (gateway rt)) : OneFrame s ws p := by
  cases h with
  | refused e => exact .inl rfl
  | unknown => exact .inl rfl
  | document doc =>
      refine oneFrame_rescued ?_
      unfold wsSend generate
      cases rt.generates doc with
      | false => exact .inl rfl
      | true =>
          refine .inr ?_
          simp only [if_true, Program.pure_eq, Program.done_bind, call, Program.act_bind, drive]
          generalize (solo rt s (.call (.wsSend ws doc))).2 = sent
          cases sent <;> rfl

theorem oneFrame_handlePayload (s : Alone (gateway rt)) (ws : Option Sock) (text : String) :
    OneFrame s ws (handlePayload rt ws text) := by
  unfold handlePayload parse
  cases rt.parse text with
  | none => exact .inl rfl
  | some payload =>
      simp only [Program.pure_eq, Program.done_bind]
      cases hcommand : payload.index "cmd" with
      | error e => exact .inl rfl
      | ok command =>
          obtain ⟨args, hargs⟩ := index_ok hcommand "args"
          simp only [lift, hargs, Program.pure_eq, Program.done_bind]
          split
          · exact oneFrame_section _ (oneFrame_sends (sends_sendPayload command _) s)
          · exact .inl rfl

theorem oneFrame_onPublished (s : Alone (gateway rt)) (sid : Sid) (ws : Option Sock)
    (text : String) : OneFrame s ws (onPublished rt sid ws text) := by
  have after : ∀ (stopped : Bool) (s' : Alone (gateway rt)), OneFrame s' ws (if stopped then pure ()
      else (handlePayload rt ws text).rescue (fun _ => pure ())) := by
    intro stopped s'
    cases stopped with
    | true => exact .inl rfl
    | false => exact oneFrame_rescued (oneFrame_handlePayload s' ws text)
  exact after _ _

theorem flatMap_single {A B : Type} {xs : List A} (hnodup : xs.Nodup) {f : A → List B} {a : A}
    (ha : a ∈ xs) (hf : ∀ x ∈ xs, x ≠ a → f x = []) : xs.flatMap f = f a := by
  induction xs with
  | nil => cases ha
  | cons x xs ih =>
      obtain ⟨hx, hnodup⟩ := List.nodup_cons.mp hnodup
      rw [List.flatMap_cons]
      rcases List.mem_cons.mp ha with rfl | ha
      · have hrest : xs.flatMap f = [] := by
          rw [List.flatMap_eq_nil_iff]
          intro y hy
          refine hf y (List.mem_cons_of_mem _ hy) ?_
          rintro rfl
          exact hx hy
        rw [hrest, List.append_nil]
      · have hne : x ≠ a := by
          rintro rfl
          exact hx ha
        rw [hf x List.mem_cons_self hne, List.nil_append]
        exact ih hnodup ha (fun y hy => hf y (List.mem_cons_of_mem _ hy))

theorem framesOf_silent {choices : Sid → List Choice} {c text : String} {sid : Sid}
    (h : ∀ v, ¬ Serves rt world sid v c) : serviceFrames rt world choices c text sid = [] := by
  unfold serviceFrames
  split
  · rename_i v hv
    rw [if_neg (fun hr => h v ⟨hv, hr⟩)]
  · rfl

theorem written_once (h : ∀ c, Exclusive rt world c) : WrittenOnce rt world := by
  intro choices c text
  by_cases hrun : ∃ sid v, Serves rt world sid v c
  · obtain ⟨sid, v, hv, hr⟩ := hrun
    have hlt := (List.getElem?_eq_some_iff.mp hv).choose
    have single : commandFrames rt world choices c text =
        serviceFrames rt world choices c text sid := by
      refine flatMap_single List.nodup_range (List.mem_range.mpr hlt) ?_
      intro j _ hne
      exact framesOf_silent (fun v' hv' => hne ((h c).unique j sid v' v hv' ⟨hv, hr⟩))
    obtain ⟨w, hws, hroute⟩ := (h c).socket sid v ⟨hv, hr⟩
    rw [single]
    simp only [serviceFrames, hv, if_pos hr]
    rcases oneFrame_onPublished ⟨world, choices sid⟩ sid v.ws text with hf | hf
    · rw [hf]
      simp
    · rw [hf]
      refine ⟨by simp, fun ws hmem => ?_⟩
      rw [List.mem_singleton.mp hmem, hws]
      simp [perform, hroute]
  · have none : commandFrames rt world choices c text = [] := by
      rw [commandFrames, List.flatMap_eq_nil_iff]
      intro sid _
      exact framesOf_silent (fun v hv => hrun ⟨sid, v, hv⟩)
    rw [none]
    simp

end Written

section Exclusive
variable {rt : Runtime} {world world' : World} {w : Sock} {sn : Json} {c : String}

/-- The `sn` is a string or absent. -/
def PlainSn (sn : Json) : Prop := sn = .null ∨ ∃ c, sn = .str c

/-- A plain `sn` leads to a subscription only if it is the channel itself. -/
theorem mem_channels (h : PlainSn sn) : c ∈ rt.channels sn ↔ sn = .str c := by
  rcases h with rfl | ⟨c', rfl⟩
  · simp [rt.channels_null]
  · simp [rt.channels_str, eq_comm]

/-- Running threads have the socket of their registry and are registered there. -/
def Registered (world : World) : Prop :=
  ∀ (sid : Sid) v, world.services[sid]? = some v → v.thread = .alive →
    PlainSn v.channel ∧ v.ws = some v.registry ∧ (v.registry, v.channel.eqlKey) ∈ world.subscribed

/-- What the property says about services depends on these two fields only. -/
theorem Exclusive.congr (h : Exclusive rt world c) (hservices : world'.services = world.services)
    (hroute : ∀ sid v, Serves rt world sid v c →
      world'.connections.get? (.serial (.str c)) = world.connections.get? (.serial (.str c))) :
    Exclusive rt world' c := by
  have old : ∀ sid v, Serves rt world' sid v c → Serves rt world sid v c := by
    intro sid v hv
    rwa [Serves, hservices] at hv
  refine ⟨fun i j v v' hv hv' => h.unique i j v v' (old i v hv) (old j v' hv'), fun i v hv => ?_⟩
  rw [hroute i v (old i v hv)]
  exact h.socket i v (old i v hv)

/-- Storing a route keeps the property exactly if the running threads of its
channel have the same socket. -/
theorem exclusive_routed (h : ∀ c, Exclusive rt world c) :
    (∀ c, Exclusive rt (routed world w sn) c) ↔
      ∀ c, sn = .str c → ∀ sid v, Serves rt world sid v c → v.ws = some w := by
  constructor
  · intro h' c hsn sid v hv
    subst hsn
    have hv' : Serves rt (routed world w (.str c)) sid v c := by
      rwa [Serves, routed_services]
    obtain ⟨w', hws, hroute⟩ := (h' c).socket sid v hv'
    rw [get?_routed, Option.some.injEq] at hroute
    rw [hws, hroute]
  · intro hsame c
    by_cases hsn : sn = .str c
    · subst hsn
      refine (h c).congr routed_services (fun sid v hv => ?_)
      obtain ⟨w', hws, hroute⟩ := (h c).socket sid v hv
      rw [hroute, get?_routed, ← hws, hsame c rfl sid v hv]
    · exact (h c).congr routed_services (fun _ _ _ => get?_routed_ne hsn)

/-- Closing a socket keeps the property exactly if no thread runs on the channel
whose route is removed. -/
theorem exclusive_unrouted (h : ∀ c, Exclusive rt world c) :
    (∀ c, Exclusive rt (unrouted world w) c) ↔
      ∀ c, world.connections.keyOf (some w) = some (.serial (.str c)) →
        ∀ sid v, ¬ Serves rt world sid v c := by
  constructor
  · intro h' c hkey sid v hv
    rw [Serves, ← unrouted_services (w := w)] at hv
    obtain ⟨w', -, hroute⟩ := (h' c).socket sid v hv
    exact (mem_unrouted.mp (Hash.get?_eq_some.mp hroute)).2 hkey
  · intro hnone c
    refine (h c).congr unrouted_services (fun sid v hv => ?_)
    obtain ⟨w', -, hroute⟩ := (h c).socket sid v hv
    rw [hroute, Hash.get?_eq_some, mem_unrouted]
    exact ⟨Hash.get?_eq_some.mp hroute, fun hkey => hnone c hkey sid v hv⟩

theorem getElem?_concat {A : Type} {xs : List A} {x a : A} {i : ℕ} :
    (xs ++ [x])[i]? = some a ↔ xs[i]? = some a ∨ (i = xs.length ∧ x = a) := by
  rcases lt_trichotomy i xs.length with hlt | rfl | hgt
  · rw [List.getElem?_append_left hlt]
    simp [hlt.ne]
  · simp
  · rw [List.getElem?_eq_none (by simp; omega), List.getElem?_eq_none hgt.le]
    simp [hgt.ne']

/-- The running threads after a message: the old ones, and a new one unless the
socket's registry has the channel. -/
theorem serves_subscribe {sid : Sid} {v : Service} : Serves rt (subscribe world w sn) sid v c ↔
    Serves rt world sid v c ∨ (¬ world.isRegistered w sn ∧ c ∈ rt.channels sn ∧
      sid = world.services.length ∧ v = ⟨w, sn, some w, .alive, false⟩) := by
  unfold subscribe
  split
  · rename_i hsub
    simp only [Serves, enlisted, getElem?_concat, hsub, not_true_eq_false, false_and, or_false]
    constructor
    · rintro ⟨hold | ⟨-, rfl⟩, hr⟩
      · exact ⟨hold, hr⟩
      · cases hr.1
    · exact fun h => ⟨.inl h.1, h.2⟩
  · rename_i hsub
    simp only [Serves, enlisted, getElem?_concat, hsub, Bool.false_eq_true, not_false_eq_true,
      true_and]
    constructor
    · rintro ⟨hold | ⟨hsid, rfl⟩, hr⟩
      · exact .inl ⟨hold, hr⟩
      · exact .inr ⟨hr.2, hsid, rfl⟩
    · rintro (⟨hold, hr⟩ | ⟨hsn, hsid, rfl⟩)
      · exact ⟨.inl hold, hr⟩
      · exact ⟨.inr ⟨hsid, rfl⟩, rfl, hsn⟩

theorem registered_subscribe (hsn : PlainSn sn) (h : Registered world) :
    Registered (subscribe world w sn) := by
  unfold subscribe
  split
  · intro sid v hv halive
    rcases getElem?_concat.mp hv with hold | ⟨-, rfl⟩
    · exact h sid v hold halive
    · cases halive
  · intro sid v hv halive
    rcases getElem?_concat.mp hv with hold | ⟨-, rfl⟩
    · obtain ⟨hplain, hws, hmem⟩ := h sid v hold halive
      exact ⟨hplain, hws, List.mem_cons_of_mem _ hmem⟩
    · exact ⟨hsn, rfl, List.mem_cons_self⟩

/-- A service is started after the route of its channel was stored, so a running
thread of the channel would have the same socket and be found in its registry. -/
theorem unserved (h : Exclusive rt (routed world w sn) c) (hplain : PlainSn sn)
    (hreg : Registered world) (hsub : ¬ (routed world w sn).isRegistered w sn)
    (hsn : c ∈ rt.channels sn) (sid : Sid) (v : Service) :
    ¬ Serves rt (routed world w sn) sid v c := by
  intro hv
  rw [mem_channels hplain] at hsn
  subst hsn
  obtain ⟨w', hws, hroute⟩ := h.socket sid v hv
  rw [get?_routed, Option.some.injEq] at hroute
  have hold : world.services[sid]? = some v := by
    rw [← routed_services]
    exact hv.1
  obtain ⟨hchannel, hsame, hmem⟩ := hreg sid v hold hv.2.1
  rw [hws, ← hroute, Option.some.injEq] at hsame
  rw [← hsame, (mem_channels hchannel).mp hv.2.2] at hmem
  rw [World.isRegistered, routed_subscribed, decide_eq_true_iff] at hsub
  exact hsub hmem

theorem exclusive_subscribe (hplain : PlainSn sn) (hreg : Registered world) :
    (∀ c, Exclusive rt (subscribe (routed world w sn) w sn) c) ↔
      ∀ c, Exclusive rt (routed world w sn) c := by
  constructor
  · intro h c
    have new : ∀ sid v, Serves rt (routed world w sn) sid v c →
        Serves rt (subscribe (routed world w sn) w sn) sid v c :=
      fun sid v hv => serves_subscribe.mpr (.inl hv)
    refine ⟨fun i j v v' hv hv' => (h c).unique i j v v' (new i v hv) (new j v' hv'), ?_⟩
    intro i v hv
    obtain ⟨w', hws, hroute⟩ := (h c).socket i v (new i v hv)
    rw [subscribe_connections] at hroute
    exact ⟨w', hws, hroute⟩
  · intro h c
    have first := unserved (h c) hplain hreg
    constructor
    · intro i j v v' hv hv'
      rcases serves_subscribe.mp hv with hold | ⟨hsub, hsn, hi, -⟩
      · rcases serves_subscribe.mp hv' with hold' | ⟨hsub, hsn, -, -⟩
        · exact (h c).unique i j v v' hold hold'
        · exact absurd hold (first hsub hsn i v)
      · rcases serves_subscribe.mp hv' with hold' | ⟨-, -, hj, -⟩
        · exact absurd hold' (first hsub hsn j v')
        · rw [hi, hj]
    · intro i v hv
      rw [subscribe_connections]
      rcases serves_subscribe.mp hv with hold | ⟨-, hsn, -, rfl⟩
      · exact (h c).socket i v hold
      · rw [mem_channels hplain] at hsn
        subst hsn
        exact ⟨w, rfl, get?_routed c⟩

end Exclusive

section Channels
variable {rt : Runtime} {world world' : World}

/-- No Redis call fails, and serials are strings or absent. -/
def Regular (rt : Runtime) (t : Turn) : Prop :=
  t.Calm ∧ ∀ w data sn, t.event = .message w data → SnOf rt data sn → PlainSn sn

abbrev RegularTurn (rt : Runtime) := {t : Turn // Regular rt t}

def regularTurn (rt : Runtime) (world : World) (t : RegularTurn rt) : Option World :=
  turn rt world t.1

/-- The condition on a turn. A message comes from the socket of the threads that
run on its channel; when a socket closes, no thread runs on the channel whose
route is removed. -/
def Undisturbed (rt : Runtime) (world : World) (t : Turn) : Prop :=
  match t.event with
  | .opened _ => True
  | .message w data => ∀ c, Carries rt data c → ∀ sid v, Serves rt world sid v c → v.ws = some w
  | .closed w => ∀ c, world.connections.keyOf (some w) = some (.serial (.str c)) →
      ∀ sid v, ¬ Serves rt world sid v c

theorem turn_registered {t : Turn} (ht : Regular rt t) (hreg : Registered world)
    (h : turn rt world t = some world') : Registered world' := by
  have kept : ∀ world₁ : World, world₁.services = world.services →
      world₁.subscribed = world.subscribed → Registered world₁ := by
    intro world₁ hservices hsubscribed
    rw [Registered, hservices, hsubscribed]
    exact hreg
  cases turn_effect h with
  | opened => exact kept _ rfl rfl
  | closed => exact kept _ unrouted_services unrouted_subscribed
  | ignored => exact hreg
  | registered => exact kept _ routed_services routed_subscribed
  | subscribed he _ hsn =>
      exact registered_subscribe (ht.2 _ _ _ he hsn) (kept _ routed_services routed_subscribed)

theorem turn_exclusive {t : Turn} (ht : Regular rt t) (hreg : Registered world)
    (hex : ∀ c, Exclusive rt world c) (h : turn rt world t = some world') :
    (∀ c, Exclusive rt world' c) ↔ Undisturbed rt world t := by
  have carried : ∀ {data sn}, SnOf rt data sn → ∀ c, Carries rt data c ↔ sn = .str c := by
    intro data sn hsn c
    constructor
    · exact fun hc => snOf_unique hsn hc
    · rintro rfl
      exact hsn
  unfold Undisturbed
  cases turn_effect h with
  | opened he =>
      rw [he]
      refine iff_of_true (fun c => (hex c).congr rfl (fun _ _ _ => ?_)) trivial
      exact Hash.get?_insert_ne _ _ (by simp)
  | closed he =>
      rw [he]
      exact exclusive_unrouted hex
  | ignored he _ hnone =>
      rw [he]
      exact iff_of_true hex (fun c hc => absurd hc (hnone ht.1 (.str c)))
  | registered he _ hsn =>
      rw [he]
      simp only [carried hsn]
      exact exclusive_routed hex
  | subscribed he _ hsn =>
      rw [he]
      simp only [carried hsn]
      rw [exclusive_subscribe (ht.2 _ _ _ he hsn) hreg]
      exact exclusive_routed hex

/-- In every state of a run each channel has at most one running thread, whose
socket has the route, exactly if no socket takes a channel from a thread of
another one and no socket closes while its thread runs. -/
theorem exclusive_iff (ts : List (RegularTurn rt)) :
    Throughout (regularTurn rt) (fun world => (∀ c, Exclusive rt world c) ∧ WrittenOnce rt world)
        World.start ts ↔
      EachStep (regularTurn rt) (fun world t => Undisturbed rt world t.1) World.start ts := by
  have start : ∀ c, Exclusive rt World.start c := by
    intro c
    refine ⟨?_, ?_⟩ <;> simp [Serves, World.start]
  refine throughout_iff (I := Registered) (fun _ t _ hreg h => turn_registered t.2 hreg h) ?_ ?_
    ⟨start, written_once start⟩ ts
  · intro world t world' hreg hex h
    rw [← turn_exclusive t.2 hreg hex.1 h]
    exact ⟨fun h' => h'.1, fun h' => ⟨h', written_once h'⟩⟩
  · simp [Registered, World.start]

end Channels

/-- The registration of `A` and the text of a published command. -/
def registrationTexts : Runtime := Runtime.ofTable
  [("reg A", .obj [("cmd", .str "reg"), ("sn", .str "A")]),
   ("reboot", .obj [("cmd", .str "reboot")])]

/-- Reader `A` comes back on socket 1 while its old socket 0 is still open. -/
def takenOver : List Turn :=
  [⟨.opened 0, []⟩, ⟨.message 0 "reg A", []⟩, ⟨.opened 1, []⟩, ⟨.message 1 "reg A", []⟩]

/-- Two threads run on the channel and the command is written twice, to the old
socket as well. -/
theorem written_twice : (∀ t ∈ takenOver, Regular registrationTexts t) ∧
    ∃ world, run registrationTexts World.start takenOver = some world ∧
    world.connections.get? (.serial (.str "A")) = some (some 1) ∧
    commandFrames registrationTexts world (fun _ => []) "A" "reboot" = [some 0, some 1] ∧
    ¬ Exclusive registrationTexts world "A" := by
  have serial : ∀ sn, SnOf registrationTexts "reg A" sn → sn = .str "A" :=
    fun sn hsn => snOf_unique hsn ⟨_, rfl, rfl⟩
  have message : ∀ w, Regular registrationTexts ⟨.message w "reg A", []⟩ := by
    refine fun w => ⟨by simp [Turn.Calm], ?_⟩
    rintro w' data sn ⟨⟩ hsn
    exact .inr ⟨"A", serial sn hsn⟩
  have opened : ∀ w, Regular registrationTexts ⟨.opened w, []⟩ := by simp [Regular, Turn.Calm]
  have regular : ∀ t ∈ takenOver, Regular registrationTexts t := by
    simp [takenOver, message, opened]
  refine ⟨regular, _, rfl, rfl, rfl, ?_⟩
  intro h
  have hsame := h.unique 0 1 _ _ ⟨rfl, by decide⟩ ⟨rfl, by decide⟩
  cases hsame

end EvoGw.SubscriberChannels
