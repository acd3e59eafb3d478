import EvoGw.SocketTurns
import EvoGw.LogAcknowledgement
import EvoGw.CommandCourses

/-!
# Forwarded logs

A log message is recognised twice: `Devices.handle_reg` tests `cmd` to
acknowledge it and the message handler tests it again to publish the text. Over
any sequence of events, handled one at a time, the texts published are exactly
the log messages, in order, and each of them is acknowledged once on its own
socket. Handlers that raise on other messages change nothing of this.

Redis and the sockets do not fail here, and what is logged can be printed.
-/
namespace EvoGw.LogForwarding
open ThreadPrograms SoloRuns SerialThreads
open GatewayCalls JsonValues WebSocketHandler GatewayPool SocketTurns
open CommandCourses (written written? written_append)
open LogAcknowledgement (Quiet quiet_handOver quiet_registerRoute)

/-- The channel and the text of a publication that Redis has taken. -/
def published? : Event sig → Option (String × String)
  | ⟨.call (.publish channel data), r⟩ => if r = true then some (channel, data) else none
  | _ => none

def published (events : List (Event sig)) : List (String × String) := events.filterMap published?

@[simp] theorem published_append (tr tr' : List (Event sig)) :
    published (tr ++ tr') = published tr ++ published tr' := List.filterMap_append

/-- The fields of a log message. -/
def logOf (rt : Runtime) (data : String) : Option (List (String × Json)) :=
  match rt.parse data with
  | some (.obj fields) => if fetch fields "cmd" = .str "sendlog" then some fields else none
  | _ => none

theorem logOf_eq_some {rt : Runtime} {data : String} {fields : List (String × Json)} :
    logOf rt data = some fields ↔
      rt.parse data = some (.obj fields) ∧ fetch fields "cmd" = .str "sendlog" := by
  unfold logOf
  split
  · rename_i fields' hp
    rw [hp]
    split_ifs with hcmd
    · simp only [Option.some.injEq, Json.obj.injEq]
      exact ⟨fun h => ⟨h, h ▸ hcmd⟩, fun h => h.1⟩
    · simp only [Option.some.injEq, Json.obj.injEq, false_iff, not_and]
      rintro rfl
      exact hcmd
  · rename_i hnot
    simp only [reduceCtorEq, false_iff, not_and]
    exact fun hp => absurd hp (hnot fields)

/-- The text of a turn that brings a log. -/
def logText (rt : Runtime) (t : Turn) : Option String :=
  match t.event with
  | .message _ data => if (logOf rt data).isSome then some data else none
  | _ => none

/-- The acknowledgements of logs among the written frames. -/
def acknowledgements (events : List (Event sig)) : List (Sock × Json) :=
  (written events).filter (fun frame => frame.2.index "ret" = .ok (.str "sendlog"))

/-- The events of each turn. -/
def journal (rt : Runtime) : World → List Turn → List (List (Event sig))
  | _, [] => []
  | world, t :: ts =>
      (handle rt world t).events :: journal rt (handle rt world t).state.world ts

/-- The turn has acknowledged its log, once, on its socket and with the count and the
index of the log; without a log it has acknowledged nothing. -/
def Acknowledges (rt : Runtime) (t : Turn) (events : List (Event sig)) : Prop :=
  match t.event with
  | .message w data =>
      match logOf rt data with
      | some fields => ∃ doc, acknowledgements events = [(w, doc)] ∧
          doc.index "ret" = .ok (.str "sendlog") ∧
          doc.index "count" = .ok (fetch fields "count") ∧
          doc.index "logindex" = .ok (fetch fields "logindex")
      | none => acknowledgements events = []
  | _ => acknowledgements events = []

/-- Neither Redis nor a socket fails. -/
def Smooth (t : Turn) : Prop := ∀ c ∈ t.choices, c.fails = false ∧ c.sent = .written

/-- The message and its answer can be printed to the log. -/
def Loggable (rt : Runtime) (data : String) : Prop :=
  ∀ fields, rt.parse data = some (.obj fields) → rt.generates (.obj fields) = true ∧
    ∀ time, rt.generates (regResponse time) = true ∧ rt.generates
      (sendlogResponse (fetch fields "count") (fetch fields "logindex") time) = true

/-- Neither a publication nor the acknowledgement of a log. -/
def Unrelated : Prim sig → Prop
  | .call (.wsSend _ doc) => doc.index "ret" ≠ .ok (.str "sendlog")
  | .call (.publish _ _) => False
  | _ => True

theorem unrelated_of_quiet (p : Prim sig) (h : Quiet p) : Unrelated p := by
  cases p with
  | call c =>
      cases c with
      | wsSend ws doc => exact h.elim
      | publish channel data => exact h.elim
      | _ => trivial
  | _ => trivial

theorem unrelated_events {events : List (Event sig)} (h : ∀ e ∈ events, Unrelated e.prim) :
    acknowledgements events = [] ∧ published events = [] := by
  constructor
  · rw [acknowledgements, List.filter_eq_nil_iff]
    intro frame hframe
    obtain ⟨⟨p, r⟩, he, hw⟩ := List.mem_filterMap.mp hframe
    have hp := h _ he
    unfold written? at hw
    split at hw
    · rename_i w doc r' heq
      cases heq
      split_ifs at hw
      cases hw
      exact fun hret => hp (of_decide_eq_true hret)
    · cases hw
  · refine List.filterMap_eq_nil_iff.mpr (fun e he => ?_)
    have hp := h e he
    unfold published?
    split
    · exact hp.elim
    · rfl

theorem quiet_traffic {rt : Runtime} {A : Type} {p : Code A} (hp : Uses Quiet p)
    (s : Alone (gateway rt)) : written (drive (solo rt) s p).events = [] ∧
      published (drive (solo rt) s p).events = [] := by
  have hquiet := uses_events (solo rt) hp s
  constructor
  · refine List.filterMap_eq_nil_iff.mpr (fun e he => ?_)
    have hq := hquiet e he
    unfold written?
    split
    · exact hq.elim
    · rfl
  · exact (unrelated_events (fun e he => unrelated_of_quiet _ (hquiet e he))).2

section Others
variable {rt : Runtime} {w : Sock} {data : String}

theorem unrelated_wsSend {ws : Option Sock} {doc : Json}
    (hdoc : doc.index "ret" ≠ .ok (.str "sendlog")) : Uses Unrelated (wsSend rt ws doc) := by
  refine (DevicesSender.uses_generate doc).bind (fun _ => ⟨hdoc, fun r => ?_⟩)
  cases r <;> trivial

/-- Only a log is answered by an acknowledgement of a log. -/
theorem unrelated_handleReg {message : Json} {ws : Option Sock}
    (h : message.index "cmd" ≠ .ok (.str "sendlog")) :
    Uses Unrelated (handleReg rt message ws) := by
  unfold handleReg
  refine (DevicesSender.uses_lift _).bind (fun _ => ?_)
  refine (DevicesSender.uses_generate _).bind (fun _ => ?_)
  cases hcmd : message.index "cmd" with
  | error e => trivial
  | ok cmd =>
      simp only [lift, Program.pure_eq, Program.done_bind]
      split
      · refine ⟨trivial, fun time => ?_⟩
        exact (unrelated_wsSend (by simp [regResponse, fetch])).bind
          (fun _ => DevicesSender.uses_generate _)
      · split
        · rename_i hlog
          rw [hcmd, hlog] at h
          exact absurd rfl h
        · trivial

theorem quiet_startSubscriber (sn : Json) : Uses Quiet (startSubscriber w sn) := by
  refine (uses_startSubscriber w sn).mono (fun p h => ?_)
  cases h with
  | start sid h => rcases h with rfl | rfl | rfl | rfl | rfl | rfl <;> trivial
  | _ => trivial

/-- `String#[]` never answers `"sendlog"` to `"cmd"`, so only objects are logs. -/
theorem index_cmd {message : Json} (hp : rt.parse data = some message)
    (hlog : logOf rt data = none) : message.index "cmd" ≠ .ok (.str "sendlog") := by
  cases message with
  | obj fields =>
      intro h
      simp only [index_obj, Except.ok.injEq] at h
      simp [logOf, hp, h] at hlog
  | str s =>
      simp only [Json.index]
      split <;> simp
  | _ => simp [Json.index]

/-- A message that is no log is neither published nor acknowledged as one. -/
theorem unrelated_onMessage (hlog : logOf rt data = none) :
    Uses Unrelated (onMessage rt w data) := by
  unfold onMessage parse
  cases hp : rt.parse data with
  | none => trivial
  | some message =>
      have hcmd := index_cmd hp hlog
      refine (DevicesSender.uses_lift _).bind (fun sn => ?_)
      refine ((quiet_handOver rt sn data).mono unrelated_of_quiet).bind (fun _ => ?_)
      cases hc : message.index "cmd" with
      | error e => trivial
      | ok command =>
          simp only [lift, Program.pure_eq, Program.done_bind]
          refine ((quiet_registerRoute w sn).mono unrelated_of_quiet).bind (fun _ => ?_)
          refine ⟨trivial, fun ws => ?_⟩
          refine (unrelated_handleReg hcmd).bind (fun _ => ?_)
          split
          · rename_i heq
            rw [hc, heq] at hcmd
            exact absurd rfl hcmd
          · exact (quiet_startSubscriber sn).mono unrelated_of_quiet

end Others

section Logs
variable {rt : Runtime} {s : Alone (gateway rt)} {w : Sock} {data : String}
  {fields : List (String × Json)}

/-- What is left of the choices brings no failure. -/
def Fine (s : Alone (gateway rt)) : Prop := ∀ c ∈ s.choices, c.fails = false ∧ c.sent = .written

theorem Fine.choice (h : Fine s) : s.choice.fails = false ∧ s.choice.sent = .written := by
  obtain ⟨world, choices⟩ := s
  cases choices with
  | nil => exact ⟨rfl, rfl⟩
  | cons c choices => exact h c List.mem_cons_self

theorem Fine.calm (h : Fine s) : ∀ c ∈ s.choices, c.fails = false := fun c hc => (h c hc).1

theorem Fine.after {A : Type} (h : Fine s) (p : Code A) : Fine (drive (solo rt) s p).state :=
  fun c hc => h c ((drive_choices 0 s p).subset hc)

/-- An answer that can be generated is written. -/
theorem drive_responseWs (hs : Fine s) {doc : Json} (hdoc : rt.generates doc = true) :
    drive (solo rt) s (responseWs rt (some w) doc) = ⟨⟨s.world, s.choices.tail⟩,
      [⟨.call (.wsSend (some w) doc), Sent.written⟩], .ok ()⟩ := by
  have hsent : (solo rt s (.call (.wsSend (some w) doc))).2 = Sent.written := hs.choice.2
  unfold responseWs wsSend generate
  simp only [hdoc, if_true, Program.pure_eq, Program.done_bind, call, Program.act_bind, drive]
  rw [hsent]
  rfl

theorem drive_publish (hs : Fine s) (channel : String) :
    (drive (solo rt) s (publish channel data)).events =
      [⟨.call (.publish channel data), true⟩] := by
  have hdone : (solo rt s (.call (.publish channel data))).2 = true := by
    show (!s.choice.fails) = true
    rw [hs.choice.1]
    rfl
  simp only [publish, call, Program.act_bind, Program.done_bind, drive]
  rw [hdone]
  rfl

/-- `handle_reg` acknowledges a log, once. -/
theorem drive_handleReg (hs : Fine s) (hmessage : rt.generates (.obj fields) = true)
    (hack : ∀ time, rt.generates
      (sendlogResponse (fetch fields "count") (fetch fields "logindex") time) = true)
    (hcmd : fetch fields "cmd" = .str "sendlog") : ∃ time,
      (drive (solo rt) s (handleReg rt (.obj fields) (some w))).out = .ok () ∧
      (drive (solo rt) s (handleReg rt (.obj fields) (some w))).events =
        [⟨.call .timeNow, time⟩, ⟨.call (.wsSend (some w)
          (sendlogResponse (fetch fields "count") (fetch fields "logindex") time)),
            Sent.written⟩] := by
  have rest : Fine (⟨s.world, s.choices.tail⟩ : Alone (gateway rt)) :=
    fun c hc => hs c (List.mem_of_mem_tail hc)
  refine ⟨s.choice.time, ?_⟩
  unfold handleReg
  simp only [index_obj, lift, Program.pure_eq, Program.done_bind, hcmd, generate, hmessage, if_true]
  have answer := drive_responseWs (w := w) rest (hack s.choice.time)
  exact ⟨congrArg Run.out answer, congrArg (List.cons (⟨.call .timeNow, s.choice.time⟩ : Event sig))
    (congrArg Run.events answer)⟩

/-- What goes out once the message is handed over and its route is stored. -/
theorem answer_traffic (data : String) (hs : Fine s) (hw : w ∉ s.world.cleared)
    (hmessage : rt.generates (.obj fields) = true)
    (hack : ∀ time, rt.generates
      (sendlogResponse (fetch fields "count") (fetch fields "logindex") time) = true)
    (hcmd : fetch fields "cmd" = .str "sendlog") : ∃ time,
      (drive (solo rt) s (do
          let ws ← call (.wsVar w)
          handleReg rt (.obj fields) ws
          publish sendlogChannel data)).events =
        [⟨.call (.wsVar w), some w⟩, ⟨.call .timeNow, time⟩, ⟨.call (.wsSend (some w)
          (sendlogResponse (fetch fields "count") (fetch fields "logindex") time)), Sent.written⟩,
          ⟨.call (.publish sendlogChannel data), true⟩] := by
  have hvar : (solo rt s (.call (.wsVar w))).2 = some w := if_neg hw
  have rest : Fine (solo rt s (.call (.wsVar w))).1 := fun c hc => hs c (List.mem_of_mem_tail hc)
  obtain ⟨time, hout, hevents⟩ := drive_handleReg (w := w) rest hmessage hack hcmd
  refine ⟨time, ?_⟩
  simp only [call, Program.act_bind, Program.done_bind, drive]
  rw [hvar, events_bind (solo rt) _ hout, hevents, drive_publish (rest.after _)]
  rfl

/-- A log is published after its acknowledgement, and nothing else goes out. -/
theorem log_traffic (hs : Fine s) (hw : w ∉ s.world.cleared) (hlog : logOf rt data = some fields)
    (hprint : Loggable rt data) : ∃ time,
      written (drive (solo rt) s (onMessage rt w data)).events =
        [(w, sendlogResponse (fetch fields "count") (fetch fields "logindex") time)] ∧
      published (drive (solo rt) s (onMessage rt w data)).events = [(sendlogChannel, data)] := by
  obtain ⟨hp, hcmd⟩ := logOf_eq_some.mp hlog
  obtain ⟨hmessage, hanswer⟩ := hprint fields hp
  have handed : Leads (solo rt) s (handOver rt (fetch fields "sn") data) _ := leads_handOver
  set s₁ := (drive (solo rt) s (handOver rt (fetch fields "sn") data)).state
  have hw₁ : w ∉ s₁.world.cleared := by
    rw [handed.1]
    exact hw
  have route : Leads (solo rt) s₁ (registerRoute w (fetch fields "sn")) _ := leads_registerRoute hw₁
  have hw₂ :
      w ∉ (drive (solo rt) s₁ (registerRoute w (fetch fields "sn"))).state.world.cleared := by
    rw [route.1, routed_cleared]
    exact hw₁
  obtain ⟨time, hevents⟩ := answer_traffic data ((hs.after _).after _) hw₂ hmessage
    (fun time => (hanswer time).2) hcmd
  have first := quiet_traffic (quiet_handOver rt (fetch fields "sn") data) s
  have second := quiet_traffic (quiet_registerRoute w (fetch fields "sn")) s₁
  refine ⟨time, ?_⟩
  unfold onMessage
  simp only [parse, hp, lift, index_obj, Program.pure_eq, Program.done_bind, hcmd, if_true]
  rw [events_bind (solo rt) s (handed.2 hs.calm), events_bind (solo rt) _ route.2, hevents]
  simp only [written_append, published_append, first, second, List.nil_append]
  exact ⟨rfl, rfl⟩

end Logs

section Turns
variable {rt : Runtime} {world : World} {t : Turn}

/-- What one turn acknowledges and publishes. -/
def Forwards (rt : Runtime) (t : Turn) (events : List (Event sig)) : Prop :=
  Acknowledges rt t events ∧ published events =
    ((logText rt t).map (fun data => (sendlogChannel, data))).toList

theorem message_forwards {choices : List Choice} {w : Sock} {data : String}
    (hsmooth : ∀ c ∈ choices, c.fails = false ∧ c.sent = .written) (hw : w ∉ world.cleared)
    (hprint : Loggable rt data) :
    Forwards rt ⟨.message w data, choices⟩ (handle rt world ⟨.message w data, choices⟩).events := by
  unfold Forwards Acknowledges logText
  simp only
  cases hlog : logOf rt data with
  | none => exact unrelated_events (uses_events (solo rt) (unrelated_onMessage hlog) _)
  | some fields =>
      have fine : Fine (⟨world, choices⟩ : Alone (gateway rt)) := hsmooth
      obtain ⟨time, hwritten, hpublished⟩ := log_traffic fine hw hlog hprint
      refine ⟨⟨sendlogResponse (fetch fields "count") (fetch fields "logindex") time, ?_, rfl, rfl,
        rfl⟩, hpublished⟩
      show (written (drive (solo rt) ⟨world, choices⟩ (onMessage rt w data)).events).filter _ = _
      rw [hwritten]
      rfl

theorem turn_forwards (hsmooth : Smooth t) (henabled : Enabled world t.event)
    (hprint : ∀ w data, t.event = .message w data → Loggable rt data) :
    Forwards rt t (handle rt world t).events := by
  obtain ⟨event, choices⟩ := t
  cases event with
  | message w data => exact message_forwards hsmooth henabled (hprint w data rfl)
  | opened w =>
      have quiet : Uses Quiet (onOpen w) :=
        (uses_onOpen w).mono (fun _ h => by cases h <;> trivial)
      exact unrelated_events (uses_events (solo rt) (quiet.mono unrelated_of_quiet) _)
  | closed w =>
      have quiet : Uses Quiet (onClose w) :=
        (uses_onClose w).mono (fun _ h => by cases h <;> trivial)
      exact unrelated_events (uses_events (solo rt) (quiet.mono unrelated_of_quiet) _)

/-- Every turn of a run forwards its own log and nothing else. -/
theorem run_forwards {world' : World} {ts : List Turn} (h : run rt world ts = some world')
    (hsmooth : ∀ t ∈ ts, Smooth t)
    (hprint : ∀ w data, .message w data ∈ ts.map Turn.event → Loggable rt data) :
    List.Forall₂ (Forwards rt) ts (journal rt world ts) := by
  induction ts generalizing world with
  | nil => exact .nil
  | cons t ts ih =>
      obtain ⟨world₁, hturn, hrest⟩ := run_cons h
      unfold turn at hturn
      split at hturn
      · rename_i henabled
        cases hturn
        have first : Forwards rt t (handle rt world t).events := by
          refine turn_forwards (hsmooth t List.mem_cons_self) henabled ?_
          intro w data he
          refine hprint w data ?_
          rw [List.map_cons, he]
          exact List.mem_cons_self
        have rest := ih hrest (fun t ht => hsmooth t (List.mem_cons_of_mem _ ht))
          (fun w data hm => hprint w data (List.mem_cons_of_mem _ hm))
        exact .cons first rest
      · cases hturn

/-- The publications of a run are those of its turns, one after another. -/
theorem published_journal {ts : List Turn} {events : List (List (Event sig))}
    (h : List.Forall₂ (Forwards rt) ts events) : published events.flatten =
      (ts.filterMap (logText rt)).map (fun data => (sendlogChannel, data)) := by
  induction h with
  | nil => rfl
  | @cons t tr ts trs first rest ih =>
      rw [List.flatten_cons, published_append, first.2, ih]
      cases hlog : logText rt t with
      | none => rw [List.filterMap_cons_none hlog]; rfl
      | some data => rw [List.filterMap_cons_some hlog]; rfl

/-- The texts published in a run are the logs among the received texts, in order,
and each log is acknowledged once on its socket, other messages never. -/
theorem logs_forwarded {ts : List Turn} (h : run rt World.start ts = some world)
    (hsmooth : ∀ t ∈ ts, Smooth t)
    (hprint : ∀ w data, .message w data ∈ ts.map Turn.event → Loggable rt data) :
    published (journal rt World.start ts).flatten =
        (ts.filterMap (logText rt)).map (fun data => (sendlogChannel, data)) ∧
      List.Forall₂ (Acknowledges rt) ts (journal rt World.start ts) := by
  have forwards := run_forwards h hsmooth hprint
  exact ⟨published_journal forwards, forwards.imp (fun _ _ hf => hf.1)⟩

end Turns

/-- A registration, two logs, an array and a string that mentions a log. -/
def mixedTexts : Runtime := Runtime.ofTable
  [("reg", .obj [("cmd", .str "reg"), ("sn", .str "A")]),
   ("log 1", .obj [("cmd", .str "sendlog"), ("sn", .str "A"), ("count", .int 1)]),
   ("array", .arr [.str "sendlog"]),
   ("string", .str "cmd: sendlog"),
   ("log 2", .obj [("cmd", .str "sendlog"), ("logindex", .int 7)])]

/-- Two sockets send them, together with a text that is no JSON. -/
def mixedTurns : List Turn :=
  [⟨.opened 0, []⟩, ⟨.message 0 "reg", []⟩, ⟨.message 0 "log 1", []⟩, ⟨.message 0 "array", []⟩,
   ⟨.opened 1, []⟩, ⟨.message 1 "no JSON", []⟩, ⟨.message 1 "string", []⟩,
   ⟨.message 1 "log 2", []⟩, ⟨.closed 0, []⟩]

theorem logs_forwarded_mixed : published (journal mixedTexts World.start mixedTurns).flatten =
      [(sendlogChannel, "log 1"), (sendlogChannel, "log 2")] ∧
    List.Forall₂ (Acknowledges mixedTexts) mixedTurns
      (journal mixedTexts World.start mixedTurns) := by
  have ran : run mixedTexts World.start mixedTurns = some _ := rfl
  have smooth : ∀ t ∈ mixedTurns, Smooth t := by simp [mixedTurns, Smooth]
  exact logs_forwarded ran smooth (fun _ _ _ _ _ => ⟨rfl, fun _ => ⟨rfl, rfl⟩⟩)

end EvoGw.LogForwarding
