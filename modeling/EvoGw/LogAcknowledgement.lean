import EvoGw.WebSocketHandler
import EvoGw.SoloRuns

/-!
# Acknowledged logs

A `sendlog` message is acknowledged inside `Devices.handle_reg` and published
only after it. Each of the handler's Redis calls may raise, and then nothing
behind it runs. So a log is acknowledged and lost exactly if everything up to
the acknowledgement succeeds and PUBLISH raises.
-/
namespace EvoGw.LogAcknowledgement
open ThreadPrograms SoloRuns GatewayCalls JsonValues WebSocketHandler

/-- How the surroundings answer the calls of one run of the message handler. A
`sendlog` run makes every Redis call at most once. -/
def Answers : Type := (p : Prim sig) → p.Resp

def handlerRun (rt : Runtime) (answers : Answers) (w : Sock) (data : String) : Run sig Unit Unit :=
  drive (fun _ p => ((), answers p)) () (onMessage rt w data)

variable {rt : Runtime} {answers : Answers} {w : Sock} {data : String}
  {fields : List (String × Json)}

/-- The acknowledgement of the message was written to a socket. -/
def Acknowledged (fields : List (String × Json)) (events : List (Event sig)) : Prop :=
  ∃ ws time, ⟨.call (.wsSend (some ws)
    (sendlogResponse (fetch fields "count") (fetch fields "logindex") time)), Sent.written⟩ ∈ events

/-- The message was published successfully. -/
def Published (data : String) (events : List (Event sig)) : Prop :=
  ⟨.call (.publish sendlogChannel data), true⟩ ∈ events

def ackOf (answers : Answers) (fields : List (String × Json)) : Json :=
  sendlogResponse (fetch fields "count") (fetch fields "logindex") (answers (.call .timeNow))

/-- LPUSH and DEL succeed, or there is no `sn` and they are not made. -/
def HandsOver (rt : Runtime) (answers : Answers) (sn : Json) (data : String) : Prop :=
  sn.truthy = true → answers (.push (responseKey (rt.toS sn)) data) = true ∧
    answers (.clear (responseKey (rt.toS sn))) = true

/-- Everything up to the acknowledgement succeeds, and the socket takes it. -/
def AckTaken (rt : Runtime) (answers : Answers) (w : Sock) (fields : List (String × Json))
    (data : String) : Prop :=
  HandsOver rt answers (fetch fields "sn") data ∧ rt.generates (.obj fields) = true ∧
    rt.generates (ackOf answers fields) = true ∧
    ∃ ws, answers (.call (.wsVar w)) = some ws ∧
      answers (.call (.wsSend (some ws) (ackOf answers fields))) = Sent.written

/-- Neither a frame nor a publication. -/
def Quiet : Prim sig → Prop
  | .call (.wsSend _ _) => False
  | .call (.publish _ _) => False
  | _ => True

theorem quiet_acknowledged {events : List (Event sig)} (h : ∀ e ∈ events, Quiet e.prim) :
    ¬ Acknowledged fields events := by
  rintro ⟨ws, time, he⟩
  exact h _ he

section Parts
variable (rt answers)

theorem quiet_handOver (sn : Json) (data : String) : Uses Quiet (handOver rt sn data) :=
  (uses_handOver sn data).mono (fun _ h => by cases h <;> trivial)

/-- The first section succeeds exactly if its Redis calls do. -/
theorem handOver_out (sn : Json) (data : String) :
    (drive (fun _ p => ((), answers p)) () (handOver rt sn data)).out = .ok () ↔
      HandsOver rt answers sn data := by
  unfold HandsOver handOver
  rw [drive_synchronize _ _ (fun _ => rfl) (fun _ => rfl)]
  cases sn.truthy with
  | false => simp
  | true =>
      cases hpush : answers (.push (responseKey (rt.toS sn)) data) with
      | false => simp [lpush, drive, redis, hpush]
      | true =>
          cases hclear : answers (.clear (responseKey (rt.toS sn))) with
          | false => simp [lpush, del, drive, redis, hpush, hclear]
          | true => simp [lpush, del, drive, redis, hpush, hclear]

theorem quiet_registerRoute (w : Sock) (sn : Json) : Uses Quiet (registerRoute w sn) :=
  (uses_registerRoute w sn).mono (fun _ h => by cases h <;> trivial)

theorem registerRoute_out (w : Sock) (sn : Json) :
    (drive (fun _ p => ((), answers p)) () (registerRoute w sn)).out = .ok () := by
  unfold registerRoute
  split
  · rw [drive_synchronize _ _ (fun _ => rfl) (fun _ => rfl)]
    rfl
  · rfl

/-- An answer that can be generated is handed to the socket. -/
theorem responseWs_run (ws : Option Sock) (doc : Json) :
    drive (fun _ p => ((), answers p)) () (responseWs rt ws doc) =
      if rt.generates doc then
        ⟨(), [⟨.call (.wsSend ws doc), answers (.call (.wsSend ws doc))⟩],
          if answers (.call (.wsSend ws doc)) = Sent.raised then .error .socketError else .ok ()⟩
      else ⟨(), [], .error .generatorError⟩ := by
  unfold responseWs
  rw [drive_bind]
  unfold wsSend generate
  cases hd : rt.generates doc with
  | false => rfl
  | true =>
      simp only [if_true, Program.pure_eq, Program.done_bind, call, Program.act_bind, drive]
      generalize answers (.call (.wsSend ws doc)) = sent
      cases sent <;> rfl

theorem handleReg_run (hcmd : fetch fields "cmd" = .str "sendlog") (ws : Option Sock) :
    drive (fun _ p => ((), answers p)) () (handleReg rt (.obj fields) ws) =
      if rt.generates (.obj fields) then
        ⟨(), ⟨.call .timeNow, answers (.call .timeNow)⟩ ::
            (drive (fun _ p => ((), answers p)) ()
              (responseWs rt ws (ackOf answers fields))).events,
          (drive (fun _ p => ((), answers p)) () (responseWs rt ws (ackOf answers fields))).out⟩
      else ⟨(), [], .error .generatorError⟩ := by
  unfold handleReg
  simp only [index_obj, lift, Program.pure_eq, Program.done_bind, hcmd, generate]
  cases rt.generates (.obj fields) with
  | false => rfl
  | true => rfl

/-- What the handler does once the route is registered. -/
def answerAndPublish (rt : Runtime) (fields : List (String × Json)) (data : String)
    (ws : Option Sock) : Code Unit := do
  handleReg rt (.obj fields) ws
  publish sendlogChannel data

theorem publish_run (channel data : String) :
    (drive (fun _ p => ((), answers p)) () (publish channel data)).events =
      [⟨.call (.publish channel data), answers (.call (.publish channel data))⟩] := by
  simp only [publish, call, Program.act_bind, Program.done_bind, drive]
  generalize answers (.call (.publish channel data)) = done
  cases done <;> rfl

/-- After the route is registered, the acknowledgement goes out first and the
publication comes after it, unless something was raised before. -/
theorem answer_events (hcmd : fetch fields "cmd" = .str "sendlog") (ws : Option Sock) :
    (drive (fun _ p => ((), answers p)) () (answerAndPublish rt fields data ws)).events =
      if rt.generates (.obj fields) = false then [] else
        if rt.generates (ackOf answers fields) = false then
          [⟨.call .timeNow, answers (.call .timeNow)⟩] else
        ⟨.call .timeNow, answers (.call .timeNow)⟩ ::
          ⟨.call (.wsSend ws (ackOf answers fields)),
            answers (.call (.wsSend ws (ackOf answers fields)))⟩ ::
          if answers (.call (.wsSend ws (ackOf answers fields))) = Sent.raised then [] else
            [⟨.call (.publish sendlogChannel data),
              answers (.call (.publish sendlogChannel data))⟩] := by
  unfold answerAndPublish
  rw [drive_bind, handleReg_run rt answers hcmd, responseWs_run]
  cases rt.generates (.obj fields) with
  | false => rfl
  | true =>
      cases rt.generates (ackOf answers fields) with
      | false => rfl
      | true =>
          by_cases hsent : answers (.call (.wsSend ws (ackOf answers fields))) = Sent.raised
          · simp [hsent, Run.andThen]
          · simp [hsent, Run.andThen, publish_run]

/-- With the hand-over done, nothing but `answerAndPublish` writes or publishes. -/
theorem handler_events (hp : rt.parse data = some (.obj fields))
    (hcmd : fetch fields "cmd" = .str "sendlog")
    (hover : HandsOver rt answers (fetch fields "sn") data) :
    ∃ before, (∀ e ∈ before, Quiet e.prim) ∧ (handlerRun rt answers w data).events =
      before ++ (drive (fun _ p => ((), answers p)) ()
        (answerAndPublish rt fields data (answers (.call (.wsVar w))))).events := by
  have hout := (handOver_out rt answers (fetch fields "sn") data).mpr hover
  have hroute := registerRoute_out answers w (fetch fields "sn")
  refine ⟨(drive (fun _ p => ((), answers p)) () (handOver rt (fetch fields "sn") data)).events ++
    (drive (fun _ p => ((), answers p)) () (registerRoute w (fetch fields "sn"))).events ++
    [⟨.call (.wsVar w), answers (.call (.wsVar w))⟩], ?_, ?_⟩
  · intro e he
    rcases List.mem_append.mp he with he | he
    · rcases List.mem_append.mp he with he | he
      · exact uses_events _ (quiet_handOver rt _ data) () e he
      · exact uses_events _ (quiet_registerRoute w _) () e he
    · rw [List.mem_singleton.mp he]
      trivial
  · unfold handlerRun onMessage
    simp only [parse, hp, lift, index_obj, Program.pure_eq, Program.done_bind, hcmd, if_true]
    rw [drive_bind, Run.andThen, hout, drive_bind, Run.andThen, hroute]
    simp only [call, Program.act_bind, Program.done_bind, drive, List.append_assoc,
      List.singleton_append]
    rfl

/-- Without it the handler ends in its first section. -/
theorem handler_stops (hp : rt.parse data = some (.obj fields))
    (hover : ¬ HandsOver rt answers (fetch fields "sn") data) :
    ∀ e ∈ (handlerRun rt answers w data).events, Quiet e.prim := by
  unfold handlerRun onMessage
  simp only [parse, hp, lift, index_obj, Program.pure_eq, Program.done_bind]
  rw [drive_bind, Run.andThen]
  cases hout : (drive (fun _ p => ((), answers p)) ()
      (handOver rt (fetch fields "sn") data)).out with
  | ok u => exact absurd ((handOver_out rt answers (fetch fields "sn") data).mp hout) hover
  | error e => exact uses_events _ (quiet_handOver rt _ data) ()

end Parts

theorem acknowledged_append {before after : List (Event sig)} (h : ∀ e ∈ before, Quiet e.prim) :
    Acknowledged fields (before ++ after) ↔ Acknowledged fields after := by
  constructor
  · rintro ⟨ws, time, he⟩
    rcases List.mem_append.mp he with he | he
    · exact (h _ he).elim
    · exact ⟨ws, time, he⟩
  · rintro ⟨ws, time, he⟩
    exact ⟨ws, time, List.mem_append_right _ he⟩

theorem published_behind {before after : List (Event sig)} (h : ∀ e ∈ before, Quiet e.prim) :
    Published data (before ++ after) ↔ Published data after := by
  constructor
  · intro he
    rcases List.mem_append.mp he with he | he
    · exact (h _ he).elim
    · exact he
  · exact fun he => List.mem_append_right _ he

theorem acknowledged_iff (hp : rt.parse data = some (.obj fields))
    (hcmd : fetch fields "cmd" = .str "sendlog") :
    Acknowledged fields (handlerRun rt answers w data).events ↔
      AckTaken rt answers w fields data := by
  by_cases hover : HandsOver rt answers (fetch fields "sn") data
  · obtain ⟨before, hquiet, he⟩ := handler_events (w := w) rt answers hp hcmd hover
    rw [he, acknowledged_append hquiet, answer_events rt answers hcmd]
    unfold AckTaken
    constructor
    · rintro ⟨ws, time, hmem⟩
      split_ifs at hmem with hm ha hsent
      · cases hmem
      · simp at hmem
      · simp [hsent] at hmem
      · simp at hmem
        obtain ⟨⟨hws, -⟩, hwritten⟩ := hmem
        rw [← hws] at hwritten
        exact ⟨hover, by simpa using hm, by simpa using ha, ws, hws.symm, hwritten.symm⟩
    · rintro ⟨-, hm, ha, ws, hws, hsent⟩
      refine ⟨ws, answers (.call .timeNow), ?_⟩
      simp [hm, ha, hws]
      exact ⟨rfl, by rw [hws]; exact hsent.symm⟩
  · constructor
    · intro h
      exact absurd h (quiet_acknowledged (handler_stops rt answers hp hover))
    · intro h
      exact absurd h.1 hover

theorem published_iff (hp : rt.parse data = some (.obj fields))
    (hcmd : fetch fields "cmd" = .str "sendlog") (hack : AckTaken rt answers w fields data) :
    Published data (handlerRun rt answers w data).events ↔
      answers (.call (.publish sendlogChannel data)) = true := by
  obtain ⟨hover, hm, ha, ws, hws, hsent⟩ := hack
  obtain ⟨before, hquiet, he⟩ := handler_events (w := w) rt answers hp hcmd hover
  have hraised : answers (.call (.wsSend (answers (.call (.wsVar w))) (ackOf answers fields))) ≠
      Sent.raised := by
    rw [hws, hsent]
    simp
  rw [he, published_behind hquiet, answer_events rt answers hcmd]
  simp only [hm, ha, hraised, if_false, Bool.true_eq_false, Published]
  simp [eq_comm]

/-- No run ends with the log acknowledged and not published exactly if PUBLISH
does not raise or the acknowledgement is not taken in the first place. -/
theorem acknowledged_published_iff (hp : rt.parse data = some (.obj fields))
    (hcmd : fetch fields "cmd" = .str "sendlog") :
    (Acknowledged fields (handlerRun rt answers w data).events →
      Published data (handlerRun rt answers w data).events) ↔
    (answers (.call (.publish sendlogChannel data)) = true ∨
      ¬ AckTaken rt answers w fields data) := by
  rw [acknowledged_iff hp hcmd]
  constructor
  · intro h
    by_cases hack : AckTaken rt answers w fields data
    · exact .inl ((published_iff hp hcmd hack).mp (h hack))
    · exact .inr hack
  · intro h hack
    rcases h with hpub | hnot
    · exact (published_iff hp hcmd hack).mpr hpub
    · exact absurd hack hnot

/-- Every call succeeds, except perhaps PUBLISH. -/
def callAnswers (published : Bool) : (c : Call) → c.Resp
  | .connGet _ => none
  | .connSet _ _ => ()
  | .connKey _ => none
  | .connDelete _ => ()
  | .wsVar w => some w
  | .wsClear _ => ()
  | .wsSend _ _ => .written
  | .redisNew => true
  | .publish _ _ => published
  | .timeNow => "2025-01-01 00:00:00 -0300"
  | .newService _ _ _ => 0
  | .registered _ _ => false
  | .register _ _ => ()
  | .unregister _ _ => ()
  | .threadAlive _ => false
  | .threadNew _ => ()
  | .threadKill _ => ()
  | .threadEnd _ => ()
  | .stopRequested _ => false
  | .requestStop _ => ()

def fixedAnswers (published : Bool) : Answers
  | .call c => callAnswers published c
  | .acquire _ => ()
  | .release _ => ()
  | .push _ _ => true
  | .clear _ => true
  | .await _ => .timedOut

def logFields : List (String × Json) :=
  [("cmd", .str "sendlog"), ("sn", .str "A"), ("count", .int 1), ("logindex", .int 0)]

def logReader : Runtime := Runtime.ofTable [("log", .obj logFields)]

theorem ack_taken (published : Bool) :
    AckTaken logReader (fixedAnswers published) 0 logFields "log" :=
  ⟨fun _ => ⟨rfl, rfl⟩, rfl, rfl, 0, rfl, rfl⟩

/-- PUBLISH raises: the handler ends with the log acknowledged and lost. -/
theorem log_lost : logReader.parse "log" = some (.obj logFields) ∧
    fetch logFields "cmd" = .str "sendlog" ∧
    Acknowledged logFields (handlerRun logReader (fixedAnswers false) 0 "log").events ∧
    ¬ Published "log" (handlerRun logReader (fixedAnswers false) 0 "log").events ∧
    (handlerRun logReader (fixedAnswers false) 0 "log").out = .error .redisError := by
  refine ⟨rfl, rfl, (acknowledged_iff rfl rfl).mpr (ack_taken false), ?_, rfl⟩
  rw [published_iff rfl rfl (ack_taken false)]
  decide

theorem log_published : Acknowledged logFields
      (handlerRun logReader (fixedAnswers true) 0 "log").events ∧
    Published "log" (handlerRun logReader (fixedAnswers true) 0 "log").events := by
  have hack := (acknowledged_iff rfl rfl).mpr (ack_taken true)
  exact ⟨hack, (acknowledged_published_iff rfl rfl).mpr (.inl rfl) hack⟩

end EvoGw.LogAcknowledgement
