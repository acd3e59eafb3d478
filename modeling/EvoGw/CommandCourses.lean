import EvoGw.ServerRoute
import EvoGw.CommandDocuments
import EvoGw.SoloRuns

/-!
# The courses of one command

`handle_ws_command` has few ways to go. The device is not connected; or the
arguments do not fit the command and it raises; or it has passed `send`, with or
without handing a frame to the socket, and then the Redis connection fails or
BLPOP is issued and answered. `Course` lists them, with the trace and the outcome
of each, and every complete run of the command is one of them.
-/
namespace EvoGw.CommandCourses
open ThreadPrograms SoloRuns GatewayCalls JsonValues DevicesSender ServerRoute CommandDocuments

/-- The frame of a call that a socket has taken. -/
def written? : Event sig → Option (Sock × Json)
  | ⟨.call (.wsSend (some w) doc), r⟩ => if r = Sent.written then some (w, doc) else none
  | _ => none

def written (events : List (Event sig)) : List (Sock × Json) := events.filterMap written?

@[simp] theorem written_nil : written [] = [] := rfl

@[simp] theorem written_append (tr tr' : List (Event sig)) :
    written (tr ++ tr') = written tr ++ written tr' := List.filterMap_append

theorem written_skip {e : Event sig} (h : written? e = none) (tr : List (Event sig)) :
    written (e :: tr) = written tr := List.filterMap_cons_none h

theorem written_frame (w : Sock) (doc : Json) (r : Sent) :
    written [⟨.call (.wsSend (some w) doc), r⟩] = if r = .written then [(w, doc)] else [] := by
  unfold written
  split_ifs with h
  · exact List.filterMap_cons_some (if_pos h)
  · exact List.filterMap_cons_none (if_neg h)

/-- What BLPOP's answer makes of a command. -/
def readReply (rt : Runtime) : Awaited String → Except RubyError Result
  | .got raw =>
      match rt.parse raw with
      | some v => .ok (.device v)
      | none => .error .parserError
  | .timedOut => .ok noAnswer
  | .failed => .error .redisError

/-- `send` has returned after these events. -/
inductive Passes (rt : Runtime) (command : String) (args : List Json) (w : Sock) :
    List (Event sig) → Prop
  | framed (doc : Json) (r : Sent) : frame rt command args = some doc →
      Passes rt command args w [⟨.call (.wsSend (some w) doc), r⟩]
  | silent (doc : Option Json) : frame rt command args = none →
      document command args = .ok doc → Passes rt command args w []

inductive Course (rt : Runtime) (channel command : String) (args : List Json) :
    List (Event sig) → Except RubyError Result → Prop
  | absent : Course rt channel command args [⟨.call (.connGet channel), none⟩] (.ok notConnected)
  | refused (w : Sock) (e : RubyError) : document command args = .error e →
      Course rt channel command args [⟨.call (.connGet channel), some w⟩] (.error e)
  | offline (w : Sock) (sent : List (Event sig)) : Passes rt command args w sent →
      Course rt channel command args
        (⟨.call (.connGet channel), some w⟩ :: (sent ++ [⟨.call .redisNew, false⟩]))
        (.error .redisError)
  | waited (w : Sock) (sent : List (Event sig)) (reply : Awaited String) :
      Passes rt command args w sent →
      Course rt channel command args (⟨.call (.connGet channel), some w⟩ ::
        (sent ++ [⟨.call .redisNew, true⟩, ⟨.await (responseKey channel), reply⟩]))
        (readReply rt reply)

section Courses
variable {rt : Runtime} {channel command : String} {args : List Json} {tr : List (Event sig)}
  {w : Sock}

theorem Passes.isCall {sent : List (Event sig)} (h : Passes rt command args w sent) :
    ∀ e ∈ sent, e.prim.IsCall := by
  cases h with
  | framed doc r _ =>
      intro e he
      rw [List.mem_singleton.mp he]
      trivial
  | silent _ _ _ => simp

/-- A command that has passed `send` has arguments that fit. -/
theorem Passes.fits {sent : List (Event sig)} (h : Passes rt command args w sent) :
    Fits command args := by
  rw [fits_iff]
  cases h with
  | framed doc _ hf => exact ⟨some doc, (document_of_frame hf).1⟩
  | silent doc _ hd => exact ⟨doc, hd⟩

theorem behaves_replyOf {reply : Awaited String} {out : Except RubyError Result}
    (h : Behaves (replyOf rt reply) tr out) : tr = [] ∧ out = readReply rt reply := by
  cases reply with
  | timedOut => exact h
  | failed => exact h
  | got raw =>
      simp only [replyOf, parse] at h
      simp only [readReply]
      cases hp : rt.parse raw with
      | none =>
          rw [hp] at h
          exact h
      | some v =>
          rw [hp] at h
          exact h

theorem behaves_awaitReply {out : Except RubyError Result}
    (h : Behaves (awaitReply rt channel) tr out) :
    (tr = [⟨.call .redisNew, false⟩] ∧ out = .error .redisError) ∨
    ∃ reply, tr = [⟨.call .redisNew, true⟩, ⟨.await (responseKey channel), reply⟩] ∧
      out = readReply rt reply := by
  rw [awaitReply_eq] at h
  obtain ⟨opened, tr', rfl, h⟩ := h
  cases opened with
  | false =>
      obtain ⟨rfl, rfl⟩ := h
      exact .inl ⟨rfl, rfl⟩
  | true =>
      obtain ⟨reply, tr'', rfl, h⟩ := h
      obtain ⟨rfl, rfl⟩ := behaves_replyOf h
      exact .inr ⟨reply, rfl, rfl⟩

theorem course_of_passes {sent rest : List (Event sig)} {out : Except RubyError Result}
    (hsent : Passes rt command args w sent) (h : Behaves (awaitReply rt channel) rest out) :
    Course rt channel command args (⟨.call (.connGet channel), some w⟩ :: (sent ++ rest)) out := by
  rcases behaves_awaitReply h with ⟨rfl, rfl⟩ | ⟨reply, rfl, rfl⟩
  · exact .offline w sent hsent
  · exact .waited w sent reply hsent

/-- Every complete run of a command takes one of the courses. -/
theorem course_of_behaves {out : Except RubyError Result}
    (h : Behaves (handleWsCommand rt channel command args) tr out) :
    Course rt channel command args tr out := by
  rw [handleWsCommand_eq] at h
  obtain ⟨found, tr', rfl, h⟩ := h
  cases found with
  | none =>
      obtain ⟨rfl, rfl⟩ := h
      exact .absent
  | some w =>
      cases hf : frame rt command args with
      | some doc =>
          simp only [send_frame hf] at h
          obtain ⟨r, rest, rfl, h⟩ := h
          exact course_of_passes (.framed doc r hf) h
      | none =>
          simp only [send_silent hf] at h
          cases hd : document command args with
          | error e =>
              rw [hd] at h
              obtain ⟨rfl, rfl⟩ := h
              exact .refused w e hd
          | ok doc =>
              rw [hd] at h
              exact course_of_passes (.silent doc hf hd) h

/-- Before BLPOP and the opening of the connection, all frames are out. -/
theorem written_waited (sent : List (Event sig)) (reply : Awaited String) :
    written (⟨.call (.connGet channel), some w⟩ ::
      (sent ++ [⟨.call .redisNew, true⟩, ⟨.await (responseKey channel), reply⟩])) =
      written sent := by
  rw [written_skip rfl, written_append, written_skip rfl, written_skip rfl, written_nil,
    List.append_nil]

theorem written_offline (sent : List (Event sig)) :
    written (⟨.call (.connGet channel), some w⟩ :: (sent ++ [⟨.call .redisNew, false⟩])) =
      written sent := by
  rw [written_skip rfl, written_append, written_skip rfl, written_nil, List.append_nil]

end Courses

section Bodies
variable {σ : Type} (env : σ → (p : Prim sig) → σ × p.Resp) (s : σ) {rt : Runtime}
  {channel command body : String}

theorem events_post (hcommand : command ∉ commandsWithoutBody) :
    (drive env s (post rt channel command body)).events =
      (drive env s (postBody rt channel command body)).events := by
  unfold post
  rw [if_neg hcommand]
  exact events_rescue_finished _ _ _ (fun e => by split_ifs <;> trivial)

/-- Around the loop over an array the route performs nothing. -/
theorem events_array (hcommand : command ∉ commandsWithoutBody) (hbody : strip body ≠ "")
    {items : List Json} (hparse : rt.parse (strip body) = some (.arr items)) :
    (drive env s (post rt channel command body)).events =
      (drive env s (batch rt channel command 0 items)).events := by
  rw [events_post env s hcommand, postBody_array hbody hparse, events_bind_finished]
  exact fun responses => (finished_lift _).bind (fun _ => trivial)

theorem events_value (hcommand : command ∉ commandsWithoutBody) (hbody : strip body ≠ "")
    {v : Json} (hparse : rt.parse (strip body) = some v) (hv : ∀ items, v ≠ .arr items) :
    (drive env s (post rt channel command body)).events =
      (drive env s (handleWsCommand rt channel command (itemArgs v))).events := by
  rw [events_post env s hcommand, postBody_value hbody hparse hv, events_bind_finished]
  exact fun response => (finished_lift _).bind (fun _ => trivial)

/-- The batch of one item does what its command does. -/
theorem events_one (index : ℕ) (item : Json) :
    (drive env s (batch rt channel command index [item])).events =
      (drive env s (handleWsCommand rt channel command (itemArgs item))).events := by
  unfold batch
  rw [events_bind_finished]
  exact fun result => (finished_lift _).bind (fun _ => trivial)

end Bodies

section Answers
variable {rt : Runtime} (answers : (p : Prim sig) → p.Resp)

/-- One command, with every answer of its surroundings. It performs each
primitive at most once, so a function gives all possible answers. -/
def commandRun (rt : Runtime) (answers : (p : Prim sig) → p.Resp) (channel command : String)
    (args : List Json) : Run sig Unit Result :=
  drive (fun _ p => ((), answers p)) () (handleWsCommand rt channel command args)

/-- The device of socket `w` is connected and never replies; writes to it end in
this way. -/
def silentDevice (w : Sock) (sent : Sent) : (p : Prim sig) → p.Resp
  | .call (.connGet _) => some w
  | .call (.wsSend _ _) => sent
  | .call c => (perform World.start {} c).2
  | .acquire _ => ()
  | .release _ => ()
  | .push _ _ => true
  | .clear _ => true
  | .await _ => .timedOut

theorem events_answers {A : Type} (p : Code A) :
    ∀ e ∈ (drive (fun _ p => ((), answers p)) () p).events, e.resp = answers e.prim := by
  intro e he
  obtain ⟨-, h⟩ := events_answered _ _ p e he
  exact h

/-- What is written of a frame, if there is one: a socket that takes it has it. -/
def taken (w : Sock) : Option Json → List (Sock × Json)
  | none => []
  | some doc => if answers (.call (.wsSend (some w) doc)) = Sent.written then [(w, doc)] else []

variable {answers} {channel command : String} {args : List Json} {w : Sock}

theorem written_passes {sent : List (Event sig)} (hsent : Passes rt command args w sent)
    (hans : ∀ e ∈ sent, e.resp = answers e.prim) :
    written sent = taken answers w (frame rt command args) := by
  cases hsent with
  | framed doc r hf =>
      have hr : r = answers (.call (.wsSend (some w) doc)) := hans _ List.mem_cons_self
      rw [hf, written_frame, hr]
      rfl
  | silent _ hf _ =>
      rw [hf]
      rfl

theorem written_send (args : List Json) :
    written (drive (fun _ p => ((), answers p)) () (send rt (some w) command args)).events =
      taken answers w (frame rt command args) := by
  cases hf : frame rt command args with
  | none =>
      rw [send_silent hf]
      cases (document command args).map (fun _ => ()) <;> rfl
  | some doc =>
      rw [send_frame hf]
      exact written_frame w doc (answers (.call (.wsSend (some w) doc)))

/-- What holds of the events of every course with these answers holds of a run. -/
theorem commandRun_cases {P : List (Event sig) → Prop}
    (h : ∀ events out, Course rt channel command args events out →
      (∀ e ∈ events, e.resp = answers e.prim) → P events) :
    P (commandRun rt answers channel command args).events :=
  h _ _ (course_of_behaves (behaves_drive _ _ _)) (events_answers answers _)

/-- The frames which a command writes to a connected device. -/
theorem written_commandRun (hw : answers (.call (.connGet channel)) = some w) :
    written (commandRun rt answers channel command args).events =
      taken answers w (frame rt command args) := by
  refine commandRun_cases (P := fun events => written events = _)
    (fun events out course hans => ?_)
  have first : ∀ {found : Option Sock} {rest : List (Event sig)},
      events = ⟨.call (.connGet channel), found⟩ :: rest → found = some w := by
    rintro found rest rfl
    exact (hans _ List.mem_cons_self).trans hw
  cases course with
  | absent => cases first rfl
  | refused w' e he =>
      rw [frame_of_error rt he]
      rfl
  | offline w' sent hsent =>
      cases first rfl
      rw [written_offline]
      exact written_passes hsent
        (fun e he => hans e (List.mem_cons_of_mem _ (List.mem_append_left _ he)))
  | waited w' sent reply hsent =>
      cases first rfl
      rw [written_waited]
      exact written_passes hsent
        (fun e he => hans e (List.mem_cons_of_mem _ (List.mem_append_left _ he)))

end Answers

end EvoGw.CommandCourses
