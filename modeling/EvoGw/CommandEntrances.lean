import EvoGw.CommandCourses
import EvoGw.WebSocketHandler

/-!
# The two entrances of a command

A command with arguments reaches a device by a POST whose body is a batch, or by
a payload published for its subscriber. The route takes the values of an object
and splats any other item. The subscriber replaces `nil` and `false` by no
arguments and splats the rest, an object into its pairs. So the two entrances
make different arguments of `false` and of an object with fields, and the same
arguments of every other value.
-/
namespace EvoGw.CommandEntrances
open ThreadPrograms SoloRuns GatewayCalls JsonValues ServerRoute WebSocketHandler
open CommandDocuments CommandCourses

/-- `*args` after `args = payload['args'] || []`. -/
def payloadArgs (a : Json) : List Json := if a.truthy then a.splat else []

/-- The frames written by a POST. -/
def postFrames (rt : Runtime) (answers : (p : Prim sig) → p.Resp) (channel command body : String) :
    List (Sock × Json) :=
  written (drive (fun _ p => ((), answers p)) () (post rt channel command body)).events

/-- The frames written by a subscriber that receives a text. -/
def payloadFrames (rt : Runtime) (answers : (p : Prim sig) → p.Resp) (sid : Sid) (w : Sock)
    (text : String) : List (Sock × Json) :=
  written (drive (fun _ p => ((), answers p)) () (onPublished rt sid (some w) text)).events

/-- Both entrances write the same frames to the socket `w`, which the channel has
and for which the service listens, whatever becomes of each write. Neither run
performs a primitive twice. -/
def Agree (rt : Runtime) (channel command body : String) (sid : Sid) (w : Sock) (text : String) :
    Prop :=
  ∀ answers : (p : Prim sig) → p.Resp, answers (.call (.connGet channel)) = some w →
    answers (.call (.stopRequested sid)) = false →
    postFrames rt answers channel command body = payloadFrames rt answers sid w text

/-- Neither `false` nor an object with fields. -/
def Plain : Json → Prop
  | .bool b => b = true
  | .obj fields => fields = []
  | _ => True

theorem args_plain {a : Json} (h : Plain a) : itemArgs a = payloadArgs a := by
  cases a with
  | bool b =>
      obtain rfl : b = true := h
      rfl
  | obj fields =>
      obtain rfl : fields = [] := h
      rfl
  | _ => rfl

section Frames
variable {rt : Runtime} {answers : (p : Prim sig) → p.Resp} {channel command body text : String}
  {sid : Sid} {w : Sock} {a : Json}

/-- A batch of one item does what its command does. -/
theorem events_single (hcommand : command ∉ commandsWithoutBody) (hbody : strip body ≠ "")
    (hparse : rt.parse (strip body) = some (.arr [a])) :
    (drive (fun _ p => ((), answers p)) () (post rt channel command body)).events =
      (commandRun rt answers channel command (itemArgs a)).events := by
  rw [events_array _ _ hcommand hbody hparse, events_one]
  rfl

theorem postFrames_eq (hcommand : command ∉ commandsWithoutBody) (hbody : strip body ≠ "")
    (hparse : rt.parse (strip body) = some (.arr [a]))
    (hw : answers (.call (.connGet channel)) = some w) :
    postFrames rt answers channel command body =
      taken answers w (frame rt command (itemArgs a)) := by
  unfold postFrames
  rw [events_single hcommand hbody hparse]
  exact written_commandRun hw

theorem payloadFrames_eq (htext : rt.parse text = some (.obj [("cmd", .str command), ("args", a)]))
    (hrun : answers (.call (.stopRequested sid)) = false) :
    payloadFrames rt answers sid w text = taken answers w (frame rt command (payloadArgs a)) := by
  have hpayload : handlePayload rt (some w) text = Program.synchronize (S := sig)
      .subscribedChannels (DevicesSender.send rt (some w) command (payloadArgs a)) := by
    unfold handlePayload parse
    rw [htext]
    rfl
  unfold payloadFrames onPublished
  simp only [call, Program.act_bind, Program.done_bind, drive]
  rw [hrun, written_skip rfl, if_neg Bool.false_ne_true, events_rescue_finished, hpayload,
    drive_synchronize _ _ (fun _ => rfl) (fun _ => rfl)]
  · simp only [List.cons_append]
    rw [written_skip rfl, written_append, written_send, written_skip rfl, written_nil,
      List.append_nil]
  · exact fun _ => trivial

end Frames

/-! ### Arguments that make a difference -/

/-- A command that needs a body needs an argument. -/
theorem no_args {command : String} (hcommand : command ∉ commandsWithoutBody) (doc : Json) :
    document command [] ≠ .ok (some doc) := by
  intro h
  obtain ⟨make, hmake, hmade⟩ := document_made h
  obtain ⟨n, -, shape⟩ := lookup_shape hmake
  cases shape with
  | none doc hname => exact hcommand hname
  | one doc _ _ => cases hmade
  | two doc _ _ => cases hmade
  | user doc _ => cases hmade

/-- Different first arguments make different documents, unless they are numbers
of a user. -/
theorem first_arg {command : String} {a b doc : Json} {as bs : List Json}
    (ha : document command (a :: as) = .ok (some doc))
    (hb : document command (b :: bs) = .ok (some doc)) :
    a = b ∨ ∃ n, DevicesSender.toI b = .ok n := by
  obtain ⟨make, hmake, hmade⟩ := document_made ha
  obtain ⟨make', hmake', hmade'⟩ := document_made hb
  obtain rfl : make = make' := Option.some.inj (hmake.symm.trans hmake')
  obtain ⟨n, -, shape⟩ := lookup_shape hmake
  cases shape with
  | none doc _ => cases hmade
  | one make _ hinj =>
      match as, bs with
      | [], [] => exact .inl (hinj a b ((Except.ok.inj hmade).trans (Except.ok.inj hmade').symm))
      | _ :: _, _ => cases hmade
      | [], _ :: _ => cases hmade'
  | two make _ hinj =>
      match as, bs with
      | [a'], [b'] =>
          exact .inl (hinj a a' b b' ((Except.ok.inj hmade).trans (Except.ok.inj hmade').symm))
      | [], _ => cases hmade
      | _ :: _ :: _, _ => cases hmade
      | [_], [] => cases hmade'
      | [_], _ :: _ :: _ => cases hmade'
  | user make _ =>
      match bs with
      | [b', b''] =>
          obtain ⟨n, hn, -⟩ := fitsUser_ok hmade'
          exact .inr ⟨n, hn⟩
      | [] => cases hmade'
      | [_] => cases hmade'
      | _ :: _ :: _ :: _ => cases hmade'

theorem pair_ne (k : String) (v : Json) : v ≠ .arr [.str k, v] := by
  intro h
  have hsize := congrArg sizeOf h
  simp only [Json.arr.sizeOf_spec, List.cons.sizeOf_spec] at hsize
  omega

/-- A value that is not plain makes different documents at the two entrances. -/
theorem documents_differ {command : String} (hcommand : command ∉ commandsWithoutBody)
    {a doc : Json} (ha : ¬ Plain a) (hitem : document command (itemArgs a) = .ok (some doc)) :
    document command (payloadArgs a) ≠ .ok (some doc) := by
  intro hpayload
  cases a with
  | bool b =>
      obtain rfl : b = false := Bool.eq_false_iff.mpr ha
      exact no_args hcommand doc hpayload
  | obj fields =>
      cases fields with
      | nil => exact ha rfl
      | cons field fields =>
          rcases first_arg hitem hpayload with heq | ⟨n, hn⟩
          · exact pair_ne field.1 field.2 heq
          · cases hn
  | _ => exact ha trivial

/-- A socket that works takes every frame. -/
theorem taken_working (w : Sock) (doc : Option Json) :
    taken (silentDevice w .written) w doc = doc.toList.map (fun doc => (w, doc)) := by
  cases doc <;> rfl

/-- The two entrances agree on a value exactly if it is neither `false` nor an
object with fields, or makes no frame at either of them. -/
theorem entrances_agree_iff {rt : Runtime} {channel command body text : String} {a : Json}
    (sid : Sid) (w : Sock) (hcommand : command ∉ commandsWithoutBody) (hbody : strip body ≠ "")
    (hparse : rt.parse (strip body) = some (.arr [a]))
    (htext : rt.parse text = some (.obj [("cmd", .str command), ("args", a)])) :
    Agree rt channel command body sid w text ↔
      Plain a ∨ frame rt command (itemArgs a) = none ∧ frame rt command (payloadArgs a) = none := by
  constructor
  · intro agree
    by_cases ha : Plain a
    · exact .inl ha
    have hframes := agree (silentDevice w .written) rfl rfl
    rw [postFrames_eq hcommand hbody hparse rfl, payloadFrames_eq htext rfl, taken_working,
      taken_working] at hframes
    cases hitem : frame rt command (itemArgs a) with
    | none =>
        cases hpayload : frame rt command (payloadArgs a) with
        | none => exact .inr ⟨rfl, rfl⟩
        | some doc => simp [hitem, hpayload] at hframes
    | some doc =>
        cases hpayload : frame rt command (payloadArgs a) with
        | none => simp [hitem, hpayload] at hframes
        | some doc' =>
            obtain rfl : doc = doc' := by simpa [hitem, hpayload] using hframes
            exact absurd (document_of_frame hpayload).1
              (documents_differ hcommand ha (document_of_frame hitem).1)
  · rintro (ha | ⟨hitem, hpayload⟩) answers hw hrun
    · rw [postFrames_eq hcommand hbody hparse hw, payloadFrames_eq htext hrun, args_plain ha]
    · rw [postFrames_eq hcommand hbody hparse hw, payloadFrames_eq htext hrun, hitem, hpayload]

/-- Bodies and payloads for one command. -/
def desk : Runtime := Runtime.ofTable
  [("number", .arr [.int 7]),
   ("number published", .obj [("cmd", .str "delete_user"), ("args", .int 7)]),
   ("object", .arr [.obj [("user", .int 7)]]),
   ("object published", .obj [("cmd", .str "delete_user"), ("args", .obj [("user", .int 7)])]),
   ("false", .arr [.bool false]),
   ("false published", .obj [("cmd", .str "delete_user"), ("args", .bool false)])]

theorem strip_desk : strip "number" = "number" ∧ strip "object" = "object" ∧
    strip "false" = "false" := by
  unfold strip
  decide

theorem entrances_agree_number : Agree desk "A" "delete_user" "number" 0 0 "number published" :=
  (entrances_agree_iff 0 0 (by decide) (by rw [strip_desk.1]; decide)
    (by rw [strip_desk.1]; rfl) rfl).mpr (.inl (show Plain (.int 7) from trivial))

/-- The route deletes user 7, the subscriber the user `["user", 7]`; and only the
route deletes the user `false`. -/
theorem entrances_differ :
    ¬ Agree desk "A" "delete_user" "object" 0 0 "object published" ∧
    ¬ Agree desk "A" "delete_user" "false" 0 0 "false published" := by
  obtain ⟨-, hobject, hfalse⟩ := strip_desk
  have differ : ∀ {body text : String} {a : Json}, strip body = body → body ≠ "" →
      desk.parse body = some (.arr [a]) →
      desk.parse text = some (.obj [("cmd", .str "delete_user"), ("args", a)]) →
      taken (silentDevice 0 .written) 0 (frame desk "delete_user" (itemArgs a)) ≠
        taken (silentDevice 0 .written) 0 (frame desk "delete_user" (payloadArgs a)) →
      ¬ Agree desk "A" "delete_user" body 0 0 text := by
    intro body text a hstrip hne hbody htext hdiffer agree
    have hframes := agree (silentDevice 0 .written) rfl rfl
    rw [postFrames_eq (by decide) (by rw [hstrip]; exact hne) (by rw [hstrip]; exact hbody) rfl,
      payloadFrames_eq htext rfl] at hframes
    exact hdiffer hframes
  exact ⟨differ hobject (by decide) rfl rfl (by decide),
    differ hfalse (by decide) rfl rfl (by decide)⟩

end EvoGw.CommandEntrances
