import EvoGw.CommandCourses
import EvoGw.WebSocketHandler

/-!
# What a subscriber makes of its payloads

A subscriber thread is inside `subscribe` while texts are delivered to its block,
one after another. An exception that leaves the block ends the thread or makes it
subscribe again, and what is published meanwhile is lost. The block rescues
everything, also what is raised inside its mutex section. What is left of it
depends on the text alone: it does nothing, or takes the mutex in vain, or writes
one frame while it holds the mutex. So the run of a sequence of texts is the
sequence of their runs alone, each with its own outcome of the write.
-/
namespace EvoGw.SubscriberPayloads
open ThreadPrograms SoloRuns GatewayCalls JsonValues DevicesSender WebSocketHandler
open CommandDocuments CommandCourses

/-- The texts are delivered to the block one after another. -/
def onEachPublished (rt : Runtime) (sid : Sid) (ws : Option Sock) : List String → Code Unit
  | [] => pure ()
  | text :: texts => do
      onPublished rt sid ws text
      onEachPublished rt sid ws texts

/-- What has become of a subscriber thread. -/
inductive SubscriberFate where
  | listening
  | resubscribes
  | ended
  deriving DecidableEq, Repr

/-- The body of the thread from `subscribe` on, while these texts are delivered.
`Redis::CannotConnectError` ends the thread, all other exceptions make it
subscribe again; `cannotConnect` tells the two apart. -/
def listen (rt : Runtime) (sid : Sid) (ws : Option Sock) (cannotConnect : RubyError → Bool)
    (texts : List String) : Code SubscriberFate :=
  (do
    onEachPublished rt sid ws texts
    pure SubscriberFate.listening).rescue
      (fun e => pure (if cannotConnect e then .ended else .resubscribes))

/-- What is left of the block for one text, once it has found that the service is
not stopped. -/
inductive Block (ws : Option Sock) : Code Unit → Prop
  | nothing : Block ws (.done ())
  | silent : Block ws (Program.synchronize (S := sig) .subscribedChannels (.done ()))
  | framed (doc : Json) : Block ws (Program.synchronize (S := sig) .subscribedChannels
      (.act (.call (.wsSend ws doc)) (fun _ => .done ())))

/-- Writes to sockets end in this way, and no service is stopped. -/
def writing (sent : Sent) : Unit → (p : Prim sig) → Unit × p.Resp :=
  fun _ p => ((), silentDevice 0 sent p)

/-- The run for one text delivered alone, when the write of a frame ends in this
way. -/
def soloEvents (rt : Runtime) (sid : Sid) (ws : Option Sock) (text : String) (sent : Sent) :
    List (Event sig) :=
  (drive (writing sent) () (onPublished rt sid ws text)).events

section Blocks
variable {rt : Runtime} {sid : Sid} {ws : Option Sock} {p : Code Unit}

/-- Whatever a command comes to, its exceptions are rescued after the mutex was
given back. -/
theorem block_sends (h : Sends rt ws p) : Block ws
    ((Program.synchronize (S := sig) .subscribedChannels p).rescue (fun _ => .done ())) := by
  cases h with
  | document doc =>
      rw [sendWsCommand_eq]
      split_ifs
      · exact .framed doc
      · exact .silent
  | refused e => exact .silent
  | unknown => exact .silent

theorem block_payload (rt : Runtime) (ws : Option Sock) (text : String) :
    Block ws ((handlePayload rt ws text).rescue (fun _ => pure ())) := by
  unfold handlePayload parse
  cases rt.parse text with
  | none => exact .nothing
  | some payload =>
      simp only [Program.pure_eq, Program.done_bind]
      cases payload.index "cmd" with
      | error e => exact .nothing
      | ok command =>
          cases payload.index "args" with
          | error e => exact .nothing
          | ok args =>
              simp only [lift, Program.pure_eq, Program.done_bind]
              cases command.truthy with
              | false => exact .nothing
              | true => exact block_sends (sends_sendPayload command _)

/-- A block returns, and its run differs from one alone at most in the outcome of
its write. -/
theorem Block.run {σ : Type} (h : Block ws p) (env : σ → (p : Prim sig) → σ × p.Resp) (s : σ) :
    (drive env s p).out = .ok () ∧
    ∃ sent, (drive env s p).events = (drive (writing sent) () p).events := by
  cases h with
  | nothing => exact ⟨rfl, .written, rfl⟩
  | silent => exact ⟨rfl, .written, rfl⟩
  | framed doc => exact ⟨rfl, _, rfl⟩

theorem Block.written_alone (h : Block ws p) (sent : Sent) :
    written (drive (writing sent) () p).events = [] ∨
    ∃ w doc, ws = some w ∧ written (drive (writing sent) () p).events = [(w, doc)] := by
  cases h with
  | nothing => exact .inl rfl
  | silent => exact .inl rfl
  | framed doc =>
      cases ws with
      | none => exact .inl rfl
      | some w =>
          cases sent with
          | written => exact .inr ⟨w, doc, rfl, rfl⟩
          | dropped => exact .inl rfl
          | raised => exact .inl rfl

/-- A text delivered alone causes at most one frame, for the service's socket. -/
theorem written_alone (text : String) (sent : Sent) :
    (written (soloEvents rt sid ws text sent)).length ≤ 1 ∧
    ∀ frame ∈ written (soloEvents rt sid ws text sent), ws = some frame.1 := by
  have hwritten : written (soloEvents rt sid ws text sent) = [] ∨
      ∃ w doc, ws = some w ∧ written (soloEvents rt sid ws text sent) = [(w, doc)] :=
    (block_payload rt ws text).written_alone sent
  rcases hwritten with hnone | ⟨w, doc, rfl, hone⟩
  · simp [hnone]
  · simp [hone]

end Blocks

section Sequences
variable {σ : Type} {env : σ → (p : Prim sig) → σ × p.Resp} {rt : Runtime} {sid : Sid}
  {ws : Option Sock}

theorem onPublished_run (rt : Runtime) (ws : Option Sock)
    (hrun : ∀ s, (env s (.call (.stopRequested sid))).2 = false) (s : σ) (text : String) :
    (drive env s (onPublished rt sid ws text)).out = .ok () ∧
    ∃ sent, (drive env s (onPublished rt sid ws text)).events = soloEvents rt sid ws text sent := by
  have hcode : onPublished rt sid ws text = .act (.call (.stopRequested sid)) (fun stopped =>
      if stopped then .done () else (handlePayload rt ws text).rescue (fun _ => .done ())) := rfl
  obtain ⟨hout, sent, hevents⟩ :=
    (block_payload rt ws text).run env (env s (.call (.stopRequested sid))).1
  unfold soloEvents
  rw [hcode]
  simp only [drive, hrun]
  refine ⟨hout, sent, ?_⟩
  exact congrArg (List.cons _) hevents

theorem deliveries_run (rt : Runtime) (ws : Option Sock)
    (hrun : ∀ s, (env s (.call (.stopRequested sid))).2 = false) (s : σ) (texts : List String) :
    (drive env s (onEachPublished rt sid ws texts)).out = .ok () ∧
    ∃ outcomes : List Sent, outcomes.length = texts.length ∧
      (drive env s (onEachPublished rt sid ws texts)).events =
        (List.zipWith (soloEvents rt sid ws) texts outcomes).flatten := by
  induction texts generalizing s with
  | nil => exact ⟨rfl, [], rfl, rfl⟩
  | cons text texts ih =>
      obtain ⟨hout, sent, hevents⟩ := onPublished_run rt ws hrun s text
      obtain ⟨hrest, outcomes, hlength, htexts⟩ :=
        ih (drive env s (onPublished rt sid ws text)).state
      unfold onEachPublished
      rw [drive_bind, Run.andThen, hout]
      refine ⟨hrest, sent :: outcomes, congrArg (· + 1) hlength, ?_⟩
      simp only [List.zipWith_cons_cons, List.flatten_cons, hevents, htexts]

/-- While the service is not stopped, no text disturbs its thread: the thread stays
in `subscribe`, its run is the sequence of the runs of the texts alone, and so are
the frames written to its socket, at most one for each text. -/
theorem payloads_isolated (hrun : ∀ s, (env s (.call (.stopRequested sid))).2 = false) (s : σ)
    (cannotConnect : RubyError → Bool) (texts : List String) :
    (drive env s (listen rt sid ws cannotConnect texts)).out = .ok .listening ∧
    ∃ outcomes : List Sent, outcomes.length = texts.length ∧
      (drive env s (listen rt sid ws cannotConnect texts)).events =
        (List.zipWith (soloEvents rt sid ws) texts outcomes).flatten ∧
      written (drive env s (listen rt sid ws cannotConnect texts)).events =
        (List.zipWith (fun text sent => written (soloEvents rt sid ws text sent)) texts
          outcomes).flatten ∧
      ∀ text sent, (written (soloEvents rt sid ws text sent)).length ≤ 1 ∧
        ∀ frame ∈ written (soloEvents rt sid ws text sent), ws = some frame.1 := by
  obtain ⟨hout, outcomes, hlength, hevents⟩ := deliveries_run rt ws hrun s texts
  have hlisten : drive env s (listen rt sid ws cannotConnect texts) =
      ⟨(drive env s (onEachPublished rt sid ws texts)).state,
        (drive env s (onEachPublished rt sid ws texts)).events, .ok .listening⟩ := by
    have hbody : drive env s (do
        onEachPublished rt sid ws texts
        pure SubscriberFate.listening) = ⟨(drive env s (onEachPublished rt sid ws texts)).state,
          (drive env s (onEachPublished rt sid ws texts)).events, .ok .listening⟩ := by
      refine (drive_bind_pure env s _ (fun _ => SubscriberFate.listening)).trans ?_
      simp only [Run.map, hout]
      rfl
    unfold listen
    rw [drive_rescue_same, hbody]
    intro e he
    rw [hbody] at he
    cases he
  rw [hlisten]
  refine ⟨rfl, outcomes, hlength, hevents, ?_, written_alone⟩
  simp only [hevents, written, List.filterMap_flatten, List.map_zipWith]

end Sequences

/-- Two payloads that are refused, one that cannot be read and a good one. -/
def payloads : Runtime := Runtime.ofTable
  [("no args", .obj [("cmd", .str "delete_user")]), ("a list", .arr []),
   ("reboot", .obj [("cmd", .str "reboot")])]

theorem payloads_isolated_reboot :
    (drive (writing .written) () (listen payloads 0 (some 3) (fun _ => false)
      ["no args", "a list", "no JSON", "reboot"])).out = .ok .listening ∧
    written (drive (writing .written) () (listen payloads 0 (some 3) (fun _ => false)
      ["no args", "a list", "no JSON", "reboot"])).events = [(3, .obj [("cmd", .str "reboot")])] :=
  ⟨(payloads_isolated (fun _ => rfl) () _ _).1, rfl⟩

end EvoGw.SubscriberPayloads
