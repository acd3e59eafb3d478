import EvoGw.CommandCourses

/-!
# Waiting for the reply to a command

`handle_ws_command` issues BLPOP once `Devices::Sender.send` has returned. That
it has returned does not mean that a frame went out: an unknown command is only
logged, and `send_ws_command` swallows a document that cannot be encoded and a
write that raises. In all these cases the request waits for the reply to a
command which the device never got.
-/
namespace EvoGw.AwaitedCommands
open ThreadPrograms SoloRuns GatewayCalls JsonValues ServerRoute CommandDocuments CommandCourses

/-- BLPOP was issued. -/
def Waits (events : List (Event sig)) : Prop := ∃ key reply, ⟨.await key, reply⟩ ∈ events

/-- Exactly one frame was written, to the socket which the lookup has found. -/
def WroteOne (channel : String) (events : List (Event sig)) : Prop :=
  ∃ w doc, ⟨.call (.connGet channel), some w⟩ ∈ events ∧ written events = [(w, doc)]

/-- The frame of the command can be encoded, and the socket takes it. -/
def FrameTaken (rt : Runtime) (answers : (p : Prim sig) → p.Resp) (command : String)
    (args : List Json) (w : Sock) : Prop :=
  ∃ doc, frame rt command args = some doc ∧ answers (.call (.wsSend (some w) doc)) = Sent.written

/-- A command to a connected device whose Redis connection opens has arguments
that do not fit, or its frame is taken. -/
def Sendable (rt : Runtime) (answers : (p : Prim sig) → p.Resp) (channel command : String)
    (args : List Json) : Prop :=
  ∀ w, answers (.call (.connGet channel)) = some w → answers (.call .redisNew) = true →
    ¬ Fits command args ∨ FrameTaken rt answers command args w

section Runs
variable {rt : Runtime} {answers : (p : Prim sig) → p.Resp} {channel command : String}
  {args : List Json}

theorem not_waits {events : List (Event sig)} (h : ∀ e ∈ events, e.prim.IsCall) :
    ¬ Waits events := by
  rintro ⟨key, reply, hm⟩
  exact h _ hm

/-- What is written by a command that has issued BLPOP. -/
theorem wroteOne_iff {w : Sock} {sent : List (Event sig)} (channel : String)
    (reply : Awaited String) (hsent : Passes rt command args w sent)
    (hans : ∀ e ∈ sent, e.resp = answers e.prim) :
    WroteOne channel (⟨.call (.connGet channel), some w⟩ ::
        (sent ++ [⟨.call .redisNew, true⟩, ⟨.await (responseKey channel), reply⟩])) ↔
      FrameTaken rt answers command args w := by
  unfold WroteOne FrameTaken
  rw [written_waited, written_passes hsent hans]
  cases frame rt command args with
  | none =>
      constructor
      · rintro ⟨w', doc, -, hw⟩
        cases hw
      · rintro ⟨doc, hdoc, -⟩
        cases hdoc
  | some doc =>
      simp only [taken]
      constructor
      · rintro ⟨w', doc', -, hw⟩
        split_ifs at hw with htaken
        exact ⟨doc, rfl, htaken⟩
      · rintro ⟨doc', hdoc, htaken⟩
        cases hdoc
        exact ⟨w, doc, List.mem_cons_self, if_pos htaken⟩

/-- A command waits only for a frame which it has written, exactly if it is
sendable. -/
theorem waits_for_sent_iff (rt : Runtime) (answers : (p : Prim sig) → p.Resp)
    (channel command : String) (args : List Json) :
    (Waits (commandRun rt answers channel command args).events →
      WroteOne channel (commandRun rt answers channel command args).events) ↔
    Sendable rt answers channel command args := by
  refine commandRun_cases (P := fun events => (Waits events → WroteOne channel events) ↔ _)
    (fun events out course hans => ?_)
  cases course with
  | absent =>
      have hfound : none = answers (.call (.connGet channel)) := hans _ List.mem_cons_self
      refine ⟨fun _ w hw => ?_, fun _ hwaits => absurd hwaits (not_waits (by simp [Prim.IsCall]))⟩
      cases hfound.trans hw
  | refused w e he =>
      exact ⟨fun _ _ _ _ => .inl (not_fits he),
        fun _ hwaits => absurd hwaits (not_waits (by simp [Prim.IsCall]))⟩
  | offline w sent hsent =>
      have hopened : false = answers (.call .redisNew) :=
        hans _ (List.mem_cons_of_mem _ (List.mem_append_right _ List.mem_cons_self))
      refine ⟨fun _ _ _ h => ?_, fun _ hwaits => absurd hwaits (not_waits ?_)⟩
      · cases hopened.trans h
      · simpa [Prim.IsCall, or_imp, forall_and] using hsent.isCall
  | waited w sent reply hsent =>
      have hfound : some w = answers (.call (.connGet channel)) := hans _ List.mem_cons_self
      have hopened : true = answers (.call .redisNew) :=
        hans _ (List.mem_cons_of_mem _ (List.mem_append_right _ List.mem_cons_self))
      rw [wroteOne_iff channel reply hsent
        (fun e he => hans e (List.mem_cons_of_mem _ (List.mem_append_left _ he)))]
      constructor
      · intro h w' hw' _
        obtain rfl : w = w' := Option.some.inj (hfound.trans hw')
        exact .inr (h ⟨responseKey channel, reply, by simp⟩)
      · intro h _
        exact (h w hfound.symm hopened.symm).resolve_left (fun hno => hno hsent.fits)

/-- A command that the table does not have, and one whose write raises, are both
waited for. -/
theorem waits_unsent :
    let run := fun command =>
      (commandRun (Runtime.ofTable []) (silentDevice 0 .raised) "A" command []).events
    (Waits (run "open_door") ∧ ¬ WroteOne "A" (run "open_door")) ∧
    (Waits (run "reboot") ∧ ¬ WroteOne "A" (run "reboot")) := by
  have none_written : ∀ {events : List (Event sig)}, written events = [] →
      ¬ WroteOne "A" events := by
    rintro events hnone ⟨w, doc, -, hw⟩
    rw [hnone] at hw
    cases hw
  refine ⟨⟨⟨responseKey "A", .timedOut, ?_⟩, none_written rfl⟩,
    ⟨⟨responseKey "A", .timedOut, ?_⟩, none_written rfl⟩⟩
  · exact List.mem_of_getElem? (show _[2]? = _ from rfl)
  · exact List.mem_of_getElem? (show _[3]? = _ from rfl)

end Runs

end EvoGw.AwaitedCommands
