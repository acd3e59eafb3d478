import EvoGw.GatewayProgress
import EvoGw.ReplyHandoff

/-!
# How long a subscriber lives

`RedisSubscriberService#stop` is nowhere called: the close handler forgets the socket
and leaves its service alone. So a subscriber that runs goes on running, for the same
channel and the same socket, until its own thread loses Redis. In particular it
outlives its connection, and no published command is ever skipped because a stop was
requested.
-/
namespace EvoGw.SubscriberLives
open ThreadPrograms ThreadPools PoolTraces GatewayCalls JsonValues WebSocketHandler ServerRoute
open GatewayPool GatewayProgress
open DevicesSender (IsSend)

/-- The primitive stops no subscriber, but for the end of the thread's own. -/
def Spares (kind : Kind) : Prim sig → Prop
  | .call (.threadKill _) => False
  | .call (.requestStop _) => False
  | .call (.threadEnd sid) => kind = .disconnected sid
  | _ => True

theorem spares_send {kind : Kind} {ws : Option Sock} {p : Prim sig} (h : IsSend ws p) :
    Spares kind p := by
  obtain ⟨doc, rfl⟩ := h
  trivial

/-- Only the end of a subscriber's own thread takes a subscriber away. -/
theorem spares_primitive {rt : Runtime} {kind : Kind} {p : Prim sig} (h : Primitive rt kind p) :
    Spares kind p := by
  cases kind with
  | opened w => cases h <;> trivial
  | closed w => cases h <;> trivial
  | message w data =>
      cases h with
      | handOver message sn _ _ h => cases h <;> trivial
      | registerRoute sn h => cases h <;> trivial
      | conclusion sn h =>
          cases h with
          | answer ws h => rcases h with rfl | ⟨doc, rfl⟩ <;> trivial
          | startSubscriber h =>
              cases h with
              | start sid h => rcases h with rfl | rfl | rfl | rfl | rfl | rfl <;> trivial
              | _ => trivial
          | _ => trivial
  | post channel command body =>
      cases h with
      | send w h => exact spares_send h
      | _ => trivial
  | command sid text =>
      obtain ⟨ws, h⟩ := h
      cases h with
      | send h => exact spares_send h
      | _ => trivial
  | disconnected sid =>
      obtain ⟨registry, channel, h⟩ := h
      cases h with
      | threadEnd => rfl
      | _ => trivial

theorem spares_enter (rt : Runtime) (w : World) (t : Tid) (kind : Kind) (w' : World)
    (p : Code Out) (h : (gateway rt).enter w t kind = some (w', p)) : Uses (Spares kind) p :=
  (uses_enter rt w t kind w' p h).mono (fun _ hp => spares_primitive hp)

/-- A call that spares a running service leaves it as it is. -/
theorem perform_spares {world : World} {choice : Choice} {c : Call} {kind : Kind} {sid : Sid}
    {v : Service} (hc : Spares kind (.call c)) (hkind : kind ≠ .disconnected sid)
    (hv : world.services[sid]? = some v) (halive : v.thread = .alive) :
    (perform world choice c).1.services[sid]? = some v := by
  cases c with
  | newService registry channel ws =>
      have hlt := (List.getElem?_eq_some_iff.mp hv).choose
      exact (List.getElem?_append_left hlt).trans hv
  | threadNew sid' =>
      refine (getElem?_setService world sid sid' _).trans ?_
      rw [hv, Option.map_some, ← halive, ite_self]
  | threadEnd sid' =>
      have hsid : sid' ≠ sid := by
        rintro rfl
        exact hkind hc
      refine (getElem?_setService world sid sid' _).trans ?_
      rw [hv, Option.map_some, if_neg hsid]
  | threadKill sid' => exact hc.elim
  | requestStop sid' => exact hc.elim
  | connDelete key => cases key <;> exact hv
  | wsSend ws doc => cases ws <;> exact hv
  | _ => exact hv

/-- A call that spares all services requests no stop. -/
theorem perform_unstopped {world : World} {choice : Choice} {c : Call} {kind : Kind}
    (hc : Spares kind (.call c)) (hold : ∀ v ∈ world.services, v.stopRequested = false) :
    ∀ v ∈ (perform world choice c).1.services, v.stopRequested = false := by
  have kept : ∀ sid' (f : Service → Service), (∀ v, (f v).stopRequested = v.stopRequested) →
      ∀ v ∈ (world.setService sid' f).services, v.stopRequested = false := by
    intro sid' f hf v hv
    obtain ⟨sid, hsid⟩ := List.mem_iff_getElem?.mp hv
    rw [getElem?_setService] at hsid
    obtain ⟨v₀, hv₀, rfl⟩ := Option.map_eq_some_iff.mp hsid
    have hfalse := hold v₀ (List.mem_of_getElem? hv₀)
    split_ifs
    · rw [hf, hfalse]
    · exact hfalse
  cases c with
  | newService registry channel ws =>
      intro v hv
      rcases List.mem_append.mp hv with hv | hv
      · exact hold v hv
      · rw [List.mem_singleton.mp hv]
  | threadNew sid => exact kept sid _ (fun _ => rfl)
  | threadEnd sid => exact kept sid _ (fun _ => rfl)
  | threadKill sid => exact hc.elim
  | requestStop sid => exact hc.elim
  | connDelete key => cases key <;> exact hold
  | wsSend ws doc => cases ws <;> exact hold
  | _ => exact hold

section Runs
variable {rt : Runtime} {ls : List (Label (gateway rt))} {s s' : State (gateway rt)}

/-- The thread of this service has lost Redis. -/
def Lost (s : State (gateway rt)) (sid : Sid) : Prop :=
  ∃ (t : Tid) (p : Code Out), s.threads[t]? = some ⟨.disconnected sid, p⟩

theorem Lost.step {l : Label (gateway rt)} {o : Obs (gateway rt)} {sid : Sid} (wf : Wf s)
    (h : Step s l o s') (hlost : Lost s sid) : Lost s' sid := by
  obtain ⟨t, p, ht⟩ := hlost
  obtain ⟨q, hq⟩ := step_kind wf h ht
  exact ⟨t, q, hq⟩

/-- A call which is about to be made is one that threads of this kind make. -/
theorem next_spares (h : exec (boot rt) ls = some s) {t : Tid} {kind : Kind} {c : Call}
    {k : c.Resp → Code Out} (ht : s.threads[t]? = some ⟨kind, .act (.call c) k⟩) :
    Spares kind (.call c) := by
  obtain ⟨u, u', p, henter, hres⟩ := exec_residual h ht
  exact (hres.uses (spares_enter rt _ _ _ _ _ henter)).2.1

theorem step_runs (h : exec (boot rt) ls = some s) {l : Label (gateway rt)}
    {o : Obs (gateway rt)} (hstep : Step s l o s') {sid : Sid} {v : Service}
    (hlost : ¬ Lost s sid) (hv : s.world.services[sid]? = some v) (halive : v.thread = .alive) :
    s'.world.services[sid]? = some v := by
  rcases step_calls hstep with hworld | ⟨t, kind, c, k, choice, ht, -, hworld⟩
  · rw [hworld]
    exact hv
  · rw [hworld]
    refine perform_spares (next_spares h ht) ?_ hv halive
    rintro rfl
    exact hlost ⟨t, _, ht⟩

theorem services_unstopped (h : exec (boot rt) ls = some s) :
    ∀ v ∈ s.world.services, v.stopRequested = false := by
  refine exec_induction (P := fun _ (s : State (gateway rt)) =>
    ∀ v ∈ s.world.services, v.stopRequested = false) (by simp [boot, initial, World.start]) ?_ h
  intro ls s l o s' hs ih hstep
  rcases step_calls hstep with hworld | ⟨t, kind, c, k, choice, ht, -, hworld⟩
  · rw [hworld]
    exact ih
  · rw [hworld]
    exact perform_unstopped (next_spares hs ht) ih

/-- A subscriber that runs goes on as it is, whatever else happens, until its thread
has lost Redis, and nobody has asked it to stop. -/
theorem subscriber_lives (h : exec (boot rt) ls = some s) {ls' : List (Label (gateway rt))}
    (h' : exec s ls' = some s') {sid : Sid} {v : Service}
    (hv : s.world.services[sid]? = some v) (halive : v.thread = .alive)
    (hlost : ¬ Lost s' sid) :
    s'.world.services[sid]? = some v ∧ v.stopRequested = false := by
  refine ⟨?_, services_unstopped h v (List.mem_of_getElem? hv)⟩
  refine exec_induction (P := fun _ (s : State (gateway rt)) => ¬ Lost s sid →
    s.world.services[sid]? = some v) (fun _ => hv) ?_ h' hlost
  intro ls₁ s₁ l o s₂ h₁ ih hstep hlost
  have hreach := exec_trans h h₁
  have hbefore : ¬ Lost s₁ sid := fun hl => hlost (hl.step (exec_wf hreach) hstep)
  exact step_runs hreach hstep hbefore (ih hbefore) halive

end Runs

/-- The reader's socket closes. -/
def closing : List (Label (gateway ReplyHandoff.reader)) := .enter (.closed 0) :: turns 2 6

/-- The subscriber of the registration still runs for the closed socket. -/
theorem subscriber_lives_closed : ∃ s', exec (after ReplyHandoff.registration) closing = some s' ∧
    s'.world.services[0]? = some ⟨0, .str "A", some 0, .alive, false⟩ := by
  have h : exec (boot ReplyHandoff.reader) ReplyHandoff.registration =
      some (after ReplyHandoff.registration) := rfl
  have h' : exec (after ReplyHandoff.registration) closing =
      some (after (ReplyHandoff.registration ++ closing)) := rfl
  have kinds : (after (ReplyHandoff.registration ++ closing)).threads.map Thread.kind =
      [.opened 0, .message 0 "reg", .closed 0] := rfl
  refine ⟨_, h', (subscriber_lives h h' rfl rfl ?_).1⟩
  rintro ⟨t, p, ht⟩
  have hmem := List.mem_map_of_mem (f := Thread.kind) (List.mem_of_getElem? ht)
  rw [kinds] at hmem
  simp at hmem

end EvoGw.SubscriberLives
