import EvoGw.WebSocketHandler
import EvoGw.PoolTraces
import EvoGw.StepConditions

/-!
# Concurrent calls of start

Service objects that share a registry are made, and `start` is called on them,
at any time and in any number; nothing else happens to them. The calls run step
by step: the membership test is one mutex section, the test of the thread comes
next, then the insertion in a second section and the creation of the thread.

Two calls may both pass the membership test before either inserts the channel,
and then both create a thread. If every insertion meets a registry without the
channel, at most one service has a running thread for it: each created thread is
preceded by an insertion of the same call.
-/
namespace EvoGw.ConcurrentStarts
open ThreadPrograms ThreadPools PoolTraces StepConditions GatewayCalls JsonValues
open WebSocketHandler (start IsStart uses_start)

/-- A call of `start` is given with the fields of its service. -/
inductive StartKind where
  | made (registry : Sock) (channel : Json) (ws : Option Sock)
  | start (sid : Sid) (registry : Sock) (channel : Json)
  deriving DecidableEq

def startProgram : StartKind → Code Unit
  | .made _ _ _ => pure ()
  | .start sid registry channel => start sid registry channel

/-- A call of `start` needs its service; making a service is one step. -/
def enterStart (world : World) : StartKind → Option World
  | .made registry channel ws => some (perform world {} (.newService registry channel ws)).1
  | .start sid registry channel =>
      match world.services[sid]? with
      | some v => if v.registry = registry ∧ v.channel = channel then some world else none
      | none => none

@[reducible] def starts : Semantics sig where
  World := World
  Choice := Choice
  Kind := StartKind
  Out := Unit
  fails := Choice.fails
  perform := fun w _ c choice => perform w choice c
  enter := fun w _ kind => (enterStart w kind).map (fun w' => (w', startProgram kind))

def startsBoot : State starts := initial World.start

/-- Two services whose threads both run for one channel. -/
def Rivals (v v' : Service) : Prop :=
  v.thread = .alive ∧ v'.thread = .alive ∧ v.entry = v'.entry

instance (v v' : Service) : Decidable (Rivals v v') := inferInstanceAs (Decidable (_ ∧ _ ∧ _))

/-- At most one service has a running thread for its channel. -/
def AtMostOne (s : State starts) : Prop := s.world.services.Pairwise (fun v v' => ¬ Rivals v v')

instance (s : State starts) : Decidable (AtMostOne s) :=
  inferInstanceAs (Decidable (List.Pairwise _ _))

/-- The entry which a primitive inserts. -/
def inserted : Prim sig → Option (Sock × Json)
  | .call (.register registry channel) => some (registry, channel.eqlKey)
  | _ => none

/-- An insertion meets a registry without its entry. -/
def Fresh (s : State starts) (l : Label starts) : Prop :=
  ∀ entry ∈ (next? s l).bind inserted, entry ∉ s.world.subscribed

instance (s : State starts) (l : Label starts) : Decidable (Fresh s l) :=
  inferInstanceAs (Decidable (∀ entry ∈ (next? s l).bind inserted, _))

/-! ### The order of one call -/

/-- A call creates no thread before it has inserted its channel. -/
theorem start_inserts (sid : Sid) (registry : Sock) (channel : Json) :
    Before (S := sig) (fun p => p = .call (.register registry channel))
      (fun p => p = .call (.threadNew sid)) (start sid registry channel) := by
  refine ⟨by simp, .inr fun _ => ⟨by simp, .inr fun known => ⟨by simp, .inr fun _ => ?_⟩⟩⟩
  cases known with
  | true => trivial
  | false =>
      refine ⟨by simp, .inr fun alive => ?_⟩
      cases alive with
      | true => trivial
      | false => exact ⟨by simp, .inr fun _ => ⟨by simp, .inl rfl⟩⟩

/-! ### What a run records -/

section Runs
variable {s s' : State starts} {ls : List (Label starts)} {t : Tid}

theorem thread_residual (h : exec startsBoot ls = some s) {kind : StartKind} {p : Code Unit}
    (ht : s.threads[t]? = some ⟨kind, p⟩) : Residual (startProgram kind) (trace t s.log) p := by
  obtain ⟨v, v', q, hq, hres⟩ := exec_residual h ht
  obtain ⟨w, -, heq⟩ := Option.map_eq_some_iff.mp hq
  cases heq
  exact hres

/-- Only calls of `start` perform anything. -/
theorem next_start (h : exec startsBoot ls = some s) {kind : StartKind} {p : Prim sig}
    {k : p.Resp → Code Unit} (ht : s.threads[t]? = some ⟨kind, .act p k⟩) :
    ∃ sid registry channel, kind = .start sid registry channel ∧
      IsStart sid registry channel p := by
  have hres := thread_residual h ht
  cases kind with
  | made registry channel ws => cases hres.of_done
  | start sid registry channel =>
      exact ⟨sid, registry, channel, rfl, (hres.uses (uses_start sid registry channel)).2.1⟩

/-- The call which has performed `threadNew sid` is a call on this service, and it
has inserted the channel before. -/
theorem created_inserted (h : exec startsBoot ls = some s) {sid : Sid}
    (hnew : ⟨.call (.threadNew sid), ()⟩ ∈ trace t s.log) :
    ∃ registry channel p, s.threads[t]? = some ⟨.start sid registry channel, p⟩ ∧
      ⟨.call (.register registry channel), ()⟩ ∈ trace t s.log := by
  obtain ⟨⟨kind, p⟩, ht⟩ := thread_of_trace h hnew
  have hres := thread_residual h ht
  cases kind with
  | made registry channel ws =>
      have hnone : trace t s.log = [] := by
        generalize trace t s.log = tr at hres
        cases hres
        rfl
      rw [hnone] at hnew
      cases hnew
  | start sid' registry channel =>
      obtain rfl : sid = sid' := by
        have := (hres.uses (uses_start sid' registry channel)).1 _ hnew
        simpa [IsStart] using this
      obtain ⟨⟨prim, r⟩, he, hprim⟩ :=
        (start_inserts sid registry channel).of_mem hres hnew rfl
      cases hprim
      exact ⟨registry, channel, p, ht, he⟩

/-- Everything a step can do to the services and the registry. -/
inductive StartEffect (s : State starts) (l : Label starts) (o : Obs starts)
    (s' : State starts) : Prop
  | entered (kind : StartKind) : o = .entered s.threads.length kind →
      enterStart s.world kind = some s'.world → StartEffect s l o s'
  | called (t : Tid) (choice : Choice) (sid : Sid) (registry : Sock) (channel : Json) (c : Call)
      (r : c.Resp) (k : c.Resp → Code Unit) : l = .run t choice →
      s.threads[t]? = some ⟨.start sid registry channel, .act (.call c) k⟩ →
      IsStart sid registry channel (.call c) → o = .called t c r →
      s'.world = (perform s.world choice c).1 → StartEffect s l o s'
  | silent : s'.world = s.world → (∀ t c r, o ≠ .called t c r) → StartEffect s l o s'

theorem step_effect (h : exec startsBoot ls = some s) {l : Label starts} {o : Obs starts}
    (hstep : Step s l o s') : StartEffect s l o s' := by
  cases hstep with
  | @enter kind w p he =>
      obtain ⟨w', hw', heq⟩ := Option.map_eq_some_iff.mp he
      cases heq
      exact .entered kind rfl hw'
  | @call t choice kind c k ht =>
      obtain ⟨sid, registry, channel, rfl, hc⟩ := next_start h ht
      exact .called t choice sid registry channel c _ k rfl ht hc rfl rfl
  | _ => exact .silent rfl (by simp)

/-- The call of a service, with what it does. -/
theorem perform_start {world : World} {choice : Choice} {c : Call} {sid : Sid} {registry : Sock}
    {channel : Json} (hc : IsStart sid registry channel (.call c)) :
    ((∀ registry channel, c ≠ .register registry channel) ∧ (perform world choice c).1 = world) ∨
    (c = .register registry channel ∧ (perform world choice c).1 =
      {world with subscribed := (registry, channel.eqlKey) :: world.subscribed}) ∨
    (c = .threadNew sid ∧ (perform world choice c).1 =
      world.setService sid (fun v => {v with thread := .alive})) := by
  simp only [IsStart, reduceCtorEq, Prim.call.injEq, false_or] at hc
  rcases hc with rfl | rfl | rfl | rfl
  · exact .inl ⟨by simp, rfl⟩
  · exact .inl ⟨by simp, rfl⟩
  · exact .inr (.inl ⟨rfl, rfl⟩)
  · exact .inr (.inr ⟨rfl, rfl⟩)

/-- A thread enters without effect, or makes a service. -/
theorem enter_cases {world world' : World} {kind : StartKind}
    (h : enterStart world kind = some world') :
    world' = world ∨ ∃ registry channel ws,
      world' = {world with
        services := world.services ++ [⟨registry, channel, ws, .absent, false⟩]} := by
  unfold enterStart at h
  split at h
  · cases h
    exact .inr ⟨_, _, _, rfl⟩
  · split at h
    · split_ifs at h
      cases h
      exact .inl rfl
    · cases h

theorem enter_subscribed {world world' : World} {kind : StartKind}
    (h : enterStart world kind = some world') :
    world'.subscribed = world.subscribed := by
  rcases enter_cases h with rfl | ⟨registry, channel, ws, rfl⟩ <;> rfl

/-- A service that has just been made has no thread. -/
theorem enter_service {world world' : World} {kind : StartKind}
    (h : enterStart world kind = some world')
    {sid : Sid} {v : Service} (hv : world'.services[sid]? = some v) :
    world.services[sid]? = some v ∨ v.thread = .absent := by
  rcases enter_cases h with rfl | ⟨registry, channel, ws, rfl⟩
  · exact .inl hv
  · simp only [List.getElem?_append] at hv
    split at hv
    · exact .inl hv
    · obtain ⟨_, rfl⟩ := List.getElem?_eq_some_iff.mp hv
      exact .inr (by rw [List.getElem_singleton])

theorem enter_stays {world world' : World} {kind : StartKind}
    (h : enterStart world kind = some world')
    {sid : Sid} {v : Service} (hv : world.services[sid]? = some v) :
    world'.services[sid]? = some v := by
  rcases enter_cases h with rfl | ⟨registry, channel, ws, rfl⟩
  · exact hv
  · exact (List.getElem?_append_left (List.getElem?_eq_some_iff.mp hv).choose).trans hv

/-- A running thread was created by a call in the log. -/
theorem alive_created (h : exec startsBoot ls = some s) {sid : Sid} {v : Service}
    (hv : s.world.services[sid]? = some v) (halive : v.thread = .alive) :
    ∃ t, ⟨.call (.threadNew sid), ()⟩ ∈ trace t s.log := by
  refine exec_induction (P := fun _ (s : State starts) => ∀ v, s.world.services[sid]? = some v →
    v.thread = .alive → ∃ t, ⟨.call (.threadNew sid), ()⟩ ∈ trace t s.log)
    (by simp [startsBoot, initial, World.start]) ?_ h v hv halive
  intro ls s l o s' hs ih hstep v hv halive
  rw [step_log hstep]
  simp only [trace_append, trace_singleton, List.mem_append]
  have old : s.world.services[sid]? = some v → ∃ t, ⟨.call (.threadNew sid), ()⟩ ∈ trace t s.log ∨
      ⟨.call (.threadNew sid), ()⟩ ∈ events t o := by
    intro hold
    obtain ⟨t, ht⟩ := ih v hold halive
    exact ⟨t, .inl ht⟩
  cases step_effect hs hstep with
  | entered kind ho he =>
      rcases enter_service he hv with hold | habsent
      · exact old hold
      · rw [halive] at habsent
        cases habsent
  | called t choice sid' registry channel c r k _ _ hc ho hw =>
      rw [hw] at hv
      rcases perform_start hc with ⟨-, hsame⟩ | ⟨-, hsame⟩ | ⟨rfl, hnew⟩
      · rw [hsame] at hv
        exact old hv
      · rw [hsame] at hv
        exact old hv
      · rw [hnew] at hv
        by_cases hsid : sid' = sid
        · subst hsid
          exact ⟨t, .inr (by simp [ho, events])⟩
        · refine old ?_
          simpa [World.setService, List.getElem?_modify, hsid] using hv
  | silent hw _ =>
      rw [hw] at hv
      exact old hv

/-- The service of a call of `start` keeps its fields. -/
theorem started_service (h : exec startsBoot ls = some s) {sid : Sid} {registry : Sock}
    {channel : Json}
    {p : Code Unit} (ht : s.threads[t]? = some ⟨.start sid registry channel, p⟩) :
    ∃ v, s.world.services[sid]? = some v ∧ v.registry = registry ∧ v.channel = channel := by
  refine exec_induction (P := fun _ (s : State starts) => ∀ p,
    s.threads[t]? = some ⟨.start sid registry channel, p⟩ →
    ∃ v, s.world.services[sid]? = some v ∧ v.registry = registry ∧ v.channel = channel)
    (by simp [startsBoot, initial]) ?_ h p ht
  intro ls s l o s' hs ih hstep p ht
  have stays : ∀ v, s.world.services[sid]? = some v →
      ∃ v', s'.world.services[sid]? = some v' ∧ v'.registry = v.registry ∧
        v'.channel = v.channel := by
    intro v hv
    cases step_effect hs hstep with
    | entered kind _ he => exact ⟨v, enter_stays he hv, rfl, rfl⟩
    | called _ choice _ _ _ c _ _ _ _ _ _ hw =>
        obtain ⟨v', hv', hregistry, hchannel, -⟩ := perform_service_stays s.world choice c hv
        exact ⟨v', by rw [hw]; exact hv', hregistry, hchannel⟩
    | silent hw _ => exact ⟨v, by rw [hw]; exact hv, rfl, rfl⟩
  have old : ∀ p, s.threads[t]? = some ⟨.start sid registry channel, p⟩ →
      ∃ v, s'.world.services[sid]? = some v ∧ v.registry = registry ∧ v.channel = channel := by
    intro p hp
    obtain ⟨v, hv, hregistry, hchannel⟩ := ih p hp
    obtain ⟨v', hv', hregistry', hchannel'⟩ := stays v hv
    exact ⟨v', hv', hregistry'.trans hregistry, hchannel'.trans hchannel⟩
  cases step_moves (exec_wf hs) hstep ht with
  | entered w _ _ he =>
      obtain ⟨w', hw', -⟩ := Option.map_eq_some_iff.mp he
      simp only [enterStart] at hw'
      split at hw'
      · rename_i v hv
        split_ifs at hw' with hfields
        obtain ⟨v', hv', hregistry, hchannel⟩ := stays v hv
        exact ⟨v', hv', hregistry.trans hfields.1, hchannel.trans hfields.2⟩
      · cases hw'
  | stays hold _ => exact old p hold
  | answered q k r hold _ _ => exact old _ hold

/-- An inserted channel stays in the registry. -/
theorem inserted_listed (h : exec startsBoot ls = some s) {registry : Sock} {channel : Json}
    (hlog : .called t (.register registry channel) () ∈ s.log) :
    (registry, channel.eqlKey) ∈ s.world.subscribed := by
  refine exec_induction (P := fun _ (s : State starts) =>
    .called t (.register registry channel) () ∈ s.log →
    (registry, channel.eqlKey) ∈ s.world.subscribed) (by simp [startsBoot, initial]) ?_ h hlog
  intro ls s l o s' hs ih hstep hlog
  rw [step_log hstep, List.mem_append, List.mem_singleton] at hlog
  cases step_effect hs hstep with
  | entered kind ho he =>
      rw [enter_subscribed he]
      exact ih (hlog.resolve_right (by simp [ho]))
  | called t' choice sid registry' channel' c r k _ _ hc ho hw =>
      rw [hw]
      rcases perform_start hc with ⟨hne, hsame⟩ | ⟨rfl, hsame⟩ | ⟨rfl, hsame⟩
      · rw [hsame]
        refine ih (hlog.resolve_right (fun he => ?_))
        rw [ho] at he
        injection he with _ hcall
        exact hne _ _ hcall.symm
      · rw [hsame]
        rcases hlog with hold | hnew
        · exact List.mem_cons_of_mem _ (ih hold)
        · rw [ho] at hnew
          cases hnew
          exact List.mem_cons_self
      · rw [hsame]
        exact ih (hlog.resolve_right (by simp [ho]))
  | silent hw hno =>
      rw [hw]
      exact ih (hlog.resolve_right (fun he => hno _ _ _ he.symm))

/-- All insertions of one entry are made by one call. -/
def InsertedOnce (log : List (Obs starts)) : Prop :=
  ∀ t t' registry channel registry' channel', .called t (.register registry channel) () ∈ log →
    .called t' (.register registry' channel') () ∈ log →
    (registry, channel.eqlKey) = (registry', channel'.eqlKey) → t = t'

/-- An insertion into a registry without its channel has no predecessor. -/
theorem first_insertion (h : exec startsBoot ls = some s) {registry : Sock} {channel : Json}
    {kind : StartKind} {k : Unit → Code Unit} {choice : Choice} {u : Tid}
    (hu : s.threads[u]? = some ⟨kind, .act (.call (.register registry channel)) k⟩)
    (hfresh : Fresh s (.run u choice)) {registry' : Sock} {channel' : Json}
    (hlog : .called t (.register registry' channel') () ∈ s.log) :
    (registry', channel'.eqlKey) ≠ (registry, channel.eqlKey) := by
  intro heq
  have hmem := inserted_listed h hlog
  rw [heq] at hmem
  exact hfresh _ (by rw [next?_run hu]; rfl) hmem

theorem step_once (h : exec startsBoot ls = some s) (honce : InsertedOnce s.log) {l : Label starts}
    {o : Obs starts} (hfresh : Fresh s l) (hstep : Step s l o s') : InsertedOnce s'.log := by
  rw [step_log hstep]
  intro t t' registry channel registry' channel' hm hm' heq
  rw [List.mem_append, List.mem_singleton] at hm hm'
  -- the step inserts for `u`, and every insertion in the log is of another entry
  have new : ∀ u registry channel, o = .called u (.register registry channel) () →
      ∀ t registry' channel', .called t (.register registry' channel') () ∈ s.log →
        (registry', channel'.eqlKey) ≠ (registry, channel.eqlKey) := by
    intro u registry channel ho t registry' channel' hlog
    cases step_effect h hstep with
    | entered kind he _ => simp [he] at ho
    | called u' choice sid _ _ c r k hl hthread _ he _ =>
        rw [he] at ho
        cases ho
        subst hl
        exact first_insertion h hthread hfresh hlog
    | silent _ hno => exact absurd ho (hno _ _ _)
  rcases hm with hold | ho <;> rcases hm' with hold' | ho'
  · exact honce t t' registry channel registry' channel' hold hold' heq
  · exact absurd heq (new t' registry' channel' ho'.symm t registry channel hold)
  · exact absurd heq.symm (new t registry channel ho.symm t' registry' channel' hold')
  · rw [← ho] at ho'
    cases ho'
    rfl

theorem atMostOne_of_once (h : exec startsBoot ls = some s) (honce : InsertedOnce s.log) :
    AtMostOne s := by
  refine List.pairwise_iff_getElem.mpr (fun i j hi hj hij ⟨halive, halive', hentry⟩ => ?_)
  obtain ⟨t, ht⟩ := alive_created h (List.getElem?_eq_getElem hi) halive
  obtain ⟨t', ht'⟩ := alive_created h (List.getElem?_eq_getElem hj) halive'
  obtain ⟨registry, channel, p, hp, hins⟩ := created_inserted h ht
  obtain ⟨registry', channel', p', hp', hins'⟩ := created_inserted h ht'
  obtain ⟨v, hv, rfl, rfl⟩ := started_service h hp
  obtain ⟨v', hv', rfl, rfl⟩ := started_service h hp'
  rw [List.getElem?_eq_getElem hi, Option.some.injEq] at hv
  rw [List.getElem?_eq_getElem hj, Option.some.injEq] at hv'
  subst hv hv'
  -- the two threads were created by one call, which is a call on one service
  obtain rfl := honce t t' _ _ _ _ (called_of_trace hins) (called_of_trace hins') hentry
  rw [hp, Option.some.injEq] at hp'
  injection hp' with hkind
  injection hkind with hsid
  exact absurd hsid (Nat.ne_of_lt hij)

end Runs

/-- If each insertion meets a registry without its channel, at most one service
has a running thread for a channel, in every state of the run. -/
theorem one_subscription (ls : List (Label starts)) (h : EachStep step Fresh startsBoot ls) :
    Throughout step AtMostOne startsBoot ls := by
  refine throughout_of (I := fun s => (∃ ls, exec startsBoot ls = some s) ∧ InsertedOnce s.log)
    ?_ ?_ ?_ h
  · rintro s l s' ⟨⟨ls, hs⟩, honce⟩ hfresh hstep
    obtain ⟨o, ho⟩ := step_sound hstep
    refine ⟨⟨ls ++ [l], ?_⟩, step_once hs honce hfresh ho⟩
    rw [exec_append, hs, Option.bind_some, exec, hstep]
    rfl
  · rintro s ⟨⟨ls, hs⟩, honce⟩
    exact atMostOne_of_once hs honce
  · exact ⟨⟨[], rfl⟩, fun _ _ _ _ _ _ hm => by cases hm⟩

/-- Two services for one channel. -/
def twoStarts : List (Label starts) :=
  [.enter (.made 0 (.str "A") (some 0)), .enter (.made 0 (.str "A") (some 0)),
    .enter (.start 0 0 (.str "A")), .enter (.start 1 0 (.str "A"))]

/-- A thread runs for so many steps. -/
def startTurns (t : Tid) (n : ℕ) : List (Label starts) := List.replicate n (.run t {})

/-- The second call comes after the first one. -/
def oneAfterOther : List (Label starts) := twoStarts ++ startTurns 2 8 ++ startTurns 3 3

theorem one_subscription_serial : EachStep step Fresh startsBoot oneAfterOther ∧
    Throughout step AtMostOne startsBoot oneAfterOther := by
  have hfresh : EachStep step Fresh startsBoot oneAfterOther := by decide
  exact ⟨hfresh, one_subscription _ hfresh⟩

/-- Both calls pass the membership test before either inserts the channel. -/
def bothTested : List (Label starts) :=
  twoStarts ++ startTurns 2 3 ++ startTurns 3 3 ++ startTurns 2 5 ++ startTurns 3 5

theorem two_subscriptions : ¬ Throughout step AtMostOne startsBoot bothTested := by
  decide

end EvoGw.ConcurrentStarts
