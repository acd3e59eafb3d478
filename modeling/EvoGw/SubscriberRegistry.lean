import EvoGw.WebSocketHandler
import EvoGw.PoolTraces
import EvoGw.SoloRuns
import EvoGw.StepConditions

/-!
# The registry entry of a live subscription

Service objects for any channels share the registry of subscribed channels. They
are made, started and stopped at any time and in any number; their threads
retry, end and are killed. A call of `start` is one step here, which waits for
the mutex as the code does. A call of `stop` and the `ensure` clause of a thread
run step by step among all the others, and a killed thread comes to its `ensure`
clause whenever it likes.

A subscription is live while its thread runs and its service was not stopped.
Both places which delete an entry look at the channel only, so they can take
away the entry of another service. They do not if the callers are careful: `stop`
is called on a service whose thread runs, and no service is started for an entry
while an earlier `stop` or thread for this entry is not over. Two services never
run for one entry then, and whoever deletes an entry knows that its own thread,
the only one for it, is down.
-/
namespace EvoGw.SubscriberRegistry
open ThreadPrograms ThreadPools PoolTraces SoloRuns StepConditions GatewayCalls JsonValues
open WebSocketHandler

/-- What befalls service objects besides `start`. -/
inductive CleanupKind where
  | made (registry : Sock) (channel : Json) (ws : Option Sock)
  | stop (sid : Sid)
  | retried (sid : Sid)
  | ended (sid : Sid)
  deriving DecidableEq

/-- A retry touches neither the service nor the registry. A thread comes to its
`ensure` clause by itself or because it was killed. -/
def enterCleanup (world : World) : CleanupKind → Option (World × Code Unit)
  | .made registry channel ws =>
      some ((perform world {} (.newService registry channel ws)).1, pure ())
  | .stop sid =>
      match world.services[sid]? with
      | some v => some (world, stop sid v.registry v.channel)
      | none => none
  | .retried sid =>
      match world.services[sid]? with
      | some v => if v.thread = .alive then some (world, pure ()) else none
      | none => none
  | .ended sid =>
      match world.services[sid]? with
      | some v => if v.thread = .alive ∨ v.thread = .aborting then
          some (world.setService sid (fun v => {v with thread := .ending}),
            subscriberEnds sid v.registry v.channel) else none
      | none => none

@[reducible] def lifecycles : Semantics sig where
  World := World
  Choice := Choice
  Kind := CleanupKind
  Out := Unit
  fails := Choice.fails
  perform := fun w _ c choice => perform w choice c
  enter := fun w _ kind => enterCleanup w kind

/-- The answers which a call of `start` gets when nothing comes between. -/
def direct (world : World) : (p : Prim sig) → World × p.Resp
  | .call c => perform world {} c
  | .acquire _ => (world, ())
  | .release _ => (world, ())
  | .push _ _ => (world, true)
  | .clear _ => (world, true)
  | .await _ => (world, .timedOut)

inductive Action where
  | start (sid : Sid)
  | step (l : Label lifecycles)

/-- `start` needs the mutex, so it has to wait while another thread holds it. -/
def act (s : State lifecycles) : Action → Option (State lifecycles)
  | .start sid =>
      match s.world.services[sid]? with
      | some v =>
          if s.locks .subscribedChannels = none then
            some {s with world := (drive direct s.world (start sid v.registry v.channel)).state}
          else none
      | none => none
  | .step l => step s l

def registryBoot : State lifecycles := initial World.start

/-- The thread of the service runs and the service was not stopped. -/
def Live (v : Service) : Prop := v.thread = .alive ∧ v.stopRequested = false

instance (v : Service) : Decidable (Live v) := inferInstanceAs (Decidable (_ ∧ _))

/-- The registry has the channel of every live subscription. -/
def Covered (s : State lifecycles) : Prop :=
  ∀ v ∈ s.world.services, Live v → s.world.isRegistered v.registry v.channel = true

instance (s : State lifecycles) : Decidable (Covered s) :=
  inferInstanceAs (Decidable (∀ v ∈ s.world.services, _))

/-- The services for which a call of `stop` or an `ensure` clause is under way. -/
def pending (s : State lifecycles) : List Sid :=
  s.threads.filterMap (fun
    | ⟨.stop sid, .act _ _⟩ => some sid
    | ⟨.ended sid, .act _ _⟩ => some sid
    | _ => none)

/-- Nothing is left to be cleaned up for the entry: no `stop` and no `ensure` clause
is under way for it, and no thread for it is killed or ending. -/
def Settled (s : State lifecycles) (entry : Sock × Json) : Prop :=
  (∀ sid ∈ pending s, ∀ v ∈ s.world.services[sid]?, v.entry ≠ entry) ∧
    ∀ v ∈ s.world.services, v.entry = entry → v.thread.isAlive = true → v.thread = .alive

instance (s : State lifecycles) (entry : Sock × Json) : Decidable (Settled s entry) :=
  inferInstanceAs (Decidable (_ ∧ _))

/-- `stop` is called on services whose thread runs, and `start` once earlier users
of the entry are over. -/
def Careful (s : State lifecycles) : Action → Prop
  | .start sid => ∀ v ∈ s.world.services[sid]?, Settled s v.entry
  | .step (.enter (.stop sid)) => ∀ v ∈ s.world.services[sid]?, v.thread = .alive
  | .step _ => True

instance (s : State lifecycles) (a : Action) : Decidable (Careful s a) :=
  match a with
  | .start sid => inferInstanceAs (Decidable (∀ v ∈ s.world.services[sid]?, _))
  | .step (.enter (.stop sid)) => inferInstanceAs (Decidable (∀ v ∈ s.world.services[sid]?, _))
  | .step (.enter (.made _ _ _)) => .isTrue trivial
  | .step (.enter (.retried _)) => .isTrue trivial
  | .step (.enter (.ended _)) => .isTrue trivial
  | .step (.run _ _) => .isTrue trivial
  | .step (.expire _) => .isTrue trivial

/-! ### What a cleanup knows -/

/-- The answer shows that the thread of the service does not run, or no longer. -/
def showsDown : Event sig → Bool
  | ⟨.call (.threadKill _), _⟩ => true
  | ⟨.call (.threadAlive _), alive⟩ => alive = false
  | _ => false

/-- The primitives of a cleanup, when its thread is known to be down or not. -/
def Permits (sid : Sid) (registry : Sock) (channel : Json) (down : Bool) : Prim sig → Prop
  | .acquire _ => True
  | .release _ => True
  | .call (.requestStop sid') => sid' = sid
  | .call (.threadAlive sid') => sid' = sid
  | .call (.threadKill sid') => sid' = sid
  | .call (.threadEnd sid') => sid' = sid
  | .call (.registered _ _) => True
  | .call (.unregister registry' channel') =>
      registry' = registry ∧ channel' = channel ∧ down = true
  | _ => False

/-- A cleanup of this service deletes the service's own entry, and only once the
thread is known to be down. -/
def Cleans (sid : Sid) (registry : Sock) (channel : Json) : Bool → Code Unit → Prop
  | _, .done _ => True
  | _, .raise _ => True
  | down, .act p k => Permits sid registry channel down p ∧
      ∀ r, Cleans sid registry channel (down || showsDown ⟨p, r⟩) (k r)

theorem stop_cleans (sid : Sid) (registry : Sock) (channel : Json) :
    Cleans sid registry channel false (stop sid registry channel) := by
  refine ⟨rfl, fun _ => ⟨rfl, fun alive => ?_⟩⟩
  have delete : Cleans sid registry channel true
      (Program.synchronize .subscribedChannels (call (.unregister registry channel))) :=
    ⟨trivial, fun _ => ⟨⟨rfl, rfl, rfl⟩, fun _ => ⟨trivial, fun _ => trivial⟩⟩⟩
  cases alive with
  | false => exact delete
  | true => exact ⟨rfl, fun _ => delete⟩

/-- A thread in its `ensure` clause is down from the start. -/
theorem subscriberEnds_cleans (sid : Sid) (registry : Sock) (channel : Json) :
    Cleans sid registry channel true (subscriberEnds sid registry channel) := by
  refine ⟨trivial, fun _ => ⟨trivial, fun known => ?_⟩⟩
  have rest : Cleans sid registry channel true
      (.act (.release .subscribedChannels) (fun _ => call (.threadEnd sid))) :=
    ⟨trivial, fun _ => ⟨rfl, fun _ => trivial⟩⟩
  cases known with
  | false => exact rest
  | true => exact ⟨⟨rfl, rfl, rfl⟩, fun _ => rest⟩

/-! ### What a step does to the services -/

/-- No thread comes to run. Services keep their entries, and new ones have no
thread. -/
structure Fades (world world' : World) : Prop where
  keeps : ∀ (sid : Sid) v, world.services[sid]? = some v → ∃ v', world'.services[sid]? = some v' ∧
    v'.registry = v.registry ∧ v'.channel = v.channel
  origin : ∀ (sid : Sid) v', world'.services[sid]? = some v' → v'.thread.isAlive = true →
    ∃ v, world.services[sid]? = some v ∧ v.entry = v'.entry ∧ v.thread.isAlive = true ∧
      (v'.thread = .alive → v.thread = .alive)

theorem Fades.refl (world : World) : Fades world world :=
  ⟨fun _ v hv => ⟨v, hv, rfl, rfl⟩, fun _ v hv hl => ⟨v, hv, rfl, hl, id⟩⟩

theorem fades_setService (world : World) (sid : Sid) {f : Service → Service}
    (hsame : ∀ v, (f v).registry = v.registry ∧ (f v).channel = v.channel)
    (hthread : ∀ v, world.services[sid]? = some v → (f v).thread.isAlive = true →
      v.thread.isAlive = true ∧ ((f v).thread = .alive → v.thread = .alive)) :
    Fades world (world.setService sid f) := by
  constructor
  · intro i v hv
    rw [getElem?_setService, hv]
    by_cases hi : sid = i
    · exact ⟨f v, by simp [hi], hsame v⟩
    · exact ⟨v, by simp [hi], rfl, rfl⟩
  · intro i v' hv' hl
    rw [getElem?_setService] at hv'
    obtain ⟨v, hv, rfl⟩ := Option.map_eq_some_iff.mp hv'
    by_cases hi : sid = i
    · subst hi
      rw [if_pos rfl] at hl ⊢
      have hentry : v.entry = (f v).entry := by
        rw [Service.entry, Service.entry, (hsame v).1, (hsame v).2]
      exact ⟨v, hv, hentry, hthread v hv hl⟩
    · rw [if_neg hi] at hl ⊢
      exact ⟨v, hv, rfl, hl, id⟩

/-- What a cleanup calls brings no thread to run. -/
theorem perform_fades (world : World) (choice : Choice) {c : Call} {sid : Sid} {registry : Sock}
    {channel : Json} {down : Bool} (hc : Permits sid registry channel down (.call c)) :
    Fades world (perform world choice c).1 := by
  cases c with
  | threadKill sid =>
      refine fades_setService world sid (fun v => ⟨rfl, rfl⟩) (fun v _ hl => ?_)
      cases hv : v.thread <;> simp_all [ThreadStatus.kill, ThreadStatus.isAlive]
  | threadEnd sid =>
      exact fades_setService world sid (fun v => ⟨rfl, rfl⟩) (fun v _ hl => by cases hl)
  | requestStop sid =>
      exact fades_setService world sid (fun v => ⟨rfl, rfl⟩) (fun v _ hl => ⟨hl, id⟩)
  | registered registry channel => exact Fades.refl world
  | unregister registry channel =>
      exact ⟨(Fades.refl world).keeps, (Fades.refl world).origin⟩
  | threadAlive sid => exact Fades.refl world
  | _ => exact hc.elim

/-! ### What a whole call of `start` does -/

/-- The world after `start` of the service `v` at `sid`. -/
def startedWorld (world : World) (sid : Sid) (v : Service) : World :=
  if world.isRegistered v.registry v.channel then world else
    if v.thread.isAlive then world else
      World.setService {world with
        subscribed := v.entry :: world.subscribed}
        sid (fun v => {v with thread := .alive})

theorem state_call {A : Type} (world : World) (c : Call) (f : c.Resp → Code A) :
    (drive direct world (call c >>= f)).state =
      (drive direct (perform world {} c).1 (f (perform world {} c).2)).state := rfl

theorem state_section {A : Type} (world : World) (c : Call) (f : c.Resp → Code A) :
    (drive direct world (Program.synchronize .subscribedChannels (call c) >>= f)).state =
      (drive direct (perform world {} c).1 (f (perform world {} c).2)).state := rfl

theorem drive_start {world : World} {sid : Sid} {v : Service}
    (h : world.services[sid]? = some v) :
    (drive direct world (start sid v.registry v.channel)).state = startedWorld world sid v := by
  have halive : (perform world {} (.threadAlive sid)).2 = v.thread.isAlive := by
    simp only [perform, h, Option.map_some, Option.getD_some]
  unfold start startedWorld
  rw [state_section]
  show (drive direct world (if world.isRegistered v.registry v.channel then _ else _)).state = _
  split_ifs with hknown hrun
  · rfl
  · rw [state_call, halive, if_pos hrun]
    rfl
  · rw [state_call, halive, if_neg hrun, state_section]
    rfl

/-! ### The invariant of careful runs -/

/-- The service which a thread cleans up. -/
def target : CleanupKind → Option Sid
  | .stop sid => some sid
  | .ended sid => some sid
  | _ => none

/-- A cleanup that is under way meets no running thread for its entry but the
service's own, and that only before it knows better. -/
def Suits (world : World) (th : Thread lifecycles) : Prop :=
  match target th.kind with
  | none => th.prog.Finished
  | some sid => ∃ v down, world.services[sid]? = some v ∧
      Cleans sid v.registry v.channel down th.prog ∧
      (th.prog.Finished ∨ ∀ (i : Sid) u, world.services[i]? = some u → u.thread = .alive →
        u.entry = v.entry → i = sid ∧ down = false)

/-- What a cleanup that is under way may do next, and what it knows. -/
theorem Suits.running {world : World} {kind : CleanupKind} {p : Prim sig}
    {k : p.Resp → Code Unit} (h : Suits world ⟨kind, .act p k⟩) :
    ∃ sid v down, target kind = some sid ∧ world.services[sid]? = some v ∧
      Permits sid v.registry v.channel down p ∧
      (∀ r, Cleans sid v.registry v.channel (down || showsDown ⟨p, r⟩) (k r)) ∧
      ∀ (i : Sid) u, world.services[i]? = some u → u.thread = .alive → u.entry = v.entry →
        i = sid ∧ down = false := by
  unfold Suits at h
  cases ht : target kind with
  | none =>
      simp only [ht] at h
      exact h.elim
  | some sid =>
      simp only [ht] at h
      obtain ⟨v, down, hv, ⟨hpermit, hcleans⟩, hrest⟩ := h
      exact ⟨sid, v, down, rfl, hv, hpermit, hcleans, hrest.resolve_left id⟩

structure Tended (s : State lifecycles) : Prop where
  wf : Wf s
  suits : ∀ (t : Tid) th, s.threads[t]? = some th → Suits s.world th
  sole : ∀ (i j : Sid) u v, s.world.services[i]? = some u → s.world.services[j]? = some v →
    u.thread = .alive → v.thread.isAlive = true → u.entry = v.entry → i = j
  listed : ∀ (i : Sid) u, s.world.services[i]? = some u → u.thread = .alive →
    u.entry ∈ s.world.subscribed

theorem tended_boot : Tended registryBoot :=
  ⟨wf_initial _, by simp [registryBoot, initial], by simp [registryBoot, initial, World.start],
    by simp [registryBoot, initial, World.start]⟩

theorem isAlive_of_alive {v : Service} (h : v.thread = .alive) : v.thread.isAlive = true := by
  rw [h]
  rfl

section Fading
variable {world world' : World}

theorem Suits.fades (hf : Fades world world') {th : Thread lifecycles} (h : Suits world th) :
    Suits world' th := by
  unfold Suits at h ⊢
  cases ht : target th.kind with
  | none =>
      rw [ht] at h
      exact h
  | some sid =>
      rw [ht] at h
      obtain ⟨v, down, hv, hcleans, hrest⟩ := h
      obtain ⟨v', hv', hregistry, hchannel⟩ := hf.keeps sid v hv
      refine ⟨v', down, hv', by rwa [hregistry, hchannel], hrest.imp_right ?_⟩
      intro hrest i u' hu' halive hentry
      obtain ⟨u, hu, hsame, -, hold⟩ := hf.origin i u' hu' (isAlive_of_alive halive)
      refine hrest i u hu (hold halive) ?_
      rw [hsame, hentry, Service.entry, Service.entry, hregistry, hchannel]

theorem sole_fades (hf : Fades world world')
    (h : ∀ (i j : Sid) u v, world.services[i]? = some u → world.services[j]? = some v →
      u.thread = .alive → v.thread.isAlive = true → u.entry = v.entry → i = j)
    (i j : Sid) (u' v' : Service) (hu' : world'.services[i]? = some u')
    (hv' : world'.services[j]? = some v') (halive : u'.thread = .alive)
    (hlive : v'.thread.isAlive = true) (hentry : u'.entry = v'.entry) : i = j := by
  obtain ⟨u, hu, husame, -, hold⟩ := hf.origin i u' hu' (isAlive_of_alive halive)
  obtain ⟨v, hv, hvsame, hvlive, -⟩ := hf.origin j v' hv' hlive
  exact h i j u v hu hv (hold halive) hvlive (by rw [husame, hvsame, hentry])

end Fading

section Steps
variable {s s' : State lifecycles} {l : Label lifecycles} {o : Obs lifecycles}

/-- The entries of the threads that still run were there before. -/
theorem Tended.listed_before (inv : Tended s) {world : World} (hf : Fades s.world world) {i : Sid}
    {u : Service} (hu : world.services[i]? = some u) (halive : u.thread = .alive) :
    u.entry ∈ s.world.subscribed := by
  obtain ⟨u₀, hu₀, hsame, -, hold⟩ := hf.origin i u hu (isAlive_of_alive halive)
  rw [← hsame]
  exact inv.listed i u₀ hu₀ (hold halive)

/-- What enters suits the services, given that `stop` is called with care. -/
theorem enter_tended (inv : Tended s) {kind : CleanupKind} {w : World} {p : Code Unit}
    (hc : Careful s (.step (.enter kind))) (h : enterCleanup s.world kind = some (w, p)) :
    Fades s.world w ∧ w.subscribed = s.world.subscribed ∧ Suits w ⟨kind, p⟩ := by
  cases kind with
  | made registry channel ws =>
      cases h
      refine ⟨⟨fun i v hv => ?_, fun i v' hv' hl => ?_⟩, rfl, trivial⟩
      · have hlt := (List.getElem?_eq_some_iff.mp hv).choose
        exact ⟨v, (List.getElem?_append_left hlt).trans hv, rfl, rfl⟩
      · have hv' : (s.world.services ++ [(⟨registry, channel, ws, .absent, false⟩ : Service)])[i]? =
            some v' := hv'
        rcases Nat.lt_or_ge i s.world.services.length with hlt | hge
        · rw [List.getElem?_append_left hlt] at hv'
          exact ⟨v', hv', rfl, hl, id⟩
        · rw [List.getElem?_append_right hge] at hv'
          cases List.mem_singleton.mp (List.mem_of_getElem? hv')
          cases hl
  | retried sid =>
      simp only [enterCleanup] at h
      split at h
      · split_ifs at h
        cases h
        exact ⟨Fades.refl _, rfl, trivial⟩
      · cases h
  | stop sid =>
      simp only [enterCleanup] at h
      split at h
      · rename_i v hv
        cases h
        have hrunning : v.thread = .alive := hc v hv
        refine ⟨Fades.refl _, rfl, v, false, hv, stop_cleans sid _ _, .inr ?_⟩
        intro i u hu halive hentry
        exact ⟨inv.sole i sid u v hu hv halive (isAlive_of_alive hrunning) hentry, rfl⟩
      · cases h
  | ended sid =>
      simp only [enterCleanup] at h
      split at h
      · rename_i v hv
        split_ifs at h with hthread
        cases h
        have hwas : v.thread.isAlive = true := by
          rcases hthread with hv | hv <;> rw [hv] <;> rfl
        have hfades : Fades s.world
            (s.world.setService sid (fun v => {v with thread := .ending})) :=
          fades_setService _ sid (fun v => ⟨rfl, rfl⟩) (fun v' hv' _ => by
            cases hv.symm.trans hv'
            exact ⟨hwas, fun hl => by cases hl⟩)
        have hnew : (s.world.setService sid (fun v => {v with thread := .ending})).services[sid]? =
            some {v with thread := .ending} := by
          rw [getElem?_setService, hv]
          simp
        refine ⟨hfades, rfl, _, true, hnew, subscriberEnds_cleans sid _ _, .inr ?_⟩
        -- a thread that still runs for the entry would have been the ending one
        intro i u hu halive hentry
        obtain ⟨u₀, hu₀, hsame, -, hold⟩ := hfades.origin i u hu (isAlive_of_alive halive)
        obtain rfl := inv.sole i sid u₀ v hu₀ hv (hold halive) hwas (hsame.trans hentry)
        rw [hnew] at hu
        cases hu
        cases halive
      · cases h

/-- A call does not show that a thread is down which runs after it. -/
theorem showsDown_running {choice : Choice} {c : Call} {sid : Sid} {registry : Sock}
    {channel : Json} {down : Bool} (hc : Permits sid registry channel down (.call c)) {v : Service}
    (hv : (perform s.world choice c).1.services[sid]? = some v) (halive : v.thread = .alive) :
    showsDown ⟨.call c, (perform s.world choice c).2⟩ = false := by
  cases c with
  | threadKill sid' =>
      obtain rfl : sid' = sid := hc
      have hv : (s.world.setService sid' _).services[sid']? = some v := hv
      rw [getElem?_setService] at hv
      obtain ⟨v₀, -, rfl⟩ := Option.map_eq_some_iff.mp hv
      cases hv₀ : v₀.thread <;> simp [ThreadStatus.kill, hv₀] at halive
  | threadAlive sid' =>
      obtain rfl : sid' = sid := hc
      have hv : s.world.services[sid']? = some v := hv
      have hanswer : (perform s.world choice (.threadAlive sid')).2 = true := by
        simp only [perform, hv, Option.map_some, Option.getD_some]
        exact isAlive_of_alive halive
      simp only [showsDown]
      rw [hanswer]
      rfl
  | requestStop _ => rfl
  | threadEnd _ => rfl
  | registered _ _ => rfl
  | unregister _ _ => rfl
  | _ => exact hc.elim

/-- A call of a cleanup: what it knows afterwards is true. -/
theorem call_suits {choice : Choice} {kind : CleanupKind} {c : Call} {k : c.Resp → Code Unit}
    (h : Suits s.world ⟨kind, .act (.call c) k⟩) :
    Fades s.world (perform s.world choice c).1 ∧
      Suits (perform s.world choice c).1 ⟨kind, k (perform s.world choice c).2⟩ := by
  obtain ⟨sid, v, down, ht, hv, hpermit, hcleans, hrest⟩ := h.running
  have hfades := perform_fades s.world choice hpermit
  obtain ⟨v', hv', hregistry, hchannel⟩ := hfades.keeps sid v hv
  refine ⟨hfades, ?_⟩
  simp only [Suits, ht]
  refine ⟨v', _, hv', by rw [hregistry, hchannel]; exact hcleans _, .inr ?_⟩
  intro i u' hu' halive hentry
  obtain ⟨u, hu, hsame, -, hold⟩ := hfades.origin i u' hu' (isAlive_of_alive halive)
  have hentry' : u.entry = v.entry := by
    rw [hsame, hentry, Service.entry, Service.entry, hregistry, hchannel]
  obtain ⟨rfl, rfl⟩ := hrest i u hu (hold halive) hentry'
  exact ⟨rfl, showsDown_running hpermit hu' halive⟩

/-- A deletion meets no entry of a running thread. -/
theorem call_listed (inv : Tended s) {t : Tid} {choice : Choice} {kind : CleanupKind} {c : Call}
    {k : c.Resp → Code Unit} (ht : s.threads[t]? = some ⟨kind, .act (.call c) k⟩) {i : Sid}
    {u : Service} (hu : (perform s.world choice c).1.services[i]? = some u)
    (halive : u.thread = .alive) : u.entry ∈ (perform s.world choice c).1.subscribed := by
  obtain ⟨sid, v, down, -, -, hpermit, -, hrest⟩ := (inv.suits t _ ht).running
  have hfades := perform_fades s.world choice hpermit
  have hlisted := inv.listed_before hfades hu halive
  cases c with
  | unregister registry channel =>
      obtain ⟨u₀, hu₀, hsame, -, hold⟩ := hfades.origin i u hu (isAlive_of_alive halive)
      obtain ⟨rfl, rfl, rfl⟩ := hpermit
      refine List.mem_filter.mpr ⟨hlisted, decide_eq_true (fun heq => ?_)⟩
      cases (hrest i u₀ hu₀ (hold halive) (hsame.trans heq)).2
  | requestStop _ => exact hlisted
  | threadAlive _ => exact hlisted
  | threadKill _ => exact hlisted
  | threadEnd _ => exact hlisted
  | registered _ _ => exact hlisted
  | _ => exact hpermit.elim

/-- A cleanup takes the mutex or gives it back. -/
theorem lock_suits {world : World} {kind : CleanupKind} {p : Prim sig}
    {k : p.Resp → Code Unit} {r : p.Resp} (h : Suits world ⟨kind, .act p k⟩)
    (hp : showsDown ⟨p, r⟩ = false) : Suits world ⟨kind, k r⟩ := by
  obtain ⟨sid, v, down, ht, hv, -, hcleans, hrest⟩ := h.running
  have hcleans := hcleans r
  rw [hp, Bool.or_false] at hcleans
  simp only [Suits, ht]
  exact ⟨v, down, hv, hcleans, .inr hrest⟩

theorem tended_of (inv : Tended s) (h : Step s l o s') (hf : Fades s.world s'.world)
    (hlisted : ∀ (i : Sid) u, s'.world.services[i]? = some u → u.thread = .alive →
      u.entry ∈ s'.world.subscribed)
    (hmoved : ∀ u th, Moves s o u th → s.threads[u]? = some th ∨ Suits s'.world th) :
    Tended s' := by
  refine ⟨step_wf inv.wf h, fun t th ht => ?_, sole_fades hf inv.sole, hlisted⟩
  rcases hmoved t th (step_moves inv.wf h ht) with hold | hnew
  · exact (inv.suits t th hold).fades hf
  · exact hnew

/-- A step which answers one thread and brings no other to move. -/
theorem moved_only {t : Tid} {kind : CleanupKind} {p : Prim sig} {k : p.Resp → Code Unit}
    {r : p.Resp} (ht : s.threads[t]? = some ⟨kind, .act p k⟩)
    (ho : ∀ u, events u o = if t = u then [⟨p, r⟩] else [])
    (hentered : ∀ u kind, o ≠ .entered u kind) {world : World} (hsuits : Suits world ⟨kind, k r⟩)
    (u : Tid) (th : Thread lifecycles) (h : Moves s o u th) :
    s.threads[u]? = some th ∨ Suits world th := by
  cases h with
  | entered w _ hobs _ => exact absurd hobs (hentered u th.kind)
  | stays hold _ => exact .inl hold
  | answered p' k' r' hold hprog hevents =>
      rw [ho] at hevents
      split_ifs at hevents with htu
      subst htu
      cases hevents
      obtain ⟨kind', q⟩ := th
      rw [ht] at hold
      cases hold
      subst hprog
      exact .inr hsuits

theorem step_tended (inv : Tended s) (hc : Careful s (.step l)) (h : Step s l o s') :
    Tended s' := by
  -- a cleanup does not touch the lists
  have refuse : ∀ {t : Tid} {kind : CleanupKind} {p : Prim sig} {k : p.Resp → Code Unit},
      s.threads[t]? = some ⟨kind, .act p k⟩ →
      (∀ sid registry channel down, ¬ Permits sid registry channel down p) → Tended s' := by
    intro t kind p k ht hp
    obtain ⟨sid, v, down, -, -, hpermit, -⟩ := (inv.suits t _ ht).running
    exact absurd hpermit (hp _ _ _ _)
  have hstep := h
  cases h with
  | enter henter =>
      obtain ⟨hf, hsub, hsuits⟩ := enter_tended inv hc henter
      refine tended_of inv hstep hf (fun i u hu halive => ?_) (fun u th hmove => ?_)
      · exact hsub.symm ▸ inv.listed_before hf hu halive
      · cases hmove with
        | entered w hu hobs he =>
            cases hobs
            cases henter.symm.trans he
            exact .inr hsuits
        | stays hold _ => exact .inl hold
        | answered _ _ _ _ _ hevents => cases hevents
  | call ht =>
      obtain ⟨hf, hsuits⟩ := call_suits (inv.suits _ _ ht)
      exact tended_of inv hstep hf (fun i u hu => call_listed inv ht hu)
        (moved_only ht (fun _ => rfl) (by simp) hsuits)
  | acquire ht _ =>
      exact tended_of inv hstep (Fades.refl _) inv.listed
        (moved_only ht (fun _ => rfl) (by simp) (lock_suits (inv.suits _ _ ht) rfl))
  | release ht _ =>
      exact tended_of inv hstep (Fades.refl _) inv.listed
        (moved_only ht (fun _ => rfl) (by simp) (lock_suits (inv.suits _ _ ht) rfl))
  | pushFail ht _ => exact refuse ht (fun _ _ _ _ => id)
  | pushKeep ht _ _ => exact refuse ht (fun _ _ _ _ => id)
  | pushHand ht _ _ => exact refuse ht (fun _ _ _ _ => id)
  | clearFail ht _ => exact refuse ht (fun _ _ _ _ => id)
  | clear ht _ => exact refuse ht (fun _ _ _ _ => id)
  | awaitFail ht _ _ => exact refuse ht (fun _ _ _ _ => id)
  | awaitBlock ht _ _ _ => exact refuse ht (fun _ _ _ _ => id)
  | awaitTake ht _ _ _ => exact refuse ht (fun _ _ _ _ => id)
  | expire ht _ => exact refuse ht (fun _ _ _ _ => id)

end Steps

/-! ### `start` -/

theorem act_start {s s' : State lifecycles} {sid : Sid} (h : act s (.start sid) = some s') :
    ∃ v, s.world.services[sid]? = some v ∧ s' = {s with world := startedWorld s.world sid v} := by
  simp only [act] at h
  split at h
  · rename_i v hv
    split_ifs at h
    cases h
    exact ⟨v, hv, by rw [drive_start hv]⟩
  · cases h

/-- A cleanup that is under way is pending. -/
theorem pending_of_running {s : State lifecycles} {t : Tid} {kind : CleanupKind} {p : Prim sig}
    {k : p.Resp → Code Unit} (ht : s.threads[t]? = some ⟨kind, .act p k⟩) {sid : Sid}
    (hkind : target kind = some sid) : sid ∈ pending s := by
  refine List.mem_filterMap.mpr ⟨_, List.mem_of_getElem? ht, ?_⟩
  cases kind with
  | stop _ => exact hkind
  | ended _ => exact hkind
  | made _ _ _ => cases hkind
  | retried _ => cases hkind

/-- The services after a start that takes effect. -/
theorem startedWorld_service {world : World} {sid i : Sid} {v u : Service}
    (hv : world.services[sid]? = some v)
    (hu : (World.setService {world with subscribed := v.entry :: world.subscribed} sid
      (fun v => {v with thread := .alive})).services[i]? = some u) :
    (i = sid ∧ u = {v with thread := .alive}) ∨ i ≠ sid ∧ world.services[i]? = some u := by
  rw [getElem?_setService] at hu
  obtain ⟨u₀, hu₀, rfl⟩ := Option.map_eq_some_iff.mp hu
  by_cases hi : sid = i
  · subst hi
    cases hv.symm.trans hu₀
    exact .inl ⟨rfl, if_pos rfl⟩
  · exact .inr ⟨Ne.symm hi, by rw [if_neg hi]; exact hu₀⟩

/-- No thread that is up uses the entry of a service which can be started. -/
theorem free_of_settled {s : State lifecycles} (inv : Tended s) {v : Service}
    (hsettled : Settled s v.entry) (hnew : ¬ s.world.isRegistered v.registry v.channel = true)
    {i : Sid} {u : Service} (hu : s.world.services[i]? = some u)
    (hup : u.thread.isAlive = true) : u.entry ≠ v.entry := by
  intro hentry
  have halive := hsettled.2 u (List.mem_of_getElem? hu) hentry hup
  have hlisted := inv.listed i u hu halive
  rw [hentry] at hlisted
  exact hnew (decide_eq_true hlisted)

/-- A start does not concern the cleanups of other entries. -/
theorem start_suits {s : State lifecycles} (inv : Tended s) {sid : Sid} {v : Service}
    (hv : s.world.services[sid]? = some v) (hsettled : Settled s v.entry) {t : Tid}
    {th : Thread lifecycles} (ht : s.threads[t]? = some th) :
    Suits (World.setService {s.world with subscribed := v.entry :: s.world.subscribed} sid
      (fun v => {v with thread := .alive})) th := by
  have hsuits := inv.suits t th ht
  obtain ⟨kind, prog⟩ := th
  cases htarget : target kind with
  | none =>
      simp only [Suits, htarget] at hsuits ⊢
      exact hsuits
  | some sid' =>
      simp only [Suits, htarget] at hsuits ⊢
      obtain ⟨v', down, hv', hcleans, hrest⟩ := hsuits
      refine ⟨if sid = sid' then {v' with thread := .alive} else v', down, ?_, ?_, ?_⟩
      · rw [getElem?_setService, hv']
        rfl
      · split_ifs <;> exact hcleans
      cases prog with
      | done a => exact .inl trivial
      | raise e => exact .inl trivial
      | act p k =>
          have hother := hsettled.1 sid' (pending_of_running ht htarget) v' hv'
          refine .inr (fun i u hu halive hentry => ?_)
          have hentry : u.entry = v'.entry := by
            split_ifs at hentry <;> exact hentry
          rcases startedWorld_service hv hu with ⟨-, rfl⟩ | ⟨-, hold⟩
          · exact absurd hentry.symm hother
          · exact hrest.resolve_left id i u hold halive hentry

theorem start_tended {s : State lifecycles} (inv : Tended s) {sid : Sid} {v : Service}
    (hv : s.world.services[sid]? = some v) (hsettled : Settled s v.entry) :
    Tended {s with world := startedWorld s.world sid v} := by
  unfold startedWorld
  split_ifs with hknown hrun
  · exact inv
  · exact inv
  have free := fun {i u} => free_of_settled inv hsettled hknown (i := i) (u := u)
  refine ⟨⟨inv.wf.waits, inv.wf.nodup, inv.wf.served⟩,
    fun t th ht => start_suits inv hv hsettled ht, ?_, ?_⟩
  · intro i j u u' hu hu' halive hup hentry
    rcases startedWorld_service hv hu with ⟨rfl, rfl⟩ | ⟨-, hold⟩ <;>
      rcases startedWorld_service hv hu' with ⟨rfl, rfl⟩ | ⟨-, hold'⟩
    · rfl
    · exact absurd hentry.symm (free hold' hup)
    · exact absurd hentry (free hold (isAlive_of_alive halive))
    · exact inv.sole i j u u' hold hold' halive hup hentry
  · intro i u hu halive
    rcases startedWorld_service hv hu with ⟨-, rfl⟩ | ⟨-, hold⟩
    · exact List.mem_cons_self
    · exact List.mem_cons_of_mem _ (inv.listed i u hold halive)

theorem act_tended (s : State lifecycles) (a : Action) (s' : State lifecycles) (inv : Tended s)
    (hc : Careful s a) (h : act s a = some s') : Tended s' := by
  cases a with
  | start sid =>
      obtain ⟨v, hv, rfl⟩ := act_start h
      exact start_tended inv hv (hc v hv)
  | step l =>
      obtain ⟨o, ho⟩ := step_sound h
      exact step_tended inv hc ho

theorem Tended.covered {s : State lifecycles} (inv : Tended s) : Covered s := by
  intro v hmem hlive
  obtain ⟨sid, hv⟩ := List.mem_iff_getElem?.mp hmem
  exact decide_eq_true (inv.listed sid v hv hlive.1)

/-- In every run with careful callers the registry always has the channel of every
live subscription. -/
theorem live_registered {actions : List Action} (h : EachStep act Careful registryBoot actions) :
    Throughout act Covered registryBoot actions :=
  throughout_of act_tended (fun _ => Tended.covered) tended_boot h

/-- A thread runs for so many steps. -/
def actionTurns (t : Tid) (n : ℕ) : List Action := List.replicate n (.step (.run t {}))

/-- Two services for one channel, of which the first is started. -/
def twoServices : List Action :=
  [.step (.enter (.made 0 (.str "A") (some 0))), .step (.enter (.made 0 (.str "A") (some 0))),
    .start 0]

/-- The first service is stopped and its thread comes to its end; then the second
one is started. -/
def handedOver : List Action :=
  twoServices ++ .step (.enter (.stop 0)) :: actionTurns 2 6 ++
    .step (.enter (.ended 0)) :: actionTurns 3 4 ++ [.start 1]

theorem live_registered_successor : EachStep act Careful registryBoot handedOver ∧
    (handedOver.foldlM act registryBoot).map (fun s => s.world.services.map Service.thread) =
      some [.dead, .alive] ∧
    Throughout act Covered registryBoot handedOver := by
  have careful : EachStep act Careful registryBoot handedOver := by decide
  exact ⟨careful, rfl, live_registered careful⟩

/-- The second service never started a thread and is stopped. -/
def idleStop : List Action := twoServices ++ .step (.enter (.stop 1)) :: actionTurns 2 5

/-- The first service is stopped and the second one started; then the killed
thread of the first comes to its `ensure` clause. -/
def lateEnsure : List Action :=
  twoServices ++ .step (.enter (.stop 0)) :: actionTurns 2 6 ++
    [.start 1, .step (.enter (.ended 0))] ++ actionTurns 3 5

/-- Both deletions can take the entry of a live subscription of another service. -/
theorem live_unregistered : ¬ Throughout act Covered registryBoot idleStop ∧
    ¬ Throughout act Covered registryBoot lateEnsure := by
  decide

end EvoGw.SubscriberRegistry
