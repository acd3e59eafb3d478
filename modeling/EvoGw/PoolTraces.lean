import EvoGw.ThreadPools

/-!
# What a pool's log says about one thread

A step changes the program of at most two threads: the one that runs and, when
it pushes on a key with blocked clients, the client which is served. In both
cases the change is one answered primitive. So the log, read for one thread, is
a partial trace of the program with which this thread entered, and what is left
of the program after it is the thread's present program. Facts about a program
alone therefore carry over to every interleaving.
-/
namespace EvoGw.PoolTraces
open ThreadPrograms ThreadPools

variable {S : Signature} {M : Semantics S}

/-- The answered primitives of thread `u` in one observation. A wait that blocks
is not answered yet. -/
def events (u : Tid) : Obs M → List (Event S)
  | .entered _ _ => []
  | .called t c r => if t = u then [⟨.call c, r⟩] else []
  | .acquired t m => if t = u then [⟨.acquire m, ()⟩] else []
  | .released t m => if t = u then [⟨.release m, ()⟩] else []
  | .pushed t key d queue =>
      if t = u then [⟨.push key d, true⟩] else
        if queue.head? = some u then [⟨.await key, .got d⟩] else []
  | .pushFailed t key d => if t = u then [⟨.push key d, false⟩] else []
  | .cleared t key _ => if t = u then [⟨.clear key, true⟩] else []
  | .clearFailed t key => if t = u then [⟨.clear key, false⟩] else []
  | .awaited t key (some i) => if t = u then [⟨.await key, .got i.data⟩] else []
  | .awaited _ _ none => []
  | .awaitFailed t key => if t = u then [⟨.await key, .failed⟩] else []
  | .expired t key => if t = u then [⟨.await key, .timedOut⟩] else []

def trace (u : Tid) (log : List (Obs M)) : List (Event S) := log.flatMap (events u)

@[simp] theorem trace_append (u : Tid) (log log' : List (Obs M)) :
    trace u (log ++ log') = trace u log ++ trace u log' := by simp [trace]

@[simp] theorem trace_singleton (u : Tid) (o : Obs M) : trace u [o] = events u o := by
  simp [trace]

/-- The primitive which a step is about to perform. -/
def next? (s : State M) : Label M → Option (Prim S)
  | .run t _ =>
      match s.threads[t]? with
      | some ⟨_, .act p _⟩ => some p
      | _ => none
  | _ => none

theorem next?_run {s : State M} {t : Tid} {choice : M.Choice} {kind : M.Kind} {p : Prim S}
    {k : p.Resp → Program S M.Out} (ht : s.threads[t]? = some ⟨kind, .act p k⟩) :
    next? s (.run t choice) = some p := by
  simp only [next?, ht]

/-- An answered call of a thread is in the log. -/
theorem called_of_trace {u : Tid} {log : List (Obs M)} {c : S.Call} {r : S.Resp c}
    (h : ⟨.call c, r⟩ ∈ trace u log) : .called u c r ∈ log := by
  obtain ⟨o, ho, he⟩ := List.mem_flatMap.mp h
  cases o with
  | called t c' r' =>
      obtain ⟨rfl, hm⟩ := List.mem_ite_nil_right.mp he
      cases List.mem_singleton.mp hm
      exact ho
  | pushed t key d queue =>
      simp only [events] at he
      split_ifs at he <;> simp at he
  | awaited t key got => cases got <;> simp [events] at he
  | _ => simp [events] at he

theorem trace_of_called {u : Tid} {log : List (Obs M)} {c : S.Call} {r : S.Resp c}
    (h : .called u c r ∈ log) : ⟨.call c, r⟩ ∈ trace u log :=
  List.mem_flatMap.mpr ⟨_, h, by simp [events]⟩

theorem step_log {s s' : State M} {l : Label M} {o : Obs M} (h : Step s l o s') :
    s'.log = s.log ++ [o] := by
  cases h <;> simp

/-- Facts about blocked clients which hold of every pool. -/
structure Wf (s : State M) : Prop where
  waits : ∀ t key, (t, key) ∈ s.waiting →
    ∃ kind k, s.threads[t]? = some ⟨kind, .act (.await key) k⟩
  nodup : (s.waiting.map Prod.fst).Nodup
  served : ∀ key, s.lists key ≠ [] → s.queue key = []

theorem mem_queue {s : State M} {key : S.Key} {t : Tid} :
    t ∈ s.queue key ↔ (t, key) ∈ s.waiting := by
  simp [State.queue]

/-- How one step changes the thread `u`. -/
inductive Moves (s : State M) (o : Obs M) (u : Tid) (th : Thread M) : Prop
  | entered (w : M.World) : u = s.threads.length → o = .entered u th.kind →
      M.enter s.world u th.kind = some (w, th.prog) → Moves s o u th
  | stays : s.threads[u]? = some th → events u o = [] → Moves s o u th
  | answered (p : Prim S) (k : p.Resp → Program S M.Out) (r : p.Resp) :
      s.threads[u]? = some ⟨th.kind, .act p k⟩ → th.prog = k r → events u o = [⟨p, r⟩] →
      Moves s o u th

/-- A step which answers `t` and leaves every other thread alone. -/
private theorem moves_only {s s' : State M} {o : Obs M} {t u : Tid} {kind : M.Kind} {p : Prim S}
    {k : p.Resp → Program S M.Out} {r : p.Resp} {th : Thread M}
    (ht : s.threads[t]? = some ⟨kind, .act p k⟩) (hs : s'.threads = s.threads)
    (hu : (s'.setProg t (k r)).threads[u]? = some th) (ho : events t o = [⟨p, r⟩])
    (hother : ∀ v, v ≠ t → events v o = []) : Moves s o u th := by
  by_cases hut : u = t
  · subst hut
    rw [State.setProg_self (by rw [hs]; exact ht), Option.some.injEq] at hu
    subst hu
    exact .answered p k r ht rfl ho
  · rw [State.setProg_ne _ hut, hs] at hu
    exact .stays hu (hother u hut)

/-- Only the running thread and a served client move. -/
theorem step_moves {s s' : State M} {l : Label M} {o : Obs M} (wf : Wf s) (h : Step s l o s')
    {u : Tid} {th : Thread M} (hu : s'.threads[u]? = some th) : Moves s o u th := by
  cases h with
  | @enter kind w p he =>
      simp only [State.note_threads] at hu
      rcases Nat.lt_or_ge u s.threads.length with hlt | hge
      · rw [List.getElem?_append_left hlt] at hu
        exact .stays hu rfl
      · rw [List.getElem?_append_right hge] at hu
        obtain ⟨hz, hth⟩ := List.getElem?_eq_some_iff.mp hu
        rw [List.length_singleton, Nat.lt_one_iff, Nat.sub_eq_zero_iff_le] at hz
        obtain rfl : u = s.threads.length := Nat.le_antisymm hz hge
        simp only [Nat.sub_self, List.getElem_cons_zero] at hth
        subst hth
        exact .entered w rfl rfl he
  | call ht =>
      exact moves_only ht rfl hu (by simp [events]) (fun v hv => by simp [events, Ne.symm hv])
  | acquire ht _ =>
      exact moves_only ht rfl hu (by simp [events]) (fun v hv => by simp [events, Ne.symm hv])
  | release ht _ =>
      exact moves_only ht rfl hu (by simp [events]) (fun v hv => by simp [events, Ne.symm hv])
  | pushFail ht _ =>
      exact moves_only ht rfl hu (by simp [events]) (fun v hv => by simp [events, Ne.symm hv])
  | pushKeep ht _ _ =>
      exact moves_only ht rfl hu (by simp [events]) (fun v hv => by simp [events, Ne.symm hv])
  | @pushHand t r q choice kind key d k ht _ hq =>
      obtain ⟨rkind, rk, hr⟩ := wf.waits r key (mem_queue.mp (by rw [hq]; exact List.mem_cons_self))
      have hrt : t ≠ r := by
        rintro rfl
        rw [ht] at hr
        cases hr
      by_cases hut : u = t
      · subst hut
        rw [State.setProg_self (by rw [State.note_threads, State.resume_ne s hrt]; exact ht),
          Option.some.injEq] at hu
        subst hu
        exact .answered (.push key d) k true ht rfl (by simp [events])
      rw [State.setProg_ne _ hut, State.note_threads] at hu
      by_cases hur : u = r
      · subst hur
        rw [State.resume_self hr, Option.some.injEq] at hu
        subst hu
        exact .answered (.await key) rk (.got d) hr rfl (by simp [events, hrt])
      · rw [State.resume_ne s hur] at hu
        exact .stays hu (by simp [events, Ne.symm hut, Ne.symm hur])
  | clearFail ht _ =>
      exact moves_only ht rfl hu (by simp [events]) (fun v hv => by simp [events, Ne.symm hv])
  | clear ht _ =>
      exact moves_only ht rfl hu (by simp [events]) (fun v hv => by simp [events, Ne.symm hv])
  | awaitFail ht _ _ =>
      exact moves_only ht rfl hu (by simp [events]) (fun v hv => by simp [events, Ne.symm hv])
  | awaitBlock _ _ _ _ => exact .stays hu rfl
  | awaitTake ht _ _ _ =>
      exact moves_only ht rfl hu (by simp [events]) (fun v hv => by simp [events, Ne.symm hv])
  | @expire t kind key k ht _ =>
      rw [State.note_threads] at hu
      by_cases hut : u = t
      · subst hut
        rw [State.resume_self ht, Option.some.injEq] at hu
        subst hu
        exact .answered (.await key) k .timedOut ht rfl (by simp [events])
      · rw [State.resume_ne s hut] at hu
        exact .stays hu (by simp [events, Ne.symm hut])

theorem step_length {s s' : State M} {l : Label M} {o : Obs M} (h : Step s l o s') :
    s.threads.length ≤ s'.threads.length := by
  cases h <;> simp

/-- A thread which is not answered keeps its program. -/
theorem step_keeps {s s' : State M} {l : Label M} {o : Obs M} (wf : Wf s) (h : Step s l o s')
    {u : Tid} {th : Thread M} (hu : s.threads[u]? = some th) (he : events u o = []) :
    s'.threads[u]? = some th := by
  have hlt := (List.getElem?_eq_some_iff.mp hu).choose
  have hu' := List.getElem?_eq_getElem (Nat.lt_of_lt_of_le hlt (step_length h))
  cases step_moves wf h hu' with
  | entered w hn => exact absurd hn (Nat.ne_of_lt hlt)
  | stays hs => exact hu'.trans (hs.symm.trans hu)
  | answered p k r _ _ hr =>
      rw [he] at hr
      cases hr

/-- Kinds are fixed when a thread enters. -/
theorem step_kind {s s' : State M} {l : Label M} {o : Obs M} (wf : Wf s) (h : Step s l o s')
    {u : Tid} {th : Thread M} (hu : s.threads[u]? = some th) :
    ∃ p, s'.threads[u]? = some ⟨th.kind, p⟩ := by
  have hlt := (List.getElem?_eq_some_iff.mp hu).choose
  have hu' := List.getElem?_eq_getElem (Nat.lt_of_lt_of_le hlt (step_length h))
  cases step_moves wf h hu' with
  | entered w hn => exact absurd hn (Nat.ne_of_lt hlt)
  | stays hs => exact ⟨th.prog, hu'.trans (hs.symm.trans hu)⟩
  | answered p k r hs hp _ =>
      rw [hu, Option.some.injEq] at hs
      exact ⟨_, by rw [hu', hs]⟩

theorem wf_initial (w : M.World) : Wf (initial w : State M) :=
  ⟨by simp [initial], by simp [initial], by simp [initial]⟩

/-- Blocked clients are not running anything but their wait. -/
theorem Wf.ne_running {s : State M} (wf : Wf s) {u t : Tid} {key : S.Key} {kind : M.Kind}
    {p : Prim S} {k : p.Resp → Program S M.Out} (hw : (u, key) ∈ s.waiting)
    (ht : s.threads[t]? = some ⟨kind, .act p k⟩) (hp : ∀ key, p ≠ .await key) : u ≠ t := by
  rintro rfl
  obtain ⟨ukind, uk, hu⟩ := wf.waits u key hw
  rw [ht, Option.some.injEq, Thread.mk.injEq] at hu
  obtain ⟨-, hu⟩ := hu
  injection hu with hprim
  exact hp key hprim

theorem step_waits {s s' : State M} {l : Label M} {o : Obs M} (wf : Wf s) (h : Step s l o s')
    {u : Tid} {key : S.Key} (hw : (u, key) ∈ s'.waiting) :
    ∃ kind k, s'.threads[u]? = some ⟨kind, .act (.await key) k⟩ := by
  have keep : (u, key) ∈ s.waiting → events u o = [] →
      ∃ kind k, s'.threads[u]? = some ⟨kind, .act (.await key) k⟩ := by
    intro hm he
    obtain ⟨kind, k, hu⟩ := wf.waits u key hm
    exact ⟨kind, k, step_keeps wf h hu he⟩
  have blocked : (u, key) ∈ s.waiting → s.Blocked u := fun hm =>
    List.mem_map.mpr ⟨_, hm, rfl⟩
  cases h with
  | enter _ => exact keep hw rfl
  | call ht =>
      have hne := wf.ne_running hw ht (by simp)
      exact keep hw (by simp [events, Ne.symm hne])
  | acquire ht _ =>
      have hne := wf.ne_running hw ht (by simp)
      exact keep hw (by simp [events, Ne.symm hne])
  | release ht _ =>
      have hne := wf.ne_running hw ht (by simp)
      exact keep hw (by simp [events, Ne.symm hne])
  | pushFail ht _ =>
      have hne := wf.ne_running hw ht (by simp)
      exact keep hw (by simp [events, Ne.symm hne])
  | pushKeep ht _ _ =>
      have hne := wf.ne_running hw ht (by simp)
      exact keep hw (by simp [events, Ne.symm hne])
  | pushHand ht _ _ =>
      simp only [State.setProg_waiting, State.note_waiting, State.resume_waiting,
        List.mem_filter, decide_eq_true_eq] at hw
      have hne := wf.ne_running hw.1 ht (by simp)
      exact keep hw.1 (by simp [events, Ne.symm hne, Ne.symm hw.2])
  | clearFail ht _ =>
      have hne := wf.ne_running hw ht (by simp)
      exact keep hw (by simp [events, Ne.symm hne])
  | clear ht _ =>
      have hne := wf.ne_running hw ht (by simp)
      exact keep hw (by simp [events, Ne.symm hne])
  | @awaitFail t _ _ _ _ ht hb _ =>
      have hne : u ≠ t := fun he => hb (he ▸ blocked hw)
      exact keep hw (by simp [events, Ne.symm hne])
  | awaitBlock ht _ _ _ =>
      rcases List.mem_append.mp hw with hm | hm
      · exact keep hm rfl
      · obtain ⟨rfl, rfl⟩ := Prod.mk.inj (List.mem_singleton.mp hm)
        exact ⟨_, _, ht⟩
  | @awaitTake t _ _ _ _ _ _ ht hb _ _ =>
      have hne : u ≠ t := fun he => hb (he ▸ blocked hw)
      exact keep hw (by simp [events, Ne.symm hne])
  | expire ht _ =>
      simp only [State.note_waiting, State.resume_waiting, List.mem_filter,
        decide_eq_true_eq] at hw
      exact keep hw.1 (by simp [events, Ne.symm hw.2])

theorem step_nodup {s s' : State M} {l : Label M} {o : Obs M} (wf : Wf s) (h : Step s l o s') :
    (s'.waiting.map Prod.fst).Nodup := by
  have drop : ∀ t, ((s.waiting.filter (fun e => e.1 ≠ t)).map Prod.fst).Nodup := fun t =>
    (List.filter_sublist.map Prod.fst).nodup wf.nodup
  cases h with
  | pushHand _ _ _ => exact drop _
  | expire _ _ => exact drop _
  | awaitBlock _ hb _ _ =>
      simp only [State.note_waiting, List.map_append, List.map_cons, List.map_nil]
      exact List.nodup_append.mpr ⟨wf.nodup, by simp,
        fun a ha b hb' he => hb (by rw [← List.mem_singleton.mp hb', ← he]; exact ha)⟩
  | _ => exact wf.nodup

/-- An element of a list was there before the step, or the step has pushed it. -/
theorem step_item {s s' : State M} {l : Label M} {o : Obs M} (h : Step s l o s') {key : S.Key}
    {i : Item S} (hi : i ∈ s'.lists key) :
    i ∈ s.lists key ∨ o = .pushed i.pusher key i.data [] ∧
      ∃ kind k, s.threads[i.pusher]? = some ⟨kind, .act (.push key i.data) k⟩ := by
  cases h with
  | @pushKeep t _ kind key' d k ht _ _ =>
      rcases State.mem_setList (s := s) hi with ⟨rfl, hnew⟩ | ⟨-, hold⟩
      · rcases List.mem_cons.mp hnew with rfl | hold
        · exact .inr ⟨rfl, kind, k, ht⟩
        · exact .inl hold
      · exact .inl hold
  | clear _ _ =>
      rcases State.mem_setList (s := s) hi with ⟨-, hnew⟩ | ⟨-, hold⟩
      · cases hnew
      · exact .inl hold
  | awaitTake _ _ _ hl =>
      rcases State.mem_setList (s := s) hi with ⟨rfl, hnew⟩ | ⟨-, hold⟩
      · rw [hl]
        exact .inl (List.mem_cons_of_mem _ hnew)
      · exact .inl hold
  | _ => exact .inl hi

theorem step_served {s s' : State M} {l : Label M} {o : Obs M} (wf : Wf s) (h : Step s l o s')
    {key : S.Key} (hl : s'.lists key ≠ []) : s'.queue key = [] := by
  have drop : ∀ t, s.queue key = [] →
      ((s.waiting.filter (fun e => e.1 ≠ t)).filter (fun e => e.2 = key)).map Prod.fst = [] := by
    intro t hq
    have hsub : ((s.waiting.filter (fun e => e.1 ≠ t)).filter (fun e => e.2 = key)).Sublist
        (s.waiting.filter (fun e => e.2 = key)) := List.filter_sublist.filter _
    rw [State.queue, List.map_eq_nil_iff] at hq
    rw [hq] at hsub
    rw [List.sublist_nil.mp hsub, List.map_nil]
  cases h with
  | @pushKeep t _ _ key' d _ _ _ hq =>
      by_cases hk : key = key'
      · subst hk
        exact hq
      · exact wf.served key (by simpa [Function.update_of_ne hk] using hl)
  | pushHand _ _ _ => exact drop _ (wf.served key hl)
  | @clear _ _ _ key' _ _ _ =>
      by_cases hk : key = key'
      · subst hk
        simp at hl
      · exact wf.served key (by simpa [Function.update_of_ne hk] using hl)
  | @awaitBlock t _ _ key' _ _ _ _ hn =>
      have hk : key' ≠ key := by
        rintro rfl
        exact hl hn
      simpa [State.queue, hk] using wf.served key hl
  | @awaitTake _ _ _ key' i is _ _ _ _ hn =>
      by_cases hk : key = key'
      · subst hk
        exact wf.served key (by simp [hn])
      · exact wf.served key (by simpa [Function.update_of_ne hk] using hl)
  | expire _ _ => exact drop _ (wf.served key hl)
  | _ => exact wf.served key hl

theorem step_wf {s s' : State M} {l : Label M} {o : Obs M} (wf : Wf s) (h : Step s l o s') :
    Wf s' :=
  ⟨fun _ _ hw => step_waits wf h hw, step_nodup wf h, fun _ hl => step_served wf h hl⟩

theorem exec_wf_from {s₀ s : State M} {ls : List (Label M)} (wf : Wf s₀)
    (h : exec s₀ ls = some s) : Wf s :=
  exec_induction (P := fun _ s => Wf s) wf (fun _ _ _ _ _ _ ih hstep => step_wf ih hstep) h

theorem exec_wf {w : M.World} {s : State M} {ls : List (Label M)}
    (h : exec (initial w) ls = some s) : Wf s := exec_wf_from (wf_initial w) h

theorem exec_log {s₀ s : State M} {ls : List (Label M)} (h : exec s₀ ls = some s) :
    ∃ log, s.log = s₀.log ++ log := by
  refine exec_induction (P := fun _ s => ∃ log, s.log = s₀.log ++ log) ⟨[], by simp⟩ ?_ h
  rintro _ s l o s' - ⟨log, hlog⟩ hstep
  exact ⟨log ++ [o], by rw [step_log hstep, hlog, List.append_assoc]⟩

/-- A run passes through the state in which an observation of its log was made. -/
theorem exec_split {s₀ s : State M} {ls : List (Label M)} (h : exec s₀ ls = some s)
    {pre post : List (Obs M)} {o : Obs M} (hlog : s.log = s₀.log ++ pre ++ o :: post) :
    ∃ ls₁ l ls₂ s₁ s₂, ls = ls₁ ++ l :: ls₂ ∧ exec s₀ ls₁ = some s₁ ∧ Step s₁ l o s₂ ∧
      exec s₂ ls₂ = some s ∧ s₁.log = s₀.log ++ pre := by
  induction ls generalizing s₀ pre with
  | nil =>
      cases h
      have hlen := congrArg List.length hlog
      simp at hlen
  | cons l ls ih =>
      obtain ⟨s₁, hstep, hrest⟩ := Option.bind_eq_some_iff.mp h
      obtain ⟨o₁, ho₁⟩ := step_sound hstep
      have hlog₁ := step_log ho₁
      obtain ⟨log, hlog'⟩ := exec_log hrest
      have hcons : o₁ :: log = pre ++ o :: post := by
        rw [hlog', hlog₁, List.append_assoc, List.append_assoc] at hlog
        simpa using hlog
      cases pre with
      | nil =>
          obtain ⟨rfl, -⟩ := List.cons.inj hcons
          exact ⟨[], l, ls, s₀, s₁, rfl, rfl, ho₁, hrest, by simp⟩
      | cons o' pre =>
          obtain ⟨rfl, htail⟩ := List.cons.inj hcons
          have hlate : s.log = s₁.log ++ pre ++ o :: post := by
            rw [hlog', List.append_assoc]
            exact congrArg _ htail
          obtain ⟨ls₁, l', ls₂, u, u', rfl, hu, hu', hend, hulog⟩ := ih hrest hlate
          refine ⟨l :: ls₁, l', ls₂, u, u', rfl, ?_, hu', hend, ?_⟩
          · rw [exec, hstep]
            exact hu
          · rw [hulog, hlog₁]
            simp

/-- An element that the first list does not have lies behind it. -/
theorem split_behind {X : Type} {xs ys pre post : List X} {x : X}
    (h : xs ++ ys = pre ++ x :: post) (hx : x ∉ xs) :
    ∃ pre', pre = xs ++ pre' ∧ ys = pre' ++ x :: post := by
  rcases List.append_eq_append_iff.mp h with ⟨pre', rfl, hys⟩ | ⟨rest, rfl, hrest⟩
  · exact ⟨pre', rfl, hys⟩
  · cases rest with
    | nil => exact ⟨[], by simp, by simpa using hrest.symm⟩
    | cons y rest =>
        obtain ⟨rfl, -⟩ := List.cons.inj hrest
        exact absurd (List.mem_append_right _ List.mem_cons_self) hx

theorem exec_kind {s₀ s : State M} {ls : List (Label M)} (wf : Wf s₀) (h : exec s₀ ls = some s)
    {u : Tid} {th : Thread M} (hu : s₀.threads[u]? = some th) :
    ∃ p, s.threads[u]? = some ⟨th.kind, p⟩ := by
  refine exec_induction (P := fun _ s => ∃ p, s.threads[u]? = some ⟨th.kind, p⟩)
    ⟨th.prog, hu⟩ ?_ h
  intro ls s l o s' hs ih hstep
  obtain ⟨p, hp⟩ := ih
  obtain ⟨p', hp'⟩ := step_kind (exec_wf_from wf hs) hstep hp
  exact ⟨p', hp'⟩

/-- The thread has ended, normally or with an exception. -/
def Ended (s : State M) (u : Tid) : Prop := ∃ th, s.threads[u]? = some th ∧ th.prog.Finished

theorem step_ended {s s' : State M} {l : Label M} {o : Obs M} (wf : Wf s) (h : Step s l o s')
    {u : Tid} (hu : Ended s u) : Ended s' u := by
  obtain ⟨th, ht, hfin⟩ := hu
  obtain ⟨p, hp⟩ := step_kind wf h ht
  cases step_moves wf h hp with
  | entered w hn =>
      have hlt := (List.getElem?_eq_some_iff.mp ht).choose
      exact absurd hn (Nat.ne_of_lt hlt)
  | stays hs =>
      rw [ht] at hs
      exact ⟨_, hp, by rw [← Option.some.inj hs]; exact hfin⟩
  | answered q k r hs =>
      rw [ht, Option.some.injEq] at hs
      rw [hs] at hfin
      exact hfin.elim

theorem exec_ended {s₀ s : State M} {ls : List (Label M)} (wf : Wf s₀) (h : exec s₀ ls = some s)
    {u : Tid} (hu : Ended s₀ u) : Ended s u := by
  refine exec_induction (P := fun _ s => Ended s u) hu ?_ h
  intro ls s l o s' hs ih hstep
  exact step_ended (exec_wf_from wf hs) hstep ih

theorem Ended.not_running {s : State M} {u : Tid} (hu : Ended s u) {kind : M.Kind} {p : Prim S}
    {k : p.Resp → Program S M.Out} (ht : s.threads[u]? = some ⟨kind, .act p k⟩) : False := by
  obtain ⟨th, hth, hfin⟩ := hu
  rw [ht, Option.some.injEq] at hth
  subst hth
  exact hfin

/-- A thread has no trace before it enters. -/
theorem step_absent {s s' : State M} {l : Label M} {o : Obs M} (wf : Wf s) (h : Step s l o s')
    {u : Tid} (hu : s.threads.length ≤ u) : events u o = [] := by
  have lt : ∀ {t : Tid} {th : Thread M}, s.threads[t]? = some th → t ≠ u := fun ht =>
    Nat.ne_of_lt (Nat.lt_of_lt_of_le (List.getElem?_eq_some_iff.mp ht).choose hu)
  cases h with
  | enter _ => rfl
  | pushHand ht _ hq =>
      obtain ⟨_, _, hr⟩ := wf.waits _ _ (mem_queue.mp (by rw [hq]; exact List.mem_cons_self))
      simp [events, lt ht, lt hr]
  | awaitBlock _ _ _ _ => rfl
  | call ht => simp [events, lt ht]
  | acquire ht _ => simp [events, lt ht]
  | release ht _ => simp [events, lt ht]
  | pushFail ht _ => simp [events, lt ht]
  | pushKeep ht _ _ => simp [events, lt ht]
  | clearFail ht _ => simp [events, lt ht]
  | clear ht _ => simp [events, lt ht]
  | awaitFail ht _ _ => simp [events, lt ht]
  | awaitTake ht _ _ _ => simp [events, lt ht]
  | expire ht _ => simp [events, lt ht]

theorem exec_absent {w : M.World} {s : State M} {ls : List (Label M)}
    (h : exec (initial w) ls = some s) {u : Tid} (hu : s.threads.length ≤ u) :
    trace u s.log = [] := by
  refine exec_induction (P := fun _ s => s.threads.length ≤ u → trace u s.log = [])
    (fun _ => rfl) ?_ h hu
  intro ls s l o s' hs ih hstep hu
  have hu' := Nat.le_trans (step_length hstep) hu
  rw [step_log hstep, trace_append, trace_singleton, ih hu', step_absent (exec_wf hs) hstep hu']
  rfl

/-- The log read for one thread is a partial trace of the program with which it
entered, and leaves its present program. -/
theorem exec_residual {w : M.World} {s : State M} {ls : List (Label M)}
    (h : exec (initial w) ls = some s) {u : Tid} {th : Thread M} (hu : s.threads[u]? = some th) :
    ∃ v v' p, M.enter v u th.kind = some (v', p) ∧ Residual p (trace u s.log) th.prog := by
  refine exec_induction (P := fun _ s => ∀ th : Thread M, s.threads[u]? = some th → ∃ v v' p,
    M.enter v u th.kind = some (v', p) ∧ Residual p (trace u s.log) th.prog)
    (by simp [initial]) ?_ h th hu
  intro ls s l o s' hs ih hstep th hu
  rw [step_log hstep, trace_append, trace_singleton]
  cases step_moves (exec_wf hs) hstep hu with
  | entered v hn ho he =>
      rw [exec_absent hs (Nat.le_of_eq hn.symm), ho]
      exact ⟨s.world, v, th.prog, he, .nil _⟩
  | stays hold he =>
      rw [he, List.append_nil]
      exact ih th hold
  | answered p k r hold hp he =>
      obtain ⟨v, v', q, hq, hres⟩ := ih _ hold
      rw [he, hp]
      exact ⟨v, v', q, hq, hres.snoc r⟩

theorem thread_of_trace {w : M.World} {s : State M} {ls : List (Label M)}
    (h : exec (initial w) ls = some s) {u : Tid} {e : Event S} (he : e ∈ trace u s.log) :
    ∃ th, s.threads[u]? = some th := by
  cases hu : s.threads[u]? with
  | some th => exact ⟨th, rfl⟩
  | none =>
      rw [exec_absent h (List.getElem?_eq_none_iff.mp hu)] at he
      cases he

/-- The calls of a thread that enters during a run are made during this run. -/
theorem exec_split_called {w : M.World} {s₀ s : State M} {ls₀ ls : List (Label M)}
    (h₀ : exec (initial w) ls₀ = some s₀) (h : exec s₀ ls = some s) {u : Tid}
    (hu : s₀.threads.length ≤ u) {c : S.Call} {r : S.Resp c} (hlog : .called u c r ∈ s.log) :
    ∃ ls₁ l ls₂ s₁ s₂, ls = ls₁ ++ l :: ls₂ ∧ exec s₀ ls₁ = some s₁ ∧
      Step s₁ l (.called u c r) s₂ ∧ exec s₂ ls₂ = some s := by
  obtain ⟨log, hgrown⟩ := exec_log h
  have hnew : .called u c r ∉ s₀.log := by
    intro hold
    have htrace : (⟨.call c, r⟩ : Event S) ∈ trace u s₀.log := trace_of_called hold
    rw [exec_absent h₀ hu] at htrace
    cases htrace
  rw [hgrown] at hlog
  obtain ⟨pre, post, rfl⟩ := List.append_of_mem ((List.mem_append.mp hlog).resolve_left hnew)
  rw [← List.append_assoc] at hgrown
  obtain ⟨ls₁, l, ls₂, s₁, s₂, hls, h₁, hstep, h₂, -⟩ := exec_split h hgrown
  exact ⟨ls₁, l, ls₂, s₁, s₂, hls, h₁, hstep, h₂⟩

/-- If the programs with which threads of a kind enter have allowed primitives
only, such threads never perform others. -/
theorem exec_uses {ok : M.Kind → Prim S → Prop}
    (henter : ∀ w u kind w' p, M.enter w u kind = some (w', p) → Uses (ok kind) p) {w : M.World}
    {s : State M} {ls : List (Label M)} (h : exec (initial w) ls = some s) {u : Tid} {e : Event S}
    (he : e ∈ trace u s.log) : ∃ th, s.threads[u]? = some th ∧ ok th.kind e.prim := by
  obtain ⟨th, hu⟩ := thread_of_trace h he
  obtain ⟨v, v', p, hp, hres⟩ := exec_residual h hu
  exact ⟨th, hu, (hres.uses (henter _ _ _ _ _ hp)).1 e he⟩

end EvoGw.PoolTraces
