import EvoGw.PoolTraces

/-!
# Handing an element over inside a mutex section

The discipline of this module is: a thread takes one fixed mutex, pushes at most
one element, deletes the same list before it does anything else, and gives the
mutex back. Other threads only wait on lists, outside the mutex. `Keeps` checks
a program against the discipline, one primitive at a time, so it is proved of a
program once and then holds in every interleaving.

For pools whose programs keep it, and whose list store does not refuse, the fate
of every pushed element is determined: it goes to the first client among those
blocked on the key at the push, longest first, followed by those that start to
wait before the deletion. Nobody else ever gets it, and no deletion removes an
element of another thread.
-/
namespace EvoGw.LockedHandoff
open ThreadPrograms ThreadPools PoolTraces

variable {S : Signature} {M : Semantics S} {A B : Type}

/-- Where a thread is: outside the mutex, inside it, or between push and
deletion. `spent` says that its one push is behind it. -/
inductive Phase (S : Signature) where
  | idle (spent : Bool)
  | held (spent : Bool)
  | pushed (key : S.Key)

def Phase.isIdle : Phase S → Bool
  | .idle _ => true
  | _ => false

def Phase.isFresh : Phase S → Bool
  | .idle spent => !spent
  | .held spent => !spent
  | .pushed _ => false

def Phase.isSpent : Phase S → Bool
  | .idle spent => spent
  | .held spent => spent
  | .pushed _ => false

/-- The one element a thread may push and the one key it may wait on. -/
structure Permit (S : Signature) where
  pushes : Option (S.Key × S.Data)
  awaits : Option S.Key

def Allowed (m : S.Mutex) (permit : Permit S) : Phase S → Prim S → Prop
  | .idle _, .call _ => True
  | .idle _, .acquire _ => True
  | .idle _, .release m' => m' ≠ m
  | .idle _, .push _ _ => False
  | .idle _, .clear _ => False
  | .idle _, .await key => permit.awaits = some key
  | .held _, .call _ => True
  | .held _, .acquire m' => m' ≠ m
  | .held _, .release _ => True
  | .held spent, .push key d => spent = false ∧ permit.pushes = some (key, d)
  | .held _, .clear _ => False
  | .held _, .await _ => False
  | .pushed key, .clear key' => key' = key
  | .pushed _, _ => False

def next (m : S.Mutex) : Phase S → Prim S → Phase S
  | .idle spent, .acquire m' => if m' = m then .held spent else .idle spent
  | .held spent, .release m' => if m' = m then .idle spent else .held spent
  | .held _, .push key _ => .pushed key
  | .pushed _, .clear _ => .held true
  | ph, _ => ph

/-- The answers of a list store which does not refuse. -/
def Granted : (p : Prim S) → p.Resp → Prop
  | .push _ _, r => r = true
  | .clear _, r => r = true
  | .await _, r => r ≠ .failed
  | _, _ => True

/-- From phase `ph` the program is disciplined, and ends or raises in `post`. -/
def Keeps (m : S.Mutex) (permit : Permit S) (post : Phase S → Prop) :
    Phase S → Program S A → Prop
  | ph, .done _ => post ph
  | ph, .raise _ => post ph
  | ph, .act p k => Allowed m permit ph p ∧
      ∀ r, Granted p r → Keeps m permit post (next m ph p) (k r)

def IsIdle (ph : Phase S) : Prop := ph.isIdle = true

section Rules
variable {m : S.Mutex} {permit : Permit S} {post post' : Phase S → Prop} {ph : Phase S}

theorem Keeps.bind {p : Program S A} {f : A → Program S B} (hp : Keeps m permit post ph p)
    (hf : ∀ ph' a, post ph' → Keeps m permit post' ph' (f a))
    (hr : ∀ ph', post ph' → post' ph') : Keeps m permit post' ph (p >>= f) := by
  induction p generalizing ph with
  | done a => exact hf ph a hp
  | raise e => exact hr ph hp
  | act p k ih => exact ⟨hp.1, fun r hg => ih r (hp.2 r hg)⟩

theorem Keeps.rescue {p : Program S A} {f : S.Err → Program S A} (hp : Keeps m permit post ph p)
    (hf : ∀ ph' e, post ph' → Keeps m permit post' ph' (f e))
    (hd : ∀ ph', post ph' → post' ph') : Keeps m permit post' ph (p.rescue f) := by
  induction p generalizing ph with
  | done a => exact hd ph hp
  | raise e => exact hf ph e hp
  | act p k ih => exact ⟨hp.1, fun r hg => ih r (hp.2 r hg)⟩

theorem Keeps.ensure {p : Program S A} {q : Program S Unit} (hp : Keeps m permit post ph p)
    (hq : ∀ ph', post ph' → Keeps m permit post' ph' q) :
    Keeps m permit post' ph (p.ensure q) := by
  induction p generalizing ph with
  | done a => exact (hq ph hp).bind (fun _ _ h => h) (fun _ h => h)
  | raise e => exact (hq ph hp).bind (fun _ _ h => h) (fun _ h => h)
  | act p k ih => exact ⟨hp.1, fun r hg => ih r (hp.2 r hg)⟩

theorem Keeps.mono {p : Program S A} (hp : Keeps m permit post ph p)
    (h : ∀ ph', post ph' → post' ph') : Keeps m permit post' ph p := by
  induction p generalizing ph with
  | done a => exact h ph hp
  | raise e => exact h ph hp
  | act p k ih => exact ⟨hp.1, fun r hg => ih r (hp.2 r hg)⟩

theorem Keeps.seq {ph' : Phase S} {p : Program S A} {f : A → Program S B}
    (hp : Keeps m permit (fun q => q = ph') ph p) (hf : ∀ a, Keeps m permit post ph' (f a))
    (hr : post ph') : Keeps m permit post ph (p >>= f) :=
  hp.bind (fun _ a h => h ▸ hf a) (fun _ h => h ▸ hr)

/-- Calls are invisible to the discipline, except between push and deletion. -/
theorem Keeps.of_calls {p : Program S A} (hp : Uses Prim.IsCall p)
    (hph : ∀ key, ph ≠ .pushed key) : Keeps m permit (fun q => q = ph) ph p := by
  induction p with
  | done a => rfl
  | raise e => rfl
  | act p k ih =>
      cases p with
      | call c =>
          cases ph with
          | idle b => exact ⟨trivial, fun r _ => ih r (hp.2 r)⟩
          | held b => exact ⟨trivial, fun r _ => ih r (hp.2 r)⟩
          | pushed key => exact absurd rfl (hph key)
      | _ => exact hp.1.elim

/-- The section of the guarding mutex: the body runs inside. -/
theorem Keeps.synchronize {b b' : Bool} {p : Program S A}
    (hp : Keeps m permit (fun ph => ph = .held b') (.held b) p) :
    Keeps m permit (fun ph => ph = .idle b') (.idle b) (p.synchronize m) := by
  refine ⟨trivial, fun _ _ => ?_⟩
  rw [next, if_pos rfl]
  refine hp.ensure (fun ph' hph => ?_)
  subst hph
  exact ⟨trivial, fun _ _ => by simp [next, Keeps]⟩

/-- The section of any other mutex is invisible to the discipline. -/
theorem Keeps.synchronize_other {m' : S.Mutex} (hm : m' ≠ m) {b b' : Bool} {p : Program S A}
    (hp : Keeps m permit (fun ph => ph = .idle b') (.idle b) p) :
    Keeps m permit (fun ph => ph = .idle b') (.idle b) (p.synchronize m') := by
  refine ⟨trivial, fun _ _ => ?_⟩
  rw [next, if_neg hm]
  refine hp.ensure (fun ph' hph => ?_)
  subst hph
  exact ⟨hm, fun _ _ => by simp [next, Keeps]⟩

end Rules

/-- The phase of a thread, read off the log. -/
def phase (m : S.Mutex) (u : Tid) (log : List (Obs M)) : Phase S :=
  (trace u log).foldl (fun ph e => next m ph e.prim) (.idle false)

theorem phase_snoc (m : S.Mutex) (u : Tid) (log : List (Obs M)) (o : Obs M) :
    phase m u (log ++ [o]) = (events u o).foldl (fun ph e => next m ph e.prim) (phase m u log) := by
  simp [phase, List.foldl_append]

theorem phase_of_nil {m : S.Mutex} {u : Tid} {log : List (Obs M)} {o : Obs M}
    (h : events u o = []) : phase m u (log ++ [o]) = phase m u log := by
  rw [phase_snoc, h, List.foldl_nil]

theorem phase_of_single {m : S.Mutex} {u : Tid} {log : List (Obs M)} {o : Obs M} {e : Event S}
    (h : events u o = [e]) : phase m u (log ++ [o]) = next m (phase m u log) e.prim := by
  rw [phase_snoc, h, List.foldl_cons, List.foldl_nil]

/-- A step of a calm run answers with what the discipline expects. -/
theorem granted_of_calm {s s' : State M} {l : Label M} {o : Obs M} (h : Step s l o s')
    (hl : l.Calm) {u : Tid} {p : Prim S} {r : p.Resp} (he : events u o = [⟨p, r⟩]) :
    Granted p r := by
  have key : ∀ e ∈ events u o, Granted e.prim e.resp := by
    cases h with
    | pushFail _ hf =>
        rw [Label.Calm, hf] at hl
        cases hl
    | clearFail _ hf =>
        rw [Label.Calm, hf] at hl
        cases hl
    | awaitFail _ _ hf =>
        rw [Label.Calm, hf] at hl
        cases hl
    | pushKeep _ _ _ | pushHand _ _ _ =>
        intro e he
        simp only [events] at he
        split_ifs at he with h₁ h₂
        · rw [List.mem_singleton.mp he]
          rfl
        · rw [List.mem_singleton.mp he]
          simp [Granted]
        · cases he
    | enter _ => simp [events]
    | awaitBlock _ _ _ _ => simp [events]
    | _ =>
        intro e he
        simp only [events] at he
        split_ifs at he
        · rw [List.mem_singleton.mp he]
          simp [Granted]
        · simp at he
  exact key ⟨p, r⟩ (by rw [he]; exact List.mem_cons_self)

/-- What ties the owner of the mutex, the place of every thread in its program
and the contents of every list together. -/
structure Guarded (m : S.Mutex) (permit : M.Kind → Permit S) (s : State M) : Prop where
  wf : Wf s
  keeps : ∀ t th, s.threads[t]? = some th →
    Keeps m (permit th.kind) IsIdle (phase m t s.log) th.prog
  absent : ∀ t, s.threads.length ≤ t → phase m t s.log = .idle false
  owner : ∀ t, s.locks m = some t ↔ (phase m t s.log).isIdle = false
  items : ∀ key i, i ∈ s.lists key → phase m i.pusher s.log = .pushed key

section Invariant
variable {m : S.Mutex} {permit : M.Kind → Permit S} {s s' : State M} {l : Label M} {o : Obs M}

theorem guarded_initial (w : M.World) : Guarded m permit (initial w : State M) where
  wf := wf_initial w
  keeps := by simp [initial]
  absent := fun _ _ => rfl
  owner := fun _ => by simp [initial, phase, trace, Phase.isIdle]
  items := by simp [initial]

/-- Two threads are never inside the mutex at once. -/
theorem Guarded.unique (g : Guarded m permit s) {t u : Tid}
    (ht : (phase m t s.log).isIdle = false) (hu : (phase m u s.log).isIdle = false) : t = u := by
  have h := (g.owner t).mpr ht
  rw [(g.owner u).mpr hu, Option.some.injEq] at h
  exact h.symm

theorem Guarded.pushed_unique (g : Guarded m permit s) {t u : Tid} {key : S.Key}
    (ht : phase m t s.log = .pushed key) (hu : (phase m u s.log).isIdle = false) : u = t :=
  g.unique hu (by rw [ht]; rfl)

/-- While some thread is inside but not between push and deletion, all lists are
empty. -/
theorem Guarded.lists_nil (g : Guarded m permit s) {t : Tid} {b : Bool}
    (ht : phase m t s.log = .held b) (key : S.Key) : s.lists key = [] := by
  rw [List.eq_nil_iff_forall_not_mem]
  intro i hi
  have hp := g.items key i hi
  have he := g.pushed_unique hp (u := t) (by rw [ht]; rfl)
  rw [← he, ht] at hp
  cases hp

theorem step_phase (g : Guarded m permit s) (h : Step s l o s') (u : Tid) :
    (events u o = [] ∧ phase m u s'.log = phase m u s.log) ∨
    ∃ kind p k r, s.threads[u]? = some ⟨kind, .act p k⟩ ∧ events u o = [⟨p, r⟩] ∧
      Allowed m (permit kind) (phase m u s.log) p ∧
      phase m u s'.log = next m (phase m u s.log) p := by
  rw [step_log h]
  rcases Nat.lt_or_ge u s'.threads.length with hlt | hge
  · cases step_moves g.wf h (List.getElem?_eq_getElem hlt) with
    | entered w hn ho he =>
        have hnil : events u o = [] := by rw [ho]; rfl
        exact .inl ⟨hnil, phase_of_nil hnil⟩
    | stays _ hnil => exact .inl ⟨hnil, phase_of_nil hnil⟩
    | answered p k r hold _ he =>
        exact .inr ⟨_, p, k, r, hold, he, (g.keeps u _ hold).1, phase_of_single he⟩
  · have hnil := step_absent g.wf h (Nat.le_trans (step_length h) hge)
    exact .inl ⟨hnil, phase_of_nil hnil⟩

theorem isIdle_next {permit : Permit S} {ph : Phase S} {p : Prim S} (ha : Allowed m permit ph p)
    (hacq : p ≠ .acquire m) (hrel : p ≠ .release m) : (next m ph p).isIdle = ph.isIdle := by
  cases ph <;> cases p <;> simp_all [Allowed, next, Phase.isIdle]

theorem acquired_of_events {u : Tid} {m : S.Mutex} {r : Unit}
    (h : events u o = [⟨.acquire m, r⟩]) : o = .acquired u m := by
  cases o with
  | acquired t m' =>
      simp only [events] at h
      split_ifs at h with ht
      simp only [List.cons.injEq, Event.mk.injEq, Prim.acquire.injEq] at h
      rw [ht, h.1.1]
  | awaited t key got =>
      cases got with
      | none => simp [events] at h
      | some i =>
          simp only [events] at h
          split_ifs at h
          simp at h
  | entered t kind => simp [events] at h
  | _ =>
      simp only [events] at h
      split_ifs at h <;> simp at h

theorem released_of_events {u : Tid} {m : S.Mutex} {r : Unit}
    (h : events u o = [⟨.release m, r⟩]) : o = .released u m := by
  cases o with
  | released t m' =>
      simp only [events] at h
      split_ifs at h with ht
      simp only [List.cons.injEq, Event.mk.injEq, Prim.release.injEq] at h
      rw [ht, h.1.1]
  | awaited t key got =>
      cases got with
      | none => simp [events] at h
      | some i =>
          simp only [events] at h
          split_ifs at h
          simp at h
  | entered t kind => simp [events] at h
  | _ =>
      simp only [events] at h
      split_ifs at h <;> simp at h

theorem step_owner (g : Guarded m permit s) (h : Step s l o s') (u : Tid) :
    s'.locks m = some u ↔ (phase m u s'.log).isIdle = false := by
  have same : s'.locks m = s.locks m → (∀ v, o ≠ .acquired v m) → (∀ v, o ≠ .released v m) →
      (s'.locks m = some u ↔ (phase m u s'.log).isIdle = false) := by
    intro hlock hacq hrel
    rw [hlock, g.owner u]
    rcases step_phase g h u with ⟨-, hp⟩ | ⟨kind, p, k, r, -, he, ha, hp⟩
    · rw [hp]
    · rw [hp, isIdle_next ha]
      · rintro rfl
        exact hacq u (acquired_of_events he)
      · rintro rfl
        exact hrel u (released_of_events he)
  cases h with
  | @acquire t _ kind m' k ht hfree =>
      by_cases hm : m' = m
      · subst hm
        have hidle : ∀ v, (phase m' v s.log).isIdle = true := by
          intro v
          have hv := g.owner v
          rw [hfree] at hv
          simpa using hv
        simp only [State.setProg_locks, State.note_locks, State.setLock_locks,
          Function.update_self, Option.some.injEq, State.setProg_log, State.note_log,
          State.setLock_log]
        by_cases hut : t = u
        · subst hut
          rw [phase_of_single (e := ⟨.acquire m', ()⟩) (by simp [events])]
          have ht' := hidle t
          cases hph : phase m' t s.log with
          | idle b => simp [next, Phase.isIdle]
          | held b => simp [hph, Phase.isIdle] at ht'
          | pushed key => simp [hph, Phase.isIdle] at ht'
        · rw [phase_of_nil (by simp [events, hut]), hidle u]
          simp [hut]
      · exact same (by simp [Function.update_of_ne (Ne.symm hm)])
          (by rintro v ⟨⟩; exact hm rfl) (by simp)
  | @release t _ kind m' k ht howner =>
      by_cases hm : m' = m
      · subst hm
        have hpt := (g.owner t).mp howner
        simp only [State.setProg_locks, State.note_locks, State.setLock_locks,
          Function.update_self, State.setProg_log, State.note_log, State.setLock_log,
          reduceCtorEq, false_iff, Bool.not_eq_false]
        by_cases hut : t = u
        · subst hut
          have ha := (g.keeps t _ ht).1
          rw [phase_of_single (e := ⟨.release m', ()⟩) (by simp [events])]
          cases hph : phase m' t s.log with
          | idle b => simp [hph, Phase.isIdle] at hpt
          | held b => simp [next, Phase.isIdle]
          | pushed key =>
              rw [hph] at ha
              exact ha.elim
        · rw [phase_of_nil (by simp [events, hut])]
          by_contra hu
          exact hut (g.unique hpt (by simpa using hu))
      · exact same (by simp [Function.update_of_ne (Ne.symm hm)]) (by simp)
          (by rintro v ⟨⟩; exact hm rfl)
  | _ => exact same rfl (by simp) (by simp)

/-- Between push and deletion a thread is answered nothing but its deletion. -/
theorem Guarded.pushed_moves (g : Guarded m permit s) (h : Step s l o s') {u : Tid} {key : S.Key}
    (hp : phase m u s.log = .pushed key) :
    (events u o = [] ∧ phase m u s'.log = .pushed key) ∨
    ∃ kind k r, s.threads[u]? = some ⟨kind, .act (.clear key) k⟩ ∧
      events u o = [⟨.clear key, r⟩] ∧ phase m u s'.log = .held true := by
  rcases step_phase g h u with ⟨he, hs⟩ | ⟨kind, p, k, r, ht, he, ha, hs⟩
  · exact .inl ⟨he, hs.trans hp⟩
  · rw [hp] at ha hs
    cases p with
    | clear key' =>
        obtain rfl : key' = key := ha
        exact .inr ⟨kind, k, r, ht, he, hs⟩
    | _ => exact ha.elim

/-- A deletion that does not fail leaves nothing. -/
theorem step_cleared (h : Step s l o s') (hl : l.Calm) {u : Tid} {key : S.Key} {r : Bool}
    (he : events u o = [⟨.clear key, r⟩]) : s'.lists key = [] := by
  cases h with
  | enter _ => cases he
  | awaitBlock _ _ _ _ => cases he
  | clear _ _ =>
      simp only [events] at he
      split_ifs at he
      cases he
      simp
  | clearFail _ hf =>
      rw [Label.Calm, hf] at hl
      cases hl
  | _ =>
      simp only [events] at he
      split_ifs at he <;> cases he

theorem step_items (g : Guarded m permit s) (h : Step s l o s') (hl : l.Calm) (key : S.Key)
    (i : Item S) (hi : i ∈ s'.lists key) : phase m i.pusher s'.log = .pushed key := by
  rcases step_item h hi with hm | ⟨rfl, kind, k, ht⟩
  · -- an item that stays keeps its pusher where it is, unless the pusher deletes
    rcases g.pushed_moves h (g.items key i hm) with ⟨-, hp⟩ | ⟨_, _, r, -, he, -⟩
    · exact hp
    · rw [step_cleared h hl he] at hi
      cases hi
  · have ha := (g.keeps i.pusher _ ht).1
    cases hph : phase m i.pusher s.log with
    | idle b =>
        rw [hph] at ha
        exact ha.elim
    | pushed _ =>
        rw [hph] at ha
        exact ha.elim
    | held b =>
        rw [step_log h, phase_of_single (e := ⟨.push key i.data, true⟩) (by simp [events]), hph]
        rfl

variable (henter : ∀ w t kind w' p, M.enter w t kind = some (w', p) →
  Keeps m (permit kind) IsIdle (.idle false) p)

include henter in
theorem step_guarded (g : Guarded m permit s) (h : Step s l o s') (hl : l.Calm) :
    Guarded m permit s' where
  wf := step_wf g.wf h
  keeps := by
    intro t th ht
    rw [step_log h]
    cases step_moves g.wf h ht with
    | entered w hn ho he =>
        rw [phase_of_nil (by rw [ho]; rfl), g.absent t (Nat.le_of_eq hn.symm)]
        exact henter _ _ _ _ _ he
    | stays hold he =>
        rw [phase_of_nil he]
        exact g.keeps t th hold
    | answered p k r hold hp he =>
        rw [phase_of_single he, hp]
        exact (g.keeps t _ hold).2 r (granted_of_calm h hl he)
  absent := by
    intro t ht
    have ht' := Nat.le_trans (step_length h) ht
    rw [step_log h, phase_of_nil (step_absent g.wf h ht')]
    exact g.absent t ht'
  owner := step_owner g h
  items := step_items g h hl

include henter in
theorem exec_guarded {w : M.World} {ls : List (Label M)} (h : exec (initial w) ls = some s)
    (hls : ∀ l ∈ ls, l.Calm) : Guarded m permit s := by
  refine exec_induction (P := fun ls s => (∀ l ∈ ls, l.Calm) → Guarded m permit s)
    (fun _ => guarded_initial w) ?_ h hls
  intro ls s l o s' _ ih hstep hls
  have hcalm := List.forall_mem_append.mp hls
  exact step_guarded henter (ih hcalm.1) hstep (hcalm.2 l List.mem_cons_self)

end Invariant

end EvoGw.LockedHandoff
