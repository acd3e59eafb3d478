import EvoGw.LockDiscipline
import EvoGw.PoolContracts
import Mathlib.Data.Set.Basic

/-!
# What a thread knows inside its sections

A part of the world stands under a mutex: calls outside the sections of this
mutex do not change it. Inside a section a thread therefore knows what its own
calls have told it and done, and the others cannot make it wrong. `Asserts`
collects this knowledge along a program as the set of values which the view can
have, and says what the program may call given what it knows. Outside the
sections nothing is known of the view.

`exec_asserted` carries these assertions through every run of a pool whose
threads hold one mutex at a time.
-/
namespace EvoGw.LockedViews
open ThreadPrograms ThreadPools PoolTraces LockDiscipline PoolContracts

variable {S : Signature} {M : Semantics S} {V A B : Type}

/-- A part of the world under a mutex, what calls answer about it and what they do
to it. -/
structure LockedView (M : Semantics S) (V : Type) where
  mutex : S.Mutex
  view : M.World → V
  answers : V → (c : S.Call) → S.Resp c → Prop
  effect : V → S.Call → V
  answered : ∀ w t c choice, answers (view w) c (M.perform w t c choice).2
  performed : ∀ w t c choice, view (M.perform w t c choice).1 = effect (view w) c
  entered : ∀ {w t kind w' p}, M.enter w t kind = some (w', p) → view w' = view w

section Programs
variable (L : LockedView M V) (sound : Event S → Prop) (ok : V → S.Call → Prop)

/-- What is known after a call. -/
def LockedView.learn (known : Set V) (c : S.Call) (r : S.Resp c) : Set V :=
  {v' | ∃ v ∈ known, L.answers v c r ∧ v' = L.effect v c}

/-- The calls of the body of a section are admitted by what is known before them. -/
def Inside : Set V → Program S A → Prop
  | _, .done _ => True
  | _, .raise _ => True
  | known, .act (.call c) k =>
      (∀ v ∈ known, ok v c) ∧ ∀ r, sound ⟨.call c, r⟩ → Inside (L.learn known c r) (k r)
  | known, .act (.push _ _) k => ∀ r, Inside known (k r)
  | known, .act (.clear _) k => ∀ r, Inside known (k r)
  | _, .act _ _ => False

/-- The same for a program with sections; `none` stands for outside. -/
def Asserts : Option (Set V) → Program S A → Prop
  | known, .done _ => known = none
  | known, .raise _ => known = none
  | known, .act (.call c) k =>
      (∀ v, (∀ Q, known = some Q → v ∈ Q) → ok v c) ∧
      ∀ r, sound ⟨.call c, r⟩ → Asserts (known.map (fun Q => L.learn Q c r)) (k r)
  | known, .act (.acquire m) k => Asserts (if m = L.mutex then some Set.univ else known) (k ())
  | known, .act (.release m) k => Asserts (if m = L.mutex then none else known) (k ())
  | known, .act (.push _ _) k => ∀ r, Asserts known (k r)
  | known, .act (.clear _) k => ∀ r, Asserts known (k r)
  | known, .act (.await _) k => ∀ r, Asserts known (k r)

/-- A primitive that is admitted whatever the view is. -/
def Free : Prim S → Prop
  | .call c => ∀ v, ok v c
  | .acquire m => m ≠ L.mutex
  | .release m => m ≠ L.mutex
  | _ => True

variable {L sound ok} {known : Option (Set V)}

theorem Asserts.bind {p : Program S A} {f : A → Program S B} (hp : Asserts L sound ok known p)
    (hf : ∀ a, Asserts L sound ok none (f a)) : Asserts L sound ok known (p >>= f) := by
  induction p generalizing known with
  | done a =>
      obtain rfl : known = none := hp
      exact hf a
  | raise e => exact hp
  | act p k ih =>
      cases p with
      | call c => exact ⟨hp.1, fun r hr => ih r (hp.2 r hr)⟩
      | acquire m => exact ih () hp
      | release m => exact ih () hp
      | push key d => exact fun r => ih r (hp r)
      | clear key => exact fun r => ih r (hp r)
      | await key => exact fun r => ih r (hp r)

theorem Asserts.rescue {p : Program S A} {f : S.Err → Program S A}
    (hp : Asserts L sound ok known p) (hf : ∀ e, Asserts L sound ok none (f e)) :
    Asserts L sound ok known (p.rescue f) := by
  induction p generalizing known with
  | done a => exact hp
  | raise e =>
      obtain rfl : known = none := hp
      exact hf e
  | act p k ih =>
      cases p with
      | call c => exact ⟨hp.1, fun r hr => ih r (hp.2 r hr)⟩
      | acquire m => exact ih () hp
      | release m => exact ih () hp
      | push key d => exact fun r => ih r (hp r)
      | clear key => exact fun r => ih r (hp r)
      | await key => exact fun r => ih r (hp r)

/-- A section of the mutex begins with no knowledge of the view. -/
theorem Asserts.synchronize {p : Program S A} (hp : Inside L sound ok Set.univ p) :
    Asserts L sound ok none (p.synchronize L.mutex) := by
  have body : ∀ (Q : Set V) (p : Program S A), Inside L sound ok Q p →
      Asserts L sound ok (some Q) (p.ensure (.act (.release L.mutex) .done)) := by
    intro Q p hp
    induction p generalizing Q with
    | done a =>
        change Asserts L sound ok (if L.mutex = L.mutex then none else some Q) (.done a)
        rw [if_pos rfl]
        rfl
    | raise e =>
        change Asserts L sound ok (if L.mutex = L.mutex then none else some Q)
          (.raise e : Program S A)
        rw [if_pos rfl]
        rfl
    | act p k ih =>
        cases p with
        | call c =>
            exact ⟨fun v hv => hp.1 v (hv Q rfl), fun r hr => ih r _ (hp.2 r hr)⟩
        | push key d => exact fun r => ih r Q (hp r)
        | clear key => exact fun r => ih r Q (hp r)
        | acquire m => exact hp.elim
        | release m => exact hp.elim
        | await key => exact hp.elim
  change Asserts L sound ok (if L.mutex = L.mutex then some Set.univ else none) _
  rw [if_pos rfl]
  exact body Set.univ p hp

theorem Asserts.of_uses {p : Program S A} (hp : Uses (Free L ok) p) :
    Asserts L sound ok none p := by
  induction p with
  | done a => rfl
  | raise e => rfl
  | act p k ih =>
      obtain ⟨hfree, hk⟩ := hp
      cases p with
      | call c => exact ⟨fun v _ => hfree v, fun r _ => ih r (hk r)⟩
      | acquire m =>
          change Asserts L sound ok (if m = L.mutex then _ else _) _
          rw [if_neg hfree]
          exact ih () (hk ())
      | release m =>
          change Asserts L sound ok (if m = L.mutex then _ else _) _
          rw [if_neg hfree]
          exact ih () (hk ())
      | push key d => exact fun r => ih r (hk r)
      | clear key => exact fun r => ih r (hk r)
      | await key => exact fun r => ih r (hk r)

end Programs

/-- What every thread knows is true. -/
structure Asserted (L : LockedView M V) (guard : M.Kind → Prim S → Option S.Mutex)
    (sound : Event S → Prop) (ok : M.Kind → V → S.Call → Prop) (s : State M) : Prop where
  disciplined : Disciplined guard s
  progs : ∀ t th, s.threads[t]? = some th → ∃ known, Asserts L sound (ok th.kind) known th.prog ∧
    ∀ Q, known = some Q → s.locks L.mutex = some t ∧ L.view s.world ∈ Q

section Pools
variable {L : LockedView M V} {guard : M.Kind → Prim S → Option S.Mutex} {sound : Event S → Prop}
  {ok : M.Kind → V → S.Call → Prop} {s s' : State M} {l : Label M} {o : Obs M}

/-- A thread may call what it is about to call. -/
theorem Asserted.admitted (a : Asserted L guard sound ok s) {t : Tid} {kind : M.Kind} {c : S.Call}
    {k : S.Resp c → Program S M.Out} (ht : s.threads[t]? = some ⟨kind, .act (.call c) k⟩) :
    ok kind (L.view s.world) c := by
  obtain ⟨known, hasserts, htrue⟩ := a.progs t _ ht
  exact hasserts.1 _ (fun Q hQ => (htrue Q hQ).2)

/-- Where the world changes: a thread enters or calls. -/
theorem step_world (h : Step s l o s') :
    (∃ u kind p, o = .entered u kind ∧ M.enter s.world u kind = some (s'.world, p)) ∨
    (∃ t kind c k choice, s.threads[t]? = some ⟨kind, .act (.call c) k⟩ ∧
      o = .called t c (M.perform s.world t c choice).2 ∧
      s'.world = (M.perform s.world t c choice).1 ∧ s'.locks = s.locks) ∨
    s'.world = s.world ∧ ∀ t c r, o ≠ .called t c r := by
  cases h with
  | enter he => exact .inl ⟨_, _, _, rfl, he⟩
  | call ht => exact .inr (.inl ⟨_, _, _, _, _, ht, rfl, rfl, rfl⟩)
  | _ => exact .inr (.inr ⟨rfl, nofun⟩)

/-- Nobody changes the view while another thread holds the mutex. -/
theorem view_of_silent (hguard : ∀ kind v c, L.effect v c ≠ v → guard kind (.call c) = some L.mutex)
    (d : Disciplined guard s) (h : Step s l o s') {u : Tid} (hown : s.locks L.mutex = some u)
    (he : events u o = []) : L.view s'.world = L.view s.world := by
  rcases step_world h with ⟨t, kind, p, -, henter⟩ | ⟨t, kind, c, k, choice, ht, rfl, hw, -⟩ |
    ⟨hw, -⟩
  · exact L.entered henter
  · rw [hw, L.performed]
    by_contra hne
    have hlock := d.guarded ht trivial (hguard _ _ c hne)
    rw [hown, Option.some.injEq] at hlock
    simp [events, hlock] at he
  · rw [hw]

theorem called_of_events {u : Tid} {c : S.Call} {r : S.Resp c} (h : events u o = [⟨.call c, r⟩]) :
    o = .called u c r := by
  have hmem : (⟨.call c, r⟩ : Event S) ∈ trace u [o] := by simp [h]
  rw [List.mem_singleton.mp (called_of_trace hmem)]

/-- A thread that neither calls nor takes or gives back a mutex changes neither the
world nor the locks. -/
theorem still_of_events (h : Step s l o s') {u : Tid} {p : Prim S} {r : p.Resp}
    (he : events u o = [⟨p, r⟩]) (hcall : ∀ c, p ≠ .call c) (hacquire : ∀ m, p ≠ .acquire m)
    (hrelease : ∀ m, p ≠ .release m) : s'.world = s.world ∧ s'.locks = s.locks := by
  have only : ∀ {t : Tid} {q : Prim S} {r' : q.Resp},
      (if t = u then [(⟨q, r'⟩ : Event S)] else []) = [⟨p, r⟩] → p = q := by
    intro t q r' heq
    split_ifs at heq
    exact (Event.mk.inj (List.cons.inj heq).1).1.symm
  cases h with
  | enter _ => cases he
  | call _ => exact absurd (only he) (hcall _)
  | acquire _ _ => exact absurd (only he) (hacquire _)
  | release _ _ => exact absurd (only he) (hrelease _)
  | _ => exact ⟨rfl, rfl⟩

theorem step_asserted (hguard : ∀ kind v c, L.effect v c ≠ v → guard kind (.call c) = some L.mutex)
    (hbalanced : ∀ w u kind w' p, M.enter w u kind = some (w', p) →
      Balanced (guard kind) none none p)
    (hasserts : ∀ w u kind w' p, M.enter w u kind = some (w', p) →
      Asserts L sound (ok kind) none p)
    (hsound : ∀ e, Hears s e → sound e) (a : Asserted L guard sound ok s) (h : Step s l o s') :
    Asserted L guard sound ok s' where
  disciplined := step_disciplined hbalanced a.disciplined h
  progs := by
    intro u th hu
    cases step_moves a.disciplined.wf h hu with
    | entered w hn ho he => exact ⟨none, hasserts _ _ _ _ _ he, nofun⟩
    | stays hold he =>
        obtain ⟨known, hknown, htrue⟩ := a.progs u th hold
        refine ⟨known, hknown, fun Q hQ => ?_⟩
        obtain ⟨hown, hview⟩ := htrue Q hQ
        rw [locks_of_silent h he, view_of_silent hguard a.disciplined h hown he]
        exact ⟨hown, hview⟩
    | answered p k r hold hprog he =>
        obtain ⟨known, hknown, htrue⟩ := a.progs u _ hold
        rw [hprog]
        have heard : sound ⟨p, r⟩ := hsound _ (step_hears h (by rw [he]; exact List.mem_cons_self))
        cases p with
        | call c =>
            obtain rfl := called_of_events he
            refine ⟨_, hknown.2 r heard, ?_⟩
            rintro Q hQ
            obtain ⟨Q₀, hQ₀, rfl⟩ := Option.map_eq_some_iff.mp hQ
            obtain ⟨hown, hview⟩ := htrue Q₀ hQ₀
            cases h with
            | call ht =>
                exact ⟨hown, _, hview, L.answered _ _ _ _, L.performed _ _ _ _⟩
        | acquire m =>
            cases LockedHandoff.acquired_of_events he
            refine ⟨_, hknown, fun Q hQ => ?_⟩
            cases h with
            | acquire ht hfree =>
                by_cases hm : m = L.mutex
                · rw [if_pos hm, Option.some.injEq] at hQ
                  subst hm hQ
                  exact ⟨by simp, trivial⟩
                · rw [if_neg hm] at hQ
                  obtain ⟨hown, hview⟩ := htrue Q hQ
                  refine ⟨?_, hview⟩
                  simp only [State.setProg_locks, State.note_locks, State.setLock_locks]
                  rw [Function.update_of_ne (Ne.symm hm)]
                  exact hown
        | release m =>
            cases LockedHandoff.released_of_events he
            refine ⟨_, hknown, fun Q hQ => ?_⟩
            cases h with
            | release ht hown =>
                by_cases hm : m = L.mutex
                · rw [if_pos hm] at hQ
                  cases hQ
                · rw [if_neg hm] at hQ
                  obtain ⟨hown, hview⟩ := htrue Q hQ
                  refine ⟨?_, hview⟩
                  simp only [State.setProg_locks, State.note_locks, State.setLock_locks]
                  rw [Function.update_of_ne (Ne.symm hm)]
                  exact hown
        | push key d =>
            obtain ⟨hworld, hlocks⟩ := still_of_events h he nofun nofun nofun
            refine ⟨known, hknown r, ?_⟩
            rw [hworld, hlocks]
            exact htrue
        | clear key =>
            obtain ⟨hworld, hlocks⟩ := still_of_events h he nofun nofun nofun
            refine ⟨known, hknown r, ?_⟩
            rw [hworld, hlocks]
            exact htrue
        | await key =>
            obtain ⟨hworld, hlocks⟩ := still_of_events h he nofun nofun nofun
            refine ⟨known, hknown r, ?_⟩
            rw [hworld, hlocks]
            exact htrue

/-- What every thread knows is true, in every state that is `allowed`. A state on the
way to an allowed one is allowed, and answers in allowed states are sound. -/
theorem exec_asserted (hguard : ∀ kind v c, L.effect v c ≠ v → guard kind (.call c) = some L.mutex)
    (hbalanced : ∀ w u kind w' p, M.enter w u kind = some (w', p) →
      Balanced (guard kind) none none p)
    (hasserts : ∀ w u kind w' p, M.enter w u kind = some (w', p) →
      Asserts L sound (ok kind) none p)
    {w : M.World} (allowed : State M → Prop)
    (hback : ∀ s l o s', Wf s → Step s l o s' → allowed s' → allowed s)
    (hsound : ∀ ls s, exec (initial w) ls = some s → allowed s → ∀ e, Hears s e → sound e)
    {ls : List (Label M)} (h : exec (initial w) ls = some s) (hallowed : allowed s) :
    Asserted L guard sound ok s := by
  refine exec_induction (P := fun _ s => allowed s → Asserted L guard sound ok s) ?_ ?_ h hallowed
  · exact fun _ => ⟨disciplined_initial w, by simp [initial]⟩
  · intro ls s l o s' hs ih hstep hallowed
    have hprev := hback s l o s' (exec_wf hs) hstep hallowed
    exact step_asserted hguard hbalanced hasserts (hsound ls s hs hprev) (ih hprev) hstep

end Pools

end EvoGw.LockedViews
