import EvoGw.PoolTraces
import Mathlib.Order.Basic

/-!
# Assumptions and guarantees of threads

A program relies on its surroundings for the truth of the answers it gets and
guarantees in return what it performs and returns. What counts as a true answer
may depend on facts that accumulate during a run, such as which messages have
arrived. Facts are never withdrawn, so an answer once true stays true, and a
program that is entitled to its guarantees at some time is so ever after.

`exec_kept` turns obligations about single steps into guarantees of every thread
in every state of every run.
-/
namespace EvoGw.PoolContracts
open ThreadPrograms ThreadPools PoolTraces

section Programs
variable {S : Signature} {A B : Type} {sound : Event S → Prop} {ok : Prim S → Prop}
  {post : A → Prop} {post' : B → Prop}

/-- As long as its answers are sound, the program performs what is allowed only,
and what it returns satisfies `post`. -/
def Relies (sound : Event S → Prop) (ok : Prim S → Prop) (post : A → Prop) : Program S A → Prop
  | .done a => post a
  | .raise _ => True
  | .act p k => ok p ∧ ∀ r, sound ⟨p, r⟩ → Relies sound ok post (k r)

theorem Relies.bind {p : Program S A} {f : A → Program S B} (hp : Relies sound ok post p)
    (hf : ∀ a, post a → Relies sound ok post' (f a)) : Relies sound ok post' (p >>= f) := by
  induction p with
  | done a => exact hf a hp
  | raise e => trivial
  | act p k ih => exact ⟨hp.1, fun r hr => ih r (hp.2 r hr)⟩

theorem Relies.seq {p : Program S A} {f : A → Program S B}
    (hp : Relies sound ok (fun _ => True) p) (hf : ∀ a, Relies sound ok post' (f a)) :
    Relies sound ok post' (p >>= f) :=
  hp.bind (fun a _ => hf a)

theorem Relies.rescue {p : Program S A} {f : S.Err → Program S A} (hp : Relies sound ok post p)
    (hf : ∀ e, Relies sound ok post (f e)) : Relies sound ok post (p.rescue f) := by
  induction p with
  | done a => exact hp
  | raise e => exact hf e
  | act p k ih => exact ⟨hp.1, fun r hr => ih r (hp.2 r hr)⟩

theorem Relies.ensure {p : Program S A} {q : Program S Unit} (hp : Relies sound ok post p)
    (hq : Relies sound ok (fun _ => True) q) : Relies sound ok post (p.ensure q) := by
  induction p with
  | done a => exact hq.seq (fun _ => hp)
  | raise e => exact hq.seq (fun _ => trivial)
  | act p k ih => exact ⟨hp.1, fun r hr => ih r (hp.2 r hr)⟩

theorem Relies.synchronize {m : S.Mutex} {p : Program S A} (hacq : ok (.acquire m))
    (hrel : ok (.release m)) (hp : Relies sound ok post p) :
    Relies sound ok post (p.synchronize m) :=
  ⟨hacq, fun _ _ => hp.ensure ⟨hrel, fun _ _ => trivial⟩⟩

/-- A program all of whose primitives are allowed needs no assumption. -/
theorem Relies.of_uses {p : Program S A} (hp : Uses ok p) :
    Relies sound ok (fun _ => True) p := by
  induction p with
  | done a => trivial
  | raise e => trivial
  | act p k ih => exact ⟨hp.1, fun r _ => ih r (hp.2 r)⟩

/-- As long as the answers are sound, what has been performed was allowed. -/
theorem Relies.performed {p q : Program S A} {tr : List (Event S)} (hp : Relies sound ok post p)
    (h : Residual p tr q) (hsound : ∀ e ∈ tr, sound e) : ∀ e ∈ tr, ok e.prim := by
  induction h with
  | nil p => simp
  | cons _ ih =>
      have hhead := hsound _ List.mem_cons_self
      exact List.forall_mem_cons.mpr
        ⟨hp.1, ih (hp.2 _ hhead) (fun e he => hsound e (List.mem_cons_of_mem _ he))⟩

theorem Relies.residual {p q : Program S A} {tr : List (Event S)} (hp : Relies sound ok post p)
    (h : Residual p tr q) (hsound : ∀ e ∈ tr, sound e) : Relies sound ok post q := by
  induction h with
  | nil p => exact hp
  | cons _ ih =>
      have hhead := hsound _ List.mem_cons_self
      exact ih (hp.2 _ hhead) (fun e he => hsound e (List.mem_cons_of_mem _ he))

end Programs

section Pools
variable {S : Signature} {M : Semantics S} {K : Type} [Preorder K]

/-- The answers which a thread can get in one step from a state. -/
inductive Hears (s : State M) : Event S → Prop
  | called {t : Tid} {kind : M.Kind} {c : S.Call} {k : S.Resp c → Program S M.Out}
      (choice : M.Choice) : s.threads[t]? = some ⟨kind, .act (.call c) k⟩ →
      Hears s ⟨.call c, (M.perform s.world t c choice).2⟩
  | handed {t : Tid} {kind : M.Kind} {key : S.Key} {d : S.Data} {k : Bool → Program S M.Out} :
      s.threads[t]? = some ⟨kind, .act (.push key d) k⟩ → Hears s ⟨.await key, .got d⟩
  | taken {key : S.Key} {i : Item S} : i ∈ s.lists key → Hears s ⟨.await key, .got i.data⟩
  | unserved {key : S.Key} {a : Awaited S.Data} : (∀ d, a ≠ .got d) → Hears s ⟨.await key, a⟩
  | acquired (m : S.Mutex) : Hears s ⟨.acquire m, ()⟩
  | released (m : S.Mutex) : Hears s ⟨.release m, ()⟩
  | pushed (key : S.Key) (d : S.Data) (done : Bool) : Hears s ⟨.push key d, done⟩
  | cleared (key : S.Key) (done : Bool) : Hears s ⟨.clear key, done⟩

theorem step_hears {s s' : State M} {l : Label M} {o : Obs M} (h : Step s l o s') {u : Tid}
    {e : Event S} (he : e ∈ events u o) : Hears s e := by
  have only : ∀ {t : Tid} {e' : Event S}, e ∈ (if t = u then [e'] else []) → e = e' := fun hm =>
    List.mem_singleton.mp (List.mem_ite_nil_right.mp hm).2
  cases h with
  | enter _ => cases he
  | call ht =>
      rw [only he]
      exact .called _ ht
  | acquire _ _ =>
      rw [only he]
      exact .acquired _
  | release _ _ =>
      rw [only he]
      exact .released _
  | pushFail _ _ =>
      rw [only he]
      exact .pushed _ _ _
  | pushKeep ht _ _ =>
      simp only [events, List.head?_nil, reduceCtorEq, if_false] at he
      rw [only he]
      exact .pushed _ _ _
  | pushHand ht _ _ =>
      simp only [events] at he
      split at he
      · rw [List.mem_singleton.mp he]
        exact .pushed _ _ _
      · rw [List.mem_singleton.mp (List.mem_ite_nil_right.mp he).2]
        exact .handed ht
  | clearFail _ _ =>
      rw [only he]
      exact .cleared _ _
  | clear _ _ =>
      rw [only he]
      exact .cleared _ _
  | awaitFail _ _ _ =>
      rw [only he]
      exact .unserved (by simp)
  | awaitBlock _ _ _ _ => cases he
  | awaitTake _ _ _ hl =>
      rw [only he]
      exact .taken (by rw [hl]; exact List.mem_cons_self)
  | expire _ _ =>
      rw [only he]
      exact .unserved (by simp)

/-- The terms on which the threads of a pool work: the facts that a state
establishes, and for given facts the sound answers and the primitives which a kind
of thread may perform. -/
structure Contract (M : Semantics S) (K : Type) [Preorder K] where
  view : State M → K
  sound : K → Event S → Prop
  ok : K → M.Kind → Prim S → Prop
  sound_mono : ∀ {facts facts' : K} {e : Event S}, facts ≤ facts' → sound facts e → sound facts' e

namespace Contract
variable (C : Contract M K)

/-- The program keeps its guarantees whatever further facts come up. -/
def Entitled (facts : K) (kind : M.Kind) (p : Program S M.Out) : Prop :=
  ∀ facts', facts ≤ facts' → Relies (C.sound facts') (C.ok facts' kind) (fun _ => True) p

/-- What every thread is about to perform is allowed. -/
def Lawful (s : State M) : Prop :=
  ∀ (t : Tid) (kind : M.Kind) (p : Prim S) (k : p.Resp → Program S M.Out),
    s.threads[t]? = some ⟨kind, .act p k⟩ → C.ok (C.view s) kind p

/-- What is to be shown of single steps. `allowed` restricts the runs. -/
structure Obligations (allowed : Label M → Prop) (inv : State M → Prop) : Prop where
  grow : ∀ {s s' : State M} {l : Label M} {o : Obs M}, Step s l o s' → C.view s ≤ C.view s'
  enter : ∀ {s s' : State M} {l : Label M} {u : Tid} {kind : M.Kind} {w : M.World}
    {p : Program S M.Out}, inv s → allowed l → Step s l (.entered u kind) s' →
    M.enter s.world u kind = some (w, p) → C.Entitled (C.view s') kind p
  keep : ∀ {s s' : State M} {l : Label M} {o : Obs M}, inv s → C.Lawful s → Step s l o s' → inv s'
  answer : ∀ {s : State M} {e : Event S}, inv s → C.Lawful s → Hears s e → C.sound (C.view s) e

/-- The contract is kept up to this state. -/
structure Kept (inv : State M → Prop) (s : State M) : Prop where
  inv : inv s
  heard : ∀ u, ∀ e ∈ trace u s.log, C.sound (C.view s) e
  progs : ∀ u th, s.threads[u]? = some th →
    ∃ p, C.Entitled (C.view s) th.kind p ∧ Residual p (trace u s.log) th.prog

variable {C} {allowed : Label M → Prop} {inv : State M → Prop} {s s' : State M}

theorem Kept.relies (kept : C.Kept inv s) {u : Tid} {th : Thread M}
    (hu : s.threads[u]? = some th) :
    Relies (C.sound (C.view s)) (C.ok (C.view s) th.kind) (fun _ => True) th.prog := by
  obtain ⟨p, hp, hres⟩ := kept.progs u th hu
  exact (hp _ le_rfl).residual hres (kept.heard u)

theorem Kept.lawful (kept : C.Kept inv s) : C.Lawful s := by
  intro t kind p k ht
  exact (kept.relies ht).1

theorem step_kept (ob : C.Obligations allowed inv) (wf : Wf s) (kept : C.Kept inv s)
    (habsent : trace s.threads.length s.log = []) {l : Label M} {o : Obs M} (hl : allowed l)
    (h : Step s l o s') : C.Kept inv s' where
  inv := ob.keep kept.inv kept.lawful h
  heard := by
    intro u e he
    rw [step_log h, trace_append, trace_singleton] at he
    rcases List.mem_append.mp he with he | he
    · exact C.sound_mono (ob.grow h) (kept.heard u e he)
    · exact C.sound_mono (ob.grow h) (ob.answer kept.inv kept.lawful (step_hears h he))
  progs := by
    intro u th hu
    rw [step_log h, trace_append, trace_singleton]
    cases step_moves wf h hu with
    | entered w hn ho henter =>
        subst ho
        refine ⟨th.prog, ob.enter kept.inv hl h henter, ?_⟩
        rw [hn, habsent]
        exact .nil _
    | stays hs he =>
        obtain ⟨p, hp, hres⟩ := kept.progs u th hs
        rw [he, List.append_nil]
        exact ⟨p, fun facts hf => hp facts (le_trans (ob.grow h) hf), hres⟩
    | answered q k r hs hprog he =>
        obtain ⟨p, hp, hres⟩ := kept.progs u _ hs
        rw [he, hprog]
        exact ⟨p, fun facts hf => hp facts (le_trans (ob.grow h) hf), hres.snoc r⟩

/-- The contract is kept in every state of every allowed run. -/
theorem exec_kept (ob : C.Obligations allowed inv) {w : M.World} (hinit : inv (initial w))
    {ls : List (Label M)} (h : exec (initial w) ls = some s) (hls : ∀ l ∈ ls, allowed l) :
    C.Kept inv s := by
  refine exec_induction (P := fun ls s => (∀ l ∈ ls, allowed l) → C.Kept inv s) ?_ ?_ h hls
  · exact fun _ => ⟨hinit, by simp [initial, trace], by simp [initial]⟩
  · intro ls s l o s' hrun ih hstep hls
    have kept := ih (fun l hl => hls l (List.mem_append_left _ hl))
    exact step_kept ob (exec_wf hrun) kept (exec_absent hrun (Nat.le_refl _))
      (hls l (List.mem_append_right _ List.mem_cons_self)) hstep

theorem exec_grow (ob : C.Obligations allowed inv) {ls : List (Label M)}
    (h : exec s ls = some s') : C.view s ≤ C.view s' :=
  exec_induction (P := fun _ s' => C.view s ≤ C.view s') le_rfl
    (fun _ _ _ _ _ _ ih hstep => le_trans ih (ob.grow hstep)) h

/-- Every call in the log was allowed by the facts of the state in which it was
made. -/
theorem call_allowed (ob : C.Obligations allowed inv) {w : M.World} (hinit : inv (initial w))
    {ls : List (Label M)} (h : exec (initial w) ls = some s) (hls : ∀ l ∈ ls, allowed l)
    {t : Tid} {c : S.Call} {r : S.Resp c} {before after : List (Obs M)}
    (hlog : s.log = before ++ .called t c r :: after) :
    ∃ s₁ kind p, s₁.log = before ∧ C.view s₁ ≤ C.view s ∧ s.threads[t]? = some ⟨kind, p⟩ ∧
      C.ok (C.view s₁) kind (.call c) := by
  obtain ⟨ls₁, l, ls₂, s₁, s₂, rfl, h₁, hstep, h₂, hlog₁⟩ := exec_split h hlog
  have kept := exec_kept ob hinit h₁ (fun l hl => hls l (List.mem_append_left _ hl))
  have hview := le_trans (ob.grow hstep) (exec_grow ob h₂)
  have hwf := step_wf (exec_wf h₁) hstep
  have hkind : ∀ th, s₁.threads[t]? = some th → ∃ p, s₂.threads[t]? = some ⟨th.kind, p⟩ :=
    fun _ ht => step_kind (exec_wf h₁) hstep ht
  cases hstep with
  | @call _ _ kind _ k ht =>
      obtain ⟨p, hp⟩ := hkind _ ht
      obtain ⟨q, hq⟩ := exec_kind hwf h₂ hp
      exact ⟨s₁, kind, q, hlog₁, hview, hq, kept.lawful t _ _ _ ht⟩

end Contract
end Pools
end EvoGw.PoolContracts
