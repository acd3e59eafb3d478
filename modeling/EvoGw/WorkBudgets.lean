import EvoGw.PoolTraces
import Mathlib.Algebra.BigOperators.Group.Finset.Basic
import Mathlib.Algebra.Order.BigOperators.Group.Finset

/-!
# Bounds on the length of runs

A program is within a budget if it performs at most so many primitives, however
it is answered. A wait counts twice, because it may take two steps of the pool:
one that blocks the thread and one that answers it.

In a pool every step of a thread is paid by the budget with which a thread has
entered, so the budgets of the entered threads bound the length of the run. No
assumption about the order of the steps is made.
-/
namespace EvoGw.WorkBudgets
open ThreadPrograms ThreadPools PoolTraces

variable {S : Signature} {M : Semantics S} {A B : Type}

/-- How many steps of a pool a primitive can take. -/
def cost : Prim S → ℕ
  | .await _ => 2
  | _ => 1

theorem cost_pos (p : Prim S) : 1 ≤ cost p := by
  cases p <;> simp [cost]

def Within : ℕ → Program S A → Prop
  | _, .done _ => True
  | _, .raise _ => True
  | n, .act p k => cost p ≤ n ∧ ∀ r, Within (n - cost p) (k r)

section Rules
variable {n b : ℕ}

theorem Within.mono {p : Program S A} (hp : Within n p) (h : n ≤ b) : Within b p := by
  induction p generalizing n b with
  | done a => trivial
  | raise e => trivial
  | act p k ih => exact ⟨Nat.le_trans hp.1 h, fun r => ih r (hp.2 r) (Nat.sub_le_sub_right h _)⟩

theorem Within.bind {p : Program S A} {f : A → Program S B} (hp : Within n p)
    (hf : ∀ a, Within b (f a)) : Within (n + b) (p >>= f) := by
  induction p generalizing n with
  | done a => exact (hf a).mono (Nat.le_add_left b n)
  | raise e => trivial
  | act p k ih =>
      obtain ⟨hcost, hk⟩ := hp
      refine ⟨by omega, fun r => ?_⟩
      rw [Nat.sub_add_comm hcost]
      exact ih r (hk r)

/-- What performs nothing costs nothing. -/
theorem Within.silent {p : Program S A} {f : A → Program S B} (hp : Uses (fun _ => False) p)
    (hf : ∀ a, Within n (f a)) : Within n (p >>= f) := by
  cases p with
  | done a => exact hf a
  | raise e => trivial
  | act p k => exact hp.1.elim

theorem Within.rescue {p : Program S A} {f : S.Err → Program S A} (hp : Within n p)
    (hf : ∀ e, Within b (f e)) : Within (n + b) (p.rescue f) := by
  induction p generalizing n with
  | done a => trivial
  | raise e => exact (hf e).mono (Nat.le_add_left b n)
  | act p k ih =>
      obtain ⟨hcost, hk⟩ := hp
      refine ⟨by omega, fun r => ?_⟩
      rw [Nat.sub_add_comm hcost]
      exact ih r (hk r)

theorem Within.ensure {p : Program S A} {q : Program S Unit} (hp : Within n p)
    (hq : Within b q) : Within (n + b) (p.ensure q) := by
  have ends : ∀ (n : ℕ) (u : Program S A), Within 0 u → Within (n + b) (q >>= fun _ => u) :=
    fun n u hu => (hq.bind (fun _ => hu)).mono (by omega)
  induction p generalizing n with
  | done a => exact ends n (.done a) trivial
  | raise e => exact ends n (.raise e) trivial
  | act p k ih =>
      obtain ⟨hcost, hk⟩ := hp
      refine ⟨by omega, fun r => ?_⟩
      rw [Nat.sub_add_comm hcost]
      exact ih r (hk r)

theorem Within.synchronize {m : S.Mutex} {p : Program S A} (hp : Within n p) :
    Within (n + 2) (p.synchronize m) := by
  have hrelease : Within 1 (Program.act (.release m) .done : Program S Unit) :=
    ⟨Nat.le_refl 1, fun _ => trivial⟩
  exact ⟨by simp [cost], fun _ => (hp.ensure hrelease).mono (by simp [cost])⟩

end Rules

/-- The thread `u` is answered, or begins to wait. -/
def Pays (o : Obs M) (u : Tid) : Prop := events u o ≠ [] ∨ ∃ key, o = .awaited u key none

/-- What a step does to the blocked threads: those that are answered leave, and a
thread whose wait finds nothing joins them. -/
theorem step_blocked {s s' : State M} {l : Label M} {o : Obs M} (wf : Wf s) (h : Step s l o s')
    (u : Tid) :
    s'.Blocked u ↔ s.Blocked u ∧ events u o = [] ∨ ∃ key, o = .awaited u key none := by
  have running : ∀ {t : Tid} {kind : M.Kind} {p : Prim S} {k : p.Resp → Program S M.Out},
      s.threads[t]? = some ⟨kind, .act p k⟩ → (∀ key, p ≠ .await key) → s.Blocked u → t ≠ u := by
    intro t kind p k ht hp hb
    obtain ⟨⟨u', key⟩, hw, rfl⟩ := List.mem_map.mp hb
    exact (wf.ne_running hw ht hp).symm
  have dropped : ∀ t, (u ∈ (s.waiting.filter (fun e => e.1 ≠ t)).map Prod.fst) ↔
      s.Blocked u ∧ u ≠ t := by
    intro t
    simp only [State.Blocked, List.mem_map, List.mem_filter, decide_eq_true_eq]
    constructor
    · rintro ⟨e, ⟨he, hne⟩, rfl⟩
      exact ⟨⟨e, he, rfl⟩, hne⟩
    · rintro ⟨⟨e, he, rfl⟩, hne⟩
      exact ⟨e, ⟨he, hne⟩, rfl⟩
  have other : ∀ {t : Tid} {e : Event S}, t ≠ u → (if t = u then [e] else []) = [] :=
    fun hne => if_neg hne
  have same : (s.Blocked u → events u o = []) → (∀ key, o ≠ .awaited u key none) →
      s'.waiting = s.waiting →
      (s'.Blocked u ↔ s.Blocked u ∧ events u o = [] ∨ ∃ key, o = .awaited u key none) := by
    intro hsilent hno hwaiting
    rw [State.Blocked, hwaiting]
    constructor
    · exact fun hb => .inl ⟨hb, hsilent hb⟩
    · rintro (⟨hb, -⟩ | ⟨key, ho⟩)
      · exact hb
      · exact absurd ho (hno key)
  cases h with
  | enter _ => exact same (fun _ => rfl) (by simp) rfl
  | call ht => exact same (fun hb => other (running ht (by simp) hb)) (by simp) rfl
  | acquire ht _ => exact same (fun hb => other (running ht (by simp) hb)) (by simp) rfl
  | release ht _ => exact same (fun hb => other (running ht (by simp) hb)) (by simp) rfl
  | pushFail ht _ => exact same (fun hb => other (running ht (by simp) hb)) (by simp) rfl
  | pushKeep ht _ _ =>
      refine same (fun hb => ?_) (by simp) rfl
      simp [events, running ht (by simp) hb]
  | @pushHand t r q _ _ key d k ht _ hq =>
      have hwaits : s.Blocked r := by
        have hmem : r ∈ s.queue key := by
          rw [hq]
          exact List.mem_cons_self
        exact List.mem_map.mpr ⟨_, mem_queue.mp hmem, rfl⟩
      refine (dropped r).trans ?_
      simp only [events, List.head?_cons, Option.some.injEq, reduceCtorEq, exists_false, or_false]
      refine and_congr_right (fun hb => ?_)
      rw [if_neg (running ht (by simp) hb)]
      by_cases hru : r = u
      · simp [hru]
      · simp [hru, Ne.symm hru]
  | clearFail ht _ => exact same (fun hb => other (running ht (by simp) hb)) (by simp) rfl
  | clear ht _ => exact same (fun hb => other (running ht (by simp) hb)) (by simp) rfl
  | @awaitFail t _ _ _ _ ht hb _ =>
      refine same (fun hu => other ?_) (by simp) rfl
      rintro rfl
      exact hb hu
  | @awaitBlock t _ _ key _ ht hb _ _ =>
      simp only [State.Blocked, State.note_waiting, List.map_append, List.map_cons, List.map_nil,
        List.mem_append, List.mem_singleton, events, and_true, Obs.awaited.injEq]
      refine or_congr_right ⟨fun hu => ⟨key, hu.symm, rfl⟩, ?_⟩
      rintro ⟨-, hu, -⟩
      exact hu.symm
  | @awaitTake t _ _ _ _ _ _ ht hb _ _ =>
      refine same (fun hu => other ?_) (by simp) rfl
      rintro rfl
      exact hb hu
  | @expire t _ _ _ ht hb =>
      refine (dropped t).trans ?_
      simp only [events, reduceCtorEq, exists_false, or_false]
      refine and_congr_right (fun _ => ?_)
      by_cases htu : t = u
      · simp [htu]
      · simp [htu, Ne.symm htu]

/-- Every thread is within its fund; a blocked thread has paid for half of its
wait. -/
structure Funded (fund : Tid → ℕ) (s : State M) : Prop where
  wf : Wf s
  progs : ∀ t th, s.threads[t]? = some th →
    Within (fund t + if s.Blocked t then 1 else 0) th.prog

section Pools
variable {fund : Tid → ℕ} {s s' : State M} {l : Label M} {o : Obs M}

/-- What is left of a fund after the next primitive. -/
theorem Funded.next (f : Funded fund s) {t : Tid} {kind : M.Kind} {p : Prim S}
    {k : p.Resp → Program S M.Out} (ht : s.threads[t]? = some ⟨kind, .act p k⟩) :
    1 ≤ fund t ∧ ∀ r, Within (fund t - 1) (k r) := by
  obtain ⟨hcost, hk⟩ := f.progs t _ ht
  have hpos := cost_pos p
  by_cases hb : s.Blocked t
  · obtain ⟨key, hw⟩ : ∃ key, (t, key) ∈ s.waiting := by simpa [State.Blocked] using hb
    obtain ⟨kind', k', ht'⟩ := f.wf.waits t key hw
    cases ht.symm.trans ht'
    simp only [if_pos hb, cost] at hcost hk
    exact ⟨by omega, fun r => (hk r).mono (by omega)⟩
  · simp only [if_neg hb, Nat.add_zero] at hcost hk
    exact ⟨by omega, fun r => (hk r).mono (by omega)⟩

/-- A step that is no entry is paid by some thread. -/
theorem step_pays (h : Step s l o s') (hl : ∀ kind, l ≠ .enter kind) :
    ∃ t kind p k, s.threads[t]? = some ⟨kind, .act p k⟩ ∧ Pays o t := by
  cases h with
  | enter _ => exact absurd rfl (hl _)
  | awaitBlock ht _ _ _ => exact ⟨_, _, _, _, ht, .inr ⟨_, rfl⟩⟩
  | call ht => exact ⟨_, _, _, _, ht, .inl (by simp [events])⟩
  | acquire ht _ => exact ⟨_, _, _, _, ht, .inl (by simp [events])⟩
  | release ht _ => exact ⟨_, _, _, _, ht, .inl (by simp [events])⟩
  | pushFail ht _ => exact ⟨_, _, _, _, ht, .inl (by simp [events])⟩
  | pushKeep ht _ _ => exact ⟨_, _, _, _, ht, .inl (by simp [events])⟩
  | pushHand ht _ _ => exact ⟨_, _, _, _, ht, .inl (by simp [events])⟩
  | clearFail ht _ => exact ⟨_, _, _, _, ht, .inl (by simp [events])⟩
  | clear ht _ => exact ⟨_, _, _, _, ht, .inl (by simp [events])⟩
  | awaitFail ht _ _ => exact ⟨_, _, _, _, ht, .inl (by simp [events])⟩
  | awaitTake ht _ _ _ => exact ⟨_, _, _, _, ht, .inl (by simp [events])⟩
  | expire ht _ => exact ⟨_, _, _, _, ht, .inl (by simp [events])⟩

open Classical in
theorem step_funded (f : Funded fund s) (h : Step s l o s') (hl : ∀ kind, l ≠ .enter kind) :
    ∃ fund', Funded fund' s' ∧ (∀ t, fund' t ≤ fund t) ∧
      ∃ t < s.threads.length, fund' t < fund t := by
  refine ⟨fun u => if Pays o u then fund u - 1 else fund u, ⟨step_wf f.wf h, ?_⟩, ?_, ?_⟩
  · intro u th hu
    have hblocked := step_blocked f.wf h u
    cases step_moves f.wf h hu with
    | entered w hn ho he =>
        subst ho
        cases h with
        | enter _ => exact absurd rfl (hl _)
    | stays hold he =>
        by_cases hwait : ∃ key, o = .awaited u key none
        · -- the thread begins to wait and has paid one of two
          obtain ⟨key, rfl⟩ := hwait
          rw [if_pos (.inr ⟨key, rfl⟩), if_pos (hblocked.mpr (.inr ⟨key, rfl⟩))]
          cases h with
          | awaitBlock ht hb _ _ =>
              have hwithin := f.progs u th hold
              rw [if_neg hb, Nat.add_zero] at hwithin
              rw [Nat.sub_add_cancel (f.next ht).1]
              exact hwithin
        · have hsame : s'.Blocked u ↔ s.Blocked u := by
            rw [hblocked]
            exact ⟨fun hb => (hb.resolve_right hwait).1, fun hb => .inl ⟨hb, he⟩⟩
          have hnot : ¬ Pays o u := fun hp => hp.elim (fun hne => hne he) hwait
          have hwithin := f.progs u th hold
          rw [if_neg hnot]
          simp only [hsame]
          exact hwithin
    | answered p k r hold hprog he =>
        have hne : events u o ≠ [] := by simp [he]
        have hfree : ¬ s'.Blocked u := by
          rw [hblocked]
          rintro (⟨-, hnil⟩ | ⟨key, rfl⟩)
          · exact hne hnil
          · exact hne rfl
        rw [if_pos (.inl hne), if_neg hfree, Nat.add_zero, hprog]
        exact (f.next hold).2 r
  · intro t
    dsimp only
    split_ifs
    · exact Nat.sub_le _ _
    · exact Nat.le_refl _
  · obtain ⟨t, kind, p, k, ht, hpays⟩ := step_pays h hl
    refine ⟨t, (List.getElem?_eq_some_iff.mp ht).choose, ?_⟩
    dsimp only
    rw [if_pos hpays]
    have hpos := (f.next ht).1
    omega

theorem step_length_eq (h : Step s l o s') (hl : ∀ kind, l ≠ .enter kind) :
    s'.threads.length = s.threads.length := by
  cases h with
  | enter _ => exact absurd rfl (hl _)
  | _ => simp

end Pools

section Runs
variable {budget : M.Kind → ℕ}

/-- What the entering threads bring into a run: their budgets, and one for each
entry. -/
def funds (budget : M.Kind → ℕ) : List (Label M) → ℕ
  | [] => 0
  | .enter kind :: ls => budget kind + 1 + funds budget ls
  | .run _ _ :: ls => funds budget ls
  | .expire _ :: ls => funds budget ls

theorem funds_append (ls ls' : List (Label M)) :
    funds budget (ls ++ ls') = funds budget ls + funds budget ls' := by
  induction ls with
  | nil => simp [funds]
  | cons l ls ih => cases l <;> simp [funds, ih, Nat.add_assoc]

theorem funded_enter {fund : Tid → ℕ} {s : State M} {kind : M.Kind} {w : M.World}
    {p : Program S M.Out} (f : Funded fund s) (hp : Within (budget kind) p)
    (h : Step s (.enter kind) (.entered s.threads.length kind)
      (State.note {s with world := w, threads := s.threads ++ [⟨kind, p⟩]}
        (.entered s.threads.length kind))) :
    Funded (Function.update fund s.threads.length (budget kind))
      (State.note {s with world := w, threads := s.threads ++ [⟨kind, p⟩]}
        (.entered s.threads.length kind)) := by
  refine ⟨step_wf f.wf h, fun u th hu => ?_⟩
  have hblocked := step_blocked f.wf h u
  simp only [events, and_true, reduceCtorEq, exists_false, or_false] at hblocked
  rcases Nat.lt_or_ge u s.threads.length with hlt | hge
  · rw [Function.update_of_ne (Nat.ne_of_lt hlt)]
    have hold : s.threads[u]? = some th := by
      rw [← hu]
      exact (List.getElem?_append_left hlt).symm
    have hwithin := f.progs u th hold
    simp only [hblocked]
    exact hwithin
  · have hnew := hu
    rw [State.note_threads, List.getElem?_append_right hge] at hnew
    obtain ⟨hz, hth⟩ := List.getElem?_eq_some_iff.mp hnew
    rw [List.length_singleton, Nat.lt_one_iff, Nat.sub_eq_zero_iff_le] at hz
    obtain rfl : u = s.threads.length := Nat.le_antisymm hz hge
    simp only [Nat.sub_self, List.getElem_cons_zero] at hth
    subst hth
    rw [Function.update_self]
    exact hp.mono (Nat.le_add_right _ _)

/-- A run is not longer than the budgets of its threads allow, one entry each
included. -/
theorem exec_length_le
    (henter : ∀ w u kind w' p, M.enter w u kind = some (w', p) → Within (budget kind) p)
    {w : M.World} {s : State M} {ls : List (Label M)} (h : exec (initial w) ls = some s) :
    ls.length ≤ funds budget ls := by
  have funded : ∃ fund, Funded fund s ∧
      ls.length + ∑ t ∈ Finset.range s.threads.length, fund t ≤ funds budget ls := by
    refine exec_induction (P := fun ls s => ∃ fund, Funded fund s ∧
      ls.length + ∑ t ∈ Finset.range s.threads.length, fund t ≤ funds budget ls)
      ⟨fun _ => 0, ⟨wf_initial w, by simp [initial]⟩, by simp [initial]⟩ ?_ h
    rintro ls s l o s' hs ⟨fund, f, hsum⟩ hstep
    by_cases hl : ∀ kind, l ≠ .enter kind
    · obtain ⟨fund', f', hle, t, ht, hlt⟩ := step_funded f hstep hl
      refine ⟨fund', f', ?_⟩
      have hpaid : ∑ t ∈ Finset.range s.threads.length, fund' t <
          ∑ t ∈ Finset.range s.threads.length, fund t :=
        Finset.sum_lt_sum (fun t _ => hle t) ⟨t, Finset.mem_range.mpr ht, hlt⟩
      rw [step_length_eq hstep hl]
      simp only [List.length_append, List.length_singleton, funds_append]
      omega
    · have henters := hstep
      cases hstep with
      | @enter kind w p he =>
          refine ⟨_, funded_enter f (henter _ _ _ _ _ he) henters, ?_⟩
          have hkeep : ∑ t ∈ Finset.range s.threads.length,
              Function.update fund s.threads.length (budget kind) t =
              ∑ t ∈ Finset.range s.threads.length, fund t :=
            Finset.sum_congr rfl (fun t ht =>
              Function.update_of_ne (Nat.ne_of_lt (Finset.mem_range.mp ht)) _ _)
          simp only [State.note_threads, List.length_append, List.length_singleton,
            Finset.sum_range_succ, hkeep, Function.update_self, funds_append, funds]
          omega
      | _ => exact absurd (by simp) hl
  obtain ⟨fund, -, hsum⟩ := funded
  exact Nat.le_trans (Nat.le_add_right _ _) hsum

end Runs

end EvoGw.WorkBudgets
