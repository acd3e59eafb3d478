import EvoGw.ThreadPrograms
import Mathlib.Data.List.Forall2
import Mathlib.Data.List.Infix

/-!
# Programs that follow a script

A script is a list of deeds. A program follows it if the primitives that count
occur in the order of the script, on every path and however they are answered. A
program that returns has done everything; one that raises may stop anywhere. With
`skip` deeds may be left out, so that the order is all that is promised.

`Emits.residual` reads this off the trace of a program at any moment of its run:
what was done is the beginning of the script, and what is left follows the rest.
-/
namespace EvoGw.EffectScripts
open ThreadPrograms

variable {S : Signature} {D A B : Type}

/-- `counts` says which primitives are deeds, and `is` which deed one is. -/
def Emits (counts : Prim S → Bool) (is : D → Prim S → Prop) (skip : Prop) :
    List D → Program S A → Prop
  | ds, .done _ => skip ∨ ds = []
  | _, .raise _ => True
  | ds, .act p k =>
      match counts p with
      | true => ∃ left d rest, ds = left ++ d :: rest ∧ (skip ∨ left = []) ∧ is d p ∧
          ∀ r, Emits counts is skip rest (k r)
      | false => ∀ r, Emits counts is skip ds (k r)

section Rules
variable {counts : Prim S → Bool} {is : D → Prim S → Prop} {skip : Prop} {ds ds' : List D}

theorem emits_quiet {p : Prim S} {k : p.Resp → Program S A} (hp : counts p = false)
    (h : ∀ r, Emits counts is skip ds (k r)) : Emits counts is skip ds (.act p k) := by
  simp only [Emits, hp]
  exact h

theorem emits_deed {p : Prim S} {k : p.Resp → Program S A} {d : D} (hp : counts p = true)
    (hd : is d p) (h : ∀ r, Emits counts is skip ds (k r)) :
    Emits counts is skip (d :: ds) (.act p k) := by
  simp only [Emits, hp]
  exact ⟨[], d, ds, rfl, .inr rfl, hd, h⟩

/-- Deeds at the beginning of a script can be left out. -/
theorem Emits.weaken {p : Program S A} (hskip : skip) (h : Emits counts is skip ds' p) :
    Emits counts is skip (ds ++ ds') p := by
  induction p with
  | done a => exact .inl hskip
  | raise e => trivial
  | act p k ih =>
      cases hp : counts p with
      | true =>
          simp only [Emits, hp] at h ⊢
          obtain ⟨left, d, rest, rfl, -, hd, hk⟩ := h
          exact ⟨ds ++ left, d, rest, by simp, .inl hskip, hd, hk⟩
      | false =>
          simp only [Emits, hp] at h ⊢
          exact fun r => ih r (h r)

theorem Emits.bind {p : Program S A} {f : A → Program S B} (hp : Emits counts is skip ds p)
    (hf : ∀ a, Emits counts is skip ds' (f a)) : Emits counts is skip (ds ++ ds') (p >>= f) := by
  induction p generalizing ds with
  | done a =>
      rcases hp with hskip | rfl
      · exact (hf a).weaken hskip
      · exact hf a
  | raise e => trivial
  | act p k ih =>
      cases hc : counts p with
      | true =>
          simp only [Emits, hc] at hp
          obtain ⟨left, d, rest, rfl, hleft, hd, hk⟩ := hp
          simp only [Program.act_bind, Emits, hc]
          exact ⟨left, d, rest ++ ds', by simp, hleft, hd, fun r => ih r (hk r)⟩
      | false =>
          simp only [Emits, hc] at hp
          simp only [Program.act_bind, Emits, hc]
          exact fun r => ih r (hp r)

/-- A program without deeds. -/
theorem Emits.of_uses {p : Program S A} (hp : Uses (fun q => counts q = false) p) :
    Emits counts is skip [] p := by
  induction p with
  | done a => exact .inr rfl
  | raise e => trivial
  | act p k ih => exact emits_quiet hp.1 (fun r => ih r (hp.2 r))

/-- Before and behind a program without deeds the script is the same. -/
theorem Emits.after {p : Program S A} {f : A → Program S B}
    (hp : Uses (fun q => counts q = false) p) (hf : ∀ a, Emits counts is skip ds (f a)) :
    Emits counts is skip ds (p >>= f) := (Emits.of_uses hp).bind hf

theorem Emits.before {p : Program S A} {f : A → Program S B} (hp : Emits counts is skip ds p)
    (hf : ∀ a, Uses (fun q => counts q = false) (f a)) : Emits counts is skip ds (p >>= f) := by
  have h := hp.bind (fun a => Emits.of_uses (hf a))
  rw [List.append_nil] at h
  exact h

theorem Emits.rescue {p : Program S A} {f : S.Err → Program S A} (hskip : skip)
    (hp : Emits counts is skip ds p) (hf : ∀ e, Emits counts is skip [] (f e)) :
    Emits counts is skip ds (p.rescue f) := by
  induction p generalizing ds with
  | done a => exact .inl hskip
  | raise e =>
      have h : Emits counts is skip (ds ++ []) (f e) := (hf e).weaken hskip
      rw [List.append_nil] at h
      exact h
  | act p k ih =>
      cases hc : counts p with
      | true =>
          simp only [Emits, hc] at hp
          obtain ⟨left, d, rest, rfl, hleft, hd, hk⟩ := hp
          simp only [Program.rescue_act, Emits, hc]
          exact ⟨left, d, rest, rfl, hleft, hd, fun r => ih r (hk r)⟩
      | false =>
          simp only [Emits, hc] at hp
          simp only [Program.rescue_act, Emits, hc]
          exact fun r => ih r (hp r)

theorem Emits.synchronize {p : Program S A} {m : S.Mutex} (hacquire : counts (.acquire m) = false)
    (hrelease : counts (.release m) = false) (hp : Emits counts is skip ds p) :
    Emits counts is skip ds (p.synchronize m) := by
  refine emits_quiet hacquire (fun _ => ?_)
  induction p generalizing ds with
  | done a => exact emits_quiet hrelease (fun _ => hp)
  | raise e => exact emits_quiet hrelease (fun _ => trivial)
  | act p k ih =>
      cases hc : counts p with
      | true =>
          simp only [Emits, hc] at hp
          obtain ⟨left, d, rest, rfl, hleft, hd, hk⟩ := hp
          simp only [Program.ensure_act, Emits, hc]
          exact ⟨left, d, rest, rfl, hleft, hd, fun r => ih r (hk r)⟩
      | false =>
          simp only [Emits, hc] at hp
          simp only [Program.ensure_act, Emits, hc]
          exact fun r => ih r (hp r)

/-- What was done is the beginning of the script. -/
theorem Emits.residual {p q : Program S A} {tr : List (Event S)} (hp : Emits counts is skip ds p)
    (h : Residual p tr q) : ∃ past future : List D,
      List.Forall₂ (fun e d => is d e.prim) (tr.filter (fun e => counts e.prim)) past ∧
      (past ++ future).Sublist ds ∧ (skip ∨ past ++ future = ds) ∧
      Emits counts is skip future q := by
  induction h generalizing ds with
  | nil p => exact ⟨[], ds, .nil, List.Sublist.refl ds, .inr rfl, hp⟩
  | @cons p k r tr q _ ih =>
      cases hc : counts p with
      | true =>
          simp only [Emits, hc] at hp
          obtain ⟨left, d, rest, rfl, hleft, hd, hk⟩ := hp
          obtain ⟨past, future, hpast, hsub, hall, hq⟩ := ih (hk r)
          refine ⟨d :: past, future, ?_, ?_, ?_, hq⟩
          · rw [List.filter_cons_of_pos (by exact hc)]
            exact .cons hd hpast
          · exact (hsub.cons_cons d).trans (List.sublist_append_right left _)
          · rcases hleft with hskip | rfl
            · exact .inl hskip
            · exact hall.imp_right (fun heq => by rw [List.cons_append, heq]; rfl)
      | false =>
          simp only [Emits, hc] at hp
          obtain ⟨past, future, hpast, hrest⟩ := ih (hp r)
          refine ⟨past, future, ?_, hrest⟩
          rw [List.filter_cons_of_neg (by simp [hc])]
          exact hpast

end Rules

end EvoGw.EffectScripts
