import Mathlib.Logic.Basic

/-!
# Properties of runs and conditions on steps

A property of states may fail along some runs of a program. `Throughout` says
that it holds in every state which one run passes through, `EachStep` that every
step of the run meets a condition on the state before it. When each single step
keeps the property exactly under the condition, the two are equivalent, so the
condition is the exact reason for which the property holds or fails.
-/
namespace EvoGw.StepConditions

variable {σ L : Type} (step : σ → L → Option σ)

/-- `P` holds at the start and after each label, as long as steps are enabled. -/
def Throughout (P : σ → Prop) (s : σ) : List L → Prop
  | [] => P s
  | l :: ls => P s ∧ ∀ s', step s l = some s' → Throughout P s' ls

/-- Every enabled step meets `C`, which sees the state before it. -/
def EachStep (C : σ → L → Prop) (s : σ) : List L → Prop
  | [] => True
  | l :: ls => ∀ s', step s l = some s' → C s l ∧ EachStep C s' ls

instance eachStepDecidable (C : σ → L → Prop) [∀ s l, Decidable (C s l)] (s : σ) (ls : List L) :
    Decidable (EachStep step C s ls) :=
  match ls with
  | [] => .isTrue trivial
  | l :: ls =>
      match h : step s l with
      | none => .isTrue (fun s' hs' => by rw [h] at hs'; cases hs')
      | some s' =>
          have := eachStepDecidable C s' ls
          decidable_of_iff (C s l ∧ EachStep step C s' ls)
            ⟨fun hc s'' hs'' => by rw [h] at hs''; cases hs''; exact hc, fun hc => hc s' h⟩

instance throughoutDecidable (P : σ → Prop) [∀ s, Decidable (P s)] (s : σ) (ls : List L) :
    Decidable (Throughout step P s ls) :=
  match ls with
  | [] => inferInstanceAs (Decidable (P s))
  | l :: ls =>
      match h : step s l with
      | none => decidable_of_iff (P s)
          ⟨fun hs => ⟨hs, fun s' hs' => by rw [h] at hs'; cases hs'⟩, fun hs => hs.1⟩
      | some s' =>
          have := throughoutDecidable P s' ls
          decidable_of_iff (P s ∧ Throughout step P s' ls)
            ⟨fun hs => ⟨hs.1, fun s'' hs'' => by rw [h] at hs''; cases hs''; exact hs.2⟩,
              fun hs => ⟨hs.1, hs.2 s' h⟩⟩

variable {step} {P I : σ → Prop} {C : σ → L → Prop}

theorem Throughout.start {s : σ} {ls : List L} (h : Throughout step P s ls) : P s := by
  cases ls with
  | nil => exact h
  | cons l ls => exact h.1

/-- The property holds throughout a run exactly if each step meets the condition. -/
theorem throughout_iff (hinv : ∀ s l s', I s → step s l = some s' → I s')
    (hstep : ∀ s l s', I s → P s → step s l = some s' → (P s' ↔ C s l))
    {s : σ} (hI : I s) (hP : P s) (ls : List L) :
    Throughout step P s ls ↔ EachStep step C s ls := by
  induction ls generalizing s with
  | nil => exact ⟨fun _ => trivial, fun _ => hP⟩
  | cons l ls ih =>
      constructor
      · intro h s' hs'
        have hP' := (h.2 s' hs').start
        exact ⟨(hstep s l s' hI hP hs').mp hP', (ih (hinv s l s' hI hs') hP').mp (h.2 s' hs')⟩
      · intro h
        refine ⟨hP, fun s' hs' => ?_⟩
        have hP' := (hstep s l s' hI hP hs').mpr (h s' hs').1
        exact (ih (hinv s l s' hI hs') hP').mpr (h s' hs').2

/-- A condition under which every step keeps an invariant that implies the property. -/
theorem throughout_of (hstep : ∀ s l s', I s → C s l → step s l = some s' → I s')
    (hP : ∀ s, I s → P s) {s : σ} (hI : I s) {ls : List L} (h : EachStep step C s ls) :
    Throughout step P s ls := by
  induction ls generalizing s with
  | nil => exact hP s hI
  | cons l ls ih =>
      refine ⟨hP s hI, fun s' hs' => ?_⟩
      exact ih (hstep s l s' hI (h s' hs').1 hs') (h s' hs').2

end EvoGw.StepConditions
