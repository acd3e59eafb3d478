import EvoGw.ThreadPrograms

/-!
# Where the exceptions of a program come from

An exception has a cause if it is one that the input of the program explains, or if
an answer which the program has got before is at fault. `Fails` follows a program
and collects the causes on the way: every answered primitive may add some. What a
program returns can be related to the causes known by then, so that an exception can
be traced back to an answer from long before.

`Fails.residual` reads the cause of an exception off the trace of the program.
-/
namespace EvoGw.FailureCauses
open ThreadPrograms

variable {S : Signature} {A B : Type}

/-- With `cause` to begin with, the program raises only what has a cause, and returns
only what `post` allows given the causes by then. -/
def Fails (fault : Event S → S.Err → Prop) (post : (S.Err → Prop) → A → Prop) :
    (S.Err → Prop) → Program S A → Prop
  | cause, .done a => post cause a
  | cause, .raise e => cause e
  | cause, .act p k => ∀ r, Fails fault post (fun e => cause e ∨ fault ⟨p, r⟩ e) (k r)

/-- Further causes do not invalidate the postcondition. -/
def Stable (post : (S.Err → Prop) → A → Prop) : Prop :=
  ∀ ⦃cause cause' : S.Err → Prop⦄ ⦃a : A⦄, (∀ e, cause e → cause' e) → post cause a →
    post cause' a

section Rules
variable {fault fault' : Event S → S.Err → Prop} {post : (S.Err → Prop) → A → Prop}
  {post' : (S.Err → Prop) → B → Prop} {cause cause' : S.Err → Prop}

theorem Fails.mono {p : Program S A} (h : Fails fault post cause p) (hpost : Stable post)
    (hfault : ∀ ev e, fault ev e → fault' ev e) (hcause : ∀ e, cause e → cause' e) :
    Fails fault' post cause' p := by
  induction p generalizing cause cause' with
  | done a => exact hpost hcause h
  | raise e => exact hcause e h
  | act p k ih =>
      intro r
      exact ih r (h r) (fun e he => he.imp (hcause e) (hfault _ e))

theorem Fails.bind {p : Program S A} {f : A → Program S B} (hp : Fails fault post cause p)
    (hf : ∀ known a, (∀ e, cause e → known e) → post known a → Fails fault post' known (f a)) :
    Fails fault post' cause (p >>= f) := by
  induction p generalizing cause with
  | done a => exact hf cause a (fun _ he => he) hp
  | raise e => exact hp
  | act p k ih =>
      intro r
      exact ih r (hp r) (fun known a hknown => hf known a (fun e he => hknown e (.inl he)))

/-- Everything that the body raises is caught. -/
theorem Fails.rescue_any (hpost : ∀ known a, post known a) {p : Program S A}
    {f : S.Err → Program S A} (hf : ∀ known e, Fails fault post known (f e)) :
    Fails fault post cause (p.rescue f) := by
  induction p generalizing cause with
  | done a => exact hpost cause a
  | raise e => exact hf cause e
  | act p k ih => exact fun r => ih r

/-- One exception is caught, and all others are raised again. -/
theorem Fails.rescue_one [DecidableEq S.Err] {err : S.Err} {a : A} {p : Program S A}
    (h : Fails fault (fun _ _ => True) cause p) :
    Fails (fun ev e => fault ev e ∧ e ≠ err) (fun _ _ => True) (fun e => cause e ∧ e ≠ err)
      (p.rescue (fun e => if e = err then .done a else .raise e)) := by
  induction p generalizing cause with
  | done b => trivial
  | raise e =>
      rw [Program.rescue_raise]
      split_ifs with he
      · trivial
      · exact ⟨h, he⟩
  | act p k ih =>
      intro r
      refine (ih r (h r)).mono (fun _ _ _ _ _ => trivial) (fun _ _ he => he) ?_
      rintro e ⟨he, hne⟩
      exact he.imp (fun hc => ⟨hc, hne⟩) (fun hf => ⟨hf, hne⟩)

theorem Fails.synchronize {m : S.Mutex} {p : Program S A} (h : Fails fault post cause p)
    (hpost : Stable post) : Fails fault post cause (p.synchronize m) := by
  have released : ∀ {cause : S.Err → Prop} {p : Program S A}, Fails fault post cause p →
      Fails fault post cause (p.ensure (.act (.release m) .done)) := by
    intro cause p h
    induction p generalizing cause with
    | done a => exact fun _ => hpost (fun _ he => .inl he) h
    | raise e => exact fun _ => .inl h
    | act p k ih => exact fun r => ih r (h r)
  intro _
  exact released (h.mono hpost (fun _ _ he => he) (fun _ he => .inl he))

/-- What a program has raised has a cause, before its run or in it. -/
theorem Fails.residual {p q : Program S A} {tr : List (Event S)} {e : S.Err}
    (h : Fails fault post cause p) (hres : Residual p tr q) (hq : q = .raise e) :
    cause e ∨ ∃ ev ∈ tr, fault ev e := by
  induction hres generalizing cause with
  | nil p =>
      subst hq
      exact .inl h
  | @cons p k r tr q _ ih =>
      rcases ih (h r) hq with (hcause | hfault) | ⟨ev, hev, hfault⟩
      · exact .inl hcause
      · exact .inr ⟨_, List.mem_cons_self, hfault⟩
      · exact .inr ⟨ev, List.mem_cons_of_mem _ hev, hfault⟩

end Rules

end EvoGw.FailureCauses
