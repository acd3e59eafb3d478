import Mathlib.Logic.Function.Basic
import Mathlib.Data.List.Basic
import Mathlib.Tactic.Common

/-!
# Programs of threads that share a world

A program is the tree of what one thread may still do: it has ended, it has
raised, or it asks its surroundings for one primitive and continues with the
answer. Every answer has a continuation, so a program says what its thread does
under every behaviour of the surroundings and of the other threads.

The primitives are those of a server that shares a table and a store of
blocking lists: taking and giving back a mutex, prepending to a list, deleting
a list, popping a list with a bounded wait, and the calls of a client signature.
Nothing here fixes what a call means. `Behaves` is the trace meaning of one
program alone, with every answer left to the surroundings.
-/
namespace EvoGw.ThreadPrograms

/-- What the threads of one development may ask of their surroundings. -/
structure Signature where
  Call : Type
  Resp : Call → Type
  Mutex : Type
  Key : Type
  Data : Type
  Err : Type
  [decMutex : DecidableEq Mutex]
  [decKey : DecidableEq Key]

attribute [instance] Signature.decMutex Signature.decKey

/-- How a bounded wait on a list ends. -/
inductive Awaited (D : Type) where
  | got (d : D)
  | timedOut
  | failed
  deriving DecidableEq, Repr

variable {S : Signature} {A B C : Type}

inductive Prim (S : Signature) where
  | call (c : S.Call)
  | acquire (m : S.Mutex)
  | release (m : S.Mutex)
  | push (key : S.Key) (d : S.Data)
  | clear (key : S.Key)
  | await (key : S.Key)

/-- The answers to `push` and `clear` say whether the store has obeyed. -/
@[reducible] def Prim.Resp : Prim S → Type
  | .call c => S.Resp c
  | .acquire _ => Unit
  | .release _ => Unit
  | .push _ _ => Bool
  | .clear _ => Bool
  | .await _ => Awaited S.Data

inductive Program (S : Signature) (A : Type) where
  | done (a : A)
  | raise (e : S.Err)
  | act (p : Prim S) (k : p.Resp → Program S A)

namespace Program

def bind : Program S A → (A → Program S B) → Program S B
  | .done a, f => f a
  | .raise e, _ => .raise e
  | .act p k, f => .act p (fun r => (k r).bind f)

instance : Monad (Program S) where
  pure := .done
  bind := .bind

/-- `begin p rescue e; f e end`: only what `p` itself raises is caught. -/
def rescue : Program S A → (S.Err → Program S A) → Program S A
  | .done a, _ => .done a
  | .raise e, f => f e
  | .act p k, f => .act p (fun r => (k r).rescue f)

/-- `begin p ensure q end`: `q` runs after `p` has ended and after it has raised. -/
def ensure : Program S A → Program S Unit → Program S A
  | .done a, q => q.bind (fun _ => .done a)
  | .raise e, q => q.bind (fun _ => .raise e)
  | .act p k, q => .act p (fun r => (k r).ensure q)

/-- A mutex section gives the mutex back however its body ends. -/
def synchronize (m : S.Mutex) (p : Program S A) : Program S A :=
  .act (.acquire m) (fun _ => p.ensure (.act (.release m) .done))

def Finished : Program S A → Prop
  | .act _ _ => False
  | _ => True

@[simp] theorem pure_eq (a : A) : (pure a : Program S A) = .done a := rfl
@[simp] theorem done_bind (a : A) (f : A → Program S B) : (Program.done a >>= f) = f a := rfl
@[simp] theorem raise_bind (e : S.Err) (f : A → Program S B) :
    ((Program.raise e : Program S A) >>= f) = .raise e := rfl
@[simp] theorem act_bind (p : Prim S) (k : p.Resp → Program S A) (f : A → Program S B) :
    (Program.act p k >>= f) = .act p (fun r => k r >>= f) := rfl

@[simp] theorem rescue_done (a : A) (f : S.Err → Program S A) :
    (Program.done a).rescue f = .done a := rfl
@[simp] theorem rescue_raise (e : S.Err) (f : S.Err → Program S A) :
    (Program.raise e).rescue f = f e := rfl
@[simp] theorem rescue_act (p : Prim S) (k : p.Resp → Program S A) (f : S.Err → Program S A) :
    (Program.act p k).rescue f = .act p (fun r => (k r).rescue f) := rfl

@[simp] theorem ensure_done (a : A) (q : Program S Unit) :
    (Program.done a).ensure q = q >>= fun _ => .done a := rfl
@[simp] theorem ensure_raise (e : S.Err) (q : Program S Unit) :
    (Program.raise e : Program S A).ensure q = q >>= fun _ => .raise e := rfl
@[simp] theorem ensure_act (p : Prim S) (k : p.Resp → Program S A) (q : Program S Unit) :
    (Program.act p k).ensure q = .act p (fun r => (k r).ensure q) := rfl

theorem Finished.bind {p : Program S A} {f : A → Program S B} (hp : p.Finished)
    (hf : ∀ a, (f a).Finished) : (p >>= f).Finished := by
  cases p with
  | done a => exact hf a
  | raise e => trivial
  | act p k => exact hp.elim

theorem bind_done (p : Program S A) : p >>= Program.done = p := by
  induction p with
  | done a => rfl
  | raise e => rfl
  | act p k ih =>
      rw [act_bind]
      exact congrArg (Program.act p) (funext ih)

theorem bind_assoc (p : Program S A) (f : A → Program S B) (g : B → Program S C) :
    p >>= f >>= g = p >>= fun a => f a >>= g := by
  induction p with
  | done a => rfl
  | raise e => rfl
  | act p k ih =>
      simp only [act_bind]
      exact congrArg (Program.act p) (funext ih)

instance : LawfulMonad (Program S) := LawfulMonad.mk' (Program S)
  (fun p => bind_done p) (fun _ _ => rfl) bind_assoc

end Program

def Prim.IsCall : Prim S → Prop
  | .call _ => True
  | _ => False

/-- Every primitive to which the program can come satisfies `ok`. -/
def Uses (ok : Prim S → Prop) : Program S A → Prop
  | .done _ => True
  | .raise _ => True
  | .act p k => ok p ∧ ∀ r, Uses ok (k r)

theorem Uses.bind {ok : Prim S → Prop} {p : Program S A} {f : A → Program S B} (hp : Uses ok p)
    (hf : ∀ a, Uses ok (f a)) : Uses ok (p >>= f) := by
  induction p with
  | done a => exact hf a
  | raise e => trivial
  | act p k ih => exact ⟨hp.1, fun r => ih r (hp.2 r)⟩

theorem Uses.rescue {ok : Prim S → Prop} {p : Program S A} {f : S.Err → Program S A}
    (hp : Uses ok p) (hf : ∀ e, Uses ok (f e)) : Uses ok (p.rescue f) := by
  induction p with
  | done a => trivial
  | raise e => exact hf e
  | act p k ih => exact ⟨hp.1, fun r => ih r (hp.2 r)⟩

theorem Uses.ensure {ok : Prim S → Prop} {p : Program S A} {q : Program S Unit}
    (hp : Uses ok p) (hq : Uses ok q) : Uses ok (p.ensure q) := by
  induction p with
  | done a => exact hq.bind (fun _ => trivial)
  | raise e => exact hq.bind (fun _ => trivial)
  | act p k ih => exact ⟨hp.1, fun r => ih r (hp.2 r)⟩

theorem Uses.synchronize {ok : Prim S → Prop} {m : S.Mutex} {p : Program S A}
    (hacq : ok (.acquire m)) (hrel : ok (.release m)) (hp : Uses ok p) :
    Uses ok (p.synchronize m) :=
  ⟨hacq, fun _ => hp.ensure ⟨hrel, fun _ => trivial⟩⟩

theorem Uses.mono {ok ok' : Prim S → Prop} {p : Program S A} (hp : Uses ok p)
    (h : ∀ q, ok q → ok' q) : Uses ok' p := by
  induction p with
  | done a => trivial
  | raise e => trivial
  | act p k ih => exact ⟨h p hp.1, fun r => ih r (hp.2 r)⟩

/-- One performed primitive with its answer. -/
structure Event (S : Signature) where
  prim : Prim S
  resp : prim.Resp

/-- `Residual p tr q`: after the answers of `tr`, in this order, `q` is left of `p`. -/
inductive Residual : Program S A → List (Event S) → Program S A → Prop
  | nil (p : Program S A) : Residual p [] p
  | cons {p : Prim S} {k : p.Resp → Program S A} {r : p.Resp} {tr : List (Event S)}
      {q : Program S A} : Residual (k r) tr q → Residual (.act p k) (⟨p, r⟩ :: tr) q

theorem Residual.snoc {p : Program S A} {tr : List (Event S)} {q : Prim S}
    {k : q.Resp → Program S A} (h : Residual p tr (.act q k)) (r : q.Resp) :
    Residual p (tr ++ [⟨q, r⟩]) (k r) := by
  generalize hq : Program.act q k = u at h
  induction h with
  | nil p => subst hq; exact .cons (.nil _)
  | cons _ ih => exact .cons (ih hq)

theorem Residual.uses {ok : Prim S → Prop} {p q : Program S A} {tr : List (Event S)}
    (h : Residual p tr q) (hp : Uses ok p) : (∀ e ∈ tr, ok e.prim) ∧ Uses ok q := by
  induction h with
  | nil p => exact ⟨by simp, hp⟩
  | cons _ ih =>
      obtain ⟨htr, hq⟩ := ih (hp.2 _)
      exact ⟨List.forall_mem_cons.mpr ⟨hp.1, htr⟩, hq⟩

/-- The program comes to no primitive with `effect` before it has performed one
with `cause`. -/
def Before (cause effect : Prim S → Prop) : Program S A → Prop
  | .done _ => True
  | .raise _ => True
  | .act p k => ¬ effect p ∧ (cause p ∨ ∀ r, Before cause effect (k r))

theorem Before.of_uses {cause effect : Prim S → Prop} {p : Program S A}
    (hp : Uses (fun q => ¬ effect q) p) : Before cause effect p := by
  induction p with
  | done a => trivial
  | raise e => trivial
  | act p k ih => exact ⟨hp.1, .inr (fun r => ih r (hp.2 r))⟩

theorem Before.bind {cause effect : Prim S → Prop} {p : Program S A} {f : A → Program S B}
    (hp : Before cause effect p) (hf : ∀ a, Before cause effect (f a)) :
    Before cause effect (p >>= f) := by
  induction p with
  | done a => exact hf a
  | raise e => trivial
  | act p k ih => exact ⟨hp.1, hp.2.imp_right (fun hk r => ih r (hk r))⟩

theorem Before.of_mem {cause effect : Prim S → Prop} {p q : Program S A} {tr : List (Event S)}
    (hp : Before cause effect p) (h : Residual p tr q) {e : Event S} (he : e ∈ tr)
    (heff : effect e.prim) : ∃ e' ∈ tr, cause e'.prim := by
  induction h with
  | nil p => cases he
  | @cons p k r tr q _ ih =>
      rcases hp.2 with hcause | hrest
      · exact ⟨_, List.mem_cons_self, hcause⟩
      · rcases List.mem_cons.mp he with rfl | he
        · exact absurd heff hp.1
        · obtain ⟨e', he', hcause⟩ := ih (hrest r) he
          exact ⟨e', List.mem_cons_of_mem _ he', hcause⟩

/-- Whatever answer a primitive of the program gets, what is left then satisfies
`good` together with this event. -/
def After (good : Event S → Program S A → Prop) : Program S A → Prop
  | .done _ => True
  | .raise _ => True
  | .act p k => ∀ r, good ⟨p, r⟩ (k r) ∧ After good (k r)

section After
variable {good : Event S → Program S A → Prop}

theorem After.bind {good' : Event S → Program S B → Prop} {p : Program S A}
    {f : A → Program S B} (hp : After good p) (hgood : ∀ e q, good e q → good' e (q >>= f))
    (hf : ∀ a, After good' (f a)) : After good' (p >>= f) := by
  induction p with
  | done a => exact hf a
  | raise e => trivial
  | act p k ih => exact fun r => ⟨hgood _ _ (hp r).1, ih r (hp r).2⟩

theorem After.rescue {good' : Event S → Program S A → Prop} {p : Program S A}
    {f : S.Err → Program S A} (hp : After good p) (hgood : ∀ e q, good e q → good' e (q.rescue f))
    (hf : ∀ e, After good' (f e)) : After good' (p.rescue f) := by
  induction p with
  | done a => trivial
  | raise e => exact hf e
  | act p k ih => exact fun r => ⟨hgood _ _ (hp r).1, ih r (hp r).2⟩

/-- A program none of whose primitives matters to `good`. -/
theorem Uses.after {ok : Prim S → Prop} {p : Program S A} (hp : Uses ok p)
    (hok : ∀ e q, ok e.prim → good e q) : After good p := by
  induction p with
  | done a => trivial
  | raise e => trivial
  | act p k ih => exact fun r => ⟨hok ⟨p, r⟩ _ hp.1, ih r (hp.2 r)⟩

theorem After.of_mem {p q : Program S A} {tr : List (Event S)} (hp : After good p)
    (h : Residual p tr q) {e : Event S} (he : e ∈ tr) :
    ∃ q' tr', good e q' ∧ Residual q' tr' q := by
  induction h with
  | nil p => cases he
  | @cons p k r tr q h ih =>
      rcases List.mem_cons.mp he with rfl | he
      · exact ⟨k r, tr, (hp r).1, h⟩
      · exact ih (hp r).2 he

end After

theorem Residual.of_done {a : A} {tr : List (Event S)} {q : Program S A}
    (h : Residual (.done a) tr q) : q = .done a := by
  cases h
  rfl

theorem Residual.of_finished {p q : Program S A} {tr : List (Event S)} (h : Residual p tr q)
    (hp : p.Finished) : tr = [] ∧ q = p := by
  cases h with
  | nil p => exact ⟨rfl, rfl⟩
  | cons _ => exact hp.elim

/-- What is left of a sequence is in its first program, or behind it. -/
theorem Residual.bind_inv {p : Program S A} {f : A → Program S B} {tr : List (Event S)}
    {q : Program S B} (h : Residual (p >>= f) tr q) :
    (∃ p', Residual p tr p' ∧ (∀ a, p' ≠ .done a) ∧ ∀ b, q ≠ .done b) ∨
      ∃ a tr₁ tr₂, tr = tr₁ ++ tr₂ ∧ Residual p tr₁ (.done a) ∧ Residual (f a) tr₂ q := by
  induction p generalizing tr with
  | done a => exact .inr ⟨a, [], tr, rfl, .nil _, h⟩
  | raise e =>
      obtain ⟨rfl, rfl⟩ := h.of_finished trivial
      exact .inl ⟨.raise e, .nil _, by simp, by simp⟩
  | act p k ih =>
      cases h with
      | nil _ => exact .inl ⟨.act p k, .nil _, by simp, by simp⟩
      | cons h =>
          rcases ih _ h with ⟨p', hp', hrest⟩ | ⟨a, tr₁, tr₂, rfl, h₁, h₂⟩
          · exact .inl ⟨p', .cons hp', hrest⟩
          · exact .inr ⟨a, _, tr₂, rfl, .cons h₁, h₂⟩

/-- A handler that performs nothing leaves the trace of the rescued program. -/
theorem Residual.rescue_inv {p : Program S A} {f : S.Err → Program S A} {tr : List (Event S)}
    {q : Program S A} (hf : ∀ e, (f e).Finished) (h : Residual (p.rescue f) tr q) :
    ∃ p', Residual p tr p' ∧ q = p'.rescue f := by
  induction p generalizing tr with
  | done a =>
      obtain ⟨rfl, rfl⟩ := h.of_finished trivial
      exact ⟨_, .nil _, rfl⟩
  | raise e =>
      obtain ⟨rfl, rfl⟩ := h.of_finished (hf e)
      exact ⟨_, .nil _, rfl⟩
  | act p k ih =>
      cases h with
      | nil _ => exact ⟨_, .nil _, rfl⟩
      | cons h =>
          obtain ⟨p', hp', hq⟩ := ih _ h
          exact ⟨p', .cons hp', hq⟩

/-- The complete traces of a program alone: its surroundings answer at will. -/
def Behaves : Program S A → List (Event S) → Except S.Err A → Prop
  | .done a, tr, out => tr = [] ∧ out = .ok a
  | .raise e, tr, out => tr = [] ∧ out = .error e
  | .act p k, tr, out => ∃ r tr', tr = ⟨p, r⟩ :: tr' ∧ Behaves (k r) tr' out

@[simp] theorem behaves_done (a : A) (tr : List (Event S)) (out : Except S.Err A) :
    Behaves (.done a) tr out ↔ tr = [] ∧ out = .ok a := Iff.rfl
@[simp] theorem behaves_raise (e : S.Err) (tr : List (Event S)) (out : Except S.Err A) :
    Behaves (.raise e) tr out ↔ tr = [] ∧ out = .error e := Iff.rfl

theorem Program.Finished.trace_nil {p : Program S A} (hp : p.Finished) {tr : List (Event S)}
    {out : Except S.Err A} (h : Behaves p tr out) : tr = [] := by
  cases p with
  | done a => exact h.1
  | raise e => exact h.1
  | act p k => exact hp.elim

/-- Sequencing: the trace of the first program ends where the second begins. -/
theorem Behaves.bind {p : Program S A} {f : A → Program S B} {tr₁ tr₂ : List (Event S)}
    {a : A} {out : Except S.Err B} (hp : Behaves p tr₁ (.ok a)) (hf : Behaves (f a) tr₂ out) :
    Behaves (p >>= f) (tr₁ ++ tr₂) out := by
  induction p generalizing tr₁ with
  | done b =>
      obtain ⟨rfl, hb⟩ := hp
      cases hb
      exact hf
  | raise e =>
      obtain ⟨-, hb⟩ := hp
      cases hb
  | act p k ih =>
      obtain ⟨r, tr, rfl, hk⟩ := hp
      exact ⟨r, tr ++ tr₂, rfl, ih r hk⟩

theorem Behaves.bind_inv {p : Program S A} {f : A → Program S B} {tr : List (Event S)}
    {b : B} (h : Behaves (p >>= f) tr (.ok b)) :
    ∃ a tr₁ tr₂, tr = tr₁ ++ tr₂ ∧ Behaves p tr₁ (.ok a) ∧ Behaves (f a) tr₂ (.ok b) := by
  induction p generalizing tr with
  | done a => exact ⟨a, [], tr, rfl, ⟨rfl, rfl⟩, h⟩
  | raise e => cases h.2
  | act p k ih =>
      obtain ⟨r, tr', rfl, hk⟩ := h
      obtain ⟨a, tr₁, tr₂, rfl, h₁, h₂⟩ := ih r hk
      exact ⟨a, ⟨p, r⟩ :: tr₁, tr₂, rfl, ⟨r, tr₁, rfl, h₁⟩, h₂⟩

theorem Behaves.bind_error {p : Program S A} {f : A → Program S B} {tr : List (Event S)}
    {e : S.Err} (h : Behaves (p >>= f) tr (.error e)) :
    Behaves p tr (.error e) ∨
      ∃ a tr₁ tr₂, tr = tr₁ ++ tr₂ ∧ Behaves p tr₁ (.ok a) ∧ Behaves (f a) tr₂ (.error e) := by
  induction p generalizing tr with
  | done a => exact .inr ⟨a, [], tr, rfl, ⟨rfl, rfl⟩, h⟩
  | raise e' =>
      obtain ⟨rfl, heq⟩ := h
      cases heq
      exact .inl ⟨rfl, rfl⟩
  | act p k ih =>
      obtain ⟨r, tr', rfl, hk⟩ := h
      rcases ih r hk with herr | ⟨a, tr₁, tr₂, rfl, h₁, h₂⟩
      · exact .inl ⟨r, tr', rfl, herr⟩
      · exact .inr ⟨a, ⟨p, r⟩ :: tr₁, tr₂, rfl, ⟨r, tr₁, rfl, h₁⟩, h₂⟩

/-- The answers determine how a program ends. -/
theorem Behaves.unique {p : Program S A} {tr : List (Event S)} {out out' : Except S.Err A}
    (h : Behaves p tr out) (h' : Behaves p tr out') : out = out' := by
  induction p generalizing tr with
  | done a => exact h.2.trans h'.2.symm
  | raise e => exact h.2.trans h'.2.symm
  | act p k ih =>
      obtain ⟨r, tr₁, rfl, hk⟩ := h
      obtain ⟨r', tr₂, heq, hk'⟩ := h'
      simp only [List.cons.injEq, Event.mk.injEq, heq_eq_eq, true_and] at heq
      obtain ⟨rfl, rfl⟩ := heq
      exact ih r hk hk'

theorem Behaves.rescue {p : Program S A} {f : S.Err → Program S A} {tr : List (Event S)} {a : A}
    (h : Behaves p tr (.ok a)) : Behaves (p.rescue f) tr (.ok a) := by
  induction p generalizing tr with
  | done b => exact h
  | raise e => cases h.2
  | act p k ih =>
      obtain ⟨r, tr', rfl, hk⟩ := h
      exact ⟨r, tr', rfl, ih r hk⟩

theorem Behaves.rescue_inv {p : Program S A} {f : S.Err → Program S A} {tr : List (Event S)}
    {a : A} (h : Behaves (p.rescue f) tr (.ok a)) :
    Behaves p tr (.ok a) ∨
      ∃ e tr₁ tr₂, tr = tr₁ ++ tr₂ ∧ Behaves p tr₁ (.error e) ∧ Behaves (f e) tr₂ (.ok a) := by
  induction p generalizing tr with
  | done b => exact .inl h
  | raise e => exact .inr ⟨e, [], tr, rfl, ⟨rfl, rfl⟩, h⟩
  | act p k ih =>
      obtain ⟨r, tr', rfl, hk⟩ := h
      rcases ih r hk with hok | ⟨e, tr₁, tr₂, rfl, h₁, h₂⟩
      · exact .inl ⟨r, tr', rfl, hok⟩
      · exact .inr ⟨e, ⟨p, r⟩ :: tr₁, tr₂, rfl, ⟨r, tr₁, rfl, h₁⟩, h₂⟩

/-- An exception that leaves a rescued program was raised by the handler. -/
theorem Behaves.rescue_error {p : Program S A} {f : S.Err → Program S A} {tr : List (Event S)}
    {e : S.Err} (h : Behaves (p.rescue f) tr (.error e)) :
    ∃ e' tr₁ tr₂, tr = tr₁ ++ tr₂ ∧ Behaves p tr₁ (.error e') ∧ Behaves (f e') tr₂ (.error e) := by
  induction p generalizing tr with
  | done b => cases h.2
  | raise e' => exact ⟨e', [], tr, rfl, ⟨rfl, rfl⟩, h⟩
  | act p k ih =>
      obtain ⟨r, tr', rfl, hk⟩ := h
      obtain ⟨e', tr₁, tr₂, rfl, h₁, h₂⟩ := ih r hk
      exact ⟨e', ⟨p, r⟩ :: tr₁, tr₂, rfl, ⟨r, tr₁, rfl, h₁⟩, h₂⟩

/-- As long as its answers are sound, the program raises no other exceptions than
these. -/
def RaisesOnly (sound : Event S → Prop) (good : S.Err → Prop) (p : Program S A) : Prop :=
  ∀ tr e, (∀ ev ∈ tr, sound ev) → Behaves p tr (.error e) → good e

theorem RaisesOnly.bind {sound : Event S → Prop} {good : S.Err → Prop} {p : Program S A}
    {f : A → Program S B} (hp : RaisesOnly sound good p) (hf : ∀ a, RaisesOnly sound good (f a)) :
    RaisesOnly sound good (p >>= f) := by
  intro tr e hsound h
  rcases h.bind_error with herr | ⟨a, tr₁, tr₂, rfl, -, herr⟩
  · exact hp tr e hsound herr
  · exact hf a tr₂ e (fun ev hev => hsound ev (List.mem_append_right _ hev)) herr

theorem Residual.behaves {p : Program S A} {tr : List (Event S)} {q : Program S A}
    (h : Residual p tr q) {a : A} (hq : q = .done a) : Behaves p tr (.ok a) := by
  induction h with
  | nil p =>
      subst hq
      exact ⟨rfl, rfl⟩
  | cons _ ih => exact ⟨_, _, rfl, ih hq⟩

end EvoGw.ThreadPrograms
