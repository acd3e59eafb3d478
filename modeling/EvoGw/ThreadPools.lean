import EvoGw.ThreadPrograms
import Mathlib.Data.List.Induction

/-!
# Pools of threads over mutexes and blocking lists

A pool runs any number of threads over one client world, a set of mutexes and a
store of blocking lists. One label is one atomic step: a thread enters, a thread
performs its next primitive, or the bounded wait of a blocked thread expires.
Every interleaving is a list of labels, and a step that is not enabled has no
successor.

The lists are stacks: `push` prepends and a wait pops the head. A push on a key
with blocked clients keeps nothing; the element goes at once to the client that
has been blocked longest. A thread is blocked exactly while it is recorded in
`waiting`; it keeps its `await` as its next primitive meanwhile.

The log is an observation of the run and never read by a step. Items carry the
thread which pushed them for the same purpose.
-/
namespace EvoGw.ThreadPools
open ThreadPrograms

abbrev Tid := ℕ

/-- The client side of a pool: what a call does to the world and which program
an arriving kind of thread runs. `fails` marks the choices in which the list
store refuses. -/
structure Semantics (S : Signature) where
  World : Type
  Choice : Type
  Kind : Type
  Out : Type
  fails : Choice → Bool
  perform : World → Tid → (c : S.Call) → Choice → World × S.Resp c
  enter : World → Tid → Kind → Option (World × Program S Out)

structure Item (S : Signature) where
  pusher : Tid
  data : S.Data

variable {S : Signature}

structure Thread (M : Semantics S) where
  kind : M.Kind
  prog : Program S M.Out

/-- What one step has done. `queue` lists the clients blocked on the key when it
was pushed, longest first; `got` is the popped item of a wait that did not block. -/
inductive Obs (M : Semantics S) where
  | entered (t : Tid) (kind : M.Kind)
  | called (t : Tid) (c : S.Call) (r : S.Resp c)
  | acquired (t : Tid) (m : S.Mutex)
  | released (t : Tid) (m : S.Mutex)
  | pushed (t : Tid) (key : S.Key) (d : S.Data) (queue : List Tid)
  | pushFailed (t : Tid) (key : S.Key) (d : S.Data)
  | cleared (t : Tid) (key : S.Key) (dropped : List (Item S))
  | clearFailed (t : Tid) (key : S.Key)
  | awaited (t : Tid) (key : S.Key) (got : Option (Item S))
  | awaitFailed (t : Tid) (key : S.Key)
  | expired (t : Tid) (key : S.Key)

structure State (M : Semantics S) where
  world : M.World
  locks : S.Mutex → Option Tid
  lists : S.Key → List (Item S)
  waiting : List (Tid × S.Key)
  threads : List (Thread M)
  log : List (Obs M)

inductive Label (M : Semantics S) where
  | enter (kind : M.Kind)
  | run (t : Tid) (choice : M.Choice)
  | expire (t : Tid)

variable {M : Semantics S}

/-- A step in which the list store does not refuse. -/
def Label.Calm : Label M → Prop
  | .run _ choice => M.fails choice = false
  | _ => True

instance (l : Label M) : Decidable l.Calm :=
  match l with
  | .enter _ => .isTrue trivial
  | .run _ choice => inferInstanceAs (Decidable (M.fails choice = false))
  | .expire _ => .isTrue trivial

def initial (w : M.World) : State M :=
  ⟨w, fun _ => none, fun _ => [], [], [], []⟩

namespace State

def Blocked (s : State M) (t : Tid) : Prop := t ∈ s.waiting.map Prod.fst

instance (s : State M) (t : Tid) : Decidable (s.Blocked t) :=
  inferInstanceAs (Decidable (t ∈ s.waiting.map Prod.fst))

/-- The clients blocked on a key, longest first. -/
def queue (s : State M) (key : S.Key) : List Tid :=
  (s.waiting.filter (fun e => e.2 = key)).map Prod.fst

def note (s : State M) (o : Obs M) : State M := {s with log := s.log ++ [o]}

def setProg (s : State M) (t : Tid) (p : Program S M.Out) : State M :=
  {s with threads := s.threads.modify t (fun th => {th with prog := p})}

def setList (s : State M) (key : S.Key) (items : List (Item S)) : State M :=
  {s with lists := Function.update s.lists key items}

def setLock (s : State M) (m : S.Mutex) (owner : Option Tid) : State M :=
  {s with locks := Function.update s.locks m owner}

@[simp] theorem note_world (s : State M) (o : Obs M) : (s.note o).world = s.world := rfl
@[simp] theorem note_locks (s : State M) (o : Obs M) : (s.note o).locks = s.locks := rfl
@[simp] theorem note_lists (s : State M) (o : Obs M) : (s.note o).lists = s.lists := rfl
@[simp] theorem note_waiting (s : State M) (o : Obs M) : (s.note o).waiting = s.waiting := rfl
@[simp] theorem note_threads (s : State M) (o : Obs M) : (s.note o).threads = s.threads := rfl
@[simp] theorem note_log (s : State M) (o : Obs M) : (s.note o).log = s.log ++ [o] := rfl

@[simp] theorem setProg_world (s : State M) (t : Tid) (p : Program S M.Out) :
    (s.setProg t p).world = s.world := rfl
@[simp] theorem setProg_locks (s : State M) (t : Tid) (p : Program S M.Out) :
    (s.setProg t p).locks = s.locks := rfl
@[simp] theorem setProg_lists (s : State M) (t : Tid) (p : Program S M.Out) :
    (s.setProg t p).lists = s.lists := rfl
@[simp] theorem setProg_waiting (s : State M) (t : Tid) (p : Program S M.Out) :
    (s.setProg t p).waiting = s.waiting := rfl
@[simp] theorem setProg_log (s : State M) (t : Tid) (p : Program S M.Out) :
    (s.setProg t p).log = s.log := rfl

@[simp] theorem setList_world (s : State M) (key : S.Key) (is : List (Item S)) :
    (s.setList key is).world = s.world := rfl
@[simp] theorem setList_locks (s : State M) (key : S.Key) (is : List (Item S)) :
    (s.setList key is).locks = s.locks := rfl
@[simp] theorem setList_lists (s : State M) (key : S.Key) (is : List (Item S)) :
    (s.setList key is).lists = Function.update s.lists key is := rfl
@[simp] theorem setList_waiting (s : State M) (key : S.Key) (is : List (Item S)) :
    (s.setList key is).waiting = s.waiting := rfl
@[simp] theorem setList_threads (s : State M) (key : S.Key) (is : List (Item S)) :
    (s.setList key is).threads = s.threads := rfl
@[simp] theorem setList_log (s : State M) (key : S.Key) (is : List (Item S)) :
    (s.setList key is).log = s.log := rfl

/-- An element of a list is one of those just stored, or the list is another one. -/
theorem mem_setList {s : State M} {key key' : S.Key} {is : List (Item S)} {i : Item S}
    (hi : i ∈ (s.setList key is).lists key') :
    key' = key ∧ i ∈ is ∨ key' ≠ key ∧ i ∈ s.lists key' := by
  by_cases hk : key' = key
  · subst hk
    rw [setList_lists, Function.update_self] at hi
    exact .inl ⟨rfl, hi⟩
  · rw [setList_lists, Function.update_of_ne hk] at hi
    exact .inr ⟨hk, hi⟩

@[simp] theorem setLock_world (s : State M) (m : S.Mutex) (o : Option Tid) :
    (s.setLock m o).world = s.world := rfl
@[simp] theorem setLock_locks (s : State M) (m : S.Mutex) (o : Option Tid) :
    (s.setLock m o).locks = Function.update s.locks m o := rfl
@[simp] theorem setLock_lists (s : State M) (m : S.Mutex) (o : Option Tid) :
    (s.setLock m o).lists = s.lists := rfl
@[simp] theorem setLock_waiting (s : State M) (m : S.Mutex) (o : Option Tid) :
    (s.setLock m o).waiting = s.waiting := rfl
@[simp] theorem setLock_threads (s : State M) (m : S.Mutex) (o : Option Tid) :
    (s.setLock m o).threads = s.threads := rfl
@[simp] theorem setLock_log (s : State M) (m : S.Mutex) (o : Option Tid) :
    (s.setLock m o).log = s.log := rfl

@[simp] theorem setProg_length (s : State M) (t : Tid) (p : Program S M.Out) :
    (s.setProg t p).threads.length = s.threads.length := by simp [setProg]

theorem setProg_self {s : State M} {t : Tid} {kind : M.Kind} {p : Program S M.Out}
    (h : s.threads[t]? = some ⟨kind, p⟩) (q : Program S M.Out) :
    (s.setProg t q).threads[t]? = some ⟨kind, q⟩ := by
  simp [setProg, h]

theorem setProg_ne (s : State M) {t u : Tid} (h : u ≠ t) (q : Program S M.Out) :
    (s.setProg t q).threads[u]? = s.threads[u]? := by
  simp [setProg, h.symm]

end State

/-- The program of a blocked thread once its wait has ended. -/
def wake (a : Awaited S.Data) : Program S M.Out → Program S M.Out
  | .act (.await _) k => k a
  | p => p

/-- The store answers the client `t`, which stops being blocked. -/
def State.resume (s : State M) (t : Tid) (a : Awaited S.Data) : State M :=
  {s with
    waiting := s.waiting.filter (fun e => e.1 ≠ t)
    threads := s.threads.modify t (fun th => {th with prog := wake a th.prog})}

namespace State

@[simp] theorem resume_world (s : State M) (t : Tid) (a : Awaited S.Data) :
    (s.resume t a).world = s.world := rfl
@[simp] theorem resume_locks (s : State M) (t : Tid) (a : Awaited S.Data) :
    (s.resume t a).locks = s.locks := rfl
@[simp] theorem resume_lists (s : State M) (t : Tid) (a : Awaited S.Data) :
    (s.resume t a).lists = s.lists := rfl
@[simp] theorem resume_waiting (s : State M) (t : Tid) (a : Awaited S.Data) :
    (s.resume t a).waiting = s.waiting.filter (fun e => e.1 ≠ t) := rfl
@[simp] theorem resume_log (s : State M) (t : Tid) (a : Awaited S.Data) :
    (s.resume t a).log = s.log := rfl
@[simp] theorem resume_length (s : State M) (t : Tid) (a : Awaited S.Data) :
    (s.resume t a).threads.length = s.threads.length := by simp [resume]

theorem resume_self {s : State M} {t : Tid} {kind : M.Kind} {key : S.Key}
    {k : Awaited S.Data → Program S M.Out}
    (h : s.threads[t]? = some ⟨kind, .act (.await key) k⟩) (a : Awaited S.Data) :
    (s.resume t a).threads[t]? = some ⟨kind, k a⟩ := by
  simp [resume, h, wake]

theorem resume_ne (s : State M) {t u : Tid} (h : u ≠ t) (a : Awaited S.Data) :
    (s.resume t a).threads[u]? = s.threads[u]? := by
  simp [resume, h.symm]

end State

/-- What one primitive of `t` does. There is no answer when `t` blocks, and no
successor when the primitive is not enabled. -/
def answer (s : State M) (t : Tid) (choice : M.Choice) :
    (p : Prim S) → Option (State M × Option p.Resp)
  | .call c =>
      let r := M.perform s.world t c choice
      some (State.note {s with world := r.1} (.called t c r.2), some r.2)
  | .acquire m =>
      if s.locks m = none then
        some ((s.setLock m (some t)).note (.acquired t m), some ())
      else none
  | .release m =>
      if s.locks m = some t then
        some ((s.setLock m none).note (.released t m), some ())
      else none
  | .push key d =>
      if M.fails choice then some (s.note (.pushFailed t key d), some false) else
        match s.queue key with
        | [] => some ((s.setList key (⟨t, d⟩ :: s.lists key)).note (.pushed t key d []), some true)
        | r :: q => some ((s.resume r (.got d)).note (.pushed t key d (r :: q)), some true)
  | .clear key =>
      if M.fails choice then some (s.note (.clearFailed t key), some false) else
        some ((s.setList key []).note (.cleared t key (s.lists key)), some true)
  | .await key =>
      if s.Blocked t then none else
        if M.fails choice then some (s.note (.awaitFailed t key), some .failed) else
          match s.lists key with
          | [] =>
              some (State.note {s with waiting := s.waiting ++ [(t, key)]} (.awaited t key none),
                none)
          | i :: is => some ((s.setList key is).note (.awaited t key (some i)), some (.got i.data))

def runPrim (s : State M) (t : Tid) (choice : M.Choice) (p : Prim S)
    (k : p.Resp → Program S M.Out) : Option (State M) :=
  match answer s t choice p with
  | none => none
  | some (s', none) => some s'
  | some (s', some r) => some (s'.setProg t (k r))

def step (s : State M) : Label M → Option (State M)
  | .enter kind =>
      match M.enter s.world s.threads.length kind with
      | none => none
      | some (w, p) =>
          some (State.note {s with world := w, threads := s.threads ++ [⟨kind, p⟩]}
            (.entered s.threads.length kind))
  | .run t choice =>
      match s.threads[t]? with
      | some ⟨_, .act p k⟩ => runPrim s t choice p k
      | _ => none
  | .expire t =>
      match s.threads[t]? with
      | some ⟨_, .act (.await key) _⟩ =>
          if s.Blocked t then some ((s.resume t .timedOut).note (.expired t key)) else none
      | _ => none

def exec (s : State M) : List (Label M) → Option (State M)
  | [] => some s
  | l :: ls => (step s l).bind (fun s' => exec s' ls)

/-- Everything a step can do, guards included. -/
inductive Step (s : State M) : Label M → Obs M → State M → Prop
  | enter {kind : M.Kind} {w : M.World} {p : Program S M.Out} :
      M.enter s.world s.threads.length kind = some (w, p) →
      Step s (.enter kind) (.entered s.threads.length kind)
        (State.note {s with world := w, threads := s.threads ++ [⟨kind, p⟩]}
          (.entered s.threads.length kind))
  | call {t : Tid} {choice : M.Choice} {kind : M.Kind} {c : S.Call}
      {k : S.Resp c → Program S M.Out} : s.threads[t]? = some ⟨kind, .act (.call c) k⟩ →
      Step s (.run t choice) (.called t c (M.perform s.world t c choice).2)
        ((State.note {s with world := (M.perform s.world t c choice).1}
          (.called t c (M.perform s.world t c choice).2)).setProg t
          (k (M.perform s.world t c choice).2))
  | acquire {t : Tid} {choice : M.Choice} {kind : M.Kind} {m : S.Mutex}
      {k : Unit → Program S M.Out} : s.threads[t]? = some ⟨kind, .act (.acquire m) k⟩ →
      s.locks m = none → Step s (.run t choice) (.acquired t m)
        (((s.setLock m (some t)).note (.acquired t m)).setProg t (k ()))
  | release {t : Tid} {choice : M.Choice} {kind : M.Kind} {m : S.Mutex}
      {k : Unit → Program S M.Out} : s.threads[t]? = some ⟨kind, .act (.release m) k⟩ →
      s.locks m = some t → Step s (.run t choice) (.released t m)
        (((s.setLock m none).note (.released t m)).setProg t (k ()))
  | pushFail {t : Tid} {choice : M.Choice} {kind : M.Kind} {key : S.Key} {d : S.Data}
      {k : Bool → Program S M.Out} : s.threads[t]? = some ⟨kind, .act (.push key d) k⟩ →
      M.fails choice = true → Step s (.run t choice) (.pushFailed t key d)
        ((s.note (.pushFailed t key d)).setProg t (k false))
  | pushKeep {t : Tid} {choice : M.Choice} {kind : M.Kind} {key : S.Key} {d : S.Data}
      {k : Bool → Program S M.Out} : s.threads[t]? = some ⟨kind, .act (.push key d) k⟩ →
      M.fails choice = false → s.queue key = [] → Step s (.run t choice) (.pushed t key d [])
        (((s.setList key (⟨t, d⟩ :: s.lists key)).note (.pushed t key d [])).setProg t (k true))
  | pushHand {t r : Tid} {q : List Tid} {choice : M.Choice} {kind : M.Kind} {key : S.Key}
      {d : S.Data} {k : Bool → Program S M.Out} :
      s.threads[t]? = some ⟨kind, .act (.push key d) k⟩ → M.fails choice = false →
      s.queue key = r :: q → Step s (.run t choice) (.pushed t key d (r :: q))
        (((s.resume r (.got d)).note (.pushed t key d (r :: q))).setProg t (k true))
  | clearFail {t : Tid} {choice : M.Choice} {kind : M.Kind} {key : S.Key}
      {k : Bool → Program S M.Out} : s.threads[t]? = some ⟨kind, .act (.clear key) k⟩ →
      M.fails choice = true → Step s (.run t choice) (.clearFailed t key)
        ((s.note (.clearFailed t key)).setProg t (k false))
  | clear {t : Tid} {choice : M.Choice} {kind : M.Kind} {key : S.Key}
      {k : Bool → Program S M.Out} : s.threads[t]? = some ⟨kind, .act (.clear key) k⟩ →
      M.fails choice = false → Step s (.run t choice) (.cleared t key (s.lists key))
        (((s.setList key []).note (.cleared t key (s.lists key))).setProg t (k true))
  | awaitFail {t : Tid} {choice : M.Choice} {kind : M.Kind} {key : S.Key}
      {k : Awaited S.Data → Program S M.Out} :
      s.threads[t]? = some ⟨kind, .act (.await key) k⟩ → ¬ s.Blocked t →
      M.fails choice = true → Step s (.run t choice) (.awaitFailed t key)
        ((s.note (.awaitFailed t key)).setProg t (k .failed))
  | awaitBlock {t : Tid} {choice : M.Choice} {kind : M.Kind} {key : S.Key}
      {k : Awaited S.Data → Program S M.Out} :
      s.threads[t]? = some ⟨kind, .act (.await key) k⟩ → ¬ s.Blocked t →
      M.fails choice = false → s.lists key = [] → Step s (.run t choice) (.awaited t key none)
        (State.note {s with waiting := s.waiting ++ [(t, key)]} (.awaited t key none))
  | awaitTake {t : Tid} {choice : M.Choice} {kind : M.Kind} {key : S.Key} {i : Item S}
      {is : List (Item S)} {k : Awaited S.Data → Program S M.Out} :
      s.threads[t]? = some ⟨kind, .act (.await key) k⟩ → ¬ s.Blocked t →
      M.fails choice = false → s.lists key = i :: is →
      Step s (.run t choice) (.awaited t key (some i))
        (((s.setList key is).note (.awaited t key (some i))).setProg t (k (.got i.data)))
  | expire {t : Tid} {kind : M.Kind} {key : S.Key} {k : Awaited S.Data → Program S M.Out} :
      s.threads[t]? = some ⟨kind, .act (.await key) k⟩ → s.Blocked t →
      Step s (.expire t) (.expired t key) ((s.resume t .timedOut).note (.expired t key))

theorem runPrim_sound {s s' : State M} {t : Tid} {choice : M.Choice} {kind : M.Kind} {p : Prim S}
    {k : p.Resp → Program S M.Out} (ht : s.threads[t]? = some ⟨kind, .act p k⟩)
    (h : runPrim s t choice p k = some s') : ∃ o, Step s (.run t choice) o s' := by
  cases p with
  | call c =>
      simp only [runPrim, answer, Option.some.injEq] at h
      subst h
      exact ⟨_, .call ht⟩
  | acquire m =>
      simp only [runPrim, answer] at h
      by_cases hl : s.locks m = none
      · simp only [hl, if_true, Option.some.injEq] at h
        subst h
        exact ⟨_, .acquire ht hl⟩
      · simp [hl] at h
  | release m =>
      simp only [runPrim, answer] at h
      by_cases hl : s.locks m = some t
      · simp only [hl, if_true, Option.some.injEq] at h
        subst h
        exact ⟨_, .release ht hl⟩
      · simp [hl] at h
  | push key d =>
      simp only [runPrim, answer] at h
      cases hf : M.fails choice with
      | true =>
          simp only [hf, if_true, Option.some.injEq] at h
          subst h
          exact ⟨_, .pushFail ht hf⟩
      | false =>
          cases hq : s.queue key with
          | nil =>
              simp only [hf, hq, Bool.false_eq_true, if_false, Option.some.injEq] at h
              subst h
              exact ⟨_, .pushKeep ht hf hq⟩
          | cons r q =>
              simp only [hf, hq, Bool.false_eq_true, if_false, Option.some.injEq] at h
              subst h
              exact ⟨_, .pushHand ht hf hq⟩
  | clear key =>
      simp only [runPrim, answer] at h
      cases hf : M.fails choice with
      | true =>
          simp only [hf, if_true, Option.some.injEq] at h
          subst h
          exact ⟨_, .clearFail ht hf⟩
      | false =>
          simp only [hf, Bool.false_eq_true, if_false, Option.some.injEq] at h
          subst h
          exact ⟨_, .clear ht hf⟩
  | await key =>
      simp only [runPrim, answer] at h
      by_cases hb : s.Blocked t
      · simp [hb] at h
      cases hf : M.fails choice with
      | true =>
          simp only [hb, hf, if_true, if_false, Option.some.injEq] at h
          subst h
          exact ⟨_, .awaitFail ht hb hf⟩
      | false =>
          cases hl : s.lists key with
          | nil =>
              simp only [hb, hf, hl, Bool.false_eq_true, if_false, Option.some.injEq] at h
              subst h
              exact ⟨_, .awaitBlock ht hb hf hl⟩
          | cons i is =>
              simp only [hb, hf, hl, Bool.false_eq_true, if_false, Option.some.injEq] at h
              subst h
              exact ⟨_, .awaitTake ht hb hf hl⟩

theorem step_sound {s s' : State M} {l : Label M} (h : step s l = some s') :
    ∃ o, Step s l o s' := by
  cases l with
  | enter kind =>
      simp only [step] at h
      cases he : M.enter s.world s.threads.length kind with
      | none => simp [he] at h
      | some r =>
          simp only [he, Option.some.injEq] at h
          subst h
          exact ⟨_, .enter he⟩
  | run t choice =>
      simp only [step] at h
      split at h
      · exact runPrim_sound ‹_› h
      · cases h
  | expire t =>
      simp only [step] at h
      split at h
      · split_ifs at h with hb
        cases h
        exact ⟨_, .expire ‹_› hb⟩
      · cases h

theorem step_complete {s s' : State M} {l : Label M} {o : Obs M} (h : Step s l o s') :
    step s l = some s' := by
  cases h with
  | enter he => simp only [step, he]
  | call ht => simp only [step, ht, runPrim, answer]
  | acquire ht hfree => simp only [step, ht, runPrim, answer, if_pos hfree]
  | release ht hown => simp only [step, ht, runPrim, answer, if_pos hown]
  | pushFail ht hf => simp only [step, ht, runPrim, answer, if_pos hf]
  | pushKeep ht hf hq => simp only [step, ht, runPrim, answer, hf, hq, Bool.false_eq_true, if_false]
  | pushHand ht hf hq => simp only [step, ht, runPrim, answer, hf, hq, Bool.false_eq_true, if_false]
  | clearFail ht hf => simp only [step, ht, runPrim, answer, if_pos hf]
  | clear ht hf => simp only [step, ht, runPrim, answer, hf, Bool.false_eq_true, if_false]
  | awaitFail ht hb hf => simp only [step, ht, runPrim, answer, if_neg hb, if_pos hf]
  | awaitBlock ht hb hf hl =>
      simp only [step, ht, runPrim, answer, if_neg hb, hf, hl, Bool.false_eq_true, if_false]
  | awaitTake ht hb hf hl =>
      simp only [step, ht, runPrim, answer, if_neg hb, hf, hl, Bool.false_eq_true, if_false]
  | expire ht hb => simp only [step, ht, if_pos hb]

theorem exec_append (s : State M) (ls₁ ls₂ : List (Label M)) :
    exec s (ls₁ ++ ls₂) = (exec s ls₁).bind (fun s' => exec s' ls₂) := by
  induction ls₁ generalizing s with
  | nil => rfl
  | cons l ls₁ ih =>
      simp only [List.cons_append, exec]
      cases step s l with
      | none => rfl
      | some s' => exact ih s'

theorem exec_trans {s₀ s s' : State M} {ls ls' : List (Label M)} (h : exec s₀ ls = some s)
    (h' : exec s ls' = some s') : exec s₀ (ls ++ ls') = some s' := by
  rw [exec_append, h]
  exact h'

theorem exec_cons {s s₁ s' : State M} {ls : List (Label M)} {l : Label M} {o : Obs M}
    (hstep : Step s l o s₁) (h : exec s₁ ls = some s') : exec s (l :: ls) = some s' := by
  simp only [exec, step_complete hstep, Option.bind_some, h]

theorem exec_snoc {s₀ s s' : State M} {ls : List (Label M)} {l : Label M} {o : Obs M}
    (h : exec s₀ ls = some s) (hstep : Step s l o s') : exec s₀ (ls ++ [l]) = some s' := by
  simp only [exec_append, h, Option.bind_some, exec, step_complete hstep]

/-- Induction over a run from its first state, one step at its end at a time. -/
theorem exec_induction {s₀ : State M} {P : List (Label M) → State M → Prop} (base : P [] s₀)
    (next : ∀ ls s l o s', exec s₀ ls = some s → P ls s → Step s l o s' → P (ls ++ [l]) s')
    {ls : List (Label M)} {s : State M} (h : exec s₀ ls = some s) : P ls s := by
  induction ls using List.reverseRecOn generalizing s with
  | nil =>
      cases h
      exact base
  | append_singleton ls l ih =>
      rw [exec_append] at h
      cases hu : exec s₀ ls with
      | none => simp [hu] at h
      | some u =>
          simp only [hu, Option.bind_some, exec, Option.bind_eq_some_iff, Option.some.injEq,
            exists_eq_right] at h
          obtain ⟨o, ho⟩ := step_sound h
          exact next ls u l o s hu (ih hu) ho

end EvoGw.ThreadPools
