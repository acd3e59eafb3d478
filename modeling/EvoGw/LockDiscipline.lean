import EvoGw.LockedHandoff

/-!
# Threads that hold one mutex at a time

A balanced program takes a mutex only while it holds none, gives back what it
has taken before it ends or raises, and never waits on a list inside a section.
`guard` names the mutex under which a primitive has to be performed; a balanced
program performs it nowhere else. In a pool every kind of thread has its own guard.

In a pool of such threads the table of locks says exactly which thread is inside
which section. A thread that cannot move waits for a mutex, and the owner of that
mutex can move: whoever is inside a section waits for nothing. So no set of
threads can block each other for ever.
-/
namespace EvoGw.LockDiscipline
open ThreadPrograms ThreadPools PoolTraces LockedHandoff

variable {S : Signature} {M : Semantics S} {A B : Type}

section Programs
variable {guard : Prim S → Option S.Mutex} {held rest : Option S.Mutex}

/-- What a program may do next while it holds this mutex, or none. -/
def Admitted (guard : Prim S → Option S.Mutex) (held : Option S.Mutex) : Prim S → Prop
  | .acquire _ => held = none
  | .release m => held = some m
  | .await _ => held = none
  | p => ∀ m, guard p = some m → held = some m

/-- The primitives of which a `guard` can speak. -/
def Access : Prim S → Prop
  | .call _ => True
  | .push _ _ => True
  | .clear _ => True
  | _ => False

/-- The mutex that is held after a primitive. -/
def holding (held : Option S.Mutex) : Prim S → Option S.Mutex
  | .acquire m => some m
  | .release _ => none
  | _ => held

/-- The program begins with `held`, and ends or raises with `rest`. -/
def Balanced (guard : Prim S → Option S.Mutex) (rest : Option S.Mutex) :
    Option S.Mutex → Program S A → Prop
  | held, .done _ => held = rest
  | held, .raise _ => held = rest
  | held, .act p k => Admitted guard held p ∧ ∀ r, Balanced guard rest (holding held p) (k r)

theorem Balanced.bind {p : Program S A} {f : A → Program S B} (hp : Balanced guard rest held p)
    (hf : ∀ a, Balanced guard rest rest (f a)) : Balanced guard rest held (p >>= f) := by
  induction p generalizing held with
  | done a =>
      obtain rfl : held = rest := hp
      exact hf a
  | raise e => exact hp
  | act p k ih => exact ⟨hp.1, fun r => ih r (hp.2 r)⟩

theorem Balanced.rescue {p : Program S A} {f : S.Err → Program S A}
    (hp : Balanced guard rest held p) (hf : ∀ e, Balanced guard rest rest (f e)) :
    Balanced guard rest held (p.rescue f) := by
  induction p generalizing held with
  | done a => exact hp
  | raise e =>
      obtain rfl : held = rest := hp
      exact hf e
  | act p k ih => exact ⟨hp.1, fun r => ih r (hp.2 r)⟩

/-- The clause that runs at the end may leave another mutex held. -/
theorem Balanced.ensure {p : Program S A} {q : Program S Unit} {last : Option S.Mutex}
    (hp : Balanced guard rest held p) (hq : Balanced guard last rest q) :
    Balanced guard last held (p.ensure q) := by
  have ends : ∀ u : Program S A, Balanced guard last last u →
      Balanced guard last rest (q >>= fun _ => u) := fun u hu => hq.bind (fun _ => hu)
  induction p generalizing held with
  | done a =>
      obtain rfl : held = rest := hp
      exact ends (.done a) rfl
  | raise e =>
      obtain rfl : held = rest := hp
      exact ends (.raise e) rfl
  | act p k ih => exact ⟨hp.1, fun r => ih r (hp.2 r)⟩

theorem Balanced.synchronize {m : S.Mutex} {p : Program S A}
    (hp : Balanced guard (some m) (some m) p) : Balanced guard none none (p.synchronize m) :=
  ⟨rfl, fun _ => hp.ensure ⟨rfl, fun _ => rfl⟩⟩

/-- Primitives that leave the mutexes alone. -/
def KeepsHeld (guard : Prim S → Option S.Mutex) (held : Option S.Mutex) (p : Prim S) : Prop :=
  Admitted guard held p ∧ holding held p = held

theorem Balanced.of_uses {p : Program S A} (hp : Uses (KeepsHeld guard held) p) :
    Balanced guard held held p := by
  induction p with
  | done a => rfl
  | raise e => rfl
  | act p k ih =>
      obtain ⟨⟨hadmitted, hheld⟩, hk⟩ := hp
      refine ⟨hadmitted, fun r => ?_⟩
      rw [hheld]
      exact ih r (hk r)

end Programs

/-- The program has ended, is about to take a mutex or is about to wait. -/
def Outside : Program S A → Prop
  | .act (.acquire _) _ => True
  | .act (.await _) _ => True
  | .act _ _ => False
  | _ => True

/-- The step is one of this thread. -/
def Label.thread? : Label M → Option Tid
  | .enter _ => none
  | .run t _ => some t
  | .expire t => some t

def CanMove (s : State M) (t : Tid) : Prop :=
  ∃ l s', Label.thread? l = some t ∧ step s l = some s'

/-- Only a thread that has not ended can move. -/
theorem CanMove.running {s : State M} {t : Tid} (h : CanMove s t) :
    ∃ th ∈ s.threads, ¬ th.prog.Finished := by
  obtain ⟨l, s', ht, hstep⟩ := h
  cases l with
  | enter kind => cases ht
  | run u choice =>
      simp only [step] at hstep
      split at hstep
      · rename_i hu
        exact ⟨_, List.mem_of_getElem? hu, id⟩
      · cases hstep
  | expire u =>
      simp only [step] at hstep
      split at hstep
      · rename_i hu
        exact ⟨_, List.mem_of_getElem? hu, id⟩
      · cases hstep

/-- What a step does to the locks. -/
theorem step_locks {s s' : State M} {l : Label M} {o : Obs M} (h : Step s l o s') :
    (∃ t m, o = .acquired t m ∧ s.locks m = none ∧ s'.locks = Function.update s.locks m (some t)) ∨
    (∃ t m, o = .released t m ∧ s.locks m = some t ∧ s'.locks = Function.update s.locks m none) ∨
    (s'.locks = s.locks ∧ ∀ t m, o ≠ .acquired t m ∧ o ≠ .released t m) := by
  cases h with
  | acquire _ hfree => exact .inl ⟨_, _, rfl, hfree, rfl⟩
  | release _ hown => exact .inr (.inl ⟨_, _, rfl, hown, rfl⟩)
  | _ => exact .inr (.inr ⟨rfl, fun _ _ => ⟨nofun, nofun⟩⟩)

/-- The locks say which thread is inside which section. -/
structure Disciplined (guard : M.Kind → Prim S → Option S.Mutex) (s : State M) : Prop where
  wf : Wf s
  owners : ∀ m t, s.locks m = some t → t < s.threads.length
  progs : ∀ t th, s.threads[t]? = some th → ∃ held, Balanced (guard th.kind) none held th.prog ∧
    ∀ m, s.locks m = some t ↔ held = some m

section Pools
variable {guard : M.Kind → Prim S → Option S.Mutex} {s s' : State M} {l : Label M} {o : Obs M}

theorem disciplined_initial (w : M.World) : Disciplined guard (initial w : State M) where
  wf := wf_initial w
  owners := by simp [initial]
  progs := by simp [initial]

/-- A thread that is not answered keeps its mutexes. -/
theorem locks_of_silent (h : Step s l o s') {u : Tid} (he : events u o = []) (m : S.Mutex) :
    s'.locks m = some u ↔ s.locks m = some u := by
  have other : ∀ {t : Tid} {e : Event S}, (if t = u then [e] else []) = [] → t ≠ u := by
    intro t e hnil htu
    rw [if_pos htu] at hnil
    cases hnil
  rcases step_locks h with ⟨t, m', rfl, hfree, hlocks⟩ | ⟨t, m', rfl, hown, hlocks⟩ | ⟨hlocks, -⟩
  · by_cases hm : m = m'
    · subst hm
      simp [hlocks, hfree, other he]
    · rw [hlocks, Function.update_of_ne hm]
  · by_cases hm : m = m'
    · subst hm
      simp [hlocks, hown, other he]
    · rw [hlocks, Function.update_of_ne hm]
  · rw [hlocks]

theorem locks_of_answered (h : Step s l o s') {u : Tid} {p : Prim S} {r : p.Resp}
    (he : events u o = [⟨p, r⟩]) {kind : M.Kind} {held : Option S.Mutex}
    (hp : Admitted (guard kind) held p)
    (hlocks : ∀ m, s.locks m = some u ↔ held = some m) (m : S.Mutex) :
    s'.locks m = some u ↔ holding held p = some m := by
  cases p with
  | acquire m' =>
      obtain rfl : held = none := hp
      cases acquired_of_events he
      rcases step_locks h with ⟨t, m'', ho, -, hnew⟩ | ⟨t, m'', ho, -, -⟩ | ⟨-, hno⟩
      · cases ho
        rw [hnew]
        by_cases hm : m = m'
        · simp [hm, holding]
        · rw [Function.update_of_ne hm, hlocks m]
          simp [holding, Ne.symm hm]
      · cases ho
      · exact absurd rfl (hno _ _).1
  | release m' =>
      obtain rfl : held = some m' := hp
      cases released_of_events he
      rcases step_locks h with ⟨t, m'', ho, -, -⟩ | ⟨t, m'', ho, -, hnew⟩ | ⟨-, hno⟩
      · cases ho
      · cases ho
        rw [hnew]
        by_cases hm : m = m'
        · simp [hm, holding]
        · rw [Function.update_of_ne hm, hlocks m]
          simp [holding, Ne.symm hm]
      · exact absurd rfl (hno _ _).2
  | _ =>
      rcases step_locks h with ⟨t, m', rfl, -, -⟩ | ⟨t, m', rfl, -, -⟩ | ⟨hsame, -⟩
      · simp only [events] at he
        split_ifs at he
        simp at he
      · simp only [events] at he
        split_ifs at he
        simp at he
      · rw [hsame, hlocks m]
        rfl

theorem step_disciplined
    (henter : ∀ w u kind w' p, M.enter w u kind = some (w', p) → Balanced (guard kind) none none p)
    (d : Disciplined guard s) (h : Step s l o s') : Disciplined guard s' where
  wf := step_wf d.wf h
  owners := by
    intro m t ht
    refine Nat.lt_of_lt_of_le ?_ (step_length h)
    rcases step_locks h with ⟨t', m', rfl, -, hlocks⟩ | ⟨t', m', rfl, -, hlocks⟩ | ⟨hlocks, -⟩
    · rw [hlocks] at ht
      by_cases hm : m = m'
      · subst hm
        rw [Function.update_self, Option.some.injEq] at ht
        subst ht
        cases h with
        | acquire hrun _ => exact (List.getElem?_eq_some_iff.mp hrun).choose
      · rw [Function.update_of_ne hm] at ht
        exact d.owners m t ht
    · rw [hlocks] at ht
      by_cases hm : m = m'
      · subst hm
        simp at ht
      · rw [Function.update_of_ne hm] at ht
        exact d.owners m t ht
    · rw [hlocks] at ht
      exact d.owners m t ht
  progs := by
    intro u th hu
    cases step_moves d.wf h hu with
    | entered w hn ho he =>
        have hsilent : events u o = [] := by rw [ho]; rfl
        refine ⟨none, henter _ _ _ _ _ he, fun m => ?_⟩
        rw [locks_of_silent h hsilent]
        refine iff_of_false (fun hown => ?_) (by simp)
        have hlt := d.owners m u hown
        rw [hn] at hlt
        exact Nat.lt_irrefl _ hlt
    | stays hold he =>
        obtain ⟨held, hbalanced, hlocks⟩ := d.progs u th hold
        exact ⟨held, hbalanced, fun m => (locks_of_silent h he m).trans (hlocks m)⟩
    | answered p k r hold hprog he =>
        obtain ⟨held, hbalanced, hlocks⟩ := d.progs u _ hold
        refine ⟨holding held p, ?_, locks_of_answered h he hbalanced.1 hlocks⟩
        rw [hprog]
        exact hbalanced.2 r

theorem exec_disciplined
    (henter : ∀ w u kind w' p, M.enter w u kind = some (w', p) → Balanced (guard kind) none none p)
    {w : M.World} {ls : List (Label M)} (h : exec (initial w) ls = some s) : Disciplined guard s :=
  exec_induction (P := fun _ s => Disciplined guard s) (disciplined_initial w)
    (fun _ _ _ _ _ _ ih hstep => step_disciplined henter ih hstep) h

/-- A thread that is about to perform a guarded primitive holds its mutex. -/
theorem Disciplined.guarded (d : Disciplined guard s) {t : Tid} {kind : M.Kind} {p : Prim S}
    {k : p.Resp → Program S M.Out} (ht : s.threads[t]? = some ⟨kind, .act p k⟩) (hp : Access p)
    {m : S.Mutex} (hm : guard kind p = some m) : s.locks m = some t := by
  obtain ⟨held, hbalanced, hlocks⟩ := d.progs t _ ht
  have hadmitted := hbalanced.1
  refine (hlocks m).mpr ?_
  cases p with
  | call c => exact hadmitted m hm
  | push key d => exact hadmitted m hm
  | clear key => exact hadmitted m hm
  | _ => exact hp.elim

/-- A thread that has ended, is about to take a mutex or is about to wait holds
no mutex. -/
theorem Disciplined.outside (d : Disciplined guard s) {t : Tid} {th : Thread M}
    (ht : s.threads[t]? = some th) (hout : Outside th.prog) (m : S.Mutex) :
    s.locks m ≠ some t := by
  obtain ⟨held, hbalanced, hlocks⟩ := d.progs t th ht
  obtain ⟨kind, prog⟩ := th
  have hnone : held = none := by
    cases prog with
    | done a => exact hbalanced
    | raise e => exact hbalanced
    | act p k =>
        cases p with
        | acquire m => exact hbalanced.1
        | await key => exact hbalanced.1
        | _ => exact hout.elim
  rw [Ne, hlocks m, hnone]
  simp

theorem canMove_run {t : Tid} {kind : M.Kind} {p : Prim S} {k : p.Resp → Program S M.Out}
    (ht : s.threads[t]? = some ⟨kind, .act p k⟩) (choice : M.Choice)
    (h : ∃ s', runPrim s t choice p k = some s') : CanMove s t := by
  obtain ⟨s', hs'⟩ := h
  refine ⟨.run t choice, s', rfl, ?_⟩
  simp only [step, ht]
  exact hs'

/-- Calls, pushes and deletions are enabled whatever the others do. -/
theorem canMove_access {t : Tid} {kind : M.Kind} {p : Prim S} {k : p.Resp → Program S M.Out}
    (ht : s.threads[t]? = some ⟨kind, .act p k⟩) (hp : Access p) (choice : M.Choice) :
    CanMove s t := by
  refine canMove_run ht choice ?_
  unfold runPrim
  cases p with
  | call c => exact ⟨_, rfl⟩
  | push key d =>
      simp only [answer]
      cases M.fails choice with
      | true => exact ⟨_, rfl⟩
      | false => cases s.queue key with
        | nil => exact ⟨_, rfl⟩
        | cons r q => exact ⟨_, rfl⟩
  | clear key =>
      simp only [answer]
      cases M.fails choice with
      | true => exact ⟨_, rfl⟩
      | false => exact ⟨_, rfl⟩
  | _ => exact hp.elim

/-- A wait can begin, or it can time out. -/
theorem canMove_await {t : Tid} {kind : M.Kind} {key : S.Key}
    {k : Awaited S.Data → Program S M.Out}
    (ht : s.threads[t]? = some ⟨kind, .act (.await key) k⟩) (choice : M.Choice) : CanMove s t := by
  by_cases hb : s.Blocked t
  · have hexpire : step s (.expire t) = some ((s.resume t .timedOut).note (.expired t key)) := by
      simp only [step, ht, if_pos hb]
    exact ⟨.expire t, _, rfl, hexpire⟩
  · refine canMove_run ht choice ?_
    simp only [runPrim, answer, if_neg hb]
    cases M.fails choice with
    | true => exact ⟨_, rfl⟩
    | false => cases s.lists key with
      | nil => exact ⟨_, rfl⟩
      | cons i is => exact ⟨_, rfl⟩

/-- The owner of a mutex can move. -/
theorem Disciplined.owner_moves (d : Disciplined guard s) {m : S.Mutex} {t : Tid}
    (hown : s.locks m = some t) (choice : M.Choice) : CanMove s t := by
  obtain ⟨⟨kind, prog⟩, ht⟩ : ∃ th, s.threads[t]? = some th :=
    ⟨_, List.getElem?_eq_getElem (d.owners m t hown)⟩
  obtain ⟨held, hbalanced, hlocks⟩ := d.progs t _ ht
  obtain rfl : held = some m := (hlocks m).mp hown
  cases prog with
  | done a => cases hbalanced
  | raise e => cases hbalanced
  | act p k =>
      cases p with
      | call c => exact canMove_access ht trivial choice
      | push key d => exact canMove_access ht trivial choice
      | clear key => exact canMove_access ht trivial choice
      | acquire m' => cases hbalanced.1
      | await key => cases hbalanced.1
      | release m' =>
          obtain rfl : m = m' := Option.some.inj hbalanced.1
          refine canMove_run ht choice ?_
          simp only [runPrim, answer, if_pos hown]
          exact ⟨_, rfl⟩

/-- A thread that has not ended can move, or it waits for a mutex whose owner
can move. -/
theorem Disciplined.progress (d : Disciplined guard s) {t : Tid} {kind : M.Kind} {p : Prim S}
    {k : p.Resp → Program S M.Out} (ht : s.threads[t]? = some ⟨kind, .act p k⟩)
    (choice : M.Choice) :
    CanMove s t ∨ ∃ m u, p = .acquire m ∧ s.locks m = some u ∧ u ≠ t ∧ CanMove s u := by
  cases p with
  | call c => exact .inl (canMove_access ht trivial choice)
  | push key d => exact .inl (canMove_access ht trivial choice)
  | clear key => exact .inl (canMove_access ht trivial choice)
  | await key => exact .inl (canMove_await ht choice)
  | release m =>
      obtain ⟨held, hbalanced, hlocks⟩ := d.progs t _ ht
      exact .inl (d.owner_moves ((hlocks m).mpr hbalanced.1) choice)
  | acquire m =>
      cases hown : s.locks m with
      | none =>
          refine .inl (canMove_run ht choice ?_)
          simp only [runPrim, answer, if_pos hown]
          exact ⟨_, rfl⟩
      | some u =>
          refine .inr ⟨m, u, rfl, hown, ?_, d.owner_moves hown choice⟩
          rintro rfl
          exact d.outside ht trivial m hown

/-- If nobody can move, all threads have ended, all mutexes are free and nobody
is blocked. -/
theorem Disciplined.quiescent (d : Disciplined guard s) (choice : M.Choice)
    (hstuck : ∀ t, ¬ CanMove s t) :
    (∀ th ∈ s.threads, th.prog.Finished) ∧ (∀ m, s.locks m = none) ∧ s.waiting = [] := by
  have finished : ∀ (t : Tid) (th : Thread M), s.threads[t]? = some th → th.prog.Finished := by
    rintro t ⟨kind, prog⟩ ht
    cases prog with
    | done a => trivial
    | raise e => trivial
    | act p k =>
        rcases d.progress ht choice with hmove | ⟨m, u, -, -, -, hmove⟩
        · exact hstuck t hmove
        · exact absurd hmove (hstuck u)
  refine ⟨fun th hth => ?_, fun m => ?_, ?_⟩
  · obtain ⟨t, ht⟩ := List.mem_iff_getElem?.mp hth
    exact finished t th ht
  · cases hown : s.locks m with
    | none => rfl
    | some t => exact absurd (d.owner_moves hown choice) (hstuck t)
  · rw [List.eq_nil_iff_forall_not_mem]
    rintro ⟨t, key⟩ hw
    obtain ⟨kind, k, ht⟩ := d.wf.waits t key hw
    exact finished t _ ht

end Pools

end EvoGw.LockDiscipline
