import EvoGw.ThreadPrograms

/-!
# Running one program alone

`drive` runs a program to its end against surroundings that keep a state of
their own and answer every primitive at once. It returns the final state, the
answered primitives and how the program ended. Sequencing and mutex sections
have the expected equations, and every such run is a complete trace of the
program. `Leads` states what holds at the end of a run and has one rule for each
way to build a program.
-/
namespace EvoGw.SoloRuns
open ThreadPrograms

variable {S : Signature} {σ A B : Type}

/-- How a run alone has ended. -/
structure Run (S : Signature) (σ A : Type) where
  state : σ
  events : List (Event S)
  out : Except S.Err A

variable (env : σ → (p : Prim S) → σ × p.Resp)

def drive : σ → Program S A → Run S σ A
  | s, .done a => ⟨s, [], .ok a⟩
  | s, .raise e => ⟨s, [], .error e⟩
  | s, .act p k =>
      let r := drive (env s p).1 (k (env s p).2)
      ⟨r.state, ⟨p, (env s p).2⟩ :: r.events, r.out⟩

@[simp] theorem drive_done (s : σ) (a : A) : drive env s (.done a) = ⟨s, [], .ok a⟩ := rfl
@[simp] theorem drive_raise (s : σ) (e : S.Err) :
    drive (A := A) env s (.raise e) = ⟨s, [], .error e⟩ := rfl

/-- A run continued by `f` if it has ended with a value. -/
def Run.andThen (r : Run S σ A) (f : A → σ → Run S σ B) : Run S σ B :=
  match r.out with
  | .ok a => ⟨(f a r.state).state, r.events ++ (f a r.state).events, (f a r.state).out⟩
  | .error e => ⟨r.state, r.events, .error e⟩

theorem drive_bind (s : σ) (p : Program S A) (f : A → Program S B) :
    drive env s (p >>= f) = (drive env s p).andThen (fun a s' => drive env s' (f a)) := by
  induction p generalizing s with
  | done a => rfl
  | raise e => rfl
  | act p k ih =>
      simp only [Program.act_bind, drive, ih]
      cases h : (drive env (env s p).1 (k (env s p).2)).out with
      | ok a => simp [Run.andThen, h]
      | error e => simp [Run.andThen, h]

def Run.map (f : A → B) (r : Run S σ A) : Run S σ B := ⟨r.state, r.events, r.out.map f⟩

theorem Run.map_map {C : Type} (r : Run S σ A) (f : A → B) (g : B → C) :
    (r.map f).map g = r.map (fun a => g (f a)) := by
  obtain ⟨s, events, out⟩ := r
  cases out <;> rfl

/-- Two continuations of one run of which one reshapes the value of the other. -/
theorem Run.andThen_map {C : Type} (r : Run S σ A) {f : A → σ → Run S σ C} {g : A → σ → Run S σ B}
    {h : B → C} (hfg : ∀ a, r.out = .ok a → f a r.state = (g a r.state).map h) :
    r.andThen f = (r.andThen g).map h := by
  obtain ⟨s, events, out⟩ := r
  cases out with
  | error e => rfl
  | ok a =>
      have ha := hfg a rfl
      simp only [Run.andThen, Run.map] at ha ⊢
      rw [ha]

theorem Run.andThen_done (r : Run S σ A) {f : A → σ → Run S σ B} {h : A → B}
    (hf : ∀ a, r.out = .ok a → f a r.state = ⟨r.state, [], .ok (h a)⟩) :
    r.andThen f = r.map h := by
  obtain ⟨s, events, out⟩ := r
  cases out with
  | error e => rfl
  | ok a =>
      have ha := hf a rfl
      simp only [Run.andThen, Run.map] at ha ⊢
      rw [ha, List.append_nil]
      rfl

theorem Run.map_andThen {C : Type} (r : Run S σ A) (h : A → B) (f : B → σ → Run S σ C) :
    (r.map h).andThen f = r.andThen (fun a => f (h a)) := by
  obtain ⟨s, events, out⟩ := r
  cases out <;> rfl

theorem Run.map_error {r : Run S σ A} {f : A → B} {e : S.Err} :
    (r.map f).out = .error e ↔ r.out = .error e := by
  obtain ⟨s, events, out⟩ := r
  cases out <;> simp [Run.map, Except.map]

/-- A run whose value is only reshaped. -/
theorem drive_bind_pure (s : σ) (p : Program S A) (f : A → B) :
    drive env s (p >>= fun a => .done (f a)) = (drive env s p).map f := by
  rw [drive_bind]
  exact Run.andThen_done _ (fun _ _ => rfl)

/-- The events of a run that goes on with the value of its first part. -/
theorem events_bind (s : σ) {p : Program S A} {a : A} (h : (drive env s p).out = .ok a)
    (f : A → Program S B) : (drive env s (p >>= f)).events =
      (drive env s p).events ++ (drive env (drive env s p).state (f a)).events := by
  rw [drive_bind, Run.andThen, h]

theorem drive_ensure (s : σ) (p : Program S A) (q : Program S Unit) (u : σ → σ)
    (tr : List (Event S)) (hq : ∀ s, drive env s q = ⟨u s, tr, .ok ()⟩) :
    drive env s (p.ensure q) =
      ⟨u (drive env s p).state, (drive env s p).events ++ tr, (drive env s p).out⟩ := by
  induction p generalizing s with
  | done a => simp [drive_bind, hq, Run.andThen]
  | raise e => simp [drive_bind, hq, Run.andThen]
  | act p k ih => simp [drive, ih]

/-- What performs nothing adds nothing to the events of a run. -/
theorem events_bind_finished (s : σ) (p : Program S A) {f : A → Program S B}
    (hf : ∀ a, (f a).Finished) : (drive env s (p >>= f)).events = (drive env s p).events := by
  induction p generalizing s with
  | done a =>
      have ha := hf a
      rw [Program.done_bind]
      cases hfa : f a with
      | done b => rfl
      | raise e => rfl
      | act p k =>
          rw [hfa] at ha
          exact ha.elim
  | raise e => rfl
  | act p k ih => simp only [Program.act_bind, drive, ih]

theorem events_rescue_finished (s : σ) (p : Program S A) {f : S.Err → Program S A}
    (hf : ∀ e, (f e).Finished) : (drive env s (p.rescue f)).events = (drive env s p).events := by
  induction p generalizing s with
  | done a => rfl
  | raise e =>
      have he := hf e
      rw [Program.rescue_raise]
      cases hfe : f e with
      | done b => rfl
      | raise e' => rfl
      | act p k =>
          rw [hfe] at he
          exact he.elim
  | act p k ih => simp only [Program.rescue_act, drive, ih]

/-- A rescue clause that raises again whatever the run ends with. -/
theorem drive_rescue_same (s : σ) (p : Program S A) {f : S.Err → Program S A}
    (hf : ∀ e, (drive env s p).out = .error e → f e = .raise e) :
    drive env s (p.rescue f) = drive env s p := by
  induction p generalizing s with
  | done a => rfl
  | raise e =>
      rw [Program.rescue_raise, hf e rfl]
  | act p k ih => simp only [Program.rescue_act, drive, ih _ _ hf]

/-- Surroundings in which taking and giving back a mutex changes nothing. -/
theorem drive_synchronize (m : S.Mutex) (hacq : ∀ s, (env s (.acquire m)).1 = s)
    (hrel : ∀ s, (env s (.release m)).1 = s) (s : σ) (p : Program S A) :
    drive env s (p.synchronize m) = ⟨(drive env s p).state,
      ⟨.acquire m, ()⟩ :: (drive env s p).events ++ [⟨.release m, ()⟩], (drive env s p).out⟩ := by
  have hq : ∀ s, drive env s (.act (.release m) .done) = ⟨s, [⟨.release m, ()⟩], .ok ()⟩ := by
    intro s
    simp [drive, hrel]
  simp only [Program.synchronize, drive, hacq]
  rw [drive_ensure env s p _ id _ hq]
  rfl

/-- The run from `s` ends with a state and an outcome for which `Q` holds. -/
def Leads (s : σ) (p : Program S A) (Q : σ → Except S.Err A → Prop) : Prop :=
  Q (drive env s p).state (drive env s p).out

section Leads
variable {env} {s : σ} {p : Program S A} {Q Q' : σ → Except S.Err A → Prop}

theorem Leads.mono (h : Leads env s p Q) (hQ : ∀ s out, Q s out → Q' s out) : Leads env s p Q' :=
  hQ _ _ h

theorem Leads.ended (h : Leads env s p Q) {out : Except S.Err A}
    (hout : (drive env s p).out = out) : Q (drive env s p).state out := hout ▸ h

theorem Leads.bind {f : A → Program S B} {R : σ → Except S.Err B → Prop} (hp : Leads env s p Q)
    (hok : ∀ s' a, Q s' (.ok a) → Leads env s' (f a) R)
    (herr : ∀ s' e, Q s' (.error e) → R s' (.error e)) : Leads env s (p >>= f) R := by
  unfold Leads at *
  rw [drive_bind, Run.andThen]
  cases hout : (drive env s p).out with
  | ok a =>
      rw [hout] at hp
      exact hok _ a hp
  | error e =>
      rw [hout] at hp
      exact herr _ e hp

theorem Leads.synchronize {m : S.Mutex} (hacq : ∀ s, (env s (.acquire m)).1 = s)
    (hrel : ∀ s, (env s (.release m)).1 = s) (hp : Leads env s p Q) :
    Leads env s (p.synchronize m) Q := by
  unfold Leads
  rw [drive_synchronize env m hacq hrel]
  exact hp

/-- An invariant of the primitives which a program uses holds at its end. -/
theorem Leads.invariant {ok : Prim S → Prop} {I : σ → Prop} (hp : Uses ok p)
    (hI : ∀ s q, ok q → I s → I (env s q).1) (hs : I s) : Leads env s p (fun s' _ => I s') := by
  unfold Leads
  induction p generalizing s with
  | done a => exact hs
  | raise e => exact hs
  | act q k ih => exact ih _ (hp.2 _) (hI s q hp.1 hs)

end Leads

/-- A run alone is one of the complete traces. -/
theorem behaves_drive (s : σ) (p : Program S A) :
    Behaves p (drive env s p).events (drive env s p).out := by
  induction p generalizing s with
  | done a => exact ⟨rfl, rfl⟩
  | raise e => exact ⟨rfl, rfl⟩
  | act p k ih => exact ⟨_, _, rfl, ih _ _⟩

/-- Every answer in a run was given by the surroundings. -/
theorem events_answered (s : σ) (p : Program S A) :
    ∀ e ∈ (drive env s p).events, ∃ s', e.resp = (env s' e.prim).2 := by
  induction p generalizing s with
  | done a => simp
  | raise e => simp
  | act p k ih =>
      intro e he
      rcases List.mem_cons.mp he with rfl | he
      · exact ⟨s, rfl⟩
      · exact ih _ _ e he

theorem uses_events {ok : Prim S → Prop} {p : Program S A} (hp : Uses ok p) (s : σ) :
    ∀ e ∈ (drive env s p).events, ok e.prim := by
  induction p generalizing s with
  | done a => simp
  | raise e => simp
  | act p k ih =>
      intro e he
      rcases List.mem_cons.mp he with rfl | he
      · exact hp.1
      · exact ih _ (hp.2 _) _ e he

end EvoGw.SoloRuns
