import EvoGw.BatchSequence

/-!
# Requests that are answered

The surroundings of a request are obliging: Redis works, and the device sends
JSON objects or nothing. Even then the route raises on some bodies that are
valid JSON. The number of arguments or the number of the user may not fit the
command, which only `JSON::ParserError` is rescued for; and the status of a
batch is read from its last entry, which an empty batch does not have.
-/
namespace EvoGw.AnsweredRequests
open ThreadPrograms SoloRuns GatewayCalls JsonValues ServerRoute CommandDocuments CommandCourses
open BatchSequence
open BatchStatus (IsHash)

variable {σ : Type}

/-- Redis works, and every reply is a JSON object. -/
structure Obliging (rt : Runtime) (env : σ → (p : Prim sig) → σ × p.Resp) : Prop where
  objects : RepliesObjects rt env
  opened : ∀ s, (env s (.call .redisNew)).2 = true
  popped : ∀ s key, (env s (.await key)).2 ≠ .failed

/-- The request gets an answer from the route, in all obliging surroundings. -/
def AlwaysAnswered (rt : Runtime) (channel command body : String) : Prop :=
  ∀ (σ : Type) (env : σ → (p : Prim sig) → σ × p.Resp) (s : σ), Obliging rt env →
    ∃ answer, (drive env s (post rt channel command body)).out = .ok answer

/-- The command needs no body, or the body fits it; a batch has an item and all
items fit. -/
def Fitting (command : String) (v : Json) : Prop :=
  command ∈ commandsWithoutBody ∨
    match v with
    | .arr items => items ≠ [] ∧ ∀ item ∈ items, Fits command (itemArgs item)
    | v => Fits command (itemArgs v)

section Obliging
variable {env : σ → (p : Prim sig) → σ × p.Resp} {rt : Runtime} {channel command : String}

/-- The run has ended without an exception. -/
def Returned {A : Type} (out : Except RubyError A) : Prop := ∃ a, out = .ok a

def Raised {A : Type} (out : Except RubyError A) : Prop := ∃ e, out = .error e

theorem not_returned {A : Type} {e : RubyError} : ¬ Returned (.error e : Except RubyError A) := by
  rintro ⟨a, ha⟩
  cases ha

theorem Raised.not_returned {A : Type} {out : Except RubyError A} (h : Raised out) :
    ¬ Returned out := by
  obtain ⟨e, rfl⟩ := h
  exact AnsweredRequests.not_returned

theorem not_raised {A : Type} {a : A} : ¬ Raised (.ok a : Except RubyError A) := by
  rintro ⟨e, he⟩
  cases he

theorem command_returns (henv : Obliging rt env) (s : σ) {args : List Json}
    (hfits : Fits command args) :
    Leads env s (handleWsCommand rt channel command args) (fun _ => Returned) := by
  refine (command_cases henv.objects s args).mono ?_
  rintro _ out (⟨r, rfl, -⟩ | ⟨e, rfl, he⟩ | ⟨rfl, ⟨s', hs'⟩ | ⟨s', key, hs'⟩⟩)
  · exact ⟨r, rfl⟩
  · exact absurd hfits (not_fits he)
  · cases (henv.opened s').symm.trans hs'
  · exact absurd hs' (henv.popped s' key)

theorem results_return (henv : Obliging rt env) (s : σ) {argss : List (List Json)}
    (hfits : ∀ args ∈ argss, Fits command args) :
    Leads env s (results rt channel command argss) (fun _ => Returned) := by
  induction argss generalizing s with
  | nil => exact ⟨[], rfl⟩
  | cons args argss ih =>
      refine Leads.bind (command_returns henv s (hfits args List.mem_cons_self))
        (fun s' r _ => ?_) (fun _ _ h => absurd h not_returned)
      refine Leads.bind (ih s' (fun args h => hfits args (List.mem_cons_of_mem _ h)))
        (fun s'' rs _ => ⟨r :: rs, rfl⟩) (fun _ _ h => absurd h not_returned)

end Obliging

/-- A device that never replies is obliging. -/
def mute (_ : Unit) (p : Prim sig) : Unit × p.Resp := ((), silentDevice 0 .written p)

theorem obliging_mute (rt : Runtime) : Obliging rt mute where
  objects := fun _ _ _ h => by cases h
  opened := fun _ => rfl
  popped := fun _ _ h => by cases h

section Mute
variable {rt : Runtime} {channel command : String}

theorem unfit_raises {args : List Json} (h : ¬ Fits command args) :
    Leads mute () (handleWsCommand rt channel command args)
      (fun _ => Raised) := by
  cases hd : document command args with
  | ok doc => exact absurd (fits_iff.mpr ⟨doc, hd⟩) h
  | error e =>
      unfold Leads
      rw [handleWsCommand_eq]
      simp only [drive, mute, silentDevice, send_silent (frame_of_error rt hd), hd]
      exact ⟨e, rfl⟩

/-- An item that does not fit stops the commands. -/
theorem results_raise {argss : List (List Json)} (h : ∃ args ∈ argss, ¬ Fits command args) :
    Leads mute () (results rt channel command argss) (fun _ => Raised) := by
  induction argss with
  | nil => simp at h
  | cons args argss ih =>
      by_cases hfits : Fits command args
      · obtain ⟨args', hmem, hno⟩ := h
        have hrest : args' ∈ argss := (List.mem_cons.mp hmem).resolve_left
          (fun heq => hno (heq ▸ hfits))
        refine Leads.bind (command_returns (obliging_mute rt) () hfits) (fun s' r _ => ?_)
          (fun _ _ hr => absurd hr not_returned)
        exact Leads.bind (ih ⟨args', hrest, hno⟩) (fun _ _ hr => absurd hr not_raised)
          (fun _ _ hr => hr)
      · exact Leads.bind (unfit_raises hfits) (fun _ _ hr => absurd hr not_raised)
          (fun _ e _ => ⟨e, rfl⟩)

end Mute

section Requests
variable {rt : Runtime} {channel command body : String} {v : Json}

theorem map_returned {A B : Type} {env : σ → (p : Prim sig) → σ × p.Resp} {s : σ} {p : Code A}
    {q : Code B} {f : A → B} (h : drive env s q = (drive env s p).map f) :
    Returned (drive env s q).out ↔ Returned (drive env s p).out := by
  rw [h]
  unfold Returned Run.map
  cases (drive env s p).out <;> simp [Except.map]

/-- The request of a command without a body, or with a body that fits it, is
answered. -/
theorem answered_of_fitting (hbody : IsBody rt body v) (h : Fitting command v) :
    AlwaysAnswered rt channel command body := by
  intro σ env s henv
  by_cases hcommand : command ∈ commandsWithoutBody
  · unfold post
    rw [if_pos hcommand]
    exact (map_returned (drive_responseHttp henv.objects s [])).mpr
      (command_returns henv s (fits_bodyless hcommand))
  have hfit := h.resolve_left hcommand
  cases v with
  | arr items =>
      refine (map_returned (drive_array henv.objects hcommand hbody hfit.1 s)).mpr ?_
      exact results_return henv s (List.forall_mem_map.mpr hfit.2)
  | _ =>
      refine (map_returned (drive_single henv.objects hcommand hbody (by simp) s)).mpr ?_
      exact command_returns henv s hfit

end Requests

/-- A request with a JSON body is answered by the route, whatever JSON objects or
timeouts come from the device, exactly if its body fits the command. -/
theorem answered_iff {rt : Runtime} {body : String} {v : Json} (channel command : String)
    (hbody : IsBody rt body v) : AlwaysAnswered rt channel command body ↔ Fitting command v := by
  refine ⟨fun h => ?_, answered_of_fitting hbody⟩
  have hmute : Returned _ := h Unit mute () (obliging_mute rt)
  by_cases hcommand : command ∈ commandsWithoutBody
  · exact .inl hcommand
  refine .inr ?_
  have objects := (obliging_mute rt).objects
  cases v with
  | arr items =>
      have hne : items ≠ [] := by
        rintro rfl
        refine not_returned (A := Answer) (e := .noMethodError) ?_
        convert hmute using 1
        unfold post
        rw [if_neg hcommand, postBody_array hbody.1 hbody.2]
        rfl
      refine ⟨hne, ?_⟩
      by_contra hsome
      obtain ⟨item, hitem, hno⟩ : ∃ item ∈ items, ¬ Fits command (itemArgs item) := by
        simpa using hsome
      rw [map_returned (drive_array objects hcommand hbody hne ())] at hmute
      exact (results_raise ⟨_, List.mem_map_of_mem hitem, hno⟩).not_returned hmute
  | _ =>
      by_contra hno
      rw [map_returned (drive_single objects hcommand hbody (by simp) ())] at hmute
      exact (unfit_raises hno).not_returned hmute

/-- Bodies for the deletion of a user. -/
def counter : Runtime := Runtime.ofTable
  [("user", .obj [("user", .int 7)]), ("two users", .arr [.arr [.int 7, .int 8]]),
   ("no users", .arr [])]

theorem strip_counter : strip "user" = "user" ∧ strip "two users" = "two users" ∧
    strip "no users" = "no users" := by
  unfold strip
  decide

theorem answered_user : AlwaysAnswered counter "A" "delete_user" "user" := by
  have hbody : IsBody counter "user" (.obj [("user", .int 7)]) :=
    isBody_of_strip strip_counter.1 (by decide) rfl
  refine (answered_iff "A" "delete_user" hbody).mpr (.inr ?_)
  intro n hn
  cases hn
  exact ⟨rfl, by decide⟩

theorem not_answered {rt : Runtime} {channel command body : String} {e : RubyError}
    (h : (drive mute () (post rt channel command body)).out = .error e) :
    ¬ AlwaysAnswered rt channel command body := by
  intro answered
  obtain ⟨answer, hanswer⟩ := answered Unit mute () (obliging_mute rt)
  cases h.symm.trans hanswer

/-- A batch whose item has one argument too many, and a batch without items, are
not answered. -/
theorem unanswered :
    ¬ AlwaysAnswered counter "A" "delete_user" "two users" ∧
    ¬ AlwaysAnswered counter "A" "delete_user" "no users" := by
  obtain ⟨-, htwo, hnone⟩ := strip_counter
  constructor
  · refine not_answered (e := .argumentError) ?_
    unfold post postBody
    rw [htwo]
    rfl
  · refine not_answered (e := .noMethodError) ?_
    unfold post postBody
    rw [hnone]
    rfl

end EvoGw.AnsweredRequests
