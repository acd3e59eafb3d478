import EvoGw.BatchStatus
import EvoGw.CommandCourses

/-!
# A batch and its items one by one

An array of objects is compared with the requests whose bodies are the objects,
made one after another in the same surroundings and abandoned at the first that
raises. The surroundings are arbitrary, with a state of their own, except that a
reply is a JSON object. Both do what the commands of the items do in turn: the
batch makes an entry of every result, a single request an answer, and neither
adds to the run.
-/
namespace EvoGw.BatchSequence
open ThreadPrograms SoloRuns GatewayCalls JsonValues ServerRoute CommandDocuments CommandCourses
open BatchStatus (IsHash)

/-- The commands of these argument lists, one after another. -/
def results (rt : Runtime) (channel command : String) : List (List Json) → Code (List Result)
  | [] => pure []
  | args :: rest => do
      let r ← handleWsCommand rt channel command args
      let rs ← results rt channel command rest
      pure (r :: rs)

/-- The requests with these bodies, one after another. -/
def posts (rt : Runtime) (channel command : String) : List String → Code (List Answer)
  | [] => pure []
  | body :: rest => do
      let answer ← post rt channel command body
      let answers ← posts rt channel command rest
      pure (answer :: answers)

/-- The body carries this value. -/
def IsBody (rt : Runtime) (body : String) (v : Json) : Prop :=
  strip body ≠ "" ∧ rt.parse (strip body) = some v

theorem isBody_of_strip {rt : Runtime} {body : String} {v : Json} (hstrip : strip body = body)
    (hne : body ≠ "") (hparse : rt.parse body = some v) : IsBody rt body v := by
  unfold IsBody
  rw [hstrip]
  exact ⟨hne, hparse⟩

/-- What is read of a hash. -/
def get (key : String) : Result → Json
  | .device (.obj fields) => fetch fields key
  | _ => .null

/-- A hash without the keys `ret` and `sn`. -/
def bare : Result → Result
  | .device (.obj fields) => .device (.obj (fields.filter (fun f => f.1 ∉ ["ret", "sn"])))
  | r => r

/-- The entry of the result at this position of the batch. -/
def entry (index : ℕ) (r : Result) : Entry :=
  ⟨bare r, if index = 0 then some (get "ret" r, get "sn" r) else none⟩

/-- The answer of a request whose command has this result. -/
def single (r : Result) : Answer := ⟨200, .single (get "result" r) r⟩

theorem index_get {r : Result} (h : IsHash r) (key : String) : r.index key = .ok (get key r) := by
  cases r with
  | error m => rfl
  | device v =>
      cases v with
      | obj fields => rfl
      | _ => exact h.elim

theorem reject_bare {r : Result} (h : IsHash r) : r.reject = .ok (bare r) := by
  cases r with
  | error m => rfl
  | device v =>
      cases v with
      | obj fields => rfl
      | _ => exact h.elim

theorem entryOf_entry {r : Result} (h : IsHash r) (index : ℕ) :
    entryOf index r = .ok (entry index r) := by
  unfold entryOf entry
  rw [reject_bare h, index_get h, index_get h]
  by_cases hi : index = 0
  · simp only [hi, if_true]
    rfl
  · simp only [hi, if_false]
    rfl

section Runs
variable {σ : Type} {env : σ → (p : Prim sig) → σ × p.Resp} {rt : Runtime}
  {channel command : String}

/-- Every reply is a JSON object. -/
def RepliesObjects (rt : Runtime) (env : σ → (p : Prim sig) → σ × p.Resp) : Prop :=
  ∀ s key raw, (env s (.await key)).2 = .got raw → ∃ fields, rt.parse raw = some (.obj fields)

/-- How a command ends: with a hash, with the exception of arguments that do not
fit, or because Redis has refused. -/
theorem command_cases (henv : RepliesObjects rt env) (s : σ) (args : List Json) :
    Leads env s (handleWsCommand rt channel command args) (fun _ out =>
      (∃ r, out = .ok r ∧ IsHash r) ∨ (∃ e, out = .error e ∧ document command args = .error e) ∨
      out = .error .redisError ∧ ((∃ s', (env s' (.call .redisNew)).2 = false) ∨
        ∃ s' key, (env s' (.await key)).2 = .failed)) := by
  have course := course_of_behaves (behaves_drive env s (handleWsCommand rt channel command args))
  have hans := events_answered env s (handleWsCommand rt channel command args)
  unfold Leads
  generalize (drive env s _).events = events at hans course
  generalize (drive env s _).out = out at course ⊢
  cases course with
  | absent => exact .inl ⟨_, rfl, trivial⟩
  | refused w e he => exact .inr (.inl ⟨e, rfl, he⟩)
  | offline w sent hsent =>
      obtain ⟨s', hs'⟩ : ∃ s', false = (env s' (.call .redisNew)).2 :=
        hans ⟨.call .redisNew, false⟩ (by simp)
      exact .inr (.inr ⟨rfl, .inl ⟨s', hs'.symm⟩⟩)
  | waited w sent reply hsent =>
      obtain ⟨s', hs'⟩ : ∃ s', reply = (env s' (.await (responseKey channel))).2 :=
        hans ⟨.await (responseKey channel), reply⟩ (by simp)
      cases reply with
      | timedOut => exact .inl ⟨_, rfl, trivial⟩
      | failed => exact .inr (.inr ⟨rfl, .inr ⟨s', _, hs'.symm⟩⟩)
      | got raw =>
          obtain ⟨fields, hfields⟩ := henv s' _ raw hs'.symm
          exact .inl ⟨.device (.obj fields), by simp only [readReply, hfields], trivial⟩

/-- The run has ended with a value of this kind, or with an exception which the
route does not rescue. -/
def EndsWith {A : Type} (good : A → Prop) (out : Except RubyError A) : Prop :=
  match out with
  | .ok a => good a
  | .error e => e ≠ .parserError

theorem command_ends (henv : RepliesObjects rt env) (s : σ) (args : List Json) :
    Leads env s (handleWsCommand rt channel command args) (fun _ => EndsWith IsHash) := by
  refine (command_cases henv s args).mono ?_
  rintro _ out (⟨r, rfl, hr⟩ | ⟨e, rfl, he⟩ | ⟨rfl, -⟩)
  · exact hr
  · unfold EndsWith
    rcases document_error he with rfl | rfl | rfl <;> simp
  · simp [EndsWith]

theorem results_end (henv : RepliesObjects rt env) (s : σ) (argss : List (List Json)) :
    Leads env s (results rt channel command argss)
      (fun _ => EndsWith (fun rs => rs.length = argss.length ∧ ∀ r ∈ rs, IsHash r)) := by
  induction argss generalizing s with
  | nil => exact ⟨rfl, by simp⟩
  | cons args argss ih =>
      refine (command_ends henv s args).bind (fun s' r hr => ?_) (fun _ _ he => he)
      refine (ih s').bind (fun s'' rs hrs => ?_) (fun _ _ he => he)
      exact ⟨congrArg (· + 1) hrs.1, List.forall_mem_cons.mpr ⟨hr, hrs.2⟩⟩

/-- The loop over a batch runs the commands of its items and makes entries of
their results. -/
theorem drive_batch (henv : RepliesObjects rt env) (s : σ) (index : ℕ) (items : List Json) :
    drive env s (batch rt channel command index items) =
      (drive env s (results rt channel command (items.map itemArgs))).map
        (fun rs => rs.mapIdx (fun i r => entry (index + i) r)) := by
  induction items generalizing s index with
  | nil => rfl
  | cons item items ih =>
      simp only [batch, results, List.map_cons]
      rw [drive_bind, drive_bind]
      refine Run.andThen_map _ (fun r hr => ?_)
      have hhash : IsHash r := (command_ends henv s _).ended hr
      rw [entryOf_entry hhash]
      simp only [lift, Program.pure_eq, Program.done_bind]
      rw [drive_bind_pure, drive_bind_pure, ih, Run.map_map, Run.map_map]
      congr 1
      funext rs
      rw [List.mapIdx_cons]
      simp [Nat.add_assoc, Nat.add_comm 1]

/-- The status of a batch is read from its last result. -/
def statusOf (rs : List Result) : Json := ((rs.getLast?).map (get "result")).getD .null

theorem batchStatus_entries {rs : List Result} (hne : rs ≠ []) (hrs : ∀ r ∈ rs, IsHash r) :
    batchStatus (rs.mapIdx entry) = .ok (statusOf rs) := by
  obtain ⟨init, last, rfl⟩ := List.eq_nil_or_concat rs |>.resolve_left hne
  have hlast : IsHash last := hrs last (by simp)
  have hentry : (entry init.length last).response.index "result" = .ok (get "result" last) := by
    obtain ⟨r, hr, hindex⟩ := BatchStatus.reject_index hlast
    rw [reject_bare hlast] at hr
    cases hr
    exact hindex.trans (index_get hlast "result")
  simpa [batchStatus, statusOf] using hentry

theorem drive_responseHttp (henv : RepliesObjects rt env) (s : σ) (args : List Json) :
    drive env s (do
      let response ← handleWsCommand rt channel command args
      responseHttp response) =
      (drive env s (handleWsCommand rt channel command args)).map single := by
  rw [drive_bind]
  refine Run.andThen_done _ (fun r hr => ?_)
  have hhash : IsHash r := (command_ends henv s _).ended hr
  unfold responseHttp
  rw [index_get hhash]
  rfl

/-- A run of the body that does not end with `JSON::ParserError` is the run of the
route. -/
theorem drive_post {body : String} {s : σ} {run : Run sig σ Answer}
    (hcommand : command ∉ commandsWithoutBody)
    (hrun : drive env s (postBody rt channel command body) = run)
    (hout : run.out ≠ .error .parserError) : drive env s (post rt channel command body) = run := by
  unfold post
  rw [if_neg hcommand, drive_rescue_same, hrun]
  intro e he
  refine if_neg ?_
  rintro rfl
  exact hout (hrun ▸ he)

/-- A body that is no array runs one command. -/
theorem drive_single (henv : RepliesObjects rt env) (hcommand : command ∉ commandsWithoutBody)
    {body : String} {v : Json} (hbody : IsBody rt body v) (hv : ∀ items, v ≠ .arr items) (s : σ) :
    drive env s (post rt channel command body) =
      (drive env s (handleWsCommand rt channel command (itemArgs v))).map single := by
  refine drive_post hcommand ?_ (fun he => ?_)
  · rw [postBody_value hbody.1 hbody.2 hv]
    exact drive_responseHttp henv s _
  · exact (command_ends henv s _).ended (Run.map_error.mp he) rfl

theorem drive_posts (henv : RepliesObjects rt env) (hcommand : command ∉ commandsWithoutBody)
    {bodies : List String} {items : List Json} (hbodies : List.Forall₂ (IsBody rt) bodies items)
    (hitems : ∀ item ∈ items, ∃ fields, item = .obj fields) (s : σ) :
    drive env s (posts rt channel command bodies) =
      (drive env s (results rt channel command (items.map itemArgs))).map
        (List.map single) := by
  induction hbodies generalizing s with
  | nil => rfl
  | @cons body item bodies items hbody _ ih =>
      obtain ⟨fields, rfl⟩ := hitems item List.mem_cons_self
      simp only [posts, results, List.map_cons]
      rw [drive_bind, drive_bind, drive_single henv hcommand hbody (by simp), Run.map_andThen]
      refine Run.andThen_map _ (fun r _ => ?_)
      have rest := ih (fun item hitem => hitems item (List.mem_cons_of_mem _ hitem))
      simp only [Program.pure_eq]
      rw [drive_bind_pure, drive_bind_pure, Run.map_map]
      exact (congrArg (Run.map _) (rest _)).trans (Run.map_map _ _ _)

/-- An array of objects runs the commands of its items. -/
theorem drive_array (henv : RepliesObjects rt env) (hcommand : command ∉ commandsWithoutBody)
    {body : String} {items : List Json} (hbody : IsBody rt body (.arr items)) (hne : items ≠ [])
    (s : σ) :
    drive env s (post rt channel command body) =
      (drive env s (results rt channel command (items.map itemArgs))).map
        (fun rs => ⟨200, .batch (statusOf rs) (rs.mapIdx entry)⟩) := by
  refine drive_post hcommand ?_ (fun he => ?_)
  · rw [postBody_array hbody.1 hbody.2, drive_bind, drive_batch henv, Run.map_andThen]
    refine Run.andThen_done _ (fun rs hrs => ?_)
    obtain ⟨hlength, hhash⟩ := (results_end henv s _).ended hrs
    have hrs_ne : rs ≠ [] := by
      rintro rfl
      exact hne (List.map_eq_nil_iff.mp (List.eq_nil_of_length_eq_zero hlength.symm))
    simp only [Nat.zero_add]
    rw [batchStatus_entries hrs_ne hhash]
    rfl
  · exact (results_end henv s _).ended (Run.map_error.mp he) rfl

/-- A batch of objects is the sequence of the requests with its items: the two
runs have the same events and end in the same state, one raises exactly if the
other does, and if none raises the batch answers with the results of the
requests, in order, each without `ret` and `sn`, which of the first one only are
added to its entry. -/
theorem batch_is_sequence (henv : RepliesObjects rt env) (hcommand : command ∉ commandsWithoutBody)
    {body : String} {items : List Json} (hbody : IsBody rt body (.arr items)) (hne : items ≠ [])
    (hitems : ∀ item ∈ items, ∃ fields, item = .obj fields) {bodies : List String}
    (hbodies : List.Forall₂ (IsBody rt) bodies items) (s : σ) :
    (drive env s (post rt channel command body)).events =
      (drive env s (posts rt channel command bodies)).events ∧
    (drive env s (post rt channel command body)).state =
      (drive env s (posts rt channel command bodies)).state ∧
    (∀ e, (drive env s (post rt channel command body)).out = .error e ↔
      (drive env s (posts rt channel command bodies)).out = .error e) ∧
    ∀ answers, (drive env s (posts rt channel command bodies)).out = .ok answers →
      ∃ (rs : List Result) (status : Json), answers = rs.map single ∧ rs.length = items.length ∧
        (drive env s (post rt channel command body)).out =
          .ok ⟨200, .batch status (rs.mapIdx entry)⟩ := by
  rw [drive_array henv hcommand hbody hne, drive_posts henv hcommand hbodies hitems]
  refine ⟨rfl, rfl, fun e => Run.map_error.trans Run.map_error.symm, fun answers hanswers => ?_⟩
  cases hrs : (drive env s (results rt channel command (items.map itemArgs))).out with
  | error e =>
      simp only [Run.map, hrs] at hanswers
      cases hanswers
  | ok rs =>
      simp only [Run.map, hrs] at hanswers ⊢
      cases hanswers
      obtain ⟨hlength, -⟩ := (results_end henv s _).ended hrs
      exact ⟨rs, statusOf rs, rfl, hlength.trans (List.length_map _), rfl⟩

end Runs

def ledger : Runtime := Runtime.ofTable
  [("both", .arr [.obj [("user", .int 7)], .obj [("user", .int 8)]]),
   ("first", .obj [("user", .int 7)]), ("second", .obj [("user", .int 8)]),
   ("done", .obj [("ret", .str "deleteuser"), ("sn", .str "A"), ("result", .bool true)])]

/-- The device of socket 0 confirms its first command and leaves all others
unanswered. -/
def confirmsOnce (n : ℕ) : (p : Prim sig) → ℕ × p.Resp
  | .await _ => (n + 1, if n = 0 then .got "done" else .timedOut)
  | .call (.connGet _) => (n, some 0)
  | .call c => (n, (perform World.start {} c).2)
  | .acquire _ => (n, ())
  | .release _ => (n, ())
  | .push _ _ => (n, true)
  | .clear _ => (n, true)

theorem strip_ledger : strip "both" = "both" ∧ strip "first" = "first" ∧
    strip "second" = "second" := by
  unfold strip
  decide

theorem confirmsOnce_objects : RepliesObjects ledger confirmsOnce := by
  intro n key raw h
  simp only [confirmsOnce] at h
  split_ifs at h
  cases h
  exact ⟨_, rfl⟩

theorem batch_is_sequence_deletions :
    (drive confirmsOnce 0 (post ledger "A" "delete_user" "both")).events =
      (drive confirmsOnce 0 (posts ledger "A" "delete_user" ["first", "second"])).events ∧
    ∃ (rs : List Result) (status : Json), rs.length = 2 ∧
      (drive confirmsOnce 0 (post ledger "A" "delete_user" "both")).out =
        .ok ⟨200, .batch status (rs.mapIdx entry)⟩ := by
  obtain ⟨hboth, hfirst, hsecond⟩ := strip_ledger
  have hbody : IsBody ledger "both" (.arr [.obj [("user", .int 7)], .obj [("user", .int 8)]]) :=
    isBody_of_strip hboth (by decide) rfl
  have hbodies : List.Forall₂ (IsBody ledger) ["first", "second"]
      [.obj [("user", .int 7)], .obj [("user", .int 8)]] :=
    .cons (isBody_of_strip hfirst (by decide) rfl)
      (.cons (isBody_of_strip hsecond (by decide) rfl) .nil)
  have hcommand : "delete_user" ∉ commandsWithoutBody := by decide
  have sequence : (drive confirmsOnce 0 (post ledger "A" "delete_user" "both")).events = _ ∧ _ :=
    batch_is_sequence confirmsOnce_objects hcommand hbody (by simp) (by simp) hbodies 0
  obtain ⟨hevents, -, -, hanswer⟩ := sequence
  refine ⟨hevents, ?_⟩
  rw [drive_posts confirmsOnce_objects hcommand hbodies (by simp)] at hanswer
  obtain ⟨rs, status, -, hlength, hout⟩ := hanswer _ rfl
  exact ⟨rs, status, hlength, hout⟩

end EvoGw.BatchSequence
