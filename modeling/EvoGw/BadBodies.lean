import EvoGw.CommandResults

/-!
# The answer 400

The route rescues `JSON::ParserError` around the whole treatment of a body, and
the reply of the device is parsed there too. That a reply never makes the route
answer 400 rests on the message handler, which parses a message before it pushes
it: in every reachable state all elements of the lists are JSON texts. Messages
are arbitrary here, and Redis and the sockets may fail at any time.
-/
namespace EvoGw.BadBodies
open ThreadPrograms ThreadPools PoolTraces
open GatewayCalls JsonValues ServerRoute GatewayPool CommandDocuments CommandCourses CommandResults

/-- A body that the command needs and that is blank or no JSON text. -/
def BadBody (rt : Runtime) (command body : String) : Prop :=
  command ∉ commandsWithoutBody ∧ (strip body = "" ∨ rt.parse (strip body) = none)

/-! ### What the route raises and answers -/

section Requests
variable {rt : Runtime} {channel command body : String}

theorem raises_lift {A : Type} {x : Except RubyError A} (h : x ≠ .error .parserError) :
    RaisesOnly (HearsJson rt) (· ≠ .parserError) (lift x) := by
  rintro tr e - hraise
  cases x with
  | ok a => cases hraise.2
  | error e' =>
      cases hraise.2
      rintro rfl
      exact h rfl

theorem raises_done {A : Type} (a : A) :
    RaisesOnly (HearsJson rt) (· ≠ .parserError) (.done a : Code A) := by
  rintro tr e - hraise
  cases hraise.2

theorem bind_ne {A B : Type} {x : Except RubyError A} {f : A → Except RubyError B} {e : RubyError}
    (hx : x ≠ .error e) (hf : ∀ a, f a ≠ .error e) : x >>= f ≠ .error e := by
  cases x with
  | ok a => exact hf a
  | error e' =>
      intro h
      cases h
      exact hx rfl

theorem index_raises (r : Result) (key : String) : r.index key ≠ .error .parserError := by
  cases r with
  | error m => simp [Result.index]
  | device v => cases v <;> simp [Result.index, Json.index]

theorem entryOf_raises (index : ℕ) (r : Result) : entryOf index r ≠ .error .parserError := by
  have hreject : r.reject ≠ .error .parserError := by
    cases r with
    | error m => simp [Result.reject]
    | device v => cases v <;> simp [Result.reject]
  refine bind_ne hreject (fun response => ?_)
  split_ifs
  · refine bind_ne (index_raises r "ret") (fun ret => ?_)
    exact bind_ne (index_raises r "sn") (fun sn => by rintro ⟨⟩)
  · rintro ⟨⟩

theorem batchStatus_raises (responses : List Entry) :
    batchStatus responses ≠ .error .parserError := by
  unfold batchStatus
  split
  · exact index_raises _ _
  · simp

/-- A command raises no parser error if its reply is a JSON text. -/
theorem command_raises (args : List Json) :
    RaisesOnly (HearsJson rt) (· ≠ .parserError) (handleWsCommand rt channel command args) := by
  intro tr e hsound h
  have course := course_of_behaves h
  generalize hout : Except.error e = out at course
  cases course with
  | absent => cases hout
  | refused w e' he =>
      cases hout
      rcases document_error he with rfl | rfl | rfl <;> simp
  | offline w sent _ =>
      cases hout
      simp
  | waited w sent reply _ =>
      cases reply with
      | timedOut => cases hout
      | failed =>
          cases hout
          simp
      | got raw =>
          have hjson : (rt.parse raw).isSome = true :=
            hsound ⟨.await (responseKey channel), .got raw⟩ (by simp)
          obtain ⟨v, hv⟩ := Option.isSome_iff_exists.mp hjson
          simp only [readReply, hv] at hout
          cases hout

theorem batch_raises (index : ℕ) (items : List Json) :
    RaisesOnly (HearsJson rt) (· ≠ .parserError) (batch rt channel command index items) := by
  induction items generalizing index with
  | nil => exact raises_done _
  | cons item items ih =>
      refine (command_raises _).bind (fun result => ?_)
      refine (raises_lift (entryOf_raises index result)).bind (fun entry => ?_)
      exact (ih (index + 1)).bind (fun entries => raises_done _)

theorem single_raises (args : List Json) : RaisesOnly (HearsJson rt) (· ≠ .parserError) (do
    let response ← handleWsCommand rt channel command args
    responseHttp response) := by
  refine (command_raises args).bind (fun response => ?_)
  exact (raises_lift (index_raises response "result")).bind (fun status => raises_done _)

theorem single_code {args : List Json} {tr : List (Event sig)} {a : Answer} (h : Behaves (do
    let response ← handleWsCommand rt channel command args
    responseHttp response) tr (.ok a)) : a.code = 200 := by
  obtain ⟨response, tr₁, tr₂, -, -, h⟩ := Behaves.bind_inv h
  obtain ⟨status, tr₃, tr₄, -, -, h⟩ := Behaves.bind_inv h
  cases h.2
  rfl

theorem array_raises (items : List Json) : RaisesOnly (HearsJson rt) (· ≠ .parserError) (do
    let responses ← batch rt channel command 0 items
    let status ← lift (batchStatus responses)
    pure (Answer.mk 200 (.batch status responses))) := by
  refine (batch_raises 0 items).bind (fun responses => ?_)
  exact (raises_lift (batchStatus_raises responses)).bind (fun status => raises_done _)

theorem array_code {items : List Json} {tr : List (Event sig)} {a : Answer} (h : Behaves (do
    let responses ← batch rt channel command 0 items
    let status ← lift (batchStatus responses)
    pure (Answer.mk 200 (.batch status responses))) tr (.ok a)) : a.code = 200 := by
  obtain ⟨responses, tr₁, tr₂, -, -, h⟩ := Behaves.bind_inv h
  obtain ⟨status, tr₃, tr₄, -, -, h⟩ := Behaves.bind_inv h
  cases h.2
  rfl

/-- A bad body is answered at once. -/
theorem post_bad (h : BadBody rt command body) :
    ∃ message, post rt channel command body = .done ⟨400, .error message⟩ := by
  obtain ⟨hcommand, hbody⟩ := h
  unfold post postBody parse
  rw [if_neg hcommand]
  by_cases hblank : strip body = ""
  · rw [if_pos hblank]
    exact ⟨_, rfl⟩
  · rw [if_neg hblank, hbody.resolve_left hblank]
    exact ⟨_, rfl⟩

/-- A body that is not bad is not answered by 400. -/
theorem post_good {tr : List (Event sig)} {a : Answer} (hbody : ¬ BadBody rt command body)
    (hsound : ∀ e ∈ tr, HearsJson rt e) (h : Behaves (post rt channel command body) tr (.ok a)) :
    a.code = 200 := by
  unfold post at h
  split_ifs at h with hcommand
  · exact single_code h
  obtain ⟨hblank, hparse⟩ : strip body ≠ "" ∧ rt.parse (strip body) ≠ none := by
    unfold BadBody at hbody
    tauto
  obtain ⟨v, hv⟩ := Option.ne_none_iff_exists'.mp hparse
  have hroute : (∀ tr, (∀ e ∈ tr, HearsJson rt e) →
      ¬ Behaves (postBody rt channel command body) tr (.error .parserError)) ∧
      (Behaves (postBody rt channel command body) tr (.ok a) → a.code = 200) := by
    cases v with
    | arr items =>
        rw [postBody_array hblank hv]
        exact ⟨fun tr hsound herr => array_raises items tr _ hsound herr rfl, array_code⟩
    | _ =>
        rw [postBody_value hblank hv (by simp)]
        exact ⟨fun tr hsound herr => single_raises _ tr _ hsound herr rfl, single_code⟩
  rcases Behaves.rescue_inv h with hok | ⟨e, tr₁, tr₂, rfl, herr, hhandled⟩
  · exact hroute.2 hok
  · split_ifs at hhandled with he
    · subst he
      exact absurd herr (hroute.1 tr₁ (fun e he => hsound e (List.mem_append_left _ he)))
    · cases hhandled.2

end Requests

section Runs
variable {rt : Runtime} {ls : List (Label (gateway rt))} {s : State (gateway rt)}

/-- The request has been answered by 400. -/
def Refused (s : State (gateway rt)) (t : Tid) : Prop :=
  ∃ a, outcome s t = some (.answered a) ∧ a.code = 400

/-- In every reachable state a request is answered by 400 exactly if its body is
bad, and then it has done nothing else: it has called nothing, so written no
frame, and has received nothing. -/
theorem refused_iff_bad (h : exec (boot rt) ls = some s) {t : Tid} {channel command body : String}
    {p : Code Out} (ht : s.threads[t]? = some ⟨.post channel command body, p⟩) :
    (Refused s t ↔ BadBody rt command body) ∧ (Refused s t → trace t s.log = []) := by
  obtain ⟨v, v', q, hq, hres⟩ := exec_residual h ht
  have hentered : some (v, Out.answered <$> post rt channel command body) = some (v', q) := hq
  cases hentered
  have refused : BadBody rt command body → Refused s t ∧ trace t s.log = [] := by
    intro hbad
    obtain ⟨message, hpost⟩ : ∃ message, post rt channel command body = _ := post_bad hbad
    rw [hpost] at hres
    generalize trace t s.log = tr at hres ⊢
    cases hres
    exact ⟨⟨⟨400, .error message⟩, by simp only [outcome, ht], rfl⟩, rfl⟩
  have bad : Refused s t → BadBody rt command body := by
    rintro ⟨a, ha, hcode⟩
    by_contra hgood
    have hanswer := hres.behaves (prog_of_outcome ht ha)
    rw [map_eq_pure_bind] at hanswer
    obtain ⟨a', tr₁, tr₂, htrace, hpost, hdone⟩ := Behaves.bind_inv hanswer
    cases hdone.2
    have hsound : ∀ e ∈ tr₁, HearsJson rt e := by
      intro e he
      refine heard_json h t e ?_
      rw [htrace]
      exact List.mem_append_left _ he
    cases hcode.symm.trans (post_good hgood hsound hpost)
  exact ⟨⟨bad, fun h => (refused h).1⟩, fun h => (refused (bad h)).2⟩

end Runs

/-- A text that is no JSON. -/
def illegible : Runtime := Runtime.ofTable []

theorem strip_illegible : strip "user=7" = "user=7" := by
  unfold strip
  decide

/-- One request, for the deletion of a user. -/
def posted : List (Label (gateway illegible)) := [.enter (.post "A" "delete_user" "user=7")]

theorem refused_iff_bad_text : Refused (after posted) 0 := by
  have run : exec (boot illegible) posted = some (after posted) := rfl
  have hbad : BadBody illegible "delete_user" "user=7" := by
    refine ⟨by decide, .inr ?_⟩
    rw [strip_illegible]
    rfl
  exact (refused_iff_bad run rfl).1.mpr hbad

end EvoGw.BadBodies
