import EvoGw.BatchSequence

/-!
# A batch with an item that does not fit

The arguments of an item are checked when its command is sent, and by then the
items before it have been through the device. So a batch that raises for an item
that does not fit has sent frames, though only those of the items before it. What
is raised inside `Devices::Sender.send` is raised right after the socket has been
looked up, which tells it from the exceptions of a reply.
-/
namespace EvoGw.BatchFailure
open ThreadPrograms SoloRuns GatewayCalls JsonValues ServerRoute CommandDocuments CommandCourses
open BatchSequence

/-- The last thing done was to look up the socket of the channel, and it was found. -/
def EndsAtLookup (channel : String) (tr : List (Event sig)) : Prop :=
  ∃ w, tr.getLast? = some ⟨.call (.connGet channel), some w⟩

/-- The documents written, to whatever socket. -/
def sentDocs (tr : List (Event sig)) : List Json := (written tr).map Prod.snd

section Items
variable {rt : Runtime} {channel command : String}

theorem EndsAtLookup.of_append {tr₁ tr₂ : List (Event sig)}
    (h : EndsAtLookup channel (tr₁ ++ tr₂)) (hne : ¬ EndsAtLookup channel tr₁) :
    EndsAtLookup channel tr₂ := by
  obtain ⟨w, hw⟩ := h
  rw [List.getLast?_append] at hw
  cases hlast : tr₂.getLast? with
  | some e =>
      rw [hlast] at hw
      exact ⟨w, hlast.trans hw⟩
  | none =>
      rw [hlast] at hw
      exact absurd ⟨w, hw⟩ hne

/-- A command ends at the lookup only if its arguments do not fit. -/
theorem refused_of_lookup {args : List Json} {tr : List (Event sig)} {out : Except RubyError Result}
    (course : Course rt channel command args tr out) (h : EndsAtLookup channel tr) :
    written tr = [] ∧ ∃ e, out = .error e ∧ document command args = .error e := by
  obtain ⟨w', hw'⟩ := h
  cases course with
  | absent => cases hw'
  | refused w e he => exact ⟨rfl, e, rfl, he⟩
  | offline w sent _ =>
      simp only [List.getLast?_cons, List.getLast?_append] at hw'
      cases hw'
  | waited w sent reply _ =>
      simp only [List.getLast?_cons, List.getLast?_append] at hw'
      cases hw'

/-- A command writes its own frame, or nothing. -/
theorem sentDocs_course {args : List Json} {tr : List (Event sig)} {out : Except RubyError Result}
    (course : Course rt channel command args tr out) :
    (sentDocs tr).Sublist (frame rt command args).toList := by
  have passed : ∀ {w : Sock} {sent : List (Event sig)}, Passes rt command args w sent →
      ((written sent).map Prod.snd).Sublist (frame rt command args).toList := by
    intro w sent hsent
    cases hsent with
    | framed doc r hf =>
        rw [written_frame, hf]
        split_ifs <;> simp
    | silent _ _ _ => simp
  unfold sentDocs
  cases course with
  | absent => exact List.nil_sublist _
  | refused w e _ => exact List.nil_sublist _
  | offline w sent hsent =>
      rw [written_offline]
      exact passed hsent
  | waited w sent reply hsent =>
      rw [written_waited]
      exact passed hsent

theorem not_lookup_of_ok {args : List Json} {tr : List (Event sig)} {r : Result}
    (h : Behaves (handleWsCommand rt channel command args) tr (.ok r)) :
    ¬ EndsAtLookup channel tr := by
  intro hlookup
  obtain ⟨-, e, he, -⟩ := refused_of_lookup (course_of_behaves h) hlookup
  cases he

/-- What follows the commands performs nothing, so only the commands can end at a
lookup. -/
theorem EndsAtLookup.first {A B : Type} {p : Code A} {f : A → Code B} {tr : List (Event sig)}
    {e : RubyError} (hlookup : EndsAtLookup channel tr) (hf : ∀ a, (f a).Finished)
    (hok : ∀ {tr a}, Behaves p tr (.ok a) → ¬ EndsAtLookup channel tr)
    (h : Behaves (p >>= f) tr (.error e)) : Behaves p tr (.error e) := by
  refine (Behaves.bind_error h).resolve_right ?_
  rintro ⟨a, tr₁, tr₂, rfl, h₁, h₂⟩
  rw [(hf a).trace_nil h₂, List.append_nil] at hlookup
  exact hok h₁ hlookup

theorem EndsAtLookup.ne_nil : ¬ EndsAtLookup channel [] := by
  rintro ⟨w, hw⟩
  cases hw

theorem batch_not_lookup {items : List Json} {index : ℕ} {tr : List (Event sig)}
    {entries : List Entry} (h : Behaves (batch rt channel command index items) tr (.ok entries)) :
    ¬ EndsAtLookup channel tr := by
  induction items generalizing index tr entries with
  | nil =>
      obtain ⟨rfl, -⟩ := h
      exact EndsAtLookup.ne_nil
  | cons item items ih =>
      obtain ⟨r, tr₁, tr₂, rfl, h₁, h₂⟩ := Behaves.bind_inv h
      obtain ⟨entry, tr₃, tr₄, rfl, h₃, h₄⟩ := Behaves.bind_inv h₂
      obtain ⟨entries', tr₅, tr₆, rfl, h₅, h₆⟩ := Behaves.bind_inv h₄
      obtain rfl : tr₃ = [] := (finished_lift _).trace_nil h₃
      obtain ⟨rfl, -⟩ := h₆
      intro hlookup
      have hrest := hlookup.of_append (not_lookup_of_ok h₁)
      rw [List.nil_append, List.append_nil] at hrest
      exact ih h₅ hrest

/-- A batch that stops at the lookup of a socket stops at an item that does not
fit, and has sent frames of items before it only. -/
theorem batch_stops {items : List Json} {index : ℕ} {tr : List (Event sig)} {e : RubyError}
    (h : Behaves (batch rt channel command index items) tr (.error e))
    (hlookup : EndsAtLookup channel tr) :
    ∃ before bad after, items = before ++ bad :: after ∧
      document command (itemArgs bad) = .error e ∧
      (sentDocs tr).Sublist (before.filterMap (fun item => frame rt command (itemArgs item))) := by
  induction items generalizing index tr with
  | nil => cases h.2
  | cons item items ih =>
      rcases Behaves.bind_error h with herr | ⟨r, tr₁, tr₂, rfl, h₁, h₂⟩
      · obtain ⟨hnone, e', he, hdoc⟩ := refused_of_lookup (course_of_behaves herr) hlookup
        cases he
        exact ⟨[], item, items, rfl, hdoc, by simp [sentDocs, hnone]⟩
      have hrest : EndsAtLookup channel tr₂ := hlookup.of_append (not_lookup_of_ok h₁)
      cases hentry : entryOf index r with
      | error e' =>
          rw [hentry] at h₂
          obtain ⟨rfl, -⟩ := h₂
          exact absurd hrest EndsAtLookup.ne_nil
      | ok entry =>
          rw [hentry] at h₂
          simp only [lift, Program.pure_eq, Program.done_bind] at h₂
          rcases Behaves.bind_error h₂ with h₃ | ⟨entries, tr₃, tr₄, -, -, h₄⟩
          · obtain ⟨before, bad, after, rfl, hdoc, hsub⟩ := ih h₃ hrest
            refine ⟨item :: before, bad, after, rfl, hdoc, ?_⟩
            have hfirst := sentDocs_course (course_of_behaves h₁)
            unfold sentDocs at hfirst hsub ⊢
            rw [written_append, List.map_append]
            convert hfirst.append hsub using 1
            cases hf : frame rt command (itemArgs item) <;> simp [hf]
          · cases h₄.2

end Items

/-- A batch that raises because the arguments of an item do not fit has sent
nothing of this item or of those after it: what was sent are frames of items
before it, in their order and each at most once. -/
theorem failed_batch_sent {rt : Runtime} {channel command body : String} {items : List Json}
    (hbody : IsBody rt body (.arr items)) {tr : List (Event sig)} {e : RubyError}
    (h : Behaves (post rt channel command body) tr (.error e)) (hlookup : EndsAtLookup channel tr) :
    ∃ before bad after, items = before ++ bad :: after ∧
      document command (itemArgs bad) = .error e ∧
      (sentDocs tr).Sublist (before.filterMap (fun item => frame rt command (itemArgs item))) := by
  unfold post at h
  split_ifs at h with hcommand
  · have hafter : ∀ r, (responseHttp r).Finished :=
      fun r => (finished_lift _).bind (fun _ => trivial)
    have herr := hlookup.first hafter not_lookup_of_ok h
    obtain ⟨-, e', -, hdoc⟩ := refused_of_lookup (course_of_behaves herr) hlookup
    exact absurd (fits_bodyless hcommand) (not_fits hdoc)
  · obtain ⟨e', tr₁, tr₂, rfl, h₁, h₂⟩ := Behaves.rescue_error h
    split_ifs at h₂ with hparser
    · cases h₂.2
    · obtain ⟨rfl, he⟩ := h₂
      cases he
      rw [List.append_nil] at hlookup ⊢
      rw [postBody_array hbody.1 hbody.2] at h₁
      refine batch_stops (hlookup.first (fun responses => ?_) batch_not_lookup h₁) hlookup
      exact (finished_lift (batchStatus responses)).bind (fun _ => trivial)

/-- The second item of the body has one argument too many. -/
def halfFit : Runtime := Runtime.ofTable [("half", .arr [.int 7, .arr [.int 8, .int 9]])]

def deletionFrame : Json :=
  .obj [("cmd", .str "deleteuser"), ("enrollid", .int 7), ("backupnum", .int 10)]

/-- User 7 is deleted without an answer before the second item is looked at. -/
def halfTrace : List (Event sig) :=
  [⟨.call (.connGet "A"), some (0 : Sock)⟩, ⟨.call (.wsSend (some 0) deletionFrame), Sent.written⟩,
   ⟨.call .redisNew, true⟩, ⟨.await (responseKey "A"), .timedOut⟩,
   ⟨.call (.connGet "A"), some (0 : Sock)⟩]

theorem strip_half : strip "half" = "half" := by
  unfold strip
  decide

theorem behaves_half :
    Behaves (post halfFit "A" "delete_user" "half") halfTrace (.error .argumentError) := by
  have run := behaves_drive (fun _ p => ((), silentDevice 0 .written p)) ()
    (post halfFit "A" "delete_user" "half")
  unfold post postBody at run ⊢
  rw [strip_half] at run ⊢
  exact run

theorem failed_batch_sent_half :
    ∃ before bad after, [.int 7, .arr [.int 8, .int 9]] = before ++ bad :: after ∧
      document "delete_user" (itemArgs bad) = .error .argumentError ∧
      (sentDocs halfTrace).Sublist
        (before.filterMap (fun item => frame halfFit "delete_user" (itemArgs item))) :=
  failed_batch_sent (isBody_of_strip strip_half (by decide) rfl) behaves_half ⟨0, rfl⟩

/-- The batch raises because its second item does not fit, and its first item was
sent. -/
theorem failed_batch_effect :
    Behaves (post halfFit "A" "delete_user" "half") halfTrace (.error .argumentError) ∧
    EndsAtLookup "A" halfTrace ∧ sentDocs halfTrace = [deletionFrame] :=
  ⟨behaves_half, ⟨0, rfl⟩, rfl⟩

end EvoGw.BatchFailure
