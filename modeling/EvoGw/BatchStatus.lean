import EvoGw.ServerRoute
import EvoGw.SoloRuns

/-!
# The status of a batch

An array body runs `handle_ws_command` once per item. The answer lists all
results, but its `status` is read from the last entry alone. The results are
those of arbitrary runs of the commands: each item comes with a complete trace
of its command, whatever the device, Redis and the other threads did.
-/
namespace EvoGw.BatchStatus
open ThreadPrograms SoloRuns GatewayCalls InsertionHash JsonValues ServerRoute

/-- The commands of the items return these results, with these traces one after
another. -/
inductive Answered (rt : Runtime) (channel command : String) :
    List Json → List (Event sig) → List Result → Prop
  | nil : Answered rt channel command [] [] []
  | cons {item : Json} {items : List Json} {tr trs : List (Event sig)} {result : Result}
      {results : List Result} :
      Behaves (handleWsCommand rt channel command (itemArgs item)) tr (.ok result) →
      Answered rt channel command items trs results →
      Answered rt channel command (item :: items) (tr ++ trs) (result :: results)

/-- A JSON object of the device or an error hash of the gateway. -/
def IsHash : Result → Prop
  | .device (.obj _) => True
  | .error _ => True
  | _ => False

/-- The result has `"result" => true`. -/
def Succeeded (r : Result) : Prop := r.index "result" = .ok (.bool true)

theorem lookup_filter (fields : List (String × Json)) {key : String} (h : key ∉ ["ret", "sn"]) :
    (fields.filter (fun f => f.1 ∉ ["ret", "sn"])).lookup key = fields.lookup key := by
  induction fields with
  | nil => rfl
  | cons f fields ih =>
      obtain ⟨k, v⟩ := f
      by_cases hk : k ∈ ["ret", "sn"]
      · have hne : (key == k) = false := by
          rw [beq_eq_false_iff_ne]
          rintro rfl
          exact h hk
        rw [List.filter_cons_of_neg (by simpa only [decide_not, Bool.not_eq_eq_eq_not,
          Bool.not_true, decide_eq_false_iff_not, not_not] using hk), ih, List.lookup_cons, hne]
      · rw [List.filter_cons_of_pos (by simpa using hk), List.lookup_cons, List.lookup_cons, ih]

/-- Dropping `ret` and `sn` keeps `result`. -/
theorem reject_index {r : Result} (h : IsHash r) :
    ∃ r', r.reject = .ok r' ∧ r'.index "result" = r.index "result" := by
  cases r with
  | error m => exact ⟨.error m, rfl, rfl⟩
  | device v =>
      cases v with
      | obj fields =>
          refine ⟨_, rfl, ?_⟩
          simp only [Result.index, index_obj, fetch]
          rw [lookup_filter fields (by decide)]
      | _ => exact h.elim

theorem index_hash {r : Result} (h : IsHash r) (key : String) : ∃ v, r.index key = .ok v := by
  cases r with
  | error m => exact ⟨.null, rfl⟩
  | device v =>
      cases v with
      | obj fields => exact ⟨fetch fields key, rfl⟩
      | _ => exact h.elim

theorem entryOf_hash {r : Result} (h : IsHash r) (index : ℕ) :
    ∃ entry, entryOf index r = .ok entry ∧ entry.response.index "result" = r.index "result" := by
  obtain ⟨r', hr, hindex⟩ := reject_index h
  obtain ⟨ret, hret⟩ := index_hash h "ret"
  obtain ⟨sn, hsn⟩ := index_hash h "sn"
  by_cases hi : index = 0
  · exact ⟨⟨r', some (ret, sn)⟩, by simp [entryOf, hr, hi, hret, hsn, bind, Except.bind, pure,
      Except.pure], hindex⟩
  · exact ⟨⟨r', none⟩, by simp [entryOf, hr, hi, bind, Except.bind, pure, Except.pure], hindex⟩

section Batch
variable {rt : Runtime} {channel command : String} {items : List Json} {tr : List (Event sig)}
  {results : List Result}

/-- The loop makes one entry per result and keeps each `result` value. -/
theorem batch_behaves (h : Answered rt channel command items tr results)
    (hhash : ∀ r ∈ results, IsHash r) (index : ℕ) :
    ∃ entries, Behaves (batch rt channel command index items) tr (.ok entries) ∧
      entries.map (fun e => e.response.index "result") =
        results.map (fun r => r.index "result") := by
  induction h generalizing index with
  | nil => exact ⟨[], ⟨rfl, rfl⟩, rfl⟩
  | @cons item items tr trs result results hitem _ ih =>
      obtain ⟨entry, hentry, hindex⟩ := entryOf_hash (hhash result List.mem_cons_self) index
      obtain ⟨entries, hrest, hmap⟩ := ih (fun r hr => hhash r (List.mem_cons_of_mem _ hr))
        (index + 1)
      refine ⟨entry :: entries, ?_, by simp [hindex, hmap]⟩
      have hloop : Behaves (do
          let entries ← batch rt channel command (index + 1) items
          pure (entry :: entries)) trs (.ok (entry :: entries)) := by
        have := hrest.bind (f := fun entries => pure (entry :: entries)) ⟨rfl, rfl⟩
        simpa using this
      refine hitem.bind ?_
      rw [hentry]
      exact hloop

/-- The status is the `result` value of the last result. -/
theorem batchStatus_last {entries : List Entry} (hne : results ≠ [])
    (hmap : entries.map (fun e => e.response.index "result") =
      results.map (fun r => r.index "result")) :
    batchStatus entries = (results.getLast hne).index "result" := by
  have hlast := congrArg List.getLast? hmap
  rw [List.getLast?_map, List.getLast?_map, List.getLast?_eq_getLast_of_ne_nil hne] at hlast
  cases he : entries.getLast? with
  | none => simp [he] at hlast
  | some e =>
      simp only [he, Option.map_some, Option.some.injEq] at hlast
      simp [batchStatus, he, hlast]

/-- The route answers an array with its entries and the value of the last one. -/
theorem post_batch {body : String} (hcommand : command ∉ commandsWithoutBody)
    (hbody : strip body ≠ "") (hparse : rt.parse (strip body) = some (.arr items))
    (h : Answered rt channel command items tr results) (hhash : ∀ r ∈ results, IsHash r)
    (hne : results ≠ []) :
    ∃ status entries, (results.getLast hne).index "result" = .ok status ∧
      Behaves (post rt channel command body) tr (.ok ⟨200, .batch status entries⟩) := by
  obtain ⟨entries, hloop, hmap⟩ := batch_behaves h hhash 0
  obtain ⟨status, hstatus⟩ := index_hash (hhash _ (List.getLast_mem hne)) "result"
  refine ⟨status, entries, hstatus, ?_⟩
  have hlast : batchStatus entries = .ok status := (batchStatus_last hne hmap).trans hstatus
  have hroute : Behaves (postBody rt channel command body) (tr ++ [])
      (.ok ⟨200, .batch status entries⟩) := by
    rw [postBody_array hbody hparse]
    refine hloop.bind ?_
    rw [hlast]
    exact ⟨rfl, rfl⟩
  rw [List.append_nil] at hroute
  unfold post
  rw [if_neg hcommand]
  exact hroute.rescue

/-- For an array body with these results, the answer has status `true` exactly
if all items succeeded, under exactly this condition: if the last item
succeeded, then so did all others. -/
theorem status_honest_iff {body : String} (hcommand : command ∉ commandsWithoutBody)
    (hbody : strip body ≠ "") (hparse : rt.parse (strip body) = some (.arr items))
    (h : Answered rt channel command items tr results) (hhash : ∀ r ∈ results, IsHash r)
    (hne : results ≠ []) :
    ∃ status entries,
      (∀ out, Behaves (post rt channel command body) tr out ↔
        out = .ok ⟨200, .batch status entries⟩) ∧
      ((status = .bool true ↔ ∀ r ∈ results, Succeeded r) ↔
        (Succeeded (results.getLast hne) → ∀ r ∈ results, Succeeded r)) := by
  obtain ⟨status, entries, hstatus, hpost⟩ := post_batch hcommand hbody hparse h hhash hne
  refine ⟨status, entries, fun out => ⟨fun hout => hout.unique hpost, ?_⟩, ?_⟩
  · rintro rfl
    exact hpost
  · have hlast : status = .bool true ↔ Succeeded (results.getLast hne) := by
      unfold Succeeded
      rw [hstatus, Except.ok.injEq]
    rw [hlast]
    exact ⟨fun honest => honest.mp,
      fun honest => ⟨honest, fun all => all _ (List.getLast_mem hne)⟩⟩

end Batch

def onlineWorld : World :=
  ⟨World.start.connections.insert (.serial (.str "A")) (some 0), [], [], []⟩

/-- Surroundings in which the device `A` is connected and BLPOP returns the given
answers, one after another. -/
def replying (replies : List (Awaited String)) : (p : Prim sig) → List (Awaited String) × p.Resp
  | .await _ => (replies.tail, replies.headD .timedOut)
  | .call c => (replies, (perform onlineWorld {} c).2)
  | .acquire _ => (replies, ())
  | .release _ => (replies, ())
  | .push _ _ => (replies, true)
  | .clear _ => (replies, true)

def clerk : Runtime := Runtime.ofTable
  [("items", .arr [.int 7, .int 8]),
   ("done", .obj [("ret", .str "deleteuser"), ("sn", .str "A"), ("result", .bool true)])]

/-- One `delete_user` of the batch. -/
def deletion (user : ℤ) (replies : List (Awaited String)) :
    Run sig (List (Awaited String)) Result :=
  drive replying replies (handleWsCommand clerk "A" "delete_user" (itemArgs (.int user)))

def confirmation : Result :=
  .device (.obj [("ret", .str "deleteuser"), ("sn", .str "A"), ("result", .bool true)])

/-- Both deletions, each with its own answer to BLPOP. -/
def deletions (first second : Awaited String) : List (Event sig) :=
  (deletion 7 [first]).events ++ ((deletion 8 [second]).events ++ [])

theorem answered_deletions {first second : Awaited String} {r₁ r₂ : Result}
    (h₁ : (deletion 7 [first]).out = .ok r₁) (h₂ : (deletion 8 [second]).out = .ok r₂) :
    Answered clerk "A" "delete_user" [.int 7, .int 8] (deletions first second) [r₁, r₂] := by
  refine .cons ?_ (.cons ?_ .nil)
  · rw [← h₁]
    exact behaves_drive _ _ _
  · rw [← h₂]
    exact behaves_drive _ _ _

theorem strip_items : strip "items" = "items" := by
  unfold strip
  decide

/-- The device leaves the first deletion unanswered and confirms the second. The
answer has status `true`. -/
theorem timeout_hidden :
    Answered clerk "A" "delete_user" [.int 7, .int 8] (deletions .timedOut (.got "done"))
      [noAnswer, confirmation] ∧
    (∃ entries, Behaves (post clerk "A" "delete_user" "items")
      (deletions .timedOut (.got "done")) (.ok ⟨200, .batch (.bool true) entries⟩)) ∧
    ¬ ∀ r ∈ [noAnswer, confirmation], Succeeded r := by
  have h : Answered clerk "A" "delete_user" [.int 7, .int 8] (deletions .timedOut (.got "done"))
      [noAnswer, confirmation] := answered_deletions rfl rfl
  refine ⟨h, ?_, ?_⟩
  · obtain ⟨status, entries, hstatus, hpost⟩ := post_batch (by decide)
      (by rw [strip_items]; decide) (by rw [strip_items]; rfl) h
      (by simp [IsHash, noAnswer, confirmation]) (by simp)
    cases hstatus
    exact ⟨entries, hpost⟩
  · intro all
    have first := all noAnswer List.mem_cons_self
    simp [Succeeded, noAnswer, Result.index] at first

/-- Both deletions are confirmed. -/
theorem status_of_confirmed : ∃ entries, ∀ out, Behaves (post clerk "A" "delete_user" "items")
      (deletions (.got "done") (.got "done")) out ↔
        out = .ok ⟨200, .batch (.bool true) entries⟩ := by
  have all : ∀ r ∈ [confirmation, confirmation], Succeeded r := by
    intro r hr
    simp only [List.mem_cons, List.not_mem_nil, or_false, or_self] at hr
    rw [hr]
    rfl
  obtain ⟨status, entries, hout, honest⟩ := status_honest_iff (by decide)
    (by rw [strip_items]; decide) (by rw [strip_items]; rfl)
    (show Answered clerk "A" "delete_user" [.int 7, .int 8] (deletions (.got "done") (.got "done"))
      [confirmation, confirmation] from answered_deletions rfl rfl)
    (by simp [IsHash, confirmation]) (by simp)
  have hstatus := (honest.mpr (fun _ => all)).mpr all
  subst hstatus
  exact ⟨entries, hout⟩

end EvoGw.BatchStatus
