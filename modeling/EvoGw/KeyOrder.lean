import EvoGw.BatchSequence

/-!
# The order of the keys of an object

The route drops the keys of an object and passes its values on by position. The
same object with its keys in another order therefore makes another command, unless
the values stand in the same order after all or no frame is made of either order.

An object of a batch can also matter for the items after it: arguments that do not
fit end the batch, while a document that cannot be encoded is passed over. If one
order does the one and the other order the other, the later items must not make a
frame either.
-/
namespace EvoGw.KeyOrder
open ThreadPrograms SoloRuns GatewayCalls JsonValues DevicesSender ServerRoute CommandDocuments
open CommandCourses BatchSequence

/-- Where in a body an object stands. -/
inductive Place where
  | whole
  | item (before after : List Json)

/-- The body with a value at this place. -/
def Place.value : Place → Json → Json
  | .whole, v => v
  | .item before after, v => .arr (before ++ v :: after)

/-- The items before the place. -/
def Place.before : Place → List Json
  | .whole => []
  | .item before _ => before

def Place.after : Place → List Json
  | .whole => []
  | .item _ after => after

/-- The two requests write the same frames, whatever happens around them. -/
def SameFrames (rt : Runtime) (channel command body body' : String) : Prop :=
  ∀ (σ : Type) (env : σ → (p : Prim sig) → σ × p.Resp) (s : σ),
    written (drive env s (post rt channel command body)).events =
      written (drive env s (post rt channel command body')).events

/-- Values in two orders of which a command makes one document are in one order. -/
theorem args_of_frame {rt : Runtime} {command : String} {args args' : List Json} {doc : Json}
    (hperm : args.Perm args') (h : frame rt command args = some doc)
    (h' : frame rt command args' = some doc) : args = args' := by
  obtain ⟨make, hmake, hmade⟩ := document_made (document_of_frame h).1
  obtain ⟨make', hmake', hmade'⟩ := document_made (document_of_frame h').1
  obtain rfl : make = make' := Option.some.inj (hmake.symm.trans hmake')
  obtain ⟨n, -, shape⟩ := lookup_shape hmake
  obtain ⟨hlength, -⟩ := (shape.fits_iff args).mp ⟨doc, hmade⟩
  obtain ⟨hlength', -⟩ := (shape.fits_iff args').mp ⟨doc, hmade'⟩
  cases shape with
  | none doc _ =>
      rw [List.length_eq_zero_iff.mp hlength, List.length_eq_zero_iff.mp hlength']
  | one make _ _ =>
      obtain ⟨a, rfl⟩ := List.length_eq_one_iff.mp hlength
      obtain ⟨a', rfl⟩ := List.length_eq_one_iff.mp hlength'
      exact List.singleton_perm_singleton.mp hperm ▸ rfl
  | two make _ hinj =>
      obtain ⟨a, b, rfl⟩ := List.length_eq_two.mp hlength
      obtain ⟨a', b', rfl⟩ := List.length_eq_two.mp hlength'
      obtain rfl : a = a' :=
        hinj a b a' b' ((Except.ok.inj hmade).trans (Except.ok.inj hmade').symm)
      rw [List.singleton_perm_singleton.mp hperm.cons_inv]
  | user make hname =>
      obtain ⟨a, b, c, rfl⟩ := List.length_eq_three.mp hlength
      obtain ⟨a', b', c', rfl⟩ := List.length_eq_three.mp hlength'
      rw [hname, lookup_setUserInfo] at hmake
      rw [← Option.some.inj hmake] at hmade hmade'
      obtain ⟨n, -, hdoc⟩ := fitsUser_ok hmade
      obtain ⟨n', -, hdoc'⟩ := fitsUser_ok hmade'
      obtain ⟨rfl, rfl⟩ : b = b' ∧ c = c' := by
        cases hdoc.symm.trans hdoc'
        exact ⟨rfl, rfl⟩
      have hfirst : [a].Perm [a'] := (List.perm_append_right_iff [b, c]).mp hperm
      rw [List.singleton_perm_singleton.mp hfirst]

section Batches
variable {σ : Type} {env : σ → (p : Prim sig) → σ × p.Resp} {rt : Runtime}
  {channel command : String}

/-- What is done after the command of the item at this index. -/
def proceed (rt : Runtime) (channel command : String) (index : ℕ) (items : List Json)
    (result : Result) : Code (List Entry) := do
  let entry ← lift (entryOf index result)
  let entries ← batch rt channel command (index + 1) items
  pure (entry :: entries)

/-- What is left of a batch once the socket for its first item was found. -/
def served (rt : Runtime) (channel command : String) (index : ℕ) (item : Json) (items : List Json)
    (w : Sock) : Code (List Entry) := do
  send rt (some w) command (itemArgs item)
  let result ← awaitReply rt channel
  proceed rt channel command index items result

theorem batch_cons (index : ℕ) (item : Json) (items : List Json) :
    batch rt channel command index (item :: items) =
      handleWsCommand rt channel command (itemArgs item) >>=
        proceed rt channel command index items :=
  rfl

/-- The frames of a batch depend on its first item only if the socket is found. -/
theorem written_cons (s : σ) (index : ℕ) (item : Json) (items : List Json) :
    written (drive env s (batch rt channel command index (item :: items))).events =
      match (env s (.call (.connGet channel))).2 with
      | none => written (drive env (env s (.call (.connGet channel))).1
          (proceed rt channel command index items notConnected)).events
      | some w => written (drive env (env s (.call (.connGet channel))).1
          (served rt channel command index item items w)).events := by
  rw [batch_cons, handleWsCommand_eq, Program.act_bind]
  simp only [drive]
  rw [written_skip rfl]
  cases (env s (.call (.connGet channel))).2 with
  | none => rfl
  | some w =>
      simp only [served, Program.bind_assoc]

theorem written_proceed (s : σ) (index : ℕ) (items : List Json) (result : Result) :
    written (drive env s (proceed rt channel command index items result)).events =
      match entryOf index result with
      | .ok _ => written (drive env s (batch rt channel command (index + 1) items)).events
      | .error _ => [] := by
  unfold proceed
  cases entryOf index result with
  | error e => rfl
  | ok entry =>
      simp only [lift, Program.pure_eq, Program.done_bind]
      rw [drive_bind_pure]
      rfl

/-- Batches that write the same frames do so after the same items. -/
theorem written_before {items items' : List Json}
    (h : ∀ s index, written (drive env s (batch rt channel command index items)).events =
      written (drive env s (batch rt channel command index items')).events)
    (before : List Json) (s : σ) (index : ℕ) :
    written (drive env s (batch rt channel command index (before ++ items))).events =
      written (drive env s (batch rt channel command index (before ++ items'))).events := by
  induction before generalizing s index with
  | nil => exact h s index
  | cons item before ih =>
      rw [List.cons_append, List.cons_append, batch_cons, batch_cons, drive_bind, drive_bind]
      unfold Run.andThen
      cases (drive env s (handleWsCommand rt channel command (itemArgs item))).out with
      | error e => rfl
      | ok result =>
          simp only [written_append, written_proceed, ih]

/-! ### Batches that write nothing -/

/-- Nothing is written to a socket. -/
def NoFrame : Prim sig → Prop
  | .call (.wsSend _ _) => False
  | _ => True

theorem written_quiet {A : Type} {p : Code A} (hp : Uses NoFrame p) (s : σ) :
    written (drive env s p).events = [] := by
  refine List.filterMap_eq_nil_iff.mpr (fun e he => ?_)
  have hquiet := uses_events env hp s e he
  obtain ⟨q, r⟩ := e
  cases q with
  | call c =>
      cases c with
      | wsSend ws doc => exact hquiet.elim
      | _ => rfl
  | _ => rfl

theorem quiet_send {ws : Option Sock} {args : List Json} (h : frame rt command args = none) :
    Uses NoFrame (send rt ws command args) := by
  rw [send_silent h]
  exact uses_lift _

theorem quiet_batch {items : List Json}
    (h : ∀ item ∈ items, frame rt command (itemArgs item) = none) (index : ℕ) :
    Uses NoFrame (batch rt channel command index items) :=
  uses_batch (fun item hitem => uses_handleWsCommand trivial trivial trivial
    (fun _ => quiet_send (h item hitem))) index

/-- An item without a frame ends the batch, or nothing is written after it. -/
theorem quiet_served {item : Json} {items : List Json}
    (hitem : frame rt command (itemArgs item) = none)
    (h : ¬ Fits command (itemArgs item) ∨
      ∀ item ∈ items, frame rt command (itemArgs item) = none)
    (index : ℕ) (w : Sock) : Uses NoFrame (served rt channel command index item items w) := by
  rcases h with hfits | hitems
  · unfold served
    rw [send_silent hitem]
    cases hdoc : document command (itemArgs item) with
    | ok doc => exact absurd (fits_iff.mpr ⟨doc, hdoc⟩) hfits
    | error e => trivial
  · refine (quiet_send hitem).bind (fun _ => (uses_awaitReply trivial trivial).bind (fun _ => ?_))
    exact (uses_lift _).bind (fun _ => (quiet_batch hitems (index + 1)).bind (fun _ => trivial))

/-- Commands that fit and make no frame are the same command. -/
theorem handleWsCommand_silent {args args' : List Json} (h : frame rt command args = none)
    (h' : frame rt command args' = none) (hfits : Fits command args) (hfits' : Fits command args') :
    handleWsCommand rt channel command args = handleWsCommand rt channel command args' := by
  obtain ⟨doc, hdoc⟩ := fits_iff.mp hfits
  obtain ⟨doc', hdoc'⟩ := fits_iff.mp hfits'
  simp only [handleWsCommand_eq, send_silent h, send_silent h', hdoc, hdoc']
  rfl

/-- Two items without frames can be exchanged if both or none of them end the batch,
or if nothing would be written after them. -/
theorem written_exchange {item item' : Json} {after : List Json}
    (hitem : frame rt command (itemArgs item) = none)
    (hitem' : frame rt command (itemArgs item') = none)
    (h : (Fits command (itemArgs item) ↔ Fits command (itemArgs item')) ∨
      ∀ item ∈ after, frame rt command (itemArgs item) = none) (s : σ) (index : ℕ) :
    written (drive env s (batch rt channel command index (item :: after))).events =
      written (drive env s (batch rt channel command index (item' :: after))).events := by
  by_cases hboth : Fits command (itemArgs item) ∧ Fits command (itemArgs item')
  · rw [batch_cons, batch_cons, handleWsCommand_silent hitem hitem' hboth.1 hboth.2]
  · have hquiet : ∀ w, Uses NoFrame (served rt channel command index item after w) :=
      quiet_served hitem (h.imp_left (fun hiff hfits => hboth ⟨hfits, hiff.mp hfits⟩)) index
    have hquiet' : ∀ w, Uses NoFrame (served rt channel command index item' after w) :=
      quiet_served hitem' (h.imp_left (fun hiff hfits => hboth ⟨hiff.mpr hfits, hfits⟩)) index
    rw [written_cons, written_cons]
    cases (env s (.call (.connGet channel))).2 with
    | none => rfl
    | some w => simp only [written_quiet (hquiet w), written_quiet (hquiet' w)]

end Batches

/-! ### Surroundings that tell two batches apart -/

/-- Only some of the lookups find the device, whose socket takes every frame and
which never replies. The state is the number of lookups so far. -/
def visible (found : ℕ → Bool) (n : ℕ) : (p : Prim sig) → ℕ × p.Resp
  | .call (.connGet _) => (n + 1, if found n then some 0 else none)
  | p => (n, silentDevice 0 .written p)

/-- The frames of a batch in these surroundings. -/
def framesOf (rt : Runtime) (command : String) (found : ℕ → Bool) :
    ℕ → List Json → List (Sock × Json)
  | _, [] => []
  | n, item :: items =>
      if found n then
        match document command (itemArgs item) with
        | .ok _ => (frame rt command (itemArgs item)).toList.map (fun doc => (0, doc)) ++
            framesOf rt command found (n + 1) items
        | .error _ => []
      else framesOf rt command found (n + 1) items

section Visible
variable {rt : Runtime} {channel command : String} {found : ℕ → Bool}

/-- A command without reply goes on with the next item. -/
theorem written_unanswered (n index : ℕ) (items : List Json) :
    written (drive (visible found) n (do
      let result ← awaitReply rt channel
      proceed rt channel command index items result)).events =
      written (drive (visible found) n (batch rt channel command (index + 1) items)).events := by
  rw [awaitReply_eq]
  simp only [Program.act_bind, drive]
  rw [written_skip rfl]
  have hopened : ((visible found) n (.call .redisNew)).2 = true := rfl
  rw [hopened, if_pos rfl]
  simp only [Program.act_bind, drive]
  rw [written_skip rfl]
  refine (written_proceed n index items noAnswer).trans ?_
  rw [entryOf_entry (r := noAnswer) trivial]

theorem written_visible (n index : ℕ) (items : List Json) :
    written (drive (visible found) n (batch rt channel command index items)).events =
      framesOf rt command found n items := by
  induction items generalizing n index with
  | nil => rfl
  | cons item items ih =>
      rw [written_cons]
      unfold framesOf
      simp only [visible]
      cases found n with
      | false =>
          have hentry := entryOf_entry (r := notConnected) trivial index
          simp only [Bool.false_eq_true, if_false, written_proceed, hentry, ih]
      | true =>
          simp only [if_true]
          unfold served
          cases hf : frame rt command (itemArgs item) with
          | some doc =>
              rw [send_frame hf, (document_of_frame hf).1]
              simp only [Program.act_bind, Program.done_bind, drive]
              refine congrArg (List.cons (0, doc)) ?_
              exact (written_unanswered (n + 1) index items).trans (ih (n + 1) (index + 1))
          | none =>
              rw [send_silent hf]
              cases document command (itemArgs item) with
              | error e => rfl
              | ok doc =>
                  exact (written_unanswered (n + 1) index items).trans (ih (n + 1) (index + 1))

theorem framesOf_skip {before : List Json} {n : ℕ}
    (h : ∀ i, n ≤ i → i < n + before.length → found i = false) (items : List Json) :
    framesOf rt command found n (before ++ items) =
      framesOf rt command found (n + before.length) items := by
  induction before generalizing n with
  | nil => rfl
  | cons item before ih =>
      simp only [List.length_cons] at h
      rw [List.cons_append, framesOf, h n (Nat.le_refl n) (by omega), if_neg Bool.false_ne_true, ih]
      · simp only [List.length_cons, Nat.add_assoc, Nat.add_comm 1]
      · exact fun i hlow hhigh => h i (by omega) (by omega)

theorem framesOf_none {n : ℕ} (h : ∀ i, n ≤ i → found i = false) (items : List Json) :
    framesOf rt command found n items = [] := by
  rw [← List.append_nil items, framesOf_skip (fun i hlow _ => h i hlow)]
  rfl

/-- If the device is found for one item only, the frame of this item is all that is
written. -/
theorem framesOf_only (before after : List Json) (item : Json) :
    framesOf rt command (fun i => i = before.length) 0 (before ++ item :: after) =
      (frame rt command (itemArgs item)).toList.map (fun doc => (0, doc)) := by
  rw [framesOf_skip (fun i _ hhigh => decide_eq_false (by omega)), Nat.zero_add, framesOf,
    decide_eq_true rfl, if_pos rfl, framesOf_none (fun i hlow => decide_eq_false (by omega))]
  cases hdoc : document command (itemArgs item) with
  | ok doc => simp
  | error e => simp [frame_of_error rt hdoc]

/-- If the device is found for two items of which the first makes no frame, the
frame of the second is written exactly if the first one does not end the batch. -/
theorem framesOf_later (before between after : List Json) {item later doc : Json}
    (hitem : frame rt command (itemArgs item) = none)
    (hlater : frame rt command (itemArgs later) = some doc) :
    framesOf rt command (fun i => i = before.length ∨ i = before.length + 1 + between.length) 0
      (before ++ item :: (between ++ later :: after)) = [(0, doc)] ↔
        Fits command (itemArgs item) := by
  rw [framesOf_skip (fun i _ hhigh => decide_eq_false (by omega)), Nat.zero_add, framesOf,
    decide_eq_true (.inl rfl), if_pos rfl, fits_iff]
  cases hdoc : document command (itemArgs item) with
  | error e => simp
  | ok made =>
      simp only [hitem, Option.toList_none, List.map_nil, List.nil_append]
      rw [framesOf_skip (fun i hlow hhigh => decide_eq_false (by omega)), framesOf,
        decide_eq_true (.inr rfl), if_pos rfl, (document_of_frame hlater).1, hlater]
      rw [framesOf_none (fun i hlow => decide_eq_false (by omega))]
      exact iff_of_true rfl ⟨made, rfl⟩

end Visible

section Requests
variable {rt : Runtime} {channel command body : String}

theorem events_place {σ : Type} (env : σ → (p : Prim sig) → σ × p.Resp) (s : σ) {place : Place}
    {fields : List (String × Json)} (hcommand : command ∉ commandsWithoutBody)
    (hbody : IsBody rt body (place.value (.obj fields))) :
    (drive env s (post rt channel command body)).events =
      (drive env s (batch rt channel command 0
        (place.before ++ .obj fields :: place.after))).events := by
  cases place with
  | whole =>
      rw [events_value env s hcommand hbody.1 hbody.2 (fun _ h => by cases h)]
      exact (events_one env s 0 _).symm
  | item before after => exact events_array env s hcommand hbody.1 hbody.2

/-- Requests with the same frames have them in these surroundings too. -/
theorem framesOf_same {body' : String} {place : Place} {fields fields' : List (String × Json)}
    (hcommand : command ∉ commandsWithoutBody)
    (hbody : IsBody rt body (place.value (.obj fields)))
    (hbody' : IsBody rt body' (place.value (.obj fields')))
    (same : SameFrames rt channel command body body') (found : ℕ → Bool) :
    framesOf rt command found 0 (place.before ++ .obj fields :: place.after) =
      framesOf rt command found 0 (place.before ++ .obj fields' :: place.after) := by
  have hsame := same ℕ (visible found) 0
  rw [events_place _ _ hcommand hbody, events_place _ _ hcommand hbody', written_visible,
    written_visible] at hsame
  exact hsame

end Requests

/-- Two orders of the keys of an object make the same frames exactly if the values
are in the same order, or neither order makes a frame and, in a batch, both or none
of them end it or no later item makes a frame. -/
theorem key_order_iff {rt : Runtime} {command body body' : String} (channel : String)
    {fields fields' : List (String × Json)} (hperm : fields.Perm fields') {place : Place}
    (hcommand : command ∉ commandsWithoutBody)
    (hbody : IsBody rt body (place.value (.obj fields)))
    (hbody' : IsBody rt body' (place.value (.obj fields'))) :
    SameFrames rt channel command body body' ↔
      fields.map Prod.snd = fields'.map Prod.snd ∨
      frame rt command (fields.map Prod.snd) = none ∧
      frame rt command (fields'.map Prod.snd) = none ∧
      ((Fits command (fields.map Prod.snd) ↔ Fits command (fields'.map Prod.snd)) ∨
        ∀ item ∈ place.after, frame rt command (itemArgs item) = none) := by
  constructor
  · intro same
    have hone := framesOf_same hcommand hbody hbody' same (fun i => i = place.before.length)
    rw [framesOf_only, framesOf_only] at hone
    cases hf : frame rt command (fields.map Prod.snd) with
    | some doc =>
        cases hf' : frame rt command (fields'.map Prod.snd) with
        | none => simp [itemArgs, hf, hf'] at hone
        | some doc' =>
            obtain rfl : doc = doc' := by simpa [itemArgs, hf, hf'] using hone
            exact .inl (args_of_frame (hperm.map Prod.snd) hf hf')
    | none =>
        cases hf' : frame rt command (fields'.map Prod.snd) with
        | some doc' => simp [itemArgs, hf, hf'] at hone
        | none =>
            refine .inr ⟨rfl, rfl, or_iff_not_imp_right.mpr (fun hlater => ?_)⟩
            obtain ⟨later, hmem, hframe⟩ : ∃ later ∈ place.after,
                frame rt command (itemArgs later) ≠ none := by simpa using hlater
            obtain ⟨doc, hdoc⟩ := Option.ne_none_iff_exists'.mp hframe
            obtain ⟨between, rest, hafter⟩ := List.append_of_mem hmem
            have htwo := framesOf_same hcommand hbody hbody' same (fun i =>
              i = place.before.length ∨ i = place.before.length + 1 + between.length)
            rw [hafter] at htwo
            have hfirst : _ ↔ Fits command (itemArgs (.obj fields)) :=
              framesOf_later place.before between rest hf hdoc
            have hsecond : _ ↔ Fits command (itemArgs (.obj fields')) :=
              framesOf_later place.before between rest hf' hdoc
            rw [htwo] at hfirst
            exact hfirst.symm.trans hsecond
  · rintro (hvalues | ⟨hf, hf', hrest⟩) σ env s
    · rw [events_place env s hcommand hbody, events_place env s hcommand hbody']
      refine written_before (fun s index => ?_) place.before s 0
      have hargs : itemArgs (.obj fields) = itemArgs (.obj fields') := hvalues
      rw [batch_cons, batch_cons, hargs]
    · rw [events_place env s hcommand hbody, events_place env s hcommand hbody']
      exact written_before (fun s index => written_exchange hf hf' hrest s index) place.before s 0

/-- Bodies for the name of a user, in both orders of the keys. -/
def orders : Runtime := Runtime.ofTable
  [("user, name", .obj [("user", .int 7), ("name", .str "Ana")]),
   ("name, user", .obj [("name", .str "Ana"), ("user", .int 7)]),
   ("user, flag", .arr [.obj [("user", .int 1), ("flag", .int 1)]]),
   ("flag, user", .arr [.obj [("flag", .int 1), ("user", .int 1)]])]

theorem strip_orders : strip "user, name" = "user, name" ∧ strip "name, user" = "name, user" ∧
    strip "user, flag" = "user, flag" ∧ strip "flag, user" = "flag, user" := by
  unfold strip
  decide

theorem key_order_equal : SameFrames orders "A" "enable_user" "user, flag" "flag, user" := by
  obtain ⟨-, -, hfirst, hsecond⟩ := strip_orders
  have hbody : IsBody orders "user, flag"
      ((Place.item [] []).value (.obj [("user", .int 1), ("flag", .int 1)])) :=
    isBody_of_strip hfirst (by decide) rfl
  have hbody' : IsBody orders "flag, user"
      ((Place.item [] []).value (.obj [("flag", .int 1), ("user", .int 1)])) :=
    isBody_of_strip hsecond (by decide) rfl
  exact (key_order_iff "A" (.swap _ _ _) (by decide) hbody hbody').mpr (.inl rfl)

/-- User 7 gets the name Ana, or user `"Ana"` gets the name 7. -/
theorem key_order_matters : ¬ SameFrames orders "A" "set_username" "user, name" "name, user" := by
  obtain ⟨hfirst, hsecond, -, -⟩ := strip_orders
  intro same
  have hframes := same ℕ (visible (fun _ => true)) 0
  have hbody : IsBody orders "user, name"
      (Place.whole.value (.obj [("user", .int 7), ("name", .str "Ana")])) :=
    isBody_of_strip hfirst (by decide) rfl
  have hbody' : IsBody orders "name, user"
      (Place.whole.value (.obj [("name", .str "Ana"), ("user", .int 7)])) :=
    isBody_of_strip hsecond (by decide) rfl
  rw [events_place _ _ (by decide) hbody, events_place _ _ (by decide) hbody', written_visible,
    written_visible] at hframes
  revert hframes
  decide

end EvoGw.KeyOrder
