import EvoGw.ServerRoute

/-!
# The document of a command

`Devices::Sender.send` does three things: it looks the command up, checks its
arguments by calling the lambda, and writes one document. The first two depend
on the command and its arguments alone. `document` says what they come to: the
document of the command, nothing for a name that is not in the table, or the
exception of arguments that do not fit. A document that can be encoded makes a
frame. `send_frame` and `send_silent` give the code of `send` in these terms.
-/
namespace EvoGw.CommandDocuments
open ThreadPrograms GatewayCalls JsonValues DevicesSender ServerRoute

/-- A document made from exactly so many arguments. -/
def fits0 (doc : Json) : List Json → Except RubyError Json
  | [] => .ok doc
  | _ => .error .argumentError

def fits1 (doc : Json → Json) : List Json → Except RubyError Json
  | [a] => .ok (doc a)
  | _ => .error .argumentError

def fits2 (doc : Json → Json → Json) : List Json → Except RubyError Json
  | [a, b] => .ok (doc a b)
  | _ => .error .argumentError

/-- The user number of `set_user_info` is converted first. -/
def fitsUser (doc : ℤ → Json → Json → Json) : List Json → Except RubyError Json
  | [a, b, c] => (toI a).map (fun user => doc user b c)
  | _ => .error .argumentError

/-- What each command of the table makes of its arguments. -/
def documents : List (String × (List Json → Except RubyError Json)) :=
  [("user_list", fits0 (.obj [("cmd", .str "getuserlist"), ("stn", .bool true)])),
   ("user_info", fits1 (fun user => .obj [("cmd", .str "getuserinfo"), ("enrollid", user),
      ("backupnum", .int 10)])),
   ("set_user_info", fitsUser (fun user name record => .obj [("cmd", .str "setuserinfo"),
      ("enrollid", .int user), ("name", name), ("backupnum", .int 10), ("record", record)])),
   ("delete_user", fits1 (fun user => .obj [("cmd", .str "deleteuser"), ("enrollid", user),
      ("backupnum", .int 10)])),
   ("username", fits1 (fun user => .obj [("cmd", .str "getusername"), ("enrollid", user)])),
   ("set_username", fits2 (fun user name => .obj [("cmd", .str "setusername"), ("count", .int 1),
      ("record", .arr [.obj [("enrollid", user), ("name", name)]])])),
   ("enable_user", fits2 (fun user value => .obj [("cmd", .str "enableuser"), ("enrollid", user),
      ("enflag", value)])),
   ("clean_user", fits0 (.obj [("cmd", .str "cleanuser")])),
   ("get_new_log", fits0 (.obj [("cmd", .str "getnewlog"), ("stn", .bool true)])),
   ("get_all_log", fits2 (fun initData endData => .obj [("cmd", .str "getalllog"),
      ("stn", .bool true), ("from", initData), ("to", endData)])),
   ("clean_log", fits0 (.obj [("cmd", .str "cleanlog")])),
   ("initsys", fits0 (.obj [("cmd", .str "initsys")])),
   ("reboot", fits0 (.obj [("cmd", .str "reboot")])),
   ("clean_admin", fits0 (.obj [("cmd", .str "cleanadmin")])),
   ("set_time", fits1 (fun time => .obj [("cmd", .str "settime"), ("cloudtime", time)]))]

/-- The document of a command; `none` is an unknown command and an error is the
exception of arguments that do not fit. -/
def document (command : String) (args : List Json) : Except RubyError (Option Json) :=
  match documents.lookup command with
  | some make => (make args).map some
  | none => .ok none

/-- The frame of a command: its document, if it can be encoded. -/
def frame (rt : Runtime) (command : String) (args : List Json) : Option Json :=
  match document command args with
  | .ok (some doc) => if rt.generates doc then some doc else none
  | _ => none

/-- The number of arguments of each command. -/
def arities : List (String × ℕ) :=
  [("user_list", 0), ("user_info", 1), ("set_user_info", 3), ("delete_user", 1), ("username", 1),
   ("set_username", 2), ("enable_user", 2), ("clean_user", 0), ("get_new_log", 0),
   ("get_all_log", 2), ("clean_log", 0), ("initsys", 0), ("reboot", 0), ("clean_admin", 0),
   ("set_time", 1)]

/-- Whether `to_i` gives a number: `nil`, integers, strings and finite doubles. -/
def numeric : Json → Bool
  | .null => true
  | .int _ => true
  | .str _ => true
  | .float bits => (bits.toNat / 2 ^ 52) % 2 ^ 11 ≠ 2047
  | _ => false

/-- The arguments fit the command, if there is such a command: their number is
right, and the user of `set_user_info` has a number. -/
def Fits (command : String) (args : List Json) : Prop :=
  ∀ n, arities.lookup command = some n →
    args.length = n ∧ (command = "set_user_info" → numeric (args.headD .null) = true)

/-- How a command of the table makes its document: without arguments, from one or
two arguments of which the first stands in the document, or from the number of a
user. -/
inductive Shape (name : String) : (List Json → Except RubyError Json) → ℕ → Prop
  | none (doc : Json) : name ∈ commandsWithoutBody → Shape name (fits0 doc) 0
  | one (doc : Json → Json) : name ≠ "set_user_info" → (∀ a b, doc a = doc b → a = b) →
      Shape name (fits1 doc) 1
  | two (doc : Json → Json → Json) : name ≠ "set_user_info" →
      (∀ a a' b b', doc a a' = doc b b' → a = b) → Shape name (fits2 doc) 2
  | user (doc : ℤ → Json → Json → Json) : name = "set_user_info" → Shape name (fitsUser doc) 3

theorem shape_documents :
    List.Forall₂ (fun d a => d.1 = a.1 ∧ Shape d.1 d.2 a.2) documents arities := by
  have one : ∀ {name : String} {doc : Json → Json}, name ≠ "set_user_info" →
      (∀ a b, doc a = doc b → a = b) → name = name ∧ Shape name (fits1 doc) 1 :=
    fun hname hinj => ⟨rfl, .one _ hname hinj⟩
  have two : ∀ {name : String} {doc : Json → Json → Json}, name ≠ "set_user_info" →
      (∀ a a' b b', doc a a' = doc b b' → a = b) → name = name ∧ Shape name (fits2 doc) 2 :=
    fun hname hinj => ⟨rfl, .two _ hname hinj⟩
  have none : ∀ {name : String} {doc : Json}, name ∈ commandsWithoutBody →
      name = name ∧ Shape name (fits0 doc) 0 := fun hname => ⟨rfl, .none _ hname⟩
  unfold documents arities
  refine .cons (none (by decide)) <| .cons (one (by decide) ?_) <| .cons ⟨rfl, .user _ rfl⟩ <|
    .cons (one (by decide) ?_) <| .cons (one (by decide) ?_) <| .cons (two (by decide) ?_) <|
    .cons (two (by decide) ?_) <| .cons (none (by decide)) <| .cons (none (by decide)) <|
    .cons (two (by decide) ?_) <| .cons (none (by decide)) <| .cons (none (by decide)) <|
    .cons (none (by decide)) <| .cons (none (by decide)) <| .cons (one (by decide) ?_) .nil
  all_goals simp +contextual

/-- Two tables with the same names are read at the same entry. -/
theorem lookup_forall₂ {A B : Type} {R : String → A → B → Prop} {xs : List (String × A)}
    {ys : List (String × B)}
    (h : List.Forall₂ (fun x y => x.1 = y.1 ∧ R x.1 x.2 y.2) xs ys) (name : String) :
    (xs.lookup name = none ∧ ys.lookup name = none) ∨
    ∃ a b, xs.lookup name = some a ∧ ys.lookup name = some b ∧ R name a b := by
  induction h with
  | nil => exact .inl ⟨rfl, rfl⟩
  | @cons x y xs ys hxy _ ih =>
      obtain ⟨key, a⟩ := x
      obtain ⟨key', b⟩ := y
      obtain ⟨rfl, hR⟩ : key = key' ∧ R key a b := hxy
      simp only [List.lookup_cons]
      by_cases hname : name = key
      · subst hname
        exact .inr ⟨a, b, by simp, by simp, hR⟩
      · rw [beq_false_of_ne hname]
        exact ih

theorem lookup_shape {command : String} {make : List Json → Except RubyError Json}
    (h : documents.lookup command = some make) :
    ∃ n, arities.lookup command = some n ∧ Shape command make n := by
  rcases lookup_forall₂ shape_documents command with ⟨hnone, -⟩ | ⟨make', n, hmake, hn, shape⟩
  · cases hnone.symm.trans h
  · cases hmake.symm.trans h
    exact ⟨n, hn, shape⟩

theorem document_made {command : String} {args : List Json} {doc : Json}
    (h : document command args = .ok (some doc)) :
    ∃ make, documents.lookup command = some make ∧ make args = .ok doc := by
  unfold document at h
  split at h
  · rename_i make hmake
    cases hargs : make args with
    | error e =>
        rw [hargs] at h
        cases h
    | ok doc' =>
        rw [hargs] at h
        cases h
        exact ⟨make, hmake, hargs⟩
  · cases h

theorem lookup_setUserInfo : documents.lookup "set_user_info" =
    some (fitsUser (fun user name record => .obj [("cmd", .str "setuserinfo"),
      ("enrollid", .int user), ("name", name), ("backupnum", .int 10), ("record", record)])) := rfl

/-- What `set_user_info` makes, it makes from the number of its user. -/
theorem fitsUser_ok {make : ℤ → Json → Json → Json} {a b c doc : Json}
    (h : fitsUser make [a, b, c] = .ok doc) : ∃ n, toI a = .ok n ∧ doc = make n b c := by
  simp only [fitsUser] at h
  cases hn : toI a with
  | error e =>
      rw [hn] at h
      cases h
  | ok n =>
      rw [hn] at h
      cases h
      exact ⟨n, rfl, rfl⟩

/-- The exceptions of arguments that do not fit. -/
def Misfit (e : RubyError) : Prop :=
  e = .argumentError ∨ e = .noMethodError ∨ e = .floatDomainError

theorem toI_error {v : Json} {e : RubyError} (h : toI v = .error e) : Misfit e := by
  cases v with
  | float bits =>
      simp only [toI, floatToI] at h
      split_ifs at h
      cases h
      exact .inr (.inr rfl)
  | bool b =>
      cases h
      exact .inr (.inl rfl)
  | arr items =>
      cases h
      exact .inr (.inl rfl)
  | obj fields =>
      cases h
      exact .inr (.inl rfl)
  | _ => cases h

theorem Shape.error {name : String} {make : List Json → Except RubyError Json} {n : ℕ}
    (shape : Shape name make n) {args : List Json} {e : RubyError} (h : make args = .error e) :
    Misfit e := by
  cases shape with
  | none doc _ =>
      unfold fits0 at h
      split at h
      · cases h
      · cases h
        exact .inl rfl
  | one doc _ _ =>
      unfold fits1 at h
      split at h
      · cases h
      · cases h
        exact .inl rfl
  | two doc _ _ =>
      unfold fits2 at h
      split at h
      · cases h
      · cases h
        exact .inl rfl
  | user doc _ =>
      unfold fitsUser at h
      split at h
      · rename_i a _ _
        cases ha : toI a with
        | ok n =>
            rw [ha] at h
            cases h
        | error e' =>
            rw [ha] at h
            cases h
            exact toI_error ha
      · cases h
        exact .inl rfl

theorem document_error {command : String} {args : List Json} {e : RubyError}
    (h : document command args = .error e) : Misfit e := by
  unfold document at h
  split at h
  · rename_i make hmake
    cases hargs : make args with
    | ok doc =>
        rw [hargs] at h
        cases h
    | error e' =>
        rw [hargs] at h
        cases h
        obtain ⟨n, -, shape⟩ := lookup_shape hmake
        exact shape.error hargs
  · cases h

theorem toI_ok_iff {v : Json} : (∃ n, toI v = .ok n) ↔ numeric v = true := by
  cases v with
  | float bits =>
      simp only [toI, floatToI, numeric, decide_eq_true_eq]
      by_cases hinf : bits.toNat / 2 ^ 52 % 2 ^ 11 = 2047
      · rw [if_pos hinf]
        refine ⟨?_, fun h => absurd hinf h⟩
        rintro ⟨n, hn⟩
        cases hn
      · rw [if_neg hinf]
        exact ⟨fun _ => hinf, fun _ => ⟨_, rfl⟩⟩
  | _ => simp [toI, numeric]

theorem Shape.fits_iff {name : String} {make : List Json → Except RubyError Json} {n : ℕ}
    (shape : Shape name make n) (args : List Json) :
    (∃ doc, make args = .ok doc) ↔
      args.length = n ∧ (name = "set_user_info" → numeric (args.headD .null) = true) := by
  cases shape with
  | none doc hname =>
      have hne : name ≠ "set_user_info" := by
        rintro rfl
        exact absurd hname (by decide)
      match args with
      | [] => simp [fits0, hne]
      | _ :: _ => simp [fits0]
  | one doc hne _ =>
      match args with
      | [] => simp [fits1]
      | [_] => simp [fits1, hne]
      | _ :: _ :: _ => simp [fits1]
  | two doc hne _ =>
      match args with
      | [] => simp [fits2]
      | [_] => simp [fits2]
      | [_, _] => simp [fits2, hne]
      | _ :: _ :: _ :: _ => simp [fits2]
  | user doc hname =>
      match args with
      | [] => simp [fitsUser]
      | [_] => simp [fitsUser]
      | [_, _] => simp [fitsUser]
      | [a, b, c] =>
          simp only [fitsUser, List.length_cons, List.length_nil, hname, true_and, forall_const,
            List.headD_cons, ← toI_ok_iff]
          cases toI a <;> simp [Except.map]
      | _ :: _ :: _ :: _ :: _ => simp [fitsUser]

/-- Arguments that fit are those for which no exception is raised. -/
theorem fits_iff {command : String} {args : List Json} :
    Fits command args ↔ ∃ doc, document command args = .ok doc := by
  unfold Fits document
  rcases lookup_forall₂ shape_documents command with ⟨hmake, hn⟩ | ⟨make, n, hmake, hn, shape⟩
  · simp [hmake, hn]
  · simp only [hmake, hn, Option.some.injEq, forall_eq', ← shape.fits_iff]
    cases make args <;> simp [Except.map]

theorem not_fits {command : String} {args : List Json} {e : RubyError}
    (h : document command args = .error e) : ¬ Fits command args := by
  rw [fits_iff]
  rintro ⟨doc, hdoc⟩
  cases h.symm.trans hdoc

/-- The commands without a body take no arguments. -/
theorem document_bodyless {command : String} (h : command ∈ commandsWithoutBody) :
    ∃ doc, document command [] = .ok (some doc) := by
  simp only [commandsWithoutBody, List.mem_cons, List.not_mem_nil, or_false] at h
  rcases h with rfl | rfl | rfl | rfl | rfl | rfl | rfl <;> exact ⟨_, rfl⟩

theorem fits_bodyless {command : String} (h : command ∈ commandsWithoutBody) :
    Fits command [] := by
  obtain ⟨doc, hdoc⟩ := document_bodyless h
  exact fits_iff.mpr ⟨some doc, hdoc⟩

theorem document_of_frame {rt : Runtime} {command : String} {args : List Json} {doc : Json}
    (h : frame rt command args = some doc) :
    document command args = .ok (some doc) ∧ rt.generates doc = true := by
  unfold frame at h
  split at h
  · split_ifs at h with hgen
    cases h
    exact ⟨‹_›, hgen⟩
  · cases h

theorem frame_of_error {command : String} {args : List Json} {e : RubyError} (rt : Runtime)
    (h : document command args = .error e) : frame rt command args = none := by
  unfold frame
  rw [h]

section Send
variable {rt : Runtime} {ws : Option Sock}

/-- The lambda of a command that makes its document in this way. -/
def action (rt : Runtime) (ws : Option Sock) (make : List Json → Except RubyError Json)
    (args : List Json) : Code Unit :=
  match make args with
  | .ok doc => sendWsCommand rt ws doc
  | .error e => .raise e

theorem arity0_eq (doc : Json) :
    arity0 (sendWsCommand rt ws doc) = action rt ws (fits0 doc) := by
  funext args
  cases args <;> rfl

theorem arity1_eq (doc : Json → Json) :
    arity1 (fun a => sendWsCommand rt ws (doc a)) = action rt ws (fits1 doc) := by
  funext args
  match args with
  | [] => rfl
  | [_] => rfl
  | _ :: _ :: _ => rfl

theorem arity2_eq (doc : Json → Json → Json) :
    arity2 (fun a b => sendWsCommand rt ws (doc a b)) = action rt ws (fits2 doc) := by
  funext args
  match args with
  | [] => rfl
  | [_] => rfl
  | [_, _] => rfl
  | _ :: _ :: _ :: _ => rfl

theorem arity3_eq (doc : ℤ → Json → Json → Json) :
    arity3 (fun a b c => do
      let user ← lift (toI a)
      sendWsCommand rt ws (doc user b c)) = action rt ws (fitsUser doc) := by
  funext args
  match args with
  | [] => rfl
  | [_] => rfl
  | [_, _] => rfl
  | [a, b, c] =>
      simp only [arity3, action, fitsUser]
      cases toI a <;> rfl
  | _ :: _ :: _ :: _ :: _ => rfl

theorem commands_eq : commands rt ws =
    documents.map (fun e => (e.1, action rt ws e.2)) := by
  simp only [documents, List.map_cons, List.map_nil, ← arity0_eq, ← arity1_eq, ← arity2_eq,
    ← arity3_eq]
  rfl

theorem lookup_map {A B : Type} (f : A → B) (table : List (String × A)) (name : String) :
    (table.map (fun e => (e.1, f e.2))).lookup name = (table.lookup name).map f := by
  induction table with
  | nil => rfl
  | cons e table ih =>
      obtain ⟨key, a⟩ := e
      simp only [List.map_cons, List.lookup_cons]
      cases name == key with
      | true => rfl
      | false => exact ih

theorem send_eq (command : String) (args : List Json) :
    send rt ws command args =
      match document command args with
      | .ok (some doc) => sendWsCommand rt ws doc
      | .ok none => .done ()
      | .error e => .raise e := by
  unfold send document
  rw [commands_eq, lookup_map (action rt ws)]
  cases documents.lookup command with
  | none => rfl
  | some make =>
      simp only [Option.map_some, action]
      cases make args <;> rfl

/-- A document that can be encoded is handed to the socket once, whatever becomes
of it; one that cannot be is dropped. -/
theorem sendWsCommand_eq (doc : Json) :
    sendWsCommand rt ws doc =
      if rt.generates doc then .act (.call (.wsSend ws doc)) (fun _ => .done ()) else .done () := by
  unfold sendWsCommand wsSend generate
  split_ifs with h
  · refine congrArg (Program.act (S := sig) (.call (.wsSend ws doc))) (funext fun r => ?_)
    cases r <;> rfl
  · rfl

theorem send_frame {command : String} {args : List Json} {doc : Json}
    (h : frame rt command args = some doc) :
    send rt ws command args = .act (.call (.wsSend ws doc)) (fun _ => .done ()) := by
  obtain ⟨hdoc, hgen⟩ := document_of_frame h
  rw [send_eq, hdoc]
  exact (sendWsCommand_eq doc).trans (if_pos hgen)

theorem send_silent {command : String} {args : List Json}
    (h : frame rt command args = none) :
    send rt ws command args = lift ((document command args).map (fun _ => ())) := by
  unfold frame at h
  rw [send_eq]
  split at h
  · split_ifs at h with hgen
    rename_i hdoc
    rw [hdoc]
    exact (sendWsCommand_eq _).trans (if_neg hgen)
  · rename_i hdoc
    match hd : document command args with
    | .error e => rfl
    | .ok none => rfl
    | .ok (some doc) => exact absurd hd (hdoc doc)

end Send

end EvoGw.CommandDocuments
