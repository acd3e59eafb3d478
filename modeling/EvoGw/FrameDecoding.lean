import EvoGw.ThreadScripts

/-!
# What a device can tell from a frame

The command documents have no request number and no type besides their `cmd`. They
are nevertheless unambiguous: `decode` reads the command and its arguments off a
document, and finds them exactly if the command makes this document. Only the user of
`set_user_info` does not come back as it was given; it comes back as the number that
`to_i` makes of it. The answers to `reg` and `sendlog`, which go over the same socket,
decode to nothing.
-/
namespace EvoGw.FrameDecoding
open ThreadPrograms ThreadPools PoolTraces GatewayCalls JsonValues WebSocketHandler ServerRoute
open GatewayPool CommandDocuments ThreadScripts
open DevicesSender (toI)

/-- The fields of a document after its `cmd`. -/
def decodeFields : String → List (String × Json) → Option (String × List Json)
  | "getuserlist", [("stn", .bool true)] => some ("user_list", [])
  | "getuserinfo", [("enrollid", user), ("backupnum", .int 10)] => some ("user_info", [user])
  | "setuserinfo", [("enrollid", .int user), ("name", name), ("backupnum", .int 10),
      ("record", record)] => some ("set_user_info", [.int user, name, record])
  | "deleteuser", [("enrollid", user), ("backupnum", .int 10)] => some ("delete_user", [user])
  | "getusername", [("enrollid", user)] => some ("username", [user])
  | "setusername", [("count", .int 1),
      ("record", .arr [.obj [("enrollid", user), ("name", name)]])] =>
      some ("set_username", [user, name])
  | "enableuser", [("enrollid", user), ("enflag", value)] => some ("enable_user", [user, value])
  | "cleanuser", [] => some ("clean_user", [])
  | "getnewlog", [("stn", .bool true)] => some ("get_new_log", [])
  | "getalllog", [("stn", .bool true), ("from", initData), ("to", endData)] =>
      some ("get_all_log", [initData, endData])
  | "cleanlog", [] => some ("clean_log", [])
  | "initsys", [] => some ("initsys", [])
  | "reboot", [] => some ("reboot", [])
  | "cleanadmin", [] => some ("clean_admin", [])
  | "settime", [("cloudtime", time)] => some ("set_time", [time])
  | _, _ => none

def decode : Json → Option (String × List Json)
  | .obj (("cmd", .str word) :: fields) => decodeFields word fields
  | _ => none

/-- The arguments of a command as they come back. -/
def plain (command : String) (args : List Json) : List Json :=
  if command = "set_user_info" then
    match args with
    | user :: rest =>
        match toI user with
        | .ok n => .int n :: rest
        | .error _ => user :: rest
    | [] => []
  else args

theorem plain_of_ne {command : String} (h : command ≠ "set_user_info") (args : List Json) :
    plain command args = args := if_neg h

section Makers
variable {name : String} {args : List Json} {doc : Json}

theorem decode_fits0 {d : Json} (hname : name ≠ "set_user_info")
    (hd : decode d = some (name, [])) (h : fits0 d args = .ok doc) :
    decode doc = some (name, plain name args) := by
  rw [plain_of_ne hname]
  cases args with
  | nil =>
      cases h
      exact hd
  | cons _ _ => cases h

theorem decode_fits1 {d : Json → Json} (hname : name ≠ "set_user_info")
    (hd : ∀ a, decode (d a) = some (name, [a])) (h : fits1 d args = .ok doc) :
    decode doc = some (name, plain name args) := by
  rw [plain_of_ne hname]
  unfold fits1 at h
  split at h
  · cases h
    exact hd _
  · cases h

theorem decode_fits2 {d : Json → Json → Json} (hname : name ≠ "set_user_info")
    (hd : ∀ a b, decode (d a b) = some (name, [a, b])) (h : fits2 d args = .ok doc) :
    decode doc = some (name, plain name args) := by
  rw [plain_of_ne hname]
  unfold fits2 at h
  split at h
  · cases h
    exact hd _ _
  · cases h

theorem decode_fitsUser {d : ℤ → Json → Json → Json}
    (hd : ∀ n b c, decode (d n b c) = some ("set_user_info", [.int n, b, c]))
    (h : fitsUser d args = .ok doc) :
    decode doc = some ("set_user_info", plain "set_user_info" args) := by
  unfold fitsUser at h
  split at h
  · rename_i a b c
    cases hn : toI a with
    | error e =>
        rw [hn] at h
        cases h
    | ok n =>
        rw [hn] at h
        cases h
        simp only [plain, if_true, hn]
        exact hd n b c
  · cases h

end Makers

/-- Every entry of the table makes documents from which it can be read off. -/
theorem decode_made : ∀ entry ∈ documents, ∀ args doc, entry.2 args = .ok doc →
    decode doc = some (entry.1, plain entry.1 args) := by
  have none : ∀ {name : String} {d : Json}, name ≠ "set_user_info" →
      decode d = some (name, []) → ∀ args doc, fits0 d args = .ok doc →
      decode doc = some (name, plain name args) := fun hname hd _ _ => decode_fits0 hname hd
  have one : ∀ {name : String} {d : Json → Json}, name ≠ "set_user_info" →
      (∀ a, decode (d a) = some (name, [a])) → ∀ args doc, fits1 d args = .ok doc →
      decode doc = some (name, plain name args) := fun hname hd _ _ => decode_fits1 hname hd
  have two : ∀ {name : String} {d : Json → Json → Json}, name ≠ "set_user_info" →
      (∀ a b, decode (d a b) = some (name, [a, b])) → ∀ args doc, fits2 d args = .ok doc →
      decode doc = some (name, plain name args) := fun hname hd _ _ => decode_fits2 hname hd
  unfold documents
  simp only [List.forall_mem_cons]
  exact ⟨none (by decide) rfl, one (by decide) (fun _ => rfl),
    fun _ _ => decode_fitsUser (fun _ _ _ => rfl), one (by decide) (fun _ => rfl),
    one (by decide) (fun _ => rfl), two (by decide) (fun _ _ => rfl),
    two (by decide) (fun _ _ => rfl), none (by decide) rfl, none (by decide) rfl,
    two (by decide) (fun _ _ => rfl), none (by decide) rfl, none (by decide) rfl,
    none (by decide) rfl, none (by decide) rfl, one (by decide) (fun _ => rfl),
    List.forall_mem_nil _⟩

theorem mem_of_lookup {A : Type} {table : List (String × A)} {name : String} {a : A}
    (h : table.lookup name = some a) : (name, a) ∈ table := by
  obtain ⟨l₁, l₂, heq, -⟩ := List.lookup_eq_some_iff.mp h
  rw [heq]
  exact List.mem_append_right _ List.mem_cons_self

theorem decode_document {command : String} {args : List Json} {doc : Json}
    (h : document command args = .ok (some doc)) :
    decode doc = some (command, plain command args) := by
  obtain ⟨make, hmake, hmade⟩ := document_made h
  exact decode_made _ (mem_of_lookup hmake) args doc hmade

/-- What decodes is the document of the command it decodes to. -/
theorem document_of_decode {command : String} {args : List Json} {doc : Json}
    (h : decode doc = some (command, args)) : document command args = .ok (some doc) := by
  unfold decode at h
  split at h
  · unfold decodeFields at h
    split at h
    all_goals first
      | cases h
        rfl
      | cases h
  · cases h

/-- A command makes the same document of its arguments as they come back. -/
theorem document_plain (command : String) (args : List Json) :
    document command (plain command args) = document command args := by
  by_cases hname : command = "set_user_info"
  · subst hname
    cases args with
    | nil => rfl
    | cons user rest =>
        simp only [plain, if_true]
        cases hn : toI user with
        | error e => rfl
        | ok n =>
            rcases rest with _ | ⟨b, _ | ⟨c, _ | _⟩⟩
            · rfl
            · rfl
            · simp only [document, lookup_setUserInfo, fitsUser, hn]
              rfl
            · rfl
  · rw [plain_of_ne hname]

theorem document_iff_decode {command : String} {args : List Json} {doc : Json} :
    document command args = .ok (some doc) ↔ decode doc = some (command, plain command args) := by
  constructor
  · exact decode_document
  · intro h
    rw [← document_plain]
    exact document_of_decode h

/-- `send` of this command comes to write the document. -/
def CanWrite (rt : Runtime) (ws : Option Sock) (command : String) (args : List Json)
    (doc : Json) : Prop :=
  ∃ tr out r, Behaves (DevicesSender.send rt ws command args) tr out ∧
    ⟨.call (.wsSend ws doc), r⟩ ∈ tr

theorem canWrite_iff_decode {rt : Runtime} {ws : Option Sock} {command : String}
    {args : List Json} {doc : Json} : CanWrite rt ws command args doc ↔
      decode doc = some (command, plain command args) ∧ rt.generates doc = true := by
  rw [← document_iff_decode]
  constructor
  · rintro ⟨tr, out, r, h, hmem⟩
    cases hf : frame rt command args with
    | none =>
        rw [send_silent hf] at h
        rw [(finished_lift _).trace_nil h] at hmem
        cases hmem
    | some doc' =>
        rw [send_frame hf] at h
        obtain ⟨r', tr', rfl, rfl, -⟩ := h
        cases List.mem_singleton.mp hmem
        exact document_of_frame hf
  · rintro ⟨hdoc, hgen⟩
    have hf : frame rt command args = some doc := by
      simp only [frame, hdoc, hgen, if_true]
    refine ⟨[⟨.call (.wsSend ws doc), .written⟩], .ok (), .written, ?_, List.mem_singleton_self _⟩
    rw [send_frame hf]
    exact ⟨.written, [], rfl, rfl, rfl⟩

/-- `send` can write a document exactly if the document decodes to the command and
its arguments, and can be encoded. Calls that can write the same document have the
same command and the same arguments, as they come back. -/
theorem send_iff_decode (rt : Runtime) (ws : Option Sock) (command : String) (args : List Json)
    (doc : Json) :
    (CanWrite rt ws command args doc ↔
      decode doc = some (command, plain command args) ∧ rt.generates doc = true) ∧
    ∀ ws' command' args', CanWrite rt ws command args doc →
      CanWrite rt ws' command' args' doc →
      command' = command ∧ plain command' args' = plain command args := by
  refine ⟨canWrite_iff_decode, fun ws' command' args' h h' => ?_⟩
  have heq := (canWrite_iff_decode.mp h').1.symm.trans (canWrite_iff_decode.mp h).1
  exact Prod.mk.inj (Option.some.inj heq)

/-! ### Users given as text -/

section Decimals
open DevicesSender (isSpace scanDigits scanNumber skipPrefix stringToI)

/-- The text goes on with the number before it: by a digit, by an underscore and a
digit or, behind a lone zero, by the marker of a decimal literal and a digit. -/
def continues (zero : Bool) : List Char → Bool
  | [] => false
  | c :: cs => c.isDigit ||
      cs.head?.any Char.isDigit && (c = '_' || zero && (c = 'd' || c = 'D'))

theorem scanDigits_stop {zero : Bool} {rest : List Char} (h : continues zero rest = false)
    (acc : ℕ) : scanDigits acc rest = acc := by
  cases rest with
  | nil => rfl
  | cons c cs =>
      simp only [continues, Bool.or_eq_false_iff] at h
      obtain ⟨hdigit, hmarker⟩ := h
      have hunder : (decide (c = '_') && cs.head?.any Char.isDigit) = false := by
        cases hnext : cs.head?.any Char.isDigit with
        | false => simp
        | true =>
            rw [hnext, Bool.true_and, Bool.or_eq_false_iff] at hmarker
            simp [hmarker.1]
      rw [scanDigits, hdigit, hunder]
      rfl

theorem scanDigits_append {zero : Bool} {digits rest : List Char}
    (hdigits : ∀ c ∈ digits, c.isDigit = true) (h : continues zero rest = false) (acc : ℕ) :
    scanDigits acc (digits ++ rest) = Nat.ofDigitChars 10 digits acc := by
  induction digits generalizing acc with
  | nil => rw [List.nil_append, scanDigits_stop h, Nat.ofDigitChars_nil]
  | cons c digits ih =>
      obtain ⟨hc, hrest⟩ := List.forall_mem_cons.mp hdigits
      rw [List.cons_append, scanDigits, if_pos hc, ih hrest, Nat.ofDigitChars_cons, Nat.mul_comm]

/-- Nothing is skipped but a lone zero with a marker. -/
theorem skipPrefix_digits {digits rest : List Char} (hne : digits ≠ []) (hzero : digits ≠ ['0'])
    (hdigits : ∀ c ∈ digits, c.isDigit = true) :
    skipPrefix (digits ++ rest) = digits ++ rest := by
  have marked : ∀ {m : Char} {cs : List Char}, m.isDigit = false →
      digits ++ rest ≠ '0' :: m :: cs := by
    intro m cs hm heq
    rcases digits with _ | ⟨a, _ | ⟨b, digits⟩⟩
    · exact hne rfl
    · obtain ⟨rfl, -⟩ := List.cons.inj heq
      exact hzero rfl
    · obtain ⟨-, heq⟩ := List.cons.inj heq
      obtain ⟨rfl, -⟩ := List.cons.inj heq
      exact Bool.noConfusion ((hdigits b (by simp)).symm.trans hm)
  unfold skipPrefix
  split
  · rename_i heq
    exact absurd heq (marked (by decide))
  · rename_i heq
    exact absurd heq (marked (by decide))
  · rfl

theorem scanNumber_zero {rest : List Char} (h : continues true rest = false) :
    scanNumber (skipPrefix ('0' :: rest)) = 0 := by
  have skipped : ∀ {m c : Char} {cs : List Char}, m = 'd' ∨ m = 'D' → rest = m :: c :: cs →
      scanNumber (c :: cs) = 0 := by
    rintro m c cs hm rfl
    have hc : c.isDigit = false := by
      rcases hm with rfl | rfl <;> simpa [continues] using h
    simp [scanNumber, hc]
  unfold skipPrefix
  split
  · rename_i heq
    exact skipped (.inl rfl) (List.cons.inj heq).2
  · rename_i heq
    exact skipped (.inr rfl) (List.cons.inj heq).2
  · simp [scanNumber, scanDigits, scanDigits_stop h]

theorem isDigit_toDigits (n : ℕ) : ∀ c ∈ Nat.toDigits 10 n, c.isDigit = true :=
  fun _ hc => Nat.isDigit_of_mem_toDigits (by decide) (by decide) hc

theorem scanNumber_toDigits (n : ℕ) {rest : List Char}
    (h : continues (decide (n = 0)) rest = false) :
    scanNumber (skipPrefix (Nat.toDigits 10 n ++ rest)) = n := by
  by_cases hn : n = 0
  · subst hn
    exact scanNumber_zero h
  have hdigits := isDigit_toDigits n
  have hne : Nat.toDigits 10 n ≠ [] := Nat.toDigits_ne_nil
  have hzero : Nat.toDigits 10 n ≠ ['0'] := by
    intro heq
    have hread := Nat.ofDigitChars_ten_toDigits (n := n)
    rw [heq] at hread
    exact hn hread.symm
  rw [skipPrefix_digits hne hzero hdigits, scanNumber, scanDigits_append hdigits h,
    Nat.ofDigitChars_ten_toDigits]
  obtain ⟨c, cs, hcs⟩ := List.exists_cons_of_ne_nil hne
  have hc := hdigits c (by rw [hcs]; exact List.mem_cons_self)
  simp [hcs, hc]

theorem not_space_of_digit {c : Char} (h : c.isDigit = true) : isSpace c = false := by
  have hne : ∀ {d : Char}, d.isDigit = false → c ≠ d := by
    rintro d hd rfl
    exact Bool.noConfusion (h.symm.trans hd)
  simp [isSpace, hne]

/-- `to_i` reads a decimal number back, with white space before it and anything that
does not continue it behind it. -/
theorem stringToI_decimal (n : ℤ) {spaces rest : List Char}
    (hspaces : ∀ c ∈ spaces, isSpace c = true) (h : continues (decide (n = 0)) rest = false) :
    stringToI (String.ofList (spaces ++ ((toString n).toList ++ rest))) = n := by
  have hdrop : ∀ {c : Char} {cs : List Char}, isSpace c = false →
      (spaces ++ c :: cs).dropWhile isSpace = c :: cs := by
    intro c cs hc
    rw [List.dropWhile_append_of_pos hspaces, List.dropWhile_cons_of_neg (by simp [hc])]
  rw [stringToI, String.toList_ofList, Int.toString_eq_repr]
  cases n with
  | ofNat m =>
      have hrest : continues (decide (m = 0)) rest = false := by simpa using h
      have hscan := scanNumber_toDigits m hrest
      obtain ⟨c, cs, hcs⟩ := List.exists_cons_of_ne_nil (Nat.toDigits_ne_nil (n := m) (b := 10))
      have hc := isDigit_toDigits m c (by rw [hcs]; exact List.mem_cons_self)
      rw [Int.repr, Nat.repr, String.toList_ofList]
      rw [hcs, List.cons_append] at hscan ⊢
      rw [hdrop (not_space_of_digit hc)]
      split
      · rename_i heq
        cases heq
        cases hc
      · rename_i heq
        cases heq
        cases hc
      · exact congrArg Int.ofNat hscan
  | negSucc m =>
      have hminus : ("-" : String).toList = ['-'] := rfl
      rw [Int.repr, Nat.repr, String.toList_append, hminus, String.toList_ofList,
        List.append_assoc, List.singleton_append, hdrop (by decide)]
      have hrest : continues (decide (m + 1 = 0)) rest = false := by simpa using h
      exact congrArg (fun k : ℕ => -(k : ℤ)) (scanNumber_toDigits (m + 1) hrest)

/-- A user given as a decimal text is set under the number it starts with. -/
theorem set_user_decimal (rt : Runtime) (ws : Option Sock) (n : ℤ) {spaces rest : List Char}
    (hspaces : ∀ c ∈ spaces, isSpace c = true) (h : continues (decide (n = 0)) rest = false)
    (name record : Json) :
    DevicesSender.send rt ws "set_user_info"
        [.str (String.ofList (spaces ++ ((toString n).toList ++ rest))), name, record] =
      DevicesSender.send rt ws "set_user_info" [.int n, name, record] := by
  have hdoc : document "set_user_info"
      [.str (String.ofList (spaces ++ ((toString n).toList ++ rest))), name, record] =
      document "set_user_info" [.int n, name, record] := by
    rw [← document_plain]
    simp only [plain, if_true, toI, stringToI_decimal n hspaces h]
  rw [send_eq, send_eq, hdoc]

theorem set_user_decimal_padded :
    DevicesSender.send (Runtime.ofTable []) (some 0) "set_user_info" [.str " -12x", .null, .null] =
      DevicesSender.send (Runtime.ofTable []) (some 0) "set_user_info"
        [.int (-12), .null, .null] := by
  have hspaces : ∀ c ∈ [' '], isSpace c = true := by
    intro c hc
    rw [List.mem_singleton.mp hc]
    rfl
  have hstops : continues (decide ((-12 : ℤ) = 0)) ['x'] = false := rfl
  have htext : String.ofList ([' '] ++ ((toString (-12 : ℤ)).toList ++ ['x'])) = " -12x" := by
    decide
  have := set_user_decimal (Runtime.ofTable []) (some 0) (-12) hspaces hstops .null .null
  rwa [htext] at this

end Decimals

/-! ### What goes over a socket -/

/-- What a document tells about the thread that writes it: an answer to a device
decodes to nothing, a frame decodes to a command of the request or to the published
command. -/
def Told (rt : Runtime) : Kind → Json → Prop
  | .message _ _, doc => decode doc = none
  | .post _ command body, doc => ∃ args ∈ commandArgs rt command body,
      decode doc = some (command, plain command args)
  | .command _ text, doc => ∃ payload name, rt.parse text = some payload ∧
      fieldOf payload "cmd" = .str name ∧ decode doc = some (name, plain name
        (if (fieldOf payload "args").truthy then (fieldOf payload "args").splat else []))
  | _, _ => False

theorem exists_of_forall₂ {A B : Type} {R : A → B → Prop} {as : List A} {bs : List B}
    (h : List.Forall₂ R as bs) {a : A} (ha : a ∈ as) : ∃ b ∈ bs, R a b := by
  induction h with
  | nil => cases ha
  | cons hab _ ih =>
      rcases List.mem_cons.mp ha with rfl | ha
      · exact ⟨_, List.mem_cons_self, hab⟩
      · obtain ⟨b, hb, hR⟩ := ih ha
        exact ⟨b, List.mem_cons_of_mem _ hb, hR⟩

section Scripts
variable {rt : Runtime} {ws : Option Sock} {doc : Json} {d : Deed}

theorem decode_of_commandScript {command : String} {args : List Json}
    (hd : d ∈ commandScript command args) (h : d.is (.call (.wsSend ws doc))) :
    decode doc = some (command, plain command args) := by
  obtain ⟨doc', hdoc, rfl⟩ := List.mem_map.mp hd
  obtain ⟨ws', heq⟩ := h
  cases heq
  refine decode_document ?_
  rw [Option.mem_toList] at hdoc
  unfold docOf at hdoc
  split at hdoc
  · rename_i found hfound
    rw [hfound, Option.mem_def.mp hdoc]
  · cases hdoc

theorem decode_of_answerScript {message : Json} (hd : d ∈ answerScript message)
    (h : d.is (.call (.wsSend ws doc))) : decode doc = none := by
  unfold answerScript at hd
  split_ifs at hd
  · cases List.mem_singleton.mp hd
    obtain ⟨ws', time, heq⟩ := h
    cases heq
    rfl
  · cases List.mem_singleton.mp hd
    obtain ⟨ws', time, heq⟩ := h
    cases heq
    rfl
  · cases hd

theorem told_message {w : Sock} {data : String} (hd : d ∈ messageScript rt data)
    (h : d.is (.call (.wsSend ws doc))) : Told rt (.message w data) doc := by
  unfold messageScript at hd
  split at hd
  · cases hd
  rcases List.mem_append.mp hd with hd | hd
  · split_ifs at hd
    · cases List.mem_singleton.mp hd
      cases h
    · cases hd
  rcases List.mem_append.mp hd with hd | hd
  · exact decode_of_answerScript hd h
  · split_ifs at hd
    · cases List.mem_singleton.mp hd
      cases h
    · cases hd

theorem told_of_script {kind : Kind} (hd : d ∈ script rt kind)
    (h : d.is (.call (.wsSend ws doc))) : Told rt kind doc := by
  cases kind with
  | message w data => exact told_message hd h
  | post channel command body =>
      obtain ⟨args, hargs, hd⟩ := List.mem_flatMap.mp hd
      exact ⟨args, hargs, decode_of_commandScript hd h⟩
  | command sid text =>
      simp only [script, payloadScript] at hd
      split at hd
      · cases hd
      · rename_i payload hpayload
        split at hd
        · rename_i name hname
          exact ⟨payload, name, hpayload, hname, decode_of_commandScript hd h⟩
        · cases hd
  | opened w => cases hd
  | closed w => cases hd
  | disconnected sid => cases hd

end Scripts

/-- In every run, each document handed to a socket tells what it is: devices can tell
commands from answers, and a command names the request or payload that made it. -/
theorem write_told {rt : Runtime} {ls : List (Label (gateway rt))} {s : State (gateway rt)}
    (h : exec (boot rt) ls = some s) {t : Tid} {ws : Option Sock} {doc : Json} {r : Sent}
    (hlog : .called t (.wsSend ws doc) r ∈ s.log) :
    ∃ th, s.threads[t]? = some th ∧ Told rt th.kind doc := by
  have hevent : (⟨.call (.wsSend ws doc), r⟩ : Event sig) ∈ trace t s.log := trace_of_called hlog
  obtain ⟨th, ht⟩ := thread_of_trace h hevent
  obtain ⟨past, future, hpast, hsub, -⟩ := script_residual h ht
  have hdeed : (⟨.call (.wsSend ws doc), r⟩ : Event sig) ∈ deeds t s.log :=
    List.mem_filter.mpr ⟨hevent, rfl⟩
  obtain ⟨d, hd, his⟩ := exists_of_forall₂ hpast hdeed
  exact ⟨th, ht, told_of_script (hsub.subset (List.mem_append_left _ hd)) his⟩

/-- The frame of a request tells its command. -/
theorem write_told_request : ∃ args ∈ [([] : List Json)],
    decode (.obj [("cmd", .str "getuserlist"), ("stn", .bool true)]) =
      some ("user_list", plain "user_list" args) := by
  have h : exec (boot logs) logThenRequest = some (after logThenRequest) := rfl
  have hlog : .called 1 (.wsSend (some 0) (.obj [("cmd", .str "getuserlist"),
      ("stn", .bool true)])) Sent.written ∈ (after logThenRequest).log :=
    List.mem_of_getElem? (i := (after logThenRequest).log.length - 1) rfl
  obtain ⟨th, ht, told⟩ := write_told h hlog
  cases ht
  exact told

end EvoGw.FrameDecoding
