import EvoGw.GatewayCalls

/-!
# `Devices::Sender`

The command table of the readers. Every command builds one document and hands it
to `send_ws_command`, which swallows whatever the generator or the socket raise.
What is raised before that, a wrong number of arguments or a user value without
`to_i`, is not swallowed. An unknown command is only logged.
-/
namespace EvoGw.DevicesSender
open ThreadPrograms GatewayCalls JsonValues

def sendWsCommand (rt : Runtime) (ws : Option Sock) (doc : Json) : Code Unit :=
  (wsSend rt ws doc).rescue (fun _ => pure ())

/-- ASCII white space as `String#to_i` skips it. -/
def isSpace (c : Char) : Bool :=
  c = ' ' || c = '\t' || c = '\n' || c = '\x0b' || c = '\x0c' || c = '\r'

/-- Decimal digits with single underscores between them, up to the first other
character. -/
def scanDigits (acc : ℕ) : List Char → ℕ
  | [] => acc
  | c :: cs =>
      if c.isDigit then scanDigits (acc * 10 + (c.toNat - '0'.toNat)) cs else
        if c = '_' && cs.head?.any Char.isDigit then scanDigits acc cs else acc

def scanNumber (cs : List Char) : ℕ := if cs.head?.any Char.isDigit then scanDigits 0 cs else 0

/-- The marker `0d` of decimal literals is accepted and skipped. -/
def skipPrefix : List Char → List Char
  | '0' :: 'd' :: c :: cs => c :: cs
  | '0' :: 'D' :: c :: cs => c :: cs
  | cs => cs

/-- `String#to_i`. -/
def stringToI (s : String) : ℤ :=
  match s.toList.dropWhile isSpace with
  | '-' :: cs => -(scanNumber (skipPrefix cs) : ℤ)
  | '+' :: cs => scanNumber (skipPrefix cs)
  | cs => scanNumber (skipPrefix cs)

/-- `Float#to_i` truncates towards zero and refuses infinities. -/
def floatToI (bits : BitVec 64) : Except RubyError ℤ :=
  let exponent := (bits.toNat / 2 ^ 52) % 2 ^ 11
  let fraction := bits.toNat % 2 ^ 52
  let significand := if exponent = 0 then fraction else fraction + 2 ^ 52
  let magnitude : ℕ := if 1075 ≤ exponent then significand * 2 ^ (exponent - 1075)
    else significand / 2 ^ (1075 - max exponent 1)
  if exponent = 2047 then .error .floatDomainError
  else .ok (if bits.toNat < 2 ^ 63 then (magnitude : ℤ) else -(magnitude : ℤ))

/-- `value.to_i`. -/
def toI : Json → Except RubyError ℤ
  | .null => .ok 0
  | .int n => .ok n
  | .str s => .ok (stringToI s)
  | .float bits => floatToI bits
  | _ => .error .noMethodError

section Commands
variable (rt : Runtime) (ws : Option Sock)

def userList : Code Unit :=
  sendWsCommand rt ws (.obj [("cmd", .str "getuserlist"), ("stn", .bool true)])

def userInfo (user : Json) : Code Unit :=
  sendWsCommand rt ws (.obj [("cmd", .str "getuserinfo"), ("enrollid", user),
    ("backupnum", .int 10)])

def setUserInfo (user name record : Json) : Code Unit := do
  let enrollid ← lift (toI user)
  sendWsCommand rt ws (.obj [("cmd", .str "setuserinfo"), ("enrollid", .int enrollid),
    ("name", name), ("backupnum", .int 10), ("record", record)])

def deleteUser (user : Json) : Code Unit :=
  sendWsCommand rt ws (.obj [("cmd", .str "deleteuser"), ("enrollid", user),
    ("backupnum", .int 10)])

def getUsername (user : Json) : Code Unit :=
  sendWsCommand rt ws (.obj [("cmd", .str "getusername"), ("enrollid", user)])

def setUsername (user name : Json) : Code Unit :=
  sendWsCommand rt ws (.obj [("cmd", .str "setusername"), ("count", .int 1),
    ("record", .arr [.obj [("enrollid", user), ("name", name)]])])

def enableUser (user value : Json) : Code Unit :=
  sendWsCommand rt ws (.obj [("cmd", .str "enableuser"), ("enrollid", user), ("enflag", value)])

def cleanUser : Code Unit := sendWsCommand rt ws (.obj [("cmd", .str "cleanuser")])

def getNewLog : Code Unit :=
  sendWsCommand rt ws (.obj [("cmd", .str "getnewlog"), ("stn", .bool true)])

def getAllLog (initData endData : Json) : Code Unit :=
  sendWsCommand rt ws (.obj [("cmd", .str "getalllog"), ("stn", .bool true), ("from", initData),
    ("to", endData)])

def cleanLog : Code Unit := sendWsCommand rt ws (.obj [("cmd", .str "cleanlog")])

def initsys : Code Unit := sendWsCommand rt ws (.obj [("cmd", .str "initsys")])

def reboot : Code Unit := sendWsCommand rt ws (.obj [("cmd", .str "reboot")])

def cleanAdmin : Code Unit := sendWsCommand rt ws (.obj [("cmd", .str "cleanadmin")])

def setTime (time : Json) : Code Unit :=
  sendWsCommand rt ws (.obj [("cmd", .str "settime"), ("cloudtime", time)])

end Commands

/-- A lambda or method that takes exactly this many arguments after the socket. -/
def arity0 (p : Code Unit) : List Json → Code Unit
  | [] => p
  | _ => .raise .argumentError

def arity1 (p : Json → Code Unit) : List Json → Code Unit
  | [a] => p a
  | _ => .raise .argumentError

def arity2 (p : Json → Json → Code Unit) : List Json → Code Unit
  | [a, b] => p a b
  | _ => .raise .argumentError

def arity3 (p : Json → Json → Json → Code Unit) : List Json → Code Unit
  | [a, b, c] => p a b c
  | _ => .raise .argumentError

/-- `COMMANDS`. -/
def commands (rt : Runtime) (ws : Option Sock) : List (String × (List Json → Code Unit)) :=
  [("user_list", arity0 (userList rt ws)),
   ("user_info", arity1 (userInfo rt ws)),
   ("set_user_info", arity3 (setUserInfo rt ws)),
   ("delete_user", arity1 (deleteUser rt ws)),
   ("username", arity1 (getUsername rt ws)),
   ("set_username", arity2 (setUsername rt ws)),
   ("enable_user", arity2 (enableUser rt ws)),
   ("clean_user", arity0 (cleanUser rt ws)),
   ("get_new_log", arity0 (getNewLog rt ws)),
   ("get_all_log", arity2 (getAllLog rt ws)),
   ("clean_log", arity0 (cleanLog rt ws)),
   ("initsys", arity0 (initsys rt ws)),
   ("reboot", arity0 (reboot rt ws)),
   ("clean_admin", arity0 (cleanAdmin rt ws)),
   ("set_time", arity1 (setTime rt ws))]

/-- `Devices::Sender.send`. -/
def send (rt : Runtime) (ws : Option Sock) (command : String) (args : List Json) : Code Unit :=
  match (commands rt ws).lookup command with
  | some action => action args
  | none => pure ()

/-- What a command comes to: one document for the socket, an exception before it,
or nothing. -/
inductive Sends (rt : Runtime) (ws : Option Sock) : Code Unit → Prop
  | document (doc : Json) : Sends rt ws (sendWsCommand rt ws doc)
  | refused (e : RubyError) : Sends rt ws (.raise e)
  | unknown : Sends rt ws (.done ())

/-- The only thing a command does to its surroundings is to write to its socket. -/
def IsSend (ws : Option Sock) (p : Prim sig) : Prop := ∃ doc, p = .call (.wsSend ws doc)

section Sends
variable {rt : Runtime} {ws : Option Sock}

theorem sends_setUserInfo (user name record : Json) :
    Sends rt ws (setUserInfo rt ws user name record) := by
  unfold setUserInfo
  cases toI user with
  | ok n => exact .document _
  | error e => exact .refused e

theorem sends_arity0 {p : Code Unit} (hp : Sends rt ws p) (args : List Json) :
    Sends rt ws (arity0 p args) := by
  unfold arity0
  split
  · exact hp
  · exact .refused _

theorem sends_arity1 {p : Json → Code Unit} (hp : ∀ a, Sends rt ws (p a)) (args : List Json) :
    Sends rt ws (arity1 p args) := by
  unfold arity1
  split
  · exact hp _
  · exact .refused _

theorem sends_arity2 {p : Json → Json → Code Unit} (hp : ∀ a b, Sends rt ws (p a b))
    (args : List Json) : Sends rt ws (arity2 p args) := by
  unfold arity2
  split
  · exact hp _ _
  · exact .refused _

theorem sends_arity3 {p : Json → Json → Json → Code Unit} (hp : ∀ a b c, Sends rt ws (p a b c))
    (args : List Json) : Sends rt ws (arity3 p args) := by
  unfold arity3
  split
  · exact hp _ _ _
  · exact .refused _

theorem sends_commands {name : String} {action : List Json → Code Unit}
    (h : (name, action) ∈ commands rt ws) (args : List Json) : Sends rt ws (action args) := by
  simp only [commands, List.mem_cons, Prod.mk.injEq, List.not_mem_nil, or_false] at h
  obtain ⟨-, rfl⟩ | ⟨-, rfl⟩ | ⟨-, rfl⟩ | ⟨-, rfl⟩ | ⟨-, rfl⟩ | ⟨-, rfl⟩ | ⟨-, rfl⟩ | ⟨-, rfl⟩ |
    ⟨-, rfl⟩ | ⟨-, rfl⟩ | ⟨-, rfl⟩ | ⟨-, rfl⟩ | ⟨-, rfl⟩ | ⟨-, rfl⟩ | ⟨-, rfl⟩ := h
  · exact sends_arity0 (.document _) args
  · exact sends_arity1 (fun _ => .document _) args
  · exact sends_arity3 sends_setUserInfo args
  · exact sends_arity1 (fun _ => .document _) args
  · exact sends_arity1 (fun _ => .document _) args
  · exact sends_arity2 (fun _ _ => .document _) args
  · exact sends_arity2 (fun _ _ => .document _) args
  · exact sends_arity0 (.document _) args
  · exact sends_arity0 (.document _) args
  · exact sends_arity2 (fun _ _ => .document _) args
  · exact sends_arity0 (.document _) args
  · exact sends_arity0 (.document _) args
  · exact sends_arity0 (.document _) args
  · exact sends_arity0 (.document _) args
  · exact sends_arity1 (fun _ => .document _) args

theorem sends_send (command : String) (args : List Json) :
    Sends rt ws (send rt ws command args) := by
  unfold send
  split
  · rename_i action h
    obtain ⟨before, after, heq, -⟩ := List.lookup_eq_some_iff.mp h
    exact sends_commands (heq ▸ List.mem_append_right before List.mem_cons_self) args
  · exact .unknown

theorem uses_lift {A : Type} {ok : Prim sig → Prop} (e : Except RubyError A) :
    Uses ok (lift e) := by
  cases e <;> trivial

theorem uses_parse {ok : Prim sig → Prop} (text : String) : Uses ok (parse rt text) := by
  unfold parse
  split <;> trivial

theorem uses_redis {ok : Prim sig → Prop} (done : Bool) : Uses ok (redis done) := by
  cases done <;> trivial

theorem uses_generate {ok : Prim sig → Prop} (doc : Json) : Uses ok (generate rt doc) := by
  unfold generate
  split_ifs <;> trivial

theorem uses_wsSend (doc : Json) : Uses (IsSend ws) (wsSend rt ws doc) := by
  refine (uses_generate doc).bind (fun _ => ⟨⟨doc, rfl⟩, fun r => ?_⟩)
  cases r <;> trivial

theorem Sends.uses {p : Code Unit} (h : Sends rt ws p) : Uses (IsSend ws) p := by
  cases h with
  | document doc => exact (uses_wsSend doc).rescue (fun _ => trivial)
  | refused e => trivial
  | unknown => trivial

theorem IsSend.isCall {p : Prim sig} (h : IsSend ws p) : p.IsCall := by
  obtain ⟨doc, rfl⟩ := h
  trivial

end Sends

end EvoGw.DevicesSender
