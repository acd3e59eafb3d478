import Mathlib.Data.Set.Insert
import EvoGw.CommandCourses

/-!
# The number of a user

Six commands name a user of the device in the field `enrollid`. Five of them copy
the value they were given. `set_user_info` converts it to an integer, so a user
given as a string is set under a number and asked for, enabled and deleted under a
string; and strings that begin with the same number are one user when they are set
and different users otherwise. Only integers are named alike by all commands.
-/
namespace EvoGw.UserIdentity
open ThreadPrograms SoloRuns GatewayCalls JsonValues DevicesSender CommandDocuments
open CommandCourses

/-- The commands of one user, with any values for the other arguments. -/
inductive UserCommand (user : Json) : String → List Json → Prop
  | info : UserCommand user "user_info" [user]
  | set (name record : Json) : UserCommand user "set_user_info" [user, name, record]
  | delete : UserCommand user "delete_user" [user]
  | name : UserCommand user "username" [user]
  | rename (name : Json) : UserCommand user "set_username" [user, name]
  | enable (flag : Json) : UserCommand user "enable_user" [user, flag]

/-- The `enrollid` of a frame. `set_username` has it in the only element of its
`record`. -/
def enrollid : Json → Json
  | .obj fields =>
      match fields.lookup "enrollid", fields.lookup "record" with
      | some id, _ => id
      | none, some (.arr [.obj record]) => fetch record "enrollid"
      | none, _ => .null
  | _ => .null

/-- The command writes this frame to the socket, if the socket takes it. -/
def Writes (rt : Runtime) (w : Sock) (command : String) (args : List Json) (doc : Json) : Prop :=
  ∃ answers : (p : Prim sig) → p.Resp,
    written (drive (fun _ p => ((), answers p)) () (send rt (some w) command args)).events =
      [(w, doc)]

/-- Two frames of user commands have the same `enrollid` exactly if they are for
the same user. -/
def NamesUsers (rt : Runtime) (w : Sock) (users : Set Json) : Prop :=
  ∀ user ∈ users, ∀ user' ∈ users, ∀ command args command' args' doc doc',
    UserCommand user command args → UserCommand user' command' args' →
    Writes rt w command args doc → Writes rt w command' args' doc' →
    (enrollid doc = enrollid doc' ↔ user = user')

section Frames
variable {rt : Runtime} {w : Sock} {command : String} {args : List Json} {doc user : Json}

theorem writes_iff : Writes rt w command args doc ↔ frame rt command args = some doc := by
  unfold Writes
  simp only [written_send]
  constructor
  · rintro ⟨answers, h⟩
    cases hf : frame rt command args with
    | none =>
        rw [hf] at h
        cases h
    | some doc' =>
        rw [hf] at h
        simp only [taken] at h
        split_ifs at h
        cases h
        rfl
  · intro h
    rw [h]
    exact ⟨silentDevice w .written, rfl⟩

/-- The `enrollid` of `set_user_info` is the number of the user, that of the other
commands is the user as it was given. -/
theorem enrollid_frame (hcommand : UserCommand user command args)
    (h : frame rt command args = some doc) :
    enrollid doc = user ∨ command = "set_user_info" ∧ ∃ n, toI user = .ok n ∧
      enrollid doc = .int n := by
  have hdoc := (document_of_frame h).1
  cases hcommand with
  | set name record =>
      obtain ⟨make, hmake, hmade⟩ := document_made hdoc
      rw [lookup_setUserInfo] at hmake
      rw [← Option.some.inj hmake] at hmade
      obtain ⟨n, hn, rfl⟩ := fitsUser_ok hmade
      exact .inr ⟨rfl, n, hn, rfl⟩
  | _ =>
      cases hdoc
      exact .inl rfl

/-- All commands name an integer by itself. -/
theorem enrollid_int {n : ℤ} (hcommand : UserCommand (.int n) command args)
    (h : Writes rt w command args doc) : enrollid doc = .int n := by
  rcases enrollid_frame hcommand (writes_iff.mp h) with hid | ⟨-, m, hm, hid⟩
  · exact hid
  · cases hm
    exact hid

end Frames

/-- The commands name the users of a set alike, and different users differently,
under every runtime exactly if all of them are integers. -/
theorem names_users_iff {users : Set Json} (h : ∀ user ∈ users, user.IsName) :
    (∀ rt w, NamesUsers rt w users) ↔ ∀ user ∈ users, ∃ n, user = .int n := by
  constructor
  · intro names user huser
    cases user with
    | int n => exact ⟨n, rfl⟩
    | str s =>
        have hset : frame (Runtime.ofTable []) "set_user_info" [.str s, .null, .null] = some _ :=
          rfl
        have hinfo : frame (Runtime.ofTable []) "user_info" [.str s] = some _ := rfl
        have hids := (names (Runtime.ofTable []) 0 _ huser _ huser _ _ _ _ _ _
          (.set .null .null) .info (writes_iff.mpr hset) (writes_iff.mpr hinfo)).mpr rfl
        cases hids
    | _ => exact (h _ huser).elim
  · intro integers rt w user huser user' huser' command args command' args' doc doc' hc hc' hw hw'
    obtain ⟨n, rfl⟩ := integers user huser
    obtain ⟨n', rfl⟩ := integers user' huser'
    rw [enrollid_int hc hw, enrollid_int hc' hw']

theorem names_users_pair : NamesUsers (Runtime.ofTable []) 0 {.int 7, .int 8} := by
  have names : ∀ user ∈ ({.int 7, .int 8} : Set Json), user.IsName := by
    rintro user (rfl | rfl)
    · trivial
    · trivial
  refine (names_users_iff names).mpr ?_ _ _
  rintro user (rfl | rfl)
  · exact ⟨7, rfl⟩
  · exact ⟨8, rfl⟩

/-- User `"7"` is set under the number 7, like user `"07"`, and is deleted under the
string `"7"`. -/
theorem users_confused : ∃ set delete,
    Writes (Runtime.ofTable []) 0 "set_user_info" [.str "7", .str "Ana", .int 1] set ∧
    Writes (Runtime.ofTable []) 0 "set_user_info" [.str "07", .str "Ana", .int 1] set ∧
    Writes (Runtime.ofTable []) 0 "delete_user" [.str "7"] delete ∧
    enrollid set = .int 7 ∧ enrollid delete = .str "7" :=
  ⟨_, _, writes_iff.mpr rfl, writes_iff.mpr rfl, writes_iff.mpr rfl, rfl, rfl⟩

end EvoGw.UserIdentity
