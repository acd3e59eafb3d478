import EvoGw.ServerRoute

/-!
# `ApiCallService`

The client of the main application: `authenticate_user` posts a login and keeps
three headers of the answer, and `equipment` sends them along with a GET. The
programs run over HTTP requests instead of the calls of the gateway.

`URI(ENV['API_HOST']) + path` raises unless `API_HOST` is an HTTP URI with a host;
all these exceptions are one here. The paths are absolute, so nothing of a path in
`API_HOST` is left. A request that is not answered raises.
-/
namespace EvoGw.ApiCallService
open ThreadPrograms
open ServerRoute (strip)

/-- `URI(ENV['API_HOST'])`, which names no user; `secure` tells `https` from `http`. -/
structure HttpUri where
  secure : Bool
  hostname : String
  port : ℕ
  deriving DecidableEq

inductive Method where
  | post
  | get
  deriving DecidableEq

/-- A request with the connection it goes over; `secure` is `use_ssl`. -/
structure Request where
  method : Method
  secure : Bool
  hostname : String
  port : ℕ
  path : String
  form : List (String × String)
  headers : List (String × String)
  deriving DecidableEq

/-- `headers` is `to_hash`: lower case names, every one with all its values. -/
structure Response where
  body : Option String
  headers : List (String × List String)
  deriving DecidableEq

inductive ApiError where
  | badHost
  | network
  deriving DecidableEq

@[reducible] def http : Signature where
  Call := Request
  Resp := fun _ => Option Response
  Mutex := Empty
  Key := Empty
  Data := Empty
  Err := ApiError

abbrev HttpProgram := Program http

def apiHost (host : Option HttpUri) : HttpProgram HttpUri :=
  match host with
  | some uri => pure uri
  | none => .raise .badHost

def send (request : Request) : HttpProgram Response :=
  .act (.call request) (fun
    | some response => pure response
    | none => .raise .network)

structure Auth where
  uid : String
  accessToken : String
  client : String
  deriving DecidableEq

/-- `headers[name]&.first`. -/
def Response.header (res : Response) (name : String) : Option String :=
  (res.headers.lookup name).bind List.head?

/-- `value.to_s.strip.empty?`. -/
def blank (value : Option String) : Bool := strip (value.getD "") = ""

/-- `Net::HTTP.post_form`, which encrypts for an `https` URI. -/
def signIn (uri : HttpUri) (login password : String) : Request :=
  ⟨.post, uri.secure, uri.hostname, uri.port, "/v1/auth/sign_in",
    [("login", login), ("password", password)], []⟩

/-- `Net::HTTP.start(uri.hostname, uri.port)`, which does not encrypt. -/
def listing (uri : HttpUri) (auth : Auth) : Request :=
  ⟨.get, false, uri.hostname, uri.port, "/v1/equipamentos", [],
    [("uid", auth.uid), ("access-token", auth.accessToken), ("client", auth.client)]⟩

/-- What `authenticate_user` keeps of the answer. -/
def credentials (res : Response) : Option Auth :=
  if res.body.getD "" = "" then none else
    if blank (res.header "uid") || blank (res.header "access-token") ||
        blank (res.header "client") then none else
      some ⟨(res.header "uid").getD "", (res.header "access-token").getD "",
        (res.header "client").getD ""⟩

def authenticateUser (host : Option HttpUri) (login password : String) :
    HttpProgram (Option Auth) := do
  let uri ← apiHost host
  let res ← send (signIn uri login password)
  pure (credentials res)

def equipment (host : Option HttpUri) : HttpProgram (Option String) := do
  let auth ← authenticateUser host "admin" "diwbb00256"
  match auth with
  | none => pure (some "Erro na autenticação")
  | some auth => do
      let uri ← apiHost host
      let res ← send (listing uri auth)
      pure res.body

/-- The answer names the user: it has a body and these three values are the first
of their headers, none of them blank. -/
structure Authorizes (res : Response) (auth : Auth) : Prop where
  body : ∃ text, res.body = some text ∧ text ≠ ""
  uid : res.header "uid" = some auth.uid ∧ strip auth.uid ≠ ""
  token : res.header "access-token" = some auth.accessToken ∧ strip auth.accessToken ≠ ""
  client : res.header "client" = some auth.client ∧ strip auth.client ≠ ""

theorem strip_empty : strip "" = "" := by
  unfold strip
  rfl

theorem of_not_blank {value : Option String} (h : blank value = false) :
    value = some (value.getD "") ∧ strip (value.getD "") ≠ "" := by
  cases value with
  | none => simp [blank, strip_empty] at h
  | some text => exact ⟨rfl, of_decide_eq_false h⟩

theorem credentials_some {res : Response} {auth : Auth} (h : credentials res = some auth) :
    Authorizes res auth := by
  unfold credentials at h
  split_ifs at h with hbody hblank
  cases h
  simp only [Bool.or_eq_true, not_or, Bool.not_eq_true] at hblank
  obtain ⟨⟨huid, htoken⟩, hclient⟩ := hblank
  refine ⟨?_, of_not_blank huid, of_not_blank htoken, of_not_blank hclient⟩
  cases hb : res.body with
  | none => simp [hb] at hbody
  | some text => exact ⟨text, rfl, by simpa [hb] using hbody⟩

/-- The requests of `equipment` so far, with their answers. -/
inductive Requested (uri : HttpUri) : List (Event http) → Prop
  | nothing : Requested uri []
  | login (r : Option Response) : Requested uri [⟨.call (signIn uri "admin" "diwbb00256"), r⟩]
  | list {res : Response} {auth : Auth} (r : Option Response) : Authorizes res auth →
      Requested uri [⟨.call (signIn uri "admin" "diwbb00256"), some res⟩,
        ⟨.call (listing uri auth), r⟩]

theorem equipment_sent {uri : HttpUri} {tr : List (Event http)} {q : HttpProgram (Option String)}
    (h : Residual (equipment (some uri)) tr q) : Requested uri tr := by
  cases h with
  | nil p => exact .nothing
  | @cons _ _ r tr _ hrest =>
      cases r with
      | none =>
          rw [(hrest.of_finished trivial).1]
          exact .login none
      | some res =>
          change Residual (match credentials res with
            | none => pure (some "Erro na autenticação")
            | some auth => _) tr q at hrest
          cases hauth : credentials res with
          | none =>
              rw [hauth] at hrest
              rw [(hrest.of_finished trivial).1]
              exact .login _
          | some auth =>
              rw [hauth] at hrest
              have granted := credentials_some hauth
              cases hrest with
              | nil p => exact .login _
              | @cons _ _ r' tr _ hlast =>
                  have hfin : tr = [] := by
                    cases r' with
                    | none => exact (hlast.of_finished trivial).1
                    | some res' => exact (hlast.of_finished trivial).1
                  rw [hfin]
                  exact .list r' granted

def sampleHost : HttpUri := ⟨true, "api.local", 443⟩

def sampleAnswer : Response :=
  ⟨some "ok", [("uid", ["admin"]), ("access-token", ["t0"]), ("client", ["c0", "c1"])]⟩

/-- The sign-in and the listing, which nobody answers. -/
def sampleRun : List (Event http) :=
  [⟨.call (signIn sampleHost "admin" "diwbb00256"), some sampleAnswer⟩,
    ⟨.call (listing sampleHost ⟨"admin", "t0", "c0"⟩), none⟩]

theorem credentials_sample : credentials sampleAnswer = some ⟨"admin", "t0", "c0"⟩ := by
  have hstrip : strip "admin" = "admin" ∧ strip "t0" = "t0" ∧ strip "c0" = "c0" := by
    unfold strip
    exact ⟨rfl, rfl, rfl⟩
  have hbody : sampleAnswer.body = some "ok" := rfl
  have huid : sampleAnswer.header "uid" = some "admin" := rfl
  have htoken : sampleAnswer.header "access-token" = some "t0" := rfl
  have hclient : sampleAnswer.header "client" = some "c0" := rfl
  simp [credentials, hbody, huid, htoken, hclient, blank, hstrip]

theorem sampleRun_residual :
    Residual (equipment (some sampleHost)) sampleRun (.raise .network) := by
  refine .cons ?_
  change Residual (match credentials sampleAnswer with
    | none => pure (some "Erro na autenticação")
    | some auth => _) _ _
  rw [credentials_sample]
  exact .cons (.nil _)

end EvoGw.ApiCallService
