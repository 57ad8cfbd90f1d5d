import Mathlib.Algebra.Group.Nat.Defs
import KeycloakOperator.Concurrency
import KeycloakOperator.Engine

/-!
# The client of the Admin API (`internal/keycloak/client.go`)

One `Client` is shared by all the passes that use a connection, so its calls run at the
same time.  The critical sections of `Token` and `invalidate` are operations, the token
request inside of the former included; an Admin request is another one, a call of
`http.Client.Do` with its final answer.  A body is a text of one-byte characters.

A call sends its request again only when the first attempt ended in `ErrAuth`.  The token
of the second attempt cannot be the rejected one that was in the cache: the call itself
has dropped it, and whoever filled the cache since then has got the token from a response
of that time.
-/

namespace KeycloakOperator

open Prog

/-! ### Configuration -/

/-- The grant used to obtain administration tokens. -/
inductive AuthType where
  | password | client
deriving DecidableEq, Repr

def defaultAdminRealm : String := "master"

def defaultAdminClientID : String := "admin-cli"

/-- How to reach and authenticate against a Keycloak server. -/
structure Config where
  connectionName : String := ""
  url : String
  adminRealm : String := ""
  auth : Option AuthType := none
  username : String := ""
  password : String := ""
  clientID : String := ""
  clientSecret : String := ""
  insecureSkipVerify : Bool := false
deriving DecidableEq, Repr

/-- The configuration of the client that `New` builds. -/
def Config.withDefaults (cfg : Config) : Config :=
  { cfg with
    adminRealm := if cfg.adminRealm = "" then defaultAdminRealm else cfg.adminRealm
    auth := some (cfg.auth.getD .password) }

/-! ### Errors -/

inductive RequestErrorKind where
  /-- `errors.Is(err, ErrNotFound)` -/
  | notFound
  /-- `errors.Is(err, ErrConflict)` -/
  | conflict
  /-- `errors.Is(err, ErrAuth)` -/
  | auth
  /-- an `APIError` -/
  | api (statusCode : Nat)
  | other
deriving DecidableEq, Repr

structure RequestError where
  kind : RequestErrorKind
  text : String
deriving DecidableEq, Repr

def errNotFound : String := "resource not found"

def errConflict : String := "resource conflict"

def errAuth : String := "authentication failed"

/-- `APIError`. -/
def apiError (statusCode : Nat) (method path body : String) : RequestError :=
  ⟨.api statusCode, "keycloak admin api " ++ method ++ " " ++ path ++ ": status " ++
    toString statusCode ++ ": " ++ body⟩

def truncate (body : String) : String :=
  if 512 < body.length then String.ofList (body.toList.take 512) ++ "..." else body

/-! ### The token -/

structure TokenRequest where
  url : String
  adminRealm : String
  form : FiniteMap String String
deriving DecidableEq

def Config.tokenForm (cfg : Config) : FiniteMap String String :=
  match cfg.auth with
  | some .client =>
      .ofList [("grant_type", "client_credentials"), ("client_id", cfg.clientID),
        ("client_secret", cfg.clientSecret)]
  | _ =>
      .ofList [("grant_type", "password"),
        ("client_id", if cfg.clientID = "" then defaultAdminClientID else cfg.clientID),
        ("username", cfg.username), ("password", cfg.password)]

def Config.tokenRequest (cfg : Config) : TokenRequest := ⟨cfg.url, cfg.adminRealm, cfg.tokenForm⟩

/-- The decoded body of a token response. -/
structure TokenResponse where
  accessToken : String := ""
  expiresIn : Int := 0
  error : String := ""
  errorDescription : String := ""
deriving DecidableEq, Repr

/-- What happened inside of the critical section of `Token`. -/
inductive TokenOutcome where
  /-- the cached token was still good -/
  | cached (token : String)
  /-- the request could not be built -/
  | unbuilt (err : String)
  /-- the request had no answer -/
  | unanswered (err : String)
  | answered (statusCode : Nat) (body : String) (parsed : Except String TokenResponse)
deriving DecidableEq, Repr

namespace TokenOutcome

/-- What `Token` returns. -/
def result : TokenOutcome → Except RequestError String
  | .cached token => .ok token
  | .unbuilt err => .error ⟨.other, "build token request: " ++ err⟩
  | .unanswered err => .error ⟨.other, "token request: " ++ err⟩
  | .answered statusCode body parsed =>
      if statusCode = 401 ∨ statusCode = 403 then
        .error ⟨.auth, errAuth ++ ": " ++ truncate body⟩
      else if statusCode ≠ 200 then .error (apiError statusCode "POST" "/token" body)
      else
        match parsed with
        | .error err => .error ⟨.other, "decode token response: " ++ err⟩
        | .ok response =>
            if response.accessToken ≠ "" then .ok response.accessToken
            else if response.error ≠ "" then
              .error ⟨.auth, errAuth ++ ": " ++ response.error ++ ": " ++
                response.errorDescription⟩
            else .error ⟨.auth, errAuth ++ ": empty access token"⟩

/-- The token that the response has brought, with its lifetime in seconds. -/
def granted : TokenOutcome → Option (String × Int)
  | .answered 200 _ (.ok response) =>
      if response.accessToken ≠ "" then some (response.accessToken, response.expiresIn) else none
  | _ => none

end TokenOutcome

theorem TokenOutcome.granted_of_result {outcome : TokenOutcome} {token : String}
    (h : outcome.result = .ok token) (hcached : ∀ token, outcome ≠ .cached token) :
    ∃ expiresIn, outcome.granted = some (token, expiresIn) := by
  cases outcome with
  | cached token => exact absurd rfl (hcached token)
  | unbuilt err => cases h
  | unanswered err => cases h
  | answered statusCode body parsed =>
    simp only [result] at h
    split at h
    · cases h
    split at h
    · cases h
    case isFalse hstatus =>
      obtain rfl : statusCode = 200 := by simpa using hstatus
      cases parsed with
      | error err => cases h
      | ok response =>
        simp only at h
        split at h
        case isTrue hne =>
          cases h
          exact ⟨response.expiresIn, if_pos hne⟩
        case isFalse => split at h <;> cases h

/-- The fields of a `Client` behind its mutex.  Times are in nanoseconds. -/
structure TokenCache where
  accessToken : String := ""
  tokenExpiry : Int := 0
deriving DecidableEq, Repr

namespace TokenCache

/-- The test at the start of `Token`. -/
def good (c : TokenCache) (now : Int) : Prop :=
  c.accessToken ≠ "" ∧ c.tokenExpiry - now > 30 * second

instance (c : TokenCache) (now : Int) : Decidable (c.good now) := inferInstanceAs (Decidable (_ ∧ _))

/-- What the token request leaves behind: a `time.Duration` has 64 bits. -/
def receive (c : TokenCache) (now : Int) (outcome : TokenOutcome) : TokenCache :=
  match outcome.granted with
  | some (token, expiresIn) => ⟨token, now + (expiresIn * second).bmod (2 ^ 64)⟩
  | none => c

/-- `invalidate`: the zero time is the first of January of the year 1. -/
def invalidated : TokenCache := ⟨"", -62135596800 * second⟩

end TokenCache

/-! ### Requests -/

/-- The arguments of `Do`: the body with the outcome of its encoding, and whether there is an
    `out` to decode the answer into.  `unbuilt` is the error of `http.NewRequestWithContext`. -/
structure AdminCall where
  method : String
  path : String
  body : Option (Except String String) := none
  out : Bool := false
  unbuilt : Option String := none

/-- What is sent. -/
structure HttpRequest where
  bearer : String
  method : String
  url : String
  body : Option String
deriving DecidableEq, Repr

/-- The answer to an Admin request; `decoded` is what `json.Unmarshal` makes of the body. -/
inductive AdminAnswer (V : Type) where
  | unanswered (err : String)
  | answered (statusCode : Nat) (body : String) (decoded : Except String V)

/-- The server has rejected the token. -/
def AdminAnswer.rejected : AdminAnswer V → Bool
  | .unanswered _ => false
  | .answered statusCode _ _ => decide (statusCode = 401 ∨ statusCode = 403)

inductive ClientOp where
  /-- the critical section of `Token` -/
  | token (request : TokenRequest)
  /-- the critical section of `invalidate` -/
  | invalidate
  /-- `http.Client.Do` of an Admin request -/
  | send (request : HttpRequest)
  /-- the metrics of `observeRequest` -/
  | observe (connection method code : String)
deriving DecidableEq

abbrev ClientOp.Answer (V : Type) : ClientOp → Type
  | .token _ => TokenOutcome
  | .invalidate => Unit
  | .send _ => AdminAnswer V
  | .observe _ _ _ => Unit

/-- The operations of a client whose answers are decoded into `V`. -/
abbrev clientOperations (V : Type) : Signature := ⟨ClientOp, ClientOp.Answer V⟩

/-- A call of a client. -/
abbrev ClientCall (V α : Type) : Type := Prog (clientOperations V) α

def ClientCall.perform (op : ClientOp) : ClientCall V (op.Answer V) :=
  Prog.perform (S := clientOperations V) op

/-- What `doOnce` returns for an answer. -/
def AdminCall.result (call : AdminCall) : AdminAnswer V → Except RequestError (Option V)
  | .unanswered err => .error ⟨.other, call.method ++ " " ++ call.path ++ ": " ++ err⟩
  | .answered statusCode body decoded =>
      if 200 ≤ statusCode ∧ statusCode < 300 then
        if call.out ∧ body ≠ "" then
          match decoded with
          | .ok v => .ok (some v)
          | .error err => .error ⟨.other, "decode response of " ++ call.method ++ " " ++
              call.path ++ ": " ++ err⟩
        else .ok none
      else if statusCode = 404 then
        .error ⟨.notFound, errNotFound ++ ": " ++ call.method ++ " " ++ call.path⟩
      else if statusCode = 409 then
        .error ⟨.conflict, errConflict ++ ": " ++ call.method ++ " " ++ call.path ++ ": " ++
          truncate body⟩
      else if statusCode = 401 ∨ statusCode = 403 then
        .error ⟨.auth, errAuth ++ ": " ++ call.method ++ " " ++ call.path ++ ": " ++
          truncate body⟩
      else .error (apiError statusCode call.method call.path body)

/-- The request for a bearer token. -/
def AdminCall.request (cfg : Config) (call : AdminCall) (bearer : String) :
    Except RequestError HttpRequest :=
  match call.body, call.unbuilt with
  | some (.error err), _ => .error ⟨.other, "encode request body: " ++ err⟩
  | _, some err => .error ⟨.other, "build request: " ++ err⟩
  | some (.ok body), none => .ok ⟨bearer, call.method, cfg.url ++ call.path, some body⟩
  | none, none => .ok ⟨bearer, call.method, cfg.url ++ call.path, none⟩

/-- One attempt. -/
def doOnce (cfg : Config) (call : AdminCall) :
    ClientCall V (Except RequestError (Option V)) := do
  match (← ClientCall.perform (.token cfg.tokenRequest)).result with
  | .error err => return .error err
  | .ok token =>
      match call.request cfg token with
      | .error err => return .error err
      | .ok request => return call.result (← ClientCall.perform (.send request))

/-- The status class under which a request is counted. -/
def statusClass : Except RequestError α → String
  | .ok _ => "2xx"
  | .error ⟨.notFound, _⟩ => "4xx"
  | .error ⟨.conflict, _⟩ => "4xx"
  | .error ⟨.auth, _⟩ => "4xx"
  | .error ⟨.api statusCode, _⟩ => if 500 ≤ statusCode then "5xx" else "4xx"
  | .error ⟨.other, _⟩ => "error"

def observeRequest (cfg : Config) (call : AdminCall) (result : Except RequestError (Option V)) :
    ClientCall V Unit :=
  if cfg.connectionName = "" then return ()
  else ClientCall.perform (.observe cfg.connectionName call.method (statusClass result))

/-- `errors.Is(err, ErrAuth)`. -/
def isErrAuth : Except RequestError α → Bool
  | .error err => decide (err.kind = .auth)
  | .ok _ => false

/-- `Client.Do`: the request is repeated once after a token refresh when the server rejects
    the credentials. -/
def doRequest (cfg : Config) (call : AdminCall) :
    ClientCall V (Except RequestError (Option V)) := do
  let first ← doOnce cfg call
  if !isErrAuth first then
    observeRequest cfg call first
    return first
  else
    ClientCall.perform .invalidate
    let second ← doOnce cfg call
    observeRequest cfg call second
    return second

/-! ### The shared client -/

/-- What the critical sections do to the token, at any time and with every answer of the
    token endpoint; the Admin API may answer a request in every way. -/
def SharedClient (V : Type) : Env (clientOperations V) TokenCache := fun op c answer c' =>
  match op, answer with
  | .token _, outcome => ∃ now later,
      (c.good now ∧ outcome = .cached c.accessToken ∧ c' = c) ∨
        (¬ c.good now ∧ (∀ token, outcome ≠ .cached token) ∧ c' = c.receive later outcome)
  | .invalidate, _ => c' = .invalidated
  | .send _, _ => c' = c
  | .observe _ _ _, _ => c' = c

/-! ### What one call does -/

/-- An operation of a call with its answer. -/
abbrev ClientExchange (V : Type) : Type := (op : ClientOp) × op.Answer V

namespace ClientExchange

/-- An Admin request. -/
def isRequest : ClientExchange V → Bool
  | ⟨.send _, _⟩ => true
  | _ => false

/-- An Admin request that was answered with 401 or 403. -/
def rejected : ClientExchange V → Bool
  | ⟨.send _, answer⟩ => answer.rejected
  | _ => false

/-- A token grant that failed with `ErrAuth`. -/
def refused : ClientExchange V → Bool
  | ⟨.token _, outcome⟩ => isErrAuth outcome.result
  | _ => false

/-- The bearer token of an Admin request. -/
def bearer : ClientExchange V → Option String
  | ⟨.send request, _⟩ => some request.bearer
  | _ => none

/-- The token that came with a token response. -/
def response : ClientExchange V → Option String
  | ⟨.token _, outcome⟩ => outcome.granted.map Prod.fst
  | _ => none

def isNote : ClientExchange V → Bool
  | ⟨.observe _ _ _, _⟩ => true
  | _ => false

end ClientExchange

/-- The operations of an attempt, complete or not, and whether it has ended in `ErrAuth`. -/
inductive Attempt {V : Type} : Bool → List (ClientExchange V) → Prop where
  | begun : Attempt false []
  | granted (request : TokenRequest) (outcome : TokenOutcome) :
      Attempt (isErrAuth outcome.result) [⟨.token request, outcome⟩]
  | sent (request : TokenRequest) (outcome : TokenOutcome) (http : HttpRequest)
      (answer : AdminAnswer V) (hbearer : outcome.result = .ok http.bearer) :
      Attempt answer.rejected [⟨.token request, outcome⟩, ⟨.send http, answer⟩]

/-- The operations of a call, complete or not. -/
inductive Attempts {V : Type} : List (ClientExchange V) → Prop where
  | once {ends : Bool} {first notes : List (ClientExchange V)} (hfirst : Attempt ends first)
      (hnotes : ∀ e ∈ notes, e.isNote = true) : Attempts (first ++ notes)
  | twice {ends : Bool} {first second notes : List (ClientExchange V)}
      (hfirst : Attempt true first) (hsecond : Attempt ends second)
      (hnotes : ∀ e ∈ notes, e.isNote = true) :
      Attempts (first ++ ⟨.invalidate, ()⟩ :: (second ++ notes))

theorem isErrAuth_result (call : AdminCall) (answer : AdminAnswer V) :
    isErrAuth (call.result answer) = answer.rejected := by
  cases answer with
  | unanswered err => rfl
  | answered statusCode body decoded =>
    simp only [AdminCall.result, AdminAnswer.rejected]
    split
    case isTrue hok =>
      have hnot : ¬ (statusCode = 401 ∨ statusCode = 403) := by omega
      rw [decide_eq_false hnot]
      split
      · cases decoded <;> rfl
      · rfl
    case isFalse =>
      split
      · next h => subst h; rfl
      split
      · next h => subst h; rfl
      split
      · next h => rw [decide_eq_true h]; rfl
      · next h => rw [decide_eq_false h]; rfl

section Call

variable {V : Type} {σ : Type} {env : Env (clientOperations V) σ} {cfg : Config} {call : AdminCall}
  {s : σ × List (Step (clientOperations V) σ)}

/-- An operation of a log with its answer. -/
def clientExchange (step : Step (clientOperations V) σ) : ClientExchange V := step.exchange

/-- The operations of a log with their answers. -/
def exchanges (log : List (Step (clientOperations V) σ)) : List (ClientExchange V) :=
  log.map clientExchange

theorem exchanges_logged {op : ClientOp} {answer : op.Answer V}
    {t : σ × List (Step (clientOperations V) σ)} (h : env.logged op s answer t) :
    exchanges t.2 = exchanges s.2 ++ [⟨op, answer⟩] := by
  rw [h.2, exchanges, List.map_append]
  rfl

theorem request_bearer {bearer : String} {request : HttpRequest}
    (h : call.request cfg bearer = .ok request) : request.bearer = bearer := by
  unfold AdminCall.request at h
  split at h <;> cases h <;> rfl

theorem request_error {bearer : String} {err : RequestError}
    (h : call.request cfg bearer = .error err) :
    isErrAuth (.error err : Except RequestError (Option V)) = false := by
  unfold AdminCall.request at h
  split at h <;> cases h <;> rfl

/-- An attempt adds its operations to the log. -/
theorem wp_doOnce {P : List (ClientExchange V) → Prop}
    {post : Except RequestError (Option V) → σ × List (Step (clientOperations V) σ) → Prop}
    (hP : ∀ ends attempt, Attempt ends attempt → P (exchanges s.2 ++ attempt))
    (hpost : ∀ result t attempt, Attempt (isErrAuth result) attempt →
      exchanges t.2 = exchanges s.2 ++ attempt → post result t) :
    wp env.logged (fun _ s => P (exchanges s.2)) (doOnce cfg call) post s := by
  refine ⟨by simpa using hP _ _ .begun, fun outcome t hstep => ?_⟩
  have htoken := exchanges_logged hstep
  have hattempt : Attempt (V := V) (isErrAuth outcome.result)
      [⟨.token cfg.tokenRequest, outcome⟩] := .granted _ _
  simp only [Prog.bind]
  cases hresult : outcome.result with
  | error err =>
    rw [hresult] at hattempt
    exact hpost _ _ _ hattempt htoken
  | ok bearer =>
    rw [hresult] at hattempt
    dsimp only
    cases hrequest : call.request cfg bearer with
    | error err => exact hpost _ _ _ (request_error (V := V) hrequest ▸ hattempt) htoken
    | ok request =>
      have hguard := hP _ _ hattempt
      rw [← htoken] at hguard
      refine ⟨hguard, fun answer u hstep => ?_⟩
      have hsend := exchanges_logged hstep
      have hsent : Attempt answer.rejected
          [⟨.token cfg.tokenRequest, outcome⟩, ⟨.send request, answer⟩] :=
        .sent _ _ _ _ (by rw [hresult, request_bearer hrequest])
      refine hpost _ _ _ (isErrAuth_result call answer ▸ hsent) ?_
      rw [hsend, htoken, List.append_assoc]
      rfl

theorem wp_observeRequest {P : List (ClientExchange V) → Prop}
    {result : Except RequestError (Option V)}
    (hP : ∀ notes, (∀ e ∈ notes, e.isNote = true) → P (exchanges s.2 ++ notes)) :
    wp env.logged (fun _ s => P (exchanges s.2)) (observeRequest cfg call result)
      (fun _ s => P (exchanges s.2)) s := by
  have hnone : P (exchanges s.2) := by simpa using hP [] (by simp)
  unfold observeRequest
  split
  · exact hnone
  · refine ⟨hnone, fun _ t hstep => ?_⟩
    have hnote := exchanges_logged hstep
    dsimp only [wp_ret]
    rw [wp_ret, hnote]
    exact hP _ (by simp [ClientExchange.isNote])

/-- The log of a call at each of its operations. -/
theorem wp_doRequest (hlog : exchanges s.2 = []) :
    wp env.logged (fun _ s => Attempts (exchanges s.2)) (doRequest (V := V) cfg call)
      (fun _ s => Attempts (exchanges s.2)) s := by
  have honce : ∀ {ends : Bool} {first : List (ClientExchange V)}, Attempt ends first →
      Attempts first := by
    intro ends first hfirst
    have hlog : Attempts (first ++ []) := .once hfirst (by simp)
    rwa [List.append_nil] at hlog
  have htwice : ∀ {ends : Bool} {first second : List (ClientExchange V)}, Attempt true first →
      Attempt ends second → Attempts (first ++ ⟨.invalidate, ()⟩ :: second) := by
    intro ends first second hfirst hsecond
    have hlog : Attempts (first ++ ⟨.invalidate, ()⟩ :: (second ++ [])) :=
      .twice hfirst hsecond (by simp)
    rwa [List.append_nil] at hlog
  apply wp_bind.mpr
  apply wp_doOnce
  · intro ends attempt hattempt
    rw [hlog, List.nil_append]
    exact honce hattempt
  intro first t attempt hfirst hfirstLog
  rw [hlog, List.nil_append] at hfirstLog
  cases hauth : isErrAuth first with
  | false =>
    simp only [Bool.not_false, if_true]
    apply wp_bind.mpr
    refine wp_mono (fun _ _ h => h) (wp_observeRequest fun notes hnotes => ?_)
    rw [hfirstLog]
    exact .once hfirst hnotes
  | true =>
    simp only [Bool.not_true, Bool.false_eq_true, if_false]
    rw [hauth] at hfirst
    have hguard := honce hfirst
    rw [← hfirstLog] at hguard
    refine ⟨hguard, fun _ u hstep => ?_⟩
    have hdropped := exchanges_logged hstep
    rw [hfirstLog] at hdropped
    refine (wp_bind (p := doOnce cfg call)).mpr (wp_doOnce ?_ ?_)
    · intro ends attempt hattempt
      rw [hdropped, List.append_assoc]
      exact htwice hfirst hattempt
    intro second v attempt' hsecond hsecondLog
    apply wp_bind.mpr
    refine wp_mono (fun _ _ h => h) (wp_observeRequest fun notes hnotes => ?_)
    have hcall := Attempts.twice hfirst hsecond hnotes
    rw [hsecondLog, hdropped]
    simpa only [List.append_assoc, List.singleton_append, List.cons_append, List.nil_append]
      using hcall

end Call

/-! ### The requests of one call -/

/-- A call sends no request, one, or two with the first one rejected and the token between
    them got after the call has dropped the rejected one. -/
inductive Requests {V : Type} : List (ClientExchange V) → Prop where
  | none {log : List (ClientExchange V)} (h : ∀ e ∈ log, e.isRequest = false) : Requests log
  | one (first : List (ClientExchange V)) (e : ClientExchange V) (rest : List (ClientExchange V))
      (hfirst : ∀ e ∈ first, e.isRequest = false) (he : e.isRequest = true)
      (hrest : ∀ e ∈ rest, e.isRequest = false)
      (hauth : ⟨.invalidate, ()⟩ ∈ first → ∃ e ∈ first, e.refused = true) :
      Requests (first ++ e :: rest)
  | two (first : List (ClientExchange V)) (a b : ClientExchange V) (rest : List (ClientExchange V))
      {request : TokenRequest} {outcome : TokenOutcome} (hfirst : ∀ e ∈ first, e.isRequest = false)
      (hnew : ⟨.invalidate, ()⟩ ∉ first) (ha : a.rejected = true) (hb : b.isRequest = true)
      (hrest : ∀ e ∈ rest, e.isRequest = false)
      (hbearer : ∀ bearer, b.bearer = some bearer → outcome.result = .ok bearer) :
      Requests (first ++ a :: ([⟨.invalidate, ()⟩, ⟨.token request, outcome⟩] ++ b :: rest))

@[simp] theorem isRequest_token (request : TokenRequest) (outcome : TokenOutcome) :
    ClientExchange.isRequest (V := V) ⟨.token request, outcome⟩ = false := rfl

@[simp] theorem isRequest_invalidate (answer : Unit) :
    ClientExchange.isRequest (V := V) ⟨.invalidate, answer⟩ = false := rfl

theorem ClientExchange.isRequest_of_rejected {e : ClientExchange V} (h : e.rejected = true) :
    e.isRequest = true := by
  obtain ⟨op, answer⟩ := e
  cases op <;> first | rfl | cases h

theorem isRequest_of_isNote {notes : List (ClientExchange V)}
    (h : ∀ e ∈ notes, e.isNote = true) : ∀ e ∈ notes, e.isRequest = false := by
  rintro ⟨op, answer⟩ he
  have hnote := h _ he
  cases op <;> first | rfl | cases hnote

theorem Attempts.requests {log : List (ClientExchange V)} (h : Attempts log) : Requests log := by
  cases h with
  | once hfirst hnotes =>
    have hnotes := isRequest_of_isNote hnotes
    cases hfirst with
    | begun => exact .none hnotes
    | granted request outcome =>
      refine .none (List.forall_mem_append.mpr ⟨?_, hnotes⟩)
      simp
    | sent request outcome http answer hbearer =>
      refine .one [⟨.token request, outcome⟩] _ _ ?_ rfl hnotes ?_
      · simp
      · intro hmem
        simp at hmem
  | @twice _ first second notes hfirst hsecond hnotes =>
    have hnotes := isRequest_of_isNote hnotes
    generalize hends : true = ends at hfirst
    cases hfirst with
    | begun => cases hends
    | granted request outcome =>
      cases hsecond with
      | begun => exact .none (by simpa using hnotes)
      | granted request' outcome' => exact .none (by simpa using hnotes)
      | sent request' outcome' http answer hbearer =>
        refine .one [⟨.token request, outcome⟩, ⟨.invalidate, ()⟩, ⟨.token request', outcome'⟩] _ _
          (by simp) rfl hnotes fun _ => ?_
        exact ⟨⟨.token request, outcome⟩, List.mem_cons_self, hends.symm⟩
    | sent request outcome http answer hbearer =>
      have hfirst : ∀ e ∈ [(⟨.token request, outcome⟩ : ClientExchange V)],
          ClientExchange.isRequest e = false := by simp
      cases hsecond with
      | begun =>
        refine .one [⟨.token request, outcome⟩] ⟨.send http, answer⟩ (⟨.invalidate, ()⟩ :: notes)
          hfirst rfl ?_ fun hmem => ?_
        · exact List.forall_mem_cons.mpr ⟨rfl, hnotes⟩
        · simp at hmem
      | granted request' outcome' =>
        refine .one [⟨.token request, outcome⟩] ⟨.send http, answer⟩
          (⟨.invalidate, ()⟩ :: ⟨.token request', outcome'⟩ :: notes) hfirst rfl ?_ fun hmem => ?_
        · exact List.forall_mem_cons.mpr ⟨rfl, List.forall_mem_cons.mpr ⟨rfl, hnotes⟩⟩
        · simp at hmem
      | sent request' outcome' http' answer' hbearer' =>
        refine .two [⟨.token request, outcome⟩] ⟨.send http, answer⟩ ⟨.send http', answer'⟩ notes
          hfirst (by simp) hends.symm rfl hnotes fun bearer hb => ?_
        rw [hbearer']
        exact congrArg _ (Option.some.inj hb)

/-- A list that has been split at a request, split at another one. -/
theorem split_request {first rest pre post : List (ClientExchange V)} {a e : ClientExchange V}
    (h : first ++ a :: rest = pre ++ e :: post) (hfirst : ∀ e ∈ first, e.isRequest = false)
    (he : e.isRequest = true) :
    (pre = first ∧ e = a ∧ post = rest) ∨
      ∃ more, pre = first ++ a :: more ∧ rest = more ++ e :: post := by
  rcases List.append_eq_append_iff.mp h with ⟨more, rfl, hmore⟩ | ⟨more, rfl, hmore⟩
  · rcases more with _ | ⟨x, more⟩
    · cases hmore
      exact .inl ⟨by simp, rfl, rfl⟩
    · cases hmore
      exact .inr ⟨more, rfl, rfl⟩
  · rcases more with _ | ⟨x, more⟩
    · cases hmore
      exact .inl ⟨by simp, rfl, rfl⟩
    · cases hmore
      have hnot := hfirst e (by simp)
      rw [he] at hnot
      cases hnot

namespace Requests

variable {V : Type} {log : List (ClientExchange V)}

theorem filter_eq_nil {P : ClientExchange V → Bool} (hP : ∀ e, P e = true → e.isRequest = true)
    (h : ∀ e ∈ log, e.isRequest = false) : log.filter P = [] := by
  rw [List.filter_eq_nil_iff]
  intro e he hPe
  have hnot := h e he
  rw [hP e hPe] at hnot
  cases hnot

theorem length_le (h : Requests log) : (log.filter (·.isRequest)).length ≤ 2 := by
  cases h with
  | none h => simp [filter_eq_nil (fun _ h => h) h]
  | one first e rest hfirst he hrest =>
    simp [filter_eq_nil (fun _ h => h) hfirst, filter_eq_nil (fun _ h => h) hrest, he]
  | two first a b rest hfirst hnew ha hb hrest =>
    have ha := ClientExchange.isRequest_of_rejected ha
    simp [filter_eq_nil (fun _ h => h) hfirst, filter_eq_nil (fun _ h => h) hrest, ha, hb]

theorem accepted_le (h : Requests log) :
    (log.filter fun e => e.isRequest && !e.rejected).length ≤ 1 := by
  have hrequest : ∀ e : ClientExchange V, (e.isRequest && !e.rejected) = true →
      e.isRequest = true := fun e he => (Bool.and_eq_true_iff.mp he).1
  cases h with
  | none h => simp [filter_eq_nil hrequest h]
  | one first e rest hfirst he hrest =>
    rw [List.filter_append, filter_eq_nil hrequest hfirst, List.filter_cons,
      filter_eq_nil hrequest hrest]
    split <;> simp
  | two first a b rest hfirst hnew ha hb hrest =>
    rw [List.filter_append, filter_eq_nil hrequest hfirst, List.filter_cons, List.filter_append,
      List.filter_cons (x := b), filter_eq_nil hrequest hrest]
    simp only [ha, isRequest_invalidate, isRequest_token, List.filter_cons, Bool.not_true,
      Bool.and_false, Bool.false_and, Bool.false_eq_true, if_false, List.filter_nil,
      List.nil_append]
    split <;> simp

theorem not_isRequest {e : ClientExchange V} {before after : List (ClientExchange V)}
    (h : ∀ a ∈ before ++ e :: after, a.isRequest = false) : e.isRequest ≠ true := by
  rw [h e (by simp)]
  exact Bool.false_ne_true

/-- What has happened before a request. -/
theorem before (h : Requests log) {first rest : List (ClientExchange V)} {e : ClientExchange V}
    (hlog : log = first ++ e :: rest) (he : e.isRequest = true) :
    (∀ a ∈ first, a.isRequest = true → a.rejected = true) ∧
      (⟨.invalidate, ()⟩ ∈ first → ∃ a ∈ first, a.rejected = true ∨ a.refused = true) := by
  have hnone : ∀ {list : List (ClientExchange V)}, (∀ e ∈ list, e.isRequest = false) →
      ∀ a ∈ list, a.isRequest = true → a.rejected = true := by
    intro list hlist a ha hrequest
    rw [hlist a ha] at hrequest
    cases hrequest
  cases h with
  | none h => exact absurd he (not_isRequest (hlog ▸ h))
  | one _ _ _ hfirst _ hrest hauth =>
    rcases split_request hlog hfirst he with ⟨rfl, rfl, rfl⟩ | ⟨more, -, rfl⟩
    · refine ⟨hnone hfirst, fun hmem => ?_⟩
      obtain ⟨a, ha, hrefused⟩ := hauth hmem
      exact ⟨a, ha, .inr hrefused⟩
    · exact absurd he (not_isRequest hrest)
  | two first' a b rest' hfirst hnew ha hb hrest hbearer =>
    rcases split_request hlog hfirst he with ⟨rfl, rfl, rfl⟩ | ⟨more, rfl, hmore⟩
    · exact ⟨hnone hfirst, fun hmem => absurd hmem hnew⟩
    rcases split_request hmore (by simp) he with ⟨rfl, rfl, rfl⟩ | ⟨more', -, rfl⟩
    · refine ⟨?_, fun _ => ⟨a, by simp, .inl ha⟩⟩
      refine List.forall_mem_append.mpr ⟨hnone hfirst, List.forall_mem_cons.mpr ⟨fun _ => ha, ?_⟩⟩
      exact hnone (by simp)
    · exact absurd he (not_isRequest hrest)

/-- Between a rejected request and a later one the call has dropped the token and got
    another one. -/
theorem between (h : Requests log) {first middle rest : List (ClientExchange V)}
    {a b : ClientExchange V} {bearer : String} (hlog : log = first ++ a :: (middle ++ b :: rest))
    (ha : a.rejected = true) (hb : b.bearer = some bearer) :
    ∃ request outcome, middle = [⟨.invalidate, ()⟩, ⟨.token request, outcome⟩] ∧
      outcome.result = .ok bearer := by
  have harequest := ClientExchange.isRequest_of_rejected ha
  have hbrequest : b.isRequest = true := by
    obtain ⟨op, answer⟩ := b
    cases op <;> first | rfl | cases hb
  cases h with
  | none h => exact absurd harequest (not_isRequest (hlog ▸ h))
  | one _ _ _ hfirst _ hrest _ =>
    rcases split_request hlog hfirst harequest with ⟨rfl, rfl, rfl⟩ | ⟨more, -, rfl⟩
    · exact absurd hbrequest (not_isRequest hrest)
    · exact absurd harequest (not_isRequest hrest)
  | @two first' a' b' rest' request outcome hfirst hnew ha' hb' hrest hbearer =>
    rcases split_request hlog hfirst harequest with ⟨rfl, rfl, hmiddle⟩ | ⟨more, -, hmore⟩
    · rcases split_request hmiddle.symm (by simp) hbrequest with ⟨rfl, rfl, rfl⟩ | ⟨more, -, rfl⟩
      · exact ⟨request, outcome, rfl, hbearer bearer hb⟩
      · exact absurd hbrequest (not_isRequest hrest)
    · rcases split_request hmore (by simp) harequest with ⟨rfl, rfl, rfl⟩ | ⟨more', -, rfl⟩
      · exact absurd hbrequest (not_isRequest hrest)
      · exact absurd harequest (not_isRequest hrest)

end Requests

/-! ### Every interleaving -/

section Interleaved

variable {V ι : Type} [DecidableEq ι] {cfg : Config} {calls : ι → AdminCall}
  {programs left : ι → ClientCall V (Except RequestError (Option V))} {c c' : TokenCache}
  {events : List (Event ι (clientOperations V) TokenCache)}

/-- Time passes and the server answers; nobody else touches the client. -/
abbrev Calls (programs : ι → ClientCall V (Except RequestError (Option V))) (c : TokenCache)
    (events : List (Event ι (clientOperations V) TokenCache))
    (left : ι → ClientCall V (Except RequestError (Option V))) (c' : TokenCache) : Prop :=
  Interleaving (SharedClient V) (fun _ _ => False) programs c events left c'

theorem requests_own (h : Calls (fun i => doRequest cfg (calls i)) c events left c') (i : ι) :
    Requests (exchanges (own i events)) := by
  obtain ⟨steps, u, hleaves, -, hsame⟩ :=
    h.leaves (fun _ _ => True) (fun _ _ _ => trivial) (fun _ _ => trivial) i
  obtain ⟨more, hlogged⟩ := hleaves.exec_cut.logged []
  let attempts (s : TokenCache × List (Step (clientOperations V) TokenCache)) : Prop :=
    Attempts (exchanges s.2)
  have hattempts : attempts (u, [] ++ steps) :=
    wp_invariant (fun _ _ h => h) (fun _ _ h => h) (wp_doRequest rfl) hlogged
  simp only [attempts] at hattempts
  rw [List.nil_append, show exchanges steps = exchanges (own i events) from hsame] at hattempts
  exact hattempts.requests

/-- A token in the cache was there before, or came with a response in the meantime. -/
theorem cached_token (h : Calls programs c events left c') :
    c'.accessToken = "" ∨ c'.accessToken = c.accessToken ∨
      ∃ event ∈ events, (clientExchange event.step).response = some c'.accessToken := by
  induction h with
  | start => exact .inr (.inl rfl)
  | move _ hmove _ => exact hmove.elim
  | @step events left d d' i op next answer _ _ hstep ih =>
    have hkept : d'.accessToken = d.accessToken → d'.accessToken = "" ∨
        d'.accessToken = c.accessToken ∨
        ∃ event ∈ events ++ [⟨i, ⟨d, op, answer, d'⟩⟩],
          (clientExchange event.step).response = some d'.accessToken := by
      intro hsame
      rw [hsame]
      refine ih.imp_right (Or.imp_right ?_)
      rintro ⟨event, hevent, hresponse⟩
      exact ⟨event, List.mem_append_left _ hevent, hresponse⟩
    cases op with
    | token request =>
      obtain ⟨now, later, ⟨-, -, rfl⟩ | ⟨-, -, rfl⟩⟩ := hstep
      · exact hkept rfl
      · cases hgranted : TokenOutcome.granted answer with
        | none => exact hkept (by simp [TokenCache.receive, hgranted])
        | some grant =>
          right
          right
          refine ⟨_, List.mem_append_right _ List.mem_cons_self, ?_⟩
          simp [clientExchange, Step.exchange, ClientExchange.response, TokenCache.receive, hgranted]
    | invalidate =>
      left
      rw [show d' = .invalidated from hstep]
      rfl
    | send request => exact hkept (by rw [show d' = d from hstep])
    | observe connection method code => exact hkept (by rw [show d' = d from hstep])

/-- The operations of a program in a part of a run. -/
theorem exists_of_own_eq_cons {i : ι} {step : Step (clientOperations V) TokenCache}
    {rest : List (Step (clientOperations V) TokenCache)} (h : own i events = step :: rest) :
    ∃ first later, events = first ++ ⟨i, step⟩ :: later ∧ own i first = [] ∧ own i later = rest := by
  induction events with
  | nil => cases h
  | cons event events ih =>
    obtain ⟨j, step'⟩ := event
    by_cases hj : j = i
    · subst hj
      rw [own_cons_self] at h
      cases h
      exact ⟨[], events, rfl, rfl, rfl⟩
    · rw [own_cons_of_ne hj] at h
      obtain ⟨first, later, rfl, hfirst, hlater⟩ := ih h
      exact ⟨⟨j, step'⟩ :: first, later, rfl, by rw [own_cons_of_ne hj, hfirst], hlater⟩

theorem exists_of_exchanges_eq_pair {σ : Type} {log : List (Step (clientOperations V) σ)}
    {x y : ClientExchange V} (h : exchanges log = [x, y]) :
    ∃ a b, log = [a, b] ∧ clientExchange a = x ∧ clientExchange b = y := by
  obtain ⟨a, log, rfl, ha, h⟩ := List.map_eq_cons_iff.mp h
  obtain ⟨b, log, rfl, hb, h⟩ := List.map_eq_cons_iff.mp h
  obtain rfl := List.map_eq_nil_iff.mp h
  exact ⟨a, b, rfl, ha, hb⟩

/-- The token that is got some time after the cache was emptied came with a response of that
    time. -/
theorem token_after_drop {d : TokenCache} {request : TokenRequest} {outcome : TokenOutcome}
    {bearer : String} (h : Calls programs c events left c') (hempty : c.accessToken = "")
    (hstep : SharedClient V (.token request) c' outcome d) (hresult : outcome.result = .ok bearer) :
    (∃ event ∈ events, (clientExchange event.step).response = some bearer) ∨
      outcome.granted.map Prod.fst = some bearer := by
  obtain ⟨now, later, ⟨hgood, rfl, -⟩ | ⟨-, hnew, -⟩⟩ := hstep
  · left
    obtain rfl : c'.accessToken = bearer := Except.ok.inj hresult
    rcases cached_token h with hnone | hsame | hresponse
    · exact absurd hnone hgood.1
    · exact absurd (hsame.trans hempty) hgood.1
    · exact hresponse
  · right
    obtain ⟨expiresIn, hgranted⟩ := TokenOutcome.granted_of_result hresult hnew
    rw [hgranted]
    rfl

/-- Whatever the other calls do in between, and whatever the server answers: a call sends at
    most two Admin requests; before a request, every earlier one of the call was rejected,
    and if the token was dropped, the first attempt has ended in `ErrAuth`; at most one of
    its requests is not rejected; and the bearer token of a request after a rejected one
    came with a token response between the two. -/
theorem retried_once (h : Calls (fun i => doRequest cfg (calls i)) c events left c') (i : ι) :
    ((exchanges (own i events)).filter (·.isRequest)).length ≤ 2 ∧
      (∀ first e rest, exchanges (own i events) = first ++ e :: rest → e.isRequest = true →
        (∀ a ∈ first, a.isRequest = true → a.rejected = true) ∧
          (⟨.invalidate, ()⟩ ∈ first → ∃ a ∈ first, a.rejected = true ∨ a.refused = true)) ∧
      ((exchanges (own i events)).filter fun e => e.isRequest && !e.rejected).length ≤ 1 ∧
      ∀ first a middle b rest bearer, events = first ++ ⟨i, a⟩ :: (middle ++ ⟨i, b⟩ :: rest) →
        (clientExchange a).rejected = true → (clientExchange b).bearer = some bearer →
        ∃ event ∈ middle, (clientExchange event.step).response = some bearer := by
  have hrequests := requests_own h i
  refine ⟨hrequests.length_le, fun first e rest hlog he => hrequests.before hlog he,
    hrequests.accepted_le, ?_⟩
  intro first a middle b rest bearer hevents ha hb
  have hlog : exchanges (own i events) = exchanges (own i first) ++
      clientExchange a :: (exchanges (own i middle) ++ clientExchange b :: exchanges (own i rest)) := by
    rw [hevents]
    simp [exchanges]
  obtain ⟨request, outcome, hmiddle, hresult⟩ := hrequests.between hlog ha hb
  obtain ⟨dropped, got, hown, hdropped, hgot⟩ := exists_of_exchanges_eq_pair hmiddle
  obtain ⟨m₁, later, rfl, -, hlater⟩ := exists_of_own_eq_cons hown
  obtain ⟨m₂, m₃, rfl, -, -⟩ := exists_of_own_eq_cons hlater
  -- the run from the moment the call dropped the token until it got the next one
  have hsplit : events = (first ++ ⟨i, a⟩ :: m₁) ++
      ⟨i, dropped⟩ :: (m₂ ++ ⟨i, got⟩ :: (m₃ ++ ⟨i, b⟩ :: rest)) := by simp [hevents]
  rw [hsplit] at h
  have hdrop := h.env_of_mem ⟨i, dropped⟩ (by simp)
  have hget := h.env_of_mem ⟨i, got⟩ (by simp)
  obtain ⟨-, after, -, hrest⟩ := h.split
  obtain ⟨before, -, hsegment, -⟩ := hrest.split
  obtain ⟨d, op, answer, d'⟩ := dropped
  obtain ⟨g, op', answer', g'⟩ := got
  cases hdropped
  cases hgot
  obtain rfl : d' = .invalidated := hdrop
  rcases token_after_drop hsegment rfl hget hresult with ⟨event, hevent, hresponse⟩ | hresponse
  · exact ⟨event, by simp [hevent], hresponse⟩
  · exact ⟨⟨i, ⟨g, .token request, answer', g'⟩⟩, by simp, hresponse⟩

end Interleaved

/-- A configuration and a call. -/
def demoConfig : Config := { url := "https://keycloak.example.com", username := "admin", password := "pw" }

def readDemo : AdminCall := { method := "GET", path := "/admin/realms/demo" }

/-- A token response. -/
def tokenAnswer (token : String) : TokenOutcome :=
  .answered 200 "" (.ok { accessToken := token, expiresIn := 300 })

/-- Two calls share a client.  The token of the first one is rejected; it drops the token, the
    second call gets a new one, and the first call repeats its request with that. -/
theorem refreshed_by_other_call :
    ∃ events left c', Calls (V := Unit) (fun _ : Bool => doRequest demoConfig readDemo) {} events left c' ∧
      ∃ first a middle b rest, events = first ++ ⟨false, a⟩ :: (middle ++ ⟨false, b⟩ :: rest) ∧
        (clientExchange a).rejected = true ∧ (clientExchange b).bearer = some "new" ∧
        ∃ event ∈ middle, (clientExchange event.step).response = some "new" := by
  have h₀ : Calls (V := Unit) (fun _ : Bool => doRequest demoConfig readDemo) {} [] _ {} := .start
  have h₁ := h₀.next false (.token _) (tokenAnswer "old") ⟨"old", 300 * second⟩ rfl
    ⟨0, 0, .inr ⟨by decide, by simp [tokenAnswer], rfl⟩⟩
  have h₂ := h₁.next false (.send ⟨"old", "GET", _, none⟩) (.answered 401 "" (.error ""))
    ⟨"old", 300 * second⟩ rfl rfl
  have h₃ := h₂.next false .invalidate () .invalidated rfl rfl
  have h₄ := h₃.next true (.token _) (tokenAnswer "new") ⟨"new", 300 * second⟩ rfl
    ⟨0, 0, .inr ⟨by decide, by simp [tokenAnswer], rfl⟩⟩
  have h₅ := h₄.next false (.token _) (.cached "new") ⟨"new", 300 * second⟩ rfl
    ⟨0, 0, .inl ⟨by decide, rfl, rfl⟩⟩
  have h₆ := h₅.next false (.send ⟨"new", "GET", _, none⟩) (.answered 200 "" (.ok ()))
    ⟨"new", 300 * second⟩ rfl rfl
  refine ⟨_, _, _, h₆, [_], _, [_, _, _], _, [], rfl, rfl, rfl, ?_⟩
  exact (retried_once h₆ false).2.2.2 [_] _ [_, _, _] _ [] "new" rfl rfl rfl

end KeycloakOperator
