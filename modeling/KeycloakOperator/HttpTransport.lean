import KeycloakOperator.AdminClient
import KeycloakOperator.RequestTargets
import KeycloakOperator.Simulation
import KeycloakOperator.World

/-!
# Passes over HTTP

To the engine a call of the Admin API is one operation.  Below it is a run of `Client.Do`: a token,
the request as text, perhaps a rejected attempt with the refresh of the token and a second one, the
metrics, and in between whatever the other passes do to the token and other administrators do to the
server.  The two levels fit together: a pass over HTTP is a pass over the Admin API, in which calls
may fail before or after they took effect.

* `Transport.Handled` is a server that rejects the credentials before it does anything, that reads
  a request from its text and answers it at once, and whose answers may get lost.
* `Transport.wp_doRequest` is the heart: of the requests of one call at most one takes effect, it is
  the one that was asked for, and the call returns its answer.
-/

namespace KeycloakOperator

open Prog

/-! ### Requests as text -/

def Method.text : Method → String
  | .get => "GET"
  | .post => "POST"
  | .put => "PUT"
  | .delete => "DELETE"

theorem Method.text_injective : Function.Injective Method.text := by
  intro method other heq
  cases method <;> cases other <;> first | rfl | exact absurd heq (by decide)

/-- How the requests of a connection are sent: the configuration of its client, what `json.Marshal`
    makes of a body, and the requests that `http.NewRequestWithContext` refuses. -/
structure Transport where
  config : Conn → Config
  marshal : Body → Except String String
  marshal_inj : ∀ {body other text}, marshal body = .ok text → marshal other = .ok text → body = other
  unbuilt : Conn → Endpoint → Option String

namespace Transport

variable (tr : Transport)

/-- The text of a body; there is none without a body. -/
def bodyText (body : Body) : Option (Except String String) :=
  if body = .none then none else some (tr.marshal body)

theorem body_eq_of_text {body other : Body} {text : Option String}
    (h : tr.bodyText body = text.map .ok) (h' : tr.bodyText other = text.map .ok) : body = other := by
  unfold bodyText at h h'
  cases text with
  | none =>
    simp only [Option.map_none, ite_eq_left_iff, reduceCtorEq, imp_false, not_not] at h h'
    rw [h, h']
  | some text =>
    simp only [Option.map_some, Option.ite_none_left_eq_some] at h h'
    exact tr.marshal_inj (Option.some.inj h.2) (Option.some.inj h'.2)

/-- The arguments of `Do` for a request. -/
def call (kc : Conn) (request : Request) : AdminCall where
  method := request.method.text
  path := requestTarget request.endpoint
  body := tr.bodyText request.body
  out := decide (request.out ≠ .nothing)
  unbuilt := tr.unbuilt kc request.endpoint

/-- The text is that of the request. -/
def Denotes (kc : Conn) (http : HttpRequest) (method : Method) (endpoint : Endpoint) (body : Body) :
    Prop :=
  http.method = method.text ∧ http.url = (tr.config kc).url ++ requestTarget endpoint ∧
    tr.bodyText body = http.body.map .ok

/-- A text is that of one request only. -/
theorem Denotes.unique {tr : Transport} {kc : Conn} {http : HttpRequest} {method method' : Method}
    {endpoint endpoint' : Endpoint} {body body' : Body} (h : tr.Denotes kc http method endpoint body)
    (h' : tr.Denotes kc http method' endpoint' body') :
    method' = method ∧ endpoint' = endpoint ∧ body' = body := by
  refine ⟨Method.text_injective (h'.1.symm.trans h.1), ?_,
    tr.body_eq_of_text h'.2.2 h.2.2⟩
  have hurl := congrArg String.toList (h'.2.1.symm.trans h.2.1)
  simp only [String.toList_append, List.append_cancel_left_eq] at hurl
  exact requestTarget_injective (String.toList_inj.mp hurl)

/-- What a call sends is the text of its request. -/
theorem denotes_of_request {kc : Conn} {request : Request} {bearer : String} {http : HttpRequest}
    (h : (tr.call kc request).request (tr.config kc) bearer = .ok http) :
    tr.Denotes kc http request.method request.endpoint request.body := by
  unfold AdminCall.request at h
  simp only [call] at h
  split at h
  · cases h
  · cases h
  · next hbody _ =>
    cases h
    exact ⟨rfl, rfl, hbody⟩
  · next hbody _ =>
    cases h
    exact ⟨rfl, rfl, hbody⟩

/-! ### Answers -/

/-- The zero value that `Do` leaves in its `out` when the answer has no body. -/
def zero : (out : Out) → out.Value
  | .nothing => ()
  | .object => ∅
  | .objects => []
  | .secret => ""

def errorKind : RequestErrorKind → ErrorKind
  | .notFound => .notFound
  | .conflict => .conflict
  | .auth => .auth
  | .api _ => .other
  | .other => .other

/-- What the caller of `Do` makes of its result. -/
def received {out : Out} : Except RequestError (Option out.Value) → Except Err out.Value
  | .ok (some value) => .ok value
  | .ok none => .ok (zero out)
  | .error err => .error ⟨errorKind err.kind, err.text⟩

/-- The answer carries the reply of the server. -/
inductive Carries (out : Out) : Reply → AdminAnswer out.Value → Prop where
  | notFound (text body : String) (decoded : Except String out.Value) :
      Carries out (.failure ⟨.notFound, text⟩) (.answered 404 body decoded)
  | conflict (text body : String) (decoded : Except String out.Value) :
      Carries out (.failure ⟨.conflict, text⟩) (.answered 409 body decoded)
  | failure (err : Err) (statusCode : Nat) (body : String) (decoded : Except String out.Value)
      (hstatus : 400 ≤ statusCode) (hauth : statusCode ≠ 401 ∧ statusCode ≠ 403) :
      Carries out (.failure err) (.answered statusCode body decoded)
  | value {reply : Reply} (v : out.Value) (statusCode : Nat) (body : String)
      (hreply : reply.decode out = .ok v) (hstatus : 200 ≤ statusCode ∧ statusCode < 300)
      (hbody : out ≠ .nothing → body ≠ "") :
      Carries out reply (.answered statusCode body (.ok v))

/-- The answer says only that there was a failure on the way. -/
def Broken {V : Type} : AdminAnswer V → Prop
  | .unanswered _ => True
  | .answered statusCode _ _ => 500 ≤ statusCode

/-- What becomes of a request that was sent. -/
inductive Handled (kc : Conn) (out : Out) (http : HttpRequest) (w : World) :
    AdminAnswer out.Value → World → Prop where
  /-- the server does not accept the token -/
  | rejected {answer : AdminAnswer out.Value} (h : answer.rejected = true) :
      Handled kc out http w answer w
  /-- the request does not reach the server -/
  | lost {answer : AdminAnswer out.Value} (h : Broken answer) : Handled kc out http w answer w
  /-- the server reads the request and answers it; the answer may get lost -/
  | served {method : Method} {endpoint : Endpoint} {body : Body} {answer : AdminAnswer out.Value}
      (hreads : tr.Denotes kc http method endpoint body)
      (hanswer : Broken answer ∨
        Carries out ((w.servers kc.server).serve kc.label method endpoint body).1 answer) :
      Handled kc out http w answer
        (w.setServer kc.server ((w.servers kc.server).serve kc.label method endpoint body).2)

/-! ### The level below the Admin API -/

end Transport

/-- The operations of a pass, with those of the clients in the place of the calls of the Admin
    API. -/
inductive WireOp where
  | client (kc : Conn) (out : Out) (op : ClientOp)
  | other (op : Op)

abbrev WireOp.Answer : WireOp → Type
  | .client _ out op => op.Answer out.Value
  | .other op => op.Answer

abbrev wireOperations : Signature := ⟨WireOp, WireOp.Answer⟩

/-- The world, and the token that the client of each connection holds. -/
structure HttpState where
  world : World
  tokens : Conn → TokenCache

namespace Transport

variable (tr : Transport)

/-- An operation of the client of a connection. -/
def onClient (kc : Conn) (out : Out) (op : ClientOp) : Prog wireOperations (op.Answer out.Value) :=
  Prog.perform (S := wireOperations) (.client kc out op)

/-- `Client.Do`, for one request. -/
def send (kc : Conn) (request : Request) :
    Prog wireOperations (Except RequestError (Option request.out.Value)) :=
  translate (S := clientOperations request.out.Value) (onClient kc request.out)
    (doRequest (tr.config kc) (tr.call kc request))

/-- Every call of the Admin API is a run of `Do`. -/
def implement : (op : Op) → Prog wireOperations op.Answer
  | .admin kc request => do return received (← tr.send kc request)
  | op => Prog.perform (S := wireOperations) (.other op)

/-- The critical sections of a client, and a server behind HTTP. -/
def Http : Env wireOperations HttpState := fun op x answer y =>
  match op, answer with
  | .other op, answer => Faulty op x.world answer y.world
  | .client kc out op, answer =>
      SharedClient out.Value op (x.tokens kc) answer (y.tokens kc) ∧
        match op, answer with
        | .send http, answer => tr.Handled kc out http x.world answer y.world
        | _, _ => y.world = x.world

/-- Other passes use the clients in every way; other administrators move the world. -/
def Others (moves : World → World → Prop) (x y : HttpState) : Prop :=
  y.world = x.world ∨ moves x.world y.world

/-! ### What a call comes to -/

section Calls

variable {tr : Transport} {moves : World → World → Prop} {kc : Conn} {request : Request}
  {w : World} {x y : HttpState}

/-- The world below is the world above, moved by others. -/
def Follows (moves : World → World → Prop) (x : HttpState) (w : World) : Prop :=
  Relation.ReflTransGen moves w x.world

theorem Follows.others (hx : Follows moves x w) (h : Relation.ReflTransGen (Others moves) x y) :
    Follows moves y w := by
  induction h with
  | refl => exact hx
  | tail _ hmove ih =>
    rcases hmove with hsame | hmove
    · rw [Follows, hsame]
      exact ih
    · exact ih.tail hmove

theorem Follows.same (hx : Follows moves x w) (h : y.world = x.world) : Follows moves y w := by
  rw [Follows, h]
  exact hx

/-- The call has not taken effect, or it may have had this effect above. -/
def Visible (moves : World → World → Prop) (op : Op) (w : World) (y : HttpState) : Prop :=
  Follows moves y w ∨ ∃ answer t, Faulty.interleaved moves op w answer t ∧ Follows moves y t

/-- An attempt has failed without an effect, or it has had the effect and the answer of the call. -/
def Attempted (moves : World → World → Prop) (kc : Conn) (request : Request) (w : World)
    (result : Except RequestError (Option request.out.Value)) (y : HttpState) : Prop :=
  (Follows moves y w ∧ ∃ err, result = .error err) ∨
    (isErrAuth result = false ∧
      ∃ t, Faulty.interleaved moves (.admin kc request) w (received result) t ∧ Follows moves y t)

/-- Every status but a success is an error. -/
theorem result_of_status {V : Type} {call : AdminCall} {statusCode : Nat} {body : String}
    {decoded : Except String V} (h : 300 ≤ statusCode) :
    ∃ err, call.result (.answered statusCode body decoded) = .error err := by
  simp only [AdminCall.result]
  rw [if_neg (by omega)]
  split
  · exact ⟨_, rfl⟩
  split
  · exact ⟨_, rfl⟩
  split <;> exact ⟨_, rfl⟩

theorem result_of_broken {V : Type} {call : AdminCall} {answer : AdminAnswer V} (h : Broken answer) :
    ∃ err, call.result answer = .error err := by
  cases answer with
  | unanswered err => exact ⟨_, rfl⟩
  | answered statusCode body decoded =>
    have hstatus : 500 ≤ statusCode := h
    exact result_of_status (by omega)

theorem not_rejected_of_broken {V : Type} {answer : AdminAnswer V} (h : Broken answer) :
    answer.rejected = false := by
  cases answer with
  | unanswered err => rfl
  | answered statusCode body decoded =>
    have hstatus : 500 ≤ statusCode := h
    exact decide_eq_false (by omega)

/-- What `Do` returns for the answer of a server is a failure, or the value of the reply. -/
theorem result_of_served (tr : Transport) (kc : Conn) {reply : Reply}
    {answer : AdminAnswer request.out.Value}
    (h : Broken answer ∨ Carries request.out reply answer) :
    answer.rejected = false ∧
      ((∃ err, (tr.call kc request).result answer = .error err) ∨
        received ((tr.call kc request).result answer) = reply.decode request.out) := by
  rcases h with hbroken | hcarries
  · exact ⟨not_rejected_of_broken hbroken, .inl (result_of_broken hbroken)⟩
  cases hcarries with
  | notFound text body decoded => exact ⟨rfl, .inl (result_of_status (by decide))⟩
  | conflict text body decoded => exact ⟨rfl, .inl (result_of_status (by decide))⟩
  | failure err statusCode body decoded hstatus hauth =>
    exact ⟨decide_eq_false (by omega), .inl (result_of_status (by omega))⟩
  | value v statusCode body hreply hstatus hbody =>
    refine ⟨decide_eq_false (by omega), .inr ?_⟩
    rw [hreply]
    simp only [AdminCall.result]
    rw [if_pos hstatus]
    by_cases hout : request.out = .nothing
    · -- without an `out` nothing is decoded
      have hnone : ¬ ((tr.call kc request).out = true ∧ body ≠ "") := by simp [call, hout]
      rw [if_neg hnone]
      obtain ⟨method, endpoint, sent, out⟩ := request
      subst hout
      rfl
    · rw [if_pos ⟨by simpa [call] using hout, hbody hout⟩]
      rfl

/-- A step of a client that is not a request leaves the world alone. -/
theorem follows_of_client {op : ClientOp} {answer : op.Answer request.out.Value}
    (hop : ∀ http, op ≠ .send http) (hx : Follows moves x w)
    (h : (tr.Http.interleaved (Others moves)) (.client kc request.out op) x answer y) :
    Follows moves y w := by
  obtain ⟨z, hmoved, -, hworld⟩ := h
  refine (hx.others hmoved).same ?_
  cases op with
  | send http => exact absurd rfl (hop http)
  | token tokenRequest => exact hworld
  | invalidate => exact hworld
  | observe connection method code => exact hworld

/-- What comes of a request that was sent. -/
theorem attempted_of_send {bearer : String} {http : HttpRequest}
    {answer : AdminAnswer request.out.Value}
    (hhttp : (tr.call kc request).request (tr.config kc) bearer = .ok http) (hx : Follows moves x w)
    (h : (tr.Http.interleaved (Others moves)) (.client kc request.out (.send http)) x answer y) :
    Attempted moves kc request w ((tr.call kc request).result answer) y := by
  obtain ⟨z, hmoved, -, hhandled⟩ := h
  have hz : Follows moves z w := hx.others hmoved
  have hauth := isErrAuth_result (tr.call kc request) answer
  simp only at hhandled
  generalize hw' : y.world = w' at hhandled
  cases hhandled with
  | rejected hrejected =>
    rw [hrejected] at hauth
    refine .inl ⟨hz.same hw', ?_⟩
    cases hresult : (tr.call kc request).result answer with
    | ok value => rw [hresult] at hauth; cases hauth
    | error err => exact ⟨err, rfl⟩
  | lost hbroken => exact .inl ⟨hz.same hw', result_of_broken hbroken⟩
  | @served method endpoint body _ hreads hanswer =>
    obtain ⟨rfl, rfl, rfl⟩ := (tr.denotes_of_request hhttp).unique hreads
    let server := (z.world.servers kc.server).serve kc.label request.method request.endpoint
      request.body
    have hreliable : Reliable (.admin kc request) z.world (server.1.decode request.out)
        (z.world.setServer kc.server server.2) := ⟨World.sorted, 0, rfl⟩
    have hfailure : ∀ err, Faulty (.admin kc request) z.world (.error err)
        (z.world.setServer kc.server server.2) :=
      fun err => .inr ⟨⟨err, rfl⟩, .inr ⟨_, hreliable⟩⟩
    have hend : Follows moves y (z.world.setServer kc.server server.2) := by
      rw [Follows, hw']
    obtain ⟨hrejected, hresult⟩ := result_of_served tr kc hanswer
    rw [hrejected] at hauth
    refine .inr ⟨hauth, _, ⟨z.world, hz, ?_⟩, hend⟩
    rcases hresult with ⟨err, herr⟩ | hvalue
    · rw [herr]
      exact hfailure _
    · rw [hvalue]
      exact .inl hreliable

/-- One attempt takes effect at most once, and not at all when the credentials are rejected. -/
theorem wp_attempt (hx : Follows moves x w) :
    wp (tr.Http.interleaved (Others moves)) (fun _ y => Visible moves (.admin kc request) w y)
      (translate (S := clientOperations request.out.Value) (onClient kc request.out)
        (doOnce (tr.config kc) (tr.call kc request)))
      (Attempted moves kc request w) x := by
  refine ⟨.inl hx, fun outcome y hstep => ?_⟩
  have hy := follows_of_client (by simp) hx hstep
  simp only [Prog.bind]
  cases hresult : TokenOutcome.result outcome with
  | error err => exact .inl ⟨hy, err, rfl⟩
  | ok bearer =>
    dsimp only
    cases hhttp : (tr.call kc request).request (tr.config kc) bearer with
    | error err => exact .inl ⟨hy, err, rfl⟩
    | ok http => exact ⟨.inl hy, fun answer z hsend => attempted_of_send hhttp hy hsend⟩

/-- A failure without an effect is a failure above, too. -/
theorem Attempted.answered {result : Except RequestError (Option request.out.Value)}
    (h : Attempted moves kc request w result y) :
    ∃ t, Faulty.interleaved moves (.admin kc request) w (received result) t ∧ Follows moves y t := by
  rcases h with ⟨hy, err, rfl⟩ | ⟨-, hanswered⟩
  · exact ⟨w, ⟨w, .refl, .inr ⟨⟨_, rfl⟩, .inl rfl⟩⟩, hy⟩
  · exact hanswered

/-- The metrics of a call change nothing. -/
theorem wp_observed {result : Except RequestError (Option request.out.Value)}
    (h : Attempted moves kc request w result x) :
    wp (tr.Http.interleaved (Others moves)) (fun _ y => Visible moves (.admin kc request) w y)
      (translate (S := clientOperations request.out.Value) (onClient kc request.out)
        (observeRequest (tr.config kc) (tr.call kc request) result >>= fun _ => pure result))
      (fun result y => ∃ t, Faulty.interleaved moves (.admin kc request) w (received result) t ∧
        Follows moves y t) x := by
  obtain ⟨t, hstep, hx⟩ := h.answered
  unfold observeRequest
  split
  · exact ⟨t, hstep, hx⟩
  · refine ⟨.inr ⟨_, t, hstep, hx⟩, fun _ y hnote => ⟨t, hstep, ?_⟩⟩
    exact follows_of_client (by simp) hx hnote

/-- **One call.**  `Do` does what the call may do above, whatever the others do in between. -/
theorem wp_send (hx : Follows moves x w) :
    wp (tr.Http.interleaved (Others moves)) (fun _ y => Visible moves (.admin kc request) w y)
      (tr.send kc request)
      (fun result y => ∃ t, Faulty.interleaved moves (.admin kc request) w (received result) t ∧
        Follows moves y t) x := by
  rw [send, doRequest, translate_bind, wp_bind]
  refine wp_mono (fun first y hfirst => ?_) (wp_attempt hx)
  cases hauth : isErrAuth first with
  | false => exact wp_observed hfirst
  | true =>
    -- an attempt that ended in `ErrAuth` has had no effect
    have hy : Follows moves y w := by
      rcases hfirst with ⟨hy, -⟩ | ⟨hnot, -⟩
      · exact hy
      · rw [hauth] at hnot
        cases hnot
    refine ⟨.inl hy, fun _ z hdrop => ?_⟩
    have hz := follows_of_client (by simp) hy hdrop
    change wp _ _ (translate (S := clientOperations request.out.Value) (onClient kc request.out)
      (doOnce (tr.config kc) (tr.call kc request) >>= fun second =>
        observeRequest (tr.config kc) (tr.call kc request) second >>= fun _ => pure second)) _ z
    rw [translate_bind, wp_bind]
    exact wp_mono (fun second y hsecond => wp_observed hsecond) (wp_attempt hz)

end Calls

/-! ### Whole passes -/

section Passes

variable {moves : World → World → Prop}

/-- Every operation below, complete or cut off, is one operation above or none. -/
theorem simulates (tr : Transport) (moves : World → World → Prop) :
    Simulates tr.implement (tr.Http.interleaved (Others moves)) (Faulty.interleaved moves)
      (Follows moves) := by
  refine .of_wp fun op x w hx => ?_
  cases op with
  | admin kc request =>
    rw [implement, wp_bind]
    exact wp_send hx
  | _ =>
    refine ⟨.inl hx, fun answer y hstep => ?_⟩
    obtain ⟨z, hmoved, hstep⟩ := hstep
    exact ⟨y.world, ⟨z.world, hx.others hmoved, hstep⟩, .refl⟩

/-- **Passes over HTTP are passes over the Admin API.**  Let passes run over HTTP, complete or cut
    off anywhere, while other passes use the same clients and other administrators make their moves.
    Then there is a run of passes over the Admin API, with the same moves and the same results, that
    leads to the same world; its calls may fail before or after they took effect.  The runs match call
    by call: one `Do` is one call of the Admin API, which takes effect at most once and as it was asked
    for (`wp_send`, `simulates`). -/
theorem passes_over_http (e : Engine) (tr : Transport)
    {ends : Option (Except Err (Option Pass)) → Prop} {x y : HttpState}
    {steps : List (Step wireOperations HttpState)}
    (h : Run (tr.Http.interleaved (Others moves)) (Others moves)
      (e.controllerReconcile.run.translate tr.implement) ends x steps y) :
    ∃ more t, Run (Faulty.interleaved moves) moves e.controllerReconcile.run ends x.world more t ∧
      Relation.ReflTransGen moves t y.world := by
  have hmoves : ∀ {x y : HttpState} {w : World}, Follows moves x w → Others moves x y →
      Follows moves y w ∨ ∃ t, moves w t ∧ Follows moves y t :=
    fun hx hmove => .inl (hx.others (.single hmove))
  exact (tr.simulates moves).run hmoves .refl h

end Passes

end Transport

/-! ### A creation -/

/-- A realm that is to be created. -/
def newRealm : ManagedObject where
  ns := "default"
  name := "demo"
  uid := "1"
  generation := 1
  finalizers := [finalizerName]
  spec := .realm { keycloakRef := "main", realm := "demo", fields := ⟨∅, Fields.typed_empty _⟩ }

def newWorld : World := .around newRealm ∅

/-- What a pass submits for it, and its text. -/
def newBody : Body :=
  .object (newRealm.spec.driver.managedMarker
    (Engine.representation newRealm.spec.driver newRealm.spec))

def newText : String :=
  "\x7b\"attributes\":\x7b\"" ++ managedAnnotationKey ++ "\":\"" ++ managedValue ++
    "\"\x7d,\"realm\":\"demo\"\x7d"

/-- A transport that knows this one body; all clients have the configuration `demoConfig`. -/
def demoTransport : Transport where
  config := fun _ => demoConfig
  marshal := fun body => if body = newBody then .ok newText else .error "unsupported value"
  marshal_inj := by
    intro body other text hbody hother
    split at hbody
    case isFalse => cases hbody
    case isTrue hsame =>
      split at hother
      case isFalse => cases hother
      case isTrue hsame' => exact hsame.trans hsame'.symm
  unbuilt := fun _ _ => none

theorem demoTransport_request (token : String) :
    (demoTransport.call ⟨"main", "keycloak"⟩ ⟨.post, .realms, newBody, .nothing⟩).request demoConfig
        token =
      .ok ⟨token, "POST", demoConfig.url ++ requestTarget .realms, some newText⟩ := by
  have hmarshal : demoTransport.marshal newBody = .ok newText := by
    simp only [demoTransport, if_true]
  have hbody : demoTransport.bodyText newBody = some (.ok newText) := congrArg some hmarshal
  simp only [AdminCall.request, Transport.call, hbody]
  rfl

/-- A client with a token. -/
def holding (token : String) (w : World) : HttpState := ⟨w, fun _ => ⟨token, 300 * second⟩⟩

/-- The realm is missing.  The first request that would create it is rejected; the second one, with
    another token, creates it, and the process stops. -/
theorem creation_over_http :
    ∃ (w : World) (steps : List (Step wireOperations HttpState)),
      Run (demoTransport.Http.interleaved (Transport.Others fun _ _ => False))
        (Transport.Others fun _ _ => False)
        ((newEngine false 0).controllerReconcile.run.translate demoTransport.implement)
        (fun _ => True) (holding "" newWorld) steps (holding "new" w) ∧
      (((w.servers "keycloak").find ⟨.realm, ""⟩ (.key "demo")).isSome ∧
        (newWorld.servers "keycloak").find ⟨.realm, ""⟩ (.key "demo") = none) ∧
      ∃ more t, Run (Faulty.interleaved fun _ _ => False) (fun _ _ => False)
        (newEngine false 0).controllerReconcile.run (fun _ => True) newWorld more t ∧
        Relation.ReflTransGen (fun _ _ => False) t w := by
  let tr := demoTransport
  let kc : Conn := ⟨"main", "keycloak"⟩
  have hstep : ∀ {op : WireOp} {x y : HttpState} {answer : op.Answer}, tr.Http op x answer y →
      (tr.Http.interleaved (Transport.Others fun _ _ => False)) op x answer y :=
    fun h => ⟨_, .refl, h⟩
  have h₀ : Leaves (tr.Http.interleaved (Transport.Others fun _ _ => False))
      ((newEngine false 0).controllerReconcile.run.translate tr.implement)
      (holding "" newWorld) [] (holding "" newWorld) _ := .refl _ _
  have h₁ := h₀.next (.other .getObject) (.ok newRealm) (holding "" newWorld) rfl
    (hstep (.inl ⟨World.sorted, 0, rfl⟩))
  have h₂ := h₁.next (.other (.connect "default" "main")) (.ok kc)
    (holding "" newWorld) rfl (hstep (.inl ⟨World.sorted, 0, rfl⟩))
  have h₃ := h₂.next (.client kc .object (.token demoConfig.tokenRequest))
    (tokenAnswer "old") (holding "old" newWorld) rfl
    (hstep ⟨⟨0, 0, .inr ⟨by decide, by simp [tokenAnswer], rfl⟩⟩, rfl⟩)
  -- the realm is looked up
  let lookup : HttpRequest := ⟨"old", "GET", demoConfig.url ++ requestTarget (.realm "demo"), none⟩
  let missing := (newWorld.servers "keycloak").serve "main" .get (.realm "demo") .none
  have hlookup : tr.Denotes kc lookup .get (.realm "demo") .none := ⟨rfl, rfl, rfl⟩
  have hmissing : Transport.Carries .object missing.1 (.answered 404 "" (.error "")) :=
    .notFound _ _ _
  let w := newWorld.setServer "keycloak" missing.2
  have h₄ := h₃.next (.client kc .object (.send lookup)) (.answered 404 "" (.error ""))
    (holding "old" w) rfl (hstep ⟨rfl, .served hlookup (.inr hmissing)⟩)
  have h₅ := h₄.next (.client kc .nothing (.token demoConfig.tokenRequest)) (.cached "old")
    (holding "old" w) rfl (hstep ⟨⟨0, 0, .inl ⟨by decide, rfl, rfl⟩⟩, rfl⟩)
  -- and created, at the second attempt
  let http (token : String) : HttpRequest :=
    ⟨token, "POST", demoConfig.url ++ requestTarget .realms, some newText⟩
  have h₆ := h₅.next (.client kc .nothing (.send (http "old"))) (.answered 401 "" (.error ""))
    (holding "old" w) (by
      simp only [Prog.bind, TokenOutcome.result]
      erw [demoTransport_request "old"]
      rfl) (hstep ⟨rfl, .rejected rfl⟩)
  have h₇ := h₆.next (.client kc .nothing .invalidate) () ⟨w, fun _ => .invalidated⟩ rfl
    (hstep ⟨rfl, rfl⟩)
  have h₈ := h₇.next (.client kc .nothing (.token demoConfig.tokenRequest)) (tokenAnswer "new")
    (holding "new" w) rfl (hstep ⟨⟨0, 0, .inr ⟨by decide, by simp [tokenAnswer], rfl⟩⟩, rfl⟩)
  let served := (w.servers "keycloak").serve "main" .post .realms newBody
  have hreads : tr.Denotes kc (http "new") .post .realms newBody :=
    tr.denotes_of_request (demoTransport_request "new")
  have hcarries : Transport.Carries .nothing served.1 (.answered 201 "" (.ok ())) :=
    .value () 201 "" rfl (by decide) (fun h => absurd rfl h)
  have h₉ := h₈.next (.client kc .nothing (.send (http "new"))) (.answered 201 "" (.ok ()))
    (holding "new" (w.setServer "keycloak" served.2)) (by
      simp only [Prog.bind, show (tokenAnswer "new").result = .ok "new" from rfl]
      erw [demoTransport_request "new"]
      rfl) (hstep ⟨rfl, .served hreads (.inr hcarries)⟩)
  have hrun : Run (tr.Http.interleaved (Transport.Others fun _ _ => False))
      (Transport.Others fun _ _ => False)
      ((newEngine false 0).controllerReconcile.run.translate tr.implement) (fun _ => True)
      (holding "" newWorld) _ (holding "new" _) := .pass (.start _) h₉.exec_cut trivial
  exact ⟨_, _, hrun, ⟨by decide +kernel, by decide +kernel⟩,
    Transport.passes_over_http _ tr hrun⟩

end KeycloakOperator
