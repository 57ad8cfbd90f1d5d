import KeycloakOperator.Api
import KeycloakOperator.Interaction

/-!
# What the operator asks of the outside

Every effect of a reconcile pass is one operation: a call of the Keycloak Admin API
(`Client.Do` in `internal/keycloak/client.go`), a call of the Kubernetes API, a
metric, an event, the clock, and the order in which Go visits the keys of a map.
The text of a request path is `realmPath` and the escaped segments of
`internal/keycloak/resources.go`; here a path is kept as the endpoint it addresses.
-/

namespace KeycloakOperator

/-! ### Errors (`internal/keycloak/errors.go`) -/

inductive ErrorKind where
  /-- `errors.Is(err, ErrNotFound)` -/
  | notFound
  /-- `errors.Is(err, ErrConflict)` -/
  | conflict
  /-- `errors.Is(err, ErrAuth)` -/
  | auth
  /-- any other error -/
  | other
  /-- not an error value: a failed type assertion -/
  | panic
deriving DecidableEq, Repr

structure Err where
  kind : ErrorKind
  text : String
deriving DecidableEq, Repr

/-- `fmt.Errorf("…: %w", err)`. -/
def Err.wrap (context : String) (err : Err) : Err := ⟨err.kind, context ++ ": " ++ err.text⟩

/-- An error of the Kubernetes API; `notFound` is `apierrors.IsNotFound`. -/
structure KubeErr where
  notFound : Bool
  text : String
deriving DecidableEq, Repr

/-- A Kubernetes error is none of the sentinel errors of the Keycloak client. -/
def KubeErr.err (e : KubeErr) : Err := ⟨.other, e.text⟩

def hexDigit (n : Nat) : Char := (Nat.digitChar n)

/-- The `%q` of one character.  Characters outside of ASCII are taken as printable; Go escapes
    those of them that are not, such as U+00A0 and U+200B. -/
def quoteChar (c : Char) : String :=
  match c with
  | '"' => "\\\""
  | '\\' => "\\\\"
  | '\n' => "\\n"
  | '\r' => "\\r"
  | '\t' => "\\t"
  | c =>
      if c.toNat = 7 then "\\a"
      else if c.toNat = 8 then "\\b"
      else if c.toNat = 11 then "\\v"
      else if c.toNat = 12 then "\\f"
      else if c.toNat < 32 ∨ c.toNat = 127 then
        "\\x" ++ String.ofList [hexDigit (c.toNat / 16), hexDigit (c.toNat % 16)]
      else String.ofList [c]

/-- The verb `%q`. -/
def quote (s : String) : String := "\"" ++ String.join (s.toList.map quoteChar) ++ "\""

/-! ### The Admin API -/

/-- A client of one Keycloak server, as `Provider.For` returns it, with the label of
    the connection it was made for. -/
structure Conn where
  label : String
  server : String
deriving DecidableEq, Repr

inductive Method where
  | get | post | put | delete
deriving DecidableEq, Repr

/-- The two lists of client scopes of a client. -/
inductive ScopeList where
  | default | optional
deriving DecidableEq, Repr

/-- The paths below `/admin`. -/
inductive Endpoint where
  | realms
  | realm (realm : String)
  | clients (realm : String)
  | clientsByClientId (realm clientId : String)
  | client (realm id : String)
  | clientSecret (realm id : String)
  | clientScopes (realm : String)
  | clientScope (realm id : String)
  | assignments (realm client : String) (list : ScopeList)
  | assignment (realm client : String) (list : ScopeList) (scope : String)
  | roles (realm : String)
  | role (realm name : String)
  | composites (realm name : String)
  | clientRole (realm client name : String)
  | identityProviders (realm : String)
  | identityProvider (realm idpAlias : String)
  | mappers (realm idpAlias : String)
  | mapper (realm idpAlias id : String)
  | groups (realm : String)
  | groupSearch (realm name : String)
  | group (realm id : String)
  | roleMappings (realm group : String)
  | realmRoleMappings (realm group : String)
  | clientRoleMappings (realm group client : String)
deriving DecidableEq, Repr

inductive Body where
  | none
  | object (m : Object)
  | objects (ms : List Object)
deriving DecidableEq

/-- What the answer is decoded into. -/
inductive Out where
  | nothing | object | objects | secret
deriving DecidableEq, Repr

abbrev Out.Value : Out → Type
  | .nothing => Unit
  | .object => Object
  | .objects => List Object
  | .secret => String

structure Request where
  method : Method
  endpoint : Endpoint
  body : Body
  out : Out
deriving DecidableEq

/-! ### The Kubernetes API -/

/-- A Secret, with the UIDs of its controller references.  The API server sets the version
    with every write.  The data is text: `json.Marshal` puts U+FFFD in the place of bytes that are
    not UTF-8, so that such a value never reaches a Keycloak server as it is. -/
structure Secret where
  ns : String
  name : String
  data : FiniteMap String String
  controllers : List String
  resourceVersion : Nat := 0
deriving DecidableEq

inductive EventType where
  | normal | warning
deriving DecidableEq, Repr

inductive Outcome where
  | success | error | terminal
deriving DecidableEq, Repr

/-! ### Operations -/

/-- A possible order in which Go visits the keys of a map. -/
structure Order (keys : Finset String) where
  list : List String
  nodup : list.Nodup
  mem_iff : ∀ k, k ∈ list ↔ k ∈ keys

inductive Op where
  /-- `time.Now` -/
  | now
  /-- the order of a `range` over a map with these keys -/
  | iterate (keys : Finset String)
  /-- `Provider.For` -/
  | connect (ns name : String)
  /-- `Client.Do` -/
  | admin (kc : Conn) (request : Request)
  /-- `client.Get` of the custom resource -/
  | getObject
  /-- `client.Update` of the custom resource -/
  | updateObject (obj : ManagedObject)
  /-- `client.Patch` with `client.MergeFrom(base)` -/
  | patchObject (base obj : ManagedObject)
  /-- `client.Status().Patch` with `client.MergeFrom(base)` -/
  | patchStatus (base obj : ManagedObject)
  | getSecret (ns name : String)
  | createSecret (secret : Secret)
  | updateSecret (secret : Secret)
  /-- `EventRecorder.Eventf` -/
  | event (type : EventType) (reason message : String)
  /-- `metrics.DriftCorrectionsTotal` -/
  | driftCorrected (kind : Kind)
  /-- `metrics.ReconciliationsTotal` -/
  | reconciled (kind : Kind) (outcome : Outcome)

abbrev Op.Answer : Op → Type
  | .now => Nat
  | .iterate keys => Order keys
  | .connect _ _ => Except String Conn
  | .admin _ request => Except Err request.out.Value
  | .getObject => Except KubeErr ManagedObject
  | .updateObject _ => Except Err ManagedObject
  | .patchObject _ _ => Except Err ManagedObject
  | .patchStatus _ _ => Except Err ManagedObject
  | .getSecret _ _ => Except KubeErr Secret
  | .createSecret _ => Except Err Unit
  | .updateSecret _ => Except Err Unit
  | .event _ _ _ => Unit
  | .driftCorrected _ => Unit
  | .reconciled _ _ => Unit

/-- The operations of the operator. -/
abbrev operations : Signature := ⟨Op, Op.Answer⟩

/-- A program of the operator. -/
abbrev Action (α : Type) : Type := Prog operations α

/-- A program that may return an error. -/
abbrev Call (α : Type) : Type := ExceptT Err (Prog operations) α

def perform (op : Op) : Action op.Answer := Prog.perform (S := operations) op

/-- `Client.Do`. -/
def Conn.send (kc : Conn) (request : Request) : Call request.out.Value :=
  ExceptT.mk (perform (.admin kc request))

/-- The keys of a map in the order in which a `range` visits them. -/
def rangeKeys (m : FiniteMap String V) : Action (List String) := do
  let order ← perform (.iterate m.keys)
  return order.list

end KeycloakOperator
