import KeycloakOperator.Resources

/-!
# Helpers of the drivers (`internal/controller/driver_helpers.go`)
-/

namespace KeycloakOperator

/-- `rep[key].(string)`. -/
def stringField (rep : Object) (key : String) : Option String := (rep.get key).bind JSON.asString

/-- `rep[key].(map[string]any)`, with a fresh map when that fails. -/
def mapField (rep : Object) (key : String) : Object := ((rep.get key).bind JSON.asObject).getD ∅

/-- Return the error of a call with a description in front of it. -/
def withContext (context : String) (call : Call α) : Call α :=
  ExceptT.mk do
    match ← call.run with
    | .ok a => return .ok a
    | .error err => return .error (err.wrap context)

/-! ### The managed marker -/

/-- Record the managed marker in a string-valued attributes block. -/
def stampStringAttribute (payload : Object) (key value : String) : Object :=
  payload.put "attributes" (.ofObject ((mapField payload "attributes").put key (.str value)))

/-- Record the managed marker in a list-valued attributes block: it is appended to
    what the list already holds. -/
def stampSliceAttribute (payload : Object) (key value : String) : Object :=
  let attrs := mapField payload "attributes"
  let list := ((attrs.get key).bind JSON.asList).getD []
  payload.put "attributes" (.ofObject (attrs.put key (.ofList (list ++ [.str value]))))

def managedByStringAttribute (remote : Object) : Bool :=
  decide (stringField (mapField remote "attributes") managedAnnotationKey = some managedValue)

def managedBySliceAttribute (remote : Object) : Bool :=
  match ((mapField remote "attributes").get managedAnnotationKey).bind JSON.asList with
  | some list => list.any fun v => decide (v = .str managedValue)
  | none => false

/-! ### Secrets -/

def readSecret (ns name : String) : Call Secret :=
  ExceptT.mk do
    match ← perform (.getSecret ns name) with
    | .ok secret => return .ok secret
    | .error err => return .error (err.err.wrap ("secret " ++ ns ++ "/" ++ name))

/-- The entry of a Secret under `key`. -/
def secretEntry (ns : String) (name : String) (secret : Secret) (key : String) :
    Except Err String :=
  match secret.data.get key with
  | some value => .ok value
  | none => .error ⟨.other, "secret " ++ ns ++ "/" ++ name ++ " has no key " ++ quote key⟩

def readSecretValue (ns : String) (selector : SecretKeySelector) (defaultKey : String) :
    Call String := do
  let key := if selector.key = "" then defaultKey else selector.key
  let secret ← readSecret ns selector.name
  ExceptT.mk (return secretEntry ns selector.name secret key)

/-- The loop of `readSecretValues` over the selected keys. -/
def collectSecretValues (ns : String) (selector : SecretKeysSelector) (secret : Secret) :
    List String → FiniteMap String String → Except Err (FiniteMap String String)
  | [], out => .ok out
  | target :: rest, out =>
      match selector.keys.get target with
      | none => collectSecretValues ns selector secret rest out
      | some key =>
          match secretEntry ns selector.name secret key with
          | .error err => .error err
          | .ok value => collectSecretValues ns selector secret rest (out.put target value)

def readSecretValues (ns : String) (selector : SecretKeysSelector) :
    Call (FiniteMap String String) := do
  let secret ← readSecret ns selector.name
  let order ← rangeKeys selector.keys
  ExceptT.mk (return collectSecretValues ns selector secret order ∅)

/-- Overlay the values of a Secret onto the map under `key`, as the payload
    preparation of realms and identity providers does. -/
def injectValues (payload : Object) (key : String) (values : FiniteMap String String) : Object :=
  payload.put key (.ofObject (.ofFun ((mapField payload key).keys ∪ values.keys) fun k =>
    match values.get k with
    | some value => some (.str value)
    | none => (mapField payload key).get k))

/-- Create or update a Secret that holds an exported value.  Reports whether the
    Secret changed. -/
def ensureOutputSecret (obj : ManagedObject) (name key value : String) : Call Bool :=
  ExceptT.mk do
    match ← perform (.getSecret obj.ns name) with
    | .ok existing =>
        if obj.uid ∉ existing.controllers then
          return .error ⟨.other, "secret " ++ existing.ns ++ "/" ++ existing.name ++
            " already exists and is not owned by this resource; choose another secretOutput name"⟩
        else if (existing.data.get key).getD "" = value then
          return .ok false
        else
          match ← perform (.updateSecret { existing with data := existing.data.put key value }) with
          | .ok () => return .ok true
          | .error err => return .error err
    | .error err =>
        if err.notFound then
          match ← perform (.createSecret
            { ns := obj.ns, name := name, data := .ofList [(key, value)], controllers := [obj.uid] }) with
          | .ok () => return .ok true
          | .error err => return .error err
        else
          return .error err.err

/-! ### Client scope assignments -/

/-- The loop that assigns missing scopes; every name must be known. -/
def assignScopes (kc : Conn) (realm client : String) (list : ScopeList)
    (idsByName : FiniteMap String String) : List String → Call Unit
  | [] => return ()
  | name :: rest =>
      match idsByName.get name with
      | none => throw ⟨.other, "client scope " ++ quote name ++ " does not exist in realm " ++
          quote realm⟩
      | some id => do
          kc.assignClientScope realm client list id true
          assignScopes kc realm client list idsByName rest

/-- The loop that removes scopes; an unknown name is skipped. -/
def unassignScopes (kc : Conn) (realm client : String) (list : ScopeList)
    (idsByName : FiniteMap String String) : List String → Call Unit
  | [] => return ()
  | name :: rest =>
      match idsByName.get name with
      | none => unassignScopes kc realm client list idsByName rest
      | some id => do
          kc.assignClientScope realm client list id false
          unassignScopes kc realm client list idsByName rest

/-- Map from the string field `key` of each representation to its string field
    `value`; a later representation replaces an earlier one. -/
def indexFields (key value : String) (reps : List Object) : FiniteMap String String :=
  reps.foldl (fun m rep =>
    match stringField rep key, stringField rep value with
    | some k, some v => m.put k v
    | _, _ => m) ∅

/-- Make the default or optional client scopes of a client match the desired names
    exactly.  Reports whether it changed server-side state. -/
def enforceScopeAssignments (kc : Conn) (realm client : String) (desired : List String)
    (list : ScopeList) : Call Bool := do
  let current ← kc.listClientScopeAssignments realm client list
  let desiredSet := desired.toFinset
  let currentNames := (current.filterMap (stringField · "name")).toFinset
  let desiredOrder ← perform (.iterate desiredSet)
  let toAdd := desiredOrder.list.filter fun name => decide (name ∉ currentNames)
  let currentOrder ← perform (.iterate currentNames)
  let toRemove := currentOrder.list.filter fun name => decide (name ∉ desiredSet)
  if toAdd = [] ∧ toRemove = [] then
    return false
  else
    let scopes ← kc.listClientScopes realm
    let idsByName := indexFields "name" "id" scopes
    assignScopes kc realm client list idsByName toAdd
    unassignScopes kc realm client list idsByName toRemove
    return true

/-! ### Roles by name -/

/-- Fetch the representations of realm roles by name. -/
def resolveRealmRoles (kc : Conn) (realm : String) : List String → Call (List Object)
  | [] => return []
  | name :: rest => do
      let rep ← withContext ("realm role " ++ quote name) (kc.getRole realm name)
      let reps ← resolveRealmRoles kc realm rest
      return rep :: reps

/-- The loop of `resolveClientRoles` over the role names. -/
def getClientRoles (kc : Conn) (realm clientId uuid : String) : List String → Call (List Object)
  | [] => return []
  | name :: rest => do
      let rep ← withContext ("role " ++ quote name ++ " of client " ++ quote clientId)
        (kc.getClientRole realm uuid name)
      let reps ← getClientRoles kc realm clientId uuid rest
      return rep :: reps

/-- Fetch the representations of client roles by client ID and role name. -/
def resolveClientRoles (kc : Conn) (realm clientId : String) (names : List String) :
    Call (List Object) := do
  let client ← withContext ("client " ++ quote clientId) (kc.findClient realm clientId)
  let uuid := (stringField client "id").getD ""
  getClientRoles kc realm clientId uuid names

end KeycloakOperator
