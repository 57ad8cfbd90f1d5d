import KeycloakOperator.DriverHelpers

/-!
# The drivers of the six kinds

`internal/controller/driver_realm.go`, `driver_client.go` and
`driver_role_idp_group.go`.  A driver is given for the spec it works on: the spec in
memory does not change while a driver is used.
-/

namespace KeycloakOperator

/-- The kind-specific behaviour of one managed resource type. -/
structure Driver where
  get : Conn → Call Object
  id : Object → String
  create : Conn → Object → Call Unit
  update : Conn → String → Object → Call Unit
  delete : Conn → Call Unit
  managedMarker : Object → Object
  isManaged : Object → Bool
  preparePayload : ManagedObject → Object → Call Object
  /-- the object with its status as left by the call, and whether server-side state
      changed -/
  postApply : Conn → ManagedObject → Object → Action (ManagedObject × Except Err Bool)
  /-- the explanation when the resource targets a protected one -/
  protected? : ManagedObject → Option String
  operatorFields : List String

/-- `PostApply` that leaves the object alone. -/
def keepObject (obj : ManagedObject) (call : Call Bool) :
    Action (ManagedObject × Except Err Bool) := do
  return (obj, ← call.run)

/-- The id of a representation, empty when there is none. -/
def remoteId (remote : Object) : String := (stringField remote "id").getD ""

/-- `remote["id"].(string)` in an argument position: anything else panics. -/
def assertId (remote : Object) : Call String :=
  match stringField remote "id" with
  | some id => return id
  | none => throw ⟨.panic, "interface conversion: interface is not string"⟩

/-- `PostApply` of the kinds that need the id of the remote resource. -/
def requireId (remote : Object) : Except Err String :=
  if remoteId remote = "" then .error ⟨.other, "server representation has no id"⟩
  else .ok (remoteId remote)

/-! ### Realms -/

namespace RealmSpec

def protected? (s : RealmSpec) (obj : ManagedObject) : Option String :=
  if s.realm ∉ protectedRealmNames then none
  else if obj.allowProtected = some "true" then none
  else some ("realm " ++ quote s.realm ++ " is protected; annotate the resource with " ++
    allowProtectedAnnotationKey ++ ": \"true\" to manage it deliberately")

def preparePayload (s : RealmSpec) (obj : ManagedObject) (payload : Object) : Call Object :=
  match s.smtpServerSecretRef with
  | none => return payload
  | some selector => do
      let values ← readSecretValues obj.ns selector
      return injectValues payload "smtpServer" values

def driver (s : RealmSpec) : Driver where
  get kc := kc.getRealm s.realm
  id _ := ""
  create kc payload := kc.createRealm payload
  update kc _ payload := kc.updateRealm s.realm payload
  delete kc := kc.deleteRealm s.realm
  managedMarker payload := stampStringAttribute payload managedAnnotationKey managedValue
  isManaged := managedByStringAttribute
  preparePayload := s.preparePayload
  postApply _ obj _ := keepObject obj (return false)
  protected? := s.protected?
  operatorFields := ["keycloakRef", "adoptionPolicy", "deletionPolicy", "smtpServerSecretRef"]

end RealmSpec

/-! ### Clients -/

namespace ClientSpec

def preparePayload (s : ClientSpec) (obj : ManagedObject) (payload : Object) : Call Object :=
  match s.secretRef with
  | none => return payload
  | some selector => do
      let value ← readSecretValue obj.ns selector clientSecretKey
      return payload.put "secret" (.str value)

/-- The part of `PostApply` that exports the client secret. -/
def exportSecret (s : ClientSpec) (kc : Conn) (obj : ManagedObject) (id : String) : Call Bool :=
  match s.secretOutput with
  | none => return false
  | some output => do
      let key := if output.key = "" then clientSecretKey else output.key
      let value ← kc.getClientSecret s.realm id
      ensureOutputSecret obj output.name key value

/-- Enforce one of the two scope lists; an unset list is unmanaged. -/
def enforceScopes (s : ClientSpec) (kc : Conn) (id : String) (list : ScopeList) :
    Option (List String) → Call Bool
  | none => return false
  | some desired => enforceScopeAssignments kc s.realm id desired list

def postApply (s : ClientSpec) (kc : Conn) (obj : ManagedObject) (remote : Object) :
    Action (ManagedObject × Except Err Bool) := do
  match requireId remote with
  | .error err => return (obj, .error err)
  | .ok id =>
      match ← (s.exportSecret kc obj id).run with
      | .error err => return (obj, .error err)
      | .ok exported =>
          let obj := match s.secretOutput with
            | none => obj
            | some output => { obj with status := { obj.status with secretName := output.name } }
          keepObject obj do
            let defaults ← s.enforceScopes kc id .default s.defaultClientScopes
            let optionals ← s.enforceScopes kc id .optional s.optionalClientScopes
            return exported || defaults || optionals

def driver (s : ClientSpec) : Driver where
  get kc := kc.findClient s.realm s.clientId
  id := remoteId
  create kc payload := kc.createClient s.realm payload
  update kc id payload := kc.updateClient s.realm id payload
  delete kc := do
    let remote ← kc.findClient s.realm s.clientId
    kc.deleteClient s.realm (← assertId remote)
  managedMarker payload := stampStringAttribute payload managedAnnotationKey managedValue
  isManaged := managedByStringAttribute
  preparePayload := s.preparePayload
  postApply := s.postApply
  protected? _ := none
  operatorFields :=
    ["keycloakRef", "adoptionPolicy", "deletionPolicy", "realm", "secretRef", "secretOutput"]

end ClientSpec

/-! ### Client scopes -/

def ClientScopeSpec.driver (s : ClientScopeSpec) : Driver where
  get kc := kc.findClientScope s.realm s.name
  id := remoteId
  create kc payload := kc.createClientScope s.realm payload
  update kc id payload := kc.updateClientScope s.realm id payload
  delete kc := do
    let remote ← kc.findClientScope s.realm s.name
    kc.deleteClientScope s.realm (← assertId remote)
  managedMarker payload := stampStringAttribute payload managedAnnotationKey managedValue
  isManaged := managedByStringAttribute
  preparePayload _ payload := return payload
  postApply _ obj _ := keepObject obj (return false)
  protected? _ := none
  operatorFields := ["keycloakRef", "adoptionPolicy", "deletionPolicy", "realm"]

/-! ### Differences of role sets -/

/-- Map from the id of each representation to the representation. -/
def indexById (reps : List Object) : FiniteMap String Object :=
  reps.foldl (fun m rep =>
    match stringField rep "id" with
    | some id => m.put id rep
    | none => m) ∅

/-- The loop that collects the representations of `left` whose id `right` lacks. -/
def onlyIn (left right : FiniteMap String Object) : Action (List Object) := do
  let order ← rangeKeys left
  return order.filterMap fun id => if id ∈ right.keys then none else left.get id

/-- Submit a list of roles unless it is empty. -/
def submitRoles (submit : List Object → Call Unit) (roles : List Object) : Call Unit :=
  if roles = [] then return () else submit roles

/-- Diff desired against current role representations by id and apply additions and
    removals.  Reports whether there was a difference. -/
def applyRoleDiff (desired current : List Object) (add remove : List Object → Call Unit) :
    Call Bool := do
  let desiredIds := indexById desired
  let currentIds := indexById current
  let toAdd ← onlyIn desiredIds currentIds
  let toRemove ← onlyIn currentIds desiredIds
  if toAdd = [] ∧ toRemove = [] then
    return false
  else
    submitRoles add toAdd
    submitRoles remove toRemove
    return true

/-- The loop that resolves the roles of several clients. -/
def resolveRolesOfClients (kc : Conn) (realm : String)
    (clientRoles : FiniteMap String (List String)) : List String → Call (List Object)
  | [] => return []
  | clientId :: rest => do
      let reps ← resolveClientRoles kc realm clientId ((clientRoles.get clientId).getD [])
      let others ← resolveRolesOfClients kc realm clientRoles rest
      return reps ++ others

/-! ### Realm roles -/

namespace RealmRoleSpec

/-- The roles that the composite role is to include. -/
def desiredComposites (s : RealmRoleSpec) (kc : Conn) : Call (List Object) :=
  match s.composite, s.composites with
  | some true, some composites => do
      let realmRoles ← resolveRealmRoles kc s.realm composites.realmRoles
      let order ← rangeKeys composites.clientRoles
      let clientRoles ← resolveRolesOfClients kc s.realm composites.clientRoles order
      return realmRoles ++ clientRoles
  | _, _ => return []

def postApply (s : RealmRoleSpec) (kc : Conn) : Call Bool := do
  let current ← kc.getRoleComposites s.realm s.name
  let desired ← s.desiredComposites kc
  applyRoleDiff desired current (kc.addRoleComposites s.realm s.name)
    (kc.removeRoleComposites s.realm s.name)

def driver (s : RealmRoleSpec) : Driver where
  get kc := kc.getRole s.realm s.name
  id := remoteId
  create kc payload := kc.createRole s.realm payload
  update kc _ payload := kc.updateRole s.realm s.name payload
  delete kc := kc.deleteRole s.realm s.name
  managedMarker payload := stampSliceAttribute payload managedAnnotationKey managedValue
  isManaged := managedBySliceAttribute
  preparePayload _ payload := return payload
  postApply kc obj _ := keepObject obj (s.postApply kc)
  protected? _ := none
  operatorFields := ["keycloakRef", "adoptionPolicy", "deletionPolicy", "realm", "composites"]

end RealmRoleSpec

/-! ### Identity providers -/

/-- Compare a current mapper with the desired payload on the keys the payload
    manages. -/
def mappersDiffer (current payload : Object) : Bool :=
  decide (∃ k : {k // k ∈ payload.keys}, k.val ≠ "identityProviderAlias" ∧
    (match current.get k with
     | none => true
     | some got => !jsonEqual (payload.vals k) got) = true)

namespace IdentityProviderSpec

def preparePayload (s : IdentityProviderSpec) (obj : ManagedObject) (payload : Object) :
    Call Object :=
  match s.configSecretRef with
  | none => return payload
  | some selector => do
      let values ← readSecretValues obj.ns selector
      return injectValues payload "config" values

/-- Map from the name of each desired mapper to the mapper; the last one wins. -/
def desiredByName (s : IdentityProviderSpec) : FiniteMap String IdentityProviderMapper :=
  s.mappers.foldl (fun m mapper => m.put mapper.name mapper) ∅

/-- Map from the name of each current mapper to its representation. -/
def mappersByName (current : List Object) : FiniteMap String Object :=
  current.foldl (fun m rep =>
    match stringField rep "name" with
    | some name => m.put name rep
    | none => m) ∅

def mapperPayload (s : IdentityProviderSpec) (mapper : IdentityProviderMapper) : Object :=
  mapper.toJSONMap.put "identityProviderAlias" (.str s.idpAlias)

/-- The body of the loop over the desired mappers.  A mapper without an id cannot be
    updated and is created again. -/
def applyMapper (s : IdentityProviderSpec) (kc : Conn) (payload : Object) :
    Option Object → Call Bool
  | some existing =>
      match stringField existing "id" with
      | some id =>
          if mappersDiffer existing payload then do
            kc.updateIdentityProviderMapper s.realm s.idpAlias id payload
            return true
          else return false
      | none => do
          kc.createIdentityProviderMapper s.realm s.idpAlias payload
          return true
  | none => do
      kc.createIdentityProviderMapper s.realm s.idpAlias payload
      return true

/-- The loop over the desired mappers. -/
def applyMappers (s : IdentityProviderSpec) (kc : Conn) (currentByName : FiniteMap String Object) :
    List String → Call Bool
  | [] => return false
  | name :: rest =>
      match s.desiredByName.get name with
      | none => applyMappers s kc currentByName rest
      | some mapper => do
          let wrote ← s.applyMapper kc (s.mapperPayload mapper) (currentByName.get name)
          let others ← applyMappers s kc currentByName rest
          return wrote || others

/-- The loop over the current mappers that deletes the unwanted ones. -/
def removeMappers (s : IdentityProviderSpec) (kc : Conn) (currentByName : FiniteMap String Object) :
    List String → Call Bool
  | [] => return false
  | name :: rest =>
      match (if name ∈ s.desiredByName.keys then none
        else (currentByName.get name).bind (stringField · "id")) with
      | none => removeMappers s kc currentByName rest
      | some id => do
          kc.deleteIdentityProviderMapper s.realm s.idpAlias id
          let _ ← removeMappers s kc currentByName rest
          return true

def postApply (s : IdentityProviderSpec) (kc : Conn) : Call Bool := do
  let current ← kc.listIdentityProviderMappers s.realm s.idpAlias
  let currentByName := mappersByName current
  let desiredOrder ← rangeKeys s.desiredByName
  let applied ← s.applyMappers kc currentByName desiredOrder
  let currentOrder ← rangeKeys currentByName
  let removed ← s.removeMappers kc currentByName currentOrder
  return applied || removed

def driver (s : IdentityProviderSpec) : Driver where
  get kc := kc.getIdentityProvider s.realm s.idpAlias
  id remote := (stringField remote "alias").getD ""
  create kc payload := kc.createIdentityProvider s.realm payload
  update kc _ payload := kc.updateIdentityProvider s.realm s.idpAlias payload
  delete kc := kc.deleteIdentityProvider s.realm s.idpAlias
  managedMarker payload := payload
  isManaged _ := false
  preparePayload := s.preparePayload
  postApply kc obj _ := keepObject obj (s.postApply kc)
  protected? _ := none
  operatorFields :=
    ["keycloakRef", "adoptionPolicy", "deletionPolicy", "realm", "configSecretRef", "mappers"]

end IdentityProviderSpec

/-! ### Groups -/

/-- The maps in a list of JSON values: `v.([]any)` and `rep.(map[string]any)`. -/
def objectItems (v : Option JSON) : List Object :=
  ((v.bind JSON.asList).getD []).filterMap JSON.asObject

/-- An entry of the client mappings of a group. -/
structure ClientMapping where
  uuid : String
  mappings : List Object
deriving DecidableEq

namespace GroupSpec

/-- The loop over the client mappings of the document, keyed by client ID. -/
def mappingsByClient (clientMappings : Object) (order : List String) :
    FiniteMap String ClientMapping :=
  order.foldl (fun m uuid =>
    match (clientMappings.get uuid).bind JSON.asObject with
    | none => m
    | some entry =>
        m.put ((stringField entry "client").getD "") ⟨uuid, objectItems (entry.get "mappings")⟩) ∅

/-- The loop that clears the mappings of clients that are no longer listed. -/
def clearUnlisted (s : GroupSpec) (kc : Conn) (id : String)
    (clientRoles : FiniteMap String (List String))
    (current : FiniteMap String ClientMapping) : List String → Call Bool
  | [] => return false
  | clientId :: rest =>
      match (if clientId ∈ clientRoles.keys then none else current.get clientId) with
      | none => clearUnlisted s kc id clientRoles current rest
      | some mapping =>
          if mapping.mappings = [] then clearUnlisted s kc id clientRoles current rest
          else do
            kc.removeGroupClientRoles s.realm id mapping.uuid mapping.mappings
            let _ ← clearUnlisted s kc id clientRoles current rest
            return true

def clientUUID (kc : Conn) (realm clientId : String) : Call String := do
  let remote ← withContext ("client " ++ quote clientId) (kc.findClient realm clientId)
  return (stringField remote "id").getD ""

/-- The loop over the desired client roles. -/
def enforceListed (s : GroupSpec) (kc : Conn) (id : String)
    (clientRoles : FiniteMap String (List String))
    (current : FiniteMap String ClientMapping) : List String → Call Bool
  | [] => return false
  | clientId :: rest => do
      let desired ← resolveClientRoles kc s.realm clientId ((clientRoles.get clientId).getD [])
      let uuid ← clientUUID kc s.realm clientId
      let mapped := ((current.get clientId).map (·.mappings)).getD []
      let changed ← applyRoleDiff desired mapped (kc.addGroupClientRoles s.realm id uuid)
        (kc.removeGroupClientRoles s.realm id uuid)
      let others ← enforceListed s kc id clientRoles current rest
      return changed || others

/-- Realm role mappings: unset means unmanaged, an empty list clears. -/
def enforceRealmRoles (s : GroupSpec) (kc : Conn) (id : String) (mappings : Object) : Call Bool :=
  match s.realmRoles with
  | none => return false
  | some names => do
      let desired ← resolveRealmRoles kc s.realm names
      applyRoleDiff desired (objectItems (mappings.get "realmMappings"))
        (kc.addGroupRealmRoles s.realm id) (kc.removeGroupRealmRoles s.realm id)

/-- Client role mappings, including removals for clients no longer listed.  With
    `clientRoles` unset the loop over the current mappings has no effect. -/
def enforceClientRoles (s : GroupSpec) (kc : Conn) (id : String) (mappings : Object) : Call Bool :=
  do
  let clientMappings := mapField mappings "clientMappings"
  let order ← rangeKeys clientMappings
  let current := mappingsByClient clientMappings order
  match s.clientRoles with
  | none => return false
  | some clientRoles => do
      let currentOrder ← rangeKeys current
      let cleared ← s.clearUnlisted kc id clientRoles current currentOrder
      let desiredOrder ← rangeKeys clientRoles
      let changed ← s.enforceListed kc id clientRoles current desiredOrder
      return cleared || changed

def postApply (s : GroupSpec) (kc : Conn) (remote : Object) : Call Bool := do
  let id ← ExceptT.mk (return requireId remote)
  let mappings ← kc.getGroupRoleMappings s.realm id
  let realmChanged ← s.enforceRealmRoles kc id mappings
  let clientChanged ← s.enforceClientRoles kc id mappings
  return realmChanged || clientChanged

def driver (s : GroupSpec) : Driver where
  get kc := kc.findGroup s.realm s.name
  id := remoteId
  create kc payload := kc.createGroup s.realm payload
  update kc id payload := kc.updateGroup s.realm id payload
  delete kc := do
    let remote ← kc.findGroup s.realm s.name
    kc.deleteGroup s.realm (← assertId remote)
  managedMarker payload := stampSliceAttribute payload managedAnnotationKey managedValue
  isManaged := managedBySliceAttribute
  preparePayload _ payload := return payload
  postApply kc obj remote := keepObject obj (s.postApply kc remote)
  protected? _ := none
  operatorFields := ["keycloakRef", "adoptionPolicy", "deletionPolicy", "realm"]

end GroupSpec

/-! ### The driver of a spec -/

def Spec.driver : Spec → Driver
  | .realm s => s.driver
  | .client s => s.driver
  | .clientScope s => s.driver
  | .realmRole s => s.driver
  | .identityProvider s => s.driver
  | .group s => s.driver

end KeycloakOperator
