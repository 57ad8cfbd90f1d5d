import KeycloakOperator.Operations

/-!
# The Admin API calls (`internal/keycloak/resources.go`)
-/

namespace KeycloakOperator

namespace Conn

/-! ### Shapes of requests -/

def fetchObject (kc : Conn) (endpoint : Endpoint) : Call Object :=
  kc.send ⟨.get, endpoint, .none, .object⟩

def fetchObjects (kc : Conn) (endpoint : Endpoint) : Call (List Object) :=
  kc.send ⟨.get, endpoint, .none, .objects⟩

def submit (kc : Conn) (method : Method) (endpoint : Endpoint) (body : Body) : Call Unit :=
  kc.send ⟨method, endpoint, body, .nothing⟩

/-- Return the first representation whose field `key` is the string `value`, or
    `ErrNotFound` with the description of what was looked for. -/
def findByField (reps : List Object) (key value what : String) : Call Object :=
  match reps.find? fun rep => decide (rep.get key = some (.str value)) with
  | some rep => return rep
  | none => throw ⟨.notFound, "resource not found: " ++ what ++ " " ++ quote value⟩

/-! ### Realms -/

def getRealm (kc : Conn) (realm : String) : Call Object := kc.fetchObject (.realm realm)

def createRealm (kc : Conn) (payload : Object) : Call Unit :=
  kc.submit .post .realms (.object payload)

def updateRealm (kc : Conn) (realm : String) (payload : Object) : Call Unit :=
  kc.submit .put (.realm realm) (.object payload)

def deleteRealm (kc : Conn) (realm : String) : Call Unit :=
  kc.submit .delete (.realm realm) .none

/-! ### Clients -/

def findClient (kc : Conn) (realm clientId : String) : Call Object := do
  let out ← kc.fetchObjects (.clientsByClientId realm clientId)
  findByField out "clientId" clientId "client"

def createClient (kc : Conn) (realm : String) (payload : Object) : Call Unit :=
  kc.submit .post (.clients realm) (.object payload)

def updateClient (kc : Conn) (realm id : String) (payload : Object) : Call Unit :=
  kc.submit .put (.client realm id) (.object payload)

def deleteClient (kc : Conn) (realm id : String) : Call Unit :=
  kc.submit .delete (.client realm id) .none

def getClientSecret (kc : Conn) (realm id : String) : Call String :=
  kc.send ⟨.get, .clientSecret realm id, .none, .secret⟩

/-! ### Client scopes -/

def listClientScopes (kc : Conn) (realm : String) : Call (List Object) :=
  kc.fetchObjects (.clientScopes realm)

def findClientScope (kc : Conn) (realm name : String) : Call Object := do
  let scopes ← kc.listClientScopes realm
  findByField scopes "name" name "client scope"

def createClientScope (kc : Conn) (realm : String) (payload : Object) : Call Unit :=
  kc.submit .post (.clientScopes realm) (.object payload)

def updateClientScope (kc : Conn) (realm id : String) (payload : Object) : Call Unit :=
  kc.submit .put (.clientScope realm id) (.object payload)

def deleteClientScope (kc : Conn) (realm id : String) : Call Unit :=
  kc.submit .delete (.clientScope realm id) .none

def listClientScopeAssignments (kc : Conn) (realm client : String) (list : ScopeList) :
    Call (List Object) :=
  kc.fetchObjects (.assignments realm client list)

def assignClientScope (kc : Conn) (realm client : String) (list : ScopeList) (scope : String)
    (add : Bool) : Call Unit :=
  kc.submit (if add then .put else .delete) (.assignment realm client list scope) .none

/-! ### Roles -/

def getRole (kc : Conn) (realm name : String) : Call Object := kc.fetchObject (.role realm name)

def createRole (kc : Conn) (realm : String) (payload : Object) : Call Unit :=
  kc.submit .post (.roles realm) (.object payload)

def updateRole (kc : Conn) (realm name : String) (payload : Object) : Call Unit :=
  kc.submit .put (.role realm name) (.object payload)

def deleteRole (kc : Conn) (realm name : String) : Call Unit :=
  kc.submit .delete (.role realm name) .none

def getRoleComposites (kc : Conn) (realm name : String) : Call (List Object) :=
  kc.fetchObjects (.composites realm name)

def addRoleComposites (kc : Conn) (realm name : String) (roles : List Object) : Call Unit :=
  kc.submit .post (.composites realm name) (.objects roles)

def removeRoleComposites (kc : Conn) (realm name : String) (roles : List Object) : Call Unit :=
  kc.submit .delete (.composites realm name) (.objects roles)

def getClientRole (kc : Conn) (realm client name : String) : Call Object :=
  kc.fetchObject (.clientRole realm client name)

/-! ### Identity providers -/

def getIdentityProvider (kc : Conn) (realm idpAlias : String) : Call Object :=
  kc.fetchObject (.identityProvider realm idpAlias)

def createIdentityProvider (kc : Conn) (realm : String) (payload : Object) : Call Unit :=
  kc.submit .post (.identityProviders realm) (.object payload)

def updateIdentityProvider (kc : Conn) (realm idpAlias : String) (payload : Object) : Call Unit :=
  kc.submit .put (.identityProvider realm idpAlias) (.object payload)

def deleteIdentityProvider (kc : Conn) (realm idpAlias : String) : Call Unit :=
  kc.submit .delete (.identityProvider realm idpAlias) .none

def listIdentityProviderMappers (kc : Conn) (realm idpAlias : String) : Call (List Object) :=
  kc.fetchObjects (.mappers realm idpAlias)

def createIdentityProviderMapper (kc : Conn) (realm idpAlias : String) (payload : Object) :
    Call Unit :=
  kc.submit .post (.mappers realm idpAlias) (.object payload)

def updateIdentityProviderMapper (kc : Conn) (realm idpAlias id : String) (payload : Object) :
    Call Unit :=
  kc.submit .put (.mapper realm idpAlias id) (.object payload)

def deleteIdentityProviderMapper (kc : Conn) (realm idpAlias id : String) : Call Unit :=
  kc.submit .delete (.mapper realm idpAlias id) .none

/-! ### Groups -/

def getGroup (kc : Conn) (realm id : String) : Call Object := kc.fetchObject (.group realm id)

/-- The search returns slim representations, so the group found is fetched by
    its id. -/
def findGroup (kc : Conn) (realm name : String) : Call Object := do
  let out ← kc.fetchObjects (.groupSearch realm name)
  let rep ← findByField out "name" name "group"
  let id := ((rep.get "id").bind JSON.asString).getD ""
  if id = "" then
    throw ⟨.notFound, "resource not found: group " ++ quote name ++ " has no id"⟩
  else
    kc.getGroup realm id

def createGroup (kc : Conn) (realm : String) (payload : Object) : Call Unit :=
  kc.submit .post (.groups realm) (.object payload)

def updateGroup (kc : Conn) (realm id : String) (payload : Object) : Call Unit :=
  kc.submit .put (.group realm id) (.object payload)

def deleteGroup (kc : Conn) (realm id : String) : Call Unit :=
  kc.submit .delete (.group realm id) .none

def getGroupRoleMappings (kc : Conn) (realm group : String) : Call Object :=
  kc.fetchObject (.roleMappings realm group)

def addGroupRealmRoles (kc : Conn) (realm group : String) (roles : List Object) : Call Unit :=
  kc.submit .post (.realmRoleMappings realm group) (.objects roles)

def removeGroupRealmRoles (kc : Conn) (realm group : String) (roles : List Object) : Call Unit :=
  kc.submit .delete (.realmRoleMappings realm group) (.objects roles)

def addGroupClientRoles (kc : Conn) (realm group client : String) (roles : List Object) :
    Call Unit :=
  kc.submit .post (.clientRoleMappings realm group client) (.objects roles)

def removeGroupClientRoles (kc : Conn) (realm group client : String) (roles : List Object) :
    Call Unit :=
  kc.submit .delete (.clientRoleMappings realm group client) (.objects roles)

end Conn

end KeycloakOperator
