import Mathlib.Algebra.GroupWithZero.Nat
import Mathlib.Logic.Function.Basic
import KeycloakOperator.Drivers

/-!
# A server that stores what it is sent

The Admin API as the operator's tests use it (`internal/keycloak/fake/server.go`): a
POST stores its body under a new id, a PUT replaces the top-level keys of its body,
and role mappings, composites, mappers and scope assignments are sets of their own.
The id of a resource belongs to the server: it is reported with every
representation and never taken from a body.  Within a collection no id and no natural
key occurs twice; a write that would change that is a conflict.
-/

namespace KeycloakOperator

/-- A stored resource.  `created` is not visible to the operator: it records the
    connection through which the operator created the resource. -/
structure Resource where
  id : String
  rep : Object
  created : Option String := none
deriving DecidableEq

/-- The field that holds the natural key. -/
def Kind.keyField : Kind → String
  | .realm => "realm"
  | .client => "clientId"
  | .clientScope => "name"
  | .realmRole => "name"
  | .identityProvider => "alias"
  | .group => "name"

namespace Resource

def key (keyField : String) (r : Resource) : Option String := stringField r.rep keyField

def report (r : Resource) : Object := r.rep.put "id" (.str r.id)

/-- Replace the top-level keys of the body. -/
def overlay (r : Resource) (body : Object) : Resource :=
  { r with rep := .ofFun (r.rep.keys ∪ (body.erase "id").keys) fun k =>
      ((body.erase "id").get k).orElse fun _ => r.rep.get k }

end Resource

/-- How a request names a resource of a collection. -/
inductive Address where
  | key (value : String)
  | id (value : String)
deriving DecidableEq, Repr

def Address.names (keyField : String) : Address → Resource → Bool
  | .key value, r => decide (r.key keyField = some value)
  | .id value, r => decide (r.id = value)

/-! ### Collections -/

/-- Resources that are told apart by their ids and by the field `keyField`. -/
structure Collection (keyField : String) where
  items : List Resource
  nodup_ids : (items.map Resource.id).Nodup
  nodup_keys : (items.filterMap (Resource.key keyField)).Nodup

namespace Collection

variable {keyField : String}

theorem nodup_ids_singleton (r : Resource) : ([r].map Resource.id).Nodup :=
  List.nodup_singleton r.id

theorem nodup_keys_singleton (r : Resource) : ([r].filterMap (Resource.key keyField)).Nodup := by
  rcases hkey : Resource.key keyField r with _ | k <;> simp [hkey]

instance : EmptyCollection (Collection keyField) := ⟨[], List.nodup_nil, List.nodup_nil⟩

def ofItems? (items : List Resource) : Option (Collection keyField) :=
  if h : (items.map Resource.id).Nodup ∧ (items.filterMap (Resource.key keyField)).Nodup then
    some ⟨items, h.1, h.2⟩
  else none

theorem items_of_ofItems? {items : List Resource} {c : Collection keyField}
    (h : ofItems? items = some c) : c.items = items := by
  unfold ofItems? at h
  split at h
  · exact (Option.some.inj h) ▸ rfl
  · cases h

def find (c : Collection keyField) (address : Address) : Option Resource :=
  c.items.find? (address.names keyField)

/-- An id longer than all the given ones together. -/
def freshId (taken : List String) : String :=
  String.ofList (List.replicate ((taken.map String.length).sum + 1) 'i')

/-- Store a body under a new id. -/
def insert? (c : Collection keyField) (body : Object) (created : Option String) :
    Option (Collection keyField) :=
  ofItems? (c.items ++ [⟨freshId (c.items.map Resource.id), body.erase "id", created⟩])

/-- Replace the top-level keys of the body in the addressed resource. -/
def overlay? (c : Collection keyField) (address : Address) (body : Object) :
    Option (Collection keyField) :=
  ofItems? (c.items.map fun r => if address.names keyField r then r.overlay body else r)

def remove (c : Collection keyField) (address : Address) : Collection keyField where
  items := c.items.filter fun r => !address.names keyField r
  nodup_ids := c.nodup_ids.sublist (List.filter_sublist.map _)
  nodup_keys := c.nodup_keys.sublist (List.filter_sublist.filterMap _)

end Collection

/-- A collection of resources: the kind and the realm they belong to. -/
structure Place where
  kind : Kind
  realm : String
deriving DecidableEq, Repr

/-- The collection that a POST to the endpoint adds to. -/
def Endpoint.collection : Endpoint → Option Place
  | .realms => some ⟨.realm, ""⟩
  | .clients r => some ⟨.client, r⟩
  | .clientScopes r => some ⟨.clientScope, r⟩
  | .roles r => some ⟨.realmRole, r⟩
  | .identityProviders r => some ⟨.identityProvider, r⟩
  | .groups r => some ⟨.group, r⟩
  | _ => none

/-- The resource that the endpoint addresses. -/
def Endpoint.item : Endpoint → Option (Place × Address)
  | .realm r => some (⟨.realm, ""⟩, .key r)
  | .client r id => some (⟨.client, r⟩, .id id)
  | .clientScope r id => some (⟨.clientScope, r⟩, .id id)
  | .role r name => some (⟨.realmRole, r⟩, .key name)
  | .identityProvider r idpAlias => some (⟨.identityProvider, r⟩, .key idpAlias)
  | .group r id => some (⟨.group, r⟩, .id id)
  | _ => none

structure Server where
  resources : (place : Place) → Collection place.kind.keyField
  /-- the ids of the scopes assigned to a client -/
  assigned : ScopeList → String → String → List String
  composites : String → String → List Object
  mappers : String → String → Collection "name"
  realmMappings : String → String → List Object
  clientMappings : String → String → String → List Object
  clientRoles : String → String → String → Option Object

instance : EmptyCollection Server :=
  ⟨⟨fun _ => ∅, fun _ _ _ => [], fun _ _ => [], fun _ _ => ∅, fun _ _ => [], fun _ _ _ => [],
    fun _ _ _ => none⟩⟩

/-- An answer before it is decoded. -/
inductive Reply where
  | failure (err : Err)
  | done
  | object (m : Object)
  | objects (ms : List Object)
  | secret (value : String)

def Reply.decode : Reply → (out : Out) → Except Err out.Value
  | .failure err, _ => .error err
  | .done, .nothing => .ok ()
  | .object m, .object => .ok m
  | .objects ms, .objects => .ok ms
  | .secret value, .secret => .ok value
  | _, _ => .error ⟨.other, "decode response"⟩

def notFound : Reply := .failure ⟨.notFound, "resource not found"⟩

def conflict : Reply := .failure ⟨.conflict, "resource conflict"⟩

def badRequest : Reply := .failure ⟨.other, "status 400"⟩

/-- Set union and difference of role representations by id. -/
def unionById (current roles : List Object) : List Object :=
  current ++ roles.filter fun role =>
    decide (∀ rep ∈ current, stringField rep "id" ≠ stringField role "id")

def differenceById (current roles : List Object) : List Object :=
  current.filter fun rep => decide (∀ role ∈ roles, stringField rep "id" ≠ stringField role "id")

namespace Server

open Function (update)

def setResources (s : Server) (place : Place) (c : Collection place.kind.keyField) : Server :=
  { s with resources := update s.resources place c }

def setAssigned (s : Server) (list : ScopeList) (realm client : String) (ids : List String) :
    Server :=
  { s with
    assigned := update s.assigned list
      (update (s.assigned list) realm (update (s.assigned list realm) client ids)) }

def setComposites (s : Server) (realm name : String) (roles : List Object) : Server :=
  { s with composites := update s.composites realm (update (s.composites realm) name roles) }

def setMappers (s : Server) (realm idpAlias : String) (c : Collection "name") : Server :=
  { s with mappers := update s.mappers realm (update (s.mappers realm) idpAlias c) }

def setRealmMappings (s : Server) (realm group : String) (roles : List Object) : Server :=
  { s with
    realmMappings := update s.realmMappings realm (update (s.realmMappings realm) group roles) }

def setClientMappings (s : Server) (realm group client : String) (roles : List Object) : Server :=
  { s with
    clientMappings := update s.clientMappings realm
      (update (s.clientMappings realm) group (update (s.clientMappings realm group) client roles)) }

def find (s : Server) (place : Place) (address : Address) : Option Resource :=
  (s.resources place).find address

/-! ### Resources -/

/-- The reply to a write whose result is a collection, unless it is a conflict. -/
def replace (s : Server) (set : Collection keyField → Server) :
    Option (Collection keyField) → Reply × Server
  | some c => (.done, set c)
  | none => (conflict, s)

def create (s : Server) (label : String) (place : Place) (body : Object) : Reply × Server :=
  if (stringField body place.kind.keyField).isNone then (badRequest, s)
  else s.replace (s.setResources place) ((s.resources place).insert? body (some label))

def put (s : Server) (place : Place) (address : Address) (body : Object) : Reply × Server :=
  if (s.find place address).isNone then (notFound, s)
  else s.replace (s.setResources place) ((s.resources place).overlay? address body)

/-- Deleting a realm leaves what is filed below it, where a Keycloak server drops that too. -/
def delete (s : Server) (place : Place) (address : Address) : Reply × Server :=
  if (s.find place address).isNone then (notFound, s)
  else (.done, s.setResources place ((s.resources place).remove address))

/-! ### Documents -/

def assignedScopes (s : Server) (realm client : String) (list : ScopeList) : List Object :=
  (s.assigned list realm client).filterMap fun id =>
    (s.find ⟨.clientScope, realm⟩ (.id id)).map Resource.report

/-- The entry of a client in the role-mapping document, filed under its id. -/
def clientMappingEntry (s : Server) (realm group : String) (client : Resource) : Option JSON :=
  let mappings := s.clientMappings realm group client.id
  if mappings = [] then none
  else some (.ofObject (.ofList [("id", .str client.id),
    ("client", .str ((client.key "clientId").getD "")),
    ("mappings", .ofList (mappings.map .ofObject))]))

def roleMappingDocument (s : Server) (realm group : String) : Object :=
  let clients := (s.resources ⟨.client, realm⟩).items
  .ofList [("realmMappings", .ofList ((s.realmMappings realm group).map .ofObject)),
    ("clientMappings", .ofObject (.ofFun (clients.map Resource.id).toFinset fun id =>
      (clients.find? fun client => decide (client.id = id)).bind
        (s.clientMappingEntry realm group)))]

/-! ### Requests -/

def get (s : Server) : Endpoint → Reply
  | .clientsByClientId realm clientId =>
      .objects (((s.resources ⟨.client, realm⟩).items.filter
        ((Address.key clientId).names "clientId")).map Resource.report)
  | .clientSecret realm id =>
      match s.find ⟨.client, realm⟩ (.id id) with
      | some client => .secret ((stringField client.rep "secret").getD "")
      | none => notFound
  | .clientScopes realm => .objects ((s.resources ⟨.clientScope, realm⟩).items.map Resource.report)
  | .assignments realm client list => .objects (s.assignedScopes realm client list)
  | .composites realm name => .objects (s.composites realm name)
  | .clientRole realm client name =>
      match s.clientRoles realm client name with
      | some rep => .object rep
      | none => notFound
  | .mappers realm idpAlias => .objects ((s.mappers realm idpAlias).items.map Resource.report)
  | .groupSearch realm name =>
      .objects (((s.resources ⟨.group, realm⟩).items.filter ((Address.key name).names "name")).map
        fun r => .ofList [("id", .str r.id), ("name", .str name)])
  | .roleMappings realm group => .object (s.roleMappingDocument realm group)
  | endpoint =>
      match endpoint.item with
      | some (place, address) =>
          match s.find place address with
          | some r => .object r.report
          | none => notFound
      | none => notFound

/-- Writes outside of the representations. -/
def writeSub (s : Server) : Method → Endpoint → Body → Reply × Server
  | .put, .assignment realm client list scope, _ =>
      if (s.find ⟨.clientScope, realm⟩ (.id scope)).isSome then
        (.done, s.setAssigned list realm client
          (if scope ∈ s.assigned list realm client then s.assigned list realm client
           else s.assigned list realm client ++ [scope]))
      else (notFound, s)
  | .delete, .assignment realm client list scope, _ =>
      (.done, s.setAssigned list realm client
        ((s.assigned list realm client).filter (· ≠ scope)))
  | .post, .composites realm name, .objects roles =>
      (.done, s.setComposites realm name (unionById (s.composites realm name) roles))
  | .delete, .composites realm name, .objects roles =>
      (.done, s.setComposites realm name (differenceById (s.composites realm name) roles))
  | .post, .mappers realm idpAlias, .object body =>
      s.replace (s.setMappers realm idpAlias) ((s.mappers realm idpAlias).insert? body none)
  | .put, .mapper realm idpAlias id, .object body =>
      s.replace (s.setMappers realm idpAlias) ((s.mappers realm idpAlias).overlay? (.id id) body)
  | .delete, .mapper realm idpAlias id, _ =>
      (.done, s.setMappers realm idpAlias ((s.mappers realm idpAlias).remove (.id id)))
  | .post, .realmRoleMappings realm group, .objects roles =>
      (.done, s.setRealmMappings realm group (unionById (s.realmMappings realm group) roles))
  | .delete, .realmRoleMappings realm group, .objects roles =>
      (.done, s.setRealmMappings realm group (differenceById (s.realmMappings realm group) roles))
  | .post, .clientRoleMappings realm group client, .objects roles =>
      (.done, s.setClientMappings realm group client
        (unionById (s.clientMappings realm group client) roles))
  | .delete, .clientRoleMappings realm group client, .objects roles =>
      (.done, s.setClientMappings realm group client
        (differenceById (s.clientMappings realm group client) roles))
  | _, _, _ => (badRequest, s)

/-- The answer to a request that came through the connection `label`. -/
def serve (s : Server) (label : String) (method : Method) (endpoint : Endpoint) (body : Body) :
    Reply × Server :=
  match method with
  | .get => (s.get endpoint, s)
  | .post =>
      match endpoint.collection, body with
      | some place, .object payload => s.create label place payload
      | _, _ => s.writeSub .post endpoint body
  | .put =>
      match endpoint.item, body with
      | some (place, address), .object payload => s.put place address payload
      | _, _ => s.writeSub .put endpoint body
  | .delete =>
      match endpoint.item with
      | some (place, address) => s.delete place address
      | none => s.writeSub .delete endpoint body

end Server

end KeycloakOperator
