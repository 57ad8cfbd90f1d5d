import KeycloakOperator.LastApplied

/-!
# The custom resources (`api/v1alpha1`)

The six managed kinds with their specs, the shared status block and the object the
engine works with.  A spec has the fields that the operator's own code reads, and
`fields` for the rest of its representation fields: those are only ever carried
through the JSON round trip (`toJSONMap`), so they are kept as the JSON entries they
become, typed by the field tables of the source.
-/

namespace KeycloakOperator

/-! ### Constants (`common.go`) -/

def managedAnnotationKey : String := "keycloak.ctn-solutions.io/managed"
def managedValue : String := "true"
def finalizerName : String := "keycloak.ctn-solutions.io/finalizer"
def allowProtectedAnnotationKey : String := "keycloak.ctn-solutions.io/allow-protected"
def clientSecretKey : String := "clientSecret"

/-- Realms the operator refuses to manage unless the resource carries the
    allow-protected annotation. -/
def protectedRealmNames : List String := ["master"]

inductive Kind where
  | realm | client | clientScope | realmRole | identityProvider | group
deriving DecidableEq, Repr

def Kind.name : Kind → String
  | .realm => "Realm"
  | .client => "Client"
  | .clientScope => "ClientScope"
  | .realmRole => "RealmRole"
  | .identityProvider => "IdentityProvider"
  | .group => "Group"

inductive AdoptionPolicy where
  | createOnly | adopt | failIfExists
deriving DecidableEq, Repr

inductive DeletionPolicy where
  | orphan | delete
deriving DecidableEq, Repr

structure SecretKeySelector where
  name : String
  key : String := ""
deriving DecidableEq

/-- Maps a target configuration key to the Secret key holding its value. -/
structure SecretKeysSelector where
  name : String
  keys : FiniteMap String String
deriving DecidableEq

structure RoleComposites where
  realmRoles : List String
  clientRoles : FiniteMap String (List String)
deriving DecidableEq

structure IdentityProviderMapper where
  name : String
  identityProviderMapper : Option String
  config : FiniteMap String String
deriving DecidableEq

/-! ### JSON encodings of field values -/

def jsonStrings (items : List String) : JSON := .ofList (items.map .str)

def jsonStringMap (m : FiniteMap String String) : JSON :=
  .ofObject (.ofFun m.keys fun k => (m.get k).map .str)

def jsonStringListMap (m : FiniteMap String (List String)) : JSON :=
  .ofObject (.ofFun m.keys fun k => (m.get k).map jsonStrings)

/-- A field that `omitempty` leaves out when it is unset. -/
def putSome (m : Object) (k : String) : Option JSON → Object
  | some v => m.put k v
  | none => m

/-- An empty map is left out by `omitempty`. -/
def nonEmptyMap (m : FiniteMap String V) (encode : FiniteMap String V → JSON) : Option JSON :=
  if m.keys.card = 0 then none else some (encode m)

def jsonAdoptionPolicy : AdoptionPolicy → JSON
  | .createOnly => .str "CreateOnly"
  | .adopt => .str "Adopt"
  | .failIfExists => .str "FailIfExists"

def jsonDeletionPolicy : DeletionPolicy → JSON
  | .orphan => .str "Orphan"
  | .delete => .str "Delete"

def SecretKeySelector.json (s : SecretKeySelector) : JSON :=
  .ofObject (putSome (.ofList [("name", .str s.name)]) "key"
    (if s.key = "" then none else some (.str s.key)))

def SecretKeysSelector.json (s : SecretKeysSelector) : JSON :=
  .ofObject (.ofList [("name", .str s.name), ("keys", jsonStringMap s.keys)])

def RoleComposites.json (c : RoleComposites) : JSON :=
  .ofObject (putSome
    (putSome ∅ "realmRoles" (if c.realmRoles = [] then none else some (jsonStrings c.realmRoles)))
    "clientRoles" (nonEmptyMap c.clientRoles jsonStringListMap))

/-- `toJSONMap` of a mapper. -/
def IdentityProviderMapper.toJSONMap (m : IdentityProviderMapper) : Object :=
  putSome (putSome (.ofList [("name", .str m.name)])
    "identityProviderMapper" (m.identityProviderMapper.map .str))
    "config" (nonEmptyMap m.config jsonStringMap)

/-! ### Field tables

The JSON names of the spec fields with the type of their values.  Scalars are
pointers in the source and occur with every value; lists and maps are left out when
they are empty, except for the pointers to lists and maps, which the operator's code
reads and which are fields of their own below. -/

inductive FieldType where
  | string | bool | int | strings | stringMap | stringListMap | protocolMappers
deriving DecidableEq, Repr

def isStr : JSON → Bool
  | .str _ => true
  | _ => false

def isStrings : JSON → Bool
  | .arr _ items => decide (∀ i, isStr (items i) = true)
  | _ => false

/-- A non-empty map whose values are accepted by `value`. -/
def isMapOf (value : JSON → Bool) : JSON → Bool
  | .obj keys vals => decide (keys.card ≠ 0) && decide (∀ k, value (vals k) = true)
  | _ => false

def isProtocolMapper : JSON → Bool
  | .obj _ vals => decide (∀ k, (match k.val, vals k with
      | "name", .str _ => true
      | "protocol", .str _ => true
      | "protocolMapper", .str _ => true
      | "consentRequired", .bool _ => true
      | "config", config => isMapOf isStr config
      | _, _ => false) = true)
  | _ => false

def FieldType.accepts : FieldType → JSON → Bool
  | .string, v => isStr v
  | .bool, .bool _ => true
  | .int, .num _ => true
  | .strings, .arr n items => decide (n ≠ 0) && isStrings (.arr n items)
  | .stringMap, v => isMapOf isStr v
  | .stringListMap, v => isMapOf isStrings v
  | .protocolMappers, .arr n items =>
      decide (n ≠ 0) && decide (∀ i, isProtocolMapper (items i) = true)
  | _, _ => false

abbrev FieldTable := List (String × FieldType)

def realmFields : FieldTable :=
  [("enabled", .bool), ("displayName", .string), ("displayNameHtml", .string),
   ("sslRequired", .string), ("notBefore", .int), ("registrationAllowed", .bool),
   ("registrationEmailAsUsername", .bool), ("loginWithEmailAllowed", .bool),
   ("duplicateEmailsAllowed", .bool), ("resetPasswordAllowed", .bool), ("rememberMe", .bool),
   ("verifyEmail", .bool), ("userManagedAccessAllowed", .bool), ("ssoSessionIdleTimeout", .int),
   ("ssoSessionMaxLifespan", .int), ("ssoSessionIdleTimeoutRememberMe", .int),
   ("ssoSessionMaxLifespanRememberMe", .int), ("clientSessionIdleTimeout", .int),
   ("clientSessionMaxLifespan", .int), ("clientOfflineSessionIdleTimeout", .int),
   ("clientOfflineSessionMaxLifespan", .int), ("accessTokenLifespan", .int),
   ("accessTokenLifespanForImplicitFlow", .int), ("offlineSessionIdleTimeout", .int),
   ("offlineSessionMaxLifespanEnabled", .bool), ("offlineSessionMaxLifespan", .int),
   ("accessCodeLifespan", .int), ("accessCodeLifespanUserAction", .int),
   ("accessCodeLifespanLogin", .int), ("actionTokenGeneratedByAdminLifespan", .int),
   ("actionTokenGeneratedByUserLifespan", .int), ("oauth2DeviceCodeLifespan", .int),
   ("oauth2DevicePollingInterval", .int), ("revokeRefreshToken", .bool),
   ("refreshTokenMaxReuse", .int), ("loginTheme", .string), ("accountTheme", .string),
   ("adminTheme", .string), ("emailTheme", .string), ("smtpServer", .stringMap),
   ("eventsEnabled", .bool), ("eventsExpiration", .int), ("eventsListeners", .strings),
   ("enabledEventTypes", .strings), ("adminEventsEnabled", .bool),
   ("adminEventsDetailsEnabled", .bool), ("passwordPolicy", .string),
   ("bruteForceProtected", .bool), ("permanentLockout", .bool), ("maxFailureWaitSeconds", .int),
   ("minimumQuickLoginWaitSeconds", .int), ("waitIncrementSeconds", .int),
   ("quickLoginCheckMilliSeconds", .int), ("maxDeltaTimeSeconds", .int), ("failureFactor", .int),
   ("otpPolicyType", .string), ("otpPolicyAlgorithm", .string),
   ("otpPolicyInitialCounter", .int), ("otpPolicyDigits", .int),
   ("otpPolicyLookAheadWindow", .int), ("otpPolicyPeriod", .int),
   ("otpPolicyCodeReusable", .bool), ("webAuthnPolicyRpEntityName", .string),
   ("webAuthnPolicySignatureAlgorithms", .strings), ("webAuthnPolicyRpId", .string),
   ("webAuthnPolicyAttestationConveyancePreference", .string),
   ("webAuthnPolicyAuthenticatorAttachment", .string),
   ("webAuthnPolicyRequireResidentKey", .string),
   ("webAuthnPolicyUserVerificationRequirement", .string),
   ("webAuthnPolicyCreateTimeout", .int),
   ("webAuthnPolicyAvoidSameAuthenticatorRegister", .bool),
   ("webAuthnPolicyAcceptableAaguids", .strings),
   ("webAuthnPolicyPasswordlessRpEntityName", .string),
   ("webAuthnPolicyPasswordlessSignatureAlgorithms", .strings),
   ("webAuthnPolicyPasswordlessRpId", .string),
   ("webAuthnPolicyPasswordlessAttestationConveyancePreference", .string),
   ("webAuthnPolicyPasswordlessAuthenticatorAttachment", .string),
   ("webAuthnPolicyPasswordlessRequireResidentKey", .string),
   ("webAuthnPolicyPasswordlessUserVerificationRequirement", .string),
   ("webAuthnPolicyPasswordlessCreateTimeout", .int),
   ("webAuthnPolicyPasswordlessAvoidSameAuthenticatorRegister", .bool),
   ("webAuthnPolicyPasswordlessAcceptableAaguids", .strings),
   ("internationalizationEnabled", .bool), ("supportedLocales", .strings),
   ("defaultLocale", .string), ("defaultDefaultClientScopes", .strings),
   ("defaultOptionalClientScopes", .strings), ("defaultSignatureAlgorithm", .string),
   ("attributes", .stringMap), ("browserSecurityHeaders", .stringMap),
   ("organizationsEnabled", .bool)]

def clientFields : FieldTable :=
  [("name", .string), ("description", .string), ("enabled", .bool), ("protocol", .string),
   ("publicClient", .bool), ("bearerOnly", .bool), ("standardFlowEnabled", .bool),
   ("implicitFlowEnabled", .bool), ("directAccessGrantsEnabled", .bool),
   ("serviceAccountsEnabled", .bool), ("authorizationServicesEnabled", .bool),
   ("frontchannelLogout", .bool), ("fullScopeAllowed", .bool), ("consentRequired", .bool),
   ("displayOnConsentScreen", .bool), ("consentScreenText", .string),
   ("alwaysDisplayInConsole", .bool), ("surrogateAuthRequired", .bool), ("rootUrl", .string),
   ("baseUrl", .string), ("adminUrl", .string), ("redirectUris", .strings),
   ("webOrigins", .strings), ("nodeReRegistrationTimeout", .int),
   ("clientAuthenticatorType", .string), ("protocolMappers", .protocolMappers),
   ("attributes", .stringMap), ("authenticationFlowBindingOverrides", .stringMap)]

def clientScopeFields : FieldTable :=
  [("description", .string), ("protocol", .string), ("attributes", .stringMap),
   ("protocolMappers", .protocolMappers), ("displayOnConsentScreen", .bool),
   ("consentScreenText", .string)]

def realmRoleFields : FieldTable := [("description", .string), ("attributes", .stringListMap)]

def identityProviderFields : FieldTable :=
  [("displayName", .string), ("enabled", .bool), ("trustEmail", .bool), ("storeToken", .bool),
   ("addReadTokenRoleOnCreate", .bool), ("linkOnly", .bool),
   ("firstBrokerLoginFlowAlias", .string), ("postBrokerLoginFlowAlias", .string),
   ("config", .stringMap)]

def groupFields : FieldTable := [("attributes", .stringListMap)]

/-- The JSON entries of the fields of a table that a spec sets. -/
structure Fields (table : FieldTable) where
  entries : Object
  typed : ∀ k : {k // k ∈ entries.keys},
    (table.any fun field => decide (field.1 = k) && field.2.accepts (entries.vals k)) = true
deriving DecidableEq

theorem Fields.typed_empty (table : FieldTable) (k : {k // k ∈ (∅ : Object).keys}) :
    (table.any fun field =>
      decide (field.1 = k) && field.2.accepts ((∅ : Object).vals k)) = true :=
  absurd k.2 List.not_mem_nil

/-! ### Specs -/

/-- The fields that every spec has. -/
structure SpecHeader where
  keycloakRef : String
  realm : String
  adoptionPolicy : Option AdoptionPolicy := none
  deletionPolicy : Option DeletionPolicy := none
deriving DecidableEq

structure RealmSpec extends SpecHeader where
  smtpServerSecretRef : Option SecretKeysSelector := none
  fields : Fields realmFields
deriving DecidableEq

structure ClientSpec extends SpecHeader where
  clientId : String
  secretRef : Option SecretKeySelector := none
  secretOutput : Option SecretKeySelector := none
  defaultClientScopes : Option (List String) := none
  optionalClientScopes : Option (List String) := none
  fields : Fields clientFields
deriving DecidableEq

structure ClientScopeSpec extends SpecHeader where
  name : String
  fields : Fields clientScopeFields
deriving DecidableEq

structure RealmRoleSpec extends SpecHeader where
  name : String
  composite : Option Bool := none
  composites : Option RoleComposites := none
  fields : Fields realmRoleFields
deriving DecidableEq

structure IdentityProviderSpec extends SpecHeader where
  idpAlias : String
  providerId : String
  configSecretRef : Option SecretKeysSelector := none
  mappers : List IdentityProviderMapper := []
  fields : Fields identityProviderFields
deriving DecidableEq

structure GroupSpec extends SpecHeader where
  name : String
  realmRoles : Option (List String) := none
  clientRoles : Option (FiniteMap String (List String)) := none
  fields : Fields groupFields
deriving DecidableEq

inductive Spec where
  | realm (s : RealmSpec)
  | client (s : ClientSpec)
  | clientScope (s : ClientScopeSpec)
  | realmRole (s : RealmRoleSpec)
  | identityProvider (s : IdentityProviderSpec)
  | group (s : GroupSpec)
deriving DecidableEq

namespace Spec

def kind : Spec → Kind
  | .realm _ => .realm
  | .client _ => .client
  | .clientScope _ => .clientScope
  | .realmRole _ => .realmRole
  | .identityProvider _ => .identityProvider
  | .group _ => .group

def header : Spec → SpecHeader
  | .realm s => s.toSpecHeader
  | .client s => s.toSpecHeader
  | .clientScope s => s.toSpecHeader
  | .realmRole s => s.toSpecHeader
  | .identityProvider s => s.toSpecHeader
  | .group s => s.toSpecHeader

/-! ### Accessors (`methods.go`) -/

def connectionName (s : Spec) : String := s.header.keycloakRef

def targetRealm (s : Spec) : String := s.header.realm

/-- The adoption policy, defaulting to CreateOnly. -/
def adoption (s : Spec) : AdoptionPolicy := s.header.adoptionPolicy.getD .createOnly

/-- The deletion policy, defaulting to Delete; realms are never deleted
    implicitly. -/
def deletion (s : Spec) : DeletionPolicy :=
  s.header.deletionPolicy.getD (if s.kind = .realm then .orphan else .delete)

/-- The natural key of the resource within its realm. -/
def naturalKey : Spec → String
  | .realm s => s.realm
  | .client s => s.clientId
  | .clientScope s => s.name
  | .realmRole s => s.name
  | .identityProvider s => s.idpAlias
  | .group s => s.name

/-! ### The JSON round trip -/

/-- The header entries of `toJSONMap`. -/
def headerEntries (h : SpecHeader) (m : Object) : Object :=
  putSome (putSome ((m.put "keycloakRef" (.ofObject (.ofList [("name", .str h.keycloakRef)]))).put
    "realm" (.str h.realm))
    "adoptionPolicy" (h.adoptionPolicy.map jsonAdoptionPolicy))
    "deletionPolicy" (h.deletionPolicy.map jsonDeletionPolicy)

/-- `toJSONMap` of the spec. -/
def toJSONMap : Spec → Object
  | .realm s => headerEntries s.toSpecHeader
      (putSome s.fields.entries "smtpServerSecretRef" (s.smtpServerSecretRef.map (·.json)))
  | .client s => headerEntries s.toSpecHeader
      (putSome (putSome (putSome (putSome (s.fields.entries.put "clientId" (.str s.clientId))
        "secretRef" (s.secretRef.map (·.json)))
        "secretOutput" (s.secretOutput.map (·.json)))
        "defaultClientScopes" (s.defaultClientScopes.map jsonStrings))
        "optionalClientScopes" (s.optionalClientScopes.map jsonStrings))
  | .clientScope s => headerEntries s.toSpecHeader (s.fields.entries.put "name" (.str s.name))
  | .realmRole s => headerEntries s.toSpecHeader
      (putSome (putSome (s.fields.entries.put "name" (.str s.name))
        "composite" (s.composite.map .bool))
        "composites" (s.composites.map (·.json)))
  | .identityProvider s => headerEntries s.toSpecHeader
      (putSome (putSome ((s.fields.entries.put "alias" (.str s.idpAlias)).put
        "providerId" (.str s.providerId))
        "configSecretRef" (s.configSecretRef.map (·.json)))
        "mappers" (if s.mappers = [] then none
          else some (.ofList (s.mappers.map fun m => .ofObject m.toJSONMap))))
  | .group s => headerEntries s.toSpecHeader
      (putSome (putSome (s.fields.entries.put "name" (.str s.name))
        "realmRoles" (s.realmRoles.map jsonStrings))
        "clientRoles" (s.clientRoles.map jsonStringListMap))

end Spec

/-! ### Status -/

inductive ConditionType where
  | ready | synced
deriving DecidableEq, Repr

inductive ConditionStatus where
  | true | false | unknown
deriving DecidableEq, Repr

inductive Reason where
  | succeeded | retrying | failed | connectionUnavailable | alreadyExists | secretMissing
  | protectedRealm
deriving DecidableEq, Repr

def Reason.text : Reason → String
  | .succeeded => "Succeeded"
  | .retrying => "Retrying"
  | .failed => "Failed"
  | .connectionUnavailable => "ConnectionUnavailable"
  | .alreadyExists => "AlreadyExists"
  | .secretMissing => "SecretMissing"
  | .protectedRealm => "ProtectedRealm"

structure Condition where
  type : ConditionType
  status : ConditionStatus
  observedGeneration : Nat
  reason : Reason
  message : String
  lastTransitionTime : Nat
deriving DecidableEq

/-- `meta.SetStatusCondition`: the transition time moves only with the status. -/
def setStatusCondition (new : Condition) : List Condition → List Condition
  | [] => [new]
  | c :: rest =>
      if c.type = new.type then
        { new with lastTransitionTime :=
            if c.status = new.status then c.lastTransitionTime else new.lastTransitionTime } :: rest
      else c :: setStatusCondition new rest

/-- `meta.FindStatusCondition`. -/
def findStatusCondition (conditions : List Condition) (type : ConditionType) : Option Condition :=
  conditions.find? fun c => decide (c.type = type)

/-- The shared status block, with the `secretName` of clients. -/
structure ResourceStatus where
  conditions : List Condition := []
  observedGeneration : Nat := 0
  secretName : String := ""
deriving DecidableEq

/-! ### Managed objects -/

/-- A custom resource, with the metadata that the operator reads or writes. -/
structure ManagedObject where
  ns : String
  name : String
  uid : String
  generation : Nat
  deletionTimestamp : Option Nat := none
  finalizers : List String := []
  lastApplied : AnnotationText := .empty
  allowProtected : Option String := none
  spec : Spec
  status : ResourceStatus := {}
deriving DecidableEq

end KeycloakOperator
