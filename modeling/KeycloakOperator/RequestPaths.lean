import KeycloakOperator.Operations
import KeycloakOperator.UrlPath

/-!
# The paths of the requests

The path builders of `internal/keycloak/resources.go` put realms, names and ids into the path with
`url.PathEscape`.  `request_paths_resolve_iff` says when the path still leads to the intended
place after dot segments have been removed: unless one of the names consists of one or two dots.
-/

namespace KeycloakOperator

/-! ### Escaping -/

/-- The bytes of a string in UTF-8. -/
def stringBytes (s : String) : List UInt8 := s.toByteArray.data.toList

theorem stringBytes_injective : Function.Injective stringBytes := by
  intro s s' heq
  exact String.toByteArray_inj.mp (ByteArray.ext (Array.toList_inj.mp heq))

/-- The bytes that `url.PathEscape` leaves: letters, digits and `-_.~$&+=:@`. -/
def pathBytes : UrlPath.Unreserved where
  keeps b :=
    (97 ≤ b.toNat && b.toNat ≤ 122) || (65 ≤ b.toNat && b.toNat ≤ 90) ||
      (48 ≤ b.toNat && b.toNat ≤ 57) || b.toNat ∈ [45, 95, 46, 126, 36, 38, 43, 61, 58, 64]
  ascii b h := by
    simp only [Bool.or_eq_true, Bool.and_eq_true, decide_eq_true_eq, List.mem_cons,
      List.not_mem_nil, or_false] at h
    omega
  percent := by decide
  slash := by decide

/-- `url.PathEscape`. -/
def pathEscape (s : String) : String := .ofList (UrlPath.escape pathBytes (stringBytes s))

def realmPath (realm : String) : String := "/admin/realms/" ++ pathEscape realm

def ScopeList.word : ScopeList → String
  | .default => "default-client-scopes"
  | .optional => "optional-client-scopes"

/-- The path of a request, without the query of a search. -/
def requestPath : Endpoint → String
  | .realms => "/admin/realms"
  | .realm realm => realmPath realm
  | .clients realm => realmPath realm ++ "/clients"
  | .clientsByClientId realm _ => realmPath realm ++ "/clients"
  | .client realm id => realmPath realm ++ "/clients/" ++ pathEscape id
  | .clientSecret realm id => realmPath realm ++ "/clients/" ++ pathEscape id ++ "/client-secret"
  | .clientScopes realm => realmPath realm ++ "/client-scopes"
  | .clientScope realm id => realmPath realm ++ "/client-scopes/" ++ pathEscape id
  | .assignments realm client list =>
      realmPath realm ++ "/clients/" ++ pathEscape client ++ "/" ++ list.word
  | .assignment realm client list scope =>
      realmPath realm ++ "/clients/" ++ pathEscape client ++ "/" ++ list.word ++ "/" ++
        pathEscape scope
  | .roles realm => realmPath realm ++ "/roles"
  | .role realm name => realmPath realm ++ "/roles/" ++ pathEscape name
  | .composites realm name => realmPath realm ++ "/roles/" ++ pathEscape name ++ "/composites"
  | .clientRole realm client name =>
      realmPath realm ++ "/clients/" ++ pathEscape client ++ "/roles/" ++ pathEscape name
  | .identityProviders realm => realmPath realm ++ "/identity-provider/instances"
  | .identityProvider realm idpAlias =>
      realmPath realm ++ "/identity-provider/instances/" ++ pathEscape idpAlias
  | .mappers realm idpAlias =>
      realmPath realm ++ "/identity-provider/instances/" ++ pathEscape idpAlias ++ "/mappers"
  | .mapper realm idpAlias id =>
      realmPath realm ++ "/identity-provider/instances/" ++ pathEscape idpAlias ++ "/mappers/" ++
        pathEscape id
  | .groups realm => realmPath realm ++ "/groups"
  | .groupSearch realm _ => realmPath realm ++ "/groups"
  | .group realm id => realmPath realm ++ "/groups/" ++ pathEscape id
  | .roleMappings realm group => realmPath realm ++ "/groups/" ++ pathEscape group ++ "/role-mappings"
  | .realmRoleMappings realm group =>
      realmPath realm ++ "/groups/" ++ pathEscape group ++ "/role-mappings/realm"
  | .clientRoleMappings realm group client =>
      realmPath realm ++ "/groups/" ++ pathEscape group ++ "/role-mappings/clients/" ++
        pathEscape client

/-! ### The intended segments -/

/-- A segment as it is meant: a word of the API, or a name. -/
inductive PathPart where
  | word (text : String)
  | name (text : String)
deriving DecidableEq

/-- The place below `/admin/realms/REALM`. -/
def inRealm (realm : String) (parts : List PathPart) : List PathPart :=
  .word "admin" :: .word "realms" :: .name realm :: parts

/-- The place that a request is meant for. -/
def requestParts : Endpoint → List PathPart
  | .realms => [.word "admin", .word "realms"]
  | .realm realm => inRealm realm []
  | .clients realm => inRealm realm [.word "clients"]
  | .clientsByClientId realm _ => inRealm realm [.word "clients"]
  | .client realm id => inRealm realm [.word "clients", .name id]
  | .clientSecret realm id => inRealm realm [.word "clients", .name id, .word "client-secret"]
  | .clientScopes realm => inRealm realm [.word "client-scopes"]
  | .clientScope realm id => inRealm realm [.word "client-scopes", .name id]
  | .assignments realm client list =>
      inRealm realm [.word "clients", .name client, .word list.word]
  | .assignment realm client list scope =>
      inRealm realm [.word "clients", .name client, .word list.word, .name scope]
  | .roles realm => inRealm realm [.word "roles"]
  | .role realm name => inRealm realm [.word "roles", .name name]
  | .composites realm name => inRealm realm [.word "roles", .name name, .word "composites"]
  | .clientRole realm client name =>
      inRealm realm [.word "clients", .name client, .word "roles", .name name]
  | .identityProviders realm => inRealm realm [.word "identity-provider", .word "instances"]
  | .identityProvider realm idpAlias =>
      inRealm realm [.word "identity-provider", .word "instances", .name idpAlias]
  | .mappers realm idpAlias =>
      inRealm realm [.word "identity-provider", .word "instances", .name idpAlias, .word "mappers"]
  | .mapper realm idpAlias id =>
      inRealm realm [.word "identity-provider", .word "instances", .name idpAlias, .word "mappers",
        .name id]
  | .groups realm => inRealm realm [.word "groups"]
  | .groupSearch realm _ => inRealm realm [.word "groups"]
  | .group realm id => inRealm realm [.word "groups", .name id]
  | .roleMappings realm group => inRealm realm [.word "groups", .name group, .word "role-mappings"]
  | .realmRoleMappings realm group =>
      inRealm realm [.word "groups", .name group, .word "role-mappings", .word "realm"]
  | .clientRoleMappings realm group client =>
      inRealm realm [.word "groups", .name group, .word "role-mappings", .word "clients", .name client]

/-- The segment of a path is what was meant: the word itself, or the name in escaped form. -/
def PathPart.Reads : PathPart → List Char → Prop
  | .word text, segment => segment = text.toList
  | .name text, segment => UrlPath.unescape segment = some (stringBytes text)

def PathPart.segment : PathPart → List Char
  | .word text => text.toList
  | .name text => (pathEscape text).toList

/-- The path is the sequence of the intended segments. -/
theorem path_eq_join (endpoint : Endpoint) :
    (requestPath endpoint).toList = UrlPath.join ((requestParts endpoint).map PathPart.segment) := by
  rcases endpoint with _ | _ | _ | _ | _ | _ | _ | _ | ⟨_, _, _ | _⟩ | ⟨_, _, _ | _, _⟩ | _ | _ | _ |
    _ | _ | _ | _ | _ | _ | _ | _ | _ | _ | _ <;>
  simp [requestPath, requestParts, realmPath, inRealm, UrlPath.join, PathPart.segment,
    ScopeList.word]

/-- The words of the API need no escaping. -/
def PathPart.Proper : PathPart → Prop
  | .word text => pathEscape text = text ∧ text ≠ "." ∧ text ≠ ".."
  | .name _ => True

def apiWords : List String :=
  ["admin", "realms", "clients", "client-secret", "client-scopes", "default-client-scopes",
    "optional-client-scopes", "roles", "composites", "identity-provider", "instances", "mappers",
    "groups", "role-mappings", "realm"]

theorem proper_of_mem : ∀ text ∈ apiWords, (PathPart.word text).Proper := by
  simp only [PathPart.Proper]
  decide +kernel

theorem proper_requestParts (endpoint : Endpoint) :
    ∀ part ∈ requestParts endpoint, part.Proper := by
  have hwords : ∀ part ∈ requestParts endpoint, ∀ text, part = .word text → text ∈ apiWords := by
    rcases endpoint with _ | _ | _ | _ | _ | _ | _ | _ | ⟨_, _, _ | _⟩ | ⟨_, _, _ | _, _⟩ | _ | _ | _ |
      _ | _ | _ | _ | _ | _ | _ | _ | _ | _ | _ <;>
    simp [requestParts, inRealm, ScopeList.word, apiWords]
  intro part hpart
  cases part with
  | word text => exact proper_of_mem text (hwords _ hpart text rfl)
  | name text => trivial

def PathPart.text : PathPart → String
  | .word text => text
  | .name text => text

section Parts

variable {part : PathPart}

theorem segment_eq (h : part.Proper) :
    part.segment = UrlPath.escape pathBytes (stringBytes part.text) := by
  cases part with
  | word text =>
    exact (congrArg String.toList h.1.symm).trans String.toList_ofList
  | name text => exact String.toList_ofList

theorem unescape_segment (h : part.Proper) :
    UrlPath.unescape part.segment = some (stringBytes part.text) := by
  rw [segment_eq h, UrlPath.unescape_escape]

theorem slash_notMem_segment (h : part.Proper) : '/' ∉ part.segment := by
  rw [segment_eq h]
  exact UrlPath.slash_notMem_escape _

theorem isDots_segment (h : part.Proper) :
    UrlPath.IsDots part.segment ↔ part.text = "." ∨ part.text = ".." := by
  have hdot : ['.'] = UrlPath.escape pathBytes (stringBytes ".") := by decide +kernel
  have hdots : ['.', '.'] = UrlPath.escape pathBytes (stringBytes "..") := by decide +kernel
  rw [UrlPath.IsDots, segment_eq h, hdots, hdot, UrlPath.escape_injective.eq_iff,
    UrlPath.escape_injective.eq_iff, stringBytes_injective.eq_iff, stringBytes_injective.eq_iff]

theorem reads_segment (part : PathPart) : part.Reads part.segment := by
  cases part with
  | word text => rfl
  | name text => exact @unescape_segment (.name text) trivial

/-- What is read under a name is the text of the part. -/
theorem text_eq_of_reads {text : String} {other : PathPart} (h : other.Proper)
    (hreads : (PathPart.name text).Reads other.segment) : other.text = text := by
  have hbytes := (unescape_segment h).symm.trans hreads
  exact stringBytes_injective (Option.some.inj hbytes)

end Parts

/-! ### Resolved paths -/

/-- None of the names consists of one or two dots. -/
def Undotted (endpoint : Endpoint) : Prop :=
  ∀ name, .name name ∈ requestParts endpoint → name ≠ "." ∧ name ≠ ".."

/-- The path of the request after the removal of dot segments. -/
def resolvedPath (endpoint : Endpoint) : List (List Char) :=
  UrlPath.resolve (requestPath endpoint).toList

theorem resolvedPath_eq (endpoint : Endpoint) :
    resolvedPath endpoint =
      UrlPath.removeDots [] ((requestParts endpoint).map PathPart.segment) := by
  rw [resolvedPath, UrlPath.resolve, path_eq_join, UrlPath.segments_join]
  intro seg hseg
  obtain ⟨part, hpart, rfl⟩ := List.mem_map.mp hseg
  exact slash_notMem_segment (proper_requestParts endpoint part hpart)

/-- Without dots the segments are the intended ones. -/
theorem resolvedPath_of_undotted {endpoint : Endpoint} (h : Undotted endpoint) :
    resolvedPath endpoint = (requestParts endpoint).map PathPart.segment := by
  rw [resolvedPath_eq, UrlPath.removeDots_of_forall, List.nil_append]
  intro seg hseg
  obtain ⟨part, hpart, rfl⟩ := List.mem_map.mp hseg
  have hproper := proper_requestParts endpoint part hpart
  rw [isDots_segment hproper, not_or]
  cases part with
  | word text => exact hproper.2
  | name text => exact h text hpart

/-- A name of dots cannot be read from the path. -/
theorem undotted_of_reads {endpoint : Endpoint}
    (h : List.Forall₂ PathPart.Reads (requestParts endpoint) (resolvedPath endpoint)) :
    Undotted endpoint := by
  intro name hname
  obtain ⟨seg, hseg, hreads⟩ := forall₂_exists h hname
  rw [resolvedPath_eq] at hseg
  rcases UrlPath.mem_removeDots hseg with hnone | rfl | ⟨hmem, hdots⟩
  · cases hnone
  · -- the empty segment at the end of the path
    have hempty : name = "" := stringBytes_injective (Option.some.inj hreads).symm
    rw [hempty]
    decide
  · obtain ⟨part, hpart, rfl⟩ := List.mem_map.mp hmem
    have hproper := proper_requestParts endpoint part hpart
    rw [isDots_segment hproper, not_or, text_eq_of_reads hproper hreads] at hdots
    exact hdots

/-! ### Distinct places -/

/-- Names and words in turn. -/
def namesAndWords : List String → List PathPart
  | [] => []
  | [name] => [.name name]
  | name :: word :: rest => .name name :: .word word :: namesAndWords rest

/-- The parts of a path from their texts. -/
def placeOf : List String → List PathPart
  | _ :: _ :: realm :: top :: rest =>
      inRealm realm <|
        if top = "identity-provider" then
          .word top :: (rest.take 1).map .word ++ namesAndWords (rest.drop 1)
        else if top = "groups" then
          .word top :: namesAndWords (rest.take 2) ++ ((rest.drop 2).take 1).map .word ++
            namesAndWords (rest.drop 3)
        else
          .word top :: namesAndWords rest
  | [_, _, realm] => inRealm realm []
  | _ => [.word "admin", .word "realms"]

theorem placeOf_texts (endpoint : Endpoint) :
    placeOf ((requestParts endpoint).map PathPart.text) = requestParts endpoint := by
  cases endpoint <;> rfl

theorem map_segment (endpoint : Endpoint) :
    (requestParts endpoint).map PathPart.segment =
      ((requestParts endpoint).map PathPart.text).map
        fun text => UrlPath.escape pathBytes (stringBytes text) := by
  rw [List.map_map]
  exact List.map_congr_left fun part hpart => segment_eq (proper_requestParts endpoint part hpart)

/-- Different places have different paths. -/
theorem requestParts_inj {endpoint other : Endpoint} (h : Undotted endpoint) (h' : Undotted other)
    (heq : resolvedPath other = resolvedPath endpoint) :
    requestParts other = requestParts endpoint := by
  rw [resolvedPath_of_undotted h, resolvedPath_of_undotted h', map_segment, map_segment] at heq
  have hinj : Function.Injective fun text => UrlPath.escape pathBytes (stringBytes text) :=
    UrlPath.escape_injective.comp stringBytes_injective
  rw [← placeOf_texts other, ← placeOf_texts endpoint, List.map_injective_iff.mpr hinj heq]

/-- A request reaches its place, and no other request does, unless one of its names consists of
    one or two dots. -/
theorem request_paths_resolve_iff (endpoint : Endpoint) :
    (List.Forall₂ PathPart.Reads (requestParts endpoint) (resolvedPath endpoint) ∧
      ∀ other, Undotted other → requestParts other ≠ requestParts endpoint →
        resolvedPath other ≠ resolvedPath endpoint) ↔ Undotted endpoint := by
  constructor
  · rintro ⟨hreads, -⟩
    exact undotted_of_reads hreads
  · intro h
    constructor
    · rw [resolvedPath_of_undotted h, List.forall₂_map_right_iff, List.forall₂_same]
      intro part _
      exact reads_segment part
    · intro other h' hne heq
      exact hne (requestParts_inj h h' heq)

/-- The deletion of the role `..` of the realm demo resolves to the path of the realm. -/
theorem dotted_role_reaches_realm :
    resolvedPath (.role "demo" "..") = ["admin", "realms", "demo", ""].map String.toList ∧
      ¬ List.Forall₂ PathPart.Reads (requestParts (.role "demo" ".."))
        (resolvedPath (.role "demo" "..")) := by
  have heq : resolvedPath (.role "demo" "..") =
      ["admin", "realms", "demo", ""].map String.toList := by
    decide +kernel
  refine ⟨heq, fun hreads => ?_⟩
  have hlength := hreads.length_eq
  rw [heq] at hlength
  exact absurd hlength (by decide)

end KeycloakOperator
