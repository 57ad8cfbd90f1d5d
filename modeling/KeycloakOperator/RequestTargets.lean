import KeycloakOperator.RequestPaths

/-!
# The targets of the requests

What `internal/keycloak/resources.go` hands to `Do` is the path of a request and, for the two
searches, a query with a name in it.  `requestTarget_injective` says that nothing is lost on the
way: whatever bytes the realm, the names and the ids consist of, two different endpoints have
different targets, so that a server that reads the target finds out what was asked of it.
-/

namespace KeycloakOperator

/-! ### Queries -/

/-- What `url.QueryEscape` leaves: letters, digits and `-_.~`. -/
def queryKeeps (b : UInt8) : Bool :=
  (97 ≤ b.toNat && b.toNat ≤ 122) || (65 ≤ b.toNat && b.toNat ≤ 90) ||
    (48 ≤ b.toNat && b.toNat ≤ 57) || b.toNat ∈ [45, 95, 46, 126]

theorem queryKeeps_ascii (b : UInt8) (h : queryKeeps b = true) : b.toNat < 128 := by
  simp only [queryKeeps, Bool.or_eq_true, Bool.and_eq_true, decide_eq_true_eq, List.mem_cons,
    List.not_mem_nil, or_false] at h
  omega

def queryBytes : UrlPath.Unreserved := ⟨queryKeeps, queryKeeps_ascii, rfl, rfl⟩

/-- A blank becomes a plus sign. -/
def queryByte (b : UInt8) : List Char := if b = 32 then ['+'] else UrlPath.escapeByte queryBytes b

/-- `url.QueryEscape`. -/
def queryEscape (s : String) : String := .ofList ((stringBytes s).flatMap queryByte)

/-- The blank in the form it has in a path. -/
def plusToPercent (c : Char) : List Char := if c = '+' then ['%', '2', '0'] else [c]

theorem queryByte_plusToPercent (b : UInt8) :
    (queryByte b).flatMap plusToPercent = UrlPath.escapeByte queryBytes b := by
  have hall : ∀ n < 256, (queryByte (UInt8.ofNat n)).flatMap plusToPercent =
      UrlPath.escapeByte queryBytes (UInt8.ofNat n) := by decide +kernel
  have hb := hall b.toNat b.toNat_lt
  rwa [UInt8.ofNat_toNat] at hb

theorem queryEscape_injective : Function.Injective queryEscape := by
  have hplain : ∀ s, (queryEscape s).toList.flatMap plusToPercent =
      UrlPath.escape queryBytes (stringBytes s) := by
    intro s
    rw [queryEscape, String.toList_ofList, List.flatMap_assoc, UrlPath.escape]
    exact List.flatMap_congr fun b _ => queryByte_plusToPercent b
  intro s s' heq
  have hbytes : UrlPath.escape queryBytes (stringBytes s) =
      UrlPath.escape queryBytes (stringBytes s') := by
    rw [← hplain, ← hplain, heq]
  exact stringBytes_injective (UrlPath.escape_injective hbytes)

/-- What a search looks for. -/
inductive SearchTerm where
  | clientId (text : String)
  | groupName (text : String)
deriving DecidableEq

def searchTerm : Endpoint → Option SearchTerm
  | .clientsByClientId _ clientId => some (.clientId clientId)
  | .groupSearch _ name => some (.groupName name)
  | _ => none

def SearchTerm.query : SearchTerm → String
  | .clientId text => "?clientId=" ++ queryEscape text
  | .groupName text => "?search=" ++ queryEscape text ++ "&exact=true&max=2"

theorem SearchTerm.query_injective : Function.Injective SearchTerm.query := by
  intro term other heq
  have hlist := congrArg String.toList heq
  rcases term with text | text <;> rcases other with text' | text' <;>
    simp [SearchTerm.query] at hlist
  · rw [queryEscape_injective (String.toList_inj.mp hlist)]
  · rw [queryEscape_injective (String.toList_inj.mp hlist)]

def queryText : Option SearchTerm → String
  | some term => term.query
  | none => ""

theorem queryText_injective : Function.Injective queryText := by
  have hstart : ∀ term : SearchTerm, ∃ rest, (queryText (some term)).toList = '?' :: rest := by
    rintro (text | text) <;> simp [queryText, SearchTerm.query]
  intro query other heq
  rcases query with _ | term <;> rcases other with _ | term'
  · rfl
  · obtain ⟨rest, hrest⟩ := hstart term'
    rw [← heq] at hrest
    cases hrest
  · obtain ⟨rest, hrest⟩ := hstart term
    rw [heq] at hrest
    cases hrest
  · exact congrArg some (SearchTerm.query_injective heq)

/-! ### Targets -/

/-- The path of a request with its query. -/
def requestTarget (endpoint : Endpoint) : String :=
  requestPath endpoint ++ queryText (searchTerm endpoint)

/-- The endpoint with these texts in its path. -/
def readEndpoint : List String → Option SearchTerm → Endpoint
  | [_, _, realm, top, name, sub, _, id], _ =>
      if top = "groups" then .clientRoleMappings realm name id else .mapper realm sub id
  | [_, _, realm, top, name, sub, last], _ =>
      if top = "groups" then .realmRoleMappings realm name
      else if top = "identity-provider" then .mappers realm sub
      else if sub = "roles" then .clientRole realm name last
      else .assignment realm name (if sub = ScopeList.word .default then .default else .optional) last
  | [_, _, realm, top, name, sub], _ =>
      if top = "groups" then .roleMappings realm name
      else if top = "roles" then .composites realm name
      else if top = "identity-provider" then .identityProvider realm sub
      else if sub = "client-secret" then .clientSecret realm name
      else .assignments realm name (if sub = ScopeList.word .default then .default else .optional)
  | [_, _, realm, top, name], _ =>
      if top = "clients" then .client realm name
      else if top = "client-scopes" then .clientScope realm name
      else if top = "roles" then .role realm name
      else if top = "groups" then .group realm name
      else .identityProviders realm
  | [_, _, realm, top], term =>
      match term with
      | some (.clientId clientId) => .clientsByClientId realm clientId
      | some (.groupName name) => .groupSearch realm name
      | none =>
          if top = "clients" then .clients realm
          else if top = "client-scopes" then .clientScopes realm
          else if top = "roles" then .roles realm
          else .groups realm
  | [_, _, realm], _ => .realm realm
  | _, _ => .realms

/-- **Requests read back** from the texts of their path and their query. -/
theorem readEndpoint_texts (endpoint : Endpoint) :
    readEndpoint ((requestParts endpoint).map PathPart.text) (searchTerm endpoint) = endpoint := by
  rcases endpoint with _ | _ | _ | _ | _ | _ | _ | _ | ⟨_, _, _ | _⟩ | ⟨_, _, _ | _, _⟩ | _ | _ | _ |
    _ | _ | _ | _ | _ | _ | _ | _ | _ | _ | _ <;> rfl

/-- The texts of a path can be read from it. -/
theorem texts_of_requestPath {endpoint other : Endpoint}
    (h : requestPath endpoint = requestPath other) :
    (requestParts endpoint).map PathPart.text = (requestParts other).map PathPart.text := by
  have hsegments : ∀ e : Endpoint, UrlPath.segments (requestPath e).toList =
      (requestParts e).map PathPart.segment := by
    intro e
    rw [path_eq_join, UrlPath.segments_join]
    intro seg hseg
    obtain ⟨part, hpart, rfl⟩ := List.mem_map.mp hseg
    exact slash_notMem_segment (proper_requestParts e part hpart)
  have heq := hsegments endpoint
  rw [h, hsegments other, map_segment, map_segment] at heq
  have hinj : Function.Injective fun text => UrlPath.escape pathBytes (stringBytes text) :=
    UrlPath.escape_injective.comp stringBytes_injective
  exact (List.map_injective_iff.mpr hinj heq).symm

theorem question_notMem_escape (bytes : List UInt8) : '?' ∉ UrlPath.escape pathBytes bytes := by
  have hall : ∀ n < 256, '?' ∉ UrlPath.escapeByte pathBytes (UInt8.ofNat n) := by decide +kernel
  intro hmem
  obtain ⟨b, -, hb⟩ := List.mem_flatMap.mp hmem
  have hnot := hall b.toNat b.toNat_lt
  rw [UInt8.ofNat_toNat] at hnot
  exact hnot hb

/-- The query begins at the first question mark. -/
theorem question_notMem_requestPath (endpoint : Endpoint) : '?' ∉ (requestPath endpoint).toList := by
  rw [path_eq_join]
  intro hmem
  obtain ⟨seg, hseg, hmem⟩ := List.mem_flatMap.mp hmem
  obtain ⟨part, hpart, rfl⟩ := List.mem_map.mp hseg
  rw [segment_eq (proper_requestParts endpoint part hpart)] at hmem
  rcases List.mem_cons.mp hmem with hslash | hmem
  · cases hslash
  · exact question_notMem_escape _ hmem

theorem takeWhile_requestTarget (endpoint : Endpoint) :
    (requestTarget endpoint).toList.takeWhile (· ≠ '?') = (requestPath endpoint).toList := by
  have hpath : ∀ c ∈ (requestPath endpoint).toList, decide (c ≠ '?') = true := by
    intro c hc
    rw [decide_eq_true_eq]
    rintro rfl
    exact question_notMem_requestPath endpoint hc
  rw [requestTarget, String.toList_append, List.takeWhile_append_of_pos hpath]
  rcases searchTerm endpoint with _ | (text | text) <;> simp [queryText, SearchTerm.query]

/-- **Different requests have different targets.** -/
theorem requestTarget_injective : Function.Injective requestTarget := by
  intro endpoint other heq
  have hpath : requestPath endpoint = requestPath other := by
    apply String.toList_inj.mp
    rw [← takeWhile_requestTarget endpoint, ← takeWhile_requestTarget other, heq]
  have hquery : searchTerm endpoint = searchTerm other := by
    have hlist := congrArg String.toList heq
    simp only [requestTarget, String.toList_append, hpath, List.append_cancel_left_eq] at hlist
    exact queryText_injective (String.toList_inj.mp hlist)
  rw [← readEndpoint_texts endpoint, ← readEndpoint_texts other, texts_of_requestPath hpath, hquery]

end KeycloakOperator
