import KeycloakOperator.RoleSets

/-!
# The role mappings of groups

`PostApply` of a group reads the document of its role mappings once and makes three loops:
over the realm roles, over the clients of the document that the spec does not list, and over
the listed clients.
-/

namespace KeycloakOperator

open Prog

/-! ### The document -/

section Document

variable {server : Server} {realm group : String}

/-- Every client has a client ID, and every role an id. -/
structure Server.RolesIdentified (server : Server) (realm group : String) : Prop where
  clients : ∀ client ∈ (server.resources ⟨.client, realm⟩).items, (client.key "clientId").isSome
  roles : ∀ client name rep, server.clientRoles realm client name = some rep →
    (stringField rep "id").isSome
  realmMappings : Identified (server.realmMappings realm group)
  clientMappings : ∀ client, Identified (server.clientMappings realm group client)

theorem objectItems_ofList (reps : List Object) :
    objectItems (some (.ofList (reps.map JSON.ofObject))) = reps := by
  simp [objectItems, List.filterMap_map, Function.comp_def]

theorem document_realmMappings :
    objectItems ((server.roleMappingDocument realm group).get "realmMappings") =
      server.realmMappings realm group := by
  have hget : (server.roleMappingDocument realm group).get "realmMappings" =
      some (.ofList ((server.realmMappings realm group).map JSON.ofObject)) := by
    simp [Server.roleMappingDocument, FiniteMap.ofList, FiniteMap.get_put]
  rw [hget, objectItems_ofList]

theorem get_document_clientMappings (uuid : String) :
    (mapField (server.roleMappingDocument realm group) "clientMappings").get uuid =
      (server.find ⟨.client, realm⟩ (.id uuid)).bind (server.clientMappingEntry realm group) := by
  have hfield : mapField (server.roleMappingDocument realm group) "clientMappings" =
      .ofFun (((server.resources ⟨.client, realm⟩).items.map Resource.id).toFinset) fun id =>
        (server.find ⟨.client, realm⟩ (.id id)).bind (server.clientMappingEntry realm group) := by
    simp [mapField, Server.roleMappingDocument, FiniteMap.ofList]
    rfl
  rw [hfield, FiniteMap.get_ofFun_of_support]
  intro id hid
  rcases hfound : server.find ⟨.client, realm⟩ (.id id) with _ | client
  · rfl
  · obtain ⟨hclient, hnames⟩ := Collection.find_eq_some_iff.mp hfound
    refine absurd (List.mem_toFinset.mpr (List.mem_map.mpr ⟨client, hclient, ?_⟩)) hid
    exact of_decide_eq_true hnames

/-- The client ID of an entry of the document. -/
def entryClient (clientMappings : Object) (uuid : String) : Option String :=
  ((clientMappings.get uuid).bind JSON.asObject).map fun entry => (stringField entry "client").getD ""

/-- The mapping that the loop makes of an entry of the document. -/
def entryMapping (clientMappings : Object) (uuid : String) : ClientMapping :=
  ⟨uuid, objectItems ((((clientMappings.get uuid).bind JSON.asObject).getD ∅).get "mappings")⟩

/-- The last entry of a client wins. -/
theorem get_mappingsByClient (clientMappings : Object) (order : List String) (clientId : String) :
    (GroupSpec.mappingsByClient clientMappings order).get clientId =
      (order.reverse.find? fun uuid => decide (entryClient clientMappings uuid = some clientId)).map
        (entryMapping clientMappings) := by
  unfold GroupSpec.mappingsByClient
  apply FiniteMap.get_foldl_put
  intro m uuid
  unfold entryClient entryMapping
  rcases (clientMappings.get uuid).bind JSON.asObject with _ | entry <;> rfl

theorem client_eq_some_iff {clientId : String} {client : Resource} :
    server.client realm clientId = some client ↔
      client ∈ (server.resources ⟨.client, realm⟩).items ∧ client.key "clientId" = some clientId :=
  Collection.find_eq_some_iff.trans (and_congr_right fun _ => decide_eq_true_iff)

theorem client_id_eq_some_iff {uuid : String} {client : Resource} :
    server.find ⟨.client, realm⟩ (.id uuid) = some client ↔
      client ∈ (server.resources ⟨.client, realm⟩).items ∧ client.id = uuid :=
  Collection.find_eq_some_iff.trans (and_congr_right fun _ => decide_eq_true_iff)

/-- A client with mappings has an entry. -/
theorem document_entry {uuid : String} {entry : Object} :
    ((mapField (server.roleMappingDocument realm group) "clientMappings").get uuid).bind JSON.asObject =
        some entry ↔
      ∃ client ∈ (server.resources ⟨.client, realm⟩).items, client.id = uuid ∧
        server.clientMappings realm group uuid ≠ [] ∧
        entry = .ofList [("id", .str uuid), ("client", .str ((client.key "clientId").getD "")),
          ("mappings", .ofList ((server.clientMappings realm group uuid).map .ofObject))] := by
  rw [get_document_clientMappings]
  constructor
  · intro h
    obtain ⟨v, hv, hentry⟩ := Option.bind_eq_some_iff.mp h
    obtain ⟨client, hfound, hmapping⟩ := Option.bind_eq_some_iff.mp hv
    obtain ⟨hclient, rfl⟩ := client_id_eq_some_iff.mp hfound
    simp only [Server.clientMappingEntry, Option.ite_none_left_eq_some, Option.some.injEq] at hmapping
    obtain ⟨hmapped, rfl⟩ := hmapping
    exact ⟨client, hclient, rfl, hmapped, (Option.some.inj hentry).symm⟩
  · rintro ⟨client, hclient, rfl, hmapped, rfl⟩
    rw [client_id_eq_some_iff.mpr ⟨hclient, rfl⟩, Option.bind_some]
    simp [Server.clientMappingEntry, hmapped]

/-- The entry of a client is found under its client ID. -/
theorem entryClient_document (hclients : ∀ client ∈ (server.resources ⟨.client, realm⟩).items,
      (client.key "clientId").isSome) {uuid clientId : String} :
    entryClient (mapField (server.roleMappingDocument realm group) "clientMappings") uuid =
        some clientId ↔
      ∃ client, server.client realm clientId = some client ∧ client.id = uuid ∧
        server.clientMappings realm group uuid ≠ [] := by
  have hfield : ∀ client : Resource, ∀ mappings : JSON,
      (stringField (.ofList [("id", .str uuid), ("client", .str ((client.key "clientId").getD "")),
        ("mappings", mappings)]) "client").getD "" = (client.key "clientId").getD "" := by
    intro client mappings
    simp [stringField, FiniteMap.ofList, FiniteMap.get_put]
  unfold entryClient
  rw [Option.map_eq_some_iff]
  constructor
  · rintro ⟨entry, hentry, hclientId⟩
    obtain ⟨client, hclient, hid, hmapped, rfl⟩ := document_entry.mp hentry
    obtain ⟨key, hkey⟩ := Option.isSome_iff_exists.mp (hclients client hclient)
    rw [hfield, hkey] at hclientId
    exact ⟨client, client_eq_some_iff.mpr ⟨hclient, hkey.trans (congrArg some hclientId)⟩, hid, hmapped⟩
  · rintro ⟨client, hclient, hid, hmapped⟩
    obtain ⟨hclient, hkey⟩ := client_eq_some_iff.mp hclient
    refine ⟨_, document_entry.mpr ⟨client, hclient, hid, hmapped, rfl⟩, ?_⟩
    rw [hfield, hkey]
    rfl

theorem entryMapping_document {uuid clientId : String}
    (h : entryClient (mapField (server.roleMappingDocument realm group) "clientMappings") uuid =
      some clientId) :
    entryMapping (mapField (server.roleMappingDocument realm group) "clientMappings") uuid =
      ⟨uuid, server.clientMappings realm group uuid⟩ := by
  obtain ⟨entry, hentry, -⟩ := Option.map_eq_some_iff.mp h
  unfold entryMapping
  obtain ⟨client, -, -, -, rfl⟩ := document_entry.mp hentry
  rw [hentry]
  have hget : (FiniteMap.ofList [("id", JSON.str uuid),
      ("client", .str ((client.key "clientId").getD "")),
      ("mappings", .ofList ((server.clientMappings realm group uuid).map .ofObject))]).get "mappings" =
      some (.ofList ((server.clientMappings realm group uuid).map .ofObject)) := by
    simp [FiniteMap.ofList]
  rw [Option.getD_some, hget, objectItems_ofList]

/-- The loop over the document finds the mappings of each client, in any order. -/
theorem get_mappingsByClient_document
    (hclients : ∀ client ∈ (server.resources ⟨.client, realm⟩).items,
      (client.key "clientId").isSome)
    (order : Order (mapField (server.roleMappingDocument realm group) "clientMappings").keys)
    {clientId : String} {mapping : ClientMapping} :
    (GroupSpec.mappingsByClient (mapField (server.roleMappingDocument realm group) "clientMappings")
        order.list).get clientId = some mapping ↔
      ∃ client, server.client realm clientId = some client ∧
        server.clientMappings realm group client.id ≠ [] ∧
        mapping = ⟨client.id, server.clientMappings realm group client.id⟩ := by
  rw [get_mappingsByClient, Option.map_eq_some_iff]
  constructor
  · rintro ⟨uuid, hfound, rfl⟩
    have hkey : entryClient (mapField (server.roleMappingDocument realm group) "clientMappings") uuid =
        some clientId := by simpa using List.find?_some hfound
    obtain ⟨client, hclient, rfl, hmapped⟩ := (entryClient_document hclients).mp hkey
    exact ⟨client, hclient, hmapped, entryMapping_document hkey⟩
  · rintro ⟨client, hclient, hmapped, rfl⟩
    have hkey := (entryClient_document hclients).mpr ⟨client, hclient, rfl, hmapped⟩
    refine ⟨client.id, ?_, entryMapping_document hkey⟩
    have hmem : client.id ∈ order.list.reverse := by
      rw [List.mem_reverse, order.mem_iff, FiniteMap.mem_keys_iff]
      obtain ⟨entry, hentry, -⟩ := Option.map_eq_some_iff.mp hkey
      obtain ⟨v, hv, -⟩ := Option.bind_eq_some_iff.mp hentry
      exact ⟨v, hv⟩
    apply FiniteMap.find?_eq_some_of_unique hmem hkey
    intro uuid hkey'
    obtain ⟨client', hclient', rfl, -⟩ := (entryClient_document hclients).mp hkey'
    cases hclient.symm.trans hclient'
    rfl

/-- The current roles of a client, also when it has none. -/
theorem mapped_of_document (hclients : ∀ client ∈ (server.resources ⟨.client, realm⟩).items,
      (client.key "clientId").isSome)
    (order : Order (mapField (server.roleMappingDocument realm group) "clientMappings").keys)
    {clientId : String} {client : Resource} (hclient : server.client realm clientId = some client) :
    (((GroupSpec.mappingsByClient (mapField (server.roleMappingDocument realm group) "clientMappings")
        order.list).get clientId).map (·.mappings)).getD [] =
      server.clientMappings realm group client.id := by
  have hget := @get_mappingsByClient_document _ _ group hclients order clientId
  by_cases hmapped : server.clientMappings realm group client.id = []
  · have hnone : (GroupSpec.mappingsByClient
        (mapField (server.roleMappingDocument realm group) "clientMappings")
        order.list).get clientId = none := by
      refine Option.eq_none_iff_forall_ne_some.mpr fun mapping hmapping => ?_
      obtain ⟨client', hclient', hmapped', -⟩ := hget.mp hmapping
      cases hclient.symm.trans hclient'
      exact hmapped' hmapped
    rw [hnone, hmapped]
    rfl
  · rw [hget.mpr ⟨client, hclient, hmapped, rfl⟩]
    rfl

end Document

/-! ### The loops -/

/-- Only role mappings of groups differ. -/
structure SameButMappings (server server' : Server) : Prop where
  resources : server'.resources = server.resources
  clientRoles : server'.clientRoles = server.clientRoles

namespace SameButMappings

variable {server server' server'' : Server} {realm clientId uuid : String}

theorem refl (server : Server) : SameButMappings server server := ⟨rfl, rfl⟩

theorem trans (h : SameButMappings server server') (h' : SameButMappings server' server'') :
    SameButMappings server server'' :=
  ⟨h'.resources.trans h.resources, h'.clientRoles.trans h.clientRoles⟩

theorem client (h : SameButMappings server server') :
    server'.client realm clientId = server.client realm clientId := by
  unfold Server.client Server.find
  rw [h.resources]

theorem realmRole (h : SameButMappings server server') (name : String) :
    server'.realmRole realm name = server.realmRole realm name := by
  unfold Server.realmRole Server.find
  rw [h.resources]

theorem realmRoles (h : SameButMappings server server') (names : List String) :
    server'.realmRoles realm names = server.realmRoles realm names := by
  unfold Server.realmRoles
  simp only [h.realmRole]

theorem rolesOf (h : SameButMappings server server') (names : List String) :
    server'.rolesOf realm clientId uuid names = server.rolesOf realm clientId uuid names := by
  unfold Server.rolesOf
  rw [h.clientRoles]

end SameButMappings

/-- Writing a set of roles changes no role that can be looked up. -/
theorem sameButMappings_setRoles (server : Server) (set : RoleSet) (reps : List Object) :
    SameButMappings server (server.setRoles set reps) := by
  cases set <;> exact ⟨rfl, rfl⟩

namespace Server

/-- The server with no roles of the given clients mapped to the group. -/
def clearClients (server : Server) (realm group : String) (uuids : List String) : Server :=
  uuids.foldl (fun server uuid => server.setRoles (.clientMappings realm group uuid) []) server

variable (server : Server) (realm group : String) (uuids : List String)

theorem sameButMappings_clearClients :
    SameButMappings server (server.clearClients realm group uuids) := by
  induction uuids generalizing server with
  | nil => exact .refl server
  | cons uuid rest ih =>
    exact (sameButMappings_setRoles server (.clientMappings realm group uuid) []).trans (ih _)

theorem realmMappings_clearClients :
    (server.clearClients realm group uuids).realmMappings = server.realmMappings := by
  induction uuids generalizing server with
  | nil => rfl
  | cons uuid rest ih => exact ih _

theorem clientMappings_setRoles (client uuid : String) (reps : List Object) :
    (server.setRoles (.clientMappings realm group client) reps).clientMappings realm group uuid =
      if uuid = client then reps else server.clientMappings realm group uuid := by
  by_cases h : uuid = client
  · subst h
    rw [if_pos rfl]
    exact server.roles_setRoles_self (.clientMappings realm group uuid) reps
  · rw [if_neg h]
    have hne : RoleSet.clientMappings realm group uuid ≠ .clientMappings realm group client := by
      simpa using h
    exact server.roles_setRoles_of_ne reps hne

theorem clientMappings_clearClients (uuid : String) :
    (server.clearClients realm group uuids).clientMappings realm group uuid =
      if uuid ∈ uuids then [] else server.clientMappings realm group uuid := by
  induction uuids generalizing server with
  | nil => rfl
  | cons first rest ih =>
    change (clearClients _ realm group rest).clientMappings realm group uuid = _
    rw [ih, clientMappings_setRoles]
    by_cases hrest : uuid ∈ rest
    · simp [hrest]
    · simp [hrest]

end Server

section Loops

variable {env : Env operations World} {errs : Prop} {guard : Op → World → Prop} {w : World}
  {kc : Conn} {s : GroupSpec} {id : String} {clientRoles : FiniteMap String (List String)}
  {current : FiniteMap String ClientMapping} {names : List String}

/-- The clients whose mappings are cleared. -/
def unlistedClients (clientRoles : FiniteMap String (List String))
    (current : FiniteMap String ClientMapping) (names : List String) : List String :=
  names.filterMap fun clientId =>
    (if clientId ∈ clientRoles.keys then none else current.get clientId).bind fun mapping =>
      if mapping.mappings = [] then none else some mapping.uuid

theorem mem_unlistedClients {uuid : String} :
    uuid ∈ unlistedClients clientRoles current names ↔
      ∃ clientId ∈ names, clientId ∉ clientRoles.keys ∧ ∃ mapping,
        current.get clientId = some mapping ∧ mapping.mappings ≠ [] ∧ mapping.uuid = uuid := by
  simp only [unlistedClients, List.mem_filterMap, Option.bind_eq_some_iff,
    Option.ite_none_left_eq_some, Option.some.injEq]
  aesop

theorem removeGroupClientRoles_eq {realm uuid : String} {roles : List Object} (h : roles ≠ []) :
    kc.removeGroupClientRoles realm id uuid roles =
      submitRoles ((RoleSet.clientMappings realm id uuid).remove kc) roles :=
  (if_neg h).symm

/-- Whoever is not listed loses the mappings that the document has shown. -/
theorem wp_clearUnlisted (hserving : Serving env errs) {post : Except Err Bool → World → Prop}
    (hguard : ∀ op t, guard op t) (herr : ∀ err t, post (.error err) t)
    (hcurrent : ∀ clientId mapping, current.get clientId = some mapping →
      (w.servers kc.server).clientMappings s.realm id mapping.uuid = mapping.mappings ∨
        (w.servers kc.server).clientMappings s.realm id mapping.uuid = [])
    (h : ∀ changed, post (.ok changed) (w.setServer kc.server
      ((w.servers kc.server).clearClients s.realm id (unlistedClients clientRoles current names)))) :
    wp env guard (s.clearUnlisted kc id clientRoles current names).run post w := by
  induction names generalizing w post with
  | nil => simpa [GroupSpec.clearUnlisted, unlistedClients, Server.clearClients] using h false
  | cons clientId rest ih =>
    unfold GroupSpec.clearUnlisted
    unfold unlistedClients at h
    rw [List.filterMap_cons] at h
    split
    · next hnone =>
      rw [hnone] at h
      exact ih herr hcurrent h
    · next mapping hsome =>
      rw [hsome] at h
      split
      · next hempty =>
        simp only [Option.bind_some, hempty, if_true] at h
        exact ih herr hcurrent h
      · next hmapped =>
        simp only [Option.bind_some, hmapped, if_false] at h
        have hget := (Option.ite_none_left_eq_some.mp hsome).2
        rw [removeGroupClientRoles_eq hmapped]
        refine wp_run_bind.mpr
          (wp_submit_remove hserving (hguard _ _) (fun _ => herr) ?_)
        have hcleared : differenceById ((w.servers kc.server).roles
            (.clientMappings s.realm id mapping.uuid)) mapping.mappings = [] := by
          rcases hcurrent clientId mapping hget with hmappings | hmappings
          · exact (congrArg (differenceById · _) hmappings).trans (differenceById_self _)
          · exact congrArg (differenceById · _) hmappings
        rw [hcleared]
        refine wp_run_bind.mpr (ih herr ?_ fun changed => ?_)
        · intro clientId' mapping' hget'
          rw [World.servers_setServer, Server.clientMappings_setRoles]
          split
          · exact .inr rfl
          · exact hcurrent clientId' mapping' hget'
        · rw [World.servers_setServer, World.setServer_setServer]
          exact h true

/-- What the loop over the listed clients leaves. -/
structure Enforced (s : GroupSpec) (id : String) (clientRoles : FiniteMap String (List String))
    (names : List String) (server server' : Server) : Prop where
  same : SameButMappings server server'
  realm : server'.realmMappings = server.realmMappings
  listed : ∀ clientId ∈ names, ∃ client reps, server.client s.realm clientId = some client ∧
    server.rolesOf s.realm clientId client.id ((clientRoles.get clientId).getD []) = .ok reps ∧
    roleIds (server'.clientMappings s.realm id client.id) = roleIds reps ∧
    (Identified (server.clientMappings s.realm id client.id) →
      Identified (server'.clientMappings s.realm id client.id))
  others : ∀ uuid, (∀ clientId ∈ names, ∀ client, server.client s.realm clientId = some client →
      client.id ≠ uuid) →
    server'.clientMappings s.realm id uuid = server.clientMappings s.realm id uuid

theorem client_id_ne {server : Server} {realm clientId clientId' : String} {client client' : Resource}
    (hclient : server.client realm clientId = some client)
    (hclient' : server.client realm clientId' = some client') (hne : clientId ≠ clientId') :
    client.id ≠ client'.id := by
  intro hid
  obtain ⟨hmem, hkey⟩ := client_eq_some_iff.mp hclient
  obtain ⟨hmem', hkey'⟩ := client_eq_some_iff.mp hclient'
  have hsame : client = client' :=
    List.inj_on_of_nodup_map (server.resources ⟨.client, realm⟩).nodup_ids hmem hmem' hid
  rw [hsame, hkey'] at hkey
  exact hne (Option.some.inj hkey).symm

theorem Enforced.cons {server server' : Server} {clientId : String} {client : Resource}
    {reps reps' : List Object} {rest : List String} (hnodup : clientId ∉ rest)
    (hclient : server.client s.realm clientId = some client)
    (hroles : server.rolesOf s.realm clientId client.id ((clientRoles.get clientId).getD []) =
      .ok reps)
    (hids : roleIds reps' = roleIds reps)
    (hidentified : Identified (server.clientMappings s.realm id client.id) → Identified reps')
    (h : Enforced s id clientRoles rest
      (server.setRoles (.clientMappings s.realm id client.id) reps') server') :
    Enforced s id clientRoles (clientId :: rest) server server' := by
  have hfirst := sameButMappings_setRoles server (.clientMappings s.realm id client.id) reps'
  have hothers : ∀ clientId' ∈ rest, ∀ client', server.client s.realm clientId' = some client' →
      client'.id ≠ client.id := by
    intro clientId' hmem client' hclient'
    refine client_id_ne hclient' hclient ?_
    rintro rfl
    exact hnodup hmem
  have hkept : server'.clientMappings s.realm id client.id = reps' := by
    rw [h.others client.id fun clientId' hmem client' hclient' =>
      hothers clientId' hmem client' (hfirst.client ▸ hclient')]
    rw [Server.clientMappings_setRoles, if_pos rfl]
  refine ⟨hfirst.trans h.same, h.realm, ?_, ?_⟩
  · intro clientId' hmem
    rcases List.mem_cons.mp hmem with rfl | hmem
    · refine ⟨client, reps, hclient, hroles, ?_, ?_⟩
      · rw [hkept, hids]
      · rw [hkept]
        exact hidentified
    · obtain ⟨client', reps'', hclient', hroles', hids', hidentified'⟩ := h.listed clientId' hmem
      rw [hfirst.client] at hclient'
      rw [hfirst.rolesOf] at hroles'
      rw [Server.clientMappings_setRoles, if_neg (hothers clientId' hmem client' hclient')]
        at hidentified'
      exact ⟨client', reps'', hclient', hroles', hids', hidentified'⟩
  · intro uuid hnot
    have hne : uuid ≠ client.id := (hnot clientId List.mem_cons_self client hclient).symm
    rw [h.others uuid, Server.clientMappings_setRoles, if_neg hne]
    intro clientId' hmem client' hclient'
    exact hnot clientId' (List.mem_cons_of_mem _ hmem) client' (hfirst.client ▸ hclient')

theorem wp_clientUUID (hreading : Reading env errs) {realm clientId : String} {client : Resource}
    {post : Except Err String → World → Prop} (hguard : ∀ op, op.Reads → guard op w)
    (herr : errs → ∀ err, post (.error err) w)
    (hclient : (w.servers kc.server).client realm clientId = some client)
    (h : post (.ok client.id) w) :
    wp env guard (GroupSpec.clientUUID kc realm clientId).run post w := by
  refine wp_run_bind.mpr (wp_withContext ?_)
  refine wp_findClient hreading.answering hguard (fun err herrs => herr herrs _) ?_ ?_
  · intro hnone
    rw [hclient] at hnone
    cases hnone
  · intro client' hclient'
    cases hclient.symm.trans hclient'
    simp only [Except.mapError, wp_run_pure]
    simpa [stringField] using h

/-- Each listed client gets the roles that the spec names. -/
theorem wp_enforceListed (hserving : Serving env errs) {post : Except Err Bool → World → Prop}
    (hguard : ∀ op t, guard op t) (herr : ∀ err t, post (.error err) t) (hnodup : names.Nodup)
    (hcurrent : ∀ clientId ∈ names, ∀ client,
      (w.servers kc.server).client s.realm clientId = some client →
      roleIds (((current.get clientId).map (·.mappings)).getD []) =
        roleIds ((w.servers kc.server).clientMappings s.realm id client.id))
    (h : ∀ changed server', Enforced s id clientRoles names (w.servers kc.server) server' →
      post (.ok changed) (w.setServer kc.server server')) :
    wp env guard (s.enforceListed kc id clientRoles current names).run post w := by
  induction names generalizing w post with
  | nil =>
    have hkept := h false (w.servers kc.server) ⟨.refl _, rfl, by simp, fun _ _ => rfl⟩
    rwa [World.setServer_self] at hkept
  | cons clientId rest ih =>
    obtain ⟨hnotMem, hnodup⟩ := List.nodup_cons.mp hnodup
    unfold GroupSpec.enforceListed
    refine wp_run_bind.mpr (wp_resolveClientRoles hserving.toReading
      (fun op _ => hguard op _) (fun _ err => herr err _) ?_)
    unfold Server.rolesOfClient
    rcases hclient : (w.servers kc.server).client s.realm clientId with _ | client
    · exact herr _ _
    dsimp only
    rcases hroles : (w.servers kc.server).rolesOf s.realm clientId client.id
      ((clientRoles.get clientId).getD []) with err | reps
    · exact herr _ _
    refine wp_run_bind.mpr (wp_clientUUID hserving.toReading (fun op _ => hguard op _)
      (fun _ err => herr err _) hclient ?_)
    refine wp_run_bind.mpr ?_
    refine wp_applyRoleDiff (.clientMappings s.realm id client.id) hserving
      (fun op _ => hguard op _) (fun _ _ _ => hguard _ _) (fun _ _ _ _ => hguard _ _) (fun _ => herr) ?_
    intro changed reps' hids hidentified
    have hids := hids (hcurrent clientId List.mem_cons_self client hclient)
    refine wp_run_bind.mpr (ih herr hnodup ?_ ?_)
    · intro clientId' hmem client' hclient'
      rw [World.servers_setServer] at hclient' ⊢
      rw [(sameButMappings_setRoles _ _ _).client] at hclient'
      have hne : client'.id ≠ client.id := by
        refine client_id_ne hclient' hclient ?_
        rintro rfl
        exact hnotMem hmem
      rw [Server.clientMappings_setRoles, if_neg hne]
      exact hcurrent clientId' (List.mem_cons_of_mem _ hmem) client' hclient'
    · intro others server' henforced
      rw [World.servers_setServer] at henforced
      rw [World.setServer_setServer]
      exact h _ server' (.cons hnotMem hclient hroles hids hidentified henforced)

end Loops

/-! ### A whole call -/

/-- The mappings of the group are those of its spec. -/
structure GroupSettled (s : GroupSpec) (id : String) (server : Server) : Prop where
  realmRoles : ∀ names, s.realmRoles = some names → ∃ reps,
    server.realmRoles s.realm names = .ok reps ∧
    roleIds (server.realmMappings s.realm id) = roleIds reps
  listed : ∀ clientRoles, s.clientRoles = some clientRoles → ∀ clientId ∈ clientRoles.keys,
    ∃ client reps, server.client s.realm clientId = some client ∧
      server.rolesOf s.realm clientId client.id ((clientRoles.get clientId).getD []) = .ok reps ∧
      roleIds (server.clientMappings s.realm id client.id) = roleIds reps
  unlisted : ∀ clientRoles, s.clientRoles = some clientRoles → ∀ clientId, clientId ∉ clientRoles.keys →
    ∀ client, server.client s.realm clientId = some client →
      server.clientMappings s.realm id client.id = []

/-- What the first loop does to the server. -/
structure RealmEnforced (s : GroupSpec) (id : String) (server server' : Server) : Prop where
  same : SameButMappings server server'
  clients : server'.clientMappings = server.clientMappings
  named : ∀ names, s.realmRoles = some names → ∃ reps,
    server'.realmRoles s.realm names = .ok reps ∧
    roleIds (server'.realmMappings s.realm id) = roleIds reps
  unset : s.realmRoles = none → server'.realmMappings = server.realmMappings
  identified : Identified (server.realmMappings s.realm id) →
    Identified (server'.realmMappings s.realm id)

/-- What the other loops do to the server. -/
structure ClientsEnforced (s : GroupSpec) (id : String) (server server' : Server) : Prop where
  same : SameButMappings server server'
  realm : server'.realmMappings = server.realmMappings
  listed : ∀ clientRoles, s.clientRoles = some clientRoles → ∀ clientId ∈ clientRoles.keys,
    ∃ client reps, server'.client s.realm clientId = some client ∧
      server'.rolesOf s.realm clientId client.id ((clientRoles.get clientId).getD []) = .ok reps ∧
      roleIds (server'.clientMappings s.realm id client.id) = roleIds reps
  unlisted : ∀ clientRoles, s.clientRoles = some clientRoles → ∀ clientId, clientId ∉ clientRoles.keys →
    ∀ client, server'.client s.realm clientId = some client →
      server'.clientMappings s.realm id client.id = []
  unset : s.clientRoles = none → server'.clientMappings = server.clientMappings
  identified : ∀ uuid, Identified (server.clientMappings s.realm id uuid) →
    Identified (server'.clientMappings s.realm id uuid)

section Apply

variable {env : Env operations World} {errs : Prop} {guard : Op → World → Prop} {w : World}
  {kc : Conn} {s : GroupSpec} {id : String}

/-- The roles of the clients, after the document was read from the server `before`. -/
theorem wp_enforceClientRoles (hserving : Serving env errs) {before : Server}
    {post : Except Err Bool → World → Prop} (hguard : ∀ op t, guard op t)
    (herr : ∀ err t, post (.error err) t)
    (hclients : ∀ client ∈ (before.resources ⟨.client, s.realm⟩).items,
      (client.key "clientId").isSome)
    (hsame : SameButMappings before (w.servers kc.server))
    (hmappings : (w.servers kc.server).clientMappings = before.clientMappings)
    (h : ∀ changed server', ClientsEnforced s id (w.servers kc.server) server' →
      post (.ok changed) (w.setServer kc.server server')) :
    wp env guard (s.enforceClientRoles kc id (before.roleMappingDocument s.realm id)).run post w := by
  refine wp_run_bind.mpr (wp_run_lift.mpr (wp_rangeKeys hserving (hguard _ _) ?_))
  intro order
  dsimp only
  generalize hcurrent : GroupSpec.mappingsByClient
    (mapField (before.roleMappingDocument s.realm id) "clientMappings") order.list = current
  have hget : ∀ {clientId mapping}, current.get clientId = some mapping ↔
      ∃ client, before.client s.realm clientId = some client ∧
        before.clientMappings s.realm id client.id ≠ [] ∧
        mapping = ⟨client.id, before.clientMappings s.realm id client.id⟩ := by
    rw [← hcurrent]
    exact get_mappingsByClient_document hclients order
  rcases hroles : s.clientRoles with _ | clientRoles
  · have hunset : ∀ clientRoles, s.clientRoles ≠ some clientRoles := by simp [hroles]
    have hkept := h false (w.servers kc.server) ⟨.refl _, rfl, fun _ hset => absurd hset (hunset _),
      fun _ hset => absurd hset (hunset _), fun _ => rfl, fun _ h => h⟩
    rwa [World.setServer_self] at hkept
  refine wp_run_bind.mpr (wp_run_lift.mpr (wp_rangeKeys hserving (hguard _ _) ?_))
  intro currentOrder
  refine wp_run_bind.mpr (wp_clearUnlisted hserving hguard (fun err t => herr err t) ?_ ?_)
  · intro clientId mapping hmapping
    obtain ⟨client, -, -, rfl⟩ := hget.mp hmapping
    left
    rw [hmappings]
  intro cleared
  generalize huuids : unlistedClients clientRoles current currentOrder.list = uuids
  have huuid : ∀ uuid, uuid ∈ uuids ↔ ∃ clientId client, clientId ∉ clientRoles.keys ∧
      before.client s.realm clientId = some client ∧
      before.clientMappings s.realm id client.id ≠ [] ∧ client.id = uuid := by
    intro uuid
    rw [← huuids, mem_unlistedClients]
    constructor
    · rintro ⟨clientId, -, hnot, mapping, hmapping, hmapped, rfl⟩
      obtain ⟨client, hclient, hmapped, rfl⟩ := hget.mp hmapping
      exact ⟨clientId, client, hnot, hclient, hmapped, rfl⟩
    · rintro ⟨clientId, client, hnot, hclient, hmapped, rfl⟩
      have hmapping := hget.mpr ⟨client, hclient, hmapped, rfl⟩
      exact ⟨clientId, (currentOrder.mem_iff _).mpr (FiniteMap.mem_keys_of_get hmapping), hnot, _,
        hmapping, hmapped, rfl⟩
  have hcleared := (w.servers kc.server).sameButMappings_clearClients s.realm id uuids
  have hbefore := hsame.trans hcleared
  -- the mappings of a client are cleared only if it is not listed
  have hlisted : ∀ clientId ∈ clientRoles.keys, ∀ client,
      before.client s.realm clientId = some client → client.id ∉ uuids := by
    intro clientId hmem client hclient huuid'
    obtain ⟨clientId', client', hnot, hclient', -, hid⟩ := (huuid _).mp huuid'
    refine client_id_ne hclient' hclient ?_ hid
    rintro rfl
    exact hnot hmem
  refine wp_run_bind.mpr (wp_run_lift.mpr (wp_rangeKeys hserving (hguard _ _) ?_))
  intro desiredOrder
  refine wp_run_bind.mpr
    (wp_enforceListed hserving hguard (fun err t => herr err t) desiredOrder.nodup ?_ ?_)
  · intro clientId hmem client hclient
    rw [World.servers_setServer] at hclient ⊢
    rw [hbefore.client] at hclient
    rw [Server.clientMappings_clearClients,
      if_neg (hlisted clientId ((desiredOrder.mem_iff _).mp hmem) client hclient), hmappings,
      ← hcurrent, mapped_of_document hclients order hclient]
  · intro changed server' henforced
    rw [World.servers_setServer] at henforced
    rw [World.setServer_setServer]
    refine h _ server' ⟨hcleared.trans henforced.same, ?_, ?_, ?_, ?_, ?_⟩
    · rw [henforced.realm, Server.realmMappings_clearClients]
    · intro clientRoles' hroles' clientId hmem
      cases hroles.symm.trans hroles'
      obtain ⟨client, reps, hclient, hlookup, hids, -⟩ :=
        henforced.listed clientId ((desiredOrder.mem_iff _).mpr hmem)
      refine ⟨client, reps, ?_, ?_, hids⟩
      · rw [henforced.same.client, hclient]
      · rw [henforced.same.rolesOf, hlookup]
    · intro clientRoles' hroles' clientId hnot client hclient
      cases hroles.symm.trans hroles'
      rw [henforced.same.client] at hclient
      rw [henforced.others client.id, Server.clientMappings_clearClients]
      · split
        · rfl
        · next hkept =>
          rw [hmappings]
          by_contra hmapped
          rw [hbefore.client] at hclient
          exact hkept ((huuid _).mpr ⟨clientId, client, hnot, hclient, hmapped, rfl⟩)
      · intro clientId' hmem client' hclient'
        refine client_id_ne hclient' hclient ?_
        rintro rfl
        exact hnot ((desiredOrder.mem_iff _).mp hmem)
    · intro hunset
      cases hunset.symm.trans hroles
    · intro uuid hidentified
      have hfirst : Identified (((w.servers kc.server).clearClients s.realm id uuids).clientMappings
          s.realm id uuid) := by
        rw [Server.clientMappings_clearClients]
        split
        · exact fun rep hrep => absurd hrep List.not_mem_nil
        · exact hidentified
      by_cases hmine : ∃ clientId ∈ desiredOrder.list, ∃ client,
          ((w.servers kc.server).clearClients s.realm id uuids).client s.realm clientId = some client ∧
          client.id = uuid
      · obtain ⟨clientId, hmem, client, hclient, rfl⟩ := hmine
        obtain ⟨client', -, hclient', -, -, hkept⟩ := henforced.listed clientId hmem
        cases hclient.symm.trans hclient'
        exact hkept hfirst
      · rw [henforced.others uuid fun clientId hmem client hclient hid =>
          hmine ⟨clientId, hmem, client, hclient, hid⟩]
        exact hfirst

theorem wp_enforceRealmRoles (hserving : Serving env errs)
    {post : Except Err Bool → World → Prop} (hguard : ∀ op t, guard op t)
    (herr : ∀ err t, post (.error err) t)
    (h : ∀ changed server', RealmEnforced s id (w.servers kc.server) server' →
      post (.ok changed) (w.setServer kc.server server')) :
    wp env guard (s.enforceRealmRoles kc id
      ((w.servers kc.server).roleMappingDocument s.realm id)).run post w := by
  unfold GroupSpec.enforceRealmRoles
  rcases hnames : s.realmRoles with _ | names
  · have hunset : ∀ names, s.realmRoles ≠ some names := by simp [hnames]
    have hkept := h false (w.servers kc.server)
      ⟨.refl _, rfl, fun _ hset => absurd hset (hunset _), fun _ => rfl, fun h => h⟩
    rwa [World.setServer_self] at hkept
  refine wp_run_bind.mpr (wp_resolveRealmRoles hserving.toReading
    (fun op _ => hguard op _) (fun _ err => herr err _) ?_)
  rcases hreps : (w.servers kc.server).realmRoles s.realm names with err | reps
  · exact herr _ _
  dsimp only
  rw [document_realmMappings]
  refine wp_applyRoleDiff (.realmMappings s.realm id) hserving (fun op _ => hguard op _)
    (fun _ _ _ => hguard _ _) (fun _ _ _ _ => hguard _ _) (fun _ => herr) ?_
  intro changed mapped hids hidentified
  have hsame := sameButMappings_setRoles (w.servers kc.server) (.realmMappings s.realm id) mapped
  have hmapped : ((w.servers kc.server).setRoles (.realmMappings s.realm id) mapped).realmMappings
      s.realm id = mapped := Server.roles_setRoles_self _ (.realmMappings s.realm id) mapped
  have hset : s.realmRoles ≠ none := by simp [hnames]
  refine h changed _ ⟨hsame, rfl, ?_, fun hunset => absurd hunset hset, ?_⟩
  · intro names' hnames'
    cases hnames.symm.trans hnames'
    exact ⟨reps, by rw [hsame.realmRoles, hreps], by rw [hmapped, hids rfl]⟩
  · rw [hmapped]
    exact hidentified

/-- What a call that succeeds does to the server. -/
structure GroupApplied (s : GroupSpec) (id : String) (server server' : Server) : Prop where
  same : SameButMappings server server'
  settled : GroupSettled s id server'
  realmUnset : s.realmRoles = none → server'.realmMappings = server.realmMappings
  clientUnset : s.clientRoles = none → server'.clientMappings = server.clientMappings
  realmIdentified : Identified (server.realmMappings s.realm id) →
    Identified (server'.realmMappings s.realm id)
  clientIdentified : ∀ uuid, Identified (server.clientMappings s.realm id uuid) →
    Identified (server'.clientMappings s.realm id uuid)

theorem RealmEnforced.applied {server server' server'' : Server} (h : RealmEnforced s id server server')
    (h' : ClientsEnforced s id server' server'') : GroupApplied s id server server'' where
  same := h.same.trans h'.same
  settled := by
    refine ⟨fun names hnames => ?_, h'.listed, h'.unlisted⟩
    obtain ⟨reps, hreps, hids⟩ := h.named names hnames
    exact ⟨reps, by rw [h'.same.realmRoles, hreps], by rw [h'.realm, hids]⟩
  realmUnset := fun hunset => h'.realm.trans (h.unset hunset)
  clientUnset := fun hunset => (h'.unset hunset).trans h.clients
  realmIdentified := by
    rw [h'.realm]
    exact h.identified
  clientIdentified := fun uuid hidentified => h'.identified uuid (h.clients ▸ hidentified)

theorem wp_groupPostApply (hserving : Serving env errs) {remote : Object}
    {post : Except Err Bool → World → Prop} (hguard : ∀ op t, guard op t)
    (herr : ∀ err t, post (.error err) t)
    (hclients : ∀ client ∈ ((w.servers kc.server).resources ⟨.client, s.realm⟩).items,
      (client.key "clientId").isSome)
    (h : ∀ changed server', remoteId remote ≠ "" →
      GroupApplied s (remoteId remote) (w.servers kc.server) server' →
      post (.ok changed) (w.setServer kc.server server')) :
    wp env guard (s.postApply kc remote).run post w := by
  refine wp_run_bind.mpr (wp_run_mk.mpr ?_)
  unfold requireId
  by_cases hid : remoteId remote = ""
  · rw [if_pos hid]
    exact herr _ _
  rw [if_neg hid]
  generalize remoteId remote = id at h hid
  refine wp_run_bind.mpr ?_
  refine wp_send hserving.toReading.answering rfl (hguard _ _) (fun err _ => herr err w) ?_
  change wp env guard ((s.enforceRealmRoles kc id
    ((w.servers kc.server).roleMappingDocument s.realm id)) >>= _).run post w
  refine wp_run_bind.mpr
    (wp_enforceRealmRoles hserving hguard (fun err t => herr err t) ?_)
  intro realmChanged server' hrealm
  refine wp_run_bind.mpr (wp_enforceClientRoles hserving hguard (fun err t => herr err t)
    hclients ?_ ?_ ?_)
  · rw [World.servers_setServer]
    exact hrealm.same
  · rw [World.servers_setServer]
    exact hrealm.clients
  · intro clientChanged server'' henforced
    rw [World.servers_setServer] at henforced
    rw [World.setServer_setServer]
    exact h _ server'' hid (hrealm.applied henforced)

/-! ### A call with nothing to do -/

theorem clearUnlisted_idle {clientRoles : FiniteMap String (List String)}
    {current : FiniteMap String ClientMapping} (hlisted : ∀ clientId, clientId ∉ clientRoles.keys →
      current.get clientId = none) (names : List String) :
    s.clearUnlisted kc id clientRoles current names = return false := by
  induction names with
  | nil => rfl
  | cons clientId rest ih =>
    unfold GroupSpec.clearUnlisted
    have hnone : (if clientId ∈ clientRoles.keys then none else current.get clientId) = none := by
      split
      · rfl
      · next hnot => exact hlisted clientId hnot
    rw [hnone, ih]

theorem wp_enforceListed_idle (hserving : Serving env errs)
    {clientRoles : FiniteMap String (List String)} {current : FiniteMap String ClientMapping}
    {names : List String} {post : Except Err Bool → World → Prop}
    (hreads : ∀ op, op.Reads → guard op w) (herr : errs → ∀ err, post (.error err) w)
    (hlisted : ∀ clientId ∈ names, ∃ client reps,
      (w.servers kc.server).client s.realm clientId = some client ∧
      (w.servers kc.server).rolesOf s.realm clientId client.id ((clientRoles.get clientId).getD []) =
        .ok reps ∧
      roleIds reps = roleIds (((current.get clientId).map (·.mappings)).getD []))
    (h : post (.ok false) w) :
    wp env guard (s.enforceListed kc id clientRoles current names).run post w := by
  induction names generalizing post with
  | nil => exact h
  | cons clientId rest ih =>
    obtain ⟨client, reps, hclient, hroles, hids⟩ := hlisted clientId List.mem_cons_self
    unfold GroupSpec.enforceListed
    refine wp_run_bind.mpr (wp_resolveClientRoles hserving.toReading hreads herr ?_)
    unfold Server.rolesOfClient
    rw [hclient]
    dsimp only
    rw [hroles]
    refine wp_run_bind.mpr (wp_clientUUID hserving.toReading hreads herr hclient ?_)
    refine wp_run_bind.mpr ?_
    refine wp_applyRoleDiff_idle (.clientMappings s.realm id client.id) hserving hreads hids ?_
    refine wp_run_bind.mpr (ih (fun herrs err => herr herrs err)
      (fun clientId' hmem => hlisted clientId' (List.mem_cons_of_mem _ hmem)) ?_)
    exact h

/-- A group whose mappings are those of its spec is left alone. -/
theorem wp_groupPostApply_idle (hserving : Serving env errs) {remote : Object}
    {post : Except Err Bool → World → Prop} (hreads : ∀ op, op.Reads → guard op w)
    (herr : errs → ∀ err, post (.error err) w)
    (hclients : ∀ client ∈ ((w.servers kc.server).resources ⟨.client, s.realm⟩).items,
      (client.key "clientId").isSome)
    (hid : remoteId remote ≠ "") (hsettled : GroupSettled s (remoteId remote) (w.servers kc.server))
    (h : post (.ok false) w) : wp env guard (s.postApply kc remote).run post w := by
  refine wp_run_bind.mpr (wp_run_mk.mpr ?_)
  unfold requireId
  rw [if_neg hid]
  generalize remoteId remote = id at hsettled
  refine wp_run_bind.mpr ?_
  refine wp_send hserving.toReading.answering rfl (hreads _ rfl) (fun err herrs => herr herrs err) ?_
  change wp env guard ((s.enforceRealmRoles kc id
    ((w.servers kc.server).roleMappingDocument s.realm id)) >>= _).run post w
  refine wp_run_bind.mpr ?_
  have hclient : wp env guard ((s.enforceClientRoles kc id
      ((w.servers kc.server).roleMappingDocument s.realm id)) >>= fun changed =>
        (return false || changed : Call Bool)).run post w := by
    refine wp_run_bind.mpr ?_
    unfold GroupSpec.enforceClientRoles
    refine wp_run_bind.mpr
      (wp_run_lift.mpr (wp_rangeKeys hserving (hreads _ trivial) ?_))
    intro order
    dsimp only
    rcases hroles : s.clientRoles with _ | clientRoles
    · exact h
    refine wp_run_bind.mpr
      (wp_run_lift.mpr (wp_rangeKeys hserving (hreads _ trivial) fun _ => ?_))
    dsimp only
    rw [clearUnlisted_idle]
    · refine wp_run_bind.mpr (wp_run_pure.mpr ?_)
      refine wp_run_bind.mpr
        (wp_run_lift.mpr (wp_rangeKeys hserving (hreads _ trivial) fun desiredOrder => ?_))
      refine wp_run_bind.mpr (wp_enforceListed_idle hserving hreads herr ?_ h)
      intro clientId hmem
      obtain ⟨client, reps, hclient, hlookup, hids⟩ :=
        hsettled.listed clientRoles hroles clientId ((desiredOrder.mem_iff _).mp hmem)
      refine ⟨client, reps, hclient, hlookup, ?_⟩
      rw [mapped_of_document hclients order hclient, hids]
    · intro clientId hnot
      refine Option.eq_none_iff_forall_ne_some.mpr fun mapping hmapping => ?_
      obtain ⟨client, hclient, hmapped, -⟩ :=
        (get_mappingsByClient_document hclients order).mp hmapping
      exact hmapped (hsettled.unlisted clientRoles hroles clientId hnot client hclient)
  unfold GroupSpec.enforceRealmRoles
  rcases hnames : s.realmRoles with _ | names
  · exact hclient
  obtain ⟨reps, hreps, hids⟩ := hsettled.realmRoles names hnames
  refine wp_run_bind.mpr (wp_resolveRealmRoles hserving.toReading hreads herr ?_)
  rw [hreps]
  dsimp only
  rw [document_realmMappings]
  exact wp_applyRoleDiff_idle (.realmMappings s.realm id) hserving hreads hids.symm hclient

end Apply

/-! ### Exact mappings -/

/-- The mapped roles are exactly the named ones: each name is that of a role, and the roles have
    the same ids. -/
structure Exactly (role : String → Option Object) (names : List String) (mapped : List Object) :
    Prop where
  named : ∀ name ∈ names, ∃ rep id, role name = some rep ∧ stringField rep "id" = some id ∧
    ∃ m ∈ mapped, stringField m "id" = some id
  only : ∀ m ∈ mapped, ∃ name ∈ names, ∃ rep id, role name = some rep ∧
    stringField rep "id" = some id ∧ stringField m "id" = some id

theorem exactly_of_roleIds {role : String → Option Object} {missing : String → Err}
    {names : List String} {reps mapped : List Object}
    (hlookup : Server.lookupAll role missing names = .ok reps)
    (hroles : ∀ name rep, role name = some rep → (stringField rep "id").isSome)
    (hmapped : Identified mapped) (hids : roleIds mapped = roleIds reps) :
    Exactly role names mapped := by
  obtain ⟨hnamed, honly⟩ := Server.of_lookupAll hlookup
  constructor
  · intro name hname
    obtain ⟨rep, hrep, hrole⟩ := hnamed name hname
    obtain ⟨id, hid⟩ := Option.isSome_iff_exists.mp (hroles name rep hrole)
    refine ⟨rep, id, hrole, hid, mem_roleIds.mp ?_⟩
    rw [hids]
    exact mem_roleIds.mpr ⟨rep, hrep, hid⟩
  · intro m hm
    obtain ⟨id, hid⟩ := Option.isSome_iff_exists.mp (hmapped m hm)
    have hmem : id ∈ roleIds reps := hids ▸ mem_roleIds.mpr ⟨m, hm, hid⟩
    obtain ⟨rep, hrep, hrepid⟩ := mem_roleIds.mp hmem
    obtain ⟨name, hname, hrole⟩ := honly rep hrep
    exact ⟨name, hname, rep, id, hrole, hrepid, hid⟩

/-- **Exact role mappings.**  After a call that succeeds, whatever the order of the maps, the
    roles of the group are exactly those that its spec names, and what the spec leaves unset is
    as before; a second call finds nothing to do. -/
theorem group_roles_exact {s : GroupSpec} {kc : Conn} {remote : Object} {w w' : World}
    {steps : List (Step operations World)} {changed : Bool}
    (hidentified : (w.servers kc.server).RolesIdentified s.realm (remoteId remote))
    (h : Exec Faulty (s.postApply kc remote).run w steps w' (some (.ok changed))) :
    (∀ names, s.realmRoles = some names →
      Exactly (fun name => ((w'.servers kc.server).realmRole s.realm name).map Resource.report) names
        ((w'.servers kc.server).realmMappings s.realm (remoteId remote))) ∧
    (∀ clientRoles, s.clientRoles = some clientRoles →
      ∀ client ∈ ((w'.servers kc.server).resources ⟨.client, s.realm⟩).items,
      ∀ clientId, client.key "clientId" = some clientId →
        Exactly ((w'.servers kc.server).clientRoles s.realm client.id)
          ((clientRoles.get clientId).getD [])
          ((w'.servers kc.server).clientMappings s.realm (remoteId remote) client.id)) ∧
    (s.realmRoles = none →
      (w'.servers kc.server).realmMappings = (w.servers kc.server).realmMappings) ∧
    (s.clientRoles = none →
      (w'.servers kc.server).clientMappings = (w.servers kc.server).clientMappings) ∧
    (∀ steps' w'' result, Exec Faulty (s.postApply kc remote).run w' steps' w'' result →
      (∀ step ∈ steps', step.op.Reads) ∧ ∀ again, result = some (.ok again) → again = false) ∧
    ∀ steps' w'' result, Exec Reliable (s.postApply kc remote).run w' steps' w'' (some result) →
      result = .ok false := by
  -- the first call
  obtain ⟨hid, happlied⟩ : remoteId remote ≠ "" ∧
      GroupApplied s (remoteId remote) (w.servers kc.server) (w'.servers kc.server) := by
    have hwp : wp Faulty ⊤ (s.postApply kc remote).run (fun r t => ∀ c, r = .ok c →
        remoteId remote ≠ "" ∧
          GroupApplied s (remoteId remote) (w.servers kc.server) (t.servers kc.server)) w := by
      apply wp_groupPostApply serving_faulty
      · exact fun _ _ => trivial
      · exact fun _ _ _ hok => by cases hok
      · exact hidentified.clients
      · intro changed server' hid happlied _ _
        rw [World.servers_setServer]
        exact ⟨hid, happlied⟩
    exact (wp_sound hwp h).2 _ rfl changed rfl
  have hclients : ∀ client ∈ ((w'.servers kc.server).resources ⟨.client, s.realm⟩).items,
      (client.key "clientId").isSome := by
    rw [happlied.same.resources]
    exact hidentified.clients
  refine ⟨?_, ?_, happlied.realmUnset, happlied.clientUnset, ?_, ?_⟩
  · intro names hnames
    obtain ⟨reps, hreps, hids⟩ := happlied.settled.realmRoles names hnames
    refine exactly_of_roleIds hreps ?_ (happlied.realmIdentified hidentified.realmMappings) hids
    intro name rep hrole
    obtain ⟨r, -, rfl⟩ := Option.map_eq_some_iff.mp hrole
    simp [stringField]
  · intro clientRoles hroles client hclient clientId hkey
    have hfound := client_eq_some_iff.mpr ⟨hclient, hkey⟩
    have hidentified' := happlied.clientIdentified client.id (hidentified.clientMappings client.id)
    by_cases hlisted : clientId ∈ clientRoles.keys
    · obtain ⟨client', reps, hfound', hreps, hids⟩ :=
        happlied.settled.listed clientRoles hroles clientId hlisted
      cases hfound.symm.trans hfound'
      refine exactly_of_roleIds hreps ?_ hidentified' hids
      rw [happlied.same.clientRoles]
      exact hidentified.roles client.id
    · rw [happlied.settled.unlisted clientRoles hroles clientId hlisted client hfound,
        FiniteMap.get_eq_none_iff.mpr hlisted]
      exact ⟨by simp, by simp⟩
  · intro steps' w'' result hexec
    have hwp : wp Faulty (fun op _ => op.Reads) (s.postApply kc remote).run
        (fun r _ => ∀ again, r = .ok again → again = false) w' := by
      apply wp_groupPostApply_idle serving_faulty (fun _ hop => hop) ?_ hclients hid happlied.settled
      · exact fun again hok => (Except.ok.inj hok).symm
      · exact fun _ _ _ hok => by cases hok
    obtain ⟨hreads, hresult⟩ := wp_sound hwp hexec
    exact ⟨hreads, fun again hagain => hresult _ hagain again rfl⟩
  · intro steps' w'' result hexec
    have hwp : wp Reliable ⊤ (s.postApply kc remote).run
        (fun r _ => r = .ok false) w' :=
      wp_groupPostApply_idle serving_reliable (fun _ _ => trivial) (fun herrs => herrs.elim) hclients
        hid happlied.settled rfl
    exact (wp_sound hwp hexec).2 result rfl

/-! ### Examples -/

/-- A group with one realm role and one role of the client `portal`. -/
def staffGroup : GroupSpec where
  keycloakRef := "main"
  realm := "demo"
  name := "staff"
  realmRoles := some ["admin"]
  clientRoles := some (.ofList [("portal", ["view"])])
  fields := ⟨∅, Fields.typed_empty _⟩

/-- A representation of a role. -/
def roleRep (id name : String) : Object := .ofList [("id", .str id), ("name", .str name)]

/-- Two clients and a realm role.  The group has another realm role and a role of the client
    `api`. -/
def staffServer : Server where
  resources := Function.update (Function.update (fun _ => ∅) ⟨.client, "demo"⟩
    ⟨[⟨"1", .ofList [("clientId", .str "portal")], none⟩, ⟨"2", .ofList [("clientId", .str "api")], none⟩],
      by decide, by decide⟩) ⟨.realmRole, "demo"⟩
    ⟨[⟨"3", .ofList [("name", .str "admin")], none⟩], by decide, by decide⟩
  assigned := fun _ _ _ => []
  composites := fun _ _ => []
  mappers := fun _ _ => ∅
  realmMappings := fun _ _ => [roleRep "4" "guest"]
  clientMappings := fun _ _ client => if client = "2" then [roleRep "5" "call"] else []
  clientRoles := fun _ client name =>
    if client = "1" ∧ name = "view" then some (roleRep "6" "view") else none

def staffWorld : World where
  object := none
  servers := fun _ => staffServer
  connections := fun _ name => .ok ⟨name, "keycloak"⟩
  secrets := fun _ _ => none

/-- The call adds two roles and removes two. -/
theorem staff_roles_enforced :
    ∃ steps w', Exec Faulty (staffGroup.postApply ⟨"main", "keycloak"⟩
        (.ofList [("id", .str "7")])).run staffWorld steps w' (some (.ok true)) ∧
      Exactly (fun name => ((w'.servers "keycloak").realmRole "demo" name).map Resource.report)
        ["admin"] ((w'.servers "keycloak").realmMappings "demo" "7") := by
  have hresult : ((staffGroup.postApply ⟨"main", "keycloak"⟩ (.ofList [("id", .str "7")])).run.run
      (World.handle World.sorted 0) staffWorld).1 = .ok true := by decide +kernel
  have hexec := (exec_handle (staffGroup.postApply ⟨"main", "keycloak"⟩
    (.ofList [("id", .str "7")])).run staffWorld).mono faulty_of_reliable
  rw [hresult] at hexec
  have hidentified : staffServer.RolesIdentified "demo" "7" := by
    constructor
    · decide
    · intro client name rep h
      simp only [staffServer, Option.ite_none_right_eq_some, Option.some.injEq] at h
      rw [← h.2]
      decide
    · simp only [Identified]
      decide
    · intro client
      simp only [staffServer, Identified]
      split
      · decide
      · simp
  exact ⟨_, _, hexec, (group_roles_exact hidentified hexec).1 ["admin"] rfl⟩

end KeycloakOperator
