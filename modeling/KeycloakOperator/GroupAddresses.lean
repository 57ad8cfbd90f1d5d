import KeycloakOperator.GroupRoles

/-!
# The clients that a group's requests address

The document of role mappings has an entry for each client, with the id of the client and its
client ID in fields.  `PostApply` looks the id of a listed client up; for a client that is no
longer listed it takes the string under which the entry is filed.  So the requests for such a
client go astray unless its entry is filed under its id.
-/

namespace KeycloakOperator

open Prog

/-! ### A server with its own way of filing -/

/-- The operation reads the document of role mappings. -/
def Op.ReadsMappings : Op → Prop
  | .admin _ ⟨.get, .roleMappings _ _, _, .object⟩ => True
  | _ => False

/-- The answers of the API servers, with a given document of role mappings. -/
def World.handleDocument (doc : Object) (order : (keys : Finset String) → Order keys) (now : Nat) :
    Prog.Handler operations World := fun op w =>
  match op with
  | .admin _ ⟨.get, .roleMappings _ _, _, .object⟩ => (.ok doc, w)
  | op => World.handle order now op w

/-- Every call succeeds, and the document of role mappings is `doc`. -/
def Documented (doc : Object) : Env operations World := fun op w answer w' =>
  ∃ order now, World.handleDocument doc order now op w = (answer, w')

theorem documented_iff {doc : Object} {op : Op} (hop : ¬ op.ReadsMappings) {w w' : World}
    {answer : op.Answer} : Documented doc op w answer w' ↔ Reliable op w answer w' := by
  have hsame : ∀ order now, World.handleDocument doc order now op w = World.handle order now op w := by
    intro order now
    unfold World.handleDocument
    split
    · exact absurd trivial hop
    · rfl
  simp only [Documented, Reliable, hsame]

/-- The entries of the document carry the id and the client ID of their clients, wherever they
    are filed; `owner` gives the id of the client that a role belongs to. -/
structure Documents (owner : Object → String) (doc : Object) (server : Server) (realm : String) :
    Prop where
  entry : ∀ key entry, ((mapField doc "clientMappings").get key).bind JSON.asObject = some entry →
    ∃ client clientId, server.client realm clientId = some client ∧
      stringField entry "id" = some client.id ∧ stringField entry "client" = some clientId ∧
      ∀ role ∈ objectItems (entry.get "mappings"), owner role = client.id
  role : ∀ uuid name rep, server.clientRoles realm uuid name = some rep → owner rep = uuid

/-- A request that adds or removes role mappings of a client carries roles of the client that
    it addresses. -/
def Op.Addressed (owner : Object → String) : Op → Prop
  | .admin _ ⟨method, .clientRoleMappings _ _ client, .objects roles, _⟩ =>
      method ≠ .get → ∀ role ∈ roles, owner role = client
  | _ => True

theorem Op.Reads.addressed {op : Op} (h : op.Reads) (owner : Object → String) :
    op.Addressed owner := by
  unfold Op.Addressed
  split
  · exact fun hmethod => absurd h hmethod
  · trivial

/-! ### The document is read once -/

/-- Not another read of the document. -/
def Op.Later (op : Op) : Prop := ¬ op.ReadsMappings

section Once

variable {s : GroupSpec} {kc : Conn} {id : String}

theorem Op.LooksUp.later {op : Op} (h : op.LooksUp kc) : op.Later := by
  obtain ⟨endpoint, out, hlooks, rfl⟩ := h
  rcases endpoint <;> first | exact hlooks.elim | exact fun h => h

theorem only_enforceRealmRoles_later (mappings : Object) :
    Only Op.Later (s.enforceRealmRoles kc id mappings).run :=
  compositional_only.has_enforceRealmRoles (fun _ h => h) (fun _ h => h.later)
    (fun _ method _ => by cases method <;> exact fun h => h) mappings

theorem only_enforceClientRoles_later (mappings : Object) :
    Only Op.Later (s.enforceClientRoles kc id mappings).run :=
  compositional_only.has_enforceClientRoles (fun _ h => h) (fun _ h => h.later)
    (fun _ method _ _ => by cases method <;> exact fun h => h) mappings

end Once

/-! ### The addresses of the requests -/

/-- Every entry that has roles of a client that is not listed is filed under the id of the
    client. -/
def FiledById (doc : Object) (clientRoles : FiniteMap String (List String)) : Prop :=
  ∀ key entry clientId, ((mapField doc "clientMappings").get key).bind JSON.asObject = some entry →
    stringField entry "client" = some clientId → clientId ∉ clientRoles.keys →
    objectItems (entry.get "mappings") ≠ [] → stringField entry "id" = some key

section Addresses

variable {w : World} {kc : Conn} {s : GroupSpec} {id : String} {owner : Object → String}
  {clientRoles : FiniteMap String (List String)} {current : FiniteMap String ClientMapping}
  {names : List String}

/-- The realm roles, whatever the document says: the call fails if a name is unknown. -/
theorem wp_enforceRealmRoles_any {mappings : Object} {guard : Op → World → Prop}
    {post : Except Err Bool → World → Prop} (hreads : ∀ op t, op.Reads → guard op t)
    (hsubmit : ∀ method body t,
      guard (.admin kc ⟨method, .realmRoleMappings s.realm id, body, .nothing⟩) t)
    (hmissing : ∀ names, s.realmRoles = some names →
      ∀ name ∈ names, (w.servers kc.server).realmRole s.realm name = none → ∀ err, post (.error err) w)
    (h : ∀ changed server', SameButMappings (w.servers kc.server) server' →
      (∀ names, s.realmRoles = some names →
        ∀ name ∈ names, (w.servers kc.server).realmRole s.realm name ≠ none) →
      post (.ok changed) (w.setServer kc.server server')) :
    wp Reliable guard (s.enforceRealmRoles kc id mappings).run post w := by
  have hkept : ∀ changed, (∀ names, s.realmRoles = some names →
      ∀ name ∈ names, (w.servers kc.server).realmRole s.realm name ≠ none) → post (.ok changed) w := by
    intro changed hknown
    have hself := h changed _ (.refl _) hknown
    rwa [World.setServer_self] at hself
  unfold GroupSpec.enforceRealmRoles
  rcases hnames : s.realmRoles with _ | names
  · exact hkept false fun names hset => by simp [hnames] at hset
  refine wp_run_bind.mpr (wp_resolveRealmRoles serving_reliable.toReading
    (fun op => hreads op w) (fun herrs => herrs.elim) ?_)
  rcases hreps : (w.servers kc.server).realmRoles s.realm names with err | reps
  · obtain ⟨name, hname, hnone, -⟩ := Server.of_lookupAll_error hreps
    exact hmissing names hnames name hname (Option.map_eq_none_iff.mp hnone) err
  have hknown : ∀ names', s.realmRoles = some names' →
      ∀ name ∈ names', (w.servers kc.server).realmRole s.realm name ≠ none := by
    intro names' hset name hname hnone
    cases hnames.symm.trans hset
    obtain ⟨rep, -, hrole⟩ := (Server.of_lookupAll hreps).1 name hname
    rw [hnone] at hrole
    cases hrole
  refine wp_applyRoleDiff (.realmMappings s.realm id) serving_reliable
    (fun op => hreads op w) (fun _ _ _ => hsubmit _ _ _) (fun _ _ _ _ => hsubmit _ _ _)
    (fun herrs => herrs.elim) fun changed _ _ _ => ?_
  exact h changed _ (sameButMappings_setRoles _ _ _) hknown

/-- Unlisted clients, whose entries carry roles of the client that they are filed under. -/
theorem wp_clearUnlisted_addressed {post : Except Err Bool → World → Prop}
    (hcurrent : ∀ clientId mapping, clientId ∉ clientRoles.keys →
      current.get clientId = some mapping → ∀ role ∈ mapping.mappings, owner role = mapping.uuid)
    (h : ∀ changed server', SameButMappings (w.servers kc.server) server' →
      post (.ok changed) (w.setServer kc.server server')) :
    wp Reliable (fun op _ => op.Addressed owner)
      (s.clearUnlisted kc id clientRoles current names).run post w := by
  induction names generalizing w post with
  | nil =>
    have hkept := h false _ (.refl _)
    rwa [World.setServer_self] at hkept
  | cons clientId rest ih =>
    unfold GroupSpec.clearUnlisted
    split
    · exact ih h
    · next mapping hsome =>
      obtain ⟨hnot, hget⟩ := Option.ite_none_left_eq_some.mp hsome
      split
      · exact ih h
      · next hmapped =>
        rw [removeGroupClientRoles_eq hmapped]
        refine wp_run_bind.mpr
          (wp_submit_remove serving_reliable ?_ (fun herrs => herrs.elim) ?_)
        · exact fun _ => hcurrent clientId mapping hnot hget
        · refine wp_run_bind.mpr (ih fun changed server' hsame => ?_)
          rw [World.servers_setServer] at hsame
          rw [World.setServer_setServer]
          exact h true server' ((sameButMappings_setRoles _ _ _).trans hsame)

/-- Listed clients: the roles to add were looked up for the client, and those to remove stood in
    its entry. -/
theorem wp_enforceListed_addressed
    (hroles : ∀ uuid name rep, (w.servers kc.server).clientRoles s.realm uuid name = some rep →
      owner rep = uuid)
    (hcurrent : ∀ clientId client mapping,
      (w.servers kc.server).client s.realm clientId = some client →
      current.get clientId = some mapping → ∀ role ∈ mapping.mappings, owner role = client.id) :
    wp Reliable (fun op _ => op.Addressed owner)
      (s.enforceListed kc id clientRoles current names).run (fun _ _ => True) w := by
  have hreads : ∀ op : Op, op.Reads → op.Addressed owner := fun op hop => hop.addressed owner
  induction names generalizing w with
  | nil => trivial
  | cons clientId rest ih =>
    unfold GroupSpec.enforceListed
    refine wp_run_bind.mpr (wp_resolveClientRoles serving_reliable.toReading hreads
      (fun herrs => herrs.elim) ?_)
    unfold Server.rolesOfClient
    rcases hclient : (w.servers kc.server).client s.realm clientId with _ | client
    · trivial
    dsimp only
    rcases hreps : (w.servers kc.server).rolesOf s.realm clientId client.id
      ((clientRoles.get clientId).getD []) with err | reps
    · trivial
    refine wp_run_bind.mpr (wp_clientUUID serving_reliable.toReading hreads
      (fun herrs => herrs.elim) hclient ?_)
    have hrest : ∀ changed : Bool, ∀ server', SameButMappings (w.servers kc.server) server' →
        wp Reliable (fun op _ => op.Addressed owner) (do
          let others ← s.enforceListed kc id clientRoles current rest
          return changed || others : Call Bool).run (fun _ _ => True) (w.setServer kc.server server') := by
      intro changed server' hsame
      refine wp_run_bind.mpr (wp_mono ?_ (ih ?_ ?_))
      · rintro (err | others) t - <;> trivial
      · rw [World.servers_setServer, hsame.clientRoles]
        exact hroles
      · intro clientId' client' mapping hclient'
        rw [World.servers_setServer, hsame.client] at hclient'
        exact hcurrent clientId' client' mapping hclient'
    refine wp_run_bind.mpr ?_
    refine wp_applyRoleDiff (.clientMappings s.realm id client.id) serving_reliable hreads
      ?_ ?_ (fun herrs => herrs.elim) fun changed _ _ _ =>
        hrest changed _ (sameButMappings_setRoles _ _ _)
    · intro roles hsub _ _ role hrole
      obtain ⟨name, -, hfound⟩ := (Server.of_lookupAll hreps).2 role (hsub role hrole)
      exact hroles client.id name role hfound
    · intro toAdd roles hsub _ _ role hrole
      have hmem := hsub role hrole
      rcases hget : current.get clientId with _ | mapping
      · rw [hget] at hmem
        cases hmem
      · rw [hget] at hmem
        exact hcurrent clientId client mapping hclient hget role hmem

/-- The entry of the document that a client's mapping comes from. -/
theorem Documents.source {doc : Object} {server : Server} {realm clientId : String}
    {order : List String} {mapping : ClientMapping} (hdoc : Documents owner doc server realm)
    (hget : (GroupSpec.mappingsByClient (mapField doc "clientMappings") order).get clientId =
      some mapping) :
    ∃ key entry client, ((mapField doc "clientMappings").get key).bind JSON.asObject = some entry ∧
      stringField entry "client" = some clientId ∧ stringField entry "id" = some client.id ∧
      server.client realm clientId = some client ∧
      mapping = ⟨key, objectItems (entry.get "mappings")⟩ ∧
      ∀ role ∈ mapping.mappings, owner role = client.id := by
  rw [get_mappingsByClient] at hget
  obtain ⟨key, hfound, rfl⟩ := Option.map_eq_some_iff.mp hget
  have hkey : entryClient (mapField doc "clientMappings") key = some clientId := by
    simpa using List.find?_some hfound
  obtain ⟨entry, hentry, hclientId⟩ := Option.map_eq_some_iff.mp hkey
  obtain ⟨client, clientId', hclient, hid, hfield, howner⟩ := hdoc.entry key entry hentry
  rw [hfield, Option.getD_some] at hclientId
  subst hclientId
  have hmapping : entryMapping (mapField doc "clientMappings") key =
      ⟨key, objectItems (entry.get "mappings")⟩ := by
    rw [entryMapping, hentry, Option.getD_some]
  refine ⟨key, entry, client, hentry, hfield, hid, hclient, hmapping, ?_⟩
  rw [hmapping]
  exact howner

/-- What follows the read of the document, when every entry is filed under an id or the realm
    roles are not all known. -/
theorem wp_afterDocument {doc : Object} (hdoc : Documents owner doc (w.servers kc.server) s.realm)
    (hset : s.clientRoles = some clientRoles)
    (hfiled : (∀ names, s.realmRoles = some names →
        ∀ name ∈ names, (w.servers kc.server).realmRole s.realm name ≠ none) →
      FiledById doc clientRoles) :
    wp Reliable (fun op _ => op.Addressed owner) (do
      let realmChanged ← s.enforceRealmRoles kc id doc
      let clientChanged ← s.enforceClientRoles kc id doc
      return realmChanged || clientChanged : Call Bool).run (fun _ _ => True) w := by
  refine wp_run_bind.mpr (wp_enforceRealmRoles_any
    (fun op _ hop => hop.addressed owner) (fun _ _ _ => trivial) (fun _ _ _ _ _ _ => trivial) ?_)
  intro realmChanged server' hsame hknown
  refine wp_run_bind.mpr ?_
  refine wp_run_bind.mpr
    (wp_run_lift.mpr (wp_rangeKeys serving_reliable trivial fun order => ?_))
  dsimp only
  rw [hset]
  refine wp_run_bind.mpr
    (wp_run_lift.mpr (wp_rangeKeys serving_reliable trivial fun currentOrder => ?_))
  refine wp_run_bind.mpr (wp_clearUnlisted_addressed ?_ ?_)
  · intro clientId mapping hnot hget role hrole
    obtain ⟨key, entry, client, hentry, hfield, hid, -, rfl, howner⟩ := hdoc.source hget
    have hkey := hfiled hknown key entry clientId hentry hfield hnot (List.ne_nil_of_mem hrole)
    rw [howner role hrole]
    exact Option.some.inj (hid.symm.trans hkey)
  · intro cleared server'' hsame'
    rw [World.servers_setServer] at hsame'
    rw [World.setServer_setServer]
    have hboth := hsame.trans hsame'
    refine wp_run_bind.mpr
      (wp_run_lift.mpr (wp_rangeKeys serving_reliable trivial fun desiredOrder => ?_))
    refine wp_run_bind.mpr (wp_mono ?_ (wp_enforceListed_addressed ?_ ?_))
    · rintro (err | changed) t - <;> trivial
    · rw [World.servers_setServer, hboth.clientRoles]
      exact hdoc.role
    · intro clientId client mapping hclient hget
      rw [World.servers_setServer, hboth.client] at hclient
      obtain ⟨_, _, client', -, -, -, hclient', -, howner⟩ := hdoc.source hget
      cases hclient.symm.trans hclient'
      exact howner

end Addresses

/-! ### A request that goes astray -/

section Astray

variable {w : World} {kc : Conn} {s : GroupSpec} {id : String} {doc : Object}
  {clientRoles : FiniteMap String (List String)} {current : FiniteMap String ClientMapping}

/-- The keys with a given one at the end. -/
def lastly (keys : Finset String) {key : String} (h : key ∈ keys) : Order keys where
  list := (World.sorted keys).list.erase key ++ [key]
  nodup := by
    have hnodup := (World.sorted keys).nodup
    refine List.nodup_append.mpr ⟨hnodup.erase key, List.nodup_singleton key, ?_⟩
    rintro k hk _ hkey rfl
    rw [List.mem_singleton.mp hkey] at hk
    exact hnodup.not_mem_erase hk
  mem_iff := by
    intro k
    have hnodup := (World.sorted keys).nodup
    rw [List.mem_append, List.mem_singleton, hnodup.mem_erase_iff, (World.sorted keys).mem_iff]
    constructor
    · rintro (⟨-, hk⟩ | rfl)
      · exact hk
      · exact h
    · intro hk
      by_cases hkey : k = key
      · exact .inr hkey
      · exact .inl ⟨hkey, hk⟩

/-- The loop comes to every unlisted client. -/
theorem performs_clearUnlisted {P : Op → Prop} {names : List String} {clientId : String}
    {mapping : ClientMapping} (hmem : clientId ∈ names) (hnot : clientId ∉ clientRoles.keys)
    (hget : current.get clientId = some mapping) (hmapped : mapping.mappings ≠ [])
    (hP : P (.admin kc ⟨.delete, .clientRoleMappings s.realm id mapping.uuid,
      .objects mapping.mappings, .nothing⟩)) :
    Performs (Documented doc) P (s.clearUnlisted kc id clientRoles current names).run w := by
  induction names generalizing w with
  | nil => cases hmem
  | cons first rest ih =>
    unfold GroupSpec.clearUnlisted
    by_cases hfirst : first = clientId
    · subst hfirst
      rw [if_neg hnot, hget]
      dsimp only
      rw [if_neg hmapped]
      exact performs_bind (performs_call ⟨World.sorted, 0, rfl⟩ hP) _
    have hrest : clientId ∈ rest := (List.mem_cons.mp hmem).resolve_left (Ne.symm hfirst)
    split
    · exact ih hrest
    · next mapping' _ =>
      split
      · exact ih hrest
      · have hremoved : Returns (Documented doc)
            (kc.removeGroupClientRoles s.realm id mapping'.uuid mapping'.mappings).run w (.ok ()) _ :=
          returns_perform (S := operations) (.admin kc
            ⟨.delete, .clientRoleMappings s.realm id mapping'.uuid, .objects mapping'.mappings,
              .nothing⟩) (.ok ()) ⟨World.sorted, 0, rfl⟩
        exact hremoved.performs (performs_bind (ih hrest) _)

/-- A call whose realm roles are known comes to the entries of the unlisted clients. -/
theorem performs_postApply {P : Op → Prop} {remote entry : Object} {key clientId : String}
    (hid : remoteId remote ≠ "") (hset : s.clientRoles = some clientRoles)
    (hknown : ∀ names, s.realmRoles = some names →
      ∀ name ∈ names, (w.servers kc.server).realmRole s.realm name ≠ none)
    (hentry : ((mapField doc "clientMappings").get key).bind JSON.asObject = some entry)
    (hfield : stringField entry "client" = some clientId) (hnot : clientId ∉ clientRoles.keys)
    (hmapped : objectItems (entry.get "mappings") ≠ [])
    (hP : P (.admin kc ⟨.delete, .clientRoleMappings s.realm (remoteId remote) key,
      .objects (objectItems (entry.get "mappings")), .nothing⟩)) :
    Performs (Documented doc) P (s.postApply kc remote).run w := by
  obtain ⟨v, hv, -⟩ := Option.bind_eq_some_iff.mp hentry
  have hkey : key ∈ (mapField doc "clientMappings").keys := FiniteMap.mem_keys_of_get hv
  -- the loop over the document that comes to the entry last
  let order := lastly _ hkey
  have hget : (GroupSpec.mappingsByClient (mapField doc "clientMappings") order.list).get clientId =
      some ⟨key, objectItems (entry.get "mappings")⟩ := by
    rw [get_mappingsByClient]
    have hreverse : order.list.reverse = key ::
        ((World.sorted (mapField doc "clientMappings").keys).list.erase key).reverse := by
      simp [order, lastly]
    have hclient : entryClient (mapField doc "clientMappings") key = some clientId := by
      rw [entryClient, hentry, Option.map_some, hfield, Option.getD_some]
    rw [hreverse, List.find?_cons_of_pos (by simpa using hclient), Option.map_some, entryMapping,
      hentry, Option.getD_some]
  obtain ⟨realmChanged, t, hrealm⟩ : ∃ changed t, Returns (Documented doc)
      (s.enforceRealmRoles kc (remoteId remote) doc).run w (.ok changed) t := by
    have hwp : wp Reliable ⊤ (s.enforceRealmRoles kc (remoteId remote) doc).run
        (fun r _ => ∃ changed, r = .ok changed) w :=
      wp_enforceRealmRoles_any (fun _ _ _ => trivial) (fun _ _ _ => trivial)
        (fun names hnames name hname hnone => absurd hnone (hknown names hnames name hname))
        fun changed _ _ _ => ⟨changed, rfl⟩
    obtain ⟨_, t, ⟨steps, hexec⟩, changed, rfl⟩ := returns_of_wp hwp
    exact ⟨changed, t, steps, hexec.transfer (only_enforceRealmRoles_later doc)
      fun op _ _ _ hop => (documented_iff hop).mpr⟩
  have hrequire : Returns (Documented doc)
      (ExceptT.mk (pure (requireId remote)) : Call String).run w (.ok (remoteId remote)) w := by
    unfold requireId
    rw [if_neg hid]
    exact returns_pure _ w
  have hread : Returns (Documented doc) (kc.getGroupRoleMappings s.realm (remoteId remote)).run w
      (.ok doc) w :=
    returns_perform (S := operations) (.admin kc
      ⟨.get, .roleMappings s.realm (remoteId remote), .none, .object⟩) (.ok doc) ⟨World.sorted, 0, rfl⟩
  have hrange : ∀ {V : Type} (m : FiniteMap String V) (order : Order m.keys),
      Returns (Documented doc) (rangeKeys m) t order.list t := fun m order =>
    returns_bind (returns_perform (S := operations) (.iterate m.keys) order
      ⟨fun keys => if h : m.keys = keys then h ▸ order else World.sorted keys, 0, by
        simp [World.handleDocument, World.handle]⟩) (returns_pure _ t)
  refine hrequire.performs_run (hread.performs_run (hrealm.performs_run (performs_run_bind ?_ _)))
  unfold GroupSpec.enforceClientRoles
  rw [hset]
  refine (returns_run_lift (hrange _ order)).performs_run ?_
  refine (returns_run_lift (hrange _ (World.sorted _))).performs_run (performs_run_bind ?_ _)
  refine performs_clearUnlisted ?_ hnot hget hmapped hP
  exact ((World.sorted _).mem_iff _).mpr (FiniteMap.mem_keys_of_get hget)

end Astray

/-- Requests for role mappings of clients address the clients whose roles they carry exactly if
    the call ends before it comes to them, or each entry of an unlisted client is filed under
    the id of the client. -/
theorem group_requests_addressed_iff {owner : Object → String} {doc remote : Object} {w : World}
    {kc : Conn} {s : GroupSpec} {clientRoles : FiniteMap String (List String)}
    (hdoc : Documents owner doc (w.servers kc.server) s.realm)
    (hset : s.clientRoles = some clientRoles) :
    (∀ steps t result, Exec (Documented doc) (s.postApply kc remote).run w steps t result →
      ∀ step ∈ steps, step.op.Addressed owner) ↔
    remoteId remote = "" ∨
      (∃ names, s.realmRoles = some names ∧
        ∃ name ∈ names, (w.servers kc.server).realmRole s.realm name = none) ∨
      FiledById doc clientRoles := by
  constructor
  · intro haddressed
    by_contra hcondition
    rw [not_or, not_or] at hcondition
    obtain ⟨hid, hknown, hfiled⟩ := hcondition
    unfold FiledById at hfiled
    push Not at hfiled
    obtain ⟨key, entry, clientId, hentry, hfield, hnot, hmapped, hkey⟩ := hfiled
    obtain ⟨client, _, -, hclient, -, howner⟩ := hdoc.entry key entry hentry
    obtain ⟨steps, t, result, hexec, step, hmem, hastray⟩ :
        Performs (Documented doc) (fun op : Op => ¬ op.Addressed owner) (s.postApply kc remote).run w := by
      refine performs_postApply hid hset ?_ hentry hfield hnot hmapped ?_
      · intro names hnames name hname hnone
        exact hknown ⟨names, hnames, name, hname, hnone⟩
      · intro hright
        obtain ⟨role, hrole⟩ := List.exists_mem_of_ne_nil _ hmapped
        apply hkey
        rw [hclient, ← howner role hrole, hright (by simp) role hrole]
    exact hastray (haddressed steps t result hexec step hmem)
  · intro hcondition steps t result hexec
    have hwp : wp (Documented doc) (fun op _ => op.Addressed owner) (s.postApply kc remote).run
        (fun _ _ => True) w := by
      refine wp_run_bind.mpr (wp_run_mk.mpr ?_)
      unfold requireId
      by_cases hid : remoteId remote = ""
      · rw [if_pos hid]
        trivial
      rw [if_neg hid]
      refine wp_run_bind.mpr ⟨trivial, ?_⟩
      rintro answer w' ⟨_, _, hanswer⟩
      cases hanswer
      refine (wp_ret _ _ _).mpr ?_
      refine wp_transfer (wp_afterDocument hdoc hset ?_) ?_ fun op _ _ _ hop => (documented_iff hop).mp
      · intro hknown
        rcases hcondition with hempty | ⟨names, hnames, name, hname, hnone⟩ | hfiled
        · exact absurd hempty hid
        · exact absurd hnone (hknown names hnames name hname)
        · exact hfiled
      · exact only_run_bind (only_enforceRealmRoles_later _) fun _ =>
          only_run_bind (only_enforceClientRoles_later _) fun _ => trivial
    exact (wp_sound hwp hexec).1

/-! ### Examples -/

/-- The id of the client that a role of `staffServer` belongs to. -/
def staffOwner (role : Object) : String := if role = roleRep "6" "view" then "1" else "2"

/-- The entry of the client `api`. -/
def apiEntry : Object :=
  .ofList [("id", .str "2"), ("client", .str "api"),
    ("mappings", .ofList [.ofObject (roleRep "5" "call")])]

/-- The role mappings of the group, with the entry of `api` filed under `key`. -/
def staffDocument (key : String) : Object :=
  .ofList [("clientMappings", .ofObject (.ofList [(key, .ofObject apiEntry)]))]

theorem get_staffDocument (key key' : String) :
    ((mapField (staffDocument key) "clientMappings").get key').bind JSON.asObject =
      if key' = key then some apiEntry else none := by
  have hfield : mapField (staffDocument key) "clientMappings" =
      (∅ : Object).put key (.ofObject apiEntry) := by
    simp [mapField, staffDocument, FiniteMap.ofList]
  rw [hfield, FiniteMap.get_put]
  split <;> simp

theorem documents_staffDocument (key : String) :
    Documents staffOwner (staffDocument key) staffServer "demo" := by
  constructor
  · intro key' entry hentry
    rw [get_staffDocument, Option.ite_none_right_eq_some] at hentry
    obtain ⟨-, hentry⟩ := hentry
    cases hentry
    exact ⟨⟨"2", .ofList [("clientId", .str "api")], none⟩, "api", by decide, by decide, by decide,
      by decide⟩
  · intro uuid name rep hrole
    simp only [staffServer, Option.ite_none_right_eq_some, Option.some.injEq] at hrole
    obtain ⟨⟨rfl, -⟩, rfl⟩ := hrole
    decide

/-- The server files the entry under the client ID, and the roles of the client 2 are removed at
    the client `api`. -/
theorem dropped_client_astray :
    Documents staffOwner (staffDocument "api") staffServer "demo" ∧
    staffOwner (roleRep "5" "call") = "2" ∧
    Performs (Documented (staffDocument "api"))
      (fun op => op = .admin ⟨"main", "keycloak"⟩ ⟨.delete, .clientRoleMappings "demo" "7" "api",
        .objects [roleRep "5" "call"], .nothing⟩)
      (staffGroup.postApply ⟨"main", "keycloak"⟩ (.ofList [("id", .str "7")])).run staffWorld := by
  refine ⟨documents_staffDocument "api", by decide, ?_⟩
  have hentry : ((mapField (staffDocument "api") "clientMappings").get "api").bind JSON.asObject =
      some apiEntry := by
    rw [get_staffDocument, if_pos rfl]
  have hmappings : objectItems (apiEntry.get "mappings") = [roleRep "5" "call"] := by decide
  have hfield : stringField apiEntry "client" = some "api" := by decide
  refine performs_postApply (by decide) rfl ?_ hentry hfield (by decide) ?_ ?_
  · rintro names hnames name hname
    cases hnames
    rw [List.mem_singleton.mp hname]
    decide
  · rw [hmappings]
    exact List.cons_ne_nil _ _
  · rw [hmappings]
    rfl

/-- Filed under the id, the entry leads to the right client. -/
theorem filed_by_id_addressed :
    Documents staffOwner (staffDocument "2") (staffWorld.servers "keycloak") "demo" ∧
    ∀ steps t result, Exec (Documented (staffDocument "2"))
      (staffGroup.postApply ⟨"main", "keycloak"⟩ (.ofList [("id", .str "7")])).run
        staffWorld steps t result →
      ∀ step ∈ steps, step.op.Addressed staffOwner := by
  have hdoc := documents_staffDocument "2"
  refine ⟨hdoc, (group_requests_addressed_iff (w := staffWorld) hdoc rfl).mpr (.inr (.inr ?_))⟩
  intro key entry clientId hentry hfield hnot hmapped
  rw [get_staffDocument, Option.ite_none_right_eq_some] at hentry
  obtain ⟨rfl, hentry⟩ := hentry
  cases hentry
  decide

end KeycloakOperator
