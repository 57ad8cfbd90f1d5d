import KeycloakOperator.GroupRoles

/-!
# The members of composite roles

`PostApply` of a realm role looks up the roles that its spec names, of the realm and of
clients, and makes them the members of the role.

* `RoleComposites.Wants` says which ids the named roles have, without the order in which they
  are looked up.
* `wp_desiredComposites` says that the lookups return just these roles.
-/

namespace KeycloakOperator

open Prog

/-! ### The named roles -/

/-- A role as a spec names it. -/
inductive RoleRef where
  | realm (name : String)
  | client (clientId name : String)
deriving DecidableEq, Repr

/-- The role is named under `realmRoles` or under `clientRoles`. -/
def RoleComposites.Lists (c : RoleComposites) : RoleRef → Prop
  | .realm name => name ∈ c.realmRoles
  | .client clientId name => ∃ names, c.clientRoles.get clientId = some names ∧ name ∈ names

/-- The representation of a named role. -/
def Server.role (server : Server) (realm : String) : RoleRef → Option Object
  | .realm name => (server.realmRole realm name).map Resource.report
  | .client clientId name =>
      (server.client realm clientId).bind fun client => server.clientRoles realm client.id name

/-- The id belongs to a named role. -/
def RoleComposites.Wants (c : RoleComposites) (server : Server) (realm id : String) : Prop :=
  ∃ ref rep, c.Lists ref ∧ server.role realm ref = some rep ∧ stringField rep "id" = some id

namespace Server

/-- The representations of roles of several clients. -/
def rolesOfClients (server : Server) (realm : String)
    (clientRoles : FiniteMap String (List String)) : List String → Except Err (List Object)
  | [] => .ok []
  | clientId :: rest => do
      let reps ← server.rolesOfClient realm clientId ((clientRoles.get clientId).getD [])
      let others ← server.rolesOfClients realm clientRoles rest
      return reps ++ others

variable {server : Server} {realm : String}

theorem role_client {clientId : String} {client : Resource}
    (hclient : server.client realm clientId = some client) (name : String) :
    server.role realm (.client clientId name) = server.clientRoles realm client.id name := by
  rw [role, hclient, Option.bind_some]

theorem of_rolesOfClient {clientId : String} {names : List String} {reps : List Object}
    (h : server.rolesOfClient realm clientId names = .ok reps) :
    server.client realm clientId ≠ none ∧
      (∀ name ∈ names, ∃ rep ∈ reps, server.role realm (.client clientId name) = some rep) ∧
      ∀ rep ∈ reps, ∃ name ∈ names, server.role realm (.client clientId name) = some rep := by
  unfold rolesOfClient at h
  rcases hclient : server.client realm clientId with _ | client
  · rw [hclient] at h
    cases h
  · rw [hclient] at h
    simp only [role_client hclient]
    exact ⟨by simp, of_lookupAll h⟩

theorem of_rolesOfClient_error {clientId : String} {names : List String} {err : Err}
    (h : server.rolesOfClient realm clientId names = .error err) :
    server.client realm clientId = none ∨
      ∃ name ∈ names, server.role realm (.client clientId name) = none := by
  unfold rolesOfClient at h
  rcases hclient : server.client realm clientId with _ | client
  · exact .inl rfl
  · rw [hclient] at h
    obtain ⟨name, hname, hnone, -⟩ := of_lookupAll_error h
    exact .inr ⟨name, hname, (role_client hclient name).trans hnone⟩

theorem of_rolesOfClients {clientRoles : FiniteMap String (List String)} {names : List String}
    {reps : List Object} (h : server.rolesOfClients realm clientRoles names = .ok reps) :
    (∀ clientId ∈ names, server.client realm clientId ≠ none ∧
      ∀ name ∈ (clientRoles.get clientId).getD [],
        ∃ rep ∈ reps, server.role realm (.client clientId name) = some rep) ∧
      ∀ rep ∈ reps, ∃ clientId ∈ names, ∃ name ∈ (clientRoles.get clientId).getD [],
        server.role realm (.client clientId name) = some rep := by
  induction names generalizing reps with
  | nil =>
    cases h
    simp
  | cons clientId rest ih =>
    unfold rolesOfClients at h
    rcases hfirst : server.rolesOfClient realm clientId ((clientRoles.get clientId).getD []) with
      err | first
    · rw [hfirst] at h
      cases h
    rcases hrest : server.rolesOfClients realm clientRoles rest with err | others
    · rw [hfirst, hrest] at h
      cases h
    rw [hfirst, hrest] at h
    cases h
    obtain ⟨hclient, hnamed, honly⟩ := of_rolesOfClient hfirst
    obtain ⟨hnamed', honly'⟩ := ih hrest
    constructor
    · intro clientId' hmem
      rcases List.mem_cons.mp hmem with rfl | hmem
      · refine ⟨hclient, fun name hname => ?_⟩
        obtain ⟨rep, hrep, hrole⟩ := hnamed name hname
        exact ⟨rep, List.mem_append_left _ hrep, hrole⟩
      · refine ⟨(hnamed' clientId' hmem).1, fun name hname => ?_⟩
        obtain ⟨rep, hrep, hrole⟩ := (hnamed' clientId' hmem).2 name hname
        exact ⟨rep, List.mem_append_right _ hrep, hrole⟩
    · intro rep hrep
      rcases List.mem_append.mp hrep with hrep | hrep
      · obtain ⟨name, hname, hrole⟩ := honly rep hrep
        exact ⟨clientId, List.mem_cons_self, name, hname, hrole⟩
      · obtain ⟨clientId', hmem, name, hname, hrole⟩ := honly' rep hrep
        exact ⟨clientId', List.mem_cons_of_mem _ hmem, name, hname, hrole⟩

theorem of_rolesOfClients_error {clientRoles : FiniteMap String (List String)}
    {names : List String} {err : Err}
    (h : server.rolesOfClients realm clientRoles names = .error err) :
    ∃ clientId ∈ names, server.client realm clientId = none ∨
      ∃ name ∈ (clientRoles.get clientId).getD [],
        server.role realm (.client clientId name) = none := by
  induction names with
  | nil => cases h
  | cons clientId rest ih =>
    unfold rolesOfClients at h
    rcases hfirst : server.rolesOfClient realm clientId ((clientRoles.get clientId).getD []) with
      err' | first
    · exact ⟨clientId, List.mem_cons_self, of_rolesOfClient_error hfirst⟩
    rcases hrest : server.rolesOfClients realm clientRoles rest with err' | others
    · rw [hfirst, hrest] at h
      cases h
      obtain ⟨clientId', hmem, hmissing⟩ := ih hrest
      exact ⟨clientId', List.mem_cons_of_mem _ hmem, hmissing⟩
    · rw [hfirst, hrest] at h
      cases h

end Server

/-- Every named role exists, and so does every listed client. -/
structure RoleComposites.Known (c : RoleComposites) (server : Server) (realm : String) : Prop where
  roles : ∀ ref, c.Lists ref → server.role realm ref ≠ none
  clients : ∀ clientId ∈ c.clientRoles.keys, server.client realm clientId ≠ none

/-- The looked up roles are the named ones. -/
structure RoleComposites.Found (c : RoleComposites) (server : Server) (realm : String)
    (reps : List Object) : Prop where
  named : ∀ ref, c.Lists ref → ∃ rep ∈ reps, server.role realm ref = some rep
  only : ∀ rep ∈ reps, ∃ ref, c.Lists ref ∧ server.role realm ref = some rep

namespace RoleComposites

variable {c : RoleComposites} {server : Server} {realm : String}

theorem lists_client {clientId name : String} (h : clientId ∈ c.clientRoles.keys) :
    c.Lists (.client clientId name) ↔ name ∈ (c.clientRoles.get clientId).getD [] := by
  obtain ⟨names, hget⟩ := FiniteMap.mem_keys_iff.mp h
  simp [Lists, hget]

theorem Known.realmRoles_ne (h : c.Known server realm) (err : Err) :
    server.realmRoles realm c.realmRoles ≠ .error err := by
  intro herr
  obtain ⟨name, hname, hnone, -⟩ := Server.of_lookupAll_error herr
  exact h.roles (.realm name) hname hnone

theorem Known.rolesOfClients_ne (h : c.Known server realm) (order : Order c.clientRoles.keys)
    (err : Err) : server.rolesOfClients realm c.clientRoles order.list ≠ .error err := by
  intro herr
  obtain ⟨clientId, hmem, hmissing⟩ := Server.of_rolesOfClients_error herr
  have hkey := (order.mem_iff clientId).mp hmem
  rcases hmissing with hclient | ⟨name, hname, hnone⟩
  · exact h.clients clientId hkey hclient
  · exact h.roles (.client clientId name) ((lists_client hkey).mpr hname) hnone

theorem found_append {realmReps clientReps : List Object} (order : Order c.clientRoles.keys)
    (hrealm : server.realmRoles realm c.realmRoles = .ok realmReps)
    (hclients : server.rolesOfClients realm c.clientRoles order.list = .ok clientReps) :
    c.Found server realm (realmReps ++ clientReps) := by
  obtain ⟨hnamed, honly⟩ := Server.of_lookupAll hrealm
  obtain ⟨hnamed', honly'⟩ := Server.of_rolesOfClients hclients
  constructor
  · intro ref hlists
    rcases ref with name | ⟨clientId, name⟩
    · obtain ⟨rep, hrep, hrole⟩ := hnamed name hlists
      exact ⟨rep, List.mem_append_left _ hrep, hrole⟩
    · obtain ⟨names, hget, hname⟩ := hlists
      have hmem := (order.mem_iff clientId).mpr (FiniteMap.mem_keys_of_get hget)
      obtain ⟨rep, hrep, hrole⟩ := (hnamed' clientId hmem).2 name (by rwa [hget])
      exact ⟨rep, List.mem_append_right _ hrep, hrole⟩
  · intro rep hrep
    rcases List.mem_append.mp hrep with hrep | hrep
    · obtain ⟨name, hname, hrole⟩ := honly rep hrep
      exact ⟨.realm name, hname, hrole⟩
    · obtain ⟨clientId, hmem, name, hname, hrole⟩ := honly' rep hrep
      exact ⟨.client clientId name, (lists_client ((order.mem_iff clientId).mp hmem)).mpr hname, hrole⟩

theorem known_of_lookups {realmReps clientReps : List Object} (order : Order c.clientRoles.keys)
    (hrealm : server.realmRoles realm c.realmRoles = .ok realmReps)
    (hclients : server.rolesOfClients realm c.clientRoles order.list = .ok clientReps) :
    c.Known server realm := by
  constructor
  · intro ref hlists hnone
    obtain ⟨rep, -, hrole⟩ := (found_append order hrealm hclients).named ref hlists
    cases hnone.symm.trans hrole
  · intro clientId hkey
    exact ((Server.of_rolesOfClients hclients).1 clientId ((order.mem_iff clientId).mpr hkey)).1

theorem Found.mem_roleIds {reps : List Object} (h : c.Found server realm reps) {id : String} :
    id ∈ roleIds reps ↔ c.Wants server realm id := by
  rw [KeycloakOperator.mem_roleIds]
  constructor
  · rintro ⟨rep, hrep, hid⟩
    obtain ⟨ref, hlists, hrole⟩ := h.only rep hrep
    exact ⟨ref, rep, hlists, hrole, hid⟩
  · rintro ⟨ref, rep, hlists, hrole, hid⟩
    obtain ⟨rep', hrep', hrole'⟩ := h.named ref hlists
    cases hrole.symm.trans hrole'
    exact ⟨rep, hrep', hid⟩

end RoleComposites

theorem SameButMappings.role {server server' : Server} (h : SameButMappings server server')
    (realm : String) (ref : RoleRef) : server'.role realm ref = server.role realm ref := by
  rcases ref with name | ⟨clientId, name⟩
  · simp only [Server.role, h.realmRole]
  · simp only [Server.role, h.client, h.clientRoles]

theorem SameButMappings.wants {server server' : Server} (h : SameButMappings server server')
    {c : RoleComposites} {realm id : String} : c.Wants server' realm id ↔ c.Wants server realm id := by
  unfold RoleComposites.Wants
  simp only [h.role]

/-! ### The lookups -/

section Lookups

variable {env : Env operations World} {errs : Prop} {guard : Op → World → Prop} {w : World}
  {kc : Conn}

theorem wp_resolveRolesOfClients (hreading : Reading env errs) {realm : String}
    {clientRoles : FiniteMap String (List String)} {names : List String}
    {post : Except Err (List Object) → World → Prop} (hguard : ∀ op, op.Reads → guard op w)
    (herr : errs → ∀ err, post (.error err) w)
    (h : post ((w.servers kc.server).rolesOfClients realm clientRoles names) w) :
    wp env guard (resolveRolesOfClients kc realm clientRoles names).run post w := by
  induction names generalizing post with
  | nil => exact h
  | cons clientId rest ih =>
    unfold Server.rolesOfClients at h
    unfold resolveRolesOfClients
    refine wp_run_bind.mpr (wp_resolveClientRoles hreading hguard herr ?_)
    rcases hfirst : (w.servers kc.server).rolesOfClient realm clientId
      ((clientRoles.get clientId).getD []) with err | reps
    · rw [hfirst] at h
      exact h
    rw [hfirst] at h
    refine wp_run_bind.mpr (ih (fun herrs err => herr herrs err) ?_)
    revert h
    rcases (w.servers kc.server).rolesOfClients realm clientRoles rest with err | others <;> exact id

/-- A lookup that succeeds returns the named roles, in any order of the clients. -/
theorem wp_desiredComposites (hserving : Serving env errs) {s : RealmRoleSpec} {c : RoleComposites}
    {post : Except Err (List Object) → World → Prop} (hcomposite : s.composite = some true)
    (hcomposites : s.composites = some c) (hguard : ∀ op, op.Reads → guard op w)
    (herr : (c.Known (w.servers kc.server) s.realm → errs) → ∀ err, post (.error err) w)
    (h : ∀ reps, c.Known (w.servers kc.server) s.realm → c.Found (w.servers kc.server) s.realm reps →
      post (.ok reps) w) :
    wp env guard (s.desiredComposites kc).run post w := by
  unfold RealmRoleSpec.desiredComposites
  rw [hcomposite, hcomposites]
  refine wp_run_bind.mpr (wp_resolveRealmRoles hserving.toReading hguard
    (fun herrs err => herr (fun _ => herrs) err) ?_)
  rcases hrealm : (w.servers kc.server).realmRoles s.realm c.realmRoles with err | realmReps
  · exact herr (fun hknown => absurd hrealm (hknown.realmRoles_ne err)) err
  refine wp_run_bind.mpr
    (wp_run_lift.mpr (wp_rangeKeys hserving (hguard _ trivial) fun order => ?_))
  refine wp_run_bind.mpr (wp_resolveRolesOfClients hserving.toReading hguard
    (fun herrs err => herr (fun _ => herrs) err) ?_)
  rcases hclients : (w.servers kc.server).rolesOfClients s.realm c.clientRoles order.list with
    err | clientReps
  · exact herr (fun hknown => absurd hclients (hknown.rolesOfClients_ne order err)) err
  · exact h _ (RoleComposites.known_of_lookups order hrealm hclients)
      (RoleComposites.found_append order hrealm hclients)

end Lookups

/-! ### A whole call -/

/-- The members of the role. -/
def World.members (w : World) (kc : Conn) (s : RealmRoleSpec) : List Object :=
  (w.servers kc.server).composites s.realm s.name

/-- The world with other members of the role. -/
def World.setMembers (w : World) (kc : Conn) (s : RealmRoleSpec) (reps : List Object) : World :=
  w.setServer kc.server ((w.servers kc.server).setRoles (.composites s.realm s.name) reps)

@[simp] theorem World.members_setMembers (w : World) (kc : Conn) (s : RealmRoleSpec)
    (reps : List Object) : (w.setMembers kc s reps).members kc s = reps := by
  unfold members setMembers
  rw [servers_setServer]
  exact Server.roles_setRoles_self _ (.composites s.realm s.name) reps

theorem World.sameButMappings_setMembers (w : World) (kc : Conn) (s : RealmRoleSpec)
    (reps : List Object) :
    SameButMappings (w.servers kc.server) ((w.setMembers kc s reps).servers kc.server) := by
  unfold setMembers
  rw [servers_setServer]
  exact sameButMappings_setRoles _ _ _

section Apply

variable {env : Env operations World} {errs : Prop} {guard : Op → World → Prop} {w : World}
  {kc : Conn} {s : RealmRoleSpec} {c : RoleComposites}

/-- What `PostApply` submits, and what it leaves. -/
theorem wp_rolePostApply (hserving : Serving env errs) {post : Except Err Bool → World → Prop}
    (hcomposite : s.composite = some true) (hcomposites : s.composites = some c)
    (hreads : ∀ op, op.Reads → guard op w)
    (hadd : ∀ roles, (∀ id, id ∈ roleIds roles ↔
        c.Wants (w.servers kc.server) s.realm id ∧ id ∉ roleIds (w.members kc s)) →
      guard (.admin kc ⟨.post, .composites s.realm s.name, .objects roles, .nothing⟩) w)
    (hremove : ∀ roles reps, (∀ id, id ∈ roleIds roles ↔
        id ∈ roleIds (w.members kc s) ∧ ¬ c.Wants (w.servers kc.server) s.realm id) →
      roleIds (w.members kc s) ⊆ roleIds reps →
      guard (.admin kc ⟨.delete, .composites s.realm s.name, .objects roles, .nothing⟩)
        (w.setMembers kc s reps))
    (herr : (c.Known (w.servers kc.server) s.realm → errs) → ∀ err t, post (.error err) t)
    (h : ∀ changed reps, c.Known (w.servers kc.server) s.realm →
      (∀ id, id ∈ roleIds reps ↔ c.Wants (w.servers kc.server) s.realm id) →
      (Identified (w.members kc s) → Identified reps) →
      post (.ok changed) (w.setMembers kc s reps)) :
    wp env guard (s.postApply kc).run post w := by
  refine wp_run_bind.mpr ?_
  refine wp_send hserving.toReading.answering rfl (hreads _ rfl)
    (fun err herrs => herr (fun _ => herrs) err w) ?_
  refine wp_run_bind.mpr (wp_desiredComposites hserving hcomposite hcomposites hreads
    (fun herrs err => herr herrs err w) ?_)
  intro desired hknown hfound
  have hwants : ∀ id, id ∈ roleIds desired ↔ c.Wants (w.servers kc.server) s.realm id :=
    fun id => hfound.mem_roleIds
  refine wp_applyRoleDiff (.composites s.realm s.name) hserving hreads ?_ ?_
    (fun herrs err t => herr (fun _ => herrs) err t) fun changed reps hids hidentified =>
      h changed reps hknown (fun id => hids rfl ▸ hwants id) hidentified
  · intro roles _ hids
    refine hadd roles fun id => ?_
    rw [hids, Finset.mem_sdiff, hwants]
    rfl
  · intro toAdd roles _ hids
    refine hremove roles _ (fun id => ?_) ?_
    · rw [hids, Finset.mem_sdiff, hwants]
      rfl
    · rw [roleIds_unionById]
      exact Finset.subset_union_left

/-- A role whose members are the named ones is left alone. -/
theorem wp_rolePostApply_idle (hserving : Serving env errs) {post : Except Err Bool → World → Prop}
    (hcomposite : s.composite = some true) (hcomposites : s.composites = some c)
    (hreads : ∀ op, op.Reads → guard op w) (hknown : c.Known (w.servers kc.server) s.realm)
    (hexact : ∀ id, id ∈ roleIds (w.members kc s) ↔ c.Wants (w.servers kc.server) s.realm id)
    (herr : errs → ∀ err, post (.error err) w) (h : post (.ok false) w) :
    wp env guard (s.postApply kc).run post w := by
  refine wp_run_bind.mpr ?_
  refine wp_send hserving.toReading.answering rfl (hreads _ rfl)
    (fun err herrs => herr herrs err) ?_
  refine wp_run_bind.mpr (wp_desiredComposites hserving hcomposite hcomposites hreads
    (fun herrs err => herr (herrs hknown) err) ?_)
  intro desired _ hfound
  refine wp_applyRoleDiff_idle (.composites s.realm s.name) hserving hreads ?_ h
  ext id
  exact hfound.mem_roleIds.trans (hexact id).symm

end Apply

/-! ### Exact members -/

/-- The members are exactly the named roles, told apart by id. -/
structure RoleComposites.Exact (c : RoleComposites) (server : Server) (realm : String)
    (members : List Object) : Prop where
  named : ∀ ref, c.Lists ref → ∃ rep id, server.role realm ref = some rep ∧
    stringField rep "id" = some id ∧ id ∈ roleIds members
  only : ∀ rep ∈ members, ∃ id, stringField rep "id" = some id ∧ c.Wants server realm id

theorem RoleComposites.exact_of_ids {c : RoleComposites} {server : Server} {realm : String}
    {members : List Object} (hknown : c.Known server realm)
    (hroles : ∀ ref rep, server.role realm ref = some rep → (stringField rep "id").isSome)
    (hmembers : Identified members)
    (hids : ∀ id, id ∈ roleIds members ↔ c.Wants server realm id) :
    c.Exact server realm members := by
  constructor
  · intro ref hlists
    obtain ⟨rep, hrole⟩ := Option.ne_none_iff_exists'.mp (hknown.roles ref hlists)
    obtain ⟨id, hid⟩ := Option.isSome_iff_exists.mp (hroles ref rep hrole)
    exact ⟨rep, id, hrole, hid, (hids id).mpr ⟨ref, rep, hlists, hrole, hid⟩⟩
  · intro rep hrep
    obtain ⟨id, hid⟩ := Option.isSome_iff_exists.mp (hmembers rep hrep)
    exact ⟨id, hid, (hids id).mp (mem_roleIds.mpr ⟨rep, hrep, hid⟩)⟩

/-- What holds at every operation of a call: additions are wanted and not there at the start,
    removals are there at the start and not wanted, and what is both stays. -/
structure Op.Converges (op : Op) (t : World) (kc : Conn) (s : RealmRoleSpec)
    (wants : String → Prop) (start : Finset String) : Prop where
  added : ∀ roles, op = .admin kc ⟨.post, .composites s.realm s.name, .objects roles, .nothing⟩ →
    ∀ id ∈ roleIds roles, wants id ∧ id ∉ start
  removed : ∀ roles, op = .admin kc ⟨.delete, .composites s.realm s.name, .objects roles, .nothing⟩ →
    ∀ id ∈ roleIds roles, id ∈ start ∧ ¬ wants id
  kept : ∀ id ∈ start, wants id → id ∈ roleIds (t.members kc s)

theorem Op.Reads.converges {op : Op} (h : op.Reads) {w : World} {kc : Conn} {s : RealmRoleSpec}
    {wants : String → Prop} : op.Converges w kc s wants (roleIds (w.members kc s)) where
  added := by
    rintro roles rfl
    cases h
  removed := by
    rintro roles rfl
    cases h
  kept := fun _ hid _ => hid

/-- **Exact composite members.**  After a call that succeeds, whatever the order of the clients,
    the members are exactly the roles that the spec names.  No role is both added and removed,
    a member that is wanted is there at every step, and a second call finds nothing to do. -/
theorem composites_exact {s : RealmRoleSpec} {c : RoleComposites} {kc : Conn} {w w' : World}
    {steps : List (Step operations World)} {changed : Bool} (hcomposite : s.composite = some true)
    (hcomposites : s.composites = some c)
    (hroles : ∀ ref rep, (w.servers kc.server).role s.realm ref = some rep →
      (stringField rep "id").isSome)
    (hmembers : Identified (w.members kc s))
    (h : Exec Faulty (s.postApply kc).run w steps w' (some (.ok changed))) :
    c.Exact (w'.servers kc.server) s.realm (w'.members kc s) ∧
    (∀ adding ∈ steps, ∀ removing ∈ steps, ∀ added removed,
      adding.op = .admin kc ⟨.post, .composites s.realm s.name, .objects added, .nothing⟩ →
      removing.op = .admin kc ⟨.delete, .composites s.realm s.name, .objects removed, .nothing⟩ →
      Disjoint (roleIds added) (roleIds removed)) ∧
    (∀ id ∈ roleIds (w.members kc s), c.Wants (w.servers kc.server) s.realm id →
      ∀ step ∈ steps, id ∈ roleIds (step.before.members kc s)) ∧
    (∀ steps' w'' result, Exec Faulty (s.postApply kc).run w' steps' w'' result →
      (∀ step ∈ steps', step.op.Reads) ∧ ∀ again, result = some (.ok again) → again = false) ∧
    ∀ steps' w'' result, Exec Reliable (s.postApply kc).run w' steps' w'' (some result) →
      result = .ok false := by
  -- the first call
  have hwp : wp Faulty
      (fun op t => op.Converges t kc s (c.Wants (w.servers kc.server) s.realm)
        (roleIds (w.members kc s)))
      (s.postApply kc).run
      (fun r t => ∀ changed, r = .ok changed → c.Known (t.servers kc.server) s.realm ∧
        SameButMappings (w.servers kc.server) (t.servers kc.server) ∧ Identified (t.members kc s) ∧
        ∀ id, id ∈ roleIds (t.members kc s) ↔ c.Wants (t.servers kc.server) s.realm id) w := by
    apply wp_rolePostApply serving_faulty hcomposite hcomposites
    · exact fun op hop => hop.converges
    · intro roles hids
      constructor
      · rintro _ ⟨⟩ id hid
        exact (hids id).mp hid
      · rintro _ ⟨⟩
      · exact fun id hid _ => hid
    · intro roles reps hids hsub
      constructor
      · rintro _ ⟨⟩
      · rintro _ ⟨⟩ id hid
        exact (hids id).mp hid
      · intro id hid _
        rw [World.members_setMembers]
        exact hsub hid
    · exact fun _ err t changed hok => by cases hok
    · intro changed reps hknown hids hidentified _ _
      have hsame := w.sameButMappings_setMembers kc s reps
      rw [World.members_setMembers]
      refine ⟨⟨?_, ?_⟩, hsame, hidentified hmembers, fun id => (hids id).trans hsame.wants.symm⟩
      · simp only [hsame.role]
        exact hknown.roles
      · simp only [hsame.client]
        exact hknown.clients
  obtain ⟨hsteps, hpost⟩ := wp_sound hwp h
  obtain ⟨hknown, hsame, hidentified, hids⟩ := hpost _ rfl changed rfl
  refine ⟨?_, ?_, ?_, ?_, ?_⟩
  · apply RoleComposites.exact_of_ids hknown _ hidentified hids
    simp only [hsame.role]
    exact hroles
  · intro adding hadding removing hremoving added removed hadd hremove
    rw [Finset.disjoint_left]
    intro id hadded hremoved
    exact ((hsteps removing hremoving).removed removed hremove id hremoved).2
      ((hsteps adding hadding).added added hadd id hadded).1
  · exact fun id hid hwants step hstep => (hsteps step hstep).kept id hid hwants
  -- the second call
  · intro steps' w'' result hexec
    have hidle : wp Faulty (fun op _ => op.Reads) (s.postApply kc).run
        (fun r _ => ∀ again, r = .ok again → again = false) w' := by
      apply wp_rolePostApply_idle serving_faulty hcomposite hcomposites (fun _ hop => hop) hknown hids
      · exact fun _ _ _ hok => by cases hok
      · exact fun again hok => (Except.ok.inj hok).symm
    obtain ⟨hreads, hresult⟩ := wp_sound hidle hexec
    exact ⟨hreads, fun again hagain => hresult _ hagain again rfl⟩
  · intro steps' w'' result hexec
    have hidle : wp Reliable ⊤ (s.postApply kc).run (fun r _ => r = .ok false) w' :=
      wp_rolePostApply_idle serving_reliable hcomposite hcomposites (fun _ _ => trivial) hknown hids
        (fun herrs => herrs.elim) rfl
    exact (wp_sound hidle hexec).2 result rfl

/-- A composite of one role of the client `portal`, named twice. -/
def operatorComposites : RoleComposites where
  realmRoles := []
  clientRoles := .ofList [("portal", ["view", "view"])]

def operatorRole : RealmRoleSpec where
  keycloakRef := "main"
  realm := "demo"
  name := "operator"
  composite := some true
  composites := some operatorComposites
  fields := ⟨∅, Fields.typed_empty _⟩

/-- The role has another member. -/
def operatorWorld : World :=
  staffWorld.setServer "keycloak"
    (staffServer.setComposites "demo" "operator" [roleRep "4" "guest"])

/-- The call adds a member and removes one. -/
theorem operator_composites_enforced :
    ∃ steps w', Exec Faulty (operatorRole.postApply ⟨"main", "keycloak"⟩).run operatorWorld steps w'
        (some (.ok true)) ∧
      operatorComposites.Exact (w'.servers "keycloak") "demo"
        ((w'.servers "keycloak").composites "demo" "operator") := by
  have hresult : ((operatorRole.postApply ⟨"main", "keycloak"⟩).run.run (World.handle World.sorted 0)
      operatorWorld).1 = .ok true := by decide +kernel
  have hexec := (exec_handle (operatorRole.postApply ⟨"main", "keycloak"⟩).run operatorWorld).mono
    faulty_of_reliable
  rw [hresult] at hexec
  have hroles : ∀ ref rep, (operatorWorld.servers "keycloak").role "demo" ref = some rep →
      (stringField rep "id").isSome := by
    rintro (name | ⟨clientId, name⟩) rep hrole
    · obtain ⟨r, -, rfl⟩ := Option.map_eq_some_iff.mp hrole
      simp [stringField]
    · obtain ⟨client, -, hrep⟩ := Option.bind_eq_some_iff.mp hrole
      have hview : client.id = "1" ∧ name = "view" ∧ roleRep "6" "view" = rep := by
        simpa [operatorWorld, Server.setComposites, staffServer, and_assoc] using hrep
      rw [← hview.2.2]
      decide
  have hmembers : Identified (operatorWorld.members ⟨"main", "keycloak"⟩ operatorRole) := by
    simp only [Identified]
    decide
  exact ⟨_, _, hexec, (composites_exact rfl rfl hroles hmembers hexec).1⟩

end KeycloakOperator
