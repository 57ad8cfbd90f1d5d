import KeycloakOperator.GroupRoles
import KeycloakOperator.LostUpdates
import KeycloakOperator.NextPass

/-!
# Groups whose roles are reported

`PostApply` enforces the roles of a group as sets.  The representation of the group is compared
with lists of names, and so it matters how the server reports the roles: by name, each of them
once, in an order of its own.
-/

namespace KeycloakOperator

open Prog

/-! ### Lists of names -/

/-- No name is repeated, and the mask is at most the first name. -/
def Unambiguous (names : List String) : Prop :=
  names.Nodup ∧ keycloakMaskedValue ∉ names.tail

instance (names : List String) : Decidable (Unambiguous names) :=
  inferInstanceAs (Decidable (_ ∧ _))

section Names

variable {want got : List String}

theorem managedValueEqual_str {name name' : String} :
    managedValueEqual (.str name) (.str name') = true ↔
      name' = keycloakMaskedValue ∨ name' = name := by
  rw [managedValueEqual_scalar rfl]
  simp

theorem managedValueEqual_jsonStrings :
    managedValueEqual (jsonStrings want) (jsonStrings got) = true ↔ want.length = got.length ∧
      claimAll (want.map fun name => managedValueEqual (.str name)) (unused (got.map .str)) = true := by
  unfold jsonStrings JSON.ofList
  rw [managedValueEqual_arr]
  have hrequests : (List.ofFn fun i => managedValueEqual ((want.map JSON.str)[i])) =
      want.map fun name => managedValueEqual (.str name) := by
    have hmap : (List.ofFn fun i => managedValueEqual ((want.map JSON.str)[i])) =
        (List.ofFn fun i => (want.map JSON.str)[i]).map managedValueEqual := (List.map_ofFn ..).symm
    rw [hmap]
    simp
  have hcandidates : (List.ofFn fun i => (got.map JSON.str)[i]) = got.map .str :=
    List.ofFn_getElem
  rw [hrequests, hcandidates, List.length_map, List.length_map]

/-- The comparison succeeds for every order that the server may report. -/
theorem Unambiguous.equal (h : Unambiguous want) (hnodup : got.Nodup)
    (hsame : ∀ name, name ∈ got ↔ name ∈ want) :
    managedValueEqual (jsonStrings want) (jsonStrings got) = true := by
  rw [managedValueEqual_jsonStrings]
  constructor
  · exact ((List.perm_ext_iff_of_nodup h.1 hnodup).mpr fun name => (hsame name).symm).length_eq
  apply claimAll_of_always hnodup
  intro served request rest taken hwant _ hserved
  -- the name itself is still there
  refine ⟨request, (hsame request).mpr (by simp [hwant]), fun htaken => ?_, ?_⟩
  · obtain ⟨name, hname, haccepts⟩ := forall₂_exists hserved.flip htaken
    rcases managedValueEqual_str.mp haccepts with rfl | rfl
    · -- only the first name can be the mask
      obtain ⟨first, served, rfl⟩ := List.exists_cons_of_ne_nil (List.ne_nil_of_mem hname)
      exact h.2 (by simp [hwant])
    · have hnodup := h.1
      rw [hwant, List.nodup_append] at hnodup
      exact hnodup.2.2 _ hname _ List.mem_cons_self rfl
  · exact managedValueEqual_str.mpr (.inr rfl)

theorem exists_unequal (h : ¬ Unambiguous want) : ∃ got : List String, got.Nodup ∧
    (∀ name, name ∈ got ↔ name ∈ want) ∧
    managedValueEqual (jsonStrings want) (jsonStrings got) = false := by
  by_cases hnodup : want.Nodup
  · -- the first name takes the mask, which comes first on the server
    have hmask : keycloakMaskedValue ∈ want.tail := not_not.mp fun hmask => h ⟨hnodup, hmask⟩
    rcases want with _ | ⟨first, rest⟩
    · cases hmask
    obtain ⟨before, after, rfl⟩ := List.append_of_mem hmask
    have hperm : (keycloakMaskedValue :: before ++ first :: after).Perm
        (first :: (before ++ keycloakMaskedValue :: after)) :=
      List.perm_middle.trans (List.perm_middle.symm.cons first)
    refine ⟨keycloakMaskedValue :: before ++ first :: after, hperm.nodup_iff.mpr hnodup,
      fun name => hperm.mem_iff, ?_⟩
    rw [← Bool.not_eq_true, managedValueEqual_jsonStrings]
    rintro ⟨-, hclaim⟩
    have hserved : List.Forall₂ (fun accepts candidate => accepts candidate = true)
        ((first :: before).map fun name => managedValueEqual (.str name))
        ((keycloakMaskedValue :: before).map .str) := by
      refine .cons (managedValueEqual_str.mpr (.inl rfl)) ?_
      rw [List.forall₂_map_left_iff, List.forall₂_map_right_iff, List.forall₂_same]
      exact fun name _ => managedValueEqual_str.mpr (.inr rfl)
    have hnone : ∀ b ∈ (first :: after).map JSON.str,
        managedValueEqual (.str keycloakMaskedValue) b = false := by
      intro b hb
      obtain ⟨name, hname, rfl⟩ := List.mem_map.mp hb
      rw [← Bool.not_eq_true, managedValueEqual_str, or_self]
      rintro rfl
      obtain ⟨hfirst, hrest⟩ := List.nodup_cons.mp hnodup
      rcases List.mem_cons.mp hname with rfl | hafter
      · exact hfirst (by simp)
      · exact (List.nodup_cons.mp (List.nodup_append.mp hrest).2.1).1 hafter
    rw [List.map_append, ← List.cons_append, List.map_append] at hclaim
    exact Bool.false_ne_true ((claimAll_stuck hserved hnone).symm.trans hclaim)
  · refine ⟨want.dedup, want.nodup_dedup, fun name => List.mem_dedup, ?_⟩
    rw [← Bool.not_eq_true, managedValueEqual_jsonStrings]
    rintro ⟨hlength, -⟩
    exact hnodup (List.dedup_eq_self.mp (want.dedup_sublist.eq_of_length hlength.symm))

end Names

/-! ### A server that reports roles -/

namespace Server

variable (server : Server) (realm group : String)

/-- The group has the realm role of this name. -/
def MapsRealmRole (name : String) : Prop :=
  ∃ role, server.realmRole realm name = some role ∧
    role.id ∈ roleIds (server.realmMappings realm group)

/-- The group has the role of this name of the client. -/
def MapsClientRole (clientId name : String) : Prop :=
  ∃ client rep id, server.client realm clientId = some client ∧
    server.clientRoles realm client.id name = some rep ∧ stringField rep "id" = some id ∧
    id ∈ roleIds (server.clientMappings realm group client.id)

end Server

/-- The names of the mapped roles, each once. -/
def NamesRoles (v : JSON) (mapped : String → Prop) : Prop :=
  ∃ names : List String, v = jsonStrings names ∧ names.Nodup ∧ ∀ name, name ∈ names ↔ mapped name

/-- A representation of the stored group with the names of its roles.  A client of which the
    group has no roles may be left out. -/
structure Server.Describes (server : Server) (realm : String) (r : Resource) (rep : Object) :
    Prop where
  realmRoles : ∃ v, rep.get "realmRoles" = some v ∧ NamesRoles v (server.MapsRealmRole realm r.id)
  clientRoles : ∃ m : Object, rep.get "clientRoles" = some (.ofObject m) ∧ ∀ clientId,
    (∃ v, m.get clientId = some v ∧ NamesRoles v (server.MapsClientRole realm r.id clientId)) ∨
      (m.get clientId = none ∧ ∀ name, ¬ server.MapsClientRole realm r.id clientId name)
  others : ∀ k, k ≠ "realmRoles" → k ≠ "clientRoles" → rep.get k = r.report.get k

/-- Every call succeeds, and a group is reported with the names of its roles, whatever was sent
    under these keys. -/
def Reporting : Env operations World := fun op w answer w' =>
  match op, answer with
  | .admin kc ⟨.get, .group realm id, body, .object⟩, answer =>
      match (w.servers kc.server).find ⟨.group, realm⟩ (.id id) with
      | some r => w' = w ∧ ∃ rep, answer = .ok rep ∧ (w.servers kc.server).Describes realm r rep
      | none => Reliable (.admin kc ⟨.get, .group realm id, body, .object⟩) w answer w'
  | op, answer => Reliable op w answer w'

section Reporting

variable {op : Op} {w w' : World} {answer : op.Answer} {kc : Conn}

theorem reporting_reliable (hop : ¬ op.ReadsGroup) (h : Reporting op w answer w') :
    Reliable op w answer w' := by
  unfold Reporting at h
  split at h
  · exact absurd trivial hop
  · exact h

theorem reporting_of_reliable (hop : ¬ op.ReadsGroup) (h : Reliable op w answer w') :
    Reporting op w answer w' := by
  unfold Reporting
  split
  · exact absurd trivial hop
  · exact h

theorem Op.NoGet.not_readsGroup (h : op.NoGet) : ¬ op.ReadsGroup := by
  unfold Op.ReadsGroup
  split
  · exact absurd rfl h
  · exact fun h => h

theorem reporting_cases (h : Reporting op w answer w') : w' = w ∨ Reliable op w answer w' := by
  unfold Reporting at h
  split at h
  · split at h
    · exact .inl h.1
    · exact .inr h
  · exact .inr h

/-- The answer to the read of a group. -/
theorem reporting_group {realm id : String} {body : Body} {found : Except Err Object}
    (h : Reporting (.admin kc ⟨.get, .group realm id, body, .object⟩) w found w') :
    w' = w ∧ ((w.servers kc.server).find ⟨.group, realm⟩ (.id id) = none ∨
      ∃ r rep, (w.servers kc.server).find ⟨.group, realm⟩ (.id id) = some r ∧ found = .ok rep ∧
        (w.servers kc.server).Describes realm r rep) := by
  simp only [Reporting] at h
  split at h
  case h_1 r hfound =>
    obtain ⟨rfl, rep, rfl, hrep⟩ := h
    exact ⟨rfl, .inr ⟨r, rep, hfound, rfl, hrep⟩⟩
  case h_2 hnone =>
    exact ⟨(reliable_get rfl h).1, .inl hnone⟩

/-- `Get` finds the group with the names of its roles. -/
theorem wp_get_reporting {s : GroupSpec} {guard : Op → World → Prop}
    {post : Except Err Object → World → Prop} (hguard : ∀ op, op.Reads → guard op w)
    (hnone : (∀ r, w.target kc (.group s) = some r → r.id = "") →
      ∀ err, err.kind = .notFound → post (.error err) w)
    (hsome : ∀ r rep, w.target kc (.group s) = some r → r.id ≠ "" →
      (w.servers kc.server).Describes s.realm r rep → post (.ok rep) w) :
    wp Reporting guard ((Spec.group s).driver.get kc).run post w := by
  refine wp_findGroup (hguard _ rfl) (fun answer w' hstep => ?_) hnone ?_
  · obtain ⟨rfl, rfl⟩ := reliable_get rfl (reporting_reliable (by exact fun h => h) hstep)
    exact ⟨rfl, .inr rfl⟩
  · intro r hr hid
    refine ⟨hguard _ rfl, fun answer w' hstep => ?_⟩
    have hbyId : (w.servers kc.server).find ⟨.group, s.realm⟩ (.id r.id) = some r :=
      Collection.find_eq_some_iff.mpr ⟨(Collection.find_eq_some_iff.mp hr).1, decide_eq_true rfl⟩
    obtain ⟨rfl, hnone | ⟨r', rep, hr', rfl, hrep⟩⟩ := reporting_group hstep
    · cases hbyId.symm.trans hnone
    · cases hbyId.symm.trans hr'
      exact hsome r rep hr hid hrep

/-- Everything but the roles is shown as it is stored. -/
theorem displaying_reporting (s : GroupSpec) :
    Displaying Reporting (.group s) fun _ r remote =>
      ∀ k, k ≠ "realmRoles" → k ≠ "clientRoles" → remote.get k = r.report.get k where
  id := by
    intro w r remote h
    rw [h "id" (by decide) (by decide), r.get_report_id]
  faulty hop h := .inl (reporting_reliable hop.not_readsGroup h)
  get kc w := by
    refine wp_get_reporting (fun _ _ => trivial) ?_ ?_
    · exact fun _ err _ => ⟨rfl, fun _ h => by cases h⟩
    · intro r rep hr _ hrep
      refine ⟨rfl, fun remote hremote => ?_⟩
      cases hremote
      exact ⟨r, hr, hrep.others⟩

end Reporting

/-! ### After a successful pass -/

/-- The body that a pass over a recorded spec compares with the server. -/
def GroupSpec.body (s : GroupSpec) : Object :=
  builtPayload .group .nothing (Spec.group s).representation

/-- The group is on the server as its spec asks for. -/
structure Converged (kc : Conn) (s : GroupSpec) (t : World) (r : Resource) : Prop where
  target : t.target kc (.group s) = some r
  id : r.id ≠ ""
  settled : GroupSettled s r.id (t.servers kc.server)
  agrees : ∀ k want, s.body.get k = some want → k ≠ "realmRoles" → k ≠ "clientRoles" →
    EntryAgrees want (r.report.get k)

section FirstPass

variable {e : Engine} {obj : ManagedObject} {s : GroupSpec} {kc : Conn} {w u v : World}

/-- `PostApply` reads no group. -/
theorem only_groupPostApply_reporting (remote : Object) :
    Only (fun op : Op => ¬ op.ReadsGroup) (s.postApply kc remote).run := by
  apply compositional_only.has_groupPostApply
  · exact fun op h => h.2
  · exact fun _ method body h => by rcases method <;> exact h
  · exact fun _ method client body h => by rcases method <;> exact h

theorem settled_of_postApply {remote : Object} {mem : ManagedObject} {changed : Bool}
    (hclients : ∀ client ∈ ((v.servers kc.server).resources ⟨.client, s.realm⟩).items,
      (client.key "clientId").isSome)
    (h : Returns Reporting (keepObject obj (s.postApply kc remote)) u (mem, .ok changed) v) :
    remoteId remote ≠ "" ∧ GroupSettled s (remoteId remote) (v.servers kc.server) := by
  obtain ⟨steps, hexec⟩ := h
  have honly := @only_groupPostApply_reporting s kc remote
  have hexec := hexec.transfer (only_bind honly fun _ => trivial)
    fun op t answer t' hop hstep => reporting_reliable hop hstep
  have hresources : (u.servers kc.server).resources = (v.servers kc.server).resources := by
    have hquiet : Only Op.Quiet (keepObject obj (s.postApply kc remote)) := by
      refine only_bind (compositional_only.has_groupPostApply ?_ ?_ ?_) fun _ => trivial
      · exact fun op h => (silent_reads op h.1).quiet
      · exact fun _ method body => .inr ⟨rfl, rfl⟩
      · exact fun _ method client body => .inr ⟨rfl, rfl⟩
    exact (hexec.kept (fun t => (t.servers kc.server).resources) fun step hstep =>
      reliable_resources (hexec.only hquiet step hstep) (hexec.env_of_mem step hstep) _).symm
  have hwp : wp Reliable ⊤ (keepObject obj (s.postApply kc remote))
      (fun result t => ∀ changed, result.2 = .ok changed →
        remoteId remote ≠ "" ∧ GroupSettled s (remoteId remote) (t.servers kc.server)) u := by
    refine wp_bind.mpr (wp_groupPostApply serving_reliable (fun _ _ => trivial) ?_ ?_ ?_)
    · exact fun err t changed hok => by cases hok
    · rw [hresources]
      exact hclients
    · intro changed server' hid happlied _ _
      rw [World.servers_setServer]
      exact ⟨hid, happlied.settled⟩
  exact (wp_sound hwp hexec).2 _ rfl changed rfl

/-- **A successful pass** leaves the group as its spec asks for, and records the spec. -/
theorem Engine.exec_converged {t : World} {steps : Log} {pass : Pass}
    (hobject : w.object = some obj) (hspec : obj.spec = .group s)
    (hconnection : w.connections obj.ns obj.spec.connectionName = .ok kc)
    (hclients : ∀ client ∈ ((t.servers kc.server).resources ⟨.client, s.realm⟩).items,
      (client.key "clientId").isSome)
    (hexec : Exec Reporting e.controllerReconcile.run w steps t (some (.ok (some pass))))
    (hfinalized : pass.finalized = true) :
    t.Records obj ∧ t.connections = w.connections ∧ ∃ r, Converged kc s t r := by
  have hkeeps : ∀ {op : Op} {t t' : World} {answer : op.Answer}, ¬ op.WritesObject →
      Reporting op t answer t' → t'.object = t.object := by
    intro op t t' answer hop hstep
    rcases reporting_cases hstep with rfl | hstep
    · rfl
    · exact reliable_object hop hstep
  have hreliable : ∀ {op : Op} {t t' : World} {answer : op.Answer}, op.Bookkeeping →
      Reporting op t answer t' → Reliable op t answer t' :=
    fun hop hstep => reporting_reliable hop.noGet.not_readsGroup hstep
  refine ⟨?_, ?_, ?_⟩
  · exact Engine.exec_successfully hobject (fun h => reporting_reliable (by exact fun h => h) h)
      (wp_reconcile_records hreliable hkeeps hobject) hexec hfinalized
  · refine hexec.kept World.connections fun step hstep => ?_
    rcases reporting_cases (hexec.env_of_mem step hstep) with heq | hstep
    · rw [heq]
    · exact reliable_connections hstep
  · have hdisplay : ∀ obj', w.object = some obj' → Displaying Reporting obj'.spec
        fun _ r remote => ∀ k, k ≠ "realmRoles" → k ≠ "clientRoles" →
          remote.get k = r.report.get k := by
      intro obj' hobject'
      cases hobject.symm.trans hobject'
      rw [hspec]
      exact displaying_reporting s
    obtain ⟨obj', kc', remote, u, v, hobject', hconnection', hremote, hcompletes⟩ :=
      Engine.exec_displayed hdisplay (fun h => .inl (reporting_reliable (by exact fun h => h) h))
        hexec hfinalized
    cases hobject.symm.trans hobject'
    cases hconnection.symm.trans hconnection'
    have htarget' := hcompletes.target_eq fun {op w w' answer} hquiet hstep => by
      rcases reporting_cases hstep with rfl | hstep
      · rfl
      · exact reliable_quiet hquiet hstep kc obj.spec
    obtain ⟨⟨-, payload, r, ⟨effective, inj, heffective, hsources, rfl⟩, htarget, happlied⟩,
      ⟨remote', mem, changed, hremote', hreturns⟩, hservers, -⟩ := hcompletes
    have hid : remoteId remote' = r.id := by
      simp [remoteId, stringField, hremote' r htarget]
    rw [hspec] at hreturns
    obtain ⟨hne, hsettled⟩ := settled_of_postApply (by rw [← hservers]; exact hclients) hreturns
    have hinj : inj = .nothing := by
      have hfor := hsources.for
      rw [hspec] at hfor
      obtain ⟨_, -, rfl⟩ := hfor
      rfl
    refine ⟨r, ?_, ?_, ?_, ?_⟩
    · rw [← hspec, htarget', htarget]
    · rw [← hid]
      exact hne
    · rw [hservers, ← hid]
      exact hsettled
    · intro k want hwant hrealm hclient
      have hwant : (builtPayload obj.spec.kind inj obj.spec.representation).get k = some want := by
        rw [hspec, hinj]
        exact hwant
      exact happlied.agrees (get_builtPayload_recorded heffective hwant) (builtPayload_proper hwant)
        fun r hr => hremote r hr k hrealm hclient

end FirstPass

/-! ### The comparison in the next pass -/

/-- Every client has a client ID, and the roles of a client are told apart by their ids. -/
structure Server.RolesDistinct (server : Server) (realm : String) : Prop where
  clients : ∀ client ∈ (server.resources ⟨.client, realm⟩).items, (client.key "clientId").isSome
  identified : ∀ client name rep, server.clientRoles realm client name = some rep →
    (stringField rep "id").isSome
  distinct : ∀ client name name' rep rep', server.clientRoles realm client name = some rep →
    server.clientRoles realm client name' = some rep' →
    stringField rep "id" = stringField rep' "id" → name = name'

section Compare

variable {server : Server} {s : GroupSpec} {id : String} {realmRoles : List String}
  {clientRoles : FiniteMap String (List String)}

theorem realmRole_eq_some_iff {realm name : String} {role : Resource} :
    server.realmRole realm name = some role ↔
      role ∈ (server.resources ⟨.realmRole, realm⟩).items ∧ role.key "name" = some name :=
  Collection.find_eq_some_iff.trans (and_congr_right fun _ => decide_eq_true_iff)

/-- The realm roles of a settled group are those of its spec. -/
theorem GroupSettled.mapsRealmRole_iff (h : GroupSettled s id server)
    (hrealm : s.realmRoles = some realmRoles) (name : String) :
    server.MapsRealmRole s.realm id name ↔ name ∈ realmRoles := by
  obtain ⟨reps, hreps, hids⟩ := h.realmRoles realmRoles hrealm
  obtain ⟨hnamed, honly⟩ := Server.of_lookupAll hreps
  unfold Server.MapsRealmRole
  rw [hids]
  constructor
  · rintro ⟨role, hrole, hmem⟩
    obtain ⟨rep, hrep, hid⟩ := mem_roleIds.mp hmem
    obtain ⟨name', hname', hreport⟩ := honly rep hrep
    obtain ⟨role', hrole', rfl⟩ := Option.map_eq_some_iff.mp hreport
    have hid : role'.id = role.id := by simpa [stringField] using hid
    obtain ⟨hmem, hkey⟩ := realmRole_eq_some_iff.mp hrole
    obtain ⟨hmem', hkey'⟩ := realmRole_eq_some_iff.mp hrole'
    have hsame : role' = role :=
      List.inj_on_of_nodup_map (server.resources ⟨.realmRole, s.realm⟩).nodup_ids hmem' hmem hid
    rw [hsame, hkey] at hkey'
    exact Option.some.inj hkey' ▸ hname'
  · intro hname
    obtain ⟨rep, hrep, hreport⟩ := hnamed name hname
    obtain ⟨role, hrole, rfl⟩ := Option.map_eq_some_iff.mp hreport
    exact ⟨role, hrole, mem_roleIds.mpr ⟨_, hrep, by simp [stringField]⟩⟩

/-- So are its client roles. -/
theorem GroupSettled.mapsClientRole_iff (h : GroupSettled s id server)
    (hdistinct : server.RolesDistinct s.realm) (hclient : s.clientRoles = some clientRoles)
    (clientId name : String) :
    server.MapsClientRole s.realm id clientId name ↔
      ∃ names, clientRoles.get clientId = some names ∧ name ∈ names := by
  by_cases hlisted : clientId ∈ clientRoles.keys
  case neg =>
    have hnone := FiniteMap.get_eq_none_iff.mpr hlisted
    constructor
    · rintro ⟨client, rep, roleId, hfound, -, -, hmem⟩
      rw [h.unlisted clientRoles hclient clientId hlisted client hfound] at hmem
      cases hmem
    · rintro ⟨names, hnames, -⟩
      cases hnone.symm.trans hnames
  case pos =>
    obtain ⟨names, hnames⟩ := FiniteMap.mem_keys_iff.mp hlisted
    obtain ⟨client, reps, hfound, hreps, hids⟩ := h.listed clientRoles hclient clientId hlisted
    rw [hnames] at hreps
    obtain ⟨hnamed, honly⟩ := Server.of_lookupAll hreps
    constructor
    · rintro ⟨client', rep, roleId, hfound', hrole, hid, hmem⟩
      cases hfound.symm.trans hfound'
      rw [hids] at hmem
      obtain ⟨rep', hrep', hid'⟩ := mem_roleIds.mp hmem
      obtain ⟨name', hname', hrole'⟩ := honly rep' hrep'
      obtain rfl := hdistinct.distinct client.id name name' rep rep' hrole hrole' (hid.trans hid'.symm)
      exact ⟨names, hnames, hname'⟩
    · rintro ⟨names', hnames', hname⟩
      cases hnames.symm.trans hnames'
      obtain ⟨rep, hrep, hrole⟩ := hnamed name hname
      obtain ⟨roleId, hid⟩ := Option.isSome_iff_exists.mp (hdistinct.identified client.id name rep hrole)
      refine ⟨client, rep, roleId, hfound, hrole, hid, ?_⟩
      rw [hids]
      exact mem_roleIds.mpr ⟨rep, hrep, hid⟩

theorem entryAgrees_jsonStrings {want got : List String} :
    EntryAgrees (jsonStrings want) (some (jsonStrings got)) ↔
      managedValueEqual (jsonStrings want) (jsonStrings got) = true := by
  have hnull : jsonStrings want ≠ .null := fun h => by cases h
  exact entryAgrees_present hnull rfl

theorem entryAgrees_jsonStringListMap {m : FiniteMap String (List String)} {got : Object} :
    EntryAgrees (jsonStringListMap m) (some (.ofObject got)) ↔
      ∀ k names, m.get k = some names → EntryAgrees (jsonStrings names) (got.get k) := by
  have hnull : jsonStringListMap m ≠ .null := fun h => by cases h
  have hpresent : presentValue (some (.ofObject got)) = some (.ofObject got) := rfl
  rw [entryAgrees_present hnull hpresent, jsonStringListMap, managedValueEqual_ofObject,
    Bool.not_eq_true', payloadDiffers_eq_false_iff]
  have hget : ∀ k, (FiniteMap.ofFun m.keys fun k => (m.get k).map jsonStrings).get k =
      (m.get k).map jsonStrings := by
    intro k
    refine FiniteMap.get_ofFun_of_support (fun x hx => ?_) k
    rw [FiniteMap.get_eq_none_iff.mpr hx]
    rfl
  simp only [hget, Option.map_eq_some_iff]
  constructor
  · exact fun h k names hnames => h k _ ⟨names, hnames, rfl⟩
  · rintro h k _ ⟨names, hnames, rfl⟩
    exact h k names hnames

end Compare

/-- No list of roles of the spec is ambiguous. -/
def GroupSpec.NamesOnce (s : GroupSpec) : Prop :=
  (∀ names, s.realmRoles = some names → Unambiguous names) ∧
    ∀ clientRoles, s.clientRoles = some clientRoles →
      ∀ clientId names, clientRoles.get clientId = some names → Unambiguous names

section Body

variable {s : GroupSpec} {kc : Conn} {t : World} {r : Resource} {rep : Object}
  {realmRoles : List String} {clientRoles : FiniteMap String (List String)}

theorem GroupSpec.get_body {k : String} (hk : k ≠ "attributes") :
    s.body.get k = (Spec.group s).representation.get k :=
  get_applyAll_of_notMem (by simp [rewrites, Kind.marker, Injection.rewrite, hk]) _

theorem GroupSpec.get_body_realmRoles (h : s.realmRoles = some realmRoles) :
    s.body.get "realmRoles" = some (jsonStrings realmRoles) := by
  rw [GroupSpec.get_body (by decide), get_representation]
  simp [Spec.driver, GroupSpec.driver, Spec.toJSONMap, Spec.headerEntries, get_putSome,
    FiniteMap.get_put, h]

theorem GroupSpec.get_body_clientRoles (h : s.clientRoles = some clientRoles) :
    s.body.get "clientRoles" = some (jsonStringListMap clientRoles) := by
  rw [GroupSpec.get_body (by decide), get_representation]
  simp [Spec.driver, GroupSpec.driver, Spec.toJSONMap, Spec.headerEntries, get_putSome,
    FiniteMap.get_put, h]

/-- A report of the roles agrees with a spec that names them once. -/
theorem Converged.agrees_described (h : Converged kc s t r)
    (hdistinct : (t.servers kc.server).RolesDistinct s.realm)
    (hrealm : s.realmRoles = some realmRoles) (hclient : s.clientRoles = some clientRoles)
    (honce : s.NamesOnce)
    (hrep : (t.servers kc.server).Describes s.realm r rep) : payloadDiffers rep s.body = false := by
  rw [payloadDiffers_eq_false_iff]
  intro k want hwant
  by_cases hk : k = "realmRoles"
  · subst hk
    cases (GroupSpec.get_body_realmRoles hrealm).symm.trans hwant
    obtain ⟨_, hget, names, rfl, hnodup, hmem⟩ := hrep.realmRoles
    rw [hget, entryAgrees_jsonStrings]
    exact (honce.1 realmRoles hrealm).equal hnodup fun name =>
      (hmem name).trans (h.settled.mapsRealmRole_iff hrealm name)
  by_cases hk' : k = "clientRoles"
  · subst hk'
    cases (GroupSpec.get_body_clientRoles hclient).symm.trans hwant
    obtain ⟨m, hget, hm⟩ := hrep.clientRoles
    rw [hget, entryAgrees_jsonStringListMap]
    intro clientId names hnames
    have hmaps : ∀ name, (t.servers kc.server).MapsClientRole s.realm r.id clientId name ↔
        name ∈ names := by
      intro name
      rw [h.settled.mapsClientRole_iff hdistinct hclient, hnames]
      simp
    rcases hm clientId with ⟨_, hget, got, rfl, hnodup, hmem⟩ | ⟨hget, hnone⟩
    · rw [hget, entryAgrees_jsonStrings]
      exact (honce.2 clientRoles hclient clientId names hnames).equal hnodup fun name =>
        (hmem name).trans (hmaps name)
    · -- a client that is left out has no roles
      have hempty : names = [] :=
        List.eq_nil_iff_forall_not_mem.mpr fun name hname => hnone name ((hmaps name).mpr hname)
      rw [hget, hempty]
      have hzero : isZeroValue (jsonStrings []) = true := rfl
      exact (entryAgrees_absent (isZeroValue_ne_null hzero) rfl).mpr hzero
  · rw [hrep.others k hk hk']
    exact h.agrees k want hwant hk hk'

/-- Some report of the roles agrees with the spec only if it names them once. -/
theorem Converged.exists_described (h : Converged kc s t r)
    (hdistinct : (t.servers kc.server).RolesDistinct s.realm)
    (hrealm : s.realmRoles = some realmRoles) (hclient : s.clientRoles = some clientRoles) :
    ∃ rep, (t.servers kc.server).Describes s.realm r rep ∧
      (payloadDiffers rep s.body = false → s.NamesOnce) := by
  -- for each list, an order that shows its ambiguity
  have horder : ∀ names : List String, ∃ got : List String, got.Nodup ∧
      (∀ name, name ∈ got ↔ name ∈ names) ∧
      (managedValueEqual (jsonStrings names) (jsonStrings got) = true → Unambiguous names) := by
    intro names
    by_cases hnames : Unambiguous names
    · exact ⟨names, hnames.1, fun _ => Iff.rfl, fun _ => hnames⟩
    · obtain ⟨got, hnodup, hsame, hunequal⟩ := exists_unequal hnames
      exact ⟨got, hnodup, hsame, fun hequal => by rw [hunequal] at hequal; cases hequal⟩
  choose order hnodup hsame hequal using horder
  let m : Object := .ofFun clientRoles.keys fun k => (clientRoles.get k).map (jsonStrings ∘ order)
  have hm : ∀ clientId, m.get clientId = (clientRoles.get clientId).map (jsonStrings ∘ order) := by
    intro clientId
    refine FiniteMap.get_ofFun_of_support (fun x hx => ?_) clientId
    rw [FiniteMap.get_eq_none_iff.mpr hx]
    rfl
  let rep : Object :=
    (r.report.put "realmRoles" (jsonStrings (order realmRoles))).put "clientRoles" (.ofObject m)
  have hrealmRoles : rep.get "realmRoles" = some (jsonStrings (order realmRoles)) := by
    simp [rep, FiniteMap.get_put]
  have hclientRoles : rep.get "clientRoles" = some (.ofObject m) := by
    simp [rep]
  refine ⟨rep, ⟨⟨_, hrealmRoles, _, rfl, hnodup _, ?_⟩, ⟨m, hclientRoles, fun clientId => ?_⟩,
    fun k hk hk' => ?_⟩, fun hagrees => ?_⟩
  · exact fun name => (hsame _ name).trans (h.settled.mapsRealmRole_iff hrealm name).symm
  · have hmaps := h.settled.mapsClientRole_iff hdistinct hclient clientId
    rw [hm]
    rcases hnames : clientRoles.get clientId with _ | names <;> simp only [hnames] at hmaps
    · refine .inr ⟨rfl, fun name hname => ?_⟩
      obtain ⟨_, hnone, -⟩ := (hmaps name).mp hname
      cases hnone
    · refine .inl ⟨_, rfl, _, rfl, hnodup _, fun name => ?_⟩
      rw [hsame, hmaps]
      simp
  · rw [FiniteMap.get_put_of_ne _ _ hk', FiniteMap.get_put_of_ne _ _ hk]
  · rw [payloadDiffers_eq_false_iff] at hagrees
    constructor
    · intro names hnames
      have hentry := hagrees _ _ (GroupSpec.get_body_realmRoles hnames)
      cases hrealm.symm.trans hnames
      rw [hrealmRoles, entryAgrees_jsonStrings] at hentry
      exact hequal _ hentry
    · intro roles hroles clientId names hnames
      have hentry := hagrees _ _ (GroupSpec.get_body_clientRoles hroles)
      cases hclient.symm.trans hroles
      rw [hclientRoles, entryAgrees_jsonStringListMap] at hentry
      have hentry := hentry clientId names hnames
      rw [hm, hnames] at hentry
      exact hequal _ (entryAgrees_jsonStrings.mp hentry)

end Body

/-! ### The next pass -/

section SecondPass

variable {e : Engine} {obj : ManagedObject} {s : GroupSpec} {kc : Conn} {t : World} {r : Resource}

theorem Op.Reads.not_updates {op : Op} (h : op.Reads) : ¬ op.Updates := by
  rcases op with _ | _ | _ | ⟨kc, request⟩ | _ | _ | _ | _ | _ | _ | _ | _ | _ | _
  case admin => exact fun hput => by cases h.symm.trans hput.1
  all_goals exact fun hput => hput

theorem Op.Bookkeeping.not_updates {op : Op} (h : op.Bookkeeping) : ¬ op.Updates := by
  rcases op <;> first | exact fun hput => hput | exact h.elim

theorem Op.WritesSecret.not_updates {op : Op} (h : op.WritesSecret) : ¬ op.Updates := by
  rcases op <;> first | exact fun hput => hput | exact h.elim

theorem Enforces.not_updates {s : Spec} {id : String} {op : Op} (h : Enforces s kc id op) :
    ¬ op.Updates := by
  obtain ⟨method, endpoint, body, rfl, howns⟩ := h
  intro hput
  have hitem := hput.2
  rw [(Spec.quiet_of_owns howns).1] at hitem
  cases hitem

theorem GroupSpec.managedMarker_representation (hspec : obj.spec = .group s) :
    obj.spec.driver.preparePayload obj (obj.spec.driver.managedMarker obj.spec.representation) =
      pure s.body := by
  rw [hspec]
  rfl

/-- A pass that finds the group in agreement with its spec sends no update. -/
theorem not_performs_update (hengages : t.Engages kc obj) (hspec : obj.spec = .group s)
    (hrecorded : obj.lastApplied = .marshalled obj.spec.representation)
    (hconverged : Converged kc s t r)
    (hagrees : obj.spec.adoption = .failIfExists ∨ ∀ rep,
      (t.servers kc.server).Describes s.realm r rep → payloadDiffers rep s.body = false) :
    ¬ Performs Reporting Op.Updates e.controllerReconcile.run t := by
  have hreports : ∀ op : Op, op.Remarks → ¬ op.Updates := fun op h => h.bookkeeping.not_updates
  have hquiet : ∀ {α : Type} {p : Action α} {u : World}, Only (fun op : Op => ¬ op.Updates) p →
      wp Reporting (fun op _ => ¬ op.Updates) p (fun _ _ => True) u := fun honly =>
    wp_guard_mono (fun _ _ h => h.1)
      (wp_of_only (fun _ => True) (fun _ _ _ _ _ _ _ => trivial) honly trivial)
  have hstops : ∀ {p : Action Pass} {u : World}, e.Stops obj p →
      wp Reporting (fun op _ => ¬ op.Updates) p (fun _ _ => True) u := fun h => hquiet (h.only hreports)
  have hmanaged : ∀ rep, Engine.managed obj.spec.driver obj rep = true := by
    simp [Engine.managed, hrecorded]
  have hstations : Stations e Reporting (fun op _ => ¬ op.Updates) kc obj (fun u => u = t)
      (fun _ => False) (fun rep u => u = t ∧ (t.servers kc.server).Describes s.realm r rep)
      (fun _ _ _ => True) (fun _ _ => True) := by
    constructor
    case declined => exact fun _ _ => hstops (.refused _ _ _ _)
    case looked =>
      rintro u - rfl
      have hget : obj.spec.driver.get kc = (Spec.group s).driver.get kc := by rw [hspec]
      rw [hget]
      apply wp_get_reporting
      · exact fun op h => h.not_updates
      · exact fun hmissing => absurd (hmissing r hconverged.target) hconverged.id
      · intro r' rep hr' _ hrep
        cases hconverged.target.symm.trans hr'
        exact ⟨rfl, hrep⟩
    case rejected => exact fun _ _ _ => hstops (.refused _ _ _ _)
    case adopted =>
      rintro rep u ⟨rfl, hrep⟩
      exact wp_mono (fun _ v hv => ⟨hv, hrep⟩) (wp_record_event
        (fun h => faulty_of_reliable _ _ _ _ (reporting_reliable (by exact fun h => h) h)) fun h => h)
    case enforced =>
      rintro effective rep adopting u - heffective hadmits hadopting ⟨rfl, hrep⟩
      obtain rfl : obj.spec.representation = effective := by
        rw [hrecorded, effectivePayload_recorded] at heffective
        exact Except.ok.inj heffective
      obtain rfl : adopting = false := by simpa [hmanaged] using hadopting
      rw [GroupSpec.managedMarker_representation hspec]
      refine ⟨fun _ => trivial, fun hdiffers => ?_⟩
      rw [Bool.false_or, hagrees.resolve_left hadmits.1 rep hrep] at hdiffers
      cases hdiffers
    case created => exact fun _ _ habsent => habsent.elim
    case settled =>
      intro rep next u hnext _
      exact hquiet (e.only_settle hreports _ (only_postApply (fun _ h => h.not_updates)
        (fun _ h => h.not_updates) (fun _ h => h.not_updates) obj) fun _ changed =>
        hnext.only hreports _ (fun _ _ h => h) changed)
  have hreconcile : wp Reporting (fun op _ => ¬ op.Updates) (e.reconcile obj) (fun _ _ => True) t := by
    refine Engine.wp_reconcile_of (fun _ _ => True) (fun _ _ _ => ⟨fun h => h, fun _ _ _ => trivial⟩)
      (fun horphan => by simp [hengages.live] at horphan) fun _ =>
        ⟨fun h => h, fun answer u hstep => ?_⟩
    obtain ⟨_, _, heq⟩ := reporting_reliable (by exact fun h => h) hstep
    obtain ⟨rfl, rfl⟩ := Prod.mk.inj heq
    rw [hengages.connection]
    exact ⟨fun hdeleted => by simp [hengages.live] at hdeleted, fun _ hmissing =>
      absurd hengages.finalizer hmissing, fun _ _ => hstations.wp_apply rfl⟩
  have hpass : wp Reporting (fun op _ => ¬ op.Updates) e.controllerReconcile.run
      (fun _ _ => True) t :=
    wp_pass (fun _ _ hstep => .inl (reporting_reliable (by exact fun h => h) hstep))
      hengages.object (fun h => h) (fun _ _ => trivial) hreconcile
  exact not_performs_of_wp (fun _ _ h => h) hpass

/-- A pass that finds a difference sends an update. -/
theorem performs_update (hengages : t.Engages kc obj) (hspec : obj.spec = .group s)
    (hrecorded : obj.lastApplied = .marshalled obj.spec.representation)
    (hconverged : Converged kc s t r) (hpolicy : obj.spec.adoption ≠ .failIfExists) {rep : Object}
    (hrep : (t.servers kc.server).Describes s.realm r rep) (hdiffers : payloadDiffers rep s.body = true) :
    Performs Reporting Op.Updates e.controllerReconcile.run t := by
  have hperform : ∀ (op : Op) (answer : op.Answer) (u : World), ¬ op.ReadsGroup →
      World.handle World.sorted 0 op t = (answer, u) → Reporting op t answer u :=
    fun op answer u hop heq => reporting_of_reliable hop ⟨World.sorted, 0, heq⟩
  have hread : Returns Reporting (perform .getObject) t (.ok obj) t := by
    refine returns_perform _ _ (hperform .getObject _ t (fun h => h) ?_)
    simp only [World.handle, hengages.object]
  have hconnect : Returns Reporting (perform (.connect obj.ns obj.spec.connectionName)) t (.ok kc) t :=
    returns_perform _ _ (hperform (.connect _ _) _ t (fun h => h)
      (congrArg (·, t) hengages.connection))
  have hget : Returns Reporting (obj.spec.driver.get kc).run t (.ok rep) t := by
    rw [hspec]
    refine returns_findGroup hconverged.target hconverged.id ?_ ?_
    · refine hperform (.admin _ _) _ t (fun h => h) ?_
      simp [World.handle, World.admin, Server.serve]
    · have hfound : (t.servers kc.server).find ⟨.group, s.realm⟩ (.id r.id) = some r :=
        Server.find_id_eq_some_iff.mpr ⟨(Collection.find_eq_some_iff.mp hconverged.target).1, rfl⟩
      simp only [Reporting, hfound]
      exact ⟨trivial, rep, rfl, hrep⟩
  have hupdate : Performs Reporting Op.Updates
      (e.correctDrift obj.spec.driver kc obj rep s.body).run t := by
    unfold Engine.correctDrift
    rw [driver_update]
    refine (returns_run_lift (returns_perform _ ()
      (hperform (.driftCorrected obj.spec.kind) _ t (fun h => h) rfl))).performs_run ?_
    apply performs_run_bind
    refine performs_call (hperform (.admin _ _) _ _ (fun h => h) rfl) ⟨rfl, ?_⟩
    rw [hspec]
    rfl
  refine hread.performs (performs_bind ?_ _)
  have heffective : effectivePayload obj.spec.representation obj.lastApplied =
      .ok obj.spec.representation := by
    rw [hrecorded]
    exact effectivePayload_recorded _
  refine Engine.performs_correctDrift hengages.live hengages.finalizer hengages.admitted heffective
    hpolicy (by simp [Engine.managed, hrecorded]) hconnect hget (v := t) ?_ hdiffers hupdate
  rw [GroupSpec.managedMarker_representation hspec]
  exact returns_pure _ t

/-- What the next pass finds after a successful one. -/
theorem Engine.exec_recorded {w : World} {steps : Log} {pass : Pass}
    (hobject : w.object = some obj) (hspec : obj.spec = .group s)
    (hconnection : w.connections obj.ns obj.spec.connectionName = .ok kc)
    (hdistinct : (t.servers kc.server).RolesDistinct s.realm)
    (hexec : Exec Reporting e.controllerReconcile.run w steps t (some (.ok (some pass))))
    (hfinalized : pass.finalized = true) :
    ∃ stored r, t.Engages kc stored ∧ stored.spec = obj.spec ∧
      stored.lastApplied = .marshalled stored.spec.representation ∧ Converged kc s t r := by
  obtain ⟨⟨status, hstored⟩, hconnections, r, hconverged⟩ :=
    Engine.exec_converged hobject hspec hconnection hdistinct.clients hexec hfinalized
  obtain ⟨hlive, hfinalizer, -⟩ := Engine.exec_successfully hobject
    (fun h => reporting_reliable (by exact fun h => h) h) wp_reconcile_admitted hexec hfinalized
  refine ⟨_, r, ⟨hstored, hlive, hfinalizer, ?_, ?_⟩, rfl, rfl, hconverged⟩
  · rw [hconnections]
    exact hconnection
  · rw [hspec]
    rfl

/-- **Groups converge** when the server reports their roles, exactly if the spec names no role
    twice; the mask, which compares equal to every name, has to be the first name. -/
theorem group_converges_iff (e : Engine) {w t : World} {obj : ManagedObject} {s : GroupSpec} {kc : Conn}
    {steps : List (Step operations World)} {pass : Pass} {realmRoles : List String}
    {clientRoles : FiniteMap String (List String)} (hobject : w.object = some obj)
    (hspec : obj.spec = .group s)
    (hconnection : w.connections obj.ns obj.spec.connectionName = .ok kc)
    (hrealm : s.realmRoles = some realmRoles) (hclient : s.clientRoles = some clientRoles)
    (hdistinct : (t.servers kc.server).RolesDistinct s.realm)
    (hexec : Exec Reporting e.controllerReconcile.run w steps t (some (.ok (some pass))))
    (hfinalized : pass.finalized = true) :
    ¬ Performs Reporting Op.Updates e.controllerReconcile.run t ↔
      obj.spec.adoption = .failIfExists ∨ s.NamesOnce := by
  obtain ⟨stored, r, hengages, hsame, hrecorded, hconverged⟩ :=
    Engine.exec_recorded hobject hspec hconnection hdistinct hexec hfinalized
  rw [← hsame] at hspec ⊢
  constructor
  · intro hquiet
    by_contra! ⟨hpolicy, honce⟩
    obtain ⟨rep, hrep, hagrees⟩ := hconverged.exists_described hdistinct hrealm hclient
    refine hquiet (performs_update hengages hspec hrecorded hconverged hpolicy hrep ?_)
    exact (Bool.eq_false_or_eq_true _).resolve_right fun hfalse => honce (hagrees hfalse)
  · intro h
    refine not_performs_update hengages hspec hrecorded hconverged (h.imp_right ?_)
    exact fun honce rep hrep => hconverged.agrees_described hdistinct hrealm hclient honce hrep

end SecondPass

/-! ### Examples -/

section Examples

/-- The report of a group without roles. -/
def Resource.bare (r : Resource) : Object :=
  (r.report.put "realmRoles" (jsonStrings [])).put "clientRoles" (.ofObject ∅)

/-- Neither realm roles nor client roles are mapped to the group. -/
def Server.Unmapped (server : Server) (realm group : String) : Prop :=
  server.realmMappings realm group = [] ∧
    ∀ client ∈ (server.resources ⟨.client, realm⟩).items,
      server.clientMappings realm group client.id = []

instance (server : Server) (realm group : String) : Decidable (server.Unmapped realm group) :=
  inferInstanceAs (Decidable (_ ∧ _))

theorem Server.Unmapped.describes {server : Server} {realm : String} {r : Resource}
    (h : server.Unmapped realm r.id) : server.Describes realm r r.bare where
  realmRoles := by
    refine ⟨jsonStrings [], by simp [Resource.bare, FiniteMap.get_put], [], rfl, List.nodup_nil, ?_⟩
    intro name
    unfold Server.MapsRealmRole
    rw [h.1]
    simp [roleIds]
  clientRoles := by
    refine ⟨∅, by simp [Resource.bare], fun clientId => .inr ⟨rfl, ?_⟩⟩
    rintro name ⟨client, rep, id, hclient, -, -, hmem⟩
    rw [h.2 client (Collection.find_eq_some_iff.mp hclient).1] at hmem
    cases hmem
  others := by
    intro k hk hk'
    rw [Resource.bare, FiniteMap.get_put_of_ne _ _ hk', FiniteMap.get_put_of_ne _ _ hk]

/-- Groups are reported without roles. -/
def World.handleBare : Handler operations World := fun op w =>
  match op with
  | .admin kc ⟨.get, .group realm id, body, .object⟩ =>
      match (w.servers kc.server).find ⟨.group, realm⟩ (.id id) with
      | some r => (.ok r.bare, w)
      | none => World.handle World.sorted 0 (.admin kc ⟨.get, .group realm id, body, .object⟩) w
  | op => World.handle World.sorted 0 op w

/-- A group that is read has no roles. -/
def Op.readsUnmapped : Op → World → Bool
  | .admin kc ⟨.get, .group realm id, _, _⟩, w => decide ((w.servers kc.server).Unmapped realm id)
  | _, _ => true

theorem reporting_handleBare {op : Op} {w w' : World} {answer : op.Answer}
    (h : op.readsUnmapped w = true) (heq : World.handleBare op w = (answer, w')) :
    Reporting op w answer w' := by
  unfold World.handleBare at heq
  split at heq
  case h_1 kc realm id body =>
    simp only [Reporting]
    split at heq
    case h_1 r hfound =>
      obtain ⟨rfl, rfl⟩ := Prod.mk.inj heq
      obtain ⟨-, rfl⟩ := Server.find_id_eq_some_iff.mp hfound
      exact ⟨rfl, r.bare, rfl, (of_decide_eq_true h).describes⟩
    case h_2 hnone => exact ⟨_, _, heq⟩
  case h_2 hother =>
    unfold Reporting
    split
    · exact (hother _ _ _ _ rfl).elim
    · exact ⟨_, _, heq⟩

theorem exec_bare {p : Action α} {w : World}
    (h : (p.runSteps World.handleBare w).all fun step => step.op.readsUnmapped step.before) :
    Exec Reporting p w (p.runSteps World.handleBare w) (p.run World.handleBare w).2
      (some (p.run World.handleBare w).1) :=
  (p.exec_run World.handleBare w).of_mem fun step hstep =>
    reporting_handleBare (List.all_eq_true.mp h step hstep) (mem_runSteps hstep)

/-- The group is new, and the server has its roles. -/
def newStaff (realmRoles : List String) : World :=
  .around { clientObject "portal" with spec := .group { staffGroup with realmRoles := some realmRoles } }
    { staffServer with realmMappings := fun _ _ => [], clientMappings := fun _ _ _ => [] }

theorem rolesDistinct_newStaff {names : List String} {t : World} {steps : Log}
    {result : Option (Except Err (Option Pass))}
    (hclients : ∀ client ∈ ((t.servers "keycloak").resources ⟨.client, "demo"⟩).items,
      (client.key "clientId").isSome)
    (hexec : Exec Reporting (newEngine true 0).controllerReconcile.run (newStaff names) steps t result) :
    (t.servers "keycloak").RolesDistinct "demo" := by
  have hroles : (t.servers "keycloak").clientRoles = staffServer.clientRoles := by
    refine hexec.kept (fun t => (t.servers "keycloak").clientRoles) fun step hstep => ?_
    rcases reporting_cases (hexec.env_of_mem step hstep) with heq | hstep
    · rw [heq]
    · exact reliable_clientRoles hstep "keycloak"
  refine ⟨hclients, ?_, ?_⟩ <;> rw [hroles] <;> simp only [staffServer, Option.ite_none_right_eq_some,
    Option.some.injEq]
  · rintro client name rep ⟨-, rfl⟩
    rfl
  · rintro client name name' rep rep' ⟨⟨-, rfl⟩, -⟩ ⟨⟨-, rfl⟩, -⟩ -
    rfl

/-- A group whose roles are named once is created, and is not updated in the next pass. -/
theorem staff_converges :
    ∃ steps t pass, Exec Reporting (newEngine true 0).controllerReconcile.run (newStaff ["admin"])
        steps t (some (.ok (some pass))) ∧ pass.finalized = true ∧
      ¬ Performs Reporting Op.Updates (newEngine true 0).controllerReconcile.run t := by
  have hexec : Exec Reporting (newEngine true 0).controllerReconcile.run (newStaff ["admin"]) _ _ _ :=
    exec_bare (by decide +kernel)
  obtain ⟨pass, hresult, hfinalized⟩ : Succeeds (some (((newEngine true 0).controllerReconcile.run.run
    World.handleBare (newStaff ["admin"])).1)) := succeeds_of_finalized (by decide +kernel)
  rw [hresult] at hexec
  have hdistinct := rolesDistinct_newStaff (by decide +kernel) hexec
  refine ⟨_, _, pass, hexec, hfinalized, ?_⟩
  refine (group_converges_iff _ rfl rfl rfl rfl rfl hdistinct hexec hfinalized).mpr (.inr ⟨?_, ?_⟩)
  · rintro names ⟨⟩
    decide
  · rintro clientRoles ⟨⟩ clientId names hnames
    simp only [FiniteMap.ofList, List.foldl_cons, List.foldl_nil, FiniteMap.get_put] at hnames
    split at hnames
    · cases hnames
      decide
    · cases hnames

/-- A repeated name is found missing in every pass. -/
theorem repeated_role_updated :
    ∃ steps t pass, Exec Reporting (newEngine true 0).controllerReconcile.run
        (newStaff ["admin", "admin"]) steps t (some (.ok (some pass))) ∧ pass.finalized = true ∧
      Performs Reporting Op.Updates (newEngine true 0).controllerReconcile.run t := by
  have hexec : Exec Reporting (newEngine true 0).controllerReconcile.run
      (newStaff ["admin", "admin"]) _ _ _ := exec_bare (by decide +kernel)
  obtain ⟨pass, hresult, hfinalized⟩ : Succeeds (some (((newEngine true 0).controllerReconcile.run.run
    World.handleBare (newStaff ["admin", "admin"])).1)) := succeeds_of_finalized (by decide +kernel)
  rw [hresult] at hexec
  have hdistinct := rolesDistinct_newStaff (by decide +kernel) hexec
  obtain ⟨stored, r, hengages, hsame, hrecorded, hconverged⟩ :=
    Engine.exec_recorded rfl rfl rfl hdistinct hexec hfinalized
  obtain ⟨rep, hrep, hagrees⟩ := hconverged.exists_described hdistinct rfl rfl
  refine ⟨_, _, pass, hexec, hfinalized,
    performs_update hengages hsame hrecorded hconverged ?_ hrep ?_⟩
  · rw [hsame]
    decide
  · refine (Bool.eq_false_or_eq_true _).resolve_right fun hfalse => ?_
    exact absurd ((hagrees hfalse).1 _ rfl) (by decide)

end Examples

end KeycloakOperator
