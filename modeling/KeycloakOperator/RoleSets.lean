import KeycloakOperator.Unmanaged
import KeycloakOperator.View

/-!
# Sets of roles

Composite members and role mappings are sets of roles, told apart by id.  The drivers look
the desired roles up by name, compare them with the current ones and submit the difference.

* `Server.realmRoles` and `Server.rolesOfClient` are what the lookups by name return.
* `wp_applyRoleDiff` says what the comparison leaves on the server: a set with the desired
  ids.
-/

namespace KeycloakOperator

open Prog

/-! ### Calls that succeed or fail -/

/-- An environment in which a call has the effect and the answer that the servers give it, or
    fails where `errs` allows it. -/
structure Serving (env : Env operations World) (errs : Prop) : Prop extends Reading env errs where
  admin : ∀ {kc : Conn} {request : Request} {w w' : World} {answer : Except Err request.out.Value},
    env (.admin kc request) w answer w' → (errs ∧ ∃ err, answer = .error err) ∨
      (answer = (w.admin kc request).1 ∧ w' = (w.admin kc request).2)
  iterate : ∀ {keys : Finset String} {order : Order keys} {w w' : World},
    env (.iterate keys) w order w' → w' = w

theorem serving_reliable : Serving Reliable False where
  toReading := reading_reliable
  admin := fun h => .inr (reliable_admin h)
  iterate := fun ⟨_, _, h⟩ => (Prod.mk.inj h).2.symm

theorem serving_faulty : Serving Faulty True where
  toReading := reading_faulty
  admin := by
    intro kc request w w' answer h
    rcases h with h | ⟨hfailure, -⟩
    · exact .inr (reliable_admin h)
    · exact .inl ⟨trivial, hfailure⟩
  iterate := by
    rintro keys order w w' (⟨_, _, h⟩ | ⟨hfailure, -⟩)
    · exact (Prod.mk.inj h).2.symm
    · exact hfailure.elim

section Calls

variable {env : Env operations World} {errs : Prop} {guard : Op → World → Prop} {w : World}
  {kc : Conn}

theorem wp_rangeKeys (hserving : Serving env errs) {m : FiniteMap String V}
    {post : List String → World → Prop} (hguard : guard (.iterate m.keys) w)
    (h : ∀ order : Order m.keys, post order.list w) : wp env guard (rangeKeys m) post w := by
  refine ⟨hguard, fun order w' hstep => ?_⟩
  obtain rfl := hserving.iterate hstep
  exact h order

theorem wp_withContext {context : String} {call : Call α} {post : Except Err α → World → Prop}
    (h : wp env guard call.run (fun r t => post (r.mapError (Err.wrap context)) t) w) :
    wp env guard (withContext context call).run post w := by
  refine (wp_bind (p := call.run)).mpr (wp_mono (fun r t hr => ?_) h)
  rcases r with err | a <;> exact hr

theorem wp_submit (hserving : Serving env errs) {method : Method} {endpoint : Endpoint} {body : Body}
    {post : Except Err Unit → World → Prop}
    (hguard : guard (.admin kc ⟨method, endpoint, body, .nothing⟩) w)
    (herr : errs → ∀ err t, post (.error err) t)
    (h : post (w.admin kc ⟨method, endpoint, body, .nothing⟩).1
      (w.admin kc ⟨method, endpoint, body, .nothing⟩).2) :
    wp env guard (kc.submit method endpoint body).run post w := by
  refine ⟨hguard, fun answer w' hstep => ?_⟩
  rcases hserving.admin hstep with ⟨herrs, err, rfl⟩ | ⟨rfl, rfl⟩
  · exact herr herrs err w'
  · exact h

end Calls

/-! ### Roles by name -/

namespace Server

def realmRole (server : Server) (realm name : String) : Option Resource :=
  server.find ⟨.realmRole, realm⟩ (.key name)

def missing : Err := ⟨.notFound, "resource not found"⟩

def missingRealmRole (name : String) : Err := missing.wrap ("realm role " ++ quote name)

def missingClient (clientId : String) : Err :=
  Err.wrap ("client " ++ quote clientId)
    ⟨.notFound, "resource not found: client " ++ quote clientId⟩

def missingClientRole (clientId name : String) : Err :=
  missing.wrap ("role " ++ quote name ++ " of client " ++ quote clientId)

/-- Look several roles up by name; the first one that is missing is an error. -/
def lookupAll (role : String → Option Object) (missing : String → Err) :
    List String → Except Err (List Object)
  | [] => .ok []
  | name :: rest =>
      match role name with
      | none => .error (missing name)
      | some rep => (lookupAll role missing rest).map (rep :: ·)

/-- The representations of realm roles. -/
def realmRoles (server : Server) (realm : String) : List String → Except Err (List Object) :=
  lookupAll (fun name => (server.realmRole realm name).map Resource.report) missingRealmRole

/-- The representations of roles of a client with a known id. -/
def rolesOf (server : Server) (realm clientId uuid : String) :
    List String → Except Err (List Object) :=
  lookupAll (server.clientRoles realm uuid) (missingClientRole clientId)

/-- The representations of client roles. -/
def rolesOfClient (server : Server) (realm clientId : String) (names : List String) :
    Except Err (List Object) :=
  match server.client realm clientId with
  | none => .error (missingClient clientId)
  | some client => server.rolesOf realm clientId client.id names

theorem of_lookupAll {role : String → Option Object} {missing : String → Err}
    {names : List String} {reps : List Object} (h : lookupAll role missing names = .ok reps) :
    (∀ name ∈ names, ∃ rep ∈ reps, role name = some rep) ∧
      ∀ rep ∈ reps, ∃ name ∈ names, role name = some rep := by
  induction names generalizing reps with
  | nil =>
    cases h
    simp
  | cons name rest ih =>
    unfold lookupAll at h
    split at h
    · cases h
    · next rep hrole =>
      rcases hrest : lookupAll role missing rest with err | others
      · rw [hrest] at h
        cases h
      · rw [hrest] at h
        cases h
        obtain ⟨hnamed, honly⟩ := ih hrest
        refine ⟨List.forall_mem_cons.mpr ⟨⟨rep, List.mem_cons_self, hrole⟩, ?_⟩,
          List.forall_mem_cons.mpr ⟨⟨name, List.mem_cons_self, hrole⟩, ?_⟩⟩
        · intro name' hname'
          obtain ⟨rep', hrep', hrole'⟩ := hnamed name' hname'
          exact ⟨rep', List.mem_cons_of_mem _ hrep', hrole'⟩
        · intro rep' hrep'
          obtain ⟨name', hname', hrole'⟩ := honly rep' hrep'
          exact ⟨name', List.mem_cons_of_mem _ hname', hrole'⟩

theorem of_lookupAll_error {role : String → Option Object} {missing : String → Err}
    {names : List String} {err : Err} (h : lookupAll role missing names = .error err) :
    ∃ name ∈ names, role name = none ∧ err = missing name := by
  induction names with
  | nil => cases h
  | cons name rest ih =>
    unfold lookupAll at h
    split at h
    · next hrole =>
      cases h
      exact ⟨name, List.mem_cons_self, hrole, rfl⟩
    · next rep hrole =>
      rcases hrest : lookupAll role missing rest with err' | others
      · rw [hrest] at h
        cases h
        obtain ⟨name', hname', hnone⟩ := ih hrest
        exact ⟨name', List.mem_cons_of_mem _ hname', hnone⟩
      · rw [hrest] at h
        cases h

end Server

section Lookups

variable {env : Env operations World} {errs : Prop} {guard : Op → World → Prop} {w : World}
  {kc : Conn}

/-- A loop that fetches representations by name. -/
theorem wp_lookupAll (hreading : Reading env errs) {loop : List String → Call (List Object)}
    {endpoint : String → Endpoint} {context : String → String} {role : String → Option Object}
    {names : List String} {post : Except Err (List Object) → World → Prop}
    (hnil : loop [] = return [])
    (hcons : ∀ name rest, loop (name :: rest) = do
      let rep ← withContext (context name) (kc.fetchObject (endpoint name))
      let reps ← loop rest
      return rep :: reps)
    (hget : ∀ name, (w.servers kc.server).get (endpoint name) =
      match role name with
      | some rep => .object rep
      | none => notFound)
    (hguard : ∀ op, op.Reads → guard op w) (herr : errs → ∀ err, post (.error err) w)
    (h : post (Server.lookupAll role (fun name => Server.missing.wrap (context name)) names) w) :
    wp env guard (loop names).run post w := by
  induction names generalizing post with
  | nil =>
    rw [hnil]
    exact h
  | cons name rest ih =>
    rw [hcons]
    unfold Server.lookupAll at h
    refine wp_run_bind.mpr (wp_withContext ?_)
    refine wp_send hreading.answering rfl (hguard _ rfl) (fun err herrs => herr herrs _) ?_
    dsimp only
    rw [hget]
    rcases hrole : role name with _ | rep
    · rw [hrole] at h
      exact h
    · rw [hrole] at h
      refine wp_run_bind.mpr (ih (fun herrs err => herr herrs err) ?_)
      revert h
      rcases Server.lookupAll role (fun name => Server.missing.wrap (context name)) rest with
        err | reps <;> exact id

theorem wp_resolveRealmRoles (hreading : Reading env errs) {realm : String} {names : List String}
    {post : Except Err (List Object) → World → Prop} (hguard : ∀ op, op.Reads → guard op w)
    (herr : errs → ∀ err, post (.error err) w)
    (h : post ((w.servers kc.server).realmRoles realm names) w) :
    wp env guard (resolveRealmRoles kc realm names).run post w := by
  refine wp_lookupAll hreading rfl (fun _ _ => rfl) (fun name => ?_) hguard herr h
  simp only [Server.get, Endpoint.item, Server.realmRole]
  rcases (w.servers kc.server).find ⟨.realmRole, realm⟩ (.key name) <;> rfl

theorem wp_getClientRoles (hreading : Reading env errs) {realm clientId uuid : String}
    {names : List String} {post : Except Err (List Object) → World → Prop}
    (hguard : ∀ op, op.Reads → guard op w) (herr : errs → ∀ err, post (.error err) w)
    (h : post ((w.servers kc.server).rolesOf realm clientId uuid names) w) :
    wp env guard (getClientRoles kc realm clientId uuid names).run post w :=
  wp_lookupAll hreading rfl (fun _ _ => rfl) (fun _ => rfl) hguard herr h

theorem wp_resolveClientRoles (hreading : Reading env errs) {realm clientId : String}
    {names : List String} {post : Except Err (List Object) → World → Prop}
    (hguard : ∀ op, op.Reads → guard op w) (herr : errs → ∀ err, post (.error err) w)
    (h : post ((w.servers kc.server).rolesOfClient realm clientId names) w) :
    wp env guard (resolveClientRoles kc realm clientId names).run post w := by
  refine wp_run_bind.mpr (wp_withContext ?_)
  unfold Server.rolesOfClient at h
  refine wp_findClient hreading.answering hguard (fun err herrs => herr herrs _) ?_ ?_
  · intro hnone
    rw [hnone] at h
    exact h
  · intro client hclient
    rw [hclient] at h
    refine wp_getClientRoles hreading hguard herr ?_
    simpa [stringField] using h

end Lookups

/-! ### Ids -/

/-- The ids of roles. -/
def roleIds (reps : List Object) : Finset String := (reps.filterMap (stringField · "id")).toFinset

theorem mem_roleIds {reps : List Object} {id : String} :
    id ∈ roleIds reps ↔ ∃ rep ∈ reps, stringField rep "id" = some id := by
  simp [roleIds]

theorem keys_indexById (reps : List Object) : (indexById reps).keys = roleIds reps := by
  ext id
  rw [mem_keys_indexById, mem_roleIds]

theorem roleIds_unionById (current roles : List Object) :
    roleIds (unionById current roles) = roleIds current ∪ roleIds roles := by
  ext id
  simp only [Finset.mem_union, mem_roleIds, unionById, List.mem_append, List.mem_filter,
    decide_eq_true_eq]
  constructor
  · rintro ⟨rep, hrep | ⟨hrep, -⟩, hid⟩
    · exact .inl ⟨rep, hrep, hid⟩
    · exact .inr ⟨rep, hrep, hid⟩
  · rintro (⟨rep, hrep, hid⟩ | ⟨role, hrole, hid⟩)
    · exact ⟨rep, .inl hrep, hid⟩
    -- a role whose id is there already is not added
    by_cases hthere : ∃ rep ∈ current, stringField rep "id" = some id
    · obtain ⟨rep, hrep, hrepid⟩ := hthere
      exact ⟨rep, .inl hrep, hrepid⟩
    · refine ⟨role, .inr ⟨hrole, fun rep hrep heq => hthere ⟨rep, hrep, heq.trans hid⟩⟩, hid⟩

theorem roleIds_differenceById (current roles : List Object) :
    roleIds (differenceById current roles) = roleIds current \ roleIds roles := by
  ext id
  simp only [Finset.mem_sdiff, mem_roleIds, differenceById, List.mem_filter, decide_eq_true_eq]
  constructor
  · rintro ⟨rep, ⟨hrep, hother⟩, hid⟩
    exact ⟨⟨rep, hrep, hid⟩, fun ⟨role, hrole, hroleid⟩ => hother role hrole (hid.trans hroleid.symm)⟩
  · rintro ⟨⟨rep, hrep, hid⟩, hother⟩
    exact ⟨rep, ⟨hrep, fun role hrole heq => hother ⟨role, hrole, heq.symm.trans hid⟩⟩, hid⟩

/-- Removing all the members leaves none. -/
theorem differenceById_self (reps : List Object) : differenceById reps reps = [] := by
  rw [differenceById, List.filter_eq_nil_iff]
  intro rep hrep
  simp only [decide_eq_true_eq, not_forall, not_not]
  exact ⟨rep, hrep, rfl⟩

/-- Every role has an id. -/
def Identified (reps : List Object) : Prop := ∀ rep ∈ reps, (stringField rep "id").isSome

theorem Identified.eq_nil {reps : List Object} (h : Identified reps) (hempty : roleIds reps = ∅) :
    reps = [] := by
  apply List.eq_nil_iff_forall_not_mem.mpr
  intro rep hrep
  obtain ⟨id, hid⟩ := Option.isSome_iff_exists.mp (h rep hrep)
  have hmem : id ∈ roleIds reps := mem_roleIds.mpr ⟨rep, hrep, hid⟩
  rw [hempty] at hmem
  exact Finset.notMem_empty id hmem

theorem Identified.unionById {current roles : List Object} (h : Identified current)
    (hroles : Identified roles) : Identified (unionById current roles) := by
  intro rep hrep
  rcases List.mem_append.mp hrep with hrep | hrep
  · exact h rep hrep
  · exact hroles rep (List.mem_filter.mp hrep).1

theorem Identified.differenceById {current : List Object} (h : Identified current)
    (roles : List Object) : Identified (differenceById current roles) :=
  fun rep hrep => h rep (List.mem_filter.mp hrep).1

theorem of_get_indexById {reps : List Object} {id : String} {rep : Object}
    (h : (indexById reps).get id = some rep) : rep ∈ reps ∧ stringField rep "id" = some id := by
  rw [get_indexById] at h
  exact ⟨List.mem_reverse.mp (List.mem_of_find?_eq_some h), by simpa using List.find?_some h⟩

/-- What the loop over an index collects. -/
theorem yields_onlyIn_ids (left right : List Object) :
    Yields (fun found => roleIds found = roleIds left \ roleIds right ∧ Identified found ∧
        ∀ rep ∈ found, rep ∈ left) (onlyIn (indexById left) (indexById right)) := by
  intro order
  let found := order.list.filterMap fun id =>
    if id ∈ (indexById right).keys then none else (indexById left).get id
  have hmem : ∀ rep, rep ∈ found ↔ ∃ id, stringField rep "id" = some id ∧
      (indexById left).get id = some rep ∧ id ∉ roleIds right := by
    intro rep
    simp only [found, List.mem_filterMap, Option.ite_none_left_eq_some, keys_indexById]
    constructor
    · rintro ⟨id, -, hright, hget⟩
      exact ⟨id, (of_get_indexById hget).2, hget, hright⟩
    · rintro ⟨id, -, hget, hright⟩
      exact ⟨id, (order.mem_iff id).mpr (FiniteMap.mem_keys_of_get hget), hright, hget⟩
  change roleIds found = _ ∧ Identified found ∧ _
  refine ⟨?_, fun rep hrep => ?_, fun rep hrep => ?_⟩
  · ext id
    rw [Finset.mem_sdiff, mem_roleIds]
    constructor
    · rintro ⟨rep, hrep, hid⟩
      obtain ⟨id', hid', hget, hright⟩ := (hmem rep).mp hrep
      obtain rfl : id = id' := Option.some.inj (hid.symm.trans hid')
      exact ⟨keys_indexById left ▸ FiniteMap.mem_keys_of_get hget, hright⟩
    · rintro ⟨hleft, hright⟩
      rw [← keys_indexById, FiniteMap.mem_keys_iff] at hleft
      obtain ⟨rep, hget⟩ := hleft
      have hid := (of_get_indexById hget).2
      exact ⟨rep, (hmem rep).mpr ⟨id, hid, hget, hright⟩, hid⟩
  · obtain ⟨id, hid, -⟩ := (hmem rep).mp hrep
    rw [hid]
    rfl
  · obtain ⟨id, -, hget, -⟩ := (hmem rep).mp hrep
    exact (of_get_indexById hget).1

/-! ### Sets on the server -/

/-- The sets of roles that are written through endpoints of their own. -/
inductive RoleSet where
  | composites (realm name : String)
  | realmMappings (realm group : String)
  | clientMappings (realm group client : String)
deriving DecidableEq, Repr

namespace RoleSet

def endpoint : RoleSet → Endpoint
  | composites realm name => .composites realm name
  | realmMappings realm group => .realmRoleMappings realm group
  | clientMappings realm group client => .clientRoleMappings realm group client

/-- The request that adds roles. -/
def add (set : RoleSet) (kc : Conn) (roles : List Object) : Call Unit :=
  kc.submit .post set.endpoint (.objects roles)

/-- The request that removes roles. -/
def remove (set : RoleSet) (kc : Conn) (roles : List Object) : Call Unit :=
  kc.submit .delete set.endpoint (.objects roles)

end RoleSet

namespace Server

def roles (server : Server) : RoleSet → List Object
  | .composites realm name => server.composites realm name
  | .realmMappings realm group => server.realmMappings realm group
  | .clientMappings realm group client => server.clientMappings realm group client

def setRoles (server : Server) : RoleSet → List Object → Server
  | .composites realm name => server.setComposites realm name
  | .realmMappings realm group => server.setRealmMappings realm group
  | .clientMappings realm group client => server.setClientMappings realm group client

@[simp] theorem roles_setRoles_self (server : Server) (set : RoleSet) (reps : List Object) :
    (server.setRoles set reps).roles set = reps := by
  cases set <;> simp [roles, setRoles, setComposites, setRealmMappings, setClientMappings]

theorem roles_setRoles_of_ne (server : Server) {set set' : RoleSet} (reps : List Object)
    (h : set' ≠ set) : (server.setRoles set reps).roles set' = server.roles set' := by
  cases set <;> cases set' <;>
    simp only [roles, setRoles, setComposites, setRealmMappings, setClientMappings]
  case composites.composites realm name realm' name' =>
    by_cases hrealm : realm' = realm
    · subst hrealm
      have hname : name' ≠ name := fun hname => h (by rw [hname])
      simp [hname]
    · simp [hrealm]
  case realmMappings.realmMappings realm group realm' group' =>
    by_cases hrealm : realm' = realm
    · subst hrealm
      have hgroup : group' ≠ group := fun hgroup => h (by rw [hgroup])
      simp [hgroup]
    · simp [hrealm]
  case clientMappings.clientMappings realm group client realm' group' client' =>
    by_cases hrealm : realm' = realm
    · subst hrealm
      by_cases hgroup : group' = group
      · subst hgroup
        have hclient : client' ≠ client := fun hclient => h (by rw [hclient])
        simp [hclient]
      · simp [hgroup]
    · simp [hrealm]

theorem setRoles_setRoles (server : Server) (set : RoleSet) (reps reps' : List Object) :
    (server.setRoles set reps).setRoles set reps' = server.setRoles set reps' := by
  cases set <;> simp [setRoles, setComposites, setRealmMappings, setClientMappings]

theorem setRoles_self (server : Server) (set : RoleSet) :
    server.setRoles set (server.roles set) = server := by
  cases set <;> simp [roles, setRoles, setComposites, setRealmMappings, setClientMappings]

theorem serve_add (server : Server) (label : String) (set : RoleSet) (reps : List Object) :
    server.serve label .post set.endpoint (.objects reps) =
      (.done, server.setRoles set (unionById (server.roles set) reps)) := by
  cases set <;> rfl

theorem serve_remove (server : Server) (label : String) (set : RoleSet) (reps : List Object) :
    server.serve label .delete set.endpoint (.objects reps) =
      (.done, server.setRoles set (differenceById (server.roles set) reps)) := by
  cases set <;> rfl

end Server

section Diff

variable {env : Env operations World} {errs : Prop} {guard : Op → World → Prop} {w : World}
  {kc : Conn} {set : RoleSet}

/-- Adding roles, unless there are none to add. -/
theorem wp_submit_add (hserving : Serving env errs) {roles : List Object}
    {post : Except Err Unit → World → Prop}
    (hguard : guard (.admin kc ⟨.post, set.endpoint, .objects roles, .nothing⟩) w)
    (herr : errs → ∀ err t, post (.error err) t)
    (h : post (.ok ()) (w.setServer kc.server ((w.servers kc.server).setRoles set
      (unionById ((w.servers kc.server).roles set) roles)))) :
    wp env guard (submitRoles (set.add kc) roles).run post w := by
  unfold submitRoles
  split
  · next hnil =>
    rw [hnil, unionById, List.filter_nil, List.append_nil, Server.setRoles_self,
      World.setServer_self] at h
    exact h
  · refine wp_submit hserving hguard herr ?_
    simp only [World.admin, Server.serve_add]
    exact h

/-- Removing roles, unless there are none to remove. -/
theorem wp_submit_remove (hserving : Serving env errs) {roles : List Object}
    {post : Except Err Unit → World → Prop}
    (hguard : guard (.admin kc ⟨.delete, set.endpoint, .objects roles, .nothing⟩) w)
    (herr : errs → ∀ err t, post (.error err) t)
    (h : post (.ok ()) (w.setServer kc.server ((w.servers kc.server).setRoles set
      (differenceById ((w.servers kc.server).roles set) roles)))) :
    wp env guard (submitRoles (set.remove kc) roles).run post w := by
  unfold submitRoles
  split
  · next hnil =>
    have hall : differenceById ((w.servers kc.server).roles set) [] =
        (w.servers kc.server).roles set := by simp [differenceById]
    rw [hnil, hall, Server.setRoles_self, World.setServer_self] at h
    exact h
  · refine wp_submit hserving hguard herr ?_
    simp only [World.admin, Server.serve_remove]
    exact h

theorem wp_onlyIn (hserving : Serving env errs) {left right : List Object}
    {post : List Object → World → Prop} (hreads : ∀ op, op.Reads → guard op w)
    (h : ∀ found, roleIds found = roleIds left \ roleIds right → Identified found →
      (∀ rep ∈ found, rep ∈ left) → post found w) :
    wp env guard (onlyIn (indexById left) (indexById right)) post w := by
  have hstays : wp env guard (onlyIn (indexById left) (indexById right)) (fun _ t => t = w) w :=
    wp_bind.mpr (wp_rangeKeys hserving (hreads _ trivial) fun _ => rfl)
  refine wp_mono ?_ (wp_yields (yields_onlyIn_ids left right) hstays)
  rintro found t ⟨⟨hids, hidentified, hsub⟩, rfl⟩
  exact h found hids hidentified hsub

/-- What is submitted is the desired roles that are not current, and after that the current
    ones that are not desired.  Compared with what the server holds, the desired roles are all
    there are in the end. -/
theorem wp_applyRoleDiff (set : RoleSet) (hserving : Serving env errs)
    {desired current : List Object}
    {post : Except Err Bool → World → Prop} (hreads : ∀ op, op.Reads → guard op w)
    (hadd : ∀ roles, (∀ role ∈ roles, role ∈ desired) →
      roleIds roles = roleIds desired \ roleIds current →
      guard (.admin kc ⟨.post, set.endpoint, .objects roles, .nothing⟩) w)
    (hremove : ∀ toAdd roles, (∀ role ∈ roles, role ∈ current) →
      roleIds roles = roleIds current \ roleIds desired →
      guard (.admin kc ⟨.delete, set.endpoint, .objects roles, .nothing⟩)
        (w.setServer kc.server ((w.servers kc.server).setRoles set
          (unionById ((w.servers kc.server).roles set) toAdd))))
    (herr : errs → ∀ err t, post (.error err) t)
    (h : ∀ changed reps, (roleIds current = roleIds ((w.servers kc.server).roles set) →
        roleIds reps = roleIds desired) →
      (Identified ((w.servers kc.server).roles set) → Identified reps) →
      post (.ok changed) (w.setServer kc.server ((w.servers kc.server).setRoles set reps))) :
    wp env guard (applyRoleDiff desired current (set.add kc) (set.remove kc)).run post w := by
  refine wp_run_bind.mpr (wp_run_lift.mpr (wp_onlyIn hserving hreads ?_))
  intro toAdd haddIds hidentified haddSub
  refine wp_run_bind.mpr (wp_run_lift.mpr (wp_onlyIn hserving hreads ?_))
  intro toRemove hremoveIds _ hremoveSub
  by_cases hnothing : toAdd = [] ∧ toRemove = []
  · obtain ⟨rfl, rfl⟩ := hnothing
    have hsame : roleIds desired = roleIds current :=
      (Finset.sdiff_eq_empty_iff_subset.mp haddIds.symm).antisymm
        (Finset.sdiff_eq_empty_iff_subset.mp hremoveIds.symm)
    have hkept := h false ((w.servers kc.server).roles set)
      (fun hcurrent => hcurrent.symm.trans hsame.symm) id
    rw [Server.setRoles_self, World.setServer_self] at hkept
    exact hkept
  dsimp only
  rw [if_neg hnothing]
  refine wp_run_bind.mpr (wp_submit_add hserving (hadd _ haddSub haddIds) herr ?_)
  refine wp_run_bind.mpr
    (wp_submit_remove hserving (hremove _ _ hremoveSub hremoveIds) herr ?_)
  simp only [wp_run_pure, World.servers_setServer, World.setServer_setServer,
    Server.roles_setRoles_self, Server.setRoles_setRoles]
  refine h true _ (fun hcurrent => ?_) fun hset => (hset.unionById hidentified).differenceById _
  rw [roleIds_differenceById, roleIds_unionById, haddIds, hremoveIds, ← hcurrent]
  ext id
  simp only [Finset.mem_sdiff, Finset.mem_union]
  grind

/-- Desired roles that are there already are left alone. -/
theorem wp_applyRoleDiff_idle (set : RoleSet) (hserving : Serving env errs)
    {desired current : List Object}
    {post : Except Err Bool → World → Prop} (hreads : ∀ op, op.Reads → guard op w)
    (hsame : roleIds desired = roleIds current) (h : post (.ok false) w) :
    wp env guard (applyRoleDiff desired current (set.add kc) (set.remove kc)).run post w := by
  refine wp_run_bind.mpr (wp_run_lift.mpr (wp_onlyIn hserving hreads ?_))
  intro toAdd haddIds haddIdentified _
  refine wp_run_bind.mpr (wp_run_lift.mpr (wp_onlyIn hserving hreads ?_))
  intro toRemove hremoveIds hremoveIdentified _
  rw [hsame, Finset.sdiff_self] at haddIds hremoveIds
  obtain rfl := haddIdentified.eq_nil haddIds
  obtain rfl := hremoveIdentified.eq_nil hremoveIds
  exact h

end Diff

end KeycloakOperator
