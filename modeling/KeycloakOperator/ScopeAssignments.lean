import KeycloakOperator.RoleSets

/-!
# Client scope assignments

`enforceScopeAssignments` compares the names of the assigned scopes with the desired names,
adds what is missing and removes what is not desired, one request for each scope.

A server may keep the two lists of a client apart or allow a scope in one of them only, and
then it ignores an assignment of a scope that is in the other one.  `Assigning` is an
environment that does either; `wp_enforceScopeAssignments` says what is assigned in the end,
and what is still assigned wherever a call fails.
-/

namespace KeycloakOperator

open Prog

/-! ### The lists on the server -/

def ScopeList.other : ScopeList → ScopeList
  | .default => .optional
  | .optional => .default

theorem ScopeList.other_ne (list : ScopeList) : list.other ≠ list := by
  rcases list <;> decide

/-- Keys do not repeat, so the last resource with a key is the first one. -/
theorem Collection.find?_reverse_key {keyField : String} (c : Collection keyField) (key : String) :
    (c.items.reverse.find? fun r => decide (r.key keyField = some key)) = c.find (.key key) := by
  rcases hfound : c.find (.key key) with _ | r
  · rw [List.find?_eq_none]
    intro r hr
    exact List.find?_eq_none.mp hfound r (List.mem_reverse.mp hr)
  · obtain ⟨hr, hkey⟩ := find_eq_some_iff.mp hfound
    rcases hlast : c.items.reverse.find? fun r => decide (r.key keyField = some key) with _ | r'
    · exact absurd hkey (List.find?_eq_none.mp hlast r (List.mem_reverse.mpr hr))
    · have hr' := List.mem_reverse.mp (List.mem_of_find?_eq_some hlast)
      have hkey' : (Address.key key).names keyField r' := List.find?_some hlast
      rw [hlast, eq_of_names hr' hr hkey' hkey]

namespace Server

variable {server : Server} {realm client name : String} {list : ScopeList} {r : Resource}

def scope (server : Server) (realm name : String) : Option Resource :=
  server.find ⟨.clientScope, realm⟩ (.key name)

/-- The names of the scopes in a list of a client. -/
def scopeNames (server : Server) (list : ScopeList) (realm client : String) : Finset String :=
  ((server.assignedScopes realm client list).filterMap (stringField · "name")).toFinset

theorem scope_eq_some_iff :
    server.scope realm name = some r ↔
      r ∈ (server.resources ⟨.clientScope, realm⟩).items ∧ r.key "name" = some name :=
  Collection.find_eq_some_iff.trans (and_congr_right fun _ => decide_eq_true_iff)

theorem scope_id_eq_some_iff {id : String} :
    server.find ⟨.clientScope, realm⟩ (.id id) = some r ↔
      r ∈ (server.resources ⟨.clientScope, realm⟩).items ∧ r.id = id :=
  Collection.find_eq_some_iff.trans (and_congr_right fun _ => decide_eq_true_iff)

theorem stringField_report_name (r : Resource) : stringField r.report "name" = r.key "name" := by
  unfold stringField Resource.key
  rw [r.get_report_of_ne (by decide)]
  rfl

theorem mem_scopeNames :
    name ∈ server.scopeNames list realm client ↔
      ∃ r, server.scope realm name = some r ∧ r.id ∈ server.assigned list realm client := by
  simp only [scopeNames, assignedScopes, List.mem_toFinset, List.mem_filterMap,
    Option.map_eq_some_iff]
  constructor
  · rintro ⟨rep, ⟨id, hid, r, hfound, rfl⟩, hname⟩
    obtain ⟨hr, rfl⟩ := scope_id_eq_some_iff.mp hfound
    rw [stringField_report_name] at hname
    exact ⟨r, scope_eq_some_iff.mpr ⟨hr, hname⟩, hid⟩
  · rintro ⟨r, hscope, hid⟩
    obtain ⟨hr, hname⟩ := scope_eq_some_iff.mp hscope
    exact ⟨r.report, ⟨r.id, hid, r, scope_id_eq_some_iff.mpr ⟨hr, rfl⟩, rfl⟩,
      (stringField_report_name r).trans hname⟩

theorem scope_congr {server' : Server} (h : server'.resources = server.resources) :
    server'.scope realm name = server.scope realm name := by
  unfold scope find
  rw [h]

/-- The names follow from the set of ids. -/
theorem scopeNames_congr {server' : Server} (hresources : server'.resources = server.resources)
    (hassigned : (server'.assigned list realm client).toFinset =
      (server.assigned list realm client).toFinset) :
    server'.scopeNames list realm client = server.scopeNames list realm client := by
  ext name
  simp only [mem_scopeNames, scope_congr hresources, ← List.mem_toFinset, hassigned]

/-- Scopes with different names have different ids. -/
theorem scope_name_unique {name' : String} {r' : Resource}
    (hscope : server.scope realm name = some r) (hscope' : server.scope realm name' = some r')
    (hid : r.id = r'.id) : name = name' := by
  obtain ⟨hr, hname⟩ := scope_eq_some_iff.mp hscope
  obtain ⟨hr', hname'⟩ := scope_eq_some_iff.mp hscope'
  have hsame : r = r' :=
    List.inj_on_of_nodup_map (server.resources ⟨.clientScope, realm⟩).nodup_ids hr hr' hid
  rw [hsame, hname'] at hname
  exact (Option.some.inj hname).symm

/-- The index of the scopes by name. -/
theorem get_scopeIds :
    (indexFields "name" "id" ((server.resources ⟨.clientScope, realm⟩).items.map
      Resource.report)).get name = (server.scope realm name).map Resource.id := by
  unfold indexFields
  rw [List.foldl_map, FiniteMap.get_foldl_put (Resource.key "name") Resource.id]
  · exact congrArg _ (Collection.find?_reverse_key _ _)
  · intro m r
    rw [stringField_report_name]
    rcases r.key "name" with _ | key <;> simp [stringField]

end Server

/-! ### Requests -/

namespace World

variable {w : World} {kc : Conn} {list : ScopeList} {realm client : String} {ids ids' : List String}

/-- The ids of the scopes in a list of a client. -/
def assigned (w : World) (kc : Conn) (list : ScopeList) (realm client : String) : List String :=
  (w.servers kc.server).assigned list realm client

def setAssigned (w : World) (kc : Conn) (list : ScopeList) (realm client : String)
    (ids : List String) : World :=
  w.setServer kc.server ((w.servers kc.server).setAssigned list realm client ids)

@[simp] theorem assigned_setAssigned :
    (w.setAssigned kc list realm client ids).assigned kc list realm client = ids := by
  simp [assigned, setAssigned, Server.setAssigned]

theorem assigned_setAssigned_of_ne {list' : ScopeList} (h : list' ≠ list) (realm' client' : String) :
    (w.setAssigned kc list realm client ids).assigned kc list' realm' client' =
      w.assigned kc list' realm' client' := by
  simp [assigned, setAssigned, Server.setAssigned, h]

@[simp] theorem setAssigned_setAssigned :
    (w.setAssigned kc list realm client ids).setAssigned kc list realm client ids' =
      w.setAssigned kc list realm client ids' := by
  simp [setAssigned, Server.setAssigned]

@[simp] theorem setAssigned_self :
    w.setAssigned kc list realm client (w.assigned kc list realm client) = w := by
  have hself : (w.servers kc.server).setAssigned list realm client
      ((w.servers kc.server).assigned list realm client) = w.servers kc.server := by
    simp [Server.setAssigned]
  unfold setAssigned assigned
  rw [hself, setServer_self]

@[simp] theorem resources_setAssigned :
    ((w.setAssigned kc list realm client ids).servers kc.server).resources =
      (w.servers kc.server).resources := by
  simp [setAssigned, Server.setAssigned]

end World

/-- An environment in which a call that assigns a scope, or takes it away, does just that to the
    list, unless the scope is blocked by what is in the other list; a call that fails may have
    had its effect. -/
structure Assigning (env : Env operations World) (errs : Prop) (blocks : List String → String → Prop) :
    Prop extends Reading env errs where
  iterate : ∀ {keys : Finset String} {order : Order keys} {w w' : World},
    env (.iterate keys) w order w' → w' = w
  put : ∀ {kc : Conn} {realm client scope : String} {list : ScopeList} {w w' : World}
    {answer : Except Err Unit},
    env (.admin kc ⟨.put, .assignment realm client list scope, .none, .nothing⟩) w answer w' →
    ((w.servers kc.server).find ⟨.clientScope, realm⟩ (.id scope)).isSome →
    ∃ ids, w' = w.setAssigned kc list realm client ids ∧
      (∀ id ∈ w.assigned kc list realm client, id ∈ ids) ∧
      ((errs ∧ ∃ err, answer = .error err) ∨ (answer = .ok () ∧ ∀ id, id ∈ ids ↔
        id ∈ w.assigned kc list realm client ∨
          (id = scope ∧ ¬ blocks (w.assigned kc list.other realm client) scope)))
  delete : ∀ {kc : Conn} {realm client scope : String} {list : ScopeList} {w w' : World}
    {answer : Except Err Unit},
    env (.admin kc ⟨.delete, .assignment realm client list scope, .none, .nothing⟩) w answer w' →
    ∃ ids, w' = w.setAssigned kc list realm client ids ∧
      (∀ id ∈ w.assigned kc list realm client, id ≠ scope → id ∈ ids) ∧
      ((errs ∧ ∃ err, answer = .error err) ∨ (answer = .ok () ∧ ∀ id, id ∈ ids ↔
        id ∈ w.assigned kc list realm client ∧ id ≠ scope))

/-! ### The loops -/

section Loops

variable {env : Env operations World} {errs : Prop} {blocks : List String → String → Prop}
  {guard : Op → World → Prop} {w : World} {kc : Conn} {realm client : String} {list : ScopeList}
  {idsByName : FiniteMap String String} {names : List String}
  {post : Except Err Unit → World → Prop}

/-- The loop that adds scopes removes none, also when it fails. -/
theorem wp_assignScopes (hassigning : Assigning env errs blocks)
    (hguard : ∀ scope t, guard (.admin kc ⟨.put, .assignment realm client list scope, .none, .nothing⟩) t)
    (hids : ∀ name id, idsByName.get name = some id →
      ((w.servers kc.server).find ⟨.clientScope, realm⟩ (.id id)).isSome)
    (herr : ∀ err ids, (∀ id ∈ w.assigned kc list realm client, id ∈ ids) →
      post (.error err) (w.setAssigned kc list realm client ids))
    (h : ∀ ids, (∀ name ∈ names, idsByName.get name ≠ none) →
      (∀ id, id ∈ ids ↔ id ∈ w.assigned kc list realm client ∨
        ((∃ name ∈ names, idsByName.get name = some id) ∧
          ¬ blocks (w.assigned kc list.other realm client) id)) →
      post (.ok ()) (w.setAssigned kc list realm client ids)) :
    wp env guard (assignScopes kc realm client list idsByName names).run post w := by
  induction names generalizing w with
  | nil =>
    have hkept := h (w.assigned kc list realm client) (by simp) (by simp)
    rwa [World.setAssigned_self] at hkept
  | cons name rest ih =>
    unfold assignScopes
    rcases hget : idsByName.get name with _ | scope
    · have hkept := herr ⟨.other, "client scope " ++ quote name ++ " does not exist in realm " ++
        quote realm⟩ _ fun _ hid => hid
      rwa [World.setAssigned_self] at hkept
    refine wp_run_bind.mpr ⟨hguard scope w, fun answer w' hstep => ?_⟩
    obtain ⟨ids, rfl, hkeeps, ⟨-, err, rfl⟩ | ⟨rfl, hids'⟩⟩ := hassigning.put hstep (hids name scope hget)
    · exact herr err ids hkeeps
    refine ih ?_ ?_ ?_
    · simpa [Server.find] using hids
    · intro err ids' hkeeps'
      rw [World.setAssigned_setAssigned]
      rw [World.assigned_setAssigned] at hkeeps'
      exact herr err ids' fun id hid => hkeeps' id (hkeeps id hid)
    · intro ids' hknown hids''
      rw [World.setAssigned_setAssigned]
      refine h ids' ?_ fun id => ?_
      · exact List.forall_mem_cons.mpr ⟨by simp [hget], hknown⟩
      · rw [hids'', World.assigned_setAssigned, World.assigned_setAssigned_of_ne list.other_ne, hids']
        simp only [List.exists_mem_cons_iff, hget, Option.some.injEq]
        constructor
        · rintro ((hid | ⟨rfl, hfree⟩) | ⟨hname, hfree⟩)
          · exact .inl hid
          · exact .inr ⟨.inl rfl, hfree⟩
          · exact .inr ⟨.inr hname, hfree⟩
        · rintro (hid | ⟨rfl | hname, hfree⟩)
          · exact .inl (.inl hid)
          · exact .inl (.inr ⟨rfl, hfree⟩)
          · exact .inr ⟨hname, hfree⟩

/-- The loop that removes scopes keeps the others, also when it fails. -/
theorem wp_unassignScopes (hassigning : Assigning env errs blocks)
    (hguard : ∀ scope t,
      guard (.admin kc ⟨.delete, .assignment realm client list scope, .none, .nothing⟩) t)
    (herr : ∀ err ids, (∀ id ∈ w.assigned kc list realm client,
        (∀ name ∈ names, idsByName.get name ≠ some id) → id ∈ ids) →
      post (.error err) (w.setAssigned kc list realm client ids))
    (h : ∀ ids, (∀ id, id ∈ ids ↔ id ∈ w.assigned kc list realm client ∧
        ∀ name ∈ names, idsByName.get name ≠ some id) →
      post (.ok ()) (w.setAssigned kc list realm client ids)) :
    wp env guard (unassignScopes kc realm client list idsByName names).run post w := by
  induction names generalizing w with
  | nil =>
    have hkept := h (w.assigned kc list realm client) (by simp)
    rwa [World.setAssigned_self] at hkept
  | cons name rest ih =>
    unfold unassignScopes
    rcases hget : idsByName.get name with _ | scope
    · refine ih ?_ ?_
      · intro err ids hkeeps
        refine herr err ids fun id hid hothers => hkeeps id hid ?_
        exact (List.forall_mem_cons.mp hothers).2
      · intro ids hids
        refine h ids fun id => ?_
        simp only [hids, List.forall_mem_cons, hget, ne_eq, reduceCtorEq, not_false_eq_true, true_and]
    refine wp_run_bind.mpr ⟨hguard scope w, fun answer w' hstep => ?_⟩
    obtain ⟨ids, rfl, hkeeps, ⟨-, err, rfl⟩ | ⟨rfl, hids⟩⟩ := hassigning.delete hstep
    · refine herr err ids fun id hid hothers => hkeeps id hid ?_
      rintro rfl
      exact (List.forall_mem_cons.mp hothers).1 hget
    refine ih ?_ ?_
    · intro err ids' hkeeps'
      rw [World.setAssigned_setAssigned]
      rw [World.assigned_setAssigned] at hkeeps'
      refine herr err ids' fun id hid hothers => ?_
      obtain ⟨hfirst, hrest⟩ := List.forall_mem_cons.mp hothers
      refine hkeeps' id (hkeeps id hid ?_) hrest
      rintro rfl
      exact hfirst hget
    · intro ids' hids'
      rw [World.setAssigned_setAssigned]
      refine h ids' fun id => ?_
      rw [hids', World.assigned_setAssigned, hids, List.forall_mem_cons, hget, and_assoc]
      simp only [ne_eq, Option.some.injEq, eq_comm]

end Loops

/-! ### A whole call -/

section Enforce

variable {env : Env operations World} {errs : Prop} {blocks : List String → String → Prop}
  {guard : Op → World → Prop} {w : World} {kc : Conn} {realm client : String} {list : ScopeList}
  {desired : List String} {post : Except Err Bool → World → Prop}

/-- The list that a call without an error leaves, when `ids` were assigned before and `others`
    are in the other list. -/
structure ScopesEnforced (blocks : List String → String → Prop) (server : Server) (realm : String)
    (desired : List String) (others ids ids' : List String) : Prop where
  known : ∀ name ∈ desired, server.scope realm name ≠ none
  mem_iff : ∀ name r, server.scope realm name = some r →
    (r.id ∈ ids' ↔ name ∈ desired ∧ (r.id ∈ ids ∨ ¬ blocks others r.id))

/-- What the two loops leave. -/
theorem scopesEnforced_of_loops {server : Server} {toAdd toRemove others ids ids₁ ids₂ : List String}
    (hids : ∀ name, name ∈ server.scopeNames list realm client ↔
      ∃ r, server.scope realm name = some r ∧ r.id ∈ ids)
    (hadd : ∀ name, name ∈ toAdd ↔ name ∈ desired ∧ name ∉ server.scopeNames list realm client)
    (hremove : ∀ name, name ∈ toRemove ↔
      name ∈ server.scopeNames list realm client ∧ name ∉ desired)
    (hknown : ∀ name ∈ toAdd, (server.scope realm name).map Resource.id ≠ none)
    (hadded : ∀ id, id ∈ ids₁ ↔ id ∈ ids ∨
      ((∃ name ∈ toAdd, (server.scope realm name).map Resource.id = some id) ∧ ¬ blocks others id))
    (hremoved : ∀ id, id ∈ ids₂ ↔ id ∈ ids₁ ∧
      ∀ name ∈ toRemove, (server.scope realm name).map Resource.id ≠ some id) :
    ScopesEnforced blocks server realm desired others ids ids₂ := by
  constructor
  · intro name hname hnone
    by_cases hassigned : name ∈ server.scopeNames list realm client
    · obtain ⟨r, hscope, -⟩ := (hids name).mp hassigned
      cases hnone.symm.trans hscope
    · apply hknown name ((hadd name).mpr ⟨hname, hassigned⟩)
      rw [hnone]
      rfl
  · intro name r hscope
    -- a name is looked up to the id of this scope only if it is its own name
    have hown : ∀ name', (server.scope realm name').map Resource.id = some r.id → name' = name := by
      intro name' hname'
      obtain ⟨r', hscope', hid⟩ := Option.map_eq_some_iff.mp hname'
      exact Server.scope_name_unique hscope' hscope hid
    have hname : (server.scope realm name).map Resource.id = some r.id := by rw [hscope]; rfl
    have hmem : name ∈ server.scopeNames list realm client ↔ r.id ∈ ids := by
      rw [hids]
      constructor
      · rintro ⟨r', hscope', hid⟩
        cases hscope.symm.trans hscope'
        exact hid
      · exact fun hid => ⟨r, hscope, hid⟩
    have hadds : (∃ name' ∈ toAdd, (server.scope realm name').map Resource.id = some r.id) ↔
        name ∈ desired ∧ r.id ∉ ids := by
      rw [← hmem, ← hadd]
      constructor
      · rintro ⟨name', hname', hid⟩
        exact hown name' hid ▸ hname'
      · exact fun hmem => ⟨name, hmem, hname⟩
    have hremoves : (∀ name' ∈ toRemove, (server.scope realm name').map Resource.id ≠ some r.id) ↔
        ¬ (r.id ∈ ids ∧ name ∉ desired) := by
      rw [← hmem, ← hremove]
      constructor
      · exact fun hall hmem => hall name hmem hname
      · exact fun hnot name' hname' hid => hnot (hown name' hid ▸ hname')
    rw [hremoved, hadded, hadds, hremoves]
    grind

theorem wp_iterate {keys : Finset String} {post : Order keys → World → Prop}
    (hassigning : Assigning env errs blocks) (hguard : guard (.iterate keys) w)
    (h : ∀ order, post order w) : wp env guard (perform (.iterate keys)) post w := by
  refine ⟨hguard, fun order w' hstep => ?_⟩
  obtain rfl := hassigning.iterate hstep
  exact h order

theorem wp_enforceScopeAssignments (hassigning : Assigning env errs blocks)
    (hreads : ∀ op, op.Reads → guard op w)
    (hassign : desired.toFinset ≠ (w.servers kc.server).scopeNames list realm client →
      ∀ method scope t,
        guard (.admin kc ⟨method, .assignment realm client list scope, .none, .nothing⟩) t)
    (herr : (desired.toFinset = (w.servers kc.server).scopeNames list realm client → errs) →
      ∀ err ids, (∀ name ∈ desired, ∀ r, (w.servers kc.server).scope realm name = some r →
        r.id ∈ w.assigned kc list realm client → r.id ∈ ids) →
      post (.error err) (w.setAssigned kc list realm client ids))
    (hsame : desired.toFinset = (w.servers kc.server).scopeNames list realm client →
      post (.ok false) w)
    (hdiff : ∀ ids, desired.toFinset ≠ (w.servers kc.server).scopeNames list realm client →
      ScopesEnforced blocks (w.servers kc.server) realm desired
        (w.assigned kc list.other realm client) (w.assigned kc list realm client) ids →
      post (.ok true) (w.setAssigned kc list realm client ids)) :
    wp env guard (enforceScopeAssignments kc realm client desired list).run post w := by
  have herrs : errs → ∀ err, post (.error err) w := by
    intro herrs err
    have hkept := herr (fun _ => herrs) err (w.assigned kc list realm client) fun _ _ _ _ hid => hid
    rwa [World.setAssigned_self] at hkept
  refine wp_run_bind.mpr ?_
  refine wp_send hassigning.toReading.answering rfl (hreads _ rfl) (fun err h => herrs h err) ?_
  refine wp_run_bind.mpr (wp_run_lift.mpr ?_)
  refine wp_iterate hassigning (hreads _ trivial) fun desiredOrder => ?_
  refine wp_run_bind.mpr (wp_run_lift.mpr ?_)
  refine wp_iterate hassigning (hreads _ trivial) fun currentOrder => ?_
  change Order ((w.servers kc.server).scopeNames list realm client) at currentOrder
  set toAdd := desiredOrder.list.filter fun name =>
    decide (name ∉ (w.servers kc.server).scopeNames list realm client) with htoAdd
  set toRemove := currentOrder.list.filter fun name =>
    decide (name ∉ desired.toFinset) with htoRemove
  have hadd : ∀ name, name ∈ toAdd ↔
      name ∈ desired ∧ name ∉ (w.servers kc.server).scopeNames list realm client := by
    intro name
    simp [htoAdd, desiredOrder.mem_iff]
  have hremove : ∀ name, name ∈ toRemove ↔
      name ∈ (w.servers kc.server).scopeNames list realm client ∧ name ∉ desired := by
    intro name
    simp [htoRemove, currentOrder.mem_iff]
  change wp env guard (if toAdd = [] ∧ toRemove = [] then (return false : Call Bool) else _).run post w
  by_cases hnothing : toAdd = [] ∧ toRemove = []
  · rw [if_pos hnothing]
    apply hsame
    ext name
    have hadd := hadd name
    have hremove := hremove name
    rw [hnothing.1] at hadd
    rw [hnothing.2] at hremove
    rw [List.mem_toFinset]
    simp only [List.not_mem_nil, false_iff, not_and, not_not] at hadd hremove
    exact ⟨hadd, hremove⟩
  have hdiffers : desired.toFinset ≠ (w.servers kc.server).scopeNames list realm client := by
    intro hsame
    apply hnothing
    simp only [List.eq_nil_iff_forall_not_mem, hadd, hremove, ← hsame, List.mem_toFinset]
    grind
  rw [if_neg hnothing]
  refine wp_run_bind.mpr ?_
  refine wp_send hassigning.toReading.answering rfl (hreads _ rfl) (fun err h => herrs h err) ?_
  set idsByName := indexFields "name" "id"
    (((w.servers kc.server).resources ⟨.clientScope, realm⟩).items.map Resource.report) with hindex
  have hget : ∀ name, idsByName.get name =
      ((w.servers kc.server).scope realm name).map Resource.id := fun name => Server.get_scopeIds
  have hnames := fun name => @Server.mem_scopeNames (w.servers kc.server) realm client name list
  change wp env guard ((assignScopes kc realm client list idsByName toAdd) >>= fun _ =>
    unassignScopes kc realm client list idsByName toRemove >>= fun _ => (return true : Call Bool)).run
      post w
  refine wp_run_bind.mpr ?_
  apply wp_assignScopes hassigning (fun scope t => hassign hdiffers _ scope t)
  · intro name id hid
    rw [hget] at hid
    obtain ⟨r, hscope, rfl⟩ := Option.map_eq_some_iff.mp hid
    rw [Server.scope_id_eq_some_iff.mpr ⟨(Server.scope_eq_some_iff.mp hscope).1, rfl⟩]
    rfl
  · intro err ids hkeeps
    exact herr (fun hsame => absurd hsame hdiffers) err ids fun _ _ r _ hid => hkeeps r.id hid
  · intro ids₁ hknown hadded
    refine wp_run_bind.mpr ?_
    apply wp_unassignScopes hassigning (fun scope t => hassign hdiffers _ scope t)
    · intro err ids₂ hkeeps
      rw [World.setAssigned_setAssigned]
      refine herr (fun hsame => absurd hsame hdiffers) err ids₂ fun name hname r hscope hid => ?_
      apply hkeeps r.id
      · rw [World.assigned_setAssigned]
        exact (hadded r.id).mpr (.inl hid)
      · -- what is removed has another name
        intro name' hname' hid'
        rw [hget] at hid'
        obtain ⟨r', hscope', hid'⟩ := Option.map_eq_some_iff.mp hid'
        rw [Server.scope_name_unique hscope' hscope hid'] at hname'
        exact ((hremove name).mp hname').2 hname
    · intro ids₂ hremoved
      rw [World.assigned_setAssigned] at hremoved
      rw [World.setAssigned_setAssigned]
      simp only [hget] at hknown hadded hremoved
      exact hdiff ids₂ hdiffers
        (scopesEnforced_of_loops hnames hadd hremove hknown hadded hremoved)

/-- Nothing blocks an assignment, so the assigned names are the desired ones. -/
theorem ScopesEnforced.scopeNames {server server' : Server} {others ids ids' : List String}
    (h : ScopesEnforced (fun _ _ => False) server realm desired others ids ids')
    (hresources : server'.resources = server.resources)
    (hassigned : server'.assigned list realm client = ids') :
    server'.scopeNames list realm client = desired.toFinset := by
  subst hassigned
  ext name
  rw [Server.mem_scopeNames, Server.scope_congr hresources, List.mem_toFinset]
  constructor
  · rintro ⟨r, hr, hid⟩
    exact ((h.mem_iff name r hr).mp hid).1
  · intro hname
    obtain ⟨r, hr⟩ := Option.ne_none_iff_exists'.mp (h.known name hname)
    exact ⟨r, hr, (h.mem_iff name r hr).mpr ⟨hname, .inr not_false⟩⟩

end Enforce

/-! ### Independent lists -/

section Independent

variable {w : World} {kc : Conn} {realm client scope : String} {list : ScopeList}

theorem admin_put_assignment
    (h : ((w.servers kc.server).find ⟨.clientScope, realm⟩ (.id scope)).isSome) :
    w.admin kc ⟨.put, .assignment realm client list scope, .none, .nothing⟩ =
      (.ok (), w.setAssigned kc list realm client
        (if scope ∈ w.assigned kc list realm client then w.assigned kc list realm client
         else w.assigned kc list realm client ++ [scope])) := by
  simp only [World.admin, Server.serve, Endpoint.item, Server.writeSub, if_pos h]
  rfl

theorem admin_delete_assignment :
    w.admin kc ⟨.delete, .assignment realm client list scope, .none, .nothing⟩ =
      (.ok (), w.setAssigned kc list realm client
        ((w.assigned kc list realm client).filter (· ≠ scope))) := rfl

theorem mem_put_assignment {ids : List String} {id : String} :
    id ∈ (if scope ∈ ids then ids else ids ++ [scope]) ↔ id ∈ ids ∨ id = scope := by
  split
  · next hmem =>
    constructor
    · exact .inl
    · rintro (hid | rfl)
      · exact hid
      · exact hmem
  · simp

theorem assigning_faulty : Assigning Faulty True fun _ _ => False where
  toReading := reading_faulty
  iterate := serving_faulty.iterate
  put := by
    intro kc realm client scope list w w' answer hstep hscope
    rcases faulty_admin hstep with ⟨rfl, herr⟩ | ⟨rfl, hanswer⟩
    · exact ⟨_, World.setAssigned_self.symm, fun _ hid => hid, .inl ⟨trivial, herr⟩⟩
    rw [admin_put_assignment hscope] at hanswer ⊢
    refine ⟨_, rfl, fun id hid => mem_put_assignment.mpr (.inl hid), ?_⟩
    rcases hanswer with hok | herr
    · exact .inr ⟨hok, fun id => mem_put_assignment.trans (by simp)⟩
    · exact .inl ⟨trivial, herr⟩
  delete := by
    intro kc realm client scope list w w' answer hstep
    rcases faulty_admin hstep with ⟨rfl, herr⟩ | ⟨rfl, hanswer⟩
    · exact ⟨_, World.setAssigned_self.symm, fun _ hid _ => hid, .inl ⟨trivial, herr⟩⟩
    rw [admin_delete_assignment] at hanswer ⊢
    refine ⟨_, rfl, fun id hid hne => by simp [hid, hne], ?_⟩
    rcases hanswer with hok | herr
    · exact .inr ⟨hok, fun id => by simp⟩
    · exact .inl ⟨trivial, herr⟩

theorem assigning_reliable : Assigning Reliable False fun _ _ => False where
  toReading := reading_reliable
  iterate := serving_reliable.iterate
  put := by
    intro kc realm client scope list w w' answer hstep hscope
    obtain ⟨rfl, rfl⟩ := reliable_admin hstep
    rw [admin_put_assignment hscope]
    exact ⟨_, rfl, fun id hid => mem_put_assignment.mpr (.inl hid),
      .inr ⟨rfl, fun id => mem_put_assignment.trans (by simp)⟩⟩
  delete := by
    intro kc realm client scope list w w' answer hstep
    obtain ⟨rfl, rfl⟩ := reliable_admin hstep
    rw [admin_delete_assignment]
    exact ⟨_, rfl, fun id hid hne => by simp [hid, hne], .inr ⟨rfl, fun id => by simp⟩⟩

theorem faulty_reads {op : Op} {w w' : World} {answer : op.Answer} (hop : op.Reads)
    (h : Faulty op w answer w') : w' = w := by
  rcases op with _ | keys | _ | ⟨kc, request⟩ | _ | _ | _ | _ | ⟨ns, name⟩ | _ | _ | _ | _ | _
  case iterate => exact serving_faulty.iterate h
  case admin => exact (faulty_get hop h).1
  case getSecret =>
    refine faulty_elim h rfl fun _ hstep => ?_
    obtain ⟨order, now, rfl⟩ := reliable_state hstep
    rfl
  all_goals exact hop.elim

/-- A request that assigns a scope or takes one away. -/
def Op.Assigns (op : Op) (kc : Conn) (realm client : String) (list : ScopeList) : Prop :=
  ∃ method scope, op = .admin kc ⟨method, .assignment realm client list scope, .none, .nothing⟩

/-- The request changes the set of assigned scopes. -/
def ChangesScopes (kc : Conn) (realm client : String) (list : ScopeList)
    (step : Step operations World) : Prop :=
  step.op.Assigns kc realm client list ∧
    (step.after.assigned kc list realm client).toFinset ≠
      (step.before.assigned kc list realm client).toFinset

/-- What a call does to the list. -/
theorem wp_scopes_independent {env : Env operations World} {errs : Prop} {desired : List String}
    (hassigning : Assigning env errs fun _ _ => False) (w : World) :
    wp env (fun op _ => op.Reads ∨ op.Assigns kc realm client list)
      (enforceScopeAssignments kc realm client desired list).run
      (fun r t => ∃ ids, t = w.setAssigned kc list realm client ids ∧
        (∀ name ∈ desired, name ∈ (w.servers kc.server).scopeNames list realm client →
          name ∈ (t.servers kc.server).scopeNames list realm client) ∧
        ∀ changed, r = .ok changed →
          (t.servers kc.server).scopeNames list realm client = desired.toFinset ∧
          (changed = true ↔
            desired.toFinset ≠ (w.servers kc.server).scopeNames list realm client)) w := by
  apply wp_enforceScopeAssignments hassigning
  · exact fun op hop => .inl hop
  · exact fun _ method scope t => .inr ⟨method, scope, rfl⟩
  · intro _ err ids hkeeps
    refine ⟨ids, rfl, fun name hname hassigned => ?_, fun _ hok => by cases hok⟩
    obtain ⟨r, hscope, hid⟩ := Server.mem_scopeNames.mp hassigned
    refine Server.mem_scopeNames.mpr ⟨r, ?_, ?_⟩
    · rw [Server.scope_congr World.resources_setAssigned, hscope]
    · change r.id ∈ (w.setAssigned kc list realm client ids).assigned kc list realm client
      rw [World.assigned_setAssigned]
      exact hkeeps name hname r hscope hid
  · intro hsame
    refine ⟨_, World.setAssigned_self.symm, fun _ _ hassigned => hassigned, ?_⟩
    rintro _ ⟨⟩
    exact ⟨hsame.symm, by simp [hsame]⟩
  · intro ids hdiff henforced
    have hnames : ((w.setAssigned kc list realm client ids).servers kc.server).scopeNames list realm
        client = desired.toFinset :=
      henforced.scopeNames World.resources_setAssigned World.assigned_setAssigned
    refine ⟨ids, rfl, fun name hname _ => hnames ▸ List.mem_toFinset.mpr hname, ?_⟩
    rintro _ ⟨⟩
    exact ⟨hnames, by simp [hdiff]⟩

/-- With the desired names assigned there is nothing to do. -/
theorem wp_scopes_idle {env : Env operations World} {errs : Prop} {desired : List String}
    (hassigning : Assigning env errs fun _ _ => False)
    (hsame : (w.servers kc.server).scopeNames list realm client = desired.toFinset) :
    wp env (fun op _ => op.Reads) (enforceScopeAssignments kc realm client desired list).run
      (fun r _ => (∃ err, errs ∧ r = .error err) ∨ r = .ok false) w := by
  apply wp_enforceScopeAssignments hassigning
  · exact fun op hop => hop
  · exact fun hdiff => absurd hsame.symm hdiff
  · exact fun herrs err _ _ => .inl ⟨err, herrs hsame.symm, rfl⟩
  · exact fun _ => .inr rfl
  · exact fun _ hdiff => absurd hsame.symm hdiff

/-- **Exact scope assignments.**  A call that succeeds, whatever the order of the names, leaves
    the desired names assigned and the other list as it was; it reports a change just when one
    of its requests changed the set, and a second call finds nothing to do.  Also a call that
    fails keeps every scope that is desired and assigned. -/
theorem scope_assignments_exact {desired : List String} {w' : World}
    {steps : List (Step operations World)} {result : Except Err Bool}
    (h : Exec Faulty (enforceScopeAssignments kc realm client desired list).run w steps w'
      (some result)) :
    (∀ changed, result = .ok changed →
      (w'.servers kc.server).scopeNames list realm client = desired.toFinset ∧
      (∀ realm' client', w'.assigned kc list.other realm' client' =
        w.assigned kc list.other realm' client') ∧
      (changed = true ↔ ∃ step ∈ steps, ChangesScopes kc realm client list step) ∧
      (∀ steps' w'' again, Exec Faulty (enforceScopeAssignments kc realm client desired list).run w'
          steps' w'' again →
        (∀ step ∈ steps', step.op.Reads) ∧ ∀ changed', again = some (.ok changed') → changed' = false) ∧
      ∀ steps' w'' again, Exec Reliable (enforceScopeAssignments kc realm client desired list).run w'
          steps' w'' (some again) → again = .ok false) ∧
    ∀ name ∈ desired, name ∈ (w.servers kc.server).scopeNames list realm client →
      name ∈ (w'.servers kc.server).scopeNames list realm client := by
  obtain ⟨hsteps, hpost⟩ := wp_sound (wp_scopes_independent assigning_faulty w) h
  obtain ⟨ids, rfl, hkeeps, hok⟩ := hpost result rfl
  refine ⟨?_, hkeeps⟩
  rintro changed rfl
  obtain ⟨hnames, hchanged⟩ := hok changed rfl
  refine ⟨hnames, fun realm' client' => World.assigned_setAssigned_of_ne list.other_ne _ _, ?_, ?_, ?_⟩
  · rw [hchanged]
    constructor
    · intro hdiff
      by_contra hnone
      push Not at hnone
      -- if no request changed the set, then the names are as before
      have hkept : ((w.setAssigned kc list realm client ids).assigned kc list realm client).toFinset =
          (w.assigned kc list realm client).toFinset := by
        apply h.kept (fun t => (t.assigned kc list realm client).toFinset)
        intro step hstep
        by_contra hchanges
        rcases hsteps step hstep with hreads | hassigns
        · apply hchanges
          rw [faulty_reads hreads (h.env_of_mem step hstep)]
        · exact hnone step hstep ⟨hassigns, hchanges⟩
      exact hdiff (hnames.symm.trans (Server.scopeNames_congr World.resources_setAssigned hkept))
    · rintro ⟨step, hstep, hassigns, hchanges⟩ hsame
      have hreads := (wp_sound (wp_scopes_idle assigning_faulty hsame.symm) h).1 step hstep
      rw [faulty_reads hreads (h.env_of_mem step hstep)] at hchanges
      exact hchanges rfl
  · intro steps' w'' again hexec
    obtain ⟨hreads, hagain⟩ := wp_sound (wp_scopes_idle assigning_faulty hnames) hexec
    refine ⟨hreads, ?_⟩
    rintro changed' rfl
    rcases hagain _ rfl with ⟨err, -, herr⟩ | hfalse
    · cases herr
    · exact Except.ok.inj hfalse
  · intro steps' w'' again hexec
    rcases (wp_sound (wp_scopes_idle assigning_reliable hnames) hexec).2 _ rfl with
      ⟨err, hfalse, -⟩ | hidle
    · exact hfalse.elim
    · exact hidle

end Independent

/-- A server with two client scopes, the client `7` and the lists of its scopes. -/
def scopeServer (defaults optionals : List String) : Server :=
  { (∅ : Server) with
    resources := Function.update (fun _ => ∅) ⟨.clientScope, "demo"⟩
      ⟨[⟨"1", .ofList [("name", .str "email")], none⟩, ⟨"2", .ofList [("name", .str "phone")], none⟩],
        by decide, by decide⟩
    assigned := fun list _ _ => match list with
      | .default => defaults
      | .optional => optionals }

def scopeWorld (defaults optionals : List String) : World where
  object := none
  servers := fun _ => scopeServer defaults optionals
  connections := fun _ name => .ok ⟨name, "keycloak"⟩
  secrets := fun _ _ => none

/-- With `phone` assigned and `email` desired twice, the call replaces one by the other. -/
theorem phone_replaced_by_email :
    ∃ steps w', Exec Faulty (enforceScopeAssignments ⟨"main", "keycloak"⟩ "demo" "7"
        ["email", "email"] .default).run (scopeWorld ["2"] []) steps w' (some (.ok true)) ∧
      (w'.servers "keycloak").scopeNames .default "demo" "7" = {"email"} ∧
      ∃ step ∈ steps, ChangesScopes ⟨"main", "keycloak"⟩ "demo" "7" .default step := by
  have hresult : ((enforceScopeAssignments ⟨"main", "keycloak"⟩ "demo" "7" ["email", "email"]
      .default).run.run (World.handle World.sorted 0) (scopeWorld ["2"] [])).1 = .ok true := by
    decide +kernel
  have hexec := (exec_handle (enforceScopeAssignments ⟨"main", "keycloak"⟩ "demo" "7"
    ["email", "email"] .default).run (scopeWorld ["2"] [])).mono faulty_of_reliable
  rw [hresult] at hexec
  obtain ⟨hnames, -, hchanged, -⟩ := (scope_assignments_exact hexec).1 true rfl
  exact ⟨_, _, hexec, hnames, hchanged.mp rfl⟩

end KeycloakOperator
