import KeycloakOperator.ScopeAssignments
import KeycloakOperator.Variants

/-!
# Scopes that change sides

On some servers a client scope is in at most one of the two lists of a client, and assigning a
scope that is in either of them is ignored.  `PostApply` of a client enforces the default list
before the optional one, and adds before it removes.  A scope that moves from default to
optional has been removed when it is assigned again; one that moves the other way has not.
-/

namespace KeycloakOperator

open Prog

/-! ### Exclusive lists -/

/-- A server that ignores the assignment of a scope that is in one of the two lists already. -/
def Server.serveExclusive (s : Server) (label : String) (method : Method) (endpoint : Endpoint)
    (body : Body) : Reply × Server :=
  match method, endpoint with
  | .put, .assignment realm client list scope =>
      if scope ∈ s.assigned list realm client ∨ scope ∈ s.assigned list.other realm client then
        (.done, s)
      else s.serve label .put (.assignment realm client list scope) body
  | method, endpoint => s.serve label method endpoint body

/-- Every call succeeds, in every order of map iteration. -/
abbrev Exclusive : Env operations World := Served Server.serveExclusive

/-- No scope is in both lists of the client. -/
def World.ScopesExclusive (w : World) (kc : Conn) (realm client : String) : Prop :=
  ∀ id ∈ w.assigned kc .default realm client, id ∉ w.assigned kc .optional realm client

theorem serveExclusive_of_ne {method : Method} (hmethod : method ≠ .put) (server : Server)
    (label : String) (endpoint : Endpoint) (body : Body) :
    server.serveExclusive label method endpoint body = server.serve label method endpoint body := by
  rcases method
  case put => exact absurd rfl hmethod
  all_goals rfl

theorem assigning_exclusive : Assigning Exclusive False fun others scope => scope ∈ others where
  toReading := reading_served (serveExclusive_of_ne (by decide))
  iterate := served_iterate
  put := by
    intro kc realm client scope list w w' answer hstep hscope
    by_cases hassigned : scope ∈ w.assigned kc list realm client ∨
        scope ∈ w.assigned kc list.other realm client
    · -- the request is ignored
      have hserve : (w.servers kc.server).serveExclusive kc.label .put
          (.assignment realm client list scope) .none = (.done, w.servers kc.server) :=
        if_pos hassigned
      obtain ⟨hanswer, hafter⟩ := served_admin hstep
      simp only [World.adminWith, hserve, World.setServer_self] at hanswer hafter
      refine ⟨_, hafter.trans World.setAssigned_self.symm, fun _ hid => hid,
        .inr ⟨hanswer, fun id => ?_⟩⟩
      constructor
      · exact .inl
      · rintro (hid | ⟨rfl, hfree⟩)
        · exact hid
        · exact hassigned.resolve_right hfree
    · obtain ⟨ids, hafter, hkeeps, ⟨hfalse, -⟩ | ⟨hok, hids⟩⟩ :=
        assigning_reliable.put (served_reliable (if_neg hassigned) hstep) hscope
      · exact hfalse.elim
      · refine ⟨ids, hafter, hkeeps, .inr ⟨hok, fun id => ?_⟩⟩
        rw [hids, and_iff_left not_false, and_iff_left fun hmem => hassigned (.inr hmem)]
  delete := fun h => assigning_reliable.delete (served_reliable rfl h)

/-! ### Both lists -/

section Lists

variable {server : Server} {realm client : String} {defaults optionals : List String}
  {before after before' after' : List String}

/-- The default list is enforced first, against the optional list as it was; the optional list
    against the default list that came out of this. -/
theorem scopes_exact_iff
    (hdefault : ScopesEnforced (fun others scope => scope ∈ others) server realm defaults
      before' before after)
    (hoptional : ScopesEnforced (fun others scope => scope ∈ others) server realm optionals
      after before' after')
    (hdisjoint : ∀ name ∈ defaults, name ∉ optionals) (hexclusive : ∀ id ∈ before, id ∉ before') :
    ((∀ name, (∃ r, server.scope realm name = some r ∧ r.id ∈ after) ↔ name ∈ defaults) ∧
      ∀ name, (∃ r, server.scope realm name = some r ∧ r.id ∈ after') ↔ name ∈ optionals) ↔
      ∀ name ∈ defaults, ∀ r, server.scope realm name = some r → r.id ∉ before' := by
  constructor
  · rintro ⟨hexact, -⟩ name hname r hscope hmoved
    obtain ⟨r', hscope', hid⟩ := (hexact name).mpr hname
    cases hscope.symm.trans hscope'
    rcases ((hdefault.mem_iff name r hscope).mp hid).2 with hbefore | hfree
    · exact hexclusive r.id hbefore hmoved
    · exact hfree hmoved
  · intro hstays
    refine ⟨fun name => ⟨?_, fun hname => ?_⟩, fun name => ⟨?_, fun hname => ?_⟩⟩
    · rintro ⟨r, hscope, hid⟩
      exact ((hdefault.mem_iff name r hscope).mp hid).1
    · obtain ⟨r, hscope⟩ := Option.ne_none_iff_exists'.mp (hdefault.known name hname)
      exact ⟨r, hscope, (hdefault.mem_iff name r hscope).mpr ⟨hname, .inr (hstays name hname r hscope)⟩⟩
    · rintro ⟨r, hscope, hid⟩
      exact ((hoptional.mem_iff name r hscope).mp hid).1
    · obtain ⟨r, hscope⟩ := Option.ne_none_iff_exists'.mp (hoptional.known name hname)
      refine ⟨r, hscope, (hoptional.mem_iff name r hscope).mpr ⟨hname, .inr fun hid => ?_⟩⟩
      exact hdisjoint name ((hdefault.mem_iff name r hscope).mp hid).1 hname

end Lists

section Apply

variable {w : World} {kc : Conn} {realm client : String} {list : ScopeList} {desired : List String}

/-- A list that is as desired counts as enforced. -/
theorem scopesEnforced_same {blocks : List String → String → Prop} {others : List String}
    (h : desired.toFinset = (w.servers kc.server).scopeNames list realm client) :
    ScopesEnforced blocks (w.servers kc.server) realm desired others
      (w.assigned kc list realm client) (w.assigned kc list realm client) := by
  have hmem : ∀ name, name ∈ desired ↔ ∃ r, (w.servers kc.server).scope realm name = some r ∧
      r.id ∈ w.assigned kc list realm client := by
    intro name
    rw [← List.mem_toFinset, h]
    exact Server.mem_scopeNames
  constructor
  · intro name hname hnone
    obtain ⟨r, hscope, -⟩ := (hmem name).mp hname
    cases hnone.symm.trans hscope
  · intro name r hscope
    constructor
    · exact fun hid => ⟨(hmem name).mpr ⟨r, hscope, hid⟩, .inl hid⟩
    · rintro ⟨hname, -⟩
      obtain ⟨r', hscope', hid⟩ := (hmem name).mp hname
      cases hscope.symm.trans hscope'
      exact hid

/-- A call leaves the list enforced, whether or not it had something to do. -/
theorem wp_scopes_exclusive {post : Except Err Bool → World → Prop}
    (herr : ∀ err t, post (.error err) t)
    (h : ∀ changed ids, ScopesEnforced (fun others scope => scope ∈ others) (w.servers kc.server) realm
        desired (w.assigned kc list.other realm client) (w.assigned kc list realm client) ids →
      post (.ok changed) (w.setAssigned kc list realm client ids)) :
    wp Exclusive ⊤ (enforceScopeAssignments kc realm client desired list).run post w := by
  apply wp_enforceScopeAssignments assigning_exclusive
  · exact fun _ _ => trivial
  · exact fun _ _ _ _ => trivial
  · exact fun _ err _ _ => herr err _
  · intro hsame
    have hkept := h false _ (scopesEnforced_same hsame)
    rwa [World.setAssigned_self] at hkept
  · exact fun ids _ henforced => h true ids henforced

/-- What is enforced depends on the scopes of the realm only. -/
theorem ScopesEnforced.congr {blocks : List String → String → Prop} {server server' : Server}
    {others ids ids' : List String} (h : ScopesEnforced blocks server' realm desired others ids ids')
    (hresources : server'.resources = server.resources) :
    ScopesEnforced blocks server realm desired others ids ids' := by
  constructor
  · intro name hname
    rw [← Server.scope_congr hresources]
    exact h.known name hname
  · intro name r hscope
    rw [← Server.scope_congr hresources] at hscope
    exact h.mem_iff name r hscope

theorem wp_exportSecret {s : ClientSpec} {obj : ManagedObject} {id : String}
    {post : Except Err Bool → World → Prop} (h : ∀ r t, t.servers = w.servers → post r t) :
    wp Exclusive ⊤ (s.exportSecret kc obj id).run post w := by
  have honly : Only (fun op : Op => op.Reads ∨ op.WritesSecret) (s.exportSecret kc obj id).run :=
    compositional_only.has_exportSecret (fun _ h => .inl h) (fun _ _ => .inl trivial) (fun _ _ => .inr) obj
  have hkeep : ∀ (op : Op) (t : World) (answer : op.Answer) (t' : World), op.Reads ∨ op.WritesSecret →
      t.servers = w.servers → Exclusive op t answer t' → t'.servers = w.servers :=
    fun op t answer t' hop ht hstep =>
      (served_servers (fun _ _ _ _ => by
        rw [serveExclusive_of_ne (by decide)]
        rfl) hop hstep).trans ht
  have hkept := wp_of_only (fun t : World => t.servers = w.servers) hkeep honly rfl
  exact wp_guard_mono (fun _ _ _ => trivial) (wp_mono h hkept)

end Apply

/-- **Moving scopes between the lists.**  After a `PostApply` that returns without an error both
    lists are as desired exactly if no scope that is to become a default one was optional. -/
theorem scope_lists_exact_iff {s : ClientSpec} {kc : Conn} {obj obj' : ManagedObject}
    {remote : Object} {defaults optionals : List String} {w w' : World}
    {steps : List (Step operations World)} {changed : Bool}
    (hdefaults : s.defaultClientScopes = some defaults)
    (hoptionals : s.optionalClientScopes = some optionals)
    (hdisjoint : ∀ name ∈ defaults, name ∉ optionals)
    (hexclusive : w.ScopesExclusive kc s.realm (remoteId remote))
    (h : Exec Exclusive (s.postApply kc obj remote) w steps w' (some (obj', .ok changed))) :
    ((w'.servers kc.server).scopeNames .default s.realm (remoteId remote) = defaults.toFinset ∧
      (w'.servers kc.server).scopeNames .optional s.realm (remoteId remote) = optionals.toFinset) ↔
      ∀ name ∈ defaults,
        name ∉ (w.servers kc.server).scopeNames .optional s.realm (remoteId remote) := by
  have hwp : wp Exclusive ⊤ (s.postApply kc obj remote) (fun r t =>
      ∀ changed, r.2 = .ok changed → ∃ after after',
        ScopesEnforced (fun others scope => scope ∈ others) (w.servers kc.server) s.realm defaults
          (w.assigned kc .optional s.realm (remoteId remote))
          (w.assigned kc .default s.realm (remoteId remote)) after ∧
        ScopesEnforced (fun others scope => scope ∈ others) (w.servers kc.server) s.realm optionals
          after (w.assigned kc .optional s.realm (remoteId remote)) after' ∧
        t.servers kc.server = ((w.servers kc.server).setAssigned .default s.realm (remoteId remote)
          after).setAssigned .optional s.realm (remoteId remote) after') w := by
    unfold ClientSpec.postApply requireId
    by_cases hid : remoteId remote = ""
    · simp only [if_pos hid]
      exact fun _ herr => by cases herr
    simp only [if_neg hid]
    refine wp_bind.mpr (wp_exportSecret fun exported t ht => ?_)
    rcases exported with err | exported
    · exact fun _ herr => by cases herr
    refine wp_bind.mpr (wp_run_bind.mpr ?_)
    rw [hdefaults, hoptionals]
    refine wp_scopes_exclusive (fun err _ _ herr => by cases herr) fun _ after hdefault => ?_
    refine wp_run_bind.mpr ?_
    refine wp_scopes_exclusive (fun err _ _ herr => by cases herr) fun _ after' hoptional => ?_
    intro changed _
    have hothers : (t.setAssigned kc .default s.realm (remoteId remote) after).assigned kc
        ScopeList.optional.other s.realm (remoteId remote) = after := World.assigned_setAssigned
    have hown : (t.setAssigned kc .default s.realm (remoteId remote) after).assigned kc .optional
        s.realm (remoteId remote) = t.assigned kc .optional s.realm (remoteId remote) :=
      World.assigned_setAssigned_of_ne (by decide) _ _
    rw [hothers, hown] at hoptional
    have hsecond := hoptional.congr World.resources_setAssigned
    simp only [World.assigned, ht] at hdefault hsecond
    refine ⟨after, after', hdefault, hsecond, ?_⟩
    simp only [World.setAssigned, World.servers_setServer, ht]
  obtain ⟨after, after', hdefault, hoptional, hserver⟩ := (wp_sound hwp h).2 _ rfl changed rfl
  have hresources : (w'.servers kc.server).resources = (w.servers kc.server).resources := by
    rw [hserver]
    rfl
  have hafter : (w'.servers kc.server).assigned .default s.realm (remoteId remote) = after := by
    simp [hserver, Server.setAssigned]
  have hafter' : (w'.servers kc.server).assigned .optional s.realm (remoteId remote) = after' := by
    simp [hserver, Server.setAssigned]
  simp only [Finset.ext_iff, Server.mem_scopeNames, List.mem_toFinset, Server.scope_congr hresources,
    hafter, hafter', not_exists, not_and]
  exact scopes_exact_iff hdefault hoptional hdisjoint hexclusive

/-- A client with both lists. -/
def scopedClient (defaults optionals : List String) : ClientSpec where
  keycloakRef := "main"
  realm := "demo"
  clientId := "portal"
  defaultClientScopes := some defaults
  optionalClientScopes := some optionals
  fields := ⟨∅, Fields.typed_empty _⟩

def scopedObject (defaults optionals : List String) : ManagedObject where
  ns := "apps"
  name := "portal"
  uid := "uid-8"
  generation := 1
  finalizers := [finalizerName]
  spec := .client (scopedClient defaults optionals)

/-- `PostApply` for the client `7`. -/
def applyScopes (defaults optionals : List String) : Action (ManagedObject × Except Err Bool) :=
  (scopedClient defaults optionals).postApply ⟨"main", "keycloak"⟩ (scopedObject defaults optionals)
    (.ofList [("id", .str "7")])

/-- The scope `email` moves from default to optional. -/
theorem email_made_optional :
    ∃ steps w' obj' changed, Exec Exclusive (applyScopes [] ["email"]) (scopeWorld ["1"] []) steps w'
        (some (obj', .ok changed)) ∧
      (w'.servers "keycloak").scopeNames .default "demo" "7" = ∅ ∧
      (w'.servers "keycloak").scopeNames .optional "demo" "7" = {"email"} := by
  have hresult : ((applyScopes [] ["email"]).run (World.handleWith Server.serveExclusive World.sorted 0)
      (scopeWorld ["1"] [])).1 = (scopedObject [] ["email"], .ok true) := by decide +kernel
  have hexec := exec_handleWith Server.serveExclusive (applyScopes [] ["email"]) (scopeWorld ["1"] [])
  rw [hresult] at hexec
  have hdisjoint : ∀ name ∈ ([] : List String), name ∉ ["email"] := by simp
  have hexclusive : (scopeWorld ["1"] []).ScopesExclusive ⟨"main", "keycloak"⟩ "demo" "7" := by
    unfold World.ScopesExclusive
    decide
  have hstays : ∀ name ∈ ([] : List String), name ∉
      ((scopeWorld ["1"] []).servers "keycloak").scopeNames .optional "demo" "7" := by simp
  exact ⟨_, _, _, _, hexec,
    (scope_lists_exact_iff rfl rfl hdisjoint hexclusive hexec).mpr hstays⟩

/-- The scope `email` is to move from optional to default.  Its assignment is ignored, and then
    it is removed: `PostApply` succeeds and neither list has it. -/
theorem email_lost_on_the_way :
    (scopeWorld [] ["1"]).ScopesExclusive ⟨"main", "keycloak"⟩ "demo" "7" ∧
      ∃ steps w' obj' changed, Exec Exclusive (applyScopes ["email"] []) (scopeWorld [] ["1"]) steps w'
          (some (obj', .ok changed)) ∧
        (w'.servers "keycloak").scopeNames .default "demo" "7" = ∅ ∧
        (w'.servers "keycloak").scopeNames .optional "demo" "7" = ∅ := by
  have hresult : ((applyScopes ["email"] []).run (World.handleWith Server.serveExclusive World.sorted 0)
      (scopeWorld [] ["1"])).1 = (scopedObject ["email"] [], .ok true) := by decide +kernel
  have hexec := exec_handleWith Server.serveExclusive (applyScopes ["email"] []) (scopeWorld [] ["1"])
  rw [hresult] at hexec
  refine ⟨?_, _, _, _, _, hexec, by decide +kernel, by decide +kernel⟩
  unfold World.ScopesExclusive
  decide

end KeycloakOperator
