import KeycloakOperator.GroupRoles
import KeycloakOperator.Variants

/-!
# Servers that refuse requests

A server may refuse what it could answer: the service account lacks a permission, a proxy closes a
path, a body does not pass a check.  `Denials` are the refusals of servers that decide by the
request, so that they refuse the same requests as long as their state is the same.

`World.answer` is the answer to a call in a state.  A call that does not iterate over a map has no
other (`wp_answer`), and neither has one that asks only for what its own writes leave alone
(`Prog.Constant`).
-/

namespace KeycloakOperator

open Prog

/-- The requests that the servers refuse, by the connection, and the error that they answer with.
    A list of roles is refused for the roles in it: a pass submits the same roles in every order of
    map iteration, but it lists them in that order. -/
structure Denials where
  error : String → Method → Endpoint → Body → Option Err
  roles : ∀ label method endpoint {reps reps' : List Object}, roleIds reps = roleIds reps' →
    error label method endpoint (.objects reps) = error label method endpoint (.objects reps')

/-- Servers that answer as usual what they do not refuse. -/
def Denials.serve (d : Denials) : Serve := fun server label method endpoint body =>
  match d.error label method endpoint body with
  | some err => (.failure err, server)
  | none => server.serve label method endpoint body

/-- The state without the custom resource, which no driver looks at. -/
def World.bare (w : World) : World := { w with object := none }

/-- The answer to a call, with maps in lexicographic order. -/
def World.answer (d : Denials) (w : World) (call : Call α) : Except Err α :=
  (call.run.run (World.handleWith d.serve World.sorted 0) w.bare).1

/-- The state after a call, with maps in lexicographic order. -/
def World.after (d : Denials) (w : World) (call : Call α) : World :=
  (call.run.run (World.handleWith d.serve World.sorted 0) w.bare).2

section Answers

variable {d : Denials} {w w' t : World} {kc : Conn} {request : Request} {call : Call α}
  {inv : World → Prop}

theorem Denials.adminWith_of_denied {err : Err}
    (h : d.error kc.label request.method request.endpoint request.body = some err) :
    w.adminWith d.serve kc request = (.error err, w) := by
  simp only [World.adminWith, Denials.serve, h, World.setServer_self]
  rfl

theorem Denials.adminWith_of_admitted
    (h : d.error kc.label request.method request.endpoint request.body = none) :
    w.adminWith d.serve kc request = w.admin kc request := by
  simp only [World.adminWith, World.admin, Denials.serve, h]

/-- A read changes nothing, whether it is refused or not. -/
theorem Denials.serve_get (d : Denials) (server : Server) (label : String) (endpoint : Endpoint)
    (body : Body) : (d.serve server label .get endpoint body).2 = server := by
  unfold Denials.serve
  split <;> rfl

/-- The calls of the drivers that do not depend on the order of a map. -/
def Op.Plain : Op → Prop
  | .admin _ _ => True
  | .getSecret _ _ => True
  | .createSecret _ => True
  | .updateSecret _ => True
  | _ => False

theorem served_bare {op : Op} {answer : op.Answer} (hop : op.Plain)
    (h : Served d.serve op w answer w') :
    World.handleWith d.serve World.sorted 0 op w.bare = (answer, w'.bare) := by
  obtain ⟨order, now, heq⟩ := h
  rcases op with _ | _ | _ | ⟨kc, request⟩ | _ | _ | _ | _ | ⟨ns, name⟩ | secret | secret | _ | _ | _
  case admin | getSecret =>
    obtain ⟨rfl, rfl⟩ := Prod.mk.inj heq
    rfl
  case createSecret =>
    simp only [World.handleWith, World.handle, World.createSecret, World.bare] at heq ⊢
    split at heq <;> obtain ⟨rfl, rfl⟩ := Prod.mk.inj heq <;> rfl
  case updateSecret =>
    simp only [World.handleWith, World.handle, World.updateSecret, World.bare] at heq ⊢
    split at heq <;> obtain ⟨rfl, rfl⟩ := Prod.mk.inj heq <;> rfl
  all_goals exact hop.elim

/-- A call without iterations has one answer and leaves one state. -/
theorem wp_answer (hcall : Only Op.Plain call.run) (ht : t.bare = w.bare) :
    wp (Served d.serve) ⊤ call.run
      (fun r u => r = w.answer d call ∧ u.bare = w.after d call) t := by
  refine wp_mono ?_ (wp_of_run World.bare (fun op s a s' hop hstep => served_bare hop hstep) hcall t)
  intro r u hrun
  rw [ht] at hrun
  unfold World.answer World.after
  rw [hrun]
  exact ⟨rfl, rfl⟩

/-- So has a call with one result, while `inv` holds. -/
theorem Prog.Constant.wp_answer (h : Constant (Served d.serve) inv call.run) (hw : inv w.bare)
    (ht : inv t) : wp (Served d.serve) ⊤ call.run
      (fun r u => r = w.answer d call ∧ inv u) t :=
  h.wp_result hw ⟨_, exec_handleWith d.serve call.run w.bare⟩ ht

/-- Reads of the servers and of Secrets. -/
def Op.Fetches : Op → Prop
  | .admin _ request => request.method = .get
  | .getSecret _ _ => True
  | _ => False

/-- Calls that only read have one result, whatever happens to the custom resource. -/
theorem constant_fetches (h : Only Op.Fetches call.run) :
    Constant (Served d.serve) (fun u => u.bare = w.bare) call.run := by
  refine constant_of_only (fun op hop => ⟨(World.handleWith d.serve World.sorted 0 op w.bare).1,
    fun u answer u' hu hstep => ?_⟩) h
  have hplain : op.Plain := by rcases op <;> first | exact hop.elim | exact trivial
  have hrun := served_bare hplain hstep
  have hsame : (World.handleWith d.serve World.sorted 0 op u.bare).2 = u.bare := by
    rcases op with _ | _ | _ | ⟨kc, request⟩ | _ | _ | _ | _ | _ | _ | _ | _ | _ | _
    case admin =>
      have hget : request.method = .get := hop
      simp only [World.handleWith, World.adminWith, hget, Denials.serve_get, World.setServer_self]
    case getSecret => rfl
    all_goals exact hop.elim
  rw [hu] at hrun hsame
  exact ⟨(congrArg Prod.fst hrun).symm, (congrArg Prod.snd hrun).symm.trans hsame⟩

end Answers

/-! ### What the writes of a pass leave alone -/

/-- The server has the resources and the client roles of `server`, whatever else is written. -/
def KeepsLookups (kc : Conn) (server : Server) (w : World) : Prop :=
  SameButMappings server (w.servers kc.server)

/-- The request leaves resources and client roles alone, and its answer depends on nothing else. -/
def Request.Detached (request : Request) : Prop := ∀ (server server' : Server) (label : String),
  SameButMappings server server' →
    (server'.serve label request.method request.endpoint request.body).1 =
      (server.serve label request.method request.endpoint request.body).1 ∧
    SameButMappings server'
      (server'.serve label request.method request.endpoint request.body).2

theorem detached_lookup {endpoint : Endpoint} (h : endpoint.LooksUp) (out : Out) :
    Request.Detached ⟨.get, endpoint, .none, out⟩ := by
  intro server server' label hsame
  refine ⟨?_, .refl _⟩
  rcases endpoint <;> first
    | exact h.elim
    | simp only [Server.serve, Server.get, Server.find, Endpoint.item, hsame.resources,
        hsame.clientRoles]

theorem detached_clientScopes (realm : String) (out : Out) :
    Request.Detached ⟨.get, .clientScopes realm, .none, out⟩ := by
  intro server server' label hsame
  refine ⟨?_, .refl _⟩
  simp only [Server.serve, Server.get, hsame.resources]

theorem detached_assign (realm client : String) (list : ScopeList) (scope : String) :
    Request.Detached ⟨.put, .assignment realm client list scope, .none, .nothing⟩ := by
  intro server server' label hsame
  have hfind : server'.find ⟨.clientScope, realm⟩ (.id scope) =
      server.find ⟨.clientScope, realm⟩ (.id scope) := by rw [Server.find, hsame.resources]; rfl
  simp only [Server.serve, Endpoint.item, Server.writeSub, hfind]
  split
  · exact ⟨rfl, rfl, rfl⟩
  · exact ⟨rfl, .refl _⟩

theorem detached_unassign (realm client : String) (list : ScopeList) (scope : String) :
    Request.Detached ⟨.delete, .assignment realm client list scope, .none, .nothing⟩ :=
  fun _ _ _ _ => ⟨rfl, rfl, rfl⟩

theorem detached_add (set : RoleSet) (reps : List Object) :
    Request.Detached ⟨.post, set.endpoint, .objects reps, .nothing⟩ := by
  intro server server' label _
  rw [Server.serve_add, Server.serve_add]
  exact ⟨rfl, sameButMappings_setRoles _ _ _⟩

theorem detached_remove (set : RoleSet) (reps : List Object) :
    Request.Detached ⟨.delete, set.endpoint, .objects reps, .nothing⟩ := by
  intro server server' label _
  rw [Server.serve_remove, Server.serve_remove]
  exact ⟨rfl, sameButMappings_setRoles _ _ _⟩

section Lookups

variable {d : Denials} {kc : Conn} {server : Server}

/-- A detached request has one answer. -/
theorem served_detached {request : Request} (h : request.Detached) :
    ∃ answer : Except Err request.out.Value, ∀ (w : World) (a : Except Err request.out.Value) w',
      KeepsLookups kc server w → Served d.serve (.admin kc request) w a w' →
        a = answer ∧ KeepsLookups kc server w' := by
  rcases hdenied : d.error kc.label request.method request.endpoint request.body with _ | err
  · refine ⟨((server.serve kc.label request.method request.endpoint request.body).1).decode
      request.out, fun w a w' hw hstep => ?_⟩
    obtain ⟨rfl, rfl⟩ := served_admin hstep
    obtain ⟨hreply, hsame⟩ := h server (w.servers kc.server) kc.label hw
    rw [Denials.adminWith_of_admitted hdenied]
    unfold KeepsLookups World.admin
    dsimp only
    rw [hreply, World.servers_setServer]
    exact ⟨rfl, hw.trans hsame⟩
  · refine ⟨.error err, fun w a w' hw hstep => ?_⟩
    obtain ⟨rfl, rfl⟩ := served_admin hstep
    rw [Denials.adminWith_of_denied hdenied]
    exact ⟨rfl, hw⟩

theorem constant_send {request : Request} (h : request.Detached) :
    Constant (Served d.serve) (KeepsLookups kc server) (kc.send request).run := by
  obtain ⟨answer, hanswer⟩ := @served_detached d kc server request h
  exact ⟨answer, fun w hw => ⟨trivial, fun a w' hstep => hanswer w a w' hw hstep⟩⟩

/-- Roles that are looked up by name are the same all the time. -/
theorem constant_lookups {call : Call α} (h : Only (Op.LooksUp kc) call.run) :
    Constant (Served d.serve) (KeepsLookups kc server) call.run := by
  refine constant_of_only ?_ h
  rintro op ⟨endpoint, out, hlooks, rfl⟩
  exact served_detached (detached_lookup hlooks out)

/-! ### Differences of role sets -/

/-- A list of roles with these ids. -/
def representing (ids : Finset String) : List Object :=
  (World.sorted ids).list.map fun id => .ofList [("id", .str id)]

theorem roleIds_representing (ids : Finset String) : roleIds (representing ids) = ids := by
  have hid : ∀ id, stringField (.ofList [("id", .str id)]) "id" = some id := fun _ => rfl
  ext id
  simp [mem_roleIds, representing, (World.sorted ids).mem_iff, hid]

/-- The answer to the submission of the roles with these ids. -/
def Denials.submitted (d : Denials) (kc : Conn) (method : Method) (set : RoleSet)
    (ids : Finset String) : Except Err Unit :=
  match (if ids = ∅ then none
    else d.error kc.label method set.endpoint (.objects (representing ids))) with
  | some err => .error err
  | none => .ok ()

theorem wp_submitRoles {method : Method} {set : RoleSet} {w : World} {roles : List Object}
    (hdetached : Request.Detached ⟨method, set.endpoint, .objects roles, .nothing⟩)
    (hdone : ∀ server label, ((server : Server).serve label method set.endpoint (.objects roles)).1 =
      .done) (hidentified : Identified roles) (hw : KeepsLookups kc server w) :
    wp (Served d.serve) ⊤
      (submitRoles (fun roles => kc.submit method set.endpoint (.objects roles)) roles).run
      (fun r t => r = d.submitted kc method set (roleIds roles) ∧ KeepsLookups kc server t) w := by
  unfold submitRoles Denials.submitted
  by_cases hnil : roles = []
  · subst hnil
    exact ⟨rfl, hw⟩
  rw [if_neg hnil, if_neg (mt hidentified.eq_nil hnil),
    d.roles kc.label method set.endpoint (roleIds_representing (roleIds roles))]
  refine ⟨trivial, fun answer t hstep => ?_⟩
  obtain ⟨_, hkept⟩ := @served_detached d kc server _ hdetached
  refine ⟨?_, (hkept w answer t hw hstep).2⟩
  obtain ⟨rfl, -⟩ := served_admin hstep
  rcases hdenied : d.error kc.label method set.endpoint (.objects roles) with _ | err
  · rw [Denials.adminWith_of_admitted hdenied]
    unfold World.admin
    dsimp only
    rw [hdone]
    rfl
  · rw [Denials.adminWith_of_denied hdenied]

/-- The answer to a comparison of role sets, by the ids of the roles. -/
def Denials.compared (d : Denials) (kc : Conn) (set : RoleSet) (desired current : Finset String) :
    Except Err Bool := do
  if desired = current then
    return false
  else
    d.submitted kc .post set (desired \ current)
    d.submitted kc .delete set (current \ desired)
    return true

theorem wp_applyRoleDiff_compared (set : RoleSet) (desired current : List Object) {w : World}
    (hw : KeepsLookups kc server w) :
    wp (Served d.serve) ⊤
      (applyRoleDiff desired current (set.add kc) (set.remove kc)).run (fun r t =>
        r = d.compared kc set (roleIds desired) (roleIds current) ∧ KeepsLookups kc server t) w := by
  have honlyIn : ∀ {left right : List Object} {post : List Object → World → Prop},
      (∀ found, roleIds found = roleIds left \ roleIds right → Identified found → post found w) →
      wp (Served d.serve) ⊤ (onlyIn (indexById left) (indexById right)) post w := by
    intro left right post h
    have hstays : wp (Served d.serve) ⊤ (onlyIn (indexById left) (indexById right))
        (fun _ t => t = w) w :=
      wp_bind.mpr ⟨trivial, fun order t hstep => served_iterate hstep⟩
    refine wp_mono ?_ (wp_yields (yields_onlyIn_ids left right) hstays)
    rintro found t ⟨⟨hids, hidentified, -⟩, rfl⟩
    exact h found hids hidentified
  refine wp_run_bind.mpr
    (wp_run_lift.mpr (honlyIn fun toAdd hadd hidentified => ?_))
  refine wp_run_bind.mpr
    (wp_run_lift.mpr (honlyIn fun toRemove hremove hidentified' => ?_))
  have hnothing : toAdd = [] ∧ toRemove = [] ↔ roleIds desired = roleIds current := by
    constructor
    · rintro ⟨rfl, rfl⟩
      exact Finset.Subset.antisymm (Finset.sdiff_eq_empty_iff_subset.mp hadd.symm)
        (Finset.sdiff_eq_empty_iff_subset.mp hremove.symm)
    · intro hsame
      rw [hsame, sdiff_self] at hadd
      rw [hsame, sdiff_self] at hremove
      exact ⟨hidentified.eq_nil hadd, hidentified'.eq_nil hremove⟩
  dsimp only
  unfold Denials.compared
  by_cases hsame : roleIds desired = roleIds current
  · rw [if_pos (hnothing.mpr hsame), if_pos hsame]
    exact ⟨rfl, hw⟩
  rw [if_neg (mt hnothing.mp hsame), if_neg hsame, ← hadd, ← hremove]
  have hposted := wp_submitRoles (d := d) (detached_add set toAdd)
    (fun server label => by rw [Server.serve_add]) hidentified hw
  refine wp_run_bind.mpr (wp_mono ?_ hposted)
  rintro (err | _) t ⟨hr, ht⟩ <;> rw [← hr]
  · exact ⟨rfl, ht⟩
  have hdeleted := wp_submitRoles (d := d) (detached_remove set toRemove)
    (fun server label => by rw [Server.serve_remove]) hidentified' ht
  refine wp_run_bind.mpr (wp_mono ?_ hdeleted)
  rintro (err | _) u ⟨hr', hu⟩ <;> rw [← hr'] <;> exact ⟨rfl, hu⟩

theorem constant_applyRoleDiff (set : RoleSet) (desired current : List Object) :
    Constant (Served d.serve) (KeepsLookups kc server)
      (applyRoleDiff desired current (set.add kc) (set.remove kc)).run :=
  ⟨_, fun _ hw => wp_applyRoleDiff_compared set desired current hw⟩

end Lookups

end KeycloakOperator
