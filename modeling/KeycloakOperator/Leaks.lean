import KeycloakOperator.Finalizer
import KeycloakOperator.Resumption

/-!
# Resources that outlive their custom resource

Under the deletion policy Delete the finalizer is taken away once the resource that the spec
names is gone from the server.  The spec of that moment says which one: a resource that an
earlier version of the spec made the operator create is forgotten when an edit changes the
connection, the realm or the natural key.  Without such an edit everything that was created
is the resource under the key, as long as the finalizer is there (`World.Accounted`), and so
nothing is left when it goes.
-/

namespace KeycloakOperator

open Prog

/-! ### What the operator has created -/

/-- Every resource that the operator created satisfies `P`. -/
def Server.Created (server : Server) (P : Place → Resource → Prop) : Prop :=
  ∀ place r, r ∈ (server.resources place).items → r.created ≠ none → P place r

def World.Created (w : World) (P : String → Place → Resource → Prop) : Prop :=
  ∀ server, (w.servers server).Created (P server)

/-- No server holds a resource that the operator created. -/
def World.NothingCreated (w : World) : Prop := w.Created fun _ _ _ => False

/-- The resource that the spec names, with an id. -/
structure Spec.Tracks (s : Spec) (kc : Conn) (server : String) (place : Place) (r : Resource) :
    Prop where
  onServer : server = kc.server
  inPlace : place = s.place
  key : r.key place.kind.keyField = some s.naturalKey
  id : r.id ≠ ""

/-- All that the operator created is the resource of the spec. -/
def World.Tracked (w : World) (kc : Conn) (s : Spec) : Prop := w.Created (s.Tracks kc)

theorem World.NothingCreated.tracked {w : World} (h : w.NothingCreated) (kc : Conn) (s : Spec) :
    w.Tracked kc s :=
  fun server place r hr hcreated => (h server place r hr hcreated).elim

/-- The operation creates nothing that violates `P`, and changes nothing so that it does. -/
def Op.Adds (P : String → Place → Resource → Prop) : Op → Prop
  | .admin kc request =>
      request.method = .get ∨ request.method = .delete ∨
        (request.endpoint.item = none ∧ request.endpoint.collection = none) ∨
        (∃ s body, request = ⟨.post, Spec.collectionEndpoint s, .object body, .nothing⟩ ∧
          ∀ id, id ≠ "" → P kc.server s.place ⟨id, body.erase "id", some kc.label⟩) ∨
        (∃ s id body, request = ⟨.put, Spec.itemEndpoint s id, .object body, .nothing⟩ ∧
          ∀ r, P kc.server s.place r → P kc.server s.place (r.overlay body))
  | _ => True

section Created

variable {server : Server} {P : Place → Resource → Prop} {place : Place} {label : String}
  {body : Object} {address : Address}

theorem Server.Created.congr {server' : Server} (h : server.Created P)
    (heq : server'.resources = server.resources) : server'.Created P := by
  intro place r hr hcreated
  rw [heq] at hr
  exact h place r hr hcreated

theorem Server.Created.setResources {c : Collection place.kind.keyField} (h : server.Created P)
    (hc : ∀ r ∈ c.items, r.created ≠ none → P place r) : (server.setResources place c).Created P := by
  intro place' r hr hcreated
  unfold Server.setResources at hr
  by_cases hplace : place' = place
  · subst hplace
    simp only [Function.update_self] at hr
    exact hc r hr hcreated
  · simp only [Function.update_of_ne hplace] at hr
    exact h place' r hr hcreated

theorem Server.Created.delete (h : server.Created P) : (server.delete place address).2.Created P := by
  unfold Server.delete
  split
  · exact h
  · exact h.setResources fun r hr hcreated => h place r (List.mem_filter.mp hr).1 hcreated

theorem Server.Created.create (h : server.Created P)
    (hnew : ∀ id, id ≠ "" → P place ⟨id, body.erase "id", some label⟩) :
    (server.create label place body).2.Created P := by
  unfold Server.create
  split
  · exact h
  rcases hinsert : (server.resources place).insert? body (some label) with _ | c
  · exact h
  refine h.setResources fun r hr hcreated => ?_
  rw [Collection.items_of_ofItems? hinsert, List.mem_append, List.mem_singleton] at hr
  rcases hr with hr | rfl
  · exact h place r hr hcreated
  · exact hnew _ (Collection.freshId_ne_empty _)

theorem Server.Created.put (h : server.Created P)
    (hupdated : ∀ r, P place r → P place (r.overlay body)) :
    (server.put place address body).2.Created P := by
  unfold Server.put
  split
  · exact h
  rcases hoverlay : (server.resources place).overlay? address body with _ | c
  · exact h
  refine h.setResources fun r hr hcreated => ?_
  rw [Collection.items_of_ofItems? hoverlay] at hr
  obtain ⟨r₀, hr₀, rfl⟩ := List.mem_map.mp hr
  by_cases hnamed : address.names place.kind.keyField r₀ = true
  · rw [if_pos hnamed] at hcreated ⊢
    exact hupdated r₀ (h place r₀ hr₀ hcreated)
  · rw [if_neg hnamed] at hcreated ⊢
    exact h place r₀ hr₀ hcreated

end Created

section Step

variable {P : String → Place → Resource → Prop} {w w' : World} {op : Op}

theorem World.Created.congr (h : w.Created P) (heq : w'.servers = w.servers) : w'.Created P := by
  intro server
  rw [heq]
  exact h server

theorem World.Created.setServer {name : String} {server : Server} (h : w.Created P)
    (hserver : server.Created (P name)) : (w.setServer name server).Created P := by
  intro name'
  by_cases hname : name' = name
  · subst hname
    simpa [World.setServer] using hserver
  · simpa [World.setServer, Function.update_of_ne hname] using h name'

theorem reliable_created {answer : op.Answer} (hop : op.Adds P) (h : Reliable op w answer w')
    (hw : w.Created P) : w'.Created P := by
  by_cases hservers : op.LeavesServers
  case pos => exact hw.congr (reliable_servers hservers h)
  rcases op with _ | _ | _ | ⟨kc, request⟩ | _ | _ | _ | _ | _ | _ | _ | _ | _ | _
  case admin =>
    rw [(reliable_admin h).2, World.admin_snd]
    refine hw.setServer ?_
    rcases hop with hget | hdelete | hsub | ⟨s, body, rfl, hnew⟩ | ⟨s, id, body, rfl, hupdated⟩
    · exact absurd hget hservers
    · unfold Server.serve
      rw [hdelete]
      dsimp only
      split
      · exact (hw _).delete
      · exact (hw _).congr (Server.writeSub_resources _ _ _ _)
    · exact (hw _).congr (Server.serve_resources (.inr hsub))
    · unfold Server.serve
      rw [s.collection_collectionEndpoint]
      exact (hw _).create hnew
    · unfold Server.serve
      rw [s.item_itemEndpoint]
      exact (hw _).put hupdated
  all_goals exact absurd trivial hservers

theorem faulty_created {answer : op.Answer} (hop : op.Adds P) (h : Faulty op w answer w')
    (hw : w.Created P) : w'.Created P :=
  faulty_elim h hw fun _ h => reliable_created hop h hw

end Step

/-! ### The custom resource -/

/-- The operation writes no other spec. -/
def Op.KeepsSpec (s : Spec) : Op → Prop
  | .updateObject new => new.spec = s
  | _ => True

/-- The stored custom resource, if there is one, has the spec and the namespace of `obj`, and
    the connections are those of `w`. -/
structure World.Poses (w : World) (obj : ManagedObject) (t : World) : Prop where
  connections : t.connections = w.connections
  spec : ∀ cur, t.object = some cur → cur.spec = obj.spec ∧ cur.ns = obj.ns

section Poses

variable {w t t' : World} {obj : ManagedObject} {op : Op} {answer : op.Answer}

theorem reliable_poses (hop : op.KeepsSpec obj.spec) (h : Reliable op t answer t')
    (ht : w.Poses obj t) : w.Poses obj t' := by
  refine ⟨(reliable_connections h).trans ht.connections, fun cur hcur => ?_⟩
  by_cases hwrites : op.WritesObject
  case neg => exact ht.spec cur ((reliable_object hwrites h).symm.trans hcur)
  obtain ⟨order, now, rfl⟩ := reliable_state h
  rcases hstored : t.object with _ | stored
  · rcases op <;> first | exact hwrites.elim | skip
    all_goals
      simp [World.handle, World.updateObject, World.patchObject, World.patchStatus, hstored] at hcur
  obtain ⟨hspec, hns⟩ := ht.spec stored hstored
  rcases op with _ | _ | _ | _ | _ | new | ⟨base, new⟩ | ⟨base, new⟩ | _ | _ | _ | _ | _ | _
  case updateObject =>
    have hkept : new.spec = obj.spec := hop
    simp only [World.handle, World.updateObject, hstored] at hcur
    split at hcur <;> cases hcur
    exact ⟨hkept, hns⟩
  case patchObject =>
    simp only [World.handle, World.patchObject, hstored] at hcur
    cases hcur
    exact ⟨hspec, hns⟩
  case patchStatus =>
    simp only [World.handle, World.patchStatus, hstored] at hcur
    cases hcur
    exact ⟨hspec, hns⟩
  all_goals exact hwrites.elim

theorem faulty_poses (hop : op.KeepsSpec obj.spec) (h : Faulty op t answer t')
    (ht : w.Poses obj t) : w.Poses obj t' :=
  faulty_elim h ht fun _ h => reliable_poses hop h ht

theorem faulty_finalized (hop : op.SparesFinalizer) (h : Faulty op t answer t')
    (ht : t.Finalized) : t'.Finalized :=
  contended_finalized hop ⟨t, .refl, h⟩ ht

end Poses

/-! ### The account -/

/-- While there is something that the operator created, the finalizer is there and the spec
    names it. -/
structure World.Accounted (w : World) : Prop where
  policy : ∀ obj, w.object = some obj → obj.spec.deletion = .delete
  tracked : w.NothingCreated ∨ ∃ obj kc, w.object = some obj ∧ finalizerName ∈ obj.finalizers ∧
    w.connections obj.ns obj.spec.connectionName = .ok kc ∧ w.Tracked kc obj.spec

/-- An edit that keeps the policy, and the connection, the realm and the key too, unless
    nothing is there that was created. -/
def KeepsAccount (w : World) (spec : Spec) : Prop :=
  spec.deletion = .delete ∧ (KeepsTarget w spec ∨ w.NothingCreated)

theorem Spec.SameTarget.place {s s' : Spec} (h : s.SameTarget s') : s.place = s'.place := by
  unfold Spec.place
  rw [h.kind, h.realm]

theorem UserMove.accounted {w w' : World} (hw : w.Accounted) (hmove : UserMove KeepsAccount w w') :
    w'.Accounted := by
  rcases hmove with ⟨spec, hkind, hpolicy, hkeeps⟩ | now
  · constructor
    · intro obj hobject
      obtain ⟨stored, -, rfl⟩ := Option.map_eq_some_iff.mp hobject
      exact hpolicy
    · rcases hw.tracked with hnothing | ⟨obj, kc, hobject, hfinalizer, hconnection, htracked⟩
      · exact .inl hnothing
      rcases hkeeps with hsame | hnothing
      case inr => exact .inl hnothing
      have hsame : spec.SameTarget obj.spec := hsame obj hobject
      refine .inr ⟨{ obj with spec := spec, generation := obj.generation + 1 }, kc, ?_, hfinalizer,
        ?_, ?_⟩
      · simp [World.edit, hobject]
      · rw [← hconnection]
        exact congrArg (w.connections obj.ns) hsame.connection
      · intro server place r hr hcreated
        obtain ⟨hserver, hplace, hkey, hid⟩ := htracked server place r hr hcreated
        exact ⟨hserver, hplace.trans hsame.place.symm, hkey.trans (congrArg some hsame.key.symm), hid⟩
  · constructor
    · intro obj hobject
      obtain ⟨stored, hstored, hdeleted⟩ := Option.bind_eq_some_iff.mp hobject
      split at hdeleted
      · cases hdeleted
      · cases hdeleted
        exact hw.policy stored hstored
    · rcases hw.tracked with hnothing | ⟨obj, kc, hobject, hfinalizer, hconnection, htracked⟩
      · exact .inl hnothing
      refine .inr ⟨{ obj with deletionTimestamp := obj.deletionTimestamp.or (some now) }, kc, ?_,
        hfinalizer, hconnection, htracked⟩
      simp [World.requestDeletion, hobject, List.ne_nil_of_mem hfinalizer]

/-! ### A pass -/

/-- The states of a pass over `obj` with a connection, as long as the finalizer is there. -/
structure World.Carries (w : World) (kc : Conn) (obj : ManagedObject) (t : World) : Prop where
  poses : w.Poses obj t
  finalized : t.Finalized
  tracked : t.Tracked kc obj.spec

/-- The operation keeps `World.Carries`. -/
structure Op.Orderly (kc : Conn) (obj : ManagedObject) (op : Op) : Prop where
  adds : op.Adds (obj.spec.Tracks kc)
  keepsSpec : op.KeepsSpec obj.spec
  spares : op.SparesFinalizer

/-- Operations that write neither to a server nor to the custom resource. -/
theorem Op.Silent.orderly {op : Op} (h : op.Silent) (kc : Conn) (obj : ManagedObject) :
    op.Orderly kc obj := by
  rcases op <;> rcases h with h | h | h <;>
    first | exact ⟨trivial, trivial, trivial⟩ | exact h.elim | exact ⟨.inl h, trivial, trivial⟩

section Pass

variable {e : Engine} {w t : World} {kc : Conn} {obj : ManagedObject}

theorem flaky_carries {op : Op} {t' : World} {answer : op.Answer} (hop : op.Orderly kc obj)
    (ht : w.Carries kc obj t) (h : Flaky op t answer t') : w.Carries kc obj t' := by
  have hfaulty := faulty_of_flaky _ _ _ _ h
  exact ⟨faulty_poses hop.keepsSpec hfaulty ht.poses, faulty_finalized hop.spares hfaulty ht.finalized,
    faulty_created hop.adds hfaulty ht.tracked⟩

/-- A program of orderly operations. -/
theorem wp_orderly {p : Action α} (h : Only (Op.Orderly kc obj) p) (ht : w.Carries kc obj t) :
    wp Flaky (fun _ u => w.Carries kc obj u) p (fun _ u => w.Carries kc obj u) t := by
  have hkeeps : ∀ (op : Op) (u : World) (answer : op.Answer) (u' : World), op.Orderly kc obj →
      w.Carries kc obj u → Flaky op u answer u' → w.Carries kc obj u' :=
    fun _ _ _ _ hop hu hstep => flaky_carries hop hu hstep
  exact wp_guard_mono (fun _ _ hguard => hguard.2) (wp_of_only _ hkeeps h ht)

/-- The resources of a live pass carry the key of its spec. -/
theorem only_orderly_apply : Only (Op.Orderly kc obj) (e.apply obj.spec.driver kc obj) := by
  apply e.only_apply
  · exact fun _ h => (silent_reads _ h).orderly kc obj
  · exact fun _ h => Op.Silent.orderly (.inr (.inl h)) kc obj
  · exact fun _ h => (silent_remarks _ h).orderly kc obj
  · exact fun _ _ => ⟨trivial, trivial, rfl⟩
  · intro payload hbuilds
    refine ⟨.inr (.inr (.inr (.inl ⟨_, _, rfl, fun id hid => ?_⟩))), trivial, trivial⟩
    refine ⟨rfl, rfl, ?_, hid⟩
    unfold Resource.key stringField
    rw [FiniteMap.get_erase_of_ne _ (Kind.keyField_ne_id _), hbuilds.key]
    rfl
  · intro id remote payload hbuilds
    refine ⟨.inr (.inr (.inr (.inr ⟨_, _, _, rfl, fun r hr => ?_⟩))), trivial, trivial⟩
    refine ⟨rfl, rfl, ?_, hr.id⟩
    unfold Resource.key stringField
    rw [r.get_overlay _ (Kind.keyField_ne_id _), get_mergePayload, hbuilds.key]
    rfl
  · rintro id op ⟨method, endpoint, body, rfl, howns⟩
    exact ⟨.inr (.inr (.inl (Spec.quiet_of_owns howns))), trivial, trivial⟩

theorem only_orderly_delete : Only (Op.Orderly kc obj) (obj.spec.driver.delete kc).run := by
  apply only_delete
  · exact fun _ h => (silent_reads _ h).orderly kc obj
  · exact fun _ => ⟨.inr (.inl rfl), trivial, trivial⟩

/-! ### The deletion -/

/-- After a DELETE nothing is left under the key that the address names. -/
theorem Server.find_delete {server : Server} {place : Place} {address : Address} {key : String}
    (hnames : ∀ r, server.find place (.key key) = some r →
      address.names place.kind.keyField r = true) :
    (server.delete place address).2.find place (.key key) = none := by
  by_contra hleft
  obtain ⟨r, hr⟩ := Option.ne_none_iff_exists'.mp hleft
  unfold Server.delete at hr
  split at hr
  case isTrue habsent =>
    have hfound : server.find place address = some r :=
      Collection.find_eq_some_iff.mpr ⟨(Collection.find_eq_some_iff.mp hr).1, hnames r hr⟩
    simp [hfound] at habsent
  case isFalse =>
    rw [Server.find_setResources, Collection.find_eq_some_iff] at hr
    obtain ⟨hmem, hkey⟩ := hr
    obtain ⟨hmem, hother⟩ := List.mem_filter.mp hmem
    simp [hnames r (Collection.find_eq_some_iff.mpr ⟨hmem, hkey⟩)] at hother

theorem flaky_delete {s : Spec} {id : String} {t' : World} {answer : Except Err Unit}
    (hid : ∀ r, t.target kc s = some r → (s.itemAddress id).names s.place.kind.keyField r = true)
    (h : Flaky (.admin kc ⟨.delete, s.itemEndpoint id, .none, .nothing⟩) t answer t') :
    t'.target kc s = none ∨ ¬ Gone answer := by
  rcases h with h | ⟨⟨err, rfl, hkind⟩, -⟩
  · left
    rw [(reliable_admin h).2, World.admin_snd]
    unfold World.target Server.serve
    rw [s.item_itemEndpoint]
    simpa [World.setServer] using Server.find_delete hid
  · exact .inr hkind.1

/-- When the resource is gone for Delete, then the key is free, or a group without an id
    has it. -/
theorem wp_delete (s : Spec) :
    wp Flaky ⊤ (s.driver.delete kc).run
      (fun answer u => Gone answer → ∀ r, u.target kc s = some r → r.id = "") t := by
  have hsubmit : ∀ id, (∀ r, t.target kc s = some r →
        (s.itemAddress id).names s.place.kind.keyField r = true) →
      wp Flaky ⊤ (kc.submit .delete (s.itemEndpoint id) .none).run
        (fun answer u => Gone answer → ∀ r, u.target kc s = some r → r.id = "") t := by
    intro id hid
    refine ⟨trivial, fun answer t' hstep => ?_⟩
    rcases flaky_delete hid hstep with hnone | hkept
    · intro _ r hr
      cases hnone.symm.trans hr
    · exact fun hgone => absurd hgone hkept
  -- the kinds that are deleted by id look their resource up first
  have hlookup : wp Flaky ⊤ (s.driver.get kc >>= fun remote =>
        assertId remote >>= fun id => kc.submit .delete (s.itemEndpoint id) .none).run
      (fun answer u => Gone answer → ∀ r, u.target kc s = some r → r.id = "") t := by
    refine wp_run_bind.mpr (wp_get orderly_flaky.answering s (fun _ _ => trivial) ?_ ?_ ?_)
    · exact fun err hunrelated hgone => absurd hgone hunrelated.2.1
    · exact fun hnone err _ _ r hr => (hnone r hr).2
    · intro r htarget _
      have hassert : assertId r.report = pure r.id := by
        simp [assertId, stringField]
      dsimp only
      rw [hassert]
      apply hsubmit
      intro r' htarget'
      cases htarget.symm.trans htarget'
      exact names_itemAddress (of_decide_eq_true (Collection.find_eq_some_iff.mp htarget).2)
  have hnamed : ∀ id, s.itemAddress id = .key s.naturalKey →
      ∀ r, t.target kc s = some r → (s.itemAddress id).names s.place.kind.keyField r = true := by
    intro id haddress r htarget
    rw [haddress]
    exact (Collection.find_eq_some_iff.mp htarget).2
  rcases s with s | s | s | s | s | s
  · exact hsubmit "" (hnamed "" rfl)
  · exact hlookup
  · exact hlookup
  · exact hsubmit "" (hnamed "" rfl)
  · exact hsubmit "" (hnamed "" rfl)
  · exact hlookup

/-- What is tracked is gone with the resource of the spec. -/
theorem World.Tracked.nothingCreated {s : Spec} (h : t.Tracked kc s)
    (hgone : ∀ r, t.target kc s = some r → r.id = "") : t.NothingCreated := by
  intro server place r hr hcreated
  obtain ⟨rfl, rfl, hkey, hid⟩ := h server place r hr hcreated
  exact hid (hgone r (Collection.find_eq_some_iff.mpr ⟨hr, decide_eq_true hkey⟩))

/-- The states of a pass over `obj` that began at `w`. -/
structure World.Ongoing (w : World) (obj : ManagedObject) (t : World) : Prop where
  poses : w.Poses obj t
  tracked : t.NothingCreated ∨ ∃ kc, w.connections obj.ns obj.spec.connectionName = .ok kc ∧
    t.Finalized ∧ t.Tracked kc obj.spec

theorem World.Ongoing.accounted (hpolicy : obj.spec.deletion = .delete) (h : w.Ongoing obj t) :
    t.Accounted := by
  constructor
  · intro cur hcur
    rw [(h.poses.spec cur hcur).1]
    exact hpolicy
  · rcases h.tracked with hnothing | ⟨kc, hconnection, ⟨cur, hcur, hfinalizer⟩, htracked⟩
    · exact .inl hnothing
    obtain ⟨hspec, hns⟩ := h.poses.spec cur hcur
    refine .inr ⟨cur, kc, hcur, hfinalizer, ?_, hspec.symm ▸ htracked⟩
    rw [h.poses.connections, hspec, hns]
    exact hconnection

theorem World.Accounted.ongoing (h : w.Accounted) (hobject : w.object = some obj) : w.Ongoing obj w := by
  constructor
  · refine ⟨rfl, fun cur hcur => ?_⟩
    cases hobject.symm.trans hcur
    exact ⟨rfl, rfl⟩
  · rcases h.tracked with hnothing | ⟨cur, kc, hcur, hfinalizer, hconnection, htracked⟩
    · exact .inl hnothing
    · cases hobject.symm.trans hcur
      exact .inr ⟨kc, hconnection, ⟨_, hobject, hfinalizer⟩, htracked⟩

/-- The operation creates nothing and keeps the spec. -/
def Op.Idle (obj : ManagedObject) (op : Op) : Prop :=
  op.Adds (fun _ _ _ => False) ∧ op.KeepsSpec obj.spec

theorem Op.Silent.idle {op : Op} (h : op.Silent) (obj : ManagedObject) : op.Idle obj := by
  rcases op <;> rcases h with h | h | h <;>
    first | exact ⟨trivial, trivial⟩ | exact h.elim | exact ⟨.inl h, trivial⟩

/-- A program that creates nothing, where nothing is created. -/
theorem wp_idle {p : Action α} (h : Only (Op.Idle obj) p) (hposes : w.Poses obj t)
    (hnothing : t.NothingCreated) :
    wp Flaky (fun _ u => w.Ongoing obj u) p (fun _ u => w.Ongoing obj u) t := by
  have hkeeps : ∀ (op : Op) (u : World) (answer : op.Answer) (u' : World), op.Idle obj →
      w.Poses obj u ∧ u.NothingCreated → Flaky op u answer u' →
      w.Poses obj u' ∧ u'.NothingCreated := fun _ _ _ _ hop hu hstep =>
    ⟨faulty_poses hop.2 (faulty_of_flaky _ _ _ _ hstep) hu.1,
      faulty_created hop.1 (faulty_of_flaky _ _ _ _ hstep) hu.2⟩
  exact wp_mono (fun _ u hu => ⟨hu.1, .inl hu.2⟩) (wp_guard_mono (fun _ u hu => ⟨hu.2.1, .inl hu.2.2⟩)
    (wp_of_only _ hkeeps h ⟨hposes, hnothing⟩))

theorem wp_carries {p : Action α} (h : Only (Op.Orderly kc obj) p)
    (hconnection : w.connections obj.ns obj.spec.connectionName = .ok kc)
    (ht : w.Carries kc obj t) :
    wp Flaky (fun _ u => w.Ongoing obj u) p (fun _ u => w.Ongoing obj u) t := by
  have hkeeps : ∀ u, w.Carries kc obj u → w.Ongoing obj u :=
    fun u hu => ⟨hu.poses, .inr ⟨kc, hconnection, hu.finalized, hu.tracked⟩⟩
  exact wp_mono (fun _ u hu => hkeeps u hu) (wp_guard_mono (fun _ u hu => hkeeps u hu)
    (wp_orderly h ht))

theorem wp_silent_ongoing {p : Action α} (h : Only Op.Silent p) (ht : w.Ongoing obj t) :
    wp Flaky (fun _ u => w.Ongoing obj u) p (fun _ u => w.Ongoing obj u) t := by
  rcases ht.tracked with hnothing | ⟨kc, hconnection, hfinalized, htracked⟩
  · exact wp_idle (only_mono (fun _ hop => hop.idle obj) h) ht.poses hnothing
  · exact wp_carries (only_mono (fun _ hop => hop.orderly kc obj) h) hconnection
      ⟨ht.poses, hfinalized, htracked⟩

theorem wp_handleDeletion (hpolicy : obj.spec.deletion = .delete)
    (hconnection : w.connections obj.ns obj.spec.connectionName = .ok kc)
    (ht : w.Carries kc obj t) :
    wp Flaky (fun _ u => w.Ongoing obj u) (e.handleDeletion obj.spec.driver kc obj)
      (fun _ u => w.Ongoing obj u) t := by
  have hkeeps : ∀ u, w.Carries kc obj u → w.Ongoing obj u :=
    fun u hu => ⟨hu.poses, .inr ⟨kc, hconnection, hu.finalized, hu.tracked⟩⟩
  have hremove : ∀ u, w.Carries kc obj u → u.NothingCreated →
      wp Flaky (fun _ u => w.Ongoing obj u)
        (do e.record .normal "Deleted" "Deleted resource on Keycloak server"
            Engine.updateObject (Engine.removeFinalizer obj) 0) (fun _ u => w.Ongoing obj u) u := by
    intro u hu hnothing
    refine wp_idle (only_bind ?_ fun _ => ?_) hu.poses hnothing
    · exact e.only_record (fun _ h => (silent_remarks _ h).idle obj) _ _ _
    · exact Engine.only_updateObject ⟨trivial, rfl⟩ _
  unfold Engine.handleDeletion
  rw [if_pos hpolicy]
  refine wp_bind.mpr (wp_mono ?_ (wp_guard_mono ?_
    (wp_and (wp_orderly only_orderly_delete ht) (wp_delete obj.spec))))
  · rintro answer u ⟨hu, hgone⟩
    rcases answer with err | ⟨⟩
    · dsimp only
      split
      case isTrue => exact hkeeps u hu
      case isFalse hnotFound =>
        exact hremove u hu (hu.tracked.nothingCreated (hgone (not_not.mp hnotFound)))
    · exact hremove u hu (hu.tracked.nothingCreated (hgone trivial))
  · exact fun _ u hu => hkeeps u hu.1

/-! ### Every run -/

/-- Without the finalizer there is nothing, and the pass creates nothing. -/
theorem wp_reconcileWith_unfinalized (hw : w.Ongoing obj w) (hobject : w.object = some obj)
    (hfinalizer : finalizerName ∉ obj.finalizers) :
    wp Flaky (fun _ u => w.Ongoing obj u) (e.reconcileWith obj.spec.driver obj)
      (fun _ u => w.Ongoing obj u) w := by
  have hreports : ∀ op, Op.Remarks op → Op.Idle obj op := fun _ h => (silent_remarks _ h).idle obj
  refine wp_idle (e.only_reconcileWith hreports (fun _ => ⟨trivial, rfl⟩) (fun _ => ⟨trivial, rfl⟩)
    ?_ ?_) hw.poses ?_
  · intro _ _ kc
    exact only_delete (fun _ h => (silent_reads _ h).idle obj) fun _ => ⟨.inr (.inl rfl), trivial⟩
  · exact fun _ hmem => absurd hmem hfinalizer
  · rcases hw.tracked with hnothing | ⟨kc, -, ⟨cur, hcur, hmem⟩, -⟩
    · exact hnothing
    · cases hobject.symm.trans hcur
      exact absurd hmem hfinalizer

theorem wp_reconcileWith_ongoing (hw : w.Ongoing obj w) (hobject : w.object = some obj)
    (hpolicy : obj.spec.deletion = .delete) :
    wp Flaky (fun _ u => w.Ongoing obj u) (e.reconcileWith obj.spec.driver obj)
      (fun _ u => w.Ongoing obj u) w := by
  by_cases hfinalizer : finalizerName ∈ obj.finalizers
  case neg => exact wp_reconcileWith_unfinalized hw hobject hfinalizer
  unfold Engine.reconcileWith
  rw [if_neg (by simp [hpolicy])]
  refine ⟨hw, fun answer t hstep => ?_⟩
  obtain ⟨rfl, hanswer⟩ := faulty_connect (faulty_of_flaky _ _ _ _ hstep)
  rcases answer with unavailable | kc <;> simp only [Prog.bind]
  · refine wp_silent_ongoing (only_bind ?_ fun _ => trivial) hw
    exact Engine.only_setConditions silent_remarks _ _ _ _ _ _
  have hconnection : t.connections obj.ns obj.spec.connectionName = .ok kc := by
    rcases hanswer with hconnected | ⟨err, herr⟩
    · exact hconnected.symm
    · cases herr
  have hcarries : t.Carries kc obj t := by
    refine ⟨hw.poses, ⟨obj, hobject, hfinalizer⟩, ?_⟩
    rcases hw.tracked with hnothing | ⟨kc', hconnection', -, htracked⟩
    · exact hnothing.tracked kc obj.spec
    · cases hconnection.symm.trans hconnection'
      exact htracked
  split
  · exact wp_handleDeletion hpolicy hconnection hcarries
  · exact wp_carries only_orderly_apply hconnection hcarries

theorem wp_pass_accounted (hw : w.Accounted) :
    wp Flaky (fun _ u => u.Accounted) e.controllerReconcile.run (fun _ u => u.Accounted) w := by
  apply wp_controllerReconcile (fun _ _ => faulty_of_flaky _ _ _ _) hw fun _ _ => hw
  intro obj hobject
  have hpolicy := hw.policy obj hobject
  have hongoing := hw.ongoing hobject
  have hpass : wp Flaky (fun _ u => w.Ongoing obj u) (e.reconcile obj)
      (fun _ u => w.Ongoing obj u) w := by
    refine wp_bind.mpr (wp_mono (fun pass u hu => ?_)
      (wp_reconcileWith_ongoing hongoing hobject hpolicy))
    exact wp_silent_ongoing ⟨silent_reports _ trivial, fun _ => trivial⟩ hu
  exact wp_mono (fun _ u hu => hu.accounted hpolicy)
    (wp_guard_mono (fun _ u hu => hu.accounted hpolicy) hpass)

end Pass

/-- A client under policy Delete, which does not exist yet. -/
def doomedPortal (clientId : String) : Spec :=
  .client { keycloakRef := "main", realm := "demo", clientId := clientId
            deletionPolicy := some .delete, fields := ⟨∅, Fields.typed_empty _⟩ }

def emptyDemo : World :=
  .around { clientObject "portal" with spec := doomedPortal "portal" }
    (clientServer ⟨[], by decide, by decide⟩)

theorem emptyDemo_nothingCreated : emptyDemo.NothingCreated := fun _ _ _ hr _ =>
  absurd (Server.mem_setResources_empty hr) List.not_mem_nil

theorem emptyDemo_policy (obj : ManagedObject) (h : emptyDemo.object = some obj) :
    obj.spec.deletion = .delete := by
  cases h
  rfl

/-- A resource that the operator created is among the clients. -/
def World.leaks (w : World) : Bool :=
  ((w.servers "keycloak").resources ⟨.client, "demo"⟩).items.any fun r => r.created.isSome

theorem not_nothingCreated {w : World} (h : w.leaks = true) : ¬ w.NothingCreated := by
  obtain ⟨r, hr, hcreated⟩ := List.any_eq_true.mp h
  intro hnothing
  exact hnothing "keycloak" ⟨.client, "demo"⟩ r hr (Option.ne_none_iff_isSome.mpr hcreated)

end KeycloakOperator
