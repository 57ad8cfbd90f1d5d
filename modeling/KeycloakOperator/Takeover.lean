import KeycloakOperator.Phases

/-!
# Foreign resources under CreateOnly

Under the policy CreateOnly a live pass works on an existing resource when it carries the
marker or when the custom resource carries a last-applied annotation.  The annotation
says nothing about the key it was recorded for, so an edit of the connection or of the
natural key can make it vouch for somebody else's resource.  Without such an edit every
update and every write below a resource is to one that is marked or that the operator
created.
-/

namespace KeycloakOperator

open Prog

/-- The resource carries the marker, or was created through the connection. -/
def Ours (label : String) (kind : Kind) (r : Resource) : Prop :=
  kind.marked r.report = true ∨ r.created = some label

instance (label : String) (kind : Kind) (r : Resource) : Decidable (Ours label kind r) :=
  inferInstanceAs (Decidable (_ ∨ _))

/-- The resource that a write to the endpoint changes, in its representation or
    below it. -/
def Endpoint.owner : Endpoint → Option (Place × Address)
  | .assignment r c _ _ => some (⟨.client, r⟩, .id c)
  | .composites r name => some (⟨.realmRole, r⟩, .key name)
  | .mappers r idpAlias => some (⟨.identityProvider, r⟩, .key idpAlias)
  | .mapper r idpAlias _ => some (⟨.identityProvider, r⟩, .key idpAlias)
  | .realmRoleMappings r g => some (⟨.group, r⟩, .id g)
  | .clientRoleMappings r g _ => some (⟨.group, r⟩, .id g)
  | endpoint => endpoint.item

namespace Spec

theorem place_kind (s : Spec) : s.place.kind = s.kind := by
  cases s <;> rfl

theorem owner_itemEndpoint (s : Spec) (id : String) :
    (s.itemEndpoint id).owner = some (s.place, s.itemAddress id) := by
  cases s <;> rfl

theorem owner_collectionEndpoint (s : Spec) : s.collectionEndpoint.owner = none := by
  cases s <;> rfl

theorem owner_of_owns {s : Spec} {id : String} {endpoint : Endpoint} (h : s.Owns id endpoint) :
    endpoint.owner = some (s.place, s.itemAddress id) := by
  rcases endpoint with _ | _ | _ | _ | _ | _ | _ | _ | _ | _ | _ | _ | _ | _ | _ | _ | _ | _ | _ | _ |
    _ | _ | _ | _
  all_goals
    first
    | exact h.elim
    | (obtain ⟨hkind, rfl, rfl⟩ := h
       cases s <;> first | rfl | cases hkind)

end Spec

/-! ### The marker survives updates -/

theorem Kind.marked_congr (kind : Kind) {a b : Object} (h : a.get "attributes" = b.get "attributes") :
    kind.marked a = kind.marked b := by
  cases kind <;>
    simp only [Kind.marked, managedByStringAttribute, managedBySliceAttribute, mapField_congr h]

theorem managedByStringAttribute_stamp (p : Object) :
    managedByStringAttribute (stampStringAttribute p managedAnnotationKey managedValue) = true := by
  simp [managedByStringAttribute, stampStringAttribute, mapField, stringField]

theorem managedBySliceAttribute_stamp (p : Object) :
    managedBySliceAttribute (stampSliceAttribute p managedAnnotationKey managedValue) = true := by
  have hattributes : mapField (stampSliceAttribute p managedAnnotationKey managedValue)
      "attributes" = (mapField p "attributes").put managedAnnotationKey (.ofList
        ((((mapField p "attributes").get managedAnnotationKey).bind JSON.asList).getD [] ++
          [.str managedValue])) := by
    conv_lhs => unfold mapField stampSliceAttribute
    simp
  unfold managedBySliceAttribute
  rw [hattributes]
  simp

/-- Every body that is built for a kind with a marker carries it. -/
theorem ManagedObject.Builds.marked {obj : ManagedObject} {payload : Object}
    (h : obj.Builds payload) (hkind : obj.spec.kind ≠ .identityProvider) :
    obj.spec.kind.marked payload = true := by
  obtain ⟨effective, inj, -, hinj, rfl⟩ := h
  rw [← managedMarker_inject hinj]
  generalize applyAll inj.rewrite.toList effective = p
  rcases hspec : obj.spec with s | s | s | s | s | s
  · exact managedByStringAttribute_stamp p
  · exact managedByStringAttribute_stamp p
  · exact managedByStringAttribute_stamp p
  · exact managedBySliceAttribute_stamp p
  · exact absurd (congrArg Spec.kind hspec) hkind
  · exact managedBySliceAttribute_stamp p

theorem Kind.marked_of_attributes_null {kind : Kind} {rep : Object}
    (h : rep.get "attributes" = some .null) : kind.marked rep = false := by
  cases kind <;> simp [Kind.marked, managedByStringAttribute, managedBySliceAttribute, mapField,
    stringField, JSON.asObject, h]

theorem ManagedObject.Builds.marked_overlay {obj : ManagedObject} {payload : Object}
    (h : obj.Builds payload) (hkind : obj.spec.kind ≠ .identityProvider) (r : Resource) :
    obj.spec.kind.marked (r.overlay (mergePayload r.report payload)).report = true := by
  have hmarked := h.marked hkind
  rw [← hmarked]
  refine Kind.marked_congr _ ?_
  rw [Resource.get_report_of_ne _ (by decide), r.get_overlay _ (by decide), get_mergePayload]
  rcases hattributes : payload.get "attributes" with _ | v
  · rw [Kind.marked_of_attributes_none hattributes] at hmarked
    cases hmarked
  · rcases v
    case null =>
      rw [Kind.marked_of_attributes_null hattributes] at hmarked
      cases hmarked
    all_goals rfl

/-! ### Ownership through a pass -/

section Pass

variable {label : String} {obj : ManagedObject} {before : Option Resource} {r : Resource}

/-- What CreateOnly admits is ours, as long as the annotation does not vouch for a
    foreign resource. -/
theorem ManagedObject.Admits.ours (hadmits : obj.Admits r)
    (hpolicy : obj.spec.adoption = .createOnly)
    (hclaim : obj.lastApplied ≠ .empty → Ours label obj.spec.kind r) :
    Ours label obj.spec.kind r := by
  obtain ⟨-, hmanaged | hadopt⟩ := hadmits
  · unfold Engine.managed at hmanaged
    rw [Bool.or_eq_true, driver_isManaged] at hmanaged
    rcases hmanaged with hmarked | hrecorded
    · exact .inl hmarked
    · exact hclaim (of_decide_eq_true hrecorded)
  · rw [hpolicy] at hadopt
    cases hadopt

theorem Stored.ours (h : Stored label obj before r) (hpolicy : obj.spec.adoption = .createOnly)
    (hclaim : ∀ r, before = some r → obj.lastApplied ≠ .empty → Ours label obj.spec.kind r) :
    Ours label obj.spec.kind r := by
  obtain ⟨hadmits, payload, hbuilds, haccepted | ⟨hbefore, -⟩⟩ := h
  · rcases haccepted with id | r₀
    · exact .inr rfl
    · rcases (hadmits r₀ rfl).ours hpolicy (hclaim r₀ rfl) with hmarked | hcreated
      · left
        refine hbuilds.marked_overlay (fun hkind => ?_) r₀
        rw [hkind] at hmarked
        cases hmarked
      · exact .inr hcreated
  · exact (hadmits r hbefore).ours hpolicy (hclaim r hbefore)

end Pass

/-! ### Runs -/

/-- The custom resource exists and is not being deleted. -/
def World.Live (w : World) : Prop :=
  ∃ obj, w.object = some obj ∧ obj.deletionTimestamp = none

/-- Every resource that the operation writes to, in its representation or below it, is
    ours.  A creation writes to no resource. -/
def TouchesOurs (op : Op) (w : World) : Prop :=
  ∀ kc request place address r, op = .admin kc request → request.method ≠ .get →
    request.endpoint.owner = some (place, address) →
    r ∈ ((w.servers kc.server).resources place).items → address.names place.kind.keyField r →
    Ours kc.label place.kind r

/-- The operation is the update of a resource. -/
def Op.Updates : Op → Prop
  | .admin _ request => request.method = .put ∧ request.endpoint.item.isSome
  | _ => False

instance : (op : Op) → Decidable op.Updates
  | .admin _ _ => inferInstanceAs (Decidable (_ ∧ _))
  | .now | .iterate _ | .connect _ _ | .getObject | .updateObject _ | .patchObject _ _
  | .patchStatus _ _ | .getSecret _ _ | .createSecret _ | .updateSecret _ | .event _ _ _
  | .driftCorrected _ | .reconciled _ _ => .isFalse id

/-- What the user does between passes: edits that `allowed` lets through, and the
    deletion. -/
inductive UserMove (allowed : World → Spec → Prop) (w : World) : World → Prop where
  | edit (spec : Spec) (hkind : ∀ obj, w.object = some obj → spec.kind = obj.spec.kind)
      (hallowed : allowed w spec) : UserMove allowed w (w.edit spec)
  | delete (now : Nat) : UserMove allowed w (w.requestDeletion now)

/-- The edit lets the annotation vouch for a foreign resource: under the new connection
    and key the server holds one that is not ours. -/
def World.Repoints (w : World) (spec : Spec) : Prop :=
  ∃ obj kc r, w.object = some obj ∧ obj.lastApplied ≠ .empty ∧
    w.connections obj.ns spec.connectionName = .ok kc ∧ w.target kc spec = some r ∧
    ¬ Ours kc.label spec.kind r

/-- The start of a run: a new custom resource with policy CreateOnly, and nothing on the
    servers that it created. -/
structure World.Fresh (w : World) : Prop where
  policy : ∀ obj, w.object = some obj → obj.spec.adoption = .createOnly
  unrecorded : ∀ obj, w.object = some obj → obj.lastApplied = .empty
  uncreated : ∀ server place r, r ∈ ((w.servers server).resources place).items → r.created = none

/-- The invariant: under CreateOnly, an annotation vouches for no foreign resource. -/
def World.Claimed (w : World) : Prop :=
  ∀ obj, w.object = some obj → obj.deletionTimestamp = none →
    obj.spec.adoption = .createOnly ∧
      ∀ kc r, w.connections obj.ns obj.spec.connectionName = .ok kc → w.target kc obj.spec = some r →
        obj.lastApplied ≠ .empty → Ours kc.label obj.spec.kind r

theorem World.Fresh.claimed {w : World} (h : w.Fresh) : w.Claimed := fun obj hobject _ =>
  ⟨h.policy obj hobject, fun _ _ _ _ hne => absurd (h.unrecorded obj hobject) hne⟩

theorem UserMove.claimed {w w' : World}
    (hmove : UserMove (fun w spec => spec.adoption = .createOnly ∧ ¬ w.Repoints spec) w w') :
    w'.Claimed := by
  rcases hmove with ⟨spec, hkind, hpolicy, hkeeps⟩ | now
  · intro obj hobject hlive
    obtain ⟨stored, hstored, rfl⟩ := Option.map_eq_some_iff.mp hobject
    refine ⟨hpolicy, fun kc r hconnection htarget hne => ?_⟩
    by_contra hours
    exact hkeeps ⟨stored, kc, r, hstored, hne, hconnection, htarget, hours⟩
  · intro obj hobject hlive
    obtain ⟨stored, hstored, hdeleted⟩ := Option.bind_eq_some_iff.mp hobject
    split at hdeleted
    · cases hdeleted
    · cases hdeleted
      cases hstamp : stored.deletionTimestamp <;> simp [hstamp] at hlive

section Pass

variable {w t : World} {kc : Conn} {obj : ManagedObject} {e : Engine}

/-- The invariant along a live pass. -/
theorem Reaches.claimed (hpolicy : obj.spec.adoption = .createOnly)
    (hconnection : w.connections obj.ns obj.spec.connectionName = .ok kc)
    (hclaim : ∀ r, w.target kc obj.spec = some r → obj.lastApplied ≠ .empty →
      Ours kc.label obj.spec.kind r)
    (h : Reaches kc obj (w.view kc obj.spec) (t.view kc obj.spec)) : t.Claimed := by
  obtain ⟨hconnections, text, hobject, hreached⟩ := h
  intro obj' hobj' hlive
  have hcore : obj'.core = { obj.core with lastApplied := text } := by
    have hview : (t.view kc obj.spec).object = some obj'.core := by simp [World.view, hobj']
    exact Option.some.inj (hview.symm.trans hobject)
  have hns : obj'.ns = obj.ns := congrArg Core.ns hcore
  have hspec : obj'.spec = obj.spec := congrArg Core.spec hcore
  have htext : obj'.lastApplied = text := congrArg Core.lastApplied hcore
  rw [hspec, hns, htext]
  refine ⟨hpolicy, fun kc' r hconnection' htarget hne => ?_⟩
  have hkc : kc' = kc := by
    have hsame : t.connections obj.ns obj.spec.connectionName = .ok kc := by
      rw [show t.connections = w.connections from hconnections]
      exact hconnection
    exact Except.ok.inj (hconnection'.symm.trans hsame)
  subst hkc
  have hresource : (t.view kc' obj.spec).resource = some r := htarget
  rw [hresource] at hreached
  generalize hafter : some r = after at hreached
  rcases hreached with _ | ⟨hstored⟩ | ⟨hstored⟩
  · exact hclaim r hafter.symm hne
  · exact (Option.some.inj hafter) ▸ hstored.ours hpolicy hclaim
  · exact (Option.some.inj hafter) ▸ hstored.ours hpolicy hclaim

/-- The writes of a live pass. -/
theorem PassGuard.touchesOurs {op : Op} (hpolicy : obj.spec.adoption = .createOnly)
    (hclaim : ∀ r, w.target kc obj.spec = some r → obj.lastApplied ≠ .empty →
      Ours kc.label obj.spec.kind r)
    (h : PassGuard kc obj (w.view kc obj.spec) op t) : TouchesOurs op t := by
  rintro kc' request place address r rfl hmethod howner hmem hnames
  obtain ⟨haimed, -, text, -, hreached⟩ := h
  rcases haimed with hget | ⟨rfl, ⟨-, hcollection⟩ | ⟨hadmits, r', hresource, hendpoint⟩⟩
  · exact absurd hget hmethod
  · rw [hcollection, Spec.owner_collectionEndpoint] at howner
    cases howner
  · -- the addressed resource is the one under the key
    have howner' : request.endpoint.owner = some (obj.spec.place, obj.spec.itemAddress r'.id) := by
      rcases hendpoint with hitem | howns
      · rw [hitem, Spec.owner_itemEndpoint]
      · exact Spec.owner_of_owns howns
    obtain ⟨rfl, rfl⟩ := Prod.mk.inj (Option.some.inj (howner.symm.trans howner'))
    obtain ⟨hmem', hkey⟩ := Collection.find_eq_some_iff.mp
      (show t.target kc' obj.spec = some r' from hresource)
    obtain rfl : r = r' := Collection.eq_of_names hmem hmem' hnames
      (names_itemAddress (of_decide_eq_true hkey))
    rw [Spec.place_kind]
    rw [hresource] at hreached
    generalize hafter : some r = after at hreached
    rcases hreached with _ | ⟨hstored⟩ | ⟨hstored⟩
    · exact (hadmits r hafter.symm).ours hpolicy (hclaim r hafter.symm)
    · exact (Option.some.inj hafter) ▸ hstored.ours hpolicy hclaim
    · exact (Option.some.inj hafter) ▸ hstored.ours hpolicy hclaim

/-- An operation that writes nothing to the servers. -/
theorem Op.Silent.touchesOurs {op : Op} (h : op.Silent) (t : World) : TouchesOurs op t := by
  rintro kc request place address r rfl hmethod
  rcases h with h | h | h
  · exact absurd h hmethod
  · exact h.elim
  · exact h.elim

theorem wp_pass_claimed (hw : w.Claimed) :
    wp Faulty (fun op t => (t.Live → TouchesOurs op t) ∧ t.Claimed) e.controllerReconcile.run
      (fun _ t => t.Claimed) w := by
  refine wp_controllerReconcile (fun _ _ h => h)
    ⟨fun _ => by rintro kc request place address r ⟨⟩, hw⟩ (fun _ _ => hw) fun obj hobject => ?_
  rcases hstamp : obj.deletionTimestamp with _ | stamp
  · obtain ⟨hpolicy, hclaim⟩ := hw obj hobject hstamp
    rcases hconnection : w.connections obj.ns obj.spec.connectionName with unavailable | kc
    · -- nothing but the status changes
      have hunconnected : ∀ u : World, u.view ⟨"", ""⟩ obj.spec = w.view ⟨"", ""⟩ obj.spec →
          u.Claimed := by
        intro u hu obj' hobj' hlive
        have hcore : obj'.core = obj.core := by
          have := congrArg View.object hu
          simpa [World.view, hobj', hobject] using this
        have hspec : obj'.spec = obj.spec := congrArg Core.spec hcore
        have hns : obj'.ns = obj.ns := congrArg Core.ns hcore
        have hconnections : u.connections = w.connections := congrArg View.connections hu
        rw [hspec, hns, hconnections, hconnection]
        exact ⟨hpolicy, fun kc r h => by cases h⟩
      refine wp_mono (fun pass u hu => hunconnected u hu.2) (wp_guard_mono (fun op u hu => ?_)
        (wp_reconcile_unconnected hstamp (fun kc h => by cases hconnection.symm.trans h)
          ⟨"", ""⟩ obj.spec))
      exact ⟨fun _ => hu.1.touchesOurs u, hunconnected u hu.2⟩
    · have hclaim : ∀ r, w.target kc obj.spec = some r → obj.lastApplied ≠ .empty →
          Ours kc.label obj.spec.kind r := fun r => hclaim kc r hconnection
      refine wp_mono (fun pass u hu => hu.1.claimed hpolicy hconnection hclaim)
        (wp_guard_mono (fun op u hu => ?_) (wp_reconcile hobject hstamp hconnection))
      exact ⟨fun _ => hu.touchesOurs hpolicy hclaim, hu.2.claimed hpolicy hconnection hclaim⟩
  · -- a deletion is never taken back
    have hdeleted : ∀ u : World, (∀ obj, u.object = some obj → obj.deletionTimestamp ≠ none) →
        ¬ u.Live ∧ u.Claimed := by
      intro u hu
      constructor
      · rintro ⟨obj, hobj, hlive⟩
        exact hu obj hobj hlive
      · intro obj hobj hlive
        exact absurd hlive (hu obj hobj)
    refine wp_mono (fun pass u hu => (hdeleted u hu).2) (wp_guard_mono (fun op u hu => ?_)
      (wp_of_only (fun u : World => ∀ obj, u.object = some obj → obj.deletionTimestamp ≠ none)
        (fun op u answer u' _ hu hstep obj' hobj' => ?_) (only_true _) ?_))
    · exact ⟨fun hlive => absurd hlive (hdeleted u hu.2).1, (hdeleted u hu.2).2⟩
    · obtain ⟨stored, hstored, hsame⟩ := faulty_deletionTimestamp hstep hobj'
      rw [hsame]
      exact hu stored hstored
    · intro obj' hobj'
      rw [hobject] at hobj'
      cases hobj'
      simp [hstamp]

end Pass

/-- **CreateOnly leaves foreign resources alone** in every run of passes, failing or cut
    off anywhere, and edits that do not repoint an annotated resource to a foreign one. -/
theorem createOnly_touches_ours (e : Engine) {w w' : World} {steps : List (Step operations World)}
    (hfresh : w.Fresh)
    (hrun : e.Passes Faulty
      (UserMove fun w spec => spec.adoption = .createOnly ∧ ¬ w.Repoints spec) w steps w') :
    ∀ step ∈ steps, step.before.Live → TouchesOurs step.op step.before :=
  (hrun.invariant World.Claimed (fun op t => t.Live → TouchesOurs op t)
    (fun _ _ _ hmove => hmove.claimed) (fun _ => wp_pass_claimed) hfresh.claimed).2

/-- The step of a live pass writes to a foreign resource. -/
def trespasses (step : Step operations World) : Bool :=
  step.before.object.any (fun obj => obj.deletionTimestamp.isNone) &&
    (match step.op with
     | .admin kc request => decide (request.method ≠ .get) &&
         (match request.endpoint.owner with
          | some (place, address) =>
              ((step.before.servers kc.server).resources place).items.any fun r =>
                address.names place.kind.keyField r && !decide (Ours kc.label place.kind r)
          | none => false)
     | _ => false)

theorem not_touchesOurs_of_trespasses {step : Step operations World} (h : trespasses step = true) :
    step.before.Live ∧ ¬ TouchesOurs step.op step.before := by
  obtain ⟨before, op, answer, after⟩ := step
  obtain ⟨hlive, hwrite⟩ := Bool.and_eq_true_iff.mp h
  obtain ⟨obj, hobject, hstamp⟩ := (Option.any_eq_true _ _).mp hlive
  refine ⟨⟨obj, hobject, Option.isNone_iff_eq_none.mp hstamp⟩, fun htouches => ?_⟩
  rcases op <;> try exact absurd hwrite Bool.false_ne_true
  rename_i kc request
  obtain ⟨hmethod, howner⟩ := Bool.and_eq_true_iff.mp hwrite
  dsimp only at howner
  split at howner
  case h_1 place address hplace =>
    obtain ⟨r, hr, hforeign⟩ := List.any_eq_true.mp howner
    obtain ⟨hnames, hours⟩ := Bool.and_eq_true_iff.mp hforeign
    have hours : ¬ Ours kc.label place.kind r := by simpa using hours
    exact hours (htouches kc request place address r rfl (of_decide_eq_true hmethod) hplace hr hnames)
  case h_2 => cases howner

theorem exists_trespass {steps : Log} (h : steps.any trespasses = true) :
    ∃ step ∈ steps, step.before.Live ∧ ¬ TouchesOurs step.op step.before := by
  obtain ⟨step, hstep, htrespass⟩ := List.any_eq_true.mp h
  exact ⟨step, hstep, not_touchesOurs_of_trespasses htrespass⟩

/-- The world after a pass in which all calls succeed. -/
def World.afterPass (w : World) : World :=
  ((newEngine true 0).controllerReconcile.run.run (World.handle World.sorted 0) w).2

def World.passSteps (w : World) : List (Step operations World) :=
  (newEngine true 0).controllerReconcile.run.runSteps (World.handle World.sorted 0) w

def World.passResult (w : World) : Option (Except Err (Option Pass)) :=
  some ((newEngine true 0).controllerReconcile.run.run (World.handle World.sorted 0) w).1

theorem World.exec_pass (w : World) :
    Exec Reliable (newEngine true 0).controllerReconcile.run w w.passSteps w.afterPass w.passResult :=
  exec_handle _ _

/-- The collections of a server with one collection. -/
theorem Server.mem_setResources_empty {place place' : Place} {c : Collection place.kind.keyField}
    {r : Resource} (h : r ∈ (((∅ : Server).setResources place c).resources place').items) :
    r ∈ c.items := by
  unfold Server.setResources at h
  by_cases hplace : place' = place
  · subst hplace
    simpa using h
  · simp only [Function.update_of_ne hplace] at h
    exact absurd h List.not_mem_nil

/-- A client whose spec asks for nothing but its existence. -/
def plainClient (clientId : String) : Spec :=
  .client { keycloakRef := "main", realm := "demo", clientId := clientId, fields := ⟨∅, Fields.typed_empty _⟩ }

/-- A client of the realm with some fields. -/
def clientWith (realm : String) (fields : Fields clientFields) : Spec :=
  .client { keycloakRef := "main", realm := realm, clientId := "portal", fields := fields }

def describedFields : Fields clientFields :=
  ⟨.ofList [("description", .str "old"), ("redirectUris", jsonStrings ["a", "b"]),
    ("enabled", .bool true)], by decide⟩

def clientObject (clientId : String) : ManagedObject where
  ns := "apps"
  name := "portal"
  uid := "uid-2"
  generation := 1
  finalizers := [finalizerName]
  spec := plainClient clientId

/-- Clients of the realm `demo`, in this order. -/
def clientServer (c : Collection "clientId") : Server :=
  (∅ : Server).setResources ⟨.client, "demo"⟩ c

theorem fresh_clientServer {clientId : String} {c : Collection "clientId"}
    (h : ∀ r ∈ c.items, r.created = none) :
    (World.around (clientObject clientId) (clientServer c)).Fresh where
  policy obj hobject := by cases hobject; rfl
  unrecorded obj hobject := by cases hobject; rfl
  uncreated _ _ r hr := h r (Server.mem_setResources_empty hr)

/-- A client that an earlier installation of the operator has marked. -/
def markedPortal : Resource where
  id := "1"
  rep := .ofList [("clientId", .str "portal"), ("enabled", .bool true),
    ("attributes", .ofObject (.ofList [( managedAnnotationKey, .str managedValue)]))]

def markedShop : Resource where
  id := "2"
  rep := .ofList [("clientId", .str "shop"), ("enabled", .bool true),
    ("attributes", .ofObject (.ofList [( managedAnnotationKey, .str managedValue)]))]

/-- The spec of a client with a description. -/
def describedShop : Spec :=
  .client { keycloakRef := "main", realm := "demo", clientId := "shop",
            fields := ⟨.ofList [("description", .str "Shop")], by decide⟩ }

theorem not_repoints {w : World} {spec : Spec} {ns : String} {kc : Conn}
    (hns : ∀ obj ∈ w.object, obj.ns = ns)
    (hconnection : w.connections ns spec.connectionName = .ok kc)
    (hours : ∀ r ∈ w.target kc spec, Ours kc.label spec.kind r) : ¬ w.Repoints spec := by
  rintro ⟨obj, kc', r, hobject, -, hconnection', htarget, hforeign⟩
  rw [hns obj hobject, hconnection] at hconnection'
  cases hconnection'
  exact hforeign (hours r htarget)

/-- The first pass takes over the marked client `portal` and records the annotation.  The edit
    of the client ID hands the annotation to the client `shop`, which is marked too, and the second
    pass writes the description to it. -/
theorem repointed_shop_touches_ours :
    let w := World.around (clientObject "portal")
      (clientServer ⟨[markedPortal, markedShop], by decide, by decide⟩)
    let t := w.afterPass.edit describedShop
    (newEngine true 0).Passes Faulty
        (UserMove fun w spec => spec.adoption = .createOnly ∧ ¬ w.Repoints spec) w
        (w.passSteps ++ t.passSteps) t.afterPass ∧
      (∃ obj ∈ t.object, obj.lastApplied ≠ .empty) ∧ (∃ step ∈ t.passSteps, step.op.Updates) ∧
      ∀ step ∈ w.passSteps ++ t.passSteps, step.before.Live → TouchesOurs step.op step.before := by
  intro w t
  have hns : ∀ obj ∈ w.afterPass.object, obj.ns = "apps" := by decide
  have hconnection : w.afterPass.connections "apps" describedShop.connectionName =
      .ok ⟨"main", "keycloak"⟩ := rfl
  have hedit : UserMove (fun w spec => spec.adoption = .createOnly ∧ ¬ w.Repoints spec) w.afterPass t :=
    .edit _ (by decide) ⟨rfl, not_repoints hns hconnection (by decide)⟩
  have hrun : (newEngine true 0).Passes Faulty
      (UserMove fun w spec => spec.adoption = .createOnly ∧ ¬ w.Repoints spec) w
      (w.passSteps ++ t.passSteps) t.afterPass :=
    .pass (.move (.pass (.start _) (w.exec_pass.mono faulty_of_reliable) trivial) hedit)
      (t.exec_pass.mono faulty_of_reliable) trivial
  exact ⟨hrun, by decide, by decide,
    createOnly_touches_ours (newEngine true 0) (fresh_clientServer (by decide)) hrun⟩

/-- A client that somebody else has set up. -/
def foreignBilling : Resource where
  id := "1"
  rep := .ofList [("clientId", .str "billing"), ("enabled", .bool true)]

/-- The first pass creates the client `portal` and records the annotation.  The edit of
    the client ID then hands the annotation to the foreign client `billing`, and the
    second pass updates it. -/
theorem repointed_client_taken_over :
    ∃ steps w, (World.around (clientObject "portal")
          (clientServer ⟨[foreignBilling], by decide, by decide⟩)).Fresh ∧
      (newEngine true 0).Passes Reliable (UserMove fun _ spec => spec.adoption = .createOnly)
        (.around (clientObject "portal") (clientServer ⟨[foreignBilling], by decide, by decide⟩))
        steps w ∧
      ∃ step ∈ steps, step.before.Live ∧ ¬ TouchesOurs step.op step.before := by
  have hkind : ((Prog.run (World.handle World.sorted 0) (newEngine true 0).controllerReconcile.run
      (.around (clientObject "portal") (clientServer ⟨[foreignBilling], by decide, by decide⟩))).2.object.all
        fun obj => decide ((plainClient "billing").kind = obj.spec.kind)) = true := by decide
  refine ⟨_, _, fresh_clientServer (by decide), .pass (.move (.pass (.start _) (exec_handle _ _)
    trivial) (.edit (plainClient "billing") (fun obj hobj => ?_) rfl)) (exec_handle _ _) trivial, ?_⟩
  · exact of_decide_eq_true ((Option.all_eq_true _ _).mp hkind obj hobj)
  · exact exists_trespass (by decide)

end KeycloakOperator
