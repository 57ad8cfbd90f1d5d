import KeycloakOperator.Removal
import KeycloakOperator.Submissions

/-!
# Entries of maps

A field that holds a map is compared on the entries that the payload has, and removal tracking
works on whole fields.  So an entry that is removed from the map of a spec is not noticed by
itself: it disappears when the pass updates the resource for another reason, because the update
carries the map as a whole.
-/

namespace KeycloakOperator

open Prog

/-- An entry of a map field was applied and is on the server, but the map of the spec does not
    have it any more, and no Secret supplies it. -/
structure ManagedObject.DropsEntry (obj : ManagedObject) (remote : Object) (field entry : String)
    (old : JSON) : Prop where
  applied : ∃ v, objectAt? obj.lastApplied.entries [field, entry] = some v
  dropped : ∃ m, obj.spec.representation.get field = some (.ofObject m) ∧ m.get entry = none
  sourceless : ¬ (obj.spec.injectedField = some field ∧ entry ∈ obj.spec.injectedKeys)
  present : objectAt? remote [field, entry] = some old
  nonempty : old ≠ .null ∧ isZeroValue old = false

/-- The value of the managed marker. -/
def Kind.stamp : Kind → Option JSON
  | .realm | .client | .clientScope => some (.str managedValue)
  | .realmRole | .group => some (.ofList [.str managedValue])
  | .identityProvider => none

/-- What the operator itself puts into the entry of a map that does not have it. -/
def Kind.stamp? (kind : Kind) (field entry : String) : Option JSON :=
  if field = "attributes" ∧ entry = managedAnnotationKey then kind.stamp else none

/-- The state before the pass leads to an update of the resource, which the annotation makes
    a managed one. -/
structure World.Revises (w : World) (kc : Conn) (obj : ManagedObject) (r : Resource) : Prop where
  engages : w.Engages kc obj
  finds : w.Finds kc obj.spec r
  policy : obj.spec.adoption ≠ .failIfExists
  drifted : ∃ payload, w.Builds obj payload ∧ payloadDiffers r.report payload = true

/-! ### The entry in the body -/

section Body

variable {obj : ManagedObject} {payload m : Object} {field entry : String}

theorem objectAt?_pair {body m : Object} (h : body.get field = some (.ofObject m)) :
    objectAt? body [field, entry] = m.get entry := by
  rw [objectAt?_cons, h, Option.bind_some]
  change objectAt? m [entry] = _
  rw [objectAt?_cons]
  rcases m.get entry with _ | v <;> simp

theorem Kind.marker_stamp {kind : Kind} (hkind : kind ≠ .identityProvider)
    (hm : m.get managedAnnotationKey = none) :
    ∃ r v, kind.marker = some r ∧ r.field = "attributes" ∧ kind.stamp = some v ∧
      r.value m = .ofObject (m.put managedAnnotationKey v) := by
  rcases kind
  case identityProvider => exact absurd rfl hkind
  case realmRole | group =>
    refine ⟨_, _, rfl, rfl, rfl, ?_⟩
    simp [hm]
  all_goals exact ⟨_, _, rfl, rfl, rfl, rfl⟩

/-- The marker is stamped into the map of the spec. -/
theorem ManagedObject.Builds.get_marker (h : obj.Builds payload) {r : Rewrite}
    (hr : obj.spec.kind.marker = some r)
    (hm : obj.spec.representation.get r.field = some (.ofObject m)) :
    payload.get r.field = some (r.value m) := by
  obtain ⟨effective, inj, heffective, hinj, rfl⟩ := h
  have hmap : mapField effective r.field = m :=
    mapField_of_get (by rw [get_effectivePayload heffective, hm])
  have hmem : r ∈ rewrites obj.spec.kind inj :=
    List.mem_append_left _ (Option.mem_toList.mpr hr)
  rw [builtPayload, get_applyAll_of_nodup (nodup_rewrites _ _) hmem, hmap]

/-- The body has nothing under an entry that the spec drops, but for the marker. -/
theorem ManagedObject.Builds.entry_dropped (h : obj.Builds payload)
    (hm : obj.spec.representation.get field = some (.ofObject m)) (hentry : m.get entry = none)
    (hsourceless : ¬ (obj.spec.injectedField = some field ∧ entry ∈ obj.spec.injectedKeys))
    (remote : Object) :
    objectAt? (mergePayload remote payload) [field, entry] = obj.spec.kind.stamp? field entry := by
  have hmerged : ∀ m', payload.get field = some (.ofObject m') →
      objectAt? (mergePayload remote payload) [field, entry] = m'.get entry := fun m' hm' =>
    objectAt?_pair (get_mergePayload_of_some hm' (by simp [JSON.ofObject]))
  by_cases hoverrides : obj.spec.Overrides field entry
  · obtain ⟨rfl, hkind, rfl⟩ := hoverrides.resolve_right hsourceless
    obtain ⟨r, v, hmarker, hfield, hstamp, hvalue⟩ := Kind.marker_stamp hkind hentry
    have hget := h.get_marker hmarker (hfield ▸ hm)
    rw [hfield, hvalue] at hget
    rw [hmerged _ hget, FiniteMap.get_put_self, Kind.stamp?, if_pos ⟨rfl, rfl⟩, hstamp]
  · obtain ⟨m', hget, hentries⟩ := h.get_map hm
    rw [hmerged m' hget, hentries entry hoverrides, hentry]
    unfold Kind.stamp?
    split
    case isFalse => rfl
    case isTrue hmarker =>
      have hkind : obj.spec.kind = .identityProvider := by
        by_contra hkind
        exact hoverrides (.inl ⟨hmarker.1, hkind, hmarker.2⟩)
      rw [hkind]
      rfl

end Body

theorem ManagedObject.DropsEntry.recorded {obj : ManagedObject} {remote : Object}
    {field entry : String} {old : JSON} (h : obj.DropsEntry remote field entry old) :
    obj.lastApplied ≠ .empty := by
  intro hempty
  obtain ⟨v, hv⟩ := h.applied
  rw [hempty, objectAt?_cons] at hv
  simp [AnnotationText.entries] at hv

/-- **A removed entry is removed on the server**, exactly when the pass has another reason to
    update the resource. -/
theorem entry_removed_iff (e : Engine) {w : World} {obj : ManagedObject} {kc : Conn} {r : Resource}
    {field entry : String} {old : JSON} (hobject : w.object = some obj)
    (hconnection : w.connections obj.ns obj.spec.connectionName = .ok kc)
    (htarget : w.target kc obj.spec = some r) (hdrops : obj.DropsEntry r.report field entry old) :
    (∀ steps t result, Exec Reliable e.controllerReconcile.run w steps t (some result) →
      ∃ step ∈ steps, ∃ id body, step.op = obj.spec.revision kc id body ∧
        objectAt? body [field, entry] ≠ some old) ↔
      w.Revises kc obj r ∧ obj.spec.kind.stamp? field entry ≠ some old := by
  obtain ⟨m, hm, hentry⟩ := hdrops.dropped
  have hmanaged : Engine.managed obj.spec.driver obj r.report = true := by
    simp [Engine.managed, hdrops.recorded]
  constructor
  · intro hremoves
    have hexec := exec_handle e.controllerReconcile.run w
    obtain ⟨step, hstep, id, body, hop, hother⟩ := hremoves _ _ _ hexec
    obtain ⟨-, kc', hengages, hsubmits⟩ := Engine.exec_submits hobject
      (hexec.mono flaky_of_reliable) hstep (by rw [hop]; exact submission?_revision _ _ _ _)
    obtain rfl := Except.ok.inj (hconnection.symm.trans hengages.connection)
    rw [hop] at hsubmits
    generalize hrevision : obj.spec.revision kc id body = op at hsubmits
    rcases hsubmits with ⟨hbuilds, -⟩ | ⟨hbuilds, hfinds, hadmits, hupdates⟩
    · cases hrevision
    · obtain rfl := Option.some.inj (htarget.symm.trans hfinds.1)
      have hsubmission := congrArg Op.submission? hrevision
      rw [submission?_revision, submission?_revision] at hsubmission
      cases hsubmission
      rw [hbuilds.builds.entry_dropped hm hentry hdrops.sourceless] at hother
      exact ⟨⟨hengages, hfinds, hadmits.1, _, hbuilds, hupdates.resolve_left (by simp [hmanaged])⟩,
        hother⟩
  · rintro ⟨hrevises, hother⟩ steps t result hexec
    obtain ⟨payload, hbuilds, hdiffers⟩ := hrevises.drifted
    have hsubmits := World.Submits.revision hbuilds hrevises.finds
      ⟨hrevises.policy, .inl hmanaged⟩ (.inr hdiffers)
    obtain ⟨step, hstep, hop, -⟩ := Engine.exists_submission hrevises.engages hsubmits hexec
    refine ⟨step, hstep, _, _, hop, ?_⟩
    rw [hbuilds.builds.entry_dropped hm hentry hdrops.sourceless]
    exact hother

/-! ### A removed attribute -/

/-- The map that the spec sets now. -/
def tierFields : Fields clientFields :=
  ⟨.ofList [("description", .str "billing"),
    ("attributes", .ofObject (.ofList [("tier", .str "gold")]))], by decide⟩

/-- The map that was applied before. -/
def ownerFields : Fields clientFields :=
  ⟨.ofList [("description", .str "billing"),
    ("attributes", .ofObject (.ofList [("tier", .str "gold"), ("owner", .str "ops")]))], by decide⟩

def tierObject : ManagedObject :=
  { clientObject "portal" with
    spec := clientWith "demo" tierFields
    lastApplied := .marshalled (clientWith "demo" ownerFields).representation }

/-- The client as the server has it, with some description. -/
def ownedPortal (description : String) : Resource where
  id := "1"
  rep := .ofList [("clientId", .str "portal"), ("description", .str description),
    ("attributes", .ofObject (.ofList [("tier", .str "gold"), ("owner", .str "ops"),
      ( managedAnnotationKey, .str managedValue)]))]

/-- Only the attribute differs from the spec. -/
def steadyWorld : World :=
  .around tierObject (clientServer ⟨[ownedPortal "billing"], by decide, by decide⟩)

/-- The description differs as well. -/
def driftedWorld : World :=
  .around tierObject (clientServer ⟨[ownedPortal "old"], by decide, by decide⟩)

theorem dropsEntry_owner {remote : Object}
    (hpresent : objectAt? remote ["attributes", "owner"] = some (.str "ops")) :
    tierObject.DropsEntry remote "attributes" "owner" (.str "ops") where
  applied := ⟨.str "ops", by decide⟩
  dropped := ⟨_, rfl, by decide⟩
  sourceless := by decide
  present := hpresent
  nonempty := by decide

theorem driftedWorld_revises :
    driftedWorld.Revises ⟨"main", "keycloak"⟩ tierObject (ownedPortal "old") where
  engages := ⟨rfl, rfl, by decide, rfl, rfl⟩
  finds := ⟨by decide, by decide⟩
  policy := by decide
  drifted := by
    refine ⟨_, ⟨_, .nothing, rfl, World.sources_nothing rfl, rfl⟩, ?_⟩
    decide

/-- The update that corrects the description removes the attribute. -/
theorem drifted_owner_removed :
    driftedWorld.object = some tierObject ∧
    ∀ steps t result, Exec Reliable (newEngine true 0).controllerReconcile.run driftedWorld
        steps t (some result) →
      ∃ step ∈ steps, ∃ id body, step.op = tierObject.spec.revision ⟨"main", "keycloak"⟩ id body ∧
        objectAt? body ["attributes", "owner"] ≠ some (.str "ops") :=
  ⟨rfl, (entry_removed_iff (newEngine true 0) rfl rfl driftedWorld_revises.finds.1
    (dropsEntry_owner (by decide))).mpr ⟨driftedWorld_revises, by decide⟩⟩

/-- A pass over the steady state finds nothing to do, and the attribute stays. -/
theorem steady_owner_kept :
    steadyWorld.object = some tierObject ∧
      steadyWorld.target ⟨"main", "keycloak"⟩ tierObject.spec = some (ownedPortal "billing") ∧
      tierObject.DropsEntry (ownedPortal "billing").report "attributes" "owner" (.str "ops") ∧
      ∃ steps t result, Exec Reliable (newEngine true 0).controllerReconcile.run steadyWorld steps t
          (some result) ∧
        (∀ step ∈ steps, step.op.submission? = none) ∧
        t.target ⟨"main", "keycloak"⟩ tierObject.spec = some (ownedPortal "billing") := by
  refine ⟨rfl, by decide, dropsEntry_owner (by decide), _, _, _, steadyWorld.exec_pass, ?_, ?_⟩
  · decide
  · decide

end KeycloakOperator
