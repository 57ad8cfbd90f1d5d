import KeycloakOperator.Completion
import KeycloakOperator.Removal

/-!
# The marker after a successful pass

Every body that is sent carries the marker (`ManagedObject.Builds.marked`).  A pass that
sends none has compared the body with what the server holds, and a silent comparison has
found the marker there: under the same key of a map of strings, or among the elements of a
list.  The only other thing that it takes for the marker is the mask.
-/

namespace KeycloakOperator

open Prog

/-! ### What a match says -/

theorem Matches.entry {want got : Object} (h : Matches (.ofObject want) (.ofObject got))
    {k : String} {v : JSON} (hv : want.get k = some v) (hnull : v ≠ .null)
    (hreset : v ∉ resetValues) : ∃ g, got.get k = some g ∧ Matches v g := by
  obtain ⟨got', hgot, hpresent, hmatch⟩ := h.object_inv
  obtain rfl := JSON.ofObject_injective hgot
  obtain ⟨g, hg, hgnull⟩ := hpresent k v hv hnull hreset
  exact ⟨g, hg, hmatch k v g hv hnull hg hgnull⟩

/-- Every element of a desired list has its match in the other one. -/
theorem Matches.element {want : List JSON} {got v : JSON} (h : Matches (.ofList want) got)
    (hv : v ∈ want) : ∃ list, got.asList = some list ∧ ∃ g ∈ list, Matches v g := by
  generalize hvalue : JSON.ofList want = value at h
  cases h with
  | object => cases hvalue
  | @list n m items gotItems pairing hmatch =>
    obtain ⟨i, hi⟩ := List.get_of_mem hv
    cases hvalue
    refine ⟨List.ofFn gotItems, rfl, gotItems (pairing i), ?_, ?_⟩
    · exact List.mem_ofFn.mpr ⟨_, rfl⟩
    · exact hi ▸ hmatch i
  | scalar hwant =>
    subst hvalue
    cases hwant

theorem Matches.str {value : String} {got : JSON} (h : Matches (.str value) got) :
    got = .str keycloakMaskedValue ∨ got = .str value := by
  generalize hvalue : JSON.str value = want at h
  cases h with
  | object => cases hvalue
  | list => cases hvalue
  | scalar hwant hgot => exact hvalue ▸ hgot

/-! ### The marker in a silent comparison -/

/-- The representation shows the mask where the marker belongs. -/
def MaskedMarker (rep : Object) : Prop :=
  ∃ v ∈ (mapField rep "attributes").get managedAnnotationKey,
    v = .str keycloakMaskedValue ∨ ∃ list ∈ v.asList, .str keycloakMaskedValue ∈ list

/-- A map with an entry is a map. -/
theorem get_of_mapField {rep : Object} {field k : String} {v : JSON}
    (h : (mapField rep field).get k = some v) :
    rep.get field = some (.ofObject (mapField rep field)) := by
  unfold mapField at h ⊢
  rcases hfield : (rep.get field).bind JSON.asObject with _ | m
  · rw [hfield] at h
    cases h
  · obtain ⟨value, hvalue, hm⟩ := Option.bind_eq_some_iff.mp hfield
    rw [JSON.asObject_eq_some.mp hm] at hvalue
    exact hvalue

section Comparison

variable {remote payload : Object}

/-- A silent comparison has matched every entry of the attributes. -/
theorem attribute_matched (h : payloadDiffers remote payload = false) {k : String} {v : JSON}
    (hv : (mapField payload "attributes").get k = some v) (hnull : v ≠ .null)
    (hreset : v ∉ resetValues) :
    ∃ g, (mapField remote "attributes").get k = some g ∧ Matches v g := by
  have hfield := get_of_mapField hv
  have hnonempty : JSON.ofObject (mapField payload "attributes") ∉ resetValues := by
    intro hmem
    rw [eq_empty_of_ofObject_reset hmem, FiniteMap.get_empty] at hv
    cases hv
  obtain ⟨attributes, hattributes, hmatches⟩ :=
    (matches_of_payloadDiffers h).entry hfield (fun h => by cases h) hnonempty
  obtain ⟨got, rfl, -⟩ := hmatches.object_inv
  obtain ⟨g, hg, hmatch⟩ := hmatches.entry hv hnull hreset
  refine ⟨g, ?_, hmatch⟩
  simpa [mapField, hattributes] using hg

theorem managedByStringAttribute_of_agrees (h : payloadDiffers remote payload = false)
    (hmarked : managedByStringAttribute payload = true) (hmask : ¬ MaskedMarker remote) :
    managedByStringAttribute remote = true := by
  obtain ⟨v, hv, hstr⟩ := Option.bind_eq_some_iff.mp (of_decide_eq_true hmarked)
  obtain rfl := JSON.asString_eq_some.mp hstr
  obtain ⟨g, hg, hmatch⟩ := attribute_matched h hv (by simp) (by decide)
  rcases hmatch.str with rfl | rfl
  · exact absurd ⟨_, hg, .inl rfl⟩ hmask
  · exact decide_eq_true (by simp [stringField, hg])

theorem managedBySliceAttribute_of_agrees (h : payloadDiffers remote payload = false)
    (hmarked : managedBySliceAttribute payload = true) (hmask : ¬ MaskedMarker remote) :
    managedBySliceAttribute remote = true := by
  unfold managedBySliceAttribute at hmarked
  split at hmarked
  case h_2 => cases hmarked
  case h_1 list hlist =>
    obtain ⟨v, hv, hasList⟩ := Option.bind_eq_some_iff.mp hlist
    obtain ⟨x, hx, htrue⟩ := List.any_eq_true.mp hmarked
    obtain rfl := of_decide_eq_true htrue
    have hvalue : v = .ofList list := by
      cases v with
      | arr n items =>
        cases hasList
        exact (JSON.ofList_ofFn items).symm
      | _ => cases hasList
    subst hvalue
    have hreset : JSON.ofList list ∉ resetValues := by
      intro hmem
      rw [eq_nil_of_ofList_reset hmem] at hx
      cases hx
    obtain ⟨g, hg, hmatch⟩ := attribute_matched h hv (fun h => by cases h) hreset
    obtain ⟨got, hgot, y, hy, hsame⟩ := hmatch.element hx
    rcases hsame.str with rfl | rfl
    · exact absurd ⟨g, hg, .inr ⟨got, hgot, hy⟩⟩ hmask
    · simp only [managedBySliceAttribute, hg, Option.bind_some, hgot]
      exact List.any_eq_true.mpr ⟨_, hy, decide_eq_true rfl⟩

/-- **What agrees with a marked body is marked**, unless it shows the mask there. -/
theorem Kind.marked_of_agrees {kind : Kind} (h : payloadDiffers remote payload = false)
    (hmarked : kind.marked payload = true) (hmask : ¬ MaskedMarker remote) :
    kind.marked remote = true := by
  cases kind with
  | realm => exact managedByStringAttribute_of_agrees h hmarked hmask
  | client => exact managedByStringAttribute_of_agrees h hmarked hmask
  | clientScope => exact managedByStringAttribute_of_agrees h hmarked hmask
  | realmRole => exact managedBySliceAttribute_of_agrees h hmarked hmask
  | identityProvider => cases hmarked
  | group => exact managedBySliceAttribute_of_agrees h hmarked hmask

end Comparison

/-! ### The stored resource -/

theorem Applied.marked {label : String} {obj : ManagedObject} {payload : Object}
    {before : Option Resource} {r : Resource} (h : Applied Resource.report label obj payload before r)
    (hbuilds : obj.Builds payload) (hkind : obj.spec.kind ≠ .identityProvider)
    (hmask : ∀ r, before = some r → ¬ MaskedMarker r.report) :
    obj.spec.kind.marked r.report = true := by
  have hmarked := hbuilds.marked hkind
  cases h with
  | created id hid =>
    rw [← hmarked]
    apply Kind.marked_congr
    rw [Resource.get_report_of_ne _ (by decide)]
    exact FiniteMap.get_erase_of_ne _ (by decide)
  | updated r hchanges => exact hbuilds.marked_overlay hkind r
  | agreed r hmanaged hagrees => exact Kind.marked_of_agrees hagrees hmarked (hmask r rfl)

/-- After every successful pass over a resource of a kind with a marker, whatever the
    operator met, the server holds a marked representation.  The server reports the
    attributes as it stores them, and never the mask in the place of the marker. -/
theorem marked_after_success (e : Engine) {w t : World} {steps : List (Step operations World)}
    {pass : Pass} {obj : ManagedObject} {kc : Conn} (hobject : w.object = some obj)
    (hconnection : w.connections obj.ns obj.spec.connectionName = .ok kc)
    (hkind : obj.spec.kind ≠ .identityProvider)
    (hmask : ∀ r, w.target kc obj.spec = some r → ¬ MaskedMarker r.report)
    (hexec : Exec Faulty e.controllerReconcile.run w steps t (some (.ok (some pass))))
    (hfinalized : pass.finalized = true) :
    ∃ r, t.target kc obj.spec = some r ∧ obj.spec.driver.isManaged r.report = true := by
  obtain ⟨obj', kc', u, v, hobject', hconnection', hcompletes⟩ := e.exec_completed
    (fun obj _ => showing_report (fun _ _ _ _ h => h) obj.spec) (fun h => h) hexec hfinalized
  cases hobject.symm.trans hobject'
  cases hconnection.symm.trans hconnection'
  obtain ⟨payload, r, hbuilds, htarget, happlied⟩ := hcompletes.placed.applied
  refine ⟨r, ?_, ?_⟩
  · rw [hcompletes.target_eq fun hop hstep => faulty_quiet hop hstep kc obj.spec, htarget]
  · rw [driver_isManaged]
    exact happlied.marked hbuilds.builds hkind hmask

/-- A pass that finds nothing to correct. -/
theorem marked_portal_stays_marked :
    ∃ r, (World.around (clientObject "portal")
        (clientServer ⟨[markedPortal], by decide, by decide⟩)).afterPass.target
          ⟨"main", "keycloak"⟩ (plainClient "portal") = some r ∧
      (plainClient "portal").driver.isManaged r.report = true := by
  have hsucceeds : Succeeds (World.around (clientObject "portal")
      (clientServer ⟨[markedPortal], by decide, by decide⟩)).passResult :=
    succeeds_of_finalized (by decide)
  obtain ⟨pass, hresult, hfinalized⟩ := hsucceeds
  have hexec := (World.exec_pass (World.around (clientObject "portal")
    (clientServer ⟨[markedPortal], by decide, by decide⟩))).mono faulty_of_reliable
  rw [hresult] at hexec
  refine marked_after_success (newEngine true 0) rfl rfl (by decide) ?_ hexec hfinalized
  intro r hr
  obtain rfl : markedPortal = r := Option.some.inj hr
  rintro ⟨v, hv, rfl | ⟨list, hlist, -⟩⟩
  · exact absurd hv (by decide)
  · obtain rfl : JSON.str managedValue = v := Option.some.inj hv
    cases hlist

end KeycloakOperator
