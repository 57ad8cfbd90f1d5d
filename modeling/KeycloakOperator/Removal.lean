import KeycloakOperator.Schema
import KeycloakOperator.Takeover

/-!
# Removed fields

A field that is removed from the spec has to disappear from the server, however long ago
it was written.  The annotation knows only the spec of the last successful pass, so this
rests on an invariant of whole histories: every string, boolean or list that an earlier
pass applied and that the annotation does not mention any more has been cleared.
-/

namespace KeycloakOperator

open Prog

/-! ### Fields after a pass -/

/-- The value on the server is the one that a removed string, boolean or list is reset
    to, or there is none. -/
def Cleared (got : Option JSON) : Prop :=
  presentValue got = none ∨ ∃ v ∈ [JSON.str "", .bool false, .ofList []], got = some v

instance (got : Option JSON) : Decidable (Cleared got) := inferInstanceAs (Decidable (_ ∨ _))

/-- The reset value of a type. -/
theorem zeroFor_of_resettable {v : JSON} (h : v.shape.Resettable) :
    ∃ z ∈ [JSON.str "", .bool false, .ofList []], zeroFor v = some z := by
  rcases v with _ | b | n | s | ⟨n, items⟩ | ⟨keys, vals⟩
  case bool => exact ⟨.bool false, by simp, rfl⟩
  case str => exact ⟨.str "", by simp, rfl⟩
  case arr => exact ⟨.ofList [], by simp, rfl⟩
  all_goals rcases h with h | h | h <;> cases h

theorem zeroFor_of_num {v : JSON} (h : v.shape = .num) : zeroFor v = none := by
  rcases v <;> first | rfl | cases h

/-- What agrees with a reset value is cleared, or masked. -/
theorem cleared_of_entryAgrees {z : JSON} (hz : z ∈ [JSON.str "", .bool false, .ofList []])
    {got : Option JSON} (h : EntryAgrees z got) (hmask : got ≠ some (.str keycloakMaskedValue)) :
    Cleared got := by
  rcases hpresent : presentValue got with _ | g
  · exact .inl hpresent
  have hnull : z ≠ .null := by
    rintro rfl
    simp [JSON.ofList] at hz
  rw [entryAgrees_present hnull hpresent] at h
  obtain ⟨rfl, -⟩ := presentValue_eq_some.mp hpresent
  refine .inr ⟨g, ?_, rfl⟩
  have hscalar : z.isScalar = true → g = z := fun hscalar =>
    ((managedValueEqual_scalar hscalar g).mp h).resolve_left fun hg => hmask (congrArg some hg)
  simp only [List.mem_cons, List.not_mem_nil, or_false] at hz
  rcases hz with rfl | rfl | rfl
  · rw [hscalar rfl]
    simp
  · rw [hscalar rfl]
    simp
  · rcases g with _ | _ | _ | _ | ⟨m, items⟩ | _ <;> try cases h
    obtain ⟨rfl, -⟩ := (managedValueEqual_arr _ items).mp h
    have hempty : (JSON.arr 0 items) = .ofList [] := congrArg _ (funext fun i => i.elim0)
    simp [hempty]

section Stored

variable {label : String} {obj : ManagedObject} {before : Option Resource} {r : Resource} {k : String}

/-- The entries of the resource when the body is stored: those of the body, and for the
    rest what was there. -/
theorem Stored.get (h : Stored label obj before r) : ∃ payload, obj.Builds payload ∧
    ∀ k, k ≠ "id" →
      (∀ v, payload.get k = some v → v ≠ .null → r.report.get k = some v ∨
        (before = some r ∧ EntryAgrees v (r.report.get k))) ∧
      (payload.get k = none → r.report.get k = before.bind fun r => r.report.get k) := by
  obtain ⟨-, payload, hbuilds, haccepted | ⟨rfl, hagrees⟩⟩ := h
  · refine ⟨payload, hbuilds, fun k hk => ?_⟩
    rcases haccepted with id | r
    · rw [Resource.get_report_of_ne _ hk, FiniteMap.get_erase_of_ne _ hk]
      exact ⟨fun v hv _ => .inl hv, fun hnone => hnone⟩
    · rw [Resource.get_report_of_ne _ hk, r.get_overlay _ hk]
      refine ⟨fun v hv hnull => .inl ?_, fun hnone => ?_⟩
      · rw [get_mergePayload_of_some hv hnull]
        rfl
      · rw [get_mergePayload_of_none hnone, Option.bind_some, r.get_report_of_ne hk, Option.or_self]
  · refine ⟨payload, hbuilds, fun k _ => ⟨fun v hv _ => .inr ⟨rfl, ?_⟩, fun _ => rfl⟩⟩
    exact payloadDiffers_eq_false_iff.mp hagrees k v hv

/-- What the body holds for a removed field that is not a map. -/
theorem ManagedObject.Builds.get_removed {payload : Object} (h : obj.Builds payload) {shape : Shape}
    (hk : (k, shape) ∈ obj.spec.kind.shapes) (hshape : shape ≠ .obj)
    (hremoved : obj.spec.representation.get k = none) :
    payload.get k = (obj.lastApplied.entries.get k).bind zeroFor := by
  rw [h.get fun hrewrites => hshape (Spec.shape_of_rewrites hrewrites hk), hremoved]

variable (hrecord : Typed obj.spec.kind.shapes obj.lastApplied.entries)
include hrecord

/-- **A removed field is cleared**, if it was before or the annotation knows it. -/
theorem Stored.cleared (h : Stored label obj before r) {shape : Shape}
    (hk : (k, shape) ∈ obj.spec.kind.shapes) (hshape : shape.Resettable)
    (hremoved : obj.spec.representation.get k = none)
    (hbefore : Cleared (before.bind fun r => r.report.get k) ∨
      (k ∈ obj.lastApplied.entries.keys ∧
        (before.bind fun r => r.report.get k) ≠ some (.str keycloakMaskedValue))) :
    Cleared (r.report.get k) := by
  have hid : k ≠ "id" := fun hid => Kind.shapes_ne_id (hid ▸ hk)
  obtain ⟨payload, hbuilds, hget⟩ := h.get
  obtain ⟨hset, hkept⟩ := hget k hid
  have hpayload := hbuilds.get_removed hk (by rcases hshape with rfl | rfl | rfl <;> simp) hremoved
  rcases hentry : obj.lastApplied.entries.get k with _ | v
  · rw [hkept (by rw [hpayload, hentry]; rfl)]
    rcases hbefore with hcleared | ⟨hmem, -⟩
    · exact hcleared
    · exact absurd hmem (FiniteMap.get_eq_none_iff.mp hentry)
  · have hv : v.shape = shape := Kind.shape_unique (hrecord k v hentry) hk
    obtain ⟨z, hz, hzero⟩ := zeroFor_of_resettable (hv ▸ hshape)
    have hnull : z ≠ .null := by
      rintro rfl
      simp [JSON.ofList] at hz
    rcases hset z (by rw [hpayload, hentry]; exact hzero) hnull with hstored | ⟨rfl, hagrees⟩
    · exact .inr ⟨z, hz, hstored⟩
    · rcases hbefore with hcleared | ⟨-, hmask⟩
      · exact hcleared
      · exact cleared_of_entryAgrees hz hagrees hmask

/-- **A removed number is left alone.** -/
theorem Stored.num_kept (h : Stored label obj before r) (hk : (k, .num) ∈ obj.spec.kind.shapes)
    (hremoved : obj.spec.representation.get k = none) :
    r.report.get k = before.bind fun r => r.report.get k := by
  have hid : k ≠ "id" := fun hid => Kind.shapes_ne_id (hid ▸ hk)
  obtain ⟨payload, hbuilds, hget⟩ := h.get
  refine (hget k hid).2 ?_
  rw [hbuilds.get_removed hk (by simp) hremoved]
  rcases hentry : obj.lastApplied.entries.get k with _ | v
  · rfl
  · exact zeroFor_of_num (Kind.shape_unique (hrecord k v hentry) hk)

end Stored

/-! ### Values up to order and own keys -/

/-- The mask occurs in the value. -/
def JSON.masked : JSON → Bool
  | .str s => decide (s = keycloakMaskedValue)
  | .arr n items => decide (∃ i : Fin n, (items i).masked = true)
  | .obj keys vals => decide (∃ k : {k // k ∈ keys}, (vals k).masked = true)
  | _ => false

theorem JSON.masked_item {n : Nat} {items : Fin n → JSON} (h : (JSON.arr n items).masked = false)
    (i : Fin n) : (items i).masked = false :=
  Bool.eq_false_iff.mpr fun hi => of_decide_eq_false h ⟨i, hi⟩

theorem JSON.masked_entry {m : Object} (h : (JSON.ofObject m).masked = false) {k : String} {v : JSON}
    (hv : m.get k = some v) : v.masked = false := by
  have hk := FiniteMap.mem_keys_of_get hv
  rw [← FiniteMap.vals_eq_of_get hv hk]
  exact Bool.eq_false_iff.mpr fun hmasked => of_decide_eq_false h ⟨⟨k, hk⟩, hmasked⟩

/-- Equal up to the order of lists, to entries of maps that are not asked for, and to
    entries that are absent where a reset value is asked for. -/
inductive SameValue : JSON → JSON → Prop where
  | scalar {v : JSON} (hv : v.isScalar = true) : SameValue v v
  | list {n m : Nat} {items : Fin n → JSON} {gotItems : Fin m → JSON} (pairing : Fin n ≃ Fin m)
      (hitems : ∀ i, SameValue (items i) (gotItems (pairing i))) :
      SameValue (.arr n items) (.arr m gotItems)
  | object {want got : Object}
      (habsent : ∀ k v, want.get k = some v → presentValue (got.get k) = none →
        v = .null ∨ v ∈ resetValues)
      (hpresent : ∀ k v g, want.get k = some v → presentValue (got.get k) = some g →
        SameValue v g) :
      SameValue (.ofObject want) (.ofObject got)

/-- An entry of a map holds the value that is asked for. -/
structure Holds (want : JSON) (got : Option JSON) : Prop where
  absent : presentValue got = none → want = .null ∨ want ∈ resetValues
  present : ∀ g, presentValue got = some g → SameValue want g

theorem SameValue.refl (v : JSON) : SameValue v v := by
  induction v with
  | arr n items ih => exact .list (Equiv.refl _) ih
  | obj keys vals ih =>
    refine @SameValue.object ⟨keys, vals⟩ ⟨keys, vals⟩ (fun k v hv habsent => ?_)
      (fun k v g hv hg => ?_)
    · rw [hv, presentValue_eq_none] at habsent
      exact .inl (Option.some.inj (habsent.resolve_left (by simp)))
    · rw [hv, presentValue_eq_some] at hg
      obtain rfl := Option.some.inj hg.1
      have hk := FiniteMap.mem_keys_of_get hv
      have hval : vals ⟨k, hk⟩ = v := FiniteMap.vals_eq_of_get hv hk
      exact hval ▸ ih ⟨k, hk⟩
  | _ => exact .scalar rfl

/-- Without masks, a silent comparison leaves no slack in scalars. -/
theorem Matches.sameValue {want got : JSON} (h : Matches want got) (hmask : got.masked = false) :
    SameValue want got := by
  induction h with
  | object hnull hpresent hmatch ih =>
    refine .object (fun k v hv habsent => ?_) (fun k v g hv hg => ?_)
    · by_contra hne
      rw [not_or] at hne
      obtain ⟨g, hg, hgnull⟩ := hpresent k v hv hne.1 hne.2
      rw [presentValue_eq_some.mpr ⟨hg, hgnull⟩] at habsent
      cases habsent
    · obtain ⟨hget, hgnull⟩ := presentValue_eq_some.mp hg
      refine ih k v g hv ?_ hget hgnull (JSON.masked_entry hmask hget)
      rintro rfl
      rcases hnull k hv with hnone | hnone
      · rw [hnone] at hget
        cases hget
      · rw [hnone] at hget
        exact hgnull (Option.some.inj hget).symm
  | list pairing _ ih => exact .list pairing fun i => ih i (JSON.masked_item hmask _)
  | scalar hwant hgot =>
    rcases hgot with rfl | rfl
    · simp [JSON.masked] at hmask
    · exact .scalar hwant

theorem holds_self {v : JSON} (hv : v ≠ .null) : Holds v (some v) where
  absent h := by
    rw [presentValue_eq_some.mpr ⟨rfl, hv⟩] at h
    cases h
  present g h := by
    rw [presentValue_eq_some.mpr ⟨rfl, hv⟩] at h
    exact Option.some.inj h ▸ .refl v

theorem holds_of_entryAgrees {v : JSON} (hv : v ≠ .null) {got : Option JSON} (h : EntryAgrees v got)
    (hmask : ∀ g, got = some g → g.masked = false) : Holds v got where
  absent habsent := .inr (isZeroValue_iff.mp ((entryAgrees_absent hv habsent).mp h))
  present g hg :=
    (matches_of_managedValueEqual ((entryAgrees_present hv hg).mp h)).sameValue
      (hmask g (presentValue_eq_some.mp hg).1)

/-! ### What the spec asks for in its own right -/

/-- The same value, or a map with some of the entries. -/
def SubValue (v v' : JSON) : Prop :=
  v = v' ∨ ∃ m m' : Object, v = .ofObject m ∧ v' = .ofObject m' ∧
    ∀ k x, m.get k = some x → m'.get k = some x

theorem SameValue.of_subValue {v v' g : JSON} (h : SameValue v' g) (hsub : SubValue v v') :
    SameValue v g := by
  rcases hsub with rfl | ⟨m, m', rfl, rfl, hentries⟩
  · exact h
  generalize hvalue : JSON.ofObject m' = value at h
  rcases h with hv | ⟨_, _⟩ | ⟨habsent, hpresent⟩
  · subst hvalue
    cases hv
  · cases hvalue
  · obtain rfl := JSON.ofObject_injective hvalue
    exact .object (fun k x hx => habsent k x (hentries k x hx))
      fun k x g hx => hpresent k x g (hentries k x hx)

theorem Holds.of_subValue {v v' : JSON} {got : Option JSON} (h : Holds v' got)
    (hsub : SubValue v v') : Holds v got where
  absent habsent := by
    rcases hsub with rfl | ⟨m, m', rfl, rfl, hentries⟩
    · exact h.absent habsent
    · right
      have hreset := (h.absent habsent).resolve_left (by simp [JSON.ofObject])
      obtain rfl := eq_empty_of_ofObject_reset hreset
      have hempty : m = ∅ := by
        apply FiniteMap.ext_get
        intro k
        rcases hx : m.get k with _ | x
        · simp
        · exact (hentries k x hx).symm
      rw [hempty]
      exact hreset
  present g hg := (h.present g hg).of_subValue hsub

/-- The entries of the injected field that a Secret fills. -/
def Spec.injectedKeys : Spec → Finset String
  | .realm s => (s.smtpServerSecretRef.map fun selector => selector.keys.keys).getD ∅
  | .identityProvider s => (s.configSecretRef.map fun selector => selector.keys.keys).getD ∅
  | _ => ∅

/-- The operator puts its own value into the entry: the marker, or one from a Secret. -/
def Spec.Overrides (s : Spec) (field entry : String) : Prop :=
  (field = "attributes" ∧ s.kind ≠ .identityProvider ∧ entry = managedAnnotationKey) ∨
    (s.injectedField = some field ∧ entry ∈ s.injectedKeys)

instance (s : Spec) (field entry : String) : Decidable (s.Overrides field entry) :=
  inferInstanceAs (Decidable (_ ∨ _))

/-- The value of a field without the entries that the operator overrides. -/
def Spec.own (s : Spec) (field : String) : JSON → JSON
  | .obj keys vals => .ofObject (.ofFun keys fun k =>
      if s.Overrides field k then none else FiniteMap.get ⟨keys, vals⟩ k)
  | v => v

theorem Spec.own_subValue_map {s : Spec} {field : String} {m m' : Object}
    (h : ∀ k, ¬ s.Overrides field k → m'.get k = m.get k) :
    SubValue (s.own field (.ofObject m)) (.ofObject m') := by
  refine .inr ⟨_, m', rfl, rfl, fun k x hx => ?_⟩
  rw [FiniteMap.get_ofFun] at hx
  split at hx
  · split at hx
    · cases hx
    · rename_i hoverrides
      exact (h k hoverrides).trans hx
  · cases hx

theorem Spec.own_subValue (s : Spec) (field : String) (v : JSON) : SubValue (s.own field v) v := by
  rcases v with _ | _ | _ | _ | _ | ⟨keys, vals⟩
  case obj => exact @Spec.own_subValue_map s field ⟨keys, vals⟩ ⟨keys, vals⟩ fun _ _ => rfl
  all_goals exact .inl rfl

theorem JSON.exists_of_shape_obj {v : JSON} (h : v.shape = .obj) : ∃ m, v = .ofObject m := by
  rcases v with _ | _ | _ | _ | _ | ⟨keys, vals⟩
  case obj => exact ⟨⟨keys, vals⟩, rfl⟩
  all_goals cases h

theorem get_overlayValues_of_notMem {values : FiniteMap String String} {m : Object} {k : String}
    (hk : k ∉ values.keys) : (overlayValues values m).get k = m.get k := by
  unfold overlayValues
  rw [FiniteMap.get_ofFun, FiniteMap.get_eq_none_iff.mpr hk]
  by_cases hm : k ∈ m.keys
  · simp [hm]
  · simp [hm, hk, FiniteMap.get_eq_none_iff.mpr hm]

theorem mapField_of_get {p : Object} {k : String} {m : Object} (h : p.get k = some (.ofObject m)) :
    mapField p k = m := by
  unfold mapField
  rw [h]
  rfl

/-- Rewrites of different fields do not see each other. -/
theorem get_applyAll_of_nodup {rs : List Rewrite} (hnodup : (rs.map Rewrite.field).Nodup)
    {r : Rewrite} (hr : r ∈ rs) (p : Object) :
    (applyAll rs p).get r.field = some (r.value (mapField p r.field)) := by
  induction rs generalizing p with
  | nil => cases hr
  | cons first rs ih =>
    rw [List.map_cons, List.nodup_cons] at hnodup
    change (applyAll rs (first.apply p)).get r.field = _
    rcases List.mem_cons.mp hr with rfl | hr
    · rw [get_applyAll_of_notMem hnodup.1, r.get_apply_self]
    · have hne : r.field ≠ first.field := fun heq => hnodup.1 (heq ▸ List.mem_map_of_mem hr)
      rw [ih hnodup.2 hr, mapField_congr (first.get_apply_of_ne p hne)]

theorem nodup_rewrites (kind : Kind) (inj : Injection) :
    ((rewrites kind inj).map Rewrite.field).Nodup := by
  rcases kind <;> rcases inj <;> simp [rewrites, Kind.marker, Injection.rewrite]

/-- The values that an injection lays over a map. -/
def Injection.values : Injection → FiniteMap String String
  | .smtpServer values | .config values => values
  | _ => ∅

theorem SecretKeysSelector.keys_selected (selector : SecretKeysSelector) (secret : Secret) :
    (selector.selected secret).keys ⊆ selector.keys.keys := by
  intro k hk
  by_contra hnot
  refine FiniteMap.get_eq_none_iff.mp ?_ hk
  rw [selected, FiniteMap.get_ofFun, if_neg hnot]

theorem Injection.For.keys_values {inj : Injection} {s : Spec} (h : inj.For s) :
    inj.values.keys ⊆ s.injectedKeys := by
  obtain ⟨secret, -, rfl⟩ := h
  have hnone : (∅ : FiniteMap String String).keys ⊆ s.injectedKeys := Finset.empty_subset _
  rcases s with s | s | s | s | s | s <;> try exact hnone
  · rcases hselector : s.smtpServerSecretRef with _ | selector
    · simpa [Spec.injection, hselector, values] using hnone
    · simpa [Spec.injection, hselector, values, Spec.injectedKeys] using selector.keys_selected secret
  · rcases hselector : s.secretRef with _ | selector <;>
      simpa [Spec.injection, hselector, values] using hnone
  · rcases hselector : s.configSecretRef with _ | selector
    · simpa [Spec.injection, hselector, values] using hnone
    · simpa [Spec.injection, hselector, values, Spec.injectedKeys] using selector.keys_selected secret

theorem Kind.marker_value {kind : Kind} {r : Rewrite} (h : kind.marker = some r) (m : Object) :
    r.field = "attributes" ∧ kind ≠ .identityProvider ∧
      ∃ v, r.value m = .ofObject (m.put managedAnnotationKey v) := by
  rcases kind <;> cases h <;> exact ⟨rfl, by simp, _, rfl⟩

/-- No spec has a field for the client secret. -/
theorem Kind.secret_notMem_shapes (kind : Kind) : "secret" ∉ kind.shapes.map Prod.fst := by
  rcases kind <;> decide +kernel

/-- A rewrite changes only the entries that the operator overrides. -/
theorem Spec.rewrite_entries {s : Spec} {inj : Injection} (hinj : inj.For s) {r : Rewrite}
    (hr : r ∈ rewrites s.kind inj) {m : Object} (hm : (r.field, Shape.obj) ∈ s.kind.shapes) :
    ∃ m', r.value m = .ofObject m' ∧ ∀ k, ¬ s.Overrides r.field k → m'.get k = m.get k := by
  rcases List.mem_append.mp hr with hmarker | hinjected
  · obtain ⟨hfield, hkind, v, hvalue⟩ := Kind.marker_value (Option.mem_toList.mp hmarker) m
    refine ⟨_, hvalue, fun k hk => FiniteMap.get_put_of_ne _ _ ?_⟩
    exact fun heq => hk (.inl ⟨hfield, hkind, heq⟩)
  · have hfield := hinj.field
    have hkeys := hinj.keys_values
    rcases inj with _ | value | values | values
    · cases hinjected
    · obtain rfl := List.mem_singleton.mp hinjected
      exact absurd (List.mem_map_of_mem hm) s.kind.secret_notMem_shapes
    all_goals
      obtain rfl := List.mem_singleton.mp hinjected
      refine ⟨_, rfl, fun k hk => get_overlayValues_of_notMem fun hmem => hk (.inr ⟨?_, hkeys hmem⟩)⟩
      exact hfield.symm

/-- The body has the entries of a map of the spec, but for those that the operator overrides. -/
theorem ManagedObject.Builds.get_map {obj : ManagedObject} {payload m : Object}
    (h : obj.Builds payload) {k : String} (hm : obj.spec.representation.get k = some (.ofObject m)) :
    ∃ m', payload.get k = some (.ofObject m') ∧
      ∀ entry, ¬ obj.spec.Overrides k entry → m'.get entry = m.get entry := by
  by_cases hk : obj.spec.Rewrites k
  · obtain ⟨effective, inj, heffective, hinj, rfl⟩ := h
    have hmap : mapField effective k = m :=
      mapField_of_get (by rw [get_effectivePayload heffective, hm])
    obtain ⟨r, hr, rfl⟩ := List.mem_map.mp ((mem_rewrites_iff hinj k).mpr hk)
    obtain ⟨m', hvalue, hentries⟩ :=
      Spec.rewrite_entries (m := m) hinj hr (obj.spec.typed_representation _ _ hm)
    refine ⟨m', ?_, hentries⟩
    rw [builtPayload, get_applyAll_of_nodup (nodup_rewrites _ _) hr, hmap, hvalue]
  · refine ⟨m, ?_, fun _ _ => rfl⟩
    rw [h.get hk, hm]

/-- The body holds what the spec asks for in its own right. -/
theorem ManagedObject.Builds.get_own {obj : ManagedObject} {payload : Object}
    (h : obj.Builds payload) {k : String} {v : JSON} (hv : obj.spec.representation.get k = some v) :
    ∃ p, payload.get k = some p ∧ p.shape = v.shape ∧ SubValue (obj.spec.own k v) p := by
  by_cases hk : obj.spec.Rewrites k
  · have hshape := Spec.shape_of_rewrites hk (obj.spec.typed_representation k v hv)
    obtain ⟨m, rfl⟩ := JSON.exists_of_shape_obj hshape
    obtain ⟨m', hget, hentries⟩ := h.get_map hv
    exact ⟨.ofObject m', hget, rfl, Spec.own_subValue_map hentries⟩
  · refine ⟨v, ?_, rfl, obj.spec.own_subValue k v⟩
    rw [h.get hk, hv]

theorem Stored.holds {label : String} {obj : ManagedObject} {before : Option Resource} {r : Resource}
    (h : Stored label obj before r) {k : String} {v : JSON}
    (hv : obj.spec.representation.get k = some v)
    (hmask : ∀ r, before = some r → ∀ g, r.report.get k = some g → g.masked = false) :
    Holds (obj.spec.own k v) (r.report.get k) := by
  have hshape := obj.spec.typed_representation k v hv
  obtain ⟨payload, hbuilds, hget⟩ := h.get
  obtain ⟨p, hp, hpshape, hsub⟩ := hbuilds.get_own hv
  have hnull : p ≠ .null := by
    rintro rfl
    exact Kind.shapes_not_null (hpshape ▸ hshape)
  refine Holds.of_subValue ?_ hsub
  rcases (hget k fun hid => Kind.shapes_ne_id (hid ▸ hshape)).1 p hp hnull with
    hstored | ⟨hbefore, hagrees⟩
  · exact hstored ▸ holds_self hnull
  · exact holds_of_entryAgrees hnull hagrees (hmask r hbefore)

/-! ### Histories -/

/-- Both specs name the same resource. -/
structure Spec.SameTarget (s s' : Spec) : Prop where
  kind : s.kind = s'.kind
  connection : s.connectionName = s'.connectionName
  realm : s.targetRealm = s'.targetRealm
  key : s.naturalKey = s'.naturalKey

instance (s s' : Spec) : Decidable (s.SameTarget s') :=
  decidable_of_iff (s.kind = s'.kind ∧ s.connectionName = s'.connectionName ∧
      s.targetRealm = s'.targetRealm ∧ s.naturalKey = s'.naturalKey)
    ⟨fun ⟨h₁, h₂, h₃, h₄⟩ => ⟨h₁, h₂, h₃, h₄⟩, fun ⟨h₁, h₂, h₃, h₄⟩ => ⟨h₁, h₂, h₃, h₄⟩⟩

theorem Spec.SameTarget.trans {s s' s'' : Spec} (h : s.SameTarget s') (h' : s'.SameTarget s'') :
    s.SameTarget s'' :=
  ⟨h.kind.trans h'.kind, h.connection.trans h'.connection, h.realm.trans h'.realm,
    h.key.trans h'.key⟩

theorem World.target_congr {s s' : Spec} (h : s.SameTarget s') (w : World) (kc : Conn) :
    w.target kc s = w.target kc s' := by
  unfold World.target Spec.place
  rw [h.kind, h.realm, h.key]

/-- The user edits the spec. -/
def Edits (allowed : World → Spec → Prop) (w w' : World) : Prop :=
  ∃ spec, allowed w spec ∧ w' = w.edit spec

/-- Edits that leave the connection, the realm and the natural key alone. -/
def KeepsTarget (w : World) (spec : Spec) : Prop :=
  ∀ obj ∈ w.object, spec.SameTarget obj.spec

instance (w : World) (spec : Spec) : Decidable (KeepsTarget w spec) :=
  inferInstanceAs (Decidable (∀ _ ∈ w.object, _))

/-- The pass ends in `finalize`. -/
def Succeeds (result : Option (Except Err (Option Pass))) : Prop :=
  ∃ pass, result = some (.ok (some pass)) ∧ pass.finalized = true

/-- No pass finds the mask under a field that one of the specs has. -/
def NeverMasked (kc : Conn) (steps : List (Step operations World)) : Prop :=
  ∀ step ∈ steps, ∀ obj ∈ readObject step, ∀ r ∈ step.before.target kc obj.spec,
    ∀ old ∈ readObjects steps, ∀ k ∈ old.spec.representation.keys,
      ∀ g ∈ r.report.get k, g.masked = false

instance (kc : Conn) (steps : List (Step operations World)) : Decidable (NeverMasked kc steps) :=
  inferInstanceAs (Decidable (∀ _ ∈ steps, _))

theorem Engine.readObjects_reconcile {e : Engine} {env : Env operations σ} {obj : ManagedObject}
    (hlive : obj.deletionTimestamp = none) {s t : σ} {steps : List (Step operations σ)}
    {result : Option Pass} (hexec : Exec env (e.reconcile obj) s steps t result) :
    readObjects steps = [] := by
  have honly : Only (· ≠ Op.getObject) (e.reconcile obj) := by
    have hreports : ∀ op, Op.Remarks op → op ≠ .getObject := by
      rintro op hop rfl
      exact hop
    have hreads : ∀ op, Op.Reads op → op ≠ .getObject := by
      rintro op hop rfl
      exact hop
    have hsecrets : ∀ op, Op.WritesSecret op → op ≠ .getObject := by
      rintro op hop rfl
      exact hop
    have henforces : ∀ kc id op, Enforces obj.spec kc id op → op ≠ .getObject := by
      rintro kc id op ⟨method, endpoint, body, rfl, -⟩ h
      cases h
    refine e.only_reconcile (fun _ _ h => by cases h) (e.only_reconcileWith hreports
      (fun _ h => by cases h) (fun _ h => by cases h) ?_ fun _ _ kc => ?_)
    · intro hdeleted
      simp [hlive] at hdeleted
    · exact e.only_apply hreads hsecrets hreports (fun _ _ h => by cases h) (fun _ _ h => by cases h)
        (fun _ _ _ _ h => by cases h) (henforces kc)
  refine List.filterMap_eq_nil_iff.mpr fun step hstep => readObject_eq_none ?_
  exact hexec.only honly step hstep

/-- A successful pass over a live resource reads it once and settles it. -/
theorem Engine.exec_succeeds {e : Engine} {w t : World} {steps : Log}
    {result : Option (Except Err (Option Pass))}
    (hexec : Exec Faulty e.controllerReconcile.run w steps t result) (hends : Succeeds result)
    {obj : ManagedObject} {kc : Conn} (hobject : w.object = some obj)
    (hlive : obj.deletionTimestamp = none)
    (hconnection : w.connections obj.ns obj.spec.connectionName = .ok kc) :
    (∃ rest, steps = ⟨w, .getObject, .ok obj, w⟩ :: rest) ∧ readObjects steps = [obj] ∧
      Settles kc obj (w.view kc obj.spec) (t.view kc obj.spec) := by
  obtain ⟨pass, rfl, hfinalized⟩ := hends
  rcases e.exec_pass hexec with ⟨-, hresult⟩ | ⟨obj', w', rest, reached, hget, rfl, hrest, hreached⟩
  · exact absurd rfl (hresult pass)
  obtain ⟨rfl, hstored⟩ := faulty_getObject_ok hget
  obtain rfl : obj' = obj := Option.some.inj (hstored.symm.trans hobject)
  have hread : readObjects rest = [] := readObjects_reconcile hlive hrest
  refine ⟨⟨rest, rfl⟩, congrArg (obj' :: ·) hread, ?_⟩
  exact ((wp_sound (wp_reconcile hobject hlive hconnection) hrest).2 pass (hreached pass rfl)).2
    hfinalized

/-- The state between the passes of a history over the versions `history`. -/
structure World.Cleaned (w : World) (kc : Conn) (history : List ManagedObject) (obj : ManagedObject) :
    Prop where
  object : w.object = some obj
  live : obj.deletionTimestamp = none
  connection : w.connections obj.ns obj.spec.connectionName = .ok kc
  sameTarget : ∀ old ∈ history, old.spec.SameTarget obj.spec
  typed : history ≠ [] → Typed obj.spec.kind.shapes obj.lastApplied.entries
  cleared : history ≠ [] → ∃ r, w.target kc obj.spec = some r ∧
    ∀ old ∈ history, ∀ k v, old.spec.representation.get k = some v → v.shape.Resettable →
      k ∉ obj.lastApplied.entries.keys → Cleared (r.report.get k)

section History

variable {w t : World} {kc : Conn} {history : List ManagedObject} {obj : ManagedObject}

/-- A field of an earlier version is a field of the kind. -/
theorem World.Cleaned.mem_shapes (h : w.Cleaned kc history obj) {old : ManagedObject}
    (hold : old ∈ history) {k : String} {v : JSON} (hv : old.spec.representation.get k = some v) :
    (k, v.shape) ∈ obj.spec.kind.shapes :=
  (h.sameTarget old hold).kind ▸ old.spec.typed_representation k v hv

/-- What earlier passes applied and the spec does not have any more is cleared by a
    pass. -/
theorem World.Cleaned.pass_cleared (h : w.Cleaned kc history obj) {r : Resource}
    (hstored : Stored kc.label obj (w.target kc obj.spec) r)
    (hmask : ∀ r ∈ w.target kc obj.spec, ∀ old ∈ history, ∀ k ∈ old.spec.representation.keys,
      ∀ g ∈ r.report.get k, g.masked = false)
    {old : ManagedObject} (hold : old ∈ history) {k : String} {v : JSON}
    (hv : old.spec.representation.get k = some v) (hshape : v.shape.Resettable)
    (hremoved : obj.spec.representation.get k = none) : Cleared (r.report.get k) := by
  have hne : history ≠ [] := List.ne_nil_of_mem hold
  obtain ⟨r₀, htarget, hcleared⟩ := h.cleared hne
  refine hstored.cleared (h.typed hne) (h.mem_shapes hold hv) hshape hremoved ?_
  rw [htarget, Option.bind_some]
  by_cases hk : k ∈ obj.lastApplied.entries.keys
  · refine .inr ⟨hk, fun hmasked => ?_⟩
    have := hmask r₀ htarget old hold k (FiniteMap.mem_keys_of_get hv) _ hmasked
    simp [JSON.masked] at this
  · exact .inl (hcleared old hold k v hv hshape hk)

/-- The invariant through a successful pass. -/
theorem World.Cleaned.settled (h : w.Cleaned kc history obj)
    (hsettles : Settles kc obj (w.view kc obj.spec) (t.view kc obj.spec))
    (hmask : ∀ r ∈ w.target kc obj.spec, ∀ old ∈ history, ∀ k ∈ old.spec.representation.keys,
      ∀ g ∈ r.report.get k, g.masked = false) :
    ∃ obj', obj'.spec = obj.spec ∧ t.Cleaned kc (history ++ [obj]) obj' := by
  obtain ⟨hconnections, hobject, r, hresource, hstored⟩ := hsettles
  obtain ⟨obj', hobj', hcore⟩ := Option.map_eq_some_iff.mp hobject
  have hspec : obj'.spec = obj.spec := congrArg Core.spec hcore
  have hlastApplied : obj'.lastApplied = .marshalled obj.spec.representation :=
    congrArg Core.lastApplied hcore
  refine ⟨obj', hspec, hobj', ?_, ?_, ?_, fun _ => ?_, fun _ => ⟨r, ?_, ?_⟩⟩
  · exact (congrArg Core.deletionTimestamp hcore).trans h.live
  · rw [hspec, show obj'.ns = obj.ns from congrArg Core.ns hcore]
    exact (congrFun (congrFun hconnections _) _).trans h.connection
  · intro old hold
    rw [hspec]
    rcases List.mem_append.mp hold with hold | hold
    · exact h.sameTarget old hold
    · obtain rfl := List.mem_singleton.mp hold
      exact ⟨rfl, rfl, rfl, rfl⟩
  · rw [hspec, hlastApplied]
    exact obj.spec.typed_representation
  · rw [hspec]
    exact hresource
  · intro old hold k v hv hshape hk
    rw [hlastApplied] at hk
    have hremoved : obj.spec.representation.get k = none := FiniteMap.get_eq_none_iff.mpr hk
    rcases List.mem_append.mp hold with hold | hold
    · exact h.pass_cleared hstored hmask hold hv hshape hremoved
    · obtain rfl := List.mem_singleton.mp hold
      rw [hv] at hremoved
      cases hremoved

theorem World.Cleaned.edit (h : w.Cleaned kc history obj) {spec : Spec}
    (hspec : spec.SameTarget obj.spec) :
    (w.edit spec).Cleaned kc history { obj with spec := spec, generation := obj.generation + 1 } where
  object := by simp [World.edit, h.object]
  live := h.live
  connection := (congrArg _ hspec.connection).trans h.connection
  sameTarget old hold := (h.sameTarget old hold).trans
    ⟨hspec.kind.symm, hspec.connection.symm, hspec.realm.symm, hspec.key.symm⟩
  typed hne := by
    rw [hspec.kind]
    exact h.typed hne
  cleared hne := by
    obtain ⟨r, htarget, hcleared⟩ := h.cleared hne
    exact ⟨r, (World.target_congr hspec w kc).trans htarget, hcleared⟩

theorem NeverMasked.left {steps more : Log}
    (h : NeverMasked kc (steps ++ more)) : NeverMasked kc steps := by
  intro step hstep obj hobj r hr old hold
  refine h step (List.mem_append_left _ hstep) obj hobj r hr old ?_
  rw [readObjects_append]
  exact List.mem_append_left _ hold

theorem NeverMasked.pass {steps rest : Log}
    (h : NeverMasked kc (steps ++ ⟨w, .getObject, .ok obj, w⟩ :: rest)) :
    ∀ r ∈ w.target kc obj.spec, ∀ old ∈ readObjects steps ++ [obj],
      ∀ k ∈ old.spec.representation.keys, ∀ g ∈ r.report.get k, g.masked = false := by
  intro r hr old hold
  refine h _ (List.mem_append_right _ List.mem_cons_self) obj rfl r hr old ?_
  rw [readObjects_append]
  refine List.mem_append.mpr ((List.mem_append.mp hold).imp_right fun hlast => ?_)
  exact List.mem_singleton.mp hlast ▸ List.mem_cons_self

/-- The invariant along a history of successful passes and edits. -/
theorem World.Cleaned.run {e : Engine} {steps : Log}
    (hrun : Run Faulty (Edits KeepsTarget) e.controllerReconcile.run Succeeds w steps t)
    (hstart : ∃ obj, w.Cleaned kc [] obj) (hmask : NeverMasked kc steps) :
    ∃ obj, t.Cleaned kc (readObjects steps) obj := by
  induction hrun with
  | start => exact hstart
  | move _ hmove ih =>
    obtain ⟨obj, hcleaned⟩ := ih hmask
    obtain ⟨spec, hkeeps, rfl⟩ := hmove
    exact ⟨_, hcleaned.edit (hkeeps obj hcleaned.object)⟩
  | pass _ hexec hends ih =>
    obtain ⟨obj, hcleaned⟩ := ih hmask.left
    obtain ⟨⟨rest, rfl⟩, hread, hsettles⟩ :=
      Engine.exec_succeeds hexec hends hcleaned.object hcleaned.live hcleaned.connection
    obtain ⟨obj', -, hcleaned'⟩ := hcleaned.settled hsettles fun r hr old hold =>
      hmask.pass r hr old (List.mem_append_left _ hold)
    rw [readObjects_append, hread]
    exact ⟨obj', hcleaned'⟩

end History

/-- **Declarative removal.**  After every successful pass of a history, strings, booleans
    and lists that an earlier pass applied and the spec does not have any more are
    cleared, removed numbers keep their value, and what the spec asks for in its own right
    is on the server. -/
theorem removal_over_histories (e : Engine) {kc : Conn} {w t t' : World} {first : ManagedObject}
    {steps more : List (Step operations World)} {result : Option (Except Err (Option Pass))}
    (hobject : w.object = some first) (hlive : first.deletionTimestamp = none)
    (hconnection : w.connections first.ns first.spec.connectionName = .ok kc)
    (hrun : Run Faulty (Edits KeepsTarget) e.controllerReconcile.run Succeeds w steps t)
    (hpass : Exec Faulty e.controllerReconcile.run t more t' result) (hends : Succeeds result)
    (hmask : NeverMasked kc (steps ++ more)) :
    ∃ obj r, t.object = some obj ∧ t'.target kc obj.spec = some r ∧
      (∀ old ∈ readObjects steps, ∀ k v, old.spec.representation.get k = some v →
        obj.spec.representation.get k = none →
          (v.shape.Resettable → Cleared (r.report.get k)) ∧
          (v.shape = .num → ∃ r₀, t.target kc obj.spec = some r₀ ∧
            r.report.get k = r₀.report.get k)) ∧
      ∀ k v, obj.spec.representation.get k = some v →
        Holds (obj.spec.own k v) (r.report.get k) := by
  have hstart : w.Cleaned kc [] first :=
    ⟨hobject, hlive, hconnection, fun _ h => absurd h List.not_mem_nil, fun h => absurd rfl h,
      fun h => absurd rfl h⟩
  obtain ⟨obj, hcleaned⟩ := World.Cleaned.run hrun ⟨first, hstart⟩ hmask.left
  obtain ⟨⟨rest, rfl⟩, -, -, -, r, hresource, hstored⟩ :=
    Engine.exec_succeeds hpass hends hcleaned.object hcleaned.live hcleaned.connection
  have hunmasked := hmask.pass
  refine ⟨obj, r, hcleaned.object, hresource, fun old hold k v hv hremoved => ⟨fun hshape => ?_,
    fun hnum => ?_⟩, fun k v hv => ?_⟩
  · exact hcleaned.pass_cleared hstored
      (fun r hr old hold => hunmasked r hr old (List.mem_append_left _ hold)) hold hv hshape hremoved
  · have hne : readObjects steps ≠ [] := List.ne_nil_of_mem hold
    obtain ⟨r₀, htarget, -⟩ := hcleaned.cleared hne
    have hk := hcleaned.mem_shapes hold hv
    rw [hnum] at hk
    refine ⟨r₀, htarget, ?_⟩
    rw [hstored.num_kept (hcleaned.typed hne) hk hremoved,
      show (t.view kc obj.spec).resource = some r₀ from htarget]
    rfl
  · refine hstored.holds hv fun r₀ hr₀ g hg => ?_
    exact hunmasked r₀ hr₀ obj (List.mem_append_right _ List.mem_cons_self) k
      (FiniteMap.mem_keys_of_get hv) g hg

/-! ### Concrete histories -/

theorem succeeds_of_finalized {result : Option (Except Err (Option Pass))}
    (h : (match result with
      | some (.ok (some pass)) => pass.finalized
      | _ => false) = true) : Succeeds result := by
  split at h
  · exact ⟨_, rfl, h⟩
  · cases h

def enabledFields : Fields clientFields := ⟨.ofList [("enabled", .bool true)], by decide⟩

def describedPortal : World :=
  .around { clientObject "portal" with spec := clientWith "demo" describedFields } ∅

/-- The description and the redirect URIs are removed after the first pass. -/
theorem described_portal_cleared :
    ∃ r, (describedPortal.afterPass.edit (clientWith "demo" enabledFields)).afterPass.target
        ⟨"main", "keycloak"⟩ (clientWith "demo" enabledFields) = some r ∧
      Cleared (r.report.get "description") ∧ Cleared (r.report.get "redirectUris") ∧
      Holds (.bool true) (r.report.get "enabled") := by
  let t := describedPortal.afterPass.edit (clientWith "demo" enabledFields)
  have hrun : Run Faulty (Edits KeepsTarget) (newEngine true 0).controllerReconcile.run Succeeds
      describedPortal describedPortal.passSteps t :=
    .move (.pass (.start _) (describedPortal.exec_pass.mono faulty_of_reliable)
      (succeeds_of_finalized (by decide))) ⟨_, by decide, rfl⟩
  have hconnection : describedPortal.connections "apps" "main" = .ok ⟨"main", "keycloak"⟩ := rfl
  obtain ⟨obj, r, hobject, htarget, hremoved, hasked⟩ :=
    removal_over_histories (newEngine true 0) rfl rfl hconnection hrun
      (t.exec_pass.mono faulty_of_reliable) (succeeds_of_finalized (by decide)) (by decide)
  have hspec : ∀ obj ∈ t.object, obj.spec = clientWith "demo" enabledFields := by decide
  have hread : ∃ old ∈ readObjects describedPortal.passSteps,
      old.spec = clientWith "demo" describedFields := by decide
  obtain ⟨old, hold, holdSpec⟩ := hread
  rw [hspec obj hobject] at htarget hremoved hasked
  refine ⟨r, htarget, ?_, ?_, hasked "enabled" (.bool true) (by decide)⟩
  · exact (hremoved old hold "description" (.str "old") (by rw [holdSpec]; decide) (by decide)).1
      (by decide)
  · exact (hremoved old hold "redirectUris" (jsonStrings ["a", "b"]) (by rw [holdSpec]; decide)
      (by decide)).1 (by decide)

/-! ### Where the spec does not have the last word -/

theorem SameValue.eq_of_scalar {v g : JSON} (h : SameValue v g) (hv : v.isScalar = true) : g = v := by
  rcases h with _ | ⟨_, _⟩ | ⟨_, _⟩
  · rfl
  · cases hv
  · cases hv

/-- A scalar entry of a map that is asked for is there. -/
theorem Holds.entry_eq {m g : Object} {k : String} {v x : JSON}
    (h : Holds (.ofObject m) (some (.ofObject g))) (hv : m.get k = some v)
    (hscalar : v.isScalar = true) (hx : presentValue (g.get k) = some x) : x = v := by
  have hsame := h.present (.ofObject g) rfl
  generalize hwant : JSON.ofObject m = want at hsame
  generalize hgot : JSON.ofObject g = got at hsame
  rcases hsame with hobj | ⟨_, _⟩ | ⟨_, hpresent⟩
  · subst hwant
    cases hobj
  · cases hwant
  · obtain rfl := JSON.ofObject_injective hwant
    obtain rfl := JSON.ofObject_injective hgot
    exact (hpresent k v x hv hx).eq_of_scalar hscalar

/-- A realm that claims not to be managed, with the mail host from a Secret as well as
    from the spec. -/
def mailRealm : Spec :=
  .realm
    { keycloakRef := "main", realm := "demo"
      smtpServerSecretRef := some ⟨"smtp", .ofList [("host", "host")]⟩
      fields := ⟨.ofList [
        ("attributes", .ofObject (.ofList [( managedAnnotationKey, .str "false")])),
        ("smtpServer", .ofObject (.ofList [("host", .str "a.example")]))], by decide⟩ }

def mailWorld : World :=
  { World.around { demoObject with spec := mailRealm } ∅ with
    secrets := fun _ _ => some ⟨"apps", "smtp", .ofList [("host", "b.example")], [], 0⟩ }

/-- Edits that leave the connection and the natural key alone, but not the realm. -/
def KeepsKey (w : World) (spec : Spec) : Prop :=
  ∀ obj ∈ w.object, spec.kind = obj.spec.kind ∧
    spec.connectionName = obj.spec.connectionName ∧ spec.naturalKey = obj.spec.naturalKey

instance (w : World) (spec : Spec) : Decidable (KeepsKey w spec) :=
  inferInstanceAs (Decidable (∀ _ ∈ w.object, _))

def five : JSON := .num ⟨0x4014000000000000#64, by decide⟩

def seven : JSON := .num ⟨0x401C000000000000#64, by decide⟩

def timeoutFields : Fields clientFields :=
  ⟨.ofList [("nodeReRegistrationTimeout", five)], by decide⟩

/-- The client `portal` of another realm. -/
def otherPortal : Resource where
  id := "7"
  rep := .ofList [("clientId", .str "portal"), ("nodeReRegistrationTimeout", seven),
    ("attributes", .ofObject (.ofList [( managedAnnotationKey, .str managedValue)]))]

def movingPortal : World :=
  .around { clientObject "portal" with spec := clientWith "demo" timeoutFields }
    ((∅ : Server).setResources ⟨.client, "other"⟩ ⟨[otherPortal], by decide, by decide⟩)

/-- The marker and the Secret win over the spec, and a removed number does not follow the
    client to another realm. -/
theorem spec_overridden_and_realm_moved :
    (∃ steps w r, Run Reliable (Edits KeepsTarget) (newEngine true 0).controllerReconcile.run
        Succeeds mailWorld steps w ∧ NeverMasked ⟨"main", "keycloak"⟩ steps ∧
      w.target ⟨"main", "keycloak"⟩ mailRealm = some r ∧
      (∃ v, mailRealm.representation.get "attributes" = some v ∧
        ¬ Holds v (r.report.get "attributes")) ∧
      ∃ v, mailRealm.representation.get "smtpServer" = some v ∧
        ¬ Holds v (r.report.get "smtpServer")) ∧
    ∃ steps w r r', Run Reliable (Edits KeepsKey) (newEngine true 0).controllerReconcile.run
        Succeeds movingPortal steps w ∧ NeverMasked ⟨"main", "keycloak"⟩ steps ∧
      (∀ obj ∈ w.object, obj.spec = clientWith "other" enabledFields) ∧
      (clientWith "other" enabledFields).representation.get "nodeReRegistrationTimeout" = none ∧
      movingPortal.afterPass.target ⟨"main", "keycloak"⟩ (clientWith "demo" timeoutFields) = some r ∧
      r.report.get "nodeReRegistrationTimeout" = some five ∧
      w.target ⟨"main", "keycloak"⟩ (clientWith "other" enabledFields) = some r' ∧
      r'.report.get "nodeReRegistrationTimeout" = some seven := by
  constructor
  · have hreport : (mailWorld.afterPass.target ⟨"main", "keycloak"⟩ mailRealm).any (fun r =>
        decide (r.report.get "attributes" =
            some (.ofObject (.ofList [( managedAnnotationKey, .str "true")])) ∧
          r.report.get "smtpServer" =
            some (.ofObject (.ofList [("host", .str "b.example")])))) = true := by decide +kernel
    obtain ⟨r, htarget, hreport⟩ := (Option.any_eq_true _ _).mp hreport
    obtain ⟨hattributes, hsmtp⟩ := of_decide_eq_true hreport
    refine ⟨_, _, r, .pass (.start _) mailWorld.exec_pass
      (succeeds_of_finalized (by decide +kernel)), by decide +kernel, htarget,
      ⟨.ofObject (.ofList [( managedAnnotationKey, .str "false")]), by decide, fun h => ?_⟩,
      ⟨.ofObject (.ofList [("host", .str "a.example")]), by decide, fun h => ?_⟩⟩
    · rw [hattributes] at h
      exact absurd (h.entry_eq (k := managedAnnotationKey) (v := .str "false") (x := .str "true")
        (by decide) rfl (by decide)) (by decide)
    · rw [hsmtp] at h
      exact absurd (h.entry_eq (k := "host") (v := .str "a.example") (x := .str "b.example")
        (by decide) rfl (by decide)) (by decide)
  · have hbefore : (movingPortal.afterPass.target ⟨"main", "keycloak"⟩
        (clientWith "demo" timeoutFields)).any (fun r =>
          decide (r.report.get "nodeReRegistrationTimeout" = some five)) = true := by decide
    have hafter : ((movingPortal.afterPass.edit (clientWith "other" enabledFields)).afterPass.target
        ⟨"main", "keycloak"⟩ (clientWith "other" enabledFields)).any (fun r =>
          decide (r.report.get "nodeReRegistrationTimeout" = some seven)) = true := by decide
    obtain ⟨r, htarget, hfive⟩ := (Option.any_eq_true _ _).mp hbefore
    obtain ⟨r', htarget', hseven⟩ := (Option.any_eq_true _ _).mp hafter
    refine ⟨_, _, r, r', .pass (.move (.pass (.start _) movingPortal.exec_pass
      (succeeds_of_finalized (by decide))) ⟨clientWith "other" enabledFields, by decide, rfl⟩)
      (World.exec_pass _) (succeeds_of_finalized (by decide)), by decide, by decide, by decide,
      htarget, of_decide_eq_true hfive, htarget', of_decide_eq_true hseven⟩

end KeycloakOperator
