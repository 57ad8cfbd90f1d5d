import KeycloakOperator.Phases

/-!
# The types of the representation fields

A field has one JSON type in all specs of a kind, whatever value it has.  The annotation
records an earlier spec, so the value that a removed field is reset to has the type of
the values it had before.  Fields that the marker or a Secret rewrites are maps, and no
field is called `id`.
-/

namespace KeycloakOperator

/-- The JSON type of a value. -/
inductive Shape where
  | null | bool | num | str | arr | obj
deriving DecidableEq, Repr

def JSON.shape : JSON → Shape
  | .null => .null
  | .bool _ => .bool
  | .num _ => .num
  | .str _ => .str
  | .arr _ _ => .arr
  | .obj _ _ => .obj

/-- The types that a removed field is reset for, other than maps. -/
def Shape.Resettable (shape : Shape) : Prop := shape = .str ∨ shape = .bool ∨ shape = .arr

instance (shape : Shape) : Decidable shape.Resettable := inferInstanceAs (Decidable (_ ∨ _ ∨ _))

def FieldType.shape : FieldType → Shape
  | .string => .str
  | .bool => .bool
  | .int => .num
  | .strings => .arr
  | .stringMap => .obj
  | .stringListMap => .obj
  | .protocolMappers => .arr

theorem FieldType.shape_of_accepts {type : FieldType} {v : JSON} (h : type.accepts v = true) :
    v.shape = type.shape := by
  rcases type <;> rcases v <;> first | rfl | cases h

/-! ### The fields of a kind -/

def FieldTable.shapes (table : FieldTable) : List (String × Shape) :=
  table.map fun field => (field.1, field.2.shape)

/-- The fields of `Spec.headerEntries`. -/
def headerShapes : List (String × Shape) :=
  [("keycloakRef", .obj), ("realm", .str), ("adoptionPolicy", .str), ("deletionPolicy", .str)]

/-- All the fields of `toJSONMap`. -/
def Kind.shapes : Kind → List (String × Shape)
  | .realm => headerShapes ++ [("smtpServerSecretRef", .obj)] ++ realmFields.shapes
  | .client => headerShapes ++ [("clientId", .str), ("secretRef", .obj), ("secretOutput", .obj),
      ("defaultClientScopes", .arr), ("optionalClientScopes", .arr)] ++ clientFields.shapes
  | .clientScope => headerShapes ++ [("name", .str)] ++ clientScopeFields.shapes
  | .realmRole => headerShapes ++ [("name", .str), ("composite", .bool), ("composites", .obj)] ++
      realmRoleFields.shapes
  | .identityProvider => headerShapes ++ [("alias", .str), ("providerId", .str),
      ("configSecretRef", .obj), ("mappers", .arr)] ++ identityProviderFields.shapes
  | .group => headerShapes ++ [("name", .str), ("realmRoles", .arr), ("clientRoles", .obj)] ++
      groupFields.shapes

theorem Kind.nodup_shapes (kind : Kind) : (kind.shapes.map Prod.fst).Nodup := by
  rcases kind <;> decide +kernel

/-- **A field has one type** in all specs of a kind. -/
theorem Kind.shape_unique {kind : Kind} {field : String} {shape shape' : Shape}
    (h : (field, shape) ∈ kind.shapes) (h' : (field, shape') ∈ kind.shapes) : shape = shape' :=
  congrArg Prod.snd (List.inj_on_of_nodup_map kind.nodup_shapes h h' rfl)

theorem Kind.shapes_ne_id {kind : Kind} {shape : Shape} : ("id", shape) ∉ kind.shapes := by
  have hnames : "id" ∉ kind.shapes.map Prod.fst := by
    rcases kind <;> decide +kernel
  exact fun h => hnames (List.mem_map_of_mem h)

theorem Kind.shapes_not_null {kind : Kind} {field : String} : (field, Shape.null) ∉ kind.shapes := by
  have hshapes : Shape.null ∉ kind.shapes.map Prod.snd := by
    rcases kind <;> decide +kernel
  exact fun h => hshapes (List.mem_map_of_mem h)

/-! ### Typed maps -/

/-- Every entry has the type that the list gives it. -/
def Typed (shapes : List (String × Shape)) (m : Object) : Prop :=
  ∀ k v, m.get k = some v → (k, v.shape) ∈ shapes

namespace Typed

variable {shapes more : List (String × Shape)} {m : Object}

theorem mono (h : Typed shapes m) (hsub : shapes ⊆ more) : Typed more m :=
  fun k v hv => hsub (h k v hv)

theorem put (h : Typed shapes m) {k : String} {v : JSON} (hv : (k, v.shape) ∈ shapes) :
    Typed shapes (m.put k v) := by
  intro k' v' hget
  rw [FiniteMap.get_put] at hget
  split at hget
  · cases hget
    rename_i hk
    exact hk ▸ hv
  · exact h k' v' hget

theorem putSome (h : Typed shapes m) {k : String} {value : Option JSON}
    (hvalue : ∀ v, value = some v → (k, v.shape) ∈ shapes) :
    Typed shapes (KeycloakOperator.putSome m k value) := by
  rcases value with _ | v
  · exact h
  · exact h.put (hvalue v rfl)

end Typed

theorem Fields.typed_shapes {table : FieldTable} (fields : Fields table) :
    Typed table.shapes fields.entries := by
  intro k v hv
  have hk := FiniteMap.mem_keys_of_get hv
  have hval : fields.entries.vals ⟨k, hk⟩ = v := FiniteMap.vals_eq_of_get hv hk
  obtain ⟨field, hmem, hfield⟩ := List.any_eq_true.mp (fields.typed ⟨k, hk⟩)
  obtain ⟨hname, haccepts⟩ := Bool.and_eq_true_iff.mp hfield
  refine List.mem_map.mpr ⟨field, hmem, Prod.ext (of_decide_eq_true hname) ?_⟩
  exact (FieldType.shape_of_accepts (hval ▸ haccepts)).symm

theorem typed_headerEntries {shapes : List (String × Shape)} {m : Object} (h : Typed shapes m)
    (hsub : headerShapes ⊆ shapes) (header : SpecHeader) :
    Typed shapes (Spec.headerEntries header m) := by
  refine (((h.put (hsub ?_)).put (hsub ?_)).putSome fun v hv => hsub ?_).putSome
    fun v hv => hsub ?_
  · exact List.mem_cons_self
  · exact List.mem_cons_of_mem _ List.mem_cons_self
  · obtain ⟨policy, -, rfl⟩ := Option.map_eq_some_iff.mp hv
    rcases policy <;> decide
  · obtain ⟨policy, -, rfl⟩ := Option.map_eq_some_iff.mp hv
    rcases policy <;> decide

theorem Spec.typed_toJSONMap (s : Spec) : Typed s.kind.shapes s.toJSONMap := by
  have hfields : ∀ {table : FieldTable} (fields : Fields table) (own : List (String × Shape)),
      Typed (headerShapes ++ own ++ table.shapes) fields.entries := fun fields own =>
    fields.typed_shapes.mono (List.subset_append_right _ _)
  rcases s with s | s | s | s | s | s
  all_goals
    refine typed_headerEntries ?_ (List.subset_append_of_subset_left _
      (List.subset_append_left _ _)) _
  · exact (hfields s.fields _).putSome fun v hv => by
      obtain ⟨selector, -, rfl⟩ := Option.map_eq_some_iff.mp hv
      simp [SecretKeysSelector.json, JSON.ofObject, JSON.shape]
  · refine (((((hfields s.fields _).put ?_).putSome fun v hv => ?_).putSome
      fun v hv => ?_).putSome fun v hv => ?_).putSome fun v hv => ?_
    · simp [JSON.shape]
    all_goals
      obtain ⟨value, -, rfl⟩ := Option.map_eq_some_iff.mp hv
      simp [SecretKeySelector.json, jsonStrings, JSON.ofObject, JSON.ofList, JSON.shape]
  · exact (hfields s.fields _).put (by simp [JSON.shape])
  · refine (((hfields s.fields _).put ?_).putSome fun v hv => ?_).putSome fun v hv => ?_
    · simp [JSON.shape]
    all_goals
      obtain ⟨value, -, rfl⟩ := Option.map_eq_some_iff.mp hv
      simp [RoleComposites.json, JSON.ofObject, JSON.shape]
  · refine ((((hfields s.fields _).put ?_).put ?_).putSome fun v hv => ?_).putSome fun v hv => ?_
    · simp [JSON.shape]
    · simp [JSON.shape]
    · obtain ⟨selector, -, rfl⟩ := Option.map_eq_some_iff.mp hv
      simp [SecretKeysSelector.json, JSON.ofObject, JSON.shape]
    · split at hv
      · cases hv
      · cases hv
        simp [JSON.ofList, JSON.shape]
  · refine (((hfields s.fields _).put ?_).putSome fun v hv => ?_).putSome fun v hv => ?_
    · simp [JSON.shape]
    all_goals
      obtain ⟨value, -, rfl⟩ := Option.map_eq_some_iff.mp hv
      simp [jsonStrings, jsonStringListMap, JSON.ofObject, JSON.ofList, JSON.shape]

theorem Spec.typed_representation (s : Spec) : Typed s.kind.shapes s.representation := by
  intro k v hv
  rw [get_representation] at hv
  split at hv
  · cases hv
  · exact s.typed_toJSONMap k v hv

/-- The rewritten fields are maps. -/
theorem Spec.shape_of_rewrites {s : Spec} {k : String} (hk : s.Rewrites k) {shape : Shape}
    (h : (k, shape) ∈ s.kind.shapes) : shape = .obj := by
  have hmap : ∀ kind : Kind, ∀ name ∈ ["attributes", "smtpServer", "config", "secret"],
      ∀ field ∈ kind.shapes, field.1 = name → field.2 = .obj := by
    intro kind
    rcases kind <;> decide +kernel
  refine hmap s.kind k ?_ _ h rfl
  rcases hk with ⟨rfl, -⟩ | hinjected
  · decide
  · rcases s with s | s | s | s | s | s
    all_goals
      first
      | cases hinjected
      | (obtain ⟨_, -, rfl⟩ := Option.map_eq_some_iff.mp hinjected; decide)

end KeycloakOperator
