import KeycloakOperator.Lookup

/-!
# Fields that the spec leaves unset

Scope assignments, role mappings, composite members and mappers are not part of a
representation: `PostApply` enforces them through endpoints of their own, each for one field
of the spec.  A field that is unset is unmanaged, and for clients and groups `PostApply`
leaves its state alone.  For realm roles and identity providers it takes the unset field for
an empty one: it writes exactly when the server holds something to strip.
-/

namespace KeycloakOperator

open Prog

/-- A field that `PostApply` enforces separately. -/
inductive Separate where
  | defaultClientScopes | optionalClientScopes | realmRoles | clientRoles | composites | mappers
deriving DecidableEq, Repr

/-- The spec has the field and leaves it unset. -/
def Spec.Unset : Spec → Separate → Prop
  | .client s, .defaultClientScopes => s.defaultClientScopes = none
  | .client s, .optionalClientScopes => s.optionalClientScopes = none
  | .group s, .realmRoles => s.realmRoles = none
  | .group s, .clientRoles => s.clientRoles = none
  | .realmRole s, .composites => s.composite = none ∧ s.composites = none
  | .identityProvider s, .mappers => s.mappers = []
  | _, _ => False

/-- The endpoint is one through which the state of the field is written. -/
def Separate.At : Separate → Endpoint → Prop
  | .defaultClientScopes, .assignment _ _ list _ => list = .default
  | .optionalClientScopes, .assignment _ _ list _ => list = .optional
  | .realmRoles, .realmRoleMappings _ _ => True
  | .clientRoles, .clientRoleMappings _ _ _ => True
  | .composites, .composites _ _ => True
  | .mappers, .mappers _ _ => True
  | .mappers, .mapper _ _ _ => True
  | _, _ => False

/-- The operation writes the state of the field. -/
def Op.Changes (field : Separate) : Op → Prop
  | .admin _ request => request.method ≠ .get ∧ field.At request.endpoint
  | _ => False

/-- What the server holds for the field and `PostApply` can address: composite members with
    an id, mappers with a name. -/
def Server.Strippable (server : Server) : Spec → Separate → Prop
  | .realmRole s, .composites =>
      ∃ rep ∈ server.composites s.realm s.name, (stringField rep "id").isSome
  | .identityProvider s, .mappers =>
      ∃ mapper ∈ (server.mappers s.realm s.idpAlias).items, (mapper.key "name").isSome
  | _, _ => False

theorem Op.Reads.not_changes {op : Op} (h : op.Reads) (field : Separate) : ¬ op.Changes field := by
  rcases op
  case admin => exact fun hchanges => hchanges.1 h
  all_goals exact fun hchanges => hchanges

theorem Op.WritesSecret.not_changes {op : Op} (h : op.WritesSecret) (field : Separate) :
    ¬ op.Changes field := by
  rcases op
  case admin => exact h.elim
  all_goals exact fun hchanges => hchanges

/-! ### Indexes -/

theorem get_indexById (reps : List Object) (id : String) :
    (indexById reps).get id =
      reps.reverse.find? fun rep => decide (stringField rep "id" = some id) := by
  unfold indexById
  rw [FiniteMap.get_foldl_put (stringField · "id") (fun rep => rep)]
  · simp
  · intro m rep
    rcases stringField rep "id" with _ | key <;> rfl

theorem mem_keys_indexById {reps : List Object} {id : String} :
    id ∈ (indexById reps).keys ↔ ∃ rep ∈ reps, stringField rep "id" = some id := by
  rw [FiniteMap.mem_keys_iff, get_indexById, ← Option.isSome_iff_exists, List.find?_isSome]
  simp

theorem get_mappersByName (reps : List Object) (name : String) :
    (IdentityProviderSpec.mappersByName reps).get name =
      reps.reverse.find? fun rep => decide (stringField rep "name" = some name) := by
  unfold IdentityProviderSpec.mappersByName
  rw [FiniteMap.get_foldl_put (stringField · "name") (fun rep => rep)]
  · simp
  · intro m rep
    rcases stringField rep "name" with _ | key <;> rfl

theorem mem_keys_mappersByName {reps : List Object} {name : String} :
    name ∈ (IdentityProviderSpec.mappersByName reps).keys ↔
      ∃ rep ∈ reps, stringField rep "name" = some name := by
  rw [FiniteMap.mem_keys_iff, get_mappersByName, ← Option.isSome_iff_exists, List.find?_isSome]
  simp

theorem Order.list_eq_nil (order : Order (∅ : FiniteMap String V).keys) : order.list = [] := by
  refine List.eq_nil_iff_forall_not_mem.mpr fun k hk => ?_
  exact Finset.notMem_empty k ((order.mem_iff k).mp hk)

/-- The loop finds what one index has and the other lacks. -/
theorem yields_onlyIn (left right : FiniteMap String Object) :
    Yields (fun found => found = [] ↔ left.keys ⊆ right.keys) (onlyIn left right) := by
  intro order
  change List.filterMap _ order.list = [] ↔ _
  rw [List.filterMap_eq_nil_iff]
  constructor
  · intro hnone id hid
    by_contra hmissing
    have hget := hnone id ((order.mem_iff id).mpr hid)
    rw [if_neg hmissing] at hget
    exact FiniteMap.get_eq_none_iff.mp hget hid
  · intro hsub id hid
    exact if_pos (hsub ((order.mem_iff id).mp hid))

/-! ### Clients and groups -/

theorem only_client_unset {s : ClientSpec} {field : Separate} (hunset : (Spec.client s).Unset field)
    (kc : Conn) (obj : ManagedObject) (remote : Object) :
    Only (fun op : Op => ¬ op.Changes field) (s.postApply kc obj remote) := by
  apply only_clientPostApply
  · exact fun op h => h.not_changes field
  · exact fun _ op h => h.not_changes field
  · intro list hset method scope hchanges
    rcases field
    case defaultClientScopes =>
      obtain rfl : list = .default := hchanges.2
      exact absurd hset (by simp [ClientSpec.scopes, show s.defaultClientScopes = none from hunset])
    case optionalClientScopes =>
      obtain rfl : list = .optional := hchanges.2
      exact absurd hset (by simp [ClientSpec.scopes, show s.optionalClientScopes = none from hunset])
    all_goals exact hunset

theorem only_group_unset {s : GroupSpec} {field : Separate} (hunset : (Spec.group s).Unset field)
    (kc : Conn) (remote : Object) :
    Only (fun op : Op => ¬ op.Changes field) (s.postApply kc remote).run := by
  apply compositional_only.has_groupPostApply
  · exact fun op h => h.1.not_changes field
  · intro hset method body hchanges
    rcases field
    case realmRoles => exact absurd hset (by simp [show s.realmRoles = none from hunset])
    all_goals first | exact hunset | exact hchanges.2
  · intro hset method client body hchanges
    rcases field
    case clientRoles => exact absurd hset (by simp [show s.clientRoles = none from hunset])
    all_goals first | exact hunset | exact hchanges.2

/-! ### Realm roles and identity providers -/

section Stripped

variable {kc : Conn} {w : World}

theorem returns_rangeKeys (m : FiniteMap String V) :
    Returns Reliable (rangeKeys m) w (World.sorted m.keys).list w :=
  returns_bind (returns_perform _ _ ⟨World.sorted, 0, rfl⟩) (returns_pure _ w)

theorem returns_onlyIn (left right : FiniteMap String Object) :
    ∃ found, Returns Reliable (onlyIn left right) w found w ∧
      (found = [] ↔ left.keys ⊆ right.keys) :=
  ⟨_, returns_bind (returns_rangeKeys left) (returns_pure _ w),
    yields_onlyIn left right (World.sorted left.keys)⟩

theorem returns_fetchObjects {endpoint : Endpoint} {reps : List Object}
    (h : (w.servers kc.server).get endpoint = .objects reps) :
    Returns Reliable (kc.fetchObjects endpoint).run w (.ok reps) w := by
  have hanswer : w.admin kc ⟨.get, endpoint, .none, .objects⟩ = (.ok reps, w) := by
    simp [World.admin, Server.serve, h, Reply.decode]
  exact ⟨_, .call ⟨World.sorted, 0, hanswer⟩ (.ret _ w)⟩

/-- Nothing is added, and something without an equal on the other side is removed. -/
theorem performs_applyRoleDiff {P : Op → Prop} {current : List Object}
    {add remove : List Object → Call Unit} (hindexed : ∃ rep ∈ current, (stringField rep "id").isSome)
    (hremove : ∀ roles, Performs Reliable P (remove roles).run w) :
    Performs Reliable P (applyRoleDiff [] current add remove).run w := by
  obtain ⟨toAdd, hadd, hnothing⟩ := returns_onlyIn (w := w) (indexById []) (indexById current)
  obtain ⟨toRemove, hdiff, hsomething⟩ := returns_onlyIn (w := w) (indexById current) (indexById [])
  have hadded : toAdd = [] := by
    apply hnothing.mpr
    intro id hid
    simp [mem_keys_indexById] at hid
  have hremoved : toRemove ≠ [] := by
    intro hnil
    obtain ⟨rep, hrep, hid⟩ := hindexed
    obtain ⟨id, hid⟩ := Option.isSome_iff_exists.mp hid
    have hmem := hsomething.mp hnil (mem_keys_indexById.mpr ⟨rep, hrep, hid⟩)
    simp [mem_keys_indexById] at hmem
  refine (returns_run_lift hadd).performs ((returns_run_lift hdiff).performs ?_)
  change Performs Reliable P (if toAdd = [] ∧ toRemove = [] then _ else _ : Call Bool).run w
  rw [if_neg fun h => hremoved h.2]
  refine Returns.performs (a := .ok ()) (t := w) ?_ (performs_bind ?_ _)
  · rw [hadded]
    exact returns_pure _ w
  · change Performs Reliable P (submitRoles remove toRemove).run w
    unfold submitRoles
    rw [if_neg hremoved]
    exact hremove toRemove

theorem desiredComposites_unset {s : RealmRoleSpec}
    (hunset : (Spec.realmRole s).Unset .composites) : s.desiredComposites kc = pure [] := by
  unfold RealmRoleSpec.desiredComposites
  rw [show s.composite = none from hunset.1]

theorem performs_role_strip {s : RealmRoleSpec} (hunset : (Spec.realmRole s).Unset .composites)
    (h : (w.servers kc.server).Strippable (.realmRole s) .composites) :
    Performs Reliable (Op.Changes .composites) (s.postApply kc).run w := by
  refine (returns_fetchObjects rfl).performs ?_
  change Performs Reliable _ (s.desiredComposites kc >>= _).run w
  rw [desiredComposites_unset hunset]
  refine performs_applyRoleDiff h fun roles => ?_
  exact performs_call ⟨World.sorted, 0, rfl⟩ ⟨by simp, trivial⟩

theorem desiredByName_unset {s : IdentityProviderSpec}
    (hunset : (Spec.identityProvider s).Unset .mappers) : s.desiredByName = ∅ := by
  unfold IdentityProviderSpec.desiredByName
  rw [show s.mappers = [] from hunset]
  rfl

/-- Every current mapper is deleted: reports carry the id. -/
theorem performs_removeMappers {s : IdentityProviderSpec} {mappers : List Resource}
    (hunset : (Spec.identityProvider s).Unset .mappers) {order : List String}
    (horder : ∀ name, name ∈ order ↔
      name ∈ (IdentityProviderSpec.mappersByName (mappers.map Resource.report)).keys)
    (hnamed : ∃ mapper ∈ mappers, (mapper.key "name").isSome) :
    Performs Reliable (Op.Changes .mappers)
      (s.removeMappers kc (IdentityProviderSpec.mappersByName (mappers.map Resource.report)) order).run
      w := by
  rcases order with _ | ⟨name, order⟩
  · exfalso
    obtain ⟨mapper, hmapper, hkey⟩ := hnamed
    obtain ⟨name, hname⟩ := Option.isSome_iff_exists.mp hkey
    have hreport : stringField mapper.report "name" = some name := by
      unfold stringField
      rw [mapper.get_report_of_ne (by decide)]
      exact hname
    have hmem := (horder name).mpr
      (mem_keys_mappersByName.mpr ⟨_, List.mem_map_of_mem hmapper, hreport⟩)
    exact absurd hmem List.not_mem_nil
  · obtain ⟨rep, hrep⟩ := FiniteMap.mem_keys_iff.mp ((horder name).mp List.mem_cons_self)
    have hid : ∃ id, stringField rep "id" = some id := by
      have hmem := List.mem_of_find?_eq_some ((get_mappersByName _ _).symm.trans hrep)
      obtain ⟨mapper, -, rfl⟩ := List.mem_map.mp (List.mem_reverse.mp hmem)
      exact ⟨mapper.id, by simp [stringField]⟩
    obtain ⟨id, hid⟩ := hid
    unfold IdentityProviderSpec.removeMappers
    rw [desiredByName_unset hunset, if_neg (by simp [FiniteMap.mem_keys_iff]), hrep]
    simp only [Option.bind_some, hid]
    exact performs_bind (performs_call ⟨World.sorted, 0, rfl⟩ ⟨by simp, trivial⟩) _

theorem performs_idp_strip {s : IdentityProviderSpec}
    (hunset : (Spec.identityProvider s).Unset .mappers)
    (h : (w.servers kc.server).Strippable (.identityProvider s) .mappers) :
    Performs Reliable (Op.Changes .mappers) (s.postApply kc).run w := by
  refine (returns_fetchObjects rfl).performs ?_
  refine (returns_run_lift (returns_rangeKeys _)).performs ?_
  refine Returns.performs (a := .ok false) (t := w) ?_ ?_
  · rw [desiredByName_unset hunset, Order.list_eq_nil (World.sorted _)]
    exact returns_pure _ w
  refine (returns_run_lift (returns_rangeKeys _)).performs (performs_bind ?_ _)
  exact performs_removeMappers hunset (fun name => (World.sorted _).mem_iff name) h

/-! ### Nothing to strip -/

/-- Without an id on either side there is no difference. -/
theorem only_applyRoleDiff_nil {current : List Object} {add remove : List Object → Call Unit}
    {allowed : Op → Prop} (hreads : ∀ op, Op.Reads op → allowed op)
    (hnone : ¬ ∃ rep ∈ current, (stringField rep "id").isSome) :
    Only allowed (applyRoleDiff [] current add remove).run := by
  have hsub : ∀ {left right : FiniteMap String Object}, left.keys ⊆ right.keys →
      Yields (· = .ok ([] : List Object)) (liftM (onlyIn left right) : Call (List Object)).run :=
    fun h order => congrArg Except.ok ((yields_onlyIn _ _ order).mpr h)
  have hempty : (indexById current).keys ⊆ (indexById []).keys := by
    intro id hid
    obtain ⟨rep, hrep, hid⟩ := mem_keys_indexById.mp hid
    exact absurd ⟨rep, hrep, by simp [hid]⟩ hnone
  refine only_bind_yields (only_run_lift (only_onlyIn (fun _ => hreads _ trivial) _ _))
    (hsub (Finset.empty_subset _)) ?_
  rintro _ rfl
  refine only_bind_yields (only_run_lift (only_onlyIn (fun _ => hreads _ trivial) _ _)) (hsub hempty) ?_
  rintro _ rfl
  trivial

/-- The only answers to the first request are an error and what the server holds. -/
theorem wp_fetchObjects_only {α : Type} {endpoint : Endpoint} {reps : List Object}
    {f : List Object → Call α} {allowed : Op → Prop} (hreads : ∀ op, Op.Reads op → allowed op)
    (hget : (w.servers kc.server).get endpoint = .objects reps) (hf : Only allowed (f reps).run) :
    wp Faulty (fun op _ => allowed op) (kc.fetchObjects endpoint >>= f).run (fun _ _ => True) w := by
  refine wp_run_bind.mpr ?_
  refine wp_send reading_faulty.answering rfl (hreads _ rfl) (fun _ _ => trivial) ?_
  dsimp only
  rw [hget]
  exact wp_guard_mono (fun _ _ h => h.1)
    (wp_of_only (fun _ => True) (fun _ _ _ _ _ _ _ => trivial) hf trivial)

theorem wp_role_bare {s : RealmRoleSpec} (hunset : (Spec.realmRole s).Unset .composites)
    (h : ¬ (w.servers kc.server).Strippable (.realmRole s) .composites) :
    wp Faulty (fun op _ => ¬ op.Changes .composites) (s.postApply kc).run (fun _ _ => True) w := by
  apply wp_fetchObjects_only (fun op hreads => hreads.not_changes _) rfl
  rw [desiredComposites_unset hunset]
  exact only_applyRoleDiff_nil (fun op hreads => hreads.not_changes _) h

theorem wp_idp_bare {s : IdentityProviderSpec}
    (hunset : (Spec.identityProvider s).Unset .mappers)
    (h : ¬ (w.servers kc.server).Strippable (.identityProvider s) .mappers) :
    wp Faulty (fun op _ => ¬ op.Changes .mappers) (s.postApply kc).run (fun _ _ => True) w := by
  apply wp_fetchObjects_only (fun op hreads => hreads.not_changes _) rfl
  have hcurrent : IdentityProviderSpec.mappersByName
      (((w.servers kc.server).mappers s.realm s.idpAlias).items.map Resource.report) = ∅ := by
    apply FiniteMap.ext_get
    intro name
    rw [FiniteMap.get_empty, FiniteMap.get_eq_none_iff, mem_keys_mappersByName]
    rintro ⟨rep, hrep, hname⟩
    obtain ⟨mapper, hmapper, rfl⟩ := List.mem_map.mp hrep
    refine h ⟨mapper, hmapper, Option.isSome_iff_exists.mpr ⟨name, ?_⟩⟩
    unfold stringField at hname
    rwa [mapper.get_report_of_ne (by decide)] at hname
  -- both loops run over an empty map
  simp only [hcurrent, desiredByName_unset hunset]
  have hrange : Yields (· = .ok ([] : List String))
      (liftM (rangeKeys (∅ : FiniteMap String Object)) : Call (List String)).run :=
    fun order => congrArg Except.ok (Order.list_eq_nil order)
  have hrange' : Yields (· = .ok ([] : List String))
      (liftM (rangeKeys (∅ : FiniteMap String IdentityProviderMapper)) : Call (List String)).run :=
    fun order => congrArg Except.ok (Order.list_eq_nil order)
  refine only_bind_yields ⟨id, fun _ => trivial⟩ hrange' ?_
  rintro _ rfl
  refine only_run_bind (only_run_pure false) fun _ => ?_
  refine only_bind_yields ⟨id, fun _ => trivial⟩ hrange ?_
  rintro _ rfl
  trivial

end Stripped

/-- **Unset means unmanaged**, exactly where the server holds nothing for the field or
    the kind is one that tells unset from empty. -/
theorem unset_untouched_iff {s : Spec} {field : Separate} (hunset : s.Unset field) (kc : Conn)
    (obj : ManagedObject) (remote : Object) (w : World) :
    ¬ Performs Faulty (Op.Changes field) (s.driver.postApply kc obj remote) w ↔
      ¬ (w.servers kc.server).Strippable s field := by
  have honly : Only (fun op : Op => ¬ op.Changes field) (s.driver.postApply kc obj remote) →
      ¬ Performs Faulty (Op.Changes field) (s.driver.postApply kc obj remote) w := by
    intro h
    exact not_performs_of_wp (fun _ _ hguard => hguard.1)
      (wp_of_only (fun _ => True) (fun _ _ _ _ _ _ _ => trivial) h trivial)
  have hbare : ∀ {call : Call Bool}, wp Faulty (fun op _ => ¬ op.Changes field) call.run ⊤ w →
      ¬ Performs Faulty (Op.Changes field) (keepObject obj call) w := by
    intro call h
    have hkept : wp Faulty (fun op _ => ¬ op.Changes field) (keepObject obj call) ⊤ w :=
      wp_bind.mpr (wp_mono (fun _ _ _ => trivial) h)
    exact not_performs_of_wp (fun _ _ h => h) hkept
  rcases s with s | s | s | s | s | s
  case client =>
    exact iff_of_true (honly (only_client_unset hunset kc obj remote)) (by rcases field <;> exact id)
  case group =>
    have hgroup := only_bind (only_group_unset hunset kc remote) fun r => only_pure _ (obj, r)
    exact iff_of_true (honly hgroup) (by rcases field <;> exact id)
  case realmRole =>
    rcases field
    case composites =>
      constructor
      · intro hnone hstrippable
        exact hnone ((performs_bind (performs_role_strip hunset hstrippable) _).mono faulty_of_reliable)
      · exact fun hnone => hbare (wp_mono (fun _ _ _ => trivial) (wp_role_bare hunset hnone))
    all_goals exact hunset.elim
  case identityProvider =>
    rcases field
    case mappers =>
      constructor
      · intro hnone hstrippable
        exact hnone ((performs_bind (performs_idp_strip hunset hstrippable) _).mono faulty_of_reliable)
      · exact fun hnone => hbare (wp_mono (fun _ _ _ => trivial) (wp_idp_bare hunset hnone))
    all_goals exact hunset.elim
  all_goals exact absurd hunset (by rcases field <;> exact id)

/-- A role that says nothing about composites, and a connection. -/
def bareRole : RealmRoleSpec :=
  { keycloakRef := "main", realm := "demo", name := "admin", adoptionPolicy := some .adopt
    fields := ⟨∅, Fields.typed_empty _⟩ }

def bareRoleObject : ManagedObject where
  ns := "apps"
  name := "admin"
  uid := "uid-3"
  generation := 1
  finalizers := [finalizerName]
  spec := .realmRole bareRole

def viewerRole : Object := .ofList [("id", .str "7"), ("name", .str "viewer")]

/-- A group that says nothing about its realm roles. -/
def plainGroup : Spec :=
  .group { keycloakRef := "main", realm := "demo", name := "staff"
           fields := ⟨∅, Fields.typed_empty _⟩ }

/-- A server that maps the role `viewer` to the group. -/
def mappedWorld : World :=
  .around { bareRoleObject with spec := plainGroup }
    ((∅ : Server).setRealmMappings "demo" "5" [viewerRole])

/-- The group keeps its role. -/
theorem unmentioned_mapping_untouched :
    (mappedWorld.servers "keycloak").realmMappings "demo" "5" = [viewerRole] ∧
      ¬ Performs Faulty (Op.Changes .realmRoles) (plainGroup.driver.postApply ⟨"main", "keycloak"⟩
        { bareRoleObject with spec := plainGroup }
        (.ofList [("id", .str "5"), ("name", .str "staff")])) mappedWorld := by
  have hunset : plainGroup.Unset .realmRoles := rfl
  exact ⟨by decide, (unset_untouched_iff hunset _ _ _ _).mpr id⟩

/-- A role `admin` that somebody else has made a composite of `viewer`. -/
def compositeWorld : World :=
  .around bareRoleObject ((∅ : Server).setComposites "demo" "admin" [viewerRole])

/-- `PostApply` removes the member, and every call succeeds. -/
theorem unmentioned_composite_stripped :
    (Spec.realmRole bareRole).Unset .composites ∧
      Performs Reliable (Op.Changes .composites)
        ((Spec.realmRole bareRole).driver.postApply ⟨"main", "keycloak"⟩ bareRoleObject ∅)
        compositeWorld ∧
      ((((Spec.realmRole bareRole).driver.postApply ⟨"main", "keycloak"⟩ bareRoleObject ∅).run
        (World.handle World.sorted 0) compositeWorld).2.servers "keycloak").composites "demo" "admin" =
          [] := by
  refine ⟨⟨rfl, rfl⟩, performs_bind (performs_role_strip ⟨rfl, rfl⟩ ?_) _, by decide +kernel⟩
  exact ⟨viewerRole, List.mem_singleton_self _, rfl⟩

end KeycloakOperator
