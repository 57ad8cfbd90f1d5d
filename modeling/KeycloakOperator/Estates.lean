import KeycloakOperator.Takeover

/-!
# What belongs to a resource on a server

The estate of a natural key is the resource under it together with the state that Keycloak keeps apart
from the representation: the scopes assigned to a client, the composites of a role, the mappers of an
identity provider and the role mappings of a group.  A request is confined to a key when it creates
the resource under it, or addresses that resource or something below it.  Such a request leaves every
other estate on the server alone (`Server.estate_serve`).  The resources of a realm are not part of
the estate of the realm.
-/

namespace KeycloakOperator

/-- The state below a resource. -/
inductive Satellites where
  | nothing
  | scopes (assigned : ScopeList → List String)
  | composites (roles : List Object)
  | mappers (mappers : Collection "name")
  | mappings (realm : List Object) (client : String → List Object)

/-- Collections that agree on what an address names. -/
theorem Collection.find_congr {keyField : String} {c c' : Collection keyField} {address : Address}
    (h : ∀ r, address.names keyField r = true → (r ∈ c.items ↔ r ∈ c'.items)) :
    c.find address = c'.find address := by
  apply Option.ext
  intro r
  rw [find_eq_some_iff, find_eq_some_iff]
  constructor
  · rintro ⟨hr, hnames⟩
    exact ⟨(h r hnames).mp hr, hnames⟩
  · rintro ⟨hr, hnames⟩
    exact ⟨(h r hnames).mpr hr, hnames⟩

/-- A nested update, read elsewhere. -/
theorem update_update_of_ne {α β γ : Type} [DecidableEq α] [DecidableEq β] (f : α → β → γ)
    {a a' : α} {b b' : β} (c : γ) (h : a' = a → b' ≠ b) :
    Function.update f a (Function.update (f a) b c) a' b' = f a' b' := by
  by_cases ha : a' = a
  · subst ha
    rw [Function.update_self, Function.update_of_ne (h rfl)]
  · rw [Function.update_of_ne ha]

namespace Server

variable {s : Server} {place place' : Place} {key key' : String}

def satellites (s : Server) (place : Place) (key id : String) : Satellites :=
  match place.kind with
  | .client => .scopes fun list => s.assigned list place.realm id
  | .realmRole => .composites (s.composites place.realm key)
  | .identityProvider => .mappers (s.mappers place.realm key)
  | .group => .mappings (s.realmMappings place.realm id) (s.clientMappings place.realm id)
  | .realm | .clientScope => .nothing

/-- The resource under a key, with what is below it. -/
def estate (s : Server) (place : Place) (key : String) : Option (Resource × Satellites) :=
  (s.find place (.key key)).map fun r => (r, s.satellites place key r.id)

/-- The address leads to the resource under the key. -/
def Designates (s : Server) (place : Place) (key : String) : Address → Prop
  | .key value => value = key
  | .id value => ∃ r, s.find place (.key key) = some r ∧ r.id = value

/-- The body, if it is stored, is stored under the key. -/
def Keyed (place : Place) (key : String) (body : Body) : Prop :=
  ∃ rep, body = .object rep ∧ stringField rep place.kind.keyField = some key

/-- The request creates the resource under the key, or addresses it or something below it. -/
inductive Confined (s : Server) (place : Place) (key : String) : Method → Endpoint → Body → Prop where
  | read (endpoint : Endpoint) (body : Body) : Confined s place key .get endpoint body
  | create {endpoint : Endpoint} {body : Body} (hcollection : endpoint.collection = some place)
      (hkeyed : Keyed place key body) : Confined s place key .post endpoint body
  | write {method : Method} {endpoint : Endpoint} {body : Body} {address : Address}
      (howner : endpoint.owner = some (place, address)) (haddress : s.Designates place key address)
      (hkeyed : method = .put → endpoint.item.isSome → Keyed place key body) :
      Confined s place key method endpoint body

/-! ### Representations -/

/-- Another collection at a place, with the same resource under the key. -/
theorem estate_setResources {c : Collection place.kind.keyField}
    (h : ∀ r, place' = place → r.key place.kind.keyField = some key' →
      (r ∈ c.items ↔ r ∈ (s.resources place).items)) :
    (s.setResources place c).estate place' key' = s.estate place' key' := by
  have hfind : (s.setResources place c).find place' (.key key') = s.find place' (.key key') := by
    by_cases hplace : place' = place
    · subst hplace
      rw [find_setResources]
      exact Collection.find_congr fun r hr => h r rfl (of_decide_eq_true hr)
    · unfold find setResources
      dsimp only
      rw [Function.update_of_ne hplace]
  unfold estate
  rw [hfind]
  rfl

/-- A new resource under another key. -/
theorem estate_create {label : String} {rep : Object}
    (hkey : stringField rep place.kind.keyField = some key) (hne : (place', key') ≠ (place, key)) :
    (s.create label place rep).2.estate place' key' = s.estate place' key' := by
  unfold create
  rw [hkey, if_neg (by simp)]
  rcases hinsert : (s.resources place).insert? rep (some label) with _ | c
  · rfl
  apply estate_setResources
  intro r hplace hr
  rw [Collection.items_of_ofItems? hinsert, List.mem_append, List.mem_singleton]
  refine or_iff_left ?_
  rintro rfl
  have hnew : Resource.key place.kind.keyField
      ⟨Collection.freshId ((s.resources place).items.map Resource.id), rep.erase "id", some label⟩ =
        some key := by
    unfold Resource.key stringField
    rw [FiniteMap.get_erase_of_ne _ (Kind.keyField_ne_id _)]
    exact hkey
  rw [hnew] at hr
  exact hne (Prod.ext hplace (Option.some.inj hr).symm)

/-- The resource under a key is the only one that the address names. -/
theorem key_of_designates {address : Address} {r : Resource} (h : s.Designates place key address)
    (hr : r ∈ (s.resources place).items) (hnames : address.names place.kind.keyField r = true) :
    r.key place.kind.keyField = some key := by
  cases address with
  | key value =>
    obtain rfl : value = key := h
    exact of_decide_eq_true hnames
  | id value =>
    obtain ⟨r', hfind, hid⟩ := h
    obtain ⟨hr', hkey⟩ := Collection.find_eq_some_iff.mp hfind
    have hid' : (Address.id value).names place.kind.keyField r' = true := decide_eq_true hid
    rw [Collection.eq_of_names hr hr' hnames hid']
    exact of_decide_eq_true hkey

/-- An update under another key. -/
theorem estate_put {address : Address} {rep : Object} (haddress : s.Designates place key address)
    (hkey : stringField rep place.kind.keyField = some key) (hne : (place', key') ≠ (place, key)) :
    (s.put place address rep).2.estate place' key' = s.estate place' key' := by
  unfold put
  split
  · rfl
  rcases hoverlay : (s.resources place).overlay? address rep with _ | c
  · rfl
  apply estate_setResources
  intro r hplace hr
  rw [Collection.items_of_ofItems? hoverlay, List.mem_map]
  have hother : key ≠ key' := fun heq => hne (Prod.ext hplace heq.symm)
  constructor
  · rintro ⟨r', hr', rfl⟩
    split at hr
    · -- the new representation is under the other key
      have hnew : (r'.overlay rep).key place.kind.keyField = some key := by
        unfold Resource.key stringField
        rw [Resource.get_overlay _ _ (Kind.keyField_ne_id _)]
        unfold stringField at hkey
        rcases hget : rep.get place.kind.keyField with _ | v
        · rw [hget] at hkey
          cases hkey
        · rw [hget] at hkey
          exact hkey
      rw [hnew] at hr
      exact absurd (Option.some.inj hr) hother
    · next hnames =>
      rw [if_neg hnames]
      exact hr'
  · intro hmem
    refine ⟨r, hmem, if_neg fun hnames => ?_⟩
    rw [key_of_designates haddress hmem hnames] at hr
    exact hother (Option.some.inj hr)

/-- A removal under another key. -/
theorem estate_delete {address : Address} (haddress : s.Designates place key address)
    (hne : (place', key') ≠ (place, key)) :
    (s.delete place address).2.estate place' key' = s.estate place' key' := by
  unfold delete
  split
  · rfl
  apply estate_setResources
  intro r hplace hr
  refine List.mem_filter.trans (and_iff_left_of_imp fun hmem => ?_)
  rw [Bool.not_eq_true']
  apply Bool.eq_false_iff.mpr
  intro hnames
  rw [key_of_designates haddress hmem hnames] at hr
  exact hne (Prod.ext hplace (Option.some.inj hr).symm)

/-! ### Satellites -/

/-- Other satellites under the same resources. -/
theorem estate_of_resources {t : Server} (hresources : t.resources = s.resources)
    (hsatellites : ∀ r, s.find place' (.key key') = some r →
      t.satellites place' key' r.id = s.satellites place' key' r.id) :
    t.estate place' key' = s.estate place' key' := by
  unfold estate find
  rw [hresources]
  rcases hfind : (s.resources place').find (.key key') with _ | r
  · rfl
  · exact congrArg some (Prod.ext rfl (hsatellites r hfind))

section Satellites

variable {realm id id' name : String}

theorem satellites_setAssigned (list : ScopeList) (ids : List String)
    (h : place'.kind = .client → place'.realm = realm → id' ≠ id) :
    (s.setAssigned list realm id ids).satellites place' key' id' = s.satellites place' key' id' := by
  unfold satellites setAssigned
  cases hkind : place'.kind with
  | client =>
    refine congrArg Satellites.scopes (funext fun list' => ?_)
    dsimp only
    by_cases hlist : list' = list
    · subst hlist
      rw [Function.update_self]
      exact update_update_of_ne _ _ (h hkind)
    · rw [Function.update_of_ne hlist]
  | _ => rfl

theorem satellites_setComposites (roles : List Object)
    (h : place'.kind = .realmRole → place'.realm = realm → key' ≠ name) :
    (s.setComposites realm name roles).satellites place' key' id' = s.satellites place' key' id' := by
  unfold satellites setComposites
  cases hkind : place'.kind with
  | realmRole => exact congrArg Satellites.composites (update_update_of_ne _ _ (h hkind))
  | _ => rfl

theorem satellites_setMappers (c : Collection "name")
    (h : place'.kind = .identityProvider → place'.realm = realm → key' ≠ name) :
    (s.setMappers realm name c).satellites place' key' id' = s.satellites place' key' id' := by
  unfold satellites setMappers
  cases hkind : place'.kind with
  | identityProvider => exact congrArg Satellites.mappers (update_update_of_ne _ _ (h hkind))
  | _ => rfl

theorem satellites_setRealmMappings (roles : List Object)
    (h : place'.kind = .group → place'.realm = realm → id' ≠ id) :
    (s.setRealmMappings realm id roles).satellites place' key' id' =
      s.satellites place' key' id' := by
  unfold satellites setRealmMappings
  cases hkind : place'.kind with
  | group => exact congrArg (Satellites.mappings · _) (update_update_of_ne _ _ (h hkind))
  | _ => rfl

theorem satellites_setClientMappings (client : String) (roles : List Object)
    (h : place'.kind = .group → place'.realm = realm → id' ≠ id) :
    (s.setClientMappings realm id client roles).satellites place' key' id' =
      s.satellites place' key' id' := by
  unfold satellites setClientMappings
  cases hkind : place'.kind with
  | group => exact congrArg (Satellites.mappings _) (update_update_of_ne _ _ (h hkind))
  | _ => rfl

theorem satellites_replace_setMappers (c : Option (Collection "name"))
    (h : place'.kind = .identityProvider → place'.realm = realm → key' ≠ name) :
    (s.replace (s.setMappers realm name) c).2.satellites place' key' id' =
      s.satellites place' key' id' := by
  rcases c with _ | c
  · rfl
  · exact satellites_setMappers c h

end Satellites

/-- The id of another resource. -/
theorem id_ne_of_designates {r : Resource} {id : String} (h : s.Designates place key (.id id))
    (hr : s.find place (.key key') = some r) (hne : key' ≠ key) : r.id ≠ id := by
  obtain ⟨r', hr', rfl⟩ := h
  obtain ⟨hmem, hkey⟩ := Collection.find_eq_some_iff.mp hr
  obtain ⟨hmem', hkey'⟩ := Collection.find_eq_some_iff.mp hr'
  intro hid
  have hnames : (Address.id r'.id).names place.kind.keyField r = true := decide_eq_true hid
  have hnames' : (Address.id r'.id).names place.kind.keyField r' = true := decide_eq_true rfl
  obtain rfl : r = r' := Collection.eq_of_names hmem hmem' hnames hnames'
  have hkeys : some key' = some key :=
    (of_decide_eq_true hkey).symm.trans (of_decide_eq_true hkey')
  exact hne (Option.some.inj hkeys)

/-- A write below another resource. -/
theorem estate_writeSub {method : Method} {endpoint : Endpoint} {body : Body} {address : Address}
    (howner : endpoint.owner = some (place, address)) (haddress : s.Designates place key address)
    (hne : (place', key') ≠ (place, key)) :
    (s.writeSub method endpoint body).2.estate place' key' = s.estate place' key' := by
  refine estate_of_resources (s.writeSub_resources method endpoint body) fun r hr => ?_
  -- what is addressed by its id, and what by its key
  have hid : ∀ {kind realm id}, (⟨kind, realm⟩, Address.id id) = (place, address) →
      place'.kind = kind → place'.realm = realm → r.id ≠ id := by
    intro kind realm id howner hkind hrealm
    cases howner
    subst hkind hrealm
    exact id_ne_of_designates haddress hr fun hkey => hne (Prod.ext rfl hkey)
  have hname : ∀ {kind realm name}, (⟨kind, realm⟩, Address.key name) = (place, address) →
      place'.kind = kind → place'.realm = realm → key' ≠ name := by
    intro kind realm name howner hkind hrealm heq
    cases howner
    subst hkind hrealm
    exact hne (Prod.ext rfl (heq.trans haddress))
  unfold writeSub
  split
  case h_1 =>
    split
    · exact satellites_setAssigned _ _ (hid (Option.some.inj howner))
    · rfl
  case h_2 => exact satellites_setAssigned _ _ (hid (Option.some.inj howner))
  case h_3 => exact satellites_setComposites _ (hname (Option.some.inj howner))
  case h_4 => exact satellites_setComposites _ (hname (Option.some.inj howner))
  case h_5 => exact satellites_replace_setMappers _ (hname (Option.some.inj howner))
  case h_6 => exact satellites_replace_setMappers _ (hname (Option.some.inj howner))
  case h_7 => exact satellites_setMappers _ (hname (Option.some.inj howner))
  case h_8 => exact satellites_setRealmMappings _ (hid (Option.some.inj howner))
  case h_9 => exact satellites_setRealmMappings _ (hid (Option.some.inj howner))
  case h_10 => exact satellites_setClientMappings _ _ (hid (Option.some.inj howner))
  case h_11 => exact satellites_setClientMappings _ _ (hid (Option.some.inj howner))
  case h_12 => rfl

theorem owner_of_item {endpoint : Endpoint} {found : Place × Address}
    (h : endpoint.item = some found) : endpoint.owner = some found := by
  cases endpoint <;> first | exact h | cases h

/-- **Other estates are left alone** by a request that is confined to a key. -/
theorem estate_serve {label : String} {method : Method} {endpoint : Endpoint} {body : Body}
    (h : s.Confined place key method endpoint body) (hne : (place', key') ≠ (place, key)) :
    (s.serve label method endpoint body).2.estate place' key' = s.estate place' key' := by
  cases h with
  | read => rfl
  | create hcollection hkeyed =>
    obtain ⟨rep, rfl, hkey⟩ := hkeyed
    unfold serve
    simp only [hcollection]
    exact estate_create hkey hne
  | @write method endpoint body address howner haddress hkeyed =>
    unfold serve
    cases method with
    | get => rfl
    | post =>
      have hcollection : endpoint.collection = none := by
        cases endpoint <;> first | rfl | cases howner
      simp only [hcollection]
      exact estate_writeSub howner haddress hne
    | put =>
      rcases hitem : endpoint.item with _ | ⟨place₀, address₀⟩
      · simp only
        exact estate_writeSub howner haddress hne
      · obtain ⟨rep, rfl, hkey⟩ := hkeyed rfl (by rw [hitem]; rfl)
        have hsame := (owner_of_item hitem).symm.trans howner
        cases hsame
        exact estate_put haddress hkey hne
    | delete =>
      rcases hitem : endpoint.item with _ | ⟨place₀, address₀⟩
      · simp only
        exact estate_writeSub howner haddress hne
      · have hsame := (owner_of_item hitem).symm.trans howner
        cases hsame
        exact estate_delete haddress hne

end Server

end KeycloakOperator
