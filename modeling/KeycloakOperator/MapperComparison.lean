import KeycloakOperator.Mappers

/-!
# Comparing mappers

A resource is compared with its payload by `payloadDiffers`, a mapper by `mappersDiffer`.  The
first looks at the desired entries only, also inside of maps, and takes a masked string for any
string; the second asks for equal values.  Where the first is silent, they disagree just on what
the server has added to the config, masked or left out.
-/

namespace KeycloakOperator

namespace IdentityProviderMapper

variable {m : IdentityProviderMapper} {current : Object}

/-- The strings that a mapper sets, by their path in its representation. -/
def text (m : IdentityProviderMapper) : List String → Option String
  | ["name"] => some m.name
  | ["identityProviderMapper"] => m.identityProviderMapper
  | ["config", key] => m.config.get key
  | _ => none

theorem get_toJSONMap_type :
    m.toJSONMap.get "identityProviderMapper" = m.identityProviderMapper.map JSON.str := by
  unfold toJSONMap putSome
  rcases m.identityProviderMapper with _ | type <;>
    rcases nonEmptyMap m.config jsonStringMap with _ | config <;>
    simp [FiniteMap.ofList, FiniteMap.get_put]

theorem get_toJSONMap_config :
    m.toJSONMap.get "config" = nonEmptyMap m.config jsonStringMap := by
  unfold toJSONMap putSome
  rcases m.identityProviderMapper with _ | type <;>
    rcases nonEmptyMap m.config jsonStringMap with _ | config <;>
    simp [FiniteMap.ofList, FiniteMap.get_put]

theorem get_config_of_ne (h : m.config.keys ≠ ∅) :
    m.toJSONMap.get "config" = some (jsonStringMap m.config) := by
  rw [get_toJSONMap_config]
  exact if_neg (by simpa using h)

theorem get_config_of_eq (h : m.config.keys = ∅) : m.toJSONMap.get "config" = none := by
  rw [get_toJSONMap_config]
  exact if_pos (by simpa using h)

/-- The entries of the config as JSON. -/
def configEntries (m : IdentityProviderMapper) : Object :=
  .ofFun m.config.keys fun k => (m.config.get k).map .str

theorem get_configEntries (key : String) :
    m.configEntries.get key = (m.config.get key).map JSON.str := by
  refine FiniteMap.get_ofFun_of_support (fun k hk => ?_) key
  rw [FiniteMap.get_eq_none_iff.mpr hk]
  rfl

theorem keys_ne_of_get {key value : String} (h : m.config.get key = some value) :
    m.config.keys ≠ ∅ :=
  Finset.ne_empty_of_mem (FiniteMap.mem_keys_of_get h)

theorem objectAt?_single (k : String) : objectAt? current [k] = current.get k := by
  rw [objectAt?_cons]
  rcases current.get k with _ | v
  · rfl
  · simp

theorem objectAt?_config {reported : Object} (h : current.get "config" = some (.ofObject reported))
    (key : String) : objectAt? current ["config", key] = reported.get key := by
  rw [objectAt?_cons, h, Option.bind_some]
  exact objectAt?_single key

/-! ### Equal values -/

/-- The reported mapper has the strings of the desired one, and no others in its config. -/
structure Echoed (m : IdentityProviderMapper) (current : Object) : Prop where
  texts : ∀ path value, m.text path = some value → objectAt? current path = some (.str value)
  config : m.config.keys ≠ ∅ → ∀ reported, current.get "config" = some (.ofObject reported) →
    reported.keys ⊆ m.config.keys

theorem Echoed.get_config (h : m.Echoed current) (hset : m.config.keys ≠ ∅) :
    current.get "config" = some (jsonStringMap m.config) := by
  -- one of the entries shows that the config is a map
  obtain ⟨key, hkey⟩ := Finset.nonempty_iff_ne_empty.mpr hset
  obtain ⟨value, hvalue⟩ := FiniteMap.mem_keys_iff.mp hkey
  have hat := h.texts ["config", key] value hvalue
  rw [objectAt?_cons] at hat
  obtain ⟨config, hconfig, hentry⟩ := Option.bind_eq_some_iff.mp hat
  obtain ⟨reported, rfl, -⟩ := JSON.at?_cons_eq_some hentry
  rw [hconfig]
  have hsame : reported = m.configEntries := by
    refine FiniteMap.ext_get fun k => ?_
    rw [get_configEntries]
    rcases hget : m.config.get k with _ | v
    · refine FiniteMap.get_eq_none_iff.mpr fun hmem => ?_
      exact FiniteMap.get_eq_none_iff.mp hget (h.config hset reported hconfig hmem)
    · rw [← objectAt?_config hconfig]
      exact h.texts ["config", k] v hget
  rw [hsame]
  rfl

theorem mappersDiffer_iff_echoed {s : IdentityProviderSpec} :
    mappersDiffer current (s.mapperPayload m) = false ↔ m.Echoed current := by
  rw [mappersDiffer_eq_false_iff]
  constructor
  · intro h
    have hget : ∀ k want, m.toJSONMap.get k = some want → current.get k = some want := by
      intro k want hwant
      have hk : k ≠ "identityProviderAlias" := by
        rintro rfl
        rw [get_toJSONMap_of_ne (by decide) (by decide) (by decide)] at hwant
        cases hwant
      exact h k want ((get_mapperPayload_of_ne hk).trans hwant) hk
    have hconfig : m.config.keys ≠ ∅ → current.get "config" = some (.ofObject m.configEntries) :=
      fun hset => hget "config" _ (get_config_of_ne hset)
    constructor
    · intro path value htext
      unfold text at htext
      split at htext
      · cases htext
        rw [objectAt?_single]
        exact hget "name" _ get_toJSONMap_name
      · rw [objectAt?_single]
        exact hget "identityProviderMapper" _ (by rw [get_toJSONMap_type, htext]; rfl)
      · next key =>
        rw [objectAt?_config (hconfig (keys_ne_of_get htext)), get_configEntries, htext]
        rfl
      · cases htext
    · intro hset reported hreported key hkey
      rw [hconfig hset, Option.some.injEq] at hreported
      rw [← JSON.ofObject_injective hreported, FiniteMap.mem_keys_iff] at hkey
      obtain ⟨v, hv⟩ := hkey
      rw [get_configEntries] at hv
      obtain ⟨value, hvalue, -⟩ := Option.map_eq_some_iff.mp hv
      exact FiniteMap.mem_keys_of_get hvalue
  · intro h k want hwant hk
    rw [get_mapperPayload_of_ne hk] at hwant
    by_cases hname : k = "name"
    · subst hname
      cases get_toJSONMap_name.symm.trans hwant
      exact objectAt?_single "name" ▸ h.texts ["name"] m.name rfl
    by_cases htype : k = "identityProviderMapper"
    · subst htype
      rw [get_toJSONMap_type] at hwant
      obtain ⟨type, hset, rfl⟩ := Option.map_eq_some_iff.mp hwant
      exact objectAt?_single "identityProviderMapper" ▸ h.texts ["identityProviderMapper"] type hset
    by_cases hconfig : k = "config"
    · subst hconfig
      by_cases hset : m.config.keys = ∅
      · cases (get_config_of_eq hset).symm.trans hwant
      · cases (get_config_of_ne hset).symm.trans hwant
        exact h.get_config hset
    · rw [get_toJSONMap_of_ne hname htype hconfig] at hwant
      cases hwant

/-! ### What the other comparison tolerates -/

/-- A silent comparison has seen every string of the mapper. -/
theorem entryAgrees_of_payloadDiffers {s : IdentityProviderSpec}
    (h : payloadDiffers current ((s.mapperPayload m).erase "identityProviderAlias") = false)
    {path : List String} {value : String} (htext : m.text path = some value) :
    EntryAgrees (.str value) (objectAt? current path) := by
  have hagrees : ∀ k want, m.toJSONMap.get k = some want → EntryAgrees want (current.get k) := by
    intro k want hwant
    refine payloadDiffers_eq_false_iff.mp h k want ?_
    have hk : k ≠ "identityProviderAlias" := by
      rintro rfl
      rw [get_toJSONMap_of_ne (by decide) (by decide) (by decide)] at hwant
      cases hwant
    rw [FiniteMap.get_erase_of_ne _ hk, get_mapperPayload_of_ne hk, hwant]
  unfold text at htext
  split at htext
  · cases htext
    rw [objectAt?_single]
    exact hagrees "name" _ get_toJSONMap_name
  · rw [objectAt?_single]
    exact hagrees "identityProviderMapper" _ (by rw [get_toJSONMap_type, htext]; rfl)
  · next key =>
    have hset := keys_ne_of_get htext
    have hconfig := hagrees "config" _ (get_config_of_ne hset)
    have hzero : isZeroValue (jsonStringMap m.config) = false := by
      refine decide_eq_false fun hcard => ?_
      have hkeys : m.configEntries.keys = ∅ := Finset.card_eq_zero.mp hcard
      have hentry : m.configEntries.get key = some (.str value) := by
        rw [get_configEntries, htext]
        rfl
      exact Finset.notMem_empty key (hkeys ▸ FiniteMap.mem_keys_of_get hentry)
    rcases hgot : presentValue (current.get "config") with _ | got
    · rw [entryAgrees_absent (by rintro ⟨⟩) hgot, hzero] at hconfig
      cases hconfig
    rw [entryAgrees_present (by rintro ⟨⟩) hgot] at hconfig
    obtain ⟨reported, rfl⟩ := @asObject_of_managedValueEqual m.configEntries got hconfig
    rw [objectAt?_config (presentValue_eq_some.mp hgot).1]
    have hsilent : payloadDiffers reported m.configEntries = false := by
      have hequal := managedValueEqual_ofObject m.configEntries reported
      rw [show managedValueEqual (.ofObject m.configEntries) (.ofObject reported) = true
        from hconfig] at hequal
      simpa using hequal.symm
    refine payloadDiffers_eq_false_iff.mp hsilent key _ ?_
    rw [get_configEntries, htext]
    rfl
  · cases htext

/-- The server has masked no string, left none out and added nothing to the config. -/
structure Unaugmented (m : IdentityProviderMapper) (current : Object) : Prop where
  unmasked : ∀ path value, m.text path = some value → value ≠ keycloakMaskedValue →
    objectAt? current path ≠ some (.str keycloakMaskedValue)
  shown : ∀ path, m.text path = some "" → presentValue (objectAt? current path) ≠ none
  added : m.config.keys ≠ ∅ → ∀ reported, current.get "config" = some (.ofObject reported) →
    reported.keys ⊆ m.config.keys

theorem Echoed.unaugmented (h : m.Echoed current) : m.Unaugmented current where
  unmasked := by
    intro path value htext hvalue hmasked
    rw [h.texts path value htext, Option.some.injEq, JSON.str.injEq] at hmasked
    exact hvalue hmasked
  shown := by
    intro path htext hnone
    rw [h.texts path "" htext] at hnone
    cases hnone
  added := h.config

theorem Unaugmented.echoed (h : m.Unaugmented current)
    (hagrees : ∀ path value, m.text path = some value →
      EntryAgrees (.str value) (objectAt? current path)) : m.Echoed current where
  texts := by
    intro path value htext
    have hagree := hagrees path value htext
    rcases hgot : presentValue (objectAt? current path) with _ | got
    · -- only an empty string may be left out
      rw [entryAgrees_absent (by rintro ⟨⟩) hgot] at hagree
      have hempty : value = "" := by simpa [isZeroValue] using hagree
      exact absurd hgot (h.shown path (hempty ▸ htext))
    rw [entryAgrees_present (by rintro ⟨⟩) hgot, managedValueEqual_scalar rfl] at hagree
    have hpresent := (presentValue_eq_some.mp hgot).1
    rcases hagree with rfl | rfl
    · have hmask : value = keycloakMaskedValue := by
        by_contra hvalue
        exact h.unmasked path value htext hvalue hpresent
      rw [hmask]
      exact hpresent
    · exact hpresent
  config := h.added

end IdentityProviderMapper

/-- **Two comparisons.**  Where `payloadDiffers` finds no difference, neither does `mappersDiffer`
    exactly if the server has masked no string of the mapper, left none out and added nothing to
    its config. -/
theorem mapper_comparison_silent_iff {s : IdentityProviderSpec} {mapper : IdentityProviderMapper}
    {current : Object}
    (h : payloadDiffers current ((s.mapperPayload mapper).erase "identityProviderAlias") = false) :
    mappersDiffer current (s.mapperPayload mapper) = false ↔ mapper.Unaugmented current := by
  rw [IdentityProviderMapper.mappersDiffer_iff_echoed]
  constructor
  · exact fun hechoed => hechoed.unaugmented
  · intro hplain
    exact hplain.echoed fun _ _ htext =>
      IdentityProviderMapper.entryAgrees_of_payloadDiffers h htext

/-- A mapper that copies a claim. -/
def claimMapper : IdentityProviderMapper where
  name := "email"
  identityProviderMapper := some "oidc-user-attribute-idp-mapper"
  config := .ofList [("claim", "email")]

def claimBroker : IdentityProviderSpec where
  keycloakRef := "main"
  realm := "demo"
  idpAlias := "broker"
  providerId := "oidc"
  mappers := [claimMapper]
  fields := ⟨∅, Fields.typed_empty _⟩

/-- What a server reports of the mapper, with entries of its own in the config. -/
def claimReport (added : List (String × JSON)) : Object :=
  .ofList [("id", .str "1"), ("name", .str "email"),
    ("identityProviderMapper", .str "oidc-user-attribute-idp-mapper"),
    ("identityProviderAlias", .str "broker"),
    ("config", .ofObject (.ofList (("claim", .str "email") :: added)))]

/-- The strings of the mapper, and where they stand. -/
theorem claimMapper_text {path : List String} {value : String}
    (h : claimMapper.text path = some value) :
    objectAt? (claimReport []) path = some (.str value) ∧ value ≠ "" ∧ value ≠ keycloakMaskedValue := by
  unfold IdentityProviderMapper.text at h
  split at h
  · cases h
    decide
  · cases h
    decide
  · next key =>
    have hkeys : claimMapper.config.keys = {"claim"} := by decide
    have hmem := FiniteMap.mem_keys_of_get h
    rw [hkeys, Finset.mem_singleton] at hmem
    subst hmem
    cases h
    decide
  · cases h

/-- A server that reports the mapper as it was sent: neither comparison finds a difference. -/
theorem plain_claim_same_for_both :
    claimMapper.Unaugmented (claimReport []) ∧
      payloadDiffers (claimReport [])
        ((claimBroker.mapperPayload claimMapper).erase "identityProviderAlias") = false ∧
      mappersDiffer (claimReport []) (claimBroker.mapperPayload claimMapper) = false := by
  have hsilent : payloadDiffers (claimReport [])
      ((claimBroker.mapperPayload claimMapper).erase "identityProviderAlias") = false := by
    decide +kernel
  have hplain : claimMapper.Unaugmented (claimReport []) := by
    constructor
    case unmasked =>
      intro path value htext hvalue hmasked
      cases (claimMapper_text htext).1.symm.trans hmasked
      exact hvalue rfl
    case shown => exact fun path htext => absurd rfl (claimMapper_text htext).2.1
    case added =>
      intro _ reported hreported
      have hconfig : (claimReport []).get "config" =
          some (.ofObject (.ofList [("claim", .str "email")])) := by decide
      obtain rfl := JSON.ofObject_injective (Option.some.inj (hconfig.symm.trans hreported))
      decide
  exact ⟨hplain, hsilent, (mapper_comparison_silent_iff hsilent).mpr hplain⟩

/-- A server that stores the mapper with a sync mode. -/
def claimWorld : World where
  object := none
  servers := fun _ => (∅ : Server).setMappers "demo" "broker"
    ⟨[⟨"1", (claimReport [("syncMode", .str "INHERIT")]).erase "id", none⟩], by decide, by decide⟩
  connections := fun _ name => .ok ⟨name, "keycloak"⟩
  secrets := fun _ _ => none

/-- The server has added a sync mode to the config: `payloadDiffers` finds no difference,
    `mappersDiffer` does, and `PostApply` updates the mapper. -/
theorem sync_mode_taken_for_drift :
    payloadDiffers (claimReport [("syncMode", .str "INHERIT")])
        ((claimBroker.mapperPayload claimMapper).erase "identityProviderAlias") = false ∧
      mappersDiffer (claimReport [("syncMode", .str "INHERIT")])
        (claimBroker.mapperPayload claimMapper) = true ∧
      ((claimBroker.postApply ⟨"main", "keycloak"⟩).run.run (World.handle World.sorted 0)
        claimWorld).1 = .ok true := by
  decide +kernel

end KeycloakOperator
