import KeycloakOperator.DriftDetection
import KeycloakOperator.Engine

/-!
# The payload of a pass

Between the effective payload and the request there are two more steps: the managed
marker is stamped and the values of Secrets are injected.  Each of them rewrites one
top-level field and looks only at the map that is there already; `Rewrite` says so
once for all kinds.

The steps after the reset decide whether the removal of a field is noticed.  A
removed field is reset to a zero value of its type, but the zero value of a map is
the empty map, which the comparison finds in every map (`removalActedOn_iff`).
-/

namespace KeycloakOperator

/-! ### Rewriting one field -/

/-- Replace the field `field` by a value computed from the map it holds. -/
structure Rewrite where
  field : String
  value : Object → JSON

def Rewrite.apply (r : Rewrite) (p : Object) : Object := p.put r.field (r.value (mapField p r.field))

def applyAll (rs : List Rewrite) (p : Object) : Object := rs.foldl (fun p r => r.apply p) p

theorem mapField_congr {p q : Object} {k : String} (h : p.get k = q.get k) :
    mapField p k = mapField q k := by
  unfold mapField
  rw [h]

theorem Rewrite.get_apply_of_ne (r : Rewrite) (p : Object) {k : String} (h : k ≠ r.field) :
    (r.apply p).get k = p.get k :=
  FiniteMap.get_put_of_ne _ _ h

@[simp] theorem Rewrite.get_apply_self (r : Rewrite) (p : Object) :
    (r.apply p).get r.field = some (r.value (mapField p r.field)) :=
  FiniteMap.get_put_self _ _ _

theorem Rewrite.apply_comm (r r' : Rewrite) (p : Object) (h : r.field ≠ r'.field) :
    r.apply (r'.apply p) = r'.apply (r.apply p) := by
  have hfield : mapField (r'.apply p) r.field = mapField p r.field :=
    mapField_congr (r'.get_apply_of_ne p h)
  have hfield' : mapField (r.apply p) r'.field = mapField p r'.field :=
    mapField_congr (r.get_apply_of_ne p h.symm)
  refine FiniteMap.ext_get fun k => ?_
  by_cases hk : k = r.field
  · subst hk
    rw [get_apply_self, get_apply_of_ne _ _ h, get_apply_self, hfield]
  · rw [get_apply_of_ne _ _ hk]
    by_cases hk' : k = r'.field
    · subst hk'
      rw [get_apply_self, get_apply_self, hfield']
    · rw [get_apply_of_ne _ _ hk', get_apply_of_ne _ _ hk', get_apply_of_ne _ _ hk]

theorem get_applyAll_of_notMem {rs : List Rewrite} {k : String}
    (h : k ∉ rs.map Rewrite.field) (p : Object) : (applyAll rs p).get k = p.get k := by
  induction rs generalizing p with
  | nil => rfl
  | cons r rs ih =>
    simp only [List.map_cons, List.mem_cons, not_or] at h
    exact (ih h.2 _).trans (r.get_apply_of_ne p h.1)

/-- A rewritten field is there. -/
theorem get_applyAll_of_mem {rs : List Rewrite} {k : String} (h : k ∈ rs.map Rewrite.field)
    (p : Object) : ∃ v, (applyAll rs p).get k = some v := by
  have hkept : ∀ (rs : List Rewrite) (p : Object) v, p.get k = some v →
      ∃ v', (applyAll rs p).get k = some v' := by
    intro rs
    induction rs with
    | nil => exact fun p v hv => ⟨v, hv⟩
    | cons r rs ih =>
      intro p v hv
      by_cases hk : k = r.field
      · subst hk
        exact ih _ _ (r.get_apply_self p)
      · exact ih _ v ((r.get_apply_of_ne p hk).trans hv)
  induction rs generalizing p with
  | nil => cases h
  | cons r rs ih =>
    by_cases hk : k = r.field
    · subst hk
      exact hkept rs _ _ (r.get_apply_self p)
    · exact ih (by simpa only [List.map_cons, List.mem_cons, hk, false_or] using h) _

theorem get_applyAll_congr (rs : List Rewrite) {p q : Object} {k : String}
    (h : p.get k = q.get k) : (applyAll rs p).get k = (applyAll rs q).get k := by
  induction rs generalizing p q with
  | nil => exact h
  | cons r rs ih =>
    refine ih ?_
    by_cases hk : k = r.field
    · subst hk
      rw [r.get_apply_self, r.get_apply_self, mapField_congr h]
    · rw [r.get_apply_of_ne _ hk, r.get_apply_of_ne _ hk, h]

/-- A rewritten field depends only on the map that it holds. -/
theorem get_applyAll_congr_map {rs : List Rewrite} {p q : Object} {k : String}
    (hmem : k ∈ rs.map Rewrite.field) (h : mapField p k = mapField q k) :
    (applyAll rs p).get k = (applyAll rs q).get k := by
  induction rs generalizing p q with
  | nil => cases hmem
  | cons r rs ih =>
    change (applyAll rs (r.apply p)).get k = (applyAll rs (r.apply q)).get k
    by_cases hk : k = r.field
    · subst hk
      refine get_applyAll_congr rs ?_
      rw [r.get_apply_self, r.get_apply_self, h]
    · refine ih (by simpa only [List.map_cons, List.mem_cons, hk, false_or] using hmem) ?_
      rw [mapField_congr (r.get_apply_of_ne p hk), mapField_congr (r.get_apply_of_ne q hk), h]

/-! ### Marker and injected values -/

def overlayValues (values : FiniteMap String String) (m : Object) : Object :=
  .ofFun (m.keys ∪ values.keys) fun k =>
    match values.get k with
    | some value => some (.str value)
    | none => m.get k

/-- The managed marker of a kind. -/
def Kind.marker : Kind → Option Rewrite
  | .realm | .client | .clientScope =>
      some ⟨"attributes", fun m => .ofObject (m.put managedAnnotationKey (.str managedValue))⟩
  | .realmRole | .group =>
      some ⟨"attributes", fun m => .ofObject (m.put managedAnnotationKey
        (.ofList (((m.get managedAnnotationKey).bind JSON.asList).getD [] ++ [.str managedValue])))⟩
  | .identityProvider => none

/-- What the Secrets that a spec refers to add to the payload. -/
inductive Injection where
  | nothing
  | secret (value : String)
  | smtpServer (values : FiniteMap String String)
  | config (values : FiniteMap String String)

def Injection.rewrite : Injection → Option Rewrite
  | .nothing => none
  | .secret value => some ⟨"secret", fun _ => .str value⟩
  | .smtpServer values => some ⟨"smtpServer", fun m => .ofObject (overlayValues values m)⟩
  | .config values => some ⟨"config", fun m => .ofObject (overlayValues values m)⟩

/-- The field that a spec has filled from a Secret. -/
def Spec.injectedField : Spec → Option String
  | .realm s => s.smtpServerSecretRef.map fun _ => "smtpServer"
  | .client s => s.secretRef.map fun _ => "secret"
  | .identityProvider s => s.configSecretRef.map fun _ => "config"
  | _ => none

/-- The rewrites of a pass over an existing resource. -/
def rewrites (kind : Kind) (inj : Injection) : List Rewrite :=
  kind.marker.toList ++ inj.rewrite.toList

/-- The payload that is compared with the server and merged into the update. -/
def builtPayload (kind : Kind) (inj : Injection) (effective : Object) : Object :=
  applyAll (rewrites kind inj) effective

/-- The fields that are rewritten after the reset. -/
def Spec.Rewrites (s : Spec) (k : String) : Prop :=
  (k = "attributes" ∧ s.kind ≠ .identityProvider) ∨ s.injectedField = some k

instance (s : Spec) (k : String) : Decidable (s.Rewrites k) :=
  inferInstanceAs (Decidable (_ ∨ _))

theorem managedMarker_eq (s : Spec) (p : Object) :
    s.driver.managedMarker p = applyAll s.kind.marker.toList p := by
  cases s <;> rfl

/-! ### The payload preparation -/

/-- The entries of a Secret that a selector asks for. -/
def SecretKeysSelector.selected (selector : SecretKeysSelector) (secret : Secret) :
    FiniteMap String String :=
  .ofFun selector.keys.keys fun target => (selector.keys.get target).bind secret.data.get

/-- The name of the Secret that the payload preparation reads. -/
def Spec.secretName : Spec → Option String
  | .realm s => s.smtpServerSecretRef.map (·.name)
  | .client s => s.secretRef.map (·.name)
  | .identityProvider s => s.configSecretRef.map (·.name)
  | _ => none

/-- What the payload preparation injects from a Secret. -/
def Spec.injection (s : Spec) (secret : Secret) : Injection :=
  match s with
  | .realm s => (s.smtpServerSecretRef.map fun selector =>
      Injection.smtpServer (selector.selected secret)).getD .nothing
  | .client s => (s.secretRef.map fun selector => Injection.secret ((secret.data.get
      (if selector.key = "" then clientSecretKey else selector.key)).getD "")).getD .nothing
  | .identityProvider s => (s.configSecretRef.map fun selector =>
      Injection.config (selector.selected secret)).getD .nothing
  | _ => .nothing

/-- The Secret has every entry that the spec asks for. -/
def Spec.Served (s : Spec) (secret : Secret) : Prop :=
  match s with
  | .realm s => ∀ selector, s.smtpServerSecretRef = some selector →
      ∀ target key, selector.keys.get target = some key → ∃ value, secret.data.get key = some value
  | .client s => ∀ selector, s.secretRef = some selector → ∃ value,
      secret.data.get (if selector.key = "" then clientSecretKey else selector.key) = some value
  | .identityProvider s => ∀ selector, s.configSecretRef = some selector →
      ∀ target key, selector.keys.get target = some key → ∃ value, secret.data.get key = some value
  | _ => True

/-- An injection that the spec can lead to. -/
def Injection.For (inj : Injection) (s : Spec) : Prop :=
  ∃ secret, s.Served secret ∧ inj = s.injection secret

theorem Injection.For.field {inj : Injection} {s : Spec} (h : inj.For s) :
    inj.rewrite.map Rewrite.field = s.injectedField := by
  obtain ⟨secret, -, rfl⟩ := h
  cases s with
  | realm s => cases h : s.smtpServerSecretRef <;> simp [Spec.injection, Spec.injectedField,
      Injection.rewrite, h]
  | client s => cases h : s.secretRef <;> simp [Spec.injection, Spec.injectedField,
      Injection.rewrite, h]
  | identityProvider s => cases h : s.configSecretRef <;> simp [Spec.injection,
      Spec.injectedField, Injection.rewrite, h]
  | _ => rfl

theorem mem_rewrites_iff {s : Spec} {inj : Injection} (hinj : inj.For s) (k : String) :
    k ∈ (rewrites s.kind inj).map Rewrite.field ↔ s.Rewrites k := by
  have hinjected : k ∈ inj.rewrite.toList.map Rewrite.field ↔ s.injectedField = some k := by
    rw [← hinj.field]
    cases inj.rewrite <;> simp [eq_comm]
  unfold rewrites Spec.Rewrites
  rw [List.map_append, List.mem_append, hinjected]
  cases s <;> simp [Spec.kind, Kind.marker]

/-- The creation injects first and stamps afterwards, with the same result. -/
theorem managedMarker_inject {s : Spec} {inj : Injection} (hinj : inj.For s) (p : Object) :
    s.driver.managedMarker (applyAll inj.rewrite.toList p) = builtPayload s.kind inj p := by
  have hcomm : ∀ marker r : Rewrite, marker.field ≠ r.field →
      marker.apply (r.apply p) = r.apply (marker.apply p) :=
    fun marker r h => marker.apply_comm r p h
  rw [managedMarker_eq]
  unfold builtPayload rewrites
  cases hr : inj.rewrite with
  | none => simp [applyAll]
  | some r =>
    cases hm : s.kind.marker with
    | none => simp [applyAll]
    | some marker =>
      refine hcomm marker r ?_
      have hmarker : marker.field = "attributes" := by
        cases s <;> simp [Spec.kind, Kind.marker] at hm <;> subst hm <;> rfl
      have hfield : s.injectedField = some r.field := by rw [← hinj.field, hr]; rfl
      rw [hmarker]
      rintro hattributes
      rw [← hattributes] at hfield
      cases s <;> simp [Spec.injectedField] at hfield

/-- The loop of `readSecretValues`, in whatever order it visits the keys. -/
theorem get_collectSecretValues {ns : String} {selector : SecretKeysSelector} {secret : Secret}
    {order : List String} {out values : FiniteMap String String}
    (h : collectSecretValues ns selector secret order out = .ok values) (target : String) :
    values.get target =
      if target ∈ order ∧ target ∈ selector.keys.keys then
        (selector.keys.get target).bind secret.data.get
      else out.get target := by
  induction order generalizing out with
  | nil =>
    cases h
    simp
  | cons a order ih =>
    rw [collectSecretValues] at h
    cases hkey : selector.keys.get a with
    | none =>
      rw [hkey] at h
      have ha : a ∉ selector.keys.keys := FiniteMap.get_eq_none_iff.mp hkey
      rw [ih h]
      by_cases htarget : target = a
      · subst htarget
        simp [ha]
      · simp [htarget]
    | some key =>
      have ha : a ∈ selector.keys.keys := FiniteMap.mem_keys_of_get hkey
      cases hvalue : secret.data.get key with
      | none =>
        rw [hkey] at h
        simp only [secretEntry, hvalue, reduceCtorEq] at h
      | some value =>
        rw [hkey] at h
        simp only [secretEntry, hvalue] at h
        rw [ih h]
        by_cases htarget : target = a
        · subst htarget
          simp [ha, hkey, hvalue]
        · simp [htarget, FiniteMap.get_put_of_ne]

theorem collectSecretValues_eq {ns : String} {selector : SecretKeysSelector} {secret : Secret}
    (order : Order selector.keys.keys) {values : FiniteMap String String}
    (h : collectSecretValues ns selector secret order.list ∅ = .ok values) :
    values = selector.selected secret := by
  refine FiniteMap.ext_get fun target => ?_
  rw [get_collectSecretValues h, SecretKeysSelector.selected, FiniteMap.get_ofFun]
  simp [order.mem_iff]

/-- The loop succeeds exactly when every selected entry is there. -/
theorem collectSecretValues_ok_iff {ns : String} {selector : SecretKeysSelector} {secret : Secret}
    {order : List String} {out : FiniteMap String String} :
    (∃ values, collectSecretValues ns selector secret order out = .ok values) ↔
      ∀ target ∈ order, ∀ key, selector.keys.get target = some key →
        ∃ value, secret.data.get key = some value := by
  induction order generalizing out with
  | nil => simp [collectSecretValues]
  | cons a order ih =>
    rw [List.forall_mem_cons, collectSecretValues]
    cases hkey : selector.keys.get a with
    | none => simpa using ih
    | some key =>
      cases hvalue : secret.data.get key with
      | none => simp [secretEntry, hvalue]
      | some value => simpa [secretEntry, hvalue] using ih

/-- Every spec can be served. -/
theorem exists_served (s : Spec) : ∃ secret, s.Served secret := by
  have hselector : ∀ selector : SecretKeysSelector, ∃ data : FiniteMap String String,
      ∀ target key, selector.keys.get target = some key → ∃ value, data.get key = some value := by
    intro selector
    let wanted : Finset String :=
      selector.keys.keys.image fun target => (selector.keys.get target).getD ""
    refine ⟨.ofFun wanted fun _ => some "", fun target key hkey => ⟨"", ?_⟩⟩
    have hwanted : key ∈ wanted := by
      refine Finset.mem_image.mpr ⟨target, FiniteMap.mem_keys_of_get hkey, ?_⟩
      rw [hkey]
      rfl
    rw [FiniteMap.get_ofFun, if_pos hwanted]
  cases s with
  | realm s =>
    cases href : s.smtpServerSecretRef with
    | none => exact ⟨⟨"", "", ∅, [], 0⟩, by simp [Spec.Served, href]⟩
    | some selector =>
      obtain ⟨data, hdata⟩ := hselector selector
      exact ⟨⟨"", "", data, [], 0⟩, by simpa [Spec.Served, href] using hdata⟩
  | client s =>
    cases href : s.secretRef with
    | none => exact ⟨⟨"", "", ∅, [], 0⟩, by simp [Spec.Served, href]⟩
    | some selector =>
      refine ⟨⟨"", "", FiniteMap.put ∅
        (if selector.key = "" then clientSecretKey else selector.key) "", [], 0⟩, ?_⟩
      simp [Spec.Served, href]
  | identityProvider s =>
    cases href : s.configSecretRef with
    | none => exact ⟨⟨"", "", ∅, [], 0⟩, by simp [Spec.Served, href]⟩
    | some selector =>
      obtain ⟨data, hdata⟩ := hselector selector
      exact ⟨⟨"", "", data, [], 0⟩, by simpa [Spec.Served, href] using hdata⟩
  | clientScope s => exact ⟨⟨"", "", ∅, [], 0⟩, trivial⟩
  | realmRole s => exact ⟨⟨"", "", ∅, [], 0⟩, trivial⟩
  | group s => exact ⟨⟨"", "", ∅, [], 0⟩, trivial⟩

/-- A spec that refers to no Secret gets nothing from one. -/
theorem injection_of_secretName_none {s : Spec} (h : s.secretName = none) (secret : Secret) :
    s.injection secret = .nothing := by
  rcases s with s | s | s | s | s | s <;>
    first
    | rfl
    | simp only [Spec.injection, Option.map_eq_none_iff.mp h, Option.map_none, Option.getD_none]

/-- The operations of the payload preparation. -/
def ReadsSecrets : Op → Prop
  | .getSecret _ _ => True
  | .iterate _ => True
  | _ => False

section Prepare

variable {σ : Type} {env : Prog.Env operations σ} {inv : σ → Prop}

/-- The environment hands out `secret` in a state with the invariant. -/
def Obtains (env : Prog.Env operations σ) (inv : σ → Prop) (ns name : String) (secret : Secret) :
    Prop :=
  ∃ w w', inv w ∧ env (.getSecret ns name) w (.ok secret) w'

/-- The reads of the preparation keep the invariant. -/
def KeptByReads (env : Prog.Env operations σ) (inv : σ → Prop) : Prop :=
  ∀ op w answer w', ReadsSecrets op → inv w → env op w answer w' → inv w'

/-- `r` is what the answer to a read of the Secret leads to: a value that `good` relates to the
    Secret, and an error if there is no Secret or no such value. -/
def Draws (env : Prog.Env operations σ) (inv : σ → Prop) (ns name : String)
    (good : Secret → α → Prop) (r : Except Err α) : Prop :=
  ∃ answer w w', inv w ∧ env (.getSecret ns name) w answer w' ∧
    ∀ a, r = .ok a ↔ ∃ secret, answer = .ok secret ∧ good secret a

theorem wp_readSecret_bind (hkeep : KeptByReads env inv) {w : σ} (hw : inv w) {ns name : String}
    {f : Secret → Call α} {good : Secret → α → Prop}
    (hf : ∀ secret w, inv w → Prog.wp env (fun op s => ReadsSecrets op ∧ inv s) (f secret).run
      (fun r w' => inv w' ∧ ∀ a, r = .ok a ↔ good secret a) w) :
    Prog.wp env (fun op s => ReadsSecrets op ∧ inv s) (readSecret ns name >>= f).run
      (fun r w' => inv w' ∧ Draws env inv ns name good r) w := by
  refine ⟨⟨trivial, hw⟩, fun answer w' hstep => ?_⟩
  have hw' : inv w' := hkeep _ w answer w' trivial hw hstep
  rcases answer with err | secret
  · exact ⟨hw', .error err, w, w', hw, hstep, by simp⟩
  · refine Prog.wp_mono ?_ (hf secret w' hw')
    rintro r u ⟨hu, hr⟩
    exact ⟨hu, .ok secret, w, w', hw, hstep, by simpa using hr⟩

theorem wp_readSecretValue (hkeep : KeptByReads env inv) {w : σ} (hw : inv w) (ns : String)
    (selector : SecretKeySelector) (defaultKey : String) :
    Prog.wp env (fun op s => ReadsSecrets op ∧ inv s) (readSecretValue ns selector defaultKey).run
      (fun r w' => inv w' ∧ Draws env inv ns selector.name (fun secret value =>
        secret.data.get (if selector.key = "" then defaultKey else selector.key) = some value) r)
      w := by
  refine wp_readSecret_bind hkeep hw fun secret w' hw' => ⟨hw', fun value => ?_⟩
  unfold secretEntry
  split <;> simp_all

theorem wp_readSecretValues (hkeep : KeptByReads env inv) {w : σ} (hw : inv w) (ns : String)
    (selector : SecretKeysSelector) :
    Prog.wp env (fun op s => ReadsSecrets op ∧ inv s) (readSecretValues ns selector).run
      (fun r w' => inv w' ∧ Draws env inv ns selector.name (fun secret values =>
        (∀ target key, selector.keys.get target = some key →
          ∃ value, secret.data.get key = some value) ∧ values = selector.selected secret) r) w := by
  refine wp_readSecret_bind hkeep hw fun secret w' hw' => ?_
  refine Prog.wp_run_bind.mpr (Prog.wp_run_lift.mpr ⟨⟨trivial, hw'⟩, fun order w'' hstep => ?_⟩)
  refine ⟨hkeep _ w' order w'' trivial hw' hstep, fun values => ?_⟩
  constructor
  · refine fun h => ⟨fun target key hkey => ?_, collectSecretValues_eq order h⟩
    have htarget : target ∈ order.list :=
      (order.mem_iff target).mpr (FiniteMap.mem_keys_of_get hkey)
    exact collectSecretValues_ok_iff.mp ⟨values, h⟩ target htarget key hkey
  · rintro ⟨hpresent, rfl⟩
    obtain ⟨values, hvalues⟩ := collectSecretValues_ok_iff.mpr fun target _ => hpresent target
    rw [← collectSecretValues_eq order hvalues]
    exact hvalues

/-- `r` is `p` with the values of the Secret that the spec refers to, if it refers to one. -/
def Prepared (env : Prog.Env operations σ) (inv : σ → Prop) (s : Spec) (ns : String) (p : Object)
    (r : Except Err Object) : Prop :=
  match s.secretName with
  | none => r = .ok p
  | some name => Draws env inv ns name (fun secret p' => s.Served secret ∧
      p' = applyAll (s.injection secret).rewrite.toList p) r

theorem Prepared.exists_secret {s : Spec} {ns : String} {p p' : Object}
    (h : Prepared env inv s ns p (.ok p')) :
    ∃ secret, s.Served secret ∧ p' = applyAll (s.injection secret).rewrite.toList p ∧
      ∀ name, s.secretName = some name → Obtains env inv ns name secret := by
  unfold Prepared at h
  split at h
  case h_1 hname =>
    obtain ⟨secret, hserved⟩ := exists_served s
    refine ⟨secret, hserved, ?_, fun name hsome => by cases hname.symm.trans hsome⟩
    rw [injection_of_secretName_none hname]
    exact Except.ok.inj h
  case h_2 name hname =>
    obtain ⟨answer, w, w', hw, hstep, hdrawn⟩ := h
    obtain ⟨secret, rfl, hserved, rfl⟩ := (hdrawn p').mp rfl
    refine ⟨secret, hserved, rfl, fun name' hname' => ?_⟩
    obtain rfl := Option.some.inj (hname.symm.trans hname')
    exact ⟨w, w', hw, hstep⟩

/-- The preparation fails over the Secret: it is not handed out, or it lacks an entry. -/
theorem Prepared.exists_answer {s : Spec} {ns : String} {p : Object} {err : Err}
    (h : Prepared env inv s ns p (.error err)) :
    ∃ name answer w w', s.secretName = some name ∧ inv w ∧
      env (.getSecret ns name) w answer w' ∧ ∀ secret, answer = .ok secret → ¬ s.Served secret := by
  unfold Prepared at h
  split at h
  case h_1 => cases h
  case h_2 name hname =>
    obtain ⟨answer, w, w', hw, hstep, hdrawn⟩ := h
    refine ⟨name, answer, w, w', hname, hw, hstep, fun secret hsecret hserved => ?_⟩
    cases (hdrawn _).mpr ⟨secret, hsecret, hserved, rfl⟩

/-- What is drawn from the Secret is injected, if it is what the spec asks for. -/
theorem Draws.prepared {s : Spec} {ns name : String} {p : Object} {good : Secret → α → Prop}
    {inject : α → Object} {r : Except Err α} (h : Draws env inv ns name good r)
    (hname : s.secretName = some name) (hserves : ∀ secret, s.Served secret ↔ ∃ a, good secret a)
    (hinject : ∀ secret a, good secret a →
      inject a = applyAll (s.injection secret).rewrite.toList p) :
    Prepared env inv s ns p (r.map inject) := by
  obtain ⟨answer, w, w', hw, hstep, hr⟩ := h
  simp only [Prepared, hname]
  refine ⟨answer, w, w', hw, hstep, fun p' => ?_⟩
  rcases r with err | a
  · refine iff_of_false (fun herr => by cases herr) ?_
    rintro ⟨secret, hsecret, hserved, -⟩
    obtain ⟨a, ha⟩ := (hserves secret).mp hserved
    cases (hr a).mpr ⟨secret, hsecret, ha⟩
  · constructor
    · intro h
      obtain ⟨secret, hsecret, ha⟩ := (hr a).mp rfl
      exact ⟨secret, hsecret, (hserves secret).mpr ⟨a, ha⟩,
        (Except.ok.inj h).symm.trans (hinject secret a ha)⟩
    · rintro ⟨secret, hsecret, hserved, rfl⟩
      obtain ⟨a', ha'⟩ := (hserves secret).mp hserved
      obtain rfl := Except.ok.inj ((hr a').mpr ⟨secret, hsecret, ha'⟩)
      exact congrArg _ (hinject secret a ha')

/-- **The payload preparation injects what the Secret holds.**  Nothing is read for
    a spec that refers to no Secret. -/
theorem wp_preparePayload (hkeep : KeptByReads env inv) {w : σ} (hw : inv w) (s : Spec)
    (obj : ManagedObject) (p : Object) :
    Prog.wp env (fun op s => ReadsSecrets op ∧ inv s) (s.driver.preparePayload obj p).run
      (fun r w' => inv w' ∧ Prepared env inv s obj.ns p r) w := by
  have hunread : s.secretName = none → inv w ∧ Prepared env inv s obj.ns p (.ok p) := by
    intro hname
    simp [Prepared, hname, hw]
  have hread : ∀ {α : Type} {read : Call α} {name : String} {good : Secret → α → Prop}
      {inject : α → Object}, s.secretName = some name →
      (∀ secret, s.Served secret ↔ ∃ a, good secret a) →
      (∀ secret a, good secret a → inject a = applyAll (s.injection secret).rewrite.toList p) →
      Prog.wp env (fun op s => ReadsSecrets op ∧ inv s) read.run
        (fun r w' => inv w' ∧ Draws env inv obj.ns name good r) w →
      Prog.wp env (fun op s => ReadsSecrets op ∧ inv s) (do return inject (← read) : Call Object).run
        (fun r w' => inv w' ∧ Prepared env inv s obj.ns p r) w := by
    intro α read name good inject hname hserves hinject hdrawn
    refine Prog.wp_run_bind.mpr (Prog.wp_mono ?_ hdrawn)
    rintro (err | a) w' ⟨hw', hdraws⟩ <;> exact ⟨hw', hdraws.prepared hname hserves hinject⟩
  rcases s with s | s | s | s | s | s
  · change Prog.wp env _ (s.preparePayload obj p).run _ w
    unfold RealmSpec.preparePayload
    rcases hselector : s.smtpServerSecretRef with _ | selector
    · exact hunread (by simp [Spec.secretName, hselector])
    · refine hread (by simp [Spec.secretName, hselector]) (by simp [Spec.Served, hselector]) ?_
        (wp_readSecretValues hkeep hw obj.ns selector)
      rintro secret _ ⟨-, rfl⟩
      simp only [Spec.injection, hselector]
      rfl
  · change Prog.wp env _ (s.preparePayload obj p).run _ w
    unfold ClientSpec.preparePayload
    rcases hselector : s.secretRef with _ | selector
    · exact hunread (by simp [Spec.secretName, hselector])
    · refine hread (by simp [Spec.secretName, hselector]) (by simp [Spec.Served, hselector]) ?_
        (wp_readSecretValue hkeep hw obj.ns selector clientSecretKey)
      intro secret value hvalue
      simp only [Spec.injection, hselector, Option.map_some, Option.getD_some, hvalue]
      rfl
  · exact hunread rfl
  · exact hunread rfl
  · change Prog.wp env _ (s.preparePayload obj p).run _ w
    unfold IdentityProviderSpec.preparePayload
    rcases hselector : s.configSecretRef with _ | selector
    · exact hunread (by simp [Spec.secretName, hselector])
    · refine hread (by simp [Spec.secretName, hselector]) (by simp [Spec.Served, hselector]) ?_
        (wp_readSecretValues hkeep hw obj.ns selector)
      rintro secret _ ⟨-, rfl⟩
      simp only [Spec.injection, hselector]
      rfl
  · exact hunread rfl

end Prepare

/-- The environment that answers anything. -/
def anyAnswer : Prog.Env operations Unit := fun _ _ _ _ => True

/-! ### The removal of a field

The field `k` was applied with the value `v` and is no longer in the spec; the server
still holds `g` there. -/

theorem effectivePayload_of_unmarshal {specMap last : Object} {text : AnnotationText}
    (h : text.unmarshal = .ok last) :
    effectivePayload specMap text = .ok (resetRemoved specMap last) := by
  have hne : text ≠ .empty := by
    rintro rfl
    cases h
  rw [effectivePayload, if_neg hne, h]

theorem get_resetRemoved_of_removed {specMap last : Object} {k : String} {v z : JSON}
    (habsent : specMap.get k = none) (hlast : last.get k = some v) (hz : zeroFor v = some z) :
    (resetRemoved specMap last).get k = some z := by
  rw [get_resetRemoved, habsent, hlast]
  exact hz

/-- A reset value holds no entries. -/
theorem mapField_of_reset {p : Object} {k : String} {z : JSON} (hz : z ∈ resetValues)
    (h : p.get k = some z) : mapField p k = ∅ := by
  rw [mapField, h]
  simp only [resetValues, List.mem_cons, List.not_mem_nil, or_false] at hz
  rcases hz with rfl | rfl | rfl | rfl <;> rfl

/-- A JSON map. -/
def JSON.isMap : JSON → Bool
  | .obj _ _ => true
  | _ => false

/-- The reset of a map agrees with every map; any other reset agrees with the zero
    value and the mask only. -/
theorem entryAgrees_zeroFor {v z g : JSON} (hz : zeroFor v = some z) (hnull : g ≠ .null)
    (hzero : g ≠ z) (hmask : g ≠ .str keycloakMaskedValue) :
    EntryAgrees z (some g) ↔ v.isMap = true ∧ g.isMap = true := by
  have hne : z ≠ .null := isZeroValue_ne_null (isZeroValue_iff.mpr (zeroFor_mem hz))
  rw [entryAgrees_present hne (presentValue_eq_some.mpr ⟨rfl, hnull⟩)]
  cases v with
  | null => cases hz
  | num n => cases hz
  | bool b =>
    cases hz
    have hscalar := managedValueEqual_scalar (rfl : (JSON.bool false).isScalar = true) g
    simp only [hscalar, hmask, hzero, or_self, JSON.isMap, Bool.false_eq_true, false_and]
  | str s =>
    cases hz
    have hscalar := managedValueEqual_scalar (rfl : (JSON.str "").isScalar = true) g
    simp only [hscalar, hmask, hzero, or_self, JSON.isMap, Bool.false_eq_true, false_and]
  | arr n items =>
    cases hz
    simp only [JSON.isMap, Bool.false_eq_true, false_and, iff_false]
    intro hequal
    cases g with
    | arr m gotItems =>
      obtain ⟨rfl, -⟩ := (managedValueEqual_arr _ _).mp hequal
      exact hzero (congrArg _ (funext fun i => i.elim0))
    | _ => simp [JSON.ofList, managedValueEqual] at hequal
  | obj keys vals =>
    cases hz
    simp only [JSON.isMap, true_and]
    constructor
    · intro hequal
      obtain ⟨m, rfl⟩ := asObject_of_managedValueEqual hequal
      rfl
    · intro hmap
      cases g with
      | obj gotKeys gotVals =>
        change managedValueEqual (.ofObject ∅) (.ofObject ⟨gotKeys, gotVals⟩) = true
        rw [managedValueEqual_ofObject, Bool.not_eq_true', payloadDiffers_eq_false_iff]
        intro k want hwant
        rw [FiniteMap.get_empty] at hwant
        cases hwant
      | _ => cases hmap

/-- The payload that the engine builds for an existing resource. -/
theorem builtPayload_eq (s : Spec) (inj : Injection) (effective : Object) :
    applyAll inj.rewrite.toList (s.driver.managedMarker effective) =
      builtPayload s.kind inj effective := by
  rw [managedMarker_eq, builtPayload, rewrites, applyAll, applyAll, applyAll, List.foldl_append]

/-- Every read of the Secret that the spec refers to hands out `secret`. -/
def HandsOut {σ : Type} (env : Prog.Env operations σ) (obj : ManagedObject) (secret : Secret) : Prop :=
  ∀ name w answer w', obj.spec.secretName = some name →
    env (.getSecret obj.ns name) w answer w' → answer = .ok secret

/-- What the preparation makes of the marked payload, by the Secret it reads. -/
theorem exec_preparePayload_built {σ : Type} {env : Prog.Env operations σ} {obj : ManagedObject}
    {w w' : σ} {steps : List (Prog.Step operations σ)} {secret : Secret} {effective payload : Object}
    (hsecret : HandsOut env obj secret)
    (hpayload : Prog.Exec env (obj.spec.driver.preparePayload obj
      (obj.spec.driver.managedMarker effective)).run w steps w' (some (.ok payload))) :
    (obj.spec.injection secret).For obj.spec ∧
      payload = builtPayload obj.spec.kind (obj.spec.injection secret) effective := by
  have hkeep : KeptByReads env fun _ => True := fun _ _ _ _ _ _ _ => trivial
  obtain ⟨-, hpost⟩ := Prog.wp_sound (wp_preparePayload hkeep trivial obj.spec obj _) hpayload
  obtain ⟨read, hserved, rfl, hobtains⟩ := (hpost _ rfl).2.exists_secret
  have hread : obj.spec.injection read = obj.spec.injection secret := by
    rcases hname : obj.spec.secretName with _ | name
    · rw [injection_of_secretName_none hname, injection_of_secretName_none hname]
    · obtain ⟨u, u', -, hstep⟩ := hobtains name hname
      rw [Except.ok.inj (hsecret name u _ u' hname hstep)]
  rw [← hread]
  exact ⟨⟨read, hserved, rfl⟩, builtPayload_eq _ _ _⟩

/-- Another field than `k` asks for something that the server does not hold. -/
def DiffersElsewhere (k : String) (remote payload : Object) : Prop :=
  ∃ k' want, k' ≠ k ∧ payload.get k' = some want ∧ ¬ EntryAgrees want (remote.get k')

theorem payloadDiffers_iff_elsewhere {remote payload : Object} {k : String} {want : JSON}
    (hwant : payload.get k = some want) :
    payloadDiffers remote payload = true ↔
      DiffersElsewhere k remote payload ∨ ¬ EntryAgrees want (remote.get k) := by
  rw [payloadDiffers_eq_true_iff]
  constructor
  · rintro ⟨k', want', hwant', hdisagrees⟩
    by_cases hk : k' = k
    · subst hk
      rw [hwant] at hwant'
      cases hwant'
      exact .inr hdisagrees
    · exact .inl ⟨k', want', hk, hwant', hdisagrees⟩
  · rintro (⟨k', want', -, hwant', hdisagrees⟩ | hdisagrees)
    · exact ⟨k', want', hwant', hdisagrees⟩
    · exact ⟨k, want, hwant, hdisagrees⟩

/-- **When the removal of a field is acted on**, for given spec, annotation, Secret and remote
    representation: another field differs, or the field itself does.  A field that nothing rewrites
    after its reset differs unless it was applied as a map and the server holds a map: the reset
    value is then the empty map, which asks for nothing.  A field that is rewritten holds what the
    marker or the Secret puts there, and differs exactly when the server holds something else. -/
theorem removalActedOn_iff {σ : Type} {env : Prog.Env operations σ} {w w' : σ}
    {steps : List (Prog.Step operations σ)} (obj : ManagedObject) (text : AnnotationText)
    (secret : Secret) {specMap last remote effective payload : Object} {k : String} {v z g : JSON}
    (habsent : specMap.get k = none) (htext : text.unmarshal = .ok last)
    (hlast : last.get k = some v) (hz : zeroFor v = some z) (hremote : remote.get k = some g)
    (hnull : g ≠ .null) (hzero : g ≠ z) (hmask : g ≠ .str keycloakMaskedValue)
    (heffective : effectivePayload specMap text = .ok effective)
    (hsecret : HandsOut env obj secret)
    (hpayload : Prog.Exec env (obj.spec.driver.preparePayload obj
      (obj.spec.driver.managedMarker effective)).run w steps w' (some (.ok payload))) :
    payloadDiffers remote payload = true ↔
      DiffersElsewhere k remote payload ∨
      (¬ obj.spec.Rewrites k ∧ ¬ (v.isMap = true ∧ g.isMap = true)) ∨
      (obj.spec.Rewrites k ∧ ∀ want,
        (builtPayload obj.spec.kind (obj.spec.injection secret) ∅).get k = some want →
          ¬ EntryAgrees want (some g)) := by
  obtain ⟨hinj, rfl⟩ := exec_preparePayload_built hsecret hpayload
  rw [effectivePayload_of_unmarshal htext, Except.ok.injEq] at heffective
  subst heffective
  have hreset : (resetRemoved specMap last).get k = some z :=
    get_resetRemoved_of_removed habsent hlast hz
  by_cases hrewrites : obj.spec.Rewrites k
  · -- the marker or the Secret finds no entries in the reset value
    have hmem := (mem_rewrites_iff hinj k).mpr hrewrites
    obtain ⟨want, hwant⟩ := get_applyAll_of_mem hmem ∅
    have hbuilt : (builtPayload obj.spec.kind (obj.spec.injection secret)
        (resetRemoved specMap last)).get k = some want := by
      refine (get_applyAll_congr_map hmem ?_).trans hwant
      rw [mapField_of_reset (zeroFor_mem hz) hreset]
      rfl
    have hwant : (builtPayload obj.spec.kind (obj.spec.injection secret) ∅).get k = some want := hwant
    rw [payloadDiffers_iff_elsewhere hbuilt, hremote]
    simp only [hrewrites, not_true_eq_false, false_and, true_and, false_or, hwant,
      Option.some.injEq, forall_eq']
  · have hbuilt : (builtPayload obj.spec.kind (obj.spec.injection secret)
        (resetRemoved specMap last)).get k = some z := by
      rw [builtPayload, get_applyAll_of_notMem fun h => hrewrites ((mem_rewrites_iff hinj k).mp h)]
      exact hreset
    rw [payloadDiffers_iff_elsewhere hbuilt, hremote, entryAgrees_zeroFor hz hnull hzero hmask]
    simp only [hrewrites, not_false_eq_true, true_and, false_and, or_false]

/-! A realm that once had a display name and security headers, both removed from its
spec. -/

def demoRealm : RealmSpec where
  keycloakRef := "main"
  realm := "demo"
  fields := ⟨∅, Fields.typed_empty _⟩

def demoObject : ManagedObject where
  ns := "apps"
  name := "demo"
  uid := "uid-1"
  generation := 2
  finalizers := [finalizerName]
  spec := .realm demoRealm

def demoSpecMap : Object := Engine.representation demoRealm.driver (.realm demoRealm)

def demoHeaders : JSON := .ofObject (.ofList [("xFrameOptions", .str "DENY")])

/-- The annotation of the realm while it had both. -/
def demoLast : Object :=
  (demoSpecMap.put "browserSecurityHeaders" demoHeaders).put "displayName" (.str "Demo")

/-- The payload of the realm after a removal; there is no Secret to read. -/
def demoPayload (last : Object) : Object :=
  demoRealm.driver.managedMarker (resetRemoved demoSpecMap last)

def demoRemote : Object :=
  .ofList [("realm", .str "demo"), ("browserSecurityHeaders", demoHeaders),
    ("displayName", .str "Demo"),
    ("attributes", .ofObject (.ofList [( managedAnnotationKey, .str managedValue)]))]

/-- The removal of the security headers is acted on if the display name is removed with them. -/
theorem headers_removed_with_displayName :
    DiffersElsewhere "browserSecurityHeaders" demoRemote (demoPayload demoLast) ∧
      payloadDiffers demoRemote (demoPayload demoLast) = true := by
  have hname : ¬ EntryAgrees (.str "") (some (.str "Demo")) := fun h => absurd
    ((entryAgrees_zeroFor (v := .str "Demo") rfl (by decide) (by decide) (by decide)).mp h) (by decide)
  have hdiffers : DiffersElsewhere "browserSecurityHeaders" demoRemote (demoPayload demoLast) :=
    ⟨"displayName", .str "", by decide, by decide, hname⟩
  have hprepared : Prog.Exec anyAnswer (demoObject.spec.driver.preparePayload demoObject
      (demoPayload demoLast)).run () [] () (some (.ok (demoPayload demoLast))) := .ret _ _
  have hnone : HandsOut anyAnswer demoObject ⟨"", "", ∅, [], 0⟩ := fun name _ _ _ hname => by
    cases hname
  exact ⟨hdiffers, (removalActedOn_iff demoObject (.marshalled demoLast) ⟨"", "", ∅, [], 0⟩
    (v := demoHeaders) (g := demoHeaders) (by decide) rfl (by decide) rfl (by decide) (by decide)
    (by decide) (by decide) (effectivePayload_of_unmarshal rfl) hnone hprepared).mpr (.inl hdiffers)⟩

/-- The removal of the security headers alone is not: the payload asks for the empty map. -/
theorem removed_headers_ignored :
    ∃ last payload, demoSpecMap.get "browserSecurityHeaders" = none ∧
      last.get "browserSecurityHeaders" = some demoHeaders ∧
      zeroFor demoHeaders = some (.ofObject ∅) ∧
      demoRemote.get "browserSecurityHeaders" = some demoHeaders ∧ demoHeaders ≠ .null ∧
      demoHeaders ≠ .ofObject ∅ ∧ demoHeaders ≠ .str keycloakMaskedValue ∧
      effectivePayload demoSpecMap (.marshalled last) = .ok (resetRemoved demoSpecMap last) ∧
      Prog.Exec anyAnswer (demoObject.spec.driver.preparePayload demoObject
        (demoObject.spec.driver.managedMarker (resetRemoved demoSpecMap last))).run () [] ()
        (some (.ok payload)) ∧
      payloadDiffers demoRemote payload = false :=
  ⟨demoSpecMap.put "browserSecurityHeaders" demoHeaders,
    demoPayload (demoSpecMap.put "browserSecurityHeaders" demoHeaders), by decide, by decide, rfl,
    by decide, by decide, by decide, by decide, effectivePayload_of_unmarshal rfl, .ret _ _,
    by decide⟩

end KeycloakOperator
