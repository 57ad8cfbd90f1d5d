import KeycloakOperator.Secrets

/-!
# Secrets that the server hides

The server stores the broker configuration of an identity provider and the mail settings of
a realm, but reports the mask for their secret entries.  The comparison takes the mask for
equal to anything, since the real value cannot be seen, and so a pass that finds nothing
else to correct leaves the stored value as it is, also after the Secret was rotated.  Every
entry that the server does not report as the mask has the value of the Secret after a
successful pass.
-/

namespace KeycloakOperator

open Prog

/-! ### A server that hides entries -/

/-- The map whose secret entries the server hides. -/
def Kind.hiddenMap : Kind → Option String
  | .realm => some "smtpServer"
  | .identityProvider => some "config"
  | _ => none

def maskEntries (hidden : String → Bool) (m : Object) : Object :=
  .ofFun m.keys fun k => if hidden k then some (.str keycloakMaskedValue) else m.get k

/-- The representation of a resource with the mask for its hidden entries. -/
def Kind.masked (hidden : String → Bool) (kind : Kind) (r : Resource) : Object :=
  match kind.hiddenMap with
  | none => r.report
  | some field =>
      match (r.report.get field).bind JSON.asObject with
      | some m => r.report.put field (.ofObject (maskEntries hidden m))
      | none => r.report

def Server.getMasked (hidden : String → Bool) (s : Server) (endpoint : Endpoint) : Reply :=
  match endpoint with
  | .realm name =>
      match s.find ⟨.realm, ""⟩ (.key name) with
      | some r => .object (Kind.masked hidden .realm r)
      | none => notFound
  | .identityProvider realm idpAlias =>
      match s.find ⟨.identityProvider, realm⟩ (.key idpAlias) with
      | some r => .object (Kind.masked hidden .identityProvider r)
      | none => notFound
  | endpoint => s.get endpoint

/-- Calls may fail, and reads do not show hidden entries. -/
def Masking (hidden : String → Bool) : Env operations World := fun op w answer w' =>
  match op, answer with
  | .admin kc request, answer =>
      if request.method = .get then
        w' = w ∧ ((∃ err, answer = .error err) ∨
          answer = ((w.servers kc.server).getMasked hidden request.endpoint).decode request.out)
      else Faulty (.admin kc request) w answer w'
  | op, answer => Faulty op w answer w'

/-- The answers of such a server when no call fails. -/
def World.handleMasked (hidden : String → Bool) : Handler operations World := fun op w =>
  match op with
  | .admin kc request =>
      if request.method = .get then
        (((w.servers kc.server).getMasked hidden request.endpoint).decode request.out, w)
      else w.admin kc request
  | op => World.handle World.sorted 0 op w

section Environment

variable {hidden : String → Bool} {w w' : World} {op : Op} {answer : op.Answer}

theorem masking_handleMasked (op : Op) (w : World) :
    Masking hidden op w (World.handleMasked hidden op w).1 (World.handleMasked hidden op w).2 := by
  rcases op with _ | _ | _ | ⟨kc, request⟩ | _ | _ | _ | _ | _ | _ | _ | _ | _ | _
  case admin =>
    by_cases hget : request.method = .get
    · simp only [Masking, World.handleMasked, if_pos hget]
      exact ⟨trivial, .inr trivial⟩
    · simp only [Masking, World.handleMasked, if_neg hget]
      exact .inl ⟨World.sorted, 0, rfl⟩
  all_goals exact .inl ⟨World.sorted, 0, rfl⟩

theorem exec_handleMasked (p : Action α) (w : World) :
    Exec (Masking hidden) p w (p.runSteps (World.handleMasked hidden) w)
      (p.run (World.handleMasked hidden) w).2 (some (p.run (World.handleMasked hidden) w).1) := by
  refine (p.exec_run _ w).mono fun op w answer w' h => ?_
  have h : World.handleMasked hidden op w = (answer, w') := h
  have hmasking := @masking_handleMasked hidden op w
  rwa [h] at hmasking

theorem masking_faulty (hop : op.NoGet) (h : Masking hidden op w answer w') :
    Faulty op w answer w' := by
  rcases op with _ | _ | _ | ⟨kc, request⟩ | _ | _ | _ | _ | _ | _ | _ | _ | _ | _
  case admin =>
    simp only [Masking, if_neg (show ¬ request.method = .get from hop)] at h
    exact h
  all_goals exact h

theorem masking_quiet (hop : op.Quiet) (h : Masking hidden op w answer w') (kc : Conn) (s : Spec) :
    w'.view kc s = w.view kc s := by
  rcases op with _ | _ | _ | ⟨kc', request⟩ | _ | _ | _ | _ | _ | _ | _ | _ | _ | _
  case admin =>
    by_cases hget : request.method = .get
    · simp only [Masking, if_pos hget] at h
      rw [h.1]
    · exact faulty_quiet hop (masking_faulty hget h) kc s
  all_goals exact faulty_quiet hop h kc s

end Environment

theorem Kind.get_masked_of_ne (hidden : String → Bool) {kind : Kind} (r : Resource) {k : String}
    (hk : kind.hiddenMap ≠ some k) : (kind.masked hidden r).get k = r.report.get k := by
  unfold Kind.masked
  split
  · rfl
  case h_2 field hfield =>
    split
    · rw [FiniteMap.get_put_of_ne]
      rintro rfl
      exact hk hfield
    · rfl

/-- The kinds with hidden entries are looked up by one request. -/
theorem showing_masking (hidden : String → Bool) {s : Spec} (hkind : s.kind.hiddenMap ≠ none) :
    Showing (Masking hidden) s (s.kind.masked hidden) where
  id r := by
    rw [Kind.get_masked_of_ne]
    · exact r.get_report_id
    · rcases s with s | s | s | s | s | s <;> simp [Kind.hiddenMap, Spec.kind]
  faulty hop h := masking_faulty hop h
  get kc w := by
    have hitem : ∀ endpoint, (w.servers kc.server).getMasked hidden endpoint =
          (match w.target kc s with
           | some r => .object (s.kind.masked hidden r)
           | none => notFound) →
        wp (Masking hidden) ⊤ (kc.fetchObject endpoint).run
          (fun found t => t = w ∧ ∀ remote, found = .ok remote →
            ∃ r, w.target kc s = some r ∧ remote = s.kind.masked hidden r) w := by
      intro endpoint hget
      refine ⟨trivial, fun answer w' hstep => ?_⟩
      obtain ⟨rfl, ⟨err, rfl⟩ | rfl⟩ := hstep
      · exact ⟨rfl, fun _ h => by cases h⟩
      · refine ⟨rfl, fun remote hremote => ?_⟩
        rw [hget] at hremote
        rcases htarget : w'.target kc s with _ | r <;> rw [htarget] at hremote
        · cases hremote
        · cases hremote
          exact ⟨r, rfl, rfl⟩
    rcases s with s | s | s | s | s | s
    case realm => exact hitem _ rfl
    case identityProvider => exact hitem _ rfl
    all_goals exact absurd rfl hkind

/-! ### Mapped entries -/

/-- The map that a spec has filled from a Secret, and the entries it asks for. -/
def Spec.secretMap : Spec → Option (String × SecretKeysSelector)
  | .realm s => s.smtpServerSecretRef.map fun selector => ("smtpServer", selector)
  | .identityProvider s => s.configSecretRef.map fun selector => ("config", selector)
  | _ => none

/-- The entry holds the value; a missing entry is read as empty. -/
def HoldsValue (got : Option JSON) (value : String) : Prop :=
  got = some (.str value) ∨ (value = "" ∧ presentValue got = none)

instance (got : Option JSON) (value : String) : Decidable (HoldsValue got value) :=
  inferInstanceAs (Decidable (_ ∨ _))

/-- An entry of a map of the stored resource. -/
def World.storedEntry (w : World) (kc : Conn) (s : Spec) (field entry : String) : Option JSON :=
  (w.target kc s).bind fun r => (mapField r.rep field).get entry

/-- The same entry as the server reports it. -/
def World.reportedEntry (hidden : String → Bool) (w : World) (kc : Conn) (s : Spec)
    (field entry : String) : Option JSON :=
  (w.target kc s).bind fun r => (mapField (s.kind.masked hidden r) field).get entry

section Entries

variable {hidden : String → Bool} {w : World} {obj : ManagedObject} {field : String}
  {selector : SecretKeysSelector}

theorem Spec.hiddenMap_of_secretMap {s : Spec} (h : s.secretMap = some (field, selector)) :
    s.kind.hiddenMap = some field ∧ field ≠ "id" := by
  rcases s with s | s | s | s | s | s <;>
    simp only [Spec.secretMap, Option.map_eq_some_iff, Prod.mk.injEq, reduceCtorEq] at h
  · obtain ⟨_, -, rfl, -⟩ := h
    exact ⟨rfl, by decide⟩
  · obtain ⟨_, -, rfl, -⟩ := h
    exact ⟨rfl, by decide⟩

/-- What the Secret of the spec has for the entries. -/
def SecretKeysSelector.Reads (selector : SecretKeysSelector) (w : World) (ns : String)
    (m : Object) : Prop :=
  ∀ entry key, selector.keys.get entry = some key →
    ∃ value, w.secretEntry ns selector.name key = some value ∧ m.get entry = some (.str value)

theorem get_overlayValues (values : FiniteMap String String) (m : Object) (k : String) :
    (overlayValues values m).get k = match values.get k with
      | some value => some (.str value)
      | none => m.get k := by
  apply FiniteMap.get_ofFun_of_support
  intro k' hk'
  rw [Finset.mem_union, not_or, ← FiniteMap.get_eq_none_iff, ← FiniteMap.get_eq_none_iff] at hk'
  rw [hk'.2]
  exact hk'.1

/-- The overlay of the selected entries. -/
theorem reads_overlayValues {ns : String} {secret : Secret} (m : Object)
    (hserved : ∀ entry key, selector.keys.get entry = some key →
      ∃ value, secret.data.get key = some value)
    (hdata : (w.secrets ns selector.name).map Secret.data = some secret.data) :
    selector.Reads w ns (overlayValues (selector.selected secret) m) := by
  intro entry key hkey
  obtain ⟨value, hvalue⟩ := hserved entry key hkey
  obtain ⟨stored, hstored, hsame⟩ := Option.map_eq_some_iff.mp hdata
  refine ⟨value, by simp [World.secretEntry, hstored, hsame, hvalue], ?_⟩
  have hselected : (selector.selected secret).get entry = some value := by
    rw [SecretKeysSelector.selected, FiniteMap.get_ofFun,
      if_pos (FiniteMap.mem_keys_of_get hkey), hkey]
    exact hvalue
  rw [get_overlayValues, hselected]

/-- The body of a pass carries the values of the Secret. -/
theorem World.Builds.secretMap {payload : Object} (h : w.Builds obj payload)
    (hmap : obj.spec.secretMap = some (field, selector)) :
    ∃ m, payload.get field = some (.ofObject m) ∧ selector.Reads w obj.ns m := by
  obtain ⟨effective, inj, -, ⟨secret, hserved, rfl, hdata⟩, rfl⟩ := h
  have hrewritten : ∀ (kind : Kind) (inj : Injection) (values : FiniteMap String String),
      inj.rewrite = some ⟨field, fun m => .ofObject (overlayValues values m)⟩ →
      ∃ m, (builtPayload kind inj effective).get field = some (.ofObject (overlayValues values m)) := by
    intro kind inj values hrewrite
    unfold builtPayload rewrites applyAll
    rw [List.foldl_append, hrewrite]
    exact ⟨_, Rewrite.get_apply_self _ _⟩
  rcases hspec : obj.spec with s | s | s | s | s | s <;> rw [hspec] at hmap hserved hdata <;>
    simp only [Spec.secretMap, Option.map_eq_some_iff, Prod.mk.injEq, reduceCtorEq] at hmap
  · obtain ⟨selector, href, rfl, rfl⟩ := hmap
    obtain ⟨m, hm⟩ := hrewritten (Spec.realm s).kind ((Spec.realm s).injection secret)
      (selector.selected secret) (by simp [Spec.injection, href, Injection.rewrite])
    exact ⟨_, hm, reads_overlayValues m (hserved selector href)
      (hdata selector.name (by simp [Spec.secretName, href]))⟩
  · obtain ⟨selector, href, rfl, rfl⟩ := hmap
    obtain ⟨m, hm⟩ := hrewritten (Spec.identityProvider s).kind
      ((Spec.identityProvider s).injection secret) (selector.selected secret)
      (by simp [Spec.injection, href, Injection.rewrite])
    exact ⟨_, hm, reads_overlayValues m (hserved selector href)
      (hdata selector.name (by simp [Spec.secretName, href]))⟩

theorem get_maskEntries (hidden : String → Bool) (m : Object) (k : String) :
    (maskEntries hidden m).get k =
      if hidden k then (m.get k).map fun _ => .str keycloakMaskedValue else m.get k := by
  unfold maskEntries
  rw [FiniteMap.get_ofFun]
  by_cases hk : k ∈ m.keys
  · obtain ⟨v, hv⟩ := FiniteMap.mem_keys_iff.mp hk
    simp [hk, hv]
  · have hnone : m.get k = none := FiniteMap.get_eq_none_iff.mpr hk
    simp [hk, hnone]

/-- The map of the report is the stored one with the mask for hidden entries. -/
theorem Kind.asObject_masked {kind : Kind} {r : Resource} {m : Object}
    (hfield : kind.hiddenMap = some field) (hid : field ≠ "id")
    (h : (kind.masked hidden r).get field = some (.ofObject m)) :
    m = maskEntries hidden (mapField r.rep field) := by
  unfold Kind.masked at h
  rw [hfield] at h
  dsimp only at h
  rw [r.get_report_of_ne hid] at h
  unfold mapField
  rcases hstored : (r.rep.get field).bind JSON.asObject with _ | stored <;> rw [hstored] at h
  · dsimp only at h
    rw [r.get_report_of_ne hid] at h
    simp [h] at hstored
  · dsimp only at h
    rw [FiniteMap.get_put_self, Option.some.injEq] at h
    exact (JSON.ofObject_injective h).symm

/-- A mapped entry once the resource is in place. -/
theorem Applied.entry {label : String} {payload m : Object} {before : Option Resource}
    {r : Resource} {entry value : String}
    (h : Applied (obj.spec.kind.masked hidden) label obj payload before r)
    (hfield : obj.spec.kind.hiddenMap = some field) (hid : field ≠ "id")
    (hpayload : payload.get field = some (.ofObject m)) (hentry : m.get entry = some (.str value)) :
    HoldsValue ((mapField r.rep field).get entry) value ∨ (before = some r ∧
      (mapField (obj.spec.kind.masked hidden r) field).get entry =
        some (.str keycloakMaskedValue)) := by
  have hstored : ∀ rep : Object, rep.get field = some (.ofObject m) →
      HoldsValue ((mapField rep field).get entry) value := by
    intro rep hrep
    simp [mapField_of_get hrep, HoldsValue, hentry]
  rcases h with ⟨id, -⟩ | ⟨r, -⟩ | ⟨r, -, hagrees⟩
  · left
    apply hstored
    rw [FiniteMap.get_erase_of_ne _ hid]
    exact hpayload
  · left
    apply hstored
    rw [r.get_overlay _ hid, get_mergePayload, hpayload]
    rfl
  · -- the map has an entry, so that it is not a reset value, and the report has a map too
    have hmap := payloadDiffers_eq_false_iff.mp hagrees field _ hpayload
    have hreset : ¬ isZeroValue (.ofObject m) = true := by
      rw [isZeroValue_iff]
      intro hmem
      rw [eq_empty_of_ofObject_reset hmem, FiniteMap.get_empty] at hentry
      cases hentry
    have hnull : JSON.ofObject m ≠ .null := fun h => by cases h
    rcases hgot : presentValue ((obj.spec.kind.masked hidden r).get field) with _ | got
    · exact absurd ((entryAgrees_absent hnull hgot).mp hmap) hreset
    have hequal := (entryAgrees_present hnull hgot).mp hmap
    obtain ⟨reported, rfl⟩ := asObject_of_managedValueEqual hequal
    have hreported := (presentValue_eq_some.mp hgot).1
    have hmasked := Kind.asObject_masked hfield hid hreported
    rw [managedValueEqual_ofObject, Bool.not_eq_true', payloadDiffers_eq_false_iff] at hequal
    rw [mapField_of_get hreported]
    rcases entryAgrees_str (hequal entry _ hentry) with hmask | hholds
    · exact .inr ⟨rfl, hmask⟩
    · rw [hmasked, get_maskEntries] at hholds ⊢
      split at hholds
      case isTrue hhidden =>
        rw [if_pos hhidden]
        rcases hentry' : (mapField r.rep field).get entry with _ | v
        · left
          rw [hentry'] at hholds
          exact hholds
        · exact .inr ⟨rfl, rfl⟩
      case isFalse => exact .inl hholds

/-! ### A pass -/

theorem Completes.entry {kc : Conn} {u v t : World} {entry key : String}
    (h : Completes (Masking hidden) (obj.spec.kind.masked hidden) kc obj w u v t)
    (hmap : obj.spec.secretMap = some (field, selector))
    (hkey : selector.keys.get entry = some key) :
    ∃ value, w.secretEntry obj.ns selector.name key = some value ∧
      (HoldsValue (t.storedEntry kc obj.spec field entry) value ∨
        (t.target kc obj.spec = w.target kc obj.spec ∧
          w.reportedEntry hidden kc obj.spec field entry = some (.str keycloakMaskedValue))) := by
  obtain ⟨hfield, hid⟩ := Spec.hiddenMap_of_secretMap hmap
  have hsame := h.target_eq fun hop hstep => masking_quiet hop hstep kc obj.spec
  obtain ⟨payload, r, hbuilds, htarget, happlied⟩ := h.placed.applied
  obtain ⟨m, hpayload, hreads⟩ := hbuilds.secretMap hmap
  obtain ⟨value, hvalue, hentry⟩ := hreads entry key hkey
  refine ⟨value, hvalue, ?_⟩
  rw [htarget] at hsame
  rcases happlied.entry hfield hid hpayload hentry with hholds | ⟨hbefore, hmask⟩
  · left
    simpa [World.storedEntry, hsame] using hholds
  · right
    refine ⟨hsame.trans hbefore.symm, ?_⟩
    simpa [World.reportedEntry, hbefore] using hmask

end Entries

/-! ### Every run -/

/-- If the pass succeeds and is over a resource with values from a Secret, the server has the
    value that the pass read for each entry, or it reported the mask for the entry and the pass
    has not touched the resource. -/
def FollowsSecret (hidden : String → Bool) (pass : PassEpisode World) : Prop :=
  ∀ done obj field selector, pass.result = some (.ok (some done)) → done.finalized = true →
    pass.before.object = some obj → obj.spec.secretMap = some (field, selector) →
    ∃ kc, pass.before.connections obj.ns obj.spec.connectionName = .ok kc ∧
      ∀ entry key, selector.keys.get entry = some key →
        ∃ value, pass.before.secretEntry obj.ns selector.name key = some value ∧
          (HoldsValue (pass.after.storedEntry kc obj.spec field entry) value ∨
            (pass.after.target kc obj.spec = pass.before.target kc obj.spec ∧
              pass.before.reportedEntry hidden kc obj.spec field entry =
                some (.str keycloakMaskedValue)))

/-- A realm with an entry of its mail settings from a Secret. -/
def postRealm (entry : String) : Spec :=
  .realm { keycloakRef := "main", realm := "demo"
           smtpServerSecretRef := some ⟨"smtp", .ofList [(entry, "value")]⟩
           fields := ⟨∅, Fields.typed_empty _⟩ }

def smtpSecret (value : String) : Secret :=
  { ns := "apps", name := "smtp", data := .ofList [("value", value)], controllers := [] }

/-- The realm does not exist yet. -/
def postWorld (entry : String) : World :=
  (World.around { demoObject with spec := postRealm entry } ∅).setSecret (smtpSecret "one")

def hidesPassword (entry : String) : Bool := decide (entry = "password")

def World.afterMasked (w : World) : World :=
  ((newEngine true 0).controllerReconcile.run.run (World.handleMasked hidesPassword) w).2

def World.maskedSteps (w : World) : List (Step operations World) :=
  (newEngine true 0).controllerReconcile.run.runSteps (World.handleMasked hidesPassword) w

def World.maskedResult (w : World) : Option (Except Err (Option Pass)) :=
  some ((newEngine true 0).controllerReconcile.run.run (World.handleMasked hidesPassword) w).1

theorem World.exec_masked (w : World) :
    Exec (Masking hidesPassword) (newEngine true 0).controllerReconcile.run w w.maskedSteps
      w.afterMasked w.maskedResult :=
  exec_handleMasked _ _

/-- The Secret changes after the realm was created. -/
def rotatedPost (entry : String) : World :=
  (postWorld entry).afterMasked.setSecret (smtpSecret "two")

end KeycloakOperator
