import KeycloakOperator.Remembered
import KeycloakOperator.Submissions
import KeycloakOperator.Unmanaged

/-!
# Exact lists in the representation

The scope lists of a client and the role lists of a group are enforced by `PostApply`, and an
unset list is documented to leave the assignments untouched.  But the lists travel in the
representation as well, where removal tracking treats them like any other field: a list that
the last-applied annotation has and the spec leaves unset is reset in the body of the pass.
-/

namespace KeycloakOperator

open Prog

/-- The name of the field in the representation. -/
def Separate.key : Separate → String
  | .defaultClientScopes => "defaultClientScopes"
  | .optionalClientScopes => "optionalClientScopes"
  | .realmRoles => "realmRoles"
  | .clientRoles => "clientRoles"
  | .composites => "composites"
  | .mappers => "mappers"

/-- What the operation submits omits the key, or has the server's own value for it. -/
def Op.Respects (s : Spec) (key : String) (op : Op) (w : World) : Prop :=
  ∀ kc body, op.submission? = some (kc, body) →
    body.get key = none ∨ body.get key = w.value kc s key

/-- The annotation has the key, and the pass submits its reset value to a server that has
    another one. -/
def World.Clears (w : World) (obj : ManagedObject) (key : String) : Prop :=
  ∃ kc payload zero, w.Engages kc obj ∧ w.Builds obj payload ∧
    (obj.lastApplied.entries.get key).bind zeroFor = some zero ∧
    w.value kc obj.spec key ≠ some zero ∧
    (w.Misses kc obj.spec ∨ ∃ r, w.Finds kc obj.spec r ∧ obj.spec.adoption ≠ .failIfExists ∧
      payloadDiffers r.report payload = true)

/-! ### The key in the body -/

theorem Fields.get_eq_none {table : FieldTable} (fields : Fields table) {k : String}
    (hk : k ∉ table.map Prod.fst) : fields.entries.get k = none := by
  rw [FiniteMap.get_eq_none_iff]
  intro hmem
  obtain ⟨field, hfield, haccepts⟩ := List.any_eq_true.mp (fields.typed ⟨k, hmem⟩)
  rw [Bool.and_eq_true, decide_eq_true_eq] at haccepts
  exact hk (List.mem_map.mpr ⟨field, hfield, haccepts.1⟩)

section Unset

variable {s : Spec} {field : Separate}

theorem Spec.Unset.get_representation (h : s.Unset field) :
    s.representation.get field.key = none := by
  rw [KeycloakOperator.get_representation]
  rcases s with s | s | s | s | s | s <;> rcases field <;> first | exact h.elim | skip
  case realmRole.composites | identityProvider.mappers => rfl
  case client.defaultClientScopes | client.optionalClientScopes =>
    obtain ⟨hdefault, hoptional⟩ : s.fields.entries.get "defaultClientScopes" = none ∧
        s.fields.entries.get "optionalClientScopes" = none :=
      ⟨s.fields.get_eq_none (by decide +kernel), s.fields.get_eq_none (by decide +kernel)⟩
    simp_all [Spec.driver, ClientSpec.driver, toJSONMap, headerEntries, get_putSome,
      FiniteMap.get_put, Separate.key, Spec.Unset]
  case group.realmRoles | group.clientRoles =>
    obtain ⟨hrealm, hclient⟩ : s.fields.entries.get "realmRoles" = none ∧
        s.fields.entries.get "clientRoles" = none :=
      ⟨s.fields.get_eq_none (by decide +kernel), s.fields.get_eq_none (by decide +kernel)⟩
    simp_all [Spec.driver, GroupSpec.driver, toJSONMap, headerEntries, get_putSome,
      FiniteMap.get_put, Separate.key, Spec.Unset]

theorem Spec.Unset.not_rewrites (h : s.Unset field) : ¬ s.Rewrites field.key := by
  rcases s with s | s | s | s | s | s <;> rcases field <;> first | exact h.elim | skip
  all_goals simp [Spec.Rewrites, Spec.injectedField, Separate.key, Spec.kind]

end Unset

section Body

variable {w : World} {kc : Conn} {obj : ManagedObject} {field : Separate} {payload : Object}

/-- The body has the key only because the annotation has it. -/
theorem ManagedObject.Builds.get_unset (h : obj.Builds payload) (hunset : obj.spec.Unset field) :
    payload.get field.key = (obj.lastApplied.entries.get field.key).bind zeroFor := by
  rw [h.get hunset.not_rewrites, hunset.get_representation]

theorem zeroFor_ne_null {v zero : JSON} (h : zeroFor v = some zero) : zero ≠ .null := by
  rcases v <;> cases h <;> simp [JSON.ofList, JSON.ofObject]

theorem get_mergePayload_zero {v : Option JSON} {zero : JSON} {k : String} (remote : Object)
    (hpayload : payload.get k = v.bind zeroFor) (hzero : v.bind zeroFor = some zero) :
    (mergePayload remote payload).get k = some zero := by
  obtain ⟨previous, -, hprevious⟩ := Option.bind_eq_some_iff.mp hzero
  exact get_mergePayload_of_some (hpayload.trans hzero) (zeroFor_ne_null hprevious)

/-- What has an annotation is managed. -/
theorem managed_of_entry {k : String} {zero : JSON} (remote : Object)
    (h : (obj.lastApplied.entries.get k).bind zeroFor = some zero) :
    Engine.managed obj.spec.driver obj remote = true := by
  have hrecorded : obj.lastApplied ≠ .empty := by
    intro hempty
    rw [hempty] at h
    simp [AnnotationText.entries] at h
  simp [Engine.managed, hrecorded]

theorem World.Finds.value {r : Resource} (h : w.Finds kc obj.spec r) (k : String) :
    w.value kc obj.spec k = r.report.get k := by
  unfold World.value
  rw [h.1]
  rfl

theorem Op.respects_iff {op : Op} {s : Spec} {k : String} {body : Object}
    (h : op.submission? = some (kc, body)) :
    op.Respects s k w ↔ body.get k = none ∨ body.get k = w.value kc s k := by
  constructor
  · exact fun hrespects => hrespects kc body h
  · intro hkept kc' body' h'
    cases h.symm.trans h'
    exact hkept

/-- A submission that does not respect the key is one that clears it. -/
theorem World.Submits.clears {op : Op} (hunset : obj.spec.Unset field)
    (hengages : w.Engages kc obj) (h : w.Submits kc obj op)
    (hop : ¬ op.Respects obj.spec field.key w) : w.Clears obj field.key := by
  rcases h with ⟨hbuilds, hmisses⟩ | ⟨hbuilds, hfinds, hadmits, hupdates⟩
  · rw [Op.respects_iff (submission?_creation _ _ _), not_or] at hop
    obtain ⟨hsome, hother⟩ := hop
    obtain ⟨zero, hzero⟩ := Option.ne_none_iff_exists'.mp hsome
    have hpayload := hbuilds.builds.get_unset hunset
    exact ⟨kc, _, zero, hengages, hbuilds, hpayload ▸ hzero, fun h => hother (hzero.trans h.symm),
      .inl hmisses⟩
  · rw [Op.respects_iff (submission?_revision _ _ _ _), hfinds.value, not_or] at hop
    obtain ⟨-, hother⟩ := hop
    have hpayload := hbuilds.builds.get_unset hunset
    rcases hreset : (obj.lastApplied.entries.get field.key).bind zeroFor with _ | zero
    · -- nothing is laid over the server's value
      rw [hreset] at hpayload
      exact absurd (get_mergePayload_of_none hpayload) hother
    · rw [get_mergePayload_zero _ hpayload hreset] at hother
      refine ⟨kc, _, zero, hengages, hbuilds, hreset, ?_, .inr ⟨_, hfinds, hadmits.1, ?_⟩⟩
      · rw [hfinds.value]
        exact Ne.symm hother
      · exact hupdates.resolve_left (by simp [managed_of_entry _ hreset])

/-- A pass that clears the key submits it. -/
theorem World.Clears.submits (hunset : obj.spec.Unset field) (h : w.Clears obj field.key) :
    ∃ kc op, w.Engages kc obj ∧ w.Submits kc obj op ∧ ¬ op.Respects obj.spec field.key w := by
  obtain ⟨kc, payload, zero, hengages, hbuilds, hreset, hother, hsubmits⟩ := h
  have hpayload := hbuilds.builds.get_unset hunset
  rcases hsubmits with hmisses | ⟨r, hfinds, hpolicy, hdiffers⟩
  · refine ⟨kc, _, hengages, .creation hbuilds hmisses, ?_⟩
    rw [Op.respects_iff (submission?_creation _ _ _), hpayload, hreset]
    simpa using Ne.symm hother
  · refine ⟨kc, _, hengages, .revision hbuilds hfinds ⟨hpolicy, .inl ?_⟩ (.inr hdiffers), ?_⟩
    · exact managed_of_entry _ hreset
    · rw [Op.respects_iff (submission?_revision _ _ _ _), get_mergePayload_zero _ hpayload hreset]
      simpa using Ne.symm hother

end Body

/-- **An unset list is left alone in the representation**, exactly when removal tracking has
    nothing to reset there. -/
theorem unset_list_omitted_iff (e : Engine) {w : World} {obj : ManagedObject} {field : Separate}
    (hobject : w.object = some obj) (hunset : obj.spec.Unset field) :
    (∀ steps t result, Exec Flaky e.controllerReconcile.run w steps t result →
      ∀ step ∈ steps, step.op.Respects obj.spec field.key step.before) ↔
      ¬ w.Clears obj field.key := by
  constructor
  · intro hrespects hclears
    obtain ⟨kc, op, hengages, hsubmits, hop⟩ := hclears.submits hunset
    have hexec := exec_handle e.controllerReconcile.run w
    obtain ⟨step, hstep, rfl, hbefore⟩ := Engine.exists_submission hengages hsubmits hexec
    exact hop (hbefore ▸ hrespects _ _ _ (hexec.mono flaky_of_reliable) step hstep)
  · intro hkept steps t result hexec step hstep
    rcases hsubmission : step.op.submission? with _ | submission
    · intro kc body h
      cases hsubmission.symm.trans h
    by_contra hop
    obtain ⟨hbefore, kc, hengages, hsubmits⟩ := Engine.exec_submits hobject hexec hstep hsubmission
    exact hkept (hsubmits.clears hunset hengages (hbefore ▸ hop))

/-- The client as the last pass has left it, with the scope `email`. -/
def emailPortal : Resource where
  id := "1"
  rep := .ofList [("clientId", .str "portal"), ("defaultClientScopes", jsonStrings ["email"]),
    ("attributes", .ofObject (.ofList [( managedAnnotationKey, .str managedValue)]))]

/-- A spec that describes the client and does not mention its scopes, which it did not mention either
    when it was applied last. -/
def describedClient : ManagedObject :=
  { clientObject "portal" with
    spec := clientWith "demo" describedFields
    lastApplied := .marshalled (plainClient "portal").representation }

def describedWorld : World :=
  .around describedClient (clientServer ⟨[emailPortal], by decide, by decide⟩)

/-- The client is updated, and the list that the server has for it stays in the body. -/
theorem unmentioned_scopes_kept :
    (∃ step ∈ describedWorld.passSteps, (step.op.submission?.bind fun submission =>
      submission.2.get "defaultClientScopes") = some (jsonStrings ["email"])) ∧
    ∀ steps t result, Exec Flaky (newEngine true 0).controllerReconcile.run
        describedWorld steps t result →
      ∀ step ∈ steps, step.op.Respects describedClient.spec "defaultClientScopes" step.before := by
  have hunset : describedClient.spec.Unset .defaultClientScopes := rfl
  refine ⟨by decide +kernel, (unset_list_omitted_iff (newEngine true 0) rfl hunset).mpr ?_⟩
  rintro ⟨kc, payload, zero, -, -, hreset, -⟩
  revert hreset
  decide +revert

/-! ### A list that is set and then unset -/

instance (s : Spec) (k : String) (op : Op) (w : World) : Decidable (op.Respects s k w) :=
  match h : op.submission? with
  | none => .isTrue fun _ _ h' => by cases h.symm.trans h'
  | some (_, _) => decidable_of_iff _ (Op.respects_iff h).symm

/-- The spec that was applied then. -/
def emailSpec : Spec :=
  .client { keycloakRef := "main", realm := "demo", clientId := "portal"
            defaultClientScopes := some ["email"], fields := ⟨∅, Fields.typed_empty _⟩ }

/-- Now the spec leaves the list unset. -/
def emailObject : ManagedObject :=
  { clientObject "portal" with lastApplied := .marshalled emailSpec.representation }

def emailWorld : World := .around emailObject (clientServer ⟨[emailPortal], by decide, by decide⟩)

/-- The update carries an empty list. -/
theorem unset_scopes_submitted_empty :
    emailWorld.object = some emailObject ∧ emailObject.spec.Unset .defaultClientScopes ∧
      Exec Flaky (newEngine true 0).controllerReconcile.run emailWorld emailWorld.passSteps
        emailWorld.afterPass emailWorld.passResult ∧
      ∃ step ∈ emailWorld.passSteps,
        ¬ step.op.Respects emailObject.spec Separate.defaultClientScopes.key step.before :=
  ⟨rfl, rfl, emailWorld.exec_pass.mono flaky_of_reliable, by decide⟩

end KeycloakOperator
