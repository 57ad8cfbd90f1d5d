import KeycloakOperator.Completion
import KeycloakOperator.StatusPersistence

/-!
# What a successful pass leaves to the next one

A successful pass records the spec in the annotation.  The next pass over the same spec has
nothing to reset, and what it compares with the server was part of the body of the pass before.
-/

namespace KeycloakOperator

open Prog

/-! ### The recorded spec -/

/-- An annotation that records the spec leaves nothing to reset. -/
theorem effectivePayload_recorded (specMap : Object) :
    effectivePayload specMap (.marshalled specMap) = .ok specMap := by
  have hreset : resetRemoved specMap specMap = specMap := by
    apply FiniteMap.ext_get
    intro k
    rw [get_resetRemoved]
    rcases specMap.get k <;> rfl
  change Except.ok (resetRemoved specMap specMap) = _
  rw [hreset]

theorem mapField_of_none {p : Object} {k : String} (h : p.get k = none) : mapField p k = ∅ := by
  rw [mapField, h]
  rfl

section Built

variable {s : Spec} {inj : Injection} {effective : Object} {text : AnnotationText} {k : String}
  {want : JSON}

/-- A map that the spec does not have is empty in the payload as well. -/
theorem mapField_effectivePayload
    (heffective : effectivePayload s.representation text = .ok effective) (k : String) :
    mapField effective k = mapField s.representation k := by
  have hget := get_effectivePayload heffective k
  rcases hspec : s.representation.get k with _ | v <;> rw [hspec] at hget
  · rw [mapField_of_none hspec]
    rcases hlast : (text.entries.get k).bind zeroFor with _ | z <;> rw [hlast] at hget
    · exact mapField_of_none hget
    · obtain ⟨v, -, hz⟩ := Option.bind_eq_some_iff.mp hlast
      exact mapField_of_reset (zeroFor_mem hz) hget
  · exact mapField_congr (hget.trans hspec.symm)

/-- The entries that the next pass compares. -/
theorem get_builtPayload_recorded
    (heffective : effectivePayload s.representation text = .ok effective)
    (h : (builtPayload s.kind inj s.representation).get k = some want) :
    (builtPayload s.kind inj effective).get k = some want := by
  by_cases hk : k ∈ (rewrites s.kind inj).map Rewrite.field
  · rw [← h]
    exact get_applyAll_congr_map hk (mapField_effectivePayload heffective k)
  · rw [builtPayload, get_applyAll_of_notMem hk] at h ⊢
    rw [get_effectivePayload heffective, h]

theorem rewrites_proper {r : Rewrite} (hr : r ∈ rewrites s.kind inj) (m : Object) :
    r.value m ≠ .null ∧ r.field ≠ "id" := by
  rcases List.mem_append.mp hr with hmarker | hinjected
  · rcases hkind : s.kind <;> rw [hkind] at hmarker <;>
      simp only [Kind.marker, Option.toList_some, Option.toList_none, List.mem_singleton,
        List.not_mem_nil] at hmarker <;>
      rw [hmarker] <;> exact ⟨fun h => (by cases h), by simp⟩
  · rcases inj <;>
      simp only [Injection.rewrite, Option.toList_some, Option.toList_none, List.mem_singleton,
        List.not_mem_nil] at hinjected <;>
      rw [hinjected] <;> exact ⟨fun h => (by cases h), by simp⟩

/-- No entry of the body is a null or the id. -/
theorem builtPayload_proper (h : (builtPayload s.kind inj s.representation).get k = some want) :
    want ≠ .null ∧ k ≠ "id" := by
  by_cases hk : k ∈ (rewrites s.kind inj).map Rewrite.field
  · obtain ⟨r, hr, rfl⟩ := List.mem_map.mp hk
    rw [builtPayload, get_applyAll_of_nodup (nodup_rewrites s.kind inj) hr] at h
    cases h
    exact rewrites_proper hr _
  · rw [builtPayload, get_applyAll_of_notMem hk] at h
    have hshape := s.typed_representation k want h
    constructor
    · rintro rfl
      exact Kind.shapes_not_null hshape
    · rintro rfl
      exact Kind.shapes_ne_id hshape

end Built

/-! ### The resource after a pass -/

/-- What the pass has put in place agrees with its body, where the server has shown the entry as
    it is stored. -/
theorem Applied.agrees {shows : Resource → Object} {label : String} {obj : ManagedObject}
    {payload : Object} {before : Option Resource} {r : Resource} {k : String} {want : JSON}
    (h : Applied shows label obj payload before r) (hwant : payload.get k = some want)
    (hproper : want ≠ .null ∧ k ≠ "id")
    (hshows : ∀ r, before = some r → (shows r).get k = r.report.get k) :
    EntryAgrees want (r.report.get k) := by
  obtain ⟨hnull, hk⟩ := hproper
  cases h with
  | created id _ =>
    rw [Resource.get_report_of_ne _ hk, FiniteMap.get_erase_of_ne _ hk, hwant]
    exact entryAgrees_refl want
  | updated r _ =>
    rw [Resource.get_report_of_ne _ hk, r.get_overlay _ hk, get_mergePayload_of_some hwant hnull]
    exact entryAgrees_refl want
  | agreed r _ hagrees =>
    rw [← hshows r rfl]
    exact payloadDiffers_eq_false_iff.mp hagrees k want hwant

/-! ### The custom resource after a pass -/

/-- The custom resource is `obj` with the spec recorded, and with some status. -/
def World.Records (w : World) (obj : ManagedObject) : Prop :=
  ∃ status, w.object = some { obj with
    status := status, lastApplied := .marshalled obj.spec.representation }

section Records

variable {e : Engine} {env : Env operations World} {obj mem : ManagedObject} {w w' : World}

theorem Op.Reports.records {op : Op} {answer : op.Answer} (hop : op.Reports)
    (h : Reliable op w answer w') (hw : w.Records obj) : w'.Records obj := by
  obtain ⟨status, hobject⟩ := hw
  rcases op with _ | _ | _ | _ | _ | _ | _ | ⟨base, new⟩ | _ | _ | _ | _ | _ | _
  case patchStatus =>
    obtain ⟨_, _, heq⟩ := h
    simp only [World.handle, World.patchStatus, hobject] at heq
    obtain ⟨-, rfl⟩ := Prod.mk.inj heq
    exact ⟨_, rfl⟩
  case now | connect | event | driftCorrected | reconciled =>
    exact ⟨status, (reliable_object (by exact fun h => h) h).trans hobject⟩
  all_goals exact hop.elim

/-- `finalize` records the spec of the stored object. -/
theorem wp_finalize_records (hreliable : ∀ {op : Op} {t t' : World} {answer : op.Answer},
      op.Bookkeeping → env op t answer t' → Reliable op t answer t')
    (hw : w.object = some obj) {synced : Bool} :
    wp env ⊤ (e.finalize obj.exported obj obj.spec.representation synced)
      (fun _ t => t.Records obj) w := by
  have hsucceed : ∀ (mem : ManagedObject) (t : World), t.Records obj →
      wp env ⊤ (e.succeed mem obj synced) (fun _ t => t.Records obj) t := by
    intro mem t ht
    have hkeeps : ∀ (op : Op) (t : World) (answer : op.Answer) (t' : World), op.Reports →
        t.Records obj → env op t answer t' → t'.Records obj := fun op t answer t' hop ht hstep =>
      hop.records (hreliable hop.bookkeeping hstep) ht
    exact wp_guard_mono (fun _ _ _ => trivial)
      (wp_of_only _ hkeeps (e.only_succeed (fun _ hop => hop.reports) _ _ _) ht)
  refine Engine.wp_finalize_of (fun hrecorded => hsucceed _ w ⟨obj.status, ?_⟩) fun _ =>
    ⟨trivial, fun answer t hstep => ?_⟩
  · have hrecorded : obj.lastApplied = .marshalled obj.spec.representation := hrecorded
    rw [hw, ← hrecorded]
  · obtain ⟨_, _, heq⟩ := hreliable (by trivial) hstep
    simp only [World.handle, World.patchObject, hw, ManagedObject.exported] at heq
    obtain ⟨rfl, rfl⟩ := Prod.mk.inj heq
    apply hsucceed
    refine ⟨obj.status, ?_⟩
    simp [World.patched]

/-- **A successful pass records the spec.** -/
theorem wp_reconcile_records (hreliable : ∀ {op : Op} {t t' : World} {answer : op.Answer},
      op.Bookkeeping → env op t answer t' → Reliable op t answer t')
    (hkeeps : ∀ {op : Op} {t t' : World} {answer : op.Answer}, ¬ op.WritesObject →
      env op t answer t' → t'.object = t.object)
    (hw : w.object = some obj) :
    Successfully env (e.reconcile obj) (fun t => t.Records obj) w := by
  have hsucceeding : Succeeding e env obj (fun t => t.object = some obj) fun t => t.Records obj := by
    constructor
    · intro op t t' answer hop ht hstep
      rw [hkeeps hop hstep, ht]
    · intro t synced ht
      exact wp_mono (fun _ _ hpost _ => hpost) (wp_finalize_records hreliable ht)
    · intro t t' kind outcome ht hstep
      exact Op.Reports.records (by trivial) (hreliable (by trivial) hstep) ht
  exact hsucceeding.wp_reconcile hw

/-- What a successful pass leaves, from its first step on. -/
theorem Engine.exec_successfully {post : World → Prop} {steps : Log}
    {pass : Pass} (hw : w.object = some obj)
    (hget : ∀ {answer t}, env .getObject w answer t → Reliable .getObject w answer t)
    (hwp : Successfully env (e.reconcile obj) post w)
    (hexec : Exec env e.controllerReconcile.run w steps w' (some (.ok (some pass))))
    (hfinalized : pass.finalized = true) : post w' := by
  rcases e.exec_pass hexec with ⟨-, hresult⟩ | ⟨obj', u, rest, reached, hstep, -, hrest, hreached⟩
  · exact absurd rfl (hresult pass)
  obtain ⟨_, _, heq⟩ := hget hstep
  simp only [World.handle, hw] at heq
  cases heq
  exact (wp_sound hwp hrest).2 pass (hreached pass rfl) hfinalized

end Records

/-! ### The next pass -/

section Next

variable {e : Engine} {kc : Conn} {obj : ManagedObject}

/-- Only a live object that has the finalizer and is not protected comes to `finalize`. -/
theorem wp_reconcile_admitted {env : Env operations World} {w : World} :
    Successfully env (e.reconcile obj) (fun _ => obj.deletionTimestamp = none ∧
      finalizerName ∈ obj.finalizers ∧ obj.spec.driver.protected? obj = none) w := by
  refine Engine.wp_reconcile_of _ (fun _ _ hpost => ⟨trivial, fun _ _ _ => hpost⟩)
    (fun _ => wp_unfinalized (Engine.unfinished_updateObject _ _) w) fun _ =>
      ⟨trivial, fun answer t _ => ?_⟩
  rcases answer with message | kc
  · exact wp_unfinalized (Engine.Stops.unavailable (e := e) message).unfinished t
  refine ⟨fun _ => wp_unfinalized (e.unfinished_handleDeletion kc obj) t, fun _ _ =>
    wp_unfinalized (Engine.unfinished_updateObject _ _) t, fun hlive hfinalizer => ?_⟩
  rcases hprotected : obj.spec.driver.protected? obj with _ | message
  · exact wp_mono (fun _ _ _ _ => ⟨hlive, hfinalizer, rfl⟩) (wp_true _ _)
  · rw [Engine.apply_protected hprotected]
    exact wp_unfinalized (Engine.Stops.refused _ _ _ _).unfinished t

end Next

end KeycloakOperator
