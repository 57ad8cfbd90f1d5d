import KeycloakOperator.Phases

/-!
# How a pass ends

Most of a pass leaves the status of the custom resource alone.  It ends in one of four
ways: with nothing reported, with both conditions set to False, in `finalize`, or, when
the lookup after a creation fails, with Ready set to False alone.  `Closing` collects what
has to be shown about these ends, from a log of the pass so far; `Closing.wp_reconcile`
then says it of every pass.
-/

namespace KeycloakOperator

open Prog

def Op.PatchesStatus : Op → Prop
  | .patchStatus _ _ => True
  | _ => False

/-! ### Programs that leave the status alone -/

section Only

variable {e : Engine} {kc : Conn} {obj : ManagedObject}

theorem Op.Reads.not_patchesStatus {op : Op} (h : op.Reads) : ¬ op.PatchesStatus := by
  rcases op <;> first | exact h.elim | exact fun h => h

theorem Op.WritesSecret.not_patchesStatus {op : Op} (h : op.WritesSecret) :
    ¬ op.PatchesStatus := by
  rcases op <;> first | exact h.elim | exact fun h => h

theorem only_record_event (type : EventType) (reason message : String) :
    Only (fun op : Op => ∃ type reason message, op = .event type reason message)
      (e.record type reason message) := by
  unfold Engine.record
  split
  · exact ⟨⟨_, _, _, rfl⟩, fun _ => trivial⟩
  · trivial

theorem only_record_status (type : EventType) (reason message : String) :
    Only (fun op : Op => ¬ op.PatchesStatus) (e.record type reason message) := by
  refine only_mono ?_ (only_record_event type reason message)
  rintro op ⟨_, _, _, rfl⟩ h
  exact h

theorem only_get_status (s : Spec) :
    Only (fun op : Op => ¬ op.PatchesStatus) (s.driver.get kc).run :=
  only_get (fun _ h => h.not_patchesStatus) s kc

theorem only_preparePayload_status (p : Object) :
    Only (fun op : Op => ¬ op.PatchesStatus) (obj.spec.driver.preparePayload obj p).run :=
  only_preparePayload (fun _ h => h.not_patchesStatus) obj.spec obj p

theorem only_postApply_status (remote : Object) :
    Only (fun op : Op => ¬ op.PatchesStatus) (obj.spec.driver.postApply kc obj remote) := by
  refine only_postApply (fun _ h => h.not_patchesStatus) (fun _ h => h.not_patchesStatus) ?_ obj
  rintro op ⟨_, _, _, rfl, -⟩ h
  exact h

theorem only_correctDrift_status (remote payload : Object) :
    Only (fun op : Op => ¬ op.PatchesStatus)
      (e.correctDrift obj.spec.driver kc obj remote payload).run := by
  unfold Engine.correctDrift
  rw [driver_update]
  apply only_run_bind
  · exact only_run_lift ⟨fun h => h, fun _ => trivial⟩
  intro _
  apply only_run_bind
  · exact ⟨fun h => h, fun _ => trivial⟩
  intro _
  exact only_run_lift (only_record_status _ _ _)

theorem only_updateObject_status (mem : ManagedObject) (requeueAfter : Nat) :
    Only (fun op : Op => ¬ op.PatchesStatus) (Engine.updateObject mem requeueAfter) := by
  refine ⟨fun h => h, fun answer => ?_⟩
  rcases answer with err | stored <;> trivial

theorem only_handleDeletion_status :
    Only (fun op : Op => ¬ op.PatchesStatus) (e.handleDeletion obj.spec.driver kc obj) := by
  have hwp : ∀ {α : Type} {p : Action α}, Only (fun op : Op => ¬ op.PatchesStatus) p →
      wp anyAnswer (fun op _ => ¬ op.PatchesStatus) p (fun _ _ => True) () := fun h =>
    wp_guard_mono (fun _ _ hop => hop.1)
      (wp_of_only (fun _ => True) (fun _ _ _ _ _ _ _ => trivial) h trivial)
  refine only_of_wp (Engine.wp_handleDeletion_of (fun _ => hwp (only_updateObject_status _ _))
    fun _ => wp_mono (fun _ _ _ => ⟨fun _ _ _ => trivial, fun _ => ?_⟩)
      (hwp (only_delete (fun _ h => h.not_patchesStatus) fun _ h => h)))
  exact wp_mono (fun _ _ _ => hwp (only_updateObject_status _ _)) (hwp (only_record_status _ _ _))

end Only

/-! ### The ends -/

/-- What has to be shown about the ends of a pass over `obj`, where `calm` holds until the
    status is written and `told` afterwards. -/
structure Closing (e : Engine) (env : Env operations World) (obj : ManagedObject)
    (guard : Op → World × Log → Prop) (calm told : World × Log → Prop) : Prop where
  /-- the part that leaves the status alone -/
  quiet : ∀ {α : Type} {p : Action α} {s : World × Log},
    Only (fun op : Op => ¬ op.PatchesStatus) p → calm s →
    wp env.logged guard p (fun _ t => calm t) s
  /-- events and metrics at the end -/
  tail : ∀ {α : Type} {p : Action α} {s : World × Log},
    Only (fun op : Op => ¬ op.PatchesStatus) p → told s →
    wp env.logged guard p (fun _ t => told t) s
  /-- nothing is reported -/
  silent : ∀ {s : World × Log}, calm s → told s
  /-- both conditions are set to False -/
  failed : ∀ {s : World × Log} {mem : ManagedObject} {reason : Reason} {ready synced : String},
    calm s → mem.status.conditions = obj.status.conditions →
    wp env.logged guard (Engine.setConditions mem obj .false reason ready synced)
      (fun _ t => told t) s
  finalized : ∀ {s : World × Log} {mem : ManagedObject} {specMap : Object} {synced : Bool},
    calm s → mem.status.conditions = obj.status.conditions → mem.generation = obj.generation →
    wp env.logged guard (e.finalize mem obj specMap synced) (fun _ t => told t) s
  /-- the lookup after an accepted creation failed -/
  unfetched : ∀ {u u' v t : World} {log events lookup : Log} {kc : Conn} {body : Object} {err : Err},
    calm (u, log) → obj.Builds body →
    (∀ step ∈ events, ∃ type reason message, step.op = .event type reason message) →
    Exec env (obj.spec.driver.get kc).run v lookup t (some (.error err)) →
    calm (t, log ++ ⟨u, .admin kc ⟨.post, obj.spec.collectionEndpoint, .object body, .nothing⟩,
      .ok (), u'⟩ :: (events ++ lookup)) →
    wp env.logged guard (Engine.setCondition obj obj .ready .false .retrying err.text)
      (fun _ t => told t) (t, log ++ ⟨u, .admin kc ⟨.post, obj.spec.collectionEndpoint, .object body,
        .nothing⟩, .ok (), u'⟩ :: (events ++ lookup))

namespace Closing

variable {e : Engine} {env : Env operations World} {obj : ManagedObject}
  {guard : Op → World × Log → Prop} {calm told : World × Log → Prop} {s : World × Log} {kc : Conn}

theorem wp_refuse (h : Closing e env obj guard calm told) (hs : calm s) {mem : ManagedObject}
    (hmem : mem.status.conditions = obj.status.conditions) (reason : Reason) (message : String)
    (requeueAfter : Nat) :
    wp env.logged guard (e.refuse mem obj reason message requeueAfter) (fun _ t => told t) s := by
  exact Engine.wp_refuse_of (wp_mono (fun _ _ ht => ⟨ht, h.tail (only_record_status _ _ _) ht⟩)
    (h.failed hs hmem))

theorem wp_retry (h : Closing e env obj guard calm told) (hs : calm s) (err : Err)
    (synced : String) :
    wp env.logged guard (Engine.retry obj obj err synced) (fun _ t => told t) s :=
  wp_bind.mpr (h.failed hs rfl)

theorem wp_settle (h : Closing e env obj guard calm told) (hs : calm s) {remote : Object}
    {next : ManagedObject → Bool → Action Pass} (hnext : e.Concludes obj next) :
    wp env.logged guard (e.settle obj.spec.driver kc obj obj remote next) (fun _ t => told t) s := by
  refine Engine.wp_settle_of (wp_mono ?_ (wp_yields (yields_postApply obj.spec kc obj remote)
    (h.quiet (only_postApply_status remote) hs)))
  rintro ⟨mem, applied⟩ t ⟨⟨name, hmem⟩, ht⟩
  have hconditions : mem.status.conditions = obj.status.conditions := by rw [show mem = _ from hmem]
  have hgeneration : mem.generation = obj.generation := by rw [show mem = _ from hmem]
  rcases applied with err | changed
  · exact h.wp_refuse ht hconditions _ _ _
  · refine hnext.wp (fun _ => h.finalized ht hconditions hgeneration) fun _ =>
      wp_mono (fun _ u hu => h.finalized hu hconditions hgeneration)
        (h.quiet (p := perform (.driftCorrected _)) ⟨fun h => h, fun _ => trivial⟩ ht)

theorem stations (h : Closing e env obj guard calm told) :
    Stations e env.logged guard kc obj calm calm (fun _ => calm) (fun _ _ => calm)
      (fun _ t => told t) := by
  have hfailed : ∀ {t : World × Log} (err : Err), calm t →
      wp env.logged guard (e.notCreated obj err) (fun _ t => told t) t ∧
        wp env.logged guard (e.notUpdated obj err) (fun _ t => told t) t := by
    intro t err ht
    unfold Engine.notCreated Engine.notUpdated
    split
    · exact ⟨h.wp_refuse ht rfl _ _ _, h.wp_refuse ht rfl _ _ _⟩
    · exact ⟨h.wp_retry ht _ _, h.wp_retry ht _ _⟩
  constructor
  case declined => exact fun _ ht => h.wp_refuse ht rfl _ _ _
  case looked =>
    refine fun _ ht => wp_mono ?_ (h.quiet (only_get_status obj.spec) ht)
    rintro (err | remote) u hu
    · exact ⟨fun _ => hu, fun _ => h.wp_retry hu _ _⟩
    · exact hu
  case rejected => exact fun _ _ ht => h.wp_refuse ht rfl _ _ _
  case adopted => exact fun ht => h.quiet (only_record_status _ _ _) ht
  case enforced =>
    refine fun _ _ _ _ ht => wp_mono ?_ (h.quiet (only_preparePayload_status _) ht)
    rintro (err | payload) u hu
    · exact h.wp_refuse hu rfl _ _ _
    refine ⟨fun _ => hu, fun _ => wp_mono ?_ (h.quiet (only_correctDrift_status _ _) hu)⟩
    rintro (err | _) v hv
    · exact (hfailed err hv).2
    · exact hv
  case created =>
    intro effective t _ heffective ht
    refine wp_mono ?_ (wp_yields (yields_preparePayload heffective)
      (h.quiet (only_preparePayload_status effective) ht))
    rintro (err | payload) ⟨u, log⟩ ⟨hbuilds, hu⟩
    · exact h.wp_refuse hu rfl _ _ _
    specialize hbuilds payload rfl
    dsimp only
    rw [driver_create]
    refine wp_mono ?_ (wp_trace (h.quiet
      (p := (kc.submit .post obj.spec.collectionEndpoint _).run) ⟨fun h => h, fun _ => trivial⟩ hu))
    rintro (err | _) ⟨u', log₁⟩ ⟨hu', steps, hlog₁, hcreated⟩
    · exact (hfailed err hu').1
    refine wp_mono ?_ (wp_trace (h.quiet (only_record_status _ _ _) hu'))
    rintro _ ⟨v, log₂⟩ ⟨hv, events, hlog₂, hevents⟩
    refine wp_mono ?_ (wp_trace (h.quiet (only_get_status obj.spec) hv))
    rintro (err | remote) ⟨x, log₃⟩ ⟨hx, lookup, hlog₃, hlookup⟩
    · -- the log so far: what came before, the creation, the event, the lookup
      obtain ⟨after, hsteps⟩ : ∃ after, steps = [⟨u, .admin kc ⟨.post, obj.spec.collectionEndpoint,
          .object (obj.spec.driver.managedMarker payload), .nothing⟩, .ok (), after⟩] := by
        rcases hcreated.call_inv with ⟨-, -, h⟩ | ⟨answer, after, rest, -, rfl, hrest⟩
        · cases h
        · cases hrest
          exact ⟨_, rfl⟩
      dsimp only at hlog₁ hlog₂ hlog₃
      subst hlog₃ hlog₂ hlog₁ hsteps
      simp only [List.append_assoc, List.singleton_append] at hx ⊢
      exact wp_bind.mpr (h.unfetched hu hbuilds
        (hevents.only (only_record_event _ _ _)) hlookup hx)
    · exact hx
  case settled => exact fun hnext ht => h.wp_settle ht hnext

/-- **Every pass ends in one of the four ways.** -/
theorem wp_reconcile (h : Closing e env obj guard calm told) (hs : calm s) :
    wp env.logged guard (e.reconcile obj) (fun _ t => told t) s := by
  have hend : ∀ {p : Action Pass} {t : World × Log},
      Only (fun op : Op => ¬ op.PatchesStatus) p → calm t →
      wp env.logged guard p (fun _ t => told t) t :=
    fun honly ht => wp_mono (fun _ _ => h.silent) (h.quiet honly ht)
  refine Engine.wp_reconcile_of (fun _ t => told t)
    (fun _ _ ht => h.tail (p := perform (.reconciled _ _)) ⟨fun h => h, fun _ => trivial⟩ ht)
    (fun _ => hend (only_updateObject_status _ _) hs) fun _ => wp_mono ?_
      (h.quiet (p := perform (.connect obj.ns obj.spec.connectionName))
        ⟨fun h => h, fun _ => trivial⟩ hs)
  rintro (message | kc) t ht
  · exact wp_bind.mpr (h.failed ht rfl)
  · exact ⟨fun _ => hend only_handleDeletion_status ht, fun _ _ =>
      hend (only_updateObject_status _ _) ht, fun _ _ => h.stations.wp_apply ht⟩

end Closing

end KeycloakOperator
