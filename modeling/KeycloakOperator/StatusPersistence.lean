import KeycloakOperator.Conditions
import KeycloakOperator.Removal

/-!
# What a successful pass leaves in the status

`PostApply` and `finalize` set the name of the output Secret and the observed generation in
memory.  If the annotation has to be patched, the answer to that patch brings the stored values
back before the status is written.  `status_persisted_iff` says when the new values arrive all
the same: the annotation is up to date, or what is stored is up to date itself.
-/

namespace KeycloakOperator

open Prog

/-! ### Successful passes -/

/-- The name of the Secret that a client exports its secret to. -/
def Spec.outputName : Spec → Option String
  | .client s => s.secretOutput.map fun output => output.name
  | _ => none

/-- The object in memory after `PostApply`. -/
def ManagedObject.exported (obj : ManagedObject) : ManagedObject :=
  { obj with status := { obj.status with
      secretName := obj.spec.outputName.getD obj.status.secretName } }

theorem yields_postApply_exported (kc : Conn) (obj : ManagedObject) (remote : Object) :
    Yields (fun result => ∀ changed, result.2 = .ok changed → result.1 = obj.exported)
      (obj.spec.driver.postApply kc obj remote) := by
  have hkeep : obj.spec.outputName = none → ∀ call : Call Bool,
      Yields (fun result => ∀ changed, result.2 = .ok changed → result.1 = obj.exported)
        (keepObject obj call) := by
    intro hname call
    refine yields_bind fun _ => ?_
    intro changed _
    simp [ManagedObject.exported, hname]
  rcases hs : obj.spec with s | s | s | s | s | s
  case client =>
    change Yields _ (s.postApply kc obj remote)
    unfold ClientSpec.postApply
    split
    · exact fun changed hok => by cases hok
    · refine yields_bind fun exported => ?_
      rcases exported with err | exported
      · exact fun changed hok => by cases hok
      · refine yields_bind fun _ => ?_
        intro changed _
        have hname : obj.spec.outputName = s.secretOutput.map fun output => output.name := by
          rw [hs]
          rfl
        rcases houtput : s.secretOutput with _ | output
        · simp only [ManagedObject.exported, hname, houtput]
          rfl
        · simp only [ManagedObject.exported, hname, houtput]
          rfl
  all_goals exact hkeep (by rw [hs]; rfl) _

section Successful

variable {e : Engine} {env : Env operations World} {obj : ManagedObject} {w : World}

/-- Unless the pass succeeds there is nothing to show. -/
abbrev Successfully (env : Env operations World) (p : Action Pass) (post : World → Prop)
    (w : World) : Prop :=
  wp env (fun _ _ => True) p (fun pass t => pass.finalized = true → post t) w

theorem wp_unfinalized {p : Action Pass} {post : World → Prop}
    (h : Yields (fun pass => pass.finalized = false) p) (t : World) : Successfully env p post t := by
  refine wp_mono (fun pass u hpass hfinalized => ?_) (wp_of_yields h t)
  cases hpass.symm.trans hfinalized

theorem only_record_object (type : EventType) (reason message : String) :
    Only (fun op : Op => ¬ op.WritesObject) (e.record type reason message) := by
  refine only_mono ?_ (only_record_event type reason message)
  rintro op ⟨_, _, _, rfl⟩ h
  exact h

/-- What has to be shown about a pass over `obj` that succeeds: it keeps `calm` up to `finalize`. -/
structure Succeeding (e : Engine) (env : Env operations World) (obj : ManagedObject)
    (calm post : World → Prop) : Prop where
  quiet : ∀ {op : Op} {t t' : World} {answer : op.Answer}, ¬ op.WritesObject → calm t →
    env op t answer t' → calm t'
  finalized : ∀ {t : World} {synced : Bool}, calm t →
    Successfully env (e.finalize obj.exported obj obj.spec.representation synced) post t
  counted : ∀ {t t' : World} {kind : Kind} {outcome : Outcome}, post t →
    env (.reconciled kind outcome) t () t' → post t'

namespace Succeeding

variable {calm post : World → Prop} {kc : Conn}

theorem wp_calm (h : Succeeding e env obj calm post) {p : Action α}
    (honly : Only (fun op : Op => ¬ op.WritesObject) p) (hw : calm w) :
    wp env ⊤ p (fun _ => calm) w :=
  wp_guard_mono (fun _ _ _ => trivial)
    (wp_of_only calm (fun _ _ _ _ hop ht hstep => h.quiet hop ht hstep) honly hw)

theorem wp_settle (h : Succeeding e env obj calm post) {remote : Object}
    {next : ManagedObject → Bool → Action Pass} (hnext : e.Concludes obj next) (hw : calm w) :
    Successfully env (e.settle obj.spec.driver kc obj obj remote next) post w := by
  refine Engine.wp_settle_of (wp_mono ?_ (wp_yields (yields_postApply_exported kc obj remote)
    (h.wp_calm (only_postApply_object obj remote) hw)))
  rintro ⟨mem, err | changed⟩ t ⟨hexported, ht⟩
  · exact wp_unfinalized (Engine.Stops.refused _ _ _ _).unfinished t
  · obtain rfl : mem = obj.exported := hexported changed rfl
    exact hnext.wp (fun _ => h.finalized ht) fun _ => ⟨trivial, fun _ u hstep =>
      h.finalized (h.quiet (by exact fun h => h) ht hstep)⟩

theorem wp_correctDrift (h : Succeeding e env obj calm post) (remote payload : Object)
    (hw : calm w) :
    wp env ⊤ (e.correctDrift obj.spec.driver kc obj remote payload).run
      (fun _ => calm) w := by
  refine h.wp_calm ?_ hw
  unfold Engine.correctDrift
  rw [driver_update]
  apply only_run_bind
  · exact only_run_lift ⟨fun h => h, fun _ => trivial⟩
  intro _
  apply only_run_bind
  · exact ⟨fun h => h, fun _ => trivial⟩
  intro _
  exact only_run_lift (only_record_object _ _ _)

theorem stations (h : Succeeding e env obj calm post) :
    Stations e env (fun _ _ => True) kc obj calm calm (fun _ => calm) (fun _ _ => calm)
      (fun pass t => pass.finalized = true → post t) := by
  have hstops : ∀ {p : Action Pass} (t : World), e.Stops obj p → Successfully env p post t :=
    fun t hstops => wp_unfinalized hstops.unfinished t
  constructor
  case declined => exact fun _ _ => hstops _ (.refused _ _ _ _)
  case looked =>
    refine fun _ ht => wp_mono ?_
      (h.wp_calm (only_get (fun _ h => h.not_writesObject) obj.spec kc) ht)
    rintro (err | remote) u hu
    · exact ⟨fun _ => hu, fun _ => hstops _ (.retried _ _)⟩
    · exact hu
  case rejected => exact fun _ _ _ => hstops _ (.refused _ _ _ _)
  case adopted => exact fun ht => h.wp_calm (only_record_object _ _ _) ht
  case enforced =>
    refine fun _ _ _ _ ht => wp_mono ?_
      (h.wp_calm (only_preparePayload (fun _ h => h.not_writesObject) obj.spec obj _) ht)
    rintro (err | payload) u hu
    · exact hstops _ (.refused _ _ _ _)
    refine ⟨fun _ => hu, fun _ => wp_mono ?_ (h.wp_correctDrift _ _ hu)⟩
    rintro (err | _) v hv
    · exact hstops _ (.notUpdated e obj err)
    · exact hv
  case created =>
    refine fun _ _ ht => wp_mono ?_
      (h.wp_calm (only_preparePayload (fun _ h => h.not_writesObject) obj.spec obj _) ht)
    rintro (err | payload) u hu
    · exact hstops _ (.refused _ _ _ _)
    dsimp only
    rw [driver_create]
    refine wp_mono ?_ (h.wp_calm (only_send fun h => h) hu)
    rintro (err | _) v hv
    · exact hstops _ (.notCreated e obj err)
    refine wp_mono (fun _ x hx => wp_mono ?_
      (h.wp_calm (only_get (fun _ h => h.not_writesObject) obj.spec kc) hx))
      (h.wp_calm (only_record_object _ _ _) hv)
    rintro (err | remote) y hy
    · exact hstops _ (.unfetched err)
    · exact hy
  case settled => exact fun hnext ht => h.wp_settle hnext ht

/-- **A pass that succeeds** comes to `finalize` with what `PostApply` left in memory. -/
theorem wp_reconcile (h : Succeeding e env obj calm post) (hw : calm w) :
    Successfully env (e.reconcile obj) post w := by
  refine Engine.wp_reconcile_of (fun pass t => pass.finalized = true → post t)
    (fun _ _ hpost => ⟨trivial, fun _ _ hstep hfinalized => h.counted (hpost hfinalized) hstep⟩)
    (fun _ => wp_unfinalized (Engine.unfinished_updateObject _ _) w) fun _ =>
      ⟨trivial, fun answer t hstep => ?_⟩
  have ht : calm t := h.quiet (by exact fun h => h) hw hstep
  rcases answer with message | kc
  · exact wp_unfinalized (Engine.Stops.unavailable (e := e) message).unfinished t
  · exact ⟨fun _ => wp_unfinalized (e.unfinished_handleDeletion kc obj) t, fun _ _ =>
      wp_unfinalized (Engine.unfinished_updateObject _ _) t, fun _ _ => h.stations.wp_apply ht⟩

end Succeeding

end Successful

/-! ### Patches of the status -/

section Patches

variable {w : World} {obj base : ManagedObject} {guard : Op → World → Prop} {status : ConditionStatus}
  {reason : Reason} {ready synced : String}

/-- A field that is as it was at the beginning of the pass, or as it is in memory. -/
theorem World.patched_eq [DecidableEq α] {base new stored : α} (h : stored = base ∨ stored = new) :
    World.patched base new stored = new := by
  unfold World.patched
  split
  case isTrue heq =>
    rcases h with rfl | rfl
    · exact heq
    · rfl
  case isFalse => rfl

/-- The object with a condition set in a status. -/
def ManagedObject.withCondition (obj : ManagedObject) (status : ResourceStatus) (c : Condition) :
    ManagedObject :=
  { obj with status := { status with conditions := setStatusCondition c status.conditions } }

/-- A patch of the status stores what is in memory. -/
theorem World.patchStatus_withCondition {old new : ResourceStatus} {c : Condition}
    (hobject : w.object = some { obj with status := old })
    (hconditions : base.status.conditions = setStatusCondition c new.conditions →
      old.conditions = setStatusCondition c new.conditions)
    (hobserved : old.observedGeneration = base.status.observedGeneration ∨
      old.observedGeneration = new.observedGeneration)
    (hname : old.secretName = base.status.secretName ∨ old.secretName = new.secretName) :
    w.patchStatus base (obj.withCondition new c) =
      (.ok (obj.withCondition new c), { w with object := some (obj.withCondition new c) }) := by
  have hpatched : World.patched base.status.conditions (setStatusCondition c new.conditions)
      old.conditions = setStatusCondition c new.conditions := by
    unfold World.patched
    split
    case isTrue heq => exact hconditions heq
    case isFalse => rfl
  simp only [World.patchStatus, hobject, ManagedObject.withCondition, hpatched,
    World.patched_eq hobserved, World.patched_eq hname]

theorem wp_setCondition_stores {old new : ResourceStatus} {type : ConditionType} {message : String}
    {post : ManagedObject → World → Prop} (hreports : ∀ op t, op.Reports → ¬ op.Warns → guard op t)
    (hobject : w.object = some { obj with status := old })
    (hconditions : ∀ now,
      let c := ⟨type, status, obj.generation, reason, message, now⟩
      base.status.conditions = setStatusCondition c new.conditions →
        old.conditions = setStatusCondition c new.conditions)
    (hobserved : old.observedGeneration = base.status.observedGeneration ∨
      old.observedGeneration = new.observedGeneration)
    (hname : old.secretName = base.status.secretName ∨ old.secretName = new.secretName)
    (hpost : ∀ now,
      let mem := obj.withCondition new ⟨type, status, obj.generation, reason, message, now⟩
      post mem { w with object := some mem }) :
    wp Reliable guard
      (Engine.setCondition { obj with status := new } base type status reason message) post w := by
  refine ⟨hreports _ _ trivial (fun h => h), fun now t hnow =>
    ⟨hreports _ _ trivial (fun h => h), fun answer u hpatch => ?_⟩⟩
  obtain ⟨_, _, hnow⟩ := hnow
  obtain rfl : w = t := congrArg Prod.snd hnow
  obtain ⟨_, _, hpatch⟩ := hpatch
  have hpatch : w.patchStatus base
      (obj.withCondition new ⟨type, status, obj.generation, reason, message, now⟩) = (answer, u) := hpatch
  rw [World.patchStatus_withCondition hobject (hconditions now) hobserved hname] at hpatch
  obtain ⟨rfl, rfl⟩ := Prod.mk.inj hpatch
  exact hpost now

/-- The conditions after Ready and Synced are set, in this order and at these times. -/
def ManagedObject.told (obj : ManagedObject) (status : ConditionStatus) (reason : Reason)
    (ready synced : String) (now now' : Nat) (conditions : List Condition) : List Condition :=
  setStatusCondition ⟨.synced, status, obj.generation, reason, synced, now'⟩
    (setStatusCondition ⟨.ready, status, obj.generation, reason, ready, now⟩ conditions)

theorem ManagedObject.find_ready_told (obj : ManagedObject) (now now' : Nat)
    (conditions : List Condition) : ∃ time,
    findStatusCondition (obj.told status reason ready synced now now' conditions) .ready =
      some ⟨.ready, status, obj.generation, reason, ready, time⟩ := by
  obtain ⟨time, hfound⟩ := findStatusCondition_set
    ⟨.ready, status, obj.generation, reason, ready, now⟩ conditions
  have hne : ConditionType.ready ≠ .synced := by decide
  exact ⟨time, (findStatusCondition_set_of_ne hne _).trans hfound⟩

/-- The Ready condition is in its place. -/
theorem ManagedObject.set_ready_told (obj : ManagedObject) (now now' later : Nat)
    (conditions : List Condition) :
    setStatusCondition ⟨.ready, status, obj.generation, reason, ready, later⟩
        (obj.told status reason ready synced now now' conditions) =
      obj.told status reason ready synced now now' conditions := by
  obtain ⟨time, hfound⟩ := @ManagedObject.find_ready_told status reason ready synced obj now now'
    conditions
  exact setStatusCondition_self hfound

/-- Telling the same twice changes nothing. -/
theorem ManagedObject.told_told (obj : ManagedObject) (now now' later later' : Nat)
    (conditions : List Condition) :
    obj.told status reason ready synced later later'
        (obj.told status reason ready synced now now' conditions) =
      obj.told status reason ready synced now now' conditions := by
  conv_lhs => rw [ManagedObject.told, obj.set_ready_told]
  obtain ⟨time, hfound⟩ := findStatusCondition_set
    ⟨.synced, status, obj.generation, reason, synced, now'⟩
    (setStatusCondition ⟨.ready, status, obj.generation, reason, ready, now⟩ conditions)
  exact setStatusCondition_self hfound

/-- Both conditions are stored. -/
theorem wp_setConditions_stores {new : ResourceStatus} {post : ManagedObject → World → Prop}
    (hreports : ∀ op t, op.Reports → ¬ op.Warns → guard op t)
    (hobject : w.object = some { obj with status := base.status })
    (hconditions : new.conditions = base.status.conditions)
    (hpost : ∀ now now',
      let mem : ManagedObject := { obj with status := { new with
        conditions := obj.told status reason ready synced now now' new.conditions } }
      post mem { w with object := some mem }) :
    wp Reliable guard (Engine.setConditions { obj with status := new } base status reason ready synced)
      post w := by
  refine wp_bind.mpr (wp_setCondition_stores hreports hobject (fun now h => h) (.inl rfl)
    (.inl rfl) fun now => ?_)
  refine wp_setCondition_stores hreports rfl (fun now' hsame => ?_) (.inr rfl) (.inr rfl) ?_
  · -- both conditions are there already
    have hsame : base.status.conditions =
        obj.told status reason ready synced now now' new.conditions := hsame
    have hready := @ManagedObject.set_ready_told status reason ready synced obj now now' now
      new.conditions
    rw [← hsame, ← hconditions] at hready
    exact hready.trans (hconditions.trans hsame)
  · exact fun now' => hpost now now'

end Patches

/-! ### The status that is stored -/

/-- The stored custom resource has the generation of `obj`, and these two fields in its status. -/
def World.Persists (w : World) (obj : ManagedObject) (observed : Nat) (name : String) : Prop :=
  ∃ stored, w.object = some stored ∧ stored.generation = obj.generation ∧
    stored.status.observedGeneration = observed ∧ stored.status.secretName = name

section Status

variable {w : World} {obj mem : ManagedObject} {observed : Nat} {name : String}

theorem unpredictable_object {op : Op} {w' : World} {answer : op.Answer} (hop : ¬ op.WritesObject)
    (h : Unpredictable op w answer w') : w'.object = w.object := by
  have hfaulty (h : Faulty op w answer w') : w'.object = w.object :=
    faulty_elim h rfl fun _ h => reliable_object hop h
  rcases op
  case connect | admin => exact h
  case patchStatus => exact absurd trivial hop
  all_goals exact hfaulty h

/-- A patch of the status stores what is in memory, and returns it. -/
theorem wp_setCondition_persists {type : ConditionType} {status : ConditionStatus} {reason : Reason}
    {message : String} (hw : w.Persists obj observed name)
    (hobserved : observed = obj.status.observedGeneration ∨
      observed = mem.status.observedGeneration)
    (hname : name = obj.status.secretName ∨ name = mem.status.secretName) :
    wp Unpredictable ⊤ (Engine.setCondition mem obj type status reason message)
      (fun mem' t => t.Persists obj mem.status.observedGeneration mem.status.secretName ∧
        mem'.status.observedGeneration = mem.status.observedGeneration ∧
        mem'.status.secretName = mem.status.secretName) w := by
  refine ⟨trivial, fun now t hnow => ⟨trivial, fun answer u hpatch => ?_⟩⟩
  obtain ⟨stored, hstored, hgeneration, rfl, rfl⟩ := hw
  have ht : t.object = some stored := by
    rw [unpredictable_object (by exact fun h => h) hnow, hstored]
  obtain ⟨_, _, heq⟩ := hpatch
  simp only [World.handle, World.patchStatus, ht] at heq
  obtain ⟨rfl, rfl⟩ := Prod.mk.inj heq
  have hobserved' := World.patched_eq hobserved
  have hname' := World.patched_eq hname
  exact ⟨⟨_, rfl, hgeneration, hobserved', hname'⟩, hobserved', hname'⟩

theorem wp_succeed_persists {e : Engine} {synced : Bool} (hw : w.Persists obj observed name)
    (hobserved : observed = obj.status.observedGeneration) (hname : name = obj.status.secretName) :
    wp Unpredictable ⊤ (e.succeed mem obj synced)
      (fun _ t => t.Persists obj mem.status.observedGeneration mem.status.secretName) w := by
  refine wp_bind.mpr (wp_bind.mpr
    (wp_mono ?_ (wp_setCondition_persists hw (.inl hobserved) (.inl hname))))
  rintro mem' t ⟨ht, hobserved', hname'⟩
  refine wp_mono ?_ (wp_setCondition_persists ht (.inr hobserved'.symm) (.inr hname'.symm))
  rintro mem'' u ⟨hu, -⟩
  rw [hobserved', hname'] at hu
  exact hu

/-- The answer to a patch of the annotation brings back what is stored. -/
def ManagedObject.reloads (obj : ManagedObject) : Prop :=
  obj.lastApplied ≠ .marshalled obj.spec.representation

instance (obj : ManagedObject) : Decidable obj.reloads := inferInstanceAs (Decidable (_ ≠ _))

/-- The observed generation after a successful pass. -/
def ManagedObject.persistedGeneration (obj : ManagedObject) : Nat :=
  if obj.reloads then obj.status.observedGeneration else obj.generation

/-- The name of the output Secret in the status after a successful pass. -/
def ManagedObject.persistedSecretName (obj : ManagedObject) : String :=
  if obj.reloads then obj.status.secretName else obj.exported.status.secretName

theorem wp_finalize_persists {e : Engine} {synced : Bool} (hw : w.object = some obj) :
    Successfully Unpredictable (e.finalize obj.exported obj obj.spec.representation synced)
      (fun t => t.Persists obj obj.persistedGeneration obj.persistedSecretName) w := by
  have hstart : ∀ t : World, t.object.map ManagedObject.status = some obj.status →
      t.object.map ManagedObject.generation = some obj.generation →
      t.Persists obj obj.status.observedGeneration obj.status.secretName := by
    intro t hstatus hgeneration
    obtain ⟨stored, hstored, hsame⟩ := Option.map_eq_some_iff.mp hstatus
    rw [hstored] at hgeneration
    exact ⟨stored, hstored, Option.some.inj hgeneration, by rw [hsame], by rw [hsame]⟩
  refine Engine.wp_finalize_of (fun hkept => ?_) fun hreloads =>
    ⟨trivial, fun answer t hpatch => ?_⟩
  · have hkept : ¬ obj.reloads := not_not.mpr hkept
    refine wp_mono (fun pass u hu _ => ?_) (wp_succeed_persists
      (hstart w (by rw [hw]; rfl) (by rw [hw]; rfl)) rfl rfl)
    rwa [ManagedObject.persistedGeneration, ManagedObject.persistedSecretName, if_neg hkept,
      if_neg hkept]
  have hreloads : obj.reloads := hreloads
  rcases answer with err | stored
  · exact fun hfinalized => by cases hfinalized
  -- the stored object has the status of the beginning
  obtain ⟨hstored, ht⟩ : stored.status = obj.status ∧ t.object.map ManagedObject.status = some obj.status ∧
      t.object.map ManagedObject.generation = some obj.generation := by
    rcases hpatch with ⟨_, _, heq⟩ | ⟨⟨err, herr⟩, -⟩
    · simp only [World.handle, World.patchObject, hw] at heq
      obtain ⟨hanswer, rfl⟩ := Prod.mk.inj heq
      cases hanswer
      exact ⟨rfl, rfl, rfl⟩
    · cases herr
  change Successfully Unpredictable (e.succeed stored obj synced) _ t
  refine wp_mono (fun pass u hu _ => ?_) (wp_succeed_persists (hstart t ht.1 ht.2) rfl rfl)
  rw [hstored] at hu
  rwa [ManagedObject.persistedGeneration, ManagedObject.persistedSecretName, if_pos hreloads,
    if_pos hreloads]

theorem persistedGeneration_eq_iff :
    obj.persistedGeneration = obj.generation ↔ ¬ obj.reloads ∨
      obj.status.observedGeneration = obj.generation := by
  unfold ManagedObject.persistedGeneration
  split <;> grind

theorem persistedSecretName_eq_iff (h : obj.spec.outputName = some name) :
    obj.persistedSecretName = name ↔ ¬ obj.reloads ∨ obj.status.secretName = name := by
  have hexported : obj.exported.status.secretName = name := by
    simp [ManagedObject.exported, h]
  unfold ManagedObject.persistedSecretName
  rw [hexported]
  split <;> grind

theorem succeeding_persists (e : Engine) (obj : ManagedObject) :
    Succeeding e Unpredictable obj (fun t => t.object = some obj)
      (fun t => t.Persists obj obj.persistedGeneration obj.persistedSecretName) where
  quiet hop ht hstep := (unpredictable_object hop hstep).trans ht
  finalized ht := wp_finalize_persists ht
  counted hpost hstep := by
    obtain ⟨stored, hstored, hrest⟩ := hpost
    exact ⟨stored, (unpredictable_object (by exact fun h => h) hstep).trans hstored, hrest⟩

end Status

/-- **When the status arrives.**  After a successful pass whose patches were accepted, the stored
    status has the generation of the custom resource, and for a client the configured name of the
    output Secret, exactly if the annotation was up to date before the pass, or the stored fields
    were. -/
theorem status_persisted_iff (e : Engine) {w t : World} {obj : ManagedObject}
    {steps : List (Step operations World)} {pass : Pass} (hobject : w.object = some obj)
    (hexec : Exec Unpredictable e.controllerReconcile.run w steps t (some (.ok (some pass))))
    (hfinalized : pass.finalized = true) :
    (∃ stored, t.object = some stored ∧ stored.status.observedGeneration = stored.generation ∧
      ∀ name, obj.spec.outputName = some name → stored.status.secretName = name) ↔
    (obj.lastApplied = .marshalled obj.spec.representation ∨
      (obj.status.observedGeneration = obj.generation ∧
        ∀ name, obj.spec.outputName = some name → obj.status.secretName = name)) := by
  have hpass : wp Unpredictable ⊤ e.controllerReconcile.run
      (fun result u => ∀ pass, result = .ok (some pass) → pass.finalized = true →
        u.Persists obj obj.persistedGeneration obj.persistedSecretName) w := by
    refine wp_pass (fun _ _ h => h) hobject trivial (fun result hnone pass heq => absurd heq
      (hnone pass)) (wp_mono (fun pass v hv => ?_) ((succeeding_persists e obj).wp_reconcile hobject))
    rintro _ ⟨⟩
    exact hv
  obtain ⟨stored, hstored, hgeneration, hobserved, hname⟩ :=
    (wp_sound hpass hexec).2 _ rfl pass rfl hfinalized
  have hleft : (∃ stored, t.object = some stored ∧
      stored.status.observedGeneration = stored.generation ∧
      ∀ name, obj.spec.outputName = some name → stored.status.secretName = name) ↔
      (obj.persistedGeneration = obj.generation ∧
        ∀ name, obj.spec.outputName = some name → obj.persistedSecretName = name) := by
    rw [hstored]
    constructor
    · rintro ⟨_, ⟨⟩, hsame, hnames⟩
      exact ⟨hobserved.symm.trans (hsame.trans hgeneration),
        fun name hn => hname.symm.trans (hnames name hn)⟩
    · rintro ⟨hsame, hnames⟩
      exact ⟨stored, rfl, hobserved.trans (hsame.trans hgeneration.symm),
        fun name hn => hname.trans (hnames name hn)⟩
  rw [hleft, persistedGeneration_eq_iff]
  by_cases hreloads : obj.reloads
  case pos =>
    constructor
    · rintro ⟨hgenerations, hnames⟩
      refine .inr ⟨hgenerations.resolve_left (not_not.mpr hreloads), fun name hn => ?_⟩
      exact ((persistedSecretName_eq_iff hn).mp (hnames name hn)).resolve_left (not_not.mpr hreloads)
    · rintro (hrecorded | ⟨hgenerations, hnames⟩)
      · exact absurd hrecorded hreloads
      · exact ⟨.inr hgenerations, fun name hn =>
          (persistedSecretName_eq_iff hn).mpr (.inr (hnames name hn))⟩
  case neg =>
    constructor
    · exact fun _ => .inl (not_not.mp hreloads)
    · exact fun _ => ⟨.inl hreloads, fun name hn =>
        (persistedSecretName_eq_iff hn).mpr (.inl hreloads)⟩

/-- A client in its second generation, which has a description, with the annotation of a spec. -/
def redescribedPortal (recorded : Spec) : World :=
  .around { clientObject "portal" with
      generation := 2
      lastApplied := .marshalled recorded.representation
      spec := clientWith "demo" describedFields
      status := { observedGeneration := 1 } }
    (clientServer ⟨[markedPortal], Collection.nodup_ids_singleton _,
      Collection.nodup_keys_singleton _⟩)

/-- A pass over the recorded second generation tells it in the status. -/
theorem recorded_generation_persisted :
    let w := redescribedPortal (clientWith "demo" describedFields)
    ∃ pass, w.passResult = some (.ok (some pass)) ∧ pass.finalized = true ∧
      ∃ stored, w.afterPass.object = some stored ∧
        stored.status.observedGeneration = stored.generation := by
  obtain ⟨pass, hresult, hfinalized⟩ : Succeeds
      (redescribedPortal (clientWith "demo" describedFields)).passResult :=
    succeeds_of_finalized (by decide +kernel)
  have hexec := (redescribedPortal (clientWith "demo" describedFields)).exec_pass.mono
    unpredictable_of_reliable
  rw [hresult] at hexec
  obtain ⟨stored, hstored, hobserved, -⟩ := (status_persisted_iff _ rfl hexec hfinalized).mpr
    (.inl rfl)
  exact ⟨pass, hresult, hfinalized, stored, hstored, hobserved⟩

/-- The pass that applies the description leaves the first generation in the status. -/
theorem second_generation_lost :
    ∃ steps t pass, Exec Unpredictable (newEngine true 0).controllerReconcile.run
        (redescribedPortal (clientWith "demo" ⟨∅, Fields.typed_empty _⟩))
        steps t (some (.ok (some pass))) ∧ pass.finalized = true ∧
      ∃ stored, t.object = some stored ∧ stored.status.observedGeneration ≠ stored.generation := by
  let w := redescribedPortal (clientWith "demo" ⟨∅, Fields.typed_empty _⟩)
  obtain ⟨pass, hresult, hfinalized⟩ : Succeeds w.passResult :=
    succeeds_of_finalized (by decide +kernel)
  have hexec := w.exec_pass.mono unpredictable_of_reliable
  rw [hresult] at hexec
  have hlost : (w.afterPass.object.any fun stored =>
      decide (stored.status.observedGeneration ≠ stored.generation)) = true := by decide +kernel
  obtain ⟨stored, hstored, hne⟩ := (Option.any_eq_true _ _).mp hlost
  exact ⟨_, _, pass, hexec, hfinalized, stored, hstored, of_decide_eq_true hne⟩

end KeycloakOperator
