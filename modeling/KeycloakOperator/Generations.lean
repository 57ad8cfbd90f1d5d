import KeycloakOperator.Conditions

/-!
# The generation that a condition reports

`setCondition` takes the generation from the object in memory, and every accepted patch
replaces that object by the stored one.  An edit between the read of a pass and its Ready
patch so changes the generation under which the pass reports its success, although its
payload was computed before.  `success_reports_read_generation` says that no other edit
does: the edits here fall between any two operations of a pass.
-/

namespace KeycloakOperator

open Prog

/-- The user replaces the spec. -/
def UserEdit (w w' : World) : Prop := ∃ spec, w' = w.edit spec

/-- The operations of a pass, with edits anywhere between them. -/
def Edited : Env operations World := Unpredictable.interleaved UserEdit

/-- The conditions that the stored custom resource shows. -/
def World.conditions (w : World) : List Condition :=
  (w.object.map fun obj => obj.status.conditions).getD []

/-- The step leaves no new True condition behind but for the generation `g`. -/
def Honest (g : Nat) (step : Step operations World) : Prop :=
  ∀ type c, findStatusCondition step.after.conditions type = some c → c.status = .true →
    findStatusCondition step.before.conditions type ≠ some c → c.observedGeneration = g

/-- When the pass reports success in its first patch of the status, the custom resource
    still has the generation `g`. -/
def Timely (g : Nat) (log : Log) : Prop :=
  ∀ mid step more base new, log = mid ++ step :: more →
    (∀ earlier ∈ mid, ¬ earlier.op.PatchesStatus) → step.op = .patchStatus base new →
    conditionStatus new.status.conditions .ready = some .true →
    ∀ stored, step.after.object = some stored → stored.generation = g

theorem Timely.of_append {g : Nat} {log more : Log}
    (h : Timely g (log ++ more)) : Timely g log := by
  intro mid step rest base new hlog
  exact h mid step (rest ++ more) base new (by rw [hlog]; simp)

/-- What is said about the steps of a pass that read generation `g`. -/
def Told (g : Nat) (log : Log) : Prop :=
  Timely g log → ∀ step ∈ log, Honest g step

theorem Told.append {g : Nat} {log : Log} (h : Told g log)
    {step : Step operations World} (hstep : Timely g (log ++ [step]) → Honest g step) :
    Told g (log ++ [step]) := by
  intro htimely
  refine List.forall_mem_append.mpr ⟨h htimely.of_append, fun other hother => ?_⟩
  rw [List.mem_singleton.mp hother]
  exact hstep htimely

/-! ### Steps -/

section Steps

variable {w w' : World}

theorem UserEdit.object {t : World} {obj : ManagedObject}
    (h : Relation.ReflTransGen UserEdit w t) (hobject : t.object = some obj) :
    ∃ stored, w.object = some stored ∧ obj.status = stored.status ∧
      stored.generation ≤ obj.generation := by
  induction h generalizing obj with
  | refl => exact ⟨obj, hobject, rfl, le_rfl⟩
  | tail _ hedit ih =>
    obtain ⟨spec, rfl⟩ := hedit
    obtain ⟨before, hbefore, rfl⟩ := Option.map_eq_some_iff.mp hobject
    obtain ⟨stored, hstored, hstatus, hle⟩ := ih hbefore
    exact ⟨stored, hstored, hstatus, Nat.le_succ_of_le hle⟩

/-- Without a patch of the status the conditions stay. -/
theorem edited_object {op : Op} {answer : op.Answer} {obj : ManagedObject}
    (hop : ¬ op.PatchesStatus) (h : Edited op w answer w') (hobject : w'.object = some obj) :
    ∃ stored, w.object = some stored ∧ obj.status = stored.status ∧
      stored.generation ≤ obj.generation := by
  obtain ⟨t, hedits, hstep⟩ := h
  have hfaulty (h : Faulty op t answer w') : ∃ stored, t.object = some stored ∧
      obj.status = stored.status ∧ stored.generation ≤ obj.generation := by
    refine faulty_elim h (fun hobject => ⟨obj, hobject, rfl, le_rfl⟩) (fun _ h hobject => ?_) hobject
    obtain ⟨stored, hstored, -, hle, hstatus⟩ := reliable_writesObject h hobject
    exact ⟨stored, hstored, hstatus fun _ _ heq => hop (heq ▸ trivial), hle⟩
  have hbefore : ∃ stored, t.object = some stored ∧
      obj.status = stored.status ∧ stored.generation ≤ obj.generation := by
    rcases op
    case connect | admin => exact ⟨obj, (show w'.object = t.object from hstep) ▸ hobject, rfl, le_rfl⟩
    case patchStatus => exact absurd trivial hop
    all_goals exact hfaulty hstep
  obtain ⟨stored, hstored, hstatus, hle⟩ := hbefore
  obtain ⟨first, hfirst, hstatus', hle'⟩ := UserEdit.object hedits hstored
  exact ⟨first, hfirst, hstatus.trans hstatus', hle'.trans hle⟩

theorem World.conditions_eq {obj : ManagedObject} (h : w.object = some obj) :
    w.conditions = obj.status.conditions := by
  simp [World.conditions, h]

theorem findStatusCondition_conditions {type : ConditionType} {c : Condition}
    (h : findStatusCondition w.conditions type = some c) : ∃ obj, w.object = some obj := by
  rcases hobject : w.object with _ | obj
  · simp [World.conditions, hobject, findStatusCondition] at h
  · exact ⟨obj, rfl⟩

theorem edited_conditions {op : Op} {answer : op.Answer} {type : ConditionType} {c : Condition}
    (hop : ¬ op.PatchesStatus) (h : Edited op w answer w')
    (hc : findStatusCondition w'.conditions type = some c) :
    findStatusCondition w.conditions type = some c := by
  obtain ⟨obj, hobject⟩ := findStatusCondition_conditions hc
  obtain ⟨stored, hstored, hstatus, -⟩ := edited_object hop h hobject
  rw [World.conditions_eq hstored, ← hstatus, ← World.conditions_eq hobject]
  exact hc

theorem honest_of_edited {op : Op} {answer : op.Answer} (hop : ¬ op.PatchesStatus)
    (h : Edited op w answer w') (g : Nat) : Honest g ⟨w, op, answer, w'⟩ :=
  fun _ _ hafter _ hbefore => absurd (edited_conditions hop h hafter) hbefore

/-- If the custom resource exists, it has these conditions. -/
def World.Displays (w : World) (conditions : List Condition) : Prop :=
  ∀ stored, w.object = some stored → stored.status.conditions = conditions

/-- If the custom resource exists, its generation is at least `g`. -/
def World.Since (w : World) (g : Nat) : Prop :=
  ∀ stored, w.object = some stored → g ≤ stored.generation

theorem World.Displays.edited {op : Op} {answer : op.Answer} {conditions : List Condition}
    (hw : w.Displays conditions) (hop : ¬ op.PatchesStatus) (h : Edited op w answer w') :
    w'.Displays conditions := by
  intro obj hobject
  obtain ⟨stored, hstored, hstatus, -⟩ := edited_object hop h hobject
  exact hstatus ▸ hw stored hstored

theorem World.Since.edited {op : Op} {answer : op.Answer} {g : Nat} (hw : w.Since g)
    (hop : ¬ op.PatchesStatus) (h : Edited op w answer w') : w'.Since g := by
  intro obj hobject
  obtain ⟨stored, hstored, -, hle⟩ := edited_object hop h hobject
  exact (hw stored hstored).trans hle

/-- A patch of the status is answered with the stored object, if there is one. -/
theorem edited_patchStatus {base new : ManagedObject} {answer : Except Err ManagedObject}
    (h : Edited (.patchStatus base new) w answer w') :
    (w'.object = none ∧ ∃ err, answer = .error err) ∨
      ∃ before stored, w.object = some before ∧ w'.object = some stored ∧ answer = .ok stored ∧
        before.generation ≤ stored.generation ∧
        stored.status.conditions = World.patched base.status.conditions new.status.conditions
          before.status.conditions := by
  obtain ⟨t, hedits, order, now, heq⟩ := h
  simp only [World.handle, World.patchStatus] at heq
  rcases ht : t.object with _ | stored
  · rw [ht] at heq
    obtain ⟨rfl, rfl⟩ := Prod.mk.inj heq
    exact .inl ⟨ht, _, rfl⟩
  · rw [ht] at heq
    obtain ⟨rfl, rfl⟩ := Prod.mk.inj heq
    obtain ⟨before, hbefore, hstatus, hle⟩ := UserEdit.object hedits ht
    exact .inr ⟨before, _, hbefore, rfl, rfl, hle, by rw [← hstatus]⟩

/-- A patch that sets one condition changes no other. -/
theorem honest_patchStatus {base new : ManagedObject} {answer : Except Err ManagedObject}
    {conditions : List Condition} {c : Condition} {g : Nat}
    (h : Edited (.patchStatus base new) w answer w') (hw : w.Displays conditions)
    (hnew : new.status.conditions = setStatusCondition c conditions)
    (hc : c.status = .true → ∀ before stored, w.object = some before →
      w'.object = some stored → before.generation ≤ stored.generation → c.observedGeneration = g) :
    Honest g ⟨w, .patchStatus base new, answer, w'⟩ := by
  intro type c' hafter htrue hbefore
  rcases edited_patchStatus h with ⟨hgone, -⟩ | ⟨before, stored, hobject, hstored, -, hle, hpatched⟩
  · obtain ⟨obj, hobj⟩ := findStatusCondition_conditions hafter
    cases hgone.symm.trans hobj
  rw [World.conditions_eq hobject] at hbefore
  rw [World.conditions_eq hstored, hpatched, World.patched] at hafter
  split at hafter
  · exact absurd hafter hbefore
  rw [hnew, ← hw before hobject] at hafter
  by_cases htype : type = c.type
  · obtain ⟨time, hfind⟩ := findStatusCondition_set c before.status.conditions
    rw [htype, hfind, Option.some.injEq] at hafter
    subst hafter
    exact hc htrue before stored hobject hstored hle
  · rw [findStatusCondition_set_of_ne htype] at hafter
    exact absurd hafter hbefore

end Steps

/-! ### The ends of a pass -/

section Pass

variable {e : Engine} {obj mem : ManagedObject} {s : World × Log}

/-- The pass over `obj` has not reported anything yet. -/
structure Calm (obj : ManagedObject) (s : World × Log) : Prop where
  displays : s.1.Displays obj.status.conditions
  since : s.1.Since obj.generation
  unpatched : ∀ step ∈ s.2, ¬ step.op.PatchesStatus
  honest : ∀ step ∈ s.2, Honest obj.generation step

theorem Calm.told (h : Calm obj s) : Told obj.generation s.2 := fun _ => h.honest

theorem Calm.step {op : Op} {answer : op.Answer} {s' : World × Log} (h : Calm obj s)
    (hop : ¬ op.PatchesStatus) (hstep : Edited.logged op s answer s') : Calm obj s' := by
  obtain ⟨hstep, hlog⟩ := hstep
  constructor
  · exact h.displays.edited hop hstep
  · exact h.since.edited hop hstep
  · rw [hlog]
    refine List.forall_mem_append.mpr ⟨h.unpatched, fun step hmem => ?_⟩
    rw [List.mem_singleton.mp hmem]
    exact hop
  · rw [hlog]
    refine List.forall_mem_append.mpr ⟨h.honest, fun step hmem => ?_⟩
    rw [List.mem_singleton.mp hmem]
    exact honest_of_edited hop hstep _

theorem Told.step {g : Nat} {op : Op} {answer : op.Answer} {s' : World × Log} (h : Told g s.2)
    (hop : ¬ op.PatchesStatus) (hstep : Edited.logged op s answer s') : Told g s'.2 := by
  obtain ⟨hstep, hlog⟩ := hstep
  rw [hlog]
  exact h.append fun _ => honest_of_edited hop hstep g

/-- The condition written last reports what the object in memory says. -/
theorem wp_setCondition_told {g : Nat} {base : ManagedObject} {type : ConditionType}
    {status : ConditionStatus} {reason : Reason} {message : String}
    (hdisplays : s.1.Displays mem.status.conditions) (htold : Told g s.2)
    (hgen : status = .true → ∀ before, s.1.object = some before → Timely g s.2 →
      mem.generation = g) :
    wp Edited.logged (fun _ t => Told g t.2)
      (Engine.setCondition mem base type status reason message) (fun _ t => Told g t.2) s := by
  refine ⟨htold, fun now t hnow => ?_⟩
  have hop : ¬ Op.now.PatchesStatus := fun h => h
  have ht := htold.step hop hnow
  refine ⟨ht, fun answer u hpatch => ?_⟩
  obtain ⟨hpatch, hlog⟩ := hpatch
  have htold' : Told g u.2 := by
    rw [hlog]
    refine ht.append fun htimely => honest_patchStatus hpatch (hdisplays.edited hop hnow.1) rfl ?_
    intro htrue before stored hbefore _ _
    obtain ⟨first, hfirst, -⟩ := edited_object hop hnow.1 hbefore
    have hprefix : Timely g t.2 := htimely.of_append
    rw [hnow.2] at hprefix
    exact hgen htrue first hfirst hprefix.of_append
  rcases answer with err | stored <;> exact htold'

/-- The first condition of a pass.  Its patch loads the stored generation. -/
theorem wp_setReady_told {status : ConditionStatus} {reason : Reason} {message : String}
    (hcalm : Calm obj s) (hmem : mem.status.conditions = obj.status.conditions)
    (hgen : status = .true → obj.generation ≤ mem.generation ∧ s.1.Since mem.generation) :
    wp Edited.logged (fun _ t => Told obj.generation t.2)
      (Engine.setCondition mem obj .ready status reason message)
      (fun mem' t => t.1.Displays mem'.status.conditions ∧ Told obj.generation t.2 ∧
        (status = .true → ∀ before, t.1.object = some before → Timely obj.generation t.2 →
          mem'.generation = obj.generation)) s := by
  refine ⟨hcalm.told, fun now t hnow => ?_⟩
  have hop : ¬ Op.now.PatchesStatus := fun h => h
  have hcalm' := hcalm.step hop hnow
  refine ⟨hcalm'.told, fun answer u hpatch => ?_⟩
  obtain ⟨u, log⟩ := u
  obtain ⟨hpatch, hlog⟩ := hpatch
  dsimp only at hpatch hlog
  generalize hnew : setStatusCondition ⟨.ready, status, mem.generation, reason, message, now⟩
    mem.status.conditions = conditions at hpatch hlog ⊢
  have hready : conditionStatus conditions .ready = some status := by
    rw [← hnew, conditionStatus_set, if_pos rfl]
  -- an edit before the patch is seen in the generation that the patch returns
  have hnow' : status = .true → Timely obj.generation log → ∀ stored, u.object = some stored →
      stored.generation = obj.generation := by
    intro htrue htimely stored hstored
    rw [hlog] at htimely
    exact htimely t.2 _ [] _ _ rfl hcalm'.unpatched rfl (hready.trans (congrArg some htrue))
      stored hstored
  have htold : Told obj.generation log := by
    rw [hlog]
    refine hcalm'.told.append fun htimely => ?_
    refine honest_patchStatus hpatch hcalm'.displays (hmem ▸ hnew.symm) fun htrue before stored
      hbefore hstored hle => ?_
    obtain ⟨hmin, hsince⟩ := hgen htrue
    have hmax : mem.generation ≤ before.generation := hsince.edited hop hnow.1 before hbefore
    have hsame := hnow' htrue (hlog ▸ htimely) stored hstored
    dsimp only
    omega
  rcases edited_patchStatus hpatch with ⟨hgone, err, rfl⟩ | ⟨before, stored, hbefore, hstored, rfl, -⟩
  · refine ⟨fun stored hstored => ?_, htold, fun _ before hbefore => ?_⟩
    · cases hgone.symm.trans hstored
    · cases hgone.symm.trans hbefore
  · refine ⟨fun other hother => ?_, htold, fun htrue before' hbefore' htimely => ?_⟩
    · cases hstored.symm.trans hother
      rfl
    · exact hnow' htrue htimely stored hstored

theorem wp_setConditions_told {status : ConditionStatus} {reason : Reason} {ready synced : String}
    (hcalm : Calm obj s) (hmem : mem.status.conditions = obj.status.conditions)
    (hgen : status = .true → obj.generation ≤ mem.generation ∧ s.1.Since mem.generation) :
    wp Edited.logged (fun _ t => Told obj.generation t.2)
      (Engine.setConditions mem obj status reason ready synced)
      (fun _ t => Told obj.generation t.2) s := by
  refine wp_bind.mpr (wp_mono ?_ (wp_setReady_told hcalm hmem hgen))
  rintro mem' t ⟨hdisplays, htold, hgen'⟩
  exact wp_setCondition_told hdisplays htold hgen'

theorem wp_succeed_told {synced : Bool} (hcalm : Calm obj s)
    (hmem : mem.status.conditions = obj.status.conditions)
    (hmin : obj.generation ≤ mem.generation) (hsince : s.1.Since mem.generation) :
    wp Edited.logged (fun _ t => Told obj.generation t.2) (e.succeed mem obj synced)
      (fun _ t => Told obj.generation t.2) s :=
  wp_bind.mpr (wp_setConditions_told hcalm hmem fun _ => ⟨hmin, hsince⟩)

/-- A patch of the annotation is answered with the stored object. -/
theorem edited_patchObject {w w' : World} {base stored : ManagedObject}
    (h : Edited (.patchObject base mem) w (.ok stored) w') :
    w'.object = some stored := by
  obtain ⟨t, -, ⟨order, now, heq⟩ | ⟨⟨err, herr⟩, -⟩⟩ := h
  · simp only [World.handle, World.patchObject] at heq
    rcases ht : t.object with _ | before
    · rw [ht] at heq
      cases (Prod.mk.inj heq).1
    · rw [ht] at heq
      rw [← (Prod.mk.inj heq).2, ← Except.ok.inj (Prod.mk.inj heq).1]
  · cases herr

theorem wp_finalize_told {specMap : Object} {synced : Bool} (hcalm : Calm obj s)
    (hmem : mem.status.conditions = obj.status.conditions)
    (hgen : mem.generation = obj.generation) :
    wp Edited.logged (fun _ t => Told obj.generation t.2) (e.finalize mem obj specMap synced)
      (fun _ t => Told obj.generation t.2) s := by
  refine Engine.wp_finalize_of (fun _ => wp_succeed_told hcalm (by exact hmem) (by exact hgen.ge)
    (by exact hgen ▸ hcalm.since))
    fun _ => ⟨hcalm.told, fun answer t hstep => ?_⟩
  have hcalm' := hcalm.step (by simp [Op.PatchesStatus]) hstep
  rcases answer with err | stored
  · exact hcalm'.told
  · have hobject := edited_patchObject hstep.1
    have hstored := hcalm'.displays stored hobject
    refine wp_succeed_told hcalm' hstored ?_ ?_
    · exact hcalm'.since stored hobject
    · intro other hother
      cases hobject.symm.trans hother
      exact le_rfl

/-- A pass over `obj` reports success for the generation of `obj`, if it is timely. -/
theorem closing_told (e : Engine) (obj : ManagedObject) :
    Closing e Edited obj (fun _ t => Told obj.generation t.2) (Calm obj)
      (fun t => Told obj.generation t.2) where
  quiet honly hs :=
    wp_guard_mono (fun _ _ h => h.2.told) (wp_of_only (Calm obj)
      (fun _ _ _ _ hop hs hstep => hs.step hop hstep) honly hs)
  tail honly hs :=
    wp_guard_mono (fun _ _ h => h.2) (wp_of_only (fun t : World × Log => Told obj.generation t.2)
      (fun _ _ _ _ hop hs hstep => hs.step hop hstep) honly hs)
  silent hs := hs.told
  failed hs hmem := wp_setConditions_told hs hmem fun h => by cases h
  finalized hs hmem hgen := wp_finalize_told hs hmem hgen
  unfetched _ _ _ _ ht := wp_setCondition_told ht.displays ht.told fun h => by cases h

theorem edited_getObject {w w' : World} (h : Edited .getObject w (.ok obj) w') :
    w'.object = some obj := by
  obtain ⟨t, -, hstep⟩ := h
  obtain ⟨rfl, hobject⟩ := faulty_getObject_ok hstep
  exact hobject

/-- A pass over `obj`, complete or cut off. -/
theorem told_of_exec {w t : World} {rest : Log} {result : Option Pass}
    (hobject : w.object = some obj)
    (hexec : Exec Edited (e.reconcile obj) w rest t result) :
    Told obj.generation rest := by
  have hcalm : Calm obj (w, []) := by
    constructor
    · intro stored hstored
      cases hobject.symm.trans hstored
      rfl
    · intro stored hstored
      cases hobject.symm.trans hstored
      exact le_rfl
    · exact fun _ h => absurd h List.not_mem_nil
    · exact fun _ h => absurd h List.not_mem_nil
  obtain ⟨more, hlogged⟩ := hexec.logged []
  let reported (s : World × Log) : Prop := Told obj.generation s.2
  have hend : reported (t, [] ++ rest) := wp_invariant (fun _ _ h => h) (fun _ _ h => h)
    ((closing_told e obj).wp_reconcile hcalm) hlogged
  exact hend

end Pass

/-! ### Histories -/

/-- The pass changed the condition. -/
def changes (steps : Log) (type : ConditionType) : Bool :=
  steps.any fun step => decide (findStatusCondition step.after.conditions type ≠
    findStatusCondition step.before.conditions type)

/-- Passes, complete or cut off, with edits anywhere.  For each condition the author is the
    generation that the pass which changed it last had read. -/
inductive History (e : Engine) (allowed : Log → Prop) :
    World → (ConditionType → Option Nat) → Prop where
  | start {w : World}
      (hfresh : ∀ type c, findStatusCondition w.conditions type = some c → c.status ≠ .true) :
      History e allowed w fun _ => none
  | edit {w w' : World} {author : ConditionType → Option Nat} (h : History e allowed w author)
      (hedit : UserEdit w w') : History e allowed w' author
  | pass {w w' : World} {author : ConditionType → Option Nat} {steps : Log}
      {result : Option (Except Err (Option Pass))} (h : History e allowed w author)
      (hexec : Exec Edited e.controllerReconcile.run w steps w' result) (hallowed : allowed steps) :
      History e allowed w' fun type =>
        if changes steps type then (readObjects steps).head?.map ManagedObject.generation
        else author type

/-- The pass that these steps belong to reports success, if it does, before the custom
    resource has got a new generation. -/
def TimelyPass (steps : Log) : Prop :=
  ∀ read rest obj, steps = read :: rest → readObject read = some obj → Timely obj.generation rest

/-- A condition that is there at the end was put there by some step, or was there all the
    time. -/
theorem exec_condition {env : Env operations World} {p : Action α} {w t : World} {steps : Log}
    {result : Option α} {type : ConditionType} {c : Condition}
    (hexec : Exec env p w steps t result)
    (hc : findStatusCondition t.conditions type = some c) :
    (∃ step ∈ steps, findStatusCondition step.after.conditions type = some c ∧
      findStatusCondition step.before.conditions type ≠ some c) ∨
    (findStatusCondition w.conditions type = some c ∧ changes steps type = false) := by
  induction hexec with
  | ret a s => exact .inr ⟨hc, rfl⟩
  | crash p s => exact .inr ⟨hc, rfl⟩
  | @call op next s s' t answer steps result hstep hrest ih =>
    rcases ih hc with ⟨step, hmem, hput⟩ | ⟨hkept, hsame⟩
    · exact .inl ⟨step, List.mem_cons_of_mem _ hmem, hput⟩
    by_cases hbefore : findStatusCondition s.conditions type = some c
    · refine .inr ⟨hbefore, ?_⟩
      rw [changes, List.any_cons, Bool.or_eq_false_iff]
      exact ⟨by simp [hkept, hbefore], hsame⟩
    · exact .inl ⟨_, List.mem_cons_self, hkept, hbefore⟩

theorem UserEdit.conditions {w w' : World} (h : UserEdit w w') : w'.conditions = w.conditions := by
  obtain ⟨spec, rfl⟩ := h
  simp only [World.conditions, World.edit, Option.map_map]
  rfl

/-- **Success is reported for the generation that was applied**, as long as no edit falls
    between the read of a pass and its first report of success. -/
theorem success_reports_read_generation (e : Engine) {w : World}
    {author : ConditionType → Option Nat} (h : History e TimelyPass w author)
    {type : ConditionType} {c : Condition}
    (hc : findStatusCondition w.conditions type = some c) (htrue : c.status = .true) :
    author type = some c.observedGeneration := by
  induction h with
  | start hfresh => exact absurd htrue (hfresh type c hc)
  | edit _ hedit ih => exact ih (hedit.conditions ▸ hc)
  | @pass w w' author steps result _ hexec htimely ih =>
    dsimp only
    rcases exec_condition hexec hc with ⟨step, hmem, hput, hbefore⟩ | ⟨hkept, hsame⟩
    case inr =>
      rw [hsame, if_neg Bool.false_ne_true]
      exact ih hkept
    have hchanges : changes steps type = true := by
      refine List.any_eq_true.mpr ⟨step, hmem, decide_eq_true ?_⟩
      rw [hput]
      exact hbefore.symm
    rw [if_pos hchanges]
    -- a read puts no condition there
    have hread : step.op ≠ .getObject := by
      intro hop
      refine hbefore (edited_conditions ?_ (hexec.env_of_mem step hmem) hput)
      rw [hop]
      exact fun h => h
    rcases Engine.exec_pass hexec with ⟨hreads, -⟩ | ⟨obj, s', rest, reached, hget, rfl, hrest, -⟩
    · exact absurd (hreads step hmem) hread
    · have hrest' : step ∈ rest := by
        rcases List.mem_cons.mp hmem with rfl | hrest'
        · exact absurd rfl hread
        · exact hrest'
      have htold := told_of_exec (edited_getObject hget) hrest
      have hhonest := htold (htimely _ rest obj rfl rfl) step hrest'
      rw [hhonest type c hput htrue hbefore]
      rfl

/-- The custom resource keeps its generation. -/
def steady (g : Nat) (steps : Log) : Bool :=
  steps.all (fun step => step.after.object.all fun obj => decide (obj.generation = g)) &&
    (readObjects steps).all fun obj => decide (obj.generation = g)

theorem timelyPass_of_steady {g : Nat} {steps : Log} (h : steady g steps = true) :
    TimelyPass steps := by
  obtain ⟨hafter, hread⟩ := Bool.and_eq_true_iff.mp h
  intro read rest obj hsteps hobj mid step more base new hrest _ _ _ stored hstored
  have hmem : step ∈ steps := by
    rw [hsteps, hrest]
    simp
  have hgeneration : stored.generation = g :=
    of_decide_eq_true ((Option.all_eq_true _ _).mp (List.all_eq_true.mp hafter step hmem) stored hstored)
  have hobj' : obj ∈ readObjects steps :=
    List.mem_filterMap.mpr ⟨read, hsteps ▸ List.mem_cons_self, hobj⟩
  exact hgeneration.trans (of_decide_eq_true (List.all_eq_true.mp hread obj hobj')).symm

theorem fresh_of_conditions_eq_nil {w : World} (h : w.conditions = []) (type : ConditionType)
    (c : Condition) (hc : findStatusCondition w.conditions type = some c) : c.status ≠ .true := by
  rw [h] at hc
  cases hc

theorem exec_edited (p : Action α) (w : World) :
    p.Exec Edited w (p.runSteps (World.handle World.sorted 0) w)
      (p.run (World.handle World.sorted 0) w).2 (some (p.run (World.handle World.sorted 0) w).1) :=
  (exec_handle p w).mono fun _ _ _ _ h => ⟨_, .refl, unpredictable_of_reliable _ _ _ _ h⟩

/-- A marked client and a custom resource that names it. -/
def portalWorld : World :=
  .around (clientObject "portal")
    (clientServer ⟨[markedPortal], Collection.nodup_ids_singleton _,
      Collection.nodup_keys_singleton _⟩)

/-- The user describes the client after a first pass. -/
def editedPortal : World := portalWorld.afterPass.edit (clientWith "demo" describedFields)

/-- A pass, an edit and a second pass, which reports the edited generation. -/
theorem portal_reports_second_generation :
    ∃ w author c, History (newEngine true 0) TimelyPass w author ∧
      findStatusCondition w.conditions .ready = some c ∧ c.status = .true ∧
      author .ready = some c.observedGeneration ∧ c.observedGeneration = 2 := by
  have hfirst : steady 1 portalWorld.passSteps = true := by decide
  have hsecond : steady 2 editedPortal.passSteps = true := by decide +kernel
  have hready : (findStatusCondition editedPortal.afterPass.conditions .ready).any
      (fun c => decide (c.status = .true ∧ c.observedGeneration = 2)) = true := by decide +kernel
  obtain ⟨c, hc, hreport⟩ := (Option.any_eq_true _ _).mp hready
  obtain ⟨htrue, hgeneration⟩ := of_decide_eq_true hreport
  have hedited : History (newEngine true 0) TimelyPass editedPortal _ :=
    .edit (.pass (.start (fresh_of_conditions_eq_nil rfl)) (exec_edited _ portalWorld)
      (timelyPass_of_steady hfirst)) ⟨_, rfl⟩
  have hhistory := hedited.pass (exec_edited _ editedPortal) (timelyPass_of_steady hsecond)
  exact ⟨_, _, c, hhistory, hc, htrue,
    success_reports_read_generation _ hhistory hc htrue, hgeneration⟩

/-- The user repoints the custom resource just before the annotation is patched. -/
def World.handleRepointed : Handler operations World
  | .patchObject base obj, w => (w.edit (plainClient "billing")).patchObject base obj
  | op, w => World.handle World.sorted 0 op w

theorem exec_handleRepointed (p : Action α) (w : World) :
    p.Exec Edited w (p.runSteps World.handleRepointed w) (p.run World.handleRepointed w).2
      (some (p.run World.handleRepointed w).1) := by
  refine (p.exec_run _ w).mono fun op t answer t' h => ?_
  rcases op with _ | _ | _ | _ | _ | _ | ⟨base, obj⟩ | _
  case patchObject =>
    exact ⟨_, .single ⟨plainClient "billing", rfl⟩, .inl ⟨World.sorted, 0, h⟩⟩
  all_goals exact ⟨_, .refl, unpredictable_of_reliable _ _ _ _ ⟨World.sorted, 0, h⟩⟩

/-- The pass applied the spec of generation 1.  The edit makes it report success for
    generation 2, whose spec names a client that nobody has touched. -/
theorem repointed_portal_reports_unapplied :
    ∃ w author c, History (newEngine true 0) (fun _ => True) w author ∧
      findStatusCondition w.conditions .ready = some c ∧ c.status = .true ∧
      c.observedGeneration = 2 ∧ author .ready = some 1 := by
  have hfacts : (findStatusCondition (Prog.run World.handleRepointed
      (newEngine true 0).controllerReconcile.run portalWorld).2.conditions .ready).any
        (fun c => decide (c.status = .true ∧ c.observedGeneration = 2)) = true ∧
      changes ((newEngine true 0).controllerReconcile.run.runSteps World.handleRepointed
        portalWorld) .ready = true ∧
      (readObjects ((newEngine true 0).controllerReconcile.run.runSteps World.handleRepointed
        portalWorld)).head?.map ManagedObject.generation = some 1 := by decide
  obtain ⟨hany, hchanges, hread⟩ := hfacts
  obtain ⟨c, hc, hreported⟩ := (Option.any_eq_true _ _).mp hany
  obtain ⟨htrue, hgeneration⟩ := of_decide_eq_true hreported
  refine ⟨_, _, c, .pass (.start (fresh_of_conditions_eq_nil rfl))
    (exec_handleRepointed _ portalWorld) trivial, hc, htrue, hgeneration, ?_⟩
  rw [if_pos hchanges]
  exact hread

end KeycloakOperator
