import KeycloakOperator.Endings
import KeycloakOperator.Takeover

/-!
# The two conditions of a custom resource

The engine writes Ready and Synced with one patch each.  Every end of a pass writes both
or none, except for one: when the lookup after a creation fails, `handleCreate` writes
Ready alone.  `conditions_agree` says that nothing else separates the two, whatever the
servers and connections answer.
-/

namespace KeycloakOperator

open Prog

/-! ### Lists of conditions -/

/-- The condition that was set, with the time of its last transition. -/
theorem findStatusCondition_set (c : Condition) (conditions : List Condition) :
    ∃ time, findStatusCondition (setStatusCondition c conditions) c.type =
      some { c with lastTransitionTime := time } := by
  induction conditions with
  | nil => exact ⟨c.lastTransitionTime, by simp [setStatusCondition, findStatusCondition]⟩
  | cons head rest ih =>
    unfold setStatusCondition
    split
    · exact ⟨_, List.find?_cons_of_pos (by simp)⟩
    case isFalse hne =>
      unfold findStatusCondition at ih ⊢
      rw [List.find?_cons_of_neg (by simpa using hne)]
      exact ih

theorem findStatusCondition_set_of_ne {c : Condition} {type : ConditionType} (h : type ≠ c.type)
    (conditions : List Condition) :
    findStatusCondition (setStatusCondition c conditions) type =
      findStatusCondition conditions type := by
  unfold findStatusCondition
  induction conditions with
  | nil => simp [setStatusCondition, h.symm]
  | cons head rest ih =>
    unfold setStatusCondition
    split
    case isTrue heq =>
      rw [List.find?_cons_of_neg (by simpa using h.symm),
        List.find?_cons_of_neg (by simpa [heq] using h.symm)]
    case isFalse =>
      rw [List.find?_cons, List.find?_cons, ih]

/-- A condition that is there already. -/
theorem setStatusCondition_self {c : Condition} {conditions : List Condition} {time : Nat}
    (h : findStatusCondition conditions c.type = some { c with lastTransitionTime := time }) :
    setStatusCondition c conditions = conditions := by
  unfold findStatusCondition at h
  induction conditions with
  | nil => cases h
  | cons head rest ih =>
    unfold setStatusCondition
    split
    case isTrue heq =>
      rw [List.find?_cons_of_pos (by simpa using heq)] at h
      cases h
      rw [if_pos rfl]
    case isFalse hne =>
      rw [List.find?_cons_of_neg (by simpa using hne)] at h
      rw [ih h]

/-- The status of a condition, if it is present. -/
def conditionStatus (conditions : List Condition) (type : ConditionType) : Option ConditionStatus :=
  (findStatusCondition conditions type).map Condition.status

/-- Ready and Synced are both absent, or both present with the same status. -/
def Agreeing (conditions : List Condition) : Prop :=
  conditionStatus conditions .ready = conditionStatus conditions .synced

instance : DecidablePred Agreeing := fun _ => inferInstanceAs (Decidable (_ = _))

theorem conditionStatus_set (c : Condition) (conditions : List Condition) (type : ConditionType) :
    conditionStatus (setStatusCondition c conditions) type =
      if type = c.type then some c.status else conditionStatus conditions type := by
  split
  case isTrue heq =>
    obtain ⟨time, hfind⟩ := findStatusCondition_set c conditions
    rw [heq, conditionStatus, hfind]
    rfl
  case isFalse hne => exact congrArg _ (findStatusCondition_set_of_ne hne conditions)

/-! ### The environment -/

/-- Servers and connections answer anything.  The Kubernetes API accepts every patch of
    the status; its other calls may fail. -/
def Unpredictable : Env operations World
  | .connect _ _, w, _, w' => w'.object = w.object
  | .admin _ _, w, _, w' => w'.object = w.object
  | .patchStatus base obj, w, answer, w' => Reliable (.patchStatus base obj) w answer w'
  | op, w, answer, w' => Faulty op w answer w'

theorem unpredictable_of_reliable (op : Op) (w : World) (answer : op.Answer) (w' : World)
    (h : Reliable op w answer w') : Unpredictable op w answer w' := by
  rcases op
  case connect | admin => exact reliable_object (by simp [Op.WritesObject]) h
  case patchStatus => exact h
  all_goals exact .inl h

/-- The stored custom resource is live and has these conditions. -/
def World.Shows (w : World) (conditions : List Condition) : Prop :=
  ∃ stored, w.object = some stored ∧ stored.deletionTimestamp = none ∧
    stored.status.conditions = conditions

/-- The stored custom resource is live, and its conditions agree. -/
def World.Consistent (w : World) : Prop := ∃ conditions, w.Shows conditions ∧ Agreeing conditions

section Environment

variable {w w' : World} {conditions : List Condition}

theorem reliable_shows {op : Op} {answer : op.Answer} (hop : ¬ op.PatchesStatus)
    (h : Reliable op w answer w') (hw : w.Shows conditions) : w'.Shows conditions := by
  obtain ⟨stored, hstored, hlive, hconditions⟩ := hw
  obtain ⟨obj, hobject⟩ := reliable_stays h hstored hlive
  obtain ⟨stored', hstored', hstamp, -, hstatus⟩ := reliable_writesObject h hobject
  rw [hstored, Option.some.injEq] at hstored'
  subst hstored'
  have hkept : obj.status = stored.status := hstatus fun base new heq => hop (heq ▸ trivial)
  exact ⟨obj, hobject, hstamp.trans hlive, hkept ▸ hconditions⟩

/-- Only patches of the status touch the conditions. -/
theorem unpredictable_shows {op : Op} {answer : op.Answer} (hop : ¬ op.PatchesStatus)
    (h : Unpredictable op w answer w') (hw : w.Shows conditions) : w'.Shows conditions := by
  have hfaulty (h : Faulty op w answer w') : w'.Shows conditions :=
    faulty_elim h hw fun _ h => reliable_shows hop h hw
  rcases op
  case connect | admin =>
    obtain ⟨stored, hstored, hrest⟩ := hw
    exact ⟨stored, (show w'.object = w.object from h) ▸ hstored, hrest⟩
  case patchStatus => exact absurd trivial hop
  all_goals exact hfaulty h

/-- A program that patches no status. -/
theorem wp_shows {p : Action α} (h : Only (fun op : Op => ¬ op.PatchesStatus) p)
    (hw : w.Shows conditions) :
    wp Unpredictable ⊤ p (fun _ t => t.Shows conditions) w :=
  wp_guard_mono (fun _ _ _ => trivial) (wp_of_only (fun t : World => t.Shows conditions)
    (fun _ _ _ _ hop ht hstep => unpredictable_shows hop hstep ht) h hw)

end Environment

/-! ### Writing the conditions -/

section Conditions

variable {w : World} {mem base : ManagedObject} {status : ConditionStatus} {reason : Reason}
  {message : String}

/-- A merge patch with the conditions of `mem`, from those of `base`. -/
theorem unpredictable_patchStatus {w' : World} {answer : Except Err ManagedObject}
    {conditions : List Condition} (h : Unpredictable (.patchStatus base mem) w answer w')
    (hw : w.Shows conditions) :
    ∃ stored, answer = .ok stored ∧
      stored.status.conditions =
        World.patched base.status.conditions mem.status.conditions conditions ∧
      w'.Shows (World.patched base.status.conditions mem.status.conditions conditions) := by
  obtain ⟨stored, hstored, hlive, rfl⟩ := hw
  obtain ⟨order, now, heq⟩ := h
  simp only [World.handle, World.patchStatus, hstored] at heq
  obtain ⟨rfl, rfl⟩ := Prod.mk.inj heq
  exact ⟨_, rfl, rfl, _, rfl, hlive, rfl⟩

/-- One condition is written over the conditions in memory.  The patch leaves out what is
    as it was at the beginning of the pass. -/
theorem wp_setCondition (type : ConditionType) {conditions : List Condition}
    (hw : w.Shows conditions) (hmem : mem.status.conditions = conditions) :
    wp Unpredictable ⊤
      (Engine.setCondition mem base type status reason message)
      (fun mem' t => ∃ c new, c.type = type ∧ c.status = status ∧
        new = setStatusCondition c conditions ∧
        ((t.Shows new ∧ mem'.status.conditions = new) ∨
          (base.status.conditions = new ∧ t.Shows conditions ∧
            mem'.status.conditions = conditions))) w := by
  refine ⟨trivial, fun now t hstep => ?_⟩
  have ht : t.Shows conditions := unpredictable_shows (by simp [Op.PatchesStatus]) hstep hw
  refine ⟨trivial, fun answer u hpatch => ?_⟩
  obtain ⟨stored, rfl, hstored, hu⟩ := unpredictable_patchStatus hpatch ht
  refine ⟨⟨type, status, mem.generation, reason, message, now⟩, _, rfl, rfl, rfl, ?_⟩
  rw [← hmem] at hu hstored ⊢
  unfold World.patched at hu hstored
  dsimp only at hu hstored
  split at hu
  case isTrue hbase =>
    rw [if_pos hbase] at hstored
    exact .inr ⟨hbase, hu, hstored⟩
  case isFalse hbase =>
    rw [if_neg hbase] at hstored
    exact .inl ⟨hu, hstored⟩

/-- Both conditions are written: they then have the given status. -/
theorem wp_setConditions {ready synced : String} (hw : w.Shows base.status.conditions)
    (hmem : mem.status.conditions = base.status.conditions) :
    wp Unpredictable ⊤
      (Engine.setConditions mem base status reason ready synced) (fun _ t => t.Consistent) w := by
  refine wp_bind.mpr (wp_mono ?_ (wp_setCondition .ready hw hmem))
  rintro mem' t ⟨c, new, htype, hstatus, hnew, hwritten⟩
  have hready : conditionStatus new .ready = some status := by
    rw [hnew, conditionStatus_set, if_pos htype.symm, hstatus]
  have hother : conditionStatus new .synced = conditionStatus base.status.conditions .synced := by
    rw [hnew, conditionStatus_set, if_neg (by simp [htype])]
  have hsecond : t.Shows new → mem'.status.conditions = new →
      wp Unpredictable ⊤
        (Engine.setCondition mem' base .synced status reason synced) (fun _ t => t.Consistent) t := by
    intro ht hmem'
    refine wp_mono ?_ (wp_setCondition .synced ht hmem')
    rintro mem'' u ⟨c', new', htype', hstatus', hnew', hwritten'⟩
    have hsynced : conditionStatus new' .synced = some status := by
      rw [hnew', conditionStatus_set, if_pos htype'.symm, hstatus']
    rcases hwritten' with ⟨hu, -⟩ | ⟨hbase, hu, -⟩
    · refine ⟨new', hu, ?_⟩
      rw [Agreeing, hsynced, hnew', conditionStatus_set, if_neg (by simp [htype']), hready]
    · -- the second patch has nothing to say
      refine ⟨new, hu, ?_⟩
      rw [Agreeing, hready, hother, hbase, hsynced]
  rcases hwritten with ⟨ht, hmem'⟩ | ⟨hbase, ht, hmem'⟩
  · exact hsecond ht hmem'
  · exact hsecond (hbase ▸ ht) (hmem'.trans hbase)

end Conditions

/-! ### The ends of a pass -/

section Pass

variable {e : Engine} {w : World} {obj mem base : ManagedObject}

theorem wp_succeed_consistent (hw : w.Shows base.status.conditions)
    (hmem : mem.status.conditions = base.status.conditions) (synced : Bool) :
    wp Unpredictable ⊤ (e.succeed mem base synced) (fun _ t => t.Consistent) w :=
  wp_bind.mpr (wp_setConditions hw hmem)

/-- An accepted patch of the annotation returns the stored conditions. -/
theorem unpredictable_patchObject {w' : World} {stored : ManagedObject} {conditions : List Condition}
    (h : Unpredictable (.patchObject base mem) w (.ok stored) w') (hw : w.Shows conditions) :
    stored.status.conditions = conditions := by
  obtain ⟨before, hbefore, -, rfl⟩ := hw
  rcases h with ⟨order, now, heq⟩ | ⟨⟨err, herr⟩, -⟩
  · simp only [World.handle, World.patchObject, hbefore] at heq
    cases (Prod.mk.inj heq).1
    rfl
  · cases herr

theorem wp_finalize_consistent (hw : w.Shows base.status.conditions)
    (hmem : mem.status.conditions = base.status.conditions)
    (hagree : Agreeing base.status.conditions) (specMap : Object) (synced : Bool) :
    wp Unpredictable ⊤ (e.finalize mem base specMap synced)
      (fun _ t => t.Consistent) w := by
  refine Engine.wp_finalize_of (fun _ => wp_succeed_consistent hw (by exact hmem) _) fun _ =>
    ⟨trivial, fun answer t hstep => ?_⟩
  have ht : t.Shows base.status.conditions := unpredictable_shows (by simp [Op.PatchesStatus]) hstep hw
  rcases answer with err | stored
  · exact ⟨_, ht, hagree⟩
  · exact wp_succeed_consistent ht (unpredictable_patchObject hstep hw) _

/-- The server accepted a creation, and the lookup that follows it failed, while Synced
    was not False. -/
inductive RefetchLost : List (Step operations World) → Prop where
  | intro {earlier events lookup later : List (Step operations World)} {u u' v t : World}
      {kc : Conn} {s : Spec} {body : Object} {stored : ManagedObject} {err : Err}
      (hbody : stringField body s.place.kind.keyField = some s.naturalKey)
      (hevents : ∀ step ∈ events, ∃ type reason message, step.op = .event type reason message)
      (hlookup : Exec Unpredictable (s.driver.get kc).run v lookup t (some (.error err)))
      (hstored : u.object = some stored)
      (hsynced : conditionStatus stored.status.conditions .synced ≠ some .false) :
      RefetchLost (earlier ++
        ⟨u, .admin kc ⟨.post, s.collectionEndpoint, .object body, .nothing⟩, .ok (), u'⟩ ::
          (events ++ (lookup ++ later)))

theorem RefetchLost.append {steps : Log} (h : RefetchLost steps)
    (before after : Log) : RefetchLost (before ++ (steps ++ after)) := by
  obtain @⟨earlier, events, lookup, later, u, u', v, t, kc, s, body, stored, err, hbody, hevents,
    hlookup, hstored, hsynced⟩ := h
  simp only [List.append_assoc, List.cons_append]
  rw [← List.append_assoc]
  exact .intro hbody hevents hlookup hstored hsynced

/-- The end of a pass whose lookup after the creation failed. -/
theorem wp_unfetched_consistent (hw : w.Shows obj.status.conditions) (err : Err) {log : Log}
    (hlost : conditionStatus obj.status.conditions .synced ≠ some .false →
      ∀ later, RefetchLost (log ++ later)) :
    wp Unpredictable.logged ⊤
      (Engine.setCondition obj obj .ready .false .retrying err.text)
      (fun _ t => t.1.Consistent ∨ RefetchLost t.2) (w, log) := by
  refine wp_mono ?_ (wp_trace (wp_logged (wp_setCondition .ready hw rfl) log))
  rintro mem ⟨t, log'⟩ ⟨⟨c, new, htype, hstatus, hnew, hwritten⟩, later, hlog, -⟩
  by_cases hsynced : conditionStatus obj.status.conditions .synced = some .false
  case neg => exact .inr (hlog ▸ hlost hsynced later)
  left
  have hshows : t.Shows new := by
    rcases hwritten with ⟨ht, -⟩ | ⟨hbase, ht, -⟩
    · exact ht
    · exact hbase ▸ ht
  refine ⟨new, hshows, ?_⟩
  rw [Agreeing, hnew, conditionStatus_set, conditionStatus_set, if_pos htype.symm,
    if_neg (by simp [htype]), hstatus, hsynced]

/-- All ends but one write both conditions or none. -/
theorem closing_consistent (hagree : Agreeing obj.status.conditions) :
    Closing e Unpredictable obj (fun _ _ => True) (fun s => s.1.Shows obj.status.conditions)
      (fun s => s.1.Consistent ∨ RefetchLost s.2) where
  quiet honly hs := wp_logged (wp_shows honly hs) _
  tail honly hs := by
    rcases hs with ⟨conditions, hshows, hagree⟩ | hlost
    · exact wp_mono (fun _ _ ht => .inl ⟨conditions, ht, hagree⟩) (wp_logged (wp_shows honly hshows) _)
    · refine wp_mono (fun _ t ht => ?_) (wp_trace (wp_true _ _))
      obtain ⟨-, steps, hlog, -⟩ := ht
      exact .inr (hlog ▸ hlost.append [] steps)
  silent hs := .inl ⟨_, hs, hagree⟩
  failed hs hmem := wp_mono (fun _ _ => .inl) (wp_logged (wp_setConditions hs hmem) _)
  finalized hs hmem _ :=
    wp_mono (fun _ _ => .inl) (wp_logged (wp_finalize_consistent hs hmem hagree _ _) _)
  unfetched hu hbuilds hevents hlookup ht := by
    refine wp_unfetched_consistent ht _ fun hsynced later => ?_
    obtain ⟨stored, hstored, -, hconditions⟩ := hu
    rw [List.append_assoc, List.cons_append, List.append_assoc]
    exact .intro hbuilds.stringField_key hevents hlookup hstored (hconditions ▸ hsynced)

/-- At the end of a pass the conditions agree, unless the lookup after a creation failed. -/
theorem exec_consistent {t : World} {steps : Log} {result : Except Err (Option Pass)}
    (hw : w.Consistent)
    (hexec : Exec Unpredictable e.controllerReconcile.run w steps t (some result)) :
    t.Consistent ∨ RefetchLost steps := by
  have hwp : wp Unpredictable.logged ⊤ e.controllerReconcile.run
      (fun _ t => t.1.Consistent ∨ RefetchLost t.2) (w, []) := by
    refine e.wp_controllerReconcile_of trivial (fun err t hstep result _ => ?_) fun obj t hstep => ?_
    · exact .inl ((faulty_getObject hstep.1).1 ▸ hw)
    · obtain ⟨t, log⟩ := t
      obtain ⟨rfl, hobject⟩ := faulty_getObject_ok hstep.1
      obtain ⟨conditions, ⟨stored, hstored, hlive, rfl⟩, hagree⟩ := hw
      cases hobject.symm.trans hstored
      exact (closing_consistent hagree).wp_reconcile ⟨obj, hobject, hlive, rfl⟩
  exact wp_logged_sound hwp hexec

end Pass

/-! ### Runs -/

/-- Between the passes anything may change but the status, and nobody asks for the
    deletion. -/
def World.KeepsStatus (w w' : World) : Prop :=
  w'.object.map (fun obj => (obj.deletionTimestamp, obj.status)) =
    w.object.map fun obj => (obj.deletionTimestamp, obj.status)

theorem World.KeepsStatus.consistent {w w' : World} (h : w.KeepsStatus w') (hw : w.Consistent) :
    w'.Consistent := by
  obtain ⟨conditions, ⟨stored, hstored, hlive, hconditions⟩, hagree⟩ := hw
  unfold World.KeepsStatus at h
  rw [hstored, Option.map_some, Option.map_eq_some_iff] at h
  obtain ⟨obj, hobject, hsame⟩ := h
  obtain ⟨hstamp, hstatus⟩ := Prod.mk.inj hsame
  exact ⟨conditions, ⟨obj, hobject, hstamp.trans hlive, hstatus ▸ hconditions⟩, hagree⟩

/-- **Ready and Synced do not contradict each other**, whatever the servers and the
    connections answer, as long as no lookup after a creation fails. -/
theorem conditions_agree (e : Engine) {w w' : World} {steps : List (Step operations World)}
    (hw : w.Consistent)
    (hrun : Run Unpredictable World.KeepsStatus e.controllerReconcile.run
      (fun result => result.isSome = true) w steps w')
    (hrefetch : ¬ RefetchLost steps) : w'.Consistent := by
  induction hrun with
  | start => exact hw
  | move _ hmove ih => exact hmove.consistent (ih hrefetch)
  | @pass t u steps more result _ hexec hends ih =>
    have ht : t.Consistent := ih fun hlost => hrefetch (hlost.append [] more)
    obtain ⟨outcome, rfl⟩ := Option.isSome_iff_exists.mp hends
    rcases exec_consistent ht hexec with hu | hlost
    · exact hu
    · refine absurd (hlost.append steps []) ?_
      rwa [List.append_nil]

/-- A run without creations loses no lookup. -/
theorem not_refetchLost {steps : Log}
    (h : steps.all (fun step => match step.op with
      | .admin _ request => decide (request.method ≠ .post)
      | _ => true) = true) : ¬ RefetchLost steps := by
  rintro ⟨-, -, -, -, -⟩
  simp at h

/-- A pass that finds its client as the spec wants it, and reports that. -/
theorem marked_portal_consistent :
    ∃ steps w, Run Unpredictable World.KeepsStatus (newEngine true 0).controllerReconcile.run
        (fun result => result.isSome = true)
        (.around (clientObject "portal") (clientServer ⟨[markedPortal], by decide, by decide⟩))
        steps w ∧ ¬ RefetchLost steps ∧ w.Consistent := by
  have hrun : Run Unpredictable World.KeepsStatus (newEngine true 0).controllerReconcile.run
      (fun result => result.isSome = true)
      (.around (clientObject "portal") (clientServer ⟨[markedPortal], by decide, by decide⟩)) _ _ :=
    .pass (.start _) ((exec_handle _ _).mono unpredictable_of_reliable) rfl
  exact ⟨_, _, hrun, not_refetchLost (by decide), conditions_agree (newEngine true 0)
    ⟨[], ⟨_, rfl, rfl, rfl⟩, rfl⟩ hrun (not_refetchLost (by decide))⟩

/-- A server that fails to answer once a client exists. -/
def World.handleUnread : Handler operations World
  | .admin kc request, w =>
      if request.method = .get ∧ ((w.servers kc.server).resources ⟨.client, "demo"⟩).items ≠ [] then
        (.error ⟨.other, "connection reset"⟩, w)
      else w.admin kc request
  | op, w => World.handle World.sorted 0 op w

theorem exec_handleUnread (p : Action α) (w : World) :
    p.Exec Unpredictable w (p.runSteps World.handleUnread w) (p.run World.handleUnread w).2
      (some (p.run World.handleUnread w).1) := by
  refine (p.exec_run _ w).mono fun op t answer t' h => ?_
  rcases op with _ | _ | _ | ⟨kc, request⟩ | _
  case admin =>
    have hstate : t' = (World.handleUnread (.admin kc request) t).2 :=
      (congrArg Prod.snd h).symm
    subst hstate
    change (if _ then _ else _ : _ × World).2.object = t.object
    split <;> rfl
  all_goals exact unpredictable_of_reliable _ _ _ _ ⟨World.sorted, 0, h⟩

/-- A client that was in order when its last pass ended. -/
def settledObject : ManagedObject :=
  { clientObject "portal" with
    status :=
      { conditions :=
          [⟨.ready, .true, 1, .succeeded, "Server state matches spec", 0⟩,
            ⟨.synced, .true, 1, .succeeded, "Server state matches spec", 0⟩]
        observedGeneration := 1 } }

/-- The client was deleted on the server.  The pass creates it again, its lookup fails, and
    Ready becomes False while Synced stays True. -/
theorem recreated_portal_contradicts :
    ∃ steps w obj, (World.around settledObject (clientServer ∅)).Consistent ∧
      Run Unpredictable World.KeepsStatus (newEngine true 0).controllerReconcile.run
        (fun result => result.isSome = true) (.around settledObject (clientServer ∅)) steps w ∧
      w.object = some obj ∧
      conditionStatus obj.status.conditions .ready = some .false ∧
      conditionStatus obj.status.conditions .synced = some .true := by
  have hend : ((Prog.run World.handleUnread (newEngine true 0).controllerReconcile.run
      (.around settledObject (clientServer ∅))).2.object.any fun obj =>
        decide (conditionStatus obj.status.conditions .ready = some .false ∧
          conditionStatus obj.status.conditions .synced = some .true)) = true := by decide
  obtain ⟨obj, hobject, hconditions⟩ := (Option.any_eq_true _ _).mp hend
  exact ⟨_, _, obj, ⟨_, ⟨_, rfl, rfl, rfl⟩, by decide⟩,
    .pass (.start _) (exec_handleUnread _ _) rfl, hobject, of_decide_eq_true hconditions⟩

end KeycloakOperator
