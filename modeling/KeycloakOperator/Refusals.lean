import KeycloakOperator.Generations

/-!
# Refusals

A pass refuses to work on a resource when its connection is not available, the realm is
protected, a Secret is missing, the annotation does not decode, or the resource belongs to
somebody else.  `refusals_leave_no_trace` says that a pass which reports one of these has changed
nothing: the server has accepted no write, no Secret was written, and the custom resource differs
in its conditions at most.  Neither the servers nor the connections or Secrets have to answer as
documented for that.
-/

namespace KeycloakOperator

open Prog

/-! ### Reports of a refusal -/

/-- The reasons of a refusal.  A pass over a custom resource whose annotation does not decode
    fails for no other reason. -/
def ManagedObject.Refusal (obj : ManagedObject) : Reason → Prop
  | .connectionUnavailable | .protectedRealm | .secretMissing | .alreadyExists => True
  | .failed => ∃ complaint, effectivePayload obj.spec.representation obj.lastApplied = .error complaint
  | _ => False

/-- Ready is False with the reason of a refusal. -/
def ManagedObject.Refused (obj : ManagedObject) (conditions : List Condition) : Prop :=
  ∃ c, findStatusCondition conditions .ready = some c ∧ c.status = .false ∧ obj.Refusal c.reason

/-- The status that is written reports a refusal. -/
def Op.ReportsRefusal (obj : ManagedObject) : Op → Prop
  | .patchStatus _ new => obj.Refused new.status.conditions
  | _ => False

/-- A write of a Secret, or of the server unless it is answered with a conflict. -/
def AcceptedWrite (step : Step operations World) : Prop :=
  match step with
  | ⟨_, .admin _ request, answer, _⟩ =>
      request.method ≠ .get ∧ ∀ err : Err, answer = .error err → err.kind ≠ .conflict
  | ⟨_, op, _, _⟩ => op.WritesSecret

/-- The stored custom resource has the spec, the annotation and the observed generation of `obj`. -/
def World.Retains (w : World) (obj : ManagedObject) : Prop :=
  ∃ stored, w.object = some stored ∧ stored.spec = obj.spec ∧
    stored.lastApplied = obj.lastApplied ∧
    stored.status.observedGeneration = obj.status.observedGeneration

theorem refused_set_ready {obj : ManagedObject} {status : ConditionStatus} {g now : Nat}
    {reason : Reason} {message : String} {conditions : List Condition} :
    obj.Refused (setStatusCondition ⟨.ready, status, g, reason, message, now⟩ conditions) ↔
      status = .false ∧ obj.Refusal reason := by
  obtain ⟨time, hfind⟩ :=
    findStatusCondition_set ⟨.ready, status, g, reason, message, now⟩ conditions
  unfold ManagedObject.Refused
  rw [hfind]
  simp

theorem refused_set_synced {obj : ManagedObject} {status : ConditionStatus} {g now : Nat}
    {reason : Reason} {message : String} {conditions : List Condition} :
    obj.Refused (setStatusCondition ⟨.synced, status, g, reason, message, now⟩ conditions) ↔
      obj.Refused conditions := by
  unfold ManagedObject.Refused
  rw [findStatusCondition_set_of_ne (by simp)]

/-! ### The environment -/

/-- Servers, connections and Secrets answer anything.  The Kubernetes API keeps the custom
    resource as documented, and each of its calls may fail. -/
def Unruly : Env operations World
  | .getObject, w, answer, w' => Faulty .getObject w answer w'
  | .updateObject obj, w, answer, w' => Faulty (.updateObject obj) w answer w'
  | .patchObject base obj, w, answer, w' => Faulty (.patchObject base obj) w answer w'
  | .patchStatus base obj, w, answer, w' => Faulty (.patchStatus base obj) w answer w'
  | _, w, _, w' => w'.object = w.object

section Environment

variable {w w' : World}

theorem unruly_of_reliable (op : Op) (w : World) (answer : op.Answer) (w' : World)
    (h : Reliable op w answer w') : Unruly op w answer w' := by
  rcases op
  case getObject | updateObject | patchObject | patchStatus => exact .inl h
  all_goals exact reliable_object (by simp [Op.WritesObject]) h

theorem unruly_object {op : Op} {answer : op.Answer} (hop : ¬ op.WritesObject)
    (h : Unruly op w answer w') : w'.object = w.object := by
  rcases op
  case getObject => rw [(faulty_getObject h).1]
  case updateObject | patchObject | patchStatus => exact absurd trivial hop
  all_goals exact h

/-- Only patches of the status touch the conditions. -/
theorem unruly_displays {op : Op} {answer : op.Answer} {conditions : List Condition}
    (hop : ¬ op.PatchesStatus) (h : Unruly op w answer w') (hw : w.Displays conditions) :
    w'.Displays conditions := by
  have hfaulty (h : Faulty op w answer w') : w'.Displays conditions := by
    refine faulty_elim h hw fun _ h obj hobject => ?_
    obtain ⟨stored, hstored, -, -, hstatus⟩ := reliable_writesObject h hobject
    rw [hstatus fun _ _ heq => hop (heq ▸ trivial)]
    exact hw stored hstored
  by_cases hwrites : op.WritesObject
  · rcases op <;> first | exact hwrites.elim | exact hfaulty h
  · intro obj hobject
    exact hw obj ((unruly_object hwrites h) ▸ hobject)

/-- A patch of the status changes nothing else, and its answer carries what is stored. -/
theorem unruly_patchStatus {base new : ManagedObject} {answer : Except Err ManagedObject}
    (h : Unruly (.patchStatus base new) w answer w') :
    (w' = w ∨ w' = (w.patchStatus base new).2) ∧
      ∀ stored, answer = .ok stored → w.patchStatus base new = (.ok stored, w') := by
  rcases h with ⟨_, _, heq⟩ | ⟨⟨err, rfl⟩, rfl | ⟨lost, _, _, heq⟩⟩
  · refine ⟨.inr (congrArg Prod.snd heq).symm, ?_⟩
    rintro stored rfl
    exact heq
  · exact ⟨.inl rfl, fun stored hok => by cases hok⟩
  · exact ⟨.inr (congrArg Prod.snd heq).symm, fun stored hok => by cases hok⟩

/-- A patch of the conditions alone leaves the rest as it is. -/
theorem World.Retains.patchStatus {obj new : ManagedObject} {answer : Except Err ManagedObject}
    (hw : w.Retains obj) (hnew : new.status.observedGeneration = obj.status.observedGeneration)
    (h : Unruly (.patchStatus obj new) w answer w') :
    w'.Retains obj ∧ ∀ stored, answer = .ok stored →
      stored.status.observedGeneration = obj.status.observedGeneration := by
  obtain ⟨stored, hstored, hspec, hannotation, hobserved⟩ := hw
  have hpatched : (w.patchStatus obj new).2.Retains obj ∧
      ∀ stored, (w.patchStatus obj new).1 = .ok stored →
        stored.status.observedGeneration = obj.status.observedGeneration := by
    unfold World.patchStatus
    rw [hstored]
    refine ⟨⟨_, rfl, hspec, hannotation, ?_⟩, ?_⟩
    · simp [World.patched, hnew, hobserved]
    · rintro _ ⟨⟩
      simp [World.patched, hnew, hobserved]
  obtain ⟨hstate, hanswer⟩ := unruly_patchStatus h
  refine ⟨?_, fun stored hok => hpatched.2 stored (congrArg Prod.fst (hanswer stored hok))⟩
  rcases hstate with rfl | rfl
  · exact ⟨stored, hstored, hspec, hannotation, hobserved⟩
  · exact hpatched.1

/-- The conditions in memory are those that were written. -/
theorem conditions_patched {base new stored : ManagedObject}
    (hw : w.Displays base.status.conditions)
    (h : Unruly (.patchStatus base new) w (.ok stored) w') :
    stored.status.conditions = new.status.conditions := by
  have hpatch := congrArg Prod.fst ((unruly_patchStatus h).2 stored rfl)
  unfold World.patchStatus at hpatch
  rcases hobject : w.object with _ | before
  · rw [hobject] at hpatch
    cases hpatch
  · rw [hobject] at hpatch
    cases hpatch
    have hbefore := hw before hobject
    by_cases hsame : base.status.conditions = new.status.conditions
    · simp [World.patched, hsame, hbefore]
    · simp [World.patched, hsame]

end Environment

/-! ### The states of a pass -/

section States

variable {obj : ManagedObject} {s s' : World × Log}

/-- Nothing has been reported yet. -/
structure Unreported (obj : ManagedObject) (s : World × Log) : Prop where
  displays : s.1.Displays obj.status.conditions
  silent : ∀ step ∈ s.2, ¬ step.op.PatchesStatus

/-- Nothing has been changed but conditions. -/
structure Traceless (obj : ManagedObject) (s : World × Log) : Prop where
  accepted : ∀ step ∈ s.2, ¬ AcceptedWrite step
  retains : s.1.Retains obj

/-- A refusal has been reported only if nothing else was changed. -/
def Discreet (obj : ManagedObject) (s : World × Log) : Prop :=
  (∃ step ∈ s.2, step.op.ReportsRefusal obj) → Traceless obj s

/-- No refusal has been reported. -/
def Unrefused (obj : ManagedObject) (s : World × Log) : Prop :=
  ∀ step ∈ s.2, ¬ step.op.ReportsRefusal obj

theorem Op.ReportsRefusal.patchesStatus {op : Op} (h : op.ReportsRefusal obj) : op.PatchesStatus := by
  rcases op <;> first | exact h.elim | exact trivial

theorem Unreported.unrefused (h : Unreported obj s) : Unrefused obj s :=
  fun step hstep hreports => h.silent step hstep hreports.patchesStatus

theorem Unrefused.discreet (h : Unrefused obj s) : Discreet obj s :=
  fun ⟨step, hstep, hreports⟩ => absurd hreports (h step hstep)

theorem Traceless.discreet (h : Traceless obj s) : Discreet obj s := fun _ => h

section Step

variable {op : Op} {answer : op.Answer}

theorem Unreported.step (h : Unreported obj s) (hop : ¬ op.PatchesStatus)
    (hstep : Unruly.logged op s answer s') : Unreported obj s' := by
  obtain ⟨hworld, hlog⟩ := hstep
  refine ⟨unruly_displays hop hworld h.displays, ?_⟩
  rw [hlog, List.forall_mem_append, List.forall_mem_singleton]
  exact ⟨h.silent, hop⟩

theorem Unrefused.step (h : Unrefused obj s) (hop : ¬ op.ReportsRefusal obj)
    (hstep : Unruly.logged op s answer s') : Unrefused obj s' := by
  intro step hmem
  rw [hstep.2, List.mem_append, List.mem_singleton] at hmem
  rcases hmem with hmem | rfl
  · exact h step hmem
  · exact hop

theorem Traceless.step (h : Traceless obj s) (hstep : Unruly.logged op s answer s')
    (haccepts : ¬ AcceptedWrite ⟨s.1, op, answer, s'.1⟩) (hretains : s'.1.Retains obj) :
    Traceless obj s' := by
  refine ⟨?_, hretains⟩
  rw [hstep.2, List.forall_mem_append, List.forall_mem_singleton]
  exact ⟨h.accepted, haccepts⟩

/-- The operations that can leave no trace: reads, and reports other than the status. -/
def Op.Harmless : Op → Prop
  | .patchStatus _ _ => False
  | op => op.Reads ∨ op.Reports

theorem Op.Harmless.not_patchesStatus (h : op.Harmless) : ¬ op.PatchesStatus := by
  rcases op <;> first | exact h.elim | exact fun h => h

theorem Traceless.harmless (h : Traceless obj s) (hop : op.Harmless)
    (hstep : Unruly.logged op s answer s') : Traceless obj s' := by
  have hobject : s'.1.object = s.1.object := by
    refine unruly_object ?_ hstep.1
    rcases op <;> first | exact fun h => h | exact fun _ => hop.elim id id | exact hop.elim
  refine h.step hstep ?_ ?_
  · rcases op
    case admin => exact fun haccepts => haccepts.1 (hop.elim id False.elim)
    case createSecret | updateSecret => exact fun _ => hop.elim id id
    all_goals exact fun h => h
  · obtain ⟨stored, hstored, hrest⟩ := h.retains
    exact ⟨stored, hobject.trans hstored, hrest⟩

end Step

theorem Op.Reads.harmless {op : Op} (h : op.Reads) : op.Harmless := by
  rcases op <;> first | exact h.elim | exact .inl h

end States

/-! ### The stations of a pass -/

section Stations

variable {e : Engine} {obj mem : ManagedObject} {s : World × Log} {kc : Conn}

/-- The pass never shows a refusal after a change. -/
abbrev Discreetly (obj : ManagedObject) (p : Action α) (post : α → World × Log → Prop)
    (s : World × Log) : Prop :=
  wp Unruly.logged (fun _ => Discreet obj) p post s

theorem wp_unreported {p : Action α} (h : Only (fun op : Op => ¬ op.PatchesStatus) p)
    (hs : Unreported obj s) : Discreetly obj p (fun _ => Unreported obj) s := by
  refine wp_guard_mono (fun op t ht => ht.2.unrefused.discreet)
    (wp_of_only (Unreported obj) ?_ h hs)
  exact fun op t answer t' hop ht hstep => ht.step hop hstep

theorem wp_untouched {p : Action α} (h : Only Op.Harmless p) (hs : Unreported obj s)
    (htraceless : Traceless obj s) :
    Discreetly obj p (fun _ t => Unreported obj t ∧ Traceless obj t) s := by
  refine wp_guard_mono (fun op t ht => ht.2.2.discreet)
    (wp_of_only (fun t => Unreported obj t ∧ Traceless obj t) ?_ h ⟨hs, htraceless⟩)
  exact fun op t answer t' hop ht hstep =>
    ⟨ht.1.step hop.not_patchesStatus hstep, ht.2.harmless hop hstep⟩

/-- What follows the last report. -/
theorem wp_discreet {p : Action α} (h : Only Op.Harmless p) (hs : Discreet obj s) :
    Discreetly obj p (fun _ => Discreet obj) s := by
  refine wp_guard_mono (fun op t ht => ht.2) (wp_of_only (Discreet obj) ?_ h hs)
  rintro op t answer t' hop ht hstep ⟨step, hmem, hreports⟩
  rw [hstep.2, List.mem_append, List.mem_singleton] at hmem
  rcases hmem with hmem | rfl
  · exact (ht ⟨step, hmem, hreports⟩).harmless hop hstep
  · exact absurd hreports.patchesStatus hop.not_patchesStatus

theorem only_record_harmless (type : EventType) (reason message : String) :
    Only Op.Harmless (e.record type reason message) := by
  refine only_mono ?_ (only_record_event type reason message)
  rintro op ⟨_, _, _, rfl⟩
  exact .inr trivial

/-- One condition of a refusal. -/
theorem wp_setCondition_refused {type : ConditionType} {status : ConditionStatus} {reason : Reason}
    {message : String} (hs : Traceless obj s)
    (hmem : mem.status.observedGeneration = obj.status.observedGeneration) :
    Discreetly obj (Engine.setCondition mem obj type status reason message)
      (fun mem' t => Traceless obj t ∧
        mem'.status.observedGeneration = obj.status.observedGeneration) s := by
  refine ⟨hs.discreet, fun now t hnow => ?_⟩
  have ht : Traceless obj t := hs.harmless (show Op.Harmless .now from .inr trivial) hnow
  refine ⟨ht.discreet, fun answer u hpatch => ?_⟩
  obtain ⟨hretains, hload⟩ := World.Retains.patchStatus ht.retains (by exact hmem) hpatch.1
  have hu : Traceless obj u := ht.step hpatch (fun h => h) hretains
  rcases answer with err | stored
  · exact ⟨hu, hmem⟩
  · exact ⟨hu, hload stored rfl⟩

/-- One condition of another report. -/
theorem wp_setCondition_unrefused {type : ConditionType} {status : ConditionStatus}
    {reason : Reason} {message : String} (hs : Unrefused obj s)
    (hcondition : ∀ now, ¬ obj.Refused (setStatusCondition
      ⟨type, status, mem.generation, reason, message, now⟩ mem.status.conditions)) :
    Discreetly obj (Engine.setCondition mem obj type status reason message)
      (fun mem' u => Unrefused obj u ∧ (s.1.Displays obj.status.conditions →
        ∃ now, mem'.status.conditions = setStatusCondition
          ⟨type, status, mem.generation, reason, message, now⟩ mem.status.conditions)) s := by
  refine ⟨hs.discreet, fun now t hnow => ?_⟩
  have ht : Unrefused obj t := hs.step (show ¬ Op.ReportsRefusal obj .now from fun h => h) hnow
  refine ⟨ht.discreet, fun answer u hpatch => ?_⟩
  have hu : Unrefused obj u := ht.step (by exact hcondition now) hpatch
  rcases answer with err | stored
  · exact ⟨hu, fun _ => ⟨now, rfl⟩⟩
  · refine ⟨hu, fun hdisplays => ⟨now, ?_⟩⟩
    have hdisplays' : t.1.Displays obj.status.conditions :=
      unruly_displays (show ¬ Op.PatchesStatus .now from fun h => h) hnow.1 hdisplays
    exact conditions_patched hdisplays' hpatch.1

/-- Both conditions are written, as a refusal only where nothing was changed. -/
theorem wp_setConditions_discreet {status : ConditionStatus} {reason : Reason}
    {ready synced : String} (hs : Unreported obj s)
    (hrefusal : status = .false → obj.Refusal reason → Traceless obj s ∧
      mem.status.observedGeneration = obj.status.observedGeneration) :
    Discreetly obj (Engine.setConditions mem obj status reason ready synced)
      (fun _ => Discreet obj) s := by
  by_cases hrefused : status = .false ∧ obj.Refusal reason
  case pos =>
    obtain ⟨htraceless, hobserved⟩ := hrefusal hrefused.1 hrefused.2
    refine wp_bind.mpr (wp_mono ?_ (wp_setCondition_refused htraceless hobserved))
    rintro mem' t ⟨ht, hmem'⟩
    exact wp_mono (fun _ u hu => hu.1.discreet) (wp_setCondition_refused ht hmem')
  case neg =>
    refine wp_bind.mpr (wp_mono ?_ (wp_setCondition_unrefused hs.unrefused
      fun now => refused_set_ready.not.mpr hrefused))
    rintro mem' t ⟨ht, hmem'⟩
    obtain ⟨now, hconditions⟩ := hmem' hs.displays
    refine wp_mono (fun _ u hu => hu.1.discreet) (wp_setCondition_unrefused ht fun now' => ?_)
    rw [refused_set_synced, hconditions, refused_set_ready]
    exact hrefused

/-! ### The pass -/

theorem wp_refuse_discreet {reason : Reason} {message : String} {requeueAfter : Nat}
    (hs : Unreported obj s)
    (hrefusal : obj.Refusal reason → Traceless obj s ∧
      mem.status.observedGeneration = obj.status.observedGeneration) :
    Discreetly obj (e.refuse mem obj reason message requeueAfter) (fun _ => Discreet obj) s := by
  exact Engine.wp_refuse_of (wp_mono (fun _ _ ht => ⟨ht, wp_discreet (only_record_harmless _ _ _) ht⟩)
    (wp_setConditions_discreet hs fun _ => hrefusal))

theorem wp_retry_discreet (hs : Unreported obj s) (err : Err) (synced : String) :
    Discreetly obj (Engine.retry obj obj err synced) (fun _ => Discreet obj) s :=
  wp_bind.mpr (wp_setConditions_discreet hs fun _ h => h.elim)

theorem wp_succeed_discreet (hs : Unreported obj s) (synced : Bool) :
    Discreetly obj (e.succeed mem obj synced) (fun _ => Discreet obj) s :=
  wp_bind.mpr (wp_setConditions_discreet hs fun h => by cases h)

theorem wp_finalize_discreet (hs : Unreported obj s) (specMap : Object) (synced : Bool) :
    Discreetly obj (e.finalize mem obj specMap synced) (fun _ => Discreet obj) s := by
  refine Engine.wp_finalize_of (fun _ => wp_succeed_discreet hs _) fun _ =>
    ⟨hs.unrefused.discreet, fun answer t hpatch => ?_⟩
  have ht : Unreported obj t := hs.step (by exact fun h => h) hpatch
  rcases answer with err | stored
  · exact ht.unrefused.discreet
  · exact wp_succeed_discreet ht _

/-- From `PostApply` on, only failures are reported. -/
theorem wp_settle_discreet (hs : Unreported obj s) {remote effective : Object}
    (heffective : effectivePayload obj.spec.representation obj.lastApplied = .ok effective)
    {next : ManagedObject → Bool → Action Pass} (hnext : e.Concludes obj next) :
    Discreetly obj (e.settle obj.spec.driver kc obj obj remote next) (fun _ => Discreet obj) s := by
  refine Engine.wp_settle_of (wp_mono ?_ (wp_unreported (only_postApply_status remote) hs))
  rintro ⟨mem, applied⟩ t ht
  rcases applied with err | changed
  · refine wp_refuse_discreet ht ?_
    rintro ⟨complaint, hcomplaint⟩
    cases hcomplaint.symm.trans heffective
  · exact hnext.wp (fun _ => wp_finalize_discreet ht _ _) fun _ => ⟨ht.unrefused.discreet,
      fun _ u hstep => wp_finalize_discreet (ht.step (by exact fun h => h) hstep) _ _⟩

/-- A write of the server: a conflict is no trace. -/
theorem wp_submit_discreet {method : Method} {endpoint : Endpoint} {body : Body}
    (hs : Unreported obj s) (htraceless : Traceless obj s) :
    Discreetly obj (kc.submit method endpoint body).run (fun r t => Unreported obj t ∧
      ∀ err, r = .error err → err.kind = .conflict → Traceless obj t) s := by
  refine ⟨hs.unrefused.discreet, fun answer t hstep => ?_⟩
  refine ⟨hs.step (by exact fun h => h) hstep, ?_⟩
  rintro err rfl hkind
  refine htraceless.step hstep (fun haccepts => haccepts.2 err rfl hkind) ?_
  obtain ⟨stored, hstored, hrest⟩ := htraceless.retains
  exact ⟨stored, (unruly_object (by exact fun h => h) hstep.1).trans hstored, hrest⟩

theorem wp_correctDrift_discreet (hs : Unreported obj s) (htraceless : Traceless obj s)
    (remote payload : Object) :
    Discreetly obj (e.correctDrift obj.spec.driver kc obj remote payload).run
      (fun r t => Unreported obj t ∧
        ∀ err, r = .error err → err.kind = .conflict → Traceless obj t) s := by
  have hnote : Only Op.Harmless (perform (.driftCorrected obj.spec.kind) : Action Unit) :=
    ⟨.inr trivial, fun _ => trivial⟩
  refine wp_run_bind.mpr (wp_run_lift.mpr
    (wp_mono (fun _ t ht => ?_) (wp_untouched hnote hs htraceless)))
  dsimp only
  rw [driver_update]
  refine wp_run_bind.mpr (wp_mono ?_ (wp_submit_discreet ht.1 ht.2))
  rintro (err | _) u ⟨hu, hconflict⟩
  · exact ⟨hu, hconflict⟩
  · refine wp_run_lift.mpr (wp_mono (fun _ v hv => ?_)
      (wp_unreported (only_record_status _ _ _) hu))
    exact ⟨hv, fun err herr => by cases herr⟩

theorem stations_discreet :
    Stations e Unruly.logged (fun _ => Discreet obj) kc obj
      (fun s => Unreported obj s ∧ Traceless obj s) (fun s => Unreported obj s ∧ Traceless obj s)
      (fun _ s => Unreported obj s ∧ Traceless obj s)
      (fun _ _ s => Unreported obj s ∧
        ∃ effective, effectivePayload obj.spec.representation obj.lastApplied = .ok effective)
      (fun _ => Discreet obj) := by
  -- a conflict is a refusal, and left no trace
  have hfailed : ∀ {t : World × Log} (err : Err), Unreported obj t →
      (err.kind = .conflict → Traceless obj t) →
      Discreetly obj (e.notCreated obj err) (fun _ => Discreet obj) t ∧
        Discreetly obj (e.notUpdated obj err) (fun _ => Discreet obj) t := by
    intro t err ht hconflict
    unfold Engine.notCreated Engine.notUpdated
    split
    case isTrue hkind =>
      exact ⟨wp_refuse_discreet ht fun _ => ⟨hconflict hkind, rfl⟩,
        wp_refuse_discreet ht fun _ => ⟨hconflict hkind, rfl⟩⟩
    case isFalse => exact ⟨wp_retry_discreet ht _ _, wp_retry_discreet ht _ _⟩
  constructor
  case declined => exact fun _ hs => wp_refuse_discreet hs.1 fun _ => ⟨hs.2, rfl⟩
  case looked =>
    refine fun _ hs => wp_mono ?_ (wp_untouched (only_get (fun _ h => h.harmless) obj.spec kc) hs.1 hs.2)
    rintro (err | remote) t ht
    · exact ⟨fun _ => ht, fun _ => wp_retry_discreet ht.1 _ _⟩
    · exact ht
  case rejected => exact fun _ _ hs => wp_refuse_discreet hs.1 fun _ => ⟨hs.2, rfl⟩
  case adopted => exact fun hs => wp_untouched (only_record_harmless _ _ _) hs.1 hs.2
  case enforced =>
    intro effective remote adopting s _ heffective _ _ hs
    refine wp_mono ?_ (wp_untouched
      (only_preparePayload (fun _ h => h.harmless) obj.spec obj _) hs.1 hs.2)
    rintro (err | payload) t ht
    · exact wp_refuse_discreet ht.1 fun _ => ⟨ht.2, rfl⟩
    refine ⟨fun _ => ⟨ht.1, effective, heffective⟩, fun _ => wp_mono ?_
      (wp_correctDrift_discreet ht.1 ht.2 _ _)⟩
    rintro (err | _) u ⟨hu, hconflict⟩
    · exact (hfailed err hu (hconflict err rfl)).2
    · exact ⟨hu, effective, heffective⟩
  case created =>
    intro effective s _ heffective hs
    refine wp_mono ?_ (wp_untouched
      (only_preparePayload (fun _ h => h.harmless) obj.spec obj _) hs.1 hs.2)
    rintro (err | payload) t ht
    · exact wp_refuse_discreet ht.1 fun _ => ⟨ht.2, rfl⟩
    dsimp only
    rw [driver_create]
    refine wp_mono ?_ (wp_submit_discreet ht.1 ht.2)
    rintro (err | _) u ⟨hu, hconflict⟩
    · exact (hfailed err hu (hconflict err rfl)).1
    refine wp_mono (fun _ v hv => wp_mono ?_ (wp_unreported (only_get_status obj.spec) hv))
      (wp_unreported (only_record_status _ _ _) hu)
    rintro (err | remote) x hx
    · -- the only end that writes Ready alone
      refine wp_bind.mpr (wp_mono (fun _ y hy => hy.1.discreet)
        (wp_setCondition_unrefused hx.unrefused fun now => ?_))
      rw [refused_set_ready]
      exact fun h => h.2
    · exact ⟨hx, effective, heffective⟩
  case settled =>
    rintro remote next s hnext ⟨hs, effective, heffective⟩
    exact wp_settle_discreet hs heffective hnext

theorem wp_reconcile_discreet (hs : Unreported obj s) (htraceless : Traceless obj s) :
    Discreetly obj (e.reconcile obj) (fun _ => Discreet obj) s := by
  have hend : ∀ {p : Action Pass} {t : World × Log},
      Only (fun op : Op => ¬ op.PatchesStatus) p → Unreported obj t →
      Discreetly obj p (fun _ => Discreet obj) t :=
    fun honly ht => wp_mono (fun _ _ hu => hu.unrefused.discreet) (wp_unreported honly ht)
  refine Engine.wp_reconcile_of (fun _ => Discreet obj)
    (fun _ _ ht => wp_discreet (p := perform (.reconciled _ _)) ⟨.inr trivial, fun _ => trivial⟩ ht)
    (fun _ => hend (only_updateObject_status _ _) hs) fun _ => wp_mono ?_ (wp_untouched
      (p := perform (.connect obj.ns obj.spec.connectionName)) ⟨.inr trivial, fun _ => trivial⟩ hs
      htraceless)
  rintro (message | kc) t ht
  · exact wp_bind.mpr (wp_setConditions_discreet ht.1 fun _ _ => ⟨ht.2, rfl⟩)
  · exact ⟨fun _ => hend only_handleDeletion_status ht.1, fun _ _ =>
      hend (only_updateObject_status _ _) ht.1, fun _ _ => stations_discreet.wp_apply ht⟩

end Stations

/-- **Refusals leave no trace.**  If a pass reports Ready as False because the connection is not
    available, the realm is protected, a Secret is missing, the resource exists or the annotation
    does not decode, then every write it sent to the server was answered with a conflict, it wrote
    no Secret, and the custom resource keeps its spec, its annotation and the observed generation.
    That holds wherever the pass is cut off. -/
theorem refusals_leave_no_trace (e : Engine) {w t : World} {obj : ManagedObject}
    {steps : List (Step operations World)} {result : Option (Except Err (Option Pass))}
    (hobject : w.object = some obj)
    (hexec : Exec Unruly e.controllerReconcile.run w steps t result)
    (hrefused : ∃ step ∈ steps, step.op.ReportsRefusal obj) :
    (∀ step ∈ steps, ¬ AcceptedWrite step) ∧ t.Retains obj := by
  have hdisplays : w.Displays obj.status.conditions := by
    intro stored hstored
    rw [← Option.some.inj (hobject.symm.trans hstored)]
  have hstart : Unreported obj (w, []) := ⟨hdisplays, fun step hstep => by cases hstep⟩
  have hclean : Traceless obj (w, []) :=
    ⟨fun step hstep => (by cases hstep), obj, hobject, rfl, rfl, rfl⟩
  have hpass : Discreetly obj e.controllerReconcile.run (fun _ => Discreet obj) (w, []) := by
    have hunreported : ∀ {answer u}, Unruly.logged .getObject (w, []) answer u →
        Unreported obj u := fun hread => hstart.step (by exact fun h => h) hread
    refine e.wp_controllerReconcile_of hclean.discreet
      (fun err u hread _ _ => (hunreported hread).unrefused.discreet) fun read u hread => ?_
    obtain ⟨hstate, hstored⟩ := faulty_getObject_ok hread.1
    obtain rfl : read = obj := Option.some.inj (hstored.symm.trans hobject)
    have hretains : u.1.Retains read := by
      rw [hstate]
      exact hclean.retains
    exact wp_reconcile_discreet (hunreported hread) (hclean.step hread (fun h => h) hretains)
  obtain ⟨more, hmore⟩ := hexec.logged []
  have hdiscreet : Discreet obj (t, steps) :=
    wp_invariant (fun _ _ h => h) (fun _ _ h => h) hpass hmore
  exact ⟨(hdiscreet hrefused).accepted, (hdiscreet hrefused).retains⟩

/-- A client whose secret is to be taken from a Secret that does not exist. -/
def secretlessPortal : ManagedObject :=
  { clientObject "portal" with
    spec := .client { keycloakRef := "main", realm := "demo", clientId := "portal"
                      secretRef := some { name := "portal-credentials" }
                      fields := ⟨∅, Fields.typed_empty _⟩ } }

def secretlessWorld : World :=
  .around secretlessPortal
    (clientServer ⟨[markedPortal], Collection.nodup_ids_singleton _,
      Collection.nodup_keys_singleton _⟩)

/-- The status patch of a refusal over a missing Secret. -/
def Op.reportsMissingSecret : Op → Bool
  | .patchStatus _ new => (findStatusCondition new.status.conditions .ready).any
      fun c => decide (c.status = .false ∧ c.reason = .secretMissing)
  | _ => false

/-- The pass over it reports the missing Secret. -/
theorem secretless_portal_untouched :
    ∃ steps t result, Exec Unruly (newEngine true 0).controllerReconcile.run secretlessWorld steps t
        result ∧
      (∃ step ∈ steps, step.op.ReportsRefusal secretlessPortal) ∧
      (∀ step ∈ steps, ¬ AcceptedWrite step) ∧ t.Retains secretlessPortal := by
  have hexec := (exec_handle (newEngine true 0).controllerReconcile.run secretlessWorld).mono
    unruly_of_reliable
  have hreported : ((newEngine true 0).controllerReconcile.run.runSteps
      (World.handle World.sorted 0) secretlessWorld).any (fun step => step.op.reportsMissingSecret)
        = true := by decide +kernel
  have hrefused : ∃ step ∈ (newEngine true 0).controllerReconcile.run.runSteps
      (World.handle World.sorted 0) secretlessWorld, step.op.ReportsRefusal secretlessPortal := by
    obtain ⟨step, hstep, hmatch⟩ := List.any_eq_true.mp hreported
    refine ⟨step, hstep, ?_⟩
    rcases hop : step.op <;> rw [hop] at hmatch <;> try cases hmatch
    obtain ⟨c, hc, hdecided⟩ := (Option.any_eq_true _ _).mp hmatch
    obtain ⟨hstatus, hreason⟩ := of_decide_eq_true hdecided
    exact ⟨c, hc, hstatus, hreason ▸ trivial⟩
  exact ⟨_, _, _, hexec, hrefused, refusals_leave_no_trace _ rfl hexec hrefused⟩

end KeycloakOperator
