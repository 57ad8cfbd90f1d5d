import KeycloakOperator.Phases

/-!
# The outcome that a pass is counted under

A pass is counted once, in a deferred function, as `terminal` if it leaves Ready at False and as
`success` otherwise.  The third outcome, `error`, stands for the passes that return an error.  It is
never counted: such a pass goes under what its conditions say, those that it has set itself or those
that it has found.
-/

namespace KeycloakOperator

open Prog

variable {σ : Type}

/-- The reconciliation that the operation counts. -/
def Op.counted? : Op → Option (Kind × Outcome)
  | .reconciled kind outcome => some (kind, outcome)
  | _ => none

def counted (steps : List (Step operations σ)) : List (Kind × Outcome) :=
  steps.filterMap fun step => step.op.counted?

/-- Ready is False. -/
def ManagedObject.readyFalse (obj : ManagedObject) : Bool :=
  (findStatusCondition obj.status.conditions .ready).any fun condition => condition.status = .false

/-- The outcome that a pass had. -/
def Pass.outcome (pass : Pass) : Outcome :=
  if pass.err.isSome then .error
  else if pass.obj.readyFalse then .terminal
  else .success

/-! ### What is counted -/

theorem Engine.outcome_eq (obj : ManagedObject) :
    Engine.outcome obj = if obj.readyFalse then .terminal else .success := by
  unfold Engine.outcome ManagedObject.readyFalse
  cases findStatusCondition obj.status.conditions .ready with
  | none => rfl
  | some condition => simp

theorem Pass.outcome_eq_iff (pass : Pass) :
    Engine.outcome pass.obj = pass.outcome ↔ pass.err = none := by
  rw [Engine.outcome_eq, Pass.outcome]
  cases pass.err with
  | none => simp
  | some err =>
    cases pass.obj.readyFalse <;> simp

theorem only_uncounted (e : Engine) (obj : ManagedObject) :
    Only (fun op : Op => op.counted? = none) (e.reconcileWith obj.spec.driver obj) := by
  have hreports : ∀ op, Op.Remarks op → op.counted? = none := by
    intro op hop
    rcases op <;> first | rfl | exact hop.elim
  have hreads : ∀ op, Op.Reads op → op.counted? = none := by
    intro op hop
    rcases op <;> first | rfl | exact hop.elim
  have hsecrets : ∀ op, Op.WritesSecret op → op.counted? = none := by
    intro op hop
    rcases op <;> first | rfl | exact hop.elim
  refine e.only_reconcileWith hreports (fun _ => rfl) (fun _ => rfl) ?_ ?_
  · exact fun _ _ kc => only_delete hreads fun _ => rfl
  · intro _ _ kc
    refine e.only_apply hreads hsecrets hreports (fun _ _ => rfl) (fun _ _ => rfl)
      (fun _ _ _ _ => rfl) ?_
    rintro id op ⟨_, _, _, rfl, -⟩
    rfl

/-- A pass is counted once, at its end. -/
theorem counted_reconcile {env : Env operations σ} {e : Engine} {obj : ManagedObject} {s t : σ}
    {steps : List (Step operations σ)} {pass : Pass}
    (h : Exec env (e.reconcile obj) s steps t (some pass)) :
    counted steps = [(obj.spec.kind, Engine.outcome pass.obj)] := by
  rcases h.bind_inv with ⟨hcut, -⟩ | ⟨pass', u, first, last, rfl, hfirst, hlast⟩
  · cases hcut
  obtain ⟨_, v, rest, -, rfl, hrest⟩ := hlast.call_returned
  cases hrest
  have hnone : counted first = [] :=
    List.filterMap_eq_nil_iff.mpr (hfirst.only (only_uncounted e obj))
  rw [counted, List.filterMap_append, ← counted, hnone]
  rfl

/-! ### Calls that a pass does not get over -/

/-- After `before`, a call fails in a way that the engine has no answer to.  A resource that is not
    found is created, or is gone already; a conflict is reported. -/
inductive Fatal (s : Spec) (before : List (Step operations σ)) : List (Step operations σ) → Prop where
  | update {u u' : σ} (obj : ManagedObject) (err : Err) :
      Fatal s before [⟨u, .updateObject obj, .error err, u'⟩]
  | patch {u u' : σ} (base obj : ManagedObject) (err : Err) :
      Fatal s before [⟨u, .patchObject base obj, .error err, u'⟩]
  | lookup {kc : Conn} {steps : List (Step operations σ)} {err : Err}
      (h : Ran (s.driver.get kc) steps (.error err)) (hkind : err.kind ≠ .notFound) :
      Fatal s before steps
  /-- what has just been created cannot be looked up -/
  | vanished {kc : Conn} {payload : Object} {first created rest steps : List (Step operations σ)}
      {err : Err} (hbefore : before = first ++ created ++ rest)
      (hcreated : Ran (s.driver.create kc payload) created (.ok ()))
      (h : Ran (s.driver.get kc) steps (.error err)) : Fatal s before steps
  | creation {kc : Conn} {payload : Object} {steps : List (Step operations σ)} {err : Err}
      (h : Ran (s.driver.create kc payload) steps (.error err)) (hkind : err.kind ≠ .conflict) :
      Fatal s before steps
  | revision {kc : Conn} {id : String} {payload : Object} {steps : List (Step operations σ)}
      {err : Err} (h : Ran (s.driver.update kc id payload) steps (.error err))
      (hkind : err.kind ≠ .conflict) : Fatal s before steps
  | deletion {kc : Conn} {steps : List (Step operations σ)} {err : Err}
      (h : Ran (s.driver.delete kc) steps (.error err)) (hkind : err.kind ≠ .notFound) :
      Fatal s before steps

/-- Some call of the log fails so. -/
def Disturbed (s : Spec) (log : List (Step operations σ)) : Prop :=
  ∃ before steps after, log = before ++ steps ++ after ∧ Fatal s before steps

theorem Disturbed.append {s : Spec} {log : List (Step operations σ)} (h : Disturbed s log)
    (more : List (Step operations σ)) : Disturbed s (log ++ more) := by
  obtain ⟨before, steps, after, rfl, hfatal⟩ := h
  exact ⟨before, steps, after ++ more, by simp, hfatal⟩

theorem Fatal.disturbed {s : Spec} {before steps : List (Step operations σ)}
    (h : Fatal s before steps) : Disturbed s (before ++ steps) :=
  ⟨before, steps, [], by simp, h⟩

/-! ### Errors that a pass returns -/

/-- The pass returns an error only if some call was fatal. -/
def Accounted (s : Spec) (pass : Pass) (t : σ × List (Step operations σ)) : Prop :=
  pass.err ≠ none → Disturbed s t.2

section Accounted

variable {env : Env operations σ} {e : Engine} {obj : ManagedObject} {kc : Conn}
  {s : σ × List (Step operations σ)} {p : Action Pass}

theorem accounted_of_yields {spec : Spec} (h : Yields (fun pass => pass.err = none) p) :
    wp env.logged ⊤ p (Accounted spec) s :=
  wp_mono (fun _ _ hnone herr => absurd hnone herr) (wp_of_yields h s)

theorem accounted_refuse {spec : Spec} (mem base : ManagedObject) (reason : Reason)
    (message : String) (requeueAfter : Nat) :
    wp env.logged ⊤ (e.refuse mem base reason message requeueAfter)
      (Accounted spec) s :=
  accounted_of_yields (yields_bind fun _ => rfl)

/-- Once a call was fatal, nothing that follows changes that. -/
theorem Disturbed.accounted {spec : Spec} (h : Disturbed spec s.2) :
    wp env.logged ⊤ p (Accounted spec) s := by
  refine wp_mono ?_ (wp_trace (wp_true p s))
  rintro pass t ⟨-, steps, hlog, -⟩ -
  rw [hlog]
  exact h.append steps

/-- The log after a step, or after a call, that was fatal. -/
theorem Fatal.accounted {spec : Spec} {steps : List (Step operations σ)}
    {t : σ × List (Step operations σ)} (h : Fatal spec s.2 steps) (hlog : t.2 = s.2 ++ steps) :
    wp env.logged ⊤ p (Accounted spec) t :=
  Disturbed.accounted (hlog ▸ h.disturbed)

theorem accounted_updateObject {spec : Spec} (mem : ManagedObject) (requeueAfter : Nat) :
    wp env.logged ⊤ (Engine.updateObject mem requeueAfter) (Accounted spec) s := by
  refine ⟨trivial, fun answer t hstep => ?_⟩
  rcases answer with err | stored
  · exact Fatal.accounted (.update mem err) hstep.2
  · exact fun herr => absurd rfl herr

theorem accounted_finalize {spec : Spec} (mem base : ManagedObject) (specMap : Object)
    (synced : Bool) :
    wp env.logged ⊤ (e.finalize mem base specMap synced) (Accounted spec) s := by
  have hsucceed : ∀ mem, Yields (fun pass => pass.err = none) (e.succeed mem base synced) :=
    fun mem => yields_bind fun _ => rfl
  refine Engine.wp_finalize_of (fun _ => accounted_of_yields (hsucceed _)) fun _ =>
    ⟨trivial, fun answer t hstep => ?_⟩
  rcases answer with err | stored
  · exact fun _ => hstep.2 ▸ (Fatal.patch base _ err).disturbed
  · exact accounted_of_yields (hsucceed _)

/-- A correction of drift that fails is an update that fails. -/
theorem fatal_correctDrift {log : List (Step operations σ)} {u t : σ}
    {steps : List (Step operations σ)} {remote payload : Object} {err : Err}
    (hkind : err.kind ≠ .conflict)
    (h : Exec env (e.correctDrift obj.spec.driver kc obj remote payload).run u steps t
      (some (.error err))) : Disturbed obj.spec (log ++ steps) := by
  unfold Engine.correctDrift at h
  obtain ⟨_, _, hfirst⟩ | ⟨_, v, first, rest, rfl, -, hrest⟩ := h.run_bind_inv
  · obtain ⟨_, _, _, -, -, hnone⟩ := Exec.call_returned hfirst
    cases hnone
  rcases hrest.run_bind_inv with ⟨_, heq, hupdate⟩ | ⟨_, v', update, record, rfl, -, hrecord⟩
  · cases heq
    exact ⟨log ++ first, rest, [], by simp, .revision (ran_of_exec hupdate) hkind⟩
  · -- an event is never refused
    obtain ⟨_, _, _, _, _, -, hnone⟩ := (Exec.bind_inv hrecord).resolve_left (by simp)
    cases hnone

theorem stations_accounted :
    Stations e env.logged (fun _ _ => True) kc obj (fun _ => True) (fun _ => True)
      (fun _ _ => True) (fun _ _ _ => True) (Accounted obj.spec) := by
  constructor
  case declined => exact fun _ _ => accounted_refuse _ _ _ _ _
  case looked =>
    intro s _ _
    refine wp_mono ?_ (wp_trace (wp_true _ s))
    rintro (err | remote) t ⟨-, steps, hlog, hexec⟩
    · exact ⟨fun _ => trivial, fun hkind => Fatal.accounted (.lookup (ran_of_exec hexec) hkind) hlog⟩
    · trivial
  case rejected => exact fun _ _ _ => accounted_refuse _ _ _ _ _
  case adopted => exact fun _ => wp_true _ _
  case enforced =>
    intro effective remote adopting s _ _ _ _ _
    refine wp_mono ?_ (wp_true _ s)
    rintro (err | payload) t -
    · exact accounted_refuse _ _ _ _ _
    refine ⟨fun _ => trivial, fun _ => wp_mono ?_ (wp_trace (wp_true _ t))⟩
    rintro (err | _) u ⟨-, steps, hlog, hexec⟩
    · by_cases hkind : err.kind = .conflict
      · dsimp only
        rw [Engine.notUpdated_conflict hkind]
        exact accounted_refuse _ _ _ _ _
      · exact Disturbed.accounted (hlog ▸ fatal_correctDrift hkind hexec)
    · trivial
  case created =>
    intro effective s _ _ _
    refine wp_mono ?_ (wp_true _ s)
    rintro (err | payload) t -
    · exact accounted_refuse _ _ _ _ _
    refine wp_mono ?_ (wp_trace (wp_true _ t))
    rintro (err | _) u ⟨-, steps, hlog, hcreate⟩
    · by_cases hkind : err.kind = .conflict
      · dsimp only
        rw [Engine.notCreated_conflict hkind]
        exact accounted_refuse _ _ _ _ _
      · exact Fatal.accounted (.creation (ran_of_exec hcreate) hkind) hlog
    refine wp_mono ?_ (wp_trace (wp_true _ u))
    rintro _ v ⟨-, record, hrecord, -⟩
    refine wp_mono ?_ (wp_trace (wp_true _ v))
    rintro (err | remote) x ⟨-, lookup, hlookup, hexec⟩
    · exact Fatal.accounted (.vanished (hrecord.trans (congrArg (· ++ record) hlog))
        (ran_of_exec hcreate) (ran_of_exec hexec)) hlookup
    · trivial
  case settled =>
    intro remote next s hnext _
    refine Engine.wp_settle_of (wp_mono ?_ (wp_true _ s))
    rintro ⟨mem, err | changed⟩ t -
    · exact accounted_refuse _ _ _ _ _
    · exact hnext.wp (fun _ => accounted_finalize _ _ _ _) fun _ =>
        wp_mono (fun _ _ _ => accounted_finalize _ _ _ _) (wp_true _ t)

theorem accounted_handleDeletion :
    wp env.logged ⊤ (e.handleDeletion obj.spec.driver kc obj)
      (Accounted obj.spec) s := by
  refine Engine.wp_handleDeletion_of (fun _ => accounted_updateObject _ _) fun _ =>
    wp_mono ?_ (wp_trace (wp_true _ s))
  rintro result t ⟨-, steps, hlog, hexec⟩
  refine ⟨?_, fun _ => wp_mono (fun _ _ _ => accounted_updateObject _ _) (wp_true _ t)⟩
  rintro err rfl hkind -
  rw [hlog]
  exact (Fatal.deletion (ran_of_exec hexec) hkind).disturbed

/-- A pass returns an error only if some call was fatal. -/
theorem accounted_reconcile :
    wp env.logged ⊤ (e.reconcile obj) (Accounted obj.spec) s := by
  refine Engine.wp_reconcile_of (Accounted obj.spec)
    (fun pass t ht => ⟨trivial, fun _ u hstep herr => ?_⟩)
    (fun _ => accounted_updateObject _ _) fun _ => wp_mono ?_ (wp_true _ s)
  · rw [hstep.2]
    exact (ht herr).append _
  rintro (message | kc) t -
  · exact accounted_of_yields (yields_bind fun _ => rfl)
  · exact ⟨fun _ => accounted_handleDeletion, fun _ _ => accounted_updateObject _ _,
      fun _ _ => stations_accounted.wp_apply trivial⟩

end Accounted

/-- **Counting.**  Whatever is answered, a pass is counted once; it is counted under the outcome that
    it had exactly if it returned no error, and that is so if no call of it failed fatally. -/
theorem reconcile_counted_once {env : Env operations σ} {e : Engine} {obj : ManagedObject} {s t : σ}
    {steps : List (Step operations σ)} {pass : Pass}
    (h : Exec env (e.reconcile obj) s steps t (some pass)) :
    (∃ outcome, counted steps = [(obj.spec.kind, outcome)] ∧
      (outcome = pass.outcome ↔ pass.err = none)) ∧
    (¬ Disturbed obj.spec steps → counted steps = [(obj.spec.kind, pass.outcome)]) := by
  have hcounted := counted_reconcile h
  refine ⟨⟨_, hcounted, pass.outcome_eq_iff⟩, fun hcalm => ?_⟩
  have haccounted : Accounted obj.spec pass (t, [] ++ steps) := wp_logged_sound accounted_reconcile h
  have herr : pass.err = none := not_not.mp fun herr => hcalm (haccounted herr)
  rw [hcounted, pass.outcome_eq_iff.mpr herr]

/-! ### A server that does not answer -/

/-- Requests to the server fail. -/
def World.handleUnreachable : Handler operations World
  | .admin _ _, w => (.error ⟨.other, "connection refused"⟩, w)
  | op, w => World.handle World.sorted 0 op w

theorem exec_handleUnreachable (p : Action α) (w : World) :
    p.Exec Flaky w (p.runSteps World.handleUnreachable w) (p.run World.handleUnreachable w).2
      (some (p.run World.handleUnreachable w).1) := by
  refine (p.exec_run _ w).mono fun op t answer t' h => ?_
  rcases op
  case admin kc request =>
    obtain ⟨rfl, rfl⟩ := Prod.mk.inj h
    exact .inr ⟨⟨_, rfl, by decide, by decide⟩, .inl rfl⟩
  all_goals exact .inl ⟨World.sorted, 0, h⟩

/-- A realm that was in order when its last pass ended. -/
def ordersRealm : ManagedObject where
  ns := "apps"
  name := "orders"
  uid := "uid-1"
  generation := 1
  finalizers := [finalizerName]
  spec := .realm
    { keycloakRef := "main", realm := "orders", deletionPolicy := some .delete,
      fields := ⟨∅, Fields.typed_empty _⟩ }
  status :=
    { conditions := [⟨.ready, .true, 1, .succeeded, "Reconciliation succeeded", 0⟩]
      observedGeneration := 1 }

/-- A pass that cannot reach the server returns an error and is counted as terminal.  The same
    happens to a pass over the deleted resource, and it is counted as a success. -/
theorem unreachable_server_not_counted_as_error :
    (∃ steps t pass, Exec Flaky ((newEngine true 0).reconcile ordersRealm)
        (.around ordersRealm ∅) steps t (some pass) ∧
      pass.outcome = .error ∧ counted steps = [(.realm, .terminal)]) ∧
    ∃ steps t pass,
      Exec Flaky ((newEngine true 0).reconcile { ordersRealm with deletionTimestamp := some 5 })
        (.around { ordersRealm with deletionTimestamp := some 5 } ∅) steps t (some pass) ∧
      pass.outcome = .error ∧ counted steps = [(.realm, .success)] :=
  ⟨⟨_, _, _, exec_handleUnreachable _ _, by decide +kernel, by decide +kernel⟩,
    _, _, _, exec_handleUnreachable _ _, by decide +kernel, by decide +kernel⟩

/-- A request, or a write of the custom resource, that is answered with an error. -/
def Prog.Step.failed (step : Step operations σ) : Bool :=
  match step.op, step.answer with
  | .admin _ _, .error _ => true
  | .updateObject _, .error _ => true
  | .patchObject _ _, .error _ => true
  | _, _ => false

/-- A request that is a whole call fails with it. -/
theorem Ran.failed {kc : Conn} {request : Request} {steps : List (Step operations σ)} {err : Err}
    (h : Ran (kc.send request) steps (.error err)) : ∃ step ∈ steps, step.failed = true := by
  obtain ⟨s, t, hexec⟩ := h
  obtain ⟨answer, _, _, -, rfl, hrest⟩ := Exec.call_returned hexec
  cases hrest
  exact ⟨_, List.mem_cons_self, rfl⟩

/-- The calls of a realm's driver are requests, so that none is fatal if all are answered. -/
theorem not_disturbed_of_answered {s : RealmSpec} {log : List (Step operations σ)}
    (h : ∀ step ∈ log, step.failed = false) : ¬ Disturbed (.realm s) log := by
  rintro ⟨before, steps, after, rfl, hfatal⟩
  have hanswered : ¬ ∃ step ∈ steps, step.failed = true := by
    rintro ⟨step, hstep, hfailed⟩
    cases (h step (by simp [hstep])).symm.trans hfailed
  refine hanswered ?_
  cases hfatal with
  | update obj err | patch base obj err => exact ⟨_, List.mem_cons_self, rfl⟩
  | lookup hran | vanished _ _ hran => exact hran.failed
  | creation hran => exact hran.failed
  | revision hran => exact hran.failed
  | deletion hran => exact hran.failed

/-- A server with the realm `orders`, under the operator's marker. -/
def ordersServer : Server :=
  (∅ : Server).setResources ⟨.realm, ""⟩
    ⟨[⟨"1", .ofList [("realm", .str "orders"), ("attributes", .ofObject
      (.ofList [( managedAnnotationKey, .str managedValue)]))], none⟩], by decide, by decide⟩

/-- A pass that finds nothing to correct on the server, annotates the custom resource and ends in
    `finalize` is counted as what it is, a success. -/
theorem agreeing_pass_counted :
    ∃ steps t pass,
      Exec Reliable ((newEngine true 0).reconcile ordersRealm) (.around ordersRealm ordersServer)
        steps t (some pass) ∧
      pass.finalized = true ∧ ¬ Disturbed ordersRealm.spec steps ∧ pass.outcome = .success ∧
      counted steps = [(.realm, pass.outcome)] := by
  let p := (newEngine true 0).reconcile ordersRealm
  have hexec := exec_handle p (.around ordersRealm ordersServer)
  have hcalm : ¬ Disturbed ordersRealm.spec
      (p.runSteps (World.handle World.sorted 0) (.around ordersRealm ordersServer)) :=
    not_disturbed_of_answered (by decide +kernel)
  exact ⟨_, _, _, hexec, by decide +kernel, hcalm, by decide +kernel,
    (reconcile_counted_once hexec).2 hcalm⟩

end KeycloakOperator
