import KeycloakOperator.Course
import KeycloakOperator.Takeover

/-!
# What brings a pass back

A controller looks at a custom resource again when its pass returns an error, or asks for
it with `RequeueAfter`.  Six refusals ask for nothing: a protected realm, an annotation
that does not decode, the two foreign resources of `handleExisting`, and a conflict on
the creation or the update.  `Dropped` says of the steps of a pass that it met one of them,
and `requeued_iff_not_dropped` that nothing else keeps it from coming back.
-/

namespace KeycloakOperator

open Prog

/-! ### Steps of a pass that is not repeated -/

section Log

variable {σ : Type} {env : Env operations σ} {e : Engine} {kc : Conn} {obj : ManagedObject}
  {log : List (Step operations σ)} {s : σ × List (Step operations σ)} {found : Except Err Object}

/-- The operation creates or updates the resource of the spec. -/
def Op.Submits (s : Spec) (kc : Conn) (op : Op) : Prop :=
  (∃ body, op = s.creation kc body) ∨ ∃ id body, op = s.revision kc id body

/-- A request that is answered with a conflict. -/
def Prog.Step.conflicts (step : Step operations σ) : Bool :=
  match step.op, step.answer with
  | .admin _ _, .error err => err.kind = .conflict
  | _, _ => false

/-- A pass with these steps gives the custom resource up: it found the connection, and then the
    object does not let it look for the resource, the lookup found one that the policy does not
    accept, or the creation or the update met a conflict. -/
def Dropped (obj : ManagedObject) (steps : List (Step operations σ)) : Prop :=
  finalizerName ∈ obj.finalizers ∧ ∃ kc u u' rest,
    steps = ⟨u, .connect obj.ns obj.spec.connectionName, .ok kc, u'⟩ :: rest ∧
      (¬ obj.Ready ∨
        (∃ lookup more remote, rest = lookup ++ more ∧
          Ran (obj.spec.driver.get kc) lookup (.ok remote) ∧ ¬ obj.Accepts remote) ∨
        ∃ step ∈ rest, step.op.Submits obj.spec kc ∧ step.conflicts)

theorem Dropped.append (h : Dropped obj log) (more : List (Step operations σ)) :
    Dropped obj (log ++ more) := by
  obtain ⟨hfinalizer, kc, u, u', rest, rfl, h⟩ := h
  refine ⟨hfinalizer, kc, u, u', rest ++ more, rfl, ?_⟩
  rcases h with hready | ⟨lookup, more', remote, rfl, hran, hrejects⟩ | ⟨step, hstep, hopposed⟩
  · exact .inl hready
  · exact .inr (.inl ⟨lookup, more' ++ more, remote, List.append_assoc _ _ _, hran, hrejects⟩)
  · exact .inr (.inr ⟨step, List.mem_append_left _ hstep, hopposed⟩)

/-- The steps of a pass that found the connection and has met no conflict, and the result of its
    lookup. -/
def Undisputed (kc : Conn) (obj : ManagedObject) (found : Except Err Object)
    (log : List (Step operations σ)) : Prop :=
  ∃ u u' lookup more,
    log = ⟨u, .connect obj.ns obj.spec.connectionName, .ok kc, u'⟩ :: (lookup ++ more) ∧
    Ran (obj.spec.driver.get kc) lookup found ∧
    ∀ step ∈ lookup ++ more, ¬ (step.op.Submits obj.spec kc ∧ step.conflicts)

theorem Undisputed.append (h : Undisputed kc obj found log) {more : List (Step operations σ)}
    (hmore : ∀ step ∈ more, ¬ (step.op.Submits obj.spec kc ∧ step.conflicts)) :
    Undisputed kc obj found (log ++ more) := by
  obtain ⟨u, u', lookup, rest, rfl, hran, hpeace⟩ := h
  refine ⟨u, u', lookup, rest ++ more, by simp, hran, ?_⟩
  rw [← List.append_assoc]
  exact List.forall_mem_append.mpr ⟨hpeace, hmore⟩

/-- A pass with these steps stays in the loop. -/
inductive Kept (obj : ManagedObject) : List (Step operations σ) → Prop where
  | unavailable {u u' : σ} (message : String) (more : List (Step operations σ)) :
      Kept obj (⟨u, .connect obj.ns obj.spec.connectionName, .error message, u'⟩ :: more)
  | unfinalized {steps : List (Step operations σ)} (h : finalizerName ∉ obj.finalizers) :
      Kept obj steps
  | undisputed {kc : Conn} {found : Except Err Object} {steps : List (Step operations σ)}
      (hready : obj.Ready) (haccepts : ∀ remote, found = .ok remote → obj.Accepts remote)
      (h : Undisputed kc obj found steps) : Kept obj steps

theorem Kept.not_dropped (h : Kept obj log) : ¬ Dropped obj log := by
  rintro ⟨hfinalizer, kc, u, u', rest, hlog, hdropped⟩
  cases h with
  | unavailable message more => cases hlog
  | unfinalized h => exact h hfinalizer
  | undisputed hready haccepts h =>
    obtain ⟨v, v', lookup, more, rfl, hran, hpeace⟩ := h
    cases hlog
    rcases hdropped with hnot | ⟨lookup', more', remote, hsame, hran', hrejects⟩ | ⟨step, hstep, h⟩
    · exact hnot hready
    · -- the answers determine what the lookup found
      obtain ⟨_, _, hexec⟩ := hran
      obtain ⟨_, _, hexec'⟩ := hran'
      exact hrejects (haccepts remote (hexec.result_unique hexec' hsame))
    · exact hpeace step hstep h

/-- How the pass ends, and what its steps say. -/
def Reckoned (obj : ManagedObject) (pass : Pass) (log : List (Step operations σ)) : Prop :=
  (pass.Returning ∧ Kept obj log) ∨ (¬ pass.Returning ∧ Dropped obj log)

theorem Op.Reads.not_submits {op : Op} (h : op.Reads) (s : Spec) (kc : Conn) :
    ¬ op.Submits s kc := by
  rintro (⟨body, rfl⟩ | ⟨id, body, rfl⟩) <;> cases h

theorem Op.Remarks.not_submits {op : Op} (h : op.Remarks) (s : Spec) (kc : Conn) :
    ¬ op.Submits s kc := by
  rintro (⟨body, rfl⟩ | ⟨id, body, rfl⟩) <;> exact h.elim

theorem Op.WritesSecret.not_submits {op : Op} (h : op.WritesSecret) (s : Spec) (kc : Conn) :
    ¬ op.Submits s kc := by
  rintro (⟨body, rfl⟩ | ⟨id, body, rfl⟩) <;> exact h.elim

theorem Enforces.not_submits {s : Spec} {id : String} {op : Op} (h : Enforces s kc id op) :
    ¬ op.Submits s kc := by
  obtain ⟨method, endpoint, body, rfl, howns⟩ := h
  obtain ⟨hitem, hcollection⟩ := Spec.quiet_of_owns howns
  rintro (⟨body', heq⟩ | ⟨id', body', heq⟩) <;> cases heq
  · rw [Spec.collection_collectionEndpoint] at hcollection
    cases hcollection
  · rw [Spec.item_itemEndpoint] at hitem
    cases hitem

/-- A program that submits nothing. -/
theorem wp_undisputed {p : Action α} (honly : Only (fun op : Op => ¬ op.Submits obj.spec kc) p)
    (hs : Undisputed kc obj found s.2) :
    wp env.logged ⊤ p (fun _ t => Undisputed kc obj found t.2) s := by
  refine wp_mono ?_ (wp_trace (wp_true p s))
  rintro a t ⟨-, steps, hlog, hexec⟩
  rw [hlog]
  exact hs.append fun step hstep hopposed => hexec.only honly step hstep hopposed.1

/-- The end of a pass that comes back. -/
theorem wp_kept {p : Action Pass} (hreturns : Yields Pass.Returning p)
    (honly : Only (fun op : Op => ¬ op.Submits obj.spec kc) p) (hready : obj.Ready)
    (haccepts : ∀ remote, found = .ok remote → obj.Accepts remote)
    (hs : Undisputed kc obj found s.2) :
    wp env.logged ⊤ p (fun pass t => Reckoned obj pass t.2) s :=
  wp_mono (fun _ _ hpost => .inl ⟨hpost.1, .undisputed hready haccepts hpost.2⟩)
    (wp_yields hreturns (wp_undisputed honly hs))

/-- The end of a pass that does not. -/
theorem wp_dropped {p : Action Pass} (hdrops : Yields (fun pass => ¬ pass.Returning) p)
    (hs : Dropped obj s.2) :
    wp env.logged ⊤ p (fun pass t => Reckoned obj pass t.2) s := by
  refine wp_mono ?_ (wp_trace (wp_of_yields hdrops s))
  rintro pass t ⟨hpass, steps, hlog, -⟩
  rw [hlog]
  exact .inr ⟨hpass, hs.append steps⟩

/-- What the answer to a submission means for the pass. -/
def Submitted (kc : Conn) (obj : ManagedObject) (found : Except Err Object) (result : Except Err Unit)
    (log : List (Step operations σ)) : Prop :=
  (∀ err, result = .error err → err.kind = .conflict → Dropped obj log) ∧
    ((∀ err, result = .error err → err.kind ≠ .conflict) → Undisputed kc obj found log)

theorem Submitted.undisputed (h : Submitted kc obj found (.ok ()) log) :
    Undisputed kc obj found log :=
  h.2 fun _ herr => by cases herr

/-- A submission failed: only a conflict keeps the pass from coming back. -/
theorem wp_unsubmitted {p : Action Pass} {err : Err} (h : Submitted kc obj found (.error err) s.2)
    (hdrops : err.kind = .conflict → Yields (fun pass => ¬ pass.Returning) p)
    (hreturns : err.kind ≠ .conflict → Yields Pass.Returning p)
    (honly : Only (fun op : Op => ¬ op.Submits obj.spec kc) p) (hready : obj.Ready)
    (haccepts : ∀ remote, found = .ok remote → obj.Accepts remote) :
    wp env.logged ⊤ p (fun pass t => Reckoned obj pass t.2) s := by
  by_cases hkind : err.kind = .conflict
  · exact wp_dropped (hdrops hkind) (h.1 err rfl hkind)
  · refine wp_kept (hreturns hkind) honly hready haccepts (h.2 ?_)
    rintro _ ⟨⟩
    exact hkind

theorem wp_submit_reckoned {method : Method} {endpoint : Endpoint} {body : Object}
    (hfinalizer : finalizerName ∈ obj.finalizers)
    (hop : Op.Submits obj.spec kc (.admin kc ⟨method, endpoint, .object body, .nothing⟩))
    (hs : Undisputed kc obj found s.2) :
    wp env.logged ⊤ (kc.submit method endpoint (.object body)).run
      (fun result t => Submitted kc obj found result t.2) s := by
  refine ⟨trivial, fun answer t hstep => ⟨fun err herr hkind => ?_, fun hpeace => ?_⟩⟩
  · obtain ⟨u, u', lookup, more, hlog, -, -⟩ := hs
    refine ⟨hfinalizer, kc, u, u', lookup ++ more ++ [⟨s.1, _, answer, t.1⟩], ?_,
      .inr (.inr ⟨_, List.mem_append_right _ List.mem_cons_self, hop, ?_⟩)⟩
    · rw [hstep.2, hlog]
      rfl
    · subst herr
      exact decide_eq_true hkind
  · rw [hstep.2]
    refine hs.append fun step hmem hopposed => ?_
    rw [List.mem_singleton.mp hmem] at hopposed
    rcases answer with err | _
    · exact hpeace err rfl (of_decide_eq_true hopposed.2)
    · cases hopposed.2

theorem wp_correctDrift_reckoned {remote payload : Object}
    (hfinalizer : finalizerName ∈ obj.finalizers) (hs : Undisputed kc obj found s.2) :
    wp env.logged ⊤ (e.correctDrift obj.spec.driver kc obj remote payload).run
      (fun result t => Submitted kc obj found result t.2) s := by
  have hcount : Only (fun op : Op => ¬ op.Submits obj.spec kc)
      (perform (.driftCorrected obj.spec.kind)) := by
    refine ⟨?_, fun _ => trivial⟩
    rintro (⟨body, heq⟩ | ⟨id, body, heq⟩) <;> cases heq
  refine wp_run_bind.mpr (wp_run_lift.mpr (wp_mono (fun _ t ht => ?_)
    (wp_undisputed hcount hs)))
  dsimp only
  rw [driver_update]
  refine wp_run_bind.mpr (wp_mono ?_
    (wp_submit_reckoned hfinalizer (.inr ⟨_, _, rfl⟩) ht))
  rintro (err | _) u hu
  · exact hu
  · exact wp_run_lift.mpr (wp_mono (fun _ _ hv => ⟨fun _ herr => (by cases herr), fun _ => hv⟩)
      (wp_undisputed (e.only_record (fun _ h => h.not_submits _ _) _ _ _) hu.undisputed))

theorem stations_reckoned (hfinalizer : finalizerName ∈ obj.finalizers) :
    Stations e env.logged (fun _ _ => True) kc obj
      (fun s => ∃ u u', s.2 = [⟨u, .connect obj.ns obj.spec.connectionName, .ok kc, u'⟩])
      (fun s => ∃ err, Undisputed kc obj (.error err) s.2)
      (fun remote s => Undisputed kc obj (.ok remote) s.2)
      (fun _ _ s => obj.Ready ∧ ∃ found, Undisputed kc obj found s.2 ∧
        ∀ remote, found = .ok remote → obj.Accepts remote)
      (fun pass s => Reckoned obj pass s.2) := by
  have hreads : ∀ op : Op, op.Reads → ¬ op.Submits obj.spec kc := fun _ h => h.not_submits _ _
  have hreports : ∀ op : Op, op.Remarks → ¬ op.Submits obj.spec kc := fun _ h => h.not_submits _ _
  have hstops : ∀ {p : Action Pass} {s : σ × List (Step operations σ)} {found : Except Err Object},
      Yields Pass.Returning p → e.Stops obj p → obj.Ready →
      (∀ remote, found = .ok remote → obj.Accepts remote) → Undisputed kc obj found s.2 →
      wp env.logged ⊤ p (fun pass t => Reckoned obj pass t.2) s :=
    fun hreturns h => wp_kept hreturns (h.only hreports)
  constructor
  case declined =>
    rintro reason message s hdeclines ⟨u, u', hlog⟩
    refine wp_dropped (dropped_refuse _ _ _ _) ⟨hfinalizer, kc, u, u', [], hlog, .inl ?_⟩
    rintro ⟨hopen, effective, heffective⟩
    rcases hdeclines with hshielded | ⟨-, hmalformed⟩
    · cases hopen.symm.trans hshielded
    · cases heffective.symm.trans hmalformed
  case looked =>
    rintro s hready ⟨u, u', hlog⟩
    refine wp_mono ?_ (wp_trace (wp_true _ s))
    rintro found t ⟨-, lookup, hsteps, hexec⟩
    have ht : Undisputed kc obj found t.2 := by
      refine ⟨u, u', lookup, [], by rw [hsteps, hlog]; simp, ran_of_exec hexec, ?_⟩
      rw [List.append_nil]
      exact fun step hstep hopposed => hexec.only (only_get hreads _ _) step hstep hopposed.1
    rcases found with err | remote
    · exact ⟨fun _ => ⟨err, ht⟩, fun _ => hstops (returning_retry _ _ _ _) (.retried _ _) hready
        (fun _ h => by cases h) ht⟩
    · exact ht
  case rejected =>
    rintro remote message s - hrejects ⟨u, u', lookup, more, hlog, hran, -⟩
    refine wp_dropped (dropped_refuse _ _ _ _) ⟨hfinalizer, kc, u, u', _, hlog,
      .inr (.inl ⟨lookup, more, remote, rfl, hran, fun haccepts => ?_⟩)⟩
    rcases hrejects with hpolicy | ⟨-, hforeign⟩
    · exact haccepts.1 hpolicy
    · exact hforeign haccepts
  case adopted => exact fun hs => wp_undisputed (e.only_record hreports _ _ _) hs
  case enforced =>
    intro effective remote adopting s hopen heffective haccepts _ hs
    have hready : obj.Ready := ⟨hopen, effective, heffective⟩
    have haccepted : ∀ shown, Except.ok (ε := Err) remote = .ok shown → obj.Accepts shown := by
      rintro shown ⟨⟩
      exact haccepts
    refine wp_mono ?_ (wp_undisputed (only_preparePayload hreads _ _ _) hs)
    rintro (err | payload) t ht
    · exact hstops (returning_refuse _ _ _ _ (by decide)) (.refused _ _ _ _) hready haccepted ht
    refine ⟨fun _ => ⟨hready, _, ht, haccepted⟩, fun _ => wp_mono ?_
      (wp_correctDrift_reckoned hfinalizer ht)⟩
    rintro (err | _) u hu
    · refine wp_unsubmitted hu (fun hkind => ?_) returning_notUpdated
        (Engine.Stops.only hreports (.notUpdated e obj err)) hready haccepted
      rw [Engine.notUpdated_conflict hkind]
      exact dropped_refuse _ _ _ _
    · exact ⟨hready, _, hu.undisputed, haccepted⟩
  case created =>
    rintro effective s hopen heffective ⟨missing, hs⟩
    have hready : obj.Ready := ⟨hopen, effective, heffective⟩
    have haccepted : ∀ shown, Except.error missing = .ok shown → obj.Accepts shown :=
      fun shown h => by cases h
    refine wp_mono ?_ (wp_undisputed (only_preparePayload hreads _ _ _) hs)
    rintro (err | payload) t ht
    · exact hstops (returning_refuse _ _ _ _ (by decide)) (.refused _ _ _ _) hready haccepted ht
    dsimp only
    rw [driver_create]
    refine wp_mono ?_ (wp_submit_reckoned hfinalizer (.inl ⟨_, rfl⟩) ht)
    rintro (err | _) u hu
    · refine wp_unsubmitted hu (fun hkind => ?_) returning_notCreated
        (Engine.Stops.only hreports (.notCreated e obj err)) hready haccepted
      rw [Engine.notCreated_conflict hkind]
      exact dropped_refuse _ _ _ _
    refine wp_mono (fun _ v hv => wp_mono ?_ (wp_undisputed (only_get hreads _ _) hv))
      (wp_undisputed (e.only_record hreports _ _ _) hu.undisputed)
    rintro (err | remote) x hx
    · exact hstops (returning_unfetched _ _) (.unfetched err) hready haccepted hx
    · exact ⟨hready, _, hx, haccepted⟩
  case settled =>
    rintro remote next s hnext ⟨hready, found, hs, haccepted⟩
    refine wp_kept (returning_settle hnext) (e.only_settle hreports obj (only_postApply hreads
      (fun _ h => h.not_submits _ _) (fun _ h => h.not_submits) obj) fun _ changed =>
      hnext.only hreports _ (fun _ _ => ?_) changed) hready haccepted hs
    rintro (⟨body, heq⟩ | ⟨id, body, heq⟩) <;> cases heq

theorem Kept.append (h : Kept obj log) {more : List (Step operations σ)}
    (hmore : ∀ step ∈ more, ∀ kc, ¬ step.op.Submits obj.spec kc) : Kept obj (log ++ more) := by
  cases h with
  | unavailable message rest => exact .unavailable message _
  | unfinalized h => exact .unfinalized h
  | undisputed hready haccepts h =>
    exact .undisputed hready haccepts (h.append fun step hstep hopposed =>
      hmore step hstep _ hopposed.1)

end Log

/-- **When a live custom resource stays in the loop.**  Whatever the servers answer, a pass returns
    an error or asks to be repeated, unless its steps run into one of the refusals that ask for
    nothing. -/
theorem requeued_iff_not_dropped {σ : Type} {env : Env operations σ} {e : Engine}
    {obj : ManagedObject} {s t : σ} {steps : List (Step operations σ)} {pass : Pass}
    (hlive : obj.deletionTimestamp = none)
    (hexec : Exec env (e.reconcile obj) s steps t (some pass)) :
    pass.Returning ↔ ¬ Dropped obj steps := by
  have hwp : wp env.logged ⊤ (e.reconcile obj)
      (fun pass t => Reckoned obj pass t.2) (s, []) := by
    refine Engine.wp_reconcile_of (fun pass t => Reckoned obj pass t.2)
      (fun pass u hu => ⟨trivial, fun _ v hstep => ?_⟩)
      (fun horphan => by simp [hlive] at horphan) fun _ => ⟨trivial, fun answer u hstep => ?_⟩
    · change Reckoned obj pass v.2
      rw [hstep.2]
      refine hu.imp (And.imp_right fun hkept => hkept.append fun step hmem kc hsubmits => ?_)
        (And.imp_right fun hdropped => hdropped.append _)
      rw [List.mem_singleton.mp hmem] at hsubmits
      rcases hsubmits with ⟨body, heq⟩ | ⟨id, body, heq⟩ <;> cases heq
    have hlog : u.2 = [⟨s, .connect obj.ns obj.spec.connectionName, answer, u.1⟩] := hstep.2
    rcases answer with message | kc
    · change wp env.logged ⊤ (Engine.unavailable obj message)
        (fun pass t => Reckoned obj pass t.2) u
      refine wp_mono ?_ (wp_trace (wp_of_yields (returning_unavailable obj message) u))
      rintro pass v ⟨hpass, more, hmore, -⟩
      refine .inl ⟨hpass, ?_⟩
      rw [hmore, hlog]
      exact .unavailable message more
    · refine ⟨fun hdeleted => by simp [hlive] at hdeleted, fun _ hmissing => ?_, fun _ hfinalizer =>
        (stations_reckoned hfinalizer).wp_apply ⟨s, u.1, hlog⟩⟩
      exact wp_mono (fun pass v hpass => .inl ⟨hpass, .unfinalized hmissing⟩)
        (wp_of_yields (returning_updateObject _ (by decide)) u)
  rcases wp_logged_sound hwp hexec with ⟨hreturns, hkept⟩ | ⟨hdrops, hdropped⟩
  · exact iff_of_true hreturns hkept.not_dropped
  · exact iff_of_false hdrops (not_not.mpr hdropped)

/-- Creations meet a conflict. -/
def World.handleOpposed : Handler operations World
  | .admin _ ⟨.post, _, _, _⟩, w => (.error ⟨.conflict, "resource conflict"⟩, w)
  | op, w => World.handle World.sorted 0 op w

/-- On an empty server the pass creates the client and asks to be repeated.  If the creation meets a
    conflict, because somebody else was faster, it is not. -/
theorem new_portal_requeued :
    (∃ steps t pass, Exec Reliable ((newEngine true 0).reconcile (clientObject "portal"))
        (.around (clientObject "portal") (clientServer ∅)) steps t (some pass) ∧
      pass.Returning ∧ ¬ Dropped (clientObject "portal") steps) ∧
    ∃ steps t pass, Exec World.handleOpposed.env
        ((newEngine true 0).reconcile (clientObject "portal"))
        (.around (clientObject "portal") (clientServer ∅)) steps t (some pass) ∧
      ¬ pass.Returning ∧ Dropped (clientObject "portal") steps := by
  have hcreated := exec_handle ((newEngine true 0).reconcile (clientObject "portal"))
    (.around (clientObject "portal") (clientServer ∅))
  have hopposed := exec_run World.handleOpposed
    ((newEngine true 0).reconcile (clientObject "portal"))
    (.around (clientObject "portal") (clientServer ∅))
  refine ⟨⟨_, _, _, hcreated, by decide, (requeued_iff_not_dropped rfl hcreated).mp (by decide)⟩,
    _, _, _, hopposed, by decide, not_not.mp fun hkept => ?_⟩
  exact absurd ((requeued_iff_not_dropped rfl hopposed).mpr hkept) (by decide)

/-- Somebody else has a client under the same ID: the pass reports `AlreadyExists` and the
    controller does not come back to it. -/
theorem foreign_billing_dropped :
    ∃ w obj steps t pass, w.object = some obj ∧ obj.deletionTimestamp = none ∧
      Exec Reliable ((newEngine true 0).reconcile obj) w steps t (some pass) ∧ ¬ pass.Returning :=
  ⟨.around (clientObject "billing") (clientServer ⟨[foreignBilling], by decide, by decide⟩),
    clientObject "billing", _, _, _, rfl, rfl, exec_handle _ _, by decide⟩

end KeycloakOperator
