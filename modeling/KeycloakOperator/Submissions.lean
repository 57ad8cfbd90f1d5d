import KeycloakOperator.Course

/-!
# What a pass submits

A pass sends at most one representation to the server: the body of a creation or of an update.
The state before the pass determines which one (`World.Submits`): no execution sends another,
and when calls succeed every execution sends it.
-/

namespace KeycloakOperator

open Prog

/-- The representation that the operation sends, for a creation or an update. -/
def Op.submission? : Op → Option (Conn × Object)
  | .admin kc request =>
      match request.method, request.body with
      | .post, .object body => if request.endpoint.collection.isSome then some (kc, body) else none
      | .put, .object body => if request.endpoint.item.isSome then some (kc, body) else none
      | _, _ => none
  | _ => none

@[simp] theorem submission?_creation (s : Spec) (kc : Conn) (body : Object) :
    (s.creation kc body).submission? = some (kc, body) := by
  cases s <;> rfl

@[simp] theorem submission?_revision (s : Spec) (kc : Conn) (id : String) (body : Object) :
    (s.revision kc id body).submission? = some (kc, body) := by
  cases s <;> rfl

/-! ### Operations that submit nothing -/

theorem Op.Reads.submission? {op : Op} (h : op.Reads) : op.submission? = none := by
  rcases op with _ | _ | _ | ⟨kc, request⟩ | _ | _ | _ | _ | _ | _ | _ | _ | _ | _
  case admin =>
    obtain ⟨method, endpoint, body, out⟩ := request
    obtain rfl : method = .get := h
    rfl
  all_goals rfl

theorem Op.WritesSecret.submission? {op : Op} (h : op.WritesSecret) : op.submission? = none := by
  rcases op <;> first | rfl | exact h.elim

theorem Op.Bookkeeping.submission? {op : Op} (h : op.Bookkeeping) : op.submission? = none := by
  rcases op <;> first | rfl | exact h.elim

theorem Op.Notes.submission? {op : Op} (h : op.Notes) : op.submission? = none := by
  rcases op <;> first | rfl | exact h.elim

theorem Enforces.submission? {s : Spec} {kc : Conn} {id : String} {op : Op}
    (h : Enforces s kc id op) : op.submission? = none := by
  obtain ⟨method, endpoint, body, rfl, howns⟩ := h
  obtain ⟨hitem, hcollection⟩ := Spec.quiet_of_owns howns
  rcases method <;> rcases body <;> simp [Op.submission?, hitem, hcollection]

section Tails

variable {e : Engine} {kc : Conn} {obj : ManagedObject}

theorem only_finalize_bare (mem : ManagedObject) (synced : Bool) :
    Only (fun op : Op => op.submission? = none)
      (e.finalize mem obj obj.spec.representation synced) :=
  e.only_finalize (fun _ h => h.bookkeeping.submission?) (fun _ _ => rfl) synced

/-- Nothing is submitted from `PostApply` on. -/
theorem only_settle_bare {remote : Object} {next : ManagedObject → Bool → Action Pass}
    (hnext : ∀ mem changed, Only (fun op : Op => op.submission? = none) (next mem changed)) :
    Only (fun op : Op => op.submission? = none)
      (e.settle obj.spec.driver kc obj obj remote next) := by
  apply e.only_settle (fun _ h => h.bookkeeping.submission?)
  · exact only_postApply (fun _ h => h.submission?) (fun _ h => h.submission?)
      (fun _ h => h.submission?) obj
  · exact fun status changed => hnext _ changed

theorem only_settle_created (remote : Object) :
    Only (fun op : Op => op.submission? = none)
      (e.settle obj.spec.driver kc obj obj remote (e.afterCreate obj)) :=
  only_settle_bare fun mem _ => only_finalize_bare mem true

theorem only_settle_enforced (remote : Object) (changed : Bool) :
    Only (fun op : Op => op.submission? = none)
      (e.settle obj.spec.driver kc obj obj remote (e.afterEnforce obj changed)) := by
  apply only_settle_bare
  intro mem postChanged
  rcases postChanged with _ | _
  · exact only_finalize_bare mem _
  · exact ⟨rfl, fun _ => only_finalize_bare mem _⟩

theorem only_handleDeletion_bare :
    Only (fun op : Op => op.submission? = none) (e.handleDeletion obj.spec.driver kc obj) := by
  apply e.only_handleDeletion (fun _ h => h.bookkeeping.submission?) rfl
  intro _
  exact only_delete (fun _ h => h.submission?) fun _ => rfl

end Tails

/-! ### The submission of a pass -/

/-- What a pass over `obj` submits when it begins at `w`. -/
inductive World.Submits (w : World) (kc : Conn) (obj : ManagedObject) : Op → Prop where
  | creation {payload : Object} (hbuilds : w.Builds obj payload) (hmisses : w.Misses kc obj.spec) :
      Submits w kc obj (obj.spec.creation kc payload)
  | revision {payload : Object} {r : Resource} (hbuilds : w.Builds obj payload)
      (hfinds : w.Finds kc obj.spec r) (hadmits : obj.Admits r) (hupdates : obj.Updates r payload) :
      Submits w kc obj (obj.spec.revision kc r.id (mergePayload r.report payload))

section Pass

variable {e : Engine} {w t : World} {obj : ManagedObject} {steps : List (Step operations World)}

/-- A guard about submissions holds along a pass if it holds of the one submission. -/
theorem wp_submissions {env : Env operations World} {outage : Prop} {guard : Op → World → Prop}
    (horderly : Orderly env outage) (hobject : w.object = some obj)
    (hbare : ∀ op t, op.submission? = none → guard op t)
    (hsubmits : ∀ kc op, w.Engages kc obj → w.Submits kc obj op → guard op w) :
    wp env guard e.controllerReconcile.run (fun _ _ => True) w := by
  have hend : ∀ {p : Action Pass} (t : World), Only (fun op : Op => op.submission? = none) p →
      wp env guard p (fun _ _ => True) t := fun t honly =>
    wp_guard_mono (fun op u h => hbare op u h.1)
      (wp_of_only (fun _ => True) (fun _ _ _ _ _ _ _ => trivial) honly trivial)
  apply Prompt.wp_pass horderly.prompt hobject (hbare _ _ rfl) (fun _ _ _ => trivial)
  apply Prompt.wp_reconcile horderly.prompt (hbare _ _ rfl) (fun _ _ t => hbare _ t rfl)
  · exact fun _ => hend w (Engine.only_updateObject (by rfl) _)
  · intro message _ _
    refine hend w (only_bind ?_ fun _ => trivial)
    exact Engine.only_setConditions (fun _ h => h.bookkeeping.submission?) _ _ _ _ _ _
  · exact fun kc _ _ => hend w only_handleDeletion_bare
  · exact fun _ _ _ => hend w (Engine.only_updateObject (by rfl) _)
  · intro kc hconnection hlive hfinalizer
    have hengages : obj.spec.driver.protected? obj = none → w.Engages kc obj := fun hopen =>
      ⟨hobject, hlive, hfinalizer, hconnection, hopen⟩
    have hrefuse : ∀ {reason message requeueAfter} (t : World), wp env guard
        (e.refuse obj obj reason message requeueAfter) (fun _ _ => True) t := fun t =>
      hend t (e.only_refuse (fun _ h => h.bookkeeping.submission?) _ _ _ _ _)
    have hcourse : Course e env outage guard kc obj w fun _ _ => True :=
      { reads := fun op t h => hbare op t h.submission?
        notes := fun op t h _ => hbare op t h.submission?
        interrupted := fun _ hstops _ => hend _ (hstops.only fun _ h => h.bookkeeping.submission?)
        refused := fun _ => hrefuse w
        withheld := fun _ => hrefuse w
        submits := fun hopen hbuilds hmisses =>
          hsubmits kc _ (hengages hopen) (.creation hbuilds hmisses)
        conflicted := fun _ _ _ _ _ => hrefuse w
        created := fun _ _ _ _ _ _ => hend _ (only_settle_created _)
        revises := fun hopen hbuilds hfinds hadmits hupdates =>
          hsubmits kc _ (hengages hopen) (.revision hbuilds hfinds hadmits hupdates)
        updated := fun _ _ _ _ _ _ _ => hend _ (only_settle_enforced _ _)
        agreed := fun _ _ _ _ _ => hend _ (only_settle_enforced _ _) }
    exact hcourse.wp_apply horderly

/-- **A pass submits nothing else.** -/
theorem Engine.exec_submits {result : Option (Except Err (Option Pass))}
    (hobject : w.object = some obj) (hexec : Exec Flaky e.controllerReconcile.run w steps t result)
    {step : Step operations World} (hstep : step ∈ steps) {submission : Conn × Object}
    (hsubmission : step.op.submission? = some submission) :
    step.before = w ∧ ∃ kc, w.Engages kc obj ∧ w.Submits kc obj step.op := by
  have hwp : wp Flaky (fun op t => op.submission? ≠ none →
      t = w ∧ ∃ kc, w.Engages kc obj ∧ w.Submits kc obj op) e.controllerReconcile.run
      (fun _ _ => True) w := by
    apply wp_submissions orderly_flaky hobject
    · exact fun op t hbare hsome => absurd hbare hsome
    · exact fun kc op hengages hsubmits _ => ⟨rfl, kc, hengages, hsubmits⟩
  exact (wp_sound hwp hexec).1 step hstep (by simp [hsubmission])

/-- Nothing keeps the pass from its submission. -/
theorem World.Submits.not_refuses {kc : Conn} {op : Op} {reason : Reason} {message : String}
    (h : w.Submits kc obj op) (hopen : obj.spec.driver.protected? obj = none) :
    ¬ w.Refuses kc obj reason message := by
  intro hrefuses
  have heffective : ∃ effective,
      effectivePayload obj.spec.representation obj.lastApplied = .ok effective := by
    rcases h with ⟨⟨effective, _, heffective, -⟩, -⟩ | ⟨⟨effective, _, heffective, -⟩, -, -, -⟩ <;>
      exact ⟨effective, heffective⟩
  rcases hrefuses with hshielded | ⟨-, hmalformed⟩ | ⟨-, hfound, hpolicy⟩ | ⟨-, hfound, -, hforeign⟩
  · cases hopen.symm.trans hshielded
  · obtain ⟨effective, heffective⟩ := heffective
    cases heffective.symm.trans hmalformed
  · rcases h with ⟨-, hmisses⟩ | ⟨-, hfinds, hadmits, -⟩
    · exact hfound.not_misses hmisses
    · exact hadmits.1 hpolicy
  · rcases h with ⟨-, hmisses⟩ | ⟨-, hfinds, hadmits, -⟩
    · exact hfound.not_misses hmisses
    · exact hforeign (hfound.unique hfinds ▸ hadmits)

theorem World.Submits.builds {kc : Conn} {op : Op} (h : w.Submits kc obj op) :
    ∃ payload, w.Builds obj payload := by
  rcases h with ⟨hbuilds, -⟩ | ⟨hbuilds, -, -, -⟩ <;> exact ⟨_, hbuilds⟩

/-- In an environment that never answers the submission, the pass cannot get past it. -/
theorem World.Submits.course {env : Env operations World} {kc : Conn} {op : Op}
    (h : w.Submits kc obj op) (hopen : obj.spec.driver.protected? obj = none)
    (hnever : ∀ t answer, ¬ env op w answer t) :
    Course e env False (fun _ _ => True) kc obj w fun _ _ => False where
  reads _ _ _ := trivial
  notes _ _ _ _ := trivial
  interrupted houtage := houtage.elim
  refused hrefuses := absurd hrefuses (h.not_refuses hopen)
  withheld hwithholds := by
    obtain ⟨payload, hbuilds⟩ := h.builds
    exact absurd hwithholds hbuilds.not_withholds
  submits _ _ _ := trivial
  conflicted _ hbuilds hmisses _ hstep := by
    rcases h with ⟨hbuilds', -⟩ | ⟨-, hfinds, -, -⟩
    · rw [hbuilds'.unique hbuilds] at hnever
      exact (hnever _ _ hstep).elim
    · exact absurd hmisses hfinds.not_misses
  created _ hbuilds habsent hstep _ _ := by
    rcases h with ⟨hbuilds', -⟩ | ⟨-, hfinds, -, -⟩
    · rw [hbuilds'.unique hbuilds] at hnever
      exact (hnever _ _ hstep).elim
    · cases habsent.symm.trans hfinds.1
  revises _ _ _ _ _ := trivial
  updated _ hbuilds hfinds _ _ hstep _ := by
    rcases h with ⟨-, hmisses⟩ | ⟨hbuilds', hfinds', -, -⟩
    · exact absurd hmisses hfinds.not_misses
    · rw [hbuilds'.unique hbuilds, hfinds'.unique hfinds] at hnever
      exact (hnever _ _ hstep).elim
  agreed _ hbuilds hfinds _ hagrees := by
    rcases h with ⟨-, hmisses⟩ | ⟨hbuilds', hfinds', -, hupdates⟩
    · exact absurd hmisses hfinds.not_misses
    · rw [hbuilds'.unique hbuilds, hfinds'.unique hfinds] at hupdates
      exact absurd hupdates hagrees

/-- **A pass submits what it should**, when calls succeed. -/
theorem Engine.exists_submission {kc : Conn} {op : Op} {result : Except Err (Option Pass)}
    (hengages : w.Engages kc obj) (hsubmits : w.Submits kc obj op)
    (hexec : Exec Reliable e.controllerReconcile.run w steps t (some result)) :
    ∃ step ∈ steps, step.op = op ∧ step.before = w := by
  apply exists_step_of_wp _ hexec
  -- without the submission, no pass can end
  have horderly : Orderly (Reliable.within fun step => ¬ (step.op = op ∧ step.before = w)) False :=
    fun hstep => .inl hstep.1
  have hcourse := hsubmits.course (e := e) hengages.admitted fun t answer
    (hstep : Reliable.within (fun step => ¬ (step.op = op ∧ step.before = w)) op w answer t) =>
      hstep.2 ⟨rfl, rfl⟩
  refine wp_mono ?_ (hcourse.wp_pass horderly hengages.attends trivial trivial fun _ _ _ => trivial)
  rintro result' t' ⟨pass, -, hnever⟩
  exact hnever

end Pass

end KeycloakOperator
