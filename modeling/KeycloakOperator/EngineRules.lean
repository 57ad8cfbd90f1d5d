import KeycloakOperator.Engine

/-!
# Rules for the engine

One rule for each function of the engine says what has to be shown about it, for any environment
and any state.  A pass over a live custom resource goes through a few stations: the lookup, the
preparation of the body, its submission, `PostApply` and `finalize`.  `Stations` collects what has
to be shown about them, and `Stations.wp_apply` puts the pass together.  Nothing else follows the
code of the engine from one call to the next.
-/

namespace KeycloakOperator

open Prog

/-- The representation that a spec asks for: its JSON without the operator's fields. -/
def Spec.representation (s : Spec) : Object := Engine.representation s.driver s

/-- Nothing about the object itself keeps a pass from looking for its resource. -/
def ManagedObject.Ready (obj : ManagedObject) : Prop :=
  obj.spec.driver.protected? obj = none ∧
    ∃ effective, effectivePayload obj.spec.representation obj.lastApplied = .ok effective

/-- The guard of `handleExisting`: the policy lets the pass work on what the lookup returned. -/
def ManagedObject.Accepts (obj : ManagedObject) (remote : Object) : Prop :=
  obj.spec.adoption ≠ .failIfExists ∧
    (Engine.managed obj.spec.driver obj remote ∨ obj.spec.adoption = .adopt)

/-- The object itself keeps the pass from looking for its resource. -/
inductive ManagedObject.Declines (obj : ManagedObject) : Reason → String → Prop where
  | shielded {message : String} (h : obj.spec.driver.protected? obj = some message) :
      Declines obj .protectedRealm message
  | malformed {complaint : String} (hopen : obj.spec.driver.protected? obj = none)
      (h : effectivePayload obj.spec.representation obj.lastApplied = .error complaint) :
      Declines obj .failed complaint

/-- The policy keeps the pass from the resource that the lookup returned. -/
inductive ManagedObject.Rejects (obj : ManagedObject) (remote : Object) : String → Prop where
  | existing (h : obj.spec.adoption = .failIfExists) :
      Rejects obj remote "adoptionPolicy is FailIfExists and the resource exists on the server"
  | foreign (hpolicy : obj.spec.adoption ≠ .failIfExists) (h : ¬ obj.Accepts remote) :
      Rejects obj remote
        "A foreign resource with the same key exists; set adoptionPolicy: Adopt to take it over"

namespace Engine

/-- What follows `PostApply` after a creation. -/
def afterCreate (e : Engine) (obj mem : ManagedObject) (_ : Bool) : Action Pass :=
  e.finalize mem obj obj.spec.representation true

/-- What follows `PostApply` for an existing resource. -/
def afterEnforce (e : Engine) (obj : ManagedObject) (changed : Bool) (mem : ManagedObject)
    (postChanged : Bool) : Action Pass := do
  if postChanged then
    perform (.driftCorrected mem.spec.kind)
  e.finalize mem obj obj.spec.representation (changed || postChanged)

/-- What follows a creation that fails. -/
def notCreated (e : Engine) (obj : ManagedObject) (err : Err) : Action Pass :=
  if err.kind = .conflict then
    e.refuse obj obj .alreadyExists ("Resource appeared during reconciliation: " ++ err.text) 0
  else
    retry obj obj err "Create failed"

/-- What follows an update that fails. -/
def notUpdated (e : Engine) (obj : ManagedObject) (err : Err) : Action Pass :=
  if err.kind = .conflict then
    e.refuse obj obj .alreadyExists err.text 0
  else
    retry obj obj err "Update failed"

theorem notCreated_conflict {e : Engine} {obj : ManagedObject} {err : Err}
    (hkind : err.kind = .conflict) : e.notCreated obj err = e.refuse obj obj .alreadyExists
      ("Resource appeared during reconciliation: " ++ err.text) 0 :=
  if_pos hkind

theorem notCreated_of_ne {e : Engine} {obj : ManagedObject} {err : Err}
    (hkind : err.kind ≠ .conflict) : e.notCreated obj err = retry obj obj err "Create failed" :=
  if_neg hkind

theorem notUpdated_conflict {e : Engine} {obj : ManagedObject} {err : Err}
    (hkind : err.kind = .conflict) :
    e.notUpdated obj err = e.refuse obj obj .alreadyExists err.text 0 :=
  if_pos hkind

theorem notUpdated_of_ne {e : Engine} {obj : ManagedObject} {err : Err}
    (hkind : err.kind ≠ .conflict) : e.notUpdated obj err = retry obj obj err "Update failed" :=
  if_neg hkind

/-- The report of a lookup that fails after the creation. -/
def unfetched (obj : ManagedObject) (err : Err) : Action Pass := do
  return { obj := ← setCondition obj obj .ready .false .retrying err.text, err := some err }

/-- The report of a connection that is not available. -/
def unavailable (obj : ManagedObject) (message : String) : Action Pass := do
  let obj ← setConditions obj obj .false .connectionUnavailable message "Connection unavailable"
  return { obj := obj, requeueAfter := connectionRetry }

/-- The ways in which a pass over a live custom resource stops before `finalize`. -/
inductive Stops (e : Engine) (obj : ManagedObject) : Action Pass → Prop where
  | refused (mem : ManagedObject) (reason : Reason) (message : String) (requeueAfter : Nat) :
      Stops e obj (e.refuse mem obj reason message requeueAfter)
  | retried (err : Err) (synced : String) : Stops e obj (retry obj obj err synced)
  | unfetched (err : Err) : Stops e obj (unfetched obj err)
  | unavailable (message : String) : Stops e obj (unavailable obj message)

theorem Stops.notCreated (e : Engine) (obj : ManagedObject) (err : Err) :
    e.Stops obj (e.notCreated obj err) := by
  unfold Engine.notCreated
  split
  · exact .refused _ _ _ _
  · exact .retried _ _

theorem Stops.notUpdated (e : Engine) (obj : ManagedObject) (err : Err) :
    e.Stops obj (e.notUpdated obj err) := by
  unfold Engine.notUpdated
  split
  · exact .refused _ _ _ _
  · exact .retried _ _

theorem Stops.unfinished {e : Engine} {obj : ManagedObject} {p : Action Pass}
    (h : e.Stops obj p) : Yields (fun pass => pass.finalized = false) p := by
  rcases h with ⟨mem, reason, message, requeueAfter⟩ | ⟨err, synced⟩ | ⟨err⟩ | ⟨message⟩ <;>
    exact yields_bind fun _ => rfl

/-- The two ways to go on after `PostApply`. -/
inductive Concludes (e : Engine) (obj : ManagedObject) :
    (ManagedObject → Bool → Action Pass) → Prop where
  | created : Concludes e obj (e.afterCreate obj)
  | enforced (changed : Bool) : Concludes e obj (e.afterEnforce obj changed)

section Rules

variable {σ : Type} {env : Env operations σ} {guard : Op → σ → Prop} {post : Pass → σ → Prop}
  {s : σ} {e : Engine} {kc : Conn} {obj mem base : ManagedObject}

theorem wp_refuse_of {reason : Reason} {message : String} {requeueAfter : Nat}
    (h : wp env guard (setConditions mem base .false reason message message) (fun mem' t =>
      post { obj := mem', requeueAfter := requeueAfter } t ∧
        wp env guard (e.record .warning reason.text message)
          (fun _ u => post { obj := mem', requeueAfter := requeueAfter } u) t) s) :
    wp env guard (e.refuse mem base reason message requeueAfter) post s := by
  unfold refuse fail
  refine wp_bind.mpr (wp_bind.mpr (wp_mono ?_ h))
  rintro mem' t ⟨hquiet, hevent⟩
  dsimp only
  split <;> split
  · exact wp_bind.mpr hevent
  · exact hquiet
  · exact wp_bind.mpr hevent
  · exact hquiet

theorem wp_finalize_of {specMap : Object} {synced : Bool}
    (hrecorded : mem.lastApplied = .marshalled specMap → wp env guard (e.succeed
      { mem with status := { mem.status with observedGeneration := mem.generation } } base synced)
      post s)
    (hpatch : mem.lastApplied ≠ .marshalled specMap →
      let new := { mem with
        status := { mem.status with observedGeneration := mem.generation }
        lastApplied := .marshalled specMap }
      wp env guard (perform (.patchObject base new)) (fun answer t =>
        match answer with
        | .ok stored => wp env guard (e.succeed stored base synced) post t
        | .error err => post { obj := new, err := some err } t) s) :
    wp env guard (e.finalize mem base specMap synced) post s := by
  unfold finalize
  dsimp only
  split
  case isTrue hdiffers =>
    refine wp_bind.mpr (wp_mono ?_ (hpatch hdiffers))
    rintro (err | stored) t hanswer <;> exact hanswer
  case isFalse hsame => exact hrecorded (not_not.mp hsame)

theorem wp_settle_of {remote : Object} {next : ManagedObject → Bool → Action Pass}
    (h : wp env guard (obj.spec.driver.postApply kc obj remote) (fun result t =>
      match result.2 with
      | .error err => wp env guard (e.refuse result.1 base .failed err.text secretRetry) post t
      | .ok changed => wp env guard (next result.1 changed) post t) s) :
    wp env guard (e.settle obj.spec.driver kc obj base remote next) post s := by
  refine wp_bind.mpr (wp_mono ?_ h)
  rintro ⟨mem, err | changed⟩ t hresult <;> exact hresult

/-- A continuation comes to `finalize`, maybe after a count. -/
theorem Concludes.wp {next : ManagedObject → Bool → Action Pass} {changed : Bool}
    (h : e.Concludes obj next)
    (hfinalize : ∀ synced,
      wp env guard (e.finalize mem obj obj.spec.representation synced) post s)
    (hcount : ∀ synced, wp env guard (perform (.driftCorrected mem.spec.kind)) (fun _ t =>
      wp env guard (e.finalize mem obj obj.spec.representation synced) post t) s) :
    wp env guard (next mem changed) post s := by
  rcases h with _ | updated
  · exact hfinalize true
  · rcases changed with _ | _
    · exact hfinalize _
    · exact wp_bind.mpr (hcount _)

theorem wp_handleDeletion_of
    (hkept : obj.spec.deletion ≠ .delete → wp env guard (updateObject (removeFinalizer obj) 0) post s)
    (hdelete : obj.spec.deletion = .delete →
      wp env guard (obj.spec.driver.delete kc).run (fun result t =>
        (∀ err, result = .error err → err.kind ≠ .notFound →
          post { obj := obj, err := some err } t) ∧
        ((∀ err, result = .error err → err.kind = .notFound) →
          wp env guard (e.record .normal "Deleted" "Deleted resource on Keycloak server")
            (fun _ u => wp env guard (updateObject (removeFinalizer obj) 0) post u) t)) s) :
    wp env guard (e.handleDeletion obj.spec.driver kc obj) post s := by
  unfold handleDeletion
  split
  case isTrue hpolicy =>
    refine wp_bind.mpr (wp_mono ?_ (hdelete hpolicy))
    rintro (err | _) t ⟨hfailed, hgone⟩
    · dsimp only
      split
      case isTrue hkind => exact hfailed err rfl hkind
      case isFalse hkind =>
        refine wp_bind.mpr (hgone fun err' herr' => ?_)
        cases herr'
        exact not_not.mp hkind
    · exact wp_bind.mpr (hgone fun err herr => by cases herr)
  case isFalse hpolicy => exact hkept hpolicy

end Rules

theorem unfinished_updateObject (obj : ManagedObject) (requeueAfter : Nat) :
    Yields (fun pass => pass.finalized = false) (updateObject obj requeueAfter) := by
  rintro (err | stored) <;> rfl

theorem unfinished_handleDeletion (e : Engine) (kc : Conn) (obj : ManagedObject) :
    Yields (fun pass => pass.finalized = false) (e.handleDeletion obj.spec.driver kc obj) := by
  have hupdate : ∀ s, wp (fun _ _ _ _ => True) ⊤
      (updateObject (removeFinalizer obj) 0) (fun pass (_ : Unit) => pass.finalized = false) s :=
    wp_of_yields (unfinished_updateObject _ _)
  refine yields_of_wp (wp_handleDeletion_of (fun _ => hupdate _) fun _ => ?_)
  exact wp_mono (fun result _ _ => ⟨fun _ _ _ => rfl, fun _ =>
    wp_mono (fun _ _ _ => hupdate _) (wp_true _ _)⟩) (wp_true _ _)

end Engine

/-! ### The stations -/

/-- What has to be shown about the stations of a pass over `obj`: `begun` holds at the lookup,
    `absent` and `present` after it, and `placed` when `PostApply` is next. -/
structure Stations {σ : Type} (e : Engine) (env : Env operations σ) (guard : Op → σ → Prop)
    (kc : Conn) (obj : ManagedObject) (begun absent : σ → Prop) (present : Object → σ → Prop)
    (placed : Object → (ManagedObject → Bool → Action Pass) → σ → Prop)
    (post : Pass → σ → Prop) : Prop where
  declined : ∀ {reason message s}, obj.Declines reason message → begun s →
    wp env guard (e.refuse obj obj reason message 0) post s
  looked : ∀ {s}, obj.Ready → begun s →
    wp env guard (obj.spec.driver.get kc).run (fun found t =>
      match found with
      | .error err => (err.kind = .notFound → absent t) ∧ (err.kind ≠ .notFound →
          wp env guard (Engine.retry obj obj err "Server unreachable") post t)
      | .ok remote => present remote t) s
  rejected : ∀ {remote message s}, obj.Ready → obj.Rejects remote message → present remote s →
    wp env guard (e.refuse obj obj .alreadyExists message 0) post s
  adopted : ∀ {remote s}, present remote s →
    wp env guard (e.record .normal "Adopted" ("Adopted existing " ++ obj.spec.kind.name))
      (fun _ t => present remote t) s
  enforced : ∀ {effective remote adopting s}, obj.spec.driver.protected? obj = none →
    effectivePayload obj.spec.representation obj.lastApplied = .ok effective →
    obj.Accepts remote → Engine.managed obj.spec.driver obj remote = !adopting → present remote s →
    wp env guard (obj.spec.driver.preparePayload obj (obj.spec.driver.managedMarker effective)).run
      (fun prepared t =>
        match prepared with
        | .error err => wp env guard (e.refuse obj obj .secretMissing err.text secretRetry) post t
        | .ok payload =>
          ((adopting || payloadDiffers remote payload) = false →
            placed remote (e.afterEnforce obj false) t) ∧
          ((adopting || payloadDiffers remote payload) = true →
            wp env guard (e.correctDrift obj.spec.driver kc obj remote payload).run
              (fun updated u =>
                match updated with
                | .error err => wp env guard (e.notUpdated obj err) post u
                | .ok () => placed remote (e.afterEnforce obj true) u) t)) s
  created : ∀ {effective s}, obj.spec.driver.protected? obj = none →
    effectivePayload obj.spec.representation obj.lastApplied = .ok effective → absent s →
    wp env guard (obj.spec.driver.preparePayload obj effective).run (fun prepared t =>
      match prepared with
      | .error err => wp env guard (e.refuse obj obj .secretMissing err.text secretRetry) post t
      | .ok payload =>
        wp env guard (obj.spec.driver.create kc (obj.spec.driver.managedMarker payload)).run
          (fun created u =>
            match created with
            | .error err => wp env guard (e.notCreated obj err) post u
            | .ok () =>
              wp env guard (e.record .normal "Created"
                ("Created " ++ obj.spec.kind.name ++ " on Keycloak server")) (fun _ v =>
                wp env guard (obj.spec.driver.get kc).run (fun fetched x =>
                  match fetched with
                  | .error err => wp env guard (Engine.unfetched obj err) post x
                  | .ok remote => placed remote (e.afterCreate obj) x) v) u) t) s
  settled : ∀ {remote next s}, e.Concludes obj next → placed remote next s →
    wp env guard (e.settle obj.spec.driver kc obj obj remote next) post s

namespace Stations

variable {σ : Type} {e : Engine} {env : Env operations σ} {guard : Op → σ → Prop} {kc : Conn}
  {obj : ManagedObject} {begun absent : σ → Prop} {present : Object → σ → Prop}
  {placed : Object → (ManagedObject → Bool → Action Pass) → σ → Prop} {post : Pass → σ → Prop}
  {s : σ} {effective remote : Object}

theorem wp_enforce (h : Stations e env guard kc obj begun absent present placed post)
    (hopen : obj.spec.driver.protected? obj = none)
    (heffective : effectivePayload obj.spec.representation obj.lastApplied = .ok effective)
    (haccepts : obj.Accepts remote) {adopting : Bool}
    (hadopting : Engine.managed obj.spec.driver obj remote = !adopting) (hs : present remote s) :
    wp env guard (e.enforce obj.spec.driver kc obj obj obj.spec.representation effective remote
      adopting) post s := by
  refine wp_bind.mpr (wp_mono ?_ (h.enforced hopen heffective haccepts hadopting hs))
  rintro (err | payload) t hprepared
  · exact hprepared
  obtain ⟨hagrees, hdiffers⟩ := hprepared
  refine wp_bind.mpr ?_
  rcases hchanged : adopting || payloadDiffers remote payload with _ | _
  · exact h.settled (.enforced false) (hagrees hchanged)
  · refine wp_mono ?_ (hdiffers hchanged)
    rintro (err | _) u hupdated
    · exact hupdated
    · exact h.settled (.enforced true) hupdated

theorem wp_handleExisting (h : Stations e env guard kc obj begun absent present placed post)
    (hopen : obj.spec.driver.protected? obj = none)
    (heffective : effectivePayload obj.spec.representation obj.lastApplied = .ok effective)
    (hs : present remote s) :
    wp env guard (e.handleExisting obj.spec.driver kc obj obj obj.spec.representation effective
      remote) post s := by
  have hready : obj.Ready := ⟨hopen, effective, heffective⟩
  unfold Engine.handleExisting
  split
  case isTrue hpolicy => exact h.rejected hready (.existing hpolicy) hs
  case isFalse hpolicy =>
    split
    case isTrue hmanaged =>
      exact h.wp_enforce hopen heffective ⟨hpolicy, .inl hmanaged⟩ hmanaged hs
    case isFalse hforeign =>
      split
      case isTrue hadopt =>
        refine wp_bind.mpr (wp_mono (fun _ t ht => ?_) (h.adopted hs))
        exact h.wp_enforce hopen heffective ⟨hpolicy, .inr hadopt⟩ (by simpa using hforeign) ht
      case isFalse hpolicy' =>
        exact h.rejected hready (.foreign hpolicy fun haccepts =>
          haccepts.2.elim hforeign hpolicy') hs

theorem wp_handleCreate (h : Stations e env guard kc obj begun absent present placed post)
    (hopen : obj.spec.driver.protected? obj = none)
    (heffective : effectivePayload obj.spec.representation obj.lastApplied = .ok effective)
    (hs : absent s) :
    wp env guard (e.handleCreate obj.spec.driver kc obj obj obj.spec.representation effective)
      post s := by
  refine wp_bind.mpr (wp_mono ?_ (h.created hopen heffective hs))
  rintro (err | payload) t hprepared
  · exact hprepared
  refine wp_bind.mpr (wp_mono ?_ hprepared)
  rintro (err | _) u hcreated
  · exact hcreated
  refine wp_bind.mpr (wp_mono (fun _ v hrecorded => ?_) hcreated)
  refine wp_bind.mpr (wp_mono ?_ hrecorded)
  rintro (err | remote) x hfetched
  · exact hfetched
  · exact h.settled .created hfetched

/-- **The pass from the lookup of the resource on.** -/
theorem wp_apply (h : Stations e env guard kc obj begun absent present placed post)
    (hs : begun s) : wp env guard (e.apply obj.spec.driver kc obj) post s := by
  rcases hprotected : obj.spec.driver.protected? obj with _ | message
  case some =>
    rw [Engine.apply_protected hprotected]
    exact h.declined (.shielded hprotected) hs
  rcases heffective : effectivePayload obj.spec.representation obj.lastApplied with
    complaint | effective
  · rw [Engine.apply_malformed hprotected heffective]
    exact h.declined (.malformed hprotected heffective) hs
  rw [Engine.apply_fetches hprotected heffective]
  refine wp_bind.mpr (wp_mono ?_ (h.looked ⟨hprotected, effective, heffective⟩ hs))
  rintro (err | remote) t hfound
  · dsimp only
    split
    case isTrue hkind => exact h.wp_handleCreate hprotected heffective (hfound.1 hkind)
    case isFalse hkind => exact hfound.2 hkind
  · exact h.wp_handleExisting hprotected heffective hfound

end Stations

/-- A pass over a managed resource that differs from its payload comes to the update. -/
theorem Engine.performs_correctDrift {σ : Type} {e : Engine} {env : Env operations σ} {P : Op → Prop}
    {kc : Conn} {obj : ManagedObject} {effective remote payload : Object} {s t u v : σ}
    (hlive : obj.deletionTimestamp = none) (hfinalizer : finalizerName ∈ obj.finalizers)
    (hopen : obj.spec.driver.protected? obj = none)
    (heffective : effectivePayload obj.spec.representation obj.lastApplied = .ok effective)
    (hpolicy : obj.spec.adoption ≠ .failIfExists)
    (hmanaged : Engine.managed obj.spec.driver obj remote = true)
    (hconnect : Returns env (perform (.connect obj.ns obj.spec.connectionName)) s (.ok kc) t)
    (hget : Returns env (obj.spec.driver.get kc).run t (.ok remote) u)
    (hprepare : Returns env (obj.spec.driver.preparePayload obj
      (obj.spec.driver.managedMarker effective)).run u (.ok payload) v)
    (hdiffers : payloadDiffers remote payload = true)
    (h : Performs env P (e.correctDrift obj.spec.driver kc obj remote payload).run v) :
    Performs env P (e.reconcile obj) s := by
  refine performs_bind ?_ _
  unfold reconcileWith
  rw [if_neg (by simp [hlive])]
  refine hconnect.performs ?_
  dsimp only
  rw [if_neg (by simp [hlive]), if_neg (not_not.mpr hfinalizer),
    Engine.apply_fetches hopen heffective]
  refine hget.performs ?_
  dsimp only
  unfold handleExisting
  rw [if_neg hpolicy, if_pos hmanaged]
  refine hprepare.performs ?_
  simp only [Bool.false_or, hdiffers, if_true]
  exact performs_bind h _

/-! ### Passes that come back -/

/-- The pass returns an error or asks for another one. -/
def Pass.Returning (pass : Pass) : Prop := pass.err ≠ none ∨ 0 < pass.requeueAfter

instance : DecidablePred Pass.Returning := fun _ => inferInstanceAs (Decidable (_ ∨ _))

section Returning

variable {e : Engine} {kc : Conn} {obj : ManagedObject}

theorem returning_refuse (mem base : ManagedObject) (reason : Reason) (message : String)
    {requeueAfter : Nat} (hpos : 0 < requeueAfter) :
    Yields Pass.Returning (e.refuse mem base reason message requeueAfter) :=
  yields_bind fun _ => .inr hpos

theorem returning_retry (mem base : ManagedObject) (err : Err) (synced : String) :
    Yields Pass.Returning (Engine.retry mem base err synced) :=
  yields_bind fun _ => .inl (Option.some_ne_none err)

theorem returning_unfetched (obj : ManagedObject) (err : Err) :
    Yields Pass.Returning (Engine.unfetched obj err) :=
  yields_bind fun _ => .inl (Option.some_ne_none err)

theorem returning_unavailable (obj : ManagedObject) (message : String) :
    Yields Pass.Returning (Engine.unavailable obj message) :=
  yields_bind fun _ => .inr (show 0 < connectionRetry by decide)

theorem returning_notCreated {err : Err} (hkind : err.kind ≠ .conflict) :
    Yields Pass.Returning (e.notCreated obj err) := by
  rw [Engine.notCreated_of_ne hkind]
  exact returning_retry _ _ _ _

theorem returning_notUpdated {err : Err} (hkind : err.kind ≠ .conflict) :
    Yields Pass.Returning (e.notUpdated obj err) := by
  rw [Engine.notUpdated_of_ne hkind]
  exact returning_retry _ _ _ _

theorem returning_updateObject (obj : ManagedObject) {requeueAfter : Nat} (hpos : 0 < requeueAfter) :
    Yields Pass.Returning (Engine.updateObject obj requeueAfter) := by
  rintro (err | stored)
  · exact .inl (Option.some_ne_none err)
  · exact .inr hpos

theorem returning_succeed (mem base : ManagedObject) (synced : Bool) :
    Yields Pass.Returning (e.succeed mem base synced) :=
  yields_bind fun _ => .inr e.resync_pos

theorem returning_finalize (mem base : ManagedObject) (specMap : Object) (synced : Bool) :
    Yields Pass.Returning (e.finalize mem base specMap synced) := by
  refine yields_of_wp (Engine.wp_finalize_of
    (fun _ => wp_of_yields (returning_succeed _ _ _) _) fun _ => wp_mono ?_ (wp_true _ _))
  rintro (err | stored) _ -
  · exact .inl (Option.some_ne_none err)
  · exact wp_of_yields (returning_succeed _ _ _) _

/-- From `PostApply` on, the pass comes back. -/
theorem returning_settle {remote : Object} {next : ManagedObject → Bool → Action Pass}
    (hnext : e.Concludes obj next) :
    Yields Pass.Returning (e.settle obj.spec.driver kc obj obj remote next) := by
  refine yields_of_wp (Engine.wp_settle_of (wp_mono ?_ (wp_true _ _)))
  rintro ⟨mem, err | changed⟩ _ -
  · exact wp_of_yields (returning_refuse _ _ _ _ (by decide)) _
  · exact hnext.wp (fun _ => wp_of_yields (returning_finalize _ _ _ _) _) fun _ =>
      wp_mono (fun _ _ _ => wp_of_yields (returning_finalize _ _ _ _) _) (wp_true _ _)

/-- A refusal that asks for nothing. -/
theorem dropped_refuse (mem base : ManagedObject) (reason : Reason) (message : String) :
    Yields (fun pass => ¬ pass.Returning) (e.refuse mem base reason message 0) := by
  refine yields_bind fun mem => ?_
  rintro (herr | hpos)
  · exact herr rfl
  · exact Nat.lt_irrefl 0 hpos

end Returning

/-- The steps are those of a call with this result. -/
def Ran {σ : Type} (call : Call α) (steps : List (Step operations σ)) (result : Except Err α) :
    Prop :=
  ∃ s t, Exec (fun _ _ _ _ => True) call.run s steps t (some result)

theorem ran_of_exec {σ : Type} {env : Env operations σ} {call : Call α} {s t : σ}
    {steps : List (Step operations σ)} {result : Except Err α}
    (h : Exec env call.run s steps t (some result)) : Ran call steps result :=
  ⟨s, t, h.mono fun _ _ _ _ _ => trivial⟩

/-- **The pass around the lookup**: the deletion, the connection, the finalizer and the count. -/
theorem Engine.wp_reconcile_of {σ : Type} {e : Engine} {env : Env operations σ}
    {guard : Op → σ → Prop} {obj : ManagedObject} {post : Pass → σ → Prop} {s : σ}
    (reached : Pass → σ → Prop)
    (hcounted : ∀ pass t, reached pass t →
      wp env guard (perform (.reconciled obj.spec.kind (outcome pass.obj))) (fun _ => post pass) t)
    (horphaned : obj.deletionTimestamp.isSome ∧ obj.spec.deletion = .orphan →
      wp env guard (updateObject (removeFinalizer obj) 0) reached s)
    (hconnect : ¬ (obj.deletionTimestamp.isSome ∧ obj.spec.deletion = .orphan) →
      wp env guard (perform (.connect obj.ns obj.spec.connectionName)) (fun answer t =>
        match answer with
        | .error message => wp env guard (unavailable obj message) reached t
        | .ok kc =>
          (obj.deletionTimestamp.isSome →
            wp env guard (e.handleDeletion obj.spec.driver kc obj) reached t) ∧
          (obj.deletionTimestamp = none → finalizerName ∉ obj.finalizers → wp env guard
            (updateObject { obj with finalizers := obj.finalizers ++ [finalizerName] } second)
            reached t) ∧
          (obj.deletionTimestamp = none → finalizerName ∈ obj.finalizers →
            wp env guard (e.apply obj.spec.driver kc obj) reached t)) s) :
    wp env guard (e.reconcile obj) post s := by
  have hpass : wp env guard (e.reconcileWith obj.spec.driver obj) reached s := by
    unfold reconcileWith
    split
    case isTrue horphan => exact horphaned horphan
    case isFalse hkept =>
      refine wp_bind.mpr (wp_mono ?_ (hconnect hkept))
      rintro (message | kc) t hconnected
      · exact hconnected
      obtain ⟨hdeleted, hnew, hengaged⟩ := hconnected
      dsimp only
      split
      case isTrue hdeletion => exact hdeleted hdeletion
      case isFalse hlive =>
        have hlive : obj.deletionTimestamp = none := by simpa using hlive
        split
        case isTrue hmissing => exact hnew hlive hmissing
        case isFalse hfinalizer => exact hengaged hlive (not_not.mp hfinalizer)
  refine wp_bind.mpr (wp_mono (fun pass t hpost => ?_) hpass)
  exact wp_bind.mpr (hcounted pass t hpost)

/-- A pass reads the custom resource, or stops. -/
theorem Engine.wp_controllerReconcile_of {σ : Type} {e : Engine} {env : Env operations σ}
    {guard : Op → σ → Prop} {post : Except Err (Option Pass) → σ → Prop} {s : σ}
    (hguard : guard .getObject s)
    (hstopped : ∀ err t, env .getObject s (.error err) t →
      ∀ result, (∀ pass, result ≠ .ok (some pass)) → post result t)
    (hread : ∀ obj t, env .getObject s (.ok obj) t →
      wp env guard (e.reconcile obj) (fun pass => post (.ok (some pass))) t) :
    wp env guard e.controllerReconcile.run post s := by
  refine ⟨hguard, fun answer t hstep => ?_⟩
  rcases answer with err | obj
  · simp only [Prog.bind]
    split <;> exact hstopped err t hstep _ fun pass heq => by cases heq
  · exact (wp_bind (p := e.reconcile obj)).mpr (hread obj t hstep)

end KeycloakOperator
