import KeycloakOperator.Remembered
import KeycloakOperator.Requeue

/-!
# Half-finished creations

Once the server has accepted a creation, the pass may still fail: the lookup, `PostApply` or
the annotation patch may return an error, or the process may stop.  The next passes find the
resource on the server and have to recognise it, by the marker of its representation or by
the annotation of the custom resource.  Identity providers have no marker, so under
CreateOnly theirs rests on the annotation alone, which is written last.
-/

namespace KeycloakOperator

open Prog

/-- The pass refused the resource: it asks for nothing, and Ready says `AlreadyExists`. -/
def Pass.RefusesExisting (pass : Pass) : Prop :=
  pass.err = none ∧ pass.requeueAfter = 0 ∧
    ∃ c, findStatusCondition pass.obj.status.conditions .ready = some c ∧
      c.reason = .alreadyExists

/-- Between two passes the custom resource, the connections and the resource under the key
    stay as they are. -/
def World.LeavesAlone (kc : Conn) (s : Spec) (w w' : World) : Prop :=
  w'.object = w.object ∧ w'.connections = w.connections ∧ w'.target kc s = w.target kc s

/-- A pass in this state does not refuse the resource of `obj`, whatever outages it meets.
    When all calls succeed it enforces the spec, unless a Secret is missing or `PostApply`
    fails. -/
structure Resumes (e : Engine) (kc : Conn) (obj : ManagedObject) (w : World) : Prop where
  unrefused : ∀ steps t pass,
    Exec Flaky e.controllerReconcile.run w steps t (some (.ok (some pass))) →
    ¬ pass.RefusesExisting
  enforced : ∀ steps t pass,
    Exec Reliable e.controllerReconcile.run w steps t (some (.ok (some pass))) →
    (pass.finalized = true ∧ ∃ cur r, w.object = some cur ∧ cur.spec = obj.spec ∧
      t.target kc obj.spec = some r ∧ Stored kc.label cur (w.target kc obj.spec) r) ∨
    (pass.err = none ∧ pass.requeueAfter = secretRetry)

/-! ### The custom resource through a pass -/

/-- The object with another status and another annotation. -/
def ManagedObject.Alike (obj cur : ManagedObject) : Prop :=
  ∃ status text, cur = { obj with status := status, lastApplied := text }

/-- The operation writes nothing of the custom resource but its status and annotation. -/
def Op.KeepsRest : Op → Prop
  | .updateObject _ => False
  | .patchObject base obj => base.Alike obj
  | _ => True

section Alike

variable {w w' : World} {obj : ManagedObject}

theorem reliable_alike {op : Op} {answer : op.Answer} (hop : op.KeepsRest)
    (h : Reliable op w answer w') (hw : ∃ cur, w.object = some cur ∧ obj.Alike cur) :
    ∃ cur, w'.object = some cur ∧ obj.Alike cur := by
  obtain ⟨_, hcur, status, text, rfl⟩ := hw
  by_cases hwrites : op.WritesObject
  case neg => exact ⟨_, (reliable_object hwrites h).trans hcur, status, text, rfl⟩
  obtain ⟨order, now, rfl⟩ := reliable_state h
  rcases op with _ | _ | _ | _ | _ | _ | ⟨base, new⟩ | ⟨base, new⟩ | _ | _ | _ | _ | _ | _
  case patchObject =>
    obtain ⟨status', text', rfl⟩ := hop
    simp only [World.handle, World.patchObject, hcur]
    exact ⟨_, rfl, status, World.patched base.lastApplied text' text, by simp [World.patched]⟩
  case patchStatus =>
    simp only [World.handle, World.patchStatus, hcur]
    exact ⟨_, rfl, _, text, rfl⟩
  case updateObject => exact hop.elim
  all_goals exact hwrites.elim

theorem faulty_alike {op : Op} {answer : op.Answer} (hop : op.KeepsRest)
    (h : Faulty op w answer w') (hw : ∃ cur, w.object = some cur ∧ obj.Alike cur) :
    ∃ cur, w'.object = some cur ∧ obj.Alike cur :=
  faulty_elim h hw fun _ h => reliable_alike hop h hw

end Alike

/-! ### Recognition -/

theorem ManagedObject.admits_iff {obj : ManagedObject} {r : Resource} :
    obj.Admits r ↔ obj.spec.adoption ≠ .failIfExists ∧ (obj.spec.kind.marked r.report = true ∨
      obj.lastApplied ≠ .empty ∨ obj.spec.adoption = .adopt) := by
  unfold Admits Engine.managed
  rw [driver_isManaged, Bool.or_eq_true, decide_eq_true_iff, or_assoc]

section Stored

variable {label : String} {obj cur : ManagedObject} {r r₀ : Resource}

/-- An admitted resource is admitted after the update. -/
theorem Stored.admits_updated (h : Stored label obj (some r₀) r) (hspec : cur.spec = obj.spec)
    (hrecord : obj.lastApplied ≠ .empty → cur.lastApplied ≠ .empty) :
    cur.Admits r ∧ r.id = r₀.id := by
  obtain ⟨hadmits, payload, hbuilds, haccepted⟩ := h
  obtain ⟨hpolicy, hmanaged⟩ := ManagedObject.admits_iff.mp (hadmits r₀ rfl)
  rw [ManagedObject.admits_iff, hspec]
  rcases haccepted with haccepted | ⟨hsame, -⟩
  · cases haccepted
    refine ⟨⟨hpolicy, ?_⟩, rfl⟩
    rcases hmanaged with hmarked | hrecorded | hadopt
    · left
      refine hbuilds.marked_overlay (fun hkind => ?_) r₀
      rw [hkind] at hmarked
      cases hmarked
    · exact .inr (.inl (hrecord hrecorded))
    · exact .inr (.inr hadopt)
  · cases hsame
    exact ⟨⟨hpolicy, hmanaged.imp_right (Or.imp_left hrecord)⟩, rfl⟩

/-- A created resource is recognised by its marker, or else by the annotation or the
    policy. -/
theorem Stored.admits_created (h : Stored label obj none r) (hspec : cur.spec = obj.spec)
    (hpolicy : obj.spec.adoption ≠ .failIfExists)
    (hrecognised : obj.spec.kind ≠ .identityProvider ∨ obj.spec.adoption = .adopt ∨
      cur.lastApplied ≠ .empty) :
    cur.Admits r ∧ r.id ≠ "" := by
  obtain ⟨-, payload, hbuilds, haccepted | ⟨hsame, -⟩⟩ := h
  case inr => cases hsame
  obtain ⟨id, hid⟩ := haccepted
  rw [ManagedObject.admits_iff, hspec]
  refine ⟨⟨hpolicy, ?_⟩, hid⟩
  rcases hrecognised with hkind | hadopt | hrecorded
  · left
    rw [← hbuilds.marked hkind]
    apply Kind.marked_congr
    rw [Resource.get_report_of_ne _ (by decide), FiniteMap.get_erase_of_ne _ (by decide)]
  · exact .inr (.inr hadopt)
  · exact .inr (.inl hrecorded)

end Stored

/-- The resource of `obj` is on the server, and passes over the custom resource admit it. -/
structure World.Recognises (w : World) (kc : Conn) (obj : ManagedObject) : Prop where
  connected : w.connections obj.ns obj.spec.connectionName = .ok kc
  admitted : ∃ cur r, w.object = some cur ∧ obj.Alike cur ∧ w.target kc obj.spec = some r ∧
    r.id ≠ "" ∧ cur.Admits r ∧
    ∃ effective, effectivePayload obj.spec.representation cur.lastApplied = .ok effective

section Pass

variable {e : Engine} {w t : World} {kc : Conn} {obj cur : ManagedObject}

theorem ManagedObject.Alike.spec (h : obj.Alike cur) : cur.spec = obj.spec := by
  obtain ⟨status, text, rfl⟩ := h
  rfl

/-- How far a pass has got, with the custom resource as it is stored. -/
theorem Reaches.stored (h : Reaches kc cur (w.view kc obj.spec) (t.view kc obj.spec))
    (ht : ∃ next, t.object = some next ∧ obj.Alike next) :
    t.connections = w.connections ∧ ∃ next, t.object = some next ∧ obj.Alike next ∧
      Reached kc.label cur (w.target kc obj.spec) (t.target kc obj.spec) next.lastApplied := by
  obtain ⟨next, hnext, halike⟩ := ht
  obtain ⟨hconnections, text, hcore, hreached⟩ := h
  have hview : (t.view kc obj.spec).object = some next.core := by simp [World.view, hnext]
  have htext : next.lastApplied = text :=
    congrArg Core.lastApplied (Option.some.inj (hview.symm.trans hcore))
  exact ⟨hconnections, next, hnext, halike, htext ▸ hreached⟩

/-- The states of a pass over a resource that it admits. -/
theorem Reaches.recognises (hw : w.Recognises kc obj) (hcur : w.object = some cur)
    (h : Reaches kc cur (w.view kc obj.spec) (t.view kc obj.spec))
    (ht : ∃ next, t.object = some next ∧ obj.Alike next) : t.Recognises kc obj := by
  obtain ⟨hconnection, cur', r, hcur', halike, htarget, hid, hadmits, heffective⟩ := hw
  rw [hcur, Option.some.injEq] at hcur'
  subst hcur'
  obtain ⟨hconnections, next, hnext, hnextAlike, hreached⟩ := h.stored ht
  have hspec : next.spec = cur.spec := hnextAlike.spec.trans halike.spec.symm
  refine ⟨hconnections ▸ hconnection, ?_⟩
  rw [htarget] at hreached
  generalize hafter : t.target kc obj.spec = after at hreached
  generalize htext : next.lastApplied = text at hreached
  rcases hreached with _ | ⟨hstored⟩ | ⟨hstored⟩
  · refine ⟨next, r, hnext, hnextAlike, rfl, hid, ?_, htext ▸ heffective⟩
    rw [ManagedObject.admits_iff] at hadmits ⊢
    rwa [hspec, htext]
  · obtain ⟨hadmits', hsame⟩ := hstored.admits_updated hspec fun h => htext ▸ h
    exact ⟨next, _, hnext, hnextAlike, rfl, hsame ▸ hid, hadmits', htext ▸ heffective⟩
  · obtain ⟨hadmits', hsame⟩ := hstored.admits_updated hspec fun _ h => by cases htext.symm.trans h
    exact ⟨next, _, hnext, hnextAlike, rfl, hsame ▸ hid, hadmits', _, by rw [htext]; rfl⟩

/-- The states of a pass after the creation. -/
theorem Reaches.recognises_created (hpolicy : obj.spec.adoption ≠ .failIfExists)
    (hrecognised : obj.spec.kind ≠ .identityProvider ∨ obj.spec.adoption = .adopt ∨
      obj.lastApplied ≠ .empty)
    (hconnection : w.connections obj.ns obj.spec.connectionName = .ok kc)
    (habsent : w.target kc obj.spec = none) (hcreated : t.target kc obj.spec ≠ none)
    (h : Reaches kc obj (w.view kc obj.spec) (t.view kc obj.spec))
    (ht : ∃ next, t.object = some next ∧ obj.Alike next) : t.Recognises kc obj := by
  obtain ⟨hconnections, next, hnext, halike, hreached⟩ := h.stored ht
  refine ⟨hconnections ▸ hconnection, ?_⟩
  rw [habsent] at hreached
  generalize hafter : t.target kc obj.spec = after at hreached
  generalize htext : next.lastApplied = text at hreached
  rcases hreached with _ | ⟨hstored⟩ | ⟨hstored⟩
  · exact absurd hafter hcreated
  · obtain ⟨hadmits, hid⟩ := hstored.admits_created halike.spec hpolicy (htext ▸ hrecognised)
    obtain ⟨-, payload, ⟨effective, -, heffective, -⟩, -⟩ := hstored
    exact ⟨next, _, hnext, halike, rfl, hid, hadmits, effective, htext ▸ heffective⟩
  · obtain ⟨hadmits, hid⟩ := hstored.admits_created halike.spec hpolicy
      (.inr (.inr fun h => by cases htext.symm.trans h))
    exact ⟨next, _, hnext, halike, rfl, hid, hadmits, _, by rw [htext]; rfl⟩

end Pass

/-! ### Operations that leave the servers alone -/

def Op.LeavesServers : Op → Prop
  | .admin _ request => request.method = .get
  | _ => True

theorem reliable_servers {op : Op} {w w' : World} {answer : op.Answer} (hop : op.LeavesServers)
    (h : Reliable op w answer w') : w'.servers = w.servers := by
  obtain ⟨order, now, heq⟩ := h
  have hstate : w' = (World.handle order now op w).2 := (congrArg Prod.snd heq).symm
  rcases op
  case admin kc request => rw [(reliable_get hop ⟨order, now, heq⟩).1]
  all_goals
    subst hstate
    simp only [World.handle, World.updateObject, World.patchObject, World.patchStatus,
      World.createSecret, World.updateSecret]
    try (split <;> rfl)

theorem faulty_servers {op : Op} {w w' : World} {answer : op.Answer} (hop : op.LeavesServers)
    (h : Faulty op w answer w') : w'.servers = w.servers :=
  faulty_elim h rfl fun _ h => reliable_servers hop h

/-- A pass that creates a resource is over a custom resource with the finalizer that is not
    protected. -/
theorem Engine.exec_creates {e : Engine} {w t : World} {kc : Conn} {obj : ManagedObject}
    {steps : Log} {result : Option (Except Err (Option Pass))} (hobject : w.object = some obj)
    (hlive : obj.deletionTimestamp = none)
    (hexec : Exec Faulty e.controllerReconcile.run w steps t result)
    (habsent : w.target kc obj.spec = none) (hcreated : t.target kc obj.spec ≠ none) :
    finalizerName ∈ obj.finalizers ∧ obj.spec.driver.protected? obj = none := by
  by_contra hstopped
  have hreports : ∀ op : Op, op.Remarks → op.LeavesServers := by
    rintro (_ | _) h <;> first | exact trivial | exact h.elim
  have honly : Only Op.LeavesServers (e.reconcile obj) := by
    refine e.only_reconcile (fun _ _ => trivial) (e.only_reconcileWith hreports (fun _ => trivial)
      (fun _ => trivial) ?_ ?_)
    · intro hdeleted
      simp [hlive] at hdeleted
    · intro _ hfinalizer kc
      obtain ⟨message, hmessage⟩ := Option.ne_none_iff_exists'.mp
        fun hnone => hstopped ⟨hfinalizer, hnone⟩
      exact e.only_apply_protected hreports hmessage
  have hwp : wp Faulty (fun op _ => op.LeavesServers) e.controllerReconcile.run (fun _ _ => True) w :=
    wp_pass (fun _ _ h => h) hobject trivial (fun _ _ => trivial)
      (wp_guard_mono (fun _ _ h => h.1) (wp_of_only (fun _ => True) (fun _ _ _ _ _ _ _ => trivial)
        honly trivial))
  have hservers : t.servers = w.servers := hexec.kept World.servers fun step hstep =>
    faulty_servers ((wp_sound hwp hexec).1 step hstep) (hexec.env_of_mem step hstep)
  apply hcreated
  rw [← habsent]
  unfold World.target
  rw [hservers]

/-! ### Later passes -/

section Later

variable {e : Engine} {w : World} {kc : Conn} {obj : ManagedObject}

theorem Op.Reports.keepsRest {op : Op} (h : op.Reports) : op.KeepsRest := by
  rcases op <;> first | exact trivial | exact h.elim

/-- A live pass over a custom resource with the finalizer writes nothing of it but the status
    and the annotation. -/
theorem only_keepsRest (cur : ManagedObject) (hlive : cur.deletionTimestamp = none)
    (hfinalizer : finalizerName ∈ cur.finalizers) : Only Op.KeepsRest (e.reconcile cur) := by
  refine e.only_reconcile (fun _ _ => trivial) (e.only_reconcileWith (fun _ h => h.reports.keepsRest)
    ?_ ?_ ?_ ?_)
  · intro hdeleted
    simp [hlive] at hdeleted
  · intro hmissing
    exact absurd hfinalizer hmissing
  · intro hdeleted
    simp [hlive] at hdeleted
  · intro _ _ kc
    apply e.only_apply
    · rintro (_ | _) h <;> first | exact trivial | exact h.elim
    · rintro (_ | _) h <;> first | exact trivial | exact h.elim
    · exact fun _ h => h.reports.keepsRest
    · exact fun status text => ⟨status, text, rfl⟩
    · exact fun _ _ => trivial
    · exact fun _ _ _ _ => trivial
    · rintro id op ⟨_, _, _, rfl, -⟩
      trivial

/-- The states of a live pass over `cur` that began at `w`, seen from the custom resource and
    its resource. -/
def World.Passing (w : World) (kc : Conn) (obj cur : ManagedObject) (t : World) : Prop :=
  Reaches kc cur (w.view kc obj.spec) (t.view kc obj.spec) ∧
    ∃ next, t.object = some next ∧ obj.Alike next

theorem wp_pass_reaches {cur : ManagedObject} (hcur : w.object = some cur) (halike : obj.Alike cur)
    (hlive : obj.deletionTimestamp = none) (hfinalizer : finalizerName ∈ obj.finalizers)
    (hconnection : w.connections obj.ns obj.spec.connectionName = .ok kc) :
    wp Faulty (fun _ t => w.Passing kc obj cur t) e.controllerReconcile.run
      (fun _ t => w.Passing kc obj cur t) w := by
  have hstart : Reaches kc cur (w.view kc obj.spec) (w.view kc obj.spec) :=
    ⟨rfl, cur.lastApplied, by simp [World.view, hcur, ManagedObject.core], .untouched⟩
  have hcopy := halike
  obtain ⟨status, text, rfl⟩ := hcopy
  have hkeeps : ∀ (op : Op) (t : World) (answer : op.Answer) (t' : World), op.KeepsRest →
      (∃ next, t.object = some next ∧ obj.Alike next) → Faulty op t answer t' →
      ∃ next, t'.object = some next ∧ obj.Alike next :=
    fun _ _ _ _ hop ht hstep => faulty_alike hop hstep ht
  have hrest := wp_of_only _ hkeeps
    (only_keepsRest (e := e) { obj with status := status, lastApplied := text } hlive hfinalizer)
    ⟨_, hcur, halike⟩
  have hpass := wp_and (wp_reconcile (e := e) hcur hlive hconnection) hrest
  refine wp_pass (fun _ _ h => h) hcur ⟨hstart, _, hcur, halike⟩
    (fun _ _ => ⟨hstart, _, hcur, halike⟩) ?_
  exact wp_mono (fun _ _ h => ⟨h.1.1, h.2⟩) (wp_guard_mono (fun _ _ h => ⟨h.1.2, h.2.2⟩) hpass)

/-- A pass keeps the resource recognised, wherever it stops. -/
theorem World.Recognises.pass {t : World} {steps : Log}
    {result : Option (Except Err (Option Pass))} (hlive : obj.deletionTimestamp = none)
    (hfinalizer : finalizerName ∈ obj.finalizers) (hw : w.Recognises kc obj)
    (hexec : Exec Faulty e.controllerReconcile.run w steps t result) : t.Recognises kc obj := by
  obtain ⟨cur, r, hcur, halike, -⟩ := hw.admitted
  obtain ⟨hreaches, ht⟩ : w.Passing kc obj cur t := wp_invariant (fun _ _ h => h) (fun _ _ h => h)
    (wp_pass_reaches hcur halike hlive hfinalizer hw.connected) hexec
  exact hreaches.recognises hw hcur ht

/-- A recognised state lets a pass work on the resource. -/
theorem World.Recognises.attended (hlive : obj.deletionTimestamp = none)
    (hfinalizer : finalizerName ∈ obj.finalizers)
    (hprotected : obj.spec.driver.protected? obj = none) (hw : w.Recognises kc obj) :
    ∃ cur r, w.Attends kc cur ∧ cur.spec = obj.spec ∧ cur.Ready ∧ w.Finds kc cur.spec r ∧
      cur.Admits r := by
  obtain ⟨hconnection, cur, r, hcur, ⟨status, text, rfl⟩, htarget, hid, hadmits, heffective⟩ := hw
  have hsame : obj.spec.driver.protected? { obj with status := status, lastApplied := text } =
      obj.spec.driver.protected? obj := by
    rcases obj.spec with s | s | s | s | s | s <;> rfl
  exact ⟨_, r, ⟨hcur, hlive, hfinalizer, hconnection⟩, rfl, ⟨hsame.trans hprotected, heffective⟩,
    ⟨htarget, fun _ => hid⟩, hadmits⟩

end Later

/-! ### Passes over an admitted resource -/

section Admitted

variable {e : Engine} {env : Env operations World} {outage : Prop} {post : Pass → World → Prop}
  {w : World} {kc : Conn} {obj : ManagedObject} {r : Resource}

/-- A pass that finds an admitted resource creates and refuses nothing. -/
theorem course_admitted (hready : obj.Ready) (hfinds : w.Finds kc obj.spec r)
    (hadmits : obj.Admits r)
    (hinterrupted : ∀ {p t}, outage → e.Stops obj p → Yields Pass.Returning p →
      wp env ⊤ p post t)
    (hwithheld : ∀ message, wp env ⊤
      (e.refuse obj obj .secretMissing message secretRetry) post w)
    (hsettle : ∀ {next t}, e.Concludes obj next →
      (t = w ∨ ∃ id body, env (obj.spec.revision kc id body) w (.ok ()) t) →
      wp env ⊤ (e.settle obj.spec.driver kc obj obj r.report next) post t) :
    Course e env outage (fun _ _ => True) kc obj w post := by
  have hsame : ∀ {r'}, w.Finds kc obj.spec r' → r' = r :=
    fun h => Option.some.inj (h.1.symm.trans hfinds.1)
  have hthere : ¬ w.Misses kc obj.spec := by
    intro hmisses
    obtain ⟨hgroup, hid⟩ := hmisses r hfinds.1
    exact hfinds.2 hgroup hid
  constructor
  case reads => exact fun _ _ _ => trivial
  case notes => exact fun _ _ _ _ => trivial
  case interrupted => exact hinterrupted
  case refused =>
    intro reason message requeueAfter hrefuses
    exfalso
    obtain ⟨hopen, effective, heffective⟩ := hready
    rcases hrefuses with h | ⟨-, h⟩ | ⟨-, hfound, h⟩ | ⟨-, hfound, -, h⟩
    · cases h.symm.trans hopen
    · cases h.symm.trans heffective
    · exact hadmits.1 h
    · rw [hsame hfound] at h
      exact h hadmits
  case withheld => exact fun _ => hwithheld _
  case submits => exact fun _ _ _ => trivial
  case conflicted => exact fun _ _ hmisses => absurd hmisses hthere
  case created =>
    intro payload id t _ _ hfree
    cases hfree.symm.trans hfinds.1
  case revises => exact fun _ _ _ _ _ => trivial
  case updated =>
    intro payload r' t _ _ hfound _ _ hput _
    rw [hsame hfound] at hput ⊢
    exact hsettle (.enforced true) (.inr ⟨_, _, hput⟩)
  case agreed =>
    intro payload r' _ _ hfound _ _
    rw [hsame hfound]
    exact hsettle (.enforced false) (.inl rfl)

/-- Whatever outages a pass over an admitted resource meets, it comes back. -/
theorem wp_admitted_returning (hattends : w.Attends kc obj) (hready : obj.Ready)
    (hfinds : w.Finds kc obj.spec r) (hadmits : obj.Admits r) :
    wp Flaky ⊤ e.controllerReconcile.run
      (fun result _ => ∀ pass, result = .ok (some pass) → pass.Returning) w := by
  have hreturning : wp Flaky ⊤ (e.reconcile obj) (fun pass _ => pass.Returning) w := by
    refine Prompt.wp_reconcile (Orderly.prompt orderly_flaky) trivial (fun _ _ _ => trivial)
      ?_ ?_ ?_ ?_ ?_
    · rintro ⟨hdeleted, -⟩
      simp [hattends.live] at hdeleted
    · exact fun message _ _ => wp_of_yields (returning_unavailable obj message) w
    · intro kc' _ hdeleted
      simp [hattends.live] at hdeleted
    · exact fun _ _ hmissing => absurd hattends.finalizer hmissing
    · intro kc' hconnection _ _
      cases hattends.connection.symm.trans hconnection
      exact (course_admitted hready hfinds hadmits (fun _ _ hreturns => wp_of_yields hreturns _)
        (fun _ => wp_of_yields (returning_refuse _ _ _ _ (by decide)) w)
        (fun hnext _ => wp_of_yields (returning_settle hnext) _)).wp_apply orderly_flaky
  refine Prompt.wp_pass (Orderly.prompt orderly_flaky) hattends.object trivial
    (fun _ _ h pass heq => absurd heq (h pass)) (wp_mono (fun pass t hpost pass' heq => ?_) hreturning)
  cases heq
  exact hpost

/-- The pass reached its end, or waits for a Secret or for what `PostApply` needs. -/
def Pass.Enforcing (pass : Pass) : Prop :=
  pass.finalized = true ∨ (pass.err = none ∧ pass.requeueAfter = secretRetry)

theorem yields_refuse_enforcing (mem base : ManagedObject) (reason : Reason) (message : String) :
    Yields Pass.Enforcing (e.refuse mem base reason message secretRetry) :=
  yields_bind fun _ => .inr ⟨rfl, rfl⟩

theorem wp_object {p : Action α} (h : Only (fun op : Op => ¬ op.WritesObject) p) :
    wp Reliable ⊤ p (fun _ t => t.object = w.object) w :=
  wp_guard_mono (fun _ _ _ => trivial) (wp_of_only (fun t : World => t.object = w.object)
    (fun _ _ _ _ hop ht hstep => (reliable_object hop hstep).trans ht) h rfl)

theorem wp_finalize_enforcing {cur mem base : ManagedObject} {specMap : Object} {synced : Bool}
    (hcur : w.object = some cur) :
    wp Reliable ⊤ (e.finalize mem base specMap synced)
      (fun pass _ => pass.Enforcing) w := by
  have hsucceed : ∀ mem, Yields Pass.Enforcing (e.succeed mem base synced) :=
    fun mem => yields_bind fun _ => .inl rfl
  refine Engine.wp_finalize_of (fun _ => wp_of_yields (hsucceed _) w) fun _ =>
    ⟨trivial, fun answer t hstep => ?_⟩
  obtain ⟨_, _, heq⟩ := hstep
  simp only [World.handle, World.patchObject, hcur] at heq
  cases (Prod.mk.inj heq).1
  exact wp_of_yields (hsucceed _) t

theorem wp_settle_enforcing {cur : ManagedObject} {remote : Object}
    {next : ManagedObject → Bool → Action Pass} (hnext : e.Concludes obj next)
    (hcur : w.object = some cur) :
    wp Reliable ⊤ (e.settle obj.spec.driver kc obj obj remote next)
      (fun pass _ => pass.Enforcing) w := by
  refine Engine.wp_settle_of (wp_mono ?_ (wp_object (only_postApply_object obj remote)))
  rintro ⟨mem, err | changed⟩ t ht
  · exact wp_of_yields (yields_refuse_enforcing _ _ _ _) t
  · refine hnext.wp (fun _ => wp_finalize_enforcing (ht.trans hcur))
      fun _ => ⟨trivial, fun _ u hstep => wp_finalize_enforcing (Eq.trans ?_ (ht.trans hcur))⟩
    exact reliable_object (by simp [Op.WritesObject]) hstep

/-- When all calls succeed, a pass over an admitted resource comes to its end. -/
theorem wp_admitted_enforcing (hattends : w.Attends kc obj) (hready : obj.Ready)
    (hfinds : w.Finds kc obj.spec r) (hadmits : obj.Admits r) :
    wp Reliable ⊤ e.controllerReconcile.run
      (fun result _ => ∃ pass, result = .ok (some pass) ∧ pass.Enforcing) w := by
  refine (course_admitted hready hfinds hadmits (fun houtage => houtage.elim)
    (fun _ => wp_of_yields (yields_refuse_enforcing _ _ _ _) w) ?_).wp_pass orderly_reliable
    hattends trivial trivial fun _ _ _ => trivial
  rintro next t hnext (rfl | ⟨id, body, hput⟩)
  · exact wp_settle_enforcing hnext hattends.object
  · refine wp_settle_enforcing hnext (Eq.trans ?_ hattends.object)
    exact reliable_object (by simp [Op.WritesObject]) hput

end Admitted

/-- What a recognised state is good for. -/
theorem World.Recognises.resumes {e : Engine} {w : World} {kc : Conn} {obj : ManagedObject}
    (hlive : obj.deletionTimestamp = none) (hfinalizer : finalizerName ∈ obj.finalizers)
    (hprotected : obj.spec.driver.protected? obj = none) (hw : w.Recognises kc obj) :
    Resumes e kc obj w := by
  obtain ⟨cur, r, hattends, hspec, hready, hfinds, hadmits⟩ :=
    hw.attended hlive hfinalizer hprotected
  constructor
  case unrefused =>
    rintro steps t pass hexec ⟨herr, hrequeue, -⟩
    rcases (wp_sound (wp_admitted_returning hattends hready hfinds hadmits) hexec).2 _ rfl pass rfl
      with hne | hpos
    · exact hne herr
    · omega
  case enforced =>
    intro steps t pass hexec
    obtain ⟨pass', heq, henforcing⟩ :=
      (wp_sound (wp_admitted_enforcing hattends hready hfinds hadmits) hexec).2 _ rfl
    cases heq
    refine henforcing.imp_left fun hfinalized => ⟨hfinalized, ?_⟩
    obtain ⟨-, -, -, -, r', hr', hstored⟩ := Engine.exec_succeeds (hexec.mono faulty_of_reliable)
      (succeeds_of_finalized hfinalized) hattends.object hattends.live hattends.connection
    exact ⟨cur, r', hattends.object, hspec, hspec ▸ hr', hspec ▸ hstored⟩

/-- The client is created and the annotation cannot be written. -/
def unpatchedPortal : World :=
  ((newEngine true 0).controllerReconcile.run.run World.handleUnpatched describedPortal).2

/-- An identity provider with policy CreateOnly. -/
def githubProvider : Spec :=
  .identityProvider { keycloakRef := "main", realm := "demo", idpAlias := "github"
                      providerId := "github", fields := ⟨∅, Fields.typed_empty _⟩ }

def githubObject : ManagedObject where
  ns := "apps"
  name := "github"
  uid := "uid-4"
  generation := 1
  finalizers := [finalizerName]
  spec := githubProvider

/-- It is created and the annotation cannot be written. -/
def unpatchedGithub : World :=
  ((newEngine true 0).controllerReconcile.run.run World.handleUnpatched
    (.around githubObject ∅)).2

end KeycloakOperator
