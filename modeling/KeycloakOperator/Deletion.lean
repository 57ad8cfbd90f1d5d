import KeycloakOperator.Phases

/-!
# What the deletion branch reaches

A pass over a custom resource that is being deleted leaves the pipeline before the
guards of the live path.  Two promises rest on those guards: protected realms are never
written, and foreign resources are never deleted.  Both hold for a run exactly when no
pass of it reads the resource with a deletion timestamp and the policy Delete.
-/

namespace KeycloakOperator

open Prog

/-! ### Bounds on passes -/

/-- The policy under which the deletion of the custom resource deletes on the server. -/
def ManagedObject.DeletesRemote (obj : ManagedObject) : Prop :=
  obj.deletionTimestamp.isSome ∧ obj.spec.deletion = .delete

instance (obj : ManagedObject) : Decidable obj.DeletesRemote := inferInstanceAs (Decidable (_ ∧ _))

/-- A bound on the passes over the versions that are read bounds the run. -/
theorem Engine.Passes.only {e : Engine} {env : Env operations σ} {moves : σ → σ → Prop}
    {s t : σ} {steps : List (Step operations σ)} (hrun : e.Passes env moves s steps t)
    (allowed : Op → Prop) (hget : allowed .getObject)
    (hpass : ∀ obj ∈ readObjects steps, Only allowed (e.reconcile obj)) :
    ∀ step ∈ steps, allowed step.op := by
  refine hrun.forall_steps fun hexec hsub => ?_
  rcases e.exec_pass hexec with ⟨hread, -⟩ | ⟨obj, s', rest, reached, -, rfl, hrest, -⟩
  · exact fun step hstep => hread step hstep ▸ hget
  · have hobj : obj ∈ readObjects steps :=
      List.mem_filterMap.mpr ⟨_, hsub List.mem_cons_self, rfl⟩
    refine List.forall_mem_cons.mpr ⟨hget, ?_⟩
    exact hrest.only (hpass obj hobj)

/-! ### Protected realms -/

/-- A version of a Realm resource that may not touch its realm. -/
structure ManagedObject.Protects (realm : String) (obj : ManagedObject) : Prop where
  isRealm : obj.spec.kind = .realm
  target : obj.spec.naturalKey = realm
  listed : realm ∈ protectedRealmNames
  notAllowed : obj.allowProtected ≠ some "true"

/-- Creation of a realm, or update or deletion of the named one. -/
def Op.WritesRealm (realm : String) : Op → Prop
  | .admin _ request =>
      (request.method = .post ∧ request.endpoint = .realms) ∨
        ((request.method = .put ∨ request.method = .delete) ∧ request.endpoint = .realm realm)
  | _ => False

instance (realm : String) (obj : ManagedObject) : Decidable (obj.Protects realm) :=
  decidable_of_iff (obj.spec.kind = .realm ∧ obj.spec.naturalKey = realm ∧
      realm ∈ protectedRealmNames ∧ obj.allowProtected ≠ some "true")
    ⟨fun ⟨h₁, h₂, h₃, h₄⟩ => ⟨h₁, h₂, h₃, h₄⟩, fun ⟨h₁, h₂, h₃, h₄⟩ => ⟨h₁, h₂, h₃, h₄⟩⟩

instance (realm : String) : (op : Op) → Decidable (op.WritesRealm realm)
  | .admin _ request => inferInstanceAs (Decidable
      ((request.method = .post ∧ request.endpoint = .realms) ∨
        ((request.method = .put ∨ request.method = .delete) ∧ request.endpoint = .realm realm)))
  | .now | .iterate _ | .connect _ _ | .getObject | .updateObject _ | .patchObject _ _
  | .patchStatus _ _ | .getSecret _ _ | .createSecret _ | .updateSecret _ | .event _ _ _
  | .driftCorrected _ | .reconciled _ _ => inferInstanceAs (Decidable False)

theorem ManagedObject.Protects.message {realm : String} {obj : ManagedObject}
    (h : obj.Protects realm) : ∃ message, obj.spec.driver.protected? obj = some message := by
  obtain ⟨hkind, htarget, hlisted, hallow⟩ := h
  rcases hspec : obj.spec with s | s | s | s | s | s <;> rw [hspec] at hkind htarget
  · subst htarget
    refine Option.isSome_iff_exists.mp ?_
    have hlisted : s.realm ∈ protectedRealmNames := hlisted
    change (s.protected? obj).isSome = true
    unfold RealmSpec.protected?
    rw [if_neg (not_not.mpr hlisted), if_neg hallow]
    rfl
  all_goals cases hkind

/-- Outside of the deletion with policy Delete, a pass over a protected realm does not
    even ask the server. -/
theorem Engine.only_reconcile_protected (e : Engine) {realm : String} {obj : ManagedObject}
    (hprotects : obj.Protects realm) (hkeeps : ¬ obj.DeletesRemote) :
    Only Op.Bookkeeping (e.reconcile obj) := by
  obtain ⟨message, hmessage⟩ := hprotects.message
  have hreports : ∀ op, Op.Remarks op → Op.Bookkeeping op := fun _ h => h.bookkeeping
  refine e.only_reconcile (fun _ _ => trivial) (e.only_reconcileWith hreports (fun _ => trivial)
    (fun _ => trivial) ?_ ?_)
  · intro hdeleted hpolicy
    exact absurd ⟨hdeleted, hpolicy⟩ hkeeps
  · intro _ _ kc
    exact e.only_apply_protected (fun _ h => h.bookkeeping) hmessage

/-- A pass that is cut off in the deletion on the server. -/
theorem Engine.exec_deletion (e : Engine) {env : Env operations σ} {s t : σ} {obj : ManagedObject}
    (kc : Conn) {steps : List (Step operations σ)} (h : obj.DeletesRemote)
    (hget : env .getObject s (.ok obj) s)
    (hconnect : env (.connect obj.ns obj.spec.connectionName) s (.ok kc) s)
    (hdelete : Exec env (obj.spec.driver.delete kc).run s steps t none) :
    Exec env e.controllerReconcile.run s
      (⟨s, .getObject, .ok obj, s⟩ :: ⟨s, .connect obj.ns obj.spec.connectionName, .ok kc, s⟩ ::
        steps) t none := by
  refine .call hget (Exec.bind_cut (Exec.bind_cut ?_ _) _)
  have hpolicy : ¬ (obj.deletionTimestamp.isSome ∧ obj.spec.deletion = .orphan) := by
    rw [h.2]
    exact fun hne => by cases hne.2
  unfold reconcileWith
  rw [if_neg hpolicy]
  refine .call hconnect ?_
  simp only [Prog.bind]
  rw [if_pos h.1]
  unfold handleDeletion
  rw [if_pos h.2]
  exact hdelete.bind_cut _

/-- Passes that are cut off once they have read the object. -/
theorem Engine.exists_passes_reading (e : Engine) (env : Env operations σ) (moves : σ → σ → Prop)
    (s : ManagedObject → σ) (hget : ∀ obj, env .getObject (s obj) (.ok obj) (s obj))
    (hmoves : ∀ t obj, moves t (s obj)) (t : σ) (objs : List ManagedObject) :
    ∃ steps u, e.Passes env moves t steps u ∧ readObjects steps = objs ∧
      ∀ step ∈ steps, ∃ obj, step.before = s obj := by
  induction objs generalizing t with
  | nil => exact ⟨[], t, .start t, rfl, fun step hstep => absurd hstep List.not_mem_nil⟩
  | cons obj objs ih =>
    obtain ⟨steps, u, hrun, hread, hbefore⟩ := ih (s obj)
    have hfirst : e.Passes env moves t [⟨s obj, .getObject, .ok obj, s obj⟩] (s obj) :=
      .pass (.move (.start t) (hmoves t obj)) (.call (hget obj) (.crash _ _)) trivial
    refine ⟨_, u, hfirst.append hrun, ?_, List.forall_mem_cons.mpr ⟨⟨obj, rfl⟩, hbefore⟩⟩
    rw [readObjects_append, hread]
    rfl

theorem ManagedObject.Protects.driver_delete {realm : String} {obj : ManagedObject}
    (h : obj.Protects realm) (kc : Conn) : obj.spec.driver.delete kc = kc.deleteRealm realm := by
  obtain ⟨hkind, htarget, -, -⟩ := h
  rcases hspec : obj.spec with s | s | s | s | s | s <;> rw [hspec] at hkind htarget
  · exact htarget ▸ rfl
  all_goals cases hkind

/-- No pass creates, updates or deletes a protected realm, whatever the answers are,
    exactly when no pass reads the resource while it is deleted with policy Delete. -/
theorem protected_realm_unwritten_iff (e : Engine) {realm : String} {objs : List ManagedObject}
    (hprotects : ∀ obj ∈ objs, obj.Protects realm) :
    (∀ (σ : Type) (env : Env operations σ) (moves : σ → σ → Prop) (s t : σ)
        (steps : List (Step operations σ)), e.Passes env moves s steps t →
        readObjects steps = objs → ∀ step ∈ steps, ¬ Op.WritesRealm realm step.op) ↔
      ∀ obj ∈ objs, ¬ obj.DeletesRemote := by
  constructor
  · -- all passes but the deleting one are cut off at once; any answer will do
    intro hsafe obj hobj hdeletes
    obtain ⟨before, after, rfl⟩ := List.append_of_mem hobj
    let env : Env operations Unit := fun _ _ _ _ => True
    let kc : Conn := ⟨"", ""⟩
    have hreading := e.exists_passes_reading env (fun _ _ => True)
      (fun _ => ()) (fun _ => trivial) (fun _ _ => trivial) ()
    obtain ⟨first, ⟨⟩, hfirst, hreadFirst, -⟩ := hreading before
    obtain ⟨last, ⟨⟩, hlast, hreadLast, -⟩ := hreading after
    have hdelete : Exec env (obj.spec.driver.delete kc).run ()
        [⟨(), .admin kc ⟨.delete, .realm realm, .none, .nothing⟩, .ok (), ()⟩] () none := by
      rw [(hprotects obj hobj).driver_delete]
      exact .call trivial (.crash _ _)
    have hrun := (hfirst.pass (e.exec_deletion kc hdeletes trivial trivial hdelete) trivial).append hlast
    refine hsafe Unit env _ () () _ hrun ?_
      ⟨(), .admin kc ⟨.delete, .realm realm, .none, .nothing⟩, .ok (), ()⟩ ?_ ?_
    · rw [readObjects_append, readObjects_append, hreadFirst, hreadLast, List.append_assoc]
      rfl
    · simp
    · exact Or.inr ⟨.inr rfl, rfl⟩
  · intro hkeeps σ env moves s t steps hrun hread
    subst hread
    refine hrun.only (fun op => ¬ Op.WritesRealm realm op) (fun h => h) fun obj hobj => ?_
    refine only_mono (fun op hop => ?_)
      (e.only_reconcile_protected (hprotects obj hobj) (hkeeps obj hobj))
    rcases op <;> first | exact hop.elim | exact fun h => h

/-- A resource for the realm `master`, under a deletion policy. -/
def masterObject (policy : DeletionPolicy) : ManagedObject where
  ns := "apps"
  name := "master"
  uid := "uid-1"
  generation := 1
  finalizers := [finalizerName]
  spec := .realm
    { keycloakRef := "main", realm := "master", deletionPolicy := some policy,
      fields := ⟨∅, Fields.typed_empty _⟩ }

/-- A life of it under policy Orphan. -/
def masterVersions : List ManagedObject :=
  [masterObject .orphan, { masterObject .orphan with deletionTimestamp := some 5 }]

theorem orphaned_master_unwritten :
    (∀ obj ∈ masterVersions, obj.Protects "master" ∧ ¬ obj.DeletesRemote) ∧
      ∀ (σ : Type) (env : Env operations σ) (moves : σ → σ → Prop) (s t : σ)
        (steps : List (Step operations σ)), (newEngine true 0).Passes env moves s steps t →
        readObjects steps = masterVersions → ∀ step ∈ steps, ¬ Op.WritesRealm "master" step.op :=
  ⟨by decide, (protected_realm_unwritten_iff (newEngine true 0) (by decide)).mpr (by decide)⟩

def masterServer : Server :=
  (∅ : Server).setResources ⟨.realm, ""⟩
    ⟨[⟨"1", .ofList [("realm", .str "master")], none⟩], by decide, by decide⟩

/-- With policy Delete the first pass refuses to touch the realm, and the pass after the
    deletion of the resource deletes it. -/
theorem protected_realm_deleted :
    ∃ steps w, (newEngine true 0).Passes Reliable (fun w w' => w' = w.requestDeletion 5)
        (.around (masterObject .delete) masterServer) steps w ∧
      (∀ obj ∈ readObjects steps, obj.Protects "master") ∧
      ∃ step ∈ steps, Op.WritesRealm "master" step.op := by
  refine ⟨_, _, .pass (.move (.pass (.start _) (exec_handle _ _) trivial) rfl) (exec_handle _ _)
    trivial, ?_, ?_⟩
  · decide
  · decide

/-! ### Foreign resources -/

/-- The resource under the key, if any, was not created by the operator and does not
    carry the marker. -/
def World.foreignAt (server : String) (place : Place) (key : String) (w : World) : Bool :=
  ((w.servers server).find place (.key key)).all fun r =>
    decide (r.created = none) && !place.kind.marked r.report

/-- The step deletes the resource under the key. -/
def deletesAt (server : String) (place : Place) (key : String)
    (step : Step operations World) : Bool :=
  match step.op with
  | .admin kc request =>
      decide (kc.server = server ∧ request.method = .delete) &&
        (match request.endpoint.item, (step.before.servers server).find place (.key key) with
         | some (place', address), some r =>
             decide (place' = place) && address.names place.kind.keyField r
         | _, _ => false)
  | _ => false

/-- A version of a custom resource that may not take over the resource under the key,
    and has never applied anything. -/
structure ManagedObject.Unadopted (place : Place) (key : String) (obj : ManagedObject) : Prop where
  place : obj.spec.place = place
  key : obj.spec.naturalKey = key
  policy : obj.spec.adoption = .createOnly ∨ obj.spec.adoption = .failIfExists
  unrecorded : obj.lastApplied = .empty

theorem Spec.item_of_owns {s : Spec} {id : String} {endpoint : Endpoint}
    (h : s.Owns id endpoint) : endpoint.item = none := by
  rcases endpoint <;> first | rfl | exact h.elim

/-- The operation deletes no resource. -/
def Op.KeepsResources : Op → Prop
  | .admin _ request => request.method = .delete → request.endpoint.item = none
  | _ => True

theorem Op.Reports.keepsResources {op : Op} (h : op.Reports) : op.KeepsResources := by
  rcases op <;> first | exact trivial | exact h.elim

/-- Outside of the deletion with policy Delete, no resource is deleted. -/
theorem Engine.only_reconcile_keeps (e : Engine) {obj : ManagedObject}
    (hkeeps : ¬ obj.DeletesRemote) : Only Op.KeepsResources (e.reconcile obj) := by
  have hreports : ∀ op, Op.Remarks op → Op.KeepsResources op := fun _ h => h.reports.keepsResources
  refine e.only_reconcile (fun _ _ => trivial) (e.only_reconcileWith hreports (fun _ => trivial)
    (fun _ => trivial) ?_ ?_)
  · intro hdeleted hpolicy
    exact absurd ⟨hdeleted, hpolicy⟩ hkeeps
  · intro _ _ kc
    refine e.only_apply ?_ ?_ hreports (fun _ _ => trivial) ?_ ?_ ?_
    · intro op hread
      rcases op <;> try exact trivial
      intro hmethod
      cases hmethod.symm.trans hread
    · intro op hwrite
      rcases op <;> first | exact trivial | exact hwrite.elim
    · intro payload _ hmethod
      cases hmethod
    · intro id remote payload _ hmethod
      cases hmethod
    · rintro id _ ⟨method, endpoint, body, rfl, howns⟩ _
      exact Spec.item_of_owns howns

/-- The deletion of the resource that a spec names, cut off right after the request. -/
theorem exists_delete {w : World} {kc : Conn} {s : Spec} {r : Resource}
    (htarget : w.target kc s = some r) (hid : r.id ≠ "") :
    ∃ steps answer w', Exec Reliable (s.driver.delete kc).run w
        (steps ++ [⟨w, .admin kc ⟨.delete, s.itemEndpoint r.id, .none, .nothing⟩, answer, w'⟩])
        w' none ∧
      ∀ step ∈ steps, step.op.Reads ∧ step.before = w := by
  have hsubmit : ∃ answer w', Exec Reliable (kc.submit .delete (s.itemEndpoint r.id) .none).run w
      [⟨w, .admin kc ⟨.delete, s.itemEndpoint r.id, .none, .nothing⟩, answer, w'⟩] w' none :=
    ⟨_, _, .call ⟨World.sorted, 0, rfl⟩ (.crash _ _)⟩
  obtain ⟨answer, w', hsubmit⟩ := hsubmit
  -- the kinds that are deleted by id look their resource up first
  have hlookup : ∃ steps, Exec Reliable (s.driver.get kc >>= fun remote =>
        assertId remote >>= fun id => kc.submit .delete (s.itemEndpoint id) .none).run w
      (steps ++ [⟨w, .admin kc ⟨.delete, s.itemEndpoint r.id, .none, .nothing⟩, answer, w'⟩]) w' none ∧
      ∀ step ∈ steps, step.op.Reads ∧ step.before = w := by
    have hget : wp Reliable (fun op t => op.Reads ∧ t = w) (s.driver.get kc).run
        (fun found t => found = .ok r.report ∧ t = w) w := by
      refine wp_get reading_reliable.answering s (fun _ h => ⟨h, rfl⟩) (fun _ h => h.elim)
        (fun h => absurd (h r htarget).2 hid) fun r' hr' _ => ?_
      rw [htarget] at hr'
      cases hr'
      exact ⟨rfl, rfl⟩
    have hexec := exec_handle (s.driver.get kc).run w
    obtain ⟨hbefore, hpost⟩ := wp_sound hget hexec
    obtain ⟨hfound, hsame⟩ := hpost _ rfl
    rw [hfound, hsame] at hexec
    refine ⟨_, hexec.run_bind ?_, hbefore⟩
    have hassert : assertId r.report = pure r.id := by
      simp [assertId, stringField]
    rw [hassert]
    exact hsubmit
  obtain ⟨steps, hlookup, hbefore⟩ := hlookup
  have hnone : ∀ step ∈ ([] : Log), step.op.Reads ∧ step.before = w :=
    fun _ h => absurd h List.not_mem_nil
  rcases s with s | s | s | s | s | s
  · exact ⟨[], answer, w', hsubmit, hnone⟩
  · exact ⟨steps, answer, w', hlookup, hbefore⟩
  · exact ⟨steps, answer, w', hlookup, hbefore⟩
  · exact ⟨[], answer, w', hsubmit, hnone⟩
  · exact ⟨[], answer, w', hsubmit, hnone⟩
  · exact ⟨steps, answer, w', hlookup, hbefore⟩

/-- A resource that has nothing but its key. -/
def bareResource (place : Place) (key : String) : Resource :=
  ⟨"1", .put ∅ place.kind.keyField (.str key), none⟩

theorem key_bareResource (place : Place) (key : String) :
    (bareResource place key).key place.kind.keyField = some key := by
  simp [bareResource, Resource.key, stringField]

theorem marked_bareResource (place : Place) (key : String) :
    place.kind.marked (bareResource place key).report = false := by
  refine Kind.marked_of_attributes_none ?_
  have hfield : "attributes" ≠ place.kind.keyField := by
    cases place.kind <;> decide
  rw [Resource.get_report_of_ne _ (by decide)]
  exact (FiniteMap.get_put_of_ne _ _ hfield).trans (FiniteMap.get_empty _)

/-- A world in which the server holds nothing but a bare resource. -/
def World.withBare (server : String) (place : Place) (key : String) (obj : ManagedObject) :
    World :=
  { World.around obj ((∅ : Server).setResources place
      ⟨[bareResource place key], by simp, by simp [key_bareResource]⟩) with
    connections := fun _ name => .ok ⟨name, server⟩ }

theorem World.find_withBare (server : String) (place : Place) (key : String) (obj : ManagedObject) :
    ((World.withBare server place key obj).servers server).find place (.key key) =
      some (bareResource place key) := by
  unfold Server.find
  rw [Collection.find_eq_some_iff]
  simp [withBare, around, Server.setResources, Address.names, key_bareResource]

theorem World.foreignAt_withBare (server : String) (place : Place) (key : String)
    (obj : ManagedObject) :
    (World.withBare server place key obj).foreignAt server place key = true := by
  unfold foreignAt
  rw [find_withBare]
  simp only [Option.all_some, marked_bareResource]
  rfl

/-- No run of passes deletes a foreign resource exactly when no pass of it reads the
    custom resource while it is deleted with policy Delete. -/
theorem foreign_undeleted_iff (e : Engine) (server : String) {place : Place} {key : String}
    {objs : List ManagedObject} (hobjs : ∀ obj ∈ objs, obj.Unadopted place key) :
    (∀ (moves : World → World → Prop) (w w' : World) (steps : List (Step operations World)),
        e.Passes Faulty moves w steps w' → readObjects steps = objs →
        (∀ step ∈ steps, step.before.foreignAt server place key) →
        ∀ step ∈ steps, ¬ deletesAt server place key step) ↔
      ∀ obj ∈ objs, ¬ obj.DeletesRemote := by
  constructor
  · intro hsafe obj hobj hdeletes
    obtain ⟨hplace, hkey, -, -⟩ := hobjs obj hobj
    subst hplace hkey
    obtain ⟨before, after, rfl⟩ := List.append_of_mem hobj
    let world := World.withBare server obj.spec.place obj.spec.naturalKey
    let kc : Conn := ⟨obj.spec.connectionName, server⟩
    have hget : ∀ obj, Faulty .getObject (world obj) (.ok obj) (world obj) :=
      fun _ => .inl ⟨World.sorted, 0, rfl⟩
    have hreading := e.exists_passes_reading Faulty (fun _ _ => True) world hget
      (fun _ _ => trivial)
    let r := bareResource obj.spec.place obj.spec.naturalKey
    have htarget : (world obj).target kc obj.spec = some r := World.find_withBare _ _ _ _
    obtain ⟨reads, answer, u, hdelete, hreads⟩ := exists_delete htarget (show "1" ≠ "" by decide)
    have hpass := e.exec_deletion kc hdeletes (hget obj) (.inl ⟨World.sorted, 0, rfl⟩)
      (hdelete.mono faulty_of_reliable)
    obtain ⟨first, v, hfirst, hreadFirst, hbeforeFirst⟩ := hreading (world obj) before
    obtain ⟨last, v', hlast, hreadLast, hbeforeLast⟩ := hreading u after
    have hrun := ((hfirst.move trivial).pass hpass trivial).append hlast
    have hforeign : ∀ obj', (world obj').foreignAt server obj.spec.place obj.spec.naturalKey :=
      World.foreignAt_withBare server obj.spec.place obj.spec.naturalKey
    have hreadNone : readObjects reads = [] :=
      List.filterMap_eq_nil_iff.mpr fun step hstep =>
        readObject_eq_none fun hop => (hop ▸ (hreads step hstep).1 : Op.Reads .getObject)
    refine hsafe _ _ _ _ hrun ?_ ?_
      ⟨world obj, .admin kc ⟨.delete, obj.spec.itemEndpoint r.id, .none, .nothing⟩, answer, u⟩
      (by simp) ?_
    · rw [readObjects_append, readObjects_append, hreadFirst, hreadLast, List.append_assoc]
      change before ++ (obj :: readObjects (reads ++ [_]) ++ after) = _
      rw [readObjects_append, hreadNone]
      rfl
    · simp only [List.forall_mem_append, List.forall_mem_cons]
      refine ⟨⟨fun step hstep => ?_, hforeign obj, hforeign obj, fun step hstep => ?_,
        hforeign obj, by simp⟩, fun step hstep => ?_⟩
      · obtain ⟨obj', hobj'⟩ := hbeforeFirst step hstep
        exact hobj' ▸ hforeign obj'
      · exact (hreads step hstep).2 ▸ hforeign obj
      · obtain ⟨obj', hobj'⟩ := hbeforeLast step hstep
        exact hobj' ▸ hforeign obj'
    · have hfind : ((world obj).servers server).find obj.spec.place (.key obj.spec.naturalKey) =
          some r := htarget
      simp only [deletesAt, Spec.item_itemEndpoint, hfind]
      rw [names_itemAddress (key_bareResource _ _)]
      simp [kc]
  · intro hkeeps moves w w' steps hrun hread _ step hstep hdeletes
    subst hread
    have hkept := hrun.only Op.KeepsResources trivial
      (fun obj hobj => e.only_reconcile_keeps (hkeeps obj hobj)) step hstep
    obtain ⟨before, op, answer, after⟩ := step
    rcases op <;> try exact absurd hdeletes Bool.false_ne_true
    rename_i kc request
    obtain ⟨hserver, hitem⟩ := Bool.and_eq_true_iff.mp hdeletes
    rw [hkept (of_decide_eq_true hserver).2] at hitem
    exact absurd hitem Bool.false_ne_true

instance (place : Place) (key : String) (obj : ManagedObject) :
    Decidable (obj.Unadopted place key) :=
  decidable_of_iff (obj.spec.place = place ∧ obj.spec.naturalKey = key ∧
      (obj.spec.adoption = .createOnly ∨ obj.spec.adoption = .failIfExists) ∧
      obj.lastApplied = .empty)
    ⟨fun ⟨h₁, h₂, h₃, h₄⟩ => ⟨h₁, h₂, h₃, h₄⟩, fun ⟨h₁, h₂, h₃, h₄⟩ => ⟨h₁, h₂, h₃, h₄⟩⟩

/-- A resource for a client that somebody else has set up already. -/
def portalObject (policy : Option DeletionPolicy) : ManagedObject where
  ns := "apps"
  name := "portal"
  uid := "uid-2"
  generation := 1
  finalizers := [finalizerName]
  spec := .client
    { keycloakRef := "main", realm := "demo", deletionPolicy := policy, clientId := "portal",
      fields := ⟨∅, Fields.typed_empty _⟩ }

/-- A life of it under policy Orphan. -/
def portalVersions : List ManagedObject :=
  [portalObject (some .orphan), { portalObject (some .orphan) with deletionTimestamp := some 5 }]

theorem orphaned_portal_undeleted :
    (∀ obj ∈ portalVersions, obj.Unadopted ⟨.client, "demo"⟩ "portal" ∧ ¬ obj.DeletesRemote) ∧
      ∀ (moves : World → World → Prop) (w w' : World) (steps : List (Step operations World)),
        (newEngine true 0).Passes Faulty moves w steps w' → readObjects steps = portalVersions →
        (∀ step ∈ steps, step.before.foreignAt "keycloak" ⟨.client, "demo"⟩ "portal") →
        ∀ step ∈ steps, ¬ deletesAt "keycloak" ⟨.client, "demo"⟩ "portal" step :=
  ⟨by decide, (foreign_undeleted_iff (newEngine true 0) "keycloak" (by decide)).mpr (by decide)⟩

def portalServer : Server :=
  (∅ : Server).setResources ⟨.client, "demo"⟩
    ⟨[⟨"1", .ofList [("clientId", .str "portal"), ("enabled", .bool true)], none⟩],
      by decide, by decide⟩

/-- With the default policy the first pass reports that the client is foreign, and the
    pass after the deletion of the resource deletes it. -/
theorem foreign_client_deleted :
    ∃ steps w, (newEngine true 0).Passes Reliable (fun w w' => w' = w.requestDeletion 5)
        (.around (portalObject none) portalServer) steps w ∧
      (∀ obj ∈ readObjects steps, obj.Unadopted ⟨.client, "demo"⟩ "portal") ∧
      (∀ step ∈ steps, step.before.foreignAt "keycloak" ⟨.client, "demo"⟩ "portal") ∧
      ∃ step ∈ steps, deletesAt "keycloak" ⟨.client, "demo"⟩ "portal" step := by
  refine ⟨_, _, .pass (.move (.pass (.start _) (exec_handle _ _) trivial) rfl) (exec_handle _ _)
    trivial, ?_, ?_, ?_⟩
  · decide
  · decide
  · decide

end KeycloakOperator
