import KeycloakOperator.Endings
import KeycloakOperator.Takeover

/-!
# The finalizer around the work on the server

A pass works on the server only for a live custom resource that carries the finalizer, and
takes the finalizer away only once the deletion is settled: at once under Orphan, without a
call to the server, and after a successful Delete otherwise.  Calls may fail before or
after they took effect, and between any two operations somebody else may change everything
but the finalizer.
-/

namespace KeycloakOperator

open Prog

/-- The stored custom resource carries the finalizer. -/
def World.Finalized (w : World) : Prop :=
  ∃ obj, w.object = some obj ∧ finalizerName ∈ obj.finalizers

/-- Somebody else does not take the finalizer away. -/
def World.KeepsFinalizer (w w' : World) : Prop := w.Finalized → w'.Finalized

/-- Calls that may fail, among others who leave the finalizer alone. -/
def Contended : Env operations World := Faulty.interleaved World.KeepsFinalizer

/-- A creation, an update or a write of `PostApply` for the spec: any write but the one of
    its Delete. -/
def Op.Works (s : Spec) : Op → Prop
  | .admin _ request => request.method ≠ .get ∧
      ¬ (request.method = .delete ∧ ∃ id, request.endpoint = s.itemEndpoint id)
  | .createSecret _ => True
  | .updateSecret _ => True
  | _ => False

/-- The resource is gone from the server, as far as Delete can tell. -/
def Gone : Except Err Unit → Prop
  | .ok _ => True
  | .error err => err.kind = .notFound

/-- The pass over the deleted `obj` has a connection, and its Delete returned `answer`. -/
def DeleteReturned (obj : ManagedObject) (steps : Log) (answer : Except Err Unit) : Prop :=
  obj.deletionTimestamp.isSome ∧ obj.spec.deletion = .delete ∧
    ∃ read kc u v t calls rest,
      steps = read :: ⟨u, .connect obj.ns obj.spec.connectionName, .ok kc, v⟩ :: (calls ++ rest) ∧
      Exec Contended (obj.spec.driver.delete kc).run v calls t (some answer)

def ConnectionFailed (steps : Log) : Prop :=
  ∃ read ns name unavailable u v rest,
    steps = read :: ⟨u, .connect ns name, .error unavailable, v⟩ :: rest

/-- The steps of a pass over `obj` keep to the finalizer. -/
structure Bracketed (obj : ManagedObject) (steps : Log) : Prop where
  worked : ∀ step ∈ steps, step.op.Works obj.spec →
    finalizerName ∈ obj.finalizers ∧ obj.deletionTimestamp = none
  removed : ∀ step ∈ steps, step.before.Finalized → ¬ step.after.Finalized →
    obj.deletionTimestamp.isSome ∧
      ((obj.spec.deletion = .orphan ∧ ∀ other ∈ steps, ∀ kc request, other.op ≠ .admin kc request) ∨
        (obj.spec.deletion = .delete ∧ ∃ answer, DeleteReturned obj steps answer ∧ Gone answer))
  kept : (ConnectionFailed steps ∨ ∃ answer, DeleteReturned obj steps answer ∧ ¬ Gone answer) →
    ∀ step ∈ steps, step.before.Finalized → step.after.Finalized

/-! ### Operations that leave the finalizer -/

def Op.SparesFinalizer : Op → Prop
  | .updateObject obj => finalizerName ∈ obj.finalizers
  | .patchObject base obj => obj.finalizers = base.finalizers
  | _ => True

theorem reliable_finalized {op : Op} {w w' : World} {answer : op.Answer}
    (hop : op.SparesFinalizer) (h : Reliable op w answer w') (hw : w.Finalized) : w'.Finalized := by
  obtain ⟨stored, hstored, hfinalizer⟩ := hw
  by_cases hwrites : op.WritesObject
  case neg => exact ⟨stored, (reliable_object hwrites h).trans hstored, hfinalizer⟩
  obtain ⟨order, now, rfl⟩ := reliable_state h
  rcases op with _ | _ | _ | _ | _ | new | ⟨base, new⟩ | ⟨base, new⟩ | _ | _ | _ | _ | _ | _
  case updateObject =>
    have hnonempty : new.finalizers ≠ [] := List.ne_nil_of_mem hop
    simp only [World.handle, World.updateObject, hstored]
    rw [if_neg fun h => hnonempty h.2]
    exact ⟨_, rfl, hop⟩
  case patchObject =>
    have hsame : new.finalizers = base.finalizers := hop
    simp only [World.handle, World.patchObject, hstored]
    refine ⟨_, rfl, ?_⟩
    simp [World.patched, hsame, hfinalizer]
  case patchStatus =>
    simp only [World.handle, World.patchStatus, hstored]
    exact ⟨_, rfl, hfinalizer⟩
  all_goals exact hwrites.elim

theorem contended_finalized {op : Op} {w w' : World} {answer : op.Answer}
    (hop : op.SparesFinalizer) (h : Contended op w answer w') (hw : w.Finalized) :
    w'.Finalized := by
  obtain ⟨t, hmoves, hstep⟩ := h
  have ht : t.Finalized := by
    clear hstep
    induction hmoves with
    | refl => exact hw
    | tail _ hmove ih => exact hmove ih
  exact faulty_elim hstep ht fun _ h => reliable_finalized hop h ht

section Pass

variable {e : Engine} {obj : ManagedObject} {w t : World} {rest : Log}

theorem only_spares_live (hlive : obj.deletionTimestamp = none) :
    Only Op.SparesFinalizer (e.reconcile obj) := by
  have hreports : ∀ op, Op.Remarks op → Op.SparesFinalizer op := by
    rintro (_ | _) h <;> first | exact trivial | exact h.elim
  refine e.only_reconcile (fun _ _ => trivial) (e.only_reconcileWith hreports ?_ ?_ ?_ ?_)
  · intro hdeleted
    simp [hlive] at hdeleted
  · intro _
    exact List.mem_append_right _ List.mem_cons_self
  · intro hdeleted
    simp [hlive] at hdeleted
  · intro _ _ kc
    apply e.only_apply
    · rintro (_ | _) h <;> first | exact trivial | exact h.elim
    · rintro (_ | _) h <;> first | exact trivial | exact h.elim
    · exact hreports
    · exact fun _ _ => rfl
    · exact fun _ _ => trivial
    · exact fun _ _ _ _ => trivial
    · rintro id op ⟨_, _, _, rfl, -⟩
      trivial

theorem only_orphan (hdeleted : obj.deletionTimestamp.isSome) (hpolicy : obj.spec.deletion = .orphan) :
    Only (fun op : Op => (∀ kc request, op ≠ .admin kc request) ∧ ∀ ns name, op ≠ .connect ns name)
      (e.reconcile obj) := by
  unfold Engine.reconcile Engine.reconcileWith
  rw [if_pos ⟨hdeleted, hpolicy⟩]
  apply only_bind
  · refine ⟨by simp, fun answer => ?_⟩
    rcases answer with err | stored <;> trivial
  · intro pass
    exact ⟨by simp, fun _ => trivial⟩

/-- Server work is for live resources with the finalizer. -/
theorem only_works :
    Only (fun op : Op => op.Works obj.spec →
      finalizerName ∈ obj.finalizers ∧ obj.deletionTimestamp = none) (e.reconcile obj) := by
  have hreports : ∀ op, Op.Remarks op → op.Works obj.spec →
      finalizerName ∈ obj.finalizers ∧ obj.deletionTimestamp = none := by
    rintro (_ | _) h hworks <;> first | exact h.elim | exact hworks.elim
  have hreads : ∀ op, Op.Reads op → op.Works obj.spec →
      finalizerName ∈ obj.finalizers ∧ obj.deletionTimestamp = none := by
    rintro (_ | _) h hworks <;> first | exact h.elim | exact hworks.elim | exact absurd h hworks.1
  refine e.only_reconcile (fun _ _ h => h.elim) (e.only_reconcileWith hreports (fun _ h => h.elim)
    (fun _ h => h.elim) ?_ ?_)
  · intro _ _ kc
    exact only_delete hreads fun id hworks => absurd ⟨rfl, id, rfl⟩ hworks.2
  · intro hlive hfinalizer kc
    exact only_mono (fun _ _ _ => ⟨hfinalizer, hlive⟩) (only_true _)

theorem only_spares_delete {kc : Conn} : Only Op.SparesFinalizer (obj.spec.driver.delete kc).run := by
  apply only_delete
  · rintro (_ | _) h <;> first | exact trivial | exact h.elim
  · exact fun _ => trivial

/-- Under Delete the finalizer goes only after the driver's Delete. -/
theorem exec_handleDeletion {kc : Conn} {result : Option Pass}
    (hpolicy : obj.spec.deletion = .delete)
    (h : Exec Contended (e.handleDeletion obj.spec.driver kc obj) w rest t result) :
    (∀ step ∈ rest, step.op.SparesFinalizer) ∨
      ∃ answer calls more u, rest = calls ++ more ∧
        Exec Contended (obj.spec.driver.delete kc).run w calls u (some answer) ∧ Gone answer := by
  unfold Engine.handleDeletion at h
  rw [if_pos hpolicy] at h
  rcases h.bind_inv with ⟨-, hcut⟩ | ⟨answer, u, calls, more, rfl, hcalls, hmore⟩
  · exact .inl (hcut.only only_spares_delete)
  rcases answer with err | ⟨⟩
  · dsimp only at hmore
    split at hmore
    case isTrue hother =>
      -- the pass ends with the error of Delete
      cases hmore
      · exact .inl (by simpa using hcalls.only only_spares_delete)
      · exact .inl (by simpa using hcalls.only only_spares_delete)
    case isFalse hgone => exact .inr ⟨_, calls, more, u, rfl, hcalls, not_not.mp hgone⟩
  · exact .inr ⟨_, calls, more, u, rfl, hcalls, trivial⟩

/-- A pass over a deleted resource under Delete, up to the update that takes the finalizer. -/
theorem exec_reconcileWith_delete {result : Option Pass} (hdeleted : obj.deletionTimestamp.isSome)
    (hpolicy : obj.spec.deletion = .delete)
    (h : Exec Contended (e.reconcileWith obj.spec.driver obj) w rest t result) :
    (∀ step ∈ rest, step.op.SparesFinalizer) ∨
      ∃ kc v answer calls more u,
        rest = ⟨w, .connect obj.ns obj.spec.connectionName, .ok kc, v⟩ :: (calls ++ more) ∧
        Exec Contended (obj.spec.driver.delete kc).run v calls u (some answer) ∧ Gone answer := by
  unfold Engine.reconcileWith at h
  rw [if_neg (by simp [hpolicy])] at h
  rcases h.call_inv with ⟨rfl, -, -⟩ | ⟨answer, v, rest, -, rfl, hrest⟩
  · exact .inl (by simp)
  rcases answer with unavailable | kc <;> simp only [Prog.bind] at hrest
  · left
    refine List.forall_mem_cons.mpr ⟨trivial, hrest.only ?_⟩
    apply only_bind
    · apply Engine.only_setConditions
      rintro (_ | _) h <;> first | exact trivial | exact h.elim
    · exact fun _ => trivial
  · rw [if_pos hdeleted] at hrest
    rcases exec_handleDeletion hpolicy hrest with hspares | ⟨answer, calls, more, u, rfl, hcalls, hgone⟩
    · exact .inl (List.forall_mem_cons.mpr ⟨trivial, hspares⟩)
    · exact .inr ⟨kc, v, answer, calls, more, u, rfl, hcalls, hgone⟩

/-- A pass leaves the finalizer, or the resource is deleted and its policy settled. -/
theorem exec_reconcile_finalizer {result : Option Pass}
    (h : Exec Contended (e.reconcile obj) w rest t result) :
    (∀ step ∈ rest, step.op.SparesFinalizer) ∨ obj.deletionTimestamp.isSome ∧
      (obj.spec.deletion = .orphan ∨ obj.spec.deletion = .delete ∧ ∃ kc v answer calls more u,
        rest = ⟨w, .connect obj.ns obj.spec.connectionName, .ok kc, v⟩ :: (calls ++ more) ∧
        Exec Contended (obj.spec.driver.delete kc).run v calls u (some answer) ∧ Gone answer) := by
  rcases hdeleted : obj.deletionTimestamp with _ | timestamp
  · exact .inl (h.only (only_spares_live hdeleted))
  have hdeleted : obj.deletionTimestamp.isSome := by simp [hdeleted]
  rcases hpolicy : obj.spec.deletion with _ | _
  case orphan => exact .inr ⟨rfl, .inl rfl⟩
  case delete =>
    -- what follows the lifecycle counts the pass and returns it
    have hlifecycle : ∃ first more u r, rest = first ++ more ∧
        (∀ step ∈ more, step.op.SparesFinalizer) ∧
        Exec Contended (e.reconcileWith obj.spec.driver obj) w first u r := by
      rcases h.bind_inv with ⟨-, hcut⟩ | ⟨pass, u, first, more, rfl, hfirst, hmore⟩
      · exact ⟨rest, [], t, none, by simp, by simp, hcut⟩
      · exact ⟨first, more, u, _, rfl, hmore.only ⟨trivial, fun _ => trivial⟩, hfirst⟩
    obtain ⟨first, more, u, r, rfl, hmore, hfirst⟩ := hlifecycle
    rcases exec_reconcileWith_delete hdeleted hpolicy hfirst with
      hspares | ⟨kc, v, answer, calls, tail, u, rfl, hcalls, hgone⟩
    · exact .inl (List.forall_mem_append.mpr ⟨hspares, hmore⟩)
    · exact .inr ⟨rfl, .inr ⟨rfl, kc, v, answer, calls, tail ++ more, u, by simp, hcalls, hgone⟩⟩

theorem bracketed_of_exec {read : Step operations World} {result : Option Pass}
    (hread : read.op = .getObject) (hstep : Contended read.op read.before read.answer read.after)
    (h : Exec Contended (e.reconcile obj) w rest t result) :
    Bracketed obj (read :: rest) := by
  have hspared : ∀ step ∈ read :: rest, step.op.SparesFinalizer →
      step.before.Finalized → step.after.Finalized := by
    intro step hmem hspares
    rcases List.mem_cons.mp hmem with rfl | hmem
    · exact contended_finalized hspares hstep
    · exact contended_finalized hspares (h.env_of_mem step hmem)
  have hkept : (∀ step ∈ rest, step.op.SparesFinalizer) →
      ∀ step ∈ read :: rest, step.before.Finalized → step.after.Finalized := by
    intro hspares step hmem
    apply hspared step hmem
    rcases List.mem_cons.mp hmem with rfl | hmem
    · simp [hread, Op.SparesFinalizer]
    · exact hspares step hmem
  constructor
  case worked =>
    refine List.forall_mem_cons.mpr ⟨?_, h.only only_works⟩
    intro hworks
    rw [hread] at hworks
    exact hworks.elim
  case removed =>
    intro step hmem hbefore hafter
    rcases exec_reconcile_finalizer h with hspares | ⟨hdeleted, hpolicy | ⟨hpolicy, hreturned⟩⟩
    · exact absurd (hkept hspares step hmem hbefore) hafter
    · refine ⟨hdeleted, .inl ⟨hpolicy, ?_⟩⟩
      have horphan := h.only (only_orphan hdeleted hpolicy)
      refine List.forall_mem_cons.mpr ⟨?_, fun other hother => (horphan other hother).1⟩
      simp [hread]
    · obtain ⟨kc, v, answer, calls, more, u, rfl, hcalls, hgone⟩ := hreturned
      exact ⟨hdeleted, .inr ⟨hpolicy, answer,
        ⟨hdeleted, hpolicy, read, kc, w, v, u, calls, more, rfl, hcalls⟩, hgone⟩⟩
  case kept =>
    intro hfailed
    rcases exec_reconcile_finalizer h with hspares | ⟨hdeleted, hpolicy | ⟨hpolicy, hreturned⟩⟩
    · exact hkept hspares
    · exfalso
      have horphan := h.only (only_orphan hdeleted hpolicy)
      rcases hfailed with ⟨_, ns, name, unavailable, u, v, tail, heq⟩ | ⟨answer, ⟨-, hdelete, -⟩, -⟩
      · obtain ⟨-, rfl⟩ := List.cons.inj heq
        exact (horphan _ List.mem_cons_self).2 ns name rfl
      · simp [hpolicy] at hdelete
    · exfalso
      obtain ⟨kc, v, answer, calls, more, u, rfl, hcalls, hgone⟩ := hreturned
      rcases hfailed with ⟨_, ns, name, unavailable, u, v, tail, heq⟩ |
        ⟨answer', ⟨-, -, _, kc', u', v', t', calls', more', heq, hcalls'⟩, hother⟩
      · cases (List.cons.inj (List.cons.inj heq).2).1
      · obtain ⟨hconnected, htail⟩ := List.cons.inj (List.cons.inj heq).2
        cases hconnected
        exact hother (hcalls.result_unique hcalls' htail ▸ hgone)

end Pass

/-- Every pass of every run keeps to the finalizer: the run is a sequence of passes, each
    of which reads a version of the resource, or none, and is bracketed for it. -/
theorem finalizer_brackets_server_work {e : Engine} {w t : World} {steps : Log}
    (hrun : e.Passes Contended World.KeepsFinalizer w steps t) :
    ∃ passes : List Log, steps = passes.flatten ∧ ∀ pass ∈ passes,
      (∃ u v result, Exec Contended e.controllerReconcile.run u pass v result) ∧
        ((∀ step ∈ pass, step.op = .getObject) ∨
          ∃ obj u v rest, pass = ⟨u, .getObject, .ok obj, v⟩ :: rest ∧ Bracketed obj pass) := by
  apply hrun.blocks
  intro u v pass result hexec
  refine ⟨⟨u, v, result, hexec⟩, ?_⟩
  rcases e.exec_pass hexec with ⟨hread, -⟩ | ⟨obj, u', rest, reached, hget, rfl, hrest, -⟩
  · exact .inl hread
  · exact .inr ⟨obj, u, u', rest, rfl, bracketed_of_exec rfl hget hrest⟩

/-- A deleted custom resource with policy Delete, and its client. -/
def deletedPortal : World :=
  .around { clientObject "portal" with
      deletionTimestamp := some 5
      spec := .client { keycloakRef := "main", realm := "demo", clientId := "portal"
                        deletionPolicy := some .delete, fields := ⟨∅, Fields.typed_empty _⟩ } }
    (clientServer ⟨[markedPortal], by decide, by decide⟩)

/-- A pass over it deletes the client and takes the finalizer away. -/
theorem deleted_portal_bracketed :
    ∃ steps t, (newEngine true 0).Passes Contended World.KeepsFinalizer deletedPortal steps t ∧
      deletedPortal.Finalized ∧ ¬ t.Finalized ∧
      ∃ passes : List Log, steps = passes.flatten ∧ ∀ pass ∈ passes,
        (∃ u v result, Exec Contended (newEngine true 0).controllerReconcile.run u pass v result) ∧
          ((∀ step ∈ pass, step.op = .getObject) ∨
            ∃ obj u v rest, pass = ⟨u, .getObject, .ok obj, v⟩ :: rest ∧ Bracketed obj pass) := by
  have hexec : Exec Contended (newEngine true 0).controllerReconcile.run deletedPortal _ _ _ :=
    (exec_handle _ _).mono fun op s answer t h => ⟨s, .refl, faulty_of_reliable op s answer t h⟩
  have hgone : ((newEngine true 0).controllerReconcile.run.run (World.handle World.sorted 0)
      deletedPortal).2.object = none := by decide
  refine ⟨_, _, .pass (.start _) hexec trivial, ⟨_, rfl, List.mem_singleton_self _⟩, ?_,
    finalizer_brackets_server_work (.pass (.start _) hexec trivial)⟩
  rintro ⟨obj, hobject, -⟩
  rw [hgone] at hobject
  cases hobject

end KeycloakOperator
