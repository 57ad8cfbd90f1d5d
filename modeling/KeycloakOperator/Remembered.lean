import KeycloakOperator.Removal

/-!
# What the operator remembers

A field that was written can be removed later as long as the spec or the last-applied
annotation has it.  The write on the server and the annotation are separate steps, and
the spec can be edited in between: after a write whose annotation failed, an edit that
drops the field makes the operator forget it.  No pass forgets a field, wherever it
stops; edits that drop only recorded fields do not either.
-/

namespace KeycloakOperator

open Prog

/-- The value that the server has for a field of the resource. -/
def World.value (w : World) (kc : Conn) (s : Spec) (k : String) : Option JSON :=
  (w.target kc s).bind fun r => r.report.get k

/-- A field that is not cleared on the server is one of the spec or of the annotation. -/
def World.Remembers (w : World) (k : String) : Prop :=
  ∀ obj kc, w.object = some obj → w.connections obj.ns obj.spec.connectionName = .ok kc →
    ¬ Cleared (w.value kc obj.spec k) →
      k ∈ obj.spec.representation.keys ∨ k ∈ obj.lastApplied.entries.keys

/-- The server accepted the creation or the update, and the body has a string, a boolean
    or a list from the spec under the field. -/
def Carries (k : String) (step : Step operations World) : Prop :=
  ∃ kc request body obj v, step.op = .admin kc request ∧ request.body = .object body ∧
    ((request.method = .post ∧ request.endpoint.collection.isSome) ∨
      (request.method = .put ∧ request.endpoint.item.isSome)) ∧
    (∃ answer, step.before.admin kc request = (.ok answer, step.after)) ∧
    step.before.object = some obj ∧ obj.spec.representation.get k = some v ∧
    body.get k = some v ∧ v.shape.Resettable

/-- The edit drops a field that is on the server and not in the annotation, or that the
    server masks. -/
def World.Forgets (w : World) (spec : Spec) : Prop :=
  ∃ obj kc k v, w.object = some obj ∧ w.connections obj.ns obj.spec.connectionName = .ok kc ∧
    obj.spec.representation.get k = some v ∧ v.shape.Resettable ∧
    spec.representation.get k = none ∧ ¬ Cleared (w.value kc obj.spec k) ∧
    (k ∉ obj.lastApplied.entries.keys ∨ w.value kc obj.spec k = some (.str keycloakMaskedValue))

/-! ### The invariant for one field -/

/-- The field is in the spec, or cleared, or will be cleared by the next pass. -/
def World.Keeps (w : World) (k : String) : Prop :=
  ∀ obj kc, w.object = some obj → w.connections obj.ns obj.spec.connectionName = .ok kc →
    k ∈ obj.spec.representation.keys ∨ Cleared (w.value kc obj.spec k) ∨
      (k ∈ obj.lastApplied.entries.keys ∧
        w.value kc obj.spec k ≠ some (.str keycloakMaskedValue))

theorem World.Keeps.remembers {w : World} {k : String} (h : w.Keeps k) : w.Remembers k := by
  intro obj kc hobject hconnection hcleared
  rcases h obj kc hobject hconnection with hspec | hclear | ⟨hrecord, -⟩
  · exact .inl hspec
  · exact absurd hclear hcleared
  · exact .inr hrecord

/-- A live custom resource whose annotation, if there is one, has the types of the kind. -/
structure World.Tracks (w : World) (obj : ManagedObject) : Prop where
  object : w.object = some obj
  live : obj.deletionTimestamp = none
  typed : Typed obj.spec.kind.shapes obj.lastApplied.entries

/-- A state of a pass over `obj` that began at `w`: no field is forgotten. -/
def Continues (w : World) (obj : ManagedObject) (t : World) : Prop :=
  ∃ obj', t.Tracks obj' ∧ obj'.spec = obj.spec ∧
    ∀ k shape, (k, shape) ∈ obj.spec.kind.shapes → shape.Resettable → w.Keeps k → t.Keeps k

section Pass

variable {w t : World} {obj : ManagedObject} {kc : Conn} {e : Engine}

theorem World.Tracks.continues (h : w.Tracks obj) : Continues w obj w :=
  ⟨obj, h, rfl, fun _ _ _ _ hkeeps => hkeeps⟩

/-- Wherever a live pass stops, it has not forgotten a field. -/
theorem Reaches.continues (hw : w.Tracks obj)
    (hconnection : w.connections obj.ns obj.spec.connectionName = .ok kc)
    (h : Reaches kc obj (w.view kc obj.spec) (t.view kc obj.spec)) : Continues w obj t := by
  obtain ⟨hconnections, text, hobject, hreached⟩ := h
  obtain ⟨obj', hobj', hcore⟩ := Option.map_eq_some_iff.mp hobject
  have hspec : obj'.spec = obj.spec := congrArg Core.spec hcore
  have hns : obj'.ns = obj.ns := congrArg Core.ns hcore
  have htext : obj'.lastApplied = text := congrArg Core.lastApplied hcore
  have hstored : ∀ {k : String} {shape : Shape} {r : Resource},
      (k, shape) ∈ obj.spec.kind.shapes → shape.Resettable → w.Keeps k →
      Stored kc.label obj (w.target kc obj.spec) r →
      k ∈ obj.spec.representation.keys ∨ Cleared (r.report.get k) := by
    intro k shape r hk hshape hkeeps hstored
    rcases hkeeps obj kc hw.object hconnection with hspec | hbefore
    · exact .inl hspec
    · by_cases hremoved : k ∈ obj.spec.representation.keys
      · exact .inl hremoved
      · exact .inr (hstored.cleared hw.typed hk hshape (FiniteMap.get_eq_none_iff.mpr hremoved)
          hbefore)
  refine ⟨obj', ⟨hobj', (congrArg Core.deletionTimestamp hcore).trans hw.live, ?_⟩, hspec, ?_⟩
  · rw [hspec, htext]
    generalize (t.view kc obj.spec).resource = after at hreached
    rcases hreached with _ | _ | _
    · exact hw.typed
    · exact hw.typed
    · exact obj.spec.typed_representation
  · intro k shape hk hshape hkeeps obj'' kc' hobj'' hconnection'
    obtain rfl := Option.some.inj (hobj'.symm.trans hobj'')
    rw [hspec, hns, show t.connections = w.connections from hconnections, hconnection] at hconnection'
    obtain rfl := Except.ok.inj hconnection'
    rw [hspec, htext]
    unfold World.value
    rw [show t.target kc obj.spec = (t.view kc obj.spec).resource from rfl]
    generalize (t.view kc obj.spec).resource = after at hreached
    rcases hreached with _ | hwritten | hsettled
    · exact hkeeps obj kc hw.object hconnection
    · exact (hstored hk hshape hkeeps hwritten).imp_right .inl
    · exact (hstored hk hshape hkeeps hsettled).imp_right .inl

theorem wp_pass_continues (hw : w.Tracks obj) :
    wp Faulty (fun _ t => Continues w obj t) e.controllerReconcile.run (fun _ t => Continues w obj t)
      w := by
  refine wp_pass (fun _ _ h => h) hw.object hw.continues (fun _ _ => hw.continues) ?_
  rcases hconnection : w.connections obj.ns obj.spec.connectionName with unavailable | kc
  · -- nothing but the status changes, and no server is named
    have hunconnected : ∀ u : World, u.view ⟨"", ""⟩ obj.spec = w.view ⟨"", ""⟩ obj.spec →
        Continues w obj u := by
      intro u hu
      have hobject : u.object.map ManagedObject.core = some obj.core :=
        (congrArg View.object hu).trans (by simp [World.view, hw.object])
      obtain ⟨obj', hobj', hcore⟩ := Option.map_eq_some_iff.mp hobject
      have hspec : obj'.spec = obj.spec := congrArg Core.spec hcore
      refine ⟨obj', ⟨hobj', (congrArg Core.deletionTimestamp hcore).trans hw.live, ?_⟩, hspec, ?_⟩
      · rw [hspec, show obj'.lastApplied = obj.lastApplied from congrArg Core.lastApplied hcore]
        exact hw.typed
      · intro k shape _ _ _ obj'' kc hobj'' hconnected
        obtain rfl := Option.some.inj (hobj'.symm.trans hobj'')
        rw [hspec, show obj'.ns = obj.ns from congrArg Core.ns hcore,
          show u.connections = w.connections from congrArg View.connections hu, hconnection]
          at hconnected
        cases hconnected
    refine wp_mono (fun pass u hu => hunconnected u hu.2) (wp_guard_mono (fun op u hu =>
      hunconnected u hu.2) (wp_reconcile_unconnected hw.live
        (fun kc h => by cases hconnection.symm.trans h) ⟨"", ""⟩ obj.spec))
  · exact wp_mono (fun pass u hu => hu.1.continues hw hconnection)
      (wp_guard_mono (fun op u hu => hu.2.continues hw hconnection)
        (wp_reconcile hw.object hw.live hconnection))

end Pass

/-! ### Runs -/

/-- Edits that keep the target and drop recorded or cleared fields only. -/
def KeepsRecord (w : World) (spec : Spec) : Prop := KeepsTarget w spec ∧ ¬ w.Forgets spec

section Edit

variable {w : World} {obj : ManagedObject} {spec : Spec}

theorem World.Tracks.edit (h : w.Tracks obj) (hedit : KeepsRecord w spec) :
    (w.edit spec).Tracks { obj with spec := spec, generation := obj.generation + 1 } where
  object := by simp [World.edit, h.object]
  live := h.live
  typed := (hedit.1 obj h.object).kind ▸ h.typed

theorem World.Keeps.edit (hkeeps : w.Keeps k) (h : w.Tracks obj) (hedit : KeepsRecord w spec)
    {shape : Shape} (hk : (k, shape) ∈ obj.spec.kind.shapes) (hshape : shape.Resettable) :
    (w.edit spec).Keeps k := by
  have htarget := hedit.1 obj h.object
  intro obj' kc hobj' hconnection
  obtain rfl := Option.some.inj ((h.edit hedit).object.symm.trans hobj')
  have hconnection : w.connections obj.ns obj.spec.connectionName = .ok kc :=
    htarget.connection ▸ hconnection
  have hvalue : (w.edit spec).value kc spec k = w.value kc obj.spec k :=
    congrArg (·.bind fun r => r.report.get k) (World.target_congr htarget w kc)
  rw [hvalue]
  by_cases hnew : k ∈ spec.representation.keys
  · exact .inl hnew
  refine .inr ?_
  rcases hkeeps obj kc h.object hconnection with hold | hrecorded
  · -- the edit drops the field, so it is cleared or recorded
    by_contra hforgotten
    rw [not_or, not_and_or, not_not] at hforgotten
    obtain ⟨v, hv⟩ := FiniteMap.mem_keys_iff.mp hold
    have hvshape : v.shape = shape :=
      Kind.shape_unique (obj.spec.typed_representation k v hv) hk
    exact hedit.2 ⟨obj, kc, k, v, h.object, hconnection, hv, hvshape ▸ hshape,
      FiniteMap.get_eq_none_iff.mpr hnew, hforgotten.1, hforgotten.2⟩
  · exact hrecorded

end Edit

/-- The invariant of a run: what a step had in its spec is kept. -/
theorem Engine.Passes.keeps {e : Engine} {w t : World} {first : ManagedObject}
    {steps : Log}
    (hrun : e.Passes Faulty (Edits KeepsRecord) w steps t) (hw : w.Tracks first) :
    ∃ obj, t.Tracks obj ∧ ∀ step ∈ steps, ∀ old k v, step.before.object = some old →
      old.spec.representation.get k = some v → v.shape.Resettable →
        (k, v.shape) ∈ obj.spec.kind.shapes ∧ t.Keeps k := by
  induction hrun with
  | start => exact ⟨first, hw, fun step hstep => absurd hstep List.not_mem_nil⟩
  | move _ hmove ih =>
    obtain ⟨obj, htracks, hkeeps⟩ := ih
    obtain ⟨spec, hedit, rfl⟩ := hmove
    refine ⟨_, htracks.edit hedit, fun step hstep old k v hold hv hshape => ?_⟩
    obtain ⟨hk, hkept⟩ := hkeeps step hstep old k v hold hv hshape
    exact ⟨(hedit.1 obj htracks.object).kind ▸ hk, hkept.edit htracks hedit hk hshape⟩
  | pass _ hexec _ ih =>
    obtain ⟨obj, htracks, hkeeps⟩ := ih
    have hwp := wp_pass_continues (e := e) htracks
    have hend : Continues _ obj _ := wp_invariant (fun _ _ h => h) (fun _ _ h => h) hwp hexec
    obtain ⟨obj', htracks', hspec, hcontinues⟩ := hend
    refine ⟨obj', htracks', List.forall_mem_append.mpr ⟨?_, ?_⟩⟩
    · intro step hstep old k v hold hv hshape
      obtain ⟨hk, hkept⟩ := hkeeps step hstep old k v hold hv hshape
      exact ⟨hspec ▸ hk, hcontinues k _ hk hshape hkept⟩
    · -- the spec is the same all through the pass
      intro step hstep old k v hold hv hshape
      obtain ⟨during, hduring, hsame, -⟩ := (wp_sound hwp hexec).1 step hstep
      obtain rfl := Option.some.inj (hduring.object.symm.trans hold)
      rw [hsame] at hv
      have hk := obj.spec.typed_representation k v hv
      refine ⟨hspec ▸ hk, hcontinues k _ hk hshape fun obj'' kc hobj'' _ => .inl ?_⟩
      obtain rfl := Option.some.inj (htracks.object.symm.trans hobj'')
      exact FiniteMap.mem_keys_of_get hv

/-- **Everything written is remembered** in every run of passes, failing or cut off
    anywhere, and edits that drop recorded or cleared fields only. -/
theorem written_remembered (e : Engine) {w t : World} {obj : ManagedObject}
    {steps : List (Step operations World)} (hw : w.Tracks obj)
    (hrun : e.Passes Faulty (Edits KeepsRecord) w steps t) :
    ∀ step ∈ steps, ∀ k, Carries k step → t.Remembers k := by
  intro step hstep k hcarries
  obtain ⟨_, _, _, old, v, _, _, _, _, hold, hv, _, hshape⟩ := hcarries
  obtain ⟨obj', -, hkeeps⟩ := hrun.keeps hw
  exact (hkeeps step hstep old k v hold hv hshape).2.remembers

/-! ### Concrete runs -/

/-- `Carries`, for the steps of a handler that serves the Admin API. -/
def carries (k : String) (step : Step operations World) : Bool :=
  match step with
  | ⟨before, .admin kc request, _, _⟩ =>
      match request.body with
      | .object body =>
          decide ((request.method = .post ∧ request.endpoint.collection.isSome) ∨
            (request.method = .put ∧ request.endpoint.item.isSome)) &&
          (before.admin kc request).1.isOk &&
          before.object.any fun obj => (obj.spec.representation.get k).any fun v =>
            decide (body.get k = some v ∧ v.shape.Resettable)
      | _ => false
  | _ => false

theorem carries_of_mem {h : Handler operations World} {p : Action α} {w : World} {k : String}
    (hadmin : ∀ kc request w, h (.admin kc request) w = w.admin kc request)
    (hany : (p.runSteps h w).any (carries k) = true) : ∃ step ∈ p.runSteps h w, Carries k step := by
  obtain ⟨⟨before, op, answer, after⟩, hmem, hcarries⟩ := List.any_eq_true.mp hany
  refine ⟨_, hmem, ?_⟩
  have hstep := mem_runSteps hmem
  rcases op <;> try cases hcarries
  rename_i kc request
  simp only [carries] at hcarries
  split at hcarries
  case h_2 => cases hcarries
  case h_1 body hbody =>
    rw [Bool.and_eq_true, Bool.and_eq_true] at hcarries
    obtain ⟨⟨hwrite, haccepted⟩, hspec⟩ := hcarries
    obtain ⟨obj, hobject, hfield⟩ := (Option.any_eq_true _ _).mp hspec
    obtain ⟨v, hv, hcarried⟩ := (Option.any_eq_true _ _).mp hfield
    obtain ⟨hbodyValue, hshape⟩ := of_decide_eq_true hcarried
    refine ⟨kc, request, body, obj, v, rfl, hbody, of_decide_eq_true hwrite, ?_, hobject, hv,
      hbodyValue, hshape⟩
    rw [hadmin] at hstep
    rcases hanswer : (before.admin kc request).1 with err | value
    · rw [hanswer] at haccepted
      cases haccepted
    · have hafter : (before.admin kc request).2 = after := congrArg Prod.snd hstep
      exact ⟨value, Prod.ext hanswer hafter⟩

theorem tracks_describedPortal : describedPortal.Tracks
    { clientObject "portal" with spec := clientWith "demo" describedFields } where
  object := rfl
  live := rfl
  typed k v hv := by cases hv

/-- The first pass over a client with a description. -/
theorem described_portal_remembered :
    ∃ steps t, (newEngine true 0).Passes Faulty (Edits KeepsRecord) describedPortal steps t ∧
      (∃ step ∈ steps, Carries "description" step) ∧ t.Remembers "description" := by
  have hrun : (newEngine true 0).Passes Faulty (Edits KeepsRecord) describedPortal
      describedPortal.passSteps describedPortal.afterPass :=
    .pass (.start _) (describedPortal.exec_pass.mono faulty_of_reliable) trivial
  obtain ⟨step, hstep, hcarries⟩ : ∃ step ∈ describedPortal.passSteps,
      Carries "description" step := carries_of_mem (fun _ _ _ => rfl) (by decide)
  exact ⟨_, _, hrun, ⟨step, hstep, hcarries⟩,
    written_remembered (newEngine true 0) tracks_describedPortal hrun step hstep _ hcarries⟩

/-- The API servers, while patches of the custom resource fail. -/
def World.handleUnpatched : Handler operations World := fun op w =>
  match op with
  | .patchObject _ _ => (.error ⟨.other, "unavailable"⟩, w)
  | op => World.handle World.sorted 0 op w

theorem exec_handleUnpatched (p : Action α) (w : World) :
    p.Exec Faulty w (p.runSteps World.handleUnpatched w) (p.run World.handleUnpatched w).2
      (some (p.run World.handleUnpatched w).1) := by
  refine (p.exec_run _ w).mono fun op w answer w' h => ?_
  rcases op
  case patchObject base obj =>
    cases h
    exact .inr ⟨⟨_, rfl⟩, .inl rfl⟩
  all_goals exact .inl ⟨World.sorted, 0, h⟩

/-- The client is created, the annotation cannot be written, and the edit drops the
    description. -/
def unrecordedPortal : World :=
  ((newEngine true 0).controllerReconcile.run.run World.handleUnpatched describedPortal).2.edit
    (clientWith "demo" enabledFields)

/-- Nobody knows of the description any more. -/
theorem unrecorded_description_forgotten :
    ∃ steps t, describedPortal.Tracks
        { clientObject "portal" with spec := clientWith "demo" describedFields } ∧
      (newEngine true 0).Passes Faulty (Edits KeepsTarget) describedPortal steps t ∧
      (∃ step ∈ steps, Carries "description" step) ∧ ¬ t.Remembers "description" := by
  have hcarries : ∃ step ∈ (newEngine true 0).controllerReconcile.run.runSteps World.handleUnpatched
      describedPortal, Carries "description" step := carries_of_mem (fun _ _ _ => rfl) (by decide)
  have hrun : (newEngine true 0).Passes Faulty (Edits KeepsTarget) describedPortal _
      unrecordedPortal :=
    .move (.pass (.start _) (exec_handleUnpatched _ describedPortal) trivial)
      ⟨clientWith "demo" enabledFields, by decide, rfl⟩
  have hforgotten : (unrecordedPortal.object.any fun obj => decide (
      unrecordedPortal.connections obj.ns obj.spec.connectionName = .ok ⟨"main", "keycloak"⟩ ∧
        ¬ Cleared (unrecordedPortal.value ⟨"main", "keycloak"⟩ obj.spec "description") ∧
        "description" ∉ obj.spec.representation.keys ∧
        "description" ∉ obj.lastApplied.entries.keys)) = true := by decide
  refine ⟨_, unrecordedPortal, tracks_describedPortal, hrun, hcarries, fun h => ?_⟩
  obtain ⟨obj, hobject, hfacts⟩ := (Option.any_eq_true _ _).mp hforgotten
  obtain ⟨hconnection, hvalue, hspec, hrecord⟩ := of_decide_eq_true hfacts
  exact (h obj _ hobject hconnection hvalue).elim hspec hrecord

end KeycloakOperator
