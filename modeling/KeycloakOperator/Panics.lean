import KeycloakOperator.Footprint
import KeycloakOperator.World

/-!
# Type assertions on the answers of the server

The drivers read untyped JSON.  Almost all of their type assertions are checked ones, which the
model has as functions into `Option`; an unchecked one is an error of kind `panic`.  Whatever the
server answers, no call of a driver panics but `Delete`, and `Delete` does so exactly if the
resource it has found has no id (`drivers_panic_iff`).
-/

namespace KeycloakOperator

open Prog

/-- A type assertion failed. -/
def Panics (r : Except Err α) : Prop := ∃ err, r = .error err ∧ err.kind = .panic

theorem panics_error {err : Err} : Panics (.error err : Except Err α) ↔ err.kind = .panic := by
  constructor
  · rintro ⟨_, ⟨⟩, hkind⟩
    exact hkind
  · exact fun hkind => ⟨err, rfl, hkind⟩

/-- An error that is passed on. -/
theorem not_panics_error {err err' : Err} (h : ¬ Panics (.error err : Except Err α))
    (hkind : err'.kind = err.kind) : ¬ Panics (.error err' : Except Err β) :=
  fun hpanics => h (panics_error.mpr (hkind.symm.trans (panics_error.mp hpanics)))

@[simp] theorem not_panics_ok (a : α) : ¬ Panics (.ok a : Except Err α) := by
  rintro ⟨err, herr, -⟩
  cases herr

/-- The errors that calls of the APIs return are values. -/
def Composed : (op : Op) → op.Answer → Prop
  | .admin _ _, answer => ¬ Panics answer
  | .createSecret _, answer => ¬ Panics answer
  | .updateSecret _, answer => ¬ Panics answer
  | _, _ => True

section Steady

variable {σ : Type} {env : Env operations σ}

/-- The call does not panic. -/
def Steady (env : Env operations σ) (p : Call α) : Prop :=
  ∀ s, wp env (fun _ _ => True) p.run (fun r _ => ¬ Panics r) s

theorem steady_ensureOutputSecret
    (hcomposed : ∀ {op : Op} {s s' : σ} {answer : op.Answer}, env op s answer s' → Composed op answer)
    (obj : ManagedObject) (name key value : String) :
    Steady env (ensureOutputSecret obj name key value) := by
  have hwrite : ∀ {op : Op} {next : op.Answer → Action (Except Err Bool)} {s : σ},
      (∀ answer t, Composed op answer →
        wp env ⊤ (next answer) (fun r _ => ¬ Panics r) t) →
      wp env ⊤ (.call op next) (fun r _ => ¬ Panics r) s :=
    fun hnext => ⟨trivial, fun answer t hstep => hnext answer t (hcomposed hstep)⟩
  unfold ensureOutputSecret
  refine fun s => ⟨trivial, fun answer t _ => ?_⟩
  rcases answer with err | existing
  · simp only [Prog.bind]
    split
    · apply hwrite
      rintro (err' | _) u hanswer
      · exact not_panics_error hanswer rfl
      · exact not_panics_ok true
    · exact fun hpanics => by cases panics_error.mp hpanics
  · simp only [Prog.bind]
    split
    · exact fun hpanics => by cases panics_error.mp hpanics
    · split
      · exact not_panics_ok false
      · apply hwrite
        rintro (err' | _) u hanswer
        · exact not_panics_error hanswer rfl
        · exact not_panics_ok true

variable (hcomposed : ∀ {op : Op} {s s' : σ} {answer : op.Answer}, env op s answer s' →
  Composed op answer)

include hcomposed

theorem steady_send (kc : Conn) (request : Request) : Steady env (kc.send request) :=
  fun _ => ⟨trivial, fun _ _ hstep => hcomposed hstep⟩

/-- Only an unchecked assertion panics: whatever else a call is made of does not. -/
theorem compositional_steady : Compositional (fun _ => True) (fun {_} call => Steady env call) where
  result := by
    rintro α r h s ⟨err, herr, hkind⟩
    exact h err herr hkind
  bind := by
    intro α β call next hcall hnext s
    refine wp_run_bind.mpr (wp_mono ?_ (hcall s))
    rintro (err | a) t ht
    · exact not_panics_error ht rfl
    · exact hnext a t
  context := by
    intro α context call hcall s
    refine wp_bind.mpr (wp_mono ?_ (hcall s))
    rintro (err | a) t ht
    · exact not_panics_error ht rfl
    · exact not_panics_ok a
  lift := fun _ s => wp_run_lift.mpr (wp_mono (fun a _ _ => not_panics_ok a) (wp_true _ s))
  send := fun _ => steady_send hcomposed _ _
  output := fun _ _ => steady_ensureOutputSecret hcomposed

/-- `PostApply` does not panic. -/
theorem wp_postApply_steady (spec : Spec) (kc : Conn) (obj : ManagedObject) (remote : Object)
    (s : σ) :
    wp env ⊤ (spec.driver.postApply kc obj remote) (fun r _ => ¬ Panics r.2) s := by
  have hP : Compositional (fun _ => True) (fun {_} call => Steady env call) :=
    compositional_steady hcomposed
  have hkeep : ∀ {mem : ManagedObject} {p : Call Bool} (t : σ), Steady env p →
      wp env ⊤ (keepObject mem p) (fun r _ => ¬ Panics r.2) t :=
    fun t hp => wp_bind.mpr (hp t)
  rcases spec with spec | spec | spec | spec | spec | spec
  · exact hkeep s (hP.value _)
  · change wp env _ (spec.postApply kc obj remote) _ s
    unfold ClientSpec.postApply requireId
    by_cases hid : remoteId remote = ""
    · simp only [if_pos hid]
      exact fun hpanics => by cases panics_error.mp hpanics
    simp only [if_neg hid]
    have hexport : Steady env (spec.exportSecret kc obj (remoteId remote)) :=
      hP.has_exportSecret (fun _ _ => trivial) (fun _ _ => trivial) (fun _ _ _ => trivial) obj
    have hscopes : ∀ list desired,
        Steady env (spec.enforceScopes kc (remoteId remote) list desired) := by
      intro list desired
      rcases desired with _ | desired
      · exact hP.value _
      · exact hP.has_enforceScopeAssignments (fun _ _ => trivial) (fun _ _ => trivial) desired
    refine wp_bind.mpr (wp_mono ?_ (hexport s))
    rintro (err | exported) t ht
    · exact not_panics_error ht rfl
    · exact hkeep t (hP.bind (hscopes _ _) fun _ => hP.bind (hscopes _ _) fun _ => hP.value _)
  · exact hkeep s (hP.value _)
  · exact hkeep s (hP.has_rolePostApply (fun _ _ => trivial) "" fun _ _ => trivial)
  · exact hkeep s (hP.has_idpPostApply (fun _ _ => trivial) "" fun _ _ => trivial)
  · exact hkeep s (hP.has_groupPostApply (fun _ _ => trivial) (fun _ _ _ => trivial)
      fun _ _ _ _ => trivial)

end Steady

/-! ### Deletions -/

/-- The first representation whose field `key` is the string `value`. -/
def firstWith (reps : List Object) (key value : String) : Option Object :=
  reps.find? fun rep => decide (rep.get key = some (.str value))

theorem wp_firstWith {σ : Type} {env : Env operations σ} {reps : List Object}
    {key value what : String} {post : Except Err Object → σ → Prop} {s : σ}
    (hnone : ∀ err : Err, firstWith reps key value = none → err.kind = .notFound →
      post (.error err) s)
    (hsome : ∀ rep, firstWith reps key value = some rep → post (.ok rep) s) :
    wp env ⊤ (Conn.findByField reps key value what).run post s := by
  unfold Conn.findByField
  split
  case h_1 rep hrep => exact hsome rep hrep
  case h_2 hrep => exact hnone _ hrep rfl

/-- The answers of the server lead the search to a representation without an id. -/
def Spec.FoundWithoutId {σ : Type} (h : Handler operations σ) (kc : Conn) (s : σ) : Spec → Prop
  | .client spec => ∃ reps rep,
      (h (.admin kc ⟨.get, .clientsByClientId spec.realm spec.clientId, .none, .objects⟩) s).1 = .ok reps ∧
      firstWith reps "clientId" spec.clientId = some rep ∧ stringField rep "id" = none
  | .clientScope spec => ∃ reps rep,
      (h (.admin kc ⟨.get, .clientScopes spec.realm, .none, .objects⟩) s).1 = .ok reps ∧
      firstWith reps "name" spec.name = some rep ∧ stringField rep "id" = none
  | .group spec => ∃ reps rep id group,
      (h (.admin kc ⟨.get, .groupSearch spec.realm spec.name, .none, .objects⟩) s).1 = .ok reps ∧
      firstWith reps "name" spec.name = some rep ∧ stringField rep "id" = some id ∧ id ≠ "" ∧
      -- the search is followed by a read of the whole group
      (h (.admin kc ⟨.get, .group spec.realm id, .none, .object⟩)
        (h (.admin kc ⟨.get, .groupSearch spec.realm spec.name, .none, .objects⟩) s).2).1 = .ok group ∧
      stringField group "id" = none
  | _ => False

section Delete

variable {σ : Type} {h : Handler operations σ} {kc : Conn} {s : σ}
  (hcomposed : ∀ op s, Composed op (h op s).1)

include hcomposed

theorem composed_env {op : Op} {s s' : σ} {answer : op.Answer} (hstep : h.env op s answer s') :
    Composed op answer := by
  have hanswer : (h op s).1 = answer := congrArg Prod.fst hstep
  exact hanswer ▸ hcomposed op s

/-- The unchecked assertion, and the request that depends on it. -/
theorem wp_deleteFound_panics {item : String → Endpoint} (remote : Object) :
    wp h.env ⊤
      (assertId remote >>= fun id => kc.submit .delete (item id) .none).run
      (fun r _ => Panics r ↔ stringField remote "id" = none) s := by
  unfold assertId
  rcases stringField remote "id" with _ | id
  · exact iff_of_true (panics_error.mpr rfl) rfl
  · refine wp_mono (fun r t hr => ?_) (steady_send (composed_env hcomposed) kc _ s)
    exact iff_of_false hr (by simp)

theorem wp_deleteListed_panics {endpoint : Endpoint} {item : String → Endpoint} {key value what : String} :
    wp h.env ⊤ (((do
        let out ← kc.fetchObjects endpoint
        Conn.findByField out key value what) : Call Object) >>= fun remote =>
      assertId remote >>= fun id => kc.submit .delete (item id) .none).run
      (fun r _ => Panics r ↔ ∃ reps rep,
        (h (.admin kc ⟨.get, endpoint, .none, .objects⟩) s).1 = .ok reps ∧
        firstWith reps key value = some rep ∧ stringField rep "id" = none) s := by
  refine wp_run_bind.mpr (wp_run_bind.mpr ⟨trivial, fun answer t hstep => ?_⟩)
  have hanswer : (h (.admin kc ⟨.get, endpoint, .none, .objects⟩) s).1 = answer :=
    congrArg Prod.fst hstep
  rw [hanswer]
  rcases answer with err | reps
  · refine iff_of_false (not_panics_error (composed_env hcomposed hstep) rfl) ?_
    rintro ⟨reps, rep, hok, -⟩
    cases hok
  · refine wp_firstWith (fun err hfirst hkind => ?_) fun rep hfirst => ?_
    · refine iff_of_false (fun hpanics => ?_) ?_
      · cases hkind.symm.trans (panics_error.mp hpanics)
      · rintro ⟨_, rep, ⟨⟩, hrep, -⟩
        cases hfirst.symm.trans hrep
    · refine wp_mono (fun r u hr => hr.trans ?_) (wp_deleteFound_panics hcomposed rep)
      constructor
      · exact fun hid => ⟨reps, rep, rfl, hfirst, hid⟩
      · rintro ⟨_, rep', ⟨⟩, hrep, hid⟩
        cases hfirst.symm.trans hrep
        exact hid

theorem wp_deleteGroup_panics (spec : GroupSpec) :
    wp h.env ⊤ (spec.driver.delete kc).run
      (fun r _ => Panics r ↔ (Spec.group spec).FoundWithoutId h kc s) s := by
  refine wp_run_bind.mpr (wp_run_bind.mpr ⟨trivial, fun answer t hstep => ?_⟩)
  have hanswer : (h (.admin kc ⟨.get, .groupSearch spec.realm spec.name, .none, .objects⟩) s) =
      (answer, t) := hstep
  simp only [Spec.FoundWithoutId, hanswer]
  rcases answer with err | reps
  · refine iff_of_false (not_panics_error (composed_env hcomposed hstep) rfl) ?_
    rintro ⟨reps, rep, id, group, hok, -⟩
    cases hok
  refine wp_run_bind.mpr (wp_firstWith (fun err hfirst hkind => ?_) fun rep hfirst => ?_)
  · refine iff_of_false (fun hpanics => ?_) ?_
    · cases hkind.symm.trans (panics_error.mp hpanics)
    · rintro ⟨_, rep, id, group, ⟨⟩, hrep, -⟩
      cases hfirst.symm.trans hrep
  -- what the search found has an id, or it counts as not found
  change wp h.env _ (if remoteId rep = "" then throw _
    else kc.getGroup spec.realm (remoteId rep) : Call Object).run _ t
  split
  case isTrue hempty =>
    refine iff_of_false (fun hpanics => by cases panics_error.mp hpanics) ?_
    rintro ⟨_, rep', id, group, ⟨⟩, hrep, hid, hne, -⟩
    cases hfirst.symm.trans hrep
    rw [remoteId, hid] at hempty
    exact hne hempty
  case isFalse hne =>
    have hid : stringField rep "id" = some (remoteId rep) := by
      unfold remoteId at hne ⊢
      rcases hfield : stringField rep "id" with _ | id
      · simp [hfield] at hne
      · rfl
    refine ⟨trivial, fun answer u hget => ?_⟩
    have hread : (h (.admin kc ⟨.get, .group spec.realm (remoteId rep), .none, .object⟩) t).1 =
        answer := congrArg Prod.fst hget
    have hfound : (∃ reps' rep' id group, Except.ok (ε := Err) reps = .ok reps' ∧
        firstWith reps' "name" spec.name = some rep' ∧ stringField rep' "id" = some id ∧ id ≠ "" ∧
        (h (.admin kc ⟨.get, .group spec.realm id, .none, .object⟩) t).1 = .ok group ∧
        stringField group "id" = none) ↔
        ∃ group, answer = .ok group ∧ stringField group "id" = none := by
      constructor
      · rintro ⟨_, rep', id, group, ⟨⟩, hrep, hid', -, hgroup, hnone⟩
        cases hfirst.symm.trans hrep
        cases hid.symm.trans hid'
        exact ⟨group, hread.symm.trans hgroup, hnone⟩
      · rintro ⟨group, hgroup, hnone⟩
        exact ⟨reps, rep, remoteId rep, group, rfl, hfirst, hid, hne, hread.trans hgroup, hnone⟩
    rcases answer with err | group
    · refine iff_of_false (not_panics_error (composed_env hcomposed hget) rfl) ?_
      rintro ⟨reps', rep', id, group, hrest⟩
      obtain ⟨_, ⟨⟩, -⟩ := hfound.mp ⟨reps', rep', id, group, hrest⟩
    · change wp h.env _
        (assertId group >>= fun id => kc.submit .delete (.group spec.realm id) .none).run _ u
      refine wp_mono (fun r v hr => hr.trans ?_) (wp_deleteFound_panics hcomposed group)
      refine Iff.trans ?_ hfound.symm
      constructor
      · exact fun hnone => ⟨group, rfl, hnone⟩
      · rintro ⟨_, ⟨⟩, hnone⟩
        exact hnone

theorem wp_delete_panics (spec : Spec) :
    wp h.env ⊤ (spec.driver.delete kc).run
      (fun r _ => Panics r ↔ spec.FoundWithoutId h kc s) s := by
  have hsingle : ∀ {endpoint : Endpoint} {P : Prop}, ¬ P →
      wp h.env ⊤ (kc.submit .delete endpoint .none).run
        (fun r _ => Panics r ↔ P) s := by
    intro endpoint P hP
    refine wp_mono (fun r t hr => ?_) (steady_send (composed_env hcomposed) kc _ s)
    exact iff_of_false hr hP
  rcases spec with spec | spec | spec | spec | spec | spec
  · exact hsingle fun h => h
  · exact wp_deleteListed_panics hcomposed
  · exact wp_deleteListed_panics hcomposed
  · exact hsingle fun h => h
  · exact hsingle fun h => h
  · exact wp_deleteGroup_panics hcomposed spec

end Delete

/-- **When a driver panics.**  Whatever the server answers, `Get`, `PostApply` and `Delete` return
    a value or an error, except that `Delete` panics if it has found a client, a client scope or a
    group without an id.  `ID` and `IsManaged` have checked assertions only and are functions. -/
theorem drivers_panic_iff {σ : Type} (h : Handler operations σ)
    (hcomposed : ∀ op s, Composed op (h op s).1) (spec : Spec) (kc : Conn) (obj : ManagedObject)
    (remote : Object) (s : σ) :
    (¬ Panics ((spec.driver.get kc).run.run h s).1 ∧
      ¬ Panics ((spec.driver.postApply kc obj remote).run h s).1.2 ∧
      ¬ Panics ((spec.driver.delete kc).run.run h s).1) ↔
    ¬ spec.FoundWithoutId h kc s := by
  have hget : ¬ Panics ((spec.driver.get kc).run.run h s).1 :=
    (wp_sound ((compositional_steady (composed_env hcomposed)).has_get_fetches
      (fun _ _ => trivial) spec s) (exec_run h _ s)).2 _ rfl
  have hpostApply : ¬ Panics ((spec.driver.postApply kc obj remote).run h s).1.2 :=
    (wp_sound (wp_postApply_steady (composed_env hcomposed) spec kc obj remote s)
      (exec_run h _ s)).2 _ rfl
  have hdelete : Panics ((spec.driver.delete kc).run.run h s).1 ↔ spec.FoundWithoutId h kc s :=
    (wp_sound (wp_delete_panics hcomposed spec) (exec_run h _ s)).2 _ rfl
  constructor
  · exact fun hsteady => hdelete.not.mp hsteady.2.2
  · exact fun hfound => ⟨hget, hpostApply, hdelete.not.mpr hfound⟩

/-- A server that accepts every request and answers every search with the same list. -/
def listing (reps : List Object) : Handler operations Unit := fun op _ =>
  match op with
  | .admin _ ⟨_, _, _, .nothing⟩ => (.ok (), ())
  | .admin _ ⟨_, _, _, .object⟩ => (.ok ∅, ())
  | .admin _ ⟨_, _, _, .objects⟩ => (.ok reps, ())
  | .admin _ ⟨_, _, _, .secret⟩ => (.ok "", ())
  | .now => (0, ())
  | .iterate keys => (World.sorted keys, ())
  | .connect _ name => (.ok ⟨name, "keycloak"⟩, ())
  | .getObject => (.error ⟨true, "not found"⟩, ())
  | .updateObject obj => (.ok obj, ())
  | .patchObject _ obj => (.ok obj, ())
  | .patchStatus _ obj => (.ok obj, ())
  | .getSecret _ _ => (.error ⟨true, "not found"⟩, ())
  | .createSecret _ => (.ok (), ())
  | .updateSecret _ => (.ok (), ())
  | .event _ _ _ => ((), ())
  | .driftCorrected _ => ((), ())
  | .reconciled _ _ => ((), ())

theorem composed_listing (reps : List Object) (op : Op) (s : Unit) :
    Composed op (listing reps op s).1 := by
  rcases op with _ | _ | _ | ⟨_, _, _, _, out⟩ | _ | _ | _ | _ | _ | _ | _ | _ | _ | _
  case admin => rcases out <;> exact not_panics_ok _
  case createSecret | updateSecret => exact not_panics_ok _
  all_goals trivial

/-- A client `portal`. -/
def portalSpec : Spec :=
  .client { keycloakRef := "main", realm := "demo", clientId := "portal", fields := ⟨∅, Fields.typed_empty _⟩ }

/-- The client is listed with an id. -/
theorem identified_client_deleted :
    ¬ Panics ((portalSpec.driver.delete ⟨"main", "keycloak"⟩).run.run
      (listing [.ofList [("id", .str "1"), ("clientId", .str "portal")]]) ()).1 := by
  refine ((drivers_panic_iff _ (composed_listing _) portalSpec ⟨"main", "keycloak"⟩
    { ns := "apps", name := "portal", uid := "uid-1", generation := 1, spec := portalSpec } ∅
    ()).mpr ?_).2.2
  rintro ⟨reps, rep, hreps, hrep, hid⟩
  cases hreps
  cases hrep
  revert hid
  decide

/-- The client is listed without an id. -/
theorem client_without_id_panics :
    (∀ op s, Composed op (listing [.ofList [("clientId", .str "portal")]] op s).1) ∧
      Panics ((portalSpec.driver.delete ⟨"main", "keycloak"⟩).run.run
        (listing [.ofList [("clientId", .str "portal")]]) ()).1 :=
  ⟨composed_listing _, ⟨.panic, "interface conversion: interface is not string"⟩, by decide, rfl⟩

end KeycloakOperator
