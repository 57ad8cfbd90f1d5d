import KeycloakOperator.PassReports

/-!
# Failure reports and the order of maps

Go visits the entries of a map in a random order.  The loops over Secret entries, client scopes,
client roles and mappers stop at the first thing that is wrong, so with two things wrong in one loop
it is the order that decides which of them is reported.  `failure_reports_agree_iff` says that
nothing else makes a difference, whatever requests the servers refuse: two passes from one state
report the same failure, and a retry from the reported state leaves the custom resource alone and
records no warning, just when no loop that the pass comes to complains in two ways.
-/

namespace KeycloakOperator

open Prog

/-- A loop over a map, which the pass comes to, has different complaints about two of its keys. -/
def World.Ambiguous (d : Denials) (w : World) : Prop :=
  ∃ kc obj, w.Attends kc obj ∧ (w.prospect d kc obj).obstacle.Splits

/-- Two passes from the state report the same failure, whatever the order in which maps are visited,
    and a retry on the reported state writes and announces nothing. -/
def Engine.ReportsAgree (e : Engine) (d : Denials) (w : World) : Prop :=
  (∀ steps t result steps' t' result' f f',
    Exec (Served d.serve) e.controllerReconcile.run w steps t (some result) →
    Exec (Served d.serve) e.controllerReconcile.run w steps' t' (some result') →
    t.failure = some f → t'.failure = some f' → f = f') ∧
  ∀ steps t result f steps' t' result',
    Exec (Served d.serve) e.controllerReconcile.run w steps t (some result) →
    (∃ step ∈ steps, step.op.PatchesStatus) → t.failure = some f →
    Exec (Served d.serve) e.controllerReconcile.run { w with object := t.object } steps' t'
      (some result') →
    t'.object = t.object ∧ ∀ step ∈ steps', ¬ step.op.Warns

section Agreement

variable {d : Denials} {w t t' : World} {e : Engine} {kc : Conn} {obj : ManagedObject}
  {steps steps' : List (Step operations World)} {result result' : Except Err (Option Pass)}

/-- What a pass raises and what it stores. -/
theorem exists_told (hclients : obj.spec.ClientsNamed (w.servers kc.server))
    (hattends : w.Attends kc obj)
    (hexec : Exec (Served d.serve) e.controllerReconcile.run w steps t (some result)) :
    ∃ raised, (w.prospect d kc obj).obstacle.Raises (fun _ _ => True) raised ∧
      t.Tells (w.prospect d kc obj) obj raised := by
  obtain ⟨_, -, htold⟩ := (wp_sound ((ends_told (iterating_served d)).wp_pass (iterating_served d)
    hclients hattends) hexec).2 _ rfl
  exact htold

/-- The report of a pass that visits every map from the given key on, about an obstacle with a flaw
    at the key. -/
theorem exists_exec_failure (e : Engine) (hclients : obj.spec.ClientsNamed (w.servers kc.server))
    (hattends : w.Attends kc obj) {key complaint : String} (hraised : ∀ raised,
      (w.prospect d kc obj).obstacle.Raises (Leading key) raised → raised = some complaint) :
    ∃ steps t result, Exec (Served d.serve) e.controllerReconcile.run w steps t (some result) ∧
      t.failure = some ((w.prospect d kc obj).reason, complaint) := by
  have hiterating := iterating_leading d key
  have hexec := exec_run (World.handleWith d.serve (fun keys => (World.sorted keys).leading key) 0)
    e.controllerReconcile.run w
  refine ⟨_, _, _, hexec.mono fun _ _ _ _ hstep => hiterating.served hstep, ?_⟩
  obtain ⟨_, -, raised, hraises, htells⟩ := (wp_sound
    ((ends_told hiterating).wp_pass hiterating hclients hattends) hexec).2 _ rfl
  rw [htells.failure, hraised raised hraises]
  rfl

/-- Without an ambiguity, all passes from one state report the same. -/
theorem World.failure_unique (h : ¬ w.Ambiguous d)
    (hclients : ∀ kc obj, w.Attends kc obj → obj.spec.ClientsNamed (w.servers kc.server))
    (hexec : Exec (Served d.serve) e.controllerReconcile.run w steps t (some result))
    (hexec' : Exec (Served d.serve) e.controllerReconcile.run w steps' t' (some result'))
    {f f' : Reason × String} (hf : t.failure = some f) (hf' : t'.failure = some f') : f = f' := by
  obtain hidles | ⟨obj, message, hunreachable⟩ | ⟨kc, obj, hattends⟩ := w.idles_or
  · have hfirst := (wp_sound hidles.wp_pass hexec).2 _ rfl f hf
    have hsecond := (wp_sound hidles.wp_pass hexec').2 _ rfl f' hf'
    exact Option.some.inj (hfirst.symm.trans hsecond)
  · obtain ⟨_, _, hobject⟩ := (wp_sound hunreachable.wp_pass hexec).2 _ rfl
    obtain ⟨_, _, hobject'⟩ := (wp_sound hunreachable.wp_pass hexec').2 _ rfl
    rw [World.failure_failing hobject] at hf
    rw [World.failure_failing hobject'] at hf'
    exact Option.some.inj (hf.symm.trans hf')
  · obtain ⟨raised, hraises, htells⟩ := exists_told (hclients kc obj hattends) hattends hexec
    obtain ⟨raised', hraises', htells'⟩ := exists_told (hclients kc obj hattends) hattends hexec'
    rw [htells.failure] at hf
    rw [htells'.failure] at hf'
    obtain ⟨complaint, rfl, rfl⟩ := Option.map_eq_some_iff.mp hf
    obtain ⟨complaint', rfl, rfl⟩ := Option.map_eq_some_iff.mp hf'
    rw [hraises.unique hraises' fun hsplits => h ⟨kc, obj, hattends, hsplits⟩]

/-- Without an ambiguity, a retry finds its report in place. -/
theorem World.retry_quiet (h : ¬ w.Ambiguous d)
    (hclients : ∀ kc obj, w.Attends kc obj → obj.spec.ClientsNamed (w.servers kc.server))
    (hexec : Exec (Served d.serve) e.controllerReconcile.run w steps t (some result))
    (hreports : ∃ step ∈ steps, step.op.PatchesStatus) {f : Reason × String}
    (hf : t.failure = some f)
    (hexec' : Exec (Served d.serve) e.controllerReconcile.run { w with object := t.object } steps' t'
      (some result')) :
    t'.object = t.object ∧ ∀ step ∈ steps', ¬ step.op.Warns := by
  obtain hidles | ⟨obj, message, hunreachable⟩ | ⟨kc, obj, hattends⟩ := w.idles_or
  · obtain ⟨step, hstep, hpatches⟩ := hreports
    exact absurd hpatches ((wp_sound hidles.wp_pass hexec).1 step hstep)
  · obtain ⟨now, now', hobject⟩ := (wp_sound hunreachable.wp_pass hexec).2 _ rfl
    rw [hobject] at hexec' ⊢
    have hunreachable' : World.Unreachable { w with object := some (obj.failing
        .connectionUnavailable message (some "Connection unavailable") now now') } _ message :=
      ⟨rfl, hunreachable.kept, hunreachable.connection⟩
    obtain ⟨hquiet, hpost⟩ := wp_sound hunreachable'.wp_pass hexec'
    obtain ⟨later, later', hobject'⟩ := hpost _ rfl
    rw [hobject', obj.failing_failing]
    exact ⟨rfl, hquiet⟩
  · obtain ⟨raised, hraises, htells⟩ := exists_told (hclients kc obj hattends) hattends hexec
    rw [htells.failure] at hf
    obtain ⟨message, rfl, -⟩ := Option.map_eq_some_iff.mp hf
    obtain ⟨now, now', hobject⟩ := htells
    rw [hobject] at hexec' ⊢
    have hraised : ∀ raised, (w.prospect d kc obj).obstacle.Raises (fun _ _ => True) raised →
        raised = some message := by
      rintro (_ | message') hraises'
      · exact absurd rfl (hraises'.blocks_iff.mp (hraises.blocks_iff.mpr (Option.some_ne_none _)))
      · rw [hraises.unique hraises' fun hsplits => h ⟨kc, obj, hattends, hsplits⟩]
    -- the reported object has another status, and comes to the same obstacle
    generalize htold : (w.prospect d kc obj).tells obj message now now' = told at hexec' ⊢
    have hprospect : World.prospect d { w with object := some told } kc told = w.prospect d kc obj := by
      subst htold
      exact @World.prospect_again d w kc obj (some _) (Prospect.tells _ obj message now now').status
    have hagain : Ends e (Served d.serve) (fun _ _ => True) (fun op _ => ¬ op.Warns) told
        (World.prospect d { w with object := some told } kc told)
        (fun _ t => t.object = some told) := by
      rw [hprospect]
      exact ends_again (iterating_served d) htold.symm hraised
    have hattends' : World.Attends { w with object := some told } kc told ∧
        told.spec.ClientsNamed (w.servers kc.server) := by
      subst htold
      exact ⟨⟨rfl, hattends.live, hattends.finalizer, hattends.connection⟩, hclients kc obj hattends⟩
    obtain ⟨hquiet, hpost⟩ := wp_sound
      (hagain.wp_pass (iterating_served d) hattends'.2 hattends'.1) hexec'
    obtain ⟨_, -, hobject'⟩ := hpost _ rfl
    exact ⟨hobject', hquiet⟩

/-- **Failure reports.**  In a state where clients have client IDs, the reports of all passes agree
    just when no loop over a map that the pass comes to complains in two ways. -/
theorem failure_reports_agree_iff (e : Engine) (d : Denials) (w : World)
    (hclients : ∀ kc obj, w.Attends kc obj → obj.spec.ClientsNamed (w.servers kc.server)) :
    e.ReportsAgree d w ↔ ¬ w.Ambiguous d := by
  constructor
  · rintro ⟨hagree, -⟩ ⟨kc, obj, hattends, hsplits⟩
    obtain ⟨key, key', complaint, complaint', hne, hraised, hraised'⟩ := hsplits.leading
    obtain ⟨steps, t, result, hexec, hfailure⟩ :=
      exists_exec_failure e (hclients kc obj hattends) hattends hraised
    obtain ⟨steps', t', result', hexec', hfailure'⟩ :=
      exists_exec_failure e (hclients kc obj hattends) hattends hraised'
    exact hne (Prod.mk.inj (hagree _ _ _ _ _ _ _ _ hexec hexec' hfailure hfailure')).2
  · intro hunambiguous
    refine ⟨?_, ?_⟩
    · intro steps t result steps' t' result' f f' hexec hexec' hf hf'
      exact World.failure_unique hunambiguous hclients hexec hexec' hf hf'
    · intro steps t result f steps' t' result' hexec hreports hf hexec'
      exact World.retry_quiet hunambiguous hclients hexec hreports hf hexec'

end Agreement

/-- The service account may not search for clients. -/
def clientsForbidden : Denials where
  error _ method endpoint _ :=
    match method, endpoint with
    | .get, .clientsByClientId realm clientId => some ⟨.auth, "authentication failed: " ++
        "GET /admin/realms/" ++ realm ++ "/clients?clientId=" ++ clientId ++ ": Forbidden"⟩
    | _, _ => none
  roles _ _ _ _ _ _ := rfl

/-- A group with roles of these clients. -/
def appointed (clientRoles : FiniteMap String (List String)) : World :=
  .around { clientObject "portal" with
    spec := .group { staffGroup with clientRoles := some clientRoles } } staffServer

theorem appointed_clientsNamed (clientRoles : FiniteMap String (List String)) (kc : Conn)
    (obj : ManagedObject) (h : (appointed clientRoles).Attends kc obj) :
    obj.spec.ClientsNamed ((appointed clientRoles).servers kc.server) := by
  cases Option.some.inj h.object
  rintro g ⟨⟩
  change ∀ client ∈ (staffServer.resources ⟨.client, "demo"⟩).items, (client.key "clientId").isSome
  decide +kernel

/-- With two listed clients the order decides which search is reported as forbidden; with one it
    is always the same. -/
theorem forbidden_search_depends_on_order :
    ¬ (newEngine true 0).ReportsAgree clientsForbidden
        (appointed (.ofList [("portal", ["view"]), ("api", ["call"])])) ∧
    (newEngine true 0).ReportsAgree clientsForbidden (appointed (.ofList [("portal", ["view"])])) := by
  constructor
  · rw [failure_reports_agree_iff _ _ _ (appointed_clientsNamed _), not_not]
    exact ⟨_, _, ⟨rfl, rfl, by decide, rfl⟩, by decide +kernel⟩
  · rw [failure_reports_agree_iff _ _ _ (appointed_clientsNamed _)]
    rintro ⟨kc, obj, hattends, hsplits⟩
    cases Option.some.inj hattends.object
    cases Except.ok.inj hattends.connection
    revert hsplits
    decide +kernel

/-- A realm whose mail settings come from a Secret without any of the entries. -/
def unsentRealm : Spec :=
  .realm { keycloakRef := "main", realm := "demo"
           smtpServerSecretRef := some ⟨"smtp", .ofList [("password", "password"), ("user", "user")]⟩
           fields := ⟨∅, Fields.typed_empty _⟩ }

def unsentWorld : World :=
  { World.around { demoObject with spec := unsentRealm } ∅ with
    secrets := fun _ _ => some ⟨"apps", "smtp", ∅, [], 0⟩ }

/-- A pass that visits every map from the given key on: what it does, and what it leaves. -/
def World.passFrom (key : String) (w : World) : List (Step operations World) × World :=
  let handler := World.handle (fun keys => (World.sorted keys).leading key) 0
  ((newEngine true 0).controllerReconcile.run.runSteps handler w,
    ((newEngine true 0).controllerReconcile.run.run handler w).2)

theorem World.exec_passFrom (key : String) (w : World) : ∃ result,
    Exec Reliable (newEngine true 0).controllerReconcile.run w (w.passFrom key).1 (w.passFrom key).2
      (some result) :=
  ⟨_, (exec_run _ _ w).mono fun _ _ _ _ hstep => ⟨_, _, hstep⟩⟩

/-- The same state, with the custom resource as the pass that visits `password` first leaves it. -/
def unsentAgain : World :=
  { unsentWorld with object := (unsentWorld.passFrom "password").2.object }

/-- Two entries of the Secret are missing, and the order of the map decides which one is reported.
    A retry on the reported state that visits the other entry first writes the status again and
    records another warning. -/
theorem missing_entry_depends_on_order :
    ∃ steps t result steps' t' result' steps'' t'' result'',
      Exec Reliable (newEngine true 0).controllerReconcile.run unsentWorld steps t (some result) ∧
      Exec Reliable (newEngine true 0).controllerReconcile.run unsentWorld steps' t' (some result') ∧
      t.failure = some (.secretMissing, "secret apps/smtp has no key \"password\"") ∧
      t'.failure = some (.secretMissing, "secret apps/smtp has no key \"user\"") ∧
      Exec Reliable (newEngine true 0).controllerReconcile.run
        { unsentWorld with object := t.object } steps'' t'' (some result'') ∧
      t''.failure = some (.secretMissing, "secret apps/smtp has no key \"user\"") ∧
      t''.object ≠ t.object ∧ ∃ step ∈ steps'', step.op.Warns := by
  obtain ⟨result, hexec⟩ := unsentWorld.exec_passFrom "password"
  obtain ⟨result', hexec'⟩ := unsentWorld.exec_passFrom "user"
  obtain ⟨result'', hexec''⟩ := unsentAgain.exec_passFrom "user"
  have hwarns : ((unsentAgain.passFrom "user").1.any fun step => decide step.op.Warns) = true := by
    decide +kernel
  obtain ⟨step, hstep, hstep'⟩ := List.any_eq_true.mp hwarns
  exact ⟨_, _, _, _, _, _, _, _, _, hexec, hexec', by decide +kernel, by decide +kernel, hexec'',
    by decide +kernel, by decide +kernel, step, hstep, of_decide_eq_true hstep'⟩

end KeycloakOperator
