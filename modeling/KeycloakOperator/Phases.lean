import KeycloakOperator.Payload
import KeycloakOperator.View

/-!
# How far a pass gets

A pass over a live custom resource sends at most one body and records the annotation
last.  Wherever it stops, the resource and the annotation are untouched, or the body is
stored and the annotation is the old one, or the body agrees with what is stored and the
annotation records the spec (`Reached`).  Server writes other than the creation aim at
the resource under the key, and only once it was admitted (`Aimed`).
-/

namespace KeycloakOperator

open Prog

/-! ### Bodies -/

/-- The payload of an annotation, empty where there is none. -/
def AnnotationText.entries : AnnotationText → Object
  | .marshalled m => m
  | .decodes _ m => m
  | _ => ∅

theorem get_effectivePayload {specMap effective : Object} {text : AnnotationText}
    (h : effectivePayload specMap text = .ok effective) (k : String) :
    effective.get k = match specMap.get k with
      | some v => some v
      | none => (text.entries.get k).bind zeroFor := by
  rcases text with _ | m | ⟨_, m⟩ | ⟨_, complaint⟩
  · cases h
    change specMap.get k = match specMap.get k with
      | some v => some v
      | none => ((∅ : Object).get k).bind zeroFor
    rcases specMap.get k with _ | v
    · simp
    · rfl
  · rw [← Except.ok.inj h, get_resetRemoved]
    rfl
  · rw [← Except.ok.inj h, get_resetRemoved]
    rfl
  · cases h

/-- A body that a pass over the object may build. -/
def ManagedObject.Builds (obj : ManagedObject) (payload : Object) : Prop :=
  ∃ effective inj, effectivePayload obj.spec.representation obj.lastApplied = .ok effective ∧
    inj.For obj.spec ∧ payload = builtPayload obj.spec.kind inj effective

/-- A field that nothing rewrites holds the spec's value, or the reset one. -/
theorem ManagedObject.Builds.get {obj : ManagedObject} {payload : Object} (h : obj.Builds payload)
    {k : String} (hk : ¬ obj.spec.Rewrites k) :
    payload.get k = match obj.spec.representation.get k with
      | some v => some v
      | none => (obj.lastApplied.entries.get k).bind zeroFor := by
  obtain ⟨effective, inj, heffective, hinj, rfl⟩ := h
  rw [builtPayload, get_applyAll_of_notMem fun hmem => hk ((mem_rewrites_iff hinj k).mp hmem),
    get_effectivePayload heffective]

theorem get_putSome (m : Object) (k k' : String) (v : Option JSON) :
    (putSome m k v).get k' = if k' = k then v.or (m.get k') else m.get k' := by
  rcases v with _ | v
  · simp [putSome]
  · simp [putSome, FiniteMap.get_put]

theorem get_foldl_erase (fields : List String) (m : Object) (k : String) :
    (fields.foldl (fun m field => m.erase field) m).get k =
      if k ∈ fields then none else m.get k := by
  induction fields generalizing m with
  | nil => simp
  | cons field fields ih =>
    rw [List.foldl_cons, ih, FiniteMap.get_erase]
    by_cases hk : k = field <;> by_cases hmem : k ∈ fields <;> simp [hk, hmem]

theorem get_representation (s : Spec) (k : String) :
    s.representation.get k =
      if k ∈ s.driver.operatorFields then none else s.toJSONMap.get k :=
  get_foldl_erase _ _ _

/-- The representation names the resource. -/
theorem representation_key (s : Spec) :
    s.representation.get s.place.kind.keyField = some (.str s.naturalKey) := by
  rw [get_representation]
  rcases s with s | s | s | s | s | s
  all_goals
    simp [Spec.driver, RealmSpec.driver, ClientSpec.driver, ClientScopeSpec.driver,
      RealmRoleSpec.driver, IdentityProviderSpec.driver, GroupSpec.driver, Spec.toJSONMap,
      Spec.headerEntries, get_putSome, FiniteMap.get_put, Spec.place, Spec.kind, Kind.keyField,
      Spec.naturalKey]

theorem keyField_not_rewritten (s : Spec) : ¬ s.Rewrites s.place.kind.keyField := by
  rcases s with s | s | s | s | s | s <;>
    simp [Spec.Rewrites, Spec.place, Spec.kind, Kind.keyField, Spec.injectedField]

theorem ManagedObject.Builds.key {obj : ManagedObject} {payload : Object} (h : obj.Builds payload) :
    payload.get obj.spec.place.kind.keyField = some (.str obj.spec.naturalKey) := by
  rw [h.get (keyField_not_rewritten _), representation_key]

theorem ManagedObject.Builds.stringField_key {obj : ManagedObject} {payload : Object}
    (h : obj.Builds payload) :
    stringField payload obj.spec.place.kind.keyField = some obj.spec.naturalKey := by
  unfold stringField
  rw [h.key]
  rfl

/-- Whatever the Secret holds, the preparation makes one of the injections that the spec can lead
    to. -/
theorem yields_prepared (obj : ManagedObject) (p : Object) :
    Yields (fun prepared => ∀ payload, prepared = .ok payload →
        ∃ inj : Injection, inj.For obj.spec ∧ payload = applyAll inj.rewrite.toList p)
      (obj.spec.driver.preparePayload obj p).run := by
  have hkeep : KeptByReads anyAnswer fun _ => True := fun _ _ _ _ _ _ _ => trivial
  refine yields_of_wp (wp_mono ?_ (wp_preparePayload hkeep trivial obj.spec obj p))
  rintro prepared _ ⟨-, hprepared⟩ payload rfl
  obtain ⟨secret, hserved, hpayload, -⟩ := hprepared.exists_secret
  exact ⟨_, ⟨secret, hserved, rfl⟩, hpayload⟩

/-- The body of a creation is one that the pass may build. -/
theorem yields_preparePayload {obj : ManagedObject} {effective : Object}
    (heffective : effectivePayload obj.spec.representation obj.lastApplied = .ok effective) :
    Yields (fun prepared => ∀ payload, prepared = .ok payload →
        obj.Builds (obj.spec.driver.managedMarker payload))
      (obj.spec.driver.preparePayload obj effective).run := by
  refine yields_mono (fun prepared h payload hpayload => ?_) (yields_prepared obj effective)
  obtain ⟨inj, hinj, rfl⟩ := h payload hpayload
  exact ⟨effective, inj, heffective, hinj, managedMarker_inject hinj effective⟩

/-- An update is stamped before the Secret is read. -/
theorem yields_preparePayload_stamped {obj : ManagedObject} {effective : Object}
    (heffective : effectivePayload obj.spec.representation obj.lastApplied = .ok effective) :
    Yields (fun prepared => ∀ payload, prepared = .ok payload → obj.Builds payload)
      (obj.spec.driver.preparePayload obj (obj.spec.driver.managedMarker effective)).run := by
  refine yields_mono (fun prepared h payload hpayload => ?_) (yields_prepared obj _)
  obtain ⟨inj, hinj, rfl⟩ := h payload hpayload
  exact ⟨effective, inj, heffective, hinj, builtPayload_eq _ _ _⟩

/-! ### The operations of a live pass -/

namespace Engine

section Live

variable {allowed : Op → Prop} (e : Engine) (hreads : ∀ op, Op.Reads op → allowed op)
  (hsecrets : ∀ op, Op.WritesSecret op → allowed op)
  (hreports : ∀ op, Op.Remarks op → allowed op) {kc : Conn} {obj : ManagedObject}
  (hpatch : ∀ status text,
    allowed (.patchObject obj { obj with status := status, lastApplied := text }))

include hreads hsecrets hreports hpatch

/-- The bodies of a live pass are ones that it may build. -/
theorem only_apply
    (hcreate : ∀ payload, obj.Builds payload →
      allowed (.admin kc ⟨.post, obj.spec.collectionEndpoint, .object payload, .nothing⟩))
    (hupdate : ∀ id remote payload, obj.Builds payload → allowed (.admin kc
      ⟨.put, obj.spec.itemEndpoint id, .object (mergePayload remote payload), .nothing⟩))
    (henforces : ∀ id op, Enforces obj.spec kc id op → allowed op) :
    Only allowed (e.apply obj.spec.driver kc obj) := by
  have hwp : ∀ {α : Type} {p : Action α}, Only allowed p →
      wp anyAnswer (fun op _ => allowed op) p (fun _ _ => True) () := fun h =>
    wp_guard_mono (fun _ _ hop => hop.1)
      (wp_of_only (fun _ => True) (fun _ _ _ _ _ _ _ => trivial) h trivial)
  have hstops : ∀ {p : Action Pass}, e.Stops obj p →
      wp anyAnswer (fun op _ => allowed op) p (fun _ _ => True) () := fun h => hwp (h.only hreports)
  have hstations : Stations e anyAnswer (fun op _ => allowed op) kc obj (fun _ => True)
      (fun _ => True) (fun _ _ => True) (fun _ _ _ => True) (fun _ _ => True) := by
    constructor
    case declined => exact fun _ _ => hstops (.refused _ _ _ _)
    case looked =>
      refine fun _ _ => wp_mono ?_ (hwp (only_get hreads _ _))
      rintro (err | remote) _ -
      · exact ⟨fun _ => trivial, fun _ => hstops (.retried _ _)⟩
      · trivial
    case rejected => exact fun _ _ _ => hstops (.refused _ _ _ _)
    case adopted => exact fun _ => hwp (only_record e hreports _ _ _)
    case enforced =>
      intro effective remote adopting _ _ heffective _ _ _
      refine wp_mono ?_ (wp_yields (yields_preparePayload_stamped heffective)
        (hwp (only_preparePayload hreads _ _ _)))
      rintro (err | payload) _ ⟨hbuilds, -⟩
      · exact hstops (.refused _ _ _ _)
      refine ⟨fun _ => trivial, fun _ => ?_⟩
      have honly : Only allowed (e.correctDrift obj.spec.driver kc obj remote payload).run := by
        refine only_run_bind (only_run_lift ⟨hreports _ trivial, fun _ => trivial⟩) fun _ => ?_
        refine only_run_bind ?_ fun _ => only_run_lift (only_record e hreports _ _ _)
        rw [driver_update]
        exact only_send (hupdate _ remote payload (hbuilds payload rfl))
      refine wp_mono ?_ (hwp honly)
      rintro (err | _) _ -
      · exact hstops (.notUpdated e obj err)
      · trivial
    case created =>
      intro effective _ _ heffective _
      refine wp_mono ?_ (wp_yields (yields_preparePayload heffective)
        (hwp (only_preparePayload hreads _ _ _)))
      rintro (err | payload) _ ⟨hbuilds, -⟩
      · exact hstops (.refused _ _ _ _)
      dsimp only
      rw [driver_create]
      refine wp_mono ?_ (hwp (only_send (hcreate _ (hbuilds payload rfl))))
      rintro (err | _) _ -
      · exact hstops (.notCreated e obj err)
      refine wp_mono (fun _ _ _ => ?_) (hwp (only_record e hreports _ _ _))
      refine wp_mono ?_ (hwp (only_get hreads _ _))
      rintro (err | remote) _ -
      · exact hstops (.unfetched _)
      · trivial
    case settled =>
      intro remote next _ hnext _
      refine hwp (only_settle e hreports obj
        (only_postApply hreads hsecrets (henforces _) obj) fun status changed => ?_)
      exact hnext.only hreports { obj with status := status } hpatch changed
  exact only_of_wp (hstations.wp_apply trivial)

end Live

end Engine

/-! ### Phases -/

/-- The policy lets the pass work on the resource. -/
def ManagedObject.Admits (obj : ManagedObject) (r : Resource) : Prop :=
  obj.spec.adoption ≠ .failIfExists ∧
    (Engine.managed obj.spec.driver obj r.report ∨ obj.spec.adoption = .adopt)

/-- The server accepted the body: the resource before and after. -/
inductive Accepted (label : String) (payload : Object) : Option Resource → Resource → Prop where
  | created (id : String) (hid : id ≠ "") :
      Accepted label payload none ⟨id, payload.erase "id", some label⟩
  | updated (r : Resource) :
      Accepted label payload (some r) (r.overlay (mergePayload r.report payload))

/-- A body of the pass that is stored, or agrees with what was stored before. -/
structure Stored (label : String) (obj : ManagedObject) (before : Option Resource) (r : Resource) :
    Prop where
  admits : ∀ r, before = some r → obj.Admits r
  stored : ∃ payload, obj.Builds payload ∧
    (Accepted label payload before r ∨ (before = some r ∧ payloadDiffers r.report payload = false))

/-- The resource and the annotation at some point of a pass over `obj`. -/
inductive Reached (label : String) (obj : ManagedObject) (before : Option Resource) :
    Option Resource → AnnotationText → Prop where
  | untouched : Reached label obj before before obj.lastApplied
  | written {r : Resource} (h : Stored label obj before r) :
      Reached label obj before (some r) obj.lastApplied
  | settled {r : Resource} (h : Stored label obj before r) :
      Reached label obj before (some r) (.marshalled obj.spec.representation)

/-- The view at some point of a pass over `obj` that began at `v`. -/
def Reaches (kc : Conn) (obj : ManagedObject) (v v' : View) : Prop :=
  v'.connections = v.connections ∧
    ∃ text, v'.object = some { obj.core with lastApplied := text } ∧
      Reached kc.label obj v.resource v'.resource text

/-- The view at the end of a successful pass. -/
def Settles (kc : Conn) (obj : ManagedObject) (v v' : View) : Prop :=
  v'.connections = v.connections ∧
    v'.object = some { obj.core with lastApplied := .marshalled obj.spec.representation } ∧
    ∃ r, v'.resource = some r ∧ Stored kc.label obj v.resource r

theorem Settles.reaches {kc : Conn} {obj : ManagedObject} {v v' : View} (h : Settles kc obj v v') :
    Reaches kc obj v v' := by
  obtain ⟨hconnections, hobject, r, hresource, hstored⟩ := h
  exact ⟨hconnections, _, hobject, hresource ▸ .settled hstored⟩

/-- The writes of a pass over `obj` to the server are the creation, and writes to the
    admitted resource under the key. -/
def Aimed (kc : Conn) (obj : ManagedObject) (before : Option Resource) (v : View) : Op → Prop
  | .admin kc' request =>
      request.method = .get ∨ (kc' = kc ∧
        ((request.method = .post ∧ request.endpoint = obj.spec.collectionEndpoint) ∨
          ((∀ r, before = some r → obj.Admits r) ∧ ∃ r, v.resource = some r ∧
            (request.endpoint = obj.spec.itemEndpoint r.id ∨
              obj.spec.Owns r.id request.endpoint))))
  | _ => True

/-- The guard of a pass that began at `v`. -/
def PassGuard (kc : Conn) (obj : ManagedObject) (v : View) (op : Op) (w : World) : Prop :=
  Aimed kc obj v.resource (w.view kc obj.spec) op ∧ Reaches kc obj v (w.view kc obj.spec)

/-- What a pass that began at `v` returns. -/
def PassPost (kc : Conn) (obj : ManagedObject) (v : View) (pass : Pass) (w : World) : Prop :=
  Reaches kc obj v (w.view kc obj.spec) ∧
    (pass.finalized = true → Settles kc obj v (w.view kc obj.spec))

/-- Operations that write nothing to the server and not the custom resource either. -/
def Op.Silent (op : Op) : Prop := op.Reads ∨ op.WritesSecret ∨ op.Reports

theorem Op.Silent.quiet {op : Op} (h : op.Silent) : op.Quiet := by
  rcases op <;> rcases h with h | h | h <;> first | exact trivial | exact h.elim | exact .inl h

theorem Op.Silent.aimed {op : Op} (h : op.Silent) (kc : Conn) (obj : ManagedObject)
    (before : Option Resource) (v : View) : Aimed kc obj before v op := by
  rcases op <;> rcases h with h | h | h <;> first | exact trivial | exact h.elim | exact .inl h

section Pass

variable {kc : Conn} {obj : ManagedObject} {v : View} {w : World} {e : Engine}

/-- A silent program stays where the pass is. -/
theorem wp_silent {p : Action α} (h : Only Op.Silent p)
    (hreaches : Reaches kc obj v (w.view kc obj.spec)) :
    wp Faulty (PassGuard kc obj v) p (fun _ t => t.view kc obj.spec = w.view kc obj.spec) w := by
  have hwp : wp Faulty (fun op t => Op.Silent op ∧ t.view kc obj.spec = w.view kc obj.spec) p
      (fun _ t => t.view kc obj.spec = w.view kc obj.spec) w :=
    wp_of_only (fun t : World => t.view kc obj.spec = w.view kc obj.spec)
      (fun _ _ _ _ hsilent hview hstep =>
        (faulty_quiet hsilent.quiet hstep kc obj.spec).trans hview) h rfl
  refine wp_guard_mono (fun op t hguard => ?_) hwp
  exact ⟨hguard.1.aimed _ _ _ _, hguard.2 ▸ hreaches⟩

/-- A silent end of a pass that is not a success. -/
theorem wp_unfinished {p : Action Pass} (h : Only Op.Silent p)
    (hyields : Yields (fun pass => pass.finalized = false) p)
    (hreaches : Reaches kc obj v (w.view kc obj.spec)) :
    wp Faulty (PassGuard kc obj v) p (PassPost kc obj v) w := by
  refine wp_mono (fun pass t hpost => ?_) (wp_yields hyields (wp_silent h hreaches))
  obtain ⟨hfinalized, hview⟩ := hpost
  refine ⟨hview ▸ hreaches, fun hfinal => ?_⟩
  rw [hfinalized] at hfinal
  cases hfinal

/-! ### The ends of a pass -/

theorem silent_reports (op : Op) (h : op.Reports) : op.Silent := .inr (.inr h)

theorem silent_remarks (op : Op) (h : op.Remarks) : op.Silent := silent_reports op h.reports

theorem silent_reads (op : Op) (h : op.Reads) : op.Silent := .inl h

theorem wp_stops {p : Action Pass} (h : e.Stops obj p)
    (hreaches : Reaches kc obj v (w.view kc obj.spec)) :
    wp Faulty (PassGuard kc obj v) p (PassPost kc obj v) w :=
  wp_unfinished (h.only silent_remarks) h.unfinished hreaches

theorem wp_succeed (hsettles : Settles kc obj v (w.view kc obj.spec)) (mem base : ManagedObject)
    (synced : Bool) :
    wp Faulty (PassGuard kc obj v) (e.succeed mem base synced) (PassPost kc obj v) w := by
  refine wp_mono (fun pass t hview => ?_)
    (wp_silent (e.only_succeed silent_remarks _ _ _) hsettles.reaches)
  exact ⟨hview ▸ hsettles.reaches, fun _ => hview ▸ hsettles⟩

/-- The body is stored and the annotation is still the old one. -/
structure Halfway (kc : Conn) (obj : ManagedObject) (v v' : View) : Prop where
  connections : v'.connections = v.connections
  object : v'.object = some obj.core
  stored : ∃ r, v'.resource = some r ∧ Stored kc.label obj v.resource r

theorem Halfway.reaches {v' : View} (h : Halfway kc obj v v') : Reaches kc obj v v' := by
  obtain ⟨r, hresource, hstored⟩ := h.stored
  exact ⟨h.connections, obj.lastApplied, h.object, hresource ▸ .written hstored⟩

theorem Halfway.settles {v' : View} (h : Halfway kc obj v v') :
    Settles kc obj v (v'.record (.marshalled obj.spec.representation)) :=
  ⟨h.connections, by simp [View.record, h.object], h.stored⟩

theorem wp_finalize (hhalfway : Halfway kc obj v (w.view kc obj.spec)) {mem : ManagedObject}
    (hmem : mem.lastApplied = obj.lastApplied) (synced : Bool) :
    wp Faulty (PassGuard kc obj v) (e.finalize mem obj obj.spec.representation synced)
      (PassPost kc obj v) w := by
  refine Engine.wp_finalize_of (fun hsame => ?_) fun hne =>
    ⟨⟨trivial, hhalfway.reaches⟩, fun answer w' hstep => ?_⟩
  · -- the annotation records the spec already
    refine wp_succeed ⟨hhalfway.connections, ?_, hhalfway.stored⟩ _ _ _
    rw [← hsame, hmem]
    exact hhalfway.object
  rcases faulty_patchObject (by rw [← hmem]; exact hne) hstep kc obj.spec with
    ⟨hsame, err, rfl⟩ | hrecorded
  · exact ⟨hsame ▸ hhalfway.reaches, fun h => by cases h⟩
  · have hsettles : Settles kc obj v (w'.view kc obj.spec) := hrecorded ▸ hhalfway.settles
    rcases answer with err | stored
    · exact ⟨hsettles.reaches, fun _ => hsettles⟩
    · exact wp_succeed hsettles _ _ _

/-! ### After the body is stored -/

theorem Spec.quiet_of_owns {s : Spec} {id : String} {endpoint : Endpoint} (h : s.Owns id endpoint) :
    endpoint.item = none ∧ endpoint.collection = none := by
  rcases endpoint <;> first | exact ⟨rfl, rfl⟩ | exact h.elim

theorem Enforces.quiet {s : Spec} {id : String} {op : Op} (h : Enforces s kc id op) : op.Quiet := by
  obtain ⟨method, endpoint, body, rfl, howns⟩ := h
  exact .inr (Spec.quiet_of_owns howns)

theorem wp_settle (hhalfway : Halfway kc obj v (w.view kc obj.spec)) {remote : Object}
    (hremote : ∀ r, w.target kc obj.spec = some r → remoteId remote = r.id)
    {next : ManagedObject → Bool → Action Pass} (hnext : e.Concludes obj next) :
    wp Faulty (PassGuard kc obj v) (e.settle obj.spec.driver kc obj obj remote next)
      (PassPost kc obj v) w := by
  obtain ⟨r, hresource, hstored⟩ := hhalfway.stored
  have hid : remoteId remote = r.id := hremote r hresource
  have honly : Only (fun op : Op => op.Silent ∨ Enforces obj.spec kc (remoteId remote) op)
      (obj.spec.driver.postApply kc obj remote) :=
    only_postApply (fun _ h => .inl (.inl h)) (fun _ h => .inl (.inr (.inl h)))
      (fun _ h => .inr h) obj
  have hwp := wp_of_only (fun t : World => t.view kc obj.spec = w.view kc obj.spec)
    (fun op t answer t' hop hview (hstep : Faulty op t answer t') =>
      (faulty_quiet (hop.elim Op.Silent.quiet Enforces.quiet) hstep kc obj.spec).trans hview)
    honly rfl
  refine Engine.wp_settle_of (wp_mono ?_
    (wp_guard_mono ?_ (wp_yields (yields_postApply obj.spec kc obj remote) hwp)))
  · rintro ⟨mem, applied⟩ t ⟨⟨status, hmem⟩, hview⟩
    have hhalfway' : Halfway kc obj v (t.view kc obj.spec) := hview ▸ hhalfway
    rcases applied with err | changed
    · exact wp_stops (.refused _ _ _ _) hhalfway'.reaches
    have hmem : mem.lastApplied = obj.lastApplied := by rw [show mem = _ from hmem]
    refine hnext.wp (fun _ => wp_finalize hhalfway' hmem _) fun _ => wp_mono (fun _ u hu => ?_)
      (wp_silent (p := perform (.driftCorrected _)) ⟨silent_reports _ trivial, fun _ => trivial⟩
        hhalfway'.reaches)
    exact wp_finalize (hu ▸ hhalfway') hmem _
  · rintro op t ⟨hop | ⟨method, endpoint, body, rfl, howns⟩, hview⟩
    · exact ⟨hop.aimed _ _ _ _, hview ▸ hhalfway.reaches⟩
    · refine ⟨.inr ⟨rfl, .inr ⟨hstored.admits, r, hview ▸ hresource, .inr ?_⟩⟩,
        hview ▸ hhalfway.reaches⟩
      exact hid ▸ howns

/-! ### Existing resources -/

theorem faulty_readsSecrets {op : Op} {t t' : World} {answer : op.Answer} (hop : ReadsSecrets op)
    (h : Faulty op t answer t') : t' = t := by
  refine faulty_elim h rfl fun _ hstep => ?_
  obtain ⟨order, now, rfl⟩ := reliable_state hstep
  rcases op <;> first | exact hop.elim | rfl

/-- The injection that the spec asks for, from the Secret that the world holds. -/
def World.Sources (w : World) (obj : ManagedObject) (inj : Injection) : Prop :=
  ∃ secret, obj.spec.Served secret ∧ inj = obj.spec.injection secret ∧
    ∀ name, obj.spec.secretName = some name →
      (w.secrets obj.ns name).map Secret.data = some secret.data

theorem World.Sources.for {w : World} {obj : ManagedObject} {inj : Injection}
    (h : w.Sources obj inj) : inj.For obj.spec := by
  obtain ⟨secret, hserved, heq, -⟩ := h
  exact ⟨secret, hserved, heq⟩

/-- `PreparePayload` reads the Secret, rewrites the payload and changes nothing. -/
theorem wp_prepared {env : Env operations World} {guard : Op → World → Prop}
    (hfaulty : ∀ {op : Op} {t t' : World} {answer : op.Answer}, ReadsSecrets op →
      env op t answer t' → Faulty op t answer t')
    (p : Object) {post : Except Err Object → World → Prop}
    (hguard : ∀ op, ReadsSecrets op → guard op w)
    (herr : ∀ err name answer t, obj.spec.secretName = some name →
      env (.getSecret obj.ns name) w answer t →
      (∀ secret, answer = .ok secret → ¬ obj.spec.Served secret) → post (.error err) w)
    (hok : ∀ inj, w.Sources obj inj → post (.ok (applyAll inj.rewrite.toList p)) w) :
    wp env guard (obj.spec.driver.preparePayload obj p).run post w := by
  have hkeep : KeptByReads env fun t => t = w := fun op t answer t' hop ht hstep =>
    (faulty_readsSecrets hop (hfaulty hop hstep)).trans ht
  refine wp_mono ?_ (wp_guard_mono ?_ (wp_preparePayload hkeep rfl obj.spec obj p))
  · rintro (err | payload) t ⟨rfl, hprepared⟩
    · obtain ⟨name, answer, u, u', hname, rfl, hstep, hunserved⟩ := hprepared.exists_answer
      exact herr err name answer u' hname hstep hunserved
    · obtain ⟨secret, hserved, rfl, hobtained⟩ := hprepared.exists_secret
      refine hok _ ⟨secret, hserved, rfl, fun name hname => ?_⟩
      obtain ⟨u, u', rfl, hstep⟩ := hobtained name hname
      rcases hfaulty (by trivial) hstep with ⟨order, now, heq⟩ | ⟨⟨err, herr⟩, -⟩
      · have hanswer : u.getSecret obj.ns name = .ok secret := congrArg Prod.fst heq
        unfold World.getSecret at hanswer
        split at hanswer
        case h_1 found hfound =>
          cases hanswer
          simp [hfound]
        case h_2 => cases hanswer
      · cases herr
  · rintro op t ⟨hop, rfl⟩
    exact hguard op hop

theorem wp_prepare (hreaches : Reaches kc obj v (w.view kc obj.spec)) (p : Object)
    {post : Except Err Object → World → Prop} (herr : ∀ err, post (.error err) w)
    (hok : ∀ inj : Injection, inj.For obj.spec →
      post (.ok (applyAll inj.rewrite.toList p)) w) :
    wp Faulty (PassGuard kc obj v) (obj.spec.driver.preparePayload obj p).run post w := by
  refine wp_prepared (fun _ hstep => hstep) p (fun op hop => ?_) (fun err _ _ _ _ _ _ => herr err)
    fun inj hinj => hok inj hinj.for
  have hsilent : op.Silent := by
    rcases op <;> first | exact hop.elim | exact .inl trivial
  exact ⟨hsilent.aimed _ _ _ _, hreaches⟩

theorem itemEndpoint_id (s : Spec) (r : Resource) :
    s.itemEndpoint (s.driver.id r.report) = s.itemEndpoint r.id := by
  rcases s with s | s | s | s | s | s
  · rfl
  · exact congrArg _ r.remoteId_report
  · exact congrArg _ r.remoteId_report
  · rfl
  · rfl
  · exact congrArg _ r.remoteId_report

/-- The update keeps the natural key. -/
theorem ManagedObject.Builds.key_overlay {payload : Object} (h : obj.Builds payload) (r : Resource) :
    (r.overlay (mergePayload r.report payload)).key obj.spec.place.kind.keyField =
      some obj.spec.naturalKey := by
  unfold Resource.key stringField
  rw [r.get_overlay _ (Kind.keyField_ne_id _), get_mergePayload, h.key]
  rfl

/-- The update of an admitted resource. -/
theorem wp_correctDrift {r : Resource} {payload : Object} (hview : w.view kc obj.spec = v)
    (hobject : v.object = some obj.core) (hresource : v.resource = some r) (hadmits : obj.Admits r)
    (hbuilds : obj.Builds payload) :
    wp Faulty (PassGuard kc obj v)
      (e.correctDrift obj.spec.driver kc obj r.report payload).run
      (fun updated t => Reaches kc obj v (t.view kc obj.spec) ∧
        (updated = .ok () → Halfway kc obj v (t.view kc obj.spec) ∧
          ∀ r', t.target kc obj.spec = some r' → r'.id = r.id)) w := by
  have hadmitted : ∀ r', v.resource = some r' → obj.Admits r' := by
    intro r' hr'
    rw [hresource] at hr'
    exact Option.some.inj hr' ▸ hadmits
  have hstart : Reaches kc obj v v := ⟨rfl, obj.lastApplied, hobject, .untouched⟩
  refine wp_run_bind.mpr (wp_run_lift.mpr ?_)
  refine wp_mono (fun _ t (ht : t.view kc obj.spec = w.view kc obj.spec) => ?_)
    (wp_silent (p := perform (.driftCorrected obj.spec.kind))
      ⟨silent_reports _ trivial, fun _ => trivial⟩ (hview ▸ hstart))
  rw [hview] at ht
  rw [driver_update, itemEndpoint_id]
  refine wp_run_bind.mpr ⟨⟨.inr ⟨rfl, .inr ⟨hadmitted, r, ht ▸ hresource, .inl rfl⟩⟩,
    ht ▸ hstart⟩, fun answer t' hstep => ?_⟩
  have htarget : t.target kc obj.spec = some r := (congrArg View.resource ht).trans hresource
  rcases faulty_put htarget (hbuilds.key_overlay r) hstep with ⟨hsame, err, rfl⟩ | hput
  · exact ⟨hsame ▸ ht ▸ hstart, fun h => by cases h⟩
  rw [ht] at hput
  have hhalfway : Halfway kc obj v (t'.view kc obj.spec) := by
    rw [hput]
    exact ⟨rfl, hobject, _, rfl, hadmitted, payload, hbuilds, .inl (hresource ▸ .updated r)⟩
  rcases answer with err | _
  · exact ⟨hhalfway.reaches, fun h => by cases h⟩
  · refine wp_run_lift.mpr (wp_mono (fun _ u hu => ?_)
      (wp_silent (e.only_record silent_remarks _ _ _) hhalfway.reaches))
    refine ⟨hu ▸ hhalfway.reaches, fun _ => ⟨hu ▸ hhalfway, fun r' hr' => ?_⟩⟩
    have hresource' : (u.view kc obj.spec).resource = some r' := hr'
    rw [hu, hput] at hresource'
    exact Option.some.inj hresource' ▸ rfl

/-! ### The pass -/

/-- The stations of a pass that began at the view `v`. -/
theorem stations_faulty (hobject : v.object = some obj.core) :
    Stations e Faulty (PassGuard kc obj v) kc obj (fun t => t.view kc obj.spec = v)
      (fun t => t.view kc obj.spec = v)
      (fun remote t => t.view kc obj.spec = v ∧ ∃ r, v.resource = some r ∧ remote = r.report)
      (fun remote _ t => Halfway kc obj v (t.view kc obj.spec) ∧
        ∀ r, t.target kc obj.spec = some r → remoteId remote = r.id)
      (PassPost kc obj v) := by
  have hreaches : ∀ {t : World}, t.view kc obj.spec = v → Reaches kc obj v (t.view kc obj.spec) :=
    fun ht => by
      rw [ht]
      exact ⟨rfl, obj.lastApplied, hobject, .untouched⟩
  constructor
  case declined => exact fun _ ht => wp_stops (.refused _ _ _ _) (hreaches ht)
  case looked =>
    intro t _ ht
    have hmissing : ∀ err : Err, (err.kind = .notFound → t.view kc obj.spec = v) ∧
        (err.kind ≠ .notFound → wp Faulty (PassGuard kc obj v)
          (Engine.retry obj obj err "Server unreachable") (PassPost kc obj v) t) := fun err =>
      ⟨fun _ => ht, fun _ => wp_stops (e := e) (.retried _ _) (hreaches ht)⟩
    refine wp_get reading_faulty.answering obj.spec ?_ (fun err _ => hmissing err)
      (fun _ err _ => hmissing err) fun r hr _ => ⟨ht, r, ht ▸ hr, rfl⟩
    exact fun op hop => ⟨(silent_reads op hop).aimed _ _ _ _, hreaches ht⟩
  case rejected => exact fun _ _ ht => wp_stops (.refused _ _ _ _) (hreaches ht.1)
  case adopted =>
    intro remote t ht
    exact wp_mono (fun _ u hu => ⟨hu.trans ht.1, ht.2⟩)
      (wp_silent (e.only_record silent_remarks _ _ _) (hreaches ht.1))
  case enforced =>
    rintro effective remote adopting t - heffective hadmits - ⟨ht, r, hresource, rfl⟩
    refine wp_prepare (hreaches ht) _ (fun err => ?_) fun inj hinj => ?_
    · exact wp_stops (.refused _ _ _ _) (hreaches ht)
    rw [builtPayload_eq]
    have hbuilds : obj.Builds (builtPayload obj.spec.kind inj effective) :=
      ⟨effective, inj, heffective, hinj, rfl⟩
    refine ⟨fun hagrees => ⟨?_, fun r' hr' => ?_⟩, fun _ => ?_⟩
    · rw [ht]
      refine ⟨rfl, hobject, r, hresource, fun r' hr' => ?_, _, hbuilds,
        .inr ⟨hresource, (Bool.or_eq_false_iff.mp hagrees).2⟩⟩
      cases hresource.symm.trans hr'
      exact hadmits
    · cases hresource.symm.trans ((congrArg View.resource ht).symm.trans hr')
      exact r.remoteId_report
    · refine wp_mono ?_ (wp_correctDrift ht hobject hresource hadmits hbuilds)
      rintro (err | _) u ⟨hu, hdone⟩
      · exact wp_stops (.notUpdated e obj err) hu
      · obtain ⟨hhalfway, hid⟩ := hdone rfl
        exact ⟨hhalfway, fun r' hr' => r.remoteId_report.trans (hid r' hr').symm⟩
  case created =>
    intro effective t _ heffective ht
    refine wp_prepare (hreaches ht) _ (fun err => ?_) fun inj hinj => ?_
    · exact wp_stops (.refused _ _ _ _) (hreaches ht)
    dsimp only
    rw [managedMarker_inject hinj, driver_create]
    have hbuilds : obj.Builds (builtPayload obj.spec.kind inj effective) :=
      ⟨effective, inj, heffective, hinj, rfl⟩
    refine ⟨⟨.inr ⟨rfl, .inl ⟨rfl, rfl⟩⟩, hreaches ht⟩, fun answer u hstep => ?_⟩
    rcases faulty_post hbuilds.stringField_key hstep with ⟨hsame, err, rfl⟩ |
      ⟨habsent, id, hid, hstored⟩
    · exact wp_stops (.notCreated e obj err) (hsame ▸ hreaches ht)
    have habsent' : v.resource = none := ht ▸ habsent
    rw [ht] at hstored
    have hhalfway : Halfway kc obj v (u.view kc obj.spec) := by
      rw [hstored]
      refine ⟨rfl, hobject, _, rfl, ?_, _, hbuilds, .inl (habsent' ▸ .created id hid)⟩
      intro r hr
      rw [habsent'] at hr
      cases hr
    rcases answer with err | _
    · exact wp_stops (.notCreated e obj err) hhalfway.reaches
    change wp Faulty (PassGuard kc obj v) (e.record _ _ _) _ _
    refine wp_mono (fun _ x hx => ?_)
      (wp_silent (e.only_record silent_remarks _ _ _) hhalfway.reaches)
    have hhalfway : Halfway kc obj v (x.view kc obj.spec) := hx ▸ hhalfway
    refine wp_get reading_faulty.answering obj.spec ?_
      (fun err _ => wp_stops (e := e) (.unfetched err) hhalfway.reaches)
      (fun _ err _ => wp_stops (e := e) (.unfetched err) hhalfway.reaches) fun r hr _ => ?_
    · exact fun op hop => ⟨(silent_reads op hop).aimed _ _ _ _, hhalfway.reaches⟩
    · refine ⟨hhalfway, fun r' hr' => ?_⟩
      rw [hr] at hr'
      exact Option.some.inj hr' ▸ r.remoteId_report
  case settled => exact fun hnext ht => wp_settle ht.1 ht.2 hnext

theorem faulty_connect {ns name : String} {t t' : World} {answer : Except String Conn}
    (h : Faulty (.connect ns name) t answer t') :
    t' = t ∧ (answer = t.connections ns name ∨ ∃ err, answer = .error err) := by
  rcases h with ⟨_, _, heq⟩ | ⟨hfailure, rfl | ⟨lost, _, _, heq⟩⟩
  · exact ⟨(congrArg Prod.snd heq).symm, .inl (congrArg Prod.fst heq).symm⟩
  · exact ⟨rfl, .inr hfailure⟩
  · exact ⟨(congrArg Prod.snd heq).symm, .inr hfailure⟩

/-- **A pass over a live resource**, under any failures. -/
theorem wp_reconcile (hobject : w.object = some obj) (hlive : obj.deletionTimestamp = none)
    (hconnection : w.connections obj.ns obj.spec.connectionName = .ok kc) :
    wp Faulty (PassGuard kc obj (w.view kc obj.spec)) (e.reconcile obj)
      (PassPost kc obj (w.view kc obj.spec)) w := by
  have hcore : (w.view kc obj.spec).object = some obj.core := by simp [World.view, hobject]
  have hreaches : Reaches kc obj (w.view kc obj.spec) (w.view kc obj.spec) :=
    ⟨rfl, obj.lastApplied, hcore, .untouched⟩
  refine Engine.wp_reconcile_of (PassPost kc obj (w.view kc obj.spec))
    (fun pass t hpost => wp_mono (fun _ u hu => ?_)
      (wp_silent (p := perform (.reconciled _ _)) ⟨silent_reports _ trivial, fun _ => trivial⟩
        hpost.1))
    (fun horphan => by simp [hlive] at horphan) fun _ =>
      ⟨⟨trivial, hreaches⟩, fun answer t hstep => ?_⟩
  · exact ⟨hu ▸ hpost.1, fun h => hu ▸ hpost.2 h⟩
  obtain ⟨rfl, hanswer⟩ := faulty_connect hstep
  rcases answer with message | kc'
  · exact wp_stops (e := e) (.unavailable message) hreaches
  obtain rfl : kc' = kc := by
    rcases hanswer with h | ⟨err, h⟩
    · rw [hconnection] at h
      exact Except.ok.inj h
    · cases h
  refine ⟨fun hdeleted => by simp [hlive] at hdeleted, fun _ _ => ?_, fun _ _ =>
    (stations_faulty hcore).wp_apply rfl⟩
  refine ⟨⟨trivial, hreaches⟩, fun answer t' hstep => ?_⟩
  have hsame := faulty_updateObject hobject hlive (by rfl) (by rfl) hstep kc' obj.spec
  rcases answer with err | stored <;> exact ⟨hsame ▸ hreaches, fun h => by cases h⟩

/-- Without a connection a live pass reports and stops. -/
theorem wp_reconcile_unconnected (hlive : obj.deletionTimestamp = none)
    (hconnection : ∀ kc, w.connections obj.ns obj.spec.connectionName ≠ .ok kc) (kc : Conn)
    (s : Spec) :
    wp Faulty (fun op t => op.Silent ∧ t.view kc s = w.view kc s) (e.reconcile obj)
      (fun pass t => pass.finalized = false ∧ t.view kc s = w.view kc s) w := by
  have hsilent : ∀ {α : Type} {p : Action α} {t : World}, Only Op.Silent p →
      t.view kc s = w.view kc s →
      wp Faulty (fun op t => op.Silent ∧ t.view kc s = w.view kc s) p
        (fun _ t => t.view kc s = w.view kc s) t := fun honly ht =>
    wp_of_only (fun t : World => t.view kc s = w.view kc s)
      (fun _ _ _ _ hop hview hstep => (faulty_quiet hop.quiet hstep kc s).trans hview) honly ht
  refine Engine.wp_reconcile_of
    (fun pass t => pass.finalized = false ∧ t.view kc s = w.view kc s)
    (fun pass t ht => wp_mono (fun _ u hu => ⟨ht.1, hu⟩)
      (hsilent (p := perform (.reconciled _ _)) ⟨silent_reports _ trivial, fun _ => trivial⟩ ht.2))
    (fun horphan => by simp [hlive] at horphan) fun _ =>
      ⟨⟨silent_reports _ trivial, rfl⟩, fun answer t hstep => ?_⟩
  obtain ⟨rfl, hanswer⟩ := faulty_connect hstep
  rcases answer with message | kc'
  · have hstops : e.Stops obj (Engine.unavailable obj message) := .unavailable message
    exact wp_yields hstops.unfinished (hsilent (hstops.only silent_remarks) rfl)
  · rcases hanswer with h | ⟨err, h⟩
    · exact absurd h.symm (hconnection kc')
    · cases h

end Pass

theorem faulty_getObject {t t' : World} {answer : Except KubeErr ManagedObject}
    (h : Faulty .getObject t answer t') :
    t' = t ∧ ((∃ err, answer = .error err) ∨ ∃ obj, t.object = some obj ∧ answer = .ok obj) := by
  have hreliable : ∀ answer, Reliable .getObject t answer t' →
      t' = t ∧ ((∃ err, answer = .error err) ∨ ∃ obj, t.object = some obj ∧ answer = .ok obj) := by
    rintro answer ⟨order, now, heq⟩
    simp only [World.handle] at heq
    split at heq
    case h_1 obj hobject =>
      exact ⟨(congrArg Prod.snd heq).symm, .inr ⟨obj, hobject, (congrArg Prod.fst heq).symm⟩⟩
    case h_2 => exact ⟨(congrArg Prod.snd heq).symm, .inl ⟨_, (congrArg Prod.fst heq).symm⟩⟩
  rcases h with h | ⟨hfailure, rfl | ⟨lost, hlost⟩⟩
  · exact hreliable _ h
  · exact ⟨rfl, .inl hfailure⟩
  · exact ⟨(hreliable _ hlost).1, .inl hfailure⟩

theorem faulty_getObject_ok {t t' : World} {obj : ManagedObject}
    (h : Faulty .getObject t (.ok obj) t') : t' = t ∧ t.object = some obj := by
  obtain ⟨hstate, ⟨err, herr⟩ | ⟨stored, hstored, heq⟩⟩ := faulty_getObject h
  · cases herr
  · exact ⟨hstate, Except.ok.inj heq ▸ hstored⟩

theorem wp_controllerReconcile {e : Engine} {env : Env operations World}
    {guard : Op → World → Prop} {w : World} {post : Except Err (Option Pass) → World → Prop}
    (henv : ∀ answer t, env .getObject w answer t → Faulty .getObject w answer t)
    (hguard : guard .getObject w)
    (hstopped : ∀ result, (∀ pass, result ≠ .ok (some pass)) → post result w)
    (h : ∀ obj, w.object = some obj →
      wp env guard (e.reconcile obj) (fun pass t => post (.ok (some pass)) t) w) :
    wp env guard e.controllerReconcile.run post w := by
  refine e.wp_controllerReconcile_of hguard (fun err t hstep result hnone => ?_) fun obj t hstep => ?_
  · rw [(faulty_getObject (henv _ _ hstep)).1]
    exact hstopped result hnone
  · obtain ⟨rfl, hobject⟩ := faulty_getObject_ok (henv _ _ hstep)
    exact h obj hobject

theorem wp_pass {e : Engine} {env : Env operations World} {guard : Op → World → Prop} {w : World}
    {obj : ManagedObject} {post : Except Err (Option Pass) → World → Prop}
    (henv : ∀ answer t, env .getObject w answer t → Faulty .getObject w answer t)
    (hobject : w.object = some obj) (hguard : guard .getObject w)
    (hstopped : ∀ result, (∀ pass, result ≠ .ok (some pass)) → post result w)
    (h : wp env guard (e.reconcile obj) (fun pass t => post (.ok (some pass)) t) w) :
    wp env guard e.controllerReconcile.run post w := by
  apply wp_controllerReconcile henv hguard hstopped
  intro obj' hobject'
  cases hobject.symm.trans hobject'
  exact h

end KeycloakOperator
