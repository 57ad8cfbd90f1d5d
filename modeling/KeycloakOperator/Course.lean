import KeycloakOperator.Completion

/-!
# The course of a pass

When calls succeed, the state before a pass over a live custom resource determines how far it
gets: whether it is refused, which body it sends and with what effect.  Only the order of map
iteration is open.  `Course` collects what has to be shown about the stations of a pass;
`Course.wp_apply` then says it of the whole pass.  Outages are allowed where they do not matter.
-/

namespace KeycloakOperator

open Prog

/-- Calls have the effect and the answer that the API servers give them, or meet an outage where
    `outage` allows it. -/
def Orderly (env : Env operations World) (outage : Prop) : Prop :=
  ∀ {op : Op} {w w' : World} {answer : op.Answer}, env op w answer w' →
    Reliable op w answer w' ∨ (outage ∧ Flaky op w answer w' ∧ Outage op answer)

/-- An operation that does not leave the cluster. -/
def Op.Local : Op → Prop
  | .admin _ _ => False
  | _ => True

/-- The same of the calls that stay in the cluster; the servers may do what they like. -/
def Prompt (env : Env operations World) (outage : Prop) : Prop :=
  ∀ {op : Op} {w w' : World} {answer : op.Answer}, op.Local → env op w answer w' →
    Reliable op w answer w' ∨ (outage ∧ Flaky op w answer w' ∧ Outage op answer)

theorem Orderly.prompt {env : Env operations World} {outage : Prop} (h : Orderly env outage) :
    Prompt env outage := fun _ hstep => h hstep

theorem Prompt.faulty {env : Env operations World} {outage : Prop} (h : Prompt env outage) {op : Op}
    {w w' : World} {answer : op.Answer} (hop : op.Local) (hstep : env op w answer w') :
    Faulty op w answer w' := by
  rcases h hop hstep with hreliable | ⟨-, hflaky, -⟩
  · exact .inl hreliable
  · exact faulty_of_flaky _ _ _ _ hflaky

theorem orderly_reliable : Orderly Reliable False := fun h => .inl h

theorem orderly_flaky : Orderly Flaky True := by
  intro op w w' answer h
  rcases h with hreliable | ⟨houtage, heffect⟩
  · exact .inl hreliable
  · exact .inr ⟨trivial, .inr ⟨houtage, heffect⟩, houtage⟩

/-! ### The Secret of a spec -/

/-- No payload can be prepared: the Secret or one of its entries is missing. -/
def World.Withholds (w : World) (obj : ManagedObject) : Prop := ∀ inj, ¬ w.Sources obj inj

theorem Spec.served_congr (s : Spec) {secret secret' : Secret} (h : secret.data = secret'.data) :
    s.Served secret ↔ s.Served secret' := by
  rcases s with s | s | s | s | s | s <;> simp only [Served, h]

theorem Spec.injection_congr (s : Spec) {secret secret' : Secret} (h : secret.data = secret'.data) :
    s.injection secret = s.injection secret' := by
  rcases s with s | s | s | s | s | s <;> simp only [injection, SecretKeysSelector.selected, h]

theorem World.sources_nothing {w : World} {obj : ManagedObject} (h : obj.spec.secretName = none) :
    w.Sources obj .nothing := by
  obtain ⟨secret, hserved⟩ := exists_served obj.spec
  refine ⟨secret, hserved, (injection_of_secretName_none h secret).symm, fun name hname => ?_⟩
  cases h.symm.trans hname

theorem World.Sources.unique {w : World} {obj : ManagedObject} {inj inj' : Injection}
    (h : w.Sources obj inj) (h' : w.Sources obj inj') : inj = inj' := by
  obtain ⟨secret, -, rfl, hdata⟩ := h
  obtain ⟨secret', -, rfl, hdata'⟩ := h'
  rcases hname : obj.spec.secretName with _ | name
  · rw [injection_of_secretName_none hname, injection_of_secretName_none hname]
  · exact obj.spec.injection_congr
      (Option.some.inj ((hdata name hname).symm.trans (hdata' name hname)))

/-- The state of the Secrets determines the body of a pass. -/
theorem World.Builds.unique {w : World} {obj : ManagedObject} {payload payload' : Object}
    (h : w.Builds obj payload) (h' : w.Builds obj payload') : payload = payload' := by
  obtain ⟨effective, inj, heffective, hsources, rfl⟩ := h
  obtain ⟨effective', inj', heffective', hsources', rfl⟩ := h'
  obtain rfl := Except.ok.inj (heffective.symm.trans heffective')
  rw [hsources.unique hsources']

theorem World.Builds.not_withholds {w : World} {obj : ManagedObject} {payload : Object}
    (h : w.Builds obj payload) : ¬ w.Withholds obj := by
  obtain ⟨effective, inj, -, hsources, -⟩ := h
  exact fun hwithholds => hwithholds inj hsources

section Secrets

variable {env : Env operations World} {outage : Prop} {w : World} {obj : ManagedObject}

theorem Orderly.faulty (h : Orderly env outage) {op : Op} {w w' : World} {answer : op.Answer}
    (hstep : env op w answer w') : Faulty op w answer w' := by
  rcases h hstep with hreliable | ⟨-, hflaky, -⟩
  · exact .inl hreliable
  · exact faulty_of_flaky _ _ _ _ hflaky

/-- The payload preparation: what it returns and why it fails. -/
theorem Orderly.wp_prepare (h : Orderly env outage) (p : Object) {guard : Op → World → Prop}
    {post : Except Err Object → World → Prop} (hguard : ∀ op, op.Reads → guard op w)
    (hout : outage → ∀ err, post (.error err) w)
    (herr : w.Withholds obj → ∀ err, post (.error err) w)
    (hok : ∀ inj, w.Sources obj inj → post (.ok (applyAll inj.rewrite.toList p)) w) :
    wp env guard (obj.spec.driver.preparePayload obj p).run post w := by
  refine wp_prepared (fun _ hstep => h.faulty hstep) p (fun op hop => hguard op ?_) ?_ hok
  · rcases op <;> first | exact hop.elim | exact trivial
  intro err name answer t hname hstep hunserved
  rcases h hstep with ⟨order, now, heq⟩ | ⟨houtage, -⟩
  · refine herr (fun inj hinj => ?_) err
    obtain ⟨secret, hserved, -, hdata⟩ := hinj
    have hstored := hdata name hname
    have hanswer : w.getSecret obj.ns name = answer := congrArg Prod.fst heq
    unfold World.getSecret at hanswer
    split at hanswer
    case h_1 found hfound =>
      rw [hfound] at hstored
      exact hunserved _ hanswer.symm ((obj.spec.served_congr (Option.some.inj hstored)).mpr hserved)
    case h_2 hnone =>
      rw [hnone] at hstored
      cases hstored
  · exact hout houtage err

end Secrets

/-! ### Calls of the Admin API -/

/-- The errors of an outage. -/
def Err.Unrelated (err : Err) : Prop := err.kind ≠ .notFound ∧ err.kind ≠ .conflict

section Admin

variable {env : Env operations World} {outage : Prop} {w t : World} {kc : Conn} {s : Spec}

theorem Orderly.answering (h : Orderly env outage) :
    Answering env fun err => outage ∧ err.Unrelated := by
  constructor
  intro kc request w w' answer hmethod hstep
  have hstate := (faulty_get hmethod (h.faulty hstep)).1
  rcases h hstep with hreliable | ⟨hout, -, err, herr, hkind⟩
  · exact ⟨hstate, .inr (reliable_get hmethod hreliable).2⟩
  · exact ⟨hstate, .inl ⟨err, ⟨hout, hkind⟩, herr⟩⟩

/-- A POST is accepted under a free key and a conflict under a taken one. -/
theorem Orderly.post (h : Orderly env outage) {body : Object} {answer : Except Err Unit}
    (hbody : stringField body s.place.kind.keyField = some s.naturalKey)
    (hstep : env (.admin kc ⟨.post, s.collectionEndpoint, .object body, .nothing⟩) w answer t) :
    (answer = .ok () ∧ w.target kc s = none ∧
      ∃ id, id ≠ "" ∧ t.target kc s = some ⟨id, body.erase "id", some kc.label⟩) ∨
    (answer = .error ⟨.conflict, "resource conflict"⟩ ∧ (∃ r, w.target kc s = some r) ∧ t = w) ∨
    (outage ∧ ∃ err : Err, err.Unrelated ∧ answer = .error err) := by
  rcases h hstep with hreliable | ⟨hout, -, err, herr, hkind⟩
  · obtain ⟨hanswer, hstate⟩ := reliable_admin hreliable
    rw [admin_post] at hanswer hstate
    rcases @Server.find_create (w.servers kc.server) _ _ _ kc.label hbody (Kind.keyField_ne_id _) with
      hconflict | ⟨hdone, habsent, id, hid, hfind⟩
    · right; left
      rw [hconflict] at hanswer hstate
      refine ⟨hanswer, ?_, by rw [hstate, World.setServer_self]⟩
      rcases htarget : w.target kc s with _ | r
      · have hdone := Server.create_done kc.label hbody (Kind.keyField_ne_id _) htarget
        rw [hconflict] at hdone
        cases hdone
      · exact ⟨r, rfl⟩
    · left
      rw [hdone] at hanswer
      refine ⟨hanswer, habsent, id, hid, ?_⟩
      rw [hstate, World.target, World.servers_setServer, hfind]
  · exact .inr (.inr ⟨hout, err, hkind, herr⟩)

/-- A PUT that keeps the key is accepted. -/
theorem Orderly.put (h : Orderly env outage) {body : Object} {r : Resource}
    {answer : Except Err Unit} (htarget : w.target kc s = some r)
    (hkey : (r.overlay body).key s.place.kind.keyField = some s.naturalKey)
    (hstep : env (.admin kc ⟨.put, s.itemEndpoint r.id, .object body, .nothing⟩) w answer t) :
    (answer = .ok () ∧ t.target kc s = some (r.overlay body)) ∨
    (outage ∧ ∃ err : Err, err.Unrelated ∧ answer = .error err) := by
  rcases h hstep with hreliable | ⟨hout, -, err, herr, hkind⟩
  · have hnames : (s.itemAddress r.id).names s.place.kind.keyField r :=
      names_itemAddress (of_decide_eq_true (Collection.find_eq_some_iff.mp htarget).2)
    have hanswer := (reliable_admin hreliable).1
    rw [admin_put, Server.put_done htarget hnames hkey] at hanswer
    rcases faulty_put htarget hkey (.inl hreliable) with ⟨-, err, herr⟩ | hview
    · cases herr.symm.trans hanswer
    · exact .inl ⟨hanswer, congrArg View.resource hview⟩
  · exact .inr ⟨hout, err, hkind, herr⟩

end Admin

/-! ### Where a pass may end early -/

/-- `Get` reports the resource as missing. -/
def World.Misses (w : World) (kc : Conn) (s : Spec) : Prop :=
  ∀ r, w.target kc s = some r → s.kind = .group ∧ r.id = ""

/-- `Get` finds the resource. -/
def World.Finds (w : World) (kc : Conn) (s : Spec) (r : Resource) : Prop :=
  w.target kc s = some r ∧ (s.kind = .group → r.id ≠ "")

theorem World.Finds.not_misses {w : World} {kc : Conn} {s : Spec} {r : Resource}
    (h : w.Finds kc s r) : ¬ w.Misses kc s := fun hmisses =>
  h.2 (hmisses r h.1).1 (hmisses r h.1).2

theorem World.Finds.unique {w : World} {kc : Conn} {s : Spec} {r r' : Resource}
    (h : w.Finds kc s r) (h' : w.Finds kc s r') : r = r' :=
  Option.some.inj (h.1.symm.trans h'.1)

/-- A refusal before any Secret is read. -/
inductive World.Refuses (w : World) (kc : Conn) (obj : ManagedObject) : Reason → String → Prop where
  | shielded {message : String} (h : obj.spec.driver.protected? obj = some message) :
      Refuses w kc obj .protectedRealm message
  | malformed {complaint : String} (hopen : obj.spec.driver.protected? obj = none)
      (h : effectivePayload obj.spec.representation obj.lastApplied = .error complaint) :
      Refuses w kc obj .failed complaint
  | existing (hready : obj.Ready) {r : Resource} (hfound : w.Finds kc obj.spec r)
      (h : obj.spec.adoption = .failIfExists) :
      Refuses w kc obj .alreadyExists
        "adoptionPolicy is FailIfExists and the resource exists on the server"
  | foreign (hready : obj.Ready) {r : Resource} (hfound : w.Finds kc obj.spec r)
      (hpolicy : obj.spec.adoption ≠ .failIfExists) (h : ¬ obj.Admits r) :
      Refuses w kc obj .alreadyExists
        "A foreign resource with the same key exists; set adoptionPolicy: Adopt to take it over"

theorem ManagedObject.Declines.refuses {obj : ManagedObject} {reason : Reason} {message : String}
    (h : obj.Declines reason message) (w : World) (kc : Conn) : w.Refuses kc obj reason message := by
  cases h with
  | shielded h => exact .shielded h
  | malformed hopen h => exact .malformed hopen h

theorem ManagedObject.Rejects.refuses {obj : ManagedObject} {message : String} {w : World}
    {kc : Conn} {r : Resource} (h : obj.Rejects r.report message) (hready : obj.Ready)
    (hfound : w.Finds kc obj.spec r) : w.Refuses kc obj .alreadyExists message := by
  cases h with
  | existing h => exact .existing hready hfound h
  | foreign hpolicy h => exact .foreign hready hfound hpolicy h

/-- The pass sends an update of the resource. -/
def ManagedObject.Updates (obj : ManagedObject) (r : Resource) (payload : Object) : Prop :=
  Engine.managed obj.spec.driver obj r.report = false ∨ payloadDiffers r.report payload = true

/-- The requests that create and update the resource. -/
abbrev Spec.creation (s : Spec) (kc : Conn) (body : Object) : Op :=
  .admin kc ⟨.post, s.collectionEndpoint, .object body, .nothing⟩

abbrev Spec.revision (s : Spec) (kc : Conn) (id : String) (body : Object) : Op :=
  .admin kc ⟨.put, s.itemEndpoint id, .object body, .nothing⟩

/-- What has to be shown about the stations of a pass over `obj` that begins at `w`. -/
structure Course (e : Engine) (env : Env operations World) (outage : Prop)
    (guard : Op → World → Prop) (kc : Conn) (obj : ManagedObject) (w : World)
    (post : Pass → World → Prop) : Prop where
  reads : ∀ op t, op.Reads → guard op t
  notes : ∀ op t, op.Notes → ¬ op.Warns → guard op t
  /-- an outage is reported, and brings the pass back -/
  interrupted : ∀ {p t}, outage → e.Stops obj p → Yields Pass.Returning p → wp env guard p post t
  refused : ∀ {reason message requeueAfter}, w.Refuses kc obj reason message →
    wp env guard (e.refuse obj obj reason message requeueAfter) post w
  withheld : ∀ {message}, w.Withholds obj →
    wp env guard (e.refuse obj obj .secretMissing message secretRetry) post w
  submits : ∀ {payload}, obj.spec.driver.protected? obj = none → w.Builds obj payload →
    w.Misses kc obj.spec → guard (obj.spec.creation kc payload) w
  /-- the resource that `Get` reported as missing is there -/
  conflicted : ∀ {payload r}, obj.spec.driver.protected? obj = none → w.Builds obj payload →
    w.Misses kc obj.spec → w.target kc obj.spec = some r →
    env (obj.spec.creation kc payload) w (.error ⟨.conflict, "resource conflict"⟩) w →
    wp env guard (e.refuse obj obj .alreadyExists
      "Resource appeared during reconciliation: resource conflict" 0) post w
  created : ∀ {payload id t}, obj.spec.driver.protected? obj = none → w.Builds obj payload →
    w.target kc obj.spec = none → env (obj.spec.creation kc payload) w (.ok ()) t → id ≠ "" →
    t.target kc obj.spec = some ⟨id, payload.erase "id", some kc.label⟩ →
    wp env guard (e.settle obj.spec.driver kc obj obj
      (Resource.report ⟨id, payload.erase "id", some kc.label⟩) (e.afterCreate obj)) post t
  revises : ∀ {payload r}, obj.spec.driver.protected? obj = none → w.Builds obj payload →
    w.Finds kc obj.spec r → obj.Admits r → obj.Updates r payload →
    guard (obj.spec.revision kc r.id (mergePayload r.report payload)) w
  updated : ∀ {payload r t}, obj.spec.driver.protected? obj = none → w.Builds obj payload →
    w.Finds kc obj.spec r → obj.Admits r → obj.Updates r payload →
    env (obj.spec.revision kc r.id (mergePayload r.report payload)) w (.ok ()) t →
    t.target kc obj.spec = some (r.overlay (mergePayload r.report payload)) →
    wp env guard (e.settle obj.spec.driver kc obj obj r.report (e.afterEnforce obj true)) post t
  agreed : ∀ {payload r}, obj.spec.driver.protected? obj = none → w.Builds obj payload →
    w.Finds kc obj.spec r → obj.Admits r → ¬ obj.Updates r payload →
    wp env guard (e.settle obj.spec.driver kc obj obj r.report (e.afterEnforce obj false)) post w

namespace Course

variable {e : Engine} {env : Env operations World} {outage : Prop} {guard : Op → World → Prop}
  {kc : Conn} {obj : ManagedObject} {w : World} {post : Pass → World → Prop}

theorem wp_record (h : Course e env outage guard kc obj w post) (horderly : Orderly env outage)
    {reason message : String} {t : World} :
    wp env guard (e.record .normal reason message) (fun _ u => u = t) t :=
  wp_record_event horderly.faulty (h.notes _ _ (by trivial) (fun hwarns => hwarns))

/-- The update of an admitted resource. -/
theorem wp_correctDrift (h : Course e env outage guard kc obj w post) (horderly : Orderly env outage)
    {payload : Object} {r : Resource} {done : Except Err Unit → World → Prop}
    (hopen : obj.spec.driver.protected? obj = none) (hbuilds : w.Builds obj payload)
    (hfinds : w.Finds kc obj.spec r) (hadmits : obj.Admits r) (hupdates : obj.Updates r payload)
    (hout : outage → ∀ err t, err.Unrelated → done (.error err) t)
    (hdone : ∀ t, env (obj.spec.revision kc r.id (mergePayload r.report payload)) w (.ok ()) t →
      t.target kc obj.spec = some (r.overlay (mergePayload r.report payload)) → done (.ok ()) t) :
    wp env guard (e.correctDrift obj.spec.driver kc obj r.report payload).run done w := by
  refine wp_run_bind.mpr (wp_run_lift.mpr
    ⟨h.notes _ _ (by trivial) (fun hwarns => hwarns), fun _ t hstep => ?_⟩)
  obtain rfl : t = w := faulty_notes (by trivial) (horderly.faulty hstep)
  rw [driver_update, itemEndpoint_id]
  refine wp_run_bind.mpr
    ⟨h.revises hopen hbuilds hfinds hadmits hupdates, fun answer u hput => ?_⟩
  rcases horderly.put hfinds.1 (hbuilds.builds.key_overlay r) hput with
    ⟨rfl, htarget⟩ | ⟨houtage, err, hunrelated, rfl⟩
  · refine wp_run_lift.mpr (wp_mono (fun _ v hv => ?_) (h.wp_record horderly))
    subst hv
    exact hdone v hput htarget
  · exact hout houtage err u hunrelated

/-- The stations of a pass that begins at `w`. -/
theorem stations (h : Course e env outage guard kc obj w post) (horderly : Orderly env outage) :
    Stations e env guard kc obj (fun t => t = w) (fun t => t = w ∧ t.Misses kc obj.spec)
      (fun remote t => t = w ∧ ∃ r, t.Finds kc obj.spec r ∧ remote = r.report)
      (fun remote next t => wp env guard (e.settle obj.spec.driver kc obj obj remote next) post t)
      post := by
  constructor
  case declined =>
    rintro reason message t hdeclines rfl
    exact h.refused (hdeclines.refuses t kc)
  case looked =>
    rintro t - rfl
    refine wp_get horderly.answering obj.spec (fun op => h.reads op t) ?_ ?_ ?_
    · rintro err ⟨houtage, hunrelated⟩
      exact ⟨fun hkind => absurd hkind hunrelated.1, fun _ =>
        h.interrupted houtage (.retried _ _) (returning_retry _ _ _ _)⟩
    · exact fun hmisses err hkind => ⟨fun _ => ⟨rfl, hmisses⟩, fun hne => absurd hkind hne⟩
    · exact fun r hr hid => ⟨rfl, r, ⟨hr, hid⟩, rfl⟩
  case rejected =>
    rintro remote message t hready hrejects ⟨rfl, r, hfinds, rfl⟩
    exact h.refused (hrejects.refuses hready hfinds)
  case adopted =>
    rintro remote t ⟨rfl, hremote⟩
    refine wp_mono (fun _ u hu => ?_) (h.wp_record horderly)
    subst hu
    exact ⟨rfl, hremote⟩
  case enforced =>
    rintro effective remote adopting t hopen heffective hadmits hadopting ⟨rfl, r, hfinds, rfl⟩
    refine horderly.wp_prepare _ (fun op => h.reads op t) ?_ ?_ ?_
    · exact fun houtage err => h.interrupted houtage (.refused _ _ _ _)
        (returning_refuse _ _ _ _ (by decide))
    · exact fun hwithheld err => h.withheld hwithheld
    intro inj hinj
    rw [builtPayload_eq]
    have hbuilds : t.Builds obj (builtPayload obj.spec.kind inj effective) :=
      ⟨effective, inj, heffective, hinj, rfl⟩
    refine ⟨fun hagrees => ?_, fun hchanges => ?_⟩
    · refine h.agreed hopen hbuilds hfinds hadmits fun hupdates => ?_
      obtain ⟨hkept, hsame⟩ := Bool.or_eq_false_iff.mp hagrees
      rcases hupdates with hforeign | hdiffers
      · rw [hadopting, hkept] at hforeign
        cases hforeign
      · cases hsame.symm.trans hdiffers
    · have hupdates : obj.Updates r (builtPayload obj.spec.kind inj effective) := by
        rcases Bool.or_eq_true_iff.mp hchanges with hadopts | hdiffers
        · exact .inl (by rw [hadopting, hadopts]; rfl)
        · exact .inr hdiffers
      refine h.wp_correctDrift horderly hopen hbuilds hfinds hadmits hupdates ?_ ?_
      · exact fun houtage err t hunrelated => h.interrupted houtage (.notUpdated e obj err)
          (returning_notUpdated hunrelated.2)
      · exact fun t hput htarget => h.updated hopen hbuilds hfinds hadmits hupdates hput htarget
  case created =>
    rintro effective t hopen heffective ⟨rfl, hmisses⟩
    refine horderly.wp_prepare _ (fun op => h.reads op t) ?_ ?_ ?_
    · exact fun houtage err => h.interrupted houtage (.refused _ _ _ _)
        (returning_refuse _ _ _ _ (by decide))
    · exact fun hwithheld err => h.withheld hwithheld
    intro inj hinj
    dsimp only
    rw [managedMarker_inject hinj.for, driver_create]
    have hbuilds : t.Builds obj (builtPayload obj.spec.kind inj effective) :=
      ⟨effective, inj, heffective, hinj, rfl⟩
    refine ⟨h.submits hopen hbuilds hmisses, fun answer u hpost => ?_⟩
    rcases horderly.post hbuilds.builds.stringField_key hpost with
      ⟨rfl, habsent, id, hid, htarget⟩ | ⟨rfl, ⟨r, hr⟩, rfl⟩ | ⟨houtage, err, hunrelated, rfl⟩
    · change wp env guard (e.record _ _ _) _ _
      refine wp_mono (fun _ x hx => ?_) (h.wp_record horderly)
      subst hx
      refine wp_get horderly.answering obj.spec (fun op => h.reads op x) ?_ ?_ ?_
      · exact fun err herr => h.interrupted herr.1 (.unfetched err) (returning_unfetched _ _)
      · exact fun hmissing => absurd (hmissing _ htarget).2 hid
      · intro r hr _
        cases htarget.symm.trans hr
        exact h.created hopen hbuilds habsent hpost hid htarget
    · exact h.conflicted hopen hbuilds hmisses hr hpost
    · exact h.interrupted houtage (.notCreated e obj err) (returning_notCreated hunrelated.2)
  case settled => exact fun _ ht => ht

/-- **The pass from the lookup of the resource on.** -/
theorem wp_apply (h : Course e env outage guard kc obj w post) (horderly : Orderly env outage) :
    wp env guard (e.apply obj.spec.driver kc obj) post w :=
  (h.stations horderly).wp_apply rfl

end Course

/-! ### The pass -/

section Pass

variable {e : Engine} {env : Env operations World} {outage : Prop} {guard : Op → World → Prop}
  {obj : ManagedObject} {w : World} {post : Pass → World → Prop}

/-- **A pass**, by how far the deletion, the connection and the finalizer let it come. -/
theorem Prompt.wp_reconcile (hprompt : Prompt env outage)
    (hconnect : guard (.connect obj.ns obj.spec.connectionName) w)
    (hreconciled : ∀ kind outcome t, guard (.reconciled kind outcome) t)
    (horphaned : obj.deletionTimestamp.isSome ∧ obj.spec.deletion = .orphan →
      wp env guard (Engine.updateObject (Engine.removeFinalizer obj) 0) post w)
    (hunavailable : ∀ message, ¬ (obj.deletionTimestamp.isSome ∧ obj.spec.deletion = .orphan) →
      (outage ∨ w.connections obj.ns obj.spec.connectionName = .error message) →
      wp env guard (Engine.unavailable obj message) post w)
    (hdeleted : ∀ kc, w.connections obj.ns obj.spec.connectionName = .ok kc →
      obj.deletionTimestamp.isSome → wp env guard (e.handleDeletion obj.spec.driver kc obj) post w)
    (hnew : ∀ kc, w.connections obj.ns obj.spec.connectionName = .ok kc →
      finalizerName ∉ obj.finalizers → wp env guard (Engine.updateObject
      { obj with finalizers := obj.finalizers ++ [finalizerName] } second) post w)
    (hengaged : ∀ kc, w.connections obj.ns obj.spec.connectionName = .ok kc →
      obj.deletionTimestamp = none → finalizerName ∈ obj.finalizers →
      wp env guard (e.apply obj.spec.driver kc obj) post w) :
    wp env guard (e.reconcile obj) post w := by
  refine Engine.wp_reconcile_of post (fun pass t hpost => ⟨hreconciled _ _ t, fun _ u hstep => ?_⟩)
    horphaned fun hkept => ⟨hconnect, fun answer t hstep => ?_⟩
  · have hsame : u = t := by
      rcases hprompt (by trivial) hstep with ⟨_, _, heq⟩ | ⟨-, -, hfailure⟩
      · exact (congrArg Prod.snd heq).symm
      · exact hfailure.elim
    rw [hsame]
    exact hpost
  obtain rfl : t = w := (faulty_connect (hprompt.faulty (by trivial) hstep)).1
  have hanswer : answer = t.connections obj.ns obj.spec.connectionName ∨
      (outage ∧ ∃ err, answer = .error err) := by
    rcases hprompt (by trivial) hstep with ⟨_, _, heq⟩ | ⟨hout, -, hfailure⟩
    · exact .inl (congrArg Prod.fst heq).symm
    · exact .inr ⟨hout, hfailure⟩
  rcases answer with message | kc
  · refine hunavailable message hkept ?_
    rcases hanswer with heq | ⟨hout, -⟩
    · exact .inr heq.symm
    · exact .inl hout
  · have hconnection : t.connections obj.ns obj.spec.connectionName = .ok kc := by
      rcases hanswer with heq | ⟨-, err, heq⟩
      · exact heq.symm
      · cases heq
    exact ⟨hdeleted kc hconnection, fun _ => hnew kc hconnection, hengaged kc hconnection⟩

/-- Only an outage keeps a pass from its custom resource. -/
theorem Prompt.wp_pass {post : Except Err (Option Pass) → World → Prop}
    (hprompt : Prompt env outage) (hobject : w.object = some obj) (hguard : guard .getObject w)
    (hstopped : outage → ∀ result, (∀ pass, result ≠ .ok (some pass)) → post result w)
    (h : wp env guard (e.reconcile obj) (fun pass t => post (.ok (some pass)) t) w) :
    wp env guard e.controllerReconcile.run post w := by
  refine e.wp_controllerReconcile_of hguard (fun err t hstep => ?_) fun read t hstep => ?_
  · obtain ⟨rfl, -⟩ := faulty_getObject (hprompt.faulty (by trivial) hstep)
    rcases hprompt (by trivial) hstep with ⟨_, _, heq⟩ | ⟨houtage, -⟩
    · simp only [World.handle, hobject] at heq
      cases congrArg Prod.fst heq
    · exact hstopped houtage
  · obtain ⟨rfl, hread⟩ := faulty_getObject_ok (hprompt.faulty (by trivial) hstep)
    cases hread.symm.trans hobject
    exact h

/-- The custom resource and its connection let a pass work on the resource. -/
structure World.Engages (w : World) (kc : Conn) (obj : ManagedObject) : Prop where
  object : w.object = some obj
  live : obj.deletionTimestamp = none
  finalizer : finalizerName ∈ obj.finalizers
  connection : w.connections obj.ns obj.spec.connectionName = .ok kc
  admitted : obj.spec.driver.protected? obj = none

/-- A pass looks for the resource of the object. -/
structure World.Attends (w : World) (kc : Conn) (obj : ManagedObject) : Prop where
  object : w.object = some obj
  live : obj.deletionTimestamp = none
  finalizer : finalizerName ∈ obj.finalizers
  connection : w.connections obj.ns obj.spec.connectionName = .ok kc

theorem World.Engages.attends {kc : Conn} (h : w.Engages kc obj) : w.Attends kc obj :=
  ⟨h.object, h.live, h.finalizer, h.connection⟩

/-- **A pass over a live custom resource**, without outages in the cluster. -/
theorem Prompt.wp_attended {kc : Conn} (hprompt : Prompt env False) (hattends : w.Attends kc obj)
    (hgets : guard .getObject w) (hconnect : guard (.connect obj.ns obj.spec.connectionName) w)
    (hreconciled : ∀ kind outcome t, guard (.reconciled kind outcome) t)
    (h : wp env guard (e.apply obj.spec.driver kc obj) post w) :
    wp env guard e.controllerReconcile.run
      (fun result t => ∃ pass, result = .ok (some pass) ∧ post pass t) w := by
  refine Prompt.wp_pass hprompt hattends.object hgets (fun houtage => houtage.elim)
    (wp_mono (fun pass t hpost => ⟨pass, rfl, hpost⟩) ?_)
  refine Prompt.wp_reconcile hprompt hconnect hreconciled ?_ ?_ ?_ ?_ ?_
  · rintro ⟨hdeleted, -⟩
    rw [hattends.live] at hdeleted
    cases hdeleted
  · rintro message - (houtage | hunavailable)
    · exact houtage.elim
    · cases hattends.connection.symm.trans hunavailable
  · intro kc' _ hdeleted
    rw [hattends.live] at hdeleted
    cases hdeleted
  · exact fun _ _ hmissing => absurd hattends.finalizer hmissing
  · intro kc' hconnection _ _
    cases hattends.connection.symm.trans hconnection
    exact h

theorem Course.wp_pass {kc : Conn} (h : Course e env False guard kc obj w post)
    (horderly : Orderly env False) (hattends : w.Attends kc obj) (hgets : guard .getObject w)
    (hconnect : guard (.connect obj.ns obj.spec.connectionName) w)
    (hreconciled : ∀ kind outcome t, guard (.reconciled kind outcome) t) :
    wp env guard e.controllerReconcile.run
      (fun result t => ∃ pass, result = .ok (some pass) ∧ post pass t) w :=
  Prompt.wp_attended horderly.prompt hattends hgets hconnect hreconciled (h.wp_apply horderly)

end Pass

end KeycloakOperator
