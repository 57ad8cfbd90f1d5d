import KeycloakOperator.Phases

/-!
# What a successful pass has done

A pass that ends in `finalize` has built its body from the Secret that the spec refers to,
has created or updated the resource or found that it agrees, has been through `PostApply`
and has recorded the annotation, in this order (`Completes`).  The server may report its
resources in another form than it stores them (`shows`): it may mask secrets.
-/

namespace KeycloakOperator

open Prog

/-! ### Bodies from Secrets -/

/-- The body that a pass over the object builds in this world. -/
def World.Builds (w : World) (obj : ManagedObject) (payload : Object) : Prop :=
  ∃ effective inj, effectivePayload obj.spec.representation obj.lastApplied = .ok effective ∧
    w.Sources obj inj ∧ payload = builtPayload obj.spec.kind inj effective

theorem World.Builds.builds {w : World} {obj : ManagedObject} {payload : Object}
    (h : w.Builds obj payload) : obj.Builds payload := by
  obtain ⟨effective, inj, heffective, hsources, rfl⟩ := h
  exact ⟨effective, inj, heffective, hsources.for, rfl⟩

/-! ### How the environment answers -/

/-- The operation is not a read from a server. -/
def Op.NoGet : Op → Prop
  | .admin _ request => request.method ≠ .get
  | _ => True

/-- An environment in which calls may fail, and in which `Get` returns what `shows` makes of
    the stored resource. -/
structure Showing (env : Env operations World) (s : Spec) (shows : Resource → Object) : Prop where
  id : ∀ r, (shows r).get "id" = some (.str r.id)
  faulty : ∀ {op : Op} {w w' : World} {answer : op.Answer}, op.NoGet → env op w answer w' →
    Faulty op w answer w'
  get : ∀ (kc : Conn) (w : World), wp env (fun _ _ => True) (s.driver.get kc).run
    (fun found t => t = w ∧ ∀ remote, found = .ok remote →
      ∃ r, w.target kc s = some r ∧ remote = shows r) w

theorem showing_report {env : Env operations World}
    (henv : ∀ op w answer w', env op w answer w' → Faulty op w answer w') (s : Spec) :
    Showing env s Resource.report where
  id := Resource.get_report_id
  faulty _ h := henv _ _ _ _ h
  get kc w := by
    refine wp_env_mono henv (wp_get reading_faulty.answering s (fun _ _ => trivial) ?_ ?_ ?_)
    · exact fun err _ => ⟨rfl, fun _ h => by cases h⟩
    · exact fun _ err _ => ⟨rfl, fun _ h => by cases h⟩
    · intro r hr _
      refine ⟨rfl, fun remote hremote => ⟨r, hr, ?_⟩⟩
      cases hremote
      rfl

/-- An environment in which calls may fail, and in which `Get` returns one of the forms that the
    stored resource can be displayed in. -/
structure Displaying (env : Env operations World) (s : Spec)
    (displays : World → Resource → Object → Prop) : Prop where
  id : ∀ {w r remote}, displays w r remote → remote.get "id" = some (.str r.id)
  faulty : ∀ {op : Op} {w w' : World} {answer : op.Answer}, op.NoGet → env op w answer w' →
    Faulty op w answer w'
  get : ∀ (kc : Conn) (w : World), wp env (fun _ _ => True) (s.driver.get kc).run
    (fun found t => t = w ∧ ∀ remote, found = .ok remote →
      ∃ r, w.target kc s = some r ∧ displays w r remote) w

theorem Showing.displaying {env : Env operations World} {s : Spec} {shows : Resource → Object}
    (h : Showing env s shows) : Displaying env s fun _ r remote => remote = shows r where
  id := by
    rintro _ r _ rfl
    exact h.id r
  faulty := h.faulty
  get := h.get

/-! ### The resource -/

/-- What the pass has made of the resource under the key. -/
inductive Applied (shows : Resource → Object) (label : String) (obj : ManagedObject)
    (payload : Object) : Option Resource → Resource → Prop where
  | created (id : String) (hid : id ≠ "") :
      Applied shows label obj payload none ⟨id, payload.erase "id", some label⟩
  | updated (r : Resource) (h : Engine.managed obj.spec.driver obj (shows r) = false ∨
        payloadDiffers (shows r) payload = true) :
      Applied shows label obj payload (some r) (r.overlay (mergePayload (shows r) payload))
  | agreed (r : Resource) (hmanaged : Engine.managed obj.spec.driver obj (shows r) = true)
      (h : payloadDiffers (shows r) payload = false) :
      Applied shows label obj payload (some r) r

/-- What stays from the start of the pass until the resource is in place. -/
structure World.Untouched (w u : World) : Prop where
  object : u.object = w.object
  connections : u.connections = w.connections
  secrets : u.secrets = w.secrets

theorem World.Untouched.refl (w : World) : w.Untouched w := ⟨rfl, rfl, rfl⟩

/-- The resource is in place at `u`. -/
structure Placed (shows : Resource → Object) (kc : Conn) (obj : ManagedObject) (w u : World) :
    Prop where
  untouched : w.Untouched u
  applied : ∃ payload r, w.Builds obj payload ∧ u.target kc obj.spec = some r ∧
    Applied shows kc.label obj payload (w.target kc obj.spec) r

/-- The pass over `obj` that began at `w` had the resource in place at `u`, was through
    `PostApply` at `v` and has recorded the spec at `t`. -/
structure Completes (env : Env operations World) (shows : Resource → Object) (kc : Conn)
    (obj : ManagedObject) (w u v t : World) : Prop where
  placed : Placed shows kc obj w u
  settled : ∃ remote mem changed,
    (∀ r, u.target kc obj.spec = some r → remote.get "id" = some (.str r.id)) ∧
    Returns env (obj.spec.driver.postApply kc obj remote) u (mem, .ok changed) v
  servers : t.servers = v.servers
  secrets : t.secrets = v.secrets

/-- A successful pass completes. -/
def Completed (env : Env operations World) (shows : Resource → Object) (kc : Conn)
    (obj : ManagedObject) (w : World) (pass : Pass) (t : World) : Prop :=
  pass.finalized = true → ∃ u v, Completes env shows kc obj w u v t

/-- A successful pass completes with one of the forms of the resource that it found. -/
def Displayed (env : Env operations World) (displays : World → Resource → Object → Prop) (kc : Conn)
    (obj : ManagedObject) (w : World) (pass : Pass) (t : World) : Prop :=
  pass.finalized = true → ∃ remote, (∀ r, w.target kc obj.spec = some r → displays w r remote) ∧
    Completed env (fun _ => remote) kc obj w pass t

theorem Applied.congr {shows shows' : Resource → Object} {label : String} {obj : ManagedObject}
    {payload : Object} {before : Option Resource} {r : Resource}
    (h : Applied shows label obj payload before r)
    (hshows : ∀ r, before = some r → shows r = shows' r) :
    Applied shows' label obj payload before r := by
  cases h with
  | created id hid => exact .created id hid
  | updated r h =>
    rw [hshows r rfl] at h ⊢
    exact .updated r h
  | agreed r hmanaged h =>
    rw [hshows r rfl] at hmanaged h
    exact .agreed r hmanaged h

theorem Completes.congr {env : Env operations World} {shows shows' : Resource → Object} {kc : Conn}
    {obj : ManagedObject} {w u v t : World} (h : Completes env shows kc obj w u v t)
    (hshows : ∀ r, w.target kc obj.spec = some r → shows r = shows' r) :
    Completes env shows' kc obj w u v t := by
  obtain ⟨⟨huntouched, payload, r, hbuilds, htarget, happlied⟩, hsettled, hservers, hsecrets⟩ := h
  exact ⟨⟨huntouched, payload, r, hbuilds, htarget, happlied.congr hshows⟩, hsettled, hservers,
    hsecrets⟩

/-! ### Operations with little effect -/

theorem reliable_bookkeeping {op : Op} {w w' : World} {answer : op.Answer} (hop : op.Bookkeeping)
    (h : Reliable op w answer w') : w'.servers = w.servers ∧ w'.secrets = w.secrets := by
  obtain ⟨order, now, rfl⟩ := reliable_state h
  rcases op
  case updateObject | patchObject | patchStatus =>
    simp only [World.handle, World.updateObject, World.patchObject, World.patchStatus]
    split <;> exact ⟨rfl, rfl⟩
  case now | connect | event | driftCorrected | reconciled => exact ⟨rfl, rfl⟩
  all_goals exact hop.elim

theorem faulty_bookkeeping {op : Op} {w w' : World} {answer : op.Answer} (hop : op.Bookkeeping)
    (h : Faulty op w answer w') : w'.servers = w.servers ∧ w'.secrets = w.secrets :=
  faulty_elim h ⟨rfl, rfl⟩ fun _ h => reliable_bookkeeping hop h

theorem Op.Bookkeeping.noGet {op : Op} (h : op.Bookkeeping) : op.NoGet := by
  rcases op <;> first | exact trivial | exact h.elim

/-- Events and metrics. -/
def Op.Notes : Op → Prop
  | .event _ _ _ => True
  | .driftCorrected _ => True
  | _ => False

theorem faulty_notes {op : Op} {w w' : World} {answer : op.Answer} (hop : op.Notes)
    (h : Faulty op w answer w') : w' = w := by
  rcases op <;> try exact hop.elim
  all_goals
    rcases h with ⟨order, now, heq⟩ | ⟨hfailure, -⟩
    · exact (congrArg Prod.snd heq).symm
    · exact hfailure.elim

section Completion

variable {env : Env operations World} {displays : World → Resource → Object → Prop} {e : Engine}
  {kc : Conn} {obj : ManagedObject} {w u : World}

theorem wp_bookkeeping (hdisplay : Displaying env obj.spec displays) {p : Action α}
    (h : Only Op.Bookkeeping p) :
    wp env ⊤ p (fun _ t => t.servers = u.servers ∧ t.secrets = u.secrets) u := by
  have hkeeps : ∀ (op : Op) (t : World) (answer : op.Answer) (t' : World), op.Bookkeeping →
      t.servers = u.servers ∧ t.secrets = u.secrets → env op t answer t' →
      t'.servers = u.servers ∧ t'.secrets = u.secrets := by
    intro op t answer t' hop ht hstep
    obtain ⟨hservers, hsecrets⟩ := faulty_bookkeeping hop (hdisplay.faulty hop.noGet hstep)
    exact ⟨hservers.trans ht.1, hsecrets.trans ht.2⟩
  exact wp_guard_mono (fun _ _ _ => trivial) (wp_of_only _ hkeeps h ⟨rfl, rfl⟩)

/-- An event changes nothing. -/
theorem wp_record_event {guard : Op → World → Prop} {type : EventType} {reason message : String}
    (hfaulty : ∀ {answer t}, env (.event type reason message) u answer t →
      Faulty (.event type reason message) u answer t)
    (hguard : guard (.event type reason message) u) :
    wp env guard (e.record type reason message) (fun _ t => t = u) u := by
  unfold Engine.record
  split
  · exact ⟨hguard, fun _ t hstep => faulty_notes (by trivial) (hfaulty hstep)⟩
  · exact rfl

theorem wp_record_kept (hdisplay : Displaying env obj.spec displays) (type : EventType)
    (reason message : String) :
    wp env ⊤ (e.record type reason message) (fun _ t => t = u) u :=
  wp_record_event (hdisplay.faulty (by trivial)) trivial

/-- A pass that is no success has nothing to show. -/
theorem wp_unsuccessful {p : Action Pass} (h : Yields (fun pass => pass.finalized = false) p) :
    wp env ⊤ p (Displayed env displays kc obj w) u := by
  refine wp_mono (fun pass t hpass hfinalized => ?_) (wp_of_yields h u)
  cases hpass.symm.trans hfinalized

/-- `PostApply` and the bookkeeping after it. -/
theorem wp_settle_completed (hdisplay : Displaying env obj.spec displays) {shown remote : Object}
    (hplaced : Placed (fun _ => shown) kc obj w u)
    (hshown : ∀ r, w.target kc obj.spec = some r → displays w r shown)
    (hremote : ∀ r, u.target kc obj.spec = some r → remote.get "id" = some (.str r.id))
    {next : ManagedObject → Bool → Action Pass} (hnext : e.Concludes obj next) :
    wp env ⊤ (e.settle obj.spec.driver kc obj obj remote next)
      (Displayed env displays kc obj w) u := by
  refine Engine.wp_settle_of (wp_mono ?_ (wp_returns _ u))
  rintro ⟨mem, err | changed⟩ v hreturns
  · exact wp_unsuccessful (yields_bind fun _ => rfl)
  · refine wp_mono (fun pass t ht _ => ?_) (wp_bookkeeping hdisplay
      (hnext.only (fun _ hop => hop.bookkeeping) mem (fun _ _ => trivial) changed))
    exact ⟨shown, hshown, fun _ =>
      ⟨u, v, hplaced, ⟨remote, mem, changed, hremote, hreturns⟩, ht.1, ht.2⟩⟩

/-- The body is built from the Secret of this world. -/
theorem wp_prepare_sourced (hdisplay : Displaying env obj.spec displays) (p : Object)
    {post : Except Err Object → World → Prop} (herr : ∀ err, post (.error err) w)
    (hok : ∀ inj, w.Sources obj inj → post (.ok (applyAll inj.rewrite.toList p)) w) :
    wp env ⊤ (obj.spec.driver.preparePayload obj p).run post w := by
  have hnoGet : ∀ op, ReadsSecrets op → op.NoGet := by
    rintro (_ | _) h <;> first | exact trivial | exact h.elim
  exact wp_prepared (fun hop hstep => hdisplay.faulty (hnoGet _ hop) hstep) p (fun _ _ => trivial)
    (fun err _ _ _ _ _ _ => herr err) hok

/-! ### Existing resources -/

theorem itemEndpoint_of_get_id {r : Resource} {remote : Object}
    (h : remote.get "id" = some (.str r.id)) :
    obj.spec.itemEndpoint (obj.spec.driver.id remote) = obj.spec.itemEndpoint r.id := by
  have hid : remoteId remote = r.id := by
    simp [remoteId, stringField, h]
  rcases obj.spec with s | s | s | s | s | s <;> first | rfl | exact congrArg _ hid

/-- The update keeps the natural key, whatever was reported. -/
theorem ManagedObject.Builds.key_merged {payload : Object} (h : obj.Builds payload) (r : Resource)
    (remote : Object) :
    (r.overlay (mergePayload remote payload)).key obj.spec.place.kind.keyField =
      some obj.spec.naturalKey := by
  unfold Resource.key stringField
  rw [r.get_overlay _ (Kind.keyField_ne_id _), get_mergePayload, h.key]
  rfl

theorem faulty_admin_untouched {request : Request} {answer : Except Err request.out.Value} {t : World}
    (h : Faulty (.admin kc request) u answer t) : u.Untouched t := by
  rcases faulty_admin h with ⟨rfl, -⟩ | ⟨rfl, -⟩
  · exact .refl _
  · rw [World.admin_snd]
    exact ⟨rfl, rfl, rfl⟩

theorem wp_correctDrift_placed (hdisplay : Displaying env obj.spec displays) {r : Resource}
    {remote payload : Object} (hid : remote.get "id" = some (.str r.id))
    (htarget : w.target kc obj.spec = some r) (hbuilds : w.Builds obj payload)
    (hchanges : Engine.managed obj.spec.driver obj remote = false ∨
      payloadDiffers remote payload = true) :
    wp env ⊤ (e.correctDrift obj.spec.driver kc obj remote payload).run
      (fun updated t => updated = .ok () → Placed (fun _ => remote) kc obj w t ∧
        ∀ r', t.target kc obj.spec = some r' → r'.id = r.id) w := by
  refine wp_run_bind.mpr (wp_run_lift.mpr ⟨trivial, fun _ t hstep => ?_⟩)
  obtain rfl : t = w := faulty_notes (by trivial) (hdisplay.faulty (by trivial) hstep)
  rw [driver_update, itemEndpoint_of_get_id hid]
  refine wp_run_bind.mpr ⟨trivial, fun answer u hstep => ?_⟩
  have hfaulty := hdisplay.faulty (by simp [Op.NoGet]) hstep
  rcases faulty_put htarget (hbuilds.builds.key_merged r remote) hfaulty with
    ⟨-, err, rfl⟩ | hput
  · exact fun h => by cases h
  rcases answer with err | _
  · exact fun h => by cases h
  refine wp_run_lift.mpr (wp_mono (fun _ v hv _ => ?_) (wp_record_kept hdisplay _ _ _))
  subst hv
  have hstored : v.target kc obj.spec = some (r.overlay (mergePayload remote payload)) :=
    congrArg View.resource hput
  refine ⟨⟨faulty_admin_untouched hfaulty, payload, _, hbuilds, hstored, ?_⟩, fun r' hr' => ?_⟩
  · rw [htarget]
    exact .updated r hchanges
  · cases hstored.symm.trans hr'
    rfl

/-! ### The pass -/

theorem stations_displayed (hdisplay : Displaying env obj.spec displays) :
    Stations e env (fun _ _ => True) kc obj (fun t => t = w) (fun t => t = w)
      (fun remote t => t = w ∧ ∃ r, w.target kc obj.spec = some r ∧ displays w r remote)
      (fun remote _ t => ∃ shown, Placed (fun _ => shown) kc obj w t ∧
        (∀ r, w.target kc obj.spec = some r → displays w r shown) ∧
        ∀ r, t.target kc obj.spec = some r → remote.get "id" = some (.str r.id))
      (Displayed env displays kc obj w) := by
  have hstops : ∀ {p : Action Pass} {t : World}, e.Stops obj p →
      wp env ⊤ p (Displayed env displays kc obj w) t := fun h =>
    wp_unsuccessful h.unfinished
  constructor
  case declined => exact fun _ _ => hstops (.refused _ _ _ _)
  case looked =>
    rintro t - rfl
    refine wp_mono ?_ (hdisplay.get kc t)
    rintro (err | remote) u ⟨rfl, hfound⟩
    · exact ⟨fun _ => rfl, fun _ => hstops (.retried _ _)⟩
    · exact ⟨rfl, hfound remote rfl⟩
  case rejected => exact fun _ _ _ => hstops (.refused _ _ _ _)
  case adopted =>
    rintro remote t ⟨rfl, hremote⟩
    exact wp_mono (fun _ u hu => ⟨hu, hremote⟩) (wp_record_kept hdisplay _ _ _)
  case enforced =>
    rintro effective remote adopting t - heffective - hadopting ⟨rfl, r, htarget, hremote⟩
    refine wp_prepare_sourced hdisplay _ (fun err => hstops (.refused _ _ _ _)) fun inj hinj => ?_
    rw [builtPayload_eq]
    have hbuilds : t.Builds obj (builtPayload obj.spec.kind inj effective) :=
      ⟨effective, inj, heffective, hinj, rfl⟩
    have hshown : ∀ r', t.target kc obj.spec = some r' → displays t r' remote := by
      intro r' hr'
      cases htarget.symm.trans hr'
      exact hremote
    refine ⟨fun hagrees => ?_, fun hchanges => ?_⟩
    · obtain ⟨hkept, hsame⟩ := Bool.or_eq_false_iff.mp hagrees
      have hmanaged : Engine.managed obj.spec.driver obj remote = true := by
        rw [hadopting, hkept]
        rfl
      refine ⟨remote, ⟨.refl t, _, r, hbuilds, htarget, ?_⟩, hshown, fun r' hr' =>
        hdisplay.id (hshown r' hr')⟩
      rw [htarget]
      exact .agreed r hmanaged hsame
    · have hupdates : Engine.managed obj.spec.driver obj remote = false ∨
          payloadDiffers remote (builtPayload obj.spec.kind inj effective) = true := by
        rcases Bool.or_eq_true_iff.mp hchanges with hadopts | hdiffers
        · exact .inl (by rw [hadopting, hadopts]; rfl)
        · exact .inr hdiffers
      refine wp_mono ?_ (wp_correctDrift_placed hdisplay (hdisplay.id hremote) htarget hbuilds
        hupdates)
      rintro (err | _) u hplaced
      · exact hstops (.notUpdated e obj err)
      · obtain ⟨hplaced, hid⟩ := hplaced rfl
        exact ⟨remote, hplaced, hshown, fun r' hr' => by rw [hid r' hr', hdisplay.id hremote]⟩
  case created =>
    rintro effective t - heffective rfl
    refine wp_prepare_sourced hdisplay _ (fun err => hstops (.refused _ _ _ _)) fun inj hinj => ?_
    dsimp only
    rw [managedMarker_inject hinj.for, driver_create]
    have hbuilds : t.Builds obj (builtPayload obj.spec.kind inj effective) :=
      ⟨effective, inj, heffective, hinj, rfl⟩
    refine ⟨trivial, fun answer u hstep => ?_⟩
    have hfaulty := hdisplay.faulty (by simp [Op.NoGet]) hstep
    rcases faulty_post hbuilds.builds.stringField_key hfaulty with ⟨-, err, rfl⟩ |
      ⟨habsent, id, hid, hstored⟩
    · exact hstops (.notCreated e obj err)
    rcases answer with err | _
    · exact hstops (.notCreated e obj err)
    have habsent : t.target kc obj.spec = none := habsent
    have htarget : u.target kc obj.spec = some ⟨id, _, some kc.label⟩ :=
      congrArg View.resource hstored
    -- nothing was found, so any form will do
    have hplaced : Placed (fun _ => ∅) kc obj t u := by
      refine ⟨faulty_admin_untouched hfaulty, _, _, hbuilds, htarget, ?_⟩
      rw [habsent]
      exact .created id hid
    change wp env ⊤ (e.record _ _ _) _ _
    refine wp_mono (fun _ x hx => ?_) (wp_record_kept hdisplay _ _ _)
    subst hx
    refine wp_mono ?_ (hdisplay.get kc x)
    rintro (err | remote) y ⟨rfl, hfound⟩
    · exact hstops (.unfetched err)
    · refine ⟨∅, hplaced, fun r' hr' => ?_, fun r' hr' => ?_⟩
      · cases habsent.symm.trans hr'
      · obtain ⟨r, hr, hremote⟩ := hfound remote rfl
        cases hr.symm.trans hr'
        exact hdisplay.id hremote
  case settled =>
    rintro remote next t hnext ⟨shown, hplaced, hshown, hremote⟩
    exact wp_settle_completed hdisplay hplaced hshown hremote hnext

/-- **A successful pass** has built the body, put the resource in place, been through
    `PostApply` and recorded the spec. -/
theorem wp_reconcile_completed (hdisplay : Displaying env obj.spec displays) :
    wp env ⊤ (e.reconcile obj)
      (fun pass t => pass.finalized = true → ∃ kc,
        w.connections obj.ns obj.spec.connectionName = .ok kc ∧
        Displayed env displays kc obj w pass t) w := by
  have hunsuccessful : ∀ {p : Action Pass} (t : World),
      Yields (fun pass => pass.finalized = false) p → wp env ⊤ p
        (fun pass t => pass.finalized = true → ∃ kc,
          w.connections obj.ns obj.spec.connectionName = .ok kc ∧
          Displayed env displays kc obj w pass t) t := by
    intro p t hyields
    refine wp_mono (fun pass t hpass hfinalized => ?_) (wp_of_yields hyields t)
    cases hpass.symm.trans hfinalized
  refine Engine.wp_reconcile_of (fun pass t => pass.finalized = true → ∃ kc,
      w.connections obj.ns obj.spec.connectionName = .ok kc ∧
      Displayed env displays kc obj w pass t)
    (fun pass t hpost => ⟨trivial, fun _ t' hstep => ?_⟩)
    (fun _ => hunsuccessful w (Engine.unfinished_updateObject _ _)) fun _ =>
      ⟨trivial, fun answer t hstep => ?_⟩
  · obtain ⟨hservers, hsecrets⟩ :=
      faulty_bookkeeping (by trivial) (hdisplay.faulty (by trivial) hstep)
    intro hfinalized
    obtain ⟨kc, hconnection, hdisplayed⟩ := hpost hfinalized
    refine ⟨kc, hconnection, fun _ => ?_⟩
    obtain ⟨remote, hremote, hcompleted⟩ := hdisplayed hfinalized
    obtain ⟨u, v, hplaced, hsettled, hservers', hsecrets'⟩ := hcompleted hfinalized
    exact ⟨remote, hremote, fun _ => ⟨u, v, hplaced, hsettled, hservers.trans hservers',
      hsecrets.trans hsecrets'⟩⟩
  obtain ⟨rfl, hanswer⟩ := faulty_connect (hdisplay.faulty (by trivial) hstep)
  rcases answer with message | kc
  · exact hunsuccessful t (yields_bind fun _ => rfl)
  have hconnection : t.connections obj.ns obj.spec.connectionName = .ok kc := by
    rcases hanswer with hconnected | ⟨err, herr⟩
    · exact hconnected.symm
    · cases herr
  refine ⟨fun _ => hunsuccessful t (e.unfinished_handleDeletion kc obj), fun _ _ =>
    hunsuccessful t (Engine.unfinished_updateObject _ _), fun _ _ => ?_⟩
  exact wp_mono (fun pass u hdisplayed _ => ⟨kc, hconnection, hdisplayed⟩)
    ((stations_displayed hdisplay).wp_apply rfl)

theorem Engine.exec_displayed {t : World} {steps : Log} {pass : Pass}
    (hdisplay : ∀ obj, w.object = some obj → Displaying env obj.spec displays)
    (hget : ∀ {answer t}, env .getObject w answer t → Faulty .getObject w answer t)
    (hexec : Exec env e.controllerReconcile.run w steps t (some (.ok (some pass))))
    (hfinalized : pass.finalized = true) :
    ∃ obj kc remote u v, w.object = some obj ∧
      w.connections obj.ns obj.spec.connectionName = .ok kc ∧
      (∀ r, w.target kc obj.spec = some r → displays w r remote) ∧
      Completes env (fun _ => remote) kc obj w u v t := by
  rcases e.exec_pass hexec with ⟨-, hresult⟩ | ⟨obj, w', rest, reached, hstep, -, hrest, hreached⟩
  · exact absurd rfl (hresult pass)
  obtain ⟨rfl, hobject⟩ := faulty_getObject_ok (hget hstep)
  obtain ⟨kc, hconnection, hdisplayed⟩ :=
    (wp_sound (wp_reconcile_completed (hdisplay obj hobject)) hrest).2 pass (hreached pass rfl)
      hfinalized
  obtain ⟨remote, hremote, hcompleted⟩ := hdisplayed hfinalized
  obtain ⟨u, v, hcompletes⟩ := hcompleted hfinalized
  exact ⟨obj, kc, remote, u, v, hobject, hconnection, hremote, hcompletes⟩

theorem Engine.exec_completed {shows : Resource → Object} {t : World}
    {steps : Log} {pass : Pass}
    (hshow : ∀ obj, w.object = some obj → Showing env obj.spec shows)
    (hget : ∀ {answer t}, env .getObject w answer t → Faulty .getObject w answer t)
    (hexec : Exec env e.controllerReconcile.run w steps t (some (.ok (some pass))))
    (hfinalized : pass.finalized = true) :
    ∃ obj kc u v, w.object = some obj ∧ w.connections obj.ns obj.spec.connectionName = .ok kc ∧
      Completes env shows kc obj w u v t := by
  obtain ⟨obj, kc, remote, u, v, hobject, hconnection, hremote, hcompletes⟩ :=
    Engine.exec_displayed (fun obj hobject => (hshow obj hobject).displaying) hget hexec hfinalized
  exact ⟨obj, kc, u, v, hobject, hconnection, hcompletes.congr hremote⟩

/-! ### After the resource is in place -/

/-- `PostApply` leaves the representation alone. -/
theorem Completes.target_eq {shows : Resource → Object} {v t : World}
    (hquiet : ∀ {op : Op} {w w' : World} {answer : op.Answer}, op.Quiet → env op w answer w' →
      w'.view kc obj.spec = w.view kc obj.spec)
    (h : Completes env shows kc obj w u v t) : t.target kc obj.spec = u.target kc obj.spec := by
  obtain ⟨-, ⟨remote, mem, changed, -, steps, hexec⟩, hservers, -⟩ := h
  have honly : Only Op.Quiet (obj.spec.driver.postApply kc obj remote) :=
    only_postApply (fun op h => (silent_reads op h).quiet)
      (fun op h => Op.Silent.quiet (.inr (.inl h))) (fun _ h => h.quiet) obj
  have hkeeps : ∀ (op : Op) (t : World) (answer : op.Answer) (t' : World), op.Quiet →
      t.view kc obj.spec = u.view kc obj.spec → env op t answer t' →
      t'.view kc obj.spec = u.view kc obj.spec := fun _ _ _ _ hop ht hstep =>
    (hquiet hop hstep).trans ht
  have hview := (wp_sound (wp_of_only (fun t : World => t.view kc obj.spec = u.view kc obj.spec)
    hkeeps honly rfl) hexec).2 _ rfl
  calc t.target kc obj.spec = v.target kc obj.spec := by rw [World.target, World.target, hservers]
    _ = u.target kc obj.spec := congrArg View.resource hview

end Completion

end KeycloakOperator
