import KeycloakOperator.Completion
import KeycloakOperator.Resumption

/-!
# The secret of a client

A Client resource may take the client secret from a Secret (`secretRef`) and hand it out in
another one (`secretOutput`).  The inbound value goes through the payload and its comparison,
the outbound one is read back from the server by an endpoint of its own, and the output
Secret is compared once more before it is written.  After every successful pass the three
agree, from whichever state it began.
-/

namespace KeycloakOperator

open Prog

/-! ### The three places -/

/-- The entry of a Secret that a selector names. -/
def SecretKeySelector.entry (selector : SecretKeySelector) : String :=
  if selector.key = "" then clientSecretKey else selector.key

/-- The entry of a Secret. -/
def World.secretEntry (w : World) (ns name key : String) : Option String :=
  (w.secrets ns name).bind fun secret => secret.data.get key

/-- The client secret as the server hands it out. -/
def Resource.clientSecret (r : Resource) : String := (stringField r.rep "secret").getD ""

/-- The output Secret at `t` holds the value, and what else it held at `w`. -/
structure Exports (w t : World) (ns : String) (output : SecretKeySelector) (value : String) :
    Prop where
  present : t.secrets ns output.name ≠ none
  holds : (t.secretEntry ns output.name output.entry).getD "" = value
  others : ∀ key, key ≠ output.entry →
    t.secretEntry ns output.name key = w.secretEntry ns output.name key

/-- After a pass from `w` to `t`, the server and the output Secret agree with the inbound
    Secret. -/
def SecretsAgree (w t : World) (kc : Conn) (ns : String) (s : ClientSpec)
    (selector output : SecretKeySelector) : Prop :=
  ∃ value r, w.secretEntry ns selector.name selector.entry = some value ∧
    t.secretEntry ns selector.name selector.entry = some value ∧
    t.target kc (.client s) = some r ∧ r.clientSecret = value ∧ Exports w t ns output value

/-! ### The inbound value -/

section Inbound

variable {w : World} {obj : ManagedObject} {s : ClientSpec} {selector : SecretKeySelector}

theorem World.Sources.client {inj : Injection} (h : w.Sources obj inj) (hspec : obj.spec = .client s)
    (href : s.secretRef = some selector) :
    ∃ value, w.secretEntry obj.ns selector.name selector.entry = some value ∧
      inj = .secret value := by
  obtain ⟨secret, hserved, rfl, hdata⟩ := h
  rw [hspec] at hserved hdata
  obtain ⟨value, hvalue⟩ := hserved selector href
  have hdata : (w.secrets obj.ns selector.name).map Secret.data = some secret.data :=
    hdata selector.name (by simp [Spec.secretName, href])
  obtain ⟨stored, hstored, hsame⟩ := Option.map_eq_some_iff.mp hdata
  refine ⟨value, ?_, ?_⟩
  · simp only [World.secretEntry, hstored, Option.bind_some, hsame]
    exact hvalue
  · simp [hspec, Spec.injection, href, hvalue]

theorem get_secret_builtPayload (kind : Kind) (value : String) (effective : Object) :
    (builtPayload kind (.secret value) effective).get "secret" = some (.str value) := by
  unfold builtPayload rewrites applyAll
  rw [List.foldl_append]
  exact Rewrite.get_apply_self _ _

/-- The body of a pass carries the inbound value. -/
theorem World.Builds.secret {payload : Object} (h : w.Builds obj payload)
    (hspec : obj.spec = .client s) (href : s.secretRef = some selector) :
    ∃ value, w.secretEntry obj.ns selector.name selector.entry = some value ∧
      payload.get "secret" = some (.str value) := by
  obtain ⟨effective, inj, -, hsources, rfl⟩ := h
  obtain ⟨value, hvalue, rfl⟩ := hsources.client hspec href
  exact ⟨value, hvalue, get_secret_builtPayload _ _ _⟩

/-- A silent comparison of a string: it is there, or the mask, or it is empty and missing. -/
theorem entryAgrees_str {value : String} {got : Option JSON} (h : EntryAgrees (.str value) got) :
    got = some (.str keycloakMaskedValue) ∨ got = some (.str value) ∨
      (value = "" ∧ presentValue got = none) := by
  rcases hgot : presentValue got with _ | g
  · have hzero := (entryAgrees_absent (by simp) hgot).mp h
    exact .inr (.inr ⟨by simpa [isZeroValue] using hzero, rfl⟩)
  · obtain ⟨rfl, -⟩ := presentValue_eq_some.mp hgot
    rcases (managedValueEqual_scalar rfl g).mp
      ((entryAgrees_present (by simp) hgot).mp h) with rfl | rfl
    · exact .inl rfl
    · exact .inr (.inl rfl)

/-- Once the resource is in place, the server has the inbound value. -/
theorem Applied.clientSecret {label : String} {payload : Object} {before : Option Resource}
    {r : Resource} {value : String} (h : Applied Resource.report label obj payload before r)
    (hpayload : payload.get "secret" = some (.str value))
    (hmask : ∀ r, before = some r → r.clientSecret ≠ keycloakMaskedValue) :
    r.clientSecret = value := by
  unfold Resource.clientSecret stringField
  rcases h with ⟨id, hid⟩ | ⟨r, -⟩ | ⟨r, -, hagrees⟩
  · rw [FiniteMap.get_erase_of_ne _ (by decide), hpayload]
    rfl
  · rw [r.get_overlay _ (by decide), get_mergePayload, hpayload]
    rfl
  · have hentry := payloadDiffers_eq_false_iff.mp hagrees "secret" _ hpayload
    rw [Resource.get_report_of_ne _ (by decide)] at hentry
    rcases entryAgrees_str hentry with hmasked | hsame | ⟨rfl, hmissing⟩
    · refine absurd ?_ (hmask _ rfl)
      simp [Resource.clientSecret, stringField, hmasked, JSON.asString]
    · rw [hsame]
      rfl
    · rcases presentValue_eq_none.mp hmissing with hnone | hnone <;> rw [hnone] <;> rfl

end Inbound

/-! ### The outbound value -/

theorem reliable_secrets {op : Op} {w w' : World} {answer : op.Answer} (hop : ¬ op.WritesSecret)
    (h : Reliable op w answer w') : w'.secrets = w.secrets := by
  obtain ⟨order, now, rfl⟩ := reliable_state h
  rcases op
  case createSecret | updateSecret => exact absurd trivial hop
  case admin => rfl
  all_goals
    simp only [World.handle, World.updateObject, World.patchObject, World.patchStatus]
    try (split <;> rfl)

theorem faulty_secrets {op : Op} {w w' : World} {answer : op.Answer} (hop : ¬ op.WritesSecret)
    (h : Faulty op w answer w') : w'.secrets = w.secrets :=
  faulty_elim h rfl fun _ h => reliable_secrets hop h

/-- A call that reports no failure took effect. -/
theorem reliable_of_faulty {op : Op} {w w' : World} {answer : op.Answer}
    (h : Faulty op w answer w') (hok : ¬ Failure op answer) : Reliable op w answer w' :=
  h.resolve_right fun hfailure => hok hfailure.1

/-- What `ensureOutputSecret` leaves: the entry holds the value, and no other entry of any
    Secret has changed.  An entry that had the value has not been touched. -/
structure Written (w t : World) (ns name key value : String) : Prop where
  present : t.secrets ns name ≠ none
  holds : (t.secretEntry ns name key).getD "" = value
  kept : t.secretEntry ns name key = some value ∨
    t.secretEntry ns name key = w.secretEntry ns name key
  others : ∀ ns' name' key', ¬ (ns' = ns ∧ name' = name ∧ key' = key) →
    t.secretEntry ns' name' key' = w.secretEntry ns' name' key'

theorem World.secretEntry_congr {w w' : World} (h : w'.secrets = w.secrets) :
    w'.secretEntry = w.secretEntry := by
  funext ns name key
  unfold World.secretEntry
  rw [h]

theorem Written.congr {w t w' t' : World} {ns name key value : String}
    (h : Written w t ns name key value) (hw : w'.secrets = w.secrets) (ht : t'.secrets = t.secrets) :
    Written w' t' ns name key value := by
  obtain ⟨hpresent, hholds, hkept, hothers⟩ := h
  constructor
  · rwa [ht]
  · rwa [World.secretEntry_congr ht]
  · rwa [World.secretEntry_congr ht, World.secretEntry_congr hw]
  · rwa [World.secretEntry_congr ht, World.secretEntry_congr hw]

theorem World.secretEntry_setSecret (w : World) (secret : Secret) (ns name key : String) :
    (w.setSecret secret).secretEntry ns name key =
      if ns = secret.ns ∧ name = secret.name then secret.data.get key
      else w.secretEntry ns name key := by
  unfold World.secretEntry World.setSecret
  by_cases hns : ns = secret.ns
  · subst hns
    by_cases hname : name = secret.name
    · subst hname
      simp
    · simp [hname]
  · simp [hns]

/-- A Secret whose other entries stay. -/
theorem written_setSecret {w : World} {secret : Secret} {key value : String}
    (hvalue : secret.data.get key = some value)
    (hothers : ∀ key', key' ≠ key →
      secret.data.get key' = w.secretEntry secret.ns secret.name key') :
    Written w (w.setSecret secret) secret.ns secret.name key value := by
  constructor
  · simp [World.setSecret]
  · simp [World.secretEntry_setSecret, hvalue]
  · left
    simp [World.secretEntry_setSecret, hvalue]
  · intro ns' name' key' hother
    rw [World.secretEntry_setSecret]
    split
    case isTrue hsame =>
      obtain ⟨rfl, rfl⟩ := hsame
      exact hothers key' fun hkey => hother ⟨rfl, rfl, hkey⟩
    case isFalse => rfl

theorem wp_ensureOutputSecret (w : World) (obj : ManagedObject) (name key value : String) :
    wp Faulty ⊤ (ensureOutputSecret obj name key value).run
      (fun result t => t.servers = w.servers ∧
        ∀ changed, result = .ok changed → Written w t obj.ns name key value) w := by
  have hservers : ∀ {op : Op} {t t' : World} {answer : op.Answer}, op.WritesSecret →
      Faulty op t answer t' → t'.servers = t.servers := by
    intro op t t' answer hop hstep
    apply faulty_servers ?_ hstep
    rcases op <;> first | exact trivial | exact hop.elim
  refine ⟨trivial, fun answer t hget => ?_⟩
  obtain rfl : t = w := faulty_readsSecrets (by trivial) hget
  rcases answer with err | existing <;> simp only [Prog.bind]
  · split
    · refine ⟨trivial, fun answer u hcreate => ?_⟩
      rcases answer with err | _
      · exact ⟨hservers (by trivial) hcreate, fun _ h => by cases h⟩
      · refine ⟨hservers (by trivial) hcreate, fun _ _ => ?_⟩
        obtain ⟨order, now, heq⟩ := reliable_of_faulty hcreate (by rintro ⟨err, herr⟩; cases herr)
        simp only [World.handle, World.createSecret] at heq
        split at heq
        · cases heq
        case h_2 hfree =>
          cases heq
          apply written_setSecret
          · simp [FiniteMap.ofList]
          · intro key' hkey
            simp [World.secretEntry, hfree, FiniteMap.ofList, FiniteMap.get_put_of_ne _ _ hkey]
    · exact ⟨rfl, fun _ h => by cases h⟩
  · obtain ⟨order, now, heq⟩ := reliable_of_faulty hget (by rintro ⟨err, herr⟩; cases herr)
    have hanswer : t.getSecret obj.ns name = .ok existing := congrArg Prod.fst heq
    unfold World.getSecret at hanswer
    split at hanswer
    case h_2 => cases hanswer
    case h_1 found hfound =>
      cases hanswer
      have hentry : ∀ key', t.secretEntry obj.ns name key' = found.data.get key' := by
        intro key'
        simp [World.secretEntry, hfound]
      split
      · exact ⟨rfl, fun _ h => by cases h⟩
      split
      case isTrue hsame =>
        refine ⟨rfl, fun _ _ => ⟨by simp [hfound], ?_, .inr rfl, fun _ _ _ _ => rfl⟩⟩
        rw [hentry]
        exact hsame
      case isFalse =>
        refine ⟨trivial, fun answer u hupdate => ?_⟩
        rcases answer with err | _
        · exact ⟨hservers (by trivial) hupdate, fun _ h => by cases h⟩
        · refine ⟨hservers (by trivial) hupdate, fun _ _ => ?_⟩
          obtain ⟨order, now, heq⟩ := reliable_of_faulty hupdate (by rintro ⟨err, herr⟩; cases herr)
          simp only [World.handle, World.updateSecret, hfound] at heq
          cases heq
          apply written_setSecret
          · simp
          · intro key' hkey
            rw [hentry]
            exact FiniteMap.get_put_of_ne _ _ hkey

section Outbound

variable {kc : Conn} {obj : ManagedObject} {s : ClientSpec} {output : SecretKeySelector}
  {remote : Object} {u : World} {r : Resource}

/-- The endpoint for the client secret hands out what the representation holds. -/
theorem wp_getClientSecret {env : Env operations World} {errs : Prop} (hreading : Reading env errs)
    {guard : Op → World → Prop} {post : Except Err String → World → Prop}
    (hguard : ∀ op, op.Reads → guard op u) (htarget : u.target kc (.client s) = some r)
    (herr : errs → ∀ err, post (.error err) u) (hok : post (.ok r.clientSecret) u) :
    wp env guard (kc.getClientSecret s.realm r.id).run post u := by
  refine wp_send hreading.answering rfl (hguard _ rfl) (fun err herrs => herr herrs err) ?_
  have hfind : (u.servers kc.server).find ⟨.client, s.realm⟩ (.id r.id) = some r :=
    Collection.find_eq_some_iff.mpr ⟨(Collection.find_eq_some_iff.mp htarget).1, decide_eq_true rfl⟩
  simp only [Server.get, hfind]
  exact hok

/-- What keeps the Secrets and the resource of the spec. -/
theorem wp_scopes_kept {p : Action α}
    (h : Only (fun op : Op => op.Quiet ∧ ¬ op.WritesSecret) p) (t : World) (kc : Conn) (s : Spec) :
    wp Faulty ⊤ p
      (fun _ t' => t'.target kc s = t.target kc s ∧ t'.secrets = t.secrets) t := by
  have hkeeps : ∀ (op : Op) (v : World) (answer : op.Answer) (v' : World),
      op.Quiet ∧ ¬ op.WritesSecret → v.target kc s = t.target kc s ∧ v.secrets = t.secrets →
      Faulty op v answer v' → v'.target kc s = t.target kc s ∧ v'.secrets = t.secrets := by
    intro op v answer v' hop hv hstep
    have hview := faulty_quiet hop.1 hstep kc s
    exact ⟨(congrArg View.resource hview).trans hv.1, (faulty_secrets hop.2 hstep).trans hv.2⟩
  exact wp_guard_mono (fun _ _ _ => trivial) (wp_of_only _ hkeeps h ⟨rfl, rfl⟩)

/-- **`PostApply` hands out the client secret.** -/
theorem wp_clientPostApply (houtput : s.secretOutput = some output)
    (htarget : u.target kc (.client s) = some r) (hremote : remote.get "id" = some (.str r.id)) :
    wp Faulty ⊤ (s.postApply kc obj remote)
      (fun result t => ∀ changed, result.2 = .ok changed →
        t.target kc (.client s) = some r ∧
          Written u t obj.ns output.name output.entry r.clientSecret) u := by
  have hid : remoteId remote = r.id := by simp [remoteId, stringField, hremote]
  unfold ClientSpec.postApply requireId
  rw [hid]
  by_cases hempty : r.id = ""
  · rw [if_pos hempty]
    exact fun _ h => by cases h
  rw [if_neg hempty]
  have hexport : wp Faulty ⊤ (s.exportSecret kc obj r.id).run
      (fun exported t => t.target kc (.client s) = some r ∧ ∀ changed, exported = .ok changed →
        Written u t obj.ns output.name output.entry r.clientSecret) u := by
    unfold ClientSpec.exportSecret
    rw [houtput]
    refine wp_run_bind.mpr (wp_getClientSecret reading_faulty (fun _ _ => trivial) htarget
      (fun _ err => ?_) ?_)
    · exact ⟨htarget, fun _ h => by cases h⟩
    · refine wp_mono (fun result t ht => ⟨?_, ht.2⟩)
        (wp_ensureOutputSecret u obj output.name output.entry r.clientSecret)
      rw [← htarget]
      unfold World.target
      rw [ht.1]
  refine wp_bind.mpr (wp_mono (fun exported t ht => ?_) hexport)
  obtain ⟨htarget, hwritten⟩ := ht
  rcases exported with err | exported
  · exact fun _ h => by cases h
  have hwritten := hwritten exported rfl
  have hscopes : ∀ list, Only (fun op : Op => op.Quiet ∧ ¬ op.WritesSecret)
      (s.enforceScopes kc r.id list (s.scopes list)).run := by
    intro list
    rcases s.scopes list with _ | desired
    · exact trivial
    · refine compositional_only.has_enforceScopeAssignments ?_ (fun _ _ => ⟨.inr ⟨rfl, rfl⟩, id⟩) desired
      intro op hreads
      refine ⟨(silent_reads op hreads).quiet, ?_⟩
      rcases op <;> first | exact hreads.elim | exact id
  have hrest : Only (fun op : Op => op.Quiet ∧ ¬ op.WritesSecret) (do
      let defaults ← s.enforceScopes kc r.id .default s.defaultClientScopes
      let optionals ← s.enforceScopes kc r.id .optional s.optionalClientScopes
      return exported || defaults || optionals : Call Bool).run :=
    only_run_bind (hscopes .default) fun _ => only_run_bind (hscopes .optional) fun _ => trivial
  refine wp_bind.mpr (wp_mono (fun _ v hv _ _ => ?_) (wp_scopes_kept hrest t kc (.client s)))
  exact ⟨hv.1.trans htarget, hwritten.congr rfl hv.2⟩

end Outbound

/-! ### A pass -/

/-- The entry for the inbound value stays, also where it is an entry of the output Secret. -/
theorem Written.inbound {w t : World} {ns name key value name' key' : String}
    (h : Written w t ns name key value) (hw : w.secretEntry ns name' key' = some value) :
    t.secretEntry ns name' key' = some value := by
  by_cases hsame : name' = name ∧ key' = key
  · obtain ⟨rfl, rfl⟩ := hsame
    rcases h.kept with hwritten | hkept
    · exact hwritten
    · exact hkept.trans hw
  · rw [h.others ns name' key' fun hall => hsame hall.2]
    exact hw

theorem Completes.secretsAgree {w u v t : World} {kc : Conn} {obj : ManagedObject} {s : ClientSpec}
    {selector output : SecretKeySelector}
    (h : Completes Faulty Resource.report kc obj w u v t) (hspec : obj.spec = .client s)
    (href : s.secretRef = some selector) (houtput : s.secretOutput = some output)
    (hmask : ∀ r, w.target kc (.client s) = some r → r.clientSecret ≠ keycloakMaskedValue) :
    SecretsAgree w t kc obj.ns s selector output := by
  obtain ⟨⟨huntouched, payload, r, hbuilds, htarget, happlied⟩, hsettled, hservers, hsecrets⟩ := h
  obtain ⟨remote, mem, changed, hremote, steps, hexec⟩ := hsettled
  obtain ⟨value, hinbound, hpayload⟩ := hbuilds.secret hspec href
  have hremote := hremote r htarget
  rw [hspec] at htarget happlied hexec
  have hsecret : r.clientSecret = value := happlied.clientSecret hpayload hmask
  obtain ⟨htarget', hwritten⟩ :=
    (wp_sound (wp_clientPostApply houtput htarget hremote) hexec).2 _ rfl changed rfl
  have hwritten : Written w t obj.ns output.name output.entry value :=
    hsecret ▸ hwritten.congr huntouched.secrets.symm hsecrets
  refine ⟨value, r, hinbound, hwritten.inbound hinbound, ?_, hsecret, hwritten.present,
    hwritten.holds, fun key hkey => hwritten.others _ _ key fun hall => hkey hall.2.2⟩
  rw [← htarget']
  unfold World.target
  rw [hservers]

/-! ### Every run -/

/-- The client of the custom resource has the mask for a secret. -/
def World.masked (w : World) : Bool :=
  w.object.any fun obj =>
    match w.connections obj.ns obj.spec.connectionName with
    | .ok kc => (w.target kc obj.spec).any fun r => decide (r.clientSecret = keycloakMaskedValue)
    | .error _ => false

/-- A successful pass over a client with both Secrets makes the three agree. -/
theorem Engine.exec_secretsAgree {e : Engine} {u v : World} {log : Log}
    {pass : Pass} {obj : ManagedObject} {s : ClientSpec} {selector output : SecretKeySelector}
    (hexec : Exec Faulty e.controllerReconcile.run u log v (some (.ok (some pass))))
    (hfinalized : pass.finalized = true) (hobject : u.object = some obj)
    (hspec : obj.spec = .client s) (href : s.secretRef = some selector)
    (houtput : s.secretOutput = some output) (hvalue : u.masked = false) :
    ∃ kc, u.connections obj.ns s.keycloakRef = .ok kc ∧
      SecretsAgree u v kc obj.ns s selector output := by
  obtain ⟨obj', kc, u', v', hobject', hconnection, hcompletes⟩ :=
    e.exec_completed (fun obj _ => showing_report (fun _ _ _ _ h => h) obj.spec) id hexec hfinalized
  cases hobject.symm.trans hobject'
  rw [hspec] at hconnection
  refine ⟨kc, hconnection, hcompletes.secretsAgree hspec href houtput ?_⟩
  intro r htarget hmask
  simp [World.masked, hobject, hconnection, hspec, htarget, hmask] at hvalue

/-- If the pass succeeds and is over a client with both Secrets, the three places agree
    after it. -/
def AgreesAfter (pass : PassEpisode World) : Prop :=
  ∀ done obj s selector output, pass.result = some (.ok (some done)) → done.finalized = true →
    pass.before.object = some obj → obj.spec = .client s → s.secretRef = some selector →
    s.secretOutput = some output →
    ∃ kc, pass.before.connections obj.ns s.keycloakRef = .ok kc ∧
      SecretsAgree pass.before pass.after kc obj.ns s selector output

/-- A client that takes its secret from `vault` and hands it out in `app`. -/
def mirroredClient : Spec :=
  .client { keycloakRef := "main", realm := "demo", clientId := "portal"
            secretRef := some { name := "vault" }, secretOutput := some { name := "app", key := "pw" }
            fields := ⟨∅, Fields.typed_empty _⟩ }

/-- Its client has another secret, and the output Secret an outdated value and one more
    entry. -/
def mirroredPortal : World :=
  let world := World.around { clientObject "portal" with spec := mirroredClient }
    (clientServer ⟨[{ markedPortal with rep := markedPortal.rep.put "secret" (.str "old") }],
      by decide, by decide⟩)
  (world.setSecret ⟨"apps", "vault", .ofList [( clientSecretKey, "new")], [], 0⟩).setSecret
    ⟨"apps", "app", .ofList [("pw", "stale"), ("user", "portal")], ["uid-2"], 0⟩

/-- The same after a pass, with an empty inbound value. -/
def emptiedPortal : World :=
  mirroredPortal.afterPass.setSecret ⟨"apps", "vault", .ofList [( clientSecretKey, "")], [], 0⟩

end KeycloakOperator
