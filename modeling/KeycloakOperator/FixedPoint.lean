import KeycloakOperator.NextPass
import KeycloakOperator.Resumption
import KeycloakOperator.Settling
import KeycloakOperator.Submissions

/-!
# The fixed point of the reconcile loop

Calls succeed and nobody else writes.  After a pass that ends in `finalize` the server, the
annotation and the output Secret are as the spec asks for (`World.AtRest`): the next pass writes
to the status only, where it replaces the message of the two conditions and the observed
generation.  Every pass after that one leaves the world as it is.
-/

namespace KeycloakOperator

open Prog

/-! ### The body of the next pass -/

section Body

variable {obj : ManagedObject} {kc : Conn} {w u v t : World} {r : Resource} {inj : Injection}
  {s : ClientSpec} {selector output : SecretKeySelector} {value : String}

theorem Op.Reads.not_writesSecret {op : Op} (h : op.Reads) : ¬ op.WritesSecret := by
  rcases op <;> first | exact h.elim | exact fun h => h

/-- Unless a client has an output Secret, a successful pass writes no Secret. -/
theorem Completes.secrets_eq (h : Completes Reliable Resource.report kc obj w u v t)
    (houtput : obj.spec.outputName = none) : t.secrets = w.secrets := by
  obtain ⟨⟨huntouched, -⟩, ⟨remote, mem, changed, -, steps, hexec⟩, -, hsecrets⟩ := h
  have honly : Only (fun op : Op => ¬ op.WritesSecret) (obj.spec.driver.postApply kc obj remote) := by
    refine only_postApply_exports (fun op hop => hop.not_writesSecret) ?_ ?_ obj
    · intro client hspec hsome
      rw [hspec, Spec.outputName, Option.map_eq_none_iff] at houtput
      rw [houtput] at hsome
      cases hsome
    · rintro op ⟨_, _, _, rfl, -⟩ h
      exact h
  have hkept := hexec.kept World.secrets fun step hstep =>
    reliable_secrets (hexec.only honly step hstep) (hexec.env_of_mem step hstep)
  rw [hsecrets, hkept, huntouched.secrets]

theorem World.Sources.congr (h : w.Sources obj inj) (hsecrets : t.secrets = w.secrets) :
    t.Sources obj inj := by
  obtain ⟨secret, hserved, rfl, hdata⟩ := h
  exact ⟨secret, hserved, rfl, by rwa [hsecrets]⟩

theorem World.sources_client (hspec : obj.spec = .client s) (href : s.secretRef = some selector)
    (hentry : t.secretEntry obj.ns selector.name selector.entry = some value) :
    t.Sources obj (.secret value) := by
  obtain ⟨secret, hsecret, hvalue⟩ := Option.bind_eq_some_iff.mp hentry
  refine ⟨secret, ?_, ?_, ?_⟩
  · rw [hspec]
    intro selector' hselector'
    cases href.symm.trans hselector'
    exact ⟨value, hvalue⟩
  · have hvalue : secret.data.get (if selector.key = "" then clientSecretKey else selector.key) =
        some value := hvalue
    simp [hspec, Spec.injection, href, hvalue]
  · intro name hname
    obtain rfl : selector.name = name := by simpa [hspec, Spec.secretName, href] using hname
    rw [hsecret]
    rfl

/-- The inbound value is the only entry of the body that depends on the Secret. -/
theorem payloadDiffers_secret {kind : Kind} {value' : String} {remote effective : Object}
    (h : payloadDiffers remote (builtPayload kind (.secret value) effective) = false)
    (hvalue : EntryAgrees (.str value') (remote.get "secret")) :
    payloadDiffers remote (builtPayload kind (.secret value') effective) = false := by
  have hrest : ∀ value k, k ≠ "secret" → (builtPayload kind (.secret value) effective).get k =
      (applyAll kind.marker.toList effective).get k := by
    intro value k hk
    unfold builtPayload rewrites applyAll
    rw [List.foldl_append]
    exact Rewrite.get_apply_of_ne _ _ hk
  rw [payloadDiffers_eq_false_iff] at h ⊢
  intro k want hwant
  by_cases hk : k = "secret"
  · rw [hk, get_secret_builtPayload] at hwant
    cases hwant
    rw [hk]
    exact hvalue
  · rw [hrest value' k hk, ← hrest value k hk] at hwant
    exact h k want hwant

/-- A server that agrees with some value agrees with the one that it hands out. -/
theorem Resource.entryAgrees_clientSecret (h : EntryAgrees (.str value) (r.report.get "secret")) :
    EntryAgrees (.str r.clientSecret) (r.report.get "secret") := by
  have hreport : r.report.get "secret" = r.rep.get "secret" := r.get_report_of_ne (by decide)
  rcases entryAgrees_str h with hmask | hsame | ⟨rfl, hmissing⟩
  · have hsecret : r.clientSecret = keycloakMaskedValue := by
      simp [Resource.clientSecret, stringField, ← hreport, hmask, JSON.asString]
    rw [hsecret, hmask]
    exact entryAgrees_refl _
  · have hsecret : r.clientSecret = value := by
      simp [Resource.clientSecret, stringField, ← hreport, hsame, JSON.asString]
    rwa [hsecret]
  · have hsecret : r.clientSecret = "" := by
      unfold Resource.clientSecret stringField
      rw [← hreport]
      rcases presentValue_eq_none.mp hmissing with hnone | hnone <;> rw [hnone] <;> rfl
    rwa [hsecret]

/-- Handing out the secret may overwrite the inbound value, but not with a value that the server
    would have to learn. -/
theorem Written.agrees (h : Written w t obj.ns output.name output.entry r.clientSecret)
    (hentry : w.secretEntry obj.ns selector.name selector.entry = some value)
    (hagrees : EntryAgrees (.str value) (r.report.get "secret")) :
    ∃ value', t.secretEntry obj.ns selector.name selector.entry = some value' ∧
      EntryAgrees (.str value') (r.report.get "secret") := by
  by_cases hsame : selector.name = output.name ∧ selector.entry = output.entry
  · rcases h.kept with hwritten | hkept
    · refine ⟨r.clientSecret, ?_, Resource.entryAgrees_clientSecret hagrees⟩
      rw [hsame.1, hsame.2, hwritten]
    · refine ⟨value, ?_, hagrees⟩
      rw [hsame.1, hsame.2, hkept, ← hsame.1, ← hsame.2, hentry]
  · refine ⟨value, ?_, hagrees⟩
    rw [h.others obj.ns selector.name selector.entry fun hall => hsame hall.2, hentry]

theorem Completes.written (h : Completes Reliable Resource.report kc obj w u v t)
    (htarget : u.target kc obj.spec = some r) (hspec : obj.spec = .client s)
    (houtput : s.secretOutput = some output) :
    Written w t obj.ns output.name output.entry r.clientSecret := by
  obtain ⟨⟨huntouched, -⟩, ⟨remote, mem, changed, hremote, steps, hexec⟩, -, hsecrets⟩ := h
  have hremote := hremote r htarget
  rw [hspec] at htarget hexec
  obtain ⟨-, hwritten⟩ := (wp_sound (wp_clientPostApply houtput htarget hremote)
    (hexec.mono faulty_of_reliable)).2 _ rfl changed rfl
  exact hwritten.congr huntouched.secrets.symm hsecrets

/-- **The body of the next pass** agrees with what the server has. -/
theorem Completes.agrees (h : Completes Reliable Resource.report kc obj w u v t)
    (htarget : u.target kc obj.spec = some r) :
    ∃ inj, t.Sources obj inj ∧
      payloadDiffers r.report (builtPayload obj.spec.kind inj obj.spec.representation) = false := by
  obtain ⟨payload, r', ⟨effective, inj, heffective, hsources, rfl⟩, htarget', happlied⟩ := h.placed.applied
  cases htarget.symm.trans htarget'
  have hsame : payloadDiffers r.report
      (builtPayload obj.spec.kind inj obj.spec.representation) = false := by
    refine payloadDiffers_eq_false_iff.mpr fun k want hwant => ?_
    exact happlied.agrees (get_builtPayload_recorded heffective hwant) (builtPayload_proper hwant)
      fun r _ => rfl
  rcases houtput : obj.spec.outputName with _ | name
  · exact ⟨inj, hsources.congr (h.secrets_eq houtput), hsame⟩
  -- a client with an output Secret
  rcases hspec : obj.spec with s | s | s | s | s | s <;> rw [hspec] at houtput
  case client =>
    obtain ⟨output, houtput, -⟩ := Option.map_eq_some_iff.mp houtput
    have hwritten := h.written htarget hspec houtput
    rcases href : s.secretRef with _ | selector
    · have hname : obj.spec.secretName = none := by simp [hspec, Spec.secretName, href]
      obtain rfl := hsources.unique (World.sources_nothing hname)
      rw [← hspec]
      exact ⟨.nothing, World.sources_nothing hname, hsame⟩
    · obtain ⟨value, hvalue, rfl⟩ := hsources.client hspec href
      have hagrees := payloadDiffers_eq_false_iff.mp hsame "secret" _ (get_secret_builtPayload _ _ _)
      obtain ⟨value', hvalue', hagrees'⟩ := hwritten.agrees hvalue hagrees
      rw [← hspec]
      exact ⟨.secret value', World.sources_client hspec href hvalue',
        payloadDiffers_secret hsame hagrees'⟩
  all_goals cases houtput

end Body

/-! ### The status after a pass at rest -/

/-- What a pass that finds nothing to do says of the resource. -/
def ManagedObject.matching (obj : ManagedObject) (type : ConditionType) (now : Nat) : Condition :=
  ⟨type, .true, obj.generation, .succeeded, "Server state matches spec", now⟩

/-- The conditions after such a pass, which reads the time twice. -/
def ManagedObject.matched (obj : ManagedObject) (ready synced : Nat) (conditions : List Condition) :
    List Condition :=
  setStatusCondition (obj.matching .synced synced)
    (setStatusCondition (obj.matching .ready ready) conditions)

/-- The custom resource after such a pass. -/
def ManagedObject.rested (obj : ManagedObject) (ready synced : Nat) : ManagedObject :=
  { obj with status :=
      { conditions := obj.matched ready synced obj.status.conditions
        observedGeneration := obj.generation
        secretName := obj.exported.status.secretName } }

section Status

variable {obj : ManagedObject} {w : World} {guard : Op → World → Prop}

/-- **A second pass at rest** changes nothing of the custom resource. -/
theorem ManagedObject.rested_rested (obj : ManagedObject) (ready synced ready' synced' : Nat) :
    (obj.rested ready synced).rested ready' synced' = obj.rested ready synced := by
  have hconditions : obj.matched ready' synced' (obj.matched ready synced obj.status.conditions) = _ :=
    obj.told_told ready synced ready' synced' obj.status.conditions
  have hname : (obj.rested ready synced).exported.status.secretName =
      obj.exported.status.secretName := by
    change obj.spec.outputName.getD (obj.spec.outputName.getD _) = obj.spec.outputName.getD _
    rcases obj.spec.outputName <;> rfl
  unfold ManagedObject.rested at hname ⊢
  rw [hname]
  exact congrArg (fun conditions => { obj with status :=
    ⟨conditions, obj.generation, obj.exported.status.secretName⟩ }) hconditions

/-- The end of a pass that found nothing to do. -/
theorem wp_succeed_rested {e : Engine} (hreports : ∀ op t, op.Reports → guard op t)
    (hobject : w.object = some obj) :
    wp Reliable guard (e.succeed { obj with status :=
        ⟨obj.status.conditions, obj.generation, obj.exported.status.secretName⟩ } obj false)
      (fun _ t => ∃ ready synced, t = { w with object := some (obj.rested ready synced) }) w := by
  refine wp_bind.mpr (wp_setConditions_stores (fun op t hop _ => hreports op t hop)
    hobject rfl fun ready synced => ?_)
  exact ⟨ready, synced, rfl⟩

end Status

/-! ### A pass at rest -/

/-- The custom resource, its resource and what belongs to it are as a successful pass left them. -/
structure World.AtRest (w : World) (kc : Conn) (obj : ManagedObject) (r : Resource) : Prop where
  engages : w.Engages kc obj
  recorded : obj.lastApplied = .marshalled obj.spec.representation
  policy : obj.spec.adoption ≠ .failIfExists
  finds : w.Finds kc obj.spec r
  agrees : ∃ payload, w.Builds obj payload ∧ payloadDiffers r.report payload = false
  settled : obj.spec.Settled kc obj r w
  named : obj.spec.ClientsNamed (w.servers kc.server)

/-- The operation writes neither to a server nor to a Secret. -/
def Op.Inert (op : Op) : Prop := op.LeavesServers ∧ ¬ op.WritesSecret

theorem Op.Reads.inert {op : Op} (h : op.Reads) : op.Inert := by
  refine ⟨?_, h.not_writesSecret⟩
  rcases op <;> first | exact h.elim | exact h

theorem Op.Reports.inert {op : Op} (h : op.Reports) : op.Inert := by
  rcases op <;> first | exact h.elim | exact ⟨trivial, fun h => h⟩

theorem Op.Notes.inert {op : Op} (h : op.Notes) : op.Inert := by
  rcases op <;> first | exact h.elim | exact ⟨trivial, fun h => h⟩

namespace World.AtRest

variable {e : Engine} {kc : Conn} {obj : ManagedObject} {r : Resource} {w : World}

theorem managed (h : w.AtRest kc obj r) : Engine.managed obj.spec.driver obj r.report = true := by
  simp [Engine.managed, h.recorded]

theorem admits (h : w.AtRest kc obj r) : obj.Admits r := ⟨h.policy, .inl h.managed⟩

theorem not_updates (h : w.AtRest kc obj r) {payload : Object} (hbuilds : w.Builds obj payload) :
    ¬ obj.Updates r payload := by
  obtain ⟨payload', hbuilds', hagrees⟩ := h.agrees
  obtain rfl := hbuilds.unique hbuilds'
  rintro (hforeign | hdiffers)
  · cases hforeign.symm.trans h.managed
  · cases hagrees.symm.trans hdiffers

theorem not_refuses (h : w.AtRest kc obj r) {reason : Reason} {message : String} :
    ¬ w.Refuses kc obj reason message := by
  rintro (hshielded | ⟨-, hmalformed⟩ | ⟨-, -, hpolicy⟩ | ⟨-, hfound, -, hforeign⟩)
  · cases h.engages.admitted.symm.trans hshielded
  · rw [h.recorded, effectivePayload_recorded] at hmalformed
    cases hmalformed
  · exact h.policy hpolicy
  · rw [h.finds.unique hfound] at h
    exact hforeign h.admits

/-- `PostApply` and the end of the pass. -/
theorem wp_settle (h : w.AtRest kc obj r) :
    wp Reliable (fun op _ => op.Inert)
      (e.settle obj.spec.driver kc obj obj r.report (e.afterEnforce obj false))
      (fun _ t => ∃ ready synced, t = { w with object := some (obj.rested ready synced) }) w := by
  have hidles := wp_reads_kept (h.settled.idles rfl h.finds.1 h.named)
  refine Engine.wp_settle_of (wp_mono ?_ (wp_guard_mono (fun op _ hop => hop.1.inert) hidles))
  rintro _ t ⟨rfl, rfl⟩
  exact Engine.wp_finalize_of
    (fun _ => wp_succeed_rested (fun op _ hop => hop.inert) h.engages.object)
    fun hstale => absurd h.recorded hstale

theorem course (h : w.AtRest kc obj r) : Course e Reliable False (fun op _ => op.Inert) kc obj w
    (fun _ t => ∃ ready synced, t = { w with object := some (obj.rested ready synced) }) where
  reads _ _ hop := hop.inert
  notes _ _ hop _ := hop.inert
  interrupted houtage := houtage.elim
  refused hrefuses := absurd hrefuses h.not_refuses
  withheld hwithholds := by
    obtain ⟨payload, hbuilds, -⟩ := h.agrees
    exact absurd hwithholds hbuilds.not_withholds
  submits _ _ hmisses := absurd hmisses h.finds.not_misses
  conflicted _ _ hmisses _ _ := absurd hmisses h.finds.not_misses
  created _ _ habsent _ _ _ := by cases habsent.symm.trans h.finds.1
  revises _ hbuilds hfinds _ hupdates := by
    rw [← h.finds.unique hfinds] at hupdates
    exact absurd hupdates (h.not_updates hbuilds)
  updated _ hbuilds hfinds _ hupdates _ _ := by
    rw [← h.finds.unique hfinds] at hupdates
    exact absurd hupdates (h.not_updates hbuilds)
  agreed _ _ hfinds _ _ := by
    rw [← h.finds.unique hfinds]
    exact h.wp_settle

/-- **A pass at rest** writes to the status of the custom resource only. -/
theorem wp_pass (h : w.AtRest kc obj r) :
    wp Reliable (fun op _ => op.Inert) e.controllerReconcile.run
      (fun _ t => ∃ ready synced, t = { w with object := some (obj.rested ready synced) }) w := by
  refine wp_mono ?_ (h.course.wp_pass orderly_reliable h.engages.attends ⟨trivial, fun h => h⟩
    ⟨trivial, fun h => h⟩ fun _ _ _ => ⟨trivial, fun h => h⟩)
  rintro result t ⟨pass, -, ht⟩
  exact ht

/-- The world is at rest after the pass as well. -/
theorem rested (h : w.AtRest kc obj r) (ready synced : Nat) :
    World.AtRest { w with object := some (obj.rested ready synced) } kc (obj.rested ready synced) r where
  engages := by
    refine ⟨rfl, h.engages.live, h.engages.finalizer, h.engages.connection, ?_⟩
    refine Eq.trans ?_ h.engages.admitted
    change obj.spec.driver.protected? (obj.rested ready synced) = obj.spec.driver.protected? obj
    rcases obj.spec with s | s | s | s | s | s <;> rfl
  recorded := h.recorded
  policy := h.policy
  finds := h.finds
  agrees := h.agrees
  settled := by
    have hsettled : obj.spec.Settled kc (obj.rested ready synced) r
        { w with object := some (obj.rested ready synced) } := by
      apply Spec.Settled.congr h.settled <;> rfl
    exact hsettled
  named := h.named

end World.AtRest

/-! ### Other collections -/

/-- The operation writes to no other collection of a server. -/
def Op.Within (place : Place) : Op → Prop
  | .admin _ request => request.method = .get ∨
      ((∀ other, request.endpoint.collection = some other → other = place) ∧
        ∀ other address, request.endpoint.item = some (other, address) → other = place)
  | _ => True

section Elsewhere

variable {e : Engine} {obj : ManagedObject} {w w' t : World} {place other : Place}

theorem Server.serve_elsewhere {server : Server} {label : String} {method : Method}
    {endpoint : Endpoint} {body : Body} (hother : other ≠ place)
    (hcollection : ∀ other, endpoint.collection = some other → other = place)
    (hitem : ∀ other address, endpoint.item = some (other, address) → other = place) :
    (server.serve label method endpoint body).2.resources other = server.resources other := by
  have hset : ∀ c, (server.setResources place c).resources other = server.resources other :=
    fun c => Function.update_of_ne hother _ _
  have hreplace : ∀ c, (server.replace (server.setResources place) c).2.resources other =
      server.resources other := by
    rintro (_ | c)
    · rfl
    · exact hset c
  have hsub : ∀ method, (server.writeSub method endpoint body).2.resources other =
      server.resources other := fun method => congrFun (server.writeSub_resources _ _ _) other
  rcases method <;> unfold serve <;> dsimp only
  case post =>
    split
    case h_1 place' payload hplace =>
      obtain rfl := hcollection place' hplace
      unfold create
      split
      · rfl
      · exact hreplace _
    case h_2 => exact hsub _
  case put =>
    split
    case h_1 place' address payload hplace =>
      obtain rfl := hitem place' address hplace
      unfold put
      split
      · rfl
      · exact hreplace _
    case h_2 => exact hsub _
  case delete =>
    split
    case h_1 place' address hplace =>
      obtain rfl := hitem place' address hplace
      unfold delete
      split
      · rfl
      · exact hset _
    case h_2 => exact hsub _

theorem reliable_elsewhere {op : Op} {answer : op.Answer} (hother : other ≠ place)
    (hop : op.Within place) (h : Reliable op w answer w') (name : String) :
    (w'.servers name).resources other = (w.servers name).resources other := by
  by_cases hleaves : op.LeavesServers
  · rw [reliable_servers hleaves h]
  rcases op <;> try exact absurd trivial hleaves
  case admin kc request =>
    obtain ⟨hcollection, hitem⟩ := hop.resolve_left hleaves
    rw [(reliable_admin h).2, World.admin_snd]
    by_cases hname : name = kc.server
    · rw [hname, World.servers_setServer]
      exact Server.serve_elsewhere hother hcollection hitem
    · exact congrArg (fun server : Server => server.resources other) (Function.update_of_ne hname _ _)

theorem Spec.within_item (s : Spec) (kc : Conn) (id : String) (method : Method) (body : Body) :
    Op.Within s.place (.admin kc ⟨method, s.itemEndpoint id, body, .nothing⟩) := by
  refine .inr ⟨fun other hother => ?_, fun other address hother => ?_⟩
  · cases (s.collection_itemEndpoint id).symm.trans hother
  · cases (s.item_itemEndpoint id).symm.trans hother
    rfl

theorem Spec.within_collection (s : Spec) (kc : Conn) (method : Method) (body : Body) :
    Op.Within s.place (.admin kc ⟨method, s.collectionEndpoint, body, .nothing⟩) := by
  refine .inr ⟨fun other hother => ?_, fun other address hother => ?_⟩
  · cases s.collection_collectionEndpoint.symm.trans hother
    rfl
  · cases s.item_collectionEndpoint.symm.trans hother

/-- A pass writes to no other collection than that of its resource. -/
theorem Engine.only_reconcile_within (e : Engine) (obj : ManagedObject) :
    Only (Op.Within obj.spec.place) (e.reconcile obj) := by
  have hquiet : ∀ op : Op, op.Quiet → op.Within obj.spec.place := by
    intro op hop
    rcases op <;> try trivial
    rcases hop with hget | ⟨hitem, hcollection⟩
    · exact .inl hget
    · exact .inr (by simp [hitem, hcollection])
  have hreads : ∀ op : Op, op.Reads → op.Within obj.spec.place :=
    fun op hop => hquiet op (silent_reads op hop).quiet
  have hreports : ∀ op : Op, op.Remarks → op.Within obj.spec.place := by
    intro op hop
    rcases op <;> first | exact trivial | exact hop.elim
  refine e.only_reconcile (fun _ _ => trivial) (e.only_reconcileWith hreports (fun _ => trivial)
    (fun _ => trivial) ?_ ?_)
  · exact fun _ _ kc => only_delete hreads fun id => obj.spec.within_item kc id _ _
  · intro _ _ kc
    refine e.only_apply hreads ?_ hreports (fun _ _ => trivial) ?_ ?_ ?_
    · intro op hop
      rcases op <;> first | exact trivial | exact hop.elim
    · exact fun payload _ => obj.spec.within_collection kc _ _
    · exact fun id remote payload _ => obj.spec.within_item kc id _ _
    · exact fun id op henforces => hquiet op henforces.quiet

theorem Engine.exec_elsewhere {steps : Log}
    {result : Option (Except Err (Option Pass))} (hobject : w.object = some obj)
    (hexec : Exec Reliable e.controllerReconcile.run w steps t result)
    (hother : other ≠ obj.spec.place) (name : String) :
    (t.servers name).resources other = (w.servers name).resources other := by
  rcases e.exec_pass hexec with ⟨hsteps, -⟩ | ⟨obj', w', rest, reached, hstep, -, hrest, -⟩
  · refine hexec.kept (fun t => (t.servers name).resources other) fun step hstep => ?_
    refine reliable_elsewhere hother ?_ (hexec.env_of_mem step hstep) name
    rw [hsteps step hstep]
    trivial
  · obtain ⟨_, _, heq⟩ := hstep
    simp only [World.handle, hobject] at heq
    cases heq
    refine hrest.kept (fun t => (t.servers name).resources other) fun step hstep => ?_
    exact reliable_elsewhere hother (hrest.only (e.only_reconcile_within obj) step hstep)
      (hrest.env_of_mem step hstep) name

end Elsewhere

/-! ### After a successful pass -/

section Successful

variable {e : Engine} {kc : Conn} {obj : ManagedObject} {w u v t : World} {r : Resource}

theorem Spec.ClientsNamed.congr {s : Spec} {server server' : Server} (h : s.ClientsNamed server)
    (hresources : ∀ realm, server'.resources ⟨.client, realm⟩ = server.resources ⟨.client, realm⟩) :
    s.ClientsNamed server' := by
  intro g hg client hclient
  rw [hresources] at hclient
  exact h g hg client hclient

/-- A pass over a group leaves the clients alone. -/
theorem Engine.exec_clientsNamed {steps : Log}
    {result : Option (Except Err (Option Pass))} (hobject : w.object = some obj)
    (hexec : Exec Reliable e.controllerReconcile.run w steps t result) {name : String}
    (h : obj.spec.ClientsNamed (w.servers name)) : obj.spec.ClientsNamed (t.servers name) := by
  intro g hg client hclient
  have hother : (⟨.client, g.realm⟩ : Place) ≠ obj.spec.place := by
    rw [hg]
    intro h
    cases h
  rw [e.exec_elsewhere hobject hexec hother] at hclient
  exact h g hg client hclient

/-- What `PostApply` looks after is as the spec asks for. -/
theorem Completes.settles (h : Completes Reliable Resource.report kc obj w u v t)
    (htarget : u.target kc obj.spec = some r)
    (hclients : obj.spec.ClientsNamed (t.servers kc.server)) : obj.spec.Settled kc obj r t := by
  obtain ⟨-, ⟨remote, mem, changed, hremote, steps, hexec⟩, hservers, hsecrets⟩ := h
  have honly : Only Op.Quiet (obj.spec.driver.postApply kc obj remote) :=
    only_postApply (fun op h => (silent_reads op h).quiet)
      (fun op h => Op.Silent.quiet (.inr (.inl h))) (fun _ h => h.quiet) obj
  have hresources : (v.servers kc.server).resources = (u.servers kc.server).resources :=
    hexec.kept (fun t => (t.servers kc.server).resources) fun step hstep =>
      reliable_resources (hexec.only honly step hstep) (hexec.env_of_mem step hstep) _
  have hclients : obj.spec.ClientsNamed (u.servers kc.server) := by
    refine hclients.congr fun realm => ?_
    rw [hservers, hresources]
  have hsettled := (wp_sound (wp_postApply_settles htarget (hremote r htarget) hclients) hexec).2
    _ rfl changed rfl
  exact hsettled.congr hservers hsecrets rfl rfl

theorem Spec.Settled.id_ne {s : Spec} (h : s.Settled kc obj r w) (hgroup : s.kind = .group) :
    r.id ≠ "" := by
  rcases s with s | s | s | s | s | s
  case group => exact h.1
  all_goals cases hgroup

/-- **After a successful pass** the world is at rest. -/
theorem Engine.exec_atRest {steps : Log} {pass : Pass}
    (hobject : w.object = some obj) (hpolicy : obj.spec.adoption ≠ .failIfExists)
    (hclients : ∀ kc, w.connections obj.ns obj.spec.connectionName = .ok kc →
      obj.spec.ClientsNamed (w.servers kc.server))
    (hexec : Exec Reliable e.controllerReconcile.run w steps t (some (.ok (some pass))))
    (hfinalized : pass.finalized = true) : ∃ kc stored r, t.AtRest kc stored r := by
  obtain ⟨obj', kc, u, v, hobject', hconnection, hcompletes⟩ :=
    e.exec_completed (fun obj _ => showing_report faulty_of_reliable obj.spec) (fun h => .inl h)
      hexec hfinalized
  cases hobject.symm.trans hobject'
  obtain ⟨status, hstored⟩ : t.Records obj := Engine.exec_successfully hobject (fun h => h)
    (wp_reconcile_records (fun _ h => h) reliable_object hobject) hexec hfinalized
  obtain ⟨hlive, hfinalizer, hadmitted⟩ := Engine.exec_successfully hobject (fun h => h)
    wp_reconcile_admitted hexec hfinalized
  have hconnections : t.connections = w.connections :=
    hexec.kept World.connections fun step hstep => reliable_connections (hexec.env_of_mem step hstep)
  have hclients := Engine.exec_clientsNamed hobject hexec (hclients kc hconnection)
  obtain ⟨payload, r, -, htarget, -⟩ := hcompletes.placed.applied
  obtain ⟨inj, hsources, hagrees⟩ := hcompletes.agrees htarget
  have hsettled := hcompletes.settles htarget hclients
  have htarget' := hcompletes.target_eq fun hquiet hstep => reliable_quiet hquiet hstep kc obj.spec
  refine ⟨kc, _, r, ⟨hstored, hlive, hfinalizer, ?_, ?_⟩, rfl, hpolicy, ⟨?_, ?_⟩, ?_, ?_, hclients⟩
  · rw [hconnections]
    exact hconnection
  · refine Eq.trans ?_ hadmitted
    rcases obj.spec with s | s | s | s | s | s <;> rfl
  · exact htarget'.trans htarget
  · exact hsettled.id_ne
  · exact ⟨_, ⟨_, inj, effectivePayload_recorded _, hsources, rfl⟩, hagrees⟩
  · apply Spec.Settled.congr hsettled <;> rfl

/-- A complete pass, in which all calls succeed, leads from one world to the other. -/
def Engine.Leads (e : Engine) (w t : World) : Prop :=
  ∃ steps result, Exec Reliable e.controllerReconcile.run w steps t (some result)

theorem World.AtRest.leads (h : w.AtRest kc obj r) (hleads : e.Leads w t) :
    ∃ ready synced, t = { w with object := some (obj.rested ready synced) } := by
  obtain ⟨steps, result, hexec⟩ := hleads
  exact (wp_sound h.wp_pass hexec).2 _ rfl

/-- The pass after a pass at rest changes nothing. -/
theorem World.AtRest.leads_twice (h : w.AtRest kc obj r) (hfirst : e.Leads w u)
    (hsecond : e.Leads u t) : t = u := by
  obtain ⟨ready, synced, rfl⟩ := h.leads hfirst
  obtain ⟨ready', synced', rfl⟩ := (h.rested ready synced).leads hsecond
  rw [obj.rested_rested]

end Successful

/-- **The reconcile loop reaches a fixed point.**  After a pass that ends in `finalize`, the next
    pass writes neither to a server nor to a Secret, and from the pass after that on, nothing
    changes any more.  On the server of a group, every client has a client ID. -/
theorem reconcile_fixed_point (e : Engine) {w t : World} {obj : ManagedObject}
    {steps : List (Step operations World)} {pass : Pass} (hobject : w.object = some obj)
    (hpolicy : obj.spec.adoption ≠ .failIfExists)
    (hclients : ∀ kc, w.connections obj.ns obj.spec.connectionName = .ok kc →
      obj.spec.ClientsNamed (w.servers kc.server))
    (hexec : Exec Reliable e.controllerReconcile.run w steps t (some (.ok (some pass))))
    (hfinalized : pass.finalized = true) :
    (∀ next u result, Exec Reliable e.controllerReconcile.run t next u result →
      ∀ step ∈ next, step.op.LeavesServers ∧ ¬ step.op.WritesSecret) ∧
    ∀ u v, e.Leads t u → Relation.ReflTransGen e.Leads u v → v = u := by
  obtain ⟨kc, stored, r, hrest⟩ := Engine.exec_atRest hobject hpolicy hclients hexec hfinalized
  constructor
  · intro next u result hnext
    exact (wp_sound hrest.wp_pass hnext).1
  · intro u v hfirst hrun
    induction hrun with
    | refl => rfl
    | tail _ hlast ih =>
      rw [ih] at hlast
      exact hrest.leads_twice hfirst hlast

/-- The group has a realm role and a role of the client `api` that it is not to have. -/
def appointedStaff : World :=
  .around { clientObject "portal" with spec := .group staffGroup } staffServer

/-- The first pass creates the group and changes its roles. -/
theorem staff_comes_to_rest : ∃ pass, appointedStaff.passResult = some (.ok (some pass)) ∧
    pass.finalized = true ∧
    (∀ next u result, Exec Reliable (newEngine true 0).controllerReconcile.run
        appointedStaff.afterPass next u result →
      ∀ step ∈ next, step.op.LeavesServers ∧ ¬ step.op.WritesSecret) ∧
    ∀ u v, (newEngine true 0).Leads appointedStaff.afterPass u →
      Relation.ReflTransGen (newEngine true 0).Leads u v → v = u := by
  obtain ⟨pass, hresult, hfinalized⟩ : Succeeds appointedStaff.passResult :=
    succeeds_of_finalized (by decide +kernel)
  have hexec := appointedStaff.exec_pass
  rw [hresult] at hexec
  refine ⟨pass, hresult, hfinalized, ?_⟩
  refine reconcile_fixed_point _ rfl (by decide) ?_ hexec hfinalized
  rintro kc ⟨⟩ g ⟨⟩
  decide +kernel

end KeycloakOperator
