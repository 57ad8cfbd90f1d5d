import KeycloakOperator.Composites
import KeycloakOperator.Mappers
import KeycloakOperator.Secrets
import KeycloakOperator.StatusPersistence

/-!
# What `PostApply` leaves in place

Beside the representation of a resource, `PostApply` looks after what the server keeps apart from
it: the members of a role, the mappers of an identity provider, the mappings of a group, the
scopes of a client and the Secret that its secret is handed out in.  Once it has reported no error
these are as the spec asks for (`Spec.Settled`), and while they are, it only reads.
-/

namespace KeycloakOperator

open Prog

/-! ### Programs that only read -/

/-- The program reads, and comes back with this result. -/
def Idles (p : Action α) (a : α) (w : World) : Prop :=
  wp Reliable (fun op _ => op.Reads) p (fun result _ => result = a) w

/-- Reads leave the world as it is. -/
theorem wp_reads_kept {p : Action α} {post : α → World → Prop} {w : World}
    (h : wp Reliable (fun op _ => op.Reads) p post w) :
    wp Reliable (fun op t => op.Reads ∧ t = w) p (fun a t => post a t ∧ t = w) w := by
  induction p with
  | ret a => exact ⟨h, rfl⟩
  | call op next ih =>
    refine ⟨⟨h.1, rfl⟩, fun answer t hstep => ?_⟩
    obtain rfl := faulty_reads h.1 (faulty_of_reliable _ _ _ _ hstep)
    exact ih answer (h.2 answer t hstep)

theorem Idles.wp_bind {p : Action α} {f : α → Action β} {a : α} {post : β → World → Prop} {w : World}
    (hp : Idles p a w) (hf : wp Reliable (fun op _ => op.Reads) (f a) post w) :
    wp Reliable (fun op _ => op.Reads) (p >>= f) post w := by
  have hkept := wp_guard_mono (fun op t hop => hop.1) (wp_reads_kept hp)
  refine Prog.wp_bind.mpr (wp_mono ?_ hkept)
  rintro _ _ ⟨rfl, rfl⟩
  exact hf

theorem Idles.wp_run_bind {p : Call α} {f : α → Call β} {a : α} {post : Except Err β → World → Prop}
    {w : World} (hp : Idles p.run (.ok a) w)
    (hf : wp Reliable (fun op _ => op.Reads) (f a).run post w) :
    wp Reliable (fun op _ => op.Reads) (p >>= f).run post w :=
  hp.wp_bind hf

/-! ### Members of a role -/

/-- The roles that a composite role is to include. -/
def RealmRoleSpec.included (s : RealmRoleSpec) : Option RoleComposites :=
  if s.composite = some true then s.composites else none

/-- The roles that the spec asks for, as they are looked up. -/
def RealmRoleSpec.Desires (s : RealmRoleSpec) (server : Server) (reps : List Object) : Prop :=
  match s.included with
  | some c => c.Known server s.realm ∧ c.Found server s.realm reps
  | none => reps = []

/-- The members of the role are those of its spec. -/
def RoleSettled (s : RealmRoleSpec) (server : Server) : Prop :=
  ∃ reps, s.Desires server reps ∧
    roleIds (server.composites s.realm s.name) = roleIds reps

section Roles

variable {s : RealmRoleSpec} {kc : Conn} {w : World} {server server' : Server}
  {reps reps' : List Object}

theorem RealmRoleSpec.included_eq_some {c : RoleComposites} (h : s.included = some c) :
    s.composite = some true ∧ s.composites = some c := by
  unfold RealmRoleSpec.included at h
  split at h
  case isTrue htrue => exact ⟨htrue, h⟩
  case isFalse => cases h

theorem RealmRoleSpec.desiredComposites_of_none (h : s.included = none) :
    s.desiredComposites kc = return [] := by
  unfold RealmRoleSpec.desiredComposites
  split
  case h_1 c hcomposite hcomposites =>
    rw [RealmRoleSpec.included, if_pos hcomposite, hcomposites] at h
    cases h
  case h_2 => rfl

theorem RealmRoleSpec.Desires.congr (hsame : SameButMappings server server')
    (h : s.Desires server reps) : s.Desires server' reps := by
  unfold RealmRoleSpec.Desires at h ⊢
  rcases hincluded : s.included with _ | c <;> rw [hincluded] at h
  · exact h
  obtain ⟨⟨hroles, hclients⟩, ⟨hnamed, honly⟩⟩ := h
  simp only [← hsame.role] at hroles hnamed honly
  simp only [← hsame.client] at hclients
  exact ⟨⟨hroles, hclients⟩, ⟨hnamed, honly⟩⟩

theorem RealmRoleSpec.Desires.roleIds_eq (h : s.Desires server reps) (h' : s.Desires server reps') :
    roleIds reps = roleIds reps' := by
  unfold RealmRoleSpec.Desires at h h'
  rcases hincluded : s.included with _ | c <;> rw [hincluded] at h h'
  · rw [h, h']
  · ext id
    rw [h.2.mem_roleIds, h'.2.mem_roleIds]

/-- The lookup fails only if there is nothing that the spec could ask for. -/
theorem wp_desires {guard : Op → World → Prop} {post : Except Err (List Object) → World → Prop}
    (hreads : ∀ op, op.Reads → guard op w)
    (herr : (∀ reps, ¬ s.Desires (w.servers kc.server) reps) → ∀ err, post (.error err) w)
    (h : ∀ reps, s.Desires (w.servers kc.server) reps → post (.ok reps) w) :
    wp Reliable guard (s.desiredComposites kc).run post w := by
  unfold RealmRoleSpec.Desires at herr h
  rcases hincluded : s.included with _ | c <;> simp only [hincluded] at herr h
  · rw [RealmRoleSpec.desiredComposites_of_none hincluded]
    exact h [] rfl
  · obtain ⟨hcomposite, hcomposites⟩ := RealmRoleSpec.included_eq_some hincluded
    refine wp_desiredComposites serving_reliable hcomposite hcomposites hreads ?_ ?_
    · exact fun hunknown => herr fun reps hreps => hunknown hreps.1
    · exact fun reps hknown hfound => h reps ⟨hknown, hfound⟩

theorem wp_rolePostApply_settles : wp Reliable ⊤ (s.postApply kc).run
    (fun result t => ∀ changed, result = .ok changed → RoleSettled s (t.servers kc.server)) w := by
  have hreads : ∀ op : Op, op.Reads → True := fun _ _ => trivial
  refine wp_run_bind.mpr ?_
  refine wp_send serving_reliable.toReading.answering rfl trivial (fun err herrs => herrs.elim) ?_
  refine wp_run_bind.mpr (wp_desires hreads (fun _ err changed hok => by cases hok) ?_)
  intro desired hdesires
  refine wp_applyRoleDiff (.composites s.realm s.name) serving_reliable hreads
    (fun _ _ _ => trivial) (fun _ _ _ _ => trivial) (fun herrs => herrs.elim) ?_
  intro changed reps hids _ _ _
  rw [World.servers_setServer]
  refine ⟨desired, hdesires.congr (sameButMappings_setRoles _ _ _), ?_⟩
  exact (congrArg roleIds (Server.roles_setRoles_self _ (.composites s.realm s.name) reps)).trans
    (hids rfl)

theorem RoleSettled.idles (h : RoleSettled s (w.servers kc.server)) :
    Idles (s.postApply kc).run (.ok false) w := by
  obtain ⟨reps, hdesires, hmembers⟩ := h
  refine wp_run_bind.mpr ?_
  refine wp_send serving_reliable.toReading.answering rfl rfl (fun err herrs => herrs.elim) ?_
  refine wp_run_bind.mpr (wp_desires (fun op hop => hop) ?_ ?_)
  · exact fun hnone => absurd hdesires (hnone reps)
  · intro desired hdesires'
    refine wp_applyRoleDiff_idle (.composites s.realm s.name) serving_reliable (fun op hop => hop)
      ?_ rfl
    exact (hdesires'.roleIds_eq hdesires).trans hmembers.symm

end Roles

/-! ### The output Secret and the scopes of a client -/

/-- The Secret holds the value, and belongs to the custom resource. -/
def World.HandsOut (w : World) (obj : ManagedObject) (name key value : String) : Prop :=
  ∃ secret, w.secrets obj.ns name = some secret ∧ obj.uid ∈ secret.controllers ∧
    (secret.data.get key).getD "" = value

/-- The output Secret and the assigned scopes are those of the spec. -/
structure ClientSettled (s : ClientSpec) (kc : Conn) (obj : ManagedObject) (r : Resource) (w : World) :
    Prop where
  exported : ∀ output, s.secretOutput = some output →
    w.HandsOut obj output.name output.entry r.clientSecret
  assigned : ∀ list desired, s.scopes list = some desired →
    (w.servers kc.server).scopeNames list s.realm r.id = desired.toFinset

section Clients

variable {s : ClientSpec} {kc : Conn} {obj : ManagedObject} {r : Resource} {remote : Object}
  {w : World}

theorem World.handsOut_setSecret {secret : Secret} {key value : String} (hns : secret.ns = obj.ns)
    (howned : obj.uid ∈ secret.controllers) (hvalue : secret.data.get key = some value) :
    (w.setSecret secret).HandsOut obj secret.name key value := by
  refine ⟨secret, ?_, howned, by rw [hvalue]; rfl⟩
  rw [← hns]
  simp [World.setSecret]

theorem wp_ensureOutputSecret_handsOut (name key value : String) :
    wp Reliable ⊤ (ensureOutputSecret obj name key value).run
      (fun result t => t.servers = w.servers ∧
        ∀ changed, result = .ok changed → t.HandsOut obj name key value) w := by
  refine ⟨trivial, fun answer t hget => ?_⟩
  obtain ⟨_, _, heq⟩ := hget
  rcases hsecret : w.secrets obj.ns name with _ | secret <;>
    simp only [World.handle, World.getSecret, hsecret] at heq <;>
    obtain ⟨rfl, rfl⟩ := Prod.mk.inj heq <;> simp only [Prog.bind]
  · rw [if_pos trivial]
    refine ⟨trivial, fun answer u hcreate => ?_⟩
    obtain ⟨_, _, heq⟩ := hcreate
    simp only [World.handle, World.createSecret, hsecret] at heq
    obtain ⟨rfl, rfl⟩ := Prod.mk.inj heq
    refine ⟨rfl, fun _ _ => World.handsOut_setSecret rfl (List.mem_singleton_self _) ?_⟩
    simp [FiniteMap.ofList]
  · split
    · exact ⟨rfl, fun _ hok => by cases hok⟩
    case isFalse howned =>
      have howned : obj.uid ∈ secret.controllers := not_not.mp howned
      split
      case isTrue hsame => exact ⟨rfl, fun _ _ => ⟨secret, hsecret, howned, hsame⟩⟩
      case isFalse =>
        refine ⟨trivial, fun answer u hupdate => ?_⟩
        obtain ⟨_, _, heq⟩ := hupdate
        simp only [World.handle, World.updateSecret, hsecret] at heq
        obtain ⟨rfl, rfl⟩ := Prod.mk.inj heq
        refine ⟨rfl, fun _ _ => World.handsOut_setSecret rfl howned ?_⟩
        exact FiniteMap.get_put_self _ _ _

theorem World.HandsOut.idles {name key value : String} (h : w.HandsOut obj name key value) :
    Idles (ensureOutputSecret obj name key value).run (.ok false) w := by
  obtain ⟨secret, hsecret, howned, hvalue⟩ := h
  refine ⟨trivial, fun answer t hget => ?_⟩
  obtain ⟨_, _, heq⟩ := hget
  simp only [World.handle, World.getSecret, hsecret] at heq
  obtain ⟨rfl, rfl⟩ := Prod.mk.inj heq
  simp only [Prog.bind]
  rw [if_neg (not_not.mpr howned), if_pos hvalue]
  rfl

theorem wp_enforceScopes_settles (list : ScopeList) (id : String) :
    wp Reliable ⊤ (s.enforceScopes kc id list (s.scopes list)).run
      (fun result t => ∃ ids, t = w.setAssigned kc list s.realm id ids ∧
        ∀ changed, result = .ok changed → ∀ desired, s.scopes list = some desired →
          (t.servers kc.server).scopeNames list s.realm id = desired.toFinset) w := by
  rcases s.scopes list with _ | desired
  · exact ⟨_, World.setAssigned_self.symm, fun _ _ _ hsome => by cases hsome⟩
  · refine wp_guard_mono (fun _ _ _ => trivial)
      (wp_mono ?_ (wp_scopes_independent assigning_reliable w))
    rintro result t ⟨ids, ht, -, hnames⟩
    refine ⟨ids, ht, fun changed hok desired' hdesired => ?_⟩
    cases hdesired
    exact (hnames changed hok).1

theorem idles_enforceScopes {list : ScopeList} {id : String}
    (h : ∀ desired, s.scopes list = some desired →
      (w.servers kc.server).scopeNames list s.realm id = desired.toFinset) :
    Idles (s.enforceScopes kc id list (s.scopes list)).run (.ok false) w := by
  rcases hscopes : s.scopes list with _ | desired
  · rfl
  · refine wp_mono ?_ (wp_scopes_idle assigning_reliable (h desired hscopes))
    rintro result t (⟨err, herrs, -⟩ | hidle)
    · exact herrs.elim
    · exact hidle

theorem wp_clientPostApply_settles (htarget : w.target kc (.client s) = some r)
    (hremote : remote.get "id" = some (.str r.id)) :
    wp Reliable ⊤ (s.postApply kc obj remote)
      (fun result t => ∀ changed, result.2 = .ok changed → r.id ≠ "" ∧ ClientSettled s kc obj r t) w := by
  have hid : remoteId remote = r.id := by simp [remoteId, stringField, hremote]
  unfold ClientSpec.postApply requireId
  rw [hid]
  by_cases hempty : r.id = ""
  · rw [if_pos hempty]
    exact fun _ h => by cases h
  rw [if_neg hempty]
  have hexport : wp Reliable ⊤ (s.exportSecret kc obj r.id).run
      (fun exported t => ∀ changed, exported = .ok changed → ∀ output, s.secretOutput = some output →
        t.HandsOut obj output.name output.entry r.clientSecret) w := by
    unfold ClientSpec.exportSecret
    rcases s.secretOutput with _ | output
    · exact fun _ _ _ hsome => by cases hsome
    refine wp_run_bind.mpr (wp_getClientSecret reading_reliable (fun _ _ => trivial) htarget
      (fun herrs => herrs.elim) ?_)
    refine wp_mono (fun result t ht changed hok output' houtput => ?_)
      (wp_ensureOutputSecret_handsOut output.name output.entry r.clientSecret)
    cases houtput
    exact ht.2 changed hok
  refine wp_bind.mpr (wp_mono (fun exported t hexported => ?_) hexport)
  rcases exported with err | exported
  · exact fun _ h => by cases h
  have hexported := hexported exported rfl
  refine wp_bind.mpr (wp_run_bind.mpr
    (wp_mono ?_ (wp_enforceScopes_settles .default r.id)))
  rintro (err | defaults) _ ⟨ids, rfl, hdefaults⟩
  · exact fun _ h => by cases h
  refine wp_run_bind.mpr (wp_mono ?_ (wp_enforceScopes_settles .optional r.id))
  rintro (err | optionals) _ ⟨ids', rfl, hoptionals⟩
  · exact fun _ h => by cases h
  refine fun _ _ => ⟨hempty, hexported, fun list desired hdesired => ?_⟩
  rcases list with _ | _
  · rw [← hdefaults defaults rfl desired hdesired]
    apply Server.scopeNames_congr World.resources_setAssigned
    exact congrArg List.toFinset (World.assigned_setAssigned_of_ne (by decide) _ _)
  · exact hoptionals optionals rfl desired hdesired

theorem ClientSettled.idles (h : ClientSettled s kc obj r w) (hid : r.id ≠ "")
    (htarget : w.target kc (.client s) = some r) (hremote : remoteId remote = r.id) :
    wp Reliable (fun op _ => op.Reads) (s.postApply kc obj remote)
      (fun result _ => result.2 = .ok false) w := by
  have hexport : Idles (s.exportSecret kc obj r.id).run (.ok false) w := by
    unfold ClientSpec.exportSecret
    rcases houtput : s.secretOutput with _ | output
    · rfl
    · exact wp_run_bind.mpr (wp_getClientSecret reading_reliable (fun _ hop => hop) htarget
        (fun herrs => herrs.elim) (h.exported output houtput).idles)
  have hdefaults := idles_enforceScopes (h.assigned .default)
  have hoptionals := idles_enforceScopes (h.assigned .optional)
  unfold ClientSpec.postApply requireId
  rw [hremote, if_neg hid]
  refine hexport.wp_bind (wp_bind.mpr ?_)
  refine hdefaults.wp_run_bind (hoptionals.wp_run_bind ?_)
  rfl

end Clients

/-! ### Every kind -/

/-- What `PostApply` looks after is as the spec asks for. -/
def Spec.Settled (s : Spec) (kc : Conn) (obj : ManagedObject) (r : Resource) (w : World) : Prop :=
  match s with
  | .realm _ | .clientScope _ => True
  | .client s => r.id ≠ "" ∧ ClientSettled s kc obj r w
  | .realmRole s => RoleSettled s (w.servers kc.server)
  | .identityProvider s => MappersSettled s (w.mappers kc s.realm s.idpAlias)
  | .group s => r.id ≠ "" ∧ GroupSettled s r.id (w.servers kc.server)

section Settled

variable {s : Spec} {kc : Conn} {obj : ManagedObject} {r : Resource} {remote : Object} {w t : World}

/-- In the realm of a group, every client has a client ID. -/
def Spec.ClientsNamed (s : Spec) (server : Server) : Prop :=
  ∀ g, s = .group g → ∀ client ∈ (server.resources ⟨.client, g.realm⟩).items,
    (client.key "clientId").isSome

theorem Spec.Settled.congr (h : s.Settled kc obj r w) (hservers : t.servers = w.servers)
    (hsecrets : t.secrets = w.secrets) {mem : ManagedObject} (hns : mem.ns = obj.ns)
    (huid : mem.uid = obj.uid) : s.Settled kc mem r t := by
  rcases s with s | s | s | s | s | s
  case realm | clientScope => trivial
  case client =>
    obtain ⟨hid, hexported, hassigned⟩ := h
    refine ⟨hid, fun output houtput => ?_, ?_⟩
    · obtain ⟨secret, hsecret, howned, hvalue⟩ := hexported output houtput
      exact ⟨secret, by rw [hsecrets, hns, hsecret], by rwa [huid], hvalue⟩
    · rwa [hservers]
  case realmRole | identityProvider | group =>
    simp only [Spec.Settled, World.mappers, hservers]
    exact h

/-- **`PostApply` settles.** -/
theorem wp_postApply_settles (htarget : w.target kc s = some r)
    (hremote : remote.get "id" = some (.str r.id)) (hclients : s.ClientsNamed (w.servers kc.server)) :
    wp Reliable ⊤ (s.driver.postApply kc obj remote)
      (fun result t => ∀ changed, result.2 = .ok changed → s.Settled kc obj r t) w := by
  have hid : remoteId remote = r.id := by simp [remoteId, stringField, hremote]
  rcases s with s | s | s | s | s | s
  case realm | clientScope => exact fun _ _ => trivial
  case client => exact wp_clientPostApply_settles htarget hremote
  case realmRole => exact wp_bind.mpr wp_rolePostApply_settles
  case identityProvider =>
    refine wp_bind.mpr (wp_idpPostApply keepsMappers_reliable (fun _ _ _ => trivial) ?_ ?_)
    · exact fun _ err t changed hok => by cases hok
    · exact fun changed t hsettled _ _ => hsettled
  case group =>
    refine wp_bind.mpr (wp_groupPostApply serving_reliable (fun _ _ => trivial) ?_ ?_ ?_)
    · exact fun err t changed hok => by cases hok
    · exact hclients s rfl
    · intro changed server' hne happlied _ _
      rw [hid] at hne happlied
      refine ⟨hne, ?_⟩
      rw [World.servers_setServer]
      exact happlied.settled

/-- **Once settled, `PostApply` only reads**, and reports no change. -/
theorem Spec.Settled.idles (hspec : obj.spec = s) (h : s.Settled kc obj r w)
    (htarget : w.target kc s = some r) (hclients : s.ClientsNamed (w.servers kc.server)) :
    Idles (s.driver.postApply kc obj r.report) (obj.exported, .ok false) w := by
  have hid : remoteId r.report = r.id := r.remoteId_report
  have hresult : wp Reliable (fun op _ => op.Reads) (s.driver.postApply kc obj r.report)
      (fun result _ => result.2 = .ok false) w := by
    rcases s with s | s | s | s | s | s
    case realm | clientScope => rfl
    case client => exact h.2.idles h.1 htarget hid
    case realmRole => exact wp_bind.mpr (RoleSettled.idles h)
    case identityProvider =>
      exact wp_bind.mpr (wp_idpPostApply_idle keepsMappers_reliable (fun _ hop => hop) h
        (fun herrs => herrs.elim) rfl)
    case group =>
      refine wp_bind.mpr (wp_groupPostApply_idle serving_reliable (fun _ hop => hop)
        (fun herrs => herrs.elim) (hclients s rfl) ?_ ?_ rfl)
      · rw [hid]
        exact h.1
      · rw [hid]
        exact h.2
  have hyields := yields_postApply_exported kc obj r.report
  rw [hspec] at hyields
  refine wp_mono ?_ (wp_yields hyields hresult)
  rintro ⟨mem, applied⟩ t ⟨hmem, rfl⟩
  rw [show mem = obj.exported from hmem false rfl]

end Settled

end KeycloakOperator
