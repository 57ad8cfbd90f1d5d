import KeycloakOperator.EngineRules

/-!
# What a pass may ask for

The operations of the drivers and of the engine, whatever the answers are.  A driver
reads, creates or updates its own resource, and writes state outside of the
representation only below that resource (`Spec.Owns`).  From this follows what a
whole pass can do (`only_reconcileWith`).
-/

namespace KeycloakOperator

/-! ### Kinds of operations -/

/-- The operation changes nothing outside. -/
def Op.Reads : Op → Prop
  | .admin _ request => request.method = .get
  | .iterate _ => True
  | .getSecret _ _ => True
  | _ => False

/-- The read of a single group. -/
def Op.ReadsGroup : Op → Prop
  | .admin _ ⟨.get, .group _ _, _, _⟩ => True
  | _ => False

/-- A read of anything but a single group. -/
def Op.Consults (op : Op) : Prop := op.Reads ∧ ¬ op.ReadsGroup

/-- The endpoints through which roles are looked up by name. -/
def Endpoint.LooksUp : Endpoint → Prop
  | .role _ _ => True
  | .clientsByClientId _ _ => True
  | .clientRole _ _ _ => True
  | _ => False

/-- The lookup of a role or of the client that it belongs to. -/
def Op.LooksUp (kc : Conn) (op : Op) : Prop :=
  ∃ endpoint out, endpoint.LooksUp ∧ op = .admin kc ⟨.get, endpoint, .none, out⟩

theorem Op.LooksUp.consults {kc : Conn} {op : Op} (h : op.LooksUp kc) : op.Consults := by
  obtain ⟨endpoint, out, hlooks, rfl⟩ := h
  refine ⟨rfl, ?_⟩
  rcases endpoint <;> first | exact hlooks.elim | exact fun h => h

def Op.WritesSecret : Op → Prop
  | .createSecret _ => True
  | .updateSecret _ => True
  | _ => False

/-- The engine's reports: the status of the custom resource, events and metrics. -/
def Op.Reports : Op → Prop
  | .now => True
  | .connect _ _ => True
  | .patchStatus _ _ => True
  | .event _ _ _ => True
  | .driftCorrected _ => True
  | .reconciled _ _ => True
  | _ => False

/-- A warning event. -/
def Op.Warns : Op → Prop
  | .event .warning _ _ => True
  | _ => False

instance : (op : Op) → Decidable op.Warns
  | .event .warning _ _ => inferInstanceAs (Decidable True)
  | .event .normal _ _ | .now | .iterate _ | .connect _ _ | .getObject | .updateObject _
  | .patchObject _ _ | .patchStatus _ _ | .admin _ _ | .getSecret _ _ | .createSecret _
  | .updateSecret _ | .driftCorrected _ | .reconciled _ _ => inferInstanceAs (Decidable False)

/-- The reports of a pass before it is counted. -/
def Op.Remarks : Op → Prop
  | .reconciled _ _ => False
  | op => op.Reports

theorem Op.Remarks.reports {op : Op} (h : op.Remarks) : op.Reports := by
  rcases op <;> first | exact h | exact h.elim

/-- The engine's own operations: its reports and writes of the custom resource. -/
def Op.Bookkeeping : Op → Prop
  | .updateObject _ => True
  | .patchObject _ _ => True
  | op => op.Reports

theorem Op.Reports.bookkeeping {op : Op} (h : op.Reports) : op.Bookkeeping := by
  rcases op <;> first | exact h | exact trivial

theorem Op.Remarks.bookkeeping {op : Op} (h : op.Remarks) : op.Bookkeeping := h.reports.bookkeeping

namespace Spec

/-- The endpoint that creates the resource of a spec. -/
def collectionEndpoint : Spec → Endpoint
  | .realm _ => .realms
  | .client s => .clients s.realm
  | .clientScope s => .clientScopes s.realm
  | .realmRole s => .roles s.realm
  | .identityProvider s => .identityProviders s.realm
  | .group s => .groups s.realm

/-- The endpoint of the resource of a spec, whose id on the server is `id`. -/
def itemEndpoint (s : Spec) (id : String) : Endpoint :=
  match s with
  | .realm s => .realm s.realm
  | .client s => .client s.realm id
  | .clientScope s => .clientScope s.realm id
  | .realmRole s => .role s.realm s.name
  | .identityProvider s => .identityProvider s.realm s.idpAlias
  | .group s => .group s.realm id

/-- The endpoints of state that belongs to the resource but not to its
    representation. -/
def Owns (s : Spec) (id : String) : Endpoint → Prop
  | .assignment r c _ _ => s.kind = .client ∧ r = s.targetRealm ∧ c = id
  | .composites r name => s.kind = .realmRole ∧ r = s.targetRealm ∧ name = s.naturalKey
  | .mappers r idpAlias =>
      s.kind = .identityProvider ∧ r = s.targetRealm ∧ idpAlias = s.naturalKey
  | .mapper r idpAlias _ =>
      s.kind = .identityProvider ∧ r = s.targetRealm ∧ idpAlias = s.naturalKey
  | .realmRoleMappings r g => s.kind = .group ∧ r = s.targetRealm ∧ g = id
  | .clientRoleMappings r g _ => s.kind = .group ∧ r = s.targetRealm ∧ g = id
  | _ => False

end Spec

/-- A write below the resource of the spec. -/
def Enforces (s : Spec) (kc : Conn) (id : String) (op : Op) : Prop :=
  ∃ method endpoint body, op = .admin kc ⟨method, endpoint, body, .nothing⟩ ∧ s.Owns id endpoint

theorem driver_create (s : Spec) (kc : Conn) (payload : Object) :
    s.driver.create kc payload = kc.submit .post s.collectionEndpoint (.object payload) := by
  cases s <;> rfl

theorem driver_update (s : Spec) (kc : Conn) (id : String) (payload : Object) :
    s.driver.update kc id payload = kc.submit .put (s.itemEndpoint id) (.object payload) := by
  cases s <;> rfl

/-- The scopes that the spec lists, if it manages them. -/
def ClientSpec.scopes (s : ClientSpec) : ScopeList → Option (List String)
  | .default => s.defaultClientScopes
  | .optional => s.optionalClientScopes

/-! ### Calls -/

section Only

open Prog

variable {allowed : Op → Prop}

theorem only_send {kc : Conn} {request : Request} (h : allowed (.admin kc request)) :
    Only allowed (kc.send request).run := ⟨h, fun _ => trivial⟩

theorem only_mk (r : Except Err α) : Only allowed (ExceptT.mk (pure r) : Call α).run := trivial

theorem only_rangeKeys (hiterate : ∀ keys, allowed (.iterate keys)) (m : FiniteMap String V) :
    Only allowed (rangeKeys m) := ⟨hiterate _, fun _ => trivial⟩

theorem only_onlyIn (hiterate : ∀ keys, allowed (.iterate keys)) (left right : FiniteMap String Object) :
    Only allowed (onlyIn left right) := only_bind (only_rangeKeys hiterate _) fun _ => trivial

theorem only_ensureOutputSecret (hget : ∀ ns name, allowed (.getSecret ns name))
    (hsecrets : ∀ op, Op.WritesSecret op → allowed op) (obj : ManagedObject)
    (name key value : String) : Only allowed (ensureOutputSecret obj name key value).run := by
  refine ⟨hget _ _, fun answer => ?_⟩
  rcases answer with err | existing
  · simp only [Prog.bind]
    split
    · refine ⟨hsecrets _ trivial, fun answer => ?_⟩
      rcases answer with err | _ <;> exact trivial
    · exact trivial
  · simp only [Prog.bind]
    split
    · exact trivial
    · split
      · exact trivial
      · refine ⟨hsecrets _ trivial, fun answer => ?_⟩
        rcases answer with err | _ <;> exact trivial

/-- A property that a call has if its parts have it, and that a single operation has if it is
    allowed.  No error that a driver makes up itself is a panic. -/
structure Compositional (allowed : Op → Prop) (P : {α : Type} → Call α → Prop) : Prop where
  result : ∀ {α : Type} {r : Except Err α}, (∀ err, r = .error err → err.kind ≠ .panic) →
    P (ExceptT.mk (pure r) : Call α)
  bind : ∀ {α β : Type} {call : Call α} {next : α → Call β}, P call → (∀ a, P (next a)) →
    P (call >>= next)
  context : ∀ {α : Type} {context : String} {call : Call α}, P call → P (withContext context call)
  lift : ∀ {α : Type} {p : Action α}, Only allowed p → P (liftM p : Call α)
  send : ∀ {kc : Conn} {request : Request}, allowed (.admin kc request) → P (kc.send request)
  output : (∀ ns name, allowed (.getSecret ns name)) → (∀ op, Op.WritesSecret op → allowed op) →
    ∀ obj name key value, P (ensureOutputSecret obj name key value)

theorem compositional_only : Compositional allowed (fun {_} call => Only allowed call.run) where
  result _ := trivial
  bind := only_run_bind
  context h := only_bind h fun r => by rcases r with err | a <;> exact trivial
  lift := only_run_lift
  send := only_send
  output := only_ensureOutputSecret

namespace Compositional

variable {P : {α : Type} → Call α → Prop} (hP : Compositional allowed @P)

include hP

theorem value {α : Type} (a : α) : P (pure a : Call α) := hP.result fun _ h => by cases h

theorem error {α : Type} {err : Err} (h : err.kind ≠ .panic) : P (throw err : Call α) := by
  refine hP.result fun err' heq => ?_
  cases heq
  exact h

theorem has_findByField (reps : List Object) (key value what : String) :
    P (Conn.findByField reps key value what) := by
  unfold Conn.findByField
  split
  · exact hP.value _
  · exact hP.error (by simp)

theorem has_submitRoles {submit : List Object → Call Unit} (h : ∀ roles, P (submit roles))
    (roles : List Object) : P (submitRoles submit roles) := by
  unfold submitRoles
  split
  · exact hP.value _
  · exact h roles

/-! ### Roles and clients -/

section Lookups

variable {kc : Conn} (hlooks : ∀ op, Op.LooksUp kc op → allowed op)

include hlooks

theorem has_findClient (realm clientId : String) :
    P (kc.findClient realm clientId) :=
  hP.bind (hP.send (hlooks _ ⟨_, _, by trivial, rfl⟩)) fun _ => hP.has_findByField _ _ _ _

theorem has_resolveRealmRoles (realm : String) (names : List String) :
    P (resolveRealmRoles kc realm names) := by
  induction names with
  | nil => exact hP.value _
  | cons name names ih =>
    exact hP.bind (hP.context (hP.send (hlooks _ ⟨_, _, by trivial, rfl⟩))) fun _ =>
      hP.bind ih fun _ => hP.value _

theorem has_resolveClientRoles (realm clientId : String) (names : List String) :
    P (resolveClientRoles kc realm clientId names) := by
  refine hP.bind (hP.context (hP.has_findClient hlooks _ _)) fun client => ?_
  dsimp only
  induction names with
  | nil => exact hP.value _
  | cons name names ih =>
    exact hP.bind (hP.context (hP.send (hlooks _ ⟨_, _, by trivial, rfl⟩))) fun _ =>
      hP.bind ih fun _ => hP.value _

theorem has_clientUUID (realm clientId : String) :
    P (GroupSpec.clientUUID kc realm clientId) :=
  hP.bind (hP.context (hP.has_findClient hlooks _ _)) fun _ => hP.value _

theorem has_resolveRolesOfClients (realm : String)
    (clientRoles : FiniteMap String (List String)) (order : List String) :
    P (resolveRolesOfClients kc realm clientRoles order) := by
  induction order with
  | nil => exact hP.value _
  | cons clientId order ih =>
    exact hP.bind (hP.has_resolveClientRoles hlooks _ _ _) fun _ =>
      hP.bind ih fun _ => hP.value _

end Lookups

section Iterations

variable (hiterate : ∀ keys, allowed (.iterate keys))

include hiterate

theorem has_applyRoleDiff {desired current : List Object} {add remove : List Object → Call Unit}
    (hadd : ∀ roles, P (add roles))
    (hremove : ∀ roles, P (remove roles)) :
    P (applyRoleDiff desired current add remove) := by
  refine hP.bind (hP.lift (only_onlyIn hiterate _ _)) fun toAdd => ?_
  refine hP.bind (hP.lift (only_onlyIn hiterate _ _)) fun toRemove => ?_
  split
  · exact hP.value _
  · exact hP.bind (hP.has_submitRoles hadd _) fun _ =>
      hP.bind (hP.has_submitRoles hremove _) fun _ => hP.value _

variable {s : GroupSpec} {kc : Conn} {id : String} (hlooks : ∀ op, Op.LooksUp kc op → allowed op)

include hlooks

theorem has_enforceRealmRoles (hrealm : s.realmRoles.isSome → ∀ method body, allowed (.admin kc
      ⟨method, .realmRoleMappings s.realm id, body, .nothing⟩)) (mappings : Object) :
    P (s.enforceRealmRoles kc id mappings) := by
  unfold GroupSpec.enforceRealmRoles
  rcases hroles : s.realmRoles with _ | names
  · exact hP.value _
  · have hset : s.realmRoles.isSome := by simp [hroles]
    exact hP.bind (hP.has_resolveRealmRoles hlooks _ _) fun _ =>
      hP.has_applyRoleDiff hiterate (fun roles => hP.send (hrealm hset _ _))
        (fun roles => hP.send (hrealm hset _ _))

theorem has_enforceClientRoles (hclient : s.clientRoles.isSome → ∀ method client body,
      allowed (.admin kc ⟨method, .clientRoleMappings s.realm id client, body, .nothing⟩))
    (mappings : Object) : P (s.enforceClientRoles kc id mappings) := by
  have hclears : s.clientRoles.isSome → ∀ roles current names,
      P (s.clearUnlisted kc id roles current names) := by
    intro hset roles current names
    induction names with
    | nil => exact hP.value _
    | cons name names ih =>
      unfold GroupSpec.clearUnlisted
      split
      · exact ih
      · split
        · exact ih
        · exact hP.bind (hP.send (hclient hset _ _ _)) fun _ =>
            hP.bind ih fun _ => hP.value _
  have hlisted : s.clientRoles.isSome → ∀ roles current names,
      P (s.enforceListed kc id roles current names) := by
    intro hset roles current names
    induction names with
    | nil => exact hP.value _
    | cons name names ih =>
      refine hP.bind (hP.has_resolveClientRoles hlooks _ _ _) fun desired => ?_
      refine hP.bind (hP.has_clientUUID hlooks _ _) fun uuid => ?_
      refine hP.bind (hP.has_applyRoleDiff hiterate (fun roles => hP.send (hclient hset _ _ _))
        (fun roles => hP.send (hclient hset _ _ _))) fun _ => ?_
      exact hP.bind ih fun _ => hP.value _
  refine hP.bind (hP.lift (only_rangeKeys hiterate _)) fun order => ?_
  rcases hroles : s.clientRoles with _ | roles
  · exact hP.value _
  · have hset : s.clientRoles.isSome := by simp [hroles]
    exact hP.bind (hP.lift (only_rangeKeys hiterate _)) fun _ =>
      hP.bind (hclears hset _ _ _) fun _ =>
        hP.bind (hP.lift (only_rangeKeys hiterate _)) fun _ =>
          hP.bind (hlisted hset _ _ _) fun _ => hP.value _

end Iterations

theorem has_groupPostApply (hconsults : ∀ op, Op.Consults op → allowed op) {s : GroupSpec}
    {kc : Conn} {remote : Object}
    (hrealm : s.realmRoles.isSome → ∀ method body, allowed (.admin kc
      ⟨method, .realmRoleMappings s.realm (remoteId remote), body, .nothing⟩))
    (hclient : s.clientRoles.isSome → ∀ method client body, allowed (.admin kc
      ⟨method, .clientRoleMappings s.realm (remoteId remote) client, body, .nothing⟩)) :
    P (s.postApply kc remote) := by
  have hlooks : ∀ op, Op.LooksUp kc op → allowed op := fun op h => hconsults op h.consults
  have hiterate : ∀ keys, allowed (.iterate keys) := fun _ => hconsults _ ⟨trivial, fun h => h⟩
  unfold GroupSpec.postApply requireId
  by_cases hid : remoteId remote = ""
  · simp only [if_pos hid]
    exact hP.error (by simp)
  simp only [if_neg hid]
  change P (kc.getGroupRoleMappings s.realm (remoteId remote) >>= _)
  exact hP.bind (hP.send (hconsults _ ⟨rfl, fun h => h⟩)) fun _ =>
    hP.bind (hP.has_enforceRealmRoles hiterate hlooks hrealm _) fun _ =>
      hP.bind (hP.has_enforceClientRoles hiterate hlooks hclient _) fun _ => hP.value _

/-! ### Reads -/

section Fetches

variable {kc : Conn}
  (hfetches : ∀ request : Request, request.method = .get → allowed (.admin kc request))

include hfetches

theorem has_fetchObject (endpoint : Endpoint) :
    P (kc.fetchObject endpoint) := hP.send (hfetches _ rfl)

theorem has_fetchObjects (endpoint : Endpoint) :
    P (kc.fetchObjects endpoint) := hP.send (hfetches _ rfl)

theorem has_findGroup (realm name : String) : P (kc.findGroup realm name) := by
  refine hP.bind (hP.has_fetchObjects hfetches _) fun out => ?_
  refine hP.bind (hP.has_findByField _ _ _ _) fun rep => ?_
  dsimp only
  split
  · exact hP.error (by simp)
  · exact hP.has_fetchObject hfetches _

/-- `Get` fetches and does nothing else. -/
theorem has_get_fetches (s : Spec) : P (s.driver.get kc) := by
  rcases s with s | s | s | s | s | s
  · exact hP.has_fetchObject hfetches _
  · refine hP.has_findClient ?_ _ _
    rintro op ⟨endpoint, out, -, rfl⟩
    exact hfetches _ rfl
  · exact hP.bind (hP.has_fetchObjects hfetches _) fun _ => hP.has_findByField _ _ _ _
  · exact hP.has_fetchObject hfetches _
  · exact hP.has_fetchObject hfetches _
  · exact hP.has_findGroup hfetches _ _

end Fetches

/-! ### Writes below the resource -/

section Writes

variable (hreads : ∀ op, Op.Reads op → allowed op)

include hreads

theorem has_enforceScopeAssignments {kc : Conn} {realm client : String} {list : ScopeList}
    (hassign : ∀ method scope,
      allowed (.admin kc ⟨method, .assignment realm client list scope, .none, .nothing⟩))
    (desired : List String) :
    P (enforceScopeAssignments kc realm client desired list) := by
  have hassigns : ∀ ids names, P (assignScopes kc realm client list ids names) := by
    intro ids names
    induction names with
    | nil => exact hP.value _
    | cons name names ih =>
      unfold assignScopes
      split
      · exact hP.error (by simp)
      · exact hP.bind (hP.send (hassign _ _)) fun _ => ih
  have hunassigns : ∀ ids names,
      P (unassignScopes kc realm client list ids names) := by
    intro ids names
    induction names with
    | nil => exact hP.value _
    | cons name names ih =>
      unfold unassignScopes
      split
      · exact ih
      · exact hP.bind (hP.send (hassign _ _)) fun _ => ih
  have horder : ∀ keys, Only allowed (perform (.iterate keys)) :=
    fun keys => ⟨hreads _ trivial, fun _ => trivial⟩
  refine hP.bind (hP.has_fetchObjects (fun _ h => hreads _ h) _) fun current => ?_
  refine hP.bind (hP.lift (horder _)) fun desiredOrder => ?_
  refine hP.bind (hP.lift (horder _)) fun currentOrder => ?_
  dsimp only
  split
  · exact hP.value _
  · exact hP.bind (hP.has_fetchObjects (fun _ h => hreads _ h) _) fun scopes =>
      hP.bind (hassigns _ _) fun _ => hP.bind (hunassigns _ _) fun _ => hP.value _

omit hreads in
theorem has_exportSecret {s : ClientSpec} {kc : Conn} {id : String}
    (hfetches : ∀ request : Request, request.method = .get → allowed (.admin kc request))
    (hget : ∀ ns name, allowed (.getSecret ns name))
    (hsecrets : s.secretOutput.isSome → ∀ op, Op.WritesSecret op → allowed op)
    (obj : ManagedObject) : P (s.exportSecret kc obj id) := by
  unfold ClientSpec.exportSecret
  rcases houtput : s.secretOutput with _ | output
  · exact hP.value _
  · exact hP.bind (hP.send (hfetches _ rfl)) fun _ =>
      hP.output hget (hsecrets (by simp [houtput])) _ _ _ _

theorem has_rolePostApply {s : RealmRoleSpec} {kc : Conn} (id : String)
    (henforces : ∀ op, Enforces (.realmRole s) kc id op → allowed op) :
    P (s.postApply kc) := by
  have hlooks : ∀ op, Op.LooksUp kc op → allowed op := fun op h => hreads op h.consults.1
  refine hP.bind (hP.has_fetchObjects (fun _ h => hreads _ h) _) fun current => ?_
  refine hP.bind ?_ fun desired => ?_
  · unfold RealmRoleSpec.desiredComposites
    split
    · exact hP.bind (hP.has_resolveRealmRoles hlooks _ _) fun _ =>
        hP.bind (hP.lift (only_rangeKeys (fun _ => hreads _ trivial) _)) fun _ =>
          hP.bind (hP.has_resolveRolesOfClients hlooks _ _ _) fun _ => hP.value _
    · exact hP.value _
  · exact hP.has_applyRoleDiff (fun _ => hreads _ trivial)
      (fun roles => hP.send (henforces _ ⟨_, _, _, rfl, rfl, rfl, rfl⟩))
      (fun roles => hP.send (henforces _ ⟨_, _, _, rfl, rfl, rfl, rfl⟩))

theorem has_idpPostApply {s : IdentityProviderSpec} {kc : Conn} (id : String)
    (henforces : ∀ op, Enforces (.identityProvider s) kc id op → allowed op) :
    P (s.postApply kc) := by
  have hiterate : ∀ keys, allowed (.iterate keys) := fun _ => hreads _ trivial
  have hcreate : ∀ payload,
      P (kc.createIdentityProviderMapper s.realm s.idpAlias payload) :=
    fun payload => hP.send (henforces _ ⟨_, _, _, rfl, rfl, rfl, rfl⟩)
  have happly : ∀ payload existing, P (s.applyMapper kc payload existing) := by
    intro payload existing
    unfold IdentityProviderSpec.applyMapper
    split
    · split
      · split
        · exact hP.bind
            (hP.send (henforces _ ⟨_, _, _, rfl, rfl, rfl, rfl⟩)) fun _ => hP.value _
        · exact hP.value _
      · exact hP.bind (hcreate payload) fun _ => hP.value _
    · exact hP.bind (hcreate payload) fun _ => hP.value _
  have happlies : ∀ current names, P (s.applyMappers kc current names) := by
    intro current names
    induction names with
    | nil => exact hP.value _
    | cons name names ih =>
      unfold IdentityProviderSpec.applyMappers
      split
      · exact ih
      · exact hP.bind (happly _ _) fun _ => hP.bind ih fun _ => hP.value _
  have hremoves : ∀ current names, P (s.removeMappers kc current names) := by
    intro current names
    induction names with
    | nil => exact hP.value _
    | cons name names ih =>
      unfold IdentityProviderSpec.removeMappers
      split
      · exact ih
      · exact hP.bind (hP.send (henforces _ ⟨_, _, _, rfl, rfl, rfl, rfl⟩)) fun _ =>
          hP.bind ih fun _ => hP.value _
  exact hP.bind (hP.has_fetchObjects (fun _ h => hreads _ h) _) fun current =>
    hP.bind (hP.lift (only_rangeKeys hiterate _)) fun _ =>
      hP.bind (happlies _ _) fun _ =>
        hP.bind (hP.lift (only_rangeKeys hiterate _)) fun _ =>
          hP.bind (hremoves _ _) fun _ => hP.value _

end Writes

end Compositional

theorem only_readSecret (hsecret : ∀ ns name, allowed (.getSecret ns name)) (ns name : String) :
    Only allowed (readSecret ns name).run := by
  refine ⟨hsecret ns name, fun answer => ?_⟩
  rcases answer with err | secret <;> exact trivial

section Secrets

variable (hsecret : ∀ ns name, allowed (.getSecret ns name)) (hiterate : ∀ keys, allowed (.iterate keys))

include hsecret hiterate

theorem only_readSecretValues (ns : String) (selector : SecretKeysSelector) :
    Only allowed (readSecretValues ns selector).run :=
  only_run_bind (only_readSecret hsecret _ _) fun _ =>
    only_run_bind (only_run_lift (only_rangeKeys hiterate _)) fun _ => only_mk _

/-- `PreparePayload` reads Secrets and does nothing else. -/
theorem only_preparePayload_secrets (s : Spec) (obj : ManagedObject) (p : Object) :
    Only allowed (s.driver.preparePayload obj p).run := by
  rcases s with s | s | s | s | s | s
  · change Only allowed (s.preparePayload obj p).run
    unfold RealmSpec.preparePayload
    rcases s.smtpServerSecretRef with _ | selector
    · exact trivial
    · exact only_run_bind (only_readSecretValues hsecret hiterate _ _) fun _ => trivial
  · change Only allowed (s.preparePayload obj p).run
    unfold ClientSpec.preparePayload
    rcases s.secretRef with _ | selector
    · exact trivial
    · refine only_run_bind ?_ fun _ => trivial
      exact only_run_bind (only_readSecret hsecret _ _) fun _ => only_mk _
  · exact trivial
  · exact trivial
  · change Only allowed (s.preparePayload obj p).run
    unfold IdentityProviderSpec.preparePayload
    rcases s.configSecretRef with _ | selector
    · exact trivial
    · exact only_run_bind (only_readSecretValues hsecret hiterate _ _) fun _ => trivial
  · exact trivial

end Secrets

variable (hreads : ∀ op, Op.Reads op → allowed op)

include hreads

theorem only_get (s : Spec) (kc : Conn) : Only allowed (s.driver.get kc).run :=
  compositional_only.has_get_fetches (fun _ h => hreads _ h) s

theorem only_preparePayload (s : Spec) (obj : ManagedObject) (p : Object) :
    Only allowed (s.driver.preparePayload obj p).run :=
  only_preparePayload_secrets (fun _ _ => hreads _ trivial) (fun _ => hreads _ trivial) s obj p

section PostApply

theorem only_clientPostApply {s : ClientSpec} {kc : Conn} {remote : Object}
    (hsecrets : s.secretOutput.isSome → ∀ op, Op.WritesSecret op → allowed op)
    (hassign : ∀ list, (s.scopes list).isSome → ∀ method scope, allowed (.admin kc
      ⟨method, .assignment s.realm (remoteId remote) list scope, .none, .nothing⟩))
    (obj : ManagedObject) : Only allowed (s.postApply kc obj remote) := by
  unfold ClientSpec.postApply requireId
  by_cases hid : remoteId remote = ""
  · simp only [if_pos hid]
    exact trivial
  simp only [if_neg hid]
  have hscopes : ∀ list,
      Only allowed (s.enforceScopes kc (remoteId remote) list (s.scopes list)).run := by
    intro list
    rcases hscopes : s.scopes list with _ | desired
    · exact trivial
    · exact compositional_only.has_enforceScopeAssignments hreads
        (hassign list (by simp [hscopes])) desired
  refine only_bind (compositional_only.has_exportSecret (fun _ h => hreads _ h)
    (fun _ _ => hreads _ trivial) hsecrets obj) fun exported => ?_
  rcases exported with err | exported
  · exact trivial
  · refine only_bind ?_ fun _ => trivial
    exact only_run_bind (hscopes .default) fun _ => only_run_bind (hscopes .optional) fun _ => trivial

/-- Only a client with an output Secret writes Secrets. -/
theorem only_postApply_exports {s : Spec} {kc : Conn} {remote : Object}
    (hsecrets : ∀ client, s = .client client → client.secretOutput.isSome →
      ∀ op, Op.WritesSecret op → allowed op)
    (henforces : ∀ op, Enforces s kc (remoteId remote) op → allowed op) (obj : ManagedObject) :
    Only allowed (s.driver.postApply kc obj remote) := by
  rcases s with s | s | s | s | s | s
  · exact trivial
  · exact only_clientPostApply hreads (hsecrets s rfl)
      (fun list _ method scope => henforces _ ⟨_, _, _, rfl, rfl, rfl, rfl⟩) obj
  · exact trivial
  · exact only_bind (compositional_only.has_rolePostApply hreads _ henforces) fun _ => trivial
  · exact only_bind (compositional_only.has_idpPostApply hreads _ henforces) fun _ => trivial
  · refine only_bind (compositional_only.has_groupPostApply (fun op h => hreads op h.1) ?_ ?_)
      fun _ => trivial
    · intro _ method body
      exact henforces _ ⟨_, _, _, rfl, rfl, rfl, rfl⟩
    · intro _ method client body
      exact henforces _ ⟨_, _, _, rfl, rfl, rfl, rfl⟩

theorem only_postApply {s : Spec} {kc : Conn} {remote : Object}
    (hsecrets : ∀ op, Op.WritesSecret op → allowed op)
    (henforces : ∀ op, Enforces s kc (remoteId remote) op → allowed op) (obj : ManagedObject) :
    Only allowed (s.driver.postApply kc obj remote) :=
  only_postApply_exports hreads (fun _ _ _ => hsecrets) henforces obj

end PostApply

end Only

/-! ### The engine -/

open Prog in
/-- A driver deletes by calls of the Admin API, the last of which is for its resource. -/
theorem only_delete {allowed : Op → Prop} {kc : Conn} (hreads : ∀ op : Op, op.Reads → allowed op)
    {s : Spec}
    (hdelete : ∀ id, allowed (.admin kc ⟨.delete, s.itemEndpoint id, .none, .nothing⟩)) :
    Only allowed (s.driver.delete kc).run := by
  have hitem : ∀ id, Only allowed (kc.submit .delete (s.itemEndpoint id) .none).run :=
    fun id => only_send (hdelete id)
  -- a search, and the deletion of what it found
  have hfound : ∀ {find : Call Object}, Only allowed find.run → Only allowed (do
      let remote ← find
      kc.submit .delete (s.itemEndpoint (← assertId remote)) .none : Call Unit).run := by
    intro find hfind
    refine only_run_bind hfind fun remote => only_run_bind ?_ fun id => hitem id
    unfold assertId
    split <;> trivial
  rcases s with s | s | s | s | s | s
  · exact hitem ""
  · exact hfound (only_get hreads (.client s) kc)
  · exact hfound (only_get hreads (.clientScope s) kc)
  · exact hitem ""
  · exact hitem ""
  · exact hfound (only_get hreads (.group s) kc)

open Prog in
/-- `PostApply` changes nothing of the object but the name of the exported Secret. -/
theorem yields_postApply (s : Spec) (kc : Conn) (mem : ManagedObject) (remote : Object) :
    Yields (fun result => ∃ name,
        result.1 = { mem with status := { mem.status with secretName := name } })
      (s.driver.postApply kc mem remote) := by
  have hkeep : ∀ call : Call Bool,
      Yields (fun result => ∃ name,
          result.1 = { mem with status := { mem.status with secretName := name } })
        (keepObject mem call) := fun call => yields_bind fun _ => ⟨mem.status.secretName, rfl⟩
  rcases s with s | s | s | s | s | s
  · exact hkeep _
  · change Yields _ (s.postApply kc mem remote)
    unfold ClientSpec.postApply
    split
    · exact ⟨mem.status.secretName, rfl⟩
    · refine yields_bind fun exported => ?_
      rcases exported with err | exported
      · exact ⟨mem.status.secretName, rfl⟩
      · refine yields_bind fun _ => ?_
        rcases s.secretOutput with _ | output
        · exact ⟨mem.status.secretName, rfl⟩
        · exact ⟨output.name, rfl⟩
  · exact hkeep _
  · exact hkeep _
  · exact hkeep _
  · exact hkeep _

namespace Engine

open Prog

variable {allowed : Op → Prop} (e : Engine)

section Reports

variable (hreports : ∀ op, Op.Remarks op → allowed op)

include hreports

theorem only_setCondition (obj base : ManagedObject) (type : ConditionType)
    (status : ConditionStatus) (reason : Reason) (message : String) :
    Only allowed (setCondition obj base type status reason message) := by
  refine ⟨hreports _ trivial, fun now => ⟨hreports _ trivial, fun answer => ?_⟩⟩
  rcases answer with err | stored <;> exact trivial

theorem only_setConditions (obj base : ManagedObject) (status : ConditionStatus)
    (reason : Reason) (ready synced : String) :
    Only allowed (setConditions obj base status reason ready synced) :=
  only_bind (only_setCondition hreports _ _ _ _ _ _) fun _ => only_setCondition hreports _ _ _ _ _ _

theorem only_record (type : EventType) (reason message : String) :
    Only allowed (e.record type reason message) := by
  unfold record
  split
  · exact ⟨hreports _ trivial, fun _ => trivial⟩
  · exact trivial

theorem only_refuse (obj base : ManagedObject) (reason : Reason) (message : String)
    (requeueAfter : Nat) : Only allowed (e.refuse obj base reason message requeueAfter) := by
  refine only_bind (only_bind (only_setConditions hreports _ _ _ _ _ _) fun obj => ?_)
    fun _ => trivial
  dsimp only
  split
  all_goals
    split
    · exact only_bind (only_record e hreports _ _ _) fun _ => trivial
    · exact trivial

theorem only_retry (obj base : ManagedObject) (err : Err) (synced : String) :
    Only allowed (retry obj base err synced) :=
  only_bind (only_setConditions hreports _ _ _ _ _ _) fun _ => trivial

omit e in
theorem Stops.only {e : Engine} {obj : ManagedObject} {p : Action Pass} (h : e.Stops obj p) :
    Only allowed p := by
  rcases h with ⟨mem, reason, message, requeueAfter⟩ | ⟨err, synced⟩ | ⟨err⟩ | ⟨message⟩
  · exact only_refuse e hreports _ _ _ _ _
  · exact only_retry hreports _ _ _ _
  · exact only_bind (only_setCondition hreports _ _ _ _ _ _) fun _ => trivial
  · exact only_bind (only_setConditions hreports _ _ _ _ _ _) fun _ => trivial

theorem only_succeed (obj base : ManagedObject) (synced : Bool) :
    Only allowed (e.succeed obj base synced) :=
  only_bind (only_setConditions hreports _ _ _ _ _ _) fun _ => trivial

theorem only_settle {s : Spec} {kc : Conn} {obj : ManagedObject} {remote : Object}
    {next : ManagedObject → Bool → Action Pass} (base : ManagedObject)
    (hpost : Only allowed (s.driver.postApply kc obj remote))
    (hnext : ∀ status changed, Only allowed (next { obj with status := status } changed)) :
    Only allowed (e.settle s.driver kc obj base remote next) := by
  refine only_bind_yields hpost (yields_postApply s kc obj remote) fun ⟨mem, applied⟩ hmem => ?_
  obtain ⟨name, hmem⟩ := hmem
  rcases applied with err | changed
  · exact only_refuse e hreports _ _ _ _ _
  · rw [show mem = _ from hmem]
    exact hnext _ changed

/-- A protected target stops the pass before it asks the server. -/
theorem only_apply_protected {drv : Driver} {kc : Conn} {obj : ManagedObject} {message : String}
    (hprotected : drv.protected? obj = some message) : Only allowed (e.apply drv kc obj) := by
  rw [apply_protected hprotected]
  exact only_refuse e hreports _ _ _ _ _

theorem only_finalize {obj base : ManagedObject} {specMap : Object}
    (hpatch : ∀ status text,
      allowed (.patchObject base { obj with status := status, lastApplied := text }))
    (synced : Bool) : Only allowed (e.finalize obj base specMap synced) := by
  unfold finalize
  dsimp only
  split
  · refine ⟨hpatch _ _, fun answer => ?_⟩
    rcases answer with err | stored
    · exact trivial
    · exact only_succeed e hreports _ _ _
  · exact only_succeed e hreports _ _ _

omit e in
theorem Concludes.only {e : Engine} {obj : ManagedObject}
    {next : ManagedObject → Bool → Action Pass} (h : e.Concludes obj next) (mem : ManagedObject)
    (hpatch : ∀ status text,
      allowed (.patchObject obj { mem with status := status, lastApplied := text }))
    (changed : Bool) : Only allowed (next mem changed) := by
  rcases h with _ | updated
  · exact only_finalize e hreports hpatch _
  · rcases changed with _ | _
    · exact only_finalize e hreports hpatch _
    · exact ⟨hreports _ trivial, fun _ => only_finalize e hreports hpatch _⟩

omit hreports in
theorem only_updateObject {obj : ManagedObject} (h : allowed (.updateObject obj))
    (requeueAfter : Nat) : Only allowed (updateObject obj requeueAfter) := by
  refine ⟨h, fun answer => ?_⟩
  rcases answer with err | stored <;> exact trivial

theorem only_handleDeletion {drv : Driver} {kc : Conn} {obj : ManagedObject}
    (hremove : allowed (.updateObject (removeFinalizer obj)))
    (hdelete : obj.spec.deletion = .delete → Only allowed (drv.delete kc).run) :
    Only allowed (e.handleDeletion drv kc obj) := by
  unfold handleDeletion
  split
  case isTrue hpolicy =>
    refine only_bind (hdelete hpolicy) fun r => ?_
    rcases r with err | _
    · dsimp only
      split
      · exact trivial
      · exact only_bind (only_record e hreports _ _ _) fun _ => only_updateObject hremove _
    · exact only_bind (only_record e hreports _ _ _) fun _ => only_updateObject hremove _
  case isFalse => exact only_updateObject hremove _

/-- The pass outside of `apply`. -/
theorem only_reconcileWith {drv : Driver} {obj : ManagedObject}
    (hremove : obj.deletionTimestamp.isSome → allowed (.updateObject (removeFinalizer obj)))
    (hadd : finalizerName ∉ obj.finalizers →
      allowed (.updateObject { obj with finalizers := obj.finalizers ++ [finalizerName] }))
    (hdelete : obj.deletionTimestamp.isSome → obj.spec.deletion = .delete →
      ∀ kc, Only allowed (drv.delete kc).run)
    (happly : obj.deletionTimestamp = none → finalizerName ∈ obj.finalizers →
      ∀ kc, Only allowed (e.apply drv kc obj)) :
    Only allowed (e.reconcileWith drv obj) := by
  unfold reconcileWith
  split
  case isTrue hdeleted => exact only_updateObject (hremove hdeleted.1) _
  refine ⟨hreports _ trivial, fun answer => ?_⟩
  rcases answer with unavailable | kc <;> simp only [Prog.bind]
  · exact only_bind (only_setConditions hreports _ _ _ _ _ _) fun _ => trivial
  · split
    case isTrue hdeleted =>
      exact only_handleDeletion e hreports (hremove hdeleted) fun hpolicy =>
        hdelete hdeleted hpolicy kc
    case isFalse hlive =>
      split
      case isTrue hmissing => exact only_updateObject (hadd hmissing) _
      case isFalse hfinalizer => exact happly (by simpa using hlive) (not_not.mp hfinalizer) kc

omit hreports in
theorem only_reconcile {obj : ManagedObject}
    (hcounts : ∀ kind outcome, allowed (.reconciled kind outcome))
    (h : Only allowed (e.reconcileWith obj.spec.driver obj)) : Only allowed (e.reconcile obj) :=
  only_bind h fun _ => ⟨hcounts _ _, fun _ => trivial⟩

end Reports

end Engine

end KeycloakOperator
