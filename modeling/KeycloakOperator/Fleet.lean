import KeycloakOperator.Concurrency
import KeycloakOperator.Estates
import KeycloakOperator.Resumption

/-!
# Many custom resources at once

The manager runs one controller for each kind, and their passes overlap.  A `Fleet` is the stored
custom resources with the servers, connections and Secrets that they share; a thread of a run makes
the passes over one of them.  Any call may fail, before or after it took effect, and users and
administrators act in between.

A `Plan` says which resource on which server each custom resource is for, no two for the same one.
While everybody keeps to it, every request of a pass is confined to the resource of its own custom
resource, at the moment when it is served: what a pass looked up earlier still leads there.  So no
pass changes what another custom resource, or nobody, is responsible for (`fleet_isolated`).

A server removes with a realm all that is in it.  So a plan leaves the realms in place: the custom
resource of a realm keeps the deletion policy Orphan, and no pass deletes a realm.
-/

namespace KeycloakOperator

open Prog

/-- A resource on a server, by its natural key. -/
structure Target where
  server : String
  place : Place
  key : String
deriving DecidableEq

/-- The custom resources of a cluster, and what they share. -/
structure Fleet (ι : Type) where
  objects : ι → Option ManagedObject
  servers : String → Server
  connections : String → String → Except String Conn
  secrets : String → String → Option Secret

namespace Fleet

variable {ι : Type}

/-- What the passes over one custom resource see. -/
def world (f : Fleet ι) (i : ι) : World := ⟨f.objects i, f.servers, f.connections, f.secrets⟩

/-- What a call for one custom resource left. -/
def put [DecidableEq ι] (f : Fleet ι) (i : ι) (w : World) : Fleet ι :=
  ⟨Function.update f.objects i w.object, w.servers, w.connections, w.secrets⟩

def find (f : Fleet ι) (target : Target) : Option Resource :=
  (f.servers target.server).find target.place (.key target.key)

/-- The resource with what is below it. -/
def estate (f : Fleet ι) (target : Target) : Option (Resource × Satellites) :=
  (f.servers target.server).estate target.place target.key

theorem map_id_find (f : Fleet ι) (target : Target) :
    (f.find target).map Resource.id = (f.estate target).map fun found => found.1.id := by
  unfold estate Server.estate
  rw [Option.map_map]
  rfl

end Fleet

/-- The API servers, as a call for one custom resource meets them. -/
def FleetApi {ι : Type} [DecidableEq ι] : Env (tagged ι operations) (Fleet ι) :=
  fun op f answer f' => ∃ w, Faulty op.2 (f.world op.1) answer w ∧ f' = f.put op.1 w

/-- The operation deletes a realm. -/
def Op.RemovesRealm : Op → Prop
  | .admin _ request => request.method = .delete ∧ ∃ realm, request.endpoint = .realm realm
  | _ => False

/-- Passes over one custom resource, one after the other. -/
def Engine.passes (e : Engine) : Nat → Action Unit
  | 0 => return ()
  | n + 1 => do
      let _ ← e.controllerReconcile.run
      e.passes n

/-- Which resource each custom resource is for. -/
structure Plan (ι : Type) where
  ns : ι → String
  /-- the server that a connection leads to -/
  serverOf : String → String → String
  target : ι → Target
  distinct : Function.Injective target

namespace Plan

variable {ι : Type} (plan : Plan ι)

/-- The version of the custom resource is for the planned resource, and does not ask for the deletion
    of a realm. -/
structure Aims (i : ι) (obj : ManagedObject) : Prop where
  ns : obj.ns = plan.ns i
  server : plan.serverOf obj.ns obj.spec.connectionName = (plan.target i).server
  place : obj.spec.place = (plan.target i).place
  key : obj.spec.naturalKey = (plan.target i).key
  realm : obj.spec.kind = .realm → obj.spec.deletion = .orphan

/-- A pass works on such a version, through a connection to the planned server. -/
structure Works (i : ι) (obj : ManagedObject) (kc : Conn) : Prop extends plan.Aims i obj where
  connected : kc.server = (plan.target i).server

/-- Everybody keeps to the plan. -/
structure Holds (f : Fleet ι) : Prop where
  connections : ∀ ns name kc, f.connections ns name = .ok kc → kc.server = plan.serverOf ns name
  objects : ∀ i obj, f.objects i = some obj → plan.Aims i obj

/-- The plan still holds, and the resource of the custom resource is the one it was. -/
def Keeps (i : ι) (f g : Fleet ι) : Prop :=
  plan.Holds f → plan.Holds g ∧
    (g.find (plan.target i)).map Resource.id = (f.find (plan.target i)).map Resource.id

/-- What users and administrators may do: edit the custom resources and connections as planned, and
    the servers as they like, but for creating, renaming or removing a planned resource. -/
def Respects (f g : Fleet ι) : Prop := ∀ i, plan.Keeps i f g

/-- The operation writes nothing but the planned resource and what is below it. -/
def Own (i : ι) (f : Fleet ι) : Op → Prop
  | .admin kc request => request.method ≠ .get →
      kc.server = (plan.target i).server ∧
        (f.servers kc.server).Confined (plan.target i).place (plan.target i).key request.method
          request.endpoint request.body ∧ ¬ Op.RemovesRealm (.admin kc request)
  | .updateObject obj => plan.Aims i obj
  | _ => True

/-! ### What one operation does -/

section Effect

variable [DecidableEq ι] {plan : Plan ι} {i : ι} {f f' : Fleet ι} {op : Op} {answer : op.Answer}

omit [DecidableEq ι] in
/-- The calls of a pass change the spec of no custom resource, but for an update of it. -/
theorem faulty_aims {w w' : World} (hown : plan.Own i f op) (h : Faulty op w answer w')
    (haims : ∀ obj, w.object = some obj → plan.Aims i obj) :
    ∀ obj, w'.object = some obj → plan.Aims i obj := by
  refine faulty_elim (P := fun u => ∀ obj, u.object = some obj → plan.Aims i obj) h haims
    fun _ hstep obj hobj => ?_
  by_cases hop : op.WritesObject
  case neg =>
    rw [reliable_object hop hstep] at hobj
    exact haims obj hobj
  obtain ⟨order, now, rfl⟩ := reliable_state hstep
  rcases hstored : w.object with _ | stored
  · rcases op <;> first | exact hop.elim | skip
    all_goals
      simp [World.handle, World.updateObject, World.patchObject, World.patchStatus, hstored] at hobj
  have hold := haims stored hstored
  rcases op with _ | _ | _ | _ | _ | new | ⟨base, new⟩ | ⟨base, new⟩ | _ | _ | _ | _ | _ | _
  case updateObject =>
    simp only [World.handle, World.updateObject, hstored] at hobj
    have hnew : plan.Aims i new := hown
    split at hobj <;> cases hobj
    exact ⟨hold.ns, by rw [← hnew.server, hold.ns, hnew.ns], hnew.place, hnew.key, hnew.realm⟩
  case patchObject =>
    simp only [World.handle, World.patchObject, hstored] at hobj
    cases hobj
    exact ⟨hold.ns, hold.server, hold.place, hold.key, hold.realm⟩
  case patchStatus =>
    simp only [World.handle, World.patchStatus, hstored] at hobj
    cases hobj
    exact ⟨hold.ns, hold.server, hold.place, hold.key, hold.realm⟩
  all_goals exact hop.elim

/-- The plan holds after an operation that is within it. -/
theorem Own.holds (hown : plan.Own i f op) (hstep : FleetApi (i, op) f answer f')
    (hf : plan.Holds f) : plan.Holds f' := by
  obtain ⟨w, hfaulty, rfl⟩ := hstep
  constructor
  · intro ns name kc hkc
    have hsame : w.connections = f.connections :=
      faulty_elim (P := fun u => u.connections = f.connections) hfaulty rfl
        fun _ hstep => reliable_connections hstep
    refine hf.connections ns name kc ?_
    rw [← hsame]
    exact hkc
  · intro j obj hobj
    change Function.update f.objects i w.object j = some obj at hobj
    by_cases hj : j = i
    · subst hj
      rw [Function.update_self] at hobj
      exact faulty_aims hown hfaulty (fun obj h => hf.objects j obj h) obj hobj
    · rw [Function.update_of_ne hj] at hobj
      exact hf.objects j obj hobj

omit [DecidableEq ι] in
theorem Own.not_removesRealm (hown : plan.Own i f op) : ¬ op.RemovesRealm := by
  cases op with
  | admin kc request =>
    intro hremoves
    have hmethod : request.method ≠ .get := fun hget => by cases hget.symm.trans hremoves.1
    exact (hown hmethod).2.2 hremoves
  | _ => exact id

/-- Nothing but the planned resource changes. -/
theorem Own.estate (hown : plan.Own i f op) (hstep : FleetApi (i, op) f answer f') {other : Target}
    (hother : other ≠ plan.target i) : f'.estate other = f.estate other := by
  obtain ⟨w, hfaulty, rfl⟩ := hstep
  change (w.servers other.server).estate other.place other.key =
    (f.servers other.server).estate other.place other.key
  by_cases hop : op.LeavesServers
  · rw [faulty_servers hop hfaulty]
    rfl
  obtain ⟨kc, request, rfl⟩ : ∃ kc request, op = .admin kc request := by
    cases op with
    | admin kc request => exact ⟨kc, request, rfl⟩
    | _ => exact absurd trivial hop
  obtain ⟨hserver, hconfined, -⟩ := hown hop
  rcases faulty_admin hfaulty with ⟨rfl, -⟩ | ⟨rfl, -⟩
  · rfl
  rw [World.admin_snd]
  change (Function.update f.servers kc.server _ other.server).estate _ _ = _
  by_cases hsame : other.server = kc.server
  · rw [hsame, Function.update_self]
    refine Server.estate_serve hconfined fun heq => hother ?_
    obtain ⟨hplace, hkey⟩ := Prod.mk.inj heq
    cases other
    cases htarget : plan.target i
    rw [htarget] at hserver hplace hkey
    cases hsame
    cases hserver
    cases hplace
    cases hkey
    rfl
  · rw [Function.update_of_ne hsame]

/-- What the other custom resources rely on. -/
theorem Own.keeps (hown : plan.Own i f op) (hstep : FleetApi (i, op) f answer f') {j : ι}
    (hj : j ≠ i) : plan.Keeps j f f' := by
  intro hf
  refine ⟨hown.holds hstep hf, ?_⟩
  rw [Fleet.map_id_find, Fleet.map_id_find,
    hown.estate hstep fun heq => hj (plan.distinct heq)]

end Effect

/-! ### What a pass knows of its resource -/

/-- The plan holds, and this is the id of the resource, if it is there. -/
structure Known (i : ι) (known : Option String) (f : Fleet ι) : Prop where
  holds : plan.Holds f
  id : (f.find (plan.target i)).map Resource.id = known

variable {plan} {i : ι} {known : Option String} {f g : Fleet ι}

theorem Holds.knows (hf : plan.Holds f) (i : ι) :
    plan.Known i ((f.find (plan.target i)).map Resource.id) f := ⟨hf, rfl⟩

theorem Known.moved (hf : plan.Known i known f)
    (h : Relation.ReflTransGen (plan.Keeps i) f g) : plan.Known i known g := by
  induction h with
  | refl => exact hf
  | tail _ hmove ih =>
    obtain ⟨hg, hid⟩ := hmove ih.holds
    exact ⟨hg, hid.trans ih.id⟩

variable [DecidableEq ι]

variable (plan i) in
/-- The API servers as the passes over one custom resource meet them, while the others run. -/
def Shared : Env operations (Fleet ι) := fun op => FleetApi.interleaved (plan.Keeps i) (i, op)

variable (plan i) in
/-- The operation is the custom resource's own. -/
def OnBehalf (op : ι × Op) (f : Fleet ι) : Prop := op.1 = i ∧ plan.Own i f op.2

variable (plan i) in
/-- The operation is the custom resource's own, whatever the others do before it. -/
def Guarded (op : Op) (f : Fleet ι) : Prop :=
  Interleaving.steady (S := tagged ι operations) (plan.Keeps i) (plan.OnBehalf i) (i, op) f

variable (plan i known) in
/-- The operation is within the plan and leaves the resource the one it is. -/
def Steady (op : Op) : Prop :=
  ∀ f, plan.Known i known f → plan.Own i f op ∧
    ∀ answer f', FleetApi (i, op) f answer f' → plan.Known i known f'

omit [DecidableEq ι] in
theorem guarded_of_own {op : Op} (hf : plan.Known i known f)
    (hown : ∀ g, plan.Known i known g → plan.Own i g op) : plan.Guarded i op f :=
  fun g hmoved => ⟨rfl, hown g (hf.moved hmoved)⟩

/-- A program of steady operations. -/
theorem wp_only {p : Action α} (h : Only (plan.Steady i known) p) (hf : plan.Known i known f) :
    wp (plan.Shared i) (plan.Guarded i) p (fun _ => plan.Known i known) f := by
  refine wp_guard_mono ?_ (wp_of_only (plan.Known i known) ?_ h hf)
  · rintro op g ⟨hop, hg⟩
    exact guarded_of_own hg fun u hu => (hop u hu).1
  · rintro op g answer g' hop hg ⟨u, hmoved, hstep⟩
    exact (hop u (hg.moved hmoved)).2 answer g' hstep

variable (plan i) in
/-- The program keeps to the plan, whatever the others do. -/
abbrev Obeys (p : Action α) (f : Fleet ι) : Prop :=
  wp (plan.Shared i) (plan.Guarded i) p (fun _ => plan.Holds) f

theorem Known.obeys {p : Action α} (hf : plan.Known i known f)
    (h : Only (plan.Steady i known) p) : plan.Obeys i p f :=
  wp_mono (fun _ _ hg => hg.holds) (wp_only h hf)

theorem Holds.obeys {p : Action α} (hf : plan.Holds f)
    (h : ∀ {known}, Only (plan.Steady i known) p) : plan.Obeys i p f :=
  (hf.knows i).obeys h

theorem Obeys.bind {p : Action α} {q : α → Action β} (hp : plan.Obeys i p f)
    (hq : ∀ a g, plan.Holds g → plan.Obeys i (q a) g) : plan.Obeys i (p >>= q) f :=
  wp_bind.mpr (wp_mono hq hp)

/-! ### Steady operations -/

theorem steady_of_leaves {op : Op} (hop : op.LeavesServers) (hown : ∀ f, plan.Own i f op) :
    plan.Steady i known op := by
  intro f hf
  refine ⟨hown f, fun answer f' hstep => ⟨(hown f).holds hstep hf.holds, ?_⟩⟩
  obtain ⟨w, hfaulty, rfl⟩ := hstep
  have hservers := faulty_servers hop hfaulty
  rw [← hf.id]
  unfold Fleet.find Fleet.put
  dsimp only
  rw [hservers]
  rfl

theorem steady_silent {op : Op} (h : op.Silent) : plan.Steady i known op := by
  cases op with
  | admin kc request =>
    obtain hget | hsecret | hreport := h
    · exact steady_of_leaves hget fun _ hne => absurd hget hne
    · exact hsecret.elim
    · exact hreport.elim
  | updateObject obj => rcases h with h | h | h <;> exact h.elim
  | _ => exact steady_of_leaves trivial fun _ => trivial

theorem steady_reads {op : Op} (h : op.Reads) : plan.Steady i known op := steady_silent (.inl h)

theorem steady_writesSecret {op : Op} (h : op.WritesSecret) : plan.Steady i known op :=
  steady_silent (.inr (.inl h))

theorem steady_remarks {op : Op} (h : op.Remarks) : plan.Steady i known op :=
  steady_silent (silent_remarks op h)

theorem steady_patchObject (base obj : ManagedObject) : plan.Steady i known (.patchObject base obj) :=
  steady_of_leaves trivial fun _ => trivial

theorem steady_updateObject {obj : ManagedObject} (h : plan.Aims i obj) :
    plan.Steady i known (.updateObject obj) :=
  steady_of_leaves trivial fun _ => h

section Resource

variable {obj : ManagedObject} {kc : Conn} {id : String}

omit [DecidableEq ι] in
/-- The resource is addressed by its key, or by the id under which it was found. -/
theorem Aims.designates (haims : plan.Aims i obj) (hf : plan.Known i (some id) f) :
    (f.servers (plan.target i).server).Designates (plan.target i).place (plan.target i).key
      (obj.spec.itemAddress id) := by
  obtain ⟨r, hr, hid⟩ := Option.map_eq_some_iff.mp hf.id
  have hkey := haims.key
  rcases hspec : obj.spec with s | s | s | s | s | s <;> rw [hspec] at hkey <;>
    first | exact hkey | exact ⟨r, hr, hid⟩

/-- A write below the resource. -/
theorem steady_enforces (hworks : plan.Works i obj kc)
    {op : Op} (h : Enforces obj.spec kc id op) : plan.Steady i (some id) op := by
  have hquiet := h.quiet
  obtain ⟨method, endpoint, body, rfl, howns⟩ := h
  intro f hf
  have hown : plan.Own i f (.admin kc ⟨method, endpoint, body, .nothing⟩) := by
    have hitem := (Spec.quiet_of_owns howns).1
    refine fun _ => ⟨hworks.connected, ?_, ?_⟩
    · rw [hworks.connected]
      refine .write ((Spec.owner_of_owns howns).trans (by rw [hworks.place])) (hworks.designates hf) ?_
      intro _ hsome
      rw [hitem] at hsome
      cases hsome
    · rintro ⟨-, realm, hrealm⟩
      dsimp only at hrealm
      rw [hrealm] at hitem
      cases hitem
  refine ⟨hown, fun answer f' hstep => ⟨hown.holds hstep hf.holds, ?_⟩⟩
  rw [← hf.id]
  obtain ⟨w, hfaulty, rfl⟩ := hstep
  have hresources : ∀ name, (w.servers name).resources = (f.servers name).resources := fun name =>
    faulty_elim (P := fun u => (u.servers name).resources = (f.servers name).resources) hfaulty rfl
      fun _ hstep => reliable_resources hquiet hstep name
  unfold Fleet.find Server.find
  rw [show (f.put i w).servers = w.servers from rfl, hresources]

omit [DecidableEq ι] in
/-- The planned resource is what the passes look for. -/
theorem Works.target (hworks : plan.Works i obj kc) {w : World}
    (hservers : w.servers = f.servers) : w.target kc obj.spec = f.find (plan.target i) := by
  unfold World.target Fleet.find
  rw [hservers, hworks.connected, hworks.place, hworks.key]

/-- The update of the resource that was found. -/
theorem steady_update (hworks : plan.Works i obj kc)
    {remote payload : Object} (hbuilds : obj.Builds payload) :
    plan.Steady i (some id) (.admin kc
      ⟨.put, obj.spec.itemEndpoint id, .object (mergePayload remote payload), .nothing⟩) := by
  intro f hf
  obtain ⟨r, hr, hid⟩ := Option.map_eq_some_iff.mp hf.id
  have htarget : (f.world i).target kc obj.spec = some r := (hworks.target rfl).trans hr
  have hown : plan.Own i f (.admin kc
      ⟨.put, obj.spec.itemEndpoint id, .object (mergePayload remote payload), .nothing⟩) := by
    refine fun _ => ⟨hworks.connected, ?_, fun hremoves => by cases hremoves.1⟩
    rw [hworks.connected]
    refine .write ((obj.spec.owner_itemEndpoint id).trans (by rw [hworks.place]))
      (hworks.designates hf) fun _ _ => ⟨_, rfl, ?_⟩
    have hkey := hbuilds.key
    unfold stringField
    rw [← hworks.place, ← hworks.key, get_mergePayload, hkey]
    rfl
  refine ⟨hown, fun answer f' hstep => ⟨hown.holds hstep hf.holds, ?_⟩⟩
  obtain ⟨w, hfaulty, rfl⟩ := hstep
  rw [← hworks.target (show w.servers = (f.put i w).servers from rfl)]
  subst hid
  rcases faulty_put htarget (hbuilds.key_merged r remote) hfaulty with ⟨hsame, -⟩ | hstored
  · rw [show w.target kc obj.spec = _ from congrArg View.resource hsame]
    exact congrArg (Option.map Resource.id) htarget
  · rw [show w.target kc obj.spec = _ from congrArg View.resource hstored]
    rfl

/-- The rest of a pass, once the resource has been found. -/
theorem only_settle {e : Engine} (hworks : plan.Works i obj kc) {remote : Object}
    {next : ManagedObject → Bool → Action Pass} (hnext : e.Concludes obj next) :
    Only (plan.Steady i (some (remoteId remote)))
      (e.settle obj.spec.driver kc obj obj remote next) :=
  e.only_settle (fun _ => steady_remarks) obj
    (only_postApply (fun _ => steady_reads) (fun _ => steady_writesSecret)
      (fun _ => steady_enforces hworks) obj) fun _ changed =>
    hnext.only (fun _ => steady_remarks) _ (fun _ _ => steady_patchObject _ _) changed

end Resource

end Plan

/-! ### Looking the resource up -/

section Get

variable {σ : Type} {env : Env operations σ} {guard : Op → σ → Prop} {kc : Conn} {P : σ → Prop}
  {sees : Server → Prop}

/-- Reads are answered by a server in some state in `sees`, or fail. -/
structure Watching (env : Env operations σ) (guard : Op → σ → Prop) (kc : Conn) (P : σ → Prop)
    (sees : Server → Prop) : Prop where
  guarded : ∀ {request : Request} {s : σ}, request.method = .get → P s →
    guard (.admin kc request) s
  answered : ∀ {request : Request} {s s' : σ} {answer : Except Err request.out.Value},
    request.method = .get → P s → env (.admin kc request) s answer s' →
      P s' ∧ ∀ out, answer = .ok out →
        ∃ server, sees server ∧ (server.get request.endpoint).decode request.out = .ok out

theorem Watching.wp_send (h : Watching env guard kc P sees) {request : Request}
    (hmethod : request.method = .get) {s : σ} (hs : P s) :
    wp env guard (kc.send request).run (fun answer t => P t ∧ ∀ out, answer = .ok out →
      ∃ server, sees server ∧ (server.get request.endpoint).decode request.out = .ok out) s :=
  ⟨h.guarded hmethod hs, fun _ _ hstep => h.answered hmethod hs hstep⟩

/-- The representation is that of the resource which a server showed under the key. -/
def Shown (s : Spec) (sees : Server → Prop) (remote : Object) : Prop :=
  ∃ server r, sees server ∧ server.find s.place (.key s.naturalKey) = some r ∧
    remote.get "id" = some (.str r.id)

/-- A read of the item under the key. -/
theorem Watching.wp_item (h : Watching env guard kc P sees) (s : Spec) {endpoint : Endpoint}
    (hitem : ∀ server : Server, server.get endpoint =
      match server.find s.place (.key s.naturalKey) with
      | some r => .object r.report
      | none => notFound) {t : σ} (ht : P t) :
    wp env guard (kc.fetchObject endpoint).run
      (fun found t => P t ∧ ∀ remote, found = .ok remote → Shown s sees remote) t := by
  refine wp_mono ?_ (h.wp_send rfl ht)
  rintro found u ⟨hu, hfound⟩
  refine ⟨hu, fun remote hremote => ?_⟩
  obtain ⟨server, hsees, hget⟩ := hfound remote hremote
  dsimp only at hget
  rw [hitem server] at hget
  rcases hfind : server.find s.place (.key s.naturalKey) with _ | r
  · rw [hfind] at hget
    cases hget
  · rw [hfind] at hget
    cases hget
    exact ⟨server, r, hsees, hfind, r.get_report_id⟩

/-- A search whose answers are compared with the key again. -/
theorem Watching.wp_search (h : Watching env guard kc P sees) (s : Spec) {endpoint : Endpoint}
    {found : Server → List Resource} {what : String}
    (hget : ∀ server : Server, server.get endpoint = .objects ((found server).map Resource.report))
    (hfind : ∀ server, (found server).find? ((Address.key s.naturalKey).names s.place.kind.keyField) =
      server.find s.place (.key s.naturalKey)) {t : σ} (ht : P t) :
    wp env guard (kc.fetchObjects endpoint >>= fun out =>
        Conn.findByField out s.place.kind.keyField s.naturalKey what).run
      (fun found t => P t ∧ ∀ remote, found = .ok remote → Shown s sees remote) t := by
  refine wp_run_bind.mpr (wp_mono ?_ (h.wp_send rfl ht))
  rintro answer u ⟨hu, hanswer⟩
  rcases answer with err | out
  · exact ⟨hu, fun remote hremote => by cases hremote⟩
  obtain ⟨server, hsees, hout⟩ := hanswer out rfl
  dsimp only at hout
  rw [hget server] at hout
  cases hout
  change wp env guard (Conn.findByField ((found server).map Resource.report) _ _ what).run _ u
  unfold Conn.findByField
  rw [find?_report (Kind.keyField_ne_id _), hfind server]
  rcases hr : server.find s.place (.key s.naturalKey) with _ | r
  · exact ⟨hu, fun remote hremote => by cases hremote⟩
  · refine ⟨hu, fun remote hremote => ?_⟩
    cases hremote
    exact ⟨server, r, hsees, hr, r.get_report_id⟩

/-- A group is searched by its name and then read by its id: the representation may be a later one,
    but it is that of the group which was found. -/
theorem Watching.wp_findGroup (h : Watching env guard kc P sees) (s : GroupSpec) {t : σ} (ht : P t) :
    wp env guard (kc.findGroup s.realm s.name).run
      (fun found t => P t ∧ ∀ remote, found = .ok remote → Shown (.group s) sees remote) t := by
  refine wp_run_bind.mpr (wp_mono ?_ (h.wp_send rfl ht))
  rintro answer u ⟨hu, hanswer⟩
  rcases answer with err | out
  · exact ⟨hu, fun remote hremote => by cases hremote⟩
  obtain ⟨server, hsees, hout⟩ := hanswer out rfl
  cases hout
  change wp env guard (Conn.findByField ((server.resources _).items.filter _ |>.map
    (Resource.summary s.name)) "name" s.name "group" >>= _).run _ u
  rw [findByField_groupSearch]
  rcases hr : server.find ⟨.group, s.realm⟩ (.key s.name) with _ | r
  · exact ⟨hu, fun remote hremote => by cases hremote⟩
  refine wp_run_bind.mpr (wp_run_pure.mpr ?_)
  dsimp only
  rw [r.id_summary]
  split
  · exact ⟨hu, fun remote hremote => by cases hremote⟩
  refine wp_mono ?_ (h.wp_send rfl hu)
  rintro found v ⟨hv, hfound⟩
  refine ⟨hv, fun remote hremote => ?_⟩
  obtain ⟨later, -, hget⟩ := hfound remote hremote
  change (match later.find ⟨.group, s.realm⟩ (.id r.id) with
    | some r => Reply.object r.report
    | none => notFound).decode .object = .ok remote at hget
  rcases hlater : later.find ⟨.group, s.realm⟩ (.id r.id) with _ | r'
  · rw [hlater] at hget
    cases hget
  · rw [hlater] at hget
    cases hget
    have hid : r'.id = r.id := of_decide_eq_true (Collection.find_eq_some_iff.mp hlater).2
    refine ⟨server, r, hsees, hr, ?_⟩
    rw [← hid]
    exact r'.get_report_id

/-- `Get` shows the resource under the key, while others write. -/
theorem Watching.wp_get (h : Watching env guard kc P sees) (s : Spec) {t : σ} (ht : P t) :
    wp env guard (s.driver.get kc).run
      (fun found t => P t ∧ ∀ remote, found = .ok remote → Shown s sees remote) t := by
  rcases s with s | s | s | s | s | s
  · exact h.wp_item (.realm s) (fun _ => rfl) ht
  · exact h.wp_search (.client s) (fun _ => rfl) (fun server => Collection.find?_filter_names _ _) ht
  · exact h.wp_search (.clientScope s) (fun _ => rfl) (fun _ => rfl) ht
  · exact h.wp_item (.realmRole s) (fun _ => rfl) ht
  · exact h.wp_item (.identityProvider s) (fun _ => rfl) ht
  · exact h.wp_findGroup s ht

end Get

namespace Plan

variable {ι : Type} [DecidableEq ι] {plan : Plan ι} {i : ι} {known : Option String} {f : Fleet ι}
  {e : Engine} {obj : ManagedObject} {kc : Conn}

/-! ### A pass -/

theorem watching (hworks : plan.Works i obj kc) :
    Watching (plan.Shared i) (plan.Guarded i) kc (plan.Known i known) fun server =>
      (server.find obj.spec.place (.key obj.spec.naturalKey)).map Resource.id = known where
  guarded hmethod hf := guarded_of_own hf fun _ _ hne => absurd hmethod hne
  answered := by
    rintro request g g' answer hmethod hg ⟨u, hmoved, hstep⟩
    have hu := hg.moved hmoved
    refine ⟨(steady_reads (show Op.Reads (.admin kc request) from hmethod) u hu).2 answer g' hstep, ?_⟩
    rintro out rfl
    obtain ⟨w, hfaulty, rfl⟩ := hstep
    rcases (faulty_get hmethod hfaulty).2 with ⟨err, herr⟩ | hok
    · cases herr
    refine ⟨_, ?_, hok.symm⟩
    have hid := hu.id
    unfold Fleet.find at hid
    rw [← hworks.connected, ← hworks.place, ← hworks.key] at hid
    exact hid

/-- What `Get` shows is the planned resource. -/
theorem wp_get (hworks : plan.Works i obj kc)
    (hf : plan.Known i known f) :
    wp (plan.Shared i) (plan.Guarded i) (obj.spec.driver.get kc).run
      (fun found g => plan.Known i known g ∧ ∀ remote, found = .ok remote →
        known = some (remoteId remote) ∧ remote.get "id" = some (.str (remoteId remote))) f := by
  refine wp_mono ?_ ((watching hworks).wp_get obj.spec hf)
  rintro found g ⟨hg, hfound⟩
  refine ⟨hg, fun remote hremote => ?_⟩
  obtain ⟨server, r, hsees, hr, hid⟩ := hfound remote hremote
  have hremoteId : remoteId remote = r.id := by
    simp [remoteId, stringField, hid]
  rw [hr] at hsees
  rw [hremoteId]
  exact ⟨hsees.symm, hid⟩

theorem Holds.stops {p : Action Pass} (hf : plan.Holds f) (h : e.Stops obj p) :
    plan.Obeys i p f := hf.obeys (h.only fun _ => steady_remarks)

theorem stations_obey (hworks : plan.Works i obj kc) :
    Stations e (plan.Shared i) (plan.Guarded i) kc obj plan.Holds plan.Holds
      (fun remote g => plan.Known i (some (remoteId remote)) g ∧
        remote.get "id" = some (.str (remoteId remote)))
      (fun remote _ g => plan.Known i (some (remoteId remote)) g) (fun _ => plan.Holds) := by
  constructor
  case declined => exact fun _ hg => hg.stops (.refused _ _ _ _)
  case looked =>
    intro g _ hg
    refine wp_mono ?_ (wp_get hworks (hg.knows i))
    rintro (err | remote) u ⟨hu, hfound⟩
    · exact ⟨fun _ => hu.holds, fun _ => hu.holds.stops (e := e) (.retried _ _)⟩
    · obtain ⟨hknown, hid⟩ := hfound remote rfl
      exact ⟨hknown ▸ hu, hid⟩
  case rejected => exact fun _ _ hg => hg.1.holds.stops (.refused _ _ _ _)
  case adopted =>
    exact fun hg => wp_mono (fun _ _ hu => ⟨hu, hg.2⟩)
      (wp_only (e.only_record (fun _ => steady_remarks) _ _ _) hg.1)
  case enforced =>
    rintro effective remote adopting g - heffective - - ⟨hg, hid⟩
    refine wp_mono ?_ (wp_yields (yields_preparePayload_stamped heffective)
      (wp_only (only_preparePayload (fun _ => steady_reads) _ _ _) hg))
    rintro (err | payload) u ⟨hbuilds, hu⟩
    · exact hu.holds.stops (.refused _ _ _ _)
    refine ⟨fun _ => hu, fun _ => ?_⟩
    have honly : Only (plan.Steady i (some (remoteId remote)))
        (e.correctDrift obj.spec.driver kc obj remote payload).run := by
      refine only_run_bind (only_run_lift ⟨steady_remarks trivial, fun _ => trivial⟩) fun _ => ?_
      refine only_run_bind ?_ fun _ => only_run_lift (e.only_record (fun _ => steady_remarks) _ _ _)
      rw [driver_update, itemEndpoint_of_get_id (r := ⟨remoteId remote, ∅, none⟩) hid]
      exact only_send (steady_update hworks (hbuilds payload rfl))
    refine wp_mono ?_ (wp_only honly hu)
    rintro (err | _) x hx
    · exact hx.holds.stops (.notUpdated e obj err)
    · exact hx
  case created =>
    intro effective g _ heffective hg
    refine wp_mono ?_ (wp_yields (yields_preparePayload heffective)
      (hg.obeys (only_preparePayload (fun _ => steady_reads) _ _ _)))
    rintro (err | payload) u ⟨hbuilds, hu⟩
    · exact hu.stops (.refused _ _ _ _)
    -- the creation is confined by the key of its body
    have hcreate : ∀ x, plan.Own i x (.admin kc ⟨.post, obj.spec.collectionEndpoint,
        .object (obj.spec.driver.managedMarker payload), .nothing⟩) := by
      refine fun x _ =>
        ⟨hworks.connected, .create ?_ ⟨_, rfl, ?_⟩, fun hremoves => by cases hremoves.1⟩
      · rw [← hworks.place]
        exact Spec.collection_collectionEndpoint _
      · rw [← hworks.place, ← hworks.key]
        exact (hbuilds payload rfl).stringField_key
    dsimp only
    rw [driver_create]
    refine ⟨guarded_of_own (hu.knows i) fun x _ => hcreate x, ?_⟩
    rintro created x ⟨y, hmoved, hstep⟩
    have hx : plan.Holds x := (hcreate y).holds hstep ((hu.knows i).moved hmoved).holds
    rcases created with err | _
    · exact hx.stops (.notCreated e obj err)
    change wp (plan.Shared i) (plan.Guarded i) (e.record _ _ _) _ _
    refine wp_mono (fun _ y hy => wp_mono ?_ (wp_get hworks (hy.knows i)))
      (hx.obeys (e.only_record (fun _ => steady_remarks) _ _ _))
    rintro (err | remote) z ⟨hz, hfetched⟩
    · exact hz.holds.stops (e := e) (.unfetched err)
    · rw [(hfetched remote rfl).1] at hz
      exact hz
  case settled => exact fun hnext hg => hg.obeys (only_settle hworks hnext)

/-- The deletion of what was found under the key. -/
theorem obeys_remove (hworks : plan.Works i obj kc) (hkind : obj.spec.kind ≠ .realm) {id : String}
    (hdesignates : ∀ g, plan.Known i known g →
      (g.servers (plan.target i).server).Designates (plan.target i).place (plan.target i).key
        (obj.spec.itemAddress id)) (hf : plan.Known i known f) :
    plan.Obeys i (kc.submit .delete (obj.spec.itemEndpoint id) .none).run f := by
  have hown : ∀ g, plan.Known i known g → plan.Own i g
      (.admin kc ⟨.delete, obj.spec.itemEndpoint id, .none, .nothing⟩) := by
    refine fun g hg _ => ⟨hworks.connected, ?_, ?_⟩
    · rw [hworks.connected]
      refine .write ((obj.spec.owner_itemEndpoint id).trans (by rw [hworks.place])) (hdesignates g hg) ?_
      intro hput
      cases hput
    · rintro ⟨-, realm, hrealm⟩
      rcases hspec : obj.spec with s | s | s | s | s | s <;> rw [hspec] at hkind hrealm
      · exact hkind rfl
      all_goals cases hrealm
  refine ⟨guarded_of_own hf hown, ?_⟩
  rintro answer g ⟨u, hmoved, hstep⟩
  have hu := hf.moved hmoved
  exact (hown u hu).holds hstep hu.holds

/-- The search for the resource, and the deletion of what it found. -/
theorem obeys_remove_found (hworks : plan.Works i obj kc) (hkind : obj.spec.kind ≠ .realm)
    (hf : plan.Holds f) :
    plan.Obeys i (obj.spec.driver.get kc >>= fun remote => assertId remote >>= fun id =>
      kc.submit .delete (obj.spec.itemEndpoint id) .none).run f := by
  refine wp_run_bind.mpr (wp_mono ?_ (wp_get hworks (hf.knows i)))
  rintro found g ⟨hg, hfound⟩
  rcases found with err | remote
  · exact hg.holds
  obtain ⟨hknown, hid⟩ := hfound remote rfl
  have hassert : assertId remote = pure (remoteId remote) := by
    simp [assertId, stringField, hid]
  dsimp only
  rw [hassert]
  rw [hknown] at hg
  refine wp_run_bind.mpr (wp_run_pure.mpr ?_)
  exact obeys_remove hworks hkind (fun u hu => hworks.designates hu) hg

theorem obeys_delete (hworks : plan.Works i obj kc) (hkind : obj.spec.kind ≠ .realm)
    (hf : plan.Holds f) : plan.Obeys i (obj.spec.driver.delete kc).run f := by
  have hfound := obeys_remove_found hworks hkind hf
  have hitem : (∀ id, obj.spec.itemAddress id = .key obj.spec.naturalKey) →
      plan.Obeys i (kc.submit .delete (obj.spec.itemEndpoint "") .none).run f := by
    intro haddress
    refine obeys_remove hworks hkind (fun u _ => ?_) (hf.knows i)
    rw [haddress]
    exact hworks.key
  rcases hspec : obj.spec with s | s | s | s | s | s <;> rw [hspec] at hfound hitem
  · exact hitem fun _ => rfl
  · exact hfound
  · exact hfound
  · exact hitem fun _ => rfl
  · exact hitem fun _ => rfl
  · exact hfound

omit [DecidableEq ι] in
theorem Aims.withFinalizers (haims : plan.Aims i obj) (finalizers : List String) :
    plan.Aims i { obj with finalizers := finalizers } :=
  ⟨haims.ns, haims.server, haims.place, haims.key, haims.realm⟩

theorem obeys_updateObject (haims : plan.Aims i obj) (hf : plan.Holds f) (finalizers : List String)
    (requeueAfter : Nat) :
    plan.Obeys i (Engine.updateObject { obj with finalizers := finalizers } requeueAfter) f :=
  hf.obeys (Engine.only_updateObject (steady_updateObject (haims.withFinalizers _)) _)

theorem obeys_handleDeletion (hworks : plan.Works i obj kc) (hf : plan.Holds f) :
    plan.Obeys i (e.handleDeletion obj.spec.driver kc obj) f := by
  refine Engine.wp_handleDeletion_of (fun _ => obeys_updateObject hworks.toAims hf _ 0)
    fun hpolicy => wp_mono (fun result g hg => ⟨fun _ _ _ => hg, fun _ => ?_⟩)
      (obeys_delete hworks (fun hkind => ?_) hf)
  case refine_2 => cases hpolicy.symm.trans (hworks.realm hkind)
  exact wp_mono (fun _ u hu => obeys_updateObject hworks.toAims hu _ 0)
    (hg.obeys (e.only_record (fun _ => steady_remarks) _ _ _))

theorem obeys_reconcile (haims : plan.Aims i obj) (hf : plan.Holds f) :
    plan.Obeys i (e.reconcile obj) f := by
  have hconnect : ∀ {known}, plan.Steady i known (.connect obj.ns obj.spec.connectionName) :=
    steady_silent (silent_reports (.connect _ _) trivial)
  refine Engine.wp_reconcile_of (fun _ => plan.Holds)
    (fun _ g hg => hg.obeys (p := perform (.reconciled _ _))
      ⟨steady_silent (silent_reports _ trivial), fun _ => trivial⟩)
    (fun _ => obeys_updateObject haims hf _ _) fun _ =>
      ⟨guarded_of_own (hf.knows i) fun u hu => (hconnect u hu).1, ?_⟩
  rintro answer g ⟨u, hmoved, hstep⟩
  have hu := (hf.knows i).moved hmoved
  have hg : plan.Holds g := ((hconnect u hu).2 answer g hstep).holds
  rcases answer with message | kc
  · exact hg.stops (e := e) (.unavailable message)
  obtain ⟨w, hfaulty, -⟩ := hstep
  have hworks : plan.Works i obj kc := by
    refine ⟨haims, ?_⟩
    rw [← haims.server]
    rcases (faulty_connect hfaulty).2 with hok | ⟨err, herr⟩
    · exact hu.holds.connections _ _ _ hok.symm
    · cases herr
  exact ⟨fun _ => obeys_handleDeletion hworks hg, fun _ _ => obeys_updateObject haims hg _ _,
    fun _ _ => (stations_obey hworks).wp_apply hg⟩

/-- **A pass keeps to the plan**, whatever the others do meanwhile. -/
theorem obeys_controllerReconcile (hf : plan.Holds f) :
    plan.Obeys i e.controllerReconcile.run f := by
  have hget : ∀ {known}, plan.Steady i known .getObject :=
    steady_of_leaves trivial fun _ => trivial
  refine e.wp_controllerReconcile_of (guarded_of_own (hf.knows i) fun u hu => (hget u hu).1) ?_ ?_
  · rintro err g ⟨u, hmoved, hstep⟩ result -
    exact ((hget u ((hf.knows i).moved hmoved)).2 _ g hstep).holds
  · rintro obj g ⟨u, hmoved, hstep⟩
    have hu := (hf.knows i).moved hmoved
    have hg : plan.Holds g := ((hget u hu).2 _ g hstep).holds
    obtain ⟨w, hfaulty, -⟩ := hstep
    exact obeys_reconcile (hu.holds.objects i obj (faulty_getObject_ok hfaulty).2) hg

theorem obeys_passes (n : Nat) (hf : plan.Holds f) : plan.Obeys i (e.passes n) f := by
  induction n generalizing f with
  | zero => exact hf
  | succ n ih => exact Obeys.bind (obeys_controllerReconcile hf) fun _ _ hg => ih hg

end Plan

/-- The API servers for a fleet, when nothing fails. -/
def Fleet.handle {ι : Type} [DecidableEq ι] : Handler (tagged ι operations) (Fleet ι) := fun op f =>
  let (answer, w) := World.handle World.sorted 0 op.2 (f.world op.1)
  (answer, f.put op.1 w)

theorem fleetApi_handle {ι : Type} [DecidableEq ι] (op : ι × Op) (f : Fleet ι) :
    FleetApi op f (Fleet.handle op f).1 (Fleet.handle op f).2 :=
  ⟨_, .inl ⟨World.sorted, 0, rfl⟩, rfl⟩

/-- The client ID of the one client and of the other. -/
def storeClient (admin : Bool) : String := if admin then "backoffice" else "shop"

/-- The custom resource of the shop is being deleted. -/
def storeObject (admin : Bool) : ManagedObject where
  ns := "apps"
  name := storeClient admin
  uid := storeClient admin
  generation := 1
  finalizers := [finalizerName]
  deletionTimestamp := if admin then none else some 5
  spec := .client
    { keycloakRef := "main", realm := "demo", clientId := storeClient admin,
      fields := ⟨∅, Fields.typed_empty _⟩ }

def storeServer : Server :=
  (∅ : Server).setResources ⟨.client, "demo"⟩
    ⟨[⟨"1", .ofList [("clientId", .str "shop")], none⟩,
      ⟨"2", .ofList [("clientId", .str "backoffice")], none⟩], by decide, by decide⟩

def storeFleet : Fleet Bool where
  objects := fun admin => some (storeObject admin)
  servers := fun _ => storeServer
  connections := fun _ name => .ok ⟨name, "keycloak"⟩
  secrets := fun _ _ => none

def storePlan : Plan Bool where
  ns := fun _ => "apps"
  serverOf := fun _ _ => "keycloak"
  target := fun admin => ⟨"keycloak", ⟨.client, "demo"⟩, storeClient admin⟩
  distinct := by decide

theorem storePlan_holds : storePlan.Holds storeFleet where
  connections ns name kc hkc := by
    cases hkc
    rfl
  objects admin obj hobj := by
    cases hobj
    exact ⟨rfl, rfl, rfl, rfl, fun hkind => by cases hkind⟩

end KeycloakOperator
