import Mathlib.Algebra.Order.BigOperators.Group.List
import KeycloakOperator.Footprint
import KeycloakOperator.World

/-!
# Looking up the resource of a spec

`World.target` is the resource that a spec names, by its natural key, on the server of a
connection.  `wp_get` says that the `Get` of every driver finds exactly it, through
whichever of the three kinds of requests: an item by name, a search whose answers are
compared again, or a search followed by a fetch by id.
-/

namespace KeycloakOperator

open Prog

/-! ### Collections -/

namespace Resource

@[simp] theorem get_report_id (r : Resource) : r.report.get "id" = some (.str r.id) :=
  FiniteMap.get_put_self _ _ _

theorem get_report_of_ne (r : Resource) {k : String} (hk : k ≠ "id") :
    r.report.get k = r.rep.get k :=
  FiniteMap.get_put_of_ne _ _ hk

theorem remoteId_report (r : Resource) : remoteId r.report = r.id := by
  simp [remoteId, stringField]

theorem get_overlay (r : Resource) (body : Object) {k : String} (hk : k ≠ "id") :
    (r.overlay body).rep.get k = (body.get k).or (r.rep.get k) := by
  unfold overlay
  rw [FiniteMap.get_ofFun_of_support, FiniteMap.get_erase_of_ne _ hk]
  · rcases body.get k with _ | v <;> rfl
  · intro k' hk'
    rw [Finset.mem_union, not_or, ← FiniteMap.get_eq_none_iff, ← FiniteMap.get_eq_none_iff] at hk'
    rw [hk'.1, hk'.2]
    rfl

end Resource

namespace Collection

variable {keyField : String} {c : Collection keyField} {r r' : Resource}

/-- An address names at most one resource of a collection. -/
theorem eq_of_names {address : Address} (hr : r ∈ c.items) (hr' : r' ∈ c.items)
    (hnames : address.names keyField r) (hnames' : address.names keyField r') : r = r' := by
  rcases address with value | value
  · have hkey : r.key keyField = some value := of_decide_eq_true hnames
    have hkey' : r'.key keyField = some value := of_decide_eq_true hnames'
    by_contra hne
    have hsymm : Std.Symm fun a b : Resource => ∀ v, a.key keyField = some v →
        ∀ v', b.key keyField = some v' → v ≠ v' :=
      ⟨fun a b h v hv v' hv' heq => h v' hv' v hv heq.symm⟩
    exact (List.pairwise_filterMap.mp c.nodup_keys).forall hr hr' hne value hkey value hkey' rfl
  · have hid : r.id = value := of_decide_eq_true hnames
    have hid' : r'.id = value := of_decide_eq_true hnames'
    exact List.inj_on_of_nodup_map c.nodup_ids hr hr' (hid.trans hid'.symm)

theorem find?_filter_names (c : Collection keyField) (address : Address) :
    (c.items.filter (address.names keyField)).find? (address.names keyField) = c.find address := by
  simp [List.find?_filter, find]

theorem find_eq_some_iff {address : Address} :
    c.find address = some r ↔ r ∈ c.items ∧ address.names keyField r := by
  constructor
  · intro h
    exact ⟨List.mem_of_find?_eq_some h, List.find?_some h⟩
  · rintro ⟨hr, hnames⟩
    have hfound : (c.find address).isSome = true := List.find?_isSome.mpr ⟨r, hr, hnames⟩
    obtain ⟨r', hr'⟩ := Option.isSome_iff_exists.mp hfound
    rw [hr', eq_of_names (List.mem_of_find?_eq_some hr') hr (List.find?_some hr') hnames]

/-- A new id is none of the ids that are taken. -/
theorem freshId_notMem (taken : List String) : freshId taken ∉ taken := by
  intro hmem
  have hlength : (freshId taken).length ≤ (taken.map String.length).sum :=
    List.le_sum_of_mem (List.mem_map_of_mem hmem)
  simp [freshId] at hlength

theorem freshId_ne_empty (taken : List String) : freshId taken ≠ "" := by
  intro hempty
  have hlength : (freshId taken).length = 0 := by rw [hempty]; rfl
  simp [freshId] at hlength

theorem ofItems?_isSome {items : List Resource} (hids : (items.map Resource.id).Nodup)
    (hkeys : (items.filterMap (Resource.key keyField)).Nodup) :
    ∃ c : Collection keyField, ofItems? items = some c :=
  ⟨_, dif_pos ⟨hids, hkeys⟩⟩

/-- There is room for a resource under a free key. -/
theorem insert?_isSome {body : Object} {key : String} (created : Option String)
    (hkey : stringField (body.erase "id") keyField = some key) (hfree : c.find (.key key) = none) :
    ∃ c', c.insert? body created = some c' := by
  apply ofItems?_isSome
  · rw [List.map_append, List.nodup_append]
    refine ⟨c.nodup_ids, List.nodup_singleton _, fun id hid id' hid' heq => ?_⟩
    rw [List.map_singleton, List.mem_singleton] at hid'
    exact freshId_notMem _ (hid' ▸ heq ▸ hid)
  · rw [List.filterMap_append, List.nodup_append]
    have hnew : List.filterMap (Resource.key keyField)
        [⟨freshId (c.items.map Resource.id), body.erase "id", created⟩] = [key] := by
      simp [Resource.key, hkey]
    rw [hnew]
    refine ⟨c.nodup_keys, List.nodup_singleton _, fun k hk k' hk' heq => ?_⟩
    rw [List.mem_singleton] at hk'
    obtain ⟨r, hr, hrkey⟩ := List.mem_filterMap.mp hk
    have hnames : (Address.key key).names keyField r = true :=
      decide_eq_true (hk' ▸ heq ▸ hrkey)
    rw [find_eq_some_iff.mpr ⟨hr, hnames⟩] at hfree
    cases hfree

/-- A body that keeps the key of the addressed resource fits in. -/
theorem overlay?_isSome {address : Address} {body : Object} (hr : r ∈ c.items)
    (hnames : address.names keyField r) (hkey : (r.overlay body).key keyField = r.key keyField) :
    ∃ c', c.overlay? address body = some c' := by
  have hkeys : ∀ r' ∈ c.items, (if address.names keyField r' then r'.overlay body else r').key
      keyField = r'.key keyField := by
    intro r' hr'
    split
    case isTrue hnames' => rw [eq_of_names hr' hr hnames' hnames, hkey]
    case isFalse => rfl
  apply ofItems?_isSome
  · have hids : (fun r => (if address.names keyField r then r.overlay body else r).id) =
        Resource.id := by
      funext r
      split <;> rfl
    rw [List.map_map]
    exact (congrArg (fun f => (c.items.map f).Nodup) hids).mpr c.nodup_ids
  · have hsame : (c.items.map fun r => if address.names keyField r then r.overlay body else r).filterMap
        (Resource.key keyField) = c.items.filterMap (Resource.key keyField) := by
      rw [List.filterMap_map]
      exact List.filterMap_congr hkeys
    rw [hsame]
    exact c.nodup_keys

end Collection

/-! ### The place of a spec -/

namespace Spec

/-- The collection that holds the resource. -/
def place (s : Spec) : Place :=
  match s.kind with
  | .realm => ⟨.realm, ""⟩
  | kind => ⟨kind, s.targetRealm⟩

/-- How a request names the resource whose id is `id`. -/
def itemAddress (s : Spec) (id : String) : Address :=
  match s.kind with
  | .client | .clientScope | .group => .id id
  | .realm | .realmRole | .identityProvider => .key s.naturalKey

theorem collection_collectionEndpoint (s : Spec) :
    s.collectionEndpoint.collection = some s.place := by
  cases s <;> rfl

theorem item_itemEndpoint (s : Spec) (id : String) :
    (s.itemEndpoint id).item = some (s.place, s.itemAddress id) := by
  cases s <;> rfl

theorem item_collectionEndpoint (s : Spec) : s.collectionEndpoint.item = none := by
  cases s <;> rfl

theorem collection_itemEndpoint (s : Spec) (id : String) :
    (s.itemEndpoint id).collection = none := by
  cases s <;> rfl

end Spec

theorem Kind.keyField_ne_id (kind : Kind) : kind.keyField ≠ "id" := by
  cases kind <;> decide

/-- The resource on the server of the connection that the spec names. -/
def World.target (w : World) (kc : Conn) (s : Spec) : Option Resource :=
  (w.servers kc.server).find s.place (.key s.naturalKey)

/-- The resource of a spec is the one that its item endpoint addresses. -/
theorem names_itemAddress {s : Spec} {r : Resource}
    (hkey : r.key s.place.kind.keyField = some s.naturalKey) :
    (s.itemAddress r.id).names s.place.kind.keyField r = true := by
  rcases s with s | s | s | s | s | s
  · exact decide_eq_true hkey
  · exact decide_eq_true rfl
  · exact decide_eq_true rfl
  · exact decide_eq_true hkey
  · exact decide_eq_true hkey
  · exact decide_eq_true rfl

/-- Whether a representation carries the managed marker. -/
def Kind.marked : Kind → Object → Bool
  | .realm | .client | .clientScope => managedByStringAttribute
  | .realmRole | .group => managedBySliceAttribute
  | .identityProvider => fun _ => false

theorem Kind.marked_of_attributes_none {kind : Kind} {rep : Object}
    (h : rep.get "attributes" = none) : kind.marked rep = false := by
  cases kind <;> simp [Kind.marked, managedByStringAttribute, managedBySliceAttribute, mapField,
    stringField, h]

theorem driver_isManaged (s : Spec) : s.driver.isManaged = s.kind.marked := by
  cases s <;> rfl

/-! ### Reads -/

@[simp] theorem World.setServer_self (w : World) (name : String) :
    w.setServer name (w.servers name) = w := by
  simp [World.setServer]

@[simp] theorem World.servers_setServer (w : World) (name : String) (server : Server) :
    (w.setServer name server).servers name = server := by
  simp [World.setServer]

@[simp] theorem World.setServer_setServer (w : World) (name : String) (server server' : Server) :
    (w.setServer name server).setServer name server' = w.setServer name server' := by
  simp [World.setServer]

theorem reliable_get {kc : Conn} {request : Request} {w w' : World}
    {answer : Except Err request.out.Value} (hmethod : request.method = .get)
    (h : Reliable (.admin kc request) w answer w') :
    w' = w ∧ answer = ((w.servers kc.server).get request.endpoint).decode request.out := by
  obtain ⟨order, now, heq⟩ := h
  obtain ⟨method, endpoint, body, out⟩ := request
  subst hmethod
  rw [← (Prod.mk.inj heq).1, ← (Prod.mk.inj heq).2]
  exact ⟨World.setServer_self _ _, rfl⟩

theorem faulty_get {kc : Conn} {request : Request} {w w' : World}
    {answer : Except Err request.out.Value} (hmethod : request.method = .get)
    (h : Faulty (.admin kc request) w answer w') :
    w' = w ∧ ((∃ err, answer = .error err) ∨
      answer = ((w.servers kc.server).get request.endpoint).decode request.out) := by
  rcases h with h | ⟨hfailure, rfl | ⟨lost, hlost⟩⟩
  · exact ⟨(reliable_get hmethod h).1, .inr (reliable_get hmethod h).2⟩
  · exact ⟨rfl, .inl hfailure⟩
  · exact ⟨(reliable_get hmethod hlost).1, .inl hfailure⟩

/-- An environment that answers reads with what the servers hold, or with an error
    where `errs` allows it. -/
structure Reading (env : Env operations World) (errs : Prop) : Prop where
  get : ∀ {kc : Conn} {request : Request} {w w' : World} {answer : Except Err request.out.Value},
    request.method = .get → env (.admin kc request) w answer w' →
      w' = w ∧ ((errs ∧ ∃ err, answer = .error err) ∨
        answer = ((w.servers kc.server).get request.endpoint).decode request.out)

theorem reading_reliable : Reading Reliable False :=
  ⟨fun hmethod h => ⟨(reliable_get hmethod h).1, .inr (reliable_get hmethod h).2⟩⟩

theorem reading_faulty : Reading Faulty True :=
  ⟨fun hmethod h => ⟨(faulty_get hmethod h).1,
    (faulty_get hmethod h).2.imp (fun herr => ⟨trivial, herr⟩) fun h => h⟩⟩

/-- An environment that answers reads with what the servers hold, or with one of the
    errors `errs`. -/
structure Answering (env : Env operations World) (errs : Err → Prop) : Prop where
  get : ∀ {kc : Conn} {request : Request} {w w' : World} {answer : Except Err request.out.Value},
    request.method = .get → env (.admin kc request) w answer w' →
      w' = w ∧ ((∃ err, errs err ∧ answer = .error err) ∨
        answer = ((w.servers kc.server).get request.endpoint).decode request.out)

theorem Reading.answering {env : Env operations World} {errs : Prop} (h : Reading env errs) :
    Answering env fun _ => errs :=
  ⟨fun hmethod hstep => (h.get hmethod hstep).imp_right (Or.imp_left
    fun ⟨herrs, err, heq⟩ => ⟨err, herrs, heq⟩)⟩

section Get

variable {env : Env operations World} {errs : Err → Prop} {guard : Op → World → Prop} {w : World}
  {kc : Conn}

theorem wp_send {request : Request} {post : Except Err request.out.Value → World → Prop}
    (hanswering : Answering env errs) (hmethod : request.method = .get)
    (hguard : guard (.admin kc request) w) (herr : ∀ err, errs err → post (.error err) w)
    (hok : post (((w.servers kc.server).get request.endpoint).decode request.out) w) :
    wp env guard (kc.send request).run post w := by
  refine ⟨hguard, fun answer w' hstep => ?_⟩
  obtain ⟨rfl, ⟨err, herrs, rfl⟩ | rfl⟩ := hanswering.get hmethod hstep
  · exact herr err herrs
  · exact hok

/-- Comparing the reports with the key is comparing the resources with it. -/
theorem find?_report {keyField : String} (hfield : keyField ≠ "id") (key : String)
    (rs : List Resource) :
    (rs.map Resource.report).find? (fun rep => decide (rep.get keyField = some (.str key))) =
      (rs.find? ((Address.key key).names keyField)).map Resource.report := by
  rw [List.find?_map]
  congr 2
  funext r
  refine decide_eq_decide.mpr ?_
  rw [r.get_report_of_ne hfield]
  unfold Resource.key stringField
  rcases r.rep.get keyField with _ | v
  · simp
  · simp [JSON.asString_eq_some]

theorem wp_findByField {post : Except Err Object → World → Prop} {keyField key what : String}
    {c : Collection keyField} {rs : List Resource} (hfield : keyField ≠ "id")
    (hrs : rs.find? ((Address.key key).names keyField) = c.find (.key key))
    (hnone : c.find (.key key) = none → ∀ err, err.kind = .notFound → post (.error err) w)
    (hsome : ∀ r, c.find (.key key) = some r → post (.ok r.report) w) :
    wp env guard (Conn.findByField (rs.map Resource.report) keyField key what).run post w := by
  unfold Conn.findByField
  rw [find?_report hfield, hrs]
  rcases hfound : c.find (.key key) with _ | r
  · exact hnone hfound _ rfl
  · exact hsome r hfound

/-- The client with a client ID. -/
def Server.client (server : Server) (realm clientId : String) : Option Resource :=
  server.find ⟨.client, realm⟩ (.key clientId)

theorem wp_findClient (hanswering : Answering env errs) {realm clientId : String}
    {post : Except Err Object → World → Prop} (hguard : ∀ op, op.Reads → guard op w)
    (herr : ∀ err, errs err → post (.error err) w)
    (hnone : (w.servers kc.server).client realm clientId = none →
      post (.error ⟨.notFound, "resource not found: client " ++ quote clientId⟩) w)
    (hsome : ∀ client, (w.servers kc.server).client realm clientId = some client →
      post (.ok client.report) w) :
    wp env guard (kc.findClient realm clientId).run post w := by
  refine wp_run_bind.mpr ?_
  refine wp_send hanswering rfl (hguard _ rfl) herr ?_
  -- the search is by client ID already
  have hfind : (((w.servers kc.server).resources ⟨.client, realm⟩).items.filter
        ((Address.key clientId).names "clientId")).find? ((Address.key clientId).names "clientId") =
      (w.servers kc.server).client realm clientId := Collection.find?_filter_names _ _
  have hfield : "clientId" ≠ "id" := by decide
  change wp env guard (Conn.findByField _ "clientId" clientId "client").run post w
  unfold Conn.findByField
  rw [find?_report hfield, hfind]
  rcases hclient : (w.servers kc.server).client realm clientId with _ | client
  · exact hnone hclient
  · exact hsome client hclient

/-- What the search for a name shows of a group. -/
def Resource.summary (name : String) (r : Resource) : Object :=
  .ofList [("id", .str r.id), ("name", .str name)]

theorem Resource.id_summary (name : String) (r : Resource) :
    (((r.summary name).get "id").bind JSON.asString).getD "" = r.id := by
  simp [summary, FiniteMap.ofList, FiniteMap.get_put]

/-- The search shows the group with the name. -/
theorem findByField_groupSearch (server : Server) (realm name : String) :
    Conn.findByField (((server.resources ⟨.group, realm⟩).items.filter
        ((Address.key name).names "name")).map (Resource.summary name)) "name" name "group" =
      match server.find ⟨.group, realm⟩ (.key name) with
      | some r => return r.summary name
      | none => throw ⟨.notFound, "resource not found: group " ++ quote name⟩ := by
  have hhead : ((server.resources ⟨.group, realm⟩).items.filter
      ((Address.key name).names "name")).head? = server.find ⟨.group, realm⟩ (.key name) :=
    List.head?_filter
  have hname : ∀ r, (Resource.summary name r).get "name" = some (.str name) := by
    intro r
    simp [Resource.summary, FiniteMap.ofList]
  rw [← hhead]
  unfold Conn.findByField
  rcases (server.resources ⟨.group, realm⟩).items.filter ((Address.key name).names "name") with
    _ | ⟨r, rest⟩
  · rfl
  · rw [List.map_cons, List.find?_cons_of_pos (by simpa using hname r)]
    rfl

/-- The search for a group by its name, up to the read of the group. -/
theorem wp_findGroup {realm name : String} {post : Except Err Object → World → Prop}
    (hguard : guard (.admin kc ⟨.get, .groupSearch realm name, .none, .objects⟩) w)
    (hsearch : ∀ (answer : Except Err (List Object)) w',
      env (.admin kc ⟨.get, .groupSearch realm name, .none, .objects⟩) w answer w' →
      w' = w ∧ ((∃ err, answer = .error err ∧ post (.error err) w) ∨
        answer = ((w.servers kc.server).get (.groupSearch realm name)).decode .objects))
    (hnone : (∀ r, (w.servers kc.server).find ⟨.group, realm⟩ (.key name) = some r → r.id = "") →
      ∀ err, err.kind = .notFound → post (.error err) w)
    (hsome : ∀ r, (w.servers kc.server).find ⟨.group, realm⟩ (.key name) = some r → r.id ≠ "" →
      wp env guard (kc.getGroup realm r.id).run post w) :
    wp env guard (kc.findGroup realm name).run post w := by
  refine wp_run_bind.mpr ⟨hguard, fun answer w' hstep => ?_⟩
  obtain ⟨rfl, ⟨err, rfl, herr⟩ | rfl⟩ := hsearch answer w' hstep
  · exact herr
  change wp env guard (Conn.findByField (((w'.servers kc.server).resources _).items.filter _ |>.map
    (Resource.summary name)) "name" name "group" >>= _).run post w'
  rw [findByField_groupSearch]
  rcases hfound : (w'.servers kc.server).find ⟨.group, realm⟩ (.key name) with _ | r
  · exact hnone (fun r hr => by rw [hfound] at hr; cases hr) _ rfl
  refine wp_run_bind.mpr (wp_run_pure.mpr ?_)
  dsimp only
  rw [r.id_summary]
  split
  case isTrue hempty =>
    refine hnone (fun r' hr' => ?_) _ rfl
    cases hfound.symm.trans hr'
    exact hempty
  case isFalse hid => exact hsome r hfound hid

/-- The search succeeds if both reads do. -/
theorem returns_findGroup {realm name : String} {r : Resource} {rep : Object}
    (hr : (w.servers kc.server).find ⟨.group, realm⟩ (.key name) = some r) (hid : r.id ≠ "")
    (hsearch : env (.admin kc ⟨.get, .groupSearch realm name, .none, .objects⟩) w
      (((w.servers kc.server).get (.groupSearch realm name)).decode .objects) w)
    (hget : env (.admin kc ⟨.get, .group realm r.id, .none, .object⟩) w (.ok rep) w) :
    Returns env (kc.findGroup realm name).run w (.ok rep) w := by
  refine returns_run_bind (returns_perform _ _ hsearch) ?_
  change Returns env (Conn.findByField (((w.servers kc.server).resources _).items.filter _ |>.map
    (Resource.summary name)) "name" name "group" >>= _).run w _ w
  rw [findByField_groupSearch, hr]
  refine returns_run_bind (returns_pure _ w) ?_
  dsimp only
  rw [r.id_summary, if_neg hid]
  exact returns_perform _ _ hget

/-- `Get` finds the resource that the spec names.  A group without an id is reported
    as missing. -/
theorem wp_get (hanswering : Answering env errs) (s : Spec)
    {post : Except Err Object → World → Prop}
    (hguard : ∀ op, op.Reads → guard op w) (herr : ∀ err, errs err → post (.error err) w)
    (hnone : (∀ r, w.target kc s = some r → s.kind = .group ∧ r.id = "") →
      ∀ err, err.kind = .notFound → post (.error err) w)
    (hsome : ∀ r, w.target kc s = some r → (s.kind = .group → r.id ≠ "") →
      post (.ok r.report) w) :
    wp env guard (s.driver.get kc).run post w := by
  have hitem : ∀ endpoint, (w.servers kc.server).get endpoint =
        (match w.target kc s with
         | some r => .object r.report
         | none => notFound) →
      (∀ r, w.target kc s = some r → s.kind = .group → r.id ≠ "") →
      wp env guard (kc.fetchObject endpoint).run post w := by
    intro endpoint hget hid
    refine wp_send hanswering rfl (hguard _ rfl) herr ?_
    change post (((w.servers kc.server).get endpoint).decode .object) w
    rw [hget]
    rcases htarget : w.target kc s with _ | r
    · exact hnone (fun r hr => by rw [htarget] at hr; cases hr) _ rfl
    · exact hsome r htarget (hid r htarget)
  have hmissing : w.target kc s = none → ∀ err : Err, err.kind = .notFound → post (.error err) w :=
    fun htarget => hnone fun r hr => by rw [htarget] at hr; cases hr
  rcases s with s | s | s | s | s | s
  · exact hitem _ rfl (fun _ _ h => by cases h)
  · exact wp_findClient hanswering hguard herr (fun hclient => hmissing hclient _ rfl)
      fun r hr => hsome r hr (fun h => by cases h)
  · refine wp_run_bind.mpr ?_
    refine wp_send hanswering rfl (hguard _ rfl) (fun err herrs => herr err herrs) ?_
    exact wp_findByField (c := (w.servers kc.server).resources ⟨.clientScope, s.realm⟩)
      (Kind.keyField_ne_id .clientScope) rfl hmissing fun r hr => hsome r hr (fun h => by cases h)
  · exact hitem _ rfl (fun _ _ h => by cases h)
  · exact hitem _ rfl (fun _ _ h => by cases h)
  · refine wp_findGroup (hguard _ rfl) (fun answer w' hstep => ?_) (fun hempty => hnone ?_) ?_
    · obtain ⟨rfl, ⟨err, herrs, rfl⟩ | rfl⟩ := hanswering.get rfl hstep
      · exact ⟨rfl, .inl ⟨err, rfl, herr err herrs⟩⟩
      · exact ⟨rfl, .inr rfl⟩
    · exact fun r hr => ⟨rfl, hempty r hr⟩
    · intro r hr hid
      have hr : w.target kc (.group s) = some r := hr
      refine hitem _ ?_ fun r' hr' _ => Option.some.inj (hr.symm.trans hr') ▸ hid
      have hbyId : (w.servers kc.server).find ⟨.group, s.realm⟩ (.id r.id) = some r :=
        Collection.find_eq_some_iff.mpr ⟨(Collection.find_eq_some_iff.mp hr).1, decide_eq_true rfl⟩
      change (match (w.servers kc.server).find ⟨.group, s.realm⟩ (.id r.id) with
        | some r => Reply.object r.report
        | none => notFound) = _
      rw [hbyId, hr]

end Get

/-- What holds after every execution is reached by some execution. -/
theorem returns_of_wp {p : Action α} {guard : Op → World → Prop} {post : α → World → Prop}
    {w : World} (h : wp Reliable guard p post w) : ∃ a t, Returns Reliable p w a t ∧ post a t :=
  ⟨_, _, ⟨_, exec_handle p w⟩, (wp_sound h (exec_handle p w)).2 _ rfl⟩

end KeycloakOperator
