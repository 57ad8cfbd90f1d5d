import KeycloakOperator.Completion
import KeycloakOperator.Resumption

/-!
# Writes of another administrator during a pass

A pass reads the representation of its resource, lays its payload over what it read, and sends
the whole back.  A field that the payload does not contain goes back with the value that was
read.  Another administrator may write it in between: the server does not know that the body
is older than the write, and takes the old value.

The resource is followed by its id.  `Shared.stale` says that the administrator has written the
field, or the natural key, since the pass last read from the server; an update that is sent
while nothing is stale leaves the field as the administrator wrote it last.
-/

namespace KeycloakOperator

open Prog

/-! ### What a request does to one resource -/

/-- The request replaces or removes the representation. -/
def Strikes (method : Method) (endpoint : Endpoint) (place : Place) (r : Resource) : Prop :=
  (method = .put ∨ method = .delete) ∧
    ∃ address, endpoint.item = some (place, address) ∧ address.names place.kind.keyField r = true

namespace Server

variable {server : Server} {place place' : Place} {r : Resource} {label : String} {body : Object}
  {address : Address}

theorem find_id_eq_some_iff {id : String} :
    server.find place (.id id) = some r ↔ r ∈ (server.resources place).items ∧ r.id = id := by
  unfold find
  rw [Collection.find_eq_some_iff]
  simp [Address.names]

theorem mem_setResources {c : Collection place'.kind.keyField}
    (hr : r ∈ (server.resources place).items)
    (hc : place' = place → r ∈ (server.resources place').items → r ∈ c.items) :
    r ∈ ((server.setResources place' c).resources place).items := by
  unfold setResources
  by_cases hplace : place = place'
  · subst hplace
    simp only [Function.update_self]
    exact hc rfl hr
  · simp only [Function.update_of_ne hplace]
    exact hr

theorem mem_create (hr : r ∈ (server.resources place).items) :
    r ∈ ((server.create label place' body).2.resources place).items := by
  unfold create
  split
  · exact hr
  rcases hinsert : (server.resources place').insert? body (some label) with _ | c
  · exact hr
  apply mem_setResources hr
  intro _ hr'
  rw [Collection.items_of_ofItems? hinsert]
  exact List.mem_append_left _ hr'

theorem mem_put_of_not_names (hr : r ∈ (server.resources place).items)
    (hother : place' = place → address.names place'.kind.keyField r = false) :
    r ∈ ((server.put place' address body).2.resources place).items := by
  unfold put
  split
  · exact hr
  rcases hoverlay : (server.resources place').overlay? address body with _ | c
  · exact hr
  apply mem_setResources hr
  intro hplace hr'
  rw [Collection.items_of_ofItems? hoverlay]
  refine List.mem_map.mpr ⟨r, hr', if_neg ?_⟩
  rw [hother hplace]
  exact Bool.false_ne_true

theorem mem_delete_of_not_names (hr : r ∈ (server.resources place).items)
    (hother : place' = place → address.names place'.kind.keyField r = false) :
    r ∈ ((server.delete place' address).2.resources place).items := by
  unfold delete
  split
  · exact hr
  apply mem_setResources hr
  intro hplace hr'
  refine List.mem_filter.mpr ⟨hr', ?_⟩
  rw [hother hplace]
  rfl

/-- A PUT to the resource is refused, or lays the body over it. -/
theorem mem_put (hr : r ∈ (server.resources place).items)
    (hnames : address.names place.kind.keyField r = true) :
    server.put place address body = (conflict, server) ∨
      ((server.put place address body).1 = .done ∧
        r.overlay body ∈ ((server.put place address body).2.resources place).items) := by
  have hfound : server.find place address = some r :=
    Collection.find_eq_some_iff.mpr ⟨hr, hnames⟩
  unfold put
  rw [hfound, if_neg (by simp)]
  rcases hoverlay : (server.resources place).overlay? address body with _ | c
  · exact .inl rfl
  right
  refine ⟨rfl, ?_⟩
  simp only [replace, setResources, Function.update_self]
  rw [Collection.items_of_ofItems? hoverlay]
  exact List.mem_map.mpr ⟨r, hr, if_pos hnames⟩

theorem mem_put_done {server' : Server} (hr : r ∈ (server.resources place).items)
    (hnames : address.names place.kind.keyField r = true)
    (hput : server.put place address body = (.done, server')) :
    r.overlay body ∈ (server'.resources place).items := by
  have hoverlay : server.put place address body = (conflict, server) ∨ _ := mem_put hr hnames
  rw [hput] at hoverlay
  rcases hoverlay with hconflict | ⟨-, hoverlay⟩
  · cases congrArg Prod.fst hconflict
  · exact hoverlay

/-- A request that does not strike the resource leaves it alone. -/
theorem mem_serve {method : Method} {endpoint : Endpoint} {body : Body}
    (hr : r ∈ (server.resources place).items) (hspared : ¬ Strikes method endpoint place r) :
    r ∈ ((server.serve label method endpoint body).2.resources place).items := by
  have hsub : ∀ method, r ∈ ((server.writeSub method endpoint body).2.resources place).items := by
    intro method
    rw [server.writeSub_resources]
    exact hr
  have hother : method = .put ∨ method = .delete → ∀ place' address,
      endpoint.item = some (place', address) → place' = place →
        address.names place'.kind.keyField r = false := by
    rintro hmethod place' address hitem rfl
    exact Bool.eq_false_iff.mpr fun hnames => hspared ⟨hmethod, address, hitem, hnames⟩
  rcases method <;> unfold serve <;> dsimp only
  case get => exact hr
  case post =>
    split
    · exact mem_create hr
    · exact hsub _
  case put =>
    split
    case h_1 hitem => exact mem_put_of_not_names hr (hother (.inl rfl) _ _ hitem)
    case h_2 => exact hsub _
  case delete =>
    split
    case h_1 hitem => exact mem_delete_of_not_names hr (hother (.inr rfl) _ _ hitem)
    case h_2 => exact hsub _

end Server

/-! ### The administrator -/

/-- The world, with what matters of the administrator's writes to one field. -/
structure Shared where
  world : World
  /-- the value that the administrator has given to the field last -/
  written : Option JSON
  /-- the administrator has written the field or the natural key since the pass last read -/
  stale : Bool

/-- The resource of the kind of `s` with this id. -/
def World.resource (w : World) (kc : Conn) (s : Spec) (id : String) : Option Resource :=
  (w.servers kc.server).find s.place (.id id)

/-- A request of the other administrator: a PUT to the resource, which sets the top-level keys
    of its body, or anything that does not strike the resource. -/
inductive AdminWrites (kc : Conn) (s : Spec) (id field : String) : Shared → Shared → Prop where
  | here {u : Shared} {r : Resource} {address : Address} {body : Object} {server : Server}
      (hr : u.world.resource kc s id = some r)
      (hnames : address.names s.place.kind.keyField r = true)
      (hid : ∀ v, body.get "id" = some v → v = .str id)
      (hput : (u.world.servers kc.server).put s.place address body = (.done, server)) :
      AdminWrites kc s id field u
        { world := u.world.setServer kc.server server
          written := (body.get field).or u.written
          stale := u.stale || (body.get field).isSome ||
            (body.get s.place.kind.keyField).isSome }
  | elsewhere {u : Shared} (label : String) (method : Method) (endpoint : Endpoint) (body : Body)
      (hspared : ∀ r, u.world.resource kc s id = some r → ¬ Strikes method endpoint s.place r) :
      AdminWrites kc s id field u
        { u with
          world := u.world.setServer kc.server
            ((u.world.servers kc.server).serve label method endpoint body).2 }

/-- The operation reads from a server. -/
def Op.fetches : Op → Bool
  | .admin _ request => decide (request.method = .get)
  | _ => false

/-- Every call may fail; a read makes up for what was written before it. -/
def Sharing : Env operations Shared := fun op u answer u' =>
  Faulty op u.world answer u'.world ∧ u'.written = u.written ∧
    u'.stale = (u.stale && !op.fetches)

/-- No update is sent while the administrator's writes are unread. -/
def Unhurried (step : Step operations Shared) : Prop :=
  step.op.Updates → step.after.stale = false

/-- A pass next to the administrator, whose updates are all sent in time. -/
abbrev InTime (kc : Conn) (s : Spec) (id field : String) : Env operations Shared :=
  (Sharing.interleaved (AdminWrites kc s id field)).within Unhurried

section Fields

variable {kc : Conn} {s : Spec} {id field : String} {u u' : Shared} {remote : Object}

/-- The field has the value that the administrator has written last. -/
def Shared.Kept (kc : Conn) (s : Spec) (id field : String) (u : Shared) : Prop :=
  ∃ r, u.world.resource kc s id = some r ∧ r.report.get field = u.written

/-- What was read of the resource that an update would change is what the field holds now. -/
def Shared.Fresh (kc : Conn) (s : Spec) (id field : String) (remote : Object) (u : Shared) : Prop :=
  u.stale = false → ∀ r, u.world.resource kc s id = some r →
    (s.itemAddress (s.driver.id remote)).names s.place.kind.keyField r = true →
      remote.get field = r.report.get field

theorem World.resource_setServer {w : World} {server : Server} {r : Resource} :
    (w.setServer kc.server server).resource kc s id = some r ↔
      r ∈ (server.resources s.place).items ∧ r.id = id := by
  unfold World.resource World.setServer
  simp only [Function.update_self]
  exact Server.find_id_eq_some_iff

theorem World.resource_eq_some_iff {w : World} {r : Resource} :
    w.resource kc s id = some r ↔
      r ∈ ((w.servers kc.server).resources s.place).items ∧ r.id = id :=
  Server.find_id_eq_some_iff

/-- What a PUT makes of the field, whose value is the server's own if it is the id. -/
theorem Resource.report_overlay {r : Resource} {body : Object}
    (hid : ∀ v, body.get "id" = some v → v = .str r.id) (field : String) :
    (r.overlay body).report.get field = (body.get field).or (r.report.get field) := by
  by_cases hfield : field = "id"
  · subst hfield
    rw [Resource.get_report_id, Resource.get_report_id]
    rcases hbody : body.get "id" with _ | v
    · rfl
    · rw [hid v hbody]
      rfl
  · rw [Resource.get_report_of_ne _ hfield, Resource.get_report_of_ne _ hfield,
      r.get_overlay body hfield]

theorem Resource.key_overlay_of_none {r : Resource} {body : Object} {keyField : String}
    (hfield : keyField ≠ "id") (h : body.get keyField = none) :
    (r.overlay body).key keyField = r.key keyField := by
  unfold Resource.key stringField
  rw [r.get_overlay body hfield, h]
  rfl

theorem Address.names_congr {r r' : Resource} {keyField : String} (hid : r'.id = r.id)
    (hkey : r'.key keyField = r.key keyField) (address : Address) :
    address.names keyField r' = address.names keyField r := by
  cases address <;> simp [Address.names, hid, hkey]

/-- A write of the administrator is the last one. -/
theorem AdminWrites.kept (hmove : AdminWrites kc s id field u u') (hkept : u.Kept kc s id field) :
    u'.Kept kc s id field := by
  obtain ⟨r₀, hr₀, hwritten⟩ := hkept
  cases hmove with
  | @here r address body server hr hnames hid hput =>
    obtain rfl : r = r₀ := Option.some.inj (hr.symm.trans hr₀)
    obtain ⟨hmem, hrid⟩ := World.resource_eq_some_iff.mp hr
    have hoverlay := Server.mem_put_done hmem hnames hput
    refine ⟨r.overlay body, World.resource_setServer.mpr ⟨hoverlay, hrid⟩, ?_⟩
    rw [Resource.report_overlay (fun v hv => hrid ▸ hid v hv), hwritten]
  | elsewhere label method endpoint body hspared =>
    obtain ⟨hmem, hrid⟩ := World.resource_eq_some_iff.mp hr₀
    exact ⟨r₀, World.resource_setServer.mpr ⟨Server.mem_serve hmem (hspared r₀ hr₀), hrid⟩, hwritten⟩

/-- What was read stays true until the field or the key is written. -/
theorem AdminWrites.fresh (hmove : AdminWrites kc s id field u u') (hkept : u.Kept kc s id field)
    (hfresh : u.Fresh kc s id field remote) : u'.Fresh kc s id field remote := by
  obtain ⟨r₀, hr₀, -⟩ := hkept
  intro hstale r' hr' hnames'
  cases hmove with
  | @here r address body server hr hnames hid hput =>
    obtain ⟨⟨hread, hunwritten⟩, hnokey⟩ : (u.stale = false ∧ body.get field = none) ∧
        body.get s.place.kind.keyField = none := by
      simpa [Bool.or_eq_false_iff] using hstale
    obtain ⟨hmem, hrid⟩ := World.resource_eq_some_iff.mp hr
    have hoverlay := Server.mem_put_done hmem hnames hput
    have hsame := hr'.symm.trans (World.resource_setServer.mpr ⟨hoverlay, hrid⟩)
    cases hsame
    have hkey : (r.overlay body).key s.place.kind.keyField = r.key s.place.kind.keyField :=
      Resource.key_overlay_of_none (Kind.keyField_ne_id _) hnokey
    rw [Address.names_congr (show (r.overlay body).id = r.id from rfl) hkey] at hnames'
    rw [hfresh hread r hr hnames', Resource.report_overlay (fun v hv => hrid ▸ hid v hv), hunwritten]
    rfl
  | elsewhere label method endpoint body hspared =>
    obtain ⟨hmem, hrid⟩ := World.resource_eq_some_iff.mp hr₀
    have hsame := hr'.symm.trans
      (World.resource_setServer.mpr ⟨Server.mem_serve hmem (hspared r₀ hr₀), hrid⟩)
    cases hsame
    exact hfresh hstale r₀ hr₀ hnames'

/-! ### The operator -/

/-- The operation replaces and removes no representation. -/
def Op.Spares : Op → Prop
  | .admin _ request => request.method = .get ∨ request.endpoint.item = none
  | _ => True

theorem Op.Spares.of_silent {op : Op} (h : op.Silent) : op.Spares := by
  rcases op <;> rcases h with h | h | h <;> first | exact trivial | exact h.elim | exact .inl h

theorem World.resource_congr {w w' : World} (h : w'.servers = w.servers) :
    w'.resource kc s id = w.resource kc s id := by
  unfold World.resource
  rw [h]

theorem World.resource_setServer_of_ne {w : World} {name : String} {server : Server}
    (hname : kc.server ≠ name) :
    (w.setServer name server).resource kc s id = w.resource kc s id := by
  unfold World.resource World.setServer
  simp only [Function.update_of_ne hname]

theorem World.resource_admin {w : World} {kc' : Conn} {request : Request} {r : Resource}
    (hspared : request.method = .get ∨ request.endpoint.item = none)
    (hr : w.resource kc s id = some r) :
    (w.admin kc' request).2.resource kc s id = some r := by
  have hunstruck : ¬ Strikes request.method request.endpoint s.place r := by
    rintro ⟨hmethod, address, hitem, -⟩
    rcases hspared with hget | hnone
    · rw [hget] at hmethod
      rcases hmethod with h | h <;> cases h
    · rw [hnone] at hitem
      cases hitem
  rw [World.admin_snd]
  by_cases hserver : kc.server = kc'.server
  · obtain ⟨hmem, hrid⟩ := World.resource_eq_some_iff.mp hr
    rw [← hserver]
    exact World.resource_setServer.mpr ⟨Server.mem_serve hmem hunstruck, hrid⟩
  · rw [World.resource_setServer_of_ne hserver]
    exact hr

theorem faulty_resource {op : Op} {w w' : World} {answer : op.Answer} {r : Resource}
    (hop : op.Spares) (h : Faulty op w answer w') (hr : w.resource kc s id = some r) :
    w'.resource kc s id = some r := by
  by_cases hservers : op.LeavesServers
  case pos => rw [World.resource_congr (faulty_servers hservers h), hr]
  rcases op with _ | _ | _ | ⟨kc', request⟩ | _ | _ | _ | _ | _ | _ | _ | _ | _ | _
  case admin =>
    rcases faulty_admin h with ⟨rfl, -⟩ | ⟨rfl, -⟩
    · exact hr
    · exact World.resource_admin hop hr
  all_goals exact absurd trivial hservers

/-- Where the administrator has moved the state to when the operation is performed. -/
theorem inTime_moved {op : Op} {answer : op.Answer} (h : InTime kc s id field op u answer u')
    (hkept : u.Kept kc s id field) (remote : Object) :
    ∃ v : Shared, v.Kept kc s id field ∧ Sharing op v answer u' ∧
      (u.Fresh kc s id field remote → v.Fresh kc s id field remote) := by
  obtain ⟨v, ⟨hv, hfresh⟩, hstep⟩ := Env.interleaved_keeps
    (fun v : Shared => v.Kept kc s id field ∧
      (u.Fresh kc s id field remote → v.Fresh kc s id field remote))
    (fun v v' hv hmove => ⟨hmove.kept hv.1, fun hu => hmove.fresh hv.1 (hv.2 hu)⟩)
    ⟨hkept, fun hu => hu⟩ h.1
  exact ⟨v, hv, hstep, hfresh⟩

theorem inTime_kept {op : Op} {answer : op.Answer} (hop : op.Spares)
    (h : InTime kc s id field op u answer u') (hkept : u.Kept kc s id field) :
    u'.Kept kc s id field := by
  obtain ⟨v, ⟨r, hr, hwritten⟩, ⟨hfaulty, hsame, -⟩, -⟩ := inTime_moved h hkept ∅
  exact ⟨r, faulty_resource hop hfaulty hr, hwritten.trans hsame.symm⟩

/-- Operations between the read and the update. -/
def Op.Idles (op : Op) : Prop := ReadsSecrets op ∨ op.Notes

theorem inTime_fresh {op : Op} {answer : op.Answer} (hop : op.Idles)
    (h : InTime kc s id field op u answer u')
    (hu : u.Kept kc s id field ∧ u.Fresh kc s id field remote) :
    u'.Kept kc s id field ∧ u'.Fresh kc s id field remote := by
  obtain ⟨v, ⟨r, hr, hwritten⟩, ⟨hfaulty, hsame, hstale⟩, hfresh⟩ := inTime_moved h hu.1 remote
  have hworld : u'.world = v.world :=
    hop.elim (fun hreads => faulty_readsSecrets hreads hfaulty) fun hnotes =>
      faulty_notes hnotes hfaulty
  have hfetches : op.fetches = false := by
    rcases op <;> first | rfl | exact hop.elim False.elim False.elim
  have hstale : u'.stale = v.stale := by simpa [hfetches] using hstale
  refine ⟨⟨r, hworld ▸ hr, hwritten.trans hsame.symm⟩, ?_⟩
  unfold Shared.Fresh
  rw [hworld, hstale]
  exact hfresh hu.2

/-- A PUT lays the body over the resource, or leaves it alone. -/
theorem World.resource_put {w : World} {r : Resource} (hr : w.resource kc s id = some r)
    (address : Address) (body : Object) :
    ∃ r', (w.setServer kc.server
        ((w.servers kc.server).put s.place address body).2).resource kc s id = some r' ∧
      (r' = r ∨ (address.names s.place.kind.keyField r = true ∧ r' = r.overlay body)) := by
  obtain ⟨hmem, hrid⟩ := World.resource_eq_some_iff.mp hr
  by_cases hnames : address.names s.place.kind.keyField r = true
  case neg =>
    exact ⟨r, World.resource_setServer.mpr
      ⟨Server.mem_put_of_not_names hmem fun _ => Bool.not_eq_true _ ▸ hnames, hrid⟩, .inl rfl⟩
  have hput : (w.servers kc.server).put s.place address body = (conflict, w.servers kc.server) ∨ _ :=
    Server.mem_put hmem hnames
  rcases hput with hconflict | ⟨-, hoverlay⟩
  · rw [hconflict, World.setServer_self]
    exact ⟨r, hr, .inl rfl⟩
  · exact ⟨r.overlay body, World.resource_setServer.mpr ⟨hoverlay, hrid⟩, .inr ⟨hnames, rfl⟩⟩

/-- The update sends the field as it was read, and that is what it holds. -/
theorem inTime_update {payload : Object} {answer : Except Err Unit}
    (hpayload : payload.get field = none)
    (h : InTime kc s id field (.admin kc ⟨.put, s.itemEndpoint (s.driver.id remote),
      .object (mergePayload remote payload), .nothing⟩) u answer u')
    (hkept : u.Kept kc s id field) (hfresh : u.Fresh kc s id field remote) :
    u'.Kept kc s id field := by
  obtain ⟨v, ⟨r, hr, hwritten⟩, ⟨hfaulty, hsame, hstale⟩, hmoved⟩ := inTime_moved h hkept remote
  have hread : v.stale = false := by
    have hsent : u'.stale = false := h.2 ⟨rfl, by rw [s.item_itemEndpoint]; rfl⟩
    simpa [Op.fetches, hsent] using hstale.symm
  rcases faulty_admin hfaulty with ⟨hworld, -⟩ | ⟨hworld, -⟩
  · exact ⟨r, hworld ▸ hr, hwritten.trans hsame.symm⟩
  rw [admin_put] at hworld
  obtain ⟨r', hr', hcases⟩ := World.resource_put hr (s.itemAddress (s.driver.id remote))
    (mergePayload remote payload)
  refine ⟨r', by rw [hworld]; exact hr', ?_⟩
  rw [hsame, ← hwritten]
  rcases hcases with rfl | ⟨hnames, rfl⟩
  · rfl
  by_cases hfield : field = "id"
  · rw [hfield, Resource.get_report_id, Resource.get_report_id]
    rfl
  · rw [Resource.get_report_of_ne _ hfield, r.get_overlay _ hfield,
      get_mergePayload_of_none hpayload, hmoved hfresh hread r hr hnames,
      Resource.get_report_of_ne _ hfield, Option.or_self]

/-! ### The read -/

theorem inTime_get {request : Request} {answer : Except Err request.out.Value}
    (hmethod : request.method = .get)
    (h : InTime kc s id field (.admin kc request) u answer u') (hkept : u.Kept kc s id field) :
    u'.Kept kc s id field ∧ ((∃ err, answer = .error err) ∨
      answer = ((u'.world.servers kc.server).get request.endpoint).decode request.out) := by
  have hspares : Op.Spares (.admin kc request) := .inl hmethod
  refine ⟨inTime_kept hspares h hkept, ?_⟩
  obtain ⟨v, -, ⟨hfaulty, -, -⟩, -⟩ := inTime_moved h hkept ∅
  obtain ⟨hworld, hanswer⟩ := faulty_get hmethod hfaulty
  rw [hworld]
  exact hanswer

/-- A report of a resource that is there is fresh. -/
theorem fresh_report {r : Resource}
    (hr : r ∈ ((u.world.servers kc.server).resources s.place).items)
    (hnames : (s.itemAddress r.id).names s.place.kind.keyField r = true) :
    u.Fresh kc s id field r.report := by
  intro _ r' hr' hnames'
  have hitem : s.itemAddress (s.driver.id r.report) = s.itemAddress r.id := by
    rcases s with s | s | s | s | s | s <;> first | rfl | exact congrArg _ r.remoteId_report
  rw [hitem] at hnames'
  rw [Collection.eq_of_names hr (World.resource_eq_some_iff.mp hr').1 hnames hnames']

theorem wp_fetchItem {endpoint : Endpoint} (address : Address)
    (hget : ∀ server : Server, server.get endpoint = match server.find s.place address with
      | some r => .object r.report
      | none => notFound)
    (hnames : ∀ r : Resource, address.names s.place.kind.keyField r = true →
      (s.itemAddress r.id).names s.place.kind.keyField r = true)
    (hkept : u.Kept kc s id field) :
    wp (InTime kc s id field) (fun _ u => u.Kept kc s id field) (kc.fetchObject endpoint).run
      (fun found u => u.Kept kc s id field ∧
        ∀ remote, found = .ok remote → u.Fresh kc s id field remote) u := by
  refine ⟨hkept, fun answer u' hstep => ?_⟩
  obtain ⟨hkept', hanswer⟩ := inTime_get rfl hstep hkept
  refine ⟨hkept', fun remote hremote => ?_⟩
  have hanswer : answer = ((u'.world.servers kc.server).get endpoint).decode .object := by
    rcases hanswer with ⟨err, rfl⟩ | hanswer
    · cases hremote
    · exact hanswer
  rw [hget] at hanswer
  rcases hfind : (u'.world.servers kc.server).find s.place address with _ | r
  · rw [hfind] at hanswer
    cases hanswer.symm.trans hremote
  · rw [hfind] at hanswer
    cases hanswer.symm.trans hremote
    obtain ⟨hmem, hnamed⟩ := Collection.find_eq_some_iff.mp hfind
    exact fresh_report hmem (hnames r hnamed)

theorem wp_searchItems {endpoint : Endpoint} {key value what : String}
    {rs : Server → List Resource}
    (hget : ∀ server : Server, server.get endpoint = .objects ((rs server).map Resource.report))
    (hrs : ∀ server : Server, rs server ⊆ (server.resources s.place).items)
    (hnames : ∀ r : Resource, (s.itemAddress r.id).names s.place.kind.keyField r = true)
    (hkept : u.Kept kc s id field) :
    wp (InTime kc s id field) (fun _ u => u.Kept kc s id field)
      (do Conn.findByField (← kc.fetchObjects endpoint) key value what : Call Object).run
      (fun found u => u.Kept kc s id field ∧
        ∀ remote, found = .ok remote → u.Fresh kc s id field remote) u := by
  refine wp_run_bind.mpr ⟨hkept, fun answer u' hstep => ?_⟩
  obtain ⟨hkept', ⟨err, rfl⟩ | hanswer⟩ := inTime_get rfl hstep hkept
  · exact ⟨hkept', fun _ h => by cases h⟩
  rw [hget] at hanswer
  obtain rfl : answer = .ok ((rs (u'.world.servers kc.server)).map Resource.report) := hanswer
  change wp _ _ (Conn.findByField _ _ _ _).run _ u'
  unfold Conn.findByField
  split
  case h_1 remote hfound =>
    obtain ⟨r, hr, rfl⟩ := List.mem_map.mp (List.mem_of_find?_eq_some hfound)
    refine ⟨hkept', fun remote hremote => ?_⟩
    cases hremote
    exact fresh_report (hrs _ hr) (hnames r)
  case h_2 => exact ⟨hkept', fun _ h => by cases h⟩

theorem wp_get_fresh (hkept : u.Kept kc s id field) :
    wp (InTime kc s id field) (fun _ u => u.Kept kc s id field) (s.driver.get kc).run
      (fun found u => u.Kept kc s id field ∧
        ∀ remote, found = .ok remote → u.Fresh kc s id field remote) u := by
  rcases s with s | s | s | s | s | s
  · exact wp_fetchItem (.key s.realm) (fun _ => rfl) (fun _ h => h) hkept
  · exact wp_searchItems (fun _ => rfl) (fun _ => List.filter_sublist.subset)
      (fun _ => decide_eq_true rfl) hkept
  · exact wp_searchItems (fun _ => rfl) (fun _ => List.Subset.refl _)
      (fun _ => decide_eq_true rfl) hkept
  · exact wp_fetchItem (.key s.name) (fun _ => rfl) (fun _ h => h) hkept
  · exact wp_fetchItem (.key s.idpAlias) (fun _ => rfl) (fun _ h => h) hkept
  · -- the search only yields the id; what counts is the fetch after it
    refine wp_run_bind.mpr ⟨hkept, fun answer u' hstep => ?_⟩
    have hkept' := (inTime_get rfl hstep hkept).1
    rcases answer with err | found
    · exact ⟨hkept', fun _ h => by cases h⟩
    change wp _ _ (Conn.findByField found "name" s.name "group" >>= _).run _ u'
    refine wp_run_bind.mpr ?_
    unfold Conn.findByField
    split
    · simp only [wp_run_pure]
      split
      · exact ⟨hkept', fun _ h => by cases h⟩
      · exact wp_fetchItem (.id _) (fun _ => rfl) (fun r _ => decide_eq_true rfl) hkept'
    · exact ⟨hkept', fun _ h => by cases h⟩

/-! ### The pass -/

theorem wp_spares {p : Action α} (h : Only Op.Spares p) (hkept : u.Kept kc s id field) :
    wp (InTime kc s id field) (fun _ u => u.Kept kc s id field) p
      (fun _ u => u.Kept kc s id field) u := by
  have hkeeps : ∀ (op : Op) (u : Shared) (answer : op.Answer) (u' : Shared), op.Spares →
      u.Kept kc s id field → InTime kc s id field op u answer u' → u'.Kept kc s id field :=
    fun _ _ _ _ hop hu hstep => inTime_kept hop hstep hu
  exact wp_guard_mono (fun _ _ h => h.2) (wp_of_only _ hkeeps h hkept)

theorem spares_reads (op : Op) (h : op.Reads) : op.Spares := .of_silent (silent_reads op h)

theorem spares_reports (op : Op) (h : op.Remarks) : op.Spares := .of_silent (silent_remarks op h)

theorem spares_secrets (op : Op) (h : op.WritesSecret) : op.Spares := .of_silent (.inr (.inl h))

theorem spares_enforces {remoteId : String} (op : Op) (h : Enforces s kc remoteId op) :
    op.Spares := by
  obtain ⟨method, endpoint, body, rfl, howns⟩ := h
  exact .inr (Spec.quiet_of_owns howns).1

end Fields

section Pass

variable {e : Engine} {kc : Conn} {obj : ManagedObject} {id field : String} {u : Shared}
  {remote : Object}

theorem wp_record_fresh (hkept : u.Kept kc obj.spec id field)
    (hfresh : u.Fresh kc obj.spec id field remote) (type : EventType) (reason message : String) :
    wp (InTime kc obj.spec id field) (fun _ u => u.Kept kc obj.spec id field)
      (e.record type reason message)
      (fun _ u => u.Kept kc obj.spec id field ∧ u.Fresh kc obj.spec id field remote) u := by
  unfold Engine.record
  split
  · refine ⟨hkept, fun _ u' hstep => ?_⟩
    exact inTime_fresh (.inr (by trivial)) hstep ⟨hkept, hfresh⟩
  · exact ⟨hkept, hfresh⟩

theorem wp_correctDrift_kept {payload : Object} (hpayload : payload.get field = none)
    (hkept : u.Kept kc obj.spec id field) (hfresh : u.Fresh kc obj.spec id field remote) :
    wp (InTime kc obj.spec id field) (fun _ u => u.Kept kc obj.spec id field)
      (e.correctDrift obj.spec.driver kc obj remote payload).run
      (fun _ u => u.Kept kc obj.spec id field) u := by
  refine wp_run_bind.mpr (wp_run_lift.mpr ⟨hkept, fun _ v hstep => ?_⟩)
  obtain ⟨hkept', hfresh'⟩ := inTime_fresh (.inr (by trivial)) hstep ⟨hkept, hfresh⟩
  rw [driver_update]
  refine wp_run_bind.mpr ⟨hkept', fun answer v' hstep => ?_⟩
  have hupdated : v'.Kept kc obj.spec id field := inTime_update hpayload hstep hkept' hfresh'
  rcases answer with err | _
  · exact hupdated
  · exact wp_run_lift.mpr (wp_spares (e.only_record spares_reports _ _ _) hupdated)

theorem stations_kept (hfield : ∀ payload, obj.Builds payload → payload.get field = none) :
    Stations e (InTime kc obj.spec id field) (fun _ u => u.Kept kc obj.spec id field) kc obj
      (fun u => u.Kept kc obj.spec id field) (fun u => u.Kept kc obj.spec id field)
      (fun remote u => u.Kept kc obj.spec id field ∧ u.Fresh kc obj.spec id field remote)
      (fun _ _ u => u.Kept kc obj.spec id field) (fun _ u => u.Kept kc obj.spec id field) := by
  have hstops : ∀ {p : Action Pass} {u : Shared}, e.Stops obj p → u.Kept kc obj.spec id field →
      wp (InTime kc obj.spec id field) (fun _ u => u.Kept kc obj.spec id field) p
        (fun _ u => u.Kept kc obj.spec id field) u := fun h => wp_spares (h.only spares_reports)
  constructor
  case declined => exact fun _ hu => hstops (.refused _ _ _ _) hu
  case looked =>
    refine fun _ hu => wp_mono ?_ (wp_get_fresh hu)
    rintro (err | remote) v ⟨hkept, hfresh⟩
    · exact ⟨fun _ => hkept, fun _ => hstops (.retried _ _) hkept⟩
    · exact ⟨hkept, hfresh remote rfl⟩
  case rejected => exact fun _ _ hu => hstops (.refused _ _ _ _) hu.1
  case adopted => exact fun hu => wp_record_fresh hu.1 hu.2 _ _ _
  case enforced =>
    intro effective remote adopting u _ heffective _ _ hu
    have hkeep : KeptByReads (InTime kc obj.spec id field) fun u =>
        u.Kept kc obj.spec id field ∧ u.Fresh kc obj.spec id field remote :=
      fun _ _ _ _ hop hu hstep => inTime_fresh (.inl hop) hstep hu
    refine wp_mono ?_ (wp_guard_mono (fun _ _ h => h.2.1)
      (wp_yields (yields_preparePayload_stamped heffective)
        (wp_preparePayload hkeep hu obj.spec obj _)))
    rintro (err | payload) v ⟨hbuilds, ⟨hkept, hfresh⟩, -⟩
    · exact hstops (.refused _ _ _ _) hkept
    refine ⟨fun _ => hkept, fun _ => wp_mono ?_
      (wp_correctDrift_kept (hfield payload (hbuilds payload rfl)) hkept hfresh)⟩
    rintro (err | _) t ht
    · exact hstops (.notUpdated e obj err) ht
    · exact ht
  case created =>
    -- a creation adds a resource and changes none
    refine fun _ heffective hu => wp_mono ?_ (wp_spares (only_preparePayload spares_reads _ _ _) hu)
    rintro (err | payload) v hv
    · exact hstops (.refused _ _ _ _) hv
    dsimp only
    rw [driver_create]
    refine wp_mono ?_ (wp_spares (only_send (.inr obj.spec.item_collectionEndpoint)) hv)
    rintro (err | _) t ht
    · exact hstops (.notCreated e obj err) ht
    refine wp_mono (fun _ x hx => ?_) (wp_spares (e.only_record spares_reports _ _ _) ht)
    refine wp_mono ?_ (wp_spares (only_get spares_reads _ _) hx)
    rintro (err | remote) y hy
    · exact hstops (.unfetched err) hy
    · exact hy
  case settled =>
    -- from here on the server is only read, or written below the resource
    exact fun hnext hu => wp_spares (e.only_settle spares_reports obj
      (only_postApply spares_reads spares_secrets spares_enforces obj) fun _ changed =>
        hnext.only spares_reports _ (fun _ _ => trivial) changed) hu

/-- The administrator's writes do not reach the cluster. -/
theorem AdminWrites.cluster {s : Spec} {u u' : Shared} (h : AdminWrites kc s id field u u') :
    u'.world.object = u.world.object ∧ u'.world.connections = u.world.connections := by
  cases h <;> exact ⟨rfl, rfl⟩

theorem inTime_cluster {s : Spec} {op : Op} {answer : op.Answer} {u u' : Shared}
    (h : InTime kc s id field op u answer u') :
    ∃ v : Shared, v.world.object = u.world.object ∧ v.world.connections = u.world.connections ∧
      Faulty op v.world answer u'.world := by
  obtain ⟨v, ⟨hobject, hconnections⟩, hstep⟩ := Env.interleaved_keeps
    (fun v : Shared => v.world.object = u.world.object ∧ v.world.connections = u.world.connections)
    (fun v v' hv hmove => ⟨hmove.cluster.1.trans hv.1, hmove.cluster.2.trans hv.2⟩)
    ⟨rfl, rfl⟩ h.1
  exact ⟨v, hobject, hconnections, hstep.1⟩

theorem wp_reconcile_kept
    (hconnection : u.world.connections obj.ns obj.spec.connectionName = .ok kc)
    (hlive : obj.deletionTimestamp = none ∨ obj.spec.deletion = .orphan)
    (hfield : ∀ payload, obj.Builds payload → payload.get field = none)
    (hkept : u.Kept kc obj.spec id field) :
    wp (InTime kc obj.spec id field) (fun _ u => u.Kept kc obj.spec id field) (e.reconcile obj)
      (fun _ u => u.Kept kc obj.spec id field) u := by
  refine Engine.wp_reconcile_of (fun _ u => u.Kept kc obj.spec id field)
    (fun _ _ hv => wp_spares (p := perform (.reconciled _ _)) ⟨by trivial, fun _ => trivial⟩ hv)
    (fun _ => wp_spares (Engine.only_updateObject (by trivial) _) hkept) fun hstays =>
      ⟨hkept, fun answer v hstep => ?_⟩
  have hkept' : v.Kept kc obj.spec id field := inTime_kept (by trivial) hstep hkept
  rcases answer with message | kc'
  · have hstops : e.Stops obj (Engine.unavailable obj message) := .unavailable message
    exact wp_spares (hstops.only spares_reports) hkept'
  obtain rfl : kc' = kc := by
    obtain ⟨t, -, hconnections, hfaulty⟩ := inTime_cluster hstep
    rcases (faulty_connect hfaulty).2 with hanswer | ⟨err, herr⟩
    · rw [hconnections, hconnection] at hanswer
      exact Except.ok.inj hanswer
    · cases herr
  refine ⟨fun hdeleted => ?_, fun _ _ => wp_spares (Engine.only_updateObject (by trivial) _) hkept',
    fun _ _ => (stations_kept hfield).wp_apply hkept'⟩
  rcases hlive with hnone | horphan
  · simp [hnone] at hdeleted
  · exact absurd ⟨hdeleted, horphan⟩ hstays

end Pass

/-- **Writes next to a pass.**  A field that the payload does not contain has the value that the
    administrator wrote last, wherever the pass stops and whatever the administrator does
    after it, if no update is sent while a write of the field or of the key is unread. -/
theorem unmanaged_writes_last {e : Engine} {kc : Conn} {obj : ManagedObject} {r : Resource}
    {field : String} {u t t' : Shared} {steps : List (Step operations Shared)}
    {result : Option (Except Err (Option Pass))}
    (hobject : u.world.object = some obj)
    (hlive : obj.deletionTimestamp = none ∨ obj.spec.deletion = .orphan)
    (hconnection : u.world.connections obj.ns obj.spec.connectionName = .ok kc)
    (hexists : u.world.target kc obj.spec = some r) (hwritten : r.report.get field = u.written)
    (hfield : ∀ payload, obj.Builds payload → payload.get field = none)
    (hexec : Exec (Sharing.interleaved (AdminWrites kc obj.spec r.id field))
      e.controllerReconcile.run u steps t result)
    (hinTime : ∀ step ∈ steps, step.op.Updates → step.after.stale = false)
    (hafter : Relation.ReflTransGen (AdminWrites kc obj.spec r.id field) t t') :
    ∃ r', t'.world.resource kc obj.spec r.id = some r' ∧ r'.report.get field = t'.written := by
  have hstart : u.Kept kc obj.spec r.id field :=
    ⟨r, World.resource_eq_some_iff.mpr ⟨(Collection.find_eq_some_iff.mp hexists).1, rfl⟩, hwritten⟩
  have hpass : wp (InTime kc obj.spec r.id field) (fun _ u => u.Kept kc obj.spec r.id field)
      e.controllerReconcile.run (fun _ u => u.Kept kc obj.spec r.id field) u := by
    refine e.wp_controllerReconcile_of hstart (fun err v hstep result _ => ?_)
      fun obj' v hstep => ?_
    · exact inTime_kept (by trivial) hstep hstart
    · obtain ⟨m, hsame, hconnections, hfaulty⟩ := inTime_cluster hstep
      obtain ⟨hworld, hobject'⟩ := faulty_getObject_ok hfaulty
      obtain rfl : obj' = obj := Option.some.inj (hobject'.symm.trans (hsame.trans hobject))
      refine wp_reconcile_kept ?_ hlive hfield (inTime_kept (by trivial) hstep hstart)
      rw [hworld, hconnections, hconnection]
  have hend : t.Kept kc obj.spec r.id field :=
    wp_invariant (fun _ _ h => h) (fun _ _ h => h) hpass (hexec.within hinTime)
  clear hexec hinTime
  induction hafter with
  | refl => exact hend
  | tail _ hmove ih => exact hmove.kept ih

/-! ### Two schedules -/

/-- The administrator sends `body` to the resource, if the server takes it. -/
def Shared.meddled (kc : Conn) (s : Spec) (id field : String) (body : Object) (u : Shared) :
    Shared :=
  match (u.world.servers kc.server).put s.place (.id id) body with
  | (.done, server) =>
      { world := u.world.setServer kc.server server
        written := (body.get field).or u.written
        stale := u.stale || (body.get field).isSome || (body.get s.place.kind.keyField).isSome }
  | _ => u

theorem adminWrites_meddled {kc : Conn} {s : Spec} {id field : String} {body : Object}
    (hbody : body.get "id" = none) (u : Shared) :
    Relation.ReflTransGen (AdminWrites kc s id field) u (u.meddled kc s id field body) := by
  unfold Shared.meddled
  split
  case h_1 server hput =>
    rcases hfind : u.world.resource kc s id with _ | r
    · -- there is nothing to write to
      have hmissing : (u.world.servers kc.server).find s.place (.id id) = none := hfind
      unfold Server.put at hput
      rw [hmissing] at hput
      cases congrArg Prod.fst hput
    · refine .single (.here hfind ?_ (fun v hv => ?_) hput)
      · exact decide_eq_true (World.resource_eq_some_iff.mp hfind).2
      · rw [hbody] at hv
        cases hv
  case h_2 => exact .refl

/-- Every call succeeds, and the administrator writes right before the operations in `slot`. -/
def Shared.handle (kc : Conn) (s : Spec) (id field : String) (body : Object) (slot : Op → Bool) :
    Handler operations Shared := fun op u =>
  let u := if slot op then u.meddled kc s id field body else u
  ((World.handle World.sorted 0 op u.world).1,
    ⟨(World.handle World.sorted 0 op u.world).2, u.written, u.stale && !op.fetches⟩)

theorem exec_handleShared {kc : Conn} {s : Spec} {id field : String} (body : Object)
    (hbody : body.get "id" = none) (slot : Op → Bool) (p : Action α) (u : Shared) :
    Exec (Sharing.interleaved (AdminWrites kc s id field)) p u
      (p.runSteps (Shared.handle kc s id field body slot) u)
      (p.run (Shared.handle kc s id field body slot) u).2
      (some (p.run (Shared.handle kc s id field body slot) u).1) := by
  refine (p.exec_run _ u).mono fun op v answer v' hstep => ?_
  refine ⟨if slot op then v.meddled kc s id field body else v, ?_, ?_⟩
  · split
    · exact adminWrites_meddled hbody v
    · exact .refl
  · cases hstep
    exact ⟨.inl ⟨World.sorted, 0, rfl⟩, rfl, rfl⟩

/-- A client that the operator manages and that somebody has disabled. -/
def disabledPortal : Resource where
  id := "1"
  rep := .ofList [("clientId", .str "portal"), ("enabled", .bool false),
    ("description", .str "old"),
    ("attributes", .ofObject (.ofList [( managedAnnotationKey, .str managedValue)]))]

def enabledClient : ManagedObject :=
  { clientObject "portal" with spec := clientWith "demo" enabledFields }

/-- The spec enables the client and says nothing of its description. -/
def disabledDemo : Shared where
  world := .around enabledClient (clientServer ⟨[disabledPortal], by decide, by decide⟩)
  written := some (.str "old")
  stale := false

def newDescription : Object := .ofList [("description", .str "new")]

theorem enabledClient_undescribed (payload : Object) (h : enabledClient.Builds payload) :
    payload.get "description" = none := by
  rw [h.get (by decide)]
  decide

/-- The description is written before the pass reads the client. -/
theorem early_description_kept :
    ∃ steps t result, Exec (Sharing.interleaved
          (AdminWrites ⟨"main", "keycloak"⟩ enabledClient.spec disabledPortal.id "description"))
        (newEngine true 0).controllerReconcile.run disabledDemo steps t result ∧
      (∃ step ∈ steps, step.op.Updates) ∧ t.written = some (.str "new") ∧
      ∃ r, t.world.resource ⟨"main", "keycloak"⟩ enabledClient.spec disabledPortal.id = some r ∧
        r.report.get "description" = t.written := by
  let slot (op : Op) : Bool := match op with
    | .connect _ _ => true
    | _ => false
  have hexec : Exec (Sharing.interleaved
        (AdminWrites ⟨"main", "keycloak"⟩ enabledClient.spec disabledPortal.id "description"))
      (newEngine true 0).controllerReconcile.run disabledDemo _ _ _ :=
    exec_handleShared newDescription rfl slot _ _
  refine ⟨_, _, _, hexec, by decide, by decide, ?_⟩
  exact unmanaged_writes_last rfl (.inl rfl) rfl rfl rfl enabledClient_undescribed hexec
    (by decide) .refl

/-- The description is written after the pass has read the client and before it enables it. -/
theorem late_description_lost :
    ∃ steps t pass r, disabledDemo.world.object = some enabledClient ∧
      enabledClient.deletionTimestamp = none ∧
      disabledDemo.world.connections enabledClient.ns enabledClient.spec.connectionName =
        .ok ⟨"main", "keycloak"⟩ ∧
      disabledDemo.world.target ⟨"main", "keycloak"⟩ enabledClient.spec = some disabledPortal ∧
      disabledPortal.report.get "description" = disabledDemo.written ∧
      (∀ payload, enabledClient.Builds payload → payload.get "description" = none) ∧
      Exec (Sharing.interleaved
          (AdminWrites ⟨"main", "keycloak"⟩ enabledClient.spec disabledPortal.id "description"))
        (newEngine true 0).controllerReconcile.run disabledDemo steps t
        (some (.ok (some pass))) ∧
      pass.finalized = true ∧ t.written = some (.str "new") ∧
      t.world.resource ⟨"main", "keycloak"⟩ enabledClient.spec disabledPortal.id = some r ∧
      r.report.get "description" = some (.str "old") := by
  let slot (op : Op) : Bool := decide op.Updates
  let ran := (newEngine true 0).controllerReconcile.run.run (Shared.handle ⟨"main", "keycloak"⟩
    enabledClient.spec disabledPortal.id "description" newDescription slot) disabledDemo
  have hexec : Exec (Sharing.interleaved
        (AdminWrites ⟨"main", "keycloak"⟩ enabledClient.spec disabledPortal.id "description"))
      (newEngine true 0).controllerReconcile.run disabledDemo _ ran.2 (some ran.1) :=
    exec_handleShared newDescription rfl slot _ _
  obtain ⟨pass, hpass, hfinalized⟩ : Succeeds (some ran.1) := succeeds_of_finalized (by decide)
  have hstored : (ran.2.world.resource ⟨"main", "keycloak"⟩ enabledClient.spec
      disabledPortal.id).any (fun r => decide (r.report.get "description" = some (.str "old"))) =
      true := by decide
  obtain ⟨r, hr, hold⟩ := (Option.any_eq_true _ _).mp hstored
  rw [hpass] at hexec
  exact ⟨_, ran.2, pass, r, rfl, rfl, rfl, rfl, rfl, enabledClient_undescribed, hexec, hfinalized,
    by decide, hr, of_decide_eq_true hold⟩

end KeycloakOperator
