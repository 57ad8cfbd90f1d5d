import KeycloakOperator.Lookup

/-!
# What can happen to one resource

A pass is long, but little of it matters to the claim of a custom resource on its server
resource: the resource under the natural key, the spec, and the last-applied annotation.
`World.view` keeps these.  All operations but four leave it alone (`Op.Quiet`), and each
of the four changes it in one way; a call that fails may have taken effect or not.
-/

namespace KeycloakOperator

open Prog

/-- A custom resource without its status and the metadata that only its controller
    reads. -/
structure Core where
  ns : String
  spec : Spec
  deletionTimestamp : Option Nat
  lastApplied : AnnotationText

def ManagedObject.core (obj : ManagedObject) : Core :=
  ⟨obj.ns, obj.spec, obj.deletionTimestamp, obj.lastApplied⟩

structure View where
  resource : Option Resource
  object : Option Core
  connections : String → String → Except String Conn

def World.view (w : World) (kc : Conn) (s : Spec) : View :=
  ⟨w.target kc s, w.object.map ManagedObject.core, w.connections⟩

/-- The operation changes no representation and no annotation. -/
def Op.Quiet : Op → Prop
  | .admin _ request =>
      request.method = .get ∨ (request.endpoint.item = none ∧ request.endpoint.collection = none)
  | .updateObject _ => False
  | .patchObject _ _ => False
  | _ => True

/-! ### Quiet operations -/

theorem Server.replace_setMappers_resources (s : Server) (realm idpAlias : String)
    (c : Option (Collection "name")) :
    (s.replace (s.setMappers realm idpAlias) c).2.resources = s.resources := by
  rcases c with _ | c <;> rfl

theorem Server.writeSub_resources (s : Server) (method : Method) (endpoint : Endpoint)
    (body : Body) : (s.writeSub method endpoint body).2.resources = s.resources := by
  unfold writeSub
  split
  case h_1 => split <;> rfl
  all_goals first | rfl | exact s.replace_setMappers_resources _ _ _

theorem Server.serve_resources {s : Server} {label : String} {method : Method}
    {endpoint : Endpoint} {body : Body}
    (h : method = .get ∨ (endpoint.item = none ∧ endpoint.collection = none)) :
    (s.serve label method endpoint body).2.resources = s.resources := by
  rcases h with rfl | ⟨hitem, hcollection⟩
  · rfl
  · unfold serve
    rw [hitem, hcollection]
    rcases method <;> first | rfl | exact s.writeSub_resources _ _ _

theorem World.target_setServer {w : World} {name : String} {server : Server}
    (h : server.resources = (w.servers name).resources) (kc : Conn) (s : Spec) :
    (w.setServer name server).target kc s = w.target kc s := by
  unfold target setServer Server.find
  by_cases hname : kc.server = name
  · subst hname
    simp only [Function.update_self, h]
  · simp only [Function.update_of_ne hname]

theorem World.view_patchStatus (w : World) (base obj : ManagedObject) (kc : Conn) (s : Spec) :
    (w.patchStatus base obj).2.view kc s = w.view kc s := by
  unfold patchStatus
  rcases hobject : w.object with _ | stored
  · rfl
  · simp [view, target, hobject, ManagedObject.core]

theorem World.view_createSecret (w : World) (secret : Secret) (kc : Conn) (s : Spec) :
    (w.createSecret secret).2.view kc s = w.view kc s := by
  unfold createSecret
  split <;> rfl

theorem World.view_updateSecret (w : World) (secret : Secret) (kc : Conn) (s : Spec) :
    (w.updateSecret secret).2.view kc s = w.view kc s := by
  unfold updateSecret
  split <;> rfl

theorem World.admin_snd (w : World) (kc : Conn) (request : Request) :
    (w.admin kc request).2 = w.setServer kc.server
      ((w.servers kc.server).serve kc.label request.method request.endpoint request.body).2 := rfl

theorem reliable_quiet {op : Op} {w w' : World} {answer : op.Answer} (hquiet : op.Quiet)
    (h : Reliable op w answer w') (kc : Conn) (s : Spec) : w'.view kc s = w.view kc s := by
  obtain ⟨order, now, rfl⟩ := reliable_state h
  rcases op with _ | _ | _ | ⟨kc', request⟩ | _ | _ | _ | _ | _ | _ | _ | _ | _ | _
  case admin =>
    have hresources : ((w.servers kc'.server).serve kc'.label request.method request.endpoint
        request.body).2.resources = (w.servers kc'.server).resources :=
      Server.serve_resources hquiet
    change (w.admin kc' request).2.view kc s = w.view kc s
    rw [World.admin_snd]
    unfold World.view
    rw [World.target_setServer hresources]
    rfl
  case getObject =>
    simp only [World.handle]
    split <;> rfl
  case updateObject => exact hquiet.elim
  case patchObject => exact hquiet.elim
  case patchStatus => exact w.view_patchStatus _ _ kc s
  case createSecret => exact w.view_createSecret _ kc s
  case updateSecret => exact w.view_updateSecret _ kc s
  all_goals rfl

theorem reliable_resources {op : Op} {w w' : World} {answer : op.Answer} (hquiet : op.Quiet)
    (h : Reliable op w answer w') (name : String) :
    (w'.servers name).resources = (w.servers name).resources := by
  obtain ⟨order, now, rfl⟩ := reliable_state h
  rcases op with _ | _ | _ | ⟨kc, request⟩ | _ | _ | _ | _ | _ | _ | _ | _ | _ | _
  case admin =>
    change ((w.admin kc request).2.servers name).resources = _
    rw [World.admin_snd]
    by_cases hname : name = kc.server
    · subst hname
      exact (congrArg Server.resources (Function.update_self ..)).trans (Server.serve_resources hquiet)
    · exact congrArg Server.resources (Function.update_of_ne hname ..)
  case getObject | patchStatus | createSecret | updateSecret =>
    simp only [World.handle, World.patchStatus, World.createSecret, World.updateSecret]
    split <;> rfl
  case updateObject => exact hquiet.elim
  case patchObject => exact hquiet.elim
  all_goals rfl

theorem Server.serve_clientRoles (s : Server) (label : String) (method : Method)
    (endpoint : Endpoint) (body : Body) :
    (s.serve label method endpoint body).2.clientRoles = s.clientRoles := by
  have hreplace : ∀ {keyField : String} (f : Collection keyField → Server) c,
      (∀ c, (f c).clientRoles = s.clientRoles) → (s.replace f c).2.clientRoles = s.clientRoles := by
    intro keyField f c hf
    rcases c with _ | c
    · rfl
    · exact hf c
  have hsub : ∀ method, (s.writeSub method endpoint body).2.clientRoles = s.clientRoles := by
    intro method
    unfold writeSub
    split
    case h_1 => split <;> rfl
    all_goals first | rfl | exact hreplace _ _ fun _ => rfl
  rcases method <;> unfold serve <;> dsimp only
  case post =>
    split
    · unfold create
      split
      · rfl
      · exact hreplace _ _ fun _ => rfl
    · exact hsub _
  case put =>
    split
    · unfold put
      split
      · rfl
      · exact hreplace _ _ fun _ => rfl
    · exact hsub _
  case delete =>
    split
    · unfold delete
      split <;> rfl
    · exact hsub _

/-- No operation adds or removes roles of clients. -/
theorem reliable_clientRoles {op : Op} {w w' : World} {answer : op.Answer}
    (h : Reliable op w answer w') (name : String) :
    (w'.servers name).clientRoles = (w.servers name).clientRoles := by
  obtain ⟨order, now, rfl⟩ := reliable_state h
  rcases op with _ | _ | _ | ⟨kc, request⟩ | _ | _ | _ | _ | _ | _ | _ | _ | _ | _
  case admin =>
    change ((w.admin kc request).2.servers name).clientRoles = _
    rw [World.admin_snd]
    by_cases hname : name = kc.server
    · subst hname
      exact (congrArg Server.clientRoles (Function.update_self ..)).trans (Server.serve_clientRoles ..)
    · exact congrArg Server.clientRoles (Function.update_of_ne hname ..)
  case getObject | patchStatus | createSecret | updateSecret | updateObject | patchObject =>
    simp only [World.handle, World.patchStatus, World.createSecret, World.updateSecret,
      World.updateObject, World.patchObject]
    split <;> rfl
  all_goals rfl

theorem faulty_quiet {op : Op} {w w' : World} {answer : op.Answer} (hquiet : op.Quiet)
    (h : Faulty op w answer w') (kc : Conn) (s : Spec) : w'.view kc s = w.view kc s :=
  faulty_elim h rfl fun _ h => reliable_quiet hquiet h kc s

/-! ### Writes of the representation -/

section Writes

variable {server : Server} {place : Place} {key : String} {body : Object}

@[simp] theorem Server.find_setResources (c : Collection place.kind.keyField) (address : Address) :
    (server.setResources place c).find place address = c.find address := by
  simp [Server.find, Server.setResources]

/-- A POST is a conflict, or adds the body under a key that was free. -/
theorem Server.find_create (label : String) (hbody : stringField body place.kind.keyField = some key)
    (hfield : place.kind.keyField ≠ "id") :
    server.create label place body = (conflict, server) ∨
      ((server.create label place body).1 = .done ∧ server.find place (.key key) = none ∧
        ∃ id, id ≠ "" ∧ (server.create label place body).2.find place (.key key) =
          some ⟨id, body.erase "id", some label⟩) := by
  unfold create
  rw [hbody, if_neg (by simp)]
  rcases hinsert : (server.resources place).insert? body (some label) with _ | c
  · exact .inl rfl
  right
  have hitems := Collection.items_of_ofItems? hinsert
  generalize hnew : (⟨_, body.erase "id", some label⟩ : Resource) = new at hitems
  have hnames : (Address.key key).names place.kind.keyField new := by
    refine decide_eq_true ?_
    rw [← hnew]
    unfold Resource.key stringField
    rw [FiniteMap.get_erase_of_ne _ hfield]
    exact hbody
  have hmem : new ∈ c.items := hitems ▸ List.mem_append_right _ List.mem_cons_self
  refine ⟨rfl, ?_, new.id, ?_, ?_⟩
  · -- a resource with the key would occur twice in the new collection
    rcases hfind : server.find place (.key key) with _ | r
    · rfl
    obtain ⟨hr, hrnames⟩ := Collection.find_eq_some_iff.mp hfind
    have hsame : r = new :=
      Collection.eq_of_names (hitems ▸ List.mem_append_left _ hr) hmem hrnames hnames
    have hnodup : c.items.Nodup := c.nodup_ids.of_map
    rw [hitems] at hnodup
    exact ((List.nodup_append.mp hnodup).2.2 r hr new List.mem_cons_self hsame).elim
  · rw [← hnew]
    exact Collection.freshId_ne_empty _
  · change (server.setResources place c).find place (.key key) = _
    rw [find_setResources, Collection.find_eq_some_iff.mpr ⟨hmem, hnames⟩, ← hnew]

/-- A PUT is a conflict, or lays the body over the addressed resource. -/
theorem Server.find_put {address : Address} {r : Resource}
    (hfind : server.find place (.key key) = some r)
    (hnames : address.names place.kind.keyField r)
    (hkey : (r.overlay body).key place.kind.keyField = some key) :
    server.put place address body = (conflict, server) ∨
      ((server.put place address body).1 = .done ∧
        (server.put place address body).2.find place (.key key) = some (r.overlay body)) := by
  have hmem := (Collection.find_eq_some_iff.mp hfind).1
  have hfound : server.find place address = some r :=
    Collection.find_eq_some_iff.mpr ⟨hmem, hnames⟩
  unfold put
  rw [hfound, if_neg (by simp)]
  rcases hoverlay : (server.resources place).overlay? address body with _ | c
  · exact .inl rfl
  right
  have hitems := Collection.items_of_ofItems? hoverlay
  refine ⟨rfl, ?_⟩
  change (server.setResources place c).find place (.key key) = _
  rw [find_setResources, Collection.find_eq_some_iff, hitems]
  exact ⟨List.mem_map.mpr ⟨r, hmem, if_pos hnames⟩, decide_eq_true hkey⟩

/-- A POST under a free key is not a conflict. -/
theorem Server.create_done (label : String)
    (hbody : stringField body place.kind.keyField = some key)
    (hfield : place.kind.keyField ≠ "id") (hfree : server.find place (.key key) = none) :
    (server.create label place body).1 = .done := by
  have hkey : stringField (body.erase "id") place.kind.keyField = some key := by
    unfold stringField
    rw [FiniteMap.get_erase_of_ne _ hfield]
    exact hbody
  obtain ⟨c, hc⟩ := Collection.insert?_isSome (c := server.resources place) (some label) hkey hfree
  unfold create
  rw [hbody, if_neg (by simp), hc]
  rfl

/-- A PUT that keeps the key of the addressed resource is not a conflict. -/
theorem Server.put_done {address : Address} {r : Resource}
    (hfind : server.find place (.key key) = some r)
    (hnames : address.names place.kind.keyField r)
    (hkey : (r.overlay body).key place.kind.keyField = some key) :
    (server.put place address body).1 = .done := by
  obtain ⟨hmem, hrkey⟩ := Collection.find_eq_some_iff.mp hfind
  have hfound : server.find place address = some r :=
    Collection.find_eq_some_iff.mpr ⟨hmem, hnames⟩
  obtain ⟨c, hc⟩ := Collection.overlay?_isSome hmem hnames
    (hkey.trans (of_decide_eq_true hrkey).symm)
  unfold put
  rw [hfound, if_neg (by simp), hc]
  rfl

end Writes

/-- The view with another resource under the key. -/
def View.store (v : View) (r : Resource) : View := { v with resource := some r }

theorem World.view_setServer (w : World) (kc : Conn) (s : Spec) (server : Server) :
    (w.setServer kc.server server).view kc s =
      { w.view kc s with resource := server.find s.place (.key s.naturalKey) } := by
  simp [view, target, setServer]

section Faulty

variable {w w' : World} {kc : Conn} {s : Spec} {body : Object}

theorem reliable_admin {request : Request} {answer : Except Err request.out.Value}
    (h : Reliable (.admin kc request) w answer w') :
    answer = (w.admin kc request).1 ∧ w' = (w.admin kc request).2 := by
  obtain ⟨_, _, heq⟩ := h
  exact ⟨(congrArg Prod.fst heq).symm, (congrArg Prod.snd heq).symm⟩

/-- A call whose effect is `w'` when it takes effect. -/
theorem faulty_admin {request : Request} {answer : Except Err request.out.Value}
    (h : Faulty (.admin kc request) w answer w') :
    (w' = w ∧ ∃ err, answer = .error err) ∨
      (w' = (w.admin kc request).2 ∧
        (answer = (w.admin kc request).1 ∨ ∃ err, answer = .error err)) := by
  rcases h with h | ⟨hfailure, rfl | ⟨lost, h⟩⟩
  · exact .inr ⟨(reliable_admin h).2, .inl (reliable_admin h).1⟩
  · exact .inl ⟨rfl, hfailure⟩
  · exact .inr ⟨(reliable_admin h).2, .inr hfailure⟩

theorem admin_post : (w.admin kc ⟨.post, s.collectionEndpoint, .object body, .nothing⟩) =
    (((w.servers kc.server).create kc.label s.place body).1.decode .nothing,
      w.setServer kc.server ((w.servers kc.server).create kc.label s.place body).2) := by
  unfold World.admin Server.serve
  rw [s.collection_collectionEndpoint]

theorem admin_put (id : String) : (w.admin kc ⟨.put, s.itemEndpoint id, .object body, .nothing⟩) =
    (((w.servers kc.server).put s.place (s.itemAddress id) body).1.decode .nothing,
      w.setServer kc.server ((w.servers kc.server).put s.place (s.itemAddress id) body).2) := by
  unfold World.admin Server.serve
  rw [s.item_itemEndpoint]

theorem faulty_post {answer : Except Err Unit}
    (hbody : stringField body s.place.kind.keyField = some s.naturalKey)
    (h : Faulty (.admin kc ⟨.post, s.collectionEndpoint, .object body, .nothing⟩) w answer w') :
    (w'.view kc s = w.view kc s ∧ ∃ err, answer = .error err) ∨
      (w.target kc s = none ∧
        ∃ id, id ≠ "" ∧
          w'.view kc s = (w.view kc s).store ⟨id, body.erase "id", some kc.label⟩) := by
  rcases faulty_admin h with ⟨rfl, herr⟩ | ⟨rfl, hanswer⟩
  · exact .inl ⟨rfl, herr⟩
  rw [admin_post] at hanswer ⊢
  rcases @Server.find_create (w.servers kc.server) _ _ _ kc.label hbody (Kind.keyField_ne_id _) with
    hconflict | ⟨hdone, habsent, id, hid, hfind⟩
  · left
    rw [hconflict] at hanswer ⊢
    refine ⟨by rw [World.setServer_self], ?_⟩
    rcases hanswer with rfl | herr
    · exact ⟨_, rfl⟩
    · exact herr
  · right
    refine ⟨habsent, id, hid, ?_⟩
    rw [World.view_setServer, hfind]
    rfl

theorem faulty_put {r : Resource} {answer : Except Err Unit}
    (htarget : w.target kc s = some r)
    (hkey : (r.overlay body).key s.place.kind.keyField = some s.naturalKey)
    (h : Faulty (.admin kc ⟨.put, s.itemEndpoint r.id, .object body, .nothing⟩) w answer w') :
    (w'.view kc s = w.view kc s ∧ ∃ err, answer = .error err) ∨
      w'.view kc s = (w.view kc s).store (r.overlay body) := by
  have hnames : (s.itemAddress r.id).names s.place.kind.keyField r :=
    names_itemAddress (of_decide_eq_true (Collection.find_eq_some_iff.mp htarget).2)
  rcases faulty_admin h with ⟨rfl, herr⟩ | ⟨rfl, hanswer⟩
  · exact .inl ⟨rfl, herr⟩
  rw [admin_put] at hanswer ⊢
  rcases Server.find_put htarget hnames hkey with hconflict | ⟨hdone, hfind⟩
  · left
    rw [hconflict] at hanswer ⊢
    refine ⟨by rw [World.setServer_self], ?_⟩
    rcases hanswer with rfl | herr
    · exact ⟨_, rfl⟩
    · exact herr
  · right
    rw [World.view_setServer, hfind]
    rfl

end Faulty

/-! ### Writes of the custom resource -/

/-- The view with another annotation. -/
def View.record (v : View) (text : AnnotationText) : View :=
  { v with object := v.object.map fun core => { core with lastApplied := text } }

section Object

variable {w w' : World} {base obj stored : ManagedObject}

theorem faulty_patchObject {answer : Except Err ManagedObject}
    (hne : base.lastApplied ≠ obj.lastApplied) (h : Faulty (.patchObject base obj) w answer w')
    (kc : Conn) (s : Spec) :
    (w'.view kc s = w.view kc s ∧ ∃ err, answer = .error err) ∨
      w'.view kc s = (w.view kc s).record obj.lastApplied := by
  have hrecord : (w.patchObject base obj).2.view kc s = (w.view kc s).record obj.lastApplied := by
    unfold World.patchObject
    rcases hobject : w.object with _ | stored
    · simp [World.view, View.record, hobject]
    · simp [World.view, World.target, View.record, hobject, ManagedObject.core, World.patched, hne]
  rcases h with ⟨_, _, heq⟩ | ⟨hfailure, rfl | ⟨lost, _, _, heq⟩⟩
  · exact .inr ((show (w.patchObject base obj).2 = w' from congrArg Prod.snd heq) ▸ hrecord)
  · exact .inl ⟨rfl, hfailure⟩
  · exact .inr ((show (w.patchObject base obj).2 = w' from congrArg Prod.snd heq) ▸ hrecord)

theorem faulty_updateObject {answer : Except Err ManagedObject} (hobject : w.object = some stored)
    (hlive : stored.deletionTimestamp = none) (hspec : obj.spec = stored.spec)
    (hrecord : obj.lastApplied = stored.lastApplied)
    (h : Faulty (.updateObject obj) w answer w') (kc : Conn) (s : Spec) :
    w'.view kc s = w.view kc s := by
  have hkeeps : (w.updateObject obj).2.view kc s = w.view kc s := by
    unfold World.updateObject
    rw [hobject]
    simp [World.view, World.target, hobject, hlive, hspec, hrecord, ManagedObject.core]
  rcases h with ⟨_, _, heq⟩ | ⟨hfailure, rfl | ⟨lost, _, _, heq⟩⟩
  · exact (show (w.updateObject obj).2 = w' from congrArg Prod.snd heq) ▸ hkeeps
  · rfl
  · exact (show (w.updateObject obj).2 = w' from congrArg Prod.snd heq) ▸ hkeeps

/-- The operation writes the custom resource. -/
def Op.WritesObject : Op → Prop
  | .updateObject _ => True
  | .patchObject _ _ => True
  | .patchStatus _ _ => True
  | _ => False

theorem Op.Reads.not_writesObject {op : Op} (h : op.Reads) : ¬ op.WritesObject := by
  rcases op <;> first | exact h.elim | exact fun h => h

theorem Op.WritesSecret.not_writesObject {op : Op} (h : op.WritesSecret) : ¬ op.WritesObject := by
  rcases op <;> first | exact h.elim | exact fun h => h

/-- `PostApply` neither writes the custom resource nor warns. -/
theorem only_postApply_silent {kc : Conn} (obj : ManagedObject) (remote : Object) :
    Only (fun op : Op => ¬ op.WritesObject ∧ ¬ op.Warns) (obj.spec.driver.postApply kc obj remote) := by
  refine only_postApply ?_ ?_ ?_ obj
  · intro op hop
    refine ⟨hop.not_writesObject, ?_⟩
    rcases op <;> first | exact hop.elim | exact fun hwarns => hwarns
  · intro op hop
    refine ⟨hop.not_writesObject, ?_⟩
    rcases op <;> first | exact hop.elim | exact fun hwarns => hwarns
  · rintro op ⟨_, _, _, rfl, -⟩
    exact ⟨fun hwrites => hwrites, fun hwarns => hwarns⟩

theorem only_postApply_object {kc : Conn} (obj : ManagedObject) (remote : Object) :
    Only (fun op : Op => ¬ op.WritesObject) (obj.spec.driver.postApply kc obj remote) :=
  only_mono (fun _ hop => hop.1) (only_postApply_silent obj remote)

theorem reliable_object {op : Op} {answer : op.Answer} (hop : ¬ op.WritesObject)
    (h : Reliable op w answer w') : w'.object = w.object := by
  obtain ⟨order, now, rfl⟩ := reliable_state h
  rcases op
  case getObject =>
    simp only [World.handle]
    split <;> rfl
  case updateObject | patchObject | patchStatus => exact absurd trivial hop
  case createSecret secret =>
    change (w.createSecret secret).2.object = w.object
    unfold World.createSecret
    split <;> rfl
  case updateSecret secret =>
    change (w.updateSecret secret).2.object = w.object
    unfold World.updateSecret
    split <;> rfl
  all_goals rfl

theorem reliable_connections {op : Op} {answer : op.Answer} (h : Reliable op w answer w') :
    w'.connections = w.connections := by
  obtain ⟨order, now, rfl⟩ := reliable_state h
  rcases op
  case getObject | updateObject | patchObject | patchStatus | createSecret | updateSecret =>
    simp only [World.handle, World.updateObject, World.patchObject, World.patchStatus,
      World.createSecret, World.updateSecret]
    split <;> rfl
  all_goals rfl

/-- A call changes neither the deletion timestamp of the custom resource nor, but for a
    patch of the status, its status; the generation does not go back. -/
theorem reliable_writesObject {op : Op} {answer : op.Answer} (h : Reliable op w answer w')
    (hobject : w'.object = some obj) :
    ∃ stored, w.object = some stored ∧ obj.deletionTimestamp = stored.deletionTimestamp ∧
      stored.generation ≤ obj.generation ∧
      ((∀ base new, op ≠ .patchStatus base new) → obj.status = stored.status) := by
  by_cases hop : op.WritesObject
  case neg =>
    rw [reliable_object hop h] at hobject
    exact ⟨obj, hobject, rfl, le_rfl, fun _ => rfl⟩
  obtain ⟨order, now, rfl⟩ := reliable_state h
  rcases hstored : w.object with _ | stored
  · rcases op <;> first | exact hop.elim | skip
    all_goals
      simp [World.handle, World.updateObject, World.patchObject, World.patchStatus, hstored]
        at hobject
  refine ⟨stored, rfl, ?_⟩
  rcases op with _ | _ | _ | _ | _ | new | ⟨base, new⟩ | ⟨base, new⟩ | _ | _ | _ | _ | _ | _
  case updateObject =>
    change (w.updateObject new).2.object = _ at hobject
    unfold World.updateObject at hobject
    rw [hstored] at hobject
    dsimp only at hobject
    split at hobject <;> cases hobject
    refine ⟨rfl, ?_, fun _ => rfl⟩
    dsimp only
    split <;> omega
  case patchObject =>
    change (w.patchObject base new).2.object = _ at hobject
    unfold World.patchObject at hobject
    rw [hstored] at hobject
    cases hobject
    exact ⟨rfl, le_rfl, fun _ => rfl⟩
  case patchStatus =>
    change (w.patchStatus base new).2.object = _ at hobject
    unfold World.patchStatus at hobject
    rw [hstored] at hobject
    cases hobject
    exact ⟨rfl, le_rfl, fun h => absurd rfl (h base new)⟩
  all_goals exact hop.elim

/-- A live custom resource stays. -/
theorem reliable_stays {op : Op} {answer : op.Answer} (h : Reliable op w answer w')
    (hstored : w.object = some stored) (hlive : stored.deletionTimestamp = none) :
    ∃ obj, w'.object = some obj := by
  by_cases hop : op.WritesObject
  case neg => exact ⟨stored, (reliable_object hop h).trans hstored⟩
  obtain ⟨order, now, rfl⟩ := reliable_state h
  rcases op <;> first | exact hop.elim | skip
  all_goals
    simp [World.handle, World.updateObject, World.patchObject, World.patchStatus, hstored, hlive]

/-- No call takes a deletion back. -/
theorem faulty_deletionTimestamp {op : Op} {answer : op.Answer} (h : Faulty op w answer w')
    (hobject : w'.object = some obj) :
    ∃ stored, w.object = some stored ∧ obj.deletionTimestamp = stored.deletionTimestamp := by
  refine faulty_elim h (fun hobject => ⟨obj, hobject, rfl⟩) (fun _ h hobject => ?_) hobject
  obtain ⟨stored, hstored, hsame, -⟩ := reliable_writesObject h hobject
  exact ⟨stored, hstored, hsame⟩

end Object

end KeycloakOperator
