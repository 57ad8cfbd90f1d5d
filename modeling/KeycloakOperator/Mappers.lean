import KeycloakOperator.ScopeAssignments
import KeycloakOperator.Variants

/-!
# Identity provider mappers

`PostApply` of an identity provider makes two loops: over the desired mappers, which it creates
or updates, and over the mappers it has found, of which it deletes the unwanted ones.  Desired
and stored mappers are matched by name, updates and deletions are addressed by id.

The loops are described by what is stored under each name: every request of a loop changes one
name and leaves the others alone (`Collection.ChangesOnly`).
-/

namespace KeycloakOperator

open Prog

/-! ### Collections by key -/

namespace Collection

variable {keyField : String} {c c' : Collection keyField} {r : Resource} {body : Object}
  {name : String}

/-- The two collections differ under one key at most. -/
def ChangesOnly (c c' : Collection keyField) (name : String) : Prop :=
  ∀ other, other ≠ name → c'.find (.key other) = c.find (.key other)

theorem find_key_eq_some_iff :
    c.find (.key name) = some r ↔ r ∈ c.items ∧ r.key keyField = some name :=
  find_eq_some_iff.trans (and_congr_right fun _ => decide_eq_true_iff)

/-- Collections with the same resources under a key. -/
theorem find_key_congr (h : ∀ r, r.key keyField = some name → (r ∈ c'.items ↔ r ∈ c.items)) :
    c'.find (.key name) = c.find (.key name) := by
  ext r
  rw [find_key_eq_some_iff, find_key_eq_some_iff]
  constructor
  · exact fun ⟨hr, hkey⟩ => ⟨(h r hkey).mp hr, hkey⟩
  · exact fun ⟨hr, hkey⟩ => ⟨(h r hkey).mpr hr, hkey⟩

/-- Replace the representation of the addressed resource. -/
def replace? (c : Collection keyField) (address : Address) (body : Object) :
    Option (Collection keyField) :=
  ofItems? (c.items.map fun r =>
    if address.names keyField r then { r with rep := body.erase "id" } else r)

/-- The resource under the key has the entries of the body, and no other key has changed. -/
def Takes (c c' : Collection keyField) (name : String) (body : Object) : Prop :=
  c.ChangesOnly c' name ∧ ∃ r, c'.find (.key name) = some r ∧
    ∀ k v, k ≠ "id" → body.get k = some v → r.rep.get k = some v

theorem takes_insert? {created : Option String} (h : c.insert? body created = some c')
    (hbody : stringField (body.erase "id") keyField = some name) : c.Takes c' name body := by
  have hitems := items_of_ofItems? h
  generalize hnew : (⟨_, body.erase "id", created⟩ : Resource) = new at hitems
  have hkey : new.key keyField = some name := by
    rw [← hnew]
    exact hbody
  constructor
  · intro other hother
    apply find_key_congr
    intro r hr
    rw [hitems, List.mem_append, List.mem_singleton, or_iff_left]
    rintro rfl
    exact hother (Option.some.inj (hr.symm.trans hkey))
  · refine ⟨new, find_key_eq_some_iff.mpr ⟨?_, hkey⟩, fun k v hk hv => ?_⟩
    · rw [hitems]
      exact List.mem_append_right _ List.mem_cons_self
    · rw [← hnew]
      exact (FiniteMap.get_erase_of_ne _ hk).trans hv

/-- A change of one resource that keeps its key. -/
theorem takes_of_map {address : Address} {f : Resource → Resource}
    (h : ofItems? (c.items.map fun r' => if address.names keyField r' then f r' else r') = some c')
    (hr : c.find (.key name) = some r) (hnames : address.names keyField r)
    (hkey : (f r).key keyField = some name)
    (hbody : ∀ k v, k ≠ "id" → body.get k = some v → (f r).rep.get k = some v) :
    c.Takes c' name body := by
  have hitems := items_of_ofItems? h
  obtain ⟨hmem, hold⟩ := find_key_eq_some_iff.mp hr
  have hsame : ∀ r' ∈ c.items, address.names keyField r' = true → r' = r :=
    fun r' hr' hnames' => eq_of_names hr' hmem hnames' hnames
  constructor
  · intro other hother
    apply find_key_congr
    intro r' hr'
    rw [hitems, List.mem_map]
    constructor
    · rintro ⟨old, hmem', rfl⟩
      by_cases hnamed : address.names keyField old = true
      · rw [if_pos hnamed, hsame old hmem' hnamed, hkey] at hr'
        exact absurd (Option.some.inj hr').symm hother
      · rwa [if_neg hnamed]
    · intro hmem'
      refine ⟨r', hmem', if_neg fun hnamed => hother ?_⟩
      rw [hsame r' hmem' hnamed] at hr'
      exact Option.some.inj (hr'.symm.trans hold)
  · refine ⟨f r, find_key_eq_some_iff.mpr ⟨?_, hkey⟩, hbody⟩
    rw [hitems]
    exact List.mem_map.mpr ⟨r, hmem, if_pos hnames⟩

theorem takes_replace? (h : c.replace? (.id r.id) body = some c') (hr : c.find (.key name) = some r)
    (hbody : stringField (body.erase "id") keyField = some name) : c.Takes c' name body :=
  takes_of_map h hr (decide_eq_true rfl) hbody fun _ _ hk hv => (FiniteMap.get_erase_of_ne _ hk).trans hv

theorem get_overlay_of_body {k : String} {v : JSON} (hk : k ≠ "id") (hv : body.get k = some v) :
    (r.overlay body).rep.get k = some v := by
  rw [r.get_overlay body hk, hv]
  rfl

theorem key_overlay_of_body (hkeyField : keyField ≠ "id")
    (hbody : stringField (body.erase "id") keyField = some name) :
    (r.overlay body).key keyField = some name := by
  unfold stringField at hbody
  rw [FiniteMap.get_erase_of_ne _ hkeyField] at hbody
  obtain ⟨v, hv, hname⟩ := Option.bind_eq_some_iff.mp hbody
  unfold Resource.key stringField
  rw [get_overlay_of_body hkeyField hv]
  exact hname

theorem takes_overlay? {address : Address} (h : c.overlay? address body = some c')
    (hr : c.find (.key name) = some r) (hnames : address.names keyField r)
    (hkey : (r.overlay body).key keyField = some name) : c.Takes c' name body :=
  takes_of_map h hr hnames hkey fun _ _ => get_overlay_of_body

theorem find_remove (hr : c.find (.key name) = some r) :
    c.ChangesOnly (c.remove (.id r.id)) name ∧ (c.remove (.id r.id)).find (.key name) = none := by
  obtain ⟨hmem, hkey⟩ := find_key_eq_some_iff.mp hr
  have hremove : ∀ r', r' ∈ (c.remove (.id r.id)).items ↔ r' ∈ c.items ∧ r'.id ≠ r.id := by
    intro r'
    simp [remove, Address.names]
  constructor
  · intro other hother
    apply find_key_congr
    intro r' hr'
    rw [hremove, and_iff_left_iff_imp]
    intro hold hid
    rw [List.inj_on_of_nodup_map c.nodup_ids hold hmem hid] at hr'
    exact hother (Option.some.inj (hr'.symm.trans hkey))
  · rw [Option.eq_none_iff_forall_ne_some]
    intro r' hr'
    obtain ⟨hr', hkey'⟩ := find_key_eq_some_iff.mp hr'
    obtain ⟨hold, hne⟩ := (hremove r').mp hr'
    cases hr.symm.trans (find_key_eq_some_iff.mpr ⟨hold, hkey'⟩)
    exact hne rfl

end Collection

/-! ### Payloads -/

section Payloads

variable {s : IdentityProviderSpec} {mapper : IdentityProviderMapper} {name : String}

/-- The last of the desired mappers with a name. -/
def IdentityProviderSpec.lastNamed (s : IdentityProviderSpec) (name : String) :
    Option IdentityProviderMapper :=
  s.mappers.reverse.find? fun mapper => decide (mapper.name = name)

theorem get_desiredByName : s.desiredByName.get name = s.lastNamed name := by
  unfold IdentityProviderSpec.desiredByName
  rw [FiniteMap.get_foldl_put (fun mapper : IdentityProviderMapper => some mapper.name)
    (fun mapper => mapper)]
  · simp [IdentityProviderSpec.lastNamed]
  · exact fun _ _ => rfl

theorem name_of_lastNamed (h : s.lastNamed name = some mapper) : mapper.name = name := by
  simpa using List.find?_some h

theorem lastNamed_ne_none : s.lastNamed name ≠ none ↔ ∃ mapper ∈ s.mappers, mapper.name = name := by
  simp [IdentityProviderSpec.lastNamed]

theorem get_toJSONMap_of_ne {k : String} (hname : k ≠ "name") (htype : k ≠ "identityProviderMapper")
    (hconfig : k ≠ "config") : mapper.toJSONMap.get k = none := by
  unfold IdentityProviderMapper.toJSONMap putSome
  rcases mapper.identityProviderMapper with _ | type <;>
    rcases nonEmptyMap mapper.config jsonStringMap with _ | config <;>
    simp [FiniteMap.ofList, FiniteMap.get_put, hname, htype, hconfig]

theorem get_toJSONMap_name : mapper.toJSONMap.get "name" = some (.str mapper.name) := by
  unfold IdentityProviderMapper.toJSONMap putSome
  rcases mapper.identityProviderMapper with _ | type <;>
    rcases nonEmptyMap mapper.config jsonStringMap with _ | config <;>
    simp [FiniteMap.ofList, FiniteMap.get_put]

theorem get_mapperPayload_of_ne {k : String} (hk : k ≠ "identityProviderAlias") :
    (s.mapperPayload mapper).get k = mapper.toJSONMap.get k := FiniteMap.get_put_of_ne _ _ hk

theorem get_mapperPayload_id : (s.mapperPayload mapper).get "id" = none := by
  rw [get_mapperPayload_of_ne (by decide),
    get_toJSONMap_of_ne (by decide) (by decide) (by decide)]

theorem stringField_mapperPayload : stringField (s.mapperPayload mapper) "name" = some mapper.name := by
  unfold stringField
  rw [get_mapperPayload_of_ne (by decide), get_toJSONMap_name]
  rfl

theorem mappersDiffer_eq_false_iff {current payload : Object} :
    mappersDiffer current payload = false ↔ ∀ k want, payload.get k = some want →
      k ≠ "identityProviderAlias" → current.get k = some want := by
  unfold mappersDiffer
  rw [decide_eq_false_iff_not]
  push Not
  rw [← FiniteMap.forall_vals_iff (p := fun k want => k ≠ "identityProviderAlias" →
    current.get k = some want)]
  refine forall_congr' fun k => imp_congr_right fun _ => ?_
  rcases current.get k with _ | got
  · simp
  · by_cases hsame : payload.vals k = got
    · simp [jsonEqual, hsame]
    · simp [jsonEqual, hsame, Ne.symm hsame]

/-- A stored payload does not differ from itself. -/
theorem mappersDiffer_stored {r : Resource} (h : ∀ k v, k ≠ "id" →
      (s.mapperPayload mapper).get k = some v → r.rep.get k = some v) :
    mappersDiffer r.report (s.mapperPayload mapper) = false := by
  rw [mappersDiffer_eq_false_iff]
  intro k want hget _
  have hk : k ≠ "id" := by
    rintro rfl
    rw [get_mapperPayload_id] at hget
    cases hget
  rw [r.get_report_of_ne hk]
  exact h k want hk hget

end Payloads

/-! ### Requests -/

namespace World

variable {w : World} {kc : Conn} {realm idpAlias : String} {c c' : Collection "name"}

def mappers (w : World) (kc : Conn) (realm idpAlias : String) : Collection "name" :=
  (w.servers kc.server).mappers realm idpAlias

def setMappers (w : World) (kc : Conn) (realm idpAlias : String) (c : Collection "name") : World :=
  w.setServer kc.server ((w.servers kc.server).setMappers realm idpAlias c)

@[simp] theorem mappers_setMappers :
    (w.setMappers kc realm idpAlias c).mappers kc realm idpAlias = c := by
  simp [mappers, setMappers, Server.setMappers]

end World

/-- The operation creates, updates or deletes a mapper of the provider. -/
def Op.WritesMapper (realm idpAlias : String) : Op → Prop
  | .admin _ ⟨.post, .mappers realm' idpAlias', _, _⟩ => realm' = realm ∧ idpAlias' = idpAlias
  | .admin _ ⟨.put, .mapper realm' idpAlias' _, _, _⟩ => realm' = realm ∧ idpAlias' = idpAlias
  | .admin _ ⟨.delete, .mapper realm' idpAlias' _, _, _⟩ => realm' = realm ∧ idpAlias' = idpAlias
  | _ => False

theorem Op.Reads.not_writesMapper {op : Op} (h : op.Reads) (realm idpAlias : String) :
    ¬ op.WritesMapper realm idpAlias := by
  rcases op with _ | _ | _ | ⟨kc, method, endpoint, body, out⟩ | _ | _ | _ | _ | _ | _ | _ | _ | _ | _
  case admin =>
    cases (h : method = .get)
    exact id
  all_goals exact id

/-- An environment in which a mapper has the entries of the body afterwards. -/
structure KeepsMappers (env : Env operations World) (errs : Prop) : Prop extends Reading env errs where
  iterate : ∀ {keys : Finset String} {order : Order keys} {w w' : World},
    env (.iterate keys) w order w' → w' = w
  create : ∀ {kc : Conn} {realm idpAlias : String} {body : Object} {w w' : World}
    {answer : Except Err Unit},
    env (.admin kc ⟨.post, .mappers realm idpAlias, .object body, .nothing⟩) w answer w' →
    (∃ err, answer = .error err) ∨ ∃ c, (w.mappers kc realm idpAlias).insert? body none = some c ∧
      answer = .ok () ∧ w' = w.setMappers kc realm idpAlias c
  update : ∀ {kc : Conn} {realm idpAlias name : String} {r : Resource} {body : Object}
    {w w' : World} {answer : Except Err Unit},
    env (.admin kc ⟨.put, .mapper realm idpAlias r.id, .object body, .nothing⟩) w answer w' →
    (w.mappers kc realm idpAlias).find (.key name) = some r →
    stringField (body.erase "id") "name" = some name →
    (∃ err, answer = .error err) ∨ ∃ c, (w.mappers kc realm idpAlias).Takes c name body ∧
      answer = .ok () ∧ w' = w.setMappers kc realm idpAlias c
  delete : ∀ {kc : Conn} {realm idpAlias id : String} {w w' : World} {answer : Except Err Unit},
    env (.admin kc ⟨.delete, .mapper realm idpAlias id, .none, .nothing⟩) w answer w' →
    (∃ err, answer = .error err) ∨ (answer = .ok () ∧
      w' = w.setMappers kc realm idpAlias ((w.mappers kc realm idpAlias).remove (.id id)))

/-- An environment in which no write of a mapper is refused that leaves names unique. -/
structure AcceptsMappers (env : Env operations World) : Prop where
  create : ∀ {kc : Conn} {realm idpAlias name : String} {body : Object} {w w' : World}
    {answer : Except Err Unit},
    env (.admin kc ⟨.post, .mappers realm idpAlias, .object body, .nothing⟩) w answer w' →
    stringField (body.erase "id") "name" = some name →
    (w.mappers kc realm idpAlias).find (.key name) = none → answer = .ok ()
  update : ∀ {kc : Conn} {realm idpAlias name : String} {r : Resource} {body : Object}
    {w w' : World} {answer : Except Err Unit},
    env (.admin kc ⟨.put, .mapper realm idpAlias r.id, .object body, .nothing⟩) w answer w' →
    (w.mappers kc realm idpAlias).find (.key name) = some r →
    stringField (body.erase "id") "name" = some name → answer = .ok ()
  delete : ∀ {kc : Conn} {realm idpAlias id : String} {w w' : World} {answer : Except Err Unit},
    env (.admin kc ⟨.delete, .mapper realm idpAlias id, .none, .nothing⟩) w answer w' →
    answer = .ok ()

/-! ### The loops -/

/-- The resource is stored as the mapper asks for. -/
def IdentityProviderSpec.Keeps (s : IdentityProviderSpec) (mapper : IdentityProviderMapper)
    (r : Resource) : Prop :=
  mappersDiffer r.report (s.mapperPayload mapper) = false

/-- No mapper is created under a name that exists. -/
def Op.CreatesFresh (op : Op) (kc : Conn) (realm idpAlias : String) (w : World) : Prop :=
  ∀ body name, op = .admin kc ⟨.post, .mappers realm idpAlias, .object body, .nothing⟩ →
    stringField body "name" = some name → (w.mappers kc realm idpAlias).find (.key name) = none

theorem Op.Reads.createsFresh {op : Op} (h : op.Reads) {kc : Conn} {realm idpAlias : String}
    {w : World} : op.CreatesFresh kc realm idpAlias w := by
  rintro body name rfl
  cases h

section Loops

variable {env : Env operations World} {errs : Prop} {guard : Op → World → Prop} {w : World}
  {kc : Conn} {s : IdentityProviderSpec} {currentByName : FiniteMap String Object}
  {names : List String} {post : Except Err Bool → World → Prop}

/-- One desired mapper: the provider has it in the end, and nothing else has changed. -/
theorem wp_applyMapper (hkeeps : KeepsMappers env errs) {mapper : IdentityProviderMapper}
    (hguard : ∀ op, op.CreatesFresh kc s.realm s.idpAlias w → guard op w)
    (herr : (AcceptsMappers env → errs) → ∀ err t, post (.error err) t)
    (h : ∀ changed t, (w.mappers kc s.realm s.idpAlias).ChangesOnly
        (t.mappers kc s.realm s.idpAlias) mapper.name →
      (∃ r, (t.mappers kc s.realm s.idpAlias).find (.key mapper.name) = some r ∧ s.Keeps mapper r) →
      post (.ok changed) t) :
    wp env guard (s.applyMapper kc (s.mapperPayload mapper)
      (((w.mappers kc s.realm s.idpAlias).find (.key mapper.name)).map Resource.report)).run post w := by
  have hbody : stringField ((s.mapperPayload mapper).erase "id") "name" = some mapper.name := by
    unfold stringField
    rw [FiniteMap.get_erase_of_ne _ (by decide)]
    exact stringField_mapperPayload
  rcases hfound : (w.mappers kc s.realm s.idpAlias).find (.key mapper.name) with _ | r
  · -- the mapper is created
    refine wp_run_bind.mpr ⟨hguard _ ?_, fun answer t hstep => ?_⟩
    · rintro body name ⟨⟩ hname
      cases stringField_mapperPayload.symm.trans hname
      exact hfound
    rcases hkeeps.create hstep with ⟨err, rfl⟩ | ⟨c, hinsert, rfl, rfl⟩
    · exact herr (fun haccepts => by cases haccepts.create hstep hbody hfound) err t
    obtain ⟨hchanges, r, hr, hrep⟩ := Collection.takes_insert? hinsert hbody
    apply h true
    · rw [World.mappers_setMappers]
      exact hchanges
    · rw [World.mappers_setMappers]
      exact ⟨r, hr, mappersDiffer_stored hrep⟩
  · have hid : stringField r.report "id" = some r.id := by simp [stringField]
    simp only [Option.map_some, IdentityProviderSpec.applyMapper, hid]
    by_cases hdiffer : mappersDiffer r.report (s.mapperPayload mapper) = true
    · -- the mapper is updated
      rw [if_pos hdiffer]
      refine wp_run_bind.mpr ⟨hguard _ ?_, fun answer t hstep => ?_⟩
      · rintro body name ⟨⟩
      rcases hkeeps.update hstep hfound hbody with ⟨err, rfl⟩ | ⟨c, htakes, rfl, rfl⟩
      · exact herr (fun haccepts => by cases haccepts.update hstep hfound hbody) err t
      obtain ⟨hchanges, r', hr', hrep⟩ := htakes
      apply h true
      · rw [World.mappers_setMappers]
        exact hchanges
      · rw [World.mappers_setMappers]
        exact ⟨r', hr', mappersDiffer_stored hrep⟩
    · rw [if_neg hdiffer]
      exact h false w (fun _ _ => rfl) ⟨r, hfound, eq_false_of_ne_true hdiffer⟩

/-- The loop over the desired mappers. -/
theorem wp_applyMappers (hkeeps : KeepsMappers env errs)
    (hguard : ∀ op t, op.CreatesFresh kc s.realm s.idpAlias t → guard op t)
    (herr : (AcceptsMappers env → errs) → ∀ err t, post (.error err) t) (hnodup : names.Nodup)
    (hcurrent : ∀ name ∈ names, currentByName.get name =
      ((w.mappers kc s.realm s.idpAlias).find (.key name)).map Resource.report)
    (h : ∀ changed t, (∀ name, name ∉ names →
        (t.mappers kc s.realm s.idpAlias).find (.key name) =
          (w.mappers kc s.realm s.idpAlias).find (.key name)) →
      (∀ name ∈ names, ∀ mapper, s.lastNamed name = some mapper →
        ∃ r, (t.mappers kc s.realm s.idpAlias).find (.key name) = some r ∧ s.Keeps mapper r) →
      post (.ok changed) t) :
    wp env guard (s.applyMappers kc currentByName names).run post w := by
  induction names generalizing w post with
  | nil => exact h false w (fun _ _ => rfl) (by simp)
  | cons name rest ih =>
    obtain ⟨hnotMem, hnodup⟩ := List.nodup_cons.mp hnodup
    unfold IdentityProviderSpec.applyMappers
    rw [get_desiredByName]
    rcases hlast : s.lastNamed name with _ | mapper
    · refine ih herr hnodup (fun name' hmem => hcurrent name' (List.mem_cons_of_mem _ hmem)) ?_
      intro changed t hothers hstored
      refine h changed t (fun name' hnot => hothers name' fun hmem => ?_) ?_
      · exact hnot (List.mem_cons_of_mem _ hmem)
      · refine List.forall_mem_cons.mpr ⟨fun mapper hmapper => ?_, hstored⟩
        cases hlast.symm.trans hmapper
    have hname := name_of_lastNamed hlast
    refine wp_run_bind.mpr ?_
    rw [hcurrent name List.mem_cons_self, ← hname]
    refine wp_applyMapper hkeeps (hguard · w) (fun herrs err t => herr herrs err t)
      fun wrote t hchanges hkept => ?_
    rw [hname] at hchanges hkept
    refine wp_run_bind.mpr (ih (fun herrs err t => herr herrs err t) hnodup ?_ ?_)
    · intro name' hmem
      rw [hchanges name' fun heq => hnotMem (heq ▸ hmem)]
      exact hcurrent name' (List.mem_cons_of_mem _ hmem)
    · intro others t' hothers hstored
      refine h (wrote || others) t' (fun name' hnot => ?_) ?_
      · obtain ⟨hne, hrest⟩ := not_or.mp (mt List.mem_cons.mpr hnot)
        rw [hothers name' hrest, hchanges name' hne]
      · refine List.forall_mem_cons.mpr ⟨fun mapper' hmapper => ?_, hstored⟩
        cases hlast.symm.trans hmapper
        rw [hothers name hnotMem]
        exact hkept

/-- The loop over the mappers that were found. -/
theorem wp_removeMappers (hkeeps : KeepsMappers env errs)
    (hguard : ∀ op t, op.CreatesFresh kc s.realm s.idpAlias t → guard op t)
    (herr : (AcceptsMappers env → errs) → ∀ err t, post (.error err) t) (hnodup : names.Nodup)
    (hcurrent : ∀ name ∈ names, s.lastNamed name = none → currentByName.get name =
      ((w.mappers kc s.realm s.idpAlias).find (.key name)).map Resource.report)
    (h : ∀ changed t, (∀ name, name ∉ names ∨ s.lastNamed name ≠ none →
        (t.mappers kc s.realm s.idpAlias).find (.key name) =
          (w.mappers kc s.realm s.idpAlias).find (.key name)) →
      (∀ name ∈ names, s.lastNamed name = none →
        (t.mappers kc s.realm s.idpAlias).find (.key name) = none) →
      post (.ok changed) t) :
    wp env guard (s.removeMappers kc currentByName names).run post w := by
  induction names generalizing w post with
  | nil => exact h false w (fun _ _ => rfl) (by simp)
  | cons name rest ih =>
    obtain ⟨hnotMem, hnodup⟩ := List.nodup_cons.mp hnodup
    have hwanted : name ∈ s.desiredByName.keys ↔ s.lastNamed name ≠ none := by
      rw [← get_desiredByName, ne_eq, FiniteMap.get_eq_none_iff, not_not]
    unfold IdentityProviderSpec.removeMappers
    -- what is not deleted under this name stays as it is
    have hskip : (s.lastNamed name = none →
        (w.mappers kc s.realm s.idpAlias).find (.key name) = none) →
        wp env guard (s.removeMappers kc currentByName rest).run post w := by
      intro hgone
      refine ih herr hnodup (fun name' hmem => hcurrent name' (List.mem_cons_of_mem _ hmem)) ?_
      intro changed t hothers hremoved
      refine h changed t (fun name' hkept => hothers name' (hkept.imp_left fun hnot hmem => ?_)) ?_
      · exact hnot (List.mem_cons_of_mem _ hmem)
      · refine List.forall_mem_cons.mpr ⟨fun hunwanted => ?_, hremoved⟩
        rw [hothers name (.inl hnotMem)]
        exact hgone hunwanted
    by_cases hlast : s.lastNamed name = none
    · rw [if_neg (fun hmem => hwanted.mp hmem hlast), hcurrent name List.mem_cons_self hlast]
      rcases hfound : (w.mappers kc s.realm s.idpAlias).find (.key name) with _ | r
      · exact hskip fun _ => hfound
      have hid : (Option.map Resource.report (some r)).bind (stringField · "id") = some r.id := by
        simp [stringField]
      rw [hid]
      refine wp_run_bind.mpr ⟨hguard _ w ?_, fun answer t hstep => ?_⟩
      · rintro body name' ⟨⟩
      rcases hkeeps.delete hstep with ⟨err, rfl⟩ | ⟨rfl, rfl⟩
      · exact herr (fun haccepts => by cases haccepts.delete hstep) err t
      obtain ⟨hchanges, hgone⟩ := Collection.find_remove hfound
      refine wp_run_bind.mpr (ih (fun herrs err t => herr herrs err t) hnodup ?_ ?_)
      · intro name' hmem hlast'
        rw [World.mappers_setMappers, hchanges name' fun heq => hnotMem (heq ▸ hmem)]
        exact hcurrent name' (List.mem_cons_of_mem _ hmem) hlast'
      · intro others t' hothers hremoved
        rw [World.mappers_setMappers] at hothers
        refine h true t' (fun name' hkept => ?_) ?_
        · have hne : name' ≠ name := by
            rintro rfl
            exact hkept.elim (fun hnot => hnot List.mem_cons_self) fun hwanted' => hwanted' hlast
          rw [hothers name' (hkept.imp_left fun hnot hmem => hnot (List.mem_cons_of_mem _ hmem)),
            hchanges name' hne]
        · refine List.forall_mem_cons.mpr ⟨fun _ => ?_, hremoved⟩
          rw [hothers name (.inl hnotMem), hgone]
    · rw [if_pos (hwanted.mpr hlast)]
      exact hskip fun hunwanted => absurd hunwanted hlast

end Loops

/-! ### A whole call -/

/-- The mappers of the provider are those of its spec. -/
structure MappersSettled (s : IdentityProviderSpec) (c : Collection "name") : Prop where
  stored : ∀ name mapper, s.lastNamed name = some mapper →
    ∃ r, c.find (.key name) = some r ∧ s.Keeps mapper r
  unwanted : ∀ name, s.lastNamed name = none → c.find (.key name) = none

section Apply

variable {env : Env operations World} {errs : Prop} {guard : Op → World → Prop} {w : World}
  {kc : Conn} {s : IdentityProviderSpec} {post : Except Err Bool → World → Prop}

/-- The index of the mappers that were found. -/
theorem get_currentByName (c : Collection "name") (name : String) :
    (IdentityProviderSpec.mappersByName (c.items.map Resource.report)).get name =
      (c.find (.key name)).map Resource.report := by
  rw [get_mappersByName, ← List.map_reverse, List.find?_map, ← c.find?_reverse_key]
  congr 2
  funext r
  exact congrArg (fun v => decide (v = some name)) (Server.stringField_report_name r)

theorem wp_idpPostApply (hkeeps : KeepsMappers env errs)
    (hguard : ∀ op t, op.CreatesFresh kc s.realm s.idpAlias t → guard op t)
    (herr : (AcceptsMappers env → errs) → ∀ err t, post (.error err) t)
    (h : ∀ changed t, MappersSettled s (t.mappers kc s.realm s.idpAlias) → post (.ok changed) t) :
    wp env guard (s.postApply kc).run post w := by
  have hreads : ∀ (op : Op) t, op.Reads → guard op t := fun op t hop => hguard op t hop.createsFresh
  refine wp_run_bind.mpr ?_
  refine wp_send hkeeps.toReading.answering rfl (hreads _ w rfl)
    (fun err herrs => herr (fun _ => herrs) err w) ?_
  have hcurrent := get_currentByName (w.mappers kc s.realm s.idpAlias)
  refine wp_run_bind.mpr (wp_run_lift.mpr
    ⟨hreads _ w trivial, fun desiredOrder t hstep => ?_⟩)
  obtain rfl := hkeeps.iterate hstep
  refine wp_run_bind.mpr (wp_applyMappers hkeeps hguard (fun herrs err t => herr herrs err t)
    desiredOrder.nodup (fun name _ => hcurrent name) fun applied u hothers hstored => ?_)
  refine wp_run_bind.mpr (wp_run_lift.mpr
    ⟨hreads _ u trivial, fun currentOrder u' hstep' => ?_⟩)
  obtain rfl := hkeeps.iterate hstep'
  have hdesired : ∀ name, name ∈ desiredOrder.list ↔ s.lastNamed name ≠ none := by
    intro name
    rw [desiredOrder.mem_iff, ← get_desiredByName, ne_eq, FiniteMap.get_eq_none_iff, not_not]
  refine wp_run_bind.mpr (wp_removeMappers hkeeps hguard (fun herrs err t => herr herrs err t)
    currentOrder.nodup ?_ fun removed v hkept hremoved => ?_)
  · intro name _ hlast
    rw [hothers name fun hmem => (hdesired name).mp hmem hlast]
    exact hcurrent name
  · apply h
    constructor
    · intro name mapper hlast
      have hwanted : s.lastNamed name ≠ none := by simp [hlast]
      rw [hkept name (.inr hwanted)]
      exact hstored name ((hdesired name).mpr hwanted) mapper hlast
    · intro name hlast
      by_cases hmem : name ∈ currentOrder.list
      · exact hremoved name hmem hlast
      · -- a name that was not found is not there
        rw [hkept name (.inl hmem), hothers name fun hmem => (hdesired name).mp hmem hlast]
        have hnone := FiniteMap.get_eq_none_iff.mpr (mt (currentOrder.mem_iff name).mpr hmem)
        exact Option.map_eq_none_iff.mp ((hcurrent name).symm.trans hnone)

/-! ### A call with nothing to do -/

theorem wp_applyMappers_idle {currentByName : FiniteMap String Object} {names : List String}
    (hstored : ∀ name mapper, s.lastNamed name = some mapper →
      ∃ r : Resource, currentByName.get name = some r.report ∧ s.Keeps mapper r)
    (h : post (.ok false) w) : wp env guard (s.applyMappers kc currentByName names).run post w := by
  induction names generalizing post with
  | nil => exact h
  | cons name rest ih =>
    unfold IdentityProviderSpec.applyMappers
    rw [get_desiredByName]
    rcases hlast : s.lastNamed name with _ | mapper
    · exact ih h
    obtain ⟨r, hget, hkeeps⟩ := hstored name mapper hlast
    have hid : stringField r.report "id" = some r.id := by simp [stringField]
    have hsame : mappersDiffer r.report (s.mapperPayload mapper) = false := hkeeps
    refine wp_run_bind.mpr ?_
    simp only [hget, IdentityProviderSpec.applyMapper, hid, hsame]
    exact wp_run_bind.mpr (ih h)

theorem wp_removeMappers_idle {currentByName : FiniteMap String Object} {names : List String}
    (hunwanted : ∀ name, s.lastNamed name = none → currentByName.get name = none)
    (h : post (.ok false) w) : wp env guard (s.removeMappers kc currentByName names).run post w := by
  induction names with
  | nil => exact h
  | cons name rest ih =>
    unfold IdentityProviderSpec.removeMappers
    have hnone : (if name ∈ s.desiredByName.keys then none
        else (currentByName.get name).bind (stringField · "id")) = none := by
      split
      · rfl
      · next hnot =>
        rw [hunwanted name, Option.bind_none]
        rw [← get_desiredByName]
        exact FiniteMap.get_eq_none_iff.mpr hnot
    rw [hnone]
    exact ih

/-- A provider whose mappers are those of its spec is left alone. -/
theorem wp_idpPostApply_idle (hkeeps : KeepsMappers env errs)
    (hreads : ∀ op, op.Reads → guard op w)
    (hsettled : MappersSettled s (w.mappers kc s.realm s.idpAlias))
    (herr : errs → ∀ err, post (.error err) w) (h : post (.ok false) w) :
    wp env guard (s.postApply kc).run post w := by
  refine wp_run_bind.mpr ?_
  refine wp_send hkeeps.toReading.answering rfl (hreads _ rfl) (fun err herrs => herr herrs err) ?_
  have hcurrent := get_currentByName (w.mappers kc s.realm s.idpAlias)
  refine wp_run_bind.mpr (wp_run_lift.mpr
    ⟨hreads _ trivial, fun desiredOrder t hstep => ?_⟩)
  obtain rfl := hkeeps.iterate hstep
  refine wp_run_bind.mpr (wp_applyMappers_idle ?_ ?_)
  · intro name mapper hlast
    obtain ⟨r, hr, hkeeps⟩ := hsettled.stored name mapper hlast
    refine ⟨r, (hcurrent name).trans ?_, hkeeps⟩
    rw [hr]
    rfl
  refine wp_run_bind.mpr (wp_run_lift.mpr
    ⟨hreads _ trivial, fun currentOrder t hstep' => ?_⟩)
  obtain rfl := hkeeps.iterate hstep'
  refine wp_run_bind.mpr (wp_removeMappers_idle ?_ h)
  intro name hlast
  refine (hcurrent name).trans ?_
  rw [hsettled.unwanted name hlast]
  rfl

end Apply

/-! ### The result -/

/-- Whatever the answers are, the call reports whether it performed an operation in `P`. -/
def Marks (P : Op → Prop) (call : Call Bool) : Prop :=
  ∀ seen, wp (S := operations) (marking P) (fun _ _ => True) call.run
    (fun r seen' => ∀ b, r = .ok b → (seen' ↔ seen ∨ b = true)) seen

section Marks

variable {P : Op → Prop} {kc : Conn} {s : IdentityProviderSpec}

theorem marks_false : Marks P (return false) := by
  rintro seen b ⟨⟩
  simp

theorem marks_or {first second : Call Bool} (hfirst : Marks P first) (hsecond : Marks P second) :
    Marks P (do
      let a ← first
      let b ← second
      return a || b) := by
  intro seen
  refine wp_run_bind.mpr (wp_mono (fun r seen' hr => ?_) (hfirst seen))
  rcases r with err | a
  · exact fun b herr => by cases herr
  refine wp_run_bind.mpr (wp_mono (fun r' seen'' hr' => ?_) (hsecond seen'))
  rcases r' with err | b
  · exact fun b herr => by cases herr
  rintro _ ⟨⟩
  rw [hr' b rfl, hr a rfl, Bool.or_eq_true, or_assoc]

/-- A request that counts. -/
theorem marks_submit {method : Method} {endpoint : Endpoint} {body : Body} (next : Call Bool)
    (hop : P (.admin kc ⟨method, endpoint, body, .nothing⟩)) (hnext : Marks P next) :
    Marks P (do
      kc.submit method endpoint body
      let _ ← next
      return true) := by
  intro seen
  refine wp_run_bind.mpr ⟨trivial, fun answer seen' hseen => ?_⟩
  rcases answer with err | _
  · exact fun b herr => by cases herr
  refine wp_run_bind.mpr (wp_mono (fun r seen'' hr => ?_) (hnext seen'))
  rcases r with err | b
  · exact fun b herr => by cases herr
  rintro _ ⟨⟩
  have hmarked : seen' := by
    rw [hseen]
    exact .inr hop
  rw [hr b rfl]
  simp [hmarked]

/-- A step that does not count. -/
theorem marks_read {p : Call α} {f : α → Call Bool} (hp : Only (fun op => ¬ P op) p.run)
    (hf : ∀ a, Marks P (f a)) : Marks P (p >>= f) := by
  intro seen
  have hstays : ∀ (op : Op) (t : Prop) (answer : op.Answer) (t' : Prop), ¬ P op → (t ↔ seen) →
      marking (S := operations) P op t answer t' → (t' ↔ seen) := by
    rintro op t answer t' hop ht rfl
    rw [ht, or_iff_left hop]
  have hkept := wp_of_only (fun t => t ↔ seen) hstays hp Iff.rfl
  refine wp_run_bind.mpr
    (wp_guard_mono (fun _ _ _ => trivial) (wp_mono (fun r t ht => ?_) hkept))
  rcases r with err | a
  · exact fun b herr => by cases herr
  · refine wp_mono (fun r' t' hr' b hb => ?_) (hf a t)
    rw [hr' b hb, ht]

theorem marks_applyMapper (payload : Object) (existing : Option Object) :
    Marks (Op.WritesMapper s.realm s.idpAlias) (s.applyMapper kc payload existing) := by
  have hcreate : Marks (Op.WritesMapper s.realm s.idpAlias) (do
      kc.createIdentityProviderMapper s.realm s.idpAlias payload
      return true) :=
    marks_submit (return false) ⟨rfl, rfl⟩ marks_false
  unfold IdentityProviderSpec.applyMapper
  rcases existing with _ | existing
  · exact hcreate
  dsimp only
  split
  · next id _ =>
    split
    · exact marks_submit (return false) ⟨rfl, rfl⟩ marks_false
    · exact marks_false
  · exact hcreate

theorem marks_idpPostApply : Marks (Op.WritesMapper s.realm s.idpAlias) (s.postApply kc) := by
  have happly : ∀ current names,
      Marks (Op.WritesMapper s.realm s.idpAlias) (s.applyMappers kc current names) := by
    intro current names
    induction names with
    | nil => exact marks_false
    | cons name rest ih =>
      unfold IdentityProviderSpec.applyMappers
      rcases s.desiredByName.get name with _ | mapper
      · exact ih
      · exact marks_or (marks_applyMapper _ _) ih
  have hremove : ∀ current names,
      Marks (Op.WritesMapper s.realm s.idpAlias) (s.removeMappers kc current names) := by
    intro current names
    induction names with
    | nil => exact marks_false
    | cons name rest ih =>
      unfold IdentityProviderSpec.removeMappers
      split
      · exact ih
      · exact marks_submit _ ⟨rfl, rfl⟩ ih
  have hreads : ∀ op : Op, op.Reads → ¬ op.WritesMapper s.realm s.idpAlias :=
    fun op hop => hop.not_writesMapper _ _
  refine marks_read (only_send (hreads _ rfl)) fun current => ?_
  refine marks_read (only_run_lift (only_rangeKeys (fun _ => hreads _ (by trivial)) _))
    fun desiredOrder => ?_
  have hremoved : Marks (Op.WritesMapper s.realm s.idpAlias) (do
      let currentOrder ← rangeKeys (IdentityProviderSpec.mappersByName current)
      s.removeMappers kc (IdentityProviderSpec.mappersByName current) currentOrder) :=
    marks_read (only_run_lift (only_rangeKeys (fun _ => hreads _ (by trivial)) _))
      fun currentOrder => hremove _ _
  exact marks_or (happly _ _) hremoved

end Marks

/-! ### Exact mappers -/

/-- A server that replaces a mapper by the body of an update. -/
def Server.serveVerbatim (s : Server) (label : String) (method : Method) (endpoint : Endpoint)
    (body : Body) : Reply × Server :=
  match method, endpoint, body with
  | .put, .mapper realm idpAlias id, .object body =>
      s.replace (s.setMappers realm idpAlias) ((s.mappers realm idpAlias).replace? (.id id) body)
  | method, endpoint, body => s.serve label method endpoint body

/-- Every call may fail; a mapper is stored as it is sent. -/
abbrev Verbatim : Env operations World := Unreliable (Served Server.serveVerbatim)

theorem served_replaces {serve : Serve} {kc : Conn} {realm idpAlias : String} {method : Method}
    {endpoint : Endpoint} {body : Body} {w w' : World} {answer : Except Err Unit}
    {oc : Option (Collection "name")} {c : Collection "name"}
    (hserve : serve (w.servers kc.server) kc.label method endpoint body =
      (w.servers kc.server).replace ((w.servers kc.server).setMappers realm idpAlias) oc)
    (hc : oc = some c) (h : Served serve (.admin kc ⟨method, endpoint, body, .nothing⟩) w answer w') :
    answer = .ok () ∧ w' = w.setMappers kc realm idpAlias c := by
  obtain ⟨rfl, rfl⟩ := served_admin h
  simp only [World.adminWith, hserve, hc]
  exact ⟨rfl, rfl⟩

/-- A write of a mapper is a conflict or replaces the collection. -/
theorem served_replace {serve : Serve} {kc : Conn} {realm idpAlias : String} {method : Method}
    {endpoint : Endpoint} {body : Body} {w w' : World} {answer : Except Err Unit}
    {oc : Option (Collection "name")}
    (hserve : serve (w.servers kc.server) kc.label method endpoint body =
      (w.servers kc.server).replace ((w.servers kc.server).setMappers realm idpAlias) oc)
    (h : Served serve (.admin kc ⟨method, endpoint, body, .nothing⟩) w answer w') :
    (∃ err, answer = .error err) ∨
      ∃ c, oc = some c ∧ answer = .ok () ∧ w' = w.setMappers kc realm idpAlias c := by
  rcases oc with _ | c
  · obtain ⟨rfl, rfl⟩ := served_admin h
    simp only [World.adminWith, hserve]
    exact .inl ⟨_, rfl⟩
  · exact .inr ⟨c, rfl, served_replaces hserve rfl h⟩

theorem keepsMappers_reliable : KeepsMappers Reliable False where
  toReading := reading_reliable
  iterate := fun h => served_iterate (served_of_reliable h)
  create := fun h => served_replace rfl (served_of_reliable h)
  update := by
    intro kc realm idpAlias name r body w w' answer h hr hbody
    refine (served_replace rfl (served_of_reliable h)).imp_right ?_
    rintro ⟨c, hoverlay, hanswer, hw'⟩
    exact ⟨c, Collection.takes_overlay? hoverlay hr (decide_eq_true rfl)
      (Collection.key_overlay_of_body (by decide) hbody), hanswer, hw'⟩
  delete := fun h => .inr (served_admin (served_of_reliable h))

theorem acceptsMappers_reliable : AcceptsMappers Reliable where
  create := by
    intro kc realm idpAlias name body w w' answer h hbody hfree
    obtain ⟨c, hc⟩ := Collection.insert?_isSome none hbody hfree
    exact (served_replaces rfl hc (served_of_reliable h)).1
  update := by
    intro kc realm idpAlias name r body w w' answer h hr hbody
    obtain ⟨hmem, hname⟩ := Collection.find_key_eq_some_iff.mp hr
    have hkey : (r.overlay body).key "name" = r.key "name" :=
      (Collection.key_overlay_of_body (by decide) hbody).trans hname.symm
    have hnames : (Address.id r.id).names "name" r := decide_eq_true rfl
    obtain ⟨c, hc⟩ := Collection.overlay?_isSome hmem hnames hkey
    exact (served_replaces rfl hc (served_of_reliable h)).1
  delete := fun h => (served_admin (served_of_reliable h)).1

theorem verbatim_replace {kc : Conn} {realm idpAlias : String} {method : Method}
    {endpoint : Endpoint} {body : Body} {w w' : World} {answer : Except Err Unit}
    {oc : Option (Collection "name")}
    (hserve : (w.servers kc.server).serveVerbatim kc.label method endpoint body =
      (w.servers kc.server).replace ((w.servers kc.server).setMappers realm idpAlias) oc)
    (h : Verbatim (.admin kc ⟨method, endpoint, body, .nothing⟩) w answer w') :
    (∃ err, answer = .error err) ∨
      ∃ c, oc = some c ∧ answer = .ok () ∧ w' = w.setMappers kc realm idpAlias c := by
  rcases unreliable_admin h with h | herr
  · exact served_replace hserve h
  · exact .inl herr

theorem keepsMappers_verbatim : KeepsMappers Verbatim True where
  toReading := reading_unreliable (reading_served fun _ _ _ _ => rfl)
  iterate := fun h => served_iterate (unreliable_iterate h)
  create := fun h => verbatim_replace rfl h
  update := by
    intro kc realm idpAlias name r body w w' answer h hr hbody
    refine (verbatim_replace rfl h).imp_right ?_
    rintro ⟨c, hreplace, hanswer, hw'⟩
    exact ⟨c, Collection.takes_replace? hreplace hr hbody, hanswer, hw'⟩
  delete := by
    intro kc realm idpAlias id w w' answer h
    rcases unreliable_admin h with h | herr
    · exact .inr (served_admin h)
    · exact .inl herr

/-- **Exact mappers.**  After a call that succeeds, whatever the order of the names, the stored
    mappers have the desired names and every value that the spec sets.  No mapper is created
    under a name that exists, the call reports whether it wrote something, and a second call
    writes nothing. -/
theorem mappers_exact {s : IdentityProviderSpec} {kc : Conn} {w w' : World}
    {steps : List (Step operations World)} {changed : Bool}
    (h : Exec Verbatim (s.postApply kc).run w steps w' (some (.ok changed))) :
    (∀ name, (∃ r ∈ (w'.mappers kc s.realm s.idpAlias).items, r.key "name" = some name) ↔
      ∃ mapper ∈ s.mappers, mapper.name = name) ∧
    (∀ r ∈ (w'.mappers kc s.realm s.idpAlias).items, ∀ name, r.key "name" = some name →
      ∃ mapper, s.lastNamed name = some mapper ∧
        ∀ k want, mapper.toJSONMap.get k = some want → r.rep.get k = some want) ∧
    (∀ step ∈ steps, step.op.CreatesFresh kc s.realm s.idpAlias step.before) ∧
    (changed = true ↔ ∃ step ∈ steps, step.op.WritesMapper s.realm s.idpAlias) ∧
    ∀ steps' w'' result, Exec Verbatim (s.postApply kc).run w' steps' w'' result →
      ∀ step ∈ steps', ¬ step.op.WritesMapper s.realm s.idpAlias := by
  have hwp : wp Verbatim (fun op t => op.CreatesFresh kc s.realm s.idpAlias t) (s.postApply kc).run
      (fun r t => ∀ b, r = .ok b → MappersSettled s (t.mappers kc s.realm s.idpAlias)) w := by
    apply wp_idpPostApply keepsMappers_verbatim
    · exact fun _ _ hfresh => hfresh
    · exact fun _ _ _ _ herr => by cases herr
    · exact fun _ _ hsettled _ _ => hsettled
  obtain ⟨hfresh, hpost⟩ := wp_sound hwp h
  have hsettled := hpost _ rfl changed rfl
  have hfind : ∀ name r, r ∈ (w'.mappers kc s.realm s.idpAlias).items → r.key "name" = some name →
      ∃ mapper, s.lastNamed name = some mapper ∧ s.Keeps mapper r := by
    intro name r hr hkey
    have hfound := Collection.find_key_eq_some_iff.mpr ⟨hr, hkey⟩
    rcases hlast : s.lastNamed name with _ | mapper
    · cases hfound.symm.trans (hsettled.unwanted name hlast)
    · obtain ⟨r', hfound', hkeeps⟩ := hsettled.stored name mapper hlast
      cases hfound.symm.trans hfound'
      exact ⟨mapper, rfl, hkeeps⟩
  refine ⟨fun name => ?_, ?_, hfresh, ?_, ?_⟩
  · rw [← lastNamed_ne_none]
    constructor
    · rintro ⟨r, hr, hkey⟩
      obtain ⟨mapper, hlast, -⟩ := hfind name r hr hkey
      simp [hlast]
    · intro hwanted
      obtain ⟨mapper, hlast⟩ := Option.ne_none_iff_exists'.mp hwanted
      obtain ⟨r, hfound, -⟩ := hsettled.stored name mapper hlast
      exact ⟨r, Collection.find_key_eq_some_iff.mp hfound⟩
  · intro r hr name hkey
    obtain ⟨mapper, hlast, hkeeps⟩ := hfind name r hr hkey
    refine ⟨mapper, hlast, fun k want hget => ?_⟩
    -- the spec sets neither the alias nor the id
    have hk : k ≠ "identityProviderAlias" ∧ k ≠ "id" := by
      constructor <;> rintro rfl <;>
        rw [get_toJSONMap_of_ne (by decide) (by decide) (by decide)] at hget <;> cases hget
    have hreport := mappersDiffer_eq_false_iff.mp hkeeps k want
      ((get_mapperPayload_of_ne hk.1).trans hget) hk.1
    rwa [r.get_report_of_ne hk.2] at hreport
  · have hmarked := wp_marking_sound (@marks_idpPostApply kc s False) h changed rfl
    simpa using hmarked.symm
  · intro steps' w'' result hexec step hstep
    have hidle : wp Verbatim (fun op _ => op.Reads) (s.postApply kc).run (fun _ _ => True) w' :=
      wp_idpPostApply_idle keepsMappers_verbatim (fun _ hop => hop) hsettled
        (fun _ _ => trivial) trivial
    exact ((wp_sound hidle hexec).1 step hstep).not_writesMapper _ _

/-- A provider with two mappers of one name. -/
def brokerSpec : IdentityProviderSpec where
  keycloakRef := "main"
  realm := "demo"
  idpAlias := "broker"
  providerId := "oidc"
  mappers := [⟨"email", none, ∅⟩, ⟨"email", some "oidc-user-attribute", ∅⟩]
  fields := ⟨∅, Fields.typed_empty _⟩

def brokerWorld : World where
  object := none
  servers := fun _ => (∅ : Server).setMappers "demo" "broker"
    ⟨[⟨"1", .ofList [("name", .str "phone")], none⟩], by decide, by decide⟩
  connections := fun _ name => .ok ⟨name, "keycloak"⟩
  secrets := fun _ _ => none

/-- The call creates `email` and deletes `phone`. -/
theorem broker_mappers_replaced :
    ∃ steps w', Exec Verbatim (brokerSpec.postApply ⟨"main", "keycloak"⟩).run brokerWorld steps w'
        (some (.ok true)) ∧
      (∀ name, (∃ r ∈ (w'.mappers ⟨"main", "keycloak"⟩ "demo" "broker").items,
        r.key "name" = some name) ↔ ∃ mapper ∈ brokerSpec.mappers, mapper.name = name) ∧
      ∃ step ∈ steps, step.op.WritesMapper "demo" "broker" := by
  have hresult : ((brokerSpec.postApply ⟨"main", "keycloak"⟩).run.run
      (World.handleWith Server.serveVerbatim World.sorted 0) brokerWorld).1 = .ok true := by
    decide +kernel
  have hexec := (exec_handleWith Server.serveVerbatim (brokerSpec.postApply ⟨"main", "keycloak"⟩).run
    brokerWorld).mono unreliable_of_served
  rw [hresult] at hexec
  obtain ⟨hnames, -, -, hchanged, -⟩ := mappers_exact hexec
  exact ⟨_, _, hexec, hnames, hchanged.mp rfl⟩

end KeycloakOperator
