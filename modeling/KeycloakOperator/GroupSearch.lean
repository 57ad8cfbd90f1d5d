import KeycloakOperator.Leaks

/-!
# The search for a group

`FindGroup` asks for the groups of a name with `search=…&exact=true&max=2`, and takes the one among
the answers that has the name.  The search matches groups at every depth and the page is cut before
the matches are shown, each through the top-level group that it lies in.  So two groups of the same
name elsewhere in the realm can fill the page, and the top-level group is reported as missing.
-/

namespace KeycloakOperator

open Prog

/-! ### Forests of groups -/

/-- A group below the top level. -/
inductive Subgroup where
  | node (name : String) (subGroups : List Subgroup)

def Subgroup.name : Subgroup → String
  | .node name _ => name

mutual

/-- The paths to the groups of the name. -/
def Subgroup.paths (name : String) : Subgroup → List (List String)
  | .node n subGroups =>
      (if n = name then [[n]] else []) ++ (Subgroup.pathsBelow name subGroups).map (n :: ·)

def Subgroup.pathsBelow (name : String) : List Subgroup → List (List String)
  | [] => []
  | group :: groups => group.paths name ++ Subgroup.pathsBelow name groups

end

mutual

/-- No two siblings have the same name. -/
def Subgroup.Distinct : Subgroup → Prop
  | .node _ subGroups => Subgroup.Siblings subGroups

def Subgroup.Siblings : List Subgroup → Prop
  | [] => True
  | group :: groups =>
      group.Distinct ∧ (∀ other ∈ groups, other.name ≠ group.name) ∧ Subgroup.Siblings groups

end

/-- What lies below the top-level groups, by server, realm and id. -/
structure GroupForest where
  below : String → String → String → List Subgroup
  siblings : ∀ server realm id, Subgroup.Siblings (below server realm id)

/-- A group that the search has matched: the top-level group it lies in, and the path from there. -/
structure GroupMatch where
  ancestor : Resource
  path : List String
deriving DecidableEq

/-- The groups of a name, at every depth. -/
def GroupForest.matching (forest : GroupForest) (server : String) (items : List Resource)
    (realm name : String) : List GroupMatch :=
  items.flatMap fun r =>
    (if r.key "name" = some name then [⟨r, []⟩] else []) ++
      (Subgroup.pathsBelow name (forest.below server realm r.id)).map (⟨r, ·⟩)

/-- The representation is one of the resource, slim or not. -/
def Shows (rep : Object) (r : Resource) : Prop :=
  rep.get "id" = some (.str r.id) ∧ rep.get "name" = r.rep.get "name"

/-- What the search may answer: the matches come in any order, the page has two of them, and each is
    shown through its top-level group. -/
def Pages (found : List GroupMatch) (reps : List Object) : Prop :=
  ∃ order : List GroupMatch, order.Perm found ∧
    (∀ m ∈ order.take 2, ∃ rep ∈ reps, Shows rep m.ancestor) ∧
    ∀ rep ∈ reps, ∃ m ∈ order.take 2, Shows rep m.ancestor

/-- The groups that the search of a connection matches. -/
def World.matching (w : World) (forest : GroupForest) (kc : Conn) (realm name : String) :
    List GroupMatch :=
  forest.matching kc.server ((w.servers kc.server).resources ⟨.group, realm⟩).items realm name

/-- The top-level group of the name. -/
def World.topGroup (w : World) (kc : Conn) (realm name : String) : Option Resource :=
  (w.servers kc.server).find ⟨.group, realm⟩ (.key name)

/-- Every call succeeds, and groups are searched in a forest. -/
def Searched (forest : GroupForest) : Env operations World := fun op w answer w' =>
  match op, answer with
  | .admin kc ⟨.get, .groupSearch realm name, _, .objects⟩, answer =>
      w' = w ∧ ∃ reps, answer = .ok reps ∧ Pages (w.matching forest kc realm name) reps
  | op, answer => Reliable op w answer w'

/-- The top-level group of the name, if there is one, has an id, and at most one match lies outside
    of its tree. -/
def Uncrowded (forest : GroupForest) (w : World) (kc : Conn) (realm name : String) : Prop :=
  ∀ r, w.topGroup kc realm name = some r →
    r.id ≠ "" ∧
      ((w.matching forest kc realm name).filter (fun m => m.ancestor ≠ r)).length ≤ 1

/-! ### What a page shows -/

section Pages

variable {forest : GroupForest} {w : World} {kc : Conn} {realm name : String} {reps : List Object}
  {r : Resource}

theorem key_eq_some_iff {value : String} :
    r.key "name" = some value ↔ r.rep.get "name" = some (.str value) := by
  simp [Resource.key, stringField, Option.bind_eq_some_iff, JSON.asString_eq_some]

theorem topGroup_eq_some_iff :
    w.topGroup kc realm name = some r ↔
      r ∈ ((w.servers kc.server).resources ⟨.group, realm⟩).items ∧
        r.rep.get "name" = some (.str name) := by
  rw [← key_eq_some_iff]
  exact Collection.find_eq_some_iff.trans (and_congr_right fun _ => decide_eq_true_iff)

theorem ancestor_mem {m : GroupMatch} (hm : m ∈ w.matching forest kc realm name) :
    m.ancestor ∈ ((w.servers kc.server).resources ⟨.group, realm⟩).items := by
  obtain ⟨r, hr, hmem⟩ := List.mem_flatMap.mp hm
  have hancestor : m.ancestor = r := by
    rcases List.mem_append.mp hmem with htop | hbelow
    · split at htop
      · rw [List.mem_singleton.mp htop]
      · cases htop
    · obtain ⟨path, -, rfl⟩ := List.mem_map.mp hbelow
      rfl
  rwa [hancestor]

/-- The top-level group of the name is a match. -/
theorem mem_matching (hr : w.topGroup kc realm name = some r) :
    ⟨r, []⟩ ∈ w.matching forest kc realm name := by
  obtain ⟨hmem, hname⟩ := topGroup_eq_some_iff.mp hr
  refine List.mem_flatMap.mpr ⟨r, hmem, List.mem_append_left _ ?_⟩
  rw [if_pos (key_eq_some_iff.mpr hname)]
  exact List.mem_singleton.mpr rfl

/-- A representation with the name is one of the top-level group of the name. -/
theorem Pages.shows (hpages : Pages (w.matching forest kc realm name) reps) {rep : Object}
    (hrep : rep ∈ reps) (hname : rep.get "name" = some (.str name)) :
    ∃ r, w.topGroup kc realm name = some r ∧ rep.get "id" = some (.str r.id) := by
  obtain ⟨order, hperm, -, hshown⟩ := hpages
  obtain ⟨m, hm, hid, hshows⟩ := hshown rep hrep
  have hmatch := hperm.mem_iff.mp (List.mem_of_mem_take hm)
  refine ⟨m.ancestor, topGroup_eq_some_iff.mpr ⟨ancestor_mem hmatch, ?_⟩, hid⟩
  rw [← hshows, hname]

/-- Of two matches at most one is elsewhere, so the page shows the top-level group. -/
theorem Pages.exists_rep (hpages : Pages (w.matching forest kc realm name) reps)
    (hr : w.topGroup kc realm name = some r)
    (houtside : ((w.matching forest kc realm name).filter (fun m => m.ancestor ≠ r)).length ≤ 1) :
    ∃ rep ∈ reps, rep.get "name" = some (.str name) := by
  obtain ⟨order, hperm, hcovered, -⟩ := hpages
  have hmem : ⟨r, []⟩ ∈ order := hperm.mem_iff.mpr (mem_matching hr)
  have hfew : (order.filter (fun m => m.ancestor ≠ r)).length ≤ 1 := by
    rw [(hperm.filter _).length_eq]
    exact houtside
  obtain ⟨m, hm, hancestor⟩ : ∃ m ∈ order.take 2, m.ancestor = r := by
    match order, hmem, hfew with
    | [m], hmem, _ =>
      rw [List.mem_singleton] at hmem
      exact ⟨m, by simp, by rw [← hmem]⟩
    | m₁ :: m₂ :: rest, _, hfew =>
      by_cases h₁ : m₁.ancestor = r
      · exact ⟨m₁, by simp, h₁⟩
      · by_cases h₂ : m₂.ancestor = r
        · exact ⟨m₂, by simp, h₂⟩
        · simp [h₁, h₂] at hfew
  obtain ⟨rep, hrep, -, hname⟩ := hcovered m hm
  refine ⟨rep, hrep, ?_⟩
  rw [hname, hancestor]
  exact (topGroup_eq_some_iff.mp hr).2

theorem shows_report (r : Resource) : Shows r.report r := by
  simp [Shows, Resource.report, FiniteMap.get_put]

/-- A page for any order of the matches. -/
theorem pages_of_perm {found order : List GroupMatch} (h : order.Perm found) :
    Pages found ((order.take 2).map fun m => m.ancestor.report) := by
  refine ⟨order, h, fun m hm => ?_, fun rep hrep => ?_⟩
  · exact ⟨_, List.mem_map_of_mem hm, shows_report _⟩
  · obtain ⟨m, hm, rfl⟩ := List.mem_map.mp hrep
    exact ⟨m, hm, shows_report _⟩

/-- Two matches outside of the tree of the top-level group may fill the page. -/
theorem exists_page_without
    (hmany : 1 < ((w.matching forest kc realm name).filter (fun m => m.ancestor ≠ r)).length) :
    ∃ reps, Pages (w.matching forest kc realm name) reps ∧
      ∀ rep ∈ reps, ∃ r' ∈ ((w.servers kc.server).resources ⟨.group, realm⟩).items,
        r' ≠ r ∧ Shows rep r' := by
  have hperm := List.filter_append_perm (fun m : GroupMatch => decide (m.ancestor ≠ r))
    (w.matching forest kc realm name)
  refine ⟨_, pages_of_perm hperm, fun rep hrep => ?_⟩
  obtain ⟨m, hm, rfl⟩ := List.mem_map.mp hrep
  rw [List.take_append_of_le_length (by omega)] at hm
  obtain ⟨hmem, hother⟩ := List.mem_filter.mp (List.mem_of_mem_take hm)
  exact ⟨m.ancestor, ancestor_mem hmem, by simpa using hother, shows_report _⟩

end Pages

/-! ### `FindGroup` -/

section FindGroup

variable {forest : GroupForest} {w : World} {kc : Conn} {realm name : String}

/-- The result of a search for a group that is, or is not, at the top level. -/
def Resolves (top : Option Resource) (result : Except Err Object) : Prop :=
  match top with
  | some r => result = .ok r.report
  | none => ∃ err, result = .error err ∧ err.kind = .notFound

/-- The representation that `FindGroup` picks from a page. -/
theorem Pages.findByField {reps : List Object} (hpages : Pages (w.matching forest kc realm name) reps) :
    (∃ rep r, Conn.findByField reps "name" name "group" = pure rep ∧ rep ∈ reps ∧
        rep.get "name" = some (.str name) ∧ w.topGroup kc realm name = some r ∧
        rep.get "id" = some (.str r.id)) ∨
      (∀ rep ∈ reps, rep.get "name" ≠ some (.str name)) ∧
        ∃ err, err.kind = .notFound ∧ Conn.findByField reps "name" name "group" = throw err := by
  unfold Conn.findByField
  split
  case h_1 rep hfind =>
    left
    have hrep := List.mem_of_find?_eq_some hfind
    have hname : rep.get "name" = some (.str name) := by simpa using List.find?_some hfind
    obtain ⟨r, hr, hid⟩ := hpages.shows hrep hname
    exact ⟨rep, r, rfl, hrep, hname, hr, hid⟩
  case h_2 hfind =>
    right
    refine ⟨fun rep hrep hname => ?_, _, rfl, rfl⟩
    exact List.find?_eq_none.mp hfind rep hrep (decide_eq_true hname)

theorem get_group {r : Resource} (hr : w.topGroup kc realm name = some r) :
    (w.servers kc.server).get (.group realm r.id) = .object r.report := by
  have hbyId : (w.servers kc.server).find ⟨.group, realm⟩ (.id r.id) = some r :=
    Collection.find_eq_some_iff.mpr ⟨(topGroup_eq_some_iff.mp hr).1, decide_eq_true rfl⟩
  change (match (w.servers kc.server).find ⟨.group, realm⟩ (.id r.id) with
    | some r => Reply.object r.report
    | none => notFound) = _
  rw [hbyId]

/-- Where the page cannot be filled from elsewhere, the search is right. -/
theorem wp_findGroup_searched {guard : Op → World → Prop} (hguard : ∀ op, op.Reads → guard op w)
    (huncrowded : Uncrowded forest w kc realm name) :
    wp (Searched forest) guard (kc.findGroup realm name).run
      (fun result t => t = w ∧ Resolves (w.topGroup kc realm name) result) w := by
  refine wp_run_bind.mpr ⟨hguard _ rfl, fun answer w' hstep => ?_⟩
  obtain ⟨rfl, reps, rfl, hpages⟩ := hstep
  dsimp only [Prog.bind]
  refine wp_run_bind.mpr ?_
  obtain ⟨rep, r, hfind, -, -, htop, hrep⟩ | ⟨hmissing, err, herr, hfind⟩ := hpages.findByField
  · obtain ⟨hid, -⟩ := huncrowded r htop
    rw [hfind, wp_run_pure]
    dsimp only
    rw [hrep, Option.bind_some, JSON.asString, Option.getD_some, if_neg hid]
    refine ⟨hguard _ rfl, fun answer t hstep => ?_⟩
    obtain ⟨rfl, rfl⟩ := reliable_get rfl hstep
    rw [get_group htop, htop]
    exact ⟨rfl, rfl⟩
  · rw [hfind, wp_run_throw]
    rcases htop : w'.topGroup kc realm name with _ | r
    · exact ⟨rfl, err, rfl, herr⟩
    · obtain ⟨rep, hrep, hname⟩ := hpages.exists_rep htop (huncrowded r htop).2
      exact absurd hname (hmissing rep hrep)

/-- Otherwise there is an order of the matches in which the top-level group is reported as
    missing. -/
theorem returns_findGroup_missing (hcrowded : ¬ Uncrowded forest w kc realm name) :
    ∃ r err, w.topGroup kc realm name = some r ∧ err.kind = .notFound ∧
      Returns (Searched forest) (kc.findGroup realm name).run w (.error err) w := by
  simp only [Uncrowded, not_forall, not_and, not_le] at hcrowded
  obtain ⟨r, htop, hcrowded⟩ := hcrowded
  obtain ⟨reps, hpages, hunnamed⟩ : ∃ reps, Pages (w.matching forest kc realm name) reps ∧
      ∀ rep ∈ reps, rep.get "name" = some (.str name) → r.id = "" := by
    by_cases hid : r.id = ""
    · exact ⟨_, pages_of_perm (List.Perm.refl _), fun _ _ _ => hid⟩
    · obtain ⟨reps, hpages, hothers⟩ := exists_page_without (hcrowded hid)
      refine ⟨reps, hpages, fun rep hrep hname => ?_⟩
      obtain ⟨r', hr', hne, -, hshows⟩ := hothers rep hrep
      have htop' : w.topGroup kc realm name = some r' :=
        topGroup_eq_some_iff.mpr ⟨hr', hshows ▸ hname⟩
      exact absurd (Option.some.inj (htop'.symm.trans htop)) hne
  have hsearch : Returns (Searched forest) (kc.fetchObjects (.groupSearch realm name)).run w
      (.ok reps) w := returns_perform _ _ ⟨rfl, reps, rfl, hpages⟩
  obtain ⟨rep, r', hfind, hrep, hname, htop', hid⟩ | ⟨-, err, herr, hfind⟩ := hpages.findByField
  · obtain rfl := Option.some.inj (htop.symm.trans htop')
    refine ⟨r, ⟨.notFound, "resource not found: group " ++ quote name ++ " has no id"⟩, htop, rfl,
      returns_run_bind hsearch ?_⟩
    rw [hfind]
    refine returns_run_bind (returns_pure _ w) ?_
    dsimp only
    rw [hid, Option.bind_some, JSON.asString, Option.getD_some, if_pos (hunnamed rep hrep hname)]
    exact returns_pure _ w
  · refine ⟨r, err, htop, herr, returns_run_bind hsearch ?_⟩
    rw [hfind]
    exact returns_pure _ w

/-! ### What rests on it -/

/-- `Delete` leaves no top-level group of the name. -/
theorem wp_delete_searched {s : GroupSpec} (huncrowded : Uncrowded forest w kc s.realm s.name) :
    wp (Searched forest) ⊤ (s.driver.delete kc).run
      (fun _ t => t.topGroup kc s.realm s.name = none) w := by
  refine wp_run_bind.mpr (wp_mono ?_ (wp_findGroup_searched (fun _ _ => trivial) huncrowded))
  rintro result _ ⟨rfl, hresult⟩
  rename_i t
  rcases htop : t.topGroup kc s.realm s.name with _ | r
  · rw [htop] at hresult
    obtain ⟨err, rfl, -⟩ := hresult
    rfl
  · rw [htop] at hresult
    obtain rfl := hresult
    have hassert : assertId r.report = pure r.id := by
      simp [assertId, stringField]
    dsimp only
    rw [hassert]
    refine ⟨trivial, fun answer t' hstep => ?_⟩
    have hafter := (reliable_admin hstep).2
    have hnames : ∀ r', (t.servers kc.server).find ⟨.group, s.realm⟩ (.key s.name) = some r' →
        (Address.id r.id).names "name" r' = true := by
      intro r' hr'
      rw [← Option.some.inj (htop.symm.trans hr')]
      exact decide_eq_true rfl
    have hserved : (t'.servers kc.server) =
        ((t.servers kc.server).delete ⟨.group, s.realm⟩ (.id r.id)).2 := by
      rw [hafter, World.admin_snd]
      exact Function.update_self _ _ _
    change (t'.servers kc.server).find ⟨.group, s.realm⟩ (.key s.name) = none
    rw [hserved]
    exact Server.find_delete hnames

/-- The request creates a group of the realm. -/
def Op.CreatesGroup (realm : String) : Op → Prop
  | .admin _ request => request.method = .post ∧ request.endpoint = .groups realm
  | _ => False

/-- What a program may perform in any case, it may perform here. -/
theorem wp_allowed {env : Env operations World} {allowed : Op → Prop} {p : Action α}
    (h : Only allowed p) (w : World) : wp env (fun op _ => allowed op) p (fun _ _ => True) w :=
  wp_guard_mono (fun _ _ hop => hop.1)
    (wp_of_only (fun _ => True) (fun _ _ _ _ _ _ _ => trivial) h trivial)

theorem Op.Reads.not_createsGroup {op : Op} (h : op.Reads) (realm : String) :
    ¬ op.CreatesGroup realm := by
  rcases op
  case admin kc request =>
    rintro ⟨hpost, -⟩
    cases hpost.symm.trans h
  all_goals exact id

/-- The part of a live pass that asks for the group. -/
theorem wp_apply_searched {e : Engine} {obj : ManagedObject} {s : GroupSpec} {r : Resource}
    (hspec : obj.spec = .group s) (htop : w.topGroup kc s.realm s.name = some r)
    (huncrowded : Uncrowded forest w kc s.realm s.name) :
    wp (Searched forest) (fun op _ => ¬ op.CreatesGroup s.realm) (e.apply obj.spec.driver kc obj)
      (fun _ _ => True) w := by
  have hsecrets : ∀ op, Op.WritesSecret op → ¬ op.CreatesGroup s.realm := by
    intro op hop
    rcases op <;> first | exact id | exact hop.elim
  have hreports : ∀ op, Op.Remarks op → ¬ op.CreatesGroup s.realm := by
    intro op hop
    rcases op <;> first | exact id | exact hop.elim
  have hstops : ∀ {p : Action Pass} (t : World), e.Stops obj p →
      wp (Searched forest) (fun op _ => ¬ op.CreatesGroup s.realm) p (fun _ _ => True) t :=
    fun t h => wp_allowed (h.only hreports) t
  have hreads : ∀ op, Op.Reads op → ¬ op.CreatesGroup s.realm := fun _ h => h.not_createsGroup _
  -- the search finds the group, so that there is no creation
  have hstations : Stations e (Searched forest) (fun op _ => ¬ op.CreatesGroup s.realm) kc obj
      (fun t => t = w) (fun _ => False) (fun _ _ => True) (fun _ _ _ => True) (fun _ _ => True) := by
    constructor
    case declined => exact fun _ _ => hstops _ (.refused _ _ _ _)
    case looked =>
      rintro t - rfl
      have hget : obj.spec.driver.get kc = kc.findGroup s.realm s.name := by
        rw [hspec]
        rfl
      rw [hget]
      refine wp_mono ?_ (wp_findGroup_searched hreads huncrowded)
      rintro _ u ⟨rfl, hresult⟩
      rw [htop] at hresult
      obtain rfl := hresult
      trivial
    case rejected => exact fun _ _ _ => hstops _ (.refused _ _ _ _)
    case adopted => exact fun _ => wp_allowed (e.only_record hreports _ _ _) _
    case enforced =>
      intro effective remote adopting t _ _ _ _ _
      refine wp_mono ?_ (wp_allowed (only_preparePayload hreads _ _ _) t)
      rintro (err | payload) u -
      · exact hstops _ (.refused _ _ _ _)
      refine ⟨fun _ => trivial, fun _ => ?_⟩
      have honly : Only (fun op : Op => ¬ op.CreatesGroup s.realm)
          (e.correctDrift obj.spec.driver kc obj remote payload).run := by
        refine only_run_bind (only_run_lift ⟨id, fun _ => trivial⟩) fun _ => ?_
        refine only_run_bind ?_ fun _ => only_run_lift (e.only_record hreports _ _ _)
        rw [driver_update]
        refine only_send ?_
        rintro ⟨hpost, -⟩
        cases hpost
      refine wp_mono ?_ (wp_allowed honly u)
      rintro (err | _) x -
      · exact hstops _ (.notUpdated e obj err)
      · trivial
    case created => exact fun _ _ habsent => habsent.elim
    case settled =>
      intro remote next t hnext _
      refine wp_allowed (e.only_settle hreports obj (only_postApply hreads hsecrets ?_ obj)
        fun _ changed => hnext.only hreports _ (fun _ _ => id) changed) t
      rintro op ⟨method, endpoint, body, rfl, howns⟩ ⟨-, hendpoint⟩
      obtain rfl : endpoint = .groups s.realm := hendpoint
      exact howns
  exact hstations.wp_apply rfl

/-- A live pass that finds the group does not create it. -/
theorem wp_reconcile_searched {e : Engine} {obj : ManagedObject} {s : GroupSpec} {r : Resource}
    (hspec : obj.spec = .group s) (hlive : obj.deletionTimestamp = none)
    (hconnected : w.connections obj.ns obj.spec.connectionName = .ok kc)
    (htop : w.topGroup kc s.realm s.name = some r)
    (huncrowded : Uncrowded forest w kc s.realm s.name) :
    wp (Searched forest) (fun op _ => ¬ op.CreatesGroup s.realm) (e.reconcile obj)
      (fun _ _ => True) w := by
  refine Engine.wp_reconcile_of (fun _ _ => True) (fun _ _ _ => ⟨id, fun _ _ _ => trivial⟩)
    (fun horphan => by simp [hlive] at horphan) fun _ => ⟨id, fun answer t hstep => ?_⟩
  obtain ⟨_, _, heq⟩ := hstep
  obtain ⟨rfl, rfl⟩ := Prod.mk.inj heq
  rw [hconnected]
  exact ⟨fun hdeleted => by simp [hlive] at hdeleted, fun _ _ =>
    wp_allowed (Engine.only_updateObject id _) w, fun _ _ =>
    wp_apply_searched hspec htop huncrowded⟩

end FindGroup

/-- **The top-level group is found**, in every order of the matches, exactly where the page cannot
    be filled from elsewhere.  Then `FindGroup` returns it, or reports that there is none, `Delete`
    leaves none behind, and no live pass creates a group that is there. -/
theorem findGroup_exact_iff (forest : GroupForest) (w : World) (kc : Conn) (s : GroupSpec) :
    ((∀ steps t result,
        Exec (Searched forest) (kc.findGroup s.realm s.name).run w steps t (some result) →
        Resolves (w.topGroup kc s.realm s.name) result) ∧
      (∀ steps t result, Exec (Searched forest) (s.driver.delete kc).run w steps t (some result) →
        t.topGroup kc s.realm s.name = none) ∧
      ∀ (e : Engine) (obj : ManagedObject) steps t result, obj.spec = .group s →
        obj.deletionTimestamp = none →
        w.connections obj.ns obj.spec.connectionName = .ok kc →
        w.topGroup kc s.realm s.name ≠ none →
        Exec (Searched forest) (e.reconcile obj) w steps t result →
        ∀ step ∈ steps, ¬ step.op.CreatesGroup s.realm) ↔
      Uncrowded forest w kc s.realm s.name := by
  constructor
  · rintro ⟨hfinds, -⟩
    by_contra hcrowded
    obtain ⟨r, err, htop, -, steps, hexec⟩ := returns_findGroup_missing hcrowded
    have hresolves := hfinds steps w _ hexec
    rw [htop] at hresolves
    cases hresolves
  · intro huncrowded
    refine ⟨fun steps t result hexec => ?_, fun steps t result hexec => ?_, ?_⟩
    · have hwp : wp (Searched forest) ⊤ _ _ w :=
        wp_findGroup_searched (fun _ _ => trivial) huncrowded
      exact ((wp_sound hwp hexec).2 result rfl).2
    · exact (wp_sound (wp_delete_searched huncrowded) hexec).2 _ rfl
    · intro e obj steps t result hspec hlive hconnected htop hexec
      obtain ⟨r, hr⟩ := Option.ne_none_iff_exists'.mp htop
      exact (wp_sound (wp_reconcile_searched hspec hlive hconnected hr huncrowded) hexec).1

/-! ### A full page -/

/-- Below two of the top-level groups there is a group of staff. -/
def departments : GroupForest where
  below := fun _ _ id => if id = "sales" ∨ id = "support" then [.node "staff" []] else []
  siblings := by
    intro server realm id
    split
    · exact ⟨trivial, List.forall_mem_nil _, trivial⟩
    · trivial

def departmentGroup (id name : String) : Resource := ⟨id, .ofList [("name", .str name)], none⟩

/-- The groups at the top level: sales, support and staff. -/
def departmentServer : Server :=
  (∅ : Server).setResources ⟨.group, "acme"⟩
    ⟨[departmentGroup "sales" "Sales", departmentGroup "support" "Support",
      departmentGroup "staff" "staff"], by decide +kernel, by decide +kernel⟩

def departmentWorld : World where
  object := none
  servers := fun _ => departmentServer
  connections := fun _ name => .ok ⟨name, "keycloak"⟩
  secrets := fun _ _ => none

def departmentConn : Conn := ⟨"main", "keycloak"⟩

/-- The groups of staff below sales and support fill the page.  The group of staff at the top level
    is reported as missing, and `Delete` leaves it where it is. -/
theorem full_page_hides_group :
    ∃ r err, departmentWorld.topGroup departmentConn "acme" "staff" = some r ∧ r.id = "staff" ∧
      err.kind = .notFound ∧
      (∃ steps, Exec (Searched departments) (departmentConn.findGroup "acme" "staff").run
        departmentWorld steps departmentWorld (some (.error err))) ∧
      ∀ s : GroupSpec, s.realm = "acme" → s.name = "staff" →
        ∃ steps, Exec (Searched departments) (s.driver.delete departmentConn).run departmentWorld
          steps departmentWorld (some (.error err)) := by
  have hcrowded : ¬ Uncrowded departments departmentWorld departmentConn "acme" "staff" := by
    intro h
    have hstaff := h (departmentGroup "staff" "staff") (by decide +kernel)
    exact absurd hstaff.2 (by decide +kernel)
  obtain ⟨r, err, htop, herr, steps, hexec⟩ := returns_findGroup_missing hcrowded
  have hr : r = departmentGroup "staff" "staff" := by
    have hstaff : departmentWorld.topGroup departmentConn "acme" "staff" =
        some (departmentGroup "staff" "staff") := by decide +kernel
    exact Option.some.inj (htop.symm.trans hstaff)
  refine ⟨r, err, htop, by rw [hr]; rfl, herr, ⟨steps, hexec⟩, ?_⟩
  intro s hrealm hname
  have hfailed : Returns (Searched departments) (departmentConn.findGroup s.realm s.name).run
      departmentWorld (.error err) departmentWorld := by
    rw [hrealm, hname]
    exact ⟨steps, hexec⟩
  exact returns_bind hfailed (returns_pure _ _)

end KeycloakOperator
