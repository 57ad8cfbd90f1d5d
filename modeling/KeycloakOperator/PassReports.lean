import KeycloakOperator.FixedPoint
import KeycloakOperator.Generations
import KeycloakOperator.Obstacles

/-!
# What a pass reports

The state before a pass over a live custom resource, with the requests that the servers refuse,
determines the obstacle that the pass comes to, the reason it gives and the name of the exported
Secret in the status it writes (`World.prospect`).  Only what the obstacle raises is left to the
order in which maps are visited.  `Ends` collects what has to be shown about the two ways to end;
`Ends.wp_pass` then says it of the whole pass.
-/

namespace KeycloakOperator

open Prog

/-! ### The report of a failure -/

/-- The failure that the stored custom resource reports. -/
def World.failure (w : World) : Option (Reason × String) :=
  (findStatusCondition w.conditions .ready).bind fun c =>
    if c.status = .false then some (c.reason, c.message) else none

/-- The conditions with a failure, which was set at these times; without a text for Synced only
    Ready is set. -/
def ManagedObject.failures (obj : ManagedObject) (reason : Reason) (ready : String)
    (synced : Option String) (now now' : Nat) (conditions : List Condition) : List Condition :=
  match synced with
  | some synced => obj.told .false reason ready synced now now' conditions
  | none => setStatusCondition ⟨.ready, .false, obj.generation, reason, ready, now⟩ conditions

def ManagedObject.failing (obj : ManagedObject) (reason : Reason) (ready : String)
    (synced : Option String) (now now' : Nat) : ManagedObject :=
  { obj with status := { obj.status with
      conditions := obj.failures reason ready synced now now' obj.status.conditions } }

section Reports

variable {w : World} {e : Engine} {obj mem : ManagedObject} {reason : Reason}
  {ready message name : String} {synced : Option String} {now now' : Nat}

theorem ManagedObject.find_ready_failing (obj : ManagedObject) (reason : Reason) (ready : String)
    (synced : Option String) (now now' : Nat) : ∃ time,
    findStatusCondition (obj.failing reason ready synced now now').status.conditions .ready =
      some ⟨.ready, .false, obj.generation, reason, ready, time⟩ := by
  rcases synced with _ | synced
  · exact findStatusCondition_set _ _
  · exact obj.find_ready_told now now' obj.status.conditions

theorem World.failure_failing
    (hobject : w.object = some (obj.failing reason ready synced now now')) :
    w.failure = some (reason, ready) := by
  obtain ⟨time, hfind⟩ := obj.find_ready_failing reason ready synced now now'
  rw [World.failure, World.conditions_eq hobject, hfind]
  rfl

theorem World.failure_succeeded {synced : String} {conditions : List Condition}
    (hobject : w.object = some mem)
    (hconditions : mem.status.conditions =
      obj.told .true .succeeded ready synced now now' conditions) : w.failure = none := by
  obtain ⟨time, hfind⟩ := @ManagedObject.find_ready_told .true .succeeded ready synced obj now now'
    conditions
  rw [World.failure, World.conditions_eq hobject, hconditions, hfind]
  rfl

/-- A failure that is reported again. -/
theorem ManagedObject.failing_failing (obj : ManagedObject) (now now' later later' : Nat) :
    (obj.failing reason ready synced now now').failing reason ready synced later later' =
      obj.failing reason ready synced now now' := by
  refine congrArg (fun conditions => { obj with status := { obj.status with conditions := conditions } }) ?_
  rcases synced with _ | synced
  · obtain ⟨time, hfind⟩ := obj.find_ready_failing reason ready none now now'
    exact setStatusCondition_self hfind
  · exact obj.told_told now now' later later' obj.status.conditions

/-- The end of a pass with a failure. -/
theorem wp_refuse_stores {requeueAfter : Nat} (hobject : w.object = some obj) :
    wp Reliable ⊤ (e.refuse (obj.named name) obj reason message requeueAfter)
      (fun _ t => ∃ now now',
        t.object = some ((obj.named name).failing reason message (some message) now now')) w := by
  refine Engine.wp_refuse_of
    (wp_setConditions_stores (fun _ _ _ _ => trivial) hobject rfl fun now now' => ?_)
  refine ⟨⟨now, now', rfl⟩, wp_mono (fun _ u hu => ?_)
    (wp_record_event (fun hstep => .inl hstep) trivial)⟩
  subst hu
  exact ⟨now, now', rfl⟩

/-- A failure that is there already is neither written again nor announced. -/
theorem wp_refuse_again {requeueAfter : Nat}
    (hobj : obj = mem.failing reason message (some message) now now') (hobject : w.object = some obj) :
    wp Reliable (fun op _ => ¬ op.Warns) (e.refuse obj obj reason message requeueAfter)
      (fun _ t => t.object = some obj) w := by
  have hready : ∃ time, findStatusCondition obj.status.conditions .ready =
      some ⟨.ready, .false, obj.generation, reason, message, time⟩ := by
    subst hobj
    exact mem.find_ready_failing reason message (some message) now now'
  obtain ⟨time, hready⟩ := hready
  refine wp_bind.mpr (wp_bind.mpr
    (wp_setConditions_stores (fun _ _ _ hop => hop) hobject rfl fun later later' => ?_))
  have hsame : obj.failing reason message (some message) later later' = obj := by
    rw [hobj, mem.failing_failing]
  rw [hready]
  simp only [ne_eq, not_true_eq_false, or_self, decide_false, Bool.false_eq_true, ↓reduceIte]
  exact congrArg some hsame

/-- The end of a pass with a transient failure. -/
theorem wp_retry_stores {err : Err} {synced : String} (hobject : w.object = some obj) :
    wp Reliable (fun op _ => ¬ op.Warns) (Engine.retry obj obj err synced) (fun _ t => ∃ now now',
      t.object = some (obj.failing .retrying err.text (some synced) now now')) w :=
  wp_bind.mpr
    (wp_setConditions_stores (fun _ _ _ hop => hop) hobject rfl fun now now' => ⟨now, now', rfl⟩)

theorem wp_unfetched_stores {err : Err} (hobject : w.object = some obj) :
    wp Reliable (fun op _ => ¬ op.Warns) (Engine.unfetched obj err) (fun _ t => ∃ now now',
      t.object = some (obj.failing .retrying err.text none now now')) w :=
  wp_bind.mpr (wp_setCondition_stores (fun _ _ _ hop => hop) hobject (fun _ h => h)
    (.inl rfl) (.inl rfl) fun now => ⟨now, now, rfl⟩)

/-- The end of a pass without a failure. -/
theorem wp_finalize_failure {specMap : Object} {changed : Bool} (hobject : w.object = some obj) :
    wp Reliable ⊤ (e.finalize (obj.named name) obj specMap changed)
      (fun _ t => t.failure = none) w := by
  have hsucceed : ∀ {stored : ManagedObject} {new : ResourceStatus} {t : World},
      t.object = some { stored with status := obj.status } →
      new.conditions = obj.status.conditions →
      wp Reliable ⊤ (e.succeed { stored with status := new } obj changed)
        (fun _ t => t.failure = none) t := by
    intro stored new t ht hconditions
    refine wp_bind.mpr
      (wp_setConditions_stores (fun _ _ _ _ => trivial) ht hconditions fun now now' => ?_)
    exact @World.failure_succeeded _ stored _ _ now now' _ _ rfl rfl
  unfold Engine.finalize
  dsimp only
  split
  case isFalse => exact hsucceed hobject rfl
  case isTrue =>
    refine ⟨trivial, fun answer t hpatch => ?_⟩
    obtain ⟨_, _, heq⟩ := hpatch
    have hpatched : ∀ {α : Type} [DecidableEq α] (base new : α), World.patched base new base = new :=
      fun _ _ => World.patched_eq (.inl rfl)
    simp only [World.handle, World.patchObject, hobject, hpatched] at heq
    obtain ⟨rfl, rfl⟩ := Prod.mk.inj heq
    simp only [Prog.bind]
    exact @hsucceed { obj with lastApplied := .marshalled specMap } obj.status _ rfl rfl

end Reports

/-! ### Where a pass stumbles -/

/-- What a pass comes to: the obstacle, the reason under which it reports it, the text that goes
    with a complaint into the condition Synced, and the name of the exported Secret. -/
structure Prospect where
  reason : Reason
  obstacle : Obstacle
  synced : String → Option String := some
  exported : Option String := none

namespace Prospect

/-- The pass is refused. -/
def refused (reason : Reason) (message : String) : Prospect :=
  { reason := reason, obstacle := .given (some message) }

/-- A request fails, and the pass is tried again. -/
def retried (err : Err) (synced : Option String) : Prospect :=
  { reason := .retrying, obstacle := .given (some err.text), synced := fun _ => synced }

/-- The object in memory when the pass ends. -/
def ends (prospect : Prospect) (obj : ManagedObject) : ManagedObject :=
  obj.named (prospect.exported.getD obj.status.secretName)

/-- The object with the report of a complaint. -/
def tells (prospect : Prospect) (obj : ManagedObject) (message : String) (now now' : Nat) :
    ManagedObject :=
  (prospect.ends obj).failing prospect.reason message (prospect.synced message) now now'

end Prospect

namespace World

variable (d : Denials) (w : World) (kc : Conn) (obj : ManagedObject)

/-- What a pass comes to from `PostApply` on. -/
def enforced (remote : Object) : Prospect :=
  { reason := .failed, obstacle := w.enforcement d kc obj remote,
    exported := w.exported d kc obj remote }

/-- What a pass comes to when it submits a new resource. -/
def submitting (payload : Object) : Prospect :=
  let create := obj.spec.driver.create kc (obj.spec.driver.managedMarker payload)
  match w.answer d create with
  | .error err =>
      if err.kind = .conflict then
        .refused .alreadyExists ("Resource appeared during reconciliation: " ++ err.text)
      else .retried err (some "Create failed")
  | .ok () =>
      match (w.after d create).answer d (obj.spec.driver.get kc) with
      | .error err => .retried err none
      | .ok remote => (w.after d create).enforced d kc obj remote

/-- What a pass comes to when it updates the resource. -/
def updating (remote payload : Object) : Prospect :=
  let update := obj.spec.driver.update kc (obj.spec.driver.id remote) (mergePayload remote payload)
  match w.answer d update with
  | .error err =>
      if err.kind = .conflict then .refused .alreadyExists err.text
      else .retried err (some "Update failed")
  | .ok () => (w.after d update).enforced d kc obj remote

/-- What a pass comes to when the resource is missing. -/
def missing (effective : Object) : Prospect :=
  match w.answer d (obj.spec.driver.preparePayload obj effective) with
  | .error _ => { reason := .secretMissing, obstacle := w.preparation d obj }
  | .ok payload => w.submitting d kc obj payload

/-- What a pass comes to when it may work on the resource. -/
def enforcing (effective remote : Object) (adopting : Bool) : Prospect :=
  match w.answer d (obj.spec.driver.preparePayload obj
      (obj.spec.driver.managedMarker effective)) with
  | .error _ => { reason := .secretMissing, obstacle := w.preparation d obj }
  | .ok payload =>
      if adopting || payloadDiffers remote payload then w.updating d kc obj remote payload
      else w.enforced d kc obj remote

/-- What a pass comes to when the resource is there. -/
def finding (effective remote : Object) : Prospect :=
  if obj.spec.adoption = .failIfExists then
    .refused .alreadyExists "adoptionPolicy is FailIfExists and the resource exists on the server"
  else if Engine.managed obj.spec.driver obj remote then w.enforcing d kc obj effective remote false
  else if obj.spec.adoption = .adopt then w.enforcing d kc obj effective remote true
  else .refused .alreadyExists
    "A foreign resource with the same key exists; set adoptionPolicy: Adopt to take it over"

/-- **What a pass over a live custom resource comes to.** -/
def prospect : Prospect :=
  match obj.spec.driver.protected? obj with
  | some message => .refused .protectedRealm message
  | none =>
      match effectivePayload obj.spec.representation obj.lastApplied with
      | .error complaint => .refused .failed complaint
      | .ok effective =>
          match w.answer d (obj.spec.driver.get kc) with
          | .error err =>
              if err.kind = .notFound then w.missing d kc obj effective
              else .retried err (some "Server unreachable")
          | .ok remote => w.finding d kc obj effective remote

end World

section Prospects

variable {d : Denials} {w : World} {kc : Conn} {obj : ManagedObject} {effective remote : Object}

theorem World.prospect_declined {reason : Reason} {message : String}
    (h : obj.Declines reason message) : w.prospect d kc obj = .refused reason message := by
  cases h with
  | shielded h => simp only [World.prospect, h]
  | malformed hopen h => simp only [World.prospect, hopen, h]

theorem World.prospect_missing {err : Err} (hopen : obj.spec.driver.protected? obj = none)
    (heffective : effectivePayload obj.spec.representation obj.lastApplied = .ok effective)
    (hget : w.answer d (obj.spec.driver.get kc) = .error err) (hkind : err.kind = .notFound) :
    w.prospect d kc obj = w.missing d kc obj effective := by
  simp only [World.prospect, hopen, heffective, hget, if_pos hkind]

theorem World.prospect_unreachable {err : Err} (hopen : obj.spec.driver.protected? obj = none)
    (heffective : effectivePayload obj.spec.representation obj.lastApplied = .ok effective)
    (hget : w.answer d (obj.spec.driver.get kc) = .error err) (hkind : err.kind ≠ .notFound) :
    w.prospect d kc obj = .retried err (some "Server unreachable") := by
  simp only [World.prospect, hopen, heffective, hget, if_neg hkind]

theorem World.prospect_found (hopen : obj.spec.driver.protected? obj = none)
    (heffective : effectivePayload obj.spec.representation obj.lastApplied = .ok effective)
    (hget : w.answer d (obj.spec.driver.get kc) = .ok remote) :
    w.prospect d kc obj = w.finding d kc obj effective remote := by
  simp only [World.prospect, hopen, heffective, hget]

theorem World.finding_rejects {message : String} (h : obj.Rejects remote message) :
    w.finding d kc obj effective remote = .refused .alreadyExists message := by
  cases h with
  | existing h => exact if_pos h
  | foreign hpolicy h =>
    have hforeign : ¬ Engine.managed obj.spec.driver obj remote := fun hm => h ⟨hpolicy, .inl hm⟩
    have hadopt : obj.spec.adoption ≠ .adopt := fun ha => h ⟨hpolicy, .inr ha⟩
    rw [World.finding, if_neg hpolicy, if_neg hforeign, if_neg hadopt]

theorem World.finding_accepts {adopting : Bool} (h : obj.Accepts remote)
    (hadopting : Engine.managed obj.spec.driver obj remote = !adopting) :
    w.finding d kc obj effective remote = w.enforcing d kc obj effective remote adopting := by
  obtain ⟨hpolicy, haccepts⟩ := h
  rw [World.finding, if_neg hpolicy]
  rcases adopting with _ | _
  · exact if_pos hadopting
  · have hforeign : ¬ Engine.managed obj.spec.driver obj remote := by simp [hadopting]
    rw [if_neg hforeign, if_pos (haccepts.resolve_left hforeign)]

/-- The export does not look at the status. -/
theorem ensureOutputSecret_status (status : ResourceStatus) (name key value : String) :
    ensureOutputSecret { obj with status := status } name key value =
      ensureOutputSecret obj name key value := by
  have hcall : ∀ {op : Op} {next next' : op.Answer → Action (Except Err Bool)},
      (∀ answer, next answer = next' answer) → Prog.call (S := operations) op next = .call op next' :=
    fun h => congrArg _ (funext h)
  refine hcall fun answer => ?_
  rcases answer with ⟨_ | _, text⟩ | existing
  · rfl
  · exact hcall fun answer => by rcases answer <;> rfl
  · change (if obj.uid ∉ existing.controllers then _ else if _ then _ else _) =
      (if obj.uid ∉ existing.controllers then _ else if _ then _ else _)
    congr 2

theorem World.enforced_status (status : ResourceStatus) :
    w.enforced d kc { obj with status := status } remote = w.enforced d kc obj remote := by
  obtain ⟨ns, name, uid, generation, deletionTimestamp, finalizers, lastApplied, allowProtected, spec,
    old⟩ := obj
  rcases spec
  case client s =>
    have hexport : ∀ id, s.exportSecret kc ⟨ns, name, uid, generation, deletionTimestamp, finalizers,
        lastApplied, allowProtected, .client s, status⟩ id =
        s.exportSecret kc ⟨ns, name, uid, generation, deletionTimestamp, finalizers,
        lastApplied, allowProtected, .client s, old⟩ id := by
      intro id
      simp only [ClientSpec.exportSecret, ← ensureOutputSecret_status status]
    simp only [World.enforced, World.enforcement, World.exported, ClientSpec.obstacle,
      ClientSpec.exported, hexport]
  all_goals rfl

/-- The status and the stored object make no difference. -/
theorem World.prospect_again (stored : Option ManagedObject) (status : ResourceStatus) :
    World.prospect d { w with object := stored } kc { obj with status := status } =
      w.prospect d kc obj := by
  unfold World.prospect World.missing World.submitting World.finding World.enforcing World.updating
  simp only [World.enforced_status]
  obtain ⟨ns, name, uid, generation, deletionTimestamp, finalizers, lastApplied, allowProtected, spec,
    old⟩ := obj
  rcases spec <;> rfl

end Prospects

/-! ### How a pass ends -/

/-- The ways to report a complaint. -/
inductive Engine.Tells (e : Engine) (obj : ManagedObject) (prospect : Prospect) (message : String) :
    Action Pass → Prop where
  | refused {requeueAfter : Nat} (h : prospect.synced message = some message) :
      Tells e obj prospect message
        (e.refuse (prospect.ends obj) obj prospect.reason message requeueAfter)
  | retried {err : Err} {synced : String} (h : prospect = .retried err (some synced))
      (hmessage : message = err.text) :
      Tells e obj prospect message (Engine.retry obj obj err synced)
  | unfetched {err : Err} (h : prospect = .retried err none) (hmessage : message = err.text) :
      Tells e obj prospect message (Engine.unfetched obj err)

section Ends

variable {env : Env operations World} {picks : Picks} {d : Denials} {w w' t : World} {e : Engine}
  {kc : Conn} {obj mem : ManagedObject} {prospect : Prospect} {message : String} {now now' : Nat}
  {remote payload : Object} {p : Action Pass} {guard : Op → World → Prop} {post : Pass → World → Prop}

/-- What stays in the cluster is answered as usual. -/
theorem served_local {serve : Serve} {op : Op} {answer : op.Answer} (hop : op.Local)
    (h : Served serve op w answer w') : Reliable op w answer w' := by
  obtain ⟨order, now, heq⟩ := h
  refine ⟨order, now, ?_⟩
  rcases op <;> first | exact hop.elim | exact heq

theorem prompt_served (serve : Serve) : Prompt (Served serve) False :=
  fun hop hstep => .inl (served_local hop hstep)

theorem served_object {serve : Serve} {op : Op} {answer : op.Answer} (hop : ¬ op.WritesObject)
    (h : Served serve op w answer w') : w'.object = w.object := by
  rcases op
  case admin =>
    obtain ⟨-, rfl⟩ := served_admin h
    rfl
  all_goals exact reliable_object hop (served_local trivial h)

theorem Op.Reports.local {op : Op} (h : op.Reports) : op.Local := by
  rcases op <;> first | exact h.elim | exact trivial

/-- A part of the engine that stays in the cluster. -/
theorem Iterating.wp_local (hiterating : Iterating env picks d) {q : Action α}
    {post : α → World → Prop} (hq : Only Op.Local q) (h : Prog.wp Reliable guard q post t) :
    Prog.wp env guard q post t :=
  wp_transfer h hq fun _ _ _ _ hop hstep => served_local hop (hiterating.served hstep)

/-- A part of a pass that neither writes the custom resource nor warns. -/
theorem Iterating.wp_silent (hiterating : Iterating env picks d) {q : Action α}
    {post : α → World → Prop} (hadmits : ∀ op t, ¬ op.Warns → guard op t)
    (hq : Only (fun op : Op => ¬ op.WritesObject ∧ ¬ op.Warns) q) (hobject : t.object = some obj)
    (h : Prog.wp env ⊤ q post t) :
    Prog.wp env guard q (fun a u => post a u ∧ u.object = some obj) t := by
  have hkept : Prog.wp env _ q (fun _ u => u.object = some obj) t :=
    wp_of_only (fun u : World => u.object = some obj) (fun _ _ _ _ hop hu hstep =>
      (served_object hop.1 (hiterating.served hstep)).trans hu) hq hobject
  exact wp_guard_mono (fun op u hop => hadmits op u hop.2.1.2) (wp_and h hkept)

theorem Engine.Tells.local (h : e.Tells obj prospect message p) : Only Op.Local p := by
  cases h with
  | refused => exact e.only_refuse (fun _ h => h.reports.local) _ _ _ _ _
  | retried => exact Engine.only_retry (fun _ h => h.reports.local) _ _ _ _
  | unfetched => exact Engine.Stops.only (fun _ h => h.reports.local) (.unfetched (e := e) _)

/-- The report is stored. -/
theorem Engine.Tells.wp_stores (h : e.Tells obj prospect message p) (hobject : t.object = some obj) :
    wp Reliable ⊤ p (fun _ u => ∃ now now',
      u.object = some (prospect.tells obj message now now')) t := by
  unfold Prospect.tells
  cases h with
  | refused h =>
    rw [h]
    exact wp_refuse_stores hobject
  | retried h hmessage =>
    subst h hmessage
    exact wp_guard_mono (fun _ _ _ => trivial) (wp_retry_stores hobject)
  | unfetched h hmessage =>
    subst h hmessage
    exact wp_guard_mono (fun _ _ _ => trivial) (wp_unfetched_stores hobject)

/-- A report that is there already is neither written again nor announced. -/
theorem Engine.Tells.wp_again (h : e.Tells obj prospect message p)
    (hobj : obj = prospect.tells mem message now now') (hobject : t.object = some obj) :
    wp Reliable (fun op _ => ¬ op.Warns) p (fun _ u => u.object = some obj) t := by
  have hagain : ∀ later later', obj.failing prospect.reason message (prospect.synced message)
      later later' = obj := by
    intro later later'
    rw [hobj]
    exact ManagedObject.failing_failing _ _ _ _ _
  cases h with
  | refused h =>
    have hends : prospect.ends obj = obj := by
      subst hobj
      unfold Prospect.tells Prospect.ends
      rcases prospect.exported <;> rfl
    have hfailing : obj = (prospect.ends mem).failing prospect.reason message (some message)
        now now' := by
      rw [← h]
      exact hobj
    rw [hends]
    exact wp_refuse_again hfailing hobject
  | retried h hmessage =>
    subst h hmessage
    refine wp_mono ?_ (wp_retry_stores hobject)
    rintro _ u ⟨later, later', hu⟩
    exact hu.trans (congrArg some (hagain later later'))
  | unfetched h hmessage =>
    subst h hmessage
    refine wp_mono ?_ (wp_unfetched_stores hobject)
    rintro _ u ⟨later, later', hu⟩
    exact hu.trans (congrArg some (hagain later later'))

/-- What has to be shown about the two ways in which a pass over `obj` ends. -/
structure Ends (e : Engine) (env : Env operations World) (picks : Picks)
    (guard : Op → World → Prop) (obj : ManagedObject) (prospect : Prospect)
    (post : Pass → World → Prop) : Prop where
  admits : ∀ op t, ¬ op.Warns → guard op t
  stumbles : ∀ {message p t}, prospect.obstacle.Raises picks (some message) →
    e.Tells obj prospect message p → t.object = some obj → wp env guard p post t
  succeeds : ∀ {specMap changed t}, prospect.obstacle.Raises picks none → t.object = some obj →
    wp env guard (e.finalize (prospect.ends obj) obj specMap changed) post t

/-- `Get` has one answer and changes nothing. -/
theorem wp_get_answer (ht : t.bare = w.bare) : wp (Served d.serve) ⊤
    (obj.spec.driver.get kc).run
      (fun r u => r = w.answer d (obj.spec.driver.get kc) ∧ u.bare = w.bare) t :=
  (constant_fetches (compositional_only.has_get_fetches (fun _ h => h) obj.spec)).wp_answer rfl ht

/-- The write of a group leaves the clients alone. -/
theorem Spec.ClientsNamed.after_write {s : Spec} (h : s.ClientsNamed (w.servers kc.server))
    {method : Method} {endpoint : Endpoint} {body : Body}
    (hop : Op.Within s.place (.admin kc ⟨method, endpoint, body, .nothing⟩)) :
    s.ClientsNamed ((w.after d (kc.submit method endpoint body)).servers kc.server) := by
  intro g hg client hclient
  refine h g hg client ?_
  have hother : (⟨.client, g.realm⟩ : Place) ≠ s.place := by
    rw [hg]
    intro h
    cases h
  change client ∈ (((w.bare.adminWith d.serve kc ⟨method, endpoint, body, .nothing⟩).2.servers
    kc.server).resources _).items at hclient
  rcases hdenied : d.error kc.label method endpoint body with _ | err
  · have hstep : Reliable (.admin kc ⟨method, endpoint, body, .nothing⟩) w.bare _
        (w.bare.admin kc ⟨method, endpoint, body, .nothing⟩).2 := ⟨World.sorted, 0, rfl⟩
    rw [Denials.adminWith_of_admitted hdenied, reliable_elsewhere hother hop hstep] at hclient
    exact hclient
  · rw [Denials.adminWith_of_denied hdenied] at hclient
    exact hclient

namespace Ends

theorem wp_record (h : Ends e env picks guard obj prospect post)
    (hiterating : Iterating env picks d) {reason text : String} :
    wp env guard (e.record .normal reason text) (fun _ u => u = t) t :=
  wp_record_event (fun hstep => .inl (served_local trivial (hiterating.served hstep)))
    (h.admits _ _ fun hwarns => hwarns)

theorem wp_count (h : Ends e env picks guard obj prospect post) (hiterating : Iterating env picks d)
    {kind : Kind} : wp env guard (perform (.driftCorrected kind)) (fun _ u => u = t) t := by
  refine ⟨h.admits _ _ fun hwarns => hwarns, fun _ u hstep => ?_⟩
  exact faulty_notes (by trivial) (.inl (served_local (by trivial) (hiterating.served hstep)))

/-- The preparation of the payload. -/
theorem wp_prepare (h : Ends e env picks guard obj prospect post)
    (hiterating : Iterating env picks d) (ht : t.bare = w.bare) (hobject : t.object = some obj)
    {p : Object} {done : Except Err Object → World → Prop}
    (hfailed : ∀ err err' u, w.answer d (obj.spec.driver.preparePayload obj p) = .error err' →
      (w.preparation d obj).Raises picks (some err.text) → u.object = some obj → done (.error err) u)
    (hdone : ∀ payload u, w.answer d (obj.spec.driver.preparePayload obj p) = .ok payload →
      u.bare = w.bare → u.object = some obj → done (.ok payload) u) :
    wp env guard (obj.spec.driver.preparePayload obj p).run done t := by
  have hsilent : Only (fun op : Op => ¬ op.WritesObject ∧ ¬ op.Warns)
      (obj.spec.driver.preparePayload obj p).run :=
    only_preparePayload_secrets (fun _ _ => ⟨fun h => h, fun h => h⟩)
      (fun _ => ⟨fun h => h, fun h => h⟩) _ _ _
  refine wp_mono ?_ (hiterating.wp_silent h.admits hsilent hobject
    (wp_preparePayload_answer hiterating p ht))
  rintro r u ⟨⟨hu, hraises, ⟨err, rfl, err', herr⟩ | hr⟩, hobject⟩
  · exact hfailed err err' u herr hraises hobject
  rcases r with err | payload
  · exact hfailed err err u hr.symm hraises hobject
  · exact hdone payload u hr.symm hu hobject

theorem wp_get (h : Ends e env picks guard obj prospect post) (hiterating : Iterating env picks d)
    (ht : t.bare = w.bare) (hobject : t.object = some obj) :
    wp env guard (obj.spec.driver.get kc).run (fun r u =>
      (r = w.answer d (obj.spec.driver.get kc) ∧ u.bare = w.bare) ∧ u.object = some obj) t :=
  hiterating.wp_silent h.admits
    (compositional_only.has_get_fetches (fun _ _ => ⟨fun h => h, fun h => h⟩) obj.spec) hobject
    (hiterating.wp (wp_get_answer ht))

theorem wp_submit (h : Ends e env picks guard obj prospect post) (hiterating : Iterating env picks d)
    {method : Method} {endpoint : Endpoint} {body : Body} (ht : t.bare = w.bare)
    (hobject : t.object = some obj) :
    wp env guard (kc.submit method endpoint body).run (fun r u =>
      (r = w.answer d (kc.submit method endpoint body) ∧
        u.bare = (w.after d (kc.submit method endpoint body)).bare) ∧ u.object = some obj) t := by
  refine wp_mono ?_ (hiterating.wp_silent h.admits (only_send ⟨fun h => h, fun h => h⟩) hobject
    (hiterating.wp (wp_answer (only_send trivial) ht)))
  rintro r u ⟨⟨hr, hu⟩, hobject⟩
  refine ⟨⟨hr, ?_⟩, hobject⟩
  rw [← hu]
  rfl

/-- From `PostApply` on. -/
theorem wp_settle (h : Ends e env picks guard obj (w.enforced d kc obj remote) post)
    (hiterating : Iterating env picks d) (hclients : obj.spec.ClientsNamed (w.servers kc.server))
    (ht : t.bare = w.bare) (hobject : t.object = some obj)
    {next : ManagedObject → Bool → Action Pass} (hconcludes : e.Concludes obj next) :
    wp env guard (e.settle obj.spec.driver kc obj obj remote next) post t := by
  refine Engine.wp_settle_of (wp_mono ?_ (hiterating.wp_silent h.admits
    (only_postApply_silent obj remote) hobject (wp_postApply_raises hiterating hclients ht)))
  rintro ⟨mem, err | changed⟩ u ⟨⟨hraises, hmem⟩, hobject⟩
  all_goals
    dsimp only at hmem
    subst hmem
  · exact h.stumbles hraises (.refused rfl) hobject
  · refine hconcludes.wp (fun synced => h.succeeds hraises hobject) fun synced =>
      wp_mono (fun _ v hv => ?_) (h.wp_count hiterating)
    subst hv
    exact h.succeeds hraises hobject

/-- The state that `PostApply` begins in, and what the pass comes to from there. -/
def Placed (d : Denials) (kc : Conn) (obj : ManagedObject) (prospect : Prospect) (remote : Object)
    (t : World) : Prop :=
  t.object = some obj ∧ ∃ u : World, t.bare = u.bare ∧
    obj.spec.ClientsNamed (u.servers kc.server) ∧ prospect = u.enforced d kc obj remote

/-- The update of a resource. -/
theorem wp_updating (h : Ends e env picks guard obj (w.updating d kc obj remote payload) post)
    (hiterating : Iterating env picks d) (hclients : obj.spec.ClientsNamed (w.servers kc.server))
    (ht : t.bare = w.bare) (hobject : t.object = some obj) :
    wp env guard (e.correctDrift obj.spec.driver kc obj remote payload).run (fun updated u =>
      match updated with
      | .error err => wp env guard (e.notUpdated obj err) post u
      | .ok () => Placed d kc obj (w.updating d kc obj remote payload) remote u) t := by
  refine wp_run_bind.mpr (wp_run_lift.mpr
    (wp_mono (fun _ t' ht' => ?_) (h.wp_count hiterating)))
  subst ht'
  unfold World.updating at h ⊢
  rw [driver_update] at h ⊢
  refine wp_run_bind.mpr (wp_mono ?_ (h.wp_submit hiterating ht hobject))
  rintro (err | _) u ⟨⟨hr, hu⟩, hobject⟩ <;> dsimp only at h ⊢ <;> rw [← hr] at h
  · dsimp only at h
    by_cases hkind : err.kind = .conflict
    · rw [if_pos hkind] at h
      rw [Engine.notUpdated_conflict hkind]
      exact h.stumbles rfl (.refused rfl) hobject
    · rw [if_neg hkind] at h
      rw [Engine.notUpdated_of_ne hkind]
      exact h.stumbles rfl (.retried rfl rfl) hobject
  · rw [← hr]
    refine wp_run_lift.mpr (wp_mono (fun _ v hv => ?_) (h.wp_record hiterating))
    subst hv
    exact ⟨hobject, _, hu, hclients.after_write (obj.spec.within_item kc _ _ _), rfl⟩

/-- The creation of a resource. -/
theorem wp_submitting (h : Ends e env picks guard obj (w.submitting d kc obj payload) post)
    (hiterating : Iterating env picks d) (hclients : obj.spec.ClientsNamed (w.servers kc.server))
    (ht : t.bare = w.bare) (hobject : t.object = some obj) :
    wp env guard (obj.spec.driver.create kc (obj.spec.driver.managedMarker payload)).run
      (fun created u =>
        match created with
        | .error err => wp env guard (e.notCreated obj err) post u
        | .ok () =>
          wp env guard (e.record .normal "Created"
            ("Created " ++ obj.spec.kind.name ++ " on Keycloak server")) (fun _ v =>
            wp env guard (obj.spec.driver.get kc).run (fun fetched x =>
              match fetched with
              | .error err => wp env guard (Engine.unfetched obj err) post x
              | .ok remote => Placed d kc obj (w.submitting d kc obj payload) remote x) v) u) t := by
  unfold World.submitting at h ⊢
  rw [driver_create] at h ⊢
  refine wp_mono ?_ (h.wp_submit hiterating ht hobject)
  rintro (err | _) u ⟨⟨hr, hu⟩, hobject⟩ <;> dsimp only at h ⊢ <;> rw [← hr] at h
  · dsimp only at h
    by_cases hkind : err.kind = .conflict
    · rw [if_pos hkind] at h
      rw [Engine.notCreated_conflict hkind]
      exact h.stumbles rfl (.refused rfl) hobject
    · rw [if_neg hkind] at h
      rw [Engine.notCreated_of_ne hkind]
      exact h.stumbles rfl (.retried rfl rfl) hobject
  · rw [← hr]
    refine wp_mono (fun _ v hv => ?_) (h.wp_record hiterating)
    subst hv
    refine wp_mono ?_ (h.wp_get hiterating hu hobject)
    rintro (err | remote) x ⟨⟨hr', hx⟩, hobject⟩ <;> dsimp only at h ⊢ <;> rw [← hr'] at h
    · exact h.stumbles rfl (.unfetched rfl rfl) hobject
    · rw [← hr']
      exact ⟨hobject, _, hx, hclients.after_write (obj.spec.within_collection kc _ _), rfl⟩

/-- The stations of a pass that begins at `w`. -/
theorem stations (h : Ends e env picks guard obj (w.prospect d kc obj) post)
    (hiterating : Iterating env picks d) (hclients : obj.spec.ClientsNamed (w.servers kc.server)) :
    Stations e env guard kc obj (fun t => t.bare = w.bare ∧ t.object = some obj)
      (fun t => (t.bare = w.bare ∧ t.object = some obj) ∧
        ∃ err, w.answer d (obj.spec.driver.get kc) = .error err ∧ err.kind = .notFound)
      (fun remote t => (t.bare = w.bare ∧ t.object = some obj) ∧
        w.answer d (obj.spec.driver.get kc) = .ok remote)
      (fun remote _ t => Placed d kc obj (w.prospect d kc obj) remote t) post := by
  constructor
  case declined =>
    rintro reason message t hdeclines ⟨-, hobject⟩
    rw [World.prospect_declined hdeclines] at h
    exact h.stumbles rfl (.refused rfl) hobject
  case looked =>
    rintro t ⟨hopen, effective, heffective⟩ ⟨ht, hobject⟩
    refine wp_mono ?_ (h.wp_get hiterating ht hobject)
    rintro (err | remote) u ⟨⟨hr, hu⟩, hobject⟩
    · refine ⟨fun hkind => ⟨⟨hu, hobject⟩, err, hr.symm, hkind⟩, fun hkind => ?_⟩
      rw [World.prospect_unreachable hopen heffective hr.symm hkind] at h
      exact h.stumbles rfl (.retried rfl rfl) hobject
    · exact ⟨⟨hu, hobject⟩, hr.symm⟩
  case rejected =>
    rintro remote message t ⟨hopen, effective, heffective⟩ hrejects ⟨⟨-, hobject⟩, hfound⟩
    rw [World.prospect_found hopen heffective hfound, World.finding_rejects hrejects] at h
    exact h.stumbles rfl (.refused rfl) hobject
  case adopted =>
    rintro remote t ht
    refine wp_mono (fun _ u hu => ?_) (h.wp_record hiterating)
    subst hu
    exact ht
  case enforced =>
    rintro effective remote adopting t hopen heffective haccepts hadopting ⟨⟨ht, hobject⟩, hfound⟩
    rw [World.prospect_found hopen heffective hfound,
      World.finding_accepts haccepts hadopting] at h ⊢
    unfold World.enforcing at h ⊢
    refine h.wp_prepare hiterating ht hobject ?_ ?_
    · intro err err' u herr hraises hobject
      rw [herr] at h
      exact h.stumbles hraises (.refused rfl) hobject
    intro payload u hpayload hu hobject
    rw [hpayload] at h ⊢
    dsimp only at h ⊢
    refine ⟨fun hagrees => ?_, fun hchanges => ?_⟩
    · rw [if_neg (by simp [hagrees])]
      exact ⟨hobject, w, hu, hclients, rfl⟩
    · rw [if_pos hchanges] at h ⊢
      exact h.wp_updating hiterating hclients hu hobject
  case created =>
    rintro effective t hopen heffective ⟨⟨ht, hobject⟩, err, hmissing, hkind⟩
    rw [World.prospect_missing hopen heffective hmissing hkind] at h ⊢
    unfold World.missing at h ⊢
    refine h.wp_prepare hiterating ht hobject ?_ ?_
    · intro err err' u herr hraises hobject
      rw [herr] at h
      exact h.stumbles hraises (.refused rfl) hobject
    · intro payload u hpayload hu hobject
      rw [hpayload] at h ⊢
      exact h.wp_submitting hiterating hclients hu hobject
  case settled =>
    rintro remote next t hconcludes ⟨hobject, u, ht, hnamed, hprospect⟩
    rw [hprospect] at h
    exact h.wp_settle hiterating hnamed ht hobject hconcludes

/-- **A pass over a live custom resource** ends in one of the two ways. -/
theorem wp_pass (h : Ends e env picks guard obj (w.prospect d kc obj) post)
    (hiterating : Iterating env picks d) (hclients : obj.spec.ClientsNamed (w.servers kc.server))
    (hattends : w.Attends kc obj) :
    wp env guard e.controllerReconcile.run
      (fun result t => ∃ pass, result = .ok (some pass) ∧ post pass t) w := by
  have hprompt : Prompt env False := fun hop hstep =>
    .inl (served_local hop (hiterating.served hstep))
  exact Prompt.wp_attended hprompt hattends (h.admits _ w fun hwarns => hwarns)
    (h.admits _ w fun hwarns => hwarns) (fun _ _ t => h.admits _ t fun hwarns => hwarns)
    ((h.stations hiterating hclients).wp_apply ⟨rfl, hattends.object⟩)

end Ends

/-! ### A pass and the next -/

/-- What is stored after an obstacle has raised a complaint, or nothing. -/
def World.Tells (t : World) (prospect : Prospect) (obj : ManagedObject) : Option String → Prop
  | none => t.failure = none
  | some message => ∃ now now', t.object = some (prospect.tells obj message now now')

theorem World.Tells.failure {raised : Option String} (h : t.Tells prospect obj raised) :
    t.failure = raised.map fun message => (prospect.reason, message) := by
  rcases raised with _ | message
  · exact h
  · obtain ⟨now, now', hobject⟩ := h
    exact World.failure_failing hobject

/-- What a pass stores. -/
theorem ends_told (hiterating : Iterating env picks d) :
    Ends e env picks (fun _ _ => True) obj prospect (fun _ t => ∃ raised,
      prospect.obstacle.Raises picks raised ∧ t.Tells prospect obj raised) where
  admits := fun _ _ _ => trivial
  stumbles := fun hraises htells hobject => hiterating.wp_local htells.local
    (wp_mono (fun _ _ hu => ⟨_, hraises, hu⟩) (htells.wp_stores hobject))
  succeeds := fun hraises hobject => hiterating.wp_local
    (e.only_finalize (fun _ h => h.reports.local) (fun _ _ => trivial) _)
    (wp_mono (fun _ _ hu => ⟨none, hraises, hu⟩) (wp_finalize_failure hobject))

/-- A pass that comes to what is reported already. -/
theorem ends_again (hiterating : Iterating env picks d)
    (hobj : obj = prospect.tells mem message now now')
    (hraised : ∀ raised, prospect.obstacle.Raises picks raised → raised = some message) :
    Ends e env picks (fun op _ => ¬ op.Warns) obj prospect (fun _ t => t.object = some obj) where
  admits := fun _ _ hop => hop
  stumbles := by
    intro message' p t hraises htells hobject
    cases hraised _ hraises
    exact hiterating.wp_local htells.local (htells.wp_again hobj hobject)
  succeeds := by
    intro specMap changed t hraises _
    cases hraised _ hraises

end Ends

/-! ### Passes that do not come so far -/

/-- The finalizer of the object is removed without a look at the connection. -/
def ManagedObject.Orphaned (obj : ManagedObject) : Prop :=
  obj.deletionTimestamp.isSome ∧ obj.spec.deletion = .orphan

/-- A pass leaves the status alone: the object is gone, is being deleted or lacks its finalizer. -/
def World.Idles (w : World) : Prop :=
  ∀ obj, w.object = some obj → obj.Orphaned ∨
    ∃ kc, w.connections obj.ns obj.spec.connectionName = .ok kc ∧
      (obj.deletionTimestamp.isSome ∨ finalizerName ∉ obj.finalizers)

/-- A pass ends with the report that its connection is not available. -/
structure World.Unreachable (w : World) (obj : ManagedObject) (message : String) : Prop where
  object : w.object = some obj
  kept : ¬ obj.Orphaned
  connection : w.connections obj.ns obj.spec.connectionName = .error message

/-- How far a pass comes. -/
theorem World.idles_or (w : World) :
    w.Idles ∨ (∃ obj message, w.Unreachable obj message) ∨ ∃ kc obj, w.Attends kc obj := by
  rcases hobject : w.object with _ | obj
  · left
    intro obj hsome
    cases hobject.symm.trans hsome
  have hidles : (obj.Orphaned ∨ ∃ kc, w.connections obj.ns obj.spec.connectionName = .ok kc ∧
      (obj.deletionTimestamp.isSome ∨ finalizerName ∉ obj.finalizers)) → w.Idles := by
    intro h obj' hobject'
    cases hobject.symm.trans hobject'
    exact h
  by_cases horphaned : obj.Orphaned
  · exact .inl (hidles (.inl horphaned))
  rcases hconnection : w.connections obj.ns obj.spec.connectionName with message | kc
  · exact .inr (.inl ⟨obj, message, hobject, horphaned, hconnection⟩)
  by_cases hlive : obj.deletionTimestamp = none
  · by_cases hfinalizer : finalizerName ∈ obj.finalizers
    · exact .inr (.inr ⟨kc, obj, hobject, hlive, hfinalizer, hconnection⟩)
    · exact .inl (hidles (.inr ⟨kc, hconnection, .inr hfinalizer⟩))
  · exact .inl (hidles (.inr ⟨kc, hconnection, .inl (Option.isSome_iff_ne_none.mpr hlive)⟩))

section Idle

variable {serve : Serve} {w w' : World} {e : Engine} {obj : ManagedObject} {message : String}
  {f : Reason × String}

/-- Only patches of the status touch the report. -/
theorem served_failure {op : Op} {answer : op.Answer} (hop : ¬ op.PatchesStatus)
    (h : Served serve op w answer w') (hfailure : w'.failure = some f) : w.failure = some f := by
  rcases hobject : w'.object with _ | obj
  · simp [World.failure, World.conditions, hobject, findStatusCondition] at hfailure
  have hkept : ∃ stored, w.object = some stored ∧ obj.status = stored.status := by
    by_cases hlocal : op.Local
    · obtain ⟨stored, hstored, -, -, hstatus⟩ := reliable_writesObject (served_local hlocal h) hobject
      exact ⟨stored, hstored, hstatus fun base new heq => hop (heq ▸ trivial)⟩
    · refine ⟨obj, (served_object (fun hwrites => hlocal ?_) h).symm.trans hobject, rfl⟩
      rcases op <;> first | exact hwrites.elim | exact trivial
  obtain ⟨stored, hstored, hstatus⟩ := hkept
  rw [World.failure, World.conditions_eq hobject, hstatus, ← World.conditions_eq hstored] at hfailure
  exact hfailure

theorem wp_failure_kept {p : Action α} (h : Only (fun op : Op => ¬ op.PatchesStatus) p) :
    wp (Served serve) (fun op _ => ¬ op.PatchesStatus) p
      (fun _ t => ∀ f, t.failure = some f → w.failure = some f) w :=
  wp_guard_mono (fun _ _ hop => hop.1)
    (wp_of_only (fun t : World => ∀ f, t.failure = some f → w.failure = some f)
      (fun _ _ _ _ hop ht hstep f hf => ht f (served_failure hop hstep hf)) h fun _ hf => hf)

theorem World.Idles.wp_pass (h : w.Idles) :
    wp (Served serve) (fun op _ => ¬ op.PatchesStatus) e.controllerReconcile.run
      (fun _ t => ∀ f, t.failure = some f → w.failure = some f) w := by
  rcases hobject : w.object with _ | obj
  · refine ⟨fun hpatches => hpatches, fun answer t hstep => ?_⟩
    obtain ⟨_, _, heq⟩ := served_local (by trivial) hstep
    simp only [World.handle, hobject] at heq
    obtain ⟨rfl, rfl⟩ := Prod.mk.inj heq
    exact fun f hf => hf
  refine Prompt.wp_pass (prompt_served serve) hobject (fun hpatches => hpatches)
    (fun hout => hout.elim) ?_
  refine Prompt.wp_reconcile (prompt_served serve) (fun hpatches => hpatches)
    (fun _ _ _ hpatches => hpatches) ?_ ?_ ?_ ?_ ?_
  · exact fun _ => wp_failure_kept (only_updateObject_status _ _)
  · rintro message hkept (hout | hunavailable)
    · exact hout.elim
    · obtain horphaned | ⟨kc, hconnection, -⟩ := h obj hobject
      · exact absurd horphaned hkept
      · cases hunavailable.symm.trans hconnection
  · exact fun _ _ _ => wp_failure_kept only_handleDeletion_status
  · exact fun _ _ _ => wp_failure_kept (only_updateObject_status _ _)
  · intro kc _ hlive hfinalizer
    obtain ⟨hdeleted, -⟩ | ⟨_, -, hdeleted | hmissing⟩ := h obj hobject
    · rw [hlive] at hdeleted
      cases hdeleted
    · rw [hlive] at hdeleted
      cases hdeleted
    · exact absurd hfinalizer hmissing

theorem World.Unreachable.wp_pass (h : w.Unreachable obj message) :
    wp (Served serve) (fun op _ => ¬ op.Warns) e.controllerReconcile.run
      (fun _ t => ∃ now now', t.object = some (obj.failing .connectionUnavailable message
        (some "Connection unavailable") now now')) w := by
  refine Prompt.wp_pass (prompt_served serve) h.object (fun hwarns => hwarns)
    (fun hout => hout.elim) ?_
  refine Prompt.wp_reconcile (prompt_served serve) (fun hwarns => hwarns)
    (fun _ _ _ hwarns => hwarns) ?_ ?_ ?_ ?_ ?_
  · exact fun horphaned => absurd horphaned h.kept
  · rintro message' - (hout | hunavailable)
    · exact hout.elim
    cases h.connection.symm.trans hunavailable
    have hlocal : Only Op.Local (Engine.unavailable obj message) :=
      Engine.Stops.only (fun _ h => h.reports.local) (.unavailable (e := e) message)
    refine wp_transfer (wp_bind.mpr (wp_setConditions_stores (fun _ _ _ hop => hop)
      h.object rfl fun now now' => ⟨now, now', rfl⟩)) hlocal fun _ _ _ _ => served_local
  all_goals
    intro kc hconnection
    cases h.connection.symm.trans hconnection

end Idle

end KeycloakOperator
