import KeycloakOperator.Concurrency
import KeycloakOperator.DriverHelpers

/-!
# Output Secrets among other writers

`ensureOutputSecret` reads the Secret, looks at its owner and writes it back; the read and
the write are separate requests, the read may be answered from a cache, and everybody may
write Secrets in between.  The API server gives every write a version of its own, and
accepts an update only of the version that is stored.  So an update that is accepted finds
the Secret just as the call has read it, and a creation finds none.
-/

namespace KeycloakOperator

open Prog

/-! ### The API server -/

/-- The Secrets of a cluster, with all the versions that were ever stored.  A version is
    never used twice. -/
structure SecretStore where
  stored : String → String → Option Secret
  past : List Secret
  revision : Nat
  filed : ∀ ns name secret, stored ns name = some secret →
    secret ∈ past ∧ secret.ns = ns ∧ secret.name = name
  dated : ∀ secret ∈ past, secret.resourceVersion < revision
  unique : ∀ a ∈ past, ∀ b ∈ past, a.resourceVersion = b.resourceVersion → a = b

namespace SecretStore

open Function (update)

instance : EmptyCollection SecretStore where
  emptyCollection :=
    { stored := fun _ _ => none, past := [], revision := 0
      filed := fun _ _ _ h => by cases h
      dated := fun _ h => absurd h List.not_mem_nil
      unique := fun _ h => absurd h List.not_mem_nil }

/-- The Secret as it is stored next. -/
def next (s : SecretStore) (secret : Secret) : Secret :=
  { secret with resourceVersion := s.revision }

/-- Store a Secret under its name, with a new version. -/
def put (s : SecretStore) (secret : Secret) : SecretStore where
  stored := update s.stored secret.ns
    (update (s.stored secret.ns) secret.name (some (s.next secret)))
  past := s.next secret :: s.past
  revision := s.revision + 1
  filed := by
    intro ns name found hfound
    by_cases hns : ns = secret.ns
    · subst hns
      by_cases hname : name = secret.name
      · subst hname
        simp only [Function.update_self, Option.some.injEq] at hfound
        subst hfound
        exact ⟨List.mem_cons_self, rfl, rfl⟩
      · rw [Function.update_self, Function.update_of_ne hname] at hfound
        exact (s.filed _ _ _ hfound).imp_left (List.mem_cons_of_mem _)
    · rw [Function.update_of_ne hns] at hfound
      exact (s.filed _ _ _ hfound).imp_left (List.mem_cons_of_mem _)
  dated := by
    intro found hfound
    rcases List.mem_cons.mp hfound with rfl | hold
    · exact Nat.lt_succ_self _
    · exact Nat.lt_succ_of_lt (s.dated found hold)
  unique := by
    intro a ha b hb hsame
    rcases List.mem_cons.mp ha with rfl | ha <;> rcases List.mem_cons.mp hb with rfl | hb
    · rfl
    · exact absurd hsame.symm (s.dated b hb).ne
    · exact absurd hsame (s.dated a ha).ne
    · exact s.unique a ha b hb hsame

/-- Delete a Secret. -/
def remove (s : SecretStore) (ns name : String) : SecretStore where
  stored := update s.stored ns (update (s.stored ns) name none)
  past := s.past
  revision := s.revision
  filed := by
    intro ns' name' found hfound
    by_cases hns : ns' = ns
    · subst hns
      by_cases hname : name' = name
      · subst hname
        simp at hfound
      · rw [Function.update_self, Function.update_of_ne hname] at hfound
        exact s.filed _ _ _ hfound
    · rw [Function.update_of_ne hns] at hfound
      exact s.filed _ _ _ hfound
  dated := s.dated
  unique := s.unique

@[simp] theorem stored_put (s : SecretStore) (secret : Secret) :
    (s.put secret).stored secret.ns secret.name = some (s.next secret) := by
  simp [put]

theorem put_ne (s : SecretStore) (secret : Secret) : s.put secret ≠ s := by
  intro h
  have hrevision : s.revision + 1 = s.revision := congrArg revision h
  omega

end SecretStore

/-- The API server: a read returns any version so far or an error, whatever is stored now; a
    creation needs the name to be free, an update the stored version.  An answer may get
    lost. -/
def SecretApi : Env operations SecretStore := fun op s answer s' =>
  match op, answer with
  | .getSecret ns name, answer => s' = s ∧
      ((∃ secret ∈ s.past, secret.ns = ns ∧ secret.name = name ∧ answer = .ok secret) ∨
        ∃ err, answer = .error err)
  | .createSecret secret, answer =>
      (s.stored secret.ns secret.name = none ∧ s' = s.put secret) ∨
        (s' = s ∧ ∃ err, answer = .error err)
  | .updateSecret secret, answer =>
      (∃ old, s.stored secret.ns secret.name = some old ∧
        old.resourceVersion = secret.resourceVersion ∧ s' = s.put secret) ∨
        (s' = s ∧ ∃ err, answer = .error err)
  | _, _ => s' = s

/-- What others do to the Secrets: they write whatever they like, with any owner, and delete. -/
inductive SecretMove (s : SecretStore) : SecretStore → Prop where
  | write (secret : Secret) : SecretMove s (s.put secret)
  | delete (ns name : String) : SecretMove s (s.remove ns name)

/-! ### The calls -/

/-- The arguments of `ensureOutputSecret`. -/
structure OutputCall where
  obj : ManagedObject
  name : String
  key : String
  value : String

def OutputCall.program (call : OutputCall) : Action (Except Err Bool) :=
  (ensureOutputSecret call.obj call.name call.key call.value).run

/-- The Secret that is created. -/
def OutputCall.created (call : OutputCall) : Secret :=
  { ns := call.obj.ns, name := call.name, data := .ofList [(call.key, call.value)]
    controllers := [call.obj.uid] }

/-- The Secret that is written back. -/
def OutputCall.updated (call : OutputCall) (existing : Secret) : Secret :=
  { existing with data := existing.data.put call.key call.value }

/-- What a call writes: its new Secret, or a version of an owned one with the entry. -/
def OutputCall.Writes (call : OutputCall) : Op → SecretStore → Prop
  | .createSecret secret, _ => secret = call.created
  | .updateSecret secret, s => ∃ existing ∈ s.past, existing.ns = call.obj.ns ∧
      existing.name = call.name ∧ call.obj.uid ∈ existing.controllers ∧
      secret = call.updated existing
  | _, _ => True

/-- Versions are not forgotten. -/
def Remembers (s t : SecretStore) : Prop := s.past ⊆ t.past

theorem remembers_of_reflTransGen {s t : SecretStore} (h : Relation.ReflTransGen Remembers s t) :
    Remembers s t := by
  induction h with
  | refl => exact List.Subset.refl _
  | tail _ hmove ih => exact List.Subset.trans ih hmove

theorem secretMove_remembers {s t : SecretStore} (h : SecretMove s t) : Remembers s t := by
  cases h with
  | write secret => exact List.subset_cons_self _ _
  | delete ns name => exact List.Subset.refl _

theorem secretApi_remembers {op : Op} {s s' : SecretStore} {answer : op.Answer}
    (h : SecretApi op s answer s') : Remembers s s' := by
  cases op
  case getSecret =>
    obtain ⟨rfl, -⟩ := h
    exact List.Subset.refl _
  case createSecret =>
    rcases h with ⟨-, rfl⟩ | ⟨rfl, -⟩
    · exact List.subset_cons_self _ _
    · exact List.Subset.refl _
  case updateSecret =>
    rcases h with ⟨old, -, -, rfl⟩ | ⟨rfl, -⟩
    · exact List.subset_cons_self _ _
    · exact List.Subset.refl _
  all_goals
    obtain rfl := h
    exact List.Subset.refl _

/-- Alone among writers who forget no version, a call writes only what it should. -/
theorem wp_outputCall (call : OutputCall) (s : SecretStore) :
    wp (SecretApi.interleaved Remembers) (Interleaving.steady Remembers call.Writes) call.program
      (fun _ _ => True) s := by
  refine ⟨fun _ _ => trivial, fun answer t hget => ?_⟩
  obtain ⟨u, -, rfl, hanswer⟩ := hget
  rcases answer with err | existing <;> simp only [Prog.bind]
  · split
    · refine ⟨fun _ _ => rfl, fun created v _ => ?_⟩
      rcases created with err | _ <;> trivial
    · trivial
  · split
    · trivial
    case isFalse howned =>
      split
      · trivial
      obtain ⟨secret, hpast, hns, hname, heq⟩ | ⟨err, herr⟩ := hanswer
      · cases heq
        refine ⟨fun v hv => ?_, fun updated v _ => ?_⟩
        · exact ⟨existing, remembers_of_reflTransGen hv hpast, hns, hname, not_not.mp howned, rfl⟩
        · rcases updated with err | _ <;> trivial
      · cases herr

/-! ### Every interleaving -/

/-- A write that is accepted: it creates a Secret where there was none, with the CR as its
    controller, or it changes the entry `key` of a Secret that the CR controls at this
    moment, and nothing else but its version. -/
def OutputCall.Rightful (call : OutputCall) (step : Step operations SecretStore) : Prop :=
  (step.op = .createSecret call.created ∧
    step.before.stored call.obj.ns call.name = none ∧
    step.after = step.before.put call.created) ∨
  ∃ old, step.op = .updateSecret (call.updated old) ∧
    step.before.stored call.obj.ns call.name = some old ∧ call.obj.uid ∈ old.controllers ∧
    step.after = step.before.put (call.updated old)

theorem rightful_of_writes {call : OutputCall} {op : Op} {s s' : SecretStore} {answer : op.Answer}
    (hwrites : call.Writes op s) (h : SecretApi op s answer s') (hchanged : s' ≠ s) :
    call.Rightful ⟨s, op, answer, s'⟩ := by
  cases op
  case getSecret => exact absurd h.1 hchanged
  case createSecret secret =>
    obtain rfl : secret = call.created := hwrites
    rcases h with ⟨hfree, rfl⟩ | ⟨rfl, -⟩
    · exact .inl ⟨rfl, hfree, rfl⟩
    · exact absurd rfl hchanged
  case updateSecret secret =>
    obtain ⟨existing, hpast, hns, hname, howned, rfl⟩ := hwrites
    rcases h with ⟨old, hstored, hversion, rfl⟩ | ⟨rfl, -⟩
    · -- both are versions of the past, so equal versions are one Secret
      have hold := (s.filed _ _ _ hstored).1
      obtain rfl := s.unique old hold existing hpast hversion
      refine .inr ⟨old, rfl, ?_, howned, rfl⟩
      rw [← hns, ← hname]
      exact hstored
    · exact absurd rfl hchanged
  all_goals exact absurd h hchanged

/-- Whatever the other calls and everybody else do to the Secrets, and however old the
    versions are that are read: every write of a call that is accepted is rightful. -/
theorem output_secrets_rightful {ι : Type} [DecidableEq ι] {calls : ι → OutputCall}
    {s t : SecretStore} {events : List (Event ι operations SecretStore)}
    {left : ι → Action (Except Err Bool)}
    (h : Interleaving SecretApi SecretMove (fun i => (calls i).program) s events left t) :
    ∀ event ∈ events, event.step.after ≠ event.step.before →
      (calls event.thread).Rightful event.step := by
  intro event hevent hchanged
  have hguarded := h.guarded Remembers (fun i => (calls i).Writes)
    (fun _ _ hmove => secretMove_remembers hmove)
    (fun _ _ _ _ _ _ hstep => secretApi_remembers hstep)
    (fun i => wp_outputCall (calls i) s)
  exact rightful_of_writes (hguarded.1 event hevent) (h.env_of_mem event hevent) hchanged

/-- A client that exports its secret to `app`. -/
def exportCall (value : String) : OutputCall where
  obj := { ns := "apps", name := "portal", uid := "uid-2", generation := 1
           spec := .client { keycloakRef := "main", realm := "demo", clientId := "portal"
                             fields := ⟨∅, Fields.typed_empty _⟩ } }
  name := "app"
  key := "clientSecret"
  value := value

/-- One call creates the Secret, somebody adds an entry to it, and a later call with another
    value updates it. -/
theorem annotated_secret_updated :
    ∃ events left t, Interleaving SecretApi SecretMove
        (fun later : Bool => (exportCall (if later then "new" else "old")).program) ∅ events left t ∧
      ∃ event ∈ events, event.thread = true ∧ event.step.after ≠ event.step.before ∧
        (exportCall "new").Rightful event.step := by
  let created : SecretStore := (∅ : SecretStore).put (exportCall "old").created
  let noted : Secret := { (exportCall "old").created with
    data := .ofList [("clientSecret", "old"), ("user", "portal")] }
  let edited : SecretStore := created.put noted
  have h₀ : Interleaving SecretApi SecretMove
      (fun later : Bool => (exportCall (if later then "new" else "old")).program) ∅ [] _ ∅ := .start
  have h₁ := h₀.next false (.getSecret "apps" "app") (.error ⟨true, ""⟩) ∅ rfl ⟨rfl, .inr ⟨_, rfl⟩⟩
  have h₂ := h₁.next false (.createSecret (exportCall "old").created) (.ok ()) created rfl
    (.inl ⟨rfl, rfl⟩)
  have h₃ := (h₂.move (.write noted)).next true (.getSecret "apps" "app")
    (.ok (created.next noted)) edited rfl ⟨rfl, .inl ⟨_, List.mem_cons_self, rfl, rfl, rfl⟩⟩
  have hstored : edited.stored "apps" "app" = some (created.next noted) := SecretStore.stored_put _ _
  let renewed : Secret := (exportCall "new").updated (created.next noted)
  have h₄ := h₃.next true (.updateSecret renewed) (.ok ()) (edited.put renewed) rfl
    (.inl ⟨_, hstored, rfl, rfl⟩)
  refine ⟨_, _, _, h₄, _, List.mem_append_right _ List.mem_cons_self, rfl, ?_, ?_⟩
  · exact SecretStore.put_ne _ _
  · exact output_secrets_rightful h₄ _ (List.mem_append_right _ List.mem_cons_self)
      (SecretStore.put_ne _ _)

end KeycloakOperator
