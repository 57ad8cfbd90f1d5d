import KeycloakOperator.ConnectionCache

/-!
# Connections that are gone

A call of `For` that does not find its connection drops the entry, "so deleted connections do not
keep credentials in memory".  The drop and the store are critical sections of different calls and
nothing orders them: a call that has read the connection before it was deleted may store its client
after the entry was dropped, and no later call puts that right until somebody asks for the
connection once more.
-/

namespace KeycloakOperator

open Prog Interleaving

section Dropped

variable {ι : Type} [DecidableEq ι] {ledger : Ledger} {ns name : String} {s t : ProviderState}
  {events : List (Event ι providerOperations ProviderState)}
  {left : ι → ProviderCall (Except String AdminClient)}

/-- The call has read the connection. -/
def FoundBy (ns name : String) (i : ι)
    (events : List (Event ι providerOperations ProviderState)) : Prop :=
  ∃ event ∈ events, event.thread = i ∧
    ∃ conn, event.step.exchange = ⟨.getConnection ns name, .ok conn⟩

/-- When the call drops the entry, the calls that have found the connection have done their last
    step. -/
def DropsAlone (ns name : String) (i : ι)
    (events : List (Event ι providerOperations ProviderState)) : Prop :=
  ∀ before drop after, events = before ++ drop :: after → drop.thread = i →
    drop.step.op = .forget (connectionKey ns name) →
    ∀ event ∈ after, ¬ FoundBy ns name event.thread before

/-! ### What one call does -/

/-- What is left of a call that could not read the connection. -/
def afterFailedRead (ns name : String) (err : KubeErr) : ProviderCall (Except String AdminClient) := do
  if err.notFound then
    ProviderCall.perform (.forget (connectionKey ns name))
  return .error ("get keycloak connection " ++ connectionKey ns name ++ ": " ++ err.text)

variable {env : Env providerOperations ProviderState}
  {steps : List (Step providerOperations ProviderState)}
  {q : ProviderCall (Except String AdminClient)}

/-- It drops the entry of a connection that is not there, and does nothing else. -/
theorem exchanges_afterFailedRead {err : KubeErr}
    (h : Leaves env (afterFailedRead ns name err) s steps t q) :
    ∀ exchange ∈ steps.map Step.exchange, exchange = ⟨.forget (connectionKey ns name), ()⟩ := by
  unfold afterFailedRead at h
  split at h
  · cases h with
    | refl => exact List.forall_mem_nil _
    | call _ hrest =>
      cases hrest
      simp [Step.exchange]
  · cases h
    exact List.forall_mem_nil _

theorem drops_afterFailedRead {err : KubeErr} {result : Except String AdminClient}
    (herr : err.notFound = true)
    (h : Leaves env (afterFailedRead ns name err) s steps t (.ret result)) :
    ⟨.forget (connectionKey ns name), ()⟩ ∈ steps.map Step.exchange := by
  rw [afterFailedRead, if_pos herr] at h
  cases h with
  | call _ _ => exact List.mem_cons_self

/-- The connection is read first, and only once. -/
theorem providerFor_reads (ns name : String) :
    ∃ next : Except KubeErr KeycloakConnection → ProviderCall (Except String AdminClient),
      providerFor ns name = .call (.getConnection ns name) next ∧
      (∀ err, next (.error err) = afterFailedRead ns name err) ∧
      ∀ answer, Only (S := providerOperations) (fun op => ∀ ns name, op ≠ .getConnection ns name)
        (next answer) := by
  refine ⟨_, rfl, fun _ => rfl, fun answer => ?_⟩
  cases answer with
  | error err =>
    simp only [Prog.bind]
    split
    · exact ⟨by simp, fun _ => trivial⟩
    · trivial
  | ok conn =>
    refine ⟨by simp, fun answer => ?_⟩
    cases answer with
    | error err => trivial
    | ok secret =>
      refine ⟨by simp, fun cached => ?_⟩
      simp only [Prog.bind]
      split
      · trivial
      split
      · trivial
      · exact ⟨by simp, fun _ => trivial⟩

/-- A call stores only after it has found the connection. -/
theorem found_of_store {key : String} {entry : CachedClient}
    (h : Leaves env (providerFor ns name) s steps t q)
    (hstore : ⟨.store key entry, ()⟩ ∈ steps.map Step.exchange) :
    ∃ conn, ⟨.getConnection ns name, .ok conn⟩ ∈ steps.map Step.exchange := by
  obtain ⟨next, hnext, hfailed, -⟩ := providerFor_reads ns name
  rw [hnext] at h
  cases h with
  | refl => simp at hstore
  | @call _ _ _ _ _ answer _ _ _ hrest =>
    cases answer with
    | ok conn => exact ⟨conn, List.mem_cons_self⟩
    | error err =>
      rw [hfailed] at hrest
      rcases List.mem_cons.mp hstore with hfirst | hmem
      · cases hfirst
      · cases exchanges_afterFailedRead hrest _ hmem

/-- A call that has not found the connection does not return before it has dropped the entry. -/
theorem drops_of_notFound {err : KubeErr} {result : Except String AdminClient}
    (herr : err.notFound = true) (h : Leaves env (providerFor ns name) s steps t (.ret result))
    {before after : List ((op : ProviderOp) × op.Answer)}
    (hsteps : steps.map Step.exchange = before ++ ⟨.getConnection ns name, .error err⟩ :: after) :
    ⟨.forget (connectionKey ns name), ()⟩ ∈ after := by
  obtain ⟨next, hnext, hfailed, honly⟩ := providerFor_reads ns name
  rw [hnext] at h
  cases h with
  | @call _ _ _ _ _ answer rest _ _ hrest =>
    have hlater := hrest.exec_cut.only (honly answer)
    cases before with
    | cons first before =>
      obtain ⟨-, hrest⟩ := List.cons.inj hsteps
      have hmem : ⟨.getConnection ns name, .error err⟩ ∈ rest.map Step.exchange := by
        rw [hrest]
        simp
      obtain ⟨step, hstep, hexchange⟩ := List.mem_map.mp hmem
      exact absurd (congrArg Sigma.fst hexchange) (hlater step hstep ns name)
    | nil =>
      obtain ⟨hfirst, hafter⟩ := List.cons.inj hsteps
      cases hfirst
      rw [hfailed] at hrest
      rw [← hafter]
      exact drops_afterFailedRead herr hrest

/-- Where the connection is not there, it is not found. -/
theorem not_found_of_absent {step : Step providerOperations ProviderState}
    (henv : ProviderApi ledger step.op step.before step.answer step.after)
    (habsent : step.before.connections ns name = none) {conn : KeycloakConnection} :
    step.exchange ≠ ⟨.getConnection ns name, .ok conn⟩ := by
  obtain ⟨before, op, answer, after⟩ := step
  intro hread
  cases hread
  obtain ⟨-, ⟨version, hversion, -⟩ | ⟨err, herr⟩⟩ := henv
  · rw [habsent] at hversion
    cases hversion
  · cases herr

/-- An operation that stores nothing leaves no entry where there is none. -/
theorem byName_none_of_not_store {op : ProviderOp} {answer : op.Answer} {key : String}
    (henv : ProviderApi ledger op s answer t) (hstore : ∀ entry, op ≠ .store key entry)
    (hs : s.byName key = none) : t.byName key = none := by
  cases op with
  | getConnection => exact henv.1 ▸ hs
  | getSecret => exact henv.1 ▸ hs
  | lookup => exact henv.1 ▸ hs
  | forget dropped =>
    obtain rfl := henv
    by_cases hkey : key = dropped <;> simp [hkey, hs]
  | store stored entry =>
    obtain rfl := henv
    have hkey : key ≠ stored := by
      rintro rfl
      exact hstore entry rfl
    simpa [hkey] using hs

/-! ### What a run does -/

/-- The operations of a run, thread by thread, are those of the calls. -/
theorem exists_leaves (h : Interleaving (ProviderApi ledger) ObjectsChange
      (fun _ : ι => providerFor ns name) s events left t) (i : ι) :
    ∃ steps u, Leaves ((ProviderApi ledger).interleaved fun _ _ => True) (providerFor ns name) s
        steps u (left i) ∧
      steps.map Step.exchange = (own i events).map Step.exchange := by
  obtain ⟨steps, u, hleaves, -, hsame⟩ :=
    h.leaves (fun _ _ => True) (fun _ _ _ => trivial) (fun _ _ => trivial) i
  exact ⟨steps, u, hleaves, hsame⟩

theorem mem_own {i : ι} {exchange : (op : ProviderOp) × op.Answer} :
    exchange ∈ (own i events).map Step.exchange ↔
      ∃ event ∈ events, event.thread = i ∧ event.step.exchange = exchange := by
  simp [own, and_assoc]

/-- Only calls that have found the connection store. -/
theorem foundBy_of_store (h : Interleaving (ProviderApi ledger) ObjectsChange
      (fun _ : ι => providerFor ns name) s events left t)
    {event : Event ι providerOperations ProviderState} (hevent : event ∈ events) {key : String}
    {entry : CachedClient} (hstore : event.step.op = .store key entry) :
    FoundBy ns name event.thread events := by
  obtain ⟨steps, u, hleaves, hsame⟩ := exists_leaves h event.thread
  have hmem : ⟨.store key entry, ()⟩ ∈ steps.map Step.exchange := by
    rw [hsame, mem_own]
    refine ⟨event, hevent, rfl, ?_⟩
    obtain ⟨_, _, op, _, _⟩ := event
    subst hstore
    rfl
  obtain ⟨conn, hread⟩ := found_of_store hleaves hmem
  rw [hsame, mem_own] at hread
  obtain ⟨read, hread, hthread, hconn⟩ := hread
  exact ⟨read, hread, hthread, conn, hconn⟩

/-- The call that has not found the connection drops the entry at some later point of the run. -/
theorem exists_drop (h : Interleaving (ProviderApi ledger) ObjectsChange
      (fun _ : ι => providerFor ns name) s events left t)
    {before after : List (Event ι providerOperations ProviderState)}
    {seen : Event ι providerOperations ProviderState} (hevents : events = before ++ seen :: after)
    {err : KubeErr} (hseen : seen.step.exchange = ⟨.getConnection ns name, .error err⟩)
    (herr : err.notFound = true) {result : Except String AdminClient}
    (hreturned : left seen.thread = .ret result) :
    ∃ drop ∈ after, drop.thread = seen.thread ∧
      drop.step.op = .forget (connectionKey ns name) := by
  obtain ⟨steps, u, hleaves, hsame⟩ := exists_leaves h seen.thread
  rw [hreturned] at hleaves
  have hown : own seen.thread events = own seen.thread before ++ seen.step :: own seen.thread after :=
    by rw [hevents, own_append, own_cons_self]
  rw [hown, List.map_append, List.map_cons, hseen] at hsame
  obtain ⟨drop, hdrop, hthread, hforget⟩ := mem_own.mp (drops_of_notFound herr hleaves hsame)
  exact ⟨drop, hdrop, hthread, congrArg Sigma.fst hforget⟩

end Dropped

/-- **Deleted connections leave no credentials**, as long as nobody is late.  Some call has observed
    that the connection is not there, and it has not been there since.  Unless a call that had found
    the connection goes on after the entry is dropped, the cache has no entry once the calls have
    returned. -/
theorem no_entry_of_dropped_alone {ι : Type} [DecidableEq ι] {ledger : Ledger} {ns name : String}
    {s t : ProviderState} {events : List (Event ι providerOperations ProviderState)}
    {left : ι → ProviderCall (Except String AdminClient)}
    (h : Interleaving (ProviderApi ledger) ObjectsChange (fun _ : ι => providerFor ns name) s events
      left t)
    (hreturned : ∀ i, ∃ result, left i = .ret result)
    {before after : List (Event ι providerOperations ProviderState)}
    {seen : Event ι providerOperations ProviderState} {err : KubeErr}
    (hevents : events = before ++ seen :: after)
    (hseen : seen.step.exchange = ⟨.getConnection ns name, .error err⟩)
    (hnotFound : err.notFound = true)
    (habsent : ∀ event ∈ after, event.step.before.connections ns name = none)
    (halone : DropsAlone ns name seen.thread events) :
    t.byName (connectionKey ns name) = none := by
  obtain ⟨result, hresult⟩ := hreturned seen.thread
  obtain ⟨drop, hdrop, hthread, hforget⟩ := exists_drop h hevents hseen hnotFound hresult
  obtain ⟨mid, last, rfl⟩ := List.append_of_mem hdrop
  have hsplit : events = (before ++ seen :: mid) ++ drop :: last := by simp [hevents]
  have hquiet := halone _ _ _ hsplit hthread hforget
  -- a call that stores after the drop would have found the connection before it
  have hnoStore : ∀ event ∈ last, ∀ entry, event.step.op ≠ .store (connectionKey ns name) entry := by
    intro event hevent entry hstore
    have hmem : event ∈ events := by simp [hsplit, hevent]
    obtain ⟨read, hread, hreader, conn, hconn⟩ := foundBy_of_store h hmem hstore
    have henv := h.env_of_mem read hread
    rw [hevents] at hread
    rcases List.mem_append.mp hread with hearlier | hlater
    · exact hquiet event hevent ⟨read, by simp [hearlier], hreader, conn, hconn⟩
    rcases List.mem_cons.mp hlater with rfl | hlater
    · rw [hseen] at hconn
      cases hconn
    · exact not_found_of_absent henv (habsent read hlater) hconn
  have hdropped : drop.step.after.byName (connectionKey ns name) = none := by
    have henv := h.env_of_mem drop (by simp [hsplit])
    obtain ⟨_, _, op, answer, _⟩ := drop
    subst hforget
    rw [show _ = _ from henv]
    simp
  obtain ⟨_, _, -, hrest⟩ := (hsplit ▸ h).split
  refine Interleaving.kept (fun u => u.byName (connectionKey ns name) = none)
    (fun u v hmove hu => ?_) hrest (fun event hevent => ?_) hdropped
  · rw [show v.byName = u.byName from hmove]
    exact hu
  · exact byName_none_of_not_store (hrest.env_of_mem event hevent) (hnoStore event hevent)

/-! ### A late call -/

/-- A connection is reported as not found only where it is not there. -/
def TruthfulApi (ledger : Ledger) : Env providerOperations ProviderState := fun op s answer s' =>
  ProviderApi ledger op s answer s' ∧
    match op, answer with
    | .getConnection ns name, .error err => err.notFound = true → s.connections ns name = none
    | _, _ => True

/-- The connection is deleted, and nothing else happens. -/
def ConnectionDeleted (ns name : String) (s t : ProviderState) : Prop :=
  t.byName = s.byName ∧ t.secrets = s.secrets ∧
    ∀ ns' name', t.connections ns' name' =
      if ns' = ns ∧ name' = name then none else s.connections ns' name'

/-- Nothing is cached, and the only connection is gone. -/
def deletedState : ProviderState :=
  { rotatedState 0 with connections := fun _ _ => none, namespaces := nofun }

theorem connectionDeleted_rotatedState :
    ConnectionDeleted "apps" "main" (rotatedState 0) deletedState := by
  refine ⟨rfl, rfl, fun ns name => ?_⟩
  by_cases h : ns = "apps" ∧ name = "main" <;> simp [deletedState, rotatedState, h]

def connectionGone : KubeErr := ⟨true, "keycloakconnections \"main\" not found"⟩

/-- One call reads the connection and its credentials.  The connection is deleted, and another call
    observes that and drops the entry.  The first call stores its client, with the password, and
    there it stays. -/
theorem late_call_keeps_credentials :
    ∃ events left t, Interleaving (TruthfulApi rotated) (ConnectionDeleted "apps" "main")
        (fun _ : Bool => providerFor "apps" "main") (rotatedState 0) events left t ∧
      (∀ i, ∃ result, left i = .ret result) ∧
      (∃ before seen after, events = before ++ seen :: after ∧
        seen.step.exchange = ⟨.getConnection "apps" "main", .error connectionGone⟩ ∧
        ∀ event ∈ after, event.step.before.connections "apps" "main" = none ∧
          event.step.after.connections "apps" "main" = none) ∧
      t.connections "apps" "main" = none ∧
      t.byName (connectionKey "apps" "main") = some ⟨rotatedClient "old", 0, 0⟩ := by
  let dropped : ProviderState := { deletedState with
    byName := Function.update deletedState.byName "apps/main" none }
  let stored : ProviderState := { dropped with
    byName := Function.update dropped.byName "apps/main" (some ⟨rotatedClient "old", 0, 0⟩) }
  have h₀ : Interleaving (TruthfulApi rotated) (ConnectionDeleted "apps" "main")
      (fun _ : Bool => providerFor "apps" "main") (rotatedState 0) [] _ (rotatedState 0) := .start
  have h₁ := h₀.next false (.getConnection "apps" "main") (.ok (rotated.connection "apps" "main" 0))
    (rotatedState 0) rfl ⟨⟨rfl, .inl ⟨0, rfl, rfl⟩⟩, trivial⟩
  have h₂ := h₁.next false (.getSecret "apps" "admin") (.ok (rotated.secret "apps" "admin" 0))
    (rotatedState 0) rfl ⟨⟨rfl, .inl ⟨0, rfl, rfl⟩⟩, trivial⟩
  have h₃ := (h₂.move connectionDeleted_rotatedState).next true (.getConnection "apps" "main")
    (.error connectionGone) deletedState rfl ⟨⟨rfl, .inr ⟨_, rfl⟩⟩, fun _ => rfl⟩
  have h₄ := h₃.next true (.forget "apps/main") () dropped rfl ⟨rfl, trivial⟩
  have h₅ := h₄.next false (.lookup "apps/main") none dropped rfl ⟨⟨rfl, rfl⟩, trivial⟩
  have h₆ := h₅.next false (.store "apps/main" ⟨rotatedClient "old", 0, 0⟩) () stored rfl
    ⟨rfl, trivial⟩
  refine ⟨_, _, _, h₆, ?_, ⟨[_, _], _, [_, _, _], rfl, rfl, ?_⟩, rfl, rfl⟩
  · intro i
    cases i <;> exact ⟨_, rfl⟩
  · simp [dropped, stored, deletedState]

/-- Nobody goes on after a drop that is the last operation of the run. -/
theorem dropsAlone_of_last {ι : Type} {ns name : String} {i : ι}
    {events : List (Event ι providerOperations ProviderState)}
    {last : Event ι providerOperations ProviderState}
    (h : ∀ event ∈ events, event.step.op ≠ .forget (connectionKey ns name)) :
    DropsAlone ns name i (events ++ [last]) := by
  intro before drop after hevents _ hforget
  rcases List.eq_nil_or_concat after with rfl | ⟨after, _, rfl⟩
  · exact List.forall_mem_nil _
  · rw [List.concat_eq_append, ← List.cons_append, ← List.append_assoc] at hevents
    obtain ⟨rfl, -⟩ := List.append_inj' hevents rfl
    exact absurd hforget (h drop (by simp))

/-- The first call has stored its client by the time the connection is deleted, and the other call
    takes it out. -/
theorem punctual_call_leaves_no_entry :
    ∃ events left t, Interleaving (ProviderApi rotated) ObjectsChange
        (fun _ : Bool => providerFor "apps" "main") (rotatedState 0) events left t ∧
      (∀ i, ∃ result, left i = .ret result) ∧
      ⟨.store "apps/main" ⟨rotatedClient "old", 0, 0⟩, ()⟩ ∈
        events.map (fun event => event.step.exchange) ∧
      t.byName (connectionKey "apps" "main") = none := by
  let entry : CachedClient := ⟨rotatedClient "old", 0, 0⟩
  let stored : ProviderState := { rotatedState 0 with
    byName := Function.update (rotatedState 0).byName "apps/main" (some entry) }
  let gone : ProviderState := { stored with connections := fun _ _ => none, namespaces := nofun }
  let dropped : ProviderState := { gone with byName := Function.update gone.byName "apps/main" none }
  have h₀ : Interleaving (ProviderApi rotated) ObjectsChange
      (fun _ : Bool => providerFor "apps" "main") (rotatedState 0) [] _ (rotatedState 0) := .start
  have h₁ := h₀.next false (.getConnection "apps" "main") (.ok (rotated.connection "apps" "main" 0))
    (rotatedState 0) rfl ⟨rfl, .inl ⟨0, rfl, rfl⟩⟩
  have h₂ := h₁.next false (.getSecret "apps" "admin") (.ok (rotated.secret "apps" "admin" 0))
    (rotatedState 0) rfl ⟨rfl, .inl ⟨0, rfl, rfl⟩⟩
  have h₃ := h₂.next false (.lookup "apps/main") none (rotatedState 0) rfl ⟨rfl, rfl⟩
  have h₄ := h₃.next false (.store "apps/main" entry) () stored rfl rfl
  have hgone : ObjectsChange stored gone := rfl
  have h₅ := (h₄.move hgone).next true (.getConnection "apps" "main") (.error connectionGone) gone rfl
    ⟨rfl, .inr ⟨_, rfl⟩⟩
  have h₆ := h₅.next true (.forget "apps/main") () dropped rfl rfl
  refine ⟨_, _, _, h₆, ?_, by simp [Step.exchange, entry], ?_⟩
  · intro i
    cases i <;> exact ⟨_, rfl⟩
  · refine @no_entry_of_dropped_alone _ _ _ _ _ _ _ _ _ h₆ ?_ [_, _, _, _] [_] _ _ rfl rfl rfl ?_ ?_
    · intro i
      cases i <;> exact ⟨_, rfl⟩
    · simp [gone]
    · exact dropsAlone_of_last (by simp)

end KeycloakOperator
