import KeycloakOperator.AdminClient

/-!
# The cache of connections (`internal/keycloak/provider.go`)

A `Provider` turns a KeycloakConnection and its credentials Secret into a client and keeps
the client with the versions of the two objects it was built from.  Calls of `For` run at
the same time: the critical sections and the reads of a call are operations, so an older
call may overwrite the entry of a newer one, and between any two operations the objects may
be updated, deleted and created again.

What ties an entry to its versions is `CachedClient.Built`: the client is the one that the
contents of these versions give.  It holds of every entry at any time, since a call stores
the versions that it has read along with what it has made of them.
-/

namespace KeycloakOperator

open Prog Interleaving

/-! ### Connections -/

structure ConnectionSpec where
  url : String
  credentialsSecretRef : String
  auth : Option AuthType := none
  adminRealm : Option String := none
  insecureSkipVerify : Option Bool := none
deriving DecidableEq, Repr

/-- The realm of the administration credentials. -/
def ConnectionSpec.realm (spec : ConnectionSpec) : String :=
  match spec.adminRealm with
  | some realm => if realm = "" then defaultAdminRealm else realm
  | none => defaultAdminRealm

theorem ConnectionSpec.realm_ne_empty (spec : ConnectionSpec) : spec.realm ≠ "" := by
  unfold realm
  split
  · split
    · decide
    · assumption
  · decide

structure KeycloakConnection where
  resourceVersion : Nat
  spec : ConnectionSpec
deriving DecidableEq, Repr

/-- An entry of a Secret; a missing one reads as empty. -/
def Secret.entry (secret : Secret) (key : String) : String := (secret.data.get key).getD ""

def secretKeyUsername : String := "username"

def secretKeyPassword : String := "password"

def secretKeyClientID : String := "clientId"

def secretKeyClientSecret : String := "clientSecret"

def missingCredentials (secret : Secret) (first second grant : String) : String :=
  "credentials secret " ++ quote secret.name ++ " must provide " ++ quote first ++ " and " ++
    quote second ++ " for " ++ grant ++ " authentication"

/-- The configuration for a connection and its credentials. -/
def clientConfig (conn : KeycloakConnection) (secret : Secret) : Except String Config :=
  let cfg : Config :=
    { url := conn.spec.url
      adminRealm := conn.spec.realm
      insecureSkipVerify := conn.spec.insecureSkipVerify.getD false }
  match conn.spec.auth.getD .password with
  | .client =>
      let clientID := secret.entry secretKeyClientID
      let clientSecret := secret.entry secretKeyClientSecret
      if clientID = "" ∨ clientSecret = "" then
        .error (missingCredentials secret secretKeyClientID secretKeyClientSecret "client")
      else .ok { cfg with auth := some .client, clientID := clientID, clientSecret := clientSecret }
  | .password =>
      let username := secret.entry secretKeyUsername
      let password := secret.entry secretKeyPassword
      if username = "" ∨ password = "" then
        .error (missingCredentials secret secretKeyUsername secretKeyPassword "password")
      else .ok { cfg with auth := some .password, username := username, password := password }

/-- The defaults that `New` fills in are already there. -/
theorem withDefaults_of_clientConfig {conn : KeycloakConnection} {secret : Secret} {cfg : Config}
    (h : clientConfig conn secret = .ok cfg) : cfg.withDefaults = cfg := by
  have hrealm := conn.spec.realm_ne_empty
  unfold clientConfig at h
  split at h <;> dsimp only at h <;> split at h <;> cases h <;>
    simp [Config.withDefaults, hrealm]

/-! ### Calls of the provider -/

/-- A client is known by its configuration, which never changes. -/
structure AdminClient where
  cfg : Config
deriving DecidableEq, Repr

/-- `New`. -/
def AdminClient.new (cfg : Config) : AdminClient := ⟨cfg.withDefaults⟩

structure CachedClient where
  kc : AdminClient
  connVersion : Nat
  secretVer : Nat
deriving DecidableEq, Repr

inductive ProviderOp where
  | getConnection (ns name : String)
  | getSecret (ns name : String)
  /-- the critical section that drops an entry -/
  | forget (key : String)
  /-- the critical section that looks an entry up -/
  | lookup (key : String)
  /-- the critical section that stores an entry -/
  | store (key : String) (entry : CachedClient)
deriving DecidableEq

abbrev ProviderOp.Answer : ProviderOp → Type
  | .getConnection _ _ => Except KubeErr KeycloakConnection
  | .getSecret _ _ => Except KubeErr Secret
  | .forget _ => Unit
  | .lookup _ => Option CachedClient
  | .store _ _ => Unit

/-- The call reads an object. -/
def ProviderOp.isRead : ProviderOp → Bool
  | .getConnection _ _ => true
  | .getSecret _ _ => true
  | _ => false

abbrev providerOperations : Signature := ⟨ProviderOp, ProviderOp.Answer⟩

abbrev ProviderCall (α : Type) : Type := Prog providerOperations α

def ProviderCall.perform (op : ProviderOp) : ProviderCall op.Answer :=
  Prog.perform (S := providerOperations) op

def connectionKey (ns name : String) : String := ns ++ "/" ++ name

/-- `Provider.For`. -/
def providerFor (ns name : String) : ProviderCall (Except String AdminClient) := do
  match ← ProviderCall.perform (.getConnection ns name) with
  | .error err =>
      if err.notFound then
        ProviderCall.perform (.forget (connectionKey ns name))
      return .error ("get keycloak connection " ++ connectionKey ns name ++ ": " ++ err.text)
  | .ok conn =>
      match ← ProviderCall.perform (.getSecret ns conn.spec.credentialsSecretRef) with
      | .error err =>
          return .error ("get credentials secret " ++
            connectionKey ns conn.spec.credentialsSecretRef ++ ": " ++ err.text)
      | .ok secret =>
          let cached ← ProviderCall.perform (.lookup (connectionKey ns name))
          match cached.filter fun entry => entry.connVersion = conn.resourceVersion ∧
              entry.secretVer = secret.resourceVersion with
          | some entry => return .ok entry.kc
          | none =>
              match clientConfig conn secret with
              | .error err => return .error err
              | .ok cfg =>
                  let kc := AdminClient.new { cfg with connectionName := connectionKey ns name }
                  ProviderCall.perform (.store (connectionKey ns name)
                    ⟨kc, conn.resourceVersion, secret.resourceVersion⟩)
                  return .ok kc

/-! ### The cluster -/

/-- What each version of each object holds: equal versions of one object have equal
    contents. -/
structure Ledger where
  connection : String → String → Nat → KeycloakConnection
  secret : String → String → Nat → Secret
  connection_version : ∀ ns name version, (connection ns name version).resourceVersion = version
  secret_version : ∀ ns name version, (secret ns name version).resourceVersion = version

/-- The cache, and the versions that a read finds.  The name of a namespace has no slash. -/
structure ProviderState where
  byName : String → Option CachedClient
  connections : String → String → Option Nat
  secrets : String → String → Option Nat
  namespaces : ∀ ns name version, connections ns name = some version → '/' ∉ ns.toList

/-- A read returns the version of the moment or fails; a critical section is atomic. -/
def ProviderApi (ledger : Ledger) : Env providerOperations ProviderState := fun op s answer s' =>
  match op, answer with
  | .getConnection ns name, answer => s' = s ∧
      ((∃ version, s.connections ns name = some version ∧
        answer = .ok (ledger.connection ns name version)) ∨ ∃ err, answer = .error err)
  | .getSecret ns name, answer => s' = s ∧
      ((∃ version, s.secrets ns name = some version ∧
        answer = .ok (ledger.secret ns name version)) ∨ ∃ err, answer = .error err)
  | .forget key, _ => s' = { s with byName := Function.update s.byName key none }
  | .lookup key, answer => s' = s ∧ answer = s.byName key
  | .store key entry, _ => s' = { s with byName := Function.update s.byName key (some entry) }

/-- Connections and Secrets change in any way; only the provider touches the cache. -/
def ObjectsChange (s t : ProviderState) : Prop := t.byName = s.byName

/-! ### Keys -/

/-- The key of a connection names its namespace and its name. -/
theorem connectionKey_inj {ns ns' name name' : String} (hns : '/' ∉ ns.toList)
    (hns' : '/' ∉ ns'.toList) (h : connectionKey ns name = connectionKey ns' name') :
    ns = ns' ∧ name = name' := by
  have htake : ∀ {first rest : List Char}, '/' ∉ first →
      (first ++ '/' :: rest).takeWhile (· ≠ '/') = first := by
    intro first rest hfirst
    rw [List.takeWhile_append_of_pos]
    · simp
    · intro c hc
      simp only [decide_eq_true_eq]
      rintro rfl
      exact hfirst hc
  have hlist : ns.toList ++ '/' :: name.toList = ns'.toList ++ '/' :: name'.toList := by
    simpa [connectionKey] using congrArg String.toList h
  have hsame : ns.toList = ns'.toList := by
    calc ns.toList = (ns.toList ++ '/' :: name.toList).takeWhile (· ≠ '/') := (htake hns).symm
      _ = (ns'.toList ++ '/' :: name'.toList).takeWhile (· ≠ '/') := by rw [hlist]
      _ = ns'.toList := htake hns'
  rw [hsame, List.append_cancel_left_eq, List.cons.injEq] at hlist
  exact ⟨String.toList_inj.mp hsame, String.toList_inj.mp hlist.2⟩

/-! ### What the cache holds -/

section Cache

variable {ledger : Ledger} {s t u : ProviderState} {ns name : String}

/-- The client of a connection and a Secret. -/
def Configures (ns name : String) (conn : KeycloakConnection) (secret : Secret) (kc : AdminClient) :
    Prop :=
  ∃ cfg, clientConfig conn secret = .ok cfg ∧
    kc.cfg = { cfg with connectionName := connectionKey ns name }

/-- An entry is what its versions give. -/
def CachedClient.Built (ledger : Ledger) (key : String) (entry : CachedClient) : Prop :=
  ∃ ns name, '/' ∉ ns.toList ∧ key = connectionKey ns name ∧
    let conn := ledger.connection ns name entry.connVersion
    Configures ns name conn (ledger.secret ns conn.spec.credentialsSecretRef entry.secretVer) entry.kc

def ProviderState.Sound (ledger : Ledger) (s : ProviderState) : Prop :=
  ∀ key entry, s.byName key = some entry → entry.Built ledger key

/-- What a call relies on: the others store what they have read. -/
def KeepsSound (ledger : Ledger) (s t : ProviderState) : Prop := s.Sound ledger → t.Sound ledger

/-- What a call guarantees. -/
def StoresBuilt (ledger : Ledger) : ProviderOp → ProviderState → Prop
  | .store key entry, _ => entry.Built ledger key
  | _, _ => True

theorem sound_of_reflTransGen (h : Relation.ReflTransGen (KeepsSound ledger) s t)
    (hs : s.Sound ledger) : t.Sound ledger := by
  induction h with
  | refl => exact hs
  | tail _ hstep ih => exact hstep ih

theorem keepsSound_of_objectsChange (h : ObjectsChange s t) : KeepsSound ledger s t := by
  intro hs key entry hentry
  rw [show t.byName = s.byName from h] at hentry
  exact hs key entry hentry

theorem keepsSound_of_providerApi {op : ProviderOp} {answer : op.Answer}
    (hguard : StoresBuilt ledger op s) (h : ProviderApi ledger op s answer t) :
    KeepsSound ledger s t := by
  intro hs key entry hentry
  cases op with
  | getConnection => exact hs key entry (h.1 ▸ hentry)
  | getSecret => exact hs key entry (h.1 ▸ hentry)
  | lookup => exact hs key entry (h.1 ▸ hentry)
  | forget dropped =>
    obtain rfl := h
    by_cases hkey : key = dropped
    · subst hkey
      simp at hentry
    · exact hs key entry (by simpa [hkey] using hentry)
  | store stored new =>
    obtain rfl := h
    by_cases hkey : key = stored
    · subst hkey
      simp only [Function.update_self, Option.some.injEq] at hentry
      exact hentry ▸ hguard
    · exact hs key entry (by simpa [hkey] using hentry)

theorem configures_new {conn : KeycloakConnection} {secret : Secret} {cfg : Config}
    (h : clientConfig conn secret = .ok cfg) :
    Configures ns name conn secret
      (AdminClient.new { cfg with connectionName := connectionKey ns name }) := by
  refine ⟨cfg, h, ?_⟩
  have hdefaults := withDefaults_of_clientConfig h
  calc (Config.withDefaults { cfg with connectionName := connectionKey ns name })
      = { cfg.withDefaults with connectionName := connectionKey ns name } := rfl
    _ = { cfg with connectionName := connectionKey ns name } := by rw [hdefaults]

/-- A call stores only what it has made of the versions that it has read. -/
theorem wp_providerFor (ns name : String) (s : ProviderState) :
    wp ((ProviderApi ledger).interleaved (KeepsSound ledger))
      (steady (KeepsSound ledger) (StoresBuilt ledger)) (providerFor ns name)
      (fun _ _ => True) s := by
  refine ⟨fun _ _ => trivial, fun answer u hstep => ?_⟩
  obtain ⟨v, -, rfl, ⟨version, hversion, rfl⟩ | ⟨err, rfl⟩⟩ := hstep
  case inr =>
    simp only [Prog.bind]
    split
    · exact ⟨fun _ _ => trivial, fun _ _ _ => trivial⟩
    · trivial
  have hns := u.namespaces ns name version hversion
  refine ⟨fun _ _ => trivial, fun answer v hstep => ?_⟩
  obtain ⟨w, -, rfl, ⟨secretVer, -, rfl⟩ | ⟨err, rfl⟩⟩ := hstep
  case inr => trivial
  refine ⟨fun _ _ => trivial, fun cached w _ => ?_⟩
  simp only [Prog.bind]
  split
  · trivial
  split
  · trivial
  · next cfg hcfg =>
    refine ⟨fun _ _ => ⟨ns, name, hns, rfl, ?_⟩, fun _ _ _ => trivial⟩
    dsimp only
    rw [ledger.connection_version, ledger.secret_version]
    exact configures_new hcfg

/-- What a call returns, for the two objects it has read. -/
theorem exec_providerFor {steps : List (Step providerOperations ProviderState)} {kc : AdminClient}
    (hs : s.Sound ledger)
    (h : Exec ((ProviderApi ledger).interleaved (KeepsSound ledger)) (providerFor ns name) s steps t
      (some (.ok kc))) :
    ∃ conn secret rest, steps.map Step.exchange = ⟨.getConnection ns name, .ok conn⟩ ::
        ⟨.getSecret ns conn.spec.credentialsSecretRef, .ok secret⟩ :: rest ∧
      (∀ exchange ∈ rest, exchange.1.isRead = false) ∧ Configures ns name conn secret kc := by
  obtain ⟨answer, u, rest, hstep, rfl, hread⟩ := h.call_returned
  obtain ⟨_, hmoved, rfl, ⟨version, hversion, rfl⟩ | ⟨err, rfl⟩⟩ := hstep
  case inr =>
    -- a connection that cannot be read gives no client
    simp only [Prog.bind] at hread
    split at hread
    · obtain ⟨_, _, _, -, rfl, hforgot⟩ := hread.call_returned
      cases hforgot
    · cases hread
  have hu := sound_of_reflTransGen hmoved hs
  have hns := u.namespaces ns name version hversion
  obtain ⟨answer, v, rest, hstep, rfl, hboth⟩ := hread.call_returned
  obtain ⟨_, hmoved, rfl, ⟨secretVer, -, rfl⟩ | ⟨err, rfl⟩⟩ := hstep
  case inr => cases hboth
  have hv := sound_of_reflTransGen hmoved hu
  obtain ⟨cached, w, rest, ⟨_, hmoved, rfl, rfl⟩, rfl, hlooked⟩ := hboth.call_returned
  have hw := sound_of_reflTransGen hmoved hv
  simp only [Prog.bind] at hlooked
  split at hlooked
  · next entry hentry =>
    -- the entry was built from versions with the contents that this call has read
    cases hlooked
    obtain ⟨hcached, hversions⟩ := Option.filter_eq_some_iff.mp hentry
    simp only [ledger.connection_version, ledger.secret_version, decide_eq_true_eq] at hversions
    obtain ⟨ns', name', hns', hkey, hbuilt⟩ := hw _ entry hcached
    obtain ⟨rfl, rfl⟩ := connectionKey_inj hns hns' hkey
    rw [hversions.1, hversions.2] at hbuilt
    exact ⟨_, _, _, rfl, by simp [Step.exchange, ProviderOp.isRead], hbuilt⟩
  split at hlooked
  · cases hlooked
  · next cfg hcfg =>
    obtain ⟨_, _, rest, -, rfl, hstored⟩ := hlooked.call_returned
    cases hstored
    exact ⟨_, _, _, rfl, by simp [Step.exchange, ProviderOp.isRead], configures_new hcfg⟩

end Cache

/-- **No stale credentials.**  Whatever else happens: a call that returns a client has read one
    version of the connection and one of the Secret that it names, and nothing else, and the
    client has the configuration of these two. -/
theorem connection_cache_fresh {ι : Type} [DecidableEq ι] {ledger : Ledger}
    {calls : ι → String × String} {s t : ProviderState}
    {events : List (Event ι providerOperations ProviderState)}
    {left : ι → ProviderCall (Except String AdminClient)} (hempty : s.byName = fun _ => none)
    (h : Interleaving (ProviderApi ledger) ObjectsChange
      (fun i => providerFor (calls i).1 (calls i).2) s events left t)
    (i : ι) (kc : AdminClient) (hreturned : left i = .ret (.ok kc)) :
    ∃ conn secret rest, (own i events).map Step.exchange =
        ⟨.getConnection (calls i).1 (calls i).2, .ok conn⟩ ::
        ⟨.getSecret (calls i).1 conn.spec.credentialsSecretRef, .ok secret⟩ :: rest ∧
      (∀ exchange ∈ rest, exchange.1.isRead = false) ∧
      Configures (calls i).1 (calls i).2 conn secret kc := by
  have hs : s.Sound ledger := by
    intro key entry hentry
    rw [hempty] at hentry
    cases hentry
  obtain ⟨hguarded, -⟩ := h.guarded (KeepsSound ledger) (fun _ => StoresBuilt ledger)
    (fun _ _ => keepsSound_of_objectsChange)
    (fun _ _ _ _ _ hguard hstep => keepsSound_of_providerApi hguard hstep)
    (fun i => wp_providerFor _ _ s)
  have hkept : ∀ event ∈ events, KeepsSound ledger event.step.before event.step.after :=
    fun event hevent =>
      keepsSound_of_providerApi (hguarded event hevent) (h.env_of_mem event hevent)
  obtain ⟨steps, u, hleaves, -, hsame⟩ :=
    h.leaves (KeepsSound ledger) (fun _ _ => keepsSound_of_objectsChange) hkept i
  rw [hreturned] at hleaves
  rw [← hsame]
  exact exec_providerFor hs hleaves.exec

/-- One connection, whose password was changed once. -/
def rotated : Ledger where
  connection := fun _ _ version => ⟨version, { url := "https://keycloak.example.com",
                                               credentialsSecretRef := "admin" }⟩
  secret := fun ns name version =>
    { ns := ns, name := name, controllers := [], resourceVersion := version
      data := .ofList [("username", "admin"), ("password", if version = 0 then "old" else "new")] }
  connection_version := fun _ _ _ => rfl
  secret_version := fun _ _ _ => rfl

/-- The cache is empty, the connection is there, and its Secret has the given version. -/
def rotatedState (version : Nat) : ProviderState where
  byName := fun _ => none
  connections := fun ns name => if ns = "apps" ∧ name = "main" then some 0 else none
  secrets := fun ns name => if ns = "apps" ∧ name = "admin" then some version else none
  namespaces := by
    intro ns name version h
    split at h
    · next hmain =>
      rw [hmain.1]
      decide
    · cases h

def rotatedClient (password : String) : AdminClient :=
  ⟨{ connectionName := "apps/main", url := "https://keycloak.example.com", adminRealm := "master"
     auth := some .password, username := "admin", password := password }⟩

/-- An older call reads the old password and a newer one the new; the older one stores its
    client last. -/
theorem older_call_overwrites :
    ∃ events left t, Interleaving (ProviderApi rotated) ObjectsChange
        (fun _ : Bool => providerFor "apps" "main") (rotatedState 0) events left t ∧
      t.byName "apps/main" = some ⟨rotatedClient "old", 0, 0⟩ ∧
      left true = .ret (.ok (rotatedClient "new")) ∧
      ∃ conn secret rest, (own true events).map Step.exchange =
          ⟨.getConnection "apps" "main", .ok conn⟩ ::
          ⟨.getSecret "apps" conn.spec.credentialsSecretRef, .ok secret⟩ :: rest ∧
        (∀ exchange ∈ rest, exchange.1.isRead = false) ∧
        Configures "apps" "main" conn secret (rotatedClient "new") := by
  let old := rotatedState 0
  let new := rotatedState 1
  let newer : ProviderState := { new with
    byName := Function.update new.byName "apps/main" (some ⟨rotatedClient "new", 0, 1⟩) }
  let older : ProviderState := { newer with
    byName := Function.update newer.byName "apps/main" (some ⟨rotatedClient "old", 0, 0⟩) }
  have h₀ : Interleaving (ProviderApi rotated) ObjectsChange
      (fun _ : Bool => providerFor "apps" "main") old [] _ old := .start
  have h₁ := h₀.next false (.getConnection "apps" "main") (.ok (rotated.connection "apps" "main" 0))
    old rfl ⟨rfl, .inl ⟨0, rfl, rfl⟩⟩
  have h₂ := h₁.next false (.getSecret "apps" "admin") (.ok (rotated.secret "apps" "admin" 0))
    old rfl ⟨rfl, .inl ⟨0, rfl, rfl⟩⟩
  have hchange : ObjectsChange old new := rfl
  have h₃ := (h₂.move hchange).next true (.getConnection "apps" "main")
    (.ok (rotated.connection "apps" "main" 0)) new rfl ⟨rfl, .inl ⟨0, rfl, rfl⟩⟩
  have h₄ := h₃.next true (.getSecret "apps" "admin") (.ok (rotated.secret "apps" "admin" 1))
    new rfl ⟨rfl, .inl ⟨1, rfl, rfl⟩⟩
  have h₅ := h₄.next true (.lookup "apps/main") none new rfl ⟨rfl, rfl⟩
  have h₆ := h₅.next true (.store "apps/main" ⟨rotatedClient "new", 0, 1⟩) () newer rfl rfl
  have h₇ := h₆.next false (.lookup "apps/main") (some ⟨rotatedClient "new", 0, 1⟩) newer rfl
    ⟨rfl, rfl⟩
  have h₈ := h₇.next false (.store "apps/main" ⟨rotatedClient "old", 0, 0⟩) () older rfl rfl
  exact ⟨_, _, _, h₈, rfl, rfl,
    @connection_cache_fresh Bool _ rotated (fun _ => ("apps", "main")) _ _ _ _ rfl h₈ true _ rfl⟩

end KeycloakOperator
