import KeycloakOperator.Conditions
import KeycloakOperator.ConnectionCache
import KeycloakOperator.Simulation

/-!
# The controller of connections (`internal/controller/keycloakconnection_controller.go`)

A pass over a KeycloakConnection asks the provider for a client and the client for a token, reads
the version of the server if it can, and reports what it has found twice: in the status of the
resource, and in two gauges (`internal/metrics/metrics.go`).  Whether the connection is up is decided
by the token alone.

The two reports agree after every pass, once a pass has found the connection up and as long as the
status patches are accepted: `connection_reports_agree`.  A pass that finds the connection down leaves
the version in both.  The agreement ends when the connection is deleted and created again, with an
empty status and the old gauges, until a pass finds it up once more.
-/

namespace KeycloakOperator

open Prog

/-! ### Connections and their reports -/

/-- Revalidation of a connection that is up. -/
def connectionRetryInterval : Nat := 300 * second

structure ConnectionStatus where
  conditions : List Condition := []
  observedGeneration : Nat := 0
  serverVersion : String := ""
deriving DecidableEq

/-- A KeycloakConnection as far as its controller itself reads it. -/
structure ConnectionObject where
  generation : Nat
  status : ConnectionStatus := {}
deriving DecidableEq

/-- `types.NamespacedName`. -/
structure NamespacedName where
  ns : String
  name : String
deriving DecidableEq, Repr

inductive ConnectionOp where
  | get (key : NamespacedName)
  /-- an operation of `Provider.For` -/
  | provider (op : ProviderOp)
  /-- an operation of the client -/
  | client (op : ClientOp)
  | now
  /-- `Status().Patch` with `client.MergeFrom(base)` -/
  | patchStatus (key : NamespacedName) (base conn : ConnectionObject)
  /-- `metrics.ConnectionUp` -/
  | setUp (key : NamespacedName) (up : Bool)
  /-- `metrics.ServerInfo.DeletePartialMatch` -/
  | dropVersions (key : NamespacedName)
  /-- `metrics.ServerInfo` -/
  | setVersion (key : NamespacedName) (version : String)

abbrev ConnectionOp.Answer : ConnectionOp → Type
  | .get _ => Except KubeErr ConnectionObject
  | .provider op => op.Answer
  | .client op => op.Answer Object
  | .now => Nat
  | .patchStatus _ _ _ => Except KubeErr Unit
  | .setUp _ _ => Unit
  | .dropVersions _ => Unit
  | .setVersion _ _ => Unit

abbrev connectionOperations : Signature := ⟨ConnectionOp, ConnectionOp.Answer⟩

abbrev ConnectionAction (α : Type) : Type := Prog connectionOperations α

namespace ConnectionAction

def perform (op : ConnectionOp) : ConnectionAction op.Answer :=
  Prog.perform (S := connectionOperations) op

def ofProvider (call : ProviderCall α) : ConnectionAction α :=
  call.translate fun op => perform (.provider op)

def ofClient (call : ClientCall Object α) : ConnectionAction α :=
  call.translate fun op => perform (.client op)

end ConnectionAction

open ConnectionAction (ofProvider ofClient)

/-! ### The pass -/

def setConnectionCondition (conn : ConnectionObject) (status : ConditionStatus) (reason : Reason)
    (message : String) (now : Nat) : ConnectionObject :=
  { conn with status := { conn.status with
      conditions := setStatusCondition ⟨.ready, status, conn.generation, reason, message, now⟩
        conn.status.conditions } }

/-- The version in the server information document. -/
def serverVersion (info : Object) : String :=
  (stringField (mapField info "systemInfo") "version").getD ""

/-- The arguments of `Do` in `ServerInfo`. -/
def serverInfoCall : AdminCall := { method := "GET", path := "/admin/serverinfo", out := true }

/-- Report that the connection cannot be used. -/
def reportDown (key : NamespacedName) (conn : ConnectionObject) (reason : Reason) (message : String) :
    ConnectionAction (Except KubeErr Nat) := do
  let now ← ConnectionAction.perform .now
  let _ ← ConnectionAction.perform
    (.patchStatus key conn (setConnectionCondition conn .false reason message now))
  ConnectionAction.perform (.setUp key false)
  return .ok connectionRetry

/-- Write the status of a connection that is up. -/
def reportReady (key : NamespacedName) (base : ConnectionObject) (version : String) :
    ConnectionAction (Except KubeErr Nat) := do
  let conn := { base with status := { base.status with serverVersion := version } }
  let now ← ConnectionAction.perform .now
  match ← ConnectionAction.perform (.patchStatus key base
      (setConnectionCondition conn .true .succeeded ("Connected to Keycloak " ++ version) now)) with
  | .error err => if err.notFound then return .ok connectionRetryInterval else return .error err
  | .ok () => return .ok connectionRetryInterval

/-- Report that the connection is up, with the version of the server if it is known. -/
def reportUp (key : NamespacedName) (base : ConnectionObject) (version : String) :
    ConnectionAction (Except KubeErr Nat) := do
  ConnectionAction.perform (.setUp key true)
  -- drop stale version series when the server is upgraded
  ConnectionAction.perform (.dropVersions key)
  if version ≠ "" then
    ConnectionAction.perform (.setVersion key version)
  reportReady key base version

/-- What `ServerInfo` tells about the version: nothing when it fails. -/
def versionOf : Except RequestError (Option Object) → String
  | .ok info => serverVersion (info.getD ∅)
  | .error _ => ""

/-- What a pass does once it has read the connection. -/
def reconcileRead (key : NamespacedName) (conn : ConnectionObject) :
    ConnectionAction (Except KubeErr Nat) := do
  match ← ofProvider (providerFor key.ns key.name) with
  | .error unavailable => reportDown key conn .connectionUnavailable unavailable
  | .ok kc =>
      match (← ConnectionAction.perform (.client (.token kc.cfg.tokenRequest))).result with
      | .error err =>
          reportDown key conn (if err.kind = .auth then .connectionUnavailable else .retrying)
            err.text
      | .ok _ =>
          let info ← ofClient (doRequest kc.cfg serverInfoCall)
          reportUp key conn (versionOf info)

/-- `KeycloakConnectionReconciler.Reconcile`: the interval after which the connection is looked at
    again, or an error. -/
def reconcileConnection (key : NamespacedName) : ConnectionAction (Except KubeErr Nat) := do
  match ← ConnectionAction.perform (.get key) with
  | .error err => if err.notFound then return .ok 0 else return .error err
  | .ok conn => reconcileRead key conn

/-! ### The cluster -/

/-- The stored connections and the two gauges. -/
structure ConnectionState where
  stored : NamespacedName → Option ConnectionObject
  up : NamespacedName → Option Bool
  versions : NamespacedName → Finset String

open Function (update)

/-- A merge patch changes the fields that differ between the two versions of the caller. -/
def ConnectionObject.patch (base conn stored : ConnectionObject) : ConnectionObject :=
  { stored with status :=
    { conditions := World.patched base.status.conditions conn.status.conditions
        stored.status.conditions
      observedGeneration := World.patched base.status.observedGeneration
        conn.status.observedGeneration stored.status.observedGeneration
      serverVersion := World.patched base.status.serverVersion conn.status.serverVersion
        stored.status.serverVersion } }

/-- A patch is accepted. -/
def ConnectionState.Patched (key : NamespacedName) (base conn : ConnectionObject)
    (s s' : ConnectionState) : Prop :=
  ∃ old, s.stored key = some old ∧
    s' = { s with stored := update s.stored key (some (base.patch conn old)) }

/-- Every call may fail, a patch before or after it took effect; the provider, the token endpoint and
    the server answer in every way. -/
def ConnectionApi : Env connectionOperations ConnectionState := fun op s answer s' =>
  match op, answer with
  | .get key, answer => s' = s ∧
      ((∃ conn, s.stored key = some conn ∧ answer = .ok conn) ∨ ∃ err, answer = .error err)
  | .provider _, _ => s' = s
  | .client _, _ => s' = s
  | .now, _ => s' = s
  | .patchStatus key base conn, answer =>
      s.Patched key base conn s' ∨ ((∃ err, answer = .error err) ∧ s' = s)
  | .setUp key up, _ => s' = { s with up := update s.up key (some up) }
  | .dropVersions key, _ => s' = { s with versions := update s.versions key ∅ }
  | .setVersion key version, _ =>
      s' = { s with versions := update s.versions key (insert version (s.versions key)) }

/-! ### The two reports -/

section Reports

variable {key : NamespacedName} {s t : ConnectionState}

/-- What others do: passes over other connections, and users who edit or delete this one and do not
    create it again.  Its gauges and its status belong to its passes. -/
def Elsewhere (key : NamespacedName) (s t : ConnectionState) : Prop :=
  t.up key = s.up key ∧ t.versions key = s.versions key ∧
    ∀ conn, t.stored key = some conn → ∃ old, s.stored key = some old ∧ conn.status = old.status

/-- The version series of a server version; there is none for an unknown version. -/
def versionSeries (version : String) : Finset String := if version = "" then ∅ else {version}

/-- The gauges say what the status says. -/
def Agreement (status : ConnectionStatus) (up : Option Bool) (versions : Finset String) : Prop :=
  (conditionStatus status.conditions .ready = some .true ↔ up = some true) ∧
    versions = versionSeries status.serverVersion

/-- The two reports about a connection agree. -/
def ConnectionState.Agrees (key : NamespacedName) (s : ConnectionState) : Prop :=
  ∀ conn, s.stored key = some conn → Agreement conn.status (s.up key) (s.versions key)

/-- What is reported about a connection: the gauges, and the status unless it is gone. -/
structure ConnectionState.Reports (key : NamespacedName) (status : ConnectionStatus)
    (up : Option Bool) (versions : Finset String) (s : ConnectionState) : Prop where
  up_eq : s.up key = up
  versions_eq : s.versions key = versions
  status_eq : ∀ conn, s.stored key = some conn → conn.status = status

variable {status : ConnectionStatus} {up : Option Bool} {versions : Finset String}

theorem ConnectionState.Reports.agrees (h : s.Reports key status up versions)
    (hagreement : Agreement status up versions) : s.Agrees key := by
  intro conn hconn
  rw [h.up_eq, h.versions_eq, h.status_eq conn hconn]
  exact hagreement

theorem ConnectionState.Agrees.elsewhere (h : s.Agrees key)
    (hmoves : Relation.ReflTransGen (Elsewhere key) s t) : t.Agrees key := by
  induction hmoves with
  | refl => exact h
  | tail _ hmove ih =>
    obtain ⟨hup, hversions, hstored⟩ := hmove
    intro conn hconn
    obtain ⟨old, hold, hstatus⟩ := hstored conn hconn
    rw [hup, hversions, hstatus]
    exact ih old hold

theorem ConnectionState.Reports.elsewhere (h : s.Reports key status up versions)
    (hmoves : Relation.ReflTransGen (Elsewhere key) s t) : t.Reports key status up versions := by
  induction hmoves with
  | refl => exact h
  | tail _ hmove ih =>
    obtain ⟨hup, hversions, hstored⟩ := hmove
    refine ⟨hup.trans ih.up_eq, hversions.trans ih.versions_eq, fun conn hconn => ?_⟩
    obtain ⟨old, hold, hstatus⟩ := hstored conn hconn
    exact hstatus.trans (ih.status_eq old hold)

/-- The step is no patch, or one that was accepted. -/
def PatchAccepted (step : Step connectionOperations ConnectionState) : Prop :=
  match step with
  | ⟨_, .patchStatus _ _ _, answer, _⟩ => answer = .ok ()
  | _ => True

/-- The cluster during a pass over `key` in which every patch is accepted. -/
abbrev Accepting (key : NamespacedName) : Env connectionOperations ConnectionState :=
  (ConnectionApi.interleaved (Elsewhere key)).within PatchAccepted

/-- The operation reports nothing. -/
def ConnectionOp.Quiet : ConnectionOp → Prop
  | .get _ => True
  | .provider _ => True
  | .client _ => True
  | .now => True
  | _ => False

theorem ConnectionOp.quiet_now : ConnectionOp.now.Quiet := trivial

theorem ConnectionOp.quiet_client (op : ClientOp) : (ConnectionOp.client op).Quiet := trivial

theorem ConnectionState.Reports.step {op : ConnectionOp} {answer : op.Answer}
    (h : s.Reports key status up versions) (hstep : Accepting key op s answer t) :
    ∃ z : ConnectionState, z.Reports key status up versions ∧ ConnectionApi op z answer t :=
  let ⟨⟨z, hmoves, hstep⟩, _⟩ := hstep
  ⟨z, h.elsewhere hmoves, hstep⟩

theorem reports_quiet {op : ConnectionOp} {answer : op.Answer} (hop : op.Quiet)
    (h : s.Reports key status up versions) (hstep : Accepting key op s answer t) :
    t.Reports key status up versions := by
  obtain ⟨z, hz, hstep⟩ := h.step hstep
  cases op with
  | get key => exact hstep.1 ▸ hz
  | provider op => exact (show t = z from hstep) ▸ hz
  | client op => exact (show t = z from hstep) ▸ hz
  | now => exact (show t = z from hstep) ▸ hz
  | _ => exact hop.elim

/-- An accepted patch stores the status as the pass has it. -/
theorem reports_patch {base conn : ConnectionObject} {answer : Except KubeErr Unit}
    (h : s.Reports key base.status up versions)
    (hstep : Accepting key (.patchStatus key base conn) s answer t) :
    t.Reports key conn.status up versions := by
  obtain ⟨⟨z, hmoves, hstep⟩, haccepted⟩ := hstep
  have hz := h.elsewhere hmoves
  have haccepted : answer = .ok () := haccepted
  rcases hstep with ⟨old, hold, rfl⟩ | ⟨⟨err, herr⟩, -⟩
  · refine ⟨hz.up_eq, hz.versions_eq, fun new hnew => ?_⟩
    simp only [Function.update_self, Option.some.injEq] at hnew
    have hpatched : ∀ {α : Type} [DecidableEq α] (a b : α), World.patched a b a = b := by
      intro α _ a b
      unfold World.patched
      split
      · assumption
      · rfl
    rw [← hnew, ConnectionObject.patch, hz.status_eq old hold]
    simp only [hpatched]
  · rw [haccepted] at herr
    cases herr

theorem reports_setUp {value : Bool} {answer : Unit} (h : s.Reports key status up versions)
    (hstep : Accepting key (.setUp key value) s answer t) :
    t.Reports key status (some value) versions := by
  obtain ⟨z, hz, rfl⟩ := h.step hstep
  exact ⟨Function.update_self .., hz.versions_eq, hz.status_eq⟩

theorem reports_dropVersions {answer : Unit} (h : s.Reports key status up versions)
    (hstep : Accepting key (.dropVersions key) s answer t) : t.Reports key status up ∅ := by
  obtain ⟨z, hz, rfl⟩ := h.step hstep
  exact ⟨hz.up_eq, Function.update_self .., hz.status_eq⟩

theorem reports_setVersion {version : String} {answer : Unit} (h : s.Reports key status up versions)
    (hstep : Accepting key (.setVersion key version) s answer t) :
    t.Reports key status up (insert version versions) := by
  obtain ⟨z, hz, rfl⟩ := h.step hstep
  exact ⟨hz.up_eq, by simp [hz.versions_eq], hz.status_eq⟩

/-- What only asks the provider and the client reports nothing. -/
theorem wp_reports_quiet {α : Type} {p : ConnectionAction α} (hp : Only ConnectionOp.Quiet p)
    (h : s.Reports key status up versions) :
    wp (Accepting key) ⊤ p (fun _ t => t.Reports key status up versions) s :=
  wp_guard_mono (fun _ _ _ => trivial)
    (wp_of_only _ (fun _ _ _ _ hop hs hstep => reports_quiet hop hs hstep) hp h)

theorem conditionStatus_setConnectionCondition (conn : ConnectionObject) (status : ConditionStatus)
    (reason : Reason) (message : String) (now : Nat) :
    conditionStatus (setConnectionCondition conn status reason message now).status.conditions .ready =
      some status := by
  obtain ⟨time, hfind⟩ := findStatusCondition_set
    ⟨.ready, status, conn.generation, reason, message, now⟩ conn.status.conditions
  simp only [setConnectionCondition, conditionStatus]
  rw [hfind]
  rfl

/-- A connection that is down keeps its version in both reports. -/
theorem wp_reportDown {conn : ConnectionObject} {reason : Reason} {message : String}
    (h : s.Reports key conn.status up versions) :
    wp (Accepting key) ⊤ (reportDown key conn reason message)
      (fun result t => result = .ok connectionRetry ∧
        (Agreement conn.status up versions → t.Agrees key)) s := by
  refine ⟨trivial, fun now t₁ hstep₁ => ?_⟩
  have h₁ := reports_quiet ConnectionOp.quiet_now h hstep₁
  refine ⟨trivial, fun _ t₂ hstep₂ => ?_⟩
  have h₂ := reports_patch h₁ hstep₂
  refine ⟨trivial, fun _ t₃ hstep₃ => ⟨rfl, fun hagreement => ?_⟩⟩
  refine (reports_setUp h₂ hstep₃).agrees ⟨?_, hagreement.2⟩
  rw [conditionStatus_setConnectionCondition]
  simp

theorem wp_reportReady {base : ConnectionObject} {version : String}
    (h : s.Reports key base.status (some true) (versionSeries version)) :
    wp (Accepting key) ⊤ (reportReady key base version) (fun _ t => t.Agrees key)
      s := by
  refine ⟨trivial, fun now t₁ hstep₁ => ?_⟩
  have h₁ := reports_quiet ConnectionOp.quiet_now h hstep₁
  refine ⟨trivial, fun answer t₂ hstep₂ => ?_⟩
  have h₂ := reports_patch h₁ hstep₂
  obtain rfl : answer = .ok () := hstep₂.2
  refine h₂.agrees ⟨?_, rfl⟩
  rw [conditionStatus_setConnectionCondition]
  exact iff_of_true rfl rfl

/-- A connection that is up is reported anew. -/
theorem wp_reportUp {base : ConnectionObject} {version : String}
    (h : s.Reports key base.status up versions) :
    wp (Accepting key) ⊤ (reportUp key base version)
      (fun _ t => t.Agrees key) s := by
  refine ⟨trivial, fun _ t₁ hstep₁ => ?_⟩
  have h₁ := reports_setUp h hstep₁
  refine ⟨trivial, fun _ t₂ hstep₂ => ?_⟩
  have h₂ := reports_dropVersions h₁ hstep₂
  simp only [Prog.bind]
  by_cases hknown : version = ""
  · simp only [hknown, ne_eq, not_true_eq_false, if_false]
    exact wp_reportReady (by simpa [versionSeries] using h₂)
  · simp only [hknown, ne_eq, not_false_eq_true, if_true]
    refine ⟨trivial, fun _ t₃ hstep₃ => ?_⟩
    have h₃ := reports_setVersion h₂ hstep₃
    exact wp_reportReady (by simpa [versionSeries, hknown] using h₃)

theorem quiet_ofProvider (call : ProviderCall α) : Only ConnectionOp.Quiet (ofProvider call) := by
  apply only_translate
  intro op
  exact ⟨trivial, fun _ => trivial⟩

theorem quiet_ofClient (call : ClientCall Object α) : Only ConnectionOp.Quiet (ofClient call) := by
  apply only_translate
  intro op
  exact ⟨trivial, fun _ => trivial⟩

theorem connectionRetry_ne : connectionRetry ≠ connectionRetryInterval := by decide

theorem wp_reconcileRead {conn : ConnectionObject} (h : s.Reports key conn.status up versions) :
    wp (Accepting key) ⊤ (reconcileRead key conn)
      (fun result t => (Agreement conn.status up versions → t.Agrees key) ∧
        (result = .ok connectionRetryInterval → t.Agrees key)) s := by
  have hdown : ∀ {reason message} {u : ConnectionState}, u.Reports key conn.status up versions →
      wp (Accepting key) ⊤ (reportDown key conn reason message)
        (fun result t => (Agreement conn.status up versions → t.Agrees key) ∧
          (result = .ok connectionRetryInterval → t.Agrees key)) u := by
    intro reason message u hu
    refine wp_mono (fun result t hend => ⟨hend.2, fun hresult => ?_⟩) (wp_reportDown hu)
    rw [hend.1] at hresult
    exact absurd (Except.ok.inj hresult) connectionRetry_ne
  unfold reconcileRead
  rw [wp_bind]
  refine wp_mono (fun answer t₁ h₁ => ?_) (wp_reports_quiet (quiet_ofProvider _) h)
  cases answer with
  | error unavailable => exact hdown h₁
  | ok kc =>
    refine ⟨trivial, fun token t₂ hstep => ?_⟩
    have h₂ := reports_quiet (ConnectionOp.quiet_client _) h₁ hstep
    simp only [Prog.bind]
    split
    · exact hdown h₂
    · rw [wp_bind]
      refine wp_mono (fun info t₃ h₃ => ?_) (wp_reports_quiet (quiet_ofClient _) h₂)
      exact wp_mono (fun _ t hend => ⟨fun _ => hend, fun _ => hend⟩) (wp_reportUp h₃)

/-- One pass: it keeps the agreement, and it brings it about when the connection is up. -/
theorem wp_reconcileConnection (key : NamespacedName) (s : ConnectionState) :
    wp (Accepting key) ⊤ (reconcileConnection key)
      (fun result t => (s.Agrees key → t.Agrees key) ∧
        (result = .ok connectionRetryInterval → t.Agrees key)) s := by
  refine ⟨trivial, fun answer t hstep => ?_⟩
  obtain ⟨⟨z, hmoves, rfl, hread⟩, -⟩ := hstep
  rcases hread with ⟨conn, hstored, rfl⟩ | ⟨err, rfl⟩
  · have hreports : t.Reports key conn.status (t.up key) (t.versions key) := by
      refine ⟨rfl, rfl, fun other hother => ?_⟩
      rw [hstored] at hother
      cases hother
      rfl
    refine wp_mono (fun result u hend => ⟨fun hs => hend.1 ?_, hend.2⟩) (wp_reconcileRead hreports)
    exact hs.elsewhere hmoves conn hstored
  · have hne : (0 : Nat) ≠ connectionRetryInterval := by decide
    simp only [Prog.bind]
    split
    · exact ⟨fun hs => hs.elsewhere hmoves, fun hresult => absurd (Except.ok.inj hresult) hne⟩
    · exact ⟨fun hs => hs.elsewhere hmoves, fun hresult => by cases hresult⟩

end Reports

/-- The connection of the cases below, and its client. -/
def mainKey : NamespacedName := ⟨"default", "main"⟩

def mainConnection : KeycloakConnection :=
  { resourceVersion := 1, spec := { url := demoConfig.url, credentialsSecretRef := "admin" } }

def mainSecret : Secret := ⟨"default", "admin", ∅, [], 1⟩

def mainClient : CachedClient := ⟨⟨demoConfig⟩, 1, 1⟩

/-- The server information of a server that tells its version, as text and decoded. -/
def mainBody : String := "\x7b\"systemInfo\":\x7b\"version\":\"26.0.1\"\x7d\x7d"

def mainInfo : Object :=
  .ofList [("systemInfo", .ofObject (.ofList [("version", .str "26.0.1")]))]

theorem reportUp_known {key : NamespacedName} {base : ConnectionObject} {version : String}
    (h : version ≠ "") : reportUp key base version = .call (.setUp key true) fun _ =>
      .call (.dropVersions key) fun _ => .call (.setVersion key version) fun _ =>
        reportReady key base version := by
  unfold reportUp
  simp only [if_pos h]
  rfl

/-- The connection is up, and its server tells its version. -/
theorem exec_up {s : ConnectionState} {conn : ConnectionObject} (h : s.stored mainKey = some conn) :
    ∃ steps t, Exec (Accepting mainKey) (reconcileConnection mainKey) s steps t
      (some (.ok connectionRetryInterval)) ∧ t.versions mainKey = {"26.0.1"} ∧
      ∃ conn, t.stored mainKey = some conn := by
  have h₀ : Leaves (Accepting mainKey) (reconcileConnection mainKey) s [] s _ := .refl _ _
  have h₁ := h₀.next (.get mainKey) (.ok conn) s rfl ⟨⟨_, .refl, rfl, .inl ⟨_, h, rfl⟩⟩, trivial⟩
  have h₂ := h₁.next (.provider (.getConnection "default" "main")) (.ok mainConnection) s rfl
    ⟨⟨_, .refl, rfl⟩, trivial⟩
  have h₃ := h₂.next (.provider (.getSecret "default" "admin")) (.ok mainSecret) s rfl
    ⟨⟨_, .refl, rfl⟩, trivial⟩
  have h₄ := h₃.next (.provider (.lookup "default/main")) (some mainClient) s rfl
    ⟨⟨_, .refl, rfl⟩, trivial⟩
  have h₅ := h₄.next (.client (.token _)) (tokenAnswer "token") s rfl ⟨⟨_, .refl, rfl⟩, trivial⟩
  have h₆ := h₅.next (.client (.token _)) (.cached "token") s rfl ⟨⟨_, .refl, rfl⟩, trivial⟩
  have h₇ := h₆.next (.client (.send ⟨"token", "GET", _, none⟩)) (.answered 200 mainBody (.ok mainInfo))
    s rfl ⟨⟨_, .refl, rfl⟩, trivial⟩
  have hversion : versionOf (serverInfoCall.result (.answered 200 mainBody (.ok mainInfo))) = "26.0.1" := by
    decide
  have h₈ := h₇.next (.setUp mainKey true) () _ (reportUp_known (by rw [hversion]; decide))
    ⟨⟨_, .refl, rfl⟩, trivial⟩
  have h₉ := h₈.next (.dropVersions mainKey) () _ rfl ⟨⟨_, .refl, rfl⟩, trivial⟩
  have h₁₀ := h₉.next (.setVersion mainKey _) () _ rfl ⟨⟨_, .refl, rfl⟩, trivial⟩
  have h₁₁ := h₁₀.next .now 7 _ rfl ⟨⟨_, .refl, rfl⟩, trivial⟩
  have h₁₂ := h₁₁.next (.patchStatus mainKey _ _) (.ok ()) _ rfl
    ⟨⟨_, .refl, .inl ⟨_, h, rfl⟩⟩, rfl⟩
  exact ⟨_, _, h₁₂.exec, by simp [hversion], by simp⟩

/-- The Secret of the connection is gone. -/
theorem exec_down {s : ConnectionState} {conn : ConnectionObject} (h : s.stored mainKey = some conn) :
    ∃ steps t, Exec (Accepting mainKey) (reconcileConnection mainKey) s steps t
      (some (.ok connectionRetry)) ∧ t.up mainKey = some false ∧ t.versions = s.versions := by
  have h₀ : Leaves (Accepting mainKey) (reconcileConnection mainKey) s [] s _ := .refl _ _
  have h₁ := h₀.next (.get mainKey) (.ok conn) s rfl ⟨⟨_, .refl, rfl, .inl ⟨_, h, rfl⟩⟩, trivial⟩
  have h₂ := h₁.next (.provider (.getConnection "default" "main")) (.ok mainConnection) s rfl
    ⟨⟨_, .refl, rfl⟩, trivial⟩
  have h₃ := h₂.next (.provider (.getSecret "default" "admin")) (.error ⟨true, "not found"⟩) s rfl
    ⟨⟨_, .refl, rfl⟩, trivial⟩
  have h₄ := h₃.next .now 9 _ rfl ⟨⟨_, .refl, rfl⟩, trivial⟩
  have h₅ := h₄.next (.patchStatus mainKey _ _) (.ok ()) _ rfl
    ⟨⟨_, .refl, .inl ⟨_, h, rfl⟩⟩, rfl⟩
  have h₆ := h₅.next (.setUp mainKey false) () _ rfl ⟨⟨_, .refl, rfl⟩, trivial⟩
  exact ⟨_, _, h₆.exec, by simp, rfl⟩

end KeycloakOperator
