import KeycloakOperator.Drivers

/-!
# The reconcile engine (`internal/controller/engine.go`)

One pass over a custom resource.  The object in memory is passed along explicitly:
every patch loads the stored object back into it.
-/

namespace KeycloakOperator

/-! ### Durations, in nanoseconds -/

def second : Nat := 1000000000

/-- The periodic drift-correction interval. -/
def defaultResync : Nat := 3600 * second

/-- The requeue interval while the connection or its credentials are unavailable. -/
def connectionRetry : Nat := 30 * second

/-- The requeue interval for recoverable terminal errors such as a missing
    Secret. -/
def secretRetry : Nat := 30 * second

structure Engine where
  resync : Nat
  resync_pos : 0 < resync
  /-- whether there is an event recorder -/
  recorder : Bool

def newEngine (recorder : Bool) (resync : Int) : Engine where
  resync := if resync ≤ 0 then defaultResync else resync.toNat
  resync_pos := by
    split
    · decide
    · omega
  recorder := recorder

/-- What a pass returns, with the object as it is in memory at the end. -/
structure Pass where
  requeueAfter : Nat := 0
  err : Option Err := none
  obj : ManagedObject
  /-- `finalize` was reached and returned without an error -/
  finalized : Bool := false

namespace Engine

/-! ### Status -/

def patchStatus (obj base : ManagedObject) : Action ManagedObject := do
  match ← perform (.patchStatus base obj) with
  -- the answer of the API server replaces the object in memory
  | .ok stored => return stored
  | .error _ => return obj

/-- Write one condition and patch the object status. -/
def setCondition (obj base : ManagedObject) (type : ConditionType) (status : ConditionStatus)
    (reason : Reason) (message : String) : Action ManagedObject := do
  let now ← perform .now
  let condition : Condition := ⟨type, status, obj.generation, reason, message, now⟩
  patchStatus { obj with status :=
    { obj.status with conditions := setStatusCondition condition obj.status.conditions } } base

/-- Write the Ready and the Synced condition, in this order. -/
def setConditions (obj base : ManagedObject) (status : ConditionStatus) (reason : Reason)
    (ready synced : String) : Action ManagedObject := do
  let obj ← setCondition obj base .ready status reason ready
  setCondition obj base .synced status reason synced

def record (e : Engine) (type : EventType) (reason message : String) : Action Unit :=
  if e.recorder then perform (.event type reason message) else return ()

/-- Mark the resource as failed.  The warning event is only recorded when the
    failure changes. -/
def fail (e : Engine) (obj base : ManagedObject) (reason : Reason) (message : String) :
    Action ManagedObject := do
  let changed := match findStatusCondition obj.status.conditions .ready with
    | none => true
    | some previous => decide (previous.reason ≠ reason ∨ previous.message ≠ message)
  let obj ← setConditions obj base .false reason message message
  if changed then
    e.record .warning reason.text message
  return obj

/-- A failure that ends the pass without an error. -/
def refuse (e : Engine) (obj base : ManagedObject) (reason : Reason) (message : String)
    (requeueAfter : Nat) : Action Pass := do
  return { obj := ← e.fail obj base reason message, requeueAfter := requeueAfter }

/-- A transient failure: both conditions are set and the error is returned. -/
def retry (obj base : ManagedObject) (err : Err) (synced : String) : Action Pass := do
  return { obj := ← setConditions obj base .false .retrying err.text synced, err := some err }

/-! ### The end of a successful pass -/

/-- Mark the resource ready and schedule the next drift-correction pass. -/
def succeed (e : Engine) (obj base : ManagedObject) (synced : Bool) : Action Pass := do
  let message := if synced then "Reconciliation succeeded" else "Server state matches spec"
  let obj ← setConditions obj base .true .succeeded message message
  return { obj := obj, requeueAfter := e.resync, finalized := true }

/-- Record the last-applied annotation and end the pass. -/
def finalize (e : Engine) (obj base : ManagedObject) (specMap : Object) (synced : Bool) :
    Action Pass := do
  let obj := { obj with status := { obj.status with observedGeneration := obj.generation } }
  if obj.lastApplied ≠ .marshalled specMap then
    let obj := { obj with lastApplied := .marshalled specMap }
    match ← perform (.patchObject base obj) with
    | .ok stored => e.succeed stored base synced
    | .error err => return { obj := obj, err := some err }
  else
    e.succeed obj base synced

/-! ### Creation -/

/-- `PostApply` and what follows it. -/
def settle (e : Engine) (drv : Driver) (kc : Conn) (obj base : ManagedObject) (remote : Object)
    (next : ManagedObject → Bool → Action Pass) : Action Pass := do
  let (obj, applied) ← drv.postApply kc obj remote
  match applied with
  | .error err => e.refuse obj base .failed err.text secretRetry
  | .ok changed => next obj changed

def handleCreate (e : Engine) (drv : Driver) (kc : Conn) (obj base : ManagedObject)
    (specMap payload : Object) : Action Pass := do
  match ← (drv.preparePayload obj payload).run with
  | .error err => e.refuse obj base .secretMissing err.text secretRetry
  | .ok payload =>
      match ← (drv.create kc (drv.managedMarker payload)).run with
      | .error err =>
          if err.kind = .conflict then
            e.refuse obj base .alreadyExists
              ("Resource appeared during reconciliation: " ++ err.text) 0
          else
            retry obj base err "Create failed"
      | .ok () =>
          e.record .normal "Created" ("Created " ++ obj.spec.kind.name ++ " on Keycloak server")
          match ← (drv.get kc).run with
          | .error err =>
              return { obj := ← setCondition obj base .ready .false .retrying err.text,
                       err := some err }
          | .ok remote =>
              e.settle drv kc obj base remote fun obj _ => e.finalize obj base specMap true

/-! ### Existing resources -/

/-- The marker, or a last-applied annotation from an earlier pass. -/
def managed (drv : Driver) (obj : ManagedObject) (remote : Object) : Bool :=
  drv.isManaged remote || decide (obj.lastApplied ≠ .empty)

/-- The update of an existing resource when the payload differs or the resource is
    being adopted. -/
def correctDrift (e : Engine) (drv : Driver) (kc : Conn) (obj : ManagedObject)
    (remote payload : Object) : Call Unit := do
  perform (.driftCorrected obj.spec.kind)
  drv.update kc (drv.id remote) (mergePayload remote payload)
  e.record .normal "Updated" ("Updated " ++ obj.spec.kind.name ++ " on Keycloak server")

/-- The part of `handleExisting` after the decision to manage the resource. -/
def enforce (e : Engine) (drv : Driver) (kc : Conn) (obj base : ManagedObject)
    (specMap payload remote : Object) (adopting : Bool) : Action Pass := do
  match ← (drv.preparePayload obj (drv.managedMarker payload)).run with
  | .error err => e.refuse obj base .secretMissing err.text secretRetry
  | .ok payload =>
      let changed := adopting || payloadDiffers remote payload
      let updated ← (if changed then e.correctDrift drv kc obj remote payload else pure ()).run
      match updated with
      | .error err =>
          if err.kind = .conflict then
            e.refuse obj base .alreadyExists err.text 0
          else
            retry obj base err "Update failed"
      | .ok () =>
          e.settle drv kc obj base remote fun obj postChanged => do
            if postChanged then
              perform (.driftCorrected obj.spec.kind)
            e.finalize obj base specMap (changed || postChanged)

def handleExisting (e : Engine) (drv : Driver) (kc : Conn) (obj base : ManagedObject)
    (specMap payload remote : Object) : Action Pass := do
  if obj.spec.adoption = .failIfExists then
    e.refuse obj base .alreadyExists
      "adoptionPolicy is FailIfExists and the resource exists on the server" 0
  else if managed drv obj remote then
    e.enforce drv kc obj base specMap payload remote false
  else if obj.spec.adoption = .adopt then
    e.record .normal "Adopted" ("Adopted existing " ++ obj.spec.kind.name)
    e.enforce drv kc obj base specMap payload remote true
  else
    e.refuse obj base .alreadyExists
      "A foreign resource with the same key exists; set adoptionPolicy: Adopt to take it over" 0

/-! ### Deletion -/

def removeFinalizer (obj : ManagedObject) : ManagedObject :=
  { obj with finalizers := obj.finalizers.filter (· ≠ finalizerName) }

/-- Store the object with its new finalizers. -/
def updateObject (obj : ManagedObject) (requeueAfter : Nat) : Action Pass := do
  match ← perform (.updateObject obj) with
  | .ok stored => return { obj := stored, requeueAfter := requeueAfter }
  | .error err => return { obj := obj, err := some err }

def handleDeletion (e : Engine) (drv : Driver) (kc : Conn) (obj : ManagedObject) : Action Pass := do
  if obj.spec.deletion = .delete then
    match ← (drv.delete kc).run with
    | .error err =>
        if err.kind ≠ .notFound then
          return { obj := obj, err := some err }
        else
          e.record .normal "Deleted" "Deleted resource on Keycloak server"
          updateObject (removeFinalizer obj) 0
    | .ok () =>
        e.record .normal "Deleted" "Deleted resource on Keycloak server"
        updateObject (removeFinalizer obj) 0
  else
    updateObject (removeFinalizer obj) 0

/-! ### The pass -/

/-- The spec as JSON without the operator's own fields. -/
def representation (drv : Driver) (s : Spec) : Object :=
  drv.operatorFields.foldl (fun m field => m.erase field) s.toJSONMap

/-- A pass over a live resource that carries the finalizer. -/
def apply (e : Engine) (drv : Driver) (kc : Conn) (obj : ManagedObject) : Action Pass := do
  match drv.protected? obj with
  | some message => e.refuse obj obj .protectedRealm message 0
  | none =>
      let specMap := representation drv obj.spec
      match effectivePayload specMap obj.lastApplied with
      | .error complaint => e.refuse obj obj .failed complaint 0
      | .ok payload =>
          match ← (drv.get kc).run with
          | .error err =>
              if err.kind = .notFound then
                e.handleCreate drv kc obj obj specMap payload
              else
                retry obj obj err "Server unreachable"
          | .ok remote => e.handleExisting drv kc obj obj specMap payload remote

section Apply

variable {e : Engine} {drv : Driver} {kc : Conn} {obj : ManagedObject}

theorem apply_protected {message : String} (hprotected : drv.protected? obj = some message) :
    e.apply drv kc obj = e.refuse obj obj .protectedRealm message 0 := by
  unfold apply
  rw [hprotected]

theorem apply_malformed {complaint : String} (hprotected : drv.protected? obj = none)
    (heffective : effectivePayload (representation drv obj.spec) obj.lastApplied = .error complaint) :
    e.apply drv kc obj = e.refuse obj obj .failed complaint 0 := by
  unfold apply
  rw [hprotected]
  dsimp only
  rw [heffective]

theorem apply_fetches {payload : Object} (hprotected : drv.protected? obj = none)
    (heffective : effectivePayload (representation drv obj.spec) obj.lastApplied = .ok payload) :
    e.apply drv kc obj =
      (drv.get kc).run >>= fun found =>
        match found with
        | .error err =>
            if err.kind = .notFound then
              e.handleCreate drv kc obj obj (representation drv obj.spec) payload
            else
              retry obj obj err "Server unreachable"
        | .ok remote =>
            e.handleExisting drv kc obj obj (representation drv obj.spec) payload remote := by
  unfold apply
  rw [hprotected]
  dsimp only
  rw [heffective]

end Apply

def reconcileWith (e : Engine) (drv : Driver) (obj : ManagedObject) : Action Pass := do
  if obj.deletionTimestamp.isSome ∧ obj.spec.deletion = .orphan then
    updateObject (removeFinalizer obj) 0
  else
    match ← perform (.connect obj.ns obj.spec.connectionName) with
    | .error unavailable =>
        let obj ← setConditions obj obj .false .connectionUnavailable unavailable
          "Connection unavailable"
        return { obj := obj, requeueAfter := connectionRetry }
    | .ok kc =>
        if obj.deletionTimestamp.isSome then
          e.handleDeletion drv kc obj
        else if finalizerName ∉ obj.finalizers then
          updateObject { obj with finalizers := obj.finalizers ++ [finalizerName] } second
        else
          e.apply drv kc obj

/-- The outcome under which the pass is counted. -/
def outcome (obj : ManagedObject) : Outcome :=
  match findStatusCondition obj.status.conditions .ready with
  | some condition => if condition.status = .false then .terminal else .success
  | none => .success

/-- The shared lifecycle for one object. -/
def reconcile (e : Engine) (obj : ManagedObject) : Action Pass := do
  let pass ← e.reconcileWith obj.spec.driver obj
  perform (.reconciled obj.spec.kind (outcome pass.obj))
  return pass

/-- `Reconcile` of the controllers: read the object and run the lifecycle.  `none`
    when the object is gone. -/
def controllerReconcile (e : Engine) : Call (Option Pass) :=
  ExceptT.mk do
    match ← perform .getObject with
    | .error err => if err.notFound then return .ok none else return .error err.err
    | .ok obj => return .ok (some (← e.reconcile obj))

end Engine

end KeycloakOperator
