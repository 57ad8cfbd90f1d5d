import Mathlib.Data.Finset.Sort
import Mathlib.Data.String.Basic
import KeycloakOperator.Engine
import KeycloakOperator.Server

/-!
# Runs of the operator

One custom resource, the Secrets of its cluster and the Keycloak servers that its
connections lead to.  Passes alternate with edits of the spec; nobody else writes.

`World.handle` answers every operation as the API servers document it.  `Reliable` is
that environment with every order of map iteration and every clock; `Faulty` may
answer each call with an error instead, after performing it or not.  The errors of
`Flaky` are outages: none of them claims that something is missing or taken.
-/

namespace KeycloakOperator

structure World where
  /-- the stored custom resource -/
  object : Option ManagedObject
  servers : String → Server
  connections : String → String → Except String Conn
  secrets : String → String → Option Secret

namespace World

open Function (update)

/-! ### The Kubernetes API -/

def objectGone : Err := ⟨.other, "not found"⟩

/-- A merge patch changes what differs between the two versions of the caller. -/
def patched [DecidableEq α] (base new stored : α) : α := if base = new then stored else new

def updateObject (w : World) (obj : ManagedObject) : Except Err ManagedObject × World :=
  match w.object with
  | none => (.error objectGone, w)
  | some stored =>
      let new := { stored with
        finalizers := obj.finalizers
        lastApplied := obj.lastApplied
        allowProtected := obj.allowProtected
        spec := obj.spec
        generation := if obj.spec = stored.spec then stored.generation else stored.generation + 1 }
      -- a deleted object goes away with its last finalizer
      (.ok new, { w with
        object := if new.deletionTimestamp.isSome ∧ new.finalizers = [] then none else some new })

/-- A patch of the main resource ignores the status. -/
def patchObject (w : World) (base obj : ManagedObject) : Except Err ManagedObject × World :=
  match w.object with
  | none => (.error objectGone, w)
  | some stored =>
      let new := { stored with
        finalizers := patched base.finalizers obj.finalizers stored.finalizers
        lastApplied := patched base.lastApplied obj.lastApplied stored.lastApplied
        allowProtected := patched base.allowProtected obj.allowProtected stored.allowProtected }
      (.ok new, { w with object := some new })

/-- A patch of the status ignores everything else. -/
def patchStatus (w : World) (base obj : ManagedObject) : Except Err ManagedObject × World :=
  match w.object with
  | none => (.error objectGone, w)
  | some stored =>
      let new := { stored with status :=
        { conditions := patched base.status.conditions obj.status.conditions
            stored.status.conditions
          observedGeneration := patched base.status.observedGeneration
            obj.status.observedGeneration stored.status.observedGeneration
          secretName := patched base.status.secretName obj.status.secretName
            stored.status.secretName } }
      (.ok new, { w with object := some new })

def getSecret (w : World) (ns name : String) : Except KubeErr Secret :=
  match w.secrets ns name with
  -- the metadata of an object say where it is filed
  | some secret => .ok { secret with ns := ns, name := name }
  | none => .error ⟨true, "secrets " ++ quote name ++ " not found"⟩

def setSecret (w : World) (secret : Secret) : World :=
  { w with
    secrets := update w.secrets secret.ns
      (update (w.secrets secret.ns) secret.name (some secret)) }

def createSecret (w : World) (secret : Secret) : Except Err Unit × World :=
  match w.secrets secret.ns secret.name with
  | some _ => (.error ⟨.other, "already exists"⟩, w)
  | none => (.ok (), w.setSecret secret)

def updateSecret (w : World) (secret : Secret) : Except Err Unit × World :=
  match w.secrets secret.ns secret.name with
  | some _ => (.ok (), w.setSecret secret)
  | none => (.error ⟨.other, "not found"⟩, w)

/-! ### The Admin API -/

def setServer (w : World) (name : String) (server : Server) : World :=
  { w with servers := update w.servers name server }

def admin (w : World) (kc : Conn) (request : Request) : Except Err request.out.Value × World :=
  let (reply, server) :=
    (w.servers kc.server).serve kc.label request.method request.endpoint request.body
  (reply.decode request.out, w.setServer kc.server server)

/-! ### The user -/

/-- Replace the spec of the custom resource. -/
def edit (w : World) (spec : Spec) : World :=
  { w with object := w.object.map fun obj =>
      { obj with spec := spec, generation := obj.generation + 1 } }

/-- Ask for the deletion of the custom resource. -/
def requestDeletion (w : World) (now : Nat) : World :=
  { w with object := w.object.bind fun obj =>
      if obj.finalizers = [] then none
      else some { obj with deletionTimestamp := obj.deletionTimestamp.or (some now) } }

/-- A world in which all connections lead to one server. -/
def around (obj : ManagedObject) (server : Server) : World where
  object := some obj
  servers := fun _ => server
  connections := fun _ name => .ok ⟨name, "keycloak"⟩
  secrets := fun _ _ => none

/-! ### The environment -/

/-- The answers of the API servers, for an order of map iteration and a time. -/
def handle (order : (keys : Finset String) → Order keys) (now : Nat) :
    Prog.Handler operations World := fun op w =>
  match op with
  | .now => (now, w)
  | .iterate keys => (order keys, w)
  | .connect ns name => (w.connections ns name, w)
  | .admin kc request => w.admin kc request
  | .getObject =>
      match w.object with
      | some obj => (.ok obj, w)
      | none => (.error ⟨true, "not found"⟩, w)
  | .updateObject obj => w.updateObject obj
  | .patchObject base obj => w.patchObject base obj
  | .patchStatus base obj => w.patchStatus base obj
  | .getSecret ns name => (w.getSecret ns name, w)
  | .createSecret secret => w.createSecret secret
  | .updateSecret secret => w.updateSecret secret
  | .event _ _ _ => ((), w)
  | .driftCorrected _ => ((), w)
  | .reconciled _ _ => ((), w)

/-- Keys in lexicographic order. -/
def sorted (keys : Finset String) : Order keys :=
  ⟨keys.sort (· ≤ ·), keys.sort_nodup _, fun _ => keys.mem_sort _⟩

end World

/-- Every call succeeds. -/
def Reliable : Prog.Env operations World := fun op w answer w' =>
  ∃ order now, World.handle order now op w = (answer, w')

/-- The answer reports a failure. -/
def Failure : (op : Op) → op.Answer → Prop
  | .now, _ => False
  | .iterate _, _ => False
  | .connect _ _, answer => ∃ err, answer = .error err
  | .admin _ _, answer => ∃ err, answer = .error err
  | .getObject, answer => ∃ err, answer = .error err
  | .updateObject _, answer => ∃ err, answer = .error err
  | .patchObject _ _, answer => ∃ err, answer = .error err
  | .patchStatus _ _, answer => ∃ err, answer = .error err
  | .getSecret _ _, answer => ∃ err, answer = .error err
  | .createSecret _, answer => ∃ err, answer = .error err
  | .updateSecret _, answer => ∃ err, answer = .error err
  | .event _ _ _, _ => False
  | .driftCorrected _, _ => False
  | .reconciled _ _, _ => False

/-- Every call may fail, before or after it took effect. -/
def Faulty : Prog.Env operations World := fun op w answer w' =>
  Reliable op w answer w' ∨ (Failure op answer ∧ (w' = w ∨ ∃ lost, Reliable op w lost w'))

/-- The answer reports an outage, which says nothing about what the servers hold. -/
def Outage : (op : Op) → op.Answer → Prop
  | .admin _ _, answer =>
      ∃ err : Err, answer = .error err ∧ err.kind ≠ .notFound ∧ err.kind ≠ .conflict
  | .getObject, answer => ∃ err : KubeErr, answer = .error err ∧ err.notFound = false
  | .getSecret _ _, answer => ∃ err : KubeErr, answer = .error err ∧ err.notFound = false
  | op, answer => Failure op answer

/-- Every call may meet an outage, before or after it took effect. -/
def Flaky : Prog.Env operations World := fun op w answer w' =>
  Reliable op w answer w' ∨ (Outage op answer ∧ (w' = w ∨ ∃ lost, Reliable op w lost w'))

/-- The execution of a program against the API servers. -/
theorem exec_handle (p : Action α) (w : World) :
    p.Exec Reliable w (p.runSteps (World.handle World.sorted 0) w)
      (p.run (World.handle World.sorted 0) w).2 (some (p.run (World.handle World.sorted 0) w).1) :=
  (p.exec_run _ w).mono fun _ _ _ _ h => ⟨World.sorted, 0, h⟩

theorem faulty_of_reliable (op : Op) (w : World) (answer : op.Answer) (w' : World)
    (h : Reliable op w answer w') : Faulty op w answer w' := Or.inl h

/-- What a call leaves behind, whatever it answers. -/
theorem reliable_state {op : Op} {w w' : World} {answer : op.Answer}
    (h : Reliable op w answer w') : ∃ order now, w' = (World.handle order now op w).2 :=
  let ⟨order, now, heq⟩ := h
  ⟨order, now, (congrArg Prod.snd heq).symm⟩

/-- A call may have had its effect, or none. -/
@[elab_as_elim]
theorem faulty_elim {op : Op} {answer : op.Answer} {w w' : World} {P : World → Prop}
    (h : Faulty op w answer w') (hnone : P w) (hdone : ∀ answer, Reliable op w answer w' → P w') :
    P w' := by
  rcases h with h | ⟨-, rfl | ⟨lost, hlost⟩⟩
  · exact hdone _ h
  · exact hnone
  · exact hdone _ hlost

theorem flaky_of_reliable (op : Op) (w : World) (answer : op.Answer) (w' : World)
    (h : Reliable op w answer w') : Flaky op w answer w' := Or.inl h

theorem Outage.failure {op : Op} {answer : op.Answer} (h : Outage op answer) :
    Failure op answer := by
  rcases op
  case admin | getObject | getSecret =>
    obtain ⟨err, heq, -⟩ := h
    exact ⟨err, heq⟩
  all_goals exact h

theorem faulty_of_flaky (op : Op) (w : World) (answer : op.Answer) (w' : World)
    (h : Flaky op w answer w') : Faulty op w answer w' :=
  h.imp_right fun ⟨houtage, heffect⟩ => ⟨houtage.failure, heffect⟩

/-! ### The passes of a run -/

/-- The steps of a pass. -/
abbrev Log : Type := List (Prog.Step operations World)

/-- Passes of the operator, complete or cut off anywhere. -/
abbrev Engine.Passes (e : Engine) (env : Prog.Env operations σ) (moves : σ → σ → Prop) :
    σ → List (Prog.Step operations σ) → σ → Prop :=
  Prog.Run env moves e.controllerReconcile.run fun _ => True

/-- A pass of the operator, with the states around it and its result. -/
abbrev PassEpisode (σ : Type) : Type := Prog.Episode operations σ (Except Err (Option Pass))

/-- `Engine.Passes`, with the result of each pass. -/
abbrev Engine.Episodes (e : Engine) (env : Prog.Env operations σ) (moves : σ → σ → Prop) :
    σ → List (PassEpisode σ) → σ → Prop :=
  Prog.Episodes env moves e.controllerReconcile.run

/-- The first step of a pass reads the object; the rest is `reconcile`. -/
theorem Engine.exec_pass {e : Engine} {env : Prog.Env operations σ} {s t : σ}
    {steps : List (Prog.Step operations σ)} {result : Option (Except Err (Option Pass))}
    (hexec : Prog.Exec env e.controllerReconcile.run s steps t result) :
    ((∀ step ∈ steps, step.op = .getObject) ∧ ∀ pass, result ≠ some (.ok (some pass))) ∨
      ∃ obj s' rest reached, env .getObject s (.ok obj) s' ∧
        steps = ⟨s, .getObject, .ok obj, s'⟩ :: rest ∧
        Prog.Exec env (e.reconcile obj) s' rest t reached ∧
        ∀ pass, result = some (.ok (some pass)) → reached = some pass := by
  rcases hexec.call_inv with ⟨rfl, -, rfl⟩ | ⟨answer, s', rest, hstep, rfl, hrest⟩
  · exact .inl ⟨fun step hstep => absurd hstep List.not_mem_nil, fun pass h => by cases h⟩
  rcases answer with err | obj
  · left
    simp only [Prog.bind] at hrest
    have hstopped : rest = [] ∧ ∀ pass, result ≠ some (.ok (some pass)) := by
      split at hrest <;> cases hrest <;> exact ⟨rfl, fun pass h => by cases h⟩
    obtain ⟨rfl, hresult⟩ := hstopped
    exact ⟨fun step hstep => List.mem_singleton.mp hstep ▸ rfl, hresult⟩
  · obtain ⟨reached, hreached, hresult⟩ := Prog.Exec.of_map (p := e.reconcile obj) hrest
    refine .inr ⟨obj, s', rest, reached, hstep, rfl, hreached, fun pass hpass => ?_⟩
    obtain ⟨pass', rfl, heq⟩ := hresult _ hpass
    cases heq
    rfl

/-- The version of the custom resource that a step reads. -/
def readObject (step : Prog.Step operations σ) : Option ManagedObject :=
  match step with
  | ⟨_, .getObject, .ok obj, _⟩ => some obj
  | _ => none

theorem readObject_eq_none {step : Prog.Step operations σ} (h : step.op ≠ .getObject) :
    readObject step = none := by
  obtain ⟨before, op, answer, after⟩ := step
  rcases op <;> first | rfl | exact absurd rfl h

/-- The versions of the custom resource that the passes of a run work on. -/
def readObjects (steps : List (Prog.Step operations σ)) : List ManagedObject :=
  steps.filterMap readObject

@[simp] theorem readObjects_append (steps more : List (Prog.Step operations σ)) :
    readObjects (steps ++ more) = readObjects steps ++ readObjects more :=
  List.filterMap_append

end KeycloakOperator
