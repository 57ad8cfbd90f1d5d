import KeycloakOperator.RoleSets

/-!
# Servers that answer differently

`Server.serve` is a server that stores what it is sent.  Real servers deviate from it at single
endpoints.  A variant is given by its answers; nothing else of the world changes with it.
-/

namespace KeycloakOperator

open Prog

/-- The answer of a server to a request that came through a connection, and the server after
    it. -/
abbrev Serve : Type := Server → String → Method → Endpoint → Body → Reply × Server

def World.adminWith (serve : Serve) (w : World) (kc : Conn) (request : Request) :
    Except Err request.out.Value × World :=
  let (reply, server) :=
    serve (w.servers kc.server) kc.label request.method request.endpoint request.body
  (reply.decode request.out, w.setServer kc.server server)

def World.handleWith (serve : Serve) (order : (keys : Finset String) → Order keys) (now : Nat) :
    Handler operations World := fun op w =>
  match op with
  | .admin kc request => w.adminWith serve kc request
  | op => World.handle order now op w

/-- Every call reaches a server of the variant, in every order of map iteration. -/
def Served (serve : Serve) : Env operations World := fun op w answer w' =>
  ∃ order now, World.handleWith serve order now op w = (answer, w')

/-- Every call may fail, before or after it took effect. -/
def Unreliable (env : Env operations World) : Env operations World := fun op w answer w' =>
  env op w answer w' ∨ (Failure op answer ∧ (w' = w ∨ ∃ lost, env op w lost w'))

section Served

variable {serve : Serve} {w w' : World} {kc : Conn}

theorem exec_handleWith (serve : Serve) (p : Action α) (w : World) :
    p.Exec (Served serve) w (p.runSteps (World.handleWith serve World.sorted 0) w)
      (p.run (World.handleWith serve World.sorted 0) w).2
      (some (p.run (World.handleWith serve World.sorted 0) w).1) :=
  (p.exec_run _ w).mono fun _ _ _ _ h => ⟨World.sorted, 0, h⟩

theorem served_admin {request : Request} {answer : Except Err request.out.Value}
    (h : Served serve (.admin kc request) w answer w') :
    answer = (w.adminWith serve kc request).1 ∧ w' = (w.adminWith serve kc request).2 := by
  obtain ⟨_, _, heq⟩ := h
  exact ⟨(congrArg Prod.fst heq).symm, (congrArg Prod.snd heq).symm⟩

theorem served_iterate {keys : Finset String} {order : Order keys}
    (h : Served serve (.iterate keys) w order w') : w' = w := by
  obtain ⟨_, _, heq⟩ := h
  exact (Prod.mk.inj heq).2.symm

theorem served_of_reliable {op : Op} {answer : op.Answer} (h : Reliable op w answer w') :
    Served Server.serve op w answer w' := by
  obtain ⟨order, now, heq⟩ := h
  refine ⟨order, now, ?_⟩
  rcases op <;> exact heq

/-- A variant that answers a request as usual. -/
theorem served_reliable {request : Request} {answer : Except Err request.out.Value}
    (hserve : serve (w.servers kc.server) kc.label request.method request.endpoint request.body =
      (w.servers kc.server).serve kc.label request.method request.endpoint request.body)
    (h : Served serve (.admin kc request) w answer w') :
    Reliable (.admin kc request) w answer w' := by
  obtain ⟨order, now, heq⟩ := h
  refine ⟨order, now, ?_⟩
  rw [← heq]
  simp only [World.handle, World.admin, World.handleWith, World.adminWith, hserve]

/-- A variant that answers reads as usual. -/
theorem reading_served (hserve : ∀ server label endpoint body,
      serve server label .get endpoint body = server.serve label .get endpoint body) :
    Reading (Served serve) False where
  get := by
    intro kc request w w' answer hmethod h
    refine reading_reliable.get hmethod (served_reliable ?_ h)
    rw [hmethod]
    exact hserve _ _ _ _

/-- The export of a client secret leaves the servers alone. -/
theorem served_servers
    (hserve : ∀ server label endpoint body, (serve server label .get endpoint body).2 = server)
    {op : Op} {answer : op.Answer} (hop : op.Reads ∨ op.WritesSecret)
    (h : Served serve op w answer w') : w'.servers = w.servers := by
  rcases op with _ | keys | _ | ⟨kc, request⟩ | _ | _ | _ | _ | ⟨ns, name⟩ | secret | secret | _ | _ | _
  case iterate => rw [served_iterate h]
  case admin =>
    have hget : request.method = .get := hop.resolve_right id
    rw [(served_admin h).2, World.adminWith]
    dsimp only
    rw [hget, hserve, World.setServer_self]
  case getSecret =>
    obtain ⟨_, _, h⟩ := h
    rw [← (Prod.mk.inj h).2]
  case createSecret =>
    obtain ⟨_, _, h⟩ := h
    have hafter : (w.createSecret secret).2 = w' := (Prod.mk.inj h).2
    rw [← hafter]
    unfold World.createSecret
    split <;> rfl
  case updateSecret =>
    obtain ⟨_, _, h⟩ := h
    have hafter : (w.updateSecret secret).2 = w' := (Prod.mk.inj h).2
    rw [← hafter]
    unfold World.updateSecret
    split <;> rfl
  all_goals exact hop.elim (fun h => h.elim) fun h => h.elim

end Served

/-! ### Calls that fail -/

section Unreliable

variable {env : Env operations World} {errs : Prop} {w w' : World} {kc : Conn}

theorem unreliable_of_served (op : Op) (w : World) (answer : op.Answer) (w' : World)
    (h : env op w answer w') : Unreliable env op w answer w' := .inl h

theorem reading_unreliable (h : Reading env errs) : Reading (Unreliable env) True where
  get := by
    rintro kc request w w' answer hmethod (hstep | ⟨hfailure, rfl | ⟨lost, hlost⟩⟩)
    · obtain ⟨hstays, hanswer⟩ := h.get hmethod hstep
      exact ⟨hstays, hanswer.imp_left fun ⟨_, herr⟩ => ⟨trivial, herr⟩⟩
    · exact ⟨rfl, .inl ⟨trivial, hfailure⟩⟩
    · exact ⟨(h.get hmethod hlost).1, .inl ⟨trivial, hfailure⟩⟩

theorem unreliable_iterate {keys : Finset String} {order : Order keys}
    (h : Unreliable env (.iterate keys) w order w') : env (.iterate keys) w order w' := by
  rcases h with h | ⟨hfailure, -⟩
  · exact h
  · exact hfailure.elim

theorem unreliable_admin {request : Request} {answer : Except Err request.out.Value}
    (h : Unreliable env (.admin kc request) w answer w') :
    env (.admin kc request) w answer w' ∨ ∃ err, answer = .error err :=
  h.imp_right fun ⟨hfailure, _⟩ => hfailure

end Unreliable

end KeycloakOperator
