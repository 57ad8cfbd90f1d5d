import KeycloakOperator.Denials
import KeycloakOperator.Settling

/-!
# What a pass stumbles over

A call that fails reports the first thing that it finds wrong.  Most checks come in a fixed order;
those of a loop over a map come in the order of the keys.  An `Obstacle` is what there is to be
found before the order is known, and `Obstacle.Raises` says which complaint an order makes of it.

The obstacles of the drivers are read off the calls themselves: what stands outside of a loop has
one answer (`World.answer`), and a loop finds wrong with a key what it would complain about if it
had no other key (`World.flaw`).  `Meets` says that a call comes to its obstacle.  What a loop asks
for stays as it is while it writes, so the state before the loop tells all its complaints.
-/

namespace KeycloakOperator

open Prog

/-! ### Obstacles -/

/-- What there is to stumble over: a complaint, or what a loop over the keys of a map finds wrong
    with each of them. -/
inductive Obstacle where
  | given (complaint : Option String)
  | loop (keys : Finset String) (flaw : String → Option String)

/-- Which orders of the keys of a map may be met. -/
abbrev Picks : Type := (keys : Finset String) → Order keys → Prop

/-- The text of the error that a call returns. -/
def complaint : Except Err α → Option String
  | .ok _ => none
  | .error err => some err.text

@[simp] theorem complaint_ok (a : α) : complaint (.ok a) = none := rfl

namespace Obstacle

/-- The complaint, if any: a loop stops at the first flaw. -/
def Raises (picks : Picks) : Obstacle → Option String → Prop
  | given complaint, raised => raised = complaint
  | loop keys flaw, raised =>
      ∃ order : Order keys, picks keys order ∧ raised = order.list.findSome? flaw

/-- Something is wrong. -/
def Blocks : Obstacle → Prop
  | given complaint => complaint ≠ none
  | loop keys flaw => ∃ key ∈ keys, flaw key ≠ none

instance : DecidablePred Blocks
  | given complaint => inferInstanceAs (Decidable (complaint ≠ none))
  | loop keys flaw => inferInstanceAs (Decidable (∃ key ∈ keys, flaw key ≠ none))

/-- Two keys of the loop have different complaints. -/
def Splits : Obstacle → Prop
  | given _ => False
  | loop keys flaw => ∃ key ∈ keys, ∃ key' ∈ keys,
      flaw key ≠ none ∧ flaw key' ≠ none ∧ flaw key ≠ flaw key'

instance : DecidablePred Splits
  | given _ => inferInstanceAs (Decidable False)
  | loop keys flaw => inferInstanceAs (Decidable (∃ key ∈ keys, ∃ key' ∈ keys,
      flaw key ≠ none ∧ flaw key' ≠ none ∧ flaw key ≠ flaw key'))

/-- One obstacle behind the other. -/
def andThen (first second : Obstacle) : Obstacle := if first.Blocks then first else second

/-- What follows a call with this answer. -/
def after (answer : Except Err α) (next : α → Obstacle) : Obstacle :=
  match answer with
  | .error err => given (some err.text)
  | .ok a => next a

variable {picks : Picks} {first second : Obstacle} {raised : Option String}

@[simp] theorem andThen_of_none : (given none).andThen second = second :=
  if_neg (by simp [Blocks])

@[simp] theorem andThen_of_some (complaint : String) :
    (given (some complaint)).andThen second = given (some complaint) :=
  if_pos (by simp [Blocks])

/-- Whatever the order, a complaint is raised just when something is wrong. -/
theorem Raises.blocks_iff (h : first.Raises picks raised) : first.Blocks ↔ raised ≠ none := by
  cases first with
  | given complaint =>
    cases h
    rfl
  | loop keys flaw =>
    obtain ⟨order, -, rfl⟩ := h
    simp only [Blocks, ne_eq, List.findSome?_eq_none_iff, order.mem_iff, not_forall, exists_prop]

theorem Raises.andThen_left {complaint : String} (h : first.Raises picks (some complaint)) :
    (first.andThen second).Raises picks (some complaint) := by
  rw [andThen, if_pos (h.blocks_iff.mpr (Option.some_ne_none complaint))]
  exact h

theorem Raises.andThen_right (h : first.Raises picks none) (hsecond : second.Raises picks raised) :
    (first.andThen second).Raises picks raised := by
  rw [andThen, if_neg fun hblocks => h.blocks_iff.mp hblocks rfl]
  exact hsecond

/-- Unless two complaints differ, the order of the keys does not matter. -/
theorem Raises.unique {picks' : Picks} {complaint complaint' : String}
    (h : first.Raises picks (some complaint)) (h' : first.Raises picks' (some complaint'))
    (hsplits : ¬ first.Splits) : complaint = complaint' := by
  cases first with
  | given _ => exact Option.some.inj (h.trans h'.symm)
  | loop keys flaw =>
    obtain ⟨order, -, hfirst⟩ := h
    obtain ⟨order', -, hfirst'⟩ := h'
    obtain ⟨key, hkey, hflaw⟩ := List.exists_of_findSome?_eq_some hfirst.symm
    obtain ⟨key', hkey', hflaw'⟩ := List.exists_of_findSome?_eq_some hfirst'.symm
    by_contra hne
    refine hsplits ⟨key, (order.mem_iff key).mp hkey, key', (order'.mem_iff key').mp hkey', ?_⟩
    rw [hflaw, hflaw']
    exact ⟨Option.some_ne_none _, Option.some_ne_none _, fun heq => hne (Option.some.inj heq)⟩

end Obstacle

/-! ### Orders with a given first key -/

/-- The key comes first, where it is one. -/
def Leading (key : String) : Picks := fun keys order => key ∈ keys → order.list.head? = some key

/-- Put the key in front. -/
def Order.leading (key : String) {keys : Finset String} (order : Order keys) : Order keys where
  list := if key ∈ keys then key :: order.list.erase key else order.list
  nodup := by
    split
    · exact List.nodup_cons.mpr ⟨order.nodup.not_mem_erase, order.nodup.erase key⟩
    · exact order.nodup
  mem_iff := by
    intro k
    split
    case isTrue hkey =>
      rw [List.mem_cons, order.nodup.mem_erase_iff, order.mem_iff]
      by_cases hk : k = key
      · simp [hk, hkey]
      · simp [hk]
    case isFalse => exact order.mem_iff k

theorem Order.leading_leading (key : String) {keys : Finset String} (order : Order keys) :
    Leading key keys (order.leading key) := by
  intro hkey
  simp [Order.leading, hkey]

/-- A loop that begins with a flawed key complains about it. -/
theorem Obstacle.Raises.leading {keys : Finset String} {flaw : String → Option String}
    {key : String} {raised : Option String} (hkey : key ∈ keys) (hflaw : flaw key ≠ none)
    (h : (Obstacle.loop keys flaw).Raises (Leading key) raised) : raised = flaw key := by
  obtain ⟨order, hleading, rfl⟩ := h
  obtain ⟨rest, hrest⟩ := List.head?_eq_some_iff.mp (hleading hkey)
  obtain ⟨complaint, hcomplaint⟩ := Option.ne_none_iff_exists'.mp hflaw
  rw [hrest, List.findSome?_cons, hcomplaint]

/-- If two complaints differ, there are orders that raise each of them. -/
theorem Obstacle.Splits.leading {o : Obstacle} (h : o.Splits) :
    ∃ key key' complaint complaint', complaint ≠ complaint' ∧
      (∀ raised, o.Raises (Leading key) raised → raised = some complaint) ∧
      ∀ raised, o.Raises (Leading key') raised → raised = some complaint' := by
  cases o with
  | given _ => exact h.elim
  | loop keys flaw =>
    obtain ⟨key, hkey, key', hkey', hflaw, hflaw', hne⟩ := h
    obtain ⟨complaint, hcomplaint⟩ := Option.ne_none_iff_exists'.mp hflaw
    obtain ⟨complaint', hcomplaint'⟩ := Option.ne_none_iff_exists'.mp hflaw'
    refine ⟨key, key', complaint, complaint', fun heq => hne (by rw [hcomplaint, hcomplaint', heq]),
      fun _ hraises => ?_, fun _ hraises => ?_⟩
    · rw [hraises.leading hkey hflaw, hcomplaint]
    · rw [hraises.leading hkey' hflaw', hcomplaint']

/-! ### Calls that meet an obstacle -/

/-- The servers refuse the requests in `d`, and maps are visited in one of the orders that `picks`
    allows. -/
structure Iterating (env : Env operations World) (picks : Picks) (d : Denials) : Prop where
  served : ∀ {op : Op} {w w' : World} {answer : op.Answer},
    env op w answer w' → Served d.serve op w answer w'
  picked : ∀ {keys : Finset String} {order : Order keys} {w w' : World},
    env (.iterate keys) w order w' → picks keys order

theorem iterating_served (d : Denials) : Iterating (Served d.serve) (fun _ _ => True) d where
  served := fun h => h
  picked := fun _ => trivial

theorem iterating_leading (d : Denials) (key : String) :
    Iterating (Handler.env (World.handleWith d.serve (fun keys => (World.sorted keys).leading key) 0))
      (Leading key) d where
  served := fun h => ⟨_, 0, h⟩
  picked := by
    intro keys order w w' h
    cases h
    exact Order.leading_leading key _

/-- While `inv` holds, which the call keeps, it complains about the obstacle and nothing else. -/
def Meets (env : Env operations World) (picks : Picks) (inv : World → Prop) (call : Call α)
    (o : Obstacle) : Prop :=
  ∀ w, inv w → wp env (fun _ _ => True) call.run
    (fun r t => inv t ∧ o.Raises picks (complaint r)) w

section Meets

variable {env : Env operations World} {picks : Picks} {d : Denials} {inv : World → Prop}
  {o o' : Obstacle} {w t : World}

/-- One call after the other. -/
theorem Meets.andThen {call : Call α} {next : α → Call β} (h : Meets env picks inv call o)
    (hnext : ∀ a, Meets env picks inv (next a) o') :
    Meets env picks inv (call >>= next) (o.andThen o') := by
  intro w hw
  refine wp_run_bind.mpr (wp_mono ?_ (h w hw))
  rintro (err | a) t ⟨hinv, hraises⟩
  · exact ⟨hinv, hraises.andThen_left⟩
  · exact wp_mono (fun r u hu => ⟨hu.1, hraises.andThen_right hu.2⟩) (hnext a t hinv)

/-- What follows does not fail. -/
theorem Meets.followed {call : Call α} {next : α → Call β} (h : Meets env picks inv call o)
    (hnext : ∀ a, Meets env picks inv (next a) (.given none)) :
    Meets env picks inv (call >>= next) o := by
  intro w hw
  refine wp_run_bind.mpr (wp_mono ?_ (h w hw))
  rintro (err | a) t ⟨hinv, hraises⟩
  · exact ⟨hinv, hraises⟩
  · refine wp_mono ?_ (hnext a t hinv)
    rintro r u ⟨hu, hnone⟩
    rw [show complaint r = none from hnone]
    exact ⟨hu, hraises⟩

theorem meets_pure (a : α) : Meets env picks inv (pure a) (.given none) :=
  fun _ hw => ⟨hw, rfl⟩

/-- A call with one answer, and what follows it. -/
theorem wp_after {call : Call α} {next : α → Call β} {answer : Except Err α} {o : α → Obstacle}
    (h : wp env ⊤ call.run (fun r u => r = answer ∧ inv u) t)
    (hnext : ∀ a, answer = .ok a → Meets env picks inv (next a) (o a)) :
    wp env ⊤ (call >>= next).run
      (fun r u => inv u ∧ (Obstacle.after answer o).Raises picks (complaint r)) t := by
  refine wp_run_bind.mpr (wp_mono ?_ h)
  rintro (err | a) u ⟨rfl, hu⟩
  · exact ⟨hu, rfl⟩
  · exact hnext a rfl u hu

theorem Iterating.wp (hiterating : Iterating env picks d) {p : Action α}
    {post : α → World → Prop} (h : Prog.wp (Served d.serve) ⊤ p post t) :
    Prog.wp env ⊤ p post t :=
  wp_env_mono (fun _ _ _ _ => hiterating.served) h

theorem Iterating.meets_after (hiterating : Iterating env picks d) {call : Call α}
    {next : α → Call β} {o : α → Obstacle} (h : Constant (Served d.serve) inv call.run)
    (hw : inv w.bare) (hnext : ∀ a, Meets env picks inv (next a) (o a)) :
    Meets env picks inv (call >>= next) (.after (w.answer d call) o) :=
  fun _ ht => wp_after (hiterating.wp (h.wp_answer hw ht)) fun a _ => hnext a

theorem Iterating.meets_call (hiterating : Iterating env picks d) {call : Call α}
    (h : Constant (Served d.serve) inv call.run) (hw : inv w.bare) :
    Meets env picks inv call (.given (complaint (w.answer d call))) := by
  refine fun _ ht => wp_mono ?_ (hiterating.wp (h.wp_answer hw ht))
  rintro r u ⟨rfl, hu⟩
  exact ⟨hu, rfl⟩

/-- A read has the answer that it has in a state with the same document. -/
theorem wp_fetch {kc : Conn} {request : Request} (hmethod : request.method = .get)
    (hget : (t.servers kc.server).get request.endpoint = (w.servers kc.server).get request.endpoint) :
    wp (Served d.serve) ⊤ (kc.send request).run
      (fun r u => r = w.answer d (kc.send request) ∧ u = t) t := by
  refine ⟨trivial, fun answer u hstep => ?_⟩
  obtain ⟨rfl, rfl⟩ := served_admin hstep
  obtain ⟨method, endpoint, body, out⟩ := request
  subst hmethod
  refine ⟨?_, by simp [World.adminWith, d.serve_get]⟩
  change (t.adminWith d.serve kc _).1 = (w.bare.adminWith d.serve kc _).1
  rcases hdenied : d.error kc.label .get endpoint body with _ | err
  · rw [Denials.adminWith_of_admitted hdenied, Denials.adminWith_of_admitted hdenied]
    exact congrArg (fun reply : Reply => reply.decode out) hget
  · rw [Denials.adminWith_of_denied hdenied, Denials.adminWith_of_denied hdenied]

/-- A read that is not refused returns what the server holds. -/
theorem reply_of_answer {kc : Conn} {request : Request} {value : request.out.Value}
    (hmethod : request.method = .get) (h : w.answer d (kc.send request) = .ok value) :
    ((w.servers kc.server).get request.endpoint).decode request.out = .ok value := by
  change (w.bare.adminWith d.serve kc request).1 = _ at h
  rcases hdenied : d.error kc.label request.method request.endpoint request.body with _ | err
  · rw [Denials.adminWith_of_admitted hdenied] at h
    obtain ⟨method, endpoint, body, out⟩ := request
    subst hmethod
    exact h
  · rw [Denials.adminWith_of_denied hdenied] at h
    cases h

/-! ### Loops -/

/-- What a loop finds wrong with a key: its complaint if there were no other key. -/
def World.flaw (d : Denials) (w : World) (loop : List String → Call α) (key : String) :
    Option String :=
  complaint (w.answer d (loop [key]))

/-- The loop treats one key after the other, and what it does for a key has one answer. -/
def Stepwise (d : Denials) (inv : World → Prop) (loop : List String → Call α) : Prop :=
  (∃ a, loop [] = pure a) ∧ ∀ key, ∃ (β : Type) (head : Call β) (join : β → α → α),
    Constant (Served d.serve) inv head.run ∧
      ∀ rest, loop (key :: rest) = head >>= fun b => loop rest >>= fun a => pure (join b a)

/-- The body of a loop over a list of keys complains about the first one with a flaw. -/
theorem Iterating.meets_stepwise (hiterating : Iterating env picks d)
    {loop : List String → Call α} (h : Stepwise d inv loop) (hw : inv w.bare) (keys : List String) :
    Meets env picks inv (loop keys) (.given (keys.findSome? (w.flaw d loop))) := by
  obtain ⟨⟨a, hnil⟩, hcons⟩ := h
  induction keys with
  | nil =>
    rw [hnil]
    exact meets_pure a
  | cons key rest ih =>
    obtain ⟨β, head, join, hconstant, hhead⟩ := hcons key
    -- one key: the head and nothing else can fail
    have hfirst : Meets env picks inv head (.given (w.flaw d loop key)) := by
      intro t ht
      have hsingle : loop [key] = head >>= fun b => pure (join b a) := by
        rw [hhead, hnil]
        rfl
      unfold World.flaw
      rw [hsingle]
      have hsame : Constant (Served d.serve) inv (head >>= fun b => pure (join b a)).run :=
        hconstant.run_bind fun _ => constant_ret _
      have hanswer := hsame.wp_answer hw ht
      generalize w.answer d (head >>= fun b => pure (join b a)) = answer at hanswer ⊢
      refine hiterating.wp (wp_mono ?_ (wp_run_bind.mp hanswer))
      rintro (err | b) u ⟨rfl, hu⟩ <;> exact ⟨hu, rfl⟩
    rw [hhead, List.findSome?_cons]
    have hboth := hfirst.andThen fun b => ih.followed fun a => meets_pure (join b a)
    rcases hflaw : w.flaw d loop key with _ | complaint
    · rwa [hflaw, Obstacle.andThen_of_none] at hboth
    · rwa [hflaw, Obstacle.andThen_of_some] at hboth

theorem Iterating.wp_iterate (hiterating : Iterating env picks d) {keys : Finset String}
    {post : Order keys → World → Prop} (h : ∀ order, picks keys order → post order t) :
    Prog.wp env ⊤ (perform (.iterate keys)) post t := by
  refine ⟨trivial, fun order u hstep => ?_⟩
  obtain rfl := served_iterate (hiterating.served hstep)
  exact h order (hiterating.picked hstep)

theorem Iterating.wp_rangeKeys (hiterating : Iterating env picks d) {m : FiniteMap String V}
    {post : List String → World → Prop}
    (h : ∀ order : Order m.keys, picks m.keys order → post order.list t) :
    Prog.wp env ⊤ (rangeKeys m) post t :=
  wp_bind.mpr (hiterating.wp_iterate h)

/-- A loop over the keys of a map. -/
theorem Iterating.meets_range (hiterating : Iterating env picks d) {m : FiniteMap String V}
    {body : List String → Call α} {flaw : String → Option String}
    (hbody : ∀ keys, Meets env picks inv (body keys) (.given (keys.findSome? flaw))) :
    Meets env picks inv (do let order ← rangeKeys m; body order) (.loop m.keys flaw) := by
  intro w hw
  refine wp_run_bind.mpr (wp_run_lift.mpr
    (hiterating.wp_rangeKeys fun order hpicked => wp_mono ?_ (hbody order.list w hw)))
  rintro r u ⟨hu, hraises⟩
  exact ⟨hu, order, hpicked, hraises⟩

theorem Iterating.meets_range_andThen (hiterating : Iterating env picks d)
    {m : FiniteMap String V} {body : List String → Call α} {flaw : String → Option String}
    {next : α → Call β}
    (hbody : ∀ keys, Meets env picks inv (body keys) (.given (keys.findSome? flaw)))
    (hnext : ∀ a, Meets env picks inv (next a) o) :
    Meets env picks inv (do let order ← rangeKeys m; let a ← body order; next a)
      ((Obstacle.loop m.keys flaw).andThen o) := by
  have hloop : Meets env picks inv (do let order ← rangeKeys m; body order) (.loop m.keys flaw) :=
    hiterating.meets_range hbody
  have hboth := hloop.andThen hnext
  rwa [run_bind_assoc] at hboth

end Meets

/-! ### Lookups -/

section Lookups

variable {env : Env operations World} {picks : Picks} {d : Denials} {w t : World} {kc : Conn}
  {realm : String}

theorem keepsLookups_bare (w : World) (kc : Conn) : KeepsLookups kc (w.servers kc.server) w.bare :=
  .refl _

theorem World.servers_of_bare (h : t.bare = w.bare) : t.servers = w.servers :=
  show t.bare.servers = w.bare.servers from congrArg World.servers h

theorem keepsLookups_of_bare (h : t.bare = w.bare) : KeepsLookups kc (w.servers kc.server) t := by
  unfold KeepsLookups
  rw [World.servers_of_bare h]
  exact .refl _

/-- The first read of `PostApply`. -/
theorem wp_fetch_bare {request : Request} (hmethod : request.method = .get) (ht : t.bare = w.bare) :
    wp (Served d.serve) ⊤ (kc.send request).run (fun r u =>
      r = w.answer d (kc.send request) ∧ KeepsLookups kc (w.servers kc.server) u) t := by
  have hget : (t.servers kc.server).get request.endpoint =
      (w.servers kc.server).get request.endpoint := by rw [World.servers_of_bare ht]
  refine wp_mono ?_ (wp_fetch hmethod hget)
  rintro r u ⟨hr, rfl⟩
  exact ⟨hr, keepsLookups_of_bare ht⟩

theorem constant_resolveRealmRoles {server : Server} (names : List String) :
    Constant (Served d.serve) (KeepsLookups kc server) (resolveRealmRoles kc realm names).run :=
  constant_lookups (compositional_only.has_resolveRealmRoles (fun _ h => h) _ _)

theorem constant_resolveClientRoles {server : Server} (clientId : String) (names : List String) :
    Constant (Served d.serve) (KeepsLookups kc server)
      (resolveClientRoles kc realm clientId names).run :=
  constant_lookups (compositional_only.has_resolveClientRoles (fun _ h => h) _ _ _)

theorem stepwise_resolveRolesOfClients {server : Server} (realm : String)
    (clientRoles : FiniteMap String (List String)) :
    Stepwise d (KeepsLookups kc server) (resolveRolesOfClients kc realm clientRoles) :=
  ⟨⟨[], rfl⟩, fun clientId => ⟨_, resolveClientRoles kc realm clientId _, (· ++ ·),
    constant_resolveClientRoles clientId _, fun _ => rfl⟩⟩

theorem answer_applyRoleDiff (set : RoleSet) (desired current : List Object) :
    w.answer d (applyRoleDiff desired current (set.add kc) (set.remove kc)) =
      d.compared kc set (roleIds desired) (roleIds current) :=
  ((wp_sound (wp_applyRoleDiff_compared set desired current (keepsLookups_bare w kc))
    (exec_handleWith d.serve _ w.bare)).2 _ rfl).1

end Lookups

/-! ### Realm roles -/

/-- What is wrong with the roles that a role is to include. -/
def RealmRoleSpec.unresolved (s : RealmRoleSpec) (d : Denials) (w : World) (kc : Conn) : Obstacle :=
  match s.included with
  | none => .given none
  | some composites =>
      (Obstacle.given (complaint (w.answer d
        (resolveRealmRoles kc s.realm composites.realmRoles)))).andThen
        (.loop composites.clientRoles.keys
          (w.flaw d (resolveRolesOfClients kc s.realm composites.clientRoles)))

/-- What is wrong when the composite members of a role are enforced. -/
def RealmRoleSpec.obstacle (s : RealmRoleSpec) (d : Denials) (w : World) (kc : Conn) : Obstacle :=
  .after (w.answer d (kc.getRoleComposites s.realm s.name)) fun current =>
    (s.unresolved d w kc).andThen
      (.after (w.answer d (s.desiredComposites kc)) fun desired =>
        .given (complaint (w.answer d (applyRoleDiff desired current
          (kc.addRoleComposites s.realm s.name) (kc.removeRoleComposites s.realm s.name)))))

section Roles

variable {env : Env operations World} {picks : Picks} {d : Denials} {w t : World} {kc : Conn}
  {s : RealmRoleSpec} {rep : Object}

/-- The representation is among those that a call returns. -/
def World.Returned (w : World) (d : Denials) (call : Call (List Object)) (rep : Object) : Prop :=
  ∃ reps, w.answer d call = .ok reps ∧ rep ∈ reps

/-- The representation is one of those that the role is to include. -/
def RealmRoleSpec.Resolves (s : RealmRoleSpec) (d : Denials) (w : World) (kc : Conn)
    (rep : Object) : Prop :=
  ∃ composites, s.included = some composites ∧
    (w.Returned d (resolveRealmRoles kc s.realm composites.realmRoles) rep ∨
      ∃ clientId ∈ composites.clientRoles.keys, w.Returned d (resolveClientRoles kc s.realm clientId
        ((composites.clientRoles.get clientId).getD [])) rep)

theorem wp_resolveRolesOfClients_mem (realm : String) (clientRoles : FiniteMap String (List String))
    (names : List String) (ht : KeepsLookups kc (w.servers kc.server) t) :
    wp (Served d.serve) ⊤ (resolveRolesOfClients kc realm clientRoles names).run
      (fun r _ => ∀ reps, r = .ok reps → ∀ rep, rep ∈ reps ↔ ∃ clientId ∈ names,
        w.Returned d (resolveClientRoles kc realm clientId
          ((clientRoles.get clientId).getD [])) rep) t := by
  induction names generalizing t with
  | nil =>
    rintro reps ⟨⟩ rep
    simp
  | cons clientId rest ih =>
    refine wp_run_bind.mpr (wp_mono ?_
      ((constant_resolveClientRoles clientId _).wp_answer (keepsLookups_bare w kc) ht))
    rintro (err | own) u ⟨hown, hu⟩
    · exact fun reps herr => by cases herr
    refine wp_run_bind.mpr (wp_mono ?_ (ih hu))
    rintro (err | others) v hothers
    · exact fun reps herr => by cases herr
    rintro reps ⟨⟩ rep
    rw [List.mem_append, hothers others rfl]
    simp only [List.mem_cons, exists_eq_or_imp, World.Returned, ← hown, Except.ok.injEq,
      exists_eq_left']

theorem wp_desiredComposites_raises (hiterating : Iterating env picks d)
    (ht : KeepsLookups kc (w.servers kc.server) t) :
    wp env ⊤ (s.desiredComposites kc).run (fun r u =>
      KeepsLookups kc (w.servers kc.server) u ∧
        (s.unresolved d w kc).Raises picks (complaint r) ∧
        ∀ reps, r = .ok reps → ∀ rep, rep ∈ reps ↔ s.Resolves d w kc rep) t := by
  unfold RealmRoleSpec.unresolved RealmRoleSpec.Resolves
  rcases hincluded : s.included with _ | composites
  · rw [RealmRoleSpec.desiredComposites_of_none hincluded]
    refine ⟨ht, rfl, ?_⟩
    rintro reps ⟨⟩ rep
    simp
  obtain ⟨hcomposite, hcomposites⟩ := RealmRoleSpec.included_eq_some hincluded
  unfold RealmRoleSpec.desiredComposites
  rw [hcomposite, hcomposites]
  dsimp only
  refine wp_run_bind.mpr (wp_mono ?_ (hiterating.wp
    ((constant_resolveRealmRoles composites.realmRoles).wp_answer (keepsLookups_bare w kc) ht)))
  rintro (err | own) u ⟨hown, hu⟩
  · refine ⟨hu, ?_, fun reps herr => by cases herr⟩
    rw [← hown]
    exact Obstacle.Raises.andThen_left rfl
  rw [← hown, complaint_ok, Obstacle.andThen_of_none]
  refine wp_run_bind.mpr (wp_run_lift.mpr
    (hiterating.wp_rangeKeys fun order hpicked => ?_))
  have hloop := hiterating.meets_stepwise
    (stepwise_resolveRolesOfClients s.realm composites.clientRoles)
    (keepsLookups_bare w kc) order.list u hu
  have hmem := hiterating.wp
    (wp_resolveRolesOfClients_mem s.realm composites.clientRoles order.list hu)
  refine wp_run_bind.mpr
    (wp_mono ?_ (wp_guard_mono (fun _ _ _ => trivial) (wp_and hloop hmem)))
  rintro (err | others) x ⟨⟨hx, hraises⟩, hothers⟩
  · exact ⟨hx, ⟨order, hpicked, hraises⟩, fun reps herr => by cases herr⟩
  refine ⟨hx, ⟨order, hpicked, hraises⟩, ?_⟩
  rintro reps ⟨⟩ rep
  rw [List.mem_append, hothers others rfl]
  simp only [Option.some.injEq, exists_eq_left', World.Returned, ← hown, Except.ok.injEq,
    order.mem_iff]

theorem wp_rolePostApply_raises (hiterating : Iterating env picks d) (ht : t.bare = w.bare) :
    wp env ⊤ (s.postApply kc).run
      (fun r _ => (s.obstacle d w kc).Raises picks (complaint r)) t := by
  refine wp_mono (fun _ _ h => h.2) (wp_after (hiterating.wp (wp_fetch_bare rfl ht))
    fun current _ u hu => ?_)
  refine wp_run_bind.mpr (wp_mono ?_ (wp_desiredComposites_raises hiterating hu))
  rintro (err | desired) v ⟨hv, hraises, hmem⟩
  · exact ⟨hv, hraises.andThen_left⟩
  -- the same roles are desired in every order of the clients
  obtain ⟨-, hraises', hmem'⟩ := (wp_sound (wp_desiredComposites_raises (s := s)
    (iterating_served d) (keepsLookups_bare w kc))
    (exec_handleWith d.serve _ w.bare)).2 _ rfl
  have hfree : ¬ (s.unresolved d w kc).Blocks := fun hblocks => hraises.blocks_iff.mp hblocks rfl
  change (s.unresolved d w kc).Raises _ (complaint (w.answer d (s.desiredComposites kc))) at hraises'
  change ∀ reps, w.answer d (s.desiredComposites kc) = .ok reps → _ at hmem'
  rcases hanswer : w.answer d (s.desiredComposites kc) with err | desired' <;>
    rw [hanswer] at hraises' hmem'
  · exact absurd (hraises'.blocks_iff.mpr (Option.some_ne_none _)) hfree
  have hids : roleIds desired = roleIds desired' := by
    ext id
    rw [mem_roleIds, mem_roleIds]
    simp only [hmem desired rfl, hmem' desired' rfl]
  refine wp_mono ?_ (hiterating.wp
    (wp_applyRoleDiff_compared (.composites s.realm s.name) desired current hv))
  rintro r x ⟨rfl, hx⟩
  refine ⟨hx, hraises.andThen_right ?_⟩
  change _ = complaint (w.answer d (applyRoleDiff desired' current
    ((RoleSet.composites s.realm s.name).add kc) ((RoleSet.composites s.realm s.name).remove kc)))
  rw [answer_applyRoleDiff, hids]

end Roles

/-! ### Groups -/

/-- What is wrong when the client roles of a group are enforced. -/
def GroupSpec.clientObstacle (s : GroupSpec) (d : Denials) (w : World) (kc : Conn) (id : String)
    (mappings : Object) : Obstacle :=
  match s.clientRoles with
  | none => .given none
  | some clientRoles =>
      let clientMappings := mapField mappings "clientMappings"
      let current := mappingsByClient clientMappings (World.sorted clientMappings.keys).list
      (Obstacle.loop current.keys (w.flaw d (s.clearUnlisted kc id clientRoles current))).andThen
        (.loop clientRoles.keys (w.flaw d (s.enforceListed kc id clientRoles current)))

/-- What is wrong when the role mappings of a group are enforced. -/
def GroupSpec.obstacle (s : GroupSpec) (d : Denials) (w : World) (kc : Conn) (remote : Object) :
    Obstacle :=
  .after (requireId remote) fun id =>
    .after (w.answer d (kc.getGroupRoleMappings s.realm id)) fun mappings =>
      (Obstacle.given (complaint (w.answer d (s.enforceRealmRoles kc id mappings)))).andThen
        (s.clientObstacle d w kc id mappings)

section Groups

variable {env : Env operations World} {picks : Picks} {d : Denials} {w t : World} {kc : Conn}
  {server : Server} {s : GroupSpec} {id : String} {mappings : Object}

theorem stepwise_clearUnlisted (clientRoles : FiniteMap String (List String))
    (current : FiniteMap String ClientMapping) :
    Stepwise d (KeepsLookups kc server) (s.clearUnlisted kc id clientRoles current) := by
  refine ⟨⟨false, rfl⟩, fun clientId => ?_⟩
  simp only [GroupSpec.clearUnlisted]
  split
  · exact ⟨Unit, pure (), fun _ a => a, constant_ret _, fun _ => (run_bind_pure _).symm⟩
  · next mapping _ =>
    split
    · exact ⟨Unit, pure (), fun _ a => a, constant_ret _, fun _ => (run_bind_pure _).symm⟩
    · exact ⟨Unit, kc.removeGroupClientRoles s.realm id mapping.uuid mapping.mappings,
        fun _ _ => true, constant_send (detached_remove (.clientMappings s.realm id mapping.uuid) _),
        fun _ => rfl⟩

theorem stepwise_enforceListed (clientRoles : FiniteMap String (List String))
    (current : FiniteMap String ClientMapping) :
    Stepwise d (KeepsLookups kc server) (s.enforceListed kc id clientRoles current) := by
  refine ⟨⟨false, rfl⟩, fun clientId => ⟨Bool, do
    let desired ← resolveClientRoles kc s.realm clientId ((clientRoles.get clientId).getD [])
    let uuid ← GroupSpec.clientUUID kc s.realm clientId
    applyRoleDiff desired (((current.get clientId).map (·.mappings)).getD [])
      (kc.addGroupClientRoles s.realm id uuid) (kc.removeGroupClientRoles s.realm id uuid),
    (· || ·), ?_, fun rest => ?_⟩⟩
  · refine (constant_resolveClientRoles clientId _).run_bind fun desired => ?_
    refine (constant_lookups (compositional_only.has_clientUUID (fun _ h => h) _ _)).run_bind
      fun uuid => ?_
    exact constant_applyRoleDiff (.clientMappings s.realm id uuid) desired _
  · rw [run_bind_assoc]
    simp only [run_bind_assoc]
    rfl

theorem constant_enforceRealmRoles (mappings : Object) :
    Constant (Served d.serve) (KeepsLookups kc server) (s.enforceRealmRoles kc id mappings).run := by
  unfold GroupSpec.enforceRealmRoles
  split
  · exact constant_ret _
  · exact (constant_resolveRealmRoles _).run_bind fun desired =>
      constant_applyRoleDiff (.realmMappings s.realm id) desired _

/-- The document is read in the same way in every order of its clients. -/
theorem mappingsByClient_document {realm group : String}
    (hclients : ∀ client ∈ (server.resources ⟨.client, realm⟩).items, (client.key "clientId").isSome)
    (order order' : Order (mapField (server.roleMappingDocument realm group) "clientMappings").keys) :
    GroupSpec.mappingsByClient (mapField (server.roleMappingDocument realm group) "clientMappings")
        order.list =
      GroupSpec.mappingsByClient (mapField (server.roleMappingDocument realm group) "clientMappings")
        order'.list := by
  refine FiniteMap.ext_get fun clientId => Option.ext fun mapping => ?_
  rw [get_mappingsByClient_document hclients order, get_mappingsByClient_document hclients order']

theorem meets_enforceClientRoles (hiterating : Iterating env picks d)
    (hclients : ∀ client ∈ ((w.servers kc.server).resources ⟨.client, s.realm⟩).items,
      (client.key "clientId").isSome)
    (hmappings : mappings = (w.servers kc.server).roleMappingDocument s.realm id) :
    Meets env picks (KeepsLookups kc (w.servers kc.server)) (s.enforceClientRoles kc id mappings)
      (s.clientObstacle d w kc id mappings) := by
  intro u hu
  refine wp_run_bind.mpr (wp_run_lift.mpr
    (hiterating.wp_rangeKeys fun order _ => ?_))
  subst hmappings
  have hcurrent := mappingsByClient_document hclients order (World.sorted _)
  unfold GroupSpec.clientObstacle
  dsimp only
  rw [hcurrent]
  rcases s.clientRoles with _ | clientRoles
  · exact ⟨hu, rfl⟩
  refine hiterating.meets_range_andThen (hiterating.meets_stepwise (stepwise_clearUnlisted _ _)
    (keepsLookups_bare w kc)) (fun cleared => hiterating.meets_range fun keys => ?_) u hu
  exact (hiterating.meets_stepwise (stepwise_enforceListed _ _) (keepsLookups_bare w kc)
    keys).followed fun changed => meets_pure _

theorem wp_groupPostApply_raises (hiterating : Iterating env picks d) {remote : Object}
    (hclients : ∀ client ∈ ((w.servers kc.server).resources ⟨.client, s.realm⟩).items,
      (client.key "clientId").isSome) (ht : t.bare = w.bare) :
    wp env ⊤ (s.postApply kc remote).run
      (fun r _ => (s.obstacle d w kc remote).Raises picks (complaint r)) t := by
  unfold GroupSpec.postApply GroupSpec.obstacle
  refine wp_run_bind.mpr (wp_run_mk.mpr ?_)
  rcases requireId remote with err | id
  · rfl
  refine wp_mono (fun _ _ h => h.2) (wp_after (hiterating.wp (wp_fetch_bare rfl ht))
    fun mappings hmappings => ?_)
  refine (hiterating.meets_call (constant_enforceRealmRoles mappings)
    (keepsLookups_bare w kc)).andThen fun realmChanged => ?_
  have hdocument := reply_of_answer rfl hmappings
  exact (meets_enforceClientRoles hiterating hclients (Except.ok.inj hdocument).symm).followed
    fun clientChanged => meets_pure _

end Groups

/-! ### Clients -/

/-- What is wrong when a list of client scopes is enforced. -/
def World.scopeObstacle (d : Denials) (w : World) (kc : Conn) (realm client : String)
    (list : ScopeList) (desired : List String) : Obstacle :=
  .after (w.answer d (kc.listClientScopeAssignments realm client list)) fun current =>
    let currentNames := (current.filterMap (stringField · "name")).toFinset
    if desired.toFinset = currentNames then .given none
    else .after (w.answer d (kc.listClientScopes realm)) fun scopes =>
      let idsByName := indexFields "name" "id" scopes
      (Obstacle.loop desired.toFinset fun name => if name ∈ currentNames then none
        else w.flaw d (assignScopes kc realm client list idsByName) name).andThen
        (.loop currentNames fun name => if name ∈ desired.toFinset then none
          else w.flaw d (unassignScopes kc realm client list idsByName) name)

def ClientSpec.listObstacle (s : ClientSpec) (d : Denials) (w : World) (kc : Conn) (id : String)
    (list : ScopeList) : Obstacle :=
  match s.scopes list with
  | none => .given none
  | some desired => w.scopeObstacle d kc s.realm id list desired

/-- What is wrong when the secret of a client is exported and its scopes are enforced. -/
def ClientSpec.obstacle (s : ClientSpec) (d : Denials) (w : World) (kc : Conn) (obj : ManagedObject)
    (remote : Object) : Obstacle :=
  .after (requireId remote) fun id =>
    .after (w.answer d (s.exportSecret kc obj id)) fun _ =>
      (s.listObstacle d w kc id .default).andThen (s.listObstacle d w kc id .optional)

/-- The object with this name of the exported Secret in its status. -/
def ManagedObject.named (obj : ManagedObject) (name : String) : ManagedObject :=
  { obj with status := { obj.status with secretName := name } }

/-- The name that the export puts into the status. -/
def ClientSpec.exported (s : ClientSpec) (d : Denials) (w : World) (kc : Conn) (obj : ManagedObject)
    (remote : Object) : Option String :=
  match requireId remote with
  | .error _ => none
  | .ok id =>
      match w.answer d (s.exportSecret kc obj id) with
      | .error _ => none
      | .ok _ => s.secretOutput.map (·.name)

section Clients

variable {env : Env operations World} {picks : Picks} {d : Denials} {w t : World} {kc : Conn}
  {server : Server} {realm client : String} {list : ScopeList}

theorem stepwise_assignScopes (idsByName : FiniteMap String String) :
    Stepwise d (KeepsLookups kc server) (assignScopes kc realm client list idsByName) := by
  refine ⟨⟨(), rfl⟩, fun name => ?_⟩
  simp only [assignScopes]
  split
  · exact ⟨Unit, throw _, fun _ a => a, constant_ret _, fun _ => rfl⟩
  · next id _ =>
    exact ⟨Unit, kc.assignClientScope realm client list id true, fun _ a => a,
      constant_send (detached_assign realm client list _), fun _ =>
      congrArg _ (funext fun _ => (run_bind_pure _).symm)⟩

theorem stepwise_unassignScopes (idsByName : FiniteMap String String) :
    Stepwise d (KeepsLookups kc server) (unassignScopes kc realm client list idsByName) := by
  refine ⟨⟨(), rfl⟩, fun name => ?_⟩
  simp only [unassignScopes]
  split
  · exact ⟨Unit, pure (), fun _ a => a, constant_ret _, fun _ => (run_bind_pure _).symm⟩
  · next id _ =>
    exact ⟨Unit, kc.assignClientScope realm client list id false, fun _ a => a,
      constant_send (detached_unassign realm client list _), fun _ =>
      congrArg _ (funext fun _ => (run_bind_pure _).symm)⟩

/-- A loop over what is left of the keys. -/
theorem findSome?_filter_notMem (s : Finset String) (f : String → Option β) (l : List String) :
    (l.filter fun a => decide (a ∉ s)).findSome? f = l.findSome? fun a => if a ∈ s then none else f a := by
  induction l with
  | nil => rfl
  | cons a l ih =>
    rw [List.findSome?_cons, ← ih]
    by_cases ha : a ∈ s
    · simp [ha]
    · simp [ha, List.findSome?_cons]

theorem Obstacle.Raises.loops {keys keys' : Finset String} {flaw flaw' : String → Option String}
    {raised : Option String} {order : Order keys} {order' : Order keys'} (hpicked : picks keys order)
    (hpicked' : picks keys' order')
    (h : ((given (order.list.findSome? flaw)).andThen
      (given (order'.list.findSome? flaw'))).Raises picks raised) :
    ((loop keys flaw).andThen (loop keys' flaw')).Raises picks raised := by
  rcases hfirst : order.list.findSome? flaw with _ | complaint
  · rw [hfirst, andThen_of_none] at h
    exact Raises.andThen_right ⟨order, hpicked, hfirst.symm⟩ ⟨order', hpicked', h⟩
  · rw [hfirst, andThen_of_some] at h
    cases h
    exact Raises.andThen_left ⟨order, hpicked, hfirst.symm⟩

/-- The two loops over scopes, with the names that they are given. -/
theorem meets_moveScopes (hiterating : Iterating env picks d) (toAdd toRemove : List String) :
    Meets env picks (KeepsLookups kc (w.servers kc.server)) (do
      let scopes ← kc.listClientScopes realm
      assignScopes kc realm client list (indexFields "name" "id" scopes) toAdd
      unassignScopes kc realm client list (indexFields "name" "id" scopes) toRemove
      return true)
      (.after (w.answer d (kc.listClientScopes realm)) fun scopes =>
        (Obstacle.given (toAdd.findSome? (w.flaw d
          (assignScopes kc realm client list (indexFields "name" "id" scopes))))).andThen
          (.given (toRemove.findSome? (w.flaw d
            (unassignScopes kc realm client list (indexFields "name" "id" scopes)))))) := by
  refine hiterating.meets_after (constant_send (detached_clientScopes realm _))
    (keepsLookups_bare w kc) fun scopes => ?_
  refine (hiterating.meets_stepwise (stepwise_assignScopes _) (keepsLookups_bare w kc)
    toAdd).andThen fun _ => ?_
  exact (hiterating.meets_stepwise (stepwise_unassignScopes _) (keepsLookups_bare w kc)
    toRemove).followed fun _ => meets_pure true

theorem wp_enforceScopeAssignments_raises (hiterating : Iterating env picks d)
    (ht : KeepsLookups kc (w.servers kc.server) t)
    (hassigned : (t.servers kc.server).assigned list realm client =
      (w.servers kc.server).assigned list realm client) (desired : List String) :
    wp env ⊤ (enforceScopeAssignments kc realm client desired list).run (fun r u =>
      KeepsLookups kc (w.servers kc.server) u ∧
        (w.scopeObstacle d kc realm client list desired).Raises picks (complaint r)) t := by
  have hget : (t.servers kc.server).get (.assignments realm client list) =
      (w.servers kc.server).get (.assignments realm client list) := by
    simp only [Server.get, Server.assignedScopes, Server.find, hassigned, ht.resources]
  have hread : wp (Served d.serve) ⊤
      (kc.listClientScopeAssignments realm client list).run (fun r u =>
        r = w.answer d (kc.listClientScopeAssignments realm client list) ∧
          KeepsLookups kc (w.servers kc.server) u) t := by
    refine wp_mono ?_ (wp_fetch rfl hget)
    rintro r u ⟨hr, rfl⟩
    exact ⟨hr, ht⟩
  refine wp_after (hiterating.wp hread) fun current _ u hu => ?_
  refine wp_run_bind.mpr (wp_run_lift.mpr
    (hiterating.wp_iterate fun order hpicked => ?_))
  refine wp_run_bind.mpr (wp_run_lift.mpr
    (hiterating.wp_iterate fun order' hpicked' => ?_))
  generalize hnames : (current.filterMap (stringField · "name")).toFinset = currentNames at *
  have hnothing : (order.list.filter fun name => decide (name ∉ currentNames)) = [] ∧
      (order'.list.filter fun name => decide (name ∉ desired.toFinset)) = [] ↔
      desired.toFinset = currentNames := by
    simp only [List.filter_eq_nil_iff, order.mem_iff, order'.mem_iff, decide_eq_true_eq, not_not]
    exact ⟨fun h => Finset.Subset.antisymm h.1 h.2, fun h => ⟨h.subset, h.symm.subset⟩⟩
  dsimp only
  by_cases hsame : desired.toFinset = currentNames
  · rw [if_pos (hnothing.mpr hsame), if_pos hsame]
    exact ⟨hu, rfl⟩
  rw [if_neg (mt hnothing.mp hsame), if_neg hsame]
  refine wp_mono ?_ (meets_moveScopes hiterating _ _ u hu)
  rintro r x ⟨hx, hraises⟩
  refine ⟨hx, ?_⟩
  generalize w.answer d (kc.listClientScopes realm) = answer at hraises ⊢
  rcases answer with err | scopes
  · exact hraises
  · refine Obstacle.Raises.loops hpicked hpicked' ?_
    rw [← findSome?_filter_notMem, ← findSome?_filter_notMem]
    exact hraises

/-- The writes of one list leave the other alone. -/
theorem served_assigned {op : Op} {answer : op.Answer} {list' : ScopeList} (hlist : list' ≠ list)
    (hop : op.Reads ∨ ∃ method scope,
      op = .admin kc ⟨method, .assignment realm client list scope, .none, .nothing⟩)
    (hstep : Served d.serve op w answer t) :
    (t.servers kc.server).assigned list' = (w.servers kc.server).assigned list' := by
  rcases hop with hreads | ⟨method, scope, rfl⟩
  · rw [served_servers d.serve_get (.inl hreads) hstep]
  obtain ⟨-, rfl⟩ := served_admin hstep
  rcases hdenied : d.error kc.label method (.assignment realm client list scope) .none with _ | err
  · rw [Denials.adminWith_of_admitted hdenied, World.admin]
    dsimp only
    rw [World.servers_setServer]
    rcases method
    · rfl
    · rfl
    · simp only [Server.serve, Endpoint.item, Server.writeSub]
      split
      · exact Function.update_of_ne hlist _ _
      · rfl
    · exact Function.update_of_ne hlist _ _
  · rw [Denials.adminWith_of_denied hdenied]

variable {s : ClientSpec} {obj : ManagedObject} {remote : Object} {id : String}

/-- One of the two lists.  The other list is as before. -/
theorem wp_enforceScopes_raises (hiterating : Iterating env picks d)
    (ht : KeepsLookups kc (w.servers kc.server) t)
    (hassigned : (t.servers kc.server).assigned list = (w.servers kc.server).assigned list) :
    wp env ⊤ (s.enforceScopes kc id list (s.scopes list)).run (fun r u =>
      (KeepsLookups kc (w.servers kc.server) u ∧ ∀ list', list' ≠ list →
        (u.servers kc.server).assigned list' = (t.servers kc.server).assigned list') ∧
      (s.listObstacle d w kc id list).Raises picks (complaint r)) t := by
  unfold ClientSpec.listObstacle
  rcases s.scopes list with _ | desired
  · exact ⟨⟨ht, fun _ _ => rfl⟩, rfl⟩
  have honly : Only (fun op : Op => op.Reads ∨ ∃ method scope, op = .admin kc
      ⟨method, .assignment s.realm id list scope, .none, .nothing⟩)
      (enforceScopeAssignments kc s.realm id desired list).run :=
    compositional_only.has_enforceScopeAssignments (fun _ => .inl)
      (fun method scope => .inr ⟨method, scope, rfl⟩) desired
  have hothers : wp env _ (enforceScopeAssignments kc s.realm id desired list).run (fun _ u =>
      ∀ list', list' ≠ list → (u.servers kc.server).assigned list' =
        (t.servers kc.server).assigned list') t :=
    wp_of_only _ (fun _ _ _ _ hop hu hstep list' hlist =>
      (served_assigned hlist hop (hiterating.served hstep)).trans (hu list' hlist)) honly
      fun _ _ => rfl
  refine wp_mono ?_ (wp_guard_mono (fun _ _ _ => trivial) (wp_and hothers
    (wp_enforceScopeAssignments_raises hiterating ht (by rw [hassigned]) desired)))
  rintro r u ⟨hkept, hu, hraises⟩
  exact ⟨⟨hu, hkept⟩, hraises⟩

theorem wp_exportSecret_answer (ht : t.bare = w.bare) :
    wp (Served d.serve) ⊤ (s.exportSecret kc obj id).run
      (fun r u => r = w.answer d (s.exportSecret kc obj id) ∧ u.servers = w.servers) t := by
  have honly : Only (fun op : Op => op.Reads ∨ op.WritesSecret) (s.exportSecret kc obj id).run :=
    compositional_only.has_exportSecret (fun _ h => .inl h) (fun _ _ => .inl trivial)
      (fun _ _ => .inr) obj
  have hplain : Only Op.Plain (s.exportSecret kc obj id).run := by
    refine compositional_only.has_exportSecret (fun _ _ => trivial) (fun _ _ => trivial)
      (fun _ op hop => ?_) obj
    rcases op <;> first | exact hop.elim | exact trivial
  have hkept : wp (Served d.serve) _ (s.exportSecret kc obj id).run
      (fun _ u => u.servers = w.servers) t :=
    wp_of_only (fun u : World => u.servers = w.servers) (fun _ _ _ _ hop hu hstep =>
      (served_servers d.serve_get hop hstep).trans hu) honly (World.servers_of_bare ht)
  refine wp_mono ?_ (wp_guard_mono (fun _ _ _ => trivial) (wp_and hkept (wp_answer hplain ht)))
  rintro r u ⟨hservers, hr, -⟩
  exact ⟨hr, hservers⟩

theorem wp_clientPostApply_raises (hiterating : Iterating env picks d) (ht : t.bare = w.bare) :
    wp env ⊤ (s.postApply kc obj remote) (fun result _ =>
      (s.obstacle d w kc obj remote).Raises picks (complaint result.2) ∧
        result.1 = obj.named ((s.exported d w kc obj remote).getD obj.status.secretName)) t := by
  unfold ClientSpec.postApply ClientSpec.obstacle ClientSpec.exported
  rcases requireId remote with err | id
  · exact ⟨rfl, rfl⟩
  dsimp only [Obstacle.after]
  refine wp_bind.mpr (wp_mono ?_ (hiterating.wp (wp_exportSecret_answer ht)))
  rintro (err | exported) u ⟨hr, hu⟩ <;> rw [← hr]
  · exact ⟨rfl, rfl⟩
  have hservers : ∀ list, (u.servers kc.server).assigned list =
      (w.servers kc.server).assigned list := fun list => by rw [hu]
  have hlookups : KeepsLookups kc (w.servers kc.server) u := by
    unfold KeepsLookups
    rw [hu]
    exact .refl _
  have hlists : wp env ⊤ (do
      let defaults ← s.enforceScopes kc id .default (s.scopes .default)
      let optionals ← s.enforceScopes kc id .optional (s.scopes .optional)
      return exported || defaults || optionals : Call Bool).run (fun r _ =>
        ((s.listObstacle d w kc id .default).andThen
          (s.listObstacle d w kc id .optional)).Raises picks (complaint r)) u := by
    refine wp_run_bind.mpr
      (wp_mono ?_ (wp_enforceScopes_raises hiterating hlookups (hservers .default)))
    rintro (err | defaults) v ⟨⟨hv, hothers⟩, hraises⟩
    · exact hraises.andThen_left
    refine wp_run_bind.mpr (wp_mono ?_ (wp_enforceScopes_raises hiterating hv
      ((hothers .optional (by decide)).trans (hservers .optional))))
    rintro (err | optionals) x ⟨-, hraises'⟩ <;> exact hraises.andThen_right hraises'
  refine wp_bind.mpr (wp_mono ?_ hlists)
  intro r v hraises
  refine ⟨hraises, ?_⟩
  rcases s.secretOutput <;> rfl

end Clients

/-! ### Identity providers -/

/-- What is wrong when the mappers of an identity provider are enforced. -/
def IdentityProviderSpec.obstacle (s : IdentityProviderSpec) (d : Denials) (w : World) (kc : Conn) :
    Obstacle :=
  .after (w.answer d (kc.listIdentityProviderMappers s.realm s.idpAlias)) fun current =>
    let currentByName := mappersByName current
    (Obstacle.loop s.desiredByName.keys (w.flaw d (s.applyMappers kc currentByName))).andThen
      (.loop currentByName.keys (w.flaw d (s.removeMappers kc currentByName)))

section Mappers

variable {env : Env operations World} {picks : Picks} {d : Denials} {w t : World} {kc : Conn}
  {s : IdentityProviderSpec} {currentByName : FiniteMap String Object}

theorem stepwise_removeMappers :
    Stepwise d (fun _ => True) (s.removeMappers kc currentByName) := by
  refine ⟨⟨false, rfl⟩, fun name => ?_⟩
  simp only [IdentityProviderSpec.removeMappers]
  split
  · exact ⟨Unit, pure (), fun _ a => a, constant_ret _, fun _ => (run_bind_pure _).symm⟩
  · next id _ =>
    refine ⟨Unit, kc.deleteIdentityProviderMapper s.realm s.idpAlias id, fun _ _ => true, ?_,
      fun _ => rfl⟩
    -- only a refusal fails
    rcases hdenied : d.error kc.label .delete (.mapper s.realm s.idpAlias id) .none with _ | err
    · refine ⟨.ok (), fun u _ => ⟨trivial, fun answer v hstep => ⟨?_, trivial⟩⟩⟩
      obtain ⟨rfl, -⟩ := served_admin hstep
      rw [Denials.adminWith_of_admitted hdenied]
      rfl
    · refine ⟨.error err, fun u _ => ⟨trivial, fun answer v hstep => ⟨?_, trivial⟩⟩⟩
      obtain ⟨rfl, -⟩ := served_admin hstep
      rw [Denials.adminWith_of_denied hdenied]

theorem applyMapper_cases (payload : Object) (existing : Option Object) :
    s.applyMapper kc payload existing = pure false ∨ ∃ method endpoint,
      s.applyMapper kc payload existing = do
        kc.submit method endpoint (.object payload)
        return true := by
  unfold IdentityProviderSpec.applyMapper
  split
  · split
    · split
      · exact .inr ⟨_, _, rfl⟩
      · exact .inl rfl
    · exact .inr ⟨_, _, rfl⟩
  · exact .inr ⟨_, _, rfl⟩

/-- One desired mapper: only a refusal is a reason to complain. -/
theorem exists_applied (d : Denials) (kc : Conn) (s : IdentityProviderSpec)
    (mapper : IdentityProviderMapper) (stored : Option Resource) :
    ∃ flaw, ∀ u : World, (u.mappers kc s.realm s.idpAlias).find (.key mapper.name) = stored →
      wp (Served d.serve) ⊤ (s.applyMapper kc (s.mapperPayload mapper)
        (stored.map Resource.report)).run (fun r v => complaint r = flaw ∧
          (u.mappers kc s.realm s.idpAlias).ChangesOnly (v.mappers kc s.realm s.idpAlias)
            mapper.name) u := by
  rcases applyMapper_cases (s.mapperPayload mapper) (stored.map Resource.report) with
    heq | ⟨method, endpoint, heq⟩
  · refine ⟨none, fun u _ => ?_⟩
    rw [heq]
    exact ⟨rfl, fun _ _ => rfl⟩
  rcases hdenied : d.error kc.label method endpoint (.object (s.mapperPayload mapper)) with _ | err
  · refine ⟨none, fun u hu => ?_⟩
    have honly : Only (fun op : Op => op = .admin kc
        ⟨method, endpoint, .object (s.mapperPayload mapper), .nothing⟩)
        (s.applyMapper kc (s.mapperPayload mapper) (stored.map Resource.report)).run := by
      rw [heq]
      exact only_run_bind (only_send rfl) fun _ => trivial
    rw [← hu] at honly ⊢
    refine wp_transfer (wp_applyMapper keepsMappers_reliable (fun _ _ => trivial)
      (fun herrs => (herrs acceptsMappers_reliable).elim) fun _ _ hchanges _ => ⟨rfl, hchanges⟩) honly ?_
    rintro op u answer v rfl hstep
    exact served_reliable (by simp only [Denials.serve, hdenied]) hstep
  · refine ⟨some err.text, fun u _ => ?_⟩
    rw [heq]
    refine wp_run_bind.mpr ⟨trivial, fun answer v hstep => ?_⟩
    obtain ⟨rfl, rfl⟩ := served_admin hstep
    rw [Denials.adminWith_of_denied hdenied]
    exact ⟨rfl, fun _ _ => rfl⟩

/-- The loop over the desired mappers.  What is stored under a name is as it was until its turn. -/
theorem wp_applyMappers_raises {names : List String} (hnodup : names.Nodup)
    (hcurrent : ∀ name, currentByName.get name =
      ((w.mappers kc s.realm s.idpAlias).find (.key name)).map Resource.report)
    (ht : ∀ name ∈ names, (t.mappers kc s.realm s.idpAlias).find (.key name) =
      (w.mappers kc s.realm s.idpAlias).find (.key name)) :
    wp (Served d.serve) ⊤ (s.applyMappers kc currentByName names).run (fun r _ =>
      complaint r = names.findSome? (w.flaw d (s.applyMappers kc currentByName))) t := by
  induction names generalizing t with
  | nil => rfl
  | cons name rest ih =>
    obtain ⟨hnotMem, hrest⟩ := List.nodup_cons.mp hnodup
    rw [List.findSome?_cons]
    rcases hlast : s.lastNamed name with _ | mapper
    · have hflaw : w.flaw d (s.applyMappers kc currentByName) name = none := by
        simp only [World.flaw, IdentityProviderSpec.applyMappers, get_desiredByName, hlast]
        rfl
      rw [hflaw, IdentityProviderSpec.applyMappers, get_desiredByName, hlast]
      exact ih hrest fun name' hmem => ht name' (List.mem_cons_of_mem _ hmem)
    have hname := name_of_lastNamed hlast
    subst hname
    obtain ⟨flaw, happlied⟩ := exists_applied d kc s mapper
      ((w.mappers kc s.realm s.idpAlias).find (.key mapper.name))
    have hcons : ∀ more, s.applyMappers kc currentByName (mapper.name :: more) = do
        let wrote ← s.applyMapper kc (s.mapperPayload mapper)
          (((w.mappers kc s.realm s.idpAlias).find (.key mapper.name)).map Resource.report)
        let others ← s.applyMappers kc currentByName more
        return wrote || others := by
      intro more
      rw [IdentityProviderSpec.applyMappers, get_desiredByName, hlast, hcurrent]
    have hflaw : w.flaw d (s.applyMappers kc currentByName) mapper.name = flaw := by
      have hsingle : wp (Served d.serve) ⊤
          (s.applyMappers kc currentByName [mapper.name]).run (fun r _ => complaint r = flaw) w.bare := by
        rw [hcons]
        refine wp_run_bind.mpr (wp_mono ?_ (happlied w.bare rfl))
        rintro (err | wrote) u ⟨hr, -⟩ <;> exact hr
      exact (wp_sound hsingle (exec_handleWith d.serve _ w.bare)).2 _ rfl
    rw [hflaw, hcons]
    refine wp_run_bind.mpr (wp_mono ?_ (happlied t (ht _ List.mem_cons_self)))
    rintro (err | wrote) u ⟨rfl, hchanges⟩
    · rfl
    refine wp_run_bind.mpr (wp_mono ?_ (ih hrest fun name' hmem => ?_))
    · rintro (err | others) v hr <;> exact hr
    · rw [hchanges name' fun heq => hnotMem (heq ▸ hmem)]
      exact ht name' (List.mem_cons_of_mem _ hmem)

/-- Both loops over mappers.  The removals do not look at what the first loop did. -/
theorem wp_idpPostApply_raises (hiterating : Iterating env picks d) (ht : t.bare = w.bare) :
    wp env ⊤ (s.postApply kc).run
      (fun r _ => (s.obstacle d w kc).Raises picks (complaint r)) t := by
  have hservers := World.servers_of_bare ht
  have hlist : wp env ⊤ (kc.listIdentityProviderMappers s.realm s.idpAlias).run
      (fun r u => r = w.answer d (kc.listIdentityProviderMappers s.realm s.idpAlias) ∧ u = t) t :=
    hiterating.wp (wp_fetch rfl (by rw [hservers]))
  unfold IdentityProviderSpec.obstacle
  refine wp_run_bind.mpr (wp_mono ?_ hlist)
  rintro (err | current) u ⟨hr, rfl⟩ <;> rw [← hr]
  · exact rfl
  have hindex : ∀ name, (IdentityProviderSpec.mappersByName current).get name =
      ((w.mappers kc s.realm s.idpAlias).find (.key name)).map Resource.report := by
    rw [← Except.ok.inj (reply_of_answer rfl hr.symm)]
    exact get_currentByName _
  dsimp only [Obstacle.after]
  generalize IdentityProviderSpec.mappersByName current = currentByName at hindex ⊢
  have hremove : ∀ applied, Meets env picks (fun _ => True) (do
      let order ← rangeKeys currentByName
      let removed ← s.removeMappers kc currentByName order
      return applied || removed)
      (.loop currentByName.keys (w.flaw d (s.removeMappers kc currentByName))) := fun applied =>
    hiterating.meets_range fun keys => (hiterating.meets_stepwise stepwise_removeMappers trivial
      keys).followed fun _ => meets_pure _
  refine wp_run_bind.mpr (wp_run_lift.mpr
    (hiterating.wp_rangeKeys fun order hpicked => ?_))
  have hstored : ∀ name ∈ order.list, (u.mappers kc s.realm s.idpAlias).find (.key name) =
      (w.mappers kc s.realm s.idpAlias).find (.key name) := fun _ _ => by
    rw [World.mappers, World.mappers, hservers]
  refine wp_run_bind.mpr
    (wp_mono ?_ (hiterating.wp (wp_applyMappers_raises order.nodup hindex hstored)))
  rintro (err | applied) v happlied
  · exact Obstacle.Raises.andThen_left ⟨order, hpicked, happlied⟩
  · refine wp_mono ?_ (hremove applied v trivial)
    rintro r x ⟨-, hraises⟩
    exact Obstacle.Raises.andThen_right ⟨order, hpicked, happlied⟩ hraises

end Mappers

/-! ### The payload -/

/-- What is wrong with the Secret and with the entries that are selected. -/
def SecretKeysSelector.obstacle (selector : SecretKeysSelector) (d : Denials) (w : World)
    (ns : String) : Obstacle :=
  .after (w.answer d (readSecret ns selector.name)) fun secret =>
    .loop selector.keys.keys fun target =>
      complaint (collectSecretValues ns selector secret [target] ∅)

/-- What is wrong with the Secret that a spec refers to. -/
def World.preparation (d : Denials) (w : World) (obj : ManagedObject) : Obstacle :=
  match obj.spec with
  | .realm s => s.smtpServerSecretRef.elim (.given none) fun selector =>
      selector.obstacle d w obj.ns
  | .client s => s.secretRef.elim (.given none) fun selector =>
      .given (complaint (w.answer d (readSecretValue obj.ns selector clientSecretKey)))
  | .identityProvider s => s.configSecretRef.elim (.given none) fun selector =>
      selector.obstacle d w obj.ns
  | _ => .given none

section Preparation

variable {env : Env operations World} {picks : Picks} {d : Denials} {w t : World}
  {obj : ManagedObject}

theorem complaint_collectSecretValues {ns : String} {selector : SecretKeysSelector} {secret : Secret}
    (targets : List String) (out : FiniteMap String String) :
    complaint (collectSecretValues ns selector secret targets out) =
      targets.findSome? fun target =>
        complaint (collectSecretValues ns selector secret [target] ∅) := by
  induction targets generalizing out with
  | nil => rfl
  | cons target rest ih =>
    rw [List.findSome?_cons]
    simp only [collectSecretValues] at ih ⊢
    rcases selector.keys.get target with _ | key
    · exact ih out
    · dsimp only
      rcases secretEntry ns selector.name secret key with err | value
      · rfl
      · exact ih _

theorem meets_readSecretValues (hiterating : Iterating env picks d) (ns : String)
    (selector : SecretKeysSelector) :
    Meets env picks (fun u => u.bare = w.bare) (readSecretValues ns selector)
      (selector.obstacle d w ns) := by
  refine hiterating.meets_after (constant_fetches (only_readSecret (fun _ _ => trivial) _ _)) rfl
    fun secret => hiterating.meets_range fun targets => ?_
  rw [← complaint_collectSecretValues targets ∅]
  exact fun u hu => ⟨hu, rfl⟩

/-- **What the payload preparation complains about.** -/
theorem meets_preparePayload (hiterating : Iterating env picks d) (p : Object) :
    Meets env picks (fun u => u.bare = w.bare) (obj.spec.driver.preparePayload obj p)
      (w.preparation d obj) := by
  unfold World.preparation
  rcases hs : obj.spec with s | s | s | s | s | s
  case clientScope | realmRole | group => exact meets_pure p
  case realm =>
    change Meets env picks _ (s.preparePayload obj p) _
    unfold RealmSpec.preparePayload
    dsimp only
    rcases s.smtpServerSecretRef with _ | selector
    · exact meets_pure p
    · exact (meets_readSecretValues hiterating obj.ns selector).followed fun values => meets_pure _
  case client =>
    change Meets env picks _ (s.preparePayload obj p) _
    unfold ClientSpec.preparePayload
    dsimp only
    rcases s.secretRef with _ | selector
    · exact meets_pure p
    · refine Meets.followed (hiterating.meets_call (constant_fetches ?_) rfl) fun value => meets_pure _
      exact only_run_bind (only_readSecret (fun _ _ => trivial) _ _) fun _ => only_mk _
  case identityProvider =>
    change Meets env picks _ (s.preparePayload obj p) _
    unfold IdentityProviderSpec.preparePayload
    dsimp only
    rcases s.configSecretRef with _ | selector
    · exact meets_pure p
    · exact (meets_readSecretValues hiterating obj.ns selector).followed fun values => meets_pure _

/-- The payload comes from the entries of the Secret, whatever their order. -/
theorem wp_preparePayload_sourced (p : Object) : wp (Served d.serve) ⊤
    (obj.spec.driver.preparePayload obj p).run (fun r _ => ∀ payload, r = .ok payload →
      ∃ inj, t.Sources obj inj ∧ payload = applyAll inj.rewrite.toList p) t := by
  refine wp_prepared (fun {op _ _ _} hop hstep => .inl ?_) p (fun _ _ => trivial)
    (fun _ _ _ _ _ _ _ _ hok => by cases hok) fun inj hinj payload hpayload =>
      ⟨inj, hinj, (Except.ok.inj hpayload).symm⟩
  obtain ⟨order, now, heq⟩ := hstep
  refine ⟨order, now, ?_⟩
  rcases op <;> first | exact hop.elim | exact heq

/-- **The payload preparation**: its complaint may depend on an order, the payload does not. -/
theorem wp_preparePayload_answer (hiterating : Iterating env picks d) (p : Object)
    (ht : t.bare = w.bare) : wp env ⊤ (obj.spec.driver.preparePayload obj p).run
      (fun r u => u.bare = w.bare ∧ (w.preparation d obj).Raises picks (complaint r) ∧
        ((∃ err, r = .error err ∧ ∃ err', w.answer d (obj.spec.driver.preparePayload obj p) =
            .error err') ∨ r = w.answer d (obj.spec.driver.preparePayload obj p))) t := by
  have hcanonical := exec_handleWith d.serve (obj.spec.driver.preparePayload obj p).run w.bare
  have hraises' := ((wp_sound (meets_preparePayload (iterating_served d) p w.bare rfl)
    hcanonical).2 _ rfl).2
  have hsources' := (wp_sound (wp_preparePayload_sourced p) hcanonical).2 _ rfl
  change (w.preparation d obj).Raises _ (complaint (w.answer d _)) at hraises'
  change ∀ payload, w.answer d _ = .ok payload → _ at hsources'
  refine wp_mono ?_ (wp_guard_mono (fun _ _ _ => trivial) (wp_and
    (meets_preparePayload hiterating p t ht) (hiterating.wp (wp_preparePayload_sourced p))))
  rintro r u ⟨⟨hu, hraises⟩, hsources⟩
  refine ⟨hu, hraises, ?_⟩
  have hblocks := hraises.blocks_iff.symm.trans hraises'.blocks_iff
  generalize w.answer d (obj.spec.driver.preparePayload obj p) = answer at hraises' hsources' hblocks ⊢
  rcases r with err | payload <;> rcases answer with err' | payload'
  · exact .inl ⟨err, rfl, err', rfl⟩
  · exact absurd rfl (hblocks.mp (Option.some_ne_none _))
  · exact absurd rfl (hblocks.mpr (Option.some_ne_none _))
  · obtain ⟨inj, hinj, rfl⟩ := hsources payload rfl
    obtain ⟨inj', hinj', rfl⟩ := hsources' payload' rfl
    have hsecrets : t.secrets = w.secrets :=
      show t.bare.secrets = w.bare.secrets from congrArg World.secrets ht
    have hinj : w.bare.Sources obj inj := by
      unfold World.Sources at hinj ⊢
      rw [hsecrets] at hinj
      exact hinj
    rw [hinj.unique hinj']
    exact .inr rfl

end Preparation

/-! ### What follows the resource -/

/-- What is wrong when a driver enforces what lies below the resource. -/
def World.enforcement (d : Denials) (w : World) (kc : Conn) (obj : ManagedObject) (remote : Object) :
    Obstacle :=
  match obj.spec with
  | .client s => s.obstacle d w kc obj remote
  | .realmRole s => s.obstacle d w kc
  | .identityProvider s => s.obstacle d w kc
  | .group s => s.obstacle d w kc remote
  | _ => .given none

/-- The name of the exported Secret that `PostApply` puts into the status. -/
def World.exported (d : Denials) (w : World) (kc : Conn) (obj : ManagedObject) (remote : Object) :
    Option String :=
  match obj.spec with
  | .client s => s.exported d w kc obj remote
  | _ => none

/-- **What `PostApply` complains about**, and the name of the exported Secret that it leaves. -/
theorem wp_postApply_raises {env : Env operations World} {picks : Picks} {d : Denials} {w t : World}
    {kc : Conn} {obj : ManagedObject} {remote : Object} (hiterating : Iterating env picks d)
    (hclients : obj.spec.ClientsNamed (w.servers kc.server)) (ht : t.bare = w.bare) :
    wp env ⊤ (obj.spec.driver.postApply kc obj remote) (fun result _ =>
      (w.enforcement d kc obj remote).Raises picks (complaint result.2) ∧
        result.1 = obj.named ((w.exported d kc obj remote).getD obj.status.secretName)) t := by
  unfold World.enforcement World.exported
  have hkept : ∀ {call : Call Bool} {o : Obstacle},
      wp env ⊤ call.run (fun r _ => o.Raises picks (complaint r)) t →
      wp env ⊤ (keepObject obj call) (fun result _ =>
        o.Raises picks (complaint result.2) ∧ result.1 = obj.named obj.status.secretName) t :=
    fun h => wp_bind.mpr (wp_mono (fun _ _ hraises => ⟨hraises, rfl⟩) h)
  rcases hs : obj.spec with s | s | s | s | s | s
  case realm | clientScope => exact ⟨rfl, rfl⟩
  case client => exact wp_clientPostApply_raises hiterating ht
  case realmRole => exact hkept (wp_rolePostApply_raises hiterating ht)
  case identityProvider => exact hkept (wp_idpPostApply_raises hiterating ht)
  case group => exact hkept (wp_groupPostApply_raises hiterating (hclients s hs) ht)

end KeycloakOperator
