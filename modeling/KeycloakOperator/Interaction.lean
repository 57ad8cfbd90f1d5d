import Mathlib.Logic.Relation

/-!
# Programs that interact with their environment

A program is a tree: it returns, or it performs an operation and goes on with the
answer.  Nothing is said here about what the operations do.  An environment is a
relation between an operation, the state before it, its answer and the state after
it; the same program can so be run against a cooperating environment, one that
fails at any call, or one that answers at will.

* `Prog.Exec` is an execution, complete or cut off at some operation (a crash).
* `Prog.wp` is the weakest precondition, with a guard that every operation must
  satisfy at the state in which it is performed.
* `Prog.Only` bounds the operations of a program whatever the answers are.
* `Prog.Run` repeats a program, with moves of somebody else between the executions.
-/

namespace KeycloakOperator

/-- Operations, each with the type of its answers. -/
structure Signature where
  Op : Type
  Answer : Op → Type

/-- A program over the operations of `S`. -/
inductive Prog (S : Signature) (α : Type) : Type where
  | ret (a : α)
  | call (op : S.Op) (next : S.Answer op → Prog S α)

namespace Prog

variable {S : Signature} {α β γ σ : Type}

/-! ### Sequencing -/

def bind : Prog S α → (α → Prog S β) → Prog S β
  | .ret a, f => f a
  | .call op next, f => .call op fun answer => (next answer).bind f

instance : Monad (Prog S) where
  pure := .ret
  bind := Prog.bind

/-- Perform one operation. -/
def perform (op : S.Op) : Prog S (S.Answer op) := .call op .ret

@[simp] theorem pure_bind (a : α) (f : α → Prog S β) : (pure a : Prog S α) >>= f = f a := rfl

@[simp] theorem call_bind (op : S.Op) (next : S.Answer op → Prog S α) (f : α → Prog S β) :
    Prog.call op next >>= f = .call op fun answer => next answer >>= f := rfl

theorem bind_assoc (p : Prog S α) (f : α → Prog S β) (g : β → Prog S γ) :
    (p >>= f) >>= g = p >>= fun a => f a >>= g := by
  induction p with
  | ret a => rfl
  | call op next ih =>
    simp only [call_bind]
    exact congrArg _ (funext ih)

/-! ### Executions -/

/-- What an environment may do: `env op s answer s'`. -/
abbrev Env (S : Signature) (σ : Type) : Type := (op : S.Op) → σ → S.Answer op → σ → Prop

/-- One operation of an execution, with the states around it. -/
structure Step (S : Signature) (σ : Type) where
  before : σ
  op : S.Op
  answer : S.Answer op
  after : σ

/-- `Exec env p s steps t result`: from state `s`, the program performs `steps`,
    reaches `t` and returns `result`, or is cut off there (`none`). -/
inductive Exec (env : Env S σ) : Prog S α → σ → List (Step S σ) → σ → Option α → Prop where
  | ret (a : α) (s : σ) : Exec env (.ret a) s [] s (some a)
  | crash (p : Prog S α) (s : σ) : Exec env p s [] s none
  | call {op : S.Op} {next : S.Answer op → Prog S α} {s s' t : σ} {answer : S.Answer op}
      {steps : List (Step S σ)} {result : Option α} (hstep : env op s answer s')
      (hrest : Exec env (next answer) s' steps t result) :
      Exec env (.call op next) s (⟨s, op, answer, s'⟩ :: steps) t result

theorem Exec.call_inv {env : Env S σ} {op : S.Op} {next : S.Answer op → Prog S α} {s t : σ}
    {steps : List (Step S σ)} {result : Option α}
    (h : Exec env (.call op next) s steps t result) :
    (steps = [] ∧ t = s ∧ result = none) ∨
      ∃ answer s' rest, env op s answer s' ∧ steps = ⟨s, op, answer, s'⟩ :: rest ∧
        Exec env (next answer) s' rest t result := by
  cases h with
  | crash p s => exact .inl ⟨rfl, rfl, rfl⟩
  | call hstep hrest => exact .inr ⟨_, _, _, hstep, rfl, hrest⟩

/-- A completed execution has performed the first operation. -/
theorem Exec.call_returned {env : Env S σ} {op : S.Op} {next : S.Answer op → Prog S α} {s t : σ}
    {steps : List (Step S σ)} {a : α} (h : Exec env (.call op next) s steps t (some a)) :
    ∃ answer s' rest, env op s answer s' ∧ steps = ⟨s, op, answer, s'⟩ :: rest ∧
      Exec env (next answer) s' rest t (some a) := by
  rcases h.call_inv with ⟨-, -, hcut⟩ | hcall
  · cases hcut
  · exact hcall

/-- An environment that can do more has all the executions. -/
theorem Exec.mono {env env' : Env S σ} (henv : ∀ op s a s', env op s a s' → env' op s a s')
    {p : Prog S α} {s t : σ} {steps : List (Step S σ)} {result : Option α}
    (h : Exec env p s steps t result) : Exec env' p s steps t result := by
  induction h with
  | ret a s => exact .ret a s
  | crash p s => exact .crash p s
  | call hstep _ ih => exact .call (henv _ _ _ _ hstep) ih

theorem Exec.bind {env : Env S σ} {p : Prog S α} {f : α → Prog S β} {s t u : σ} {a : α}
    {steps more : List (Step S σ)} {result : Option β} (hp : Exec env p s steps t (some a))
    (hf : Exec env (f a) t more u result) : Exec env (p >>= f) s (steps ++ more) u result := by
  generalize hresult : some a = first at hp
  induction hp with
  | ret a' s =>
    cases hresult
    exact hf
  | crash p s => cases hresult
  | call hstep _ ih => exact .call hstep (ih hf hresult)

/-- A program that is cut off in its first part is cut off. -/
theorem Exec.bind_cut {env : Env S σ} {p : Prog S α} {s t : σ} {steps : List (Step S σ)}
    (h : Exec env p s steps t none) (f : α → Prog S β) : Exec env (p >>= f) s steps t none := by
  generalize hresult : (none : Option α) = result at h
  induction h with
  | ret a s => cases hresult
  | crash p s => exact .crash _ s
  | call hstep _ ih => exact .call hstep (ih hresult)

/-- An execution of a sequence is cut off in its first part, or goes through it. -/
theorem Exec.bind_inv {env : Env S σ} {p : Prog S α} {f : α → Prog S β} {s t : σ}
    {steps : List (Step S σ)} {result : Option β} (h : Exec env (p >>= f) s steps t result) :
    (result = none ∧ Exec env p s steps t none) ∨
      ∃ a u first rest, steps = first ++ rest ∧ Exec env p s first u (some a) ∧
        Exec env (f a) u rest t result := by
  induction p generalizing s steps with
  | ret a => exact .inr ⟨a, s, [], steps, rfl, .ret a s, h⟩
  | call op next ih =>
    rcases h.call_inv with ⟨rfl, rfl, rfl⟩ | ⟨answer, s', rest, hstep, rfl, hrest⟩
    · exact .inl ⟨rfl, .crash _ _⟩
    rcases ih answer hrest with ⟨hcut, hfirst⟩ | ⟨a, u, first, more, rfl, hfirst, hmore⟩
    · exact .inl ⟨hcut, .call hstep hfirst⟩
    · exact .inr ⟨a, u, _, more, rfl, .call hstep hfirst, hmore⟩

/-- An execution that only hands its result on is one of the program before. -/
theorem Exec.of_map {env : Env S σ} {p : Prog S α} {f : α → β} {s t : σ} {steps : List (Step S σ)}
    {result : Option β} (h : Exec env (p >>= fun a => pure (f a)) s steps t result) :
    ∃ reached, Exec env p s steps t reached ∧
      ∀ b, result = some b → ∃ a, reached = some a ∧ b = f a := by
  rcases h.bind_inv with ⟨rfl, hcut⟩ | ⟨a, u, first, rest, rfl, hfirst, hrest⟩
  · exact ⟨none, hcut, fun b hb => by cases hb⟩
  · cases hrest with
    | ret => exact ⟨some a, by simpa using hfirst, fun b hb => ⟨a, rfl, (Option.some.inj hb).symm⟩⟩
    | crash => exact ⟨some a, by simpa using hfirst, fun b hb => by cases hb⟩

/-- The answers determine what a program returns. -/
theorem Exec.result_unique {env env' : Env S σ} {p : Prog S α} {s t s' t' : σ}
    {steps rest steps' rest' : List (Step S σ)} {a a' : α}
    (h : Exec env p s steps t (some a)) (h' : Exec env' p s' steps' t' (some a'))
    (hsame : steps ++ rest = steps' ++ rest') : a = a' := by
  induction p generalizing s s' steps steps' with
  | ret b =>
    cases h
    cases h'
    rfl
  | call op next ih =>
    rcases h.call_inv with ⟨-, -, hcut⟩ | ⟨answer, u, more, -, rfl, hmore⟩
    · cases hcut
    rcases h'.call_inv with ⟨-, -, hcut⟩ | ⟨answer', u', more', -, rfl, hmore'⟩
    · cases hcut
    obtain ⟨hhead, htail⟩ := List.cons.inj hsame
    cases hhead
    exact ih answer hmore hmore' htail

/-- `Returns env p s a t`: some execution from `s` returns `a` and ends in `t`. -/
def Returns (env : Env S σ) (p : Prog S α) (s : σ) (a : α) (t : σ) : Prop :=
  ∃ steps, Exec env p s steps t (some a)

section Returns

variable {env : Env S σ}

theorem returns_pure (a : α) (s : σ) : Returns env (pure a : Prog S α) s a s := ⟨[], .ret a s⟩

theorem returns_perform (op : S.Op) {s s' : σ} (answer : S.Answer op)
    (h : env op s answer s') : Returns env (perform op) s answer s' :=
  ⟨_, .call h (.ret answer s')⟩

theorem returns_bind {p : Prog S α} {f : α → Prog S β} {s t u : σ} {a : α} {b : β}
    (hp : Returns env p s a t) (hf : Returns env (f a) t b u) : Returns env (p >>= f) s b u := by
  obtain ⟨steps, hp⟩ := hp
  obtain ⟨more, hf⟩ := hf
  exact ⟨steps ++ more, hp.bind hf⟩

/-- Some execution from `s` performs an operation in `P`. -/
def Performs (env : Env S σ) (P : S.Op → Prop) (p : Prog S α) (s : σ) : Prop :=
  ∃ steps t result, Exec env p s steps t result ∧ ∃ step ∈ steps, P step.op

theorem performs_call {P : S.Op → Prop} {op : S.Op} {next : S.Answer op → Prog S α} {s s' : σ}
    {answer : S.Answer op} (h : env op s answer s') (hop : P op) :
    Performs env P (.call op next) s :=
  ⟨_, _, none, .call h (.crash _ _), _, List.mem_cons_self, hop⟩

theorem performs_bind {P : S.Op → Prop} {p : Prog S α} {s : σ} (h : Performs env P p s)
    (f : α → Prog S β) : Performs env P (p >>= f) s := by
  obtain ⟨steps, t, result, hexec, step, hmem, hop⟩ := h
  rcases result with _ | a
  · exact ⟨steps, t, none, hexec.bind_cut f, step, hmem, hop⟩
  · exact ⟨steps ++ [], t, none, hexec.bind (.crash _ t), step, by simpa using hmem, hop⟩

theorem Returns.performs {P : S.Op → Prop} {p : Prog S α} {f : α → Prog S β} {s t : σ} {a : α}
    (hp : Returns env p s a t) (h : Performs env P (f a) t) : Performs env P (p >>= f) s := by
  obtain ⟨first, hfirst⟩ := hp
  obtain ⟨steps, u, result, hexec, step, hmem, hop⟩ := h
  exact ⟨first ++ steps, u, result, hfirst.bind hexec, step, List.mem_append_right _ hmem, hop⟩

theorem Performs.mono {env' : Env S σ} {P : S.Op → Prop} {p : Prog S α} {s : σ}
    (h : Performs env P p s) (henv : ∀ op s a s', env op s a s' → env' op s a s') :
    Performs env' P p s := by
  obtain ⟨steps, t, result, hexec, hstep⟩ := h
  exact ⟨steps, t, result, hexec.mono henv, hstep⟩

end Returns

/-! ### Deterministic environments -/

/-- An environment that answers every operation in one way. -/
abbrev Handler (S : Signature) (σ : Type) : Type := (op : S.Op) → σ → S.Answer op × σ

/-- The relation of a handler. -/
def Handler.env (h : Handler S σ) : Env S σ := fun op s answer s' => h op s = (answer, s')

/-- Run to completion against a handler. -/
def run (h : Handler S σ) : Prog S α → σ → α × σ
  | .ret a, s => (a, s)
  | .call op next, s => (next (h op s).1).run h (h op s).2

/-- The steps of the run against a handler. -/
def runSteps (h : Handler S σ) : Prog S α → σ → List (Step S σ)
  | .ret _, _ => []
  | .call op next, s => ⟨s, op, (h op s).1, (h op s).2⟩ :: (next (h op s).1).runSteps h (h op s).2

theorem exec_run (h : Handler S σ) (p : Prog S α) (s : σ) :
    Exec h.env p s (p.runSteps h s) (p.run h s).2 (some (p.run h s).1) := by
  induction p generalizing s with
  | ret a => exact .ret a s
  | call op next ih => exact .call rfl (ih _ _)

theorem mem_runSteps {h : Handler S σ} {p : Prog S α} {s : σ} {step : Step S σ}
    (hstep : step ∈ p.runSteps h s) : h step.op step.before = (step.answer, step.after) := by
  induction p generalizing s with
  | ret a => cases hstep
  | call op next ih =>
    rcases List.mem_cons.mp hstep with rfl | hrest
    · rfl
    · exact ih _ hrest

/-! ### Weakest preconditions -/

/-- Every operation satisfies `guard` at the state in which it is performed, and a
    returned value satisfies `post` together with the final state. -/
def wp (env : Env S σ) (guard : S.Op → σ → Prop) : Prog S α → (α → σ → Prop) → σ → Prop
  | .ret a, post, s => post a s
  | .call op next, post, s =>
      guard op s ∧ ∀ answer s', env op s answer s' → (next answer).wp env guard post s'

section Wp

variable {env : Env S σ} {guard : S.Op → σ → Prop}

@[simp] theorem wp_ret (a : α) (post : α → σ → Prop) (s : σ) :
    wp env guard (.ret a : Prog S α) post s ↔ post a s := Iff.rfl

@[simp] theorem wp_pure (a : α) (post : α → σ → Prop) (s : σ) :
    wp env guard (pure a : Prog S α) post s ↔ post a s := Iff.rfl

theorem wp_call {op : S.Op} {next : S.Answer op → Prog S α} {post : α → σ → Prop} {s : σ} :
    wp env guard (.call op next) post s ↔
      guard op s ∧ ∀ answer s', env op s answer s' → wp env guard (next answer) post s' := Iff.rfl

theorem wp_bind {p : Prog S α} {f : α → Prog S β} {post : β → σ → Prop} {s : σ} :
    wp env guard (p >>= f) post s ↔ wp env guard p (fun a t => wp env guard (f a) post t) s := by
  induction p generalizing s with
  | ret a => rfl
  | call op next ih =>
    rw [call_bind, wp_call, wp_call]
    exact and_congr_right fun _ => forall_congr' fun answer => forall_congr' fun s' =>
      imp_congr_right fun _ => ih answer

theorem wp_mono {p : Prog S α} {post post' : α → σ → Prop} {s : σ}
    (himp : ∀ a t, post a t → post' a t) (h : wp env guard p post s) :
    wp env guard p post' s := by
  induction p generalizing s with
  | ret a => exact himp a s h
  | call op next ih =>
    obtain ⟨hguard, hnext⟩ := h
    exact ⟨hguard, fun answer s' hstep => ih answer (hnext answer s' hstep)⟩

theorem wp_guard_mono {guard' : S.Op → σ → Prop} {p : Prog S α} {post : α → σ → Prop} {s : σ}
    (himp : ∀ op s, guard op s → guard' op s) (h : wp env guard p post s) :
    wp env guard' p post s := by
  induction p generalizing s with
  | ret a => exact h
  | call op next ih =>
    exact ⟨himp op s h.1, fun answer s' hstep => ih answer (h.2 answer s' hstep)⟩

theorem wp_and {guard' : S.Op → σ → Prop} {p : Prog S α} {post post' : α → σ → Prop} {s : σ}
    (h : wp env guard p post s) (h' : wp env guard' p post' s) :
    wp env (fun op s => guard op s ∧ guard' op s) p (fun a s => post a s ∧ post' a s) s := by
  induction p generalizing s with
  | ret a => exact ⟨h, h'⟩
  | call op next ih =>
    exact ⟨⟨h.1, h'.1⟩, fun answer t hstep => ih answer (h.2 answer t hstep) (h'.2 answer t hstep)⟩

/-- An environment that can do less has fewer executions to go wrong. -/
theorem wp_env_mono {env' : Env S σ} {p : Prog S α} {post : α → σ → Prop} {s : σ}
    (henv : ∀ op s a s', env' op s a s' → env op s a s') (h : wp env guard p post s) :
    wp env' guard p post s := by
  induction p generalizing s with
  | ret a => exact h
  | call op next ih =>
    exact ⟨h.1, fun answer s' hstep => ih answer (h.2 answer s' (henv op s answer s' hstep))⟩

theorem wp_true (p : Prog S α) (s : σ) : wp env (fun _ _ => True) p (fun _ _ => True) s := by
  induction p generalizing s with
  | ret a => trivial
  | call op next ih => exact ⟨trivial, fun answer t _ => ih answer t⟩

/-- An execution returns what some execution returns. -/
theorem wp_returns (p : Prog S α) (s : σ) :
    wp env (fun _ _ => True) p (fun a t => Returns env p s a t) s := by
  induction p generalizing s with
  | ret a => exact returns_pure a s
  | call op next ih =>
    refine ⟨trivial, fun answer s' hstep => wp_mono (fun a t hreturns => ?_) (ih answer s')⟩
    obtain ⟨steps, hexec⟩ := hreturns
    exact ⟨_, .call hstep hexec⟩

/-- The guard holds along every execution, and the postcondition at its end. -/
theorem wp_sound {p : Prog S α} {post : α → σ → Prop} {s t : σ} {steps : List (Step S σ)}
    {result : Option α} (h : wp env guard p post s) (hexec : Exec env p s steps t result) :
    (∀ step ∈ steps, guard step.op step.before) ∧ ∀ a, result = some a → post a t := by
  induction hexec with
  | ret a s =>
    refine ⟨fun step hstep => absurd hstep List.not_mem_nil, fun b hb => ?_⟩
    exact Option.some.inj hb ▸ h
  | crash p s =>
    exact ⟨fun step hstep => absurd hstep List.not_mem_nil, fun b hb => by cases hb⟩
  | call hstep _ ih =>
    obtain ⟨hguard, hnext⟩ := h
    obtain ⟨hsteps, hpost⟩ := ih (hnext _ _ hstep)
    exact ⟨List.forall_mem_cons.mpr ⟨hguard, hsteps⟩, hpost⟩

theorem not_performs_of_wp {P : S.Op → Prop} {p : Prog S α} {post : α → σ → Prop} {s : σ}
    (hguard : ∀ op s, guard op s → ¬ P op) (h : wp env guard p post s) : ¬ Performs env P p s := by
  rintro ⟨steps, t, result, hexec, step, hmem, hop⟩
  exact hguard _ _ ((wp_sound h hexec).1 step hmem) hop

/-- A property that the guard and the postcondition imply holds wherever an
    execution stops, after a crash too. -/
theorem wp_invariant {inv : σ → Prop} {p : Prog S α} {post : α → σ → Prop} {s t : σ}
    {steps : List (Step S σ)} {result : Option α} (hguard : ∀ op s, guard op s → inv s)
    (hpost : ∀ a s, post a s → inv s) (h : wp env guard p post s)
    (hexec : Exec env p s steps t result) : inv t := by
  induction hexec with
  | ret a s => exact hpost a s h
  | crash p s =>
    cases p with
    | ret a => exact hpost a s h
    | call op next => exact hguard op s h.1
  | call hstep _ ih => exact ih (h.2 _ _ hstep)

end Wp

/-! ### Bounding the operations -/

/-- Whatever the answers are, the program performs only operations in `allowed`. -/
def Only (allowed : S.Op → Prop) : Prog S α → Prop
  | .ret _ => True
  | .call op next => allowed op ∧ ∀ answer, (next answer).Only allowed

@[simp] theorem only_pure (allowed : S.Op → Prop) (a : α) : Only allowed (pure a : Prog S α) :=
  trivial

theorem only_bind {allowed : S.Op → Prop} {p : Prog S α} {f : α → Prog S β}
    (hp : Only allowed p) (hf : ∀ a, Only allowed (f a)) : Only allowed (p >>= f) := by
  induction p with
  | ret a => exact hf a
  | call op next ih => exact ⟨hp.1, fun answer => ih answer (hp.2 answer)⟩

theorem only_mono {allowed allowed' : S.Op → Prop} (himp : ∀ op, allowed op → allowed' op)
    {p : Prog S α} (h : Only allowed p) : Only allowed' p := by
  induction p with
  | ret a => trivial
  | call op next ih => exact ⟨himp op h.1, fun answer => ih answer (h.2 answer)⟩

theorem only_true (p : Prog S α) : Only (fun _ => True) p := by
  induction p with
  | ret a => trivial
  | call op next ih => exact ⟨trivial, ih⟩

/-- A property kept by all the operations of a program is an invariant of it. -/
theorem wp_of_only {env : Env S σ} {allowed : S.Op → Prop} (inv : σ → Prop)
    (hkeep : ∀ op s answer s', allowed op → inv s → env op s answer s' → inv s')
    {p : Prog S α} (h : Only allowed p) {s : σ} (hs : inv s) :
    wp env (fun op s => allowed op ∧ inv s) p (fun _ s => inv s) s := by
  induction p generalizing s with
  | ret a => exact hs
  | call op next ih =>
    exact ⟨⟨h.1, hs⟩, fun answer s' hstep =>
      ih answer (h.2 answer) (hkeep op s answer s' h.1 hs hstep)⟩

theorem Exec.only {env : Env S σ} {allowed : S.Op → Prop} {p : Prog S α} {s t : σ}
    {steps : List (Step S σ)} {result : Option α} (hexec : Exec env p s steps t result)
    (h : Only allowed p) : ∀ step ∈ steps, allowed step.op := by
  induction hexec with
  | ret a s => exact fun step hstep => absurd hstep List.not_mem_nil
  | crash p s => exact fun step hstep => absurd hstep List.not_mem_nil
  | call hstep _ ih => exact List.forall_mem_cons.mpr ⟨h.1, ih (h.2 _)⟩

/-- Environments that agree on what a program may perform have the same executions of it. -/
theorem Exec.transfer {env env' : Env S σ} {allowed : S.Op → Prop} {p : Prog S α} {s t : σ}
    {steps : List (Step S σ)} {result : Option α} (hexec : Exec env p s steps t result)
    (h : Only allowed p)
    (henv : ∀ op s a s', allowed op → env op s a s' → env' op s a s') :
    Exec env' p s steps t result := by
  induction hexec with
  | ret a s => exact .ret a s
  | crash p s => exact .crash p s
  | call hstep _ ih => exact .call (henv _ _ _ _ h.1 hstep) (ih (h.2 _))

theorem wp_transfer {env env' : Env S σ} {allowed : S.Op → Prop} {guard : S.Op → σ → Prop}
    {p : Prog S α} {post : α → σ → Prop} {s : σ} (h : wp env guard p post s) (hp : Only allowed p)
    (henv : ∀ op s a s', allowed op → env' op s a s' → env op s a s') : wp env' guard p post s := by
  induction p generalizing s with
  | ret a => exact h
  | call op next ih =>
    exact ⟨h.1, fun answer s' hstep =>
      ih answer (h.2 answer s' (henv op s answer s' hp.1 hstep)) (hp.2 answer)⟩

theorem Exec.env_of_mem {env : Env S σ} {p : Prog S α} {s t : σ} {steps : List (Step S σ)}
    {result : Option α} (hexec : Exec env p s steps t result) :
    ∀ step ∈ steps, env step.op step.before step.answer step.after := by
  induction hexec with
  | ret a s => exact fun step hstep => absurd hstep List.not_mem_nil
  | crash p s => exact fun step hstep => absurd hstep List.not_mem_nil
  | call hstep _ ih => exact List.forall_mem_cons.mpr ⟨hstep, ih⟩

theorem Exec.of_mem {env env' : Env S σ} {p : Prog S α} {s t : σ} {steps : List (Step S σ)}
    {result : Option α} (hexec : Exec env p s steps t result)
    (h : ∀ step ∈ steps, env' step.op step.before step.answer step.after) :
    Exec env' p s steps t result := by
  induction hexec with
  | ret a s => exact .ret a s
  | crash p s => exact .crash p s
  | call _ _ ih =>
    obtain ⟨hstep, hrest⟩ := List.forall_mem_cons.mp h
    exact .call hstep (ih hrest)

/-- What no step changes is the same at the end. -/
theorem Exec.kept {env : Env S σ} {p : Prog S α} {s t : σ} {steps : List (Step S σ)}
    {result : Option α} {β : Type v} (f : σ → β) (hexec : Exec env p s steps t result)
    (h : ∀ step ∈ steps, f step.after = f step.before) : f t = f s := by
  induction hexec with
  | ret a s => rfl
  | crash p s => rfl
  | call _ _ ih =>
    obtain ⟨hstep, hrest⟩ := List.forall_mem_cons.mp h
    exact (ih hrest).trans hstep

/-- Whatever the answers are, the program returns only values in `P`. -/
def Yields (P : α → Prop) : Prog S α → Prop
  | .ret a => P a
  | .call _ next => ∀ answer, (next answer).Yields P

theorem yields_bind {P : β → Prop} {p : Prog S α} {f : α → Prog S β}
    (hf : ∀ a, Yields P (f a)) : Yields P (p >>= f) := by
  induction p with
  | ret a => exact hf a
  | call op next ih => exact fun answer => ih answer

theorem yields_mono {P Q : α → Prop} {p : Prog S α} (himp : ∀ a, P a → Q a) (h : Yields P p) :
    Yields Q p := by
  induction p with
  | ret a => exact himp a h
  | call op next ih => exact fun answer => ih answer (h answer)

/-- What holds whatever the answers are is what holds in an environment without state. -/
theorem yields_of_wp {P : α → Prop} {p : Prog S α} {guard : S.Op → Unit → Prop}
    (h : wp (fun _ _ _ _ => True) guard p (fun a _ => P a) ()) : Yields P p := by
  induction p with
  | ret a => exact h
  | call op next ih => exact fun answer => ih answer (h.2 answer () trivial)

theorem only_of_wp {allowed : S.Op → Prop} {p : Prog S α} {post : α → Unit → Prop}
    (h : wp (fun _ _ _ _ => True) (fun op _ => allowed op) p post ()) : Only allowed p := by
  induction p with
  | ret a => trivial
  | call op next ih => exact ⟨h.1, fun answer => ih answer (h.2 answer () trivial)⟩

theorem only_bind_yields {allowed : S.Op → Prop} {P : α → Prop} {p : Prog S α} {f : α → Prog S β}
    (hp : Only allowed p) (hyields : Yields P p) (hf : ∀ a, P a → Only allowed (f a)) :
    Only allowed (p >>= f) := by
  induction p with
  | ret a => exact hf a hyields
  | call op next ih => exact ⟨hp.1, fun answer => ih answer (hp.2 answer) (hyields answer)⟩

theorem wp_of_yields {env : Env S σ} {P : α → Prop} {p : Prog S α} (h : Yields P p) (s : σ) :
    wp env (fun _ _ => True) p (fun a _ => P a) s := by
  induction p generalizing s with
  | ret a => exact h
  | call op next ih => exact ⟨trivial, fun answer t _ => ih answer (h answer) t⟩

theorem wp_yields {env : Env S σ} {guard : S.Op → σ → Prop} {P : α → Prop} {p : Prog S α}
    {post : α → σ → Prop} {s : σ} (hp : Yields P p) (h : wp env guard p post s) :
    wp env guard p (fun a t => P a ∧ post a t) s := by
  induction p generalizing s with
  | ret a => exact ⟨hp, h⟩
  | call op next ih => exact ⟨h.1, fun answer t hstep => ih answer (hp answer) (h.2 answer t hstep)⟩

/-! ### Programs with one result -/

section Constant

variable {env : Env S σ} {allowed : S.Op → Prop} {inv : σ → Prop} {p : Prog S α} {s t : σ}

/-- An environment that answers what a program may perform as a handler does, on what `f` shows of
    the states, lets it end as the run against the handler ends. -/
theorem wp_of_run {τ : Type} {h : Handler S τ} (f : σ → τ)
    (henv : ∀ op s a s', allowed op → env op s a s' → h op (f s) = (a, f s'))
    (hp : Only allowed p) (s : σ) :
    wp env (fun _ _ => True) p (fun a t => p.run h (f s) = (a, f t)) s := by
  induction p generalizing s with
  | ret a => rfl
  | call op next ih =>
    refine ⟨trivial, fun answer s' hstep => wp_mono (fun a t ht => ?_) (ih answer (hp.2 answer) s')⟩
    rw [run, henv op s answer s' hp.1 hstep]
    exact ht

/-- While `inv` holds, which the program keeps, it has one result. -/
def Constant (env : Env S σ) (inv : σ → Prop) (p : Prog S α) : Prop :=
  ∃ a, ∀ s, inv s → wp env (fun _ _ => True) p (fun b t => b = a ∧ inv t) s

theorem constant_ret (a : α) : Constant env inv (.ret a : Prog S α) := ⟨a, fun _ hs => ⟨rfl, hs⟩⟩

/-- Operations with one answer make a program with one result. -/
theorem constant_of_only (henv : ∀ op, allowed op → ∃ answer, ∀ s a s', inv s → env op s a s' →
      a = answer ∧ inv s') (h : Only allowed p) : Constant env inv p := by
  induction p with
  | ret a => exact constant_ret a
  | call op next ih =>
    obtain ⟨answer, hanswer⟩ := henv op h.1
    obtain ⟨a, ha⟩ := ih answer (h.2 answer)
    refine ⟨a, fun s hs => ⟨trivial, fun answer' s' hstep => ?_⟩⟩
    obtain ⟨rfl, hs'⟩ := hanswer s answer' s' hs hstep
    exact ha s' hs'

/-- The one result is that of any execution. -/
theorem Constant.wp_result (h : Constant env inv p) {a : α} (hs : inv s) (hreturns : Returns env p s a t)
    {u : σ} (hu : inv u) : wp env (fun _ _ => True) p (fun b v => b = a ∧ inv v) u := by
  obtain ⟨a', ha'⟩ := h
  obtain ⟨steps, hexec⟩ := hreturns
  obtain ⟨rfl, -⟩ := (wp_sound (ha' s hs) hexec).2 _ rfl
  exact ha' u hu

end Constant

/-! ### Interference -/

/-- Somebody else may move the state before each operation. -/
def Env.interleaved (env : Env S σ) (moves : σ → σ → Prop) : Env S σ := fun op s answer s' =>
  ∃ t, Relation.ReflTransGen moves s t ∧ env op t answer s'

/-- What the moves keep still holds when the operation is performed. -/
theorem Env.interleaved_keeps {env : Env S σ} {moves : σ → σ → Prop} (inv : σ → Prop) {op : S.Op}
    {answer : S.Answer op} {s s' : σ} (hmoves : ∀ s t, inv s → moves s t → inv t) (hs : inv s)
    (h : env.interleaved moves op s answer s') : ∃ t, inv t ∧ env op t answer s' := by
  obtain ⟨t, hmoved, hstep⟩ := h
  refine ⟨t, ?_, hstep⟩
  clear hstep
  induction hmoved with
  | refl => exact hs
  | tail _ hmove ih => exact hmoves _ _ ih hmove

/-- The environment in which every step satisfies `P`. -/
def Env.within (env : Env S σ) (P : Step S σ → Prop) : Env S σ := fun op s answer s' =>
  env op s answer s' ∧ P ⟨s, op, answer, s'⟩

theorem Exec.within {env : Env S σ} {P : Step S σ → Prop} {p : Prog S α} {s t : σ}
    {steps : List (Step S σ)} {result : Option α} (hexec : Exec env p s steps t result)
    (h : ∀ step ∈ steps, P step) : Exec (env.within P) p s steps t result := by
  induction hexec with
  | ret a s => exact .ret a s
  | crash p s => exact .crash p s
  | call hstep _ ih =>
    obtain ⟨hfirst, hrest⟩ := List.forall_mem_cons.mp h
    exact .call ⟨hstep, hfirst⟩ (ih hrest)

theorem Exec.of_within {env : Env S σ} {P : Step S σ → Prop} {p : Prog S α} {s t : σ}
    {steps : List (Step S σ)} {result : Option α} (h : Exec (env.within P) p s steps t result) :
    Exec env p s steps t result ∧ ∀ step ∈ steps, P step :=
  ⟨h.mono fun _ _ _ _ hstep => hstep.1, fun step hstep => (h.env_of_mem step hstep).2⟩

/-- A program that cannot end without a step in `P` takes one. -/
theorem exists_step_of_wp {env : Env S σ} {P : Step S σ → Prop} {p : Prog S α} {s t : σ}
    {steps : List (Step S σ)} {a : α}
    (h : wp (env.within fun step => ¬ P step) (fun _ _ => True) p (fun _ _ => False) s)
    (hexec : Exec env p s steps t (some a)) : ∃ step ∈ steps, P step := by
  apply Classical.byContradiction
  intro hnone
  have hwithin := hexec.within fun step hstep hP => hnone ⟨step, hstep, hP⟩
  exact (wp_sound h hwithin).2 a rfl

/-! ### Whether something was performed -/

/-- The state says whether an operation in `P` was performed; the answers are arbitrary. -/
def marking (P : S.Op → Prop) : Env S Prop := fun op seen _ seen' => seen' = (seen ∨ P op)

/-- What holds whatever the answers are holds of every execution. -/
theorem wp_marking_sound {env : Env S σ} {P : S.Op → Prop} {guard : S.Op → Prop → Prop}
    {p : Prog S α} {post : α → Prop → Prop} {s t : σ} {steps : List (Step S σ)} {a : α} {seen : Prop}
    (h : wp (marking P) guard p post seen) (hexec : Exec env p s steps t (some a)) :
    post a (seen ∨ ∃ step ∈ steps, P step.op) := by
  induction p generalizing s steps seen with
  | ret b =>
    cases hexec
    simpa using h
  | call op next ih =>
    obtain ⟨answer, s', rest, -, rfl, hrest⟩ := hexec.call_returned
    have hpost := ih answer (h.2 answer _ rfl) hrest
    simpa [or_assoc] using hpost

/-! ### Executions with a log -/

/-- The environment with a log of the steps beside the state. -/
def Env.logged (env : Env S σ) : Env S (σ × List (Step S σ)) := fun op s answer s' =>
  env op s.1 answer s'.1 ∧ s'.2 = s.2 ++ [⟨s.1, op, answer, s'.1⟩]

section Logged

variable {env : Env S σ} {p : Prog S α} {s t : σ} {log steps : List (Step S σ)}

theorem Exec.logged {result : Option α} (h : Exec env p s steps t result)
    (log : List (Step S σ)) :
    ∃ more, Exec env.logged p (s, log) more (t, log ++ steps) result := by
  induction h generalizing log with
  | ret a s => exact ⟨[], by rw [List.append_nil]; exact .ret a _⟩
  | crash p s => exact ⟨[], by rw [List.append_nil]; exact .crash p _⟩
  | call hstep _ ih =>
    obtain ⟨more, hmore⟩ := ih (log ++ [⟨_, _, _, _⟩])
    rw [List.append_assoc] at hmore
    exact ⟨_, .call ⟨hstep, rfl⟩ hmore⟩

theorem wp_logged_sound {guard : S.Op → σ × List (Step S σ) → Prop}
    {post : α → σ × List (Step S σ) → Prop} {a : α} (h : wp env.logged guard p post (s, log))
    (hexec : Exec env p s steps t (some a)) : post a (t, log ++ steps) := by
  obtain ⟨more, hmore⟩ := hexec.logged log
  exact (wp_sound h hmore).2 a rfl

/-- A log only grows. -/
theorem wp_logged_grows {env : Env S σ} {guard : S.Op → σ × List (Step S σ) → Prop} {p : Prog S α}
    {post : α → σ × List (Step S σ) → Prop} {s : σ × List (Step S σ)}
    (h : wp env.logged guard p post s) :
    wp env.logged guard p (fun a t => post a t ∧ s.2 ⊆ t.2) s := by
  induction p generalizing s with
  | ret a => exact ⟨h, fun _ hstep => hstep⟩
  | call op next ih =>
    refine ⟨h.1, fun answer t hstep => ?_⟩
    refine wp_mono (fun a u hu => ⟨hu.1, List.Subset.trans ?_ hu.2⟩) (ih answer (h.2 answer t hstep))
    rw [hstep.2]
    exact List.subset_append_left _ _

/-- The guard of a step, with the log of the steps before it. -/
theorem guard_of_logged {guard : S.Op → σ × List (Step S σ) → Prop}
    {post : α → σ × List (Step S σ) → Prop} {result : Option α} {first rest : List (Step S σ)}
    {step : Step S σ} (h : wp env.logged guard p post (s, log))
    (hexec : Exec env p s (first ++ step :: rest) t result) :
    guard step.op (step.before, log ++ first) := by
  induction first generalizing p s log with
  | nil =>
    cases hexec with
    | call hstep _ =>
      rw [List.append_nil]
      exact h.1
  | cons head first ih =>
    cases hexec with
    | call hstep hrest =>
      have hnext := ih (h.2 _ (_, log ++ [⟨_, _, _, _⟩]) ⟨hstep, rfl⟩) hrest
      rwa [List.append_assoc] at hnext

/-- What does not depend on the log. -/
theorem wp_logged {guard : S.Op → σ → Prop} {post : α → σ → Prop} (h : wp env guard p post s)
    (log : List (Step S σ)) :
    wp env.logged (fun op s => guard op s.1) p (fun a t => post a t.1) (s, log) := by
  induction p generalizing s log with
  | ret a => exact h
  | call op next ih =>
    exact ⟨h.1, fun answer t hstep => ih answer (h.2 answer t.1 hstep.1) t.2⟩

/-- The log grows by an execution of the program. -/
theorem wp_trace {guard : S.Op → σ × List (Step S σ) → Prop}
    {post : α → σ × List (Step S σ) → Prop} (h : wp env.logged guard p post (s, log)) :
    wp env.logged guard p (fun a t => post a t ∧
      ∃ steps, t.2 = log ++ steps ∧ Exec env p s steps t.1 (some a)) (s, log) := by
  induction p generalizing s log with
  | ret a => exact ⟨h, [], (List.append_nil log).symm, .ret a s⟩
  | call op next ih =>
    refine ⟨h.1, fun answer t hstep => ?_⟩
    refine wp_mono (fun a u hu => ?_) (ih answer (h.2 answer t hstep))
    obtain ⟨hpost, steps, hsteps, hexec⟩ := hu
    refine ⟨hpost, _, ?_, .call hstep.1 hexec⟩
    rw [hsteps, hstep.2, List.append_assoc]
    rfl

end Logged

/-! ### Repeated execution -/

/-- Executions of `p` one after the other, each ending as `ends` allows, with `moves`
    of the state in between. -/
inductive Run (env : Env S σ) (moves : σ → σ → Prop) (p : Prog S α) (ends : Option α → Prop) :
    σ → List (Step S σ) → σ → Prop where
  | start (s : σ) : Run env moves p ends s [] s
  | move {s t u : σ} {steps : List (Step S σ)} (hrun : Run env moves p ends s steps t)
      (hmove : moves t u) : Run env moves p ends s steps u
  | pass {s t u : σ} {steps more : List (Step S σ)} {result : Option α}
      (hrun : Run env moves p ends s steps t) (hexec : Exec env p t more u result)
      (hends : ends result) : Run env moves p ends s (steps ++ more) u

namespace Run

variable {env : Env S σ} {moves : σ → σ → Prop} {p : Prog S α} {ends : Option α → Prop}
  {s t u : σ} {steps more : List (Step S σ)}

theorem append (h : Run env moves p ends s steps t) (h' : Run env moves p ends t more u) :
    Run env moves p ends s (steps ++ more) u := by
  induction h' with
  | start => simpa using h
  | move _ hmove ih => exact .move ih hmove
  | pass _ hexec hends ih =>
    rw [← List.append_assoc]
    exact .pass ih hexec hends

/-- A property of steps that holds of every execution holds of the run. -/
theorem forall_steps {P : Step S σ → Prop} (h : Run env moves p ends s steps t)
    (hpass : ∀ {s t more result}, Exec env p s more t result → more ⊆ steps →
      ∀ step ∈ more, P step) : ∀ step ∈ steps, P step := by
  induction h with
  | start => exact fun step hstep => absurd hstep List.not_mem_nil
  | move _ _ ih => exact ih hpass
  | pass _ hexec _ ih =>
    refine List.forall_mem_append.mpr ⟨ih fun hexec hsub => ?_, ?_⟩
    · exact hpass hexec (List.Subset.trans hsub (List.subset_append_left _ _))
    · exact hpass hexec (List.subset_append_right _ _)

/-- The steps of a run are those of its executions. -/
theorem blocks {P : List (Step S σ) → Prop} (h : Run env moves p ends s steps t)
    (hpass : ∀ {s t more result}, Exec env p s more t result → P more) :
    ∃ executions : List (List (Step S σ)), steps = executions.flatten ∧
      ∀ execution ∈ executions, P execution := by
  induction h with
  | start => exact ⟨[], rfl, fun _ h => absurd h List.not_mem_nil⟩
  | move _ _ ih => exact ih
  | @pass _ _ _ more _ _ hexec _ ih =>
    obtain ⟨executions, rfl, hall⟩ := ih
    refine ⟨executions ++ [more], by simp, List.forall_mem_append.mpr ⟨hall, ?_⟩⟩
    intro execution hmem
    rw [List.mem_singleton.mp hmem]
    exact hpass hexec

/-- What the moves keep and every execution keeps holds in every state reached, and
    the guard of the executions at every step. -/
theorem invariant (inv : σ → Prop) (guard : S.Op → σ → Prop)
    (hmoves : ∀ s t, inv s → moves s t → inv t)
    (hpass : ∀ s, inv s → wp env (fun op s => guard op s ∧ inv s) p (fun _ s => inv s) s)
    (h : Run env moves p ends s steps t) (hs : inv s) :
    inv t ∧ ∀ step ∈ steps, guard step.op step.before := by
  induction h with
  | start => exact ⟨hs, fun step hstep => absurd hstep List.not_mem_nil⟩
  | move _ hmove ih => exact ⟨hmoves _ _ ih.1 hmove, ih.2⟩
  | pass _ hexec _ ih =>
    have hwp := hpass _ ih.1
    refine ⟨wp_invariant (fun _ _ h => h.2) (fun _ _ h => h) hwp hexec, ?_⟩
    exact List.forall_mem_append.mpr
      ⟨ih.2, fun step hstep => ((wp_sound hwp hexec).1 step hstep).1⟩

end Run

/-- One execution of a run: the states around it, its steps and its result. -/
structure Episode (S : Signature) (σ α : Type) where
  before : σ
  steps : List (Step S σ)
  after : σ
  result : Option α

/-- Executions of `p` one after the other as in `Run`, with the result of each of them. -/
inductive Episodes (env : Env S σ) (moves : σ → σ → Prop) (p : Prog S α) :
    σ → List (Episode S σ α) → σ → Prop where
  | start (s : σ) : Episodes env moves p s [] s
  | move {s t u : σ} {episodes : List (Episode S σ α)} (hrun : Episodes env moves p s episodes t)
      (hmove : moves t u) : Episodes env moves p s episodes u
  | pass {s t u : σ} {episodes : List (Episode S σ α)} {steps : List (Step S σ)}
      {result : Option α} (hrun : Episodes env moves p s episodes t)
      (hexec : Exec env p t steps u result) :
      Episodes env moves p s (episodes ++ [⟨t, steps, u, result⟩]) u

/-- Each episode is an execution of the program with that result. -/
theorem Episodes.exec {env : Env S σ} {moves : σ → σ → Prop} {p : Prog S α} {s t : σ}
    {episodes : List (Episode S σ α)} (h : Episodes env moves p s episodes t) :
    ∀ episode ∈ episodes, Exec env p episode.before episode.steps episode.after episode.result := by
  induction h with
  | start => exact fun _ hmem => absurd hmem List.not_mem_nil
  | move _ _ ih => exact ih
  | pass _ hexec ih =>
    refine List.forall_mem_append.mpr ⟨ih, fun episode hmem => ?_⟩
    rw [List.mem_singleton.mp hmem]
    exact hexec

/-! ### Programs that may fail

`ExceptT ε (Prog S)` stops at the first error. -/

section Fallible

variable {ε : Type} {env : Env S σ} {guard : S.Op → σ → Prop} {allowed : S.Op → Prop}

theorem wp_run_bind {p : ExceptT ε (Prog S) α} {f : α → ExceptT ε (Prog S) β}
    {post : Except ε β → σ → Prop} {s : σ} :
    wp env guard (p >>= f).run post s ↔
      wp env guard p.run (fun r t =>
        match r with
        | .ok a => wp env guard (f a).run post t
        | .error e => post (.error e) t) s := by
  rw [ExceptT.run_bind, wp_bind]
  constructor <;> refine wp_mono fun r t h => ?_ <;> cases r <;> exact h

@[simp] theorem wp_run_pure {a : α} {post : Except ε α → σ → Prop} {s : σ} :
    wp env guard (pure a : ExceptT ε (Prog S) α).run post s ↔ post (.ok a) s := Iff.rfl

@[simp] theorem wp_run_mk {r : Except ε α} {post : Except ε α → σ → Prop} {s : σ} :
    wp env guard (ExceptT.mk (pure r) : ExceptT ε (Prog S) α).run post s ↔ post r s := Iff.rfl

@[simp] theorem wp_run_throw {e : ε} {post : Except ε α → σ → Prop} {s : σ} :
    wp env guard (throw e : ExceptT ε (Prog S) α).run post s ↔ post (.error e) s := Iff.rfl

@[simp] theorem wp_run_lift {p : Prog S α} {post : Except ε α → σ → Prop} {s : σ} :
    wp env guard (liftM p : ExceptT ε (Prog S) α).run post s ↔
      wp env guard p (fun a t => post (.ok a) t) s :=
  wp_bind

theorem Exec.run_bind {p : ExceptT ε (Prog S) α} {f : α → ExceptT ε (Prog S) β} {s t u : σ} {a : α}
    {steps more : List (Step S σ)} {result : Option (Except ε β)}
    (hp : Exec env p.run s steps t (some (.ok a))) (hf : Exec env (f a).run t more u result) :
    Exec env (p >>= f).run s (steps ++ more) u result :=
  hp.bind hf

/-- A sequence returns an error of its first part, or goes on after it. -/
theorem Exec.run_bind_inv {p : ExceptT ε (Prog S) α} {f : α → ExceptT ε (Prog S) β} {s t : σ}
    {steps : List (Step S σ)} {r : Except ε β} (h : Exec env (p >>= f).run s steps t (some r)) :
    (∃ e, r = .error e ∧ Exec env p.run s steps t (some (.error e))) ∨
      ∃ a u first rest, steps = first ++ rest ∧ Exec env p.run s first u (some (.ok a)) ∧
        Exec env (f a).run u rest t (some r) := by
  rcases Exec.bind_inv h with ⟨hcut, -⟩ | ⟨a, u, first, rest, rfl, hfirst, hrest⟩
  · cases hcut
  cases a with
  | error e =>
    cases hrest
    rw [List.append_nil]
    exact .inl ⟨e, rfl, hfirst⟩
  | ok a => exact .inr ⟨a, u, first, rest, rfl, hfirst, hrest⟩

theorem returns_run_bind {p : ExceptT ε (Prog S) α} {f : α → ExceptT ε (Prog S) β} {s t u : σ}
    {a : α} {r : Except ε β} (hp : Returns env p.run s (.ok a) t)
    (hf : Returns env (f a).run t r u) : Returns env (p >>= f).run s r u :=
  returns_bind hp hf

theorem Returns.performs_run {P : S.Op → Prop} {p : ExceptT ε (Prog S) α}
    {f : α → ExceptT ε (Prog S) β} {s t : σ} {a : α} (hp : Returns env p.run s (.ok a) t)
    (h : Performs env P (f a).run t) : Performs env P (p >>= f).run s :=
  hp.performs h

theorem performs_run_bind {P : S.Op → Prop} {p : ExceptT ε (Prog S) α} {s : σ}
    (h : Performs env P p.run s) (f : α → ExceptT ε (Prog S) β) : Performs env P (p >>= f).run s :=
  performs_bind h _

theorem returns_run_lift {p : Prog S α} {s t : σ} {a : α} (hp : Returns env p s a t) :
    Returns env (liftM p : ExceptT ε (Prog S) α).run s (.ok a) t :=
  returns_bind hp (returns_pure _ t)

theorem only_run_bind {p : ExceptT ε (Prog S) α} {f : α → ExceptT ε (Prog S) β}
    (hp : Only allowed p.run) (hf : ∀ a, Only allowed (f a).run) :
    Only allowed (p >>= f).run := by
  rw [ExceptT.run_bind]
  refine only_bind hp fun r => ?_
  cases r with
  | ok a => exact hf a
  | error e => exact only_pure _ _

@[simp] theorem only_run_pure (a : α) : Only allowed (pure a : ExceptT ε (Prog S) α).run :=
  trivial

theorem only_run_lift {p : Prog S α} (hp : Only allowed p) :
    Only allowed (liftM p : ExceptT ε (Prog S) α).run :=
  only_bind hp fun _ => trivial

theorem Constant.run_bind {inv : σ → Prop} {p : ExceptT ε (Prog S) α}
    {f : α → ExceptT ε (Prog S) β} (hp : Constant env inv p.run)
    (hf : ∀ a, Constant env inv (f a).run) : Constant env inv (p >>= f).run := by
  obtain ⟨e | a, hp⟩ := hp
  · refine ⟨.error e, fun s hs => wp_run_bind.mpr (wp_mono ?_ (hp s hs))⟩
    rintro r t ⟨rfl, ht⟩
    exact ⟨rfl, ht⟩
  · obtain ⟨r, hr⟩ := hf a
    refine ⟨r, fun s hs => wp_run_bind.mpr (wp_mono ?_ (hp s hs))⟩
    rintro r t ⟨rfl, ht⟩
    exact hr t ht

theorem run_bind_pure (p : ExceptT ε (Prog S) α) : p >>= pure = p := by
  apply ExceptT.ext
  rw [ExceptT.run_bind]
  induction p.run with
  | ret r => cases r <;> rfl
  | call op next ih => exact congrArg (Prog.call op) (funext ih)

theorem run_bind_assoc (p : ExceptT ε (Prog S) α) (f : α → ExceptT ε (Prog S) β)
    (g : β → ExceptT ε (Prog S) γ) : (p >>= f) >>= g = p >>= fun a => f a >>= g := by
  apply ExceptT.ext
  rw [ExceptT.run_bind, ExceptT.run_bind, ExceptT.run_bind]
  induction p.run with
  | ret r => cases r <;> rfl
  | call op next ih => exact congrArg (Prog.call op) (funext ih)

end Fallible

end Prog

end KeycloakOperator
