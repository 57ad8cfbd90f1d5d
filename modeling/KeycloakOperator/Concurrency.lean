import Mathlib.Logic.Function.Basic
import KeycloakOperator.Interaction

/-!
# Programs that run at the same time

Several programs share one state.  An operation is atomic; between two operations of one
program the others may perform theirs, and somebody else may move the state.

* `Interleaving` is a run of such programs, with the log of all the operations.
* `Interleaving.guarded` is the rule of rely and guarantee: every program is examined
  alone, in an environment in which the others do to the state what `rely` allows.
* `Interleaving.leaves` says what one program of a run has done by itself.
-/

namespace KeycloakOperator

namespace Prog

variable {S : Signature} {σ α ι : Type}

/-! ### What is left of a program -/

/-- `Leaves env p s steps t q`: from state `s` the program `p` performs `steps`, reaches `t`
    and has `q` left. -/
inductive Leaves (env : Env S σ) : Prog S α → σ → List (Step S σ) → σ → Prog S α → Prop where
  | refl (p : Prog S α) (s : σ) : Leaves env p s [] s p
  | call {op : S.Op} {next : S.Answer op → Prog S α} {s s' t : σ} {answer : S.Answer op}
      {steps : List (Step S σ)} {q : Prog S α} (hstep : env op s answer s')
      (hrest : Leaves env (next answer) s' steps t q) :
      Leaves env (.call op next) s (⟨s, op, answer, s'⟩ :: steps) t q

namespace Leaves

variable {env : Env S σ} {p q : Prog S α} {s t : σ} {steps : List (Step S σ)}

theorem snoc {op : S.Op} {next : S.Answer op → Prog S α} {t' : σ} {answer : S.Answer op}
    (h : Leaves env p s steps t (.call op next)) (hstep : env op t answer t') :
    Leaves env p s (steps ++ [⟨t, op, answer, t'⟩]) t' (next answer) := by
  generalize hq : Prog.call op next = q at h
  induction h with
  | refl p s =>
    subst hq
    exact .call hstep (.refl _ _)
  | call hfirst _ ih => exact .call hfirst (ih hstep hq)

/-- One more operation. -/
theorem next (h : Leaves env p s steps t q) (op : S.Op) {next : S.Answer op → Prog S α}
    (answer : S.Answer op) (t' : σ) (hcall : q = .call op next) (hstep : env op t answer t') :
    Leaves env p s (steps ++ [⟨t, op, answer, t'⟩]) t' (next answer) := by
  subst hcall
  exact h.snoc hstep

theorem exec {a : α} (h : Leaves env p s steps t (.ret a)) : Exec env p s steps t (some a) := by
  generalize hq : Prog.ret a = q at h
  induction h with
  | refl p s =>
    subst hq
    exact .ret a s
  | call hstep _ ih => exact .call hstep (ih hq)

theorem exec_cut (h : Leaves env p s steps t q) : Exec env p s steps t none := by
  induction h with
  | refl p s => exact .crash p s
  | call hstep _ ih => exact .call hstep ih

/-- What is left of a program still satisfies its precondition. -/
theorem wp {guard : S.Op → σ → Prop} {post : α → σ → Prop} (h : Leaves env p s steps t q)
    (hp : Prog.wp env guard p post s) : Prog.wp env guard q post t := by
  induction h with
  | refl => exact hp
  | call hstep _ ih => exact ih (hp.2 _ _ hstep)

theorem logged (h : Leaves env p s steps t q) (log : List (Step S σ)) :
    ∃ more, Leaves env.logged p (s, log) more (t, log ++ steps) q := by
  induction h generalizing log with
  | refl p s => exact ⟨[], by rw [List.append_nil]; exact .refl p _⟩
  | call hstep _ ih =>
    obtain ⟨more, hmore⟩ := ih (log ++ [⟨_, _, _, _⟩])
    rw [List.append_assoc] at hmore
    exact ⟨_, .call ⟨hstep, rfl⟩ hmore⟩

end Leaves

/-! ### Runs -/

/-- An operation of one of the programs. -/
structure Event (ι : Type) (S : Signature) (σ : Type) where
  thread : ι
  step : Step S σ

/-- A run of the programs `programs` from state `s`: the log of the operations, what is left
    of each program, and the state reached. -/
inductive Interleaving [DecidableEq ι] (env : Env S σ) (moves : σ → σ → Prop)
    (programs : ι → Prog S α) (s : σ) :
    List (Event ι S σ) → (ι → Prog S α) → σ → Prop where
  | start : Interleaving env moves programs s [] programs s
  | move {events : List (Event ι S σ)} {left : ι → Prog S α} {t u : σ}
      (hrun : Interleaving env moves programs s events left t) (hmove : moves t u) :
      Interleaving env moves programs s events left u
  | step {events : List (Event ι S σ)} {left : ι → Prog S α} {t t' : σ} (i : ι) {op : S.Op}
      {next : S.Answer op → Prog S α} {answer : S.Answer op}
      (hrun : Interleaving env moves programs s events left t) (hcall : left i = .call op next)
      (hstep : env op t answer t') :
      Interleaving env moves programs s (events ++ [⟨i, ⟨t, op, answer, t'⟩⟩])
        (Function.update left i (next answer)) t'

/-- The operations of one program. -/
def own [DecidableEq ι] (i : ι) (events : List (Event ι S σ)) : List (Step S σ) :=
  events.filterMap fun event => if event.thread = i then some event.step else none

@[simp] theorem own_nil [DecidableEq ι] (i : ι) : own i ([] : List (Event ι S σ)) = [] := rfl

@[simp] theorem own_append [DecidableEq ι] (i : ι) (events more : List (Event ι S σ)) :
    own i (events ++ more) = own i events ++ own i more :=
  List.filterMap_append

@[simp] theorem own_cons_self [DecidableEq ι] (i : ι) (step : Step S σ)
    (events : List (Event ι S σ)) : own i (⟨i, step⟩ :: events) = step :: own i events := by
  simp [own]

theorem own_cons_of_ne [DecidableEq ι] {i j : ι} (h : j ≠ i) (step : Step S σ)
    (events : List (Event ι S σ)) : own i (⟨j, step⟩ :: events) = own i events := by
  simp [own, h]

/-- The operation and its answer, without the states around it. -/
def Step.exchange (step : Step S σ) : (op : S.Op) × S.Answer op := ⟨step.op, step.answer⟩

namespace Interleaving

variable [DecidableEq ι] {env : Env S σ} {moves : σ → σ → Prop} {programs left : ι → Prog S α}
  {s t : σ} {events : List (Event ι S σ)}

theorem env_of_mem (h : Interleaving env moves programs s events left t) :
    ∀ event ∈ events, env event.step.op event.step.before event.step.answer event.step.after := by
  induction h with
  | start => exact fun event hevent => absurd hevent List.not_mem_nil
  | move _ _ ih => exact ih
  | step i _ _ hstep ih =>
    refine List.forall_mem_append.mpr ⟨ih, fun event hevent => ?_⟩
    rw [List.mem_singleton.mp hevent]
    exact hstep

/-- One more operation. -/
theorem next (h : Interleaving env moves programs s events left t) (i : ι) (op : S.Op)
    {next : S.Answer op → Prog S α} (answer : S.Answer op) (t' : σ)
    (hcall : left i = .call op next) (hstep : env op t answer t') :
    Interleaving env moves programs s (events ++ [⟨i, ⟨t, op, answer, t'⟩⟩])
      (Function.update left i (next answer)) t' :=
  .step i h hcall hstep

/-- What everybody else keeps and the operations of the run keep holds at its end. -/
theorem kept (inv : σ → Prop) (hmoves : ∀ s t, moves s t → inv s → inv t)
    (h : Interleaving env moves programs s events left t)
    (hsteps : ∀ event ∈ events, inv event.step.before → inv event.step.after) (hs : inv s) :
    inv t := by
  induction h with
  | start => exact hs
  | move _ hmove ih => exact hmoves _ _ hmove (ih hsteps)
  | step i _ _ _ ih =>
    obtain ⟨hbefore, hlast⟩ := List.forall_mem_append.mp hsteps
    exact hlast _ List.mem_cons_self (ih hbefore)

/-- A run up to one of its operations and from there on. -/
theorem split {first rest : List (Event ι S σ)} {event : Event ι S σ}
    (h : Interleaving env moves programs s (first ++ event :: rest) left t) :
    ∃ before after, Interleaving env moves programs s first before event.step.before ∧
      Interleaving env moves after event.step.after rest left t := by
  generalize hevents : first ++ event :: rest = events at h
  induction h generalizing rest with
  | start => simp at hevents
  | move _ hmove ih =>
    obtain ⟨before, after, hfirst, hrest⟩ := ih hevents
    exact ⟨before, after, hfirst, .move hrest hmove⟩
  | @step events left u u' i op next answer hrun hcall hstep ih =>
    rcases List.eq_nil_or_concat rest with rfl | ⟨rest, last, rfl⟩
    · obtain ⟨rfl, hlast⟩ := List.append_inj' hevents rfl
      cases hlast
      exact ⟨_, _, hrun, .start⟩
    · rw [List.concat_eq_append, ← List.cons_append, ← List.append_assoc] at hevents
      obtain ⟨hinit, hlast⟩ := List.append_inj' hevents rfl
      obtain ⟨before, after, hfirst, hrest⟩ := ih hinit
      cases hlast
      exact ⟨before, after, hfirst, by
        rw [List.concat_eq_append]
        exact .step i hrest hcall hstep⟩

/-- What one program has done by itself: its operations with their answers are those of an
    execution in which the others have moved the state in between. -/
theorem leaves (rely : σ → σ → Prop) (hmoves : ∀ s t, moves s t → rely s t)
    (h : Interleaving env moves programs s events left t)
    (hsteps : ∀ event ∈ events, rely event.step.before event.step.after) (i : ι) :
    ∃ steps u, Leaves (env.interleaved rely) (programs i) s steps u (left i) ∧
      Relation.ReflTransGen rely u t ∧
      steps.map Step.exchange = (own i events).map Step.exchange := by
  induction h with
  | start => exact ⟨[], s, .refl _ _, .refl, rfl⟩
  | move _ hmove ih =>
    obtain ⟨steps, u, hleaves, hmoved, hsame⟩ := ih hsteps
    exact ⟨steps, u, hleaves, hmoved.tail (hmoves _ _ hmove), hsame⟩
  | @step events left v v' j op next answer _ hcall hstep ih =>
    obtain ⟨hbefore, hlast⟩ := List.forall_mem_append.mp hsteps
    obtain ⟨steps, u, hleaves, hmoved, hsame⟩ := ih hbefore
    by_cases hj : j = i
    · subst hj
      rw [hcall] at hleaves
      have hstep' : env.interleaved rely op u answer v' := ⟨v, hmoved, hstep⟩
      have hnext := hleaves.snoc hstep'
      rw [Function.update_self]
      exact ⟨_, v', hnext, .refl, by simp [hsame, Step.exchange]⟩
    · refine ⟨steps, u, ?_, hmoved.tail (hlast _ List.mem_cons_self), ?_⟩
      · rw [Function.update_of_ne (Ne.symm hj)]
        exact hleaves
      · rw [own_append, own_cons_of_ne hj, hsame, own_nil, List.append_nil]

/-! ### Rely and guarantee -/

/-- The guard still holds after what the others may have done. -/
def steady (rely : σ → σ → Prop) (guard : S.Op → σ → Prop) (op : S.Op) (s : σ) : Prop :=
  ∀ t, Relation.ReflTransGen rely s t → guard op t

theorem wp_steady {rely : σ → σ → Prop} {guard : S.Op → σ → Prop} {p : Prog S α}
    (h : wp (env.interleaved rely) (steady rely guard) p (fun _ _ => True) s) (hmove : rely s t) :
    wp (env.interleaved rely) (steady rely guard) p (fun _ _ => True) t := by
  cases p with
  | ret a => trivial
  | call op next =>
    refine ⟨fun u hu => h.1 u (.head hmove hu), fun answer s' hstep => h.2 answer s' ?_⟩
    obtain ⟨u, hu, hstep⟩ := hstep
    exact ⟨u, .head hmove hu, hstep⟩

/-- **Rely and guarantee**, with a rely for each program: what one program does under its guard is
    what every other one relies on. -/
theorem guarded_each (rely : ι → σ → σ → Prop) (guard : ι → S.Op → σ → Prop)
    (hmoves : ∀ i s t, moves s t → rely i s t)
    (hsteps : ∀ i j op s answer s', j ≠ i → guard i op s → env op s answer s' → rely j s s')
    (hprograms : ∀ i, wp (env.interleaved (rely i)) (steady (rely i) (guard i)) (programs i)
      (fun _ _ => True) s)
    (h : Interleaving env moves programs s events left t) :
    (∀ event ∈ events, guard event.thread event.step.op event.step.before) ∧
      ∀ i, wp (env.interleaved (rely i)) (steady (rely i) (guard i)) (left i)
        (fun _ _ => True) t := by
  induction h with
  | start => exact ⟨fun event hevent => absurd hevent List.not_mem_nil, hprograms⟩
  | move _ hmove ih => exact ⟨ih.1, fun i => wp_steady (ih.2 i) (hmoves i _ _ hmove)⟩
  | @step events left v v' i op next answer _ hcall hstep ih =>
    obtain ⟨hevents, hleft⟩ := ih
    have hi := hleft i
    rw [hcall] at hi
    have hguard : guard i op v := hi.1 v .refl
    refine ⟨List.forall_mem_append.mpr ⟨hevents, fun event hevent => ?_⟩, fun j => ?_⟩
    · rw [List.mem_singleton.mp hevent]
      exact hguard
    by_cases hj : j = i
    · subst hj
      rw [Function.update_self]
      exact hi.2 answer v' ⟨v, .refl, hstep⟩
    · rw [Function.update_of_ne hj]
      exact wp_steady (hleft j) (hsteps i j op v answer v' hj hguard hstep)

/-- **Rely and guarantee.**  If every operation that a guard lets through does to the state
    what the others rely on, and every program respects its guard while the others do that,
    then along the run every operation respects the guard, at the state in which it is
    really performed. -/
theorem guarded (rely : σ → σ → Prop) (guard : ι → S.Op → σ → Prop)
    (hmoves : ∀ s t, moves s t → rely s t)
    (hsteps : ∀ i op s answer s', guard i op s → env op s answer s' → rely s s')
    (hprograms : ∀ i, wp (env.interleaved rely) (steady rely (guard i)) (programs i)
      (fun _ _ => True) s)
    (h : Interleaving env moves programs s events left t) :
    (∀ event ∈ events, guard event.thread event.step.op event.step.before) ∧
      ∀ i, wp (env.interleaved rely) (steady rely (guard i)) (left i) (fun _ _ => True) t :=
  h.guarded_each (fun _ => rely) guard (fun _ => hmoves)
    (fun i _ op s answer s' _ => hsteps i op s answer s') hprograms

end Interleaving

/-! ### Schedules -/

/-- The run in which the programs take turns as the schedule says, against a handler.  A turn of a
    program that has ended is skipped. -/
def schedule [DecidableEq ι] (h : Handler S σ) :
    List ι → (ι → Prog S α) → σ → List (Event ι S σ) × (ι → Prog S α) × σ
  | [], left, s => ([], left, s)
  | i :: turns, left, s =>
      match left i with
      | .ret _ => schedule h turns left s
      | .call op next =>
          let rest := schedule h turns (Function.update left i (next (h op s).1)) (h op s).2
          (⟨i, ⟨s, op, (h op s).1, (h op s).2⟩⟩ :: rest.1, rest.2)

theorem Interleaving.scheduled [DecidableEq ι] {env : Env S σ} {moves : σ → σ → Prop}
    {h : Handler S σ} (henv : ∀ op s, env op s (h op s).1 (h op s).2) {programs left : ι → Prog S α}
    {s t : σ} {events : List (Event ι S σ)} (hrun : Interleaving env moves programs s events left t)
    (turns : List ι) :
    Interleaving env moves programs s (events ++ (schedule h turns left t).1)
      (schedule h turns left t).2.1 (schedule h turns left t).2.2 := by
  induction turns generalizing events left t with
  | nil =>
    rw [schedule, List.append_nil]
    exact hrun
  | cons i turns ih =>
    rw [schedule]
    split
    · exact ih hrun
    · next op next hcall =>
      have hmore := ih (hrun.next i op _ _ hcall (henv op t))
      rw [List.append_assoc] at hmore
      exact hmore

/-! ### Programs on behalf of somebody -/

/-- The operations of `S`, each on behalf of one of `ι`. -/
abbrev tagged (ι : Type) (S : Signature) : Signature := ⟨ι × S.Op, fun op => S.Answer op.2⟩

/-- The program with all its operations on behalf of `i`. -/
def onBehalf (i : ι) : Prog S α → Prog (tagged ι S) α
  | .ret a => .ret a
  | .call op next => .call (i, op) fun answer => (next answer).onBehalf i

theorem wp_onBehalf {env : Env (tagged ι S) σ} {guard : ι × S.Op → σ → Prop} {i : ι} {p : Prog S α}
    {post : α → σ → Prop} {s : σ}
    (h : wp (fun op => env (i, op)) (fun op => guard (i, op)) p post s) :
    wp env guard (p.onBehalf i) post s := by
  induction p generalizing s with
  | ret a => exact h
  | call op next ih => exact ⟨h.1, fun answer t hstep => ih answer (h.2 answer t hstep)⟩

end Prog

end KeycloakOperator
