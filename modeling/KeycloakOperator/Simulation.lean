import KeycloakOperator.Interaction

/-!
# Operations that are programs

An operation of one level is often a program of the level below: it performs several operations
there, may try again, and may be cut off in the middle.  `translate` puts such programs in the place
of the operations.

`Simulates` says when that is sound: whatever the program of an operation has done when it returns,
the operation may do above, with the same answer; and wherever it is cut off, it has done nothing
that can be seen above, or the operation has been performed and its answer is lost.  Every execution
of a translated program is then one of the program itself (`Simulates.exec`), and so for whole runs
(`Simulates.run`).
-/

namespace KeycloakOperator

namespace Prog

variable {S T : Signature} {α σ τ : Type}

/-- Carry out every operation by a program. -/
def translate (impl : (op : S.Op) → Prog T (S.Answer op)) : Prog S α → Prog T α
  | .ret a => .ret a
  | .call op next => impl op >>= fun answer => (next answer).translate impl

theorem translate_bind {β : Type} (impl : (op : S.Op) → Prog T (S.Answer op)) (p : Prog S α)
    (f : α → Prog S β) :
    (p >>= f).translate impl = p.translate impl >>= fun a => (f a).translate impl := by
  induction p with
  | ret a => rfl
  | call op next ih =>
    rw [call_bind, translate, translate, bind_assoc]
    exact congrArg _ (funext ih)

theorem only_translate {allowed : T.Op → Prop} {impl : (op : S.Op) → Prog T (S.Answer op)}
    (h : ∀ op, Only allowed (impl op)) (p : Prog S α) : Only allowed (p.translate impl) := by
  induction p with
  | ret a => trivial
  | call op next ih => exact only_bind (h op) ih

/-- `impl` carries out the operations of `high` in the environment `low`, with states that are
    related by `rel`. -/
structure Simulates (impl : (op : S.Op) → Prog T (S.Answer op)) (low : Env T τ) (high : Env S σ)
    (rel : τ → σ → Prop) : Prop where
  returned : ∀ {op : S.Op} {x y : τ} {s : σ} {steps : List (Step T τ)} {answer : S.Answer op},
    rel x s → Exec low (impl op) x steps y (some answer) → ∃ t, high op s answer t ∧ rel y t
  cut : ∀ {op : S.Op} {x y : τ} {s : σ} {steps : List (Step T τ)},
    rel x s → Exec low (impl op) x steps y none →
      rel y s ∨ ∃ answer t, high op s answer t ∧ rel y t

namespace Simulates

variable {impl : (op : S.Op) → Prog T (S.Answer op)} {low : Env T τ} {high : Env S σ}
  {rel : τ → σ → Prop}

/-- Both conditions from one weakest precondition. -/
theorem of_wp (h : ∀ op x s, rel x s →
    wp low (fun _ y => rel y s ∨ ∃ answer t, high op s answer t ∧ rel y t) (impl op)
      (fun answer y => ∃ t, high op s answer t ∧ rel y t) x) : Simulates impl low high rel where
  returned hrel hexec := (wp_sound (h _ _ _ hrel) hexec).2 _ rfl
  cut {op x y s steps} hrel hexec := by
    let visible (y : τ) : Prop := rel y s ∨ ∃ answer t, high op s answer t ∧ rel y t
    have hend : visible y :=
      wp_invariant (fun _ _ hguard => hguard) (fun answer _ hpost => .inr ⟨answer, hpost⟩)
        (h _ _ _ hrel) hexec
    exact hend

variable (sim : Simulates impl low high rel)

include sim in
/-- **Executions.**  A translated program does what the program may do. -/
theorem exec {p : Prog S α} {x y : τ} {s : σ} {steps : List (Step T τ)} {result : Option α}
    (hrel : rel x s) (h : Exec low (p.translate impl) x steps y result) :
    ∃ more t, Exec high p s more t result ∧ rel y t := by
  induction p generalizing x s steps with
  | ret a =>
    cases h with
    | ret => exact ⟨[], s, .ret a s, hrel⟩
    | crash => exact ⟨[], s, .crash _ s, hrel⟩
  | call op next ih =>
    rcases Exec.bind_inv h with ⟨rfl, hcut⟩ | ⟨answer, z, first, rest, rfl, hfirst, hrest⟩
    · rcases sim.cut hrel hcut with hsame | ⟨answer, t, hstep, hlost⟩
      · exact ⟨[], s, .crash _ s, hsame⟩
      · exact ⟨_, t, .call hstep (.crash _ t), hlost⟩
    · obtain ⟨t, hstep, hnext⟩ := sim.returned hrel hfirst
      obtain ⟨more, u, hexec, hend⟩ := ih answer hnext hrest
      exact ⟨_, u, .call hstep hexec, hend⟩

include sim in
/-- **Runs.**  What somebody else does below is nothing above, or a move there. -/
theorem run {lowMoves : τ → τ → Prop} {highMoves : σ → σ → Prop} {p : Prog S α}
    {ends : Option α → Prop} {x y : τ} {s : σ} {steps : List (Step T τ)}
    (hmoves : ∀ {x y s}, rel x s → lowMoves x y → rel y s ∨ ∃ t, highMoves s t ∧ rel y t)
    (hrel : rel x s) (h : Run low lowMoves (p.translate impl) ends x steps y) :
    ∃ more t, Run high highMoves p ends s more t ∧ rel y t := by
  induction h with
  | start => exact ⟨[], s, .start s, hrel⟩
  | move _ hmove ih =>
    obtain ⟨more, t, hrun, hend⟩ := ih
    rcases hmoves hend hmove with hsame | ⟨u, hstep, hnext⟩
    · exact ⟨more, t, hrun, hsame⟩
    · exact ⟨more, u, .move hrun hstep, hnext⟩
  | pass _ hexec hends ih =>
    obtain ⟨more, t, hrun, hend⟩ := ih
    obtain ⟨later, u, hpass, hnext⟩ := sim.exec hend hexec
    exact ⟨more ++ later, u, .pass hrun hpass hends, hnext⟩

end Simulates

end Prog

end KeycloakOperator
