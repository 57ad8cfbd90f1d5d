import Mathlib.Data.Fin.Tuple.Basic
import Mathlib.Data.Fintype.EquivFin
import Mathlib.Data.List.Forall2

/-!
# Greedy matching

Requests are served one after the other; each takes the first candidate that no
earlier request has taken and that it accepts.  Taking is recorded in a flag
next to the candidate.  When all requests are served the takers are distinct
candidates (`claimAll_injective`), and requests that accept the candidate at
their own position are always served (`claimAll_diagonal`).  Over all orders of
the candidates the loop is sure to serve everybody exactly when no choice of the
first requests can starve the next one (`claimAll_of_always`, `claimAll_stuck`).
-/

namespace KeycloakOperator

variable {β : Type u}

/-! ### The matching loop -/

/-- Take the first candidate that is not used yet and that `accepts` accepts. -/
def claimFirst (accepts : β → Bool) : List (β × Bool) → Option (List (β × Bool))
  | [] => none
  | (candidate, used) :: rest =>
      if !used && accepts candidate then
        some ((candidate, true) :: rest)
      else
        (claimFirst accepts rest).map fun rest' => (candidate, used) :: rest'

/-- Serve every request, in order; fails at the first one that finds nothing. -/
def claimAll : List (β → Bool) → List (β × Bool) → Bool
  | [], _ => true
  | accepts :: requests, slots =>
      match claimFirst accepts slots with
      | some slots' => claimAll requests slots'
      | none => false

/-- No candidate is used. -/
def unused (candidates : List β) : List (β × Bool) := candidates.map fun b => (b, false)

/-! ### What one request does -/

theorem forall₂_exists {α : Type v} {R : α → β → Prop} {l : List α} {l' : List β} (h : List.Forall₂ R l l')
    {a : α} (ha : a ∈ l) : ∃ b ∈ l', R a b := by
  induction h with
  | nil => cases ha
  | cons hhead _ ih =>
    rcases List.mem_cons.mp ha with rfl | ha
    · exact ⟨_, List.mem_cons_self, hhead⟩
    · obtain ⟨b, hb, hR⟩ := ih ha
      exact ⟨b, List.mem_cons_of_mem _ hb, hR⟩

/-- One request sets the flag of one free candidate that it accepts. -/
theorem claimFirst_eq_some {accepts : β → Bool} {slots slots' : List (β × Bool)}
    (h : claimFirst accepts slots = some slots') :
    ∃ i : Fin slots.length, slots[i].2 = false ∧ accepts slots[i].1 = true ∧
      slots' = slots.set i (slots[i].1, true) := by
  induction slots generalizing slots' with
  | nil => cases h
  | cons slot rest ih =>
    obtain ⟨candidate, used⟩ := slot
    simp only [claimFirst] at h
    by_cases htake : (!used && accepts candidate) = true
    · rw [if_pos htake] at h
      simp only [Bool.and_eq_true, Bool.not_eq_true'] at htake
      refine ⟨⟨0, Nat.zero_lt_succ _⟩, htake.1, htake.2, ?_⟩
      simpa using h.symm
    · rw [if_neg htake, Option.map_eq_some_iff] at h
      obtain ⟨rest', hrest, rfl⟩ := h
      obtain ⟨i, hfree, haccepts, rfl⟩ := ih hrest
      exact ⟨i.succ, hfree, haccepts, rfl⟩

/-- A request that accepts the first free candidate takes it. -/
theorem claimFirst_after_used {accepts : β → Bool} {candidate : β}
    (haccepts : accepts candidate = true) (taken : List β) (rest : List (β × Bool)) :
    claimFirst accepts (taken.map (fun b => (b, true)) ++ (candidate, false) :: rest) =
      some (taken.map (fun b => (b, true)) ++ (candidate, true) :: rest) := by
  induction taken with
  | nil => simp [claimFirst, haccepts]
  | cons b taken ih => simp [claimFirst, ih]

/-! ### What the whole loop does -/

/-- The served requests hold distinct candidates that were free before. -/
theorem claimAll_slots {requests : List (β → Bool)} {slots : List (β × Bool)}
    (h : claimAll requests slots = true) :
    ∃ f : Fin requests.length → Fin slots.length, Function.Injective f ∧
      ∀ i, slots[f i].2 = false ∧ requests[i] slots[f i].1 = true := by
  induction requests generalizing slots with
  | nil => exact ⟨fun i => i.elim0, fun i => i.elim0, fun i => i.elim0⟩
  | cons accepts requests ih =>
    simp only [claimAll] at h
    cases hclaim : claimFirst accepts slots with
    | none => rw [hclaim] at h; cases h
    | some slots' =>
      rw [hclaim] at h
      obtain ⟨j, hfree, haccepts, rfl⟩ := claimFirst_eq_some hclaim
      obtain ⟨g, hg, hserved⟩ := ih h
      have hlength : (slots.set j (slots[j].1, true)).length = slots.length := List.length_set
      -- the flag at `j` is set now, so no later request holds `j`
      have hne : ∀ i, (g i).val ≠ j.val := by
        intro i heq
        have hflag := (hserved i).1
        simp [heq] at hflag
      refine ⟨Fin.cons j fun i => (g i).cast hlength, ?_, ?_⟩
      · rw [Fin.cons_injective_iff]
        refine ⟨?_, fun a b hab => hg (Fin.ext (by simpa using congrArg Fin.val hab))⟩
        rintro ⟨i, hi⟩
        exact hne i (by simpa using congrArg Fin.val hi)
      · intro i
        refine Fin.cases ?_ (fun i => ?_) i
        · exact ⟨hfree, haccepts⟩
        · have hi := hserved i
          simp only [Fin.getElem_fin, List.getElem_set] at hi
          rw [if_neg (hne i).symm] at hi
          exact hi

/-- **The served requests hold distinct candidates that they accept.** -/
theorem claimAll_injective {requests : List (β → Bool)} {candidates : List β}
    (h : claimAll requests (unused candidates) = true) :
    ∃ f : Fin requests.length → Fin candidates.length, Function.Injective f ∧
      ∀ i : Fin requests.length, requests[i] candidates[f i] = true := by
  obtain ⟨f, hf, hserved⟩ := claimAll_slots h
  have hlength : (unused candidates).length = candidates.length := List.length_map _
  refine ⟨fun i => (f i).cast hlength, ?_, ?_⟩
  · intro a b hab
    exact hf (Fin.ext (by simpa using congrArg Fin.val hab))
  · intro i
    have hi := (hserved i).2
    simp only [Fin.getElem_fin] at hi
    simp only [unused, List.getElem_map] at hi
    exact hi

/-- The first requests accept the candidate at their own position: the loop has then used
    exactly these candidates. -/
theorem claimAll_append {served : List (β → Bool)} {taken : List β}
    (h : List.Forall₂ (fun accepts candidate => accepts candidate = true) served taken)
    (requests : List (β → Bool)) (others : List β) (before : List β) :
    claimAll (served ++ requests) (before.map (fun b => (b, true)) ++ unused (taken ++ others)) =
      claimAll requests ((before ++ taken).map (fun b => (b, true)) ++ unused others) := by
  induction h generalizing before with
  | nil => simp
  | @cons accepts candidate served taken haccepts _ ih =>
    have hclaim := claimFirst_after_used haccepts before (unused (taken ++ others))
    have hshift := ih (before ++ [candidate])
    simp only [unused, List.map_append, List.cons_append, List.map_cons] at hclaim hshift ⊢
    simp only [claimAll, hclaim]
    simpa using hshift

/-- **Requests that accept the candidate at their own position are served.** -/
theorem claimAll_diagonal {requests : List (β → Bool)} {candidates : List β}
    (h : List.Forall₂ (fun accepts candidate => accepts candidate = true) requests candidates) :
    claimAll requests (unused candidates) = true := by
  have hserved := claimAll_append h [] [] []
  simpa [claimAll] using hserved

/-- A request that accepts none of the free candidates is not served. -/
theorem claimFirst_eq_none {accepts : β → Bool} (taken : List β) {others : List β}
    (h : ∀ b ∈ others, accepts b = false) :
    claimFirst accepts (taken.map (fun b => (b, true)) ++ unused others) = none := by
  induction taken with
  | nil =>
    induction others with
    | nil => rfl
    | cons b others ih =>
      obtain ⟨hb, hrest⟩ := List.forall_mem_cons.mp h
      simpa [unused, claimFirst, hb] using ih hrest
  | cons b taken ih => simpa [claimFirst] using ih

/-- **The loop gets stuck** when the first requests have taken every candidate that the next
    one accepts. -/
theorem claimAll_stuck {served rest : List (β → Bool)} {accepts : β → Bool} {taken others : List β}
    (h : List.Forall₂ (fun accepts candidate => accepts candidate = true) served taken)
    (hnone : ∀ b ∈ others, accepts b = false) :
    claimAll (served ++ accepts :: rest) (unused (taken ++ others)) = false := by
  have hserved := claimAll_append h (accepts :: rest) others []
  simp only [List.map_nil, List.nil_append] at hserved
  rw [hserved, claimAll, claimFirst_eq_none taken hnone]

/-! ### Whatever is taken first -/

section Indexed

variable {ι κ : Type} [DecidableEq ι] (candidate : ι → β)

/-- The slots of the candidates `positions` after those of `taken` have been used. -/
def slotsAfter (positions taken : List ι) : List (β × Bool) :=
  positions.map fun j => (candidate j, decide (j ∈ taken))

variable {candidate}

/-- A request that accepts a free candidate takes one. -/
theorem claimFirst_slotsAfter {accepts : β → Bool} {positions taken : List ι}
    (hpositions : positions.Nodup)
    (h : ∃ j ∈ positions, j ∉ taken ∧ accepts (candidate j) = true) :
    ∃ j ∉ taken, accepts (candidate j) = true ∧
      claimFirst accepts (slotsAfter candidate positions taken) =
        some (slotsAfter candidate positions (taken ++ [j])) := by
  induction positions with
  | nil =>
    obtain ⟨j, hj, -⟩ := h
    cases hj
  | cons p positions ih =>
    obtain ⟨hp, hrest⟩ := List.nodup_cons.mp hpositions
    by_cases hfree : p ∉ taken ∧ accepts (candidate p) = true
    · refine ⟨p, hfree.1, hfree.2, ?_⟩
      have hothers : ∀ j ∈ positions, decide (j ∈ taken ++ [p]) = decide (j ∈ taken) := by
        intro j hj
        have hne : j ≠ p := fun heq => hp (heq ▸ hj)
        simp [hne]
      simp only [slotsAfter, List.map_cons, claimFirst, hfree.1, hfree.2]
      simp only [decide_false, Bool.not_false, Bool.and_self, if_true, List.mem_append,
        List.mem_singleton, or_true, decide_true, Option.some.injEq, List.cons.injEq, true_and]
      exact List.map_congr_left fun j hj => by rw [← hothers j hj]; simp
    · obtain ⟨j, hj, htaken, haccepts⟩ := h
      have hjp : j ≠ p := by
        rintro rfl
        exact hfree ⟨htaken, haccepts⟩
      obtain ⟨i, hi, hiaccepts, hclaim⟩ :=
        ih hrest ⟨j, List.mem_of_ne_of_mem hjp hj, htaken, haccepts⟩
      refine ⟨i, hi, hiaccepts, ?_⟩
      have hip : p ≠ i := by
        rintro rfl
        exact hfree ⟨hi, hiaccepts⟩
      have hskip : (!decide (p ∈ taken) && accepts (candidate p)) = false := by
        rw [Bool.eq_false_iff]
        simpa using hfree
      simp only [slotsAfter, List.map_cons, claimFirst] at hclaim ⊢
      rw [if_neg (by simp [hskip]), hclaim]
      simp [hip]

/-- **If, whatever distinct candidates the first requests have taken, the next one accepts a
    candidate that is left, then all requests are served.** -/
theorem claimAll_of_always {accepts : κ → β → Bool} {requests : List κ} {positions : List ι}
    (hpositions : positions.Nodup)
    (h : ∀ served request rest taken, requests = served ++ request :: rest → taken.Nodup →
      List.Forall₂ (fun k j => accepts k (candidate j) = true) served taken →
      ∃ j ∈ positions, j ∉ taken ∧ accepts request (candidate j) = true) :
    claimAll (requests.map accepts) (unused (positions.map candidate)) = true := by
  suffices hgen : ∀ rest served taken, requests = served ++ rest → taken.Nodup →
      List.Forall₂ (fun k j => accepts k (candidate j) = true) served taken →
      claimAll (rest.map accepts) (slotsAfter candidate positions taken) = true by
    simpa [slotsAfter, unused, Function.comp_def] using hgen requests [] [] rfl List.nodup_nil .nil
  -- the invariant: the used flags are those of the candidates that the served requests hold
  intro rest
  induction rest with
  | nil => intros; rfl
  | cons request rest ih =>
    intro served taken hrequests hnodup hserved
    obtain ⟨j, hfree, haccepts, hclaim⟩ :=
      claimFirst_slotsAfter hpositions (h served request rest taken hrequests hnodup hserved)
    rw [List.map_cons, claimAll, hclaim]
    apply ih (served ++ [request])
    · rw [hrequests, List.append_assoc, List.singleton_append]
    · exact List.nodup_append.mpr ⟨hnodup, List.nodup_singleton j,
        fun a ha b hb heq => hfree (List.mem_singleton.mp hb ▸ heq ▸ ha)⟩
    · exact List.rel_append hserved (.cons haccepts .nil)

end Indexed

end KeycloakOperator
