import Mathlib.Data.List.NodupEquivFin
import KeycloakOperator.DriftDetection

/-!
# The order of lists

A remote value may hold the elements of its lists in any order (`Permuted`).  Some order
lets the comparison succeed exactly when the values match (`Matches`): then the elements can
be laid out along the pairing.  All orders do exactly when first fit can never go wrong
(`SurelyMatches`): whichever matching elements the first desired ones have taken, an element
is left that surely matches the next.  An element that is compared on a few keys only, or
that is the mask, may match several desired elements, and then the second condition is
stronger than the first.
-/

namespace KeycloakOperator

/-! ### Values up to the order of their lists -/

/-- The elements of the lists of the first value, at any depth, are in another order in the
    second one. -/
inductive Permuted : JSON → JSON → Prop where
  | scalar {v : JSON} (h : v.isScalar = true) : Permuted v v
  | list {n m : Nat} {items : Fin n → JSON} {items' : Fin m → JSON} (order : Fin n ≃ Fin m)
      (h : ∀ i, Permuted (items i) (items' (order i))) : Permuted (.arr n items) (.arr m items')
  | object {keys : Finset String} {vals vals' : {k // k ∈ keys} → JSON}
      (h : ∀ k, Permuted (vals k) (vals' k)) : Permuted (.obj keys vals) (.obj keys vals')

namespace Permuted

theorem refl (v : JSON) : Permuted v v := by
  induction v with
  | arr n items ih => exact .list (.refl _) ih
  | obj keys vals ih => exact .object ih
  | _ => exact .scalar rfl

theorem symm {v w : JSON} (h : Permuted v w) : Permuted w v := by
  induction h with
  | scalar h => exact .scalar h
  | @list n m items items' order _ ih =>
    refine .list order.symm fun i => ?_
    simpa using ih (order.symm i)
  | object _ ih => exact .object ih

theorem eq_of_isScalar {v w : JSON} (h : Permuted v w) (hv : v.isScalar = true) : w = v := by
  cases h with
  | scalar => rfl
  | list => cases hv
  | object => cases hv

theorem eq_null_iff {v w : JSON} (h : Permuted v w) : v = .null ↔ w = .null := by
  constructor
  · rintro rfl
    exact h.eq_of_isScalar rfl
  · rintro rfl
    exact h.symm.eq_of_isScalar rfl

/-- A map is permuted entry by entry. -/
theorem object_inv {m : Object} {w : JSON} (h : Permuted (.ofObject m) w) :
    ∃ m', w = .ofObject m' ∧
      (∀ k v, m.get k = some v → ∃ v', m'.get k = some v' ∧ Permuted v v') ∧
      ∀ k v', m'.get k = some v' → ∃ v, m.get k = some v ∧ Permuted v v' := by
  obtain ⟨keys, vals⟩ := m
  cases h with
  | scalar h => cases h
  | @object _ _ vals' h =>
    refine ⟨⟨keys, vals'⟩, rfl, fun k v hk => ?_, fun k v' hk => ?_⟩
    · have hmem := FiniteMap.mem_keys_of_get hk
      rw [← FiniteMap.vals_eq_of_get hk hmem]
      exact ⟨_, FiniteMap.get_val ⟨keys, vals'⟩ ⟨k, hmem⟩, h _⟩
    · have hmem := FiniteMap.mem_keys_of_get hk
      rw [← FiniteMap.vals_eq_of_get hk hmem]
      exact ⟨_, FiniteMap.get_val ⟨keys, vals⟩ ⟨k, hmem⟩, h _⟩

/-- The elements in the order of a list of all the positions. -/
theorem ofPositions {n : Nat} {items items' : Fin n → JSON} (h : ∀ i, Permuted (items i) (items' i))
    {positions : List (Fin n)} (hnodup : positions.Nodup) (hall : ∀ i, i ∈ positions) :
    Permuted (.arr n items) (.ofList (positions.map items')) := by
  have hlength : positions.length = (positions.map items').length := (List.length_map _).symm
  refine .list ((hnodup.getEquivOfForallMemList positions hall).symm.trans (finCongr hlength))
    fun i => ?_
  have hat : (positions.map items')[((hnodup.getEquivOfForallMemList positions hall).symm.trans
      (finCongr hlength)) i] = items' i := by
    simp
  exact hat.symm ▸ h i

end Permuted

/-! ### Maps entry by entry -/

/-- Every entry of `want` finds in `got` what a comparison of maps asks for, with `R` for the
    values. -/
structure Entrywise (R : JSON → JSON → Prop) (want got : Object) : Prop where
  null : ∀ k, want.get k = some .null → got.get k = none ∨ got.get k = some .null
  present : ∀ k v, want.get k = some v → v ≠ .null → v ∉ resetValues →
    ∃ g, got.get k = some g ∧ g ≠ .null
  related : ∀ k v g, want.get k = some v → v ≠ .null → got.get k = some g → g ≠ .null → R v g

namespace Entrywise

variable {R R' : JSON → JSON → Prop} {want got got' : Object}

theorem permuted (h : Entrywise R want got) (hp : Permuted (.ofObject got) (.ofObject got'))
    (hrelated : ∀ k v g g', want.get k = some v → got.get k = some g → got'.get k = some g' →
      Permuted g g' → R v g → R' v g') : Entrywise R' want got' := by
  obtain ⟨m, hm, hto, hfrom⟩ := hp.object_inv
  obtain rfl := JSON.ofObject_injective hm
  constructor
  case null =>
    intro k hk
    rcases hget : got'.get k with _ | g'
    · exact .inl rfl
    · obtain ⟨g, hg, hperm⟩ := hfrom k g' hget
      rcases h.null k hk with hnone | hnone
      · cases hg.symm.trans hnone
      · cases hg.symm.trans hnone
        exact .inr (congrArg some (hperm.eq_null_iff.mp rfl))
  case present =>
    intro k v hk hv hreset
    obtain ⟨g, hg, hgnull⟩ := h.present k v hk hv hreset
    obtain ⟨g', hg', hperm⟩ := hto k g hg
    exact ⟨g', hg', fun h => hgnull (hperm.eq_null_iff.mpr h)⟩
  case related =>
    intro k v g' hk hv hg' hnull'
    obtain ⟨g, hg, hperm⟩ := hfrom k g' hg'
    have hnull : g ≠ .null := fun h => hnull' (hperm.eq_null_iff.mp h)
    exact hrelated k v g g' hk hg hg' hperm (h.related k v g hk hv hg hnull)

theorem equal_iff :
    managedValueEqual (.ofObject want) (.ofObject got) = true ↔
      Entrywise (fun v g => managedValueEqual v g = true) want got := by
  rw [managedValueEqual_ofObject, Bool.not_eq_true', payloadDiffers_eq_false_iff]
  constructor
  · intro h
    refine ⟨fun k hk => (entryAgrees_null _).mp (h k _ hk), fun k v hk hv hreset => ?_,
      fun k v g hk hv hg hnull => ?_⟩
    · rcases hgot : presentValue (got.get k) with _ | g
      · exact absurd (isZeroValue_iff.mp ((entryAgrees_absent hv hgot).mp (h k v hk))) hreset
      · exact ⟨g, presentValue_eq_some.mp hgot⟩
    · exact (entryAgrees_present hv (presentValue_eq_some.mpr ⟨hg, hnull⟩)).mp (h k v hk)
  · intro h k v hk
    by_cases hv : v = .null
    · subst hv
      exact (entryAgrees_null _).mpr (h.null k hk)
    rcases hgot : presentValue (got.get k) with _ | g
    · rw [entryAgrees_absent hv hgot, isZeroValue_iff]
      by_contra hreset
      obtain ⟨g, hg, hgnull⟩ := h.present k v hk hv hreset
      rw [presentValue_eq_some.mpr ⟨hg, hgnull⟩] at hgot
      cases hgot
    · rw [entryAgrees_present hv hgot]
      obtain ⟨hg, hgnull⟩ := presentValue_eq_some.mp hgot
      exact h.related k v g hk hv hg hgnull

end Entrywise

/-! ### Some order succeeds -/

/-- Whether values match does not depend on the order. -/
theorem Matches.permuted {want got got' : JSON} (h : Matches want got) (hp : Permuted got got') :
    Matches want got' := by
  induction h generalizing got' with
  | @object want got hnull hpresent hmatch ih =>
    obtain ⟨got', rfl, -⟩ := hp.object_inv
    have hbelow : Entrywise (fun v g => ∀ {g'}, Permuted g g' → Matches v g') want got :=
      ⟨hnull, hpresent, ih⟩
    obtain ⟨hnull', hpresent', hmatch'⟩ : Entrywise Matches want got' :=
      hbelow.permuted hp fun k v g g' _ _ _ hperm h => h hperm
    exact .object hnull' hpresent' hmatch'
  | list pairing _ ih =>
    cases hp with
    | scalar h => cases h
    | list order hp => exact .list (pairing.trans order) fun i => ih i (hp _)
  | scalar hwant hgot =>
    rcases hgot with rfl | rfl
    · exact .scalar hwant (.inl (hp.eq_of_isScalar rfl))
    · exact .scalar hwant (.inr (hp.eq_of_isScalar hwant))

/-- A remote value that matches is found in some order of its lists: along the pairing. -/
theorem Matches.exists_permuted {want got : JSON} (h : Matches want got) :
    ∃ got', Permuted got got' ∧ managedValueEqual want got' = true := by
  induction h with
  | @object want got hnull hpresent hmatch ih =>
    have hentries : ∀ k : {k // k ∈ got.keys}, ∃ g', Permuted (got.vals k) g' ∧
        ∀ v, want.get k = some v → v ≠ .null → got.vals k ≠ .null →
          managedValueEqual v g' = true := by
      intro k
      by_cases hasked : ∃ v, want.get k = some v ∧ v ≠ .null ∧ got.vals k ≠ .null
      · obtain ⟨v, hk, hv, hg⟩ := hasked
        obtain ⟨g', hperm, hequal⟩ := ih k v _ hk hv (FiniteMap.get_val got k) hg
        refine ⟨g', hperm, fun v' hk' _ _ => ?_⟩
        cases hk.symm.trans hk'
        exact hequal
      · exact ⟨_, .refl _, fun v hk hv hg => absurd ⟨v, hk, hv, hg⟩ hasked⟩
    choose vals' hperm hequal using hentries
    refine ⟨.ofObject ⟨got.keys, vals'⟩, .object hperm, ?_⟩
    have hbelow : Entrywise (fun v g => v ≠ .null ∧ g ≠ .null) want got :=
      ⟨hnull, hpresent, fun k v g _ hv _ hg => ⟨hv, hg⟩⟩
    have hperm' : Permuted (.ofObject got) (.ofObject ⟨got.keys, vals'⟩) := .object hperm
    refine Entrywise.equal_iff.mpr (hbelow.permuted hperm' ?_)
    rintro k v g g' hk hg hg' - ⟨hv, hnull⟩
    have hmem := FiniteMap.mem_keys_of_get hg
    rw [← FiniteMap.vals_eq_of_get hg hmem] at hnull
    rw [← FiniteMap.vals_eq_of_get hg' hmem]
    exact hequal ⟨k, hmem⟩ v hk hv hnull
  | @list n m items gotItems pairing _ ih =>
    choose got' hperm hequal using ih
    refine ⟨.arr n got', .list pairing.symm fun j => ?_, ?_⟩
    · simpa using hperm (pairing.symm j)
    · rw [managedValueEqual_arr]
      refine ⟨rfl, claimAll_diagonal ?_⟩
      rw [List.forall₂_iff_get]
      refine ⟨by simp, fun i hi hi' => ?_⟩
      simpa using hequal ⟨i, by simpa using hi'⟩
  | scalar hwant hgot => exact ⟨_, .refl _, (managedValueEqual_scalar hwant _).mpr hgot⟩

/-! ### Every order succeeds -/

/-- Distinct remote elements that match the first `i` desired ones. -/
def Taken {n : Nat} (items gotItems : Fin n → JSON) (i : Fin n) (taken : List (Fin n)) : Prop :=
  taken.Nodup ∧
    List.Forall₂ (fun a j => Matches (items a) (gotItems j)) ((List.finRange n).take i) taken

/-- First fit cannot go wrong: whatever the first desired elements have taken, the next one
    surely matches an element that is left. -/
inductive SurelyMatches : JSON → JSON → Prop where
  | object {want got : Object}
      (hnull : ∀ k, want.get k = some .null → got.get k = none ∨ got.get k = some .null)
      (hpresent : ∀ k v, want.get k = some v → v ≠ .null → v ∉ resetValues →
        ∃ g, got.get k = some g ∧ g ≠ .null)
      (hmatch : ∀ k v g, want.get k = some v → v ≠ .null → got.get k = some g → g ≠ .null →
        SurelyMatches v g) :
      SurelyMatches (.ofObject want) (.ofObject got)
  | list {n : Nat} {items gotItems : Fin n → JSON} (next : Fin n → List (Fin n) → Fin n)
      (hfree : ∀ i taken, Taken items gotItems i taken → next i taken ∉ taken)
      (hmatch : ∀ i taken, Taken items gotItems i taken →
        SurelyMatches (items i) (gotItems (next i taken))) :
      SurelyMatches (.arr n items) (.arr n gotItems)
  | scalar {want got : JSON} (hwant : want.isScalar = true)
      (hgot : got = .str keycloakMaskedValue ∨ got = want) :
      SurelyMatches want got

theorem take_finRange {n : Nat} {served rest : List (Fin n)} {i : Fin n}
    (h : List.finRange n = served ++ i :: rest) : (List.finRange n).take i = served := by
  have hi : i.val = served.length := by
    have hlt : served.length < (List.finRange n).length := by simp [h]
    have hat : (List.finRange n)[served.length] = i := by simp [h]
    rw [List.getElem_finRange] at hat
    simpa using (congrArg Fin.val hat).symm
  rw [h, hi, List.take_left]

theorem SurelyMatches.equal_permuted {want got got' : JSON} (h : SurelyMatches want got)
    (hp : Permuted got got') : managedValueEqual want got' = true := by
  induction h generalizing got' with
  | @object want got hnull hpresent hmatch ih =>
    obtain ⟨got', rfl, -⟩ := hp.object_inv
    have hbelow : Entrywise (fun v g => ∀ {g'}, Permuted g g' → managedValueEqual v g' = true)
        want got := ⟨hnull, hpresent, ih⟩
    exact Entrywise.equal_iff.mpr (hbelow.permuted hp fun k v g g' _ _ _ hperm h => h hperm)
  | @list n items gotItems next hfree hmatch ih =>
    cases hp with
    | scalar h => cases h
    | @list _ m _ items' order hp =>
      obtain rfl : n = m := by simpa using Fintype.card_congr order
      rw [managedValueEqual_arr]
      refine ⟨rfl, ?_⟩
      rw [List.ofFn_eq_map, List.ofFn_eq_map]
      apply claimAll_of_always (List.nodup_finRange n)
      intro served i rest taken hserved hnodup hmatched
      -- what is taken in the new order, as positions of the old one
      have htaken : Taken items gotItems i (taken.map order.symm) := by
        refine ⟨hnodup.map order.symm.injective, ?_⟩
        rw [take_finRange hserved, List.forall₂_map_right_iff]
        refine hmatched.imp fun a j hequal => ?_
        have hperm := (hp (order.symm j)).symm
        rw [Equiv.apply_symm_apply] at hperm
        exact (matches_of_managedValueEqual hequal).permuted hperm
      refine ⟨order (next i (taken.map order.symm)), List.mem_finRange _, fun hmem => ?_, ?_⟩
      · exact hfree i _ htaken (List.mem_map.mpr ⟨_, hmem, by simp⟩)
      · exact ih i _ htaken (hp _)
  | scalar hwant hgot =>
    rw [managedValueEqual_scalar hwant]
    rcases hgot with rfl | rfl
    · exact .inl (hp.eq_of_isScalar rfl)
    · exact .inr (hp.eq_of_isScalar hwant)

/-- One entry of a map may be in another order by itself. -/
theorem Permuted.entry {m : Object} {k : String} {g g' : JSON} (hg : m.get k = some g)
    (hp : Permuted g g') : ∃ m' : Object, Permuted (.ofObject m) (.ofObject m') ∧
      m'.get k = some g' := by
  have hmem := FiniteMap.mem_keys_of_get hg
  have hvals : ∀ k', Permuted (m.vals k') (Function.update m.vals ⟨k, hmem⟩ g' k') := by
    intro k'
    by_cases hk : k' = ⟨k, hmem⟩
    · subst hk
      rw [Function.update_self, FiniteMap.vals_eq_of_get hg hmem]
      exact hp
    · rw [Function.update_of_ne hk]
      exact .refl _
  refine ⟨⟨m.keys, Function.update m.vals ⟨k, hmem⟩ g'⟩, .object hvals, ?_⟩
  rw [FiniteMap.get_val ⟨m.keys, Function.update m.vals ⟨k, hmem⟩ g'⟩ ⟨k, hmem⟩]
  exact congrArg some (Function.update_self ..)

section Layout

variable {n : Nat} {items gotItems : Fin n → JSON}

/-- Elements that match can be laid out so that the comparison finds it; the others stay as
    they are. -/
theorem exists_layout {served taken : List (Fin n)} (hnodup : taken.Nodup)
    (h : List.Forall₂ (fun a j => Matches (items a) (gotItems j)) served taken)
    {base : Fin n → JSON} (hbase : ∀ j, Permuted (gotItems j) (base j)) :
    ∃ layout : Fin n → JSON, (∀ j, Permuted (gotItems j) (layout j)) ∧
      (∀ j, j ∉ taken → layout j = base j) ∧
      List.Forall₂ (fun a j => managedValueEqual (items a) (layout j) = true) served taken := by
  induction h generalizing base with
  | nil => exact ⟨base, hbase, fun _ _ => rfl, .nil⟩
  | @cons a j served taken hmatch _ ih =>
    obtain ⟨hj, hnodup⟩ := List.nodup_cons.mp hnodup
    obtain ⟨g', hperm, hequal⟩ := hmatch.exists_permuted
    have hupdated : ∀ j', Permuted (gotItems j') (Function.update base j g' j') := by
      intro j'
      by_cases hj' : j' = j
      · subst hj'
        rwa [Function.update_self]
      · rw [Function.update_of_ne hj']
        exact hbase j'
    obtain ⟨layout, hlayout, hothers, hserved⟩ := ih hnodup hupdated
    refine ⟨layout, hlayout, fun j' hj' => ?_, .cons ?_ hserved⟩
    · obtain ⟨hne, hj'⟩ := not_or.mp (mt List.mem_cons.mpr hj')
      rw [hothers j' hj', Function.update_of_ne hne]
    · rwa [hothers j hj, Function.update_self]

theorem claimAll_of_managedValueEqual {candidates : List JSON}
    (h : managedValueEqual (.arr n items) (.ofList candidates) = true) :
    claimAll ((List.finRange n).map fun i => managedValueEqual (items i)) (unused candidates) =
      true := by
  obtain ⟨-, hclaim⟩ := (managedValueEqual_arr items _).mp h
  rw [List.ofFn_eq_map] at hclaim
  convert hclaim
  exact List.ofFn_getElem.symm

/-- An order in which first fit goes wrong: what the first `i` elements take comes first, and
    what is left is laid out so that it does not match the next one. -/
theorem exists_stuck {i : Fin n} {taken : List (Fin n)} (htaken : Taken items gotItems i taken)
    (hleft : ∀ j, j ∉ taken →
      ∃ g', Permuted (gotItems j) g' ∧ managedValueEqual (items i) g' = false) :
    ∃ got', Permuted (.arr n gotItems) got' ∧ managedValueEqual (.arr n items) got' = false := by
  have hbase : ∀ j, ∃ g', Permuted (gotItems j) g' ∧
      (j ∉ taken → managedValueEqual (items i) g' = false) := by
    intro j
    by_cases hj : j ∈ taken
    · exact ⟨_, .refl _, fun h => absurd hj h⟩
    · obtain ⟨g', hperm, hdiffers⟩ := hleft j hj
      exact ⟨g', hperm, fun _ => hdiffers⟩
  choose base hperm hdiffers using hbase
  obtain ⟨hnodup, hmatched⟩ := htaken
  obtain ⟨layout, hlayout, hothers, hserved⟩ := exists_layout hnodup hmatched hperm
  -- all the positions, those that are taken first
  let others := (List.finRange n).filter (· ∉ taken)
  have hall : ∀ j, j ∈ taken ++ others := by
    intro j
    by_cases hj : j ∈ taken
    · exact List.mem_append_left _ hj
    · exact List.mem_append_right _ (List.mem_filter.mpr ⟨List.mem_finRange j, by simpa using hj⟩)
  have hdistinct : (taken ++ others).Nodup := by
    refine List.nodup_append.mpr ⟨hnodup, (List.nodup_finRange n).filter _, ?_⟩
    rintro a ha b hb rfl
    have hb := (List.mem_filter.mp hb).2
    simp [ha] at hb
  refine ⟨.ofList ((taken ++ others).map layout), .ofPositions hlayout hdistinct hall, ?_⟩
  rw [Bool.eq_false_iff]
  intro hsucceeds
  have hclaim := claimAll_of_managedValueEqual hsucceeds
  have hsplit : List.finRange n =
      (List.finRange n).take i ++ i :: (List.finRange n).drop (i + 1) := by
    have hdrop := List.drop_eq_getElem_cons (l := List.finRange n) (i := i) (by simp)
    rw [List.getElem_finRange] at hdrop
    conv_lhs => rw [← List.take_append_drop i.val (List.finRange n), hdrop]
    simp
  have hfirst : List.Forall₂ (fun accepts candidate => accepts candidate = true)
      (((List.finRange n).take i).map fun a => managedValueEqual (items a)) (taken.map layout) := by
    rw [List.forall₂_map_left_iff, List.forall₂_map_right_iff]
    exact hserved
  have hnone : ∀ g ∈ others.map layout, managedValueEqual (items i) g = false := by
    intro g hg
    obtain ⟨j, hj, rfl⟩ := List.mem_map.mp hg
    have hfree : j ∉ taken := by simpa using (List.mem_filter.mp hj).2
    rw [hothers j hfree]
    exact hdiffers j hfree
  rw [hsplit, List.map_append, List.map_cons, List.map_append, claimAll_stuck hfirst hnone] at hclaim
  cases hclaim

end Layout

/-- If every order succeeds, first fit cannot go wrong. -/
theorem surelyMatches_of_forall {want got : JSON}
    (h : ∀ got', Permuted got got' → managedValueEqual want got' = true) :
    SurelyMatches want got := by
  induction want generalizing got with
  | arr n items ih =>
    have hself := h got (.refl got)
    cases got with
    | arr m gotItems =>
      obtain ⟨rfl, -⟩ := (managedValueEqual_arr items gotItems).mp hself
      have hnext : ∀ i taken, ∃ j, Taken items gotItems i taken →
          j ∉ taken ∧ SurelyMatches (items i) (gotItems j) := by
        intro i taken
        by_cases htaken : Taken items gotItems i taken
        · by_contra hnone
          push Not at hnone
          -- then an order exists in which the comparison fails
          have hleft : ∀ j, j ∉ taken →
              ∃ g', Permuted (gotItems j) g' ∧ managedValueEqual (items i) g' = false := by
            intro j hj
            by_contra hsure
            push Not at hsure
            refine (hnone j).2 hj (ih i fun g' hperm => ?_)
            simpa using hsure g' hperm
          obtain ⟨got', hperm, hdiffers⟩ := exists_stuck htaken hleft
          cases hdiffers.symm.trans (h got' hperm)
        · exact ⟨i, fun h => absurd h htaken⟩
      choose next hnext using hnext
      exact .list next (fun i taken htaken => (hnext i taken htaken).1)
        fun i taken htaken => (hnext i taken htaken).2
    | _ => simp [managedValueEqual] at hself
  | obj keys vals ih =>
    have hself := h got (.refl got)
    obtain ⟨got, rfl⟩ := @asObject_of_managedValueEqual ⟨keys, vals⟩ got hself
    obtain ⟨hnull, hpresent, -⟩ := (@Entrywise.equal_iff ⟨keys, vals⟩ got).mp hself
    refine @SurelyMatches.object ⟨keys, vals⟩ got hnull hpresent fun k v g hk hv hg hgnull => ?_
    have hmem := FiniteMap.mem_keys_of_get hk
    have hvals : vals ⟨k, hmem⟩ = v := FiniteMap.vals_eq_of_get hk hmem
    rw [← hvals]
    apply ih ⟨k, hmem⟩
    intro g' hperm
    obtain ⟨got', hperm', hg'⟩ := Permuted.entry hg hperm
    have hbelow := (@Entrywise.equal_iff ⟨keys, vals⟩ got').mp (h _ hperm')
    rw [hvals]
    exact hbelow.related k v g' hk hv hg' fun hnull => hgnull (hperm.eq_null_iff.mpr hnull)
  | _ => exact .scalar rfl ((managedValueEqual_scalar rfl got).mp (h got (.refl got)))

/-! ### When the order does not matter -/

/-- The order of the lists of a remote value does not matter exactly when, if it matches at
    all, first fit cannot go wrong; and exactly then the comparison finds a pairing in every
    order in which there is one. -/
theorem order_insensitive_iff (want got : JSON) :
    ((∀ got', Permuted got got' → managedValueEqual want got' = managedValueEqual want got) ↔
        (Matches want got → SurelyMatches want got)) ∧
      ((∀ got', Permuted got got' → Matches want got' → managedValueEqual want got' = true) ↔
        (Matches want got → SurelyMatches want got)) := by
  constructor
  · constructor
    · intro hsame hmatches
      obtain ⟨got', hperm, hequal⟩ := hmatches.exists_permuted
      apply surelyMatches_of_forall
      intro got'' hperm'
      rw [hsame got'' hperm', ← hsame got' hperm, hequal]
    · intro hsure got' hperm
      rw [Bool.eq_iff_iff]
      constructor
      · intro hequal
        have hmatches := (matches_of_managedValueEqual hequal).permuted hperm.symm
        exact (hsure hmatches).equal_permuted (.refl got)
      · intro hequal
        exact (hsure (matches_of_managedValueEqual hequal)).equal_permuted hperm
  · constructor
    · intro hfinds hmatches
      apply surelyMatches_of_forall
      intro got' hperm
      exact hfinds got' hperm (hmatches.permuted hperm)
    · intro hsure got' hperm hmatches
      exact (hsure (hmatches.permuted hperm.symm)).equal_permuted hperm

/-- Two mappers of one name, one of them with its protocol. -/
def plainMapper : JSON := .ofObject (.ofList [("name", .str "email")])

def protocolMapper : JSON :=
  .ofObject (.ofList [("name", .str "email"), ("protocol", .str "openid-connect")])

/-- The first desired mapper takes the remote one with the protocol, which the second desired
    mapper needs. -/
theorem swapped_mappers_differ :
    ∃ want got got', Permuted got got' ∧ Matches want got ∧
      managedValueEqual want got = false ∧ managedValueEqual want got' = true := by
  have hperm : Permuted (.arr 2 ![protocolMapper, plainMapper]) (.arr 2 ![plainMapper, protocolMapper]) := by
    refine .list (Equiv.swap 0 1) (Fin.forall_fin_two.mpr ⟨?_, ?_⟩)
    · exact .refl protocolMapper
    · exact .refl plainMapper
  refine ⟨.arr 2 ![plainMapper, protocolMapper], .arr 2 ![protocolMapper, plainMapper],
    .arr 2 ![plainMapper, protocolMapper], hperm, ?_, by decide, by decide⟩
  have hmatches : Matches (.arr 2 ![plainMapper, protocolMapper])
      (.arr 2 ![plainMapper, protocolMapper]) := matches_of_managedValueEqual (by decide)
  exact hmatches.permuted hperm.symm

end KeycloakOperator
