import Mathlib.Data.Finset.Card
import Mathlib.Data.Fintype.Basic

/-!
# Finite maps

A map with finitely many keys, given by its key set and a value for each key.
There is no order on the entries and no key twice: two maps are equal exactly
when every lookup agrees (`FiniteMap.ext_get`).  A loop that ranges over such a
map visits its keys in some order; `FiniteMap.get_foldl_ownKey` computes the
result of a loop whose body touches only the key it is visiting, whatever that
order is.
-/

namespace KeycloakOperator

/-- A finite map from `K` to `V`. -/
structure FiniteMap (K : Type u) (V : Type v) where
  keys : Finset K
  vals : {k // k ∈ keys} → V

namespace FiniteMap

variable {K : Type u} {V : Type v} [DecidableEq K]

/-! ### Lookup -/

def get (m : FiniteMap K V) (k : K) : Option V :=
  if h : k ∈ m.keys then some (m.vals ⟨k, h⟩) else none

@[simp] theorem get_val (m : FiniteMap K V) (k : {k // k ∈ m.keys}) :
    m.get k = some (m.vals k) := by
  simp only [get, k.2, dif_pos]

theorem get_eq_none_iff {m : FiniteMap K V} {k : K} : m.get k = none ↔ k ∉ m.keys := by
  unfold get
  by_cases h : k ∈ m.keys
  · simp only [h, dif_pos, reduceCtorEq, not_true_eq_false]
  · simp only [h, dif_neg, not_false_eq_true]

theorem mem_keys_iff {m : FiniteMap K V} {k : K} : k ∈ m.keys ↔ ∃ v, m.get k = some v := by
  constructor
  · intro h
    exact ⟨m.vals ⟨k, h⟩, m.get_val ⟨k, h⟩⟩
  · rintro ⟨v, hv⟩
    by_contra hk
    rw [get_eq_none_iff.mpr hk] at hv
    cases hv

theorem mem_keys_of_get {m : FiniteMap K V} {k : K} {v : V} (h : m.get k = some v) :
    k ∈ m.keys :=
  mem_keys_iff.mpr ⟨v, h⟩

theorem vals_eq_of_get {m : FiniteMap K V} {k : K} {v : V} (h : m.get k = some v)
    (hk : k ∈ m.keys) : m.vals ⟨k, hk⟩ = v := by
  have hval := m.get_val ⟨k, hk⟩
  rw [h] at hval
  exact (Option.some.inj hval).symm

/-- A property of all entries, stated over the entries or over the lookups. -/
theorem forall_vals_iff {m : FiniteMap K V} {p : K → V → Prop} :
    (∀ k : {k // k ∈ m.keys}, p k (m.vals k)) ↔ ∀ k v, m.get k = some v → p k v := by
  constructor
  · intro h k v hv
    have hk := mem_keys_of_get hv
    have hp := h ⟨k, hk⟩
    rwa [vals_eq_of_get hv hk] at hp
  · intro h k
    exact h k (m.vals k) (m.get_val k)

/-- Maps with the same lookups are the same map. -/
theorem ext_get {m n : FiniteMap K V} (h : ∀ k, m.get k = n.get k) : m = n := by
  obtain ⟨keys, vals⟩ := m
  obtain ⟨keys', vals'⟩ := n
  have hkeys : keys = keys' := by
    ext k
    have hk := h k
    constructor
    · intro hmem
      by_contra hnot
      simp only [get, hmem, hnot, dif_pos, dif_neg, not_false_eq_true, reduceCtorEq] at hk
    · intro hmem
      by_contra hnot
      simp only [get, hmem, hnot, dif_pos, dif_neg, not_false_eq_true, reduceCtorEq] at hk
  subst hkeys
  have hvals : vals = vals' := by
    funext k
    have hk := h k
    simp only [get, k.2, dif_pos, Option.some.injEq] at hk
    exact hk
  rw [hvals]

instance [DecidableEq V] : DecidableEq (FiniteMap K V) := fun m n =>
  decidable_of_iff (m.keys = n.keys ∧ ∀ k ∈ m.keys, m.get k = n.get k) <| by
    constructor
    · rintro ⟨hkeys, hget⟩
      refine ext_get fun k => ?_
      by_cases hk : k ∈ m.keys
      · exact hget k hk
      · rw [get_eq_none_iff.mpr hk, get_eq_none_iff.mpr (hkeys ▸ hk)]
    · rintro rfl
      exact ⟨rfl, fun _ _ => rfl⟩

/-! ### Construction -/

/-- The map with the lookups `f` on `keys`. -/
def ofFun (keys : Finset K) (f : K → Option V) : FiniteMap K V where
  keys := keys.filter fun k => (f k).isSome
  vals k := (f k).get (Finset.mem_filter.mp k.2).2

theorem get_ofFun (keys : Finset K) (f : K → Option V) (k : K) :
    (ofFun keys f).get k = if k ∈ keys then f k else none := by
  unfold get ofFun
  by_cases hk : k ∈ keys
  · cases hf : f k with
    | none => simp [hk, hf]
    | some v => simp [hk, hf]
  · simp [hk]

/-- Outside of `keys` there is nothing to restrict when `f` is `none` there. -/
theorem get_ofFun_of_support {keys : Finset K} {f : K → Option V}
    (h : ∀ k, k ∉ keys → f k = none) (k : K) : (ofFun keys f).get k = f k := by
  rw [get_ofFun]
  by_cases hk : k ∈ keys
  · rw [if_pos hk]
  · rw [if_neg hk, h k hk]

def empty : FiniteMap K V := ⟨∅, fun k => absurd k.2 (Finset.notMem_empty _)⟩

instance : EmptyCollection (FiniteMap K V) := ⟨empty⟩

instance : Inhabited (FiniteMap K V) := ⟨∅⟩

@[simp] theorem get_empty (k : K) : (∅ : FiniteMap K V).get k = none :=
  get_eq_none_iff.mpr (Finset.notMem_empty k)

def put (m : FiniteMap K V) (k : K) (v : V) : FiniteMap K V :=
  ofFun (insert k m.keys) fun k' => if k' = k then some v else m.get k'

theorem get_put (m : FiniteMap K V) (k k' : K) (v : V) :
    (m.put k v).get k' = if k' = k then some v else m.get k' := by
  refine get_ofFun_of_support (fun x hx => ?_) k'
  rw [Finset.mem_insert, not_or] at hx
  rw [if_neg hx.1, get_eq_none_iff.mpr hx.2]

@[simp] theorem get_put_self (m : FiniteMap K V) (k : K) (v : V) :
    (m.put k v).get k = some v := by
  rw [get_put, if_pos rfl]

theorem get_put_of_ne (m : FiniteMap K V) {k k' : K} (v : V) (h : k' ≠ k) :
    (m.put k v).get k' = m.get k' := by
  rw [get_put, if_neg h]

def erase (m : FiniteMap K V) (k : K) : FiniteMap K V :=
  ofFun m.keys fun k' => if k' = k then none else m.get k'

theorem get_erase (m : FiniteMap K V) (k k' : K) :
    (m.erase k).get k' = if k' = k then none else m.get k' := by
  refine get_ofFun_of_support (fun x hx => ?_) k'
  by_cases h : x = k
  · rw [if_pos h]
  · rw [if_neg h, get_eq_none_iff.mpr hx]

@[simp] theorem get_erase_self (m : FiniteMap K V) (k : K) : (m.erase k).get k = none := by
  rw [get_erase, if_pos rfl]

theorem get_erase_of_ne (m : FiniteMap K V) {k k' : K} (h : k' ≠ k) :
    (m.erase k).get k' = m.get k' := by
  rw [get_erase, if_neg h]

/-- A map written as a list of entries; a later entry replaces an earlier one
    with the same key. -/
def ofList (entries : List (K × V)) : FiniteMap K V :=
  entries.foldl (fun m entry => m.put entry.1 entry.2) ∅

/-! ### Ranging over a map

`order` lists the keys of the map that is ranged over, each once.  The language
leaves that order open. -/

/-- `order` is a possible iteration order of `m`. -/
def Enumerates (order : List K) (m : FiniteMap K V) : Prop :=
  order.Nodup ∧ ∀ k, k ∈ order ↔ k ∈ m.keys

/-- A loop whose body at key `k` changes the accumulator at `k` only has the
    same result for every iteration order. -/
theorem get_foldl_ownKey {W : Type w} {body : FiniteMap K W → K → FiniteMap K W}
    {f : K → Option W → Option W}
    (hbody : ∀ acc k k', (body acc k).get k' = if k' = k then f k (acc.get k) else acc.get k')
    {order : List K} (hnodup : order.Nodup) (acc : FiniteMap K W) (k : K) :
    (order.foldl body acc).get k = if k ∈ order then f k (acc.get k) else acc.get k := by
  induction order generalizing acc with
  | nil => simp only [List.foldl_nil, List.not_mem_nil, if_false]
  | cons a order ih =>
    obtain ⟨ha, hnodup⟩ := List.nodup_cons.mp hnodup
    rw [List.foldl_cons, ih hnodup, hbody]
    by_cases hk : k = a
    · subst hk
      simp only [ha, if_false, if_true, List.mem_cons, true_or]
    · simp only [hk, if_false, List.mem_cons, false_or]

/-- A loop that files each element under its key, if it has one: the last element wins. -/
theorem get_foldl_put (key : α → Option K) (val : α → V) {body : FiniteMap K V → α → FiniteMap K V}
    (hbody : ∀ m a, body m a = match key a with
      | some k => m.put k (val a)
      | none => m)
    (l : List α) (k : K) :
    (l.foldl body ∅).get k = (l.reverse.find? fun a => decide (key a = some k)).map val := by
  induction l using List.reverseRecOn with
  | nil => simp
  | append_singleton l a ih =>
    rw [List.foldl_append, List.foldl_cons, List.foldl_nil, hbody, List.reverse_append,
      List.reverse_singleton, List.singleton_append, List.find?_cons]
    rcases hkey : key a with _ | k'
    · simpa using ih
    · by_cases heq : k' = k
      · subst heq
        simp
      · simp [heq, get_put_of_ne _ _ (Ne.symm heq), ih]

/-- A list in which only one element qualifies. -/
theorem find?_eq_some_of_unique {l : List α} {P : α → Prop} [DecidablePred P] {a : α} (hmem : a ∈ l)
    (ha : P a) (hunique : ∀ b, P b → b = a) : l.find? (fun b => decide (P b)) = some a := by
  rcases hfound : l.find? (fun b => decide (P b)) with _ | b
  · have hnot := List.find?_eq_none.mp hfound a hmem
    simp [ha] at hnot
  · rw [hunique b (by simpa using List.find?_some hfound)]

end FiniteMap

end KeycloakOperator
