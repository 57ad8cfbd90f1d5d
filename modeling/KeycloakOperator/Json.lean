import KeycloakOperator.FiniteMap
import Mathlib.Data.List.OfFn
import Mathlib.Data.Fin.VecNotation

/-!
# JSON values

The values that `encoding/json` decodes into `any`: `nil`, `bool`, `float64`,
`string`, `[]any` and `map[string]any`.  A map is given by its key set and one
value for each key, so that neither a duplicate key nor a key order can be
expressed.  Two values are equal here exactly when `json.Marshal` writes the same
text for both: it sorts the keys of a map, and it writes a `float64` with the
shortest text that reads back as the same bits.
-/

namespace KeycloakOperator

/-- A finite IEEE 754 double, the numbers a JSON text can denote. -/
structure Number where
  bits : BitVec 64
  finite : bits.extractLsb' 52 11 ≠ BitVec.allOnes 11
deriving DecidableEq

/-- A decoded JSON value. -/
inductive JSON where
  | null
  | bool (b : Bool)
  | num (n : Number)
  | str (s : String)
  | arr (n : Nat) (items : Fin n → JSON)
  | obj (keys : Finset String) (vals : {k // k ∈ keys} → JSON)

/-- `map[string]any`.  A nil map is the empty one: every operation of the
    operator on a map that may be nil only reads it. -/
abbrev Object := FiniteMap String JSON

namespace JSON

/-! ### Maps and lists as values -/

def ofObject (m : Object) : JSON := .obj m.keys m.vals

def ofList (items : List JSON) : JSON := .arr items.length fun i => items[i]

/-- The type assertion `v.(map[string]any)`. -/
def asObject : JSON → Option Object
  | .obj keys vals => some ⟨keys, vals⟩
  | _ => none

/-- The type assertion `v.([]any)`. -/
def asList : JSON → Option (List JSON)
  | .arr _ items => some (List.ofFn items)
  | _ => none

/-- The type assertion `v.(string)`. -/
def asString : JSON → Option String
  | .str s => some s
  | _ => none

@[simp] theorem asObject_ofObject (m : Object) : (ofObject m).asObject = some m := rfl

@[simp] theorem asList_ofList (items : List JSON) : (ofList items).asList = some items := by
  simp only [ofList, asList, Fin.getElem_fin, List.ofFn_getElem]

@[simp] theorem asString_str (s : String) : (JSON.str s).asString = some s := rfl

theorem asObject_eq_some {v : JSON} {m : Object} : v.asObject = some m ↔ v = ofObject m := by
  constructor
  · intro h
    cases v <;> simp only [asObject, reduceCtorEq, Option.some.injEq] at h
    subst h
    rfl
  · rintro rfl
    rfl

theorem asString_eq_some {v : JSON} {s : String} : v.asString = some s ↔ v = .str s := by
  cases v <;> simp [asString]

theorem ofList_ofFn {n : Nat} (items : Fin n → JSON) : ofList (List.ofFn items) = .arr n items := by
  have h : ∀ (m : Nat) (hm : m = n),
      JSON.arr m (fun i => items (i.cast hm)) = .arr n items := by
    rintro m rfl
    rfl
  have hitems : (fun i => (List.ofFn items)[i]) =
      fun i : Fin (List.ofFn items).length => items (i.cast List.length_ofFn) := by
    funext i
    rw [Fin.getElem_fin, List.getElem_ofFn]
    rfl
  unfold ofList
  rw [hitems]
  exact h _ List.length_ofFn

theorem ofObject_injective {m n : Object} (h : ofObject m = ofObject n) : m = n := by
  have hobject := congrArg asObject h
  simpa using hobject

theorem ofList_injective {xs ys : List JSON} (h : ofList xs = ofList ys) : xs = ys := by
  have hlist := congrArg asList h
  simpa using hlist

/-! ### Equality is decidable -/

/-- Structural comparison; on maps, the same keys with equal values. -/
def beq : JSON → JSON → Bool
  | .null, .null => true
  | .bool a, .bool b => decide (a = b)
  | .num a, .num b => decide (a = b)
  | .str a, .str b => decide (a = b)
  | .arr n items, .arr m items' =>
      if h : n = m then decide (∀ i : Fin n, beq (items i) (items' (i.cast h)) = true) else false
  | .obj keys vals, .obj keys' vals' =>
      if h : keys = keys' then
        decide (∀ k : {k // k ∈ keys}, beq (vals k) (vals' ⟨k, h ▸ k.2⟩) = true)
      else false
  | _, _ => false

theorem beq_iff (a b : JSON) : beq a b = true ↔ a = b := by
  induction a generalizing b with
  | null => cases b <;> simp [beq]
  | bool x => cases b <;> simp [beq]
  | num x => cases b <;> simp [beq]
  | str x => cases b <;> simp [beq]
  | arr n items ih =>
    cases b with
    | arr m items' =>
      by_cases h : n = m
      · subst h
        simp only [beq, dif_pos, Fin.cast_eq_self, ih, decide_eq_true_eq, arr.injEq, heq_eq_eq,
          true_and, funext_iff]
      · simp only [beq, h, dif_neg, not_false_eq_true, Bool.false_eq_true, arr.injEq, false_and]
    | _ => simp [beq]
  | obj keys vals ih =>
    cases b with
    | obj keys' vals' =>
      by_cases h : keys = keys'
      · subst h
        simp only [beq, dif_pos, ih, decide_eq_true_eq, obj.injEq, heq_eq_eq, true_and,
          funext_iff]
      · simp only [beq, h, dif_neg, not_false_eq_true, Bool.false_eq_true, obj.injEq, false_and]
    | _ => simp [beq]

instance : DecidableEq JSON := fun a b => decidable_of_iff _ (beq_iff a b)

end JSON

/-! ### Paths of map keys -/

/-- The value at the end of a path of map keys. -/
def JSON.at? : JSON → List String → Option JSON
  | v, [] => some v
  | .obj keys vals, k :: path =>
      match FiniteMap.get ⟨keys, vals⟩ k with
      | some v => v.at? path
      | none => none
  | _, _ :: _ => none

/-- The value at a path of map keys below a map. -/
def objectAt? (m : Object) (path : List String) : Option JSON := (JSON.ofObject m).at? path

@[simp] theorem JSON.at?_nil (v : JSON) : v.at? [] = some v := by
  cases v <;> rfl

theorem objectAt?_cons (m : Object) (k : String) (path : List String) :
    objectAt? m (k :: path) = (m.get k).bind fun v => v.at? path := by
  unfold objectAt? JSON.ofObject
  rw [JSON.at?]
  change (match m.get k with | some v => v.at? path | none => none) = _
  cases m.get k with
  | none => rfl
  | some v => rfl

/-- Only a map has something below it. -/
theorem JSON.at?_cons_eq_some {v w : JSON} {k : String} {path : List String}
    (h : v.at? (k :: path) = some w) :
    ∃ m, v = ofObject m ∧ objectAt? m (k :: path) = some w := by
  cases v with
  | obj keys vals => exact ⟨⟨keys, vals⟩, rfl, h⟩
  | _ => cases h

end KeycloakOperator
