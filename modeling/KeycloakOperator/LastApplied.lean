import KeycloakOperator.GreedyMatching
import KeycloakOperator.Json

/-!
# The payload algebra (`internal/controller/lastapplied.go`)

What the operator sends and how it decides whether to send anything: the payload
of a pass (`effectivePayload`), the body of an update (`mergePayload`) and the
comparison of the server's representation with the payload (`payloadDiffers`).

Values are immutable here, so the deep and shallow copies of the source
(`deepCopyMap`, `cloneMap`) are the values themselves.  The loops over maps visit
the keys in an unspecified order; they are written by what they leave under each
key, and `resetRemoved_eq_range`, `mergePayload_eq_range` and
`payloadDiffers_eq_range` give back the loop in every order.
-/

namespace KeycloakOperator

/-! ### The last-applied annotation -/

/-- The text of the last-applied annotation, by what `encoding/json` makes of it. -/
inductive AnnotationText where
  /-- no annotation, or an empty one -/
  | empty
  /-- the text that `json.Marshal` writes for `m` -/
  | marshalled (m : Object)
  /-- another text that decodes into `m` (into a nil map for `null`) -/
  | decodes (text : String) (m : Object)
  /-- a text that does not decode into a map, with the decoder's complaint -/
  | malformed (text complaint : String)
deriving DecidableEq

/-- `json.Unmarshal` into a `map[string]any`. -/
def AnnotationText.unmarshal : AnnotationText → Except String Object
  | .empty => .error "unexpected end of JSON input"
  | .marshalled m => .ok m
  | .decodes _ m => .ok m
  | .malformed _ complaint => .error complaint

/-! ### Effective payload -/

/-- The reset value for a previously applied value.  Numbers are not
    resettable. -/
def zeroFor : JSON → Option JSON
  | .str _ => some (.str "")
  | .bool _ => some (.bool false)
  | .arr _ _ => some (.ofList [])
  | .obj _ _ => some (.ofObject ∅)
  | _ => none

/-- The loop of `EffectivePayload` over the last-applied payload. -/
def resetRemoved (payload last : Object) : Object :=
  .ofFun (payload.keys ∪ last.keys) fun k =>
    match payload.get k with
    | some v => some v
    | none => (last.get k).bind zeroFor

def effectivePayload (specMap : Object) (lastAppliedJSON : AnnotationText) :
    Except String Object :=
  if lastAppliedJSON = .empty then
    .ok specMap
  else
    match lastAppliedJSON.unmarshal with
    | .error complaint => .error ("decode last-applied annotation: " ++ complaint)
    | .ok last => .ok (resetRemoved specMap last)

theorem get_resetRemoved (payload last : Object) (k : String) :
    (resetRemoved payload last).get k =
      match payload.get k with
      | some v => some v
      | none => (last.get k).bind zeroFor := by
  refine FiniteMap.get_ofFun_of_support (fun x hx => ?_) k
  rw [Finset.mem_union, not_or] at hx
  rw [FiniteMap.get_eq_none_iff.mpr hx.1, FiniteMap.get_eq_none_iff.mpr hx.2]
  rfl

theorem resetRemoved_eq_range (payload last : Object) {order : List String}
    (horder : FiniteMap.Enumerates order last) :
    order.foldl (fun acc k =>
      match acc.get k, last.get k with
      | none, some previous =>
          match zeroFor previous with
          | some zero => acc.put k zero
          | none => acc
      | _, _ => acc) payload = resetRemoved payload last := by
  refine FiniteMap.ext_get fun k => ?_
  rw [get_resetRemoved, FiniteMap.get_foldl_ownKey
    (f := fun k old => match old with | some v => some v | none => (last.get k).bind zeroFor)
    ?_ horder.1]
  · by_cases hk : k ∈ order
    · rw [if_pos hk]
    · have hlast : last.get k = none :=
        FiniteMap.get_eq_none_iff.mpr fun h => hk ((horder.2 k).mpr h)
      rw [if_neg hk, hlast]
      cases payload.get k <;> rfl
  · intro acc k k'
    by_cases hk : k' = k
    · subst hk
      rw [if_pos rfl]
      cases hacc : acc.get k' with
      | some v => simpa using hacc
      | none =>
        cases hlast : last.get k' with
        | none => simpa using hacc
        | some previous =>
          cases hzero : zeroFor previous with
          | none => simpa [hzero] using hacc
          | some zero => simp [hzero]
    · rw [if_neg hk]
      split
      · split
        · exact FiniteMap.get_put_of_ne _ _ hk
        · rfl
      · rfl

/-! ### Merging -/

/-- Overlay the payload onto the remote representation.  A nil payload value
    removes the key; any other value wins. -/
def mergePayload (remote payload : Object) : Object :=
  .ofFun (remote.keys ∪ payload.keys) fun k =>
    match payload.get k with
    | some .null => none
    | some v => some v
    | none => remote.get k

theorem get_mergePayload (remote payload : Object) (k : String) :
    (mergePayload remote payload).get k =
      match payload.get k with
      | some .null => none
      | some v => some v
      | none => remote.get k := by
  refine FiniteMap.get_ofFun_of_support (fun x hx => ?_) k
  rw [Finset.mem_union, not_or] at hx
  rw [FiniteMap.get_eq_none_iff.mpr hx.1, FiniteMap.get_eq_none_iff.mpr hx.2]

theorem get_mergePayload_of_none {remote payload : Object} {k : String}
    (h : payload.get k = none) : (mergePayload remote payload).get k = remote.get k := by
  rw [get_mergePayload, h]

theorem get_mergePayload_of_some {remote payload : Object} {k : String} {v : JSON}
    (h : payload.get k = some v) (hv : v ≠ .null) :
    (mergePayload remote payload).get k = some v := by
  rw [get_mergePayload, h]
  cases v <;> first | rfl | exact absurd rfl hv

theorem mergePayload_eq_range (remote payload : Object) {order : List String}
    (horder : FiniteMap.Enumerates order payload) :
    order.foldl (fun acc k =>
      match payload.get k with
      | some .null => acc.erase k
      | some v => acc.put k v
      | none => acc) remote = mergePayload remote payload := by
  refine FiniteMap.ext_get fun k => ?_
  rw [get_mergePayload, FiniteMap.get_foldl_ownKey
    (f := fun k old => match payload.get k with | some .null => none | some v => some v | none => old)
    ?_ horder.1]
  · by_cases hk : k ∈ order
    · rw [if_pos hk]
    · have hpayload : payload.get k = none :=
        FiniteMap.get_eq_none_iff.mpr fun h => hk ((horder.2 k).mpr h)
      rw [if_neg hk, hpayload]
  · intro acc k k'
    by_cases hk : k' = k
    · subst hk
      rw [if_pos rfl]
      split <;> simp_all
    · rw [if_neg hk]
      split
      · exact FiniteMap.get_erase_of_ne _ hk
      · exact FiniteMap.get_put_of_ne _ _ hk
      · rfl

/-! ### Comparison -/

/-- What the Keycloak Admin API returns for sensitive configuration values it
    does not disclose. -/
def keycloakMaskedValue : String := "**********"

/-- One of the reset values produced by `effectivePayload` for removed fields. -/
def isZeroValue : JSON → Bool
  | .str s => decide (s = "")
  | .bool b => !b
  | .arr n _ => decide (n = 0)
  | .obj keys _ => decide (keys.card = 0)
  | _ => false

/-- Both sides go through a JSON round trip; equality of values is equality of
    the texts. -/
def jsonEqual (a b : JSON) : Bool := decide (a = b)

/-- The entry the source tests with `exists && got != nil`. -/
def presentValue : Option JSON → Option JSON
  | some .null => none
  | got => got

/-- The body of the loop of `PayloadDiffers` for one entry: `equal` compares the
    desired value `want` with a remote value, `got` is the remote entry. -/
def entryDiffers (equal : JSON → Bool) (want : JSON) (got : Option JSON) : Bool :=
  if want = .null then
    (presentValue got).isSome
  else if isZeroValue want then
    match presentValue got with
    | some got => !equal got
    | none => false
  else
    match presentValue got with
    | none => true
    | some got => !equal got

/-- Compare a desired value with the remote value: maps on the desired keys only,
    lists up to order, the mask equal to every scalar. -/
def managedValueEqual : JSON → JSON → Bool
  | .obj keys vals, got =>
      match got with
      | .obj gotKeys gotVals =>
          decide (∀ k : {k // k ∈ keys},
            entryDiffers (managedValueEqual (vals k)) (vals k)
              (FiniteMap.get ⟨gotKeys, gotVals⟩ k) = false)
      | _ => false
  | .arr n items, got =>
      match got with
      | .arr m gotItems =>
          decide (n = m) &&
            claimAll (List.ofFn fun i => managedValueEqual (items i)) (unused (List.ofFn gotItems))
      | _ => false
  | want, got => decide (got = .str keycloakMaskedValue) || jsonEqual want got

/-- Whether the remote representation differs from the payload on any key the
    payload manages. -/
def payloadDiffers (remote payload : Object) : Bool :=
  decide (∃ k : {k // k ∈ payload.keys},
    entryDiffers (managedValueEqual (payload.vals k)) (payload.vals k) (remote.get k) = true)

/-- The remote entry `got` agrees with the desired value `want`. -/
def EntryAgrees (want : JSON) (got : Option JSON) : Prop :=
  entryDiffers (managedValueEqual want) want got = false

theorem payloadDiffers_eq_false_iff {remote payload : Object} :
    payloadDiffers remote payload = false ↔
      ∀ k want, payload.get k = some want → EntryAgrees want (remote.get k) := by
  rw [← FiniteMap.forall_vals_iff (p := fun k want => EntryAgrees want (remote.get k))]
  simp only [payloadDiffers, EntryAgrees, decide_eq_false_iff_not, not_exists, Bool.not_eq_true]

theorem payloadDiffers_eq_true_iff {remote payload : Object} :
    payloadDiffers remote payload = true ↔
      ∃ k want, payload.get k = some want ∧ ¬ EntryAgrees want (remote.get k) := by
  rw [← Bool.not_eq_false, payloadDiffers_eq_false_iff]
  push Not
  rfl

theorem payloadDiffers_eq_range (remote payload : Object) {order : List String}
    (horder : FiniteMap.Enumerates order payload) :
    (order.any fun k =>
      match payload.get k with
      | some want => entryDiffers (managedValueEqual want) want (remote.get k)
      | none => false) = payloadDiffers remote payload := by
  rw [Bool.eq_iff_iff, List.any_eq_true, payloadDiffers_eq_true_iff]
  constructor
  · rintro ⟨k, -, hk⟩
    cases hwant : payload.get k with
    | none => rw [hwant] at hk; cases hk
    | some want =>
      rw [hwant] at hk
      exact ⟨k, want, hwant, by simpa [EntryAgrees] using hk⟩
  · rintro ⟨k, want, hwant, hdiffers⟩
    refine ⟨k, (horder.2 k).mpr (FiniteMap.mem_keys_of_get hwant), ?_⟩
    simpa [hwant, EntryAgrees] using hdiffers

/-! ### The three cases of the comparison -/

/-- On maps the comparison is `payloadDiffers` with the sides exchanged. -/
theorem managedValueEqual_ofObject (want got : Object) :
    managedValueEqual (.ofObject want) (.ofObject got) = !payloadDiffers got want := by
  rw [Bool.eq_iff_iff, Bool.not_eq_true', payloadDiffers_eq_false_iff,
    ← FiniteMap.forall_vals_iff (p := fun k want => EntryAgrees want (got.get k))]
  simp only [JSON.ofObject, managedValueEqual, decide_eq_true_eq, EntryAgrees]

theorem managedValueEqual_arr {n m : Nat} (items : Fin n → JSON) (gotItems : Fin m → JSON) :
    managedValueEqual (.arr n items) (.arr m gotItems) = true ↔
      n = m ∧ claimAll (List.ofFn fun i => managedValueEqual (items i))
        (unused (List.ofFn gotItems)) = true := by
  simp only [managedValueEqual, Bool.and_eq_true, decide_eq_true_eq]

/-- A JSON value other than a list or a map. -/
def JSON.isScalar : JSON → Bool
  | .arr _ _ => false
  | .obj _ _ => false
  | _ => true

theorem managedValueEqual_scalar {want : JSON} (hwant : want.isScalar = true) (got : JSON) :
    managedValueEqual want got = true ↔ got = .str keycloakMaskedValue ∨ got = want := by
  cases want with
  | arr n items => cases hwant
  | obj keys vals => cases hwant
  | _ =>
    simp only [managedValueEqual, jsonEqual, Bool.or_eq_true, decide_eq_true_eq]
    exact or_congr_right eq_comm

/-- A desired map agrees only with a map, a desired list only with a list. -/
theorem asObject_of_managedValueEqual {want : Object} {got : JSON}
    (h : managedValueEqual (.ofObject want) got = true) : ∃ m, got = .ofObject m := by
  cases got with
  | obj keys vals => exact ⟨⟨keys, vals⟩, rfl⟩
  | _ => simp [JSON.ofObject, managedValueEqual] at h

/-! ### Agreement of one entry -/

theorem presentValue_eq_some {got : Option JSON} {v : JSON} :
    presentValue got = some v ↔ got = some v ∧ v ≠ .null := by
  unfold presentValue
  split
  · simp only [reduceCtorEq, Option.some.injEq, false_iff, not_and, not_not]
    exact fun h => h.symm
  · rename_i hne
    constructor
    · intro h
      exact ⟨h, fun hv => hne (by rw [h, hv])⟩
    · exact fun h => h.1

theorem presentValue_eq_none {got : Option JSON} :
    presentValue got = none ↔ got = none ∨ got = some .null := by
  unfold presentValue
  split <;> simp_all

@[simp] theorem entryAgrees_null (got : Option JSON) :
    EntryAgrees .null got ↔ got = none ∨ got = some .null := by
  rw [← presentValue_eq_none]
  simp [EntryAgrees, entryDiffers]

/-- A zero value agrees with an absent entry, any other value does not. -/
theorem entryAgrees_absent {want : JSON} (hwant : want ≠ .null) {got : Option JSON}
    (hgot : presentValue got = none) : EntryAgrees want got ↔ isZeroValue want = true := by
  simp only [EntryAgrees, entryDiffers, if_neg hwant, hgot]
  cases isZeroValue want <;> simp

theorem entryAgrees_present {want : JSON} (hwant : want ≠ .null) {got : Option JSON} {v : JSON}
    (hgot : presentValue got = some v) :
    EntryAgrees want got ↔ managedValueEqual want v = true := by
  simp only [EntryAgrees, entryDiffers, if_neg hwant, hgot]
  cases isZeroValue want <;> simp

theorem isZeroValue_ne_null {v : JSON} (h : isZeroValue v = true) : v ≠ .null := by
  rintro rfl
  cases h

end KeycloakOperator
