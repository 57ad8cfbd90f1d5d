import KeycloakOperator.LastApplied

/-!
# What an update leaves alone

`mergePayload` works on the top-level keys of the representation, while the
comparison works entry by entry at every depth.  A path of map keys that the
payload does not follow to its end is therefore kept at the top level, but lost
inside every map that the payload sets as well: the body of the update carries the
payload's map in place of the remote's.
-/

namespace KeycloakOperator

/-- The path leaves the payload at some map level: the payload has a map there
    without an entry for the next key. -/
def LeavesPayload (payload : Object) (path : List String) : Prop :=
  ∃ (front : List String) (k : String) (rest : List String) (m : Object),
    path = front ++ k :: rest ∧ objectAt? payload front = some (.ofObject m) ∧ m.get k = none

/-- The update body `mergePayload remote payload` holds the remote's value at every
    path that leaves the payload. -/
def PreservesUnmanaged (remote payload : Object) : Prop :=
  ∀ (path : List String) (v : JSON), objectAt? remote path = some v →
    LeavesPayload payload path → objectAt? (mergePayload remote payload) path = some v

/-! ### Paths -/

theorem JSON.at?_append (v : JSON) (front rest : List String) :
    v.at? (front ++ rest) = (v.at? front).bind fun w => w.at? rest := by
  induction front generalizing v with
  | nil => simp
  | cons k front ih =>
    cases v with
    | obj keys vals =>
      have hstep : ∀ path, JSON.at? (.obj keys vals) (k :: path) =
          (FiniteMap.get ⟨keys, vals⟩ k).bind fun w => w.at? path :=
        fun path => objectAt?_cons ⟨keys, vals⟩ k path
      rw [List.cons_append, hstep, hstep]
      cases FiniteMap.get ⟨keys, vals⟩ k with
      | none => rfl
      | some w => exact ih w
    | _ => rfl

theorem objectAt?_append (m : Object) (front rest : List String) :
    objectAt? m (front ++ rest) = (objectAt? m front).bind fun w => w.at? rest :=
  JSON.at?_append _ front rest

/-- A path with another key after `front` goes through a map at `front`. -/
theorem objectAt?_append_cons {m : Object} {front rest : List String} {k : String} {v : JSON}
    (h : objectAt? m (front ++ k :: rest) = some v) :
    ∃ inner : Object, objectAt? m front = some (.ofObject inner) ∧ k ∈ inner.keys := by
  rw [objectAt?_append, Option.bind_eq_some_iff] at h
  obtain ⟨w, hw, hrest⟩ := h
  obtain ⟨inner, rfl, hat⟩ := JSON.at?_cons_eq_some hrest
  rw [objectAt?_cons, Option.bind_eq_some_iff] at hat
  obtain ⟨x, hx, -⟩ := hat
  exact ⟨inner, hw, FiniteMap.mem_keys_of_get hx⟩

/-- Below a key that the payload sets to a map, the body is the payload. -/
theorem objectAt?_mergePayload_below {remote payload m : Object} {path rest : List String}
    (hpath : path ≠ []) (h : objectAt? payload path = some (.ofObject m)) :
    objectAt? (mergePayload remote payload) (path ++ rest) = (JSON.ofObject m).at? rest := by
  obtain ⟨k, path, rfl⟩ := List.exists_cons_of_ne_nil hpath
  rw [objectAt?_cons, Option.bind_eq_some_iff] at h
  obtain ⟨w, hw, hat⟩ := h
  have hnull : w ≠ .null := by
    rintro rfl
    cases path <;> cases hat
  rw [objectAt?_append, objectAt?_cons, get_mergePayload_of_some hw hnull, Option.bind_some, hat,
    Option.bind_some]

/-! ### The exact condition -/

/-- **When an update keeps what the spec does not manage.**  It does so exactly when
    every map below the top level that the payload sets mentions all the keys that
    the remote's map at the same place has. -/
theorem preservesUnmanaged_iff (remote payload : Object) :
    PreservesUnmanaged remote payload ↔
      ∀ (path : List String) (managed stored : Object), path ≠ [] →
        objectAt? payload path = some (.ofObject managed) →
        objectAt? remote path = some (.ofObject stored) → stored.keys ⊆ managed.keys := by
  constructor
  · intro hkeeps path managed stored hpath hmanaged hstored k hk
    by_contra hmissing
    obtain ⟨v, hv⟩ := FiniteMap.mem_keys_iff.mp hk
    have hremote : objectAt? remote (path ++ [k]) = some v := by
      rw [objectAt?_append, hstored, Option.bind_some]
      change objectAt? stored [k] = some v
      rw [objectAt?_cons, hv, Option.bind_some, JSON.at?_nil]
    have hnone : managed.get k = none := FiniteMap.get_eq_none_iff.mpr hmissing
    have hkept := hkeeps (path ++ [k]) v hremote ⟨path, k, [], managed, rfl, hmanaged, hnone⟩
    rw [objectAt?_mergePayload_below hpath hmanaged] at hkept
    change objectAt? managed [k] = some v at hkept
    rw [objectAt?_cons, hnone] at hkept
    cases hkept
  · rintro hcovers path v hv ⟨front, k, rest, m, rfl, hfront, hnone⟩
    by_cases htop : front = []
    · -- the path leaves the payload at the top level, where the merge is by key
      subst htop
      obtain rfl : payload = m := JSON.ofObject_injective (Option.some.inj hfront)
      rw [List.nil_append, objectAt?_cons] at hv ⊢
      rw [get_mergePayload_of_none hnone]
      exact hv
    · obtain ⟨stored, hstored, hk⟩ := objectAt?_append_cons hv
      have hmem := hcovers front m stored htop hfront hstored hk
      exact absurd hmem (FiniteMap.get_eq_none_iff.mp hnone)

/-- An attribute added in the console is lost when the spec changes another one. -/
theorem console_attribute_lost :
    ¬ PreservesUnmanaged
      (.ofList [("attributes", .ofObject (.ofList [("team", .str "a"), ("theme", .str "dark")]))])
      (.ofList [("attributes", .ofObject (.ofList [("team", .str "b")]))]) := by
  intro hkeeps
  have hkept := hkeeps ["attributes", "theme"] (.str "dark") (by decide)
    ⟨["attributes"], "theme", [], .ofList [("team", .str "b")], rfl, by decide, by decide⟩
  exact absurd hkept (by decide)

end KeycloakOperator
