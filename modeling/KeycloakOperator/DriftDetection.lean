import KeycloakOperator.LastApplied

/-!
# Drift detection

The comparison `payloadDiffers` decides whether a pass writes to the server.  Two
questions have to be answered about it, in opposite directions.

*Soundness.*  When the comparison is silent, what is on the server?  `Matches` is
the relation a silent comparison vouches for: every managed entry is there, lists
are paired element by element, and only reset values and masked secrets are given
some slack (`payloadDiffers_sound`).

*Convergence.*  After an update, is the comparison silent?  The server may have
rewritten what it stored: it adds entries of its own, omits cleared ones and masks
secrets.  `Reports` describes such an answer, and `payloadDiffers_of_reports` shows
that none of it is taken for drift.
-/

namespace KeycloakOperator

/-! ### Reset values -/

/-- The values that a removed field is reset to. -/
def resetValues : List JSON := [.str "", .bool false, .ofList [], .ofObject ∅]

theorem isZeroValue_iff {v : JSON} : isZeroValue v = true ↔ v ∈ resetValues := by
  simp only [resetValues, List.mem_cons, List.not_mem_nil, or_false]
  cases v with
  | null => simp [isZeroValue, JSON.ofList, JSON.ofObject]
  | bool b => simp [isZeroValue, JSON.ofList, JSON.ofObject]
  | num n => simp [isZeroValue, JSON.ofList, JSON.ofObject]
  | str s => simp [isZeroValue, JSON.ofList, JSON.ofObject]
  | arr n items =>
    simp only [isZeroValue, decide_eq_true_eq, JSON.ofObject, reduceCtorEq, false_or, or_false]
    constructor
    · rintro rfl
      exact congrArg _ (funext fun i => i.elim0)
    · intro h
      rw [← JSON.ofList_ofFn] at h
      simpa using congrArg List.length (JSON.ofList_injective h)
  | obj keys vals =>
    simp only [isZeroValue, decide_eq_true_eq, JSON.ofList, reduceCtorEq, false_or,
      Finset.card_eq_zero]
    constructor
    · rintro rfl
      exact congrArg _ (funext fun k => absurd k.2 (Finset.notMem_empty _))
    · intro h
      have hobject : (⟨keys, vals⟩ : Object) = ∅ := JSON.ofObject_injective h
      exact congrArg FiniteMap.keys hobject

theorem eq_empty_of_ofObject_reset {m : Object} (h : JSON.ofObject m ∈ resetValues) : m = ∅ := by
  simp only [resetValues, List.mem_cons, List.not_mem_nil, or_false] at h
  rcases h with h | h | h | h
  · cases h
  · cases h
  · cases h
  · exact JSON.ofObject_injective h

theorem eq_nil_of_ofList_reset {list : List JSON} (h : JSON.ofList list ∈ resetValues) :
    list = [] := by
  simp only [resetValues, List.mem_cons, List.not_mem_nil, or_false] at h
  rcases h with h | h | h | h
  · cases h
  · cases h
  · exact JSON.ofList_injective h
  · cases h

theorem zeroFor_mem {v z : JSON} (h : zeroFor v = some z) : z ∈ resetValues := by
  cases v <;> simp only [zeroFor, reduceCtorEq, Option.some.injEq] at h <;> subst h <;>
    simp [resetValues]

/-! ### What a silent comparison vouches for -/

/-- The remote value `got` holds everything that the desired value `want` asks
    for.  A map entry that asks for a reset may be missing, a masked scalar stands
    for any, and a list is matched by a bijection of its positions. -/
inductive Matches : JSON → JSON → Prop where
  | object {want got : Object}
      (hnull : ∀ k, want.get k = some .null → got.get k = none ∨ got.get k = some .null)
      (hpresent : ∀ k v, want.get k = some v → v ≠ .null → v ∉ resetValues →
        ∃ g, got.get k = some g ∧ g ≠ .null)
      (hmatch : ∀ k v g, want.get k = some v → v ≠ .null → got.get k = some g → g ≠ .null →
        Matches v g) :
      Matches (.ofObject want) (.ofObject got)
  | list {n m : Nat} {items : Fin n → JSON} {gotItems : Fin m → JSON} (pairing : Fin n ≃ Fin m)
      (hmatch : ∀ i, Matches (items i) (gotItems (pairing i))) :
      Matches (.arr n items) (.arr m gotItems)
  | scalar {want got : JSON} (hwant : want.isScalar = true)
      (hgot : got = .str keycloakMaskedValue ∨ got = want) :
      Matches want got

/-- The used flags make the greedy choice a bijection between two lists of the
    same length. -/
theorem exists_pairing {n m : Nat} {items : Fin n → JSON} {gotItems : Fin m → JSON}
    (h : managedValueEqual (.arr n items) (.arr m gotItems) = true) :
    ∃ pairing : Fin n ≃ Fin m,
      ∀ i, managedValueEqual (items i) (gotItems (pairing i)) = true := by
  obtain ⟨rfl, hclaim⟩ := (managedValueEqual_arr items gotItems).mp h
  obtain ⟨f, hf, hserved⟩ := claimAll_injective hclaim
  have hrequests : n = (List.ofFn fun i => managedValueEqual (items i)).length :=
    List.length_ofFn.symm
  have hcandidates : (List.ofFn gotItems).length = n := List.length_ofFn
  let g : Fin n → Fin n := fun i => (f (i.cast hrequests)).cast hcandidates
  have hg : Function.Injective g := by
    intro a b hab
    have hcast := hf (Fin.ext (by simpa [g] using congrArg Fin.val hab))
    exact Fin.ext (by simpa using congrArg Fin.val hcast)
  refine ⟨Equiv.ofBijective g (Finite.injective_iff_bijective.mp hg), fun i => ?_⟩
  have hi := hserved (i.cast hrequests)
  simp only [Fin.getElem_fin, List.getElem_ofFn] at hi
  exact hi

theorem matches_of_managedValueEqual {want got : JSON} (h : managedValueEqual want got = true) :
    Matches want got := by
  induction want generalizing got with
  | arr n items ih =>
    cases got with
    | arr m gotItems =>
      obtain ⟨pairing, hpairing⟩ := exists_pairing h
      exact .list pairing fun i => ih i (hpairing i)
    | _ => simp [managedValueEqual] at h
  | obj keys vals ih =>
    obtain ⟨got, rfl⟩ := @asObject_of_managedValueEqual ⟨keys, vals⟩ got h
    have hdiffers := managedValueEqual_ofObject ⟨keys, vals⟩ got
    rw [show JSON.ofObject ⟨keys, vals⟩ = JSON.obj keys vals from rfl, h, eq_comm,
      Bool.not_eq_true', payloadDiffers_eq_false_iff] at hdiffers
    refine @Matches.object ⟨keys, vals⟩ got (fun k hk => ?_) (fun k v hk hv hreset => ?_)
      (fun k v g hk hv hg hgnull => ?_)
    · exact (entryAgrees_null _).mp (hdiffers k .null hk)
    · by_contra hnone
      push Not at hnone
      have habsent : presentValue (got.get k) = none := by
        rw [presentValue_eq_none]
        cases hgot : got.get k with
        | none => exact Or.inl rfl
        | some g => exact Or.inr (congrArg some (hnone g hgot))
      have hzero := (entryAgrees_absent hv habsent).mp (hdiffers k v hk)
      exact hreset (isZeroValue_iff.mp hzero)
    · have hagrees := hdiffers k v hk
      rw [entryAgrees_present hv (presentValue_eq_some.mpr ⟨hg, hgnull⟩)] at hagrees
      have hkeys := FiniteMap.mem_keys_of_get hk
      have hval : vals ⟨k, hkeys⟩ = v := FiniteMap.vals_eq_of_get hk hkeys
      exact hval ▸ ih ⟨k, hkeys⟩ (hval.symm ▸ hagrees)
  | _ => exact .scalar rfl ((managedValueEqual_scalar rfl got).mp h)

theorem matches_of_payloadDiffers {remote payload : Object}
    (h : payloadDiffers remote payload = false) : Matches (.ofObject payload) (.ofObject remote) := by
  apply matches_of_managedValueEqual
  rw [managedValueEqual_ofObject, h]
  rfl

/-- What a match says about a desired map. -/
theorem Matches.object_inv {want : Object} {got : JSON} (h : Matches (.ofObject want) got) :
    ∃ got' : Object, got = .ofObject got' ∧
      (∀ k v, want.get k = some v → v ≠ .null → v ∉ resetValues →
        ∃ g, got'.get k = some g ∧ g ≠ .null) ∧
      ∀ k v g, want.get k = some v → v ≠ .null → got'.get k = some g → g ≠ .null →
        Matches v g := by
  generalize hvalue : JSON.ofObject want = value at h
  cases h with
  | object hnull hpresent hmatch =>
    obtain rfl := JSON.ofObject_injective hvalue
    exact ⟨_, rfl, hpresent, hmatch⟩
  | list => cases hvalue
  | scalar hwant => subst hvalue; cases hwant

/-- Below a matched map, a scalar that is not a reset value is found under the
    same path, or the mask is. -/
theorem Matches.at? {want got v : JSON} {path : List String} (h : Matches want got)
    (hv : want.at? path = some v) (hscalar : v.isScalar = true) (hnull : v ≠ .null)
    (hreset : v ∉ resetValues) :
    got.at? path = some v ∨ got.at? path = some (.str keycloakMaskedValue) := by
  induction path generalizing want got with
  | nil =>
    rw [JSON.at?_nil, Option.some.injEq] at hv
    subst hv
    cases h with
    | object => cases hscalar
    | list => cases hscalar
    | scalar hwant hgot =>
      rw [JSON.at?_nil]
      exact hgot.elim (fun hmask => Or.inr (congrArg some hmask))
        (fun hsame => Or.inl (congrArg some hsame))
  | cons k path ih =>
    obtain ⟨want, rfl, hat⟩ := JSON.at?_cons_eq_some hv
    rw [objectAt?_cons, Option.bind_eq_some_iff] at hat
    obtain ⟨w, hw, hat⟩ := hat
    obtain ⟨got, rfl, hpresent, hmatch⟩ := h.object_inv
    -- `w` has the scalar at or below it, so it is neither null nor a reset value
    have hwnull : w ≠ .null := by
      rintro rfl
      cases path with
      | nil => exact hnull (Option.some.inj hat).symm
      | cons => cases hat
    have hwreset : w ∉ resetValues := by
      intro hmem
      cases path with
      | nil =>
        rw [JSON.at?_nil, Option.some.injEq] at hat
        exact hreset (hat ▸ hmem)
      | cons k' path =>
        simp only [resetValues, List.mem_cons, List.not_mem_nil, or_false] at hmem
        obtain rfl | rfl | rfl | rfl := hmem
        · cases hat
        · cases hat
        · cases hat
        · have hempty := objectAt?_cons ∅ k' path
          rw [objectAt?, hat] at hempty
          cases hempty
    obtain ⟨g, hg, hgnull⟩ := hpresent k w hw hwnull hwreset
    have hbelow := ih (hmatch k w g hw hwnull hg hgnull) hat
    change objectAt? got (k :: path) = _ ∨ objectAt? got (k :: path) = _
    simpa only [objectAt?_cons, hg, Option.bind_some] using hbelow

/-- **Drift detection is sound.**  A silent comparison means that the remote
    matches the payload; in particular it holds every scalar of the payload that
    is neither null nor a reset value at the same path of map keys, unless it masks
    it. -/
theorem payloadDiffers_sound (remote payload : Object)
    (h : payloadDiffers remote payload = false) :
    Matches (.ofObject payload) (.ofObject remote) ∧
      ∀ (path : List String) (v : JSON), objectAt? payload path = some v →
        v.isScalar = true → v ≠ .null → v ≠ .str "" → v ≠ .bool false →
        objectAt? remote path = some v ∨
          objectAt? remote path = some (.str keycloakMaskedValue) := by
  have hmatches := matches_of_payloadDiffers h
  refine ⟨hmatches, fun path v hv hscalar hnull hempty hfalse => ?_⟩
  refine hmatches.at? hv hscalar hnull ?_
  simp only [resetValues, List.mem_cons, List.not_mem_nil, or_false, not_or]
  refine ⟨hempty, hfalse, ?_, ?_⟩
  · rintro rfl
    cases hscalar
  · rintro rfl
    cases hscalar

/-- A realm whose desired and remote redirect lists are in different order, with
    an entry of the server's own and a masked password. -/
theorem payloadDiffers_sound_realm :
    let payload : Object := .ofList [("enabled", .bool true),
      ("eventsListeners", .ofList [.str "a", .str "b"]),
      ("smtpServer", .ofObject (.ofList [("host", .str "h"), ("password", .str "p")]))]
    let remote : Object := .ofList [("enabled", .bool true), ("id", .str "demo"),
      ("eventsListeners", .ofList [.str "b", .str "a"]),
      ("smtpServer", .ofObject (.ofList [("host", .str "h"),
        ("password", .str keycloakMaskedValue)]))]
    payloadDiffers remote payload = false ∧ Matches (.ofObject payload) (.ofObject remote) :=
  ⟨by decide, (payloadDiffers_sound _ _ (by decide)).1⟩

/-! ### What the server may report -/

/-- The payload's value for key `k` at a place where its value is `payload`, if it
    mentions that place and that key. -/
def entryOf (payload : Option JSON) (k : String) : Option JSON :=
  payload.bind fun v => v.asObject.bind fun m => m.get k

/-- The payload's value for the list element `i`. -/
def itemOf (payload : Option JSON) (i : Nat) : Option JSON :=
  payload.bind fun v => v.asList.bind fun items => items[i]?

/-- `Reports payload stored reported`: the server stored `stored` at a place where
    the payload asks for `payload` (nothing, if it does not mention the place), and
    reports `reported` there.  It may mask strings, add map entries that the payload
    does not mention and omit map entries whose payload value is a reset value. -/
inductive Reports : Option JSON → JSON → JSON → Prop where
  | same {payload : Option JSON} {v : JSON} (hv : v.isScalar = true) : Reports payload v v
  | masked {payload : Option JSON} {s : String} :
      Reports payload (.str s) (.str keycloakMaskedValue)
  | list {payload : Option JSON} {n : Nat} {stored reported : Fin n → JSON}
      (hitems : ∀ i : Fin n, Reports (itemOf payload i) (stored i) (reported i)) :
      Reports payload (.arr n stored) (.arr n reported)
  | object {payload : Option JSON} {stored reported : Object}
      (hadded : ∀ k, stored.get k = none → entryOf payload k ≠ none → reported.get k = none)
      (homitted : ∀ k v, stored.get k = some v → reported.get k = none →
        ∃ w ∈ resetValues, entryOf payload k = some w)
      (hkept : ∀ k v r, stored.get k = some v → reported.get k = some r →
        Reports (entryOf payload k) v r) :
      Reports payload (.ofObject stored) (.ofObject reported)

theorem Reports.object_inv {payload : Option JSON} {stored : Object} {reported : JSON}
    (h : Reports payload (.ofObject stored) reported) :
    ∃ reported' : Object, reported = .ofObject reported' ∧
      (∀ k, stored.get k = none → entryOf payload k ≠ none → reported'.get k = none) ∧
      (∀ k v, stored.get k = some v → reported'.get k = none →
        ∃ w ∈ resetValues, entryOf payload k = some w) ∧
      ∀ k v r, stored.get k = some v → reported'.get k = some r →
        Reports (entryOf payload k) v r := by
  generalize hvalue : JSON.ofObject stored = value at h
  cases h with
  | same hv => subst hvalue; cases hv
  | masked => cases hvalue
  | list => cases hvalue
  | object hadded homitted hkept =>
    obtain rfl := JSON.ofObject_injective hvalue
    exact ⟨_, rfl, hadded, homitted, hkept⟩

/-- A reported entry agrees with the payload entry it was stored for. -/
theorem entryAgrees_of_reports {want : JSON} {reported : Option JSON}
    (hequal : ∀ r, Reports (some want) want r → managedValueEqual want r = true)
    (homitted : reported = none → want ∈ resetValues)
    (hkept : ∀ r, reported = some r → Reports (some want) want r) : EntryAgrees want reported := by
  cases hreported : reported with
  | none =>
    have hzero := isZeroValue_iff.mpr (homitted hreported)
    exact (entryAgrees_absent (isZeroValue_ne_null hzero) rfl).mpr hzero
  | some r =>
    have hr := hkept r hreported
    by_cases hnull : want = .null
    · subst hnull
      cases hr
      simp
    · have hrnull : r ≠ .null := by
        rintro rfl
        cases hr
        exact hnull rfl
      rw [entryAgrees_present hnull (presentValue_eq_some.mpr ⟨rfl, hrnull⟩)]
      exact hequal r hr

/-- A value that was stored as the payload has it compares equal to every report
    of it. -/
theorem managedValueEqual_of_reports {v r : JSON} (h : Reports (some v) v r) :
    managedValueEqual v r = true := by
  induction v generalizing r with
  | arr n items ih =>
    cases h with
    | same hv => cases hv
    | @list _ _ _ reported hitems =>
      -- the order is kept, so each desired element finds its own position free
      refine (managedValueEqual_arr items reported).mpr ⟨rfl, claimAll_diagonal ?_⟩
      rw [List.forall₂_iff_get]
      refine ⟨by simp only [List.length_ofFn], fun i hi hi' => ?_⟩
      rw [List.length_ofFn] at hi
      have hitem := hitems ⟨i, hi⟩
      have hplace : itemOf (some (JSON.arr n items)) i = some (items ⟨i, hi⟩) := by
        simp [itemOf, JSON.asList, hi]
      rw [hplace] at hitem
      simpa using ih ⟨i, hi⟩ hitem
  | obj keys vals ih =>
    obtain ⟨reported, rfl, -, homitted, hkept⟩ :=
      @Reports.object_inv _ ⟨keys, vals⟩ _ h
    change managedValueEqual (.ofObject ⟨keys, vals⟩) _ = true
    rw [managedValueEqual_ofObject, Bool.not_eq_true', payloadDiffers_eq_false_iff]
    intro k want hwant
    have hplace : entryOf (some (JSON.obj keys vals)) k = some want := hwant
    refine entryAgrees_of_reports (fun r hr => ?_) (fun hnone => ?_) (fun r hr => ?_)
    · have hk := FiniteMap.mem_keys_of_get hwant
      have hval : vals ⟨k, hk⟩ = want := FiniteMap.vals_eq_of_get hwant hk
      exact hval ▸ ih ⟨k, hk⟩ (hval.symm ▸ hr)
    · obtain ⟨w, hw, hentry⟩ := homitted k want hwant hnone
      rw [hplace, Option.some.injEq] at hentry
      exact hentry ▸ hw
    · exact hplace ▸ hkept k want r hwant hr
  | str s =>
    refine (managedValueEqual_scalar rfl r).mpr ?_
    cases h with
    | same => exact Or.inr rfl
    | masked => exact Or.inl rfl
  | _ =>
    cases h
    exact (managedValueEqual_scalar rfl _).mpr (Or.inr rfl)

theorem Reports.refl (payload : Option JSON) (v : JSON) : Reports payload v v := by
  induction v generalizing payload with
  | arr n items ih => exact .list fun i => ih i _
  | obj keys vals ih =>
    refine @Reports.object payload ⟨keys, vals⟩ ⟨keys, vals⟩ (fun k hnone _ => hnone)
      (fun k v hv hnone => ?_) (fun k v r hv hr => ?_)
    · rw [hv] at hnone
      cases hnone
    · rw [hv, Option.some.injEq] at hr
      subst hr
      have hk := FiniteMap.mem_keys_of_get hv
      have hval : vals ⟨k, hk⟩ = v := FiniteMap.vals_eq_of_get hv hk
      exact hval ▸ ih ⟨k, hk⟩ _
  | _ => exact .same rfl

theorem managedValueEqual_refl (v : JSON) : managedValueEqual v v = true :=
  managedValueEqual_of_reports (.refl _ v)

/-- An entry that holds the desired value agrees with it. -/
theorem entryAgrees_refl (v : JSON) : EntryAgrees v (some v) := by
  by_cases hnull : v = .null
  · subst hnull
    exact (entryAgrees_null _).mpr (Or.inr rfl)
  · rw [entryAgrees_present hnull (presentValue_eq_some.mpr ⟨rfl, hnull⟩)]
    exact managedValueEqual_refl v

/-- **Drift correction converges.**  However the server normalises what an update
    stored, the next comparison with the same payload is silent. -/
theorem payloadDiffers_of_reports (remote payload reported : Object)
    (h : Reports (some (.ofObject payload)) (.ofObject (mergePayload remote payload))
      (.ofObject reported)) :
    payloadDiffers reported payload = false := by
  obtain ⟨reported', heq, hadded, homitted, hkept⟩ := h.object_inv
  obtain rfl := JSON.ofObject_injective heq
  rw [payloadDiffers_eq_false_iff]
  intro k want hwant
  have hplace : entryOf (some (.ofObject payload)) k = some want := hwant
  by_cases hnull : want = .null
  · -- the merge removed the key and the server may not add it
    subst hnull
    have hremoved : (mergePayload remote payload).get k = none := by
      rw [get_mergePayload, hwant]
    rw [entryAgrees_null]
    exact Or.inl (hadded k hremoved (by rw [hplace]; exact Option.some_ne_none _))
  · have hstored := @get_mergePayload_of_some remote _ _ _ hwant hnull
    refine entryAgrees_of_reports (fun r hr => managedValueEqual_of_reports hr)
      (fun hnone => ?_) (fun r hr => ?_)
    · obtain ⟨w, hw, hentry⟩ := homitted k want hstored hnone
      rw [hplace, Option.some.injEq] at hentry
      exact hentry ▸ hw
    · exact hplace ▸ hkept k want r hstored hr

/-- `Reports`, decided: the server's answer is checked entry by entry. -/
def reportsCheck : Option JSON → JSON → JSON → Bool
  | payload, .arr n stored, reported =>
      match reported with
      | .arr m reported =>
          if h : n = m then
            decide (∀ i : Fin n,
              reportsCheck (itemOf payload i) (stored i) (reported (i.cast h)) = true)
          else false
      | _ => false
  | payload, .obj keys vals, reported =>
      match reported with
      | .obj reportedKeys reportedVals =>
          decide (∀ k ∈ reportedKeys, k ∉ keys → entryOf payload k = none) &&
            decide (∀ k : {k // k ∈ keys},
              (match FiniteMap.get ⟨reportedKeys, reportedVals⟩ k with
                | none => resetValues.any fun w => decide (entryOf payload k = some w)
                | some r => reportsCheck (entryOf payload k) (vals k) r) = true)
      | _ => false
  | _, .str s, reported =>
      decide (reported = .str keycloakMaskedValue) || decide (reported = .str s)
  | _, v, reported => decide (reported = v)

theorem reports_of_check {payload : Option JSON} {stored reported : JSON}
    (h : reportsCheck payload stored reported = true) : Reports payload stored reported := by
  induction stored generalizing payload reported with
  | arr n stored ih =>
    cases reported with
    | arr m reported =>
      simp only [reportsCheck] at h
      split at h
      · rename_i hlength
        subst hlength
        exact .list fun i => ih i (of_decide_eq_true h i)
      · cases h
    | _ => cases h
  | obj keys vals ih =>
    cases reported with
    | obj reportedKeys reportedVals =>
      simp only [reportsCheck, Bool.and_eq_true, decide_eq_true_eq] at h
      obtain ⟨hadded, hentries⟩ := h
      rw [FiniteMap.forall_vals_iff (m := ⟨keys, vals⟩) (p := fun k v =>
        (match FiniteMap.get ⟨reportedKeys, reportedVals⟩ k with
          | none => resetValues.any fun w => decide (entryOf payload k = some w)
          | some r => reportsCheck (entryOf payload k) v r) = true)] at hentries
      refine @Reports.object payload ⟨keys, vals⟩ ⟨reportedKeys, reportedVals⟩
        (fun k hstored hmentioned => ?_) (fun k v hstored hnone => ?_) (fun k v r hstored hr => ?_)
      · refine FiniteMap.get_eq_none_iff.mpr fun hk => ?_
        exact hmentioned (hadded k hk (FiniteMap.get_eq_none_iff.mp hstored))
      · have hk := hentries k v hstored
        simpa only [hnone, List.any_eq_true, decide_eq_true_eq] using hk
      · have hk := hentries k v hstored
        rw [hr] at hk
        have hkeys := FiniteMap.mem_keys_of_get hstored
        have hval : vals ⟨k, hkeys⟩ = v := FiniteMap.vals_eq_of_get hstored hkeys
        exact hval ▸ ih ⟨k, hkeys⟩ (hval.symm ▸ hk)
    | _ => cases h
  | str s =>
    simp only [reportsCheck, Bool.or_eq_true, decide_eq_true_eq] at h
    obtain rfl | rfl := h
    · exact .masked
    · exact .same rfl
  | _ =>
    simp only [reportsCheck, decide_eq_true_eq] at h
    subst h
    exact .same rfl

/-- The server adds an id, omits the cleared description and masks the password. -/
theorem payloadDiffers_of_reports_realm :
    let payload : Object := .ofList [("description", .str ""),
      ("smtpServer", .ofObject (.ofList [("password", .str "p")]))]
    let reported : Object := .ofList [("realm", .str "demo"), ("id", .str "1"),
      ("smtpServer", .ofObject (.ofList [("password", .str keycloakMaskedValue)]))]
    payloadDiffers reported payload = false :=
  payloadDiffers_of_reports (.ofList [("realm", .str "demo"), ("description", .str "old")]) _ _
    (reports_of_check (by decide))

end KeycloakOperator
