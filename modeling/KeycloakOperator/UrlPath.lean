import Mathlib.Data.List.Basic

/-!
# Paths of URLs

Percent-encoding of byte sequences, the segments of a path, and the removal of dot segments
(RFC 3986, section 5.2.4).  A segment that went through `escape` has no slash and reads back
(`slash_notMem_escape`, `unescape_escape`), so a path of such segments splits into them
(`segments_join`); the removal of dot segments then leaves it alone exactly if none of them
consists of one or two dots (`removeDots_of_forall`, `mem_removeDots`).
-/

namespace UrlPath

/-! ### Percent-encoding -/

/-- The bytes that stand for themselves in a segment. -/
structure Unreserved where
  keeps : UInt8 → Bool
  ascii : ∀ b, keeps b = true → b.toNat < 128
  /-- the percent sign is escaped -/
  percent : keeps 37 = false
  /-- the slash is escaped -/
  slash : keeps 47 = false

def hexDigit (n : Nat) : Char := if n < 10 then Char.ofNat (48 + n) else Char.ofNat (55 + n)

def hexValue (c : Char) : Option Nat :=
  if '0' ≤ c ∧ c ≤ '9' then some (c.toNat - 48)
  else if 'A' ≤ c ∧ c ≤ 'F' then some (c.toNat - 55)
  else if 'a' ≤ c ∧ c ≤ 'f' then some (c.toNat - 87)
  else none

def escapeByte (u : Unreserved) (b : UInt8) : List Char :=
  if u.keeps b then [Char.ofNat b.toNat]
  else ['%', hexDigit (b.toNat / 16), hexDigit (b.toNat % 16)]

def escape (u : Unreserved) (bytes : List UInt8) : List Char := bytes.flatMap (escapeByte u)

/-- Read a segment back; a percent sign without two digits behind it is an error. -/
def unescape : List Char → Option (List UInt8)
  | [] => some []
  | c :: rest =>
      if c = '%' then
        match rest with
        | hi :: lo :: rest => do
            let hi ← hexValue hi
            let lo ← hexValue lo
            let bytes ← unescape rest
            return UInt8.ofNat (16 * hi + lo) :: bytes
        | _ => none
      else do
        let bytes ← unescape rest
        return String.utf8EncodeChar c ++ bytes

theorem hexValue_hexDigit : ∀ n < 16, hexValue (hexDigit n) = some n := by decide

theorem hexDigit_ne_slash : ∀ n < 16, hexDigit n ≠ '/' := by decide

theorem utf8EncodeChar_ascii : ∀ n < 128, String.utf8EncodeChar (Char.ofNat n) = [UInt8.ofNat n] := by
  decide

theorem toNat_ofNat_ascii : ∀ n < 128, (Char.ofNat n).toNat = n := by decide

section Escape

variable {u : Unreserved}

/-- A byte that stands for itself is neither a percent sign nor a slash. -/
theorem kept_ne {b : UInt8} (h : u.keeps b = true) :
    Char.ofNat b.toNat ≠ '%' ∧ Char.ofNat b.toNat ≠ '/' := by
  have hcode : (Char.ofNat b.toNat).toNat = b.toNat := toNat_ofNat_ascii _ (u.ascii b h)
  constructor
  · intro heq
    have hb : b = 37 := by
      rw [heq] at hcode
      exact UInt8.toNat_inj.mp hcode.symm
    rw [hb, u.percent] at h
    cases h
  · intro heq
    have hb : b = 47 := by
      rw [heq] at hcode
      exact UInt8.toNat_inj.mp hcode.symm
    rw [hb, u.slash] at h
    cases h

theorem unescape_cons_of_ne {c : Char} (h : c ≠ '%') (rest : List Char) :
    unescape (c :: rest) = (unescape rest).map (String.utf8EncodeChar c ++ ·) := by
  rw [unescape.eq_def, Option.map_eq_bind]
  exact if_neg h

theorem unescape_escapeByte (b : UInt8) (rest : List Char) :
    unescape (escapeByte u b ++ rest) = (unescape rest).map (b :: ·) := by
  have hbound : b.toNat < 256 := b.toNat_lt
  unfold escapeByte
  split
  case isTrue hkeeps =>
    have hascii := u.ascii b hkeeps
    rw [List.singleton_append, unescape_cons_of_ne (kept_ne hkeeps).1,
      utf8EncodeChar_ascii _ hascii, UInt8.ofNat_toNat]
    rfl
  case isFalse =>
    have hvalue : 16 * (b.toNat / 16) + b.toNat % 16 = b.toNat := Nat.div_add_mod _ _
    rw [List.cons_append, List.cons_append, List.cons_append, List.nil_append, unescape, if_pos rfl]
    rw [hexValue_hexDigit _ (by omega), hexValue_hexDigit _ (by omega)]
    rcases unescape rest with _ | bytes
    · rfl
    · change some (UInt8.ofNat (16 * (b.toNat / 16) + b.toNat % 16) :: bytes) = some (b :: bytes)
      rw [hvalue, UInt8.ofNat_toNat]

/-- **Segments read back.** -/
theorem unescape_escape (bytes : List UInt8) : unescape (escape u bytes) = some bytes := by
  induction bytes with
  | nil => rfl
  | cons b rest ih =>
    change unescape (escapeByte u b ++ escape u rest) = _
    rw [unescape_escapeByte, ih]
    rfl

theorem escape_injective : Function.Injective (escape u) := by
  intro bytes bytes' heq
  have hread := congrArg unescape heq
  rw [unescape_escape, unescape_escape] at hread
  exact Option.some.inj hread

theorem slash_notMem_escape (bytes : List UInt8) : '/' ∉ escape u bytes := by
  intro hmem
  obtain ⟨b, -, hb⟩ := List.mem_flatMap.mp hmem
  have hbound : b.toNat < 256 := b.toNat_lt
  unfold escapeByte at hb
  split at hb
  case isTrue hkeeps => exact (kept_ne hkeeps).2 (List.mem_singleton.mp hb).symm
  case isFalse =>
    simp only [List.mem_cons, List.not_mem_nil, or_false] at hb
    rcases hb with hb | hb | hb
    · exact absurd hb (by decide)
    · exact hexDigit_ne_slash _ (by omega) hb.symm
    · exact hexDigit_ne_slash _ (by omega) hb.symm

end Escape

/-! ### Segments -/

/-- The segments of an absolute path. -/
def segments (path : List Char) : List (List Char) := (path.splitOn '/').tail

/-- The absolute path with these segments. -/
def join (segs : List (List Char)) : List Char := segs.flatMap fun seg => '/' :: seg

theorem intercalate_cons (first : List Char) (segs : List (List Char)) :
    ['/'].intercalate (first :: segs) = first ++ join segs := by
  induction segs generalizing first with
  | nil => simp [List.intercalate, join]
  | cons seg rest ih =>
    have hstep : ['/'].intercalate (first :: seg :: rest) =
        first ++ '/' :: ['/'].intercalate (seg :: rest) := by simp [List.intercalate]
    rw [hstep, ih seg]
    rfl

theorem segments_join {segs : List (List Char)} (h : ∀ seg ∈ segs, '/' ∉ seg) :
    segments (join segs) = segs := by
  have hsplit : (join segs).splitOn '/' = [] :: segs := by
    rw [← List.nil_append (join segs), ← intercalate_cons]
    refine List.splitOn_intercalate '/' ?_ (List.cons_ne_nil _ _)
    intro seg hseg
    rcases List.mem_cons.mp hseg with rfl | hseg
    · exact List.not_mem_nil
    · exact h seg hseg
  rw [segments, hsplit, List.tail_cons]

/-! ### Dot segments -/

/-- A segment that stands for a place in the hierarchy. -/
def IsDots (seg : List Char) : Prop := seg = ['.'] ∨ seg = ['.', '.']

/-- Take the segments of an absolute path one after the other.  One dot is left out, two dots
    take the segment before them away; at the end of the path both leave a slash. -/
def removeDots (out : List (List Char)) : List (List Char) → List (List Char)
  | [] => out
  | seg :: rest =>
      if seg = ['.'] then
        if rest = [] then out ++ [[]] else removeDots out rest
      else if seg = ['.', '.'] then
        if rest = [] then out.dropLast ++ [[]] else removeDots out.dropLast rest
      else removeDots (out ++ [seg]) rest

/-- The segments of an absolute path after the removal of dot segments. -/
def resolve (path : List Char) : List (List Char) := removeDots [] (segments path)

theorem removeDots_of_forall {segs : List (List Char)} (h : ∀ seg ∈ segs, ¬ IsDots seg)
    (out : List (List Char)) : removeDots out segs = out ++ segs := by
  induction segs generalizing out with
  | nil => simp [removeDots]
  | cons seg rest ih =>
    obtain ⟨hdot, hdots⟩ := not_or.mp (h seg List.mem_cons_self)
    rw [removeDots, if_neg hdot, if_neg hdots,
      ih (fun seg hseg => h seg (List.mem_cons_of_mem _ hseg))]
    simp

/-- What is left was there before, is no dot segment, or is the empty end. -/
theorem mem_removeDots {segs out : List (List Char)} {seg : List Char}
    (h : seg ∈ removeDots out segs) :
    seg ∈ out ∨ seg = [] ∨ (seg ∈ segs ∧ ¬ IsDots seg) := by
  induction segs generalizing out with
  | nil => exact .inl h
  | cons first rest ih =>
    have hrest : ∀ {out'}, (∀ seg ∈ out', seg ∈ out ∨ seg = first ∧ ¬ IsDots first) →
        seg ∈ removeDots out' rest →
        seg ∈ out ∨ seg = [] ∨ (seg ∈ first :: rest ∧ ¬ IsDots seg) := by
      intro out' hout hseg
      rcases ih hseg with hkept | hempty | ⟨hmem, hdots⟩
      · rcases hout seg hkept with hold | ⟨rfl, hdots⟩
        · exact .inl hold
        · exact .inr (.inr ⟨List.mem_cons_self, hdots⟩)
      · exact .inr (.inl hempty)
      · exact .inr (.inr ⟨List.mem_cons_of_mem _ hmem, hdots⟩)
    have hend : ∀ {out'}, (∀ seg ∈ out', seg ∈ out) → seg ∈ out' ++ [[]] →
        seg ∈ out ∨ seg = [] ∨ (seg ∈ first :: rest ∧ ¬ IsDots seg) := by
      intro out' hout hseg
      rcases List.mem_append.mp hseg with hseg | hseg
      · exact .inl (hout seg hseg)
      · exact .inr (.inl (List.mem_singleton.mp hseg))
    rw [removeDots] at h
    split at h
    case isTrue =>
      split at h
      · exact hend (fun _ h => h) h
      · exact hrest (fun seg hseg => .inl hseg) h
    case isFalse hdot =>
      split at h
      case isTrue =>
        split at h
        · exact hend (fun _ h => List.dropLast_subset _ h) h
        · exact hrest (fun seg hseg => .inl (List.dropLast_subset _ hseg)) h
      case isFalse hdots =>
        refine hrest (fun seg hseg => ?_) h
        rcases List.mem_append.mp hseg with hseg | hseg
        · exact .inl hseg
        · exact .inr ⟨List.mem_singleton.mp hseg, not_or.mpr ⟨hdot, hdots⟩⟩

end UrlPath
