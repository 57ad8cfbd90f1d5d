import Mathlib.Data.List.Basic
import Mathlib.Data.List.Count
import Mathlib.Data.List.Flatten

/-!
# The documents that an uninstall deletes

`install.sh` uninstalls by deleting what stands in the release bundle, except the
CustomResourceDefinitions: deleting a CRD deletes every custom resource of its kind in the cluster.
`keep_non_crd` takes the CRDs out of the bundle.  It reads line by line, with a document that is
being collected, a flag that belongs to this document and a count of the documents printed.
-/

namespace KeycloakOperator

/-! ### The filter -/

/-- The characters of the class `[ \t]`. -/
def isBlank (c : Char) : Bool := c == ' ' || c == '\t'

/-- The lines that match `/^---[ \t]*$/`. -/
def isSeparator (line : String) : Bool :=
  "---".toList.isPrefixOf line.toList && (line.toList.drop 3).all isBlank

/-- The lines that match `/^kind:[ \t]*CustomResourceDefinition[ \t]*$/`. -/
def isCrdLine (line : String) : Bool :=
  let value := (line.toList.drop 5).dropWhile isBlank
  "kind:".toList.isPrefixOf line.toList &&
    ("CustomResourceDefinition".toList.isPrefixOf value && (value.drop 24).all isBlank)

/-- The records that awk reads from a text: its lines, where the newline at the end of the text
    closes the last line and does not open another. -/
def records (text : String) : List String :=
  let lines := (text.toList.splitOn '\n').map String.ofList
  if lines.getLast? = some "" then lines.dropLast else lines

/-- The variables of the script, and what it has printed. -/
structure DocFilter where
  doc : String := ""
  isCrd : Bool := false
  emitted : Nat := 0
  out : String := ""
deriving DecidableEq, Repr

def DocFilter.flushDoc (st : DocFilter) : DocFilter :=
  if st.doc = "" then st
  else
    let st :=
      if st.isCrd then st
      else
        { st with
          emitted := st.emitted + 1
          out := (if st.emitted = 0 then st.out else st.out ++ "---\n") ++ st.doc }
    { st with doc := "", isCrd := false }

/-- What the script does with one record. -/
def DocFilter.onRecord (st : DocFilter) (line : String) : DocFilter :=
  if isSeparator line then st.flushDoc
  else
    let st := if isCrdLine line then { st with isCrd := true } else st
    { st with doc := st.doc ++ line ++ "\n" }

def keepNonCrd (text : String) : String :=
  ((records text).foldl DocFilter.onRecord {}).flushDoc.out

/-! ### Lines -/

def Blanks (cs : List Char) : Prop := ∀ c ∈ cs, c = ' ' ∨ c = '\t'

/-- `---` followed only by blanks. -/
def SeparatorLine (line : String) : Prop :=
  ∃ blanks, Blanks blanks ∧ line.toList = "---".toList ++ blanks

/-- `kind:` at the start of the line, blanks, `CustomResourceDefinition` and blanks. -/
def CrdLine (line : String) : Prop :=
  ∃ before after, Blanks before ∧ Blanks after ∧
    line.toList = "kind:".toList ++ (before ++ ("CustomResourceDefinition".toList ++ after))

theorem all_isBlank_iff {cs : List Char} : cs.all isBlank = true ↔ Blanks cs := by
  simp [Blanks, isBlank]

/-- What is matched after a fixed text is matched against the rest of the line. -/
theorem isPrefixOf_and_iff {p l : List Char} {q : List Char → Bool} :
    (p.isPrefixOf l && q (l.drop p.length)) = true ↔ ∃ rest, l = p ++ rest ∧ q rest = true := by
  rw [Bool.and_eq_true, List.isPrefixOf_iff_prefix]
  constructor
  · rintro ⟨⟨rest, rfl⟩, hq⟩
    exact ⟨rest, rfl, by simpa using hq⟩
  · rintro ⟨rest, rfl, hq⟩
    exact ⟨⟨rest, rfl⟩, by simpa using hq⟩

theorem isSeparator_iff {line : String} : isSeparator line = true ↔ SeparatorLine line := by
  apply (isPrefixOf_and_iff (p := "---".toList) (q := fun l => l.all isBlank)).trans
  constructor
  · rintro ⟨rest, hline, hrest⟩
    exact ⟨rest, all_isBlank_iff.mp hrest, hline⟩
  · rintro ⟨blanks, hblanks, hline⟩
    exact ⟨blanks, hline, all_isBlank_iff.mpr hblanks⟩

/-- `[ \t]*` before a text that does not start with a blank takes exactly the blanks. -/
theorem exists_blanks_iff {cs value : List Char} {c : Char} (hc : ¬ isBlank c)
    {q : List Char → Prop} :
    (∃ rest, cs.dropWhile isBlank = (c :: value) ++ rest ∧ q rest) ↔
      ∃ before after, Blanks before ∧ q after ∧ cs = before ++ ((c :: value) ++ after) := by
  constructor
  · rintro ⟨rest, hdrop, hq⟩
    refine ⟨cs.takeWhile isBlank, rest, ?_, hq, ?_⟩
    · apply all_isBlank_iff.mp
      simp
    · rw [← hdrop, List.takeWhile_append_dropWhile]
  · rintro ⟨before, after, hbefore, hq, rfl⟩
    refine ⟨after, ?_, hq⟩
    have hall : ∀ b ∈ before, isBlank b = true := List.all_eq_true.mp (all_isBlank_iff.mpr hbefore)
    rw [List.dropWhile_append_of_pos hall, List.cons_append, List.dropWhile_cons_of_neg hc]

theorem isCrdLine_iff {line : String} : isCrdLine line = true ↔ CrdLine line := by
  have hvalue : ∀ cs : List Char,
      ("CustomResourceDefinition".toList.isPrefixOf (cs.dropWhile isBlank) &&
          ((cs.dropWhile isBlank).drop 24).all isBlank) = true ↔
        ∃ before after, Blanks before ∧ Blanks after ∧
          cs = before ++ ("CustomResourceDefinition".toList ++ after) := by
    intro cs
    apply (isPrefixOf_and_iff (p := "CustomResourceDefinition".toList)
      (q := fun l => l.all isBlank)).trans
    simp only [all_isBlank_iff]
    have hword : "CustomResourceDefinition".toList = 'C' :: "ustomResourceDefinition".toList := by
      simp
    rw [hword]
    exact exists_blanks_iff (by simp [isBlank])
  apply (isPrefixOf_and_iff (p := "kind:".toList) (q := fun cs =>
    "CustomResourceDefinition".toList.isPrefixOf (cs.dropWhile isBlank) &&
      ((cs.dropWhile isBlank).drop 24).all isBlank)).trans
  simp only [hvalue]
  constructor
  · rintro ⟨rest, hline, before, after, hbefore, hafter, rfl⟩
    exact ⟨before, after, hbefore, hafter, hline⟩
  · rintro ⟨before, after, hbefore, hafter, hline⟩
    exact ⟨_, hline, before, after, hbefore, hafter, rfl⟩

instance (line : String) : Decidable (SeparatorLine line) :=
  decidable_of_iff _ isSeparator_iff

instance (line : String) : Decidable (CrdLine line) :=
  decidable_of_iff _ isCrdLine_iff

/-- Each line with its newline. -/
def unlines (lines : List String) : String := (lines.map (· ++ "\n")).foldr (· ++ ·) ""

@[simp] theorem unlines_nil : unlines [] = "" := rfl

@[simp] theorem unlines_cons (line : String) (lines : List String) :
    unlines (line :: lines) = line ++ "\n" ++ unlines lines := rfl

@[simp] theorem unlines_append (xs ys : List String) :
    unlines (xs ++ ys) = unlines xs ++ unlines ys := by
  induction xs with
  | nil => simp
  | cons x xs ih => simp [ih, String.append_assoc]

theorem unlines_eq_empty {lines : List String} : unlines lines = "" ↔ lines = [] := by
  cases lines with
  | nil => simp
  | cons line lines => simp [← String.toList_eq_nil_iff]

/-- The text has these lines.  The last one, unless it is empty, may lack its newline. -/
inductive Writes : List String → String → Prop
  | ended (lines : List String) : Writes lines (unlines lines)
  | unended (lines : List String) {last : String} (h : last ≠ "") :
      Writes (lines ++ [last]) (unlines lines ++ last)

theorem splitOn_unlines {lines : List String} (h : ∀ line ∈ lines, '\n' ∉ line.toList)
    (rest : List Char) :
    ((unlines lines).toList ++ rest).splitOn '\n' =
      lines.map String.toList ++ rest.splitOn '\n' := by
  induction lines with
  | nil => simp
  | cons line lines ih =>
    have hline := h line List.mem_cons_self
    have hlines := ih fun l hl => h l (List.mem_cons_of_mem _ hl)
    have hnewline : "\n".toList = ['\n'] := by decide
    simp only [unlines_cons, String.toList_append, hnewline, List.append_assoc, List.map_cons,
      List.cons_append]
    rw [List.splitOn_append_cons_self_of_not_mem hline, List.nil_append, hlines]

theorem records_of_writes {lines : List String} {text : String} (hwrites : Writes lines text)
    (h : ∀ line ∈ lines, '\n' ∉ line.toList) : records text = lines := by
  cases hwrites with
  | ended =>
    have hsplit := splitOn_unlines h []
    rw [List.append_nil] at hsplit
    simp [records, hsplit, List.map_map, Function.comp_def]
  | unended lines hlast =>
    rename_i last
    have hinit : ∀ line ∈ lines, '\n' ∉ line.toList := fun l hl => h l (by simp [hl])
    have hsplit := splitOn_unlines hinit last.toList
    rw [List.splitOn_eq_singleton (h last (by simp))] at hsplit
    simp [records, hsplit, List.map_map, Function.comp_def, hlast]

theorem CrdLine.not_separatorLine {line : String} (h : CrdLine line) : ¬ SeparatorLine line := by
  rintro ⟨blanks, _, hdashes⟩
  obtain ⟨before, after, _, _, hkind⟩ := h
  rw [hkind] at hdashes
  exact absurd (congrArg List.head? hdashes) (by simp)

theorem not_newline_of_separatorLine {line : String} (h : SeparatorLine line) :
    '\n' ∉ line.toList := by
  obtain ⟨blanks, hblanks, hline⟩ := h
  rw [hline, List.mem_append]
  rintro (hmem | hmem)
  · exact absurd hmem (by decide)
  · rcases hblanks _ hmem with h | h <;> exact absurd h (by decide)

/-! ### Bundles -/

/-- A document of a bundle: lines of text, none of which separates documents. -/
structure Document where
  lines : List String
  plain : ∀ line ∈ lines, '\n' ∉ line.toList ∧ ¬ SeparatorLine line

def Document.IsCrd (d : Document) : Prop := ∃ line ∈ d.lines, CrdLine line

instance (d : Document) : Decidable d.IsCrd :=
  inferInstanceAs (Decidable (∃ line ∈ d.lines, CrdLine line))

/-- The documents that an uninstall is to delete. -/
def Document.Kept (d : Document) : Prop := d.lines ≠ [] ∧ ¬ d.IsCrd

instance (d : Document) : Decidable d.Kept :=
  inferInstanceAs (Decidable (d.lines ≠ [] ∧ ¬ d.IsCrd))

/-- Documents joined by one or more separators, possibly with separators at the end. -/
inductive Joined : List Document → List String → Prop
  | last (d : Document) {trailing : List String} (h : ∀ line ∈ trailing, SeparatorLine line) :
      Joined [d] (d.lines ++ trailing)
  | next (d : Document) {separators : List String} {docs : List Document} {lines : List String}
      (h : ∀ line ∈ separators, SeparatorLine line) (hne : separators ≠ [])
      (hrest : Joined docs lines) : Joined (d :: docs) (d.lines ++ (separators ++ lines))

/-- The lines of a bundle of documents, possibly with separators at the start. -/
inductive Bundle : List Document → List String → Prop
  | none {leading : List String} (h : ∀ line ∈ leading, SeparatorLine line) : Bundle [] leading
  | some {leading : List String} {docs : List Document} {lines : List String}
      (h : ∀ line ∈ leading, SeparatorLine line) (hjoined : Joined docs lines) :
      Bundle docs (leading ++ lines)

/-- The documents joined by single `---` lines. -/
def Document.bundled (docs : List Document) : List String :=
  ["---"].intercalate (docs.map Document.lines)

theorem Joined.not_newline {docs : List Document} {lines : List String} (h : Joined docs lines) :
    ∀ line ∈ lines, '\n' ∉ line.toList := by
  induction h with
  | last d htrailing =>
    intro line hline
    rcases List.mem_append.mp hline with hmem | hmem
    · exact (d.plain line hmem).1
    · exact not_newline_of_separatorLine (htrailing line hmem)
  | next d hseps _ _ ih =>
    intro line hline
    simp only [List.mem_append] at hline
    rcases hline with hmem | hmem | hmem
    · exact (d.plain line hmem).1
    · exact not_newline_of_separatorLine (hseps line hmem)
    · exact ih line hmem

theorem Bundle.not_newline {docs : List Document} {lines : List String} (h : Bundle docs lines) :
    ∀ line ∈ lines, '\n' ∉ line.toList := by
  cases h with
  | none hleading => exact fun line hline => not_newline_of_separatorLine (hleading line hline)
  | some hleading hjoined =>
    intro line hline
    rcases List.mem_append.mp hline with hmem | hmem
    · exact not_newline_of_separatorLine (hleading line hmem)
    · exact hjoined.not_newline line hmem

/-! ### What a run of the filter keeps -/

/-- The filter has printed these documents and is collecting these lines. -/
structure DocFilter.Holds (st : DocFilter) (kept : List Document) (lines : List String) : Prop where
  doc : st.doc = unlines lines
  isCrd : st.isCrd = true ↔ ∃ line ∈ lines, CrdLine line
  emitted : st.emitted = kept.length
  out : st.out = unlines (Document.bundled kept)

theorem Document.bundled_concat (docs : List Document) (d : Document) :
    Document.bundled (docs ++ [d]) =
      (if docs.length = 0 then [] else Document.bundled docs ++ ["---"]) ++ d.lines := by
  induction docs with
  | nil => simp [Document.bundled]
  | cons d' docs ih =>
    cases docs with
    | nil => simp [Document.bundled]
    | cons d'' docs => simp_all [Document.bundled, List.intercalate_cons_cons]

theorem DocFilter.holds_init : DocFilter.Holds {} [] [] where
  doc := rfl
  isCrd := by simp
  emitted := rfl
  out := rfl

namespace DocFilter.Holds

variable {st : DocFilter} {kept : List Document}

/-- A line that is no separator goes to the document, which it may mark as a CRD. -/
theorem onRecord {lines : List String} (h : st.Holds kept lines) {line : String}
    (hline : ¬ SeparatorLine line) : (st.onRecord line).Holds kept (lines ++ [line]) := by
  have hseparator : isSeparator line = false := by
    rw [← Bool.not_eq_true, isSeparator_iff]
    exact hline
  simp only [DocFilter.onRecord, hseparator, Bool.false_eq_true, ↓reduceIte]
  by_cases hcrd : CrdLine line
  · rw [if_pos (isCrdLine_iff.mpr hcrd)]
    constructor
    · simp [h.doc, String.append_assoc]
    · simp [or_and_right, exists_or, hcrd]
    · exact h.emitted
    · exact h.out
  · rw [if_neg (isCrdLine_iff.not.mpr hcrd)]
    constructor
    · simp [h.doc, String.append_assoc]
    · simp [h.isCrd, or_and_right, exists_or, hcrd]
    · exact h.emitted
    · exact h.out

/-- At a separator, and at the end, the document is printed or dropped as a whole, and the flag
    goes with it. -/
theorem flushDoc {d : Document} (h : st.Holds kept d.lines) :
    st.flushDoc.Holds (kept ++ [d].filter (·.Kept)) [] := by
  by_cases hempty : d.lines = []
  · have hdoc : st.doc = "" := by rw [h.doc, hempty, unlines_nil]
    have hkept : ¬ d.Kept := fun hk => hk.1 hempty
    simp only [DocFilter.flushDoc, hdoc, ↓reduceIte, List.filter_singleton, hkept, decide_false,
      cond_false, List.append_nil]
    rwa [hempty] at h
  · have hdoc : st.doc ≠ "" := by rwa [h.doc, Ne, unlines_eq_empty]
    by_cases hcrd : d.IsCrd
    · have hkept : ¬ d.Kept := fun hk => hk.2 hcrd
      simp only [DocFilter.flushDoc, hdoc, ↓reduceIte, h.isCrd.mpr hcrd, List.filter_singleton,
        hkept, decide_false, cond_false, List.append_nil]
      exact ⟨rfl, by simp, h.emitted, h.out⟩
    · have hkept : d.Kept := ⟨hempty, hcrd⟩
      have hflag : st.isCrd = false := by
        rw [← Bool.not_eq_true, h.isCrd]
        exact hcrd
      simp only [DocFilter.flushDoc, hdoc, ↓reduceIte, hflag, List.filter_singleton, hkept,
        decide_true, cond_true, Bool.false_eq_true]
      refine ⟨rfl, by simp, by simp [h.emitted], ?_⟩
      rw [Document.bundled_concat, h.emitted, h.out, h.doc]
      by_cases hlen : kept.length = 0
      · obtain rfl := List.length_eq_zero_iff.mp hlen
        simp [Document.bundled]
      · simp [hlen, String.append_assoc]

/-- There is nothing to flush where no line has been collected. -/
theorem flushDoc_idle (h : st.Holds kept []) : st.flushDoc = st := if_pos h.doc

/-- Separators between documents print nothing of their own. -/
theorem separators (h : st.Holds kept []) {lines : List String}
    (hlines : ∀ line ∈ lines, SeparatorLine line) :
    (lines.foldl DocFilter.onRecord st).Holds kept [] := by
  induction lines with
  | nil => exact h
  | cons line lines ih =>
    have hline := isSeparator_iff.mpr (hlines line List.mem_cons_self)
    rw [List.foldl_cons, DocFilter.onRecord, if_pos hline, h.flushDoc_idle]
    exact ih fun l hl => hlines l (List.mem_cons_of_mem _ hl)

/-- The first separator after a document flushes it, and any further ones find nothing. -/
theorem separated {d : Document} (h : st.Holds kept d.lines) {lines : List String}
    (hlines : ∀ line ∈ lines, SeparatorLine line) (hne : lines ≠ []) :
    (lines.foldl DocFilter.onRecord st).Holds (kept ++ [d].filter (·.Kept)) [] := by
  obtain ⟨line, lines, rfl⟩ := List.exists_cons_of_ne_nil hne
  have hline := isSeparator_iff.mpr (hlines line List.mem_cons_self)
  rw [List.foldl_cons, DocFilter.onRecord, if_pos hline]
  exact h.flushDoc.separators fun l hl => hlines l (List.mem_cons_of_mem _ hl)

/-- The lines of a document are collected one by one. -/
theorem collects {lines : List String} (h : st.Holds kept lines) {more : List String}
    (hmore : ∀ line ∈ more, ¬ SeparatorLine line) :
    (more.foldl DocFilter.onRecord st).Holds kept (lines ++ more) := by
  induction more generalizing st lines with
  | nil => simpa using h
  | cons line more ih =>
    have hnext := ih (h.onRecord (hmore line List.mem_cons_self))
      fun l hl => hmore l (List.mem_cons_of_mem _ hl)
    simpa using hnext

theorem document (h : st.Holds kept []) (d : Document) :
    (d.lines.foldl DocFilter.onRecord st).Holds kept d.lines := by
  simpa using h.collects fun line hline => (d.plain line hline).2

/-- A run over joined documents has, once the last one is flushed, printed those that are kept. -/
theorem joined (h : st.Holds kept []) {docs : List Document} {lines : List String}
    (hjoined : Joined docs lines) :
    (lines.foldl DocFilter.onRecord st).flushDoc.Holds (kept ++ docs.filter (·.Kept)) [] := by
  induction hjoined generalizing st kept with
  | last d htrailing =>
    rename_i trailing
    rw [List.foldl_append]
    cases trailing with
    | nil => exact (h.document d).flushDoc
    | cons line trailing =>
      have hend := (h.document d).separated htrailing (by simp)
      rwa [hend.flushDoc_idle]
  | next d hseps hne _ ih =>
    rename_i docs _ _
    rw [List.foldl_append, List.foldl_append]
    have hrest := ih ((h.document d).separated hseps hne)
    rwa [List.append_assoc, ← List.filter_append, List.singleton_append] at hrest

end DocFilter.Holds

/-- `keep_non_crd` prints the kept documents of a bundle, joined by single separators. -/
theorem keepNonCrd_of_bundle {docs : List Document} {lines : List String} {text : String}
    (hbundle : Bundle docs lines) (hwrites : Writes lines text) :
    keepNonCrd text = unlines (Document.bundled (docs.filter (·.Kept))) := by
  rw [keepNonCrd, records_of_writes hwrites hbundle.not_newline]
  cases hbundle with
  | none hleading =>
    have hend := DocFilter.holds_init.separators hleading
    rw [hend.flushDoc_idle]
    exact hend.out
  | some hleading hjoined =>
    rw [List.foldl_append]
    exact ((DocFilter.holds_init.separators hleading).joined hjoined).out

/-! ### What is printed is a bundle again -/

theorem separatorLine_dashes : SeparatorLine "---" := ⟨[], List.forall_mem_nil _, rfl⟩

theorem Joined.bundled {docs : List Document} (hne : docs ≠ []) :
    Joined docs (Document.bundled docs) := by
  induction docs with
  | nil => exact absurd rfl hne
  | cons d docs ih =>
    cases docs with
    | nil =>
      have hlast : Joined [d] (d.lines ++ []) := .last d (List.forall_mem_nil _)
      simpa [Document.bundled] using hlast
    | cons d' docs =>
      have hdashes : ∀ line ∈ ["---"], SeparatorLine line := by
        simpa using separatorLine_dashes
      have hnext := Joined.next d hdashes (by simp) (ih (by simp))
      simpa [Document.bundled, List.intercalate_cons_cons] using hnext

theorem Bundle.bundled (docs : List Document) : Bundle docs (Document.bundled docs) := by
  cases docs with
  | nil => exact .none (List.forall_mem_nil _)
  | cons d docs => exact .some (List.forall_mem_nil _) (.bundled (by simp))

/-- A line that is no separator occurs in a bundle as often as in its documents. -/
theorem Document.count_bundled (docs : List Document) {line : String} (h : ¬ SeparatorLine line) :
    (Document.bundled docs).count line = (docs.flatMap Document.lines).count line := by
  have hdashes : "---" ≠ line := by
    rintro rfl
    exact h separatorLine_dashes
  induction docs with
  | nil => rfl
  | cons d docs ih =>
    cases docs with
    | nil => simp [Document.bundled]
    | cons d' docs => simp_all [Document.bundled, List.intercalate_cons_cons, List.count_append]

theorem Document.flatMap_kept (docs : List Document) :
    (docs.filter (·.Kept)).flatMap Document.lines =
      (docs.filter (¬ ·.IsCrd)).flatMap Document.lines := by
  induction docs with
  | nil => rfl
  | cons d docs ih =>
    by_cases hcrd : d.IsCrd
    · have hkept : ¬ d.Kept := fun h => h.2 hcrd
      simpa [hkept, hcrd] using ih
    · by_cases hempty : d.lines = []
      · have hkept : ¬ d.Kept := fun h => h.1 hempty
        simpa [hkept, hcrd, hempty] using ih
      · have hkept : d.Kept := ⟨hempty, hcrd⟩
        simpa [hkept, hcrd] using ih

/-- For every bundle of documents, however it is separated: `keep_non_crd` prints the non-empty
    documents that are no CRD, as they are and in order, joined by single `---` lines.  What stands
    in a CRD document does not come out: no printed line makes a document a CRD, and each line is
    printed as often as it stands in the other documents.  Filtering once more changes nothing. -/
theorem keepNonCrd_drops_exactly_the_crds {docs : List Document} {lines : List String}
    {text : String} (hbundle : Bundle docs lines) (hwrites : Writes lines text) :
    keepNonCrd text = unlines (Document.bundled (docs.filter (·.Kept))) ∧
    records (keepNonCrd text) = Document.bundled (docs.filter (·.Kept)) ∧
    (∀ line ∈ records (keepNonCrd text), ¬ CrdLine line) ∧
    (∀ line, ¬ SeparatorLine line → (records (keepNonCrd text)).count line =
      ((docs.filter (¬ ·.IsCrd)).flatMap Document.lines).count line) ∧
    keepNonCrd (keepNonCrd text) = keepNonCrd text := by
  have hout := keepNonCrd_of_bundle hbundle hwrites
  have hagain := Bundle.bundled (docs.filter (·.Kept))
  have hrecords := records_of_writes (.ended _) hagain.not_newline
  rw [hout, hrecords]
  have hcount : ∀ line, ¬ SeparatorLine line →
      (Document.bundled (docs.filter (·.Kept))).count line =
        ((docs.filter (¬ ·.IsCrd)).flatMap Document.lines).count line := by
    intro line hline
    rw [Document.count_bundled _ hline, Document.flatMap_kept]
  refine ⟨rfl, rfl, ?_, hcount, ?_⟩
  · intro line hmem hcrd
    have hline : ¬ SeparatorLine line := hcrd.not_separatorLine
    have hpos := List.count_pos_iff.mpr hmem
    rw [hcount line hline, List.count_pos_iff, List.mem_flatMap] at hpos
    obtain ⟨d, hd, hmem⟩ := hpos
    have hkept : ¬ d.IsCrd := by simpa using (List.mem_filter.mp hd).2
    exact hkept ⟨line, hmem, hcrd⟩
  · rw [keepNonCrd_of_bundle hagain (.ended _), List.filter_filter]
    simp

/-- A bundle that opens with a separator, has an empty document between two separators and ends in
    a CRD whose last line lacks its newline. -/
theorem keepNonCrd_namespace_and_crd :
    ∃ docs lines, Bundle docs lines ∧
      Writes lines "---\nkind: Namespace\n---\n--- \nkind: CustomResourceDefinition\nname: realms" ∧
      keepNonCrd "---\nkind: Namespace\n---\n--- \nkind: CustomResourceDefinition\nname: realms" =
        "kind: Namespace\n" := by
  let namespaced : Document := ⟨["kind: Namespace"], by decide⟩
  let realms : Document := ⟨["kind: CustomResourceDefinition", "name: realms"], by decide⟩
  have hlast : Joined [realms] (realms.lines ++ []) := .last realms (List.forall_mem_nil _)
  have hseparators : ∀ line ∈ ["---", "--- "], SeparatorLine line := by decide
  have hleading : ∀ line ∈ ["---"], SeparatorLine line := by decide
  have hbundle := Bundle.some hleading (.next namespaced hseparators (by simp) hlast)
  have hwrites := Writes.unended
    ["---", "kind: Namespace", "---", "--- ", "kind: CustomResourceDefinition"]
    (by decide : "name: realms" ≠ "")
  exact ⟨_, _, hbundle, hwrites, (keepNonCrd_drops_exactly_the_crds hbundle hwrites).1⟩

/-! ### Every text is a bundle -/

theorem toList_unlines_append (init : List (List Char)) (last : List Char) :
    (unlines (init.map String.ofList)).toList ++ last = ['\n'].intercalate (init ++ [last]) := by
  have hnewline : "\n".toList = ['\n'] := by decide
  induction init with
  | nil => simp
  | cons line init ih =>
    cases init with
    | nil => simp [hnewline]
    | cons line' init => simp_all [List.intercalate_cons_cons]

theorem writes_records (text : String) : Writes (records text) text := by
  obtain ⟨init, last, hsplit⟩ : ∃ init last, text.toList.splitOn '\n' = init ++ [last] :=
    ⟨_, _, (List.dropLast_append_getLast (List.splitOn_ne_nil _ _)).symm⟩
  have htext : text = unlines (init.map String.ofList) ++ String.ofList last := by
    rw [← String.toList_inj, String.toList_append, String.toList_ofList, toList_unlines_append,
      ← hsplit, List.intercalate_splitOn]
  by_cases hlast : last = []
  · have hrecords : records text = init.map String.ofList := by simp [records, hsplit, hlast]
    rw [hrecords, htext, hlast]
    simpa using Writes.ended (init.map String.ofList)
  · have hne : String.ofList last ≠ "" := by simpa using hlast
    have hrecords : records text = init.map String.ofList ++ [String.ofList last] := by
      simp [records, hsplit, hlast]
    rw [hrecords, htext]
    exact .unended _ hne

theorem notMem_of_mem_splitOn {cs piece : List Char} {c : Char} (h : piece ∈ cs.splitOn c) :
    c ∉ piece := by
  induction cs generalizing piece with
  | nil => simp_all
  | cons x cs ih =>
    rw [List.splitOn_cons_eq_if_modifyHead] at h
    split at h
    · rcases List.mem_cons.mp h with rfl | h
      · simp
      · exact ih h
    · rename_i hx
      obtain ⟨first, rest, hsplit⟩ := List.exists_cons_of_ne_nil (List.splitOn_ne_nil c cs)
      rw [hsplit, List.modifyHead_cons] at h
      rcases List.mem_cons.mp h with rfl | h
      · have hfirst : c ∉ first := ih (hsplit ▸ List.mem_cons_self)
        have hne : c ≠ x := fun heq => hx (beq_iff_eq.mpr heq.symm)
        exact List.not_mem_cons_of_ne_of_not_mem hne hfirst
      · exact ih (hsplit ▸ List.mem_cons_of_mem _ h)

theorem not_newline_of_mem_records {text line : String} (h : line ∈ records text) :
    '\n' ∉ line.toList := by
  have hmem : line ∈ (text.toList.splitOn '\n').map String.ofList := by
    rw [records] at h
    split at h
    · exact (List.dropLast_sublist _).subset h
    · exact h
  obtain ⟨piece, hpiece, rfl⟩ := List.mem_map.mp hmem
  rw [String.toList_ofList]
  exact notMem_of_mem_splitOn hpiece

theorem Joined.cons {docs : List Document} {lines : List String} (h : Joined docs lines)
    {line : String} (hnewline : '\n' ∉ line.toList) : ∃ docs', Joined docs' (line :: lines) := by
  by_cases hline : SeparatorLine line
  · have hseparator : ∀ l ∈ [line], SeparatorLine l := by simpa using hline
    have hnext := Joined.next ⟨[], List.forall_mem_nil _⟩ hseparator (by simp) h
    exact ⟨_, hnext⟩
  · have hplain : ∀ d : Document, ∀ l ∈ line :: d.lines, '\n' ∉ l.toList ∧ ¬ SeparatorLine l := by
      intro d l hl
      rcases List.mem_cons.mp hl with rfl | hl
      · exact ⟨hnewline, hline⟩
      · exact d.plain l hl
    cases h with
    | last d htrailing => exact ⟨_, .last ⟨line :: d.lines, hplain d⟩ htrailing⟩
    | next d hseps hne hrest => exact ⟨_, .next ⟨line :: d.lines, hplain d⟩ hseps hne hrest⟩

/-- Every text can be read as a bundle, so what is said of bundles is said of every input. -/
theorem exists_bundle (text : String) :
    ∃ docs lines, Bundle docs lines ∧ Writes lines text := by
  have hjoined : ∀ lines : List String, (∀ line ∈ lines, '\n' ∉ line.toList) →
      ∃ docs, Joined docs lines := by
    intro lines hlines
    induction lines with
    | nil => exact ⟨[⟨[], List.forall_mem_nil _⟩], .last ⟨[], List.forall_mem_nil _⟩ (List.forall_mem_nil _)⟩
    | cons line lines ih =>
      obtain ⟨docs, hdocs⟩ := ih fun l hl => hlines l (List.mem_cons_of_mem _ hl)
      exact hdocs.cons (hlines line List.mem_cons_self)
  obtain ⟨docs, hdocs⟩ := hjoined (records text) fun _ => not_newline_of_mem_records
  exact ⟨docs, _, .some (List.forall_mem_nil _) hdocs, writes_records text⟩

end KeycloakOperator
