import KeycloakOperator.Concurrency
import KeycloakOperator.Installer

/-!
# What the installer does to a cluster

The commands of the script are taken one by one, with the log of what was done before.  A stage that
gets to its end leaves something known about the files and the log (`Reaches`), and what is known of
a log stays known.

* Whatever kubectl is given has been checked: `only_verified_bundles`.
* The cluster is changed only in the way the arguments ask for: `changes_as_asked`.

The script does not tell failures from absence.  A list of checksums or a signature that cannot be
downloaded counts as one that the release does not have, and a `kubectl get` that fails prints no
label and no image.
-/

namespace KeycloakOperator.Installer

open Prog

open Function (update)

/-! ### What the log of a run tells -/

def Did (log : List InstallStep) (op : InstallOp) (answer : op.Answer) : Prop :=
  ∃ s t, (⟨s, op, answer, t⟩ : InstallStep) ∈ log

def Downloaded (log : List InstallStep) (url file content : String) : Prop :=
  ∃ s t, (⟨s, .download url file, true, t⟩ : InstallStep) ∈ log ∧ t file = some content

/-- Plain semver tags, without build metadata. -/
def ValidTag (tag : String) : Prop :=
  ∃ major minor patch ending : List Char,
    (major ≠ [] ∧ ∀ c ∈ major, c.isDigit) ∧ (minor ≠ [] ∧ ∀ c ∈ minor, c.isDigit) ∧
    (patch ≠ [] ∧ ∀ c ∈ patch, c.isDigit) ∧
    (ending = [] ∨ ∃ suffix, suffix ≠ [] ∧ (∀ c ∈ suffix, isTagChar c) ∧ ending = '-' :: suffix) ∧
    tag.toList = 'v' :: (major ++ '.' :: (minor ++ '.' :: (patch ++ ending)))

/-- The tag is the one asked for, or that of the latest release. -/
def Resolved (o : Options) (tag : String) (log : List InstallStep) : Prop :=
  (o.targetTag = "" ∧
      ∃ response, Did log (.fetch latestUrl) (some response) ∧ tag = withV (tagName response)) ∨
    (o.targetTag ≠ "" ∧ tag = withV o.targetTag)

/-- The signature of the checksums was good, unless cosign is missing or the signature could not be
    downloaded. -/
def SignatureChecked (tag sums : String) (log : List InstallStep) : Prop :=
  Did log (.hasCommand "cosign") false ∨
    Did log (.download (assetUrl tag signatureName) signatureName) false ∨
    ∃ s t, (⟨s, .verifyBlob signatureName sumsName, true, t⟩ : InstallStep) ∈ log ∧
      s sumsName = some sums

/-- The bundle of the release is listed with its own checksum, unless the checksums could not be
    downloaded and the user accepts that. -/
def Verified (sha256 : String → String) (o : Options) (tag content : String)
    (log : List InstallStep) : Prop :=
  ValidTag tag ∧ Resolved o tag log ∧
    Downloaded log (assetUrl tag (bundleName tag)) (bundleName tag) content ∧
    ((∃ sums, Downloaded log (assetUrl tag sumsName) sumsName sums ∧
        listedDigest (bundleName tag) sums = sha256 content ∧ SignatureChecked tag sums log) ∨
      (o.allowUnverified = true ∧ Did log (.download (assetUrl tag sumsName) sumsName) false))

/-- kubectl was asked for the deployments of the operator, and the first label that it printed, if any,
    is not Helm's. -/
def NotHelm (log : List InstallStep) : Prop :=
  ∃ labels, Did log .managedBy labels ∧ labels.headD "" ≠ "Helm"

/-- The user has agreed. -/
def Consented (o : Options) (log : List InstallStep) : Prop :=
  o.assumeYes = true ∨ ∃ reply, Did log .confirm (some reply) ∧ agrees reply = true

/-- The bundle is asked to be applied; an upgrade goes by the image that kubectl printed. -/
def MayApply (o : Options) (tag : String) (log : List InstallStep) : Prop :=
  o.command = .install ∨
    (o.command = .upgrade ∧ ∃ image, Did log .image image ∧ imageVersion image ≠ withoutV tag)

/-- What the script may do with these options after what it has done. -/
def Permitted (sha256 : String → String) (o : Options) (op : InstallOp)
    (s : Files × List InstallStep) : Prop :=
  match op with
  | .apply dryRun file => dryRun = o.dryRun ∧ NotHelm s.2 ∧
      ∃ tag content, Verified sha256 o tag content s.2 ∧ s.1 file = some content ∧ MayApply o tag s.2
  | .delete dryRun file => dryRun = o.dryRun ∧ NotHelm s.2 ∧ o.command = .uninstall ∧
      (dryRun = false → Consented o s.2) ∧
      ∃ tag content, Verified sha256 o tag content s.2 ∧ s.1 file = some (keepNonCrd content)
  | .deleteCrds names => o.dryRun = false ∧ NotHelm s.2 ∧ o.command = .uninstall ∧
      o.purgeCrds = true ∧ Consented o s.2 ∧ names = crdNames ∧
      Did s.2 (.delete false nonCrdName) true
  | _ => True

section Log

variable {log log' : List InstallStep}

theorem Did.mono {op : InstallOp} {answer : op.Answer} (h : Did log op answer) (hsub : log ⊆ log') :
    Did log' op answer := by
  obtain ⟨s, t, hmem⟩ := h
  exact ⟨s, t, hsub hmem⟩

theorem Downloaded.mono {url file content : String} (h : Downloaded log url file content)
    (hsub : log ⊆ log') : Downloaded log' url file content := by
  obtain ⟨s, t, hmem, hfile⟩ := h
  exact ⟨s, t, hsub hmem, hfile⟩

theorem Resolved.mono {o : Options} {tag : String} (h : Resolved o tag log) (hsub : log ⊆ log') :
    Resolved o tag log' := by
  rcases h with ⟨hlatest, response, hfetch, htag⟩ | hasked
  · exact .inl ⟨hlatest, response, hfetch.mono hsub, htag⟩
  · exact .inr hasked

theorem SignatureChecked.mono {tag sums : String} (h : SignatureChecked tag sums log)
    (hsub : log ⊆ log') : SignatureChecked tag sums log' := by
  rcases h with h | h | ⟨s, t, hmem, hfile⟩
  · exact .inl (h.mono hsub)
  · exact .inr (.inl (h.mono hsub))
  · exact .inr (.inr ⟨s, t, hsub hmem, hfile⟩)

theorem Verified.mono {sha256 : String → String} {o : Options} {tag content : String}
    (h : Verified sha256 o tag content log) (hsub : log ⊆ log') :
    Verified sha256 o tag content log' := by
  obtain ⟨hvalid, hresolved, hbundle, hsums⟩ := h
  refine ⟨hvalid, hresolved.mono hsub, hbundle.mono hsub, ?_⟩
  rcases hsums with ⟨sums, hsums, hlisted, hsignature⟩ | ⟨hallowed, hnone⟩
  · exact .inl ⟨sums, hsums.mono hsub, hlisted, hsignature.mono hsub⟩
  · exact .inr ⟨hallowed, hnone.mono hsub⟩

theorem NotHelm.mono (h : NotHelm log) (hsub : log ⊆ log') : NotHelm log' := by
  obtain ⟨labels, hlabels, hne⟩ := h
  exact ⟨labels, hlabels.mono hsub, hne⟩

theorem Consented.mono {o : Options} (h : Consented o log) (hsub : log ⊆ log') :
    Consented o log' := by
  rcases h with h | ⟨reply, hreply, hagrees⟩
  · exact .inl h
  · exact .inr ⟨reply, hreply.mono hsub, hagrees⟩

end Log

/-! ### Rules for the script -/

/-- With these options the script does only what is permitted, and if it gets to its end, something is
    known there. -/
def Reaches (sha256 : String → String) (o : Options) (p : Script α) (s : Files)
    (log : List InstallStep) (done : α → Files → List InstallStep → Prop) : Prop :=
  wp (Host sha256).logged (Permitted sha256 o) p.run
    (fun result x => ∀ a, result = .ok a → done a x.1 x.2) (s, log)

section Rules

variable {sha256 : String → String} {o : Options} {s : Files} {log : List InstallStep}
  {done : α → Files → List InstallStep → Prop}

theorem reaches_pure {a : α} (h : done a s log) : Reaches sha256 o (pure a) s log done := by
  intro b hb
  cases hb
  exact h

theorem reaches_throw (exit : Exit) : Reaches sha256 o (throw exit : Script α) s log done := by
  intro a ha
  cases ha

theorem Reaches.bind {p : Script β} {f : β → Script α} {mid : β → Files → List InstallStep → Prop}
    (hp : Reaches sha256 o p s log mid)
    (hf : ∀ b t log', log ⊆ log' → mid b t log' → Reaches sha256 o (f b) t log' done) :
    Reaches sha256 o (p >>= f) s log done := by
  unfold Reaches
  rw [wp_run_bind]
  refine wp_mono (fun result x hx => ?_) (wp_logged_grows hp)
  cases result with
  | error exit => exact fun a ha => by cases ha
  | ok b => exact hf b x.1 x.2 hx.2 (hx.1 b rfl)

theorem Reaches.mono {p : Script α} {mid : α → Files → List InstallStep → Prop}
    (hp : Reaches sha256 o p s log mid)
    (h : ∀ a t log', log ⊆ log' → mid a t log' → done a t log') : Reaches sha256 o p s log done :=
  wp_mono (fun _ x hx a ha => h a x.1 x.2 hx.2 (hx.1 a ha)) (wp_logged_grows hp)

/-- A command. -/
theorem reaches_command {op : InstallOp} {f : op.Answer → Script α}
    (hpermitted : Permitted sha256 o op (s, log))
    (h : ∀ answer t log', log ⊆ log' → Host sha256 op s answer t → ⟨s, op, answer, t⟩ ∈ log' →
      Reaches sha256 o (f answer) t log' done) :
    Reaches sha256 o (perform op >>= f) s log done := by
  unfold Reaches
  rw [wp_run_bind]
  refine ⟨hpermitted, fun answer next hstep => ?_⟩
  obtain ⟨t, log'⟩ := next
  obtain rfl : log' = log ++ [⟨s, op, answer, t⟩] := hstep.2
  exact h answer t _ (List.subset_append_left _ _) hstep.1
    (List.mem_append_right _ (List.mem_singleton.mpr rfl))

/-- A message. -/
theorem reaches_info {text : String} {f : Unit → Script α}
    (h : ∀ log', log ⊆ log' → Reaches sha256 o (f ()) s log' done) :
    Reaches sha256 o (info text >>= f) s log done :=
  reaches_command trivial fun _ _ log' hsub hstep _ => by
    cases hstep
    exact h log' hsub

theorem reaches_must {ok : Bool} {f : Unit → Script α}
    (h : ok = true → Reaches sha256 o (f ()) s log done) :
    Reaches sha256 o (must ok >>= f) s log done := by
  cases ok with
  | false => exact reaches_throw .stopped
  | true => exact h rfl

theorem reaches_output {answer : Option β} {f : β → Script α}
    (h : ∀ b, answer = some b → Reaches sha256 o (f b) s log done) :
    Reaches sha256 o (output answer >>= f) s log done := by
  cases answer with
  | none => exact reaches_throw .stopped
  | some b => exact h b rfl

theorem reaches_must_end (ok : Bool) : Reaches sha256 o (must ok) s log fun _ _ _ => True := by
  cases ok with
  | false => exact reaches_throw .stopped
  | true => exact reaches_pure trivial

/-- What remains when nothing more has to be known. -/
theorem reaches_end {op : InstallOp} {f : op.Answer → Script Unit}
    (hpermitted : Permitted sha256 o op (s, log))
    (h : ∀ answer t log', Reaches sha256 o (f answer) t log' fun _ _ _ => True) :
    Reaches sha256 o (perform op >>= f) s log fun _ _ _ => True :=
  reaches_command hpermitted fun answer t log' _ _ _ => h answer t log'

end Rules

/-! ### The stages of the script -/

section Stages

variable {sha256 : String → String} {o : Options} {tag : String} {s : Files} {log : List InstallStep}

theorem reaches_resolveLatest :
    Reaches sha256 o resolveLatest s log fun tag _ log' =>
      ∃ response, Did log' (.fetch latestUrl) (some response) ∧ tag = tagName response := by
  refine reaches_command trivial fun answer t log' _ _ hmem => ?_
  cases answer with
  | none => exact reaches_throw _
  | some response =>
    dsimp only
    split
    · exact reaches_throw _
    · exact reaches_pure ⟨response, ⟨_, _, hmem⟩, rfl⟩

theorem reaches_targetTag :
    Reaches sha256 o (targetTag o) s log fun tag _ log' => Resolved o tag log' := by
  unfold targetTag
  split
  · next hlatest =>
    refine reaches_info fun log₁ _ => reaches_resolveLatest.bind ?_
    rintro tag t log' - ⟨response, hfetch, rfl⟩
    exact reaches_pure (.inl ⟨hlatest, response, hfetch, rfl⟩)
  · next hasked => exact reaches_pure (.inr ⟨hasked, rfl⟩)

theorem skipNumber_eq_some {cs rest : List Char} (h : skipNumber cs = some rest) :
    ∃ digits, digits ≠ [] ∧ (∀ c ∈ digits, c.isDigit) ∧ cs = digits ++ rest := by
  unfold skipNumber at h
  split at h
  · cases h
  · next hdigits =>
    refine ⟨cs.takeWhile Char.isDigit, hdigits, List.all_eq_true.mp (by simp), ?_⟩
    rw [← Option.some.inj h, List.takeWhile_append_dropWhile]

theorem skipDot_eq_some {cs rest : List Char} (h : skipDot cs = some rest) : cs = '.' :: rest := by
  unfold skipDot at h
  split at h
  · rw [Option.some.inj h]
  · cases h

theorem validTag_of_isValidTag (h : isValidTag tag = true) : ValidTag tag := by
  unfold isValidTag at h
  split at h
  · next cs htag =>
    cases hversion : skipVersion cs with
    | none => simp [hversion] at h
    | some ending =>
      rw [hversion] at h
      simp only [skipVersion, Option.bind_eq_bind, Option.bind_eq_some_iff] at hversion
      obtain ⟨cs₁, hmajor, cs₂, hdot, cs₃, hminor, cs₄, hdot', hpatch⟩ := hversion
      obtain ⟨major, hne₁, hdigits₁, rfl⟩ := skipNumber_eq_some hmajor
      obtain rfl := skipDot_eq_some hdot
      obtain ⟨minor, hne₂, hdigits₂, rfl⟩ := skipNumber_eq_some hminor
      obtain rfl := skipDot_eq_some hdot'
      obtain ⟨patch, hne₃, hdigits₃, rfl⟩ := skipNumber_eq_some hpatch
      refine ⟨major, minor, patch, ending, ⟨hne₁, hdigits₁⟩, ⟨hne₂, hdigits₂⟩, ⟨hne₃, hdigits₃⟩, ?_,
        htag⟩
      simp only [Option.elim_some] at h
      unfold isTagEnd at h
      split at h
      · exact .inl rfl
      · next suffix =>
        simp only [ne_eq, decide_not, Bool.and_eq_true, Bool.not_eq_true', decide_eq_false_iff_not,
          List.all_eq_true] at h
        exact .inr ⟨suffix, h.1, h.2, rfl⟩
      · cases h
  · cases h

theorem reaches_validateTag :
    Reaches sha256 o (validateTag tag) s log fun _ t log' => t = s ∧ log' = log ∧ ValidTag tag := by
  unfold validateTag
  cases hvalid : isValidTag tag with
  | false => exact reaches_throw _
  | true => exact reaches_pure ⟨rfl, rfl, validTag_of_isValidTag hvalid⟩

/-- What a command that may fail tells when it does not. -/
theorem eq_of_answer {answer : Option String} {found told : String}
    (h : answer = none ∨ answer = some told) (hfound : answer = some found) : found = told := by
  rcases h with h | h
  · rw [h] at hfound
    cases hfound
  · rw [h] at hfound
    exact (Option.some.inj hfound).symm

/-- The checksum that is listed for the bundle is its own. -/
theorem reaches_checkDigest {content sums : String} (hbundle : s (bundleName tag) = some content)
    (hsums : s sumsName = some sums) :
    Reaches sha256 o (checkDigest tag) s log fun _ t _ =>
      t = s ∧ listedDigest (bundleName tag) sums = sha256 content := by
  refine reaches_command trivial fun answer t₁ log₁ _ hread _ => ?_
  obtain ⟨rfl, hread⟩ := hread
  refine reaches_output fun found hfound => ?_
  rw [hsums] at hread
  obtain rfl := eq_of_answer hread hfound
  dsimp only
  split
  · exact reaches_throw _
  refine reaches_command trivial fun answer t₂ log₂ _ hdigest _ => ?_
  obtain ⟨rfl, hdigest⟩ := hdigest
  refine reaches_output fun actual hactual => ?_
  rw [hbundle] at hdigest
  obtain rfl := eq_of_answer hdigest hactual
  split
  · exact reaches_command trivial fun _ _ _ _ _ _ => reaches_throw _
  · next hequal =>
    exact reaches_info fun _ _ => reaches_pure ⟨rfl, not_not.mp hequal⟩

theorem bundleName_ne {name : String} (tag : String) (h : name.toList.head? ≠ some 'i') :
    bundleName tag ≠ name := by
  rintro rfl
  exact h (by simp [bundleName])

theorem reaches_checkSignature {sums : String} (hsums : s sumsName = some sums) :
    Reaches sha256 o (checkSignature tag) s log fun _ t log' =>
      t (bundleName tag) = s (bundleName tag) ∧ SignatureChecked tag sums log' := by
  refine reaches_command trivial fun installed t₁ log₁ _ hstep₁ hmem₁ => ?_
  cases hstep₁
  cases installed with
  | false =>
    refine reaches_info fun log₂ hsub₂ => reaches_pure ⟨rfl, .inl ⟨_, _, hsub₂ hmem₁⟩⟩
  | true =>
    refine reaches_command trivial fun published t₂ log₂ _ hstep₂ hmem₂ => ?_
    obtain ⟨content, rfl⟩ := hstep₂
    have hbundle : update s signatureName (some content) (bundleName tag) = s (bundleName tag) :=
      Function.update_of_ne (bundleName_ne tag (by decide)) _ _
    cases published with
    | false =>
      refine reaches_info fun log₃ hsub₃ => ?_
      exact reaches_pure ⟨hbundle, .inr (.inl ⟨_, _, hsub₃ hmem₂⟩)⟩
    | true =>
      refine reaches_command trivial fun good t₃ log₃ _ hstep₃ hmem₃ => ?_
      cases hstep₃
      cases good with
      | false => exact reaches_throw _
      | true =>
        refine reaches_info fun log₄ hsub₄ => ?_
        refine reaches_pure ⟨hbundle, .inr (.inr ⟨_, _, hsub₄ hmem₃, ?_⟩)⟩
        rw [Function.update_of_ne (by decide), hsums]

/-- The bundle is downloaded and checked. -/
theorem reaches_fetchBundle (hvalid : ValidTag tag) (hresolved : Resolved o tag log) :
    Reaches sha256 o (fetchBundle o tag) s log fun _ t log' =>
      ∃ content, t (bundleName tag) = some content ∧ Verified sha256 o tag content log' := by
  refine reaches_info fun log₀ hsub₀ => ?_
  refine reaches_command trivial fun found t₁ log₁ hsub₁ hstep₁ hmem₁ => ?_
  obtain ⟨content, rfl⟩ := hstep₁
  cases found with
  | false => exact reaches_throw _
  | true =>
    have hbundle : Downloaded log₁ (assetUrl tag (bundleName tag)) (bundleName tag) content :=
      ⟨_, _, hmem₁, Function.update_self ..⟩
    refine reaches_command trivial fun listed t₂ log₂ hsub₂ hstep₂ hmem₂ => ?_
    obtain ⟨sums, rfl⟩ := hstep₂
    have hresolved := ((hresolved.mono hsub₀).mono hsub₁).mono hsub₂
    have hbundle := hbundle.mono hsub₂
    have hfile : update (update s (bundleName tag) (some content)) sumsName (some sums)
        (bundleName tag) = some content := by
      rw [Function.update_of_ne (bundleName_ne tag (by decide)), Function.update_self]
    cases listed with
    | false =>
      simp only [Bool.not_false, if_true]
      split
      · next hallowed =>
        refine reaches_info fun log₃ hsub₃ => reaches_pure ⟨content, hfile, hvalid,
          hresolved.mono hsub₃, hbundle.mono hsub₃, .inr ⟨hallowed, _, _, hsub₃ hmem₂⟩⟩
      · exact reaches_throw _
    | true =>
      have hsums : Downloaded log₂ (assetUrl tag sumsName) sumsName sums :=
        ⟨_, _, hmem₂, Function.update_self ..⟩
      refine (reaches_checkDigest hfile (Function.update_self ..)).bind ?_
      rintro _ t₃ log₃ hsub₃ ⟨rfl, hlisted⟩
      refine (reaches_checkSignature (Function.update_self ..)).mono ?_
      rintro _ t log' hsub' ⟨hsame, hsignature⟩
      have hsub := List.Subset.trans hsub₃ hsub'
      exact ⟨content, hsame.trans hfile, hvalid, hresolved.mono hsub, hbundle.mono hsub,
        .inl ⟨sums, hsums.mono hsub, hlisted, hsignature⟩⟩

theorem reaches_helmManagedLabel :
    Reaches sha256 o helmManagedLabel s log fun label t log' =>
      t = s ∧ (label ≠ "Helm" → NotHelm log') :=
  reaches_command trivial fun labels _ _ _ hstep hmem =>
    reaches_pure ⟨hstep, fun hne => ⟨labels, ⟨_, _, hmem⟩, hne⟩⟩

/-! ### The commands -/

/-- The rest of a command hands nothing more to kubectl. -/
theorem reaches_rollOut {bundle : String}
    (hpermitted : Permitted sha256 o (.apply false bundle) (s, log)) :
    Reaches sha256 o (rollOut bundle) s log fun _ _ _ => True :=
  reaches_end hpermitted fun _ _ _ => reaches_must fun _ => reaches_info fun _ _ =>
    reaches_end trivial fun ok _ _ => reaches_must_end ok

/-- The bundle is applied, for real or not. -/
theorem reaches_applyBundle {rest : Script Unit} {content : String} (hhelm : NotHelm log)
    (hverified : Verified sha256 o tag content log) (hfile : s (bundleName tag) = some content)
    (hmay : MayApply o tag log)
    (hrest : ∀ t log', Reaches sha256 o rest t log' fun _ _ _ => True) :
    Reaches sha256 o
      (if o.dryRun then do must (← perform (.apply true (bundleName tag)))
        else do
          rollOut (bundleName tag)
          rest) s log fun _ _ _ => True := by
  have hpermitted : ∀ dryRun, dryRun = o.dryRun →
      Permitted sha256 o (.apply dryRun (bundleName tag)) (s, log) :=
    fun dryRun hdry => ⟨hdry, hhelm, tag, content, hverified, hfile, hmay⟩
  split
  · next hdry => exact reaches_end (hpermitted true hdry.symm) fun ok _ _ => reaches_must_end ok
  · next hdry =>
    have hdry : false = o.dryRun := by simpa using hdry
    exact (reaches_rollOut (hpermitted false hdry)).bind fun _ t log' _ _ => hrest t log'

theorem reaches_info_end (text : String) :
    Reaches sha256 o (info text) s log fun _ _ _ => True :=
  reaches_info (f := pure) fun _ _ => reaches_pure trivial

theorem reaches_cmdInstall {content : String} (hcommand : o.command = .install)
    (hverified : Verified sha256 o tag content log) (hfile : s (bundleName tag) = some content) :
    Reaches sha256 o (cmdInstall o tag (bundleName tag)) s log fun _ _ _ => True := by
  refine reaches_helmManagedLabel.bind ?_
  rintro label t log₁ hsub₁ ⟨rfl, hhelm⟩
  dsimp only
  split
  · exact reaches_throw _
  · next hne =>
    refine reaches_info fun log₂ hsub₂ => ?_
    exact reaches_applyBundle ((hhelm hne).mono hsub₂) ((hverified.mono hsub₁).mono hsub₂) hfile
      (.inl hcommand) fun _ _ => reaches_info fun _ _ => reaches_info_end _

theorem reaches_installedVersion :
    Reaches sha256 o installedVersion s log fun version t log' =>
      t = s ∧ ∃ image, Did log' .image image ∧ version = imageVersion image :=
  reaches_command trivial fun image _ _ _ hstep hmem =>
    reaches_pure ⟨hstep, image, ⟨_, _, hmem⟩, rfl⟩

theorem withoutV_ne_empty (h : ValidTag tag) : withoutV tag ≠ "" := by
  obtain ⟨major, minor, patch, ending, ⟨hmajor, -⟩, -, -, -, htag⟩ := h
  obtain ⟨c, cs, rfl⟩ := List.exists_cons_of_ne_nil hmajor
  simp [withoutV, htag]

theorem reaches_cmdUpgrade {content : String} (hcommand : o.command = .upgrade)
    (hverified : Verified sha256 o tag content log) (hfile : s (bundleName tag) = some content) :
    Reaches sha256 o (cmdUpgrade o tag (bundleName tag)) s log fun _ _ _ => True := by
  refine reaches_helmManagedLabel.bind ?_
  rintro label t log₁ hsub₁ ⟨rfl, hhelm⟩
  dsimp only
  split
  · exact reaches_throw _
  next hne =>
  refine reaches_installedVersion.bind ?_
  rintro current t log₂ hsub₂ ⟨rfl, image, himage, rfl⟩
  split
  · exact reaches_info_end _
  · next hdiffers =>
    have hdiffers : imageVersion image ≠ withoutV tag := by
      intro h
      exact hdiffers ⟨h ▸ withoutV_ne_empty hverified.1, h⟩
    have happly : ∀ log', log₂ ⊆ log' → Reaches sha256 o
        (if o.dryRun then do must (← perform (.apply true (bundleName tag)))
          else do
            rollOut (bundleName tag)
            info ("keycloak-operator is now at " ++ withoutV tag ++ ".")) t log'
        fun _ _ _ => True := fun log' hsub' =>
      reaches_applyBundle (((hhelm hne).mono hsub₂).mono hsub')
        (((hverified.mono hsub₁).mono hsub₂).mono hsub') hfile
        (.inr ⟨hcommand, image, himage.mono hsub', hdiffers⟩) fun _ _ => reaches_info_end _
    split
    · exact reaches_info happly
    · exact reaches_info happly

/-- The user agrees, or nothing is done for real. -/
theorem reaches_confirmed :
    Reaches sha256 o (confirmed o) s log fun go t log' =>
      t = s ∧ (go = true → o.dryRun = false → Consented o log') := by
  have hprompt : ∀ log', Reaches sha256 o
      (do
        let reply ← output (← perform .confirm)
        if agrees reply then return true
        else
          info "Aborted."
          return false) s log'
      fun go t log' => t = s ∧ (go = true → o.dryRun = false → Consented o log') := by
    intro log'
    refine reaches_command trivial fun answer t₂ log₂ _ hstep₂ hmem₂ => ?_
    cases hstep₂
    refine reaches_output fun reply hreply => ?_
    subst hreply
    split
    · next hagrees =>
      exact reaches_pure ⟨rfl, fun _ _ => .inr ⟨reply, ⟨_, _, hmem₂⟩, hagrees⟩⟩
    · exact reaches_info fun _ _ => reaches_pure ⟨rfl, fun h => by cases h⟩
  unfold confirmed
  split
  · next hskip =>
    refine reaches_pure ⟨rfl, fun _ hdry => .inl ?_⟩
    rw [hdry] at hskip
    simpa using hskip
  · split
    · exact reaches_info fun _ _ => reaches_info fun log₂ _ => hprompt log₂
    · exact hprompt log

/-- What an uninstallation needs to know about its log. -/
structure MayRemove (o : Options) (log : List InstallStep) : Prop where
  command : o.command = .uninstall
  notHelm : NotHelm log
  consented : o.dryRun = false → Consented o log

theorem MayRemove.mono {log' : List InstallStep} (h : MayRemove o log) (hsub : log ⊆ log') :
    MayRemove o log' :=
  ⟨h.command, h.notHelm.mono hsub, fun hdry => (h.consented hdry).mono hsub⟩

theorem reaches_purgeCrds (hmay : MayRemove o log) (hdry : o.dryRun = false)
    (hdeleted : Did log (.delete false nonCrdName) true) :
    Reaches sha256 o (purgeCrds o) s log fun _ _ _ => True := by
  unfold purgeCrds
  split
  · next hpurge =>
    refine reaches_info fun log₁ hsub₁ => ?_
    have hmay₁ := hmay.mono hsub₁
    exact reaches_end ⟨hdry, hmay₁.notHelm, hmay₁.command, hpurge, hmay₁.consented hdry, rfl,
      hdeleted.mono hsub₁⟩ fun ok _ _ => reaches_must_end ok
  · exact reaches_info fun _ _ => reaches_info_end _

/-- What is in the bundle is removed without its CRDs, and these after it. -/
theorem reaches_removeResources {content : String} (hmay : MayRemove o log)
    (hverified : Verified sha256 o tag content log)
    (hfile : s nonCrdName = some (keepNonCrd content)) :
    Reaches sha256 o (removeResources o) s log fun _ _ _ => True := by
  have hpermitted : ∀ dryRun log', dryRun = o.dryRun → log ⊆ log' →
      Permitted sha256 o (.delete dryRun nonCrdName) (s, log') := fun dryRun log' hdry hsub =>
    ⟨hdry, (hmay.mono hsub).notHelm, hmay.command, hdry ▸ (hmay.mono hsub).consented, tag, content,
      hverified.mono hsub, hfile⟩
  unfold removeResources
  split
  · next hdry =>
    refine reaches_info fun log₁ hsub₁ => ?_
    refine reaches_end (hpermitted true log₁ hdry.symm hsub₁) fun _ _ _ => reaches_must fun _ => ?_
    split
    · exact reaches_info fun _ _ => reaches_end trivial fun ok _ _ => reaches_must_end ok
    · exact reaches_pure trivial
  · next hdry =>
    have hdry : o.dryRun = false := by simpa using hdry
    refine reaches_info fun log₁ hsub₁ => ?_
    refine reaches_command (hpermitted false log₁ hdry.symm hsub₁) fun ok t log₂ hsub₂ _ hmem => ?_
    refine reaches_must fun hok => ?_
    subst hok
    exact (reaches_purgeCrds ((hmay.mono hsub₁).mono hsub₂) hdry ⟨_, _, hmem⟩).bind
      fun _ _ _ _ _ => reaches_info_end _

theorem reaches_remove {content : String} (hmay : MayRemove o log)
    (hverified : Verified sha256 o tag content log) (hfile : s (bundleName tag) = some content) :
    Reaches sha256 o (remove o (bundleName tag)) s log fun _ _ _ => True := by
  refine reaches_command trivial fun answer t₁ log₁ hsub₁ hstep₁ _ => ?_
  obtain ⟨rfl, hread⟩ := hstep₁
  refine reaches_output fun found hfound => ?_
  rw [hfile] at hread
  obtain rfl := eq_of_answer hread hfound
  refine reaches_command trivial fun ok t₂ log₂ hsub₂ hstep₂ _ => reaches_must fun hok => ?_
  subst hok
  obtain rfl : t₂ = update t₁ nonCrdName (some (keepNonCrd found)) := hstep₂
  have hsub := List.Subset.trans hsub₁ hsub₂
  exact reaches_removeResources (hmay.mono hsub) (hverified.mono hsub) (Function.update_self ..)

theorem reaches_cmdUninstall {content : String} (hcommand : o.command = .uninstall)
    (hverified : Verified sha256 o tag content log) (hfile : s (bundleName tag) = some content) :
    Reaches sha256 o (cmdUninstall o (bundleName tag)) s log fun _ _ _ => True := by
  refine reaches_helmManagedLabel.bind ?_
  rintro label t log₁ hsub₁ ⟨rfl, hhelm⟩
  dsimp only
  split
  · exact reaches_throw _
  next hne =>
  refine reaches_confirmed.bind ?_
  rintro go t log₂ hsub₂ ⟨rfl, hgo⟩
  cases go with
  | false => exact reaches_pure trivial
  | true =>
    exact reaches_remove ⟨hcommand, (hhelm hne).mono hsub₂, hgo rfl⟩
      ((hverified.mono hsub₁).mono hsub₂) hfile

/-! ### The whole script -/

theorem reaches_runCommand : Reaches sha256 o (runCommand o) s log fun _ _ _ => True := by
  refine reaches_targetTag.bind fun tag t₁ log₁ _ hresolved => reaches_validateTag.bind ?_
  rintro _ t₂ log₂ - ⟨rfl, rfl, hvalid⟩
  refine (reaches_fetchBundle hvalid hresolved).bind ?_
  rintro _ t₃ log₃ - ⟨content, hfile, hverified⟩
  cases hcommand : o.command with
  | install => exact reaches_cmdInstall hcommand hverified hfile
  | upgrade => exact reaches_cmdUpgrade hcommand hverified hfile
  | uninstall => exact reaches_cmdUninstall hcommand hverified hfile
  | version => exact reaches_pure trivial

theorem reaches_withTemp {body : Script Unit}
    (hbody : ∀ t log', Reaches sha256 o body t log' fun _ _ _ => True) :
    Reaches sha256 o (withTemp body) s log fun _ _ _ => True := by
  refine reaches_end trivial fun _ t log' => reaches_must fun _ => ?_
  refine (wp_bind (p := body.run)).mpr (wp_mono (fun result x _ => ?_) (hbody t log'))
  exact ⟨trivial, fun _ _ _ _ _ => trivial⟩

theorem reaches_printInstalled : Reaches sha256 o printInstalled s log fun _ _ _ => True := by
  refine reaches_end trivial fun installed t log' => ?_
  cases installed with
  | false => exact reaches_info_end _
  | true => exact reaches_command trivial fun _ _ _ _ _ _ => reaches_info_end _

theorem reaches_printLatest : Reaches sha256 o printLatest s log fun _ _ _ => True := by
  have hlatest : Reaches sha256 o resolveLatest s log _ := reaches_resolveLatest
  refine (wp_bind (p := resolveLatest.run)).mpr (wp_mono (fun result x _ => ?_) hlatest)
  have hprint : ∀ text, Reaches sha256 o (perform (.print text)) x.1 x.2 fun _ _ _ => True :=
    reaches_info_end
  cases result <;> exact hprint _

theorem reaches_cmdVersion : Reaches sha256 o cmdVersion s log fun _ _ _ => True :=
  reaches_end trivial fun _ _ _ => reaches_printInstalled.bind fun _ _ _ _ _ => reaches_printLatest

theorem reaches_requireTools (kubectl : String) :
    Reaches sha256 o (requireTools kubectl) s log fun _ _ _ => True := by
  refine reaches_end trivial fun curl _ _ => ?_
  cases curl with
  | false => exact reaches_throw _
  | true =>
    refine reaches_end trivial fun kubectl _ _ => ?_
    cases kubectl with
    | false => exact reaches_throw _
    | true => exact reaches_pure trivial

theorem reaches_requireCluster : Reaches sha256 o requireCluster s log fun _ _ _ => True := by
  refine reaches_end trivial fun ok _ _ => ?_
  cases ok with
  | false => exact reaches_throw _
  | true => exact reaches_pure trivial

/-- The script with arguments that it accepts. -/
theorem reaches_main {kubectl : String} {args : List String}
    (hargs : parseArguments {} args = .parsed o) :
    Reaches sha256 o (main kubectl args) s [] fun _ _ _ => True := by
  unfold main
  rw [hargs]
  dsimp only
  split
  · exact reaches_cmdVersion
  · refine (reaches_requireTools kubectl).bind fun _ _ _ _ _ => ?_
    refine reaches_requireCluster.bind fun _ _ _ _ _ => ?_
    exact reaches_withTemp fun _ _ => reaches_runCommand

end Stages

/-! ### Results -/

section Results

variable {sha256 : String → String} {kubectl : String} {args : List String} {s t : Files}
  {steps first rest : List InstallStep} {step : InstallStep} {result : Option (Except Exit Unit)}

/-- With arguments that are not accepted the script only prints. -/
theorem parsed_of_step
    (h : Exec (Host sha256) (main kubectl args).run s steps t result) (hmem : step ∈ steps)
    (hop : ∀ text, step.op ≠ .print text) : ∃ o, parseArguments {} args = .parsed o := by
  cases hargs : parseArguments {} args with
  | parsed o => exact ⟨o, rfl⟩
  | help | rejected message =>
    have honly : Only (fun op : InstallOp => ∃ text, op = .print text) (main kubectl args).run := by
      unfold main
      rw [hargs]
      first | exact ⟨⟨_, rfl⟩, fun _ => trivial⟩ | trivial
    obtain ⟨text, htext⟩ := h.only honly step hmem
    exact absurd htext (hop text)

theorem permitted_of_step
    (h : Exec (Host sha256) (main kubectl args).run s (first ++ step :: rest) t result)
    (hop : ∀ text, step.op ≠ .print text) :
    ∃ o, parseArguments {} args = .parsed o ∧ Permitted sha256 o step.op (step.before, first) := by
  obtain ⟨o, hargs⟩ := parsed_of_step h (List.mem_append_right _ List.mem_cons_self) hop
  exact ⟨o, hargs, guard_of_logged (reaches_main hargs) h⟩

/-- The operation hands a file to kubectl that is made of the bundle. -/
def InstallOp.Hands (op : InstallOp) (file : String) (made : String → String) : Prop :=
  (∃ dryRun, op = .apply dryRun file ∧ made = id) ∨
    ∃ dryRun, op = .delete dryRun file ∧ made = keepNonCrd

/-- **Only verified bundles.**  Whatever the downloads contain and the commands answer, a file that is
    handed to kubectl holds exactly the bundle that was downloaded for a valid tag, without its CRDs
    when it is deleted; and before that the checksum of these bytes was found in the list of the
    release, with a good signature if there is cosign and a signature was downloaded, unless the list
    could not be downloaded and the user has allowed that. -/
theorem only_verified_bundles
    (h : Exec (Host sha256) (main kubectl args).run s (first ++ step :: rest) t result)
    {file : String} {made : String → String} (hop : step.op.Hands file made) :
    ∃ o tag content, parseArguments {} args = .parsed o ∧ Verified sha256 o tag content first ∧
      step.before file = some (made content) := by
  rcases hop with ⟨dryRun, hop, rfl⟩ | ⟨dryRun, hop, rfl⟩
  · obtain ⟨o, hargs, hpermitted⟩ := permitted_of_step h (by simp [hop])
    rw [hop] at hpermitted
    obtain ⟨-, -, tag, content, hverified, hfile, -⟩ := hpermitted
    exact ⟨o, tag, content, hargs, hverified, hfile⟩
  · obtain ⟨o, hargs, hpermitted⟩ := permitted_of_step h (by simp [hop])
    rw [hop] at hpermitted
    obtain ⟨-, -, -, -, tag, content, hverified, hfile⟩ := hpermitted
    exact ⟨o, tag, content, hargs, hverified, hfile⟩

/-- What the user has asked for. -/
def Asked (o : Options) (op : InstallOp) (log : List InstallStep) : Prop :=
  match op with
  | .apply _ _ => ∃ tag, Resolved o tag log ∧ MayApply o tag log
  | .delete _ _ => o.command = .uninstall ∧ Consented o log
  | .deleteCrds names => o.command = .uninstall ∧ o.purgeCrds = true ∧ Consented o log ∧
      names = crdNames ∧ Did log (.delete false nonCrdName) true
  | _ => False

/-- **Changes as asked.**  The cluster is changed only after all arguments were accepted, without
    `--dry-run`, and when the first label that kubectl printed for the operator's deployments is not
    Helm's: a bundle is applied by `install`, and by `upgrade` when the image that kubectl printed has
    another version; only `uninstall` deletes, once the user has agreed, and the CRDs only with
    `--purge-crds` and after the rest. -/
theorem changes_as_asked
    (h : Exec (Host sha256) (main kubectl args).run s (first ++ step :: rest) t result)
    (hop : step.op.Changes) :
    ∃ o, parseArguments {} args = .parsed o ∧ o.dryRun = false ∧ NotHelm first ∧
      Asked o step.op first := by
  have hprint : ∀ text, step.op ≠ .print text := by
    intro text heq
    rw [heq] at hop
    exact hop
  obtain ⟨o, hargs, hpermitted⟩ := permitted_of_step h hprint
  refine ⟨o, hargs, ?_⟩
  obtain ⟨before, op, answer, after⟩ := step
  cases op with
  | apply dryRun file =>
    obtain ⟨hdry, hhelm, tag, content, hverified, -, hmay⟩ := hpermitted
    exact ⟨hdry ▸ hop, hhelm, tag, hverified.2.1, hmay⟩
  | delete dryRun file =>
    obtain ⟨hdry, hhelm, hcommand, hconsent, -⟩ := hpermitted
    exact ⟨hdry ▸ hop, hhelm, hcommand, hconsent hop⟩
  | deleteCrds names =>
    obtain ⟨hdry, hhelm, hcommand, hpurge, hconsent, hnames, hdeleted⟩ := hpermitted
    exact ⟨hdry, hhelm, hcommand, hpurge, hconsent, hnames, hdeleted⟩
  | _ => exact hop.elim

end Results

/-! ### A run -/

/-- The checksums of a release. -/
def demoSums : String := "c0ffee  install-v0.2.0.yaml\nbadf00d  install.sh\n"

def demoSha256 (_ : String) : String := "c0ffee"

/-- The release lists the checksum of its bundle, cosign is not installed, and everything succeeds up
    to the moment when the bundle is applied. -/
theorem exec_install : ∃ steps t,
    Exec (Host demoSha256) (main "kubectl" ["--version", "0.2.0"]).run (fun _ => none) steps t none ∧
      Did steps (.apply false "install-v0.2.0.yaml") true := by
  let bundled : Files := update (fun _ => none) "install-v0.2.0.yaml" (some "kind: Namespace")
  let listed : Files := update bundled "sha256sums.txt" (some demoSums)
  have h₀ : Leaves (Host demoSha256) (main "kubectl" ["--version", "0.2.0"]).run (fun _ => none) []
      (fun _ => none) _ := .refl _ _
  have h₁ := h₀.next (.hasCommand "curl") true _ rfl rfl
  have h₂ := h₁.next (.hasCommand "kubectl") true _ rfl rfl
  have h₃ := h₂.next .reachable true _ rfl rfl
  have h₄ := h₃.next .makeTemp true _ rfl rfl
  have h₅ := h₄.next (.print _) () _ rfl rfl
  have h₆ := h₅.next (.download _ "install-v0.2.0.yaml") true bundled rfl ⟨_, rfl⟩
  have h₇ := h₆.next (.download _ "sha256sums.txt") true listed rfl ⟨_, rfl⟩
  have h₈ := h₇.next (.read "sha256sums.txt") (some demoSums) listed rfl ⟨rfl, .inr rfl⟩
  have h₉ := h₈.next (.digest "install-v0.2.0.yaml") (some "c0ffee") listed rfl ⟨rfl, .inr rfl⟩
  have h₁₀ := h₉.next (.print _) () _ rfl rfl
  have h₁₁ := h₁₀.next (.hasCommand "cosign") false _ rfl rfl
  have h₁₂ := h₁₁.next (.print _) () _ rfl rfl
  have h₁₃ := h₁₂.next .managedBy [] _ rfl rfl
  have h₁₄ := h₁₃.next (.print _) () _ rfl rfl
  have h₁₅ := h₁₄.next (.apply false "install-v0.2.0.yaml") true _ rfl rfl
  refine ⟨_, _, h₁₅.exec_cut, listed, listed, ?_⟩
  exact List.mem_append_right _ (List.mem_singleton.mpr rfl)

/-- The bundle of that run was checked. -/
theorem install_verified : ∃ first, ∃ step : InstallStep, ∃ rest t o tag content,
    Exec (Host demoSha256) (main "kubectl" ["--version", "0.2.0"]).run (fun _ => none)
        (first ++ step :: rest) t none ∧
      step.op = .apply false "install-v0.2.0.yaml" ∧
      parseArguments {} ["--version", "0.2.0"] = .parsed o ∧
      Verified demoSha256 o tag content first ∧
      step.before "install-v0.2.0.yaml" = some content := by
  obtain ⟨steps, t, hexec, before, after, hmem⟩ := exec_install
  obtain ⟨first, rest, rfl⟩ := List.append_of_mem hmem
  obtain ⟨o, tag, content, hargs, hverified, hfile⟩ :=
    only_verified_bundles hexec (.inl ⟨false, rfl, rfl⟩)
  exact ⟨first, _, rest, t, o, tag, content, hexec, rfl, hargs, hverified, hfile⟩

/-- The cluster was changed in that run because it was asked for. -/
theorem install_asked : ∃ first, ∃ step : InstallStep, ∃ rest t o,
    Exec (Host demoSha256) (main "kubectl" ["--version", "0.2.0"]).run (fun _ => none)
        (first ++ step :: rest) t none ∧
      step.op.Changes ∧ parseArguments {} ["--version", "0.2.0"] = .parsed o ∧ o.dryRun = false ∧
      NotHelm first ∧ Asked o step.op first := by
  obtain ⟨steps, t, hexec, before, after, hmem⟩ := exec_install
  obtain ⟨first, rest, rfl⟩ := List.append_of_mem hmem
  obtain ⟨o, h⟩ := changes_as_asked hexec rfl
  exact ⟨first, _, rest, t, o, hexec, rfl, h⟩

end KeycloakOperator.Installer
