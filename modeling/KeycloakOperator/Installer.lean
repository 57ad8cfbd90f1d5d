import KeycloakOperator.Interaction
import KeycloakOperator.Uninstall
import Mathlib.Logic.Function.Basic

/-!
# The installer (`install.sh`)

The script reads its arguments, downloads the bundle of a release into a temporary directory, checks
it and hands it to kubectl.  It runs under `set -euo pipefail`: a command that fails ends it.  The
script is a program over the commands that it calls.  What these answer is arbitrary; what is known
is the temporary directory, which nobody else writes to.
-/

namespace KeycloakOperator.Installer

open Prog

/-! ### Arguments -/

inductive Command where
  | install | upgrade | uninstall | version
deriving DecidableEq, Repr

/-- The global variables that the arguments set. -/
structure Options where
  command : Command := .install
  targetTag : String := ""
  dryRun : Bool := false
  assumeYes : Bool := false
  purgeCrds : Bool := false
  allowUnverified : Bool := false
deriving DecidableEq, Repr

/-- What reading the arguments comes to. -/
inductive Arguments where
  | parsed (options : Options)
  | help
  | rejected (message : String)
deriving DecidableEq, Repr

/-- The loop over the arguments in `main`. -/
def parseArguments (o : Options) : List String → Arguments
  | [] => .parsed o
  | "install" :: rest => parseArguments { o with command := .install } rest
  | "upgrade" :: rest => parseArguments { o with command := .upgrade } rest
  | "uninstall" :: rest => parseArguments { o with command := .uninstall } rest
  | "version" :: rest => parseArguments { o with command := .version } rest
  | "-h" :: _ => .help
  | "--help" :: _ => .help
  | ["--version"] => .rejected "--version requires a value"
  | "--version" :: tag :: rest => parseArguments { o with targetTag := tag } rest
  | "--dry-run" :: rest => parseArguments { o with dryRun := true } rest
  | "--yes" :: rest => parseArguments { o with assumeYes := true } rest
  | "--purge-crds" :: rest => parseArguments { o with purgeCrds := true } rest
  | "--allow-unverified" :: rest => parseArguments { o with allowUnverified := true } rest
  | arg :: _ => .rejected ("unknown argument: " ++ arg ++ " (see --help)")

/-! ### Tags -/

/-- `[0-9]+` at the start of a text: what follows it. -/
def skipNumber (cs : List Char) : Option (List Char) :=
  if cs.takeWhile Char.isDigit = [] then none else some (cs.dropWhile Char.isDigit)

/-- `\.` at the start of a text: what follows it. -/
def skipDot : List Char → Option (List Char)
  | '.' :: rest => some rest
  | _ => none

/-- `[0-9A-Za-z.-]`. -/
def isTagChar (c : Char) : Bool := c.isAlphanum || c == '.' || c == '-'

/-- `(-[0-9A-Za-z.-]+)?$`. -/
def isTagEnd : List Char → Bool
  | [] => true
  | '-' :: suffix => suffix ≠ [] && suffix.all isTagChar
  | _ => false

/-- `[0-9]+\.[0-9]+\.[0-9]+` at the start of a text: what follows it. -/
def skipVersion (cs : List Char) : Option (List Char) := do
  let cs ← skipNumber cs
  let cs ← skipDot cs
  let cs ← skipNumber cs
  let cs ← skipDot cs
  skipNumber cs

/-- The texts that match `^v[0-9]+\.[0-9]+\.[0-9]+(-[0-9A-Za-z.-]+)?$`. -/
def isValidTag (tag : String) : Bool :=
  match tag.toList with
  | 'v' :: cs => (skipVersion cs).elim false isTagEnd
  | _ => false

/-- The tag with the `v` that it may lack. -/
def withV (tag : String) : String := if "v".toList.isPrefixOf tag.toList then tag else "v" ++ tag

/-- `${tag#v}`. -/
def withoutV (tag : String) : String :=
  match tag.toList with
  | 'v' :: cs => String.ofList cs
  | _ => tag

/-! ### The texts that the script reads -/

/-- `[[:space:]]`. -/
def isSpace (c : Char) : Bool :=
  c == ' ' || c == '\t' || c == '\n' || c == '\r' || c == '\x0b' || c == '\x0c'

/-- `[^"]*"` at the start of a text: what stands before the quote. -/
def untilQuote : List Char → Option (List Char)
  | [] => none
  | '"' :: _ => some []
  | c :: cs => (untilQuote cs).map (c :: ·)

/-- `"tag_name"[[:space:]]*:[[:space:]]*"\([^"]*\)"` at the start of a text. -/
def tagNameAt (cs : List Char) : Option (List Char) :=
  if "\"tag_name\"".toList.isPrefixOf cs then
    match (cs.drop 10).dropWhile isSpace with
    | ':' :: rest =>
        match rest.dropWhile isSpace with
        | '"' :: value => untilQuote value
        | _ => none
    | _ => none
  else none

/-- The match of the line: `.*` takes as much as it can. -/
def tagNameIn : List Char → Option (List Char)
  | [] => none
  | c :: cs => (tagNameIn cs).or (tagNameAt (c :: cs))

/-- What `sed` and `head -n1` make of the answer of the GitHub API. -/
def tagName (response : String) : String :=
  (((records response).filterMap fun line => tagNameIn line.toList).head?.map String.ofList).getD ""

/-- The fields of an awk record. -/
def fields (line : String) : List String :=
  ((line.toList.splitOnP isBlank).filter (· ≠ [])).map String.ofList

/-- `awk '$2 == f {print $1}'`. -/
def listedDigest (file sums : String) : String :=
  "\n".intercalate ((records sums).filterMap fun line =>
    match fields line with
    | digest :: name :: _ => if name = file then some digest else none
    | _ => none)

/-- `${image##*:}` without a leading `v`; nothing without an image. -/
def imageVersion (image : String) : String :=
  if image = "" then "" else withoutV (String.ofList ((image.toList.splitOn ':').getLastD []))

/-! ### The commands that the script calls -/

def repo : String := "ctn-solutions/keycloak-operator"

def namespaceName : String := "keycloak-operator-system"

def crdNames : List String :=
  ["clients.keycloak.ctn-solutions.io", "clientscopes.keycloak.ctn-solutions.io",
    "groups.keycloak.ctn-solutions.io", "identityproviders.keycloak.ctn-solutions.io",
    "keycloakconnections.keycloak.ctn-solutions.io", "realmroles.keycloak.ctn-solutions.io",
    "realms.keycloak.ctn-solutions.io"]

/-- A call of another program, with the files of the temporary directory that it reads or writes.
    What tells only whether the call succeeded is answered by a Boolean. -/
inductive InstallOp where
  | print (text : String)
  /-- `command -v` -/
  | hasCommand (name : String)
  /-- `kubectl get --raw /healthz` -/
  | reachable
  /-- `mktemp -d` -/
  | makeTemp
  /-- the `trap` on `EXIT` -/
  | removeTemp
  /-- `github_curl`, with the output in a variable -/
  | fetch (url : String)
  /-- `github_curl`, with the output in a file -/
  | download (url file : String)
  | read (file : String)
  | write (file content : String)
  | remove (file : String)
  /-- `sha256_of` -/
  | digest (file : String)
  /-- `cosign verify-blob` -/
  | verifyBlob (bundle file : String)
  /-- the `managed-by` labels of the deployments of the operator, as far as kubectl prints them
      before it ends or fails -/
  | managedBy
  /-- the image of the first deployment of the operator, empty when there is none or kubectl fails -/
  | image
  /-- `kubectl get deployment` in `cmd_version` -/
  | getDeployment
  /-- `read -r -p`: nothing at the end of the input -/
  | confirm
  | apply (dryRun : Bool) (file : String)
  | rolloutStatus
  | delete (dryRun : Bool) (file : String)
  | getCrds (names : List String)
  | deleteCrds (names : List String)
deriving DecidableEq

abbrev InstallOp.Answer : InstallOp → Type
  | .print _ => Unit
  | .removeTemp => Unit
  | .remove _ => Unit
  | .fetch _ => Option String
  | .read _ => Option String
  | .digest _ => Option String
  | .managedBy => List String
  | .image => String
  | .confirm => Option String
  | _ => Bool

abbrev installOperations : Signature := ⟨InstallOp, InstallOp.Answer⟩

/-- How the script ends early. -/
inductive Exit where
  /-- `die` -/
  | died (message : String)
  /-- a command failed -/
  | stopped
deriving DecidableEq, Repr

abbrev Script (α : Type) : Type := ExceptT Exit (Prog installOperations) α

def perform (op : InstallOp) : Script op.Answer := liftM (Prog.perform (S := installOperations) op)

def die (message : String) : Script α := throw (.died message)

def info (text : String) : Script Unit := perform (.print text)

def warn (text : String) : Script Unit := perform (.print text)

/-- `set -e`: a command that fails ends the script. -/
def must (ok : Bool) : Script Unit := if ok then return () else throw .stopped

/-- An assignment of the output of a command that may fail. -/
def output (answer : Option α) : Script α :=
  match answer with
  | some a => return a
  | none => throw .stopped

/-! ### The script -/

def requireTools (kubectl : String) : Script Unit := do
  if !(← perform (.hasCommand "curl")) then die "curl is required but was not found in PATH."
  if !(← perform (.hasCommand kubectl)) then
    die "kubectl not found in PATH. Install kubectl first: https://kubernetes.io/docs/tasks/tools/"

def requireCluster : Script Unit := do
  if !(← perform .reachable) then
    die "cannot reach the cluster of the current kubeconfig context."

def validateTag (tag : String) : Script Unit := do
  if !isValidTag tag then
    die ("invalid version '" ++ tag ++ "': expected vX.Y.Z (semver, no build metadata)")

def latestUrl : String := "https://api.github.com/repos/" ++ repo ++ "/releases/latest"

/-- The tag of the latest published release.  The function runs in a subshell, with which it ends;
    the script then stops, unless it asks for the outcome. -/
def resolveLatest : Script String := do
  match ← perform (.fetch latestUrl) with
  | none => die "could not query the latest release (network error or rate limit; set GITHUB_TOKEN)."
  | some response =>
      if tagName response = "" then
        die "could not determine the latest release (rate limited? set GITHUB_TOKEN)."
      else
        return tagName response

def bundleName (tag : String) : String := "install-" ++ tag ++ ".yaml"

def sumsName : String := "sha256sums.txt"

def signatureName : String := "sha256sums.txt.cosign.bundle"

def assetUrl (tag file : String) : String :=
  "https://github.com/" ++ repo ++ "/releases/download/" ++ tag ++ "/" ++ file

/-- The signature of the checksums, checked when cosign is installed and there is a signature. -/
def checkSignature (tag : String) : Script Unit := do
  if ← perform (.hasCommand "cosign") then
    if ← perform (.download (assetUrl tag signatureName) signatureName) then
      if ← perform (.verifyBlob signatureName sumsName) then
        info "Signature verified for sha256sums.txt (keyless cosign)"
      else
        die "signature verification failed for sha256sums.txt; the release may be tampered with."
    else
      warn "Release publishes no cosign bundle; the checksums could not be signature-verified."
  else
    info "cosign not installed; skipping signature verification (checksums still verified)."

/-- The checksum of the bundle against the list. -/
def checkDigest (tag : String) : Script Unit := do
  let bundle := bundleName tag
  let sums ← output (← perform (.read sumsName))
  let expected := listedDigest bundle sums
  if expected = "" then
    die ("sha256sums.txt does not list " ++ bundle ++ "; refusing an unverifiable bundle.")
  let actual ← output (← perform (.digest bundle))
  if expected ≠ actual then
    perform (.remove bundle)
    die ("checksum mismatch for " ++ bundle ++ " (expected " ++ expected ++ ", got " ++ actual ++ ").")
  info ("Checksum verified for " ++ bundle)

def fetchBundle (o : Options) (tag : String) : Script Unit := do
  let bundle := bundleName tag
  info ("Downloading " ++ repo ++ " " ++ tag)
  if !(← perform (.download (assetUrl tag bundle) bundle)) then
    die ("release asset " ++ bundle ++ " not found for " ++ tag ++ " (does the release exist?).")
  if !(← perform (.download (assetUrl tag sumsName) sumsName)) then
    if o.allowUnverified then
      warn ("Release " ++ tag ++
        " publishes no sha256sums.txt; proceeding unverified (--allow-unverified).")
    else
      die ("release " ++ tag ++ " publishes no sha256sums.txt; refusing an unverified bundle. " ++
        "Re-run with --allow-unverified to accept the risk.")
  else
    checkDigest tag
    checkSignature tag

/-- The `managed-by` label of the first deployment of the operator. -/
def helmManagedLabel : Script String := return (← perform .managedBy).headD ""

/-- The version of the installed operator. -/
def installedVersion : Script String := return imageVersion (← perform .image)

def rollOut (bundle : String) : Script Unit := do
  must (← perform (.apply false bundle))
  info "Waiting for the operator to become ready…"
  must (← perform .rolloutStatus)

def cmdInstall (o : Options) (tag bundle : String) : Script Unit := do
  if (← helmManagedLabel) = "Helm" then
    die "an existing install is managed by Helm; use 'helm upgrade' instead of this script."
  info ("Installing keycloak-operator " ++ tag ++ " (namespace " ++ namespaceName ++ ")")
  if o.dryRun then
    must (← perform (.apply true bundle))
  else
    rollOut bundle
    info ("keycloak-operator " ++ tag ++ " is installed.")
    info ("Next step: declare a KeycloakConnection — https://github.com/" ++ repo ++ "#quickstart")

def cmdUpgrade (o : Options) (tag bundle : String) : Script Unit := do
  if (← helmManagedLabel) = "Helm" then
    die "the existing install is managed by Helm; use 'helm upgrade' instead of this script."
  let current ← installedVersion
  if current ≠ "" ∧ current = withoutV tag then
    info ("Already at " ++ tag ++ "; nothing to do.")
  else
    if current ≠ "" then
      info ("Upgrading keycloak-operator " ++ current ++ " -> " ++ withoutV tag)
    else
      info ("No existing install detected; installing " ++ withoutV tag)
    if o.dryRun then
      must (← perform (.apply true bundle))
    else
      rollOut bundle
      info ("keycloak-operator is now at " ++ withoutV tag ++ ".")

def agrees (reply : String) : Bool := reply == "y" || reply == "Y" || reply == "yes" || reply == "YES"

def nonCrdName : String := "uninstall.yaml"

/-- The prompt: whether to go on. -/
def confirmed (o : Options) : Script Bool := do
  if o.assumeYes ∨ o.dryRun then
    return true
  else
    if o.purgeCrds then
      warn "--purge-crds deletes every Realm, Client, ClientScope, RealmRole,"
      warn "IdentityProvider and Group resource in the cluster."
    let reply ← output (← perform .confirm)
    if agrees reply then
      return true
    else
      info "Aborted."
      return false

/-- The CRDs, which go only when they are asked to go. -/
def purgeCrds (o : Options) : Script Unit := do
  if o.purgeCrds then
    warn "Deleting CRDs — all custom resources are removed with them."
    must (← perform (.deleteCrds crdNames))
  else
    info "CRDs and managed resources were kept."
    info "Remove them too with: install.sh uninstall --purge-crds --yes"

/-- The removal of what is in the bundle without its CRDs. -/
def removeResources (o : Options) : Script Unit := do
  if o.dryRun then
    info "Dry run: the following resources would be removed (CRDs kept):"
    must (← perform (.delete true nonCrdName))
    if o.purgeCrds then
      info "Dry run: the following CRDs would also be removed:"
      must (← perform (.getCrds crdNames))
  else
    info "Removing the operator deployment, RBAC and namespace (CRDs kept)."
    must (← perform (.delete false nonCrdName))
    purgeCrds o
    info "keycloak-operator removed."

/-- What `cmd_uninstall` does after the prompt. -/
def remove (o : Options) (bundle : String) : Script Unit := do
  let content ← output (← perform (.read bundle))
  must (← perform (.write nonCrdName (keepNonCrd content)))
  removeResources o

def cmdUninstall (o : Options) (bundle : String) : Script Unit := do
  if (← helmManagedLabel) = "Helm" then
    die "the existing install is managed by Helm; use 'helm uninstall' instead of this script."
  if ← confirmed o then
    remove o bundle

def installerVersion : String := "0.2.0"

def printInstalled : Script Unit := do
  if ← perform .getDeployment then
    perform (.print ("installed operator " ++ (← installedVersion)))
  else
    perform (.print "installed operator (not installed)")

/-- Here the subshell of `resolve_latest` may end badly. -/
def printLatest : Script Unit :=
  ExceptT.mk do
    match ← resolveLatest.run with
    | .ok latest => (perform (.print ("latest release " ++ latest))).run
    | .error _ => (perform (.print "latest release (unavailable)")).run

def cmdVersion : Script Unit := do
  perform (.print ("installer " ++ installerVersion))
  printInstalled
  printLatest

/-- The tag that is asked for, or that of the latest release. -/
def targetTag (o : Options) : Script String := do
  if o.targetTag = "" then
    info "Resolving the latest release"
    return withV (← resolveLatest)
  else
    return withV o.targetTag

/-- What `main` does with its temporary directory. -/
def runCommand (o : Options) : Script Unit := do
  let tag ← targetTag o
  validateTag tag
  fetchBundle o tag
  match o.command with
  | .install => cmdInstall o tag (bundleName tag)
  | .upgrade => cmdUpgrade o tag (bundleName tag)
  | .uninstall => cmdUninstall o (bundleName tag)
  | .version => return ()

/-- The directory is removed at the end of the script, however it ends. -/
def withTemp (body : Script Unit) : Script Unit := do
  must (← perform .makeTemp)
  ExceptT.mk do
    let result ← body.run
    Prog.perform (S := installOperations) .removeTemp
    return result

def main (kubectl : String) (args : List String) : Script Unit :=
  match parseArguments {} args with
  | .help => perform (.print "usage")
  | .rejected message => die message
  | .parsed o =>
      if o.command = .version then cmdVersion
      else do
        requireTools kubectl
        requireCluster
        withTemp (runCommand o)

/-! ### The machine -/

/-- The files in the temporary directory. -/
abbrev Files : Type := String → Option String

open Function (update)

/-- A download that fails may leave a part of the file, and so may a write.  What the other programs
    answer is arbitrary. -/
def Host (sha256 : String → String) : Env installOperations Files := fun op s answer s' =>
  match op, answer with
  | .download _ file, _ => ∃ content, s' = update s file (some content)
  | .read file, answer => s' = s ∧ (answer = none ∨ answer = s file)
  | .write file content, ok => if ok then s' = update s file (some content) else
      ∃ part, s' = update s file part
  | .remove file, _ => s' = update s file none
  | .digest file, answer => s' = s ∧ (answer = none ∨ answer = (s file).map sha256)
  | .removeTemp, _ => s' = fun _ => none
  | _, _ => s' = s

abbrev InstallStep : Type := Step installOperations Files

/-- The operation changes the cluster. -/
def InstallOp.Changes : InstallOp → Prop
  | .apply dryRun _ => dryRun = false
  | .delete dryRun _ => dryRun = false
  | .deleteCrds _ => True
  | _ => False

end KeycloakOperator.Installer
