import Peerward.Lib.Crash
import Peerward.Updater.Release

/-!
# The installation on disk

The files of an installation as one role sees them, and the writes that change them. A file is replaced
by a rename of a temporary one, which is atomic and durable; a crash may leave the temporary behind, and
the next process with the same id finds it. Directories are left out, and so are failures of the disk.
-/

namespace Peerward.Updater

open Peerward.Lib Durable
open Peerward.Types (Text)

inductive LinkName where
  | current
  | previous
  deriving DecidableEq

/-- What a link of a role points to: `../../versions/<version>/peerward`, or something else. -/
inductive Target where
  | release (version : Text)
  | other (path : Text)
  deriving DecidableEq

inductive JournalFile where
  | transaction
  | previousTransaction
  deriving DecidableEq

/-- A temporary file, by the file it will replace, its process and its number. -/
inductive Temporary where
  | state (pid sequence : Nat)
  | journal (file : JournalFile) (pid sequence : Nat)
  | metadata (version : Text) (pid sequence : Nat)
  | binary (version : Text) (pid : Nat)
  deriving DecidableEq

/-- A temporary link. -/
structure LinkTemporary where
  name : LinkName
  pid : Nat
  target : Target
  deriving DecidableEq

/-- `versions/<version>`. -/
structure VersionFiles where
  binary : Option Bytes := none
  compatibility : Option InstalledCompatibility := none

structure Installation where
  role : Role
  accepted : Option AcceptedUpdateState := none
  versions : Text → VersionFiles := fun _ => {}
  link : LinkName → Option Target := fun _ => none
  journal : JournalFile → Option UpdateTransaction := fun _ => none
  temporaries : List Temporary := []
  linkTemporaries : List LinkTemporary := []

inductive Write where
  | createFile (file : Temporary)
  | removeFile (file : Temporary)
  | renameState (file : Temporary) (state : AcceptedUpdateState)
  | renameJournal (file : Temporary) (dest : JournalFile) (record : UpdateTransaction)
  | renameCompatibility (file : Temporary) (version : Text) (metadata : InstalledCompatibility)
  | renameBinary (file : Temporary) (version : Text) (bytes : Bytes)
  | createLink (link : LinkTemporary)
  | removeLink (name : LinkName) (pid : Nat)
  | renameLink (link : LinkTemporary)

namespace Installation

def drop (s : Installation) (file : Temporary) : Installation :=
  { s with temporaries := s.temporaries.filter (· ≠ file) }

def dropLink (s : Installation) (name : LinkName) (pid : Nat) : Installation :=
  { s with linkTemporaries := s.linkTemporaries.filter fun link => link.name ≠ name || link.pid ≠ pid }

def setVersion (s : Installation) (version : Text) (files : VersionFiles) : Installation :=
  { s with versions := Function.update s.versions version files }

def apply (s : Installation) : Write → Installation
  | .createFile file => { s with temporaries := file :: s.temporaries }
  | .removeFile file => s.drop file
  | .renameState file state => { s with accepted := some state }.drop file
  | .renameJournal file dest record =>
    { s with journal := Function.update s.journal dest (some record) }.drop file
  | .renameCompatibility file version metadata =>
    (s.setVersion version { s.versions version with compatibility := some metadata }).drop file
  | .renameBinary file version bytes =>
    (s.setVersion version { s.versions version with binary := some bytes }).drop file
  | .createLink link => { s with linkTemporaries := link :: s.linkTemporaries }
  | .removeLink name pid => s.dropLink name pid
  | .renameLink link =>
    { s with link := Function.update s.link link.name (some link.target) }.dropLink link.name link.pid

end Installation

instance : Disk Installation Write := ⟨Installation.apply⟩

/-- A program of the updater. -/
abbrev Program (α : Type) : Type := Durable Installation UpdateError α

variable (lib : Libraries)

/-! ## Temporaries -/

/-- The first free name of 32. -/
def uniqueSibling (file : Nat → Temporary) : Program Temporary :=
  ask fun s => match (List.range 32).find? (file · ∉ s.temporaries) with
    | some sequence => .ok (file sequence)
    | none => .error (.io "cannot allocate update temporary path")

/-- `exists` of a temporary link follows it. -/
def linkExists (name : LinkName) (pid : Nat) (s : Installation) : Bool :=
  s.linkTemporaries.any fun link => link.name = name && link.pid = pid &&
    match link.target with
    | .release version => (s.versions version).binary.isSome
    | .other _ => false

/-- `symlink` does not replace a file. -/
def linkTaken (name : LinkName) (pid : Nat) (s : Installation) : Bool :=
  s.linkTemporaries.any fun link => link.name = name && link.pid = pid

/-- `symlink` and `rename`. -/
def placeSymlink (pid : Nat) (name : LinkName) (target : Target) : Program Unit := do
  ask fun s => if linkTaken name pid s then .error (.io "file exists") else .ok ()
  put (.createLink { name, pid, target })
  put (.renameLink { name, pid, target })

def replaceSymlink (pid : Nat) (name : LinkName) (target : Target) : Program Unit := do
  let stale ← ask fun s => .ok (linkExists name pid s)
  if stale then put (.removeLink name pid)
  placeSymlink pid name target

/-! ## Accepted state -/

def writeUpdateState (pid : Nat) (state : AcceptedUpdateState) : Program Unit := do
  let temporary ← uniqueSibling (.state pid)
  put (.createFile temporary)
  put (.renameState temporary state)

/-- Validates and durably records the highest accepted signed manifest sequence. -/
def acceptManifest (pid : Nat) (manifest : ReleaseManifest) (now : Nat) (currentVersion : Text)
    (schemaVersion wireMajor : Nat) : Program Unit := do
  let accepted ← ask fun s =>
    candidateUpdateState lib manifest s.accepted now currentVersion schemaVersion wireMajor
  let held ← ask fun s => readUpdateState lib s.accepted
  if held = accepted then return
  else writeUpdateState pid accepted

/-! ## Versions

A version is a directory with a binary and what it is compatible with. Staging one that is there checks that
it is the same.
-/

/-- `verify_artifact_file` of an installed binary. -/
def verifyArtifactFile (version : Text) (artifact : ReleaseArtifact) (s : Installation) :
    Except UpdateError Unit := do
  rejectIf (artifact.size = 0 || MAX_ARTIFACT_BYTES < artifact.size) .digest
  match (s.versions version).binary with
  | none => .error (.io "no such file")
  | some bytes => verifyArtifact lib bytes artifact

/-- Writes the binary of a version, unless the one that is there is the same. -/
def stageBinary (pid : Nat) (bytes : Bytes) (artifact : ReleaseArtifact) (version : Text) :
    Program Unit := do
  let present ← ask fun s => .ok (s.versions version).binary.isSome
  if present then ask (verifyArtifactFile lib version artifact)
  else
    let file : Temporary := .binary version pid
    let taken ← ask fun s => .ok (decide (file ∈ s.temporaries))
    if taken then
      put (.removeFile file)
      fail (.io "file exists")
    else
      put (.createFile file)
      put (.renameBinary file version bytes)

/-- Writes the compatibility metadata of a version, unless what is there is the same. -/
def stageCompatibility (pid : Nat) (metadata : InstalledCompatibility) : Program Unit := do
  let present ← ask fun s => .ok (s.versions metadata.version).compatibility
  match present with
  | some held =>
    if MAX_MANIFEST_BYTES < lib.compatibilityLength held then fail (.io "invalid file size/type")
    else if held ≠ metadata then fail .incompatible
    else pure ()
  | none =>
    let temporary ← uniqueSibling (.metadata metadata.version pid)
    put (.createFile temporary)
    put (.renameCompatibility temporary metadata.version metadata)

def stageVersioned (pid : Nat) (bytes : Bytes) (artifact : ReleaseArtifact) (version : Text)
    (manifest : Option ReleaseManifest) : Program Unit := do
  ask fun _ => verifyArtifact lib bytes artifact
  ask fun _ => rejectIf (canonicalVersion lib version).isNone .malformed
  stageBinary lib pid bytes artifact version
  match manifest with
  | none => pure ()
  | some manifest =>
    stageCompatibility lib pid { version, artifact, schema := manifest.schemaCompatibility,
                                 wire := manifest.wireCompatibility }

/-- `target_version`. -/
def targetVersion : Option Target → Except UpdateError Text
  | none => .error (.io "no such file")
  | some (.other _) => .error .malformed
  | some (.release version) =>
    if (canonicalVersion lib version).isSome then .ok version else .error .malformed

/-- A version may become current: it is installed as its metadata says, runs with this schema and wire
version, and is not below the floor. -/
def verifyInstalledVersion (version : Text) (schema wire : Nat) (floor : Text) (s : Installation) :
    Except UpdateError Unit := do
  match (s.versions version).compatibility with
  | none => .error .incompatible
  | some metadata =>
    rejectIf (MAX_MANIFEST_BYTES < lib.compatibilityLength metadata) .incompatible
    rejectIf (metadata.version ≠ version || !metadata.schema.contains schema
      || !metadata.wire.contains wire) .incompatible
    let order ← comparePrecedence lib version floor
    rejectIf order.isLT .incompatible
    verifyArtifactFile lib version metadata.artifact s

end Peerward.Updater
