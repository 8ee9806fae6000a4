import Tyu.Cert.Json
import Tyu.Cert.VmSummary
import Tyu.Lib.Runs
import Tyu.Lib.Wire

/-! # The build cache -/

namespace Tyu

open Lib Lib.Json
open Lib.Wire (put64)

namespace Cache

open Summary (Files VerifyEnvKey)

inductive VerifyMode where
  | on | off
deriving DecidableEq

def foldCompilerFp (compilerFingerprint : UInt64) (platformHash : Option UInt64)
    (verify : VerifyMode) (elideStackGuards : Bool) : UInt64 :=
  let fp := match platformHash with
    | some h => fnv1a64 (put64 compilerFingerprint) * 0x100000001b3 + h
    | none => compilerFingerprint
  let fp := match verify with
    | .off => fnv1a64 (put64 fp) + 1
    | .on => fp
  if elideStackGuards then fnv1a64 (put64 fp) + 64 else fp

def sortHashes (hashes : List UInt64) : List UInt64 := hashes.mergeSort fun a b => decide (a ≤ b)

def inputsFingerprint (ownHash : UInt64) (triple : String) (transitiveDepHashes : List UInt64) :
    UInt64 :=
  fnv1a64 (put64 ownHash ++ utf8 triple ++ (sortHashes transitiveDepHashes).flatMap put64)

structure ModuleNode where
  name : String
  path : String
  isLib : Bool
  depPaths : List String

/-- The hashes of all modules below one, from those of the modules built before it. -/
def collectTransitiveHashes (m : ModuleNode) (pathToHash : String → Option UInt64)
    (transitiveCache : String → Option (List UInt64)) :
    List UInt64 × (String → Option (List UInt64)) :=
  match transitiveCache m.path with
  | some cached => (cached, transitiveCache)
  | none =>
    let found := m.depPaths.flatMap fun d =>
      (pathToHash d).toList ++ (transitiveCache d).getD []
    let result := (sortHashes found).eraseReps
    (result, fun p => if p = m.path then some result else transitiveCache p)

/-- `<module>-<fingerprint>`. -/
structure ArtifactName where
  module : String
  inputsFp : UInt64
deriving DecidableEq

/-- `<module>-<fingerprint><slug>.verdicts.json`. -/
structure SlotName where
  artifact : ArtifactName
  slug : String
deriving DecidableEq

inductive FileName where
  | object (name : ArtifactName)
  | obl (name : ArtifactName)
  | slot (name : SlotName)
deriving DecidableEq

structure ArtifactRecord where
  compilerFp : UInt64
  inputsFp : UInt64
  abiHash : UInt64
  features : UInt8
  target : String
  objectPath : ArtifactName

/-- The records of `build.json`, by their keys. -/
abbrev BuildCache := List (String × ArtifactRecord)

namespace BuildCache

def key (compilerFp inputsFp abiHash : UInt64) (features : UInt8) : String :=
  formatHex compilerFp ++ "-" ++ formatHex inputsFp ++ "-" ++ formatHex abiHash ++ "-" ++
    Cert.hexText features

def lookup (cache : BuildCache) (key : String) : Option ArtifactRecord :=
  (cache.find? fun e => e.1 == key).map Prod.snd

def insert (cache : BuildCache) (key : String) (record : ArtifactRecord) : BuildCache :=
  (key, record) :: cache.filter fun e => e.1 != key

end BuildCache

/-- The files that builds have left, the cache, and what the running build has written. -/
structure OutDir where
  files : FileName → Option Bytes
  cache : BuildCache
  written : List FileName

namespace OutDir

def empty : OutDir := ⟨fun _ => none, [], []⟩

def write (dir : OutDir) (name : FileName) (bytes : Bytes) : OutDir :=
  { dir with
    files := fun n => if n = name then some bytes else dir.files n
    written := name :: dir.written }

def predates (dir : OutDir) (name : FileName) : Bool := !dir.written.contains name

end OutDir

structure Outcome where
  object : Option Bytes
  obl : Option Bytes
  echo : Option Bytes

structure Compiler where
  run : List String → Option Bytes → Files → Option Outcome
  reads : List String → Option Bytes → Files → String → Prop
  congr : ∀ args verdicts files files', (∀ p, reads args verdicts files p → files p = files' p) →
    run args verdicts files = run args verdicts files'

/-! ## One module -/

/-- What a build passes to the compilation of a module, and the files as they are then. -/
structure Request where
  outDir : String
  module : ModuleNode
  includeDirs : List String
  sysroot : Option String
  platformDir : Option String
  modelSemantics : String
  concurrency : String
  compilerFp : UInt64
  inputsFp : UInt64
  abiHash : UInt64
  triple : String
  features : UInt8
  verify : VerifyMode
  elideDsGuards : Bool
  verifyTool : Option String
  verifyEnv : VerifyEnvKey
  verifyPolicy : Report.VerifyPolicy
  verdictsOverride : Option String
  bindObl : Option String
  refinements : Option String
  files : Files

def featureFlags (features : UInt8) : List String :=
  (if features &&& 1 ≠ 0 then ["concurrency"] else []) ++
    if features &&& 2 ≠ 0 then ["module-loading"] else []

namespace Request

def artifact (r : Request) : ArtifactName := ⟨r.module.name, r.inputsFp⟩

def slot (r : Request) : SlotName := ⟨r.artifact, r.verifyEnv.slug⟩

def key (r : Request) : String :=
  BuildCache.key r.compilerFp r.inputsFp r.abiHash r.features

def slotPath (r : Request) : String :=
  r.outDir ++ "/.tyu-verify/" ++ Summary.verdictsSlotName r.module.name r.inputsFp r.verifyEnv

def readsSlot (r : Request) : Bool := r.verify = .on && r.verdictsOverride.isNone

/-- The command line, without the scratch directory that the results go to. -/
def langcArgs (r : Request) : List String :=
  ["--emit=obj", "--target=" ++ r.triple, "--write-obl"] ++
    (match r.verify with
      | .on => ["--checks=undischarged", "--verdicts=" ++ r.verdictsOverride.getD r.slotPath]
      | .off => []) ++
    (r.verifyTool.map ("--verify-tool=" ++ ·)).toList ++
    (if r.verifyPolicy = .proven then ["--verify-policy=proven"] else []) ++
    (r.bindObl.map ("--bind-obl=" ++ ·)).toList ++
    (r.refinements.map ("--refinements=" ++ ·)).toList ++
    (if r.elideDsGuards then ["--elide-ds-guards"] else []) ++
    (r.sysroot.map ("--sysroot=" ++ ·)).toList ++
    (r.platformDir.map ("--platform=" ++ ·)).toList ++
    ["--model-semantics=" ++ r.modelSemantics, "--concurrency=" ++ r.concurrency] ++
    (r.includeDirs.flatMap fun dir => ["-I", dir]) ++ ["-I", r.outDir] ++
    (if r.module.isLib then ["--lib"] else []) ++
    (if featureFlags r.features = [] then []
      else ["--features=" ++ String.intercalate "," (featureFlags r.features)]) ++
    [r.module.path]

end Request

def emptyVerdicts : Bytes :=
  write (VerdictFile.verdictsTree ⟨none, "", "", "", [], 0, ⟨0, 0, 0⟩⟩)

def verdictsUsable (bytes : Bytes) : Bool :=
  match VerdictFile.readVerdicts bytes with
  | .ok _ => true
  | .error _ => false

def ensureVerdictsCacheFile (dir : OutDir) (slot : SlotName) : OutDir :=
  match dir.files (.slot slot) with
  | some bytes => if verdictsUsable bytes then dir else dir.write (.slot slot) emptyVerdicts
  | none => dir.write (.slot slot) emptyVerdicts

inductive BuildError where
  | langcFailed
  | noObject
  | noObl
  | noEcho

structure CompiledModule where
  objectPath : ArtifactName
  oblPath : Option ArtifactName

def cacheHit (dir : OutDir) (r : Request) : Option ArtifactRecord := do
  let cached ← dir.cache.lookup r.key
  let _ ← dir.files (.object cached.objectPath)
  if verdictsUsable ((dir.files (.slot r.slot)).getD []) then some cached else none

def insertRecord (dir : OutDir) (r : Request) : OutDir :=
  { dir with
    cache := dir.cache.insert r.key
      ⟨r.compilerFp, r.inputsFp, r.abiHash, r.features, r.triple, r.artifact⟩ }

def rehome (dir : OutDir) (r : Request) (out : Outcome) : Except BuildError CompiledModule × OutDir :=
  match out.object with
  | none => (.error .noObject, dir)
  | some object =>
    let dir := dir.write (.object r.artifact) object
    match out.obl with
    | none => (.error .noObl, dir)
    | some obl =>
      let dir := dir.write (.obl r.artifact) obl
      match out.echo with
      | none => (.error .noEcho, dir)
      | some echo =>
        (.ok ⟨r.artifact, some r.artifact⟩, insertRecord (dir.write (.slot r.slot) echo) r)

def prepared (dir : OutDir) (r : Request) : OutDir :=
  if r.readsSlot then ensureVerdictsCacheFile dir r.slot else dir

def compileModule (langc : Compiler) (r : Request) (dir : OutDir) :
    Except BuildError CompiledModule × OutDir :=
  match cacheHit dir r with
  | some cached =>
    (.ok ⟨cached.objectPath, (dir.files (.obl r.artifact)).map fun _ => r.artifact⟩, dir)
  | none =>
    let dir := prepared dir r
    let verdicts := if r.readsSlot then dir.files (.slot r.slot) else none
    match langc.run r.langcArgs verdicts r.files with
    | none => (.error .langcFailed, dir)
    | some out => rehome dir r out

structure Platform where
  packRoot : String
  platformHash : UInt64
  modelSemantics : String
  concurrency : String

/-- A build: its arguments, what was decided before the first module is compiled, and the
files as they are. -/
structure Build where
  outDir : String
  triple : String
  features : UInt8
  verify : VerifyMode
  verifyPolicy : Report.VerifyPolicy
  verifyTool : Option String
  elideStackGuards : Bool
  /-- Was the stack budget of the image discharged? -/
  mainDischarged : Bool
  includeDirs : List String
  sysroot : Option String
  platform : Option Platform
  compilerFingerprint : UInt64
  abiHash : UInt64
  verifyEnv : VerifyEnvKey
  modules : List ModuleNode
  /-- The verdict files and the artifacts of the proof pipeline, by module. -/
  harvest : List (String × String)
  artifacts : List (String × String)
  refinements : Option String
  files : Files

namespace Build

def pathToHash (b : Build) (p : String) : Option UInt64 :=
  if p ∈ b.modules.map ModuleNode.path then (b.files p).map fnv1a64 else none

def request (b : Build) (m : ModuleNode) (transitive : List UInt64) : Request where
  outDir := b.outDir
  module := m
  includeDirs := b.includeDirs
  sysroot := b.sysroot
  platformDir := b.platform.map Platform.packRoot
  modelSemantics := (b.platform.map Platform.modelSemantics).getD Manifest.MODEL_UNMODELED
  concurrency := (b.platform.map Platform.concurrency).getD Manifest.CONCURRENCY_UNMODELED
  compilerFp := foldCompilerFp b.compilerFingerprint (b.platform.map Platform.platformHash)
    b.verify b.elideStackGuards
  inputsFp := inputsFingerprint ((b.pathToHash m.path).getD 0) b.triple transitive
  abiHash := b.abiHash
  triple := b.triple
  features := b.features
  verify := b.verify
  elideDsGuards := b.elideStackGuards && b.mainDischarged
  verifyTool := b.verifyTool
  verifyEnv := b.verifyEnv
  verifyPolicy := b.verifyPolicy
  verdictsOverride := b.verifyTool.bind fun _ => b.harvest.lookup m.name
  bindObl := b.verifyTool.bind fun _ => b.artifacts.lookup m.name
  refinements := b.verifyTool.bind fun _ => b.refinements
  files := b.files

/-- The requests of the modules, the hashes of each passed on to those that come after. -/
def requestsFrom (b : Build) : List ModuleNode → (String → Option (List UInt64)) → List Request
  | [], _ => []
  | m :: ms, transitiveCache =>
    let (transitive, transitiveCache) := collectTransitiveHashes m b.pathToHash transitiveCache
    b.request m transitive :: b.requestsFrom ms transitiveCache

def requests (b : Build) : List Request := b.requestsFrom b.modules fun _ => none

def builtFps (b : Build) : List ArtifactName := b.requests.map Request.artifact

end Build

def isDead (dir : OutDir) (live : List ArtifactName) (fps : List ArtifactName) (slug : String) :
    FileName → Bool
  | .object a =>
    !fps.contains a && dir.predates (.object a) &&
      (fps.any (fun b => b.module = a.module) || !live.contains a)
  | .obl a => !fps.contains a && dir.predates (.obl a) && fps.any (fun b => b.module = a.module)
  | .slot s =>
    !(fps.contains s.artifact && s.slug = slug) &&
      (fps.contains s.artifact || fps.any (fun b => b.module = s.artifact.module) ||
        dir.predates (.slot s))

/-- Records without an object go, then the dead files, and the records of dead objects. -/
def pruneOutDir (dir : OutDir) (fps : List ArtifactName) (slug : String) : OutDir :=
  let cache := dir.cache.filter fun e => (dir.files (.object e.2.objectPath)).isSome
  let dead := isDead dir (cache.map fun e => e.2.objectPath) fps slug
  { dir with
    files := fun n => if dead n then none else dir.files n
    cache := cache.filter fun e => !dead (.object e.2.objectPath) }

/-- The output directory with what has been compiled into it so far, and the build that runs,
if one does, with the modules it has still to compile. -/
structure Workspace where
  dir : OutDir
  past : List Request
  running : Option (Build × List Request)

/-- A build starts, compiles its next module, prunes the directory at its end, or stops at an
error, of the compiler or of anything after it. -/
inductive Step (langc : Compiler) : Workspace → Workspace → Prop
  | start {w : Workspace} {b : Build} (idle : w.running = none) :
      Step langc w { w with dir := { w.dir with written := [] }, running := some (b, b.requests) }
  | compile {w : Workspace} {b : Build} {r : Request} {todo : List Request} {done : CompiledModule}
      {dir : OutDir} (next : w.running = some (b, r :: todo))
      (result : compileModule langc r w.dir = (.ok done, dir)) :
      Step langc w { dir, past := r :: w.past, running := some (b, todo) }
  | refuse {w : Workspace} {b : Build} {r : Request} {todo : List Request} {e : BuildError}
      {dir : OutDir} (next : w.running = some (b, r :: todo))
      (result : compileModule langc r w.dir = (.error e, dir)) :
      Step langc w { dir, past := r :: w.past, running := none }
  | finish {w : Workspace} {b : Build} (next : w.running = some (b, [])) :
      Step langc w
        { w with dir := pruneOutDir w.dir b.builtFps b.verifyEnv.slug, running := none }
  | abandon {w : Workspace} {b : Build} (next : w.running = some (b, [])) :
      Step langc w { w with running := none }

def history (langc : Compiler) : System Workspace where
  init w := w = ⟨OutDir.empty, [], none⟩
  step := Step langc

end Cache

end Tyu
