import Tyu.Lib.TopoSort
import Tyu.Lib.Wire

/-! # The build order of a program -/

namespace Tyu.Graph

open Lib Lib.Wire

abbrev Path := List Bytes

/-- `/` -/
def rootDir : Bytes := [0x2F]

def Path.isAbsolute (p : Path) : Bool := p.head? = some rootDir

def Path.join (p q : Path) : Path := if Path.isAbsolute q then q else p ++ q

def Path.parent (p : Path) : Option Path :=
  if p = [] ∨ p = [rootDir] then none else some p.dropLast

/-- What the parser reads off a file: the name it declares and the names it imports. -/
structure ModuleAst where
  name : Bytes
  imports : List Bytes

inductive Source where
  | unreadable
  | malformed (code : UInt32)
  | module (ast : ModuleAst)

structure Disk where
  files : List (Path × Source)

namespace Disk

def read (disk : Disk) (p : Path) : Option Source :=
  (disk.files.find? (·.1 = p)).map (·.2)

def isFile (disk : Disk) (p : Path) : Bool := (disk.read p).isSome

end Disk

inductive GraphError where
  | currentDir
  | reading (p : Path)
  | parsing (p : Path) (code : UInt32)
  | notFound (name importer : Bytes)
  | circular
deriving DecidableEq

/-- `.mod` -/
def modExt : Bytes := [0x2E, 0x6D, 0x6F, 0x64]

/-- `.def` -/
def defExt : Bytes := [0x2E, 0x64, 0x65, 0x66]

/-- `platform/` -/
def platformPrefix : Bytes := [0x70, 0x6C, 0x61, 0x74, 0x66, 0x6F, 0x72, 0x6D, 0x2F]

def counts (part : Bytes) : Bool := part ≠ [] ∧ part ≠ [0x2E]

/-- The file of a module in a directory.  Each part of the name but the last is a directory. -/
def candidate (dir : Path) (name ext : Bytes) : Path :=
  let parts := name.splitOn 0x2F
  dir ++ parts.dropLast.filter counts ++ [parts.getLast?.getD [] ++ ext]

def findIn (disk : Disk) (name : Bytes) (dir : Path) : Option Path :=
  if disk.isFile (candidate dir name modExt) then some (candidate dir name modExt)
  else if disk.isFile (candidate dir name defExt) then some (candidate dir name defExt)
  else none

def resolveModuleFile (disk : Disk) (name : Bytes) (containingDir : Path)
    (searchDirs : List Path) : Option Path :=
  (containingDir :: searchDirs).findSome? (findIn disk name)

structure Discovery where
  /-- What each declared name imports. -/
  deps : List (Bytes × List Bytes)
  modPaths : List (Bytes × Path)
  /-- Files to look at, with the directory to search first. -/
  pending : List (Path × Path)

namespace Discovery

def knows (d : Discovery) (name : Bytes) : Bool := d.modPaths.any (·.1 = name)

def addModule (d : Discovery) (name : Bytes) (p : Path) : Discovery :=
  { d with
    deps := d.deps ++ [(name, [])]
    modPaths := if d.knows name then d.modPaths else d.modPaths ++ [(name, p)] }

def addEdge (d : Discovery) (name imported : Bytes) : Discovery :=
  { d with
    deps := d.deps.map fun e => if e.1 = name then (e.1, e.2 ++ [imported]) else e }

def imports (d : Discovery) (name : Bytes) : List Bytes :=
  ((d.deps.find? (·.1 = name)).map (·.2)).getD []

def path (d : Discovery) (name : Bytes) : Option Path :=
  (d.modPaths.find? (·.1 = name)).map (·.2)

end Discovery

def followImport (disk : Disk) (searchDirs : List Path) (containingDir : Path) (modName : Bytes)
    (d : Discovery) (importName : Bytes) : Except GraphError Discovery :=
  let d := d.addEdge modName importName
  if d.knows importName then .ok d
  else
    match resolveModuleFile disk importName containingDir searchDirs with
    | some p => .ok { d with pending := d.pending ++ [(p, (Path.parent p).getD containingDir)] }
    | none =>
      if platformPrefix.isPrefixOf importName then .ok d
      else .error (.notFound importName modName)

def visit (disk : Disk) (searchDirs : List Path) (d : Discovery) (modPath containingDir : Path) :
    Except GraphError Discovery :=
  match disk.read modPath with
  | none => .error (.reading modPath)
  | some .unreadable => .error (.reading modPath)
  | some (.malformed code) => .error (.parsing modPath code)
  | some (.module ast) =>
    if d.deps.any (·.1 = ast.name) then .ok d
    else ast.imports.foldlM (followImport disk searchDirs containingDir ast.name)
      (d.addModule ast.name modPath)

def discover (disk : Disk) (searchDirs : List Path) :
    Nat → Discovery → Option (Except GraphError Discovery)
  | 0, _ => none
  | fuel + 1, d =>
    match d.pending with
    | [] => some (.ok d)
    | (modPath, containingDir) :: rest =>
      match visit disk searchDirs { d with pending := rest } modPath containingDir with
      | .error e => some (.error e)
      | .ok d => discover disk searchDirs fuel d

def Source.importCount : Source → Nat
  | .module ast => ast.imports.length
  | _ => 0

/-- As many files as can be looked at: the first, and one for each import on the disk. -/
def Disk.visits (disk : Disk) : Nat := (disk.files.map (·.2.importCount)).sum + 2

structure ModuleNode where
  name : Bytes
  path : Path
  isLib : Bool
  depPaths : List Path
deriving DecidableEq

structure KeyOrder where
  keys : List Bytes → List Bytes
  perm : ∀ names, (keys names).Perm names

namespace Discovery

def graph (d : Discovery) : DepGraph Bytes := ⟨d.deps.map (·.1), d.imports⟩

def node (d : Discovery) (mainAbs : Path) (name : Bytes) : Option ModuleNode := do
  let path ← d.path name
  return ⟨name, path, path ≠ mainAbs, (d.imports name).filterMap d.path⟩

def order (d : Discovery) (mainAbs : Path) (degrees edges : KeyOrder) :
    Option (Except GraphError (List ModuleNode)) := do
  let sorted ← d.graph.sort (degrees.keys d.graph.nodes) (edges.keys d.graph.nodes)
  if sorted.length ≠ d.deps.length then return .error .circular
  else return .ok (sorted.filterMap (d.node mainAbs))

end Discovery

def absolute (currentDir : Option Path) (mainPath : Path) : Option Path :=
  if Path.isAbsolute mainPath then some mainPath else currentDir.map (Path.join · mainPath)

def dirOf (p : Path) : Path := (Path.parent p).getD []

def searchDirs (mainAbs : Path) (includeDirs : List Path) (sysroot : Option Path) : List Path :=
  dirOf mainAbs :: (includeDirs ++ sysroot.toList)

/-- The build order of the program whose root module is at `mainPath`. -/
def resolveGraph (disk : Disk) (currentDir : Option Path) (mainPath : Path)
    (includeDirs : List Path) (sysroot : Option Path) (degrees edges : KeyOrder) :
    Option (Except GraphError (List ModuleNode)) :=
  match absolute currentDir mainPath with
  | none => some (.error .currentDir)
  | some mainAbs =>
    match discover disk (searchDirs mainAbs includeDirs sysroot) disk.visits
      ⟨[], [], [(mainAbs, dirOf mainAbs)]⟩ with
    | none => none
    | some (.error e) => some (.error e)
    | some (.ok d) => d.order mainAbs degrees edges

end Tyu.Graph
