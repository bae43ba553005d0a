/-
  `tools/src/paths.ts`: workspace paths and their confinement.

  The file system and the working directory of the process are given; a path is taken apart at its
  slashes, where an empty part stands for the directory it is in.  Joining is the appending of
  names, which are normal already.

    1. `pathResolve`, `escapes`        — `path.resolve`, `path.relative`.
    2. `realpath`, `realpathAllowingMissing` — real paths.
    3. `resolveInWorkspace`            — the two checks.
-/
import NexusCode.Lib.FileTree

namespace NexusCode.Workspace

open Lib

/-- The host: its files, the directory the process works in, and how many links a path may go
    through. -/
structure Host where
  tree : Node
  cwd : Place
  links : Nat
  cwd_ok : tree.DirAt cwd

/-- The parts of a path. -/
def pathText (p : String) : PathText where
  absolute := p.toList.head? = some '/'
  parts := (p.toList.splitOn '/').map String.ofList

/-! ## Paths as texts -/

/-- The names that are left of parts behind others. -/
def normalize : Place → List String → Place
  | place, [] => place
  | place, name :: rest =>
    if name = "" || name = "." then normalize place rest
    else if name = ".." then normalize place.dropLast rest
    else normalize (place ++ [name]) rest

/-- `path.resolve(root, p)`. -/
def pathResolve (h : Host) (root p : String) : Place :=
  if (pathText p).absolute then normalize [] (pathText p).parts
  else normalize (if (pathText root).absolute then [] else h.cwd)
    ((pathText root).parts ++ (pathText p).parts)

/-- `path.relative(from, to)`. -/
def relative : Place → Place → List String
  | a :: as, b :: bs =>
    if a = b then relative as bs else List.replicate (as.length + 1) ".." ++ b :: bs
  | as, bs => List.replicate as.length ".." ++ bs

/-- `escapes(rel)`; what `path.relative` produces is never absolute here. -/
def escapes (rel : List String) : Bool := rel.head? = some ".."

/-! ## Real paths -/

/-- `err.code`. -/
inductive Errno where
  | ENOENT
  | ENOTDIR
  | ELOOP
deriving DecidableEq

/-- `fs.realpath(path)`, for a path that is absolute. -/
def realPlace (h : Host) (place : Place) (parts : List String) : Except Errno Place :=
  match resolve h.tree h.links place parts with
  | .found real _ => .ok real
  | .missing _ => .error .ENOENT
  | .absent => .error .ENOENT
  | .notDir => .error .ENOTDIR
  | .looped => .error .ELOOP

/-- `fs.realpath(root)`. -/
def realpath (h : Host) (root : String) : Except Errno Place :=
  realPlace h (if (pathText root).absolute then [] else h.cwd) (pathText root).parts

/-- The loop of `realpathAllowingMissing(target)`; the current path has its last name in front. -/
def allowingMissing (h : Host) (target : Place) : List String → List String → Except Errno Place
  | [], trailing =>
    match realPlace h [] [] with
    | .ok real => .ok (real ++ trailing)
    | .error code => if code = .ENOENT || code = .ENOTDIR then .ok target else .error code
  | base :: parent, trailing =>
    match realPlace h [] (base :: parent).reverse with
    | .ok real => .ok (real ++ trailing)
    | .error code =>
      if code = .ENOENT || code = .ENOTDIR then allowingMissing h target parent (base :: trailing)
      else .error code

/-- `realpathAllowingMissing(target)`. -/
def realpathAllowingMissing (h : Host) (target : Place) : Except Errno Place :=
  allowingMissing h target target.reverse []

/-! ## Confinement -/

/-- Why a path is refused. -/
inductive Refusal where
  | invalid_argument (message : String)
  | errno (code : Errno)
deriving DecidableEq

/-- The error of the file system is passed on. -/
def passed {α : Type} : Except Errno α → Except Refusal α
  | .ok a => .ok a
  | .error code => .error (.errno code)

/-- `resolveInWorkspace(root, p)`. -/
def resolveInWorkspace (h : Host) (root p : String) : Except Refusal Place :=
  let abs := pathResolve h root p
  if escapes (relative (pathResolve h root "") abs) then
    .error (.invalid_argument ("path escapes workspace root: " ++ p))
  else do
    let realRoot ← passed (realpath h root)
    let real ← passed (realpathAllowingMissing h abs)
    if escapes (relative realRoot real) then
      .error (.invalid_argument ("path escapes workspace root: " ++ p))
    else return abs

end NexusCode.Workspace
