/-
  `applyUnifiedDiff`: the patches of a diff, one file after the other.

  The file system is a parameter: what a path resolves to in the workspace, what a file holds, and
  what comes of writing and removing one; any of them may be refused with an error.

    1. `Disk`                    — the file system below the workspace.
    2. `applyPatch`, `applyUnifiedDiff` — the code.
    3. `Change`, `changes`       — what each patch did to its file.
-/
import NexusCode.Patch.UnifiedDiff

namespace NexusCode.Patch

/-- The file system: `resolveInWorkspace`, `fs.readFile`, `fs.rm` with `force`, and `fs.mkdir` with
    `fs.writeFile`.  What is written is there afterwards, and what is removed is not. -/
structure Disk (σ : Type) where
  resolve : σ → String → Except String String
  read : σ → String → Option Text
  remove : σ → String → Except String σ
  write : σ → String → Text → Except String σ
  read_remove : ∀ {s s' path}, remove s path = .ok s' → read s' path = none
  read_write : ∀ {s s' path text}, write s path text = .ok s' → read s' path = some text

/-- The lines of a file; none if it is missing. -/
def Disk.linesAt {σ : Type} (disk : Disk σ) (s : σ) (path : String) : List Text :=
  match disk.read s path with
  | some text => splitLines text
  | none => []

/-- `stripDiffPrefix(p)`. -/
def stripDiffPrefix (p : String) : String :=
  if p = "/dev/null" then p
  else if "a/".toList <+: p.toList || "b/".toList <+: p.toList then String.ofList (p.toList.drop 2)
  else p

/-- What was done to a file. -/
inductive Op where
  | create
  | modify
  | delete
deriving DecidableEq

/-- `{ path, op }`. -/
structure Touched where
  path : String
  op : Op
deriving DecidableEq

/-- The text the hunks of a patch are applied to. -/
def originalText {σ : Type} (disk : Disk σ) (s : σ) (isCreate : Bool) (newPath absNew : String) :
    Except String Text :=
  if isCreate then .ok []
  else match disk.read s absNew with
    | some text => .ok text
    | none => .error ("target file not found for patch: " ++ newPath)

/-- One round of the loop of `applyUnifiedDiff`. -/
def applyPatch {σ : Type} (disk : Disk σ) (s : σ) (patch : FilePatch) :
    Except String (σ × Touched) :=
  let oldPath := stripDiffPrefix patch.oldPath
  let newPath := stripDiffPrefix patch.newPath
  if newPath = "/dev/null" then do
    let absOld ← disk.resolve s oldPath
    let s ← disk.remove s absOld
    return (s, ⟨oldPath, .delete⟩)
  else do
    let absNew ← disk.resolve s newPath
    let original ← originalText disk s (oldPath = "/dev/null") newPath absNew
    let updated ← applyHunks original patch.hunks
    let s ← disk.write s absNew updated
    return (s, ⟨newPath, if oldPath = "/dev/null" then .create else .modify⟩)

/-- The loop of `applyUnifiedDiff`. -/
def applyPatches {σ : Type} (disk : Disk σ) : σ → List FilePatch → Except String (σ × List Touched)
  | s, [] => .ok (s, [])
  | s, patch :: rest => do
    let (s, touched) ← applyPatch disk s patch
    let (s, more) ← applyPatches disk s rest
    return (s, touched :: more)

/-- `applyUnifiedDiff(root, diff)`, with the state of the file system. -/
def applyUnifiedDiff {σ : Type} (disk : Disk σ) (s : σ) (diff : Text) :
    Except String (σ × List Touched) := do
  let patches ← parseUnifiedDiff diff
  if patches.isEmpty then .error "no file patches found in diff"
  else applyPatches disk s patches

/-! ## What each patch did -/

/-- What a patch did to a file: the lines before and after it. -/
structure Change extends Touched where
  hunks : List Hunk
  previous : List Text
  now : List Text
deriving DecidableEq

/-- The lines of the file that a touched path resolves to. -/
def Touched.lines {σ : Type} (disk : Disk σ) (s s' : σ) (touched : Touched) : List Text :=
  match disk.resolve s touched.path with
  | .ok abs => disk.linesAt s' abs
  | .error _ => []

/-- The changes that patches make, one after the other. -/
def changes {σ : Type} (disk : Disk σ) : σ → List FilePatch → List Change
  | _, [] => []
  | s, patch :: rest =>
    match applyPatch disk s patch with
    | .ok (s', touched) =>
      ⟨touched, patch.hunks, touched.lines disk s s, touched.lines disk s s'⟩ ::
        changes disk s' rest
    | .error _ => []

/-- The changes that a diff makes. -/
def changesOf {σ : Type} (disk : Disk σ) (s : σ) (diff : Text) : List Change :=
  match parseUnifiedDiff diff with
  | .ok patches => changes disk s patches
  | .error _ => []

end NexusCode.Patch
