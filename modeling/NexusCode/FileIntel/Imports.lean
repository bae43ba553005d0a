/-
  What language a file is in, and which file an import means.

    1. `detectLanguage`, `isParseable` — from the path alone.
    2. `matchModule`, `resolveImport`  — the first of a list of paths that is a file.
    3. `resolveImport_of_mem`          — with fewer files, an import that falls on one of them falls
                                         on the same one.
-/
import NexusCode.Lib.JsString

namespace NexusCode.FileIntel

open List

/-! ## Languages -/

/-- `Lang`. -/
inductive Lang where
  | typescript | tsx | javascript | jsx | python | go | rust | java | ruby | c | cpp | csharp | php
  | shell | json | yaml | toml | markdown | html | css | sql | unknown
  deriving DecidableEq

/-- `PARSEABLE_LANGS`. -/
def parseableLangs : List Lang := [.typescript, .tsx, .javascript, .jsx, .python, .go]

/-- `EXT_TABLE`. -/
def extTable : List (String × Lang) :=
  [("ts", .typescript), ("mts", .typescript), ("cts", .typescript), ("tsx", .tsx),
    ("js", .javascript), ("mjs", .javascript), ("cjs", .javascript), ("jsx", .jsx),
    ("py", .python), ("pyi", .python), ("go", .go), ("rs", .rust), ("java", .java), ("rb", .ruby),
    ("c", .c), ("h", .c), ("cc", .cpp), ("cpp", .cpp), ("cxx", .cpp), ("hpp", .cpp),
    ("cs", .csharp), ("php", .php), ("sh", .shell), ("bash", .shell), ("zsh", .shell),
    ("json", .json), ("yaml", .yaml), ("yml", .yaml), ("toml", .toml), ("md", .markdown),
    ("markdown", .markdown), ("html", .html), ("htm", .html), ("css", .css), ("sql", .sql)]

/-- `BASENAME_TABLE`. -/
def basenameTable : List (String × Lang) :=
  [("dockerfile", .shell), ("makefile", .shell), ("gemfile", .ruby), ("rakefile", .ruby)]

/-- `toLowerCase`, as far as a table can tell: the Kelvin sign is the one other character whose
    lower case is a letter of ASCII. -/
def lower (c : Char) : Char := if c = '\u212a' then 'k' else c.toLower

/-- What stands before and after the last occurrence. -/
def splitLast (c : Char) : List Char → Option (List Char × List Char)
  | [] => none
  | x :: xs =>
    match splitLast c xs with
    | some (before, after) => some (x :: before, after)
    | none => if x = c then some ([], xs) else none

/-- `filePath.split(/[\\/]/).pop()`. -/
def lastSegment (filePath : String) : List Char :=
  ((filePath.toList.splitOnP fun c => c = '/' || c = '\\').getLast?).getD filePath.toList

/-- `extensionOf`. -/
def extensionOf (filePath : String) : String :=
  match splitLast '.' (lastSegment filePath) with
  | none => ""
  | some (before, after) => if before.isEmpty then "" else String.ofList (after.map lower)

/-- `basenameOf`. -/
def basenameOf (filePath : String) : String := String.ofList ((lastSegment filePath).map lower)

/-- `detectLanguage(filePath)`. -/
def detectLanguage (filePath : String) : Lang :=
  match extTable.lookup (extensionOf filePath) with
  | some lang => lang
  | none =>
    match basenameTable.lookup (basenameOf filePath) with
    | some lang => lang
    | none =>
      -- `Dockerfile.dev`
      let leading := String.ofList ((basenameOf filePath).toList.takeWhile (· ≠ '.'))
      (basenameTable.lookup leading).getD .unknown

/-- `isParseable(lang)`. -/
def isParseable (lang : Lang) : Bool := parseableLangs.contains lang

/-! ## Imports -/

/-- `RESOLVE_EXTS`. -/
def resolveExts : List String :=
  [".ts", ".tsx", ".js", ".jsx", ".mjs", ".cjs", ".mts", ".cts", ".py", ".go"]

/-- `JS_RUNTIME_EXTS`. -/
def jsRuntimeExts : List String := [".js", ".jsx", ".mjs", ".cjs"]

/-- The extensions that stand for a runtime extension. -/
def tsExts : List String := [".ts", ".tsx", ".mts", ".cts"]

/-- `dirname(posix)`. -/
def dirname (posix : String) : String :=
  match splitLast '/' posix.toList with
  | none => ""
  | some (before, _) => String.ofList before

/-- One segment of a path. -/
def pushSegment (parts : List (List Char)) (seg : List Char) : List (List Char) :=
  if seg = [] ∨ seg = ['.'] then parts
  else if seg = ['.', '.'] then parts.dropLast
  else parts ++ [seg]

/-- `normalize(posix)`. -/
def normalize (posix : String) : String :=
  String.ofList (['/'].intercalate ((posix.toList.splitOn '/').foldl pushSegment []))

/-- `pathNoExt.slice(0, -jsExt.length)` with each of the other extensions. -/
def strippedWith (pathNoExt jsExt : String) : List String :=
  if jsExt.toList <:+ pathNoExt.toList then
    tsExts.map (String.ofList (pathNoExt.toList.take (pathNoExt.length - jsExt.length)) ++ ·)
  else []

/-- The paths that `matchModule` tries, in order. -/
def candidates (pathNoExt : String) : List String :=
  [pathNoExt] ++ jsRuntimeExts.flatMap (strippedWith pathNoExt) ++
    resolveExts.map (pathNoExt ++ ·) ++ resolveExts.map (pathNoExt ++ "/index" ++ ·) ++
    [pathNoExt ++ "/__init__.py"]

/-- `matchModule(pathNoExt, fileSet)`. -/
def matchModule (pathNoExt : String) (fileSet : List String) : Option String :=
  (candidates pathNoExt).find? fun candidate => fileSet.contains candidate

/-- The leading dots of a Python module: each but the first climbs one directory. -/
def climb : List Char → String → List Char × String
  | '.' :: rel, baseDir => climb rel (if rel.head? = some '.' then dirname baseDir else baseDir)
  | rel, baseDir => (rel, baseDir)

/-- `resolveImport(spec, fromFile, fileSet)`. -/
def resolveImport (spec fromFile : String) (fileSet : List String) : Option String :=
  if "./".toList <+: spec.toList ∨ "../".toList <+: spec.toList then
    matchModule (normalize (dirname fromFile ++ "/" ++ spec)) fileSet
  else if ".py".toList <:+ fromFile.toList then
    let (rel, baseDir) := climb spec.toList (dirname fromFile)
    let modPath := String.ofList (rel.map fun c => if c = '.' then '/' else c)
    let hit := matchModule (normalize (if baseDir = "" then modPath else baseDir ++ "/" ++ modPath))
      fileSet
    match hit with
    | some path => if path = "" then matchModule (normalize modPath) fileSet else some path
    | none => matchModule (normalize modPath) fileSet
  else none

/-- An import falls on the first file of a list that does not depend on the files. -/
theorem resolveImport_eq (spec fromFile : String) : ∃ tried : List String, ∀ fileSet,
    "" ∉ fileSet →
      resolveImport spec fromFile fileSet = tried.find? fun path => fileSet.contains path := by
  unfold resolveImport
  split
  · exact ⟨_, fun _ _ => rfl⟩
  · split
    · generalize climb spec.toList (dirname fromFile) = climbed
      obtain ⟨rel, baseDir⟩ := climbed
      dsimp only
      generalize String.ofList (rel.map fun c => if c = '.' then '/' else c) = modPath
      refine ⟨candidates
        (normalize (if baseDir = "" then modPath else baseDir ++ "/" ++ modPath)) ++
          candidates (normalize modPath), fun fileSet hnamed => ?_⟩
      rw [List.find?_append]
      unfold matchModule
      split
      · rename_i path hhit
        rw [hhit, if_neg, Option.some_or]
        rintro rfl
        exact hnamed (contains_iff_mem.mp (List.find?_some hhit))
      · rename_i hnone
        rw [hnone, Option.none_or]
    · exact ⟨[], fun _ _ => rfl⟩

section FewerFiles

variable {few many : List String} (hsub : ∀ p ∈ few, p ∈ many) (hnamed : "" ∉ many)
  {spec fromFile t : String}

include hsub hnamed

/-- **With fewer files** an import that falls on one of them still does. -/
theorem resolveImport_of_mem (h : resolveImport spec fromFile many = some t) (ht : t ∈ few) :
    resolveImport spec fromFile few = some t := by
  obtain ⟨tried, htried⟩ := resolveImport_eq spec fromFile
  rw [htried many hnamed] at h
  rw [htried few fun hmem => hnamed (hsub "" hmem)]
  obtain ⟨-, before, after, hsplit, hbefore⟩ := List.find?_eq_some_iff_append.mp h
  refine List.find?_eq_some_iff_append.mpr
    ⟨contains_iff_mem.mpr ht, before, after, hsplit, fun path hpath => ?_⟩
  have hnot := hbefore path hpath
  rw [Bool.not_eq_true', ← Bool.not_eq_true, contains_iff_mem] at hnot ⊢
  exact fun hmem => hnot (hsub path hmem)

theorem resolveImport_none (h : resolveImport spec fromFile many = none) :
    resolveImport spec fromFile few = none := by
  obtain ⟨tried, htried⟩ := resolveImport_eq spec fromFile
  rw [htried many hnamed, List.find?_eq_none] at h
  rw [htried few fun hmem => hnamed (hsub "" hmem), List.find?_eq_none]
  intro path hpath hmem
  refine h path hpath (contains_iff_mem.mpr (hsub path ?_))
  exact contains_iff_mem.mp hmem

end FewerFiles

example : resolveImport "./util.js" "src/a.ts" ["src/a.ts", "src/util.ts"] =
    some "src/util.ts" := by decide +kernel

end NexusCode.FileIntel
