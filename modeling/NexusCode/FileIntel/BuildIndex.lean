/-
  The repository index, built in one go.

  A tree is what a walk of it finds: the files, in the order of their paths, and what reading one
  of them gives at that moment.

    1. `parseEntry`, `parseFile` — the first pass, over one file.
    2. `link`                    — the second pass: imports to edges.
    3. `crossRefs`               — the third pass.
    4. `buildIndex_eq`           — the index as a function of the files that could be read.
-/
import NexusCode.FileIntel.Imports
import NexusCode.Lib.JsMap
import NexusCode.Lib.JsonValue

namespace NexusCode.FileIntel

open Lib List

/-- `SymbolKind`. -/
inductive SymbolKind where
  | function | «class» | method | interface | type | enum | const | «variable» | struct
  deriving DecidableEq

/-- `CodeSymbol`. -/
structure CodeSymbol where
  name : String
  kind : SymbolKind
  line : Nat
  exported : Bool
  signature : String
  container : Option String := none
  deriving DecidableEq

/-- `SymbolDef`. -/
structure SymbolDef extends CodeSymbol where
  file : String
  deriving DecidableEq

/-- `FileInfo`. -/
structure FileInfo where
  path : String
  lang : Lang
  bytes : Nat
  symbols : List CodeSymbol
  imports : List String
  deps : List String
  deriving DecidableEq

/-- `RepoIndex`. -/
structure RepoIndex where
  root : String
  files : JsMap String FileInfo
  symbols : JsMap String (List SymbolDef)
  dependencies : JsMap String (List String)
  dependents : JsMap String (List String)
  xrefs : JsMap String (List String)

/-- `Parser`. -/
structure Parser where
  symbols : String → Lang → List CodeSymbol
  imports : String → Lang → List String

/-- The options of both indexers that are not those of the walk. -/
structure ParseOptions where
  parser : Parser
  maxReadBytes : JsNumber := .fin 512000

/-- `WalkEntry`. -/
structure WalkEntry where
  path : String
  absPath : String
  bytes : Nat
  mtimeMs : Rat

/-- A file tree at a moment, as `walkProject` and `readFile` find it. -/
structure Tree where
  root : String
  walked : List WalkEntry
  /-- `readFile(absPath, "utf8")`, or `none` where it fails. -/
  read : String → Option String
  /-- `walkProject` sorts, and no path comes twice. -/
  sorted : (walked.map (·.path)).Pairwise fun a b => JsString.ltUnits a b = true
  named : "" ∉ walked.map (·.path)

/-! ## Identifiers -/

/-- `[\w$]`. -/
def isWordChar (c : Char) : Bool := c.isAlphanum || c = '_' || c = '$'

/-- `identifiers(code)`: the runs of word characters, each from its first character that is no
    digit. -/
def identifiers (code : String) : List String :=
  (((code.toList.splitOnP (!isWordChar ·)).map (·.dropWhile Char.isDigit)).filter (· ≠ [])).foldl
    (fun out word => JsSet.add (String.ofList word) out) []

example : identifiers "let x1 = 2x + x1;" = ["let", "x1", "x"] := by decide +kernel

/-! ## First pass -/

section Passes

variable (opts : ParseOptions)

/-- What is known of one file, if it is looked at and can be read. -/
def parseEntry (t : Tree) (entry : WalkEntry) : Option (String × FileInfo) :=
  let lang := detectLanguage entry.path
  if isParseable lang = false then none
  else if JsNumber.lt opts.maxReadBytes (.fin entry.bytes) then none
  else (t.read entry.absPath).map fun code =>
    (code,
      { path := entry.path, lang, bytes := entry.bytes, symbols := opts.parser.symbols code lang
        imports := opts.parser.imports code lang, deps := [] })

/-- The symbols of one file, each at the end of the list of its name. -/
def addSymbols (symbols : JsMap String (List SymbolDef)) (info : FileInfo) :
    JsMap String (List SymbolDef) :=
  info.symbols.foldl
    (fun symbols s =>
      symbols.set s.name ((symbols.get? s.name).getD [] ++ [{ s with file := info.path }]))
    symbols

/-- What the first pass collects. -/
structure Parsed where
  contents : JsMap String String := .empty
  files : JsMap String FileInfo := .empty
  symbols : JsMap String (List SymbolDef) := .empty

/-- The first pass over one file. -/
def parseFile (t : Tree) (parsed : Parsed) (entry : WalkEntry) : Parsed :=
  match parseEntry opts t entry with
  | none => parsed
  | some (code, info) =>
    { contents := parsed.contents.set entry.path code
      files := parsed.files.set entry.path info
      symbols := addSymbols parsed.symbols info }

/-! ## Second pass -/

/-- One import of a file. -/
def addDep (fileSet : List String) (files : JsMap String FileInfo) (info : FileInfo)
    (deps : List String) (spec : String) : List String :=
  match resolveImport spec info.path fileSet with
  | none => deps
  | some target =>
    if target ≠ "" ∧ target ≠ info.path ∧ (files.get? target).isSome then JsSet.add target deps
    else deps

/-- The dependencies of a file. -/
def depsOf (fileSet : List String) (files : JsMap String FileInfo) (info : FileInfo) :
    List String :=
  info.imports.foldl (addDep fileSet files info) []

/-- The order of `sort()`. -/
def pathLe (a b : String) : Prop := Json.keyLe a b = true

instance : DecidableRel pathLe := fun a b => inferInstanceAs (Decidable (Json.keyLe a b = true))

instance : Std.Total pathLe := ⟨Json.keyLe_total⟩

instance : IsTrans String pathLe := ⟨fun _ _ _ => Json.keyLe_trans⟩

/-- `[...].sort()`. -/
def sortPaths (paths : List String) : List String := paths.insertionSort pathLe

theorem sortPaths_of_perm {paths sorted : List String} (hperm : paths.Perm sorted)
    (hsorted : sorted.Pairwise pathLe) : sortPaths paths = sorted := by
  refine List.Perm.eq_of_pairwise ?_ (pairwise_insertionSort pathLe paths) hsorted
    ((perm_insertionSort pathLe paths).trans hperm)
  exact fun a b _ _ hab hba => Json.keyLe_antisymm hab hba

/-- A file with its dependencies. -/
def withDeps (fileSet : List String) (files : JsMap String FileInfo) (info : FileInfo) : FileInfo :=
  { info with deps := sortPaths (depsOf fileSet files info) }

/-- What the second pass collects. -/
structure Links where
  dependencies : JsMap String (List String) := .empty
  dependents : JsMap String (List String) := .empty

/-- The second pass over one file. -/
def linkFile (fileSet : List String) (files : JsMap String FileInfo) (links : Links)
    (info : FileInfo) : Links :=
  { dependencies := links.dependencies.set info.path (depsOf fileSet files info)
    dependents := (depsOf fileSet files info).foldl
      (fun dependents target =>
        dependents.set target (JsSet.add info.path ((dependents.get? target).getD [])))
      links.dependents }

/-- The second pass. -/
def link (fileSet : List String) (files : JsMap String FileInfo) : Links :=
  files.values.foldl (linkFile fileSet files) {}

/-! ## Third pass -/

/-- One identifier of a file. -/
def addRef (symbols : JsMap String (List SymbolDef)) (file : String)
    (xrefs : JsMap String (List String)) (name : String) : JsMap String (List String) :=
  match symbols.get? name with
  | none => xrefs
  | some defs =>
    if defs.any (·.file = file) then xrefs
    else xrefs.set name (JsSet.add file ((xrefs.get? name).getD []))

/-- The third pass: each file with its identifiers. -/
def crossRefs (symbols : JsMap String (List SymbolDef)) (tokens : List (String × List String)) :
    JsMap String (List String) :=
  tokens.foldl (fun xrefs file => file.2.foldl (addRef symbols file.1) xrefs) .empty

/-- `buildIndex`. -/
def buildIndex (t : Tree) : RepoIndex :=
  let fileSet := t.walked.map (·.path)
  let parsed := t.walked.foldl (parseFile opts t) {}
  let links := link fileSet parsed.files
  { root := t.root
    files := parsed.files.mapValues (withDeps fileSet parsed.files)
    symbols := parsed.symbols
    dependencies := links.dependencies
    dependents := links.dependents
    xrefs := crossRefs parsed.symbols
      (parsed.contents.entries.map fun e => (e.1, identifiers e.2)) }

/-! ## The index as a whole -/

/-- The files that are read. -/
def indexed (t : Tree) : List (String × FileInfo) := t.walked.filterMap (parseEntry opts t)

end Passes

/-- The index of files with their identifiers, for which imports are looked up in a set. -/
def indexOf (root : String) (fileSet : List String) (infos : List FileInfo)
    (tokens : List (String × List String)) : RepoIndex :=
  let files := JsMap.setAll (·.path) .empty infos
  let symbols := infos.foldl addSymbols .empty
  let links := link fileSet files
  { root
    files := files.mapValues (withDeps fileSet files)
    symbols
    dependencies := links.dependencies
    dependents := links.dependents
    xrefs := crossRefs symbols tokens }

variable {opts : ParseOptions} {t : Tree}

theorem parseEntry_path {entry : WalkEntry} {file : String × FileInfo}
    (h : parseEntry opts t entry = some file) : file.2.path = entry.path := by
  unfold parseEntry at h
  dsimp only at h
  split at h
  · nomatch h
  split at h
  · nomatch h
  obtain ⟨code, -, rfl⟩ := Option.map_eq_some_iff.mp h
  rfl

/-- The paths of the files that are read, in the order of the walk. -/
theorem indexed_sublist : ((indexed opts t).map (·.2.path)).Sublist (t.walked.map (·.path)) := by
  unfold indexed
  induction t.walked with
  | nil => exact .slnil
  | cons entry walked ih =>
    rw [filterMap_cons, map_cons]
    split
    · exact ih.cons _
    · rename_i file hfile
      rw [map_cons, parseEntry_path hfile]
      exact ih.cons_cons _

theorem Tree.nodup (t : Tree) : (t.walked.map (·.path)).Nodup := by
  refine t.sorted.imp fun {a b} hlt heq => ?_
  subst heq
  unfold JsString.ltUnits at hlt
  rw [JsString.ltList_irrefl] at hlt
  nomatch hlt

theorem Tree.pairwise (t : Tree) : (t.walked.map (·.path)).Pairwise pathLe := by
  refine t.sorted.imp fun {a b} hlt => ?_
  unfold pathLe Json.keyLe
  cases hgt : JsString.ltUnits b a with
  | false => rfl
  | true =>
    have hloop := JsString.ltList_trans hlt hgt
    rw [JsString.ltList_irrefl] at hloop
    nomatch hloop

theorem foldl_parseFile (walked : List WalkEntry) (parsed : Parsed) :
    walked.foldl (parseFile opts t) parsed =
      { contents := ((walked.filterMap (parseEntry opts t)).map fun file =>
          (file.2.path, file.1)).foldl (fun m e => m.set e.1 e.2) parsed.contents
        files := JsMap.setAll (·.path) parsed.files
          ((walked.filterMap (parseEntry opts t)).map Prod.snd)
        symbols := ((walked.filterMap (parseEntry opts t)).map Prod.snd).foldl addSymbols
          parsed.symbols } := by
  induction walked generalizing parsed with
  | nil => rfl
  | cons entry walked ih =>
    rw [foldl_cons, ih, filterMap_cons]
    unfold parseFile
    split
    · rename_i hnone
      rw [hnone]
    · rename_i code info hsome
      have hpath : info.path = entry.path := parseEntry_path hsome
      rw [hsome, ← hpath]
      rfl

/-- **The index** depends on the walk and the files that were read. -/
theorem buildIndex_eq (opts : ParseOptions) (t : Tree) :
    buildIndex opts t = indexOf t.root (t.walked.map (·.path)) ((indexed opts t).map Prod.snd)
      ((indexed opts t).map fun file => (file.2.path, identifiers file.1)) := by
  have hcontents : (((indexed opts t).map fun file => (file.2.path, file.1)).foldl
      (fun m e => m.set e.1 e.2) JsMap.empty).entries =
      (indexed opts t).map fun file => (file.2.path, file.1) := by
    rw [JsMap.entries_foldl_set _ JsMap.empty]
    · exact nil_append _
    · rw [map_map]
      exact t.nodup.sublist indexed_sublist
  unfold buildIndex indexOf
  rw [foldl_parseFile]
  dsimp only
  show RepoIndex.mk _ _ _ _ _ (crossRefs _ ((JsMap.entries (((indexed opts t).map
    fun file => (file.2.path, file.1)).foldl (fun m e => m.set e.1 e.2) JsMap.empty)).map _)) = _
  rw [hcontents, map_map]
  rfl

end NexusCode.FileIntel
