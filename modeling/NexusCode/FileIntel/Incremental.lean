/-
  The repository index, kept up to date.

  The indexer remembers, for each path, when the file was last read and what was found in it.  An
  update reads what looks changed, forgets what is gone, and assembles the index from what it
  remembers.

    1. `visit`, `forget`, `assemble`, `update` — one update.
    2. `Cell`, `cell_visit`   — what the indexer remembers of one path, and what a visit makes of
                                it.
    3. `indexOf_bare`, `indexOf_fileSet` — what the index does not depend on.
    4. `Mirrors`              — the indexer remembers exactly the files that can be read.
    5. **`incremental_full`** — careful updates return the full index.
-/
import NexusCode.FileIntel.BuildIndex
import NexusCode.Lib.Machine

namespace NexusCode.FileIntel

open Lib List

/-! ## An update -/

/-- What the manifest holds of a file. -/
structure Stat where
  mtimeMs : Rat
  bytes : Nat
  deriving DecidableEq

def WalkEntry.stat (entry : WalkEntry) : Stat := ⟨entry.mtimeMs, entry.bytes⟩

/-- `IncrementalRepoIndexer`. -/
structure Indexer where
  manifest : JsMap String Stat := .empty
  fileInfos : JsMap String FileInfo := .empty
  identifiers : JsMap String (List String) := .empty

/-- The indexer in the middle of an update. -/
structure Pass where
  indexer : Indexer
  changed : List String := []
  reused : List String := []
  present : List String := []

/-- `IncrementalUpdate`. -/
structure IncrementalUpdate where
  index : RepoIndex
  changed : List String
  removed : List String
  reused : List String

section Update

variable (opts : ParseOptions)

/-- A file that is there is too large, cannot be read, or is read. -/
def reread (t : Tree) (pass : Pass) (entry : WalkEntry) : Pass :=
  let s := pass.indexer
  let lang := detectLanguage entry.path
  if JsNumber.lt opts.maxReadBytes (.fin entry.bytes) then
    { pass with
      indexer :=
        { manifest := s.manifest.set entry.path entry.stat
          fileInfos := s.fileInfos.delete entry.path
          identifiers := s.identifiers.delete entry.path } }
  else
    match t.read entry.absPath with
    | none => pass
    | some code =>
      { pass with
        indexer :=
          { manifest := s.manifest.set entry.path entry.stat
            fileInfos := s.fileInfos.set entry.path
              { path := entry.path, lang, bytes := entry.bytes
                symbols := opts.parser.symbols code lang
                imports := opts.parser.imports code lang, deps := [] }
            identifiers := s.identifiers.set entry.path (FileIntel.identifiers code) }
        changed := pass.changed ++ [entry.path] }

/-- One file of the walk. -/
def visit (t : Tree) (pass : Pass) (entry : WalkEntry) : Pass :=
  if isParseable (detectLanguage entry.path) = false then pass
  else
    let pass := { pass with present := JsSet.add entry.path pass.present }
    if pass.indexer.manifest.get? entry.path = some entry.stat ∧
        (pass.indexer.fileInfos.get? entry.path).isSome then
      { pass with reused := pass.reused ++ [entry.path] }
    else reread opts t pass entry

/-- A path of the manifest that was not met is forgotten. -/
def forget (present : List String) (s : Indexer × List String) (path : String) :
    Indexer × List String :=
  if path ∈ present then s
  else
    ({ manifest := s.1.manifest.delete path
       fileInfos := s.1.fileInfos.delete path
       identifiers := s.1.identifiers.delete path },
      s.2 ++ [path])

/-- A remembered file goes into the maps of the index. -/
def collect (s : Indexer) (maps : JsMap String FileInfo × JsMap String (List SymbolDef))
    (path : String) : JsMap String FileInfo × JsMap String (List SymbolDef) :=
  match s.fileInfos.get? path with
  | none => maps
  | some info => (maps.1.set info.path info, addSymbols maps.2 info)

/-- `assemble(root)`.  The remembered files get their dependencies, too. -/
def assemble (s : Indexer) (root : String) : RepoIndex × Indexer :=
  let sortedPaths := sortPaths s.fileInfos.keys
  let (files, symbols) := sortedPaths.foldl (collect s) (.empty, .empty)
  let links := link files.keys files
  ({ root
     files := files.mapValues (withDeps files.keys files)
     symbols
     dependencies := links.dependencies
     dependents := links.dependents
     xrefs := crossRefs symbols
       (sortedPaths.filterMap fun file => (s.identifiers.get? file).map (file, ·)) },
    { s with fileInfos := s.fileInfos.mapValues (withDeps files.keys files) })

/-- `update(root)`. -/
def update (t : Tree) (s : Indexer) : IncrementalUpdate × Indexer :=
  let pass := t.walked.foldl (visit opts t) { indexer := s }
  let (s', removed) := pass.indexer.manifest.keys.foldl (forget pass.present) (pass.indexer, [])
  let (index, s'') := assemble s' t.root
  ({ index, changed := sortPaths pass.changed, removed := sortPaths removed
     reused := sortPaths pass.reused }, s'')

end Update

/-! ## What is remembered of one path -/

/-- What the indexer remembers of a path. -/
structure Cell where
  stat : Option Stat
  info : Option FileInfo
  identifiers : Option (List String)

def Indexer.cell (s : Indexer) (path : String) : Cell :=
  ⟨s.manifest.get? path, s.fileInfos.get? path, s.identifiers.get? path⟩

variable {opts : ParseOptions} {t t' : Tree} {s : Indexer}

/-- What a visit makes of the cell of its path. -/
def visitCell (opts : ParseOptions) (t : Tree) (entry : WalkEntry) (cell : Cell) : Cell :=
  if isParseable (detectLanguage entry.path) = false then cell
  else if cell.stat = some entry.stat ∧ cell.info.isSome then cell
  else if JsNumber.lt opts.maxReadBytes (.fin entry.bytes) then ⟨some entry.stat, none, none⟩
  else
    match parseEntry opts t entry with
    | none => cell
    | some (code, info) => ⟨some entry.stat, some info, some (identifiers code)⟩

theorem cell_reread (pass : Pass) (entry : WalkEntry) (path : String) :
    (reread opts t pass entry).indexer.cell path =
      if entry.path = path then
        if JsNumber.lt opts.maxReadBytes (.fin entry.bytes) then ⟨some entry.stat, none, none⟩
        else
          match t.read entry.absPath with
          | none => pass.indexer.cell path
          | some code =>
            ⟨some entry.stat,
              some
                { path := entry.path, lang := detectLanguage entry.path, bytes := entry.bytes
                  symbols := opts.parser.symbols code (detectLanguage entry.path)
                  imports := opts.parser.imports code (detectLanguage entry.path), deps := [] },
              some (identifiers code)⟩
      else pass.indexer.cell path := by
  unfold reread Indexer.cell
  dsimp only
  by_cases hsize : JsNumber.lt opts.maxReadBytes (.fin entry.bytes) = true
  · rw [if_pos hsize, if_pos hsize]
    dsimp only
    rw [JsMap.get?_set, JsMap.get?_delete, JsMap.get?_delete]
    split <;> rfl
  · rw [if_neg hsize, if_neg hsize]
    cases t.read entry.absPath with
    | none => exact (ite_self _).symm
    | some code =>
      dsimp only
      rw [JsMap.get?_set, JsMap.get?_set, JsMap.get?_set]
      split <;> rfl

theorem cell_visit (pass : Pass) (entry : WalkEntry) (path : String) :
    (visit opts t pass entry).indexer.cell path =
      if entry.path = path then visitCell opts t entry (pass.indexer.cell path)
      else pass.indexer.cell path := by
  by_cases hlang : isParseable (detectLanguage entry.path) = false
  · have hvisit : visit opts t pass entry = pass := if_pos hlang
    have hcell : visitCell opts t entry (pass.indexer.cell path) = pass.indexer.cell path :=
      if_pos hlang
    rw [hvisit, hcell, ite_self]
  by_cases hkept : pass.indexer.manifest.get? entry.path = some entry.stat ∧
      (pass.indexer.fileInfos.get? entry.path).isSome
  · unfold visit
    rw [if_neg hlang]
    dsimp only
    rw [if_pos hkept]
    split
    · rename_i heq
      subst heq
      unfold visitCell
      rw [if_neg hlang]
      exact (if_pos hkept).symm
    · rfl
  · unfold visit
    rw [if_neg hlang]
    dsimp only
    rw [if_neg hkept, cell_reread]
    split
    · rename_i heq
      subst heq
      have hcell : visitCell opts t entry (pass.indexer.cell entry.path) =
          if JsNumber.lt opts.maxReadBytes (.fin entry.bytes) then ⟨some entry.stat, none, none⟩
          else
            match parseEntry opts t entry with
            | none => pass.indexer.cell entry.path
            | some (code, info) => ⟨some entry.stat, some info, some (identifiers code)⟩ := by
        unfold visitCell
        rw [if_neg hlang]
        exact if_neg hkept
      rw [hcell]
      split
      · rfl
      · rename_i hsize
        unfold parseEntry
        dsimp only
        rw [if_neg hlang, if_neg hsize]
        cases t.read entry.absPath with
        | none => rfl
        | some code => rfl
    · rfl

theorem present_visit (pass : Pass) (entry : WalkEntry) (path : String) :
    path ∈ (visit opts t pass entry).present ↔
      (path = entry.path ∧ isParseable (detectLanguage path) = true) ∨ path ∈ pass.present := by
  unfold visit
  split
  · rename_i hlang
    refine (or_iff_right ?_).symm
    rintro ⟨rfl, hparse⟩
    rw [hlang] at hparse
    nomatch hparse
  · rename_i hlang
    rw [Bool.not_eq_false] at hlang
    have hadd : path ∈ JsSet.add entry.path pass.present ↔
        (path = entry.path ∧ isParseable (detectLanguage path) = true) ∨ path ∈ pass.present := by
      rw [JsSet.mem_add]
      refine or_congr_left ⟨fun heq => ⟨heq, heq ▸ hlang⟩, And.left⟩
    dsimp only
    split
    · exact hadd
    · unfold reread
      dsimp only
      split
      · exact hadd
      · split
        · exact hadd
        · exact hadd

theorem cell_foldl_visit (walked : List WalkEntry) (pass : Pass)
    (hnodup : (walked.map (·.path)).Nodup) :
    (∀ entry ∈ walked, (walked.foldl (visit opts t) pass).indexer.cell entry.path =
      visitCell opts t entry (pass.indexer.cell entry.path)) ∧
    (∀ path ∉ walked.map (·.path), (walked.foldl (visit opts t) pass).indexer.cell path =
      pass.indexer.cell path) ∧
    ∀ path, path ∈ (walked.foldl (visit opts t) pass).present ↔
      (path ∈ walked.map (·.path) ∧ isParseable (detectLanguage path) = true) ∨
        path ∈ pass.present := by
  induction walked generalizing pass with
  | nil =>
    refine ⟨forall_mem_nil _, fun _ _ => rfl, fun path => ?_⟩
    exact (or_iff_right fun h => not_mem_nil h.1).symm
  | cons entry walked ih =>
    rw [map_cons, nodup_cons] at hnodup
    obtain ⟨hmet, hother, hpresent⟩ := ih (visit opts t pass entry) hnodup.2
    rw [foldl_cons]
    refine ⟨forall_mem_cons.mpr ⟨?_, fun e he => ?_⟩, fun path hpath => ?_, fun path => ?_⟩
    · rw [hother entry.path hnodup.1, cell_visit, if_pos rfl]
    · have hne : entry.path ≠ e.path := fun heq =>
        hnodup.1 (heq ▸ mem_map_of_mem he)
      rw [hmet e he, cell_visit, if_neg hne]
    · rw [map_cons, mem_cons, not_or] at hpath
      rw [hother path hpath.2, cell_visit, if_neg (Ne.symm hpath.1)]
    · rw [hpresent, present_visit, map_cons, mem_cons, ← or_assoc, ← or_and_right,
        or_comm (a := path ∈ walked.map (·.path))]

theorem cell_foldl_forget (present : List String) (paths : List String)
    (s : Indexer × List String) (path : String) :
    (paths.foldl (forget present) s).1.cell path =
      if path ∈ paths ∧ path ∉ present then ⟨none, none, none⟩ else s.1.cell path := by
  induction paths generalizing s with
  | nil => exact (if_neg fun h => not_mem_nil h.1).symm
  | cons p paths ih =>
    have hone : (forget present s p).1.cell path =
        if path = p ∧ path ∉ present then ⟨none, none, none⟩ else s.1.cell path := by
      unfold forget
      split
      · rename_i hmem
        exact (if_neg fun h => h.2 (h.1 ▸ hmem)).symm
      · rename_i hmem
        unfold Indexer.cell
        dsimp only
        rw [JsMap.get?_delete, JsMap.get?_delete, JsMap.get?_delete]
        by_cases heq : p = path
        · subst heq
          rw [if_pos rfl, if_pos rfl, if_pos rfl, if_pos ⟨rfl, hmem⟩]
        · rw [if_neg heq, if_neg heq, if_neg heq, if_neg fun h => heq h.1.symm]
    rw [foldl_cons, ih, hone]
    grind

/-! ## What the index does not depend on -/

/-- What was found in a file, without its dependencies. -/
def FileInfo.bare (info : FileInfo) : FileInfo := { info with deps := [] }

variable {infos : List FileInfo}

theorem values_setAll (hnodup : (infos.map (·.path)).Nodup) :
    (JsMap.setAll (·.path) .empty infos).values = infos := by
  unfold JsMap.values
  rw [JsMap.entries_setAll hnodup, map_map]
  exact List.map_id infos

theorem setAll_bare (hnodup : (infos.map (·.path)).Nodup) :
    JsMap.setAll (·.path) .empty (infos.map FileInfo.bare) =
      (JsMap.setAll (·.path) .empty infos).mapValues FileInfo.bare := by
  refine JsMap.ext ?_
  rw [JsMap.entries_setAll (by rw [map_map]; exact hnodup)]
  show _ = (JsMap.entries _).map _
  rw [JsMap.entries_setAll hnodup, map_map, map_map]
  rfl

theorem depsOf_bare (fileSet : List String) (files : JsMap String FileInfo) :
    depsOf fileSet (files.mapValues FileInfo.bare) = depsOf fileSet files := by
  have hdep : addDep fileSet (files.mapValues FileInfo.bare) = addDep fileSet files := by
    funext info deps spec
    unfold addDep
    split
    · rfl
    · rw [JsMap.get?_mapValues, Option.isSome_map]
  funext info
  unfold depsOf
  rw [hdep]

/-- **Dependencies found earlier** do not matter. -/
theorem indexOf_bare (root : String) (fileSet : List String)
    (hnodup : (infos.map (·.path)).Nodup) (tokens : List (String × List String)) :
    indexOf root fileSet (infos.map FileInfo.bare) tokens = indexOf root fileSet infos tokens := by
  have hsymbols : (infos.map FileInfo.bare).foldl addSymbols .empty =
      infos.foldl addSymbols .empty := foldl_map
  have hwith : withDeps fileSet ((JsMap.setAll (·.path) .empty infos).mapValues FileInfo.bare) ∘
      FileInfo.bare = withDeps fileSet (JsMap.setAll (·.path) .empty infos) := by
    funext info
    unfold withDeps
    rw [depsOf_bare]
    rfl
  have hlink : link fileSet ((JsMap.setAll (·.path) .empty infos).mapValues FileInfo.bare) =
      link fileSet (JsMap.setAll (·.path) .empty infos) := by
    unfold link linkFile
    rw [depsOf_bare, ← setAll_bare hnodup, values_setAll (by rw [map_map]; exact hnodup),
      values_setAll hnodup, foldl_map]
    rfl
  unfold indexOf
  rw [hsymbols, setAll_bare hnodup]
  dsimp only
  rw [hlink]
  congr 1
  refine JsMap.ext ?_
  show List.map _ (List.map _ _) = List.map _ _
  rw [map_map]
  refine map_congr_left fun e _ => ?_
  exact Prod.ext rfl (congrFun hwith e.2)

/-- **The set** in which imports are looked up matters only where it changes a dependency. -/
theorem indexOf_fileSet (root : String) {fileSet fileSet' : List String}
    (hnodup : (infos.map (·.path)).Nodup) (tokens : List (String × List String))
    (hsame : ∀ info ∈ infos, depsOf fileSet' (JsMap.setAll (·.path) .empty infos) info =
      depsOf fileSet (JsMap.setAll (·.path) .empty infos) info) :
    indexOf root fileSet' infos tokens = indexOf root fileSet infos tokens := by
  have hlink : link fileSet' (JsMap.setAll (·.path) .empty infos) =
      link fileSet (JsMap.setAll (·.path) .empty infos) := by
    unfold link
    rw [values_setAll hnodup]
    refine foldl_ext _ _ _ fun links info hinfo => ?_
    unfold linkFile
    rw [hsame info hinfo]
  unfold indexOf
  dsimp only
  rw [hlink]
  congr 1
  refine JsMap.ext ?_
  show List.map _ (JsMap.entries _) = List.map _ (JsMap.entries _)
  rw [JsMap.entries_setAll hnodup, map_map, map_map]
  refine map_congr_left fun info hinfo => ?_
  exact Prod.ext rfl (by
    show withDeps _ _ info = withDeps _ _ info
    unfold withDeps
    rw [hsame info hinfo])

/-! ## Remembering a tree -/

/-- The indexer remembers exactly the files that can be read. -/
structure Mirrors (opts : ParseOptions) (t : Tree) (s : Indexer) : Prop where
  known : ∀ entry ∈ t.walked, ∀ file, parseEntry opts t entry = some file →
    ∃ info, s.cell entry.path = ⟨some entry.stat, some info, some (identifiers file.1)⟩ ∧
      info.bare = file.2
  only : ∀ path, (s.fileInfos.get? path).isSome = true →
    ∃ entry ∈ t.walked, entry.path = path ∧ (parseEntry opts t entry).isSome = true

namespace Mirrors

theorem sortedPaths (h : Mirrors opts t s) :
    sortPaths s.fileInfos.keys = (indexed opts t).map (·.2.path) := by
  have hnodup : ((indexed opts t).map (·.2.path)).Nodup := t.nodup.sublist indexed_sublist
  refine sortPaths_of_perm ?_ (t.pairwise.sublist indexed_sublist)
  have hkeys : s.fileInfos.keys.Nodup := s.fileInfos.nodup
  refine (perm_ext_iff_of_nodup hkeys hnodup).mpr fun path => ?_
  rw [JsMap.mem_keys, mem_map]
  constructor
  · rintro ⟨info, hinfo⟩
    obtain ⟨entry, hentry, rfl, hsome⟩ := h.only path (by rw [hinfo]; rfl)
    obtain ⟨file, hfile⟩ := Option.isSome_iff_exists.mp hsome
    exact ⟨file, mem_filterMap.mpr ⟨entry, hentry, hfile⟩, parseEntry_path hfile⟩
  · rintro ⟨file, hfile, rfl⟩
    obtain ⟨entry, hentry, hparse⟩ := mem_filterMap.mp hfile
    obtain ⟨info, hcell, -⟩ := h.known entry hentry file hparse
    rw [parseEntry_path hparse]
    exact ⟨info, congrArg Cell.info hcell⟩

theorem collected (s : Indexer) {files : List (String × FileInfo)}
    (h : ∀ file ∈ files, ∃ info, s.fileInfos.get? file.2.path = some info ∧ info.bare = file.2 ∧
      s.identifiers.get? file.2.path = some (identifiers file.1)) :
    (files.map (·.2.path)).filterMap (fun path => (s.identifiers.get? path).map (path, ·)) =
        files.map (fun file => (file.2.path, identifiers file.1)) ∧
      ∃ infos, infos.map FileInfo.bare = files.map Prod.snd ∧ ∀ maps,
        (files.map (·.2.path)).foldl (collect s) maps =
          (JsMap.setAll (·.path) maps.1 infos, infos.foldl addSymbols maps.2) := by
  induction files with
  | nil => exact ⟨rfl, [], rfl, fun _ => rfl⟩
  | cons file files ih =>
    obtain ⟨⟨info, hinfo, hbare, hids⟩, hrest⟩ := forall_mem_cons.mp h
    obtain ⟨htokens, infos, hinfos, hfold⟩ := ih hrest
    refine ⟨?_, info :: infos, ?_, fun maps => ?_⟩
    · rw [map_cons, filterMap_cons_some (by rw [hids]; rfl), htokens, map_cons]
    · rw [map_cons, hbare, hinfos, map_cons]
    · have hcollect : collect s maps file.2.path =
          (maps.1.set info.path info, addSymbols maps.2 info) := by
        unfold collect
        rw [hinfo]
      rw [map_cons, foldl_cons, hcollect, hfold]
      rfl

/-- **What is assembled** is the index of the files that can be read, among themselves. -/
theorem assemble_index (h : Mirrors opts t s) (root : String) :
    (assemble s root).1 = indexOf root ((indexed opts t).map (·.2.path))
      ((indexed opts t).map Prod.snd)
      ((indexed opts t).map fun file => (file.2.path, identifiers file.1)) := by
  obtain ⟨htokens, infos, hinfos, hfold⟩ := @collected s (indexed opts t) fun file hfile => by
    obtain ⟨entry, hentry, hparse⟩ := mem_filterMap.mp hfile
    obtain ⟨info, hcell, hbare⟩ := h.known entry hentry file hparse
    rw [parseEntry_path hparse]
    exact ⟨info, congrArg Cell.info hcell, hbare, congrArg Cell.identifiers hcell⟩
  have hpaths : infos.map (·.path) = (indexed opts t).map (·.2.path) := by
    have := congrArg (List.map FileInfo.path) hinfos
    rw [map_map, map_map] at this
    exact this
  have hnodup : (infos.map (·.path)).Nodup := by
    rw [hpaths]
    exact t.nodup.sublist indexed_sublist
  have hkeys : (JsMap.setAll (·.path) .empty infos).keys = (indexed opts t).map (·.2.path) := by
    unfold JsMap.keys
    rw [JsMap.entries_setAll hnodup, map_map, ← hpaths]
    rfl
  unfold assemble
  dsimp only
  rw [h.sortedPaths, hfold, htokens]
  dsimp only
  rw [hkeys, ← hinfos, indexOf_bare root _ hnodup]
  rfl

end Mirrors

/-! ## Careful updates -/

/-- A file that has another content has another time or size, as far as both can be read. -/
def Altered (t t' : Tree) : Prop :=
  ∀ entry ∈ t.walked, ∀ entry' ∈ t'.walked, entry.path = entry'.path → entry.stat = entry'.stat →
    ∀ code ∈ t.read entry.absPath, ∀ code' ∈ t'.read entry'.absPath, code = code'

/-- No import of a file that can be read falls on a file that cannot, if there is another one in
    the index on which it would then fall. -/
def Unshadowed (opts : ParseOptions) (t : Tree) : Prop :=
  ∀ file ∈ indexed opts t, ∀ spec ∈ file.2.imports,
    ∀ target ∈ resolveImport spec file.2.path (t.walked.map (·.path)),
      target ∉ (indexed opts t).map (·.2.path) →
        ∀ other ∈ resolveImport spec file.2.path ((indexed opts t).map (·.2.path)),
          other = file.2.path

/-- The condition on an update: a file that is remembered and still small enough can be read. -/
structure Careful (opts : ParseOptions) (s : Indexer) (t : Tree) : Prop where
  readable : ∀ entry ∈ t.walked, (s.fileInfos.get? entry.path).isSome = true →
    JsNumber.lt opts.maxReadBytes (.fin entry.bytes) = false →
      (t.read entry.absPath).isSome = true
  unshadowed : Unshadowed opts t

instance : Decidable (Altered t t') :=
  inferInstanceAs (Decidable (∀ entry ∈ t.walked, ∀ entry' ∈ t'.walked, _))

instance : Decidable (Unshadowed opts t) :=
  inferInstanceAs (Decidable (∀ file ∈ indexed opts t, ∀ spec ∈ file.2.imports, _))

instance : Decidable (Careful opts s t) :=
  decidable_of_iff ((∀ entry ∈ t.walked, (s.fileInfos.get? entry.path).isSome = true →
    JsNumber.lt opts.maxReadBytes (.fin entry.bytes) = false →
      (t.read entry.absPath).isSome = true) ∧ Unshadowed opts t)
    ⟨fun h => ⟨h.1, h.2⟩, fun h => ⟨h.readable, h.unshadowed⟩⟩

variable {file : String × FileInfo}

theorem parseEntry_eq_some {entry : WalkEntry} :
    parseEntry opts t entry = some file ↔
      isParseable (detectLanguage entry.path) = true ∧
        JsNumber.lt opts.maxReadBytes (.fin entry.bytes) = false ∧
          ∃ code, t.read entry.absPath = some code ∧
            (code,
              { path := entry.path, lang := detectLanguage entry.path, bytes := entry.bytes
                symbols := opts.parser.symbols code (detectLanguage entry.path)
                imports := opts.parser.imports code (detectLanguage entry.path)
                deps := [] : FileInfo }) = file := by
  unfold parseEntry
  dsimp only
  cases isParseable (detectLanguage entry.path) with
  | false => exact iff_of_false nofun fun h => nomatch h.1
  | true =>
    cases JsNumber.lt opts.maxReadBytes (.fin entry.bytes) with
    | true => exact iff_of_false nofun fun h => nomatch h.2.1
    | false =>
      rw [if_neg Bool.noConfusion, if_neg Bool.false_ne_true, Option.map_eq_some_iff]
      exact ⟨fun h => ⟨rfl, rfl, h⟩, fun h => h.2.2⟩

/-- What is found in a file is found again as long as the file is the same. -/
theorem parseEntry_same {entry entry' : WalkEntry}
    (haltered : Altered t t') (hentry : entry ∈ t.walked) (hentry' : entry' ∈ t'.walked)
    (hpath : entry.path = entry'.path) (hstat : entry.stat = entry'.stat)
    (hparse : parseEntry opts t entry = some file)
    (hread : (t'.read entry'.absPath).isSome = true) : parseEntry opts t' entry' = some file := by
  obtain ⟨code', hcode'⟩ := Option.isSome_iff_exists.mp hread
  obtain ⟨hlang, hsize, code, hcode, rfl⟩ := parseEntry_eq_some.mp hparse
  have hbytes : entry.bytes = entry'.bytes := congrArg Stat.bytes hstat
  obtain rfl : code = code' := haltered entry hentry entry' hentry' hpath hstat code hcode code'
    hcode'
  rw [hpath] at hlang
  rw [hbytes] at hsize
  refine parseEntry_eq_some.mpr ⟨hlang, hsize, code, hcode', ?_⟩
  rw [hpath, hbytes]

section Step

variable (opts t s)

/-- The indexer once an update has met every file and forgotten the others. -/
def refreshed : Indexer :=
  let pass := t.walked.foldl (visit opts t) { indexer := s }
  (pass.indexer.manifest.keys.foldl (forget pass.present) (pass.indexer, [])).1

variable {opts t s}

theorem cell_refreshed {entry : WalkEntry} (hentry : entry ∈ t.walked)
    (hparse : isParseable (detectLanguage entry.path) = true) :
    (refreshed opts t s).cell entry.path = visitCell opts t entry (s.cell entry.path) := by
  obtain ⟨hmet, -, hpresent⟩ := @cell_foldl_visit opts t t.walked { indexer := s } t.nodup
  unfold refreshed
  dsimp only
  rw [cell_foldl_forget, if_neg, hmet entry hentry]
  exact fun h => h.2 ((hpresent entry.path).mpr (.inl ⟨mem_map_of_mem hentry, hparse⟩))

theorem info_refreshed_gone {path : String}
    (hlisted : (s.manifest.get? path).isSome = true ∨ s.fileInfos.get? path = none)
    (hgone : ∀ entry ∈ t.walked, entry.path = path →
      isParseable (detectLanguage entry.path) = false) :
    (refreshed opts t s).fileInfos.get? path = none := by
  obtain ⟨hmet, hother, hpresent⟩ := @cell_foldl_visit opts t t.walked { indexer := s } t.nodup
  have hcell : (t.walked.foldl (visit opts t) { indexer := s }).indexer.cell path =
      s.cell path := by
    by_cases hpath : path ∈ t.walked.map (·.path)
    · obtain ⟨entry, hentry, rfl⟩ := mem_map.mp hpath
      rw [hmet entry hentry]
      exact if_pos (hgone entry hentry rfl)
    · exact hother path hpath
  have hout : path ∉ (t.walked.foldl (visit opts t) { indexer := s }).present := by
    rw [hpresent]
    rintro (⟨hpath, hparse⟩ | hnone)
    · obtain ⟨entry, hentry, rfl⟩ := mem_map.mp hpath
      rw [hgone entry hentry rfl] at hparse
      nomatch hparse
    · nomatch hnone
  refine (congrArg Cell.info (cell_foldl_forget _ _ _ path) :).trans ?_
  split
  · rfl
  · rename_i hkept
    refine (congrArg Cell.info hcell).trans (hlisted.resolve_left fun hsome => hkept ⟨?_, hout⟩)
    obtain ⟨stat, hstat⟩ := Option.isSome_iff_exists.mp hsome
    exact (JsMap.mem_keys _ path).mpr ⟨stat, (congrArg Cell.stat hcell).trans hstat⟩

end Step

namespace Mirrors

theorem remembered (h : Mirrors opts t s) {path : String}
    (hsome : (s.fileInfos.get? path).isSome = true) :
    ∃ entry ∈ t.walked, entry.path = path ∧ ∃ file, parseEntry opts t entry = some file ∧
      ∃ info, s.cell path = ⟨some entry.stat, some info, some (identifiers file.1)⟩ ∧
        info.bare = file.2 := by
  obtain ⟨entry, hentry, rfl, hparse⟩ := h.only path hsome
  obtain ⟨file, hfile⟩ := Option.isSome_iff_exists.mp hparse
  exact ⟨entry, hentry, rfl, file, hfile, h.known entry hentry file hfile⟩

/-- **An update** remembers the tree it has seen. -/
theorem refreshed (h : Mirrors opts t s) (haltered : Altered t t') (hcareful : Careful opts s t') :
    Mirrors opts t' (refreshed opts t' s) where
  known := by
    intro entry hentry file hfile
    obtain ⟨hlang, hsize, code, hcode, hnew⟩ := parseEntry_eq_some.mp hfile
    rw [cell_refreshed hentry hlang]
    unfold visitCell
    rw [if_neg (by rw [hlang]; exact Bool.noConfusion)]
    split
    · -- the file looks as it did when it was read
      rename_i hkept
      obtain ⟨entry₀, hentry₀, hpath, file₀, hfile₀, info, hcell, hbare⟩ := h.remembered hkept.2
      rw [hcell] at hkept ⊢
      obtain hstat : entry₀.stat = entry.stat := Option.some.inj hkept.1
      have hsame := parseEntry_same haltered hentry₀ hentry hpath hstat hfile₀ (by rw [hcode]; rfl)
      obtain rfl : file = file₀ := Option.some.inj (hfile.symm.trans hsame)
      exact ⟨info, by rw [hstat], hbare⟩
    · rw [if_neg (by rw [hsize]; exact Bool.false_ne_true), hfile]
      subst hnew
      exact ⟨_, rfl, rfl⟩
  only := by
    intro path hsome
    have hlisted : (s.manifest.get? path).isSome = true ∨ s.fileInfos.get? path = none := by
      cases hinfo : s.fileInfos.get? path with
      | none => exact .inr rfl
      | some info =>
        obtain ⟨entry, -, -, file, -, info', hcell, -⟩ := h.remembered (by rw [hinfo]; rfl)
        exact .inl (Option.isSome_iff_exists.mpr ⟨_, congrArg Cell.stat hcell⟩)
    by_cases hmet : ∃ entry ∈ t'.walked, entry.path = path ∧
        isParseable (detectLanguage entry.path) = true
    · obtain ⟨entry, hentry, rfl, hlang⟩ := hmet
      refine ⟨entry, hentry, rfl, ?_⟩
      have hcell := @cell_refreshed opts t' s entry hentry hlang
      -- what was remembered and is still small enough is read again
      have hagain : (s.fileInfos.get? entry.path).isSome = true →
          JsNumber.lt opts.maxReadBytes (.fin entry.bytes) = false →
            (parseEntry opts t' entry).isSome = true := by
        intro hinfo hsize
        obtain ⟨code, hcode⟩ :=
          Option.isSome_iff_exists.mp (hcareful.readable entry hentry hinfo hsize)
        exact Option.isSome_iff_exists.mpr
          ⟨_, parseEntry_eq_some.mpr ⟨hlang, hsize, code, hcode, rfl⟩⟩
      unfold visitCell at hcell
      rw [if_neg (by rw [hlang]; exact Bool.noConfusion)] at hcell
      split at hcell
      · rename_i hkept
        obtain ⟨entry₀, -, -, file₀, hfile₀, info, hcell₀, -⟩ := h.remembered hkept.2
        have hstat := hkept.1
        rw [hcell₀] at hstat
        have hbytes : entry₀.bytes = entry.bytes := congrArg Stat.bytes (Option.some.inj hstat)
        refine hagain hkept.2 ?_
        rw [← hbytes]
        exact (parseEntry_eq_some.mp hfile₀).2.1
      · split at hcell
        · have hnone : (FileIntel.refreshed opts t' s).fileInfos.get? entry.path = none :=
            congrArg Cell.info hcell
          rw [hnone] at hsome
          nomatch hsome
        · rename_i hsize
          rw [Bool.not_eq_true] at hsize
          split at hcell
          · have hold := congrArg Cell.info hcell
            exact hagain ((congrArg Option.isSome hold).symm.trans hsome) hsize
          · rename_i hparse
            rw [hparse]
            rfl
    · have hnone : (FileIntel.refreshed opts t' s).fileInfos.get? path = none := by
        refine info_refreshed_gone hlisted fun entry hentry hpath => ?_
        cases hlang : isParseable (detectLanguage entry.path) with
        | false => rfl
        | true => exact absurd ⟨entry, hentry, hpath, hlang⟩ hmet
      rw [hnone] at hsome
      nomatch hsome

/-- The dependencies that `assemble` writes into what is remembered do not matter. -/
theorem assembled (h : Mirrors opts t s) (root : String) : Mirrors opts t (assemble s root).2 where
  known := by
    intro entry hentry file hfile
    obtain ⟨info, hcell, hbare⟩ := h.known entry hentry file hfile
    have hinfo : s.fileInfos.get? entry.path = some info := congrArg Cell.info hcell
    unfold assemble Indexer.cell
    dsimp only
    rw [JsMap.get?_mapValues, hinfo]
    refine ⟨_, Cell.mk.injEq .. |>.mpr ⟨congrArg Cell.stat hcell, rfl,
      congrArg Cell.identifiers hcell⟩, hbare⟩
  only := by
    intro path hsome
    unfold assemble at hsome
    dsimp only at hsome
    rw [JsMap.get?_mapValues, Option.isSome_map] at hsome
    exact h.only path hsome

end Mirrors

/-- **Imports** come to the same among all files of the walk and among those that can be read. -/
theorem depsOf_unshadowed (h : Unshadowed opts t) {files : JsMap String FileInfo}
    (hfiles : ∀ path, (files.get? path).isSome = true ↔ path ∈ (indexed opts t).map (·.2.path))
    (hfile : file ∈ indexed opts t) :
    depsOf ((indexed opts t).map (·.2.path)) files file.2 =
      depsOf (t.walked.map (·.path)) files file.2 := by
  have hsub : ∀ path ∈ (indexed opts t).map (·.2.path), path ∈ t.walked.map (·.path) :=
    fun path hpath => indexed_sublist.subset hpath
  unfold depsOf
  refine foldl_ext _ _ _ fun deps spec hspec => ?_
  unfold addDep
  cases hmany : resolveImport spec file.2.path (t.walked.map (·.path)) with
  | none => rw [resolveImport_none hsub t.named hmany]
  | some target =>
    by_cases htarget : target ∈ (indexed opts t).map (·.2.path)
    · rw [resolveImport_of_mem hsub t.named hmany htarget]
    · have hout : ¬ (target ≠ "" ∧ target ≠ file.2.path ∧ (files.get? target).isSome = true) :=
        fun hin => htarget ((hfiles target).mp hin.2.2)
      dsimp only
      rw [if_neg hout]
      cases hfew : resolveImport spec file.2.path ((indexed opts t).map (·.2.path)) with
      | none => rfl
      | some other =>
        have hself := h file hfile spec hspec target hmany htarget other hfew
        exact if_neg fun hin => hin.2.1 hself

/-- **What is assembled** from a tree that is remembered is its full index. -/
theorem assemble_eq (h : Mirrors opts t s) (hunshadowed : Unshadowed opts t) :
    (assemble s t.root).1 = buildIndex opts t := by
  have hpaths : ((indexed opts t).map Prod.snd).map (·.path) = (indexed opts t).map (·.2.path) := by
    rw [map_map]
    rfl
  have hnodup : (((indexed opts t).map Prod.snd).map (·.path)).Nodup := by
    rw [hpaths]
    exact t.nodup.sublist indexed_sublist
  rw [h.assemble_index, buildIndex_eq]
  refine indexOf_fileSet t.root hnodup _ fun info hinfo => ?_
  obtain ⟨file, hfile, rfl⟩ := mem_map.mp hinfo
  refine depsOf_unshadowed hunshadowed (fun path => ?_) hfile
  rw [Option.isSome_iff_exists, ← JsMap.mem_keys, ← hpaths]
  unfold JsMap.keys
  rw [JsMap.entries_setAll hnodup, map_map]
  exact Iff.rfl

/-! ## Runs -/

/-- The indexer and the tree it was last updated to. -/
structure Session where
  tree : Tree := ⟨"", [], fun _ => none, .nil, List.not_mem_nil⟩
  indexer : Indexer := {}

/-- One update after the other. -/
def sessions (opts : ParseOptions) : Machine Session Tree IncrementalUpdate where
  step session tree :=
    ((update opts tree session.indexer).1, ⟨tree, (update opts tree session.indexer).2⟩)

theorem mirrors_first : Mirrors opts ({} : Session).tree {} where
  known := fun _ => nofun
  only := fun _ => nofun

/-- **The incremental index is the full index** as long as what is remembered can be read and
    imports do not fall on a file that cannot. -/
theorem incremental_full {trees : List Tree}
    (hok : (sessions opts).Always
      (fun session tree => Altered session.tree tree ∧ Careful opts session.indexer tree)
      {} trees) :
    (sessions opts).Always
      (fun session tree => ((sessions opts).step session tree).1.index = buildIndex opts tree)
      {} trees := by
  refine hok.of_invariant (I := fun session => Mirrors opts session.tree session.indexer)
    (fun session tree hmirrors hstep => ?_) mirrors_first
  have hrefreshed := hmirrors.refreshed hstep.1 hstep.2
  exact ⟨assemble_eq hrefreshed hstep.2.unshadowed, hrefreshed.assembled tree.root⟩

/-! ## Two files -/

namespace TwoFiles

/-- The one import there is. -/
def options : ParseOptions where
  parser :=
    { symbols := fun _ _ => []
      imports := fun code _ => if code = "import \"./b\";" then ["./b"] else [] }

/-- `a.ts` imports `b.ts`. -/
def tree (mtimeMs : Rat) (b : Option String) : Tree where
  root := "/r"
  walked := [⟨"a.ts", "/r/a.ts", 13, 1⟩, ⟨"b.ts", "/r/b.ts", 0, mtimeMs⟩]
  read := fun absPath => if absPath = "/r/a.ts" then some "import \"./b\";" else b
  sorted := by
    show ["a.ts", "b.ts"].Pairwise fun a b => JsString.ltUnits a b = true
    decide +kernel
  named := by
    show "" ∉ ["a.ts", "b.ts"]
    decide

end TwoFiles

/-- A file is touched and read again. -/
theorem touched_full : (sessions TwoFiles.options).Always
    (fun session tree => ((sessions TwoFiles.options).step session tree).1.index =
      buildIndex TwoFiles.options tree) {}
    [TwoFiles.tree 1 (some ""), TwoFiles.tree 2 (some "")] :=
  incremental_full (by decide +kernel)

/-- A file that was touched and cannot be read stays in the index. -/
theorem unreadable_kept : ¬ ∀ (opts : ParseOptions) (trees : List Tree),
    (sessions opts).Always (fun session tree => Altered session.tree tree) {} trees →
      (sessions opts).Always (fun session tree =>
        ((sessions opts).step session tree).1.index = buildIndex opts tree) {} trees := by
  intro hclaim
  have hrun := hclaim TwoFiles.options [TwoFiles.tree 1 (some ""), TwoFiles.tree 2 none]
    (by decide +kernel)
  have hfiles := congrArg (fun index => index.files.keys) hrun.2.1
  have hkept : ((sessions TwoFiles.options).step
      ((sessions TwoFiles.options).step {} (TwoFiles.tree 1 (some ""))).2
      (TwoFiles.tree 2 none)).1.index.files.keys = ["a.ts", "b.ts"] := by decide +kernel
  have hfull : (buildIndex TwoFiles.options (TwoFiles.tree 2 none)).files.keys = ["a.ts"] := by
    decide +kernel
  exact absurd (hkept.symm.trans (hfiles.trans hfull)) (by decide)

end NexusCode.FileIntel
