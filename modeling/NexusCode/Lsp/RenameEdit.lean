/-
  `lsp/src/client.ts`: the edits of a rename, confined to the workspace.

  An edit is kept if its paths are under the root, as they are written and as they really are.  But
  the real path of a file yet to come cannot be had, and what is written stands in for it, whatever
  links it goes through.

    1. `land`                    — where a path leads, whether its last names are there or not.
    2. `confineWorkspaceEdit`    — the check, for all kinds of edits.
    3. `link_or_plain`           — a path without links leads where it says.
    4. **`edits_confined_iff`**  — what is kept is in the workspace exactly if no path to a missing
       file goes out through a link; `escaping_link` does.
-/
import NexusCode.Workspace.Confinement

namespace NexusCode.Lsp

open Lib Workspace List

/-! ## Where a path leads -/

/-- The walk along names that need not be there, where `follow` says how it goes on behind a link. -/
def landFrom (t : Node) (left : Nat)
    (follow : Place → PathText → List String → Option (Place × Nat)) :
    Place → List String → Option (Place × Nat)
  | place, [] => some (place, left)
  | place, name :: rest =>
    if name = "" || name = "." then landFrom t left follow place rest
    else if name = ".." then landFrom t left follow place.dropLast rest
    else match t.find? (place ++ [name]) with
      | some (.link target) => follow place target rest
      | _ => landFrom t left follow (place ++ [name]) rest

/-- Where a path leads when every link on the way is followed, and how many more may be. -/
def land (t : Node) : Nat → Place → List String → Option (Place × Nat)
  | 0 => landFrom t 0 fun _ _ _ => none
  | n + 1 => landFrom t (n + 1) fun place target rest =>
    land t n (if target.absolute then [] else place) (target.parts ++ rest)

/-- What comes behind a link. -/
def landBehind (t : Node) (place : Place) (target : PathText) (rest : List String) :
    Nat → Option (Place × Nat)
  | 0 => none
  | n + 1 => land t n (if target.absolute then [] else place) (target.parts ++ rest)

section Land

variable {t : Node}

theorem land_nil (n : Nat) (place : Place) : land t n place [] = some (place, n) := by
  cases n <;> rfl

theorem land_cons (n : Nat) (place : Place) (name : String) (rest : List String) :
    land t n place (name :: rest) =
      if name = "" || name = "." then land t n place rest
      else if name = ".." then land t n place.dropLast rest
      else match t.find? (place ++ [name]) with
        | some (.link target) => landBehind t place target rest n
        | _ => land t n (place ++ [name]) rest := by
  cases n <;> rfl

theorem land_append_of {n : Nat} {rest : List String}
    (hlink : ∀ place target parts, landBehind t place target (parts ++ rest) n =
      (landBehind t place target parts n).bind fun p => land t p.2 p.1 rest) :
    ∀ (parts : List String) (place : Place), land t n place (parts ++ rest) =
      (land t n place parts).bind fun p => land t p.2 p.1 rest
  | [], place => by
    rw [land_nil]
    rfl
  | name :: parts, place => by
    have ih := land_append_of hlink parts
    rw [cons_append, land_cons, land_cons]
    by_cases hhere : (name = "" || name = ".") = true
    · rw [if_pos hhere, if_pos hhere]
      exact ih place
    rw [if_neg hhere, if_neg hhere]
    by_cases hup : name = ".."
    · rw [if_pos hup, if_pos hup]
      exact ih place.dropLast
    rw [if_neg hup, if_neg hup]
    cases t.find? (place ++ [name]) with
    | none => exact ih (place ++ [name])
    | some node =>
      cases node with
      | link target => exact hlink place target parts
      | _ => exact ih (place ++ [name])

/-- **A path in two pieces**: the second from where the first leads. -/
theorem land_append (rest : List String) : ∀ (n : Nat) (parts : List String) (place : Place),
    land t n place (parts ++ rest) = (land t n place parts).bind fun p => land t p.2 p.1 rest
  | 0 => land_append_of fun _ _ _ => rfl
  | n + 1 => land_append_of fun place target parts => by
    have ih := land_append rest n (target.parts ++ parts) (if target.absolute then [] else place)
    rwa [append_assoc] at ih

theorem land_found_of {n left : Nat} {real : Place}
    (hlink : ∀ place target parts, behind t place target parts n = .found real left →
      landBehind t place target parts n = some (real, left)) :
    ∀ (parts : List String) (place : Place), resolve t n place parts = .found real left →
      land t n place parts = some (real, left)
  | [], place, h => by
    rw [resolve_nil] at h
    obtain ⟨rfl, rfl⟩ := Outcome.found.inj h
    exact land_nil _ _
  | name :: parts, place, h => by
    have ih := land_found_of hlink parts
    rw [resolve_cons] at h
    rw [land_cons]
    by_cases hhere : (name = "" || name = ".") = true
    · rw [if_pos hhere] at h ⊢
      exact ih place h
    rw [if_neg hhere] at h ⊢
    by_cases hup : name = ".."
    · rw [if_pos hup] at h ⊢
      exact ih _ h
    rw [if_neg hup] at h ⊢
    cases hfind : t.find? (place ++ [name]) with
    | none =>
      rw [hfind] at h
      dsimp only at h
      split at h <;> nomatch h
    | some node =>
      rw [hfind] at h
      cases node with
      | file =>
        cases parts with
        | nil => exact ih _ ((resolve_nil _ _ _).trans h)
        | cons part parts => nomatch h
      | dir entries => exact ih _ h
      | link target => exact hlink place target parts h

theorem land_found {left : Nat} {real : Place} : ∀ (n : Nat) (parts : List String) (place : Place),
    resolve t n place parts = .found real left → land t n place parts = some (real, left)
  | 0 => land_found_of fun _ _ _ => nofun
  | n + 1 => land_found_of fun _ target parts h => land_found n (target.parts ++ parts) _ h

theorem land_filter : ∀ (parts : List String) (n : Nat) (place : Place),
    land t n place (parts.filter (· ≠ "")) = land t n place parts
  | [], _, _ => rfl
  | name :: parts, n, place => by
    have ih := land_filter parts
    by_cases hempty : name = ""
    · rw [filter_cons_of_neg (by simpa using hempty), land_cons, if_pos (by simp [hempty])]
      exact ih n place
    rw [filter_cons_of_pos (by simpa using hempty), land_cons, land_cons, ih, ih, ih]
    cases t.find? (place ++ [name]) with
    | none => rfl
    | some node =>
      cases node with
      | link target =>
        have hbehind : landBehind t place target (parts.filter (· ≠ "")) n =
            landBehind t place target parts n := by
          cases n with
          | zero => rfl
          | succ n =>
            show land t n _ (target.parts ++ parts.filter (· ≠ "")) = land t n _ (target.parts ++ parts)
            rw [land_append, land_append]
            simp only [ih]
        dsimp only
        rw [hbehind]
      | _ => rfl

/-- **A path of names** leads where it says, or through a link. -/
theorem link_or_plain (n : Nat) : ∀ (names : List String) (place : Place),
    (∀ name ∈ names, IsName name) → land t n place names = some (place ++ names, n) ∨
      ∃ front name behind real target, names = front ++ name :: behind ∧
        land t n place front = some (real, n) ∧ t.find? (real ++ [name]) = some (.link target)
  | [], place, _ => .inl (by rw [land_nil, append_nil])
  | name :: names, place, hnames => by
    obtain ⟨hname, hnames⟩ := forall_mem_cons.mp hnames
    have hhere : ¬ (name = "" || name = ".") = true := by
      simp only [Bool.or_eq_true, decide_eq_true_eq, not_or]
      exact ⟨hname.1, hname.2.1⟩
    by_cases hlink : ∃ target, t.find? (place ++ [name]) = some (.link target)
    · obtain ⟨target, hlink⟩ := hlink
      exact .inr ⟨[], name, names, place, target, rfl, land_nil _ _, hlink⟩
    have hplain : ∀ rest, land t n place (name :: rest) = land t n (place ++ [name]) rest := by
      intro rest
      rw [land_cons, if_neg hhere, if_neg hname.2.2]
      split
      · rename_i target hfind
        exact absurd ⟨target, hfind⟩ hlink
      · rfl
    rcases link_or_plain n names (place ++ [name]) hnames with hland | hthrough
    · exact .inl (by rw [hplain, hland, append_assoc, singleton_append])
    · obtain ⟨front, name', behind, real, target, rfl, hland, hfind⟩ := hthrough
      exact .inr ⟨name :: front, name', behind, real, target, rfl, (hplain front).trans hland, hfind⟩

end Land

/-! ## The check -/

/-- `fileURLToPath` of `node:url`: the parts of the path of a URI, or none where it throws.  The
    parser of URLs has taken `.` and `..` out. -/
structure FileUrls where
  fileURLToPath : String → Option (List String)
  plain : ∀ {uri parts}, fileURLToPath uri = some parts → ∀ part ∈ parts, part ≠ "." ∧ part ≠ ".."

/-- `escapesRoot(root, target)`. -/
def escapesRoot (root target : Place) : Bool := escapes (relative root target)

/-- `realpath(path).catch(() => path)`. -/
def realpathOrSame (h : Host) (path : List String) : Place :=
  match realPlace h [] path with
  | .ok real => real
  | .error _ => normalize [] path

/-- `uri.startsWith("file://")`. -/
def isFileUri (uri : String) : Bool := "file://".toList.isPrefixOf uri.toList

/-- `isWithinRoot(uri, rootUri)`. -/
def isWithinRoot (h : Host) (urls : FileUrls) (uri rootUri : String) : Bool :=
  if !isFileUri uri || !isFileUri rootUri then false
  else match urls.fileURLToPath uri, urls.fileURLToPath rootUri with
    | some targetPath, some rootPath =>
      if escapesRoot (normalize [] rootPath) (normalize [] targetPath) then false
      else !escapesRoot (realpathOrSame h rootPath) (realpathOrSame h targetPath)
    | _, _ => false

/-- One of the `documentChanges`; `ε` is what it does there. -/
inductive DocumentChange (ε : Type) where
  | textDocument (uri : String) (edits : ε)
  | create (uri : String) (options : ε)
  | rename (oldUri newUri : String) (options : ε)
  | delete (uri : String) (options : ε)

/-- `WorkspaceEdit`. -/
structure WorkspaceEdit (ε α : Type) where
  changes : Option (List (String × ε)) := none
  documentChanges : Option (List (DocumentChange ε)) := none
  changeAnnotations : Option α := none

section Confine

variable {ε α : Type}

/-- `documentChangeUris(change)`: `uri` and `secondaryUri`. -/
def documentChangeUris : DocumentChange ε → String × Option String
  | .textDocument uri _ => (uri, none)
  | .rename oldUri newUri _ => (oldUri, some newUri)
  | .create uri _ => (uri, none)
  | .delete uri _ => (uri, none)

/-- A list that is left out when nothing is kept. -/
def unlessEmpty {β : Type} (l : List β) : Option (List β) := if l.isEmpty then none else some l

/-- `confineWorkspaceEdit(edit, rootUri)`. -/
def confineWorkspaceEdit (h : Host) (urls : FileUrls) (edit : WorkspaceEdit ε α)
    (rootUri : String) : WorkspaceEdit ε α where
  changes := edit.changes.bind fun entries =>
    unlessEmpty (entries.filter fun entry => isWithinRoot h urls entry.1 rootUri)
  documentChanges := edit.documentChanges.bind fun changes =>
    unlessEmpty (changes.filter fun change =>
      isWithinRoot h urls (documentChangeUris change).1 rootUri &&
        (documentChangeUris change).2.all (isWithinRoot h urls · rootUri))
  changeAnnotations := edit.changeAnnotations

/-- The URIs of a change. -/
def DocumentChange.uris (change : DocumentChange ε) : List String :=
  (documentChangeUris change).1 :: (documentChangeUris change).2.toList

/-- The URIs of an edit, together where they are of one change. -/
def WorkspaceEdit.uris (edit : WorkspaceEdit ε α) : List (List String) :=
  (edit.changes.getD []).map (fun entry => [entry.1]) ++
    (edit.documentChanges.getD []).map (·.uris)

theorem getD_unlessEmpty {β : Type} (list : Option (List β)) (keep : β → Bool) :
    (list.bind fun l => unlessEmpty (l.filter keep)).getD [] = (list.getD []).filter keep := by
  cases list with
  | none => rfl
  | some l =>
    show (unlessEmpty (l.filter keep)).getD [] = l.filter keep
    cases l.filter keep <;> rfl

/-- The changes that are kept are those with all their URIs inside. -/
theorem uris_confine (h : Host) (urls : FileUrls) (edit : WorkspaceEdit ε α) (rootUri : String) :
    (confineWorkspaceEdit h urls edit rootUri).uris =
      edit.uris.filter (·.all (isWithinRoot h urls · rootUri)) := by
  have hall : ∀ change : DocumentChange ε, change.uris.all (isWithinRoot h urls · rootUri) =
      (isWithinRoot h urls (documentChangeUris change).1 rootUri &&
        (documentChangeUris change).2.all (isWithinRoot h urls · rootUri)) := by
    intro change
    cases change <;> simp [DocumentChange.uris, documentChangeUris]
  unfold WorkspaceEdit.uris confineWorkspaceEdit
  simp only [getD_unlessEmpty, filter_append, filter_map, Function.comp_def, hall, all_cons,
    all_nil, Bool.and_true]

end Confine

/-! ## Confinement -/

/-- Where a path leads, with every link on the way followed. -/
def realLocation (h : Host) (path : List String) : Option Place :=
  (land h.tree h.links [] path).map (·.1)

/-- A URI names a location under the root. -/
def InWorkspace (h : Host) (urls : FileUrls) (uri rootUri : String) : Prop :=
  ∀ path rootPath place realRoot, urls.fileURLToPath uri = some path →
    urls.fileURLToPath rootUri = some rootPath → realLocation h path = some place →
    realLocation h rootPath = some realRoot → realRoot <+: place

/-- A path goes through a link behind the root. -/
def ThroughLink (h : Host) (rootPath path : List String) : Prop :=
  ∃ front name rest real left target, normalize [] path = front ++ name :: rest ∧
    normalize [] rootPath <+: front ∧ land h.tree h.links [] front = some (real, left) ∧
    h.tree.find? (real ++ [name]) = some (.link target)

/-- If the file is not there, or the root, and the path goes through a link behind the root, it leads
    to a location under it nonetheless. -/
def LinksInside (h : Host) (urls : FileUrls) (uri rootUri : String) : Prop :=
  ∀ path rootPath place realRoot, urls.fileURLToPath uri = some path →
    urls.fileURLToPath rootUri = some rootPath →
    (∀ real root, realPlace h [] path = .ok real → realPlace h [] rootPath ≠ .ok root) →
    ThroughLink h rootPath path → realLocation h path = some place →
    realLocation h rootPath = some realRoot → realRoot <+: place

section Inside

variable {h : Host} {urls : FileUrls} {uri rootUri : String} {path rootPath : List String}

theorem normalize_plain : ∀ {parts : List String} (place : Place),
    (∀ part ∈ parts, part ≠ "." ∧ part ≠ "..") →
    normalize place parts = place ++ parts.filter (· ≠ "")
  | [], place, _ => (append_nil place).symm
  | name :: parts, place, hplain => by
    obtain ⟨hname, hplain⟩ := forall_mem_cons.mp hplain
    rw [Workspace.normalize]
    by_cases hempty : name = ""
    · rw [filter_cons_of_neg (by simpa using hempty), if_pos (by simp [hempty])]
      exact normalize_plain place hplain
    · rw [filter_cons_of_pos (by simpa using hempty), if_neg (by simp [hempty, hname.1]),
        if_neg hname.2, normalize_plain _ hplain, append_assoc, singleton_append]

theorem land_normalize (hpath : urls.fileURLToPath uri = some path) :
    land h.tree h.links [] (normalize [] path) = land h.tree h.links [] path := by
  rw [normalize_plain [] (urls.plain hpath), nil_append, land_filter]

theorem realPlace_ok {real : Place} (hreal : realPlace h [] path = .ok real) :
    (∀ name ∈ real, IsName name) ∧ realLocation h path = some real := by
  have hsound := leadsTo_sound h path
  unfold realPlace at hreal
  cases hlead : resolve h.tree h.links [] path with
  | found place left =>
    rw [hlead] at hreal
    obtain rfl := Except.ok.inj hreal
    change (resolve h.tree h.links [] path).Sound h.tree at hsound
    rw [hlead] at hsound
    refine ⟨hsound.1, ?_⟩
    unfold realLocation
    rw [land_found _ _ _ hlead]
    rfl
  | _ =>
    rw [hlead] at hreal
    nomatch hreal

theorem isWithinRoot_spec (hwithin : isWithinRoot h urls uri rootUri = true)
    (hpath : urls.fileURLToPath uri = some path)
    (hroot : urls.fileURLToPath rootUri = some rootPath) :
    escapesRoot (normalize [] rootPath) (normalize [] path) = false ∧
      escapesRoot (realpathOrSame h rootPath) (realpathOrSame h path) = false := by
  unfold isWithinRoot at hwithin
  split at hwithin
  · nomatch hwithin
  rw [hpath, hroot] at hwithin
  dsimp only at hwithin
  split at hwithin
  · nomatch hwithin
  · rename_i hescapes
    exact ⟨by simpa using hescapes, by simpa using hwithin⟩

/-- **A path under the root as it is written** leads under it, or through a link behind it. -/
theorem under_or_link {place realRoot : Place} (hpath : urls.fileURLToPath uri = some path)
    (hroot : urls.fileURLToPath rootUri = some rootPath)
    (hunder : normalize [] rootPath <+: normalize [] path)
    (hplace : realLocation h path = some place)
    (hreal : realLocation h rootPath = some realRoot) :
    realRoot <+: place ∨ ThroughLink h rootPath path := by
  have hnames := @normalize_names path [] nofun
  unfold realLocation at hplace hreal
  rw [← land_normalize hpath] at hplace
  rw [← land_normalize hroot] at hreal
  obtain ⟨rest, hrest⟩ := hunder
  obtain ⟨⟨realRoot', left⟩, hland, rfl⟩ := Option.map_eq_some_iff.mp hreal
  rw [← hrest] at hnames hplace
  rw [land_append, hland] at hplace
  have hrestNames : ∀ name ∈ rest, IsName name :=
    fun name hname => hnames name (mem_append_right _ hname)
  rcases link_or_plain (t := h.tree) left rest realRoot' hrestNames with hplain | hthrough
  · refine .inl ?_
    change (land h.tree left realRoot' rest).map (·.1) = some place at hplace
    rw [hplain] at hplace
    obtain rfl := Option.some.inj hplace
    exact prefix_append _ _
  · obtain ⟨front, name, behind, real, target, rfl, hfront, hlink⟩ := hthrough
    refine .inr ⟨normalize [] rootPath ++ front, name, behind, real, left, target, ?_,
      prefix_append _ _, ?_, hlink⟩
    · rw [← hrest, append_assoc]
    · rw [land_append, hland]
      exact hfront

/-- **A URI that passes the check** is in the workspace unless a link leads to where nothing is. -/
theorem inWorkspace_iff (hwithin : isWithinRoot h urls uri rootUri = true) :
    InWorkspace h urls uri rootUri ↔ LinksInside h urls uri rootUri := by
  constructor
  · intro hin path rootPath place realRoot hpath hroot _ _ hplace hreal
    exact hin path rootPath place realRoot hpath hroot hplace hreal
  · intro hlinks path rootPath place realRoot hpath hroot hplace hreal
    obtain ⟨hwritten, hlooked⟩ := isWithinRoot_spec hwithin hpath hroot
    by_cases hthere : ∃ real root, realPlace h [] path = .ok real ∧ realPlace h [] rootPath = .ok root
    · -- both are there, and the check has compared their real paths
      obtain ⟨real, root, hok, hrootOk⟩ := hthere
      obtain ⟨hnames, hlocation⟩ := realPlace_ok hok
      obtain ⟨-, hrootLocation⟩ := realPlace_ok hrootOk
      obtain rfl := Option.some.inj (hlocation.symm.trans hplace)
      obtain rfl := Option.some.inj (hrootLocation.symm.trans hreal)
      unfold realpathOrSame at hlooked
      rw [hok, hrootOk] at hlooked
      exact (escapes_relative hnames).mp hlooked
    · have hnames := @normalize_names path [] nofun
      rcases under_or_link hpath hroot ((escapes_relative hnames).mp hwritten) hplace hreal with
        hunder | hlink
      · exact hunder
      · refine hlinks path rootPath place realRoot hpath hroot ?_ hlink hplace hreal
        exact fun real root hok hrootOk => hthere ⟨real, root, hok, hrootOk⟩

end Inside

/-- **Everything that is kept is in the workspace** exactly if the paths of what passes the check go
    through no link behind the root that leads out of it to a missing file. -/
theorem edits_confined_iff {ε α : Type} (h : Host) (urls : FileUrls) (edit : WorkspaceEdit ε α)
    (rootUri : String) :
    (∀ uris ∈ (confineWorkspaceEdit h urls edit rootUri).uris, ∀ uri ∈ uris,
      InWorkspace h urls uri rootUri) ↔
    ∀ uris ∈ edit.uris, (∀ uri ∈ uris, isWithinRoot h urls uri rootUri = true) → ∀ uri ∈ uris,
      LinksInside h urls uri rootUri := by
  rw [uris_confine]
  constructor
  · intro hkept uris huris hwithin uri huri
    have hin := hkept uris (mem_filter.mpr ⟨huris, all_eq_true.mpr hwithin⟩) uri huri
    exact (inWorkspace_iff (hwithin uri huri)).mp hin
  · intro hlinks uris huris uri huri
    obtain ⟨huris, hall⟩ := mem_filter.mp huris
    have hwithin := all_eq_true.mp hall
    exact (inWorkspace_iff (hwithin uri huri)).mpr (hlinks uris huris hwithin uri huri)

/-- A workspace that holds a link to a directory outside. -/
def linkedOut : Host where
  tree := .dir [("ws", .dir [("l", .link { absolute := true, parts := ["out"] })]), ("out", .dir [])]
  cwd := []
  links := 40
  cwd_ok := ⟨⟨_, rfl⟩, nofun⟩

/-- The paths of URIs without escapes and hosts. -/
def plainUrls : FileUrls where
  fileURLToPath uri := some ((((uri.toList.drop 7).splitOn '/').map String.ofList).filter
    fun part => part ≠ "." && part ≠ "..")
  plain huri part hpart := by
    obtain rfl := Option.some.inj huri
    simpa using (mem_filter.mp hpart).2

/-- **A new file behind the link** is kept, and is made outside. -/
theorem escaping_link : ¬ ∀ (h : Host) (urls : FileUrls) (edit : WorkspaceEdit Unit Unit) (rootUri : String),
    ∀ uris ∈ (confineWorkspaceEdit h urls edit rootUri).uris, ∀ uri ∈ uris,
      InWorkspace h urls uri rootUri := by
  intro hall
  have hin := hall linkedOut plainUrls { documentChanges := some [.create "file:///ws/l/f" ()] }
    "file:///ws" ["file:///ws/l/f"] (by decide +kernel) "file:///ws/l/f" (mem_singleton_self _)
    ["", "ws", "l", "f"] ["", "ws"] ["out", "f"] ["ws"] (by decide +kernel) (by decide +kernel)
    (by decide +kernel) (by decide +kernel)
  exact absurd hin (by decide +kernel)

end NexusCode.Lsp
