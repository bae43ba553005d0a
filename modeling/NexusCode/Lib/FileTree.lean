/-
  File systems with directories, files and symbolic links, and how a path is resolved in one.

  A place is the list of names that lead to it from the root, through directories only.  A path is
  walked part by part; a link is followed in front of the parts that are left, and only so many
  may be followed.

    1. `Node`, `Node.find?`  — trees, and what stands at a place.
    2. `resolve`             — the walk, and what may come of it.
    3. **`resolve_append`**  — a path in two pieces.
    4. **`resolve_sound`**   — what is found stands there, and is no link.
-/
import Mathlib.Data.List.Induction
import Mathlib.Tactic.Common

namespace NexusCode.Lib

open List

/-- A place: names from the root. -/
abbrev Place := List String

/-- A path as it is written: whether it starts at the root, and its parts. -/
structure PathText where
  absolute : Bool
  parts : List String

/-- A file, a link or a directory. -/
inductive Node where
  | file
  | link (target : PathText)
  | dir (entries : List (String × Node))

/-- The entry of a name. -/
def Node.child (name : String) : Node → Option Node
  | dir entries => (entries.find? fun entry => entry.1 = name).map (·.2)
  | _ => none

/-- What stands at a place below. -/
def Node.find? : Node → Place → Option Node
  | node, [] => some node
  | node, name :: rest => (node.child name).bind (·.find? rest)

/-- What comes of a walk: a file or directory with the number of links that may still be followed;
    a missing last part, whose directory is there; a missing part before; a part that is no
    directory; too many links. -/
inductive Outcome where
  | found (place : Place) (left : Nat)
  | missing (place : Place)
  | absent
  | notDir
  | looped

/-- The walk, where `follow` says how it goes on behind a link. -/
def walk (t : Node) (left : Nat) (follow : Place → PathText → List String → Outcome) :
    Place → List String → Outcome
  | place, [] => .found place left
  | place, name :: rest =>
    if name = "" || name = "." then walk t left follow place rest
    else if name = ".." then walk t left follow place.dropLast rest
    else match t.find? (place ++ [name]) with
      | none => if rest.isEmpty then .missing (place ++ [name]) else .absent
      | some .file => if rest.isEmpty then .found (place ++ [name]) left else .notDir
      | some (.dir _) => walk t left follow (place ++ [name]) rest
      | some (.link target) => follow place target rest

/-- A path from a place on, with a number of links that may be followed. -/
def resolve (t : Node) : Nat → Place → List String → Outcome
  | 0 => walk t 0 fun _ _ _ => .looped
  | n + 1 => walk t (n + 1) fun place target rest =>
    resolve t n (if target.absolute then [] else place) (target.parts ++ rest)

/-- A name, and not an empty part, `.` or `..`. -/
def IsName (name : String) : Prop := name ≠ "" ∧ name ≠ "." ∧ name ≠ ".."

/-- A directory stands there, and the names on the way are names. -/
structure Node.DirAt (t : Node) (place : Place) : Prop where
  isDir : ∃ entries, t.find? place = some (.dir entries)
  names : ∀ name ∈ place, IsName name

/-! ## Places -/

theorem find?_append : ∀ (place rest : Place) (t : Node),
    t.find? (place ++ rest) = (t.find? place).bind (·.find? rest)
  | [], _, _ => rfl
  | name :: place, rest, t => by
    show (t.child name).bind (·.find? (place ++ rest)) =
      ((t.child name).bind (·.find? place)).bind (·.find? rest)
    cases t.child name with
    | none => rfl
    | some node => exact find?_append place rest node

variable {t : Node} {place : Place}

/-- What stands in front of something is there, and is a directory. -/
theorem isDir_of_find? {node : Node} {name : String}
    (h : t.find? (place ++ [name]) = some node) : ∃ entries, t.find? place = some (.dir entries) := by
  rw [find?_append] at h
  obtain ⟨parent, hparent, hchild⟩ := Option.bind_eq_some_iff.mp h
  cases parent with
  | dir entries => exact ⟨entries, hparent⟩
  | file => nomatch hchild
  | link target => nomatch hchild

theorem find?_isSome_of_prefix {place' : Place} (hpre : place <+: place')
    (h : (t.find? place').isSome = true) : (t.find? place).isSome = true := by
  obtain ⟨rest, rfl⟩ := hpre
  rw [find?_append] at h
  cases hfind : t.find? place with
  | none =>
    rw [hfind] at h
    nomatch h
  | some node => rfl

theorem isName_of_parts {name : String} (hhere : ¬ (name = "" || name = ".") = true)
    (hup : ¬ name = "..") : IsName name := by
  simp only [Bool.or_eq_true, decide_eq_true_eq, not_or] at hhere
  exact ⟨hhere.1, hhere.2, hup⟩

theorem Node.DirAt.up (h : t.DirAt place) : t.DirAt place.dropLast := by
  rcases eq_nil_or_concat place with rfl | ⟨init, name, rfl⟩
  · exact h
  · rw [concat_eq_append, dropLast_concat]
    rw [concat_eq_append] at h
    obtain ⟨entries, hfind⟩ := h.isDir
    exact ⟨isDir_of_find? hfind, fun name hname => h.names name (mem_append_left _ hname)⟩

theorem Node.DirAt.root (h : t.DirAt place) : t.DirAt [] := by
  induction place using List.reverseRecOn with
  | nil => exact h
  | append_singleton init name ih =>
    have hup := h.up
    rw [dropLast_concat] at hup
    exact ih hup

theorem Node.DirAt.down {name : String} {entries : List (String × Node)}
    (h : t.DirAt place) (hname : IsName name) (hfind : t.find? (place ++ [name]) = some (.dir entries)) :
    t.DirAt (place ++ [name]) := by
  refine ⟨⟨entries, hfind⟩, fun name' hmem => ?_⟩
  rcases mem_append.mp hmem with hmem | hmem
  · exact h.names name' hmem
  · exact mem_singleton.mp hmem ▸ hname

/-! ## The walk -/

/-- What comes behind a link. -/
def behind (t : Node) (place : Place) (target : PathText) (rest : List String) : Nat → Outcome
  | 0 => .looped
  | n + 1 => resolve t n (if target.absolute then [] else place) (target.parts ++ rest)

theorem resolve_nil (t : Node) (n : Nat) (place : Place) : resolve t n place [] = .found place n :=
    by
  cases n <;> rfl

theorem resolve_cons (t : Node) (n : Nat) (place : Place) (name : String) (rest : List String) :
    resolve t n place (name :: rest) =
      if name = "" || name = "." then resolve t n place rest
      else if name = ".." then resolve t n place.dropLast rest
      else match t.find? (place ++ [name]) with
        | none => if rest.isEmpty then .missing (place ++ [name]) else .absent
        | some .file => if rest.isEmpty then .found (place ++ [name]) n else .notDir
        | some (.dir _) => resolve t n (place ++ [name]) rest
        | some (.link target) => behind t place target rest n := by
  cases n <;> rfl

/-- How a walk goes on from its first piece. -/
def Outcome.andThen (t : Node) (rest : List String) : Outcome → Outcome
  | found place left =>
    match t.find? place with
    | some (.dir _) => resolve t left place rest
    | _ => .notDir
  | missing _ => .absent
  | other => other

variable {rest : List String}

theorem isEmpty_append_of_ne {parts : List String} (hrest : rest ≠ []) :
    (parts ++ rest).isEmpty = false :=
  isEmpty_eq_false_iff.mpr (append_ne_nil_of_right_ne_nil parts hrest)

/-- The parts up to a link, if what comes behind a link is as it should be. -/
theorem resolve_append_of (hrest : rest ≠ []) {n : Nat}
    (hlink : ∀ place target parts, t.DirAt place →
      behind t place target (parts ++ rest) n = (behind t place target parts n).andThen t rest) :
    ∀ (parts : List String) {place : Place}, t.DirAt place →
      resolve t n place (parts ++ rest) = (resolve t n place parts).andThen t rest
  | [], place, hplace => by
    obtain ⟨entries, hfind⟩ := hplace.isDir
    rw [resolve_nil, nil_append]
    show _ = match t.find? place with
      | some (.dir _) => resolve t n place rest
      | _ => .notDir
    rw [hfind]
  | name :: parts, place, hplace => by
    have ih : ∀ {place : Place}, t.DirAt place →
        resolve t n place (parts ++ rest) = (resolve t n place parts).andThen t rest :=
      resolve_append_of hrest hlink parts
    rw [cons_append, resolve_cons, resolve_cons]
    by_cases hhere : (name = "" || name = ".") = true
    · rw [if_pos hhere, if_pos hhere]
      exact ih hplace
    rw [if_neg hhere, if_neg hhere]
    by_cases hup : name = ".."
    · rw [if_pos hup, if_pos hup]
      exact ih hplace.up
    rw [if_neg hup, if_neg hup, isEmpty_append_of_ne hrest]
    have hname := isName_of_parts hhere hup
    cases hfind : t.find? (place ++ [name]) with
    | none =>
      dsimp only
      rw [if_neg Bool.false_ne_true]
      split <;> rfl
    | some node =>
      cases node with
      | file =>
        dsimp only
        rw [if_neg Bool.false_ne_true]
        split
        · show _ = match t.find? (place ++ [name]) with
            | some (.dir _) => resolve t n (place ++ [name]) rest
            | _ => .notDir
          rw [hfind]
        · rfl
      | dir entries => exact ih (hplace.down hname hfind)
      | link target => exact hlink place target parts hplace

theorem Node.DirAt.start (h : t.DirAt place) (target : PathText) :
    t.DirAt (if target.absolute then [] else place) := by
  split
  · exact h.root
  · exact h

/-- **A path in two pieces**: the second from where the first leads. -/
theorem resolve_append (hrest : rest ≠ []) : ∀ (n : Nat)
    (parts : List String) {place : Place}, t.DirAt place →
    resolve t n place (parts ++ rest) = (resolve t n place parts).andThen t rest
  | 0 => resolve_append_of hrest fun _ _ _ _ => rfl
  | n + 1 => by
    refine resolve_append_of hrest fun place target parts hplace => ?_
    have ih := resolve_append hrest n (target.parts ++ parts) (hplace.start target)
    rw [append_assoc] at ih
    exact ih

/-- What may be said of where a path leads: what is found is there and no link, and what is
    missing is not, but its directory is. -/
def Outcome.Sound (t : Node) : Outcome → Prop
  | found place _ => (∀ name ∈ place, IsName name) ∧
      ∃ node, t.find? place = some node ∧ ∀ target, node ≠ .link target
  | missing place => ∃ parent name, place = parent ++ [name] ∧ t.DirAt parent ∧ IsName name ∧
      t.find? place = none
  | _ => True

theorem resolve_sound_of {n : Nat}
    (hlink : ∀ place target parts, t.DirAt place → (behind t place target parts n).Sound t) :
    ∀ (parts : List String) {place : Place}, t.DirAt place → (resolve t n place parts).Sound t
  | [], place, hplace => by
    obtain ⟨entries, hfind⟩ := hplace.isDir
    rw [resolve_nil]
    exact ⟨hplace.names, _, hfind, fun _ => nofun⟩
  | name :: parts, place, hplace => by
    have ih : ∀ {place : Place}, t.DirAt place → (resolve t n place parts).Sound t :=
      resolve_sound_of hlink parts
    rw [resolve_cons]
    split
    · exact ih hplace
    split
    · exact ih hplace.up
    rename_i hhere hup
    have hname := isName_of_parts hhere hup
    cases hfind : t.find? (place ++ [name]) with
    | none =>
      dsimp only
      split
      · exact ⟨place, name, rfl, hplace, hname, hfind⟩
      · trivial
    | some node =>
      cases node with
      | file =>
        dsimp only
        split
        · refine ⟨fun name' hmem => ?_, _, hfind, fun _ => nofun⟩
          rcases mem_append.mp hmem with hmem | hmem
          · exact hplace.names name' hmem
          · exact mem_singleton.mp hmem ▸ hname
        · trivial
      | dir entries => exact ih (hplace.down hname hfind)
      | link target => exact hlink place target parts hplace

/-- **What is found** stands there, and is no link. -/
theorem resolve_sound : ∀ (n : Nat) (parts : List String) {place : Place},
    t.DirAt place → (resolve t n place parts).Sound t
  | 0 => resolve_sound_of fun _ _ _ _ => trivial
  | n + 1 => resolve_sound_of fun _ target parts hplace =>
    resolve_sound n (target.parts ++ parts) (hplace.start target)

end NexusCode.Lib
