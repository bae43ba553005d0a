/-
  What may be touched at a path that the workspace check lets through.

  The check looks at the real path of the nearest directory that is there, and takes the names
  behind it as they are.  A last name that is a link to a missing file is one of those.

    1. `Access`, `touched`       — reading, writing, and writing in directories to be made.
    2. `allowingMissing_made`    — new directories are made where the check looked.
    3. **`confined_iff`**        — only places under the root are touched exactly if no such link
       leads out of it; `dangling_link` does.
-/
import NexusCode.Lib.Outcome
import NexusCode.Workspace.Paths

namespace NexusCode.Workspace

open Lib List

/-! ## What is touched -/

/-- What is done at a path: `fs.readFile`; `fs.writeFile`; `fs.mkdir` of its directory with
    `recursive`, and then `fs.writeFile`. -/
inductive Access where
  | read
  | write
  | writeInNewDirs
deriving DecidableEq

/-- Where a path leads. -/
def leadsTo (h : Host) (path : Place) : Outcome := resolve h.tree h.links [] path

/-- The place a write goes to: a file that is there, or is created. -/
def written (h : Host) (path : Place) : List Place :=
  match leadsTo h path with
  | .found place _ => [place]
  | .missing place => [place]
  | _ => []

/-- The directories that `fs.mkdir(path, { recursive: true })` makes, and the one that is there in
    the end; none if it fails, which it does before it makes any.  The last name is in front. -/
def made (h : Host) : List String → Option (List Place × Place)
  | [] => some ([], [])
  | name :: parent =>
    match leadsTo h (name :: parent).reverse with
    | .found place _ =>
      match h.tree.find? place with
      | some (.dir _) => some ([], place)
      | _ => none
    | .looped => none
    | _ =>
      match made h parent with
      | none => none
      | some (dirs, place) =>
        match h.tree.find? (place ++ [name]) with
        | none => some (dirs ++ [place ++ [name]], place ++ [name])
        | some _ => none

/-- The places that are touched. -/
def touched (h : Host) (path : Place) : Access → List Place
  | .read =>
    match leadsTo h path with
    | .found place _ => [place]
    | _ => []
  | .write => written h path
  | .writeInNewDirs =>
    match path.getLast?, made h path.dropLast.reverse with
    | some name, some (dir :: dirs, place) => dir :: dirs ++ [place ++ [name]]
    | _, some _ => written h path
    | _, none => []

/-- Only places under the real path of the root are touched. -/
def Confined (h : Host) (root p : String) : Prop :=
  ∀ path realRoot, resolveInWorkspace h root p = .ok path → realpath h root = .ok realRoot →
    ∀ access, ∀ place ∈ touched h path access, realRoot <+: place

/-- The last name of a path is a link in its real directory. -/
def EndsInLink (h : Host) (path : Place) : Prop :=
  ∃ parent name real left target, path = parent ++ [name] ∧ leadsTo h parent = .found real left ∧
    h.tree.find? (real ++ [name]) = some (.link target)

/-- A last name that is a link to a missing file leads to a place under the root. -/
def LinksInside (h : Host) (root p : String) : Prop :=
  ∀ path realRoot, resolveInWorkspace h root p = .ok path → realpath h root = .ok realRoot →
    EndsInLink h path → ∀ place, leadsTo h path = .missing place → realRoot <+: place

/-! ## Paths -/

theorem normalize_names : ∀ (parts : List String) {place : Place},
    (∀ name ∈ place, IsName name) → ∀ name ∈ normalize place parts, IsName name
  | [], _, h => h
  | part :: parts, place, h => by
    rw [normalize]
    split
    · exact normalize_names parts h
    split
    · exact normalize_names parts fun name hname => h name ((dropLast_sublist _).subset hname)
    · rename_i hhere hup
      refine normalize_names parts fun name hname => ?_
      rcases mem_append.mp hname with hname | hname
      · exact h name hname
      · obtain rfl := mem_singleton.mp hname
        exact isName_of_parts hhere hup

/-- A place under another does not escape it, and no other does not. -/
theorem escapes_relative : ∀ {root place : Place}, (∀ name ∈ place, IsName name) →
    (escapes (relative root place) = false ↔ root <+: place)
  | [], place, h => by
    have hhead : escapes (relative [] place) = false := by
      unfold relative escapes
      cases place with
      | nil => rfl
      | cons name rest =>
        have hname := (h name mem_cons_self).2.2
        simpa using hname
    exact ⟨fun _ => nil_prefix, fun _ => hhead⟩
  | a :: as, [], _ => by
    have hhead : escapes (relative (a :: as) []) = true := rfl
    rw [hhead]
    exact ⟨nofun, fun h => absurd (prefix_nil.mp h) (cons_ne_nil _ _)⟩
  | a :: as, b :: bs, h => by
    rw [cons_prefix_cons, relative]
    by_cases hab : a = b
    · rw [if_pos hab, escapes_relative fun name hname => h name (mem_cons_of_mem _ hname)]
      exact ⟨fun h => ⟨hab, h⟩, fun h => h.2⟩
    · rw [if_neg hab]
      have hhead : escapes (List.replicate (as.length + 1) ".." ++ b :: bs) = true := rfl
      rw [hhead]
      exact ⟨nofun, fun h => absurd h.1 hab⟩

theorem pathResolve_names (h : Host) (root p : String) : ∀ name ∈ pathResolve h root p, IsName name
    := by
  have hnil : ∀ name ∈ ([] : Place), IsName name := fun _ => nofun
  unfold pathResolve
  split
  · exact normalize_names _ hnil
  · refine normalize_names _ ?_
    split
    · exact hnil
    · exact h.cwd_ok.names

/-! ## Where paths lead -/

theorem leadsTo_sound (h : Host) (path : Place) : (leadsTo h path).Sound h.tree :=
  resolve_sound h.links path h.cwd_ok.root

theorem leadsTo_nil (h : Host) : leadsTo h [] = .found [] h.links := resolve_nil _ _ _

theorem leadsTo_concat (h : Host) (parent : Place) (name : String) :
    leadsTo h (parent ++ [name]) = (leadsTo h parent).andThen h.tree [name] :=
  resolve_append (cons_ne_nil _ _) h.links parent h.cwd_ok.root

theorem resolve_name {t : Node} {name : String} (hname : IsName name) (left : Nat) (place : Place) :
    resolve t left place [name] =
      match t.find? (place ++ [name]) with
      | none => .missing (place ++ [name])
      | some .file => .found (place ++ [name]) left
      | some (.dir _) => .found (place ++ [name]) left
      | some (.link target) => behind t place target [] left := by
  have hhere : ¬ (name = "" || name = ".") = true := by
    simp only [Bool.or_eq_true, decide_eq_true_eq, not_or]
    exact ⟨hname.1, hname.2.1⟩
  rw [resolve_cons, if_neg hhere, if_neg hname.2.2]
  cases t.find? (place ++ [name]) with
  | none => rfl
  | some node =>
    cases node with
    | dir entries => exact resolve_nil t left (place ++ [name])
    | file => rfl
    | link target => rfl

variable {h : Host}

/-- A path to a missing file: its directory is there, and holds nothing of the name or a link. -/
theorem leadsTo_missing {path place : Place} (hnames : ∀ name ∈ path, IsName name)
    (hmissing : leadsTo h path = .missing place) : ∃ parent name real left,
      path = parent ++ [name] ∧ leadsTo h parent = .found real left ∧
      (place = real ++ [name] ∨ EndsInLink h path) := by
  rcases eq_nil_or_concat path with rfl | ⟨parent, name, rfl⟩
  · rw [leadsTo_nil] at hmissing
    nomatch hmissing
  rw [concat_eq_append] at hmissing hnames ⊢
  have hname : IsName name := hnames name (mem_append_right _ (mem_singleton_self _))
  rw [leadsTo_concat] at hmissing
  cases hparent : leadsTo h parent with
  | found real left =>
    refine ⟨parent, name, real, left, rfl, hparent, ?_⟩
    rw [hparent] at hmissing
    unfold Outcome.andThen at hmissing
    dsimp only at hmissing
    split at hmissing
    · rw [resolve_name hname] at hmissing
      cases hfind : h.tree.find? (real ++ [name]) with
      | none =>
        rw [hfind] at hmissing
        exact .inl (Outcome.missing.inj hmissing).symm
      | some node =>
        rw [hfind] at hmissing
        cases node with
        | file => nomatch hmissing
        | dir entries => nomatch hmissing
        | link target => exact .inr ⟨parent, name, real, left, target, rfl, hparent, hfind⟩
    · nomatch hmissing
  | missing place' =>
    rw [hparent] at hmissing
    nomatch hmissing
  | absent =>
    rw [hparent] at hmissing
    nomatch hmissing
  | notDir =>
    rw [hparent] at hmissing
    nomatch hmissing
  | looped =>
    rw [hparent] at hmissing
    nomatch hmissing

/-! ## What the check looks at -/

theorem allowingMissing_found {target real : Place} {left : Nat} :
    ∀ {path : List String} (trailing : List String), leadsTo h path.reverse = .found real left →
    allowingMissing h target path trailing = .ok (real ++ trailing)
  | [], trailing, hfound => by
    have hreal : realPlace h [] [] = .ok real := by
      unfold realPlace
      rw [show resolve h.tree h.links [] [] = _ from hfound]
    rw [allowingMissing, hreal]
  | base :: parent, trailing, hfound => by
    have hreal : realPlace h [] (base :: parent).reverse = .ok real := by
      unfold realPlace
      rw [show resolve h.tree h.links [] (base :: parent).reverse = _ from hfound]
    rw [allowingMissing, hreal]

/-- Nothing is there, but for another reason than too many links. -/
def Lacking : Outcome → Prop
  | .found _ _ => False
  | .looped => False
  | _ => True

theorem allowingMissing_lacking {target : Place} {base : String} {parent : List String}
    (trailing : List String) (hlacking : Lacking (leadsTo h (base :: parent).reverse)) :
    allowingMissing h target (base :: parent) trailing =
      allowingMissing h target parent (base :: trailing) := by
  rw [allowingMissing]
  unfold realPlace
  change Lacking (resolve h.tree h.links [] (base :: parent).reverse) at hlacking
  cases hlead : resolve h.tree h.links [] (base :: parent).reverse with
  | found real left =>
    rw [hlead] at hlacking
    exact hlacking.elim
  | looped =>
    rw [hlead] at hlacking
    exact hlacking.elim
  | missing place => rfl
  | absent => rfl
  | notDir => rfl

variable {root : String} {realRoot : Place}

theorem resolveInWorkspace_ok {p : String} {path : Place}
    (hok : resolveInWorkspace h root p = .ok path) (hroot : realpath h root = .ok realRoot) :
    (∀ name ∈ path, IsName name) ∧ ∃ real, allowingMissing h path path.reverse [] = .ok real ∧
      escapes (relative realRoot real) = false := by
  unfold resolveInWorkspace at hok
  dsimp only at hok
  split at hok
  · nomatch hok
  · obtain ⟨realRoot', hroot', hok⟩ := bind_ok hok
    obtain ⟨real, hreal, hok⟩ := bind_ok hok
    rw [hroot] at hroot'
    obtain rfl : realRoot = realRoot' := Except.ok.inj hroot'
    split at hok
    · nomatch hok
    · rename_i hescapes
      obtain rfl := Except.ok.inj hok
      refine ⟨pathResolve_names h root p, real, ?_, by simpa using hescapes⟩
      unfold realpathAllowingMissing at hreal
      cases hlook : allowingMissing h (pathResolve h root p) (pathResolve h root p).reverse [] with
      | error code =>
        rw [hlook] at hreal
        nomatch hreal
      | ok real' =>
        rw [hlook] at hreal
        rw [Except.ok.inj hreal]

/-! ## New directories -/

/-- What is said of directories that are made: the check looked at where they are, and none was
    there. -/
structure MadeAs (h : Host) (target : Place) (path : List String) (dirs : List Place)
    (place : Place) : Prop where
  names : ∀ name ∈ place, IsName name
  looked : ∀ trailing, allowingMissing h target path trailing = .ok (place ++ trailing)
  lacking : dirs ≠ [] → Lacking (leadsTo h path.reverse)
  fresh : ∀ dir ∈ dirs, dir <+: place ∧ h.tree.find? dir = none

/-- **New directories** are made where the check looked. -/
theorem allowingMissing_made (target : Place) : ∀ {path : List String}
    {dirs : List Place} {place : Place}, (∀ name ∈ path, IsName name) →
    made h path = some (dirs, place) → MadeAs h target path dirs place
  | [], dirs, place, _, hmade => by
    obtain ⟨rfl, rfl⟩ := Prod.mk.inj (Option.some.inj hmade)
    exact {
      names := fun _ hname => absurd hname not_mem_nil
      looked := fun trailing => allowingMissing_found trailing (leadsTo_nil h)
      lacking := fun hne => absurd rfl hne
      fresh := fun _ hdir => absurd hdir not_mem_nil }
  | name :: parent, dirs, place, hnames, hmade => by
    obtain ⟨hname, hnames⟩ := forall_mem_cons.mp hnames
    have hsound := leadsTo_sound h (name :: parent).reverse
    have hrest : Lacking (leadsTo h (name :: parent).reverse) →
        (∃ dirs' place', made h parent = some (dirs', place') ∧
          h.tree.find? (place' ++ [name]) = none ∧ dirs = dirs' ++ [place' ++ [name]] ∧
          place = place' ++ [name]) → MadeAs h target (name :: parent) dirs place := by
      rintro hlacking ⟨dirs', place', hparent, hnone, rfl, rfl⟩
      have ih := allowingMissing_made target hnames hparent
      refine ⟨?_, fun trailing => ?_, fun _ => hlacking, ?_⟩
      · exact forall_mem_append.mpr ⟨ih.names, forall_mem_singleton.mpr hname⟩
      · rw [allowingMissing_lacking trailing hlacking, ih.looked, append_assoc]
        rfl
      · refine forall_mem_append.mpr ⟨fun dir hdir => ?_, forall_mem_singleton.mpr ?_⟩
        · exact ⟨(ih.fresh dir hdir).1.trans (prefix_append _ _), (ih.fresh dir hdir).2⟩
        · exact ⟨prefix_refl _, hnone⟩
    rw [made] at hmade
    cases hlead : leadsTo h (name :: parent).reverse with
    | found real left =>
      rw [hlead] at hmade hsound
      dsimp only at hmade
      split at hmade
      · obtain ⟨rfl, rfl⟩ := Prod.mk.inj (Option.some.inj hmade)
        exact ⟨hsound.1, fun trailing => allowingMissing_found trailing hlead,
          fun hne => absurd rfl hne, fun _ hdir => absurd hdir not_mem_nil⟩
      · cases hmade
    | looped =>
      rw [hlead] at hmade
      cases hmade
    | _ =>
      rw [hlead] at hmade hrest
      refine hrest trivial ?_
      dsimp only at hmade
      split at hmade
      · cases hmade
      · rename_i dirs' place' hparent
        split at hmade
        · rename_i hnone
          obtain ⟨rfl, rfl⟩ := Prod.mk.inj (Option.some.inj hmade)
          exact ⟨dirs', place', hparent, hnone, rfl, rfl⟩
        · cases hmade

/-! ## Confinement -/

theorem realpath_isSome
    (hroot : realpath h root = .ok realRoot) : (h.tree.find? realRoot).isSome = true := by
  unfold realpath realPlace at hroot
  have hstart : h.tree.DirAt (if (pathText root).absolute then [] else h.cwd) := by
    split
    · exact h.cwd_ok.root
    · exact h.cwd_ok
  have hsound := resolve_sound h.links (pathText root).parts hstart
  split at hroot
  · rename_i real left hreal
    rw [hreal] at hsound
    obtain ⟨-, node, hfind, -⟩ := hsound
    rw [← Except.ok.inj hroot, hfind]
    rfl
  · nomatch hroot
  · nomatch hroot
  · nomatch hroot
  · nomatch hroot

theorem written_inside {p : String} {path : Place}
    (hinside : EndsInLink h path → ∀ place, leadsTo h path = .missing place → realRoot <+: place)
    (hok : resolveInWorkspace h root p = .ok path) (hroot : realpath h root = .ok realRoot) :
    ∀ place ∈ written h path, realRoot <+: place := by
  obtain ⟨hnames, real, hlook, hescapes⟩ := resolveInWorkspace_ok hok hroot
  have hsound := leadsTo_sound h path
  unfold written
  cases hlead : leadsTo h path with
  | found place left =>
    rw [hlead] at hsound
    have hlook' : allowingMissing h path path.reverse [] = .ok (place ++ []) :=
      allowingMissing_found [] (by rw [reverse_reverse]; exact hlead)
    rw [hlook, append_nil] at hlook'
    obtain rfl := Except.ok.inj hlook'
    refine forall_mem_singleton.mpr ?_
    exact (escapes_relative hsound.1).mp hescapes
  | missing place =>
    refine forall_mem_singleton.mpr ?_
    obtain ⟨parent, name, real', left, hpath, hparent, hplace⟩ := leadsTo_missing hnames hlead
    rcases hplace with rfl | hlink
    · -- the check has looked at the very place
      have hlacking : Lacking (leadsTo h (name :: parent.reverse).reverse) := by
        rw [reverse_cons, reverse_reverse, ← hpath, hlead]
        trivial
      have hparent' : leadsTo h parent.reverse.reverse = .found real' left := by
        rw [reverse_reverse]
        exact hparent
      rw [hpath, reverse_append, reverse_singleton, singleton_append,
        allowingMissing_lacking [] hlacking, allowingMissing_found [name] hparent'] at hlook
      obtain rfl := Except.ok.inj hlook
      have hparentSound := leadsTo_sound h parent
      rw [hparent] at hparentSound
      have hname : IsName name :=
        hnames name (hpath ▸ mem_append_right _ (mem_singleton_self _))
      refine (escapes_relative ?_).mp hescapes
      exact forall_mem_append.mpr ⟨hparentSound.1, forall_mem_singleton.mpr hname⟩
    · exact hinside hlink place hlead
  | absent => exact fun _ => nofun
  | notDir => exact fun _ => nofun
  | looped => exact fun _ => nofun

theorem made_inside {p : String} {parent : Place} {name : String}
    {dirs : List Place} {place : Place}
    (hok : resolveInWorkspace h root p = .ok (parent ++ [name]))
    (hroot : realpath h root = .ok realRoot) (hmade : made h parent.reverse = some (dirs, place))
    (hne : dirs ≠ []) : ∀ place' ∈ dirs ++ [place ++ [name]], realRoot <+: place' := by
  obtain ⟨hnames, real, hlook, hescapes⟩ := resolveInWorkspace_ok hok hroot
  obtain ⟨hparent, hname⟩ := forall_mem_append.mp hnames
  have hname : IsName name := forall_mem_singleton.mp hname
  have hspec := allowingMissing_made (parent ++ [name])
    (fun name' hmem => hparent name' (mem_reverse.mp hmem)) hmade
  have hlacking : Lacking (leadsTo h (name :: parent.reverse).reverse) := by
    have hbefore := hspec.lacking hne
    rw [reverse_reverse] at hbefore
    rw [reverse_cons, reverse_reverse, leadsTo_concat]
    cases hlead : leadsTo h parent with
    | found place' left =>
      rw [hlead] at hbefore
      exact hbefore.elim
    | looped =>
      rw [hlead] at hbefore
      exact hbefore.elim
    | _ => trivial
  rw [reverse_append, reverse_singleton, singleton_append,
    allowingMissing_lacking [] hlacking, hspec.looked] at hlook
  obtain rfl := Except.ok.inj hlook
  have hunder : realRoot <+: place ++ [name] :=
    (escapes_relative (forall_mem_append.mpr
      ⟨hspec.names, forall_mem_singleton.mpr hname⟩)).mp hescapes
  refine forall_mem_append.mpr ⟨fun dir hdir => ?_, forall_mem_singleton.mpr hunder⟩
  obtain ⟨hdir, hnone⟩ := hspec.fresh dir hdir
  rcases prefix_or_prefix_of_prefix hunder (hdir.trans (prefix_append _ _)) with hle | hle
  · exact hle
  · -- the root is there, so no directory on the way to it is new
    have hsome := find?_isSome_of_prefix hle (realpath_isSome hroot)
    rw [hnone] at hsome
    nomatch hsome

/-- **Only places under the root are touched** exactly if no last name that is a link to a missing
    file leads out of it. -/
theorem confined_iff (h : Host) (root p : String) : Confined h root p ↔ LinksInside h root p := by
  constructor
  · intro hconfined path realRoot hok hroot _ place hmissing
    refine hconfined path realRoot hok hroot .write place ?_
    show place ∈ written h path
    rw [written, hmissing]
    exact mem_singleton_self place
  · intro hinside path realRoot hok hroot access
    have hwritten := written_inside (hinside path realRoot hok hroot) hok hroot
    cases access with
    | read =>
      intro place hplace
      refine hwritten place ?_
      unfold touched at hplace
      unfold written
      cases hlead : leadsTo h path with
      | found place' left =>
        rw [hlead] at hplace
        exact hplace
      | _ =>
        rw [hlead] at hplace
        nomatch hplace
    | write => exact hwritten
    | writeInNewDirs =>
      intro place' hplace
      unfold touched at hplace
      dsimp only at hplace
      rcases eq_nil_or_concat path with rfl | ⟨parent, name, rfl⟩
      · exact hwritten place' hplace
      rw [concat_eq_append] at hplace hok hwritten
      rw [List.getLast?_concat, dropLast_concat] at hplace
      cases hmade : made h parent.reverse with
      | none =>
        rw [hmade] at hplace
        nomatch hplace
      | some result =>
        obtain ⟨dirs, place⟩ := result
        rw [hmade] at hplace
        cases dirs with
        | nil => exact hwritten place' hplace
        | cons dir dirs =>
          exact made_inside hok hroot hmade (cons_ne_nil _ _) place' hplace

/-- A workspace that holds a link to a file yet to come, outside. -/
def linked : Host where
  tree := .dir [("ws", .dir [("l", .link { absolute := true, parts := ["out", "f"] })]),
    ("out", .dir [])]
  cwd := []
  links := 40
  cwd_ok := ⟨⟨_, rfl⟩, fun _ => nofun⟩

/-- The link is let through, and a write to it creates the file. -/
theorem dangling_link : ¬ ∀ h root p, Confined h root p := by
  intro hall
  have hok : resolveInWorkspace linked "/ws" "l" = .ok ["ws", "l"] := by decide +kernel
  have hroot : realpath linked "/ws" = .ok ["ws"] := by decide +kernel
  have hwritten : touched linked ["ws", "l"] .write = [["out", "f"]] := by decide +kernel
  have hunder := hall linked "/ws" "l" _ _ hok hroot .write ["out", "f"]
    (hwritten ▸ mem_singleton_self _)
  exact absurd hunder (by decide +kernel)

end NexusCode.Workspace
