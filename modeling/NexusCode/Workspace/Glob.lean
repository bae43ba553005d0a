/-
  What a glob matches, and what it should.

  A `**` should stand for whole names of a path.  The expression that a glob is compiled to has `.*`
  in its place, which knows no names: `**/x` matches `ax`.  And `.` leaves the line terminators out.

  1. `globToRegExp`, `test` — the compiled expression.
  2. `Rule`, `Means`        — the rules of a glob, and what they say.
  3. `plain_means`          — without `**` the two are the same.
  4. `swap_segments`        — names that `**` stands for may be any others.
  5. **`glob_means_iff`**   — for which globs the two agree on every path; `glued_name`.
-/
import NexusCode.Lib.Wildcard
import Mathlib.Data.List.Count
import Mathlib.Data.List.Forall2

namespace NexusCode.Workspace.Glob

open Lib Wildcard List

/-! ## The compiled expression -/

/-- What a compiled glob is made of. -/
inductive Piece where
  /-- `.*` -/
  | anything
  /-- `[^/]*` -/
  | segmentRun
  /-- `[^/]` -/
  | segmentUnit
  /-- A backslash and a unit. -/
  | escaped (u : Nat)
  /-- A unit as it is. -/
  | plain (u : Nat)

/-- The text of a piece in the expression. -/
def Piece.text : Piece → List Nat
  | anything => [46, 42]
  | segmentRun => [91, 94, 47, 93, 42]
  | segmentUnit => [91, 94, 47, 93]
  | escaped u => [92, u]
  | plain u => [u]

/-- The units that are escaped: `.+^$`, braces, parentheses, `|`, brackets and the backslash. -/
def metacharacters : List Nat := [46, 43, 94, 36, 123, 125, 40, 41, 124, 91, 93, 92]

/-- `globToRegExp(glob)`: the expression between `^` and `$`. -/
def globToRegExp : List Nat → List Piece
  | [] => []
  | 42 :: 42 :: 47 :: glob => .anything :: globToRegExp glob
  | 42 :: 42 :: glob => .anything :: globToRegExp glob
  | 42 :: glob => .segmentRun :: globToRegExp glob
  | 63 :: glob => .segmentUnit :: globToRegExp glob
  | u :: glob => (if u ∈ metacharacters then .escaped u else .plain u) :: globToRegExp glob

/-- What `.` stands for: a unit that ends no line. -/
def withinLine (u : Nat) : Bool := !(u = 10 || u = 13 || u = 0x2028 || u = 0x2029)

/-- What `[^/]` stands for. -/
def withinName (u : Nat) : Bool := u ≠ 47

/-- What a piece matches. -/
def Piece.part : Piece → Wildcard.Part Nat
  | anything => .run withinLine
  | segmentRun => .run withinName
  | segmentUnit => .one withinName
  | escaped u => .one (· == u)
  | plain u => .one (· == u)

/-- `globToRegExp(glob).test(path)`. -/
def test (glob path : List Nat) : Bool := fits ((globToRegExp glob).map Piece.part) path

/-! ## What a glob says -/

/-- A rule of a glob. -/
inductive Rule where
  /-- `**` and the separator behind it: any number of names, each with its separator. -/
  | segmentsAhead
  /-- `**`: any number of names. -/
  | segments
  /-- `*` -/
  | run
  /-- `?` -/
  | one
  /-- Anything else. -/
  | itself (u : Nat)

/-- The rules of a glob. -/
def rulesOf : List Nat → List Rule
  | [] => []
  | 42 :: 42 :: 47 :: glob => .segmentsAhead :: rulesOf glob
  | 42 :: 42 :: glob => .segments :: rulesOf glob
  | 42 :: glob => .run :: rulesOf glob
  | 63 :: glob => .one :: rulesOf glob
  | u :: glob => .itself u :: rulesOf glob

/-- A name of a path. -/
def IsName (s : List Nat) : Prop := s ≠ [] ∧ 47 ∉ s

/-- Names with a separator behind each. -/
def ahead (names : List (List Nat)) : List Nat := names.flatMap (· ++ [47])

/-- Names with separators between them. -/
def joined : List (List Nat) → List Nat
  | [] => []
  | name :: names => name ++ names.flatMap (47 :: ·)

/-- The rest of a path stands for the rules; `fresh` says that a name may begin here.  Names that
    `**` stands for are whole: they begin where a name may, and end where one does. -/
def Means : Bool → List Rule → List Nat → Prop
  | _, [], p => p = []
  | fresh, .segmentsAhead :: rules, p => ∃ names t, p = ahead names ++ t ∧
      (∀ name ∈ names, IsName name) ∧ (names = [] ∨ fresh = true) ∧ Means fresh rules t
  | fresh, .segments :: rules, p => ∃ names t, p = joined names ++ t ∧
      (∀ name ∈ names, IsName name) ∧ (names = [] ∨ fresh = true ∧ ∀ u ∈ t.head?, u = 47) ∧
      Means (fresh && names.isEmpty) rules t
  | fresh, .run :: rules, p => ∃ r t, p = r ++ t ∧ 47 ∉ r ∧ Means (fresh && r.isEmpty) rules t
  | _, .one :: rules, p => ∃ u t, p = u :: t ∧ u ≠ 47 ∧ Means false rules t
  | _, .itself u :: rules, p => ∃ t, p = u :: t ∧ Means (u == 47) rules t

/-- Names with separators between them go on here; at first a name must begin. -/
def goesOn : Bool → List Nat → Bool
  | fresh, [] => !fresh
  | fresh, u :: p => if u = 47 then !fresh && goesOn true p else goesOn false p

/-- A relative path: names with separators between them. -/
def IsPath (p : List Nat) : Prop := goesOn true p = true

instance (p : List Nat) : Decidable (IsPath p) := inferInstanceAs (Decidable (_ = true))

/-- The glob with one letter for every wildcard. -/
def skeleton (rules : List Rule) : List Nat :=
  rules.map fun rule => match rule with
    | .itself u => u
    | _ => 97

/-- Does the rule stand for names? -/
def Rule.isSegments : Rule → Bool
  | segmentsAhead => true
  | segments => true
  | _ => false

/-! ## Compiling by rules -/

/-- What a rule is compiled to, with the units `.` stands for. -/
def Rule.part (dot : Nat → Bool) : Rule → Wildcard.Part Nat
  | segmentsAhead => .run dot
  | segments => .run dot
  | run => .run withinName
  | one => .one withinName
  | itself u => .one (· == u)

theorem parts_globToRegExp (glob : List Nat) : (globToRegExp glob).map Piece.part =
    (rulesOf glob).map (Rule.part withinLine) := by
  fun_induction globToRegExp glob with
  | case1 => rfl
  | case2 glob ih => exact congrArg (Part.run withinLine :: ·) ih
  | case3 glob hslash ih =>
    rw [rulesOf]
    · exact congrArg (Part.run withinLine :: ·) ih
    · exact hslash
  | case4 glob hslash hstar ih =>
    rw [rulesOf]
    · exact congrArg (Part.run withinName :: ·) ih
    all_goals assumption
  | case5 glob ih => exact congrArg (Part.one withinName :: ·) ih
  | case6 u glob hsegments hstars hstar hquestion ih =>
    rw [rulesOf]
    · split <;> exact congrArg (Part.one (· == u) :: ·) ih
    all_goals assumption

theorem test_iff (glob path : List Nat) :
    test glob path = true ↔ Fits ((rulesOf glob).map (Rule.part withinLine)) path := by
  rw [test, parts_globToRegExp, fits_iff]

/-! ## Without `**` -/

variable {r : List Nat}

theorem within_name_iff : (∀ u ∈ r, withinName u = true) ↔ 47 ∉ r := by
  constructor
  · exact fun h hmem => of_decide_eq_true (h 47 hmem) rfl
  · exact fun h u hu => decide_eq_true fun heq => h (heq ▸ hu)

variable {rules : List Rule}

/-- **A glob without `**` means what it matches.** -/
theorem plain_means {dot : Nat → Bool}
    (hplain : ∀ rule ∈ rules, rule.isSegments = false) (fresh : Bool) (p : List Nat) :
    Fits (rules.map (Rule.part dot)) p ↔ Means fresh rules p := by
  induction rules generalizing fresh p with
  | nil => exact Iff.rfl
  | cons rule rules ih =>
    have ih := ih fun rule h => hplain rule (.tail _ h)
    cases rule with
    | segmentsAhead => nomatch hplain _ (.head _)
    | segments => nomatch hplain _ (.head _)
    | run =>
      refine exists_congr fun r => exists_congr fun t => and_congr_right fun _ => ?_
      exact and_congr within_name_iff (ih _ t)
    | one =>
      refine exists_congr fun u => exists_congr fun t => and_congr_right fun _ => ?_
      exact and_congr decide_eq_true_iff (ih _ t)
    | itself u =>
      constructor
      · rintro ⟨v, t, rfl, hv, h⟩
        exact ⟨t, by rw [beq_iff_eq.mp hv], (ih _ t).mp h⟩
      · rintro ⟨t, rfl, h⟩
        exact ⟨u, t, rfl, beq_iff_eq.mpr rfl, (ih _ t).mpr h⟩

/-! ## Paths -/

theorem goesOn_name (hr : 47 ∉ r) (fresh : Bool) (t : List Nat) :
    goesOn fresh (r ++ t) = goesOn (fresh && r.isEmpty) t := by
  induction r generalizing fresh with
  | nil => exact congrArg (goesOn · t) (Bool.and_true _).symm
  | cons u r ih =>
    rw [mem_cons, not_or] at hr
    rw [cons_append, goesOn, if_neg (Ne.symm hr.1), ih hr.2, Bool.false_and,
      isEmpty_cons, Bool.and_false]

variable {fresh : Bool}

theorem goesOn_rest {t : List Nat} (h : goesOn fresh (r ++ t) = true) :
    ∃ fresh', goesOn fresh' t = true := by
  induction r generalizing fresh with
  | nil => exact ⟨fresh, h⟩
  | cons u r ih =>
    rw [cons_append, goesOn] at h
    split at h
    · exact ih (Bool.and_eq_true_iff.mp h).2
    · exact ih h

theorem goesOn_isName {name : List Nat} (hname : IsName name) (fresh : Bool) (t : List Nat) :
    goesOn fresh (name ++ t) = goesOn false t := by
  have hempty : name.isEmpty = false := isEmpty_eq_false_iff.mpr hname.1
  rw [goesOn_name hname.2, hempty, Bool.and_false]

variable {names : List (List Nat)}

theorem goesOn_ahead (hnames : ∀ name ∈ names, IsName name)
    (t : List Nat) : goesOn true (ahead names ++ t) = goesOn true t := by
  induction names with
  | nil => rfl
  | cons name names ih =>
    obtain ⟨hname, hnames⟩ := forall_mem_cons.mp hnames
    have hcons : ahead (name :: names) ++ t = name ++ 47 :: (ahead names ++ t) := by
      unfold ahead
      rw [flatMap_cons, append_assoc, append_assoc]
      rfl
    rw [hcons, goesOn_isName hname, goesOn, if_pos rfl]
    exact ih hnames

/-- Behind names with a separator in front of each none begins. -/
theorem goesOn_behind (hnames : ∀ name ∈ names, IsName name)
    (t : List Nat) : goesOn false (names.flatMap (47 :: ·) ++ t) = goesOn false t := by
  induction names with
  | nil => rfl
  | cons name names ih =>
    obtain ⟨hname, hnames⟩ := forall_mem_cons.mp hnames
    rw [flatMap_cons, append_assoc, cons_append, goesOn, if_pos rfl,
      goesOn_isName hname]
    exact ih hnames

theorem goesOn_joined (hne : names ≠ [])
    (hnames : ∀ name ∈ names, IsName name) (fresh : Bool) (t : List Nat) :
    goesOn fresh (joined names ++ t) = goesOn false t := by
  cases names with
  | nil => exact absurd rfl hne
  | cons name names =>
    obtain ⟨hname, hnames⟩ := forall_mem_cons.mp hnames
    rw [joined, append_assoc, goesOn_isName hname]
    exact goesOn_behind hnames t

/-! ## Globs that no path can match -/

/-- Any unit. -/
def anyUnit (_ : Nat) : Bool := true

variable {p : List Nat}

theorem fits_anyUnit {dot : Nat → Bool}
    (h : Fits (rules.map (Rule.part dot)) p) : Fits (rules.map (Rule.part anyUnit)) p := by
  refine h.mono ?_
  rw [forall₂_map_left_iff, forall₂_map_right_iff]
  refine forall₂_same.mpr fun rule _ => ?_
  cases rule <;> first | exact fun _ _ => rfl | exact fun _ h => h

theorem Means.fits (h : Means fresh rules p) :
    Fits (rules.map (Rule.part anyUnit)) p := by
  induction rules generalizing fresh p with
  | nil => exact h
  | cons rule rules ih =>
    cases rule with
    | segmentsAhead =>
      obtain ⟨names, t, rfl, -, -, h⟩ := h
      exact ⟨_, t, rfl, fun _ _ => rfl, ih h⟩
    | segments =>
      obtain ⟨names, t, rfl, -, -, h⟩ := h
      exact ⟨_, t, rfl, fun _ _ => rfl, ih h⟩
    | run =>
      obtain ⟨r, t, rfl, hr, h⟩ := h
      exact ⟨r, t, rfl, within_name_iff.mpr hr, ih h⟩
    | one =>
      obtain ⟨u, t, rfl, hu, h⟩ := h
      exact ⟨u, t, rfl, decide_eq_true hu, ih h⟩
    | itself u =>
      obtain ⟨t, rfl, h⟩ := h
      exact ⟨u, t, rfl, beq_iff_eq.mpr rfl, ih h⟩

/-- If a path matches, the glob with letters for its wildcards is a path too. -/
theorem goesOn_skeleton {fresh' : Bool}
    (hfresh : fresh' = true → fresh = true) (hfits : Fits (rules.map (Rule.part anyUnit)) p)
    (h : goesOn fresh p = true) : goesOn fresh' (skeleton rules) = true := by
  -- where a name must begin behind the letters, one must behind what they stand for
  induction rules generalizing fresh fresh' p with
  | nil =>
    subst hfits
    cases fresh' with
    | false => rfl
    | true =>
      rw [hfresh rfl] at h
      exact h
  | cons rule rules ih =>
    have hrun : ∀ r t : List Nat, p = r ++ t → Fits (rules.map (Rule.part anyUnit)) t →
        goesOn false (skeleton rules) = true := by
      intro r t heq hfits
      rw [heq] at h
      obtain ⟨fresh'', hrest⟩ := goesOn_rest h
      exact ih nofun hfits hrest
    cases rule with
    | segmentsAhead =>
      obtain ⟨r, t, heq, -, hfits⟩ := hfits
      exact hrun r t heq hfits
    | segments =>
      obtain ⟨r, t, heq, -, hfits⟩ := hfits
      exact hrun r t heq hfits
    | run =>
      obtain ⟨r, t, heq, -, hfits⟩ := hfits
      exact hrun r t heq hfits
    | one =>
      obtain ⟨u, t, heq, -, hfits⟩ := hfits
      exact hrun [u] t heq hfits
    | itself u =>
      obtain ⟨v, t, rfl, hv, hfits⟩ := hfits
      rw [beq_iff_eq.mp hv] at h
      show goesOn fresh' (u :: skeleton rules) = true
      rw [goesOn] at h ⊢
      split
      · rename_i hslash
        rw [if_pos hslash, Bool.and_eq_true] at h
        have hnot : fresh' = false := by
          cases fresh' with
          | false => rfl
          | true =>
            rw [hfresh rfl] at h
            nomatch h.1
        rw [hnot]
        exact ih (fun _ => rfl) hfits h.2
      · rename_i hslash
        rw [if_neg hslash] at h
        exact ih nofun hfits h

/-! ## Long paths -/

/-- The skeleton with `n + 1` letters, each a name, in place of every `**`. -/
def stretched (n : Nat) (rules : List Rule) : List Nat :=
  rules.flatMap fun rule => match rule with
    | .segmentsAhead | .segments => joined (List.replicate (n + 1) [97])
    | .itself u => [u]
    | _ => [97]

theorem isName_of_mem_replicate {n u : Nat} (hu : u ≠ 47) :
    ∀ name ∈ List.replicate n [u], IsName name := by
  intro name hname
  rw [(mem_replicate.mp hname).2]
  exact ⟨cons_ne_nil _ _, fun h => hu (mem_singleton.mp h).symm⟩

theorem goesOn_stretched (n : Nat) (rules : List Rule) (fresh : Bool) :
    goesOn fresh (stretched n rules) = goesOn fresh (skeleton rules) := by
  induction rules generalizing fresh with
  | nil => rfl
  | cons rule rules ih =>
    have hletter : ∀ t, goesOn fresh (97 :: t) = goesOn false t := fun t => if_neg (by decide)
    have hsegments : goesOn fresh (joined (List.replicate (n + 1) [97]) ++ stretched n rules) =
        goesOn fresh (97 :: skeleton rules) := by
      have hne : List.replicate (n + 1) [97] ≠ [] := cons_ne_nil _ _
      rw [goesOn_joined hne (isName_of_mem_replicate (by decide)), hletter, ih]
    cases rule with
    | segmentsAhead => exact hsegments
    | segments => exact hsegments
    | run => exact (hletter _).trans ((ih false).trans (hletter _).symm)
    | one => exact (hletter _).trans ((ih false).trans (hletter _).symm)
    | itself u =>
      show goesOn fresh (u :: stretched n rules) = goesOn fresh (u :: skeleton rules)
      rw [goesOn, goesOn, ih, ih]

theorem within_joined (n : Nat) : ∀ u ∈ joined (List.replicate (n + 1) [97]),
    withinLine u = true := by
  intro u hu
  rw [replicate_succ, joined] at hu
  rcases mem_append.mp hu with hu | hu
  · rw [mem_singleton.mp hu]
    decide
  · obtain ⟨name, hname, hu⟩ := mem_flatMap.mp hu
    rw [(mem_replicate.mp hname).2] at hu
    rcases mem_cons.mp hu with rfl | hu
    · decide
    · rw [mem_singleton.mp hu]
      decide

theorem fits_stretched (n : Nat) (rules : List Rule) :
    Fits (rules.map (Rule.part withinLine)) (stretched n rules) := by
  induction rules with
  | nil => rfl
  | cons rule rules ih =>
    cases rule with
    | segmentsAhead => exact ⟨_, stretched n rules, rfl, within_joined n, ih⟩
    | segments => exact ⟨_, stretched n rules, rfl, within_joined n, ih⟩
    | run => exact ⟨[97], stretched n rules, rfl, forall_mem_singleton.mpr (by decide), ih⟩
    | one => exact ⟨97, stretched n rules, rfl, by decide, ih⟩
    | itself u => exact ⟨u, stretched n rules, rfl, beq_iff_eq.mpr rfl, ih⟩

theorem le_count_joined (n : Nat) : n ≤ (joined (List.replicate (n + 1) [97])).count 47 := by
  rw [replicate_succ, joined, count_append]
  refine Nat.le_trans ?_ (Nat.le_add_left _ _)
  induction n with
  | zero => exact Nat.zero_le _
  | succ n ih =>
    rw [replicate_succ, flatMap_cons, count_append]
    have hone : List.count 47 [47, 97] = 1 := by decide
    omega

/-- A glob with a `**` is stretched to a path with as many separators as one likes. -/
theorem le_count_stretched (n : Nat)
    (h : ∃ rule ∈ rules, rule.isSegments = true) : n ≤ (stretched n rules).count 47 := by
  induction rules with
  | nil =>
    obtain ⟨_, hmem, _⟩ := h
    nomatch hmem
  | cons rule rules ih =>
    have hjoined := le_count_joined n
    have hrest : rule.isSegments = false → n ≤ (stretched n rules).count 47 := by
      intro hrule
      refine ih ?_
      obtain ⟨rule', hmem, h⟩ := h
      rcases mem_cons.mp hmem with rfl | hmem
      · rw [hrule] at h
        nomatch h
      · exact ⟨rule', hmem, h⟩
    unfold stretched
    rw [flatMap_cons, count_append]
    cases rule with
    | segmentsAhead => exact Nat.le_trans hjoined (Nat.le_add_right _ _)
    | segments => exact Nat.le_trans hjoined (Nat.le_add_right _ _)
    | run => exact Nat.le_trans (hrest rfl) (Nat.le_add_left _ _)
    | one => exact Nat.le_trans (hrest rfl) (Nat.le_add_left _ _)
    | itself u => exact Nat.le_trans (hrest rfl) (Nat.le_add_left _ _)

/-! ## Names that end lines -/

/-- How many separators stand right behind a line feed; `fed` says that one stands in front. -/
def lineSlashes : Bool → List Nat → Nat
  | _, [] => 0
  | fed, u :: p => (if fed = true ∧ u = 47 then 1 else 0) + lineSlashes (u = 10) p

theorem lineSlashes_cons_le (fed : Bool) (u : Nat) (p : List Nat) :
    lineSlashes fed (u :: p) ≤ 1 + lineSlashes (u = 10) p := by
  rw [lineSlashes]
  split <;> omega

theorem le_lineSlashes_append {n : Nat} {t : List Nat} (h : ∀ fed, n ≤ lineSlashes fed t)
    (r : List Nat) (fed : Bool) : n ≤ lineSlashes fed (r ++ t) := by
  induction r generalizing fed with
  | nil => exact h fed
  | cons u r ih => exact Nat.le_trans (ih _) (Nat.le_add_left _ _)

theorem lineSlashes_withinLine (hr : ∀ u ∈ r, withinLine u = true) (t : List Nat)
    (fed : Bool) : ∃ fed', lineSlashes fed (r ++ t) ≤ 1 + lineSlashes fed' t := by
  have hfeed : ∀ {u}, withinLine u = true → u ≠ 10 := by
    rintro u hu rfl
    nomatch hu
  have hrest : ∀ r' : List Nat, (∀ u ∈ r', withinLine u = true) →
      lineSlashes false (r' ++ t) = lineSlashes false t := by
    intro r' hr'
    induction r' with
    | nil => rfl
    | cons u r' ih =>
      obtain ⟨hu, hr'⟩ := forall_mem_cons.mp hr'
      rw [cons_append, lineSlashes, if_neg (fun h => nomatch h.1), decide_eq_false (hfeed hu),
        ih hr', Nat.zero_add]
  cases r with
  | nil => exact ⟨fed, Nat.le_add_left _ _⟩
  | cons u r =>
    obtain ⟨hu, hr⟩ := forall_mem_cons.mp hr
    have hcons := lineSlashes_cons_le fed u (r ++ t)
    rw [decide_eq_false (hfeed hu), hrest r hr] at hcons
    exact ⟨false, hcons⟩

theorem lineSlashes_withinName (hr : ∀ u ∈ r, withinName u = true) (t : List Nat)
    (fed : Bool) : ∃ fed', lineSlashes fed (r ++ t) = lineSlashes fed' t := by
  induction r generalizing fed with
  | nil => exact ⟨fed, rfl⟩
  | cons u r ih =>
    obtain ⟨hu, hr⟩ := forall_mem_cons.mp hr
    obtain ⟨fed', hrest⟩ := ih hr (u = 10)
    refine ⟨fed', ?_⟩
    rw [cons_append, lineSlashes, if_neg (fun h => of_decide_eq_true hu h.2), hrest,
      Nat.zero_add]

/-- **What the expression matches** has one such separator for every rule, at most. -/
theorem lineSlashes_le
    (h : Fits (rules.map (Rule.part withinLine)) p) (fed : Bool) :
    lineSlashes fed p ≤ rules.length := by
  induction rules generalizing p fed with
  | nil =>
    subst h
    exact Nat.le_refl _
  | cons rule rules ih =>
    have hdot : ∀ r t : List Nat, p = r ++ t → (∀ u ∈ r, withinLine u = true) →
        Fits (rules.map (Rule.part withinLine)) t → lineSlashes fed p ≤ rules.length + 1 := by
      rintro r t rfl hr h
      obtain ⟨fed', hle⟩ := lineSlashes_withinLine hr t fed
      have hrest := ih h fed'
      omega
    have hunit : ∀ u t, p = u :: t → Fits (rules.map (Rule.part withinLine)) t →
        lineSlashes fed p ≤ rules.length + 1 := by
      rintro u t rfl h
      have hcons := lineSlashes_cons_le fed u t
      have hrest := ih h (u = 10)
      omega
    rw [length_cons]
    cases rule with
    | segmentsAhead =>
      obtain ⟨r, t, heq, hr, h⟩ := h
      exact hdot r t heq hr h
    | segments =>
      obtain ⟨r, t, heq, hr, h⟩ := h
      exact hdot r t heq hr h
    | run =>
      obtain ⟨r, t, rfl, hr, h⟩ := h
      obtain ⟨fed', heq⟩ := lineSlashes_withinName hr t fed
      rw [heq]
      exact Nat.le_succ_of_le (ih h fed')
    | one =>
      obtain ⟨u, t, heq, -, h⟩ := h
      exact hunit u t heq h
    | itself u =>
      obtain ⟨v, t, heq, -, h⟩ := h
      exact hunit v t heq h

theorem le_lineSlashes_ahead (n : Nat) (t : List Nat) (fed : Bool) :
    n ≤ lineSlashes fed (ahead (List.replicate n [10]) ++ t) := by
  induction n generalizing fed with
  | zero => exact Nat.zero_le _
  | succ n ih =>
    show n + 1 ≤ lineSlashes fed (10 :: 47 :: (ahead (List.replicate n [10]) ++ t))
    have hrest := ih (decide (47 = 10))
    have hslash : lineSlashes (decide (10 = 10)) (47 :: (ahead (List.replicate n [10]) ++ t)) =
        1 + lineSlashes (decide (47 = 10)) (ahead (List.replicate n [10]) ++ t) := rfl
    rw [lineSlashes, hslash]
    omega

theorem le_lineSlashes_joined (n : Nat) (t : List Nat) (fed : Bool) :
    n ≤ lineSlashes fed (joined (List.replicate (n + 1) [10]) ++ t) := by
  have hrest : ∀ n, n ≤ lineSlashes true ((List.replicate n [10]).flatMap (47 :: ·) ++ t) := by
    intro n
    induction n with
    | zero => exact Nat.zero_le _
    | succ n ih =>
      show n + 1 ≤ lineSlashes true (47 :: 10 :: ((List.replicate n [10]).flatMap (47 :: ·) ++ t))
      have hslash : lineSlashes true
          (47 :: 10 :: ((List.replicate n [10]).flatMap (47 :: ·) ++ t)) =
          1 + (0 + lineSlashes true ((List.replicate n [10]).flatMap (47 :: ·) ++ t)) := rfl
      rw [hslash]
      omega
  show n ≤ lineSlashes fed (10 :: ((List.replicate n [10]).flatMap (47 :: ·) ++ t))
  rw [lineSlashes]
  exact Nat.le_trans (hrest n) (Nat.le_add_left _ _)

/-- **Names that `**` stands for may be any others.**  A path with more separators than rules has
    one that only a `**` can stand for; in its place there may be names that are line feeds. -/
theorem swap_segments (n : Nat)
    (h : Means fresh rules p) (hcount : rules.length < p.count 47) :
    ∃ p', Means fresh rules p' ∧ goesOn fresh p' = goesOn fresh p ∧
      ∀ fed, n ≤ lineSlashes fed p' := by
  induction rules generalizing fresh p with
  | nil =>
    subst h
    exact absurd hcount (Nat.not_lt_zero _)
  | cons rule rules ih =>
    have hnewlines : ∀ m, ∀ name ∈ List.replicate m [10], IsName name := fun m =>
      isName_of_mem_replicate (by decide)
    rw [length_cons] at hcount
    cases rule with
    | segmentsAhead =>
      obtain ⟨names, t, rfl, hnames, hfresh, h⟩ := h
      by_cases hempty : names = []
      · subst hempty
        obtain ⟨p', hmeans, hgoes, hmany⟩ := ih h (Nat.lt_of_succ_lt hcount)
        exact ⟨p', ⟨[], p', rfl, hnames, .inl rfl, hmeans⟩, hgoes, hmany⟩
      · have hfresh := hfresh.resolve_left hempty
        subst hfresh
        refine ⟨ahead (List.replicate n [10]) ++ t,
          ⟨List.replicate n [10], t, rfl, hnewlines n, .inr rfl, h⟩, ?_,
          le_lineSlashes_ahead n t⟩
        rw [goesOn_ahead (hnewlines n), goesOn_ahead hnames]
    | segments =>
      obtain ⟨names, t, rfl, hnames, hwhole, h⟩ := h
      by_cases hempty : names = []
      · subst hempty
        rw [isEmpty_nil, Bool.and_true] at h
        obtain ⟨p', hmeans, hgoes, hmany⟩ := ih h (Nat.lt_of_succ_lt hcount)
        refine ⟨p', ⟨[], p', rfl, hnames, .inl rfl, ?_⟩, hgoes, hmany⟩
        rwa [isEmpty_nil, Bool.and_true]
      · have hne : List.replicate (n + 1) [10] ≠ [] := cons_ne_nil _ _
        rw [isEmpty_eq_false_iff.mpr hempty] at h
        refine ⟨joined (List.replicate (n + 1) [10]) ++ t,
          ⟨List.replicate (n + 1) [10], t, rfl, hnewlines _, .inr (hwhole.resolve_left hempty), ?_⟩,
          ?_, le_lineSlashes_joined n t⟩
        · rwa [isEmpty_eq_false_iff.mpr hne]
        · rw [goesOn_joined hne (hnewlines _), goesOn_joined hempty hnames]
    | run =>
      obtain ⟨r, t, rfl, hr, h⟩ := h
      rw [count_append, count_eq_zero_of_not_mem hr, Nat.zero_add] at hcount
      obtain ⟨p', hmeans, hgoes, hmany⟩ := ih h (by omega)
      refine ⟨r ++ p', ⟨r, p', rfl, hr, hmeans⟩, ?_, le_lineSlashes_append hmany r⟩
      rw [goesOn_name hr, goesOn_name hr, hgoes]
    | one =>
      obtain ⟨u, t, rfl, hu, h⟩ := h
      rw [count_cons_of_ne hu] at hcount
      obtain ⟨p', hmeans, hgoes, hmany⟩ := ih h (by omega)
      refine ⟨u :: p', ⟨u, p', rfl, hu, hmeans⟩, ?_, le_lineSlashes_append hmany [u]⟩
      rw [goesOn, goesOn, if_neg hu, if_neg hu, hgoes]
    | itself u =>
      obtain ⟨t, rfl, h⟩ := h
      have hrest : rules.length < t.count 47 := by
        rw [count_cons] at hcount
        split at hcount <;> omega
      obtain ⟨p', hmeans, hgoes, hmany⟩ := ih h hrest
      refine ⟨u :: p', ⟨p', rfl, hmeans⟩, ?_, le_lineSlashes_append hmany [u]⟩
      rw [goesOn, goesOn]
      by_cases hslash : u = 47
      · subst hslash
        rw [if_pos rfl, if_pos rfl]
        exact congrArg (!fresh && ·) hgoes
      · rw [if_neg hslash, if_neg hslash]
        rwa [beq_eq_false_iff_ne.mpr hslash] at hgoes

/-! ## When the two agree -/

/-- **A glob matches the paths it means**, all of them and no others, exactly if it has no `**`, or
    no path at all can match it: it begins or ends with a separator, or has one next to another. -/
theorem glob_means_iff (glob : List Nat) :
    (∀ p, IsPath p → (test glob p = true ↔ Means true (rulesOf glob) p)) ↔
      (∀ rule ∈ rulesOf glob, rule.isSegments = false) ∨ ¬ IsPath (skeleton (rulesOf glob)) := by
  constructor
  · intro hagree
    by_contra hnot
    obtain ⟨hsome, hpath⟩ := not_or.mp hnot
    have hpath : IsPath (skeleton (rulesOf glob)) := Classical.not_not.mp hpath
    have hsome : ∃ rule ∈ rulesOf glob, rule.isSegments = true := by
      by_contra hnone
      refine hsome fun rule hmem => Bool.eq_false_iff.mpr fun h => hnone ⟨rule, hmem, h⟩
    -- a long path that is matched, and so is meant
    obtain ⟨n, hn⟩ : ∃ n, n = (rulesOf glob).length + 1 := ⟨_, rfl⟩
    have hlong : IsPath (stretched n (rulesOf glob)) := (goesOn_stretched n _ true).trans hpath
    have hmeans := (hagree _ hlong).mp ((test_iff glob _).mpr (fits_stretched n _))
    have hcount := le_count_stretched n hsome
    -- its names become line feeds, and it is still meant, but not matched
    obtain ⟨p, hmeans, hgoes, hmany⟩ := swap_segments n hmeans (by omega)
    have hmatch := (hagree p (hgoes.trans hlong)).mpr hmeans
    have hfew := lineSlashes_le ((test_iff glob p).mp hmatch) false
    have := hmany false
    omega
  · rintro (hplain | hnone) p hpath
    · exact (test_iff glob p).trans (plain_means hplain true p)
    · have hno : ¬ Fits ((rulesOf glob).map (Rule.part anyUnit)) p := fun hfits =>
        hnone (goesOn_skeleton (fun _ => rfl) hfits hpath)
      exact ⟨fun h => absurd (fits_anyUnit ((test_iff glob p).mp h)) hno,
        fun h => absurd h.fits hno⟩

/-- `**/x` matches `ax`, whose last name is not `x`. -/
theorem glued_name : ¬ ∀ glob p, IsPath p → (test glob p = true ↔ Means true (rulesOf glob) p) := by
  intro hall
  obtain ⟨names, t, heq, -, -, t', rfl, rfl⟩ :=
    (hall [42, 42, 47, 120] [97, 120] (by decide)).mp (by decide)
  -- nothing but names with their separators could stand in front of the `x`
  cases names with
  | nil => nomatch heq
  | cons name names =>
    have hmem : 47 ∈ ahead (name :: names) ++ [120] :=
      mem_append_left _
        (mem_flatMap.mpr ⟨name, .head _, mem_append_right _ (.head _)⟩)
    rw [← heq] at hmem
    exact absurd hmem (by decide)

end NexusCode.Workspace.Glob
