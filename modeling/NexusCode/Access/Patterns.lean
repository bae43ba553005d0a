/-
  What a pattern of a role or a rule matches, and what it should.

  A `*` should stand for any text and every other character for itself.  The compiled expression
  differs in two ways: `.` leaves the line terminators out, and `?` is not escaped, so that it makes
  the character before it optional, or is no expression at all.

  1. `Obtained`     — what a pattern should match, with the characters a `*` may stand for.
  2. `expansions`   — the patterns without `?` that a pattern stands for as an expression.
  3. `compile_agree` — what it does match.
  4. **`patterns_mean_iff`** — when the two are the same, for a pattern and for a deny rule.
-/
import NexusCode.Access.Withholding
import NexusCode.Lib.Wildcard

namespace NexusCode.Access

open Lib Wildcard List Option

/-! ## What a pattern should match -/

/-- The parts of a pattern whose `*` stands for a text of these characters. -/
def partsOf (allowed : Nat → Bool) (pattern : List Nat) : List (Wildcard.Part Nat) :=
  pattern.map fun u => if u = 42 then .run allowed else .one (· == u)

/-- The value is the pattern with a text in place of every `*`. -/
def Obtained (allowed : Nat → Bool) (pattern value : List Nat) : Prop :=
  Fits (partsOf allowed pattern) value

instance (allowed : Nat → Bool) (pattern value : List Nat) :
    Decidable (Obtained allowed pattern value) :=
  inferInstanceAs (Decidable (Fits _ _))

/-- Any character. -/
def anything (_ : Nat) : Bool := true

/-- Any character but a line terminator. -/
def withinLine (u : Nat) : Bool := !isTerminator u

variable {allowed : Nat → Bool} {value : List Nat}

theorem obtained_nil :
    Obtained allowed [] value ↔ value = [] := Iff.rfl

theorem obtained_star {pattern : List Nat} :
    Obtained allowed (42 :: pattern) value ↔
      ∃ r t, value = r ++ t ∧ (∀ u ∈ r, allowed u = true) ∧ Obtained allowed pattern t := Iff.rfl

theorem obtained_cons {u : Nat} (hu : u ≠ 42) {pattern : List Nat} :
    Obtained allowed (u :: pattern) value ↔
      value.head? = some u ∧ Obtained allowed pattern value.tail := by
  unfold Obtained partsOf
  rw [map_cons, if_neg hu]
  cases value with
  | nil => exact ⟨fun ⟨_, _, h, _⟩ => (nomatch h), fun h => (nomatch h.1)⟩
  | cons a s =>
    rw [fits_one, List.head?_cons, some_inj, beq_iff_eq]
    exact Iff.rfl

/-! ## What it does match -/

/-- The patterns without `?` that a pattern stands for: `x?` and `x??` stand for `x` and for nothing,
    `*?` for `*`.  There are none if the expression does not compile. -/
def expansions : List Nat → Option (List (List Nat))
  | [] => some [[]]
  | 63 :: _ => none
  | 42 :: 63 :: 63 :: _ => none
  | 42 :: 63 :: rest => (expansions rest).map fun ps => ps.map (42 :: ·)
  | 42 :: rest => (expansions rest).map fun ps => ps.map (42 :: ·)
  | u :: 63 :: 63 :: rest => (expansions rest).map fun ps => ps.map (u :: ·) ++ ps
  | u :: 63 :: rest => (expansions rest).map fun ps => ps.map (u :: ·) ++ ps
  | u :: rest => (expansions rest).map fun ps => ps.map (u :: ·)

/-- One of the patterns makes the value, no `*` of it standing for a line terminator. -/
def Expands (ps : List (List Nat)) (value : List Nat) : Prop :=
  ∃ q ∈ ps, Obtained withinLine q value

variable {ps : List (List Nat)}

theorem expands_star :
    Expands (ps.map (42 :: ·)) value ↔
      ∃ r t, value = r ++ t ∧ (∀ u ∈ r, withinLine u = true) ∧ Expands ps t := by
  constructor
  · rintro ⟨q, hmem, h⟩
    obtain ⟨q, hq, rfl⟩ := mem_map.mp hmem
    obtain ⟨r, t, heq, hr, h⟩ := obtained_star.mp h
    exact ⟨r, t, heq, hr, q, hq, h⟩
  · rintro ⟨r, t, heq, hr, q, hq, h⟩
    exact ⟨42 :: q, mem_map_of_mem hq, obtained_star.mpr ⟨r, t, heq, hr, h⟩⟩

theorem expands_cons {u : Nat} (hu : u ≠ 42) :
    Expands (ps.map (u :: ·)) value ↔ value.head? = some u ∧ Expands ps value.tail := by
  constructor
  · rintro ⟨q, hmem, h⟩
    obtain ⟨q, hq, rfl⟩ := mem_map.mp hmem
    obtain ⟨hhead, h⟩ := (obtained_cons hu).mp h
    exact ⟨hhead, q, hq, h⟩
  · rintro ⟨hhead, q, hq, h⟩
    exact ⟨u :: q, mem_map_of_mem hq, (obtained_cons hu).mpr ⟨hhead, h⟩⟩

theorem expands_append {ps' : List (List Nat)} :
    Expands (ps ++ ps') value ↔ Expands ps value ∨ Expands ps' value := by
  unfold Expands
  simp only [mem_append, or_and_right, exists_or]

theorem matchItems_unit {u : Nat} {items : List Item} :
    matchItems (.unit u :: items) value = true ↔
      value.head? = some u ∧ matchItems items value.tail = true := by
  rw [matchItems, Bool.and_eq_true, beq_iff_eq]

theorem matchItems_optional {u : Nat} {items : List Item} :
    matchItems (.optional u :: items) value = true ↔
      (value.head? = some u ∧ matchItems items value.tail = true) ∨
        matchItems items value = true := by
  rw [matchItems, Bool.or_eq_true, Bool.and_eq_true, beq_iff_eq, or_comm]

theorem matchItems_run {items : List Item} :
    matchItems (.run :: items) value = true ↔
      ∃ r t, value = r ++ t ∧ (∀ u ∈ r, withinLine u = true) ∧ matchItems items t = true := by
  rw [matchItems, List.any_eq_true]
  constructor
  · rintro ⟨n, -, h⟩
    obtain ⟨hrun, h⟩ := Bool.and_eq_true_iff.mp h
    exact ⟨value.take n, value.drop n, (take_append_drop n value).symm,
      all_eq_true.mp hrun, h⟩
  · rintro ⟨r, t, rfl, hr, h⟩
    refine ⟨r.length, mem_range.mpr ?_, Bool.and_eq_true_iff.mpr ⟨?_, ?_⟩⟩
    · rw [length_append]
      omega
    · rw [take_left]
      exact all_eq_true.mpr hr
    · rw [drop_left]
      exact h

/-- The items match what the expansions make; the pattern compiles if it has any. -/
def Agree (items : Option (List Item)) (ps : Option (List (List Nat))) : Prop :=
  (items = none ∧ ps = none) ∨ ∃ is qs, items = some is ∧ ps = some qs ∧
    ∀ value, matchItems is value = true ↔ Expands qs value

section Agree

variable {items : Option (List Item)} {ps : Option (List (List Nat))}

theorem Agree.star (h : Agree items ps) :
    Agree (items.map (.run :: ·)) (ps.map fun qs => qs.map (42 :: ·)) := by
  rcases h with ⟨rfl, rfl⟩ | ⟨is, qs, rfl, rfl, h⟩
  · exact .inl ⟨rfl, rfl⟩
  · refine .inr ⟨_, _, rfl, rfl, fun value => ?_⟩
    rw [matchItems_run, expands_star]
    exact exists_congr fun r => exists_congr fun t => and_congr_right fun _ =>
      and_congr_right fun _ => h t

theorem Agree.unit {u : Nat} (hu : u ≠ 42) (h : Agree items ps) :
    Agree (items.map (.unit u :: ·)) (ps.map fun qs => qs.map (u :: ·)) := by
  rcases h with ⟨rfl, rfl⟩ | ⟨is, qs, rfl, rfl, h⟩
  · exact .inl ⟨rfl, rfl⟩
  · refine .inr ⟨_, _, rfl, rfl, fun value => ?_⟩
    rw [matchItems_unit, expands_cons hu, h]

theorem Agree.optional {u : Nat} (hu : u ≠ 42) (h : Agree items ps) :
    Agree (items.map (.optional u :: ·)) (ps.map fun qs => qs.map (u :: ·) ++ qs) := by
  rcases h with ⟨rfl, rfl⟩ | ⟨is, qs, rfl, rfl, h⟩
  · exact .inl ⟨rfl, rfl⟩
  · refine .inr ⟨_, _, rfl, rfl, fun value => ?_⟩
    rw [matchItems_optional, expands_append, expands_cons hu, h, h]

end Agree

/-- **A pattern compiles together with its expansions, and matches what they make.** -/
theorem compile_agree (pattern : List Nat) : Agree (compile pattern) (expansions pattern) := by
  induction pattern using compile.induct with
  | case1 =>
    refine .inr ⟨[], [[]], rfl, rfl, fun value => ?_⟩
    rw [matchItems, List.isEmpty_iff]
    constructor
    · exact fun h => ⟨[], .head _, obtained_nil.mpr h⟩
    · rintro ⟨q, hq, h⟩
      rw [mem_singleton.mp hq] at h
      exact obtained_nil.mp h
  | case2 => exact .inl ⟨rfl, rfl⟩
  | case3 => exact .inl ⟨rfl, rfl⟩
  | case4 rest hrest ih =>
    rw [compile, expansions]
    · exact ih.star
    all_goals assumption
  | case5 rest hrest hrest' ih =>
    rw [compile, expansions]
    · exact ih.star
    all_goals assumption
  | case6 u rest hu hu' ih =>
    rw [compile, expansions]
    · exact ih.optional hu'
    all_goals assumption
  | case7 u rest hu hstar hu' hrest ih =>
    rw [compile, expansions]
    · exact ih.optional hu'
    all_goals assumption
  | case8 u rest hu hstar hu' hstar' hrest hrest' ih =>
    rw [compile, expansions]
    · exact ih.unit (by assumption)
    all_goals assumption

/-! ## When the two are the same -/

/-- The pattern compiles, and matches the value exactly if the value is the pattern with some text in
    place of every `*`. -/
def Says (pattern value : String) : Prop :=
  ∃ matched, matchesPattern pattern value = some matched ∧
    (matched = true ↔ Obtained anything (JsString.units pattern) (JsString.units value))

/-- The pattern stands for some patterns as an expression, and they make the value exactly if the
    value is the pattern with some text in place of every `*`. -/
def Reads (pattern value : String) : Prop :=
  ∃ qs, expansions (JsString.units pattern) = some qs ∧ (Expands qs (JsString.units value) ↔
    Obtained anything (JsString.units pattern) (JsString.units value))

theorem says_iff (pattern value : String) : Says pattern value ↔ Reads pattern value := by
  unfold Says Reads matchesPattern
  rcases compile_agree (JsString.units pattern) with ⟨hc, he⟩ | ⟨is, qs, hc, he, h⟩
  · rw [hc, he]
    exact ⟨fun ⟨_, h, _⟩ => (nomatch h), fun ⟨_, h, _⟩ => (nomatch h)⟩
  · rw [hc, he]
    constructor
    · rintro ⟨matched, hmatched, hmeans⟩
      obtain rfl := some.inj hmatched
      exact ⟨qs, rfl, (h _).symm.trans hmeans⟩
    · rintro ⟨qs', heq, hreads⟩
      obtain rfl := some.inj heq
      exact ⟨_, rfl, (h _).trans hreads⟩

/-- A deny rule for the resources of a type. -/
def denying (type : String) : PolicyRule := { effect := .deny, resources := some [type ++ ":*"] }

theorem fires_denying_iff {time : HostTime} {req : AuthorizationRequest} {type : String} :
    Fires time req (denying type) ↔
      matchesPattern (type ++ ":*") req.resource = some true := by
  have hnot : "*" ∉ [type ++ ":*"] := by
    intro h
    have hlength := congrArg String.length (mem_singleton.mp h)
    rw [String.length_append] at hlength
    have htwo : (":*" : String).length = 2 := by decide
    have hone : ("*" : String).length = 1 := by decide
    omega
  have hany : matchesAny [type ++ ":*"] req.resource = matchesPattern (type ++ ":*") req.resource := by
    unfold matchesAny matchesAny
    cases matchesPattern (type ++ ":*") req.resource with
    | none => rfl
    | some matched => cases matched <;> rfl
  have hmatch : structuralMatch (denying type) req =
      matchesPattern (type ++ ":*") req.resource := by
    show includesOrMatches [type ++ ":*"] req.resource = _
    rw [includesOrMatches, if_neg hnot, hany]
  rw [Fires, hmatch]
  exact ⟨fun h => h.1, fun h => ⟨h, rfl, nofun⟩⟩

theorem obtained_append_star : ∀ (pattern rest : List Nat),
    Obtained anything (pattern ++ [42]) (pattern ++ rest)
  | [], rest => obtained_star.mpr ⟨rest, [], (append_nil rest).symm, fun _ _ => rfl,
      obtained_nil.mpr rfl⟩
  | u :: pattern, rest => by
    have ih := obtained_append_star pattern rest
    by_cases hu : u = 42
    · subst hu
      exact obtained_star.mpr ⟨[42], pattern ++ rest, rfl, fun _ _ => rfl, ih⟩
    · exact (obtained_cons hu).mpr ⟨rfl, ih⟩

theorem obtained_of_type (type id : String) : Obtained anything (JsString.units (type ++ ":*"))
    (JsString.units (type ++ ":" ++ id)) := by
  have hpattern : JsString.units (type ++ ":*") = (JsString.units type ++ [58]) ++ [42] := by
    rw [JsString.units_append, append_assoc]
    rfl
  have hvalue : JsString.units (type ++ ":" ++ id) =
      (JsString.units type ++ [58]) ++ JsString.units id := by
    rw [JsString.units_append, JsString.units_append]
    rfl
  rw [hpattern, hvalue]
  exact obtained_append_star _ _

/-- **When a pattern means what it says**, and when a deny rule for a type denies a resource of that
    type: where no `?` and no line terminator comes between. -/
theorem patterns_mean_iff (pattern value : String) (time : HostTime)
    (req : AuthorizationRequest) (type id : String) :
    (Says pattern value ↔ Reads pattern value) ∧
      (req.resource = type ++ ":" ++ id →
        (Fires time req (denying type) ↔ Reads (type ++ ":*") req.resource)) := by
  refine ⟨says_iff pattern value, fun hresource => ?_⟩
  rw [fires_denying_iff, ← says_iff, Says, hresource]
  constructor
  · exact fun h => ⟨true, h, iff_of_true rfl (obtained_of_type type id)⟩
  · rintro ⟨matched, hmatched, hmeans⟩
    rw [hmatched, hmeans.mpr (obtained_of_type type id)]

/-- A deny rule for tools, and a tool whose name starts with a line break. -/
theorem broken_line_not_denied : ¬ Says "tool:*" "tool:\nfs_write" ∧
    ¬ Fires Unescaped.midnight { Unescaped.request with resource := "tool:\nfs_write" }
      (denying "tool") := by
  have hmatch : matchesPattern "tool:*" "tool:\nfs_write" = some false := by decide +kernel
  have hobtained : Obtained anything (JsString.units "tool:*") (JsString.units "tool:\nfs_write") :=
    obtained_of_type "tool" "\nfs_write"
  constructor
  · rintro ⟨matched, hmatched, hmeans⟩
    rw [hmatch] at hmatched
    obtain rfl := some.inj hmatched
    exact Bool.false_ne_true (hmeans.mpr hobtained)
  · rw [fires_denying_iff]
    show matchesPattern "tool:*" "tool:\nfs_write" ≠ some true
    rw [hmatch]
    exact nofun

end NexusCode.Access
