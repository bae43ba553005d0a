/-
  JSON values up to the order of their members, and what a text keeps of a value.

    1. `units_inj`, `keyLe` — keys are ordered by their code units, a total order.
    2. `sorted`             — a value with the members of its objects in key order; two values are
       the same JSON value when these agree (`SameValue`).
    3. `plain`              — what is written of a value: numbers that are not finite become `null`.
    4. **`parse_stringify_plain`** — the text of any value reads back as what was written of it.
-/
import NexusCode.Lib.JsonGrammar
import NexusCode.Lib.Stable

namespace NexusCode.Lib

open List

namespace JsString

/-! ## The order of keys -/

theorem toNat_inj {c d : Char} (h : c.toNat = d.toNat) : c = d :=
  Char.ext (UInt32.toNat_inj.mp h)

/-- Code units are uniquely readable: the units of a character and those of the text behind it
    tell the character. -/
theorem unitsOf_append_inj {c d : Char} {l m : List Nat} (h : unitsOf c ++ l = unitsOf d ++ m) :
    c = d ∧ l = m := by
  have hsurrogate : ∀ e : Char, ¬ (0xD800 ≤ e.toNat ∧ e.toNat < 0xE000) := fun e he => by
    rcases e.valid with hv | hv
    · exact absurd he.1 (Nat.not_le.mpr hv)
    · exact absurd hv.1 (Nat.not_lt.mpr (Nat.le_of_lt_succ he.2))
  have hmax : ∀ e : Char, e.toNat < 0x110000 := fun e => by
    rcases e.valid with hv | hv
    · exact Nat.lt_trans hv (by decide)
    · exact hv.2
  have hc := hsurrogate c
  have hd := hsurrogate d
  have hcmax := hmax c
  have hdmax := hmax d
  unfold unitsOf at h
  by_cases hlow : c.toNat < 0x10000
  · rw [if_pos hlow] at h
    by_cases hlow' : d.toNat < 0x10000
    · rw [if_pos hlow'] at h
      obtain ⟨hhead, htail⟩ := cons.inj h
      exact ⟨toNat_inj hhead, htail⟩
    · rw [if_neg hlow'] at h
      have hhead := (cons.inj h).1
      omega
  · rw [if_neg hlow] at h
    by_cases hlow' : d.toNat < 0x10000
    · rw [if_pos hlow'] at h
      have hhead := (cons.inj h).1
      omega
    · rw [if_neg hlow'] at h
      obtain ⟨hhead, htail⟩ := cons.inj h
      obtain ⟨hsecond, hrest⟩ := cons.inj htail
      exact ⟨toNat_inj (by omega), hrest⟩

theorem unitsOf_ne_nil (c : Char) : unitsOf c ≠ [] := by
  unfold unitsOf
  split <;> exact cons_ne_nil _ _

/-- **Code units determine a string.** -/
theorem units_inj {a b : String} (h : units a = units b) : a = b := by
  have hlist : ∀ {l m : List Char}, l.flatMap unitsOf = m.flatMap unitsOf → l = m := by
    intro l
    induction l with
    | nil =>
      intro m h
      cases m with
      | nil => rfl
      | cons d m =>
        rw [flatMap_cons] at h
        exact absurd (append_eq_nil_iff.mp h.symm).1 (unitsOf_ne_nil d)
    | cons c l ih =>
      intro m h
      cases m with
      | nil =>
        rw [flatMap_cons] at h
        exact absurd (append_eq_nil_iff.mp h).1 (unitsOf_ne_nil c)
      | cons d m =>
        rw [flatMap_cons, flatMap_cons] at h
        obtain ⟨rfl, hrest⟩ := unitsOf_append_inj h
        rw [ih hrest]
  exact String.toList_inj.mp (hlist h)

theorem ltList_irrefl : ∀ l : List Nat, ltList l l = false
  | [] => rfl
  | a :: as => by simp [ltList, ltList_irrefl as]

theorem ltList_trichotomy : ∀ {l m : List Nat}, ltList l m = false → ltList m l = false → l = m
  | [], [], _, _ => rfl
  | [], _ :: _, h, _ => nomatch h
  | _ :: _, [], _, h => nomatch h
  | a :: as, b :: bs, h, h' => by
    simp only [ltList, Bool.or_eq_false_iff, decide_eq_false_iff_not, Bool.and_eq_false_iff,
      beq_eq_false_iff_ne] at h h'
    obtain rfl : a = b := by omega
    have hl : ltList as bs = false := h.2.resolve_left fun hne => hne rfl
    have hr : ltList bs as = false := h'.2.resolve_left fun hne => hne rfl
    rw [ltList_trichotomy hl hr]

theorem ltList_trans : ∀ {l m n : List Nat}, ltList l m = true → ltList m n = true →
    ltList l n = true
  | _, m, [], _, h => by cases m <;> nomatch h
  | [], _, _ :: _, _, _ => rfl
  | _ :: _, [], _ :: _, h, _ => nomatch h
  | a :: as, b :: bs, c :: cs, h, h' => by
    simp only [ltList, Bool.or_eq_true, decide_eq_true_eq, Bool.and_eq_true, beq_iff_eq] at h h' ⊢
    rcases h with h | ⟨rfl, h⟩
    · rcases h' with h' | ⟨rfl, -⟩
      · exact .inl (by omega)
      · exact .inl h
    · rcases h' with h' | ⟨rfl, h'⟩
      · exact .inl h'
      · exact .inr ⟨rfl, ltList_trans h h'⟩

end JsString

namespace Json

open JsString

theorem keyLe_antisymm {a b : String} (h : keyLe a b = true) (h' : keyLe b a = true) : a = b := by
  unfold keyLe ltUnits at h h'
  rw [Bool.not_eq_true'] at h h'
  exact units_inj (ltList_trichotomy h' h)

theorem keyLe_total (a b : String) : keyLe a b = true ∨ keyLe b a = true := by
  unfold keyLe ltUnits
  cases h : ltList (units b) (units a) with
  | false => exact .inl rfl
  | true =>
    right
    cases h' : ltList (units a) (units b) with
    | false => rfl
    | true =>
      have hloop := ltList_trans h h'
      rw [ltList_irrefl] at hloop
      nomatch hloop

theorem keyLe_trans {a b c : String} (h : keyLe a b = true) (h' : keyLe b c = true) :
    keyLe a c = true := by
  unfold keyLe ltUnits at h h' ⊢
  rw [Bool.not_eq_true'] at h h' ⊢
  cases hca : ltList (units c) (units a) with
  | false => rfl
  | true =>
    -- `c < a` and `a ≤ b` and `b ≤ c`: the first two give `c < b` or `b = a`
    cases hab : ltList (units a) (units b) with
    | true =>
      rw [ltList_trans hca hab] at h'
      nomatch h'
    | false =>
      rw [ltList_trichotomy hab h] at hca
      rw [hca] at h'
      nomatch h'

theorem compareKeys_nonpos_iff (a b : String) :
    (if ltUnits a b then (-1 : Rat) else if ltUnits b a then 1 else 0) ≤ 0 ↔ keyLe a b = true := by
  unfold keyLe
  cases hba : ltUnits b a with
  | false =>
    refine iff_of_true ?_ rfl
    split <;> decide
  | true =>
    have hab : ltUnits a b = false := by
      cases hab : ltUnits a b with
      | false => rfl
      | true =>
        have hloop := ltList_trans hab hba
        rw [ltList_irrefl] at hloop
        nomatch hloop
    rw [hab]
    decide

theorem compareKeys_lawful {α : Type} (key : α → String) : Lawful fun a b =>
    if ltUnits (key a) (key b) then (-1 : Rat) else if ltUnits (key b) (key a) then 1 else 0 where
  total a b := by
    rw [compareKeys_nonpos_iff, compareKeys_nonpos_iff]
    exact keyLe_total (key a) (key b)
  trans a b c := by
    rw [compareKeys_nonpos_iff, compareKeys_nonpos_iff, compareKeys_nonpos_iff]
    exact keyLe_trans

/-- The order of members. -/
def memberLe (f g : String × Json) : Prop := keyLe f.1 g.1 = true

instance : DecidableRel memberLe := fun f g => inferInstanceAs (Decidable (keyLe f.1 g.1 = true))

instance : Std.Total memberLe := ⟨fun f g => keyLe_total f.1 g.1⟩

instance : IsTrans (String × Json) memberLe := ⟨fun _ _ _ => keyLe_trans⟩

/-- The members of an object in key order. -/
def sortMembers (fields : List (String × Json)) : List (String × Json) :=
  fields.insertionSort memberLe

theorem sortMembers_perm (fields : List (String × Json)) : (sortMembers fields).Perm fields :=
  perm_insertionSort _ _

theorem sortMembers_of_perm {l m : List (String × Json)} (hnodup : (l.map Prod.fst).Nodup)
    (h : l.Perm m) : sortMembers l = sortMembers m := by
  have hperm : (sortMembers l).Perm (sortMembers m) :=
    (sortMembers_perm l).trans (h.trans (sortMembers_perm m).symm)
  refine List.Perm.eq_of_pairwise ?_ (pairwise_insertionSort _ _)
    (pairwise_insertionSort _ _) hperm
  intro f g hf hg hfg hgf
  have hkey : f.1 = g.1 := keyLe_antisymm hfg hgf
  have hf' : f ∈ l := (sortMembers_perm l).mem_iff.mp hf
  have hg' : g ∈ l := h.mem_iff.mpr ((sortMembers_perm m).mem_iff.mp hg)
  exact inj_on_of_nodup_map hnodup hf' hg' hkey

theorem sortMembers_map (g : String × Json → String × Json) (hg : ∀ f, (g f).1 = f.1)
    (fields : List (String × Json)) : sortMembers (fields.map g) = (sortMembers fields).map g := by
  unfold sortMembers
  refine (map_insertionSort memberLe memberLe g fields fun a _ b _ => ?_).symm
  unfold memberLe
  rw [hg, hg]

theorem sortMembers_idem (fields : List (String × Json)) :
    sortMembers (sortMembers fields) = sortMembers fields :=
  (pairwise_insertionSort _ _).insertionSort_eq

/-! ## The same value -/

mutual

/-- The value with the members of its objects in key order. -/
def sorted : Json → Json
  | arr items => arr (sortedItems items)
  | obj fields => obj (sortMembers (sortedFields fields))
  | v => v

def sortedItems : List Json → List Json
  | [] => []
  | v :: rest => sorted v :: sortedItems rest

def sortedFields : List (String × Json) → List (String × Json)
  | [] => []
  | (k, v) :: rest => (k, sorted v) :: sortedFields rest

end

mutual

/-- What is written of a value. -/
def plain : Json → Json
  | num x => if x.isFinite then num x else null
  | arr items => arr (plainItems items)
  | obj fields => obj (plainFields fields)
  | v => v

def plainItems : List Json → List Json
  | [] => []
  | v :: rest => plain v :: plainItems rest

def plainFields : List (String × Json) → List (String × Json)
  | [] => []
  | (k, v) :: rest => (k, plain v) :: plainFields rest

end

theorem sortedItems_eq : ∀ items : List Json, sortedItems items = items.map sorted
  | [] => rfl
  | v :: rest => congrArg (sorted v :: ·) (sortedItems_eq rest)

theorem sortedFields_eq : ∀ fields : List (String × Json),
    sortedFields fields = fields.map fun f => (f.1, sorted f.2)
  | [] => rfl
  | (k, v) :: rest => congrArg ((k, sorted v) :: ·) (sortedFields_eq rest)

theorem plainItems_eq : ∀ items : List Json, plainItems items = items.map plain
  | [] => rfl
  | v :: rest => congrArg (plain v :: ·) (plainItems_eq rest)

theorem plainFields_eq : ∀ fields : List (String × Json),
    plainFields fields = fields.map fun f => (f.1, plain f.2)
  | [] => rfl
  | (k, v) :: rest => congrArg ((k, plain v) :: ·) (plainFields_eq rest)

theorem sorted_obj (fields : List (String × Json)) :
    sorted (obj fields) = obj (sortMembers (fields.map fun f => (f.1, sorted f.2))) := by
  rw [sorted, sortedFields_eq]

theorem plain_obj (fields : List (String × Json)) :
    plain (obj fields) = obj (fields.map fun f => (f.1, plain f.2)) := by
  rw [plain, plainFields_eq]

theorem keys_map (g : String × Json → Json) (fields : List (String × Json)) :
    (fields.map fun f => (f.1, g f)).map Prod.fst = fields.map Prod.fst := by
  rw [map_map]
  rfl

theorem sortMembers_congr {l m : List (String × Json)} {g h : Json → Json}
    (hnodup : (l.map Prod.fst).Nodup) (hperm : l.Perm m) (hgh : ∀ f ∈ l, g f.2 = h f.2) :
    sortMembers (l.map fun f => (f.1, g f.2)) = sortMembers (m.map fun f => (f.1, h f.2)) := by
  have heq : (l.map fun f => (f.1, g f.2)) = l.map fun f => (f.1, h f.2) :=
    map_congr_left fun f hf => by rw [hgh f hf]
  rw [heq]
  refine sortMembers_of_perm ?_ (hperm.map _)
  rw [keys_map (fun f => h f.2)]
  exact hnodup

theorem sorted_idem (v : Json) : sorted (sorted v) = sorted v := by
  induction v using ind with
  | hnull => rfl
  | hbool => rfl
  | hnum => rfl
  | hstr => rfl
  | harr items ih =>
    show arr (sortedItems (sortedItems items)) = arr (sortedItems items)
    rw [sortedItems_eq, sortedItems_eq, map_map]
    exact congrArg arr (map_congr_left fun v h => ih v h)
  | hobj fields ih =>
    rw [sorted_obj, sorted_obj, sortMembers_map (fun f => (f.1, sorted f.2)) (fun _ => rfl)]
    refine congrArg obj ?_
    have heq : (sortMembers fields).map ((fun f => (f.1, sorted f.2)) ∘ fun f => (f.1, sorted f.2))
        = (sortMembers fields).map fun f => (f.1, sorted f.2) :=
      map_congr_left fun f hf => by
        show (f.1, sorted (sorted f.2)) = _
        rw [ih f ((sortMembers_perm fields).mem_iff.mp hf)]
    rw [sortMembers_idem, sortMembers_map (fun f => (f.1, sorted f.2)) (fun _ => rfl),
      map_map, heq]

/-! ## What is written -/

theorem chars_plain (v : Json) : chars (plain v) = chars v := by
  induction v using ind with
  | hnull => rfl
  | hbool => rfl
  | hnum x =>
    show chars (if x.isFinite then num x else null) = _
    cases h : x.isFinite with
    | true => rfl
    | false => exact (if_neg (by rw [h]; exact Bool.false_ne_true)).symm
  | hstr => rfl
  | harr items ih =>
    show '[' :: (commaList (charsList (plainItems items)) ++ [']'])
      = '[' :: (commaList (charsList items) ++ [']'])
    rw [charsList_eq, charsList_eq, plainItems_eq, map_map]
    have heq : items.map (chars ∘ plain) = items.map chars :=
      map_congr_left fun v h => ih v h
    rw [heq]
  | hobj fields ih =>
    rw [plain_obj, chars_obj, chars_obj, enumerate_eq,
      enumerated_map (fun f => (f.1, plain f.2)) (fun _ => rfl), map_map]
    have heq : (enumerated fields).map (memberChars ∘ fun f => (f.1, plain f.2))
        = (enumerated fields).map memberChars :=
      map_congr_left fun f hf => by
        show quote f.1 ++ ':' :: chars (plain f.2) = quote f.1 ++ ':' :: chars f.2
        rw [ih f ((enumerated_perm fields).mem_iff.mp hf)]
    rw [heq]
    rfl

theorem readable_plain {v : Json} (hv : IsValue v) : Readable (plain v) := by
  induction v using ind with
  | hnull => trivial
  | hbool => trivial
  | hnum x =>
    cases x with
    | fin q => exact reads_double hv
    | inf => trivial
    | nan => trivial
  | hstr => trivial
  | harr items ih =>
    have hitems := (isValueItems_iff items).mp hv
    show ReadableItems (plainItems items)
    rw [plainItems_eq, readableItems_iff]
    exact forall_mem_map.mpr fun v h => ih v h (hitems v h)
  | hobj fields ih =>
    obtain ⟨hnodup, hfields⟩ := hv
    have hfields := (isValueFields_iff fields).mp hfields
    rw [plain_obj]
    refine ⟨?_, (readableFields_iff _).mpr (forall_mem_map.mpr fun f hf => ih f hf (hfields f hf))⟩
    rw [keys_map (fun f => plain f.2)]
    exact hnodup

/-- **The text of a value reads back as what was written of it.** -/
theorem parse_stringify_plain {v : Json} (hv : IsValue v) :
    parse (stringify v) = some (arranged (plain v)) := by
  rw [← parse_stringify (readable_plain hv)]
  unfold stringify
  rw [chars_plain]

/-- **Nothing may follow a value**, white space aside. -/
theorem followed_unreadable {v : Json} (hv : IsValue v) {c : Char} {cs : List Char}
    (hspace : isSpace c = false) (hnumber : EndsNumber (c :: cs)) :
    parse (String.ofList (chars v ++ c :: cs)) = none := by
  have hread := readable_plain hv
  obtain ⟨d, ds, hds, hd, -⟩ := chars_head hread
  rw [chars_plain] at hds
  have hvalue := value_chars hread (2 * (chars v ++ c :: cs).length + 2) (c :: cs)
    (by rw [chars_plain, length_append]; omega) hnumber
  rw [chars_plain] at hvalue
  unfold parse
  dsimp only
  rw [String.toList_ofList, hds, cons_append, skipSpace_cons hd, ← cons_append, ← hds,
    hvalue]
  dsimp only
  rw [skipSpace_cons hspace]
  rfl

/-! ## One line -/

theorem newline_notMem_digits {ds : List Char} (h : AllDigits ds) : '\n' ∉ ds :=
  fun hmem => absurd (h '\n' hmem) (by decide)

theorem newline_notMem_layout {ds : List Char} (h : AllDigits ds) (n : Int) :
    '\n' ∉ JsNumber.layout ds n := by
  have hds := newline_notMem_digits h
  have htake : '\n' ∉ ds.take n.toNat := fun hmem => hds (mem_of_mem_take hmem)
  have hdrop : '\n' ∉ ds.drop n.toNat := fun hmem => hds (mem_of_mem_drop hmem)
  have hexp := newline_notMem_digits (allDigits_toDigits (n - 1).natAbs)
  have hzeros : ∀ m : ℕ, '\n' ∉ List.replicate m '0' :=
    fun m hmem => absurd (eq_of_mem_replicate hmem) (by decide)
  unfold JsNumber.layout
  dsimp only
  split
  · simp [hds]
  · split
    · simp [htake, hdrop]
    · split
      · simp [hds]
      · have hsign : '\n' ≠ (if n - 1 < 0 then '-' else '+') := by split <;> decide
        cases ds with
        | nil => exact not_mem_nil
        | cons d t =>
          obtain ⟨hd, ht⟩ := not_or.mp (mem_cons.not.mp hds)
          cases t with
          | nil =>
            show '\n' ∉ d :: 'e' :: (if n - 1 < 0 then '-' else '+') :: _
            simp only [mem_cons, not_or]
            exact ⟨hd, by decide, hsign, hexp⟩
          | cons d' t =>
            show '\n' ∉ d :: '.' :: ((d' :: t) ++ 'e' :: (if n - 1 < 0 then '-' else '+') :: _)
            have hexponent : '\n' ∉ 'e' :: (if n - 1 < 0 then '-' else '+') ::
                Nat.toDigits 10 (n - 1).natAbs := by
              simp only [mem_cons, not_or]
              exact ⟨by decide, hsign, hexp⟩
            rw [mem_cons, mem_cons, mem_append, not_or, not_or, not_or]
            exact ⟨hd, by decide, ht, hexponent⟩

theorem newline_notMem_toChars (x : JsNumber) : '\n' ∉ x.toChars := by
  have hpositive : ∀ q, '\n' ∉ JsNumber.printPositive q :=
    fun q => newline_notMem_layout (allDigits_toDigits _) _
  cases x with
  | nan => decide
  | inf negative => cases negative <;> decide
  | fin q =>
    show '\n' ∉ (if q = 0 then ['0'] else if q.num < 0 then '-' :: JsNumber.printPositive (-q)
      else JsNumber.printPositive q)
    split
    · decide
    · split
      · exact mem_cons.not.mpr (not_or.mpr ⟨by decide, hpositive (-q)⟩)
      · exact hpositive q

theorem newline_notMem_quote (s : String) : '\n' ∉ quote s := by
  have hescape : ∀ c : Char, '\n' ∉ escapeChar c := by
    intro c
    unfold escapeChar
    repeat' split
    all_goals first
      | decide
      | skip
    · have hhex : ∀ m : ℕ, '\n' ≠ Nat.digitChar (m % 16) := by
        intro m
        have := Nat.mod_lt m (show 0 < 16 by decide)
        interval_cases m % 16 <;> decide
      simp [hex4, hhex]
    · rename_i hnl _ _ _
      exact fun h => hnl (mem_singleton.mp h).symm
  unfold quote
  intro h
  rcases mem_cons.mp h with h | h
  · exact absurd h (by decide)
  · rcases mem_append.mp h with h | h
    · obtain ⟨c, -, hc⟩ := mem_flatMap.mp h
      exact hescape c hc
    · exact absurd (mem_singleton.mp h) (by decide)

theorem newline_notMem_commaList : ∀ {xs : List (List Char)}, (∀ x ∈ xs, '\n' ∉ x) →
    '\n' ∉ commaList xs
  | [], _ => not_mem_nil
  | [_], h => h _ mem_cons_self
  | x :: y :: ys, h => by
    intro hmem
    rcases mem_append.mp hmem with hmem | hmem
    · exact h x mem_cons_self hmem
    · rcases mem_cons.mp hmem with hmem | hmem
      · exact absurd hmem (by decide)
      · exact newline_notMem_commaList (fun z hz => h z (mem_cons_of_mem x hz)) hmem

/-- **A value is printed on one line.** -/
theorem newline_notMem_chars (v : Json) : '\n' ∉ chars v := by
  induction v using ind with
  | hnull => decide
  | hbool b => cases b <;> decide
  | hnum x =>
    show '\n' ∉ (if x.isFinite then x.toChars else "null".toList)
    split
    · exact newline_notMem_toChars x
    · decide
  | hstr s => exact newline_notMem_quote s
  | harr items ih =>
    show '\n' ∉ '[' :: (commaList (charsList items) ++ [']'])
    have hitems : '\n' ∉ commaList (charsList items) := by
      rw [charsList_eq]
      exact newline_notMem_commaList (forall_mem_map.mpr ih)
    simp [hitems]
  | hobj fields ih =>
    have hmembers : '\n' ∉ commaList ((enumerate fields).map memberChars) := by
      refine newline_notMem_commaList (forall_mem_map.mpr fun f hf => ?_)
      have hvalue := ih f ((enumerated_perm fields).mem_iff.mp hf)
      have hkey := newline_notMem_quote f.1
      simp [memberChars, hkey, hvalue]
    rw [chars_obj]
    simp [hmembers]

end Json

end NexusCode.Lib
