/-
  `JSON.parse` reads back what `JSON.stringify` wrote.

  A value is readable when its numbers read back one by one and no object has a key twice; the
  properties come back in the order in which they are enumerated (`arranged`).

  1. `Json.ind` — induction over values, by membership.
  2. `stringBody_quote` — a quoted string reads back.
  3. `value_chars` — a printed value reads back in front of anything that cannot continue a number;
     one induction over the value, with the lists of items and of members as lemmas about it.
  4. **`parse_stringify`**, and **`stringify_inj`** — readable values with the same text are the
     same up to the order of their properties.
-/
import NexusCode.Lib.Json
import Mathlib.Tactic.IntervalCases

namespace NexusCode.Lib.Json

open List Option

/-! ## Induction -/

/-- Induction over values, with the items and the members as hypotheses. -/
theorem ind {P : Json → Prop} (hnull : P null) (hbool : ∀ b, P (bool b)) (hnum : ∀ x, P (num x))
    (hstr : ∀ s, P (str s)) (harr : ∀ items, (∀ v ∈ items, P v) → P (arr items))
    (hobj : ∀ fields, (∀ f ∈ fields, P f.2) → P (obj fields)) (v : Json) : P v :=
  @Json.rec P (fun items => ∀ v ∈ items, P v) (fun fields => ∀ f ∈ fields, P f.2)
    (fun f => P f.2) hnull hbool hnum hstr harr hobj
    (fun _ => nofun) (fun _ _ hv hrest => forall_mem_cons.mpr ⟨hv, hrest⟩)
    (fun _ => nofun) (fun _ _ hf hrest => forall_mem_cons.mpr ⟨hf, hrest⟩)
    (fun _ _ h => h) v

/-! ## Readable values -/

/-- Text that cannot continue a number. -/
def EndsNumber (rest : List Char) : Prop :=
  ∀ c ∈ rest.head?, c.isDigit = false ∧ c ≠ '.' ∧ c ≠ 'e' ∧ c ≠ 'E'

/-- A number whose text reads back. -/
def Reads (x : JsNumber) : Prop :=
  x.isFinite = true ∧ ∀ rest, EndsNumber rest → number (x.toChars ++ rest) = some (num x, rest)

mutual

/-- A value whose numbers read back and whose objects have no key twice. -/
def Readable : Json → Prop
  | num x => Reads x
  | arr items => ReadableItems items
  | obj fields => (fields.map Prod.fst).Nodup ∧ ReadableFields fields
  | _ => True

def ReadableItems : List Json → Prop
  | [] => True
  | v :: rest => Readable v ∧ ReadableItems rest

def ReadableFields : List (String × Json) → Prop
  | [] => True
  | (_, v) :: rest => Readable v ∧ ReadableFields rest

end

mutual

/-- The value with the properties of its objects in enumeration order. -/
def arranged : Json → Json
  | arr items => arr (arrangedItems items)
  | obj fields => obj (enumerate (arrangedFields fields))
  | v => v

def arrangedItems : List Json → List Json
  | [] => []
  | v :: rest => arranged v :: arrangedItems rest

def arrangedFields : List (String × Json) → List (String × Json)
  | [] => []
  | (k, v) :: rest => (k, arranged v) :: arrangedFields rest

end

theorem readableItems_iff : ∀ items : List Json,
    ReadableItems items ↔ ∀ v ∈ items, Readable v
  | [] => ⟨fun _ _ => nofun, fun _ => trivial⟩
  | x :: xs => by
    rw [forall_mem_cons, ← readableItems_iff xs]
    exact Iff.rfl

theorem readableFields_iff : ∀ fields : List (String × Json),
    ReadableFields fields ↔ ∀ f ∈ fields, Readable f.2
  | [] => ⟨fun _ _ => nofun, fun _ => trivial⟩
  | (k, x) :: rest => by
    rw [forall_mem_cons, ← readableFields_iff rest]
    exact Iff.rfl

theorem arrangedItems_eq : ∀ items : List Json, arrangedItems items = items.map arranged
  | [] => rfl
  | x :: xs => congrArg (arranged x :: ·) (arrangedItems_eq xs)

theorem arrangedFields_eq : ∀ fields : List (String × Json),
    arrangedFields fields = fields.map fun f => (f.1, arranged f.2)
  | [] => rfl
  | (k, x) :: rest => congrArg ((k, arranged x) :: ·) (arrangedFields_eq rest)

theorem charsList_eq : ∀ items : List Json, charsList items = items.map chars
  | [] => rfl
  | x :: xs => congrArg (chars x :: ·) (charsList_eq xs)

/-- The text of a member. -/
def memberChars (f : String × Json) : List Char := quote f.1 ++ ':' :: chars f.2

theorem charsFields_eq : ∀ fields : List (String × Json),
    charsFields fields = fields.map fun f => (f.1, memberChars f)
  | [] => rfl
  | (k, x) :: rest => congrArg ((k, memberChars (k, x)) :: ·) (charsFields_eq rest)

/-! ## Enumeration -/

/-- The enumeration of pairs with arbitrary values. -/
def enumerated {υ : Type} (fields : List (String × υ)) : List (String × υ) :=
  (fields.filter fun f => (arrayIndex? f.1).isSome).insertionSort
      (fun a b => (arrayIndex? a.1).getD 0 ≤ (arrayIndex? b.1).getD 0)
    ++ fields.filter fun f => (arrayIndex? f.1).isNone

theorem enumerate_eq (fields : List (String × Json)) : enumerate fields = enumerated fields := rfl

theorem enumerated_map {υ ω : Type} (g : String × υ → String × ω) (hg : ∀ f, (g f).1 = f.1)
    (fields : List (String × υ)) : enumerated (fields.map g) = (enumerated fields).map g := by
  unfold enumerated
  rw [map_append, List.filter_map, List.filter_map,
    ← map_insertionSort (r := fun a b => (arrayIndex? a.1).getD 0 ≤ (arrayIndex? b.1).getD 0)]
  · simp only [Function.comp_def, hg]
  · intro a _ b _
    rw [hg, hg]

theorem enumerated_perm {υ : Type} (fields : List (String × υ)) :
    (enumerated fields).Perm fields := by
  unfold enumerated
  refine ((perm_insertionSort _ _).append_right _).trans ?_
  have hnot : (fun f : String × υ => (arrayIndex? f.1).isNone)
      = fun f => !(arrayIndex? f.1).isSome := by
    funext f
    cases arrayIndex? f.1 <;> rfl
  rw [hnot]
  exact filter_append_perm _ _

theorem chars_obj (fields : List (String × Json)) :
    chars (obj fields) = '{' :: (commaList ((enumerate fields).map memberChars) ++ ['}']) := by
  have hordered : (enumerated (charsFields fields)).map (·.2)
      = (enumerate fields).map memberChars := by
    rw [charsFields_eq, enumerated_map (fun f => (f.1, memberChars f)) (fun _ => rfl),
      List.map_map]
    rfl
  rw [← hordered]
  rfl

/-! ## Digits -/

/-- A single digit in front of anything that cannot continue a number. -/
theorem unsigned_digit {c : Char} (hc : c.isDigit = true) {rest : List Char}
    (hrest : EndsNumber rest) :
    unsigned (c :: rest) = some (((c.toNat - 48 : Nat) : Rat), rest) := by
  have htake : (c :: rest).takeWhile Char.isDigit = [c] := by
    rw [takeWhile_cons_of_pos hc]
    cases rest with
    | nil => rfl
    | cons d ds =>
      rw [takeWhile_cons_of_neg (by rw [(hrest d rfl).1]; exact Bool.false_ne_true)]
  have hdrop : (c :: rest).dropWhile Char.isDigit = rest := by
    rw [dropWhile_cons_of_pos hc]
    cases rest with
    | nil => rfl
    | cons d ds =>
      rw [dropWhile_cons_of_neg (by rw [(hrest d rfl).1]; exact Bool.false_ne_true)]
  have hvalue : ∀ e : Int, e = 0 →
      (if 0 ≤ e - (([] : List Char).length : Int) then
          ((decimal ([c] ++ []) * 10 ^ (e - (([] : List Char).length : Int)).toNat : Nat) : Rat)
        else mkRat (decimal ([c] ++ [])) (10 ^ (-(e - (([] : List Char).length : Int))).toNat))
        = ((c.toNat - 48 : Nat) : Rat) := by
    rintro e rfl
    simp [decimal]
  unfold unsigned
  simp only [htake, hdrop]
  rw [if_neg (by simp)]
  cases rest with
  | nil => exact congrArg (fun q => some (q, [])) (hvalue 0 rfl)
  | cons d ds =>
    obtain ⟨-, hpoint, he, hE⟩ := hrest d rfl
    split
    · rename_i heq
      exact absurd (cons.inj heq).1 hpoint
    · simp only [bind_eq_bind, bind_some]
      split
      · rename_i heq
        exact absurd (cons.inj heq).1 he
      · rename_i heq
        exact absurd (cons.inj heq).1 hE
      · exact congrArg (fun q => some (q, d :: ds)) (hvalue 0 rfl)

/-- **A one-digit number reads back.** -/
theorem reads_digit {d : Nat} (hd : d < 10) : Reads (.fin d) := by
  obtain ⟨hchars, hdigit, hround⟩ : (JsNumber.fin d).toChars = [Nat.digitChar d] ∧
      (Nat.digitChar d).isDigit = true ∧
      JsNumber.round (((Nat.digitChar d).toNat - 48 : Nat) : Rat) = .fin d := by
    interval_cases d <;> decide +kernel
  refine ⟨rfl, fun rest hrest => ?_⟩
  rw [hchars]
  show number (Nat.digitChar d :: rest) = _
  unfold number
  split
  · rename_i heq
    rw [(cons.inj heq).1] at hdigit
    exact absurd hdigit (by decide)
  · rw [unsigned_digit hdigit hrest, map_some, hround]

/-! ## Strings -/

theorem unit?_hex4 {k : Nat} (h : k < 32) (rest : List Char) :
    unit? (hex4 k ++ rest) = some (k, rest) := by
  interval_cases k <;> rfl

/-- **One printed character** reads back as itself. -/
theorem stringBody_escapeChar (c : Char) (n : Nat) (rest : List Char) :
    stringBody (n + 1) (escapeChar c ++ rest)
      = (stringBody n rest).map fun r => (c :: r.1, r.2) := by
  have hnat : ∀ {k : Nat}, c.toNat = k → c = Char.ofNat k := by
    rintro k rfl
    exact (Char.ofNat_toNat c).symm
  unfold escapeChar
  split
  · rename_i h
    rw [h]
    rfl
  split
  · rename_i h
    rw [h]
    rfl
  split
  · rename_i h
    rw [hnat h]
    rfl
  split
  · rename_i h
    rw [hnat h]
    rfl
  split
  · rename_i h
    rw [h]
    rfl
  split
  · rename_i h
    rw [h]
    rfl
  split
  · rename_i h
    rw [h]
    rfl
  split
  · -- a control character, written as a code unit below the surrogates
    rename_i hlow
    show (unit? (hex4 c.toNat ++ rest)).bind _ = _
    rw [unit?_hex4 hlow]
    have hpair : ¬ (0xD800 ≤ c.toNat ∧ c.toNat < 0xDC00) := by omega
    have hsurrogate : ¬ (0xD800 ≤ c.toNat ∧ c.toNat < 0xE000) := by omega
    simp only [bind_some, hpair, if_false, getD_none, hsurrogate, Char.ofNat_toNat]
    cases stringBody n rest <;> rfl
  · rename_i hquote hback _ _ _ _ _ hlow
    show stringBody (n + 1) (c :: rest) = _
    conv_lhs => unfold stringBody
    split
    · rename_i heq
      nomatch heq
    · rename_i heq
      exact absurd (cons.inj heq).1 hquote
    · rename_i heq
      exact absurd (cons.inj heq).1 hback
    · rename_i heq
      obtain ⟨rfl, rfl⟩ := cons.inj heq
      rw [if_neg (not_or.mpr ⟨hback, hlow⟩)]

/-- The characters of a printed string up to its closing quote. -/
theorem stringBody_escaped (s rest : List Char) : ∀ {n : Nat}, s.length < n →
    stringBody n (s.flatMap escapeChar ++ '"' :: rest) = some (s, rest) := by
  induction s with
  | nil =>
    intro n hn
    obtain ⟨m, rfl⟩ := Nat.exists_eq_succ_of_ne_zero (Nat.ne_of_gt hn)
    rfl
  | cons c s ih =>
    intro n hn
    obtain ⟨m, rfl⟩ := Nat.exists_eq_succ_of_ne_zero (Nat.ne_zero_of_lt hn)
    rw [flatMap_cons, append_assoc, stringBody_escapeChar,
      ih (Nat.lt_of_succ_lt_succ hn)]
    rfl

theorem length_le_escaped (s : List Char) : s.length ≤ (s.flatMap escapeChar).length := by
  induction s with
  | nil => exact Nat.le_refl 0
  | cons c s ih =>
    have hpos : 0 < (escapeChar c).length := by
      unfold escapeChar
      split_ifs <;> exact Nat.succ_pos _
    rw [flatMap_cons, length_append, length_cons]
    omega

/-- **A quoted string reads back.** -/
theorem stringBody_quote (s : String) (rest : List Char) :
    ∃ t, quote s ++ rest = '"' :: t ∧ stringBody (t.length + 1) t = some (s.toList, rest) := by
  refine ⟨s.toList.flatMap escapeChar ++ '"' :: rest, ?_, ?_⟩
  · unfold quote
    rw [cons_append, append_assoc]
    rfl
  · refine stringBody_escaped _ _ ?_
    have hlen := length_le_escaped s.toList
    rw [length_append, length_cons]
    omega

/-! ## Values -/

theorem skipSpace_cons {c : Char} (h : isSpace c = false) (cs : List Char) :
    skipSpace (c :: cs) = c :: cs := by
  unfold skipSpace
  rw [dropWhile_cons_of_neg (by rw [h]; exact Bool.false_ne_true)]

theorem number_head {s : List Char} {r : Json × List Char} (h : number s = some r) :
    ∃ c cs, s = c :: cs ∧ (c = '-' ∨ c.isDigit = true) := by
  unfold number at h
  split at h
  · exact ⟨_, _, rfl, .inl rfl⟩
  · cases s with
    | nil => cases h
    | cons c cs =>
      refine ⟨c, cs, rfl, .inr ?_⟩
      by_contra hc
      unfold unsigned at h
      rw [takeWhile_cons_of_neg hc] at h
      cases h

theorem value_number {c : Char} (hc : c = '-' ∨ c.isDigit = true) (n : Nat) (cs : List Char) :
    value (n + 1) (c :: cs) = number (c :: cs) := by
  have hne : ∀ d : Char, d ≠ '-' → d.isDigit = false → c ≠ d := by
    rintro d hd hdigit rfl
    rcases hc with hc | hc
    · exact hd hc
    · rw [hdigit] at hc
      nomatch hc
  conv_lhs => unfold value
  split
  · rename_i heq
    exact absurd (cons.inj heq).1 (hne _ (by decide) (by decide))
  · rename_i heq
    exact absurd (cons.inj heq).1 (hne _ (by decide) (by decide))
  · rename_i heq
    exact absurd (cons.inj heq).1 (hne _ (by decide) (by decide))
  · rename_i heq
    exact absurd (cons.inj heq).1 (hne _ (by decide) (by decide))
  · rename_i heq
    exact absurd (cons.inj heq).1 (hne _ (by decide) (by decide))
  · rename_i heq
    exact absurd (cons.inj heq).1 (hne _ (by decide) (by decide))
  · rfl

/-- The first character of a printed value: no space, and no closing bracket. -/
theorem chars_head {v : Json} (h : Readable v) :
    ∃ c cs, chars v = c :: cs ∧ isSpace c = false ∧ c ≠ ']' := by
  cases v with
  | null => exact ⟨'n', _, rfl, rfl, by decide⟩
  | bool b => cases b <;> exact ⟨_, _, rfl, rfl, by decide⟩
  | num x =>
    obtain ⟨hfinite, hreads⟩ := h
    have hnum := hreads [] (fun _ => nofun)
    rw [append_nil] at hnum
    obtain ⟨c, cs, hcs, hc⟩ := number_head hnum
    refine ⟨c, cs, ?_, ?_, ?_⟩
    · show (if x.isFinite then x.toChars else _) = _
      rw [if_pos hfinite, hcs]
    · rcases hc with rfl | hc
      · rfl
      · have hd : 48 ≤ c.toNat := by
          have := (Bool.and_eq_true_iff.mp hc).1
          exact of_decide_eq_true this
        unfold isSpace
        have hne : ∀ d : Char, d.toNat < 48 → (c == d) = false := by
          rintro d hlt
          refine beq_eq_false_iff_ne.mpr ?_
          rintro rfl
          omega
        rw [hne _ (by decide), hne _ (by decide), hne _ (by decide), hne _ (by decide)]
        rfl
    · rintro rfl
      rcases hc with hc | hc
      · exact absurd hc (by decide)
      · exact absurd hc (by decide)
  | str s => exact ⟨'"', _, rfl, rfl, by decide⟩
  | arr items => exact ⟨'[', _, rfl, rfl, by decide⟩
  | obj fields => exact ⟨'{', _, rfl, rfl, by decide⟩

/-- The value reads back, with enough fuel, in front of anything that cannot continue a number. -/
def ReadsBack (v : Json) : Prop :=
  ∀ n rest, (chars v).length ≤ n → EndsNumber rest →
    value n (chars v ++ rest) = some (arranged v, rest)

theorem value_arr {c : Char} (hspace : isSpace c = false) (hne : c ≠ ']') (n : Nat)
    (cs : List Char) : value (n + 1) ('[' :: c :: cs) = items n (c :: cs) [] := by
  rw [value, skipSpace_cons hspace]
  split
  · rename_i heq
    exact absurd (cons.inj heq).1 hne
  · rfl

/-- **The items of an array**, from the first on. -/
theorem items_chars : ∀ (xs : List Json) (x : Json) (n : Nat) (acc : List Json) (rest : List Char),
    (∀ v ∈ x :: xs, Readable v) → (∀ v ∈ x :: xs, ReadsBack v) →
    (commaList ((x :: xs).map chars)).length < n →
    items n (commaList ((x :: xs).map chars) ++ ']' :: rest) acc
      = some (arr (acc ++ (x :: xs).map arranged), rest) := by
  intro xs
  induction xs with
  | nil =>
    intro x n acc rest _ hread hn
    obtain ⟨m, rfl⟩ := Nat.exists_eq_succ_of_ne_zero (Nat.ne_zero_of_lt hn)
    have hvalue := hread x mem_cons_self m (']' :: rest) (Nat.le_of_lt_succ hn) (by
      rintro c hc
      obtain rfl := some.inj hc
      decide)
    show (value m (chars x ++ ']' :: rest)).bind _ = _
    rw [hvalue]
    rfl
  | cons y ys ih =>
    intro x n acc rest hreadable hread hn
    obtain ⟨m, rfl⟩ := Nat.exists_eq_succ_of_ne_zero (Nat.ne_zero_of_lt hn)
    have hlen : (commaList ((x :: y :: ys).map chars)).length
        = (chars x).length + ((commaList ((y :: ys).map chars)).length + 1) := by
      show (chars x ++ ',' :: commaList ((y :: ys).map chars)).length = _
      rw [length_append, length_cons]
    rw [hlen] at hn
    have hvalue := hread x mem_cons_self m
      (',' :: (commaList ((y :: ys).map chars) ++ ']' :: rest)) (by omega) (by
        rintro c hc
        obtain rfl := some.inj hc
        decide)
    obtain ⟨c, cs, hcs, hspace, -⟩ := chars_head (hreadable y (by simp))
    have hskip : skipSpace (commaList ((y :: ys).map chars) ++ ']' :: rest)
        = commaList ((y :: ys).map chars) ++ ']' :: rest := by
      have hhead : ∃ cs', commaList ((y :: ys).map chars) = c :: cs' := by
        cases ys with
        | nil => exact ⟨cs, hcs⟩
        | cons z zs =>
          refine ⟨cs ++ ',' :: commaList ((z :: zs).map chars), ?_⟩
          show chars y ++ _ = _
          rw [hcs]
          rfl
      obtain ⟨cs', hcs'⟩ := hhead
      rw [hcs']
      exact skipSpace_cons hspace _
    show (value m ((chars x ++ ',' :: commaList ((y :: ys).map chars)) ++ ']' :: rest)).bind _ = _
    rw [append_assoc, cons_append, hvalue]
    show items m (skipSpace (commaList ((y :: ys).map chars) ++ ']' :: rest)) _ = _
    rw [hskip, ih y m _ rest (fun v hv => hreadable v (mem_cons_of_mem _ hv))
      (fun v hv => hread v (mem_cons_of_mem _ hv)) (by omega), append_assoc]
    rfl

theorem setField_of_new {k : String} {v : Json} : ∀ {acc : List (String × Json)},
    k ∉ acc.map Prod.fst → setField k v acc = acc ++ [(k, v)]
  | [], _ => rfl
  | (k', v') :: acc, h => by
    have hne : k' ≠ k := fun hk => h (by rw [hk]; exact mem_cons_self)
    rw [setField, if_neg hne, setField_of_new (fun hmem => h (mem_cons_of_mem _ hmem))]
    rfl

theorem members_member {f : String × Json} {m : Nat} {acc : List (String × Json)}
    (tail : List Char) (hreadable : Readable f.2) (hread : ReadsBack f.2)
    (hnew : f.1 ∉ acc.map Prod.fst) (hlen : (chars f.2).length ≤ m) (htail : EndsNumber tail) :
    members (m + 1) (memberChars f ++ tail) acc
      = match skipSpace tail with
        | ',' :: rest => members m (skipSpace rest) (acc ++ [(f.1, arranged f.2)])
        | '}' :: rest => some (obj (acc ++ [(f.1, arranged f.2)]), rest)
        | _ => none := by
  obtain ⟨k, v⟩ := f
  obtain ⟨t, ht, hbody⟩ := stringBody_quote k (':' :: (chars v ++ tail))
  obtain ⟨c, cs, hcs, hspace, -⟩ := chars_head hreadable
  have hskip : skipSpace (chars v ++ tail) = chars v ++ tail := by
    rw [show chars v = c :: cs from hcs]
    exact skipSpace_cons hspace _
  have hvalue : value m (chars v ++ tail) = some (arranged v, tail) := hread m tail hlen htail
  have hkey : setField (String.ofList k.toList) (arranged v) acc = acc ++ [(k, arranged v)] := by
    rw [String.ofList_toList]
    exact setField_of_new hnew
  have htext : memberChars (k, v) ++ tail = '"' :: t := by
    rw [← ht]
    show (quote k ++ ':' :: chars v) ++ tail = _
    rw [append_assoc]
    rfl
  rw [htext]
  show (stringBody (t.length + 1) t).bind _ = _
  rw [hbody]
  show (value m (skipSpace (chars v ++ tail))).bind _ = _
  rw [hskip, hvalue]
  show (match skipSpace tail with
    | ',' :: rest =>
      members m (skipSpace rest) (setField (String.ofList k.toList) (arranged v) acc)
    | '}' :: rest => some (obj (setField (String.ofList k.toList) (arranged v) acc), rest)
    | _ => none) = _
  rw [hkey]

/-- **The members of an object**, from the first on, when no key was read before. -/
theorem members_chars : ∀ (fs : List (String × Json)) (f : String × Json) (n : Nat)
    (acc : List (String × Json)) (rest : List Char),
    (∀ g ∈ f :: fs, Readable g.2) → (∀ g ∈ f :: fs, ReadsBack g.2) →
    (acc.map Prod.fst ++ (f :: fs).map Prod.fst).Nodup →
    (commaList ((f :: fs).map memberChars)).length < n →
    members n (commaList ((f :: fs).map memberChars) ++ '}' :: rest) acc
      = some (obj (acc ++ (f :: fs).map fun g => (g.1, arranged g.2)), rest) := by
  have hlt : ∀ f : String × Json, (chars f.2).length < (memberChars f).length := by
    rintro ⟨k, v⟩
    show (chars v).length < (quote k ++ ':' :: chars v).length
    rw [List.length_append, List.length_cons]
    omega
  intro fs
  induction fs with
  | nil =>
    intro f n acc rest hreadable hread hnodup hn
    obtain ⟨m, rfl⟩ := Nat.exists_eq_succ_of_ne_zero (Nat.ne_zero_of_lt hn)
    have hnew : f.1 ∉ acc.map Prod.fst := fun hmem =>
      (nodup_append.mp hnodup).2.2 _ hmem _ mem_cons_self rfl
    have hle : (memberChars f).length ≤ m := Nat.le_of_lt_succ hn
    have hone := members_member ('}' :: rest) (hreadable f mem_cons_self)
      (hread f mem_cons_self) hnew (Nat.le_trans (Nat.le_of_lt (hlt f)) hle) (by
        rintro c hc
        obtain rfl := some.inj hc
        decide)
    exact hone
  | cons g gs ih =>
    intro f n acc rest hreadable hread hnodup hn
    obtain ⟨m, rfl⟩ := Nat.exists_eq_succ_of_ne_zero (Nat.ne_zero_of_lt hn)
    have hlen : (commaList ((f :: g :: gs).map memberChars)).length
        = (memberChars f).length + ((commaList ((g :: gs).map memberChars)).length + 1) := by
      show (memberChars f ++ ',' :: commaList ((g :: gs).map memberChars)).length = _
      rw [length_append, length_cons]
    rw [hlen] at hn
    have hnew : f.1 ∉ acc.map Prod.fst := fun hmem =>
      (nodup_append.mp hnodup).2.2 _ hmem _ mem_cons_self rfl
    have hmove : ((acc ++ [(f.1, arranged f.2)]).map Prod.fst ++ (g :: gs).map Prod.fst).Nodup := by
      rw [map_append, append_assoc]
      exact hnodup
    have hone := members_member (m := m)
      (',' :: (commaList ((g :: gs).map memberChars) ++ '}' :: rest))
      (hreadable f mem_cons_self) (hread f mem_cons_self) hnew
      (by have := hlt f; omega) (by
        rintro c hc
        obtain rfl := some.inj hc
        decide)
    have hskip : skipSpace (commaList ((g :: gs).map memberChars) ++ '}' :: rest)
        = commaList ((g :: gs).map memberChars) ++ '}' :: rest := by
      have hhead : ∃ cs, commaList ((g :: gs).map memberChars) = '"' :: cs := by
        cases gs with
        | nil => exact ⟨_, rfl⟩
        | cons h hs => exact ⟨_, rfl⟩
      obtain ⟨cs, hcs⟩ := hhead
      rw [hcs]
      exact skipSpace_cons (by decide) _
    show members (m + 1) ((memberChars f ++ ',' :: commaList ((g :: gs).map memberChars))
      ++ '}' :: rest) acc = _
    rw [append_assoc, cons_append, hone]
    show members m (skipSpace (commaList ((g :: gs).map memberChars) ++ '}' :: rest)) _ = _
    rw [hskip, ih g m _ rest (fun x hx => hreadable x (mem_cons_of_mem _ hx))
      (fun x hx => hread x (mem_cons_of_mem _ hx)) hmove (by omega), append_assoc]
    rfl

/-- **A printed value reads back**, in front of anything that cannot continue a number. -/
theorem value_chars {v : Json} (h : Readable v) : ReadsBack v := by
  induction v using ind with
  | hnull =>
    intro n rest hn _
    obtain ⟨m, rfl⟩ := Nat.exists_eq_succ_of_ne_zero (Nat.ne_zero_of_lt hn)
    rfl
  | hbool b =>
    intro n rest hn _
    cases b with
    | false =>
      obtain ⟨m, rfl⟩ := Nat.exists_eq_succ_of_ne_zero (Nat.ne_zero_of_lt hn)
      rfl
    | true =>
      obtain ⟨m, rfl⟩ := Nat.exists_eq_succ_of_ne_zero (Nat.ne_zero_of_lt hn)
      rfl
  | hnum x =>
    intro n rest hn hrest
    obtain ⟨hfinite, hreads⟩ := h
    have htext : chars (num x) = x.toChars := if_pos hfinite
    have hnumber := hreads rest hrest
    obtain ⟨c, cs, hcs, hc⟩ := number_head hnumber
    rw [htext] at hn ⊢
    have hpos : n ≠ 0 := by
      rintro rfl
      have hnil := eq_nil_of_length_eq_zero (Nat.le_zero.mp hn)
      have hempty := hreads [] (fun _ => nofun)
      rw [hnil] at hempty
      nomatch hempty
    obtain ⟨m, rfl⟩ := Nat.exists_eq_succ_of_ne_zero hpos
    rw [hcs, value_number hc, ← hcs]
    exact hnumber
  | hstr s =>
    intro n rest hn _
    obtain ⟨m, rfl⟩ := Nat.exists_eq_succ_of_ne_zero (Nat.ne_zero_of_lt hn)
    obtain ⟨t, ht, hbody⟩ := stringBody_quote s rest
    show value (m + 1) (quote s ++ rest) = _
    rw [ht]
    show (stringBody (t.length + 1) t).map _ = _
    rw [hbody, map_some, String.ofList_toList]
    rfl
  | harr xs ih =>
    intro n rest hn _
    have hreadable := (readableItems_iff _).mp h
    obtain ⟨m, rfl⟩ := Nat.exists_eq_succ_of_ne_zero (Nat.ne_zero_of_lt hn)
    cases xs with
    | nil => rfl
    | cons x xs =>
      have htext : chars (arr (x :: xs)) ++ rest
          = '[' :: (commaList ((x :: xs).map chars) ++ ']' :: rest) := by
        show '[' :: (commaList (charsList (x :: xs)) ++ [']']) ++ rest = _
        rw [charsList_eq, cons_append, append_assoc]
        rfl
      have hlen : (commaList ((x :: xs).map chars)).length < m := by
        have hshow : chars (arr (x :: xs))
            = '[' :: (commaList ((x :: xs).map chars) ++ [']']) := by
          show '[' :: (commaList (charsList (x :: xs)) ++ [']']) = _
          rw [charsList_eq]
        rw [hshow, length_cons, length_append, length_singleton] at hn
        omega
      have hitems := items_chars xs x m [] rest hreadable
        (fun v hv => ih v hv (hreadable v hv)) hlen
      obtain ⟨c, cs, hcs, hspace, hne⟩ := chars_head (hreadable x mem_cons_self)
      have hhead : ∃ cs', commaList ((x :: xs).map chars) ++ ']' :: rest = c :: cs' := by
        cases xs with
        | nil =>
          refine ⟨cs ++ ']' :: rest, ?_⟩
          show chars x ++ _ = _
          rw [hcs]
          rfl
        | cons y ys =>
          refine ⟨cs ++ ',' :: commaList ((y :: ys).map chars) ++ ']' :: rest, ?_⟩
          show (chars x ++ _) ++ _ = _
          rw [hcs]
          rfl
      obtain ⟨cs', hcs'⟩ := hhead
      rw [htext, hcs', value_arr hspace hne, ← hcs', hitems, nil_append, ← arrangedItems_eq]
      rfl
  | hobj fields ih =>
    intro n rest hn _
    obtain ⟨hnodup, hfields⟩ := h
    have hperm := enumerated_perm fields
    have hreadable : ∀ f ∈ enumerate fields, Readable f.2 := fun f hf =>
      (readableFields_iff _).mp hfields f (hperm.mem_iff.mp hf)
    have hread : ∀ f ∈ enumerate fields, ReadsBack f.2 := fun f hf =>
      ih f (hperm.mem_iff.mp hf) (hreadable f hf)
    have hkeys : ((enumerate fields).map Prod.fst).Nodup := (hperm.map _).nodup_iff.mpr hnodup
    have harranged : arranged (obj fields)
        = obj ((enumerate fields).map fun f => (f.1, arranged f.2)) := by
      show obj (enumerate (arrangedFields fields)) = _
      rw [arrangedFields_eq, enumerate_eq, enumerated_map (fun f => (f.1, arranged f.2))
        (fun _ => rfl)]
      rfl
    rw [chars_obj] at hn ⊢
    rw [harranged]
    obtain ⟨m, rfl⟩ := Nat.exists_eq_succ_of_ne_zero (Nat.ne_zero_of_lt hn)
    cases henum : enumerate fields with
    | nil => rfl
    | cons f fs =>
      rw [henum] at hreadable hread hkeys hn
      have hlen : (commaList ((f :: fs).map memberChars)).length < m := by
        rw [length_cons, length_append, length_singleton] at hn
        omega
      have hmembers := members_chars fs f m [] rest hreadable hread hkeys hlen
      have hhead : ∃ cs, commaList ((f :: fs).map memberChars) ++ '}' :: rest = '"' :: cs := by
        cases fs with
        | nil => exact ⟨_, rfl⟩
        | cons g gs => exact ⟨_, rfl⟩
      obtain ⟨cs, hcs⟩ := hhead
      have htext : '{' :: (commaList ((f :: fs).map memberChars) ++ ['}']) ++ rest
          = '{' :: '"' :: cs := by
        rw [cons_append, append_assoc, ← hcs]
        rfl
      rw [htext]
      show members m ('"' :: cs) [] = _
      rw [← hcs, hmembers]
      rfl

/-! ## Whole texts -/

/-- **What was written reads back**, with the properties in enumeration order. -/
theorem parse_stringify {v : Json} (h : Readable v) : parse (stringify v) = some (arranged v) := by
  obtain ⟨c, cs, hcs, hspace, -⟩ := chars_head h
  unfold parse stringify
  rw [String.toList_ofList, hcs, skipSpace_cons hspace, ← hcs]
  have hvalue := value_chars h (2 * (chars v).length + 2) [] (by omega) (fun _ => nofun)
  rw [append_nil] at hvalue
  simp only [hvalue]
  rfl

/-- **Readable values with the same text are the same**, up to the order of their properties. -/
theorem stringify_inj {v w : Json} (hv : Readable v) (hw : Readable w)
    (h : stringify v = stringify w) : arranged v = arranged w := by
  have hparse := parse_stringify hv
  rw [h, parse_stringify hw] at hparse
  exact (some.inj hparse).symm

end NexusCode.Lib.Json
