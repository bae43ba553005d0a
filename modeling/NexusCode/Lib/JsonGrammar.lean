/-
  What the parser accepts, as derivations.

  `ReadsAs` has one constructor for each production of the grammar, and every successful run of the
  parser is a derivation (`readsAs_of_value`), so facts about accepted texts go by induction on
  derivations.

  **`torn_unreadable`** — no text that was cut off inside an object is accepted, nor is it when the
  text of a further object follows.  A scanner of quotes and brackets (`Scan`) shows it: an accepted
  text ends at depth zero, outside of strings.
-/
import NexusCode.Lib.JsonNumber

namespace NexusCode.Lib.Json

open Lib.JsNumber List Option

/-! ## Derivations -/

/-- What is being read: a value, the members of an object or the items of an array, after those
    that have been read. -/
inductive Mode where
  | value
  | members (acc : List (String × Json))
  | items (acc : List Json)

/-- `Reads mode s v rest`: at the head of `s` stands a text of `v`, and `rest` is left. -/
inductive ReadsAs : Mode → List Char → Json → List Char → Prop where
  | str {t cs rest : List Char} (body : stringBody (t.length + 1) t = some (cs, rest)) :
      ReadsAs .value ('"' :: t) (.str (String.ofList cs)) rest
  | word {w : String} {v : Json} {rest : List Char}
      (known : (w, v) ∈ [("true", bool true), ("false", bool false), ("null", null)]) :
      ReadsAs .value (w.toList ++ rest) v rest
  | number {s rest : List Char} {v : Json} (literal : number s = some (v, rest)) :
      ReadsAs .value s v rest
  | emptyObject {t rest : List Char} (close : skipSpace t = '}' :: rest) :
      ReadsAs .value ('{' :: t) (obj []) rest
  | object {t rest : List Char} {v : Json} (inner : ReadsAs (.members []) (skipSpace t) v rest) :
      ReadsAs .value ('{' :: t) v rest
  | emptyArray {t rest : List Char} (close : skipSpace t = ']' :: rest) :
      ReadsAs .value ('[' :: t) (arr []) rest
  | array {t rest : List Char} {v : Json} (inner : ReadsAs (.items []) (skipSpace t) v rest) :
      ReadsAs .value ('[' :: t) v rest
  | lastMember {acc : List (String × Json)} {t k r₁ r₂ r₃ rest : List Char} {v : Json}
      (key : stringBody (t.length + 1) t = some (k, r₁)) (colon : skipSpace r₁ = ':' :: r₂)
      (value : ReadsAs .value (skipSpace r₂) v r₃) (close : skipSpace r₃ = '}' :: rest) :
      ReadsAs (.members acc) ('"' :: t) (obj (setField (String.ofList k) v acc)) rest
  | member {acc : List (String × Json)} {t k r₁ r₂ r₃ r₄ rest : List Char} {v w : Json}
      (key : stringBody (t.length + 1) t = some (k, r₁)) (colon : skipSpace r₁ = ':' :: r₂)
      (value : ReadsAs .value (skipSpace r₂) v r₃) (comma : skipSpace r₃ = ',' :: r₄)
      (more : ReadsAs (.members (setField (String.ofList k) v acc)) (skipSpace r₄) w rest) :
      ReadsAs (.members acc) ('"' :: t) w rest
  | lastItem {acc : List Json} {s r₁ rest : List Char} {v : Json}
      (value : ReadsAs .value s v r₁) (close : skipSpace r₁ = ']' :: rest) :
      ReadsAs (.items acc) s (arr (acc ++ [v])) rest
  | item {acc : List Json} {s r₁ r₂ rest : List Char} {v w : Json}
      (value : ReadsAs .value s v r₁) (comma : skipSpace r₁ = ',' :: r₂)
      (more : ReadsAs (.items (acc ++ [v])) (skipSpace r₂) w rest) :
      ReadsAs (.items acc) s w rest

variable {v : Json} {s : List Char}

theorem readsAs_of_word {w : String} {r : Json × List Char}
    (known : (w, v) ∈ [("true", bool true), ("false", bool false), ("null", null)])
    (h : Json.word w v s = some r) : ReadsAs .value s r.1 r.2 := by
  unfold Json.word at h
  split at h
  · rename_i hpre
    obtain ⟨rest, hrest⟩ := isPrefixOf_iff_prefix.mp hpre
    obtain rfl := some.inj h
    rw [← hrest, drop_left]
    exact .word known
  · nomatch h

mutual

/-- **Every value that is read has a derivation.** -/
theorem readsAs_of_value : ∀ {n : Nat} {s : List Char} {r : Json × List Char},
    value n s = some r → ReadsAs .value s r.1 r.2
  | 0, _, _, h => nomatch h
  | n + 1, s, r, h => by
    unfold value at h
    split at h
    · split at h
      · rename_i hclose
        obtain rfl := some.inj h
        exact .emptyObject hclose
      · exact .object (readsAs_of_members h)
    · split at h
      · rename_i hclose
        obtain rfl := some.inj h
        exact .emptyArray hclose
      · exact .array (readsAs_of_items h)
    · obtain ⟨⟨cs, rest⟩, hbody, rfl⟩ := map_eq_some_iff.mp h
      exact .str hbody
    · exact readsAs_of_word (by simp) h
    · exact readsAs_of_word (by simp) h
    · exact readsAs_of_word (by simp) h
    · exact .number h

theorem readsAs_of_members : ∀ {n : Nat} {s : List Char} {acc : List (String × Json)}
    {r : Json × List Char}, members n s acc = some r → ReadsAs (.members acc) s r.1 r.2
  | 0, _, _, _, h => nomatch h
  | n + 1, s, acc, r, h => by
    unfold members at h
    split at h
    · obtain ⟨⟨k, r₁⟩, hkey, h⟩ := bind_eq_some_iff.mp h
      dsimp only at h
      split at h
      · rename_i r₂ hcolon
        obtain ⟨⟨v, r₃⟩, hvalue, h⟩ := bind_eq_some_iff.mp h
        dsimp only at h
        split at h
        · rename_i r₄ hcomma
          exact .member hkey hcolon (readsAs_of_value hvalue) hcomma (readsAs_of_members h)
        · rename_i hclose
          obtain rfl := some.inj h
          exact .lastMember hkey hcolon (readsAs_of_value hvalue) hclose
        · nomatch h
      · nomatch h
    · nomatch h

theorem readsAs_of_items : ∀ {n : Nat} {s : List Char} {acc : List Json}
    {r : Json × List Char}, items n s acc = some r → ReadsAs (.items acc) s r.1 r.2
  | 0, _, _, _, h => nomatch h
  | n + 1, s, acc, r, h => by
    unfold items at h
    obtain ⟨⟨v, r₁⟩, hvalue, h⟩ := bind_eq_some_iff.mp h
    dsimp only at h
    split at h
    · rename_i r₂ hcomma
      exact .item (readsAs_of_value hvalue) hcomma (readsAs_of_items h)
    · rename_i hclose
      obtain rfl := some.inj h
      exact .lastItem (readsAs_of_value hvalue) hclose
    · nomatch h

end

theorem readsAs_of_parse {text : String} (h : parse text = some v) :
    ∃ rest, ReadsAs .value (skipSpace text.toList) v rest ∧ skipSpace rest = [] := by
  unfold parse at h
  dsimp only at h
  split at h
  · rename_i w rest hvalue
    split at h
    · rename_i hend
      obtain rfl := some.inj h
      exact ⟨rest, readsAs_of_value hvalue, List.isEmpty_iff.mp hend⟩
    · nomatch h
  · nomatch h

/-! ## Values of the language -/

mutual

/-- The numbers of a value are doubles, or not finite, and no object has a key twice. -/
def IsValue : Json → Prop
  | num (.fin x) => IsDouble x
  | arr items => IsValueItems items
  | obj fields => (fields.map Prod.fst).Nodup ∧ IsValueFields fields
  | _ => True

def IsValueItems : List Json → Prop
  | [] => True
  | v :: rest => IsValue v ∧ IsValueItems rest

def IsValueFields : List (String × Json) → Prop
  | [] => True
  | (_, v) :: rest => IsValue v ∧ IsValueFields rest

end

theorem isValueItems_iff : ∀ items : List Json, IsValueItems items ↔ ∀ v ∈ items, IsValue v
  | [] => ⟨fun _ _ => nofun, fun _ => trivial⟩
  | v :: rest => by rw [IsValueItems, isValueItems_iff rest, forall_mem_cons]

theorem isValueFields_iff : ∀ fields : List (String × Json),
    IsValueFields fields ↔ ∀ f ∈ fields, IsValue f.2
  | [] => ⟨fun _ _ => nofun, fun _ => trivial⟩
  | (k, v) :: rest => by rw [IsValueFields, isValueFields_iff rest, forall_mem_cons]

theorem keys_setField (k : String) (v : Json) : ∀ acc : List (String × Json),
    (setField k v acc).map Prod.fst =
      if k ∈ acc.map Prod.fst then acc.map Prod.fst else acc.map Prod.fst ++ [k]
  | [] => rfl
  | (k', v') :: rest => by
    rw [setField]
    by_cases hk : k' = k
    · rw [if_pos hk, map_cons, map_cons, hk, if_pos mem_cons_self]
    · rw [if_neg hk, map_cons, map_cons, keys_setField k v rest]
      have hmem : k ∈ k' :: rest.map Prod.fst ↔ k ∈ rest.map Prod.fst := by
        rw [mem_cons]
        exact or_iff_right fun h => hk h.symm
      by_cases hin : k ∈ rest.map Prod.fst
      · rw [if_pos hin, if_pos (hmem.mpr hin)]
      · rw [if_neg hin, if_neg fun h => hin (hmem.mp h)]
        rfl

theorem mem_setField {k : String} {f : String × Json} :
    ∀ {acc : List (String × Json)}, f ∈ setField k v acc → f = (k, v) ∨ f ∈ acc
  | [], h => .inl (mem_singleton.mp h)
  | (k', v') :: rest, h => by
    rw [setField] at h
    split at h
    · rcases mem_cons.mp h with rfl | h
      · exact .inl rfl
      · exact .inr (mem_cons_of_mem _ h)
    · rcases mem_cons.mp h with rfl | h
      · exact .inr mem_cons_self
      · exact (mem_setField h).imp_right (mem_cons_of_mem _)

theorem isValue_setField {k : String} {acc : List (String × Json)} (hv : IsValue v)
    (hacc : IsValue (obj acc)) : IsValue (obj (setField k v acc)) := by
  obtain ⟨hnodup, hfields⟩ := hacc
  refine ⟨?_, (isValueFields_iff _).mpr fun f hf => ?_⟩
  · rw [keys_setField]
    split
    · exact hnodup
    · rename_i hnew
      exact nodup_append.mpr ⟨hnodup, nodup_singleton k, fun a ha b hb hab => by
        rw [mem_singleton.mp hb] at hab
        exact hnew (hab ▸ ha)⟩
  · rcases mem_setField hf with rfl | hf
    · exact hv
    · exact (isValueFields_iff _).mp hfields f hf

/-! ## Quotes and brackets -/

/-- Where a scanner of quotes and brackets stands. -/
inductive Scan where
  /-- Outside of strings; `closed` when a string has just ended. -/
  | plain (depth : Nat) (closed : Bool)
  /-- Inside a string. -/
  | string (depth : Nat)
  /-- Behind the backslash of an escape. -/
  | escape (depth : Nat)

/-- One character outside of strings. -/
def Scan.plainStep (d : Nat) (closed : Bool) (c : Char) : Option Scan :=
  if c = '"' then some (.string d)
  else if c = '{' ∨ c = '[' then if closed then none else some (.plain (d + 1) false)
  else if c = '}' ∨ c = ']' then if d = 0 then none else some (.plain (d - 1) false)
  else if closed && isSpace c then some (.plain d true)
  else if closed && c ≠ ',' && c ≠ ':' then none
  else some (.plain d false)

/-- One character; `none` where no value can go on. -/
def Scan.step : Scan → Char → Option Scan
  | .plain d closed, c => Scan.plainStep d closed c
  | .string d, c =>
    some (if c = '"' then .plain d true else if c = '\\' then .escape d else .string d)
  | .escape d, c =>
    if c ∈ ['"', '\\', '/', 'b', 'f', 'n', 'r', 't', 'u'] then some (.string d) else none

/-- A text. -/
def Scan.run (σ : Scan) (s : List Char) : Option Scan := s.foldlM Scan.step σ

/-- The same place, `k` levels deeper. -/
def Scan.deeper (k : Nat) : Scan → Scan
  | .plain d closed => .plain (d + k) closed
  | .string d => .string (d + k)
  | .escape d => .escape (d + k)

namespace Scan

@[simp] theorem run_nil (σ : Scan) : σ.run [] = some σ := rfl

variable {σ τ : Scan} {s : List Char}

theorem run_cons {c : Char} (h : σ.step c = some τ) :
    σ.run (c :: s) = τ.run s := by
  rw [run, foldlM_cons, h]
  rfl

theorem run_append {t : List Char} (h : σ.run s = some τ) :
    σ.run (s ++ t) = τ.run t := by
  rw [run, foldlM_append]
  show (σ.run s).bind _ = _
  rw [h]
  rfl

theorem run_of_append {t : List Char} (h : σ.run (s ++ t) = some τ) :
    ∃ μ, σ.run s = some μ ∧ μ.run t = some τ := by
  rw [run, foldlM_append] at h
  exact bind_eq_some_iff.mp h

theorem plainStep_deeper {d : Nat} {closed : Bool} {c : Char} (k : Nat)
    (h : plainStep d closed c = some τ) : plainStep (d + k) closed c = some (τ.deeper k) := by
  unfold plainStep at h ⊢
  split at h
  · rename_i hquote
    rw [if_pos hquote, ← some.inj h]
    rfl
  rename_i hquote
  rw [if_neg hquote]
  split at h
  · rename_i hopen
    rw [if_pos hopen]
    split at h
    · nomatch h
    · rename_i hclosed
      rw [if_neg hclosed, ← some.inj h, Nat.add_right_comm]
      rfl
  rename_i hopen
  rw [if_neg hopen]
  split at h
  · rename_i hclose
    rw [if_pos hclose]
    split at h
    · nomatch h
    · rename_i hzero
      rw [if_neg (by omega), ← some.inj h, show d + k - 1 = d - 1 + k by omega]
      rfl
  rename_i hclose
  rw [if_neg hclose]
  split at h
  · rename_i hspace
    rw [if_pos hspace, ← some.inj h]
    rfl
  rename_i hspace
  rw [if_neg hspace]
  split at h
  · nomatch h
  · rename_i hnext
    rw [if_neg hnext, ← some.inj h]
    rfl

theorem step_deeper {c : Char} (k : Nat) (h : σ.step c = some τ) :
    (σ.deeper k).step c = some (τ.deeper k) := by
  cases σ with
  | plain d closed => exact plainStep_deeper k h
  | string d =>
    rw [← some.inj h]
    show some (if c = '"' then _ else if c = '\\' then _ else _) = _
    split
    · rfl
    · split <;> rfl
  | escape d =>
    have hescape : (if c ∈ ['"', '\\', '/', 'b', 'f', 'n', 'r', 't', 'u'] then some (string d)
      else none) = some τ := h
    split at hescape
    · rename_i hknown
      rw [← some.inj hescape]
      exact if_pos hknown
    · nomatch hescape

theorem run_deeper (k : Nat) (h : σ.run s = some τ) :
    (σ.deeper k).run s = some (τ.deeper k) := by
  induction s generalizing σ with
  | nil =>
    rw [← some.inj h]
    rfl
  | cons c s ih =>
    obtain ⟨μ, hstep, hrun⟩ := bind_eq_some_iff.mp h
    rw [run_cons (step_deeper k hstep)]
    exact ih hrun

theorem run_spaces {d : Nat} {closed : Bool} (h : ∀ c ∈ s, isSpace c = true) :
    (Scan.plain d closed).run s = some (.plain d closed) := by
  induction s with
  | nil => rfl
  | cons c s ih =>
    obtain ⟨hc, hs⟩ := forall_mem_cons.mp h
    have hstep : (Scan.plain d closed).step c = some (.plain d closed) := by
      unfold isSpace at hc
      simp only [Bool.or_eq_true, beq_iff_eq] at hc
      rcases hc with ((rfl | rfl) | rfl) | rfl <;> cases closed <;> rfl
    rw [run_cons hstep, ih hs]

/-- The characters of numbers. -/
def isNumeric (c : Char) : Bool := c.isDigit || c ∈ ['.', 'e', 'E', '+', '-']

theorem run_numeric {d : Nat} (h : ∀ c ∈ s, isNumeric c = true) :
    (Scan.plain d false).run s = some (.plain d false) := by
  induction s with
  | nil => rfl
  | cons c s ih =>
    obtain ⟨hc, hs⟩ := forall_mem_cons.mp h
    have hstep : (Scan.plain d false).step c = some (.plain d false) := by
      show plainStep d false c = _
      unfold plainStep
      rw [if_neg, if_neg, if_neg]
      · rfl
      · rintro (rfl | rfl) <;> nomatch hc
      · rintro (rfl | rfl) <;> nomatch hc
      · rintro rfl
        nomatch hc
    rw [run_cons hstep, ih hs]

end Scan

theorem skipSpace_split (s : List Char) :
    ∃ spaces, s = spaces ++ skipSpace s ∧ ∀ c ∈ spaces, isSpace c = true :=
  ⟨s.takeWhile isSpace, (takeWhile_append_dropWhile).symm, fun _ h => mem_takeWhile_imp h⟩

variable {rest : List Char}

theorem split_of_skipSpace {c : Char} (h : skipSpace s = c :: rest) :
    ∃ spaces, s = spaces ++ c :: rest ∧ ∀ x ∈ spaces, isSpace x = true := by
  obtain ⟨spaces, hs, hspaces⟩ := skipSpace_split s
  exact ⟨spaces, by rw [← h]; exact hs, hspaces⟩

theorem run_unit {d : Nat} {t : List Char} {u : Nat} (h : unit? t = some (u, rest)) :
    ∃ used, t = used ++ rest ∧ (Scan.string d).run used = some (.string d) := by
  have hhex : ∀ {c : Char} {n : Nat}, hexDigit? c = some n →
      (Scan.string d).step c = some (.string d) := by
    intro c n hc
    have hquote : c ≠ '"' := by
      rintro rfl
      nomatch hc
    have hslash : c ≠ '\\' := by
      rintro rfl
      nomatch hc
    show some (if c = '"' then _ else if c = '\\' then _ else _) = _
    rw [if_neg hquote, if_neg hslash]
  unfold unit? at h
  split at h
  · rename_i a b c e rest'
    obtain ⟨na, ha, h⟩ := bind_eq_some_iff.mp h
    obtain ⟨nb, hb, h⟩ := bind_eq_some_iff.mp h
    obtain ⟨nc, hc, h⟩ := bind_eq_some_iff.mp h
    obtain ⟨ne, he, h⟩ := bind_eq_some_iff.mp h
    obtain ⟨-, rfl⟩ := Prod.mk.inj (some.inj h)
    refine ⟨[a, b, c, e], rfl, ?_⟩
    rw [Scan.run_cons (hhex ha), Scan.run_cons (hhex hb), Scan.run_cons (hhex hc),
      Scan.run_cons (hhex he)]
    rfl
  · nomatch h

/-- The low half behind the high half `u` of a surrogate pair. -/
def lowSurrogate (u : Nat) (rest : List Char) : Option (Nat × List Char) :=
  if 0xD800 ≤ u ∧ u < 0xDC00 then
    match rest with
    | '\\' :: 'u' :: rest' =>
      match unit? rest' with
      | some (v, rest'') =>
        if 0xDC00 ≤ v ∧ v < 0xE000 then
          some (0x10000 + (u - 0xD800) * 0x400 + (v - 0xDC00), rest'')
        else none
      | none => none
    | _ => none
  else none

theorem run_lowSurrogate {d u : Nat} {t : List Char} {r : Nat × List Char}
    (h : lowSurrogate u t = some r) :
    ∃ used, t = used ++ r.2 ∧ (Scan.string d).run used = some (.string d) := by
  unfold lowSurrogate at h
  split at h
  · split at h
    · split at h
      · rename_i t' v t'' hunit
        split at h
        · obtain rfl := some.inj h
          obtain ⟨used, rfl, hrun⟩ := run_unit (d := d) hunit
          refine ⟨'\\' :: 'u' :: used, rfl, ?_⟩
          rw [Scan.run_cons (τ := .escape d) rfl, Scan.run_cons (τ := .string d) rfl, hrun]
        · nomatch h
      · nomatch h
    · nomatch h
  · nomatch h

theorem run_stringBody {d : Nat} : ∀ {n : Nat} {t cs rest : List Char},
    stringBody n t = some (cs, rest) →
      ∃ used, t = used ++ '"' :: rest ∧ (Scan.string d).run used = some (.string d)
  | 0, _, _, _, h => nomatch h
  | n + 1, t, cs, rest, h => by
    unfold stringBody at h
    split at h
    · nomatch h
    · obtain ⟨-, rfl⟩ := Prod.mk.inj (some.inj h)
      exact ⟨[], rfl, rfl⟩
    · rename_i e t'
      dsimp only at h
      have hslash : (Scan.string d).step '\\' = some (.escape d) := rfl
      have hsimple : ∀ {x : Char}, (Scan.escape d).step e = some (.string d) →
          (stringBody n t').map (fun r => (x :: r.1, r.2)) = some (cs, rest) →
          ∃ used, '\\' :: e :: t' = used ++ '"' :: rest ∧
            (Scan.string d).run used = some (.string d) := by
        intro x hescape hmap
        obtain ⟨⟨cs', rest'⟩, hbody, heq⟩ := map_eq_some_iff.mp hmap
        obtain ⟨-, rfl⟩ := Prod.mk.inj heq
        obtain ⟨used, rfl, hrun⟩ := run_stringBody (d := d) hbody
        refine ⟨'\\' :: e :: used, rfl, ?_⟩
        rw [Scan.run_cons hslash, Scan.run_cons hescape, hrun]
      split at h
      · exact hsimple rfl h
      · exact hsimple rfl h
      · exact hsimple rfl h
      · exact hsimple rfl h
      · exact hsimple rfl h
      · exact hsimple rfl h
      · exact hsimple rfl h
      · exact hsimple rfl h
      · -- a code unit, or a pair of them
        obtain ⟨⟨u, r₁⟩, hunit, h⟩ := bind_eq_some_iff.mp h
        obtain ⟨⟨cs', rest'⟩, hbody, heq⟩ := bind_eq_some_iff.mp h
        obtain ⟨-, rfl⟩ := Prod.mk.inj (some.inj heq)
        change stringBody n ((lowSurrogate u r₁).getD (u, r₁)).2 = _ at hbody
        obtain ⟨used₁, rfl, hrun₁⟩ := run_unit (d := d) hunit
        obtain ⟨used₂, hused₂, hrun₂⟩ : ∃ used, r₁ = used ++ ((lowSurrogate u r₁).getD (u, r₁)).2 ∧
            (Scan.string d).run used = some (.string d) := by
          cases hlow : lowSurrogate u r₁ with
          | none => exact ⟨[], rfl, rfl⟩
          | some r => exact run_lowSurrogate hlow
        obtain ⟨used₃, hused₃, hrun₃⟩ := run_stringBody (d := d) hbody
        refine ⟨'\\' :: 'u' :: (used₁ ++ (used₂ ++ used₃)), ?_, ?_⟩
        · rw [cons_append, cons_append, append_assoc, append_assoc, ← hused₃,
            ← hused₂]
        · rw [Scan.run_cons hslash, Scan.run_cons (τ := .string d) rfl, Scan.run_append hrun₁,
            Scan.run_append hrun₂, hrun₃]
      · nomatch h
    · rename_i c t' hquote _
      split at h
      · nomatch h
      · rename_i hplain
        obtain ⟨⟨cs', rest'⟩, hbody, heq⟩ := map_eq_some_iff.mp h
        obtain ⟨-, rfl⟩ := Prod.mk.inj heq
        obtain ⟨used, rfl, hrun⟩ := run_stringBody (d := d) hbody
        have hstep : (Scan.string d).step c = some (.string d) := by
          show some (if c = '"' then _ else if c = '\\' then _ else _) = _
          rw [if_neg hquote, if_neg fun hc => hplain (Or.inl hc)]
        refine ⟨c :: used, rfl, ?_⟩
        rw [Scan.run_cons hstep, hrun]

theorem numeric_number (h : number s = some (v, rest)) :
    ∃ used, s = used ++ rest ∧ ∀ c ∈ used, Scan.isNumeric c = true := by
  have hdigits : ∀ t : List Char, ∀ c ∈ t.takeWhile Char.isDigit, Scan.isNumeric c = true :=
    fun t c hc => by rw [Scan.isNumeric, mem_takeWhile_imp hc, Bool.true_or]
  have hsplit : ∀ t : List Char, t = t.takeWhile Char.isDigit ++ t.dropWhile Char.isDigit :=
    fun t => takeWhile_append_dropWhile.symm
  have hexpPart : ∀ {t rest : List Char} {e : Int}, exponentPart t = some (e, rest) →
      ∃ used, t = used ++ rest ∧ ∀ c ∈ used, Scan.isNumeric c = true := by
    intro t rest e h
    have hsigned : ∀ {neg : Bool} {t : List Char}, (if (t.takeWhile Char.isDigit).isEmpty then none
        else some ((if neg then -(decimal (t.takeWhile Char.isDigit) : Int)
          else decimal (t.takeWhile Char.isDigit)), t.dropWhile Char.isDigit)) = some (e, rest) →
        ∃ used, t = used ++ rest ∧ ∀ c ∈ used, Scan.isNumeric c = true := by
      intro neg t h
      split at h
      · nomatch h
      · obtain ⟨-, rfl⟩ := Prod.mk.inj (some.inj h)
        exact ⟨_, hsplit t, hdigits t⟩
    unfold exponentPart at h
    dsimp only at h
    split at h
    · rename_i t
      obtain ⟨used, rfl, hused⟩ := hsigned h
      exact ⟨'+' :: used, rfl, forall_mem_cons.mpr ⟨rfl, hused⟩⟩
    · rename_i t
      obtain ⟨used, rfl, hused⟩ := hsigned h
      exact ⟨'-' :: used, rfl, forall_mem_cons.mpr ⟨rfl, hused⟩⟩
    · exact hsigned h
  have hexponent : ∀ {t rest : List Char} {e : Int}, exponentOf t = some (e, rest) →
      ∃ used, t = used ++ rest ∧ ∀ c ∈ used, Scan.isNumeric c = true := by
    intro t rest e h
    unfold exponentOf at h
    split at h
    · obtain ⟨used, rfl, hused⟩ := hexpPart h
      exact ⟨'e' :: used, rfl, forall_mem_cons.mpr ⟨rfl, hused⟩⟩
    · obtain ⟨used, rfl, hused⟩ := hexpPart h
      exact ⟨'E' :: used, rfl, forall_mem_cons.mpr ⟨rfl, hused⟩⟩
    · obtain ⟨-, rfl⟩ := Prod.mk.inj (some.inj h)
      exact ⟨[], rfl, fun _ => nofun⟩
  have hfraction : ∀ {t rest fp : List Char}, fractionOf t = some (fp, rest) →
      ∃ used, t = used ++ rest ∧ ∀ c ∈ used, Scan.isNumeric c = true := by
    intro t rest fp h
    unfold fractionOf at h
    split at h
    · rename_i t
      dsimp only at h
      split at h
      · nomatch h
      · obtain ⟨-, rfl⟩ := Prod.mk.inj (some.inj h)
        refine ⟨'.' :: t.takeWhile Char.isDigit, ?_, forall_mem_cons.mpr ⟨rfl, hdigits t⟩⟩
        rw [cons_append, ← hsplit]
    · obtain ⟨-, rfl⟩ := Prod.mk.inj (some.inj h)
      exact ⟨[], rfl, fun _ => nofun⟩
  have hunsigned : ∀ {t rest : List Char} {q : ℚ}, unsigned t = some (q, rest) →
      ∃ used, t = used ++ rest ∧ ∀ c ∈ used, Scan.isNumeric c = true := by
    intro t rest q h
    rw [unsigned_eq] at h
    split at h
    · nomatch h
    · obtain ⟨⟨fp, r₁⟩, hfp, h⟩ := bind_eq_some_iff.mp h
      obtain ⟨⟨e, r₂⟩, he, h⟩ := bind_eq_some_iff.mp h
      obtain ⟨-, rfl⟩ := Prod.mk.inj (some.inj h)
      dsimp only at he ⊢
      obtain ⟨used₁, hused₁, hnum₁⟩ := hfraction hfp
      obtain ⟨used₂, hused₂, hnum₂⟩ := hexponent he
      refine ⟨t.takeWhile Char.isDigit ++ (used₁ ++ used₂), ?_, fun c hc => ?_⟩
      · conv_lhs => rw [hsplit t, hused₁, hused₂]
        simp only [append_assoc]
      · rcases mem_append.mp hc with hc | hc
        · exact hdigits t c hc
        · exact (mem_append.mp hc).elim (hnum₁ c) (hnum₂ c)
  unfold number at h
  split at h
  · obtain ⟨⟨q, r⟩, hr, heq⟩ := map_eq_some_iff.mp h
    obtain ⟨-, rfl⟩ := Prod.mk.inj heq
    obtain ⟨used, rfl, hused⟩ := hunsigned hr
    exact ⟨'-' :: used, rfl, forall_mem_cons.mpr ⟨rfl, hused⟩⟩
  · obtain ⟨⟨q, r⟩, hr, heq⟩ := map_eq_some_iff.mp h
    obtain ⟨-, rfl⟩ := Prod.mk.inj heq
    exact hunsigned hr

/-- What a derivation reads, as the scanner sees it: a value leaves it where it was, and the
    members or items of one do so up to their closing bracket. -/
def Mode.Scans : Mode → List Char → List Char → Prop
  | .value, s, rest => ∃ used closed, s = used ++ rest ∧
      (Scan.plain 0 false).run used = some (.plain 0 closed)
  | .members _, s, rest => ∃ inner closed, s = inner ++ '}' :: rest ∧
      (Scan.plain 0 false).run inner = some (.plain 0 closed)
  | .items _, s, rest => ∃ inner closed, s = inner ++ ']' :: rest ∧
      (Scan.plain 0 false).run inner = some (.plain 0 closed)

theorem run_bracketed {inner spaces : List Char} {opened close : Char} {closed : Bool}
    (hopened : opened = '{' ∨ opened = '[') (hclose : close = '}' ∨ close = ']')
    (hspaces : ∀ c ∈ spaces, isSpace c = true)
    (hinner : (Scan.plain 0 false).run inner = some (.plain 0 closed)) :
    (Scan.plain 0 false).run (opened :: (spaces ++ inner ++ [close])) = some (.plain 0 false) := by
  have hopen : (Scan.plain 0 false).step opened = some (.plain 1 false) := by
    rcases hopened with rfl | rfl <;> rfl
  have hend : (Scan.plain 1 closed).step close = some (.plain 0 false) := by
    rcases hclose with rfl | rfl <;> rfl
  have hdeeper : (Scan.plain 1 false).run inner = some (.plain 1 closed) :=
    Scan.run_deeper (σ := .plain 0 false) 1 hinner
  rw [Scan.run_cons hopen, append_assoc, Scan.run_append (Scan.run_spaces hspaces),
    Scan.run_append hdeeper, Scan.run_cons hend]
  rfl

theorem run_member {key spaces₁ spaces₂ used : List Char} {closed : Bool}
    (hkey : (Scan.string 0).run key = some (.string 0))
    (hspaces₁ : ∀ c ∈ spaces₁, isSpace c = true) (hspaces₂ : ∀ c ∈ spaces₂, isSpace c = true)
    (hused : (Scan.plain 0 false).run used = some (.plain 0 closed)) :
    (Scan.plain 0 false).run ('"' :: (key ++ '"' :: (spaces₁ ++ ':' :: (spaces₂ ++ used))))
      = some (.plain 0 closed) := by
  rw [Scan.run_cons (τ := .string 0) rfl, Scan.run_append hkey,
    Scan.run_cons (τ := .plain 0 true) rfl, Scan.run_append (Scan.run_spaces hspaces₁),
    Scan.run_cons (τ := .plain 0 false) rfl, Scan.run_append (Scan.run_spaces hspaces₂), hused]

/-- **A derivation, as the scanner sees it.** -/
theorem scans_of_readsAs {m : Mode} (h : ReadsAs m s v rest) :
    m.Scans s rest := by
  induction h with
  | str body =>
    obtain ⟨used, rfl, hrun⟩ := run_stringBody (d := 0) body
    refine ⟨'"' :: (used ++ ['"']), true, by simp, ?_⟩
    rw [Scan.run_cons (τ := .string 0) rfl, Scan.run_append hrun]
    rfl
  | word known =>
    simp only [mem_cons, Prod.mk.injEq, not_mem_nil, or_false] at known
    rcases known with ⟨rfl, -⟩ | ⟨rfl, -⟩ | ⟨rfl, -⟩
    · exact ⟨_, false, rfl, rfl⟩
    · exact ⟨_, false, rfl, rfl⟩
    · exact ⟨_, false, rfl, rfl⟩
  | number literal =>
    obtain ⟨used, rfl, hused⟩ := numeric_number literal
    exact ⟨used, false, rfl, Scan.run_numeric hused⟩
  | emptyObject close =>
    obtain ⟨spaces, rfl, hspaces⟩ := split_of_skipSpace close
    refine ⟨'{' :: (spaces ++ [] ++ ['}']), false, by simp, ?_⟩
    exact run_bracketed (Or.inl rfl) (Or.inl rfl) hspaces rfl
  | @object t rest v _ ih =>
    obtain ⟨inner, closed, hinner, hrun⟩ := ih
    obtain ⟨spaces, ht, hspaces⟩ := skipSpace_split t
    refine ⟨'{' :: (spaces ++ inner ++ ['}']), false, ?_,
      run_bracketed (Or.inl rfl) (Or.inl rfl) hspaces hrun⟩
    rw [ht, hinner]
    simp
  | emptyArray close =>
    obtain ⟨spaces, rfl, hspaces⟩ := split_of_skipSpace close
    refine ⟨'[' :: (spaces ++ [] ++ [']']), false, by simp, ?_⟩
    exact run_bracketed (Or.inr rfl) (Or.inr rfl) hspaces rfl
  | @array t rest v _ ih =>
    obtain ⟨inner, closed, hinner, hrun⟩ := ih
    obtain ⟨spaces, ht, hspaces⟩ := skipSpace_split t
    refine ⟨'[' :: (spaces ++ inner ++ [']']), false, ?_,
      run_bracketed (Or.inr rfl) (Or.inr rfl) hspaces hrun⟩
    rw [ht, hinner]
    simp
  | @lastMember acc t k r₁ r₂ r₃ rest v key colon _ close ih =>
    obtain ⟨used, closed, hused, hrun⟩ := ih
    obtain ⟨name, rfl, hname⟩ := run_stringBody (d := 0) key
    obtain ⟨spaces₁, rfl, hspaces₁⟩ := split_of_skipSpace colon
    obtain ⟨spaces₂, hr₂, hspaces₂⟩ := skipSpace_split r₂
    obtain ⟨spaces₃, rfl, hspaces₃⟩ := split_of_skipSpace close
    refine ⟨('"' :: (name ++ '"' :: (spaces₁ ++ ':' :: (spaces₂ ++ used)))) ++ spaces₃, closed,
      ?_, ?_⟩
    · rw [hr₂, hused]
      simp
    · rw [Scan.run_append (run_member hname hspaces₁ hspaces₂ hrun), Scan.run_spaces hspaces₃]
  | @member acc t k r₁ r₂ r₃ r₄ rest v w key colon _ comma _ ih ihmore =>
    obtain ⟨used, closed, hused, hrun⟩ := ih
    obtain ⟨inner, closed', hinner, hmore⟩ := ihmore
    obtain ⟨name, rfl, hname⟩ := run_stringBody (d := 0) key
    obtain ⟨spaces₁, rfl, hspaces₁⟩ := split_of_skipSpace colon
    obtain ⟨spaces₂, hr₂, hspaces₂⟩ := skipSpace_split r₂
    obtain ⟨spaces₃, rfl, hspaces₃⟩ := split_of_skipSpace comma
    obtain ⟨spaces₄, hr₄, hspaces₄⟩ := skipSpace_split r₄
    have hcomma : (Scan.plain 0 closed).step ',' = some (.plain 0 false) := by cases closed <;> rfl
    refine ⟨('"' :: (name ++ '"' :: (spaces₁ ++ ':' :: (spaces₂ ++ used)))) ++
      (spaces₃ ++ ',' :: (spaces₄ ++ inner)), closed', ?_, ?_⟩
    · rw [hr₂, hused, hr₄, hinner]
      simp
    · rw [Scan.run_append (run_member hname hspaces₁ hspaces₂ hrun),
        Scan.run_append (Scan.run_spaces hspaces₃), Scan.run_cons hcomma,
        Scan.run_append (Scan.run_spaces hspaces₄), hmore]
  | lastItem _ close ih =>
    obtain ⟨used, closed, rfl, hrun⟩ := ih
    obtain ⟨spaces, rfl, hspaces⟩ := split_of_skipSpace close
    refine ⟨used ++ spaces, closed, by simp, ?_⟩
    rw [Scan.run_append hrun, Scan.run_spaces hspaces]
  | @item acc s r₁ r₂ rest v w _ comma _ ih ihmore =>
    obtain ⟨used, closed, rfl, hrun⟩ := ih
    obtain ⟨inner, closed', hinner, hmore⟩ := ihmore
    obtain ⟨spaces, rfl, hspaces⟩ := split_of_skipSpace comma
    obtain ⟨spaces₂, hr₂, hspaces₂⟩ := skipSpace_split r₂
    have hcomma : (Scan.plain 0 closed).step ',' = some (.plain 0 false) := by cases closed <;> rfl
    refine ⟨used ++ (spaces ++ ',' :: (spaces₂ ++ inner)), closed', ?_, ?_⟩
    · rw [hr₂, hinner]
      simp
    · rw [Scan.run_append hrun, Scan.run_append (Scan.run_spaces hspaces), Scan.run_cons hcomma,
        Scan.run_append (Scan.run_spaces hspaces₂), hmore]

theorem object_scans {t : List Char} (h : ReadsAs .value ('{' :: t) v rest) :
    ∃ inner closed, t = inner ++ '}' :: rest ∧
      (Scan.plain 0 false).run inner = some (.plain 0 closed) := by
  generalize hs : '{' :: t = s at h
  cases h with
  | str => nomatch hs
  | word known =>
    simp only [mem_cons, Prod.mk.injEq, not_mem_nil, or_false] at known
    rcases known with ⟨rfl, -⟩ | ⟨rfl, -⟩ | ⟨rfl, -⟩ <;> nomatch hs
  | number literal =>
    obtain ⟨c, cs, rfl, hc⟩ := number_head literal
    rw [← (cons.inj hs).1] at hc
    rcases hc with hc | hc <;> nomatch hc
  | emptyObject close =>
    obtain ⟨spaces, rfl, hspaces⟩ := split_of_skipSpace close
    exact ⟨spaces, false, (cons.inj hs).2, Scan.run_spaces hspaces⟩
  | @object t' _ _ inner =>
    obtain ⟨body, closed, hbody, hrun⟩ := scans_of_readsAs inner
    obtain ⟨spaces, ht, hspaces⟩ := skipSpace_split t'
    refine ⟨spaces ++ body, closed, ?_, ?_⟩
    · rw [(cons.inj hs).2, ht, hbody, append_assoc]
    · rw [Scan.run_append (Scan.run_spaces hspaces), hrun]
  | emptyArray => nomatch hs
  | array => nomatch hs

/-! ## Torn texts -/

theorem run_of_parse {text : List Char} (h : parse (String.ofList text) = some v) :
    ∃ closed, (Scan.plain 0 false).run text = some (.plain 0 closed) := by
  obtain ⟨rest, hreads, hend⟩ := readsAs_of_parse h
  rw [String.toList_ofList] at hreads
  obtain ⟨used, closed, hused, hrun⟩ := scans_of_readsAs hreads
  obtain ⟨spaces, htext, hspaces⟩ := skipSpace_split text
  obtain ⟨spaces', hrest, hspaces'⟩ := skipSpace_split rest
  rw [hend, append_nil] at hrest
  refine ⟨closed, ?_⟩
  rw [htext, hused, Scan.run_append (Scan.run_spaces hspaces), Scan.run_append hrun, hrest,
    Scan.run_spaces hspaces']

theorem run_torn {torn lost : List Char} (h : ReadsAs .value (torn ++ lost) v [])
    (hobject : torn.head? = some '{') (hlost : lost ≠ []) :
    ∃ σ : Scan, (Scan.plain 0 false).run torn = some (σ.deeper 1) := by
  obtain ⟨t, rfl⟩ : ∃ t, torn = '{' :: t := by
    cases torn with
    | nil => nomatch hobject
    | cons c t => exact ⟨t, by rw [some.inj hobject]⟩
  obtain ⟨inner, closed, hinner, hrun⟩ := object_scans h
  change t ++ lost = inner ++ ['}'] at hinner
  obtain ⟨spared, hspared⟩ : ∃ spared, inner = t ++ spared := by
    have hpre : t <+: inner := by
      refine prefix_of_prefix_length_le (prefix_append t lost)
        (by rw [hinner]; exact prefix_append inner _) ?_
      have hlen := congrArg List.length hinner
      rw [length_append, length_append, length_singleton] at hlen
      have := length_pos_iff.mpr hlost
      omega
    obtain ⟨spared, hspared⟩ := hpre
    exact ⟨spared, hspared.symm⟩
  rw [hspared] at hrun
  obtain ⟨σ, hσ, -⟩ := Scan.run_of_append hrun
  refine ⟨σ, ?_⟩
  rw [Scan.run_cons (τ := .plain 1 false) rfl]
  exact Scan.run_deeper (σ := .plain 0 false) 1 hσ

/-- **A text that is cut off inside an object is not accepted.** -/
theorem torn_unreadable {torn lost : List Char} (h : ReadsAs .value (torn ++ lost) v [])
    (hobject : torn.head? = some '{') (hlost : lost ≠ []) : parse (String.ofList torn) = none := by
  obtain ⟨σ, hrun⟩ := run_torn h hobject hlost
  cases hparse : parse (String.ofList torn) with
  | none => rfl
  | some w =>
    obtain ⟨closed, hend⟩ := run_of_parse hparse
    rw [hrun] at hend
    cases σ <;> nomatch hend

/-- **Nor is it accepted when a further object is written behind it**, whose first key starts with
    a letter. -/
theorem torn_followed_unreadable {torn lost next : List Char} {w : Json}
    (h : ReadsAs .value (torn ++ lost) v []) (hobject : torn.head? = some '{') (hlost : lost ≠ [])
    (hnext : ReadsAs .value ('{' :: '"' :: 'v' :: next) w []) :
    parse (String.ofList (torn ++ '{' :: '"' :: 'v' :: next)) = none := by
  obtain ⟨σ, hrun⟩ := run_torn h hobject hlost
  cases hparse : parse (String.ofList (torn ++ '{' :: '"' :: 'v' :: next)) with
  | none => rfl
  | some x =>
    obtain ⟨closed, hend⟩ := run_of_parse hparse
    rw [Scan.run_append hrun] at hend
    cases σ with
    | plain d closed' =>
      cases closed' with
      | true => nomatch hend
      | false =>
        obtain ⟨used, closed'', hused, hwhole⟩ := scans_of_readsAs hnext
        rw [append_nil] at hused
        have hdeeper := Scan.run_deeper (σ := .plain 0 false) (d + 1) hwhole
        rw [← hused] at hdeeper
        simp only [Scan.deeper, Nat.zero_add] at hdeeper hend
        rw [hdeeper] at hend
        nomatch hend
    | string d => nomatch hend
    | escape d => nomatch hend

end NexusCode.Lib.Json
