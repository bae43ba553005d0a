/-
  Comparators with numbers that may be infinite, and what the stable sort makes of them.

  * `JsNumber.sub`, `JsNumber.toOrder` — the difference of two numbers, and what `sort` reads of it;
  * `byKey`                — the comparison by a key, then by another comparator; it is lawful
                             (`lawful_byKey`) although the difference of two infinite keys is `NaN`;
  * `pairwise_sortBy_stable` — the stable sort keeps the order of the list where the comparator
                             ties;
  * `Conforms`             — what is promised of `sort`, whatever the engine: nothing but a
                             permutation where the comparator is not `Consistent`.
-/
import NexusCode.Lib.JsNumber
import NexusCode.Lib.Stable

namespace NexusCode.Lib

open List

/-! ## Differences -/

namespace JsNumber

variable {a b c : JsNumber}

/-- `a + b`, without rounding. -/
def add : JsNumber → JsNumber → JsNumber
  | .fin a, .fin b => .fin (a + b)
  | .fin _, .inf negative => .inf negative
  | .inf negative, .fin _ => .inf negative
  | .inf a, .inf b => if a = b then .inf a else .nan
  | _, _ => .nan

/-- `q * x`, without rounding. -/
def scaleBy (q : Rat) : JsNumber → JsNumber
  | .fin x => .fin (q * x)
  | .inf negative => if q = 0 then .nan else .inf (negative != decide (q < 0))
  | .nan => .nan

/-- `a - b`, without rounding. -/
def sub : JsNumber → JsNumber → JsNumber
  | .fin a, .fin b => .fin (a - b)
  | .fin _, .inf negative => .inf !negative
  | .inf negative, .fin _ => .inf negative
  | .inf a, .inf b => if a = b then .nan else .inf a
  | _, _ => .nan

/-- What `sort` reads of a comparator's answer: the sign, with `NaN` as zero. -/
def toOrder : JsNumber → Rat
  | .fin q => q
  | .inf negative => if negative then -1 else 1
  | .nan => 0

theorem trichotomy (ha : a ≠ .nan) (hb : b ≠ .nan) :
    lt a b = true ∨ a = b ∨ lt b a = true := by
  cases a with
  | nan => exact absurd rfl ha
  | fin x =>
    cases b with
    | nan => exact absurd rfl hb
    | fin y =>
      rcases lt_trichotomy x y with h | h | h
      · exact .inl (decide_eq_true h)
      · exact .inr (.inl (congrArg fin h))
      · exact .inr (.inr (decide_eq_true h))
    | inf negative =>
      cases negative
      · exact .inl rfl
      · exact .inr (.inr rfl)
  | inf negative =>
    cases b with
    | nan => exact absurd rfl hb
    | fin y =>
      cases negative
      · exact .inr (.inr rfl)
      · exact .inl rfl
    | inf negative' =>
      cases negative <;> cases negative'
      · exact .inr (.inl rfl)
      · exact .inr (.inr rfl)
      · exact .inl rfl
      · exact .inr (.inl rfl)

theorem lt_self (a : JsNumber) : lt a a = false := by
  cases a with
  | fin x => exact decide_eq_false (lt_irrefl x)
  | inf negative => cases negative <;> rfl
  | nan => rfl

theorem lt_chain (hab : lt a b = true) (hbc : lt b c = true) : lt a c = true := by
  cases a with
  | nan => cases b <;> cases hab
  | fin x =>
    cases b with
    | nan => cases hab
    | fin y =>
      cases c with
      | nan => cases hbc
      | fin z => exact decide_eq_true ((of_decide_eq_true hab).trans (of_decide_eq_true hbc))
      | inf negative => exact hbc
    | inf negative =>
      cases negative with
      | true => cases hab
      | false =>
        cases c with
        | nan => cases hbc
        | fin z => cases hbc
        | inf negative => cases hbc
  | inf negative =>
    cases negative with
    | false => cases b <;> cases hab
    | true =>
      cases c with
      | nan => cases b <;> cases hbc
      | fin z => rfl
      | inf negative =>
        cases negative with
        | false => rfl
        | true =>
          rw [lt.eq_def] at hbc
          cases b with
          | fin y => cases hbc
          | inf negative => exact absurd hbc (by cases negative <;> decide)
          | nan => cases hbc

theorem not_lt_of_lt (hab : lt a b = true) : lt b a = false := by
  rw [← Bool.not_eq_true]
  intro hba
  have hself := lt_chain hab hba
  rw [lt_self] at hself
  cases hself

theorem toOrder_sub_nonpos_iff (ha : a ≠ .nan) (hb : b ≠ .nan) :
    toOrder (sub a b) ≤ 0 ↔ lt a b = true ∨ a = b := by
  cases a with
  | nan => exact absurd rfl ha
  | fin x =>
    cases b with
    | nan => exact absurd rfl hb
    | fin y =>
      rw [show toOrder (sub (fin x) (fin y)) = x - y from rfl, sub_nonpos, le_iff_lt_or_eq, fin.injEq]
      exact or_congr_left decide_eq_true_iff.symm
    | inf negative => cases negative <;> simp [sub, toOrder, lt]
  | inf negative =>
    cases b with
    | nan => exact absurd rfl hb
    | fin y => cases negative <;> simp [sub, toOrder, lt]
    | inf negative' => cases negative <;> cases negative' <;> simp [sub, toOrder, lt]

theorem toOrder_sub_neg_iff (ha : a ≠ .nan) (hb : b ≠ .nan) :
    toOrder (sub a b) < 0 ↔ lt a b = true := by
  cases a with
  | nan => exact absurd rfl ha
  | fin x =>
    cases b with
    | nan => exact absurd rfl hb
    | fin y => exact sub_neg.trans decide_eq_true_iff.symm
    | inf negative => cases negative <;> simp [sub, toOrder, lt]
  | inf negative =>
    cases b with
    | nan => exact absurd rfl hb
    | fin y => cases negative <;> simp [sub, toOrder, lt]
    | inf negative' => cases negative <;> cases negative' <;> simp [sub, toOrder, lt]

theorem toOrder_sub_swap (a b : JsNumber) : toOrder (sub b a) = -toOrder (sub a b) := by
  cases a with
  | nan => cases b <;> rfl
  | fin x =>
    cases b with
    | nan => rfl
    | fin y => exact (neg_sub x y).symm
    | inf negative => cases negative <;> simp [sub, toOrder]
  | inf negative =>
    cases b with
    | nan => rfl
    | fin y => cases negative <;> simp [sub, toOrder]
    | inf negative' => cases negative <;> cases negative' <;> simp [sub, toOrder]

theorem sub_eq_zero_iff : sub a b = 0 ↔ ∃ q, a = .fin q ∧ b = .fin q := by
  constructor
  · intro h
    match a, b, h with
    | .fin x, .fin y, h => exact ⟨x, rfl, congrArg fin (sub_eq_zero.mp (fin.inj h)).symm⟩
    | .inf x, .inf y, h =>
      rw [sub] at h
      split at h <;> cases h
  · rintro ⟨q, rfl, rfl⟩
    exact congrArg fin (sub_self q)

end JsNumber

/-! ## Comparison by a key -/

section ByKey

variable {α : Type} {key : α → JsNumber} {order : α → Nat} {a b c : α}

/-- `const d = key(a) - key(b); return d !== 0 ? d : a.order - b.order`. -/
def byKey (key : α → JsNumber) (order : α → Nat) (a b : α) : JsNumber :=
  let d := JsNumber.sub (key a) (key b)
  if d ≠ 0 then d else .fin (order a - order b)

/-- `a` comes before `b`: by the key, and by the order where the keys are equal. -/
def KeyBefore (key : α → JsNumber) (order : α → Nat) (a b : α) : Prop :=
  JsNumber.lt (key a) (key b) = true ∨ key a = key b ∧ order a < order b

instance : DecidableRel (KeyBefore key order) := fun _ _ => inferInstanceAs (Decidable (_ ∨ _ ∧ _))

theorem KeyBefore.trans (hab : KeyBefore key order a b) (hbc : KeyBefore key order b c) :
    KeyBefore key order a c := by
  rcases hab with hab | ⟨hab, hlt⟩
  · rcases hbc with hbc | ⟨hbc, -⟩
    · exact .inl (JsNumber.lt_chain hab hbc)
    · exact .inl (hbc ▸ hab)
  · rcases hbc with hbc | ⟨hbc, hlt'⟩
    · exact .inl (hab ▸ hbc)
    · exact .inr ⟨hab.trans hbc, hlt.trans hlt'⟩

theorem KeyBefore.asymm (h : KeyBefore key order a b) : ¬ KeyBefore key order b a := by
  rintro (hlt | ⟨heq, hlt⟩)
  · rcases h with hab | ⟨heq, -⟩
    · rw [JsNumber.not_lt_of_lt hab] at hlt
      cases hlt
    · rw [heq, JsNumber.lt_self] at hlt
      cases hlt
  · rcases h with hab | ⟨-, hab⟩
    · rw [heq, JsNumber.lt_self] at hab
      cases hab
    · exact absurd hlt (by omega)

theorem byKey_nonpos_iff (hkey : ∀ a, key a ≠ .nan) : (byKey key order a b).toOrder ≤ 0 ↔
    JsNumber.lt (key a) (key b) = true ∨
      key a = key b ∧ ((key a).isFinite = true → order a ≤ order b) := by
  unfold byKey
  dsimp only
  by_cases hzero : JsNumber.sub (key a) (key b) = 0
  · obtain ⟨q, ha, hb⟩ := JsNumber.sub_eq_zero_iff.mp hzero
    rw [if_neg (not_not_intro hzero), ha, hb, JsNumber.lt_self]
    show ((order a : Rat) - order b) ≤ 0 ↔ _
    rw [sub_nonpos, Nat.cast_le]
    simp [JsNumber.isFinite]
  · rw [if_pos hzero, JsNumber.toOrder_sub_nonpos_iff (hkey a) (hkey b)]
    refine or_congr_right ⟨fun heq => ⟨heq, fun hfinite => ?_⟩, And.left⟩
    -- equal finite keys have the difference zero
    cases hq : key a with
    | fin q => exact absurd (JsNumber.sub_eq_zero_iff.mpr ⟨q, hq, heq ▸ hq⟩) hzero
    | inf negative =>
      rw [hq] at hfinite
      cases hfinite
    | nan => exact absurd hq (hkey a)

theorem lawful_byKey (hkey : ∀ a, key a ≠ .nan) :
    Lawful fun a b => (byKey key order a b).toOrder where
  total a b := by
    rw [byKey_nonpos_iff hkey, byKey_nonpos_iff hkey]
    rcases JsNumber.trichotomy (hkey a) (hkey b) with h | h | h
    · exact .inl (.inl h)
    · rcases Nat.le_total (order a) (order b) with hle | hle
      · exact .inl (.inr ⟨h, fun _ => hle⟩)
      · exact .inr (.inr ⟨h.symm, fun _ => hle⟩)
    · exact .inr (.inl h)
  trans a b c := by
    rw [byKey_nonpos_iff hkey, byKey_nonpos_iff hkey, byKey_nonpos_iff hkey]
    rintro (hab | ⟨hab, hle⟩) (hbc | ⟨hbc, hle'⟩)
    · exact .inl (JsNumber.lt_chain hab hbc)
    · exact .inl (hbc ▸ hab)
    · exact .inl (hab ▸ hbc)
    · exact .inr ⟨hab.trans hbc, fun h => (hle h).trans (hle' (hab ▸ h))⟩

end ByKey

/-! ## Stability -/

section Stable

variable {α : Type} {cmp : α → α → Rat} {r : α → α → Prop}

/-- **Stability**: a sorted list is in the order of the relation and, where the relation ties, in the
    order it had. -/
theorem pairwise_insertionSort_stable (le : α → α → Prop) [DecidableRel le]
    (htotal : ∀ a b, le a b ∨ le b a) (htrans : ∀ a b c, le a b → le b c → le a c) {l : List α}
    (h : l.Pairwise r) : (l.insertionSort le).Pairwise fun a b => le a b ∧ (le b a → r a b) := by
  induction l with
  | nil => exact List.Pairwise.nil
  | cons a l ih =>
    obtain ⟨ha, hl⟩ := pairwise_cons.mp h
    rw [insertionSort_cons]
    have hall : ∀ b ∈ l.insertionSort le, r a b := fun b hb =>
      ha b ((mem_insertionSort le).mp hb)
    have hsorted := ih hl
    generalize l.insertionSort le = l' at hall hsorted
    induction l' with
    | nil => exact pairwise_singleton _ _
    | cons b l' ih' =>
      obtain ⟨hb, hl'⟩ := pairwise_cons.mp hsorted
      rw [orderedInsert_cons]
      by_cases hab : le a b
      · rw [if_pos hab]
        refine pairwise_cons.mpr ⟨fun c hc => ⟨?_, fun _ => hall c hc⟩, hsorted⟩
        rcases mem_cons.mp hc with rfl | hc
        · exact hab
        · exact htrans a b c hab (hb c hc).1
      · rw [if_neg hab]
        refine pairwise_cons.mpr ⟨fun c hc => ?_,
          ih' (fun c hc => hall c (mem_cons_of_mem _ hc)) hl'⟩
        rcases (mem_orderedInsert _).mp hc with rfl | hc
        · exact ⟨(htotal c b).resolve_left hab, fun h => absurd h hab⟩
        · exact hb c hc

theorem pairwise_sortBy_stable (hcmp : Lawful cmp) {l : List α} (h : l.Pairwise r) :
    (sortBy cmp l).Pairwise fun a b => cmp a b ≤ 0 ∧ (cmp b a ≤ 0 → r a b) :=
  pairwise_insertionSort_stable (fun a b => cmp a b ≤ 0) hcmp.total hcmp.trans h

end Stable

/-! ## Engines -/

section Engines

variable {α : Type} {cmp : α → α → Rat} {l : List α} {a b c : α}

/-- A consistent comparator on the elements of a list: they fall into classes that tie, and the
    classes are in a linear order. -/
structure Consistent (cmp : α → α → Rat) (l : List α) : Prop where
  refl : ∀ a ∈ l, cmp a a = 0
  symm : ∀ a ∈ l, ∀ b ∈ l, cmp a b = 0 → cmp b a = 0
  trans_eq : ∀ a ∈ l, ∀ b ∈ l, ∀ c ∈ l, cmp a b = 0 → cmp b c = 0 → cmp a c = 0
  trans_lt : ∀ a ∈ l, ∀ b ∈ l, ∀ c ∈ l, cmp a b < 0 → cmp b c < 0 → cmp a c < 0
  trans_gt : ∀ a ∈ l, ∀ b ∈ l, ∀ c ∈ l, 0 < cmp a b → 0 < cmp b c → 0 < cmp a c

/-- What is promised of `list.sort(cmp)`: the elements in some order and, where the comparator is
    consistent, sorted by it, with those that tie in the order they had. -/
structure Conforms (sort : (α → α → Rat) → List α → List α) : Prop where
  perm : ∀ cmp l, (sort cmp l).Perm l
  sorted : ∀ cmp l, Consistent cmp l →
    (sort cmp l).Pairwise fun a b => cmp a b < 0 ∨ cmp a b = 0 ∧ [a, b].Sublist l

namespace Consistent

theorem gt_of_lt (h : Consistent cmp l) (ha : a ∈ l) (hb : b ∈ l) (hab : cmp a b < 0) :
    0 < cmp b a := by
  rcases lt_trichotomy (cmp b a) 0 with hba | hba | hba
  · have hself := h.trans_lt a ha b hb a ha hab hba
    rw [h.refl a ha] at hself
    exact absurd hself (lt_irrefl 0)
  · rw [h.symm b hb a ha hba] at hab
    exact absurd hab (lt_irrefl 0)
  · exact hba

theorem lt_of_gt (h : Consistent cmp l) (ha : a ∈ l) (hb : b ∈ l) (hab : 0 < cmp a b) :
    cmp b a < 0 := by
  rcases lt_trichotomy (cmp b a) 0 with hba | hba | hba
  · exact hba
  · rw [h.symm b hb a ha hba] at hab
    exact absurd hab (lt_irrefl 0)
  · have hself := h.trans_gt a ha b hb a ha hab hba
    rw [h.refl a ha] at hself
    exact absurd hself (lt_irrefl 0)

theorem le_total (h : Consistent cmp l) (ha : a ∈ l) (hb : b ∈ l) : cmp a b ≤ 0 ∨ cmp b a ≤ 0 := by
  rcases le_or_gt (cmp a b) 0 with hab | hab
  · exact .inl hab
  · exact .inr (h.lt_of_gt ha hb hab).le

theorem le_chain (h : Consistent cmp l) (ha : a ∈ l) (hb : b ∈ l) (hc : c ∈ l)
    (hab : cmp a b ≤ 0) (hbc : cmp b c ≤ 0) : cmp a c ≤ 0 := by
  rcases hab.lt_or_eq with hab | hab
  · rcases hbc.lt_or_eq with hbc | hbc
    · exact (h.trans_lt a ha b hb c hc hab hbc).le
    · -- `c` ties with `b`, so `a` after `c` would put `b` after `c`
      refine not_lt.mp fun hac => ?_
      have hgt := h.trans_gt b hb a ha c hc (h.gt_of_lt ha hb hab) hac
      rw [hbc] at hgt
      exact lt_irrefl 0 hgt
  · rcases hbc.lt_or_eq with hbc | hbc
    · refine not_lt.mp fun hac => ?_
      have hlt := h.trans_lt b hb c hc a ha hbc (h.lt_of_gt ha hc hac)
      rw [h.symm a ha b hb hab] at hlt
      exact lt_irrefl 0 hlt
    · exact (h.trans_eq a ha b hb c hc hab hbc).le

end Consistent

theorem conforms_sortBy : Conforms (sortBy (α := α)) where
  perm _ l := sortBy_perm l
  sorted cmp l h := by
    have hmap : (sortBy (fun a b : { a // a ∈ l } => cmp a b) l.attach).map (·.1) =
        sortBy cmp (l.attach.map (·.1)) := map_sortBy fun _ _ _ _ => Iff.rfl
    rw [attach_map_subtype_val] at hmap
    have hstable := pairwise_insertionSort_stable (fun a b : { a // a ∈ l } => cmp a b ≤ 0)
      (fun a b => h.le_total a.2 b.2) (fun a b c => h.le_chain a.2 b.2 c.2)
      (l := l.attach) (pairwise_iff_forall_sublist.mpr fun {_ _} hsub => hsub)
    rw [← hmap, pairwise_map]
    refine hstable.imp fun {a b} ⟨hab, hsub⟩ => ?_
    rcases hab.lt_or_eq with hlt | heq
    · exact .inl hlt
    · have hsub := (hsub (h.symm a.1 a.2 b.1 b.2 heq).le).map Subtype.val
      rw [attach_map_subtype_val] at hsub
      exact .inr ⟨heq, hsub⟩

/-- Where the comparator is not consistent, `sort` may return any order. -/
theorem exists_conforms (h : ¬ Consistent cmp l) {l' : List α} (hperm : l'.Perm l) :
    ∃ sort, Conforms sort ∧ sort cmp l = l' := by
  classical
  refine ⟨fun cmp₁ l₁ => if cmp₁ = cmp ∧ l₁ = l then l' else sortBy cmp₁ l₁, ⟨?_, ?_⟩, ?_⟩
  · intro cmp₁ l₁
    split
    · rename_i heq
      rw [heq.2]
      exact hperm
    · exact sortBy_perm l₁
  · intro cmp₁ l₁ hconsistent
    have hne : ¬ (cmp₁ = cmp ∧ l₁ = l) := fun heq => h (heq.1 ▸ heq.2 ▸ hconsistent)
    rw [if_neg hne]
    exact conforms_sortBy.sorted cmp₁ l₁ hconsistent
  · exact if_pos ⟨rfl, rfl⟩

/-- Two elements do not stand both ways in a list without duplicates. -/
theorem not_both_sublist (hnodup : l.Nodup) (hab : [a, b].Sublist l) : ¬ [b, a].Sublist l := by
  intro hba
  induction l with
  | nil => nomatch hab
  | cons c l ih =>
    obtain ⟨hc, hl⟩ := nodup_cons.mp hnodup
    have hnotMem : ∀ {x y : α}, [x, y].Sublist l → x ∈ l := fun h => h.subset mem_cons_self
    cases hab with
    | cons _ hab =>
      cases hba with
      | cons _ hba => exact ih hl hab hba
      | cons_cons _ hba => exact hc (hab.subset (mem_cons_of_mem _ mem_cons_self))
    | cons_cons _ hab =>
      cases hba with
      | cons _ hba => exact hc (hba.subset (mem_cons_of_mem _ mem_cons_self))
      | cons_cons _ hba => exact hc (singleton_sublist.mp hba)

/-- **What a sort puts behind an element**: what compares greater, and what ties and stood behind
    it. -/
theorem Conforms.behind {sort : (α → α → Rat) → List α → List α} (hsort : Conforms sort)
    (h : Consistent cmp l) (hnodup : l.Nodup) (ha : a ∈ l) (p : α → Bool)
    (hp : ∀ x, p x = true ↔ cmp a x < 0 ∨ cmp a x = 0 ∧ [a, x].Sublist l) :
    ∃ before after, sort cmp l = before ++ a :: after ∧ after.Perm (l.filter p) := by
  have hperm := hsort.perm cmp l
  have hsorted := hsort.sorted cmp l h
  obtain ⟨before, after, hsplit⟩ := append_of_mem (hperm.mem_iff.mpr ha)
  refine ⟨before, after, hsplit, ?_⟩
  rw [hsplit] at hperm hsorted
  obtain ⟨-, htail, hbefore⟩ := pairwise_append.mp hsorted
  have hafter := (pairwise_cons.mp htail).1
  have hsub : after.Sublist (before ++ a :: after) :=
    (sublist_cons_self a after).trans (sublist_append_right before _)
  have hnodup' := hperm.nodup_iff.mpr hnodup
  refine (perm_ext_iff_of_nodup (hnodup'.sublist hsub) (hnodup.filter p)).mpr fun x => ?_
  rw [mem_filter, hp]
  constructor
  · intro hx
    exact ⟨hperm.mem_iff.mp (hsub.subset hx), hafter x hx⟩
  · rintro ⟨hx, hlater⟩
    rcases mem_append.mp (hperm.mem_iff.mpr hx) with hfront | hback
    · -- `x` would come before `a`
      exfalso
      have hxa := hbefore x hfront a mem_cons_self
      rcases hlater with hlt | ⟨heq, hstood⟩
      · have hgt := h.gt_of_lt ha hx hlt
        rcases hxa with hxa | ⟨hxa, -⟩
        · exact lt_asymm hgt hxa
        · rw [hxa] at hgt
          exact lt_irrefl 0 hgt
      · rcases hxa with hxa | ⟨-, hstood'⟩
        · rw [h.symm a ha x hx heq] at hxa
          exact lt_irrefl 0 hxa
        · exact not_both_sublist hnodup hstood hstood'
    · rcases mem_cons.mp hback with rfl | hback
      · exfalso
        have hself := h.refl x ha
        rcases hlater with hlt | ⟨-, hstood⟩
        · rw [hself] at hlt
          exact lt_irrefl 0 hlt
        · exact not_both_sublist hnodup hstood hstood
      · exact hback

end Engines

end NexusCode.Lib
