/-
  Object literals, and values that keep their text.

  1. `record` — the object literal whose members may be `...(test ? { key: value } : {})`, and its
     members read back (`get?_record`).
  2. `Portable` — a value whose numbers are finite doubles and whose keys are names: neither
     `__proto__`, which an assignment does not create, nor array indices, which enumeration moves.
  3. **`parse_stringify_sorted`** — such a value, printed with its members in key order, reads back
     as it was printed.
  4. `chars_member_iff` — objects in key order that differ in one member alone have the same text if
     that member's texts are the same.
-/
import NexusCode.Lib.JsonFields

namespace NexusCode.Lib.Json

open List

/-! ## Object literals -/

/-- The object literal with these members, less the ones without a value. -/
def record (members : List (String × Option Json)) : Json :=
  .obj (members.filterMap fun m => m.2.map fun v => (m.1, v))

/-- The keys of a record are among the ones it was written with. -/
theorem keys_record_sublist : ∀ members : List (String × Option Json),
    ((members.filterMap fun m => m.2.map fun v => (m.1, v)).map Prod.fst).Sublist
      (members.map Prod.fst)
  | [] => List.Sublist.slnil
  | (k, none) :: rest => (keys_record_sublist rest).cons k
  | (k, some _) :: rest => (keys_record_sublist rest).cons_cons k

theorem get?_record {members : List (String × Option Json)} {k : String} {o : Option Json}
    (hnodup : (members.map Prod.fst).Nodup) (h : (k, o) ∈ members) :
    get? k (record members) = o := by
  have hkeys := hnodup.sublist (keys_record_sublist members)
  cases o with
  | some v => exact (field?_eq_some hkeys).mpr (mem_filterMap.mpr ⟨_, h, rfl⟩)
  | none =>
    -- another member of that name would be the same one
    refine field?_eq_none.mpr fun hk => ?_
    obtain ⟨⟨_, v⟩, hv, rfl⟩ := mem_map.mp hk
    obtain ⟨⟨k', o⟩, hm, ho⟩ := mem_filterMap.mp hv
    obtain ⟨w, rfl, hw⟩ := Option.map_eq_some_iff.mp ho
    obtain ⟨rfl, rfl⟩ := Prod.mk.inj hw
    nomatch (Prod.mk.inj (inj_on_of_nodup_map hnodup hm h rfl)).2

/-! ## Portable values -/

/-- The key of a member that is created by an assignment and enumerated where it was created. -/
def IsName (k : String) : Prop := k ≠ "__proto__" ∧ arrayIndex? k = none

instance (k : String) : Decidable (IsName k) := inferInstanceAs (Decidable (_ ∧ _))

/-- Distinct names. -/
def Named (keys : List String) : Prop := keys.Nodup ∧ ∀ k ∈ keys, IsName k

instance (keys : List String) : Decidable (Named keys) := inferInstanceAs (Decidable (_ ∧ _))

mutual

/-- The numbers of a value are finite doubles, and its keys are distinct names. -/
def Portable : Json → Prop
  | num (.fin x) => JsNumber.IsDouble x
  | num _ => False
  | arr items => PortableItems items
  | obj fields => (fields.map Prod.fst).Nodup ∧ PortableFields fields
  | _ => True

def PortableItems : List Json → Prop
  | [] => True
  | v :: rest => Portable v ∧ PortableItems rest

def PortableFields : List (String × Json) → Prop
  | [] => True
  | (k, v) :: rest => (IsName k ∧ Portable v) ∧ PortableFields rest

end

theorem portableItems_iff : ∀ items : List Json, PortableItems items ↔ ∀ v ∈ items, Portable v
  | [] => ⟨fun _ _ => nofun, fun _ => trivial⟩
  | v :: rest => by rw [PortableItems, portableItems_iff rest, forall_mem_cons]

theorem portableFields_iff : ∀ fields : List (String × Json),
    PortableFields fields ↔ ∀ f ∈ fields, IsName f.1 ∧ Portable f.2
  | [] => ⟨fun _ _ => nofun, fun _ => trivial⟩
  | (k, v) :: rest => by rw [PortableFields, portableFields_iff rest, forall_mem_cons]

@[simp] theorem portable_str (s : String) : Portable (str s) := trivial

@[simp] theorem portable_bool (b : Bool) : Portable (bool b) := trivial

theorem portable_arr {items : List Json} : Portable (arr items) ↔ ∀ v ∈ items, Portable v :=
  portableItems_iff items

theorem portable_record {members : List (String × Option Json)}
    (hnamed : Named (members.map Prod.fst)) (h : ∀ m ∈ members, ∀ v ∈ m.2, Portable v) :
    Portable (record members) := by
  refine ⟨hnamed.1.sublist (keys_record_sublist members), (portableFields_iff _).mpr fun f hf => ?_⟩
  obtain ⟨⟨k, o⟩, hm, ho⟩ := mem_filterMap.mp hf
  obtain ⟨v, rfl, rfl⟩ := Option.map_eq_some_iff.mp ho
  exact ⟨hnamed.2 k (mem_map_of_mem hm), h _ hm v rfl⟩

variable {v : Json}

theorem Portable.isValue (h : Portable v) : IsValue v := by
  induction v using ind with
  | hnull => exact h
  | hbool => exact h
  | hnum x =>
    cases x with
    | fin q => exact h
    | inf => exact h.elim
    | nan => exact h.elim
  | hstr => exact h
  | harr items ih =>
    have hitems := (portableItems_iff items).mp h
    exact (isValueItems_iff items).mpr fun v hv => ih v hv (hitems v hv)
  | hobj fields ih =>
    have hfields := (portableFields_iff fields).mp h.2
    exact ⟨h.1, (isValueFields_iff fields).mpr fun f hf => ih f hf (hfields f hf).2⟩

theorem Portable.readable (h : Portable v) : Readable v := by
  induction v using ind with
  | hnull => exact h
  | hbool => exact h
  | hnum x =>
    cases x with
    | fin q => exact reads_double h
    | inf => exact h.elim
    | nan => exact h.elim
  | hstr => exact h
  | harr items ih =>
    have hitems := (portableItems_iff items).mp h
    exact (readableItems_iff items).mpr fun v hv => ih v hv (hitems v hv)
  | hobj fields ih =>
    have hfields := (portableFields_iff fields).mp h.2
    exact ⟨h.1, (readableFields_iff fields).mpr fun f hf => ih f hf (hfields f hf).2⟩

theorem Portable.sorted (h : Portable v) : Portable v.sorted := by
  induction v using ind with
  | hnull => exact h
  | hbool => exact h
  | hnum => exact h
  | hstr => exact h
  | harr items ih =>
    have hitems := (portableItems_iff items).mp h
    show PortableItems (sortedItems items)
    rw [sortedItems_eq, portableItems_iff]
    exact forall_mem_map.mpr fun v hv => ih v hv (hitems v hv)
  | hobj fields ih =>
    have hfields := (portableFields_iff fields).mp h.2
    have hperm := sortMembers_perm (fields.map fun f => (f.1, Json.sorted f.2))
    rw [sorted_obj]
    constructor
    · rw [(hperm.map Prod.fst).nodup_iff, keys_map (fun f => Json.sorted f.2)]
      exact h.1
    · refine (portableFields_iff _).mpr fun f hf => ?_
      obtain ⟨g, hg, rfl⟩ := mem_map.mp (hperm.mem_iff.mp hf)
      exact ⟨(hfields g hg).1, ih g hg (hfields g hg).2⟩

theorem Portable.arranged_eq (h : Portable v) : arranged v = v := by
  induction v using ind with
  | hnull => rfl
  | hbool => rfl
  | hnum => rfl
  | hstr => rfl
  | harr items ih =>
    have hitems := (portableItems_iff items).mp h
    show arr (arrangedItems items) = arr items
    rw [arrangedItems_eq, map_congr_left fun v hv => ih v hv (hitems v hv), map_id']
  | hobj fields ih =>
    have hfields := (portableFields_iff fields).mp h.2
    have hsame : (fields.map fun f => (f.1, arranged f.2)) = fields.map id :=
      map_congr_left fun f hf => Prod.ext rfl (ih f hf (hfields f hf).2)
    show obj (enumerate (arrangedFields fields)) = obj fields
    rw [arrangedFields_eq, hsame, List.map_id, enumerate_named]
    intro k hk
    obtain ⟨f, hf, rfl⟩ := mem_map.mp hk
    exact (hfields f hf).1.2

/-- **Printed in key order and read back**, a portable value is as it was printed. -/
theorem parse_stringify_sorted (h : Portable v) :
    parse (stringify v.sorted) = some v.sorted := by
  rw [parse_stringify h.sorted.readable, h.sorted.arranged_eq]

/-- Portable values with the same text in key order are the same values. -/
theorem sorted_of_stringify_eq {w : Json} (hv : Portable v) (hw : Portable w)
    (h : stringify v.sorted = stringify w.sorted) : v.sorted = w.sorted := by
  have hparse := parse_stringify_sorted hv
  rw [h, parse_stringify_sorted hw] at hparse
  exact (Option.some.inj hparse).symm

theorem get?_sorted (hv : IsValue v) (k : String) :
    v.sorted.get? k = (v.get? k).map Json.sorted := by
  cases v with
  | obj fields =>
    have hnodup : ((fields.map fun f => (f.1, Json.sorted f.2)).map Prod.fst).Nodup := by
      rw [keys_map (fun f => Json.sorted f.2)]
      exact hv.1
    rw [sorted_obj]
    show field? k (sortMembers _) = (field? k fields).map Json.sorted
    rw [← field?_map, field?_of_perm hnodup (sortMembers_perm _).symm]
  | _ => rfl

/-- Records with the same members in key order have the same members. -/
theorem member_of_sorted_eq {ms ms' : List (String × Option Json)} (hv : IsValue (record ms))
    (hw : IsValue (record ms')) (h : (record ms).sorted = (record ms').sorted)
    (hms : (ms.map Prod.fst).Nodup) (hms' : (ms'.map Prod.fst).Nodup) :
    ∀ ⦃k : String⦄ ⦃o o' : Option Json⦄, (k, o) ∈ ms → (k, o') ∈ ms' →
      o.map Json.sorted = o'.map Json.sorted := by
  intro k o o' hk hk'
  rw [← get?_record hms hk, ← get?_record hms' hk', ← get?_sorted hv, ← get?_sorted hw, h]

/-! ## One member of an object -/

/-- What stands around one of the texts that a comma list joins. -/
theorem commaList_around (as bs : List (List Char)) :
    ∃ P Q, ∀ x, commaList (as ++ x :: bs) = P ++ (x ++ Q) := by
  have hhead : ∃ Q, ∀ x, commaList (x :: bs) = x ++ Q := by
    cases bs with
    | nil => exact ⟨[], fun x => (append_nil x).symm⟩
    | cons b bs => exact ⟨_, fun _ => rfl⟩
  obtain ⟨Q, hQ⟩ := hhead
  induction as with
  | nil => exact ⟨[], Q, hQ⟩
  | cons a as ih =>
    obtain ⟨P, Q, hPQ⟩ := ih
    refine ⟨a ++ ',' :: P, Q, fun x => ?_⟩
    have hcons : commaList (a :: (as ++ x :: bs)) = a ++ ',' :: commaList (as ++ x :: bs) := by
      cases as with
      | nil => rfl
      | cons a' as => rfl
    rw [cons_append, hcons, hPQ x]
    simp

/-- Where a member stands in key order, whatever its value is. -/
theorem sortedEntries_member {pre post : List (String × Json)} {k : String}
    (hpre : k ∉ pre.map Prod.fst) (hpost : k ∉ post.map Prod.fst) (hk : k ≠ "__proto__") :
    ∃ A B, ∀ v, sortedEntries (pre ++ (k, v) :: post) = A ++ (k, v) :: B := by
  -- the value is put in place after the sorting
  let g (v : Json) (f : String × Json) : String × Json := if f.1 = k then (f.1, v) else f
  have hfst : ∀ v f, (g v f).1 = f.1 := fun v f => by
    show (if f.1 = k then (f.1, v) else f).1 = f.1
    split <;> rfl
  have hsame : ∀ v, ∀ {l : List (String × Json)}, k ∉ l.map Prod.fst → l.map (g v) = l := by
    intro v l hl
    refine (map_congr_left fun f hf => ?_).trans (List.map_id l)
    exact if_neg fun (h : f.1 = k) => hl (h ▸ mem_map_of_mem hf)
  have hput : ∀ v, pre ++ (k, v) :: post = (pre ++ (k, null) :: post).map (g v) := fun v => by
    have hmember : g v (k, null) = (k, v) := if_pos rfl
    rw [map_append, map_cons, hsame v hpre, hsame v hpost, hmember]
  have hmem : (k, null) ∈ sortMembers (pre ++ (k, null) :: post) :=
    (sortMembers_perm _).mem_iff.mpr (mem_append_right _ (.head _))
  obtain ⟨A, B, hAB⟩ := append_of_mem hmem
  have hcount : ((pre ++ (k, null) :: post).map Prod.fst).count k = 1 := by
    rw [map_append, map_cons, count_append, count_cons_self,
      count_eq_zero_of_not_mem hpre, count_eq_zero_of_not_mem hpost]
  rw [← ((sortMembers_perm _).map Prod.fst).count_eq, hAB, map_append, map_cons,
    count_append, count_cons_self] at hcount
  have hA : k ∉ A.map Prod.fst := count_eq_zero.mp (by omega)
  have hB : k ∉ B.map Prod.fst := count_eq_zero.mp (by omega)
  refine ⟨A.filter fun f => f.1 ≠ "__proto__", B.filter fun f => f.1 ≠ "__proto__", fun v => ?_⟩
  have hmember : g v (k, null) = (k, v) := if_pos rfl
  show (sortMembers (pre ++ (k, v) :: post)).filter _ = _
  rw [hput v, sortMembers_map (g v) (hfst v), hAB, map_append, map_cons, hsame v hA,
    hsame v hB, hmember, filter_append, filter_cons_of_pos]
  exact decide_eq_true hk

/-- **Objects in key order that differ in one member alone** have the same text if that member's
    texts are the same. -/
theorem chars_member_iff {pre post : List (String × Json)} {k : String} {w : Json}
    (hpre : k ∉ pre.map Prod.fst) (hpost : k ∉ post.map Prod.fst) (hk : IsName k)
    (hnames : ∀ k' ∈ (pre ++ post).map Prod.fst, arrayIndex? k' = none) :
    chars (.obj (sortedEntries (pre ++ (k, v) :: post))) =
      chars (.obj (sortedEntries (pre ++ (k, w) :: post))) ↔ chars v = chars w := by
  obtain ⟨A, B, hAB⟩ := sortedEntries_member hpre hpost hk.1
  obtain ⟨P, Q, hPQ⟩ := commaList_around (A.map memberChars) (B.map memberChars)
  have hchars : ∀ x, chars (.obj (sortedEntries (pre ++ (k, x) :: post))) =
      '{' :: (P ++ (memberChars (k, x) ++ Q) ++ ['}']) := by
    intro x
    have hindex : ∀ k' ∈ (sortedEntries (pre ++ (k, x) :: post)).map Prod.fst,
        arrayIndex? k' = none := by
      intro k' hk'
      obtain ⟨f, hf, rfl⟩ := mem_map.mp hk'
      have hf : f ∈ pre ++ (k, x) :: post :=
        (sortMembers_perm _).mem_iff.mp (mem_of_mem_filter hf)
      rcases mem_append.mp hf with hf | hf
      · exact hnames _ (mem_map_of_mem (mem_append_left _ hf))
      · rcases mem_cons.mp hf with rfl | hf
        · exact hk.2
        · exact hnames _ (mem_map_of_mem (mem_append_right _ hf))
    rw [chars_obj, enumerate_named hindex, hAB x, map_append, map_cons, hPQ]
  rw [hchars, hchars]
  constructor
  · intro h
    have htexts := append_cancel_left (append_cancel_right (cons.inj h).2)
    have hmember : memberChars (k, v) = memberChars (k, w) := append_cancel_right htexts
    exact (cons.inj (append_cancel_left hmember)).2
  · intro h
    have hmember : memberChars (k, v) = memberChars (k, w) :=
      congrArg (fun text => quote k ++ ':' :: text) h
    rw [hmember]

end NexusCode.Lib.Json
