/-
  Looking up own properties of an object whose keys are distinct: the order of the members does not
  matter (`field?_of_perm`), so a lookup commutes with what arranges, maps or filters them.
-/
import NexusCode.Lib.JsonValue

namespace NexusCode.Lib.Json

open List

variable {k : String}

theorem field?_eq_none : ∀ {fields : List (String × Json)},
    field? k fields = none ↔ k ∉ fields.map Prod.fst
  | [] => ⟨fun _ => not_mem_nil, fun _ => rfl⟩
  | (k', v) :: rest => by
    rw [field?, map_cons, mem_cons, not_or]
    by_cases hk : k' = k
    · rw [if_pos hk]
      exact ⟨nofun, fun h => absurd hk.symm h.1⟩
    · rw [if_neg hk, field?_eq_none]
      exact ⟨fun h => ⟨fun heq => hk heq.symm, h⟩, fun h => h.2⟩

theorem field?_eq_some {v : Json} : ∀ {fields : List (String × Json)},
    (fields.map Prod.fst).Nodup → (field? k fields = some v ↔ (k, v) ∈ fields)
  | [], _ => ⟨nofun, nofun⟩
  | (k', v') :: rest, hnodup => by
    rw [map_cons, nodup_cons] at hnodup
    rw [field?, mem_cons]
    by_cases hk : k' = k
    · subst hk
      rw [if_pos rfl]
      constructor
      · intro h
        exact .inl (by rw [Option.some.inj h])
      · rintro (h | h)
        · rw [(Prod.mk.inj h).2]
        · exact absurd (mem_map_of_mem (f := Prod.fst) h) hnodup.1
    · rw [if_neg hk, field?_eq_some hnodup.2]
      constructor
      · exact .inr
      · rintro (h | h)
        · exact absurd (Prod.mk.inj h).1.symm hk
        · exact h

theorem field?_of_perm {l m : List (String × Json)} (hnodup : (l.map Prod.fst).Nodup)
    (h : l.Perm m) : field? k l = field? k m := by
  have hm : (m.map Prod.fst).Nodup := (h.map Prod.fst).nodup_iff.mp hnodup
  cases hl : field? k l with
  | none =>
    have hnone := field?_eq_none.mp hl
    exact (field?_eq_none.mpr fun hmem => hnone ((h.map Prod.fst).mem_iff.mpr hmem)).symm
  | some v => exact ((field?_eq_some hm).mpr (h.mem_iff.mp ((field?_eq_some hnodup).mp hl))).symm

theorem field?_map (g : Json → Json) (k : String) : ∀ fields : List (String × Json),
    field? k (fields.map fun f => (f.1, g f.2)) = (field? k fields).map g
  | [] => rfl
  | (k', v) :: rest => by
    show (if k' = k then some (g v) else field? k (rest.map fun f => (f.1, g f.2))) =
      (if k' = k then some v else field? k rest).map g
    rw [field?_map g k rest]
    split <;> rfl

theorem field?_filter {p : String → Bool} (hk : p k = true) :
    ∀ fields : List (String × Json), field? k (fields.filter fun f => p f.1) = field? k fields
  | [] => rfl
  | (k', v) :: rest => by
    rw [filter_cons]
    by_cases hk' : k' = k
    · rw [hk', if_pos hk, field?, field?, if_pos rfl, if_pos rfl]
    · by_cases hp : p k' = true
      · rw [if_pos hp, field?, field?, if_neg hk', if_neg hk', field?_filter hk rest]
      · rw [if_neg hp, field?, if_neg hk', field?_filter hk rest]

/-- Without array indices, members are enumerated as they were created. -/
theorem enumerate_named {fields : List (String × Json)}
    (h : ∀ k ∈ fields.map Prod.fst, arrayIndex? k = none) : enumerate fields = fields := by
  have hindexed : (fields.filter fun f => (arrayIndex? f.1).isSome) = [] := by
    refine filter_eq_nil_iff.mpr fun f hf => ?_
    rw [h f.1 (mem_map_of_mem hf)]
    exact Bool.false_ne_true
  have hnamed : (fields.filter fun f => (arrayIndex? f.1).isNone) = fields := by
    refine filter_eq_self.mpr fun f hf => ?_
    rw [h f.1 (mem_map_of_mem hf)]
    rfl
  rw [enumerate_eq, enumerated, hindexed, hnamed]
  rfl

theorem commaList_cons (x : List Char) (xs : List (List Char)) :
    ∃ rest, commaList (x :: xs) = x ++ rest := by
  cases xs with
  | nil => exact ⟨[], (append_nil x).symm⟩
  | cons y ys => exact ⟨_, rfl⟩

theorem get?_arranged {v : Json} (hv : IsValue v) (k : String) :
    (arranged v).get? k = (v.get? k).map arranged := by
  cases v with
  | obj fields =>
    show field? k (enumerate (arrangedFields fields)) = (field? k fields).map arranged
    have hnodup : ((fields.map fun f => (f.1, arranged f.2)).map Prod.fst).Nodup := by
      rw [keys_map (fun f => arranged f.2)]
      exact hv.1
    rw [arrangedFields_eq, ← field?_map]
    exact (field?_of_perm hnodup (enumerated_perm _).symm).symm
  | _ => rfl

theorem get?_plain (v : Json) (k : String) : (plain v).get? k = (v.get? k).map plain := by
  cases v with
  | obj fields =>
    rw [plain_obj]
    exact field?_map plain k fields
  | num x =>
    show get? k (if x.isFinite then num x else null) = none
    split <;> rfl
  | _ => rfl

theorem isValue_plain {v : Json} (hv : IsValue v) : IsValue (plain v) := by
  induction v using ind with
  | hnull => exact hv
  | hbool => exact hv
  | hnum x =>
    show IsValue (if x.isFinite then num x else null)
    split
    · exact hv
    · trivial
  | hstr => exact hv
  | harr items ih =>
    have hitems := (isValueItems_iff items).mp hv
    show IsValueItems (plainItems items)
    rw [plainItems_eq, isValueItems_iff]
    exact forall_mem_map.mpr fun v h => ih v h (hitems v h)
  | hobj fields ih =>
    have hfields := (isValueFields_iff fields).mp hv.2
    rw [plain_obj]
    refine ⟨?_, (isValueFields_iff _).mpr (forall_mem_map.mpr fun f hf => ih f hf (hfields f hf))⟩
    rw [keys_map (fun f => plain f.2)]
    exact hv.1

theorem isValue_of_get? {v w : Json} (hv : IsValue v) (h : v.get? k = some w) :
    IsValue w := by
  cases v with
  | obj fields =>
    exact (isValueFields_iff fields).mp hv.2 (k, w) ((field?_eq_some hv.1).mp h)
  | _ => nomatch h

end NexusCode.Lib.Json
