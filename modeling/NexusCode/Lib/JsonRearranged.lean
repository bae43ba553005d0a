/-
  JSON values that differ in the order of things only.

  `Rearranged v w` says that `w` is `v` with the items of its arrays, and the members of its
  objects, in some other order, at every depth.  What is read off the members of a value is then
  rearranged too (`Rearranged.get?`), and what is not an array or an object is the same.
-/
import NexusCode.Lib.JsonRecord

namespace NexusCode.Lib.Json

open List

mutual

/-- The second value is the first one with its arrays and objects in any order. -/
inductive Rearranged : Json → Json → Prop
  | refl (v : Json) : Rearranged v v
  | arr {xs ys zs : List Json} (items : RearrangedItems xs ys) (perm : ys.Perm zs) :
      Rearranged (arr xs) (arr zs)
  | obj {fs gs hs : List (String × Json)} (fields : RearrangedFields fs gs) (perm : gs.Perm hs) :
      Rearranged (obj fs) (obj hs)

/-- Item by item. -/
inductive RearrangedItems : List Json → List Json → Prop
  | nil : RearrangedItems [] []
  | cons {v w : Json} {vs ws : List Json} (head : Rearranged v w) (tail : RearrangedItems vs ws) :
      RearrangedItems (v :: vs) (w :: ws)

/-- Member by member. -/
inductive RearrangedFields : List (String × Json) → List (String × Json) → Prop
  | nil : RearrangedFields [] []
  | cons {k : String} {v w : Json} {fs gs : List (String × Json)} (head : Rearranged v w)
      (tail : RearrangedFields fs gs) : RearrangedFields ((k, v) :: fs) ((k, w) :: gs)

end

/-- Both are undefined, or rearranged values. -/
inductive Alike : Option Json → Option Json → Prop
  | none : Alike none none
  | some {v w : Json} (h : Rearranged v w) : Alike (some v) (some w)

theorem Alike.refl : ∀ a : Option Json, Alike a a
  | .none => .none
  | .some v => .some (.refl v)

theorem RearrangedItems.refl : ∀ vs : List Json, RearrangedItems vs vs
  | [] => .nil
  | v :: vs => .cons (.refl v) (RearrangedItems.refl vs)

theorem RearrangedFields.refl : ∀ fs : List (String × Json), RearrangedFields fs fs
  | [] => .nil
  | (_, v) :: fs => .cons (.refl v) (RearrangedFields.refl fs)

/-- What does not look into arrays and objects reads the same. -/
theorem Alike.read {τ : Type} {a b : Option Json} (h : Alike a b) (f : Option Json → τ)
    (harr : ∀ xs ys, f (.some (.arr xs)) = f (.some (.arr ys)))
    (hobj : ∀ fs gs, f (.some (.obj fs)) = f (.some (.obj gs))) : f a = f b := by
  cases h with
  | none => rfl
  | some h =>
    cases h with
    | refl => rfl
    | arr => exact harr _ _
    | obj => exact hobj _ _

theorem RearrangedFields.keys {fs gs : List (String × Json)} (h : RearrangedFields fs gs) :
    fs.map Prod.fst = gs.map Prod.fst := by
  induction fs generalizing gs with
  | nil =>
    cases h
    rfl
  | cons f fs ih =>
    cases h with
    | cons head tail => exact congrArg (_ :: ·) (ih tail)

theorem RearrangedFields.field? {fs gs : List (String × Json)} (h : RearrangedFields fs gs)
    (k : String) : Alike (field? k fs) (field? k gs) := by
  induction fs generalizing gs with
  | nil =>
    cases h
    exact .none
  | cons f fs ih =>
    cases h with
    | @cons k' v w _ gs head tail =>
      rw [Json.field?, Json.field?]
      split
      · exact .some head
      · exact ih tail

/-- **Members of rearranged values** are rearranged. -/
theorem Rearranged.get? {v w : Json} (h : Rearranged v w) (hv : IsValue v) (k : String) :
    Alike (Json.get? k v) (Json.get? k w) := by
  cases h with
  | refl => exact Alike.refl _
  | arr => exact .none
  | @obj fs gs hs fields perm =>
    have hnodup : (gs.map Prod.fst).Nodup := fields.keys ▸ hv.1
    show Alike (field? k fs) (field? k hs)
    rw [← field?_of_perm hnodup perm]
    exact fields.field? k

theorem RearrangedItems.of_forall (f : Json → Json) : ∀ {vs : List Json},
    (∀ v ∈ vs, Rearranged v (f v)) → RearrangedItems vs (vs.map f)
  | [], _ => .nil
  | _ :: _, h => .cons (h _ mem_cons_self)
      (RearrangedItems.of_forall f fun v hv => h v (mem_cons_of_mem _ hv))

theorem RearrangedFields.of_forall (f : Json → Json) : ∀ {fs : List (String × Json)},
    (∀ g ∈ fs, Rearranged g.2 (f g.2)) → RearrangedFields fs (fs.map fun g => (g.1, f g.2))
  | [], _ => .nil
  | _ :: _, h => .cons (h _ mem_cons_self)
      (RearrangedFields.of_forall f fun g hg => h g (mem_cons_of_mem _ hg))

theorem RearrangedItems.exists_of_mem {xs ys : List Json} (h : RearrangedItems xs ys) {y : Json}
    (hy : y ∈ ys) : ∃ x ∈ xs, Rearranged x y := by
  induction xs generalizing ys with
  | nil =>
    cases h
    nomatch hy
  | cons x xs ih =>
    cases h with
    | cons head tail =>
      rcases mem_cons.mp hy with rfl | hy
      · exact ⟨x, mem_cons_self, head⟩
      · obtain ⟨x', hx', h⟩ := ih tail hy
        exact ⟨x', mem_cons_of_mem _ hx', h⟩

theorem rearranged_sorted (v : Json) : Rearranged v v.sorted := by
  induction v using ind with
  | hnull => exact .refl _
  | hbool => exact .refl _
  | hnum => exact .refl _
  | hstr => exact .refl _
  | harr items ih =>
    show Rearranged (arr items) (arr (sortedItems items))
    rw [sortedItems_eq]
    exact .arr (.of_forall sorted ih) (.refl _)
  | hobj fields ih =>
    rw [sorted_obj]
    exact .obj (.of_forall sorted ih) (sortMembers_perm _).symm

theorem field?_setField {k : String} {w : Json} : ∀ fields : List (String × Json),
    Json.field? k (setField k w fields) = some w
  | [] => if_pos rfl
  | (k', v) :: rest => by
    rw [setField]
    split
    · exact if_pos rfl
    · rename_i hne
      rw [Json.field?, if_neg hne]
      exact field?_setField rest

theorem RearrangedFields.setField {k : String} {w w' : Json} (hw : Rearranged w w') :
    ∀ {fields : List (String × Json)}, Json.field? k fields = some w →
      RearrangedFields fields (setField k w' fields)
  | [], h => nomatch h
  | (k', v) :: rest, h => by
    rw [Json.field?] at h
    rw [Json.setField]
    split at h
    · rename_i heq
      subst heq
      obtain rfl := Option.some.inj h
      rw [if_pos rfl]
      exact .cons hw (RearrangedFields.refl rest)
    · rename_i hne
      rw [if_neg hne]
      exact .cons (.refl v) (RearrangedFields.setField hw h)

/-- **A member may be replaced** by a rearranged one. -/
theorem exists_rearranged {fields : List (String × Json)} {k : String} {w w' : Json}
    (hv : IsValue (obj fields)) (hget : Json.field? k fields = some w) (hw : Rearranged w w')
    (hw' : IsValue w') : ∃ fields', IsValue (obj fields') ∧
      Rearranged (obj fields) (obj fields') ∧ Json.field? k fields' = some w' :=
  ⟨setField k w' fields, isValue_setField hw' hv, .obj (.setField hw hget) (.refl _),
    field?_setField fields⟩

theorem rearranged_record {ms ms' : List (String × Option Json)}
    (h : List.Forall₂ (fun m m' => m.1 = m'.1 ∧ Alike m.2 m'.2) ms ms') :
    Rearranged (record ms) (record ms') := by
  suffices hfields : RearrangedFields (ms.filterMap fun m => m.2.map fun v => (m.1, v))
      (ms'.filterMap fun m => m.2.map fun v => (m.1, v)) from .obj hfields (.refl _)
  induction h with
  | nil => exact .nil
  | @cons m m' ms ms' hm _ ih =>
    obtain ⟨k, o⟩ := m
    obtain ⟨k', o'⟩ := m'
    obtain ⟨rfl, ho⟩ := hm
    cases ho with
    | none => exact ih
    | some hv => exact .cons hv ih

end NexusCode.Lib.Json
