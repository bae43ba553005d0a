/-
  The canonical text of what is read back.

    1. `sortDeep_arranged`, `sortDeep_plain` — sorting does away with what reading back changes.
    2. **`recomputed_own`**  — so the hash of a record of the log is recomputed.
-/
import NexusCode.Audit.Verification

namespace NexusCode.Audit

open Lib Shared List

/-! ## Sorting -/

theorem sortItems_eq : ∀ items : List Json, sortItems items = items.map sortDeep
  | [] => rfl
  | v :: rest => congrArg (sortDeep v :: ·) (sortItems_eq rest)

theorem sortFields_eq : ∀ fields : List (String × Json),
    sortFields fields = fields.map fun f => (f.1, sortDeep f.2)
  | [] => rfl
  | (k, v) :: rest => congrArg ((k, sortDeep v) :: ·) (sortFields_eq rest)

/-- The members that are created: all but `__proto__`. -/
def created (fields : List (String × Json)) : List (String × Json) :=
  fields.filter fun f => f.1 ≠ "__proto__"

theorem sortDeep_obj (fields : List (String × Json)) : sortDeep (.obj fields) =
    .obj (created (Json.sortMembers (fields.map fun f => (f.1, sortDeep f.2)))) := by
  rw [sortDeep, sortFields_eq]
  rfl

theorem sortDeep_arranged {v : Json} (hv : v.IsValue) : sortDeep v.arranged = sortDeep v := by
  induction v using Json.ind with
  | hnull => rfl
  | hbool => rfl
  | hnum => rfl
  | hstr => rfl
  | harr items ih =>
    have hitems := (Json.isValueItems_iff items).mp hv
    show Json.arr (sortItems (Json.arrangedItems items)) = Json.arr (sortItems items)
    rw [Json.arrangedItems_eq, sortItems_eq, sortItems_eq, map_map]
    exact congrArg Json.arr (map_congr_left fun v h => ih v h (hitems v h))
  | hobj fields ih =>
    obtain ⟨hnodup, hfields⟩ := hv
    have hfields := (Json.isValueFields_iff fields).mp hfields
    show sortDeep (.obj (Json.enumerate (Json.arrangedFields fields))) = _
    rw [sortDeep_obj, sortDeep_obj, Json.arrangedFields_eq, Json.enumerate_eq,
      Json.enumerated_map (fun f : String × Json => (f.1, f.2.arranged)) (fun _ => rfl),
      map_map]
    refine congrArg (fun l => Json.obj (created l)) ?_
    refine (Json.sortMembers_congr (l := fields) hnodup (Json.enumerated_perm fields).symm
      (h := fun v => sortDeep v.arranged) fun f hf => ?_).symm
    exact (ih f hf (hfields f hf)).symm

theorem created_map (g : Json → Json) (fields : List (String × Json)) :
    created (fields.map fun f => (f.1, g f.2)) = (created fields).map fun f => (f.1, g f.2) := by
  unfold created
  rw [filter_map]
  rfl

theorem sortDeep_plain (v : Json) : sortDeep v.plain = (sortDeep v).plain := by
  induction v using Json.ind with
  | hnull => rfl
  | hbool => rfl
  | hnum x =>
    show sortDeep (if x.isFinite then .num x else .null) = if x.isFinite then .num x else .null
    cases x.isFinite <;> rfl
  | hstr => rfl
  | harr items ih =>
    show Json.arr (sortItems (Json.plainItems items)) = Json.arr (Json.plainItems (sortItems items))
    rw [Json.plainItems_eq, Json.plainItems_eq, sortItems_eq, sortItems_eq, map_map,
      map_map]
    exact congrArg Json.arr (map_congr_left fun v h => ih v h)
  | hobj fields ih =>
    rw [Json.plain_obj, sortDeep_obj, sortDeep_obj, Json.plain_obj, map_map, ← created_map,
      ← Json.sortMembers_map (fun f => (f.1, f.2.plain)) (fun _ => rfl), map_map]
    refine congrArg (fun l => Json.obj (created (Json.sortMembers l))) ?_
    exact map_congr_left fun f hf => Prod.ext rfl (ih f hf)

/-- **The canonical text** is that of what is read back. -/
theorem canonicalize_stored {v : Json} (hv : v.IsValue) :
    canonicalize v.plain.arranged = canonicalize v := by
  unfold canonicalize
  rw [sortDeep_arranged (Json.isValue_plain hv), sortDeep_plain]
  unfold Json.stringify
  rw [Json.chars_plain]

/-! ## The hash of a record -/

variable {hmac : String → String} {redaction : Redaction}

theorem isValue_base (e : Entry) : (e.base redaction).IsValue := by
  obtain ⟨hnodup, hfields⟩ := e.isValue_json redaction (fun text => text)
  have hfields := (Json.isValueFields_iff _).mp hfields
  refine ⟨?_, (Json.isValueFields_iff _).mpr fun f hf => hfields f (mem_append_left _ hf)⟩
  rw [map_append] at hnodup
  exact (nodup_append'.mp hnodup).1

/-- What is read back of members none of which is an array index. -/
theorem stored_fields {fields : List (String × Json)}
    (h : ∀ k ∈ fields.map Prod.fst, Json.arrayIndex? k = none) :
    (Json.obj fields).plain.arranged = .obj (fields.map fun f => (f.1, f.2.plain.arranged)) := by
  rw [Json.plain_obj]
  show Json.obj (Json.enumerate (Json.arrangedFields _)) = _
  rw [Json.arrangedFields_eq, map_map, Json.enumerate_named]
  · rfl
  · intro k hk
    rw [map_map] at hk
    exact h k hk

theorem keys_no_hash (e : Entry) :
    ∀ k ∈ (baseRecord redaction e.seq e.prevHash e.event).map Prod.fst, k ≠ "hash" := by
  intro k hk
  have hnodup := e.nodup_keys redaction (fun text => text)
  rw [map_append] at hnodup
  rintro rfl
  exact (nodup_append'.mp hnodup).2.2 hk (mem_singleton_self _)

/-- Without its hash, what is read back of a record is what is read back of its base. -/
theorem hashable_stored (e : Entry) : ∃ fields, e.stored redaction hmac = .obj fields ∧
    hashable fields = (e.base redaction).plain.arranged := by
  refine ⟨_, stored_fields (e.keys_named redaction hmac), ?_⟩
  have hnames : ∀ k ∈ (baseRecord redaction e.seq e.prevHash e.event).map Prod.fst,
      Json.arrayIndex? k = none := by
    intro k hk
    refine e.keys_named redaction (fun text => text) k ?_
    rw [map_append]
    exact mem_append_left _ hk
  rw [Entry.base, stored_fields hnames]
  unfold hashable
  refine congrArg Json.obj ?_
  rw [map_append, filter_append, filter_eq_self.mpr]
  · show _ ++ [] = _
    exact append_nil _
  · rintro f hf
    obtain ⟨g, hg, rfl⟩ := mem_map.mp hf
    exact decide_eq_true (keys_no_hash e g.1 (mem_map_of_mem hg))

/-- **The hash of a record of the log** is recomputed. -/
theorem recomputed_own (e : Entry) :
    recomputed hmac (e.stored redaction hmac) = some (e.hash redaction hmac) := by
  obtain ⟨fields, hfields, hbase⟩ := @hashable_stored hmac redaction e
  have hprev := e.stored_prevHash redaction hmac
  rw [hfields] at hprev ⊢
  have hlookup : (hashable fields).get? "prevHash" = some (.str e.prevHash) :=
    (Json.field?_filter (p := fun k => decide (k ≠ "hash")) (by decide) fields).trans hprev
  show computeHash hmac (hashable fields) = _
  unfold computeHash
  rw [hlookup]
  dsimp only
  rw [hbase, canonicalize_stored (isValue_base e)]
  rfl

end NexusCode.Audit
