/-
  The deep merge of configuration layers.

  A layer is the list of the own properties of a document, in the order of `Object.entries`.  The
  lemmas say what a lookup finds in the merged object: `own?_deepMerge` for its own properties,
  `get?_deepMerge` with what is inherited.  Both speak of `hidden`, the prototype which the source
  gives the target when it has an own property `__proto__`.
-/
import NexusCode.Lib.JsObject
import NexusCode.Lib.JsonFields

namespace NexusCode.Config

open Lib JsObject List

/-- The own properties of a parsed object. -/
abbrev Layer := List (String × Json)

mutual

/-- The value `deepMerge` assigns for `v` over `prev`. -/
def mergeValue (prev : Option JsObject) : Json → JsObject
  | .obj fields =>
    match prev with
    | some p => if p.isPlainObject then mergeInto p.spread objectPrototype fields
        else parsed (.obj fields)
    | none => parsed (.obj fields)
  | v => parsed v

/-- The loop of `deepMerge` over the entries of the source. -/
def mergeInto (own : List (String × JsObject)) (proto : JsObject) : Layer → JsObject
  | [] => built own proto
  | (k, v) :: rest =>
    let out := assign own proto k (mergeValue (read own proto k) v)
    mergeInto out.1 out.2 rest

end

/-- `deepMerge(target, source)`. -/
def deepMerge (target : JsObject) (source : Layer) : JsObject :=
  mergeInto target.spread objectPrototype source

/-- The prototype the target gets from an own `__proto__` of the source. -/
def hidden (source : Layer) : JsObject :=
  match Json.field? protoKey source with
  | some v =>
    if (mergeValue (some objectPrototype) v).isProto then mergeValue (some objectPrototype) v
    else objectPrototype
  | none => objectPrototype

/-- `__proto__` stands before the key. -/
def precedes (source : Layer) (k : String) : Bool :=
  (source.takeWhile fun f => f.1 ≠ k).any fun f => f.1 = protoKey

/-! ## One merge -/

/-- The prototype in the end of a loop that starts with these own properties and prototype. -/
def finalProto (own : List (String × JsObject)) (proto : JsObject) (source : Layer) : JsObject :=
  if JsMap.lookup protoKey own = none then
    match Json.field? protoKey source with
    | some v => if (mergeValue (some proto) v).isProto then mergeValue (some proto) v else proto
    | none => proto
  else proto

theorem field?_cons (k k' : String) (v : Json) (rest : Layer) :
    Json.field? k ((k', v) :: rest) = if k' = k then some v else Json.field? k rest := rfl

theorem precedes_cons {k k' : String} (v : Json) (rest : Layer) (h : k' ≠ k) :
    precedes ((k', v) :: rest) k = (decide (k' = protoKey) || precedes rest k) := by
  unfold precedes
  rw [takeWhile_cons_of_pos (by simpa using h), any_cons]

theorem precedes_self (k : String) (v : Json) (rest : Layer) :
    precedes ((k, v) :: rest) k = false := by
  unfold precedes
  rw [takeWhile_cons_of_neg (by simp)]
  rfl

theorem field?_of_notMem {k : String} {source : Layer} (h : k ∉ source.map Prod.fst) :
    Json.field? k source = none := Json.field?_eq_none.mpr h

/-- **The loop.**  Every key is assigned over what stood there, or over what the prototype has, once
    `__proto__` was met. -/
theorem mergeInto_spec : ∀ {source : Layer} (_ : (source.map Prod.fst).Nodup)
    (own : List (String × JsObject)) (proto : JsObject),
    ∃ own', mergeInto own proto source = built own' (finalProto own proto source) ∧
      (JsMap.lookup protoKey own = none → JsMap.lookup protoKey own' = none) ∧
      ∀ k, k ≠ protoKey → JsMap.lookup k own' = match Json.field? k source with
        | none => JsMap.lookup k own
        | some v => some (mergeValue ((JsMap.lookup k own).or
            (get? k (if precedes source k then finalProto own proto source else proto))) v)
  | [], _, own, proto => by
    refine ⟨own, ?_, fun h => h, fun k _ => rfl⟩
    unfold finalProto
    split <;> rfl
  | (k₀, v) :: rest, hnodup, own, proto => by
    rw [map_cons, nodup_cons] at hnodup
    obtain ⟨hfresh, hrest⟩ := hnodup
    by_cases hk₀ : k₀ = protoKey
    · subst hk₀
      have hnone := field?_of_notMem hfresh
      by_cases hown : JsMap.lookup protoKey own = none
      · -- the setter of the prototype
        have hread : read own proto protoKey = some proto := by
          unfold JsObject.read
          rw [hown, if_pos rfl, Option.none_or]
        have hassign : assign own proto protoKey (mergeValue (read own proto protoKey) v) =
            (own, finalProto own proto ((protoKey, v) :: rest)) := by
          unfold assign finalProto
          rw [if_pos ⟨rfl, hown⟩, if_pos hown, hread, field?_cons, if_pos rfl]
        obtain ⟨own', hrun, hproto, hlookup⟩ := mergeInto_spec hrest own
          (finalProto own proto ((protoKey, v) :: rest))
        have hfinal : finalProto own (finalProto own proto ((protoKey, v) :: rest)) rest =
            finalProto own proto ((protoKey, v) :: rest) := by
          rw [finalProto, if_pos hown, hnone]
        refine ⟨own', ?_, hproto, fun k hk => ?_⟩
        · rw [mergeInto, hassign, hrun, hfinal]
        · rw [hlookup k hk, hfinal, ite_self, field?_cons, if_neg (Ne.symm hk),
            precedes_cons v rest (Ne.symm hk), decide_eq_true rfl, Bool.true_or, if_pos rfl]
      · -- an own property like any other
        have hassign : assign own proto protoKey (mergeValue (read own proto protoKey) v) =
            (JsMap.put protoKey (mergeValue (read own proto protoKey) v) own, proto) :=
          if_neg fun h => hown h.2
        obtain ⟨own', hrun, -, hlookup⟩ := mergeInto_spec hrest
          (JsMap.put protoKey (mergeValue (read own proto protoKey) v) own) proto
        have hfinal : finalProto (JsMap.put protoKey (mergeValue (read own proto protoKey) v) own)
            proto rest = proto := by
          rw [finalProto, JsMap.lookup_put, if_pos rfl, if_neg (Option.some_ne_none _)]
        have hfinal' : finalProto own proto ((protoKey, v) :: rest) = proto := if_neg hown
        refine ⟨own', ?_, fun h => absurd h hown, fun k hk => ?_⟩
        · rw [mergeInto, hassign, hrun, hfinal, hfinal']
        · rw [hlookup k hk, hfinal, hfinal', ite_self, ite_self, JsMap.lookup_put,
            if_neg (Ne.symm hk), field?_cons, if_neg (Ne.symm hk)]
    · obtain ⟨own', hrun, hproto, hlookup⟩ := mergeInto_spec hrest
        (JsMap.put k₀ (mergeValue (read own proto k₀) v) own) proto
      have hkeep : JsMap.lookup protoKey (JsMap.put k₀ (mergeValue (read own proto k₀) v) own) =
          JsMap.lookup protoKey own := by
        rw [JsMap.lookup_put, if_neg hk₀]
      have hfinal : finalProto (JsMap.put k₀ (mergeValue (read own proto k₀) v) own) proto rest =
          finalProto own proto ((k₀, v) :: rest) := by
        unfold finalProto
        rw [hkeep, field?_cons, if_neg hk₀]
      refine ⟨own', ?_, fun h => hproto (hkeep.trans h), fun k hk => ?_⟩
      · rw [mergeInto, assign_of_ne _ hk₀, hrun, hfinal]
      · rw [hlookup k hk, hfinal, JsMap.lookup_put, field?_cons]
        by_cases hkk : k₀ = k
        · subst hkk
          rw [field?_of_notMem hfresh, if_pos rfl, if_pos rfl, precedes_self,
            if_neg Bool.false_ne_true]
          unfold JsObject.read
          rw [if_neg hk₀]
        · rw [if_neg hkk, if_neg hkk, precedes_cons v rest hkk, decide_eq_false hk₀,
            Bool.false_or]

/-- What the source's `__proto__` makes a target inherit. -/
def inherited (target : JsObject) (source : Layer) (k : String) : Option JsObject :=
  if target.own? protoKey = none then get? k (hidden source) else none

variable {source : Layer} (hnodup : (source.map Prod.fst).Nodup) (target : JsObject) {k : String}

include hnodup

theorem deepMerge_eq : ∃ own', deepMerge target source =
      built own' (if target.own? protoKey = none then hidden source else objectPrototype) ∧
    (target.own? protoKey = none → JsMap.lookup protoKey own' = none) ∧
    ∀ k, k ≠ protoKey → JsMap.lookup k own' = match Json.field? k source with
      | none => target.own? k
      | some v => some (mergeValue ((target.own? k).or
          (if precedes source k then inherited target source k else none)) v) := by
  obtain ⟨own', hrun, hproto, hlookup⟩ := mergeInto_spec hnodup target.spread objectPrototype
  have hfinal : finalProto target.spread objectPrototype source =
      if target.own? protoKey = none then hidden source else objectPrototype := rfl
  refine ⟨own', hfinal ▸ hrun, hproto, fun k hk => ?_⟩
  rw [hlookup k hk, hfinal]
  have hbase : get? k (if precedes source k then
      if target.own? protoKey = none then hidden source else objectPrototype
      else objectPrototype) = if precedes source k then inherited target source k else none := by
    unfold inherited
    split_ifs <;> rfl
  rw [hbase]
  rfl

/-- **The own properties** of a merged object. -/
theorem own?_deepMerge (hk : k ≠ protoKey) :
    (deepMerge target source).own? k = match Json.field? k source with
      | none => target.own? k
      | some v => some (mergeValue ((target.own? k).or
          (if precedes source k then inherited target source k else none)) v) := by
  obtain ⟨own', hrun, -, hlookup⟩ := deepMerge_eq hnodup target
  rw [hrun, own?_built, hlookup k hk]

/-- **What a lookup finds** in a merged object. -/
theorem get?_deepMerge :
    (deepMerge target source).get? k =
      ((deepMerge target source).own? k).or (inherited target source k) := by
  obtain ⟨own', hrun, -, -⟩ := deepMerge_eq hnodup target
  rw [hrun, get?_built, own?_built]
  unfold inherited
  split_ifs <;> rfl

theorem own?_proto_deepMerge (h : target.own? protoKey = none) :
    (deepMerge target source).own? protoKey = none := by
  obtain ⟨own', hrun, hproto, -⟩ := deepMerge_eq hnodup target
  rw [hrun, own?_built]
  exact hproto h

end NexusCode.Config
