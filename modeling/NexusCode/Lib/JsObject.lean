/-
  Objects with prototypes, as far as assigning and looking up properties goes.

  A value is something parsed, with the standard prototypes, or an object that a program has put
  together: its own properties and its prototype.  `__proto__` is an own property only where a
  parser or a spread has created it; everywhere else reading it gives the prototype, and assigning
  to it changes the prototype (`assign`).
-/
import NexusCode.Lib.JsMap
import NexusCode.Lib.Json

namespace NexusCode.Lib

/-- A value of a program that reads parsed documents. -/
inductive JsObject where
  /-- `Object.prototype`. -/
  | objectPrototype
  | parsed (v : Json)
  | built (own : List (String × JsObject)) (proto : JsObject)

namespace JsObject

/-- `"__proto__"`. -/
def protoKey : String := "__proto__"

/-- `{...value}`: the own enumerable properties. -/
def spread : JsObject → List (String × JsObject)
  | parsed (.obj fields) => fields.map fun f => (f.1, parsed f.2)
  | built own _ => own
  | _ => []

/-- The value of an own property. -/
def own? (o : JsObject) (k : String) : Option JsObject := JsMap.lookup k o.spread

/-- `value[k]` for a key that `Object.prototype` does not have: own or inherited. -/
def get? (k : String) : JsObject → Option JsObject
  | built own proto => (JsMap.lookup k own).or (get? k proto)
  | o => o.own? k

/-- `typeof v === "object" && v !== null && !Array.isArray(v)`. -/
def isPlainObject : JsObject → Bool
  | parsed (.obj _) => true
  | parsed _ => false
  | _ => true

/-- An object, an array or `null`: what can be a prototype. -/
def isProto : JsObject → Bool
  | parsed (.obj _) => true
  | parsed (.arr _) => true
  | parsed .null => true
  | parsed _ => false
  | _ => true

/-- `out[k]` on an object under construction. -/
def read (own : List (String × JsObject)) (proto : JsObject) (k : String) : Option JsObject :=
  (JsMap.lookup k own).or (if k = protoKey then some proto else get? k proto)

/-- `out[k] = v` on an object under construction: the own properties and the prototype after it. -/
def assign (own : List (String × JsObject)) (proto : JsObject) (k : String) (v : JsObject) :
    List (String × JsObject) × JsObject :=
  if k = protoKey ∧ JsMap.lookup k own = none then (own, if v.isProto then v else proto)
  else (JsMap.put k v own, proto)

@[simp] theorem own?_built (own : List (String × JsObject)) (proto : JsObject) (k : String) :
    (built own proto).own? k = JsMap.lookup k own := rfl

@[simp] theorem get?_built (own : List (String × JsObject)) (proto : JsObject) (k : String) :
    (built own proto).get? k = (JsMap.lookup k own).or (get? k proto) := rfl

theorem lookup_map (k : String) : ∀ fields : List (String × Json),
    JsMap.lookup k (fields.map fun f => (f.1, parsed f.2)) = (Json.field? k fields).map parsed
  | [] => rfl
  | (k', v) :: rest => by
    show (if k' = k then some (parsed v) else
      JsMap.lookup k (rest.map fun f => (f.1, parsed f.2))) =
      (if k' = k then some v else Json.field? k rest).map parsed
    rw [lookup_map k rest]
    split <;> rfl

@[simp] theorem own?_parsed (v : Json) (k : String) :
    (parsed v).own? k = (v.get? k).map parsed := by
  cases v with
  | obj fields => exact lookup_map k fields
  | null => rfl
  | bool b => rfl
  | num x => rfl
  | str s => rfl
  | arr items => rfl

@[simp] theorem get?_parsed (v : Json) (k : String) :
    (parsed v).get? k = (v.get? k).map parsed := own?_parsed v k

theorem get?_of_own {o : JsObject} {k : String} {v : JsObject} (h : o.own? k = some v) :
    o.get? k = some v := by
  cases o with
  | objectPrototype => exact h
  | parsed w => exact h
  | built own proto =>
    show (JsMap.lookup k own).or (get? k proto) = some v
    rw [show JsMap.lookup k own = some v from h]
    rfl

theorem get?_of_not_plain {o : JsObject} (h : o.isPlainObject = false) (k : String) :
    o.get? k = none := by
  cases o with
  | objectPrototype => nomatch h
  | built own proto => nomatch h
  | parsed v =>
    cases v with
    | obj fields => nomatch h
    | null => rfl
    | bool b => rfl
    | num x => rfl
    | str s => rfl
    | arr items => rfl

theorem own?_of_not_plain {o : JsObject} (h : o.isPlainObject = false) (k : String) :
    o.own? k = none := by
  cases hown : o.own? k with
  | none => rfl
  | some v =>
    have hget := get?_of_own hown
    rw [get?_of_not_plain h] at hget
    nomatch hget

/-- An assignment to any other key touches that property alone. -/
theorem assign_of_ne {own : List (String × JsObject)} {proto : JsObject} {k : String}
    (v : JsObject) (h : k ≠ protoKey) :
    assign own proto k v = (JsMap.put k v own, proto) := if_neg fun hk => h hk.1

end JsObject

end NexusCode.Lib
