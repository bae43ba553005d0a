/-
  Coercions of parsed values: truthiness, `??`, and `String(value)`.

  A parsed object has no methods of its own, so `String` of an object calls the inherited
  `toString`, unless an own property of that name shadows it with something that cannot be called;
  then the coercion throws (`isPrintable`).
-/
import NexusCode.Lib.Json
import NexusCode.Lib.Outcome

namespace NexusCode.Lib

/-- The `TypeError`s of a program that walks a parsed value. -/
inductive TypeError where
  | propertyOfNull
  | notIterable
  | noPrimitive
  | notAFunction
deriving DecidableEq

namespace Json

/-- `Boolean(value)`. -/
def truthy : Json → Bool
  | null => false
  | bool b => b
  | num (.fin q) => q ≠ 0
  | num .nan => false
  | num (.inf _) => true
  | str s => s ≠ ""
  | arr _ => true
  | obj _ => true

/-- `a ?? b` where `a` may be `undefined`. -/
def orElse (a : Option Json) (b : Option Json) : Option Json :=
  match a with
  | none => b
  | some null => b
  | some v => some v

/-- `a ?? literal`. -/
def withDefault (a : Option Json) (b : Json) : Json := (orElse a (some b)).getD b

/-- `value[key] === text`. -/
def textIs (v : Json) (key text : String) : Bool :=
  match v.get? key with
  | some (.str s) => s == text
  | _ => false

/-- `value.type === name`. -/
def typeIs (v : Json) (name : String) : Bool := v.textIs "type" name

theorem typeIs_false {v : Json} {name other : String} (h : v.typeIs name = true)
    (hne : name ≠ other) : v.typeIs other = false := by
  unfold typeIs textIs at h ⊢
  split at h
  · rename_i s hs
    rw [beq_iff_eq] at h
    subst h
    exact beq_false_of_ne hne
  · nomatch h

mutual

/-- The coercion to a string does not throw. -/
def isPrintable : Json → Bool
  | arr items => arePrintable items
  | obj fields => (field? "toString" fields).isNone
  | _ => true

/-- The coercion of the items of an array does not throw. -/
def arePrintable : List Json → Bool
  | [] => true
  | item :: rest => isPrintable item && arePrintable rest

end

/-- `String(value)`. -/
def toText (v : Json) : Except TypeError String :=
  if isPrintable v then .ok (text v) else .error .noPrimitive

theorem toText_succeeds_iff (v : Json) : Succeeds (toText v) ↔ isPrintable v = true := by
  unfold toText
  split
  · rename_i h
    exact iff_of_true (Succeeds.ok _) h
  · rename_i h
    exact iff_of_false (Succeeds.not_error _) h

end Json

end NexusCode.Lib
