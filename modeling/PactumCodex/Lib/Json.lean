import Mathlib.Data.List.Basic
import Mathlib.Tactic.Common

/-!
# JSON values

The values a JSON document stands for, with decidable equality, and access to
the fields of an object.
-/

/-- A JSON value; numbers are the integers, the only ones used here. -/
inductive Json : Type
  | null : Json
  | bool (b : Bool) : Json
  | num (n : Int) : Json
  | str (s : String) : Json
  | arr (items : List Json) : Json
  | obj (fields : List (String × Json)) : Json

namespace Json

mutual

/-- Equality of JSON values is decidable. -/
def decEq : (a b : Json) → Decidable (a = b)
  | .null, .null => .isTrue rfl
  | .bool a, .bool b => decidable_of_iff (a = b) (by simp)
  | .num a, .num b => decidable_of_iff (a = b) (by simp)
  | .str a, .str b => decidable_of_iff (a = b) (by simp)
  | .arr a, .arr b => @decidable_of_iff _ (a = b) (by simp) (decEqItems a b)
  | .obj a, .obj b => @decidable_of_iff _ (a = b) (by simp) (decEqFields a b)
  | .null, .bool _ | .null, .num _ | .null, .str _ | .null, .arr _ | .null, .obj _
  | .bool _, .null | .bool _, .num _ | .bool _, .str _ | .bool _, .arr _ | .bool _, .obj _
  | .num _, .null | .num _, .bool _ | .num _, .str _ | .num _, .arr _ | .num _, .obj _
  | .str _, .null | .str _, .bool _ | .str _, .num _ | .str _, .arr _ | .str _, .obj _
  | .arr _, .null | .arr _, .bool _ | .arr _, .num _ | .arr _, .str _ | .arr _, .obj _
  | .obj _, .null | .obj _, .bool _ | .obj _, .num _ | .obj _, .str _ | .obj _, .arr _ =>
      .isFalse (by simp)

def decEqItems : (a b : List Json) → Decidable (a = b)
  | [], [] => .isTrue rfl
  | [], _ :: _ => .isFalse (by simp)
  | _ :: _, [] => .isFalse (by simp)
  | a :: as, b :: bs =>
      match decEq a b, decEqItems as bs with
      | .isTrue h, .isTrue hs => .isTrue (by rw [h, hs])
      | .isFalse h, _ => .isFalse fun heq => h (List.cons.inj heq).1
      | _, .isFalse hs => .isFalse fun heq => hs (List.cons.inj heq).2

def decEqFields : (a b : List (String × Json)) → Decidable (a = b)
  | [], [] => .isTrue rfl
  | [], _ :: _ => .isFalse (by simp)
  | _ :: _, [] => .isFalse (by simp)
  | (k, a) :: as, (l, b) :: bs =>
      match decEq a b, decEqFields as bs with
      | .isTrue h, .isTrue hs => decidable_of_iff (k = l) (by simp [h, hs])
      | .isFalse h, _ =>
          .isFalse fun heq => h (by simpa using congrArg Prod.snd (List.cons.inj heq).1)
      | _, .isFalse hs => .isFalse fun heq => hs (List.cons.inj heq).2

end

instance : DecidableEq Json := decEq

/-- The field of an object. -/
def field? (name : String) (fields : List (String × Json)) : Option Json :=
  (fields.find? fun entry => entry.1 = name).map Prod.snd

/-- The field of a value, if it is an object that has it. -/
def get? (name : String) : Json → Option Json
  | .obj fields => field? name fields
  | _ => none

/-- The text of a string value. -/
def asStr? : Json → Option String
  | .str s => some s
  | _ => none

end Json
