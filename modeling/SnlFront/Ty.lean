/-!
# Types

A type as the analysis knows it: no names of aliases are left in it. The type `unknown` stands for
whatever could not be determined because of an error that has been reported already; it is
compatible with everything, so that one error does not cause others.

## Main definitions

* `Ty`: a type.
* `Ty.field?`: the type of a field of a record.
* `Ty.ofMembers`: the record of some members, sorted by name, of which the first of a name counts.
* `Ty.compatible`: whether values of two types may meet.
-/

namespace SnlFront

/-- A type without aliases. -/
inductive Ty
  | integer
  | char
  | unknown
  | array (base : Ty) (lower upper : Int)
  | record (fields : List (String × Ty))
deriving Repr, Inhabited

namespace Ty

/-! ## Equality -/

mutual

/-- Decide whether two types are equal. -/
def decEq : (a b : Ty) → Decidable (a = b)
  | .integer, .integer => .isTrue rfl
  | .char, .char => .isTrue rfl
  | .unknown, .unknown => .isTrue rfl
  | .array a l u, .array b m v =>
    match decEq a b, Int.instDecidableEq l m, Int.instDecidableEq u v with
    | .isTrue ha, .isTrue hl, .isTrue hu => .isTrue (by rw [ha, hl, hu])
    | .isFalse ha, _, _ => .isFalse fun h => ha (by injection h)
    | _, .isFalse hl, _ => .isFalse fun h => hl (by injection h)
    | _, _, .isFalse hu => .isFalse fun h => hu (by injection h)
  | .record fs, .record gs =>
    match decEqFields fs gs with
    | .isTrue h => .isTrue (by rw [h])
    | .isFalse h => .isFalse fun e => h (by injection e)
  | .integer, .char | .integer, .unknown | .integer, .array .. | .integer, .record _
  | .char, .integer | .char, .unknown | .char, .array .. | .char, .record _
  | .unknown, .integer | .unknown, .char | .unknown, .array .. | .unknown, .record _
  | .array .., .integer | .array .., .char | .array .., .unknown | .array .., .record _
  | .record _, .integer | .record _, .char | .record _, .unknown | .record _, .array .. =>
    .isFalse (by intro h; cases h)

/-- Decide whether two lists of fields are equal. -/
def decEqFields : (fs gs : List (String × Ty)) → Decidable (fs = gs)
  | [], [] => .isTrue rfl
  | (m, a) :: fs, (n, b) :: gs =>
    match instDecidableEqString m n, decEq a b, decEqFields fs gs with
    | .isTrue hm, .isTrue ha, .isTrue hf => .isTrue (by rw [hm, ha, hf])
    | .isFalse hm, _, _ => .isFalse fun h => hm (Prod.mk.inj (List.cons.inj h).1).1
    | _, .isFalse ha, _ => .isFalse fun h => ha (Prod.mk.inj (List.cons.inj h).1).2
    | _, _, .isFalse hf => .isFalse fun h => hf (List.cons.inj h).2
  | [], _ :: _ | _ :: _, [] => .isFalse (by intro h; cases h)

end

instance : DecidableEq Ty := decEq

/-! ## Kinds of types -/

/-- Whether nothing is known of a type. -/
def isUnknown : Ty → Bool
  | .unknown => true
  | _ => false

/-- Whether values of a type can be read, written and compared. -/
def isBase : Ty → Bool
  | .integer | .char => true
  | _ => false

/-! ## Records -/

/-- The type of a field. If a record has a field twice, the last one counts. -/
def field? (fields : List (String × Ty)) (name : String) : Option Ty := fields.reverse.lookup name

/-- Put a member into a list sorted by name, in place of one of the same name. -/
def putMember (name : String) (type : Ty) : List (String × Ty) → List (String × Ty)
  | [] => [(name, type)]
  | (other, otherType) :: members =>
    if name < other then (name, type) :: (other, otherType) :: members
    else if name = other then (name, type) :: members
    else (other, otherType) :: putMember name type members

/-- The record of some members. Members are put in from the last to the first, so that the first of
a name stays. -/
def ofMembers (members : List (String × Ty)) : Ty :=
  .record (members.foldr (fun m => putMember m.1 m.2) [])

/-! ## Compatibility -/

mutual

/-- Whether values of two types may meet. Records are compared field by field, since a field may be
unknown; other types have to be equal. -/
def compatible : Ty → Ty → Bool
  | .unknown, _ => true
  | .integer, b => b = .unknown || b = .integer
  | .char, b => b = .unknown || b = .char
  | .array base lower upper, b => b = .unknown || b = .array base lower upper
  | .record fs, .record gs => compatibleFields fs gs
  | .record _, b => b = .unknown

/-- Whether two lists of fields have the same names and compatible types. -/
def compatibleFields : List (String × Ty) → List (String × Ty) → Bool
  | [], [] => true
  | (m, a) :: fs, (n, b) :: gs => m = n && compatible a b && compatibleFields fs gs
  | [], _ :: _ | _ :: _, [] => false

end

end Ty

end SnlFront
