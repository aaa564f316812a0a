import SnlFront.Ty

/-!
# Signatures

The signature of a type is how it is written in a message. A record lists its fields grouped by
type: the groups in the order of the signatures of their types, and the names within a group in
their own order. Texts are ordered by code points.

## Main definitions

* `Ty.signature`: how a type is written.
* `Ty.joinMembers`: the inside of a record's signature.
-/

namespace SnlFront.Ty

/-- The order of the fields in a signature: by the signature of the type, then by name. -/
def memberLE (a b : String × String) : Bool :=
  a.1 < b.1 || (a.1 == b.1 && a.2 ≤ b.2)

/-- Put a member into a list in order, before the first that is not smaller. -/
def insertMember (m : String × String) : List (String × String) → List (String × String)
  | [] => [m]
  | n :: ms => if memberLE m n then m :: n :: ms else n :: insertMember m ms

/-- Put members in order. -/
def sortMembers (ms : List (String × String)) : List (String × String) :=
  ms.foldr insertMember []

theorem insertMember_perm (m : String × String) (ms : List (String × String)) :
    (insertMember m ms).Perm (m :: ms) := by
  induction ms with
  | nil => exact .refl _
  | cons n ms ih =>
    rw [insertMember]
    split
    · exact .refl _
    · exact (ih.cons n).trans (.swap m n ms)

/-- Putting members in order loses none and adds none. -/
theorem sortMembers_perm (ms : List (String × String)) : (sortMembers ms).Perm ms := by
  induction ms with
  | nil => exact .refl _
  | cons m ms ih => exact (insertMember_perm m (sortMembers ms)).trans (ih.cons m)

/-- Put neighbours with the same signature together: each group has a signature and names. -/
def groupMembers : List (String × String) → List (String × List String)
  | [] => []
  | (signature, name) :: members =>
    match groupMembers members with
    | (next, names) :: groups =>
      if signature = next then (next, name :: names) :: groups
      else (signature, [name]) :: (next, names) :: groups
    | [] => [(signature, [name])]

/-- The inside of a record's signature, from the signatures and names of its fields. -/
def joinMembers (members : List (String × String)) : String :=
  ";".intercalate <| (groupMembers (sortMembers members)).map fun group =>
    ",".intercalate group.2 ++ ":" ++ group.1

mutual

/-- How a type is written in a message. -/
def signature : Ty → String
  | .integer => "integer"
  | .char => "char"
  | .unknown => "unknown"
  | .array base lower upper =>
    "[" ++ toString lower ++ ".." ++ toString upper ++ ";" ++ base.signature ++ "]"
  | .record fields => "\x7b" ++ joinMembers (memberSignatures fields) ++ "\x7d"

/-- The fields of a record, each by the signature of its type and its name. -/
def memberSignatures : List (String × Ty) → List (String × String)
  | [] => []
  | (name, type) :: fields => (type.signature, name) :: memberSignatures fields

end

example : (Ty.record [("b", .char), ("c", .integer), ("a", .char)]).signature
    = "\x7ba,b:char;c:integer\x7d" := by decide +kernel

end SnlFront.Ty
