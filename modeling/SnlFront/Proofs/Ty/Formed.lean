import SnlFront.Checking.Types
import SnlFront.Proofs.Ty.Canonical

/-!
# Well-formed types and scopes

A type is well formed, with respect to a property of names, if it is canonical and the names of all
fields in it have the property. The types that are built from well-formed ones are well formed, and
so are their parts; a scope in which all names stand for well-formed types keeps that when
well-formed symbols are declared in it.

## Main definitions

* `Ty.Named`: the names of all fields in a type have a property.
* `Ty.Formed`, `Symbol.Formed`, `Scope.Formed`: types, symbols and scopes.

## Main statements

* `Ty.formed_ofMembers`: the record of some members.
* `Scope.Formed.declare`: declarations.
-/

namespace SnlFront

namespace Ty

mutual

/-- The names of all fields in a type have a property. -/
def Named (N : String → Prop) : Ty → Prop
  | .integer => True
  | .char => True
  | .unknown => True
  | .array base _ _ => base.Named N
  | .record fields => NamedFields N fields

/-- The names of fields, and of all fields in their types, have a property. -/
def NamedFields (N : String → Prop) : List (String × Ty) → Prop
  | [] => True
  | (name, type) :: fields => N name ∧ type.Named N ∧ NamedFields N fields

end

variable {N : String → Prop}

theorem namedFields_iff (fields : List (String × Ty)) :
    NamedFields N fields ↔ ∀ field ∈ fields, N field.1 ∧ field.2.Named N := by
  induction fields with
  | nil => simp [NamedFields]
  | cons field fields ih => simp [NamedFields, ih, and_assoc]

/-- A canonical type in which the names of all fields have a property. -/
def Formed (N : String → Prop) (τ : Ty) : Prop := τ.Canonical ∧ τ.Named N

/-- A record is well formed if its fields are sorted and each has an admissible name and a
well-formed type. -/
theorem formed_record_iff (fields : List (String × Ty)) :
    (Ty.record fields).Formed N ↔
      SortedFields fields ∧ ∀ field ∈ fields, N field.1 ∧ field.2.Formed N := by
  simp only [Formed, Canonical, canonicalFields_iff, Named, namedFields_iff]
  grind

mutual

theorem named_imp {M : String → Prop} (h : ∀ name, N name → M name) : (τ : Ty) → τ.Named N →
    τ.Named M
  | .integer, _ => trivial
  | .char, _ => trivial
  | .unknown, _ => trivial
  | .array base _ _, hnamed => named_imp h base hnamed
  | .record fields, hnamed => namedFields_imp h fields hnamed

theorem namedFields_imp {M : String → Prop} (h : ∀ name, N name → M name) :
    (fields : List (String × Ty)) → NamedFields N fields → NamedFields M fields
  | [], _ => trivial
  | (_, type) :: fields, hnamed =>
    ⟨h _ hnamed.1, named_imp h type hnamed.2.1, namedFields_imp h fields hnamed.2.2⟩

end

/-- What is known of the names may be weakened. -/
theorem Formed.imp {M : String → Prop} (h : ∀ name, N name → M name) {τ : Ty}
    (hτ : τ.Formed N) : τ.Formed M := ⟨hτ.1, named_imp h τ hτ.2⟩

theorem formed_unknown : Ty.unknown.Formed N := ⟨trivial, trivial⟩

theorem formed_integer : Ty.integer.Formed N := ⟨trivial, trivial⟩

theorem formed_char : Ty.char.Formed N := ⟨trivial, trivial⟩

/-- Arrays have no fields. -/
theorem formed_array (base : BaseType) (lower upper : Int) :
    (Ty.array base.toTy lower upper).Formed N := by
  cases base with
  | integer | char => exact ⟨rfl, trivial⟩

/-- The parts of a well-formed type are well formed: the elements of an array, -/
theorem Formed.element {base : Ty} {lower upper : Int} (h : (Ty.array base lower upper).Formed N) :
    base.Formed N := by
  refine ⟨?_, h.2⟩
  have hbase : base.isBase = true := h.1
  cases base with
  | integer | char | unknown => trivial
  | array base lower upper | record fields => cases hbase

/-- and the fields of a record. -/
theorem Formed.field {fields : List (String × Ty)} (h : (Ty.record fields).Formed N)
    {name : String} {τ : Ty} (hfield : field? fields name = some τ) : τ.Formed N := by
  obtain ⟨hsorted, hfields⟩ := (formed_record_iff fields).1 h
  exact (hfields _ ((field?_eq_some_iff hsorted name τ).1 hfield)).2

/-- Sorting the members of a record invents none. -/
theorem mem_of_mem_membersFields {members : List (String × Ty)} {entry : String × Ty}
    (h : entry ∈ membersFields members) : entry ∈ members := by
  induction members with
  | nil => exact h
  | cons member members ih =>
    rcases mem_putMember h with rfl | h
    · exact List.mem_cons_self
    · exact List.mem_cons_of_mem _ (ih h)

/-- The record of well-formed members is well formed, also if some of them have the same name. -/
theorem formed_ofMembers {members : List (String × Ty)}
    (h : ∀ member ∈ members, N member.1 ∧ member.2.Formed N) : (ofMembers members).Formed N :=
  (formed_record_iff _).2 ⟨sortedFields_membersFields members,
    fun entry hentry => h entry (mem_of_mem_membersFields hentry)⟩

end Ty

variable {N : String → Prop}

/-- A symbol with well-formed types. -/
def Symbol.Formed (N : String → Prop) : Symbol → Prop
  | .variable τ => τ.Formed N
  | .type τ => τ.Formed N
  | .procedure params => ∀ τ ∈ params, τ.Formed N

namespace Scope

/-- All names stand for symbols with well-formed types. -/
def Formed (N : String → Prop) (s : Scope) : Prop :=
  ∀ ⦃name symbol⦄, s.lookup name = some symbol → symbol.Formed N

variable {s : Scope}

theorem formed_empty : Scope.empty.Formed N := by
  intro name symbol h
  cases h

theorem Formed.enter (h : s.Formed N) : s.enter.Formed N := h

/-- A scope stays well formed if what is declared is. -/
theorem Formed.declare (h : s.Formed N) (name : String) {symbol : Symbol}
    (hsymbol : symbol.Formed N) : (s.declare name symbol).Formed N := by
  intro other found hfound
  rw [lookup_declare] at hfound
  split at hfound
  · cases hfound
    exact hsymbol
  · exact h hfound

/-- A name of a type stands for a well-formed one; any other name is as good as unknown. -/
theorem Formed.lookupType? (h : s.Formed N) (name : String) :
    ((s.lookupType? name).getD .unknown).Formed N := by
  unfold Scope.lookupType?
  split
  · next type htype => exact h htype
  · exact Ty.formed_unknown

end Scope

end SnlFront
