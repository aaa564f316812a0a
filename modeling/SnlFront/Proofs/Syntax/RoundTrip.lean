import SnlFront.Syntax.Decoding

/-!
# Trees that are shown can be read back

The data of a tree name the kind of every node and hold all its parts, so that reading them gives
the tree again.

## Main statements

* `Expression.ofDatum?_toDatum`, `Term.ofDatum?_toDatum`, `Factor.ofDatum?_toDatum`: expressions.
* `Statement.ofDatum?_toDatum`: statements.
* `Program.ofDatum?_toDatum`: whole programs, by way of their declarations.
-/

namespace SnlFront

/-! ## Simple parts -/

namespace Datum

/-- What can be read back can be read back behind a position. -/
theorem toLocated?_located {α : Type} {decode : Datum → Option α} {d : Datum} {a : α}
    (h : decode d = some a) (p : Position) : (located p d).toLocated? decode = some ⟨p, a⟩ := by
  simp [located, toLocated?, h]

/-- Lists are read back item by item, whatever the items are. -/
theorem toList?_map {α : Type} {decode : Datum → Option α} {encode : α → Datum}
    (h : ∀ a, decode (encode a) = some a) (xs : List α) :
    (Datum.list (xs.map encode)).toList? decode = some xs := by
  rw [toList?]
  induction xs with
  | nil => rfl
  | cons x xs ih => simp [List.mapM_cons, h, ih]

theorem toName?_ofName (name : Located String) : (ofName name).toName? = some name := rfl

/-- Names are shown as located texts, so a row of them is read back like any list. -/
theorem toNames?_ofNames (names : List (Located String)) :
    (ofNames names).toList? toName? = some names :=
  toList?_map toName?_ofName names

/-- A name may be left out. No name is shown as nothing. -/
theorem toOptional?_ofName (name : Option (Located String)) :
    (optional ofName name).toOptional? toName? = some name := by
  cases name <;> rfl

/-- A sign may be left out, too. -/
theorem toText?_optional (sign : Option String) : (optional .text sign).toText? = sign := by
  cases sign <;> rfl

theorem toList?_ofLocated {α : Type} {decode : Datum → Option α} {encode : α → Datum}
    (h : ∀ a, decode (encode a) = some a) (xs : List (Located α)) :
    (ofLocated encode xs).toList? (toLocated? decode) = some xs :=
  toList?_map (fun x => toLocated?_located (h x.value) x.pos) xs

end Datum

open Datum

theorem BaseType.ofText?_text (base : BaseType) : ofText? base.text = some base := by
  cases base <;> rfl

/-! ## Types -/

mutual

/-- Type expressions are read back, at any depth of records. -/
theorem TypeExpr.ofDatum?_toDatum : (e : TypeExpr) → TypeExpr.ofDatum? e.toDatum = some e
  | .integer => by rw [TypeExpr.toDatum, TypeExpr.ofDatum?]
  | .char => by rw [TypeExpr.toDatum, TypeExpr.ofDatum?]
  | .array base lower upper => by
    rw [TypeExpr.toDatum, TypeExpr.ofDatum?, BaseType.ofText?_text]
    rfl
  | .record fields => by
    rw [TypeExpr.toDatum, TypeExpr.ofDatum?, Group.ofData?_listToData fields]
    rfl
  | .named name => by rw [TypeExpr.toDatum, TypeExpr.ofDatum?]
  | .hole => by rw [TypeExpr.toDatum, TypeExpr.ofDatum?]

theorem Group.ofDatum?_toDatum : (group : Group) → Group.ofDatum? group.toDatum = some group
  | ⟨⟨pos, type⟩, names⟩ => by
    rw [Group.toDatum, located, Group.ofDatum?, TypeExpr.ofDatum?_toDatum type, toNames?_ofNames]
    rfl

theorem Group.ofData?_listToData :
    (groups : List Group) → Group.ofData? (Group.listToData groups) = some groups
  | [] => by rw [Group.listToData, Group.ofData?]
  | group :: groups => by
    rw [Group.listToData, Group.ofData?, Group.ofDatum?_toDatum group,
      Group.ofData?_listToData groups]
    rfl

end

/-! ## Expressions -/

/-- An index that is shown is not taken for one that is left out. -/
theorem Expression.toDatum_ne_null (e : Expression) : e.toDatum ≠ .null := by
  obtain ⟨⟨pos, left⟩, sign⟩ | ⟨⟨pos, left⟩, sign, ⟨rightPos, right⟩⟩ := e <;>
    simp [Expression.toDatum]

mutual

/-- Expressions are read back. What stands on the right tells whether the chain goes on. -/
theorem Expression.ofDatum?_toDatum : (e : Expression) → Expression.ofDatum? e.toDatum = some e
  | .last ⟨pos, left⟩ sign => by
    rw [Expression.toDatum, located, Expression.ofDatum?, Term.ofDatum?_toDatum left,
      toText?_optional]
    rfl
  | .chain ⟨pos, left⟩ sign ⟨rightPos, right⟩ => by
    rw [Expression.toDatum, located, located, Expression.ofDatum?, Term.ofDatum?_toDatum left,
      Expression.ofDatum?_toDatum right, toText?_optional]
    rfl

/-- Terms are read back like expressions, one level further in. -/
theorem Term.ofDatum?_toDatum : (t : Term) → Term.ofDatum? t.toDatum = some t
  | .last ⟨pos, left⟩ sign => by
    rw [Term.toDatum, located, Term.ofDatum?, Factor.ofDatum?_toDatum left, toText?_optional]
    rfl
  | .chain ⟨pos, left⟩ sign ⟨rightPos, right⟩ => by
    rw [Term.toDatum, located, located, Term.ofDatum?, Factor.ofDatum?_toDatum left,
      Term.ofDatum?_toDatum right, toText?_optional]
    rfl

/-- Factors are read back. A hole is shown as a node without fields. -/
theorem Factor.ofDatum?_toDatum : (f : Factor) → Factor.ofDatum? f.toDatum = some f
  | .bracket inner => by
    rw [Factor.toDatum, Factor.ofDatum?, Expression.ofDatum?_toDatum inner]
    rfl
  | .constant value => by rw [Factor.toDatum, Factor.ofDatum?]
  | .variable v => by
    rw [Factor.toDatum, Factor.ofDatum?, Variable.ofDatum?_toDatum v]
    rfl
  | .hole => by rw [Factor.toDatum, Factor.ofDatum?]

/-- Variables are read back, with the field and the index that they may have. -/
theorem Variable.ofDatum?_toDatum : (v : Variable) → Variable.ofDatum? v.toDatum = some v
  | .whole base => by
    rw [Variable.toDatum, Variable.ofDatum?, toName?_ofName]
    rfl
  | .part base field none => by
    rw [Variable.toDatum, Variable.ofDatum?, toName?_ofName, toOptional?_ofName]
    rfl
  | .part base field (some index) => by
    rw [Variable.toDatum, Variable.ofDatum?, toName?_ofName, toOptional?_ofName,
      Expression.ofDatum?_toDatum index]
    · rfl
    · exact index.toDatum_ne_null

end

/-! ## Statements -/

theorem Relation.ofDatum?_toDatum (r : Relation) : Relation.ofDatum? r.toDatum = some r := by
  rw [Relation.toDatum, Relation.ofDatum?, Expression.ofDatum?_toDatum,
    Expression.ofDatum?_toDatum, toText?_optional]
  rfl

theorem Call.ofDatum?_toDatum (c : Call) : Call.ofDatum? c.toDatum = some c := by
  rw [Call.toDatum, Call.ofDatum?, toList?_map Expression.ofDatum?_toDatum]
  rfl

mutual

/-- Statements are read back, at any depth of branches and loops. -/
theorem Statement.ofDatum?_toDatum : (s : Statement) → Statement.ofDatum? s.toDatum = some s
  | .conditional condition body otherwise => by
    rw [Statement.toDatum, Statement.ofDatum?, Relation.ofDatum?_toDatum,
      Statement.ofData?_listToData body, Statement.ofData?_listToData otherwise]
    rfl
  | .loop condition body => by
    rw [Statement.toDatum, Statement.ofDatum?, Relation.ofDatum?_toDatum,
      Statement.ofData?_listToData body]
    rfl
  | .input name => by
    rw [Statement.toDatum, Statement.ofDatum?, toName?_ofName]
    rfl
  | .output value => by
    rw [Statement.toDatum, Statement.ofDatum?, Expression.ofDatum?_toDatum]
    rfl
  | .result value => by
    rw [Statement.toDatum, Statement.ofDatum?, Expression.ofDatum?_toDatum]
    rfl
  | .assign target value => by
    rw [Statement.toDatum, Statement.ofDatum?, Variable.ofDatum?_toDatum,
      Expression.ofDatum?_toDatum]
    rfl
  | .call ⟨pos, called⟩ => by
    rw [Statement.toDatum, Statement.ofDatum?, toLocated?_located called.ofDatum?_toDatum]
    rfl
  | .hole => by rw [Statement.toDatum, Statement.ofDatum?]

/-- Rows of statements are lists of their own, since statements hold them. -/
theorem Statement.ofData?_listToData : (statements : List Statement) →
    Statement.ofData? (Statement.listToData statements) = some statements
  | [] => by rw [Statement.listToData, Statement.ofData?]
  | statement :: statements => by
    rw [Statement.listToData, Statement.ofData?, Statement.ofDatum?_toDatum statement,
      Statement.ofData?_listToData statements]
    rfl

end

/-! ## Declarations -/

theorem Alias.ofDatum?_toDatum (a : Alias) : Alias.ofDatum? a.toDatum = some a := by
  rw [Alias.toDatum, Alias.ofDatum?, toLocated?_located a.base.value.ofDatum?_toDatum]
  rfl

theorem Parameter.ofDatum?_toDatum (p : Parameter) : Parameter.ofDatum? p.toDatum = some p := by
  rw [Parameter.toDatum, Parameter.ofDatum?, Group.ofDatum?_toDatum]
  rfl

mutual

/-- Procedures are read back, with those that are declared inside them. -/
theorem Procedure.ofDatum?_toDatum : (p : Procedure) → Procedure.ofDatum? p.toDatum = some p
  | ⟨name, params, types, vars, procedures, body⟩ => by
    rw [Procedure.toDatum, Declarations.assemble, Procedure.ofDatum?,
      toList?_ofLocated Parameter.ofDatum?_toDatum, toList?_ofLocated Alias.ofDatum?_toDatum,
      toList?_ofLocated Group.ofDatum?_toDatum, Procedure.ofData?_listToData procedures,
      Statement.ofData?_listToData]
    rfl

theorem Procedure.ofData?_listToData : (procedures : List (Located Procedure)) →
    Procedure.ofData? (Procedure.listToData procedures) = some procedures
  | [] => by rw [Procedure.listToData, Procedure.ofData?]
  | ⟨pos, procedure⟩ :: procedures => by
    rw [Procedure.listToData, located, Procedure.ofData?, Procedure.ofDatum?_toDatum procedure,
      Procedure.ofData?_listToData procedures]
    rfl

end

/-- The three parts of a level are read back separately. -/
theorem Declarations.ofDatum?_toDatum (d : Declarations) :
    Declarations.ofDatum? d.toDatum = some d := by
  rw [Declarations.toDatum, Declarations.assemble, Declarations.ofDatum?,
    toList?_ofLocated Alias.ofDatum?_toDatum, toList?_ofLocated Group.ofDatum?_toDatum,
    Procedure.ofData?_listToData]
  rfl

/-- Whole programs are read back. -/
theorem Program.ofDatum?_toDatum (p : Program) : Program.ofDatum? p.toDatum = some p := by
  rw [Program.toDatum, Program.ofDatum?, Declarations.ofDatum?_toDatum,
    Statement.ofData?_listToData]
  rfl

end SnlFront
