import SnlFront.Syntax

/-!
# Trees without holes

A tree that was handed over by a caller may have holes; a tree that was read from a text has none.
Whether a tree has a hole can be decided by going through it.

## Main definitions

* `TypeExpr.holeFree`, `Expression.holeFree`, `Statement.holeFree`, `Procedure.holeFree`,
  `Program.holeFree`: no type, factor or statement inside is a hole.
-/

namespace SnlFront

mutual

/-- No type inside a type expression is a hole. -/
def TypeExpr.holeFree : TypeExpr → Bool
  | .integer => true
  | .char => true
  | .array _ _ _ => true
  | .record fields => Group.allHoleFree fields
  | .named _ => true
  | .hole => false

/-- No type of a field is a hole. -/
def Group.allHoleFree : List Group → Bool
  | [] => true
  | ⟨⟨_, type⟩, _⟩ :: groups => type.holeFree && Group.allHoleFree groups

end

mutual

/-- No operand of an expression is a hole. -/
def Expression.holeFree : Expression → Bool
  | .last ⟨_, left⟩ _ => left.holeFree
  | .chain ⟨_, left⟩ _ ⟨_, right⟩ => left.holeFree && right.holeFree

/-- No operand of a term is a hole. -/
def Term.holeFree : Term → Bool
  | .last ⟨_, left⟩ _ => left.holeFree
  | .chain ⟨_, left⟩ _ ⟨_, right⟩ => left.holeFree && right.holeFree

/-- A factor is no hole and has none inside. -/
def Factor.holeFree : Factor → Bool
  | .bracket inner => inner.holeFree
  | .constant _ => true
  | .variable v => v.holeFree
  | .hole => false

/-- The index of a variable, if there is one, has no hole. -/
def Variable.holeFree : Variable → Bool
  | .whole _ => true
  | .part _ _ none => true
  | .part _ _ (some index) => index.holeFree

end

/-- Neither side of a comparison has a hole. -/
def Relation.holeFree (r : Relation) : Bool := r.left.holeFree && r.right.holeFree

/-- No argument of a call has a hole. -/
def Call.holeFree (call : Call) : Bool := call.arguments.all Expression.holeFree

mutual

/-- A statement is no hole and has none inside. -/
def Statement.holeFree : Statement → Bool
  | .conditional condition body otherwise =>
    condition.holeFree && Statement.allHoleFree body && Statement.allHoleFree otherwise
  | .loop condition body => condition.holeFree && Statement.allHoleFree body
  | .input _ => true
  | .output value => value.holeFree
  | .result value => value.holeFree
  | .assign target value => target.holeFree && value.holeFree
  | .call called => called.value.holeFree
  | .hole => false

/-- No statement of a list is or has a hole. -/
def Statement.allHoleFree : List Statement → Bool
  | [] => true
  | statement :: statements => statement.holeFree && Statement.allHoleFree statements

end

/-- No alias stands for a type with a hole. -/
def aliasesHoleFree (types : List (Located Alias)) : Bool :=
  types.all fun declaration => declaration.value.base.value.holeFree

/-- No group of variables has a type with a hole. -/
def variablesHoleFree (vars : List (Located Group)) : Bool :=
  vars.all fun group => group.value.type.value.holeFree

/-- No group of parameters has a type with a hole. -/
def parametersHoleFree (params : List (Located Parameter)) : Bool :=
  params.all fun param => param.value.group.type.value.holeFree

mutual

/-- Neither the declarations nor the body of a procedure have a hole. -/
def Procedure.holeFree : Procedure → Bool
  | ⟨_, params, types, vars, procedures, body⟩ =>
    parametersHoleFree params && aliasesHoleFree types && variablesHoleFree vars
      && Procedure.allHoleFree procedures && Statement.allHoleFree body

/-- No procedure of a list has a hole. -/
def Procedure.allHoleFree : List (Located Procedure) → Bool
  | [] => true
  | ⟨_, procedure⟩ :: procedures => procedure.holeFree && Procedure.allHoleFree procedures

end

/-- Neither the declarations nor the body of a program have a hole. -/
def Program.holeFree (p : Program) : Bool :=
  aliasesHoleFree p.declarations.types && variablesHoleFree p.declarations.vars
    && Procedure.allHoleFree p.declarations.procedures && Statement.allHoleFree p.body

end SnlFront
