import SnlFront.Syntax
import SnlFront.Token

/-!
# The grammar

The productions of the language. Each nonterminal is a relation between a row of tokens and the tree
it stands for, and each production is a rule of it: the tokens of its right side in their order, and
the tree made of the trees of its parts. Lists of declarations, names and statements are recursive
on the left, chains of operands on the right. A position in a tree is that of the token which its
production designates.

Nothing here says how a row of tokens is read, or that it has only one tree.

## Main definitions

* `DerivesType`, `DerivesGroup`, `DerivesFields`: types, and groups of names with a common type.
* `DerivesExpression`, `DerivesTerm`, `DerivesFactor`, `DerivesVariable`: operands and their chains.
* `DerivesStatement`, `DerivesStatements`, `DerivesStatementList`: statements.
* `DerivesDeclarations`, `DerivesProcedure`, `DerivesProgram`: declarations and programs.
-/

namespace SnlFront.Parsing

/-- A row of tokens. -/
abbrev Tokens := List (Located Token)

/-- A semicolon that may be missing. -/
inductive OptionalSemi : Tokens → Prop
  | missing : OptionalSemi []
  | present (p : Position) : OptionalSemi [⟨p, .mark .semi⟩]

/-! ## Types -/

/-- Names with commas between them. -/
inductive DerivesNames : Tokens → List (Located String) → Prop
  | one (p : Position) (name : String) : DerivesNames [⟨p, .ident name⟩] [⟨p, name⟩]
  | more {us : Tokens} {names : List (Located String)} (p q : Position) (name : String) :
    DerivesNames us names →
    DerivesNames (us ++ [⟨p, .mark .comma⟩, ⟨q, .ident name⟩]) (names ++ [⟨q, name⟩])

/-- The type of the elements of an array. -/
inductive DerivesBase : Tokens → BaseType → Prop
  | integer (p : Position) : DerivesBase [⟨p, .keyword .integer⟩] .integer
  | char (p : Position) : DerivesBase [⟨p, .keyword .char⟩] .char

mutual

/-- A type, at its first token. -/
inductive DerivesType : Tokens → Located TypeExpr → Prop
  | integer (p : Position) : DerivesType [⟨p, .keyword .integer⟩] ⟨p, .integer⟩
  | char (p : Position) : DerivesType [⟨p, .keyword .char⟩] ⟨p, .char⟩
  | named (p : Position) (name : String) : DerivesType [⟨p, .ident name⟩] ⟨p, .named name⟩
  | array {us : Tokens} {base : BaseType} (p p₁ p₂ p₃ p₄ p₅ p₆ : Position) (lower upper : Nat) :
    DerivesBase us base →
    DerivesType ([⟨p, .keyword .array⟩, ⟨p₁, .mark .lbracket⟩, ⟨p₂, .number lower⟩,
        ⟨p₃, .mark .range⟩, ⟨p₄, .number upper⟩, ⟨p₅, .mark .rbracket⟩, ⟨p₆, .keyword .of⟩] ++ us)
      ⟨p, .array base lower upper⟩
  | record {us : Tokens} {fields : List Group} (p q : Position) :
    DerivesFields us fields →
    DerivesType ([⟨p, .keyword .record⟩] ++ us ++ [⟨q, .keyword .end⟩]) ⟨p, .record fields⟩

/-- Names with a common type, at the type. -/
inductive DerivesGroup : Tokens → Located Group → Prop
  | intro {us vs : Tokens} {type : Located TypeExpr} {names : List (Located String)} :
    DerivesType us type → DerivesNames vs names →
    DerivesGroup (us ++ vs) ⟨type.pos, type, names⟩

/-- The fields of a record, in groups that end with a semicolon. -/
inductive DerivesFields : Tokens → List Group → Prop
  | one {us : Tokens} {group : Located Group} (p : Position) :
    DerivesGroup us group → DerivesFields (us ++ [⟨p, .mark .semi⟩]) [group.value]
  | more {us vs : Tokens} {groups : List Group} {group : Located Group} (p : Position) :
    DerivesFields us groups → DerivesGroup vs group →
    DerivesFields (us ++ vs ++ [⟨p, .mark .semi⟩]) (groups ++ [group.value])

end

/-! ## Expressions -/

mutual

/-- Terms with additive signs between them. What stands to the right of a sign is located at its
first term. -/
inductive DerivesExpression : Tokens → Expression → Prop
  | last {us : Tokens} {term : Located Term} :
    DerivesTerm us term → DerivesExpression us (.last term none)
  | plus {us vs : Tokens} {term : Located Term} {right : Expression} (p : Position) :
    DerivesTerm us term → DerivesExpression vs right →
    DerivesExpression (us ++ [⟨p, .mark .plus⟩] ++ vs)
      (.chain term (some Mark.plus.text) ⟨right.left.pos, right⟩)
  | minus {us vs : Tokens} {term : Located Term} {right : Expression} (p : Position) :
    DerivesTerm us term → DerivesExpression vs right →
    DerivesExpression (us ++ [⟨p, .mark .minus⟩] ++ vs)
      (.chain term (some Mark.minus.text) ⟨right.left.pos, right⟩)

/-- Factors with multiplicative signs between them, at the first factor. -/
inductive DerivesTerm : Tokens → Located Term → Prop
  | last {us : Tokens} {factor : Located Factor} :
    DerivesFactor us factor → DerivesTerm us ⟨factor.pos, .last factor none⟩
  | times {us vs : Tokens} {factor : Located Factor} {right : Located Term} (p : Position) :
    DerivesFactor us factor → DerivesTerm vs right →
    DerivesTerm (us ++ [⟨p, .mark .times⟩] ++ vs)
      ⟨factor.pos, .chain factor (some Mark.times.text) right⟩
  | over {us vs : Tokens} {factor : Located Factor} {right : Located Term} (p : Position) :
    DerivesFactor us factor → DerivesTerm vs right →
    DerivesTerm (us ++ [⟨p, .mark .over⟩] ++ vs)
      ⟨factor.pos, .chain factor (some Mark.over.text) right⟩

/-- An operand, at its first token. -/
inductive DerivesFactor : Tokens → Located Factor → Prop
  | bracket {us : Tokens} {inner : Expression} (p q : Position) :
    DerivesExpression us inner →
    DerivesFactor ([⟨p, .mark .lparen⟩] ++ us ++ [⟨q, .mark .rparen⟩]) ⟨p, .bracket inner⟩
  | constant (p : Position) (value : Nat) :
    DerivesFactor [⟨p, .number value⟩] ⟨p, .constant value⟩
  | variable {us : Tokens} {v : Variable} :
    DerivesVariable us v → DerivesFactor us ⟨v.base.pos, .variable v⟩

/-- A variable: a name, and what is visited of it. -/
inductive DerivesVariable : Tokens → Variable → Prop
  | whole (p : Position) (name : String) : DerivesVariable [⟨p, .ident name⟩] (.whole ⟨p, name⟩)
  | field (p p₁ q : Position) (name part : String) :
    DerivesVariable [⟨p, .ident name⟩, ⟨p₁, .mark .dot⟩, ⟨q, .ident part⟩]
      (.part ⟨p, name⟩ (some ⟨q, part⟩) none)
  | element {us : Tokens} {index : Expression} (p p₁ p₂ : Position) (name : String) :
    DerivesExpression us index →
    DerivesVariable ([⟨p, .ident name⟩, ⟨p₁, .mark .lbracket⟩] ++ us ++ [⟨p₂, .mark .rbracket⟩])
      (.part ⟨p, name⟩ none (some index))
  | fieldElement {us : Tokens} {index : Expression} (p p₁ q p₂ p₃ : Position)
      (name part : String) :
    DerivesExpression us index →
    DerivesVariable ([⟨p, .ident name⟩, ⟨p₁, .mark .dot⟩, ⟨q, .ident part⟩,
        ⟨p₂, .mark .lbracket⟩] ++ us ++ [⟨p₃, .mark .rbracket⟩])
      (.part ⟨p, name⟩ (some ⟨q, part⟩) (some index))

end

/-- A comparison. -/
inductive DerivesRelation : Tokens → Relation → Prop
  | less {us vs : Tokens} {left right : Expression} (p : Position) :
    DerivesExpression us left → DerivesExpression vs right →
    DerivesRelation (us ++ [⟨p, .mark .less⟩] ++ vs) ⟨left, some Mark.less.text, right⟩
  | equal {us vs : Tokens} {left right : Expression} (p : Position) :
    DerivesExpression us left → DerivesExpression vs right →
    DerivesRelation (us ++ [⟨p, .mark .equal⟩] ++ vs) ⟨left, some Mark.equal.text, right⟩

/-- The arguments of a call. -/
inductive DerivesArguments : Tokens → List Expression → Prop
  | one {us : Tokens} {argument : Expression} :
    DerivesExpression us argument → DerivesArguments us [argument]
  | more {us vs : Tokens} {arguments : List Expression} {argument : Expression} (p : Position) :
    DerivesArguments us arguments → DerivesExpression vs argument →
    DerivesArguments (us ++ [⟨p, .mark .comma⟩] ++ vs) (arguments ++ [argument])

/-! ## Statements -/

mutual

/-- A statement. -/
inductive DerivesStatement : Tokens → Statement → Prop
  | conditional {us vs ws : Tokens} {condition : Relation} {body otherwise : List Statement}
      (p₁ p₂ p₃ p₄ : Position) :
    DerivesRelation us condition → DerivesStatementList vs body →
    DerivesStatementList ws otherwise →
    DerivesStatement ([⟨p₁, .keyword .if⟩] ++ us ++ [⟨p₂, .keyword .then⟩] ++ vs
        ++ [⟨p₃, .keyword .else⟩] ++ ws ++ [⟨p₄, .keyword .fi⟩])
      (.conditional condition body otherwise)
  | oneSided {us vs : Tokens} {condition : Relation} {body : List Statement}
      (p₁ p₂ p₃ : Position) :
    DerivesRelation us condition → DerivesStatementList vs body →
    DerivesStatement ([⟨p₁, .keyword .if⟩] ++ us ++ [⟨p₂, .keyword .then⟩] ++ vs
        ++ [⟨p₃, .keyword .fi⟩])
      (.conditional condition body [])
  | loop {us vs : Tokens} {condition : Relation} {body : List Statement} (p₁ p₂ p₃ : Position) :
    DerivesRelation us condition → DerivesStatementList vs body →
    DerivesStatement ([⟨p₁, .keyword .while⟩] ++ us ++ [⟨p₂, .keyword .do⟩] ++ vs
        ++ [⟨p₃, .keyword .endwh⟩])
      (.loop condition body)
  | input (p₁ p₂ q p₃ : Position) (name : String) :
    DerivesStatement [⟨p₁, .keyword .read⟩, ⟨p₂, .mark .lparen⟩, ⟨q, .ident name⟩,
        ⟨p₃, .mark .rparen⟩]
      (.input ⟨q, name⟩)
  | output {us : Tokens} {value : Expression} (p₁ p₂ p₃ : Position) :
    DerivesExpression us value →
    DerivesStatement ([⟨p₁, .keyword .write⟩, ⟨p₂, .mark .lparen⟩] ++ us ++ [⟨p₃, .mark .rparen⟩])
      (.output value)
  | result {us : Tokens} {value : Expression} (p₁ p₂ p₃ : Position) :
    DerivesExpression us value →
    DerivesStatement ([⟨p₁, .keyword .return⟩, ⟨p₂, .mark .lparen⟩] ++ us
        ++ [⟨p₃, .mark .rparen⟩])
      (.result value)
  | assign {us vs : Tokens} {target : Variable} {value : Expression} (p : Position) :
    DerivesVariable us target → DerivesExpression vs value →
    DerivesStatement (us ++ [⟨p, .mark .assign⟩] ++ vs) (.assign target value)
  | callPlain (p p₁ p₂ : Position) (name : String) :
    DerivesStatement [⟨p, .ident name⟩, ⟨p₁, .mark .lparen⟩, ⟨p₂, .mark .rparen⟩]
      (.call ⟨p, name, []⟩)
  | callWith {us : Tokens} {arguments : List Expression} (p p₁ p₂ : Position) (name : String) :
    DerivesArguments us arguments →
    DerivesStatement ([⟨p, .ident name⟩, ⟨p₁, .mark .lparen⟩] ++ us ++ [⟨p₂, .mark .rparen⟩])
      (.call ⟨p, name, arguments⟩)

/-- Statements with semicolons between them. -/
inductive DerivesStatements : Tokens → List Statement → Prop
  | one {us : Tokens} {statement : Statement} :
    DerivesStatement us statement → DerivesStatements us [statement]
  | more {us vs : Tokens} {statements : List Statement} {statement : Statement} (p : Position) :
    DerivesStatements us statements → DerivesStatement vs statement →
    DerivesStatements (us ++ [⟨p, .mark .semi⟩] ++ vs) (statements ++ [statement])

/-- Statements that may be missing, or end with a semicolon. -/
inductive DerivesStatementList : Tokens → List Statement → Prop
  | none : DerivesStatementList [] []
  | plain {us : Tokens} {statements : List Statement} :
    DerivesStatements us statements → DerivesStatementList us statements
  | trailing {us : Tokens} {statements : List Statement} (p : Position) :
    DerivesStatements us statements →
    DerivesStatementList (us ++ [⟨p, .mark .semi⟩]) statements

end

/-! ## Declarations -/

/-- An alias, at its name. -/
inductive DerivesAlias : Tokens → Located Alias → Prop
  | intro {us : Tokens} {base : Located TypeExpr} (p p₁ p₂ : Position) (name : String) :
    DerivesType us base →
    DerivesAlias ([⟨p, .ident name⟩, ⟨p₁, .mark .equal⟩] ++ us ++ [⟨p₂, .mark .semi⟩])
      ⟨p, name, base⟩

/-- Aliases one after the other. -/
inductive DerivesAliases : Tokens → List (Located Alias) → Prop
  | one {us : Tokens} {declaration : Located Alias} :
    DerivesAlias us declaration → DerivesAliases us [declaration]
  | more {us vs : Tokens} {declarations : List (Located Alias)} {declaration : Located Alias} :
    DerivesAliases us declarations → DerivesAlias vs declaration →
    DerivesAliases (us ++ vs) (declarations ++ [declaration])

/-- The types of a level, which may be missing. -/
inductive DerivesTypePart : Tokens → List (Located Alias) → Prop
  | none : DerivesTypePart [] []
  | some {us : Tokens} {declarations : List (Located Alias)} (p : Position) :
    DerivesAliases us declarations →
    DerivesTypePart ([⟨p, .keyword .type⟩] ++ us) declarations

/-- Groups of variables that end with a semicolon. -/
inductive DerivesVariables : Tokens → List (Located Group) → Prop
  | one {us : Tokens} {group : Located Group} (p : Position) :
    DerivesGroup us group → DerivesVariables (us ++ [⟨p, .mark .semi⟩]) [group]
  | more {us vs : Tokens} {groups : List (Located Group)} {group : Located Group} (p : Position) :
    DerivesVariables us groups → DerivesGroup vs group →
    DerivesVariables (us ++ vs ++ [⟨p, .mark .semi⟩]) (groups ++ [group])

/-- The variables of a level, which may be missing. -/
inductive DerivesVarPart : Tokens → List (Located Group) → Prop
  | none : DerivesVarPart [] []
  | some {us : Tokens} {groups : List (Located Group)} (p : Position) :
    DerivesVariables us groups → DerivesVarPart ([⟨p, .keyword .var⟩] ++ us) groups

/-- Parameters with a common type, at the word that makes them references or else at their type. -/
inductive DerivesParameter : Tokens → Located Parameter → Prop
  | byValue {us : Tokens} {group : Located Group} :
    DerivesGroup us group → DerivesParameter us ⟨group.pos, false, group.value⟩
  | byReference {us : Tokens} {group : Located Group} (p : Position) :
    DerivesGroup us group →
    DerivesParameter ([⟨p, .keyword .var⟩] ++ us) ⟨p, true, group.value⟩

/-- Parameters with semicolons between them. -/
inductive DerivesParameters : Tokens → List (Located Parameter) → Prop
  | one {us : Tokens} {param : Located Parameter} :
    DerivesParameter us param → DerivesParameters us [param]
  | more {us vs : Tokens} {params : List (Located Parameter)} {param : Located Parameter}
      (p : Position) :
    DerivesParameters us params → DerivesParameter vs param →
    DerivesParameters (us ++ [⟨p, .mark .semi⟩] ++ vs) (params ++ [param])

/-- Parameters that may be missing. -/
inductive DerivesParameterList : Tokens → List (Located Parameter) → Prop
  | none : DerivesParameterList [] []
  | some {us : Tokens} {params : List (Located Parameter)} :
    DerivesParameters us params → DerivesParameterList us params

mutual

/-- A procedure, at its name. -/
inductive DerivesProcedure : Tokens → Located Procedure → Prop
  | intro {us vs ws xs : Tokens} {params : List (Located Parameter)} {inside : Declarations}
      {body : List Statement} (p₁ p p₂ p₃ p₄ p₅ p₆ : Position) (name : String) :
    DerivesParameterList us params → DerivesDeclarations vs inside →
    DerivesStatementList ws body → OptionalSemi xs →
    DerivesProcedure ([⟨p₁, .keyword .procedure⟩, ⟨p, .ident name⟩, ⟨p₂, .mark .lparen⟩] ++ us
        ++ [⟨p₃, .mark .rparen⟩, ⟨p₄, .mark .semi⟩] ++ vs ++ [⟨p₅, .keyword .begin⟩] ++ ws
        ++ [⟨p₆, .keyword .end⟩] ++ xs)
      ⟨p, name, params, inside.types, inside.vars, inside.procedures, body⟩

/-- Procedures one after the other. -/
inductive DerivesProcedures : Tokens → List (Located Procedure) → Prop
  | none : DerivesProcedures [] []
  | more {us vs : Tokens} {procedures : List (Located Procedure)}
      {procedure : Located Procedure} :
    DerivesProcedures us procedures → DerivesProcedure vs procedure →
    DerivesProcedures (us ++ vs) (procedures ++ [procedure])

/-- The declarations of a level. -/
inductive DerivesDeclarations : Tokens → Declarations → Prop
  | intro {us vs ws : Tokens} {types : List (Located Alias)} {vars : List (Located Group)}
      {procedures : List (Located Procedure)} :
    DerivesTypePart us types → DerivesVarPart vs vars → DerivesProcedures ws procedures →
    DerivesDeclarations (us ++ vs ++ ws) ⟨types, vars, procedures⟩

end

/-- A program, at its first token. -/
inductive DerivesProgram : Tokens → Located Program → Prop
  | intro {us vs ws : Tokens} {inside : Declarations} {body : List Statement}
      (p p₁ p₂ p₃ p₄ : Position) (name : String) :
    OptionalSemi us → DerivesDeclarations vs inside → DerivesStatementList ws body →
    DerivesProgram ([⟨p, .keyword .program⟩, ⟨p₁, .ident name⟩] ++ us ++ vs
        ++ [⟨p₂, .keyword .begin⟩] ++ ws ++ [⟨p₃, .keyword .end⟩, ⟨p₄, .mark .dot⟩])
      ⟨p, name, inside, body⟩

end SnlFront.Parsing
