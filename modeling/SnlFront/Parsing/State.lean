import SnlFront.Parsing.Place

/-!
# Reading a program token by token

A state is an unfinished program together with what was read last, so it determines which tokens
may come next. `State.push` adds one token or refuses it. No state is a dead end: whatever has been
read can be completed to a program, and a token is refused only if no program continues with it.

The grammar, with brackets for optional parts and an asterisk for repetition:

* program: `PROGRAM` name [`;`] declarations `BEGIN` statements `END` `.`
* declarations: [`TYPE` alias alias*] [`VAR` variables variables*] procedure*
* alias: name `=` type `;`
* variables, fields: type name (`,` name)* `;`
* procedure: `PROCEDURE` name `(` [parameter (`;` parameter)*] `)` `;` declarations `BEGIN`
  statements `END` [`;`]
* parameter: [`VAR`] type name (`,` name)*
* type: `INTEGER`, `CHAR`, a name, `ARRAY` `[` number `..` number `]` `OF` base type, or
  `RECORD` fields fields* `END`
* statements: nothing, or statement (`;` statement)* [`;`]

## Main definitions

* `State`: an unfinished program.
* `State.push`: add a token, or refuse it.
* `State.program?`: the program, once it is complete.
-/

namespace SnlFront.Parsing

/-- What has been read of the declarations of a level, as far as it limits what may follow. -/
inductive Stage
  /-- Just behind the name of the program: a semicolon may follow. -/
  | named
  /-- Before the first declaration. -/
  | opened
  /-- Behind the word that opens the types: one must follow. -/
  | typesOpened
  | types
  /-- Behind the word that opens the variables: one group must follow. -/
  | varsOpened
  | vars
  /-- Just behind a procedure: a semicolon may follow. -/
  | procedureEnded
  | procedures
deriving DecidableEq, Repr

/-- What has been read of an array type. -/
inductive ArrayPart
  | word
  | bracket
  | lower (lower : Nat)
  | range (lower : Nat)
  | upper (lower upper : Nat)
  | closed (lower upper : Nat)
  | element (lower upper : Nat)
deriving DecidableEq, Repr

/-- An unfinished program. -/
inductive State
  /-- Nothing has been read. -/
  | empty
  /-- Behind the word `program`. -/
  | programWord (start : Position)
  | declaring (stage : Stage) (outline : Outline)
  /-- Behind the name of an alias. -/
  | aliasName (name : Located String) (outline : Outline)
  /-- Behind the type of an alias. -/
  | aliasBase (name : Located String) (base : Located TypeExpr) (outline : Outline)
  /-- Where a type must follow. -/
  | typeDue (place : TypePlace)
  | array (start : Position) (part : ArrayPart) (place : TypePlace)
  /-- Behind a group of fields. -/
  | fields (start : Position) (before : List Group) (place : TypePlace)
  /-- Where a name must follow, after some names of a group. -/
  | nameDue (type : Located TypeExpr) (before : List (Located String)) (place : GroupPlace)
  /-- Behind a name of a group. -/
  | names (type : Located TypeExpr) (before : List (Located String)) (place : GroupPlace)
  /-- Behind the word `procedure`. -/
  | procedureWord (outer : Outline)
  | procedureName (name : Located String) (outer : Outline)
  /-- Behind the opening bracket of the parameters. -/
  | paramsOpened (name : Located String) (outer : Outline)
  /-- Where a parameter must follow, after some others. -/
  | paramDue (before : List (Located Parameter)) (name : Located String) (outer : Outline)
  /-- Behind the closing bracket of the parameters. -/
  | paramsClosed (params : List (Located Parameter)) (name : Located String) (outer : Outline)
  /-- Where a statement may follow. -/
  | statements (place : StatementPlace)
  /-- Behind a statement. -/
  | statementEnded (place : StatementPlace)
  /-- Behind the word `read`. -/
  | inputWord (place : StatementPlace)
  /-- Behind the opening bracket of `read`. -/
  | inputOpened (place : StatementPlace)
  /-- Behind the name in `read`. -/
  | inputName (name : Located String) (place : StatementPlace)
  /-- Behind the word `write` or `return`. -/
  | emissionWord (emission : Emission) (place : StatementPlace)
  /-- Behind the opening bracket of a call. -/
  | callOpened (procedure : Located String) (place : StatementPlace)
  /-- Behind the variable that is assigned to. -/
  | targetEnded (target : Variable) (place : StatementPlace)
  /-- Where an operand must follow. -/
  | operandDue (place : OperandPlace)
  | operandEnded (factor : Located Factor) (place : OperandPlace)
  /-- Behind a name that is, or starts, a variable. -/
  | base (start : Located String) (place : VariablePlace)
  /-- Behind the dot of a variable. -/
  | fieldDue (start : Located String) (place : VariablePlace)
  | field (start : Located String) (part : Located String) (place : VariablePlace)
  /-- Behind the last `end`. -/
  | bodyEnded (program : Located Program)
  | complete (program : Located Program)

/-! ## Finishing a node -/

/-- The state behind a type. -/
def TypePlace.close (type : Located TypeExpr) : TypePlace → State
  | .alias name outline => .aliasBase name type outline
  | .group place => .nameDue type [] place

/-- Parameters at the position of the word that makes them references, or of their type. -/
def parameter (reference : Option Position) (group : Group) : Located Parameter :=
  match reference with
  | some start => ⟨start, ⟨true, group⟩⟩
  | none => ⟨group.type.pos, ⟨false, group⟩⟩

/-- The state behind a group of names, if the mark behind its last name ends the group. -/
def GroupPlace.close (group : Group) (mark : Mark) : GroupPlace → Option State
  | .vars outline =>
    match mark with
    | .semi => some (.declaring .vars (outline.addVariables ⟨group.type.pos, group⟩))
    | _ => none
  | .fields start before place =>
    match mark with
    | .semi => some (.fields start (before ++ [group]) place)
    | _ => none
  | .params reference before procedure outer =>
    match mark with
    | .semi => some (.paramDue (before ++ [parameter reference group]) procedure outer)
    | .rparen => some (.paramsClosed (before ++ [parameter reference group]) procedure outer)
    | _ => none

/-- The state behind a variable. -/
def VariablePlace.close (v : Variable) : VariablePlace → State
  | .operand place => .operandEnded ⟨v.base.pos, .variable v⟩ place
  | .target place => .targetEnded v place

/-- The state behind the body of a program or procedure. -/
def Outline.close (body : List Statement) (o : Outline) : State :=
  match o.head with
  | .program start name => .bodyEnded ⟨start, name, o.declarations, body⟩
  | .procedure name params outer =>
    .declaring .procedureEnded
      (outer.addProcedure
        ⟨name.pos, name.value, params, o.types, o.vars, o.procedures, body⟩)

/-- The state behind a list of statements, if the word behind it ends the list. -/
def BlockPlace.close (statements : List Statement) (word : Keyword) : BlockPlace → Option State
  | .body outline =>
    match word with
    | .end => some (outline.close statements)
    | _ => none
  | .thenBranch condition place =>
    match word with
    | .else => some (.statements (.first (.elseBranch condition statements place)))
    | .fi => some (.statementEnded (place.add (.conditional condition statements [])))
    | _ => none
  | .elseBranch condition chosen place =>
    match word with
    | .fi => some (.statementEnded (place.add (.conditional condition chosen statements)))
    | _ => none
  | .loopBody condition place =>
    match word with
    | .endwh => some (.statementEnded (place.add (.loop condition statements)))
    | _ => none

/-- The statement of a value in brackets. -/
def Emission.statement (value : Expression) : Emission → Statement
  | .output => .output value
  | .result => .result value

/-- The block behind a comparison, if the word behind it opens the block. -/
def Guarded.open (condition : Relation) (place : StatementPlace) (word : Keyword) :
    Guarded → Option BlockPlace
  | .conditional =>
    match word with
    | .then => some (.thenBranch condition place)
    | _ => none
  | .loop =>
    match word with
    | .do => some (.loopBody condition place)
    | _ => none

/-! ## What a token starts or ends -/

/-- A token where a type must start. -/
def startType (place : TypePlace) (t : Located Token) : Option State :=
  match t.value with
  | .keyword .integer => some (place.close ⟨t.pos, .integer⟩)
  | .keyword .char => some (place.close ⟨t.pos, .char⟩)
  | .ident name => some (place.close ⟨t.pos, .named name⟩)
  | .keyword .array => some (.array t.pos .word place)
  | .keyword .record => some (.typeDue (.group (.fields t.pos [] place)))
  | _ => none

/-- A token inside an array type. -/
def continueArray (start : Position) (place : TypePlace) :
    ArrayPart → Token → Option State
  | .word, .mark .lbracket => some (.array start .bracket place)
  | .bracket, .number lower => some (.array start (.lower lower) place)
  | .lower lower, .mark .range => some (.array start (.range lower) place)
  | .range lower, .number upper => some (.array start (.upper lower upper) place)
  | .upper lower upper, .mark .rbracket => some (.array start (.closed lower upper) place)
  | .closed lower upper, .keyword .of => some (.array start (.element lower upper) place)
  | .element lower upper, .keyword .integer =>
    some (place.close ⟨start, .array .integer lower upper⟩)
  | .element lower upper, .keyword .char => some (place.close ⟨start, .array .char lower upper⟩)
  | _, _ => none

/-- A token where a parameter must start. -/
def startParameter (before : List (Located Parameter)) (name : Located String) (outer : Outline)
    (t : Located Token) : Option State :=
  match t.value with
  | .keyword .var => some (.typeDue (.group (.params (some t.pos) before name outer)))
  | _ => startType (.group (.params none before name outer)) t

/-- A token where procedures or the body may start. -/
def startProcedureOrBody (outline : Outline) : Token → Option State
  | .keyword .procedure => some (.procedureWord outline)
  | .keyword .begin => some (.statements (.first (.body outline)))
  | _ => none

/-- A token among the declarations of a level. -/
def declare (outline : Outline) (t : Located Token) : Stage → Option State
  | .named =>
    match t.value with
    | .mark .semi => some (.declaring .opened outline)
    | _ => declareFirst
  | .opened => declareFirst
  | .typesOpened =>
    match t.value with
    | .ident name => some (.aliasName ⟨t.pos, name⟩ outline)
    | _ => none
  | .types =>
    match t.value with
    | .ident name => some (.aliasName ⟨t.pos, name⟩ outline)
    | .keyword .var => some (.declaring .varsOpened outline)
    | _ => startProcedureOrBody outline t.value
  | .varsOpened => startType (.group (.vars outline)) t
  | .vars =>
    (startType (.group (.vars outline)) t).or (startProcedureOrBody outline t.value)
  | .procedureEnded =>
    match t.value with
    | .mark .semi => some (.declaring .procedures outline)
    | _ => startProcedureOrBody outline t.value
  | .procedures => startProcedureOrBody outline t.value
where
  /-- A token before the first declaration. -/
  declareFirst : Option State :=
    match t.value with
    | .keyword .type => some (.declaring .typesOpened outline)
    | .keyword .var => some (.declaring .varsOpened outline)
    | _ => startProcedureOrBody outline t.value

/-- A token where a statement may start. -/
def startStatement (place : StatementPlace) (t : Located Token) : Option State :=
  match t.value with
  | .ident name => some (.base ⟨t.pos, name⟩ (.target place))
  | .keyword .if => some (.operandDue (.first (.relationLeft .conditional place)))
  | .keyword .while => some (.operandDue (.first (.relationLeft .loop place)))
  | .keyword .read => some (.inputWord place)
  | .keyword .write => some (.emissionWord .output place)
  | .keyword .return => some (.emissionWord .result place)
  | _ => none

/-- A token that may end a list of statements. -/
def endStatements (place : StatementPlace) : Token → Option State
  | .keyword word => place.block.close place.before word
  | _ => none

/-- A token behind a statement. -/
def afterStatement (place : StatementPlace) (t : Token) : Option State :=
  match t with
  | .mark .semi => some (.statements place)
  | _ => endStatements place t

/-- A token where an operand must start. -/
def startOperand (place : OperandPlace) (t : Located Token) : Option State :=
  match t.value with
  | .mark .lparen => some (.operandDue (.first (.bracket t.pos place)))
  | .number value => some (.operandEnded ⟨t.pos, .constant value⟩ place)
  | .ident name => some (.base ⟨t.pos, name⟩ (.operand place))
  | _ => none

/-- A token behind an expression. -/
def ExpressionPlace.close (e : Expression) (t : Token) : ExpressionPlace → Option State
  | .bracket start place =>
    match t with
    | .mark .rparen => some (.operandEnded ⟨start, .bracket e⟩ place)
    | _ => none
  | .index base field place =>
    match t with
    | .mark .rbracket => some (place.close (.part base field (some e)))
    | _ => none
  | .relationLeft guarded place =>
    match t with
    | .mark .less => some (.operandDue (.first (.relationRight e .less guarded place)))
    | .mark .equal => some (.operandDue (.first (.relationRight e .equal guarded place)))
    | _ => none
  | .relationRight left sign guarded place =>
    match t with
    | .keyword word => (guarded.open ⟨left, some sign.text, e⟩ place word).map fun block =>
        .statements (.first block)
    | _ => none
  | .emitted emission place =>
    match t with
    | .mark .rparen => some (.statementEnded (place.add (emission.statement e)))
    | _ => none
  | .assigned target place => afterStatement (place.add (.assign target e)) t
  | .argument procedure before place =>
    match t with
    | .mark .comma => some (.operandDue (.first (.argument procedure (before ++ [e]) place)))
    | .mark .rparen => some (.statementEnded (place.add
        (.call ⟨procedure.pos, ⟨procedure.value, before ++ [e]⟩⟩)))
    | _ => none

/-- A token behind an operand. -/
def afterOperand (factor : Located Factor) (place : OperandPlace) (t : Token) : Option State :=
  match t with
  | .mark .times => some (.operandDue (place.addFactor factor .times))
  | .mark .over => some (.operandDue (place.addFactor factor .over))
  | .mark .plus => some (.operandDue (place.addTerm factor .plus))
  | .mark .minus => some (.operandDue (place.addTerm factor .minus))
  | _ => place.expression.close (place.whole factor) t

/-- A token behind a variable that can have no further part. -/
def afterVariable (v : Variable) (place : VariablePlace) (t : Token) : Option State :=
  match place with
  | .operand place => afterOperand ⟨v.base.pos, .variable v⟩ place t
  | .target place =>
    match t with
    | .mark .assign => some (.operandDue (.first (.assigned v place)))
    | _ => none

/-- A token behind a name that is, or starts, a variable. In front of a statement the name may also
be that of a procedure. -/
def afterBase (base : Located String) (place : VariablePlace) (t : Token) : Option State :=
  match t with
  | .mark .dot => some (.fieldDue base place)
  | .mark .lbracket => some (.operandDue (.first (.index base none place)))
  | .mark .lparen =>
    match place with
    | .operand _ => none
    | .target place => some (.callOpened base place)
  | _ => afterVariable (.whole base) place t

/-- A token behind a field. -/
def afterField (base field : Located String) (place : VariablePlace) (t : Token) :
    Option State :=
  match t with
  | .mark .lbracket => some (.operandDue (.first (.index base (some field) place)))
  | _ => afterVariable (.part base (some field) none) place t

namespace State

/-- Add a token to an unfinished program, unless no program continues with it. -/
def push (t : Located Token) : State → Option State
  | .empty =>
    match t.value with
    | .keyword .program => some (.programWord t.pos)
    | _ => none
  | .programWord start =>
    match t.value with
    | .ident name => some (.declaring .named (.start (.program start name)))
    | _ => none
  | .declaring stage outline => declare outline t stage
  | .aliasName name outline =>
    match t.value with
    | .mark .equal => some (.typeDue (.alias name outline))
    | _ => none
  | .aliasBase name type outline =>
    match t.value with
    | .mark .semi => some (.declaring .types (outline.addType ⟨name.pos, name.value, type⟩))
    | _ => none
  | .typeDue place => startType place t
  | .array start part place => continueArray start place part t.value
  | .fields start before place =>
    match t.value with
    | .keyword .end => some (place.close ⟨start, .record before⟩)
    | _ => startType (.group (.fields start before place)) t
  | .nameDue type before place =>
    match t.value with
    | .ident name => some (.names type (before ++ [⟨t.pos, name⟩]) place)
    | _ => none
  | .names type before place =>
    match t.value with
    | .mark .comma => some (.nameDue type before place)
    | .mark mark => place.close ⟨type, before⟩ mark
    | _ => none
  | .procedureWord outer =>
    match t.value with
    | .ident name => some (.procedureName ⟨t.pos, name⟩ outer)
    | _ => none
  | .procedureName name outer =>
    match t.value with
    | .mark .lparen => some (.paramsOpened name outer)
    | _ => none
  | .paramsOpened name outer =>
    match t.value with
    | .mark .rparen => some (.paramsClosed [] name outer)
    | _ => startParameter [] name outer t
  | .paramDue before name outer => startParameter before name outer t
  | .paramsClosed params name outer =>
    match t.value with
    | .mark .semi => some (.declaring .opened (.start (.procedure name params outer)))
    | _ => none
  | .statements place => (startStatement place t).or (endStatements place t.value)
  | .statementEnded place => afterStatement place t.value
  | .inputWord place =>
    match t.value with
    | .mark .lparen => some (.inputOpened place)
    | _ => none
  | .inputOpened place =>
    match t.value with
    | .ident name => some (.inputName ⟨t.pos, name⟩ place)
    | _ => none
  | .inputName name place =>
    match t.value with
    | .mark .rparen => some (.statementEnded (place.add (.input name)))
    | _ => none
  | .emissionWord emission place =>
    match t.value with
    | .mark .lparen => some (.operandDue (.first (.emitted emission place)))
    | _ => none
  | .callOpened procedure place =>
    match t.value with
    | .mark .rparen =>
      some (.statementEnded (place.add (.call ⟨procedure.pos, ⟨procedure.value, []⟩⟩)))
    | _ => startOperand (.first (.argument procedure [] place)) t
  | .targetEnded target place => afterVariable target (.target place) t.value
  | .operandDue place => startOperand place t
  | .operandEnded factor place => afterOperand factor place t.value
  | .base start place => afterBase start place t.value
  | .fieldDue start place =>
    match t.value with
    | .ident name => some (.field start ⟨t.pos, name⟩ place)
    | _ => none
  | .field start part place => afterField start part place t.value
  | .bodyEnded program =>
    match t.value with
    | .mark .dot => some (.complete program)
    | _ => none
  | .complete _ => none

/-- Add tokens one after the other. -/
def pushAll (s : State) : List (Located Token) → Option State
  | [] => some s
  | t :: ts => (s.push t).bind (pushAll · ts)

/-- The program, once it is complete. -/
def program? : State → Option (Located Program)
  | .complete program => some program
  | _ => none

end State

end SnlFront.Parsing
