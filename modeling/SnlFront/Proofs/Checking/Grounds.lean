import SnlFront.Proofs.Checking.Ensures
import SnlFront.Proofs.Grammar.Anchors
import SnlFront.Proofs.Ty.Formed

/-!
# Reports are grounded in the tokens

A program that is anchored in a row of tokens is checked to the end, and every report about it is
grounded in the row: it points at a token, the name in it is that of the identifier it points at,
and where it sets what was expected against what was found, the two do not go together. The types
on the way are canonical, and their fields have names that the row spells.

## Main definitions

* `Contrast`: two details that do not go together.
* `Grounded`: a report that is grounded in a row of tokens.
* `Grounds`: a check all of whose reports are grounded, with a property of its value.

## Main statements

* `Statement.grounds_checkAll`: statements.
* `Declarations.grounds_check`: declarations.
* `Program.grounded_analyze`: programs.
-/

namespace SnlFront

open Parsing

/-- A row of tokens has a name as an identifier somewhere. -/
def Parsing.Tokens.Spells (ts : Tokens) (name : String) : Prop := ∃ p, ts.HasName ⟨p, name⟩

/-- A name that stands somewhere is spelled by the row. -/
theorem Parsing.Tokens.HasName.spells {ts : Tokens} {name : Located String}
    (h : ts.HasName name) : ts.Spells name.value := ⟨name.pos, h⟩

/-! ## Reports -/

/-- Whether a kind of report sets what was expected against what was found. -/
def Diagnostic.Kind.contrasts : Diagnostic.Kind → Bool
  | .incompatibleType | .assignmentMismatch | .argumentMismatch => true
  | _ => false

/-- What was expected does not go together with what was found. -/
inductive Contrast (ts : Tokens) : Option Diagnostic.Detail → Option Diagnostic.Detail → Prop
  | types {τ σ : Ty} (hτ : τ.Formed ts.Spells) (hσ : σ.Formed ts.Spells)
      (h : τ.compatible σ = false) : Contrast ts (some (.type τ)) (some (.type σ))
  | words {w v : String} (h : w ≠ v) : Contrast ts (some (.word w)) (some (.word v))

/-- A report points at a token, at the identifier that it names if it names one, and sets details
against each other that do not go together. If a word was found, it names a kind of symbols. -/
structure Grounded (ts : Tokens) (d : Located Diagnostic) : Prop where
  place : ts.HasPlace d.pos
  name : ∀ name, d.value.name = some name → ts.HasName ⟨d.pos, name⟩
  contrast : d.value.kind.contrasts = true → Contrast ts d.value.expected d.value.got
  word : ∀ w, d.value.got = some (.word w) → ∃ symbol : Symbol, w = symbol.kind

variable {ts : Tokens} {α : Type}

/-- A report that names the identifier it points at, and sets nothing against anything. -/
theorem grounded_of_name {name : Located String} (h : ts.HasName name) {d : Diagnostic}
    (hname : d.name = some name.value := by rfl) (hkind : d.kind.contrasts = false := by rfl)
    (hword : ∀ w, d.got ≠ some (.word w) := by rintro _ ⟨⟩) : Grounded ts ⟨name.pos, d⟩ where
  place := h.hasPlace
  name _ hother := by
    cases hname.symm.trans hother
    exact h
  contrast hcontrasts := absurd (hkind.symm.trans hcontrasts) (by decide)
  word w hgot := absurd hgot (hword w)

/-- A report without a name, at the place of a token. -/
theorem grounded_of_place {p : Position} (h : ts.HasPlace p) {d : Diagnostic}
    (hname : d.name = none := by rfl) (hkind : d.kind.contrasts = false := by rfl)
    (hword : ∀ w, d.got = some (.word w) → ∃ symbol : Symbol, w = symbol.kind := by rintro _ ⟨⟩) :
    Grounded ts ⟨p, d⟩ where
  place := h
  name _ hother := by cases hname.symm.trans hother
  contrast hcontrasts := absurd (hkind.symm.trans hcontrasts) (by decide)
  word := hword

/-- A report that sets two details against each other that do not go together. -/
theorem grounded_of_contrast {p : Position} (h : ts.HasPlace p) {d : Diagnostic}
    (hcontrast : Contrast ts d.expected d.got)
    (hword : ∀ w, d.got = some (.word w) → ∃ symbol : Symbol, w = symbol.kind)
    (hname : d.name = none := by rfl) : Grounded ts ⟨p, d⟩ where
  place := h
  name _ hother := by cases hname.symm.trans hother
  contrast _ := hcontrast
  word := hword

/-- All reports of a check are grounded, and it comes to a value with a property. -/
abbrev Grounds (ts : Tokens) (Q : α → Prop) (x : Checked α) : Prop := x.Ensures (Grounded ts) Q

/-- Nothing is asked of the value of a check. -/
abbrev anything (_ : α) : Prop := True

theorem grounds_report {p : Position} {d : Diagnostic} (h : Grounded ts ⟨p, d⟩) :
    Grounds ts anything (report p d) := Logged.ensures_note h trivial

/-- What is required is reported only if it does not hold, so the report may rest on that. -/
theorem grounds_require {condition : Bool} {p : Position} {d : Diagnostic}
    (h : condition = false → Grounded ts ⟨p, d⟩) : Grounds ts anything (require condition p d) :=
  Logged.ensures_demand h trivial

/-- Where two types have to be compatible, a report sets them against each other. -/
theorem grounds_require_compatible {τ σ : Ty} (hτ : τ.Formed ts.Spells) (hσ : σ.Formed ts.Spells)
    {p : Position} (hp : ts.HasPlace p) {d : Diagnostic} (hname : d.name = none := by rfl)
    (hexpected : d.expected = some (.type τ) := by rfl)
    (hgot : d.got = some (.type σ) := by rfl) :
    Grounds ts anything (require (τ.compatible σ) p d) := by
  have hword : ∀ w, d.got = some (.word w) → ∃ symbol : Symbol, w = symbol.kind := by
    intro w hw
    cases hgot.symm.trans hw
  exact grounds_require fun h =>
    grounded_of_contrast hp (hexpected ▸ hgot ▸ .types hτ hσ h) hword hname

/-! ## Expressions -/

variable {s : Scope}

/-- The usual way to go on after a fault: it is reported, and the type is unknown. -/
theorem grounds_unknown {p : Position} {d : Diagnostic} (h : Grounded ts ⟨p, d⟩) :
    Grounds ts (Ty.Formed ts.Spells) (do report p d; return .unknown) :=
  (grounds_report h).bind fun _ _ => Logged.ensures_pure Ty.formed_unknown

/-- The base of a variable is reported by its own name, whatever is wrong with it. -/
theorem grounds_checkBase (hs : s.Formed ts.Spells) {base : Located String}
    (h : ts.HasName base) : Grounds ts (Ty.Formed ts.Spells) (checkBase s base) := by
  rw [checkBase]
  split
  · exact grounds_unknown (grounded_of_name h)
  · next type htype => exact Logged.ensures_pure (hs htype)
  · exact grounds_unknown (grounded_of_name h)

/-- A field that is missing is reported by its own name. One that is found has a type whose names
are spelled, as those of the record are. -/
theorem grounds_checkField {τ : Ty} (hτ : τ.Formed ts.Spells) {field : Option (Located String)}
    (h : ∀ name ∈ field, ts.HasName name) :
    Grounds ts (Ty.Formed ts.Spells) (checkField τ field) := by
  cases field with
  | none => exact Logged.ensures_pure hτ
  | some field =>
    have hname := h field rfl
    cases τ with
    | unknown => exact Logged.ensures_pure hτ
    | integer | char | array base lower upper => exact grounds_unknown (grounded_of_name hname)
    | record fields =>
      rw [checkField]
      split
      · next type htype => exact Logged.ensures_pure (hτ.field htype)
      · exact grounds_unknown (grounded_of_name hname)

/-- An index has no name to be reported by. What is reported stands at a token. -/
theorem grounds_checkElement {τ index : Ty} (hτ : τ.Formed ts.Spells)
    (hindex : index.Formed ts.Spells) {p : Position} (hp : ts.HasPlace p) :
    Grounds ts (Ty.Formed ts.Spells) (checkElement τ p index) := by
  cases τ with
  | unknown => exact Logged.ensures_pure hτ
  | integer | char | record fields => exact grounds_unknown (grounded_of_place hp)
  | array base lower upper =>
    exact (grounds_require_compatible Ty.formed_integer hindex hp).bind
      fun _ _ => Logged.ensures_pure hτ.element

/-- The first operand gives the type, and the other one has to be compatible with it. -/
theorem grounds_operands {left right : Checked Ty} (hleft : Grounds ts (Ty.Formed ts.Spells) left)
    (hright : Grounds ts (Ty.Formed ts.Spells) right) {p : Position} (hp : ts.HasPlace p) :
    Grounds ts (Ty.Formed ts.Spells) (do
      let type ← left
      let other ← right
      require (type.compatible other) p (.incompatibleType type other)
      return type) :=
  hleft.bind fun _ htype => hright.bind fun _ hother =>
    (grounds_require_compatible htype hother hp).bind fun _ _ => Logged.ensures_pure htype

mutual

/-- Expressions are checked to the end, with grounded reports and a type whose fields the row
spells. -/
theorem Expression.grounds_check (hs : s.Formed ts.Spells) : (e : Expression) → e.Anchored ts →
    Grounds ts (Ty.Formed ts.Spells) (e.check s)
  | .last ⟨_, left⟩ _, h => by
    rw [Expression.check]
    exact Term.grounds_check hs left h.2
  | .chain ⟨_, left⟩ _ ⟨_, right⟩, h => by
    rw [Expression.check]
    exact grounds_operands (Term.grounds_check hs left h.1.2)
      (Expression.grounds_check hs right h.2.2) h.2.1

/-- So are terms. -/
theorem Term.grounds_check (hs : s.Formed ts.Spells) : (t : Term) → t.Anchored ts →
    Grounds ts (Ty.Formed ts.Spells) (t.check s)
  | .last ⟨_, left⟩ _, h => by
    rw [Term.check]
    exact Factor.grounds_check hs left h.2
  | .chain ⟨_, left⟩ _ ⟨_, right⟩, h => by
    rw [Term.check]
    exact grounds_operands (Factor.grounds_check hs left h.1.2)
      (Term.grounds_check hs right h.2.2) h.2.1

/-- Factors have no place of their own; the reports about them stand inside them. -/
theorem Factor.grounds_check (hs : s.Formed ts.Spells) : (f : Factor) → f.Anchored ts →
    Grounds ts (Ty.Formed ts.Spells) (f.check s)
  | .bracket inner, h => by
    rw [Factor.check]
    exact Expression.grounds_check hs inner h
  | .constant _, _ => by
    rw [Factor.check]
    exact Logged.ensures_pure Ty.formed_integer
  | .variable v, h => by
    rw [Factor.check]
    exact Variable.grounds_check hs v h
  | .hole, h => h.elim

/-- Variables are reported by their base, by their field or at their index. -/
theorem Variable.grounds_check (hs : s.Formed ts.Spells) : (v : Variable) → v.Anchored ts →
    Grounds ts (Ty.Formed ts.Spells) (v.check s)
  | .whole base, h => by
    rw [Variable.check]
    exact grounds_checkBase hs h
  | .part base field none, h => by
    rw [Variable.check]
    exact (grounds_checkBase hs h.1).bind fun _ htype => grounds_checkField htype h.2
  | .part base field (some index), h => by
    rw [Variable.check]
    refine (grounds_checkBase hs h.1.1).bind fun _ hbase => ?_
    refine (grounds_checkField hbase h.1.2).bind fun _ htype => ?_
    refine (Expression.grounds_check hs index h.2).bind fun _ hindex => ?_
    exact grounds_checkElement htype hindex h.2.left

end

/-! ## Statements -/

theorem grounds_checkOperand (hs : s.Formed ts.Spells) {e : Expression} (h : e.Anchored ts) :
    Grounds ts anything (checkOperand s e) :=
  (e.grounds_check hs h).bind fun _ _ => grounds_require fun _ => grounded_of_place h.left

/-- Both sides of a relation are checked alike. -/
theorem Relation.grounds_check (hs : s.Formed ts.Spells) {r : Relation} (h : r.Anchored ts) :
    Grounds ts anything (r.check s) :=
  (grounds_checkOperand hs h.left).bind fun _ _ => grounds_checkOperand hs h.right

/-- A word that was found is the kind of some symbol. -/
theorem Symbol.word_kind (symbol : Symbol) (w : String)
    (h : some (Diagnostic.Detail.word symbol.kind) = some (.word w)) :
    ∃ symbol : Symbol, w = symbol.kind := by
  cases h
  exact ⟨symbol, rfl⟩

/-- The target of an input is reported where it stands: by its name if that stands for nothing, and
by its kind if it is no variable. -/
theorem grounds_checkInput {name : Located String} (h : ts.HasName name) :
    Grounds ts anything (checkInput s name) := by
  rw [checkInput]
  split
  · exact grounds_report (grounded_of_name h)
  · exact grounds_require fun _ => grounded_of_place h.hasPlace
  · next symbol _ _ =>
    exact grounds_report (grounded_of_place h.hasPlace rfl rfl symbol.word_kind)

/-- An assignment sets the two types against each other, at the place of the target. -/
theorem grounds_checkAssignment (hs : s.Formed ts.Spells) {target : Variable} {value : Expression}
    (htarget : target.Anchored ts) (hvalue : value.Anchored ts) :
    Grounds ts anything (checkAssignment s target value) := by
  have hplace := htarget.base.hasPlace
  refine (target.grounds_check hs htarget).bind fun expected hexpected => ?_
  refine (value.grounds_check hs hvalue).bind fun got hgot => ?_
  split
  · exact grounds_report (grounded_of_place hplace)
  · exact grounds_require_compatible hexpected hgot hplace

/-- Each argument is set against its own parameter. -/
theorem grounds_checkArguments (hs : s.Formed ts.Spells) {params : List Ty}
    (hparams : ∀ τ ∈ params, τ.Formed ts.Spells) {arguments : List Expression}
    (h : ∀ argument ∈ arguments, argument.Anchored ts) :
    Grounds ts anything (checkArguments s params arguments) := by
  induction arguments generalizing params with
  | nil =>
    cases params <;> exact Logged.ensures_pure trivial
  | cons argument arguments ih =>
    obtain ⟨hfirst, hothers⟩ := List.forall_mem_cons.1 h
    have hargument := argument.grounds_check hs hfirst
    cases params with
    | nil => exact hargument.bind fun _ _ => ih hparams hothers
    | cons param params =>
      obtain ⟨hparam, hparams⟩ := List.forall_mem_cons.1 hparams
      refine hargument.bind fun type htype => ?_
      refine (grounds_require_compatible hparam htype hfirst.left).bind fun _ _ => ?_
      exact ih hparams hothers

theorem Symbol.kind_ne_procedure {symbol : Symbol} (h : ∀ params, symbol ≠ .procedure params) :
    "procedure" ≠ symbol.kind := by
  cases symbol <;> simp_all [Symbol.kind]

/-- What is called is reported by its name or by its kind; its parameters have types that the row
spells. -/
theorem grounds_checkCallee (hs : s.Formed ts.Spells) {call : Located Call}
    (h : ts.HasName (call.map Call.name)) :
    Grounds ts (fun params => ∀ τ ∈ params, τ.Formed ts.Spells)
      (checkCallee s call.pos call.value) := by
  have hnone : ∀ τ ∈ ([] : List Ty), τ.Formed ts.Spells := by simp
  rw [checkCallee]
  split
  · exact (grounds_report (grounded_of_name h)).bind fun _ _ => Logged.ensures_pure hnone
  · next params hparams =>
    exact (grounds_require fun _ => grounded_of_place h.hasPlace).bind
      fun _ _ => Logged.ensures_pure (hs hparams)
  · next symbol hprocedure hlookup =>
    have hkind := Symbol.kind_ne_procedure hprocedure
    exact (grounds_report (grounded_of_contrast h.hasPlace (.words hkind) symbol.word_kind)).bind
      fun _ _ => Logged.ensures_pure hnone

theorem Call.grounds_check (hs : s.Formed ts.Spells) {call : Located Call}
    (h : Call.Anchored ts call) : Grounds ts anything (Call.check s call) :=
  (grounds_checkCallee hs h.name).bind
    fun _ hparams => grounds_checkArguments hs hparams h.arguments

mutual

/-- Every report about a statement is grounded, also about one inside a branch or a loop. -/
theorem Statement.grounds_check (hs : s.Formed ts.Spells) : (statement : Statement) →
    statement.Anchored ts → Grounds ts anything (statement.check s)
  | .conditional condition body otherwise, h => by
    rw [Statement.check]
    refine (condition.grounds_check hs h.1).bind fun _ _ => ?_
    refine (Statement.grounds_checkAll hs body h.2.1).bind fun _ _ => ?_
    exact Statement.grounds_checkAll hs otherwise h.2.2
  | .loop condition body, h => by
    rw [Statement.check]
    exact (condition.grounds_check hs h.1).bind fun _ _ => Statement.grounds_checkAll hs body h.2
  | .input name, h => by
    rw [Statement.check]
    exact grounds_checkInput h
  | .output value, h => by
    rw [Statement.check]
    refine (value.grounds_check hs h).bind fun _ _ => ?_
    exact grounds_require fun _ => grounded_of_place (Expression.Anchored.left h)
  | .result value, h => by
    rw [Statement.check]
    exact (value.grounds_check hs h).bind fun _ _ => Logged.ensures_pure trivial
  | .assign target value, h => by
    rw [Statement.check]
    exact grounds_checkAssignment hs h.1 h.2
  | .call called, h => by
    rw [Statement.check]
    exact Call.grounds_check hs h
  | .hole, h => h.elim

theorem Statement.grounds_checkAll (hs : s.Formed ts.Spells) : (statements : List Statement) →
    Statement.AllAnchored ts statements → Grounds ts anything (Statement.checkAll s statements)
  | [], _ => Logged.ensures_pure trivial
  | statement :: statements, h => by
    rw [Statement.checkAll]
    refine (Statement.grounds_check hs statement h.1).bind fun _ _ => ?_
    exact Statement.grounds_checkAll hs statements h.2

end

/-! ## Types -/

mutual

/-- An anchored type expression denotes a canonical type whose fields the row spells. In particular
it denotes one, since it has no hole. -/
theorem TypeExpr.resolve_formed (hs : s.Formed ts.Spells) (p : Position) : (e : TypeExpr) →
    e.Anchored ts p → ∃ τ, e.resolve s = .ok τ ∧ τ.Formed ts.Spells
  | .integer, _ => ⟨_, rfl, Ty.formed_integer⟩
  | .char, _ => ⟨_, rfl, Ty.formed_char⟩
  | .array base lower upper, _ => ⟨_, rfl, Ty.formed_array base lower upper⟩
  | .record fields, h => by
    obtain ⟨members, hmembers, hformed⟩ := Group.resolveMembers_formed hs fields h
    refine ⟨.ofMembers members, ?_, Ty.formed_ofMembers hformed⟩
    rw [TypeExpr.resolve, hmembers]
    rfl
  | .named name, _ => ⟨_, rfl, hs.lookupType? name⟩
  | .hole, h => h.elim

theorem Group.resolveMembers_formed (hs : s.Formed ts.Spells) : (groups : List Group) →
    Group.AllAnchored ts groups → ∃ members, Group.resolveMembers s groups = .ok members ∧
      ∀ member ∈ members, ts.Spells member.1 ∧ member.2.Formed ts.Spells
  | [], _ => ⟨[], rfl, by simp⟩
  | ⟨⟨p, type⟩, names⟩ :: groups, h => by
    obtain ⟨τ, hτ, hformed⟩ := TypeExpr.resolve_formed hs p type h.1.1
    obtain ⟨members, hmembers, hothers⟩ := Group.resolveMembers_formed hs groups h.2
    refine ⟨names.map (fun name => (name.value, τ)) ++ members, ?_, ?_⟩
    · rw [Group.resolveMembers, hτ, hmembers]
      rfl
    · intro member hmember
      rcases List.mem_append.1 hmember with hmember | hmember
      · obtain ⟨name, hname, rfl⟩ := List.mem_map.1 hmember
        exact ⟨(h.1.2 name hname).spells, hformed⟩
      · exact hothers member hmember

end

/-- Repeated fields are reported by name, each where it stands. -/
theorem grounds_reportRepeated (seen : List String) {names : List (Located String)}
    (h : ∀ name ∈ names, ts.HasName name) : Grounds ts anything (reportRepeated seen names) := by
  induction names generalizing seen with
  | nil => exact Logged.ensures_pure trivial
  | cons name names ih =>
    obtain ⟨hfirst, hothers⟩ := List.forall_mem_cons.1 h
    exact (grounds_require fun _ => grounded_of_name hfirst).bind fun _ _ => ih _ hothers

mutual

/-- Fields that are repeated and type names that stand for nothing are reported by name. -/
theorem TypeExpr.grounds_validate (s : Scope) (p : Position) : (e : TypeExpr) → e.Anchored ts p →
    Grounds ts anything (e.validate s p)
  | .integer, _ => Logged.ensures_pure trivial
  | .char, _ => Logged.ensures_pure trivial
  | .array base lower upper, h => grounds_require fun _ => grounded_of_place h
  | .record fields, h => by
    rw [TypeExpr.validate]
    exact Group.grounds_validateAll s [] fields h
  | .named name, h => grounds_require fun _ => grounded_of_name h
  | .hole, h => h.elim

theorem Group.grounds_validateAll (s : Scope) (seen : List String) : (groups : List Group) →
    Group.AllAnchored ts groups → Grounds ts anything (Group.validateAll s seen groups)
  | [], _ => Logged.ensures_pure trivial
  | ⟨⟨p, type⟩, names⟩ :: groups, h => by
    rw [Group.validateAll]
    refine (TypeExpr.grounds_validate s p type h.1.1).bind fun _ _ => ?_
    refine (grounds_reportRepeated seen h.1.2).bind fun _ _ => ?_
    exact Group.grounds_validateAll s _ groups h.2

end

theorem TypeExpr.grounds_check (hs : s.Formed ts.Spells) {t : Located TypeExpr}
    (h : t.value.Anchored ts t.pos) : Grounds ts (Ty.Formed ts.Spells) (TypeExpr.check s t) :=
  (t.value.grounds_validate s t.pos h).bind
    fun _ _ => Logged.ensures_ofExcept (t.value.resolve_formed hs t.pos h)

/-! ## Declarations -/

/-- An analysis all of whose reports are grounded, in scopes with well-formed types. -/
abbrev GroundsIn (ts : Tokens) (Q : α → Prop) (x : Analysis α) : Prop :=
  x.Ensures (Scope.Formed ts.Spells) (Grounded ts) Q

/-- A name that is taken is reported where it stands again. -/
theorem groundsIn_checkFree {name : Located String} (h : ts.HasName name) :
    GroundsIn ts anything (checkFree name) := by
  refine ScopeM.ensures_read fun s _ => ?_
  exact (grounds_require fun _ => grounded_of_name h).bind fun _ _ => Logged.ensures_pure trivial

theorem groundsIn_declare (name : String) {symbol : Symbol} (h : symbol.Formed ts.Spells) :
    GroundsIn ts anything (ScopeM.declare name symbol) :=
  ScopeM.ensures_declare (fun _ hs => hs.declare name h) trivial

/-- What is declared may be looked up later, so its type has to be one that the row spells. -/
theorem groundsIn_declareFree {name : Located String} (hname : ts.HasName name) {symbol : Symbol}
    (hsymbol : symbol.Formed ts.Spells) : GroundsIn ts anything (declareFree name symbol) := by
  refine (groundsIn_checkFree hname).bind fun free _ => ?_
  cases free
  · exact ScopeM.ensures_pure trivial
  · exact groundsIn_declare name.value hsymbol

theorem groundsIn_declareParams {params : List (Located String × Ty)}
    (h : ∀ param ∈ params, ts.HasName param.1 ∧ param.2.Formed ts.Spells) :
    GroundsIn ts anything (declareParams params) := by
  induction params with
  | nil => exact ScopeM.ensures_pure trivial
  | cons param params ih =>
    obtain ⟨hfirst, hothers⟩ := List.forall_mem_cons.1 h
    have hsymbol : (Symbol.variable param.2).Formed ts.Spells := hfirst.2
    exact (groundsIn_declareFree hfirst.1 hsymbol).bind fun _ _ => ih hothers

theorem groundsIn_checkDeclaredType {t : Located TypeExpr} (h : t.value.Anchored ts t.pos) :
    GroundsIn ts (Ty.Formed ts.Spells) (checkDeclaredType t) :=
  ScopeM.ensures_read fun _ hs => TypeExpr.grounds_check hs h

/-- Names that share a well-formed type, each with it. -/
theorem forall_mem_map_type {names : List (Located String)} (h : ∀ name ∈ names, ts.HasName name)
    {τ : Ty} (hτ : τ.Formed ts.Spells) :
    ∀ param ∈ names.map (fun name => (name, τ)), ts.HasName param.1 ∧ param.2.Formed ts.Spells := by
  intro param hparam
  obtain ⟨name, hname, rfl⟩ := List.mem_map.1 hparam
  exact ⟨h name hname, hτ⟩

/-- Aliases are reported where they are declared; what they stand for is stored. -/
theorem groundsIn_declareTypes {types : List (Located Alias)}
    (h : ∀ declaration ∈ types, Alias.Anchored ts declaration) :
    GroundsIn ts anything (declareTypes types) := by
  induction types with
  | nil => exact ScopeM.ensures_pure trivial
  | cons declaration types ih =>
    obtain ⟨hfirst, hothers⟩ := List.forall_mem_cons.1 h
    refine (groundsIn_checkFree hfirst.name).bind fun free _ => ?_
    cases free
    · exact ih hothers
    · refine (groundsIn_checkDeclaredType hfirst.base).bind fun type htype => ?_
      have hsymbol : (Symbol.type type).Formed ts.Spells := htype
      exact (groundsIn_declare _ hsymbol).bind fun _ _ => ih hothers

theorem groundsIn_declareVariables {groups : List (Located Group)}
    (h : ∀ group ∈ groups, group.value.Anchored ts) :
    GroundsIn ts anything (declareVariables groups) := by
  induction groups with
  | nil => exact ScopeM.ensures_pure trivial
  | cons group groups ih =>
    obtain ⟨hfirst, hothers⟩ := List.forall_mem_cons.1 h
    refine (groundsIn_checkDeclaredType hfirst.type).bind fun type htype => ?_
    rw [declareNames_eq_declareParams]
    refine (groundsIn_declareParams (forall_mem_map_type hfirst.names htype)).bind fun _ _ => ?_
    exact ih hothers

/-- The parameters that come out are names of the row, with types that it spells. -/
theorem groundsIn_checkParams {params : List (Located Parameter)}
    (h : ∀ param ∈ params, param.value.group.Anchored ts) :
    GroundsIn ts (fun args => ∀ arg ∈ args, ts.HasName arg.1 ∧ arg.2.Formed ts.Spells)
      (checkParams params) := by
  induction params with
  | nil => exact ScopeM.ensures_pure (by simp)
  | cons param params ih =>
    obtain ⟨hfirst, hothers⟩ := List.forall_mem_cons.1 h
    refine (groundsIn_checkDeclaredType hfirst.type).bind fun type htype => ?_
    refine (ih hothers).bind fun args hargs => ScopeM.ensures_pure ?_
    exact List.forall_mem_append.2 ⟨forall_mem_map_type hfirst.names htype, hargs⟩

theorem groundsIn_body {body : List Statement} (h : Statement.AllAnchored ts body) :
    GroundsIn ts anything (.read fun s => Statement.checkAll s body) :=
  ScopeM.ensures_read fun _ hs => Statement.grounds_checkAll hs body h

mutual

/-- Procedures are checked in the scope that is around them, so the scope may be any that the row
spells. -/
theorem Procedure.grounds_check (p : Position) : (procedure : Procedure) →
    procedure.Anchored ts p → GroundsIn ts anything (procedure.check p)
  | ⟨name, params, types, vars, procedures, body⟩, h => by
    obtain ⟨hname, hparams, htypes, hvars, hprocedures, hbody⟩ := h
    rw [Procedure.check]
    refine (groundsIn_checkParams hparams).bind fun args hargs => ?_
    have hsymbol : (Symbol.procedure (args.map Prod.snd)).Formed ts.Spells := by
      intro τ hτ
      obtain ⟨arg, harg, rfl⟩ := List.mem_map.1 hτ
      exact (hargs arg harg).2
    refine (groundsIn_declareFree hname hsymbol).bind fun _ _ => ?_
    have hkeeps := keepsOuter_inside name (.procedure (args.map Prod.snd)) args types vars body
      (Procedure.keepsOuter_checkAll procedures)
    refine ScopeM.Ensures.inFrame ?_ hkeeps fun _ hs => hs.enter
    refine (groundsIn_declare name hsymbol).bind fun _ _ => ?_
    refine (groundsIn_declareParams hargs).bind fun _ _ => ?_
    refine (groundsIn_declareTypes htypes).bind fun _ _ => ?_
    refine (groundsIn_declareVariables hvars).bind fun _ _ => ?_
    refine (Procedure.grounds_checkAll procedures hprocedures).bind fun _ _ => ?_
    exact groundsIn_body hbody

theorem Procedure.grounds_checkAll : (procedures : List (Located Procedure)) →
    Procedure.AllAnchored ts procedures → GroundsIn ts anything (Procedure.checkAll procedures)
  | [], _ => ScopeM.ensures_pure trivial
  | ⟨p, procedure⟩ :: procedures, h => by
    rw [Procedure.checkAll]
    exact (Procedure.grounds_check p procedure h.1).bind
      fun _ _ => Procedure.grounds_checkAll procedures h.2

end

/-- The declarations of a level leave a scope whose types the row spells, with grounded reports. -/
theorem Declarations.grounds_check {d : Declarations} (h : d.Anchored ts) :
    GroundsIn ts anything d.check := by
  refine (groundsIn_declareTypes h.types).bind fun _ _ => ?_
  refine (groundsIn_declareVariables h.vars).bind fun _ _ => ?_
  exact Procedure.grounds_checkAll d.procedures h.procedures

/-- A program is a level with a body behind it. -/
theorem Program.grounds_check {p : Program} (h : p.Anchored ts) : GroundsIn ts anything p.check :=
  (Declarations.grounds_check h.declarations).bind fun _ _ => groundsIn_body h.body

/-- A program that is anchored in a row of tokens is analysed to the end, and all reports about it
are grounded in the row. -/
theorem Program.grounded_analyze {p : Program} (h : p.Anchored ts) :
    ∃ ds, p.analyze = .ok ds ∧ ∀ d ∈ ds, Grounded ts d := by
  obtain ⟨-, hnotes, _, hvalue, -⟩ := Program.grounds_check h .empty Scope.formed_empty
  refine ⟨(p.check.run .empty).2.log, ?_, hnotes⟩
  rw [Program.analyze, hvalue]
  rfl

end SnlFront
