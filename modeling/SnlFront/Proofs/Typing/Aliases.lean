import SnlFront.Proofs.Checking.Stops
import SnlFront.Proofs.Typing.Types

/-!
# Aliases are transparent

A name that stands for what a type expression denotes may be replaced by the expression wherever it
occurs in another one, at some places and not at others, and at any depth of records. The type that
is denoted stays the same; and if nothing is wrong with the expression that is put in, so does
everything that is reported. Types are therefore compared by their structure and never by the names
they were given.

## Main definitions

* `TypeExpr.Unfolds`: some occurrences of a name are replaced by an expression.

## Main statements

* `TypeExpr.Unfolds.resolve_eq`: the type that is denoted stays the same.
* `TypeExpr.validate_of_silent`: whether something is wrong does not depend on the position.
* `TypeExpr.check_of_unfolds`: the check of an expression stays the same.
-/

namespace SnlFront

mutual

/-- Some occurrences of a name in a type expression are replaced by an expression. Each occurrence
may be replaced or left, and positions stay. -/
inductive TypeExpr.Unfolds (name : String) (body : TypeExpr) : TypeExpr → TypeExpr → Prop
  | same (t : TypeExpr) : TypeExpr.Unfolds name body t t
  | unfold : TypeExpr.Unfolds name body (.named name) body
  | record {groups others : List Group} (fields : Group.Unfolds name body groups others) :
      TypeExpr.Unfolds name body (.record groups) (.record others)

/-- Some occurrences of a name in the types of fields are replaced by an expression. -/
inductive Group.Unfolds (name : String) (body : TypeExpr) : List Group → List Group → Prop
  | nil : Group.Unfolds name body [] []
  | cons {p : Position} {t u : TypeExpr} {names : List (Located String)}
      {groups others : List Group} (first : TypeExpr.Unfolds name body t u)
      (rest : Group.Unfolds name body groups others) :
      Group.Unfolds name body (⟨⟨p, t⟩, names⟩ :: groups) (⟨⟨p, u⟩, names⟩ :: others)

end

section Denotation

variable {s : Scope} {name : String} {body : TypeExpr} {τ : Ty}

mutual

/-- The type that is denoted stays the same. -/
theorem TypeExpr.Unfolds.resolve_eq (hname : s.lookup name = some (.type τ))
    (hbody : body.resolve s = .ok τ) : {t u : TypeExpr} → TypeExpr.Unfolds name body t u →
    u.resolve s = t.resolve s
  | _, _, .same _ => rfl
  | _, _, .unfold => by
    rw [hbody, TypeExpr.resolve, (s.lookupType?_eq_some_iff name τ).2 hname, Option.getD_some]
  | _, _, .record fields => by
    rw [TypeExpr.resolve, TypeExpr.resolve, fields.resolveMembers_eq hname hbody]

theorem Group.Unfolds.resolveMembers_eq (hname : s.lookup name = some (.type τ))
    (hbody : body.resolve s = .ok τ) : {groups others : List Group} →
    Group.Unfolds name body groups others →
    Group.resolveMembers s others = Group.resolveMembers s groups
  | _, _, .nil => rfl
  | _, _, .cons first rest => by
    rw [Group.resolveMembers, Group.resolveMembers, first.resolve_eq hname hbody,
      rest.resolveMembers_eq hname hbody]

end

mutual

/-- What is reported stays the same if nothing is reported about the expression that is put in. -/
theorem TypeExpr.Unfolds.validate_eq (hname : s.lookup name = some (.type τ))
    (hbody : ∀ p, body.validate s p = ⟨[], .ok ()⟩) (p : Position) : {t u : TypeExpr} →
    TypeExpr.Unfolds name body t u → u.validate s p = t.validate s p
  | _, _, .same _ => rfl
  | _, _, .unfold => by
    rw [hbody, TypeExpr.validate, (s.lookupType?_eq_some_iff name τ).2 hname]
    rfl
  | _, _, .record fields => by
    rw [TypeExpr.validate, TypeExpr.validate, fields.validateAll_eq hname hbody]

/-- The names of the fields stay, and with them which of them are repeated. -/
theorem Group.Unfolds.validateAll_eq (hname : s.lookup name = some (.type τ))
    (hbody : ∀ p, body.validate s p = ⟨[], .ok ()⟩) (seen : List String) :
    {groups others : List Group} → Group.Unfolds name body groups others →
    Group.validateAll s seen others = Group.validateAll s seen groups
  | _, _, .nil => rfl
  | _, _, .cons first rest => by
    rw [Group.validateAll, Group.validateAll, first.validate_eq hname hbody,
      rest.validateAll_eq hname hbody]

end

end Denotation

/-- Whether something is wrong with an expression does not depend on where it stands. -/
theorem TypeExpr.validate_of_silent {s : Scope} {t : TypeExpr} {τ : Ty} (hfree : t.holeFree = true)
    (hτ : t.resolve s = .ok τ) {q : Position} (h : (TypeExpr.check s ⟨q, t⟩).log = [])
    (p : Position) : t.validate s p = ⟨[], .ok ()⟩ := by
  obtain ⟨_, hvalue⟩ := (TypeExpr.stops_validate s q t).ends (by simp [hfree])
  rw [TypeExpr.check, Logged.log_bind_of_ok hvalue, List.append_eq_nil_iff] at h
  -- the rules by which an expression denotes a type know no positions
  have hdenotes := (TypeExpr.validate_resolve_iff s q t τ).1 ⟨⟨h.1, hvalue⟩, hτ⟩
  obtain ⟨⟨hlog, hvalue⟩, -⟩ := (TypeExpr.validate_resolve_iff s p t τ).2 hdenotes
  rw [← hlog, ← hvalue]

/-- Where a name stands for the type that an expression denotes, any occurrences of the name may be
replaced by the expression: the type that is denoted stays the same, and if nothing is reported
about the expression that is put in, so do all reports, with their positions. -/
theorem TypeExpr.check_of_unfolds {s : Scope} {name : String} {body t u : TypeExpr} {τ : Ty}
    (hfree : body.holeFree = true) (hname : s.lookup name = some (.type τ))
    (hbody : body.resolve s = .ok τ) (h : TypeExpr.Unfolds name body t u) :
    u.resolve s = t.resolve s ∧
    ∀ q, (TypeExpr.check s ⟨q, body⟩).log = [] → ∀ p,
      TypeExpr.check s ⟨p, u⟩ = TypeExpr.check s ⟨p, t⟩ := by
  refine ⟨h.resolve_eq hname hbody, fun q hlog p => ?_⟩
  have hsilent := TypeExpr.validate_of_silent hfree hbody hlog
  rw [TypeExpr.check, TypeExpr.check, h.resolve_eq hname hbody, h.validate_eq hname hsilent p]

/-- The expression of a record with two coordinates. -/
def pointBody : TypeExpr := .record [⟨⟨⟨1, 23⟩, .integer⟩, [⟨⟨1, 31⟩, "y"⟩, ⟨⟨1, 34⟩, "x"⟩]⟩]

/-- A scope with a name for that record. -/
def pointScope : Scope :=
  Scope.empty.declare "point" (.type (.record [("x", .integer), ("y", .integer)]))

/-- A record with the name in it and, further inside, the name or something else; a repeated field
and a name that stands for nothing. -/
def segment (inner : TypeExpr) : TypeExpr :=
  .record [⟨⟨⟨2, 8⟩, .named "point"⟩, [⟨⟨2, 14⟩, "a"⟩]⟩,
    ⟨⟨⟨3, 8⟩, .record [⟨⟨⟨3, 15⟩, inner⟩, [⟨⟨3, 21⟩, "b"⟩, ⟨⟨3, 24⟩, "b"⟩]⟩,
      ⟨⟨⟨3, 27⟩, .named "digit"⟩, [⟨⟨3, 33⟩, "c"⟩]⟩]⟩, [⟨⟨3, 40⟩, "d"⟩]⟩]

theorem segment_check_unfolded :
    (TypeExpr.check pointScope ⟨⟨1, 14⟩, pointBody⟩).log = [] ∧
      (segment pointBody).resolve pointScope = (segment (.named "point")).resolve pointScope ∧
      TypeExpr.check pointScope ⟨⟨2, 1⟩, segment pointBody⟩ =
        TypeExpr.check pointScope ⟨⟨2, 1⟩, segment (.named "point")⟩ := by
  have hunfolds : TypeExpr.Unfolds "point" pointBody (segment (.named "point"))
      (segment pointBody) :=
    .record (.cons (.same _) (.cons (.record (.cons .unfold (.cons (.same _) .nil))) .nil))
  have hsilent : (TypeExpr.check pointScope ⟨⟨1, 14⟩, pointBody⟩).log = [] := rfl
  obtain ⟨hresolve, hcheck⟩ :=
    TypeExpr.check_of_unfolds (s := pointScope) rfl rfl rfl hunfolds
  exact ⟨hsilent, hresolve, hcheck _ hsilent _⟩

end SnlFront
