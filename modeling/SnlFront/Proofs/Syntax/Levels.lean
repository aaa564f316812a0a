import SnlFront.Syntax

/-!
# The names of a level

A program has a level of declarations, and so has every procedure. The names of a level are read off
the tree alone, in the order in which they are declared; nothing is said about their meaning.

## Main definitions

* `Declarations.names`: the names that a list of declarations adds to its level.
* `Procedure.ownNames`: the names that a procedure adds to its level before its declarations.
* `Procedure.levelNames`: all names of the level of a procedure.
* `Fresh`: names are distinct and not taken.
-/

namespace SnlFront

/-- The names of a group. -/
def Group.declared (g : Group) : List String := g.names.map Located.value

/-- The names of aliases. -/
def typeNames (types : List (Located Alias)) : List String :=
  types.map fun declaration => declaration.value.name

/-- The names of variables, group by group. -/
def variableNames (vars : List (Located Group)) : List String :=
  vars.flatMap fun group => group.value.declared

/-- The names of parameters, group by group. -/
def parameterNames (params : List (Located Parameter)) : List String :=
  params.flatMap fun param => param.value.group.declared

/-- The names of procedures. -/
def procedureNames (procedures : List (Located Procedure)) : List String :=
  procedures.map fun procedure => procedure.value.name

/-- The names that declarations add to their level: types, then variables, then procedures. -/
def Declarations.names (d : Declarations) : List String :=
  typeNames d.types ++ variableNames d.vars ++ procedureNames d.procedures

/-- The names that stand at the level of a procedure before its declarations: its own, and its
parameters. -/
def Procedure.ownNames (p : Procedure) : List String := p.name :: parameterNames p.params

/-- All names of the level of a procedure. -/
def Procedure.levelNames (p : Procedure) : List String := p.ownNames ++ p.declarations.names

/-- Names are distinct, and none of them is taken. -/
def Fresh (taken : String → Prop) (names : List String) : Prop :=
  names.Nodup ∧ ∀ name ∈ names, ¬ taken name

@[simp] theorem fresh_nil (taken : String → Prop) : Fresh taken [] := ⟨.nil, by simp⟩

/-- Of names that are fresh one after the other, the later ones see the earlier ones as taken. -/
theorem fresh_append (taken : String → Prop) (names others : List String) :
    Fresh taken (names ++ others) ↔
      Fresh taken names ∧ Fresh (fun name => name ∈ names ∨ taken name) others := by
  simp only [Fresh, List.nodup_append, List.mem_append]
  constructor
  · intro hall
    rcases hall with ⟨⟨hnames, hothers, hapart⟩, hfree⟩
    refine ⟨⟨hnames, fun name h => hfree name (.inl h)⟩, hothers, ?_⟩
    rintro name h (hmem | htaken)
    · exact hapart name hmem name h rfl
    · exact hfree name (.inr h) htaken
  · intro hall
    rcases hall with ⟨⟨hnames, hfree⟩, hothers, hapart⟩
    refine ⟨⟨hnames, hothers, ?_⟩, ?_⟩
    · rintro name hmem _ h rfl
      exact hapart name h (.inl hmem)
    · rintro name (h | h)
      · exact hfree name h
      · exact fun htaken => hapart name h (.inr htaken)

/-- A name is fresh, and then counts as taken for the names behind it. -/
theorem fresh_cons (taken : String → Prop) (name : String) (names : List String) :
    Fresh taken (name :: names) ↔
      ¬ taken name ∧ Fresh (fun other => other = name ∨ taken other) names := by
  have h := fresh_append taken [name] names
  simp only [List.singleton_append, List.mem_singleton] at h
  rw [h]
  simp [Fresh]

theorem fresh_congr {taken taken' : String → Prop} (h : ∀ name, taken name ↔ taken' name)
    (names : List String) : Fresh taken names ↔ Fresh taken' names := by
  simp [Fresh, h]

end SnlFront
