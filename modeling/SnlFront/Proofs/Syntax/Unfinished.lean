import SnlFront.Proofs.Syntax.Holes
import SnlFront.Proofs.Syntax.Levels

/-!
# Holes that count

Not every hole of a tree is in the way. The type of an alias does not matter if the alias has a name
that is taken: by an alias before it, or inside a procedure by the procedure or a parameter. A tree
is unfinished if it has a hole anywhere else. This is read off the tree alone.

## Main definitions

* `AliasesUnfinished`: an alias whose name is not taken stands for a type with a hole.
* `Procedure.Unfinished`, `Program.Unfinished`: there is a hole that counts.

## Main statements

* `aliasesUnfinished_cons`: the first alias, and those after it.
* `Program.not_unfinished`: a program without holes is finished.
-/

namespace SnlFront

/-- Some alias stands for a type with a hole, and its name is neither taken nor the name of an alias
before it. -/
def AliasesUnfinished (taken : List String) (types : List (Located Alias)) : Prop :=
  ∃ before declaration after, types = before ++ declaration :: after ∧
    declaration.value.name ∉ taken ++ typeNames before ∧
    declaration.value.base.value.holeFree = false

/-- A procedure has a hole that counts: in the type of a parameter, of an alias whose name is not
taken, or of a variable, in a procedure inside, or in its body. -/
inductive Procedure.Unfinished : Procedure → Prop
  | params {p : Procedure} (h : parametersHoleFree p.params = false) : Unfinished p
  | types {p : Procedure} (h : AliasesUnfinished p.ownNames p.types) : Unfinished p
  | vars {p : Procedure} (h : variablesHoleFree p.vars = false) : Unfinished p
  | procedures {p : Procedure} (q : Located Procedure) (hq : q ∈ p.procedures)
      (h : Unfinished q.value) : Unfinished p
  | body {p : Procedure} (h : Statement.allHoleFree p.body = false) : Unfinished p

/-- Some procedure of a list has a hole that counts. -/
def Procedure.AnyUnfinished (procedures : List (Located Procedure)) : Prop :=
  ∃ q ∈ procedures, q.value.Unfinished

/-- A program has a hole that counts. At its level no name is taken beforehand. -/
def Program.Unfinished (p : Program) : Prop :=
  AliasesUnfinished [] p.declarations.types ∨ variablesHoleFree p.declarations.vars = false ∨
    Procedure.AnyUnfinished p.declarations.procedures ∨ Statement.allHoleFree p.body = false

/-! ## Aliases -/

theorem not_aliasesUnfinished_nil (taken : List String) : ¬ AliasesUnfinished taken [] := by
  rintro ⟨before, declaration, after, h, -⟩
  simp at h

/-- What is taken matters only as far as it is known which names are taken. -/
theorem aliasesUnfinished_congr {taken taken' : List String}
    (h : ∀ name, name ∈ taken ↔ name ∈ taken') (types : List (Located Alias)) :
    AliasesUnfinished taken types ↔ AliasesUnfinished taken' types := by
  simp only [AliasesUnfinished, List.mem_append, h]

/-- The name of an alias is taken for the aliases after it. -/
theorem mem_append_typeNames_cons (taken : List String) (first : Located Alias)
    (before : List (Located Alias)) (name : String) :
    name ∈ taken ++ typeNames (first :: before) ↔
      name ∈ (first.value.name :: taken) ++ typeNames before := by
  simp [typeNames, or_left_comm]

/-- The first alias counts if its name is not taken, and its name is taken for those after it. -/
theorem aliasesUnfinished_cons (taken : List String) (declaration : Located Alias)
    (types : List (Located Alias)) :
    AliasesUnfinished taken (declaration :: types) ↔
      (declaration.value.name ∉ taken ∧ declaration.value.base.value.holeFree = false) ∨
        AliasesUnfinished (declaration.value.name :: taken) types := by
  constructor
  · rintro ⟨before, later, after, htypes, hname, hhole⟩
    cases before with
    | nil =>
      obtain ⟨rfl, rfl⟩ := List.cons.inj htypes
      simp only [typeNames, List.map_nil, List.append_nil] at hname
      exact .inl ⟨hname, hhole⟩
    | cons first before =>
      obtain ⟨rfl, rfl⟩ := List.cons.inj htypes
      rw [mem_append_typeNames_cons] at hname
      exact .inr ⟨before, later, after, rfl, hname, hhole⟩
  · rintro (⟨hname, hhole⟩ | ⟨before, later, after, rfl, hname, hhole⟩)
    · exact ⟨[], declaration, types, rfl, by simpa [typeNames] using hname, hhole⟩
    · rw [← mem_append_typeNames_cons] at hname
      exact ⟨declaration :: before, later, after, rfl, hname, hhole⟩

/-- An alias whose name is taken is passed by, with its holes. -/
theorem aliasesUnfinished_cons_of_mem {taken : List String} {declaration : Located Alias}
    (h : declaration.value.name ∈ taken) (types : List (Located Alias)) :
    AliasesUnfinished taken (declaration :: types) ↔ AliasesUnfinished taken types := by
  have htaken : ∀ name, name ∈ declaration.value.name :: taken ↔ name ∈ taken := by
    intro name
    rw [List.mem_cons]
    exact ⟨fun hname => hname.elim (fun heq => heq ▸ h) id, .inr⟩
  rw [aliasesUnfinished_cons, aliasesUnfinished_congr htaken]
  exact ⟨fun hall => hall.elim (fun hfirst => absurd h hfirst.1) id, .inr⟩

theorem aliasesUnfinished_cons_of_not_mem {taken : List String} {declaration : Located Alias}
    (h : declaration.value.name ∉ taken) (types : List (Located Alias)) :
    AliasesUnfinished taken (declaration :: types) ↔
      declaration.value.base.value.holeFree = false ∨
        AliasesUnfinished (declaration.value.name :: taken) types := by
  rw [aliasesUnfinished_cons, and_iff_right h]

/-- Only a hole makes aliases unfinished. -/
theorem aliasesHoleFree_eq_false {taken : List String} {types : List (Located Alias)}
    (h : AliasesUnfinished taken types) : aliasesHoleFree types = false := by
  obtain ⟨before, declaration, after, rfl, -, hhole⟩ := h
  simp [aliasesHoleFree, hhole]

/-! ## Procedures and programs -/

theorem Procedure.anyUnfinished_cons (q : Located Procedure)
    (procedures : List (Located Procedure)) :
    Procedure.AnyUnfinished (q :: procedures) ↔
      q.value.Unfinished ∨ Procedure.AnyUnfinished procedures := by
  simp [Procedure.AnyUnfinished]

/-- The parts of a procedure in the order in which they are looked at. -/
theorem Procedure.unfinished_iff (p : Procedure) :
    p.Unfinished ↔
      parametersHoleFree p.params = false ∨ AliasesUnfinished p.ownNames p.types ∨
        variablesHoleFree p.vars = false ∨ Procedure.AnyUnfinished p.procedures ∨
        Statement.allHoleFree p.body = false := by
  constructor
  · intro h
    cases h with
    | params h => exact .inl h
    | types h => exact .inr (.inl h)
    | vars h => exact .inr (.inr (.inl h))
    | procedures q hq h => exact .inr (.inr (.inr (.inl ⟨q, hq, h⟩)))
    | body h => exact .inr (.inr (.inr (.inr h)))
  · rintro (h | h | h | ⟨q, hq, h⟩ | h)
    · exact .params h
    · exact .types h
    · exact .vars h
    · exact .procedures q hq h
    · exact .body h

theorem Procedure.allHoleFree_eq_false {q : Located Procedure}
    {procedures : List (Located Procedure)} (hq : q ∈ procedures)
    (h : q.value.holeFree = false) :
    Procedure.allHoleFree procedures = false := by
  induction procedures with
  | nil => cases hq
  | cons first procedures ih =>
    obtain ⟨p, procedure⟩ := first
    rw [Procedure.allHoleFree, Bool.and_eq_false_iff]
    rcases List.mem_cons.1 hq with rfl | hq
    · exact .inl h
    · exact .inr (ih hq)

theorem Procedure.holeFree_eq (p : Procedure) :
    p.holeFree = (parametersHoleFree p.params && aliasesHoleFree p.types
      && variablesHoleFree p.vars && Procedure.allHoleFree p.procedures
      && Statement.allHoleFree p.body) := by
  obtain ⟨name, params, types, vars, procedures, body⟩ := p
  rw [Procedure.holeFree]

/-- A hole that counts is a hole. -/
theorem Procedure.Unfinished.holeFree_eq_false {p : Procedure} (h : p.Unfinished) :
    p.holeFree = false := by
  induction h with
  | params h | vars h | body h => simp [Procedure.holeFree_eq, h]
  | types h => simp [Procedure.holeFree_eq, aliasesHoleFree_eq_false h]
  | procedures q hq _ ih => simp [Procedure.holeFree_eq, Procedure.allHoleFree_eq_false hq ih]

/-- A program without holes is finished. -/
theorem Program.not_unfinished {p : Program} (h : p.holeFree = true) : ¬ p.Unfinished := by
  have hparts : ((aliasesHoleFree p.declarations.types = true ∧
      variablesHoleFree p.declarations.vars = true) ∧
      Procedure.allHoleFree p.declarations.procedures = true) ∧
      Statement.allHoleFree p.body = true := by
    simpa [Program.holeFree] using h
  obtain ⟨⟨⟨htypes, hvars⟩, hprocedures⟩, hbody⟩ := hparts
  rintro (hhole | hhole | ⟨q, hq, hhole⟩ | hhole)
  · exact absurd (aliasesHoleFree_eq_false hhole) (by simp [htypes])
  · exact absurd hhole (by simp [hvars])
  · have hfound := Procedure.allHoleFree_eq_false hq hhole.holeFree_eq_false
    exact absurd hfound (by simp [hprocedures])
  · exact absurd hhole (by simp [hbody])

end SnlFront
