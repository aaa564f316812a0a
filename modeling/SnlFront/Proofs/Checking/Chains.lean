import Mathlib.Data.List.Forall2
import SnlFront.Proofs.Checking.Stops
import SnlFront.Proofs.Ty.Canonical

/-!
# Chains of operands

Operands are chained at two levels, terms by additive signs and factors by multiplicative ones, and
at both levels a chain nests to the right: each operand is compared with the type of the chain
behind it, after that chain has been checked. Seen as a flat row the same check has a simple form.
The operands are checked one after the other, as if each stood alone; then each pair of neighbours
is compared, from the last pair to the first; and the chain has the type of its first operand.

Compatibility is not transitive, so a chain may pass although its first and its last operand may not
meet. Where nothing is unknown, a chain passes exactly if all its operands have one type.

## Main definitions

* `Links`: the operands of a chain, with `Expression.links` and `Term.links`.
* `Links.checkChain`: the check of a chain, at both levels.
* `Links.mismatches`: what is reported about neighbours.
* `Links.CheckedFlat`: a chain is checked like a flat row.

## Main statements

* `Links.checkChain_eq`: the check of a chain, operand by operand.
* `Links.mismatches_eq_nil_iff`: no mismatch between known types.
* `checkedFlat_chains`: the chains of both levels.
-/

namespace SnlFront

/-! ## Operands in a row -/

/-- The operands of a chain: the first one and those behind it. Each of these stands where the part
of the chain stands that it is the first operand of. -/
structure Links (α : Type) where
  first : α
  others : List (Located α)

/-- The terms of an expression. -/
def Expression.links : Expression → Links Term
  | .last ⟨_, left⟩ _ => ⟨left, []⟩
  | .chain ⟨_, left⟩ _ ⟨p, right⟩ => ⟨left, ⟨p, right.links.first⟩ :: right.links.others⟩

/-- The factors of a term. -/
def Term.links : Term → Links Factor
  | .last ⟨_, left⟩ _ => ⟨left, []⟩
  | .chain ⟨_, left⟩ _ ⟨p, right⟩ => ⟨left, ⟨p, right.links.first⟩ :: right.links.others⟩

namespace Links

variable {α : Type}

/-- An operand has a type if it is checked on its own. The type is noted where the operand
stands. -/
def LinkHasType (check : α → Checked Ty) (link : Located α) (type : Located Ty) : Prop :=
  type.pos = link.pos ∧ (check link.value).value = .ok type.value

/-- The operands of a chain have types if each of them is checked on its own. -/
structure HaveTypes (check : α → Checked Ty) (links : Links α) (types : Links Ty) : Prop where
  first : (check links.first).value = .ok types.first
  others : List.Forall₂ (LinkHasType check) links.others types.others

/-- What is reported about the operands of a chain, each checked on its own. -/
def reports (check : α → Checked Ty) (links : Links α) : List (Located Diagnostic) :=
  (check links.first).log ++ links.others.flatMap fun link => (check link.value).log

/-- What is reported about two neighbours. -/
def mismatch? (τ : Ty) (next : Located Ty) : Option (Located Diagnostic) :=
  if τ.compatible next.value then none else some ⟨next.pos, .incompatibleType τ next.value⟩

/-- What is reported about all neighbours, from the last pair to the first. -/
def mismatches (types : Links Ty) : List (Located Diagnostic) :=
  ((types.first :: types.others.map Located.value).zip types.others).reverse.filterMap
    fun (τ, next) => mismatch? τ next

theorem mismatches_nil (τ : Ty) : mismatches ⟨τ, []⟩ = [] := rfl

/-- Mismatches are found from the last pair to the first, as the chain is checked from its end. -/
theorem mismatches_cons (τ : Ty) (next : Located Ty) (others : List (Located Ty)) :
    mismatches ⟨τ, next :: others⟩ =
      mismatches ⟨next.value, others⟩ ++ (mismatch? τ next).toList := by
  simp only [mismatches, List.map_cons, List.zip_cons_cons, List.reverse_cons,
    List.filterMap_append]
  cases h : mismatch? τ next <;> simp [h]

/-- Known types do not mismatch exactly if they are the same. -/
theorem mismatch?_eq_none_iff {τ : Ty} {next : Located Ty} (hτ : τ.Known)
    (hnext : next.value.Known) : mismatch? τ next = none ↔ next.value = τ := by
  rw [eq_comm (a := next.value), ← Ty.compatible_iff_eq hτ hnext, mismatch?]
  simp

/-- Between known types there is no mismatch exactly if they are all the same. -/
theorem mismatches_eq_nil_iff {first : Ty} {others : List (Located Ty)} (hfirst : first.Known)
    (hothers : ∀ type ∈ others, type.value.Known) :
    mismatches ⟨first, others⟩ = [] ↔ ∀ type ∈ others, type.value = first := by
  induction others generalizing first with
  | nil => simp [mismatches_nil]
  | cons next others ih =>
    obtain ⟨hnext, hothers⟩ := List.forall_mem_cons.1 hothers
    rw [mismatches_cons, List.append_eq_nil_iff, ih hnext hothers, Option.toList_eq_nil_iff,
      mismatch?_eq_none_iff hfirst hnext, List.forall_mem_cons]
    constructor
    · rintro ⟨hall, heq⟩
      exact ⟨heq, fun type htype => (hall type htype).trans heq⟩
    · rintro ⟨heq, hall⟩
      exact ⟨fun type htype => (hall type htype).trans heq.symm, heq⟩

/-! ## The check of a chain -/

/-- The check of a chain, given the check of a single operand. -/
def checkChain (check : α → Checked Ty) : α → List (Located α) → Checked Ty
  | first, [] => check first
  | first, ⟨p, next⟩ :: others => do
    let type ← check first
    let other ← checkChain check next others
    require (type.compatible other) p (.incompatibleType type other)
    return type

theorem require_compatible_eq (τ : Ty) (next : Located Ty) :
    require (τ.compatible next.value) next.pos (.incompatibleType τ next.value) =
      ⟨(mismatch? τ next).toList, .ok ()⟩ := by
  rw [require, Logged.demand, mismatch?]
  split <;> rfl

/-- A chain is checked operand by operand, and then neighbour by neighbour from its end. -/
theorem checkChain_eq {check : α → Checked Ty} {links : Links α} {types : Links Ty}
    (h : links.HaveTypes check types) :
    checkChain check links.first links.others =
      ⟨links.reports check ++ types.mismatches, .ok types.first⟩ := by
  obtain ⟨first, others⟩ := links
  obtain ⟨τ, rest⟩ := types
  obtain ⟨hfirst, hothers⟩ := h
  -- what stands behind the first operand has compared its own neighbours, from the end, before the
  -- first operand is compared with its neighbour
  induction others generalizing first τ rest with
  | nil =>
    cases hothers
    rw [checkChain, Logged.eq_mk_of_ok hfirst, reports, mismatches_nil]
    simp
  | cons link others ih =>
    obtain ⟨p, next⟩ := link
    cases hothers with
    | @cons _ type _ rest hlink hothers =>
      obtain ⟨rfl, hnext⟩ := hlink
      have hbehind := ih next type.value rest hnext hothers
      rw [checkChain, Logged.eq_mk_of_ok hfirst, Logged.mk_bind, hbehind, Logged.mk_bind,
        require_compatible_eq, Logged.mk_bind, reports, reports, mismatches_cons]
      simp

/-- Operands without holes have types if each is checked on its own. -/
theorem exists_haveTypes {check : α → Checked Ty} {free : α → Bool}
    (hcheck : ∀ a, (check a).StopsIff (free a = false)) {links : Links α}
    (hfirst : free links.first = true) (hothers : ∀ link ∈ links.others, free link.value = true) :
    ∃ types, links.HaveTypes check types := by
  obtain ⟨first, others⟩ := links
  have htype : ∀ a, free a = true → ∃ τ, (check a).value = .ok τ :=
    fun a ha => (hcheck a).ends (by simp [ha])
  obtain ⟨rest, hrest⟩ : ∃ rest, List.Forall₂ (LinkHasType check) others rest := by
    induction others with
    | nil => exact ⟨[], .nil⟩
    | cons link others ih =>
      obtain ⟨hlink, hothers⟩ := List.forall_mem_cons.1 hothers
      obtain ⟨σ, hσ⟩ := htype link.value hlink
      obtain ⟨rest, hrest⟩ := ih hfirst hothers
      exact ⟨⟨link.pos, σ⟩ :: rest, .cons ⟨rfl, hσ⟩ hrest⟩
  obtain ⟨τ, hτ⟩ := htype first hfirst
  exact ⟨⟨τ, rest⟩, hτ, hrest⟩

/-- A chain is checked like a flat row of operands. What its operands report on their own comes
first, then the mismatches of neighbours from the end, and nothing else; its type is that of the
first operand. If nothing is unknown of the operands, there is no mismatch exactly if they all have
one type. -/
structure CheckedFlat (check : α → Checked Ty) (links : Links α) (chain : Checked Ty) : Prop where
  eq : ∀ types, links.HaveTypes check types →
    chain = ⟨links.reports check ++ types.mismatches, .ok types.first⟩
  same_iff : ∀ types, links.HaveTypes check types → types.first.Known →
    (∀ type ∈ types.others, type.value.Known) →
    (chain.log = links.reports check ↔ ∀ type ∈ types.others, type.value = types.first)

theorem checkedFlat_checkChain (check : α → Checked Ty) (links : Links α) :
    links.CheckedFlat check (checkChain check links.first links.others) where
  eq _ htypes := checkChain_eq htypes
  same_iff types htypes hfirst hothers := by
    rw [checkChain_eq htypes, ← mismatches_eq_nil_iff hfirst hothers]
    exact List.append_right_eq_self

end Links

/-! ## Both levels -/

/-- An expression is checked as the chain of its terms, -/
theorem Expression.check_eq_checkChain (s : Scope) (e : Expression) :
    e.check s = Links.checkChain (Term.check s) e.links.first e.links.others := by
  fun_induction Expression.links e with
  | case1 p left sign => rw [Expression.check, Links.checkChain]
  | case2 q left sign p right ih => rw [Expression.check, Links.checkChain, ih]

/-- and a term as the chain of its factors. -/
theorem Term.check_eq_checkChain (s : Scope) (t : Term) :
    t.check s = Links.checkChain (Factor.check s) t.links.first t.links.others := by
  fun_induction Term.links t with
  | case1 p left sign => rw [Term.check, Links.checkChain]
  | case2 q left sign p right ih => rw [Term.check, Links.checkChain, ih]

theorem Expression.holeFree_links {e : Expression} (h : e.holeFree = true) :
    e.links.first.holeFree = true ∧ ∀ link ∈ e.links.others, link.value.holeFree = true := by
  fun_induction Expression.links e with
  | case1 p left sign => exact ⟨h, nofun⟩
  | case2 q left sign p right ih =>
    rw [Expression.holeFree, Bool.and_eq_true] at h
    exact ⟨h.1, List.forall_mem_cons.2 (ih h.2)⟩

theorem Term.holeFree_links {t : Term} (h : t.holeFree = true) :
    t.links.first.holeFree = true ∧ ∀ link ∈ t.links.others, link.value.holeFree = true := by
  fun_induction Term.links t with
  | case1 p left sign => exact ⟨h, nofun⟩
  | case2 q left sign p right ih =>
    rw [Term.holeFree, Bool.and_eq_true] at h
    exact ⟨h.1, List.forall_mem_cons.2 (ih h.2)⟩

/-- Chains of terms and chains of factors, of any length, are checked like flat rows of operands;
and if a chain has no hole, each of its operands has a type when it is checked on its own. -/
theorem checkedFlat_chains (s : Scope) :
    (∀ e : Expression, e.links.CheckedFlat (Term.check s) (e.check s) ∧
      (e.holeFree = true → ∃ types, e.links.HaveTypes (Term.check s) types)) ∧
    (∀ t : Term, t.links.CheckedFlat (Factor.check s) (t.check s) ∧
      (t.holeFree = true → ∃ types, t.links.HaveTypes (Factor.check s) types)) := by
  refine ⟨fun e => ⟨?_, fun h => ?_⟩, fun t => ⟨?_, fun h => ?_⟩⟩
  · rw [e.check_eq_checkChain s]
    exact Links.checkedFlat_checkChain (Term.check s) e.links
  · obtain ⟨hfirst, hothers⟩ := Expression.holeFree_links h
    exact Links.exists_haveTypes (Term.stops_check s) hfirst hothers
  · rw [t.check_eq_checkChain s]
    exact Links.checkedFlat_checkChain (Factor.check s) t.links
  · obtain ⟨hfirst, hothers⟩ := Term.holeFree_links h
    exact Links.exists_haveTypes (Factor.stops_check s) hfirst hothers

/-- A scope with a number and a letter. -/
def mixedScope : Scope :=
  (Scope.empty.declare "n" (.variable .integer)).declare "c" (.variable .char)

/-- The number, the letter, and the number times an unknown name, chained by additive signs. -/
def mixedChain : Expression :=
  .chain ⟨⟨1, 1⟩, .last ⟨⟨1, 1⟩, .variable (.whole ⟨⟨1, 1⟩, "n"⟩)⟩ none⟩ (some "+")
    ⟨⟨1, 5⟩, .chain ⟨⟨1, 5⟩, .last ⟨⟨1, 5⟩, .variable (.whole ⟨⟨1, 5⟩, "c"⟩)⟩ none⟩ (some "+")
      ⟨⟨1, 9⟩, .last ⟨⟨1, 9⟩, .chain ⟨⟨1, 9⟩, .variable (.whole ⟨⟨1, 9⟩, "n"⟩)⟩ (some "*")
        ⟨⟨1, 13⟩, .last ⟨⟨1, 13⟩, .variable (.whole ⟨⟨1, 13⟩, "m"⟩)⟩ none⟩⟩ none⟩⟩

theorem mixedChain_check :
    mixedChain.holeFree = true ∧
      mixedChain.links.HaveTypes (Term.check mixedScope)
        ⟨.integer, [⟨⟨1, 5⟩, .char⟩, ⟨⟨1, 9⟩, .integer⟩]⟩ ∧
      mixedChain.check mixedScope =
        ⟨[⟨⟨1, 13⟩, .undefinedIdentifier "m"⟩, ⟨⟨1, 9⟩, .incompatibleType .char .integer⟩,
          ⟨⟨1, 5⟩, .incompatibleType .integer .char⟩], .ok .integer⟩ := by
  have htypes : mixedChain.links.HaveTypes (Term.check mixedScope)
      ⟨.integer, [⟨⟨1, 5⟩, .char⟩, ⟨⟨1, 9⟩, .integer⟩]⟩ :=
    ⟨rfl, .cons ⟨rfl, rfl⟩ (.cons ⟨rfl, rfl⟩ .nil)⟩
  obtain ⟨hflat, -⟩ := (checkedFlat_chains mixedScope).1 mixedChain
  exact ⟨rfl, htypes, hflat.eq _ htypes⟩

end SnlFront
