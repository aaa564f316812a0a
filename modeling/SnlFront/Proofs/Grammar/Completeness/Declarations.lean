import SnlFront.Proofs.Grammar.Completeness.Statements

/-!
# Derived declarations and programs are read

Types, the declarations of a level in their order, procedures and programs. The lists of a level are
recursive on the left: what was read so far is in the outline, and one more declaration extends it.

## Main statements

* `DerivesType.continues`, `DerivesGroup.continues`: types, and names with a common type.
* `DerivesDeclarations.continues`, `DerivesProcedure.continues`: the declarations of a level.
* `DerivesProgram.accepts`: a derived program is accepted.
-/

namespace SnlFront.Parsing

variable {us vs : Tokens} {p : Located Program}

/-! ## Types -/

/-- Names with commas between them are read up to the last one. -/
theorem DerivesNames.accepts {names : List (Located String)} (h : DerivesNames us names)
    {type : Located TypeExpr} {place : GroupPlace}
    (hvs : (State.names type names place).Accepts vs p) :
    (State.nameDue type [] place).Accepts (us ++ vs) p := by
  induction h generalizing vs with
  | one q name => exact .cons rfl hvs
  | more q r name h ih =>
    rw [List.append_assoc]
    exact ih (.cons rfl (.cons rfl hvs))

/-- Behind a name a group may end. -/
theorem names_accepts {type : Located TypeExpr} {names : List (Located String)}
    {place : GroupPlace} (h : Continues (afterGroup ⟨type, names⟩ place) vs p) :
    (State.names type names place).Accepts vs p := by
  refine h.accepts fun t s hs => ?_
  obtain ⟨q, value⟩ := t
  cases value with
  | ident | number | keyword => cases hs
  | mark mark =>
    cases mark with
    | comma =>
      have hnone := place.close_comma ⟨type, names⟩
      exact absurd (hnone.symm.trans hs) (by simp)
    | _ => exact hs

/-- An array ends with its base type. -/
theorem DerivesBase.accepts {base : BaseType} (h : DerivesBase us base) {start : Position}
    {lower upper : Nat} {place : TypePlace}
    (hvs : (place.close ⟨start, .array base lower upper⟩).Accepts vs p) :
    (State.array start (.element lower upper) place).Accepts (us ++ vs) p := by
  cases h with
  | integer | char => exact .cons rfl hvs

theorem fields_accepts {start : Position} {before : List Group} {place : TypePlace}
    (h : Continues (startType (.group (.fields start before place))) vs p) :
    (State.fields start before place).Accepts vs p := by
  refine h.accepts fun t s hs => ?_
  rw [State.push]
  split
  · next hend =>
    rw [startType, hend] at hs
    cases hs
  · exact hs

mutual

/-- What is derived as a type is read as one, and the place it was read for goes on. The induction
is on the derivation, through the groups of records. -/
theorem DerivesType.continues {us vs : Tokens} {type : Located TypeExpr} (place : TypePlace) :
    DerivesType us type → (place.close type).Accepts vs p →
    Continues (startType place) (us ++ vs) p
  | .integer _, hvs => .cons rfl hvs
  | .char _, hvs => .cons rfl hvs
  | .named _ _, hvs => .cons rfl hvs
  | .array _ _ _ _ _ _ _ _ _ hbase, hvs => by
    have hrest := hbase.accepts hvs
    simp only [List.append_assoc]
    exact .cons rfl (.cons rfl (.cons rfl (.cons rfl (.cons rfl (.cons rfl (.cons rfl hrest))))))
  | @DerivesType.record _ fields start q hfields, hvs => by
    have hend : (State.fields start fields place).Accepts ([⟨q, .keyword .end⟩] ++ vs) p :=
      .cons rfl hvs
    have hrest := DerivesFields.continues start place hfields hend
    simp only [List.append_assoc]
    exact .cons rfl (hrest.accepts fun _ _ hs => hs)

/-- A group is a type with names behind it. -/
theorem DerivesGroup.continues {us vs : Tokens} {group : Located Group} (place : GroupPlace) :
    DerivesGroup us group → Continues (afterGroup group.value place) vs p →
    Continues (startType (.group place)) (us ++ vs) p
  | .intro htype hnames, hvs => by
    have hrest := hnames.accepts (names_accepts hvs)
    rw [List.append_assoc]
    exact DerivesType.continues (.group place) htype hrest

/-- The groups of a record are read with a semicolon behind each. -/
theorem DerivesFields.continues {us vs : Tokens} {fields : List Group} (start : Position)
    (place : TypePlace) :
    DerivesFields us fields → (State.fields start fields place).Accepts vs p →
    Continues (startType (.group (.fields start [] place))) (us ++ vs) p
  | .one _ hgroup, hvs => by
    rw [List.append_assoc]
    exact DerivesGroup.continues _ hgroup (.cons rfl hvs)
  | @DerivesFields.more _ _ before group q hfields hgroup, hvs => by
    have hsemi : Continues (afterGroup group.value (.fields start before place))
        ([⟨q, .mark .semi⟩] ++ vs) p := .cons rfl hvs
    have hlast := DerivesGroup.continues (.fields start before place) hgroup hsemi
    simp only [List.append_assoc]
    exact DerivesFields.continues start place hfields (fields_accepts hlast)

end

/-! ## Types and variables of a level -/

/-- An alias is read behind the word that opens the types, or behind another alias. -/
theorem DerivesAlias.accepts {declaration : Located Alias} (h : DerivesAlias us declaration)
    (outline : Outline) {stage : Stage} (hstage : stage = .typesOpened ∨ stage = .types)
    (hvs : (State.declaring .types (outline.addType declaration)).Accepts vs p) :
    (State.declaring stage outline).Accepts (us ++ vs) p := by
  cases h with
  | intro q _ r name hbase =>
    have hsemi : (State.aliasBase ⟨q, name⟩ _ outline).Accepts ([⟨r, .mark .semi⟩] ++ vs) p :=
      .cons rfl hvs
    have hrest := hbase.continues (.alias ⟨q, name⟩ outline) hsemi
    simp only [List.append_assoc]
    rcases hstage with rfl | rfl
    · exact .cons rfl (.cons rfl (hrest.accepts fun _ _ hs => hs))
    · exact .cons rfl (.cons rfl (hrest.accepts fun _ _ hs => hs))

theorem DerivesAliases.accepts {declarations : List (Located Alias)} {head : Head}
    (h : DerivesAliases us declarations)
    (hvs : (State.declaring .types ⟨head, declarations, [], []⟩).Accepts vs p) :
    (State.declaring .typesOpened (.start head)).Accepts (us ++ vs) p := by
  induction h generalizing vs with
  | one hlast => exact hlast.accepts (.start head) (.inl rfl) hvs
  | @more _ _ before _ _ hlast ih =>
    rw [List.append_assoc]
    exact ih (hlast.accepts ⟨head, before, [], []⟩ (.inr rfl) hvs)

theorem types_accepts {outline : Outline}
    (h : Continues (fun t => afterTypes outline t.value) vs p) :
    (State.declaring .types outline).Accepts vs p := by
  refine h.accepts fun t s hs => ?_
  change declare outline t .types = some s
  rw [declare]
  unfold afterTypes at hs
  split
  · next hname =>
    simp only [hname] at hs
    cases hs
  · next hvar => simpa only [hvar] using hs
  · next hvar => simpa [hvar] using hs

/-- The types of a level may be left out altogether. -/
theorem DerivesTypePart.continues {types : List (Located Alias)} {head : Head}
    (h : DerivesTypePart us types)
    (hvs : Continues (fun t => afterTypes ⟨head, types, [], []⟩ t.value) vs p) :
    Continues (declare.declareFirst (.start head)) (us ++ vs) p := by
  cases h with
  | none =>
    refine hvs.mono fun t s hs => ?_
    unfold declare.declareFirst
    unfold afterTypes at hs
    split
    · next htype =>
      simp only [htype] at hs
      cases hs
    · next hvar =>
      simp only [hvar] at hs
      exact hs
    · simp only at hs
      exact hs
  | some q haliases => exact .cons rfl (haliases.accepts (types_accepts hvs))

theorem vars_accepts {outline : Outline}
    (h : Continues (startType (.group (.vars outline))) vs p) :
    (State.declaring .vars outline).Accepts vs p := by
  refine h.accepts fun t s hs => ?_
  change (startType (.group (.vars outline)) t).or (startProcedureOrBody outline t.value) = some s
  rw [hs, Option.some_or]

theorem vars_accepts_end {outline : Outline}
    (h : Continues (fun t => startProcedureOrBody outline t.value) vs p) :
    (State.declaring .vars outline).Accepts vs p := by
  refine h.accepts fun t s hs => ?_
  have hnone : startType (.group (.vars outline)) t = none := by
    unfold startProcedureOrBody at hs
    split at hs
    · next hprocedure => simp [startType, hprocedure]
    · next hbegin => simp [startType, hbegin]
    · cases hs
  change (startType (.group (.vars outline)) t).or (startProcedureOrBody outline t.value) = some s
  rw [hnone, Option.none_or]
  exact hs

/-- Variable groups are read with a semicolon behind each. -/
theorem DerivesVariables.accepts {groups : List (Located Group)} {head : Head}
    {types : List (Located Alias)} (h : DerivesVariables us groups)
    (hvs : (State.declaring .vars ⟨head, types, groups, []⟩).Accepts vs p) :
    (State.declaring .varsOpened ⟨head, types, [], []⟩).Accepts (us ++ vs) p := by
  induction h generalizing vs with
  | one q hgroup =>
    rw [hgroup.pos_eq] at hvs
    have hrest := hgroup.continues (.vars ⟨head, types, [], []⟩)
      (.cons (t := ⟨q, .mark .semi⟩) rfl hvs)
    rw [List.append_assoc]
    exact hrest.accepts fun _ _ hs => hs
  | @more _ _ before _ q _ hgroup ih =>
    rw [hgroup.pos_eq] at hvs
    have hrest := hgroup.continues (.vars ⟨head, types, before, []⟩)
      (.cons (t := ⟨q, .mark .semi⟩) rfl hvs)
    simp only [List.append_assoc]
    exact ih (vars_accepts hrest)

/-- The variables of a level may be left out altogether. -/
theorem DerivesVarPart.continues {groups : List (Located Group)} {head : Head}
    {types : List (Located Alias)} (h : DerivesVarPart us groups)
    (hvs : Continues (fun t => startProcedureOrBody ⟨head, types, groups, []⟩ t.value) vs p) :
    Continues (fun t => afterTypes ⟨head, types, [], []⟩ t.value) (us ++ vs) p := by
  cases h with
  | none =>
    refine hvs.mono fun t s hs => ?_
    unfold afterTypes
    split
    · next hvar =>
      simp only [hvar] at hs
      cases hs
    · exact hs
  | some q hgroups => exact .cons rfl (hgroups.accepts (vars_accepts_end hvs))

/-! ## Parameters -/

/-- A parameter without a word in front starts as a type does. -/
theorem startParameter_of_startType {before : List (Located Parameter)} {name : Located String}
    {outer : Outline} {t : Located Token} {s : State}
    (h : startType (.group (.params none before name outer)) t = some s) :
    startParameter before name outer t = some s := by
  unfold startParameter
  split
  · next hvar =>
    rw [startType, hvar] at h
    cases h
  · exact h

/-- A parameter is read by value or by reference. -/
theorem DerivesParameter.continues {param : Located Parameter} (h : DerivesParameter us param)
    {before : List (Located Parameter)} {name : Located String} {outer : Outline}
    (hvs : Continues (fun t => afterParameter (before ++ [param]) name outer t.value) vs p) :
    Continues (startParameter before name outer) (us ++ vs) p := by
  cases h with
  | @byValue _ group hgroup =>
    have hparam : parameter none group.value = ⟨group.pos, false, group.value⟩ := by
      rw [hgroup.pos_eq]
      rfl
    rw [← hparam, ← afterGroup_params] at hvs
    exact (hgroup.continues _ hvs).mono fun _ _ => startParameter_of_startType
  | @byReference _ group q hgroup =>
    have hparam : parameter (some q) group.value = ⟨q, true, group.value⟩ := rfl
    rw [← hparam, ← afterGroup_params] at hvs
    exact .cons rfl ((hgroup.continues _ hvs).accepts fun _ _ hs => hs)

theorem DerivesParameters.continues {params : List (Located Parameter)}
    (h : DerivesParameters us params) {name : Located String} {outer : Outline}
    (hvs : Continues (fun t => afterParameter params name outer t.value) vs p) :
    Continues (startParameter [] name outer) (us ++ vs) p := by
  induction h generalizing vs with
  | one hparam => exact hparam.continues hvs
  | more q _ hparam ih =>
    have hrest := hparam.continues hvs
    simp only [List.append_assoc]
    exact ih (.cons rfl (hrest.accepts fun _ _ hs => hs))

theorem DerivesParameterList.accepts {params : List (Located Parameter)}
    (h : DerivesParameterList us params) {name : Located String} {outer : Outline} (q : Position)
    (hvs : (State.paramsClosed params name outer).Accepts vs p) :
    (State.paramsOpened name outer).Accepts (us ++ ([⟨q, .mark .rparen⟩] ++ vs)) p := by
  cases h with
  | none => exact .cons rfl hvs
  | some hparams =>
    have hrest := hparams.continues (.cons (t := ⟨q, .mark .rparen⟩) rfl hvs)
    refine hrest.accepts fun t s hs => ?_
    rw [State.push]
    split
    · next hparen =>
      simp only [startParameter, startType, hparen] at hs
      cases hs
    · exact hs

/-! ## Procedures and programs -/

/-- A semicolon behind a procedure changes nothing. -/
theorem OptionalSemi.procedureEnded_accepts {outline : Outline} (h : OptionalSemi us)
    (hvs : Continues (fun t => startProcedureOrBody outline t.value) vs p) :
    (State.declaring .procedureEnded outline).Accepts (us ++ vs) p := by
  cases h with
  | missing =>
    refine hvs.accepts fun t s hs => ?_
    change declare outline t .procedureEnded = some s
    rw [declare]
    split
    · next hsemi =>
      rw [hsemi] at hs
      cases hs
    · exact hs
  | present q => exact .cons rfl (hvs.accepts fun _ _ hs => hs)

/-- A semicolon behind the name of the program changes nothing. -/
theorem OptionalSemi.named_accepts {outline : Outline} (h : OptionalSemi us)
    (hvs : Continues (declare.declareFirst outline) vs p) :
    (State.declaring .named outline).Accepts (us ++ vs) p := by
  cases h with
  | missing =>
    refine hvs.accepts fun t s hs => ?_
    change declare outline t .named = some s
    rw [declare]
    split
    · next hsemi =>
      simp only [declare.declareFirst, hsemi] at hs
      cases hs
    · exact hs
  | present q => exact .cons rfl (hvs.accepts fun _ _ hs => hs)

mutual

/-- What is derived as a procedure is read as one, and the level around it goes on. -/
theorem DerivesProcedure.continues {us vs : Tokens} {procedure : Located Procedure}
    (outer : Outline) :
    DerivesProcedure us procedure →
    Continues (fun t => startProcedureOrBody (outer.addProcedure procedure) t.value) vs p →
    Continues (fun t => startProcedureOrBody outer t.value) (us ++ vs) p
  | @DerivesProcedure.intro _ _ _ _ params inside _ _ q _ q₃ q₄ q₅ q₆ name hparams hinside hbody
      hsemi, hvs => by
    let head : Head := .procedure ⟨q, name⟩ params outer
    let outline : Outline := ⟨head, inside.types, inside.vars, inside.procedures⟩
    have hend := hbody.accepts (.body outline) q₆ .end rfl (hsemi.procedureEnded_accepts hvs)
    have hinside := DerivesDeclarations.continues head hinside
      (.cons (t := ⟨q₅, .keyword .begin⟩) rfl hend)
    have hopened : (State.declaring .opened (.start head)).Accepts _ p :=
      hinside.accepts fun _ _ hs => hs
    have hparams := hparams.accepts q₃ (.cons (t := ⟨q₄, .mark .semi⟩) rfl hopened)
    simp only [List.append_assoc]
    exact .cons rfl (.cons rfl (.cons rfl hparams))

/-- Procedures of a level are read one after the other, up to its body. -/
theorem DerivesProcedures.continues {us vs : Tokens} {procedures : List (Located Procedure)}
    (head : Head) (types : List (Located Alias)) (vars : List (Located Group)) :
    DerivesProcedures us procedures →
    Continues (fun t => startProcedureOrBody ⟨head, types, vars, procedures⟩ t.value) vs p →
    Continues (fun t => startProcedureOrBody ⟨head, types, vars, []⟩ t.value) (us ++ vs) p
  | .none, hvs => hvs
  | @DerivesProcedures.more _ _ before _ hbefore hprocedure, hvs => by
    rw [List.append_assoc]
    exact DerivesProcedures.continues head types vars hbefore
      (DerivesProcedure.continues ⟨head, types, vars, before⟩ hprocedure hvs)

/-- The declarations of a level are read up to its body. -/
theorem DerivesDeclarations.continues {us vs : Tokens} {inside : Declarations} (head : Head) :
    DerivesDeclarations us inside →
    Continues (fun t =>
      startProcedureOrBody ⟨head, inside.types, inside.vars, inside.procedures⟩ t.value) vs p →
    Continues (declare.declareFirst (.start head)) (us ++ vs) p
  | .intro htypes hvars hprocedures, hvs => by
    have hrest := DerivesProcedures.continues head _ _ hprocedures hvs
    simp only [List.append_assoc]
    exact htypes.continues (hvars.continues hrest)

end

/-- A derived program is accepted, with its tree. -/
theorem DerivesProgram.accepts {ts : Tokens} (h : DerivesProgram ts p) :
    State.empty.Accepts ts p := by
  cases h with
  | @intro _ _ _ inside body q _ q₂ q₃ q₄ name hsemi hinside hbody =>
    let head : Head := .program q name
    let outline : Outline := ⟨head, inside.types, inside.vars, inside.procedures⟩
    have hdot : (outline.close body).Accepts [⟨q₄, .mark .dot⟩] ⟨q, name, inside, body⟩ :=
      .cons rfl rfl
    have hend := hbody.accepts (.body outline) q₃ .end rfl hdot
    have hinside := hinside.continues head (.cons (t := ⟨q₂, .keyword .begin⟩) rfl hend)
    have hnamed := hsemi.named_accepts hinside
    simp only [List.append_assoc]
    exact .cons rfl (.cons rfl hnamed)

end SnlFront.Parsing
