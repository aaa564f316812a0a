import SnlFront.Proofs.Grammar.Soundness.Statements

/-!
# What is read as a declaration or a program is derived

Types, the declarations of a level in their order, procedures and programs. The derivation of a list
is extended with each of its members, up to the token that is none.

## Main statements

* `type_of_continues`, `group_of_continues`: what is read where a type may start.
* `declarations_of_continues`, `procedure_of_accepts`: what is read as declarations.
* `derivesProgram_of_accepts`: an accepted program is derived.
-/

namespace SnlFront.Parsing

variable {p : Located Program}

/-! ## Types -/

/-- Names with commas between them are read as the longest such row. What was read before is carried
along, as the derivation of the row so far. -/
theorem names_of_accepts (type : Located TypeExpr) (place : GroupPlace)
    {before : List (Located String)} {us : Tokens} (ts : Tokens)
    (hbefore : DerivesNames us before) (h : (State.names type before place).Accepts ts p) :
    Begins (fun vs names => DerivesNames (us ++ vs) names)
      (fun names rest => Continues (afterGroup ⟨type, names⟩ place) rest p) ts := by
  obtain ⟨⟨q, value⟩, vs, s, hts, hs, hvs⟩ := h.step rfl
  simp only [State.push] at hs
  split at hs
  · cases hs
    -- A comma and a name extend the derivation of the names before them.
    obtain ⟨r, name, ws, hws, hrest⟩ := (hvs.continues rfl).expectOf .ident
      (fun r name => .names type (before ++ [⟨r, name⟩]) place) (by grind [State.push])
    have hlength : ws.length < ts.length := by
      simp only [hts, hws, List.length_append, List.length_cons]
      omega
    obtain ⟨xs, ys, names, hxs, hnames, hys⟩ :=
      names_of_accepts type place ws (.more q r name hbefore) hrest
    refine ⟨[⟨q, .mark .comma⟩, ⟨r, .ident name⟩] ++ xs, ys, names, ?_, ?_, hys⟩
    · simp [hts, hws, hxs]
    · simpa using hnames
  · exact ⟨[], ts, before, rfl, by simpa using hbefore, _, vs, s, hts, hs, hvs⟩
  · cases hs
termination_by ts.length

/-- Behind a group of a record comes its end or another group. -/
theorem fields_cases {start : Position} {before : List Group} {place : TypePlace} {ts : Tokens}
    (h : (State.fields start before place).Accepts ts p) :
    (∃ q us, ts = [⟨q, .keyword .end⟩] ++ us ∧
      (place.close ⟨start, .record before⟩).Accepts us p) ∨
    Continues (startType (.group (.fields start before place))) ts p := by
  obtain ⟨⟨q, value⟩, us, s, hts, hs, hus⟩ := h.step rfl
  simp only [State.push] at hs
  split at hs
  · cases hs
    exact .inl ⟨q, us, hts, hus⟩
  · exact .inr ⟨_, us, s, hts, hs, hus⟩

/-- An array ends with a base type. -/
theorem elementType_of_accepts {start : Position} {lower upper : Nat} {place : TypePlace}
    {ts : Tokens} (h : (State.array start (.element lower upper) place).Accepts ts p) :
    Begins DerivesBase (fun base rest =>
      (place.close ⟨start, .array base lower upper⟩).Accepts rest p) ts := by
  obtain ⟨⟨q, value⟩, us, s, hts, hs, hus⟩ := h.step rfl
  have hvalue : value = .keyword .integer ∧ s = place.close ⟨start, .array .integer lower upper⟩ ∨
      value = .keyword .char ∧ s = place.close ⟨start, .array .char lower upper⟩ := by
    grind [State.push, continueArray.eq_def]
  rcases hvalue with ⟨rfl, rfl⟩ | ⟨rfl, rfl⟩
  · exact ⟨[_], us, _, hts, .integer q, hus⟩
  · exact ⟨[_], us, _, hts, .char q, hus⟩

/-- What is read behind the word for an array was derived as one. -/
theorem array_of_accepts {start : Position} {place : TypePlace} {ts : Tokens}
    (h : (State.array start .word place).Accepts ts p) :
    Begins (fun us => DerivesType ([⟨start, .keyword .array⟩] ++ us))
      (fun type rest => (place.close type).Accepts rest p) ts := by
  obtain ⟨q₁, ts₁, hts₁, h₁⟩ := (h.continues rfl).expect (.mark .lbracket)
    (.array start .bracket place) (by grind [State.push, continueArray.eq_def])
  obtain ⟨q₂, lower, ts₂, hts₂, h₂⟩ := (h₁.continues rfl).expectOf .number
    (fun _ lower => .array start (.lower lower) place) (by grind [State.push, continueArray.eq_def])
  obtain ⟨q₃, ts₃, hts₃, h₃⟩ := (h₂.continues rfl).expect (.mark .range)
    (.array start (.range lower) place) (by grind [State.push, continueArray.eq_def])
  obtain ⟨q₄, upper, ts₄, hts₄, h₄⟩ := (h₃.continues rfl).expectOf .number
    (fun _ upper => .array start (.upper lower upper) place)
    (by grind [State.push, continueArray.eq_def])
  obtain ⟨q₅, ts₅, hts₅, h₅⟩ := (h₄.continues rfl).expect (.mark .rbracket)
    (.array start (.closed lower upper) place) (by grind [State.push, continueArray.eq_def])
  obtain ⟨q₆, ts₆, hts₆, h₆⟩ := (h₅.continues rfl).expect (.keyword .of)
    (.array start (.element lower upper) place) (by grind [State.push, continueArray.eq_def])
  obtain ⟨us, vs, base, hus, hbase, hvs⟩ := elementType_of_accepts h₆
  refine ⟨[⟨q₁, .mark .lbracket⟩, ⟨q₂, .number lower⟩, ⟨q₃, .mark .range⟩, ⟨q₄, .number upper⟩,
    ⟨q₅, .mark .rbracket⟩, ⟨q₆, .keyword .of⟩] ++ us, vs, _, ?_,
    .array start q₁ q₂ q₃ q₄ q₅ q₆ lower upper hbase, hvs⟩
  simp [hts₁, hts₂, hts₃, hts₄, hts₅, hts₆, hus]

mutual

/-- Where a type may start, a type is read. -/
theorem type_of_continues (place : TypePlace) (ts : Tokens) (h : Continues (startType place) ts p) :
    Begins DerivesType (fun type rest => (place.close type).Accepts rest p) ts := by
  obtain ⟨⟨q, value⟩, us, s, hts, hs, hus⟩ := h
  unfold startType at hs
  split at hs
  · next hinteger =>
    cases hinteger
    cases hs
    exact ⟨[_], us, _, hts, .integer q, hus⟩
  · next hchar =>
    cases hchar
    cases hs
    exact ⟨[_], us, _, hts, .char q, hus⟩
  · next name hname =>
    cases hname
    cases hs
    exact ⟨[_], us, _, hts, .named q name, hus⟩
  · next harray =>
    cases harray
    cases hs
    obtain ⟨vs, ws, type, hvs, htype, hws⟩ := array_of_accepts hus
    refine ⟨[⟨q, .keyword .array⟩] ++ vs, ws, type, ?_, htype, hws⟩
    simp [hts, hvs]
  · next hrecord =>
    cases hrecord
    cases hs
    have hlength : us.length < ts.length := by simp [hts]
    obtain ⟨vs, r, ws, group, hvs, hgroup, hfields⟩ :=
      (group_of_continues (.fields q [] place) us (hus.continues rfl)).expect (.mark .semi)
        (fun group => .fields q [group.value] place) (by grind [afterGroup, GroupPlace.close])
    have hlength' : ws.length < ts.length := by
      simp only [hts, hvs, List.length_append, List.length_cons]
      omega
    obtain ⟨xs, ys, fields, hxs, hfields, r', rest, hys, hrest⟩ :=
      fields_of_accepts q place ws (.one r hgroup) hfields
    refine ⟨[⟨q, .keyword .record⟩] ++ (vs ++ [⟨r, .mark .semi⟩] ++ xs) ++ [⟨r', .keyword .end⟩],
      rest, _, ?_, .record q r' hfields, hrest⟩
    simp [hts, hvs, hxs, hys]
  · cases hs
termination_by (ts.length, 0)

/-- What is read as a group was derived as one. -/
theorem group_of_continues (place : GroupPlace) (ts : Tokens)
    (h : Continues (startType (.group place)) ts p) :
    Begins DerivesGroup (fun group rest => Continues (afterGroup group.value place) rest p) ts := by
  obtain ⟨us, vs, type, hts, htype, hvs⟩ := type_of_continues (.group place) ts h
  obtain ⟨q, name, ws, hws, hrest⟩ := (hvs.continues rfl).expectOf .ident
    (fun q name => .names type [⟨q, name⟩] place)
    (by grind [State.push, TypePlace.close])
  obtain ⟨xs, ys, names, hxs, hnames, hys⟩ := names_of_accepts type place ws (.one q name) hrest
  refine ⟨us ++ ([⟨q, .ident name⟩] ++ xs), ys, _, ?_, .intro htype hnames, hys⟩
  simp [hts, hws, hxs]
termination_by (ts.length, 1)

/-- The groups of a record are a derived row, however many there are. -/
theorem fields_of_accepts (start : Position) (place : TypePlace) {before : List Group}
    {us : Tokens} (ts : Tokens) (hbefore : DerivesFields us before)
    (h : (State.fields start before place).Accepts ts p) :
    Begins (fun vs fields => DerivesFields (us ++ vs) fields) (fun fields rest =>
      ∃ q vs, rest = [⟨q, .keyword .end⟩] ++ vs ∧
        (place.close ⟨start, .record fields⟩).Accepts vs p) ts := by
  rcases fields_cases h with hend | hgroup
  · exact ⟨[], ts, before, rfl, by simpa using hbefore, hend⟩
  · obtain ⟨vs, r, ws, group, hvs, hgroup, hfields⟩ :=
      (group_of_continues (.fields start before place) ts hgroup).expect (.mark .semi)
        (fun group => .fields start (before ++ [group.value]) place)
        (by grind [afterGroup, GroupPlace.close])
    have hlength : ws.length < ts.length := by
      simp only [hvs, List.length_append, List.length_cons]
      omega
    obtain ⟨xs, ys, fields, hxs, hfields, hend⟩ :=
      fields_of_accepts start place ws (.more r hbefore hgroup) hfields
    refine ⟨vs ++ [⟨r, .mark .semi⟩] ++ xs, ys, fields, ?_, ?_, hend⟩
    · simp [hvs, hxs]
    · simpa using hfields
termination_by (ts.length, 2)

end

/-! ## Types and variables of a level -/

/-- What is read as an alias was derived as one. -/
theorem alias_of_accepts {q : Position} {name : String} {outline : Outline} {ts : Tokens}
    (h : (State.aliasName ⟨q, name⟩ outline).Accepts ts p) :
    Begins (fun us => DerivesAlias ([⟨q, .ident name⟩] ++ us)) (fun declaration rest =>
      (State.declaring .types (outline.addType declaration)).Accepts rest p) ts := by
  obtain ⟨q₁, us, hts, hus⟩ := (h.continues rfl).expect (.mark .equal)
    (.typeDue (.alias ⟨q, name⟩ outline)) (by grind [State.push])
  obtain ⟨vs, ws, base, hvs, hbase, hws⟩ := type_of_continues _ us (hus.continues rfl)
  obtain ⟨q₂, xs, hxs, hrest⟩ := (hws.continues rfl).expect (.mark .semi)
    (.declaring .types (outline.addType ⟨q, name, base⟩)) (by grind [State.push, TypePlace.close])
  refine ⟨[⟨q₁, .mark .equal⟩] ++ vs ++ [⟨q₂, .mark .semi⟩], xs, _, ?_, .intro q q₁ q₂ name hbase,
    hrest⟩
  simp [hts, hvs, hxs]

/-- Behind an alias comes another one, or the aliases are over. -/
theorem types_cases {outline : Outline} {ts : Tokens}
    (h : (State.declaring .types outline).Accepts ts p) :
    (∃ q name us, ts = [⟨q, .ident name⟩] ++ us ∧
      (State.aliasName ⟨q, name⟩ outline).Accepts us p) ∨
    Continues (fun t => afterTypes outline t.value) ts p := by
  obtain ⟨⟨q, value⟩, us, s, hts, hs, hus⟩ := h.step rfl
  cases value with
  | ident name =>
    cases hs
    exact .inl ⟨q, name, us, hts, hus⟩
  | number | mark => cases hs
  | keyword word => cases word <;> exact .inr ⟨_, us, s, hts, hs, hus⟩

theorem aliases_of_accepts (head : Head) {before : List (Located Alias)} {us : Tokens}
    (ts : Tokens) (hbefore : DerivesAliases us before)
    (h : (State.declaring .types ⟨head, before, [], []⟩).Accepts ts p) :
    Begins (fun vs types => DerivesAliases (us ++ vs) types) (fun types rest =>
      Continues (fun t => afterTypes ⟨head, types, [], []⟩ t.value) rest p) ts := by
  rcases types_cases h with ⟨q, name, vs, hts, hvs⟩ | hafter
  · obtain ⟨ws, xs, declaration, hws, hdeclaration, hxs⟩ := alias_of_accepts hvs
    have hlength : xs.length < ts.length := by
      simp only [hts, hws, List.length_append, List.length_cons]
      omega
    obtain ⟨ys, zs, types, hys, htypes, hafter⟩ :=
      aliases_of_accepts head xs (.more hbefore hdeclaration) hxs
    refine ⟨[⟨q, .ident name⟩] ++ ws ++ ys, zs, types, ?_, ?_, hafter⟩
    · simp [hts, hws, hys]
    · simpa using htypes
  · exact ⟨[], ts, before, rfl, by simpa using hbefore, hafter⟩
termination_by ts.length

/-- A level starts with its types, or has none. -/
theorem declareFirst_cases {outline : Outline} {ts : Tokens}
    (h : Continues (declare.declareFirst outline) ts p) :
    (∃ q us, ts = [⟨q, .keyword .type⟩] ++ us ∧
      (State.declaring .typesOpened outline).Accepts us p) ∨
    Continues (fun t => afterTypes outline t.value) ts p := by
  obtain ⟨⟨q, value⟩, us, s, hts, hs, hus⟩ := h
  cases value with
  | ident | number | mark => cases hs
  | keyword word =>
    cases word with
    | type =>
      cases hs
      exact .inl ⟨q, us, hts, hus⟩
    | _ => exact .inr ⟨_, us, s, hts, hs, hus⟩

/-- What is read ahead of the variables was derived as the types of a level. -/
theorem typePart_of_continues {head : Head} {ts : Tokens}
    (h : Continues (declare.declareFirst (.start head)) ts p) :
    Begins DerivesTypePart (fun types rest =>
      Continues (fun t => afterTypes ⟨head, types, [], []⟩ t.value) rest p) ts := by
  rcases declareFirst_cases h with ⟨q, us, hts, hus⟩ | hafter
  · obtain ⟨r, name, vs, hvs, hname⟩ := (hus.continues rfl).expectOf .ident
      (fun r name => .aliasName ⟨r, name⟩ (.start head)) (by grind [State.push, declare])
    obtain ⟨ws, xs, declaration, hws, hdeclaration, hxs⟩ := alias_of_accepts hname
    obtain ⟨ys, zs, types, hys, htypes, hafter⟩ :=
      aliases_of_accepts head xs (.one hdeclaration) hxs
    refine ⟨[⟨q, .keyword .type⟩] ++ ([⟨r, .ident name⟩] ++ ws ++ ys), zs, types, ?_,
      .some q htypes, hafter⟩
    simp [hts, hvs, hws, hys]
  · exact ⟨[], ts, [], rfl, .none, hafter⟩

/-- A group of variables up to its semicolon. -/
theorem variables_of_continues {outline : Outline} {ts : Tokens}
    (h : Continues (startType (.group (.vars outline))) ts p) :
    ∃ us q vs group, ts = us ++ [⟨q, .mark .semi⟩] ++ vs ∧ DerivesGroup us group ∧
      (State.declaring .vars (outline.addVariables group)).Accepts vs p := by
  obtain ⟨us, q, vs, group, hts, hgroup, hvs⟩ :=
    (group_of_continues (.vars outline) ts h).expect (.mark .semi)
      (fun group => .declaring .vars (outline.addVariables ⟨group.value.type.pos, group.value⟩))
      (by grind [afterGroup, GroupPlace.close])
  refine ⟨us, q, vs, group, hts, hgroup, ?_⟩
  rwa [← hgroup.pos_eq] at hvs

/-- Variable groups are a derived row, up to the first token that starts no type. -/
theorem vars_of_accepts (head : Head) (types : List (Located Alias))
    {before : List (Located Group)} {us : Tokens} (ts : Tokens)
    (hbefore : DerivesVariables us before)
    (h : (State.declaring .vars ⟨head, types, before, []⟩).Accepts ts p) :
    Begins (fun vs groups => DerivesVariables (us ++ vs) groups) (fun groups rest =>
      Continues (fun t => startProcedureOrBody ⟨head, types, groups, []⟩ t.value) rest p) ts := by
  obtain ⟨⟨q, value⟩, vs, s, hts, hs, hvs⟩ := h.step rfl
  rcases Option.or_eq_some_iff.1 hs with hs | ⟨-, hs⟩
  · obtain ⟨ws, r, xs, group, hws, hgroup, hxs⟩ := variables_of_continues ⟨_, vs, s, hts, hs, hvs⟩
    have hlength : xs.length < ts.length := by
      simp only [hws, List.length_append, List.length_cons]
      omega
    obtain ⟨ys, zs, groups, hys, hgroups, hafter⟩ :=
      vars_of_accepts head types xs (.more r hbefore hgroup) hxs
    refine ⟨ws ++ [⟨r, .mark .semi⟩] ++ ys, zs, groups, ?_, ?_, hafter⟩
    · simp [hws, hys]
    · simpa using hgroups
  · exact ⟨[], ts, before, rfl, by simpa using hbefore, _, vs, s, hts, hs, hvs⟩
termination_by ts.length

/-- What is read ahead of the procedures was derived as the variables of a level. -/
theorem varPart_of_continues {head : Head} {types : List (Located Alias)} {ts : Tokens}
    (h : Continues (fun t => afterTypes ⟨head, types, [], []⟩ t.value) ts p) :
    Begins DerivesVarPart (fun groups rest =>
      Continues (fun t => startProcedureOrBody ⟨head, types, groups, []⟩ t.value) rest p) ts := by
  obtain ⟨⟨q, value⟩, us, s, hts, hs, hus⟩ := h
  have hvalue : value = .keyword .var ∧ s = .declaring .varsOpened ⟨head, types, [], []⟩ ∨
      startProcedureOrBody ⟨head, types, [], []⟩ value = some s := by
    unfold afterTypes at hs
    grind
  rcases hvalue with ⟨rfl, rfl⟩ | hs
  · obtain ⟨vs, r, ws, group, hvs, hgroup, hws⟩ := variables_of_continues (hus.continues rfl)
    obtain ⟨xs, ys, groups, hxs, hgroups, hafter⟩ :=
      vars_of_accepts head types ws (.one r hgroup) hws
    refine ⟨[⟨q, .keyword .var⟩] ++ (vs ++ [⟨r, .mark .semi⟩] ++ xs), ys, groups, ?_,
      .some q hgroups, hafter⟩
    simp [hts, hvs, hxs]
  · exact ⟨[], ts, [], rfl, .none, _, us, s, hts, hs, hus⟩

/-! ## Parameters -/

theorem startParameter_cases {before : List (Located Parameter)} {name : Located String}
    {outer : Outline} {t : Located Token} {s : State}
    (h : startParameter before name outer t = some s) :
    t.value = .keyword .var ∧ s = .typeDue (.group (.params (some t.pos) before name outer)) ∨
    startType (.group (.params none before name outer)) t = some s := by
  unfold startParameter at h
  grind

/-- What is read as a parameter was derived as one, by value or by reference. -/
theorem parameter_of_continues {before : List (Located Parameter)} {name : Located String}
    {outer : Outline} {ts : Tokens} (h : Continues (startParameter before name outer) ts p) :
    Begins DerivesParameter (fun param rest =>
      Continues (fun t => afterParameter (before ++ [param]) name outer t.value) rest p) ts := by
  obtain ⟨⟨q, value⟩, us, s, hts, hs, hus⟩ := h
  rcases startParameter_cases hs with ⟨rfl, rfl⟩ | hs
  · obtain ⟨vs, ws, group, hvs, hgroup, hws⟩ :=
      group_of_continues (.params (some q) before name outer) us (hus.continues rfl)
    rw [afterGroup_params] at hws
    refine ⟨[⟨q, .keyword .var⟩] ++ vs, ws, _, ?_, .byReference q hgroup, hws⟩
    simp [hts, hvs]
  · obtain ⟨vs, ws, group, hvs, hgroup, hws⟩ :=
      group_of_continues (.params none before name outer) ts ⟨_, us, s, hts, hs, hus⟩
    have hparam : parameter none group.value = ⟨group.pos, false, group.value⟩ := by
      rw [hgroup.pos_eq]
      rfl
    rw [afterGroup_params, hparam] at hws
    exact ⟨vs, ws, _, hvs, .byValue hgroup, hws⟩

theorem parameters_of_continues (name : Located String) (outer : Outline)
    {before : List (Located Parameter)} {us : Tokens} (ts : Tokens)
    (hbefore : DerivesParameters us before)
    (h : Continues (fun t => afterParameter before name outer t.value) ts p) :
    ∃ vs q ws params, ts = vs ++ [⟨q, .mark .rparen⟩] ++ ws ∧ DerivesParameters (us ++ vs) params ∧
      (State.paramsClosed params name outer).Accepts ws p := by
  obtain ⟨⟨q, value⟩, vs, s, hts, hs, hvs⟩ := h
  have hvalue : value = .mark .semi ∧ s = .paramDue before name outer ∨
      value = .mark .rparen ∧ s = .paramsClosed before name outer := by
    unfold afterParameter at hs
    grind
  rcases hvalue with ⟨rfl, rfl⟩ | ⟨rfl, rfl⟩
  · obtain ⟨ws, xs, param, hws, hparam, hxs⟩ := parameter_of_continues (hvs.continues rfl)
    have hlength : xs.length < ts.length := by
      simp only [hts, hws, List.length_append, List.length_cons]
      omega
    obtain ⟨ys, r, zs, params, hys, hparams, hrest⟩ :=
      parameters_of_continues name outer xs (.more q hbefore hparam) hxs
    refine ⟨[⟨q, .mark .semi⟩] ++ ws ++ ys, r, zs, params, ?_, ?_, hrest⟩
    · simp [hts, hws, hys]
    · simpa using hparams
  · exact ⟨[], q, vs, before, hts, by simpa using hbefore, hvs⟩
termination_by ts.length

/-- What stands between the brackets was derived as a list of parameters, which may be empty. -/
theorem parameterList_of_accepts {name : Located String} {outer : Outline} {ts : Tokens}
    (h : (State.paramsOpened name outer).Accepts ts p) :
    ∃ us q vs params, ts = us ++ [⟨q, .mark .rparen⟩] ++ vs ∧ DerivesParameterList us params ∧
      (State.paramsClosed params name outer).Accepts vs p := by
  obtain ⟨⟨q, value⟩, us, s, hts, hs, hus⟩ := h.step rfl
  simp only [State.push] at hs
  split at hs
  · cases hs
    exact ⟨[], q, us, [], hts, .none, hus⟩
  · obtain ⟨vs, ws, param, hvs, hparam, hws⟩ := parameter_of_continues ⟨_, us, s, hts, hs, hus⟩
    obtain ⟨xs, r, ys, params, hxs, hparams, hrest⟩ :=
      parameters_of_continues name outer ws (.one hparam) hws
    refine ⟨vs ++ xs, r, ys, params, ?_, .some hparams, hrest⟩
    simp [hvs, hxs]

/-! ## Procedures and programs -/

theorem optionalSemi_of_procedureEnded {outline : Outline} {ts : Tokens}
    (h : (State.declaring .procedureEnded outline).Accepts ts p) :
    ∃ us vs, ts = us ++ vs ∧ OptionalSemi us ∧
      Continues (fun t => startProcedureOrBody outline t.value) vs p := by
  obtain ⟨⟨q, value⟩, us, s, hts, hs, hus⟩ := h.step rfl
  simp only [State.push, declare] at hs
  split at hs
  · cases hs
    exact ⟨[_], us, hts, .present q, hus.continues rfl⟩
  · exact ⟨[], ts, rfl, .missing, _, us, s, hts, hs, hus⟩

theorem optionalSemi_of_named {outline : Outline} {ts : Tokens}
    (h : (State.declaring .named outline).Accepts ts p) :
    ∃ us vs, ts = us ++ vs ∧ OptionalSemi us ∧ Continues (declare.declareFirst outline) vs p := by
  obtain ⟨⟨q, value⟩, us, s, hts, hs, hus⟩ := h.step rfl
  simp only [State.push, declare] at hs
  split at hs
  · cases hs
    exact ⟨[_], us, hts, .present q, hus.continues rfl⟩
  · exact ⟨[], ts, rfl, .missing, _, us, s, hts, hs, hus⟩

/-- The body of a program or procedure, up to the word that ends it. -/
theorem body_of_accepts {outline : Outline} {ts : Tokens}
    (h : (State.statements (.first (.body outline))).Accepts ts p) :
    ∃ us q vs body, ts = us ++ [⟨q, .keyword .end⟩] ++ vs ∧ DerivesStatementList us body ∧
      (outline.close body).Accepts vs p := by
  obtain ⟨us, vs, body, hts, hbody, hend⟩ := statementList_of_accepts (.body outline) ts h
  obtain ⟨q, ws, hws, hrest⟩ := hend.expect .end (outline.close body) (by grind [BlockPlace.close])
  refine ⟨us, q, ws, body, ?_, hbody, hrest⟩
  simp [hts, hws]

theorem startProcedureOrBody_cases {outline : Outline} {t : Token} {s : State}
    (h : startProcedureOrBody outline t = some s) :
    t = .keyword .procedure ∧ s = .procedureWord outline ∨
    t = .keyword .begin ∧ s = .statements (.first (.body outline)) := by
  unfold startProcedureOrBody at h
  grind

mutual

/-- What is read as a procedure was derived as one. The recursion is on the length of the row, since
procedures are nested. -/
theorem procedure_of_accepts (q : Position) (outer : Outline) (ts : Tokens)
    (h : (State.procedureWord outer).Accepts ts p) :
    Begins (fun us => DerivesProcedure ([⟨q, .keyword .procedure⟩] ++ us)) (fun procedure rest =>
      Continues (fun t => startProcedureOrBody (outer.addProcedure procedure) t.value) rest p)
      ts := by
  obtain ⟨q₁, name, us, hts, hname⟩ := (h.continues rfl).expectOf .ident
    (fun q₁ name => .procedureName ⟨q₁, name⟩ outer) (by grind [State.push])
  obtain ⟨q₂, vs, hus, hopened⟩ := (hname.continues rfl).expect (.mark .lparen)
    (.paramsOpened ⟨q₁, name⟩ outer) (by grind [State.push])
  obtain ⟨us₁, q₃, ws, params, hvs, hparams, hclosed⟩ := parameterList_of_accepts hopened
  obtain ⟨q₄, xs, hws, hinside⟩ := (hclosed.continues rfl).expect (.mark .semi)
    (.declaring .opened (.start (.procedure ⟨q₁, name⟩ params outer))) (by grind [State.push])
  have hlength : xs.length < ts.length := by
    simp only [hts, hus, hvs, hws, List.length_append, List.length_cons]
    omega
  obtain ⟨us₂, q₅, ys, inside, hxs, hinside, hbegin⟩ :=
    declarations_of_continues _ xs (hinside.continues rfl)
  obtain ⟨us₃, q₆, zs, body, hys, hbody, hend⟩ := body_of_accepts hbegin
  obtain ⟨us₄, rest, hzs, hsemi, hrest⟩ := optionalSemi_of_procedureEnded hend
  refine ⟨[⟨q₁, .ident name⟩, ⟨q₂, .mark .lparen⟩] ++ us₁ ++ [⟨q₃, .mark .rparen⟩,
    ⟨q₄, .mark .semi⟩] ++ us₂ ++ [⟨q₅, .keyword .begin⟩] ++ us₃ ++ [⟨q₆, .keyword .end⟩] ++ us₄,
    rest, _, ?_, ?_, hrest⟩
  · simp [hts, hus, hvs, hws, hxs, hys, hzs]
  · simpa using DerivesProcedure.intro q q₁ q₂ q₃ q₄ q₅ q₆ name hparams hinside hbody hsemi
termination_by (ts.length, 0)

/-- Procedures are a derived row, up to the body of the level. -/
theorem procedures_of_continues (head : Head) (types : List (Located Alias))
    (vars : List (Located Group)) {before : List (Located Procedure)} {us : Tokens} (ts : Tokens)
    (hbefore : DerivesProcedures us before)
    (h : Continues (fun t => startProcedureOrBody ⟨head, types, vars, before⟩ t.value) ts p) :
    ∃ vs q ws procedures, ts = vs ++ [⟨q, .keyword .begin⟩] ++ ws ∧
      DerivesProcedures (us ++ vs) procedures ∧
      (State.statements (.first (.body ⟨head, types, vars, procedures⟩))).Accepts ws p := by
  obtain ⟨⟨q, value⟩, vs, s, hts, hs, hvs⟩ := h
  rcases startProcedureOrBody_cases hs with ⟨rfl, rfl⟩ | ⟨rfl, rfl⟩
  · have hlength : vs.length < ts.length := by simp [hts]
    obtain ⟨ws, xs, procedure, hws, hprocedure, hxs⟩ := procedure_of_accepts q _ vs hvs
    have hlength' : xs.length < ts.length := by
      simp only [hts, hws, List.length_append, List.length_cons]
      omega
    obtain ⟨ys, r, zs, procedures, hys, hprocedures, hrest⟩ :=
      procedures_of_continues head types vars xs (.more hbefore hprocedure) hxs
    refine ⟨[⟨q, .keyword .procedure⟩] ++ ws ++ ys, r, zs, procedures, ?_, ?_, hrest⟩
    · simp [hts, hws, hys]
    · simpa using hprocedures
  · exact ⟨[], q, vs, before, hts, by simpa using hbefore, hvs⟩
termination_by (ts.length, 1)

/-- Where the declarations of a level may start, they are read up to the body. -/
theorem declarations_of_continues (head : Head) (ts : Tokens)
    (h : Continues (declare.declareFirst (.start head)) ts p) :
    ∃ us q vs inside, ts = us ++ [⟨q, .keyword .begin⟩] ++ vs ∧ DerivesDeclarations us inside ∧
      (State.statements (.first (.body
        ⟨head, inside.types, inside.vars, inside.procedures⟩))).Accepts vs p := by
  obtain ⟨us, vs, types, hts, htypes, hvs⟩ := typePart_of_continues h
  obtain ⟨ws, xs, vars, hws, hvars, hxs⟩ := varPart_of_continues hvs
  have hlength : xs.length ≤ ts.length := by
    simp only [hts, hws, List.length_append]
    omega
  obtain ⟨ys, q, zs, procedures, hys, hprocedures, hrest⟩ :=
    procedures_of_continues head types vars xs .none hxs
  refine ⟨us ++ ws ++ ys, q, zs, ⟨types, vars, procedures⟩, ?_, .intro htypes hvars hprocedures,
    hrest⟩
  simp [hts, hws, hys]
termination_by (ts.length, 2)
decreasing_by exact Prod.Lex.right' _ hlength (by decide)

end

/-- A program that is accepted is derived, with its tree. -/
theorem derivesProgram_of_accepts {ts : Tokens} (h : State.empty.Accepts ts p) :
    DerivesProgram ts p := by
  obtain ⟨⟨q, value⟩, us, s, hts, hs, hus⟩ := h.step rfl
  have hword : value = .keyword .program ∧ s = .programWord q := by grind [State.push]
  obtain ⟨rfl, rfl⟩ := hword
  obtain ⟨q₁, name, vs, hvs, hnamed⟩ := (hus.continues rfl).expectOf .ident
    (fun _ name => .declaring .named (.start (.program q name))) (by grind [State.push])
  obtain ⟨us₁, ws, hws, hsemi, hopened⟩ := optionalSemi_of_named hnamed
  obtain ⟨us₂, q₂, xs, inside, hxs, hinside, hbegin⟩ := declarations_of_continues _ ws hopened
  obtain ⟨us₃, q₃, ys, body, hys, hbody, hend⟩ := body_of_accepts hbegin
  have hended : (State.bodyEnded ⟨q, name, inside, body⟩).Accepts ys p := hend
  obtain ⟨q₄, zs, hzs, hdone⟩ := (hended.continues rfl).expect (.mark .dot)
    (.complete ⟨q, name, inside, body⟩) (by grind [State.push])
  obtain ⟨rfl, rfl⟩ := hdone.eq_of_complete
  have hderives := DerivesProgram.intro q q₁ q₂ q₃ q₄ name hsemi hinside hbody
  simpa [hts, hvs, hws, hxs, hys, hzs] using hderives

end SnlFront.Parsing
