import RexLang.AdtFamilies

/-!
# Values of a bundle

A registered value whose names the decoder takes, with no parameter names or with one for
each arrow of its type, comes back with the same names and documentation and an
alpha-equivalent scheme.
-/

namespace RexLang

/-! ## One value -/

/-- Its names are those of a value that the decoder takes, and it has no parameter names
or one for each arrow of its type. -/
structure RegisteredValue.Bundled (declaration : RegisteredValue) : Prop where
  closed : declaration.scheme.Closed
  named : declaration.scheme.WellNamed
  params : ∀ param ∈ declaration.params, isBlank param = false
  arrows : declaration.params = [] ∨
    declaration.params.length = (decomposeFunType declaration.scheme.typ).1.length

/-- The same names and documentation, and an alpha-equivalent scheme. -/
structure RegisteredValue.AlphaEquivalent (first second : RegisteredValue) : Prop where
  scheme : first.scheme.AlphaEquivalent second.scheme
  params : second.params = first.params
  docs : second.docs = first.docs

namespace TypeBundle

theorem fromRegisteredValue_eq_ok {declaration : RegisteredValue} {wire : WireValueDecl} :
    fromRegisteredValue declaration = .ok wire ↔
      ∃ scheme, WireScheme.tryFromScheme declaration.scheme = .ok scheme ∧
        wire = ⟨scheme, declaration.params, declaration.docs⟩ := by
  rw [fromRegisteredValue, bind_eq_ok]
  refine exists_congr fun scheme => and_congr_right fun _ => ?_
  constructor
  · rintro ⟨⟩
    rfl
  · rintro rfl
    rfl

theorem validateNames_of_named {kind : String} {names : List String}
    (named : ∀ name ∈ names, isBlank name = false) (supply : TypeVarSupply) :
    (names.forM (validateName kind ·) : DecodeParts Unit) supply = .ok ((), supply) := by
  induction names with
  | nil => rfl
  | cons name names hypothesis =>
      have rest := hypothesis fun other member => named other (.tail _ member)
      rw [List.forM_eq_forM, List.forM_cons, validateName_of_named (named name List.mem_cons_self)]
      exact rest

/-- A value is decoded from every state of the supply. -/
theorem exists_toRegisteredValue (name : String) {declaration : RegisteredValue}
    (bundled : declaration.Bundled) {wire : WireValueDecl}
    (encoded : fromRegisteredValue declaration = .ok wire) (supply : TypeVarSupply) :
    ∃ decoded later, toRegisteredValue name wire supply = .ok (decoded, later) ∧
      declaration.AlphaEquivalent decoded := by
  obtain ⟨scheme, accepted, rfl⟩ := fromRegisteredValue_eq_ok.1 encoded
  obtain ⟨namer, ctx, renames, -, decodes⟩ := bundled.named.exists_toScheme accepted supply
  have params : (decomposeFunType (declaration.scheme.rename (wireVar namer ctx)).typ).1.length =
      (decomposeFunType declaration.scheme.typ).1.length := by
    rw [Scheme.rename, Typ.rename_decomposeFunType, List.length_map]
  refine ⟨⟨declaration.scheme.rename (wireVar namer ctx), declaration.params, declaration.docs⟩,
    ctx.supply, ?_, ⟨⟨_, renames.injOn, rfl⟩, rfl, rfl⟩⟩
  rw [toRegisteredValue]
  refine bind_eq_ok.mpr ⟨_, decodes, ?_⟩
  have enough : declaration.params = [] ∨ declaration.params.length =
      (decomposeFunType (declaration.scheme.rename (wireVar namer ctx)).typ).1.length := by
    rw [params]
    exact bundled.arrows
  have passes (message : String) :=
    congrArg (fun outcome : Except TypeError Unit => (liftM outcome : DecodeParts Unit) ctx.supply)
      (@ensure_of _ _ message enough)
  exact bind_eq_ok.mpr ⟨((), ctx.supply), passes _, bind_eq_ok.mpr
    ⟨((), ctx.supply), validateNames_of_named bundled.params ctx.supply, rfl⟩⟩

/-- A value whose parameter names are neither absent nor one for each arrow is not decoded. -/
theorem not_toRegisteredValue (name : String) {declaration : RegisteredValue}
    (named : declaration.scheme.WellNamed) (hasParams : declaration.params ≠ [])
    (otherArrows : declaration.params.length ≠
      (decomposeFunType declaration.scheme.typ).1.length) {wire : WireValueDecl}
    (encoded : fromRegisteredValue declaration = .ok wire) (supply : TypeVarSupply)
    {result : RegisteredValue × TypeVarSupply} :
    toRegisteredValue name wire supply ≠ .ok result := by
  intro decoded
  obtain ⟨scheme, accepted, rfl⟩ := fromRegisteredValue_eq_ok.1 encoded
  obtain ⟨namer, ctx, -, -, decodes⟩ := named.exists_toScheme accepted supply
  rw [toRegisteredValue] at decoded
  obtain ⟨⟨other, later⟩, isOther, decoded⟩ := exists_of_bind_eq_ok decoded
  rw [decodes] at isOther
  cases isOther
  obtain ⟨⟨_, last⟩, isEnsured, -⟩ := exists_of_bind_eq_ok decoded
  have arrows : (decomposeFunType (declaration.scheme.rename (wireVar namer ctx)).typ).1.length =
      (decomposeFunType declaration.scheme.typ).1.length := by
    rw [Scheme.rename, Typ.rename_decomposeFunType, List.length_map]
  simp only [arrows, ensure, hasParams, otherArrows, or_self, if_false] at isEnsured
  cases isEnsured

/-! ## The map of values -/

/-- The names and the values of a name: an encoding, and what is decoded from it. -/
def Encodes (declarations : List RegisteredValue) (wires : List WireValueDecl) : Prop :=
  declarations.mapM fromRegisteredValue = .ok wires

theorem exists_fromValues {values : List (String × List RegisteredValue)}
    {wireValues : SymbolMap (List WireValueDecl)} (ordered : Ordered wireValues)
    (distinct : (values.map Prod.fst).Nodup) (nonempty : ∀ value ∈ values, value.2 ≠ [])
    (isNew : ∀ value ∈ values, wireValues.lookup value.1 = none)
    (closed : ∀ value ∈ values, ∀ declaration ∈ value.2, declaration.scheme.Closed) :
    ∃ later, fromValues values wireValues = .ok later ∧ Ordered later ∧
      ∀ name wires, later.lookup name = some wires ↔ wireValues.lookup name = some wires ∨
        ∃ declarations, (name, declarations) ∈ values ∧ Encodes declarations wires := by
  induction values generalizing wireValues with
  | nil => exact ⟨wireValues, rfl, ordered, by simp⟩
  | cons value values hypothesis =>
      obtain ⟨name, declarations⟩ := value
      rw [List.map_cons, List.nodup_cons] at distinct
      obtain ⟨wires, encoded⟩ : ∃ wires, Encodes declarations wires :=
        exists_mapM fun declaration member =>
          ⟨_, fromRegisteredValue_eq_ok.2 ⟨_, Scheme.tryFromScheme_eq_ok.mpr
            ⟨closed _ List.mem_cons_self declaration member, rfl⟩, rfl⟩⟩
      have isFirstNew := isNew _ List.mem_cons_self
      have isNewRest : ∀ value ∈ values, (wireValues.insert name wires).lookup value.1 = none := by
        intro value member
        rw [lookup_insert, if_neg]
        · exact isNew value (.tail _ member)
        · intro same
          exact distinct.1 (List.mem_map.mpr ⟨value, member, same⟩)
      obtain ⟨later, runs, orderedLater, lookups⟩ :=
        hypothesis (ordered_insert ordered name wires) distinct.2
          (fun value member => nonempty value (.tail _ member)) isNewRest
          fun value member => closed value (.tail _ member)
      have notEmpty : declarations ≠ [] := nonempty _ List.mem_cons_self
      refine ⟨later, ?_, orderedLater, fun other otherWires => ?_⟩
      · rw [fromValues, if_neg notEmpty]
        refine bind_eq_ok.mpr ⟨wires, encoded, ?_⟩
        simp only [isFirstNew, Option.isSome_none, Bool.false_eq_true, if_false]
        exact runs
      · rw [lookups, lookup_insert]
        split_ifs with same
        · subst same
          simp only [isFirstNew, Option.some.injEq, reduceCtorEq, false_or, List.mem_cons]
          constructor
          · rintro (rfl | ⟨others, later, encodedOther⟩)
            · exact ⟨declarations, .inl rfl, encoded⟩
            · exact ⟨others, .inr later, encodedOther⟩
          · rintro ⟨others, isFirst | later, encodedOther⟩
            · cases isFirst
              rw [Encodes, encoded] at encodedOther
              exact .inl (Except.ok.inj encodedOther)
            · exact .inr ⟨others, later, encodedOther⟩
        · simp only [List.mem_cons]
          constructor
          · rintro (before | ⟨others, later, encodedOther⟩)
            · exact .inl before
            · exact .inr ⟨others, .inr later, encodedOther⟩
          · rintro (before | ⟨others, isFirst | later, encodedOther⟩)
            · exact .inl before
            · cases isFirst
              exact absurd rfl same
            · exact .inr ⟨others, later, encodedOther⟩

/-- The values of a name are decoded from every state of the supply. -/
theorem exists_toValue (name : String) {declarations : List RegisteredValue}
    (nonempty : declarations ≠ []) (bundled : ∀ declaration ∈ declarations, declaration.Bundled)
    {wires : List WireValueDecl} (encoded : Encodes declarations wires) (supply : TypeVarSupply) :
    ∃ decoded later, toValue (name, wires) supply = .ok ((name, decoded), later) ∧
      List.Forall₂ RegisteredValue.AlphaEquivalent declarations decoded := by
  have encodes := forall₂_of_mapM encoded
  have wiresNonempty : wires ≠ [] := by
    rintro rfl
    cases encodes
    exact nonempty rfl
  obtain ⟨decoded, later, runs, equivalent⟩ := exists_mapM_run encodes
    (fun declaration member wire encodedOne => exists_toRegisteredValue name (bundled declaration member)
      encodedOne) supply
  refine ⟨decoded, later, ?_, equivalent⟩
  rw [toValue, ensure_of wiresNonempty]
  exact bind_eq_ok.mpr ⟨(decoded, later), runs, rfl⟩

end TypeBundle

end RexLang
