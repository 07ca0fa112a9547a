import RexLang.AdtShapes
import RexLang.BundleValues

/-!
# The round trip of a type bundle

The declarations that the types of some values reach are collected, ordered, encoded,
decoded and ordered again, and the values come back beside them.
-/

namespace RexLang

open Relation

/-! ## What a bundle is about -/

/-- The registered declaration of the first name mentions the second name. -/
def Mentions (adts : SymbolMap AdtDecl) (name other : Symbol) : Prop :=
  ∃ adt, adts.lookup name = some adt ∧ adt.Mentions other

/-- The name is in one of the types, or in a registered declaration that is reached from
them. -/
def Reaches (adts : SymbolMap AdtDecl) (types : List Typ) (name : Symbol) : Prop :=
  ∃ start, (∃ typ ∈ types, ∃ arity, (start, arity) ∈ typ.userCons) ∧
    ReflTransGen (Mentions adts) start name

/-- The number of parameters of the registered declaration. -/
def declaredArity (adts : SymbolMap AdtDecl) (name : Symbol) : Nat :=
  ((adts.lookup name).map (·.params.length)).getD 0

/-- The types of all values. -/
def referenced (values : List (String × List RegisteredValue)) : List Typ :=
  values.flatMap fun value => value.2.flatMap TypeBundle.referencedTypes

/-- The values have different names and can be decoded again; every declaration that is
reached is registered, with the arity that is used, has names that the decoder takes and
can be encoded, and none depends on itself. -/
structure Bundled (values : List (String × List RegisteredValue)) (system : TypeSystem) :
    Prop where
  distinct : (values.map Prod.fst).Nodup
  nonempty : ∀ value ∈ values, value.2 ≠ []
  declarations : ∀ value ∈ values, ∀ declaration ∈ value.2, declaration.Bundled
  registered : ∀ name, Reaches system.adts (referenced values) name →
    ∃ adt wire, system.adts.lookup name = some adt ∧ adt.name = name ∧ adt.WellNamed ∧
      WireAdtDecl.tryFromAdtDecl adt = .ok wire
  typeArities : ∀ typ ∈ referenced values, ∀ con ∈ typ.userCons,
    con.2 = declaredArity system.adts con.1
  fieldArities : ∀ name adt, Reaches system.adts (referenced values) name →
    system.adts.lookup name = some adt → ∀ typ ∈ adt.fieldTypes, ∀ con ∈ typ.userCons,
      con.2 = declaredArity system.adts con.1
  acyclic : ∀ name, Reaches system.adts (referenced values) name →
    ¬TransGen (Mentions system.adts) name name

/-! ## Collection -/

theorem exists_namesInTypes {types : List Typ} {arityOf : Symbol → Nat}
    (isArity : ∀ typ ∈ types, ∀ con ∈ typ.userCons, con.2 = arityOf con.1) :
    ∃ names, namesInTypes types = .ok names ∧
      ∀ name, name ∈ names ↔ ∃ typ ∈ types, ∃ arity, (name, arity) ∈ typ.userCons := by
  obtain ⟨cons, collected, members⟩ := exists_collectAdtsInTypes isArity
  refine ⟨cons.map Prod.fst, by rw [namesInTypes, collected], fun name => ?_⟩
  simp only [List.mem_map, members]
  constructor
  · rintro ⟨con, ⟨typ, isTyp, isCon⟩, rfl⟩
    exact ⟨typ, isTyp, con.2, isCon⟩
  · rintro ⟨typ, isTyp, arity, isCon⟩
    exact ⟨(name, arity), ⟨typ, isTyp, isCon⟩, rfl⟩

section Collection

variable {values : List (String × List RegisteredValue)} {system : TypeSystem}

/-- The declarations that are reached use consistent arities. -/
theorem Bundled.usesArities (bundled : Bundled values system) {name : Symbol} {adt : AdtDecl}
    (reached : Reaches system.adts (referenced values) name)
    (isAdt : system.adts.lookup name = some adt) :
    adt.UsesArities (declaredArity system.adts) := by
  intro typ isTyp con isCon
  obtain ⟨start, isStart, path⟩ := reached
  have mention : Mentions system.adts name con.1 := ⟨adt, isAdt, typ, isTyp, con.2, isCon⟩
  obtain ⟨other, wire, -, sameName, named, -⟩ :=
    bundled.registered con.1 ⟨start, isStart, path.tail mention⟩
  exact ⟨bundled.fieldArities name adt ⟨start, isStart, path⟩ isAdt typ isTyp con isCon,
    sameName ▸ named.notBuiltin⟩

/-- The search through the type system finds what is reached. -/
theorem Bundled.exists_search (bundled : Bundled values system) (missing : Symbol → TypeError) :
    ∃ queue found, namesInTypes (referenced values) = .ok queue ∧
      searchQueue (system.adts.map Prod.fst) (systemDependencies system.adts) missing queue [] =
        .ok found ∧ found.Nodup ∧
      ∀ name, name ∈ found ↔ Reaches system.adts (referenced values) name := by
  obtain ⟨queue, isQueue, inQueue⟩ := exists_namesInTypes bundled.typeArities
  have known : ∀ name, Reaches system.adts (referenced values) name →
      ∃ next, systemDependencies system.adts name = .ok next ∧
        ∀ other, other ∈ next ↔ Mentions system.adts name other := by
    intro name reached
    obtain ⟨adt, wire, isAdt, -, -, -⟩ := bundled.registered name reached
    obtain ⟨next, isNext, members⟩ :=
      exists_namesInTypes (bundled.fieldArities name adt reached isAdt)
    refine ⟨next, by simp only [systemDependencies, isAdt, isNext], fun other => ?_⟩
    rw [members]
    constructor
    · rintro ⟨typ, isTyp, arity, isCon⟩
      exact ⟨adt, isAdt, typ, isTyp, arity, isCon⟩
    · rintro ⟨another, isAnother, typ, isTyp, arity, isCon⟩
      rw [isAdt] at isAnother
      cases isAnother
      exact ⟨typ, isTyp, arity, isCon⟩
  classical
  let next (name : Symbol) : List Symbol :=
    if reached : Reaches system.adts (referenced values) name then (known name reached).choose
    else []
  have next_eq (name : Symbol) (reached : Reaches system.adts (referenced values) name) :
      next name = (known name reached).choose := dif_pos reached
  have depends (name other : Symbol) (reached : Reaches system.adts (referenced values) name) :
      other ∈ next name ↔ Mentions system.adts name other := by
    rw [next_eq name reached]
    exact (known name reached).choose_spec.2 other
  have closes : Closes (system.adts.map Prod.fst) (Reaches system.adts (referenced values))
      (systemDependencies system.adts) next := by
    refine ⟨fun name reached => ?_, fun name reached => ?_, fun name reached other isNext => ?_⟩
    · obtain ⟨adt, wire, isAdt, -⟩ := bundled.registered name reached
      exact isSome_lookup_iff.mp (Option.isSome_iff_exists.mpr ⟨adt, isAdt⟩)
    · rw [next_eq name reached]
      exact (known name reached).choose_spec.1
    · obtain ⟨start, isStart, path⟩ := reached
      exact ⟨start, isStart, path.tail ((depends name other ⟨start, isStart, path⟩).mp isNext)⟩
  obtain ⟨found, runs, distinct, members⟩ := exists_searchQueue closes
    (fun name member => ⟨name, (inQueue name).mp member, .refl⟩) List.nodup_nil (by simp)
  refine ⟨queue, found, isQueue, runs, distinct, fun name => ?_⟩
  rw [members]
  constructor
  · rintro (inside | ⟨start, member, path⟩)
    · cases inside
    · refine ⟨start, (inQueue start).mp member,
        ReflTransGen.mono (fun first second step => ?_) _ _ path⟩
      by_cases reached : Reaches system.adts (referenced values) first
      · exact (depends first second reached).mp step
      · simp [DependsOn, next, reached] at step
  · rintro ⟨start, isStart, path⟩
    refine .inr ⟨start, (inQueue start).mpr isStart, ?_⟩
    induction path with
    | refl => exact .refl
    | @tail middle last path step hypothesis =>
        exact hypothesis.tail ((depends middle last ⟨start, isStart, path⟩).mpr step)

/-- The declarations of the bundle. -/
theorem Bundled.exists_collectAdtDeclsForTypes (bundled : Bundled values system) :
    ∃ adts, collectAdtDeclsForTypes (referenced values) system = .ok adts ∧
      (adts.map (·.name)).Nodup ∧
      ∀ adt, adt ∈ adts ↔ Reaches system.adts (referenced values) adt.name ∧
        system.adts.lookup adt.name = some adt := by
  obtain ⟨queue, found, isQueue, runs, distinct, members⟩ :=
    bundled.exists_search .unknownTypeName
  have isDecl : ∀ name ∈ found, ∃ adt, system.adts.lookup name = some adt ∧ adt.name = name := by
    intro name member
    obtain ⟨adt, wire, isAdt, sameName, -⟩ := bundled.registered name ((members name).mp member)
    exact ⟨adt, isAdt, sameName⟩
  let decls := found.filterMap fun name => system.adts.lookup name
  have mem_decls (adt : AdtDecl) : adt ∈ decls ↔
      Reaches system.adts (referenced values) adt.name ∧
        system.adts.lookup adt.name = some adt := by
    rw [List.mem_filterMap]
    constructor
    · rintro ⟨name, member, isAdt⟩
      obtain ⟨other, isOther, rfl⟩ := isDecl name member
      rw [isOther] at isAdt
      cases isAdt
      exact ⟨(members _).mp member, isOther⟩
    · rintro ⟨reached, isAdt⟩
      exact ⟨adt.name, (members _).mpr reached, isAdt⟩
  have names : decls.map (·.name) = found := map_name_filterMap isDecl
  have mention : ∀ name other, FamilyMentions decls name other →
      Reaches system.adts (referenced values) name ∧ Mentions system.adts name other := by
    rintro name other ⟨adt, isAdt, rfl, mention⟩
    obtain ⟨reached, registered⟩ := (mem_decls adt).mp isAdt
    exact ⟨reached, adt, registered, mention⟩
  obtain ⟨ordered, isOrdered, distinctOrdered, mem_ordered⟩ := exists_orderAdtFamily
    (names ▸ distinct)
    (fun adt isAdt => by
      obtain ⟨reached, registered⟩ := (mem_decls adt).mp isAdt
      exact bundled.usesArities reached registered)
    (fun name cycle => by
      obtain ⟨other, step, -⟩ := TransGen.head'_iff.mp cycle
      refine bundled.acyclic name (mention name other step).1 ?_
      exact TransGen.mono (fun first second step => (mention first second step).2) _ _ cycle)
  refine ⟨ordered, ?_, distinctOrdered, fun adt => (mem_ordered adt).trans (mem_decls adt)⟩
  rw [collectAdtDeclsForTypes]
  exact bind_eq_ok.mpr ⟨queue, isQueue, bind_eq_ok.mpr ⟨found, runs, isOrdered⟩⟩

end Collection

/-! ## Decoding -/

section Decoding

variable {arityOf : Symbol → Nat} {adts : List AdtDecl}

/-- Equal up to the variables of the parameters, and of equal shape. -/
structure AdtDecl.SameShape (first second : AdtDecl) : Prop where
  equivalent : first.AlphaEquivalent second
  shape : adtShape second = adtShape first

theorem AdtDecl.WellNamed.exists_sameShape {adt : AdtDecl} (named : adt.WellNamed)
    {wire : WireAdtDecl} (encoded : WireAdtDecl.tryFromAdtDecl adt = .ok wire)
    (supply : TypeVarSupply) :
    ∃ decoded later, wire.toAdtDeclWithSupply supply = .ok (decoded, later) ∧
      adt.SameShape decoded := by
  obtain ⟨namer, ctx, renames, -, -, -, decodes⟩ := named.exists_toAdtDecl encoded supply
  have closed := (AdtDecl.tryFromAdtDecl_eq_ok.mp encoded).1
  exact ⟨_, _, decodes, ⟨_, renames.injOn, rfl⟩, AdtDecl.adtShape_rename closed renames.injOn⟩

/-- The decoded declarations mention what the encoded ones mention. -/
theorem familyMentions_of_sameShape {decoded : List AdtDecl}
    (same : List.Forall₂ AdtDecl.SameShape adts decoded) {name other : Symbol}
    (mention : FamilyMentions decoded name other) : FamilyMentions adts name other := by
  obtain ⟨second, isSecond, rfl, mention⟩ := mention
  obtain ⟨first, isFirst, ⟨assign, -, rfl⟩, -⟩ := exists_of_forall₂_mem_right same isSecond
  exact ⟨first, isFirst, rfl, AdtDecl.mentions_rename.mp mention⟩

/-- Ordered declarations that the encoder takes are decoded and ordered again. -/
theorem exists_decodedFamily (distinct : (adts.map (·.name)).Nodup)
    (named : ∀ adt ∈ adts, adt.WellNamed) (uses : ∀ adt ∈ adts, adt.UsesArities arityOf)
    (acyclic : ∀ name, ¬TransGen (FamilyMentions adts) name name) {wires : List WireAdtDecl}
    (encoded : adts.mapM WireAdtDecl.tryFromAdtDecl = .ok wires) (supply : TypeVarSupply) :
    ∃ decoded later ordered,
      (wires.mapM WireAdtDecl.toAdtDeclWithSupply : TypeBundle.DecodeParts _) supply =
        .ok (decoded, later) ∧
      orderAdtFamily decoded = .ok ordered ∧ (ordered.map (·.name)).Nodup ∧
      (∀ adt ∈ adts, ∃ second ∈ ordered, adt.SameShape second) ∧
      ∀ second ∈ ordered, ∃ adt ∈ adts, adt.SameShape second := by
  obtain ⟨decoded, later, decodes, same⟩ := exists_mapM_run (forall₂_of_mapM encoded)
    (fun adt member wire encodedOne => (named adt member).exists_sameShape encodedOne) supply
  have names : decoded.map (·.name) = adts.map (·.name) := by
    clear decodes encoded acyclic uses named distinct
    induction same with
    | nil => rfl
    | @cons first second firsts seconds isSame _ hypothesis =>
        obtain ⟨⟨assign, -, rfl⟩, -⟩ := isSame
        rw [List.map_cons, List.map_cons, hypothesis]
        rfl
  obtain ⟨ordered, isOrdered, distinctOrdered, members⟩ := exists_orderAdtFamily
    (names ▸ distinct)
    (fun second isSecond => by
      obtain ⟨first, isFirst, ⟨assign, -, rfl⟩, -⟩ := exists_of_forall₂_mem_right same isSecond
      exact (uses first isFirst).rename)
    (fun name cycle => acyclic name
      (TransGen.mono (fun _ _ mention => familyMentions_of_sameShape same mention) _ _ cycle))
  refine ⟨decoded, later, ordered, decodes, isOrdered, distinctOrdered, ?_, ?_⟩
  · intro adt member
    obtain ⟨second, isSecond, isSame⟩ := exists_of_forall₂_mem_left same member
    exact ⟨second, (members second).mpr isSecond, isSame⟩
  · intro second isSecond
    obtain ⟨first, isFirst, isSame⟩ := exists_of_forall₂_mem_right same ((members second).mp isSecond)
    exact ⟨first, isFirst, isSame⟩

end Decoding

/-! ## The round trip -/

/-- The decoded values of a name are those of the entry with the name. -/
theorem lookup_of_decoded {First Second : Type} (related : String × First → Second → Prop)
    {entries : SymbolMap First} {decoded : SymbolMap Second}
    (decodes : List.Forall₂ (fun entry target => target.1 = entry.1 ∧ related entry target.2)
      entries decoded) {name : String} {first : First}
    (found : entries.lookup name = some first) :
    ∃ second, decoded.lookup name = some second ∧ related (name, first) second := by
  induction decodes with
  | nil => cases found
  | @cons entry target entries decoded isRelated _ hypothesis =>
      obtain ⟨key, value⟩ := entry
      obtain ⟨_, second⟩ := target
      obtain ⟨rfl, isRelated⟩ := isRelated
      rw [lookup_cons_eq_ite] at found ⊢
      split_ifs at found ⊢ with same
      · cases found
        exact ⟨second, rfl, same ▸ isRelated⟩
      · exact hypothesis found

theorem map_fst_of_decoded {First Second : Type} (related : String × First → Second → Prop)
    {entries : SymbolMap First} {decoded : SymbolMap Second}
    (decodes : List.Forall₂ (fun entry target => target.1 = entry.1 ∧ related entry target.2)
      entries decoded) : decoded.map Prod.fst = entries.map Prod.fst := by
  induction decodes with
  | nil => rfl
  | cons isRelated _ hypothesis => rw [List.map_cons, List.map_cons, isRelated.1, hypothesis]

/-- What the decoder makes of the values of a name. -/
def DecodedFrom (values : List (String × List RegisteredValue))
    (entry : String × List WireValueDecl) (decoded : List RegisteredValue) : Prop :=
  ∃ declarations, (entry.1, declarations) ∈ values ∧
    List.Forall₂ RegisteredValue.AlphaEquivalent declarations decoded

/-- The decoded bundle has the values of the same names, with alpha-equivalent schemes,
and for every declaration that is reached one of equal shape, and nothing else. -/
structure Restores (values : List (String × List RegisteredValue)) (system : TypeSystem)
    (decoded : DecodedTypeBundle) : Prop where
  ordered : Ordered decoded.values
  names : ∀ name, name ∈ decoded.values.map Prod.fst ↔ name ∈ values.map Prod.fst
  declarations : ∀ value ∈ values, ∃ declarations, decoded.values.lookup value.1 = some declarations ∧
    List.Forall₂ RegisteredValue.AlphaEquivalent value.2 declarations
  distinctAdts : (decoded.adts.map (·.name)).Nodup
  adts : ∀ name, Reaches system.adts (referenced values) name →
    ∃ adt decl, system.adts.lookup name = some adt ∧ decl ∈ decoded.adts ∧ decl.name = name ∧
      adt.SameShape decl
  onlyReached : ∀ decl ∈ decoded.adts, Reaches system.adts (referenced values) decl.name

section RoundTrip

variable {values : List (String × List RegisteredValue)} {system : TypeSystem}

theorem Bundled.exists_toValues (bundled : Bundled values system)
    {wireValues : SymbolMap (List WireValueDecl)}
    (lookups : ∀ name wires, wireValues.lookup name = some wires ↔
      ∃ declarations, (name, declarations) ∈ values ∧ TypeBundle.Encodes declarations wires)
    (ordered : Ordered wireValues) (supply : TypeVarSupply) :
    ∃ decoded later, wireValues.mapM TypeBundle.toValue supply = .ok (decoded, later) ∧
      List.Forall₂ (fun entry target => target.1 = entry.1 ∧ DecodedFrom values entry target.2)
        wireValues decoded := by
  refine exists_mapM_run (List.forall₂_same.mpr fun _ _ => rfl) ?_ supply
  rintro ⟨name, wires⟩ member _ rfl state
  obtain ⟨declarations, isValue, encoded⟩ := (lookups name wires).mp (lookup_of_ordered ordered member)
  obtain ⟨decoded, later, runs, equivalent⟩ := TypeBundle.exists_toValue name
    (bundled.nonempty _ isValue) (bundled.declarations _ isValue) encoded state
  exact ⟨_, later, runs, rfl, declarations, isValue, equivalent⟩

/-- A bundle is made, is decoded, and has what it was made from. -/
theorem bundleRoundTrip (bundled : Bundled values system) :
    ∃ bundle decoded, TypeBundle.fromRegisteredValues values system = .ok bundle ∧
      bundle.intoParts = .ok decoded ∧ Restores values system decoded := by
  obtain ⟨wireValues, encodedValues, orderedValues, lookups⟩ := TypeBundle.exists_fromValues
    (show Ordered [] from .nil) bundled.distinct bundled.nonempty (fun _ _ => rfl)
    fun value member declaration isDeclaration =>
      (bundled.declarations value member declaration isDeclaration).closed
  simp only [List.lookup_nil, reduceCtorEq, false_or] at lookups
  have encodes : ∀ value ∈ values, ∃ wires, TypeBundle.Encodes value.2 wires :=
    fun value member => exists_mapM fun declaration isDeclaration =>
      ⟨_, TypeBundle.fromRegisteredValue_eq_ok.mpr ⟨_, Scheme.tryFromScheme_eq_ok.mpr
        ⟨(bundled.declarations value member declaration isDeclaration).closed, rfl⟩, rfl⟩⟩
  obtain ⟨adts, collected, distinct, members⟩ := bundled.exists_collectAdtDeclsForTypes
  have registered : ∀ adt ∈ adts, Reaches system.adts (referenced values) adt.name ∧
      system.adts.lookup adt.name = some adt := fun adt member => (members adt).mp member
  have isNamed : ∀ adt ∈ adts, adt.WellNamed ∧ ∃ wire, WireAdtDecl.tryFromAdtDecl adt = .ok wire := by
    intro adt member
    obtain ⟨other, wire, isOther, -, named, encoded⟩ :=
      bundled.registered adt.name (registered adt member).1
    rw [(registered adt member).2] at isOther
    cases isOther
    exact ⟨named, wire, encoded⟩
  obtain ⟨wires, encodedAdts⟩ := exists_mapM fun adt member => (isNamed adt member).2
  have acyclic : ∀ name, ¬TransGen (FamilyMentions adts) name name := by
    intro name cycle
    have mention : ∀ first second, FamilyMentions adts first second →
        Reaches system.adts (referenced values) first ∧ Mentions system.adts first second := by
      rintro first second ⟨adt, isAdt, rfl, mention⟩
      exact ⟨(registered adt isAdt).1, adt, (registered adt isAdt).2, mention⟩
    obtain ⟨other, step, -⟩ := TransGen.head'_iff.mp cycle
    exact bundled.acyclic name (mention name other step).1
      (TransGen.mono (fun first second step => (mention first second step).2) _ _ cycle)
  obtain ⟨decodedAdts, supply, ordered, decodesAdts, isOrdered, distinctOrdered, forward,
    backward⟩ := exists_decodedFamily distinct (fun adt member => (isNamed adt member).1)
      (fun adt member => bundled.usesArities (registered adt member).1 (registered adt member).2)
      acyclic encodedAdts .new
  obtain ⟨decodedValues, last, decodesValues, areDecoded⟩ :=
    bundled.exists_toValues lookups orderedValues supply
  refine ⟨⟨none, wireValues, wires⟩, ⟨none, ordered, decodedValues⟩, ?_, ?_, ?_⟩
  · rw [TypeBundle.fromRegisteredValues]
    exact bind_eq_ok.mpr ⟨_, encodedValues, bind_eq_ok.mpr ⟨_, collected,
      bind_eq_ok.mpr ⟨_, encodedAdts, rfl⟩⟩⟩
  · rw [TypeBundle.intoParts]
    exact bind_eq_ok.mpr ⟨_, decodesAdts, bind_eq_ok.mpr ⟨_, isOrdered,
      bind_eq_ok.mpr ⟨_, decodesValues, rfl⟩⟩⟩
  · refine ⟨?_, fun name => ?_, ?_, distinctOrdered, ?_, ?_⟩
    · rw [Ordered, map_fst_of_decoded _ areDecoded]
      exact orderedValues
    · rw [map_fst_of_decoded _ areDecoded, ← isSome_lookup_iff, Option.isSome_iff_exists]
      simp only [lookups, List.mem_map]
      constructor
      · rintro ⟨wires, declarations, isValue, -⟩
        exact ⟨_, isValue, rfl⟩
      · rintro ⟨⟨_, declarations⟩, isValue, rfl⟩
        obtain ⟨wires, encoded⟩ := encodes _ isValue
        exact ⟨wires, declarations, isValue, encoded⟩
    · intro value isValue
      obtain ⟨wires, encoded⟩ := encodes value isValue
      obtain ⟨decoded, found, declarations, isSame, equivalent⟩ := lookup_of_decoded (DecodedFrom values) areDecoded
        ((lookups value.1 wires).mpr ⟨value.2, isValue, encoded⟩)
      have same := List.inj_on_of_nodup_map bundled.distinct isSame isValue rfl
      exact ⟨decoded, found, same ▸ equivalent⟩
    · intro name reached
      obtain ⟨adt, wire, isAdt, rfl, -, -⟩ := bundled.registered name reached
      obtain ⟨decl, isDecl, same⟩ := forward adt ((members adt).mpr ⟨reached, isAdt⟩)
      refine ⟨adt, decl, isAdt, isDecl, ?_, same⟩
      obtain ⟨⟨assign, -, rfl⟩, -⟩ := same
      rfl
    · intro decl isDecl
      obtain ⟨adt, isAdt, ⟨assign, -, rfl⟩, -⟩ := backward decl isDecl
      exact (registered adt isAdt).1

end RoundTrip

/-- A function on a declared type. -/
def boxSystem : TypeSystem :=
  { TypeSystem.new with
    adts := [("Box", boxDecl)]
    values := [("unbox", [⟨⟨[], [], .func (.app (.userCon "Box" 1) (.builtin .i32))
      (.builtin .i32)⟩, ["box"], some "what is in it"⟩])] }

theorem bundleRoundTrip_box :
    ∃ bundle decoded, TypeBundle.fromRegisteredValues boxSystem.values boxSystem = .ok bundle ∧
      bundle.intoParts = .ok decoded ∧ Restores boxSystem.values boxSystem decoded := by
  have onlyBox : ∀ typ ∈ referenced boxSystem.values, ∀ con ∈ typ.userCons, con = ("Box", 1) := by
    decide
  have noFields : ∀ typ ∈ boxDecl.fieldTypes, typ.userCons = [] := by
    intro typ isTyp
    obtain ⟨arg, isArg, rfl⟩ := AdtDecl.mem_fieldTypes.mp isTyp
    rw [argument_boxDecl arg isArg]
    simp [AdtArgument.typ, Typ.mkRecord, Typ.userCons, Typ.userConsFields]
  have found (name : Symbol) (adt : AdtDecl) (isAdt : boxSystem.adts.lookup name = some adt) :
      name = "Box" ∧ adt = boxDecl := by
    simp only [boxSystem, lookup_cons_eq_ite] at isAdt
    split_ifs at isAdt with same
    · cases isAdt
      exact ⟨same, rfl⟩
    · cases isAdt
  have noMention (name other : Symbol) : ¬Mentions boxSystem.adts name other := by
    rintro ⟨adt, isAdt, typ, isTyp, arity, isCon⟩
    rw [(found name adt isAdt).2] at isTyp
    rw [noFields typ isTyp] at isCon
    cases isCon
  have reached (name : Symbol) (reaches : Reaches boxSystem.adts (referenced boxSystem.values) name) :
      name = "Box" := by
    obtain ⟨start, ⟨typ, isTyp, arity, isCon⟩, path⟩ := reaches
    cases onlyBox typ isTyp _ isCon
    obtain same | ⟨other, mention, -⟩ := ReflTransGen.cases_head_iff.mp path
    · exact same.symm
    · exact absurd mention (noMention _ _)
  refine bundleRoundTrip ⟨by decide, by decide, ?_, ?_, ?_, ?_, ?_⟩
  · intro value isValue declaration isDeclaration
    cases List.mem_singleton.mp isValue
    cases List.mem_singleton.mp isDeclaration
    exact ⟨⟨by simp, by simp [Typ.builtin, Typ.userCon, Typ.ftv]⟩,
      ⟨.nil, by simp, by simp, by simp,
        .func (.app (.con ⟨by decide, by decide⟩) (.con trivial)) (.con trivial)⟩,
      by decide, .inr rfl⟩
  · intro name reaches
    rw [reached name reaches]
    exact ⟨boxDecl, _, rfl, rfl, wellNamed_boxDecl, AdtDecl.tryFromAdtDecl_eq_ok.mpr
      ⟨closed_boxDecl, _, _, rfl, rfl⟩⟩
  · intro typ isTyp con isCon
    rw [onlyBox typ isTyp con isCon]
    rfl
  · intro name adt _ isAdt typ isTyp con isCon
    rw [(found name adt isAdt).2] at isTyp
    rw [noFields typ isTyp] at isCon
    cases isCon
  · intro name _ cycle
    obtain ⟨other, mention, -⟩ := TransGen.head'_iff.mp cycle
    exact noMention name other mention

/-- A declaration that depends on itself. -/
def treeDecl : AdtDecl :=
  ⟨"Tree", [], [⟨"Leaf", [], none⟩, ⟨"Node", [.positional (.userCon "Tree" 0) none], none⟩], none⟩

def treeSystem : TypeSystem :=
  { TypeSystem.new with
    adts := [("Tree", treeDecl)]
    values := [("grow", [⟨⟨[], [], .func (.userCon "Tree" 0) (.userCon "Tree" 0)⟩, ["tree"], none⟩])] }

theorem searchQueue_treeSystem :
    searchQueue (treeSystem.adts.map Prod.fst) (systemDependencies treeSystem.adts)
      .unknownTypeName ["Tree"] [] = .ok ["Tree"] := by
  have known : systemDependencies treeSystem.adts "Tree" = .ok ["Tree"] := rfl
  rw [searchQueue, if_neg (by simp), dif_pos (by decide), known]
  change searchQueue _ _ _ ["Tree"] ["Tree"] = _
  rw [searchQueue, if_pos (by simp), searchQueue]

theorem orderAdtFamily_treeDecl {ordered : List AdtDecl} :
    orderAdtFamily [treeDecl] ≠ .ok ordered := by
  have known : familyDependencies [("Tree", treeDecl)] "Tree" = .ok ["Tree"] := rfl
  rw [orderAdtFamily]
  change ((List.foldlM _ [] ["Tree"] : Except TypeError (List Symbol)) >>= _) ≠ _
  rw [List.foldlM_cons, visit, if_neg (by simp), dif_neg (by simp), dif_pos (by decide)]
  change ((familyDependencies [("Tree", treeDecl)] "Tree" >>= _) >>= _) >>= _ ≠ _
  rw [known]
  change (((List.foldlM _ [] ["Tree"] : Except TypeError (List Symbol)) >>= _) >>= _) >>= _ ≠ _
  rw [List.foldlM_cons, visit, if_neg (by simp), dif_pos (by simp)]
  rintro ⟨⟩

def adder : RegisteredValue :=
  ⟨⟨[], [], .func (.builtin .i32) (.func (.builtin .i32) (.builtin .i32))⟩, ["x"], none⟩

/-- A function with a function as its result. -/
def adderSystem : TypeSystem :=
  { TypeSystem.new with values := [("adder", [adder])] }

theorem not_bundleRoundTrip :
    (¬ ∃ bundle, TypeBundle.fromRegisteredValues treeSystem.values treeSystem = .ok bundle) ∧
    ∃ bundle, TypeBundle.fromRegisteredValues adderSystem.values adderSystem = .ok bundle ∧
      ¬ ∃ decoded, bundle.intoParts = .ok decoded := by
  constructor
  · rintro ⟨bundle, made⟩
    rw [TypeBundle.fromRegisteredValues] at made
    obtain ⟨wires, -, made⟩ := exists_of_bind_eq_ok made
    obtain ⟨adts, collected, -⟩ := exists_of_bind_eq_ok made
    change (searchQueue _ _ _ ["Tree"] [] >>= _) = _ at collected
    rw [searchQueue_treeSystem] at collected
    exact orderAdtFamily_treeDecl collected
  · have closed : adder.scheme.Closed := ⟨by simp [adder], by simp [adder, Scheme.Quantifies, Typ.builtin, Typ.ftv]⟩
    obtain ⟨wire, encoded⟩ : ∃ wire, TypeBundle.fromRegisteredValue adder = .ok wire :=
      ⟨_, TypeBundle.fromRegisteredValue_eq_ok.mpr ⟨_, Scheme.tryFromScheme_eq_ok.mpr ⟨closed, rfl⟩, rfl⟩⟩
    refine ⟨⟨none, [("adder", [wire])], []⟩, ?_, ?_⟩
    · have collected : collectAdtDeclsForTypes [adder.scheme.typ] adderSystem = .ok [] := by
        rw [collectAdtDeclsForTypes]
        change (searchQueue _ _ _ [] [] >>= _) = _
        rw [searchQueue]
        rfl
      rw [TypeBundle.fromRegisteredValues]
      change ((List.mapM _ [adder] >>= _) >>= _) = _
      rw [List.mapM_cons, encoded]
      change (collectAdtDeclsForTypes [adder.scheme.typ] adderSystem >>= _) = _
      rw [collected]
      rfl
    · rintro ⟨decoded, parts⟩
      rw [TypeBundle.intoParts] at parts
      change ((List.mapM TypeBundle.toValue [("adder", [wire])] :
        TypeBundle.DecodeParts (List (String × List RegisteredValue))) .new >>= _) = _ at parts
      obtain ⟨⟨values, last⟩, areValues, -⟩ := exists_of_bind_eq_ok parts
      rw [List.mapM_cons] at areValues
      obtain ⟨⟨value, later⟩, isValue, -⟩ := exists_of_bind_eq_ok areValues
      rw [TypeBundle.toValue] at isValue
      obtain ⟨⟨decls, _⟩, areDecls, -⟩ := exists_of_bind_eq_ok isValue
      change (List.mapM (TypeBundle.toRegisteredValue "adder") [wire] :
        TypeBundle.DecodeParts (List RegisteredValue)) _ = _ at areDecls
      rw [List.mapM_cons] at areDecls
      obtain ⟨⟨decl, _⟩, isDecl, -⟩ := exists_of_bind_eq_ok areDecls
      refine TypeBundle.not_toRegisteredValue "adder" ?_ ?_ ?_ encoded _ isDecl
      · exact ⟨.nil, by simp [adder], by simp [adder], by simp [adder],
          .func (.con trivial) (.func (.con trivial) (.con trivial))⟩
      · simp [adder]
      · simp [adder, decomposeFunType]

end RexLang
