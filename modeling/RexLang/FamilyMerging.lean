import RexLang.AdtFamilies
import RexLang.ShapeEquality

/-!
# Merged families

The first pass over a family keeps one declaration for each name, the first of that name
with the documentation of the others.  Later merges see of it what they would see of the
first.
-/

namespace RexLang

/-! ## What a merge keeps -/

/-- Documentation that agrees with the merged agrees with the target. -/
def DocsKept (target merged : Option String) : Prop :=
  ∀ other, DocsAgree merged other → DocsAgree target other

/-- What agrees with the merged argument agrees with the target's, and what moves a
variable of the merged argument moves one of the target's. -/
structure AdtArgument.KeptBy (target merged : AdtArgument) : Prop where
  agrees : ∀ other, merged.AgreesWith other → target.AgreesWith other
  moves : ∀ params params' other, merged.Moves params params' other →
    target.Moves params params' other

structure AdtVariant.KeptBy (target merged : AdtVariant) : Prop where
  name : merged.name = target.name
  docs : DocsKept target.docs merged.docs
  args : List.Forall₂ AdtArgument.KeptBy target.args merged.args

structure AdtParam.KeptBy (target merged : AdtParam) : Prop where
  name : merged.name = target.name
  var : merged.var = target.var
  docs : DocsKept target.docs merged.docs

structure AdtDecl.KeptBy (target merged : AdtDecl) : Prop where
  name : merged.name = target.name
  docs : DocsKept target.docs merged.docs
  params : List.Forall₂ AdtParam.KeptBy target.params merged.params
  variants : List.Forall₂ AdtVariant.KeptBy target.variants merged.variants

theorem forall₂_refl_of {First : Type} {related : First → First → Prop}
    (each : ∀ first, related first first) (firsts : List First) :
    List.Forall₂ related firsts firsts :=
  List.forall₂_same.mpr fun first _ => each first

theorem AdtArgument.KeptBy.refl (arg : AdtArgument) : arg.KeptBy arg :=
  ⟨fun _ => id, fun _ _ _ => id⟩

theorem AdtVariant.KeptBy.refl (variant : AdtVariant) : variant.KeptBy variant :=
  ⟨rfl, fun _ => id, forall₂_refl_of .refl variant.args⟩

theorem AdtParam.KeptBy.refl (param : AdtParam) : param.KeptBy param :=
  ⟨rfl, rfl, fun _ => id⟩

theorem AdtDecl.KeptBy.refl (adt : AdtDecl) : adt.KeptBy adt :=
  ⟨rfl, fun _ => id, forall₂_refl_of .refl adt.params, forall₂_refl_of .refl adt.variants⟩

theorem AdtArgument.KeptBy.trans {first second third : AdtArgument} (before : first.KeptBy second)
    (after : second.KeptBy third) : first.KeptBy third :=
  ⟨fun other agrees => before.agrees other (after.agrees other agrees),
    fun params params' other moves =>
      before.moves params params' other (after.moves params params' other moves)⟩

theorem forall₂_trans_of {First : Type} (related : First → First → Prop)
    (each : ∀ first second third, related first second → related second third →
      related first third) {firsts seconds thirds : List First}
    (before : List.Forall₂ related firsts seconds) (after : List.Forall₂ related seconds thirds) :
    List.Forall₂ related firsts thirds := by
  induction before generalizing thirds with
  | nil =>
      cases after
      exact .nil
  | cons isFirst _ hypothesis =>
      cases after with
      | cons isSecond rest => exact .cons (each _ _ _ isFirst isSecond) (hypothesis rest)

theorem AdtVariant.KeptBy.trans {first second third : AdtVariant} (before : first.KeptBy second)
    (after : second.KeptBy third) : first.KeptBy third :=
  ⟨after.name.trans before.name, fun other agrees => before.docs other (after.docs other agrees),
    forall₂_trans_of AdtArgument.KeptBy (fun _ _ _ => .trans) before.args after.args⟩

theorem AdtParam.KeptBy.trans {first second third : AdtParam} (before : first.KeptBy second)
    (after : second.KeptBy third) : first.KeptBy third :=
  ⟨after.name.trans before.name, after.var.trans before.var,
    fun other agrees => before.docs other (after.docs other agrees)⟩

theorem AdtDecl.KeptBy.trans {first second third : AdtDecl} (before : first.KeptBy second)
    (after : second.KeptBy third) : first.KeptBy third :=
  ⟨after.name.trans before.name, fun other agrees => before.docs other (after.docs other agrees),
    forall₂_trans_of AdtParam.KeptBy (fun _ _ _ => .trans) before.params after.params,
    forall₂_trans_of AdtVariant.KeptBy (fun _ _ _ => .trans) before.variants after.variants⟩

/-! ## Merges keep -/

theorem mergeDocs_kept {target source merged : Option String} {subject : String}
    (runs : mergeDocs target source subject = .ok merged) : DocsKept target merged := by
  intro other agrees
  cases target with
  | none => exact fun _ isCurrent => by simp at isCurrent
  | some current =>
      have same : merged = some current := by
        cases source with
        | none =>
            cases runs
            rfl
        | some incoming =>
            rw [mergeDocs] at runs
            split_ifs at runs
            cases runs
            rfl
      rwa [same] at agrees

theorem mergeFieldDocs_kept {adt variant : Symbol} {sources others : List AdtField}
    {target merged : AdtField} (runs : mergeFieldDocs adt variant sources target = .ok merged)
    (agrees : merged.AgreesWith others) : target.AgreesWith others := by
  obtain ⟨other, found, docs⟩ := agrees
  refine ⟨other, (mergeFieldDocs_keeps runs).1 ▸ found, ?_⟩
  rw [mergeFieldDocs] at runs
  split at runs
  · cases runs
  · obtain ⟨mergedDocs, isDocs, runs⟩ := bind_eq_ok.mp runs
    cases runs
    exact mergeDocs_kept isDocs other.docs docs

theorem mergeArgumentDocs_kept {adt variant subject : String} {target source merged : AdtArgument}
    (runs : mergeArgumentDocs adt variant subject target source = .ok merged) :
    target.KeptBy merged := by
  cases target with
  | positional typ docs =>
      cases source with
      | positional other sourceDocs =>
          obtain ⟨mergedDocs, isDocs, runs⟩ := bind_eq_ok.mp runs
          cases runs
          refine ⟨fun other agrees => ?_, fun _ _ other moves => ?_⟩
          · cases other with
            | positional _ otherDocs => exact mergeDocs_kept isDocs otherDocs agrees
            | record _ otherDocs => exact mergeDocs_kept isDocs otherDocs agrees
          · cases other with
            | positional _ _ => exact moves
            | record _ _ => exact moves
      | record fields sourceDocs =>
          obtain ⟨mergedDocs, isDocs, runs⟩ := bind_eq_ok.mp runs
          cases runs
          refine ⟨fun other agrees => ?_, fun _ _ other moves => moves.elim⟩
          cases other with
          | positional _ otherDocs => exact mergeDocs_kept isDocs otherDocs agrees
          | record _ otherDocs => exact mergeDocs_kept isDocs otherDocs agrees.1
  | record fields docs =>
      cases source with
      | positional typ sourceDocs =>
          obtain ⟨mergedDocs, isDocs, runs⟩ := bind_eq_ok.mp runs
          cases runs
          refine ⟨fun other agrees => ?_, fun _ _ other moves => moves.elim⟩
          cases other with
          | positional _ otherDocs => exact mergeDocs_kept isDocs otherDocs agrees
          | record _ otherDocs => exact ⟨mergeDocs_kept isDocs otherDocs agrees.1, agrees.2⟩
      | record sources sourceDocs =>
          obtain ⟨mergedDocs, isDocs, runs⟩ := bind_eq_ok.mp runs
          obtain ⟨mergedFields, isFields, runs⟩ := bind_eq_ok.mp runs
          cases runs
          refine ⟨fun other agrees => ?_, fun _ _ other moves => moves.elim⟩
          cases other with
          | positional _ otherDocs => exact mergeDocs_kept isDocs otherDocs agrees
          | record otherFields otherDocs =>
              refine ⟨mergeDocs_kept isDocs otherDocs agrees.1, fun field isField => ?_⟩
              obtain ⟨mergedField, isMerged, visited⟩ :=
                exists_of_forall₂_mem_left (forall₂_of_mapM isFields) isField
              exact mergeFieldDocs_kept visited (agrees.2 mergedField isMerged)

theorem mergeArgumentsDocs_kept {adt variant : Symbol} {index : Nat}
    {targets sources merged : List AdtArgument}
    (runs : mergeArgumentsDocs adt variant index targets sources = .ok merged) :
    List.Forall₂ AdtArgument.KeptBy targets merged := by
  induction targets generalizing sources index merged with
  | nil =>
      cases runs
      exact .nil
  | cons target targets hypothesis =>
      cases sources with
      | nil =>
          cases runs
          exact forall₂_refl_of .refl _
      | cons source sources =>
          obtain ⟨first, isFirst, runs⟩ := bind_eq_ok.mp runs
          obtain ⟨rest, isRest, runs⟩ := bind_eq_ok.mp runs
          cases runs
          exact .cons (mergeArgumentDocs_kept isFirst) (hypothesis isRest)

theorem mergeVariantDocs_kept {adt : Symbol} {sources : List AdtVariant}
    {target merged : AdtVariant} (runs : mergeVariantDocs adt sources target = .ok merged) :
    target.KeptBy merged := by
  rw [mergeVariantDocs] at runs
  split at runs
  · cases runs
  · obtain ⟨docs, isDocs, runs⟩ := bind_eq_ok.mp runs
    obtain ⟨args, isArgs, runs⟩ := bind_eq_ok.mp runs
    cases runs
    exact ⟨rfl, mergeDocs_kept isDocs, mergeArgumentsDocs_kept isArgs⟩

theorem mergeParamDocs_kept {adt : Symbol} {index : Nat} {targets sources merged : List AdtParam}
    (runs : mergeParamDocs adt index targets sources = .ok merged) :
    List.Forall₂ AdtParam.KeptBy targets merged := by
  induction targets generalizing sources index merged with
  | nil =>
      cases runs
      exact .nil
  | cons target targets hypothesis =>
      cases sources with
      | nil =>
          cases runs
          exact forall₂_refl_of .refl _
      | cons source sources =>
          rw [mergeParamDocs] at runs
          split_ifs at runs
          obtain ⟨docs, isDocs, runs⟩ := bind_eq_ok.mp runs
          obtain ⟨rest, isRest, runs⟩ := bind_eq_ok.mp runs
          cases runs
          exact .cons ⟨rfl, rfl, mergeDocs_kept isDocs⟩ (hypothesis isRest)

theorem mergeAdtDocs_kept {target source merged : AdtDecl}
    (runs : mergeAdtDocs target source = .ok merged) : target.KeptBy merged := by
  rw [mergeAdtDocs] at runs
  split_ifs at runs
  obtain ⟨docs, isDocs, runs⟩ := bind_eq_ok.mp runs
  obtain ⟨params, isParams, runs⟩ := bind_eq_ok.mp runs
  obtain ⟨variants, isVariants, runs⟩ := bind_eq_ok.mp runs
  cases runs
  exact ⟨rfl, mergeDocs_kept isDocs, mergeParamDocs_kept isParams,
    (forall₂_of_mapM isVariants).imp fun _ _ => mergeVariantDocs_kept⟩

/-! ## What others see of a merged declaration -/

section Kept

variable {first merged other : AdtDecl}

/-- Pairs with kept elements are pairs of what keeps them. -/
theorem exists_pair_of_kept {First Second : Type} {related : First → First → Prop}
    {targets keepers : List First} {others : List Second}
    (kept : List.Forall₂ related targets keepers) {pair : First × Second}
    (member : pair ∈ targets.zip others) :
    ∃ keeper, (keeper, pair.2) ∈ keepers.zip others ∧ related pair.1 keeper := by
  induction kept generalizing others with
  | nil => simp at member
  | @cons target keeper targets keepers isKept _ hypothesis =>
      cases others with
      | nil => simp at member
      | cons other others =>
          rw [List.zip_cons_cons, List.mem_cons] at member
          obtain rfl | member := member
          · exact ⟨keeper, List.mem_cons_self, isKept⟩
          · obtain ⟨found, inRest, isRelated⟩ := hypothesis member
            exact ⟨found, .tail _ inRest, isRelated⟩

theorem AdtDecl.KeptBy.agreesWith (kept : first.KeptBy merged) (agrees : merged.AgreesWith other) :
    first.AgreesWith other := by
  refine ⟨kept.docs other.docs agrees.docs, fun pair isPair => ?_, fun variant isVariant => ?_⟩
  · obtain ⟨param, isParam, isKept⟩ := exists_pair_of_kept kept.params isPair
    obtain ⟨sameName, docs⟩ := agrees.params _ isParam
    exact ⟨isKept.name.symm.trans sameName, isKept.docs pair.2.docs docs⟩
  · obtain ⟨mergedVariant, isMerged, isKept⟩ := exists_of_forall₂_mem_left kept.variants isVariant
    obtain ⟨otherVariant, found, docs, args⟩ := agrees.variants mergedVariant isMerged
    refine ⟨otherVariant, isKept.name ▸ found, isKept.docs otherVariant.docs docs, ?_⟩
    intro pair isPair
    obtain ⟨arg, isArg, argKept⟩ := exists_pair_of_kept isKept.args isPair
    exact argKept.agrees pair.2 (args _ isArg)

theorem AdtDecl.KeptBy.vars (kept : first.KeptBy merged) :
    merged.params.map (·.var) = first.params.map (·.var) := by
  rw [← List.forall₂_eq_eq_eq, List.forall₂_map_left_iff, List.forall₂_map_right_iff]
  exact (kept.params.imp fun _ _ => AdtParam.KeptBy.var).flip

theorem AdtDecl.KeptBy.moves (kept : first.KeptBy merged) (moves : merged.Moves other) :
    first.Moves other := by
  obtain ⟨mergedVariant, isMerged, otherVariant, isOther, sameName, pair, isPair, pairMoves⟩ := moves
  obtain ⟨variant, isVariant, isKept⟩ := exists_of_forall₂_mem_right kept.variants isMerged
  obtain ⟨arg, isArg, argKept⟩ := exists_pair_of_kept isKept.args.flip isPair
  refine ⟨variant, isVariant, otherVariant, isOther, sameName.trans isKept.name, _, isArg, ?_⟩
  have positions (id : TypeVarId) :
      paramPosition merged.params id = paramPosition first.params id :=
    paramPosition_congr kept.vars id
  have movesFirst : pair.1.Moves first.params other.params pair.2 := by
    obtain ⟨mergedArg, otherArg⟩ := pair
    cases mergedArg with
    | record _ _ => exact pairMoves.elim
    | positional _ _ =>
        cases otherArg with
        | positional _ _ => exact pairMoves.elim
        | record _ _ =>
            obtain ⟨id, inside, differ⟩ := pairMoves
            exact ⟨id, inside, positions id ▸ differ⟩
  exact argKept.moves _ _ _ movesFirst

end Kept

/-! ## Merged declarations of words -/

theorem mem_mergedTypes {targets sources : List AdtArgument} {typ : Typ}
    (member : typ ∈ mergedTypes targets sources) : ∃ arg ∈ targets ++ sources, arg.typ = typ := by
  induction targets generalizing sources with
  | nil => simp [mergedTypes] at member
  | cons target targets hypothesis =>
      cases sources with
      | nil =>
          obtain ⟨arg, isArg, rfl⟩ := List.mem_map.mp member
          exact ⟨arg, List.mem_append_left _ isArg, rfl⟩
      | cons source sources =>
          rw [mergedTypes, List.mem_cons] at member
          obtain rfl | member := member
          · cases target with
            | record fields docs => exact ⟨_, List.mem_append_left _ List.mem_cons_self, rfl⟩
            | positional typ docs =>
                cases source with
                | positional other sourceDocs =>
                    exact ⟨_, List.mem_append_left _ List.mem_cons_self, rfl⟩
                | record fields sourceDocs =>
                    exact ⟨_, List.mem_append_right _ List.mem_cons_self, rfl⟩
          · obtain ⟨arg, isArg, same⟩ := hypothesis member
            refine ⟨arg, ?_, same⟩
            exact (List.mem_append.mp isArg).elim (fun inside => by simp [inside])
              fun inside => by simp [inside]

theorem Merges.readable {target source merged : AdtDecl} (merges : Merges target source merged)
    (onTarget : target.Readable) (onSource : source.Readable) : merged.Readable := by
  refine ⟨⟨merges.name ▸ onTarget.name, fun variant isVariant => ?_,
    fun variant isVariant arg isArg => ?_⟩, merges.names ▸ onTarget.distinct⟩
  · obtain ⟨from_, isFrom, mergedFrom⟩ := exists_of_forall₂_mem_right merges.variants isVariant
    exact mergedFrom.name ▸ onTarget.variants from_ isFrom
  · obtain ⟨from_, isFrom, mergedFrom⟩ := exists_of_forall₂_mem_right merges.variants isVariant
    obtain ⟨other, isOther, -, types⟩ := mergedFrom.types
    have member : arg.typ ∈ mergedTypes from_.args other.args :=
      types ▸ List.mem_map_of_mem isArg
    obtain ⟨found, isFound, same⟩ := mem_mergedTypes member
    rw [← same]
    exact (List.mem_append.mp isFound).elim (onTarget.args from_ isFrom found)
      (onSource.args other isOther found)

/-! ## The first pass -/

/-- The families whose declarations are compared, merged and found as they are: of words,
without two declarations that look alike and differ or whose merge moves a variable, with
constructors that no builtin type stands for, and with the dependencies of equal
declarations in one order. -/
structure PlainFamily (adts : List AdtDecl) : Prop where
  readable : ∀ adt ∈ adts, adt.Readable
  apart : ∀ first ∈ adts, ∀ second ∈ adts, first.LooksLike second →
    first.params.length = second.params.length → first.SameDeclaration second
  stays : ∀ first ∈ adts, ∀ second ∈ adts, first.SameDeclaration second →
    first.AgreesWith second → ¬first.Moves second
  heads : ∀ adt ∈ adts, ∀ typ ∈ adt.fieldTypes, ∀ con ∈ typ.userCons,
    familyHeadName con = some con.1
  order : ∀ first ∈ adts, ∀ second ∈ adts, first.SameDeclaration second → ∀ names names',
    adtDirectDependencies first = .ok names → adtDirectDependencies second = .ok names' →
      names = names'

/-- A declaration merged from equal declarations, of which it keeps the first. -/
structure Represents (first merged : AdtDecl) : Prop where
  kept : first.KeptBy merged
  shapes : merged.variantShapes = first.variantShapes
  readable : merged.Readable

theorem Represents.sameDeclaration {first merged : AdtDecl} (represents : Represents first merged) :
    first.SameDeclaration merged :=
  ⟨represents.kept.name.symm, represents.kept.params.length_eq, .of_eq represents.shapes.symm⟩

theorem AdtDecl.SameDeclaration.trans {first second third : AdtDecl}
    (before : first.SameDeclaration second) (after : second.SameDeclaration third) :
    first.SameDeclaration third :=
  ⟨before.name.trans after.name, before.params.trans after.params,
    before.variants.trans after.variants⟩

theorem AdtDecl.SameDeclaration.symm {first second : AdtDecl} (same : first.SameDeclaration second) :
    second.SameDeclaration first :=
  ⟨same.name.symm, same.params.symm, same.variants.symm⟩

/-- A merged declaration of a plain family represents the first still, which equals the
declaration it is merged with. -/
theorem PlainFamily.merge {adts : List AdtDecl} (plain : PlainFamily adts)
    {first next existing merged : AdtDecl} (isFirst : first ∈ adts) (isNext : next ∈ adts)
    (represents : Represents first existing) (runs : mergeAdtDocs existing next = .ok merged) :
    Represents first merged ∧ first.SameDeclaration next := by
  obtain ⟨sameShape, counts, agrees⟩ := exists_mergeAdtDocs.mp ⟨merged, runs⟩
  have onNext := plain.readable next isNext
  have alike := (represents.readable.toOfWords.adtShape_eq_iff onNext.toOfWords).mp sameShape
  have sameFirst := represents.sameDeclaration
  have alikeFirst : first.LooksLike next :=
    ⟨sameFirst.name.trans alike.name, by rw [← represents.shapes]; exact alike.variants⟩
  have same := plain.apart first isFirst next isNext alikeFirst (sameFirst.params.trans counts)
  have stays : ¬existing.Moves next := fun moves =>
    plain.stays first isFirst next isNext same (represents.kept.agreesWith agrees)
      (represents.kept.moves moves)
  have merges := mergeAdtDocs_merges runs
  have shapes := merges.variantShapes_eq (sameFirst.symm.trans same) onNext.distinct stays
  exact ⟨⟨represents.kept.trans (mergeAdtDocs_kept runs), shapes.trans represents.shapes,
    merges.readable represents.readable onNext⟩, same⟩

/-- The declarations so far are represented, each by one of its name. -/
structure FamilySoFar (seen : List AdtDecl) (unique : SymbolMap AdtDecl) : Prop where
  ordered : Ordered unique
  represents : ∀ name merged, unique.lookup name = some merged → ∃ first ∈ seen,
    first.name = name ∧ Represents first merged ∧
      ∀ adt ∈ seen, adt.name = name → first.SameDeclaration adt
  covers : ∀ adt ∈ seen, (unique.lookup adt.name).isSome

theorem AdtDecl.SameDeclaration.refl (adt : AdtDecl) : adt.SameDeclaration adt :=
  ⟨rfl, rfl, .refl _⟩

theorem Represents.refl {adt : AdtDecl} (readable : adt.Readable) : Represents adt adt :=
  ⟨.refl adt, rfl, readable⟩

theorem FamilySoFar.insert {seen : List AdtDecl} {unique : SymbolMap AdtDecl}
    (gathers : FamilySoFar seen unique) {next merged first : AdtDecl}
    (isFirst : first ∈ seen ++ [next]) (sameName : first.name = next.name)
    (represents : Represents first merged)
    (same : ∀ adt ∈ seen ++ [next], adt.name = next.name → first.SameDeclaration adt) :
    FamilySoFar (seen ++ [next]) (unique.insert next.name merged) := by
  refine ⟨ordered_insert gathers.ordered next.name merged, fun name found isFound => ?_,
    fun adt member => ?_⟩
  · rw [lookup_insert] at isFound
    split_ifs at isFound with isName
    · cases isFound
      subst isName
      exact ⟨first, isFirst, sameName, represents, same⟩
    · obtain ⟨other, isOther, otherName, isRepresented, sameOther⟩ :=
        gathers.represents name found isFound
      refine ⟨other, List.mem_append_left _ isOther, otherName, isRepresented, ?_⟩
      intro adt member adtName
      obtain before | isLast := List.mem_append.mp member
      · exact sameOther adt before adtName
      · rw [List.mem_singleton.mp isLast] at adtName
        exact absurd adtName.symm isName
  · rw [lookup_insert]
    split_ifs with isName
    · rfl
    · obtain before | isLast := List.mem_append.mp member
      · exact gathers.covers adt before
      · rw [List.mem_singleton.mp isLast] at isName
        exact absurd rfl isName

/-- The first pass over a plain family keeps one declaration for each name. -/
theorem PlainFamily.gathers {adts : List AdtDecl} (plain : PlainFamily adts)
    {seen rest : List AdtDecl} (isAll : seen ++ rest = adts) {unique family : SymbolMap AdtDecl}
    (gathers : FamilySoFar seen unique) (runs : uniqueFamily rest unique = .ok family) :
    FamilySoFar adts family := by
  induction rest generalizing seen unique with
  | nil =>
      cases runs
      rw [List.append_nil] at isAll
      exact isAll ▸ gathers
  | cons next rest hypothesis =>
      have isAllRest : (seen ++ [next]) ++ rest = adts := by simpa using isAll
      have isNext : next ∈ adts := by simp [← isAll]
      rw [uniqueFamily] at runs
      cases found : unique.lookup next.name with
      | none =>
          rw [found] at runs
          refine hypothesis isAllRest (gathers.insert (by simp) rfl
            (.refl (plain.readable next isNext)) ?_) runs
          intro adt member sameName
          obtain before | isLast := List.mem_append.mp member
          · have isSome := gathers.covers adt before
            rw [sameName, found] at isSome
            cases isSome
          · rw [List.mem_singleton.mp isLast]
            exact .refl next
      | some existing =>
          rw [found] at runs
          simp only at runs
          split_ifs at runs
          obtain ⟨merged, isMerged, runs⟩ := bind_eq_ok.mp runs
          obtain ⟨first, isFirst, sameName, represents, same⟩ :=
            gathers.represents next.name existing found
          obtain ⟨representsMerged, sameNext⟩ :=
            plain.merge (by simp [← isAll, isFirst]) isNext represents isMerged
          refine hypothesis isAllRest (gathers.insert (List.mem_append_left _ isFirst) sameName
            representsMerged ?_) runs
          intro adt member adtName
          obtain before | isLast := List.mem_append.mp member
          · exact same adt before adtName
          · rw [List.mem_singleton.mp isLast]
            exact sameNext

end RexLang
