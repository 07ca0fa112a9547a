import RexLang.DocumentationMerge

/-!
# Equal shapes and merged declarations

For declarations of words, what makes the comparison of shapes differ from the comparison
of the declarations, and what makes a merged declaration differ from its target.
-/

namespace RexLang

/-- `merge_adt_docs` on its target: the result and the target afterwards.  The target is
assigned after its copy has been merged. -/
def mergeAdtDocsInto (target source : AdtDecl) : Except TypeError Unit × AdtDecl :=
  match mergeAdtDocs target source with
  | .error error => (.error error, target)
  | .ok merged => (.ok (), merged)

/-- Shapes are equal for equal declarations only, and merging keeps the target on an error
and its shape otherwise. -/
structure ShapesCorrect (target source : AdtDecl) : Prop where
  eq_iff : adtShapeEq target source = true ↔ target.SameDeclaration source
  unchanged : ∀ error, (mergeAdtDocsInto target source).1 = .error error →
    (mergeAdtDocsInto target source).2 = target
  keepsShape : (mergeAdtDocsInto target source).1 = .ok () →
    target.SameDeclaration (mergeAdtDocsInto target source).2

/-- A declaration of words with a name of its own for every variant. -/
structure AdtDecl.Readable (adt : AdtDecl) : Prop extends adt.OfWords where
  distinct : (adt.variants.map (·.name)).Nodup

/-- A positional argument meets a record argument with a variable that has another
position among the parameters of the target. -/
def AdtArgument.Moves (targetParams sourceParams : List AdtParam) :
    AdtArgument → AdtArgument → Prop
  | .positional _ _, .record fields docs => ∃ id ∈ (AdtArgument.record fields docs).typ.ftv,
      paramPosition targetParams id ≠ paramPosition sourceParams id
  | _, _ => False

def AdtDecl.Moves (target source : AdtDecl) : Prop :=
  ∃ variant ∈ target.variants, ∃ other ∈ source.variants, other.name = variant.name ∧
    ∃ pair ∈ variant.args.zip other.args, pair.1.Moves target.params source.params pair.2

/-! ## Positions -/

section Positions

variable {params params' : List AdtParam}

theorem varLeaf_eq_iff {id : TypeVarId} :
    varLeaf params id = varLeaf params' id ↔ paramPosition params id = paramPosition params' id := by
  rw [varLeaf, varLeaf]
  cases paramPosition params id with
  | none =>
      cases paramPosition params' id with
      | none => simp
      | some index => simp
  | some index =>
      cases paramPosition params' id with
      | none => simp
      | some other => simp

/-- A type reads the same where its variables have the same positions. -/
theorem Typ.shapeTree_eq_iff {typ : Typ} : typ.shapeTree params = typ.shapeTree params' ↔
    ∀ id ∈ typ.ftv, paramPosition params id = paramPosition params' id := by
  induction typ using Typ.inductionOn with
  | var typeVar => simp [shapeTree, ftv, varLeaf_eq_iff]
  | con const => simp [shapeTree, ftv]
  | app head arg onHead onArg =>
      simp only [shapeTree, ShapeTree.app.injEq, onHead, onArg, ftv, Finset.mem_union]
      exact forall₂_or_left.symm
  | func arg ret onArg onRet =>
      simp only [shapeTree, ShapeTree.func.injEq, onArg, onRet, ftv, Finset.mem_union]
      exact forall₂_or_left.symm
  | tuple elems onElems =>
      rw [shapeTree, shapeTree, ShapeTree.tuple.injEq, ftv]
      induction elems with
      | nil => simp [shapeTrees, ftvList]
      | cons elem elems hypothesis =>
          simp only [shapeTrees, List.cons.injEq, onElems elem List.mem_cons_self,
            hypothesis fun other member => onElems other (.tail _ member), ftvList,
            Finset.mem_union]
          exact forall₂_or_left.symm
  | record fields onFields =>
      rw [shapeTree, shapeTree, ShapeTree.record.injEq, ftv]
      induction fields with
      | nil => simp [shapeFields, ftvFields]
      | cons field fields hypothesis =>
          simp only [shapeFields, List.cons.injEq, Prod.mk.injEq, true_and,
            onFields field List.mem_cons_self,
            hypothesis fun other member => onFields other (.tail _ member), ftvFields,
            Finset.mem_union]
          exact forall₂_or_left.symm

theorem paramPosition_congr (same : params.map (·.var) = params'.map (·.var)) (id : TypeVarId) :
    paramPosition params id = paramPosition params' id := by
  have onVars (list : List AdtParam) :
      (list.zipIdx.map fun entry => (entry.1.var.id, entry.2)) =
        (list.map (·.var)).zipIdx.map fun entry => (entry.1.id, entry.2) := by
    rw [List.zipIdx_map, List.map_map]
    rfl
  rw [paramPosition, paramPosition, onVars, onVars, same]

theorem AdtVariant.shape_congr (same : params.map (·.var) = params'.map (·.var))
    (variant : AdtVariant) : variant.shape params = variant.shape params' := by
  refine congrArg (Prod.mk variant.name) (List.map_congr_left fun arg _ => ?_)
  exact Typ.shapeTree_eq_iff.2 fun id _ => paramPosition_congr same id

/-- Variants of one name have one shape in equal declarations. -/
theorem shape_eq_of_perm {firsts seconds : List AdtVariant}
    (perm : (firsts.map (AdtVariant.shape params)).Perm (seconds.map (AdtVariant.shape params')))
    (distinct : (seconds.map (·.name)).Nodup) {first second : AdtVariant} (isFirst : first ∈ firsts)
    (isSecond : second ∈ seconds) (sameName : second.name = first.name) :
    first.shape params = second.shape params' := by
  obtain ⟨other, isOther, sameShape⟩ :=
    List.mem_map.mp (perm.subset (List.mem_map_of_mem isFirst))
  have sameOther : other.name = first.name := congrArg Prod.fst sameShape
  obtain rfl : other = second :=
    List.inj_on_of_nodup_map distinct isOther isSecond (sameOther.trans sameName.symm)
  exact sameShape.symm

/-! ## Merged types -/

/-- The merged arguments read like those of the target if and only if no variable moves. -/
theorem mergedTypes_eq_iff {targets sources : List AdtArgument}
    (same : (targets.map fun arg => arg.typ.shapeTree params) =
      sources.map fun arg => arg.typ.shapeTree params') :
    ((mergedTypes targets sources).map (Typ.shapeTree params) =
        targets.map fun arg => arg.typ.shapeTree params) ↔
      ∀ pair ∈ targets.zip sources, ¬pair.1.Moves params params' pair.2 := by
  induction targets generalizing sources with
  | nil => simp [mergedTypes]
  | cons target targets hypothesis =>
      cases sources with
      | nil => cases same
      | cons source sources =>
          rw [List.map_cons, List.map_cons, List.cons.injEq] at same
          rw [mergedTypes, List.map_cons, List.map_cons, List.cons.injEq, hypothesis same.2,
            List.zip_cons_cons, List.forall_mem_cons]
          refine and_congr_left fun _ => ?_
          cases target with
          | record fields docs => exact ⟨fun _ => id, fun _ => rfl⟩
          | positional typ docs =>
              cases source with
              | positional other sourceDocs => exact ⟨fun _ => id, fun _ => rfl⟩
              | record fields sourceDocs =>
                  rw [same.1, AdtArgument.mergedTyp, Typ.shapeTree_eq_iff, AdtArgument.Moves]
                  simp only [not_exists, not_and, not_not]

end Positions

/-! ## Merged declarations -/

section Merged

variable {target source merged : AdtDecl}

/-- A merged variant has the shape of the target's variant if and only if none of its
variables moves. -/
theorem MergedFrom.shape_eq_iff (same : target.SameDeclaration source)
    (distinct : (source.variants.map (·.name)).Nodup) {variant mergedVariant : AdtVariant}
    (isVariant : variant ∈ target.variants)
    (mergedFrom : MergedFrom source.variants variant mergedVariant) :
    mergedVariant.shape target.params = variant.shape target.params ↔
      ∀ other ∈ source.variants, other.name = variant.name →
        ∀ pair ∈ variant.args.zip other.args, ¬pair.1.Moves target.params source.params pair.2 := by
  obtain ⟨other, isOther, sameName, types⟩ := mergedFrom.types
  have sameShape := shape_eq_of_perm same.variants distinct isVariant isOther sameName
  have mergedArgs : (mergedVariant.args.map fun arg => arg.typ.shapeTree target.params) =
      (mergedTypes variant.args other.args).map (Typ.shapeTree target.params) := by
    rw [← types, List.map_map]
    rfl
  have onArgs := mergedTypes_eq_iff (congrArg Prod.snd sameShape)
  rw [AdtVariant.shape, AdtVariant.shape, Prod.mk.injEq, mergedFrom.name, mergedArgs, onArgs]
  constructor
  · rintro ⟨-, keeps⟩ another isAnother anotherName
    obtain rfl := List.inj_on_of_nodup_map distinct isAnother isOther
      (anotherName.trans sameName.symm)
    exact keeps
  · intro keeps
    exact ⟨rfl, keeps other isOther sameName⟩

theorem Merges.vars (merges : Merges target source merged) :
    merged.params.map (·.var) = target.params.map (·.var) := by
  have same := congrArg (List.map Prod.snd) merges.params
  rwa [List.map_map, List.map_map] at same

theorem Merges.names (merges : Merges target source merged) :
    merged.variants.map (·.name) = target.variants.map (·.name) := by
  have each := merges.variants.imp fun _ _ => MergedFrom.name
  rw [← List.forall₂_eq_eq_eq, List.forall₂_map_left_iff, List.forall₂_map_right_iff]
  exact each.flip

theorem Merges.shapes (merges : Merges target source merged) :
    merged.variantShapes = merged.variants.map (AdtVariant.shape target.params) :=
  List.map_congr_left fun variant _ => AdtVariant.shape_congr merges.vars variant

/-- Where no variable moves, the variants of a merged declaration are those of the target. -/
theorem Merges.variantShapes_eq (merges : Merges target source merged)
    (same : target.SameDeclaration source) (distinct : (source.variants.map (·.name)).Nodup)
    (keeps : ¬target.Moves source) : merged.variantShapes = target.variantShapes := by
  rw [merges.shapes, AdtDecl.variantShapes, ← List.forall₂_eq_eq_eq, List.forall₂_map_left_iff,
    List.forall₂_map_right_iff]
  refine List.Forall₂.flip (List.forall₂_iff_get.mpr
    ⟨merges.variants.length_eq, fun index inFirst inSecond => ?_⟩)
  have isVariant := List.get_mem target.variants ⟨index, inFirst⟩
  have mergedFrom := merges.variants.get inFirst inSecond
  refine (mergedFrom.shape_eq_iff same distinct isVariant).mpr ?_
  intro other isOther sameName pair isPair moves
  exact keeps ⟨_, isVariant, other, isOther, sameName, pair, isPair, moves⟩

/-- A merged declaration equals the target if and only if no variable moves. -/
theorem Merges.sameDeclaration_iff (merges : Merges target source merged)
    (same : target.SameDeclaration source) (onTarget : (target.variants.map (·.name)).Nodup)
    (onSource : (source.variants.map (·.name)).Nodup) :
    target.SameDeclaration merged ↔ ¬target.Moves source := by
  constructor
  · rintro sameMerged ⟨variant, isVariant, other, isOther, sameName, pair, isPair, moves⟩
    obtain ⟨mergedVariant, isMerged, mergedFrom⟩ :=
      exists_of_forall₂_mem_left merges.variants isVariant
    have perm := sameMerged.variants
    rw [merges.shapes] at perm
    have sameShape := shape_eq_of_perm perm (merges.names ▸ onTarget) isVariant isMerged
      mergedFrom.name
    exact (mergedFrom.shape_eq_iff same onSource isVariant).mp sameShape.symm other isOther sameName
      pair isPair moves
  · intro keeps
    have lengths := congrArg List.length merges.params
    rw [List.length_map, List.length_map] at lengths
    exact ⟨merges.name.symm, lengths.symm,
      .of_eq (merges.variantShapes_eq same onSource keeps).symm⟩

end Merged

/-! ## Correctness -/

theorem mergeAdtDocsInto_unchanged (target source : AdtDecl) (error : TypeError)
    (failed : (mergeAdtDocsInto target source).1 = .error error) :
    (mergeAdtDocsInto target source).2 = target := by
  unfold mergeAdtDocsInto at failed ⊢
  cases found : mergeAdtDocs target source with
  | error other => rfl
  | ok merged =>
      rw [found] at failed
      cases failed

theorem mergeAdtDocsInto_ok {target source : AdtDecl}
    (ran : (mergeAdtDocsInto target source).1 = .ok ()) :
    mergeAdtDocs target source = .ok (mergeAdtDocsInto target source).2 := by
  unfold mergeAdtDocsInto at ran ⊢
  cases found : mergeAdtDocs target source with
  | error error =>
      rw [found] at ran
      cases ran
  | ok merged => rfl

/-- A merge in which a variable moves changes the shape of its target. -/
theorem not_shapesCorrect_of_moves {target source : AdtDecl} (onTarget : target.Readable)
    (onSource : source.Readable) (same : target.SameDeclaration source)
    (agrees : target.AgreesWith source) (moves : target.Moves source) :
    ¬ShapesCorrect target source := by
  intro correct
  have sameShape := (onTarget.toOfWords.adtShape_eq_iff onSource.toOfWords).mpr same.looksLike
  obtain ⟨merged, runs⟩ := exists_mergeAdtDocs.mpr ⟨sameShape, same.params, agrees⟩
  have kept := correct.keepsShape (by rw [mergeAdtDocsInto, runs])
  rw [mergeAdtDocsInto, runs] at kept
  exact ((mergeAdtDocs_merges runs).sameDeclaration_iff same onTarget.distinct
    onSource.distinct).mp kept moves

/-- Declarations of words are compared and merged as they are if and only if they do not
look alike and differ, and no variable moves in a merge of equal declarations whose
documentation agrees. -/
theorem shapesCorrect_iff {target source : AdtDecl} (onTarget : target.Readable)
    (onSource : source.Readable) :
    ShapesCorrect target source ↔
      ¬(target.LooksLike source ∧ ¬target.SameDeclaration source) ∧
        ¬(target.SameDeclaration source ∧ target.AgreesWith source ∧ target.Moves source) := by
  have shapes := onTarget.toOfWords.adtShape_eq_iff onSource.toOfWords
  have isEq : adtShapeEq target source = true ↔ target.LooksLike source := by
    rw [adtShapeEq, beq_iff_eq, shapes]
  constructor
  · intro correct
    refine ⟨fun ⟨alike, differ⟩ => differ (correct.eq_iff.mp (isEq.mpr alike)), ?_⟩
    rintro ⟨same, agrees, moves⟩
    exact not_shapesCorrect_of_moves onTarget onSource same agrees moves correct
  · rintro ⟨notConfused, notMoved⟩
    have sameOf : target.LooksLike source → target.SameDeclaration source := fun alike =>
      by_contra fun differ => notConfused ⟨alike, differ⟩
    refine ⟨isEq.trans ⟨sameOf, fun same => same.looksLike⟩, mergeAdtDocsInto_unchanged target source,
      fun ran => ?_⟩
    have runs := mergeAdtDocsInto_ok ran
    obtain ⟨sameShape, -, agrees⟩ := exists_mergeAdtDocs.mp ⟨_, runs⟩
    have same := sameOf (shapes.1 sameShape)
    exact ((mergeAdtDocs_merges runs).sameDeclaration_iff same onTarget.distinct
      onSource.distinct).mpr fun moves => notMoved ⟨same, agrees, moves⟩

/-- A declaration with one parameter and one variant of one argument. -/
def wrapDecl (id : TypeVarId) (arg : AdtArgument) : AdtDecl :=
  ⟨"Wrap", [⟨"a", ⟨id, none⟩, none⟩], [⟨"Full", [arg], none⟩], none⟩

theorem readable_wrapDecl {id : TypeVarId} {arg : AdtArgument}
    (every : arg.typ.Every (fun _ => True) (fun const => IsWord const.nameStr)
      (fun labels => ∀ label ∈ labels, IsWord label)) : (wrapDecl id arg).Readable := by
  refine ⟨⟨(by decide : IsWord "Wrap"), ?_, ?_⟩, List.nodup_singleton _⟩
  · intro variant isVariant
    obtain rfl := List.mem_singleton.mp isVariant
    exact (by decide : IsWord "Full")
  · intro variant isVariant other isOther
    obtain rfl := List.mem_singleton.mp isVariant
    obtain rfl := List.mem_singleton.mp isOther
    exact every

/-- One declaration under the variables of two supplies. -/
theorem shapesCorrect_wrapped : (wrapDecl 0 (.positional (.var ⟨0, none⟩))).Readable ∧
    (wrapDecl 5 (.positional (.var ⟨5, none⟩))).Readable ∧
      ShapesCorrect (wrapDecl 0 (.positional (.var ⟨0, none⟩)))
        (wrapDecl 5 (.positional (.var ⟨5, none⟩))) := by
  refine ⟨readable_wrapDecl (.var trivial), readable_wrapDecl (.var trivial), ?_⟩
  refine (shapesCorrect_iff (readable_wrapDecl (.var trivial))
    (readable_wrapDecl (.var trivial))).mpr ⟨?_, ?_⟩
  · rintro ⟨-, differ⟩
    exact differ ⟨rfl, rfl, .of_eq rfl⟩
  · rintro ⟨-, -, variant, isVariant, other, isOther, -, pair, isPair, moves⟩
    obtain rfl := List.mem_singleton.mp isVariant
    obtain rfl := List.mem_singleton.mp isOther
    obtain rfl := List.mem_singleton.mp isPair
    exact moves

/-- A declaration with a positional record of its parameter. -/
def positionalWrap : AdtDecl :=
  wrapDecl 0 (.positional (.record [("value", .var ⟨0, none⟩)]))

/-- The same declaration under another variable, with a record argument. -/
def recordWrap : AdtDecl :=
  wrapDecl 5 (.record [⟨"value", .var ⟨5, none⟩, none⟩])

theorem typ_recordWrap : (AdtArgument.record [⟨"value", .var ⟨5, none⟩, none⟩]).typ =
    .record [("value", .var ⟨5, none⟩)] := by
  simp [AdtArgument.typ, Typ.mkRecord]

theorem readable_wrapRecord (id : TypeVarId) :
    (Typ.record [("value", .var ⟨id, none⟩)]).Every (fun _ => True)
      (fun const => IsWord const.nameStr) (fun labels => ∀ label ∈ labels, IsWord label) := by
  refine .record ?_ ?_
  · intro label isLabel
    obtain rfl := List.mem_singleton.mp isLabel
    exact (by decide : IsWord "value")
  · intro field isField
    obtain rfl := List.mem_singleton.mp isField
    exact .var trivial

theorem readable_positionalWrap : positionalWrap.Readable :=
  readable_wrapDecl (readable_wrapRecord 0)

theorem readable_recordWrap : recordWrap.Readable :=
  readable_wrapDecl (typ_recordWrap ▸ readable_wrapRecord 5)

theorem sameDeclaration_wraps : positionalWrap.SameDeclaration recordWrap := by
  refine ⟨rfl, rfl, ?_⟩
  simp only [positionalWrap, recordWrap, AdtDecl.variantShapes, wrapDecl, AdtVariant.shape,
    List.map_cons, List.map_nil, typ_recordWrap]
  exact .of_eq rfl

theorem agreesWith_wraps : positionalWrap.AgreesWith recordWrap := by
  refine ⟨?_, ?_, ?_⟩
  · exact fun _ isCurrent => by simp [positionalWrap, wrapDecl] at isCurrent
  · intro pair isPair
    obtain rfl := List.mem_singleton.mp isPair
    exact ⟨rfl, fun _ isCurrent => by simp at isCurrent⟩
  · intro variant isVariant
    obtain rfl := List.mem_singleton.mp isVariant
    refine ⟨_, rfl, fun _ isCurrent => by simp at isCurrent, fun pair isPair => ?_⟩
    obtain rfl := List.mem_singleton.mp isPair
    exact fun _ isCurrent => by simp at isCurrent

theorem moves_wraps : positionalWrap.Moves recordWrap := by
  refine ⟨_, List.mem_singleton_self _, _, List.mem_singleton_self _, rfl, _,
    List.mem_singleton_self _, 5, ?_, by decide⟩
  rw [typ_recordWrap]
  decide

/-- A phantom parameter is ignored, a parameter is confused with a constructor, and a
merged record keeps the variable of another declaration. -/
theorem not_shapesCorrect :
    ¬ShapesCorrect ⟨"A", [], [], none⟩ ⟨"A", [⟨"a", ⟨0, none⟩, none⟩], [], none⟩ ∧
      ¬ShapesCorrect (wrapDecl 0 (.positional (.var ⟨0, none⟩)))
        (wrapDecl 0 (.positional (.con (.user "t0" 0)))) ∧
      ¬ShapesCorrect positionalWrap recordWrap := by
  refine ⟨?_, ?_, ?_⟩
  · intro correct
    have same := correct.eq_iff.mp (by simp [adtShapeEq, adtShape])
    exact absurd same.params (by decide)
  · intro correct
    have same := correct.eq_iff.mp (by
      simp [adtShapeEq, adtShape, wrapDecl, variantShape, shapeNames, normalizeTypeForShape,
        AdtArgument.typ, TypeConst.nameStr]
      decide)
    have variants := same.variants
    simp [AdtDecl.variantShapes, wrapDecl, AdtVariant.shape, AdtArgument.typ, Typ.shapeTree,
      varLeaf, paramPosition] at variants
  · exact not_shapesCorrect_of_moves readable_positionalWrap readable_recordWrap
      sameDeclaration_wraps agreesWith_wraps moves_wraps

end RexLang
