import RexLang.ShapeReading

/-!
# Merged documentation

Two declarations are merged where their documentation agrees.  The merged declaration is
the target with more documentation, up to the record arguments that the source has for
positional ones.
-/

namespace RexLang

/-! ## Agreement -/

/-- Where both are documented, they are documented alike. -/
def DocsAgree (target source : Option String) : Prop :=
  ∀ current ∈ target, ∀ incoming ∈ source, current = incoming

/-- The field is among the fields of the source, with agreeing documentation. -/
def AdtField.AgreesWith (sources : List AdtField) (target : AdtField) : Prop :=
  ∃ source, sources.find? (·.name = target.name) = some source ∧
    DocsAgree target.docs source.docs

def AdtArgument.AgreesWith : AdtArgument → AdtArgument → Prop
  | .record fields docs, .record sources sourceDocs =>
      DocsAgree docs sourceDocs ∧ ∀ field ∈ fields, field.AgreesWith sources
  | .record _ docs, .positional _ sourceDocs => DocsAgree docs sourceDocs
  | .positional _ docs, .record _ sourceDocs => DocsAgree docs sourceDocs
  | .positional _ docs, .positional _ sourceDocs => DocsAgree docs sourceDocs

/-- The first variant of that name in the source has agreeing documentation. -/
def AdtVariant.AgreesWith (sources : List AdtVariant) (target : AdtVariant) : Prop :=
  ∃ source, sources.find? (·.name = target.name) = some source ∧
    DocsAgree target.docs source.docs ∧
      ∀ pair ∈ target.args.zip source.args, pair.1.AgreesWith pair.2

/-- The names of the parameters and all documentation agree. -/
structure AdtDecl.AgreesWith (target source : AdtDecl) : Prop where
  docs : DocsAgree target.docs source.docs
  params : ∀ pair ∈ target.params.zip source.params,
    pair.1.name = pair.2.name ∧ DocsAgree pair.1.docs pair.2.docs
  variants : ∀ variant ∈ target.variants, variant.AgreesWith source.variants

/-! ## Merged types -/

/-- The type of a merged argument. -/
def AdtArgument.mergedTyp : AdtArgument → AdtArgument → Typ
  | .positional _ _, .record fields docs => (AdtArgument.record fields docs).typ
  | target, _ => target.typ

/-- The types of merged arguments. -/
def mergedTypes : List AdtArgument → List AdtArgument → List Typ
  | target :: targets, source :: sources => target.mergedTyp source :: mergedTypes targets sources
  | targets, _ => targets.map AdtArgument.typ

/-! ## Parts -/

theorem exists_mergeDocs {target source : Option String} {subject : String} :
    (∃ merged, mergeDocs target source subject = .ok merged) ↔ DocsAgree target source := by
  cases target with
  | none =>
      cases source with
      | none => exact ⟨fun _ _ isCurrent => by simp at isCurrent, fun _ => ⟨none, rfl⟩⟩
      | some incoming => exact ⟨fun _ _ isCurrent => by simp at isCurrent, fun _ => ⟨_, rfl⟩⟩
  | some current =>
      cases source with
      | none => exact ⟨fun _ _ _ _ isIncoming => by simp at isIncoming, fun _ => ⟨_, rfl⟩⟩
      | some incoming =>
          by_cases same : current = incoming
          · simp [mergeDocs, DocsAgree, same]
          · simp [mergeDocs, DocsAgree, same]

theorem exists_bind_return {First Second : Type} {first : Except TypeError First}
    {change : First → Second} :
    (∃ result, (do return change (← first)) = Except.ok result) ↔
      ∃ result, first = .ok result := by
  cases first with
  | error error => exact ⟨nofun, nofun⟩
  | ok result => exact ⟨fun _ => ⟨result, rfl⟩, fun _ => ⟨change result, rfl⟩⟩

theorem exists_bind_bind {First Second Third : Type} {first : Except TypeError First}
    {second : Except TypeError Second} {change : First → Second → Third} :
    (∃ result, (do let left ← first; return change left (← second)) = Except.ok result) ↔
      (∃ result, first = .ok result) ∧ ∃ result, second = .ok result := by
  cases first with
  | error error => exact ⟨nofun, nofun⟩
  | ok left =>
      refine Iff.trans (@exists_bind_return _ _ second (change left)) ?_
      exact ⟨fun succeeds => ⟨⟨left, rfl⟩, succeeds⟩, And.right⟩

theorem exists_mergeFieldDocs {adt variant : Symbol} {sources : List AdtField}
    {target : AdtField} :
    (∃ merged, mergeFieldDocs adt variant sources target = .ok merged) ↔
      target.AgreesWith sources := by
  rw [AdtField.AgreesWith]
  cases found : sources.find? (·.name = target.name) with
  | none => simp [mergeFieldDocs, found]
  | some source =>
      simp only [mergeFieldDocs, found]
      refine exists_bind_return.trans (exists_mergeDocs.trans ?_)
      simp

theorem exists_mergeArgumentDocs {adt variant subject : String} {target source : AdtArgument} :
    (∃ merged, mergeArgumentDocs adt variant subject target source = .ok merged) ↔
      target.AgreesWith source := by
  cases target with
  | positional typ docs =>
      cases source with
      | positional other sourceDocs => exact exists_bind_return.trans exists_mergeDocs
      | record fields sourceDocs => exact exists_bind_return.trans exists_mergeDocs
  | record fields docs =>
      cases source with
      | positional typ sourceDocs => exact exists_bind_return.trans exists_mergeDocs
      | record sources sourceDocs =>
          refine exists_bind_bind.trans (and_congr exists_mergeDocs (exists_mapM_iff.trans ?_))
          exact forall₂_congr fun field _ => exists_mergeFieldDocs

theorem exists_mergeArgumentsDocs {adt variant : Symbol} {index : Nat}
    {targets sources : List AdtArgument} :
    (∃ merged, mergeArgumentsDocs adt variant index targets sources = .ok merged) ↔
      ∀ pair ∈ targets.zip sources, pair.1.AgreesWith pair.2 := by
  induction targets generalizing sources index with
  | nil => simp [mergeArgumentsDocs]
  | cons target targets hypothesis =>
      cases sources with
      | nil => simp [mergeArgumentsDocs]
      | cons source sources =>
          rw [mergeArgumentsDocs, List.zip_cons_cons, List.forall_mem_cons]
          exact exists_bind_bind.trans (and_congr exists_mergeArgumentDocs hypothesis)

theorem exists_mergeVariantDocs {adt : Symbol} {sources : List AdtVariant}
    {target : AdtVariant} :
    (∃ merged, mergeVariantDocs adt sources target = .ok merged) ↔ target.AgreesWith sources := by
  rw [AdtVariant.AgreesWith]
  cases found : sources.find? (·.name = target.name) with
  | none => simp [mergeVariantDocs, found]
  | some source =>
      simp only [mergeVariantDocs, found]
      refine exists_bind_bind.trans ((and_congr exists_mergeDocs exists_mergeArgumentsDocs).trans ?_)
      simp

theorem exists_mergeParamDocs {adt : Symbol} {index : Nat} {targets sources : List AdtParam} :
    (∃ merged, mergeParamDocs adt index targets sources = .ok merged) ↔
      ∀ pair ∈ targets.zip sources, pair.1.name = pair.2.name ∧
        DocsAgree pair.1.docs pair.2.docs := by
  induction targets generalizing sources index with
  | nil => simp [mergeParamDocs]
  | cons target targets hypothesis =>
      cases sources with
      | nil => simp [mergeParamDocs]
      | cons source sources =>
          rw [mergeParamDocs, List.zip_cons_cons, List.forall_mem_cons]
          by_cases same : target.name = source.name
          · rw [if_neg (not_not_intro same)]
            refine exists_bind_bind.trans ((and_congr exists_mergeDocs hypothesis).trans ?_)
            simp [same]
          · rw [if_pos same]
            simp [same]

/-! ## Declarations -/

/-- Merging succeeds for declarations of one shape and parameter count whose documentation
agrees. -/
theorem exists_mergeAdtDocs {target source : AdtDecl} :
    (∃ merged, mergeAdtDocs target source = .ok merged) ↔
      adtShape target = adtShape source ∧ target.params.length = source.params.length ∧
        target.AgreesWith source := by
  rw [mergeAdtDocs]
  split_ifs with differ counts
  · exact ⟨nofun, fun ⟨same, _⟩ => absurd same differ⟩
  · exact ⟨nofun, fun ⟨_, same, _⟩ => absurd same counts⟩
  · rw [not_not] at differ counts
    constructor
    · rintro ⟨merged, runs⟩
      obtain ⟨docs, isDocs, runs⟩ := bind_eq_ok.mp runs
      obtain ⟨params, isParams, runs⟩ := bind_eq_ok.mp runs
      obtain ⟨variants, isVariants, -⟩ := bind_eq_ok.mp runs
      refine ⟨differ, counts, exists_mergeDocs.1 ⟨docs, isDocs⟩,
        exists_mergeParamDocs.1 ⟨params, isParams⟩, fun variant isVariant => ?_⟩
      exact exists_mergeVariantDocs.1 (exists_mapM_iff.mp ⟨variants, isVariants⟩ variant isVariant)
    · rintro ⟨-, -, agrees⟩
      obtain ⟨docs, isDocs⟩ := exists_mergeDocs.2 agrees.docs
      obtain ⟨params, isParams⟩ := exists_mergeParamDocs.2 agrees.params
      obtain ⟨variants, isVariants⟩ := exists_mapM_iff.mpr fun variant isVariant =>
        exists_mergeVariantDocs.2 (agrees.variants variant isVariant)
      exact ⟨_, bind_eq_ok.mpr ⟨docs, isDocs, bind_eq_ok.mpr ⟨params, isParams,
        bind_eq_ok.mpr ⟨variants, isVariants, rfl⟩⟩⟩⟩

/-! ## What is merged -/

theorem mergeFieldDocs_keeps {adt variant : Symbol} {sources : List AdtField}
    {target merged : AdtField} (runs : mergeFieldDocs adt variant sources target = .ok merged) :
    merged.name = target.name ∧ merged.typ = target.typ := by
  rw [mergeFieldDocs] at runs
  split at runs
  · cases runs
  · obtain ⟨docs, -, runs⟩ := bind_eq_ok.mp runs
    cases runs
    exact ⟨rfl, rfl⟩

theorem mergeFields_keep {adt variant : Symbol} {sources targets merged : List AdtField}
    (runs : targets.mapM (mergeFieldDocs adt variant sources) = .ok merged) :
    (merged.map fun field => (field.name, field.typ)) =
      targets.map fun field => (field.name, field.typ) := by
  have kept := (forall₂_of_mapM runs).imp fun target merged => mergeFieldDocs_keeps
  clear runs
  induction kept with
  | nil => rfl
  | cons keeps _ hypothesis => rw [List.map_cons, List.map_cons, hypothesis, keeps.1, keeps.2]

theorem mergeArgumentDocs_typ {adt variant subject : String} {target source merged : AdtArgument}
    (runs : mergeArgumentDocs adt variant subject target source = .ok merged) :
    merged.typ = target.mergedTyp source := by
  cases target with
  | positional typ docs =>
      cases source with
      | positional other sourceDocs =>
          obtain ⟨merged, -, runs⟩ := bind_eq_ok.mp runs
          cases runs
          rfl
      | record fields sourceDocs =>
          obtain ⟨merged, -, runs⟩ := bind_eq_ok.mp runs
          cases runs
          rfl
  | record fields docs =>
      cases source with
      | positional typ sourceDocs =>
          obtain ⟨merged, -, runs⟩ := bind_eq_ok.mp runs
          cases runs
          rfl
      | record sources sourceDocs =>
          obtain ⟨merged, -, runs⟩ := bind_eq_ok.mp runs
          obtain ⟨mergedFields, isFields, runs⟩ := bind_eq_ok.mp runs
          cases runs
          change Typ.mkRecord (mergedFields.map fun field => (field.name, field.typ)) =
            Typ.mkRecord (fields.map fun field => (field.name, field.typ))
          rw [mergeFields_keep isFields]

theorem mergeArgumentsDocs_types {adt variant : Symbol} {index : Nat}
    {targets sources merged : List AdtArgument}
    (runs : mergeArgumentsDocs adt variant index targets sources = .ok merged) :
    merged.map AdtArgument.typ = mergedTypes targets sources := by
  induction targets generalizing sources index merged with
  | nil =>
      cases runs
      rfl
  | cons target targets hypothesis =>
      cases sources with
      | nil =>
          cases runs
          rfl
      | cons source sources =>
          obtain ⟨first, isFirst, runs⟩ := bind_eq_ok.mp runs
          obtain ⟨rest, isRest, runs⟩ := bind_eq_ok.mp runs
          cases runs
          rw [List.map_cons, mergedTypes, mergeArgumentDocs_typ isFirst, hypothesis isRest]

/-- The variant that a merged variant comes from. -/
structure MergedFrom (sources : List AdtVariant) (target merged : AdtVariant) : Prop where
  name : merged.name = target.name
  types : ∃ source ∈ sources, source.name = target.name ∧
    merged.args.map AdtArgument.typ = mergedTypes target.args source.args

theorem mergeVariantDocs_mergedFrom {adt : Symbol} {sources : List AdtVariant}
    {target merged : AdtVariant} (runs : mergeVariantDocs adt sources target = .ok merged) :
    MergedFrom sources target merged := by
  rw [mergeVariantDocs] at runs
  split at runs
  · cases runs
  · next source found =>
      obtain ⟨docs, -, runs⟩ := bind_eq_ok.mp runs
      obtain ⟨args, isArgs, runs⟩ := bind_eq_ok.mp runs
      cases runs
      have sameName : source.name = target.name := by simpa using List.find?_some found
      exact ⟨rfl, source, List.mem_of_find?_eq_some found, sameName, mergeArgumentsDocs_types isArgs⟩

theorem mergeParamDocs_vars {adt : Symbol} {index : Nat} {targets sources merged : List AdtParam}
    (runs : mergeParamDocs adt index targets sources = .ok merged) :
    merged.map (fun param => (param.name, param.var)) =
      targets.map fun param => (param.name, param.var) := by
  induction targets generalizing sources index merged with
  | nil =>
      cases runs
      rfl
  | cons target targets hypothesis =>
      cases sources with
      | nil =>
          cases runs
          rfl
      | cons source sources =>
          rw [mergeParamDocs] at runs
          split_ifs at runs
          obtain ⟨docs, -, runs⟩ := bind_eq_ok.mp runs
          obtain ⟨rest, isRest, runs⟩ := bind_eq_ok.mp runs
          cases runs
          rw [List.map_cons, List.map_cons, hypothesis isRest]

/-- What a merged declaration keeps of the target. -/
structure Merges (target source merged : AdtDecl) : Prop where
  name : merged.name = target.name
  params : merged.params.map (fun param => (param.name, param.var)) =
    target.params.map fun param => (param.name, param.var)
  variants : List.Forall₂ (MergedFrom source.variants) target.variants merged.variants

theorem mergeAdtDocs_merges {target source merged : AdtDecl}
    (runs : mergeAdtDocs target source = .ok merged) : Merges target source merged := by
  rw [mergeAdtDocs] at runs
  split_ifs at runs
  obtain ⟨docs, -, runs⟩ := bind_eq_ok.mp runs
  obtain ⟨params, isParams, runs⟩ := bind_eq_ok.mp runs
  obtain ⟨variants, isVariants, runs⟩ := bind_eq_ok.mp runs
  cases runs
  exact ⟨rfl, mergeParamDocs_vars isParams,
    (forall₂_of_mapM isVariants).imp fun _ _ => mergeVariantDocs_mergedFrom⟩

end RexLang
