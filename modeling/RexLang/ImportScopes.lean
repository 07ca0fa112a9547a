import RexLang.ImportBindings

/-!
# Scopes of imports

When the names that imports and default imports bind mean what the imports say.
-/

namespace RexLang

/-! ## Default imports -/

section Defaults

variable {policy : ImportBindingPolicy} {imports : List ResolvedImport}

theorem lookup_supplyTable (forbidden : Finset Symbol) (table : SymbolMap CanonicalSymbol)
    (exported : List (Symbol × CanonicalSymbol)) (name : Symbol) :
    (supplyTable forbidden table exported).lookup name =
      (table.lookup name).or (if name ∈ forbidden then none else exported.lookup name) := by
  induction exported generalizing table with
  | nil => simp [supplyTable]
  | cons entry exported hypothesis =>
      obtain ⟨bound, target⟩ := entry
      refine (hypothesis _).trans ?_
      rw [lookup_cons_eq_ite]
      by_cases isForbidden : name ∈ forbidden
      · simp only [isForbidden, if_true, Option.or_none]
        split_ifs with isNew
        · rw [lookup_insert, if_neg fun same : name = bound => isNew.1 (same ▸ isForbidden)]
        · rfl
      · simp only [isForbidden, if_false]
        by_cases same : name = bound
        · subst same
          rw [if_pos rfl]
          cases isBound : table.lookup name with
          | none => simp [isForbidden, lookup_insert]
          | some old => simp [isBound]
        · rw [if_neg same]
          split_ifs with isNew
          · rw [lookup_insert, if_neg same]
          · rfl

/-- The exports of the default imports that are not skipped. -/
def suppliedExports (imports : List ResolvedImport) (defaults : List DefaultModule)
    (kind : SymbolKind) : List (Symbol × CanonicalSymbol) :=
  (defaults.filter fun default => ¬ skipsDefault imports default).flatMap
    fun default => default.exported.all kind

theorem lookup_supplyDefault (bindings : ImportBindings) (default : DefaultModule)
    (kind : SymbolKind) (name : Symbol) :
    ((supplyDefault policy imports bindings default).table kind).lookup name =
      ((bindings.table kind).lookup name).or
        (if name ∈ policy.forbidden kind then none
          else (suppliedExports imports [default] kind).lookup name) := by
  rw [supplyDefault, suppliedExports]
  split_ifs with skipped isForbidden isForbidden
  · simp
  · simp [skipped]
  all_goals
    cases kind <;>
      simp_all [ImportBindings.table, ImportBindingPolicy.forbidden, lookup_supplyTable]

/-- The first default import that exports a name supplies it. -/
theorem lookup_supply (defaults : List DefaultModule) (bindings : ImportBindings)
    (kind : SymbolKind) (name : Symbol) :
    ((defaults.foldl (supplyDefault policy imports) bindings).table kind).lookup name =
      ((bindings.table kind).lookup name).or
        (if name ∈ policy.forbidden kind then none
          else (suppliedExports imports defaults kind).lookup name) := by
  induction defaults generalizing bindings with
  | nil => simp [suppliedExports]
  | cons default defaults hypothesis =>
      have parts : suppliedExports imports (default :: defaults) kind =
          suppliedExports imports [default] kind ++ suppliedExports imports defaults kind := by
        rw [suppliedExports, suppliedExports, suppliedExports, ← List.flatMap_append,
          ← List.filter_append, List.singleton_append]
      rw [List.foldl_cons, hypothesis, lookup_supplyDefault, parts, List.lookup_append,
        Option.or_assoc]
      split_ifs <;> simp

end Defaults

/-! ## Imports that mean what they say -/

/-- The names that a list of imports introduces. -/
def introducedNames (imports : List ResolvedImport) : List (SymbolKind × Symbol) :=
  (imports.flatMap (·.introductions)).filterMap (·.name)

def introducedAliases (imports : List ResolvedImport) : List Symbol :=
  (imports.flatMap (·.introductions)).filterMap (·.aliasName)

/-- An item of a clause is not an export of its module. -/
def MissesExport (imports : List ResolvedImport) : Prop :=
  ∃ resolved ∈ imports, ¬ resolved.Requested

/-- An import introduces a name that is local. -/
def ConflictsWithLocal (policy : ImportBindingPolicy) (imports : List ResolvedImport) : Prop :=
  ∃ kind name, (kind, name) ∈ introducedNames imports ∧ name ∈ policy.forbidden kind

/-- Two imports introduce one name in one namespace. -/
def NamesCollide (imports : List ResolvedImport) : Prop :=
  ¬ (introducedNames imports).Nodup

/-- Two imports introduce one alias of a module. -/
def AliasesCollide (imports : List ResolvedImport) : Prop :=
  ¬ (introducedAliases imports).Nodup

/-- A default import exports the name. -/
def DefaultModule.Exports (default : DefaultModule) (kind : SymbolKind) (name : Symbol) : Prop :=
  name ∈ (default.exported.all kind).map Prod.fst

/-- The module imports a default module itself. -/
def ImportsItself (imports : List ResolvedImport) (default : DefaultModule) : Prop :=
  ∃ resolved ∈ imports, resolved.moduleName = default.name

/-- A name is left to the default imports: it is neither local nor imported. -/
def LeftToDefaults (policy : ImportBindingPolicy) (imports : List ResolvedImport)
    (kind : SymbolKind) (name : Symbol) : Prop :=
  name ∉ policy.forbidden kind ∧ (kind, name) ∉ introducedNames imports

/-- What the bindings of a module should be. -/
structure ImportsCorrect (policy : ImportBindingPolicy) (imports : List ResolvedImport)
    (defaults : List DefaultModule) : Prop where
  /-- Every order fails or gives the same tables. -/
  orderIndependent : ∀ other, other.Perm imports → ∀ bindings,
    addImports policy other = .ok bindings ↔ addImports policy imports = .ok bindings
  fails_iff : (∃ error, addImports policy imports = .error error) ↔
    MissesExport imports ∨ ConflictsWithLocal policy imports ∨ NamesCollide imports ∨
      AliasesCollide imports
  lookup_alias : ∀ bindings, addImports policy imports = .ok bindings → ∀ aliasName exported,
    bindings.aliasExports.lookup aliasName = some exported ↔
      ∃ resolved ∈ imports, .qualifier aliasName exported ∈ resolved.introductions
  lookup_name : ∀ bindings, addImports policy imports = .ok bindings → ∀ kind name target,
    (bindings.table kind).lookup name = some target ↔
      ∃ resolved ∈ imports, .unqualified kind name target ∈ resolved.introductions
  /-- The default imports leave what the imports bind. -/
  keeps : ∀ bindings final, addImports policy imports = .ok bindings →
    packageBindings policy imports defaults = .ok final →
    final.aliasExports = bindings.aliasExports ∧ ∀ kind name target,
      (bindings.table kind).lookup name = some target → (final.table kind).lookup name = some target
  /-- The default imports supply what is left to them, each from one that exports it. -/
  supplies : ∀ final, packageBindings policy imports defaults = .ok final →
    ∀ default ∈ defaults, ¬ ImportsItself imports default → ∀ kind name,
      default.Exports kind name → LeftToDefaults policy imports kind name →
      ∃ other ∈ defaults, ∃ target, (name, target) ∈ other.exported.all kind ∧
        (final.table kind).lookup name = some target

/-- Every name of a default import that is skipped for its alias is bound otherwise. -/
def SkipsHarmlessly (policy : ImportBindingPolicy) (imports : List ResolvedImport)
    (defaults : List DefaultModule) : Prop :=
  ∀ default ∈ defaults, skipsDefault imports default → ¬ ImportsItself imports default →
    ∀ kind name, default.Exports kind name → LeftToDefaults policy imports kind name →
      ∃ other ∈ defaults, ¬ skipsDefault imports other ∧ other.Exports kind name

section Correct

variable {policy : ImportBindingPolicy} {imports : List ResolvedImport}
  {defaults : List DefaultModule}

theorem free_iff_not_conflicts :
    (∀ introduction ∈ imports.flatMap (·.introductions), introduction.Free policy .empty) ↔
      ¬ ConflictsWithLocal policy imports := by
  rw [ConflictsWithLocal, introducedNames]
  constructor
  · rintro free ⟨kind, name, introduced, isForbidden⟩
    obtain ⟨introduction, member, named⟩ := List.mem_filterMap.mp introduced
    cases introduction with
    | qualifier => cases named
    | unqualified =>
        cases named
        exact (free _ member).1 isForbidden
  · intro noConflict introduction member
    cases introduction with
    | qualifier => trivial
    | unqualified kind name target =>
        refine ⟨fun isForbidden => ?_, by cases kind <;> rfl⟩
        have introduced : (kind, name) ∈ introducedNames imports :=
          List.mem_filterMap.mpr ⟨_, member, rfl⟩
        exact noConflict ⟨kind, name, introduced, isForbidden⟩

/-- Imports bind exactly when nothing is missing, local or introduced twice. -/
theorem addImports_eq_ok_iff {bindings : ImportBindings} :
    addImports policy imports = .ok bindings ↔
      (¬ MissesExport imports ∧ ¬ ConflictsWithLocal policy imports ∧ ¬ NamesCollide imports) ∧
        bindings = (imports.flatMap (·.introductions)).foldl Introduction.add .empty := by
  have requested : (∀ resolved ∈ imports, resolved.Requested) ↔ ¬ MissesExport imports := by
    simp only [MissesExport, not_exists, not_and, not_not]
  rw [addImports_eq_ok, introduces_iff, free_iff_not_conflicts, requested, NamesCollide, not_not,
    introducedNames]
  simp only [and_assoc]

theorem addImports_fails_iff :
    (∃ error, addImports policy imports = .error error) ↔
      MissesExport imports ∨ ConflictsWithLocal policy imports ∨ NamesCollide imports := by
  cases added : addImports policy imports with
  | ok bindings =>
      obtain ⟨⟨hasExports, noConflict, distinct⟩, -⟩ := addImports_eq_ok_iff.1 added
      simp [hasExports, noConflict, distinct]
  | error error =>
      refine iff_of_true ⟨error, rfl⟩ ?_
      by_contra clear
      have succeeded := addImports_eq_ok_iff.2 ⟨by simpa only [not_or] using clear, rfl⟩
      rw [added] at succeeded
      cases succeeded

theorem packageBindings_eq_ok_iff {final : ImportBindings} :
    packageBindings policy imports defaults = .ok final ↔
      ∃ bindings, addImports policy imports = .ok bindings ∧
        final = defaults.foldl (supplyDefault policy imports) bindings := by
  rw [packageBindings, bind_eq_ok]
  constructor
  · rintro ⟨bindings, added, ⟨⟩⟩
    exact ⟨bindings, added, rfl⟩
  · rintro ⟨bindings, added, rfl⟩
    exact ⟨bindings, added, rfl⟩

theorem aliasExports_supply (bindings : ImportBindings) :
    (defaults.foldl (supplyDefault policy imports) bindings).aliasExports =
      bindings.aliasExports := by
  induction defaults generalizing bindings with
  | nil => rfl
  | cons default defaults hypothesis =>
      rw [List.foldl_cons, hypothesis, supplyDefault]
      split_ifs <;> rfl

/-- A name is bound by the imports, or left to a default import that exports it. -/
theorem lookup_packageBindings {final : ImportBindings}
    (bound : packageBindings policy imports defaults = .ok final) {kind : SymbolKind}
    {name : Symbol} (isLeft : LeftToDefaults policy imports kind name) :
    (final.table kind).lookup name = (suppliedExports imports defaults kind).lookup name := by
  obtain ⟨bindings, added, rfl⟩ := packageBindings_eq_ok_iff.1 bound
  obtain ⟨⟨-, -, distinct⟩, rfl⟩ := addImports_eq_ok_iff.1 added
  have isUnbound : (((imports.flatMap (·.introductions)).foldl Introduction.add .empty).table
      kind).lookup name = none := by
    rw [Option.eq_none_iff_forall_ne_some]
    intro target found
    have introduced := (lookup_table_foldl (not_not.mp distinct)).mp found
    exact isLeft.2 (List.mem_filterMap.mpr ⟨_, introduced, rfl⟩)
  rw [lookup_supply, isUnbound, if_neg isLeft.1, Option.none_or]

theorem mem_suppliedExports {kind : SymbolKind} {entry : Symbol × CanonicalSymbol} :
    entry ∈ suppliedExports imports defaults kind ↔
      ∃ default ∈ defaults, ¬ skipsDefault imports default ∧ entry ∈ default.exported.all kind := by
  simp [suppliedExports, and_assoc]

theorem supplies_of_skipsHarmlessly (harmless : SkipsHarmlessly policy imports defaults)
    {final : ImportBindings} (bound : packageBindings policy imports defaults = .ok final)
    {default : DefaultModule} (member : default ∈ defaults)
    (notImported : ¬ ImportsItself imports default) {kind : SymbolKind} {name : Symbol}
    (exports : default.Exports kind name) (isLeft : LeftToDefaults policy imports kind name) :
    ∃ other ∈ defaults, ∃ target, (name, target) ∈ other.exported.all kind ∧
      (final.table kind).lookup name = some target := by
  have isSupplied : name ∈ (suppliedExports imports defaults kind).map Prod.fst := by
    by_cases skipped : skipsDefault imports default
    · obtain ⟨other, otherMember, supplied, otherExports⟩ :=
        harmless default member skipped notImported kind name exports isLeft
      obtain ⟨entry, isExport, rfl⟩ := List.mem_map.mp otherExports
      exact List.mem_map_of_mem (mem_suppliedExports.2 ⟨other, otherMember, supplied, isExport⟩)
    · obtain ⟨entry, isExport, rfl⟩ := List.mem_map.mp exports
      exact List.mem_map_of_mem (mem_suppliedExports.2 ⟨default, member, skipped, isExport⟩)
  obtain ⟨target, found⟩ := Option.isSome_iff_exists.mp (isSome_lookup_iff.mpr isSupplied)
  obtain ⟨other, otherMember, -, isExport⟩ := mem_suppliedExports.1 (mem_of_lookup found)
  exact ⟨other, otherMember, target, isExport, (lookup_packageBindings bound isLeft).trans found⟩

theorem not_missing_of_perm {other : List ResolvedImport} (isPerm : other.Perm imports) :
    MissesExport other ↔ MissesExport imports := by
  simp only [MissesExport, isPerm.mem_iff]

theorem introducedNames_perm {other : List ResolvedImport} (isPerm : other.Perm imports) :
    (introducedNames other).Perm (introducedNames imports) :=
  (isPerm.flatMap_right _).filterMap _

theorem addImports_perm (distinctAliases : ¬ AliasesCollide imports) {other : List ResolvedImport}
    (isPerm : other.Perm imports) (bindings : ImportBindings) :
    addImports policy other = .ok bindings ↔ addImports policy imports = .ok bindings := by
  rw [addImports_eq_ok_iff, addImports_eq_ok_iff, not_missing_of_perm isPerm, ConflictsWithLocal,
    ConflictsWithLocal, NamesCollide, NamesCollide, (introducedNames_perm isPerm).nodup_iff]
  simp only [(introducedNames_perm isPerm).mem_iff]
  refine and_congr_right fun ⟨_, _, distinct⟩ => ?_
  have isPermIntroduced :
      (imports.flatMap (·.introductions)).Perm (other.flatMap (·.introductions)) :=
    isPerm.symm.flatMap_right _
  rw [foldl_eq_of_perm isPermIntroduced (not_not.mp distinct) (not_not.mp distinctAliases)]

theorem importsCorrect_of_clear (distinctAliases : ¬ AliasesCollide imports)
    (harmless : SkipsHarmlessly policy imports defaults) :
    ImportsCorrect policy imports defaults where
  orderIndependent other isPerm := addImports_perm distinctAliases isPerm
  fails_iff := by
    rw [addImports_fails_iff]
    simp [distinctAliases]
  lookup_alias bindings added aliasName exported := by
    obtain ⟨-, rfl⟩ := addImports_eq_ok_iff.1 added
    rw [lookup_aliasExports_foldl (not_not.mp distinctAliases), List.mem_flatMap]
  lookup_name bindings added kind name target := by
    obtain ⟨⟨-, -, distinct⟩, rfl⟩ := addImports_eq_ok_iff.1 added
    rw [lookup_table_foldl (not_not.mp distinct), List.mem_flatMap]
  keeps bindings final added bound := by
    obtain ⟨_, again, rfl⟩ := packageBindings_eq_ok_iff.1 bound
    obtain rfl := Except.ok.inj (again.symm.trans added)
    refine ⟨aliasExports_supply _, fun kind name target found => ?_⟩
    rw [lookup_supply, found, Option.some_or]
  supplies final bound default member notImported kind name exports isLeft :=
    supplies_of_skipsHarmlessly harmless bound member notImported exports isLeft

theorem importsCorrect_of_failure (failed : ∃ error, addImports policy imports = .error error) :
    ImportsCorrect policy imports defaults := by
  have isFailure := addImports_fails_iff.1 failed
  have noBindings (bindings : ImportBindings) : addImports policy imports ≠ .ok bindings := by
    obtain ⟨error, failed⟩ := failed
    rw [failed]
    rintro ⟨⟩
  have noFinal (final : ImportBindings) : packageBindings policy imports defaults ≠ .ok final := by
    intro bound
    obtain ⟨bindings, added, -⟩ := packageBindings_eq_ok_iff.1 bound
    exact noBindings bindings added
  refine ⟨fun other isPerm bindings => ?_, ?_, fun bindings added => absurd added (noBindings _),
    fun bindings added => absurd added (noBindings _),
    fun bindings final added => absurd added (noBindings _),
    fun final bound => absurd bound (noFinal _)⟩
  · refine iff_of_false ?_ (noBindings bindings)
    intro added
    have clear := (addImports_eq_ok_iff.mp added).1
    rw [not_missing_of_perm isPerm, ConflictsWithLocal, NamesCollide,
      (introducedNames_perm isPerm).nodup_iff] at clear
    simp only [(introducedNames_perm isPerm).mem_iff] at clear
    obtain missing | conflict | collision := isFailure
    · exact clear.1 missing
    · exact clear.2.1 conflict
    · exact clear.2.2 collision
  · exact iff_of_true failed (isFailure.imp_right (Or.imp_right .inl))

end Correct

/-- Imports mean what they say exactly when they fail, or when no alias is introduced twice and
no default import is missed that was skipped for the alias of another module. -/
theorem importsCorrect_iff (policy : ImportBindingPolicy) (imports : List ResolvedImport)
    (defaults : List DefaultModule) :
    ImportsCorrect policy imports defaults ↔
      (MissesExport imports ∨ ConflictsWithLocal policy imports ∨ NamesCollide imports) ∨
        ¬ AliasesCollide imports ∧ SkipsHarmlessly policy imports defaults := by
  constructor
  · intro correct
    by_cases failed : ∃ error, addImports policy imports = .error error
    · exact .inl (addImports_fails_iff.mp failed)
    have distinctAliases : ¬ AliasesCollide imports := fun collision =>
      failed (correct.fails_iff.mpr (.inr (.inr (.inr collision))))
    refine .inr ⟨distinctAliases, ?_⟩
    intro default member skipped notImported kind name exports isLeft
    have clear : ¬ (MissesExport imports ∨ ConflictsWithLocal policy imports ∨
        NamesCollide imports) := fun failure => failed (addImports_fails_iff.mpr failure)
    simp only [not_or] at clear
    have added := addImports_eq_ok_iff.mpr ⟨clear, rfl⟩
    have bound : packageBindings policy imports defaults = .ok _ :=
      packageBindings_eq_ok_iff.2 ⟨_, added, rfl⟩
    obtain ⟨-, -, target, -, found⟩ :=
      correct.supplies _ bound default member notImported kind name exports isLeft
    rw [lookup_packageBindings bound isLeft] at found
    obtain ⟨other, otherMember, supplied, isExport⟩ := mem_suppliedExports.1 (mem_of_lookup found)
    exact ⟨other, otherMember, supplied, List.mem_map_of_mem isExport⟩
  · rintro (failure | ⟨distinctAliases, harmless⟩)
    · exact importsCorrect_of_failure (addImports_fails_iff.mpr failure)
    · exact importsCorrect_of_clear distinctAliases harmless

/-- Of `import a.util` and `import b.util` the second overwrites the alias of the first, and
`import vendored.prelude` hides the default import `std.prelude`. -/
theorem not_importsCorrect_shadowed :
    ¬ ImportsCorrect ⟨∅, ∅⟩
      [⟨⟨["a", "util"], "util", none⟩, "a.util",
          ⟨[("x", ⟨some ⟨1, .value, "x", "@a.x"⟩, none, none⟩)]⟩⟩,
        ⟨⟨["b", "util"], "util", none⟩, "b.util", ⟨[]⟩⟩] [] ∧
      ¬ ImportsCorrect ⟨∅, ∅⟩
        [⟨⟨["vendored", "prelude"], "prelude", none⟩, "vendored.prelude", ⟨[]⟩⟩]
        [⟨"std.prelude", ⟨[("map", ⟨some ⟨2, .value, "map", "@std.map"⟩, none, none⟩)]⟩⟩] := by
  constructor
  · intro correct
    obtain ⟨error, failed⟩ := correct.fails_iff.mpr
      (.inr (.inr (.inr (by rw [AliasesCollide]; decide))))
    cases failed
  · intro correct
    have bound : packageBindings ⟨∅, ∅⟩
        [⟨⟨["vendored", "prelude"], "prelude", none⟩, "vendored.prelude", ⟨[]⟩⟩]
        [⟨"std.prelude", ⟨[("map", ⟨some ⟨2, .value, "map", "@std.map"⟩, none, none⟩)]⟩⟩] =
          .ok ⟨[("prelude", ⟨[]⟩)], [], [], []⟩ := by decide +kernel
    obtain ⟨-, -, target, -, found⟩ := correct.supplies _ bound _ List.mem_cons_self
      (by rw [ImportsItself]; decide) .value "map" (by rw [DefaultModule.Exports]; decide)
      ⟨by decide, by decide⟩
    cases found

end RexLang
