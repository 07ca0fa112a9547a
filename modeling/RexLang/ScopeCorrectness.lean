import RexLang.ImportValidation

/-!
# Scope correctness of qualifying, rewriting and validating

The specification documents lexical shadowing: a lambda parameter, a `let`
binder or a pattern binder hides a name of the module or of an import inside its
scope.  The three passes agree with it as long as no inner binder makes them
forget an outer one that is used later.
-/

namespace RexLang

section Validation

variable (aliases : SymbolMap ModuleExports) (shadowed : Option (Finset Symbol))
  (bound : Finset Symbol) (expr : Expr)

/-- A use of a name that no binder around it binds, and that is unresolved. -/
def UnresolvedUnbound (error : ImportUseError) : Prop :=
  ∃ site ∈ sites true bound ∅ expr,
    site.use.name ∉ site.scope ∧ unresolved aliases shadowed site.use = some error

/-- Validation succeeds when there is no unresolved unbound use, and reports the
error of one otherwise. -/
def ValidationExact : Prop :=
  match validateImportUsesExpr aliases shadowed expr bound with
  | .ok _ => ∀ error, ¬ UnresolvedUnbound aliases shadowed bound expr error
  | .error error => UnresolvedUnbound aliases shadowed bound expr error

/-- The first unresolved use that the walk meets outside the names it has for
bound. -/
def firstUnresolved : Option Site :=
  (sites true bound ∅ expr).find? fun site =>
    (unresolved aliases shadowed site.use).isSome ∧
      (site.use.name ∉ site.scope ∨ site.Forgotten)

/-- If that use is of a forgotten local name, then an unbound use has the same
error. -/
def UnboundFirst : Prop :=
  ∀ site ∈ firstUnresolved aliases shadowed bound expr, site.Forgotten →
    ∀ error ∈ unresolved aliases shadowed site.use,
      UnresolvedUnbound aliases shadowed bound expr error

theorem siteError_of_unbound {site : Site} (unbound : site.use.name ∉ site.scope) :
    siteError aliases shadowed site = unresolved aliases shadowed site.use := by
  have notKept : site.use.name ∉ site.scope \ site.lost := by
    simp [unbound]
  rw [siteError, if_neg notKept]

/-- The walk takes a name for unbound when it is unbound or forgotten. -/
theorem siteError_isSome (site : Site) :
    (siteError aliases shadowed site).isSome =
      decide ((unresolved aliases shadowed site.use).isSome ∧
        (site.use.name ∉ site.scope ∨ site.Forgotten)) := by
  have kept : site.use.name ∈ site.scope \ site.lost ↔
      ¬ (site.use.name ∉ site.scope ∨ site.Forgotten) := by
    rw [Finset.mem_sdiff, Site.Forgotten]
    tauto
  by_cases isKept : site.use.name ∈ site.scope \ site.lost
  · rw [siteError, if_pos isKept]
    simp [kept.mp isKept]
  · rw [siteError, if_neg isKept]
    simp [not_not.mp (mt kept.mpr isKept)]

theorem firstUnresolved_eq :
    firstUnresolved aliases shadowed bound expr =
      (sites true bound ∅ expr).find? fun site => (siteError aliases shadowed site).isSome := by
  simp only [firstUnresolved, siteError_isSome]

theorem validate_eq_outcome :
    validateImportUsesExpr aliases shadowed expr bound =
      outcome ((sites true bound ∅ expr).findSome? (siteError aliases shadowed))
        (bound \ rebound expr) := by
  simpa using validateImportUsesExpr_eq aliases shadowed expr bound ∅

theorem validationExact_iff :
    ValidationExact aliases shadowed bound expr ↔ UnboundFirst aliases shadowed bound expr := by
  rw [ValidationExact, validate_eq_outcome, UnboundFirst, firstUnresolved_eq]
  cases first : (sites true bound ∅ expr).findSome? (siteError aliases shadowed) with
  | none =>
      have noError := List.findSome?_eq_none_iff.mp first
      have noSite : (sites true bound ∅ expr).find?
          (fun site => (siteError aliases shadowed site).isSome) = none := by
        rw [List.find?_eq_none]
        intro site member
        simp [noError site member]
      simp only [outcome, noSite, Option.not_mem_none, false_implies, implies_true, iff_true]
      rintro error ⟨site, member, unbound, isError⟩
      rw [← siteError_of_unbound aliases shadowed unbound, noError site member] at isError
      cases isError
  | some error =>
      obtain ⟨before, site, after, split, isError, noneBefore⟩ :=
        List.findSome?_eq_some_iff.mp first
      have found : (sites true bound ∅ expr).find?
          (fun site => (siteError aliases shadowed site).isSome) = some site := by
        rw [List.find?_eq_some_iff_append]
        refine ⟨by simp [isError], before, after, split, ?_⟩
        intro earlier member
        simp [noneBefore earlier member]
      have useError : unresolved aliases shadowed site.use = some error := by
        unfold siteError at isError
        split at isError
        · cases isError
        · exact isError
      simp only [outcome, found, Option.mem_some_iff, forall_eq', useError]
      constructor
      · intro reported _
        exact reported
      · intro forgottenCase
        by_cases forgotten : site.Forgotten
        · exact forgottenCase forgotten
        · have notKept : site.use.name ∉ site.scope \ site.lost := by
            intro kept
            rw [siteError, if_pos kept] at isError
            cases isError
          have unbound : site.use.name ∉ site.scope := by
            intro inScope
            exact notKept ((mem_sdiff_iff_of_not_forgotten forgotten).mpr inScope)
          exact ⟨site, by simp [split], unbound, useError⟩

end Validation

/-! ## The three passes -/

section Passes

variable (valueRenames typeRenames classRenames : SymbolMap Symbol) (scope : RewriteScope)
  (aliases : SymbolMap ModuleExports) (shadowed : Option (Finset Symbol))
  (bound : Finset Symbol) (expr : Expr)

/-- The passes treat every use by the names of its lexical scope. -/
structure ScopeCorrect : Prop where
  qualify : (renameExpr valueRenames typeRenames classRenames expr bound).1 =
    (renameRules valueRenames typeRenames classRenames).rewriteScoped bound expr
  rewrite : (rewriteImportUsesExpr scope expr bound).1 =
    (importRules scope).rewriteScoped bound expr
  validate : ValidationExact aliases shadowed bound expr

/-- No local name that is forgotten is used where a pass has a meaning for it. -/
structure ScopeRemembered : Prop where
  qualify : ∀ site ∈ sites false bound ∅ expr, site.Faithful (Renamed valueRenames)
  rewrite : ∀ site ∈ sites false bound ∅ expr, site.Faithful (Imported scope)
  validate : UnboundFirst aliases shadowed bound expr

theorem scopeCorrect_iff :
    ScopeCorrect valueRenames typeRenames classRenames scope aliases shadowed bound expr ↔
      ScopeRemembered valueRenames scope aliases shadowed bound expr := by
  have qualifyIff := RewriteRules.rewrite_eq_iff
    (renameRules_lawful valueRenames typeRenames classRenames) expr bound ∅
  have rewriteIff := RewriteRules.rewrite_eq_iff (importRules_lawful scope) expr bound ∅
  have validateIff := validationExact_iff aliases shadowed bound expr
  rw [Finset.sdiff_empty] at qualifyIff rewriteIff
  constructor
  · intro correct
    exact ⟨qualifyIff.mp correct.qualify, rewriteIff.mp correct.rewrite,
      validateIff.mp correct.validate⟩
  · intro remembered
    exact ⟨qualifyIff.mpr remembered.qualify, rewriteIff.mpr remembered.rewrite,
      validateIff.mpr remembered.validate⟩

end Passes

/-! ## A shadowed parameter -/

/-- `\x -> (\x -> x) x.y`. -/
def shadowedParameter : Expr :=
  let x : Var := ⟨.default, "x"⟩
  .lam .default [] x none []
    (.app .default (.lam .default [] x none [] (.var x)) (.project .default (.var x) "y"))

/-- The last `x` is the outer parameter, but all three passes take it for the
name of the module or of the import. -/
theorem not_scopeCorrect_shadowedParameter :
    let renamed : SymbolMap Symbol := [("x", "m.x")]
    let imported : RewriteScope :=
      ⟨[], [("x", ⟨0, .value, "x", "m.x"⟩)], [], [], none, none⟩
    let aliases : SymbolMap ModuleExports := [("x", ⟨[]⟩)]
    (renameExpr renamed [] [] shadowedParameter ∅).1 ≠
        (renameRules renamed [] []).rewriteScoped ∅ shadowedParameter ∧
      (rewriteImportUsesExpr imported shadowedParameter ∅).1 ≠
        (importRules imported).rewriteScoped ∅ shadowedParameter ∧
      ¬ ValidationExact aliases none ∅ shadowedParameter := by
  refine ⟨?_, ?_, ?_⟩
  · simp [renameExpr, RewriteRules.rewrite, RewriteRules.rewriteScoped, RewriteRules.project,
      renameRules, shadowedParameter, constructorSymbol]
  · simp [rewriteImportUsesExpr, RewriteRules.rewrite, RewriteRules.rewriteScoped,
      RewriteRules.project, importRules, shadowedParameter, aliasIsVisible, isShadowed]
  · have reported : validateImportUsesExpr [("x", ⟨[]⟩)] none shadowedParameter ∅ =
        .error ⟨.default, "x", "y"⟩ := rfl
    rw [ValidationExact, reported]
    simp [UnresolvedUnbound, shadowedParameter, sites, sitesOf, projectUse, annotationUses,
      Use.name]

end RexLang
