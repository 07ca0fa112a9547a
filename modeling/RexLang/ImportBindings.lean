import RexLang.ImportRewriting
import RexLang.SymbolMaps
import RexLang.FallibleResults
import RexLang.Types

/-!
# Bindings of imports

How the import declarations of a module and the default imports contribute to the
tables that its names are resolved with.
-/

namespace RexLang

/-! ## Declarations -/

structure ImportItem where
  name : Symbol
  aliasName : Option Symbol
deriving DecidableEq

inductive ImportClause where
  | all
  | items (items : List ImportItem)
deriving DecidableEq

structure ImportDecl where
  path : List Symbol
  aliasName : Symbol
  clause : Option ImportClause
deriving DecidableEq

inductive ModuleError where
  | missingExport (moduleName exportName : Symbol)
  | duplicateImportedName (name : Symbol)
  | importNameConflictsWithLocal (moduleName name : Symbol)
deriving DecidableEq

namespace ModuleExports

/-- `value`, `typ` and `class`. -/
def get (exported : ModuleExports) : SymbolKind → Symbol → Option CanonicalSymbol
  | .value => exported.value
  | .typ => exported.typ
  | .className => exported.className

/-- `values`, `types` and `classes`. -/
def all (exported : ModuleExports) (kind : SymbolKind) : List (Symbol × CanonicalSymbol) :=
  exported.entries.filterMap fun (name, entry) =>
    (match kind with
      | .value => entry.value
      | .typ => entry.typ
      | .className => entry.className).map fun symbol => (name, symbol)

end ModuleExports

structure ImportBindings where
  aliasExports : SymbolMap ModuleExports
  importedValues : SymbolMap CanonicalSymbol
  importedTypes : SymbolMap CanonicalSymbol
  importedClasses : SymbolMap CanonicalSymbol
deriving DecidableEq

namespace ImportBindings

/-- `ImportBindings::default`. -/
def empty : ImportBindings :=
  ⟨[], [], [], []⟩

def table (bindings : ImportBindings) : SymbolKind → SymbolMap CanonicalSymbol
  | .value => bindings.importedValues
  | .typ => bindings.importedTypes
  | .className => bindings.importedClasses

def setTable (bindings : ImportBindings) (kind : SymbolKind) (table : SymbolMap CanonicalSymbol) :
    ImportBindings :=
  match kind with
  | .value => { bindings with importedValues := table }
  | .typ => { bindings with importedTypes := table }
  | .className => { bindings with importedClasses := table }

end ImportBindings

structure ImportBindingPolicy where
  forbiddenValues : Finset Symbol
  forbiddenTypes : Finset Symbol

/-- The local names that an import must not have; types and classes share them. -/
def ImportBindingPolicy.forbidden (policy : ImportBindingPolicy) : SymbolKind → Finset Symbol
  | .value => policy.forbiddenValues
  | .typ | .className => policy.forbiddenTypes

/-! ## Binding -/

section Bind

variable (policy : ImportBindingPolicy) (moduleName : Symbol)

/-- `bind_local_value`, `bind_local_type` and `bind_local_class`. -/
def bindLocal (kind : SymbolKind) (out : ImportBindings) (localName : Symbol)
    (target : CanonicalSymbol) : Except ModuleError ImportBindings :=
  if localName ∈ policy.forbidden kind then
    .error (.importNameConflictsWithLocal moduleName localName)
  else if ((out.table kind).lookup localName).isSome then
    .error (.duplicateImportedName localName)
  else .ok (out.setTable kind ((out.table kind).insert localName target))

def bindLocalValue : ImportBindings → Symbol → CanonicalSymbol →
    Except ModuleError ImportBindings :=
  bindLocal policy moduleName .value

def bindLocalType : ImportBindings → Symbol → CanonicalSymbol →
    Except ModuleError ImportBindings :=
  bindLocal policy moduleName .typ

def bindLocalClass : ImportBindings → Symbol → CanonicalSymbol →
    Except ModuleError ImportBindings :=
  bindLocal policy moduleName .className

end Bind

/-- The binding of an export, if there is one. -/
def bindFound (bind : ImportBindings → Symbol → CanonicalSymbol → Except ModuleError ImportBindings)
    (out : ImportBindings) (localName : Symbol) (found : Option CanonicalSymbol) :
    Except ModuleError ImportBindings :=
  match found with
  | some target => bind out localName target
  | none => .ok out

/-- One item of an import clause. -/
def addImportItem (policy : ImportBindingPolicy) (decl : ImportDecl) (exported : ModuleExports)
    (out : ImportBindings) (item : ImportItem) : Except ModuleError ImportBindings := do
  let localName := item.aliasName.getD item.name
  let out ← bindFound (bindLocalValue policy decl.aliasName) out localName
    (exported.value item.name)
  let out ← bindFound (bindLocalType policy decl.aliasName) out localName (exported.typ item.name)
  let out ← bindFound (bindLocalClass policy decl.aliasName) out localName
    (exported.className item.name)
  if (exported.value item.name).isSome ∨ (exported.typ item.name).isSome ∨
      (exported.className item.name).isSome then return out
  else .error (.missingExport decl.aliasName item.name)

/-- `add_import_bindings`. -/
def addImportBindings (policy : ImportBindingPolicy) (out : ImportBindings) (decl : ImportDecl)
    (exported : ModuleExports) : Except ModuleError ImportBindings :=
  match decl.clause with
  | none => .ok { out with aliasExports := out.aliasExports.insert decl.aliasName exported }
  | some .all => do
      let out ← (exported.all .value).foldlM
        (fun out (name, target) => bindLocalValue policy decl.aliasName out name target) out
      let out ← (exported.all .typ).foldlM
        (fun out (name, target) => bindLocalType policy decl.aliasName out name target) out
      (exported.all .className).foldlM
        (fun out (name, target) => bindLocalClass policy decl.aliasName out name target) out
  | some (.items items) => items.foldlM (addImportItem policy decl exported) out

/-- An import declaration, with the module that its path leads to and what that exports. -/
structure ResolvedImport where
  decl : ImportDecl
  moduleName : Symbol
  exported : ModuleExports

/-- The loop of `rewrite_package_with_imports` over the import declarations. -/
def addImports (policy : ImportBindingPolicy) (imports : List ResolvedImport) :
    Except ModuleError ImportBindings :=
  imports.foldlM (fun out resolved => addImportBindings policy out resolved.decl resolved.exported)
    .empty

/-! ## Default imports -/

/-- A module that is imported by default. -/
structure DefaultModule where
  name : Symbol
  exported : ModuleExports

/-- `contains_import_alias_in_declarations`, for the alias of a default import. -/
def skipsDefault (imports : List ResolvedImport) (default : DefaultModule) : Prop :=
  ∃ resolved ∈ imports, resolved.decl.aliasName = lastSegment default.name

instance (imports : List ResolvedImport) (default : DefaultModule) :
    Decidable (skipsDefault imports default) :=
  inferInstanceAs (Decidable (∃ resolved ∈ imports, _))

/-- What a default import adds to a table. -/
def supplyTable (forbidden : Finset Symbol) (table : SymbolMap CanonicalSymbol)
    (exported : List (Symbol × CanonicalSymbol)) : SymbolMap CanonicalSymbol :=
  exported.foldl (fun table (name, target) =>
    if name ∉ forbidden ∧ (table.lookup name).isNone then table.insert name target else table) table

/-- One default import of `rewrite_package_with_imports`. -/
def supplyDefault (policy : ImportBindingPolicy) (imports : List ResolvedImport)
    (bindings : ImportBindings) (default : DefaultModule) : ImportBindings :=
  if skipsDefault imports default then bindings
  else
    { bindings with
      importedValues := supplyTable policy.forbiddenValues bindings.importedValues
        (default.exported.all .value)
      importedTypes := supplyTable policy.forbiddenTypes bindings.importedTypes
        (default.exported.all .typ)
      importedClasses := supplyTable policy.forbiddenTypes bindings.importedClasses
        (default.exported.all .className) }

/-- The bindings that `rewrite_package_with_imports` resolves names with. -/
def packageBindings (policy : ImportBindingPolicy) (imports : List ResolvedImport)
    (defaults : List DefaultModule) : Except ModuleError ImportBindings := do
  let bindings ← addImports policy imports
  return defaults.foldl (supplyDefault policy imports) bindings

/-! ## What imports introduce -/

/-- One name that an import brings into a module. -/
inductive Introduction where
  | unqualified (kind : SymbolKind) (name : Symbol) (target : CanonicalSymbol)
  | qualifier (aliasName : Symbol) (exported : ModuleExports)

namespace Introduction

/-- The unqualified name, with its namespace. -/
def name : Introduction → Option (SymbolKind × Symbol)
  | .unqualified kind name _ => some (kind, name)
  | .qualifier .. => none

def aliasName : Introduction → Option Symbol
  | .unqualified .. => none
  | .qualifier aliasName _ => some aliasName

/-- The tables with the name, whatever they hold under it. -/
def add (out : ImportBindings) : Introduction → ImportBindings
  | .unqualified kind name target => out.setTable kind ((out.table kind).insert name target)
  | .qualifier aliasName exported =>
      { out with aliasExports := out.aliasExports.insert aliasName exported }

end Introduction

namespace ImportItem

/-- The bindings of an item in the three namespaces. -/
def introductions (exported : ModuleExports) (item : ImportItem) : List Introduction :=
  [.value, .typ, .className].flatMap fun kind =>
    (exported.get kind item.name).toList.map (.unqualified kind (item.aliasName.getD item.name))

/-- The module exports the name in a namespace. -/
def Exported (exported : ModuleExports) (item : ImportItem) : Prop :=
  ∃ kind, (exported.get kind item.name).isSome

end ImportItem

namespace ResolvedImport

/-- What an import declares: a qualifier, every export, or the exports that it lists. -/
def introductions (resolved : ResolvedImport) : List Introduction :=
  match resolved.decl.clause with
  | none => [.qualifier resolved.decl.aliasName resolved.exported]
  | some .all =>
      [.value, .typ, .className].flatMap fun kind =>
        (resolved.exported.all kind).map fun (name, target) => .unqualified kind name target
  | some (.items items) => items.flatMap (·.introductions resolved.exported)

/-- Every item of the clause is an export. -/
def Requested (resolved : ResolvedImport) : Prop :=
  ∀ items, resolved.decl.clause = some (.items items) →
    ∀ item ∈ items, item.Exported resolved.exported

end ResolvedImport

/-! ## Successful runs -/

section Runs

variable (policy : ImportBindingPolicy)

/-- A name that is neither local nor bound already. -/
def Introduction.Free (out : ImportBindings) : Introduction → Prop
  | .unqualified kind name _ => name ∉ policy.forbidden kind ∧ (out.table kind).lookup name = none
  | .qualifier .. => True

/-- The introductions are made one after the other, each of a free name. -/
def Introduces : ImportBindings → List Introduction → ImportBindings → Prop
  | out, [], next => out = next
  | out, introduction :: rest, next =>
      introduction.Free policy out ∧ Introduces (introduction.add out) rest next

variable {policy}

attribute [local simp] Introduces

theorem introduces_append {out next : ImportBindings} {first second : List Introduction} :
    Introduces policy out (first ++ second) next ↔
      ∃ between, Introduces policy out first between ∧ Introduces policy between second next := by
  induction first generalizing out with
  | nil => simp
  | cons introduction first hypothesis =>
      rw [List.cons_append, Introduces, hypothesis]
      simp [and_assoc]

theorem bindLocal_eq_ok {moduleName name : Symbol} {kind : SymbolKind} {out next : ImportBindings}
    {target : CanonicalSymbol} :
    bindLocal policy moduleName kind out name target = .ok next ↔
      Introduces policy out [.unqualified kind name target] next := by
  rw [bindLocal, Introduces, Introduces, Introduction.Free, Introduction.add]
  split_ifs with isLocal isBound
  · simp [isLocal]
  · simp [Option.isSome_iff_ne_none.mp isBound]
  · simp [isLocal, Option.not_isSome_iff_eq_none.mp isBound]

theorem bindFound_eq_ok {moduleName name : Symbol} {kind : SymbolKind} {out next : ImportBindings}
    {found : Option CanonicalSymbol} :
    bindFound (bindLocal policy moduleName kind) out name found = .ok next ↔
      Introduces policy out (found.toList.map (.unqualified kind name)) next := by
  cases found with
  | none => simp [bindFound]
  | some target => exact bindLocal_eq_ok

/-- A loop whose steps make the introductions of the elements makes them all. -/
theorem foldlM_introduces {Item : Type}
    {step : ImportBindings → Item → Except ModuleError ImportBindings} {introductions : Item → List Introduction} {allowed : Item → Prop}
    (each : ∀ out item next, step out item = .ok next ↔
      allowed item ∧ Introduces policy out (introductions item) next)
    {items : List Item} {out next : ImportBindings} :
    items.foldlM step out = .ok next ↔
      (∀ item ∈ items, allowed item) ∧
        Introduces policy out (items.flatMap introductions) next := by
  induction items generalizing out with
  | nil =>
      rw [List.foldlM_nil]
      constructor
      · rintro ⟨⟩
        exact ⟨by simp, rfl⟩
      · rintro ⟨-, same⟩
        exact congrArg Except.ok same
  | cons item items hypothesis =>
      rw [List.foldlM_cons, bind_eq_ok, List.flatMap_cons, introduces_append, List.forall_mem_cons]
      simp only [each, hypothesis]
      constructor
      · rintro ⟨between, ⟨isAllowed, first⟩, areAllowed, rest⟩
        exact ⟨⟨isAllowed, areAllowed⟩, between, first, rest⟩
      · rintro ⟨⟨isAllowed, areAllowed⟩, between, first, rest⟩
        exact ⟨between, ⟨isAllowed, first⟩, areAllowed, rest⟩

theorem addImportItem_eq_ok {decl : ImportDecl} {exported : ModuleExports} (out : ImportBindings)
    (item : ImportItem) (next : ImportBindings) :
    addImportItem policy decl exported out item = .ok next ↔
      item.Exported exported ∧ Introduces policy out (item.introductions exported) next := by
  have isExported : item.Exported exported ↔ (exported.value item.name).isSome ∨
      (exported.typ item.name).isSome ∨ (exported.className item.name).isSome := by
    constructor
    · rintro ⟨kind, found⟩
      cases kind with
      | value => exact .inl found
      | typ => exact .inr (.inl found)
      | className => exact .inr (.inr found)
    · rintro (found | found | found)
      · exact ⟨.value, found⟩
      · exact ⟨.typ, found⟩
      · exact ⟨.className, found⟩
  unfold addImportItem bindLocalValue bindLocalType bindLocalClass
  simp only [bind_eq_ok, bindFound_eq_ok, ImportItem.introductions, List.flatMap_cons,
    List.flatMap_nil, List.append_nil, introduces_append, isExported, ModuleExports.get]
  split_ifs with found
  · constructor
    · rintro ⟨first, onValue, second, onType, third, onClass, ⟨⟩⟩
      exact ⟨found, first, onValue, second, onType, onClass⟩
    · rintro ⟨-, first, onValue, second, onType, onClass⟩
      exact ⟨first, onValue, second, onType, next, onClass, rfl⟩
  · constructor
    · rintro ⟨first, onValue, second, onType, third, onClass, ⟨⟩⟩
    · exact fun ⟨isFound, _⟩ => absurd isFound found

theorem addImportBindings_eq_ok (out : ImportBindings) (resolved : ResolvedImport)
    (next : ImportBindings) :
    addImportBindings policy out resolved.decl resolved.exported = .ok next ↔
      resolved.Requested ∧ Introduces policy out resolved.introductions next := by
  have entries (kind : SymbolKind) (out next : ImportBindings) :
      (resolved.exported.all kind).foldlM (fun out (name, target) =>
          bindLocal policy resolved.decl.aliasName kind out name target) out = .ok next ↔
        Introduces policy out ((resolved.exported.all kind).map fun (name, target) =>
          .unqualified kind name target) next := by
    have each (out : ImportBindings) (entry : Symbol × CanonicalSymbol) (next : ImportBindings) :
        bindLocal policy resolved.decl.aliasName kind out entry.1 entry.2 = .ok next ↔
          True ∧ Introduces policy out [.unqualified kind entry.1 entry.2] next :=
      bindLocal_eq_ok.trans (iff_of_eq (true_and _)).symm
    rw [List.map_eq_flatMap]
    refine (foldlM_introduces each).trans ?_
    simp
  rw [addImportBindings, ResolvedImport.introductions, ResolvedImport.Requested]
  cases isClause : resolved.decl.clause with
  | none => simp [Introduction.Free, Introduction.add]
  | some clause =>
      cases clause with
      | all =>
          unfold bindLocalValue bindLocalType bindLocalClass
          simp only [bind_eq_ok, entries, List.flatMap_cons, List.flatMap_nil, List.append_nil,
            introduces_append]
          simp
      | items items =>
          refine (foldlM_introduces addImportItem_eq_ok).trans ?_
          simp

theorem addImports_eq_ok {imports : List ResolvedImport} {next : ImportBindings} :
    addImports policy imports = .ok next ↔
      (∀ resolved ∈ imports, resolved.Requested) ∧
        Introduces policy .empty (imports.flatMap (·.introductions)) next :=
  foldlM_introduces addImportBindings_eq_ok

/-! ### The tables of a run -/

theorem ImportBindings.table_setTable (bindings : ImportBindings) (kind other : SymbolKind)
    (table : SymbolMap CanonicalSymbol) :
    (bindings.setTable kind table).table other =
      if other = kind then table else bindings.table other := by
  cases kind <;> cases other <;> rfl

theorem ImportBindings.aliasExports_setTable (bindings : ImportBindings) (kind : SymbolKind)
    (table : SymbolMap CanonicalSymbol) :
    (bindings.setTable kind table).aliasExports = bindings.aliasExports := by
  cases kind <;> rfl

theorem ImportBindings.eq_of_table {first second : ImportBindings}
    (sameAliases : first.aliasExports = second.aliasExports)
    (sameTables : ∀ kind, first.table kind = second.table kind) : first = second := by
  obtain ⟨aliases, values, types, classes⟩ := first
  have onValues : values = second.importedValues := sameTables .value
  have onTypes : types = second.importedTypes := sameTables .typ
  have onClasses : classes = second.importedClasses := sameTables .className
  subst onValues onTypes onClasses
  exact congrArg (ImportBindings.mk · _ _ _) sameAliases

namespace Introduction

/-- What the introduction binds a name to. -/
def target (kind : SymbolKind) (name : Symbol) : Introduction → Option CanonicalSymbol
  | .unqualified other bound target => if other = kind ∧ bound = name then some target else none
  | .qualifier .. => none

def exports (aliasName : Symbol) : Introduction → Option ModuleExports
  | .unqualified .. => none
  | .qualifier other exported => if other = aliasName then some exported else none

theorem target_eq_some {introduction : Introduction} {kind : SymbolKind} {name : Symbol}
    {target : CanonicalSymbol} :
    introduction.target kind name = some target ↔ introduction = .unqualified kind name target := by
  cases introduction with
  | qualifier => simp [Introduction.target]
  | unqualified => simp [Introduction.target, and_assoc]

theorem exports_eq_some {introduction : Introduction} {aliasName : Symbol}
    {exported : ModuleExports} :
    introduction.exports aliasName = some exported ↔
      introduction = .qualifier aliasName exported := by
  cases introduction with
  | unqualified => simp [exports]
  | qualifier => simp [exports]

theorem lookup_table_add (out : ImportBindings) (introduction : Introduction) (kind : SymbolKind)
    (name : Symbol) :
    ((introduction.add out).table kind).lookup name =
      (introduction.target kind name).or ((out.table kind).lookup name) := by
  cases introduction with
  | qualifier => cases kind <;> rfl
  | unqualified other bound target =>
      rw [add, ImportBindings.table_setTable, Introduction.target]
      by_cases same : kind = other
      · subst same
        rw [if_pos rfl, lookup_insert]
        by_cases sameName : name = bound
        · simp [sameName]
        · simp [sameName, Ne.symm sameName]
      · simp [same, Ne.symm same]

theorem lookup_aliasExports_add (out : ImportBindings) (introduction : Introduction)
    (aliasName : Symbol) :
    (introduction.add out).aliasExports.lookup aliasName =
      (introduction.exports aliasName).or (out.aliasExports.lookup aliasName) := by
  cases introduction with
  | unqualified => rw [add, ImportBindings.aliasExports_setTable]; rfl
  | qualifier other exported =>
      refine (lookup_insert ..).trans ?_
      rw [exports]
      by_cases same : aliasName = other
      · simp [same]
      · simp [same, Ne.symm same]

theorem free_add {out : ImportBindings} {first other : Introduction} :
    other.Free policy (first.add out) ↔
      other.Free policy out ∧ ∀ entry, first.name = some entry → other.name ≠ some entry := by
  cases other with
  | qualifier => simp [Free, name]
  | unqualified kind bound target =>
      rw [Free, Free, lookup_table_add]
      cases first with
      | qualifier => simp [name, Introduction.target]
      | unqualified otherKind otherName otherTarget =>
          simp only [name, Option.some.injEq, forall_eq', ne_eq, Prod.mk.injEq, Introduction.target]
          by_cases same : otherKind = kind ∧ otherName = bound
          · simp [same]
          · have different : ¬ (kind = otherKind ∧ bound = otherName) := fun ⟨onKind, onName⟩ =>
              same ⟨onKind.symm, onName.symm⟩
            simp [same, different]

end Introduction

/-- A run is a sequence of insertions of names that are free and differ. -/
theorem introduces_iff {out next : ImportBindings} {introductions : List Introduction} :
    Introduces policy out introductions next ↔
      (∀ introduction ∈ introductions, introduction.Free policy out) ∧
        (introductions.filterMap (·.name)).Nodup ∧
          next = introductions.foldl Introduction.add out := by
  induction introductions generalizing out with
  | nil => simp [Introduces, eq_comm]
  | cons introduction rest hypothesis =>
      rw [Introduces, hypothesis, List.forall_mem_cons, List.foldl_cons]
      have isNew : ((introduction :: rest).filterMap (·.name)).Nodup ↔
          (∀ other ∈ rest, ∀ entry, introduction.name = some entry → other.name ≠ some entry) ∧
            (rest.filterMap (·.name)).Nodup := by
        cases bound : introduction.name with
        | none => simp [List.filterMap_cons_none bound]
        | some entry =>
            rw [List.filterMap_cons_some bound, List.nodup_cons, List.mem_filterMap]
            simp
      simp only [Introduction.free_add, isNew, forall_and]
      tauto

/-- What a series of insertions finds under a key, when their keys differ. -/
theorem lookup_foldl {Key Value : Type} (find : ImportBindings → Option Value)
    {found : Introduction → Option Value} {key : Introduction → Option Key} {wanted : Key}
    (each : ∀ out introduction, find (introduction.add out) = (found introduction).or (find out))
    (keyed : ∀ introduction value, found introduction = some value → key introduction = some wanted)
    {introductions : List Introduction} (distinct : (introductions.filterMap key).Nodup)
    (out : ImportBindings) (value : Value) :
    find (introductions.foldl Introduction.add out) = some value ↔
      (∃ introduction ∈ introductions, found introduction = some value) ∨
        (∀ introduction ∈ introductions, found introduction = none) ∧ find out = some value := by
  induction introductions generalizing out with
  | nil => simp
  | cons introduction rest hypothesis =>
      have distinctRest : (rest.filterMap key).Nodup :=
        distinct.sublist ((List.sublist_cons_self ..).filterMap key)
      rw [List.foldl_cons, hypothesis distinctRest, each]
      cases isFound : found introduction with
      | none => simp [isFound]
      | some target =>
          rw [List.filterMap_cons_some (keyed _ _ isFound), List.nodup_cons] at distinct
          have others : ∀ other ∈ rest, found other = none := by
            intro other member
            by_contra isSome
            obtain ⟨found, onOther⟩ := Option.ne_none_iff_exists'.mp isSome
            exact distinct.1 (List.mem_filterMap.mpr ⟨other, member, keyed _ _ onOther⟩)
          simp only [List.mem_cons, exists_eq_or_imp, forall_eq_or_imp, isFound, Option.some.injEq,
            Option.some_or, reduceCtorEq, false_and, or_false]
          constructor
          · rintro (⟨other, member, onOther⟩ | ⟨-, same⟩)
            · simp [others other member] at onOther
            · exact .inl same
          · rintro (same | ⟨other, member, onOther⟩)
            · exact .inr ⟨others, same⟩
            · simp [others other member] at onOther

theorem lookup_table_foldl {introductions : List Introduction}
    (distinct : (introductions.filterMap (·.name)).Nodup) {kind : SymbolKind} {name : Symbol}
    {target : CanonicalSymbol} :
    ((introductions.foldl Introduction.add .empty).table kind).lookup name = some target ↔
      .unqualified kind name target ∈ introductions := by
  have keyed (introduction : Introduction) (target : CanonicalSymbol)
      (found : introduction.target kind name = some target) :
      introduction.name = some (kind, name) := by
    rw [Introduction.target_eq_some.1 found, Introduction.name]
  have isEmpty : (ImportBindings.empty.table kind).lookup name = none := by cases kind <;> rfl
  rw [lookup_foldl (fun out => (out.table kind).lookup name)
    (fun out introduction => introduction.lookup_table_add out kind name) keyed distinct]
  simp [Introduction.target_eq_some, isEmpty]

theorem lookup_aliasExports_foldl {introductions : List Introduction}
    (distinct : (introductions.filterMap (·.aliasName)).Nodup) {aliasName : Symbol}
    {exported : ModuleExports} :
    (introductions.foldl Introduction.add .empty).aliasExports.lookup aliasName = some exported ↔
      .qualifier aliasName exported ∈ introductions := by
  have keyed (introduction : Introduction) (exported : ModuleExports)
      (found : introduction.exports aliasName = some exported) :
      introduction.aliasName = some aliasName := by
    rw [Introduction.exports_eq_some.1 found, Introduction.aliasName]
  rw [lookup_foldl (fun out => out.aliasExports.lookup aliasName)
    (fun out introduction => introduction.lookup_aliasExports_add out aliasName) keyed distinct]
  simp [Introduction.exports_eq_some, ImportBindings.empty]

/-- Tables whose names are in order. -/
def ImportBindings.Ordered (bindings : ImportBindings) : Prop :=
  RexLang.Ordered bindings.aliasExports ∧ ∀ kind, RexLang.Ordered (bindings.table kind)

theorem ordered_foldl (introductions : List Introduction) :
    (introductions.foldl Introduction.add .empty).Ordered := by
  suffices kept : ∀ out : ImportBindings, out.Ordered →
      (introductions.foldl Introduction.add out).Ordered from
    kept .empty ⟨.nil, fun kind => by cases kind <;> exact .nil⟩
  induction introductions with
  | nil => exact fun _ ordered => ordered
  | cons introduction rest hypothesis =>
      refine fun out ordered => hypothesis _ ?_
      cases introduction with
      | qualifier =>
          refine ⟨ordered_insert ordered.1 .., fun kind => ?_⟩
          cases kind with
          | value => exact ordered.2 .value
          | typ => exact ordered.2 .typ
          | className => exact ordered.2 .className
      | unqualified kind name target =>
          refine ⟨?_, fun other => ?_⟩
          · rw [Introduction.add, ImportBindings.aliasExports_setTable]
            exact ordered.1
          · rw [Introduction.add, ImportBindings.table_setTable]
            split_ifs
            · exact ordered_insert (ordered.2 kind) ..
            · exact ordered.2 other

/-- The order of introductions does not matter when their names differ. -/
theorem foldl_eq_of_perm {first second : List Introduction} (isPerm : first.Perm second)
    (distinctNames : (first.filterMap (·.name)).Nodup)
    (distinctAliases : (first.filterMap (·.aliasName)).Nodup) :
    first.foldl Introduction.add .empty = second.foldl Introduction.add .empty := by
  have distinctNames' := (isPerm.filterMap (·.name)).nodup_iff.mp distinctNames
  have distinctAliases' := (isPerm.filterMap (·.aliasName)).nodup_iff.mp distinctAliases
  refine ImportBindings.eq_of_table ?_ fun kind => ?_
  · refine eq_of_lookup_eq (ordered_foldl first).1 (ordered_foldl second).1 fun aliasName => ?_
    refine Option.ext fun exported => ?_
    rw [lookup_aliasExports_foldl distinctAliases, lookup_aliasExports_foldl distinctAliases',
      isPerm.mem_iff]
  · refine eq_of_lookup_eq ((ordered_foldl first).2 kind) ((ordered_foldl second).2 kind)
      fun name => ?_
    refine Option.ext fun target => ?_
    rw [lookup_table_foldl distinctNames, lookup_table_foldl distinctNames', isPerm.mem_iff]

end Runs

end RexLang
