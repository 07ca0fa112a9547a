import RexLang.ClassDeclarations
import RexLang.DependencySearch
import RexLang.WireTypes

/-!
# Type bundles

A bundle holds registered values with the declarations of the algebraic data types that
their types mention.  The declarations are found breadth first in the type system and put
in the order of their dependencies, before encoding and again after decoding.
-/

namespace RexLang

/-! ## Constructors of types -/

/-- A declared constructor with its arity. -/
abbrev UserCon :=
  Symbol × Nat

namespace Typ

mutual

/-- The declared constructors that `for_each` meets. -/
def userCons : Typ → List UserCon
  | .var _ => []
  | .con (.builtin _) => []
  | .con (.user name arity) => [(name, arity)]
  | .app head arg => userCons head ++ userCons arg
  | .func arg ret => userCons arg ++ userCons ret
  | .tuple elems => userConsList elems
  | .record fields => userConsFields fields

def userConsList : List Typ → List UserCon
  | [] => []
  | typ :: types => userCons typ ++ userConsList types

def userConsFields : List (Symbol × Typ) → List UserCon
  | [] => []
  | (_, typ) :: fields => userCons typ ++ userConsFields fields

end

end Typ

/-- The step of `collect_adts_in_types` for the constructors found so far. -/
def pushNew (out : List UserCon) (con : UserCon) : List UserCon :=
  if con ∈ out then out else out ++ [con]

/-- The step of `collect_adts_in_types` for the definitions by name. -/
def addDefinition (defsByName : SymbolMap (List UserCon)) (con : UserCon) :
    SymbolMap (List UserCon) :=
  defsByName.insert con.1 (pushNew ((defsByName.lookup con.1).getD []) con)

/-- `collect_adts_in_types`; the error has the conflicting definitions by name. -/
def collectAdtsInTypes (types : List Typ) : Except (SymbolMap (List UserCon)) (List UserCon) :=
  let cons := types.flatMap Typ.userCons
  let conflicts := (cons.foldl addDefinition []).filter fun entry => 1 < entry.2.length
  if conflicts ≠ [] then .error conflicts else .ok (cons.foldl pushNew [])

/-- The text of `collect_adts_error_to_type`. -/
def collectAdtsErrorText (conflicts : SymbolMap (List UserCon)) : String :=
  "conflicting ADT definitions discovered in input types: " ++
    "; ".intercalate (conflicts.map fun conflict =>
      conflict.1 ++ ": [" ++ ", ".intercalate (conflict.2.map Prod.fst) ++ "]")

/-! ## Shapes of declarations -/

section Shape

variable (paramNames : List (TypeVarId × String))

mutual

/-- `normalize_type_for_shape`. -/
def normalizeTypeForShape : Typ → String
  | .var typeVar => (paramNames.lookup typeVar.id).getD ("v" ++ toString typeVar.id)
  | .con con => con.nameStr
  | .app head arg =>
      "(" ++ normalizeTypeForShape head ++ " " ++ normalizeTypeForShape arg ++ ")"
  | .func arg ret =>
      "(" ++ normalizeTypeForShape arg ++ " -> " ++ normalizeTypeForShape ret ++ ")"
  | .tuple elems => "(" ++ ", ".intercalate (normalizeElemsForShape elems) ++ ")"
  | .record fields => "\x7b" ++ ", ".intercalate (normalizeFieldsForShape fields) ++ "\x7d"

def normalizeElemsForShape : List Typ → List String
  | [] => []
  | typ :: types => normalizeTypeForShape typ :: normalizeElemsForShape types

def normalizeFieldsForShape : List (Symbol × Typ) → List String
  | [] => []
  | (name, typ) :: fields =>
      (name ++ ": " ++ normalizeTypeForShape typ) :: normalizeFieldsForShape fields

end

end Shape

/-- The names of the parameters in `adt_shape`; of two with one variable the later one
gives the name. -/
def shapeNames (params : List AdtParam) : List (TypeVarId × String) :=
  (params.zipIdx.map fun entry => (entry.1.var.id, "t" ++ toString entry.2)).reverse

/-- The text of a variant in `adt_shape`. -/
def variantShape (paramNames : List (TypeVarId × String)) (variant : AdtVariant) : String :=
  variant.name ++ "(" ++
    ", ".intercalate (variant.args.map fun arg => normalizeTypeForShape paramNames arg.typ) ++ ")"

/-- `adt_shape`. -/
def adtShape (adt : AdtDecl) : String :=
  let variants := adt.variants.map (variantShape (shapeNames adt.params))
  adt.name ++ "[" ++
    " | ".intercalate (variants.mergeSort fun first second => decide (first ≤ second)) ++ "]"

/-! ## Documentation -/

/-- `merge_docs`. -/
def mergeDocs (target source : Option String) (subject : String) :
    Except TypeError (Option String) :=
  match target, source with
  | some current, some incoming =>
      if current ≠ incoming then
        .error (.internal s!"conflicting documentation for {subject}")
      else .ok target
  | none, some incoming => .ok (some incoming)
  | _, none => .ok target

/-- The loop of `merge_adt_docs_in_place` over the parameters. -/
def mergeParamDocs (adt : Symbol) : Nat → List AdtParam → List AdtParam →
    Except TypeError (List AdtParam)
  | index, target :: targets, source :: sources =>
      if target.name ≠ source.name then
        .error (.internal (s!"conflicting name for parameter {index} of ADT `{adt}`: " ++
          s!"`{target.name}` vs `{source.name}`"))
      else do
        let docs ← mergeDocs target.docs source.docs
          s!"parameter `{target.name}` of ADT `{adt}`"
        return { target with docs } :: (← mergeParamDocs adt (index + 1) targets sources)
  | _, targets, _ => .ok targets

/-- The merging of the fields of a record argument. -/
def mergeFieldDocs (adt variant : Symbol) (sources : List AdtField) (target : AdtField) :
    Except TypeError AdtField :=
  match sources.find? (·.name = target.name) with
  | none => .error (.internal (s!"missing field `{target.name}` while merging documentation " ++
      s!"for variant `{variant}` in ADT `{adt}`"))
  | some source => do
      let docs ← mergeDocs target.docs source.docs
        s!"field `{target.name}` of variant `{variant}` in ADT `{adt}`"
      return { target with docs }

/-- The merging of one argument. -/
def mergeArgumentDocs (adt variant subject : String) :
    AdtArgument → AdtArgument → Except TypeError AdtArgument
  | .positional typ docs, .positional _ sourceDocs =>
      return .positional typ (← mergeDocs docs sourceDocs subject)
  | .record fields docs, .record sourceFields sourceDocs => do
      let docs ← mergeDocs docs sourceDocs subject
      return .record (← fields.mapM (mergeFieldDocs adt variant sourceFields)) docs
  | .positional _ docs, .record fields sourceDocs =>
      return .record fields (← mergeDocs docs sourceDocs subject)
  | .record fields docs, .positional _ sourceDocs =>
      return .record fields (← mergeDocs docs sourceDocs subject)

/-- The loop of `merge_adt_docs_in_place` over the arguments of a variant. -/
def mergeArgumentsDocs (adt variant : Symbol) : Nat → List AdtArgument → List AdtArgument →
    Except TypeError (List AdtArgument)
  | index, target :: targets, source :: sources => do
      let subject := s!"argument {index} of variant `{variant}` in ADT `{adt}`"
      let merged ← mergeArgumentDocs adt variant subject target source
      return merged :: (← mergeArgumentsDocs adt variant (index + 1) targets sources)
  | _, targets, _ => .ok targets

/-- The merging of one variant. -/
def mergeVariantDocs (adt : Symbol) (sources : List AdtVariant) (target : AdtVariant) :
    Except TypeError AdtVariant :=
  match sources.find? (·.name = target.name) with
  | none => .error (.internal (s!"missing variant `{target.name}` while merging " ++
      s!"documentation for ADT `{adt}`"))
  | some source => do
      let docs ← mergeDocs target.docs source.docs
        s!"variant `{target.name}` of ADT `{adt}`"
      return ⟨target.name, ← mergeArgumentsDocs adt target.name 0 target.args source.args, docs⟩

/-- `merge_adt_docs`. -/
def mergeAdtDocs (target source : AdtDecl) : Except TypeError AdtDecl :=
  if adtShape target ≠ adtShape source then
    .error (.internal (s!"cannot merge documentation for different ADT shapes: " ++
      s!"{adtShape target} vs {adtShape source}"))
  else if target.params.length ≠ source.params.length then
    .error (.internal (s!"cannot merge documentation for ADT `{target.name}` with different " ++
      "parameter counts"))
  else do
    let docs ← mergeDocs target.docs source.docs s!"ADT `{target.name}`"
    let params ← mergeParamDocs target.name 0 target.params source.params
    let variants ← target.variants.mapM (mergeVariantDocs target.name source.variants)
    return ⟨target.name, params, variants, docs⟩

/-! ## Families of declarations -/

/-- The types of the fields of a declaration. -/
def AdtDecl.fieldTypes (adt : AdtDecl) : List Typ :=
  adt.variants.flatMap fun variant => variant.args.map AdtArgument.typ

/-- The name of the head that `type_head_for_adt_family` gives for a constructor. -/
def familyHeadName (con : UserCon) : Option Symbol :=
  match Typ.named con.1 con.2 with
  | .con head => head.userName
  | _ => none

/-- `adt_direct_dependencies`: the heads of the constructors, by name. -/
def adtDirectDependencies (adt : AdtDecl) : Except TypeError (List Symbol) :=
  match collectAdtsInTypes adt.fieldTypes with
  | .error conflicts => .error (.internal (collectAdtsErrorText conflicts))
  | .ok cons => .ok (cons.filterMap familyHeadName)

/-- The first loop of `order_adt_family`. -/
def uniqueFamily : List AdtDecl → SymbolMap AdtDecl → Except TypeError (SymbolMap AdtDecl)
  | [], unique => .ok unique
  | adt :: adts, unique =>
      match unique.lookup adt.name with
      | some existing =>
          if adtShape existing = adtShape adt then do
            let merged ← mergeAdtDocs existing adt
            uniqueFamily adts (unique.insert adt.name merged)
          else .error (.internal (s!"conflicting ADT family definitions for `{adt.name}`: " ++
            s!"{adtShape existing} vs {adtShape adt}"))
      | none => uniqueFamily adts (unique.insert adt.name adt)

/-- The dependencies of a name that are in the family. -/
def familyDependencies (unique : SymbolMap AdtDecl) (name : Symbol) :
    Except TypeError (List Symbol) :=
  match unique.lookup name with
  | none => .error (.internal s!"missing ADT `{name}` during ordering")
  | some adt => do
      let next ← adtDirectDependencies adt
      return next.filter fun dependency => (unique.lookup dependency).isSome

/-- `order_adt_family`. -/
def orderAdtFamily (adts : List AdtDecl) : Except TypeError (List AdtDecl) := do
  let unique ← uniqueFamily adts []
  let names := unique.map Prod.fst
  let ordered ← names.foldlM (visit names (familyDependencies unique)
    (fun name => .internal s!"missing ADT `{name}` during ordering")
    (fun cycle => .internal ("cyclic ADT auto-registration is not supported yet: " ++
      " -> ".intercalate cycle)) []) []
  return ordered.filterMap fun name => unique.lookup name

/-! ## Bundles -/

structure WireValueDecl where
  scheme : WireScheme
  params : List String
  docs : Option String

structure TypeBundle where
  docs : Option String
  values : SymbolMap (List WireValueDecl)
  adts : List WireAdtDecl

structure DecodedTypeBundle where
  docs : Option String
  adts : List AdtDecl
  values : SymbolMap (List RegisteredValue)

/-- The names of the declared constructors in some types, for the bundle. -/
def namesInTypes (types : List Typ) : Except TypeError (List Symbol) :=
  match collectAdtsInTypes types with
  | .error conflicts => .error (wireError (collectAdtsErrorText conflicts))
  | .ok cons => .ok (cons.map Prod.fst)

/-- The names that the field types of a registered declaration mention. -/
def systemDependencies (adts : SymbolMap AdtDecl) (name : Symbol) : Except TypeError (List Symbol) :=
  match adts.lookup name with
  | none => .error (.unknownTypeName name)
  | some adt => namesInTypes adt.fieldTypes

/-- `collect_adt_decls_for_types`. -/
def collectAdtDeclsForTypes (types : List Typ) (system : TypeSystem) :
    Except TypeError (List AdtDecl) := do
  let queue ← namesInTypes types
  let found ← searchQueue (system.adts.map Prod.fst) (systemDependencies system.adts)
    .unknownTypeName queue []
  orderAdtFamily (found.filterMap fun name => system.adts.lookup name)

namespace TypeBundle

/-- The encoding of one registered value. -/
def fromRegisteredValue (declaration : RegisteredValue) : Except TypeError WireValueDecl :=
  return ⟨← WireScheme.tryFromScheme declaration.scheme, declaration.params, declaration.docs⟩

/-- The loop of `from_registered_values` over the values. -/
def fromValues : List (String × List RegisteredValue) → SymbolMap (List WireValueDecl) →
    Except TypeError (SymbolMap (List WireValueDecl))
  | [], wireValues => .ok wireValues
  | (name, declarations) :: values, wireValues =>
      if declarations = [] then
        .error (wireError s!"exported value `{name}` has no declarations")
      else do
        let wireDeclarations ← declarations.mapM fromRegisteredValue
        if (wireValues.lookup name).isSome then
          throw (wireError s!"duplicate exported value name `{name}`")
        else fromValues values (wireValues.insert name wireDeclarations)

/-- The types of a registered value that the bundle looks at. -/
def referencedTypes (declaration : RegisteredValue) : List Typ :=
  declaration.scheme.typ :: declaration.scheme.preds.map (·.typ)

/-- `TypeBundle::from_registered_values`. -/
def fromRegisteredValues (values : List (String × List RegisteredValue)) (system : TypeSystem) :
    Except TypeError TypeBundle := do
  let wireValues ← fromValues values []
  let adts ← collectAdtDeclsForTypes
    (values.flatMap fun value => value.2.flatMap referencedTypes) system
  return ⟨none, wireValues, ← adts.mapM WireAdtDecl.tryFromAdtDecl⟩

/-- Decoding, with the supply of type variables as state. -/
abbrev DecodeParts : Type → Type :=
  StateT TypeVarSupply (Except TypeError)

/-- The decoding of one registered value. -/
def toRegisteredValue (name : String) (declaration : WireValueDecl) :
    DecodeParts RegisteredValue := do
  let scheme ← declaration.scheme.toSchemeWithSupply
  let expectedParams := (decomposeFunType scheme.typ).1.length
  ensure (declaration.params = [] ∨ declaration.params.length = expectedParams)
    (s!"exported value `{name}` has {declaration.params.length} parameters " ++
      s!"but its type has {expectedParams}")
  declaration.params.forM (validateName "value parameter" ·)
  return ⟨scheme, declaration.params, declaration.docs⟩

/-- The decoding of the values of a name. -/
def toValue (value : String × List WireValueDecl) : DecodeParts (String × List RegisteredValue) := do
  ensure (value.2 ≠ []) s!"exported value `{value.1}` has no declarations"
  return (value.1, ← value.2.mapM (toRegisteredValue value.1))

/-- `into_parts`. -/
def intoParts (bundle : TypeBundle) : Except TypeError DecodedTypeBundle := do
  let decodeAdts : DecodeParts (List AdtDecl) := bundle.adts.mapM WireAdtDecl.toAdtDeclWithSupply
  let (adts, supply) ← decodeAdts .new
  let adts ← orderAdtFamily adts
  let (values, _) ← bundle.values.mapM toValue supply
  return ⟨bundle.docs, adts, values⟩

end TypeBundle

end RexLang
