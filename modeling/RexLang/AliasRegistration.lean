import RexLang.AliasCycles
import RexLang.ClassDeclarations

/-!
# Registration of aliases

How a batch of type declarations gets its aliases, and that every alias of an accepted
batch has its body.
-/

namespace RexLang

/-! ## Declarations -/

structure TypeParam where
  name : Symbol
  docs : Option String := none

/-- `TypeDeclKind`, without the variants of an ADT. -/
inductive TypeDeclKind where
  | alias (expr : TypeExpr)
  | adt

structure TypeDecl where
  span : Span
  name : Symbol
  params : List TypeParam
  kind : TypeDeclKind
  docs : Option String := none

/-- The parameters of `TypeAlias::new` and `AdtDecl::new`, with their documentation. -/
def freshParams : List TypeParam → TypeVarSupply → List AdtParam × TypeVarSupply
  | [], supply => ([], supply)
  | param :: params, supply =>
      let (typeVar, supply) := supply.fresh (some param.name)
      let (params, supply) := freshParams params supply
      (⟨param.name, typeVar, param.docs⟩ :: params, supply)

/-- `register_type_decl_header`. -/
def registerTypeDeclHeader (decl : TypeDecl) (ts : TypeSystem) : Except TypeError TypeSystem :=
  if (BuiltinTypeId.fromName decl.name).isSome then .error (.reservedTypeName decl.name)
  else if (ts.adts.lookup decl.name).isSome ∨ (ts.aliases.lookup decl.name).isSome then
    .error (.duplicateType decl.name)
  else
    let (params, supply) := freshParams decl.params ts.supply
    match decl.kind with
    | .alias _ =>
        .ok { ts with
          aliases := ts.aliases.insert decl.name ⟨decl.name, params, none⟩, supply := supply }
    | .adt =>
        .ok { ts with
          adts := ts.adts.insert decl.name ⟨decl.name, params, [], decl.docs⟩, supply := supply }

/-! ## Bodies -/

/-- `type_arity`. -/
def typeArity (ts : TypeSystem) (decl : TypeDecl) (name : Symbol) : Option Nat :=
  if decl.name = name then some decl.params.length
  else
    match ts.adts.lookup name, ts.aliases.lookup name with
    | some adt, _ => some adt.params.length
    | none, some found => some found.params.length
    | none, none => (BuiltinTypeId.fromName name).map BuiltinTypeId.arity

section FromExpr

variable (ts : TypeSystem) (decl : TypeDecl) (params : SymbolMap TypeVar)

mutual

/-- `type_from_expr`. -/
def typeFromExpr : TypeExpr → Except TypeError Typ
  | .name span reference => withSpanOf span <|
      match params.lookup reference.toDottedSymbol with
      | some typeVar => .ok (.var typeVar)
      | none =>
          let name := normalizeTypeName reference.toDottedSymbol
          match typeArity ts decl name with
          | some arity => .ok (.named name arity)
          | none => .error (.unknownTypeName name)
  | .app span func arg => withSpanOf span do
      let func ← typeFromExpr func
      let arg ← typeFromExpr arg
      return typeAppWithResultSyntax func arg
  | .func span arg ret => withSpanOf span do
      let arg ← typeFromExpr arg
      let ret ← typeFromExpr ret
      return .func arg ret
  | .tuple span elems => withSpanOf span do
      let elems ← typesFromExprs elems
      return .tuple elems
  | .record span fields => withSpanOf span do
      let fields ← fieldsFromExprs fields
      return .mkRecord fields

def typesFromExprs : List TypeExpr → Except TypeError (List Typ)
  | [] => .ok []
  | expr :: exprs => do
      let typ ← typeFromExpr expr
      let types ← typesFromExprs exprs
      return typ :: types

def fieldsFromExprs :
    List (Symbol × TypeExpr × Option String) → Except TypeError (List (Symbol × Typ))
  | [] => .ok []
  | (name, expr, _) :: fields => do
      let typ ← typeFromExpr expr
      let fields ← fieldsFromExprs fields
      return (name, typ) :: fields

end

end FromExpr

/-- The body of an alias in `register_type_decls`. -/
def registerAliasBody (decl : TypeDecl) (ts : TypeSystem) : Except TypeError TypeSystem :=
  match decl.kind with
  | .adt => .ok ts
  | .alias expr =>
      match ts.aliases.lookup decl.name with
      | none => .error (.internal ("missing type alias header \x60" ++ decl.name ++ "\x60"))
      | some found => do
          let params : SymbolMap TypeVar := found.params.foldl
            (fun (params : SymbolMap TypeVar) param => params.insert param.name param.var) []
          let typ ← typeFromExpr ts decl params expr
          return { ts with aliases := ts.aliases.insert decl.name { found with typ := some typ } }

/-- The check of an alias in `register_type_decls`: the alias applied to its parameters. -/
def checkAlias (ts : TypeSystem) (decl : TypeDecl) : Except TypeError Unit :=
  match decl.kind with
  | .adt => .ok ()
  | .alias _ =>
      match ts.aliases.lookup decl.name with
      | none => .error (.internal ("missing type alias \x60" ++ decl.name ++ "\x60"))
      | some found =>
          let applied := found.params.foldl (fun typ param => .app typ (.var param.var))
            (.named decl.name decl.params.length)
          withSpanOf decl.span (do
            let _ ← expandTypeAliases ts.aliases applied
            return ())

/-- `register_type_decls` up to the check of its aliases.  It registers the constructors of
the ADTs after that, and no alias. -/
def registerAliases (decls : List TypeDecl) (ts : TypeSystem) : Except TypeError TypeSystem := do
  let (_, ts) ← decls.foldlM (fun (seen, ts) decl => withSpanOf decl.span
    (if decl.name ∈ seen then .error (.duplicateType decl.name)
      else do
        let ts ← registerTypeDeclHeader decl ts
        return (decl.name :: seen, ts))) (([] : List Symbol), ts)
  let ts ← decls.foldlM (fun ts decl => registerAliasBody decl ts) ts
  let _ ← decls.mapM (checkAlias ts)
  return ts

/-! ## Bodies in order -/

theorem withSpanOf_eq_ok {Result : Type} {span : Span} {outcome : Except TypeError Result}
    {result : Result} : withSpanOf span outcome = .ok result ↔ outcome = .ok result := by
  cases outcome with
  | error error => exact ⟨fun same => (nomatch same), fun same => (nomatch same)⟩
  | ok found => exact Iff.rfl

theorem canonical_named (name : Symbol) (arity : Nat) : (Typ.named name arity).Canonical := by
  rw [Typ.named]
  split
  · split
    · exact .con _
    · exact .con _
  · exact .con _

theorem canonical_typeAppWithResultSyntax {func arg : Typ} (onFunc : func.Canonical)
    (onArg : arg.Canonical) : (typeAppWithResultSyntax func arg).Canonical := by
  rw [typeAppWithResultSyntax.eq_def]
  split
  · cases onFunc with
    | app onResult onOk => exact .app (.app onResult onArg) onOk
  · exact .app onFunc onArg

section FromExpr

variable {ts : TypeSystem} {decl : TypeDecl} {params : SymbolMap TypeVar}

mutual

/-- The types of type expressions have their records in order. -/
theorem canonical_typeFromExpr : ∀ {expr : TypeExpr} {typ : Typ},
    typeFromExpr ts decl params expr = .ok typ → typ.Canonical
  | .name span reference, typ, built => by
      rw [typeFromExpr, withSpanOf_eq_ok] at built
      split at built
      · cases built
        exact .var _
      · dsimp only at built
        split at built
        · cases built
          exact canonical_named _ _
        · cases built
  | .app span func arg, typ, built => by
      rw [typeFromExpr, withSpanOf_eq_ok] at built
      obtain ⟨func', onFunc, built⟩ := exists_of_bind_eq_ok built
      obtain ⟨arg', onArg, built⟩ := exists_of_bind_eq_ok built
      cases built
      exact canonical_typeAppWithResultSyntax (canonical_typeFromExpr onFunc)
        (canonical_typeFromExpr onArg)
  | .func span arg ret, typ, built => by
      rw [typeFromExpr, withSpanOf_eq_ok] at built
      obtain ⟨arg', onArg, built⟩ := exists_of_bind_eq_ok built
      obtain ⟨ret', onRet, built⟩ := exists_of_bind_eq_ok built
      cases built
      exact .func (canonical_typeFromExpr onArg) (canonical_typeFromExpr onRet)
  | .tuple span elems, typ, built => by
      rw [typeFromExpr, withSpanOf_eq_ok] at built
      obtain ⟨types, onElems, built⟩ := exists_of_bind_eq_ok built
      cases built
      exact .tuple (canonical_typesFromExprs onElems)
  | .record span fields, typ, built => by
      rw [typeFromExpr, withSpanOf_eq_ok] at built
      obtain ⟨types, onFields, built⟩ := exists_of_bind_eq_ok built
      cases built
      exact Typ.canonical_mkRecord (canonical_fieldsFromExprs onFields)

theorem canonical_typesFromExprs : ∀ {exprs : List TypeExpr} {types : List Typ},
    typesFromExprs ts decl params exprs = .ok types → ∀ typ ∈ types, typ.Canonical
  | [], types, built => by
      cases built
      simp
  | expr :: exprs, types, built => by
      rw [typesFromExprs] at built
      obtain ⟨typ, onExpr, built⟩ := exists_of_bind_eq_ok built
      obtain ⟨others, onExprs, built⟩ := exists_of_bind_eq_ok built
      cases built
      exact List.forall_mem_cons.mpr
        ⟨canonical_typeFromExpr onExpr, canonical_typesFromExprs onExprs⟩

theorem canonical_fieldsFromExprs :
    ∀ {fields : List (Symbol × TypeExpr × Option String)} {types : List (Symbol × Typ)},
    fieldsFromExprs ts decl params fields = .ok types → ∀ field ∈ types, field.2.Canonical
  | [], types, built => by
      cases built
      simp
  | (name, expr, docs) :: fields, types, built => by
      rw [fieldsFromExprs] at built
      obtain ⟨typ, onExpr, built⟩ := exists_of_bind_eq_ok built
      obtain ⟨others, onFields, built⟩ := exists_of_bind_eq_ok built
      cases built
      exact List.forall_mem_cons.mpr
        ⟨canonical_typeFromExpr onExpr, canonical_fieldsFromExprs onFields⟩

end

end FromExpr

/-! ## Accepted batches -/

/-- Every alias has its body, unless it is declared by one of these declarations. -/
def BodiesUnless (decls : List TypeDecl) (aliases : SymbolMap TypeAlias) : Prop :=
  ∀ name found, aliases.lookup name = some found →
    (∃ body, found.typ = some body ∧ body.Canonical) ∨
      ∃ decl ∈ decls, decl.name = name ∧ decl.kind ≠ .adt

theorem BodiesUnless.insert {decls : List TypeDecl} {aliases : SymbolMap TypeAlias}
    (bodies : BodiesUnless decls aliases) {name : Symbol} {found : TypeAlias}
    (onFound : (∃ body, found.typ = some body ∧ body.Canonical) ∨
      ∃ decl ∈ decls, decl.name = name ∧ decl.kind ≠ .adt) :
    BodiesUnless decls (aliases.insert name found) := by
  intro other header lookup
  rw [lookup_insert] at lookup
  split at lookup
  · next same =>
      cases lookup
      exact same ▸ onFound
  · exact bodies other header lookup

theorem RegisteredBodies.bodiesUnless {aliases : SymbolMap TypeAlias}
    (bodies : RegisteredBodies aliases) (decls : List TypeDecl) : BodiesUnless decls aliases := by
  intro name found lookup
  obtain ⟨body, hasBody⟩ := bodies.registered name found lookup
  exact .inl ⟨body, hasBody, bodies.canonical name found body lookup hasBody⟩

theorem BodiesUnless.registeredBodies {aliases : SymbolMap TypeAlias}
    (bodies : BodiesUnless [] aliases) : RegisteredBodies aliases := by
  have each : ∀ name found, aliases.lookup name = some found →
      ∃ body, found.typ = some body ∧ body.Canonical := by
    intro name found lookup
    rcases bodies name found lookup with registered | ⟨_, member, -⟩
    · exact registered
    · cases member
  refine ⟨fun name found lookup => ?_, fun name found body lookup hasBody => ?_⟩
  · obtain ⟨body, hasBody, -⟩ := each name found lookup
    exact ⟨body, hasBody⟩
  · obtain ⟨other, isBody, canonical⟩ := each name found lookup
    cases hasBody.symm.trans isBody
    exact canonical

theorem BodiesUnless.registerTypeDeclHeader {decls : List TypeDecl} {decl : TypeDecl}
    {ts next : TypeSystem} (bodies : BodiesUnless decls ts.aliases) (member : decl ∈ decls)
    (ran : RexLang.registerTypeDeclHeader decl ts = .ok next) :
    BodiesUnless decls next.aliases := by
  rw [RexLang.registerTypeDeclHeader] at ran
  split_ifs at ran
  dsimp only at ran
  split at ran
  · next expr isAlias =>
      cases ran
      exact bodies.insert (.inr ⟨decl, member, rfl, by simp [isAlias]⟩)
  · cases ran
    exact bodies

theorem BodiesUnless.registerAliasBody {decls : List TypeDecl} {decl : TypeDecl}
    {ts next : TypeSystem} (bodies : BodiesUnless (decl :: decls) ts.aliases)
    (ran : RexLang.registerAliasBody decl ts = .ok next) : BodiesUnless decls next.aliases := by
  rw [RexLang.registerAliasBody] at ran
  split at ran
  · next isAdt =>
      cases ran
      intro name found lookup
      rcases bodies name found lookup with registered | ⟨other, member, named, isAlias⟩
      · exact .inl registered
      · rcases List.mem_cons.mp member with rfl | later
        · exact absurd isAdt isAlias
        · exact .inr ⟨other, later, named, isAlias⟩
  · split at ran
    · cases ran
    · next header isHeader =>
        obtain ⟨typ, built, ran⟩ := exists_of_bind_eq_ok ran
        cases ran
        intro name found lookup
        rw [lookup_insert] at lookup
        split at lookup
        · cases lookup
          exact .inl ⟨typ, rfl, canonical_typeFromExpr built⟩
        · next different =>
            rcases bodies name found lookup with registered | ⟨other, member, named, isAlias⟩
            · exact .inl registered
            · rcases List.mem_cons.mp member with rfl | later
              · exact absurd named.symm different
              · exact .inr ⟨other, later, named, isAlias⟩

theorem bodiesUnless_headers {decls rest : List TypeDecl} {ts next : TypeSystem}
    {seen last : List Symbol} (bodies : BodiesUnless decls ts.aliases) (declared : rest ⊆ decls)
    (ran : rest.foldlM (fun (seen, ts) decl => withSpanOf decl.span
      (if decl.name ∈ seen then .error (.duplicateType decl.name)
        else do
          let ts ← RexLang.registerTypeDeclHeader decl ts
          return (decl.name :: seen, ts))) (seen, ts) = .ok (last, next)) :
    BodiesUnless decls next.aliases := by
  induction rest generalizing seen ts with
  | nil =>
      cases ran
      exact bodies
  | cons decl rest hypothesis =>
      obtain ⟨member, others⟩ := List.cons_subset.mp declared
      rw [List.foldlM_cons] at ran
      obtain ⟨⟨names, middle⟩, onDecl, ran⟩ := exists_of_bind_eq_ok ran
      rw [withSpanOf_eq_ok] at onDecl
      split at onDecl
      · cases onDecl
      · obtain ⟨header, onHeader, onDecl⟩ := exists_of_bind_eq_ok onDecl
        cases onDecl
        exact hypothesis (bodies.registerTypeDeclHeader member onHeader) others ran

theorem BodiesUnless.registerAliasBodies {decls : List TypeDecl} {ts next : TypeSystem}
    (bodies : BodiesUnless decls ts.aliases)
    (ran : decls.foldlM (fun ts decl => RexLang.registerAliasBody decl ts) ts = .ok next) :
    BodiesUnless [] next.aliases := by
  induction decls generalizing ts with
  | nil =>
      cases ran
      exact bodies
  | cons decl decls hypothesis =>
      rw [List.foldlM_cons] at ran
      obtain ⟨middle, onDecl, ran⟩ := exists_of_bind_eq_ok ran
      exact hypothesis (bodies.registerAliasBody onDecl) ran

/-- Every alias of an accepted batch has its body. -/
theorem RegisteredBodies.registerAliases {decls : List TypeDecl} {ts next : TypeSystem}
    (bodies : RegisteredBodies ts.aliases) (ran : RexLang.registerAliases decls ts = .ok next) :
    RegisteredBodies next.aliases := by
  rw [RexLang.registerAliases] at ran
  obtain ⟨⟨seen, headers⟩, onHeaders, ran⟩ := exists_of_bind_eq_ok ran
  obtain ⟨registered, onBodies, ran⟩ := exists_of_bind_eq_ok ran
  obtain ⟨_, -, ran⟩ := exists_of_bind_eq_ok ran
  cases ran
  have onHeaders : BodiesUnless decls headers.aliases :=
    bodiesUnless_headers (bodies.bodiesUnless decls) (fun _ member => member) onHeaders
  exact (onHeaders.registerAliasBodies onBodies).registeredBodies

theorem registeredBodies_new : RegisteredBodies TypeSystem.new.aliases :=
  ⟨fun _ _ lookup => (by cases lookup), fun _ _ _ lookup => (by cases lookup)⟩

/-! ## Reports -/

/-- `type Name f = { x: f arg }`. -/
def fieldAlias (name : Symbol) (arg : Symbol) : TypeDecl :=
  ⟨.default, name, [⟨"f", none⟩], .alias (.record .default [("x",
    .app .default (.name .default (.unqualified "f")) (.name .default (.unqualified arg)), none)]),
    none⟩

/-- The alias that such a declaration registers. -/
def fieldAliases (name : Symbol) (arg : Typ) : SymbolMap TypeAlias :=
  [(name, ⟨name, [⟨"f", ⟨0, some "f"⟩, none⟩],
    some (.record [("x", .app (.var ⟨0, some "f"⟩) arg)])⟩)]

theorem mkRecord_singleton (name : Symbol) (typ : Typ) :
    Typ.mkRecord [(name, typ)] = .record [(name, typ)] := by
  rw [Typ.mkRecord, List.mergeSort_singleton]

theorem registerAliases_fieldAlias {name arg : Symbol} {typ : Typ}
    (header : registerTypeDeclHeader (fieldAlias name arg) .new = .ok { TypeSystem.new with
      aliases := [(name, ⟨name, [⟨"f", ⟨0, some "f"⟩, none⟩], none⟩)], supply := ⟨1⟩ })
    (body : registerAliasBody (fieldAlias name arg) { TypeSystem.new with
      aliases := [(name, ⟨name, [⟨"f", ⟨0, some "f"⟩, none⟩], none⟩)], supply := ⟨1⟩ } =
        .ok { TypeSystem.new with aliases := fieldAliases name typ, supply := ⟨1⟩ })
    (check : checkAlias { TypeSystem.new with aliases := fieldAliases name typ, supply := ⟨1⟩ }
      (fieldAlias name arg) = .ok ()) :
    registerAliases [fieldAlias name arg] .new =
      .ok { TypeSystem.new with aliases := fieldAliases name typ, supply := ⟨1⟩ } := by
  rw [registerAliases]
  refine bind_eq_ok.mpr ⟨([name], _), bind_eq_ok.mpr ⟨_, ?_, rfl⟩, bind_eq_ok.mpr
    ⟨_, bind_eq_ok.mpr ⟨_, body, rfl⟩, bind_eq_ok.mpr ⟨[()], ?_, rfl⟩⟩⟩
  · exact withSpanOf_eq_ok.mpr (bind_eq_ok.mpr ⟨_, header, rfl⟩)
  · rw [List.mapM_cons]
    exact bind_eq_ok.mpr ⟨(), check, rfl⟩

theorem registerAliases_applied : registerAliases [fieldAlias "W" "f"] .new =
    .ok { TypeSystem.new with aliases := fieldAliases "W" (.var ⟨0, some "f"⟩), supply := ⟨1⟩ } := by
  refine registerAliases_fieldAlias rfl ?_ rfl
  rw [fieldAliases, ← mkRecord_singleton]
  rfl

theorem registerAliases_passed : registerAliases [fieldAlias "A" "A"] .new =
    .ok { TypeSystem.new with aliases := fieldAliases "A" (.named "A" 1), supply := ⟨1⟩ } := by
  refine registerAliases_fieldAlias rfl ?_ rfl
  rw [fieldAliases, ← mkRecord_singleton]
  rfl

/-- `W W` is reported, and no definition leads back to itself; the definition of `A` does, and
`A i32` is expanded. -/
theorem expandTypeAliases_reports_otherwise :
    (∃ decls ts typ name, registerAliases decls .new = .ok ts ∧ typ.Canonical ∧
      expandTypeAliases ts.aliases typ = .error (.cyclicTypeAlias name) ∧
      ¬∃ other, LeadsTo ts.aliases typ other ∧
        Relation.TransGen (NamesInBody ts.aliases) other other) ∧
    ∃ decls ts typ result name, registerAliases decls .new = .ok ts ∧ typ.Canonical ∧
      expandTypeAliases ts.aliases typ = .ok result ∧ LeadsTo ts.aliases typ name ∧
      Relation.TransGen (NamesInBody ts.aliases) name name := by
  refine ⟨⟨_, _, .app (.named "W" 1) (.named "W" 1), "W", registerAliases_applied,
    .app (canonical_named _ _) (canonical_named _ _), rfl, ?_⟩,
    ⟨_, _, .app (.named "A" 1) (.builtin .i32), _, "A", registerAliases_passed,
      .app (canonical_named _ _) (.con _), rfl, ?_, ?_⟩⟩
  · rintro ⟨other, -, cycle⟩
    obtain ⟨next, ⟨body, ⟨found, lookup, hasBody⟩, const, count, occurs, -, -⟩, -⟩ :=
      Relation.TransGen.head'_iff.mp cycle
    rw [fieldAliases, lookup_cons_eq_ite] at lookup
    split at lookup
    · cases lookup
      cases hasBody
      rcases occurs with _ | _ | _ | _ | _ | _ | _ | ⟨_, member, occurs⟩
      cases List.mem_singleton.mp member
      rcases occurs with _ | _ | ⟨_, _ | _⟩ | ⟨_, _, _ | _⟩
    · cases lookup
  · exact ⟨"A", ⟨.user "A" 1, 1, .appFunc _ (.con _ 1), rfl, _, rfl⟩, .refl⟩
  · refine .single ⟨_, ⟨_, rfl, rfl⟩, .user "A" 1, 0, ?_, rfl, _, rfl⟩
    exact .record 0 List.mem_cons_self (.appArg _ 0 (.con _ 0))

/-- `A i32` is expanded to a type in which no alias has all its arguments. -/
theorem expandTypeAliases_outcome_passed : ∃ result,
    expandTypeAliases (fieldAliases "A" (.named "A" 1)) (.app (.named "A" 1) (.builtin .i32)) =
      .ok result ∧ result.Normal (fieldAliases "A" (.named "A" 1)) := by
  have bodies : RegisteredBodies (fieldAliases "A" (.named "A" 1)) :=
    registeredBodies_new.registerAliases registerAliases_passed
  obtain ⟨⟨result, expanded, normal, -⟩ | ⟨name, reported, -⟩, -⟩ :=
    expandTypeAliases_outcome bodies
      (.app (canonical_named "A" 1) (.con (.builtin .i32)))
  · exact ⟨result, expanded, normal⟩
  · cases reported

end RexLang
