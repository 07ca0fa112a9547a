import RexLang.FamilyMerging

/-!
# Ordered families

A family that is ordered has one declaration for every name, of the same shape and after
the declarations that it mentions; which names come first does not depend on the order of
the input.  Conflicting and cyclic families are rejected.
-/

namespace RexLang

/-! ## Mentioned constructors -/

namespace ShapeTree

mutual

/-- The declared constructors of a tree. -/
def userCons : ShapeTree ShapeLeaf → List UserCon
  | .leaf (.con (.user name arity)) => [(name, arity)]
  | .leaf _ => []
  | .app head arg => userCons head ++ userCons arg
  | .func arg ret => userCons arg ++ userCons ret
  | .tuple elems => userConsElems elems
  | .record fields => userConsFields fields

def userConsElems : List (ShapeTree ShapeLeaf) → List UserCon
  | [] => []
  | tree :: trees => userCons tree ++ userConsElems trees

def userConsFields : List (String × ShapeTree ShapeLeaf) → List UserCon
  | [] => []
  | (_, tree) :: fields => userCons tree ++ userConsFields fields

end

end ShapeTree

theorem Typ.userCons_shapeTree (params : List AdtParam) (typ : Typ) :
    (typ.shapeTree params).userCons = typ.userCons := by
  induction typ using Typ.inductionOn with
  | var typeVar =>
      rw [shapeTree, varLeaf]
      cases paramPosition params typeVar.id with
      | none => rfl
      | some index => rfl
  | con const =>
      cases const with
      | builtin id => rfl
      | user name arity => rfl
  | app head arg onHead onArg => rw [shapeTree, ShapeTree.userCons, onHead, onArg, userCons]
  | func arg ret onArg onRet => rw [shapeTree, ShapeTree.userCons, onArg, onRet, userCons]
  | tuple elems onElems =>
      rw [shapeTree, ShapeTree.userCons, userCons]
      induction elems with
      | nil => rfl
      | cons elem elems hypothesis =>
          rw [shapeTrees, ShapeTree.userConsElems, userConsList, onElems elem List.mem_cons_self,
            hypothesis fun other member => onElems other (.tail _ member)]
  | record fields onFields =>
      rw [shapeTree, ShapeTree.userCons, userCons]
      induction fields with
      | nil => rfl
      | cons field fields hypothesis =>
          rw [shapeFields, ShapeTree.userConsFields, userConsFields,
            onFields field List.mem_cons_self,
            hypothesis fun other member => onFields other (.tail _ member)]

/-- The declared constructors of a variant. -/
def shapeCons (variant : VariantShape ShapeLeaf) : List UserCon :=
  variant.2.flatMap ShapeTree.userCons

theorem AdtDecl.flatMap_shapeCons (adt : AdtDecl) :
    adt.variantShapes.flatMap shapeCons = adt.fieldTypes.flatMap Typ.userCons := by
  rw [AdtDecl.variantShapes, AdtDecl.fieldTypes, List.flatMap_map, List.flatMap_assoc]
  refine List.flatMap_congr fun variant _ => ?_
  rw [shapeCons, AdtVariant.shape, List.flatMap_map, List.flatMap_map]
  exact List.flatMap_congr fun arg _ => Typ.userCons_shapeTree adt.params arg.typ

theorem adtDirectDependencies_congr {first second : AdtDecl}
    (same : first.variantShapes = second.variantShapes) :
    adtDirectDependencies first = adtDirectDependencies second := by
  have cons : first.fieldTypes.flatMap Typ.userCons = second.fieldTypes.flatMap Typ.userCons := by
    rw [← AdtDecl.flatMap_shapeCons, same, AdtDecl.flatMap_shapeCons]
  rw [adtDirectDependencies, adtDirectDependencies, collectAdtsInTypes, collectAdtsInTypes, cons]

theorem AdtDecl.mentions_iff {adt : AdtDecl} {name : Symbol} :
    adt.Mentions name ↔ ∃ arity, (name, arity) ∈ adt.variantShapes.flatMap shapeCons := by
  rw [AdtDecl.flatMap_shapeCons]
  simp only [AdtDecl.Mentions, List.mem_flatMap]
  constructor
  · rintro ⟨typ, isTyp, arity, isCon⟩
    exact ⟨arity, typ, isTyp, isCon⟩
  · rintro ⟨arity, typ, isTyp, isCon⟩
    exact ⟨typ, isTyp, arity, isCon⟩

/-- Equal declarations mention the same names. -/
theorem AdtDecl.SameDeclaration.mentions_iff {first second : AdtDecl}
    (same : first.SameDeclaration second) {name : Symbol} :
    first.Mentions name ↔ second.Mentions name := by
  rw [AdtDecl.mentions_iff, AdtDecl.mentions_iff]
  exact exists_congr fun arity => (same.variants.flatMap_right shapeCons).mem_iff

/-- The direct dependencies are the names that the declaration mentions. -/
theorem mem_adtDirectDependencies {adt : AdtDecl} {names : List Symbol}
    (heads : ∀ typ ∈ adt.fieldTypes, ∀ con ∈ typ.userCons, familyHeadName con = some con.1)
    (runs : adtDirectDependencies adt = .ok names) (name : Symbol) :
    name ∈ names ↔ adt.Mentions name := by
  rw [adtDirectDependencies, collectAdtsInTypes] at runs
  split at runs
  · cases runs
  · next cons collected =>
      split_ifs at collected
      cases collected
      cases runs
      simp only [List.mem_filterMap, mem_foldl_pushNew, List.not_mem_nil, false_or,
        List.mem_flatMap]
      constructor
      · rintro ⟨con, ⟨typ, isTyp, isCon⟩, isName⟩
        rw [heads typ isTyp con isCon] at isName
        cases isName
        exact ⟨typ, isTyp, con.2, isCon⟩
      · rintro ⟨typ, isTyp, arity, isCon⟩
        exact ⟨(name, arity), ⟨typ, isTyp, isCon⟩, heads typ isTyp _ isCon⟩

/-! ## Families -/

/-- A declaration of the first name mentions the second, which is a name of the family. -/
def MentionsWithin (adts : List AdtDecl) (name other : Symbol) : Prop :=
  FamilyMentions adts name other ∧ other ∈ adts.map (·.name)

/-- What the order of a family is to be: one declaration for every name, equal to those of
that name and after those it mentions, the names in an order that permutations of the
family share. -/
structure FamilyOrdered (adts ordered : List AdtDecl) : Prop where
  distinct : (ordered.map (·.name)).Nodup
  names : ∀ name, name ∈ ordered.map (·.name) ↔ name ∈ adts.map (·.name)
  same : ∀ adt ∈ adts, ∀ second ∈ ordered, second.name = adt.name → adt.SameDeclaration second
  sorted : ∀ before adt after, ordered = before ++ adt :: after → ∀ name, adt.Mentions name →
    name ∈ adts.map (·.name) → name ∈ before.map (·.name)
  permuted : ∀ others ordered', adts.Perm others → orderAdtFamily others = .ok ordered' →
    ordered'.map (·.name) = ordered.map (·.name)

/-- A family is ordered as it is to be, and rejected where two declarations of one name
differ or the mentions have a cycle. -/
structure FamilyCorrect (adts : List AdtDecl) : Prop where
  ordered : ∀ ordered, orderAdtFamily adts = .ok ordered → FamilyOrdered adts ordered
  conflict : ∀ first ∈ adts, ∀ second ∈ adts, first.name = second.name →
    ¬first.SameDeclaration second → ∃ error, orderAdtFamily adts = .error error
  cycle : ∀ name, Relation.TransGen (MentionsWithin adts) name name →
    ∃ error, orderAdtFamily adts = .error error

section Ordering

variable {adts : List AdtDecl}

theorem PlainFamily.perm {others : List AdtDecl} (plain : PlainFamily adts)
    (perm : adts.Perm others) : PlainFamily others := by
  have back : ∀ adt ∈ others, adt ∈ adts := fun _ => perm.mem_iff.mpr
  exact ⟨fun adt member => plain.readable adt (back adt member),
    fun first isFirst second isSecond =>
      plain.apart first (back first isFirst) second (back second isSecond),
    fun first isFirst second isSecond =>
      plain.stays first (back first isFirst) second (back second isSecond),
    fun adt member => plain.heads adt (back adt member),
    fun first isFirst second isSecond =>
      plain.order first (back first isFirst) second (back second isSecond)⟩

/-- A successful run: the family of the first pass and the names in their order. -/
structure FamilyRun (adts : List AdtDecl) (family : SymbolMap AdtDecl) (names : List Symbol)
    (ordered : List AdtDecl) : Prop where
  gathers : FamilySoFar adts family
  searched : (family.map Prod.fst).foldlM (visit (family.map Prod.fst) (familyDependencies family)
    (fun name => .internal s!"missing ADT `{name}` during ordering")
    (fun cycle => .internal ("cyclic ADT auto-registration is not supported yet: " ++
      " -> ".intercalate cycle)) []) [] = .ok names
  result : ordered = names.filterMap fun name => family.lookup name

theorem PlainFamily.exists_run (plain : PlainFamily adts) {ordered : List AdtDecl}
    (runs : orderAdtFamily adts = .ok ordered) :
    ∃ family names, FamilyRun adts family names ordered := by
  obtain ⟨family, isFamily, runs⟩ := bind_eq_ok.mp runs
  obtain ⟨names, isNames, runs⟩ := bind_eq_ok.mp runs
  cases runs
  have start : FamilySoFar [] [] := ⟨.nil, by simp, by simp⟩
  exact ⟨family, names, plain.gathers rfl start isFamily, isNames, rfl⟩

section Run

variable {family : SymbolMap AdtDecl} {names : List Symbol} {ordered : List AdtDecl}

theorem FamilySoFar.mem_names (gathers : FamilySoFar adts family) (name : Symbol) :
    name ∈ family.map Prod.fst ↔ name ∈ adts.map (·.name) := by
  constructor
  · intro member
    obtain ⟨merged, found⟩ := Option.isSome_iff_exists.mp (isSome_lookup_iff.mpr member)
    obtain ⟨first, isFirst, sameName, -⟩ := gathers.represents name merged found
    exact List.mem_map.mpr ⟨first, isFirst, sameName⟩
  · intro member
    obtain ⟨adt, isAdt, rfl⟩ := List.mem_map.mp member
    exact isSome_lookup_iff.mp (gathers.covers adt isAdt)

/-- Declarations of one name are equal in a family that the first pass accepts. -/
theorem FamilySoFar.sameDeclaration (gathers : FamilySoFar adts family) {name : Symbol} {merged : AdtDecl}
    (found : family.lookup name = some merged) {adt : AdtDecl} (isAdt : adt ∈ adts)
    (sameName : adt.name = name) : adt.SameDeclaration merged := by
  obtain ⟨first, -, -, represents, same⟩ := gathers.represents name merged found
  exact (same adt isAdt sameName).symm.trans represents.sameDeclaration

theorem FamilyRun.orders (run : FamilyRun adts family names ordered) :
    Orders (Answered (family.map Prod.fst) (familyDependencies family))
        (answers (familyDependencies family)) names ∧
      ∀ name, name ∈ names ↔ name ∈ adts.map (·.name) := by
  obtain ⟨orders, members⟩ := orders_of_search run.searched
  exact ⟨orders, fun name => (members name).trans (run.gathers.mem_names name)⟩

/-- The dependencies of a name that the family has are known, from the first declaration of
that name. -/
theorem FamilyRun.dependencies (run : FamilyRun adts family names ordered) {name : Symbol}
    (isName : name ∈ names) : ∃ first ∈ adts, first.name = name ∧ ∃ next,
      adtDirectDependencies first = .ok next ∧
        familyDependencies family name =
          .ok (next.filter fun dependency => (family.lookup dependency).isSome) := by
  obtain ⟨isNode, known⟩ := run.orders.1.isInside name isName
  obtain ⟨merged, found⟩ := Option.isSome_iff_exists.mp (isSome_lookup_iff.mpr isNode)
  obtain ⟨first, isFirst, sameName, represents, -⟩ := run.gathers.represents name merged found
  have same := adtDirectDependencies_congr represents.shapes
  rw [familyDependencies, found] at known
  obtain ⟨next, isNext, -⟩ := bind_eq_ok.mp known
  refine ⟨first, isFirst, sameName, next, same ▸ isNext, ?_⟩
  rw [familyDependencies, found]
  exact bind_eq_ok.mpr ⟨next, isNext, rfl⟩

/-- What a declaration mentions in the family is a dependency of its name. -/
theorem FamilyRun.mem_answers (run : FamilyRun adts family names ordered)
    (plain : PlainFamily adts) {adt : AdtDecl} (isAdt : adt ∈ adts) {other : Symbol}
    (mentions : adt.Mentions other) (isOther : other ∈ adts.map (·.name)) :
    other ∈ answers (familyDependencies family) adt.name := by
  have isName := (run.orders.2 adt.name).mpr (List.mem_map_of_mem isAdt)
  obtain ⟨first, isFirst, sameName, next, isNext, known⟩ := run.dependencies isName
  obtain ⟨merged, found⟩ := Option.isSome_iff_exists.mp
    (isSome_lookup_iff.mpr (run.orders.1.isInside adt.name isName).1)
  have same := (run.gathers.sameDeclaration found isAdt rfl).trans
    (run.gathers.sameDeclaration found isFirst sameName).symm
  rw [answers, known]
  refine List.mem_filter.mpr ⟨?_, ?_⟩
  · exact (mem_adtDirectDependencies (plain.heads first isFirst) isNext other).mpr
      (same.mentions_iff.mp mentions)
  · exact isSome_lookup_iff.mpr ((run.gathers.mem_names other).mpr isOther)

theorem FamilyRun.map_name (run : FamilyRun adts family names ordered) :
    ordered.map (·.name) = names := by
  rw [run.result]
  refine map_name_filterMap fun name isName => ?_
  obtain ⟨merged, found⟩ := Option.isSome_iff_exists.mp
    (isSome_lookup_iff.mpr (run.orders.1.isInside name isName).1)
  obtain ⟨first, -, sameName, represents, -⟩ := run.gathers.represents name merged found
  exact ⟨merged, found, represents.kept.name.trans sameName⟩

theorem FamilyRun.lookup (run : FamilyRun adts family names ordered) {second : AdtDecl}
    (isSecond : second ∈ ordered) : family.lookup second.name = some second := by
  rw [run.result] at isSecond
  obtain ⟨name, -, found⟩ := List.mem_filterMap.mp isSecond
  obtain ⟨first, -, sameName, represents, -⟩ := run.gathers.represents name second found
  rwa [represents.kept.name.trans sameName]

end Run

/-- The keys of ordered maps with the same keys are listed alike. -/
theorem keys_eq_of_mem_iff {first second : SymbolMap AdtDecl} (onFirst : Ordered first)
    (onSecond : Ordered second)
    (same : ∀ name, name ∈ first.map Prod.fst ↔ name ∈ second.map Prod.fst) :
    first.map Prod.fst = second.map Prod.fst := by
  have perm := (List.perm_ext_iff_of_nodup (onFirst.imp ne_of_lt) (onSecond.imp ne_of_lt)).mpr same
  exact perm.eq_of_pairwise (fun _ _ _ _ less more => absurd more less.not_gt) onFirst onSecond

/-- Permutations of a plain family are put in one order of names. -/
theorem FamilyRun.names_eq {others ordered ordered' : List AdtDecl} {family family' : SymbolMap AdtDecl}
    {names names' : List Symbol} (plain : PlainFamily adts) (perm : adts.Perm others)
    (run : FamilyRun adts family names ordered) (run' : FamilyRun others family' names' ordered') :
    names' = names := by
  have keys : family'.map Prod.fst = family.map Prod.fst := by
    refine keys_eq_of_mem_iff run'.gathers.ordered run.gathers.ordered fun name => ?_
    rw [run'.gathers.mem_names, run.gathers.mem_names]
    exact (perm.map (·.name)).mem_iff.symm
  have same : ∀ name ∈ family.map Prod.fst,
      familyDependencies family' name = familyDependencies family name := by
    intro name isKey
    have isName := (run.gathers.mem_names name).mp isKey
    have isName' : name ∈ others.map (·.name) := (perm.map (·.name)).mem_iff.mp isName
    obtain ⟨first, isFirst, sameName, next, isNext, known⟩ :=
      run.dependencies ((run.orders.2 name).mpr isName)
    obtain ⟨first', isFirst', sameName', next', isNext', known'⟩ :=
      run'.dependencies ((run'.orders.2 name).mpr isName')
    obtain ⟨merged, found⟩ := Option.isSome_iff_exists.mp (isSome_lookup_iff.mpr isKey)
    have inFirst' := perm.mem_iff.mpr isFirst'
    have equal := (run.gathers.sameDeclaration found isFirst sameName).trans
      (run.gathers.sameDeclaration found inFirst' sameName').symm
    rw [known, known', plain.order first isFirst first' inFirst' equal next next' isNext isNext']
    refine congrArg Except.ok (List.filter_congr fun dependency _ => ?_)
    rw [Bool.eq_iff_iff, isSome_lookup_iff, isSome_lookup_iff, keys]
  have searches : visit (family'.map Prod.fst) (familyDependencies family')
      (fun name => .internal s!"missing ADT `{name}` during ordering")
      (fun cycle => .internal ("cyclic ADT auto-registration is not supported yet: " ++
        " -> ".intercalate cycle)) [] =
      visit (family.map Prod.fst) (familyDependencies family)
        (fun name => .internal s!"missing ADT `{name}` during ordering")
        (fun cycle => .internal ("cyclic ADT auto-registration is not supported yet: " ++
          " -> ".intercalate cycle)) [] := by
    rw [keys]
    exact funext fun ordered => funext fun node => visit_congr same [] ordered node
  have searched := run'.searched
  rw [searches, keys, run.searched] at searched
  cases searched
  rfl

theorem PlainFamily.familyOrdered (plain : PlainFamily adts) {ordered : List AdtDecl}
    (runs : orderAdtFamily adts = .ok ordered) : FamilyOrdered adts ordered := by
  obtain ⟨family, names, run⟩ := plain.exists_run runs
  obtain ⟨orders, members⟩ := run.orders
  constructor
  case distinct =>
    rw [run.map_name]
    exact orders.distinct
  case names =>
    rw [run.map_name]
    exact members
  case same =>
    intro adt isAdt second isSecond sameName
    exact run.gathers.sameDeclaration (run.lookup isSecond) isAdt sameName.symm
  case sorted =>
    intro before adt after split name mentions isName
    have isAdt : adt ∈ ordered := by simp [split]
    have found := run.lookup isAdt
    obtain ⟨first, isFirst, sameName, represents, -⟩ :=
      run.gathers.represents adt.name adt found
    have mentionsFirst := represents.sameDeclaration.mentions_iff.mpr mentions
    have isAnswer := run.mem_answers plain isFirst mentionsFirst isName
    rw [sameName] at isAnswer
    have splitNames : names = before.map (·.name) ++ adt.name :: after.map (·.name) := by
      rw [← run.map_name, split, List.map_append, List.map_cons]
    exact orders.subset_of_split splitNames name isAnswer
  case permuted =>
    intro others ordered' perm runs'
    obtain ⟨family', names', run'⟩ := (plain.perm perm).exists_run runs'
    rw [run.map_name, run'.map_name]
    exact run.names_eq plain perm run'

end Ordering

theorem plainFamily_wraps : PlainFamily
    [wrapDecl 0 (.positional (.var ⟨0, none⟩)), wrapDecl 5 (.positional (.var ⟨5, none⟩))] := by
  have isWrap : ∀ adt ∈ [wrapDecl 0 (.positional (.var ⟨0, none⟩)),
      wrapDecl 5 (.positional (.var ⟨5, none⟩))], ∃ id,
        adt = wrapDecl id (.positional (.var ⟨id, none⟩)) := by
    intro adt member
    simp only [List.mem_cons, List.not_mem_nil, or_false] at member
    obtain rfl | rfl := member
    · exact ⟨0, rfl⟩
    · exact ⟨5, rfl⟩
  constructor
  case readable =>
    intro adt member
    obtain ⟨id, rfl⟩ := isWrap adt member
    exact readable_wrapDecl (.var trivial)
  case apart =>
    intro first isFirst second isSecond _ _
    obtain ⟨id, rfl⟩ := isWrap first isFirst
    obtain ⟨other, rfl⟩ := isWrap second isSecond
    refine ⟨rfl, rfl, .of_eq ?_⟩
    simp [AdtDecl.variantShapes, wrapDecl, AdtVariant.shape, AdtArgument.typ, Typ.shapeTree,
      varLeaf, paramPosition]
  case stays =>
    rintro first isFirst second isSecond - - ⟨variant, isVariant, other, isOther, -, pair, isPair, moves⟩
    obtain ⟨id, rfl⟩ := isWrap first isFirst
    obtain ⟨id', rfl⟩ := isWrap second isSecond
    obtain rfl := List.mem_singleton.mp isVariant
    obtain rfl := List.mem_singleton.mp isOther
    obtain rfl := List.mem_singleton.mp isPair
    exact moves
  case heads =>
    intro adt member typ isTyp con isCon
    obtain ⟨id, rfl⟩ := isWrap adt member
    obtain rfl := List.mem_singleton.mp isTyp
    cases isCon
  case order =>
    intro first isFirst second isSecond _ names names' isNames isNames'
    obtain ⟨id, rfl⟩ := isWrap first isFirst
    obtain ⟨id', rfl⟩ := isWrap second isSecond
    cases isNames
    cases isNames'
    rfl

/-- A declaration without variants. -/
def bareDecl (name : Symbol) : AdtDecl :=
  ⟨name, [], [], none⟩

/-- A declaration of two variants that mention a constructor each. -/
def pairDecl (first second : Symbol × Symbol) : AdtDecl :=
  ⟨"A", [], [⟨first.1, [.positional (.userCon first.2 0)], none⟩,
    ⟨second.1, [.positional (.userCon second.2 0)], none⟩], none⟩

theorem ofWords_pairDecl {first second : Symbol × Symbol}
    (onFirst : IsWord first.1 ∧ IsWord first.2) (onSecond : IsWord second.1 ∧ IsWord second.2) :
    (pairDecl first second).OfWords := by
  have each : ∀ variant ∈ (pairDecl first second).variants, ∃ pair : Symbol × Symbol,
      (IsWord pair.1 ∧ IsWord pair.2) ∧
        variant = ⟨pair.1, [.positional (.userCon pair.2 0)], none⟩ := by
    intro variant isVariant
    simp only [pairDecl, List.mem_cons, List.not_mem_nil, or_false] at isVariant
    obtain rfl | rfl := isVariant
    · exact ⟨first, onFirst, rfl⟩
    · exact ⟨second, onSecond, rfl⟩
  refine ⟨(by decide : IsWord "A"), fun variant isVariant => ?_, fun variant isVariant arg isArg => ?_⟩
  · obtain ⟨pair, words, rfl⟩ := each variant isVariant
    exact words.1
  · obtain ⟨pair, words, rfl⟩ := each variant isVariant
    obtain rfl := List.mem_singleton.mp isArg
    exact .con words.2

/-- Two listings of the variants of one declaration have one shape. -/
theorem adtShape_pairDecl {first second : Symbol × Symbol}
    (onFirst : IsWord first.1 ∧ IsWord first.2) (onSecond : IsWord second.1 ∧ IsWord second.2) :
    adtShape (pairDecl first second) = adtShape (pairDecl second first) :=
  ((ofWords_pairDecl onFirst onSecond).adtShape_eq_iff (ofWords_pairDecl onSecond onFirst)).mpr
    ⟨rfl, .swap _ _ _⟩

theorem mergeAdtDocs_pairDecl {first second : Symbol × Symbol}
    (same : adtShape (pairDecl first second) = adtShape (pairDecl second first))
    (differ : first.1 ≠ second.1) :
    mergeAdtDocs (pairDecl first second) (pairDecl second first) = .ok (pairDecl first second) := by
  rw [mergeAdtDocs, if_neg (not_not_intro same), if_neg (by simp [pairDecl])]
  have firstMerge : mergeVariantDocs "A" (pairDecl second first).variants
      ⟨first.1, [.positional (.userCon first.2 0)], none⟩ =
        .ok ⟨first.1, [.positional (.userCon first.2 0)], none⟩ := by
    simp [mergeVariantDocs, pairDecl, differ.symm]
    rfl
  have secondMerge : mergeVariantDocs "A" (pairDecl second first).variants
      ⟨second.1, [.positional (.userCon second.2 0)], none⟩ =
        .ok ⟨second.1, [.positional (.userCon second.2 0)], none⟩ := by
    simp [mergeVariantDocs, pairDecl]
    rfl
  refine bind_eq_ok.mpr ⟨none, rfl, bind_eq_ok.mpr ⟨[], rfl, bind_eq_ok.mpr
    ⟨(pairDecl first second).variants, ?_, rfl⟩⟩⟩
  change List.mapM (mergeVariantDocs "A" (pairDecl second first).variants)
    [⟨first.1, [.positional (.userCon first.2 0)], none⟩,
      ⟨second.1, [.positional (.userCon second.2 0)], none⟩] = _
  rw [List.mapM_cons, firstMerge, List.mapM_cons, secondMerge]
  rfl

/-- The search takes the dependencies in the order in which they are listed. -/
theorem search_pair {dependencies : Symbol → Except TypeError (List Symbol)}
    {missing : Symbol → TypeError} {cyclic : List Symbol → TypeError} {first second : Symbol}
    (isPair : dependencies "A" = .ok [first, second]) (onFirst : dependencies first = .ok [])
    (onSecond : dependencies second = .ok [])
    (names : first = "B" ∧ second = "C" ∨ first = "C" ∧ second = "B") :
    ["A", "B", "C"].foldlM (visit ["A", "B", "C"] dependencies missing cyclic []) [] =
      .ok [first, second, "A"] := by
  have visitFirst : visit ["A", "B", "C"] dependencies missing cyclic ["A"] [] first =
      .ok [first] := by
    rw [visit]
    rcases names with ⟨rfl, rfl⟩ | ⟨rfl, rfl⟩
    · simp [onFirst]
      rfl
    · simp [onFirst]
      rfl
  have visitSecond : visit ["A", "B", "C"] dependencies missing cyclic ["A"] [first] second =
      .ok [first, second] := by
    rw [visit]
    rcases names with ⟨rfl, rfl⟩ | ⟨rfl, rfl⟩
    · simp [onSecond]
      rfl
    · simp [onSecond]
      rfl
  have visitAll : visit ["A", "B", "C"] dependencies missing cyclic [] [] "A" =
      .ok [first, second, "A"] := by
    rw [visit]
    simp only [List.not_mem_nil, if_false, dite_false, List.mem_cons, true_or, dite_true, isPair]
    exact bind_eq_ok.mpr ⟨_, rfl, bind_eq_ok.mpr ⟨[first, second], bind_eq_ok.mpr
      ⟨_, visitFirst, bind_eq_ok.mpr ⟨_, visitSecond, rfl⟩⟩, rfl⟩⟩
  refine bind_eq_ok.mpr ⟨_, visitAll, bind_eq_ok.mpr ⟨[first, second, "A"], ?_, bind_eq_ok.mpr
    ⟨[first, second, "A"], ?_, rfl⟩⟩⟩
  · rw [visit, if_pos]
    rcases names with ⟨rfl, rfl⟩ | ⟨rfl, rfl⟩ <;> simp
  · rw [visit, if_pos]
    rcases names with ⟨rfl, rfl⟩ | ⟨rfl, rfl⟩ <;> simp

/-- The first listing of a declaration decides the order of the family. -/
theorem orderAdtFamily_pairs {first second : Symbol × Symbol}
    (onFirst : IsWord first.1 ∧ IsWord first.2) (onSecond : IsWord second.1 ∧ IsWord second.2)
    (differ : first.1 ≠ second.1)
    (names : first.2 = "B" ∧ second.2 = "C" ∨ first.2 = "C" ∧ second.2 = "B")
    (known : adtDirectDependencies (pairDecl first second) = .ok [first.2, second.2]) :
    ∃ ordered, orderAdtFamily
        [pairDecl first second, pairDecl second first, bareDecl "B", bareDecl "C"] = .ok ordered ∧
      ordered.map (·.name) = [first.2, second.2, "A"] := by
  have same := adtShape_pairDecl onFirst onSecond
  have merged := mergeAdtDocs_pairDecl same differ
  have isFamily : uniqueFamily
      [pairDecl first second, pairDecl second first, bareDecl "B", bareDecl "C"] [] =
        .ok [("A", pairDecl first second), ("B", bareDecl "B"), ("C", bareDecl "C")] := by
    have pairName (one other : Symbol × Symbol) : (pairDecl one other).name = "A" := rfl
    have bareName (name : Symbol) : (bareDecl name).name = name := rfl
    simp [uniqueFamily, SymbolMap.insert, pairName, bareName, same, merged, List.lookup_cons,
      (by decide : ¬("B" : String) < "A"), (by decide : ¬("C" : String) < "A"),
      (by decide : ¬("C" : String) < "B")]
    rfl
  have isSearched := @search_pair
    (familyDependencies [("A", pairDecl first second), ("B", bareDecl "B"), ("C", bareDecl "C")])
    (fun name => .internal s!"missing ADT `{name}` during ordering")
    (fun cycle => .internal ("cyclic ADT auto-registration is not supported yet: " ++
      " -> ".intercalate cycle)) first.2 second.2 ?_ ?_ ?_ names
  · refine ⟨_, bind_eq_ok.mpr ⟨_, isFamily, bind_eq_ok.mpr ⟨_, isSearched, rfl⟩⟩, ?_⟩
    rcases names with ⟨isFirst, isSecond⟩ | ⟨isFirst, isSecond⟩
    · rw [isFirst, isSecond]
      rfl
    · rw [isFirst, isSecond]
      rfl
  · refine bind_eq_ok.mpr ⟨_, known, ?_⟩
    rcases names with ⟨isFirst, isSecond⟩ | ⟨isFirst, isSecond⟩
    · rw [isFirst, isSecond]
      rfl
    · rw [isFirst, isSecond]
      rfl
  · rcases names with ⟨isFirst, isSecond⟩ | ⟨isFirst, isSecond⟩
    · rw [isFirst]
      rfl
    · rw [isFirst]
      rfl
  · rcases names with ⟨isFirst, isSecond⟩ | ⟨isFirst, isSecond⟩
    · rw [isSecond]
      rfl
    · rw [isSecond]
      rfl

theorem mergeAdtDocs_wraps : mergeAdtDocs positionalWrap recordWrap =
    .ok (wrapDecl 0 (.record [⟨"value", .var ⟨5, none⟩, none⟩])) := by
  have same := (readable_positionalWrap.toOfWords.adtShape_eq_iff
    readable_recordWrap.toOfWords).mpr sameDeclaration_wraps.looksLike
  rw [mergeAdtDocs, if_neg (not_not_intro same), if_neg (by decide)]
  rfl

theorem orderAdtFamily_wraps : orderAdtFamily [positionalWrap, recordWrap] =
    .ok [wrapDecl 0 (.record [⟨"value", .var ⟨5, none⟩, none⟩])] := by
  have same := (readable_positionalWrap.toOfWords.adtShape_eq_iff
    readable_recordWrap.toOfWords).mpr sameDeclaration_wraps.looksLike
  have isFamily : uniqueFamily [positionalWrap, recordWrap] [] =
      .ok [("Wrap", wrapDecl 0 (.record [⟨"value", .var ⟨5, none⟩, none⟩]))] := by
    have positionalName : positionalWrap.name = "Wrap" := rfl
    have recordName : recordWrap.name = "Wrap" := rfl
    simp [uniqueFamily, SymbolMap.insert, positionalName, recordName, same, mergeAdtDocs_wraps]
    rfl
  have known : adtDirectDependencies (wrapDecl 0 (.record [⟨"value", .var ⟨5, none⟩, none⟩])) =
      .ok [] := by
    rw [adtDirectDependencies, collectAdtsInTypes, AdtDecl.fieldTypes]
    simp [wrapDecl, typ_recordWrap, Typ.userCons, Typ.userConsFields]
  refine bind_eq_ok.mpr ⟨_, isFamily, bind_eq_ok.mpr ⟨["Wrap"], ?_, rfl⟩⟩
  refine bind_eq_ok.mpr ⟨["Wrap"], ?_, rfl⟩
  rw [visit, if_neg (by decide), dif_neg (by decide), dif_pos (by decide)]
  exact bind_eq_ok.mpr ⟨[], bind_eq_ok.mpr ⟨[], known, rfl⟩, rfl⟩

end RexLang
