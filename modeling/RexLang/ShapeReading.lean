import Mathlib.Data.Set.Function
import RexLang.AdtShapes
import RexLang.ShapeTrees

/-!
# What the text of a shape says

The shape of a declaration is written as a text.  Where all names are words, the text
says the name of the declaration and its variants up to their order, with a word for every
parameter, every other variable and every constructor.
-/

namespace RexLang

/-! ## Leaves -/

/-- A leaf of a type in a declaration: a parameter by its position, another variable, or a
constructor. -/
inductive ShapeLeaf where
  | param (index : Nat)
  | free (id : TypeVarId)
  | con (const : TypeConst)
deriving DecidableEq

/-- The word that the shape has for a leaf. -/
def ShapeLeaf.text : ShapeLeaf → String
  | .param index => "t" ++ toString index
  | .free id => "v" ++ toString id
  | .con const => const.nameStr

/-- The position of a variable among the parameters; of two with one variable the later. -/
def paramPosition (params : List AdtParam) (id : TypeVarId) : Option Nat :=
  (params.zipIdx.map fun entry => (entry.1.var.id, entry.2)).reverse.lookup id

def varLeaf (params : List AdtParam) (id : TypeVarId) : ShapeLeaf :=
  match paramPosition params id with
  | some index => .param index
  | none => .free id

/-! ## Trees of types -/

namespace Typ

mutual

/-- A type of a declaration, its parameters replaced by their positions. -/
def shapeTree (params : List AdtParam) : Typ → ShapeTree ShapeLeaf
  | .var typeVar => .leaf (varLeaf params typeVar.id)
  | .con const => .leaf (.con const)
  | .app head arg => .app (shapeTree params head) (shapeTree params arg)
  | .func arg ret => .func (shapeTree params arg) (shapeTree params ret)
  | .tuple elems => .tuple (shapeTrees params elems)
  | .record fields => .record (shapeFields params fields)

def shapeTrees (params : List AdtParam) : List Typ → List (ShapeTree ShapeLeaf)
  | [] => []
  | typ :: types => shapeTree params typ :: shapeTrees params types

def shapeFields (params : List AdtParam) :
    List (Symbol × Typ) → List (String × ShapeTree ShapeLeaf)
  | [] => []
  | (name, typ) :: fields => (name, shapeTree params typ) :: shapeFields params fields

end

end Typ

/-- A variant with the trees of its arguments. -/
abbrev VariantShape (Leaf : Type) :=
  Symbol × List (ShapeTree Leaf)

def AdtVariant.shape (params : List AdtParam) (variant : AdtVariant) : VariantShape ShapeLeaf :=
  (variant.name, variant.args.map fun arg => arg.typ.shapeTree params)

def AdtDecl.variantShapes (adt : AdtDecl) : List (VariantShape ShapeLeaf) :=
  adt.variants.map (AdtVariant.shape adt.params)

/-- Equal names and parameter counts and, with the parameters matched by position, equal
variants in some order. -/
structure AdtDecl.SameDeclaration (first second : AdtDecl) : Prop where
  name : first.name = second.name
  params : first.params.length = second.params.length
  variants : first.variantShapes.Perm second.variantShapes

/-- The words of a variant. -/
def wordShape (variant : VariantShape ShapeLeaf) : VariantShape String :=
  (variant.1, variant.2.map (ShapeTree.map ShapeLeaf.text))

/-- Equal up to leaves with the same word, and maybe with other parameter counts. -/
structure AdtDecl.LooksLike (first second : AdtDecl) : Prop where
  name : first.name = second.name
  variants : (first.variantShapes.map wordShape).Perm (second.variantShapes.map wordShape)

theorem AdtDecl.SameDeclaration.looksLike {first second : AdtDecl}
    (same : first.SameDeclaration second) : first.LooksLike second :=
  ⟨same.name, same.variants.map wordShape⟩

/-- `adt_shape_eq`. -/
def adtShapeEq (left right : AdtDecl) : Bool :=
  adtShape left == adtShape right

/-! ## Leaves with one word -/

/-- Leaves that share a word without being the same: a variable and a constructor with the
name of its word, or two constructors of one name. -/
inductive ShapeLeaf.Confused : ShapeLeaf → ShapeLeaf → Prop where
  | param {index const} (same : const.nameStr = "t" ++ toString index) :
      Confused (.param index) (.con const)
  | free {id const} (same : const.nameStr = "v" ++ toString id) : Confused (.free id) (.con const)
  | con {const other} (same : const.nameStr = other.nameStr) (differ : const ≠ other) :
      Confused (.con const) (.con other)

/-! ## Texts -/

section Texts

variable {params : List AdtParam}

theorem lookup_map_snd {First Second : Type} (change : First → Second)
    (entries : List (TypeVarId × First)) (id : TypeVarId) :
    (entries.map fun entry => (entry.1, change entry.2)).lookup id =
      (entries.lookup id).map change := by
  induction entries with
  | nil => rfl
  | cons entry entries hypothesis =>
      rw [List.map_cons, lookup_cons_eq_ite, lookup_cons_eq_ite, hypothesis]
      split
      · rfl
      · rfl

theorem lookup_shapeNames (id : TypeVarId) :
    ((shapeNames params).lookup id).getD ("v" ++ toString id) = (varLeaf params id).text := by
  have names : shapeNames params =
      ((params.zipIdx.map fun entry => (entry.1.var.id, entry.2)).reverse).map
        fun entry => (entry.1, "t" ++ toString entry.2) := by
    rw [shapeNames, List.map_reverse, List.map_map]
    rfl
  rw [names, lookup_map_snd fun index => "t" ++ toString index, varLeaf, ← paramPosition]
  cases paramPosition params id with
  | none => rfl
  | some index => rfl

theorem toList_normalizeTypeForShape (typ : Typ) :
    (normalizeTypeForShape (shapeNames params) typ).toList =
      ((typ.shapeTree params).map ShapeLeaf.text).render := by
  induction typ using Typ.inductionOn with
  | var typeVar =>
      rw [normalizeTypeForShape, lookup_shapeNames]
      rfl
  | con const => rfl
  | app head arg onHead onArg =>
      rw [normalizeTypeForShape]
      simp [Typ.shapeTree, ShapeTree.map, ShapeTree.render, onHead, onArg]
  | func arg ret onArg onRet =>
      rw [normalizeTypeForShape]
      simp [Typ.shapeTree, ShapeTree.map, ShapeTree.render, onArg, onRet]
  | tuple elems onElems =>
      have texts : (normalizeElemsForShape (shapeNames params) elems).map String.toList =
          ShapeTree.renderElems (ShapeTree.mapElems ShapeLeaf.text (Typ.shapeTrees params elems)) := by
        induction elems with
        | nil => rfl
        | cons elem elems hypothesis =>
            rw [normalizeElemsForShape, List.map_cons, onElems elem List.mem_cons_self,
              hypothesis fun other member => onElems other (.tail _ member)]
            rfl
      rw [normalizeTypeForShape]
      simp [Typ.shapeTree, ShapeTree.map, ShapeTree.render, String.toList_intercalate, texts]
  | record fields onFields =>
      have texts : (normalizeFieldsForShape (shapeNames params) fields).map String.toList =
          ShapeTree.renderFields
            (ShapeTree.mapFields ShapeLeaf.text (Typ.shapeFields params fields)) := by
        induction fields with
        | nil => rfl
        | cons field fields hypothesis =>
            rw [normalizeFieldsForShape, List.map_cons, String.toList_append, String.toList_append,
              onFields field List.mem_cons_self,
              hypothesis fun other member => onFields other (.tail _ member), List.append_assoc]
            rfl
      rw [normalizeTypeForShape]
      simp [Typ.shapeTree, ShapeTree.map, ShapeTree.render, String.toList_intercalate, texts]

/-- The text of a variant of words. -/
def renderVariant (variant : VariantShape String) : List Char :=
  variant.1.toList ++ '(' :: ([',', ' '].intercalate (variant.2.map ShapeTree.render) ++ [')'])

theorem toList_variantShape (variant : AdtVariant) :
    (variantShape (shapeNames params) variant).toList =
      renderVariant (wordShape (variant.shape params)) := by
  have texts : (variant.args.map fun arg =>
      normalizeTypeForShape (shapeNames params) arg.typ).map String.toList =
        ((variant.args.map fun arg => arg.typ.shapeTree params).map
          (ShapeTree.map ShapeLeaf.text)).map ShapeTree.render := by
    rw [List.map_map, List.map_map, List.map_map]
    exact List.map_congr_left fun arg _ => toList_normalizeTypeForShape arg.typ
  simp only [variantShape, String.toList_append, String.toList_intercalate, texts, renderVariant,
    wordShape, AdtVariant.shape]
  rw [List.append_assoc, List.append_assoc]
  rfl

end Texts

/-! ## Declarations of words -/

/-- The names of the declaration, of its variants, of the constructors and of the fields
in it are words. -/
structure AdtDecl.OfWords (adt : AdtDecl) : Prop where
  name : IsWord adt.name
  variants : ∀ variant ∈ adt.variants, IsWord variant.name
  args : ∀ variant ∈ adt.variants, ∀ arg ∈ variant.args, arg.typ.Every (fun _ => True)
    (fun const => IsWord const.nameStr) (fun labels => ∀ label ∈ labels, IsWord label)

theorem isWord_append_nat {letter : Char} (isChar : IsWordChar letter) (number : Nat) :
    IsWord (String.ofList [letter] ++ toString number) := by
  refine ⟨by simp, fun symbol member => ?_⟩
  rw [String.toList_append, List.mem_append] at member
  cases member with
  | inl member =>
      obtain rfl : symbol = letter := by simpa using member
      exact isChar
  | inr member =>
      rw [Nat.toString_eq_repr, Nat.toList_repr] at member
      have isDigit := Nat.isDigit_of_mem_toDigits (by decide) (by decide) member
      intro bracket
      simp only [List.mem_cons, List.not_mem_nil, or_false] at bracket
      rcases bracket with rfl | rfl | rfl | rfl | rfl | rfl | rfl | rfl | rfl
      all_goals exact absurd isDigit (by decide)

theorem isWord_varLeaf (params : List AdtParam) (id : TypeVarId) :
    IsWord (varLeaf params id).text := by
  rw [varLeaf]
  cases paramPosition params id with
  | none => exact @isWord_append_nat 'v' (by decide) id
  | some index => exact @isWord_append_nat 't' (by decide) index

theorem mem_mapElems_shapeTrees {params : List AdtParam} {elems : List Typ}
    {tree : ShapeTree String}
    (member : tree ∈ ShapeTree.mapElems ShapeLeaf.text (Typ.shapeTrees params elems)) :
    ∃ elem ∈ elems, (elem.shapeTree params).map ShapeLeaf.text = tree := by
  induction elems with
  | nil => cases member
  | cons elem elems hypothesis =>
      rw [Typ.shapeTrees, ShapeTree.mapElems, List.mem_cons] at member
      obtain rfl | member := member
      · exact ⟨elem, List.mem_cons_self, rfl⟩
      · obtain ⟨other, isOther, same⟩ := hypothesis member
        exact ⟨other, .tail _ isOther, same⟩

theorem mem_mapFields_shapeFields {params : List AdtParam} {fields : List (Symbol × Typ)}
    {field : String × ShapeTree String}
    (member : field ∈ ShapeTree.mapFields ShapeLeaf.text (Typ.shapeFields params fields)) :
    ∃ other ∈ fields, other.1 = field.1 ∧
      (other.2.shapeTree params).map ShapeLeaf.text = field.2 := by
  induction fields with
  | nil => cases member
  | cons other fields hypothesis =>
      rw [Typ.shapeFields, ShapeTree.mapFields, List.mem_cons] at member
      obtain rfl | member := member
      · exact ⟨other, List.mem_cons_self, rfl, rfl⟩
      · obtain ⟨another, isAnother, same⟩ := hypothesis member
        exact ⟨another, .tail _ isAnother, same⟩

theorem Typ.Every.ofWords {params : List AdtParam} {typ : Typ}
    (every : typ.Every (fun _ => True) (fun const => IsWord const.nameStr)
      (fun labels => ∀ label ∈ labels, IsWord label)) :
    ((typ.shapeTree params).map ShapeLeaf.text).OfWords := by
  induction every with
  | var => exact .leaf (isWord_varLeaf params _)
  | con isWord => exact .leaf isWord
  | app _ _ headWords argWords => exact .app headWords argWords
  | func _ _ argWords retWords => exact .func argWords retWords
  | tuple _ elemsWords =>
      refine .tuple fun tree member => ?_
      obtain ⟨elem, isElem, rfl⟩ := mem_mapElems_shapeTrees member
      exact elemsWords elem isElem
  | record labels _ fieldsWords =>
      refine .record (fun field member => ?_) (fun field member => ?_)
      · obtain ⟨other, isOther, sameName, -⟩ := mem_mapFields_shapeFields member
        exact sameName ▸ labels other.1 (List.mem_map_of_mem isOther)
      · obtain ⟨other, isOther, -, sameTree⟩ := mem_mapFields_shapeFields member
        exact sameTree ▸ fieldsWords other isOther

structure VariantShape.OfWords (variant : VariantShape String) : Prop where
  name : IsWord variant.1
  args : ∀ tree ∈ variant.2, tree.OfWords

theorem AdtDecl.OfWords.wordShape {adt : AdtDecl} (ofWords : adt.OfWords) :
    ∀ variant ∈ adt.variantShapes.map wordShape, VariantShape.OfWords variant := by
  intro shape member
  obtain ⟨_, isShape, rfl⟩ := List.mem_map.mp member
  obtain ⟨variant, isVariant, rfl⟩ := List.mem_map.mp isShape
  refine ⟨ofWords.variants variant isVariant, fun tree isTree => ?_⟩
  obtain ⟨_, isArgTree, rfl⟩ := List.mem_map.mp isTree
  obtain ⟨arg, isArg, rfl⟩ := List.mem_map.mp isArgTree
  exact (ofWords.args variant isVariant arg isArg).ofWords

/-- The text of a variant of words is read in one way. -/
theorem VariantShape.OfWords.readOnce {first second : VariantShape String}
    (onFirst : VariantShape.OfWords first) (onSecond : VariantShape.OfWords second) :
    ReadOnce renderVariant first second := by
  intro rest rest' stops stops' same
  simp only [renderVariant, List.append_assoc, List.cons_append, List.nil_append] at same
  obtain ⟨sameName, sameRest⟩ := append_inj_of_stops onFirst.name.2 onSecond.name.2
    (stops_cons (by decide) _) (stops_cons (by decide) _) same
  obtain ⟨sameArgs, sameEnd⟩ := joined_inj (by decide) (by decide) (by decide)
    (fun tree member other isOther =>
      (onFirst.args tree member).readOnce (onSecond.args other isOther))
    (fun tree member => (onFirst.args tree member).opens (by decide) (by decide) (by decide))
    (fun tree member => (onSecond.args tree member).opens (by decide) (by decide) (by decide))
    (List.cons.inj sameRest).2
  exact ⟨Prod.ext (String.toList_inj.mp sameName) sameArgs, sameEnd⟩

theorem VariantShape.OfWords.render_inj {first second : VariantShape String}
    (onFirst : VariantShape.OfWords first) (onSecond : VariantShape.OfWords second)
    (same : renderVariant first = renderVariant second) : first = second :=
  (onFirst.readOnce onSecond [] [] (by simp [Stops]) (by simp [Stops]) (by rw [same])).1

/-! ## Shapes -/

theorem mergeSort_eq_iff {first second : List String} :
    (first.mergeSort fun a b => decide (a ≤ b)) = second.mergeSort (fun a b => decide (a ≤ b)) ↔
      first.Perm second := by
  constructor
  · intro same
    exact (List.mergeSort_perm first _).symm.trans (same ▸ List.mergeSort_perm second _)
  · intro perm
    have sorted (list : List String) : (list.mergeSort fun a b => decide (a ≤ b)).Pairwise (· ≤ ·) :=
      List.pairwise_mergeSort' (· ≤ ·) list
    refine List.Perm.eq_of_pairwise (fun a b _ _ => le_antisymm) (sorted first) (sorted second) ?_
    exact ((List.mergeSort_perm first _).trans perm).trans (List.mergeSort_perm second _).symm

/-- Lists are permuted together with their images under an injection. -/
theorem perm_map_iff_of_injOn {First Second : Type} [Nonempty First] {change : First → Second}
    {firsts seconds : List First}
    (injective : Set.InjOn change {first | first ∈ firsts ∨ first ∈ seconds}) :
    (firsts.map change).Perm (seconds.map change) ↔ firsts.Perm seconds := by
  refine ⟨fun perm => ?_, fun perm => perm.map change⟩
  have inverse := injective.leftInvOn_invFunOn
  have back (list : List First) (inside : ∀ first ∈ list, first ∈ firsts ∨ first ∈ seconds) :
      (list.map change).map
        (Function.invFunOn change {first | first ∈ firsts ∨ first ∈ seconds}) = list := by
    rw [List.map_map]
    exact (List.map_congr_left fun first member => inverse (inside first member)).trans
      (List.map_id list)
  have images := perm.map (Function.invFunOn change {first | first ∈ firsts ∨ first ∈ seconds})
  rwa [back firsts fun _ => .inl, back seconds fun _ => .inr] at images

def variantText (variant : VariantShape String) : String :=
  String.ofList (renderVariant variant)

theorem toList_variantText (variant : VariantShape String) :
    (variantText variant).toList = renderVariant variant :=
  String.toList_ofList

theorem AdtDecl.variantTexts (adt : AdtDecl) :
    adt.variants.map (variantShape (shapeNames adt.params)) =
      (adt.variantShapes.map wordShape).map variantText := by
  rw [AdtDecl.variantShapes, List.map_map, List.map_map]
  refine List.map_congr_left fun variant _ => ?_
  rw [← String.toList_inj, toList_variantShape, Function.comp_apply, Function.comp_apply,
    toList_variantText]

/-- The variants' texts in the order of the shape. -/
def AdtDecl.sortedTexts (adt : AdtDecl) : List String :=
  ((adt.variantShapes.map wordShape).map variantText).mergeSort fun first second =>
    decide (first ≤ second)

theorem AdtDecl.toList_adtShape (adt : AdtDecl) :
    (adtShape adt).toList = adt.name.toList ++
      '[' :: ([' ', '|', ' '].intercalate (adt.sortedTexts.map String.toList) ++ [']']) := by
  simp only [adtShape, AdtDecl.variantTexts, String.toList_append, String.toList_intercalate,
    AdtDecl.sortedTexts]
  rw [List.append_assoc, List.append_assoc]
  rfl

theorem AdtDecl.exists_of_mem_sortedTexts {adt : AdtDecl} (ofWords : adt.OfWords) {text : String}
    (member : text ∈ adt.sortedTexts) :
    ∃ variant, VariantShape.OfWords variant ∧ text.toList = renderVariant variant := by
  rw [AdtDecl.sortedTexts, List.mem_mergeSort] at member
  obtain ⟨variant, isVariant, rfl⟩ := List.mem_map.mp member
  exact ⟨variant, ofWords.wordShape variant isVariant, toList_variantText variant⟩

theorem AdtDecl.LooksLike.of_sortedTexts {left right : AdtDecl} (onLeft : left.OfWords)
    (onRight : right.OfWords) (sameName : left.name = right.name)
    (same : left.sortedTexts = right.sortedTexts) : left.LooksLike right := by
  refine ⟨sameName, (perm_map_iff_of_injOn ?_).mp (mergeSort_eq_iff.1 same)⟩
  have onBoth : ∀ variant, variant ∈ left.variantShapes.map RexLang.wordShape ∨
      variant ∈ right.variantShapes.map RexLang.wordShape → VariantShape.OfWords variant :=
    fun variant inside => inside.elim (onLeft.wordShape variant) (onRight.wordShape variant)
  intro first isFirst second isSecond sameText
  refine (onBoth first isFirst).render_inj (onBoth second isSecond) ?_
  rw [← toList_variantText, sameText, toList_variantText]

/-- Declarations of words have one shape if and only if they look alike. -/
theorem AdtDecl.OfWords.adtShape_eq_iff {left right : AdtDecl} (onLeft : left.OfWords)
    (onRight : right.OfWords) : adtShape left = adtShape right ↔ left.LooksLike right := by
  constructor
  · intro same
    have lists := congrArg String.toList same
    rw [AdtDecl.toList_adtShape, AdtDecl.toList_adtShape] at lists
    obtain ⟨sameName, sameRest⟩ := append_inj_of_stops onLeft.name.2 onRight.name.2
      (stops_cons (by decide) _) (stops_cons (by decide) _) lists
    have each : ∀ first ∈ left.sortedTexts, ∀ second ∈ right.sortedTexts,
        ReadOnce String.toList first second := by
      intro first isFirst second isSecond rest rest' stops stops' sameTexts
      obtain ⟨variant, isVariant, sameFirst⟩ := AdtDecl.exists_of_mem_sortedTexts onLeft isFirst
      obtain ⟨other, isOther, sameSecond⟩ := AdtDecl.exists_of_mem_sortedTexts onRight isSecond
      rw [sameFirst, sameSecond] at sameTexts
      obtain ⟨rfl, sameEnd⟩ := isVariant.readOnce isOther rest rest' stops stops' sameTexts
      exact ⟨String.toList_inj.mp (sameFirst.trans sameSecond.symm), sameEnd⟩
    have opens (adt : AdtDecl) (ofWords : adt.OfWords) :
        ∀ text ∈ adt.sortedTexts, OpensWithout ']' text.toList := by
      intro text member
      obtain ⟨variant, isVariant, sameText⟩ := AdtDecl.exists_of_mem_sortedTexts ofWords member
      obtain ⟨symbol, rest, isName, isChar⟩ := isVariant.name.exists_cons
      refine ⟨symbol, _, by rw [sameText, renderVariant, isName, List.cons_append], ?_⟩
      rintro rfl
      exact absurd isChar (by decide)
    obtain ⟨sameTexts, -⟩ := joined_inj (by decide) (by decide) (by decide) each
      (opens left onLeft) (opens right onRight) (List.cons.inj sameRest).2
    exact .of_sortedTexts onLeft onRight (String.toList_inj.mp sameName) sameTexts
  · intro alike
    have same : left.sortedTexts = right.sortedTexts :=
      mergeSort_eq_iff.2 (alike.variants.map variantText)
    rw [← String.toList_inj, AdtDecl.toList_adtShape, AdtDecl.toList_adtShape, alike.name, same]

end RexLang
