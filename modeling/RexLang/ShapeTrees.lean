import RexLang.JoinedLists

/-!
# Trees of shapes and their texts

Trees of applications, functions, tuples and records over words, written with brackets
and separators.  A text is read in one way, whatever follows it.
-/

namespace RexLang

/-! ## Words -/

/-- No space, comma, colon or bracket. -/
def IsWordChar (symbol : Char) : Prop :=
  symbol ∉ [' ', ',', ':', '(', ')', '[', ']', '\x7b', '\x7d']

instance : DecidablePred IsWordChar :=
  fun symbol => @instDecidableNot _ (List.instDecidableMemOfLawfulBEq symbol _)

/-- A word is not empty and has only characters of words. -/
def IsWord (text : String) : Prop :=
  text.toList ≠ [] ∧ ∀ symbol ∈ text.toList, IsWordChar symbol

instance : DecidablePred IsWord :=
  fun text => @instDecidableAnd _ _ inferInstance
    (List.decidableBAll (fun symbol => IsWordChar symbol) text.toList)

/-- A text that continues no word. -/
def Stops (rest : List Char) : Prop :=
  ∀ symbol ∈ rest.head?, ¬IsWordChar symbol

theorem stops_cons {symbol : Char} (notWord : ¬IsWordChar symbol) (rest : List Char) :
    Stops (symbol :: rest) := by
  simpa [Stops] using notWord

theorem IsWord.exists_cons {text : String} (isWord : IsWord text) :
    ∃ symbol rest, text.toList = symbol :: rest ∧ IsWordChar symbol := by
  obtain ⟨symbol, rest, same⟩ := List.exists_cons_of_ne_nil isWord.1
  exact ⟨symbol, rest, same, isWord.2 symbol (by simp [same])⟩

/-- Two words end at the same place. -/
theorem append_inj_of_stops {first second rest rest' : List Char}
    (isFirst : ∀ symbol ∈ first, IsWordChar symbol)
    (isSecond : ∀ symbol ∈ second, IsWordChar symbol) (stops : Stops rest) (stops' : Stops rest')
    (same : first ++ rest = second ++ rest') : first = second ∧ rest = rest' := by
  induction first generalizing second with
  | nil =>
      cases second with
      | nil => exact ⟨rfl, same⟩
      | cons symbol second =>
          rw [List.nil_append] at same
          exact absurd (isSecond symbol List.mem_cons_self) (stops symbol (by simp [same]))
  | cons symbol first hypothesis =>
      cases second with
      | nil =>
          rw [List.nil_append] at same
          exact absurd (isFirst symbol List.mem_cons_self) (stops' symbol (by simp [← same]))
      | cons other second =>
          rw [List.cons_append, List.cons_append, List.cons.injEq] at same
          obtain ⟨rfl, rfl⟩ := hypothesis (fun symbol member => isFirst symbol (.tail _ member))
            (fun symbol member => isSecond symbol (.tail _ member)) same.2
          exact ⟨by rw [same.1], rfl⟩

/-! ## Joined texts -/

section Joined

variable {First : Type} {render : First → List Char}

/-- Where both texts begin, the same is written. -/
def ReadOnce (render : First → List Char) (first second : First) : Prop :=
  ∀ rest rest', Stops rest → Stops rest' → render first ++ rest = render second ++ rest' →
    first = second ∧ rest = rest'

theorem ReadOnce.symm {first second : First} (once : ReadOnce render first second) :
    ReadOnce render second first := by
  intro rest rest' stops stops' same
  obtain ⟨rfl, rfl⟩ := once rest' rest stops' stops same.symm
  exact ⟨rfl, rfl⟩

/-- The text begins, and not with the character. -/
def OpensWithout (close : Char) (text : List Char) : Prop :=
  ∃ symbol rest, text = symbol :: rest ∧ symbol ≠ close

variable {mark close : Char} {more : List Char} {firsts seconds : List First}
  {rest rest' : List Char}

theorem stops_flatMap (notMark : ¬IsWordChar mark) (notClose : ¬IsWordChar close) :
    Stops (firsts.flatMap (fun first => mark :: more ++ render first) ++ close :: rest) := by
  cases firsts with
  | nil => exact stops_cons notClose rest
  | cons first firsts =>
      rw [List.flatMap_cons, List.append_assoc]
      exact stops_cons notMark _

/-- Marked texts before a closing character are read in one way. -/
theorem flatMap_inj (notMark : ¬IsWordChar mark) (notClose : ¬IsWordChar close)
    (apart : mark ≠ close)
    (each : ∀ first ∈ firsts, ∀ second ∈ seconds, ReadOnce render first second)
    (same : firsts.flatMap (fun first => mark :: more ++ render first) ++ close :: rest =
      seconds.flatMap (fun second => mark :: more ++ render second) ++ close :: rest') :
    firsts = seconds ∧ rest = rest' := by
  induction firsts generalizing seconds with
  | nil =>
      cases seconds with
      | nil => exact ⟨rfl, by simpa using same⟩
      | cons second seconds => exact absurd (List.cons.inj same).1.symm apart
  | cons first firsts hypothesis =>
      cases seconds with
      | nil => exact absurd (List.cons.inj same).1 apart
      | cons second seconds =>
          rw [List.flatMap_cons, List.flatMap_cons, List.append_assoc, List.append_assoc,
            List.append_assoc, List.append_assoc, List.append_cancel_left_eq] at same
          obtain ⟨rfl, sameRest⟩ := each first List.mem_cons_self second List.mem_cons_self _ _
            (stops_flatMap notMark notClose) (stops_flatMap notMark notClose) same
          obtain ⟨rfl, rfl⟩ := hypothesis
            (fun first member second isSecond => each first (.tail _ member) second (.tail _ isSecond))
            sameRest
          exact ⟨rfl, rfl⟩

theorem joined_cons (separator : List Char) (first : First) (firsts : List First) :
    separator.intercalate ((first :: firsts).map render) =
      render first ++ firsts.flatMap (fun first => separator ++ render first) := by
  rw [List.map_cons, intercalate_cons, List.flatMap_map]

/-- Joined texts before a closing character are read in one way. -/
theorem joined_inj (notMark : ¬IsWordChar mark) (notClose : ¬IsWordChar close)
    (apart : mark ≠ close)
    (each : ∀ first ∈ firsts, ∀ second ∈ seconds, ReadOnce render first second)
    (opensFirst : ∀ first ∈ firsts, OpensWithout close (render first))
    (opensSecond : ∀ second ∈ seconds, OpensWithout close (render second))
    (same : (mark :: more).intercalate (firsts.map render) ++ close :: rest =
      (mark :: more).intercalate (seconds.map render) ++ close :: rest') :
    firsts = seconds ∧ rest = rest' := by
  cases firsts with
  | nil =>
      cases seconds with
      | nil => exact ⟨rfl, by simpa using same⟩
      | cons second seconds =>
          obtain ⟨symbol, later, isText, notSame⟩ := opensSecond second List.mem_cons_self
          rw [joined_cons, isText] at same
          exact absurd (List.cons.inj same).1.symm notSame
  | cons first firsts =>
      cases seconds with
      | nil =>
          obtain ⟨symbol, later, isText, notSame⟩ := opensFirst first List.mem_cons_self
          rw [joined_cons, isText] at same
          exact absurd (List.cons.inj same).1 notSame
      | cons second seconds =>
          rw [joined_cons, joined_cons, List.append_assoc, List.append_assoc] at same
          obtain ⟨rfl, sameRest⟩ := each first List.mem_cons_self second List.mem_cons_self _ _
            (stops_flatMap notMark notClose) (stops_flatMap notMark notClose) same
          obtain ⟨rfl, rfl⟩ := flatMap_inj notMark notClose apart
            (fun first member second isSecond => each first (.tail _ member) second (.tail _ isSecond))
            sameRest
          exact ⟨rfl, rfl⟩

/-- What a space follows is not the first of joined texts. -/
theorem joined_ne_space (notMark : ¬IsWordChar mark) (notClose : ¬IsWordChar close)
    (markSpace : mark ≠ ' ') (closeSpace : close ≠ ' ') {first : First}
    (each : ∀ second ∈ seconds, ReadOnce render first second)
    (opens : OpensWithout close (render first)) :
    render first ++ ' ' :: rest ≠
      (mark :: more).intercalate (seconds.map render) ++ close :: rest' := by
  intro same
  cases seconds with
  | nil =>
      obtain ⟨symbol, later, isText, notSame⟩ := opens
      rw [isText] at same
      exact absurd (List.cons.inj same).1 notSame
  | cons second seconds =>
      rw [joined_cons, List.append_assoc] at same
      have sameRest := (each second List.mem_cons_self _ _ (stops_cons (by decide) rest)
        (stops_flatMap notMark notClose) same).2
      cases seconds with
      | nil => exact absurd (List.cons.inj sameRest).1.symm closeSpace
      | cons other seconds => exact absurd (List.cons.inj sameRest).1.symm markSpace

end Joined

/-! ## Trees -/

inductive ShapeTree (Leaf : Type) where
  | leaf (label : Leaf)
  | app (head arg : ShapeTree Leaf)
  | func (arg ret : ShapeTree Leaf)
  | tuple (elems : List (ShapeTree Leaf))
  | record (fields : List (String × ShapeTree Leaf))

namespace ShapeTree

variable {Leaf Other : Type}

mutual

def map (change : Leaf → Other) : ShapeTree Leaf → ShapeTree Other
  | .leaf label => .leaf (change label)
  | .app head arg => .app (map change head) (map change arg)
  | .func arg ret => .func (map change arg) (map change ret)
  | .tuple elems => .tuple (mapElems change elems)
  | .record fields => .record (mapFields change fields)

def mapElems (change : Leaf → Other) : List (ShapeTree Leaf) → List (ShapeTree Other)
  | [] => []
  | tree :: trees => map change tree :: mapElems change trees

def mapFields (change : Leaf → Other) :
    List (String × ShapeTree Leaf) → List (String × ShapeTree Other)
  | [] => []
  | (name, tree) :: fields => (name, map change tree) :: mapFields change fields

end

mutual

/-- The text of a tree of words. -/
def render : ShapeTree String → List Char
  | .leaf text => text.toList
  | .app head arg => '(' :: (render head ++ ' ' :: (render arg ++ [')']))
  | .func arg ret => '(' :: (render arg ++ ' ' :: '-' :: '>' :: ' ' :: (render ret ++ [')']))
  | .tuple elems => '(' :: ([',', ' '].intercalate (renderElems elems) ++ [')'])
  | .record fields => '\x7b' :: ([',', ' '].intercalate (renderFields fields) ++ ['\x7d'])

def renderElems : List (ShapeTree String) → List (List Char)
  | [] => []
  | tree :: trees => render tree :: renderElems trees

def renderFields : List (String × ShapeTree String) → List (List Char)
  | [] => []
  | (name, tree) :: fields => (name.toList ++ ':' :: ' ' :: render tree) :: renderFields fields

end

/-- The text of a field. -/
def renderField (field : String × ShapeTree String) : List Char :=
  field.1.toList ++ ':' :: ' ' :: render field.2

theorem renderElems_eq_map (elems : List (ShapeTree String)) :
    renderElems elems = elems.map render := by
  induction elems with
  | nil => rfl
  | cons elem elems hypothesis => rw [renderElems, hypothesis, List.map_cons]

theorem renderFields_eq_map (fields : List (String × ShapeTree String)) :
    renderFields fields = fields.map renderField := by
  induction fields with
  | nil => rfl
  | cons field fields hypothesis =>
      rw [renderFields, hypothesis, List.map_cons]
      rfl

/-- The leaves and the names of fields are words. -/
inductive OfWords : ShapeTree String → Prop where
  | leaf {text} (isWord : IsWord text) : OfWords (.leaf text)
  | app {head arg} (onHead : OfWords head) (onArg : OfWords arg) : OfWords (.app head arg)
  | func {arg ret} (onArg : OfWords arg) (onRet : OfWords ret) : OfWords (.func arg ret)
  | tuple {elems} (onElems : ∀ elem ∈ elems, OfWords elem) : OfWords (.tuple elems)
  | record {fields : List (String × ShapeTree String)} (names : ∀ field ∈ fields, IsWord field.1)
      (onFields : ∀ field ∈ fields, OfWords field.2) : OfWords (.record fields)

theorem OfWords.opens {tree : ShapeTree String} (ofWords : tree.OfWords) {close : Char}
    (notClose : ¬IsWordChar close) (notParen : '(' ≠ close) (notBrace : '\x7b' ≠ close) :
    OpensWithout close tree.render := by
  cases ofWords with
  | leaf isWord =>
      obtain ⟨symbol, rest, same, isChar⟩ := isWord.exists_cons
      refine ⟨symbol, rest, same, fun isClose => notClose (isClose ▸ isChar)⟩
  | app | func | tuple => exact ⟨'(', _, rfl, notParen⟩
  | record => exact ⟨'\x7b', _, rfl, notBrace⟩

/-- No word begins with a bracket. -/
theorem word_ne_bracket {text : String} (isWord : IsWord text) {bracket : Char}
    (notChar : ¬IsWordChar bracket) {rest rest' : List Char} :
    text.toList ++ rest ≠ bracket :: rest' := by
  intro same
  obtain ⟨symbol, later, isText, isChar⟩ := isWord.exists_cons
  rw [isText, List.cons_append, List.cons.injEq] at same
  exact notChar (same.1 ▸ isChar)

/-- An argument is not an arrow. -/
theorem OfWords.ne_arrow {tree : ShapeTree String} (ofWords : tree.OfWords)
    {rest rest' : List Char} :
    tree.render ++ ')' :: rest ≠ '-' :: '>' :: ' ' :: rest' := by
  cases ofWords with
  | leaf isWord =>
      intro same
      have isArrow : ∀ symbol ∈ ['-', '>'], IsWordChar symbol := by simp [IsWordChar]
      have parts := (append_inj_of_stops isWord.2 isArrow (stops_cons (by decide) rest)
        (stops_cons (by decide) rest') same).2
      exact absurd (List.cons.inj parts).1 (by decide)
  | app | func | tuple => exact fun same => absurd (List.cons.inj same).1 (by decide)
  | record => exact fun same => absurd (List.cons.inj same).1 (by decide)

theorem readOnce_field {field other : String × ShapeTree String} (isWord : IsWord field.1)
    (isOther : IsWord other.1) (once : ReadOnce render field.2 other.2) :
    ReadOnce renderField field other := by
  intro rest rest' stops stops' same
  rw [renderField, renderField, List.append_assoc, List.append_assoc] at same
  obtain ⟨sameName, sameRest⟩ := append_inj_of_stops isWord.2 isOther.2
    (stops_cons (by decide) _) (stops_cons (by decide) _) same
  obtain ⟨sameTree, sameEnd⟩ := once rest rest' stops stops' (by simpa using sameRest)
  exact ⟨Prod.ext (String.toList_inj.mp sameName) sameTree, sameEnd⟩

/-- The text of a tree of words is read in one way. -/
theorem OfWords.readOnce {first second : ShapeTree String} (onFirst : first.OfWords)
    (onSecond : second.OfWords) : ReadOnce render first second := by
  induction onFirst generalizing second with
  | leaf isWord =>
      intro rest rest' stops stops' same
      cases onSecond with
      | leaf isOther =>
          obtain ⟨sameText, sameRest⟩ := append_inj_of_stops isWord.2 isOther.2 stops stops' same
          exact ⟨congrArg ShapeTree.leaf (String.toList_inj.mp sameText), sameRest⟩
      | app | func | tuple => exact absurd same (word_ne_bracket isWord (by decide))
      | record => exact absurd same (word_ne_bracket isWord (by decide))
  | @app head arg onHead onArg headOnce argOnce =>
      intro rest rest' stops stops' same
      cases onSecond with
      | leaf isWord => exact absurd same.symm (word_ne_bracket isWord (by decide))
      | @app head' arg' onHead' onArg' =>
          simp only [render, List.cons_append, List.cons.injEq, true_and, List.append_assoc] at same
          obtain ⟨rfl, sameArg⟩ := headOnce onHead' _ _ (stops_cons (by decide) _)
            (stops_cons (by decide) _) same
          obtain ⟨rfl, sameRest⟩ := argOnce onArg' _ _ (stops_cons (by decide) _)
            (stops_cons (by decide) _) (List.cons.inj sameArg).2
          exact ⟨rfl, (List.cons.inj sameRest).2⟩
      | @func arg' ret' onArg' onRet' =>
          simp only [render, List.cons_append, List.cons.injEq, true_and, List.append_assoc] at same
          have sameArg := (headOnce onArg' _ _ (stops_cons (by decide) _)
            (stops_cons (by decide) _) same).2
          exact absurd (List.cons.inj sameArg).2 onArg.ne_arrow
      | tuple onElems =>
          simp only [render, renderElems_eq_map, List.cons_append, List.cons.injEq, true_and,
            List.append_assoc] at same
          exact absurd same (joined_ne_space (by decide) (by decide) (by decide) (by decide)
            (fun elem member => headOnce (onElems elem member))
            (onHead.opens (by decide) (by decide) (by decide)))
      | record => exact absurd (List.cons.inj same).1 (by decide)
  | @func arg ret onArg onRet argOnce retOnce =>
      intro rest rest' stops stops' same
      cases onSecond with
      | leaf isWord => exact absurd same.symm (word_ne_bracket isWord (by decide))
      | @app head' arg' onHead' onArg' =>
          simp only [render, List.cons_append, List.cons.injEq, true_and, List.append_assoc] at same
          have sameArg := (argOnce onHead' _ _ (stops_cons (by decide) _)
            (stops_cons (by decide) _) same).2
          exact absurd (List.cons.inj sameArg).2.symm onArg'.ne_arrow
      | @func arg' ret' onArg' onRet' =>
          simp only [render, List.cons_append, List.cons.injEq, true_and, List.append_assoc] at same
          obtain ⟨rfl, sameRet⟩ := argOnce onArg' _ _ (stops_cons (by decide) _)
            (stops_cons (by decide) _) same
          simp only [List.cons.injEq, true_and] at sameRet
          obtain ⟨rfl, sameRest⟩ := retOnce onRet' _ _ (stops_cons (by decide) _)
            (stops_cons (by decide) _) sameRet
          exact ⟨rfl, (List.cons.inj sameRest).2⟩
      | tuple onElems =>
          simp only [render, renderElems_eq_map, List.cons_append, List.cons.injEq, true_and,
            List.append_assoc] at same
          exact absurd same (joined_ne_space (by decide) (by decide) (by decide) (by decide)
            (fun elem member => argOnce (onElems elem member))
            (onArg.opens (by decide) (by decide) (by decide)))
      | record => exact absurd (List.cons.inj same).1 (by decide)
  | @tuple elems onElems elemsOnce =>
      intro rest rest' stops stops' same
      cases onSecond with
      | leaf isWord => exact absurd same.symm (word_ne_bracket isWord (by decide))
      | @app head' arg' onHead' onArg' =>
          simp only [render, renderElems_eq_map, List.cons_append, List.cons.injEq, true_and,
            List.append_assoc] at same
          exact absurd same.symm (joined_ne_space (by decide) (by decide) (by decide) (by decide)
            (fun elem member => (elemsOnce elem member onHead').symm)
            (onHead'.opens (by decide) (by decide) (by decide)))
      | @func arg' ret' onArg' onRet' =>
          simp only [render, renderElems_eq_map, List.cons_append, List.cons.injEq, true_and,
            List.append_assoc] at same
          exact absurd same.symm (joined_ne_space (by decide) (by decide) (by decide) (by decide)
            (fun elem member => (elemsOnce elem member onArg').symm)
            (onArg'.opens (by decide) (by decide) (by decide)))
      | @tuple elems' onElems' =>
          simp only [render, renderElems_eq_map, List.cons_append, List.cons.injEq, true_and,
            List.append_assoc] at same
          obtain ⟨rfl, sameRest⟩ := joined_inj (by decide) (by decide) (by decide)
            (fun elem member other isOther => elemsOnce elem member (onElems' other isOther))
            (fun elem member => (onElems elem member).opens (by decide) (by decide) (by decide))
            (fun elem member => (onElems' elem member).opens (by decide) (by decide) (by decide))
            same
          exact ⟨rfl, sameRest⟩
      | record => exact absurd (List.cons.inj same).1 (by decide)
  | @record fields names onFields fieldsOnce =>
      intro rest rest' stops stops' same
      cases onSecond with
      | leaf isWord => exact absurd same.symm (word_ne_bracket isWord (by decide))
      | app | func | tuple => exact absurd (List.cons.inj same).1 (by decide)
      | @record fields' names' onFields' =>
          simp only [render, renderFields_eq_map, List.cons_append, List.cons.injEq, true_and,
            List.append_assoc] at same
          have opens : ∀ field : String × ShapeTree String, IsWord field.1 →
              OpensWithout '\x7d' (renderField field) := by
            intro field isWord
            obtain ⟨symbol, later, isText, isChar⟩ := isWord.exists_cons
            refine ⟨symbol, later ++ ':' :: ' ' :: render field.2, by rw [renderField, isText]; rfl, ?_⟩
            rintro rfl
            exact absurd isChar (by decide)
          obtain ⟨rfl, sameRest⟩ := joined_inj (by decide) (by decide) (by decide)
            (fun field member other isOther => readOnce_field (names field member)
              (names' other isOther) (fieldsOnce field member (onFields' other isOther)))
            (fun field member => opens field (names field member))
            (fun field member => opens field (names' field member)) same
          exact ⟨rfl, sameRest⟩

end ShapeTree

end RexLang
