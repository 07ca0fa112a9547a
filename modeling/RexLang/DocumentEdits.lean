import Mathlib.Data.Nat.ModEq
import RexLang.DocumentFormatting

/-!
# Edits of documents

How a client reads the positions of an edit: lines end with a line feed, a carriage return or
both, and characters are UTF-16 code units.  The range that the server counts is the whole
document only for some texts.
-/

namespace RexLang

/-! ## Documents of code units -/

/-- The UTF-16 code units of a character. -/
def utf16Units (symbol : Char) : List Nat :=
  if symbol.toNat < 2 ^ 16 then [symbol.toNat]
  else [0xD800 + (symbol.toNat - 2 ^ 16) / 2 ^ 10, 0xDC00 + (symbol.toNat - 2 ^ 16) % 2 ^ 10]

def encodeUtf16 (text : List Char) : List Nat :=
  text.flatMap utf16Units

/-- A line ends with a unit; of a pair it is the second one. -/
def closesLine (unit : Nat) (units : List Nat) : Bool :=
  unit == 10 || unit == 13 && units.head? != some 10

/-- The offset of a position.  A character after the end of its line stands for that end. -/
def offsetAt : List Nat → Nat → Nat → Nat
  | [], _, _ => 0
  | unit :: units, 0, character =>
      if unit = 10 ∨ unit = 13 ∨ character = 0 then 0
      else offsetAt units 0 (character - 1) + 1
  | unit :: units, line + 1, character =>
      offsetAt units (if closesLine unit units then line else line + 1) character + 1

def DocumentPosition.offset (position : DocumentPosition) (units : List Nat) : Nat :=
  offsetAt units position.line position.character

/-- What an edit leaves of a document. -/
def TextEdit.apply (edit : TextEdit) (units : List Nat) : List Nat :=
  units.take (edit.range.start.offset units) ++ encodeUtf16 edit.newText.toList ++
    units.drop (edit.range.end.offset units)

/-- The range of an edit is the whole document. -/
def TextEdit.ReplacesAll (edit : TextEdit) (units : List Nat) : Prop :=
  edit.range.start.offset units = 0 ∧ edit.range.end.offset units = units.length

/-! ## The end of a document -/

def lineEnds : List Nat → Nat
  | [] => 0
  | unit :: units => (closesLine unit units).toNat + lineEnds units

/-- The units after the last end of a line. -/
def lastLineLength : List Nat → Nat
  | [] => 0
  | unit :: units =>
      if lineEnds units = 0 ∧ unit ≠ 10 ∧ unit ≠ 13 then lastLineLength units + 1
      else lastLineLength units

theorem closesLine_return {units : List Nat} (notPair : units.head? ≠ some 10) :
    closesLine 13 units = true := by
  simpa [closesLine] using notPair

theorem lineEnds_pos {unit : Nat} {units : List Nat} (ends : unit = 10 ∨ unit = 13) :
    0 < lineEnds (unit :: units) := by
  obtain rfl | rfl := ends
  · exact Nat.add_pos_left Nat.one_pos _
  · by_cases isPair : units.head? = some 10
    · obtain ⟨units, rfl⟩ := List.head?_eq_some_iff.mp isPair
      exact Nat.add_pos_right _ (Nat.add_pos_left Nat.one_pos _)
    · rw [lineEnds, closesLine_return isPair]
      exact Nat.add_pos_left Nat.one_pos _

theorem closesLine_of_ordinary {unit : Nat} (ordinary : unit ≠ 10 ∧ unit ≠ 13)
    (units : List Nat) : closesLine unit units = false := by
  simp [closesLine, ordinary]

/-- A position stands for the end of a document if it is on the last line and not before the end
of that line, or on no line. -/
theorem offsetAt_eq_length_iff (units : List Nat) (line character : Nat) :
    offsetAt units line character = units.length ↔
      lineEnds units < line ∨ lineEnds units = line ∧ lastLineLength units ≤ character := by
  induction units generalizing line character with
  | nil =>
      rw [offsetAt, lineEnds, lastLineLength, List.length_nil]
      omega
  | cons unit units hypothesis =>
      cases line with
      | zero =>
          rw [offsetAt, List.length_cons]
          by_cases ends : unit = 10 ∨ unit = 13
          · have positive : 0 < lineEnds (unit :: units) := lineEnds_pos ends
            rw [if_pos (by tauto)]
            omega
          · have ordinary : unit ≠ 10 ∧ unit ≠ 13 := not_or.mp ends
            have sameEnds : lineEnds (unit :: units) = lineEnds units := by
              rw [lineEnds, closesLine_of_ordinary ordinary, Bool.toNat_false, Nat.zero_add]
            rw [sameEnds, lastLineLength]
            by_cases atStart : character = 0
            · rw [if_pos (by tauto)]
              by_cases oneLine : lineEnds units = 0
              · rw [if_pos ⟨oneLine, ordinary⟩]
                omega
              · omega
            · rw [if_neg (by tauto), Nat.succ_inj, hypothesis]
              by_cases oneLine : lineEnds units = 0
              · rw [if_pos ⟨oneLine, ordinary⟩]
                omega
              · omega
      | succ line =>
          rw [offsetAt, List.length_cons, Nat.succ_inj, hypothesis, lineEnds, lastLineLength]
          cases closes : closesLine unit units with
          | true =>
              have ends : ¬ (lineEnds units = 0 ∧ unit ≠ 10 ∧ unit ≠ 13) := by
                rintro ⟨-, ordinary⟩
                rw [closesLine_of_ordinary ordinary] at closes
                cases closes
              rw [if_pos rfl, if_neg ends, Bool.toNat_true]
              omega
          | false =>
              rw [if_neg Bool.false_ne_true, Bool.toNat_false]
              by_cases oneLine : lineEnds units = 0 ∧ unit ≠ 10 ∧ unit ≠ 13
              · omega
              · rw [if_neg oneLine]
                omega

/-! ## The counters of the server -/

/-- The carriage returns that are not before a line feed. -/
def loneReturns : List Char → Nat
  | [] => 0
  | symbol :: text =>
      (symbol == '\r' && text.head? != some '\n').toNat + loneReturns text

/-- The characters after the last line feed. -/
def afterLastFeed : List Char → List Char
  | [] => []
  | symbol :: text =>
      if '\n' ∈ text then afterLastFeed text
      else if symbol = '\n' then text
      else symbol :: text

theorem afterLastFeed_of_noFeed {text : List Char} (noFeed : '\n' ∉ text) :
    afterLastFeed text = text := by
  cases text with
  | nil => rfl
  | cons symbol text =>
      rw [List.mem_cons, not_or] at noFeed
      rw [afterLastFeed, if_neg noFeed.2, if_neg (Ne.symm noFeed.1)]

theorem foldl_countSymbol (text : List Char) {line character : Nat} (lineFits : line < 2 ^ 32)
    (characterFits : character < 2 ^ 32) :
    text.foldl countSymbol ⟨line, character⟩ =
      ⟨(line + text.count '\n') % 2 ^ 32,
        ((if '\n' ∈ text then 0 else character) + (afterLastFeed text).length) % 2 ^ 32⟩ := by
  induction text generalizing line character with
  | nil =>
      rw [if_neg List.not_mem_nil, List.foldl_nil]
      congr 1
      · exact (Nat.mod_eq_of_lt lineFits).symm
      · exact (Nat.mod_eq_of_lt characterFits).symm
  | cons symbol text hypothesis =>
      rw [List.foldl_cons, countSymbol, List.count_cons, afterLastFeed]
      by_cases isFeed : symbol = '\n'
      · subst isFeed
        have counted : (line + 1) % 2 ^ 32 + text.count '\n' ≡ line + (text.count '\n' + 1)
            [MOD 2 ^ 32] := by
          rw [Nat.add_comm (text.count '\n') 1, ← Nat.add_assoc]
          exact (Nat.mod_modEq _ _).add_right _
        rw [if_pos rfl, hypothesis (Nat.mod_lt _ (by omega)) (by omega), counted,
          beq_self_eq_true, if_pos rfl, if_pos (List.mem_cons_self ..), ite_self]
        by_cases more : '\n' ∈ text
        · rw [if_pos more]
        · rw [if_neg more, if_pos rfl, afterLastFeed_of_noFeed more]
      · rw [if_neg isFeed, hypothesis lineFits (Nat.mod_lt _ (by omega)),
          beq_eq_false_iff_ne.mpr isFeed, if_neg Bool.false_ne_true]
        by_cases more : '\n' ∈ text
        · rw [if_pos more, if_pos more, if_pos (List.mem_cons_of_mem _ more)]
          rfl
        · have noFeed : '\n' ∉ symbol :: text := by
            rw [List.mem_cons, not_or]
            exact ⟨Ne.symm isFeed, more⟩
          have counted : character + (symbol :: text).length = character + 1 + text.length := by
            rw [List.length_cons]
            omega
          rw [if_neg more, if_neg more, if_neg isFeed, if_neg noFeed, Nat.mod_add_mod, counted,
            afterLastFeed_of_noFeed more]
          rfl

theorem end_fullDocumentRange (text : String) :
    (fullDocumentRange text).end = ⟨text.toList.count '\n' % 2 ^ 32,
      (afterLastFeed text.toList).length % 2 ^ 32⟩ := by
  rw [fullDocumentRange, foldl_countSymbol _ (by omega) (by omega), Nat.zero_add, ite_self,
    Nat.zero_add]

/-! ## The range and the document -/

theorem toNat_eq_iff (symbol other : Char) : symbol.toNat = other.toNat ↔ symbol = other :=
  ⟨fun same => Char.ext (UInt32.toNat_inj.mp same), congrArg Char.toNat⟩

/-- A character is one unit, or two that end no line. -/
theorem utf16Units_cases (symbol : Char) :
    symbol.toNat < 2 ^ 16 ∧ utf16Units symbol = [symbol.toNat] ∨
      ¬ symbol.toNat < 2 ^ 16 ∧ ∃ high low, utf16Units symbol = [high, low] ∧
        (high ≠ 10 ∧ high ≠ 13) ∧ low ≠ 10 ∧ low ≠ 13 := by
  by_cases basic : symbol.toNat < 2 ^ 16
  · exact .inl ⟨basic, if_pos basic⟩
  · exact .inr ⟨basic, _, _, if_neg basic, by omega, by omega⟩

theorem encodeUtf16_cons (symbol : Char) (text : List Char) :
    encodeUtf16 (symbol :: text) = utf16Units symbol ++ encodeUtf16 text :=
  List.flatMap_cons

theorem head?_encodeUtf16 (text : List Char) :
    (encodeUtf16 text).head? = some 10 ↔ text.head? = some '\n' := by
  cases text with
  | nil => simp [encodeUtf16]
  | cons symbol text =>
      rw [encodeUtf16_cons]
      obtain ⟨-, isUnit⟩ | ⟨large, high, low, isPair, highOther, -⟩ := utf16Units_cases symbol
      · rw [isUnit]
        simpa using toNat_eq_iff symbol '\n'
      · have notFeed : symbol ≠ '\n' := by
          rintro rfl
          exact large (by decide)
        simp [isPair, highOther, notFeed]

theorem lineEnds_ordinary {unit : Nat} (ordinary : unit ≠ 10 ∧ unit ≠ 13) (units : List Nat) :
    lineEnds (unit :: units) = lineEnds units := by
  rw [lineEnds, closesLine_of_ordinary ordinary, Bool.toNat_false, Nat.zero_add]

theorem lastLineLength_ordinary {unit : Nat} (ordinary : unit ≠ 10 ∧ unit ≠ 13)
    {units : List Nat} (oneLine : lineEnds units = 0) :
    lastLineLength (unit :: units) = lastLineLength units + 1 :=
  if_pos ⟨oneLine, ordinary⟩

theorem lastLineLength_of_lineEnds {unit : Nat} {units : List Nat}
    (more : ¬ (lineEnds units = 0 ∧ unit ≠ 10 ∧ unit ≠ 13)) :
    lastLineLength (unit :: units) = lastLineLength units :=
  if_neg more

/-- The lines of the protocol are those that line feeds end, and more where a carriage return
stands alone. -/
theorem lineEnds_encodeUtf16 (text : List Char) :
    lineEnds (encodeUtf16 text) = text.count '\n' + loneReturns text := by
  induction text with
  | nil => rfl
  | cons symbol text hypothesis =>
      rw [encodeUtf16_cons, List.count_cons, loneReturns]
      obtain ⟨-, isUnit⟩ | ⟨large, high, low, isPair, highOther, lowOther⟩ :=
        utf16Units_cases symbol
      · have closes : closesLine symbol.toNat (encodeUtf16 text) =
            (symbol == '\n' || symbol == '\r' && text.head? != some '\n') := by
          have isFeed : (symbol.toNat == 10) = (symbol == '\n') :=
            Bool.eq_iff_iff.mpr (by simpa using toNat_eq_iff symbol '\n')
          have isReturn : (symbol.toNat == 13) = (symbol == '\r') :=
            Bool.eq_iff_iff.mpr (by simpa using toNat_eq_iff symbol '\r')
          have sameHead : ((encodeUtf16 text).head? != some 10) = (text.head? != some '\n') :=
            Bool.eq_iff_iff.mpr (by simpa using not_congr (head?_encodeUtf16 text))
          rw [closesLine, isFeed, isReturn, sameHead]
        rw [isUnit, List.singleton_append, lineEnds, closes, hypothesis]
        by_cases isFeed : symbol = '\n'
        · subst isFeed
          simp
          omega
        · rw [beq_eq_false_iff_ne.mpr isFeed, Bool.false_or, if_neg Bool.false_ne_true]
          omega
      · have other : symbol ≠ '\n' ∧ symbol ≠ '\r' := by
          constructor <;> rintro rfl <;> exact large (by decide)
        rw [isPair]
        change lineEnds (high :: low :: encodeUtf16 text) = _
        rw [lineEnds_ordinary highOther, lineEnds_ordinary lowOther, hypothesis]
        simp [other]

theorem loneReturns_of_cons {symbol : Char} {text : List Char}
    (paired : loneReturns (symbol :: text) = 0) :
    (symbol = '\r' → text.head? = some '\n') ∧ loneReturns text = 0 := by
  rw [loneReturns, Nat.add_eq_zero_iff] at paired
  refine ⟨fun isReturn => ?_, paired.2⟩
  by_contra notPair
  have lone : (text.head? != some '\n') = true := bne_iff_ne.mpr notPair
  rw [isReturn, beq_self_eq_true, lone] at paired
  cases paired.1

/-- If no carriage return stands alone, both count the characters of the last line from the last
line feed. -/
theorem lastLineLength_encodeUtf16 (text : List Char) (paired : loneReturns text = 0) :
    lastLineLength (encodeUtf16 text) = (encodeUtf16 (afterLastFeed text)).length := by
  induction text with
  | nil => rfl
  | cons symbol text hypothesis =>
      obtain ⟨isPaired, pairedRest⟩ := loneReturns_of_cons paired
      have restEnds : lineEnds (encodeUtf16 text) = text.count '\n' := by
        rw [lineEnds_encodeUtf16, pairedRest, Nat.add_zero]
      rw [encodeUtf16_cons, afterLastFeed]
      by_cases more : '\n' ∈ text
      · have several : lineEnds (encodeUtf16 text) ≠ 0 := by
          rw [restEnds]
          exact (List.count_pos_iff.mpr more).ne'
        rw [if_pos more, ← hypothesis pairedRest]
        obtain ⟨-, isUnit⟩ | ⟨-, high, low, isPair, -, lowOther⟩ := utf16Units_cases symbol
        · rw [isUnit]
          exact lastLineLength_of_lineEnds fun both => several both.1
        · rw [isPair]
          change lastLineLength (high :: low :: encodeUtf16 text) = _
          rw [lastLineLength_of_lineEnds, lastLineLength_of_lineEnds fun both => several both.1]
          rw [lineEnds_ordinary lowOther]
          exact fun both => several both.1
      · have oneLine : lineEnds (encodeUtf16 text) = 0 := by
          rw [restEnds, List.count_eq_zero_of_not_mem more]
        have restLength := hypothesis pairedRest
        rw [afterLastFeed_of_noFeed more] at restLength
        have notReturn : symbol ≠ '\r' := fun isReturn =>
          more (List.mem_of_head? (isPaired isReturn))
        rw [if_neg more]
        by_cases isFeed : symbol = '\n'
        · rw [if_pos isFeed, isFeed, ← restLength]
          exact lastLineLength_of_lineEnds fun both => both.2.1 rfl
        · rw [if_neg isFeed, encodeUtf16_cons, List.length_append, ← restLength]
          obtain ⟨-, isUnit⟩ | ⟨-, high, low, isPair, highOther, lowOther⟩ :=
            utf16Units_cases symbol
          · have ordinary : symbol.toNat ≠ 10 ∧ symbol.toNat ≠ 13 :=
              ⟨fun same => isFeed ((toNat_eq_iff symbol '\n').mp same),
                fun same => notReturn ((toNat_eq_iff symbol '\r').mp same)⟩
            rw [isUnit]
            exact (lastLineLength_ordinary ordinary oneLine).trans (Nat.add_comm _ _)
          · rw [isPair]
            change lastLineLength (high :: low :: encodeUtf16 text) = _
            rw [lastLineLength_ordinary highOther, lastLineLength_ordinary lowOther oneLine]
            · exact Nat.add_comm _ 2
            · rw [lineEnds_ordinary lowOther, oneLine]

/-- The units of a text are no more than its characters just if all characters are of the basic
plane. -/
theorem length_encodeUtf16_le_iff (text : List Char) :
    text.length ≤ (encodeUtf16 text).length ∧
      ((encodeUtf16 text).length ≤ text.length ↔ ∀ symbol ∈ text, symbol.toNat < 2 ^ 16) := by
  induction text with
  | nil => simp [encodeUtf16]
  | cons symbol text hypothesis =>
      rw [encodeUtf16_cons, List.length_append, List.length_cons, List.forall_mem_cons,
        ← hypothesis.2]
      obtain ⟨basic, isUnit⟩ | ⟨large, high, low, isPair, -⟩ := utf16Units_cases symbol
      · rw [isUnit, List.length_singleton]
        refine ⟨by omega, ?_⟩
        rw [and_iff_right basic]
        omega
      · rw [isPair]
        refine ⟨by simp only [List.length_cons]; omega, ?_⟩
        rw [iff_false_right fun both => large both.1]
        simp only [List.length_cons, List.length_nil]
        omega

/-- The protocol counts the lines and the characters of a text as the server does. -/
structure CountedAlike (text : List Char) : Prop where
  noLoneReturn : loneReturns text = 0
  basicPlane : ∀ symbol ∈ afterLastFeed text, symbol.toNat < 2 ^ 16
  linesFit : text.count '\n' < 2 ^ 32
  charactersFit : (afterLastFeed text).length < 2 ^ 32

theorem replacesAll_iff (text newText : String) :
    (TextEdit.mk (fullDocumentRange text) newText).ReplacesAll (encodeUtf16 text.toList) ↔
      CountedAlike text.toList := by
  generalize isText : text.toList = chars
  have start : offsetAt (encodeUtf16 chars) 0 0 = 0 := by
    cases encodeUtf16 chars with
    | nil => rfl
    | cons unit units => exact if_pos (.inr (.inr rfl))
  have isEnd := end_fullDocumentRange text
  rw [isText] at isEnd
  have counted := length_encodeUtf16_le_iff (afterLastFeed chars)
  have lineBound := Nat.mod_le (chars.count '\n') (2 ^ 32)
  have characterBound := Nat.mod_le (afterLastFeed chars).length (2 ^ 32)
  change offsetAt (encodeUtf16 chars) 0 0 = 0 ∧
    (fullDocumentRange text).end.offset (encodeUtf16 chars) = (encodeUtf16 chars).length ↔ _
  rw [and_iff_right start, isEnd]
  change offsetAt (encodeUtf16 chars) (chars.count '\n' % 2 ^ 32)
    ((afterLastFeed chars).length % 2 ^ 32) = _ ↔ _
  rw [offsetAt_eq_length_iff, lineEnds_encodeUtf16]
  constructor
  · rintro (before | ⟨sameLine, enough⟩)
    · omega
    · have paired : loneReturns chars = 0 := by omega
      rw [lastLineLength_encodeUtf16 chars paired] at enough
      refine ⟨paired, counted.2.mp (enough.trans characterBound), ?_, ?_⟩
      · rw [paired, Nat.add_zero] at sameLine
        rw [sameLine]
        exact Nat.mod_lt _ (by omega)
      · exact (counted.1.trans enough).trans_lt (Nat.mod_lt _ (by omega))
  · intro alike
    rw [Nat.mod_eq_of_lt alike.linesFit, Nat.mod_eq_of_lt alike.charactersFit,
      lastLineLength_encodeUtf16 chars alike.noLoneReturn, alike.noLoneReturn]
    exact .inr ⟨rfl, counted.2.mpr alike.basicPlane⟩

theorem apply_of_replacesAll {edit : TextEdit} {units : List Nat}
    (whole : edit.ReplacesAll units) : edit.apply units = encodeUtf16 edit.newText.toList := by
  rw [TextEdit.apply, whole.1, whole.2, List.drop_length, List.append_nil]
  rfl

end RexLang
