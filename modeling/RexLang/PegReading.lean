import RexLang.PegEngine
import RexLang.RexGrammar

/-!
# The recursive reading of a grammar

A grammar is a list of items with an index of its rules.  Its recursive reading
evaluates a parsing expression at a position with no memory of what was
evaluated before: a sequence stops at its first failure, a choice takes its first
success and stops at a committed failure, and a repetition stops at an iteration
that fails or does not advance.  The fuel bounds the nesting of the evaluation.
-/

namespace RexLang.Packrat

/-- The trait `Terminal`. -/
class Terminal (Kind Token : Type) where
  label : Kind → String
  accepts : Kind → Token → Bool

/-! ## Grammars -/

inductive Item (Rule Kind : Type) where
  | rule (rule : Rule) (expression : Peg Rule Kind)
  | comment (comment : String)

variable {Rule Kind Token : Type}

section Index

variable [DecidableEq Rule]

/-- The loop of `Grammar::from_items` over the items from an index on; a rule
defined twice has the index of its last definition. -/
def indexRules : Nat → List (Item Rule Kind) → (Rule → Option Nat) → Rule → Option Nat
  | _, [], indexes => indexes
  | index, .rule rule _ :: items, indexes =>
      indexRules (index + 1) items fun other => if other = rule then some index else indexes other
  | index, .comment _ :: items, indexes => indexRules (index + 1) items indexes

theorem indexRules_eq_some {items before : List (Item Rule Kind)} {indexes : Rule → Option Nat}
    (indexed : ∀ rule index, indexes rule = some index →
      ∃ expression, before[index]? = some (Item.rule rule expression))
    {rule : Rule} {index : Nat} (found : indexRules before.length items indexes rule = some index) :
    ∃ expression, (before ++ items)[index]? = some (Item.rule rule expression) := by
  induction items generalizing before indexes with
  | nil =>
      obtain ⟨expression, same⟩ := indexed rule index found
      exact ⟨expression, by simpa using same⟩
  | cons item items hypothesis =>
      have extend : ∀ {rule : Rule} {index : Nat}, (∃ expression, before[index]? =
          some (Item.rule rule expression)) →
          ∃ expression, (before ++ [item])[index]? = some (Item.rule rule expression) := by
        rintro rule index ⟨expression, same⟩
        obtain ⟨below, -⟩ := List.getElem?_eq_some_iff.mp same
        exact ⟨expression, by rw [List.getElem?_append_left below, same]⟩
      have rearranged : before ++ item :: items = before ++ [item] ++ items := by simp
      rw [rearranged]
      cases item with
      | rule defined expression =>
          refine hypothesis (fun other otherIndex same => ?_) (by simpa [indexRules] using found)
          by_cases isRule : other = defined
          · subst isRule
            simp only [if_true, Option.some.injEq] at same
            exact ⟨expression, by simp [← same]⟩
          · simp only [if_neg isRule] at same
            exact extend (indexed other otherIndex same)
      | comment comment =>
          exact hypothesis (fun other otherIndex same => extend (indexed other otherIndex same))
            (by simpa [indexRules] using found)

end Index

/-- `Grammar`; the index of a rule points at an item that defines it. -/
structure Grammar (Rule Kind : Type) where
  start : Rule
  items : List (Item Rule Kind)
  ruleIndexes : Rule → Option Nat
  indexed : ∀ rule index, ruleIndexes rule = some index →
    ∃ expression, items[index]? = some (.rule rule expression)

namespace Grammar

/-- `Grammar::from_items`. -/
def fromItems [DecidableEq Rule] (start : Rule) (items : List (Item Rule Kind)) :
    Grammar Rule Kind where
  start
  items
  ruleIndexes := indexRules 0 items fun _ => none
  indexed _ _ found := by
    simpa using @indexRules_eq_some _ _ _ items [] _ (by simp) _ _ found

/-- `Grammar::expression`; the source's unreachable branch, a rule index that
points at a comment, is excluded by `Grammar.indexed`. -/
def expression (grammar : Grammar Rule Kind) (rule : Rule) : Option (Peg Rule Kind) :=
  (grammar.ruleIndexes rule).bind fun index =>
    match grammar.items[index]? with
    | some (.rule _ expression) => some expression
    | _ => none

theorem mem_items_of_expression {grammar : Grammar Rule Kind} {rule : Rule}
    {expression : Peg Rule Kind} (defined : grammar.expression rule = some expression) :
    .rule rule expression ∈ grammar.items := by
  obtain ⟨index, isIndex, same⟩ := Option.bind_eq_some_iff.mp defined
  obtain ⟨other, isItem⟩ := grammar.indexed rule index isIndex
  rw [isItem] at same
  cases same
  exact List.mem_of_getElem? isItem

end Grammar

/-! ## Left recursion -/

section LeftRecursion

variable (Token) [EngineToken Token] [Terminal Kind Token] (grammar : Grammar Rule Kind)

/-- The expression may succeed without advancing.  A terminal does so when it
accepts the end of the file. -/
inductive Nullable : Peg Rule Kind → Prop where
  | token {kind : Kind} {token : Token} (isEof : EngineToken.isEof token = true)
      (accepts : Terminal.accepts kind token = true) : Nullable (.token kind)
  | rule {rule expression} (defined : grammar.expression rule = some expression)
      (nullable : Nullable expression) : Nullable (.rule rule)
  | seq {items} (nullable : ∀ item ∈ items, Nullable item) : Nullable (.seq items)
  | choice {item alternatives} (member : item ∈ alternatives) (nullable : Nullable item) :
      Nullable (.choice alternatives)
  | optional (item) : Nullable (.optional item)
  | repeat (item) : Nullable (.repeat item)
  | repeat1 {item} (nullable : Nullable item) : Nullable (.repeat1 item)
  | and (item) : Nullable (.and item)
  | not (item) : Nullable (.not item)
  | label {label item} (nullable : Nullable item) : Nullable (.label label item)
  | cut {item} (nullable : Nullable item) : Nullable (.cut item)

/-- The expression may try the rule at the position where it is itself tried. -/
inductive LeftCalls : Peg Rule Kind → Rule → Prop where
  | rule (rule) : LeftCalls (.rule rule) rule
  | seq {before item after callee} (nullable : ∀ earlier ∈ before, Nullable Token grammar earlier)
      (calls : LeftCalls item callee) : LeftCalls (.seq (before ++ item :: after)) callee
  | choice {item alternatives callee} (member : item ∈ alternatives)
      (calls : LeftCalls item callee) : LeftCalls (.choice alternatives) callee
  | optional {item callee} (calls : LeftCalls item callee) : LeftCalls (.optional item) callee
  | repeat {item callee} (calls : LeftCalls item callee) : LeftCalls (.repeat item) callee
  | repeat1 {item callee} (calls : LeftCalls item callee) : LeftCalls (.repeat1 item) callee
  | and {item callee} (calls : LeftCalls item callee) : LeftCalls (.and item) callee
  | not {item callee} (calls : LeftCalls item callee) : LeftCalls (.not item) callee
  | label {label item callee} (calls : LeftCalls item callee) :
      LeftCalls (.label label item) callee
  | cut {item callee} (calls : LeftCalls item callee) : LeftCalls (.cut item) callee

/-- The rule's expression may try the callee at the rule's own position. -/
def Grammar.LeftCalls (caller callee : Rule) : Prop :=
  ∃ expression, grammar.expression caller = some expression ∧
    Packrat.LeftCalls Token grammar expression callee

/-- Some rule may come back to itself before it has advanced. -/
def Grammar.LeftRecursive : Prop :=
  ∃ rule, Relation.TransGen (grammar.LeftCalls Token) rule rule

end LeftRecursion

/-! ## The reading -/

/-- What an expression comes to at a position. -/
inductive Outcome (Rule Token : Type) where
  | success (children : List (Cst Rule Token)) (next : Nat)
  | failure (failure : Failure)

namespace Outcome

/-- Children in front of those of a success. -/
def prepend (before : List (Cst Rule Token)) : Outcome Rule Token → Outcome Rule Token
  | .success children next => .success (before ++ children) next
  | .failure reason => .failure reason

/-- A failure that is not committed counts as an empty success. -/
def orEmpty (start : Nat) : Outcome Rule Token → Outcome Rule Token
  | .success children next => .success children next
  | .failure reason => if reason.committed then .failure reason else .success [] start

/-- The failure, if it is one, changed. -/
def mapFailure (change : Failure → Failure) : Outcome Rule Token → Outcome Rule Token
  | .success children next => .success children next
  | .failure reason => .failure (change reason)

variable [EngineToken Token]

/-- The outcome of a rule from that of its expression. -/
def node (source : TokenList Token) (rule : Rule) (start : Nat) :
    Outcome Rule Token → Outcome Rule Token
  | .success children next =>
      .success [.node ⟨rule, source.spanFromPositions start next, children⟩] next
  | .failure reason => .failure reason

/-- The outcome of a positive lookahead. -/
def lookahead (source : TokenList Token) (start : Nat) : Outcome Rule Token → Outcome Rule Token
  | .success _ _ => .success [] start
  | .failure _ => .failure (.new start (source.spanAt start) "lookahead")

/-- The outcome of a negative lookahead. -/
def negativeLookahead (source : TokenList Token) (start : Nat) :
    Outcome Rule Token → Outcome Rule Token
  | .success _ _ => .failure (.new start (source.spanAt start) "negative lookahead")
  | .failure _ => .success [] start

end Outcome

section Reading

variable [EngineToken Token] (source : TokenList Token)

/-- The items of a sequence, one after the other. -/
def readItems (read : Peg Rule Kind → Nat → Option (Outcome Rule Token)) :
    List (Peg Rule Kind) → Nat → Option (Outcome Rule Token)
  | [], pos => some (.success [] pos)
  | item :: items, pos =>
      (read item pos).bind fun
        | .success children next => (readItems read items next).map (.prepend children)
        | .failure failure => some (.failure failure)

/-- The alternatives of a choice, at one position.  The failures that are not
committed are merged. -/
def readAlternatives (read : Peg Rule Kind → Nat → Option (Outcome Rule Token)) (pos : Nat) :
    Option Failure → List (Peg Rule Kind) → Option (Outcome Rule Token)
  | failed, [] =>
      some (.failure (failed.getD (.new pos (source.spanAt pos) "alternative")))
  | failed, alternative :: alternatives =>
      (read alternative pos).bind fun
        | .success children next => some (.success children next)
        | .failure failure =>
            if failure.committed then some (.failure failure)
            else readAlternatives read pos
              (some (failed.elim failure (Failure.merge · failure))) alternatives

variable [Terminal Kind Token] (grammar : Grammar Rule Kind)

/-- The recursive reading of a parsing expression at a position. -/
def read : Nat → Peg Rule Kind → Nat → Option (Outcome Rule Token)
  | 0, _, _ => none
  | _ + 1, .token kind, pos =>
      if Terminal.accepts kind (source.tokenAt pos) then
        some (.success [.token (source.tokenAt pos)] (source.after pos))
      else some (.failure (.new pos (source.spanAt pos) (Terminal.label Token kind)))
  | fuel + 1, .rule rule, pos =>
      match grammar.expression rule with
      | some expression => (read fuel expression pos).map (.node source rule pos)
      | none => some (.failure (.new pos (source.spanAt pos) "grammar rule"))
  | fuel + 1, .seq items, pos => readItems (read fuel) items pos
  | fuel + 1, .choice alternatives, pos =>
      readAlternatives source (read fuel) pos none alternatives
  | fuel + 1, .optional item, pos => (read fuel item pos).map (.orEmpty pos)
  | fuel + 1, .repeat item, pos =>
      (read fuel item pos).bind fun
        | .success children next =>
            if next ≠ pos then (read fuel (.repeat item) next).map (.prepend children)
            else some (.success children next)
        | .failure failure => some (.orEmpty pos (.failure failure))
  | fuel + 1, .repeat1 item, pos =>
      (read fuel item pos).bind fun
        | .success children next => (read fuel (.repeat item) next).map (.prepend children)
        | .failure failure => some (.failure failure)
  | fuel + 1, .and item, pos => (read fuel item pos).map (.lookahead source pos)
  | fuel + 1, .not item, pos => (read fuel item pos).map (.negativeLookahead source pos)
  | fuel + 1, .label label item, pos =>
      (read fuel item pos).map (.mapFailure fun failure => { failure with expected := {label} })
  | fuel + 1, .cut item, pos => (read fuel item pos).map (.mapFailure .markCommitted)

/-- The recursive reading of the expression at the position ends with the
outcome. -/
def Reads (expression : Peg Rule Kind) (pos : Nat) (outcome : Outcome Rule Token) : Prop :=
  ∃ fuel, read source grammar fuel expression pos = some outcome

end Reading

end RexLang.Packrat
