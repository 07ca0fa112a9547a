import Mathlib.Order.WellFoundedSet
import RexLang.PegReading

/-!
# The reading of a grammar without left recursion

More fuel never changes an outcome, so a position and an expression have at most
one.  A success never goes back, and one that does not advance is of a nullable
expression.  Where no rule comes back to itself before it has advanced, every
expression has an outcome at every position.
-/

namespace RexLang

/-- Induction over parsing expressions, with the items of sequences and choices
as members. -/
@[elab_as_elim]
theorem Peg.inductionOn {Rule Kind : Type} {motive : Peg Rule Kind → Prop}
    (expression : Peg Rule Kind)
    (token : ∀ kind, motive (.token kind))
    (rule : ∀ rule, motive (.rule rule))
    (seq : ∀ items, (∀ item ∈ items, motive item) → motive (.seq items))
    (choice : ∀ alternatives, (∀ item ∈ alternatives, motive item) →
      motive (.choice alternatives))
    (optional : ∀ item, motive item → motive (.optional item))
    («repeat» : ∀ item, motive item → motive (.repeat item))
    (repeat1 : ∀ item, motive item → motive (.repeat1 item))
    (and : ∀ item, motive item → motive (.and item))
    (not : ∀ item, motive item → motive (.not item))
    (label : ∀ label item, motive item → motive (.label label item))
    (cut : ∀ item, motive item → motive (.cut item)) : motive expression :=
  @Peg.rec Rule Kind motive (fun items => ∀ item ∈ items, motive item) token rule seq choice
    optional «repeat» repeat1 and not label cut (by simp)
    (fun _ _ onHead onTail => by simpa using ⟨onHead, onTail⟩) expression

namespace Packrat

variable {Rule Kind Token : Type} [EngineToken Token] {source : TokenList Token}

/-! ## Fuel -/

/-- The second reader has every outcome of the first. -/
def Refines (first second : Peg Rule Kind → Nat → Option (Outcome Rule Token)) : Prop :=
  ∀ expression pos outcome, first expression pos = some outcome →
    second expression pos = some outcome

section Refinement

variable {first second : Peg Rule Kind → Nat → Option (Outcome Rule Token)}

omit [EngineToken Token] in
theorem Refines.readItems (refines : Refines first second) {items : List (Peg Rule Kind)}
    {pos : Nat} {outcome : Outcome Rule Token}
    (ends : readItems first items pos = some outcome) :
    Packrat.readItems second items pos = some outcome := by
  induction items generalizing pos outcome with
  | nil => exact ends
  | cons item items hypothesis =>
      obtain ⟨head, isHead, rest⟩ := Option.bind_eq_some_iff.mp ends
      rw [Packrat.readItems, refines item pos head isHead, Option.bind_some]
      cases head with
      | success children next =>
          obtain ⟨tail, isTail, rfl⟩ := Option.map_eq_some_iff.mp rest
          simp [hypothesis isTail]
      | failure reason => exact rest

theorem Refines.readAlternatives (refines : Refines first second)
    {alternatives : List (Peg Rule Kind)} {pos : Nat} {failed : Option Failure}
    {outcome : Outcome Rule Token}
    (ends : readAlternatives source first pos failed alternatives = some outcome) :
    Packrat.readAlternatives source second pos failed alternatives = some outcome := by
  induction alternatives generalizing failed with
  | nil => exact ends
  | cons alternative alternatives hypothesis =>
      obtain ⟨head, isHead, rest⟩ := Option.bind_eq_some_iff.mp ends
      rw [Packrat.readAlternatives, refines alternative pos head isHead, Option.bind_some]
      cases head with
      | success children next => exact rest
      | failure reason =>
          by_cases committed : reason.committed
          · simpa [committed] using rest
          · simp only [committed, Bool.false_eq_true, if_false] at rest ⊢
            exact hypothesis rest

end Refinement

variable [Terminal Kind Token] {grammar : Grammar Rule Kind}

theorem refines_read_succ (fuel : Nat) :
    Refines (read source grammar fuel) (read source grammar (fuel + 1)) := by
  induction fuel with
  | zero => exact fun _ _ _ ends => nomatch ends
  | succ fuel hypothesis =>
      have onMap : ∀ {item pos outcome} {change : Outcome Rule Token → Outcome Rule Token},
          (read source grammar fuel item pos).map change = some outcome →
          (read source grammar (fuel + 1) item pos).map change = some outcome := by
        rintro item pos outcome change ends
        obtain ⟨inner, isInner, rfl⟩ := Option.map_eq_some_iff.mp ends
        rw [hypothesis _ _ _ isInner, Option.map_some]
      intro expression pos outcome ends
      cases expression with
      | token kind => exact ends
      | rule rule =>
          rw [read] at ends ⊢
          cases defined : grammar.expression rule with
          | none => simpa [defined] using ends
          | some expression =>
              simp only [defined] at ends ⊢
              exact onMap ends
      | seq items => exact hypothesis.readItems ends
      | choice alternatives => exact hypothesis.readAlternatives ends
      | «repeat» item =>
          obtain ⟨head, isHead, rest⟩ := Option.bind_eq_some_iff.mp ends
          rw [read, hypothesis _ _ _ isHead, Option.bind_some]
          cases head with
          | success children next =>
              by_cases advanced : next ≠ pos
              · simp only [if_pos advanced] at rest ⊢
                exact onMap rest
              · simpa only [if_neg advanced] using rest
          | failure reason => exact rest
      | repeat1 item =>
          obtain ⟨head, isHead, rest⟩ := Option.bind_eq_some_iff.mp ends
          rw [read, hypothesis _ _ _ isHead, Option.bind_some]
          cases head with
          | success children next => exact onMap rest
          | failure reason => exact rest
      | optional item => exact onMap ends
      | and item => exact onMap ends
      | not item => exact onMap ends
      | label label item => exact onMap ends
      | cut item => exact onMap ends

theorem refines_read_of_le {fuel more : Nat} (le : fuel ≤ more) :
    Refines (read source grammar fuel) (read source grammar more) := by
  induction le with
  | refl => exact fun _ _ _ ends => ends
  | step _ hypothesis =>
      exact fun expression pos outcome ends =>
        refines_read_succ _ expression pos outcome (hypothesis expression pos outcome ends)

/-- An expression has at most one outcome at a position. -/
theorem Reads.unique {expression : Peg Rule Kind} {pos : Nat} {outcome other : Outcome Rule Token}
    (reads : Reads source grammar expression pos outcome)
    (readsOther : Reads source grammar expression pos other) : outcome = other := by
  obtain ⟨fuel, ends⟩ := reads
  obtain ⟨more, endsOther⟩ := readsOther
  have first := refines_read_of_le (Nat.le_max_left fuel more) _ _ _ ends
  have second := refines_read_of_le (Nat.le_max_right fuel more) _ _ _ endsOther
  exact Option.some.inj (first.symm.trans second)

/-! ## Positions -/

/-- A success from one position to another, of an expression that is nullable if
it did not advance. -/
structure Advances (source : TokenList Token) (start next : Nat) (nullable : Prop) : Prop where
  le : start ≤ next
  inside : start ≠ next → start < source.tokens.length
  nullable : start = next → nullable

theorem Advances.trans {start middle next : Nat} {first second both : Prop}
    (before : Advances source start middle first) (after : Advances source middle next second)
    (combine : first → second → both) : Advances source start next both where
  le := before.le.trans after.le
  inside advanced := by
    by_cases same : start = middle
    · subst same
      exact after.inside advanced
    · exact before.inside same
  nullable same := by
    have low := before.le
    have high := after.le
    exact combine (before.nullable (by omega)) (after.nullable (by omega))

theorem Advances.stay (start : Nat) {nullable : Prop} (holds : nullable) :
    Advances source start start nullable :=
  ⟨le_rfl, fun advanced => absurd rfl advanced, fun _ => holds⟩

theorem Advances.mono {start next : Nat} {nullable weaker : Prop}
    (advances : Advances source start next nullable) (implies : nullable → weaker) :
    Advances source start next weaker :=
  ⟨advances.le, advances.inside, fun same => implies (advances.nullable same)⟩

variable (grammar) in
/-- Every success of the reader advances, or is of a nullable expression. -/
def ReaderAdvances (source : TokenList Token)
    (reader : Peg Rule Kind → Nat → Option (Outcome Rule Token)) : Prop :=
  ∀ expression pos children next, reader expression pos = some (.success children next) →
    Advances source pos next (Nullable Token grammar expression)

section Readers

variable {reader : Peg Rule Kind → Nat → Option (Outcome Rule Token)}

theorem ReaderAdvances.readItems (advances : ReaderAdvances grammar source reader)
    {items : List (Peg Rule Kind)} {pos next : Nat} {children : List (Cst Rule Token)}
    (ends : readItems reader items pos = some (.success children next)) :
    Advances source pos next (∀ item ∈ items, Nullable Token grammar item) := by
  induction items generalizing pos children with
  | nil =>
      cases ends
      exact .stay _ fun _ member => nomatch member
  | cons item items hypothesis =>
      obtain ⟨head, isHead, rest⟩ := Option.bind_eq_some_iff.mp ends
      cases head with
      | success headChildren middle =>
          obtain ⟨tail, isTail, isSuccess⟩ := Option.map_eq_some_iff.mp rest
          cases tail with
          | success tailChildren last =>
              cases isSuccess
              exact (advances _ _ _ _ isHead).trans (hypothesis isTail)
                fun first others => by simpa using ⟨first, others⟩
          | failure reason => cases isSuccess
      | failure reason => cases rest

theorem ReaderAdvances.readAlternatives (advances : ReaderAdvances grammar source reader)
    {alternatives : List (Peg Rule Kind)} {pos next : Nat} {failed : Option Failure}
    {children : List (Cst Rule Token)}
    (ends : readAlternatives source reader pos failed alternatives =
      some (.success children next)) :
    Advances source pos next (∃ item ∈ alternatives, Nullable Token grammar item) := by
  induction alternatives generalizing failed with
  | nil => cases ends
  | cons alternative alternatives hypothesis =>
      obtain ⟨head, isHead, rest⟩ := Option.bind_eq_some_iff.mp ends
      cases head with
      | success headChildren last =>
          cases rest
          exact (advances _ _ _ _ isHead).mono fun nullable => ⟨alternative, by simp, nullable⟩
      | failure reason =>
          by_cases committed : reason.committed
          · simp [committed] at rest
          · simp only [committed, Bool.false_eq_true, if_false] at rest
            refine (hypothesis rest).mono ?_
            rintro ⟨item, member, nullable⟩
            exact ⟨item, by simp [member], nullable⟩

end Readers

/-- A success never goes back, leaves only tokens of the list behind, and is of a
nullable expression if it does not advance. -/
theorem readerAdvances_read (fuel : Nat) :
    ReaderAdvances grammar source (read source grammar fuel) := by
  induction fuel with
  | zero =>
      intro _ _ _ _ ends
      cases ends
  | succ fuel hypothesis =>
      intro expression pos children next ends
      cases expression with
      | token kind =>
          rw [read] at ends
          by_cases accepts : Terminal.accepts kind (source.tokenAt pos) = true
          · rw [if_pos accepts] at ends
            cases ends
            refine ⟨TokenList.le_after pos,
              fun advanced => TokenList.lt_length_of_after_ne advanced.symm, fun same => ?_⟩
            by_cases isEof : EngineToken.isEof (source.tokenAt pos) = true
            · exact .token isEof accepts
            · rw [TokenList.after, if_neg isEof] at same
              omega
          · rw [if_neg accepts] at ends
            cases ends
      | rule rule =>
          rw [read] at ends
          cases defined : grammar.expression rule with
          | none => simp [defined] at ends
          | some expression =>
              simp only [defined] at ends
              obtain ⟨inner, isInner, same⟩ := Option.map_eq_some_iff.mp ends
              cases inner with
              | success _ last =>
                  cases same
                  exact (hypothesis _ _ _ _ isInner).mono (.rule defined)
              | failure reason => cases same
      | seq items => exact (hypothesis.readItems ends).mono .seq
      | choice alternatives =>
          refine (hypothesis.readAlternatives ends).mono fun isNullable => ?_
          obtain ⟨_, member, nullable⟩ := isNullable
          exact .choice member nullable
      | optional item =>
          obtain ⟨inner, isInner, same⟩ := Option.map_eq_some_iff.mp ends
          cases inner with
          | success _ last =>
              cases same
              exact (hypothesis _ _ _ _ isInner).mono fun _ => .optional item
          | failure reason =>
              rw [Outcome.orEmpty] at same
              split_ifs at same
              cases same
              exact .stay pos (.optional item)
      | «repeat» item =>
          obtain ⟨head, isHead, rest⟩ := Option.bind_eq_some_iff.mp ends
          cases head with
          | success headChildren middle =>
              have first := hypothesis _ _ _ _ isHead
              by_cases advanced : middle ≠ pos
              · simp only [if_pos advanced] at rest
                obtain ⟨tail, isTail, same⟩ := Option.map_eq_some_iff.mp rest
                cases tail with
                | success _ last =>
                    cases same
                    exact first.trans (hypothesis _ _ _ _ isTail) fun _ _ => .repeat item
                | failure reason => cases same
              · simp only [if_neg advanced, Option.some.injEq] at rest
                cases rest
                exact first.mono fun _ => .repeat item
          | failure reason =>
              simp only [Option.some.injEq, Outcome.orEmpty] at rest
              split_ifs at rest
              cases rest
              exact .stay pos (.repeat item)
      | repeat1 item =>
          obtain ⟨head, isHead, rest⟩ := Option.bind_eq_some_iff.mp ends
          cases head with
          | success headChildren middle =>
              obtain ⟨tail, isTail, same⟩ := Option.map_eq_some_iff.mp rest
              cases tail with
              | success _ last =>
                  cases same
                  exact (hypothesis _ _ _ _ isHead).trans (hypothesis _ _ _ _ isTail)
                    fun nullable _ => .repeat1 nullable
              | failure reason => cases same
          | failure reason => cases rest
      | and item =>
          obtain ⟨inner, isInner, same⟩ := Option.map_eq_some_iff.mp ends
          cases inner with
          | success _ last =>
              cases same
              exact .stay pos (.and item)
          | failure reason => cases same
      | not item =>
          obtain ⟨inner, isInner, same⟩ := Option.map_eq_some_iff.mp ends
          cases inner with
          | success _ last => cases same
          | failure reason =>
              cases same
              exact .stay pos (.not item)
      | label label item =>
          obtain ⟨inner, isInner, same⟩ := Option.map_eq_some_iff.mp ends
          cases inner with
          | success _ last =>
              cases same
              exact (hypothesis _ _ _ _ isInner).mono .label
          | failure reason => cases same
      | cut item =>
          obtain ⟨inner, isInner, same⟩ := Option.map_eq_some_iff.mp ends
          cases inner with
          | success _ last =>
              cases same
              exact (hypothesis _ _ _ _ isInner).mono .cut
          | failure reason => cases same

/-! ## Termination -/

variable (source grammar) in
/-- The expression has an outcome at the position. -/
def Ends (expression : Peg Rule Kind) (pos : Nat) : Prop :=
  ∃ outcome, Reads source grammar expression pos outcome

/-- Either input was consumed since the start, or everything before was
nullable. -/
def Within (source : TokenList Token) (start next : Nat) (nullable : Prop) : Prop :=
  start < next ∧ start < source.tokens.length ∨ next = start ∧ nullable

theorem Within.advances {start next later : Nat} {before item both : Prop}
    (within : Within source start next before) (advances : Advances source next later item)
    (combine : before → item → both) : Within source start later both := by
  have le := advances.le
  obtain ⟨consumed, inside⟩ | ⟨rfl, nullable⟩ := within
  · exact .inl ⟨by omega, inside⟩
  · by_cases same : next = later
    · exact .inr ⟨same.symm, combine nullable (advances.nullable same)⟩
    · exact .inl ⟨by omega, advances.inside same⟩

theorem exists_readItems {start : Nat} {before items : List (Peg Rule Kind)} {pos : Nat}
    (within : Within source start pos (∀ item ∈ before, Nullable Token grammar item))
    (ends : ∀ middle item after later, items = middle ++ item :: after →
      Within source start later (∀ item ∈ before ++ middle, Nullable Token grammar item) →
      Ends source grammar item later) :
    ∃ fuel outcome, readItems (read source grammar fuel) items pos = some outcome := by
  induction items generalizing before pos with
  | nil => exact ⟨0, _, rfl⟩
  | cons item items hypothesis =>
      obtain ⟨head, fuel, isHead⟩ := ends [] item items pos rfl (by simpa using within)
      cases head with
      | failure reason => exact ⟨fuel, .failure reason, by simp [readItems, isHead]⟩
      | success children next =>
          have advances := readerAdvances_read fuel item pos children next isHead
          have further : Within source start next
              (∀ earlier ∈ before ++ [item], Nullable Token grammar earlier) :=
            within.advances advances fun nullable isNullable earlier member => by
              obtain inBefore | isItem := List.mem_append.mp member
              · exact nullable earlier inBefore
              · rw [List.mem_singleton.mp isItem]
                exact isNullable
          obtain ⟨more, tail, isTail⟩ := hypothesis further
            fun middle other after later same within =>
              ends (item :: middle) other after later (by rw [same]; rfl) (by simpa using within)
          refine ⟨max fuel more, tail.prepend children, ?_⟩
          have first := refines_read_of_le (Nat.le_max_left fuel more) _ _ _ isHead
          have second := (refines_read_of_le (Nat.le_max_right fuel more)).readItems isTail
          simp [readItems, first, second]

theorem exists_readAlternatives {alternatives : List (Peg Rule Kind)} {pos : Nat}
    (ends : ∀ alternative ∈ alternatives, Ends source grammar alternative pos)
    (failed : Option Failure) :
    ∃ fuel outcome,
      readAlternatives source (read source grammar fuel) pos failed alternatives =
        some outcome := by
  induction alternatives generalizing failed with
  | nil => exact ⟨0, _, rfl⟩
  | cons alternative alternatives hypothesis =>
      obtain ⟨head, fuel, isHead⟩ := ends alternative (by simp)
      cases head with
      | success children next =>
          exact ⟨fuel, .success children next, by simp [readAlternatives, isHead]⟩
      | failure reason =>
          by_cases committed : reason.committed
          · exact ⟨fuel, .failure reason, by simp [readAlternatives, isHead, committed]⟩
          · obtain ⟨more, tail, isTail⟩ := hypothesis
              (fun other member => ends other (by simp [member]))
              (some (failed.elim reason (Failure.merge · reason)))
            refine ⟨max fuel more, tail, ?_⟩
            have first := refines_read_of_le (Nat.le_max_left fuel more) _ _ _ isHead
            have second :=
              (refines_read_of_le (Nat.le_max_right fuel more)).readAlternatives isTail
            simp [readAlternatives, first, second, committed]

section Position

/-- Every expression has an outcome at every position further on. -/
def EndsBeyond (source : TokenList Token) (grammar : Grammar Rule Kind) (pos : Nat) : Prop :=
  ∀ later, pos < later → pos < source.tokens.length → ∀ expression,
    Ends source grammar expression later

variable {pos : Nat}

theorem ends_of_map {item expression : Peg Rule Kind}
    {change : Outcome Rule Token → Outcome Rule Token}
    (reads : ∀ fuel, read source grammar (fuel + 1) expression pos =
      (read source grammar fuel item pos).map change)
    (ends : Ends source grammar item pos) : Ends source grammar expression pos := by
  obtain ⟨outcome, fuel, isOutcome⟩ := ends
  exact ⟨change outcome, fuel + 1, by rw [reads, isOutcome, Option.map_some]⟩

theorem ends_repeat (beyond : EndsBeyond source grammar pos) {item : Peg Rule Kind}
    (ends : Ends source grammar item pos) : Ends source grammar (.repeat item) pos := by
  obtain ⟨head, fuel, isHead⟩ := ends
  cases head with
  | failure reason => exact ⟨_, fuel + 1, by rw [read, isHead]; rfl⟩
  | success children next =>
      by_cases advanced : next ≠ pos
      · have advances := readerAdvances_read fuel _ _ _ _ isHead
        have le := advances.le
        obtain ⟨tail, more, isTail⟩ :=
          beyond next (by omega) (advances.inside advanced.symm) (.repeat item)
        refine ⟨tail.prepend children, max fuel more + 1, ?_⟩
        have first := refines_read_of_le (Nat.le_max_left fuel more) _ _ _ isHead
        have second := refines_read_of_le (Nat.le_max_right fuel more) _ _ _ isTail
        simp [read, first, second, advanced]
      · exact ⟨.success children next, fuel + 1, by simp [read, isHead, advanced]⟩

theorem ends_repeat1 (beyond : EndsBeyond source grammar pos) {item : Peg Rule Kind}
    (ends : Ends source grammar item pos) : Ends source grammar (.repeat1 item) pos := by
  have again := ends_repeat beyond ends
  obtain ⟨head, fuel, isHead⟩ := ends
  cases head with
  | failure reason => exact ⟨.failure reason, fuel + 1, by simp [read, isHead]⟩
  | success children next =>
      have advances := readerAdvances_read fuel _ _ _ _ isHead
      have le := advances.le
      have rest : Ends source grammar (.repeat item) next := by
        by_cases same : pos = next
        · rwa [← same]
        · exact beyond next (by omega) (advances.inside same) _
      obtain ⟨tail, more, isTail⟩ := rest
      refine ⟨tail.prepend children, max fuel more + 1, ?_⟩
      have first := refines_read_of_le (Nat.le_max_left fuel more) _ _ _ isHead
      have second := refines_read_of_le (Nat.le_max_right fuel more) _ _ _ isTail
      simp [read, first, second]

/-- An expression ends at a position if the rules that it may try there do, and
everything ends further on. -/
theorem ends_of_leftCalls (beyond : EndsBeyond source grammar pos) (expression : Peg Rule Kind)
    (callees : ∀ callee, LeftCalls Token grammar expression callee →
      Ends source grammar (.rule callee) pos) : Ends source grammar expression pos := by
  induction expression using Peg.inductionOn with
  | token kind =>
      by_cases accepts : Terminal.accepts kind (source.tokenAt pos) = true
      · exact ⟨_, 1, by rw [read, if_pos accepts]⟩
      · exact ⟨_, 1, by rw [read, if_neg accepts]⟩
  | rule rule => exact callees rule (.rule rule)
  | seq items hypothesis =>
      have within : Within source pos pos
          (∀ item ∈ ([] : List (Peg Rule Kind)), Nullable Token grammar item) :=
        .inr ⟨rfl, by simp⟩
      obtain ⟨fuel, outcome, isOutcome⟩ : ∃ fuel outcome,
          readItems (read source grammar fuel) items pos = some outcome := by
        refine exists_readItems within fun middle item after later same within => ?_
        obtain ⟨consumed, inside⟩ | ⟨rfl, nullable⟩ := within
        · exact beyond later consumed inside item
        · subst same
          exact hypothesis item (by simp) fun callee calls =>
            callees callee (.seq (by simpa using nullable) calls)
      exact ⟨outcome, fuel + 1, isOutcome⟩
  | choice alternatives hypothesis =>
      obtain ⟨fuel, outcome, isOutcome⟩ := exists_readAlternatives
        (fun alternative member => hypothesis alternative member fun callee calls =>
          callees callee (.choice member calls)) none
      exact ⟨outcome, fuel + 1, isOutcome⟩
  | optional item hypothesis =>
      exact ends_of_map (fun _ => rfl)
        (hypothesis fun callee calls => callees callee (.optional calls))
  | «repeat» item hypothesis =>
      exact ends_repeat beyond (hypothesis fun callee calls => callees callee (.repeat calls))
  | repeat1 item hypothesis =>
      exact ends_repeat1 beyond (hypothesis fun callee calls => callees callee (.repeat1 calls))
  | and item hypothesis =>
      exact ends_of_map (fun _ => rfl)
        (hypothesis fun callee calls => callees callee (.and calls))
  | not item hypothesis =>
      exact ends_of_map (fun _ => rfl)
        (hypothesis fun callee calls => callees callee (.not calls))
  | label label item hypothesis =>
      exact ends_of_map (fun _ => rfl)
        (hypothesis fun callee calls => callees callee (.label calls))
  | cut item hypothesis =>
      exact ends_of_map (fun _ => rfl)
        (hypothesis fun callee calls => callees callee (.cut calls))

end Position

/-- Without left recursion, going from a rule to one that it may try at its own
position ends: only the rules that the grammar defines have such callees. -/
theorem Grammar.acc_leftCalls (grammar : Grammar Rule Kind)
    (notLeftRecursive : ¬ grammar.LeftRecursive Token) (rule : Rule) :
    Acc (fun callee caller => grammar.LeftCalls Token caller callee) rule := by
  let below : Rule → Rule → Prop := flip (Relation.TransGen (grammar.LeftCalls Token))
  have order : IsStrictOrder Rule below := {
    irrefl := fun rule comesBack => notLeftRecursive ⟨rule, comesBack⟩
    trans := fun _ _ _ first second => second.trans first }
  have finite : {rule | ∃ expression, grammar.expression rule = some expression}.Finite := by
    refine (grammar.items.filterMap fun
      | .rule rule _ => some rule
      | .comment _ => none).finite_toSet.subset ?_
    rintro rule ⟨expression, defined⟩
    exact List.mem_filterMap.mpr ⟨_, Grammar.mem_items_of_expression defined, rfl⟩
  by_cases defined : ∃ expression, grammar.expression rule = some expression
  · refine finite.wellFoundedOn.induction (r := below) defined fun caller _ hypothesis => ?_
    refine .intro caller fun callee calls => ?_
    by_cases isDefined : ∃ expression, grammar.expression callee = some expression
    · exact hypothesis callee isDefined (.single calls)
    · exact .intro callee fun _ ⟨expression, found, _⟩ => absurd ⟨expression, found⟩ isDefined
  · exact .intro rule fun _ ⟨expression, found, _⟩ => absurd ⟨expression, found⟩ defined

/-- Where there is no left recursion, the reading of every expression ends at
every position: either input is consumed, or the rule tried is a lower one, or
the expression is smaller. -/
theorem ends_of_not_leftRecursive (notLeftRecursive : ¬ grammar.LeftRecursive Token)
    (expression : Peg Rule Kind) (pos : Nat) : Ends source grammar expression pos := by
  induction remaining : source.tokens.length - pos using Nat.strong_induction_on
    generalizing expression pos with
  | _ remaining hypothesis =>
      have beyond : EndsBeyond source grammar pos := fun later consumed inside expression =>
        hypothesis (source.tokens.length - later) (by omega) expression later rfl
      have rules (rule : Rule) : Ends source grammar (.rule rule) pos := by
        induction grammar.acc_leftCalls notLeftRecursive rule with
        | intro rule _ callees =>
            cases defined : grammar.expression rule with
            | none => exact ⟨_, 1, by simp [read, defined]; rfl⟩
            | some expression =>
                have ends := ends_of_leftCalls beyond expression fun callee calls =>
                  callees callee ⟨expression, defined, calls⟩
                obtain ⟨outcome, fuel, isOutcome⟩ := ends
                exact ⟨outcome.node source rule pos, fuel + 1, by simp [read, defined, isOutcome]⟩
      exact ends_of_leftCalls beyond expression fun callee _ => rules callee

end Packrat

end RexLang
