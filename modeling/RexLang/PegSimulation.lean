import Mathlib.Computability.StateTransition
import RexLang.PegInterpreter
import RexLang.PegTermination

/-!
# The interpreter follows the reading

The memo table only holds outcomes of the recursive reading.  While it does, the
evaluation of an expression on top of any stack comes back to that stack with
the outcome that the reading has, whatever was memoized meanwhile.
-/

namespace RexLang.Packrat

open StateTransition

variable {Rule Kind Token : Type} [EngineToken Token] {source : TokenList Token}

/-! ## Outcomes of the loop -/

def Outcome.result : Outcome Rule Token → Except Failure (List (Cst Rule Token))
  | .success children _ => .ok children
  | .failure reason => .error reason

/-- Where the cursor is left: after a success where the outcome says, after a
failure at the mark, if there is one. -/
def Outcome.LeavesAt (outcome : Outcome Rule Token) (mark : Option Nat) (cursor : Nat) : Prop :=
  match outcome with
  | .success _ next => cursor = next
  | .failure _ => ∀ start ∈ mark, cursor = start

omit [EngineToken Token] in
theorem Outcome.leavesAt_unmarked (reason : Failure) (cursor : Nat) :
    (Outcome.failure reason : Outcome Rule Token).LeavesAt none cursor := by
  intro _ isMark
  cases isMark

def MemoEntry.outcome : MemoEntry Rule Token → Outcome Rule Token
  | .success value next => .success [.node value] next
  | .failure reason => .failure reason

variable [DecidableEq Rule] [Terminal Kind Token] {grammar : Grammar Rule Kind}

/-- The memo table only holds what the reading of the grammar comes to. -/
def Remembers (grammar : Grammar Rule Kind) (parser : GrammarParser Rule source) : Prop :=
  ∀ rule pos entry, parser.memo (rule, pos) = some entry →
    Reads source grammar (.rule rule) pos entry.outcome

omit [DecidableEq Rule] in
theorem remembers_new (engine : Engine source) :
    Remembers grammar (GrammarParser.new engine) :=
  fun _ _ _ found => nomatch found

theorem Remembers.memoize {parser : GrammarParser Rule source} (remembers : Remembers grammar parser)
    {rule : Rule} {start : Nat} {entry : MemoEntry Rule Token}
    (reads : Reads source grammar (.rule rule) start entry.outcome) :
    Remembers grammar (parser.memoize rule start entry) := by
  intro other pos found isFound
  by_cases same : (other, pos) = (rule, start)
  · cases same
    simp only [GrammarParser.memoize, Function.update_self, Option.some.injEq] at isFound
    rwa [← isFound]
  · simp only [GrammarParser.memoize, Function.update_of_ne same] at isFound
    exact remembers other pos found isFound

variable (grammar) in
/-- An iteration of the loop after which the memo table holds only outcomes of
the reading. -/
def Advance (state next : LoopState Rule Kind source) : Prop :=
  next ∈ step grammar state ∧ Remembers grammar next.parser

variable (grammar) in
/-- The loop comes from the state to an outcome on top of the stack. -/
def Comes (state : LoopState Rule Kind source) (frames : List (Frame Rule Kind Token))
    (mark : Option Nat) (outcome : Outcome Rule Token) : Prop :=
  ∃ parser, Relation.ReflTransGen (Advance grammar) state ⟨.ready outcome.result, frames, parser⟩ ∧
    Remembers grammar parser ∧ outcome.LeavesAt mark parser.engine.pos

section Rules

variable {state next : LoopState Rule Kind source} {frames : List (Frame Rule Kind Token)}
  {frame : Frame Rule Kind Token} {mark : Option Nat} {inner outcome : Outcome Rule Token}
  {parser : GrammarParser Rule source}

theorem Comes.done (remembers : Remembers grammar parser)
    (leaves : outcome.LeavesAt mark parser.engine.pos) :
    Comes grammar ⟨.ready outcome.result, frames, parser⟩ frames mark outcome :=
  ⟨parser, .refl, remembers, leaves⟩

theorem Comes.step (isNext : step grammar state = some next)
    (remembers : Remembers grammar next.parser) (comes : Comes grammar next frames mark outcome) :
    Comes grammar state frames mark outcome := by
  obtain ⟨last, run, facts⟩ := comes
  exact ⟨last, .head ⟨isNext, remembers⟩ run, facts⟩

/-- The evaluation below a frame, and then what the frame does with its
outcome. -/
theorem Comes.resume (comes : Comes grammar state (frame :: frames) none inner)
    (rest : ∀ parser : GrammarParser Rule source, Remembers grammar parser →
      inner.LeavesAt none parser.engine.pos →
      Comes grammar ⟨.ready inner.result, frame :: frames, parser⟩ frames mark outcome) :
    Comes grammar state frames mark outcome := by
  obtain ⟨middle, run, remembers, leaves⟩ := comes
  obtain ⟨last, further, facts⟩ := rest middle remembers leaves
  exact ⟨last, run.trans further, facts⟩

/-- A frame that passes an outcome on. -/
theorem Comes.pop {result : Except Failure (List (Cst Rule Token))}
    {after : GrammarParser Rule source}
    (applied : applyFrame parser frame result = (.ready outcome.result, after))
    (remembers : Remembers grammar after) (leaves : outcome.LeavesAt mark after.engine.pos) :
    Comes grammar ⟨.ready result, frame :: frames, parser⟩ frames mark outcome :=
  .step (by rw [Packrat.step, applied]) remembers (.done remembers leaves)

/-- A frame that evaluates another expression. -/
theorem Comes.push {result : Except Failure (List (Cst Rule Token))}
    {after : GrammarParser Rule source} {again : Frame Rule Kind Token}
    {expression : Peg Rule Kind}
    (applied : applyFrame parser frame result = (.pushAndEval again expression, after))
    (remembers : Remembers grammar after)
    (comes : Comes grammar ⟨.eval expression, again :: frames, after⟩ frames mark outcome) :
    Comes grammar ⟨.ready result, frame :: frames, parser⟩ frames mark outcome := by
  have first : Packrat.step grammar ⟨.ready result, frame :: frames, parser⟩ =
      some ⟨.pushAndEval again expression, frames, after⟩ := by
    rw [Packrat.step, applied]
  exact .step first remembers (.step rfl remembers comes)

theorem Comes.forget (comes : Comes grammar state frames mark outcome) :
    Comes grammar state frames none outcome := by
  obtain ⟨last, run, remembers, leaves⟩ := comes
  refine ⟨last, run, remembers, ?_⟩
  cases outcome with
  | success children next => exact leaves
  | failure reason => exact Outcome.leavesAt_unmarked reason _

end Rules

/-! ## One expression -/

variable (grammar) in
/-- The loop evaluates every expression to the outcome that the reader has, on
top of every stack. -/
def Follows (source : TokenList Token)
    (reader : Peg Rule Kind → Nat → Option (Outcome Rule Token)) : Prop :=
  ∀ expression pos outcome, reader expression pos = some outcome →
    ∀ (parser : GrammarParser Rule source) frames, Remembers grammar parser →
      parser.engine.pos = pos → Comes grammar ⟨.eval expression, frames, parser⟩ frames none outcome

variable (grammar) in
/-- The loop takes a repetition up to the outcome that the reader has, from any
number of children already read. -/
def FollowsRepeat (source : TokenList Token)
    (reader : Peg Rule Kind → Nat → Option (Outcome Rule Token)) : Prop :=
  ∀ item pos outcome, reader (.repeat item) pos = some outcome →
    ∀ (parser : GrammarParser Rule source) frames children failures, Remembers grammar parser →
      parser.engine.pos = pos →
      Comes grammar ⟨.eval item, .repeat item children pos pos failures :: frames, parser⟩ frames
        none (outcome.prepend children)

section Forms

variable {reader : Peg Rule Kind → Nat → Option (Outcome Rule Token)} {pos : Nat}
  {parser : GrammarParser Rule source} {frames : List (Frame Rule Kind Token)}
  {outcome : Outcome Rule Token}

omit [DecidableEq Rule] [Terminal Kind Token] [EngineToken Token] in
theorem Outcome.prepend_prepend (first second : List (Cst Rule Token))
    (outcome : Outcome Rule Token) :
    (outcome.prepend second).prepend first = outcome.prepend (first ++ second) := by
  cases outcome <;> simp [Outcome.prepend]

omit [DecidableEq Rule] [Terminal Kind Token] [EngineToken Token] in
theorem Outcome.prepend_nil (outcome : Outcome Rule Token) : outcome.prepend [] = outcome := by
  cases outcome <;> rfl

/-- The rest of a sequence, from the evaluation of its next item. -/
theorem Follows.items (follows : Follows grammar source reader) {item : Peg Rule Kind}
    {rest items : List (Peg Rule Kind)} {next : Nat} (isRest : items.drop next = rest)
    (ends : readItems reader (item :: rest) pos = some outcome)
    (remembers : Remembers grammar parser) (isPos : parser.engine.pos = pos)
    (children : List (Cst Rule Token)) (mark : Nat) :
    Comes grammar ⟨.eval item, .seq items next children mark :: frames, parser⟩ frames none
      (outcome.prepend children) := by
  induction rest generalizing item next pos parser children outcome with
  | nil =>
      obtain ⟨head, isHead, isOutcome⟩ := Option.bind_eq_some_iff.mp ends
      refine (follows item pos head isHead parser _ remembers isPos).resume
        fun after remembers leaves => ?_
      have none : items[next]? = none := by
        rw [← List.head?_drop, isRest, List.head?_nil]
      cases head with
      | success found later =>
          cases isOutcome
          exact .pop (by simp [applyFrame, none, Outcome.result, Outcome.prepend]) remembers leaves
      | failure reason =>
          cases isOutcome
          exact .pop rfl remembers (Outcome.leavesAt_unmarked reason _)
  | cons following rest hypothesis =>
      obtain ⟨head, isHead, isOutcome⟩ := Option.bind_eq_some_iff.mp ends
      refine (follows item pos head isHead parser _ remembers isPos).resume
        fun after remembers leaves => ?_
      have isFollowing : items[next]? = some following := by
        rw [← List.head?_drop, isRest, List.head?_cons]
      have isTail : items.drop (next + 1) = rest := by
        rw [← List.drop_drop, isRest, List.drop_one, List.tail_cons]
      cases head with
      | success found later =>
          obtain ⟨tail, endsTail, rfl⟩ := Option.map_eq_some_iff.mp isOutcome
          rw [Outcome.prepend_prepend]
          exact .push (by simp only [applyFrame, isFollowing, Outcome.result]) remembers
            (hypothesis isTail endsTail remembers leaves (children ++ found))
      | failure reason =>
          cases isOutcome
          exact .pop rfl remembers (Outcome.leavesAt_unmarked reason _)

/-- The rest of a choice, from the evaluation of its next alternative. -/
theorem Follows.alternatives (follows : Follows grammar source reader)
    {alternative : Peg Rule Kind} {rest alternatives : List (Peg Rule Kind)} {next : Nat}
    (isRest : alternatives.drop next = rest) (failed : Option Failure)
    (ends : readAlternatives source reader pos failed (alternative :: rest) = some outcome)
    (remembers : Remembers grammar parser) (isPos : parser.engine.pos = pos)
    (failures : FailureTracker) :
    Comes grammar
      ⟨.eval alternative, .choice alternatives next pos failures failed :: frames, parser⟩ frames
      none outcome := by
  induction rest generalizing alternative next parser failed with
  | nil =>
      obtain ⟨head, isHead, isOutcome⟩ := Option.bind_eq_some_iff.mp ends
      refine (follows alternative pos head isHead parser _ remembers isPos).resume
        fun after remembers leaves => ?_
      have none : alternatives[next]? = none := by
        rw [← List.head?_drop, isRest, List.head?_nil]
      cases head with
      | success found later =>
          cases isOutcome
          exact .pop rfl remembers leaves
      | failure reason =>
          by_cases committed : reason.committed
          · simp only [if_pos committed] at isOutcome
            cases isOutcome
            exact .pop (by simp [applyFrame, committed, Outcome.result]) remembers
              (Outcome.leavesAt_unmarked _ _)
          · simp only [if_neg committed] at isOutcome
            cases isOutcome
            have failed : applyFrame after (.choice alternatives next pos failures failed)
                (.error reason) =
                (.ready (.error (failed.elim reason (Failure.merge · reason))),
                  ((after.restore pos).restoreFailures failures).recordFailure
                    (failed.elim reason (Failure.merge · reason))) := by
              cases failed <;> simp [applyFrame, committed, none, mergeFailure]
            exact .pop failed remembers (Outcome.leavesAt_unmarked _ _)
  | cons following rest hypothesis =>
      obtain ⟨head, isHead, isOutcome⟩ := Option.bind_eq_some_iff.mp ends
      refine (follows alternative pos head isHead parser _ remembers isPos).resume
        fun after remembers leaves => ?_
      have isFollowing : alternatives[next]? = some following := by
        rw [← List.head?_drop, isRest, List.head?_cons]
      have isTail : alternatives.drop (next + 1) = rest := by
        rw [← List.drop_drop, isRest, List.drop_one, List.tail_cons]
      cases head with
      | success found later =>
          cases isOutcome
          exact .pop rfl remembers leaves
      | failure reason =>
          by_cases committed : reason.committed
          · simp only [if_pos committed] at isOutcome
            cases isOutcome
            exact .pop (by simp [applyFrame, committed, Outcome.result]) remembers
              (Outcome.leavesAt_unmarked _ _)
          · simp only [if_neg committed] at isOutcome
            have again : applyFrame after (.choice alternatives next pos failures failed)
                (.error reason) =
                (.pushAndEval (.choice alternatives (next + 1) pos failures
                  (some (failed.elim reason (Failure.merge · reason)))) following,
                  (after.restore pos).restoreFailures failures) := by
              cases failed <;> simp [applyFrame, committed, isFollowing, mergeFailure]
            exact .push again remembers (hypothesis isTail _ isOutcome remembers rfl)

variable {fuel : Nat} {item : Peg Rule Kind}

theorem Follows.repeat (follows : Follows grammar source (read source grammar fuel))
    (again : FollowsRepeat grammar source (read source grammar fuel)) :
    FollowsRepeat grammar source (read source grammar (fuel + 1)) := by
  intro item pos outcome ends parser frames children failures remembers isPos
  obtain ⟨head, isHead, isOutcome⟩ := Option.bind_eq_some_iff.mp ends
  refine (follows item pos head isHead parser _ remembers isPos).resume
    fun after remembers leaves => ?_
  cases head with
  | success found next =>
      by_cases advanced : next ≠ pos
      · simp only [if_pos advanced] at isOutcome
        obtain ⟨tail, isTail, rfl⟩ := Option.map_eq_some_iff.mp isOutcome
        rw [Outcome.prepend_prepend]
        have isNext : after.engine.pos = next := leaves
        have pushes : applyFrame after (.repeat item children pos pos failures) (.ok found) =
            (.pushAndEval (.repeat item (children ++ found) next next after.engine.failures) item,
              after) := by
          simp [applyFrame, isNext, advanced]
        exact .push pushes remembers
          (again item next tail isTail after frames (children ++ found) _ remembers isNext)
      · simp only [if_neg advanced, Option.some.injEq] at isOutcome
        subst isOutcome
        have isNext : after.engine.pos = next := leaves
        exact .pop (by simp [applyFrame, isNext, advanced, Outcome.result, Outcome.prepend])
          remembers leaves
  | failure reason =>
      simp only [Option.some.injEq, Outcome.orEmpty] at isOutcome
      by_cases committed : reason.committed
      · simp only [if_pos committed] at isOutcome
        subst isOutcome
        exact .pop (by simp [applyFrame, committed, Outcome.result, Outcome.prepend]) remembers
          (Outcome.leavesAt_unmarked _ _)
      · simp only [if_neg committed] at isOutcome
        subst isOutcome
        have stopped : applyFrame after (.repeat item children pos pos failures) (.error reason) =
            (.ready (.ok (children ++ [])), (after.restore pos).restoreFailures failures) := by
          simp [applyFrame, committed]
        exact .pop stopped remembers rfl

/-- A rule, from the memo table or by its expression; when it fails the cursor is
where it was. -/
theorem Follows.rule (follows : Follows grammar source (read source grammar fuel)) {rule : Rule}
    (ends : read source grammar (fuel + 1) (.rule rule) pos = some outcome)
    (remembers : Remembers grammar parser) (isPos : parser.engine.pos = pos) :
    Comes grammar ⟨.eval (.rule rule), frames, parser⟩ frames (some pos) outcome := by
  subst isPos
  have reads : Reads source grammar (.rule rule) parser.engine.pos outcome := ⟨fuel + 1, ends⟩
  cases known : parser.memo (rule, parser.engine.pos) with
  | some entry =>
      cases reads.unique (remembers rule _ entry known)
      cases entry with
      | success value next =>
          have first : step grammar ⟨.eval (.rule rule), frames, parser⟩ =
              some ⟨.ready (.ok [.node value]), frames, parser.restore next⟩ := by
            simp [step, evaluate, known]
          exact .step first remembers ⟨_, .refl, remembers, rfl⟩
      | failure reason =>
          have first : step grammar ⟨.eval (.rule rule), frames, parser⟩ =
              some ⟨.ready (.error reason), frames,
                (parser.restore parser.engine.pos).recordFailure reason⟩ := by
            simp [step, evaluate, known]
          refine .step first remembers ⟨_, .refl, remembers, ?_⟩
          rintro start ⟨⟩
          rfl
  | none =>
      rw [read] at ends
      cases defined : grammar.expression rule with
      | none =>
          simp only [defined, Option.some.injEq] at ends
          subst ends
          have first : step grammar ⟨.eval (.rule rule), frames, parser⟩ =
              some ⟨.ready (.error (parser.engine.failure "grammar rule")), frames,
                (parser.fail "grammar rule").2.memoize rule parser.engine.pos
                  (.failure (parser.engine.failure "grammar rule"))⟩ := by
            simp [step, evaluate, known, defined, GrammarParser.fail, Engine.fail]
          have remembersFailure := Remembers.memoize
            (show Remembers grammar (parser.fail "grammar rule").2 from remembers)
            (show Reads source grammar (.rule rule) parser.engine.pos
              (MemoEntry.failure (parser.engine.failure "grammar rule")).outcome from reads)
          refine .step first remembersFailure ⟨_, .refl, remembersFailure, ?_⟩
          rintro start ⟨⟩
          rfl
      | some expression =>
          simp only [defined] at ends
          obtain ⟨inner, isInner, rfl⟩ := Option.map_eq_some_iff.mp ends
          have first : step grammar ⟨.eval (.rule rule), frames, parser⟩ =
              some ⟨.eval expression, .rule rule parser.engine.pos parser.engine.pos :: frames,
                parser⟩ := by
            simp [step, evaluate, known, defined]
          refine .step first remembers ((follows expression _ inner isInner parser _ remembers
            rfl).resume fun after remembers leaves => ?_)
          cases inner with
          | success children next =>
              have isNext : after.engine.pos = next := leaves
              subst isNext
              have remembersNode := remembers.memoize
                (show Reads source grammar (.rule rule) parser.engine.pos
                  (MemoEntry.success _ _).outcome from reads)
              exact .pop rfl remembersNode rfl
          | failure reason =>
              have remembersFailure := Remembers.memoize
                (show Remembers grammar (after.restore parser.engine.pos) from remembers)
                (show Reads source grammar (.rule rule) parser.engine.pos
                  (MemoEntry.failure reason).outcome from reads)
              refine .pop rfl remembersFailure ?_
              rintro start ⟨⟩
              rfl

/-- A token that is accepted is consumed, unless it is the end of the file. -/
theorem comes_token {kind : Kind}
    (ends : read source grammar (fuel + 1) (.token kind) pos = some outcome)
    (remembers : Remembers grammar parser) (isPos : parser.engine.pos = pos) :
    Comes grammar ⟨.eval (.token kind), frames, parser⟩ frames none outcome := by
  subst isPos
  rw [read] at ends
  by_cases accepts : Terminal.accepts kind (source.tokenAt parser.engine.pos) = true
  · rw [if_pos accepts] at ends
    cases ends
    have first : step grammar ⟨.eval (.token kind), frames, parser⟩ =
        some ⟨.ready (.ok [.token (source.tokenAt parser.engine.pos)]), frames,
          parser.restore (source.after parser.engine.pos)⟩ := by
      change Terminal.accepts kind (source.tokenAt parser.engine.cursor) = true at accepts
      simp only [step, evaluate, Engine.expect, accepts, if_true]
      rfl
    exact .step first remembers ⟨_, .refl, remembers, rfl⟩
  · rw [if_neg accepts] at ends
    cases ends
    have first : step grammar ⟨.eval (.token kind), frames, parser⟩ =
        some ⟨.ready (.error (parser.engine.failure (Terminal.label Token kind))), frames,
          (parser.fail (Terminal.label Token kind)).2⟩ := by
      change ¬ Terminal.accepts kind (source.tokenAt parser.engine.cursor) = true at accepts
      simp only [step, evaluate, Engine.expect, accepts]
      rfl
    exact .step first remembers ⟨_, .refl, remembers, Outcome.leavesAt_unmarked _ _⟩

/-- A form with one item, whose frame turns the item's outcome into its own. -/
theorem Follows.map (follows : Follows grammar source reader) {expression : Peg Rule Kind}
    {change : Outcome Rule Token → Outcome Rule Token} {frame : Frame Rule Kind Token}
    (ends : (reader item pos).map change = some outcome) (remembers : Remembers grammar parser)
    (isPos : parser.engine.pos = pos)
    (pushes : step grammar ⟨.eval expression, frames, parser⟩ =
      some ⟨.eval item, frame :: frames, parser⟩)
    (applies : ∀ (after : GrammarParser Rule source) inner, Remembers grammar after →
      inner.LeavesAt none after.engine.pos →
      ∃ last, applyFrame after frame inner.result = (.ready (change inner).result, last) ∧
        Remembers grammar last ∧ (change inner).LeavesAt none last.engine.pos) :
    Comes grammar ⟨.eval expression, frames, parser⟩ frames none outcome := by
  obtain ⟨inner, isInner, rfl⟩ := Option.map_eq_some_iff.mp ends
  refine .step pushes remembers ((follows item pos inner isInner parser _ remembers isPos).resume
    fun after remembers leaves => ?_)
  obtain ⟨last, applied, remembersLast, leavesLast⟩ := applies after inner remembers leaves
  exact .pop applied remembersLast leavesLast

theorem Follows.optional (follows : Follows grammar source reader)
    (ends : (reader item pos).map (.orEmpty pos) = some outcome)
    (remembers : Remembers grammar parser) (isPos : parser.engine.pos = pos) :
    Comes grammar ⟨.eval (.optional item), frames, parser⟩ frames none outcome := by
  refine follows.map ends remembers isPos rfl fun after inner remembers leaves => ?_
  cases inner with
  | success children next => exact ⟨after, rfl, remembers, leaves⟩
  | failure reason =>
      by_cases committed : reason.committed
      · exact ⟨after, by simp [applyFrame, Outcome.orEmpty, Outcome.result, committed], remembers,
          by simp [Outcome.orEmpty, committed, Outcome.LeavesAt]⟩
      · exact ⟨(after.restore parser.engine.pos).restoreFailures parser.engine.failures,
          by simp [applyFrame, Outcome.orEmpty, Outcome.result, committed], remembers,
          by rw [Outcome.orEmpty, if_neg committed]; exact isPos⟩

theorem Follows.and (follows : Follows grammar source reader)
    (ends : (reader item pos).map (.lookahead source pos) = some outcome)
    (remembers : Remembers grammar parser) (isPos : parser.engine.pos = pos) :
    Comes grammar ⟨.eval (.and item), frames, parser⟩ frames none outcome := by
  subst isPos
  refine follows.map ends remembers rfl rfl fun after inner remembers leaves => ?_
  cases inner with
  | success children next => exact ⟨_, rfl, remembers, rfl⟩
  | failure reason => exact ⟨_, rfl, remembers, Outcome.leavesAt_unmarked _ _⟩

theorem Follows.not (follows : Follows grammar source reader)
    (ends : (reader item pos).map (.negativeLookahead source pos) = some outcome)
    (remembers : Remembers grammar parser) (isPos : parser.engine.pos = pos) :
    Comes grammar ⟨.eval (.not item), frames, parser⟩ frames none outcome := by
  subst isPos
  refine follows.map ends remembers rfl rfl fun after inner remembers leaves => ?_
  cases inner with
  | success children next => exact ⟨_, rfl, remembers, Outcome.leavesAt_unmarked _ _⟩
  | failure reason => exact ⟨_, rfl, remembers, rfl⟩

theorem Follows.repeat1 (follows : Follows grammar source (read source grammar fuel))
    (again : FollowsRepeat grammar source (read source grammar fuel))
    (ends : read source grammar (fuel + 1) (.repeat1 item) pos = some outcome)
    (remembers : Remembers grammar parser) (isPos : parser.engine.pos = pos) :
    Comes grammar ⟨.eval (.repeat1 item), frames, parser⟩ frames none outcome := by
  obtain ⟨head, isHead, isOutcome⟩ := Option.bind_eq_some_iff.mp ends
  refine .step rfl remembers ((follows item pos head isHead parser _ remembers isPos).resume
    fun after remembers leaves => ?_)
  cases head with
  | success children next =>
      obtain ⟨tail, isTail, rfl⟩ := Option.map_eq_some_iff.mp isOutcome
      have isNext : after.engine.pos = next := leaves
      subst isNext
      exact .push rfl remembers (again item _ tail isTail after frames children _ remembers rfl)
  | failure reason =>
      cases isOutcome
      exact .pop rfl remembers (Outcome.leavesAt_unmarked reason _)

end Forms

variable (grammar) in
/-- The loop evaluates every expression to the outcome of its reading. -/
theorem follows_read (source : TokenList Token) (fuel : Nat) :
    Follows grammar source (read source grammar fuel) ∧
      FollowsRepeat grammar source (read source grammar fuel) := by
  induction fuel with
  | zero =>
      constructor
      · intro _ _ _ ends
        cases ends
      · intro _ _ _ ends
        cases ends
  | succ fuel hypothesis =>
      obtain ⟨follows, again⟩ := hypothesis
      have repeats := follows.repeat again
      refine ⟨fun expression pos outcome ends parser frames remembers isPos => ?_, repeats⟩
      cases expression with
      | token kind => exact comes_token ends remembers isPos
      | rule rule => exact (follows.rule ends remembers isPos).forget
      | seq items =>
          cases items with
          | nil =>
              cases ends
              exact .step rfl remembers ⟨_, .refl, remembers, isPos⟩
          | cons item items =>
              have isRest : (item :: items).drop 1 = items := rfl
              rw [read] at ends
              have comes : Comes grammar ⟨.eval item, .seq (item :: items) 1 []
                  parser.engine.pos :: frames, parser⟩ frames none (outcome.prepend []) :=
                follows.items isRest ends remembers isPos [] parser.engine.pos
              rw [Outcome.prepend_nil] at comes
              exact .step rfl remembers comes
      | choice alternatives =>
          cases alternatives with
          | nil =>
              cases ends
              subst isPos
              exact .step rfl remembers ⟨_, .refl, remembers, Outcome.leavesAt_unmarked _ _⟩
          | cons alternative alternatives =>
              have isRest : (alternative :: alternatives).drop 1 = alternatives := rfl
              rw [read] at ends
              subst isPos
              exact .step rfl remembers
                (follows.alternatives isRest none ends remembers rfl parser.engine.failures)
      | optional item => exact follows.optional ends remembers isPos
      | «repeat» item =>
          subst isPos
          have comes := repeats item _ outcome ends parser frames [] parser.engine.failures
            remembers rfl
          rw [Outcome.prepend_nil] at comes
          exact .step rfl remembers comes
      | repeat1 item => exact follows.repeat1 again ends remembers isPos
      | and item => exact follows.and ends remembers isPos
      | not item => exact follows.not ends remembers isPos
      | label label item =>
          refine follows.map ends remembers isPos rfl fun after inner remembers leaves => ?_
          cases inner with
          | success children next => exact ⟨after, rfl, remembers, leaves⟩
          | failure reason => exact ⟨_, rfl, remembers, Outcome.leavesAt_unmarked _ _⟩
      | cut item =>
          refine follows.map ends remembers isPos rfl fun after inner remembers leaves => ?_
          cases inner with
          | success children next => exact ⟨after, rfl, remembers, leaves⟩
          | failure reason => exact ⟨_, rfl, remembers, Outcome.leavesAt_unmarked _ _⟩

end RexLang.Packrat
