import RexLang.PegLeftRecursion
import RexLang.PegSimulation

/-!
# The interpreter parses as the grammar reads

Every parser that a sequence of `parse_rule` calls can lead to holds a memo table
of outcomes of the reading.  For a grammar without left recursion, each further
call therefore ends, and it answers as the recursive reading does; so does every
rule that the loop tries on the way.
-/

namespace RexLang.Packrat

open StateTransition

variable {Rule Kind Token : Type} [EngineToken Token] {source : TokenList Token}
  [DecidableEq Rule] [Terminal Kind Token] {grammar : Grammar Rule Kind}

/-! ## Runs of the loop -/

section Runs

variable {state last visited : LoopState Rule Kind source}

theorem loop_of_reaches (run : Reaches (step grammar) state last)
    (ended : step grammar last = none) :
    ∃ fuel, ∀ more, fuel ≤ more → GrammarParser.loop grammar more state = some last := by
  induction run using Relation.ReflTransGen.head_induction_on with
  | refl =>
      refine ⟨1, fun more enough => ?_⟩
      obtain ⟨rest, rfl⟩ := Nat.exists_eq_add_of_le' enough
      rw [GrammarParser.loop, ended]
  | head first _ hypothesis =>
      obtain ⟨fuel, loops⟩ := hypothesis
      refine ⟨fuel + 1, fun more enough => ?_⟩
      obtain ⟨rest, rfl⟩ := Nat.exists_eq_add_of_le' (show 1 ≤ more by omega)
      rw [GrammarParser.loop, Option.mem_def.mp first]
      exact loops rest (by omega)

theorem reaches_of_loop {fuel : Nat} (loops : GrammarParser.loop grammar fuel state = some last) :
    Reaches (step grammar) state last ∧ step grammar last = none := by
  induction fuel generalizing state with
  | zero => cases loops
  | succ fuel hypothesis =>
      rw [GrammarParser.loop] at loops
      cases isNext : step grammar state with
      | none =>
          simp only [isNext, Option.some.injEq] at loops
          subst loops
          exact ⟨.refl, isNext⟩
      | some next =>
          simp only [isNext] at loops
          obtain ⟨run, ended⟩ := hypothesis loops
          exact ⟨.head isNext run, ended⟩

/-- The states of a run that has ended keep a memo table of outcomes of the
reading. -/
theorem remembers_of_reaches (run : Relation.ReflTransGen (Advance grammar) state last)
    (ended : step grammar last = none) (remembers : Remembers grammar state.parser)
    (visits : Reaches (step grammar) state visited) :
    Remembers grammar visited.parser ∧
      Relation.ReflTransGen (Advance grammar) visited last := by
  induction visits with
  | refl => exact ⟨remembers, run⟩
  | tail _ isNext hypothesis =>
      obtain ⟨_, rest⟩ := hypothesis
      cases rest.cases_head with
      | inl same =>
          subst same
          rw [ended] at isNext
          cases isNext
      | inr further =>
          obtain ⟨next, ⟨isOther, remembersNext⟩, rest⟩ := further
          cases Option.mem_unique isNext isOther
          exact ⟨remembersNext, rest⟩

end Runs

theorem Comes.reaches {state : LoopState Rule Kind source} {frames : List (Frame Rule Kind Token)}
    {mark : Option Nat} {outcome : Outcome Rule Token}
    (comes : Comes grammar state frames mark outcome) :
    ∃ parser, Reaches (Packrat.step grammar) state ⟨.ready outcome.result, frames, parser⟩ ∧
      outcome.LeavesAt mark parser.engine.pos := by
  obtain ⟨parser, run, _, leaves⟩ := comes
  exact ⟨parser, Relation.ReflTransGen.mono (fun _ _ advance => advance.1) _ _ run, leaves⟩

/-! ## Parsers -/

/-- What a call of `parse_rule` comes to for an outcome of the rule's reading: the
same node and the next position, or the same failure and the cursor back where it
was. -/
def Outcome.Answers (outcome : Outcome Rule Token) (start : Nat)
    (result : Except Failure (CstNode Rule Token)) (cursor : Nat) : Prop :=
  match outcome with
  | .success children next =>
      ∃ node, children = [.node node] ∧ result = .ok node ∧ cursor = next
  | .failure reason => result = .error reason ∧ cursor = start

variable (grammar) in
/-- The parsers that calls of `parse_rule` lead to, from a new one over any
engine. -/
inductive Reachable : GrammarParser Rule source → Prop where
  | new (engine : Engine source) : Reachable (.new engine)
  | parseRule {parser after : GrammarParser Rule source} {rule : Rule} {fuel : Nat}
      {result : Except Failure (CstNode Rule Token)} (before : Reachable parser)
      (parses : parser.parseRule grammar fuel rule = some (result, after)) : Reachable after

omit [DecidableEq Rule] in
/-- A rule has one node as its only child. -/
theorem Reads.node_of_success {rule : Rule} {pos next : Nat} {children : List (Cst Rule Token)}
    (reads : Reads source grammar (.rule rule) pos (.success children next)) :
    ∃ node, children = [.node node] := by
  obtain ⟨fuel, ends⟩ := reads
  cases fuel with
  | zero => cases ends
  | succ fuel =>
      rw [read] at ends
      cases defined : grammar.expression rule with
      | none => simp [defined] at ends
      | some expression =>
          simp only [defined] at ends
          obtain ⟨inner, _, same⟩ := Option.map_eq_some_iff.mp ends
          cases inner with
          | success _ _ =>
              cases same
              exact ⟨_, rfl⟩
          | failure _ => cases same

theorem comes_rule (notLeftRecursive : ¬ grammar.LeftRecursive Token)
    {parser : GrammarParser Rule source} (remembers : Remembers grammar parser) (rule : Rule)
    (frames : List (Frame Rule Kind Token)) :
    ∃ outcome, Reads source grammar (.rule rule) parser.engine.pos outcome ∧
      Comes grammar ⟨.eval (.rule rule), frames, parser⟩ frames (some parser.engine.pos)
        outcome := by
  obtain ⟨outcome, fuel, isOutcome⟩ : Ends source grammar (.rule rule) parser.engine.pos :=
    ends_of_not_leftRecursive notLeftRecursive (.rule rule) parser.engine.pos
  have ends := refines_read_succ fuel _ _ _ isOutcome
  exact ⟨outcome, ⟨fuel, isOutcome⟩, (follows_read grammar source fuel).1.rule ends remembers rfl⟩

omit [DecidableEq Rule] in
theorem ruleNode_answers {rule : Rule} {start : Nat} {outcome : Outcome Rule Token}
    {parser : GrammarParser Rule source}
    (reads : Reads source grammar (.rule rule) start outcome)
    (leaves : outcome.LeavesAt (some start) parser.engine.pos) :
    ∃ result, parser.ruleNode outcome.result = (result, parser) ∧
      outcome.Answers start result parser.engine.pos := by
  cases outcome with
  | success children next =>
      obtain ⟨node, rfl⟩ := reads.node_of_success
      exact ⟨.ok node, rfl, node, rfl, rfl, leaves⟩
  | failure reason => exact ⟨.error reason, rfl, rfl, leaves start rfl⟩

omit [DecidableEq Rule] in
theorem remembers_ruleNode {parser : GrammarParser Rule source}
    (remembers : Remembers grammar parser) (result : Except Failure (List (Cst Rule Token))) :
    Remembers grammar (parser.ruleNode result).2 := by
  cases result with
  | error failure => exact remembers
  | ok children =>
      rw [GrammarParser.ruleNode]
      split <;> exact remembers

theorem Reachable.remembers (notLeftRecursive : ¬ grammar.LeftRecursive Token)
    {parser : GrammarParser Rule source} (reachable : Reachable grammar parser) :
    Remembers grammar parser := by
  induction reachable with
  | new engine => exact remembers_new engine
  | @parseRule parser after rule fuel result _ parses hypothesis =>
      obtain ⟨outcome, reads, middle, run, _, leaves⟩ :=
        comes_rule notLeftRecursive hypothesis rule []
      obtain ⟨last, isLast, isResult⟩ := Option.bind_eq_some_iff.mp parses
      have remembers := (remembers_of_reaches run rfl hypothesis (reaches_of_loop isLast).1).1
      cases isWork : last.work with
      | ready result =>
          simp only [isWork, Option.some.injEq] at isResult
          have kept := remembers_ruleNode remembers result
          rwa [isResult] at kept
      | eval expression => simp [isWork] at isResult
      | pushAndEval frame expression => simp [isWork] at isResult

/-- For a grammar without left recursion, `parse_rule` ends from every parser that
calls of it lead to, and answers as the recursive reading: the same success or
failure, the same tree and the same next position, and the cursor where it was
after a failure.  So does every rule that the loop tries on the way, on top of the
frames that are then on the stack. -/
theorem parseRule_answers (notLeftRecursive : ¬ grammar.LeftRecursive Token)
    {parser : GrammarParser Rule source} (reachable : Reachable grammar parser) (rule : Rule) :
    ∃ outcome, Reads source grammar (.rule rule) parser.engine.pos outcome ∧
      (∃ fuel result after,
        (∀ more, fuel ≤ more → parser.parseRule grammar more rule = some (result, after)) ∧
        outcome.Answers parser.engine.pos result after.engine.pos) ∧
      ∀ state inner, Reaches (step grammar) (parser.parseState rule) state →
        state.work = .eval (.rule inner) →
        ∃ innerOutcome after,
          Reads source grammar (.rule inner) state.parser.engine.pos innerOutcome ∧
          Reaches (step grammar) state ⟨.ready innerOutcome.result, state.frames, after⟩ ∧
          innerOutcome.LeavesAt (some state.parser.engine.pos) after.engine.pos := by
  have remembers := reachable.remembers notLeftRecursive
  obtain ⟨outcome, reads, comes⟩ := comes_rule notLeftRecursive remembers rule []
  refine ⟨outcome, reads, ?_, fun state inner visits tries => ?_⟩
  · obtain ⟨after, run, leaves⟩ := comes.reaches
    obtain ⟨fuel, loops⟩ := loop_of_reaches run rfl
    obtain ⟨result, isResult, answers⟩ := ruleNode_answers reads leaves
    refine ⟨fuel, result, after, fun more enough => ?_, answers⟩
    rw [GrammarParser.parseRule, GrammarParser.parseState, loops more enough]
    exact congrArg some isResult
  · obtain ⟨last, run, _⟩ := comes
    obtain ⟨kept, _⟩ := remembers_of_reaches run rfl remembers visits
    obtain ⟨innerOutcome, readsInner, comesInner⟩ :=
      comes_rule notLeftRecursive kept inner state.frames
    obtain ⟨after, runInner, leaves⟩ := comesInner.reaches
    have same : state = ⟨.eval (.rule inner), state.frames, state.parser⟩ := by
      rw [← tries]
    exact ⟨innerOutcome, after, readsInner, by rw [same]; exact runInner, leaves⟩

/-- `(x` with no closing parenthesis. -/
def unclosedParen : TokenList RexLang.Token :=
  ⟨[⟨.parenL, ⟨⟨1, 1⟩, ⟨1, 1⟩⟩⟩, ⟨.ident "x", ⟨⟨1, 2⟩, ⟨1, 2⟩⟩⟩], ⟨.eof, ⟨⟨1, 3⟩, ⟨1, 3⟩⟩⟩, rfl⟩

/-- After an opening parenthesis the alternative for it is cut: the failure to
find the closing one is that of the atom, and the cursor is back. -/
theorem parseRule_answers_unclosedParen :
    ∃ fuel failure after,
      (GrammarParser.new (Engine.new unclosedParen)).parseRule rexExpressions fuel .atomExpr =
        some (.error failure, after) ∧
      failure.committed = true ∧ failure.pos = 2 ∧ after.engine.pos = 0 := by
  obtain ⟨outcome, reads, ⟨fuel, result, after, parses, answers⟩, -⟩ :=
    parseRule_answers rexExpressions_not_leftRecursive (.new (Engine.new unclosedParen)) .atomExpr
  obtain ⟨failure, isFailure, committed, isPos⟩ : ∃ failure,
      read unclosedParen rexExpressions 30 (.rule .atomExpr) 0 = some (.failure failure) ∧
        failure.committed = true ∧ failure.pos = 2 :=
    ⟨_, rfl, rfl, rfl⟩
  cases reads.unique ⟨30, isFailure⟩
  obtain ⟨rfl, isStart⟩ := answers
  exact ⟨fuel, failure, after, parses fuel le_rfl, committed, isPos, isStart⟩

end RexLang.Packrat
