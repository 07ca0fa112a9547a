import RexLang.PegReading

/-!
# The packrat interpreter

`GrammarParser` of `grammar.rs`: a loop over the work at hand and a stack of
frames, with a memo table for the outcome of each rule at each position.  The
grammar and the tokens are borrowed and never change, so they are parameters.
-/

namespace RexLang.Packrat

/-- `MemoEntry`, for the nodes of rules. -/
inductive MemoEntry (Rule Token : Type) where
  | success (value : CstNode Rule Token) (next : Nat)
  | failure (failure : Failure)

inductive Frame (Rule Kind Token : Type) where
  | rule (rule : Rule) (start mark : Nat)
  | seq (items : List (Peg Rule Kind)) (next : Nat) (children : List (Cst Rule Token)) (mark : Nat)
  | choice (alternatives : List (Peg Rule Kind)) (next mark : Nat) (failures : FailureTracker)
      (failure : Option Failure)
  | optional (mark : Nat) (failures : FailureTracker)
  | repeat (item : Peg Rule Kind) (children : List (Cst Rule Token)) (start mark : Nat)
      (failures : FailureTracker)
  | repeat1 (item : Peg Rule Kind)
  | and (mark : Nat) (failures : FailureTracker)
  | not (mark : Nat) (failures : FailureTracker)
  | label (label : String)
  | cut

inductive Work (Rule Kind Token : Type) where
  | eval (expression : Peg Rule Kind)
  | ready (result : Except Failure (List (Cst Rule Token)))
  | pushAndEval (frame : Frame Rule Kind Token) (expression : Peg Rule Kind)

/-- `merge_failure`. -/
def mergeFailure (target : Option Failure) (failure : Failure) : Option Failure :=
  match target with
  | some existing => some (existing.merge failure)
  | none => some failure

variable {Rule Kind Token : Type} [EngineToken Token]

/-- `GrammarParser`, over the tokens that its engine borrows. -/
structure GrammarParser (Rule : Type) (source : TokenList Token) where
  engine : Engine source
  memo : Rule × Nat → Option (MemoEntry Rule Token)

namespace GrammarParser

variable {source : TokenList Token}

/-- `GrammarParser::new`. -/
def new (engine : Engine source) : GrammarParser Rule source :=
  ⟨engine, fun _ => none⟩

/-- `self.engine.restore`. -/
def restore (mark : Nat) (parser : GrammarParser Rule source) : GrammarParser Rule source :=
  { parser with engine := parser.engine.restore mark }

/-- `self.engine.restore_failures`. -/
def restoreFailures (failures : FailureTracker) (parser : GrammarParser Rule source) :
    GrammarParser Rule source :=
  { parser with engine := parser.engine.restoreFailures failures }

/-- `self.engine.record_failure`. -/
def recordFailure (failure : Failure) (parser : GrammarParser Rule source) :
    GrammarParser Rule source :=
  { parser with engine := parser.engine.recordFailure failure }

/-- `self.engine.fail`. -/
def fail (parser : GrammarParser Rule source) (expected : String) :
    Failure × GrammarParser Rule source :=
  let (failure, engine) := parser.engine.fail expected
  (failure, { parser with engine })

/-- `self.memo.insert`. -/
def memoize [DecidableEq Rule] (rule : Rule) (start : Nat) (entry : MemoEntry Rule Token)
    (parser : GrammarParser Rule source) : GrammarParser Rule source :=
  { parser with memo := Function.update parser.memo (rule, start) (some entry) }

/-- `GrammarParser::labeled_failure`. -/
def labeledFailure (parser : GrammarParser Rule source) (failure : Failure) (label : String) :
    Failure × GrammarParser Rule source :=
  let labeled := { failure with expected := {label} }
  (labeled, parser.recordFailure labeled)

end GrammarParser

/-- The variables of the loop of `parse_expr_iterative`, with the parser. -/
structure LoopState (Rule Kind : Type) (source : TokenList Token) where
  work : Work Rule Kind Token
  frames : List (Frame Rule Kind Token)
  parser : GrammarParser Rule source

section Interpreter

variable [DecidableEq Rule] {source : TokenList Token}

/-- `GrammarParser::apply_frame`. -/
def applyFrame (parser : GrammarParser Rule source) (frame : Frame Rule Kind Token)
    (result : Except Failure (List (Cst Rule Token))) :
    Work Rule Kind Token × GrammarParser Rule source :=
  match frame, result with
  | .rule rule start _, .ok children =>
      let next := parser.engine.pos
      let node := ⟨rule, source.spanFromPositions start next, children⟩
      (.ready (.ok [.node node]), parser.memoize rule start (.success node next))
  | .rule rule start mark, .error failure =>
      (.ready (.error failure), (parser.restore mark).memoize rule start (.failure failure))
  | .seq items next children mark, .ok newChildren =>
      let children := children ++ newChildren
      match items[next]? with
      | some item => (.pushAndEval (.seq items (next + 1) children mark) item, parser)
      | none => (.ready (.ok children), parser)
  | .seq _ _ _ mark, .error failure => (.ready (.error failure), parser.restore mark)
  | .choice _ _ _ _ _, .ok children => (.ready (.ok children), parser)
  | .choice alternatives next mark failures failure, .error error =>
      if error.committed then (.ready (.error error), parser)
      else
        let failure := mergeFailure failure error
        let parser := (parser.restore mark).restoreFailures failures
        match alternatives[next]? with
        | some alternative =>
            (.pushAndEval (.choice alternatives (next + 1) mark failures failure) alternative,
              parser)
        | none =>
            let (failure, parser) :=
              match failure with
              | some failure => (failure, parser)
              | none => parser.fail "alternative"
            (.ready (.error failure), parser.recordFailure failure)
  | .optional _ _, .ok children => (.ready (.ok children), parser)
  | .optional mark failures, .error error =>
      if error.committed then (.ready (.error error), parser)
      else (.ready (.ok []), (parser.restore mark).restoreFailures failures)
  | .repeat item children start _ _, .ok newChildren =>
      let children := children ++ newChildren
      if parser.engine.pos ≠ start then
        (.pushAndEval (.repeat item children parser.engine.pos parser.engine.pos
          parser.engine.failures) item, parser)
      else (.ready (.ok children), parser)
  | .repeat _ children _ mark failures, .error error =>
      if error.committed then (.ready (.error error), parser)
      else (.ready (.ok children), (parser.restore mark).restoreFailures failures)
  | .repeat1 item, .ok children =>
      (.pushAndEval (.repeat item children parser.engine.pos parser.engine.pos
        parser.engine.failures) item, parser)
  | .repeat1 _, .error failure => (.ready (.error failure), parser)
  | .and mark failures, .ok _ =>
      (.ready (.ok []), (parser.restore mark).restoreFailures failures)
  | .and mark failures, .error _ =>
      let (failure, parser) := ((parser.restore mark).restoreFailures failures).fail "lookahead"
      (.ready (.error failure), parser)
  | .not mark failures, .ok _ =>
      let (failure, parser) :=
        ((parser.restore mark).restoreFailures failures).fail "negative lookahead"
      (.ready (.error failure), parser)
  | .not mark failures, .error _ =>
      (.ready (.ok []), (parser.restore mark).restoreFailures failures)
  | .label _, .ok children => (.ready (.ok children), parser)
  | .label label, .error failure =>
      let (failure, parser) := parser.labeledFailure failure label
      (.ready (.error failure), parser)
  | .cut, .ok children => (.ready (.ok children), parser)
  | .cut, .error failure => (.ready (.error failure.markCommitted), parser)

variable [Terminal Kind Token] (grammar : Grammar Rule Kind)

/-- The branch of the loop for `Work::Eval`. -/
def evaluate (expression : Peg Rule Kind) (frames : List (Frame Rule Kind Token))
    (parser : GrammarParser Rule source) : LoopState Rule Kind source :=
  let engine := parser.engine
  match expression with
  | .token kind =>
      let (result, engine) :=
        engine.expect (Terminal.label Token kind) (Terminal.accepts kind)
      ⟨.ready (result.map fun token => [.token token]), frames, { parser with engine }⟩
  | .rule rule =>
      let start := engine.pos
      match parser.memo (rule, start) with
      | some (.success value next) => ⟨.ready (.ok [.node value]), frames, parser.restore next⟩
      | some (.failure failure) =>
          ⟨.ready (.error failure), frames, (parser.restore start).recordFailure failure⟩
      | none =>
          match grammar.expression rule with
          | none =>
              let (failure, parser) := parser.fail "grammar rule"
              ⟨.ready (.error failure), frames, parser.memoize rule start (.failure failure)⟩
          | some expression => ⟨.eval expression, .rule rule start engine.pos :: frames, parser⟩
  | .seq [] => ⟨.ready (.ok []), frames, parser⟩
  | .seq (item :: items) => ⟨.eval item, .seq (item :: items) 1 [] engine.pos :: frames, parser⟩
  | .choice [] =>
      let (failure, parser) := parser.fail "alternative"
      ⟨.ready (.error failure), frames, parser⟩
  | .choice (alternative :: alternatives) =>
      let mark := engine.pos
      let failures := engine.failures
      ⟨.eval alternative,
        .choice (alternative :: alternatives) 1 mark failures none :: frames,
        (parser.restore mark).restoreFailures failures⟩
  | .optional item => ⟨.eval item, .optional engine.pos engine.failures :: frames, parser⟩
  | .repeat item =>
      ⟨.eval item, .repeat item [] engine.pos engine.pos engine.failures :: frames, parser⟩
  | .repeat1 item => ⟨.eval item, .repeat1 item :: frames, parser⟩
  | .and item => ⟨.eval item, .and engine.pos engine.failures :: frames, parser⟩
  | .not item => ⟨.eval item, .not engine.pos engine.failures :: frames, parser⟩
  | .label label item => ⟨.eval item, .label label :: frames, parser⟩
  | .cut item => ⟨.eval item, .cut :: frames, parser⟩

/-- One iteration of the loop of `parse_expr_iterative`; `none` when it returns. -/
def step : LoopState Rule Kind source → Option (LoopState Rule Kind source)
  | ⟨.pushAndEval frame expression, frames, parser⟩ =>
      some ⟨.eval expression, frame :: frames, parser⟩
  | ⟨.eval expression, frames, parser⟩ => some (evaluate grammar expression frames parser)
  | ⟨.ready _, [], _⟩ => none
  | ⟨.ready result, frame :: frames, parser⟩ =>
      let (work, parser) := applyFrame parser frame result
      some ⟨work, frames, parser⟩

namespace GrammarParser

/-- The loop of `GrammarParser::parse_expr_iterative`, for a number of
iterations. -/
def loop : Nat → LoopState Rule Kind source → Option (LoopState Rule Kind source)
  | 0, _ => none
  | fuel + 1, state =>
      match step grammar state with
      | none => some state
      | some next => loop fuel next

/-- The state in which the loop of `GrammarParser::parse_rule` starts. -/
def parseState (rule : Rule) (parser : GrammarParser Rule source) :
    LoopState Rule Kind source :=
  ⟨.eval (.rule rule), [], parser⟩

/-- What `GrammarParser::parse_rule` makes of the result of the loop. -/
def ruleNode (parser : GrammarParser Rule source) :
    Except Failure (List (Cst Rule Token)) →
      Except Failure (CstNode Rule Token) × GrammarParser Rule source
  | .error failure => (.error failure, parser)
  | .ok children =>
      match children.getLast?, children.dropLast with
      | some (.node node), [] => (.ok node, parser)
      | _, _ =>
          let (failure, parser) := parser.fail "grammar rule"
          (.error failure, parser)

/-- `GrammarParser::parse_rule`. -/
def parseRule (fuel : Nat) (rule : Rule) (parser : GrammarParser Rule source) :
    Option (Except Failure (CstNode Rule Token) × GrammarParser Rule source) :=
  (loop grammar fuel (parser.parseState rule)).bind fun state =>
    match state.work with
    | .ready result => some (ruleNode state.parser result)
    | _ => none

/-- `GrammarParser::parse_start`. -/
def parseStart (fuel : Nat) (parser : GrammarParser Rule source) :
    Option (Except Failure (CstNode Rule Token) × GrammarParser Rule source) :=
  parser.parseRule grammar fuel grammar.start

end GrammarParser

end Interpreter

end RexLang.Packrat
