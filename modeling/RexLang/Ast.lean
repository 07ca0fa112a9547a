import Mathlib.Algebra.Order.Ring.Nat
import Mathlib.Data.List.Basic

/-!
# The abstract syntax tree

The syntax tree of `rex-ast`.  Maps keyed by names (`BTreeMap`, and the
captured scope of a lambda) are association lists in iteration order.
-/

namespace RexLang

/-- Interned names. -/
abbrev Symbol := String

/-- A `BTreeMap` from names, in iteration order. -/
abbrev SymbolMap (Value : Type) := List (Symbol × Value)

/-- `BTreeMap::insert`. -/
def SymbolMap.insert {Value : Type} (key : Symbol) (value : Value) :
    SymbolMap Value → SymbolMap Value
  | [] => [(key, value)]
  | (other, old) :: rest =>
      if key = other then (key, value) :: rest
      else if key < other then (key, value) :: (other, old) :: rest
      else (other, old) :: SymbolMap.insert key value rest

/-- An `f32`, as its IEEE 754 bit pattern. -/
abbrev F32 := BitVec 32

/-- An `f64`, as its IEEE 754 bit pattern. -/
abbrev F64 := BitVec 64

structure Position where
  line : Nat
  column : Nat
deriving DecidableEq

structure Span where
  begin : Position
  «end» : Position
deriving DecidableEq

/-- `Span::from_begin_end`. -/
def Span.fromBeginEnd (begin finish : Position) : Span :=
  ⟨begin, finish⟩

/-- `Span::default`; positions are 64-bit. -/
def Span.default : Span :=
  ⟨⟨0, 0⟩, ⟨2 ^ 64 - 1, 2 ^ 64 - 1⟩⟩

structure Var where
  span : Span
  name : Symbol
deriving DecidableEq

inductive NameRef where
  | unqualified (name : Symbol)
  | qualified (dotted : Symbol) (segments : List Symbol)
deriving DecidableEq

def NameRef.fromSegments : List Symbol → NameRef
  | [name] => .unqualified name
  | segments => .qualified (".".intercalate segments) segments

def NameRef.toDottedSymbol : NameRef → Symbol
  | .unqualified name => name
  | .qualified dotted _ => dotted

inductive Pattern where
  | wildcard (span : Span)
  | var (binder : Var)
  | named (span : Span) (name : NameRef) (args : List Pattern)
  | tuple (span : Span) (elems : List Pattern)
  | list (span : Span) (elems : List Pattern)
  | cons (span : Span) (head tail : Pattern)
  | dict (span : Span) (fields : List (Symbol × Pattern))

def Pattern.span : Pattern → Span
  | .wildcard span | .named span _ _ | .tuple span _ | .list span _ | .cons span _ _
  | .dict span _ => span
  | .var binder => binder.span

def Pattern.withSpan (span : Span) : Pattern → Pattern
  | .wildcard _ => .wildcard span
  | .var binder => .var ⟨span, binder.name⟩
  | .named _ name args => .named span name args
  | .tuple _ elems => .tuple span elems
  | .list _ elems => .list span elems
  | .cons _ head tail => .cons span head tail
  | .dict _ fields => .dict span fields

inductive TypeExpr where
  | name (span : Span) (name : NameRef)
  | app (span : Span) (func arg : TypeExpr)
  | func (span : Span) (arg ret : TypeExpr)
  | tuple (span : Span) (elems : List TypeExpr)
  | record (span : Span) (fields : List (Symbol × TypeExpr × Option String))

def TypeExpr.span : TypeExpr → Span
  | .name span _ | .app span _ _ | .func span _ _ | .tuple span _ | .record span _ => span

structure TypeConstraint where
  className : NameRef
  typ : TypeExpr

inductive Expr where
  | bool (span : Span) (value : Bool)
  | uint (span : Span) (value : Nat)
  | int (span : Span) (value : Int)
  | float (span : Span) (value : F64)
  | char (span : Span) (value : Char)
  | string (span : Span) (value : String)
  | uuid (span : Span) (value : BitVec 128)
  | dateTime (span : Span) (nanos : Int)
  | hole (span : Span)
  | tuple (span : Span) (elems : List Expr)
  | list (span : Span) (elems : List Expr)
  | dict (span : Span) (fields : List (Symbol × Expr))
  | recordUpdate (span : Span) (base : Expr) (updates : List (Symbol × Expr))
  | var (name : Var)
  | app (span : Span) (func arg : Expr)
  | project (span : Span) (base : Expr) (field : Symbol)
  | lam (span : Span) (scope : List (Symbol × Expr)) (param : Var) (ann : Option TypeExpr)
      (constraints : List TypeConstraint) (body : Expr)
  | letIn (span : Span) (binder : Var) (typeParams : List Symbol) (ann : Option TypeExpr)
      (defn body : Expr)
  | letRec (span : Span) (bindings : List (Var × List Symbol × Option TypeExpr × Expr))
      (body : Expr)
  | ite (span : Span) (cond thenExpr elseExpr : Expr)
  | matchWith (span : Span) (scrutinee : Expr) (arms : List (Pattern × Expr))
  | ann (span : Span) (expr : Expr) (typ : TypeExpr)

/-- One binding of a `let rec` group. -/
abbrev LetRecBinding := Var × List Symbol × Option TypeExpr × Expr

def Expr.span : Expr → Span
  | .bool span _ | .uint span _ | .int span _ | .float span _ | .char span _ | .string span _
  | .uuid span _ | .dateTime span _ | .hole span | .tuple span _ | .list span _ | .dict span _
  | .recordUpdate span _ _ | .app span _ _ | .project span _ _ | .lam span _ _ _ _ _
  | .letIn span _ _ _ _ _ | .letRec span _ _ | .ite span _ _ _ | .matchWith span _ _
  | .ann span _ _ => span
  | .var name => name.span

def Expr.withSpan (span : Span) : Expr → Expr
  | .bool _ value => .bool span value
  | .uint _ value => .uint span value
  | .int _ value => .int span value
  | .float _ value => .float span value
  | .char _ value => .char span value
  | .string _ value => .string span value
  | .uuid _ value => .uuid span value
  | .dateTime _ nanos => .dateTime span nanos
  | .hole _ => .hole span
  | .tuple _ elems => .tuple span elems
  | .list _ elems => .list span elems
  | .dict _ fields => .dict span fields
  | .recordUpdate _ base updates => .recordUpdate span base updates
  | .var name => .var ⟨span, name.name⟩
  | .app _ func arg => .app span func arg
  | .project _ base field => .project span base field
  | .lam _ scope param annotation constraints body =>
      .lam span scope param annotation constraints body
  | .letIn _ binder typeParams annotation defn body =>
      .letIn span binder typeParams annotation defn body
  | .letRec _ bindings body => .letRec span bindings body
  | .ite _ cond thenExpr elseExpr => .ite span cond thenExpr elseExpr
  | .matchWith _ scrutinee arms => .matchWith span scrutinee arms
  | .ann _ expr typ => .ann span expr typ

def Expr.withSpanBegin (expr : Expr) (begin : Position) : Expr :=
  expr.withSpan (.fromBeginEnd begin expr.span.end)

/-! ## Trees up to spans -/

def Var.resetSpans (name : Var) : Var :=
  ⟨.default, name.name⟩

theorem sizeOf_fst_lt {First Second : Type} [SizeOf First] [SizeOf Second]
    (pair : First × Second) : sizeOf pair.1 < sizeOf pair := by
  obtain ⟨first, second⟩ := pair
  simp only [Prod.mk.sizeOf_spec]
  omega

theorem sizeOf_snd_lt {First Second : Type} [SizeOf First] [SizeOf Second]
    (pair : First × Second) : sizeOf pair.2 < sizeOf pair := by
  obtain ⟨first, second⟩ := pair
  simp only [Prod.mk.sizeOf_spec]
  omega

def Pattern.resetSpans : Pattern → Pattern
  | .wildcard _ => .wildcard .default
  | .var binder => .var binder.resetSpans
  | .named _ name args => .named .default name (args.map resetSpans)
  | .tuple _ elems => .tuple .default (elems.map resetSpans)
  | .list _ elems => .list .default (elems.map resetSpans)
  | .cons _ head tail => .cons .default head.resetSpans tail.resetSpans
  | .dict _ fields => .dict .default (fields.map fun field => (field.1, field.2.resetSpans))
decreasing_by
  all_goals try decreasing_tactic
  next _ member =>
    have smaller := List.sizeOf_lt_of_mem member
    have part := sizeOf_snd_lt field
    simp only [Pattern.dict.sizeOf_spec]
    omega

def TypeExpr.resetSpans : TypeExpr → TypeExpr
  | .name _ reference => .name .default reference
  | .app _ head arg => .app .default head.resetSpans arg.resetSpans
  | .func _ domain ret => .func .default domain.resetSpans ret.resetSpans
  | .tuple _ elems => .tuple .default (elems.map resetSpans)
  | .record _ fields =>
      .record .default (fields.map fun field => (field.1, field.2.1.resetSpans, field.2.2))
decreasing_by
  all_goals try decreasing_tactic
  next _ member =>
    have smaller := List.sizeOf_lt_of_mem member
    have part := sizeOf_snd_lt field
    have inner := sizeOf_fst_lt field.2
    simp only [TypeExpr.record.sizeOf_spec]
    omega

def TypeConstraint.resetSpans (constraint : TypeConstraint) : TypeConstraint :=
  { constraint with typ := constraint.typ.resetSpans }

def Expr.resetSpans : Expr → Expr
  | .bool _ value => .bool .default value
  | .uint _ value => .uint .default value
  | .int _ value => .int .default value
  | .float _ value => .float .default value
  | .char _ value => .char .default value
  | .string _ value => .string .default value
  | .uuid _ value => .uuid .default value
  | .dateTime _ nanos => .dateTime .default nanos
  | .hole _ => .hole .default
  | .tuple _ elems => .tuple .default (elems.map resetSpans)
  | .list _ elems => .list .default (elems.map resetSpans)
  | .dict _ fields => .dict .default (fields.map fun field => (field.1, field.2.resetSpans))
  | .recordUpdate _ base updates =>
      .recordUpdate .default base.resetSpans
        (updates.map fun update => (update.1, update.2.resetSpans))
  | .var name => .var name.resetSpans
  | .app _ func arg => .app .default func.resetSpans arg.resetSpans
  | .project _ base field => .project .default base.resetSpans field
  | .lam _ scope param annotation constraints body =>
      .lam .default scope param.resetSpans (Option.map TypeExpr.resetSpans annotation)
        (constraints.map TypeConstraint.resetSpans) body.resetSpans
  | .letIn _ binder typeParams annotation defn body =>
      .letIn .default binder.resetSpans typeParams (Option.map TypeExpr.resetSpans annotation)
        defn.resetSpans body.resetSpans
  | .letRec _ bindings body =>
      .letRec .default
        (bindings.map fun binding =>
          (binding.1.resetSpans, binding.2.1, binding.2.2.1.map TypeExpr.resetSpans,
            binding.2.2.2.resetSpans))
        body.resetSpans
  | .ite _ cond thenExpr elseExpr =>
      .ite .default cond.resetSpans thenExpr.resetSpans elseExpr.resetSpans
  | .matchWith _ scrutinee arms =>
      .matchWith .default scrutinee.resetSpans
        (arms.map fun arm => (arm.1.resetSpans, arm.2.resetSpans))
  | .ann _ expr typ => .ann .default expr.resetSpans typ.resetSpans
decreasing_by
  all_goals try decreasing_tactic
  · next _ member =>
      have smaller := List.sizeOf_lt_of_mem member
      have part := sizeOf_snd_lt field
      simp only [Expr.dict.sizeOf_spec]
      omega
  · next _ member =>
      have smaller := List.sizeOf_lt_of_mem member
      have part := sizeOf_snd_lt update
      simp only [Expr.recordUpdate.sizeOf_spec]
      omega
  · next _ member =>
      have smaller := List.sizeOf_lt_of_mem member
      have part := sizeOf_snd_lt binding
      have inner := sizeOf_snd_lt binding.2
      have innermost := sizeOf_snd_lt binding.2.2
      simp only [Expr.letRec.sizeOf_spec]
      omega
  · next _ member =>
      have smaller := List.sizeOf_lt_of_mem member
      have part := sizeOf_snd_lt arm
      simp only [Expr.matchWith.sizeOf_spec]
      omega

end RexLang
