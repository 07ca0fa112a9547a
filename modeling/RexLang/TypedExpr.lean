import RexLang.Unification

/-!
# Typed expressions

The expressions that the evaluator runs: every node carries its type.
-/

namespace RexLang

mutual

inductive TypedExpr where
  | mk (typ : Typ) (kind : TypedExprKind)

inductive TypedExprKind where
  | bool (value : Bool)
  | uint (value : Nat)
  | int (value : Int)
  | float (value : F64)
  | char (value : Char)
  | string (value : String)
  | uuid (value : BitVec 128)
  | dateTime (nanos : Int)
  | hole
  | tuple (elems : List TypedExpr)
  | list (elems : List TypedExpr)
  | dict (kvs : List (Symbol × TypedExpr))
  | recordUpdate (base : TypedExpr) (updates : List (Symbol × TypedExpr))
  | classMethod (name : Symbol)
  | var (name : Symbol) (overloads : List Typ)
  | app (func arg : TypedExpr)
  | project (expr : TypedExpr) (field : Symbol)
  | lam (param : Symbol) (body : TypedExpr)
  | letIn (name : Symbol) (defn body : TypedExpr)
  | letRec (bindings : List (Symbol × TypedExpr)) (body : TypedExpr)
  | ite (cond thenExpr elseExpr : TypedExpr)
  | matchWith (scrutinee : TypedExpr) (arms : List (Pattern × TypedExpr))

end

namespace TypedExpr

def typ : TypedExpr → Typ
  | mk typ _ => typ

def kind : TypedExpr → TypedExprKind
  | mk _ kind => kind

mutual

/-- `apply`.  The loops of the source over chains of lambdas and applications
build the same expression. -/
def apply (subst : Subst) : TypedExpr → TypedExpr
  | mk typ kind => mk (typ.apply subst) (applyKind subst kind)

def applyKind (subst : Subst) : TypedExprKind → TypedExprKind
  | .bool value => .bool value
  | .uint value => .uint value
  | .int value => .int value
  | .float value => .float value
  | .char value => .char value
  | .string value => .string value
  | .uuid value => .uuid value
  | .dateTime nanos => .dateTime nanos
  | .hole => .hole
  | .tuple elems => .tuple (applyElems subst elems)
  | .list elems => .list (applyElems subst elems)
  | .dict kvs => .dict (applyFields subst kvs)
  | .recordUpdate base updates => .recordUpdate (apply subst base) (applyFields subst updates)
  | .classMethod name => .classMethod name
  | .var name overloads => .var name (overloads.map (Typ.apply subst))
  | .app func arg => .app (apply subst func) (apply subst arg)
  | .project expr field => .project (apply subst expr) field
  | .lam param body => .lam param (apply subst body)
  | .letIn name defn body => .letIn name (apply subst defn) (apply subst body)
  | .letRec bindings body => .letRec (applyFields subst bindings) (apply subst body)
  | .ite cond thenExpr elseExpr =>
      .ite (apply subst cond) (apply subst thenExpr) (apply subst elseExpr)
  | .matchWith scrutinee arms => .matchWith (apply subst scrutinee) (applyArms subst arms)

def applyElems (subst : Subst) : List TypedExpr → List TypedExpr
  | [] => []
  | elem :: elems => apply subst elem :: applyElems subst elems

def applyFields (subst : Subst) : List (Symbol × TypedExpr) → List (Symbol × TypedExpr)
  | [] => []
  | (name, expr) :: fields => (name, apply subst expr) :: applyFields subst fields

def applyArms (subst : Subst) : List (Pattern × TypedExpr) → List (Pattern × TypedExpr)
  | [] => []
  | (pattern, expr) :: arms => (pattern, apply subst expr) :: applyArms subst arms

end

end TypedExpr

end RexLang
