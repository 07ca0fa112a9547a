import Mathlib.Data.Finset.Union
import RexLang.Ast

/-!
# Types, schemes and type declarations

The types of `rex-typesystem`, substitutions on them, and the declarations of
algebraic data types.
-/

namespace RexLang

abbrev TypeVarId := Nat

inductive BuiltinTypeId where
  | u8 | u16 | u32 | u64 | i8 | i16 | i32 | i64 | f32 | f64
  | bool | char | string | uuid | hash | dateTime
  | list | dict | option | promise | result
deriving DecidableEq

namespace BuiltinTypeId

def asStr : BuiltinTypeId → Symbol
  | u8 => "u8"
  | u16 => "u16"
  | u32 => "u32"
  | u64 => "u64"
  | i8 => "i8"
  | i16 => "i16"
  | i32 => "i32"
  | i64 => "i64"
  | f32 => "f32"
  | f64 => "f64"
  | bool => "Bool"
  | char => "Char"
  | string => "String"
  | uuid => "UUID"
  | hash => "Hash"
  | dateTime => "DateTime"
  | list => "List"
  | dict => "Dict"
  | option => "Option"
  | promise => "Promise"
  | result => "Result"

def arity : BuiltinTypeId → Nat
  | list | dict | option | promise => 1
  | result => 2
  | _ => 0

def all : List BuiltinTypeId :=
  [u8, u16, u32, u64, i8, i16, i32, i64, f32, f64, bool, char, string, uuid, hash, dateTime,
    list, dict, option, promise, result]

def fromName (name : Symbol) : Option BuiltinTypeId :=
  all.find? (·.asStr = name)

theorem fromName_asStr (id : BuiltinTypeId) : fromName id.asStr = some id := by
  cases id <;> rfl

end BuiltinTypeId

structure TypeVar where
  id : TypeVarId
  name : Option Symbol
deriving DecidableEq

inductive TypeConst where
  | builtin (id : BuiltinTypeId)
  | user (name : Symbol) (arity : Nat)
deriving DecidableEq

namespace TypeConst

def builtinId : TypeConst → Option BuiltinTypeId
  | builtin id => some id
  | user _ _ => none

def nameStr : TypeConst → Symbol
  | builtin id => id.asStr
  | user name _ => name

def userName : TypeConst → Option Symbol
  | builtin _ => none
  | user name _ => some name

def arity : TypeConst → Nat
  | builtin id => id.arity
  | user _ arity => arity

end TypeConst

/-- `Type`. -/
inductive Typ where
  | var (typeVar : TypeVar)
  | con (const : TypeConst)
  | app (head arg : Typ)
  | func (arg ret : Typ)
  | tuple (elems : List Typ)
  | record (fields : List (Symbol × Typ))

namespace Typ

def builtin (id : BuiltinTypeId) : Typ :=
  .con (.builtin id)

def userCon (name : Symbol) (arity : Nat) : Typ :=
  .con (.user name arity)

/-- `Type::con`. -/
def named (name : Symbol) (arity : Nat) : Typ :=
  match BuiltinTypeId.fromName name with
  | some id => if id.arity = arity then builtin id else userCon name arity
  | none => userCon name arity

def list (elem : Typ) : Typ :=
  .app (builtin .list) elem

def dict (elem : Typ) : Typ :=
  .app (builtin .dict) elem

def option (elem : Typ) : Typ :=
  .app (builtin .option) elem

def result (ok err : Typ) : Typ :=
  .app (.app (builtin .result) err) ok

/-- `Type::record`: the fields sorted by name. -/
def mkRecord (fields : List (Symbol × Typ)) : Typ :=
  .record (fields.mergeSort fun first second => decide (first.1 ≤ second.1))

/-! ## Substitutions -/

end Typ

/-- A substitution, looked up from the front. -/
abbrev Subst := List (TypeVarId × Typ)

namespace Typ

mutual

/-- `apply`. -/
def apply (subst : Subst) : Typ → Typ
  | .var typeVar => (subst.lookup typeVar.id).getD (.var typeVar)
  | .con const => .con const
  | .app head arg => .app (apply subst head) (apply subst arg)
  | .func arg ret => .func (apply subst arg) (apply subst ret)
  | .tuple elems => .tuple (applyList subst elems)
  | .record fields => .record (applyFields subst fields)

def applyList (subst : Subst) : List Typ → List Typ
  | [] => []
  | typ :: types => apply subst typ :: applyList subst types

def applyFields (subst : Subst) : List (Symbol × Typ) → List (Symbol × Typ)
  | [] => []
  | (name, typ) :: fields => (name, apply subst typ) :: applyFields subst fields

end

mutual

/-- `ftv`. -/
def ftv : Typ → Finset TypeVarId
  | .var typeVar => {typeVar.id}
  | .con _ => ∅
  | .app head arg => ftv head ∪ ftv arg
  | .func arg ret => ftv arg ∪ ftv ret
  | .tuple elems => ftvList elems
  | .record fields => ftvFields fields

def ftvList : List Typ → Finset TypeVarId
  | [] => ∅
  | typ :: types => ftv typ ∪ ftvList types

def ftvFields : List (Symbol × Typ) → Finset TypeVarId
  | [] => ∅
  | (_, typ) :: fields => ftv typ ∪ ftvFields fields

end

/-- A type without type variables. -/
def Ground (typ : Typ) : Prop :=
  typ.ftv = ∅

/-! ## Printing -/

mutual

/-- `Display for Type`. -/
def display : Typ → String
  | .var ⟨_, some name⟩ => "'" ++ name
  | .var ⟨id, none⟩ => "t" ++ toString id
  | .con const => const.nameStr
  | .app (.app (.con (.builtin .result)) err) ok =>
      "(Result " ++ display ok ++ " " ++ display err ++ ")"
  | .app head arg => "(" ++ display head ++ " " ++ display arg ++ ")"
  | .func arg ret => "(" ++ display arg ++ " -> " ++ display ret ++ ")"
  | .tuple elems => "(" ++ displayList elems ++ ")"
  | .record fields => "\x7b" ++ displayFields fields ++ "\x7d"

def displayList : List Typ → String
  | [] => ""
  | [typ] => display typ
  | typ :: types => display typ ++ ", " ++ displayList types

def displayFields : List (Symbol × Typ) → String
  | [] => ""
  | [(name, typ)] => name ++ ": " ++ display typ
  | (name, typ) :: fields => name ++ ": " ++ display typ ++ ", " ++ displayFields fields

end

end Typ

/-! ## Predicates and schemes -/

structure Predicate where
  className : Symbol
  typ : Typ

structure Scheme where
  vars : List TypeVar
  preds : List Predicate
  typ : Typ

/-! ## Algebraic data types -/

structure AdtParam where
  name : Symbol
  var : TypeVar
  docs : Option String := none

structure AdtField where
  name : Symbol
  typ : Typ
  docs : Option String := none

inductive AdtArgument where
  | positional (typ : Typ) (docs : Option String := none)
  | record (fields : List AdtField) (docs : Option String := none)

def AdtArgument.typ : AdtArgument → Typ
  | .positional typ _ => typ
  | .record fields _ => .mkRecord (fields.map fun field => (field.name, field.typ))

structure AdtVariant where
  name : Symbol
  args : List AdtArgument
  docs : Option String := none

structure AdtDecl where
  name : Symbol
  params : List AdtParam
  variants : List AdtVariant
  docs : Option String := none

/-- `result_type`: the constructor applied to the parameters. -/
def AdtDecl.resultType (decl : AdtDecl) : Typ :=
  decl.params.foldl (fun typ param => .app typ (.var param.var)) (.named decl.name decl.params.length)

/-! ## Names of constructors -/

/-- `rsplit('.').next()`: the text after the last dot. -/
def lastSegment (name : Symbol) : Symbol :=
  String.ofList (name.toList.reverse.takeWhile (· ≠ '.')).reverse

/-- `rsplit_once('.')`: the texts before and after the last dot. -/
def beforeLastDot (name : Symbol) : Option Symbol :=
  match name.toList.reverse.dropWhile (· ≠ '.') with
  | [] => none
  | _ :: before => some (String.ofList before.reverse)

def qualifiedConstructorName (adt variant : Symbol) : Symbol :=
  adt ++ "." ++ lastSegment variant

def compatibilityConstructorName (adt variant : Symbol) : Symbol :=
  match beforeLastDot adt with
  | some before => before ++ "." ++ lastSegment variant
  | none => lastSegment variant

end RexLang
