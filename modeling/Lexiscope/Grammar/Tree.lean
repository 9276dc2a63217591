import Lexiscope.Grammar.Token
/-!
# Syntax trees

Expressions and statements as the grammar finds them. Every node ends with its span.
-/

namespace Lexiscope.Grammar

open Text (Span)

/-- Arithmetic with two operands. -/
inductive BinaryOp where
  | add | sub | mul | div | floorDiv | mod | pow
  deriving DecidableEq, Repr, Inhabited

def BinaryOp.symbol : BinaryOp → String
  | add => "+" | sub => "-" | mul => "*" | div => "/" | floorDiv => "//" | mod => "%"
  | pow => "**"

/-- Operators with one operand. -/
inductive UnaryOp where
  | neg | pos | not
  deriving DecidableEq, Repr, Inhabited

def UnaryOp.symbol : UnaryOp → String
  | neg => "-" | pos => "+" | not => "not"

/-- Comparisons. -/
inductive CompareOp where
  | eq | notEq | lt | ltE | gt | gtE | in | notIn | is | isNot
  deriving DecidableEq, Repr, Inhabited

def CompareOp.symbol : CompareOp → String
  | eq => "==" | notEq => "!=" | lt => "<" | ltE => "<=" | gt => ">" | gtE => ">="
  | CompareOp.in => "in" | notIn => "not in" | is => "is" | isNot => "is not"

/-- Operators that may leave their right operand unevaluated. -/
inductive BoolOp where
  | and | or
  deriving DecidableEq, Repr, Inhabited

/-- Expressions. -/
inductive Expr where
  | none (span : Span)
  | ellipsis (span : Span)
  | bool (value : Bool) (span : Span)
  | int (value : Int64) (span : Span)
  | float (value : Double) (span : Span)
  | str (text : String) (span : Span)
  | name (name : Name) (span : Span)
  | list (items : List Expr) (span : Span)
  | tuple (items : List Expr) (span : Span)
  | dict (entries : List (Expr × Expr)) (span : Span)
  | member (value : Expr) (attr : Name) (span : Span)
  | subscript (value index : Expr) (span : Span)
  | call (callee : Expr) (args : List Expr) (keywords : List (Name × Expr)) (span : Span)
  | unary (op : UnaryOp) (operand : Expr) (span : Span)
  | binary (op : BinaryOp) (left right : Expr) (span : Span)
  | compare (op : CompareOp) (left right : Expr) (span : Span)
  | boolean (op : BoolOp) (left right : Expr) (span : Span)
  | conditional (test body orelse : Expr) (span : Span)
  | yield (value : Option Expr) (span : Span)
  | await (value : Expr) (span : Span)
  deriving Inhabited

namespace Expr

def span : Expr → Span
  | none s | ellipsis s | bool _ s | int _ s | float _ s | str _ s | name _ s | list _ s
  | tuple _ s | dict _ s | member _ _ s | subscript _ _ s | call _ _ _ s | unary _ _ s
  | binary _ _ _ s | compare _ _ _ s | boolean _ _ _ s | conditional _ _ _ s | yield _ s
  | await _ s => s

def withSpan (s : Span) : Expr → Expr
  | none _ => none s
  | ellipsis _ => ellipsis s
  | bool b _ => bool b s
  | int n _ => int n s
  | float x _ => float x s
  | str t _ => str t s
  | name n _ => name n s
  | list es _ => list es s
  | tuple es _ => tuple es s
  | dict es _ => dict es s
  | member e a _ => member e a s
  | subscript e i _ => subscript e i s
  | call f as ks _ => call f as ks s
  | unary o e _ => unary o e s
  | binary o l r _ => binary o l r s
  | compare o l r _ => compare o l r s
  | boolean o l r _ => boolean o l r s
  | conditional t b e _ => conditional t b e s
  | yield e _ => yield e s
  | await e _ => await e s

end Expr

/-- A parameter with one value of its own. -/
structure Param where
  name : Name
  default : Option Expr
  span : Span
  deriving Inhabited

/-- The parameters of a function: positional ones, one for surplus positional arguments,
keyword-only ones, and one for surplus keywords. -/
structure Params where
  positional : List Param := []
  rest : Option Name := none
  keywordOnly : List Param := []
  restKeywords : Option Name := none
  deriving Inhabited

/-- The names of all parameters in the order of their slots. -/
def Params.names (p : Params) : List Name :=
  p.positional.map (·.name) ++ p.rest.toList ++ p.keywordOnly.map (·.name) ++
    p.restKeywords.toList

/-- Statements. -/
inductive Stmt where
  | expr (value : Expr) (span : Span)
  | assign (targets : List Expr) (value : Expr) (span : Span)
  | augAssign (target : Expr) (op : BinaryOp) (value : Expr) (span : Span)
  | define (name : Name) (params : Params) (body : List Stmt) (isAsync : Bool) (span : Span)
  | classDef (name : Name) (bases : List Expr) (body : List Stmt) (span : Span)
  | ret (value : Option Expr) (span : Span)
  | cond (test : Expr) (body orelse : List Stmt) (span : Span)
  | loop (test : Expr) (body : List Stmt) (span : Span)
  | each (target iter : Expr) (body : List Stmt) (span : Span)
  | brk (span : Span)
  | cont (span : Span)
  | pass (span : Span)
  | global (names : List Name) (span : Span)
  | nonlocal (names : List Name) (span : Span)
  | raise (value : Expr) (span : Span)
  | assert (test : Expr) (message : Option Expr) (span : Span)
  deriving Inhabited

def Stmt.span : Stmt → Span
  | expr _ s | assign _ _ s | augAssign _ _ _ s | define _ _ _ _ s | classDef _ _ _ s
  | ret _ s | cond _ _ _ s | loop _ _ s | each _ _ _ s | brk s | cont s | pass s
  | global _ s | nonlocal _ s | raise _ s | assert _ _ s => s

end Lexiscope.Grammar
