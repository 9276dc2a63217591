import Lexiscope.Grammar.Expression
/-!
# Expressions as tokens

The table of precedence, and how an expression is written with it: in parentheses only where it
stands in a place that asks for more than its own precedence. Tuples with items and `yield` have the
least, so they are in parentheses wherever they are part of another expression.
-/

namespace Lexiscope.Grammar

open Text (Span)

/-- The table, the loosest first. -/
inductive Precedence where
  | bare | conditional | disjunction | conjunction | negation | comparison | sum | product | sign
  | power | await | trailer | atom
  deriving DecidableEq, Repr

/-- The line of the table, counted from one. -/
def Precedence.rank : Precedence → Nat
  | bare => 1
  | conditional => 2
  | disjunction => 3
  | conjunction => 4
  | negation => 5
  | comparison => 6
  | sum => 7
  | product => 8
  | sign => 9
  | power => 10
  | await => 11
  | trailer => 12
  | atom => 13

namespace BinaryOp

def mark : BinaryOp → Mark
  | add => .plus
  | sub => .minus
  | mul => .star
  | div => .slash
  | floorDiv => .doubleSlash
  | mod => .percent
  | pow => .doubleStar

def precedence : BinaryOp → Precedence
  | add | sub => .sum
  | mul | div | floorDiv | mod => .product
  | pow => .power

/-- What the place of the left operand asks for. The operators of one line associate to the left,
but for the power. -/
def leftPlace : BinaryOp → Precedence
  | pow => .await
  | op => op.precedence

/-- What the place of the right operand asks for. An exponent may be a power or have a sign. -/
def rightPlace : BinaryOp → Precedence
  | add | sub => .product
  | mul | div | floorDiv | mod | pow => .sign

end BinaryOp

def CompareOp.marks : CompareOp → List Mark
  | eq => [.eqEq]
  | notEq => [.notEq]
  | lt => [.lt]
  | ltE => [.ltE]
  | gt => [.gt]
  | gtE => [.gtE]
  | CompareOp.in => [.kwIn]
  | notIn => [.kwNot, .kwIn]
  | is => [.kwIs]
  | isNot => [.kwIs, .kwNot]

namespace UnaryOp

def mark : UnaryOp → Mark
  | neg => .minus
  | pos => .plus
  | not => .kwNot

/-- The precedence of an operator with one operand, which is also what the operand needs. -/
def precedence : UnaryOp → Precedence
  | neg | pos => .sign
  | not => .negation

end UnaryOp

namespace BoolOp

def mark : BoolOp → Mark
  | and => .kwAnd
  | or => .kwOr

/-- The precedence of `and` and `or`, which is also what the left operand needs. -/
def precedence : BoolOp → Precedence
  | and => .conjunction
  | or => .disjunction

def rightPlace : BoolOp → Precedence
  | and => .negation
  | or => .conjunction

end BoolOp

def parenthesise (ks : List TokenKind) : List TokenKind :=
  .mark .lparen :: ks ++ [.mark .rparen]

/-- An expression of one precedence in a place that asks for another. -/
def enclose (own asked : Precedence) (ks : List TokenKind) : List TokenKind :=
  if own.rank < asked.rank then parenthesise ks else ks

def separate (parts : List (List TokenKind)) : List TokenKind :=
  List.intercalate [.mark .comma] parts

/-- Items of a tuple without its parentheses. A comma makes the tuple, also of a single item. -/
def tupleTokens (parts : List (List TokenKind)) : List TokenKind :=
  separate parts ++ if parts.length = 1 then [.mark .comma] else []

mutual

/-- The tokens of an expression in a place that asks for a precedence. -/
def Expr.write (p : Precedence) : Expr → List TokenKind
  | .none _ => [.mark .kwNone]
  | .ellipsis _ => [.mark .ellipsis]
  | .bool value _ => [.mark (if value then .kwTrue else .kwFalse)]
  | .int value _ => [.int value]
  | .float value _ => [.float value]
  | .str text _ => [.str text]
  | .name name _ => [.ident name]
  | .list items _ => .mark .lbracket :: separate (writeItems items) ++ [.mark .rbracket]
  | .tuple items _ =>
    if items.isEmpty then parenthesise [] else enclose .bare p (tupleTokens (writeItems items))
  | .dict entries _ => .mark .lbrace :: separate (writeEntries entries) ++ [.mark .rbrace]
  | .member value attr _ =>
    enclose .trailer p (value.write .trailer ++ [.mark .dot, .ident attr])
  | .subscript value index _ =>
    enclose .trailer p (value.write .trailer ++
      .mark .lbracket :: index.write .conditional ++ [.mark .rbracket])
  | .call callee args keywords _ =>
    enclose .trailer p (callee.write .trailer ++
      parenthesise (separate (writeItems args ++ writeKeywords keywords)))
  | .unary op operand _ =>
    enclose op.precedence p (.mark op.mark :: operand.write op.precedence)
  | .binary op left right _ =>
    enclose op.precedence p
      (left.write op.leftPlace ++ .mark op.mark :: right.write op.rightPlace)
  | .compare op left right _ =>
    enclose .comparison p (left.write .sum ++ op.marks.map .mark ++ right.write .sum)
  | .boolean op left right _ =>
    enclose op.precedence p
      (left.write op.precedence ++ .mark op.mark :: right.write op.rightPlace)
  | .conditional test body orelse _ =>
    enclose .conditional p (body.write .disjunction ++ .mark .kwIf :: test.write .disjunction ++
      .mark .kwElse :: orelse.write .conditional)
  | .yield none _ => enclose .bare p [.mark .kwYield]
  | .yield (some value) _ => enclose .bare p (.mark .kwYield :: value.write .conditional)
  | .await value _ => enclose .await p (.mark .kwAwait :: value.write .await)

def writeItems : List Expr → List (List TokenKind)
  | [] => []
  | e :: es => e.write .conditional :: writeItems es

def writeEntries : List (Expr × Expr) → List (List TokenKind)
  | [] => []
  | (key, value) :: es =>
    (key.write .conditional ++ .mark .colon :: value.write .conditional) :: writeEntries es

def writeKeywords : List (Name × Expr) → List (List TokenKind)
  | [] => []
  | (name, value) :: es =>
    (.ident name :: .mark .assign :: value.write .conditional) :: writeKeywords es

end

mutual

def Expr.bare : Expr → Expr
  | .none _ => .none .origin
  | .ellipsis _ => .ellipsis .origin
  | .bool value _ => .bool value .origin
  | .int value _ => .int value .origin
  | .float value _ => .float value .origin
  | .str text _ => .str text .origin
  | .name name _ => .name name .origin
  | .list items _ => .list (bareItems items) .origin
  | .tuple items _ => .tuple (bareItems items) .origin
  | .dict entries _ => .dict (bareEntries entries) .origin
  | .member value attr _ => .member value.bare attr .origin
  | .subscript value index _ => .subscript value.bare index.bare .origin
  | .call callee args keywords _ =>
    .call callee.bare (bareItems args) (bareKeywords keywords) .origin
  | .unary op operand _ => .unary op operand.bare .origin
  | .binary op left right _ => .binary op left.bare right.bare .origin
  | .compare op left right _ => .compare op left.bare right.bare .origin
  | .boolean op left right _ => .boolean op left.bare right.bare .origin
  | .conditional test body orelse _ => .conditional test.bare body.bare orelse.bare .origin
  | .yield none _ => .yield none .origin
  | .yield (some value) _ => .yield (some value.bare) .origin
  | .await value _ => .await value.bare .origin

def bareItems : List Expr → List Expr
  | [] => []
  | e :: es => e.bare :: bareItems es

def bareEntries : List (Expr × Expr) → List (Expr × Expr)
  | [] => []
  | (key, value) :: es => (key.bare, value.bare) :: bareEntries es

def bareKeywords : List (Name × Expr) → List (Name × Expr)
  | [] => []
  | (name, value) :: es => (name, value.bare) :: bareKeywords es

end

section Bare

variable {e : Expr}

theorem bare_eq_none (h : e.bare = .none .origin) :
    ∃ span, e = .none span := by
  cases e with
  | none =>
    cases h
    exact ⟨_, rfl⟩
  | yield value => cases value <;> cases h
  | _ => cases h

theorem bare_eq_bool {b : Bool} (h : e.bare = .bool b .origin) :
    ∃ span, e = .bool b span := by
  cases e with
  | bool =>
    cases h
    exact ⟨_, rfl⟩
  | yield value => cases value <;> cases h
  | _ => cases h

theorem bare_eq_int {m : Int64} (h : e.bare = .int m .origin) :
    ∃ span, e = .int m span := by
  cases e with
  | int =>
    cases h
    exact ⟨_, rfl⟩
  | yield value => cases value <;> cases h
  | _ => cases h

theorem bare_eq_str {text : String} (h : e.bare = .str text .origin) :
    ∃ span, e = .str text span := by
  cases e with
  | str =>
    cases h
    exact ⟨_, rfl⟩
  | yield value => cases value <;> cases h
  | _ => cases h

theorem bare_eq_name {name : Name} (h : e.bare = .name name .origin) :
    ∃ span, e = .name name span := by
  cases e with
  | name =>
    cases h
    exact ⟨_, rfl⟩
  | yield value => cases value <;> cases h
  | _ => cases h

theorem bare_eq_list {items : List Expr} (h : e.bare = .list items .origin) :
    ∃ es span, e = .list es span ∧ bareItems es = items := by
  cases e with
  | list =>
    cases h
    exact ⟨_, _, rfl, rfl⟩
  | yield value => cases value <;> cases h
  | _ => cases h

theorem bare_eq_tuple {items : List Expr} (h : e.bare = .tuple items .origin) :
    ∃ es span, e = .tuple es span ∧ bareItems es = items := by
  cases e with
  | tuple =>
    cases h
    exact ⟨_, _, rfl, rfl⟩
  | yield value => cases value <;> cases h
  | _ => cases h

theorem bare_eq_dict {entries : List (Expr × Expr)} (h : e.bare = .dict entries .origin) :
    ∃ es span, e = .dict es span ∧ bareEntries es = entries := by
  cases e with
  | dict =>
    cases h
    exact ⟨_, _, rfl, rfl⟩
  | yield value => cases value <;> cases h
  | _ => cases h

theorem bare_eq_unary {op : UnaryOp} {operand : Expr} (h : e.bare = .unary op operand .origin) :
    ∃ e' span, e = .unary op e' span ∧ e'.bare = operand := by
  cases e with
  | unary =>
    cases h
    exact ⟨_, _, rfl, rfl⟩
  | yield value => cases value <;> cases h
  | _ => cases h

end Bare

mutual

/-- No call in the expression has two keywords of one name. -/
def Expr.Distinct : Expr → Prop
  | .none _ | .ellipsis _ | .bool .. | .int .. | .float .. | .str .. | .name .. => True
  | .list items _ | .tuple items _ => ItemsDistinct items
  | .dict entries _ => EntriesDistinct entries
  | .member value _ _ | .unary _ value _ | .await value _ => value.Distinct
  | .subscript left right _ | .binary _ left right _ | .compare _ left right _
  | .boolean _ left right _ => left.Distinct ∧ right.Distinct
  | .call callee args keywords _ => callee.Distinct ∧ ItemsDistinct args ∧
    (keywords.map Prod.fst).Nodup ∧ KeywordsDistinct keywords
  | .conditional test body orelse _ => test.Distinct ∧ body.Distinct ∧ orelse.Distinct
  | .yield none _ => True
  | .yield (some value) _ => value.Distinct

def ItemsDistinct : List Expr → Prop
  | [] => True
  | e :: es => e.Distinct ∧ ItemsDistinct es

def EntriesDistinct : List (Expr × Expr) → Prop
  | [] => True
  | (key, value) :: es => key.Distinct ∧ value.Distinct ∧ EntriesDistinct es

def KeywordsDistinct : List (Name × Expr) → Prop
  | [] => True
  | (_, value) :: es => value.Distinct ∧ KeywordsDistinct es

end

end Lexiscope.Grammar
