import Lexiscope.Decimal.Binary
import Lexiscope.Machine.Compare
import Lexiscope.Machine.Store
/-!
# Operators

Integers have 64 bits, and a result out of range is an exception. An integer beside a float
counts as a float, and a truth value as an integer.
-/

namespace Lexiscope.Machine

open Exec
open Grammar (BinaryOp UnaryOp CompareOp)

def checked (result : Option Int64) (operation : String) : Exec Value :=
  match result with
  | some n => pure (.int n)
  | none => raise .overflowError ("integer overflow in " ++ operation)

/-- The result of an integer operation that is taken to be in range. The machine stops if it is
not. -/
def unchecked (result : Option Int64) : Exec Int64 :=
  match result with
  | some n => pure n
  | none => throw .trapped

def floatBinary (op : BinaryOp) (a b : Double) : Exec Value :=
  match op with
  | .add => pure (.float (a.add b))
  | .sub => pure (.float (a.sub b))
  | .mul => pure (.float (a.mul b))
  | .div =>
    if b.isZero then raise .zeroDivisionError "float division by zero"
    else pure (.float (a.div b))
  | .floorDiv =>
    if b.isZero then raise .zeroDivisionError "float floor division by zero"
    else pure (.float (a.div b).floor)
  | .mod =>
    if b.isZero then raise .zeroDivisionError "float modulo"
    else
      let r := Decimal.remainder a b
      pure (.float (if !r.isZero && r.isNegative != b.isNegative then r.add b else r))
  | .pow => pure (.float (a.pow b))

/-- The quotient rounded down, by a divisor that is not zero. The machine rounds toward zero, so a
quotient below zero that is not whole is one too great. -/
def floorQuotient (a b : Int64) : Exec Value := do
  let q ← orRaise (Word.quotient? a b) .overflowError "integer overflow in floor division"
  let r ← unchecked (Word.remainder? a b)
  if r != 0 && decide (a < 0) != decide (b < 0) then return .int (← unchecked (Word.sub? q 1))
  else return .int q

/-- The remainder with the sign of the dividend. By -1 it is always 0, but the machine finds none if
the quotient is out of range. -/
def truncatedRemainder (a b : Int64) : Exec Int64 :=
  if b == -1 then pure 0 else unchecked (Word.remainder? a b)

/-- The remainder with the sign of the divisor, which is not zero. -/
def floorRemainder (a b : Int64) : Exec Value := do
  let r ← truncatedRemainder a b
  if r != 0 && decide (r < 0) != decide (b < 0) then return .int (← unchecked (Word.add? r b))
  else return .int r

/-- An operation on integers. Only a division and a power with a negative exponent leave
them. -/
def intBinary (op : BinaryOp) (a b : Int64) : Exec Value :=
  match op with
  | .add => checked (Word.add? a b) "addition"
  | .sub => checked (Word.sub? a b) "subtraction"
  | .mul => checked (Word.mul? a b) "multiplication"
  | .div =>
    if b == 0 then raise .zeroDivisionError "division by zero"
    else floatBinary .div (.ofInt64 a) (.ofInt64 b)
  | .floorDiv =>
    if b == 0 then raise .zeroDivisionError "integer division or modulo by zero"
    else floorQuotient a b
  | .mod =>
    if b == 0 then raise .zeroDivisionError "integer division or modulo by zero"
    else floorRemainder a b
  | .pow =>
    if 0 ≤ b then checked (Word.pow? a b.toInt.toNat) "exponentiation"
    else if a == 0 then raise .zeroDivisionError "0.0 cannot be raised to a negative power"
    else floatBinary .pow (.ofInt64 a) (.ofInt64 b)

/-- The longest text or sequence that a repetition may make. -/
def repeatLimit : Nat := 4294967296

def repeated {α : Type} (items : List α) (times : Nat) : List α :=
  (List.replicate times items).flatten

/-- A sequence several times over. Fewer than no times is none. -/
def repeatValue (times : Int64) (v : Value) : Exec (Option Value) := do
  let times := times.toInt.toNat
  match v with
  | .str s =>
    if s.text.isEmpty then return some (← newStr "")
    if repeatLimit < s.text.length * times then throw .tooLong
    return some (← newStr (String.ofList (repeated s.text.toList times)))
  | .list r =>
    let items := ((← get).list r).toList
    if items.isEmpty then return some (← newList #[])
    if repeatLimit < items.length * times then throw .tooLong
    return some (← newList (repeated items times).toArray)
  | .tuple _ items =>
    if items.isEmpty then return some (← newTuple [])
    if repeatLimit < items.length * times then throw .tooLong
    return some (← newTuple (repeated items times))
  | _ => return none

/-- The exception that an operator knows no such operands. -/
def unsupported {α : Type} (op : BinaryOp) (left right : Value) : Exec α :=
  typeError ("unsupported operand type(s) for " ++ op.symbol ++ ": '" ++ left.typeName ++
    "' and '" ++ right.typeName ++ "'")

/-- An operation on two values that are not both numbers: sequences of one type are joined,
and a sequence is repeated. -/
def sequenceBinary (op : BinaryOp) (left right : Value) : Exec Value := do
  match op, left, right with
  | .add, .str a, .str b => newStr (a.text ++ b.text)
  | .add, .list a, .list b => newList ((← get).list a ++ (← get).list b)
  | .add, .tuple _ as, .tuple _ bs => newTuple (as ++ bs)
  | .mul, v, .int n | .mul, .int n, v =>
    match ← repeatValue n v with
    | some v => return v
    | none => unsupported op left right
  | _, _, _ => unsupported op left right

def binary (op : BinaryOp) (left right : Value) : Exec Value :=
  match left.number?, right.number? with
  | some (.int a), some (.int b) => intBinary op a b
  | some a, some b => floatBinary op a.toDouble b.toDouble
  | _, _ => sequenceBinary op left right

def unary (op : UnaryOp) (v : Value) : Exec Value := do
  match op, v.number? with
  | .not, _ => return .bool (!v.isTruthy (← get))
  | .neg, some (.int n) => checked (Word.neg? n) "negation"
  | .neg, some (.float x) => return .float x.neg
  | .pos, some (.int n) => return .int n
  | .pos, some (.float x) => return .float x
  | _, none =>
    typeError ("bad operand type for unary " ++ op.symbol ++ ": '" ++ v.typeName ++ "'")

def occursIn (part : List Char) : List Char → Bool
  | [] => part.isEmpty
  | c :: cs => part.isPrefixOf (c :: cs) || occursIn part cs

def contains (container item : Value) : Exec Bool := do
  match container with
  | .list r =>
    let s ← get
    return (s.list r).any (·.equal s item)
  | .tuple _ items =>
    let s ← get
    return items.any (·.equal s item)
  | .dict r => return ((← get).dict r).contains (← key item)
  | .str s =>
    match item with
    | .str part => return occursIn part.text.toList s.text.toList
    | other =>
      typeError ("'in <string>' requires string as left operand, not " ++ other.typeName)
  | .range r =>
    match item.number? with
    | some (.int n) => return r.contains n
    | _ => return false
  | other => typeError ("argument of type '" ++ other.typeName ++ "' is not iterable")

def unordered {α : Type} (symbol : String) (left right : Value) : Exec α :=
  typeError ("'" ++ symbol ++ "' not supported between instances of '" ++ left.typeName ++
    "' and '" ++ right.typeName ++ "'")

def orderOf (symbol : String) (left right : Value) : Exec Ordering := do
  match left.order (← get) right with
  | some o => return o
  | none => unordered symbol left right

def compareValues (op : CompareOp) (left right : Value) : Exec Bool := do
  match op with
  | .eq => return left.equal (← get) right
  | .notEq => return !left.equal (← get) right
  | .is => return left.same right
  | .isNot => return !left.same right
  | .in => contains right left
  | .notIn => return !(← contains right left)
  | .lt => return (← orderOf op.symbol left right) == .lt
  | .ltE => return (← orderOf op.symbol left right) != .gt
  | .gt => return (← orderOf op.symbol left right) == .gt
  | .gtE => return (← orderOf op.symbol left right) != .lt

end Lexiscope.Machine
