import Lexiscope.Machine.Store
/-!
# Truth, sameness, equality and order

Sameness is what the operator `is` finds, equality what `==` finds. Values of different types
are equal only if both are numbers. Order is defined between numbers, between texts, and
between sequences of one kind.
-/

namespace Lexiscope.Machine

def Value.isTruthy (s : Store) : Value → Bool
  | .none => false
  | .bool b => b
  | .int n => n != 0
  | .float x => !x.isZero
  | .str t => !t.text.isEmpty
  | .list r => !(s.list r).isEmpty
  | .tuple _ items => !items.isEmpty
  | .dict r => !(s.dict r).isEmpty
  | .range r => r.length != 0
  | _ => true

/-- Both are the same object, for values that are compared by identity alone. -/
def Value.sameObject : Value → Value → Bool
  | .function f, .function g => f.id == g.id
  | .builtin i b, .builtin j c => i == j && b == c
  | .method i _ _, .method j _ _ => i == j
  | .type c, .type d => c.space == d.space
  | .object _ a, .object _ b => a == b
  | .generator r, .generator q => r == q
  | .iterator r, .iterator q => r == q
  | .exception i _ _, .exception j _ _ => i == j
  | .exceptionType k, .exceptionType l => k == l
  | .cell r, .cell q => r == q
  | .code c, .code d => c.id == d.id
  | .marker m, .marker n => m.id == n.id
  | _, _ => false

/-- Both are the same for the operator `is`. A range is never the same, not even as itself. -/
def Value.same : Value → Value → Bool
  | .none, .none | .ellipsis, .ellipsis => true
  | .bool a, .bool b => a == b
  | .int a, .int b => a == b
  | .float a, .float b => a == b
  | .str a, .str b => a.id == b.id
  | .list a, .list b => a == b
  | .tuple a _, .tuple b _ => a == b
  | .dict a, .dict b => a == b
  | a, b => a.sameObject b

/-- Two numbers are equal. An integer is compared to a float as a float. -/
def Number.equal : Number → Number → Bool
  | .int a, .int b => a == b
  | a, b => a.toDouble.equals b.toDouble

def allRelated (related : Value → Value → Bool) : List Value → List Value → Bool
  | [], [] => true
  | a :: as, b :: bs => related a b && allRelated related as bs
  | _, _ => false

mutual

/-- Two values are equal, given the equality of lists and of dictionaries. -/
def Value.equalWith (list : ListRef → ListRef → Bool) (dict : DictRef → DictRef → Bool)
    (a b : Value) : Bool :=
  match a.number?, b.number? with
  | some m, some n => m.equal n
  | _, _ =>
    match a, b with
    | .none, .none | .ellipsis, .ellipsis => true
    | .str s, .str t => s.text == t.text
    | .list r, .list q => list r q
    | .tuple _ as, .tuple _ bs => allEqualWith list dict as bs
    | .dict r, .dict q => dict r q
    | .range r, .range q => r == q
    | a, b => a.sameObject b
termination_by structural a

def allEqualWith (list : ListRef → ListRef → Bool) (dict : DictRef → DictRef → Bool)
    (as bs : List Value) : Bool :=
  match as, bs with
  | [], [] => true
  | a :: as, b :: bs => a.equalWith list dict b && allEqualWith list dict as bs
  | _, _ => false
termination_by structural as

end

/-- Two values are equal with at most so many levels of lists and dictionaries. A container
equals itself. -/
def Value.equalTo (s : Store) : Nat → Value → Value → Bool
  | 0, a, b => a.equalWith (· == ·) (· == ·) b
  | n + 1, a, b =>
    a.equalWith
      (fun r q => r == q || allRelated (equalTo s n) (s.list r).toList (s.list q).toList)
      (fun r q => r == q || (s.dict r).sameBy (equalTo s n) (s.dict q)) b

def Value.equal (s : Store) (a b : Value) : Bool := a.equalTo s s.nesting b

/-- The order of two numbers. What is not a number is as great as everything. -/
def Number.order : Number → Number → Ordering
  | .int a, .int b => compare a.toInt b.toInt
  | a, b =>
    let x := a.toDouble
    let y := b.toDouble
    if x.isBelow y then .lt else if y.isBelow x then .gt else .eq

def orderText (a b : String) : Ordering :=
  if a < b then .lt else if a == b then .eq else .gt

/-- Sequences are ordered by their first different items, and else by their lengths. -/
def orderItems (equal : Value → Value → Bool) (order : Value → Value → Option Ordering) :
    List Value → List Value → Option Ordering
  | [], [] => some .eq
  | [], _ :: _ => some .lt
  | _ :: _, [] => some .gt
  | a :: as, b :: bs => if equal a b then orderItems equal order as bs else order a b

mutual

/-- The order of two values, given the order of lists. -/
def Value.orderWith (s : Store) (list : ListRef → ListRef → Option Ordering) (a b : Value) :
    Option Ordering :=
  match a.number?, b.number? with
  | some m, some n => some (m.order n)
  | _, _ =>
    match a, b with
    | .str a, .str b => some (orderText a.text b.text)
    | .list r, .list q => list r q
    | .tuple _ as, .tuple _ bs => orderAllWith s list as bs
    | _, _ => Option.none
termination_by structural a

def orderAllWith (s : Store) (list : ListRef → ListRef → Option Ordering)
    (as bs : List Value) : Option Ordering :=
  match as, bs with
  | [], [] => some .eq
  | [], _ :: _ => some .lt
  | _ :: _, [] => some .gt
  | a :: as, b :: bs =>
    if a.equal s b then orderAllWith s list as bs else a.orderWith s list b
termination_by structural as

end

/-- The order of two values with at most so many levels of lists. -/
def Value.orderTo (s : Store) : Nat → Value → Value → Option Ordering
  | 0, a, b => a.orderWith s (fun _ _ => Option.none) b
  | n + 1, a, b =>
    a.orderWith s (fun r q =>
      orderItems (Value.equal s) (orderTo s n) (s.list r).toList (s.list q).toList) b

def Value.order (s : Store) (a b : Value) : Option Ordering := a.orderTo s s.nesting b

end Lexiscope.Machine
