/-!
# Doubles

Floating-point numbers of 64 bits, held as their bits. A value that is not a number has a sign
too, which operations pass on; only a comparison of the bits can see it.
-/

namespace Lexiscope

/-- A floating-point number of 64 bits. -/
structure Double where
  bits : UInt64
  deriving DecidableEq, Repr, Inhabited

namespace Double

def signBit : UInt64 := 0x8000000000000000

def zero : Double := ⟨0⟩

def infinity : Double := ⟨0x7FF0000000000000⟩

def nan : Double := ⟨0x7FF8000000000000⟩

def neg (x : Double) : Double := ⟨x.bits ^^^ signBit⟩

def abs (x : Double) : Double := ⟨x.bits &&& ~~~signBit⟩

def isNaN (x : Double) : Bool := infinity.bits < x.abs.bits

def isFinite (x : Double) : Bool := x.abs.bits < infinity.bits

/-- What an operation gives on numbers for which it has no result. It has a sign. -/
def undefined : Double := nan.neg

/-- The value in arithmetic, where the sign of what is not a number is lost. -/
def toFloat (x : Double) : Float := Float.ofBits x.bits

def ofInt64 (n : Int64) : Double := ⟨n.toFloat.toBits⟩

/-- The result of an operation. One that is not a number is the first operand that is none
either, if there is one. -/
def result (a b : Double) (x : Float) : Double :=
  if x.isNaN then
    if a.isNaN then a else if b.isNaN then b else undefined
  else ⟨x.toBits⟩

def add (a b : Double) : Double := result a b (a.toFloat + b.toFloat)

def sub (a b : Double) : Double := result a b (a.toFloat - b.toFloat)

def mul (a b : Double) : Double := result a b (a.toFloat * b.toFloat)

def div (a b : Double) : Double := result a b (a.toFloat / b.toFloat)

def pow (a b : Double) : Double := result a b (a.toFloat.pow b.toFloat)

def floor (a : Double) : Double := result a a a.toFloat.floor

/-- Both are the same number. Zeros are equal whatever their signs, and what is not a number
equals nothing. -/
def equals (a b : Double) : Bool := a.toFloat == b.toFloat

def isBelow (a b : Double) : Bool := a.toFloat < b.toFloat

def isZero (x : Double) : Bool := x.equals zero

def isNegative (x : Double) : Bool := x.isBelow zero

theorem neg_neg (x : Double) : x.neg.neg = x := by
  rw [neg, neg, UInt64.xor_assoc, UInt64.xor_self, UInt64.xor_zero]

end Double

end Lexiscope
