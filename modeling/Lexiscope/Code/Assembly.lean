import Lexiscope.Code.Instruction
/-!
# Instructions in text

An instruction can be written as its name, a space and its operand: a number, or the symbol
of an operator.
-/

namespace Lexiscope.Code

open Grammar (UnaryOp BinaryOp CompareOp)

def plainInstrs : List (String × Instr) :=
  [("LoadSubscript", .loadSubscript), ("StoreSubscript", .storeSubscript),
    ("LoadBuildClass", .loadBuildClass), ("GetIter", .getIter), ("Pop", .pop), ("Dup", .dup),
    ("DupTwo", .dupTwo), ("Rot2", .rot2), ("Rot3", .rot3), ("YieldValue", .yieldValue),
    ("Await", .await), ("Raise", .raise), ("RaiseAssert", .raiseAssert),
    ("ReturnValue", .returnValue), ("SnapshotLocals", .snapshotLocals)]

def countedInstrs : List (String × (Nat → Instr)) :=
  [("LoadConst", .loadConst), ("LoadFast", .loadFast), ("StoreFast", .storeFast),
    ("LoadDeref", .loadDeref), ("StoreDeref", .storeDeref), ("LoadClosure", .loadClosure),
    ("LoadClassDeref", .loadClassDeref), ("LoadGlobal", .loadGlobal),
    ("StoreGlobal", .storeGlobal), ("LoadName", .loadName), ("StoreName", .storeName),
    ("LoadAttr", .loadAttr), ("StoreAttr", .storeAttr), ("BuildList", .buildList),
    ("BuildTuple", .buildTuple), ("BuildDict", .buildDict),
    ("UnpackSequence", .unpackSequence), ("Call", .call), ("CallKw", .callKw),
    ("MakeFunction", .makeFunction), ("Jump", .jump), ("JumpIfFalse", .jumpIfFalse),
    ("JumpIfTrue", .jumpIfTrue), ("JumpIfFalseOrPop", .jumpIfFalseOrPop),
    ("JumpIfTrueOrPop", .jumpIfTrueOrPop), ("JumpForward", .jumpForward),
    ("ForIter", .forIter)]

def operatorInstr (word symbol : String) : Option Instr :=
  match word with
  | "Unary" => ([UnaryOp.neg, .pos, .not].find? (·.symbol == symbol)).map .unary
  | "Binary" =>
    ([BinaryOp.add, .sub, .mul, .div, .floorDiv, .mod, .pow].find?
      (·.symbol == symbol)).map .binary
  | "Compare" =>
    ([CompareOp.eq, .notEq, .lt, .ltE, .gt, .gtE, .in, .notIn, .is, .isNot].find?
      (·.symbol == symbol)).map .compare
  | _ => none

/-- The instruction that a text stands for. An operand that is no number counts as zero. -/
def Instr.read? (text : String) : Option Instr :=
  let word := String.ofList (text.toList.takeWhile (· != ' '))
  let operand := String.ofList (text.toList.drop (word.length + 1))
  match plainInstrs.lookup word, countedInstrs.lookup word with
  | some i, _ => some i
  | none, some make => some (make (operand.toNat?.getD 0))
  | none, none => operatorInstr word operand

end Lexiscope.Code
