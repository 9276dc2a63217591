import Lexiscope.Code.Basic
import Lexiscope.Decimal.Layout
import Lexiscope.Text.Escaped
import Lexiscope.Text.Lines
/-!
# Listings of code

A listing shows the instructions of a code object one per row, each with its operand and
with what the operand refers to, and then the listings of the code objects inside it.
-/

namespace Lexiscope.Code

open Grammar (BinaryOp UnaryOp CompareOp)

def binaryWord : BinaryOp → String
  | .add => "Add" | .sub => "Sub" | .mul => "Mul" | .div => "Div"
  | .floorDiv => "FloorDiv" | .mod => "Mod" | .pow => "Pow"

def unaryWord : UnaryOp → String
  | .neg => "Neg" | .pos => "Pos" | .not => "Not"

def compareWord : CompareOp → String
  | .eq => "Eq" | .notEq => "NotEq" | .lt => "Lt" | .ltE => "LtE" | .gt => "Gt"
  | .gtE => "GtE" | .in => "In" | .notIn => "NotIn" | .is => "Is" | .isNot => "IsNot"

def Instr.words : Instr → String × Option String
  | loadConst i => ("LoadConst", toString i)
  | loadFast i => ("LoadFast", toString i)
  | storeFast i => ("StoreFast", toString i)
  | loadDeref i => ("LoadDeref", toString i)
  | storeDeref i => ("StoreDeref", toString i)
  | loadClosure i => ("LoadClosure", toString i)
  | loadClassDeref i => ("LoadClassDeref", toString i)
  | loadGlobal i => ("LoadGlobal", toString i)
  | storeGlobal i => ("StoreGlobal", toString i)
  | loadName i => ("LoadName", toString i)
  | storeName i => ("StoreName", toString i)
  | loadAttr i => ("LoadAttr", toString i)
  | storeAttr i => ("StoreAttr", toString i)
  | loadSubscript => ("LoadSubscript", none)
  | storeSubscript => ("StoreSubscript", none)
  | unary op => ("Unary", unaryWord op)
  | binary op => ("Binary", binaryWord op)
  | compare op => ("Compare", compareWord op)
  | buildList n => ("BuildList", toString n)
  | buildTuple n => ("BuildTuple", toString n)
  | buildDict n => ("BuildDict", toString n)
  | unpackSequence n => ("UnpackSequence", toString n)
  | call n => ("Call", toString n)
  | callKw n => ("CallKw", toString n)
  | makeFunction bits => ("MakeFunction", toString bits)
  | loadBuildClass => ("LoadBuildClass", none)
  | jump t => ("Jump", toString t)
  | jumpIfFalse t => ("JumpIfFalse", toString t)
  | jumpIfTrue t => ("JumpIfTrue", toString t)
  | jumpIfFalseOrPop t => ("JumpIfFalseOrPop", toString t)
  | jumpIfTrueOrPop t => ("JumpIfTrueOrPop", toString t)
  | jumpForward n => ("JumpForward", toString n)
  | getIter => ("GetIter", none)
  | forIter t => ("ForIter", toString t)
  | pop => ("Pop", none)
  | dup => ("Dup", none)
  | dupTwo => ("DupTwo", none)
  | rot2 => ("Rot2", none)
  | rot3 => ("Rot3", none)
  | yieldValue => ("YieldValue", none)
  | await => ("Await", none)
  | raise => ("Raise", none)
  | raiseAssert => ("RaiseAssert", none)
  | returnValue => ("ReturnValue", none)
  | snapshotLocals => ("SnapshotLocals", none)

def Instr.render (i : Instr) : String :=
  match i.words with
  | (word, none) => word
  | (word, some operand) => word ++ "(" ++ operand ++ ")"

def Constant.render : Constant Object → String
  | none => "None"
  | ellipsis => "Ellipsis"
  | bool b => if b then "True" else "False"
  | int n => toString n.toInt
  | float x => Decimal.marked.write x
  | str s => Text.Escaped.render s
  | code c => "<code " ++ c.qualname ++ ">"
  | names ns => "(" ++ String.intercalate ", " (ns.map Text.Escaped.render) ++ ")"
  | marker m => m.render

def Object.note? (c : Object) : Instr → Option String
  | .loadConst i => c.constants[i]?.map Constant.render
  | .loadFast i | .storeFast i => c.varnames[i]?
  | .loadDeref i | .storeDeref i | .loadClosure i | .loadClassDeref i => c.derefName? i
  | .loadGlobal i | .storeGlobal i | .loadName i | .storeName i | .loadAttr i
  | .storeAttr i => c.names[i]?
  | _ => none

def alignRight (n : Nat) : String :=
  let digits := toString n
  String.ofList (List.replicate (5 - digits.length) ' ') ++ digits

def Object.row (c : Object) (pc : Nat) (i : Instr) : String :=
  let note := match c.note? i with
    | some note => " (" ++ note ++ ")"
    | none => ""
  alignRight pc ++ " " ++ i.render ++ note

mutual

/-- The rows of a listing. A blank row stands before each inner listing. -/
def Object.rows : Object → List String
  | ⟨name, qualname, instructions, ⟨constants⟩, names, varnames, cellvars, freevars, argCount,
      keywordOnlyCount, flags, cellParams⟩ =>
    let c : Object := ⟨name, qualname, instructions, ⟨constants⟩, names, varnames, cellvars,
      freevars, argCount, keywordOnlyCount, flags, cellParams⟩
    ("code " ++ qualname ++ " (" ++ flags.render ++ ")") ::
      instructions.toList.zipIdx.map (fun p => c.row p.2 p.1) ++ innerRows constants

def innerRows : List (Constant Object) → List String
  | [] => []
  | .code c :: rest => "" :: c.rows ++ innerRows rest
  | .none :: rest | .ellipsis :: rest | .bool _ :: rest | .int _ :: rest | .float _ :: rest
  | .str _ :: rest | .names _ :: rest | .marker _ :: rest => innerRows rest

end

/-- The lines of a listing. A row is one line, unless a name in it has line breaks. -/
def Object.listing (c : Object) : List String := c.rows.flatMap Text.lines

end Lexiscope.Code
