import Lexiscope.Machine.Builtins.Conversion
import Lexiscope.Machine.Builtins.Method
import Lexiscope.Machine.Builtins.Sequence
/-!
# Calls of built-ins

What each built-in takes and does. Those that make a class need the machine and are not here.
-/

namespace Lexiscope.Machine

open Exec

def callBuiltin (supply : Supply) (b : Builtin) (args : List Value) (keywords : Keywords) :
    Exec Value := do
  let positional (least most : Nat) : Exec Unit :=
    requirePositional b.name least most args keywords
  let first := args.getD 0 .none
  match b with
  | .print => printLine args keywords
  | .len => positional 1 1; lengthOf first
  | .min => refuseKeywords b.name keywords; extreme supply b.name "<" .lt args
  | .max => refuseKeywords b.name keywords; extreme supply b.name ">" .gt args
  | .abs => positional 1 1; absolute first
  | .sum =>
    positional 1 2
    sumFrom (args.getD 1 (.int 0)) (← supply.all first).toList
  | .range => positional 1 3; rangeOf args
  | .list => positional 0 1; toList supply args.head?
  | .tuple => positional 0 1; toTuple supply args.head?
  | .dict => requireCount b.name 0 1 args; toDict supply args.head? keywords
  | .str => positional 0 1; toText args.head?
  | .int => positional 0 1; toInteger args.head?
  | .float => positional 0 1; toFloating args.head?
  | .bool => positional 0 1; toBoolean args.head?
  | .repr => positional 1 1; newStr (first.render (← get))
  | .next => positional 1 2; nextOf supply first args[1]?
  | .iter => positional 1 1; makeIterator first
  | .sorted =>
    requireCount b.name 1 1 args
    let descending ← readReverse (← get) false keywords
    sortItems (← supply.all first).toList descending
  | .enumerate =>
    requireCount b.name 1 1 args
    let count ← readStart 0 keywords
    newIterator (.enumerate (← makeIterator first) count)
  | .zip => refuseKeywords b.name keywords; newIterator (.zip (← args.mapM makeIterator))
  | .isinstance => positional 2 2; return .bool (← isInstance first (args.getD 1 .none))
  | .listAppend | .listPop => callListMethod b args keywords
  | .dictGet | .dictKeys | .dictValues | .dictItems => callDictMethod b args keywords
  | .strUpper | .strLower | .strJoin => callStrMethod supply b args keywords
  | .buildClass => typeError "__build_class__: expected a class body and a name"

def requireClasses : List Value → Exec (List Class)
  | [] => pure []
  | .type c :: rest => do return c :: (← requireClasses rest)
  | other :: _ => typeError ("class bases must be classes, not '" ++ other.typeName ++ "'")

end Lexiscope.Machine
