import Lexiscope.Proofs.Machine.Changes
/-!
# Operations that change little

Attributes, items, iterators, arguments and built-ins. Those built-ins that draw items may run other
code, so they make the changes that this drawing makes.
-/

namespace Lexiscope.Machine

open Exec

variable {c : Change} {α : Type}

section Items

instance allows_bindTo {receiver callee : Value} : c.Allows (bindTo receiver callee) := by
  unfold bindTo
  infer_instance

instance allows_noAttribute {typeName name : Name} :
    c.Allows (noAttribute typeName name : Exec α) :=
  allows_raise

instance allows_getAttribute {v : Value} {name : Name} : c.Allows (getAttribute v name) := by
  unfold getAttribute
  refine allows_get.bind fun s => ?_
  cases v <;> dsimp only
  case object | type =>
    split
    · infer_instance
    · split <;> infer_instance
  case function | exception => infer_instance
  all_goals split <;> infer_instance

instance allows_resolveIndex {index : Value} {length : Nat} {what : String} :
    c.Allows (resolveIndex index length what) := by
  unfold resolveIndex
  split <;> infer_instance

instance allows_getItem {container index : Value} : c.Allows (getItem container index) := by
  unfold getItem
  refine allows_get.bind fun s => ?_
  cases container <;> dsimp only
  case range => exact allows_resolveIndex.bind fun i => by split <;> infer_instance
  case dict => exact allows_key.bind fun k => by split <;> infer_instance
  all_goals infer_instance

instance allows_setItem {container index value : Value} :
    c.Allows (setItem container index value) := by
  unfold setItem
  split <;> infer_instance

instance allows_notIterable {v : Value} : c.Allows (notIterable v : Exec α) :=
  allows_typeError

instance allows_makeIterator {v : Value} : c.Allows (makeIterator v) := by
  unfold makeIterator
  split <;> infer_instance

end Items

section Arguments

variable {code : Code.Object} {function : Name} {args : List Value} {keywords : Keywords}

instance allows_requireFilled {what : String} {names : List Name} {slots : Slots} :
    c.Allows (requireFilled function what names slots) := by
  unfold requireFilled
  split <;> infer_instance

instance allows_requireSlots {count : Nat} : c.Allows (requireSlots code count) := by
  unfold requireSlots
  infer_instance

instance allows_refuseSurplus {given : Nat} : c.Allows (refuseSurplus code given) := by
  unfold refuseSurplus
  infer_instance

instance allows_surplus {isTaken : Bool} {slots : Nat} {value : Exec Value} [c.Allows value] :
    c.Allows (surplus code isTaken slots value) := by
  unfold surplus
  infer_instance

instance allows_takeKeywords {names : List Name} {slots : Slots} :
    c.Allows (takeKeywords code names slots keywords) := by
  unfold takeKeywords
  refine allows_requireSlots.bind fun _ => ?_
  split <;> infer_instance

instance allows_bindArguments {f : FunctionValue} : c.Allows (bindArguments f args keywords) := by
  unfold bindArguments
  refine allows_requireSlots.bind fun _ => allows_refuseSurplus.bind fun _ => ?_
  refine allows_surplus.bind fun rest => allows_takeKeywords.bind fun taken => ?_
  infer_instance

instance allows_unexpectedKeyword {keyword : Name} :
    c.Allows (unexpectedKeyword function keyword : Exec α) :=
  allows_typeError

instance allows_refuseKeywords : c.Allows (refuseKeywords function keywords) := by
  unfold refuseKeywords
  split <;> infer_instance

instance allows_requireCount {least most : Nat} : c.Allows (requireCount function least most args) := by
  unfold requireCount
  infer_instance

instance allows_requirePositional {least most : Nat} :
    c.Allows (requirePositional function least most args keywords) := by
  unfold requirePositional
  infer_instance

instance allows_integerArgument {v : Value} : c.Allows (integerArgument function v) := by
  unfold integerArgument
  split <;> infer_instance

end Arguments

section Methods

variable {supply : Supply} {b : Builtin} {args : List Value} {keywords : Keywords}

instance allows_wrongReceiver {type : Name} : c.Allows (wrongReceiver type : Exec α) :=
  allows_typeError

instance allows_receiverList : c.Allows (receiverList args) := by
  unfold receiverList
  split <;> infer_instance

instance allows_receiverDict : c.Allows (receiverDict args) := by
  unfold receiverDict
  split <;> infer_instance

instance allows_receiverText : c.Allows (receiverText args) := by
  unfold receiverText
  split <;> infer_instance

instance allows_appendItem {r : ListRef} {item : Value} : c.Allows (appendItem r item) := by
  unfold appendItem
  infer_instance

instance allows_popItem {r : ListRef} {index : Option Value} : c.Allows (popItem r index) := by
  unfold popItem
  refine allows_get.bind fun s => ?_
  cases index <;> dsimp only
  · split
    · exact allows_raise.bind fun _ => allows_pure.bind fun i => by split <;> infer_instance
    · exact allows_pure.bind fun i => by split <;> infer_instance
  · split
    · exact allows_raise.bind fun _ =>
        allows_integerArgument.bind fun i => by split <;> infer_instance
    · exact allows_integerArgument.bind fun i => by split <;> infer_instance

instance allows_entryTuples {entries : List (Key × Value)} : c.Allows (entryTuples entries) := by
  unfold entryTuples
  infer_instance

instance allows_requireTexts {items : List (Value × Nat)} : c.Allows (requireTexts items) := by
  induction items with
  | nil => exact allows_pure
  | cons item items ih =>
    unfold requireTexts
    split <;> infer_instance

instance allows_callListMethod : c.Allows (callListMethod b args keywords) := by
  unfold callListMethod
  infer_instance

instance allows_callDictMethod : c.Allows (callDictMethod b args keywords) := by
  unfold callDictMethod
  split
  · infer_instance
  · refine allows_requirePositional.bind fun _ => allows_get.bind fun s => ?_
    refine allows_receiverDict.bind fun r => ?_
    split <;> infer_instance

instance allows_callStrMethod [∀ v, c.Allows (supply.all v)] :
    c.Allows (callStrMethod supply b args keywords) := by
  unfold callStrMethod
  split <;> infer_instance

end Methods

section Conversions

variable {supply : Supply} {v : Option Value} {keywords : Keywords}

instance allows_toInteger : c.Allows (toInteger v) := by
  unfold toInteger
  split
  · infer_instance
  · split <;> infer_instance
  · split <;> infer_instance

instance allows_toFloating : c.Allows (toFloating v) := by
  unfold toFloating
  split
  · infer_instance
  · split <;> infer_instance
  · split <;> infer_instance

instance allows_toBoolean : c.Allows (toBoolean v) := by
  unfold toBoolean
  infer_instance

instance allows_toText : c.Allows (toText v) := by
  unfold toText
  infer_instance

variable [∀ v, c.Allows (supply.all v)]

instance allows_toList : c.Allows (toList supply v) := by
  unfold toList
  split <;> infer_instance

instance allows_toTuple : c.Allows (toTuple supply v) := by
  unfold toTuple
  split <;> infer_instance

instance allows_entriesOfPairs {m : OrderedMap Key Value} {pairs : List Value} :
    c.Allows (entriesOfPairs supply m pairs) := by
  induction pairs generalizing m with
  | nil => exact allows_pure
  | cons pair pairs ih =>
    unfold entriesOfPairs
    refine .bind inferInstance fun items => ?_
    split <;> infer_instance

instance allows_firstEntries : c.Allows (firstEntries supply v) := by
  unfold firstEntries
  split <;> infer_instance

instance allows_toDict : c.Allows (toDict supply v keywords) := by
  unfold toDict
  infer_instance

end Conversions

section Sequences

variable {supply : Supply} {args items : List Value} {keywords : Keywords} {symbol : String}
  {v : Value}

instance allows_lengthOf : c.Allows (lengthOf v) := by
  unfold lengthOf
  refine allows_get.bind fun s => ?_
  split <;> infer_instance

instance allows_bestOf {wanted : Ordering} {best : Value} :
    c.Allows (bestOf symbol wanted best items) := by
  induction items generalizing best with
  | nil => exact allows_pure
  | cons item items ih =>
    unfold bestOf
    infer_instance

instance allows_extreme [∀ v, c.Allows (supply.all v)] {name : Name} {wanted : Ordering} :
    c.Allows (extreme supply name symbol wanted args) := by
  unfold extreme
  split
  all_goals exact .bind inferInstance fun items => by cases items <;> infer_instance

instance allows_absolute : c.Allows (absolute v) := by
  unfold absolute
  split <;> infer_instance

instance allows_sumFrom {start : Value} : c.Allows (sumFrom start items) := by
  induction items generalizing start with
  | nil => exact allows_pure
  | cons item items ih =>
    unfold sumFrom
    infer_instance

instance allows_rangeOf : c.Allows (rangeOf args) := by
  unfold rangeOf
  refine .bind inferInstance fun bounds => ?_
  split <;> infer_instance

instance allows_sortItems {descending : Bool} : c.Allows (sortItems items descending) := by
  unfold sortItems
  refine allows_get.bind fun s => ?_
  split <;> infer_instance

instance allows_readReverse {s : Store} {descending : Bool} :
    c.Allows (readReverse s descending keywords) := by
  induction keywords generalizing descending with
  | nil => exact allows_pure
  | cons keyword keywords ih =>
    unfold readReverse
    infer_instance

instance allows_readStart {count : Int64} : c.Allows (readStart count keywords) := by
  induction keywords generalizing count with
  | nil => exact allows_pure
  | cons keyword keywords ih =>
    unfold readStart
    infer_instance

instance allows_nextOf [∀ v, c.Allows (supply.next v)] {fallback : Option Value} :
    c.Allows (nextOf supply v fallback) := by
  unfold nextOf
  split
  case h_3 => infer_instance
  all_goals exact .bind inferInstance fun item => by split <;> infer_instance

instance allows_readLayout {separator terminator : String} :
    c.Allows (readLayout separator terminator keywords) := by
  induction keywords generalizing separator terminator with
  | nil => exact allows_pure
  | cons keyword keywords ih =>
    unfold readLayout
    dsimp only
    split
    · exact .bind (by split <;> infer_instance) fun _ => ih
    · split
      · exact .bind (by split <;> infer_instance) fun _ => ih
      · infer_instance

instance allows_printLine : c.Allows (printLine args keywords) := by
  unfold printLine
  exact allows_readLayout.bind fun ⟨separator, terminator⟩ => inferInstance

instance allows_notClass : c.Allows (notClass : Exec α) :=
  allows_typeError

mutual

theorem allows_isInstance (v : Value) : (w : Value) → c.Allows (isInstance v w)
  | .tuple _ classes => by
    unfold isInstance
    exact allows_isInstanceOfAny v classes
  | .type _ | .exceptionType _ => by
    unfold isInstance
    split <;> infer_instance
  | .builtin _ b => by
    cases b <;> simp only [isInstance]
    case int => split <;> infer_instance
    all_goals infer_instance
  | .none | .ellipsis | .bool _ | .int _ | .float _ | .str _ | .list _ | .dict _ | .range _
  | .function _ | .method .. | .object .. | .exception .. | .cell _ | .code _ | .iterator _
  | .generator _ | .marker _ => by
    unfold isInstance
    infer_instance

theorem allows_isInstanceOfAny (v : Value) : (classes : List Value) →
    c.Allows (isInstanceOfAny v classes)
  | [] => by
    unfold isInstanceOfAny
    exact allows_pure
  | w :: classes => by
    have hrest : c.Allows (isInstanceOfAny v classes) := allows_isInstanceOfAny v classes
    unfold isInstanceOfAny
    exact (allows_isInstance v w).bind fun isOne => by cases isOne <;> infer_instance

end

instance {v w : Value} : c.Allows (isInstance v w) := allows_isInstance v w

end Sequences

/-- A built-in makes the changes that the drawing of items makes. -/
instance allows_callBuiltin {supply : Supply} [∀ v, c.Allows (supply.all v)]
    [∀ v, c.Allows (supply.next v)] {b : Builtin} {args : List Value} {keywords : Keywords} :
    c.Allows (callBuiltin supply b args keywords) := by
  unfold callBuiltin
  cases b <;> infer_instance

instance allows_requireClasses {bases : List Value} : c.Allows (requireClasses bases) := by
  induction bases with
  | nil => exact allows_pure
  | cons base bases ih =>
    cases base <;> simp only [requireClasses] <;> infer_instance

end Lexiscope.Machine
