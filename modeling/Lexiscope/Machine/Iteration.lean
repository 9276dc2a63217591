import Lexiscope.Machine.Store
/-!
# Iterators

What an iterable value gives its items from. A list is followed while it changes; the keys of
a dictionary are taken down at the start.
-/

namespace Lexiscope.Machine

open Exec

def notIterable {α : Type} (v : Value) : Exec α :=
  typeError ("'" ++ v.typeName ++ "' object is not iterable")

/-- The iterator of an iterable value. An iterator and a generator are their own. -/
def makeIterator (v : Value) : Exec Value := do
  match v with
  | .list r => newIterator (.list r 0)
  | .tuple _ items => newIterator (.items items.toArray 0)
  | .str s =>
    let chars ← s.text.toList.mapM fun c => newStr c.toString
    newIterator (.items chars.toArray 0)
  | .dict r =>
    let keys ← keyValues ((← get).dict r).keys
    newIterator (.items keys.toArray 0)
  | .range r => newIterator (.range r 0)
  | .iterator _ | .generator _ => return v
  | other => notIterable other

/-- The next item of a source that holds its items, and the source after it. -/
def Source.draw? (s : Store) : Source → Option (Value × Source)
  | .list r i => (s.list r)[i]?.map fun v => (v, .list r (i + 1))
  | .items all i => all[i]?.map fun v => (v, .items all (i + 1))
  | .range r i => (r.get? i).map fun n => (.int n, .range r (i + 1))
  | .enumerate .. | .zip _ => none

end Lexiscope.Machine
