import Lexiscope.Data.OrderedMap
/-!
# Interned names

An interner gives each text a handle of 32 bits: four bits choose a shard, the others count
within it. The shard depends on the text alone, so that two lookups of one text meet in one
shard, and the empty text has the first shard to itself.
-/

namespace Lexiscope.Naming

structure Handle where
  word : UInt32
  deriving DecidableEq, Repr, Inhabited

namespace Handle

def shardCount : Nat := 16

/-- The shard of the empty text, and of no other. -/
def firstShard : Fin shardCount := ⟨0, Nat.zero_lt_succ 15⟩

def maxPlace : UInt32 := 0x0FFFFFFF

def ofPlace (shard : Fin shardCount) (place : UInt32) : Handle :=
  ⟨UInt32.ofNat shard <<< 28 ||| place⟩

theorem shard_lt (h : Handle) : (h.word >>> 28).toNat < shardCount := by
  have hword := h.word.toNat_lt
  rw [UInt32.toNat_shiftRight, Nat.shiftRight_eq_div_pow]
  exact Nat.div_lt_of_lt_mul hword

def shard (h : Handle) : Fin shardCount := ⟨(h.word >>> 28).toNat, h.shard_lt⟩

def place (h : Handle) : Nat := (h.word &&& maxPlace).toNat

def empty : Handle := ⟨0⟩

end Handle

/-- The hash of a text: its first eight bytes as the digits of a number in base 31, in words
of 32 bits. -/
def hashBytes (bytes : List UInt8) : UInt32 :=
  (bytes.take 8).foldl (fun h b => h * 31 + b.toUInt32) 0

def shardOf (text : String) : Fin Handle.shardCount :=
  if text.isEmpty then Handle.firstShard
  else
    let hash := hashBytes text.toUTF8.toList
    ⟨hash.toNat % (Handle.shardCount - 1) + 1,
      Nat.succ_lt_succ (Nat.mod_lt hash.toNat (Nat.zero_lt_succ 14))⟩

/-- Why a text was not taken. -/
inductive InternError where
  | shardOverflow (shard : Fin Handle.shardCount) (count : Nat)
  deriving DecidableEq, Repr

def InternError.message : InternError → String
  | .shardOverflow shard count =>
    s!"interner shard {shard} is full: {count} strings, limit {Handle.maxPlace}"

/-- The texts of a shard in the order in which they came, and the place of each. -/
structure Shard where
  index : OrderedMap String UInt32 := .empty
  texts : Array String := #[]
  deriving Repr, Inhabited

namespace Shard

def find? (s : Shard) (text : String) : Option UInt32 := s.index.get? text

def add (s : Shard) (text : String) : Shard :=
  { index := s.index.insert text (.ofNat s.texts.size), texts := s.texts.push text }

/-- A new text takes the next place. A full shard takes no text. -/
def insert (s : Shard) (shard : Fin Handle.shardCount) (text : String) :
    Except InternError (UInt32 × Shard) :=
  if s.texts.size ≤ Handle.maxPlace.toNat then .ok (.ofNat s.texts.size, s.add text)
  else .error (.shardOverflow shard s.texts.size)

end Shard

/-- The shards, and the number of texts in all of them. -/
structure Interner where
  shards : Vector Shard Handle.shardCount
  count : Nat
  deriving Repr

namespace Interner

/-- Only the empty text is known, in the first place of the first shard. -/
def fresh : Interner where
  shards := (Vector.replicate Handle.shardCount {}).set 0 (({} : Shard).add "") (by decide)
  count := 1

def shardAt (t : Interner) (shard : Fin Handle.shardCount) : Shard := t.shards.get shard

def find? (t : Interner) (text : String) : Option Handle :=
  let shard := shardOf text
  ((t.shardAt shard).find? text).map (Handle.ofPlace shard)

/-- The handle of a text, which is added to its shard unless it is there. -/
def findOrInsert (t : Interner) (text : String) : Except InternError Handle × Interner :=
  match t.find? text with
  | some h => (.ok h, t)
  | none =>
    let shard := shardOf text
    match (t.shardAt shard).insert shard text with
    | .ok (place, s) =>
      (.ok (.ofPlace shard place), ⟨t.shards.set shard s shard.isLt, t.count + 1⟩)
    | .error e => (.error e, t)

/-- The handle of a text: first looked for, and only then inserted. -/
def tryIntern (t : Interner) (text : String) : Except InternError Handle × Interner :=
  match t.find? text with
  | some h => (.ok h, t)
  | none => t.findOrInsert text

def intern (t : Interner) (text : String) : Option Handle × Interner :=
  let (answer, t) := t.tryIntern text
  (answer.toOption, t)

/-- The text of a handle, and the empty text for a handle that was never given out. -/
def lookup (t : Interner) (h : Handle) : String :=
  (t.shardAt h.shard).texts.getD h.place ""

def size (t : Interner) : Nat := t.count

end Interner

end Lexiscope.Naming
