/-!
# Spans

A span is a range of byte offsets into the UTF-8 form of a source text.
-/

namespace Lexiscope.Text

/-- The bytes from `start` up to but not including `stop`. -/
structure Span where
  start : Nat
  stop : Nat
  deriving DecidableEq, Repr, Inhabited

namespace Span

/-- The largest offset a span can hold: the greatest word of 32 bits. -/
def limit : Nat := 4294967295

def origin : Span := ⟨0, 0⟩

def ofOffsets (start stop : Nat) : Span :=
  ⟨min start limit, min stop limit⟩

def merge (s t : Span) : Span :=
  ⟨min s.start t.start, max s.stop t.stop⟩

def render (s : Span) : String :=
  s!"{s.start}..{s.stop}"

/-- The line and the column of an offset, both counted from one. Columns count bytes. -/
def position (bytes : List UInt8) : Nat × Nat :=
  bytes.foldl (fun p b => if b == 10 then (p.1 + 1, 1) else (p.1, p.2 + 1)) (1, 1)

def lineColumn (s : Span) (source : String) : Nat × Nat :=
  position (source.toUTF8.toList.take s.start)

end Span

def byteLength (cs : List Char) : Nat :=
  cs.foldr (fun c n => c.utf8Size + n) 0

end Lexiscope.Text
