namespace Sigh

/-- A half-open range of byte offsets `[start, stop)` into a source text. -/
structure Span where
  start : Nat
  stop : Nat
  deriving DecidableEq, Repr, Inhabited

namespace Span

/-- The smallest span covering both spans. -/
def merge (a b : Span) : Span := ⟨min a.start b.start, max a.stop b.stop⟩

/-- Written `start..stop`. -/
def text (s : Span) : String := toString s.start ++ ".." ++ toString s.stop

theorem merge_start (a b : Span) : (a.merge b).start = min a.start b.start := rfl

theorem merge_stop (a b : Span) : (a.merge b).stop = max a.stop b.stop := rfl

end Span

/-- A line and a column, both counted from one. -/
structure Position where
  line : Nat
  column : Nat
  deriving DecidableEq, Repr

/-- Searches an ascending array for `x` by halving, as a slice search does: `.ok i` when element
`i` is `x`, else `.error i` with `i` the place where `x` would go. The window of `size` elements
starting at `base` shrinks until one element is left, which is then compared with `x`. -/
def binarySearch (xs : Array Nat) (x : Nat) : Except Nat Nat :=
  if xs.size = 0 then .error 0
  else
    let base := narrow 0 xs.size
    let y := xs.getD base 0
    if y = x then .ok base
    else .error (if y < x then base + 1 else base)
where
  narrow (base size : Nat) : Nat :=
    if 1 < size then
      let half := size / 2
      let mid := base + half
      narrow (if x < xs.getD mid 0 then base else mid) (size - half)
    else base
  termination_by size

/-- The offsets where the lines of a source text start: offset 0, and one past each newline
byte. -/
structure LineMap where
  lineStarts : Array Nat

namespace LineMap

/-- One past the offset of each newline byte of `bytes`, the first of which is at `offset`. -/
def newlineEnds : List UInt8 → Nat → List Nat
  | [], _ => []
  | b :: bs, offset =>
    if b = 10 then (offset + 1) :: newlineEnds bs (offset + 1) else newlineEnds bs (offset + 1)

def new (source : String) : LineMap := ⟨(0 :: newlineEnds source.toUTF8.data.toList 0).toArray⟩

/-- The index of the line of byte `offset`: the last line that starts at or before it. -/
def lineIndex (map : LineMap) (offset : Nat) : Nat :=
  match binarySearch map.lineStarts offset with
  | .ok line => line
  | .error next => next - 1

/-- The line and column of byte `offset`, both from one; the column counts from the start of the
line. -/
def lineCol (map : LineMap) (offset : Nat) : Position :=
  let line := map.lineIndex offset
  ⟨line + 1, offset - map.lineStarts.getD line 0 + 1⟩

end LineMap

end Sigh
