import Covenant.Source.Span
import Covenant.Text.Blank
import Covenant.Text.Bytes

/-!
# Lines and columns

Reports name places by line and column. A `LineMap` keeps the byte offset at which each line of a
text starts, so a place is found by a search among the starts and a count of the characters from
there. Lines and columns count from one, and a column counts characters, not bytes.

## Main definitions

* `LineMap.ofString`: the lines of a text.
* `LineMap.position?`: the line and column of a byte offset; `none` inside a character.
* `LineMap.locate?`: the positions of a span's two ends.
* `LineMap.line?`: the text of a line.
-/

namespace Covenant

/-- A place in a text, both numbers counting from one. -/
structure Position where
  line : Nat
  column : Nat
deriving DecidableEq, Repr

/-- A position is written as `line:column`. -/
def Position.render (p : Position) : String :=
  s!"{p.line}:{p.column}"

/-- The positions of the two ends of a span. -/
structure Region where
  first : Position
  last : Position
deriving DecidableEq, Repr

/-- A region inside one line names the line once. -/
def Region.render (r : Region) : String :=
  if r.first.line = r.last.line then
    s!"{r.first.line}:{r.first.column}-{r.last.column}"
  else
    s!"{r.first.render}-{r.last.render}"

/-- A text with the byte offsets at which its lines start. The first line starts at zero, so only
the starts of the lines after it are kept. -/
structure LineMap where
  text : List Char
  laterStarts : List Nat
deriving DecidableEq, Repr

namespace LineMap

/-- The offsets just after each newline of a text that starts at byte `pos`. -/
def startsAfter (pos : Nat) : List Char → List Nat
  | [] => []
  | c :: cs =>
    let next := pos + c.utf8Size
    if c = '\n' then next :: startsAfter next cs else startsAfter next cs

def ofString (source : String) : LineMap :=
  ⟨source.toList, startsAfter 0 source.toList⟩

/-- The number and the start of the last line that starts at or before an offset. The search goes on
from line `line`, which starts at `start`, with the starts of the lines after it. -/
def lineAt (offset line start : Nat) : List Nat → Nat × Nat
  | [] => (line, start)
  | next :: later => if next ≤ offset then lineAt offset (line + 1) next later else (line, start)

/-- The position of a byte offset, where offsets past the end stand for the end. There is none
inside a character. -/
def position? (m : LineMap) (offset : Nat) : Option Position := do
  let offset := min offset (Text.bytes m.text)
  let (line, start) := lineAt offset 1 0 m.laterStarts
  let before ← Text.slice? start offset m.text
  return ⟨line, before.length + 1⟩

/-- The positions of the two ends of a span. -/
def locate? (m : LineMap) (span : Span) : Option Region := do
  let first ← m.position? span.start
  let last ← m.position? span.stop
  return ⟨first, last⟩

def starts (m : LineMap) : List Nat := 0 :: m.laterStarts

/-- The byte range of a line, without its newline. Lines count from one. -/
def lineRange? (m : LineMap) : (line : Nat) → Option Span
  | 0 => none
  | n + 1 => do
    let start ← m.starts[n]?
    match m.starts[n + 1]? with
    | some next => return ⟨start, next - 1⟩
    | none => return ⟨start, Text.bytes m.text⟩

/-- The text of a line, without its newline and the carriage returns before it. -/
def line? (m : LineMap) (line : Nat) : Option (List Char) := do
  let range ← m.lineRange? line
  let text ← Text.slice? range.start range.stop m.text
  return Text.dropEndWhile (· == '\r') text

end LineMap

end Covenant
