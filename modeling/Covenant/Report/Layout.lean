import Covenant.Source.LineMap

/-!
# The layout of reports

A report is a header, the place that it is about, the line of the signature with the place
underlined, and the text of what is wrong. Colours are terminal escapes and can be left out.
-/

namespace Covenant.Report

structure Style where
  color : Bool
  /-- What the signature belongs to. -/
  label : Option String
deriving DecidableEq, Repr

namespace Style

/-- A terminal escape, or nothing without colours. -/
def escape (style : Style) (code : String) : String :=
  if style.color then "\x1b[" ++ code ++ "m" else ""

def red (style : Style) : String := style.escape "31"

def cyan (style : Style) : String := style.escape "36"

def bold (style : Style) : String := style.escape "1"

def reset (style : Style) : String := style.escape "0"

end Style

def repeated (c : Char) (n : Nat) : String := String.ofList (List.replicate n c)

/-- The first line of a report, filled with dashes up to sixty bytes. -/
def header (style : Style) (kind : String) : String :=
  style.cyan ++ "-- " ++ kind ++ " " ++ repeated '-' (60 - (Text.bytes kind.toList + 4)) ++
    style.reset

/-- The name of the signature and the position at which a span starts. -/
def location? (style : Style) (lines : LineMap) (span : Span) : Option String := do
  let position ← lines.position? span.start
  return style.bold ++ style.label.getD "<signature>" ++ ":" ++ position.render ++ style.reset

/-- The number of carets under a region: its width, at least one, and one if it goes on over the
line. -/
def caretCount (region : Region) : Nat :=
  if region.first.line = region.last.line then
    max (region.last.column - region.first.column) 1
  else 1

/-- A line of the signature after its number. -/
def sourceLine (style : Style) (number : Nat) (text : List Char) : String :=
  style.cyan ++ toString number ++ " |" ++ style.reset ++ " " ++ String.ofList text

/-- Carets under a region of the line that stands above. The number of that line and the bar after
it take up room before the first column. -/
def caretLine (style : Style) (region : Region) : String :=
  let margin := (toString region.first.line).length + 3
  repeated ' ' (margin + region.first.column - 1) ++ style.red ++
    repeated '^' (caretCount region) ++ style.reset

/-- The line on which a span starts, with carets under the span. -/
def snippet? (style : Style) (lines : LineMap) (span : Span) : Option String := do
  let region ← lines.locate? span
  let text := (lines.line? region.first.line).getD []
  return sourceLine style region.first.line text ++ "\n" ++ caretLine style region

/-- The question after an unknown name: the names that may have been meant. -/
def suggestions (style : Style) (names : List String) : String :=
  let marked := names.map fun name => style.bold ++ name ++ style.reset
  match marked with
  | [] => ""
  | [name] => "\n\nDid you mean " ++ name ++ "?"
  | names => "\n\nDid you mean one of: " ++ ", ".intercalate names ++ "?"

/-- A whole report about a span. -/
def layout? (style : Style) (lines : LineMap) (span : Span) (kind message hint : String) :
    Option String := do
  let location ← location? style lines span
  let snippet ← snippet? style lines span
  return header style kind ++ "\n\n" ++ location ++ "\n\n" ++ snippet ++ "\n\n" ++
    message ++ hint ++ "\n"

end Covenant.Report
