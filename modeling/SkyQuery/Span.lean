/-!
# Spans of query text

Lines and columns count from one. A span keeps its first and its last character.
-/

namespace SkyQuery

structure Span where
  beginLine : Nat
  beginColumn : Nat
  endLine : Nat
  endColumn : Nat
  deriving DecidableEq, Repr

namespace Span

/-- The span of a single character. -/
def point (line column : Nat) : Span := ⟨line, column, line, column⟩

/-- From the first character of one span to the last of another. -/
def between (first last : Span) : Span :=
  ⟨first.beginLine, first.beginColumn, last.endLine, last.endColumn⟩

def text (s : Span) : String :=
  s!"[l.{s.beginLine} c.{s.beginColumn} - l.{s.endLine} c.{s.endColumn}]"

end Span

end SkyQuery
