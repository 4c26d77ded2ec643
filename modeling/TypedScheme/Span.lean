/-!
# Positions and spans

A position counts characters from zero and lines and columns from one. Column zero marks a position
that is absent. A span runs from its first to its last character, both included.
-/

set_option autoImplicit false

namespace TypedScheme

/-- A place in a source text. -/
structure Position where
  offset : Int
  line : Int
  column : Int
  deriving DecidableEq, Repr

namespace Position

/-- The position that stands for no place. -/
def absent : Position := ⟨0, 0, 0⟩

/-- The position of the first character of a text. -/
def start : Position := ⟨0, 1, 1⟩

/-- The position after a character. -/
def step (p : Position) (c : Char) : Position :=
  if c = '\n' then ⟨p.offset + 1, p.line + 1, 1⟩ else ⟨p.offset + 1, p.line, p.column + 1⟩

/-- The position after the characters of a text. -/
def after (p : Position) (cs : List Char) : Position := cs.foldl step p

/-- The earlier of two positions. An absent position yields to the other one, and of two positions
with one offset the second is taken. -/
def earlier (p q : Position) : Position :=
  if p.column = 0 then q
  else if q.column = 0 then p
  else if p.offset < q.offset then p
  else q

/-- The later of two positions, with the same preferences as `earlier`. -/
def later (p q : Position) : Position :=
  if p.column = 0 then q
  else if q.column = 0 then p
  else if p.offset > q.offset then p
  else q

end Position

/-- A piece of a source text, given by its first and its last character. -/
structure Span where
  first : Position
  last : Position
  deriving DecidableEq, Repr

namespace Span

/-- The span of what has no place in the text. -/
def absent : Span := ⟨.absent, .absent⟩

/-- The least span that covers two spans. -/
def cover (a b : Span) : Span := ⟨a.first.earlier b.first, a.last.later b.last⟩

/-- Whether a span has no place in the text. -/
def isAbsent (s : Span) : Bool := s.first.column = 0 && s.last.column = 0

/-- The span as lines and columns. Equal parts are written once. -/
def render (s : Span) : String :=
  if s.first = s.last then s!"{s.first.line}:{s.first.column}"
  else if s.first.line = s.last.line then
    s!"{s.first.line}:{s.first.column}-{s.last.column}"
  else s!"{s.first.line}:{s.first.column}-{s.last.line}:{s.last.column}"

/-- A message behind its place, or alone when it has no place. -/
def label (s : Span) (message : String) : String :=
  if s.isAbsent then message else s!"{s.render}: {message}"

end Span

end TypedScheme
