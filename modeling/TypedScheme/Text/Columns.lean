/-!
# Aligned columns

A text is a table of lines, and a line is cut into cells by tabulators. Within a run of lines that all
have a further cell, the cells of a column are filled up with blanks to the same width, one blank after
the longest. The last cell of a line is left as it is. A form feed ends a line as a line feed does, and
what comes after it is aligned anew.
-/

set_option autoImplicit false

namespace TypedScheme.Text.Columns

/-- Text cut at characters of a kind; there is one more part than there are such characters. -/
def cut (ends : Char → Bool) : List Char → List (List Char)
  | [] => [[]]
  | c :: rest =>
    if ends c then [] :: cut ends rest
    else match cut ends rest with
      | first :: others => (c :: first) :: others
      | [] => [[c]]

/-- Parts joined by line feeds. -/
def joinLines : List (List Char) → List Char
  | [] => []
  | [l] => l
  | l :: ls => l ++ '\n' :: joinLines ls

/-- Whether a character ends a cell. -/
def endsCell (c : Char) : Bool := c = '\t' || c = '\x0b'

/-- A line: the cells that a tabulator ends, and the last cell. -/
structure Row where
  cells : List (List Char)
  last : List Char
  deriving DecidableEq, Repr

/-- The cells of a line. -/
def Row.ofLine (line : List Char) : Row :=
  let parts := cut endsCell line
  ⟨parts.dropLast, parts.getLastD []⟩

/-- The first cell of a row. -/
def Row.head (r : Row) : List Char := r.cells.headD []

/-- A row without its first cell. -/
def Row.tail (r : Row) : Row := ⟨r.cells.tail, r.last⟩

/-- The width of a column: one blank more than its longest cell. -/
def width (rows : List Row) : Nat := rows.foldl (fun w r => max w r.head.length) 0 + 1

/-- A cell filled up with blanks to a width. -/
def padTo (width : Nat) (cell : List Char) : List Char :=
  cell ++ List.replicate (width - cell.length) ' '

/-- The lines of rows that have at most the given number of cells before the last. -/
def align : Nat → List Row → List (List Char)
  | 0, rows => rows.map (·.last)
  | most + 1, rows =>
    (rows.splitBy fun a b => a.cells.isEmpty == b.cells.isEmpty).flatMap fun run =>
      if run.all (·.cells.isEmpty) then run.map (·.last)
      else List.zipWith (fun r rest => padTo (width run) r.head ++ rest) run
        (align most (run.map Row.tail))

/-- Lines aligned with each other. -/
def alignLines (lines : List (List Char)) : List (List Char) :=
  let rows := lines.map Row.ofLine
  align (rows.foldl (fun n r => max n r.cells.length) 0) rows

/-- A text with its columns aligned. -/
def render (s : String) : String :=
  let sections := cut (· = '\x0c') s.toList
  String.ofList (joinLines (sections.map fun t => joinLines (alignLines (cut (· = '\n') t))))

end TypedScheme.Text.Columns
