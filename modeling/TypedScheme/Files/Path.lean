/-!
# Paths

Paths are texts of elements between slashes. `clean` gives the shortest path to the same place by the
text alone, `split` cuts a path before its last element, and `isValid` tells whether a path names
something below a root: its elements are neither empty nor one or two dots.
-/

set_option autoImplicit false

namespace TypedScheme.Path

/-- The elements between the slashes of a text; there is one more of them than slashes. -/
def elements : List Char → List (List Char)
  | [] => [[]]
  | c :: rest =>
    if c = '/' then [] :: elements rest
    else match elements rest with
      | first :: others => (c :: first) :: others
      | [] => [[c]]

/-- Elements with a slash between them. -/
def unite : List (List Char) → List Char
  | [] => []
  | [e] => e
  | e :: es => e ++ '/' :: unite es

/-- Whether a path starts at the root. -/
def isRooted (cs : List Char) : Bool := cs.head? = some '/'

/-- The elements of a clean path so far, the last one first, after one more element. -/
def push (rooted : Bool) (stack : List (List Char)) (element : List Char) : List (List Char) :=
  if element = [] || element = ['.'] then stack
  else if element = ['.', '.'] then
    match stack with
    | [] => if rooted then [] else [element]
    | top :: below => if top = ['.', '.'] then element :: stack else below
  else element :: stack

/-- The characters of a clean path. -/
def cleanChars (cs : List Char) : List Char :=
  let rooted := isRooted cs
  let body := unite (((elements cs).foldl (push rooted) []).reverse)
  if rooted then '/' :: body else if body.isEmpty then ['.'] else body

/-- The shortest path to the same place. -/
def clean (path : String) : String := String.ofList (cleanChars path.toList)

/-- A path cut after its last slash. -/
def split (path : String) : String × String :=
  let cs := path.toList
  let name := (cs.reverse.takeWhile (· ≠ '/')).reverse
  (String.ofList (cs.take (cs.length - name.length)), String.ofList name)

/-- The directory part of a split path, where no directory means the current one. -/
def directory (dir : String) : String := if dir = "" then "." else dir

/-- A name behind a directory, with one slash between them at least. -/
def under (dir name : String) : String :=
  if dir.toList.getLast? = some '/' then dir ++ name else dir ++ "/" ++ name

/-- Two paths as one. -/
def join (dir name : String) : String :=
  if dir = "" && name = "" then ""
  else if dir = "" then clean name
  else if name = "" then clean dir
  else clean (dir ++ "/" ++ name)

/-- The text from the last dot of the last element. -/
def extension (path : String) : String :=
  let name := path.toList.reverse.takeWhile (· ≠ '/')
  if name.contains '.' then String.ofList ((name.takeWhile (· ≠ '.')).reverse.cons '.') else ""

/-- Whether an element may stand in a path below a root. -/
def isPlainElement (e : List Char) : Bool := e ≠ [] && e ≠ ['.'] && e ≠ ['.', '.']

/-- Whether a path names the root or something below it. -/
def isValid (path : String) : Bool := path = "." || (elements path.toList).all isPlainElement

/-- Whether a path is absolute. -/
def isAbsolute (path : String) : Bool := isRooted path.toList

end TypedScheme.Path
