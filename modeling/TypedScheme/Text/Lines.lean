/-!
# Lines of text

A text is split into lines at its line feeds. There is one line more than there are line feeds, so a text
that ends with one has an empty last line.
-/

set_option autoImplicit false

namespace TypedScheme.Text

/-- The lines of a text, without their line feeds. -/
def lines (text : String) : List String := (text.toList.splitOn '\n').map String.ofList

end TypedScheme.Text
