import TypedScheme.Number.Numeral
import TypedScheme.Settings.Timestamp

/-!
# Kinds of scalar

What a plain scalar of a settings document denotes, judged by its spelling. Quoted scalars are
strings, whatever they say.
-/

set_option autoImplicit false

namespace TypedScheme.Document

-- Powers are those of the core library, whichever other ones are in scope.
attribute [local instance (2000)] instPowNat instNatPowNat

/-- The kinds of node that messages name. -/
inductive Tag where
  | null
  | boolean
  | integer
  | real
  | timestamp
  | merge
  | string
  | list
  | mapping
  deriving DecidableEq, Repr

/-- The name of a kind in messages. -/
def Tag.name : Tag → String
  | null => "!!null"
  | boolean => "!!bool"
  | integer => "!!int"
  | real => "!!float"
  | timestamp => "!!timestamp"
  | merge => "!!merge"
  | string => "!!str"
  | list => "!!seq"
  | mapping => "!!map"

/-- The spellings of no value. -/
def nullNames : List String := ["", "~", "null", "Null", "NULL"]

/-- The spellings of truth. -/
def trueNames : List String := ["true", "True", "TRUE"]

/-- The spellings of falsehood. -/
def falseNames : List String := ["false", "False", "FALSE"]

/-- The words that also mean truth where a truth value is asked for. -/
def yesWords : List String := ["y", "Y", "yes", "Yes", "YES", "on", "On", "ON"]

/-- The words that also mean falsehood where a truth value is asked for. -/
def noWords : List String := ["n", "N", "no", "No", "NO", "off", "Off", "OFF"]

/-- The key whose value is merged into the mapping around it. -/
def mergeName : String := "<<"

/-- The spellings of the numbers that have no digits. -/
def specialReals : List String :=
  [".nan", ".NaN", ".NAN", ".inf", ".Inf", ".INF", "+.inf", "+.Inf", "+.INF", "-.inf", "-.Inf",
   "-.INF"]

/-- The digits of a base, which may have a mark in front, and the base. -/
def basedDigits : List Char → List Char × Nat
  | '0' :: 'x' :: ds => (ds, 16)
  | '0' :: 'X' :: ds => (ds, 16)
  | '0' :: 'o' :: ds => (ds, 8)
  | '0' :: 'O' :: ds => (ds, 8)
  | '0' :: 'b' :: ds => (ds, 2)
  | '0' :: 'B' :: ds => (ds, 2)
  | '0' :: d :: ds => (d :: ds, 8)
  | ds => (ds, 10)

/-- Whether digits of a base behind a sign make an integer of 64 bits. Without a sign it may use all
of them. -/
def fits (base : Nat) (sign : Option Char) (ds : List Char) : Bool :=
  let limit := if sign = some '-' then 2 ^ (63 : Nat) + 1
    else if sign = some '+' then 2 ^ (63 : Nat) else 2 ^ (64 : Nat)
  !ds.isEmpty && ds.all (fun d => Numeral.isHexDigit d && Numeral.digitValue d < base)
    && Numeral.value base ds < limit

/-- A sign in front of text, and the text. -/
def signOf? : List Char → Option Char × List Char
  | c :: rest => if c = '-' || c = '+' then (some c, rest) else (none, c :: rest)
  | [] => (none, [])

/-- Whether characters without underscores spell an integer with the mark of its base in front of
the digits. -/
def isBasedInteger (cs : List Char) : Bool :=
  let (sign, body) := signOf? cs
  let (ds, base) := basedDigits body
  fits base sign ds

/-- Whether characters without underscores spell a binary or octal integer whose sign stands behind
the mark of the base, or in front of it if it is a minus. -/
def isMarkedInteger (cs : List Char) : Bool :=
  let signed (base : Nat) (cs : List Char) : Bool := fits base (signOf? cs).1 (signOf? cs).2
  match cs with
  | '0' :: 'b' :: rest => signed 2 rest
  | '-' :: '0' :: 'b' :: rest => signed 2 ('-' :: rest)
  | '0' :: 'o' :: rest => signed 8 rest
  | '-' :: '0' :: 'o' :: rest => signed 8 ('-' :: rest)
  | _ => false

/-- Whether characters without underscores spell an integer. -/
def isInteger (cs : List Char) : Bool := isBasedInteger cs || isMarkedInteger cs

/-- Whether characters are an exponent. -/
def isExponent : List Char → Bool
  | [] => true
  | c :: rest =>
    let ds := (Numeral.splitSign rest).2
    (c = 'e' || c = 'E') && !ds.isEmpty && ds.all Numeral.isDigit

/-- Whether characters without underscores are a decimal. -/
def isDecimal (cs : List Char) : Bool :=
  let body := (Numeral.splitSign cs).2
  let whole := body.takeWhile Numeral.isDigit
  match body.dropWhile Numeral.isDigit with
  | '.' :: rest =>
    (!whole.isEmpty || rest.head?.any Numeral.isDigit) && isExponent (rest.dropWhile Numeral.isDigit)
  | rest => !whole.isEmpty && isExponent rest

/-- Whether characters without underscores spell a decimal number that is not too large. -/
def isReal (cs : List Char) : Bool := isDecimal cs && (Numeral.read? (String.ofList cs)).isSome

/-- Whether a text may be a number, judged by its first character. -/
def startsNumber : List Char → Bool
  | [] => false
  | c :: _ => Numeral.isDigit c || c = '+' || c = '-'

/-- Whether a text that starts with a point spells a number. -/
def isPointed (text : String) : Bool :=
  text.toList.head? = some '.' && (Numeral.read? text).isSome

/-- The kind of a scalar. -/
def Tag.ofScalar (text : String) (quoted : Bool) : Tag :=
  let bare := text.toList.filter (· ≠ '_')
  if quoted then .string
  else if nullNames.contains text then .null
  else if trueNames.contains text || falseNames.contains text then .boolean
  else if specialReals.contains text || isPointed text then .real
  else if text = mergeName then .merge
  else if Timestamp.isSpelling text.toList then .timestamp
  else if startsNumber text.toList && isInteger bare then .integer
  else if startsNumber text.toList && isReal bare then .real
  else .string

end TypedScheme.Document
