import TypedScheme.Settings.Document.Basic
import TypedScheme.Text.Quoted

/-!
# The text of scalars

A scalar is plain or quoted and may go over several lines, which are folded: a single line break is a
blank, and of several in a row the first is left out. Reading a scalar gives its text and what comes
after it.
-/

set_option autoImplicit false

namespace TypedScheme.Document

open Text

/-- Whether a character separates words on a line. -/
def isGap (c : Char) : Bool := c = ' ' || c = '\t'

/-- Whether a character ends a line. -/
def isBreak (c : Char) : Bool := c = '\n' || c = '\u2028' || c = '\u2029'

/-- Whether a word ends before what is left. -/
def startsGap : List Char → Bool
  | [] => true
  | c :: _ => isGap c || isBreak c

/-- Whether a line that marks the start or the end of a document is at a place. -/
def isMarker (place : Place) (cs : List Char) : Bool :=
  place.column = 0 && (cs.take 3 = ['-', '-', '-'] || cs.take 3 = ['.', '.', '.'])
    && startsGap (cs.drop 3)

/-- What separates two words of a scalar: blanks on one line, or line breaks. An escaped line break
is no part of the text, so the first break may be missing. -/
inductive Gap where
  | blanks (cs : List Char)
  | breaks (first? : Option Char) (more : List Char)
  deriving DecidableEq, Repr

namespace Gap

/-- No gap at all. -/
def none : Gap := blanks []

/-- Whether a gap goes over the end of a line. -/
def isBroken : Gap → Bool
  | blanks _ => false
  | breaks _ _ => true

/-- A gap with one more blank or line break. The blanks around a break are no part of the text. -/
def add (c : Char) : Gap → Gap
  | blanks cs => if isBreak c then breaks (some c) [] else blanks (cs ++ [c])
  | breaks first? more => if isBreak c then breaks first? (more ++ [c]) else breaks first? more

/-- The text of a gap. -/
def fold : Gap → List Char
  | blanks cs => cs
  | breaks (some '\n') [] => [' ']
  | breaks (some '\n') more => more
  | breaks first? more => first?.toList ++ more

end Gap

/-- The text of a scalar, the place after it, what is left there, and whether the end of a line lies
between the text and that place. -/
structure ScalarText where
  text : List Char
  place : Place
  rest : List Char
  broken : Bool

/-- A scalar with more text in front. -/
def ScalarText.after (cs : List Char) (t : ScalarText) : ScalarText := { t with text := cs ++ t.text }

/-- Whether a character ends a plain scalar inside brackets. -/
def isBracketMark (c : Char) : Bool :=
  c = ',' || c = '?' || c = '[' || c = ']' || c = '\x7b' || c = '\x7d'

/-- Whether a plain scalar ends before a character: at the colon of a key, at a mark of brackets that
are around it, or else behind a gap at a comment, at the mark of a document, or at a line that is
indented too little. -/
def endsPlain (inBrackets : Bool) (margin : Nat) (gap : Gap) (place : Place) (c : Char)
    (rest : List Char) : Bool :=
  (c = ':' && startsGap rest) || (inBrackets && isBracketMark c)
    || (gap ≠ .none
      && (c = '#' || isMarker place (c :: rest) || (!inBrackets && place.column < margin)))

/-- The rest of a plain scalar that began at `start`, behind a gap. -/
def plainText (inBrackets : Bool) (margin : Nat) (start : Place) :
    Gap → Place → List Char → Except Unreadable ScalarText
  | gap, place, [] => .ok ⟨[], place, [], gap.isBroken⟩
  | gap, place, c :: rest =>
    if isBreak c then plainText inBrackets margin start (gap.add c) place.nextLine rest
    else if isGap c then
      if gap.isBroken && place.column < margin && c = '\t' then
        .error (.spelling .tabIndentation start place)
      else plainText inBrackets margin start (gap.add c) place.next rest
    else if endsPlain inBrackets margin gap place c rest then
      .ok ⟨[], place, c :: rest, gap.isBroken⟩
    else (plainText inBrackets margin start .none place.next rest).map (·.after (gap.fold ++ [c]))

/-- The character of an escape by a letter. -/
def letterEscape? (c : Char) : Option Char :=
  match c with
  | '0' => some '\x00'
  | 'a' => some '\x07'
  | 'b' => some '\x08'
  | 't' => some '\t'
  | '\t' => some '\t'
  | 'n' => some '\n'
  | 'v' => some '\x0b'
  | 'f' => some '\x0c'
  | 'r' => some '\r'
  | 'e' => some '\x1b'
  | ' ' => some ' '
  | '"' => some '"'
  | '\'' => some '\''
  | '\\' => some '\\'
  | 'N' => some '\u0085'
  | '_' => some '\u00a0'
  | 'L' => some '\u2028'
  | 'P' => some '\u2029'
  | _ => none

/-- The number of digits of an escape by a code point. -/
def codeWidth? (c : Char) : Option Nat :=
  match c with
  | 'x' => some 2
  | 'u' => some 4
  | 'U' => some 8
  | _ => none

/-- The character of an escape, and the number of digits after its letter. -/
def escape (letter : Char) (after : List Char) : Except Problem (Char × Nat) :=
  match codeWidth? letter with
  | some width =>
    if after.length < width then .error .badHexadecimal
    else match Quoted.numeral? 16 Quoted.hexValue? (after.take width) with
      | some n =>
        match Quoted.scalar? n with
        | some c => .ok (c, width)
        | none => .error .badCodePoint
      | none => .error .badHexadecimal
  | none =>
    match letterEscape? letter with
    | some c => .ok (c, 0)
    | none => .error .unknownEscape

/-- The rest of a scalar in quotes of the given mark that began at `start`, behind a gap and behind
`skip` characters that belong to an escape. Only double quotes know escapes; in single quotes the mark
is written twice. -/
def quotedText (mark : Char) (start : Place) :
    Nat → Gap → Place → List Char → Except Unreadable ScalarText
  | _, _, place, [] => .error (.spelling .unclosedQuote start place)
  | skip + 1, gap, place, _ :: rest => quotedText mark start skip gap place.next rest
  | 0, gap, place, c :: rest =>
    if isBreak c then quotedText mark start 0 (gap.add c) place.nextLine rest
    else if isGap c then quotedText mark start 0 (gap.add c) place.next rest
    else if isMarker place (c :: rest) then .error (.spelling .markerInQuote start place)
    else if c = mark then
      if mark = '\'' && rest.head? = some '\'' then
        (quotedText mark start 1 .none place.next rest).map (·.after (gap.fold ++ [c]))
      else .ok ⟨gap.fold, place.next, rest, false⟩
    else if c = '\\' && mark = '"' then
      match rest with
      | [] => .error (.spelling .unknownEscape start place)
      | letter :: after =>
        if isBreak letter then
          (quotedText mark start 0 (.breaks none []) place.nextLine after).map (·.after gap.fold)
        else match escape letter after with
          | .ok (e, width) =>
            (quotedText mark start width .none place.next.next after).map
              (·.after (gap.fold ++ [e]))
          | .error problem => .error (.spelling problem start place)
    else (quotedText mark start 0 .none place.next rest).map (·.after (gap.fold ++ [c]))

end TypedScheme.Document
