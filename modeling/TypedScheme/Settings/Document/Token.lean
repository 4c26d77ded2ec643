import TypedScheme.Settings.Document.ScalarText

/-!
# Tokens of documents

A document is a row of tokens. Blocks have a start and an end among the tokens though none is written
down: a block starts with its first item or key and ends where the indentation falls below its
column. That a scalar or a bracket began a key shows only at the colon behind it, so until then it is
a candidate, and the colon puts the missing tokens in front of it. Tokens are given out from the first
on, two of them always being looked at in advance. A candidate is not given out before it is decided,
except for brackets that held no candidate of their own: those are not waited for, and if the colon
comes after they were given out, the missing tokens come behind them.
-/

set_option autoImplicit false

namespace TypedScheme.Document

/-- What a token is. -/
inductive TokenKind where
  | documentStart
  | documentEnd
  | sourceEnd
  | blockListStart
  | blockMappingStart
  | blockEnd
  | listStart
  | listEnd
  | mappingStart
  | mappingEnd
  | comma
  | item
  | key
  | value
  | scalar (text : String) (quoted : Bool)
  deriving DecidableEq, Repr

/-- A token and its place. -/
structure Token where
  kind : TokenKind
  place : Place
  deriving DecidableEq, Repr

/-- A token that may turn out to begin a key: its index among the tokens, its place, whether it has
to be a key, because it stands in the column of a block that is open, and whether it is waited for. -/
structure Candidate where
  index : Nat
  place : Place
  required : Bool
  awaited : Bool
  deriving DecidableEq, Repr

/-- Whether a candidate can still become a key at a place: a key is on one line and has a limited
length. -/
def Candidate.isLive (c : Candidate) (place : Place) : Bool :=
  c.place.line = place.line && place.column ≤ c.place.column + 1024

/-- What the brackets around a place know of candidates: the one that is not decided yet, and the
index of the last one, or of the opening bracket if there was none. -/
structure Level where
  candidate? : Option Candidate
  lastIndex : Nat
  deriving DecidableEq, Repr

/-- Stops waiting for the candidate of a level, if it is the token with the index given. -/
def Level.release (l : Level) (index : Nat) : Level :=
  { l with candidate? := l.candidate?.map fun c =>
      if c.index = index then { c with awaited := false } else c }

/-- A document that is read in part: the place reached and what is left there, the tokens so far, the
margins of the open blocks, the level of the innermost brackets and those of the brackets around them,
whether a key may begin here, whether a comment that comes next stands behind a token on its line, and
whether all is read. The margin of a block is one more than its column. -/
structure Lexer where
  place : Place
  rest : List Char
  tokens : List Token
  margins : List Nat
  level : Level
  outer : List Level
  keyAllowed : Bool
  trailing : Bool
  isDone : Bool

namespace Lexer

/-- The start of a text. -/
def start (cs : List Char) : Lexer := ⟨⟨0, 0⟩, cs, [], [], ⟨none, 0⟩, [], true, false, false⟩

/-- Whether the place reached is inside brackets. -/
def inBrackets (s : Lexer) : Bool := !s.outer.isEmpty

/-- The margin of the innermost block, where the document itself has none. -/
def margin (s : Lexer) : Nat := s.margins.headD 0

/-- What is passed over between two tokens. -/
inductive Passing where
  /-- Blanks, where a comment may stand behind a token. -/
  | blanks (trailing : Bool)
  /-- A comment, and whether it may go on with comments on further lines. -/
  | comment (continued : Bool)
  /-- What lies between two comments. -/
  | between
  deriving DecidableEq, Repr

/-- Whether nothing but blanks and line breaks comes before a comment. -/
def leadsToComment (cs : List Char) : Bool :=
  (cs.dropWhile fun c => isGap c || isBreak c).head? = some '#'

/-- Whether a tabulator before what is left may be passed over: inside brackets, where no key may
begin, and between a token and a comment behind it. -/
def admitsTab (inBrackets allowed trailing : Bool) (rest : List Char) : Bool :=
  inBrackets || !allowed || (trailing && (rest.dropWhile isGap).head? = some '#')

/-- Whether a key may begin at the next token, its place, and what is left there. In a block a new
line allows a key. -/
def toNext (inBrackets : Bool) : Passing → Bool → Place → List Char → Bool × Place × List Char
  | _, allowed, place, [] => (allowed, place, [])
  | .blanks trailing, allowed, place, c :: rest =>
    if isBreak c then toNext inBrackets (.blanks false) (allowed || !inBrackets) place.nextLine rest
    else if c = ' ' || (c = '\t' && admitsTab inBrackets allowed trailing rest)
        || (c = '\ufeff' && place.column = 0) then
      toNext inBrackets (.blanks trailing) allowed place.next rest
    else if c = '#' then toNext inBrackets (.comment (!trailing)) allowed place.next rest
    else (allowed, place, c :: rest)
  | .comment continued, allowed, place, c :: rest =>
    if isBreak c then
      let passing := if continued && leadsToComment rest then .between else .blanks false
      toNext inBrackets passing (allowed || !inBrackets) place.nextLine rest
    else toNext inBrackets (.comment continued) allowed place.next rest
  | .between, allowed, place, c :: rest =>
    if isBreak c then toNext inBrackets .between allowed place.nextLine rest
    else if c = '#' then toNext inBrackets (.comment true) allowed place.next rest
    else toNext inBrackets .between allowed place.next rest

/-- The state at the next token. -/
def passGap (s : Lexer) : Lexer :=
  let (allowed, place, rest) :=
    toNext s.inBrackets (.blanks s.trailing) s.keyAllowed s.place s.rest
  { s with keyAllowed := allowed, place := place, rest := rest }

/-- The state after some characters of the line. -/
def advance (s : Lexer) (n : Nat) : Lexer :=
  { s with place := ⟨s.place.line, s.place.column + n⟩, rest := s.rest.drop n }

/-- One more token at the place reached. -/
def push (s : Lexer) (kind : TokenKind) : Lexer :=
  { s with tokens := s.tokens ++ [⟨kind, s.place⟩], trailing := true }

/-- A token put in front of the one with an index. -/
def insert (s : Lexer) (index : Nat) (t : Token) : Lexer :=
  { s with tokens := s.tokens.take index ++ t :: s.tokens.drop index }

/-- Opens a block at a column, unless the innermost block is there already. Its start is put in front
of the token with an index. -/
def openBlock (s : Lexer) (kind : TokenKind) (place : Place) (index : Nat) : Lexer :=
  if s.inBrackets || place.column < s.margin then s
  else { s.insert index ⟨kind, place⟩ with margins := (place.column + 1) :: s.margins }

/-- Ends the blocks whose margin exceeds a bound. Brackets keep blocks open. -/
def closeBlocks (s : Lexer) (bound : Nat) : Lexer :=
  if s.inBrackets then s
  else
    let closed := s.margins.takeWhile fun m => bound < m
    { s with
      margins := s.margins.dropWhile fun m => bound < m
      tokens := s.tokens ++ closed.map fun _ => ⟨.blockEnd, s.place⟩ }

/-- Gives up the candidate. -/
def dropCandidate (s : Lexer) : Except Unreadable Lexer :=
  match s.level.candidate? with
  | some c =>
    if c.required then .error (.spelling .colonExpected c.place s.place)
    else .ok { s with level := ⟨none, s.level.lastIndex⟩ }
  | none => .ok s

/-- Makes the next token a candidate, where a key may begin. -/
def nominate (s : Lexer) : Except Unreadable Lexer := do
  if s.keyAllowed then
    let s ← s.dropCandidate
    let required := !s.inBrackets && s.margin = s.place.column + 1
    let index := s.tokens.length
    pure { s with level := ⟨some ⟨index, s.place, required, true⟩, index⟩ }
  else pure s

/-- The end of the text, which counts as the start of a line. -/
def finish (s : Lexer) : Except Unreadable Lexer := do
  let s := if s.place.column = 0 then s else { s with place := s.place.nextLine }
  let s ← (s.closeBlocks 0).dropCandidate
  pure { s.push .sourceEnd with keyAllowed := false, isDone := true }

/-- The mark of a document. -/
def marker (s : Lexer) (kind : TokenKind) : Except Unreadable Lexer := do
  let s ← (s.closeBlocks 0).dropCandidate
  pure { (s.push kind).advance 3 with keyAllowed := false, trailing := false }

/-- An opening bracket. -/
def openBrackets (s : Lexer) (kind : TokenKind) : Except Unreadable Lexer := do
  let s ← s.nominate
  pure { (s.push kind).advance 1 with
    level := ⟨none, s.tokens.length⟩, outer := s.level :: s.outer, keyAllowed := true }

/-- A closing bracket. If there was no candidate since the opening one, that one is not waited for
any more. -/
def closeBrackets (s : Lexer) (kind : TokenKind) : Except Unreadable Lexer := do
  let s ← s.dropCandidate
  let s :=
    match s.outer with
    | [] => s
    | level :: outer => { s with level := level.release s.level.lastIndex, outer := outer }
  pure { (s.push kind).advance 1 with keyAllowed := false }

/-- A comma in brackets. -/
def comma (s : Lexer) : Except Unreadable Lexer := do
  let s ← s.dropCandidate
  pure { (s.push .comma).advance 1 with keyAllowed := true }

/-- The dash of an item. -/
def item (s : Lexer) : Except Unreadable Lexer := do
  if !s.inBrackets && !s.keyAllowed then throw (.spelling .strayItem s.place s.place)
  let s ← (s.openBlock .blockListStart s.place s.tokens.length).dropCandidate
  pure { (s.push .item).advance 1 with keyAllowed := true, trailing := false }

/-- The mark of a key. -/
def explicitKey (s : Lexer) : Except Unreadable Lexer := do
  if !s.inBrackets && !s.keyAllowed then throw (.spelling .strayKey s.place s.place)
  let s ← (s.openBlock .blockMappingStart s.place s.tokens.length).dropCandidate
  pure { (s.push .key).advance 1 with keyAllowed := !s.inBrackets }

/-- The candidates, the outermost first. -/
def candidates (s : Lexer) : List Candidate :=
  (s.level :: s.outer).reverse.filterMap fun l => l.candidate?

/-- The number of tokens that are given out. -/
def settled (s : Lexer) : Nat :=
  let bound :=
    match s.candidates.find? fun c => c.awaited && c.isLive s.place with
    | some c => c.index
    | none => s.tokens.length
  min bound (s.tokens.length - 2)

/-- The colon of a value, with as many tokens given out as `settled` says. A live candidate becomes
the key, and its missing tokens come in front of it if it is not given out yet. Without a candidate
the key is empty or was marked. -/
def value (s : Lexer) (settled : Nat) : Except Unreadable Lexer := do
  match s.level.candidate?.filter fun c => c.isLive s.place with
  | some c =>
    let isGivenOut := c.index < settled
    let s := s.insert (if isGivenOut then s.tokens.length else c.index) ⟨.key, c.place⟩
    let s := s.openBlock .blockMappingStart c.place (if isGivenOut then s.tokens.length else c.index)
    pure { (s.push .value).advance 1 with
      level := ⟨none, s.level.lastIndex⟩, keyAllowed := false }
  | none =>
    let s ← s.dropCandidate
    if !s.inBrackets && !s.keyAllowed then throw (.spelling .strayValue s.place s.place)
    let s := s.openBlock .blockMappingStart s.place s.tokens.length
    pure { (s.push .value).advance 1 with keyAllowed := !s.inBrackets }

/-- A scalar with the text that was read for it. -/
def pushScalar (s : Lexer) (t : ScalarText) (quoted : Bool) : Lexer :=
  { s.push (.scalar (String.ofList t.text) quoted) with
    place := t.place, rest := t.rest, keyAllowed := t.broken, trailing := !t.broken }

/-- A plain scalar. -/
def plain (s : Lexer) : Except Unreadable Lexer := do
  let s ← s.nominate
  let t ← plainText s.inBrackets s.margin s.place .none s.place s.rest
  pure (s.pushScalar t false)

/-- A scalar in quotes. -/
def quoted (s : Lexer) (mark : Char) : Except Unreadable Lexer := do
  let s ← s.nominate
  let t ← quotedText mark s.place 0 .none s.place.next (s.rest.drop 1)
  pure (s.pushScalar t true)

/-- The characters that begin no plain scalar and no token that is read here. -/
def reserved : List Char := ['\t', '#', '&', '*', '!', '|', '>', '%', '@', Text.Quoted.grave]

/-- The state after one more token. -/
def step (s : Lexer) : Except Unreadable Lexer :=
  let settled := s.settled
  let s := s.passGap
  let s := s.closeBlocks (s.place.column + 1)
  match s.rest with
  | [] => s.finish
  | c :: more =>
    if isMarker s.place s.rest then s.marker (if c = '-' then .documentStart else .documentEnd)
    else if c = '[' then s.openBrackets .listStart
    else if c = '\x7b' then s.openBrackets .mappingStart
    else if c = ']' then s.closeBrackets .listEnd
    else if c = '\x7d' then s.closeBrackets .mappingEnd
    else if c = ',' then s.comma
    else if c = '-' && startsGap more then s.item
    else if c = '?' && (s.inBrackets || startsGap more) then s.explicitKey
    else if c = ':' && (s.inBrackets || startsGap more) then s.value settled
    else if c = '\'' || c = '"' then s.quoted c
    else if reserved.contains c then .error (.spelling .strayCharacter s.place s.place)
    else s.plain

/-- The candidate that had to be a key and cannot become one any more, once the tokens after it are
looked at. -/
def overdue? (s : Lexer) : Option Candidate :=
  s.candidates.find? fun c =>
    c.required && c.awaited && !c.isLive s.place && (s.isDone || c.index + 3 ≤ s.tokens.length)

end Lexer

/-- The tokens of a document, and why they end early if they do. -/
structure Tokens where
  tokens : List Token
  failure? : Option Unreadable

/-- The tokens after a state, as many as `fuel` allows. -/
def Lexer.run : Nat → Lexer → Tokens
  | 0, s => ⟨s.tokens, none⟩
  | fuel + 1, s =>
    match s.overdue? with
    | some c => ⟨s.tokens.take c.index, some (.spelling .colonExpected c.place s.place)⟩
    | none =>
      if s.isDone then ⟨s.tokens, none⟩
      else match s.step with
        | .ok s => run fuel s
        | .error e => ⟨s.tokens.take s.settled, some e⟩

/-- The tokens of a text. Every token but the last takes a character. -/
def Tokens.ofChars (cs : List Char) : Tokens := (Lexer.start cs).run (cs.length + 2)

end TypedScheme.Document
