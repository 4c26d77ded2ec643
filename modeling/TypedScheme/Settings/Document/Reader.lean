import TypedScheme.Settings.Document.Token

/-!
# From text to nodes

A node is read from the tokens of a document. Where a node is left out there is an empty scalar. Only
the first document of a text is read, and no further than to its end.
-/

set_option autoImplicit false

namespace TypedScheme.Document

/-- The scalar that is left out at a place. -/
def Node.absent (place : Place) : Node := .scalar (place.line + 1) "" false

/-- The tokens that are left, and why there are no more after them. -/
structure Supply where
  tokens : List Token
  failure : Unreadable

/-- Reading from a supply of tokens. -/
abbrev Reading := StateT Supply (Except Unreadable)

namespace Reading

/-- The failure of a supply that has come to its end. -/
def exhausted {α : Type} : Reading α := do throw (← get).failure

/-- The next token. -/
def peek : Reading Token := do
  match (← get).tokens with
  | [] => exhausted
  | t :: _ => pure t

/-- Passes over a token. -/
def skip : Reading Unit := modify fun s => { s with tokens := s.tokens.drop 1 }

/-- Whether the next token is of one of some kinds. -/
def isNext (kinds : List TokenKind) : Reading Bool := do pure (kinds.contains (← peek).kind)

/-- A failure for want of something at the next token, in a part that began at `start`. -/
def lack {α : Type} (problem : Problem) (start : Place) : Reading α := do
  throw (.structural problem start (← peek).place)

/-- The scalar that is left out before the next token. -/
def absent : Reading Node := do pure (.absent (← peek).place)

end Reading

open Reading

/-- The tokens before which a key or a value of a block may be left out. -/
def blockPartEnds : List TokenKind := [.key, .value, .blockEnd]

mutual

/-- The next node. In a block there may be nodes of blocks, and after a key or a colon the items of a
list may stand in the column of the mapping itself. -/
def readNode : Nat → Bool → Bool → Reading Node
  | 0, _, _ => exhausted
  | fuel + 1, inBlock, afterKey => do
    let t ← peek
    let line := t.place.line + 1
    match t.kind, inBlock, afterKey with
    | .scalar text quoted, _, _ => do
      skip
      pure (.scalar line text quoted)
    | .listStart, _, _ => do
      skip
      pure (.list line (← readListItems fuel t.place true))
    | .mappingStart, _, _ => do
      skip
      pure (.mapping line (← readMappingEntries fuel t.place true))
    | .blockListStart, true, _ => do
      skip
      pure (.list line (← readBlockItems fuel t.place))
    | .blockMappingStart, true, _ => do
      skip
      pure (.mapping line (← readBlockEntries fuel t.place))
    | .item, _, true => do pure (.list line (← readFlushItems fuel))
    | _, _, _ => lack .nodeExpected t.place

/-- The items of a block up to its end. -/
def readBlockItems : Nat → Place → Reading (List Node)
  | 0, _ => exhausted
  | fuel + 1, start => do
    let t ← peek
    match t.kind with
    | .item => do
      skip
      let first ←
        if ← isNext [.item, .blockEnd] then pure (.absent t.place) else readNode fuel true false
      pure (first :: (← readBlockItems fuel start))
    | .blockEnd => do
      skip
      pure []
    | _ => lack .itemExpected start

/-- The items that stand in the column of the mapping around them. -/
def readFlushItems : Nat → Reading (List Node)
  | 0 => exhausted
  | fuel + 1 => do
    let t ← peek
    match t.kind with
    | .item => do
      skip
      let first ←
        if ← isNext (.item :: blockPartEnds) then pure (.absent t.place)
        else readNode fuel true false
      pure (first :: (← readFlushItems fuel))
    | _ => pure []

/-- A key or a value of a block behind its mark at a place. -/
def readBlockPart : Nat → Place → Reading Node
  | 0, _ => exhausted
  | fuel + 1, place => do
    skip
    if ← isNext blockPartEnds then pure (.absent place) else readNode fuel true true

/-- The entries of a block up to its end. -/
def readBlockEntries : Nat → Place → Reading (List (Node × Node))
  | 0, _ => exhausted
  | fuel + 1, start => do
    let t ← peek
    match t.kind with
    | .key => do
      let key ← readBlockPart fuel t.place
      let value ← if ← isNext [.value] then readBlockPart fuel (← peek).place else absent
      pure ((key, value) :: (← readBlockEntries fuel start))
    | .blockEnd => do
      skip
      pure []
    | _ => lack .keyExpected start

/-- The items in brackets up to the closing one. An item with a colon is a mapping of one entry. -/
def readListItems : Nat → Place → Bool → Reading (List Node)
  | 0, _, _ => exhausted
  | fuel + 1, start, isFirst => do
    if !isFirst then
      if ← isNext [.comma] then skip
      else if !(← isNext [.listEnd]) then lack .listEndExpected start
    let t ← peek
    match t.kind with
    | .listEnd => do
      skip
      pure []
    | .key => do
      skip
      let key ← readPairKey fuel
      let value ← readBracketValue fuel .listEnd
      let first := Node.mapping (t.place.line + 1) [(key, value)]
      pure (first :: (← readListItems fuel start false))
    | _ => do
      let first ← readNode fuel false false
      pure (first :: (← readListItems fuel start false))

/-- The key of an item in brackets that is an entry. A mark that stands in its place is passed
over. -/
def readPairKey : Nat → Reading Node
  | 0 => exhausted
  | fuel + 1 => do
    if ← isNext [.value, .comma, .listEnd] then
      let key ← absent
      skip
      pure key
    else readNode fuel false false

/-- The value behind a colon in brackets of the given closing mark. -/
def readBracketValue : Nat → TokenKind → Reading Node
  | 0, _ => exhausted
  | fuel + 1, closing => do
    if ← isNext [.value] then
      skip
      if ← isNext [.comma, closing] then absent else readNode fuel false false
    else absent

/-- The entries in braces up to the closing one. A node without a colon is a key with an empty
value. -/
def readMappingEntries : Nat → Place → Bool → Reading (List (Node × Node))
  | 0, _, _ => exhausted
  | fuel + 1, start, isFirst => do
    if !isFirst then
      if ← isNext [.comma] then skip
      else if !(← isNext [.mappingEnd]) then lack .mappingEndExpected start
    let t ← peek
    match t.kind with
    | .mappingEnd => do
      skip
      pure []
    | .key => do
      skip
      let key ←
        if ← isNext [.value, .comma, .mappingEnd] then absent else readNode fuel false false
      let value ← readBracketValue fuel .mappingEnd
      pure ((key, value) :: (← readMappingEntries fuel start false))
    | _ => do
      let key ← readNode fuel false false
      let value ← absent
      pure ((key, value) :: (← readMappingEntries fuel start false))

end

/-- The first document, if there is one. -/
def readDocument (fuel : Nat) : Reading (Option Node) := do
  if ← isNext [.sourceEnd] then pure none
  else do
    let node ←
      if ← isNext [.documentStart] then do
        skip
        if ← isNext [.documentStart, .documentEnd, .sourceEnd] then absent
        else readNode fuel true false
      else readNode fuel true false
    let _ ← peek
    pure (some node)

/-- Text in which a carriage return or a next line character that ends a line is a line feed. -/
def withLineFeeds : List Char → List Char
  | '\r' :: '\n' :: rest => '\n' :: withLineFeeds rest
  | c :: rest => (if c = '\r' || c = '\u0085' then '\n' else c) :: withLineFeeds rest
  | [] => []

/-- Whether a document may hold a character. -/
def isAllowed (c : Char) : Bool :=
  c = '\t' || c = '\n' || c = '\r' || (0x20 ≤ c.toNat && c.toNat ≤ 0x7E) || c.toNat = 0x85
    || (0xA0 ≤ c.toNat && c.toNat ≤ 0xFFFD) || 0x10000 ≤ c.toNat

/-- The document of a text, if there is anything in it. A byte order mark may come first. -/
def parse (source : String) : Except Unreadable (Option Node) :=
  let cs := source.toList
  let cs := if cs.head? = some '\ufeff' then cs.drop 1 else cs
  if cs.all isAllowed then do
    let found := Tokens.ofChars (withLineFeeds cs)
    let supply := Supply.mk found.tokens (found.failure?.getD ⟨.nodeExpected, 0⟩)
    let (node?, _) ← (readDocument (3 * found.tokens.length + 3)).run supply
    pure node?
  else .error ⟨.controlCharacter, 0⟩

end TypedScheme.Document
