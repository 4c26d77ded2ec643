import TypedScheme.Datum.Reader
import TypedScheme.Ty.Numbering

/-!
# From data to types

The grammar of type expressions: a name, `(Pair T T)`, or a procedure type whose parameter types are
separated by stars and followed by an arrow and the type of the result. `(Empty -> T)` and `(-> T)`
take no parameter. A name that is no base type is a variable. The result type is read before the
parameter types, which decides the numbers of the variables.
-/

set_option autoImplicit false

namespace TypedScheme.Ty

/-- The names that cannot be a type by themselves. -/
def reservedNames : List String := ["Pair", "->", "*"]

/-- The type of a token. -/
def ofToken (t : Token) : Parse Ty :=
  if t.kind = .symbol then
    match Base.ofName? t.text with
    | some b => pure (.base b)
    | none =>
      if reservedNames.contains t.text then Parse.fault (.reservedInType t.text) t.span
      else Parse.numbered t.text
  else Parse.fault (.invalidType t.text) t.span

/-- Whether the last datum but one is an arrow. -/
def arrowBeforeLast : List Datum → Bool
  | [arrow, _] => arrow.isSymbol "->"
  | _ :: rest => arrowBeforeLast rest
  | [] => false

/-- Whether the parameters in front of an arrow and a result are the lone name `Empty`. -/
def hasNoParameters : List Datum → Bool
  | [d, _, _] => d.isSymbol "Empty"
  | _ => false

/-- The two kinds of compound type. -/
inductive Form where
  | pair
  | procedure
  deriving DecidableEq

/-- The kind of compound type that the elements of a list make, judged by its outline. -/
def form (ds : List Datum) : Except SyntaxFault Form :=
  match ds with
  | [] => .error .emptyType
  | head :: rest =>
    if head.isSymbol "Pair" then if rest.length = 2 then .ok .pair else .error .pairArity
    else if rest.isEmpty then .error .arrowMissing
    else if arrowBeforeLast ds then .ok .procedure
    else .error .arrowMisplaced

mutual

/-- The type of a datum. -/
def ofDatum : Datum → Parse Ty
  | .atom t => ofToken t
  | .quoted mark d => Parse.fault .quotedType (Datum.quoted mark d).span
  | .dotted left ds dot tail right =>
    Parse.fault .dottedType (Datum.dotted left ds dot tail right).span
  | .list left ds right =>
    let whole := (Datum.list left ds right).span
    match form ds with
    | .error fault => Parse.fault fault whole
    | .ok .pair => ofPair ds
    | .ok .procedure => do
      let result ← ofLast ds
      let params ← if hasNoParameters ds then pure [] else ofParameters whole ds
      pure (.proc params result)

/-- The type of a pair form. -/
def ofPair : List Datum → Parse Ty
  | [_, a, d] => do
    let car ← ofDatum a
    let cdr ← ofDatum d
    pure (.pair car cdr)
  | _ => Parse.fault .pairArity .absent

/-- The type of the last datum. -/
def ofLast : List Datum → Parse Ty
  | [] => Parse.fault .emptyType .absent
  | [d] => ofDatum d
  | _ :: rest => ofLast rest

/-- The types in front of an arrow and a result. -/
def ofParameters (whole : Span) : List Datum → Parse (List Ty)
  | [] => pure []
  | [_, _] => pure []
  | d :: rest => do
    let t ← ofDatum d
    let ts ← ofStarred whole rest
    pure (t :: ts)

/-- The types in front of an arrow and a result, each behind a star. -/
def ofStarred (whole : Span) : List Datum → Parse (List Ty)
  | star :: d :: rest =>
    match rest with
    | [] => pure []
    | [_] =>
      if star.isSymbol "*" then Parse.fault .parameterExpected whole
      else Parse.fault .starExpected star.span
    | _ =>
      if star.isSymbol "*" then do
        let t ← ofDatum d
        let ts ← ofStarred whole rest
        pure (t :: ts)
      else Parse.fault .starExpected star.span
  | _ => pure []

end

/-- The type that a text spells, with variables of its own. -/
def parse (source : String) : Parse Ty := do
  match ← (Datum.readAll source : Except SyntaxError (List Datum)) with
  | [d] => do
    Parse.forgetNames
    ofDatum d
  | ds => Parse.fault (.typeCount ds.length) .absent

/-- The message for a signature that is no type, which is a mistake of the caller. -/
def signatureFault (source : String) (e : SyntaxError) : String :=
  s!"parser: type expression {Text.Quoted.text source}: {e.render}"

end TypedScheme.Ty
