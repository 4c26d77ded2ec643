import TypedScheme.Datum.Basic
import TypedScheme.SyntaxError
import TypedScheme.Token.Lexer

/-!
# From tokens to data

The reader takes tokens one at a time. What is unfinished at a token is a stack of frames, the
innermost first: a quote without its datum, a list without its parenthesis, a dot without its tail.
A text is incomplete exactly when it ends while the stack is not empty.
-/

set_option autoImplicit false

namespace TypedScheme

namespace Reader

/-- An unfinished datum. Elements are kept newest first. -/
inductive Frame where
  | quote (mark : Token)
  | list (left : Token) (elements : List Datum)
  | dotted (left : Token) (elements : List Datum) (dot : Token)
  | tailed (left : Token) (elements : List Datum) (dot : Token) (tail : Datum)

/-- The fault of a text that ends inside a frame, at the token that opened it. -/
def Frame.unfinished : Frame → SyntaxError
  | quote mark => ⟨.datumExpected, mark.span⟩
  | list left _ => ⟨.unclosed, left.span⟩
  | dotted left _ _ => ⟨.unclosed, left.span⟩
  | tailed left _ _ _ => ⟨.unclosed, left.span⟩

end Reader

/-- The data that are finished, newest first, and the frames that are not, innermost first. -/
structure Reader where
  done : List Datum
  frames : List Reader.Frame

namespace Reader

/-- The reader before any token. -/
def empty : Reader := ⟨[], []⟩

/-- A finished datum goes to the innermost frame. It finishes a quote, which is then a finished
datum itself. -/
def finish (done : List Datum) : List Frame → Datum → Reader
  | [], d => ⟨d :: done, []⟩
  | .quote mark :: frames, d => finish done frames (.quoted mark d)
  | .list left ds :: frames, d => ⟨done, .list left (d :: ds) :: frames⟩
  | .dotted left ds dot :: frames, d => ⟨done, .tailed left ds dot d :: frames⟩
  | .tailed left ds dot tail :: frames, _ => ⟨done, .tailed left ds dot tail :: frames⟩

/-- A token where a datum or the end of a list is expected. -/
def accept (r : Reader) (t : Token) : Except SyntaxError Reader :=
  match t.kind with
  | .leftParen => .ok ⟨r.done, .list t [] :: r.frames⟩
  | .quote => .ok ⟨r.done, .quote t :: r.frames⟩
  | .rightParen =>
    match r.frames with
    | .list left ds :: frames => .ok (finish r.done frames (.list left ds.reverse t))
    | _ => .error ⟨.unexpectedClose, t.span⟩
  | .period =>
    match r.frames with
    | .list left (d :: ds) :: frames => .ok ⟨r.done, .dotted left (d :: ds) t :: frames⟩
    | _ => .error ⟨.unexpectedDot, t.span⟩
  | .illegal => .error ⟨.illegal t.text, t.span⟩
  | _ => .ok (finish r.done r.frames (.atom t))

/-- One token. After a tail only the closing parenthesis may follow. -/
def step (r : Reader) (t : Token) : Except SyntaxError Reader :=
  match r.frames with
  | .tailed left ds dot tail :: frames =>
    if t.kind = .rightParen then .ok (finish r.done frames (.dotted left ds.reverse dot tail t))
    else .error ⟨.closeExpected, t.span⟩
  | _ => r.accept t

/-- The data of a text that ends here. -/
def close (r : Reader) : Except SyntaxError (List Datum) :=
  match r.frames with
  | [] => .ok r.done.reverse
  | frame :: _ => .error frame.unfinished

/-- The tokens of a list one after the other. -/
def steps (r : Reader) (ts : List Token) : Except SyntaxError Reader := ts.foldlM step r

end Reader

namespace Datum

/-- The data that tokens spell. -/
def readTokens (ts : List Token) : Except SyntaxError (List Datum) :=
  Reader.empty.steps ts >>= Reader.close

/-- The data of a source text. -/
def readAll (source : String) : Except SyntaxError (List Datum) :=
  readTokens (Token.significant source)

end Datum

/-- Tokens from elsewhere than a source text. They count up to the first end of the input, and the
supply may report a failure of its own, which shows only when the tokens themselves are well. -/
structure TokenFeed where
  tokens : List Token
  failure : Option String

namespace TokenFeed

/-- Why a feed has no data. -/
inductive Failure where
  | malformed (error : SyntaxError)
  | broken (message : String)

/-- The data of a feed. -/
def read (f : TokenFeed) : Except Failure (List Datum) :=
  match Datum.readTokens (f.tokens.takeWhile fun t => t.kind ≠ .endOfInput) with
  | .error e => .error (.malformed e)
  | .ok ds =>
    match f.failure with
    | some message => .error (.broken message)
    | none => .ok ds

end TokenFeed

end TypedScheme
