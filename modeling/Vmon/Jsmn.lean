import Vmon.Lib.Json

/-!
# The tokenizer of requests

`contrib/jsmn/jsmn.c`, not strict and without parent links, called with a table. The
parser walks over the bytes once; what a character does depends on the tokens so far and
on `toksuper`, the token whose size the next one counts into.

Texts are shorter than `2^31` bytes, so no position leaves the `unsigned int` and the `int`s that
the source keeps it in.

A comma that stands where no token is open makes the parser read the type of the token
before the table. What it finds there is left to the parameter `stray`.

`Scanned` is what every table of the parser satisfies, and `Lexes` says what a piece of
text adds to a table wherever it stands.

## Main definitions

* `JsmnTok`, `JsmnParser` — the structs of the source.
* `jsmnParseString`, `jsmnParsePrimitive`, `jsmnChar`, `jsmnParse` — the functions.
* `tokText` — the text of a token.
-/

namespace Vmon

/-- The bytes with a meaning outside strings. -/
def braceOpen : UInt8 := 0x7B
def braceClose : UInt8 := 0x7D
def bracketOpen : UInt8 := 0x5B
def bracketClose : UInt8 := 0x5D
def quote : UInt8 := 0x22
def backslash : UInt8 := 0x5C
def colon : UInt8 := 0x3A
def comma : UInt8 := 0x2C

inductive JsmnType
  | primitive
  | object
  | array
  | string
  deriving DecidableEq

inductive JsmnErr
  | nomem
  | inval
  | part
  deriving DecidableEq

/-- `jsmntok_t`; `end` is a keyword here. The bounds are `int`s there: a text is shorter than
`2^31` bytes. -/
structure JsmnTok where
  type : JsmnType
  start : ℤ
  end_ : ℤ
  size : ℕ
  deriving DecidableEq

/-- `jsmn_parser`, with the tokens it has handed out, the first `toknext` of the table, and
the number `count` of `jsmn_parse`. `toksuper` is `none` where the source has `-1`, and `pos` is an
`unsigned int` there. -/
structure JsmnParser where
  pos : ℕ
  tokens : List JsmnTok
  toksuper : Option ℕ
  count : ℕ

def jsmnInit : JsmnParser := { pos := 0, tokens := [], toksuper := none, count := 0 }

/-! ### One token -/

/-- A token whose end is not known yet. -/
def JsmnTok.isOpen (tok : JsmnTok) : Bool := tok.start != -1 && tok.end_ == -1

def JsmnTok.isContainer (tok : JsmnTok) : Bool := tok.type = .array || tok.type = .object

/-- Where the last token is that satisfies `p`. -/
def lastTok (p : JsmnTok → Bool) : List JsmnTok → Option ℕ
  | [] => none
  | tok :: tokens =>
    match lastTok p tokens with
    | some i => some (i + 1)
    | none => if p tok then some 0 else none

/-- The length of the primitive that starts the bytes: up to a delimiter, a NUL, or the end. -/
def jsmnParsePrimitive : Bytes → Except JsmnErr ℕ
  | [] => .ok 0
  | c :: rest =>
    if c = 0 ∨ c = colon ∨ Json.isWs c ∨ c = comma ∨ c = bracketClose ∨ c = braceClose then .ok 0
    else if c < 32 ∨ 127 ≤ c then .error .inval
    else (jsmnParsePrimitive rest).map (· + 1)

/-- The length of the string body that starts the bytes, up to its closing quote. `hex` more
digits of a unicode escape are to come. -/
def jsmnParseString (hex : ℕ) : Bytes → Except JsmnErr ℕ
  | [] => .error .part
  | c :: rest =>
    if c = 0 then .error .part
    else if 0 < hex then
      if Json.isHex c then (jsmnParseString (hex - 1) rest).map (· + 1) else .error .inval
    else if c = quote then .ok 0
    else if c = backslash then
      match rest with
      | [] => .error .part
      | e :: rest =>
        if e ∈ Json.escapes then (jsmnParseString 0 rest).map (· + 2)
        else if e = 0x75 then (jsmnParseString 4 rest).map (· + 2)
        else .error .inval
    else (jsmnParseString 0 rest).map (· + 1)

/-! ### The table -/

namespace JsmnParser

/-- `jsmn_alloc_token` and the filling of the token, which counts into `toksuper`. -/
def add (numTokens : ℕ) (p : JsmnParser) (tok : JsmnTok) : Except JsmnErr JsmnParser :=
  if numTokens ≤ p.tokens.length then .error .nomem
  else
    let counted := match p.toksuper with
      | some i => p.tokens.modify i fun super => { super with size := super.size + 1 }
      | none => p.tokens
    .ok { p with tokens := counted ++ [tok], count := p.count + 1 }

/-- An opening bracket. -/
def openTok (numTokens : ℕ) (p : JsmnParser) (type : JsmnType) : Except JsmnErr JsmnParser :=
  (p.add numTokens { type := type, start := p.pos, end_ := -1, size := 0 }).map fun p' =>
    { p' with toksuper := some p.tokens.length }

/-- A closing bracket ends the last open token. -/
def closeTok (p : JsmnParser) (type : JsmnType) : Except JsmnErr JsmnParser :=
  match lastTok JsmnTok.isOpen p.tokens with
  | none => .error .inval
  | some i =>
    if (p.tokens[i]?).map JsmnTok.type ≠ some type then .error .inval
    else
      let tokens := p.tokens.modify i fun tok => { tok with end_ := p.pos + 1 }
      .ok { p with tokens := tokens, toksuper := lastTok JsmnTok.isOpen (tokens.take (i + 1)) }

/-- The last token handed out, `toknext - 1`. -/
def lastIndex (p : JsmnParser) : Option ℕ :=
  if p.tokens = [] then none else some (p.tokens.length - 1)

/-- A comma goes back to the container, unless the current token is one. -/
def commaTok (stray : ℕ → Bool) (p : JsmnParser) : JsmnParser :=
  let container := match p.toksuper with
    | some i => (p.tokens[i]?).any JsmnTok.isContainer
    | none => stray p.pos
  if container then p
  else
    match lastTok (fun tok => tok.isContainer && tok.isOpen) p.tokens with
    | some i => { p with toksuper := some i }
    | none => p

end JsmnParser

/-- What character `c` does, with `rest` after it, and how many bytes of `rest` it takes. -/
def jsmnChar (stray : ℕ → Bool) (numTokens : ℕ) (p : JsmnParser) (c : UInt8) (rest : Bytes) :
    Except JsmnErr (JsmnParser × ℕ) :=
  if c = braceOpen ∨ c = bracketOpen then
    (p.openTok numTokens (if c = braceOpen then .object else .array)).map (·, 0)
  else if c = braceClose ∨ c = bracketClose then
    (p.closeTok (if c = braceClose then .object else .array)).map (·, 0)
  else if c = quote then do
    let n ← jsmnParseString 0 rest
    let p' ← p.add numTokens
      { type := .string, start := p.pos + 1, end_ := p.pos + 1 + n, size := 0 }
    return (p', n + 1)
  else if Json.isWs c then .ok (p, 0)
  else if c = colon then .ok ({ p with toksuper := p.lastIndex }, 0)
  else if c = comma then .ok (p.commaTok stray, 0)
  else do
    let n ← jsmnParsePrimitive (c :: rest)
    let p' ← p.add numTokens { type := .primitive, start := p.pos, end_ := p.pos + n, size := 0 }
    return (p', n - 1)

/-- The loop of `jsmn_parse` over the bytes from `pos` on, the first `skip` of which the last
character took. -/
def jsmnLoop (stray : ℕ → Bool) (numTokens : ℕ) :
    Bytes → ℕ → JsmnParser → Except JsmnErr JsmnParser
  | [], _, p => .ok p
  | _ :: rest, skip + 1, p => jsmnLoop stray numTokens rest skip { p with pos := p.pos + 1 }
  | c :: rest, 0, p =>
    if c = 0 then .ok p
    else
      match jsmnChar stray numTokens p c rest with
      | .error e => .error e
      | .ok (p', skip) => jsmnLoop stray numTokens rest skip { p' with pos := p.pos + 1 }

/-- `jsmn_parse`: the number of tokens, and the table. -/
def jsmnParse (stray : ℕ → Bool) (numTokens : ℕ) (js : Bytes) :
    Except JsmnErr (ℕ × List JsmnTok) :=
  match jsmnLoop stray numTokens js 0 jsmnInit with
  | .error e => .error e
  | .ok p => if p.tokens.any JsmnTok.isOpen then .error .part else .ok (p.count, p.tokens)

/-- The bytes of a text between the bounds of a token. -/
def tokText (js : Bytes) (tok : JsmnTok) : Bytes :=
  (js.drop tok.start.toNat).take (tok.end_ - tok.start).toNat

end Vmon
