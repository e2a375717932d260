import Vmon.Jsmn
import Vmon.Sampler

/-!
# Reading a request

`sampler_parse_request` walks over the flat token table of the tokenizer. It compares
keys and names with `strncmp` over the length of the token, so it takes every prefix of a
word for the word.

The lines it logs are left out.

## Main definitions

* `strncmp`, `isToken`, `parseStatsString`, `samplerParseRequest` — the functions.
* `Member`, `memberAt`, `nextMember`, `parseMember` — one turn of the loop.
-/

namespace Vmon

/-- `uuid_unparse` and `uuid_parse`; `none` is the return value `-1`, with the output left
as it was. -/
structure UuidLib where
  unparse : Uuid → Bytes
  parse : Bytes → Option Uuid

/-- `!strncmp(a, b, n)`, on the bytes from two pointers on up to some NUL at least. -/
def strncmp : ℕ → Bytes → Bytes → Bool
  | 0, _, _ => true
  | n + 1, a, b =>
    if a.headD 0 ≠ b.headD 0 then false
    else if a.headD 0 = 0 then true
    else strncmp n a.tail b.tail

/-- The names of `parse_stats_string` in the order it tries them, and their
`VIR_DOMAIN_STATS` flags. -/
def statNames : List (Bytes × UInt32) :=
  [(lit "state", 1), (lit "cpu-total", 2), (lit "balloon", 4), (lit "vcpu", 8),
    (lit "interface", 16), (lit "block", 32)]

/-- Why a request is refused. -/
inductive RequestError
  | malformed (err : JsmnErr)
  | notObject
  | reqIdNotString
  | reqIdTooLong
  | statsNotArray
  | statNotString
  | unknownStat (reqId : Uuid) (name : Bytes)
  deriving DecidableEq

/-- `filter` is what the text holds from the start of the token on, `len` its length. -/
def parseStatsString (sr : SampleRequest) (filter : Bytes) (len : ℕ) :
    Except RequestError SampleRequest :=
  match statNames.find? fun name => strncmp len filter name.1 with
  | some (_, stat) => .ok { sr with stats := sr.stats ||| stat }
  | none => .error (.unknownStat sr.uuid (filter.take len))

def tokLength (tok : JsmnTok) : ℕ := (tok.end_ - tok.start).toNat

def isToken (json : Bytes) (tok : JsmnTok) (s : Bytes) : Bool :=
  tok.type = .string && strncmp (tokLength tok) (json.drop tok.start.toNat) s

def hasNext (i r : ℕ) : Bool := i + 1 < r

def jsonRequestMaxTokens : ℕ := 32

/-- `VIR_UUID_STRING_BUFLEN` and `UUID_STRING_LEN`: a uuid text and its NUL. -/
def uuidStringLen : ℕ := 36 + 1

/-- The string in `uuidbuf`: what `strncpy` copied, with its last byte cleared. -/
def uuidbuf (text : Bytes) (value : JsmnTok) : Bytes :=
  (((text.drop value.start.toNat).take (min (tokLength value) uuidStringLen)).takeWhile
    (· ≠ 0)).take (uuidStringLen - 1)

/-- The branch of a `req-id`, whose value is the next token. The value of `uuid_parse` is
not looked at. -/
def parseReqId (lib : UuidLib) (text : Bytes) (value : JsmnTok) (sr : SampleRequest) :
    Except RequestError SampleRequest :=
  if value.type ≠ .string then .error .reqIdNotString
  else if tokLength value > uuidStringLen then .error .reqIdTooLong
  else
    match lib.parse (uuidbuf text value) with
    | some uuid => .ok { sr with uuid := uuid }
    | none => .ok sr

/-- The loop over the items of a `get-stats`. -/
def parseStatItems (text : Bytes) : List JsmnTok → SampleRequest →
    Except RequestError SampleRequest
  | [], sr => .ok sr
  | stat :: items, sr =>
    if stat.type ≠ .string then .error .statNotString
    else
      match parseStatsString sr (text.drop stat.start.toNat) (tokLength stat) with
      | .error err => .error err
      | .ok sr => parseStatItems text items sr

/-- The tokens `tokens[i+1+j+1]` for `j` below the size of the value. The tokenizer counts
into a size only tokens that come after it, so none lies outside the table. -/
def statItems (tokens : List JsmnTok) (i : ℕ) (value : JsmnTok) : List JsmnTok :=
  (tokens.drop (i + 2)).take value.size

/-- What the loop takes a token for. -/
inductive Member
  | reqId (value : JsmnTok)
  | getStats (value : JsmnTok)
  | unknown
  deriving DecidableEq

/-- The tests at the head of the loop, at token `i`. -/
def memberAt (text : Bytes) (tokens : List JsmnTok) (i : ℕ) : Member :=
  match tokens[i]?, tokens[i + 1]? with
  | some key, some value =>
    if isToken text key (lit "req-id") && hasNext i tokens.length then .reqId value
    else if isToken text key (lit "get-stats") && hasNext i tokens.length then .getStats value
    else .unknown
  | _, _ => .unknown

/-- The value of `i` at the next turn. -/
def nextMember (text : Bytes) (tokens : List JsmnTok) (i : ℕ) : ℕ :=
  match memberAt text tokens i with
  | .reqId _ => i + 2
  | .getStats value => i + value.size + 2
  | .unknown => i + 1

def parseMember (lib : UuidLib) (text : Bytes) (tokens : List JsmnTok) (i : ℕ)
    (sr : SampleRequest) : Except RequestError SampleRequest :=
  match memberAt text tokens i with
  | .reqId value => parseReqId lib text value sr
  | .getStats value =>
    if value.type ≠ .array then .error .statsNotArray
    else parseStatItems text (statItems tokens i value) sr
  | .unknown => .ok sr

/-- The loop over the tokens, from `i` on. Each turn moves on by a token at least, so as many
turns as there are tokens are enough. -/
def parseMembers (lib : UuidLib) (text : Bytes) (tokens : List JsmnTok) :
    ℕ → ℕ → SampleRequest → Except RequestError SampleRequest
  | 0, _, sr => .ok sr
  | turns + 1, i, sr =>
    if i < tokens.length then
      match parseMember lib text tokens i sr with
      | .error err => .error err
      | .ok sr => parseMembers lib text tokens turns (nextMember text tokens i) sr
    else .ok sr

/-- The request after `memset` and `uuid_clear`. -/
def SampleRequest.zero : SampleRequest := { uuid := Vector.replicate 16 0, stats := 0 }

/-- The table has as many tokens as `jsmn_parse` returns. -/
def samplerParseTokens (lib : UuidLib) (text : Bytes) (tokens : List JsmnTok) :
    Except RequestError SampleRequest :=
  if (tokens[0]?).map JsmnTok.type ≠ some .object then .error .notObject
  else parseMembers lib text tokens tokens.length 1 .zero

/-- `sampler_parse_request` on the first `size` bytes of a text. -/
def samplerParseRequest (lib : UuidLib) (stray : ℕ → Bool) (text : Bytes) (size : ℕ) :
    Except RequestError SampleRequest :=
  match jsmnParse stray jsonRequestMaxTokens (text.take size) with
  | .error err => .error (.malformed err)
  | .ok (_, tokens) => samplerParseTokens lib text tokens

/-- The return value of `sampler_parse_request`. -/
def requestCode : Except RequestError SampleRequest → ℤ
  | .error _ => -1
  | .ok _ => 0

end Vmon
