import Vmon.Sampler.Members

/-!
# Writing a request and reading it back

A request is an object with a `req-id`, a `get-stats`, both or none, in either order and
with any white space. `sampler_parse_round_trip` reads it back.

## Main definitions

* `RequestMember`, `RequestText` — how a request is written.
* `UuidLib.Canonical` — what is asked of the uuid library.
* `RequestMember.apply` — what a member does to the request.
-/

namespace Vmon

/-- The text of an id has 36 hexadecimal digits and dashes, and `uuid_parse` inverts it. -/
structure UuidLib.Canonical (lib : UuidLib) (uuid : Uuid) : Prop where
  length : (lib.unparse uuid).length = 36
  digits : ∀ b ∈ lib.unparse uuid, Json.isHex b = true ∨ b = 0x2D
  parse : lib.parse (lib.unparse uuid) = some uuid

/-- A statistic that has a name. -/
abbrev Stat := { stat : Bytes × UInt32 // stat ∈ statNames }

def Stat.name (stat : Stat) : Bytes := stat.1.1

def Stat.flag (stat : Stat) : UInt32 := stat.1.2

/-- The union of the flags. -/
def unionFlags (stats : List Stat) : UInt32 := (stats.map Stat.flag).foldl (· ||| ·) 0

/-! ### Writing -/

inductive RequestMember
  | reqId (uuid : Uuid)
  | getStats (stats : List Stat)

def RequestMember.flat (lib : UuidLib) : RequestMember → Bytes × FlatValue
  | .reqId uuid => (lit "req-id", .string (lib.unparse uuid))
  | .getStats stats => (lit "get-stats", .array (stats.map Stat.name))

/-- How many tokens a member has: a key and its value, and the items of an array. -/
def RequestMember.tokens : RequestMember → ℕ
  | .reqId _ => 2
  | .getStats stats => 2 + stats.length

/-- **The texts of a request**: an object with these members, white space anywhere. -/
def RequestText (lib : UuidLib) (members : List RequestMember) (text : Bytes) : Prop :=
  Spaced (FlatObject.lexemes (members.map (RequestMember.flat lib))) text

/-- How many tokens a request has, the object itself included. -/
def requestTokens (members : List RequestMember) : ℕ :=
  1 + (members.map RequestMember.tokens).sum

/-- The members of a request, each of which may be absent. -/
def requestMembers (uuid : Option Uuid) (stats : Option (List Stat)) : List RequestMember :=
  (uuid.map RequestMember.reqId).toList ++ (stats.map RequestMember.getStats).toList

/-! ### Reading -/

def RequestMember.apply (sr : SampleRequest) : RequestMember → SampleRequest
  | .reqId uuid => { sr with uuid := uuid }
  | .getStats stats => { sr with stats := (stats.map Stat.flag).foldl (· ||| ·) sr.stats }

/-- A name is found as itself. -/
theorem find_name (stat : Stat) :
    (statNames.find? fun word => decide (stat.name <+: word.1)) = some stat.1 := by
  have h : ∀ s ∈ statNames, (statNames.find? fun word => decide (s.1 <+: word.1)) = some s := by
    decide
  exact h stat.1 stat.2

/-- The names of statistics, and the keys, are plain. -/
theorem plain_words : ∀ s ∈ lit "req-id" :: lit "get-stats" :: statNames.map Prod.fst,
    Plain s := by
  unfold Plain
  decide

/-- Hexadecimal digits and dashes are plain. -/
theorem plain_digit {b : UInt8} (hb : Json.isHex b = true ∨ b = 0x2D) :
    b ≠ 0 ∧ b ≠ quote ∧ b ≠ backslash := by
  have hno : ∀ c ∈ ([0, quote, backslash] : Bytes), ¬(Json.isHex c = true ∨ c = 0x2D) := by decide
  refine ⟨?_, ?_, ?_⟩ <;> rintro rfl <;> exact hno _ (by simp) hb

theorem RequestMember.plain_flat {lib : UuidLib} {m : RequestMember}
    (hlib : ∀ uuid, m = .reqId uuid → lib.Canonical uuid) :
    Plain (m.flat lib).1 ∧ (m.flat lib).2.Plain := by
  cases m with
  | reqId uuid =>
    refine ⟨plain_words _ (by simp [flat]), ?_⟩
    intro b hb
    exact plain_digit ((hlib uuid rfl).digits b hb)
  | getStats stats =>
    refine ⟨plain_words _ (by simp [flat]), ?_⟩
    intro s hs
    obtain ⟨stat, -, rfl⟩ := List.mem_map.mp hs
    exact plain_words _ (by simpa using .inr (.inr ⟨stat.1.2, stat.2⟩))

theorem length_memberEntries (lib : UuidLib) (m : RequestMember) :
    (FlatObject.memberEntries (m.flat lib)).length = m.tokens := by
  cases m <;> simp [FlatObject.memberEntries, RequestMember.flat, FlatValue.entries,
    RequestMember.tokens]
  omega

theorem length_entries (lib : UuidLib) (members : List RequestMember) :
    (FlatObject.entries (members.map (RequestMember.flat lib))).length = requestTokens members := by
  have hsum : (members.map fun m => (FlatObject.memberEntries (m.flat lib)).length) =
      members.map RequestMember.tokens := List.map_congr_left fun m _ => length_memberEntries lib m
  simp [FlatObject.entries, requestTokens, List.length_flatMap, Nat.add_comm, ← hsum,
    Function.comp_def]

section Members

variable {lib : UuidLib}

/-- What an array of names adds to the mask. -/
theorem itemsMask_names (stats : List Stat) : ∃ mask,
    itemsMask ((stats.map Stat.name).map .string) = some mask ∧
      ∀ m, m ||| mask = (stats.map Stat.flag).foldl (· ||| ·) m := by
  induction stats with
  | nil => exact ⟨0, rfl, fun m => by simp⟩
  | cons stat stats ih =>
    obtain ⟨mask, hmask, hor⟩ := ih
    refine ⟨stat.flag ||| mask, ?_, fun m => ?_⟩
    · simp only [List.map_cons, itemsMask, find_name, Option.bind_some, hmask, Option.map_some]
      rfl
    · rw [List.map_cons, List.foldl_cons, ← hor, UInt32.or_assoc]

/-- What one member says is what it does to the request. -/
theorem readMember_flat {m : RequestMember}
    (hlib : ∀ uuid, m = .reqId uuid → lib.Canonical uuid) : ∃ said,
    readMember lib ((m.flat lib).1, (m.flat lib).2.tree) = some said ∧
      ∀ sr : SampleRequest, sr.tell said = m.apply sr := by
  cases m with
  | reqId uuid =>
    have hcanon := hlib uuid rfl
    have htake : (lib.unparse uuid).take (uuidStringLen - 1) = lib.unparse uuid :=
      List.take_of_length_le (by rw [hcanon.length]; rfl)
    have hlen : (lib.unparse uuid).length ≤ uuidStringLen := by rw [hcanon.length]; decide
    refine ⟨{ id := some uuid }, ?_, fun sr => by simp [SampleRequest.tell, RequestMember.apply]⟩
    simp [readMember, RequestMember.flat, FlatValue.tree, hlen, htake, hcanon.parse]
  | getStats stats =>
    obtain ⟨mask, hmask, hor⟩ := itemsMask_names stats
    have hother : ¬lit "get-stats" <+: lit "req-id" := by decide
    refine ⟨{ stats := mask }, ?_, fun sr => by simp [SampleRequest.tell, RequestMember.apply, hor]⟩
    simp only [readMember, RequestMember.flat, FlatValue.tree, hother, if_false, List.prefix_refl,
      if_true, hmask, Option.map_some]

theorem readMembers_flat {members : List RequestMember}
    (hlib : ∀ uuid, .reqId uuid ∈ members → lib.Canonical uuid) : ∃ said,
    readMembers lib ((members.map (RequestMember.flat lib)).map fun m => (m.1, m.2.tree)) =
        some said ∧
      ∀ sr : SampleRequest, sr.tell said = members.foldl RequestMember.apply sr := by
  induction members with
  | nil => exact ⟨{}, rfl, fun sr => sr.tell_empty⟩
  | cons m members ih =>
    obtain ⟨said, hsaid, htell⟩ := ih fun uuid h => hlib uuid (List.mem_cons_of_mem _ h)
    obtain ⟨first, hfirst, happly⟩ := @readMember_flat lib m fun uuid h =>
      hlib uuid (h ▸ List.mem_cons_self)
    refine ⟨first.then said, ?_, fun sr => ?_⟩
    · rw [List.map_cons, List.map_cons, readMembers, hfirst, Option.bind_some, hsaid]
      rfl
    · rw [SampleRequest.tell_then, happly, htell, List.foldl_cons]

/-- The keys of a request are words. -/
theorem noStray_flat (members : List RequestMember) :
    NoStray ((members.map (RequestMember.flat lib)).map fun m => (m.1, m.2.tree)) := by
  induction members with
  | nil => trivial
  | cons m members ih =>
    refine ⟨.inl ?_, ih⟩
    cases m with
    | reqId uuid => exact .inl (List.prefix_refl _)
    | getStats stats => exact .inr (List.prefix_refl _)

end Members

/-- A written request is read as its members one after the other. -/
theorem samplerParseRequest_text {lib : UuidLib} {members : List RequestMember} {text : Bytes}
    (hlib : ∀ uuid, .reqId uuid ∈ members → lib.Canonical uuid)
    (htext : RequestText lib members text) (htokens : requestTokens members ≤ jsonRequestMaxTokens)
    (stray : ℕ → Bool) (more : Bytes) :
    samplerParseRequest lib stray (text ++ more) text.length =
      .ok (members.foldl RequestMember.apply .zero) := by
  have hplain : ∀ m ∈ members.map (RequestMember.flat lib), Plain m.1 ∧ m.2.Plain := by
    intro flat hflat
    obtain ⟨m, hm, rfl⟩ := List.mem_map.mp hflat
    apply RequestMember.plain_flat
    rintro uuid rfl
    exact hlib uuid hm
  have hread := FlatObject.readable hplain
  have hroom : objectTokens ((members.map (RequestMember.flat lib)).map fun m => (m.1, m.2.tree)) ≤
      jsonRequestMaxTokens := by
    rw [← length_entries lib, ← FlatObject.entries_tree] at htokens
    exact htokens
  rw [RequestText, ← FlatObject.lexemes_tree] at htext
  obtain ⟨hparse, -⟩ := @ObjectText.read lib stray _ text ⟨hread, htext⟩ hroom (noStray_flat members) more
  obtain ⟨said, hsaid, htell⟩ := readMembers_flat hlib
  rw [hsaid, Option.map_some, htell] at hparse
  cases h : samplerParseRequest lib stray (text ++ more) text.length with
  | error err => simp [h, Except.toOption] at hparse
  | ok sr => simpa [h, Except.toOption] using hparse

/-- **Round trip of a request.** -/
theorem sampler_parse_round_trip (lib : UuidLib) (stray : ℕ → Bool) (uuid : Option Uuid)
    (stats : Option (List Stat)) (hlib : ∀ u ∈ uuid, lib.Canonical u)
    (members : List RequestMember) (horder : members.Perm (requestMembers uuid stats))
    (text more : Bytes) (htext : RequestText lib members text)
    (htokens : requestTokens members ≤ jsonRequestMaxTokens) :
    samplerParseRequest lib stray (text ++ more) text.length =
      .ok { uuid := uuid.getD (Vector.replicate 16 0), stats := unionFlags (stats.getD []) } := by
  have hmem : ∀ u, RequestMember.reqId u ∈ members → u ∈ uuid := by
    intro u hu
    have := horder.mem_iff.mp hu
    simpa [requestMembers] using this
  rw [samplerParseRequest_text (fun u hu => hlib u (hmem u hu)) htext htokens]
  -- the two members do not interfere
  have hswap : members.foldl RequestMember.apply .zero =
      (requestMembers uuid stats).foldl RequestMember.apply .zero := by
    apply horder.foldl_eq'
    intro a ha b hb z
    have ha := horder.mem_iff.mp ha
    have hb := horder.mem_iff.mp hb
    cases a with
    | reqId u =>
      cases b with
      | reqId v =>
        obtain rfl : u = v := by simp_all [requestMembers]
        rfl
      | getStats => rfl
    | getStats L =>
      cases b with
      | reqId => rfl
      | getStats L' =>
        obtain rfl : L = L' := by simp_all [requestMembers]
        rfl
  rw [hswap]
  cases uuid <;> cases stats <;> rfl

/-! ### The uuid library -/

/-- The lower-case digit of a number below sixteen. -/
def hexDigit (n : ℕ) : UInt8 := if n < 10 then digitByte n else (0x57 + n).toUInt8

def hexVal (b : UInt8) : ℕ :=
  if isDigit b then digitVal b else if b < 0x60 then b.toNat - 0x37 else b.toNat - 0x57

def hexBytes (bytes : List UInt8) : Bytes :=
  bytes.flatMap fun b => [hexDigit (b.toNat / 16), hexDigit (b.toNat % 16)]

def readHexBytes : Bytes → List UInt8
  | a :: b :: s => (16 * hexVal a + hexVal b).toUInt8 :: readHexBytes s
  | _ => []

/-- Groups of eight, four, four, four and twelve digits. -/
def uuidUnparse (uuid : Uuid) : Bytes :=
  let bytes := uuid.toList
  hexBytes (bytes.take 4) ++ 0x2D :: hexBytes ((bytes.drop 4).take 2) ++
    0x2D :: hexBytes ((bytes.drop 6).take 2) ++ 0x2D :: hexBytes ((bytes.drop 8).take 2) ++
    0x2D :: hexBytes (bytes.drop 10)

def uuidParse (s : Bytes) : Option Uuid :=
  let shaped := s.zipIdx.all fun c => if c.2 ∈ [8, 13, 18, 23] then c.1 = 0x2D else Json.isHex c.1
  let bytes := readHexBytes (s.filter (· ≠ 0x2D))
  if h : s.length = 36 ∧ shaped = true ∧ bytes.toArray.size = 16 then some ⟨bytes.toArray, h.2.2⟩
  else none

/-- The two functions as `libuuid` has them. -/
def libuuid : UuidLib := { unparse := uuidUnparse, parse := uuidParse }

/-- The id of a request that the tests send. -/
def testReqId : Uuid :=
  #v[0x9E, 0xC2, 0xB6, 0x4F, 0xE4, 0x32, 0x40, 0x20, 0x98, 0xDF, 0x8D, 0xAC, 0x99, 0x31, 0xF5, 0xF7]

theorem sampler_parse_round_trip_both : ∃ text,
    text = lit "\x7b\"get-stats\":[\"vcpu\",\"block\"]," ++
      lit "\"req-id\":\"9ec2b64f-e432-4020-98df-8dac9931f5f7\"\x7d" ∧
    samplerParseRequest libuuid (fun _ => false) (text ++ [0x0A]) text.length =
      .ok { uuid := testReqId, stats := 40 } := by
  have hcanon : libuuid.Canonical testReqId :=
    ⟨by decide +kernel, by decide +kernel, by decide +kernel⟩
  refine ⟨_, rfl, ?_⟩
  exact sampler_parse_round_trip libuuid (fun _ => false) (some testReqId)
    (some [⟨(lit "vcpu", 8), by decide⟩, ⟨(lit "block", 32), by decide⟩])
    (by rintro u ⟨⟩; exact hcanon) _ (List.Perm.swap _ _ []) _ [0x0A] (spaced_compact _) (by decide)

end Vmon
