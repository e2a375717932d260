import Vmon.Sampler.RoundTrip

/-!
# The id of a request

The value of a `req-id` passes through a test of its length, a buffer of 37 bytes and
`uuid_parse`, whose result is not looked at. `request_id_iff` says for which requests an accepted
id is the whole of the text that was sent.

## Main definitions

* `IdText` — the value is the text of an id.
* `WholeId` — the promise.
* `lastId` — the id that the loop ends with.
-/

namespace Vmon

/-- The value is a string of 36 bytes that `uuid_parse` accepts as `uuid`. -/
def IdText (lib : UuidLib) (v : Tree) (uuid : Uuid) : Prop :=
  ∃ s, v = .string s ∧ s.length = 36 ∧ lib.parse s = some uuid

/-- **The promise** for a request whose `req-id` has the value `v`: it is accepted only where the
value is the text of an id, with that id, and it is refused everywhere else. -/
structure WholeId (lib : UuidLib) (v : Tree) (ret : Except RequestError SampleRequest) : Prop where
  accepted : requestCode ret = 0 → ∃ uuid, IdText lib v uuid ∧ ∀ sr, ret = .ok sr → sr.uuid = uuid
  refused : (¬∃ uuid, IdText lib v uuid) → requestCode ret = -1

theorem wholeId_error {lib : UuidLib} {v : Tree} (err : RequestError) : WholeId lib v (.error err) :=
  ⟨fun h => by simp [requestCode] at h, fun _ => rfl⟩

theorem wholeId_ok {lib : UuidLib} {v : Tree} {sr : SampleRequest} :
    WholeId lib v (.ok sr) ↔ IdText lib v sr.uuid := by
  constructor
  · intro H
    obtain ⟨uuid, htext, hsame⟩ := H.accepted rfl
    rw [hsame sr rfl]
    exact htext
  · intro htext
    refine ⟨fun _ => ⟨sr.uuid, htext, ?_⟩, fun hno => absurd ⟨_, htext⟩ hno⟩
    rintro _ ⟨⟩
    rfl

/-! ### The id of the walk -/

section Walk

variable {lib : UuidLib} {text : Bytes} {tokens : List JsmnTok}

/-- The id that the loop reads at a token, if it takes it for a `req-id`. -/
def idAt (lib : UuidLib) (text : Bytes) (tokens : List JsmnTok) (i : ℕ) : Option Uuid :=
  match memberAt text tokens i with
  | .reqId value => lib.parse (uuidbuf text value)
  | _ => none

/-- The last id among those of some tokens, or `uuid` where they give none. -/
def lastIdOf (lib : UuidLib) (text : Bytes) (tokens : List JsmnTok) (uuid : Uuid) (is : List ℕ) :
    Uuid :=
  (is.filterMap (idAt lib text tokens)).getLast?.getD uuid

/-- The id that the loop ends with. -/
def lastId (lib : UuidLib) (text : Bytes) (tokens : List JsmnTok) : Uuid :=
  lastIdOf lib text tokens SampleRequest.zero.uuid (reached text tokens)

theorem lastIdOf_cons (uuid : Uuid) (i : ℕ) (is : List ℕ) :
    lastIdOf lib text tokens uuid (i :: is) =
      lastIdOf lib text tokens ((idAt lib text tokens i).getD uuid) is := by
  cases h : idAt lib text tokens i <;> simp [lastIdOf, h, List.getLast?_cons]

/-- Names leave the id alone. -/
theorem parseStatItems_uuid {items : List JsmnTok} {sr sr' : SampleRequest}
    (h : parseStatItems text items sr = .ok sr') : sr'.uuid = sr.uuid := by
  induction items generalizing sr with
  | nil =>
    cases h
    rfl
  | cons item items ih =>
    rw [parseStatItems] at h
    split at h
    · cases h
    · split at h
      · cases h
      · next sr₁ hsr₁ =>
        rw [ih h]
        unfold parseStatsString at hsr₁
        split at hsr₁
        · cases hsr₁
          rfl
        · cases hsr₁

theorem parseMember_uuid {i : ℕ} {sr sr' : SampleRequest}
    (h : parseMember lib text tokens i sr = .ok sr') :
    sr'.uuid = (idAt lib text tokens i).getD sr.uuid := by
  unfold parseMember at h
  unfold idAt
  cases hmember : memberAt text tokens i with
  | reqId value =>
    simp only [hmember, parseReqId] at h ⊢
    split at h
    · cases h
    · split at h
      · cases h
      · split at h
        · next uuid huuid =>
          cases h
          rw [huuid]
          rfl
        · next hnone =>
          cases h
          rw [hnone]
          rfl
  | getStats value =>
    simp only [hmember] at h ⊢
    split at h
    · cases h
    · exact parseStatItems_uuid h
  | unknown =>
    simp only [hmember] at h ⊢
    cases h
    rfl

theorem parseMembers_uuid (ht : TextTable text tokens) {turns i : ℕ} {sr sr' : SampleRequest}
    (h : parseMembers lib text tokens turns i sr = .ok sr') :
    sr'.uuid = lastIdOf lib text tokens sr.uuid (reachedFrom text tokens turns i) := by
  induction turns generalizing i sr with
  | zero =>
    cases h
    rfl
  | succ turns ih =>
    by_cases hi : i < tokens.length
    · rcases @walk_turn lib text tokens ht turns i sr hi with
        ⟨err, -, herr, -⟩ | ⟨sr₁, hsr₁, hparse, hreach⟩
      · rw [herr] at h
        cases h
      · rw [hparse] at h
        rw [hreach, lastIdOf_cons, ih h, parseMember_uuid hsr₁]
    · rw [parseMembers, if_neg hi] at h
      cases h
      rw [reachedFrom, if_neg hi]
      rfl

/-- **The id of an accepted request** is the last one that the loop reads. -/
theorem samplerParseTokens_uuid (ht : TextTable text tokens) {sr : SampleRequest}
    (h : samplerParseTokens lib text tokens = .ok sr) : sr.uuid = lastId lib text tokens := by
  unfold samplerParseTokens at h
  split at h
  · cases h
  · next hobject =>
    rw [lastId, reached, if_pos (by simpa using hobject)]
    exact parseMembers_uuid ht h

end Walk

/-! ### The id of the members -/

theorem readMembers_eq_none {lib : UuidLib} {ms : List (Bytes × Tree)} :
    readMembers lib ms = none ↔ ∃ m ∈ ms, readMember lib m = none := by
  induction ms with
  | nil => simp [readMembers]
  | cons m ms ih =>
    rw [readMembers, List.exists_mem_cons_iff, ← ih]
    cases readMember lib m <;> cases readMembers lib ms <;> simp

/-- A `req-id` is refused for a value that is no string, or a long one. -/
theorem readMember_reqId (lib : UuidLib) (v : Tree) :
    readMember lib (lit "req-id", v) = none ↔ ∀ s, v = .string s → uuidStringLen < s.length := by
  cases v <;> simp [readMember]

theorem readMember_idText {lib : UuidLib} {v : Tree} {uuid : Uuid} (h : IdText lib v uuid) :
    readMember lib (lit "req-id", v) = some { id := some uuid } := by
  obtain ⟨s, rfl, hlen, hparse⟩ := h
  have htake : s.take (uuidStringLen - 1) = s := List.take_of_length_le (by rw [hlen]; rfl)
  have hshort : s.length ≤ uuidStringLen := by rw [hlen]; decide
  simp [readMember, htake, hparse, hshort]

section Request

variable {lib : UuidLib} {stray : ℕ → Bool} {ms ms' : List (Bytes × Tree)} {v : Tree}
  {text more : Bytes}

/-- A request with too many tokens is refused. -/
theorem ObjectText.full (h : ObjectText ms text) (hfull : jsonRequestMaxTokens < objectTokens ms) :
    ∃ err, samplerParseRequest lib stray (text ++ more) text.length = .error err := by
  obtain ⟨err, herr⟩ := @jsmnParse_full stray _ ms text h.readable hfull h.spaced
  exact ⟨.malformed err, by simp [samplerParseRequest, herr]⟩

/-- For any request, by the walk over its tokens. -/
theorem wholeId_iff_walk (h : ObjectText ms text) :
    WholeId lib v (samplerParseRequest lib stray (text ++ more) text.length) ↔
      jsonRequestMaxTokens < objectTokens ms ∨
      (∃ i ∈ reached (text ++ more) (tokenTable stray (text ++ more) text.length),
        MemberFails (text ++ more) (tokenTable stray (text ++ more) text.length) i) ∨
      IdText lib v (lastId lib (text ++ more) (tokenTable stray (text ++ more) text.length)) := by
  by_cases hfull : jsonRequestMaxTokens < objectTokens ms
  · obtain ⟨err, herr⟩ := @ObjectText.full lib stray ms text more h hfull
    rw [herr]
    exact iff_of_true (wholeId_error err) (.inl hfull)
  · obtain ⟨object, rest, htable, htype, hholds, hparse⟩ :=
      @ObjectText.holds lib stray ms text h (not_lt.mp hfull) more
    rw [hparse]
    rcases samplerParseTokens_cases lib hholds.table with
      ⟨hobject, -⟩ | ⟨hfault, err, herr⟩ | ⟨hfine, sr, hok, -⟩
    · exact absurd (by simp [htable, htype]) hobject
    · rw [herr]
      exact iff_of_true (wholeId_error err) (.inr (.inl hfault))
    · have hno : ¬∃ i ∈ reached (text ++ more) (tokenTable stray (text ++ more) text.length),
          MemberFails (text ++ more) (tokenTable stray (text ++ more) text.length) i := by
        rintro ⟨i, hi, hfails⟩
        exact hfine i hi hfails
      rw [hok, wholeId_ok, samplerParseTokens_uuid hholds.table hok]
      simp only [hfull, hno, false_or]

/-- For a request without stray words, by its members. -/
theorem wholeId_iff_members (h : ObjectText (ms ++ (lit "req-id", v) :: ms') text)
    (hstray : NoStray (ms ++ (lit "req-id", v) :: ms')) :
    WholeId lib v (samplerParseRequest lib stray (text ++ more) text.length) ↔
      jsonRequestMaxTokens < objectTokens (ms ++ (lit "req-id", v) :: ms') ∨
      (∃ m ∈ ms ++ ms', readMember lib m = none) ∨
      (∀ s, v = .string s → uuidStringLen < s.length) ∨
      ∃ uuid, IdText lib v uuid ∧ ∀ said, readMembers lib ms' = some said →
        said.id = none ∨ said.id = some uuid := by
  by_cases hfull : jsonRequestMaxTokens < objectTokens (ms ++ (lit "req-id", v) :: ms')
  · obtain ⟨err, herr⟩ := @ObjectText.full lib stray _ text more h hfull
    rw [herr]
    exact iff_of_true (wholeId_error err) (.inl hfull)
  · obtain ⟨hread, -⟩ := @ObjectText.read lib stray _ text h (not_lt.mp hfull) hstray more
    rw [readMembers_append, readMembers] at hread
    have hothers : (∃ m ∈ ms ++ ms', readMember lib m = none) ↔
        readMembers lib ms = none ∨ readMembers lib ms' = none := by
      simp only [List.mem_append, or_and_right, exists_or, ← readMembers_eq_none]
    have hrefused : (samplerParseRequest lib stray (text ++ more) text.length).toOption = none →
        WholeId lib v (samplerParseRequest lib stray (text ++ more) text.length) := by
      cases samplerParseRequest lib stray (text ++ more) text.length with
      | error err => exact fun _ => wholeId_error err
      | ok sr => simp [Except.toOption]
    rw [← readMember_reqId lib v, hothers]
    cases hbefore : readMembers lib ms with
    | none => exact iff_of_true (hrefused (by simp [hread, hbefore])) (by simp)
    | some before =>
      cases hafter : readMembers lib ms' with
      | none =>
        refine iff_of_true (hrefused ?_) (by simp)
        cases hsaid : readMember lib (lit "req-id", v) <;> simp [hread, hbefore, hafter, hsaid]
      | some after =>
        cases hsaid : readMember lib (lit "req-id", v) with
        | none => exact iff_of_true (hrefused (by simp [hread, hbefore, hsaid])) (by simp)
        | some said =>
          have hok : samplerParseRequest lib stray (text ++ more) text.length =
              .ok (SampleRequest.zero.tell (before.then (said.then after))) := by
            rw [hbefore, hafter, hsaid] at hread
            cases h : samplerParseRequest lib stray (text ++ more) text.length with
            | error err => simp [h, Except.toOption] at hread
            | ok sr => simpa [h, Except.toOption] using hread
          rw [hok, wholeId_ok, SampleRequest.tell_then, SampleRequest.tell_then]
          simp only [hfull, reduceCtorEq, false_or, Option.some.injEq, forall_eq']
          constructor
          · intro htext
            refine ⟨_, htext, ?_⟩
            cases hid : after.id with
            | none => exact .inl rfl
            | some uuid => exact .inr (by simp [SampleRequest.tell, hid])
          · rintro ⟨uuid, htext, hid⟩
            obtain rfl : said = _ := Option.some.inj (hsaid.symm.trans (readMember_idText htext))
            rcases hid with hid | hid <;> simpa [SampleRequest.tell, hid] using htext

end Request

/-- **Where ids are taken whole.** Any request: it is refused for its number of tokens or for a
fault of a member that the loop reaches, or the value is the text of an id and the loop ends with
that one. A request without stray words: another member is at fault, or the value is no string or
a long one, or it is the text of an id and no later member gives another one. -/
theorem request_id_iff (lib : UuidLib) (stray : ℕ → Bool) (ms ms' : List (Bytes × Tree)) (v : Tree)
    (text more : Bytes) (htext : ObjectText (ms ++ (lit "req-id", v) :: ms') text) :
    (WholeId lib v (samplerParseRequest lib stray (text ++ more) text.length) ↔
      jsonRequestMaxTokens < objectTokens (ms ++ (lit "req-id", v) :: ms') ∨
      (∃ i ∈ reached (text ++ more) (tokenTable stray (text ++ more) text.length),
        MemberFails (text ++ more) (tokenTable stray (text ++ more) text.length) i) ∨
      IdText lib v (lastId lib (text ++ more) (tokenTable stray (text ++ more) text.length))) ∧
    (NoStray (ms ++ (lit "req-id", v) :: ms') →
      (WholeId lib v (samplerParseRequest lib stray (text ++ more) text.length) ↔
        jsonRequestMaxTokens < objectTokens (ms ++ (lit "req-id", v) :: ms') ∨
        (∃ m ∈ ms ++ ms', readMember lib m = none) ∨
        (∀ s, v = .string s → uuidStringLen < s.length) ∨
        ∃ uuid, IdText lib v uuid ∧ ∀ said, readMembers lib ms' = some said →
          said.id = none ∨ said.id = some uuid)) :=
  ⟨wholeId_iff_walk htext, wholeId_iff_members htext⟩

private theorem reqId_text {s : Bytes} (hs : s.all Json.isPlain = true) :
    ObjectText ([] ++ (lit "req-id", .string s) :: [])
      (lit "\x7b\"req-id\":\"" ++ s ++ lit "\"\x7d") := by
  have hchars := Json.chars_of_plain (List.all_eq_true.mp hs)
  have hkey : Json.Chars (lit "req-id") := Json.chars_of_plain (by decide)
  refine ⟨Tree.IsJson.readable ⟨hkey, hchars, trivial⟩, ?_⟩
  have htext := spaced_compact (Tree.object [(lit "req-id", .string s)]).lexemes
  simpa [Tree.lexemes, Tree.memberLexemes, Tree.commas, Lexeme.text, lit, braceOpen, braceClose, quote,
    colon] using htext

/-- The text of an id. -/
theorem request_id_iff_uuid : ∃ s, s = lit "9ec2b64f-e432-4020-98df-8dac9931f5f7" ∧
    WholeId libuuid (.string s) (samplerParseRequest libuuid (fun _ => false)
      ((lit "\x7b\"req-id\":\"" ++ s ++ lit "\"\x7d") ++ [])
      (lit "\x7b\"req-id\":\"" ++ s ++ lit "\"\x7d").length) := by
  refine ⟨_, rfl, ?_⟩
  refine ((request_id_iff libuuid (fun _ => false) [] [] _ _ [] (reqId_text (by decide))).2
    ⟨.inl (.inl (List.prefix_refl _)), trivial⟩).mpr (.inr (.inr (.inr ⟨testReqId, ?_, ?_⟩)))
  · exact ⟨_, rfl, by decide, by decide +kernel⟩
  · rintro said ⟨⟩
    exact .inl rfl

/-- The id `x` is accepted, as no id. -/
theorem request_id_fails : ∃ (text : Bytes) (sr : SampleRequest),
    text = lit "\x7b\"req-id\":\"x\"\x7d" ∧
    ObjectText [(lit "req-id", .string (lit "x"))] text ∧
    samplerParseRequest libuuid (fun _ => false) text text.length = .ok sr ∧
    sr.uuid = Vector.replicate 16 0 ∧
    ¬WholeId libuuid (.string (lit "x")) (samplerParseRequest libuuid (fun _ => false) text text.length) := by
  have hok : samplerParseRequest libuuid (fun _ => false) (lit "\x7b\"req-id\":\"x\"\x7d")
      (lit "\x7b\"req-id\":\"x\"\x7d").length = .ok .zero := by decide +kernel
  refine ⟨_, .zero, rfl, reqId_text (by decide), hok, rfl, ?_⟩
  rw [hok, wholeId_ok]
  rintro ⟨s, hs, hlen, -⟩
  cases hs
  exact absurd hlen (by decide)

end Vmon
