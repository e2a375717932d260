import Vmon.Jsmn.Tables
import Vmon.Sampler.Request

/-!
# Which requests are accepted

`strncmp` over the length of a token is a test for a prefix, so a request may abbreviate
keys and names. `ExactNames` is the promise that only the words themselves count, and
`sampler_parse_exact_iff` says which requests it is kept for: those where the walk meets
no proper prefix of a word.

## Main definitions

* `MemberFails` — the member of the request has a fault.
* `reached` — the tokens that the loop takes for keys, up to the first fault.
* `ExactNames` — the promise.
* `NoShortNames` — no abbreviation is met.
-/

namespace Vmon

/-! ### Comparing -/

/-- Over the length of a string without NUL, `strncmp` is a test for a prefix. -/
theorem strncmp_eq {s : Bytes} (hs : (0 : UInt8) ∉ s) (more word : Bytes) :
    strncmp s.length (s ++ more) word = true ↔ s <+: word := by
  induction s generalizing word with
  | nil => simp [strncmp]
  | cons b s ih =>
    simp only [List.mem_cons, not_or] at hs
    have hb : ¬b = 0 := fun h => hs.1 h.symm
    cases word with
    | nil => simp [strncmp, hb]
    | cons c word =>
      have ih := ih hs.2 word
      by_cases hbc : b = c
      · subst hbc
        simpa [strncmp, hb] using ih
      · simp [strncmp, hbc, List.cons_prefix_cons]

/-- The table of the tokenizer; empty where it fails. -/
def tokenTable (stray : ℕ → Bool) (text : Bytes) (size : ℕ) : List JsmnTok :=
  match jsmnParse stray jsonRequestMaxTokens (text.take size) with
  | .error _ => []
  | .ok (_, tokens) => tokens

/-- The strings of a table lie in the text, and have no NUL. -/
def TextTable (text : Bytes) (tokens : List JsmnTok) : Prop :=
  ∀ tok ∈ tokens, tok.type = .string → ∃ s, Spans text tok s ∧ (0 : UInt8) ∉ s

theorem textTable_tokenTable (stray : ℕ → Bool) (text : Bytes) (size : ℕ) :
    TextTable text (tokenTable stray text size) := by
  intro tok htok htype
  unfold tokenTable at htok
  split at htok
  · cases htok
  · next n tokens h =>
    obtain ⟨s, hspans, hs⟩ := (jsmnParse_scanned h).2 tok htok htype
    refine ⟨s, ?_, hs⟩
    have := hspans.append (text.drop size)
    rwa [List.take_append_drop] at this

section Table

variable {lib : UuidLib} {text : Bytes} {tokens : List JsmnTok} {i : ℕ}

theorem isToken_iff (ht : TextTable text tokens) {key : JsmnTok} (hkey : key ∈ tokens)
    (word : Bytes) :
    isToken text key word = true ↔ key.type = .string ∧ tokText text key <+: word := by
  simp only [isToken, Bool.and_eq_true, decide_eq_true_eq]
  refine and_congr_right fun htype => ?_
  obtain ⟨s, hspans, hs⟩ := ht key hkey htype
  obtain ⟨post, hpost⟩ := hspans.drop_eq
  rw [tokLength, hspans.length_eq, hpost, strncmp_eq hs, hspans.tokText_eq]

theorem parseStatsString_eq (ht : TextTable text tokens) {stat : JsmnTok} (hstat : stat ∈ tokens)
    (htype : stat.type = .string) (sr : SampleRequest) :
    parseStatsString sr (text.drop stat.start.toNat) (tokLength stat) =
      match statNames.find? fun name => decide (tokText text stat <+: name.1) with
      | some (_, flag) => .ok { sr with stats := sr.stats ||| flag }
      | none => .error (.unknownStat sr.uuid (tokText text stat)) := by
  obtain ⟨s, hspans, hs⟩ := ht stat hstat htype
  obtain ⟨post, hpost⟩ := hspans.drop_eq
  have hfind : (fun name : Bytes × UInt32 => strncmp (tokLength stat)
      (text.drop stat.start.toNat) name.1) = fun name => decide (tokText text stat <+: name.1) := by
    funext name
    rw [Bool.eq_iff_iff, decide_eq_true_eq, tokLength, hspans.length_eq, hpost, strncmp_eq hs,
      hspans.tokText_eq]
  rw [parseStatsString, hfind]
  rfl

/-! ### The walk -/

/-- The item names no statistic, not even by a prefix. -/
def ItemFails (text : Bytes) (item : JsmnTok) : Prop :=
  item.type ≠ .string ∨ ∀ name ∈ statNames, ¬tokText text item <+: name.1

instance (text : Bytes) (item : JsmnTok) : Decidable (ItemFails text item) :=
  inferInstanceAs (Decidable (_ ∨ _))

/-- A value of the wrong type, an id too long, or an item at fault. -/
def MemberFails (text : Bytes) (tokens : List JsmnTok) (i : ℕ) : Prop :=
  match memberAt text tokens i with
  | .reqId value => value.type ≠ .string ∨ uuidStringLen < tokLength value
  | .getStats value => value.type ≠ .array ∨ ∃ item ∈ statItems tokens i value, ItemFails text item
  | .unknown => False

instance (text : Bytes) (tokens : List JsmnTok) (i : ℕ) : Decidable (MemberFails text tokens i) := by
  unfold MemberFails
  exact match memberAt text tokens i with
    | .reqId _ => inferInstanceAs (Decidable (_ ∨ _))
    | .getStats _ => inferInstanceAs (Decidable (_ ∨ _))
    | .unknown => inferInstanceAs (Decidable False)

/-- The tokens taken for keys from `i` on, in at most `turns` turns: up to the first fault. -/
def reachedFrom (text : Bytes) (tokens : List JsmnTok) : ℕ → ℕ → List ℕ
  | 0, _ => []
  | turns + 1, i =>
    if i < tokens.length then
      i :: if MemberFails text tokens i then []
        else reachedFrom text tokens turns (nextMember text tokens i)
    else []

/-- The tokens of a request that the loop takes for keys. -/
def reached (text : Bytes) (tokens : List JsmnTok) : List ℕ :=
  if (tokens[0]?).map JsmnTok.type = some .object then reachedFrom text tokens tokens.length 1
  else []

/-- The names that a member lists. -/
def listedNames (text : Bytes) (tokens : List JsmnTok) (i : ℕ) : List Bytes :=
  match memberAt text tokens i with
  | .getStats value => (statItems tokens i value).map (tokText text)
  | _ => []

/-- The flag that a name stands for: that of the first word it is a prefix of. -/
def flagOf (name : Bytes) : UInt32 :=
  ((statNames.find? fun word => decide (name <+: word.1)).map Prod.snd).getD 0

theorem mem_statItems {value item : JsmnTok} (h : item ∈ statItems tokens i value) :
    item ∈ tokens := List.mem_of_mem_drop (List.mem_of_mem_take h)

theorem parseStatItems_eq (ht : TextTable text tokens) {items : List JsmnTok} (hsub : items ⊆ tokens)
    (sr : SampleRequest) :
    ((∃ item ∈ items, ItemFails text item) ∧
      ∃ err, parseStatItems text items sr = .error err) ∨
    ((¬∃ item ∈ items, ItemFails text item) ∧
      parseStatItems text items sr = .ok { sr with
        stats := ((items.map (tokText text)).map flagOf).foldl (· ||| ·) sr.stats }) := by
  induction items generalizing sr with
  | nil => exact .inr ⟨by simp, rfl⟩
  | cons item items ih =>
    rw [List.cons_subset] at hsub
    by_cases htype : item.type = .string
    · rw [parseStatItems, if_neg (by simpa using htype), parseStatsString_eq ht hsub.1 htype]
      cases hfind : statNames.find? fun name => decide (tokText text item <+: name.1) with
      | none =>
        refine .inl ⟨⟨item, List.mem_cons_self, .inr ?_⟩, _, rfl⟩
        simpa using hfind
      | some word =>
        obtain ⟨word, flag⟩ := word
        have hitem : ¬ItemFails text item := by
          rw [ItemFails, not_or, not_not]
          refine ⟨htype, fun h => ?_⟩
          have hpfx := List.find?_some hfind
          exact h _ (List.mem_of_find?_eq_some hfind) (of_decide_eq_true hpfx)
        have hflag : flagOf (tokText text item) = flag := by
          rw [flagOf, hfind]
          rfl
        rcases ih hsub.2 { sr with stats := sr.stats ||| flag } with ⟨⟨x, hx, hfails⟩, herr⟩ | ⟨hok, heq⟩
        · exact .inl ⟨⟨x, List.mem_cons_of_mem _ hx, hfails⟩, herr⟩
        · refine .inr ⟨?_, ?_⟩
          · simpa [hitem] using hok
          · simp only [heq, List.map_cons, List.foldl_cons, hflag]
    · refine .inl ⟨⟨item, List.mem_cons_self, .inl htype⟩, .statNotString, ?_⟩
      rw [parseStatItems, if_pos htype]

/-- The mask after the names of a member. -/
def withNames (mask : UInt32) (names : List Bytes) : UInt32 :=
  (names.map flagOf).foldl (· ||| ·) mask

variable (lib) in
/-- **One turn of the loop** fails exactly on a member with a fault, and adds the flags of the
listed names otherwise. -/
theorem parseMember_cases (ht : TextTable text tokens) (sr : SampleRequest) :
    (MemberFails text tokens i ∧ ∃ err, parseMember lib text tokens i sr = .error err) ∨
    (¬MemberFails text tokens i ∧ ∃ sr', parseMember lib text tokens i sr = .ok sr' ∧
      sr'.stats = withNames sr.stats (listedNames text tokens i)) := by
  simp only [parseMember, MemberFails, listedNames, withNames]
  cases hmember : memberAt text tokens i with
  | reqId value =>
    simp only [parseReqId]
    split
    · next htype => exact .inl ⟨.inl htype, _, rfl⟩
    · next htype =>
      split
      · next hlen => exact .inl ⟨.inr hlen, _, rfl⟩
      · next hlen =>
        refine .inr ⟨by tauto, ?_⟩
        split
        · exact ⟨_, rfl, rfl⟩
        · exact ⟨_, rfl, rfl⟩
  | getStats value =>
    by_cases htype : value.type = .array
    · simp only [htype, ne_eq, not_true_eq_false, if_false, false_or]
      rcases parseStatItems_eq ht (fun _ h => mem_statItems h) sr with h | ⟨hok, heq⟩
      · exact .inl h
      · exact .inr ⟨hok, _, heq, rfl⟩
    · simp only [htype, ne_eq, not_false_eq_true, if_true, true_or]
      exact .inl ⟨trivial, _, rfl⟩
  | unknown => exact .inr ⟨not_false, sr, rfl, rfl⟩

theorem parseMembers_cases (ht : TextTable text tokens) (turns : ℕ) (i : ℕ) (sr : SampleRequest) :
    ((∃ j ∈ reachedFrom text tokens turns i, MemberFails text tokens j) ∧
      ∃ err, parseMembers lib text tokens turns i sr = .error err) ∨
    ((∀ j ∈ reachedFrom text tokens turns i, ¬MemberFails text tokens j) ∧
      ∃ sr', parseMembers lib text tokens turns i sr = .ok sr' ∧
        sr'.stats = withNames sr.stats
          ((reachedFrom text tokens turns i).flatMap (listedNames text tokens))) := by
  induction turns generalizing i sr with
  | zero => exact .inr ⟨by simp [reachedFrom], sr, rfl, rfl⟩
  | succ turns ih =>
    rw [reachedFrom, parseMembers]
    split
    · rcases parseMember_cases lib ht sr with ⟨hfails, err, herr⟩ | ⟨hok, sr', heq, hstats⟩
      · rw [herr]
        exact .inl ⟨⟨i, List.mem_cons_self, hfails⟩, err, rfl⟩
      · rw [heq, if_neg hok]
        rcases ih (nextMember text tokens i) sr' with ⟨⟨j, hj, hfails⟩, herr⟩ | ⟨hrest, sr'', heq', hstats'⟩
        · exact .inl ⟨⟨j, List.mem_cons_of_mem _ hj, hfails⟩, herr⟩
        · refine .inr ⟨?_, sr'', heq', ?_⟩
          · simpa using ⟨hok, hrest⟩
          · rw [hstats', hstats, List.flatMap_cons]
            simp only [withNames, List.map_append, List.foldl_append]
    · exact .inr ⟨by simp, sr, rfl, rfl⟩

variable (lib) in
/-- **Which requests are refused**, and the mask of the others. -/
theorem samplerParseTokens_cases (ht : TextTable text tokens) :
    ((tokens[0]?).map JsmnTok.type ≠ some .object ∧ reached text tokens = [] ∧
      ∃ err, samplerParseTokens lib text tokens = .error err) ∨
    ((∃ i ∈ reached text tokens, MemberFails text tokens i) ∧
      ∃ err, samplerParseTokens lib text tokens = .error err) ∨
    ((∀ i ∈ reached text tokens, ¬MemberFails text tokens i) ∧
      ∃ sr, samplerParseTokens lib text tokens = .ok sr ∧
        sr.stats = withNames 0 ((reached text tokens).flatMap (listedNames text tokens))) := by
  by_cases hobject : (tokens[0]?).map JsmnTok.type = some .object
  · rw [reached, if_pos hobject, samplerParseTokens, if_neg (by simpa using hobject)]
    exact .inr (parseMembers_cases ht tokens.length 1 .zero)
  · refine .inl ⟨hobject, if_neg hobject, .notObject, ?_⟩
    rw [samplerParseTokens, if_pos hobject]

/-! ### The words -/

/-- What a token with a next one is taken for. -/
theorem memberAt_eq (ht : TextTable text tokens) {key value : JsmnTok}
    (hkey : tokens[i]? = some key) (hvalue : tokens[i + 1]? = some value) :
    memberAt text tokens i =
      if key.type = .string ∧ tokText text key <+: lit "req-id" then .reqId value
      else if key.type = .string ∧ tokText text key <+: lit "get-stats" then .getStats value
      else .unknown := by
  have hmem := List.mem_of_getElem? hkey
  have hnext : hasNext i tokens.length = true := by
    have := (List.getElem?_eq_some_iff.mp hvalue).1
    simpa [hasNext] using this
  simp only [memberAt, hkey, hvalue, hnext, Bool.and_true, isToken_iff ht hmem]

/-- A token taken for a key is a string, with a next token. -/
theorem exists_of_memberAt (h : memberAt text tokens i ≠ .unknown) :
    ∃ key value, tokens[i]? = some key ∧ tokens[i + 1]? = some value := by
  unfold memberAt at h
  split at h
  · next key value hkey hvalue => exact ⟨key, value, hkey, hvalue⟩
  · exact absurd rfl h

/-- No name is a proper prefix of another. -/
theorem names_of_prefix : ∀ word ∈ statNames, ∀ name ∈ statNames, word.1 <+: name.1 →
    word.1 = name.1 := by
  decide

/-- A name stands for its own flag. -/
theorem flagOf_name : ∀ word ∈ statNames.map Prod.fst,
    flagOf word = (statNames.lookup word).getD 0 := by
  decide

end Table

/-- **The promise**: only the words themselves count, in the walk of a request and in the
value `ret` of `sampler_parse_request`. -/
structure ExactNames (text : Bytes) (tokens : List JsmnTok)
    (ret : Except RequestError SampleRequest) : Prop where
  /-- A member is taken for a `req-id` or a `get-stats` only by that key. -/
  keys : ∀ i ∈ reached text tokens, ∀ key value, tokens[i]? = some key →
    (memberAt text tokens i = .reqId value → tokText text key = lit "req-id") ∧
    (memberAt text tokens i = .getStats value → tokText text key = lit "get-stats")
  /-- Acceptance needs an array of strings that are names. -/
  names : requestCode ret = 0 → ∀ i ∈ reached text tokens, ∀ value,
    memberAt text tokens i = .getStats value →
    value.type = .array ∧ ∀ item ∈ statItems tokens i value,
      item.type = .string ∧ tokText text item ∈ statNames.map Prod.fst
  /-- The mask is the union of the flags of the listed names. -/
  mask : ∀ sr, ret = .ok sr →
    sr.stats = (((reached text tokens).flatMap (listedNames text tokens)).map fun name =>
      (statNames.lookup name).getD 0).foldl (· ||| ·) 0
  /-- A value that is no array, or an item that is no string, is refused. -/
  refused : ∀ i ∈ reached text tokens, ∀ value, memberAt text tokens i = .getStats value →
    (value.type ≠ .array ∨ ∃ item ∈ statItems tokens i value, item.type ≠ .string) →
    requestCode ret = -1

/-- **No abbreviation is met**: no key reached is a proper prefix of a word, and no item of a
`get-stats` reached is one of a name, unless the request has a fault anyway. -/
structure NoShortNames (text : Bytes) (tokens : List JsmnTok) : Prop where
  keys : ∀ i ∈ reached text tokens, ∀ key, tokens[i]? = some key → key.type = .string →
    hasNext i tokens.length = true → ∀ word ∈ [lit "req-id", lit "get-stats"],
    tokText text key <+: word → tokText text key = word
  names : (∃ i ∈ reached text tokens, MemberFails text tokens i) ∨
    ∀ i ∈ reached text tokens, ∀ name ∈ listedNames text tokens i, ∀ word ∈ statNames,
      name <+: word.1 → name = word.1

section Promise

variable {lib : UuidLib} {text : Bytes} {tokens : List JsmnTok} {ret : Except RequestError SampleRequest}

/-- What the walk says about the value of `sampler_parse_request`. -/
inductive Verdict (text : Bytes) (tokens : List JsmnTok) : Except RequestError SampleRequest → Prop
  | unread {err : RequestError} (h : reached text tokens = []) : Verdict text tokens (.error err)
  | fault {err : RequestError} (h : ∃ i ∈ reached text tokens, MemberFails text tokens i) :
      Verdict text tokens (.error err)
  | accepted {sr : SampleRequest} (h : ∀ i ∈ reached text tokens, ¬MemberFails text tokens i)
      (hstats : sr.stats =
        withNames 0 ((reached text tokens).flatMap (listedNames text tokens))) :
      Verdict text tokens (.ok sr)

theorem verdict (lib : UuidLib) (stray : ℕ → Bool) (text : Bytes) (size : ℕ) :
    Verdict text (tokenTable stray text size) (samplerParseRequest lib stray text size) := by
  have ht := textTable_tokenTable stray text size
  simp only [samplerParseRequest]
  cases h : jsmnParse stray jsonRequestMaxTokens (text.take size) with
  | error err =>
    have htable : tokenTable stray text size = [] := by simp [tokenTable, h]
    exact .unread (by simp [htable, reached])
  | ok r =>
    obtain ⟨n, tokens⟩ := r
    have htable : tokenTable stray text size = tokens := by simp [tokenTable, h]
    rw [htable] at ht ⊢
    rcases samplerParseTokens_cases lib ht with
      ⟨-, hnil, err, herr⟩ | ⟨hfault, err, herr⟩ | ⟨hok, sr, hsr, hstats⟩
    · simpa only [herr] using .unread hnil
    · simpa only [herr] using .fault hfault
    · simpa only [hsr] using .accepted hok hstats

/-- The names of a `get-stats`, as the items of its value. -/
theorem listedNames_eq {i : ℕ} {value : JsmnTok} (h : memberAt text tokens i = .getStats value) :
    listedNames text tokens i = (statItems tokens i value).map (tokText text) := by
  simp [listedNames, h]

/-- Where the promise is kept, the walk meets no abbreviation. -/
theorem ExactNames.noShortNames (ht : TextTable text tokens) (hv : Verdict text tokens ret)
    (H : ExactNames text tokens ret) : NoShortNames text tokens := by
  constructor
  · intro i hi key hkey htype hnext word hword hpfx
    obtain ⟨value, hvalue⟩ : ∃ value, tokens[i + 1]? = some value := by
      have hlt : i + 1 < tokens.length := by simpa [hasNext] using hnext
      exact ⟨_, List.getElem?_eq_getElem hlt⟩
    have hmember := memberAt_eq ht hkey hvalue
    obtain ⟨hreq, hget⟩ := H.keys i hi key value hkey
    simp only [List.mem_cons, List.not_mem_nil, or_false] at hword
    by_cases hid : tokText text key <+: lit "req-id"
    · rw [if_pos ⟨htype, hid⟩] at hmember
      have hexact := hreq hmember
      rcases hword with rfl | rfl
      · exact hexact
      · rw [hexact] at hpfx
        exact absurd hpfx (by decide)
    · rcases hword with rfl | rfl
      · exact absurd hpfx hid
      · rw [if_neg (fun h => hid h.2), if_pos ⟨htype, hpfx⟩] at hmember
        exact hget hmember
  · cases hv with
    | unread h => exact .inr (by simp [h])
    | fault h => exact .inl h
    | accepted h hstats =>
      refine .inr fun i hi name hname word hword hpfx => ?_
      cases hmember : memberAt text tokens i with
      | getStats value =>
        rw [listedNames_eq hmember, List.mem_map] at hname
        obtain ⟨item, hitem, rfl⟩ := hname
        obtain ⟨other, hother, heq⟩ := List.mem_map.mp ((H.names rfl i hi value hmember).2 item hitem).2
        rw [← heq] at hpfx ⊢
        exact names_of_prefix other hother word hword hpfx
      | _ => simp [listedNames, hmember] at hname

/-- Where the walk meets no abbreviation, the promise is kept. -/
theorem NoShortNames.exactNames (ht : TextTable text tokens) (hv : Verdict text tokens ret)
    (H : NoShortNames text tokens) : ExactNames text tokens ret := by
  -- an accepted request lists names only
  have hnames : (∀ i ∈ reached text tokens, ¬MemberFails text tokens i) →
      ∀ i ∈ reached text tokens, ∀ value, memberAt text tokens i = .getStats value →
      value.type = .array ∧ ∀ item ∈ statItems tokens i value,
        item.type = .string ∧ tokText text item ∈ statNames.map Prod.fst := by
    intro hok i hi value hmember
    have hfine := hok i hi
    simp only [MemberFails, hmember, not_or, not_not, not_exists, not_and] at hfine
    refine ⟨hfine.1, fun item hitem => ?_⟩
    have hitem' := hfine.2 item hitem
    simp only [ItemFails, not_or, not_not, not_forall] at hitem'
    obtain ⟨htype, word, hword, hpfx⟩ := hitem'
    have hshort := H.names.resolve_left fun ⟨j, hj, hfails⟩ => hok j hj hfails
    have hmem : tokText text item ∈ listedNames text tokens i := by
      rw [listedNames_eq hmember]
      exact List.mem_map_of_mem hitem
    rw [hshort i hi _ hmem word hword hpfx]
    exact ⟨htype, List.mem_map_of_mem hword⟩
  constructor
  · intro i hi key value hkey
    by_cases hunknown : memberAt text tokens i = .unknown
    · simp [hunknown]
    · obtain ⟨key', value', hkey', hvalue'⟩ := exists_of_memberAt hunknown
      obtain rfl : key' = key := by simpa [hkey] using hkey'.symm
      have hnext : hasNext i tokens.length = true := by
        have := (List.getElem?_eq_some_iff.mp hvalue').1
        simpa [hasNext] using this
      rw [memberAt_eq ht hkey hvalue']
      constructor
      · intro h
        split at h
        · next hc => exact H.keys i hi key' hkey hc.1 hnext _ (by simp) hc.2
        · split at h <;> cases h
      · intro h
        split at h
        · cases h
        · split at h
          · next hc => exact H.keys i hi key' hkey hc.1 hnext _ (by simp) hc.2
          · cases h
  · intro hcode
    cases hv with
    | accepted hok hstats => exact hnames hok
    | unread => simp [requestCode] at hcode
    | fault => simp [requestCode] at hcode
  · intro sr hret
    cases hv with
    | accepted hok hstats =>
      cases hret
      rw [hstats, withNames]
      congr 1
      apply List.map_congr_left
      intro name hname
      obtain ⟨i, hi, hlisted⟩ := List.mem_flatMap.mp hname
      cases hmember : memberAt text tokens i with
      | getStats value =>
        rw [listedNames_eq hmember, List.mem_map] at hlisted
        obtain ⟨item, hitem, rfl⟩ := hlisted
        exact flagOf_name _ ((hnames hok i hi value hmember).2 item hitem).2
      | _ => simp [listedNames, hmember] at hlisted
    | unread => cases hret
    | fault => cases hret
  · intro i hi value hmember hbad
    cases hv with
    | unread => rfl
    | fault => rfl
    | accepted hok hstats =>
      obtain ⟨harray, hitems⟩ := hnames hok i hi value hmember
      rcases hbad with hbad | ⟨item, hitem, hbad⟩
      · exact absurd harray hbad
      · exact absurd (hitems item hitem).1 hbad

end Promise

/-- **The words are matched exactly just where none is abbreviated.** -/
theorem sampler_parse_exact_iff (lib : UuidLib) (stray : ℕ → Bool) (text : Bytes) (size : ℕ) :
    ExactNames text (tokenTable stray text size) (samplerParseRequest lib stray text size) ↔
      NoShortNames text (tokenTable stray text size) := by
  have ht := textTable_tokenTable stray text size
  have hv := verdict lib stray text size
  exact ⟨fun H => H.noShortNames ht hv, fun H => H.exactNames ht hv⟩

/-- The name `b` asks for the balloon. -/
theorem sampler_parse_exact_fails : ∃ (lib : UuidLib) (stray : ℕ → Bool) (text : Bytes)
    (sr : SampleRequest), text = lit "\x7b\"get-stats\": [\"b\"]\x7d" ∧
      samplerParseRequest lib stray text text.length = .ok sr ∧ sr.stats = 4 ∧
      ¬ExactNames text (tokenTable stray text text.length)
        (samplerParseRequest lib stray text text.length) := by
  refine ⟨⟨fun _ => [], fun _ => none⟩, fun _ => false, _, ⟨Vector.replicate 16 0, 4⟩, rfl,
    by decide +kernel, rfl, ?_⟩
  intro H
  have hnames := H.names (by decide +kernel) 1 (by decide +kernel) ⟨.array, 14, 19, 1⟩
    (by decide +kernel)
  revert hnames
  decide +kernel

end Vmon
