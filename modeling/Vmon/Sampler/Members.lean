import Vmon.Jsmn.Trees
import Vmon.Sampler.Acceptance
import Mathlib.Data.List.TakeWhile

/-!
# The members of a request

A request is an object, and what its members say can be read off its tree: `readMembers`. The
loop of `sampler_parse_request` walks over a flat table instead. Over a member that it takes for
a `req-id` or a `get-stats` it moves on by the whole member; any other it walks through token by
token, and a string in its value that abbreviates a word starts a member of its own.

`NoStray` is the absence of such strings. Under it the loop reads the members of the object and
nothing else, and without it some token that is no key of the object is taken for one.

## Main definitions

* `Said`, `readMember`, `readMembers` — what members say.
* `Taken`, `Entry.Word` — keys and strings that abbreviate a word.
* `NoStray` — only keys of the object do.
* `keyIndices` — where the keys of the object are in the table.
-/

namespace Vmon

/-! ### What a member says -/

/-- An id, or none, and the flags of some statistics. -/
@[ext] structure Said where
  id : Option Uuid := none
  stats : UInt32 := 0

/-- A later id replaces an earlier one. -/
def Said.then (a b : Said) : Said := ⟨b.id.or a.id, a.stats ||| b.stats⟩

def SampleRequest.tell (sr : SampleRequest) (said : Said) : SampleRequest :=
  { uuid := said.id.getD sr.uuid, stats := sr.stats ||| said.stats }

@[simp] theorem SampleRequest.tell_empty (sr : SampleRequest) : sr.tell {} = sr := by
  simp [tell]

theorem SampleRequest.tell_then (sr : SampleRequest) (a b : Said) :
    sr.tell (a.then b) = (sr.tell a).tell b := by
  cases hb : b.id <;> simp [tell, Said.then, hb, UInt32.or_assoc]

/-- The flags of an array, if all its items are strings that a name starts with. -/
def itemsMask : List Tree → Option UInt32
  | [] => some 0
  | .string s :: items =>
    (statNames.find? fun word => decide (s <+: word.1)).bind fun word =>
      (itemsMask items).map (word.2 ||| ·)
  | _ :: _ => none

/-- What one member says; `none` where the request is refused for it. -/
def readMember (lib : UuidLib) (m : Bytes × Tree) : Option Said :=
  if m.1 <+: lit "req-id" then
    match m.2 with
    | .string s =>
      if s.length ≤ uuidStringLen then some { id := lib.parse (s.take (uuidStringLen - 1)) }
      else none
    | _ => none
  else if m.1 <+: lit "get-stats" then
    match m.2 with
    | .array items => (itemsMask items).map fun mask => { stats := mask }
    | _ => none
  else some {}

/-- What the members of an object say, one after the other. -/
def readMembers (lib : UuidLib) : List (Bytes × Tree) → Option Said
  | [] => some {}
  | m :: ms => (readMember lib m).bind fun said => (readMembers lib ms).map said.then

/-- A key that the loop takes for a word. -/
def Taken (k : Bytes) : Prop := k <+: lit "req-id" ∨ k <+: lit "get-stats"

instance (k : Bytes) : Decidable (Taken k) := inferInstanceAs (Decidable (_ ∨ _))

/-- A string that it would take for a key. -/
def Entry.Word (e : Entry) : Prop := e.type = .string ∧ Taken e.text

instance (e : Entry) : Decidable e.Word := inferInstanceAs (Decidable (_ ∧ _))

/-- No string of the value is a stray word, unless it is the last token of the text: the members
`ms` stand after it. -/
def Calm (v : Tree) (ms : List (Bytes × Tree)) : Prop :=
  ∀ j e, v.entries[j]? = some e → e.Word → j + 1 = v.entries.length ∧ ms = []

theorem calm_of_wordless {v : Tree} (ms : List (Bytes × Tree)) (h : ∀ e ∈ v.entries, ¬e.Word) :
    Calm v ms := by
  intro j e he hword
  exact absurd hword (h e (List.mem_of_getElem? he))

/-- **No stray word**: in the value of a member that is not taken for a `req-id` or a `get-stats`
no string abbreviates a word, except for the last token of the text. -/
def NoStray : List (Bytes × Tree) → Prop
  | [] => True
  | (k, v) :: ms => (Taken k ∨ Calm v ms) ∧ NoStray ms

/-- The places of the keys of an object, the first of which is at `i`. -/
def keyIndices (i : ℕ) : List (Bytes × Tree) → List ℕ
  | [] => []
  | (_, v) :: ms => i :: keyIndices (i + 1 + v.entries.length) ms

theorem Said.then_assoc (a b c : Said) : (a.then b).then c = a.then (b.then c) := by
  cases hc : c.id <;> simp [Said.then, hc, UInt32.or_assoc]

@[simp] theorem Said.empty_then (a : Said) : Said.then {} a = a := by
  cases ha : a.id <;> ext <;> simp [Said.then, ha]

/-- Members are read in order. -/
theorem readMembers_append (lib : UuidLib) (ms ns : List (Bytes × Tree)) :
    readMembers lib (ms ++ ns) =
      (readMembers lib ms).bind fun said => (readMembers lib ns).map said.then := by
  induction ms with
  | nil =>
    cases h : readMembers lib ns <;> simp [readMembers, h]
  | cons m ms ih =>
    rw [List.cons_append, readMembers, readMembers, ih]
    cases readMember lib m with
    | none => rfl
    | some a =>
      cases readMembers lib ms with
      | none => rfl
      | some b =>
        cases readMembers lib ns with
        | none => rfl
        | some c => simp [Said.then_assoc]

/-- A member less. -/
theorem NoStray.remove {ms ms' : List (Bytes × Tree)} {m : Bytes × Tree}
    (h : NoStray (ms ++ m :: ms')) : NoStray (ms ++ ms') := by
  induction ms with
  | nil => exact h.2
  | cons n ms ih =>
    obtain ⟨k, v⟩ := n
    refine ⟨h.1.imp_right fun hcalm j e he hword => ?_, ih h.2⟩
    exact absurd (hcalm j e he hword).2 (by simp)

theorem Tree.memberEntries_append (ms ns : List (Bytes × Tree)) :
    memberEntries (ms ++ ns) = memberEntries ms ++ memberEntries ns := by
  induction ms with
  | nil => rfl
  | cons m ms ih => simp [memberEntries, ih]

/-! ### One member in the table -/

section Table

variable {lib : UuidLib} {text : Bytes} {tokens : List JsmnTok}

/-- What the loop takes a token for. -/
theorem memberAt_entry (ht : TextTable text tokens) {i : ℕ} {e : Entry} {tok : JsmnTok}
    (htok : tokens[i]? = some tok) (he : e.Fits text tok) :
    memberAt text tokens i = .unknown ↔ ¬(e.Word ∧ i + 1 < tokens.length) := by
  by_cases hnext : i + 1 < tokens.length
  · have hvalue : tokens[i + 1]? = some tokens[i + 1] := List.getElem?_eq_getElem hnext
    rw [memberAt_eq ht htok hvalue]
    by_cases htype : e.type = .string
    · have htext : tokText text tok = e.text := (he.text htype).tokText_eq
      have htokType : tok.type = .string := he.type.trans htype
      simp only [htokType, htext, Entry.Word, htype, Taken, true_and, hnext, and_true]
      by_cases hid : e.text <+: lit "req-id" <;> by_cases hget : e.text <+: lit "get-stats" <;>
        simp [hid, hget]
    · have htokType : tok.type ≠ .string := fun h => htype (he.type.symm.trans h)
      simp [htokType, Entry.Word, htype]
  · simp [memberAt, htok, hnext]

/-- The buffer for an id takes the first bytes of a text. -/
theorem uuidbuf_take {tok : JsmnTok} {s : Bytes} (h : Spans text tok s) (hs : (0 : UInt8) ∉ s) :
    uuidbuf text tok = s.take (uuidStringLen - 1) := by
  obtain ⟨post, hpost⟩ := h.drop_eq
  have htake : (s ++ quote :: post).take (min s.length uuidStringLen) = s.take uuidStringLen := by
    rw [List.take_append_of_le_length (Nat.min_le_left _ _), Nat.min_comm, ← List.take_take,
      List.take_length]
  have hwhile : (s.take uuidStringLen).takeWhile (fun b => decide (b ≠ 0)) = s.take uuidStringLen := by
    rw [List.takeWhile_eq_self_iff]
    intro b hb
    have hne : b ≠ 0 := fun h0 => hs (h0 ▸ List.mem_of_mem_take hb)
    simpa using hne
  rw [uuidbuf, tokLength, h.length_eq, hpost, htake, hwhile, List.take_take]
  rfl

/-- The items of an array, read from the tokens after it. -/
theorem parseStatItems_tree (ht : TextTable text tokens) {items : List Tree} {toks ys : List JsmnTok}
    {sr : SampleRequest} (hsub : toks ⊆ tokens)
    (htoks : List.Forall₂ (Entry.Fits text) (Tree.itemEntries items) toks) :
    (parseStatItems text ((toks ++ ys).take items.length) sr).toOption =
        (itemsMask items).map (fun mask => { sr with stats := sr.stats ||| mask }) ∧
      (itemsMask items ≠ none → toks.length = items.length) := by
  induction items generalizing toks sr with
  | nil =>
    obtain rfl := List.forall₂_nil_left_iff.mp htoks
    simp [parseStatItems, itemsMask, Except.toOption]
  | cons item items ih =>
    obtain ⟨_, rest, rfl, hitem, hrest⟩ := forall₂_append_left htoks
    cases item with
    | string s =>
      obtain ⟨tok, more, hfit, hmore, rfl⟩ := List.forall₂_cons_left_iff.mp hitem
      obtain rfl := List.forall₂_nil_left_iff.mp hmore
      have hmem : tok ∈ tokens := hsub (by simp)
      have htype : tok.type = .string := hfit.type
      have htext : tokText text tok = s := (hfit.text rfl).tokText_eq
      simp only [List.cons_append, List.nil_append, List.length_cons, List.take_succ_cons,
        parseStatItems, htype, ne_eq, not_true_eq_false, if_false, itemsMask]
      rw [parseStatsString_eq ht hmem htype, htext]
      cases hfind : statNames.find? fun word => decide (s <+: word.1) with
      | none => simp [Except.toOption]
      | some word =>
        obtain ⟨hparse, hlen⟩ := @ih rest { sr with stats := sr.stats ||| word.2 }
          (fun _ h => hsub (by simp [h])) hrest
        simp only [Option.bind_some]
        rw [hparse]
        cases hmask : itemsMask items with
        | none => simp
        | some mask => simpa [UInt32.or_assoc, hmask] using hlen
    | _ =>
      obtain ⟨tok, more, hfit, -, rfl⟩ := List.forall₂_cons_left_iff.mp hitem
      have htype : tok.type ≠ .string := by simp [hfit.type, Entry.close, Entry.opened, Entry.primitive]
      simp [parseStatItems, htype, itemsMask, Except.toOption]

/-- The first entry of a value, and its type. -/
def Tree.type : Tree → JsmnType
  | .primitive _ => .primitive
  | .string _ => .string
  | .array _ => .array
  | .object _ => .object

theorem Tree.entries_cons (v : Tree) : ∃ e es, v.entries = e :: es ∧ e.type = v.type := by
  cases v <;> exact ⟨_, _, rfl, rfl⟩

/-- **The turn for a member** whose key is taken for a word says what the member says, and moves
on by the member. -/
theorem parseMember_taken (ht : TextTable text tokens) {k : Bytes} {v : Tree} {sr : SampleRequest}
    {xs ms ys : List JsmnTok} (htokens : tokens = xs ++ ms ++ ys)
    (hms : List.Forall₂ (Entry.Fits text) (Entry.string 1 k :: v.entries) ms) (hk : Taken k) :
    (parseMember lib text tokens xs.length sr).toOption = (readMember lib (k, v)).map sr.tell ∧
      (readMember lib (k, v) ≠ none →
        nextMember text tokens xs.length = xs.length + 1 + v.entries.length) := by
  obtain ⟨key, vs, hkey, hvs, rfl⟩ := List.forall₂_cons_left_iff.mp hms
  obtain ⟨e, es, hentries, htype⟩ := v.entries_cons
  rw [hentries] at hvs
  obtain ⟨value, rest, hvalue, hrest, rfl⟩ := List.forall₂_cons_left_iff.mp hvs
  have hkeyAt : tokens[xs.length]? = some key := by simp [htokens]
  have hvalueAt : tokens[xs.length + 1]? = some value := by simp [htokens]
  have hmember := memberAt_eq ht hkeyAt hvalueAt
  have hkeyText : tokText text key = k := (hkey.text rfl).tokText_eq
  have hkeyType : key.type = .string := hkey.type
  have hvalueType : value.type = v.type := hvalue.type.trans htype
  rw [hkeyText] at hmember
  by_cases hid : k <+: lit "req-id"
  · rw [if_pos ⟨hkeyType, hid⟩] at hmember
    simp only [parseMember, nextMember, hmember, parseReqId, readMember, hid, if_true, hvalueType]
    cases v with
    | string s =>
      obtain ⟨rfl, rfl⟩ : e = Entry.string 0 s ∧ es = [] := by
        simpa [Tree.entries, eq_comm] using hentries
      have hspans : Spans text value s := hvalue.text rfl
      have hnul : (0 : UInt8) ∉ s := by
        obtain ⟨s', hspans', hs'⟩ := ht value (List.mem_of_getElem? hvalueAt) hvalueType
        rwa [← hspans.tokText_eq, hspans'.tokText_eq]
      have hlen : tokLength value = s.length := hspans.length_eq
      simp only [Tree.type, ne_eq, not_true_eq_false, if_false, hlen, uuidbuf_take hspans hnul]
      by_cases hlong : s.length ≤ uuidStringLen
      · simp only [not_lt.mpr hlong, if_false, hlong, if_true, Option.map_some]
        cases lib.parse (s.take (uuidStringLen - 1)) <;>
          simp [Except.toOption, SampleRequest.tell, Tree.entries]
      · simp [not_le.mp hlong, hlong, Except.toOption]
    | _ => simp [Tree.type, Except.toOption]
  · have hget : k <+: lit "get-stats" := hk.resolve_left hid
    rw [if_neg fun h => hid h.2, if_pos ⟨hkeyType, hget⟩] at hmember
    simp only [parseMember, nextMember, hmember, readMember, hid, hget, if_true, if_false, hvalueType]
    cases v with
    | array items =>
      obtain ⟨rfl, rfl⟩ : e = (Entry.opened .array items.length).close ∧
          es = Tree.itemEntries items := by
        simpa [Tree.entries, eq_comm] using hentries
      have hsize : value.size = items.length := hvalue.size
      have hstat : statItems tokens xs.length value = (rest ++ ys).take items.length := by
        have hsplit : tokens = (xs ++ [key, value]) ++ (rest ++ ys) := by simp [htokens]
        have hlen : xs.length + 2 = (xs ++ [key, value]).length := by simp
        rw [statItems, hlen, hsplit, List.drop_left, hsize]
      have hsub : rest ⊆ tokens := by
        intro tok htok
        simp [htokens, htok]
      obtain ⟨hparse, hlen⟩ := @parseStatItems_tree text tokens ht items rest ys sr hsub hrest
      simp only [Tree.type, ne_eq, not_true_eq_false, if_false, hstat, hparse]
      refine ⟨?_, fun h => ?_⟩
      · cases itemsMask items <;> simp [SampleRequest.tell]
      · have hlen := hlen (by simpa using h)
        rw [hrest.length_eq.symm] at hlen
        simp only [hsize, Tree.entries, List.length_cons]
        omega
    | _ => simp [Tree.type, Except.toOption]

/-! ### The walk -/

/-- The loop moves on. -/
theorem lt_nextMember (i : ℕ) : i < nextMember text tokens i := by
  unfold nextMember
  split <;> omega

theorem le_of_mem_reachedFrom {turns i j : ℕ} (h : j ∈ reachedFrom text tokens turns i) : i ≤ j := by
  induction turns generalizing i with
  | zero => simp [reachedFrom] at h
  | succ turns ih =>
    rw [reachedFrom] at h
    split at h
    · rcases List.mem_cons.mp h with rfl | h
      · exact le_rfl
      · split at h
        · simp at h
        · have hlt := @lt_nextMember text tokens i
          have hle := ih h
          omega
    · simp at h

/-- The end of the table. -/
theorem reachedFrom_end {turns i : ℕ} (hend : tokens.length ≤ i) :
    reachedFrom text tokens turns i = [] := by
  cases turns with
  | zero => rfl
  | succ turns => rw [reachedFrom, if_neg (by omega)]

theorem parseMembers_end {turns i : ℕ} {sr : SampleRequest} (hend : tokens.length ≤ i) :
    parseMembers lib text tokens turns i sr = .ok sr := by
  cases turns with
  | zero => rfl
  | succ turns => rw [parseMembers, if_neg (by omega)]

/-- Tokens that are taken for nothing are passed one by one. -/
theorem walk_unknown {turns i n : ℕ} {sr : SampleRequest} (hn : i + n ≤ tokens.length)
    (hquiet : ∀ j, i ≤ j → j < i + n → memberAt text tokens j = .unknown) :
    parseMembers lib text tokens (turns + n) i sr = parseMembers lib text tokens turns (i + n) sr ∧
      reachedFrom text tokens (turns + n) i =
        List.range' i n ++ reachedFrom text tokens turns (i + n) := by
  induction n generalizing i with
  | zero => simp
  | succ n ih =>
    have hi := hquiet i le_rfl (by omega)
    have hfine : ¬MemberFails text tokens i := by simp [MemberFails, hi]
    have hnext : nextMember text tokens i = i + 1 := by simp [nextMember, hi]
    have hmember : parseMember lib text tokens i sr = .ok sr := by simp [parseMember, hi]
    obtain ⟨hparse, hreach⟩ := @ih (i + 1) (by omega) fun j h1 h2 => hquiet j (by omega) (by omega)
    have hsum : i + 1 + n = i + (n + 1) := by omega
    rw [hsum] at hparse hreach
    rw [← Nat.add_assoc, parseMembers, reachedFrom, if_pos (by omega), if_pos (by omega), hmember,
      if_neg hfine, hnext, hreach, List.range'_succ, List.cons_append]
    exact ⟨hparse, rfl⟩

/-- One turn. -/
theorem walk_turn (ht : TextTable text tokens) {turns i : ℕ} {sr : SampleRequest}
    (hi : i < tokens.length) :
    (∃ err, parseMember lib text tokens i sr = .error err ∧
      parseMembers lib text tokens (turns + 1) i sr = .error err ∧
      reachedFrom text tokens (turns + 1) i = [i]) ∨
    (∃ sr', parseMember lib text tokens i sr = .ok sr' ∧
      parseMembers lib text tokens (turns + 1) i sr =
        parseMembers lib text tokens turns (nextMember text tokens i) sr' ∧
      reachedFrom text tokens (turns + 1) i =
        i :: reachedFrom text tokens turns (nextMember text tokens i)) := by
  rw [parseMembers, reachedFrom, if_pos hi, if_pos hi]
  rcases parseMember_cases lib ht sr with ⟨hfails, err, herr⟩ | ⟨hfine, sr', hok, -⟩
  · exact .inl ⟨err, herr, by rw [herr], by rw [if_pos hfails]⟩
  · exact .inr ⟨sr', hok, by rw [hok], by rw [if_neg hfine]⟩

theorem le_of_mem_keyIndices {i j : ℕ} {ms : List (Bytes × Tree)} (h : j ∈ keyIndices i ms) :
    i ≤ j := by
  induction ms generalizing i with
  | nil => simp [keyIndices] at h
  | cons m ms ih =>
    rcases List.mem_cons.mp h with rfl | h
    · exact le_rfl
    · have hle := ih h
      omega

/-- The part of the table from `xs.length` on holds some members, to its end. -/
structure HoldsMembers (text : Bytes) (tokens xs : List JsmnTok) (ms : List (Bytes × Tree)) : Prop where
  table : TextTable text tokens
  split : ∃ ys, tokens = xs ++ ys ∧ List.Forall₂ (Entry.Fits text) (Tree.memberEntries ms) ys

/-- The first of the members, and the rest. -/
theorem HoldsMembers.cons {xs : List JsmnTok} {k : Bytes} {v : Tree} {ms : List (Bytes × Tree)}
    (h : HoldsMembers text tokens xs ((k, v) :: ms)) : ∃ zs ys, tokens = xs ++ zs ++ ys ∧
      List.Forall₂ (Entry.Fits text) (Entry.string 1 k :: v.entries) zs ∧
      List.Forall₂ (Entry.Fits text) (Tree.memberEntries ms) ys ∧
      HoldsMembers text tokens (xs ++ zs) ms := by
  obtain ⟨us, htokens, hus⟩ := h.split
  have hsplit : Tree.memberEntries ((k, v) :: ms) =
      (Entry.string 1 k :: v.entries) ++ Tree.memberEntries ms := rfl
  rw [hsplit] at hus
  obtain ⟨zs, ys, rfl, hzs, hys⟩ := forall₂_append_left hus
  have htokens' : tokens = xs ++ zs ++ ys := by simp [htokens]
  exact ⟨zs, ys, htokens', hzs, hys, h.table, ys, htokens', hys⟩

/-- **A member that is passed token by token**: nothing in it is taken for a key exactly where no
string of its value is a stray word. -/
theorem quiet_iff (ht : TextTable text tokens) {k : Bytes} {v : Tree} {ms : List (Bytes × Tree)}
    {xs zs ys : List JsmnTok} (htokens : tokens = xs ++ zs ++ ys)
    (hzs : List.Forall₂ (Entry.Fits text) (Entry.string 1 k :: v.entries) zs)
    (hys : List.Forall₂ (Entry.Fits text) (Tree.memberEntries ms) ys) (hk : ¬Taken k) :
    (∀ i, xs.length ≤ i → i < xs.length + (1 + v.entries.length) →
        memberAt text tokens i = .unknown) ↔ Calm v ms := by
  have hlen : tokens.length = xs.length + (1 + v.entries.length) + (Tree.memberEntries ms).length := by
    rw [htokens, List.length_append, List.length_append, ← hzs.length_eq, ← hys.length_eq,
      List.length_cons, Nat.add_comm 1]
  have hempty : (Tree.memberEntries ms).length = 0 ↔ ms = [] := by
    cases ms with
    | nil => simp [Tree.memberEntries]
    | cons m ms => simp [Tree.memberEntries]
  -- each token of the member, with its entry
  have hat : ∀ j e, (Entry.string 1 k :: v.entries)[j]? = some e →
      (memberAt text tokens (xs.length + j) = .unknown ↔
        ¬(e.Word ∧ xs.length + j + 1 < tokens.length)) := by
    intro j e he
    have hj : j < zs.length := by
      rw [← hzs.length_eq]
      exact (List.getElem?_eq_some_iff.mp he).1
    have htok : tokens[xs.length + j]? = some zs[j] := by
      rw [htokens, List.append_assoc, List.getElem?_append_right (Nat.le_add_right _ _),
        Nat.add_sub_cancel_left, List.getElem?_append_left hj, List.getElem?_eq_getElem hj]
    have hfit : e.Fits text zs[j] := by
      have hget := hzs.get (i := j) (List.getElem?_eq_some_iff.mp he).1 hj
      simp only [List.get_eq_getElem] at hget
      rwa [(List.getElem?_eq_some_iff.mp he).2] at hget
    exact memberAt_entry ht htok hfit
  constructor
  · intro hquiet j e he hword
    have hj : j < v.entries.length := (List.getElem?_eq_some_iff.mp he).1
    have hnot := (hat (j + 1) e he).mp (hquiet _ (by omega) (by omega))
    have hlast : ¬xs.length + (j + 1) + 1 < tokens.length := fun h => hnot ⟨hword, h⟩
    rw [← hempty]
    omega
  · intro hcalm i hle hlt
    obtain ⟨j, rfl⟩ : ∃ j, i = xs.length + j := ⟨i - xs.length, by omega⟩
    cases j with
    | zero =>
      rw [hat 0 (Entry.string 1 k) rfl]
      rintro ⟨⟨-, hword⟩, -⟩
      exact hk hword
    | succ j =>
      have hj : j < v.entries.length := by omega
      rw [hat (j + 1) v.entries[j] (List.getElem?_eq_getElem hj)]
      rintro ⟨hword, hnext⟩
      obtain ⟨hlast, hnil⟩ := hcalm j _ (List.getElem?_eq_getElem hj) hword
      rw [← hempty] at hnil
      omega

/-- **What the loop does over a member** at `i`: it refuses it, it gets past it, or it takes one
of its tokens for a key. -/
inductive MemberWalk (lib : UuidLib) (text : Bytes) (tokens : List JsmnTok) (k : Bytes) (v : Tree)
    (ms : List (Bytes × Tree)) (turns i : ℕ) (sr : SampleRequest) : Prop
  | refused (hread : readMember lib (k, v) = none)
      (hparse : (parseMembers lib text tokens turns i sr).toOption = none)
      (hreach : reachedFrom text tokens turns i = [i])
  | passed {said : Said} {turns' : ℕ} (hread : readMember lib (k, v) = some said)
      (hcalm : Taken k ∨ Calm v ms)
      (hturns : tokens.length - (i + 1 + v.entries.length) ≤ turns')
      (hparse : parseMembers lib text tokens turns i sr =
        parseMembers lib text tokens turns' (i + 1 + v.entries.length) (sr.tell said))
      (hreach : ∀ j, memberAt text tokens j ≠ .unknown → (j ∈ reachedFrom text tokens turns i →
        j = i ∨ j ∈ reachedFrom text tokens turns' (i + 1 + v.entries.length)))
      (hsub : reachedFrom text tokens turns' (i + 1 + v.entries.length) ⊆
        reachedFrom text tokens turns i)
  | strayed {j : ℕ} (hcalm : ¬(Taken k ∨ Calm v ms)) (hlow : i < j)
      (hhigh : j < i + 1 + v.entries.length) (hreach : j ∈ reachedFrom text tokens turns i)
      (hmember : memberAt text tokens j ≠ .unknown)

theorem memberWalk {k : Bytes} {v : Tree} {ms : List (Bytes × Tree)} {xs : List JsmnTok} {turns : ℕ}
    {sr : SampleRequest} (h : HoldsMembers text tokens xs ((k, v) :: ms))
    (hturns : tokens.length - xs.length ≤ turns) :
    MemberWalk lib text tokens k v ms turns xs.length sr := by
  obtain ⟨zs, ys, htokens, hzs, hys, -⟩ := h.cons
  have hlen : tokens.length = xs.length + 1 + v.entries.length + ys.length := by
    rw [htokens, List.length_append, List.length_append, ← hzs.length_eq, List.length_cons]
    omega
  by_cases hk : Taken k
  · obtain ⟨hparse, hnext⟩ := @parseMember_taken lib text tokens h.table k v sr xs zs ys htokens hzs hk
    obtain ⟨turns, rfl⟩ : ∃ t, turns = t + 1 := ⟨turns - 1, by omega⟩
    rcases @walk_turn lib text tokens h.table turns xs.length sr (by omega) with
      ⟨err, herr, hmembers, hreach⟩ | ⟨sr', hok, hmembers, hreach⟩
    · rw [herr] at hparse
      have hnone : readMember lib (k, v) = none := by simpa [Except.toOption] using hparse
      exact .refused hnone (by rw [hmembers]; rfl) hreach
    · rw [hok] at hparse
      obtain ⟨said, hsaid, rfl⟩ : ∃ said, readMember lib (k, v) = some said ∧ sr.tell said = sr' := by
        simpa [Except.toOption, eq_comm] using hparse
      rw [hnext (by simp [hsaid])] at hmembers hreach
      refine .passed hsaid (.inl hk) (by omega) hmembers ?_ ?_
      · intro j _ hj
        rwa [hreach, List.mem_cons] at hj
      · rw [hreach]
        exact List.subset_cons_self _ _
  · have hquiet := quiet_iff h.table htokens hzs hys hk
    have hread : readMember lib (k, v) = some {} := by
      rw [Taken, not_or] at hk
      simp [readMember, hk]
    by_cases hcalm : Calm v ms
    · obtain ⟨turns, rfl⟩ : ∃ t, turns = t + (1 + v.entries.length) :=
        ⟨turns - (1 + v.entries.length), by omega⟩
      obtain ⟨hparse, hreach⟩ := @walk_unknown lib text tokens turns xs.length (1 + v.entries.length)
        sr (by omega) (hquiet.mpr hcalm)
      have hsum : xs.length + (1 + v.entries.length) = xs.length + 1 + v.entries.length := by omega
      rw [hsum] at hparse hreach
      have hturns' : tokens.length - (xs.length + 1 + v.entries.length) ≤ turns := by omega
      refine .passed hread (.inr hcalm) hturns' (by simpa using hparse) ?_ ?_
      · intro j hmember hj
        rw [hreach, List.mem_append, List.mem_range'_1] at hj
        rcases hj with ⟨hle, hlt⟩ | hj
        · exact absurd (hquiet.mpr hcalm j hle hlt) hmember
        · exact .inr hj
      · rw [hreach]
        exact List.subset_append_right _ _
    · -- the first token of the member that is taken for a key
      have hex : ∃ n, n < 1 + v.entries.length ∧ memberAt text tokens (xs.length + n) ≠ .unknown := by
        by_contra hno
        push Not at hno
        refine hcalm (hquiet.mp fun i hle hlt => ?_)
        have hi := hno (i - xs.length) (by omega)
        rwa [Nat.add_sub_cancel' hle] at hi
      obtain ⟨hn, hmember⟩ := Nat.find_spec hex
      have hfirst : ∀ j, xs.length ≤ j → j < xs.length + Nat.find hex →
          memberAt text tokens j = .unknown := by
        intro j hle hlt
        have hmin := Nat.find_min hex (m := j - xs.length) (by omega)
        rw [not_and, not_not, Nat.add_sub_cancel' hle] at hmin
        exact hmin (by omega)
      have hpos : Nat.find hex ≠ 0 := by
        intro hzero
        rw [hzero, Nat.add_zero] at hmember
        obtain ⟨key, vs, hkey, hvs, rfl⟩ := List.forall₂_cons_left_iff.mp hzs
        have hkeyAt : tokens[xs.length]? = some key := by simp [htokens]
        exact hmember ((memberAt_entry h.table hkeyAt hkey).mpr fun hword => hk hword.1.2)
      obtain ⟨t, ht⟩ : ∃ t, turns = (t + 1) + Nat.find hex :=
        ⟨turns - (Nat.find hex + 1), by omega⟩
      obtain ⟨-, hreach⟩ := @walk_unknown lib text tokens (t + 1) xs.length (Nat.find hex)
        sr (by omega) hfirst
      refine .strayed (by tauto) (j := xs.length + Nat.find hex) (by omega) (by omega) ?_ hmember
      rw [ht, hreach, List.mem_append, reachedFrom, if_pos (by omega)]
      exact .inr List.mem_cons_self

/-- The tokens taken for a word, from one that the members of the object start at, are all keys
of the object. -/
def OnlyKeys (text : Bytes) (tokens : List JsmnTok) (turns i : ℕ) (ms : List (Bytes × Tree)) : Prop :=
  ∀ j ∈ reachedFrom text tokens turns i, memberAt text tokens j ≠ .unknown → j ∈ keyIndices i ms

/-- **Without stray words** the loop reads the members of the object, and only them. -/
theorem walk_members {ms : List (Bytes × Tree)} {xs : List JsmnTok} {turns : ℕ} {sr : SampleRequest}
    (h : HoldsMembers text tokens xs ms) (hturns : tokens.length - xs.length ≤ turns)
    (hstray : NoStray ms) :
    (parseMembers lib text tokens turns xs.length sr).toOption = (readMembers lib ms).map sr.tell ∧
      OnlyKeys text tokens turns xs.length ms := by
  induction ms generalizing xs turns sr with
  | nil =>
    obtain ⟨ys, htokens, hys⟩ := h.split
    obtain rfl := List.forall₂_nil_left_iff.mp hys
    have hend : tokens.length ≤ xs.length := by simp [htokens]
    rw [parseMembers_end hend, OnlyKeys, reachedFrom_end hend]
    simp [Except.toOption, readMembers]
  | cons m ms ih =>
    obtain ⟨k, v⟩ := m
    obtain ⟨zs, ys, -, hzs, -, hrest⟩ := h.cons
    have hnext : (xs ++ zs).length = xs.length + 1 + v.entries.length := by
      rw [List.length_append, ← hzs.length_eq, List.length_cons]
      omega
    cases @memberWalk lib text tokens k v ms xs turns sr h hturns with
    | refused hread hparse hreach =>
      refine ⟨by rw [hparse, readMembers, hread]; rfl, ?_⟩
      intro j hj _
      rw [hreach, List.mem_singleton] at hj
      exact hj ▸ List.mem_cons_self
    | passed hread _ hturns' hparse hreach _ =>
      rw [← hnext] at hturns' hparse hreach
      obtain ⟨hms, honly⟩ := ih hrest hturns' hstray.2
      refine ⟨?_, ?_⟩
      · rw [hparse, hms, readMembers, hread]
        cases readMembers lib ms with
        | none => rfl
        | some said => simp [SampleRequest.tell_then]
      · intro j hj hmember
        rcases hreach j hmember hj with rfl | hj
        · exact List.mem_cons_self
        · have hkey := honly j hj hmember
          rw [hnext] at hkey
          exact List.mem_cons_of_mem _ hkey
    | strayed hcalm => exact absurd hstray.1 hcalm

/-- **A stray word is taken for a key**, unless the request is refused before. -/
theorem noStray_of_walk {ms : List (Bytes × Tree)} {xs : List JsmnTok} {turns : ℕ}
    {sr sr' : SampleRequest} (h : HoldsMembers text tokens xs ms)
    (hturns : tokens.length - xs.length ≤ turns)
    (hok : parseMembers lib text tokens turns xs.length sr = .ok sr')
    (honly : OnlyKeys text tokens turns xs.length ms) : NoStray ms := by
  induction ms generalizing xs turns sr with
  | nil => trivial
  | cons m ms ih =>
    obtain ⟨k, v⟩ := m
    obtain ⟨zs, ys, -, hzs, -, hrest⟩ := h.cons
    have hnext : (xs ++ zs).length = xs.length + 1 + v.entries.length := by
      rw [List.length_append, ← hzs.length_eq, List.length_cons]
      omega
    cases @memberWalk lib text tokens k v ms xs turns sr h hturns with
    | refused _ hparse => simp [hok, Except.toOption] at hparse
    | passed _ hcalm hturns' hparse _ hsub =>
      rw [← hnext] at hturns' hparse hsub
      refine ⟨hcalm, ih hrest hturns' (hparse ▸ hok) ?_⟩
      intro j hj hmember
      have hle := le_of_mem_reachedFrom hj
      rcases List.mem_cons.mp (honly j (hsub hj) hmember) with rfl | hkey
      · omega
      · rwa [hnext]
    | strayed _ hlow hhigh hreach hmember =>
      rcases List.mem_cons.mp (honly _ hreach hmember) with rfl | hkey
      · omega
      · have hle := le_of_mem_keyIndices hkey
        omega

end Table

/-! ### A whole request -/

/-- A text is an object with these members, white space anywhere. -/
structure ObjectText (ms : List (Bytes × Tree)) (text : Bytes) : Prop where
  readable : (Tree.object ms).Readable
  spaced : Spaced (Tree.object ms).lexemes text

/-- The tokens that an object needs. -/
def objectTokens (ms : List (Bytes × Tree)) : ℕ := (Tree.object ms).entries.length

/-- **Only keys of the object are taken for a word.** -/
def OnlyMembersRead (text : Bytes) (tokens : List JsmnTok) (ms : List (Bytes × Tree)) : Prop :=
  ∀ i ∈ reached text tokens, memberAt text tokens i ≠ .unknown → i ∈ keyIndices 1 ms

section Request

variable {lib : UuidLib} {stray : ℕ → Bool} {ms : List (Bytes × Tree)} {text more : Bytes}

/-- The table of a request starts with the object. -/
theorem ObjectText.holds (h : ObjectText ms text) (hroom : objectTokens ms ≤ jsonRequestMaxTokens)
    (more : Bytes) : ∃ object rest, tokenTable stray (text ++ more) text.length = object :: rest ∧
      object.type = .object ∧
      HoldsMembers (text ++ more) (tokenTable stray (text ++ more) text.length) [object] ms ∧
      samplerParseRequest lib stray (text ++ more) text.length =
        samplerParseTokens lib (text ++ more) (tokenTable stray (text ++ more) text.length) := by
  obtain ⟨n, tokens, hparse, hfits⟩ := @jsmnParse_object stray _ ms text h.readable hroom h.spaced
  have htable : tokenTable stray (text ++ more) text.length = tokens := by
    simp [tokenTable, hparse]
  have ht : TextTable (text ++ more) tokens := htable ▸ textTable_tokenTable stray _ _
  have hfits' : List.Forall₂ (Entry.Fits (text ++ more)) (Tree.object ms).entries tokens :=
    hfits.imp fun _ _ h => h.append more
  obtain ⟨object, rest, hobject, hrest, rfl⟩ := List.forall₂_cons_left_iff.mp hfits'
  rw [htable]
  refine ⟨object, rest, rfl, hobject.type, ⟨ht, rest, rfl, hrest⟩, ?_⟩
  simp [samplerParseRequest, hparse]

/-- The walk over a request. -/
theorem ObjectText.walk (h : ObjectText ms text) (hroom : objectTokens ms ≤ jsonRequestMaxTokens)
    (more : Bytes) : ∃ object : JsmnTok,
      HoldsMembers (text ++ more) (tokenTable stray (text ++ more) text.length) [object] ms ∧
      samplerParseRequest lib stray (text ++ more) text.length =
        parseMembers lib (text ++ more) (tokenTable stray (text ++ more) text.length)
          (tokenTable stray (text ++ more) text.length).length 1 .zero ∧
      reached (text ++ more) (tokenTable stray (text ++ more) text.length) =
        reachedFrom (text ++ more) (tokenTable stray (text ++ more) text.length)
          (tokenTable stray (text ++ more) text.length).length 1 := by
  obtain ⟨object, rest, htable, htype, hholds, hparse⟩ := @ObjectText.holds lib stray ms text h hroom more
  have hfirst : ((tokenTable stray (text ++ more) text.length)[0]?).map JsmnTok.type =
      some .object := by simp [htable, htype]
  refine ⟨object, hholds, ?_, ?_⟩
  · rw [hparse, samplerParseTokens, if_neg (by simpa using hfirst)]
  · rw [reached, if_pos hfirst]

variable (lib) in
/-- **A request without stray words** says what its members say. -/
theorem ObjectText.read (h : ObjectText ms text) (hroom : objectTokens ms ≤ jsonRequestMaxTokens)
    (hstray : NoStray ms) (more : Bytes) :
    (samplerParseRequest lib stray (text ++ more) text.length).toOption =
        (readMembers lib ms).map SampleRequest.zero.tell ∧
      OnlyMembersRead (text ++ more) (tokenTable stray (text ++ more) text.length) ms := by
  obtain ⟨object, hholds, hparse, hreached⟩ := @ObjectText.walk lib stray ms text h hroom more
  rw [hparse, OnlyMembersRead, hreached]
  exact walk_members hholds (Nat.sub_le _ _) hstray

/-- An accepted request of which only members were read has no stray words. -/
theorem ObjectText.noStray (h : ObjectText ms text) (hroom : objectTokens ms ≤ jsonRequestMaxTokens)
    {sr : SampleRequest} (hok : samplerParseRequest lib stray (text ++ more) text.length = .ok sr)
    (honly : OnlyMembersRead (text ++ more) (tokenTable stray (text ++ more) text.length) ms) :
    NoStray ms := by
  obtain ⟨object, hholds, hparse, hreached⟩ := @ObjectText.walk lib stray ms text h hroom more
  rw [hparse] at hok
  rw [OnlyMembersRead, hreached] at honly
  exact noStray_of_walk hholds (Nat.sub_le _ _) hok honly

end Request

end Vmon
