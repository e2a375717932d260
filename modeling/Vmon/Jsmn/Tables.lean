import Vmon.Jsmn

/-!
# The tables of the tokenizer

`CharSteps` inverts `jsmnChar`, and `jsmnLoop_invariant` is the induction over the bytes
that every fact about tables goes through. `Scanned` is such a fact: a string token spans
the bytes between two quotes of the text, none of which is a NUL, and the table has as
many tokens as `jsmn_parse` returns.

## Main definitions

* `CharSteps` — what one character can do.
* `Spans` — a token has given bytes between quotes of the text.
* `Scanned` — the tables of a text.
-/

namespace Vmon

section Except

variable {ε α β : Type} {x : Except ε α} {b : β}

theorem except_map_eq_ok {f : α → β} : x.map f = .ok b ↔ ∃ a, x = .ok a ∧ f a = b := by
  cases x <;> simp [Except.map]

theorem except_bind_eq_ok {f : α → Except ε β} :
    x >>= f = .ok b ↔ ∃ a, x = .ok a ∧ f a = .ok b := by
  cases x <;> simp [bind, Except.bind]

end Except

/-! ### Strings -/

/-- One turn of the loop of `jsmn_parse_string`. -/
theorem jsmnParseString_cons (hex : ℕ) (c : UInt8) (rest : Bytes) :
    jsmnParseString hex (c :: rest) =
      if c = 0 then .error .part
      else if 0 < hex then
        if Json.isHex c then (jsmnParseString (hex - 1) rest).map (· + 1) else .error .inval
      else if c = quote then .ok 0
      else if c = backslash then
        match rest with
        | [] => .error .part
        | e :: rest =>
          if e ∈ Json.escapes then (jsmnParseString 0 rest).map (· + 2)
          else if e = 0x75 then (jsmnParseString 4 rest).map (· + 2)
          else .error .inval
      else (jsmnParseString 0 rest).map (· + 1) := by
  rw [jsmnParseString.eq_def]
  rfl

/-- A body that continues after some bytes that are no NUL. -/
private theorem body_grow {pre rest : Bytes} {m : ℕ} (hpre : (0 : UInt8) ∉ pre)
    (h : ∃ s post, rest = s ++ quote :: post ∧ s.length = m ∧ (0 : UInt8) ∉ s) :
    ∃ s post, pre ++ rest = s ++ quote :: post ∧ s.length = m + pre.length ∧ (0 : UInt8) ∉ s := by
  obtain ⟨s, post, rfl, rfl, hs⟩ := h
  refine ⟨pre ++ s, post, by simp, by simp [Nat.add_comm], ?_⟩
  simp [hpre, hs]

/-- A string body ends before a quote, and has no NUL in it. -/
theorem jsmnParseString_eq_ok {hex n : ℕ} {rest : Bytes} (h : jsmnParseString hex rest = .ok n) :
    ∃ s post, rest = s ++ quote :: post ∧ s.length = n ∧ (0 : UInt8) ∉ s := by
  induction hex, rest using jsmnParseString.induct generalizing n with
  | case1 hex => simp [jsmnParseString] at h
  | case2 hex rest =>
    rw [jsmnParseString_cons, if_pos rfl] at h
    cases h
  | case3 hex c rest hc hhex hdigit ih =>
    rw [jsmnParseString_cons, if_neg hc, if_pos hhex, if_pos hdigit] at h
    obtain ⟨m, hm, rfl⟩ := except_map_eq_ok.mp h
    have hne : (0 : UInt8) ∉ [c] := by simpa using Ne.symm hc
    exact body_grow hne (ih hm)
  | case4 hex c rest hc hhex hdigit =>
    rw [jsmnParseString_cons, if_neg hc, if_pos hhex, if_neg hdigit] at h
    cases h
  | case5 hex rest hhex hc =>
    rw [jsmnParseString_cons, if_neg hc, if_neg hhex, if_pos rfl] at h
    cases h
    exact ⟨[], rest, rfl, rfl, by simp⟩
  | case6 hex hhex hc hquote =>
    rw [jsmnParseString_cons, if_neg hc, if_neg hhex, if_neg hquote, if_pos rfl] at h
    cases h
  | case7 hex hhex e rest he hc hquote ih =>
    rw [jsmnParseString_cons, if_neg hc, if_neg hhex, if_neg hquote, if_pos rfl] at h
    simp only [he, if_true] at h
    obtain ⟨m, hm, rfl⟩ := except_map_eq_ok.mp h
    have hne : ∀ e ∈ Json.escapes, (0 : UInt8) ∉ [backslash, e] := by decide
    exact body_grow (hne e he) (ih hm)
  | case8 hex hhex rest hc hquote he ih =>
    rw [jsmnParseString_cons, if_neg hc, if_neg hhex, if_neg hquote, if_pos rfl] at h
    simp only [he, if_true, if_false] at h
    obtain ⟨m, hm, rfl⟩ := except_map_eq_ok.mp h
    have hne : (0 : UInt8) ∉ [backslash, 117] := by decide
    exact body_grow hne (ih hm)
  | case9 hex hhex e rest he hu hc hquote =>
    rw [jsmnParseString_cons, if_neg hc, if_neg hhex, if_neg hquote, if_pos rfl] at h
    simp [he, hu] at h
  | case10 hex c rest hc hhex hquote hback ih =>
    rw [jsmnParseString_cons, if_neg hc, if_neg hhex, if_neg hquote, if_neg hback] at h
    obtain ⟨m, hm, rfl⟩ := except_map_eq_ok.mp h
    have hne : (0 : UInt8) ∉ [c] := by simpa using Ne.symm hc
    exact body_grow hne (ih hm)

/-- The bytes are the body of a string, whatever stands after its closing quote. -/
def IsBody (s : Bytes) : Prop := ∀ rest, jsmnParseString 0 (s ++ quote :: rest) = .ok s.length

/-- One plain character more. -/
theorem IsBody.cons {c : UInt8} {s : Bytes} (h0 : c ≠ 0) (hquote : c ≠ quote) (hback : c ≠ backslash)
    (hs : IsBody s) : IsBody (c :: s) := by
  intro rest
  rw [List.cons_append, jsmnParseString_cons, if_neg h0, if_neg (lt_irrefl 0), if_neg hquote,
    if_neg hback, hs rest]
  rfl

/-- A string of plain characters is its own body. -/
theorem isBody_plain {s : Bytes} (hs : ∀ b ∈ s, b ≠ 0 ∧ b ≠ quote ∧ b ≠ backslash) : IsBody s := by
  induction s with
  | nil =>
    intro rest
    rw [List.nil_append, jsmnParseString_cons]
    rfl
  | cons b s ih =>
    obtain ⟨h0, hquote, hback⟩ := hs b List.mem_cons_self
    exact .cons h0 hquote hback (ih fun x hx => hs x (List.mem_cons_of_mem _ hx))

/-- A digit of a unicode escape. -/
theorem jsmnParseString_hex {hex : ℕ} {c : UInt8} {rest : Bytes} (hhex : 0 < hex)
    (hc : Json.isHex c = true) :
    jsmnParseString hex (c :: rest) = (jsmnParseString (hex - 1) rest).map (· + 1) := by
  have h0 : c ≠ 0 := by
    rintro rfl
    exact absurd hc (by decide)
  rw [jsmnParseString_cons, if_neg h0, if_pos hhex, if_pos hc]

/-- **Every JSON string is a body.** -/
theorem isBody_chars {s : Bytes} (hs : Json.Chars s) : IsBody s := by
  induction hs with
  | nil => exact isBody_plain (by simp)
  | unescaped c hlow hquote hback _ ih =>
    have hbytes : ∀ b ∈ String.utf8EncodeChar c, b ≠ 0 ∧ b ≠ quote ∧ b ≠ backslash := by
      intro b hb
      exact ⟨Json.ne_zero_of_mem_utf8EncodeChar (by omega) hb, Json.mem_utf8EncodeChar hquote hback hb⟩
    generalize String.utf8EncodeChar c = bytes at hbytes
    induction bytes with
    | nil => exact ih
    | cons b bytes ihb =>
      obtain ⟨h0, hq, hb⟩ := hbytes b List.mem_cons_self
      exact .cons h0 hq hb (ihb fun x hx => hbytes x (List.mem_cons_of_mem _ hx))
  | @escape b s hb _ ih =>
    intro rest
    rw [List.cons_append, List.cons_append, jsmnParseString_cons]
    simp only [show (0x5C : UInt8) = backslash by decide, show backslash ≠ 0 by decide,
      show backslash ≠ quote by decide, lt_irrefl, hb, if_true, if_false, ih rest]
    rfl
  | @unicode a b c d s ha hb hc hd _ ih =>
    intro rest
    have hu : (0x75 : UInt8) ∉ Json.escapes := by decide
    have hdigits : jsmnParseString 4 (a :: b :: c :: d :: (s ++ quote :: rest)) =
        .ok (s.length + 4) := by
      rw [jsmnParseString_hex (by decide) ha, jsmnParseString_hex (by decide) hb,
        jsmnParseString_hex (by decide) hc, jsmnParseString_hex (by decide) hd, ih rest]
      rfl
    simp only [List.cons_append]
    rw [jsmnParseString_cons]
    simp only [show (0x5C : UInt8) = backslash by decide, show backslash ≠ 0 by decide,
      show backslash ≠ quote by decide, lt_irrefl, hu, if_true, if_false, hdigits]
    rfl

/-! ### Primitives -/

/-- A byte that ends a primitive. -/
def Delimits (c : UInt8) : Prop :=
  c = 0 ∨ c = colon ∨ Json.isWs c = true ∨ c = comma ∨ c = bracketClose ∨ c = braceClose

instance (c : UInt8) : Decidable (Delimits c) :=
  inferInstanceAs (Decidable (_ ∨ _))

/-- A byte that a primitive goes on with. -/
def PrimitiveByte (c : UInt8) : Prop := ¬Delimits c ∧ 32 ≤ c ∧ c < 127

instance (c : UInt8) : Decidable (PrimitiveByte c) :=
  inferInstanceAs (Decidable (_ ∧ _))

theorem jsmnParsePrimitive_le {js : Bytes} {n : ℕ} (h : jsmnParsePrimitive js = .ok n) :
    n ≤ js.length := by
  induction js generalizing n with
  | nil =>
    cases h
    exact le_rfl
  | cons c rest ih =>
    rw [jsmnParsePrimitive] at h
    split at h
    · cases h
      exact Nat.zero_le _
    split at h
    · cases h
    · obtain ⟨m, hm, rfl⟩ := except_map_eq_ok.mp h
      exact Nat.succ_le_succ (ih hm)

/-- A primitive goes up to a delimiter. -/
theorem jsmnParsePrimitive_eq {w rest : Bytes} {c : UInt8} (hw : ∀ b ∈ w, PrimitiveByte b)
    (hc : Delimits c) : jsmnParsePrimitive (w ++ c :: rest) = .ok w.length := by
  induction w with
  | nil => exact if_pos hc
  | cons b w ih =>
    obtain ⟨hdelim, hlow, hhigh⟩ := hw b List.mem_cons_self
    unfold Delimits at hdelim
    have hrange : ¬(b < 32 ∨ 127 ≤ b) := by
      rw [not_or]
      exact ⟨UInt8.not_lt.mpr hlow, UInt8.not_le.mpr hhigh⟩
    rw [List.cons_append, jsmnParsePrimitive, if_neg hdelim, if_neg hrange,
      ih fun x hx => hw x (List.mem_cons_of_mem _ hx)]
    rfl

/-! ### One character -/

variable {stray : ℕ → Bool} {numTokens : ℕ}

theorem add_eq_ok {p p' : JsmnParser} {tok : JsmnTok} (h : p.add numTokens tok = .ok p') :
    p.tokens.length < numTokens ∧ p' = { p with
      tokens := (match p.toksuper with
        | some i => p.tokens.modify i fun super => { super with size := super.size + 1 }
        | none => p.tokens) ++ [tok]
      count := p.count + 1 } := by
  simp only [JsmnParser.add] at h
  split at h
  · cases h
  · next hlt =>
    cases h
    exact ⟨by omega, rfl⟩

theorem lastTok_lt {q : JsmnTok → Bool} {tokens : List JsmnTok} {i : ℕ}
    (h : lastTok q tokens = some i) : i < tokens.length := by
  induction tokens generalizing i with
  | nil => cases h
  | cons tok tokens ih =>
    rw [lastTok] at h
    split at h
    · next j hj =>
      cases h
      exact Nat.succ_lt_succ (ih hj)
    · split at h
      · cases h
        exact Nat.succ_pos _
      · cases h

/-- A closing bracket ends a container of its type. -/
theorem closeTok_eq_ok {p p' : JsmnParser} {type : JsmnType} (h : p.closeTok type = .ok p') :
    ∃ i, i < p.tokens.length ∧ (p.tokens[i]?).map JsmnTok.type = some type ∧ p' =
      { p with
        tokens := p.tokens.modify i fun tok => { tok with end_ := p.pos + 1 }
        toksuper := lastTok JsmnTok.isOpen
          ((p.tokens.modify i fun tok => { tok with end_ := p.pos + 1 }).take (i + 1)) } := by
  simp only [JsmnParser.closeTok] at h
  split at h
  · cases h
  · next i hi =>
    split at h
    · cases h
    · next htype =>
      cases h
      exact ⟨i, lastTok_lt hi, not_not.mp htype, rfl⟩

/-- A comma moves `toksuper` at most. -/
theorem commaTok_eq (stray : ℕ → Bool) (p : JsmnParser) :
    p.commaTok stray = p ∨
      ∃ i, i < p.tokens.length ∧ p.commaTok stray = { p with toksuper := some i } := by
  unfold JsmnParser.commaTok
  extract_lets container
  split
  · exact .inl rfl
  · split
    · next i hi => exact .inr ⟨i, lastTok_lt hi, rfl⟩
    · exact .inl rfl

/-- What one character does, by its kind. -/
inductive CharSteps (stray : ℕ → Bool) (numTokens : ℕ) (p : JsmnParser) (c : UInt8)
    (rest : Bytes) : JsmnParser → ℕ → Prop
  | openTok {p' : JsmnParser} {type : JsmnType} (htype : type ≠ .string)
      (h : p.openTok numTokens type = .ok p') : CharSteps stray numTokens p c rest p' 0
  | closeTok {p' : JsmnParser} {type : JsmnType} (htype : type ≠ .string)
      (h : p.closeTok type = .ok p') :
      CharSteps stray numTokens p c rest p' 0
  | string {p' : JsmnParser} {n : ℕ} (hc : c = quote) (hn : jsmnParseString 0 rest = .ok n)
      (h : p.add numTokens { type := .string, start := p.pos + 1, end_ := p.pos + 1 + n,
                             size := 0 } = .ok p') :
      CharSteps stray numTokens p c rest p' (n + 1)
  | space : CharSteps stray numTokens p c rest p 0
  | colon : CharSteps stray numTokens p c rest { p with toksuper := p.lastIndex } 0
  | comma : CharSteps stray numTokens p c rest (p.commaTok stray) 0
  | primitive {p' : JsmnParser} {n : ℕ} (hn : jsmnParsePrimitive (c :: rest) = .ok n)
      (h : p.add numTokens { type := .primitive, start := p.pos, end_ := p.pos + n, size := 0 } =
        .ok p') :
      CharSteps stray numTokens p c rest p' (n - 1)

/-- **Inversion of `jsmnChar`.** -/
theorem jsmnChar_cases {p p' : JsmnParser} {c : UInt8} {rest : Bytes} {n : ℕ}
    (h : jsmnChar stray numTokens p c rest = .ok (p', n)) :
    CharSteps stray numTokens p c rest p' n := by
  unfold jsmnChar at h
  split at h
  · obtain ⟨q, hq, heq⟩ := except_map_eq_ok.mp h
    cases heq
    refine .openTok ?_ hq
    split <;> simp
  split at h
  · obtain ⟨q, hq, heq⟩ := except_map_eq_ok.mp h
    cases heq
    refine .closeTok ?_ hq
    split <;> simp
  split at h
  · next hc =>
    obtain ⟨m, hm, h⟩ := except_bind_eq_ok.mp h
    obtain ⟨q, hq, h⟩ := except_bind_eq_ok.mp h
    cases h
    exact .string hc hm hq
  split at h
  · cases h
    exact .space
  split at h
  · cases h
    exact .colon
  split at h
  · cases h
    exact .comma
  · obtain ⟨m, hm, h⟩ := except_bind_eq_ok.mp h
    obtain ⟨q, hq, h⟩ := except_bind_eq_ok.mp h
    cases h
    exact .primitive hm hq

/-! ### The loop -/

/-- Only the loop moves `pos`. -/
theorem CharSteps.pos_eq {p p' : JsmnParser} {c : UInt8} {rest : Bytes} {n : ℕ}
    (h : CharSteps stray numTokens p c rest p' n) : p'.pos = p.pos := by
  have hadd : ∀ {q : JsmnParser} {tok : JsmnTok}, p.add numTokens tok = .ok q → q.pos = p.pos := by
    intro q tok hq
    obtain ⟨-, rfl⟩ := add_eq_ok hq
    rfl
  cases h with
  | openTok _ h =>
    obtain ⟨q, hq, rfl⟩ := except_map_eq_ok.mp h
    have hpos := hadd hq
    exact hpos
  | closeTok _ h =>
    obtain ⟨i, -, -, rfl⟩ := closeTok_eq_ok h
    rfl
  | string _ _ h => exact hadd h
  | space => rfl
  | colon => rfl
  | comma => rcases commaTok_eq stray p with h | ⟨i, -, h⟩ <;> rw [h]
  | primitive _ h => exact hadd h

/-- **Induction over the bytes.** What every character keeps, the loop keeps. -/
theorem jsmnLoop_invariant {P : JsmnParser → Prop} {js : Bytes}
    (hpos : ∀ p, P p → P { p with pos := p.pos + 1 })
    (hchar : ∀ pre c rest p p' n, js = pre ++ c :: rest → p.pos = pre.length → P p →
      CharSteps stray numTokens p c rest p' n → P p')
    {pre rest : Bytes} {skip : ℕ} {p p' : JsmnParser} (hjs : js = pre ++ rest)
    (hp : p.pos = pre.length) (hP : P p) (h : jsmnLoop stray numTokens rest skip p = .ok p') :
    P p' := by
  induction rest generalizing pre skip p with
  | nil =>
    cases h
    exact hP
  | cons c rest ih =>
    have hnext : ∀ {q : JsmnParser}, q.pos = p.pos → P q → ∀ {skip : ℕ},
        jsmnLoop stray numTokens rest skip { q with pos := p.pos + 1 } = .ok p' → P p' := by
      intro q hpq hq skip hloop
      have hsplit : js = (pre ++ [c]) ++ rest := by simp [hjs]
      rw [← hpq] at hloop
      exact ih hsplit (by simp [hpq, hp]) (hpos q hq) hloop
    cases skip with
    | succ skip => exact hnext rfl hP h
    | zero =>
      rw [jsmnLoop] at h
      split at h
      · cases h
        exact hP
      · split at h
        · cases h
        · next q n hq =>
          have hc := jsmnChar_cases hq
          exact hnext hc.pos_eq (hchar pre c rest p q n hjs hp hP hc) h

/-! ### Scanned tables -/

/-- The token has the bytes `s`, between two quotes of the text. -/
def Spans (js : Bytes) (tok : JsmnTok) (s : Bytes) : Prop :=
  ∃ pre post, js = pre ++ quote :: s ++ quote :: post ∧ tok.start = pre.length + 1 ∧
    tok.end_ = pre.length + 1 + s.length

/-- A table of the tokenizer, while it grows. -/
structure Scanned (js : Bytes) (p : JsmnParser) : Prop where
  count : p.count = p.tokens.length
  strings : ∀ tok ∈ p.tokens, tok.type = .string → ∃ s, Spans js tok s ∧ (0 : UInt8) ∉ s

/-- A token of a table that differs in sizes and ends of containers only. -/
theorem mem_modify {tokens : List JsmnTok} {i : ℕ} {f : JsmnTok → JsmnTok} {tok : JsmnTok}
    (h : tok ∈ tokens.modify i f) : tok ∈ tokens ∨ ∃ tok' ∈ tokens[i]?, tok = f tok' := by
  obtain ⟨j, hj⟩ := List.getElem?_of_mem h
  rw [List.getElem?_modify] at hj
  split at hj
  · next heq =>
    subst heq
    obtain ⟨tok', htok', rfl⟩ := Option.map_eq_some_iff.mp hj
    exact .inr ⟨tok', htok', rfl⟩
  · rw [Option.map_eq_map, Option.map_id'] at hj
    exact .inl (List.mem_of_getElem? hj)

/-- Counting into a token keeps its span. -/
theorem Scanned.add {js : Bytes} {p p' : JsmnParser} {tok : JsmnTok} (H : Scanned js p)
    (htok : tok.type = .string → ∃ s, Spans js tok s ∧ (0 : UInt8) ∉ s)
    (h : p.add numTokens tok = .ok p') : Scanned js p' := by
  obtain ⟨-, rfl⟩ := add_eq_ok h
  constructor
  · cases hsuper : p.toksuper <;> simp [H.count]
  · intro t ht htype
    rcases List.mem_append.mp ht with ht | ht
    · cases hsuper : p.toksuper with
      | none =>
        rw [hsuper] at ht
        exact H.strings t ht htype
      | some i =>
        rw [hsuper] at ht
        rcases mem_modify ht with ht | ⟨t', ht', rfl⟩
        · exact H.strings t ht htype
        · exact H.strings t' (List.mem_of_getElem? ht') htype
    · obtain rfl := List.mem_singleton.mp ht
      exact htok htype

theorem Scanned.char {js pre rest : Bytes} {c : UInt8} {p p' : JsmnParser} {n : ℕ}
    (hjs : js = pre ++ c :: rest) (hp : p.pos = pre.length) (H : Scanned js p)
    (h : CharSteps stray numTokens p c rest p' n) : Scanned js p' := by
  cases h with
  | openTok htype h =>
    obtain ⟨q, hq, rfl⟩ := except_map_eq_ok.mp h
    have := H.add (fun hs => absurd hs htype) hq
    exact ⟨this.count, this.strings⟩
  | closeTok htype h =>
    obtain ⟨i, -, hsome, rfl⟩ := closeTok_eq_ok h
    refine ⟨by simp [H.count], ?_⟩
    intro t ht hstring
    rcases mem_modify ht with ht | ⟨t', ht', rfl⟩
    · exact H.strings t ht hstring
    · -- the closed token is no string
      rw [Option.mem_def.mp ht', Option.map_some, Option.some.injEq] at hsome
      exact absurd (hsome.symm.trans hstring) htype
  | string hc hn h =>
    obtain ⟨s, post, rfl, hlen, hs⟩ := jsmnParseString_eq_ok hn
    refine H.add (fun _ => ⟨s, ⟨pre, post, ?_, ?_, ?_⟩, hs⟩) h
    · simp [hjs, hc]
    · simp [hp]
    · simp [hp, hlen]
  | space => exact H
  | colon => exact ⟨H.count, H.strings⟩
  | comma =>
    rcases commaTok_eq stray p with h | ⟨i, -, h⟩ <;> rw [h]
    · exact H
    · exact ⟨H.count, H.strings⟩
  | primitive hn h => exact H.add (fun hs => by simp at hs) h

/-- **The tables of the tokenizer.** -/
theorem jsmnParse_scanned {js : Bytes} {n : ℕ} {tokens : List JsmnTok}
    (h : jsmnParse stray numTokens js = .ok (n, tokens)) :
    n = tokens.length ∧
      ∀ tok ∈ tokens, tok.type = .string → ∃ s, Spans js tok s ∧ (0 : UInt8) ∉ s := by
  simp only [jsmnParse] at h
  split at h
  · cases h
  · next p hp =>
    split at h
    · cases h
    · cases h
      have H : Scanned js p := by
        refine jsmnLoop_invariant (P := Scanned js) (fun q H => ⟨H.count, H.strings⟩) ?_
          (List.nil_append js).symm rfl ⟨rfl, by simp [jsmnInit]⟩ hp
        intro pre c rest q q' k hjs hq H hc
        exact H.char hjs hq hc
      exact ⟨H.count, H.strings⟩

/-! ### The bounds of a table -/

/-- The token starts at most at the byte after `pos`, and ends in the text if at all. -/
def Placed (js : Bytes) (pos : ℕ) (tok : JsmnTok) : Prop :=
  0 ≤ tok.start ∧ tok.start ≤ pos + 1 ∧
    (tok.end_ = -1 ∨ tok.start ≤ tok.end_ ∧ tok.end_ ≤ js.length)

/-- A table, while it grows, whose tokens lie in the text and count later tokens only. -/
structure Ordered (js : Bytes) (p : JsmnParser) : Prop where
  placed : ∀ tok ∈ p.tokens, Placed js p.pos tok
  sizes : ∀ i tok, p.tokens[i]? = some tok → i + 1 + tok.size ≤ p.tokens.length
  super : ∀ i, p.toksuper = some i → i < p.tokens.length

namespace Ordered

variable {js : Bytes} {p p' : JsmnParser} {tok : JsmnTok}

theorem next (H : Ordered js p) : Ordered js { p with pos := p.pos + 1 } := by
  refine ⟨fun tok htok => ?_, H.sizes, H.super⟩
  obtain ⟨h0, hstart, hend⟩ := H.placed tok htok
  refine ⟨h0, ?_, hend⟩
  push_cast
  omega

theorem setSuper (H : Ordered js p) {super : Option ℕ}
    (hsuper : ∀ i, super = some i → i < p.tokens.length) :
    Ordered js { p with toksuper := super } :=
  ⟨H.placed, H.sizes, hsuper⟩

theorem add (H : Ordered js p) (htok : Placed js p.pos tok) (hsize : tok.size = 0)
    (h : p.add numTokens tok = .ok p') : Ordered js p' := by
  obtain ⟨-, rfl⟩ := add_eq_ok h
  constructor
  · intro t ht
    rcases List.mem_append.mp ht with ht | ht
    · cases hsuper : p.toksuper with
      | none =>
        rw [hsuper] at ht
        exact H.placed t ht
      | some k =>
        rw [hsuper] at ht
        rcases mem_modify ht with ht | ⟨t', ht', rfl⟩
        · exact H.placed t ht
        · exact H.placed t' (List.mem_of_getElem? ht')
    · obtain rfl := List.mem_singleton.mp ht
      exact htok
  · intro i t ht
    have hlast : ∀ toks : List JsmnTok, toks.length = p.tokens.length → (toks ++ [tok])[i]? = some t →
        toks[i]? = some t ∨ i = p.tokens.length ∧ t = tok := by
      intro toks hlen ht
      rw [List.getElem?_append] at ht
      split at ht
      · exact .inl ht
      · rw [List.getElem?_singleton] at ht
        split at ht
        · cases ht
          exact .inr ⟨by omega, rfl⟩
        · cases ht
    cases hsuper : p.toksuper with
    | none =>
      simp only [hsuper] at ht ⊢
      rcases hlast _ rfl ht with ht | ⟨rfl, rfl⟩
      · have := H.sizes i t ht
        simp only [List.length_append, List.length_singleton]
        omega
      · simp [hsize]
    | some k =>
      simp only [hsuper] at ht ⊢
      rcases hlast _ (List.length_modify ..) ht with ht | ⟨rfl, rfl⟩
      · rw [List.getElem?_modify] at ht
        obtain ⟨t', ht', rfl⟩ := Option.map_eq_some_iff.mp ht
        have := H.sizes i t' ht'
        simp only [List.length_append, List.length_modify, List.length_singleton]
        split <;> simp <;> omega
      · simp [hsize]
  · intro i hi
    have := H.super i hi
    cases hsuper : p.toksuper <;> simp <;> omega

theorem close (H : Ordered js p) {type : JsmnType} (hpos : p.pos < js.length)
    (h : p.closeTok type = .ok p') : Ordered js p' := by
  obtain ⟨i, hi, -, rfl⟩ := closeTok_eq_ok h
  constructor
  · intro t ht
    rcases mem_modify ht with ht | ⟨t', ht', rfl⟩
    · exact H.placed t ht
    · obtain ⟨h0, hstart, -⟩ := H.placed t' (List.mem_of_getElem? ht')
      exact ⟨h0, hstart, .inr ⟨hstart, by push_cast; omega⟩⟩
  · intro j t ht
    rw [List.getElem?_modify] at ht
    obtain ⟨t', ht', rfl⟩ := Option.map_eq_some_iff.mp ht
    have := H.sizes j t' ht'
    simp only [List.length_modify]
    split <;> exact this
  · intro j hj
    have := lastTok_lt hj
    simp only [List.length_take, List.length_modify] at this ⊢
    omega

theorem char {pre rest : Bytes} {c : UInt8} {n : ℕ} (hjs : js = pre ++ c :: rest)
    (hp : p.pos = pre.length) (H : Ordered js p) (h : CharSteps stray numTokens p c rest p' n) :
    Ordered js p' := by
  have hlen : js.length = p.pos + 1 + rest.length := by
    simp [hjs, hp]
    omega
  cases h with
  | @openTok _ type _ h =>
    obtain ⟨q, hq, rfl⟩ := except_map_eq_ok.mp h
    have hplaced : Placed js p.pos { type := type, start := p.pos, end_ := -1, size := 0 } :=
      ⟨by simp, by simp, .inl rfl⟩
    apply (H.add hplaced rfl hq).setSuper
    intro i hi
    cases hi
    obtain ⟨-, rfl⟩ := add_eq_ok hq
    cases hsuper : p.toksuper <;> simp
  | closeTok _ h => exact H.close (by omega) h
  | string _ hn h =>
    obtain ⟨s, post, rfl, rfl, -⟩ := jsmnParseString_eq_ok hn
    refine H.add ⟨by simp; omega, by simp, .inr ⟨by simp, ?_⟩⟩ rfl h
    simp at hlen ⊢
    omega
  | space => exact H
  | colon =>
    apply H.setSuper
    intro i hi
    unfold JsmnParser.lastIndex at hi
    split at hi
    · cases hi
    · next hne =>
      cases hi
      have := List.length_pos_iff.mpr hne
      omega
  | comma =>
    rcases commaTok_eq stray p with h | ⟨i, hi, h⟩ <;> rw [h]
    · exact H
    · apply H.setSuper
      intro j hj
      cases hj
      exact hi
  | primitive hn h =>
    have hle := jsmnParsePrimitive_le hn
    rw [List.length_cons] at hle
    refine H.add ⟨by simp, by simp, .inr ⟨by simp, ?_⟩⟩ rfl h
    simp only
    omega

end Ordered

/-- **The bounds of the tables of the tokenizer.** -/
theorem jsmnParse_ordered {js : Bytes} {n : ℕ} {tokens : List JsmnTok}
    (h : jsmnParse stray numTokens js = .ok (n, tokens)) :
    (∀ tok ∈ tokens, 0 ≤ tok.start ∧ tok.start ≤ tok.end_ ∧ tok.end_ ≤ js.length) ∧
      ∀ i tok, tokens[i]? = some tok → i + 1 + tok.size ≤ tokens.length := by
  simp only [jsmnParse] at h
  split at h
  · cases h
  · next p hp =>
    split at h
    · cases h
    · next hclosed =>
      cases h
      have H : Ordered js p := by
        refine jsmnLoop_invariant (P := Ordered js) (fun q H => H.next) ?_
          (List.nil_append js).symm rfl ⟨by simp [jsmnInit], by simp [jsmnInit], by simp [jsmnInit]⟩ hp
        intro pre c rest q q' k hjs hq H hc
        exact H.char hjs hq hc
      refine ⟨fun tok htok => ?_, H.sizes⟩
      obtain ⟨h0, -, hend | hend⟩ := H.placed tok htok
      · -- no token is left open
        refine absurd ?_ hclosed
        simp only [List.any_eq_true]
        refine ⟨tok, htok, ?_⟩
        have hstart : tok.start ≠ -1 := by omega
        simp [JsmnTok.isOpen, hend, hstart]
      · exact ⟨h0, hend⟩

/-! ### The size of the table -/

/-- A larger table takes the token too. -/
theorem add_mono {m : ℕ} {p p' : JsmnParser} {tok : JsmnTok} (hm : numTokens ≤ m)
    (h : p.add numTokens tok = .ok p') : p.add m tok = .ok p' := by
  obtain ⟨hroom, rfl⟩ := add_eq_ok h
  exact if_neg (by omega)

theorem jsmnChar_mono {m n : ℕ} {p p' : JsmnParser} {c : UInt8} {rest : Bytes} (hm : numTokens ≤ m)
    (h : jsmnChar stray numTokens p c rest = .ok (p', n)) :
    jsmnChar stray m p c rest = .ok (p', n) := by
  unfold jsmnChar at h ⊢
  split
  · next hc =>
    rw [if_pos hc] at h
    obtain ⟨q, hq, heq⟩ := except_map_eq_ok.mp h
    obtain ⟨r, hr, rfl⟩ := except_map_eq_ok.mp hq
    rw [JsmnParser.openTok, add_mono hm hr, ← heq]
    rfl
  · next hc =>
    rw [if_neg hc] at h
    split
    · next hclose => rwa [if_pos hclose] at h
    · next hclose =>
      rw [if_neg hclose] at h
      split
      · next hquote =>
        rw [if_pos hquote] at h
        obtain ⟨k, hk, h⟩ := except_bind_eq_ok.mp h
        obtain ⟨q, hq, h⟩ := except_bind_eq_ok.mp h
        rw [hk]
        exact except_bind_eq_ok.mpr ⟨k, rfl, except_bind_eq_ok.mpr ⟨q, add_mono hm hq, h⟩⟩
      · next hquote =>
        rw [if_neg hquote] at h
        split
        · next hws => rwa [if_pos hws] at h
        · next hws =>
          rw [if_neg hws] at h
          split
          · next hcolon => rwa [if_pos hcolon] at h
          · next hcolon =>
            rw [if_neg hcolon] at h
            split
            · next hcomma => rwa [if_pos hcomma] at h
            · next hcomma =>
              rw [if_neg hcomma] at h
              obtain ⟨k, hk, h⟩ := except_bind_eq_ok.mp h
              obtain ⟨q, hq, h⟩ := except_bind_eq_ok.mp h
              rw [hk]
              exact except_bind_eq_ok.mpr ⟨k, rfl, except_bind_eq_ok.mpr ⟨q, add_mono hm hq, h⟩⟩

theorem jsmnLoop_mono {m skip : ℕ} {p p' : JsmnParser} {js : Bytes} (hm : numTokens ≤ m)
    (h : jsmnLoop stray numTokens js skip p = .ok p') : jsmnLoop stray m js skip p = .ok p' := by
  induction js generalizing skip p with
  | nil => exact h
  | cons c rest ih =>
    cases skip with
    | succ skip => exact ih h
    | zero =>
      rw [jsmnLoop] at h ⊢
      split
      · next hc => rwa [if_pos hc] at h
      · next hc =>
        rw [if_neg hc] at h
        split at h
        · cases h
        · next q n hq =>
          rw [jsmnChar_mono hm hq]
          exact ih h

/-- **A larger table** changes nothing where a smaller one is enough. -/
theorem jsmnParse_mono {m n : ℕ} {js : Bytes} {tokens : List JsmnTok} (hm : numTokens ≤ m)
    (h : jsmnParse stray numTokens js = .ok (n, tokens)) :
    jsmnParse stray m js = .ok (n, tokens) := by
  unfold jsmnParse at h ⊢
  split at h
  · cases h
  · next p hp =>
    rw [jsmnLoop_mono hm hp]
    exact h

/-- The table has room for its tokens. -/
theorem jsmnParse_length_le {n : ℕ} {js : Bytes} {tokens : List JsmnTok}
    (h : jsmnParse stray numTokens js = .ok (n, tokens)) : tokens.length ≤ numTokens := by
  unfold jsmnParse at h
  split at h
  · cases h
  · next p hp =>
    split at h
    · cases h
    · cases h
      apply jsmnLoop_invariant (P := fun q => q.tokens.length ≤ numTokens) (fun _ hq => hq) ?_
        (List.nil_append js).symm rfl (Nat.zero_le _) hp
      have hadd : ∀ {q q' : JsmnParser} {tok : JsmnTok}, q.add numTokens tok = .ok q' →
          q'.tokens.length ≤ numTokens := by
        intro q q' tok hq
        obtain ⟨hroom, rfl⟩ := add_eq_ok hq
        cases hsuper : q.toksuper <;> simpa using hroom
      intro pre c rest q q' k _ _ hq hc
      cases hc with
      | openTok _ h =>
        obtain ⟨r, hr, rfl⟩ := except_map_eq_ok.mp h
        have hlen := hadd hr
        exact hlen
      | closeTok _ h =>
        obtain ⟨i, -, -, rfl⟩ := closeTok_eq_ok h
        simpa using hq
      | string _ _ h => exact hadd h
      | space => exact hq
      | colon => exact hq
      | comma => rcases commaTok_eq stray q with h | ⟨i, -, h⟩ <;> rw [h] <;> exact hq
      | primitive _ h => exact hadd h

/-! ### Spans -/

namespace Spans

variable {js s : Bytes} {tok : JsmnTok}

/-- The text may go on. -/
theorem append (h : Spans js tok s) (more : Bytes) : Spans (js ++ more) tok s := by
  obtain ⟨pre, post, rfl, hstart, hend⟩ := h
  exact ⟨pre, post ++ more, by simp, hstart, hend⟩

theorem drop_eq (h : Spans js tok s) : ∃ post, js.drop tok.start.toNat = s ++ quote :: post := by
  obtain ⟨pre, post, rfl, hstart, -⟩ := h
  refine ⟨post, ?_⟩
  have hlen : tok.start.toNat = (pre ++ [quote]).length := by simp [hstart]
  have hsplit : pre ++ quote :: s ++ quote :: post = (pre ++ [quote]) ++ (s ++ quote :: post) := by
    simp
  rw [hsplit, hlen, List.drop_left]

theorem length_eq (h : Spans js tok s) : (tok.end_ - tok.start).toNat = s.length := by
  obtain ⟨pre, post, -, hstart, hend⟩ := h
  omega

theorem tokText_eq (h : Spans js tok s) : tokText js tok = s := by
  obtain ⟨post, hpost⟩ := h.drop_eq
  rw [tokText, hpost, h.length_eq, List.take_left]

end Spans

end Vmon
