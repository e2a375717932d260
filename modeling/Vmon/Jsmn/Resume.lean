import Vmon.Jsmn.Forest

/-!
# Tokenizing piece by piece

`jsmn_parse` may be called again with the parser of an earlier call: with a larger table where the
table was full, with a longer text where the text was not complete. Every error leaves the parser at
the character where it came up, with the tokens before it, so calls that are repeated so end where
one call on the whole text does (`jsmn_resumes`). The exception is a text that ends inside a
primitive: there the parser takes what it has for the whole of it.

What the parser reads before the table is of no consequence (`jsmnRun_stray`): no token is open
where it does.

## Main definitions

* `jsmnRun`, `jsmnCall` — `jsmn_parse` with a parser that was used before.
* `JsmnParser.Cut` — the exception.
* `JsmnCalls` — calls with one parser, one after the other.
-/

namespace Vmon

/-- The loop of `jsmn_parse`, with the parser that it leaves. -/
def jsmnRun (stray : ℕ → Bool) (numTokens : ℕ) :
    Bytes → ℕ → JsmnParser → JsmnParser × Option JsmnErr
  | [], _, p => (p, none)
  | _ :: rest, skip + 1, p => jsmnRun stray numTokens rest skip { p with pos := p.pos + 1 }
  | c :: rest, 0, p =>
    if c = 0 then (p, none)
    else
      match jsmnChar stray numTokens p c rest with
      | .error e => (p, some e)
      | .ok (p', skip) => jsmnRun stray numTokens rest skip { p' with pos := p.pos + 1 }

/-- What `jsmn_parse` returns after its loop, where the parser had counted to `count` before. -/
def jsmnReturn (count : ℕ) (r : JsmnParser × Option JsmnErr) : Except JsmnErr ℕ :=
  match r.2 with
  | some e => .error e
  | none => if r.1.tokens.any JsmnTok.isOpen then .error .part else .ok (r.1.count - count)

/-- `jsmn_parse` from where the parser is. -/
def jsmnCall (stray : ℕ → Bool) (numTokens : ℕ) (p : JsmnParser) (js : Bytes) :
    JsmnParser × Except JsmnErr ℕ :=
  let r := jsmnRun stray numTokens (js.drop p.pos) 0 p
  (r.1, jsmnReturn p.count r)

variable {stray stray' : ℕ → Bool} {numTokens m : ℕ} {p p' : JsmnParser} {js more : Bytes}

/-! ### A call with a new parser -/

theorem jsmnLoop_eq_run (stray : ℕ → Bool) (numTokens : ℕ) (js : Bytes) (skip : ℕ) (p : JsmnParser) :
    jsmnLoop stray numTokens js skip p = match jsmnRun stray numTokens js skip p with
      | (_, some e) => .error e
      | (p', none) => .ok p' := by
  induction js generalizing skip p with
  | nil => rfl
  | cons c rest ih =>
    cases skip with
    | succ skip => exact ih skip _
    | zero =>
      rw [jsmnLoop, jsmnRun]
      split
      · rfl
      · cases jsmnChar stray numTokens p c rest with
        | error e => rfl
        | ok r => exact ih r.2 _

theorem jsmnParse_eq_call (stray : ℕ → Bool) (numTokens : ℕ) (js : Bytes) :
    jsmnParse stray numTokens js = (jsmnCall stray numTokens jsmnInit js).2.map fun count =>
      (count, (jsmnCall stray numTokens jsmnInit js).1.tokens) := by
  have hdrop : js.drop jsmnInit.pos = js := rfl
  simp only [jsmnParse, jsmnCall, hdrop, jsmnLoop_eq_run, jsmnReturn]
  cases hrun : jsmnRun stray numTokens js 0 jsmnInit with
  | mk q e =>
    cases e with
    | some e => rfl
    | none =>
      dsimp only
      split <;> rfl

/-- What every character keeps, the loop keeps. -/
theorem jsmnRun_invariant {P : JsmnParser → Prop} (hpos : ∀ p pos, P p → P { p with pos := pos })
    (hchar : ∀ p c rest p' n, P p → CharSteps stray numTokens p c rest p' n → P p')
    (js : Bytes) (skip : ℕ) (p : JsmnParser) (hp : P p) : P (jsmnRun stray numTokens js skip p).1 := by
  induction js generalizing skip p with
  | nil => exact hp
  | cons c rest ih =>
    cases skip with
    | succ skip => exact ih skip _ (hpos _ _ hp)
    | zero =>
      rw [jsmnRun]
      split
      · exact hp
      · cases hc : jsmnChar stray numTokens p c rest with
        | error e => exact hp
        | ok r => exact ih _ _ (hpos _ _ (hchar p c rest r.1 r.2 hp (jsmnChar_cases hc)))

/-! ### Before the table -/

/-- Where no token counts the next one, none is open. -/
def JsmnParser.Grounded (p : JsmnParser) : Prop :=
  p.toksuper = none → ∀ tok ∈ p.tokens, tok.isOpen = false

theorem eq_false_of_lastTok {q : JsmnTok → Bool} {tokens : List JsmnTok}
    (h : lastTok q tokens = none) : ∀ tok ∈ tokens, q tok = false := by
  induction tokens with
  | nil => simp
  | cons t tokens ih =>
    rw [lastTok] at h
    split at h
    · cases h
    · next hnone =>
      split at h
      · cases h
      · next ht => exact List.forall_mem_cons.mpr ⟨by simpa using ht, ih hnone⟩

theorem exists_of_lastTok {q : JsmnTok → Bool} {tokens : List JsmnTok} {i : ℕ}
    (h : lastTok q tokens = some i) : ∃ tok ∈ tokens, q tok = true := by
  by_contra hnone
  push Not at hnone
  have hnil : lastTok q tokens = none :=
    lastTok_eq_none fun tok htok => Bool.eq_false_iff.mpr (hnone tok htok)
  rw [h] at hnil
  cases hnil

/-- Nothing after the last one satisfies it. -/
theorem eq_false_of_after {q : JsmnTok → Bool} {tokens : List JsmnTok} {i : ℕ}
    (h : lastTok q tokens = some i) : ∀ tok ∈ tokens.drop (i + 1), q tok = false := by
  induction tokens generalizing i with
  | nil => cases h
  | cons t tokens ih =>
    rw [lastTok] at h
    split at h
    · next j hj =>
      cases h
      exact ih hj
    · next hnone =>
      split at h
      · cases h
        exact eq_false_of_lastTok hnone
      · cases h

namespace JsmnParser.Grounded

theorem char {c : UInt8} {rest : Bytes} {n : ℕ} (H : p.Grounded)
    (hs : CharSteps stray numTokens p c rest p' n) : p'.Grounded := by
  -- a token that is complete when it is added
  have hadd : ∀ {q : JsmnParser} {tok : JsmnTok}, tok.isOpen = false →
      p.add numTokens tok = .ok q → q.Grounded := by
    intro q tok htok hq
    obtain ⟨-, rfl⟩ := add_eq_ok hq
    intro hnone
    have hsuper : p.toksuper = none := hnone
    simp only [hsuper]
    intro t ht
    rcases List.mem_append.mp ht with ht | ht
    · exact H hsuper t ht
    · rwa [List.mem_singleton.mp ht]
  cases hs with
  | openTok _ h =>
    obtain ⟨q, -, rfl⟩ := except_map_eq_ok.mp h
    intro hnone
    cases hnone
  | closeTok _ h =>
    simp only [closeTok] at h
    split at h
    · cases h
    · next i hi =>
      split at h
      · cases h
      · cases h
        intro hnone tok htok
        rw [← List.take_append_drop (i + 1) (p.tokens.modify i _)] at htok
        rcases List.mem_append.mp htok with htok | htok
        · exact eq_false_of_lastTok hnone tok htok
        · refine eq_false_of_after hi tok ?_
          obtain ⟨j, hj⟩ := List.mem_iff_getElem?.mp htok
          rw [List.getElem?_drop, List.getElem?_modify_ne _ _ (by omega)] at hj
          exact List.mem_iff_getElem?.mpr ⟨j, by rw [List.getElem?_drop, hj]⟩
  | string _ _ h =>
    refine hadd ?_ h
    simp only [JsmnTok.isOpen, Bool.and_eq_false_iff]
    exact .inr (by simp; omega)
  | space => exact H
  | colon =>
    intro hnone
    have hnil : p.tokens = [] := by
      by_contra hne
      simp [JsmnParser.lastIndex, hne] at hnone
    simp [hnil]
  | comma =>
    rcases commaTok_eq stray p with h | ⟨i, -, h⟩ <;> rw [h]
    · exact H
    · intro hnone
      cases hnone
  | primitive _ h =>
    refine hadd ?_ h
    simp only [JsmnTok.isOpen, Bool.and_eq_false_iff]
    exact .inr (by simp; omega)

theorem commaTok_stray (H : p.Grounded) (stray stray' : ℕ → Bool) :
    p.commaTok stray = p.commaTok stray' := by
  cases hsuper : p.toksuper with
  | some i => simp only [JsmnParser.commaTok, hsuper]
  | none =>
    have hlast : lastTok (fun tok => tok.isContainer && tok.isOpen) p.tokens = none := by
      rw [← Option.not_isSome_iff_eq_none]
      intro hsome
      obtain ⟨i, hi⟩ := Option.isSome_iff_exists.mp hsome
      obtain ⟨tok, htok, hopen⟩ := exists_of_lastTok hi
      simp [H hsuper tok htok] at hopen
    simp only [JsmnParser.commaTok, hsuper, hlast, ite_self]

theorem char_stray (H : p.Grounded) (stray stray' : ℕ → Bool) (c : UInt8) (rest : Bytes) :
    jsmnChar stray numTokens p c rest = jsmnChar stray' numTokens p c rest := by
  simp only [jsmnChar, H.commaTok_stray stray stray']

end JsmnParser.Grounded

/-- **What stands before the table does not matter.** -/
theorem jsmnRun_stray (stray stray' : ℕ → Bool) (numTokens : ℕ) (js : Bytes) (skip : ℕ)
    (H : p.Grounded) : jsmnRun stray numTokens js skip p = jsmnRun stray' numTokens js skip p := by
  induction js generalizing skip p with
  | nil => rfl
  | cons c rest ih =>
    cases skip with
    | succ skip => exact ih _ H
    | zero =>
      rw [jsmnRun, jsmnRun, H.char_stray stray stray']
      split
      · rfl
      · cases hc : jsmnChar stray' numTokens p c rest with
        | error e => rfl
        | ok r =>
          have hr : r.1.Grounded := H.char (jsmnChar_cases hc)
          exact ih r.2 hr

theorem jsmnCall_grounded (stray : ℕ → Bool) (numTokens : ℕ) (js : Bytes) (H : p.Grounded) :
    (jsmnCall stray numTokens p js).1.Grounded :=
  jsmnRun_invariant (fun _ _ H => H) (fun _ _ _ _ _ H hs => H.char hs) _ _ p H

/-! ### More text -/

/-- A string that ends does so whatever follows it. -/
theorem jsmnParseString_append {hex n : ℕ} {rest : Bytes} (more : Bytes)
    (h : jsmnParseString hex rest = .ok n) : jsmnParseString hex (rest ++ more) = .ok n := by
  induction hex, rest using jsmnParseString.induct generalizing n with
  | case1 hex => simp [jsmnParseString] at h
  | case2 hex rest =>
    rw [jsmnParseString_cons, if_pos rfl] at h
    cases h
  | case3 hex c rest hc hhex hdigit ih =>
    rw [jsmnParseString_cons, if_neg hc, if_pos hhex, if_pos hdigit] at h
    obtain ⟨k, hk, rfl⟩ := except_map_eq_ok.mp h
    rw [List.cons_append, jsmnParseString_cons, if_neg hc, if_pos hhex, if_pos hdigit, ih hk]
    rfl
  | case4 hex c rest hc hhex hdigit =>
    rw [jsmnParseString_cons, if_neg hc, if_pos hhex, if_neg hdigit] at h
    cases h
  | case5 hex rest hhex hc =>
    rw [jsmnParseString_cons, if_neg hc, if_neg hhex, if_pos rfl] at h
    rw [List.cons_append, jsmnParseString_cons, if_neg hc, if_neg hhex, if_pos rfl, h]
  | case6 hex hhex hc hquote =>
    rw [jsmnParseString_cons, if_neg hc, if_neg hhex, if_neg hquote, if_pos rfl] at h
    cases h
  | case7 hex hhex e rest he hc hquote ih =>
    rw [jsmnParseString_cons, if_neg hc, if_neg hhex, if_neg hquote, if_pos rfl] at h
    simp only [he, if_true] at h
    obtain ⟨k, hk, rfl⟩ := except_map_eq_ok.mp h
    rw [List.cons_append, List.cons_append, jsmnParseString_cons, if_neg hc, if_neg hhex,
      if_neg hquote, if_pos rfl]
    simp only [he, if_true, ih hk]
    rfl
  | case8 hex hhex rest hc hquote he ih =>
    rw [jsmnParseString_cons, if_neg hc, if_neg hhex, if_neg hquote, if_pos rfl] at h
    simp only [he, if_true, if_false] at h
    obtain ⟨k, hk, rfl⟩ := except_map_eq_ok.mp h
    rw [List.cons_append, List.cons_append, jsmnParseString_cons, if_neg hc, if_neg hhex,
      if_neg hquote, if_pos rfl]
    simp only [he, if_true, if_false, ih hk]
    rfl
  | case9 hex hhex e rest he hu hc hquote =>
    rw [jsmnParseString_cons, if_neg hc, if_neg hhex, if_neg hquote, if_pos rfl] at h
    simp [he, hu] at h
  | case10 hex c rest hc hhex hquote hback ih =>
    rw [jsmnParseString_cons, if_neg hc, if_neg hhex, if_neg hquote, if_neg hback] at h
    obtain ⟨k, hk, rfl⟩ := except_map_eq_ok.mp h
    rw [List.cons_append, jsmnParseString_cons, if_neg hc, if_neg hhex, if_neg hquote,
      if_neg hback, ih hk]
    rfl

/-- A primitive does if its delimiter is there, or comes next. -/
theorem jsmnParsePrimitive_append {n : ℕ} {js : Bytes} (h : jsmnParsePrimitive js = .ok n)
    (hend : n < js.length ∨ ∀ d ∈ more.head?, Delimits d) :
    jsmnParsePrimitive (js ++ more) = .ok n := by
  induction js generalizing n with
  | nil =>
    cases h
    cases more with
    | nil => rfl
    | cons d more =>
      rcases hend with hlt | hend
      · exact absurd hlt (Nat.lt_irrefl 0)
      · exact if_pos (hend d rfl)
  | cons c rest ih =>
    rw [jsmnParsePrimitive] at h
    rw [List.cons_append, jsmnParsePrimitive]
    split at h
    · next hc => rw [if_pos hc, h]
    · next hc =>
      split at h
      · cases h
      · next hrange =>
        obtain ⟨k, hk, rfl⟩ := except_map_eq_ok.mp h
        rw [if_neg hc, if_neg hrange, ih hk]
        · rfl
        · exact hend.imp_left fun hlt => by simpa using hlt

/-- The bytes after a text do not begin with a delimiter. -/
def GoesOn (more : Bytes) : Prop := ∃ d ∈ more.head?, ¬Delimits d

/-- A character does the same before more text, unless it starts a primitive that the text ends
with. -/
theorem jsmnChar_append {c : UInt8} {rest : Bytes} {k : ℕ} (more : Bytes)
    (h : jsmnChar stray numTokens p c rest = .ok (p', k)) :
    jsmnChar stray numTokens p c (rest ++ more) = .ok (p', k) ∨
      k = rest.length ∧ GoesOn more ∧
        ∃ tok ∈ p'.tokens.getLast?, tok.type = .primitive ∧ tok.end_ = p.pos + (k + 1) := by
  unfold jsmnChar at h ⊢
  split
  · next hc =>
    rw [if_pos hc] at h
    exact .inl h
  · next hc =>
    rw [if_neg hc] at h
    split
    · next hclose =>
      rw [if_pos hclose] at h
      exact .inl h
    · next hclose =>
      rw [if_neg hclose] at h
      split
      · next hquote =>
        rw [if_pos hquote] at h
        obtain ⟨n, hn, h⟩ := except_bind_eq_ok.mp h
        rw [jsmnParseString_append more hn]
        exact .inl h
      · next hquote =>
        rw [if_neg hquote] at h
        split
        · next hws =>
          rw [if_pos hws] at h
          exact .inl h
        · next hws =>
          rw [if_neg hws] at h
          split
          · next hcolon =>
            rw [if_pos hcolon] at h
            exact .inl h
          · next hcolon =>
            rw [if_neg hcolon] at h
            split
            · next hcomma =>
              rw [if_pos hcomma] at h
              exact .inl h
            · next hcomma =>
              rw [if_neg hcomma] at h
              obtain ⟨n, hn, h⟩ := except_bind_eq_ok.mp h
              have hle := jsmnParsePrimitive_le hn
              by_cases hend : n < (c :: rest).length ∨ ∀ d ∈ more.head?, Delimits d
              · rw [← List.cons_append, jsmnParsePrimitive_append hn hend]
                exact .inl h
              · -- the primitive reaches the end of the text
                obtain ⟨hfull, hmore⟩ := not_or.mp hend
                obtain ⟨q, hq, h⟩ := except_bind_eq_ok.mp h
                obtain ⟨-, hp⟩ := add_eq_ok hq
                cases h
                rw [List.length_cons] at hle hfull
                obtain rfl : n = rest.length + 1 := by omega
                have hlast : p'.tokens.getLast? = some
                    { type := .primitive, start := p.pos, end_ := p.pos + (rest.length + 1 : ℕ),
                      size := 0 } := by
                  rw [hp, List.getLast?_append]
                  rfl
                refine .inr ⟨rfl, by simpa [GoesOn] using hmore, _, hlast, rfl, ?_⟩
                simp

theorem CharSteps.skip_le {c : UInt8} {rest : Bytes} {k : ℕ}
    (hs : CharSteps stray numTokens p c rest p' k) : k ≤ rest.length := by
  cases hs with
  | string hc hn h =>
    obtain ⟨s, post, rfl, rfl, -⟩ := jsmnParseString_eq_ok hn
    rw [List.length_append, List.length_cons]
    omega
  | primitive hn h =>
    have hle := jsmnParsePrimitive_le hn
    rw [List.length_cons] at hle
    omega
  | _ => exact Nat.zero_le _

/-- The parser is at the end of its text, `len` bytes, inside a primitive that `more` goes on with. -/
def JsmnParser.Cut (p : JsmnParser) (len : ℕ) (more : Bytes) : Prop :=
  p.pos = len ∧ GoesOn more ∧ ∃ tok ∈ p.tokens.getLast?, tok.type = .primitive ∧ tok.end_ = len

theorem jsmnRun_skip (stray : ℕ → Bool) (numTokens : ℕ) (js : Bytes) (p : JsmnParser) :
    jsmnRun stray numTokens js js.length p = ({ p with pos := p.pos + js.length }, none) := by
  induction js generalizing p with
  | nil => rfl
  | cons c rest ih =>
    refine (ih _).trans ?_
    simp only [List.length_cons, Nat.add_assoc, Nat.add_comm 1]

/-- **Where a run ends, a run over more text goes on**, with a table that is as large at least. -/
theorem jsmnRun_append (hm : numTokens ≤ m) (more : Bytes) {js : Bytes} {skip : ℕ}
    (hskip : skip ≤ js.length)
    (hcut : ¬(jsmnRun stray numTokens js skip p).1.Cut (p.pos + js.length) more) :
    ∃ k ≤ js.length, (jsmnRun stray numTokens js skip p).1.pos = p.pos + k ∧
      jsmnRun stray m (js ++ more) skip p =
        jsmnRun stray m ((js ++ more).drop k) 0 (jsmnRun stray numTokens js skip p).1 := by
  induction js generalizing skip p with
  | nil =>
    obtain rfl : skip = 0 := by simpa using hskip
    exact ⟨0, le_rfl, rfl, rfl⟩
  | cons c rest ih =>
    have hstop : ∃ k ≤ (c :: rest).length, p.pos = p.pos + k ∧
        jsmnRun stray m (c :: rest ++ more) 0 p =
          jsmnRun stray m ((c :: rest ++ more).drop k) 0 p := ⟨0, Nat.zero_le _, rfl, rfl⟩
    have hlen : ∀ q : JsmnParser, q.pos = p.pos + 1 → q.pos + rest.length = p.pos + (c :: rest).length := by
      intro q hq
      rw [hq, List.length_cons]
      omega
    cases skip with
    | succ skip =>
      obtain ⟨k, hk, hpos, hrun⟩ := @ih { p with pos := p.pos + 1 } skip (by simpa using hskip)
        (by rw [hlen _ rfl]; exact hcut)
      exact ⟨k + 1, by simpa using hk, by rw [jsmnRun, hpos]; dsimp only; omega, hrun⟩
    | zero =>
      rw [jsmnRun] at hcut ⊢
      split at hcut
      · next hc =>
        rw [if_pos hc]
        exact hstop
      · next hc =>
        rw [if_neg hc]
        cases hchar : jsmnChar stray numTokens p c rest with
        | error e => exact hstop
        | ok r =>
          obtain ⟨q, skip⟩ := r
          rw [hchar] at hcut
          dsimp only at hcut ⊢
          rcases jsmnChar_append more hchar with hsame | ⟨rfl, hmore, tok, htok, htype, hend⟩
          · have hs := jsmnChar_cases hchar
            obtain ⟨k, hk, hpos, hrun⟩ := @ih { q with pos := p.pos + 1 } skip hs.skip_le
              (by rw [hlen _ rfl]; exact hcut)
            refine ⟨k + 1, by simpa using hk, by rw [hpos]; dsimp only; omega, ?_⟩
            rw [List.cons_append, jsmnRun, if_neg hc, jsmnChar_mono hm hsame]
            exact hrun
          · refine absurd ?_ hcut
            rw [jsmnRun_skip]
            refine ⟨?_, hmore, tok, htok, htype, ?_⟩
            · simp only [List.length_cons]
              omega
            · rw [hend]
              simp

/-! ### Calls one after the other -/

/-- The count goes with the table. -/
theorem CharSteps.count_eq {c : UInt8} {rest : Bytes} {n : ℕ}
    (hs : CharSteps stray numTokens p c rest p' n) :
    ∃ k, p'.count = p.count + k ∧ p'.tokens.length = p.tokens.length + k := by
  have hadd : ∀ {q : JsmnParser} {tok : JsmnTok}, p.add numTokens tok = .ok q →
      q.count = p.count + 1 ∧ q.tokens.length = p.tokens.length + 1 := by
    intro q tok hq
    obtain ⟨-, rfl⟩ := add_eq_ok hq
    cases p.toksuper <;> simp
  cases hs with
  | openTok _ h =>
    obtain ⟨q, hq, rfl⟩ := except_map_eq_ok.mp h
    exact ⟨1, (hadd hq).1, (hadd hq).2⟩
  | closeTok _ h =>
    obtain ⟨i, -, -, rfl⟩ := closeTok_eq_ok h
    exact ⟨0, rfl, List.length_modify ..⟩
  | string _ _ h => exact ⟨1, hadd h⟩
  | space => exact ⟨0, rfl, rfl⟩
  | colon => exact ⟨0, rfl, rfl⟩
  | comma => rcases commaTok_eq stray p with h | ⟨i, -, h⟩ <;> rw [h] <;> exact ⟨0, rfl, rfl⟩
  | primitive _ h => exact ⟨1, hadd h⟩

theorem jsmnRun_count_eq (stray : ℕ → Bool) (numTokens : ℕ) (js : Bytes) (skip : ℕ) (p : JsmnParser) :
    ∃ k, (jsmnRun stray numTokens js skip p).1.count = p.count + k ∧
      (jsmnRun stray numTokens js skip p).1.tokens.length = p.tokens.length + k := by
  refine jsmnRun_invariant (P := fun q => ∃ k, q.count = p.count + k ∧
    q.tokens.length = p.tokens.length + k) (fun _ _ H => H) ?_ js skip p ⟨0, rfl, rfl⟩
  rintro q c rest q' n ⟨k, hcount, hlen⟩ hs
  obtain ⟨l, hcount', hlen'⟩ := hs.count_eq
  exact ⟨k + l, by omega, by omega⟩

/-- **One call after another** ends like one call: the second finds what the first left, and returns
the number of the tokens that it adds. -/
theorem jsmnCall_resume (hm : numTokens ≤ m) (stray stray' stray₂ : ℕ → Bool) (H : p.Grounded)
    (hpos : p.pos ≤ js.length) (hcut : ¬(jsmnCall stray numTokens p js).1.Cut js.length more) :
    (jsmnCall stray₂ m (jsmnCall stray numTokens p js).1 (js ++ more)).1 =
        (jsmnCall stray' m p (js ++ more)).1 ∧
      (jsmnCall stray₂ m (jsmnCall stray numTokens p js).1 (js ++ more)).2.map
          (· + ((jsmnCall stray numTokens p js).1.tokens.length - p.tokens.length)) =
        (jsmnCall stray' m p (js ++ more)).2 := by
  have hgrounded := jsmnCall_grounded stray numTokens js H
  obtain ⟨k₁, hcount₁, hlen₁⟩ := jsmnRun_count_eq stray numTokens (js.drop p.pos) 0 p
  have hend : p.pos + (js.drop p.pos).length = js.length := by
    rw [List.length_drop]
    omega
  have hcut' : ¬(jsmnRun stray numTokens (js.drop p.pos) 0 p).1.Cut (p.pos + (js.drop p.pos).length)
      more := by
    rw [hend]
    exact hcut
  obtain ⟨k, -, hk, hrun⟩ := jsmnRun_append hm more (Nat.zero_le _) hcut'
  simp only [jsmnCall] at hgrounded ⊢
  generalize (jsmnRun stray numTokens (js.drop p.pos) 0 p).1 = p₁ at hgrounded hcount₁ hlen₁ hk hrun ⊢
  have htext : (js ++ more).drop p₁.pos = (js.drop p.pos ++ more).drop k := by
    rw [hk, ← List.drop_drop, List.drop_append_of_le_length hpos]
  rw [htext, List.drop_append_of_le_length hpos, jsmnRun_stray stray' stray _ _ _ H, hrun,
    jsmnRun_stray stray₂ stray _ _ _ hgrounded]
  obtain ⟨k₂, hcount₂, -⟩ := jsmnRun_count_eq stray m ((js.drop p.pos ++ more).drop k) 0 p₁
  refine ⟨rfl, ?_⟩
  generalize jsmnRun stray m ((js.drop p.pos ++ more).drop k) 0 p₁ = r at hcount₂ ⊢
  obtain ⟨q, e⟩ := r
  cases e with
  | some e => rfl
  | none =>
    dsimp only [jsmnReturn] at hcount₂ ⊢
    split
    · rfl
    · have hrest : q.count - p₁.count + (p₁.tokens.length - p.tokens.length) = q.count - p.count := by
        omega
      rw [← hrest]
      rfl

/-- Calls with one parser, each for a text that goes on where the last one ended and a table that is
as large at least: the last table size and text, the tokens that the parser had when the last call
began, the parser after it, and what it returned. -/
inductive JsmnCalls : ℕ → Bytes → ℕ → JsmnParser → Except JsmnErr ℕ → Prop
  | first (stray : ℕ → Bool) (numTokens : ℕ) (js : Bytes) :
      JsmnCalls numTokens js 0 (jsmnCall stray numTokens jsmnInit js).1
        (jsmnCall stray numTokens jsmnInit js).2
  | again (stray : ℕ → Bool) {numTokens m : ℕ} {js : Bytes} (more : Bytes) {before : ℕ}
      {p : JsmnParser} {r : Except JsmnErr ℕ} (h : JsmnCalls numTokens js before p r) (hm : numTokens ≤ m)
      (hcut : ¬p.Cut js.length more) :
      JsmnCalls m (js ++ more) p.tokens.length (jsmnCall stray m p (js ++ more)).1
        (jsmnCall stray m p (js ++ more)).2

theorem jsmnInit_grounded : jsmnInit.Grounded := fun _ => by simp [jsmnInit]

theorem JsmnCalls.eq_call {before : ℕ} {r : Except JsmnErr ℕ} (h : JsmnCalls numTokens js before p r)
    (stray : ℕ → Bool) : p = (jsmnCall stray numTokens jsmnInit js).1 ∧
      r.map (· + before) = (jsmnCall stray numTokens jsmnInit js).2 := by
  induction h with
  | first stray₁ numTokens js =>
    simp only [jsmnCall, jsmnRun_stray stray₁ stray _ _ _ jsmnInit_grounded, true_and]
    cases jsmnReturn jsmnInit.count (jsmnRun stray numTokens (js.drop jsmnInit.pos) 0 jsmnInit) <;> rfl
  | again stray₁ more h hm hcut ih =>
    obtain ⟨rfl, -⟩ := ih
    exact jsmnCall_resume hm stray stray stray₁ jsmnInit_grounded (Nat.zero_le _) hcut

/-- **Tokenizing piece by piece.** Calls one after the other, none of them on a text that is cut
inside a primitive, leave the table that one call on the last text makes, or its error. -/
theorem jsmn_resumes {before : ℕ} {r : Except JsmnErr ℕ} (h : JsmnCalls numTokens js before p r)
    (stray : ℕ → Bool) :
    jsmnParse stray numTokens js = r.map fun count => (count + before, p.tokens) := by
  obtain ⟨rfl, hr⟩ := h.eq_call stray
  rw [jsmnParse_eq_call, ← hr]
  cases r <;> rfl

instance (more : Bytes) : Decidable (GoesOn more) :=
  inferInstanceAs (Decidable (∃ d ∈ more.head?, _))

instance (p : JsmnParser) (len : ℕ) (more : Bytes) : Decidable (p.Cut len more) :=
  inferInstanceAs (Decidable (_ ∧ _))

/-- A table that is too small at first, then a text that comes in three pieces. -/
theorem jsmn_resumes_array : ∃ (before : ℕ) (p : JsmnParser) (r : Except JsmnErr ℕ),
    JsmnCalls 10 (lit "[1, true, [123, \"hello\"]]") before p r ∧ before = 5 ∧
      jsmnParse (fun _ => false) 10 (lit "[1, true, [123, \"hello\"]]") =
        r.map fun count => (count + before, p.tokens) := by
  have hsmall := JsmnCalls.first (fun _ => true) 2 (lit "[1, true, [123, ")
  have hlarge := hsmall.again (fun _ => true) (m := 10) [] (by decide) (by decide +kernel)
  have hpart := hlarge.again (fun _ => true) (lit "\"hel") le_rfl (by decide +kernel)
  have hwhole := hpart.again (fun _ => true) (lit "lo\"]]") le_rfl (by decide +kernel)
  exact ⟨_, _, _, hwhole, by decide +kernel, jsmn_resumes hwhole _⟩

/-- A number that is cut becomes two. -/
example : (jsmnCall (fun _ => false) 10 (jsmnCall (fun _ => false) 10 jsmnInit (lit "12")).1
      (lit "123")).1.tokens.length = 2 ∧
    (jsmnParse (fun _ => false) 10 (lit "123")).toOption.map Prod.fst = some 1 := by
  decide +kernel

end Vmon
