import Vmon.Jsmn.Lexemes
import Vmon.Lib.Nesting

/-!
# What the tokenizer says of a text

The tokenizer keeps no stack: it finds the container that a bracket closes by going back through
its flat table. It still reads what a reader with a stack reads. `readText` is that reader: it
needs no table, so it never runs out of one, and it knows nothing of `toksuper` and of what lies
before the table. On every text and with every table, `jsmn_parse` says what the reader says, or
that the table is too small (`jsmnParse_eq_read`).

The counting mode, without a table, matches no brackets, and counts the same tokens.

## Main definitions

* `readChar`, `readLoop`, `readText` — the reader.
* `tableVerdict` — what follows for a table of some size.
* `jsmnParse_nested` — the tokens are apart or nested.
* `jsmnCountLoop`, `jsmnCount` — `jsmn_parse` where `tokens` is `NULL`.
-/

namespace Vmon

theorem except_map_eq_error {ε α β : Type} {x : Except ε α} {f : α → β} {e : ε} :
    x.map f = .error e ↔ x = .error e := by
  cases x <;> simp [Except.map]

/-! ## The reader -/

/-- What character `c` at `pos` does, with `rest` after it, and how many bytes of `rest` it
takes. -/
def readChar (s : Nesting JsmnType) (pos : ℕ) (c : UInt8) (rest : Bytes) :
    Except JsmnErr (Nesting JsmnType × ℕ) :=
  if c = braceOpen ∨ c = bracketOpen then
    .ok (s.push (if c = braceOpen then .object else .array) pos, 0)
  else if c = braceClose ∨ c = bracketClose then
    match s.pop (pos + 1) with
    | none => .error .inval
    | some (o, s') =>
      if o.label = (if c = braceClose then .object else .array) then .ok (s', 0) else .error .inval
  else if c = quote then
    (jsmnParseString 0 rest).map fun n => (s.leaf .string (pos + 1) (pos + 1 + n), n + 1)
  else if Json.isWs c ∨ c = colon ∨ c = comma then .ok (s, 0)
  else
    (jsmnParsePrimitive (c :: rest)).map fun n => (s.leaf .primitive pos (pos + n), n - 1)

/-- The reader on the bytes from `pos` on, the first `skip` of which the last character took, with
the error it ends in, if any. -/
def readLoop : Bytes → ℕ → ℕ → Nesting JsmnType → Nesting JsmnType × Option JsmnErr
  | [], _, _, s => (s, if s.opened.isEmpty then none else some .part)
  | _ :: rest, skip + 1, pos, s => readLoop rest skip (pos + 1) s
  | c :: rest, 0, pos, s =>
    if c = 0 then (s, if s.opened.isEmpty then none else some .part)
    else
      match readChar s pos c rest with
      | .error e => (s, some e)
      | .ok (s', skip) => readLoop rest skip (pos + 1) s'

def readText (js : Bytes) : Nesting JsmnType × Option JsmnErr := readLoop js 0 0 .empty

/-- The type and the bounds of a token. -/
def JsmnTok.bounds (tok : JsmnTok) : JsmnType × ℤ × ℤ := (tok.type, tok.start, tok.end_)

/-- The same of a span, `-1` for the end of an open one. -/
def Span.bounds (s : Span JsmnType) : JsmnType × ℤ × ℤ :=
  (s.label, s.start, match s.stop with
    | none => -1
    | some stop => stop)

/-- What a table of `numTokens` tokens makes of a text that was read: it runs out before the error
of the text is met, or the error is met, or there is a table. -/
def tableVerdict (numTokens : ℕ) (r : Nesting JsmnType × Option JsmnErr) :
    Except JsmnErr (ℕ × List (JsmnType × ℤ × ℤ)) :=
  if numTokens < r.1.table.length then .error .nomem
  else
    match r.2 with
    | some e => .error e
    | none => .ok (r.1.table.length, r.1.table.map Span.bounds)

/-! ## The table -/

theorem lastTok_eq_none {q : JsmnTok → Bool} {tokens : List JsmnTok} (h : ∀ t ∈ tokens, q t = false) :
    lastTok q tokens = none := by
  induction tokens with
  | nil => rfl
  | cons t tokens ih =>
    rw [lastTok, ih fun t ht => h t (List.mem_cons_of_mem _ ht)]
    simp [h t List.mem_cons_self]

theorem lastTok_append {q : JsmnTok → Bool} {before after : List JsmnTok} {t : JsmnTok}
    (ht : q t = true) (hafter : ∀ t ∈ after, q t = false) :
    lastTok q (before ++ t :: after) = some before.length := by
  induction before with
  | nil => simp [lastTok, lastTok_eq_none hafter, ht]
  | cons b before ih => simp [lastTok, ih]

/-- Counting into a token moves no bounds. -/
theorem map_bounds_modify (tokens : List JsmnTok) (i : ℕ) :
    (tokens.modify i fun super => { super with size := super.size + 1 }).map JsmnTok.bounds =
      tokens.map JsmnTok.bounds := by
  apply List.ext_getElem? fun j => ?_
  rw [List.getElem?_map, List.getElem?_map, List.getElem?_modify]
  split <;> cases tokens[j]? <;> rfl

/-- The parser is where the reader is. -/
structure JsmnParser.Reads (p : JsmnParser) (s : Nesting JsmnType) (pos : ℕ) : Prop where
  pos_eq : p.pos = pos
  table : p.tokens.map JsmnTok.bounds = s.table.map Span.bounds
  count : p.count = p.tokens.length

namespace JsmnParser.Reads

variable {stray : ℕ → Bool} {numTokens pos : ℕ} {p p' : JsmnParser} {s s' : Nesting JsmnType}

theorem length_eq (H : p.Reads s pos) : p.tokens.length = s.table.length := by
  simpa using congrArg List.length H.table

/-- What is closed in the reader is closed in the table. -/
theorem isOpen_eq_false {toks : List JsmnTok} {spans : List (Span JsmnType)}
    (h : toks.map JsmnTok.bounds = spans.map Span.bounds)
    (hclosed : ∀ e ∈ spans, ∃ stop, e.stop = some stop) : ∀ t ∈ toks, t.isOpen = false := by
  intro t ht
  have hmem : t.bounds ∈ spans.map Span.bounds := by
    rw [← h]
    exact List.mem_map_of_mem ht
  obtain ⟨e, he, heq⟩ := List.mem_map.mp hmem
  obtain ⟨stop, hstop⟩ := hclosed e he
  simp only [Span.bounds, JsmnTok.bounds, hstop, Prod.mk.injEq] at heq
  have hend : t.end_ ≠ -1 := by omega
  simp [JsmnTok.isOpen, hend]

/-- A token more. -/
theorem add (H : p.Reads s pos) (numTokens : ℕ) (tok : JsmnTok) {e : Span JsmnType}
    (htok : tok.bounds = e.bounds) (hs' : s'.table = s.table ++ [e]) :
    (numTokens < s'.table.length ∧ p.add numTokens tok = .error .nomem) ∨
      ∃ p', p.add numTokens tok = .ok p' ∧ p'.Reads s' pos ∧ p'.tokens.length ≤ numTokens := by
  have hlen := H.length_eq
  unfold JsmnParser.add
  split
  · next hfull =>
    refine .inl ⟨?_, rfl⟩
    rw [hs', List.length_append, List.length_singleton]
    omega
  · next hroom =>
    refine .inr ⟨_, rfl, ⟨H.pos_eq, ?_, ?_⟩, ?_⟩
    · rw [hs', List.map_append, List.map_append, ← H.table, List.map_singleton,
        List.map_singleton, htok]
      cases p.toksuper with
      | none => rfl
      | some i => simp only [map_bounds_modify]
    · cases p.toksuper <;> simp [H.count]
    · cases p.toksuper <;> simp <;> omega

/-- A closing bracket. -/
theorem close (H : p.Reads s pos) (type : JsmnType) :
    match s.pop (pos + 1) with
    | none => p.closeTok type = .error .inval
    | some (o, s') =>
      if o.label = type then
        ∃ p', p.closeTok type = .ok p' ∧ p'.Reads s' pos ∧ p'.tokens.length = p.tokens.length
      else p.closeTok type = .error .inval := by
  cases hpop : s.pop (pos + 1) with
  | none =>
    have hopened : s.opened = [] := by
      rcases s with ⟨_ | _, inner⟩
      · rfl
      · cases hpop
    simp only [JsmnParser.closeTok,
      lastTok_eq_none (isOpen_eq_false H.table (Nesting.table_closed hopened))]
  | some r =>
    obtain ⟨o, s'⟩ := r
    obtain ⟨before, after, htable, hafter, htable'⟩ := Nesting.table_pop hpop
    -- the entry of the innermost open span, in the table of the parser
    have hsplit := H.table
    rw [htable, List.map_append, List.map_cons] at hsplit
    obtain ⟨toks, rest, htoks, hbefore, hrest⟩ := List.map_eq_append_iff.mp hsplit
    obtain ⟨t, toks', rfl, hbounds, htoks'⟩ := List.map_eq_cons_iff.mp hrest
    simp only [JsmnTok.bounds, Span.bounds, Prod.mk.injEq] at hbounds
    obtain ⟨htype, hstart, hend⟩ := hbounds
    have hopen : t.isOpen = true := by
      have hstart' : t.start ≠ -1 := by omega
      simp [JsmnTok.isOpen, hstart', hend]
    have hlast : lastTok JsmnTok.isOpen p.tokens = some toks.length := by
      rw [htoks]
      exact lastTok_append hopen (isOpen_eq_false htoks' hafter)
    have hat : p.tokens[toks.length]? = some t := by simp [htoks]
    simp only [JsmnParser.closeTok, hlast, hat, Option.map_some, ne_eq, Option.some.injEq, htype]
    by_cases hlabel : o.label = type
    · simp only [hlabel, not_true_eq_false, if_false, if_true]
      refine ⟨_, rfl, ⟨H.pos_eq, ?_, ?_⟩, List.length_modify ..⟩
      · simp [htable', htoks, modify_append, hbefore, htoks', JsmnTok.bounds, Span.bounds, htype,
          hstart, H.pos_eq]
      · simpa using H.count
    · simp [hlabel]

/-- Where a span is open, so is its token. -/
theorem any_isOpen (H : p.Reads s pos) : p.tokens.any JsmnTok.isOpen = !s.opened.isEmpty := by
  cases hopened : s.opened with
  | nil =>
    rw [List.any_eq_false.mpr fun t ht => by
      simp [isOpen_eq_false H.table (Nesting.table_closed hopened) t ht]]
    rfl
  | cons o os =>
    have hmem : (⟨o.label, o.start, none⟩ : Span JsmnType).bounds ∈ p.tokens.map JsmnTok.bounds := by
      rw [H.table]
      refine List.mem_map_of_mem ?_
      simp [Nesting.table, hopened, Nesting.tableOf]
    obtain ⟨t, ht, hbounds⟩ := List.mem_map.mp hmem
    simp only [JsmnTok.bounds, Span.bounds, Prod.mk.injEq] at hbounds
    have hstart : t.start ≠ -1 := by omega
    rw [List.any_eq_true.mpr ⟨t, ht, by simp [JsmnTok.isOpen, hstart, hbounds.2.2]⟩]
    rfl

/-- **One character.** The parser does what the reader does, unless it is out of tokens. -/
theorem char (H : p.Reads s pos) (stray : ℕ → Bool) (hroom : p.tokens.length ≤ numTokens) (c : UInt8)
    (rest : Bytes) :
    match readChar s pos c rest with
    | .error e => jsmnChar stray numTokens p c rest = .error e
    | .ok (s', n) =>
      (numTokens < s'.table.length ∧ jsmnChar stray numTokens p c rest = .error .nomem) ∨
        ∃ p', jsmnChar stray numTokens p c rest = .ok (p', n) ∧ p'.Reads s' pos ∧
          p'.tokens.length ≤ numTokens := by
  by_cases hopen : c = braceOpen ∨ c = bracketOpen
  · simp only [readChar, jsmnChar, if_pos hopen, JsmnParser.openTok]
    generalize (if c = braceOpen then JsmnType.object else JsmnType.array) = type
    rcases H.add numTokens { type := type, start := p.pos, end_ := -1, size := 0 }
      (by simp [JsmnTok.bounds, Span.bounds, H.pos_eq]) (s.table_push type pos) with
      ⟨hfull, hadd⟩ | ⟨p', hadd, H', hroom'⟩
    · exact .inl ⟨hfull, by rw [hadd]; rfl⟩
    · exact .inr ⟨{ p' with toksuper := some p.tokens.length }, by rw [hadd]; rfl,
        ⟨H'.pos_eq, H'.table, H'.count⟩, hroom'⟩
  by_cases hclose : c = braceClose ∨ c = bracketClose
  · simp only [readChar, jsmnChar, if_neg hopen, if_pos hclose]
    generalize (if c = braceClose then JsmnType.object else JsmnType.array) = type
    have hpop := H.close type
    cases hs : s.pop (pos + 1) with
    | none =>
      simp only [hs] at hpop ⊢
      rw [hpop]
      rfl
    | some r =>
      obtain ⟨o, s'⟩ := r
      simp only [hs] at hpop ⊢
      split at hpop
      · next hlabel =>
        obtain ⟨p', hp', H', hlen'⟩ := hpop
        simp only [if_pos hlabel]
        exact .inr ⟨p', by rw [hp']; rfl, H', hlen' ▸ hroom⟩
      · next hlabel =>
        simp only [if_neg hlabel]
        rw [hpop]
        rfl
  by_cases hquote : c = quote
  · simp only [readChar, jsmnChar, if_neg hopen, if_neg hclose, if_pos hquote]
    cases jsmnParseString 0 rest with
    | error e => rfl
    | ok n =>
      rcases H.add numTokens
        { type := .string, start := p.pos + 1, end_ := p.pos + 1 + n, size := 0 }
        (by simp [JsmnTok.bounds, Span.bounds, H.pos_eq])
        (s.table_leaf .string (pos + 1) (pos + 1 + n)) with
        ⟨hfull, hadd⟩ | ⟨p', hadd, H', hroom'⟩
      · refine .inl ⟨hfull, ?_⟩
        change (p.add numTokens _).bind _ = _
        rw [hadd]
        rfl
      · refine .inr ⟨p', ?_, H', hroom'⟩
        change (p.add numTokens _).bind _ = _
        rw [hadd]
        rfl
  by_cases hmark : Json.isWs c ∨ c = colon ∨ c = comma
  · simp only [readChar, if_neg hopen, if_neg hclose, if_neg hquote, if_pos hmark]
    simp only [jsmnChar, if_neg hopen, if_neg hclose, if_neg hquote]
    split
    · exact .inr ⟨p, rfl, H, hroom⟩
    split
    · exact .inr ⟨_, rfl, ⟨H.pos_eq, H.table, H.count⟩, hroom⟩
    split
    · rcases commaTok_eq stray p with hcomma | ⟨i, -, hcomma⟩ <;> rw [hcomma]
      · exact .inr ⟨p, rfl, H, hroom⟩
      · exact .inr ⟨_, rfl, ⟨H.pos_eq, H.table, H.count⟩, hroom⟩
    · simp_all
  · simp only [readChar, if_neg hopen, if_neg hclose, if_neg hquote, if_neg hmark]
    rw [not_or, not_or] at hmark
    simp only [jsmnChar, if_neg hopen, if_neg hclose, if_neg hquote, if_neg hmark.1,
      if_neg hmark.2.1, if_neg hmark.2.2]
    cases jsmnParsePrimitive (c :: rest) with
    | error e => rfl
    | ok n =>
      rcases H.add numTokens
        { type := .primitive, start := p.pos, end_ := p.pos + n, size := 0 }
        (by simp [JsmnTok.bounds, Span.bounds, H.pos_eq]) (s.table_leaf .primitive pos (pos + n)) with
        ⟨hfull, hadd⟩ | ⟨p', hadd, H', hroom'⟩
      · refine .inl ⟨hfull, ?_⟩
        change (p.add numTokens _).bind _ = _
        rw [hadd]
        rfl
      · refine .inr ⟨p', ?_, H', hroom'⟩
        change (p.add numTokens _).bind _ = _
        rw [hadd]
        rfl

end JsmnParser.Reads

/-! ## The text -/

/-- What a character does to the spans. -/
inductive ReadSteps (s : Nesting JsmnType) (pos : ℕ) (c : UInt8) (rest : Bytes) :
    Nesting JsmnType → ℕ → Prop
  | push (type : JsmnType) (htype : type = .object ∨ type = .array) :
      ReadSteps s pos c rest (s.push type pos) 0
  | pop {o : OpenSpan JsmnType} {s' : Nesting JsmnType} (hpop : s.pop (pos + 1) = some (o, s')) :
      ReadSteps s pos c rest s' 0
  | string {n : ℕ} (hn : jsmnParseString 0 rest = .ok n) :
      ReadSteps s pos c rest (s.leaf .string (pos + 1) (pos + 1 + n)) (n + 1)
  | skip : ReadSteps s pos c rest s 0
  | primitive {n : ℕ} (hn : jsmnParsePrimitive (c :: rest) = .ok n) :
      ReadSteps s pos c rest (s.leaf .primitive pos (pos + n)) (n - 1)

theorem readChar_cases {s s' : Nesting JsmnType} {pos n : ℕ} {c : UInt8} {rest : Bytes}
    (h : readChar s pos c rest = .ok (s', n)) : ReadSteps s pos c rest s' n := by
  unfold readChar at h
  split at h
  · cases h
    exact .push _ (by split <;> simp)
  · split at h
    · split at h
      · cases h
      · next o s'' hpop =>
        generalize (if c = braceClose then JsmnType.object else JsmnType.array) = type at h
        split at h
        · cases h
          exact .pop hpop
        · cases h
    · split at h
      · obtain ⟨m, hm, heq⟩ := except_map_eq_ok.mp h
        cases heq
        exact .string hm
      · split at h
        · cases h
          exact .skip
        · obtain ⟨m, hm, heq⟩ := except_map_eq_ok.mp h
          cases heq
          exact .primitive hm

theorem readChar_length {s s' : Nesting JsmnType} {pos n : ℕ} {c : UInt8} {rest : Bytes}
    (h : readChar s pos c rest = .ok (s', n)) : s.table.length ≤ s'.table.length := by
  cases readChar_cases h with
  | push => simp [Nesting.table_push]
  | pop hpop =>
    obtain ⟨before, after, htable, -, htable'⟩ := Nesting.table_pop hpop
    simp [htable, htable']
  | string => simp [Nesting.table_leaf]
  | skip => exact le_rfl
  | primitive => simp [Nesting.table_leaf]

theorem readLoop_length (js : Bytes) (skip pos : ℕ) (s : Nesting JsmnType) :
    s.table.length ≤ (readLoop js skip pos s).1.table.length := by
  induction js generalizing skip pos s with
  | nil => exact le_rfl
  | cons c rest ih =>
    cases skip with
    | succ skip => exact ih skip (pos + 1) s
    | zero =>
      rw [readLoop]
      split
      · exact le_rfl
      · split
        · exact le_rfl
        · next hread => exact (readChar_length hread).trans (ih _ _ _)

/-- The end of `jsmn_parse`. -/
def jsmnFinish (p : JsmnParser) : Except JsmnErr (ℕ × List JsmnTok) :=
  if p.tokens.any JsmnTok.isOpen then .error .part else .ok (p.count, p.tokens)

theorem jsmnParse_eq_finish (stray : ℕ → Bool) (numTokens : ℕ) (js : Bytes) :
    jsmnParse stray numTokens js = (jsmnLoop stray numTokens js 0 jsmnInit).bind jsmnFinish := by
  unfold jsmnParse
  cases jsmnLoop stray numTokens js 0 jsmnInit <;> rfl

/-- The table as far as it can be said of the text alone. -/
def JsmnTok.outline (r : ℕ × List JsmnTok) : ℕ × List (JsmnType × ℤ × ℤ) :=
  (r.1, r.2.map JsmnTok.bounds)

/-- The text ends, and what is open is missing. -/
theorem finish_eq {numTokens pos : ℕ} {p : JsmnParser} {s : Nesting JsmnType} (H : p.Reads s pos)
    (hroom : p.tokens.length ≤ numTokens) :
    (jsmnFinish p).map JsmnTok.outline =
      tableVerdict numTokens (s, if s.opened.isEmpty then none else some .part) := by
  have hlen := H.length_eq
  have hnot : ¬numTokens < s.table.length := by omega
  rw [jsmnFinish, H.any_isOpen]
  cases s.opened.isEmpty with
  | true => simp [tableVerdict, hnot, Except.map, JsmnTok.outline, H.count, hlen, H.table]
  | false => simp [tableVerdict, hnot, Except.map]

/-- **The parser and the reader**, from related states on. -/
theorem jsmnLoop_eq_read (stray : ℕ → Bool) {numTokens : ℕ} (js : Bytes) {skip pos : ℕ}
    {p : JsmnParser} {s : Nesting JsmnType} (H : p.Reads s pos) (hroom : p.tokens.length ≤ numTokens) :
    ((jsmnLoop stray numTokens js skip p).bind jsmnFinish).map JsmnTok.outline =
      tableVerdict numTokens (readLoop js skip pos s) := by
  induction js generalizing skip pos p s with
  | nil => exact finish_eq H hroom
  | cons c rest ih =>
    have hnext : ∀ {p' : JsmnParser} {s' : Nesting JsmnType}, p'.Reads s' pos →
        ({ p' with pos := p.pos + 1 } : JsmnParser).Reads s' (pos + 1) := by
      intro p' s' H'
      exact ⟨by rw [H.pos_eq], H'.table, H'.count⟩
    cases skip with
    | succ skip => exact ih (hnext H) hroom
    | zero =>
      rw [jsmnLoop, readLoop]
      split
      · exact finish_eq H hroom
      · have hchar := H.char stray hroom c rest
        cases hread : readChar s pos c rest with
        | error e =>
          rw [hread] at hchar
          simp only at hchar ⊢
          rw [hchar, tableVerdict, if_neg (by rw [← H.length_eq]; omega)]
          rfl
        | ok r =>
          obtain ⟨s', n⟩ := r
          rw [hread] at hchar
          simp only at hchar ⊢
          rcases hchar with ⟨hfull, hnomem⟩ | ⟨p', hp', H', hroom'⟩
          · have hgrow := readLoop_length rest n (pos + 1) s'
            rw [hnomem, tableVerdict, if_pos (lt_of_lt_of_le hfull hgrow)]
            rfl
          · rw [hp']
            exact ih (hnext H') hroom'

/-- **`jsmn_parse` says what a reader with a stack says**, on every text and with every table. -/
theorem jsmnParse_eq_read (stray : ℕ → Bool) (numTokens : ℕ) (js : Bytes) :
    (jsmnParse stray numTokens js).map JsmnTok.outline = tableVerdict numTokens (readText js) := by
  rw [jsmnParse_eq_finish]
  exact jsmnLoop_eq_read stray js ⟨rfl, rfl, rfl⟩ (Nat.zero_le _)

/-! ## The tokens -/

theorem readLoop_inOrder (js : Bytes) {skip pos : ℕ} {s : Nesting JsmnType}
    (h : s.InOrder (fun type => type = .object ∨ type = .array) (pos + skip))
    (hskip : skip ≤ js.length) :
    (readLoop js skip pos s).1.InOrder (fun type => type = .object ∨ type = .array)
      (pos + js.length) := by
  induction js generalizing skip pos s with
  | nil => exact h.mono (Nat.add_le_add_left hskip pos)
  | cons c rest ih =>
    have hlen : pos + (c :: rest).length = pos + 1 + rest.length := by
      rw [List.length_cons]
      omega
    cases skip with
    | succ skip =>
      rw [readLoop, hlen]
      refine ih ?_ (by simpa using hskip)
      rwa [Nat.add_assoc, Nat.add_comm 1 skip]
    | zero =>
      rw [readLoop]
      split
      · exact h.mono (by omega)
      · split
        · exact h.mono (by omega)
        · next s' n hread =>
          rw [hlen]
          have hnext : s'.InOrder (fun type => type = .object ∨ type = .array) (pos + 1 + n) ∧
              n ≤ rest.length := by
            cases readChar_cases hread with
            | push type htype => exact ⟨(h.push htype le_rfl).mono (by omega), Nat.zero_le _⟩
            | pop hpop => exact ⟨h.pop (by omega) hpop, Nat.zero_le _⟩
            | string hm =>
              obtain ⟨body, post, rfl, hbody, -⟩ := jsmnParseString_eq_ok hm
              refine ⟨(h.leaf (by omega) (by omega)).mono (by omega), ?_⟩
              simp
              omega
            | skip => exact ⟨h.mono (by omega), Nat.zero_le _⟩
            | primitive hm =>
              have hle := jsmnParsePrimitive_le hm
              rw [List.length_cons] at hle
              exact ⟨(h.leaf (by omega) (by omega)).mono (by omega), by omega⟩
          exact ih hnext.1 hnext.2

/-- Without an error nothing is left open. -/
theorem readLoop_opened {js : Bytes} {skip pos : ℕ} {s : Nesting JsmnType}
    (h : (readLoop js skip pos s).2 = none) : (readLoop js skip pos s).1.opened = [] := by
  have hend : ∀ s' : Nesting JsmnType, (if s'.opened.isEmpty then none else some JsmnErr.part) = none →
      s'.opened = [] := by
    intro s' hs'
    cases hopened : s'.opened with
    | nil => rfl
    | cons o os => simp [hopened] at hs'
  induction js generalizing skip pos s with
  | nil => exact hend s h
  | cons c rest ih =>
    cases skip with
    | succ skip => exact ih h
    | zero =>
      rw [readLoop] at h ⊢
      split at h
      · next hc =>
        rw [if_pos hc]
        exact hend s h
      · next hc =>
        rw [if_neg hc]
        split at h
        · cases h
        · exact ih h

/-- **The tokens of a text** are apart or one lies inside the other, and only objects and arrays
have others inside. -/
theorem jsmnParse_nested {stray : ℕ → Bool} {numTokens n : ℕ} {js : Bytes} {tokens : List JsmnTok}
    (h : jsmnParse stray numTokens js = .ok (n, tokens)) :
    tokens.Pairwise fun a b =>
      a.end_ ≤ b.start ∨ a.isContainer ∧ a.start ≤ b.start ∧ b.end_ ≤ a.end_ := by
  have hread := jsmnParse_eq_read stray numTokens js
  rw [h, tableVerdict] at hread
  split at hread
  · cases hread
  split at hread
  · cases hread
  next hnone =>
  simp only [Except.map, JsmnTok.outline, Except.ok.injEq, Prod.mk.injEq] at hread
  have horder : (readText js).1.InOrder (fun type => type = .object ∨ type = .array) (0 + js.length) :=
    readLoop_inOrder js (Nat.le_refl 0) (Nat.zero_le _)
  obtain ⟨-, hlaminar⟩ := Nesting.laminar horder (readLoop_opened hnone)
  -- the same of the bounds, which the table of the parser shares
  have hbounds : (tokens.map JsmnTok.bounds).Pairwise fun a b =>
      a.2.2 ≤ b.2.1 ∨ (a.1 = .object ∨ a.1 = .array) ∧ a.2.1 ≤ b.2.1 ∧ b.2.2 ≤ a.2.2 := by
    rw [hread.2, List.pairwise_map]
    refine hlaminar.imp ?_
    rintro ⟨la, sa, ea⟩ ⟨lb, sb, eb⟩ ⟨stop, stop', rfl, rfl, hor⟩
    simpa [Span.bounds] using hor
  rw [List.pairwise_map] at hbounds
  refine hbounds.imp fun {a b} hor => ?_
  simpa [JsmnTok.bounds, JsmnTok.isContainer, or_comm] using hor

/-- The tokens of `[[1],"a"]`. -/
theorem jsmnParse_nested_arrays :
    let tokens : List JsmnTok :=
      [⟨.array, 0, 9, 2⟩, ⟨.array, 1, 4, 1⟩, ⟨.primitive, 2, 3, 0⟩, ⟨.string, 6, 7, 0⟩]
    jsmnParse (fun _ => false) 4 (lit "[[1],\"a\"]") = .ok (4, tokens) ∧
      tokens.Pairwise fun a b =>
        a.end_ ≤ b.start ∨ a.isContainer ∧ a.start ≤ b.start ∧ b.end_ ≤ a.end_ := by
  intro tokens
  have hparse : jsmnParse (fun _ => false) 4 (lit "[[1],\"a\"]") = .ok (4, tokens) := by
    decide +kernel
  exact ⟨hparse, jsmnParse_nested hparse⟩

/-! ## Counting -/

/-- What character `c` does where there is no table: the tokens that start there, and how many
bytes of `rest` it takes. -/
def jsmnCountChar (c : UInt8) (rest : Bytes) : Except JsmnErr (ℕ × ℕ) :=
  if c = braceOpen ∨ c = bracketOpen then .ok (1, 0)
  else if c = braceClose ∨ c = bracketClose then .ok (0, 0)
  else if c = quote then (jsmnParseString 0 rest).map fun n => (1, n + 1)
  else if Json.isWs c then .ok (0, 0)
  else if c = colon then .ok (0, 0)
  else if c = comma then .ok (0, 0)
  else (jsmnParsePrimitive (c :: rest)).map fun n => (1, n - 1)

/-- The loop of `jsmn_parse` where `tokens` is `NULL`. -/
def jsmnCountLoop : Bytes → ℕ → ℕ → Except JsmnErr ℕ
  | [], _, count => .ok count
  | _ :: rest, skip + 1, count => jsmnCountLoop rest skip count
  | c :: rest, 0, count =>
    if c = 0 then .ok count
    else
      match jsmnCountChar c rest with
      | .error e => .error e
      | .ok (k, skip) => jsmnCountLoop rest skip (count + k)

/-- `jsmn_parse` where `tokens` is `NULL`: no token is handed out, so none is open at the end. -/
def jsmnCount (js : Bytes) : Except JsmnErr ℕ := jsmnCountLoop js 0 0

/-- A string needs no table. -/
theorem jsmnParseString_ne_nomem (hex : ℕ) (rest : Bytes) :
    jsmnParseString hex rest ≠ .error .nomem := by
  induction hex, rest using jsmnParseString.induct with
  | case1 hex => simp [jsmnParseString]
  | case2 hex rest => simp [jsmnParseString_cons]
  | case3 hex c rest hc hhex hdigit ih =>
    rw [jsmnParseString_cons, if_neg hc, if_pos hhex, if_pos hdigit]
    exact fun h => ih (except_map_eq_error.mp h)
  | case4 hex c rest hc hhex hdigit =>
    rw [jsmnParseString_cons, if_neg hc, if_pos hhex, if_neg hdigit]
    simp
  | case5 hex rest hhex hc =>
    rw [jsmnParseString_cons, if_neg hc, if_neg hhex, if_pos rfl]
    simp
  | case6 hex hhex hc hquote =>
    rw [jsmnParseString_cons, if_neg hc, if_neg hhex, if_neg hquote, if_pos rfl]
    simp
  | case7 hex hhex e rest he hc hquote ih =>
    rw [jsmnParseString_cons, if_neg hc, if_neg hhex, if_neg hquote, if_pos rfl]
    simp only [he, if_true]
    exact fun h => ih (except_map_eq_error.mp h)
  | case8 hex hhex rest hc hquote he ih =>
    rw [jsmnParseString_cons, if_neg hc, if_neg hhex, if_neg hquote, if_pos rfl]
    simp only [he, if_true, if_false]
    exact fun h => ih (except_map_eq_error.mp h)
  | case9 hex hhex e rest he hu hc hquote =>
    rw [jsmnParseString_cons, if_neg hc, if_neg hhex, if_neg hquote, if_pos rfl]
    simp [he, hu]
  | case10 hex c rest hc hhex hquote hback ih =>
    rw [jsmnParseString_cons, if_neg hc, if_neg hhex, if_neg hquote, if_neg hback]
    exact fun h => ih (except_map_eq_error.mp h)

/-- Nor does a primitive. -/
theorem jsmnParsePrimitive_ne_nomem (js : Bytes) : jsmnParsePrimitive js ≠ .error .nomem := by
  induction js with
  | nil => simp [jsmnParsePrimitive]
  | cons c rest ih =>
    rw [jsmnParsePrimitive]
    split
    · simp
    split
    · simp
    · exact fun h => ih (except_map_eq_error.mp h)

/-- One character without a table: it counts what the reader adds, and fails only where the
reader fails. -/
theorem jsmnCountChar_read (s : Nesting JsmnType) (pos : ℕ) (c : UInt8) (rest : Bytes) :
    match readChar s pos c rest with
    | .error e => e ≠ .nomem
    | .ok (s', n) => ∃ k, jsmnCountChar c rest = .ok (k, n) ∧ s'.table.length = s.table.length + k := by
  unfold readChar jsmnCountChar
  by_cases hopen : c = braceOpen ∨ c = bracketOpen
  · simp only [if_pos hopen]
    exact ⟨1, rfl, by simp [Nesting.table_push]⟩
  by_cases hclose : c = braceClose ∨ c = bracketClose
  · simp only [if_neg hopen, if_pos hclose]
    generalize (if c = braceClose then JsmnType.object else JsmnType.array) = type
    cases hpop : s.pop (pos + 1) with
    | none => simp
    | some r =>
      obtain ⟨o, s'⟩ := r
      obtain ⟨before, after, htable, -, htable'⟩ := Nesting.table_pop hpop
      by_cases hlabel : o.label = type
      · simp only [if_pos hlabel]
        exact ⟨0, rfl, by simp [htable, htable']⟩
      · simp [hlabel]
  by_cases hquote : c = quote
  · simp only [if_neg hopen, if_neg hclose, if_pos hquote]
    have hne := jsmnParseString_ne_nomem 0 rest
    cases hm : jsmnParseString 0 rest with
    | error e => exact fun he => hne (by rw [hm, he])
    | ok m => exact ⟨1, rfl, by simp [Nesting.table_leaf]⟩
  by_cases hmark : Json.isWs c ∨ c = colon ∨ c = comma
  · simp only [if_neg hopen, if_neg hclose, if_neg hquote, if_pos hmark]
    refine ⟨0, ?_, rfl⟩
    rcases hmark with hws | hcolon | hcomma
    · simp [hws]
    · simp [hcolon]
    · simp [hcomma]
  · simp only [if_neg hopen, if_neg hclose, if_neg hquote, if_neg hmark]
    rw [not_or, not_or] at hmark
    simp only [if_neg hmark.1, if_neg hmark.2.1, if_neg hmark.2.2]
    have hne := jsmnParsePrimitive_ne_nomem (c :: rest)
    cases hm : jsmnParsePrimitive (c :: rest) with
    | error e => exact fun he => hne (by rw [hm, he])
    | ok m => exact ⟨1, rfl, by simp [Nesting.table_leaf]⟩

/-- The count only grows. -/
theorem jsmnCountLoop_le {js : Bytes} {skip count n : ℕ} (h : jsmnCountLoop js skip count = .ok n) :
    count ≤ n := by
  induction js generalizing skip count with
  | nil =>
    cases h
    exact le_rfl
  | cons c rest ih =>
    cases skip with
    | succ skip => exact ih h
    | zero =>
      rw [jsmnCountLoop] at h
      split at h
      · cases h
        exact le_rfl
      · split at h
        · cases h
        · exact (Nat.le_add_right _ _).trans (ih h)

/-- What counting says of the reader, from some place of the text on. Where the reader meets a
bracket that closes nothing, counting goes on. -/
def CountSays (count : Except JsmnErr ℕ) (r : Nesting JsmnType × Option JsmnErr) : Prop :=
  r.2 ≠ some .nomem ∧
    match count with
    | .error _ => r.2 ≠ none
    | .ok n => r.1.table.length ≤ n ∧ (r.2 = none → r.1.table.length = n)

theorem jsmnCountLoop_says (js : Bytes) (skip pos : ℕ) (s : Nesting JsmnType) :
    CountSays (jsmnCountLoop js skip s.table.length) (readLoop js skip pos s) := by
  have hend : ∀ s : Nesting JsmnType, CountSays (.ok s.table.length)
      (s, if s.opened.isEmpty then none else some .part) := by
    intro s
    refine ⟨?_, le_rfl, fun _ => rfl⟩
    cases s.opened.isEmpty <;> simp
  induction js generalizing skip pos s with
  | nil => exact hend s
  | cons c rest ih =>
    cases skip with
    | succ skip => exact ih skip (pos + 1) s
    | zero =>
      rw [jsmnCountLoop, readLoop]
      split
      · exact hend s
      · have hchar := jsmnCountChar_read s pos c rest
        cases hread : readChar s pos c rest with
        | error e =>
          rw [hread] at hchar
          simp only at hchar ⊢
          refine ⟨by simpa using hchar, ?_⟩
          cases hcount : jsmnCountChar c rest with
          | error _ => simp
          | ok r =>
            simp only
            cases hrest : jsmnCountLoop rest r.2 (s.table.length + r.1) with
            | error _ => simp
            | ok n =>
              have hle := jsmnCountLoop_le hrest
              exact ⟨by omega, by simp⟩
        | ok r =>
          obtain ⟨s', n⟩ := r
          rw [hread] at hchar
          obtain ⟨k, hcount, hlen⟩ := hchar
          rw [hcount]
          simp only
          rw [← hlen]
          exact ih n (pos + 1) s'

/-- **Counting first.** A table with as many tokens as were counted is never too small, no other
number of tokens is ever handed out, and where counting fails there is no table. -/
theorem jsmnCount_two_pass (stray : ℕ → Bool) (js : Bytes) :
    match jsmnCount js with
    | .error _ => ∀ numTokens, ∃ e, jsmnParse stray numTokens js = .error e
    | .ok n =>
      (∀ numTokens, n ≤ numTokens → jsmnParse stray numTokens js ≠ .error .nomem) ∧
        ∀ numTokens m tokens, jsmnParse stray numTokens js = .ok (m, tokens) →
          m = n ∧ tokens.length = n := by
  obtain ⟨hnomem, hsays⟩ : CountSays (jsmnCount js) (readText js) :=
    jsmnCountLoop_says js 0 0 .empty
  have hparse := fun numTokens => jsmnParse_eq_read stray numTokens js
  cases hcount : jsmnCount js with
  | error e =>
    rw [hcount] at hsays
    intro numTokens
    have hread := hparse numTokens
    cases hp : jsmnParse stray numTokens js with
    | error e => exact ⟨e, rfl⟩
    | ok r =>
      rw [hp, tableVerdict] at hread
      split at hread
      · cases hread
      split at hread
      · cases hread
      · exact absurd ‹_› hsays
  | ok n =>
    rw [hcount] at hsays
    obtain ⟨hle, heq⟩ := hsays
    refine ⟨fun numTokens hn hp => ?_, fun numTokens m tokens hp => ?_⟩
    · have hread := hparse numTokens
      rw [hp, tableVerdict, if_neg (by omega)] at hread
      split at hread
      · next e he =>
        cases hread
        exact hnomem he
      · cases hread
    · have hread := hparse numTokens
      rw [hp, tableVerdict] at hread
      split at hread
      · cases hread
      split at hread
      · cases hread
      · next hnone =>
        simp only [Except.map, JsmnTok.outline, Except.ok.injEq, Prod.mk.injEq] at hread
        have hlen := congrArg List.length hread.2
        rw [List.length_map, List.length_map] at hlen
        exact ⟨by rw [hread.1, heq hnone], by rw [hlen, heq hnone]⟩

end Vmon
