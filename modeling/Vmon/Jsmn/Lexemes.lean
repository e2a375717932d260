import Vmon.Jsmn.Tables

/-!
# Texts as lexemes

What the tokenizer makes of a text does not depend on its white space. `Spaced` writes a
list of lexemes with white space between them, an `Outline` is a parser state without its
positions, and `Lexes` says how lexemes change it. Each lexeme has its lemma, and lexemes
in a row compose.

A primitive ends only at the delimiter after it, so its lemma takes the two together.

## Main definitions

* `Lexeme`, `Spaced` — the texts.
* `Entry`, `Outline`, `Outlined` — the states.
* `Lexes` — what lexemes do, wherever they stand.
-/

namespace Vmon

/-! ### Texts -/

/-- A structural character, a string between quotes, or a number or literal. -/
inductive Lexeme
  | mark (c : UInt8)
  | string (s : Bytes)
  | primitive (w : Bytes)

def Lexeme.text : Lexeme → Bytes
  | .mark c => [c]
  | .string s => quote :: (s ++ [quote])
  | .primitive w => w

/-- The texts of some lexemes, with white space around each of them. -/
inductive Spaced : List Lexeme → Bytes → Prop
  | nil {w : Bytes} (hw : Json.Ws w) : Spaced [] w
  | cons {w text : Bytes} {l : Lexeme} {ls : List Lexeme} (hw : Json.Ws w) (h : Spaced ls text) :
      Spaced (l :: ls) (w ++ l.text ++ text)

theorem spaced_append {ls ms : List Lexeme} {text : Bytes} (h : Spaced (ls ++ ms) text) :
    ∃ a b, text = a ++ b ∧ Spaced ls a ∧ Spaced ms b := by
  induction ls generalizing text with
  | nil => exact ⟨[], text, rfl, .nil (by decide), h⟩
  | cons l ls ih =>
    cases h with
    | cons hw h =>
      obtain ⟨a, b, rfl, ha, hb⟩ := ih h
      exact ⟨_, b, by simp, .cons hw ha, hb⟩

/-- White space in front of a text belongs to it. -/
theorem Spaced.pad {ls : List Lexeme} {w text : Bytes} (hw : Json.Ws w) (h : Spaced ls text) :
    Spaced ls (w ++ text) := by
  cases h with
  | nil hv => exact .nil (hw.append hv)
  | @cons v rest l ls hv h =>
    have hpad := Spaced.cons (l := l) (hw.append hv) h
    simpa using hpad

theorem Spaced.append {ls ms : List Lexeme} {a b : Bytes} (ha : Spaced ls a) (hb : Spaced ms b) :
    Spaced (ls ++ ms) (a ++ b) := by
  induction ha with
  | nil hw => exact hb.pad hw
  | @cons w rest l ls hw _ ih =>
    have hall := Spaced.cons (l := l) hw ih
    simpa using hall

/-- No white space at all. -/
theorem spaced_compact (ls : List Lexeme) : Spaced ls (ls.flatMap Lexeme.text) := by
  induction ls with
  | nil => exact .nil (by decide)
  | cons l ls ih => exact .cons (w := []) (by decide) ih

/-! ### Outlines -/

/-- A token without its place: `text` is that of a string. -/
structure Entry where
  type : JsmnType
  size : ℕ
  isOpen : Bool
  text : Bytes

namespace Entry

def bump (e : Entry) : Entry := { e with size := e.size + 1 }

def close (e : Entry) : Entry := { e with isOpen := false }

/-- A string of the text. -/
def string (size : ℕ) (s : Bytes) : Entry :=
  { type := .string, size := size, isOpen := false, text := s }

/-- A number or literal. -/
def primitive (w : Bytes) : Entry :=
  { type := .primitive, size := 0, isOpen := false, text := w }

/-- A container whose bracket is still open. -/
def opened (type : JsmnType) (size : ℕ) : Entry :=
  { type := type, size := size, isOpen := true, text := [] }

def isContainer (e : Entry) : Bool := e.type = .array || e.type = .object

/-- The token `tok` of the text `js` is the entry. -/
structure Fits (js : Bytes) (e : Entry) (tok : JsmnTok) : Prop where
  type : tok.type = e.type
  size : tok.size = e.size
  isOpen : tok.isOpen = e.isOpen
  text : e.type = .string → Spans js tok e.text

variable {js : Bytes} {e : Entry} {tok : JsmnTok}

theorem Fits.bump (h : e.Fits js tok) : e.bump.Fits js { tok with size := tok.size + 1 } :=
  ⟨h.type, by rw [h.size, Entry.bump], h.isOpen, h.text⟩

/-- A bracket closes a container only. -/
theorem Fits.close (h : e.Fits js tok) (htype : e.type ≠ .string) (pos : ℕ) :
    e.close.Fits js { tok with end_ := pos + 1 } := by
  refine ⟨h.type, h.size, ?_, fun hs => absurd hs htype⟩
  have hpos : ((pos : ℤ) + 1 == -1) = false := by simpa using (by omega : (pos : ℤ) + 1 ≠ -1)
  simp [JsmnTok.isOpen, Entry.close, hpos]

/-- The text may go on. -/
theorem Fits.append (h : e.Fits js tok) (more : Bytes) : e.Fits (js ++ more) tok :=
  ⟨h.type, h.size, h.isOpen, fun hs => (h.text hs).append more⟩

theorem Fits.isContainer (h : e.Fits js tok) : tok.isContainer = e.isContainer := by
  simp [JsmnTok.isContainer, Entry.isContainer, h.type]

end Entry

/-- The entries so far, and `toksuper`. -/
structure Outline where
  entries : List Entry
  super : Option ℕ

/-- The state of the parser has the outline. -/
structure Outlined (js : Bytes) (o : Outline) (p : JsmnParser) : Prop where
  entries : List.Forall₂ (Entry.Fits js) o.entries p.tokens
  super : p.toksuper = o.super

theorem forall₂_modify {α β : Type} {R : α → β → Prop} {f : α → α} {g : β → β} {as : List α}
    {bs : List β} (h : List.Forall₂ R as bs) (hfg : ∀ a b, R a b → R (f a) (g b)) (i : ℕ) :
    List.Forall₂ R (as.modify i f) (bs.modify i g) := by
  induction h generalizing i with
  | nil => simp
  | cons hab h ih =>
    cases i with
    | zero => simpa using ⟨hfg _ _ hab, h⟩
    | succ i => simpa using ⟨hab, ih i⟩

theorem modify_append {α : Type} (f : α → α) (as bs : List α) (a : α) :
    (as ++ a :: bs).modify as.length f = as ++ f a :: bs := by
  induction as with
  | nil => rfl
  | cons b as ih => simpa using ih

namespace Outline

/-- What the next token does to `toksuper`. -/
def counted (o : Outline) : List Entry :=
  match o.super with
  | some i => o.entries.modify i Entry.bump
  | none => o.entries

@[simp] theorem length_counted (o : Outline) : o.counted.length = o.entries.length := by
  unfold counted
  split <;> simp

end Outline

section Lexemes

variable {stray : ℕ → Bool} {numTokens : ℕ} {js : Bytes} {o o' : Outline} {p : JsmnParser}

theorem Outlined.length_eq (h : Outlined js o p) : p.tokens.length = o.entries.length :=
  h.entries.length_eq.symm

/-- A token is added. -/
theorem Outlined.add (h : Outlined js o p) (hroom : o.entries.length < numTokens) {e : Entry}
    {tok : JsmnTok} (htok : e.Fits js tok) :
    ∃ p', p.add numTokens tok = .ok p' ∧ p'.pos = p.pos ∧
      Outlined js { o with entries := o.counted ++ [e] } p' := by
  have hfull : ¬numTokens ≤ p.tokens.length := by
    rw [h.length_eq]
    omega
  have hcounted : List.Forall₂ (Entry.Fits js) o.counted (match p.toksuper with
      | some i => p.tokens.modify i fun super => { super with size := super.size + 1 }
      | none => p.tokens) := by
    rw [h.super, Outline.counted]
    cases o.super with
    | none => exact h.entries
    | some i => exact forall₂_modify h.entries (fun _ _ => Entry.Fits.bump) i
  have hadd : p.add numTokens tok = _ := if_neg hfull
  exact ⟨_, hadd, rfl, List.rel_append hcounted (.cons htok .nil), h.super⟩

/-- **What the lexemes do** to a parser, wherever they stand in a text. -/
def Lexes (stray : ℕ → Bool) (numTokens : ℕ) (ls : List Lexeme) (o o' : Outline) : Prop :=
  ∀ js before text after p, js = before ++ text ++ after → Spaced ls text →
    p.pos = before.length → Outlined js o p → ∃ p', p'.pos = (before ++ text).length ∧
      Outlined js o' p' ∧ jsmnLoop stray numTokens (text ++ after) 0 p =
        jsmnLoop stray numTokens after 0 p'

namespace Lexes

theorem trans {ls ms : List Lexeme} {o'' : Outline} (h : Lexes stray numTokens ls o o')
    (h' : Lexes stray numTokens ms o' o'') : Lexes stray numTokens (ls ++ ms) o o'' := by
  intro js before text after p hjs hspaced hpos hp
  obtain ⟨a, b, rfl, ha, hb⟩ := spaced_append hspaced
  obtain ⟨q, hqpos, hq, hloop⟩ := h js before a (b ++ after) p (by simp [hjs]) ha hpos hp
  obtain ⟨r, hrpos, hr, hloop'⟩ := h' js (before ++ a) b after q (by simp [hjs]) hb hqpos hq
  refine ⟨r, by simpa using hrpos, hr, ?_⟩
  rw [List.append_assoc, hloop, hloop']

/-- White space changes nothing but the position. -/
theorem space {w after : Bytes} (hw : Json.Ws w) (p : JsmnParser) :
    jsmnLoop stray numTokens (w ++ after) 0 p =
      jsmnLoop stray numTokens after 0 { p with pos := p.pos + w.length } := by
  induction w generalizing p with
  | nil => rfl
  | cons c w ih =>
    have hc : Json.isWs c = true := hw c List.mem_cons_self
    have hchar : c ≠ 0 ∧ jsmnChar stray numTokens p c (w ++ after) = .ok (p, 0) := by
      simp only [Json.isWs, Bool.or_eq_true, decide_eq_true_eq] at hc
      rcases hc with ((rfl | rfl) | rfl) | rfl <;> exact ⟨by decide, rfl⟩
    rw [List.cons_append, jsmnLoop, if_neg hchar.1, hchar.2]
    simp only [ih fun b hb => hw b (List.mem_cons_of_mem _ hb), List.length_cons]
    congr 2
    omega

theorem nil : Lexes stray numTokens [] o o := by
  intro js before text after p hjs hspaced hpos hp
  cases hspaced with
  | nil hw =>
    refine ⟨{ p with pos := p.pos + text.length }, ?_, ⟨hp.entries, hp.super⟩, space hw p⟩
    simp [hpos]

/-- A lexeme that lexes without white space lexes with it. -/
theorem single {l : Lexeme} (h : ∀ js before after p, js = before ++ l.text ++ after →
      p.pos = before.length → Outlined js o p → ∃ p', p'.pos = (before ++ l.text).length ∧
        Outlined js o' p' ∧ jsmnLoop stray numTokens (l.text ++ after) 0 p =
          jsmnLoop stray numTokens after 0 p') :
    Lexes stray numTokens [l] o o' := by
  intro js before text after p hjs hspaced hpos hp
  cases hspaced with
  | @cons w rest _ _ hw hrest =>
    cases hrest with
    | nil hrest =>
      obtain ⟨q, hqpos, hq, hloop⟩ := h js (before ++ w) (rest ++ after)
        { p with pos := p.pos + w.length } (by simp [hjs]) (by simp [hpos]) ⟨hp.entries, hp.super⟩
      refine ⟨{ q with pos := q.pos + rest.length }, ?_, ⟨hq.entries, hq.super⟩, ?_⟩
      · simp only [hqpos, List.length_append]
        omega
      · rw [List.append_assoc, List.append_assoc, space hw, hloop, space hrest]

/-- A structural character is one step of the loop. -/
theorem mark {c : UInt8} (hc : c ≠ 0) (h : ∀ js rest p, Outlined js o p → ∃ p',
      jsmnChar stray numTokens p c rest = .ok (p', 0) ∧ Outlined js o' p') :
    Lexes stray numTokens [.mark c] o o' := by
  apply single
  intro js before after p hjs hpos hp
  obtain ⟨q, hq, hout⟩ := h js after p hp
  refine ⟨{ q with pos := p.pos + 1 }, by simp [hpos, Lexeme.text], ⟨hout.entries, hout.super⟩, ?_⟩
  rw [Lexeme.text, List.singleton_append, jsmnLoop, if_neg hc, hq]

/-- The rest of a string is passed. -/
theorem skip (a after : Bytes) (p : JsmnParser) :
    jsmnLoop stray numTokens (a ++ after) a.length p =
      jsmnLoop stray numTokens after 0 { p with pos := p.pos + a.length } := by
  induction a generalizing p with
  | nil => rfl
  | cons c a ih =>
    rw [List.cons_append, List.length_cons, jsmnLoop, ih]
    congr 2
    change p.pos + 1 + a.length = p.pos + (a.length + 1)
    omega

/-- A string. -/
theorem string {s : Bytes} (hs : IsBody s) (hroom : o.entries.length < numTokens) :
    Lexes stray numTokens [.string s] o
      { o with entries := o.counted ++ [Entry.string 0 s] } := by
  apply single
  intro js before after p hjs hpos hp
  have hfits : (Entry.string 0 s).Fits js
      { type := .string, start := p.pos + 1, end_ := p.pos + 1 + s.length, size := 0 } := by
    refine ⟨rfl, rfl, ?_, fun _ => ⟨before, after, ?_, by simp [hpos], by simp [hpos, Entry.string]⟩⟩
    · have hend : ((p.pos : ℤ) + 1 + s.length == -1) = false := by
        simpa using (by omega : (p.pos : ℤ) + 1 + s.length ≠ -1)
      simp [JsmnTok.isOpen, Entry.string, hend]
    · simp [hjs, Lexeme.text, Entry.string]
  obtain ⟨q, hq, hqpos, hout⟩ := hp.add hroom hfits
  refine ⟨{ q with pos := p.pos + 1 + (s ++ [quote]).length }, ?_, ⟨hout.entries, hout.super⟩, ?_⟩
  · simp [hpos, Lexeme.text]
    omega
  · have hchar : jsmnChar stray numTokens p quote (s ++ quote :: after) =
        .ok (q, (s ++ [quote]).length) := by
      simp only [jsmnChar, hs after, show ¬(quote = braceOpen ∨ quote = bracketOpen) by decide,
        show ¬(quote = braceClose ∨ quote = bracketClose) by decide, if_false, if_true]
      simp only [bind, Except.bind, hq]
      simp [pure, Except.pure]
    have hsplit : Lexeme.text (.string s) ++ after = quote :: ((s ++ [quote]) ++ after) := by
      simp [Lexeme.text]
    have hsame : (s ++ [quote]) ++ after = s ++ quote :: after := by simp
    rw [hsplit, jsmnLoop, if_neg (by decide), hsame, hchar, ← hsame]
    simp only [skip]

/-- A text of lexemes that starts with a delimiter starts with a delimiter also where white
space stands before it. -/
theorem delimited {c : UInt8} {ls : List Lexeme} {text : Bytes} (hc : Delimits c)
    (h : Spaced (.mark c :: ls) text) : ∃ b rest, text = b :: rest ∧ Delimits b := by
  cases h with
  | @cons w rest _ _ hw _ =>
    cases w with
    | nil => exact ⟨c, rest, rfl, hc⟩
    | cons b w => exact ⟨b, _, rfl, .inr (.inr (.inl (hw b List.mem_cons_self)))⟩

/-- A primitive, with the delimiter that ends it. -/
theorem primitive {c : UInt8} {w : Bytes} {ls : List Lexeme} (hne : w ≠ [])
    (hw : ∀ b ∈ w, PrimitiveByte b) (hstart : ∀ b ∈ w, b ∉ [braceOpen, bracketOpen, quote])
    (hc : Delimits c) (hroom : o.entries.length < numTokens)
    (h : Lexes stray numTokens (.mark c :: ls)
      { o with entries := o.counted ++ [Entry.primitive w] } o') :
    Lexes stray numTokens (.primitive w :: .mark c :: ls) o o' := by
  intro js before text after p hjs hspaced hpos hp
  cases hspaced with
  | @cons space rest _ _ hspace hrest =>
    obtain ⟨b, w, rfl⟩ := List.exists_cons_of_ne_nil hne
    have hfits : (Entry.primitive (b :: w)).Fits js
        { type := .primitive, start := (p.pos + space.length : ℕ),
          end_ := (p.pos + space.length : ℕ) + (b :: w).length, size := 0 } := by
      have hend : (((p.pos + space.length : ℕ) : ℤ) + (b :: w).length == -1) = false := by
        simpa using (by omega : ((p.pos + space.length : ℕ) : ℤ) + (b :: w).length ≠ -1)
      exact ⟨rfl, rfl, by simp only [JsmnTok.isOpen, hend, Bool.and_false]; rfl, fun h => by cases h⟩
    have hp' : Outlined js o { p with pos := p.pos + space.length } := ⟨hp.entries, hp.super⟩
    obtain ⟨q, hq, -, hout⟩ := hp'.add hroom hfits
    obtain ⟨r, hrpos, hr, hloop⟩ := h js (before ++ space ++ (b :: w)) rest after
      { q with pos := p.pos + space.length + 1 + w.length } (by simpa [Lexeme.text] using hjs) hrest
      (by simp [hpos]; omega) ⟨hout.entries, hout.super⟩
    refine ⟨r, by simpa [Lexeme.text] using hrpos, hr, ?_⟩
    obtain ⟨d, tail, rfl, hd⟩ := delimited hc hrest
    have hn := @jsmnParsePrimitive_eq (b :: w) (tail ++ after) d hw hd
    obtain ⟨hdelim, hlow, -⟩ := hw b List.mem_cons_self
    have hfirst := hstart b List.mem_cons_self
    simp only [List.mem_cons, List.not_mem_nil, or_false, not_or] at hfirst
    simp only [Delimits, not_or] at hdelim
    have hchar : jsmnChar stray numTokens { p with pos := p.pos + space.length } b
        (w ++ d :: (tail ++ after)) = .ok (q, w.length) := by
      simp only [List.cons_append] at hn
      simp only [jsmnChar, hfirst.1, hfirst.2.1, hfirst.2.2, hdelim.2.1, hdelim.2.2.1,
        hdelim.2.2.2.1, hdelim.2.2.2.2.1, hdelim.2.2.2.2.2, or_false, if_false, hn, bind, Except.bind]
      rw [hq]
      simp [pure, Except.pure]
    have hsplit : space ++ Lexeme.text (.primitive (b :: w)) ++ d :: tail ++ after =
        space ++ b :: (w ++ d :: (tail ++ after)) := by simp [Lexeme.text]
    rw [hsplit, Lexes.space hspace, jsmnLoop, if_neg hdelim.1, hchar]
    simp only [skip]
    simpa using hloop

/-- An opening bracket. -/
theorem openMark {c : UInt8} {type : JsmnType}
    (hc : (c = braceOpen ∧ type = .object) ∨ (c = bracketOpen ∧ type = .array))
    (hroom : o.entries.length < numTokens) :
    Lexes stray numTokens [.mark c] o
      ⟨o.counted ++ [Entry.opened type 0], some o.entries.length⟩ := by
  apply mark (by rcases hc with ⟨rfl, -⟩ | ⟨rfl, -⟩ <;> decide)
  intro js rest p hp
  have hfits : (Entry.opened type 0).Fits js
      { type := type, start := p.pos, end_ := -1, size := 0 } := by
    refine ⟨rfl, rfl, ?_, fun hs => ?_⟩
    · simp [JsmnTok.isOpen, Entry.opened]
    · rcases hc with ⟨-, rfl⟩ | ⟨-, rfl⟩ <;> cases hs
  obtain ⟨q, hq, -, hout⟩ := hp.add hroom hfits
  refine ⟨{ q with toksuper := some p.tokens.length }, ?_, hout.entries, ?_⟩
  · rcases hc with ⟨rfl, rfl⟩ | ⟨rfl, rfl⟩
    all_goals
      simp only [jsmnChar, JsmnParser.openTok, true_or, or_true, if_true]
      simp only [show bracketOpen ≠ braceOpen by decide, if_false, hq, Except.map]
  · simp [hp.length_eq]

/-- A colon makes the last token count. -/
theorem colonMark (hne : o.entries ≠ []) :
    Lexes stray numTokens [.mark colon] o { o with super := some (o.entries.length - 1) } := by
  apply mark (by decide)
  intro js rest p hp
  have hne' : p.tokens ≠ [] := by
    rw [← List.length_pos_iff] at hne ⊢
    rwa [hp.length_eq]
  refine ⟨{ p with toksuper := p.lastIndex }, rfl, hp.entries, ?_⟩
  simp [JsmnParser.lastIndex, hne', hp.length_eq]

end Lexes

/-! ### Brackets that close, and commas -/

/-- `lastTok`, on entries. -/
def lastEntry (q : Entry → Bool) : List Entry → Option ℕ
  | [] => none
  | e :: es =>
    match lastEntry q es with
    | some i => some (i + 1)
    | none => if q e then some 0 else none

theorem lastTok_eq {q : JsmnTok → Bool} {q' : Entry → Bool} {es : List Entry} {toks : List JsmnTok}
    (hq : ∀ (e : Entry) (tok : JsmnTok), e.Fits js tok → q tok = q' e)
    (h : List.Forall₂ (Entry.Fits js) es toks) : lastTok q toks = lastEntry q' es := by
  induction h with
  | nil => rfl
  | @cons e tok es toks hfit _ ih =>
    cases hlast : lastEntry q' es <;> simp [lastTok, lastEntry, ih, hlast, hq _ _ hfit]

theorem lastEntry_eq_none {q : Entry → Bool} {es : List Entry} (hes : ∀ e ∈ es, q e = false) :
    lastEntry q es = none := by
  induction es with
  | nil => rfl
  | cons e es ih =>
    obtain ⟨he, hes⟩ := List.forall_mem_cons.mp hes
    simp [lastEntry, ih hes, he]

/-- An entry that does not count at the end. -/
theorem lastEntry_closed {q : Entry → Bool} {as : List Entry} {e : Entry} (he : q e = false) :
    lastEntry q (as ++ [e]) = lastEntry q as := by
  induction as with
  | nil => simp [lastEntry, he]
  | cons a as ih => simp [lastEntry, ih]

theorem lastEntry_append {q : Entry → Bool} {as bs : List Entry} {e : Entry} (he : q e = true)
    (hbs : ∀ b ∈ bs, q b = false) : lastEntry q (as ++ e :: bs) = some as.length := by
  induction as with
  | nil => simp [lastEntry, lastEntry_eq_none hbs, he]
  | cons a as ih => simp [lastEntry, ih]

/-- Tokens split as their entries do. -/
theorem forall₂_append_left {α β : Type} {R : α → β → Prop} {as bs : List α} {cs : List β}
    (h : List.Forall₂ R (as ++ bs) cs) :
    ∃ xs ys, cs = xs ++ ys ∧ List.Forall₂ R as xs ∧ List.Forall₂ R bs ys := by
  induction as generalizing cs with
  | nil => exact ⟨[], cs, rfl, .nil, h⟩
  | cons a as ih =>
    cases h with
    | cons hab h =>
      obtain ⟨xs, ys, rfl, hxs, hys⟩ := ih h
      exact ⟨_ :: xs, ys, rfl, .cons hab hxs, hys⟩

/-- The tokens around the one of an entry. -/
theorem forall₂_split {as bs : List Entry} {e : Entry} {toks : List JsmnTok}
    (h : List.Forall₂ (Entry.Fits js) (as ++ e :: bs) toks) :
    ∃ xs tok ys, toks = xs ++ tok :: ys ∧ xs.length = as.length ∧
      List.Forall₂ (Entry.Fits js) as xs ∧ e.Fits js tok ∧ List.Forall₂ (Entry.Fits js) bs ys := by
  obtain ⟨xs, rest, rfl, hxs, hrest⟩ := forall₂_append_left h
  obtain ⟨tok, ys, htok, hys, rfl⟩ := List.forall₂_cons_left_iff.mp hrest
  exact ⟨xs, tok, ys, rfl, hxs.length_eq.symm, hxs, htok, hys⟩

namespace Lexes

/-- A closing bracket goes with the last open one. -/
theorem closeMark {c : UInt8} {type : JsmnType} {as bs : List Entry} {e : Entry}
    {super : Option ℕ}
    (hc : (c = braceClose ∧ type = .object) ∨ (c = bracketClose ∧ type = .array))
    (htype : e.type = type) (he : e.isOpen = true) (hbs : ∀ b ∈ bs, b.isOpen = false) :
    Lexes stray numTokens [.mark c] ⟨as ++ e :: bs, super⟩
      ⟨as ++ e.close :: bs, lastEntry Entry.isOpen as⟩ := by
  apply mark (by rcases hc with ⟨rfl, -⟩ | ⟨rfl, -⟩ <;> decide)
  intro js rest p hp
  have hlast : lastTok JsmnTok.isOpen p.tokens = some as.length := by
    rw [lastTok_eq (fun _ _ h => h.isOpen) hp.entries]
    exact lastEntry_append he hbs
  obtain ⟨xs, tok, ys, htokens, hlen, hxs, htok, hys⟩ := forall₂_split hp.entries
  have hstring : e.type ≠ .string := by
    rw [htype]
    rcases hc with ⟨-, rfl⟩ | ⟨-, rfl⟩ <;> simp
  have hclosed := htok.close hstring p.pos
  have hmodify : p.tokens.modify as.length (fun tok => { tok with end_ := p.pos + 1 }) =
      xs ++ { tok with end_ := p.pos + 1 } :: ys := by
    rw [htokens, ← hlen, modify_append]
  have hsuper : lastTok JsmnTok.isOpen
      ((xs ++ { tok with end_ := (p.pos : ℤ) + 1 } :: ys).take (as.length + 1)) =
      lastEntry Entry.isOpen as := by
    have htake : (xs ++ { tok with end_ := (p.pos : ℤ) + 1 } :: ys).take (as.length + 1) =
        xs ++ [{ tok with end_ := (p.pos : ℤ) + 1 }] := by
      simp [List.take_append, hlen]
    rw [htake, lastTok_eq (fun _ _ h => h.isOpen) (List.rel_append hxs (.cons hclosed .nil))]
    exact lastEntry_closed rfl
  have hclose : p.closeTok type = .ok { p with
      tokens := xs ++ { tok with end_ := p.pos + 1 } :: ys
      toksuper := lastEntry Entry.isOpen as } := by
    have htype' : (p.tokens[as.length]?).map JsmnTok.type = some type := by
      rw [htokens, ← hlen, List.getElem?_append_right le_rfl]
      simp [htok.type, htype]
    simp only [JsmnParser.closeTok, hlast, htype', ne_eq, not_true_eq_false, if_false, hmodify,
      hsuper]
  refine ⟨{ p with
    tokens := xs ++ { tok with end_ := p.pos + 1 } :: ys
    toksuper := lastEntry Entry.isOpen as }, ?_, List.rel_append hxs (.cons hclosed hys), rfl⟩
  rcases hc with ⟨rfl, rfl⟩ | ⟨rfl, rfl⟩
  · have hchar : jsmnChar stray numTokens p braceClose rest = (p.closeTok .object).map (·, 0) := rfl
    rw [hchar, hclose]
    rfl
  · have hchar : jsmnChar stray numTokens p bracketClose rest = (p.closeTok .array).map (·, 0) := rfl
    rw [hchar, hclose]
    rfl

/-- A comma that a string comes before goes back to the container. -/
theorem commaMark {as bs : List Entry} {e : Entry} {j : ℕ}
    (hj : (e.isContainer = true ∧ j = as.length) ∨ (e.isContainer = false ∧
      lastEntry (fun e => e.isContainer && e.isOpen) (as ++ e :: bs) = some j)) :
    Lexes stray numTokens [.mark comma] ⟨as ++ e :: bs, some as.length⟩
      ⟨as ++ e :: bs, some j⟩ := by
  apply mark (by decide)
  intro js rest p hp
  obtain ⟨xs, tok, ys, htokens, hlen, -, htok, -⟩ := forall₂_split hp.entries
  have hsome : (p.tokens[as.length]?).any JsmnTok.isContainer = e.isContainer := by
    rw [htokens, ← hlen, List.getElem?_append_right le_rfl]
    simp [htok.isContainer]
  refine ⟨p.commaTok stray, rfl, ?_⟩
  rcases hj with ⟨he, rfl⟩ | ⟨he, hlast⟩
  · have hcomma : p.commaTok stray = p := by
      simp [JsmnParser.commaTok, hp.super, hsome, he]
    rwa [hcomma]
  · have hlast' : lastTok (fun tok => tok.isContainer && tok.isOpen) p.tokens = some j := by
      rw [← hlast]
      exact lastTok_eq (fun e tok h => by rw [h.isContainer, h.isOpen]) hp.entries
    have hcomma : p.commaTok stray = { p with toksuper := some j } := by
      simp [JsmnParser.commaTok, hp.super, hsome, he, hlast']
    rw [hcomma]
    exact ⟨hp.entries, rfl⟩

end Lexes

end Lexemes

end Vmon
