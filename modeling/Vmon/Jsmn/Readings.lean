import Mathlib.Data.List.TakeWhile
import Vmon.Jsmn.Trees

/-!
# The readings of a text

A text spells one tree at most. Its first lexeme is a function of the text, since a string ends
at its quote and a primitive at a delimiter, and the lexemes of a tree come back as the tree.

## Main definitions

* `Separated` — lexemes that can be told apart.
* `firstLexeme` — the first lexeme of a text.
* `MembersText` — a text of some members, as between the braces of an object.
-/

namespace Vmon

/-! ### Lexemes -/

/-- The bytes that are lexemes. -/
def marks : Bytes := [braceOpen, braceClose, bracketOpen, bracketClose, colon, comma]

def Lexeme.Readable : Lexeme → Prop
  | .mark c => c ∈ marks
  | .string s => IsBody s
  | .primitive w => Tree.Primitive w

/-- What stands after a primitive ends it. -/
def Lexeme.EndedBy : Lexeme → Bytes → Prop
  | .primitive _, rest => ∃ c more, rest = c :: more ∧ Delimits c
  | _, _ => True

/-- Readable lexemes, each primitive in front of a mark that ends it. -/
def Separated : List Lexeme → Prop
  | [] => True
  | .primitive w :: ls => Tree.Primitive w ∧ (∃ c ms, ls = .mark c :: ms ∧ Delimits c) ∧ Separated ls
  | l :: ls => l.Readable ∧ Separated ls

/-- The lexeme that the bytes start with. -/
def firstLexeme : Bytes → Option Lexeme
  | [] => none
  | c :: rest =>
    if c ∈ marks then some (.mark c)
    else if c = quote then (jsmnParseString 0 rest).toOption.map fun n => .string (rest.take n)
    else (jsmnParsePrimitive (c :: rest)).toOption.map fun n => .primitive ((c :: rest).take n)

theorem Lexeme.Readable.head {l : Lexeme} (h : l.Readable) :
    ∃ c more, l.text = c :: more ∧ Json.isWs c = false := by
  cases l with
  | mark c =>
    have hmarks : ∀ c ∈ marks, Json.isWs c = false := by decide
    exact ⟨c, [], rfl, hmarks c h⟩
  | string s => exact ⟨quote, s ++ [quote], rfl, rfl⟩
  | primitive w =>
    obtain ⟨hne, hbytes⟩ := h
    cases w with
    | nil => exact absurd rfl hne
    | cons c w =>
      refine ⟨c, w, rfl, ?_⟩
      have hdelim := (hbytes c List.mem_cons_self).1.1
      simp only [Delimits, not_or] at hdelim
      simpa using hdelim.2.2.1

/-- **A readable lexeme is told from what follows.** -/
theorem firstLexeme_append {l : Lexeme} (h : l.Readable) {rest : Bytes} (hrest : l.EndedBy rest) :
    firstLexeme (l.text ++ rest) = some l := by
  cases l with
  | mark c => exact if_pos h
  | string s =>
    have hquote : quote ∉ marks := by decide
    have hbody := h rest
    simp [Lexeme.text, firstLexeme, hquote, hbody, Except.toOption]
  | primitive w =>
    obtain ⟨hne, hbytes⟩ := h
    obtain ⟨d, more, rfl, hd⟩ := hrest
    have hlen := @jsmnParsePrimitive_eq w more d (fun b hb => (hbytes b hb).1) hd
    cases w with
    | nil => exact absurd rfl hne
    | cons c w =>
      obtain ⟨⟨hdelim, -⟩, hother⟩ := hbytes c List.mem_cons_self
      have hmarks : ∀ c ∈ marks, c ∈ [braceOpen, bracketOpen, quote] ∨ Delimits c := by decide
      have hmark : c ∉ marks := fun hc => (hmarks c hc).elim hother hdelim
      have hquote : c ≠ quote := by
        rintro rfl
        exact hother (by decide)
      rw [List.cons_append] at hlen
      simp [Lexeme.text, firstLexeme, hmark, hquote, hlen, Except.toOption]

/-! ### Texts -/

/-- The white space in front of a lexeme. -/
theorem Spaced.dropWhile_cons {l : Lexeme} {ls : List Lexeme} {text : Bytes}
    (h : Spaced (l :: ls) text) (hl : l.Readable) :
    ∃ rest, Spaced ls rest ∧ text.dropWhile Json.isWs = l.text ++ rest := by
  cases h with
  | @cons w rest _ _ hw hrest =>
    refine ⟨rest, hrest, ?_⟩
    obtain ⟨c, more, htext, hc⟩ := hl.head
    rw [List.append_assoc, List.dropWhile_append_of_pos hw, htext, List.cons_append,
      List.dropWhile_cons_of_neg (by simp [hc])]

theorem Spaced.dropWhile_nil {text : Bytes} (h : Spaced [] text) :
    text.dropWhile Json.isWs = [] := by
  cases h with
  | nil hw => exact List.dropWhile_eq_nil_iff.mpr hw

theorem Separated.head {l : Lexeme} {ls : List Lexeme} (h : Separated (l :: ls)) :
    l.Readable ∧ Separated ls := by
  cases l with
  | primitive w => exact ⟨h.1, h.2.2⟩
  | _ => exact h

/-- What stands in a text after the first of its lexemes ends it. -/
theorem Separated.endedBy {l : Lexeme} {ls : List Lexeme} {rest : Bytes} (h : Separated (l :: ls))
    (hrest : Spaced ls rest) : l.EndedBy rest := by
  cases l with
  | primitive w =>
    obtain ⟨-, ⟨c, ms, rfl, hc⟩, -⟩ := h
    exact Lexes.delimited hc hrest
  | _ => trivial

/-- **A text spells one list of lexemes** at most. -/
theorem spaced_unique {ls ls' : List Lexeme} {text : Bytes} (h : Spaced ls text)
    (h' : Spaced ls' text) (hs : Separated ls) (hs' : Separated ls') : ls = ls' := by
  have hnil : ∀ {l : Lexeme} {ls : List Lexeme} {text : Bytes}, Spaced [] text →
      Spaced (l :: ls) text → l.Readable → False := by
    intro l ls text hnil hcons hl
    obtain ⟨rest, -, hdrop⟩ := hcons.dropWhile_cons hl
    obtain ⟨c, more, htext, -⟩ := hl.head
    rw [hnil.dropWhile_nil, htext] at hdrop
    cases hdrop
  induction ls generalizing ls' text with
  | nil =>
    cases ls' with
    | nil => rfl
    | cons l' ls' => exact (hnil h h' hs'.head.1).elim
  | cons l ls ih =>
    cases ls' with
    | nil => exact (hnil h' h hs.head.1).elim
    | cons l' ls' =>
      obtain ⟨hl, hls⟩ := hs.head
      obtain ⟨hl', hls'⟩ := hs'.head
      obtain ⟨rest, hrest, hdrop⟩ := h.dropWhile_cons hl
      obtain ⟨rest', hrest', hdrop'⟩ := h'.dropWhile_cons hl'
      rw [hdrop] at hdrop'
      have hfirst := firstLexeme_append hl (hs.endedBy hrest)
      rw [hdrop', firstLexeme_append hl' (hs'.endedBy hrest'), Option.some.injEq] at hfirst
      subst hfirst
      rw [List.append_cancel_left hdrop'] at hrest
      rw [ih hrest hrest' hls hls']

theorem Separated.mark {c : UInt8} {ls : List Lexeme} (hc : c ∈ marks) (h : Separated ls) :
    Separated (.mark c :: ls) :=
  ⟨hc, h⟩

theorem Separated.string {s : Bytes} {ls : List Lexeme} (hs : IsBody s) (h : Separated ls) :
    Separated (.string s :: ls) :=
  ⟨hs, h⟩

/-! ### Trees -/

namespace Tree

/-- Things with a comma in front of each. -/
def afterComma (ls : List (List Lexeme)) : List Lexeme := ls.flatMap (.mark comma :: ·)

theorem commas_nil : commas [] = [] := rfl

theorem commas_cons (l : List Lexeme) (ls : List (List Lexeme)) :
    commas (l :: ls) = l ++ afterComma ls := by
  induction ls generalizing l with
  | nil => simp [commas, afterComma]
  | cons m ls ih =>
    have hrest := ih m
    rw [commas] at hrest
    simp [commas, List.intercalate_cons_cons, hrest, afterComma]

mutual

/-- The lexemes of a tree can be told apart, and from the mark after it. -/
theorem separated : ∀ {t : Tree} {c : UInt8} {ls : List Lexeme}, t.Readable → Delimits c →
    Separated (.mark c :: ls) → Separated (t.lexemes ++ .mark c :: ls)
  | .primitive w, c, ls, ht, hc, hls => ⟨ht, ⟨c, ls, rfl, hc⟩, hls⟩
  | .string s, c, ls, ht, hc, hls => ⟨ht, hls⟩
  | .array [], c, ls, ht, hc, hls => (hls.mark (by decide)).mark (by decide)
  | .array (t :: ts), c, ls, ht, hc, hls => by
    obtain ⟨d, ms, heq, hd, hms⟩ := separated_items ht.2 (hls.mark (c := bracketClose) (by decide))
      (by decide)
    have hitem := separated ht.1 hd hms
    rw [← heq] at hitem
    simpa [lexemes, itemLexemes, commas_cons] using hitem.mark (c := bracketOpen) (by decide)
  | .object [], c, ls, ht, hc, hls => (hls.mark (by decide)).mark (by decide)
  | .object ((k, t) :: ms), c, ls, ht, hc, hls => by
    obtain ⟨d, ns, heq, hd, hns⟩ := separated_members ht.2.2
      (hls.mark (c := braceClose) (by decide)) (by decide)
    have hvalue := separated ht.2.1 hd hns
    rw [← heq] at hvalue
    have hmember := Separated.string ht.1 (hvalue.mark (c := colon) (by decide))
    simpa [lexemes, memberLexemes, commas_cons] using hmember.mark (c := braceOpen) (by decide)

/-- So can those of the items after a tree. -/
theorem separated_items : ∀ {ts : List Tree} {c : UInt8} {ls : List Lexeme},
    AllItems IsBody Primitive ts → Separated (.mark c :: ls) → Delimits c →
    ∃ d ms, afterComma (itemLexemes ts) ++ .mark c :: ls = .mark d :: ms ∧ Delimits d ∧
      Separated (.mark d :: ms)
  | [], c, ls, _, hls, hc => ⟨c, ls, rfl, hc, hls⟩
  | t :: ts, c, ls, ht, hls, hc => by
    obtain ⟨d, ms, heq, hd, hms⟩ := separated_items ht.2 hls hc
    have hitem := separated ht.1 hd hms
    rw [← heq] at hitem
    exact ⟨comma, _, by simp [afterComma, itemLexemes], by decide, hitem.mark (by decide)⟩

theorem separated_members : ∀ {ms : List (Bytes × Tree)} {c : UInt8} {ls : List Lexeme},
    AllMembers IsBody Primitive ms → Separated (.mark c :: ls) → Delimits c →
    ∃ d ns, afterComma (memberLexemes ms) ++ .mark c :: ls = .mark d :: ns ∧ Delimits d ∧
      Separated (.mark d :: ns)
  | [], c, ls, _, hls, hc => ⟨c, ls, rfl, hc, hls⟩
  | (k, t) :: ms, c, ls, ht, hls, hc => by
    obtain ⟨d, ns, heq, hd, hns⟩ := separated_members ht.2.2 hls hc
    have hvalue := separated ht.2.1 hd hns
    rw [← heq] at hvalue
    have hmember := Separated.string ht.1 (hvalue.mark (c := colon) (by decide))
    exact ⟨comma, _, by simp [afterComma, memberLexemes], by decide, hmember.mark (by decide)⟩

end

/-- A tree does not start with a closing bracket. -/
theorem lexemes_ne_close {t : Tree} {c : UInt8} (hc : c = bracketClose ∨ c = braceClose)
    (ls ms : List Lexeme) : t.lexemes ++ ls ≠ .mark c :: ms := by
  intro h
  cases t with
  | array items =>
    simp only [lexemes, List.cons_append, List.cons.injEq, Lexeme.mark.injEq] at h
    rcases hc with rfl | rfl <;> exact absurd h.1 (by decide)
  | object members =>
    simp only [lexemes, List.cons_append, List.cons.injEq, Lexeme.mark.injEq] at h
    rcases hc with rfl | rfl <;> exact absurd h.1 (by decide)
  | _ => simp [lexemes] at h

mutual

/-- **The lexemes of a tree come back as the tree**, whatever follows them. -/
theorem lexemes_inj : ∀ {t t' : Tree} {ls ls' : List Lexeme},
    t.lexemes ++ ls = t'.lexemes ++ ls' → t = t' ∧ ls = ls'
  | .primitive w, t', ls, ls', h => by cases t' <;> simp_all [lexemes]
  | .string s, t', ls, ls', h => by cases t' <;> simp_all [lexemes]
  | .array items, .primitive w, ls, ls', h => by simp [lexemes] at h
  | .array items, .string s, ls, ls', h => by simp [lexemes] at h
  | .array items, .object members, ls, ls', h => by
    simp [lexemes] at h
    exact absurd h.1 (by decide)
  | .array [], .array [], ls, ls', h => by simpa [lexemes] using h
  | .array [], .array (t' :: ts'), ls, ls', h => by
    simp [lexemes, itemLexemes, commas_cons] at h
    exact absurd h.symm (lexemes_ne_close (.inl rfl) _ _)
  | .array (t :: ts), .array [], ls, ls', h => by
    simp [lexemes, itemLexemes, commas_cons] at h
    exact absurd h (lexemes_ne_close (.inl rfl) _ _)
  | .array (t :: ts), .array (t' :: ts'), ls, ls', h => by
    simp only [lexemes, itemLexemes, commas_cons, List.cons_append, List.append_assoc,
      List.nil_append, List.cons.injEq, true_and] at h
    obtain ⟨rfl, hrest⟩ := lexemes_inj h
    obtain ⟨rfl, rfl⟩ := itemLexemes_inj hrest
    exact ⟨rfl, rfl⟩
  | .object members, .primitive w, ls, ls', h => by simp [lexemes] at h
  | .object members, .string s, ls, ls', h => by simp [lexemes] at h
  | .object members, .array items, ls, ls', h => by
    simp [lexemes] at h
    exact absurd h.1 (by decide)
  | .object [], .object [], ls, ls', h => by simpa [lexemes] using h
  | .object [], .object (m' :: ms'), ls, ls', h => by
    simp [lexemes, memberLexemes, commas_cons, commas_nil] at h
  | .object (m :: ms), .object [], ls, ls', h => by
    simp [lexemes, memberLexemes, commas_cons, commas_nil] at h
  | .object ((k, t) :: ms), .object ((k', t') :: ms'), ls, ls', h => by
    simp only [lexemes, memberLexemes, commas_cons, List.cons_append, List.append_assoc,
      List.nil_append, List.cons.injEq, true_and, Lexeme.string.injEq] at h
    obtain ⟨rfl, h⟩ := h
    obtain ⟨rfl, hrest⟩ := lexemes_inj h
    obtain ⟨rfl, rfl⟩ := memberLexemes_inj hrest
    exact ⟨rfl, rfl⟩

theorem itemLexemes_inj : ∀ {ts ts' : List Tree} {ls ls' : List Lexeme},
    afterComma (itemLexemes ts) ++ .mark bracketClose :: ls =
      afterComma (itemLexemes ts') ++ .mark bracketClose :: ls' → ts = ts' ∧ ls = ls'
  | [], [], ls, ls', h => by simpa [afterComma, itemLexemes] using h
  | [], t' :: ts', ls, ls', h => by
    simp [afterComma, itemLexemes] at h
    exact absurd h.1 (by decide)
  | t :: ts, [], ls, ls', h => by
    simp [afterComma, itemLexemes] at h
    exact absurd h.1 (by decide)
  | t :: ts, t' :: ts', ls, ls', h => by
    simp only [itemLexemes, afterComma, List.flatMap_cons, List.cons_append, List.append_assoc,
      List.cons.injEq, true_and] at h
    obtain ⟨rfl, hrest⟩ := lexemes_inj h
    obtain ⟨rfl, rfl⟩ := itemLexemes_inj hrest
    exact ⟨rfl, rfl⟩

theorem memberLexemes_inj : ∀ {ms ms' : List (Bytes × Tree)} {ls ls' : List Lexeme},
    afterComma (memberLexemes ms) ++ .mark braceClose :: ls =
      afterComma (memberLexemes ms') ++ .mark braceClose :: ls' → ms = ms' ∧ ls = ls'
  | [], [], ls, ls', h => by simpa [afterComma, memberLexemes] using h
  | [], m' :: ms', ls, ls', h => by
    simp [afterComma, memberLexemes] at h
    exact absurd h.1 (by decide)
  | m :: ms, [], ls, ls', h => by
    simp [afterComma, memberLexemes] at h
    exact absurd h.1 (by decide)
  | (k, t) :: ms, (k', t') :: ms', ls, ls', h => by
    simp only [memberLexemes, afterComma, List.flatMap_cons, List.cons_append, List.append_assoc,
      List.cons.injEq, true_and, Lexeme.string.injEq] at h
    obtain ⟨rfl, h⟩ := h
    obtain ⟨rfl, hrest⟩ := lexemes_inj h
    obtain ⟨rfl, rfl⟩ := memberLexemes_inj hrest
    exact ⟨rfl, rfl⟩

end

end Tree

/-- **A text is that of one object** at most. -/
theorem spaced_object_unique {ms ms' : List (Bytes × Tree)} {text : Bytes}
    (hread : (Tree.object ms).Readable) (hread' : (Tree.object ms').Readable)
    (h : Spaced (Tree.object ms).lexemes text) (h' : Spaced (Tree.object ms').lexemes text) :
    ms = ms' := by
  have hsep : ∀ {t : Tree}, t.Readable → Separated (t.lexemes ++ [.mark comma]) := fun ht =>
    Tree.separated ht (by decide) (Separated.mark (by decide) trivial)
  have hend : Spaced [.mark comma] [comma] := spaced_compact [.mark comma]
  have hlexemes := spaced_unique (h.append hend) (h'.append hend) (hsep hread) (hsep hread')
  obtain ⟨heq, -⟩ := Tree.lexemes_inj hlexemes
  exact Tree.object.inj heq

/-! ### Members -/

/-- The text of some members, as between the braces of an object. -/
structure MembersText (ms : List (Bytes × Tree)) (text : Bytes) : Prop where
  readable : (Tree.object ms).Readable
  spaced : Spaced (Tree.commas (Tree.memberLexemes ms)) text

/-- **A text is that of one list of members** at most. -/
theorem MembersText.unique {ms ms' : List (Bytes × Tree)} {text : Bytes} (h : MembersText ms text)
    (h' : MembersText ms' text) : ms = ms' := by
  have hbraces : ∀ {ms : List (Bytes × Tree)}, MembersText ms text →
      Spaced (Tree.object ms).lexemes ([braceOpen] ++ text ++ [braceClose]) := fun h =>
    ((spaced_compact [.mark braceOpen]).append h.spaced).append (spaced_compact [.mark braceClose])
  exact spaced_object_unique h.readable h'.readable (hbraces h) (hbraces h')

/-- The lexemes of one member. -/
def memberText (m : Bytes × Tree) : List Lexeme := .string m.1 :: .mark colon :: m.2.lexemes

theorem memberLexemes_eq (ms : List (Bytes × Tree)) : Tree.memberLexemes ms = ms.map memberText := by
  induction ms with
  | nil => rfl
  | cons m ms ih => rw [Tree.memberLexemes, ih, List.map_cons, memberText]

/-- **Texts with a comma between them** are the text of things with a comma between them. -/
theorem spaced_commas {α : Type} {f : α → List Lexeme} {text : α → Bytes} {xs : List α}
    (h : ∀ x ∈ xs, Spaced (f x) (text x)) :
    Spaced (Tree.commas (xs.map f)) ([comma].intercalate (xs.map text)) := by
  induction xs with
  | nil => exact .nil (w := []) (by decide)
  | cons x xs ih =>
    obtain ⟨hx, hxs⟩ := List.forall_mem_cons.mp h
    cases xs with
    | nil => simpa [Tree.commas] using hx
    | cons y xs =>
      have hall := (hx.append (spaced_compact [.mark comma])).append (ih hxs)
      simpa [Tree.commas, List.intercalate_cons_cons, Lexeme.text] using hall

end Vmon
