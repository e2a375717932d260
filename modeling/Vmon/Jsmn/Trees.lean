import Vmon.Jsmn.Lexemes

/-!
# The table of a JSON text

A `Tree` is a JSON value as it is spelled. The tokenizer makes a fixed table of it, whatever
the white space in its text: one entry for each node before those of its children, a container
counting its children and a key its value.

Within an object or array the state of the parser is known at each comma, so the lemma on a
value is stated for the value together with what stands after it.

## Main definitions

* `Tree`, `Tree.lexemes`, `Tree.entries` — values, their texts and their tables.
* `Tree.All` — what holds of the strings and primitives of a value.
* `FlatObject` — objects of strings and of arrays of strings.
-/

namespace Vmon

/-- A JSON value: the bodies of its strings and its primitives stand as they are spelled. -/
inductive Tree
  | primitive (w : Bytes)
  | string (s : Bytes)
  | array (items : List Tree)
  | object (members : List (Bytes × Tree))

namespace Tree

/-! ### Texts and tables -/

/-- Lexemes of several things with a comma between them. -/
def commas : List (List Lexeme) → List Lexeme := [Lexeme.mark comma].intercalate

mutual

def lexemes : Tree → List Lexeme
  | .primitive w => [.primitive w]
  | .string s => [.string s]
  | .array items => .mark bracketOpen :: commas (itemLexemes items) ++ [.mark bracketClose]
  | .object members => .mark braceOpen :: commas (memberLexemes members) ++ [.mark braceClose]

def itemLexemes : List Tree → List (List Lexeme)
  | [] => []
  | t :: ts => t.lexemes :: itemLexemes ts

def memberLexemes : List (Bytes × Tree) → List (List Lexeme)
  | [] => []
  | (k, t) :: ms => (.string k :: .mark colon :: t.lexemes) :: memberLexemes ms

end

mutual

def entries : Tree → List Entry
  | .primitive w => [Entry.primitive w]
  | .string s => [Entry.string 0 s]
  | .array items => (Entry.opened .array items.length).close :: itemEntries items
  | .object members => (Entry.opened .object members.length).close :: memberEntries members

def itemEntries : List Tree → List Entry
  | [] => []
  | t :: ts => t.entries ++ itemEntries ts

/-- A key counts its value. -/
def memberEntries : List (Bytes × Tree) → List Entry
  | [] => []
  | (k, t) :: ms => Entry.string 1 k :: (t.entries ++ memberEntries ms)

end

mutual

/-- Every string of the value, keys included, satisfies `P`, every primitive `Q`. -/
def All (P Q : Bytes → Prop) : Tree → Prop
  | .primitive w => Q w
  | .string s => P s
  | .array items => AllItems P Q items
  | .object members => AllMembers P Q members

def AllItems (P Q : Bytes → Prop) : List Tree → Prop
  | [] => True
  | t :: ts => t.All P Q ∧ AllItems P Q ts

def AllMembers (P Q : Bytes → Prop) : List (Bytes × Tree) → Prop
  | [] => True
  | (k, t) :: ms => P k ∧ t.All P Q ∧ AllMembers P Q ms

end

mutual

theorem All.imp {P P' Q Q' : Bytes → Prop} (hP : ∀ s, P s → P' s) (hQ : ∀ w, Q w → Q' w) :
    ∀ {t : Tree}, t.All P Q → t.All P' Q'
  | .primitive w, h => hQ w h
  | .string s, h => hP s h
  | .array _, h => AllItems.imp hP hQ h
  | .object _, h => AllMembers.imp hP hQ h

theorem AllItems.imp {P P' Q Q' : Bytes → Prop} (hP : ∀ s, P s → P' s) (hQ : ∀ w, Q w → Q' w) :
    ∀ {ts : List Tree}, AllItems P Q ts → AllItems P' Q' ts
  | [], _ => trivial
  | _ :: _, h => ⟨All.imp hP hQ h.1, AllItems.imp hP hQ h.2⟩

theorem AllMembers.imp {P P' Q Q' : Bytes → Prop} (hP : ∀ s, P s → P' s) (hQ : ∀ w, Q w → Q' w) :
    ∀ {ms : List (Bytes × Tree)}, AllMembers P Q ms → AllMembers P' Q' ms
  | [], _ => trivial
  | (k, _) :: _, h => ⟨hP k h.1, All.imp hP hQ h.2.1, AllMembers.imp hP hQ h.2.2⟩

end

mutual

/-- The containers of a whole value are closed. -/
theorem isOpen_entries : ∀ t : Tree, ∀ e ∈ t.entries, e.isOpen = false
  | .primitive w => by simp [entries, Entry.primitive]
  | .string s => by simp [entries, Entry.string]
  | .array items => List.forall_mem_cons.mpr ⟨rfl, isOpen_itemEntries items⟩
  | .object members => List.forall_mem_cons.mpr ⟨rfl, isOpen_memberEntries members⟩

theorem isOpen_itemEntries : ∀ ts : List Tree, ∀ e ∈ itemEntries ts, e.isOpen = false
  | [] => by simp [itemEntries]
  | t :: ts => List.forall_mem_append.mpr ⟨isOpen_entries t, isOpen_itemEntries ts⟩

theorem isOpen_memberEntries : ∀ ms : List (Bytes × Tree), ∀ e ∈ memberEntries ms, e.isOpen = false
  | [] => by simp [memberEntries]
  | (_, t) :: ms => List.forall_mem_cons.mpr
      ⟨rfl, List.forall_mem_append.mpr ⟨isOpen_entries t, isOpen_memberEntries ms⟩⟩

end

/-- The tokenizer reads the value: its strings are bodies and its primitives end where they do. -/
def Primitive (w : Bytes) : Prop :=
  w ≠ [] ∧ ∀ b ∈ w, PrimitiveByte b ∧ b ∉ [braceOpen, bracketOpen, quote]

abbrev Readable : Tree → Prop := All IsBody Primitive

/-- A value in the sense of the grammar. -/
abbrev IsJson : Tree → Prop := All Json.Chars Json.Scalar

/-- The bytes of numbers and literals. -/
def scalarBytes : Bytes := lit "0123456789+-.eEfalsnutr"

theorem primitive_of_scalar {w : Bytes} (hw : Json.Scalar w) : Primitive w := by
  have hbytes : ∀ b ∈ scalarBytes, PrimitiveByte b ∧ b ∉ [braceOpen, bracketOpen, quote] := by
    decide
  rcases hw with hw | hw
  · have hliteral : ∀ w ∈ [lit "false", lit "null", lit "true"],
        w ≠ [] ∧ ∀ b ∈ w, b ∈ scalarBytes := by decide
    exact ⟨(hliteral w hw).1, fun b hb => hbytes b ((hliteral w hw).2 b hb)⟩
  · refine ⟨hw.bytes.1, fun b hb => hbytes b ?_⟩
    rcases hw.bytes.2 b hb with h | h
    · have hdigit : ∀ d < 10, UInt8.ofNat (48 + d) ∈ scalarBytes := by decide
      simp only [isDigit, Bool.and_eq_true, decide_eq_true_eq, UInt8.le_iff_toNat_le] at h
      obtain ⟨hlow, hhigh⟩ : 48 ≤ b.toNat ∧ b.toNat ≤ 57 := h
      have hb := hdigit (b.toNat - 48) (by omega)
      rwa [Nat.add_sub_cancel' hlow, UInt8.ofNat_toNat] at hb
    · have hother : ∀ b ∈ lit "+-.eE", b ∈ scalarBytes := by decide
      exact hother b h

/-- **Every JSON value is read.** -/
theorem IsJson.readable {t : Tree} (h : t.IsJson) : t.Readable :=
  All.imp (fun _ => isBody_chars) (fun _ => primitive_of_scalar) h

end Tree

/-! ### Reading a tree -/

section Reading

variable {stray : ℕ → Bool} {numTokens : ℕ} {o o' : Outline}

/-- Counting leaves open what is open. -/
theorem lastEntry_counted (o : Outline) :
    lastEntry Entry.isOpen o.counted = lastEntry Entry.isOpen o.entries := by
  have hmodify : ∀ (es : List Entry) (i : ℕ),
      lastEntry Entry.isOpen (es.modify i Entry.bump) = lastEntry Entry.isOpen es := by
    intro es
    induction es with
    | nil => intro i; simp
    | cons e es ih =>
      intro i
      cases i with
      | zero => simp [lastEntry, Entry.bump]
      | succ i => simp [lastEntry, ih]
  unfold Outline.counted
  split
  · exact hmodify _ _
  · rfl

/-- Where the parser may count next after a value: where it did before, or into the container
that is open. -/
def AfterValue (o : Outline) (super : Option ℕ) : Prop :=
  super = o.super ∨ super = lastEntry Entry.isOpen o.entries

/-- In a container whose bracket is open, after the entries `as` before it and its own entries
`es`, with `k` things counted. -/
def inside (type : JsmnType) (as : List Entry) (k : ℕ) (es : List Entry) (super : Option ℕ) :
    Outline :=
  ⟨as ++ Entry.opened type k :: es, super⟩

/-- The container is the last open entry. -/
theorem lastEntry_inside {q : Entry → Bool} {type : JsmnType} {as es : List Entry} {k : ℕ}
    (super : Option ℕ) (hq : q (Entry.opened type k) = true) (hes : ∀ e ∈ es, q e = false) :
    lastEntry q (inside type as k es super).entries = some as.length :=
  lastEntry_append hq hes

/-- The next thing in a container is counted into it. -/
theorem counted_inside (type : JsmnType) (as : List Entry) (k : ℕ) (es : List Entry) :
    (inside type as k es (some as.length)).counted = as ++ Entry.opened type (k + 1) :: es :=
  modify_append Entry.bump as es (Entry.opened type k)

namespace Lexes

/-- What follows a whole value with the entries `es`, from its delimiter on. -/
def Then (stray : ℕ → Bool) (numTokens : ℕ) (c : UInt8) (ls : List Lexeme) (o o' : Outline)
    (es : List Entry) : Prop :=
  ∀ super, AfterValue o super → Lexes stray numTokens (.mark c :: ls) ⟨o.counted ++ es, super⟩ o'

/-- The key of a member and its colon: the value is counted into the key. -/
theorem key {as es : List Entry} {k : ℕ} {s : Bytes} (hs : IsBody s)
    (hroom : as.length + 1 + es.length < numTokens) :
    Lexes stray numTokens [.string s, .mark colon] (inside .object as k es (some as.length))
      (inside .object as (k + 1) (es ++ [Entry.string 0 s]) (some (as.length + (es.length + 1)))) := by
  have hstring : Lexes stray numTokens [.string s] (inside .object as k es (some as.length)) _ :=
    string hs (by simp [inside]; omega)
  have hcolon : Lexes stray numTokens [.mark colon]
      (inside .object as (k + 1) (es ++ [Entry.string 0 s]) (some as.length)) _ :=
    colonMark (by simp [inside])
  rw [counted_inside] at hstring
  apply hstring.trans
  simpa [inside, Nat.add_assoc] using hcolon

/-- The value of a key. -/
theorem counted_key (as : List Entry) (k : ℕ) (es : List Entry) (s : Bytes) :
    (inside .object as k (es ++ [Entry.string 0 s]) (some (as.length + (es.length + 1)))).counted =
      as ++ Entry.opened .object k :: (es ++ [Entry.string 1 s]) := by
  have hsplit := modify_append Entry.bump (as ++ Entry.opened .object k :: es) [] (Entry.string 0 s)
  simpa [Outline.counted, inside, Entry.bump, Entry.string] using hsplit

/-- After a member a comma goes back to the object. -/
theorem memberComma {as es : List Entry} {k : ℕ} {s : Bytes} {super : Option ℕ}
    {bs : List Entry} (hes : ∀ e ∈ es, e.isOpen = false) (hbs : ∀ e ∈ bs, e.isOpen = false)
    (hsuper : super = some (as.length + (es.length + 1)) ∨ super = some as.length) :
    Lexes stray numTokens [.mark comma] (inside .object as k (es ++ Entry.string 1 s :: bs) super)
      (inside .object as k (es ++ Entry.string 1 s :: bs) (some as.length)) := by
  rcases hsuper with rfl | rfl
  · -- the key is what counts, and it is no container
    have hlast : lastEntry (fun e => e.isContainer && e.isOpen)
        (inside .object as k (es ++ Entry.string 1 s :: bs) none).entries = some as.length := by
      apply lastEntry_inside none rfl
      intro e he
      simp only [List.mem_append, List.mem_cons] at he
      rcases he with he | rfl | he
      · simp [hes e he]
      · rfl
      · simp [hbs e he]
    have hcomma : Lexes stray numTokens [.mark comma]
        ⟨(as ++ Entry.opened .object k :: es) ++ Entry.string 1 s :: bs,
          some (as ++ Entry.opened .object k :: es).length⟩ _ :=
      commaMark (.inr ⟨rfl, by simpa [inside] using hlast⟩)
    simpa [inside, Nat.add_assoc] using hcomma
  · exact commaMark (.inl ⟨rfl, rfl⟩)

mutual

/-- **A value**, with what follows it. -/
theorem tree : ∀ {t : Tree} {o o' : Outline} {c : UInt8} {ls : List Lexeme}, t.Readable →
    Delimits c → o.entries.length + t.entries.length ≤ numTokens →
    Then stray numTokens c ls o o' t.entries →
    Lexes stray numTokens (t.lexemes ++ .mark c :: ls) o o'
  | .primitive w, o, o', c, ls, ht, hc, hroom, h => by
    have hw : ∀ b ∈ w, PrimitiveByte b := fun b hb => (ht.2 b hb).1
    have hstart : ∀ b ∈ w, b ∉ [braceOpen, bracketOpen, quote] := fun b hb => (ht.2 b hb).2
    exact primitive ht.1 hw hstart hc (by simpa [Tree.entries] using hroom) (h o.super (.inl rfl))
  | .string s, o, o', c, ls, ht, hc, hroom, h => by
    have hstring : Lexes stray numTokens [.string s] o _ :=
      string ht (by simpa [Tree.entries] using hroom)
    exact hstring.trans (h o.super (.inl rfl))
  | .array items, o, o', c, ls, ht, hc, hroom, h => by
    simp only [Tree.entries, List.length_cons] at hroom
    have hopen : Lexes stray numTokens [.mark bracketOpen] o _ :=
      openMark (.inr ⟨rfl, rfl⟩) (by omega)
    have hclose : Lexes stray numTokens [.mark bracketClose]
        ⟨o.counted ++ Entry.opened .array (0 + items.length) :: ([] ++ Tree.itemEntries items),
          some o.counted.length⟩ _ :=
      closeMark (.inr ⟨rfl, rfl⟩) rfl rfl (Tree.isOpen_itemEntries items)
    have hall : Lexes stray numTokens (Tree.commas (Tree.itemLexemes items) ++
        .mark bracketClose :: .mark c :: ls) (inside .array o.counted 0 [] (some o.counted.length)) o' := by
      apply Lexes.items ht (by simp) (by simp; omega)
      apply hclose.trans
      simpa [Tree.entries] using h _ (.inr (lastEntry_counted o))
    rw [← Outline.length_counted o] at hopen
    simpa [Tree.lexemes] using hopen.trans hall
  | .object members, o, o', c, ls, ht, hc, hroom, h => by
    simp only [Tree.entries, List.length_cons] at hroom
    have hopen : Lexes stray numTokens [.mark braceOpen] o _ :=
      openMark (.inl ⟨rfl, rfl⟩) (by omega)
    have hall : Lexes stray numTokens (Tree.commas (Tree.memberLexemes members) ++
        .mark braceClose :: .mark c :: ls) (inside .object o.counted 0 [] (some o.counted.length)) o' := by
      apply Lexes.members ht (by simp) (by simp; omega)
      intro super
      have hclose : Lexes stray numTokens [.mark braceClose]
          ⟨o.counted ++ Entry.opened .object (0 + members.length) ::
            ([] ++ Tree.memberEntries members), super⟩ _ :=
        closeMark (.inl ⟨rfl, rfl⟩) rfl rfl (Tree.isOpen_memberEntries members)
      apply hclose.trans
      simpa [Tree.entries] using h _ (.inr (lastEntry_counted o))
    rw [← Outline.length_counted o] at hopen
    simpa [Tree.lexemes] using hopen.trans hall

/-- The items of an array. -/
theorem items : ∀ {items : List Tree} {as es : List Entry} {k : ℕ} {ls : List Lexeme} {o' : Outline},
    Tree.AllItems IsBody Tree.Primitive items → (∀ e ∈ es, e.isOpen = false) →
    as.length + 1 + es.length + (Tree.itemEntries items).length ≤ numTokens →
    Lexes stray numTokens (.mark bracketClose :: ls)
      (inside .array as (k + items.length) (es ++ Tree.itemEntries items) (some as.length)) o' →
    Lexes stray numTokens (Tree.commas (Tree.itemLexemes items) ++ .mark bracketClose :: ls)
      (inside .array as k es (some as.length)) o'
  | [], as, es, k, ls, o', _, _, _, h => by
    simpa [Tree.commas, Tree.itemLexemes, Tree.itemEntries] using h
  | t :: ts, as, es, k, ls, o', ht, hes, hroom, h => by
    simp only [Tree.itemEntries, List.length_append] at hroom
    have hes' : ∀ e ∈ es ++ t.entries, e.isOpen = false :=
      List.forall_mem_append.mpr ⟨hes, Tree.isOpen_entries t⟩
    -- after an item the array is what counts
    have hsuper : ∀ super, AfterValue (inside .array as k es (some as.length)) super →
        super = some as.length := by
      rintro super (rfl | rfl)
      · rfl
      · exact lastEntry_inside _ rfl hes
    have hrest : ∀ {c : UInt8} {ms : List Lexeme}, Delimits c →
        Lexes stray numTokens (.mark c :: ms)
          (inside .array as (k + 1) (es ++ t.entries) (some as.length)) o' →
        Lexes stray numTokens (t.lexemes ++ .mark c :: ms) (inside .array as k es (some as.length)) o' := by
      intro c ms hc hms
      apply Lexes.tree ht.1 hc (by simp [inside]; omega)
      intro super hafter
      rw [hsuper super hafter, counted_inside]
      simpa [inside] using hms
    cases ts with
    | nil =>
      have hlast := @hrest bracketClose ls (by decide)
        (by simpa [Tree.itemEntries] using h)
      simpa [Tree.commas, Tree.itemLexemes] using hlast
    | cons u us =>
      have hmore := @items (u :: us) as (es ++ t.entries) (k + 1) ls o' ht.2 hes'
        (by simp only [List.length_append]; omega)
        (by simpa [Tree.itemEntries, Nat.add_assoc, Nat.add_comm 1] using h)
      have hcomma : Lexes stray numTokens [.mark comma]
          (inside .array as (k + 1) (es ++ t.entries) (some as.length)) _ :=
        commaMark (.inl ⟨rfl, rfl⟩)
      have hthis := hrest (by decide) (hcomma.trans hmore)
      simpa [Tree.commas, Tree.itemLexemes, List.intercalate_cons_cons] using hthis

/-- The members of an object. -/
theorem members : ∀ {members : List (Bytes × Tree)} {as es : List Entry} {k : ℕ} {ls : List Lexeme}
    {o' : Outline},
    Tree.AllMembers IsBody Tree.Primitive members → (∀ e ∈ es, e.isOpen = false) →
    as.length + 1 + es.length + (Tree.memberEntries members).length ≤ numTokens →
    (∀ super, Lexes stray numTokens (.mark braceClose :: ls)
      (inside .object as (k + members.length) (es ++ Tree.memberEntries members) super) o') →
    Lexes stray numTokens (Tree.commas (Tree.memberLexemes members) ++ .mark braceClose :: ls)
      (inside .object as k es (some as.length)) o'
  | [], as, es, k, ls, o', _, _, _, h => by
    simpa [Tree.commas, Tree.memberLexemes, Tree.memberEntries] using h (some as.length)
  | (s, t) :: ms, as, es, k, ls, o', ht, hes, hroom, h => by
    simp only [Tree.memberEntries, List.length_append, List.length_cons] at hroom
    have hkey : ∀ e ∈ es ++ [Entry.string 0 s], e.isOpen = false :=
      List.forall_mem_append.mpr ⟨hes, by simp [Entry.string]⟩
    have hes' : ∀ e ∈ es ++ Entry.string 1 s :: t.entries, e.isOpen = false :=
      List.forall_mem_append.mpr ⟨hes, List.forall_mem_cons.mpr ⟨rfl, Tree.isOpen_entries t⟩⟩
    have hvalue : ∀ {c : UInt8} {ls : List Lexeme}, Delimits c →
        (∀ super, super = some (as.length + (es.length + 1)) ∨ super = some as.length →
          Lexes stray numTokens (.mark c :: ls)
            (inside .object as (k + 1) (es ++ Entry.string 1 s :: t.entries) super) o') →
        Lexes stray numTokens (.string s :: .mark colon :: t.lexemes ++ .mark c :: ls)
          (inside .object as k es (some as.length)) o' := by
      intro c ls hc hls
      apply (key ht.1 (by omega)).trans
      apply Lexes.tree ht.2.1 hc (by simp [inside]; omega)
      intro super hafter
      rw [counted_key]
      have hsuper : super = some (as.length + (es.length + 1)) ∨ super = some as.length := by
        rcases hafter with rfl | rfl
        · exact .inl rfl
        · exact .inr (lastEntry_inside _ rfl hkey)
      simpa [inside] using hls super hsuper
    cases ms with
    | nil =>
      have hlast := @hvalue braceClose ls (by decide)
        fun super _ => by simpa [Tree.memberEntries] using h super
      simpa [Tree.commas, Tree.memberLexemes] using hlast
    | cons m ms =>
      have hmore := @members (m :: ms) as (es ++ Entry.string 1 s :: t.entries) (k + 1) ls o' ht.2.2 hes'
        (by simp only [List.length_append, List.length_cons]; omega)
        (by simpa [Tree.memberEntries, Nat.add_assoc, Nat.add_comm 1] using h)
      have hthis := hvalue (c := comma) (by decide) fun super hsuper =>
        (memberComma hes (Tree.isOpen_entries t) hsuper).trans hmore
      simpa [Tree.commas, Tree.memberLexemes, List.intercalate_cons_cons] using hthis

end

/-- A whole object is a text. -/
theorem object {members : List (Bytes × Tree)} (hread : (Tree.object members).Readable)
    (hroom : (Tree.object members).entries.length ≤ numTokens) :
    Lexes stray numTokens (Tree.object members).lexemes ⟨[], none⟩
      ⟨(Tree.object members).entries, none⟩ := by
  rw [Tree.entries, List.length_cons] at hroom
  have hopen : Lexes stray numTokens [.mark braceOpen] ⟨[], none⟩ (inside .object [] 0 [] (some 0)) :=
    openMark (.inl ⟨rfl, rfl⟩) (by simp; omega)
  have hmembers := @Lexes.members stray numTokens members [] [] 0 []
    ⟨(Tree.object members).entries, none⟩ hread (by simp) (by simp; omega) fun super => by
      simpa [inside, Tree.entries, lastEntry] using @closeMark stray numTokens braceClose .object []
        (Tree.memberEntries members) (Entry.opened .object members.length) super (.inl ⟨rfl, rfl⟩)
        rfl rfl (Tree.isOpen_memberEntries members)
  simpa [Tree.lexemes] using hopen.trans hmembers

end Lexes

/-- The tokens of closed entries are closed. -/
theorem closed_of_forall₂ {js : Bytes} {es : List Entry} {toks : List JsmnTok}
    (h : List.Forall₂ (Entry.Fits js) es toks) (hes : ∀ e ∈ es, e.isOpen = false) :
    ∀ tok ∈ toks, tok.isOpen = false := by
  induction h with
  | nil => simp
  | cons hfit _ ih =>
    obtain ⟨he, hes⟩ := List.forall_mem_cons.mp hes
    exact List.forall_mem_cons.mpr ⟨hfit.isOpen.trans he, ih hes⟩

/-- **The table of an object**, whatever the white space in its text. -/
theorem jsmnParse_object {members : List (Bytes × Tree)} {text : Bytes}
    (hread : (Tree.object members).Readable)
    (hroom : (Tree.object members).entries.length ≤ numTokens)
    (htext : Spaced (Tree.object members).lexemes text) : ∃ n tokens,
      jsmnParse stray numTokens text = .ok (n, tokens) ∧
        List.Forall₂ (Entry.Fits text) (Tree.object members).entries tokens := by
  have hlexes := @Lexes.object stray numTokens members hread hroom
  obtain ⟨p, -, hp, hloop⟩ := hlexes text [] text [] jsmnInit (by simp) htext rfl ⟨.nil, rfl⟩
  have hopen : p.tokens.any JsmnTok.isOpen = false := by
    have hclosed := closed_of_forall₂ hp.entries (Tree.isOpen_entries (.object members))
    rw [List.any_eq_false]
    intro tok htok
    simp [hclosed tok htok]
  refine ⟨p.count, p.tokens, ?_, hp.entries⟩
  rw [List.append_nil] at hloop
  simp [jsmnParse, hloop, jsmnLoop, hopen]

/-- An object with more entries than the table has room for is refused. -/
theorem jsmnParse_full {members : List (Bytes × Tree)} {text : Bytes}
    (hread : (Tree.object members).Readable)
    (hfull : numTokens < (Tree.object members).entries.length)
    (htext : Spaced (Tree.object members).lexemes text) : ∃ err,
      jsmnParse stray numTokens text = .error err := by
  cases h : jsmnParse stray numTokens text with
  | error err => exact ⟨err, rfl⟩
  | ok r =>
    obtain ⟨n, tokens⟩ := r
    -- a table with room for all of them would hold the same tokens
    obtain ⟨n', tokens', hlarge, hfits⟩ := @jsmnParse_object stray _ members text hread le_rfl htext
    have hsame := jsmnParse_mono hfull.le h
    rw [hlarge] at hsame
    cases hsame
    have hlen := jsmnParse_length_le h
    rw [← hfits.length_eq] at hlen
    omega

end Reading

/-! ### Flat objects -/

/-- A string, or an array of strings. -/
inductive FlatValue
  | string (s : Bytes)
  | array (items : List Bytes)

/-- An object whose members are flat. -/
abbrev FlatObject := List (Bytes × FlatValue)

def FlatValue.lexemes : FlatValue → List Lexeme
  | .string s => [.string s]
  | .array items =>
    .mark bracketOpen :: (items.map Lexeme.string).intersperse (.mark comma) ++ [.mark bracketClose]

def FlatObject.memberLexemes (m : Bytes × FlatValue) : List Lexeme :=
  .string m.1 :: .mark colon :: m.2.lexemes

def FlatObject.lexemes (ms : FlatObject) : List Lexeme :=
  .mark braceOpen :: [Lexeme.mark comma].intercalate (ms.map memberLexemes) ++ [.mark braceClose]

/-- A string that stands for itself between quotes. -/
def Plain (s : Bytes) : Prop := ∀ b ∈ s, b ≠ 0 ∧ b ≠ quote ∧ b ≠ backslash

def FlatValue.Plain : FlatValue → Prop
  | .string s => Vmon.Plain s
  | .array items => ∀ s ∈ items, Vmon.Plain s

/-- The entries of a value in the table. -/
def FlatValue.entries : FlatValue → List Entry
  | .string s => [Entry.string 0 s]
  | .array items =>
    { type := .array, size := items.length, isOpen := false, text := [] } ::
      items.map (Entry.string 0)

/-- The key counts its value. -/
def FlatObject.memberEntries (m : Bytes × FlatValue) : List Entry :=
  Entry.string 1 m.1 :: m.2.entries

def FlatObject.entries (ms : FlatObject) : List Entry :=
  { type := .object, size := ms.length, isOpen := false, text := [] } :: ms.flatMap memberEntries

def FlatValue.tree : FlatValue → Tree
  | .string s => .string s
  | .array items => .array (items.map .string)

def FlatObject.tree (ms : FlatObject) : Tree := .object (ms.map fun m => (m.1, m.2.tree))

section Flat

/-- An array of strings. -/
theorem strings_tree (items : List Bytes) :
    Tree.itemLexemes (items.map .string) = (items.map Lexeme.string).map (fun l => [l]) ∧
      Tree.itemEntries (items.map .string) = items.map (Entry.string 0) ∧
      ((∀ s ∈ items, Plain s) → Tree.AllItems IsBody Tree.Primitive (items.map .string)) := by
  induction items with
  | nil => exact ⟨rfl, rfl, fun _ => trivial⟩
  | cons s items ih =>
    obtain ⟨hlexemes, hentries, hread⟩ := ih
    refine ⟨?_, ?_, fun h => ?_⟩
    · simp [Tree.itemLexemes, Tree.lexemes, hlexemes]
    · simp [Tree.itemEntries, Tree.entries, hentries]
    · obtain ⟨hs, hitems⟩ := List.forall_mem_cons.mp h
      exact ⟨isBody_plain hs, hread hitems⟩

theorem FlatValue.lexemes_tree (v : FlatValue) : v.tree.lexemes = v.lexemes := by
  cases v with
  | string s => rfl
  | array items =>
    have hcommas : ∀ ls : List Lexeme, Tree.commas (ls.map fun l => [l]) =
        ls.intersperse (.mark comma) := by
      intro ls
      induction ls with
      | nil => rfl
      | cons l ls ih =>
        cases ls with
        | nil => rfl
        | cons m ls => simpa [Tree.commas, List.intercalate_cons_cons] using ih
    rw [tree, Tree.lexemes, (strings_tree items).1, hcommas, lexemes]

theorem FlatValue.entries_tree (v : FlatValue) : v.tree.entries = v.entries := by
  cases v with
  | string s => rfl
  | array items =>
    rw [tree, Tree.entries, (strings_tree items).2.1, entries, List.length_map]
    rfl

theorem FlatValue.Plain.readable {v : FlatValue} (h : v.Plain) : v.tree.Readable := by
  cases v with
  | string s => exact isBody_plain h
  | array items => exact (strings_tree items).2.2 h

theorem FlatObject.lexemes_tree (ms : FlatObject) : ms.tree.lexemes = ms.lexemes := by
  have hmembers : Tree.memberLexemes (ms.map fun m => (m.1, m.2.tree)) = ms.map memberLexemes := by
    induction ms with
    | nil => rfl
    | cons m ms ih => simp [Tree.memberLexemes, memberLexemes, ih, m.2.lexemes_tree]
  rw [tree, Tree.lexemes, hmembers, lexemes, Tree.commas]

theorem FlatObject.entries_tree (ms : FlatObject) : ms.tree.entries = ms.entries := by
  have hmembers : Tree.memberEntries (ms.map fun m => (m.1, m.2.tree)) = ms.flatMap memberEntries := by
    induction ms with
    | nil => rfl
    | cons m ms ih => simp [Tree.memberEntries, memberEntries, ih, m.2.entries_tree]
  rw [tree, Tree.entries, hmembers, entries, List.length_map]
  rfl

theorem FlatObject.readable {ms : FlatObject} (h : ∀ m ∈ ms, Plain m.1 ∧ m.2.Plain) :
    ms.tree.Readable := by
  have hmembers : Tree.AllMembers IsBody Tree.Primitive (ms.map fun m => (m.1, m.2.tree)) := by
    induction ms with
    | nil => trivial
    | cons m ms ih =>
      obtain ⟨⟨hkey, hvalue⟩, hms⟩ := List.forall_mem_cons.mp h
      exact ⟨isBody_plain hkey, hvalue.readable, ih hms⟩
  exact hmembers

end Flat

end Vmon
