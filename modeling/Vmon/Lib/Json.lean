import Vmon.Lib.Bytes

/-!
# JSON texts

The grammar of RFC 8259 over the bytes of a text, and a lexical reading of it.

`Derives` is the grammar. Going the other way, from a text to what any derivation
of it must look like, is done by a machine that walks over the bytes: outside
strings it accepts only bytes some token has and refuses a comma that a closing
bracket follows, inside it waits for the closing quote. `Derives.run` says that it
accepts every derivable text, and that every string it met had a proper body.

## Main definitions

* `Chars` — the body of a string: unescaped characters in UTF-8 and escapes.
* `Number`, `Derives` — the grammar.
* `IsObject` — one object, with white space around it.
* `Mode`, `Mode.run` — the machine.
* `bodies` — the bodies of the strings it passes.
-/

namespace Vmon.Json

/-! ### The grammar -/

def isWs (b : UInt8) : Bool := b = 0x20 || b = 0x09 || b = 0x0A || b = 0x0D

/-- White space. -/
def Ws (w : Bytes) : Prop := ∀ b ∈ w, isWs b = true

instance (w : Bytes) : Decidable (Ws w) := inferInstanceAs (Decidable (∀ b ∈ w, isWs b = true))

def isHex (b : UInt8) : Bool :=
  isDigit b || (0x41 ≤ b && b ≤ 0x46) || (0x61 ≤ b && b ≤ 0x66)

/-- The bytes that may follow a backslash, `u` apart. -/
def escapes : Bytes := [0x22, 0x5C, 0x2F, 0x62, 0x66, 0x6E, 0x72, 0x74]

/-- The body of a string. -/
inductive Chars : Bytes → Prop
  | nil : Chars []
  | unescaped (c : Char) {w : Bytes} (hlow : 0x20 ≤ c.toNat) (hquote : c.toNat ≠ 0x22)
      (hback : c.toNat ≠ 0x5C) (hw : Chars w) : Chars (String.utf8EncodeChar c ++ w)
  | escape {b : UInt8} {w : Bytes} (hb : b ∈ escapes) (hw : Chars w) : Chars (0x5C :: b :: w)
  | unicode {a b c d : UInt8} {w : Bytes} (ha : isHex a = true) (hb : isHex b = true)
      (hc : isHex c = true) (hd : isHex d = true) (hw : Chars w) :
      Chars (0x5C :: 0x75 :: a :: b :: c :: d :: w)

/-- A nonempty string of digits. -/
def Digits (w : Bytes) : Prop := w ≠ [] ∧ ∀ b ∈ w, isDigit b = true

/-- `int`: zero, or digits that do not start with zero. -/
def IntPart (w : Bytes) : Prop := w = [0x30] ∨ (Digits w ∧ w.head? ≠ some 0x30)

/-- `[ frac ]`. -/
def FracPart (w : Bytes) : Prop := w = [] ∨ ∃ ds, w = 0x2E :: ds ∧ Digits ds

/-- `[ exp ]`. -/
def ExpPart (w : Bytes) : Prop :=
  w = [] ∨ ∃ e s ds, w = e :: (s ++ ds) ∧ e ∈ lit "eE" ∧ s ∈ [[], lit "+", lit "-"] ∧ Digits ds

/-- `number`. -/
def Number (w : Bytes) : Prop :=
  ∃ m i f e, w = m ++ i ++ f ++ e ∧ m ∈ [[], lit "-"] ∧ IntPart i ∧ FracPart f ∧ ExpPart e

/-- A value that does not nest and is no string. -/
def Scalar (w : Bytes) : Prop := w ∈ [lit "false", lit "null", lit "true"] ∨ Number w

/-- The symbols of the grammar that nest. -/
inductive Sym
  | value
  | elements
  | members

/-- The texts of each symbol. The members of an object and the elements of an array take the
white space around them. -/
inductive Derives : Sym → Bytes → Prop
  | literal {w : Bytes} (hw : w ∈ [lit "false", lit "null", lit "true"]) : Derives .value w
  | number {w : Bytes} (hw : Number w) : Derives .value w
  | string {w : Bytes} (hw : Chars w) : Derives .value (0x22 :: (w ++ [0x22]))
  | emptyArray {w : Bytes} (hw : Ws w) : Derives .value (0x5B :: (w ++ [0x5D]))
  | array {w : Bytes} (hw : Derives .elements w) : Derives .value (0x5B :: (w ++ [0x5D]))
  | emptyObject {w : Bytes} (hw : Ws w) : Derives .value (0x7B :: (w ++ [0x7D]))
  | object {w : Bytes} (hw : Derives .members w) : Derives .value (0x7B :: (w ++ [0x7D]))
  | element {l v r : Bytes} (hl : Ws l) (hv : Derives .value v) (hr : Ws r) :
      Derives .elements (l ++ v ++ r)
  | elementsComma {a b : Bytes} (ha : Derives .elements a) (hb : Derives .elements b) :
      Derives .elements (a ++ 0x2C :: b)
  | member {l k m n v r : Bytes} (hl : Ws l) (hk : Chars k) (hm : Ws m) (hn : Ws n)
      (hv : Derives .value v) (hr : Ws r) :
      Derives .members (l ++ 0x22 :: (k ++ 0x22 :: (m ++ 0x3A :: (n ++ v ++ r))))
  | membersComma {a b : Bytes} (ha : Derives .members a) (hb : Derives .members b) :
      Derives .members (a ++ 0x2C :: b)

/-- **A JSON text that is one object**, white space around it allowed. -/
def IsObject (w : Bytes) : Prop :=
  ∃ l o r, w = l ++ 0x7B :: (o ++ 0x7D :: r) ∧ Ws l ∧ (Ws o ∨ Derives .members o) ∧ Ws r

/-! ### Building derivations -/

/-- The ASCII bytes that stand for themselves in a string. -/
def isPlain (b : UInt8) : Bool := 0x20 ≤ b && b < 0x80 && b ≠ 0x22 && b ≠ 0x5C

private theorem utf8EncodeChar_ascii : ∀ n < 128,
    String.utf8EncodeChar (Char.ofNat n) = [UInt8.ofNat n] ∧ (Char.ofNat n).toNat = n := by
  decide

theorem chars_of_plain {w : Bytes} (hw : ∀ b ∈ w, isPlain b = true) : Chars w := by
  induction w with
  | nil => exact .nil
  | cons b w ih =>
    have hb := hw b List.mem_cons_self
    simp only [isPlain, Bool.and_eq_true, decide_eq_true_eq, UInt8.le_iff_toNat_le,
      UInt8.lt_iff_toNat_lt, ne_eq, ← UInt8.toNat_inj] at hb
    obtain ⟨⟨⟨hlow, hhigh⟩, hquote⟩, hback⟩ := hb
    obtain ⟨henc, hval⟩ := utf8EncodeChar_ascii b.toNat hhigh
    have hcons := Chars.unescaped (Char.ofNat b.toNat) (hval.symm ▸ hlow) (hval.symm ▸ hquote)
      (hval.symm ▸ hback) (ih fun x hx => hw x (List.mem_cons_of_mem _ hx))
    rwa [henc, UInt8.ofNat_toNat] at hcons

/-- A decimal form is a JSON number. -/
theorem number_decimal (n : ℕ) : Number (decimal n) := by
  refine ⟨[], decimal n, [], [], by simp, by simp, ?_, .inl rfl, .inl rfl⟩
  by_cases h : n = 0
  · exact .inl (by rw [h]; rfl)
  · exact .inr ⟨⟨decimal_ne_nil n, fun b hb => isDigit_of_mem_decimal hb⟩, head_decimal h⟩

theorem Ws.append {a b : Bytes} (ha : Ws a) (hb : Ws b) : Ws (a ++ b) := by
  intro x hx
  rcases List.mem_append.mp hx with h | h
  · exact ha x h
  · exact hb x h

/-- White space may stand around the members of an object. -/
theorem Derives.pad {w l r : Bytes} {s : Sym} (hw : Derives s w) (hs : s = .members) (hl : Ws l)
    (hr : Ws r) : Derives s (l ++ w ++ r) := by
  induction hw generalizing l r with
  | member hl' hk hm hn hv hr' _ =>
    have := Derives.member (hl.append hl') hk hm hn hv (hr'.append hr)
    simpa using this
  | membersComma _ _ iha ihb =>
    have hnil : Ws [] := by decide
    have := Derives.membersComma (iha hs hl hnil) (ihb hs hnil hr)
    simpa using this
  | _ => cases hs

/-- One member, laid out as `"k": v`. -/
theorem Derives.field {k v : Bytes} (hk : Chars k) (hv : Derives .value v) :
    Derives .members (0x22 :: (k ++ 0x22 :: 0x3A :: 0x20 :: v)) := by
  have := Derives.member (l := []) (m := []) (n := [0x20]) (r := []) (by decide) hk (by decide)
    (by decide) hv (by decide)
  simpa using this

/-- Members with numbers, laid out as ` "k": n` with commas between. -/
def numberMembers : List (Bytes × ℕ) → Bytes
  | [] => []
  | [(k, n)] => 0x20 :: 0x22 :: (k ++ 0x22 :: 0x3A :: 0x20 :: decimal n)
  | (k, n) :: x :: xs =>
    0x20 :: 0x22 :: (k ++ 0x22 :: 0x3A :: 0x20 :: decimal n) ++ 0x2C :: numberMembers (x :: xs)

theorem derives_numberMembers {xs : List (Bytes × ℕ)} (hne : xs ≠ [])
    (hk : xs.all (fun x => x.1.all isPlain) = true) : Derives .members (numberMembers xs) := by
  have hone : ∀ (k : Bytes) (n : ℕ), k.all isPlain = true →
      Derives .members (0x20 :: 0x22 :: (k ++ 0x22 :: 0x3A :: 0x20 :: decimal n)) := by
    intro k n hkn
    have hchars := chars_of_plain (List.all_eq_true.mp hkn)
    have := (Derives.field hchars (.number (number_decimal n))).pad rfl
      (l := [0x20]) (r := []) (by decide) (by decide)
    simpa using this
  induction xs with
  | nil => exact absurd rfl hne
  | cons x xs ih =>
    rw [List.all_cons, Bool.and_eq_true] at hk
    obtain ⟨hx, hxs⟩ := hk
    cases xs with
    | nil => exact hone x.1 x.2 hx
    | cons y xs => exact .membersComma (hone x.1 x.2 hx) (ih (List.cons_ne_nil y xs) hxs)

/-- A member whose value is an object of numbers, with white space before its closing bracket. -/
theorem derives_numberObject {k r : Bytes} {xs : List (Bytes × ℕ)} (hk : Chars k) (hne : xs ≠ [])
    (hxs : xs.all (fun x => x.1.all isPlain) = true) (hr : Ws r) :
    Derives .members
      (0x22 :: (k ++ 0x22 :: 0x3A :: 0x20 :: 0x7B :: (numberMembers xs ++ r ++ [0x7D]))) := by
  have hpad := (derives_numberMembers hne hxs).pad rfl (l := []) (by decide) hr
  exact .field hk (.object hpad)

/-- **A loop that puts a comma after every entry but the last** prints members. -/
theorem derives_zipIdx {α : Type} {e : ℕ → α → Bytes} {xs : List α} {k : ℕ} (hne : xs ≠ [])
    (he : ∀ x ∈ xs, ∀ i, Derives .members (e i x)) :
    Derives .members ((xs.zipIdx k).flatMap fun p =>
      e p.2 p.1 ++ if p.2 = k + xs.length - 1 then [] else [0x2C]) := by
  induction xs generalizing k with
  | nil => exact absurd rfl hne
  | cons x xs ih =>
    obtain ⟨hx, hxs⟩ := List.forall_mem_cons.mp he
    cases xs with
    | nil => simpa using hx k
    | cons y xs =>
      have hrest := ih (k := k + 1) (List.cons_ne_nil y xs) hxs
      have hlen : k + 1 + (y :: xs).length - 1 = k + (x :: y :: xs).length - 1 := by
        simp only [List.length_cons]
        omega
      have hcomma : k ≠ k + (x :: y :: xs).length - 1 := by
        simp only [List.length_cons]
        omega
      rw [hlen] at hrest
      rw [List.zipIdx_cons, List.flatMap_cons, if_neg hcomma, List.append_assoc,
        List.singleton_append]
      exact .membersComma (hx k) hrest

/-! ### Reading a text -/

/-- Where the machine is: outside strings, knowing whether a comma came last; in a string
with what was read of it; after a backslash in it; or at a byte no JSON text has there. -/
inductive Mode
  | text (comma : Bool)
  | body (read : Bytes)
  | esc (read : Bytes)
  | bad
  deriving DecidableEq

/-- The bytes of the tokens outside strings, brackets that close and commas apart. -/
def tokenBytes : Bytes := lit "\x7b[:+-.eEfalsnutr"

def isToken (b : UInt8) : Bool := isDigit b || tokenBytes.contains b

/-- One byte. -/
def Mode.step : Mode → UInt8 → Mode
  | .text comma, b =>
    if isToken b then .text false
    else if isWs b then .text comma
    else if b = 0x22 then .body []
    else if b = 0x2C then .text true
    else if b = 0x7D || b = 0x5D then if comma then .bad else .text false
    else .bad
  | .body read, b =>
    if b = 0x22 then .text false
    else if b = 0x5C then .esc read
    else .body (read ++ [b])
  | .esc read, b => .body (read ++ [0x5C, b])
  | .bad, _ => .bad

def Mode.run (m : Mode) (w : Bytes) : Mode := w.foldl Mode.step m

/-- The body of the string a byte closes. -/
def Mode.closed : Mode → UInt8 → List Bytes
  | .body read, b => if b = 0x22 then [read] else []
  | _, _ => []

/-- The bodies of the strings closed on the way through a text. -/
def bodies : Mode → Bytes → List Bytes
  | _, [] => []
  | m, b :: w => m.closed b ++ bodies (m.step b) w

namespace Mode

@[simp] theorem run_nil (m : Mode) : m.run [] = m := rfl

@[simp] theorem run_cons (m : Mode) (b : UInt8) (w : Bytes) : m.run (b :: w) = (m.step b).run w :=
  rfl

theorem run_append (m : Mode) (a b : Bytes) : m.run (a ++ b) = (m.run a).run b :=
  List.foldl_append ..

theorem run_bad (w : Bytes) : Mode.bad.run w = .bad := by
  induction w with
  | nil => rfl
  | cons b w ih => exact ih

end Mode

theorem bodies_append (m : Mode) (a b : Bytes) :
    bodies m (a ++ b) = bodies m a ++ bodies (m.run a) b := by
  induction a generalizing m with
  | nil => rfl
  | cons x a ih => simp [bodies, ih]

/-- The machine passes through a text, meeting only proper strings. -/
structure Passes (m : Mode) (w : Bytes) (m' : Mode) : Prop where
  run : m.run w = m'
  proper : ∀ s ∈ bodies m w, Chars s

namespace Passes

variable {m m' m'' : Mode} {a b w : Bytes} {comma : Bool}

theorem nil : Passes m [] m := ⟨rfl, by simp [bodies]⟩

theorem append (ha : Passes m a m') (hb : Passes m' b m'') : Passes m (a ++ b) m'' := by
  refine ⟨by rw [Mode.run_append, ha.run, hb.run], ?_⟩
  intro s hs
  rw [bodies_append, ha.run, List.mem_append] at hs
  exact hs.elim (ha.proper s) (hb.proper s)

/-- A passage through two texts stops between them. -/
theorem split (h : Passes m (a ++ b) m') : ∃ m'', Passes m a m'' ∧ Passes m'' b m' := by
  refine ⟨m.run a, ⟨rfl, fun s hs => h.proper s ?_⟩, ⟨?_, fun s hs => h.proper s ?_⟩⟩
  · rw [bodies_append]
    exact List.mem_append_left _ hs
  · rw [← Mode.run_append]
    exact h.run
  · rw [bodies_append]
    exact List.mem_append_right _ hs

/-- Failure is final. -/
theorem ne_bad (h : Passes m w m') (hm : m' ≠ .bad) : m ≠ .bad := by
  rintro rfl
  exact hm (h.run.symm.trans (Mode.run_bad w))

/-- One byte that closes no string. -/
theorem cons {x : UInt8} (hx : m.closed x = []) (h : Passes (m.step x) w m') :
    Passes m (x :: w) m' :=
  ⟨h.run, by simpa [bodies, hx] using h.proper⟩

/-- The quote that ends a proper string. -/
theorem endString {read : Bytes} (hread : Chars read) (h : Passes (.text false) w m') :
    Passes (.body read) (0x22 :: w) m' := by
  refine ⟨h.run, ?_⟩
  intro s hs
  rcases List.mem_cons.mp hs with rfl | hs
  · exact hread
  · exact h.proper s hs

theorem ws (hw : Ws w) : Passes (.text comma) w (.text comma) := by
  induction w with
  | nil => exact nil
  | cons x w ih =>
    have hstep : (Mode.text comma).step x = .text comma := by
      have hx := hw x List.mem_cons_self
      simp only [isWs, Bool.or_eq_true, decide_eq_true_eq] at hx
      rcases hx with ((rfl | rfl) | rfl) | rfl <;> rfl
    refine cons rfl ?_
    rw [hstep]
    exact ih fun y hy => hw y (List.mem_cons_of_mem _ hy)

/-- A token outside strings. -/
theorem token (hne : w ≠ []) (hw : ∀ x ∈ w, isToken x = true) :
    Passes (.text comma) w (.text false) := by
  induction w generalizing comma with
  | nil => exact absurd rfl hne
  | cons x w ih =>
    have hstep : (Mode.text comma).step x = .text false := by
      rw [Mode.step, if_pos (hw x List.mem_cons_self)]
    refine cons rfl ?_
    rw [hstep]
    by_cases hnil : w = []
    · subst hnil
      exact nil
    · exact ih hnil fun y hy => hw y (List.mem_cons_of_mem _ hy)

end Passes

/-- A byte below `0x80` among those of a character is the character itself. -/
theorem eq_of_mem_utf8EncodeChar {c : Char} {b : UInt8} (hb : b ∈ String.utf8EncodeChar c)
    (hlow : b.toNat < 0x80) : b.toNat = c.toNat := by
  have hval : c.val.toNat = c.toNat := rfl
  have hofNat : ∀ n < 256, (UInt8.ofNat n).toNat = n := by
    intro n hn
    rw [UInt8.toNat_ofNat']
    exact Nat.mod_eq_of_lt hn
  unfold String.utf8EncodeChar at hb
  simp only [hval] at hb
  split_ifs at hb <;> simp only [List.mem_cons, List.not_mem_nil, or_false] at hb
  · subst hb
    rw [hofNat _ (by omega)]
  all_goals
    exfalso
    revert hlow
    rcases hb with rfl | rfl | rfl | rfl <;> rw [hofNat _ (by omega)] <;> omega

/-- An unescaped character has no quote or backslash among its bytes. -/
theorem mem_utf8EncodeChar {c : Char} (hquote : c.toNat ≠ 0x22) (hback : c.toNat ≠ 0x5C) {b : UInt8}
    (hb : b ∈ String.utf8EncodeChar c) : b ≠ 0x22 ∧ b ≠ 0x5C := by
  constructor <;> rintro rfl
  · exact hquote (eq_of_mem_utf8EncodeChar hb (by decide)).symm
  · exact hback (eq_of_mem_utf8EncodeChar hb (by decide)).symm

/-- Nor a NUL. -/
theorem ne_zero_of_mem_utf8EncodeChar {c : Char} (hc : c.toNat ≠ 0) {b : UInt8}
    (hb : b ∈ String.utf8EncodeChar c) : b ≠ 0 := by
  rintro rfl
  exact hc (eq_of_mem_utf8EncodeChar hb (by decide)).symm

/-- **A name in UTF-8** is a string body if no control byte, quote or backslash is in it. -/
theorem chars_of_utf8 {cs : List Char}
    (h : ∀ b ∈ cs.flatMap String.utf8EncodeChar, 0x20 ≤ b ∧ b ≠ 0x22 ∧ b ≠ 0x5C) :
    Chars (cs.flatMap String.utf8EncodeChar) := by
  induction cs with
  | nil => exact .nil
  | cons c cs ih =>
    rw [List.flatMap_cons] at h ⊢
    obtain ⟨hc, hcs⟩ := List.forall_mem_append.mp h
    have hchar : 0x20 ≤ c.toNat ∧ c.toNat ≠ 0x22 ∧ c.toNat ≠ 0x5C := by
      by_cases hascii : c.toNat < 128
      · have henc := (utf8EncodeChar_ascii c.toNat hascii).1
        rw [Char.ofNat_toNat] at henc
        obtain ⟨hlow, hquote, hback⟩ := hc (UInt8.ofNat c.toNat) (by simp [henc])
        have hval : (UInt8.ofNat c.toNat).toNat = c.toNat := by
          rw [UInt8.toNat_ofNat']
          exact Nat.mod_eq_of_lt (by omega)
        rw [UInt8.le_iff_toNat_le, hval] at hlow
        rw [ne_eq, ← UInt8.toNat_inj, hval] at hquote hback
        exact ⟨hlow, hquote, hback⟩
      · omega
    exact .unescaped c hchar.1 hchar.2.1 hchar.2.2 (ih hcs)

/-- Bytes other than quotes and backslashes are read as they are. -/
theorem Passes.plain (read : Bytes) {w : Bytes} (hw : ∀ b ∈ w, b ≠ 0x22 ∧ b ≠ 0x5C) :
    Passes (.body read) w (.body (read ++ w)) := by
  induction w generalizing read with
  | nil => simpa using Passes.nil
  | cons b w ih =>
    obtain ⟨hquote, hback⟩ := hw b List.mem_cons_self
    have hstep : (Mode.body read).step b = .body (read ++ [b]) := by
      simp only [Mode.step, hquote, hback, if_false]
    have hrest := ih (read ++ [b]) fun x hx => hw x (List.mem_cons_of_mem _ hx)
    refine cons (by simp [Mode.closed, hquote]) ?_
    rw [hstep]
    simpa using hrest

/-- **A string body is read to its end.** -/
theorem Chars.passes {w : Bytes} (hw : Chars w) (read : Bytes) :
    Passes (.body read) w (.body (read ++ w)) := by
  induction hw generalizing read with
  | nil => simpa using Passes.nil
  | unescaped c _ hquote hback _ ih =>
    have hc := Passes.plain read fun b hb => mem_utf8EncodeChar hquote hback hb
    simpa using hc.append (ih _)
  | @escape b w _ _ ih =>
    have hrest := ih (read ++ [0x5C, b])
    refine Passes.cons rfl (Passes.cons rfl ?_)
    simpa [Mode.step] using hrest
  | @unicode a b c d w ha hb hc hd _ ih =>
    have hhex : ∀ x ∈ [a, b, c, d], x ≠ 0x22 ∧ x ≠ 0x5C := by
      have hx : ∀ x : UInt8, isHex x = true → x ≠ 0x22 ∧ x ≠ 0x5C := by
        intro x hx
        constructor <;> rintro rfl <;> exact absurd hx (by decide)
      simp only [List.forall_mem_cons, List.not_mem_nil, false_implies, implies_true, and_true]
      exact ⟨hx a ha, hx b hb, hx c hc, hx d hd⟩
    have hdigits := (Passes.plain (read ++ [0x5C, 0x75]) hhex).append (ih _)
    refine Passes.cons rfl (Passes.cons rfl ?_)
    simpa [Mode.step] using hdigits

theorem isToken_of_isDigit {b : UInt8} (hb : isDigit b = true) : isToken b = true := by
  simp [isToken, hb]

/-- The bytes of a number. -/
theorem Number.bytes {w : Bytes} (hw : Number w) :
    w ≠ [] ∧ ∀ b ∈ w, isDigit b = true ∨ b ∈ lit "+-.eE" := by
  obtain ⟨m, i, f, e, rfl, hm, hi, hf, he⟩ := hw
  have hsigns : ∀ t ∈ [[], lit "+", lit "-"], ∀ b ∈ t, b ∈ lit "+-.eE" := by decide
  have hm' : ∀ b ∈ m, b ∈ lit "+-.eE" := by
    apply hsigns
    simp only [List.mem_cons, List.not_mem_nil, or_false] at hm ⊢
    tauto
  have hi' : i ≠ [] ∧ ∀ b ∈ i, isDigit b = true := by
    rcases hi with rfl | ⟨hd, -⟩
    · decide
    · exact hd
  have hf' : ∀ b ∈ f, isDigit b = true ∨ b ∈ lit "+-.eE" := by
    rcases hf with rfl | ⟨ds, rfl, hd⟩
    · simp
    · exact List.forall_mem_cons.mpr ⟨by decide, fun b hb => .inl (hd.2 b hb)⟩
  have he' : ∀ b ∈ e, isDigit b = true ∨ b ∈ lit "+-.eE" := by
    rcases he with rfl | ⟨x, t, ds, rfl, hx, ht, hd⟩
    · simp
    · have hx' : ∀ b ∈ lit "eE", b ∈ lit "+-.eE" := by decide
      refine List.forall_mem_cons.mpr ⟨.inr (hx' x hx), ?_⟩
      intro b hb
      rcases List.mem_append.mp hb with h | h
      · exact .inr (hsigns t ht b h)
      · exact .inl (hd.2 b h)
  refine ⟨by simp [hi'.1], ?_⟩
  intro b hb
  simp only [List.mem_append] at hb
  rcases hb with ((h | h) | h) | h
  · exact .inr (hm' b h)
  · exact .inl (hi'.2 b h)
  · exact hf' b h
  · exact he' b h

/-- A number is a token. -/
theorem Number.token {w : Bytes} (hw : Number w) : w ≠ [] ∧ ∀ b ∈ w, isToken b = true := by
  have hother : ∀ b ∈ lit "+-.eE", isToken b = true := by decide
  exact ⟨hw.bytes.1, fun b hb => (hw.bytes.2 b hb).elim isToken_of_isDigit (hother b)⟩

/-- **The machine passes through every text the grammar derives.** -/
theorem Derives.passes {s : Sym} {w : Bytes} (h : Derives s w) (comma : Bool) :
    Passes (.text comma) w (.text false) := by
  induction h generalizing comma with
  | literal hw =>
    have htoken : ∀ w ∈ [lit "false", lit "null", lit "true"],
        w ≠ [] ∧ ∀ b ∈ w, isToken b = true := by decide
    exact .token (htoken _ hw).1 (htoken _ hw).2
  | number hw => exact .token hw.token.1 hw.token.2
  | string hw =>
    exact .cons rfl ((hw.passes []).append (.endString (by simpa using hw) .nil))
  | emptyArray hw => exact .cons rfl ((Passes.ws hw).append (.cons rfl .nil))
  | array _ ih => exact .cons rfl ((ih false).append (.cons rfl .nil))
  | emptyObject hw => exact .cons rfl ((Passes.ws hw).append (.cons rfl .nil))
  | object _ ih => exact .cons rfl ((ih false).append (.cons rfl .nil))
  | element hl _ hr ih => exact ((Passes.ws hl).append (ih comma)).append (.ws hr)
  | elementsComma _ _ iha ihb => exact (iha comma).append (.cons rfl (ihb true))
  | member hl hk hm hn _ hr ih =>
    have hval := ((Passes.ws hn).append (ih false)).append (Passes.ws hr)
    have hkey := (Passes.ws hm).append (Passes.cons (m := .text false) (x := 0x3A) rfl hval)
    exact (Passes.ws hl).append
      (.cons rfl ((hk.passes []).append (.endString (by simpa using hk) hkey)))
  | membersComma _ _ iha ihb => exact (iha comma).append (.cons rfl (ihb true))

theorem IsObject.passes {w : Bytes} (h : IsObject w) : Passes (.text false) w (.text false) := by
  obtain ⟨l, o, r, rfl, hl, ho, hr⟩ := h
  have ho' : Passes (.text false) o (.text false) := ho.elim .ws fun h => h.passes false
  exact (Passes.ws hl).append (.cons rfl (ho'.append (.cons rfl (.ws hr))))

/-! ### Text that breaks out of a string -/

/-- Without a quote in it, a string body can only be left by a last backslash. -/
theorem run_of_quoteless {w : Bytes} (hw : 0x22 ∉ w) (read : Bytes) :
    ((Mode.body read).run w = .body (read ++ w) ∨ ∃ r, (Mode.body read).run w = .esc r) ∧
    ((Mode.esc read).run w = .body (read ++ 0x5C :: w) ∨ ∃ r, (Mode.esc read).run w = .esc r) := by
  induction w generalizing read with
  | nil => exact ⟨.inl (by simp), .inr ⟨read, rfl⟩⟩
  | cons b w ih =>
    simp only [List.mem_cons, not_or] at hw
    constructor
    · by_cases hb : b = 0x5C
      · subst hb
        exact (ih hw.2 read).2
      · have hstep : (Mode.body read).step b = .body (read ++ [b]) := by
          simp only [Mode.step, Ne.symm hw.1, hb, if_false]
        have := (ih hw.2 (read ++ [b])).1
        rw [Mode.run_cons, hstep]
        simpa using this
    · have := (ih hw.2 (read ++ [0x5C, b])).1
      simpa [Mode.step] using this

/-- Text that closes a string and opens another one, which it leaves the machine in. Read
from anywhere else it leads to failure, also after a backslash, which hides its first quote. -/
structure Syncs (q k : Bytes) : Prop where
  quote : q.head? = some 0x22
  text : ∀ comma, (Mode.text comma).run q = .bad
  body : ∀ read, (Mode.body read).run q = .body k
  esc : ∀ read, (Mode.esc read).run q = .bad

/-- **An arbitrary name before such text**: unless the machine fails it ends in the one
place, and then a name without quotes is the body of a string. -/
theorem Syncs.name {q k name : Bytes} {m : Mode} (hq : Syncs q k)
    (h : Passes (.body []) (name ++ q) m) (hm : m ≠ .bad) :
    m = .body k ∧ (0x22 ∉ name → Chars name) := by
  have hrun := h.run
  rw [Mode.run_append] at hrun
  have hk : m = .body k := by
    cases hname : (Mode.body []).run name with
    | text comma => exact absurd (hrun.symm.trans (hname ▸ hq.text comma)) hm
    | body read => exact hrun.symm.trans (hname ▸ hq.body read)
    | esc read => exact absurd (hrun.symm.trans (hname ▸ hq.esc read)) hm
    | bad => exact absurd (hrun.symm.trans (hname ▸ Mode.run_bad q)) hm
  refine ⟨hk, ?_⟩
  intro hname
  apply h.proper
  rcases (run_of_quoteless hname []).1 with hbody | ⟨r, hesc⟩
  · rw [bodies_append, hbody]
    cases q with
    | nil => cases hq.quote
    | cons x q =>
      have hx : x = 0x22 := by simpa using hq.quote
      subst hx
      simp [bodies, Mode.closed]
  · rw [hesc, hq.esc r] at hrun
    exact absurd hrun.symm hm

/-- A loop whose every round, unless the machine fails, ends outside strings. -/
theorem Passes.flatMap {α : Type} {f : α → Bytes} {P : α → Prop} {xs : List α} {comma : Bool}
    {m : Mode} (hf : ∀ x ∈ xs, ∀ c m, Passes (.text c) (f x) m → m ≠ .bad →
      (∃ c', m = .text c') ∧ P x)
    (h : Passes (.text comma) (xs.flatMap f) m) (hm : m ≠ .bad) :
    (∃ c, m = .text c) ∧ ∀ x ∈ xs, P x := by
  induction xs generalizing comma with
  | nil => exact ⟨⟨comma, h.run.symm⟩, by simp⟩
  | cons x xs ih =>
    obtain ⟨hx, hxs⟩ := List.forall_mem_cons.mp hf
    rw [List.flatMap_cons] at h
    obtain ⟨m', h1, h2⟩ := h.split
    obtain ⟨⟨c, rfl⟩, hP⟩ := hx comma m' h1 (h2.ne_bad hm)
    obtain ⟨hc, hPs⟩ := ih hxs h2
    exact ⟨hc, List.forall_mem_cons.mpr ⟨hP, hPs⟩⟩

end Vmon.Json
