import Vmon.Lib.Traced
import Vmon.VmInfo.Parse

/-!
# The scanner of indexed names

`scan_field` on a memory that holds a name, its NUL and anything after it, with the reads it makes.
It looks for the digits at the start of the name and not after the prefix, so the suffix it leaves
is never the one of the name (`scan_field_exact_iff`). Its reads stay in the name.

## Main definitions

* `scanFieldAt` — `scan_field` with its reads; `scanFieldAt_eq` relates it to `scanField`.
* `IndexedName` — the grammar.
* `ScansExactly` — the promise.
* `leadingIndex` — the number at the start of a prefix.
-/

namespace Vmon

/-! ### Reads -/

/-- The string at the start of a memory. -/
def cString (mem : Bytes) : Bytes := mem.takeWhile (· != 0)

def readAt (mem : Bytes) (pc : ℕ) : Traced ℕ UInt8 := ⟨mem.getD pc 0, [pc]⟩

/-- `strstartswith`; `strstr` may read the whole string and its NUL. -/
def strstartswithAt (mem pfx : Bytes) : Traced ℕ Bool :=
  ⟨strstartswith (cString mem) pfx, List.range ((cString mem).length + 1)⟩

/-- The loop that moves at most `j` digits into the buffer, from `pc` on. -/
def scanDigitsAt (mem : Bytes) : ℕ → ℕ → Traced ℕ (Bytes × ℕ)
  | 0, pc => pure ([], pc)
  | j + 1, pc => do
    let c ← readAt mem pc
    if isDigit c then do
      let r ← scanDigitsAt mem j (pc + 1)
      pure (c :: r.1, r.2)
    else pure ([], pc)

/-- The match that `scan_field` fills, its suffix a position in the memory. -/
structure FieldMatchAt where
  suffix : ℕ
  offset : ℕ
  deriving DecidableEq

/-- `scan_field` on the name at the start of a memory; `none` where it returns `0`. -/
def scanFieldAt (scan : FieldScanner) (mem : Bytes) : Traced ℕ (Option FieldMatchAt) := do
  let starts ← strstartswithAt mem scan.pfx
  if !starts then pure none
  else do
    let r ← scanDigitsAt mem (offBufLen - 1) 0
    let m : FieldMatchAt := { suffix := r.2 + 1, offset := atol r.1 }
    pure (if m.offset < scan.maxoffset then some m else none)

/-- What a match says of a name in a memory. -/
def FieldMatchAt.read (mem : Bytes) (m : FieldMatchAt) : FieldMatch :=
  { suffix := cString (mem.drop m.suffix), offset := m.offset }

/-! ### The promise -/

/-- **The grammar**: the prefix, an index in decimal digits, a dot, and a suffix. -/
def IndexedName (pfx name : Bytes) (n : ℕ) (suffix : Bytes) : Prop :=
  ∃ digits : Bytes, digits ≠ [] ∧ (∀ c ∈ digits, isDigit c = true) ∧ readDecimal digits = n ∧
    name = pfx ++ digits ++ 0x2E :: suffix

/-- **The promise** for a name in a memory that goes on with the bytes `more`. -/
structure ScansExactly (pfx name more : Bytes) (maxoffset : ℕ) : Prop where
  accepts : (scanFieldAt ⟨pfx, maxoffset⟩ (name ++ 0 :: more)).value.isSome = true ↔
    ∃ n < maxoffset, ∃ suffix : Bytes, IndexedName pfx name n suffix
  fills : ∀ m, (scanFieldAt ⟨pfx, maxoffset⟩ (name ++ 0 :: more)).value = some m →
    IndexedName pfx name m.offset (m.read (name ++ 0 :: more)).suffix
  reads : ∀ pos ∈ (scanFieldAt ⟨pfx, maxoffset⟩ (name ++ 0 :: more)).log, pos ≤ name.length

/-- What `atol` makes of the digits that a prefix starts with, as far as they fit the buffer;
zero where there are none. -/
def leadingIndex (pfx : Bytes) : ℕ :=
  min (readDecimal ((pfx.takeWhile isDigit).take 127)) (2 ^ 63 - 1)

section Scan

variable {pfx name more : Bytes} {maxoffset : ℕ}

theorem cString_append (hname : 0 ∉ name) : cString (name ++ 0 :: more) = name := by
  have hbytes : ∀ c ∈ name, (c != 0) = true := by
    intro c hc
    rw [bne_iff_ne]
    rintro rfl
    exact hname hc
  rw [cString, List.takeWhile_append_of_pos hbytes]
  simp

/-- What the loop over the digits takes. -/
theorem scanDigits_eq (j : ℕ) (pc : Bytes) :
    scanDigits j pc =
      ((pc.takeWhile isDigit).take j, pc.drop ((pc.takeWhile isDigit).take j).length) := by
  induction j generalizing pc with
  | zero => cases pc <;> simp [scanDigits]
  | succ j ih =>
    cases pc with
    | nil => simp [scanDigits]
    | cons c pc =>
      by_cases hc : isDigit c = true
      · simp [scanDigits, hc, ih]
      · simp [scanDigits, hc]

/-- The byte at the start of what a memory holds from `pc` on. -/
theorem readAt_value {mem rest : Bytes} {pc : ℕ} {c : UInt8} (hmem : mem.drop pc = c :: rest) :
    (readAt mem pc).value = c := by
  have hhead : mem[pc]? = some c := by rw [← List.head?_drop, hmem, List.head?_cons]
  rw [readAt, List.getD_eq_getElem?_getD, hhead, Option.getD_some]

/-- **The loop over the digits** of a string in a memory takes the digits of the string, and reads
no further than its NUL. -/
theorem scanDigitsAt_eq {mem str : Bytes} {pc : ℕ} (hmem : mem.drop pc = str ++ 0 :: more) (j : ℕ) :
    (scanDigitsAt mem j pc).value = ((scanDigits j str).1, pc + (scanDigits j str).1.length) ∧
      ∀ pos ∈ (scanDigitsAt mem j pc).log, pos ≤ pc + str.length := by
  induction j generalizing str pc with
  | zero => cases str <;> simp [scanDigitsAt, scanDigits]
  | succ j ih =>
    cases str with
    | nil =>
      have hread := readAt_value hmem
      have hlog : (readAt mem pc).log = [pc] := rfl
      simp [scanDigitsAt, scanDigits, hread, hlog, show isDigit 0 = false from rfl]
    | cons c str =>
      have hread := readAt_value hmem
      have hlog : (readAt mem pc).log = [pc] := rfl
      by_cases hc : isDigit c = true
      · have hrest : mem.drop (pc + 1) = str ++ 0 :: more := by
          rw [← List.drop_drop, hmem]
          rfl
        obtain ⟨hvalue, hreads⟩ := ih hrest
        simp only [scanDigitsAt, Traced.value_bind, Traced.log_bind, hread, hlog, hc, if_true,
          Traced.value_pure, Traced.log_pure, scanDigits, hvalue, List.length_cons]
        constructor
        · rw [Nat.add_assoc, Nat.add_comm 1]
        · intro pos hpos
          simp only [List.append_nil, List.mem_append, List.mem_singleton] at hpos
          rcases hpos with rfl | hpos
          · omega
          · have := hreads pos hpos
            omega
      · simp [scanDigitsAt, scanDigits, hread, hlog, hc]

/-- The loop over the digits of `scan_field`, at the start of the name. -/
theorem scanDigitsAt_start (name more : Bytes) :
    (scanDigitsAt (name ++ 0 :: more) (offBufLen - 1) 0).value =
        ((name.takeWhile isDigit).take 127, ((name.takeWhile isDigit).take 127).length) ∧
      ∀ pos ∈ (scanDigitsAt (name ++ 0 :: more) (offBufLen - 1) 0).log, pos ≤ name.length := by
  have hmem : (name ++ 0 :: more).drop 0 = name ++ 0 :: more := rfl
  obtain ⟨hvalue, hreads⟩ := scanDigitsAt_eq hmem (offBufLen - 1)
  rw [scanDigits_eq, Nat.zero_add] at hvalue
  rw [Nat.zero_add] at hreads
  exact ⟨hvalue, hreads⟩

/-- A prefix that ends in a dot holds the digits that any name with it starts with. -/
theorem leading_digits (rest : Bytes) (hdot : pfx.getLast? = some 0x2E) :
    (pfx ++ rest).takeWhile isDigit = pfx.takeWhile isDigit ∧
      (pfx.takeWhile isDigit).length < pfx.length := by
  obtain ⟨init, rfl⟩ := List.getLast?_eq_some_iff.mp hdot
  have hstop : ∀ more : Bytes, (init ++ 0x2E :: more).takeWhile isDigit = init.takeWhile isDigit := by
    intro more
    rw [List.takeWhile_append]
    split
    · next h =>
      rw [(List.takeWhile_prefix isDigit).eq_of_length h]
      simp [isDigit]
    · rfl
  constructor
  · rw [List.append_assoc, List.singleton_append, hstop, hstop]
  · have hle := (List.takeWhile_prefix (l := init) isDigit).length_le
    rw [hstop, List.length_append, List.length_singleton]
    omega

/-- **What the function does** on a name in a memory: the index and the suffix are those of the
prefix, whatever comes after it. -/
theorem scanFieldAt_value (hdot : pfx.getLast? = some 0x2E) (hname : 0 ∉ name) :
    (scanFieldAt ⟨pfx, maxoffset⟩ (name ++ 0 :: more)).value =
      if pfx <+: name ∧ leadingIndex pfx < maxoffset then
        some ⟨((pfx.takeWhile isDigit).take 127).length + 1, leadingIndex pfx⟩
      else none := by
  have hstarts : (strstartswithAt (name ++ 0 :: more) pfx).value = strstartswith name pfx := by
    rw [strstartswithAt, cString_append hname]
  simp only [scanFieldAt, Traced.value_bind, hstarts]
  by_cases hpfx : pfx <+: name
  · obtain ⟨rest, rfl⟩ := hpfx
    have hvalue := (scanDigitsAt_start (pfx ++ rest) more).1
    rw [(leading_digits rest hdot).1] at hvalue
    have htrue : strstartswith (pfx ++ rest) pfx = true :=
      strstartswith_iff.mpr (List.prefix_append _ _)
    simp only [htrue, Bool.not_true, Bool.false_eq_true, if_false, Traced.value_bind, hvalue,
      Traced.value_pure, List.prefix_append, true_and]
    rfl
  · have hfalse : strstartswith name pfx = false := by
      rwa [← Bool.not_eq_true, strstartswith_iff]
    simp [hfalse, hpfx]

/-- **Its reads** stay in the name and its NUL. -/
theorem scanFieldAt_reads (hname : 0 ∉ name) :
    ∀ pos ∈ (scanFieldAt ⟨pfx, maxoffset⟩ (name ++ 0 :: more)).log, pos ≤ name.length := by
  have hin : Traced.Closed fun log : List ℕ => ∀ pos ∈ log, pos ≤ name.length :=
    Traced.Closed.forall_mem _
  apply hin.bind
  · intro pos hpos
    rw [strstartswithAt, cString_append hname, List.mem_range] at hpos
    omega
  · split
    · exact hin.nil
    · apply hin.bind
      · exact (scanDigitsAt_start name more).2
      · exact hin.nil

/-- **A match is the one of `scanField`.** -/
theorem scanFieldAt_eq (hdot : pfx.getLast? = some 0x2E) (hname : 0 ∉ name) :
    (scanFieldAt ⟨pfx, maxoffset⟩ (name ++ 0 :: more)).value.map
      (FieldMatchAt.read (name ++ 0 :: more)) = scanField ⟨pfx, maxoffset⟩ name := by
  rw [scanFieldAt_value hdot hname]
  by_cases hpfx : pfx <+: name
  · obtain ⟨rest, rfl⟩ := hpfx
    have htrue : strstartswith (pfx ++ rest) pfx = true :=
      strstartswith_iff.mpr (List.prefix_append _ _)
    have hscan : scanDigits (offBufLen - 1) (pfx ++ rest) = ((pfx.takeWhile isDigit).take 127,
        (pfx ++ rest).drop ((pfx.takeWhile isDigit).take 127).length) := by
      rw [scanDigits_eq, (leading_digits rest hdot).1]
      rfl
    have hlen : ((pfx.takeWhile isDigit).take 127).length + 1 ≤ (pfx ++ rest).length := by
      have := (leading_digits rest hdot).2
      rw [List.length_take, List.length_append]
      omega
    have hsuffix : cString ((pfx ++ rest ++ 0 :: more).drop
        (((pfx.takeWhile isDigit).take 127).length + 1)) =
          ((pfx ++ rest).drop ((pfx.takeWhile isDigit).take 127).length).tail := by
      rw [List.drop_append_of_le_length hlen, cString_append, List.tail_drop]
      exact fun h => hname (List.mem_of_mem_drop h)
    simp only [scanField, htrue, hscan, Bool.not_true, Bool.false_eq_true, if_false,
      List.prefix_append, true_and]
    by_cases hmax : leadingIndex pfx < maxoffset
    · have hmax' : atol ((pfx.takeWhile isDigit).take 127) < maxoffset := hmax
      rw [if_pos hmax, if_pos hmax', Option.map_some, FieldMatchAt.read, hsuffix]
      rfl
    · have hmax' : ¬atol ((pfx.takeWhile isDigit).take 127) < maxoffset := hmax
      rw [if_neg hmax, if_neg hmax']
      rfl
  · have hfalse : strstartswith name pfx = false := by
      rwa [← Bool.not_eq_true, strstartswith_iff]
    simp [scanField, hfalse, hpfx]

/-- **The suffix is never the one of the name**: it starts before the end of the prefix. -/
theorem not_indexedName_read (hdot : pfx.getLast? = some 0x2E) (hname : 0 ∉ name) {m : FieldMatchAt}
    (hm : (scanFieldAt ⟨pfx, maxoffset⟩ (name ++ 0 :: more)).value = some m) (n : ℕ) :
    ¬IndexedName pfx name n (m.read (name ++ 0 :: more)).suffix := by
  rw [scanFieldAt_value hdot hname, Option.ite_none_right_eq_some, Option.some.injEq] at hm
  obtain ⟨-, rfl⟩ := hm
  have hlt : ((pfx.takeWhile isDigit).take 127).length < pfx.length := by
    have := (leading_digits [] hdot).2
    rw [List.length_take]
    omega
  generalize ((pfx.takeWhile isDigit).take 127).length = k at hlt
  rintro ⟨digits, hne, -, -, heq⟩
  have hpos : 0 < digits.length := List.length_pos_iff.mpr hne
  have hlen := congrArg List.length heq
  simp only [List.length_append, List.length_cons] at hlen
  have hread : cString ((name ++ 0 :: more).drop (k + 1)) = name.drop (k + 1) := by
    rw [List.drop_append_of_le_length (by omega), cString_append]
    exact fun h => hname (List.mem_of_mem_drop h)
  simp only [FieldMatchAt.read, hread, List.length_drop] at hlen
  omega

end Scan

/-- **The scanner keeps to its grammar exactly where it refuses what the grammar refuses.** What it
accepts it always splits in the wrong place: it accepts the names with the prefix, as far as the
number at the start of the prefix is below the limit. -/
theorem scan_field_exact_iff {pfx name more : Bytes} {maxoffset : ℕ}
    (hdot : pfx.getLast? = some 0x2E) (hname : 0 ∉ name) :
    ScansExactly pfx name more maxoffset ↔
      ¬pfx <+: name ∨ (maxoffset ≤ leadingIndex pfx ∧
        ¬∃ n < maxoffset, ∃ suffix : Bytes, IndexedName pfx name n suffix) := by
  have hvalue := @scanFieldAt_value pfx name more maxoffset hdot hname
  constructor
  · intro H
    by_cases hpfx : pfx <+: name
    · right
      by_cases hmax : leadingIndex pfx < maxoffset
      · -- it accepts, and has the wrong suffix
        rw [if_pos ⟨hpfx, hmax⟩] at hvalue
        exact absurd (H.fills _ hvalue) (not_indexedName_read hdot hname hvalue _)
      · rw [if_neg fun h => hmax h.2] at hvalue
        refine ⟨not_lt.mp hmax, fun hgrammar => ?_⟩
        have := H.accepts.mpr hgrammar
        simp [hvalue] at this
    · exact .inl hpfx
  · intro hcond
    have hnone : (scanFieldAt ⟨pfx, maxoffset⟩ (name ++ 0 :: more)).value = none := by
      rw [hvalue, if_neg]
      rintro ⟨hpfx, hmax⟩
      rcases hcond with h | ⟨h, -⟩
      · exact h hpfx
      · omega
    have hrefused : ¬∃ n < maxoffset, ∃ suffix : Bytes, IndexedName pfx name n suffix := by
      rcases hcond with h | ⟨-, h⟩
      · rintro ⟨n, -, suffix, digits, -, -, -, rfl⟩
        exact h ⟨digits ++ 0x2E :: suffix, by rw [List.append_assoc]⟩
      · exact h
    constructor
    · simpa [hnone] using hrefused
    · simp [hnone]
    · exact scanFieldAt_reads hname

/-- A name of another family. -/
theorem scan_field_exact_net :
    ScansExactly (lit "block.") (lit "net.0.name") [] 1 ↔
      ¬lit "block." <+: lit "net.0.name" ∨ (1 ≤ leadingIndex (lit "block.") ∧
        ¬∃ n < 1, ∃ suffix : Bytes, IndexedName (lit "block.") (lit "net.0.name") n suffix) :=
  scan_field_exact_iff (by decide) (by decide)

/-- The suffix of `block.0.rd.reqs` is `lock.0.rd.reqs`. -/
theorem scan_field_exact_fails :
    ¬∀ (pfx name more : Bytes) (maxoffset : ℕ), pfx.getLast? = some 0x2E → 0 ∉ name →
      ScansExactly pfx name more maxoffset := by
  intro hall
  have H := hall (lit "block.") (lit "block.0.rd.reqs") [] 1 (by decide) (by decide)
  have hvalue : (scanFieldAt ⟨lit "block.", 1⟩ (lit "block.0.rd.reqs" ++ [0])).value =
      some ⟨1, 0⟩ := by decide
  exact not_indexedName_read (by decide) (by decide) hvalue _ (H.fills _ hvalue)

end Vmon
