import Vmon.Lib.Bytes

/-!
# Documents on lines

Which texts are one JSON document each, as far as braces tell, and which streams of bytes
hold one such document on every line. A scan counts braces outside strings; a document ends
where the last open brace is closed.

`framed_written` is about a writer that puts a newline after some of its documents: the
stream is framed when it puts one after each.

## Main definitions

* `Scan`, `OneDocument` — the scan of a text, and the texts that are one document.
* `Framed` — the lines of a stream are documents, the last one ended.
* `Scans` — how a text takes the scan from depth to depth inside a document.
* `Clean` — the texts that may stand between quotes as they are.
* `Document`, `written` — documents without newline, and what a writer makes of them.
-/

namespace Vmon

/-! ## Scanning -/

/-- How many braces are open, whether the scan is inside a string, and just after a
backslash there, and how many documents were closed. -/
structure Scan where
  depth : ℕ
  quoted : Bool
  escaped : Bool
  documents : ℕ
  deriving DecidableEq

namespace Scan

def start : Scan := ⟨0, false, false, 0⟩

/-- A brace is closed; with none open it counts as a document of its own. -/
def close (s : Scan) : Scan :=
  match s.depth with
  | d + 2 => { s with depth := d + 1 }
  | _ => { s with depth := 0, documents := s.documents + 1 }

def step (s : Scan) (b : UInt8) : Scan :=
  if s.quoted then
    if s.escaped then { s with escaped := false }
    else if b = 0x5C then { s with escaped := true }
    else if b = 0x22 then { s with quoted := false }
    else s
  else if b = 0x22 then { s with quoted := true }
  else if b = 0x7B then { s with depth := s.depth + 1 }
  else if b = 0x7D then s.close
  else s

def run (s : Scan) (w : Bytes) : Scan := w.foldl step s

@[simp] theorem run_nil (s : Scan) : s.run [] = s := rfl

@[simp] theorem run_cons (s : Scan) (b : UInt8) (w : Bytes) :
    s.run (b :: w) = (s.step b).run w := rfl

theorem run_append (s : Scan) (v w : Bytes) : s.run (v ++ w) = (s.run v).run w :=
  List.foldl_append

/-- More documents than `n` are closed, or one is open. -/
def Beyond (n : ℕ) (s : Scan) : Prop := n < s.documents ∨ n ≤ s.documents ∧ 0 < s.depth

theorem Beyond.close {n : ℕ} {s : Scan} (h : s.Beyond n) : s.close.Beyond n := by
  unfold Beyond at h ⊢
  unfold Scan.close
  split
  · simp only at h ⊢
    omega
  · simp only
    omega

theorem Beyond.step {n : ℕ} {s : Scan} (h : s.Beyond n) (b : UInt8) : (s.step b).Beyond n := by
  unfold Scan.step
  split_ifs
  case pos => exact h
  case pos => exact h
  case pos => exact h
  case neg => exact h
  case pos => exact h
  case pos => exact h.imp_right fun h => ⟨h.1, Nat.succ_pos _⟩
  case pos => exact h.close
  case neg => exact h

theorem Beyond.run {n : ℕ} {s : Scan} (h : s.Beyond n) (w : Bytes) : (s.run w).Beyond n := by
  induction w generalizing s with
  | nil => exact h
  | cons b w ih => exact ih (h.step b)

end Scan

/-- The text is one document, from its first brace to its last. -/
def OneDocument (line : Bytes) : Prop :=
  line.head? = some 0x7B ∧ line.getLast? = some 0x7D ∧ Scan.start.run line = ⟨0, false, false, 1⟩

instance (line : Bytes) : Decidable (OneDocument line) :=
  inferInstanceAs (Decidable (_ ∧ _ ∧ _))

/-- A document with another one begun after it is not one document. -/
theorem OneDocument.not_append {d w : Bytes} (hd : OneDocument d) (hw : w.head? = some 0x7B) :
    ¬OneDocument (d ++ w) := by
  intro h
  cases w with
  | nil => simp at hw
  | cons b w =>
    obtain rfl : b = 0x7B := by simpa using hw
    have hrun := h.2.2
    rw [Scan.run_append, hd.2.2, Scan.run_cons] at hrun
    have hopen : (Scan.step ⟨0, false, false, 1⟩ 0x7B).Beyond 1 := .inr ⟨le_rfl, Nat.one_pos⟩
    have hbeyond := hopen.run w
    rw [hrun] at hbeyond
    rcases hbeyond with hlt | ⟨-, hlt⟩ <;> exact absurd hlt (lt_irrefl _)

/-! ## Streams of lines -/

/-- Split at its newlines, the stream is a document on each line, and nothing after the
last newline. -/
def Framed (out : Bytes) : Prop :=
  ∃ lines, out.splitOn 0x0A = lines ++ [[]] ∧ ∀ line ∈ lines, OneDocument line

theorem framed_iff_getLast {out : Bytes} :
    Framed out ↔ (out.splitOn 0x0A).getLast? = some [] ∧
      ∀ line ∈ (out.splitOn 0x0A).dropLast, OneDocument line := by
  constructor
  · rintro ⟨lines, hlines, hall⟩
    rw [hlines, List.getLast?_concat, List.dropLast_concat]
    exact ⟨rfl, hall⟩
  · rintro ⟨hlast, hall⟩
    exact ⟨_, (List.dropLast_append_getLast? [] hlast).symm, hall⟩

instance (out : Bytes) : Decidable (Framed out) := decidable_of_iff' _ framed_iff_getLast

theorem framed_nil : Framed [] := ⟨[], rfl, by simp⟩

/-- A framed stream is empty, or a line and a framed stream. -/
theorem framed_line {d out : Bytes} (hd : 0x0A ∉ d) :
    Framed (d ++ 0x0A :: out) ↔ OneDocument d ∧ Framed out := by
  have hsplit := List.splitOn_append_cons_self_of_not_mem hd out
  constructor
  · rintro ⟨lines, hlines, hall⟩
    rw [hsplit] at hlines
    cases lines with
    | nil => simp [List.splitOn_ne_nil] at hlines
    | cons line lines =>
      obtain ⟨rfl, htail⟩ := List.cons.inj hlines
      exact ⟨hall d List.mem_cons_self, lines, htail,
        fun line hline => hall line (List.mem_cons_of_mem d hline)⟩
  · rintro ⟨hone, lines, hlines, hall⟩
    refine ⟨d :: lines, by rw [hsplit, hlines, List.cons_append], ?_⟩
    intro line hline
    rcases List.mem_cons.mp hline with rfl | hline
    · exact hone
    · exact hall line hline

/-- What has no newline is framed only when it is empty. -/
theorem Framed.eq_nil {out : Bytes} (h : Framed out) (hout : 0x0A ∉ out) : out = [] := by
  rcases h with ⟨lines, hlines, -⟩
  rw [List.splitOn_eq_singleton hout] at hlines
  cases lines with
  | nil => simpa using hlines
  | cons line lines => simp at hlines

/-- **A document that no newline ends** spoils the stream, whatever the writer goes on with. -/
theorem not_framed_append {d out : Bytes} (hd : OneDocument d) (hnl : 0x0A ∉ d)
    (hout : out = [] ∨ out.head? = some 0x7B) : ¬Framed (d ++ out) := by
  intro h
  by_cases hmem : 0x0A ∈ out
  · -- the line goes on to the next newline
    obtain ⟨w, rest, rfl, hw⟩ := List.eq_append_cons_of_mem hmem
    rw [← List.append_assoc, framed_line (by simp [hnl, hw])] at h
    rcases hout with hout | hout
    · simp at hout
    · cases w with
      | nil => simp at hout
      | cons b w => exact hd.not_append (by simpa using hout) h.1
  · have hnil := h.eq_nil (by simp [hnl, hmem])
    have hne : d ≠ [] := by
      rintro rfl
      simp [OneDocument] at hd
    exact hne (List.append_eq_nil_iff.mp hnil).1

/-! ## Writers -/

/-- One document, without a newline in it. -/
structure Document where
  text : Bytes
  one : OneDocument text
  unbroken : 0x0A ∉ text

/-- Documents one after the other, each with a newline where the flag says so. -/
def written (docs : List (Document × Bool)) : Bytes :=
  docs.flatMap fun d => d.1.text ++ if d.2 then [0x0A] else []

@[simp] theorem written_nil : written [] = [] := rfl

@[simp] theorem written_append (docs docs' : List (Document × Bool)) :
    written (docs ++ docs') = written docs ++ written docs' := List.flatMap_append

theorem written_cons (d : Document × Bool) (docs : List (Document × Bool)) :
    written (d :: docs) = d.1.text ++ ((if d.2 then [0x0A] else []) ++ written docs) := by
  rw [written, List.flatMap_cons, List.append_assoc]
  rfl

theorem head_written (docs : List (Document × Bool)) :
    written docs = [] ∨ (written docs).head? = some 0x7B := by
  cases docs with
  | nil => exact .inl rfl
  | cons d docs =>
    right
    rw [written_cons, List.head?_append, d.1.one.1, Option.some_or]

/-- **A writer's stream is framed** exactly when every document got its newline. -/
theorem framed_written (docs : List (Document × Bool)) :
    Framed (written docs) ↔ ∀ d ∈ docs, d.2 = true := by
  induction docs with
  | nil => simpa using framed_nil
  | cons d docs ih =>
    rw [written_cons, List.forall_mem_cons, ← ih]
    by_cases hd : d.2 = true
    · have hline : Framed (d.1.text ++ 0x0A :: written docs) ↔ _ := framed_line d.1.unbroken
      rw [if_pos hd, List.singleton_append, hline]
      simp [hd, d.1.one]
    · rw [if_neg hd, List.nil_append]
      simpa [hd] using not_framed_append d.1.one d.1.unbroken (head_written docs)

/-! ## Parts of a document -/

/-- Inside a document the text takes the scan from depth `i` to depth `j`, and has no
newline. The flags say whether it starts and ends inside a string. -/
structure Scans (q : Bool) (i : ℕ) (w : Bytes) (q' : Bool) (j : ℕ) : Prop where
  run (d docs : ℕ) : (Scan.mk (d + 1 + i) q false docs).run w = ⟨d + 1 + j, q', false, docs⟩
  unbroken : 0x0A ∉ w

/-- No quote, no backslash and no control character. -/
def Clean (w : Bytes) : Prop := ∀ b ∈ w, b ≠ 0x22 ∧ b ≠ 0x5C ∧ 0x20 ≤ b

instance (w : Bytes) : Decidable (Clean w) := inferInstanceAs (Decidable (∀ b ∈ w, _))

namespace Scans

variable {q q' q'' : Bool} {i j k : ℕ} {v w : Bytes}

theorem nil : Scans q i [] q i := ⟨fun _ _ => rfl, by simp⟩

theorem append (hv : Scans q i v q' j) (hw : Scans q' j w q'' k) : Scans q i (v ++ w) q'' k := by
  refine ⟨?_, by simp [hv.unbroken, hw.unbroken]⟩
  intro d docs
  rw [Scan.run_append, hv.run, hw.run]

/-- The check of a fixed text: whether it is inside a string, and the depth, without the
document around it. -/
def track : Bool → ℕ → Bytes → Option (Bool × ℕ)
  | q, i, [] => some (q, i)
  | true, i, b :: w =>
    if b = 0x0A ∨ b = 0x5C then none else track (b ≠ 0x22) i w
  | false, i, b :: w =>
    if b = 0x0A then none
    else if b = 0x22 then track true i w
    else if b = 0x7B then track false (i + 1) w
    else if b = 0x7D then
      match i with
      | 0 => none
      | i + 1 => track false i w
    else track false i w

theorem cons {b : UInt8} (hb : b ≠ 0x0A)
    (hstep : ∀ d docs, (Scan.mk (d + 1 + i) q false docs).step b = ⟨d + 1 + j, q', false, docs⟩)
    (hw : Scans q' j w q'' k) : Scans q i (b :: w) q'' k := by
  refine ⟨?_, by simp [hb.symm, hw.unbroken]⟩
  intro d docs
  rw [Scan.run_cons, hstep, hw.run]

/-- **Fixed texts** are checked by computation. -/
theorem of_track (h : track q i w = some (q', j)) : Scans q i w q' j := by
  induction w generalizing q i with
  | nil =>
    simp only [track, Option.some.injEq, Prod.mk.injEq] at h
    rw [h.1, h.2]
    exact nil
  | cons b w ih =>
    cases q with
    | true =>
      simp only [track, Option.ite_none_left_eq_some, not_or] at h
      obtain ⟨⟨hnl, hslash⟩, h⟩ := h
      refine (ih h).cons hnl fun d docs => ?_
      by_cases hquote : b = 0x22 <;> simp [Scan.step, hslash, hquote]
    | false =>
      simp only [track, Option.ite_none_left_eq_some] at h
      obtain ⟨hnl, h⟩ := h
      split_ifs at h with hquote hopen hclose
      · exact (ih h).cons hnl fun d docs => by simp [Scan.step, hquote]
      · exact (ih h).cons hnl fun d docs => by simp [Scan.step, hopen]; omega
      · cases i with
        | zero => simp at h
        | succ i =>
          exact (ih h).cons hnl fun d docs => by
            simp [Scan.step, hclose, Scan.close, show d + 1 + (i + 1) = d + i + 2 by omega]
            omega
      · exact (ih h).cons hnl fun d docs => by simp [Scan.step, hquote, hopen, hclose]

/-- Deeper inside the same text does the same. -/
theorem deeper (hw : Scans q i w q' j) (m : ℕ) : Scans q (i + m) w q' (j + m) := by
  refine ⟨?_, hw.unbroken⟩
  intro d docs
  have h := hw.run (d + m) docs
  rwa [show d + m + 1 + i = d + 1 + (i + m) by omega,
    show d + m + 1 + j = d + 1 + (j + m) by omega] at h

/-- What neither quotes nor opens nor closes anything. -/
theorem quiet (hw : ∀ b ∈ w, b ≠ 0x22 ∧ b ≠ 0x5C ∧ b ≠ 0x7B ∧ b ≠ 0x7D ∧ b ≠ 0x0A) :
    Scans q i w q i := by
  induction w with
  | nil => exact nil
  | cons b w ih =>
    obtain ⟨⟨hquote, hslash, hopen, hclose, hnl⟩, hw⟩ := List.forall_mem_cons.mp hw
    exact (ih hw).cons hnl fun d docs => by simp [Scan.step, hquote, hslash, hopen, hclose]

/-- A clean text is the body of a string. -/
theorem body (hw : Clean w) : Scans true i w true i := by
  induction w with
  | nil => exact nil
  | cons b w ih =>
    obtain ⟨⟨hquote, hslash, hcontrol⟩, hw⟩ := List.forall_mem_cons.mp hw
    have hnl : b ≠ 0x0A := by
      rintro rfl
      exact absurd hcontrol (by decide)
    exact (ih hw).cons hnl fun d docs => by simp [Scan.step, hquote, hslash]

/-- A clean text between two fixed ones that have the quotes. -/
theorem around {pre post : Bytes} (hpre : track q i pre = some (true, j)) (hw : Clean w)
    (hpost : track true j post = some (q', k)) : Scans q i (pre ++ w ++ post) q' k :=
  ((of_track hpre).append (body hw)).append (of_track hpost)

theorem digits (n : ℕ) : Scans q i (decimal n) q i := by
  apply quiet
  intro b hb
  have hdigit := isDigit_of_mem_decimal hb
  refine ⟨?_, ?_, ?_, ?_, ?_⟩ <;> rintro rfl <;> exact absurd hdigit (by decide)

theorem digitsInt (z : ℤ) : Scans q i (decimalInt z) q i := by
  unfold decimalInt
  split
  · exact (quiet (w := [0x2D]) (by decide)).append (digits _)
  · exact digits _

theorem flatMap {α : Type} {xs : List α} {f : α → Bytes} (h : ∀ x ∈ xs, Scans q i (f x) q i) :
    Scans q i (xs.flatMap f) q i := by
  induction xs with
  | nil => exact nil
  | cons x xs ih =>
    obtain ⟨hx, hxs⟩ := List.forall_mem_cons.mp h
    exact hx.append (ih hxs)

/-- What lies between the first and the last brace of a document. -/
theorem oneDocument (hw : Scans false 0 w false 0) : OneDocument (0x7B :: w ++ [0x7D]) := by
  refine ⟨rfl, List.getLast?_concat, ?_⟩
  have hopen : Scan.start.step 0x7B = ⟨0 + 1 + 0, false, false, 0⟩ := rfl
  rw [List.cons_append, Scan.run_cons, hopen, Scan.run_append, hw.run]
  rfl

end Scans

/-- A document, by what lies between its braces. -/
def Document.ofBody (w : Bytes) (hw : Scans false 0 w false 0) : Document :=
  ⟨0x7B :: w ++ [0x7D], hw.oneDocument, by simp [hw.unbroken]⟩

end Vmon
