import Vmon.Lib.Traced
import Vmon.Sampler.Members

/-!
# What the parser of requests reads

The loop of `sampler_parse_request` moves through the table by amounts that it reads from the
table, and compares and copies text between bounds that it reads there too. Here every read is
logged, on a memory that holds something everywhere, and `token_walk_in_bounds` says which reads
there are for any table whose bounds and sizes are in order.

Where the memory holds a text and its table the values are those of `samplerParseTokens`.

## Main definitions

* `RequestMemory`, `Access` — the memory, and one read of it.
* `RequestMemory.parseTokens` — `sampler_parse_request` on a table, with its reads.
* `RequestMemory.TableBounds` — the bounds and sizes are in order.
* `RequestMemory.InBounds` — only the table is read, and text only where a token read is.
-/

namespace Vmon

/-- A read: token `i` of the table, or a byte of the text. -/
inductive Access
  | token (i : ℕ)
  | byte (pos : ℤ)
  deriving DecidableEq

/-- The memory that the table and the text are part of. -/
structure RequestMemory where
  token : ℕ → JsmnTok
  byte : ℤ → UInt8

/-- The conversion of an `int` to `size_t`. -/
def sizeT (z : ℤ) : ℕ := (z % 2 ^ 64).toNat

namespace RequestMemory

/-! ### Reading -/

variable (mem : RequestMemory)

def readToken (i : ℕ) : Traced Access JsmnTok := ⟨mem.token i, [.token i]⟩

def readByte (pos : ℤ) : Traced Access UInt8 := ⟨mem.byte pos, [.byte pos]⟩

/-- `!strncmp(text + pos, word, n)`. -/
def strncmp : ℕ → ℤ → Bytes → Traced Access Bool
  | 0, _, _ => pure true
  | n + 1, pos, word => do
    let c ← mem.readByte pos
    if c ≠ word.headD 0 then pure false
    else if c = 0 then pure true
    else strncmp n (pos + 1) word.tail

/-- The bytes that `strncpy` and `%.*s` take from `text + pos`, at most `n`. -/
def readString : ℕ → ℤ → Traced Access Bytes
  | 0, _ => pure []
  | n + 1, pos => do
    let c ← mem.readByte pos
    if c = 0 then pure [] else (c :: ·) <$> readString n (pos + 1)

/-- The comparisons of `parse_stats_string`. -/
def findStat (len : ℕ) (pos : ℤ) : List (Bytes × UInt32) → Traced Access (Option UInt32)
  | [] => pure none
  | (name, stat) :: names => do
    let same ← mem.strncmp len pos name
    if same then pure (some stat) else findStat len pos names

def parseStatsString (sr : SampleRequest) (pos : ℤ) (len : ℕ) :
    Traced Access (Except RequestError SampleRequest) := do
  let stat ← mem.findStat len pos statNames
  match stat with
  | some stat => pure (.ok { sr with stats := sr.stats ||| stat })
  | none => do
    -- the name is printed
    let name ← mem.readString len pos
    pure (.error (.unknownStat sr.uuid name))

/-- `is_token(text, &tokens[i], word)`. -/
def isToken (i : ℕ) (word : Bytes) : Traced Access Bool := do
  let tok ← mem.readToken i
  if tok.type = .string then mem.strncmp (sizeT (tok.end_ - tok.start)) tok.start word
  else pure false

/-- The branch of a `req-id` with the value `tokens[i]`. -/
def parseReqId (lib : UuidLib) (i : ℕ) (sr : SampleRequest) :
    Traced Access (Except RequestError SampleRequest) := do
  let value ← mem.readToken i
  if value.type ≠ .string then pure (.error .reqIdNotString)
  else if sizeT (value.end_ - value.start) > uuidStringLen then pure (.error .reqIdTooLong)
  else do
    let buf ← mem.readString (min (sizeT (value.end_ - value.start)) uuidStringLen) value.start
    pure (.ok { sr with uuid := (lib.parse (buf.take (uuidStringLen - 1))).getD sr.uuid })

/-- The loop over the `n` items from `tokens[i]` on. -/
def parseStatItems : ℕ → ℕ → SampleRequest → Traced Access (Except RequestError SampleRequest)
  | 0, _, sr => pure (.ok sr)
  | n + 1, i, sr => do
    let stat ← mem.readToken i
    if stat.type ≠ .string then pure (.error .statNotString)
    else do
      let ret ← mem.parseStatsString sr stat.start (sizeT (stat.end_ - stat.start))
      match ret with
      | .error err => pure (.error err)
      | .ok sr => parseStatItems n (i + 1) sr

/-- The branch of a `get-stats` with the value `tokens[i]`. -/
def parseGetStats (i : ℕ) (sr : SampleRequest) :
    Traced Access (Except RequestError SampleRequest) := do
  let value ← mem.readToken i
  if value.type ≠ .array then pure (.error .statsNotArray)
  else mem.parseStatItems value.size (i + 1) sr

/-- One turn of the loop, at token `i` of `r`, and the value of `i` at the next turn. -/
def turn (lib : UuidLib) (r i : ℕ) (sr : SampleRequest) :
    Traced Access (Except RequestError (SampleRequest × ℕ)) := do
  let reqId ← mem.isToken i (lit "req-id")
  if reqId && hasNext i r then do
    let ret ← mem.parseReqId lib (i + 1) sr
    pure (ret.map (·, i + 2))
  else do
    let getStats ← mem.isToken i (lit "get-stats")
    if getStats && hasNext i r then do
      let ret ← mem.parseGetStats (i + 1) sr
      match ret with
      | .error err => pure (.error err)
      | .ok sr => do
        let value ← mem.readToken (i + 1)
        pure (.ok (sr, i + value.size + 2))
    else do
      -- the key is printed
      let key ← mem.readToken i
      let _ ← mem.readString (key.end_ - key.start).toNat key.start
      pure (.ok (sr, i + 1))

/-- The loop over the tokens, from `i` on; `none` where it needs more turns. -/
def walk (lib : UuidLib) (r : ℕ) :
    ℕ → ℕ → SampleRequest → Traced Access (Option (Except RequestError SampleRequest))
  | 0, i, sr => pure (if i < r then none else some (.ok sr))
  | turns + 1, i, sr =>
    if i < r then do
      let next ← mem.turn lib r i sr
      match next with
      | .error err => pure (some (.error err))
      | .ok (sr, i) => walk lib r turns i sr
    else pure (some (.ok sr))

/-- `sampler_parse_request` from the return of `jsmn_parse` with `r` tokens on. -/
def parseTokens (lib : UuidLib) (r turns : ℕ) :
    Traced Access (Option (Except RequestError SampleRequest)) :=
  if r < 1 then pure (some (.error .notObject))
  else do
    let top ← mem.readToken 0
    if top.type ≠ .object then pure (some (.error .notObject))
    else mem.walk lib r turns 1 .zero

/-! ### Bounds -/

/-- **The bounds and sizes of the table are in order**: each token lies in the first `size` bytes
of the text, and counts tokens after it only. -/
structure TableBounds (r : ℕ) (size : UInt64) : Prop where
  room : r ≤ jsonRequestMaxTokens
  order : ∀ i < r, 0 ≤ (mem.token i).start ∧ (mem.token i).start ≤ (mem.token i).end_ ∧
    (mem.token i).end_ ≤ size.toNat
  sizes : ∀ i < r, (mem.token i).size ≤ r - (i + 1)

/-- **Only the table is read**, and of the text only what lies in a token that is read. -/
structure InBounds (r : ℕ) (log : List Access) : Prop where
  tokens : ∀ i, .token i ∈ log → i < r
  bytes : ∀ pos, .byte pos ∈ log →
    ∃ i, .token i ∈ log ∧ (mem.token i).start ≤ pos ∧ pos < (mem.token i).end_

variable {mem} {r : ℕ} {size : UInt64} {lib : UuidLib}

theorem closed_inBounds (mem : RequestMemory) (r : ℕ) : Traced.Closed (mem.InBounds r) := by
  refine ⟨⟨by simp, by simp⟩, fun {a b} ha hb => ⟨?_, ?_⟩⟩
  · intro i hi
    exact (List.mem_append.mp hi).elim (ha.tokens i) (hb.tokens i)
  · intro pos hpos
    rcases List.mem_append.mp hpos with hpos | hpos
    · obtain ⟨i, hi, hrange⟩ := ha.bytes pos hpos
      exact ⟨i, List.mem_append_left _ hi, hrange⟩
    · obtain ⟨i, hi, hrange⟩ := hb.bytes pos hpos
      exact ⟨i, List.mem_append_right _ hi, hrange⟩

/-- The event reads a byte of the token. -/
def ReadsIn (tok : JsmnTok) (e : Access) : Prop := ∃ pos, e = .byte pos ∧ tok.start ≤ pos ∧ pos < tok.end_

theorem closed_readsIn (tok : JsmnTok) :
    Traced.Closed fun log : List Access => ∀ e ∈ log, ReadsIn tok e :=
  Traced.Closed.forall_mem _

/-- A token, and then bytes of it. -/
theorem InBounds.segment {i : ℕ} (hi : i < r) {log : List Access}
    (hlog : ∀ e ∈ log, ReadsIn (mem.token i) e) : mem.InBounds r (.token i :: log) := by
  constructor
  · intro j hj
    rcases List.mem_cons.mp hj with h | h
    · cases h
      exact hi
    · obtain ⟨pos, hpos, -⟩ := hlog _ h
      cases hpos
  · intro pos hpos
    rcases List.mem_cons.mp hpos with h | h
    · cases h
    · obtain ⟨p, hp, hrange⟩ := hlog _ h
      cases hp
      exact ⟨i, List.mem_cons_self, hrange⟩

theorem InBounds.readToken {α : Type} {i : ℕ} (hi : i < r) {f : JsmnTok → Traced Access α}
    (hlog : ∀ e ∈ (f (mem.token i)).log, ReadsIn (mem.token i) e) :
    mem.InBounds r (mem.readToken i >>= f).log :=
  .segment hi hlog

theorem sizeT_eq {z : ℤ} (h0 : 0 ≤ z) (h64 : z < 2 ^ 64) : sizeT z = z.toNat := by
  rw [sizeT, Int.emod_eq_of_lt h0 h64]

/-- The length of a token of the table. -/
theorem TableBounds.length (H : mem.TableBounds r size) {i : ℕ} (hi : i < r) :
    sizeT ((mem.token i).end_ - (mem.token i).start) =
      ((mem.token i).end_ - (mem.token i).start).toNat := by
  obtain ⟨h0, hle, hsize⟩ := H.order i hi
  have h64 : (size.toNat : ℤ) < 2 ^ 64 := by exact_mod_cast size.toNat_lt
  exact sizeT_eq (by omega) (by omega)

/-! ### Reads of the text -/

theorem strncmp_reads {tok : JsmnTok} {n : ℕ} {pos : ℤ} {word : Bytes} (hstart : tok.start ≤ pos)
    (hend : pos + n ≤ tok.end_) : ∀ e ∈ (mem.strncmp n pos word).log, ReadsIn tok e := by
  induction n generalizing pos word with
  | zero => simp [strncmp]
  | succ n ih =>
    rw [strncmp]
    apply (closed_readsIn tok).bind
    · simpa [readByte] using ⟨pos, rfl, hstart, by omega⟩
    · split
      · simp
      · split
        · simp
        · exact ih (by omega) (by omega)

theorem readString_reads {tok : JsmnTok} {n : ℕ} {pos : ℤ} (hstart : tok.start ≤ pos)
    (hend : pos + n ≤ tok.end_) : ∀ e ∈ (mem.readString n pos).log, ReadsIn tok e := by
  induction n generalizing pos with
  | zero => simp [readString]
  | succ n ih =>
    rw [readString]
    apply (closed_readsIn tok).bind
    · simpa [readByte] using ⟨pos, rfl, hstart, by omega⟩
    · split
      · simp
      · rw [Traced.log_map]
        exact ih (by omega) (by omega)

theorem parseStatsString_reads {tok : JsmnTok} {len : ℕ} {sr : SampleRequest}
    (hend : tok.start + len ≤ tok.end_) :
    ∀ e ∈ (mem.parseStatsString sr tok.start len).log, ReadsIn tok e := by
  have hfind : ∀ names, ∀ e ∈ (mem.findStat len tok.start names).log, ReadsIn tok e := by
    intro names
    induction names with
    | nil => simp [findStat]
    | cons name names ih =>
      obtain ⟨name, stat⟩ := name
      rw [findStat]
      apply (closed_readsIn tok).bind (strncmp_reads le_rfl hend)
      split
      · simp
      · exact ih
  apply (closed_readsIn tok).bind (hfind _)
  split
  · simp
  · exact (closed_readsIn tok).bind (readString_reads le_rfl hend) (by simp)

/-! ### Reads of the walk -/

/-- A token of the table, whose bounds are in order: its length is the one of its bytes. -/
theorem TableBounds.start_add (H : mem.TableBounds r size) {i : ℕ} (hi : i < r) :
    (mem.token i).start + sizeT ((mem.token i).end_ - (mem.token i).start) =
      (mem.token i).end_ := by
  obtain ⟨-, hle, -⟩ := H.order i hi
  rw [H.length hi]
  omega

theorem isToken_inBounds (H : mem.TableBounds r size) {i : ℕ} (hi : i < r) (word : Bytes) :
    mem.InBounds r (mem.isToken i word).log := by
  apply InBounds.readToken hi
  split
  · exact strncmp_reads le_rfl (H.start_add hi).le
  · simp

theorem parseReqId_inBounds (H : mem.TableBounds r size) {i : ℕ} (hi : i < r) (sr : SampleRequest) :
    mem.InBounds r (mem.parseReqId lib i sr).log := by
  apply InBounds.readToken hi
  split
  · simp
  · split
    · simp
    · have hend := H.start_add hi
      apply (closed_readsIn _).bind
      · exact readString_reads le_rfl (by omega)
      · simp

theorem parseStatItems_inBounds (H : mem.TableBounds r size) {n i : ℕ} (hi : i + n ≤ r)
    (sr : SampleRequest) : mem.InBounds r (mem.parseStatItems n i sr).log := by
  induction n generalizing i sr with
  | zero => exact (closed_inBounds mem r).nil
  | succ n ih =>
    have hitem : i < r := by omega
    rw [parseStatItems]
    simp only [Traced.log_bind, readToken, List.singleton_append]
    split
    · exact .segment hitem (by simp)
    · have hreads : mem.InBounds r (.token i :: (mem.parseStatsString sr (mem.token i).start
          (sizeT ((mem.token i).end_ - (mem.token i).start))).log) :=
        .segment hitem (parseStatsString_reads (H.start_add hitem).le)
      rw [Traced.log_bind, ← List.cons_append]
      apply (closed_inBounds mem r).append hreads
      split
      · exact (closed_inBounds mem r).nil
      · exact ih (by omega) _

theorem parseGetStats_inBounds (H : mem.TableBounds r size) {i : ℕ} (hi : i < r)
    (sr : SampleRequest) : mem.InBounds r (mem.parseGetStats i sr).log := by
  apply (closed_inBounds mem r).bind (.segment hi (by simp))
  split
  · exact (closed_inBounds mem r).nil
  · have hsize := H.sizes i hi
    apply parseStatItems_inBounds H
    simp only [readToken]
    omega

/-- **One turn** reads in bounds, and moves on. -/
theorem turn_inBounds (H : mem.TableBounds r size) {i : ℕ} (hi : i < r) (sr : SampleRequest) :
    mem.InBounds r (mem.turn lib r i sr).log := by
  have hC := closed_inBounds mem r
  apply hC.bind (isToken_inBounds H hi _)
  split
  · next hreqId =>
    have hnext : i + 1 < r := by simp [hasNext] at hreqId; exact hreqId.2
    exact hC.bind (parseReqId_inBounds H hnext sr) hC.nil
  · apply hC.bind (isToken_inBounds H hi _)
    split
    · next hgetStats =>
      have hnext : i + 1 < r := by simp [hasNext] at hgetStats; exact hgetStats.2
      apply hC.bind (parseGetStats_inBounds H hnext sr)
      split
      · exact hC.nil
      · exact hC.bind (.segment hnext (by simp)) hC.nil
    · obtain ⟨-, hle, -⟩ := H.order i hi
      apply InBounds.readToken hi
      apply (closed_readsIn _).bind
      · exact readString_reads le_rfl (by omega)
      · simp

theorem turn_next {i j : ℕ} {sr sr' : SampleRequest}
    (h : (mem.turn lib r i sr).value = .ok (sr', j)) : i < j := by
  simp only [turn, Traced.value_bind] at h
  split at h
  · obtain ⟨_, -, heq⟩ := except_map_eq_ok.mp h
    cases heq
    omega
  · simp only [Traced.value_bind] at h
    split at h
    · simp only [Traced.value_bind] at h
      split at h
      · cases h
      · cases h
        omega
    · cases h
      omega

theorem walk_inBounds (H : mem.TableBounds r size) (turns i : ℕ) (sr : SampleRequest) :
    mem.InBounds r (mem.walk lib r turns i sr).log := by
  have hC := closed_inBounds mem r
  induction turns generalizing i sr with
  | zero => exact hC.nil
  | succ turns ih =>
    rw [walk]
    split
    · next hi =>
      apply hC.bind (turn_inBounds H hi sr)
      split
      · exact hC.nil
      · exact ih _ _
    · exact hC.nil

/-- **The loop ends**: as many turns as there are tokens left are enough, and more change nothing. -/
theorem walk_ends {turns i : ℕ} {sr : SampleRequest} (hturns : r ≤ i + turns) :
    ∃ ret log, ∀ more, mem.walk lib r (turns + more) i sr = ⟨some ret, log⟩ := by
  induction turns generalizing i sr with
  | zero =>
    have hend : ¬i < r := by omega
    refine ⟨.ok sr, [], fun more => ?_⟩
    cases more with
    | zero => simp [walk, hend, pure]
    | succ more => simp [walk, hend, pure]
  | succ turns ih =>
    by_cases hi : i < r
    · cases hnext : (mem.turn lib r i sr).value with
      | error err =>
        refine ⟨.error err, (mem.turn lib r i sr).log, fun more => ?_⟩
        have hsum : turns + 1 + more = (turns + more) + 1 := by omega
        rw [hsum, walk, if_pos hi]
        ext1 <;> simp [hnext]
      | ok next =>
        obtain ⟨sr', j⟩ := next
        have hlt := turn_next hnext
        obtain ⟨ret, log, hret⟩ := @ih j sr' (by omega)
        refine ⟨ret, (mem.turn lib r i sr).log ++ log, fun more => ?_⟩
        have hsum : turns + 1 + more = (turns + more) + 1 := by omega
        rw [hsum, walk, if_pos hi]
        ext1 <;> simp [hnext, hret]
    · refine ⟨.ok sr, [], fun more => ?_⟩
      have hsum : turns + 1 + more = (turns + more) + 1 := by omega
      rw [hsum, walk, if_neg hi]
      rfl

/-- As many turns as there are tokens are enough, and more change nothing. -/
theorem parseTokens_ends (mem : RequestMemory) (lib : UuidLib) (r : ℕ) :
    ∃ ret log, ∀ turns, r ≤ turns → mem.parseTokens lib r turns = ⟨some ret, log⟩ := by
  unfold parseTokens
  by_cases hr : r < 1
  · exact ⟨.error .notObject, [], fun _ _ => if_pos hr⟩
  · simp only [hr, if_false]
    by_cases htop : (mem.token 0).type = .object
    · obtain ⟨ret, log, hwalk⟩ := @walk_ends mem r lib r 1 .zero (by omega)
      refine ⟨ret, .token 0 :: log, fun turns hturns => ?_⟩
      obtain ⟨more, rfl⟩ := Nat.exists_eq_add_of_le hturns
      ext1 <;> simp [readToken, htop, hwalk]
    · refine ⟨.error .notObject, [.token 0], fun turns _ => ?_⟩
      ext1 <;> simp [readToken, htop]

theorem parseTokens_inBounds (lib : UuidLib) (H : mem.TableBounds r size) (turns : ℕ) :
    mem.InBounds r (mem.parseTokens lib r turns).log := by
  have hC := closed_inBounds mem r
  unfold parseTokens
  split
  · exact hC.nil
  · apply hC.bind (.segment (by omega) (by simp))
    split
    · exact hC.nil
    · exact walk_inBounds H turns 1 _

end RequestMemory

/-- **The walk over a table** ends, whatever the types, sizes and strings in it, and reads only
the table and text inside the tokens that it reads. -/
theorem token_walk_in_bounds (lib : UuidLib) (mem : RequestMemory) (r : ℕ) (size : UInt64)
    (H : mem.TableBounds r size) : ∃ ret log,
      (∀ turns, r ≤ turns → mem.parseTokens lib r turns = ⟨some ret, log⟩) ∧ mem.InBounds r log := by
  obtain ⟨ret, log, hends⟩ := mem.parseTokens_ends lib r
  refine ⟨ret, log, hends, ?_⟩
  have hlog := RequestMemory.parseTokens_inBounds lib H r
  rwa [hends r le_rfl] at hlog

/-- A request for one statistic, and its table. -/
def oneStatMemory : RequestMemory where
  token i := ([⟨.object, 0, 22, 1⟩, ⟨.string, 2, 11, 1⟩, ⟨.array, 13, 21, 1⟩, ⟨.string, 15, 19, 0⟩] :
    List JsmnTok).getD i ⟨.primitive, 0, 0, 0⟩
  byte pos := (lit "\x7b\"get-stats\":[\"vcpu\"]\x7d").getD pos.toNat 0

theorem token_walk_in_bounds_oneStat : ∃ ret log,
    (∀ turns, 4 ≤ turns → oneStatMemory.parseTokens ⟨fun _ => [], fun _ => none⟩ 4 turns =
      ⟨some ret, log⟩) ∧ oneStatMemory.InBounds 4 log :=
  token_walk_in_bounds ⟨fun _ => [], fun _ => none⟩ oneStatMemory 4 22
    ⟨by decide, by decide, by decide⟩

/-! ### The values -/

namespace RequestMemory

/-- The memory holds the table and the text, and anything outside of them. -/
structure HoldsTable (mem : RequestMemory) (text : Bytes) (tokens : List JsmnTok) : Prop where
  token : ∀ i < tokens.length, tokens[i]? = some (mem.token i)
  byte : ∀ p < text.length, text[p]? = some (mem.byte p)

variable {mem : RequestMemory} {text : Bytes} {tokens : List JsmnTok} {lib : UuidLib}

/-- The byte at a place of the text, and the text after it. -/
theorem HoldsTable.drop (h : mem.HoldsTable text tokens) {p : ℕ} (hp : p < text.length) :
    text.drop p = mem.byte p :: text.drop (p + 1) := by
  rw [List.drop_eq_getElem_cons hp]
  have := h.byte p hp
  rw [List.getElem?_eq_getElem hp, Option.some.injEq] at this
  rw [this]

theorem strncmp_value (h : mem.HoldsTable text tokens) {n p : ℕ} {word : Bytes}
    (hend : p + n ≤ text.length) :
    (mem.strncmp n p word).value = Vmon.strncmp n (text.drop p) word := by
  induction n generalizing p word with
  | zero => rfl
  | succ n ih =>
    have hrest := @ih (p + 1) word.tail (by omega)
    rw [Nat.cast_succ] at hrest
    rw [strncmp, Vmon.strncmp, h.drop (by omega)]
    simp only [Traced.value_bind, readByte, List.headD_cons, List.tail_cons]
    generalize word.headD 0 = w
    by_cases hword : mem.byte p = w
    · by_cases hzero : mem.byte p = 0
      · simp [← hword, hzero]
      · simp [← hword, hzero, hrest]
    · simp [hword]

theorem readString_value (h : mem.HoldsTable text tokens) {n p : ℕ} (hend : p + n ≤ text.length) :
    (mem.readString n p).value = ((text.drop p).take n).takeWhile (· ≠ 0) := by
  induction n generalizing p with
  | zero => rfl
  | succ n ih =>
    have hrest := @ih (p + 1) (by omega)
    rw [Nat.cast_succ] at hrest
    rw [readString, h.drop (by omega)]
    simp only [Traced.value_bind, readByte, List.take_succ_cons, List.takeWhile_cons]
    by_cases hzero : mem.byte p = 0
    · simp [hzero]
    · simp [hzero, hrest]

/-- The first bytes of the text that a token of the table goes over. -/
theorem TableBounds.place {size : UInt64} {r i : ℕ} (H : mem.TableBounds r size)
    (hsize : size.toNat ≤ text.length) (hi : i < r) :
    ∃ p : ℕ, (mem.token i).start = p ∧
      sizeT ((mem.token i).end_ - (mem.token i).start) = tokLength (mem.token i) ∧
      p + tokLength (mem.token i) ≤ text.length := by
  obtain ⟨h0, hle, hend⟩ := H.order i hi
  obtain ⟨p, hp⟩ := Int.eq_ofNat_of_zero_le h0
  refine ⟨p, hp, H.length hi, ?_⟩
  simp only [tokLength]
  omega

section Values

variable {size : UInt64} (h : mem.HoldsTable text tokens)
  (H : mem.TableBounds tokens.length size) (hsize : size.toNat ≤ text.length)

include h H hsize

theorem isToken_value {i : ℕ} (hi : i < tokens.length) (word : Bytes) :
    (mem.isToken i word).value = Vmon.isToken text (mem.token i) word := by
  obtain ⟨p, hp, hlen, hend⟩ := H.place hsize hi
  by_cases htype : (mem.token i).type = .string
  · simp only [isToken, Traced.value_bind, readToken, htype, if_true, hlen]
    rw [hp, strncmp_value h hend]
    simp [Vmon.isToken, htype, hp]
  · simp [isToken, Vmon.isToken, readToken, htype]

theorem parseReqId_value {i : ℕ} (hi : i < tokens.length) (sr : SampleRequest) :
    (mem.parseReqId lib i sr).value = Vmon.parseReqId lib text (mem.token i) sr := by
  obtain ⟨p, hp, hlen, hend⟩ := H.place hsize hi
  have hbuf := @readString_value mem text tokens h (min (tokLength (mem.token i)) uuidStringLen) p
    (by omega)
  simp only [parseReqId, Vmon.parseReqId, Traced.value_bind, readToken, hlen]
  by_cases htype : (mem.token i).type = .string
  · by_cases hlong : tokLength (mem.token i) > uuidStringLen
    · simp [htype, hlong]
    · simp only [htype, hlong, ne_eq, not_true, if_false, Traced.value_bind, Traced.value_pure, hp,
        hbuf, uuidbuf, Int.toNat_natCast]
      cases lib.parse _ <;> rfl
  · simp [htype]

theorem parseStatsString_value {i : ℕ} (hi : i < tokens.length) (sr : SampleRequest) :
    (mem.parseStatsString sr (mem.token i).start (tokLength (mem.token i))).value.toOption =
      (Vmon.parseStatsString sr (text.drop (mem.token i).start.toNat)
        (tokLength (mem.token i))).toOption := by
  obtain ⟨p, hp, -, hend⟩ := H.place hsize hi
  have hfind : ∀ names : List (Bytes × UInt32),
      (mem.findStat (tokLength (mem.token i)) p names).value =
        (names.find? fun name =>
          Vmon.strncmp (tokLength (mem.token i)) (text.drop p) name.1).map Prod.snd := by
    intro names
    induction names with
    | nil => rfl
    | cons name names ih =>
      obtain ⟨name, stat⟩ := name
      simp only [findStat, Traced.value_bind, strncmp_value h hend, List.find?_cons]
      split <;> simp_all
  simp only [parseStatsString, Vmon.parseStatsString, Traced.value_bind, hp, hfind, Int.toNat_natCast]
  cases statNames.find? _ <;> rfl

theorem parseStatItems_value {n i : ℕ} (hi : i + n ≤ tokens.length) (sr : SampleRequest) :
    (mem.parseStatItems n i sr).value.toOption =
      (Vmon.parseStatItems text ((tokens.drop i).take n) sr).toOption := by
  induction n generalizing i sr with
  | zero => rfl
  | succ n ih =>
    have hitem : i < tokens.length := by omega
    have htok : tokens[i] = mem.token i := by
      have := h.token i hitem
      rwa [List.getElem?_eq_getElem hitem, Option.some.injEq] at this
    have hparse := parseStatsString_value h H hsize hitem sr
    obtain ⟨-, -, hlen, -⟩ := H.place hsize hitem
    rw [List.drop_eq_getElem_cons hitem, List.take_succ_cons, htok, parseStatItems,
      Vmon.parseStatItems]
    simp only [Traced.value_bind, readToken, hlen]
    by_cases htype : (mem.token i).type = .string
    · simp only [htype, ne_eq, not_true, if_false, Traced.value_bind]
      cases hv : (mem.parseStatsString sr (mem.token i).start (tokLength (mem.token i))).value <;>
        cases hw : Vmon.parseStatsString sr (text.drop (mem.token i).start.toNat)
          (tokLength (mem.token i)) <;>
        simp only [hv, hw, Except.toOption, reduceCtorEq, Option.some.injEq] at hparse ⊢
      · rfl
      · rw [hparse]
        exact ih (by omega) _
    · simp [htype, Except.toOption]

theorem parseGetStats_value {i : ℕ} (hi : i < tokens.length) (sr : SampleRequest) :
    (mem.parseGetStats i sr).value.toOption =
      (if (mem.token i).type ≠ .array then .error .statsNotArray
        else Vmon.parseStatItems text ((tokens.drop (i + 1)).take (mem.token i).size) sr).toOption := by
  have hitems := H.sizes i hi
  simp only [parseGetStats, Traced.value_bind, readToken]
  by_cases htype : (mem.token i).type = .array
  · simp only [htype, ne_eq, not_true, if_false]
    exact parseStatItems_value h H hsize (by omega) sr
  · simp [htype, Except.toOption]

/-- **One turn** is the turn of the loop. -/
theorem turn_value (lib : UuidLib) {i : ℕ} (hi : i < tokens.length) (sr : SampleRequest) :
    (mem.turn lib tokens.length i sr).value.toOption =
      (parseMember lib text tokens i sr).toOption.map (·, nextMember text tokens i) := by
  have hkey := h.token i hi
  have hreqWord := isToken_value h H hsize hi (lit "req-id")
  have hstatsWord := isToken_value h H hsize hi (lit "get-stats")
  simp only [turn, Traced.value_bind, hreqWord]
  by_cases hnext : i + 1 < tokens.length
  · have hvalue := h.token (i + 1) hnext
    simp only [parseMember, nextMember, memberAt, hkey, hvalue, hasNext, hnext]
    by_cases hreqId : Vmon.isToken text (mem.token i) (lit "req-id")
    · simp only [hreqId, Bool.and_self, decide_true, if_true, Traced.value_bind, Traced.value_pure,
        parseReqId_value h H hsize hnext]
      cases Vmon.parseReqId lib text (mem.token (i + 1)) sr <;> rfl
    · by_cases hgetStats : Vmon.isToken text (mem.token i) (lit "get-stats")
      · have hparse := parseGetStats_value h H hsize hnext sr
        simp only [hreqId, hgetStats, Bool.and_self, decide_true, Bool.false_and, if_true, if_false,
          Traced.value_bind, hstatsWord, statItems, Bool.false_eq_true]
        rw [← hparse]
        cases (mem.parseGetStats (i + 1) sr).value <;> rfl
      · simp [hreqId, hgetStats, hstatsWord, Except.toOption]
  · simp [parseMember, nextMember, memberAt, hkey, hasNext, hnext, Except.toOption]

theorem walk_value (lib : UuidLib) {turns i : ℕ} (hturns : tokens.length ≤ i + turns) (sr : SampleRequest) :
    (mem.walk lib tokens.length turns i sr).value.map Except.toOption =
      some (parseMembers lib text tokens turns i sr).toOption := by
  induction turns generalizing i sr with
  | zero => simp [walk, parseMembers, show ¬i < tokens.length by omega]
  | succ turns ih =>
    rw [walk, parseMembers]
    by_cases hi : i < tokens.length
    · have hturn := turn_value h H hsize lib hi sr
      have hlt : i < nextMember text tokens i := lt_nextMember i
      simp only [hi, if_true, Traced.value_bind]
      cases hv : (mem.turn lib tokens.length i sr).value <;>
        cases hw : parseMember lib text tokens i sr <;>
        simp only [hv, hw, Except.toOption, Option.map_none, Option.map_some, reduceCtorEq,
          Option.some.injEq] at hturn
      · rfl
      · subst hturn
        exact ih (by omega) _
    · simp [hi]

/-- **The values are those of the parser.** -/
theorem parseTokens_value (lib : UuidLib) :
    (mem.parseTokens lib tokens.length tokens.length).value.map Except.toOption =
      some (samplerParseTokens lib text tokens).toOption := by
  rw [parseTokens, samplerParseTokens]
  by_cases hr : tokens.length < 1
  · have hnil : tokens = [] := List.length_eq_zero_iff.mp (by omega)
    simp [hnil, Except.toOption]
  · have htop := h.token 0 (by omega)
    have hwalk := @walk_value mem text tokens size h H hsize lib tokens.length 1 (by omega) .zero
    by_cases htype : (mem.token 0).type = .object
    · simpa [hr, htop, htype, readToken] using hwalk
    · simp [hr, htop, htype, readToken, Except.toOption]

end Values

/-- **The tables of the tokenizer** are in order. -/
theorem HoldsTable.bounds {stray : ℕ → Bool} {n : ℕ} {size : UInt64}
    (h : mem.HoldsTable text tokens)
    (hjs : jsmnParse stray jsonRequestMaxTokens (text.take size.toNat) = .ok (n, tokens)) :
    mem.TableBounds tokens.length size := by
  obtain ⟨hplaced, hsizes⟩ := jsmnParse_ordered hjs
  refine ⟨jsmnParse_length_le hjs, fun i hi => ?_, fun i hi => ?_⟩
  · obtain ⟨h0, hle, hend⟩ := hplaced _ (List.mem_of_getElem? (h.token i hi))
    rw [List.length_take] at hend
    exact ⟨h0, hle, by omega⟩
  · have := hsizes i _ (h.token i hi)
    omega

/-- **The parser of requests** on a memory with the text and its table: its value, in bounds. -/
theorem parseTokens_request {stray : ℕ → Bool} {n : ℕ} {size : UInt64}
    (h : mem.HoldsTable text tokens) (hsize : size.toNat ≤ text.length)
    (hjs : jsmnParse stray jsonRequestMaxTokens (text.take size.toNat) = .ok (n, tokens)) :
    ∃ ret log, (∀ turns, n ≤ turns → mem.parseTokens lib n turns = ⟨some ret, log⟩) ∧
      mem.InBounds n log ∧
      ret.toOption = (samplerParseRequest lib stray text size.toNat).toOption := by
  obtain ⟨hn, -⟩ := jsmnParse_scanned hjs
  have H := h.bounds hjs
  obtain ⟨ret, log, hends⟩ := mem.parseTokens_ends lib n
  have hlog := parseTokens_inBounds lib H tokens.length
  have hvalue := parseTokens_value h H hsize lib
  rw [← hn, hends n le_rfl] at hlog hvalue
  refine ⟨ret, log, hends, hlog, ?_⟩
  rw [samplerParseRequest, hjs]
  exact Option.some.inj hvalue

end RequestMemory

end Vmon
