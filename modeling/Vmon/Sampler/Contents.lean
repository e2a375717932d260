import Vmon.Sampler.Framing
import Vmon.Sampler.RoundTrip
import Vmon.VmInfo.Shown

/-!
# What an answer says

Two lines that the sampler writes are the same exactly when they say the same
(`answers_legible`): one that reports data says the request, the time, the domain and what is
shown of its record; one that reports an error says the request, the time, the domain if there is
one, the code, and whether the task was timed out. So no line of data can be taken for an error, nor
the answer to one request for that to another, whatever the uuids and numbers are.

## Main definitions

* `Answer` — what a line says.
* `Tells` — the line is written by the sampler, and says so.
-/

namespace Vmon

inductive Answer
  | data (id : Uuid) (ts : UInt64) (dom : Bytes) (numbers : List UInt64)
  | error (id : Uuid) (now : UInt64) (dom : Bytes) (code : ℤ) (timeout : Bool)
  deriving DecidableEq

/-- The line is one that `collect_success` writes for a record that is parsed to the end, or one
that `collect_error` writes. -/
inductive Tells (unparse : Uuid → Bytes) : Bytes → Answer → Prop
  | data {δ : Type} {ctx : VmonContext} {env : Env δ} {ts : UInt64} {req : VmonRequest δ}
      {record : StatsRecord δ} {dom text : Bytes} (hplain : env.Plain)
      (hunparse : env.uuidUnparse = unparse) (hc : env.host.Completes vminfoInit record)
      (hdom : env.host.uuidString record.dom = some dom)
      (htext : (collectRecord ctx env ts req record).2 = some text) :
      Tells unparse text (.data req.sr.uuid ts dom (shownNumbers record.params))
  | error {δ : Type} {env : Env δ} {req : VmonRequest δ} {error : ℤ} {timeout : Bool}
      (hplain : env.Plain) (hunparse : env.uuidUnparse = unparse)
      (hint : -2 ^ 31 ≤ error ∧ error < 2 ^ 31) :
      Tells unparse (collectError env req error timeout)
        (.error req.sr.uuid env.now ((req.dom.bind env.host.uuidString).getD []) error timeout)

/-! ### The common head -/

/-- The text of an answer, up to the uuid of the domain. -/
def answerHead (unparse : Uuid → Bytes) (x : Uuid × UInt64 × Bytes) : Bytes :=
  lit "\x7b \"req-id\": \"" ++ unparse x.1 ++ (lit "\", \"timestamp\": " ++
    (decimal x.2.1.toNat ++ (lit ", \"data\": \x7b \"vm-id\": \"" ++ x.2.2)))

/-- The quote that ends a name. -/
def EndsName (r : Bytes) : Prop := r.head? = some 0x22

theorem legible_answerHead {unparse : Uuid → Bytes} (hinj : Function.Injective unparse) :
    Legible (fun x : Uuid × UInt64 × Bytes => 0x22 ∉ unparse x.1 ∧ True ∧ 0x22 ∉ x.2.2) EndsName
      (answerHead unparse) := by
  have hdom := legible_name.prefixed (lit ", \"data\": \x7b \"vm-id\": \"")
  have htime := (legible_uint64.pair hdom fun dom r _ _ => by
    rw [List.append_assoc]
    exact endsNumber_lit (by decide) _).prefixed (lit "\", \"timestamp\": ")
  exact ((legible_name.comap hinj).prefixed (lit "\x7b \"req-id\": \"")).pair htime
    fun x r _ _ => rfl

/-! ### The two kinds -/

section Texts

variable {δ : Type} {env : Env δ} {req : VmonRequest δ}

/-- The rest of the text for a record. -/
def dataTail (vm : VmInfo) : Bytes :=
  lit "\"," ++ (pcpuPrintJson vm.pcpu ++ lit ", " ++ balloonPrintJson vm.balloon ++ lit ", " ++
    vcpuPrintJson vm.vcpu ++ lit ", " ++ blockPrintJson vm.block ++ lit ", " ++
    ifacePrintJson vm.iface ++ lit " \x7d" ++ responseFinish)

def yesno (timeout : Bool) : Bytes := if timeout then lit "yes" else lit "no"

def errorTail (error : ℤ) (timeout : Bool) : Bytes :=
  lit "\", \"error\": \x7b \"code\": " ++ (decimalInt error ++
    (lit ", \"message\": \"\" \x7d, \"timeout\": \"" ++ (yesno timeout ++ lit "\" \x7d \x7d\n")))

theorem dataText_eq (ts : UInt64) (id : Uuid) (vm : VmInfo) :
    responseBegin env ts id ++ vminfoPrintJson vm ++ responseFinish =
      answerHead env.uuidUnparse (id, ts, vm.uuid) ++ dataTail vm := by
  have hopen : lit ", \"data\": \x7b \"vm-id\": \"" = lit ", \"data\": " ++ lit "\x7b \"vm-id\": \"" :=
    rfl
  simp only [responseBegin, vminfoPrintJson, answerHead, dataTail, hopen, List.append_assoc]

/-- The buffer of `collect_error` holds the whole text. -/
theorem errorText_eq (hplain : env.Plain) {error : ℤ} (hint : -2 ^ 31 ≤ error ∧ error < 2 ^ 31)
    (timeout : Bool) : collectError env req error timeout =
      answerHead env.uuidUnparse
        (req.sr.uuid, env.now, (req.dom.bind env.host.uuidString).getD []) ++
          errorTail error timeout := by
  have huuid := (hplain.unparse req.sr.uuid).2
  have hdom := (hplain.domUuid req.dom).2
  have hnow : (decimal env.now.toNat).length ≤ 20 := by
    have hlt := env.now.toNat_lt
    exact length_decimal_le (by decide) (by omega)
  have hcode : (decimalInt error).length ≤ 10 + 1 := length_decimalInt_le (by decide) (by omega)
  have hyesno : (yesno timeout).length ≤ 3 := by cases timeout <;> decide
  unfold uuidStringLen at huuid hdom
  have hwhole : ∀ text : Bytes, text.length ≤ errorBufferSize - 1 →
      text.take (errorBufferSize - 1) = text := fun text h => List.take_of_length_le h
  rw [collectError, hwhole]
  · simp only [answerHead, errorTail, yesno, List.append_assoc]
  · rw [← yesno]
    simp only [List.length_append, errorBufferSize]
    generalize (yesno timeout).length = n at hyesno ⊢
    simp [lit]
    omega

/-- Data are no error. -/
theorem dataTail_ne (vm : VmInfo) (error : ℤ) (timeout : Bool) :
    dataTail vm ≠ errorTail error timeout := by
  intro heq
  have hbyte := congrArg (fun r : Bytes => r[2]?) heq
  simp [dataTail, errorTail, pcpuPrintJson, lit] at hbyte

theorem errorTail_injective {error error' : ℤ} {timeout timeout' : Bool}
    (heq : errorTail error timeout = errorTail error' timeout') :
    error = error' ∧ timeout = timeout' := by
  have hends : ∀ r, EndsNumber (lit ", \"message\": \"\" \x7d, \"timeout\": \"" ++ r) :=
    endsNumber_lit (by decide)
  obtain ⟨herror, hrest⟩ := legible_decimalInt trivial trivial (hends _) (hends _)
    (List.append_cancel_left heq)
  have htimeout := List.append_cancel_right (List.append_cancel_left hrest)
  refine ⟨herror, ?_⟩
  cases timeout <;> cases timeout' <;> first | rfl | (exact absurd htimeout (by decide))

end Texts

/-! ### The lines -/

/-- What every answer has. -/
def Answer.head : Answer → Uuid × UInt64 × Bytes
  | .data id ts dom _ => (id, ts, dom)
  | .error id now dom _ _ => (id, now, dom)

/-- The text that follows the head of an answer. -/
inductive Answer.Tail : Answer → Bytes → Prop
  | data {id : Uuid} {ts : UInt64} {dom : Bytes} {params : List TypedParameter} {vm : VmInfo}
      (hquote : 0x22 ∉ dom) (hvm : Shows dom params vm) :
      Tail (.data id ts dom (shownNumbers params)) (dataTail vm)
  | error {id : Uuid} {now : UInt64} {dom : Bytes} {code : ℤ} {timeout : Bool} :
      Tail (.error id now dom code timeout) (errorTail code timeout)

theorem Answer.Tail.endsName {a : Answer} {tail : Bytes} (h : a.Tail tail) : EndsName tail := by
  cases h <;> rfl

/-- Under the same head, the tails tell the answers apart. -/
theorem Answer.Tail.eq_iff {a a' : Answer} {tail tail' : Bytes} (h : a.Tail tail)
    (h' : a'.Tail tail') (hhead : a.head = a'.head) : tail = tail' ↔ a = a' := by
  cases h with
  | @data id ts dom params vm hquote hvm =>
    cases h' with
    | @data id' ts' dom' params' vm' hquote' hvm' =>
      obtain ⟨rfl, rfl, rfl⟩ : id = id' ∧ ts = ts' ∧ dom = dom' := by simpa [head] using hhead
      have hprint : dataTail vm = dataTail vm' ↔ vminfoPrintJson vm = vminfoPrintJson vm' := by
        simp only [dataTail, vminfoPrintJson, hvm.uuid, hvm'.uuid, List.append_assoc,
          List.append_cancel_left_eq]
        simp only [← List.append_assoc, List.append_cancel_right_eq]
      rw [hprint, hvm.print_eq_iff hvm' hquote hquote', Answer.data.injEq]
      simp only [true_and]
    | error => exact ⟨fun heq => absurd heq (dataTail_ne _ _ _), fun heq => by cases heq⟩
  | @error id now dom code timeout =>
    cases h' with
    | data => exact ⟨fun heq => absurd heq.symm (dataTail_ne _ _ _), fun heq => by cases heq⟩
    | @error id' now' dom' code' timeout' =>
      obtain ⟨rfl, rfl, rfl⟩ : id = id' ∧ now = now' ∧ dom = dom' := by simpa [head] using hhead
      constructor
      · intro heq
        obtain ⟨rfl, rfl⟩ := errorTail_injective heq
        rfl
      · intro heq
        obtain ⟨-, -, -, rfl, rfl⟩ := Answer.error.inj heq
        rfl

/-- A line is the head of what it says, and a tail. -/
theorem Tells.text_eq {unparse : Uuid → Bytes} {text : Bytes} {a : Answer}
    (h : Tells unparse text a) : ∃ tail, text = answerHead unparse a.head ++ tail ∧ a.Tail tail ∧
      0x22 ∉ unparse a.head.1 ∧ 0x22 ∉ a.head.2.2 := by
  have hquote : ∀ {name : Bytes}, Clean name → 0x22 ∉ name := fun hname hmem => (hname _ hmem).1 rfl
  cases h with
  | @data δ ctx env ts req record dom text hplain hunparse hc hdom htext =>
    subst hunparse
    have hvm := vminfoParse_shows hc hdom
    have hclean := hquote (hplain.string _ _ hdom).1
    simp only [collectRecord, Option.ite_none_left_eq_some, Option.some.injEq] at htext
    obtain ⟨-, rfl⟩ := htext
    refine ⟨_, ?_, .data hclean hvm, hquote (hplain.unparse _).1, hclean⟩
    rw [dataText_eq, hvm.uuid]
    rfl
  | @error δ env req error timeout hplain hunparse hint =>
    subst hunparse
    exact ⟨_, errorText_eq hplain hint timeout, .error, hquote (hplain.unparse _).1,
      hquote (hplain.domUuid _).1⟩

/-- **What the lines say.** Under names for requests that are different and have no quotes, two lines
of the sampler are the same exactly when they say the same. -/
theorem answers_legible {unparse : Uuid → Bytes} {text text' : Bytes} {a a' : Answer}
    (hinj : Function.Injective unparse) (h : Tells unparse text a) (h' : Tells unparse text' a') :
    text = text' ↔ a = a' := by
  obtain ⟨tail, rfl, htail, hid, hdom⟩ := h.text_eq
  obtain ⟨tail', rfl, htail', hid', hdom'⟩ := h'.text_eq
  constructor
  · intro heq
    obtain ⟨hhead, htails⟩ := legible_answerHead hinj ⟨hid, trivial, hdom⟩ ⟨hid', trivial, hdom'⟩
      htail.endsName htail'.endsName heq
    exact (htail.eq_iff htail' hhead).mp htails
  · rintro rfl
    rw [(htail.eq_iff htail' rfl).mpr rfl]

/-! ### The names of requests -/

theorem hexDigit_spec : ∀ n < 16, hexVal (hexDigit n) = n ∧ hexDigit n ≠ 0x2D ∧ hexDigit n ≠ 0x22 ∧
    hexDigit n ≠ 0x5C ∧ 0x20 ≤ hexDigit n := by
  decide

theorem readHexBytes_hexBytes (bytes : List UInt8) : readHexBytes (hexBytes bytes) = bytes := by
  induction bytes with
  | nil => rfl
  | cons b bytes ih =>
    have hb := b.toNat_lt
    obtain ⟨hhigh, -⟩ := hexDigit_spec (b.toNat / 16) (by omega)
    obtain ⟨hlow, -⟩ := hexDigit_spec (b.toNat % 16) (by omega)
    have hbyte : (16 * (b.toNat / 16) + b.toNat % 16).toUInt8 = b := by
      rw [Nat.div_add_mod]
      exact UInt8.ofNat_toNat
    change (16 * hexVal (hexDigit (b.toNat / 16)) + hexVal (hexDigit (b.toNat % 16))).toUInt8 ::
      readHexBytes (hexBytes bytes) = b :: bytes
    rw [hhigh, hlow, hbyte, ih]

theorem mem_hexBytes {bytes : List UInt8} {c : UInt8} (hc : c ∈ hexBytes bytes) :
    ∃ n < 16, hexDigit n = c := by
  obtain ⟨b, -, hc⟩ := List.mem_flatMap.mp hc
  have hb := b.toNat_lt
  simp only [List.mem_cons, List.not_mem_nil, or_false] at hc
  rcases hc with rfl | rfl
  · exact ⟨_, by omega, rfl⟩
  · exact ⟨_, by omega, rfl⟩

/-- The dashes aside, the text is the digits of the bytes. -/
theorem filter_uuidUnparse (uuid : Uuid) :
    (uuidUnparse uuid).filter (· ≠ 0x2D) = hexBytes uuid.toList := by
  have hkeep : ∀ bytes, (hexBytes bytes).filter (· ≠ 0x2D) = hexBytes bytes := by
    intro bytes
    rw [List.filter_eq_self]
    intro c hc
    obtain ⟨n, hn, rfl⟩ := mem_hexBytes hc
    simpa using (hexDigit_spec n hn).2.1
  have hjoin : ∀ as bs : List UInt8, hexBytes as ++ hexBytes bs = hexBytes (as ++ bs) :=
    fun as bs => List.flatMap_append.symm
  generalize hbytes : uuid.toList = bytes
  have hparts : bytes.take 4 ++ ((bytes.drop 4).take 2 ++ ((bytes.drop 6).take 2 ++
      ((bytes.drop 8).take 2 ++ bytes.drop 10))) = bytes := by
    have hsplit : ∀ i k, (bytes.drop i).take k ++ bytes.drop (i + k) = bytes.drop i := by
      intro i k
      rw [← List.drop_drop]
      exact List.take_append_drop k _
    rw [hsplit 8 2, hsplit 6 2, hsplit 4 2, List.take_append_drop]
  rw [uuidUnparse, hbytes]
  simp only [List.filter_append, List.filter_cons, hkeep, ne_eq, not_true_eq_false, decide_false,
    Bool.false_eq_true, if_false, List.append_assoc, hjoin, hparts]

theorem uuidUnparse_injective : Function.Injective uuidUnparse := by
  intro uuid uuid' heq
  have hbytes := congrArg (fun s : Bytes => readHexBytes (s.filter (· ≠ 0x2D))) heq
  simp only [filter_uuidUnparse, readHexBytes_hexBytes] at hbytes
  exact Vector.toList_inj.mp hbytes

theorem uuidUnparse_plain (uuid : Uuid) :
    Clean (uuidUnparse uuid) ∧ (uuidUnparse uuid).length < uuidStringLen := by
  constructor
  · intro c hc
    have hcase : c = 0x2D ∨ ∃ n < 16, hexDigit n = c := by
      simp only [uuidUnparse, List.mem_append, List.mem_cons] at hc
      rcases hc with (((hc | rfl | hc) | rfl | hc) | rfl | hc) | rfl | hc
      all_goals first | exact .inl rfl | exact .inr (mem_hexBytes hc)
    rcases hcase with rfl | ⟨n, hn, rfl⟩
    · decide
    · exact (hexDigit_spec n hn).2.2
  · have hlen : ∀ bytes, (hexBytes bytes).length = 2 * bytes.length := by
      intro bytes
      rw [hexBytes, List.length_flatMap]
      simp [mul_comm]
    simp only [uuidUnparse, List.length_append, List.length_cons, hlen, List.length_take,
      List.length_drop, Vector.length_toList]
    decide

private def tellingEnv : Env Unit :=
  { host := { calloc := fun _ _ => true, strdup := fun _ => true,
              uuidString := fun _ => some (lit "vm"), bigEndian := false, string := fun _ => [] }
    conn := { listAllDomains := fun _ => none, getAllDomainStats := fun _ => none,
              domainListGetStats := fun _ _ => none }
    now := 7, uuidUnparse := uuidUnparse }

/-- Two requests that are timed out at the same time. -/
theorem answers_legible_requests :
    let req (n : UInt8) : VmonRequest Unit := .ofSample ⟨Vector.replicate 16 n, 0⟩
    collectError tellingEnv (req 0) 0 true ≠ collectError tellingEnv (req 1) 0 true := by
  intro req
  have hplain : tellingEnv.Plain := by
    refine ⟨uuidUnparse_plain, ?_⟩
    intro dom text htext
    obtain rfl : lit "vm" = text := by simpa [tellingEnv] using htext
    decide
  have htells : ∀ n, Tells uuidUnparse (collectError tellingEnv (req n) 0 true)
      (.error (Vector.replicate 16 n) 7 [] 0 true) := fun n => .error hplain rfl (by decide)
  rw [ne_eq, answers_legible uuidUnparse_injective (htells 0) (htells 1)]
  decide

end Vmon
