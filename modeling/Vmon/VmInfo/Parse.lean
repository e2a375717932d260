import Mathlib.Data.List.Nodup
import Vmon.VmInfo

/-!
# Reading a record of libvirt

`vminfoParse` goes over the parameters of a record twice: `vminfoSetup` reads the
counts and allocates the arrays, then every parameter is offered to each of the
five families. An indexed name such as `block.0.rd.reqs` is taken apart by
`scanField`, which starts looking for the index at the beginning of the name
instead of after the family prefix. `vminfoParse_eq` says what follows: no
indexed parameter of any record is ever stored.

`IsReference` is what a record means, and `vminfo_parse_iff` says on which
records the two agree.

## Main definitions

* `Host` — the outcomes of `calloc`, `strdup` and `virDomainGetUUIDString`.
* `scanField`, `vminfoSetup`, `vminfoParse` — the functions of the source.
* `given` — the value a record gives under a name.
* `IsReference` — the statistics a record stands for.
* `Unstored` — no parameter of the record carries an indexed statistic.
-/

namespace Vmon

variable {δ : Type}

/-- What the environment answers: whether `calloc(nmemb, size)` and `strdup(s)`
succeed, and the uuid string of a domain, `none` on failure. Also the byte order of
the machine, and the strings in its memory by address. -/
structure Host (δ : Type) where
  calloc : ℕ → ℕ → Bool
  strdup : Bytes → Bool
  uuidString : δ → Option Bytes
  bigEndian : Bool
  string : UInt64 → Bytes

/-- Member `i` of a value: the first four of its eight bytes. -/
def TypedValue.i (host : Host δ) (v : TypedValue) : Int32 :=
  if host.bigEndian then (v.word >>> 32).toUInt32.toInt32 else v.word.toUInt32.toInt32

/-- Member `s`: the string the eight bytes point at. -/
def TypedValue.s (host : Host δ) (v : TypedValue) : Bytes := host.string v.word

/-! ### Single fields -/

def strstartswith (longest pfx : Bytes) : Bool := findSub pfx longest == some 0

/-- The `SETUP` macro: keep a device name, on the heap when it does not fit inline. -/
def StatsName.setup (host : Host δ) (stats : StatsName) (s : Bytes) : StatsName :=
  if s.length > statsNameLen - 1 then
    { stats with xname := if host.strdup s then some s else none }
  else { stats with name := s }

def blockinfoParseField (host : Host δ) (stats : BlockStats) (name : Bytes)
    (item : TypedParameter) : BlockStats :=
  if name = lit "name" then
    { stats with toStatsName := stats.toStatsName.setup host (item.value.s host) }
  else if name = lit "rd.reqs" then { stats with rdReqs := item.value.ul }
  else if name = lit "rd.bytes" then { stats with rdBytes := item.value.ul }
  else if name = lit "rd.times" then { stats with rdTimes := item.value.ul }
  else if name = lit "wr.reqs" then { stats with wrReqs := item.value.ul }
  else if name = lit "wr.bytes" then { stats with wrBytes := item.value.ul }
  else if name = lit "wr.times" then { stats with wrTimes := item.value.ul }
  else if name = lit "fl.bytes" then { stats with flBytes := item.value.ul }
  else if name = lit "fl.times" then { stats with flTimes := item.value.ul }
  else if name = lit "allocation" then { stats with allocation := item.value.ul }
  else if name = lit "capacity" then { stats with capacity := item.value.ul }
  else if name = lit "physical" then { stats with physical := item.value.ul }
  else stats

def ifaceinfoParseField (host : Host δ) (stats : IfaceStats) (name : Bytes)
    (item : TypedParameter) : IfaceStats :=
  if name = lit "name" then
    { stats with toStatsName := stats.toStatsName.setup host (item.value.s host) }
  else if name = lit "rx.bytes" then { stats with rxBytes := item.value.ul }
  else if name = lit "rx.pkts" then { stats with rxPkts := item.value.ul }
  else if name = lit "rx.errs" then { stats with rxErrs := item.value.ul }
  else if name = lit "rx.drop" then { stats with rxDrop := item.value.ul }
  else if name = lit "tx.bytes" then { stats with txBytes := item.value.ul }
  else if name = lit "tx.pkts" then { stats with txPkts := item.value.ul }
  else if name = lit "tx.errs" then { stats with txErrs := item.value.ul }
  else if name = lit "tx.drop" then { stats with txDrop := item.value.ul }
  else stats

def vcpuinfoParseField (host : Host δ) (stats : VCpuStats) (name : Bytes)
    (item : TypedParameter) : VCpuStats :=
  if name = lit "state" then { stats with present := true, state := item.value.i host }
  else if name = lit "time" then { stats with present := true, time := item.value.ul }
  else stats

/-! ### The first pass -/

/-- The counts one parameter sets, in the loop of `vminfo_setup`. -/
def setupItem (vm : VmInfo) (item : TypedParameter) : VmInfo :=
  let vm := if item.field = lit "block.count" then
    { vm with block := { vm.block with nstats := item.value.ul.toNat } } else vm
  let vm := if item.field = lit "net.count" then
    { vm with iface := { vm.iface with nstats := item.value.ul.toNat } } else vm
  if item.field = lit "vcpu.current" then
    { vm with vcpu := { vm.vcpu with current := item.value.ul.toNat } }
  else if item.field = lit "vcpu.maximum" then
    { vm with vcpu := { vm.vcpu with nstats := item.value.ul.toNat } }
  else vm

/-- The sizes in bytes of the structures, on a 64-bit machine. -/
def vcpuStatsSize : ℕ := 4 + 4 + 8
def vcpuInfoSize : ℕ := 8 + 8 + vcpuStatsNum * vcpuStatsSize + 8
def blockStatsSize : ℕ := 8 + statsNameLen + 11 * 8
def ifaceStatsSize : ℕ := 8 + statsNameLen + 8 * 8

/-- The `ALLOC_XSTATS` macro: a zeroed array of `nstats` items of `itemsize` bytes
when the entries, of `statsize` bytes each, do not fit inline. -/
def StatsInfo.allocXstats {S : Type} {cap : ℕ} [Zero S] (host : Host δ) (itemsize statsize : ℕ)
    (x : StatsInfo S cap) : Bool × StatsInfo S cap :=
  if x.nstats > cap then
    if host.calloc x.nstats itemsize then
      (true, { x with xstats := .live (List.replicate (x.nstats * itemsize / statsize) 0) })
    else (false, { x with xstats := .null })
  else (true, x)

/-- The `cleanup` label. -/
def setupCleanup (vm : VmInfo) : VmInfo :=
  { vm with
    block := { vm.block with xstats := vm.block.xstats.free }
    vcpu := { vm.vcpu with xstats := vm.vcpu.xstats.free } }

def vminfoSetup (host : Host δ) (vm : VmInfo) (record : StatsRecord δ) : ℤ × VmInfo :=
  let vm := record.params.foldl setupItem vm
  let (ok, vcpu) := vm.vcpu.allocXstats host vcpuInfoSize vcpuStatsSize
  let vm := { vm with vcpu := { vm.vcpu with toStatsInfo := vcpu } }
  if !ok then (-1, setupCleanup vm) else
  let (ok, block) := vm.block.allocXstats host blockStatsSize blockStatsSize
  let vm := { vm with block := block }
  if !ok then (-1, setupCleanup vm) else
  let (ok, iface) := vm.iface.allocXstats host ifaceStatsSize ifaceStatsSize
  let vm := { vm with iface := iface }
  if !ok then (-1, setupCleanup vm) else (0, vm)

/-! ### The second pass -/

def pcpuinfoParse (pcpu : PCpuInfo) (item : TypedParameter) : ℤ × PCpuInfo :=
  if item.field = lit "cpu.time" then (0, { pcpu with time := item.value.ul })
  else if item.field = lit "cpu.user" then (0, { pcpu with user := item.value.ul })
  else if item.field = lit "cpu.system" then (0, { pcpu with system := item.value.ul })
  else (0, pcpu)

def ballooninfoParse (balloon : BalloonInfo) (item : TypedParameter) : ℤ × BalloonInfo :=
  if item.field = lit "balloon.current" then (0, { balloon with current := item.value.ul })
  else if item.field = lit "balloon.maximum" then (0, { balloon with maximum := item.value.ul })
  else (0, balloon)

def offBufLen : ℕ := 128

structure FieldScanner where
  pfx : Bytes
  maxoffset : ℕ

structure FieldMatch where
  suffix : Bytes
  offset : ℕ

/-- Move at most `j` digits from the text into the buffer. -/
def scanDigits : ℕ → Bytes → Bytes × Bytes
  | j + 1, c :: pc =>
    if isDigit c then
      let (buf, rest) := scanDigits j pc
      (c :: buf, rest)
    else ([], c :: pc)
  | _, pc => ([], pc)

/-- `atol`, which stops at the largest `long`. -/
def atol (buf : Bytes) : ℕ := min (readDecimal buf) (2 ^ 63 - 1)

def scanField (scan : FieldScanner) (virFieldName : Bytes) : Option FieldMatch :=
  if !strstartswith virFieldName scan.pfx then none
  else
    -- `pc` starts at the first byte of the name, not after the prefix
    let (buf, pc) := scanDigits (offBufLen - 1) virFieldName
    let m : FieldMatch := { suffix := pc.tail, offset := atol buf }
    if m.offset < scan.maxoffset then some m else none

/-- The body of `vcpuinfo_parse`, `blockinfo_parse` and `ifaceinfo_parse`: scan the
name for the family's prefix, and hand the suffix to the family's fields. -/
def StatsInfo.parse {S : Type} {cap : ℕ} (pfx : Bytes)
    (parseField : S → Bytes → TypedParameter → S) (x : StatsInfo S cap)
    (item : TypedParameter) : StatsInfo S cap :=
  match scanField { pfx := pfx, maxoffset := x.nstats } item.field with
  | some m => x.modifyItem m.offset fun stats => parseField stats m.suffix item
  | none => x

def vcpuinfoParse (host : Host δ) (vcpu : VCpuInfo) (item : TypedParameter) : ℤ × VCpuInfo :=
  (0, { vcpu with
    toStatsInfo := vcpu.toStatsInfo.parse (lit "vcpu.") (vcpuinfoParseField host) item })

def blockinfoParse (host : Host δ) (block : BlockInfo) (item : TypedParameter) : ℤ × BlockInfo :=
  (0, block.parse (lit "block.") (blockinfoParseField host) item)

def ifaceinfoParse (host : Host δ) (iface : IfaceInfo) (item : TypedParameter) : ℤ × IfaceInfo :=
  (0, iface.parse (lit "iface.") (ifaceinfoParseField host) item)

/-- Offer one parameter to the five families, each by `TRY_TO_PARSE`. -/
def parseItem (host : Host δ) (vm : VmInfo) (item : TypedParameter) : ℤ × VmInfo :=
  let (err, pcpu) := pcpuinfoParse vm.pcpu item
  let vm := { vm with pcpu := pcpu }
  if err < 0 then (-1, vm) else
  let (err, balloon) := ballooninfoParse vm.balloon item
  let vm := { vm with balloon := balloon }
  if err < 0 then (-1, vm) else
  let (err, vcpu) := vcpuinfoParse host vm.vcpu item
  let vm := { vm with vcpu := vcpu }
  if err < 0 then (-1, vm) else
  let (err, block) := blockinfoParse host vm.block item
  let vm := { vm with block := block }
  if err < 0 then (-1, vm) else
  let (err, iface) := ifaceinfoParse host vm.iface item
  let vm := { vm with iface := iface }
  if err < 0 then (-1, vm) else (0, vm)

/-- The loop of `vminfo_parse` over the parameters. -/
def parseItems (host : Host δ) (vm : VmInfo) : List TypedParameter → ℤ × VmInfo
  | [] => (0, vm)
  | item :: items =>
    let (err, vm) := parseItem host vm item
    if err < 0 then (-1, vm) else parseItems host vm items

def vminfoParse (host : Host δ) (vm : VmInfo) (record : StatsRecord δ) : ℤ × VmInfo :=
  let (err, vm) := vminfoSetup host vm record
  if err ≠ 0 then (-1, vm) else
  match host.uuidString record.dom with
  | none => (-1, vm)
  | some uuid => parseItems host { vm with uuid := uuid } record.params

/-! ### What a scan finds -/

theorem strstartswith_iff {longest pfx : Bytes} :
    strstartswith longest pfx = true ↔ pfx <+: longest := by
  rw [strstartswith, beq_iff_eq, findSub_eq_zero]

/-- On a name that starts with a family's letter the digit loop takes nothing. -/
theorem scanDigits_of_not_digit {c : UInt8} (hc : isDigit c = false) (j : ℕ) (pc : Bytes) :
    scanDigits j (c :: pc) = ([], c :: pc) := by
  cases j with
  | zero => rfl
  | succ j => simp [scanDigits, hc]

/-- **What a scan for a family gives**: index zero, and the name without its first byte. -/
theorem scanField_eq_some {c : UInt8} {pfx name : Bytes} {n : ℕ} {m : FieldMatch}
    (hc : isDigit c = false) (h : scanField { pfx := c :: pfx, maxoffset := n } name = some m) :
    m.offset = 0 ∧ pfx <+: m.suffix := by
  unfold scanField at h
  split at h
  · cases h
  · next hpfx =>
    simp only [Bool.not_eq_true', Bool.not_eq_false, strstartswith_iff] at hpfx
    obtain ⟨rest, rfl⟩ := hpfx
    simp only [List.cons_append, scanDigits_of_not_digit hc, List.tail_cons,
      Option.ite_none_right_eq_some, Option.some.injEq] at h
    obtain ⟨-, rfl⟩ := h
    exact ⟨rfl, List.prefix_append pfx rest⟩

/-- A family whose fields ignore every suffix a scan can give stores nothing. -/
theorem StatsInfo.parse_eq_self {S : Type} {cap : ℕ} (c : UInt8) (pfx : Bytes)
    {parseField : S → Bytes → TypedParameter → S} (hc : isDigit c = false)
    (hfield : ∀ (stats : S) (suffix : Bytes) (item : TypedParameter),
      pfx <+: suffix → parseField stats suffix item = stats)
    (x : StatsInfo S cap) (item : TypedParameter) : x.parse (c :: pfx) parseField item = x := by
  unfold StatsInfo.parse
  split
  · next m hm =>
    have hsuffix := (scanField_eq_some hc hm).2
    exact x.modifyItem_id _ fun stats => hfield stats _ item hsuffix
  · rfl

/-- The known fields of each family. -/
def vcpuFields : List Bytes := [lit "state", lit "time"]

def blockFields : List Bytes :=
  [lit "name", lit "rd.reqs", lit "rd.bytes", lit "rd.times", lit "wr.reqs", lit "wr.bytes",
    lit "wr.times", lit "fl.bytes", lit "fl.times", lit "allocation", lit "capacity",
    lit "physical"]

def ifaceFields : List Bytes :=
  [lit "name", lit "rx.bytes", lit "rx.pkts", lit "rx.errs", lit "rx.drop", lit "tx.bytes",
    lit "tx.pkts", lit "tx.errs", lit "tx.drop"]

theorem vcpuinfoParseField_unknown (host : Host δ) {name : Bytes} (h : name ∉ vcpuFields)
    (stats : VCpuStats) (item : TypedParameter) :
    vcpuinfoParseField host stats name item = stats := by
  simp only [vcpuFields, List.mem_cons, List.not_mem_nil, or_false, not_or] at h
  simp only [vcpuinfoParseField, h, if_false]

theorem blockinfoParseField_unknown (host : Host δ) {name : Bytes} (h : name ∉ blockFields)
    (stats : BlockStats) (item : TypedParameter) :
    blockinfoParseField host stats name item = stats := by
  simp only [blockFields, List.mem_cons, List.not_mem_nil, or_false, not_or] at h
  simp only [blockinfoParseField, h, if_false]

theorem ifaceinfoParseField_unknown (host : Host δ) {name : Bytes} (h : name ∉ ifaceFields)
    (stats : IfaceStats) (item : TypedParameter) :
    ifaceinfoParseField host stats name item = stats := by
  simp only [ifaceFields, List.mem_cons, List.not_mem_nil, or_false, not_or] at h
  simp only [ifaceinfoParseField, h, if_false]

/-- No known field starts with what is left of a family's prefix. -/
theorem not_mem_fields {pfx suffix : Bytes} {fields : List Bytes}
    (h : ∀ f ∈ fields, pfx.isPrefixOf f = false) (hp : pfx <+: suffix) : suffix ∉ fields := by
  intro hmem
  have := h suffix hmem
  rw [List.isPrefixOf_iff_prefix.mpr hp] at this
  exact absurd this (by decide)

theorem vcpuinfoParse_eq (host : Host δ) (vcpu : VCpuInfo) (item : TypedParameter) :
    vcpuinfoParse host vcpu item = (0, vcpu) := by
  have h : vcpu.toStatsInfo.parse (lit "vcpu.") (vcpuinfoParseField host) item =
      vcpu.toStatsInfo :=
    StatsInfo.parse_eq_self 0x76 (lit "cpu.") rfl
      (fun stats suffix item hp => vcpuinfoParseField_unknown host
        (not_mem_fields (by decide) hp) stats item) vcpu.toStatsInfo item
  rw [vcpuinfoParse, h]

theorem blockinfoParse_eq (host : Host δ) (block : BlockInfo) (item : TypedParameter) :
    blockinfoParse host block item = (0, block) := by
  have h : block.parse (lit "block.") (blockinfoParseField host) item = block :=
    StatsInfo.parse_eq_self 0x62 (lit "lock.") rfl
      (fun stats suffix item hp => blockinfoParseField_unknown host
        (not_mem_fields (by decide) hp) stats item) block item
  rw [blockinfoParse, h]

theorem ifaceinfoParse_eq (host : Host δ) (iface : IfaceInfo) (item : TypedParameter) :
    ifaceinfoParse host iface item = (0, iface) := by
  have h : iface.parse (lit "iface.") (ifaceinfoParseField host) item = iface :=
    StatsInfo.parse_eq_self 0x69 (lit "face.") rfl
      (fun stats suffix item hp => ifaceinfoParseField_unknown host
        (not_mem_fields (by decide) hp) stats item) iface item
  rw [ifaceinfoParse, h]

/-! ### The two passes as a whole -/

/-- **One parameter** changes the physical cpu and balloon statistics, nothing else. -/
theorem parseItem_eq (host : Host δ) (vm : VmInfo) (item : TypedParameter) :
    parseItem host vm item = (0, { vm with
      pcpu := (pcpuinfoParse vm.pcpu item).2
      balloon := (ballooninfoParse vm.balloon item).2 }) := by
  have hp : (pcpuinfoParse vm.pcpu item).1 = 0 := by
    unfold pcpuinfoParse
    split_ifs <;> rfl
  have hb : (ballooninfoParse vm.balloon item).1 = 0 := by
    unfold ballooninfoParse
    split_ifs <;> rfl
  simp only [parseItem, hp, hb, vcpuinfoParse_eq, blockinfoParse_eq, ifaceinfoParse_eq,
    lt_irrefl, if_false]

/-- **The whole second pass** never fails, and only those two are ever written. -/
theorem parseItems_eq (host : Host δ) (items : List TypedParameter) (vm : VmInfo) :
    parseItems host vm items = (0, { vm with
      pcpu := items.foldl (fun pcpu item => (pcpuinfoParse pcpu item).2) vm.pcpu
      balloon := items.foldl (fun balloon item => (ballooninfoParse balloon item).2) vm.balloon
      }) := by
  induction items generalizing vm with
  | nil => rfl
  | cons item items ih => simp only [parseItems, parseItem_eq, lt_irrefl, if_false, ih,
      List.foldl_cons]

/-- A table that only had its count set. -/
structure StatsInfo.Fresh {S : Type} {cap : ℕ} [Zero S] (x : StatsInfo S cap) : Prop where
  xstats : x.xstats = .null
  stats : x.stats = List.replicate cap 0

/-- Every announced entry is there, and zero. -/
def StatsInfo.Cleared {S : Type} {cap : ℕ} [Zero S] (x : StatsInfo S cap) : Prop :=
  ∀ N < x.nstats, x.items[N]? = some 0

theorem StatsInfo.Cleared.fits {S : Type} {cap : ℕ} [Zero S] {x : StatsInfo S cap}
    (h : x.Cleared) : x.Fits := by
  by_contra hlt
  have hlt : x.items.length < x.nstats := not_le.mp hlt
  have := h _ hlt
  rw [List.getElem?_eq_none le_rfl] at this
  cases this

/-- An allocation keeps the count, and fails only when `calloc` does. -/
theorem StatsInfo.allocXstats_nstats {S : Type} {cap : ℕ} [Zero S] (host : Host δ)
    (itemsize statsize : ℕ) (x : StatsInfo S cap) :
    (x.allocXstats host itemsize statsize).2.nstats = x.nstats := by
  unfold StatsInfo.allocXstats
  split_ifs <;> rfl

theorem StatsInfo.allocXstats_ok {S : Type} {cap : ℕ} [Zero S] {host : Host δ}
    {itemsize : ℕ} (statsize : ℕ) {x : StatsInfo S cap}
    (hcalloc : cap < x.nstats → host.calloc x.nstats itemsize) :
    (x.allocXstats host itemsize statsize).1 = true := by
  unfold StatsInfo.allocXstats
  split_ifs with hcap hc
  · rfl
  · exact absurd (hcalloc hcap) hc
  · rfl

/-- **A successful allocation** leaves a table of zero entries, at least as many as announced. -/
theorem StatsInfo.Fresh.allocXstats {S : Type} {cap : ℕ} [Zero S] {x : StatsInfo S cap}
    (hx : x.Fresh) (host : Host δ) {itemsize statsize : ℕ} (hpos : 0 < statsize)
    (hsize : statsize ≤ itemsize) (hok : (x.allocXstats host itemsize statsize).1 = true) :
    (x.allocXstats host itemsize statsize).2.Cleared := by
  unfold StatsInfo.allocXstats at hok ⊢
  split_ifs at hok ⊢ with hcap
  · have hroom : x.nstats ≤ x.nstats * itemsize / statsize := by
      rw [Nat.le_div_iff_mul_le hpos]
      exact Nat.mul_le_mul_left _ hsize
    intro N hN
    exact List.getElem?_replicate_of_lt (lt_of_lt_of_le hN hroom)
  · intro N hN
    rw [StatsInfo.items, hx.xstats, hx.stats]
    exact List.getElem?_replicate_of_lt (lt_of_lt_of_le hN (not_lt.mp hcap))

/-- What the loop of the first pass keeps of a new `VmInfo`. -/
structure VmInfo.Fresh (vm : VmInfo) : Prop where
  pcpu : vm.pcpu = {}
  balloon : vm.balloon = {}
  vcpu : vm.vcpu.Fresh
  block : vm.block.Fresh
  iface : vm.iface.Fresh

theorem vminfoInit_fresh : vminfoInit.Fresh := ⟨rfl, rfl, ⟨rfl, rfl⟩, ⟨rfl, rfl⟩, ⟨rfl, rfl⟩⟩

theorem setupItem_fresh {vm : VmInfo} (h : vm.Fresh) (item : TypedParameter) :
    (setupItem vm item).Fresh := by
  obtain ⟨hp, hb, ⟨hvx, hvs⟩, ⟨hbx, hbs⟩, ⟨hix, his⟩⟩ := h
  unfold setupItem
  dsimp only
  split_ifs <;> exact ⟨hp, hb, ⟨hvx, hvs⟩, ⟨hbx, hbs⟩, ⟨hix, his⟩⟩

theorem setupItem_block (vm : VmInfo) (item : TypedParameter) :
    (setupItem vm item).block.nstats =
      if item.field = lit "block.count" then item.value.ul.toNat else vm.block.nstats := by
  unfold setupItem
  dsimp only
  split_ifs <;> rfl

theorem setupItem_iface (vm : VmInfo) (item : TypedParameter) :
    (setupItem vm item).iface.nstats =
      if item.field = lit "net.count" then item.value.ul.toNat else vm.iface.nstats := by
  unfold setupItem
  dsimp only
  split_ifs <;> rfl

theorem setupItem_vcpu (vm : VmInfo) (item : TypedParameter) :
    (setupItem vm item).vcpu.nstats =
      if item.field = lit "vcpu.maximum" then item.value.ul.toNat else vm.vcpu.nstats := by
  have hne : lit "vcpu.current" ≠ lit "vcpu.maximum" := by decide
  unfold setupItem
  dsimp only
  split_ifs with h1 h2 h3 h4 h5 <;> simp_all

theorem setupItem_current (vm : VmInfo) (item : TypedParameter) :
    (setupItem vm item).vcpu.current =
      if item.field = lit "vcpu.current" then item.value.ul.toNat else vm.vcpu.current := by
  unfold setupItem
  dsimp only
  split_ifs <;> rfl

theorem pcpuinfoParse_time (pcpu : PCpuInfo) (item : TypedParameter) :
    (pcpuinfoParse pcpu item).2.time =
      if item.field = lit "cpu.time" then item.value.ul else pcpu.time := by
  unfold pcpuinfoParse
  split_ifs <;> rfl

theorem pcpuinfoParse_user (pcpu : PCpuInfo) (item : TypedParameter) :
    (pcpuinfoParse pcpu item).2.user =
      if item.field = lit "cpu.user" then item.value.ul else pcpu.user := by
  unfold pcpuinfoParse
  by_cases h : item.field = lit "cpu.user"
  · rw [h]
    rfl
  · simp only [h, if_false]
    split_ifs <;> rfl

theorem pcpuinfoParse_system (pcpu : PCpuInfo) (item : TypedParameter) :
    (pcpuinfoParse pcpu item).2.system =
      if item.field = lit "cpu.system" then item.value.ul else pcpu.system := by
  unfold pcpuinfoParse
  by_cases h : item.field = lit "cpu.system"
  · rw [h]
    rfl
  · simp only [h, if_false]
    split_ifs <;> rfl

theorem ballooninfoParse_current (balloon : BalloonInfo) (item : TypedParameter) :
    (ballooninfoParse balloon item).2.current =
      if item.field = lit "balloon.current" then item.value.ul else balloon.current := by
  unfold ballooninfoParse
  split_ifs <;> rfl

theorem ballooninfoParse_maximum (balloon : BalloonInfo) (item : TypedParameter) :
    (ballooninfoParse balloon item).2.maximum =
      if item.field = lit "balloon.maximum" then item.value.ul else balloon.maximum := by
  unfold ballooninfoParse
  by_cases h : item.field = lit "balloon.maximum"
  · rw [h]
    rfl
  · simp only [h, if_false]
    split_ifs <;> rfl

/-! ### What a record means -/

/-- The value a record gives under a name. -/
def given (params : List TypedParameter) (name : Bytes) : Option TypedValue :=
  (params.find? fun p => p.field = name).map TypedParameter.value

def givenUl (params : List TypedParameter) (name : Bytes) : UInt64 :=
  ((given params name).map TypedValue.ul).getD 0

def givenS (host : Host δ) (params : List TypedParameter) (name : Bytes) : Bytes :=
  ((given params name).map (TypedValue.s host)).getD []

/-- The name of field `f` of entry `N` of a family, such as `block.0.rd.reqs`. -/
def indexed (family : Bytes) (N : ℕ) (f : Bytes) : Bytes := family ++ decimal N ++ 0x2E :: f

def refVcpu (host : Host δ) (params : List TypedParameter) (N : ℕ) : VCpuStats :=
  let state := given params (indexed (lit "vcpu.") N (lit "state"))
  let time := given params (indexed (lit "vcpu.") N (lit "time"))
  { present := state.isSome || time.isSome
    state := (state.map (TypedValue.i host)).getD 0
    time := (time.map TypedValue.ul).getD 0 }

/-- A name as the table keeps it: inline when it fits. -/
def refName (s : Bytes) : StatsName :=
  if s.length > statsNameLen - 1 then { xname := some s } else { name := s }

def refBlock (host : Host δ) (params : List TypedParameter) (N : ℕ) : BlockStats :=
  let ul (f : Bytes) := givenUl params (indexed (lit "block.") N f)
  { toStatsName := refName (givenS host params (indexed (lit "block.") N (lit "name")))
    rdReqs := ul (lit "rd.reqs")
    rdBytes := ul (lit "rd.bytes")
    rdTimes := ul (lit "rd.times")
    wrReqs := ul (lit "wr.reqs")
    wrBytes := ul (lit "wr.bytes")
    wrTimes := ul (lit "wr.times")
    flBytes := ul (lit "fl.bytes")
    flTimes := ul (lit "fl.times")
    allocation := ul (lit "allocation")
    capacity := ul (lit "capacity")
    physical := ul (lit "physical") }

def refIface (host : Host δ) (params : List TypedParameter) (N : ℕ) : IfaceStats :=
  let ul (f : Bytes) := givenUl params (indexed (lit "net.") N f)
  { toStatsName := refName (givenS host params (indexed (lit "net.") N (lit "name")))
    rxBytes := ul (lit "rx.bytes")
    rxPkts := ul (lit "rx.pkts")
    rxErrs := ul (lit "rx.errs")
    rxDrop := ul (lit "rx.drop")
    txBytes := ul (lit "tx.bytes")
    txPkts := ul (lit "tx.pkts")
    txErrs := ul (lit "tx.errs")
    txDrop := ul (lit "tx.drop") }

/-- A table announces `n` entries, and each is the given one. -/
def StatsInfo.Agrees {S : Type} {cap : ℕ} (x : StatsInfo S cap) (n : ℕ) (ref : ℕ → S) : Prop :=
  x.nstats = n ∧ ∀ N < n, x.items[N]? = some (ref N)

/-- The entries each family of a record announces. -/
def vcpuCount (params : List TypedParameter) : ℕ := (givenUl params (lit "vcpu.maximum")).toNat
def blockCount (params : List TypedParameter) : ℕ := (givenUl params (lit "block.count")).toNat
def ifaceCount (params : List TypedParameter) : ℕ := (givenUl params (lit "net.count")).toNat

/-- **The statistics a record stands for.** -/
structure IsReference (host : Host δ) (uuid : Bytes) (params : List TypedParameter)
    (vm : VmInfo) : Prop where
  uuid : vm.uuid = uuid
  pcpu : vm.pcpu = {
    time := givenUl params (lit "cpu.time")
    user := givenUl params (lit "cpu.user")
    system := givenUl params (lit "cpu.system") }
  balloon : vm.balloon = {
    current := givenUl params (lit "balloon.current")
    maximum := givenUl params (lit "balloon.maximum") }
  current : vm.vcpu.current = (givenUl params (lit "vcpu.current")).toNat
  vcpu : vm.vcpu.Agrees (vcpuCount params) (refVcpu host params)
  block : vm.block.Agrees (blockCount params) (refBlock host params)
  iface : vm.iface.Agrees (ifaceCount params) (refIface host params)

/-- A value that an entry has before anything is stored. -/
def TypedValue.Blank (host : Host δ) (v : TypedValue) (f : Bytes) : Prop :=
  if f = lit "name" then v.s host = [] else v.ul = 0

/-- No parameter gives a vcpu below the count, and one that gives a known field of a
block or interface below the count gives it zero or empty. -/
def Unstored (host : Host δ) (params : List TypedParameter) : Prop :=
  ∀ p ∈ params,
    (∀ N < vcpuCount params, ∀ f ∈ vcpuFields, p.field ≠ indexed (lit "vcpu.") N f) ∧
    (∀ N < blockCount params, ∀ f ∈ blockFields,
      p.field = indexed (lit "block.") N f → p.value.Blank host f) ∧
    (∀ N < ifaceCount params, ∀ f ∈ ifaceFields,
      p.field = indexed (lit "net.") N f → p.value.Blank host f)

/-- Every allocation the record asks for succeeds. -/
structure Host.Allocates (host : Host δ) (params : List TypedParameter) : Prop where
  vcpu : vcpuStatsNum < vcpuCount params → host.calloc (vcpuCount params) vcpuInfoSize
  block : blockStatsNum < blockCount params → host.calloc (blockCount params) blockStatsSize
  iface : ifaceStatsNum < ifaceCount params → host.calloc (ifaceCount params) ifaceStatsSize

section Given

variable {params : List TypedParameter}

/-- With distinct names, the value given under a name is that of the parameter with it. -/
theorem given_eq_some (hd : (params.map TypedParameter.field).Nodup) {name : Bytes}
    {v : TypedValue} :
    given params name = some v ↔ ∃ p ∈ params, p.field = name ∧ p.value = v := by
  unfold given
  rw [Option.map_eq_some_iff]
  constructor
  · rintro ⟨p, hp, hv⟩
    exact ⟨p, List.mem_of_find?_eq_some hp, by simpa using List.find?_some hp, hv⟩
  · rintro ⟨p, hp, hname, hv⟩
    cases hfind : params.find? fun p => p.field = name with
    | none => exact absurd hname (by simpa using List.find?_eq_none.mp hfind p hp)
    | some q =>
      have hq : q.field = name := by simpa using List.find?_some hfind
      have hpq : q = p :=
        List.inj_on_of_nodup_map hd (List.mem_of_find?_eq_some hfind) hp (hq.trans hname.symm)
      exact ⟨q, rfl, hpq ▸ hv⟩

theorem given_eq_none {name : Bytes} :
    given params name = none ↔ ∀ p ∈ params, p.field ≠ name := by
  simp [given]

theorem given_cons (p : TypedParameter) (name : Bytes) :
    given (p :: params) name = if p.field = name then some p.value else given params name := by
  unfold given
  by_cases h : p.field = name <;> simp [h]

/-- **Last writer is the only writer**: a fold that sets something to the value under one
name leaves there the value given, or what was there before. -/
theorem foldl_given {σ β : Type} {step : σ → TypedParameter → σ} (get : σ → β)
    (val : TypedValue → β) {name : Bytes}
    (hstep : ∀ (s : σ) (p : TypedParameter),
      get (step s p) = if p.field = name then val p.value else get s)
    (params : List TypedParameter) (hd : (params.map TypedParameter.field).Nodup) (s : σ) :
    get (params.foldl step s) = ((given params name).map val).getD (get s) := by
  induction params generalizing s with
  | nil => rfl
  | cons p params ih =>
    rw [List.map_cons, List.nodup_cons] at hd
    rw [List.foldl_cons, ih hd.2, hstep, given_cons]
    by_cases h : p.field = name
    · have hnone : given params name = none := by
        rw [given_eq_none]
        intro q hq hqn
        exact hd.1 (List.mem_map.mpr ⟨q, hq, hqn.trans h.symm⟩)
      simp [h, hnone]
    · simp [h]

/-- The same for a number that starts at zero. -/
theorem foldl_givenUl {σ β : Type} {step : σ → TypedParameter → σ} (get : σ → β)
    (val : UInt64 → β) {name : Bytes}
    (hstep : ∀ (s : σ) (p : TypedParameter),
      get (step s p) = if p.field = name then val p.value.ul else get s)
    (hd : (params.map TypedParameter.field).Nodup) {s : σ} (hs : get s = val 0) :
    get (params.foldl step s) = val (givenUl params name) := by
  rw [foldl_given get (fun v => val v.ul) hstep params hd s, hs, givenUl]
  cases given params name <;> rfl

end Given

/-! ### Where the two agree -/

section Agreement

variable {host : Host δ} {params : List TypedParameter}

/-- **The counts after the loop of the first pass** are those the record gives. -/
theorem foldl_setupItem (hd : (params.map TypedParameter.field).Nodup) :
    (params.foldl setupItem vminfoInit).vcpu.nstats = vcpuCount params ∧
    (params.foldl setupItem vminfoInit).vcpu.current =
      (givenUl params (lit "vcpu.current")).toNat ∧
    (params.foldl setupItem vminfoInit).block.nstats = blockCount params ∧
    (params.foldl setupItem vminfoInit).iface.nstats = ifaceCount params :=
  ⟨foldl_givenUl (fun vm : VmInfo => vm.vcpu.nstats) UInt64.toNat setupItem_vcpu hd rfl,
    foldl_givenUl (fun vm : VmInfo => vm.vcpu.current) UInt64.toNat setupItem_current hd rfl,
    foldl_givenUl (fun vm : VmInfo => vm.block.nstats) UInt64.toNat setupItem_block hd rfl,
    foldl_givenUl (fun vm : VmInfo => vm.iface.nstats) UInt64.toNat setupItem_iface hd rfl⟩

theorem foldl_setupItem_fresh (params : List TypedParameter) {vm : VmInfo} (h : vm.Fresh) :
    (params.foldl setupItem vm).Fresh := by
  induction params generalizing vm with
  | nil => exact h
  | cons p params ih => exact ih (setupItem_fresh h p)

/-- **The physical cpu statistics** are those the record gives. -/
theorem foldl_pcpuinfoParse (hd : (params.map TypedParameter.field).Nodup) :
    params.foldl (fun pcpu item => (pcpuinfoParse pcpu item).2) {} =
      ({ time := givenUl params (lit "cpu.time")
         user := givenUl params (lit "cpu.user")
         system := givenUl params (lit "cpu.system") } : PCpuInfo) :=
  PCpuInfo.ext (foldl_givenUl PCpuInfo.time id pcpuinfoParse_time hd rfl)
    (foldl_givenUl PCpuInfo.user id pcpuinfoParse_user hd rfl)
    (foldl_givenUl PCpuInfo.system id pcpuinfoParse_system hd rfl)

/-- **The balloon statistics** are those the record gives. -/
theorem foldl_ballooninfoParse (hd : (params.map TypedParameter.field).Nodup) :
    params.foldl (fun balloon item => (ballooninfoParse balloon item).2) {} =
      ({ current := givenUl params (lit "balloon.current")
         maximum := givenUl params (lit "balloon.maximum") } : BalloonInfo) :=
  BalloonInfo.ext
    (foldl_givenUl BalloonInfo.current id ballooninfoParse_current hd rfl)
    (foldl_givenUl BalloonInfo.maximum id ballooninfoParse_maximum hd rfl)

/-- **What a successful first pass leaves**: the counts set by its loop, and tables of
zero entries that fit. -/
theorem vminfoSetup_eq (host : Host δ) (record : StatsRecord δ)
    (h : (vminfoSetup host vminfoInit record).1 = 0) :
    ∃ vcpu block iface,
      (vminfoSetup host vminfoInit record).2 = { record.params.foldl setupItem vminfoInit with
        vcpu := ⟨vcpu, (record.params.foldl setupItem vminfoInit).vcpu.current⟩
        block := block
        iface := iface } ∧
      (vcpu.nstats = (record.params.foldl setupItem vminfoInit).vcpu.nstats ∧ vcpu.Cleared) ∧
      (block.nstats = (record.params.foldl setupItem vminfoInit).block.nstats ∧ block.Cleared) ∧
      (iface.nstats = (record.params.foldl setupItem vminfoInit).iface.nstats ∧ iface.Cleared) := by
  have hfresh := foldl_setupItem_fresh record.params vminfoInit_fresh
  generalize hvm : record.params.foldl setupItem vminfoInit = vm at hfresh
  have hv : (vm.vcpu.allocXstats host vcpuInfoSize vcpuStatsSize).1 = true → _ :=
    hfresh.vcpu.allocXstats host (by decide) (by decide)
  have hb : (vm.block.allocXstats host blockStatsSize blockStatsSize).1 = true → _ :=
    hfresh.block.allocXstats host (by decide) le_rfl
  have hi : (vm.iface.allocXstats host ifaceStatsSize ifaceStatsSize).1 = true → _ :=
    hfresh.iface.allocXstats host (by decide) le_rfl
  simp only [vminfoSetup, hvm] at h ⊢
  cases h1 : (vm.vcpu.allocXstats host vcpuInfoSize vcpuStatsSize).1 with
  | false => simp [h1] at h
  | true =>
    cases h2 : (vm.block.allocXstats host blockStatsSize blockStatsSize).1 with
    | false => simp [h1, h2] at h
    | true =>
      cases h3 : (vm.iface.allocXstats host ifaceStatsSize ifaceStatsSize).1 with
      | false => simp [h1, h2, h3] at h
      | true =>
        exact ⟨_, _, _, rfl, ⟨StatsInfo.allocXstats_nstats .., hv h1⟩,
          ⟨StatsInfo.allocXstats_nstats .., hb h2⟩, ⟨StatsInfo.allocXstats_nstats .., hi h3⟩⟩

/-- The first pass fails only when an allocation does. -/
theorem vminfoSetup_ok (host : Host δ) (record : StatsRecord δ)
    (hd : (record.params.map TypedParameter.field).Nodup) (ha : host.Allocates record.params) :
    (vminfoSetup host vminfoInit record).1 = 0 := by
  obtain ⟨hvcpu, -, hblock, hiface⟩ := foldl_setupItem hd
  have hv := StatsInfo.allocXstats_ok vcpuStatsSize (hvcpu.symm ▸ ha.vcpu)
  have hb := StatsInfo.allocXstats_ok blockStatsSize (hblock.symm ▸ ha.block)
  have hi := StatsInfo.allocXstats_ok ifaceStatsSize (hiface.symm ▸ ha.iface)
  simp only [vminfoSetup, hv, hb, hi, Bool.not_true, Bool.false_eq_true, if_false]

/-- **Memory safety**: the tables of a `VmInfo` that was parsed successfully fit. -/
theorem vminfoParse_fits (host : Host δ) (record : StatsRecord δ)
    (h : (vminfoParse host vminfoInit record).1 = 0) :
    (vminfoParse host vminfoInit record).2.Fits := by
  have hs : (vminfoSetup host vminfoInit record).1 = 0 := by
    by_contra hne
    simp [vminfoParse, hne] at h
  obtain ⟨vcpu, block, iface, hvm, ⟨-, hv⟩, ⟨-, hb⟩, ⟨-, hi⟩⟩ := vminfoSetup_eq host record hs
  cases hu : host.uuidString record.dom with
  | none => simp [vminfoParse, hs, hu] at h
  | some uuid =>
    simp only [vminfoParse, hs, hvm, hu, parseItems_eq, ne_eq, not_true_eq_false, if_false]
    exact ⟨hv.fits, hb.fits, hi.fits⟩

/-- **What the parser does with a record**: it returns success, takes the counts and the
physical cpu and balloon statistics, and leaves every indexed entry zero. -/
theorem vminfoParse_eq (host : Host δ) (record : StatsRecord δ) {uuid : Bytes}
    (hd : (record.params.map TypedParameter.field).Nodup) (ha : host.Allocates record.params)
    (hu : host.uuidString record.dom = some uuid) :
    ∃ vm, vminfoParse host vminfoInit record = (0, vm) ∧
      vm.uuid = uuid ∧
      vm.pcpu = {
        time := givenUl record.params (lit "cpu.time")
        user := givenUl record.params (lit "cpu.user")
        system := givenUl record.params (lit "cpu.system") } ∧
      vm.balloon = {
        current := givenUl record.params (lit "balloon.current")
        maximum := givenUl record.params (lit "balloon.maximum") } ∧
      vm.vcpu.current = (givenUl record.params (lit "vcpu.current")).toNat ∧
      (vm.vcpu.nstats = vcpuCount record.params ∧ vm.vcpu.Cleared) ∧
      (vm.block.nstats = blockCount record.params ∧ vm.block.Cleared) ∧
      (vm.iface.nstats = ifaceCount record.params ∧ vm.iface.Cleared) := by
  have hs := vminfoSetup_ok host record hd ha
  have hfresh := foldl_setupItem_fresh record.params vminfoInit_fresh
  obtain ⟨hvcpu, hcurrent, hblock, hiface⟩ := foldl_setupItem hd
  obtain ⟨vcpu, block, iface, hvm, ⟨hvn, hv⟩, ⟨hbn, hb⟩, ⟨hin, hi⟩⟩ :=
    vminfoSetup_eq host record hs
  refine ⟨⟨uuid, _, _, ⟨vcpu, _⟩, block, iface⟩, ?_, rfl, foldl_pcpuinfoParse hd,
    foldl_ballooninfoParse hd, hcurrent, ⟨hvn.trans hvcpu, hv⟩, ⟨hbn.trans hblock, hb⟩,
    ⟨hin.trans hiface, hi⟩⟩
  simp only [vminfoParse, hs, hvm, hu, parseItems_eq, hfresh.pcpu, hfresh.balloon, ne_eq,
    not_true_eq_false, if_false]

theorem givenUl_eq_zero {name : Bytes} :
    givenUl params name = 0 ↔ ∀ v, given params name = some v → v.ul = 0 := by
  unfold givenUl
  cases given params name <;> simp

theorem refName_eq_empty {s : Bytes} : refName s = {} ↔ s = [] := by
  unfold refName
  constructor
  · intro h
    split at h <;> simp_all
  · rintro rfl
    rfl

theorem refName_givenS {name : Bytes} :
    refName (givenS host params name) = {} ↔ ∀ v, given params name = some v → v.s host = [] := by
  rw [refName_eq_empty, givenS]
  cases given params name <;> simp

/-- When the entry a record stands for is the zero one. -/
theorem refVcpu_eq_zero {N : ℕ} :
    refVcpu host params N = 0 ↔ ∀ f ∈ vcpuFields, given params (indexed (lit "vcpu.") N f) = none := by
  simp only [vcpuFields, List.forall_mem_cons, List.not_mem_nil, false_implies, implies_true,
    and_true]
  constructor
  · intro h
    have hp : (refVcpu host params N).present = false := by rw [h]; rfl
    simpa [refVcpu] using hp
  · rintro ⟨hs, ht⟩
    simp only [refVcpu, hs, ht]
    rfl

theorem TypedValue.blank_name {v : TypedValue} : v.Blank host (lit "name") ↔ v.s host = [] := by
  rw [TypedValue.Blank, if_pos rfl]

theorem TypedValue.blank_of_ne {v : TypedValue} {f : Bytes} (hf : f ≠ lit "name") :
    v.Blank host f ↔ v.ul = 0 := by
  rw [TypedValue.Blank, if_neg hf]

theorem refBlock_eq_zero {N : ℕ} :
    refBlock host params N = 0 ↔
      ∀ f ∈ blockFields, ∀ v, given params (indexed (lit "block.") N f) = some v → v.Blank host f := by
  have hzero : (0 : BlockStats) = { toStatsName := {} } := rfl
  simp (disch := decide) only [hzero, refBlock, BlockStats.mk.injEq, blockFields,
    List.forall_mem_cons, List.not_mem_nil, false_implies, implies_true, and_true,
    TypedValue.blank_name, TypedValue.blank_of_ne, refName_givenS, givenUl_eq_zero]

theorem refIface_eq_zero {N : ℕ} :
    refIface host params N = 0 ↔
      ∀ f ∈ ifaceFields, ∀ v, given params (indexed (lit "net.") N f) = some v → v.Blank host f := by
  have hzero : (0 : IfaceStats) = { toStatsName := {} } := rfl
  simp (disch := decide) only [hzero, refIface, IfaceStats.mk.injEq, ifaceFields,
    List.forall_mem_cons, List.not_mem_nil, false_implies, implies_true, and_true,
    TypedValue.blank_name, TypedValue.blank_of_ne, refName_givenS, givenUl_eq_zero]

/-- The condition, said of the entries the record stands for. -/
theorem unstored_iff (hd : (params.map TypedParameter.field).Nodup) :
    Unstored host params ↔
      (∀ N < vcpuCount params, refVcpu host params N = 0) ∧
      (∀ N < blockCount params, refBlock host params N = 0) ∧
      ∀ N < ifaceCount params, refIface host params N = 0 := by
  simp only [refVcpu_eq_zero, refBlock_eq_zero, refIface_eq_zero, given_eq_none,
    given_eq_some hd]
  constructor
  · intro h
    refine ⟨?_, ?_, ?_⟩
    · intro N hN f hf p hp
      exact (h p hp).1 N hN f hf
    · rintro N hN f hf v ⟨p, hp, hname, rfl⟩
      exact (h p hp).2.1 N hN f hf hname
    · rintro N hN f hf v ⟨p, hp, hname, rfl⟩
      exact (h p hp).2.2 N hN f hf hname
  · rintro ⟨hv, hb, hi⟩ p hp
    refine ⟨?_, ?_, ?_⟩
    · intro N hN f hf
      exact hv N hN f hf p hp
    · intro N hN f hf hname
      exact hb N hN f hf p.value ⟨p, hp, hname, rfl⟩
    · intro N hN f hf hname
      exact hi N hN f hf p.value ⟨p, hp, hname, rfl⟩

/-- A table of zero entries agrees with a reference that is zero, and no other. -/
theorem StatsInfo.Cleared.agrees_iff {S : Type} {cap n : ℕ} [Zero S] {x : StatsInfo S cap}
    (hx : x.Cleared) (hn : x.nstats = n) (ref : ℕ → S) :
    x.Agrees n ref ↔ ∀ N < n, ref N = 0 := by
  subst hn
  constructor
  · intro h N hN
    have := h.2 N hN
    rw [hx N hN, Option.some.injEq] at this
    exact this.symm
  · intro h
    refine ⟨rfl, ?_⟩
    intro N hN
    rw [hx N hN, h N hN]

/-- **A record is read correctly exactly when there is nothing indexed to read.** -/
theorem vminfo_parse_iff (host : Host δ) (record : StatsRecord δ) (uuid : Bytes)
    (hd : (record.params.map TypedParameter.field).Nodup) (ha : host.Allocates record.params)
    (hu : host.uuidString record.dom = some uuid) :
    ((vminfoParse host vminfoInit record).1 = 0 ∧
      IsReference host uuid record.params (vminfoParse host vminfoInit record).2) ↔
    Unstored host record.params := by
  obtain ⟨vm, hvm, huuid, hp, hb, hc, ⟨hvn, hv⟩, ⟨hbn, hbl⟩, ⟨hin, hi⟩⟩ :=
    vminfoParse_eq host record hd ha hu
  rw [hvm, unstored_iff hd]
  constructor
  · rintro ⟨-, h⟩
    exact ⟨(hv.agrees_iff hvn _).mp h.vcpu, (hbl.agrees_iff hbn _).mp h.block,
      (hi.agrees_iff hin _).mp h.iface⟩
  · rintro ⟨h1, h2, h3⟩
    exact ⟨rfl, huuid, hp, hb, hc, (hv.agrees_iff hvn _).mpr h1, (hbl.agrees_iff hbn _).mpr h2,
      (hi.agrees_iff hin _).mpr h3⟩

end Agreement

/-! ### One domain -/

/-- A host where everything succeeds. -/
private def host₁ : Host Unit :=
  { calloc := fun _ _ => true, strdup := fun _ => true, uuidString := fun _ => some (lit "vm"),
    bigEndian := false, string := fun _ => [] }

/-- Two vcpus announced and nothing said about them. -/
private def record₁ : StatsRecord Unit :=
  { dom := ()
    params := [⟨lit "cpu.time", ⟨5⟩⟩, ⟨lit "vcpu.current", ⟨1⟩⟩,
      ⟨lit "vcpu.maximum", ⟨2⟩⟩] }

/-- One running vcpu, as libvirt reports it. -/
private def record₂ : StatsRecord Unit :=
  { dom := ()
    params := [⟨lit "vcpu.current", ⟨1⟩⟩, ⟨lit "vcpu.maximum", ⟨1⟩⟩,
      ⟨lit "vcpu.0.state", ⟨1⟩⟩, ⟨lit "vcpu.0.time", ⟨7⟩⟩] }

private theorem host₁_allocates (params : List TypedParameter) : host₁.Allocates params :=
  ⟨fun _ => rfl, fun _ => rfl, fun _ => rfl⟩

theorem vminfo_parse_iff_announced :
    ((vminfoParse host₁ vminfoInit record₁).1 = 0 ∧
      IsReference host₁ (lit "vm") record₁.params (vminfoParse host₁ vminfoInit record₁).2) ↔
    Unstored host₁ record₁.params :=
  vminfo_parse_iff host₁ record₁ (lit "vm") (by decide) (host₁_allocates _) rfl

/-- The one vcpu that is running is not marked present. -/
theorem vminfo_parse_iff_fails :
    (record₂.params.map TypedParameter.field).Nodup ∧ host₁.Allocates record₂.params ∧
    host₁.uuidString record₂.dom = some (lit "vm") ∧
    ¬ ((vminfoParse host₁ vminfoInit record₂).1 = 0 ∧
      IsReference host₁ (lit "vm") record₂.params (vminfoParse host₁ vminfoInit record₂).2) := by
  refine ⟨by decide, host₁_allocates _, rfl, ?_⟩
  rintro ⟨-, h⟩
  have hvcpu := h.vcpu.2 0 (by decide)
  revert hvcpu
  decide

end Vmon
