import Vmon.VmInfo.Parse

/-!
# The memory of a `VmInfo`

What `collect_success` does with the arrays of one record, from `vminfo_init` to
`vminfo_free`: which it allocates and releases, and at which places it uses them. The
cleanup of a failed `vminfo_setup` releases arrays but keeps the pointers and counts, and
the caller goes on. `vminfo_memory_iff` says when the memory is kept in order: exactly
when no allocation of the record fails.

## Main definitions

* `MemoryEvent` — allocations, releases and uses.
* `recordEvents` — those of one record.
* `Backed`, `MemorySafe` — the promise.
* `announced` — a count as the record gives it.
-/

namespace Vmon

variable {δ : Type}

/-! ### Events -/

inductive Table
  | vcpu
  | block
  | iface
  deriving DecidableEq

/-- The array of a table, or the name of its entry `i`. -/
inductive Allocation
  | xstats (table : Table)
  | xname (table : Table) (i : ℕ)
  deriving DecidableEq

/-- A use is of entry `i` of an array of `len` entries. -/
inductive MemoryEvent
  | alloc (a : Allocation)
  | free (a : Allocation)
  | use (table : Table) (i len : ℕ)
  deriving DecidableEq

/-- A `calloc` that succeeds, in the `ALLOC_XSTATS` macro. -/
def StatsInfo.allocEvents {S : Type} {cap : ℕ} (host : Host δ) (itemsize : ℕ) (table : Table)
    (x : StatsInfo S cap) : List MemoryEvent :=
  if x.nstats > cap then
    if host.calloc x.nstats itemsize then [.alloc (.xstats table)] else []
  else []

/-- `free(xstats)`, which does nothing on a null pointer. -/
def StatsInfo.freeEvents {S : Type} {cap : ℕ} (table : Table) (x : StatsInfo S cap) :
    List MemoryEvent :=
  match x.xstats with
  | .null => []
  | _ => [.free (.xstats table)]

def setupCleanupEvents (vm : VmInfo) : List MemoryEvent :=
  vm.block.freeEvents .block ++ vm.vcpu.freeEvents .vcpu

def vminfoSetupEvents (host : Host δ) (vm : VmInfo) (record : StatsRecord δ) : List MemoryEvent :=
  let vm := record.params.foldl setupItem vm
  let vcpuEvents := vm.vcpu.allocEvents host vcpuInfoSize .vcpu
  let (ok, vcpu) := vm.vcpu.allocXstats host vcpuInfoSize vcpuStatsSize
  let vm := { vm with vcpu := { vm.vcpu with toStatsInfo := vcpu } }
  if !ok then vcpuEvents ++ setupCleanupEvents vm else
  let blockEvents := vm.block.allocEvents host blockStatsSize .block
  let (ok, block) := vm.block.allocXstats host blockStatsSize blockStatsSize
  let vm := { vm with block := block }
  if !ok then vcpuEvents ++ blockEvents ++ setupCleanupEvents vm else
  let ifaceEvents := vm.iface.allocEvents host ifaceStatsSize .iface
  let (ok, iface) := vm.iface.allocXstats host ifaceStatsSize ifaceStatsSize
  let vm := { vm with iface := iface }
  if !ok then vcpuEvents ++ blockEvents ++ ifaceEvents ++ setupCleanupEvents vm
  else vcpuEvents ++ blockEvents ++ ifaceEvents

/-- Where a family uses its array for one parameter, and the copy of a name that it makes. -/
def StatsInfo.parseEvents {S : Type} {cap : ℕ} (host : Host δ) (pfx : Bytes) (table : Table)
    (named : Bool) (x : StatsInfo S cap) (item : TypedParameter) : List MemoryEvent :=
  match scanField { pfx := pfx, maxoffset := x.nstats } item.field with
  | some m =>
    let name := item.value.s host
    .use table m.offset x.items.length ::
      if named && m.suffix = lit "name" && name.length > statsNameLen - 1 && host.strdup name then
        [.alloc (.xname table m.offset)]
      else []
  | none => []

def parseItemEvents (host : Host δ) (vm : VmInfo) (item : TypedParameter) : List MemoryEvent :=
  vm.vcpu.parseEvents host (lit "vcpu.") .vcpu false item ++
    vm.block.parseEvents host (lit "block.") .block true item ++
    vm.iface.parseEvents host (lit "iface.") .iface true item

def parseItemsEvents (host : Host δ) (vm : VmInfo) : List TypedParameter → List MemoryEvent
  | [] => []
  | item :: items =>
    parseItemEvents host vm item ++
      let (err, vm) := parseItem host vm item
      if err < 0 then [] else parseItemsEvents host vm items

def vminfoParseEvents (host : Host δ) (vm : VmInfo) (record : StatsRecord δ) : List MemoryEvent :=
  vminfoSetupEvents host vm record ++
    let (err, vm) := vminfoSetup host vm record
    if err ≠ 0 then [] else
    match host.uuidString record.dom with
    | none => []
    | some uuid => parseItemsEvents host { vm with uuid := uuid } record.params

/-- A loop from zero to `nstats` over the array in use. -/
def StatsInfo.loopEvents {S : Type} {cap : ℕ} (table : Table) (x : StatsInfo S cap) :
    List MemoryEvent :=
  (List.range x.nstats).map fun i => .use table i x.items.length

/-- The pointer `stats` stays at the first entry. -/
def vminfoSendEventsEvents (vm : VmInfo) : List MemoryEvent :=
  (List.range vm.block.nstats).map fun _ => .use .block 0 vm.block.items.length

def vminfoPrintJsonEvents (vm : VmInfo) : List MemoryEvent :=
  vm.vcpu.loopEvents .vcpu ++ vm.block.loopEvents .block ++ vm.iface.loopEvents .iface

/-- The loop that releases the names of a table. -/
def StatsInfo.nameEvents {S : Type} {cap : ℕ} (table : Table) (name : S → StatsName)
    (x : StatsInfo S cap) : List MemoryEvent :=
  (List.range x.nstats).flatMap fun i =>
    .use table i x.items.length ::
      match (x.items[i]?).bind fun stats => (name stats).xname with
      | some _ => [.free (.xname table i)]
      | none => []

def vminfoFreeEvents (vm : VmInfo) : List MemoryEvent :=
  vm.vcpu.freeEvents .vcpu ++
    (vm.block.nameEvents .block BlockStats.toStatsName ++ vm.block.freeEvents .block) ++
    (vm.iface.nameEvents .iface IfaceStats.toStatsName ++ vm.iface.freeEvents .iface)

/-- One turn of the loop of `collect_success`, which does not look at the value of
`vminfo_parse`. -/
def recordEvents (host : Host δ) (eventsOnly : Bool) (record : StatsRecord δ) : List MemoryEvent :=
  let vm := (vminfoParse host vminfoInit record).2
  vminfoParseEvents host vminfoInit record ++ vminfoSendEventsEvents vm ++
    (if eventsOnly then [] else vminfoPrintJsonEvents vm) ++ vminfoFreeEvents vm

/-! ### The promise -/

/-- The entries are inline, or in an array on the heap that was not released. -/
def StatsInfo.Backed {S : Type} {cap : ℕ} (x : StatsInfo S cap) : Prop :=
  (x.xstats = .null ∧ x.nstats ≤ cap) ∨
    ∃ entries, x.xstats = .live entries ∧ x.nstats ≤ entries.length

structure VmInfo.Backed (vm : VmInfo) : Prop where
  vcpu : vm.vcpu.Backed
  block : vm.block.Backed
  iface : vm.iface.Backed

/-- Every use is within its array, and every allocation is released once. -/
structure MemorySafe (events : List MemoryEvent) : Prop where
  within : ∀ table i len, .use table i len ∈ events → i < len
  once : ∀ a, events.count (.alloc a) ≤ 1 ∧ events.count (.free a) = events.count (.alloc a)

/-- **The promise**: the tables are backed when `vminfo_parse` returns, and all that is done
with the record is safe. -/
structure MemoryKept (host : Host δ) (eventsOnly : Bool) (record : StatsRecord δ) : Prop where
  backed : (vminfoParse host vminfoInit record).2.Backed
  safe : MemorySafe (recordEvents host eventsOnly record)

/-- The count that the record gives under a name: the last one. -/
def announced (params : List TypedParameter) (name : Bytes) : ℕ :=
  params.foldl (fun n item => if item.field = name then item.value.ul.toNat else n) 0

/-- Every allocation the record asks for succeeds. -/
structure Host.AllocatesAll (host : Host δ) (params : List TypedParameter) : Prop where
  vcpu : vcpuStatsNum < announced params (lit "vcpu.maximum") →
    host.calloc (announced params (lit "vcpu.maximum")) vcpuInfoSize
  block : blockStatsNum < announced params (lit "block.count") →
    host.calloc (announced params (lit "block.count")) blockStatsSize
  iface : ifaceStatsNum < announced params (lit "net.count") →
    host.calloc (announced params (lit "net.count")) ifaceStatsSize

/-! ### The first pass -/

section Setup

variable {S : Type} {cap : ℕ} {x : StatsInfo S cap} {host : Host δ} {itemsize statsize : ℕ}

theorem foldl_setupItem_announced (params : List TypedParameter) :
    (params.foldl setupItem vminfoInit).vcpu.nstats = announced params (lit "vcpu.maximum") ∧
    (params.foldl setupItem vminfoInit).block.nstats = announced params (lit "block.count") ∧
    (params.foldl setupItem vminfoInit).iface.nstats = announced params (lit "net.count") := by
  refine ⟨?_, ?_, ?_⟩
  · exact (List.foldl_hom (fun vm : VmInfo => vm.vcpu.nstats) fun vm p =>
      (setupItem_vcpu vm p).symm).symm
  · exact (List.foldl_hom (fun vm : VmInfo => vm.block.nstats) fun vm p =>
      (setupItem_block vm p).symm).symm
  · exact (List.foldl_hom (fun vm : VmInfo => vm.iface.nstats) fun vm p =>
      (setupItem_iface vm p).symm).symm

/-- An allocation fails on a table that does not fit inline, when `calloc` does. -/
theorem StatsInfo.allocXstats_fails [Zero S]
    (h : (x.allocXstats host itemsize statsize).1 = false) :
    (cap < x.nstats ∧ host.calloc x.nstats itemsize = false) ∧
      (x.allocXstats host itemsize statsize).2 = { x with xstats := .null } := by
  unfold StatsInfo.allocXstats at h ⊢
  split_ifs at h ⊢ with hcap hcalloc
  exact ⟨⟨hcap, by simpa using hcalloc⟩, rfl⟩

theorem StatsInfo.calloc_of_ok [Zero S] (h : (x.allocXstats host itemsize statsize).1 = true)
    (hcap : cap < x.nstats) : host.calloc x.nstats itemsize = true := by
  unfold StatsInfo.allocXstats at h
  rw [if_pos hcap] at h
  split at h
  · next hcalloc => exact hcalloc
  · cases h

/-- A table too big for the structure needs an array. -/
theorem StatsInfo.not_backed (hnull : x.xstats = .null) (hcap : cap < x.nstats) : ¬x.Backed := by
  rintro (⟨-, hle⟩ | ⟨entries, hlive, -⟩)
  · exact absurd hcap (not_lt.mpr hle)
  · rw [hnull] at hlive
    cases hlive

theorem StatsInfo.Fresh.backed [Zero S] (hx : x.Fresh) (hpos : 0 < statsize)
    (hsize : statsize ≤ itemsize) (hok : (x.allocXstats host itemsize statsize).1 = true) :
    (x.allocXstats host itemsize statsize).2.Backed := by
  unfold StatsInfo.allocXstats at hok ⊢
  split_ifs at hok ⊢ with hcap
  · refine .inr ⟨_, rfl, ?_⟩
    rw [List.length_replicate, Nat.le_div_iff_mul_le hpos]
    exact Nat.mul_le_mul_left _ hsize
  · exact .inl ⟨hx.xstats, not_lt.mp hcap⟩

theorem StatsInfo.Backed.fits (h : x.Backed) : x.Fits := by
  rcases h with ⟨hnull, hle⟩ | ⟨entries, hlive, hle⟩
  · rw [StatsInfo.Fits, StatsInfo.items, hnull, x.stats_length]
    exact hle
  · rw [StatsInfo.Fits, StatsInfo.items, hlive]
    exact hle

/-- The array of a table was allocated and released once, or not at all. -/
def Balanced (table : Table) (allocs frees : List MemoryEvent) : Prop :=
  (allocs = [] ∧ frees = []) ∨
    (allocs = [.alloc (.xstats table)] ∧ frees = [.free (.xstats table)])

/-- What was allocated for a table is what `vminfo_free` releases of it. -/
theorem StatsInfo.Fresh.balanced [Zero S] (hx : x.Fresh) (table : Table)
    (hok : (x.allocXstats host itemsize statsize).1 = true) :
    Balanced table (x.allocEvents host itemsize table)
      ((x.allocXstats host itemsize statsize).2.freeEvents table) := by
  unfold StatsInfo.allocXstats at hok ⊢
  unfold StatsInfo.allocEvents
  split_ifs at hok ⊢ with hcap
  · exact .inr ⟨rfl, rfl⟩
  · refine .inl ⟨rfl, ?_⟩
    rw [StatsInfo.freeEvents, hx.xstats]

/-- The first pass of a record whose allocations succeed. -/
theorem vminfoSetup_of_ok (host : Host δ) (record : StatsRecord δ) {vm : VmInfo}
    (hvm : record.params.foldl setupItem vminfoInit = vm)
    (hv : (vm.vcpu.allocXstats host vcpuInfoSize vcpuStatsSize).1 = true)
    (hb : (vm.block.allocXstats host blockStatsSize blockStatsSize).1 = true)
    (hi : (vm.iface.allocXstats host ifaceStatsSize ifaceStatsSize).1 = true) :
    vminfoSetup host vminfoInit record = (0, { vm with
        vcpu := ⟨(vm.vcpu.allocXstats host vcpuInfoSize vcpuStatsSize).2, vm.vcpu.current⟩
        block := (vm.block.allocXstats host blockStatsSize blockStatsSize).2
        iface := (vm.iface.allocXstats host ifaceStatsSize ifaceStatsSize).2 }) ∧
      vminfoSetupEvents host vminfoInit record =
        vm.vcpu.allocEvents host vcpuInfoSize .vcpu ++
          vm.block.allocEvents host blockStatsSize .block ++
            vm.iface.allocEvents host ifaceStatsSize .iface := by
  simp only [vminfoSetup, vminfoSetupEvents, hvm, hv, hb, hi, Bool.not_true, Bool.false_eq_true,
    if_false, and_self]

/-- The second pass leaves the tables as they are. -/
theorem vminfoParse_tables (host : Host δ) (vm : VmInfo) (record : StatsRecord δ) :
    (vminfoParse host vm record).2.vcpu = (vminfoSetup host vm record).2.vcpu ∧
    (vminfoParse host vm record).2.block = (vminfoSetup host vm record).2.block ∧
    (vminfoParse host vm record).2.iface = (vminfoSetup host vm record).2.iface := by
  simp only [vminfoParse]
  split
  · exact ⟨rfl, rfl, rfl⟩
  · split
    · exact ⟨rfl, rfl, rfl⟩
    · rw [parseItems_eq]
      exact ⟨rfl, rfl, rfl⟩

/-- **A failed allocation leaves a table without its array**: the failing family's own pointer
is null, whatever the cleanup does. -/
theorem vminfoSetup_fails (host : Host δ) (record : StatsRecord δ) {vm : VmInfo}
    (hvm : record.params.foldl setupItem vminfoInit = vm)
    (h : ¬((vm.vcpu.allocXstats host vcpuInfoSize vcpuStatsSize).1 = true ∧
      (vm.block.allocXstats host blockStatsSize blockStatsSize).1 = true ∧
      (vm.iface.allocXstats host ifaceStatsSize ifaceStatsSize).1 = true)) :
    ¬(vminfoSetup host vminfoInit record).2.Backed := by
  simp only [vminfoSetup, hvm]
  intro H
  cases h1 : (vm.vcpu.allocXstats host vcpuInfoSize vcpuStatsSize).1 with
  | false =>
    obtain ⟨⟨hcap, -⟩, heq⟩ := StatsInfo.allocXstats_fails h1
    simp only [h1, heq, Bool.not_false, if_true] at H
    exact absurd H.vcpu (StatsInfo.not_backed rfl hcap)
  | true =>
    cases h2 : (vm.block.allocXstats host blockStatsSize blockStatsSize).1 with
    | false =>
      obtain ⟨⟨hcap, -⟩, heq⟩ := StatsInfo.allocXstats_fails h2
      simp only [h1, h2, heq, Bool.not_true, Bool.false_eq_true, if_false, Bool.not_false,
        if_true] at H
      exact absurd H.block (StatsInfo.not_backed rfl hcap)
    | true =>
      cases h3 : (vm.iface.allocXstats host ifaceStatsSize ifaceStatsSize).1 with
      | false =>
        obtain ⟨⟨hcap, -⟩, heq⟩ := StatsInfo.allocXstats_fails h3
        simp only [h1, h2, h3, heq, Bool.not_true, Bool.false_eq_true, if_false, Bool.not_false,
          if_true] at H
        exact absurd H.iface (StatsInfo.not_backed rfl hcap)
      | true => exact h ⟨h1, h2, h3⟩

end Setup

/-! ### Uses -/

/-- Nothing but uses, within their arrays. -/
def UsesWithin (events : List MemoryEvent) : Prop :=
  ∀ e ∈ events, ∃ table i len, e = .use table i len ∧ i < len

namespace UsesWithin

variable {events more : List MemoryEvent}

theorem nil : UsesWithin [] := by
  intro e he
  cases he

theorem append (h : UsesWithin events) (h' : UsesWithin more) : UsesWithin (events ++ more) := by
  intro e he
  rcases List.mem_append.mp he with he | he
  · exact h e he
  · exact h' e he

theorem count_eq_zero (h : UsesWithin events) (a : Allocation) :
    events.count (.alloc a) = 0 ∧ events.count (.free a) = 0 := by
  constructor
  all_goals
    rw [List.count_eq_zero]
    intro hmem
    obtain ⟨table, i, len, heq, -⟩ := h _ hmem
    cases heq

end UsesWithin

section Uses

variable {S : Type} {cap : ℕ} {x : StatsInfo S cap}

theorem scanField_lt {scan : FieldScanner} {name : Bytes} {m : FieldMatch}
    (h : scanField scan name = some m) : m.offset < scan.maxoffset := by
  unfold scanField at h
  split at h
  · cases h
  · simp only [Option.ite_none_right_eq_some, Option.some.injEq] at h
    obtain ⟨hlt, rfl⟩ := h
    exact hlt

/-- A family uses an entry it has, and copies no name: no suffix a scan gives is `name`. -/
theorem StatsInfo.Fits.parseEvents (h : x.Fits) (host : Host δ) {c : UInt8} {pfx : Bytes}
    (hc : isDigit c = false) (hpfx : ¬pfx <+: lit "name") (table : Table) (named : Bool)
    (item : TypedParameter) : UsesWithin (x.parseEvents host (c :: pfx) table named item) := by
  unfold StatsInfo.parseEvents
  split
  · next m hm =>
    have hname : m.suffix ≠ lit "name" := by
      intro heq
      exact hpfx (heq ▸ (scanField_eq_some hc hm).2)
    intro e he
    simp only [hname, decide_false, Bool.and_false, Bool.false_and, Bool.false_eq_true,
      if_false, List.mem_singleton] at he
    exact ⟨_, _, _, he, lt_of_lt_of_le (scanField_lt hm) h⟩
  · exact .nil

theorem StatsInfo.Fits.loopEvents (h : x.Fits) (table : Table) :
    UsesWithin (x.loopEvents table) := by
  intro e he
  obtain ⟨i, hi, rfl⟩ := List.mem_map.mp he
  exact ⟨_, _, _, rfl, lt_of_lt_of_le (List.mem_range.mp hi) h⟩

/-- A table without names releases none. -/
theorem StatsInfo.Cleared.nameEvents [Zero S] (h : x.Cleared) (table : Table)
    {name : S → StatsName} (hzero : (name 0).xname = none) : UsesWithin (x.nameEvents table name) := by
  intro e he
  obtain ⟨i, hi, he⟩ := List.mem_flatMap.mp he
  have hi := List.mem_range.mp hi
  simp only [h i hi, Option.bind_some, hzero, List.mem_singleton] at he
  exact ⟨_, _, _, he, lt_of_lt_of_le hi h.fits⟩

variable {vm : VmInfo}

theorem VmInfo.Fits.parseItemsEvents (h : vm.Fits) (host : Host δ) (items : List TypedParameter) :
    UsesWithin (parseItemsEvents host vm items) := by
  induction items generalizing vm with
  | nil => exact .nil
  | cons item items ih =>
    have hvcpu : UsesWithin (vm.vcpu.parseEvents host (lit "vcpu.") .vcpu false item) :=
      h.vcpu.parseEvents (c := 0x76) host rfl (by decide) _ _ _
    have hblock : UsesWithin (vm.block.parseEvents host (lit "block.") .block true item) :=
      h.block.parseEvents (c := 0x62) host rfl (by decide) _ _ _
    have hiface : UsesWithin (vm.iface.parseEvents host (lit "iface.") .iface true item) :=
      h.iface.parseEvents (c := 0x69) host rfl (by decide) _ _ _
    rw [Vmon.parseItemsEvents, parseItem_eq]
    simp only [lt_irrefl, if_false]
    apply ((hvcpu.append hblock).append hiface).append
    apply ih
    exact ⟨h.vcpu, h.block, h.iface⟩

theorem VmInfo.Fits.sendEventsEvents (h : vm.Fits) : UsesWithin (vminfoSendEventsEvents vm) := by
  intro e he
  obtain ⟨i, hi, rfl⟩ := List.mem_map.mp he
  exact ⟨_, _, _, rfl, lt_of_le_of_lt (Nat.zero_le i)
    (lt_of_lt_of_le (List.mem_range.mp hi) h.block)⟩

theorem VmInfo.Fits.printJsonEvents (h : vm.Fits) : UsesWithin (vminfoPrintJsonEvents vm) :=
  ((h.vcpu.loopEvents _).append (h.block.loopEvents _)).append (h.iface.loopEvents _)

end Uses

/-! ### The whole record -/

namespace Balanced

variable {table : Table} {allocs frees : List MemoryEvent}

theorem counts (h : Balanced table allocs frees) (a : Allocation) :
    allocs.count (.free a) = 0 ∧ frees.count (.alloc a) = 0 ∧
      frees.count (.free a) = allocs.count (.alloc a) ∧
        allocs.count (.alloc a) ≤ if a = .xstats table then 1 else 0 := by
  rcases h with ⟨rfl, rfl⟩ | ⟨rfl, rfl⟩
  · simp
  · by_cases ha : a = .xstats table
    · subst ha
      simp
    · have ha' : ¬Allocation.xstats table = a := fun h => ha h.symm
      simp [ha, ha']

theorem no_use (h : Balanced table allocs frees) (t : Table) (i len : ℕ) :
    .use t i len ∉ allocs ∧ .use t i len ∉ frees := by
  rcases h with ⟨rfl, rfl⟩ | ⟨rfl, rfl⟩ <;> simp

end Balanced

/-- The arrays of the three tables, with nothing but uses between. -/
theorem memorySafe_of_balanced {av ab ai fv fb fi p s j n m : List MemoryEvent}
    (hv : Balanced .vcpu av fv) (hb : Balanced .block ab fb) (hi : Balanced .iface ai fi)
    (hp : UsesWithin p) (hs : UsesWithin s) (hj : UsesWithin j) (hn : UsesWithin n)
    (hm : UsesWithin m) :
    MemorySafe (av ++ ab ++ ai ++ p ++ s ++ j ++ (fv ++ (n ++ fb) ++ (m ++ fi))) := by
  constructor
  · intro table i len he
    obtain ⟨hav, hfv⟩ := hv.no_use table i len
    obtain ⟨hab, hfb⟩ := hb.no_use table i len
    obtain ⟨hai, hfi⟩ := hi.no_use table i len
    have hall := (((hp.append hs).append hj).append hn).append hm
    obtain ⟨_, _, _, heq, hlt⟩ := hall (.use table i len) (by
      simp only [List.mem_append, hav, hab, hai, hfv, hfb, hfi, false_or, or_false] at he ⊢
      tauto)
    cases heq
    exact hlt
  · intro a
    obtain ⟨v1, v2, v3, v4⟩ := hv.counts a
    obtain ⟨b1, b2, b3, b4⟩ := hb.counts a
    obtain ⟨i1, i2, i3, i4⟩ := hi.counts a
    have hone : (if a = .xstats .vcpu then 1 else 0) + (if a = .xstats .block then 1 else 0) +
        (if a = .xstats .iface then 1 else 0) ≤ 1 := by
      rcases a with ⟨_ | _ | _⟩ | _ <;> simp
    simp only [List.count_append, hp.count_eq_zero a, hs.count_eq_zero a, hj.count_eq_zero a,
      hn.count_eq_zero a, hm.count_eq_zero a, v1, v2, v3, b1, b2, b3, i1, i2, i3]
    omega

/-- **A record whose allocations succeed** is handled safely, whatever `vminfo_parse` returns. -/
theorem memoryKept_of_ok {host : Host δ} {eventsOnly : Bool} {record : StatsRecord δ} {vm : VmInfo}
    (hvm : record.params.foldl setupItem vminfoInit = vm)
    (hv : (vm.vcpu.allocXstats host vcpuInfoSize vcpuStatsSize).1 = true)
    (hb : (vm.block.allocXstats host blockStatsSize blockStatsSize).1 = true)
    (hi : (vm.iface.allocXstats host ifaceStatsSize ifaceStatsSize).1 = true) :
    MemoryKept host eventsOnly record := by
  have hfresh := foldl_setupItem_fresh record.params vminfoInit_fresh
  rw [hvm] at hfresh
  obtain ⟨hsetup, hevents⟩ := vminfoSetup_of_ok host record hvm hv hb hi
  obtain ⟨tv, tb, ti⟩ := vminfoParse_tables host vminfoInit record
  simp only [hsetup] at tv tb ti
  have hclearb := hfresh.block.allocXstats host (by decide) le_rfl hb
  have hcleari := hfresh.iface.allocXstats host (by decide) le_rfl hi
  have hbacked : (vminfoParse host vminfoInit record).2.Backed := by
    constructor
    · rw [tv]
      exact hfresh.vcpu.backed (by decide) (by decide) hv
    · rw [tb]
      exact hfresh.block.backed (by decide) le_rfl hb
    · rw [ti]
      exact hfresh.iface.backed (by decide) le_rfl hi
  have hfits : (vminfoParse host vminfoInit record).2.Fits :=
    ⟨hbacked.vcpu.fits, hbacked.block.fits, hbacked.iface.fits⟩
  -- the second pass only uses the tables
  obtain ⟨p, hparse, hp⟩ : ∃ p, vminfoParseEvents host vminfoInit record =
      vminfoSetupEvents host vminfoInit record ++ p ∧ UsesWithin p := by
    refine ⟨_, rfl, ?_⟩
    simp only [hsetup, ne_eq, not_true_eq_false, if_false]
    split
    · exact .nil
    · apply VmInfo.Fits.parseItemsEvents
      exact ⟨tv ▸ hfits.vcpu, tb ▸ hfits.block, ti ▸ hfits.iface⟩
  have hprint : UsesWithin (if eventsOnly then []
      else vminfoPrintJsonEvents (vminfoParse host vminfoInit record).2) := by
    split
    · exact .nil
    · exact hfits.printJsonEvents
  refine ⟨hbacked, ?_⟩
  simp only [recordEvents, hparse, hevents, vminfoFreeEvents, tv, tb, ti]
  refine memorySafe_of_balanced (hfresh.vcpu.balanced .vcpu hv) (hfresh.block.balanced .block hb)
    (hfresh.iface.balanced .iface hi) hp hfits.sendEventsEvents hprint
    (hclearb.nameEvents _ rfl) (hcleari.nameEvents _ rfl)

/-- **The memory of a record** is kept in order exactly when no allocation it asks for fails. -/
theorem vminfo_memory_iff (host : Host δ) (eventsOnly : Bool) (record : StatsRecord δ) :
    MemoryKept host eventsOnly record ↔ host.AllocatesAll record.params := by
  obtain ⟨hnv, hnb, hni⟩ := foldl_setupItem_announced record.params
  generalize hvm : record.params.foldl setupItem vminfoInit = vm at hnv hnb hni
  constructor
  · intro H
    have hok := not_not.mp fun hno => vminfoSetup_fails host record hvm hno (by
      obtain ⟨tv, tb, ti⟩ := vminfoParse_tables host vminfoInit record
      exact ⟨tv ▸ H.backed.vcpu, tb ▸ H.backed.block, ti ▸ H.backed.iface⟩)
    obtain ⟨hv, hb, hi⟩ := hok
    constructor
    · rw [← hnv]
      exact StatsInfo.calloc_of_ok hv
    · rw [← hnb]
      exact StatsInfo.calloc_of_ok hb
    · rw [← hni]
      exact StatsInfo.calloc_of_ok hi
  · intro ⟨av, ab, ai⟩
    rw [← hnv] at av
    rw [← hnb] at ab
    rw [← hni] at ai
    exact memoryKept_of_ok hvm (StatsInfo.allocXstats_ok _ av) (StatsInfo.allocXstats_ok _ ab)
      (StatsInfo.allocXstats_ok _ ai)

/-- Seventeen vcpus and nine blocks, with memory for the vcpus only: their array is released
twice, and a ninth block is looked for in the structure. -/
theorem vminfo_memory_fails : ∃ (host : Host Unit) (record : StatsRecord Unit),
    record.params = [⟨lit "vcpu.maximum", ⟨17⟩⟩, ⟨lit "block.count", ⟨9⟩⟩] ∧
      host.calloc 17 vcpuInfoSize = true ∧ host.calloc 9 blockStatsSize = false ∧
      (recordEvents host false record).count (.free (.xstats .vcpu)) = 2 ∧
      .use .block 8 8 ∈ recordEvents host false record ∧ ¬MemoryKept host false record := by
  refine ⟨⟨fun _ size => size = vcpuInfoSize, fun _ => true, fun _ => some [], false, fun _ => []⟩,
    ⟨(), _⟩, rfl, by decide, by decide, by decide +kernel, by decide +kernel, ?_⟩
  intro H
  have honce := H.safe.once (.xstats .vcpu)
  revert honce
  decide +kernel

end Vmon
