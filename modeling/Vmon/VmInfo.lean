import Vmon.Lib.Bytes

/-!
# The statistics of one virtual machine

`VmInfo` and what it is made of. Each of the vcpu, block and interface statistics
is a table of `nstats` entries, held in an array inside the structure or, when
there are more, in one on the heap.

The members that nothing reads (`state`) are left out.

## Main definitions

* `TypedParameter`, `StatsRecord` — what libvirt reports for one domain.
* `StatsInfo S cap` — a table with `cap` inline entries.
* `StatsInfo.Fits` — the array in use holds the announced number of entries.
* `VmInfo`, `vminfoInit` — the statistics, and their initial value.
-/

namespace Vmon

/-! ### Records -/

/-- The `value` union of a typed parameter: its eight bytes, as a word in the byte order of
the machine. -/
structure TypedValue where
  word : UInt64
  deriving DecidableEq

/-- Member `ul` is all eight bytes. -/
def TypedValue.ul (v : TypedValue) : UInt64 := v.word

/-- `virTypedParameter`. -/
structure TypedParameter where
  field : Bytes
  value : TypedValue
  deriving DecidableEq

/-- `virDomainStatsRecord`, for domains named by `δ`. -/
structure StatsRecord (δ : Type) where
  dom : δ
  params : List TypedParameter
  deriving DecidableEq

/-! ### Tables -/

def statsNameLen : ℕ := 128
def blockStatsNum : ℕ := 8
def ifaceStatsNum : ℕ := 8
def vcpuStatsNum : ℕ := 16

/-- The two places of a device name: the inline buffer, and a heap copy of a name
too long for it. -/
structure StatsName where
  xname : Option Bytes := none
  name : Bytes := []
  deriving DecidableEq

/-- `(stats->xname) ? stats->xname : stats->name`. -/
def StatsName.label (s : StatsName) : Bytes := s.xname.getD s.name

structure BlockStats extends StatsName where
  rdReqs : UInt64 := 0
  rdBytes : UInt64 := 0
  rdTimes : UInt64 := 0
  wrReqs : UInt64 := 0
  wrBytes : UInt64 := 0
  wrTimes : UInt64 := 0
  flBytes : UInt64 := 0
  flTimes : UInt64 := 0
  allocation : UInt64 := 0
  capacity : UInt64 := 0
  physical : UInt64 := 0
  deriving DecidableEq

structure IfaceStats extends StatsName where
  rxBytes : UInt64 := 0
  rxPkts : UInt64 := 0
  rxErrs : UInt64 := 0
  rxDrop : UInt64 := 0
  txBytes : UInt64 := 0
  txPkts : UInt64 := 0
  txErrs : UInt64 := 0
  txDrop : UInt64 := 0
  deriving DecidableEq

structure VCpuStats where
  present : Bool := false
  state : Int32 := 0
  time : UInt64 := 0
  deriving DecidableEq

instance : Zero BlockStats := ⟨{}⟩
instance : Zero IfaceStats := ⟨{}⟩
instance : Zero VCpuStats := ⟨{}⟩

/-- The `xstats` pointer: null, an array on the heap, or one already released. -/
inductive Xstats (S : Type)
  | null
  | live (entries : List S)
  | freed

/-- `free(xstats)`; the pointer keeps its value. -/
def Xstats.free {S : Type} : Xstats S → Xstats S
  | .live _ => .freed
  | x => x

/-- A table of statistics with `cap` entries in the structure itself. -/
structure StatsInfo (S : Type) (cap : ℕ) where
  nstats : ℕ
  xstats : Xstats S
  stats : List S
  stats_length : stats.length = cap

namespace StatsInfo

variable {S : Type} {cap : ℕ}

/-- All bytes zero. -/
def init [Zero S] : StatsInfo S cap := ⟨0, .null, List.replicate cap 0, List.length_replicate⟩

/-- The array in use, `(x->xstats) ? x->xstats : x->stats`. A released one has no entries. -/
def items (x : StatsInfo S cap) : List S :=
  match x.xstats with
  | .null => x.stats
  | .live entries => entries
  | .freed => []

/-- Write entry `i` of the array in use. -/
def modifyItem (x : StatsInfo S cap) (i : ℕ) (f : S → S) : StatsInfo S cap :=
  match x.xstats with
  | .null => { x with
      stats := x.stats.modify i f
      stats_length := by rw [List.length_modify, x.stats_length] }
  | .live entries => { x with xstats := .live (entries.modify i f) }
  | .freed => x

/-- **The array-capacity invariant**: the array in use holds the announced entries. -/
def Fits (x : StatsInfo S cap) : Prop := x.nstats ≤ x.items.length

/-- The entries a loop from zero to `nstats` reads, all of them when the table fits. -/
def entries (x : StatsInfo S cap) : List S := x.items.take x.nstats

theorem Fits.length_entries {x : StatsInfo S cap} (h : x.Fits) : x.entries.length = x.nstats := by
  rw [entries, List.length_take]
  exact min_eq_left h

theorem modifyItem_id (x : StatsInfo S cap) (i : ℕ) {f : S → S} (hf : ∀ a, f a = a) :
    x.modifyItem i f = x := by
  have hid : f = id := funext hf
  obtain ⟨n, xs, st, hst⟩ := x
  subst hid
  cases xs <;> simp [modifyItem, List.modify_id]

end StatsInfo

abbrev BlockInfo := StatsInfo BlockStats blockStatsNum
abbrev IfaceInfo := StatsInfo IfaceStats ifaceStatsNum

/-- The vcpu table also records how many vcpus are in use; `nstats` is the maximum. -/
structure VCpuInfo extends StatsInfo VCpuStats vcpuStatsNum where
  current : ℕ

@[ext] structure PCpuInfo where
  time : UInt64 := 0
  user : UInt64 := 0
  system : UInt64 := 0
  deriving DecidableEq

@[ext] structure BalloonInfo where
  current : UInt64 := 0
  maximum : UInt64 := 0
  deriving DecidableEq

structure VmInfo where
  uuid : Bytes
  pcpu : PCpuInfo
  balloon : BalloonInfo
  vcpu : VCpuInfo
  block : BlockInfo
  iface : IfaceInfo

/-- `vminfo_init`: all bytes zero. -/
def vminfoInit : VmInfo :=
  ⟨[], {}, {}, ⟨StatsInfo.init, 0⟩, StatsInfo.init, StatsInfo.init⟩

/-- Every table fits its array. -/
structure VmInfo.Fits (vm : VmInfo) : Prop where
  vcpu : vm.vcpu.Fits
  block : vm.block.Fits
  iface : vm.iface.Fits

end Vmon
