import Vmon.RingBuffer
import Vmon.VmInfo

/-!
# Usage events of a virtual machine

`vminfoSendEvents` writes an event for each block device over the usage threshold.
The threshold is computed in `int` and compared as `unsigned long long`, and the
loop tests the same device at each turn, the first of the array.

## Main definitions

* `vmCheckTriggeredUsageThreshold`, `vminfoSendEvents` — the functions of the source.
* `vmCheckTriggeredUsageThreshold_exact_iff` — for which sizes the test is the intended one.
* `vminfoEvents_eq_iff` — for which tables the events are those of the devices over it.
-/

namespace Vmon

structure VmChecks where
  diskUsagePerc : ℤ
  deriving DecidableEq

def megab : ℤ := 1024 * 1024
def chunk : ℤ := 1024 * 2

def vmSendEventBlock (type : Bytes) (stats : BlockStats) : Bytes :=
  lit "\x7b\"event\": \"" ++ type ++ lit "\", \"class\": \"block\", \"device\": \"" ++ stats.label ++
  lit "\", \"allocation\": " ++ decimal stats.allocation.toNat ++
  lit ", \"capacity\": " ++ decimal stats.capacity.toNat ++
  lit ", \"physical\": " ++ decimal stats.physical.toNat ++ lit "\x7d"

/-- Each product is an `int`, and so is the quotient that becomes unsigned. -/
def diskUsageThreshold (diskUsagePerc : ℤ) : UInt64 :=
  UInt64.ofInt ((toInt32 (toInt32 (diskUsagePerc * chunk) * megab)).tdiv 100)

def vmCheckTriggeredUsageThreshold (stats : BlockStats) (diskUsagePerc : ℤ) : Bool :=
  stats.physical - stats.allocation < diskUsageThreshold diskUsagePerc

/-- The pointer `stats` stays at the first entry. -/
def vminfoSendEvents (vm : VmInfo) (checks : VmChecks) : Bytes :=
  let stats := vm.block.items.headD 0
  (List.range vm.block.nstats).flatMap fun _ =>
    if vmCheckTriggeredUsageThreshold stats checks.diskUsagePerc then
      vmSendEventBlock (lit "usage-threshold") stats
    else []

/-- The first device decides for all: as many times its event as there are devices, or
nothing. -/
theorem vminfoSendEvents_eq (vm : VmInfo) (checks : VmChecks) :
    vminfoSendEvents vm checks =
      if vmCheckTriggeredUsageThreshold (vm.block.items.headD 0) checks.diskUsagePerc then
        (List.replicate vm.block.nstats
          (vmSendEventBlock (lit "usage-threshold") (vm.block.items.headD 0))).flatten
      else [] := by
  rw [vminfoSendEvents, List.flatMap_def, List.map_const', List.length_range]
  split
  · rfl
  · simp

/-! ## The threshold -/

/-- The intended test, for the percentages that the command line admits: what is left is
less than the share of the chunk. Without a monitor (zero) nothing triggers. -/
def ThresholdExact (stats : BlockStats) (diskUsagePerc : ℤ) : Prop :=
  (1 ≤ diskUsagePerc → (vmCheckTriggeredUsageThreshold stats diskUsagePerc = true ↔
    (stats.physical.toNat : ℤ) - stats.allocation.toNat < diskUsagePerc * 2048 * 2 ^ 20 / 100)) ∧
  (diskUsagePerc = 0 → stats.allocation ≤ stats.physical →
    vmCheckTriggeredUsageThreshold stats diskUsagePerc = false)

/-- What the test does not get wrong. An even percentage never triggers; an odd one does
except where the space left, as an unsigned number, is among the last `21474836`. -/
def ThresholdKept (stats : BlockStats) (diskUsagePerc : ℤ) : Prop :=
  let left : ℤ := stats.physical.toNat - stats.allocation.toNat
  let wanted := diskUsagePerc * 2048 * 2 ^ 20 / 100
  diskUsagePerc = 0 ∨ (diskUsagePerc % 2 = 0 ∧ wanted ≤ left) ∨
    (diskUsagePerc % 2 = 1 ∧
      (left < -21474836 ∨ (0 ≤ left ∧ left < wanted) ∨ 2 ^ 64 - 21474836 ≤ left))

/-- The product is a multiple of `2 ^ 31`: only the parity of the percentage is left. -/
theorem diskUsageThreshold_eq {p : ℤ} (h0 : 0 ≤ p) (h99 : p ≤ 99) :
    (diskUsageThreshold p).toNat = if p % 2 = 0 then 0 else 2 ^ 64 - 21474836 := by
  have hchunk : toInt32 (p * chunk) = p * 2048 := by
    have hvalue : chunk = 2048 := rfl
    rw [hvalue, toInt32, Int.bmod_def]
    omega
  have hmegab : toInt32 (p * 2048 * megab) = if p % 2 = 0 then 0 else -2 ^ 31 := by
    have hvalue : megab = 1048576 := rfl
    rw [hvalue, toInt32, Int.bmod_def]
    split <;> omega
  rw [diskUsageThreshold, hchunk, hmegab]
  split <;> rfl

/-- The comparison, with the subtraction that wraps written out. -/
theorem vmCheckTriggeredUsageThreshold_iff (stats : BlockStats) (p : ℤ) :
    vmCheckTriggeredUsageThreshold stats p = true ↔
      (2 ^ 64 - stats.allocation.toNat + stats.physical.toNat) % 2 ^ 64 <
        (diskUsageThreshold p).toNat := by
  rw [vmCheckTriggeredUsageThreshold, decide_eq_true_iff, UInt64.lt_iff_toNat_lt,
    UInt64.toNat_sub]

/-- **The threshold is exact where the wrapping does no harm**, and nowhere else. -/
theorem vmCheckTriggeredUsageThreshold_exact_iff (stats : BlockStats) (diskUsagePerc : ℤ)
    (h0 : 0 ≤ diskUsagePerc) (h99 : diskUsagePerc ≤ 99) :
    ThresholdExact stats diskUsagePerc ↔ ThresholdKept stats diskUsagePerc := by
  have hallocation := stats.allocation.toNat_lt
  have hphysical := stats.physical.toNat_lt
  have htriggered := vmCheckTriggeredUsageThreshold_iff stats diskUsagePerc
  rw [diskUsageThreshold_eq h0 h99] at htriggered
  simp only [ThresholdExact, ThresholdKept, ← Bool.not_eq_true, UInt64.le_iff_toNat_le]
  by_cases heven : diskUsagePerc % 2 = 0
  · rw [if_pos heven] at htriggered
    rw [htriggered]
    omega
  · rw [if_neg heven] at htriggered
    rw [htriggered]
    omega

/-- An odd percentage of a half-full chunk is kept. -/
theorem vmCheckTriggeredUsageThreshold_exact_half :
    ThresholdExact { allocation := 1000, physical := 2000 } 51 ↔
      ThresholdKept { allocation := 1000, physical := 2000 } 51 :=
  vmCheckTriggeredUsageThreshold_exact_iff _ 51 (by decide) (by decide)

/-- A full device and half of the chunk: the product is a multiple of `2 ^ 32`. -/
theorem vmCheckTriggeredUsageThreshold_fails :
    ¬∀ (stats : BlockStats) (diskUsagePerc : ℤ), 0 ≤ diskUsagePerc → diskUsagePerc ≤ 99 →
      ThresholdExact stats diskUsagePerc := by
  intro hall
  have hexact := (hall { allocation := 2000, physical := 2000 } 50 (by decide) (by decide)).1
  exact absurd ((hexact (by decide)).mpr (by decide)) (by decide)

/-! ## The devices that trigger an event -/

/-- The texts of the `fprintf` calls, one for each event. -/
def vminfoEvents (vm : VmInfo) (checks : VmChecks) : List Bytes :=
  let stats := vm.block.items.headD 0
  (List.range vm.block.nstats).flatMap fun _ =>
    if vmCheckTriggeredUsageThreshold stats checks.diskUsagePerc then
      [vmSendEventBlock (lit "usage-threshold") stats]
    else []

theorem vminfoSendEvents_eq_flatten (vm : VmInfo) (checks : VmChecks) :
    vminfoSendEvents vm checks = (vminfoEvents vm checks).flatten := by
  rw [vminfoSendEvents, vminfoEvents, List.flatMap_def, List.flatMap_def, List.map_const',
    List.map_const']
  split
  · simp
  · simp

/-- One event for each device over the threshold, in the order of the table. -/
def usageEvents (vm : VmInfo) (checks : VmChecks) : List Bytes :=
  (vm.block.entries.filter
    fun stats => vmCheckTriggeredUsageThreshold stats checks.diskUsagePerc).map
      (vmSendEventBlock (lit "usage-threshold"))

/-- What an event says of its device. -/
def BlockStats.reported (stats : BlockStats) : Bytes × UInt64 × UInt64 × UInt64 :=
  (stats.label, stats.allocation, stats.capacity, stats.physical)

/-- No device is over the threshold, or all are and they look the same. -/
def DevicesAlike (vm : VmInfo) (checks : VmChecks) : Prop :=
  (∀ stats ∈ vm.block.entries,
    vmCheckTriggeredUsageThreshold stats checks.diskUsagePerc = false) ∨
  ∃ reported, ∀ stats ∈ vm.block.entries,
    vmCheckTriggeredUsageThreshold stats checks.diskUsagePerc = true ∧ stats.reported = reported

/-- An event tells what it reports. -/
theorem vmSendEventBlock_inj {type : Bytes} {stats stats' : BlockStats} :
    vmSendEventBlock type stats = vmSendEventBlock type stats' ↔ stats.reported = stats'.reported := by
  constructor
  · intro h
    have hallocation : lit "\", \"allocation\": " = lit "\", \"allocation\":" ++ [0x20] := rfl
    have hcapacity : lit ", \"capacity\": " = lit ", \"capacity\":" ++ [0x20] := rfl
    have hphysical : lit ", \"physical\": " = lit ", \"physical\":" ++ [0x20] := rfl
    simp only [vmSendEventBlock, List.append_cancel_right_eq, hallocation, hcapacity, hphysical,
      ← List.append_assoc] at h
    -- from the end: each number is a run of digits after a space
    obtain ⟨h, hp⟩ := append_decimal_inj h
    rw [List.append_cancel_right_eq] at h
    obtain ⟨h, hc⟩ := append_decimal_inj h
    rw [List.append_cancel_right_eq] at h
    obtain ⟨h, ha⟩ := append_decimal_inj h
    simp only [List.append_assoc, List.append_cancel_left_eq, List.append_cancel_right_eq] at h
    rw [BlockStats.reported, BlockStats.reported, UInt64.toNat_inj.mp ha, UInt64.toNat_inj.mp hc,
      UInt64.toNat_inj.mp hp, h]
  · intro h
    simp only [BlockStats.reported, Prod.mk.injEq] at h
    obtain ⟨hlabel, hallocation, hcapacity, hphysical⟩ := h
    rw [vmSendEventBlock, vmSendEventBlock, hlabel, hallocation, hcapacity, hphysical]

/-- **The events are those of the devices over the threshold** exactly when the first
device speaks for all. -/
theorem vminfoEvents_eq_iff (vm : VmInfo) (checks : VmChecks) (hfits : vm.block.Fits) :
    vminfoEvents vm checks = usageEvents vm checks ↔ DevicesAlike vm checks := by
  rw [vminfoEvents, usageEvents, DevicesAlike, List.flatMap_def, List.map_const', List.length_range,
    ← hfits.length_entries]
  cases hentries : vm.block.entries with
  | nil => simp
  | cons first rest =>
    have hfirst : vm.block.items.headD 0 = first := by
      have hhead := congrArg List.head? hentries
      rw [StatsInfo.entries, List.head?_take] at hhead
      split at hhead
      · cases hhead
      · rw [List.headD_eq_head?_getD, hhead]
        rfl
    rw [hfirst, ← hentries]
    have hmem : first ∈ vm.block.entries := by simp [hentries]
    by_cases hover : vmCheckTriggeredUsageThreshold first checks.diskUsagePerc = true
    · rw [if_pos hover, List.flatten_replicate_singleton]
      constructor
      · intro h
        have hlength := congrArg List.length h
        rw [List.length_replicate, List.length_map] at hlength
        have hall := List.length_filter_eq_length_iff.mp hlength.symm
        rw [List.filter_eq_self.mpr hall, eq_comm, List.map_eq_replicate_iff] at h
        exact .inr ⟨first.reported, fun s hs => ⟨hall s hs, vmSendEventBlock_inj.mp (h s hs)⟩⟩
      · rintro (hnone | ⟨reported, hall⟩)
        · simp [hnone first hmem] at hover
        · rw [List.filter_eq_self.mpr fun s hs => (hall s hs).1, eq_comm, List.map_eq_replicate_iff]
          intro s hs
          rw [vmSendEventBlock_inj, (hall s hs).2, (hall first hmem).2]
    · rw [if_neg hover, List.flatten_replicate_nil, eq_comm, List.map_eq_nil_iff,
        List.filter_eq_nil_iff]
      constructor
      · intro h
        exact .inl fun s hs => by simpa using h s hs
      · rintro (hnone | ⟨reported, hall⟩) s hs
        · simp [hnone s hs]
        · exact absurd (hall first hmem).1 hover

/-- Two devices, the second one over the threshold. -/
def twoDevices : VmInfo :=
  { vminfoInit with
    block := ⟨2, .null, [{ physical := 0xFFFFFFFFFFFFFFFF }, { allocation := 50, physical := 100 }] ++
      List.replicate 6 0, rfl⟩ }

theorem twoDevices_fits : twoDevices.block.Fits := by
  change 2 ≤ 8
  omega

theorem vminfoEvents_eq_two_devices :
    vminfoEvents twoDevices ⟨1⟩ = usageEvents twoDevices ⟨1⟩ ↔ DevicesAlike twoDevices ⟨1⟩ :=
  vminfoEvents_eq_iff twoDevices ⟨1⟩ twoDevices_fits

/-- No event is written for the second device. -/
theorem vminfoEvents_eq_fails :
    ¬∀ (vm : VmInfo) (checks : VmChecks), vm.block.Fits →
      vminfoEvents vm checks = usageEvents vm checks := by
  intro hall
  have hevents := congrArg List.length (hall twoDevices ⟨1⟩ twoDevices_fits)
  exact absurd hevents (by decide)

end Vmon
