import Vmon.Lib.Braces
import Vmon.VmInfo.Events
import Vmon.VmInfo.Parse
import Vmon.VmInfo.Print

/-!
# Statistics and events as documents

As far as braces tell, the text of `vminfoPrintJson` is one document, and so is that of an
event, for all the commas that make the first no JSON. No name is ever stored
(`parseItems_eq`), so after a parse every entry of every table is zero, and only the uuid
has to be clean.

## Main definitions

* `StatsInfo.Zeroed`, `VmInfo.Zeroed` — tables without a stored entry.
-/

namespace Vmon

open Json

variable {δ : Type}

/-! ## Tables after a parse -/

/-- Every entry of the array in use is zero. -/
def StatsInfo.Zeroed {S : Type} {cap : ℕ} [Zero S] (x : StatsInfo S cap) : Prop :=
  ∀ stats ∈ x.items, stats = 0

namespace StatsInfo.Zeroed

variable {S : Type} {cap : ℕ} [Zero S] {x : StatsInfo S cap}

theorem of_fresh (hx : x.Fresh) : x.Zeroed := by
  intro stats hstats
  rw [StatsInfo.items, hx.xstats, hx.stats] at hstats
  exact List.eq_of_mem_replicate hstats

theorem allocXstats (hx : x.Fresh) (host : Host δ) (itemsize statsize : ℕ) :
    (x.allocXstats host itemsize statsize).2.Zeroed := by
  unfold StatsInfo.allocXstats
  split_ifs
  · intro stats hstats
    exact List.eq_of_mem_replicate hstats
  · exact of_fresh ⟨rfl, hx.stats⟩
  · exact of_fresh hx

theorem free (hx : x.Zeroed) : ({ x with xstats := x.xstats.free } : StatsInfo S cap).Zeroed := by
  cases hxs : x.xstats with
  | null => simpa [StatsInfo.Zeroed, StatsInfo.items, Xstats.free, hxs] using hx
  | _ => simp [StatsInfo.Zeroed, StatsInfo.items, Xstats.free]

theorem entries (hx : x.Zeroed) : ∀ stats ∈ x.entries, stats = 0 :=
  fun stats hstats => hx stats (List.mem_of_mem_take hstats)

theorem headD (hx : x.Zeroed) : x.items.headD 0 = 0 := by
  cases hitems : x.items with
  | nil => rfl
  | cons stats items => exact hx stats (by simp [hitems])

end StatsInfo.Zeroed

/-- No device has a name, and no counter of one is stored. -/
structure VmInfo.Zeroed (vm : VmInfo) : Prop where
  vcpu : vm.vcpu.Zeroed
  block : vm.block.Zeroed
  iface : vm.iface.Zeroed

theorem setupCleanup_zeroed {vm : VmInfo} (h : vm.Zeroed) : (setupCleanup vm).Zeroed :=
  ⟨h.vcpu.free, h.block.free, h.iface⟩

theorem vminfoSetup_zeroed (host : Host δ) (record : StatsRecord δ) :
    (vminfoSetup host vminfoInit record).2.Zeroed := by
  have hfresh := foldl_setupItem_fresh record.params vminfoInit_fresh
  generalize hvm : record.params.foldl setupItem vminfoInit = vm at hfresh
  have hv := StatsInfo.Zeroed.allocXstats hfresh.vcpu host vcpuInfoSize vcpuStatsSize
  have hb := StatsInfo.Zeroed.allocXstats hfresh.block host blockStatsSize blockStatsSize
  have hi := StatsInfo.Zeroed.allocXstats hfresh.iface host ifaceStatsSize ifaceStatsSize
  simp only [vminfoSetup, hvm]
  split
  · exact setupCleanup_zeroed ⟨hv, .of_fresh hfresh.block, .of_fresh hfresh.iface⟩
  · split
    · exact setupCleanup_zeroed ⟨hv, hb, .of_fresh hfresh.iface⟩
    · split
      · exact setupCleanup_zeroed ⟨hv, hb, hi⟩
      · exact ⟨hv, hb, hi⟩

theorem vminfoSetup_uuid (host : Host δ) (vm : VmInfo) (record : StatsRecord δ) :
    (vminfoSetup host vm record).2.uuid = vm.uuid := by
  have hloop : ∀ items (vm : VmInfo), (List.foldl setupItem vm items).uuid = vm.uuid := by
    intro items
    induction items with
    | nil => exact fun vm => rfl
    | cons item items ih =>
      intro vm
      rw [List.foldl_cons, ih]
      unfold setupItem
      dsimp only
      split_ifs <;> rfl
  unfold vminfoSetup
  dsimp only
  split_ifs <;> exact hloop record.params vm

/-- **After a parse**, successful or not, the tables hold nothing but zeros, and the uuid is
the one the domain has, or none. -/
theorem vminfoParse_zeroed (host : Host δ) (record : StatsRecord δ) :
    (vminfoParse host vminfoInit record).2.Zeroed ∧
      ((vminfoParse host vminfoInit record).2.uuid = [] ∨
        host.uuidString record.dom = some (vminfoParse host vminfoInit record).2.uuid) := by
  have hzeroed := vminfoSetup_zeroed host record
  have huuid := vminfoSetup_uuid host vminfoInit record
  simp only [vminfoParse]
  split
  · exact ⟨hzeroed, .inl huuid⟩
  · cases hdom : host.uuidString record.dom with
    | none => exact ⟨hzeroed, .inl huuid⟩
    | some uuid =>
      simp only [parseItems_eq]
      exact ⟨⟨hzeroed.vcpu, hzeroed.block, hzeroed.iface⟩, .inr trivial⟩

/-! ## The texts -/

theorem Clean.of_plain {w : Bytes} (hw : ∀ b ∈ w, isPlain b = true) : Clean w := by
  intro b hb
  have hplain := hw b hb
  simp only [isPlain, Bool.and_eq_true, decide_eq_true_eq] at hplain
  exact ⟨hplain.1.2, hplain.2, hplain.1.1.1⟩

/-- A key, and a name between the quotes of one. -/
theorem scans_key {k : Bytes} (hk : Clean k) :
    Scans false 0 (lit " \"" ++ k ++ lit "\": ") false 0 :=
  .around (j := 0) (by decide) hk (by decide)

theorem scans_counters {xs : List (String × UInt64)} (hplain : PlainKeys xs) :
    Scans false 0 (counters xs) false 0 := by
  induction xs with
  | nil => exact .nil
  | cons x xs ih =>
    obtain ⟨hx, hxs⟩ := List.forall_mem_cons.mp hplain
    have hone := (scans_key (.of_plain hx)).append (.digits x.2.toNat)
    have hcomma : Scans false 0 (lit ",") false 0 := .of_track (by decide)
    cases xs with
    | nil => exact hone
    | cons y xs => exact (hone.append hcomma).append (ih hxs)

/-- An object of counters, in braces. -/
theorem scans_object {pre post : Bytes} {xs : List (String × UInt64)}
    (hpre : Scans false 0 pre false 1) (hplain : PlainKeys xs)
    (hpost : Scans false 1 post false 0) : Scans false 0 (pre ++ counters xs ++ post) false 0 :=
  (hpre.append ((scans_counters hplain).deeper 1)).append hpost

theorem scans_pcpu (pcpu : PCpuInfo) : Scans false 0 (pcpuPrintJson pcpu) false 0 :=
  scans_object (.of_track (by decide)) (plainKeys_pcpu pcpu) (.of_track (by decide))

theorem scans_balloon (balloon : BalloonInfo) : Scans false 0 (balloonPrintJson balloon) false 0 :=
  scans_object (.of_track (by decide)) (plainKeys_balloon balloon)
    (.of_track (by decide))

theorem scans_separator (i nstats : ℕ) : Scans false 0 (separator i nstats) false 0 := by
  unfold separator
  split
  · exact .nil
  · exact .of_track (by decide)

/-- The part of an entry before its counters. -/
theorem scans_name {name : Bytes} (hname : Clean name) :
    Scans false 0 (lit " \"" ++ name ++ lit "\": \x7b") false 1 :=
  .around (j := 0) (by decide) hname (by decide)

theorem scans_vcpuEntry (nstats i : ℕ) (stats : VCpuStats) :
    Scans false 0 (vcpuEntryJson nstats i stats) false 0 := by
  unfold vcpuEntryJson
  split
  · exact .nil
  · have hopen : Scans false 0 (lit " \"") true 0 := .of_track (by decide)
    have hstate : Scans true 0 (lit "\": \x7b \"state\": ") false 1 :=
      .of_track (by decide)
    have hcomma : Scans false 1 (lit ",") false 1 := .of_track (by decide)
    have htime : Scans false 1 (counters [("time", stats.time)]) false 1 :=
      (scans_counters (plainKeys_of_map ["time"] rfl (by decide))).deeper 1
    have hclose : Scans false 1 (lit ", \x7d") false 0 := .of_track (by decide)
    exact ((((((hopen.append (.digits i)).append hstate).append (.digitsInt _)).append
      hcomma).append htime).append hclose).append (scans_separator i nstats)

theorem scans_blockEntry {nstats i : ℕ} {stats : BlockStats} (hlabel : Clean stats.label) :
    Scans false 0 (blockEntryJson nstats i stats) false 0 :=
  (scans_object (scans_name hlabel) (plainKeys_block stats)
    (.of_track (by decide))).append
    (scans_separator i nstats)

theorem scans_ifaceEntry {nstats i : ℕ} {stats : IfaceStats} (hlabel : Clean stats.label) :
    Scans false 0 (ifaceEntryJson nstats i stats) false 0 :=
  (scans_object (scans_name hlabel) (plainKeys_iface stats)
    (.of_track (by decide))).append
    (scans_separator i nstats)

/-- A table, between the braces of its member. -/
theorem scans_table {S : Type} {cap : ℕ} {x : StatsInfo S cap} {entry : ℕ → S → Bytes}
    {pre post : Bytes} (hpre : Scans false 0 pre false 1)
    (hentry : ∀ stats ∈ x.entries, ∀ i, Scans false 0 (entry i stats) false 0)
    (hpost : Scans false 1 post false 0) :
    Scans false 0 (pre ++ x.printEntries entry ++ post) false 0 := by
  have hentries : Scans false 0 (x.printEntries entry) false 0 :=
    .flatMap fun p hp => hentry p.1 (List.fst_mem_of_mem_zipIdx hp) p.2
  exact (hpre.append (hentries.deeper 1)).append hpost

/-- Clean names: those of every device that is printed. -/
structure VmInfo.CleanNames (vm : VmInfo) : Prop where
  uuid : Clean vm.uuid
  block : ∀ stats ∈ vm.block.entries, Clean stats.label
  iface : ∀ stats ∈ vm.iface.entries, Clean stats.label

theorem VmInfo.Zeroed.cleanNames {vm : VmInfo} (h : vm.Zeroed) (huuid : Clean vm.uuid) :
    vm.CleanNames := by
  refine ⟨huuid, ?_, ?_⟩
  · intro stats hstats
    rw [h.block.entries stats hstats]
    decide
  · intro stats hstats
    rw [h.iface.entries stats hstats]
    decide

/-- **The statistics are one object**, as far as braces tell. -/
theorem scans_vminfo {vm : VmInfo} (h : vm.CleanNames) :
    Scans false 0 (vminfoPrintJson vm) false 0 := by
  have huuid : Scans false 0 (lit "\x7b \"vm-id\": \"" ++ vm.uuid ++ lit "\",") false 1 :=
    .around (j := 1) (by decide) h.uuid (by decide)
  have hcomma : Scans false 1 (lit ", ") false 1 := .of_track (by decide)
  have hclose : Scans false 1 (lit " \x7d") false 0 := .of_track (by decide)
  have hvcpu : Scans false 0 (vcpuPrintJson vm.vcpu) false 0 :=
    scans_table (.of_track (by decide)) (fun stats _ i => scans_vcpuEntry _ i stats) hclose
  have hblock : Scans false 0 (blockPrintJson vm.block) false 0 :=
    scans_table (.of_track (by decide))
      (fun stats hstats i => scans_blockEntry (h.block stats hstats)) hclose
  have hiface : Scans false 0 (ifacePrintJson vm.iface) false 0 :=
    scans_table (.of_track (by decide))
      (fun stats hstats i => scans_ifaceEntry (h.iface stats hstats)) hclose
  have hpcpu := (huuid.append ((scans_pcpu vm.pcpu).deeper 1)).append hcomma
  have hballoon := (hpcpu.append ((scans_balloon vm.balloon).deeper 1)).append hcomma
  have htables := (((hballoon.append (hvcpu.deeper 1)).append hcomma).append
    (hblock.deeper 1)).append hcomma
  exact (htables.append (hiface.deeper 1)).append hclose

/-- An event, between its braces. -/
def eventBody (type : Bytes) (stats : BlockStats) : Bytes :=
  lit "\"event\": \"" ++ type ++ lit "\", \"class\": \"block\", \"device\": \"" ++ stats.label ++
  lit "\", \"allocation\": " ++ decimal stats.allocation.toNat ++
  lit ", \"capacity\": " ++ decimal stats.capacity.toNat ++
  lit ", \"physical\": " ++ decimal stats.physical.toNat

theorem vmSendEventBlock_eq (type : Bytes) (stats : BlockStats) :
    vmSendEventBlock type stats = 0x7B :: eventBody type stats ++ [0x7D] := by
  have hopen : lit "\x7b\"event\": \"" = 0x7B :: lit "\"event\": \"" := rfl
  have hclose : lit "\x7d" = [0x7D] := rfl
  simp only [vmSendEventBlock, eventBody, hopen, hclose, List.cons_append]

theorem scans_event {type : Bytes} {stats : BlockStats} (htype : Clean type)
    (hlabel : Clean stats.label) : Scans false 0 (eventBody type stats) false 0 := by
  have hopen : Scans false 0 (lit "\"event\": \"") true 0 := .of_track (by decide)
  have hclass : Scans true 0 (lit "\", \"class\": \"block\", \"device\": \"") true 0 :=
    .of_track (by decide)
  have hallocation : Scans true 0 (lit "\", \"allocation\": ") false 0 :=
    .of_track (by decide)
  have hcapacity : Scans false 0 (lit ", \"capacity\": ") false 0 := .of_track (by decide)
  have hphysical : Scans false 0 (lit ", \"physical\": ") false 0 := .of_track (by decide)
  have hdevice := ((hopen.append (.body htype)).append hclass).append (.body hlabel)
  exact (((((hdevice.append hallocation).append (.digits _)).append hcapacity).append
    (.digits _)).append hphysical).append (.digits _)

/-- An event of a device with a clean name. -/
def eventDocument (stats : BlockStats) (hlabel : Clean stats.label) : Document :=
  .ofBody (eventBody (lit "usage-threshold") stats) (scans_event (by decide) hlabel)

/-- **The events of a machine**: one document for each device, none with a newline. -/
theorem vminfoSendEvents_written (vm : VmInfo) (checks : VmChecks)
    (hlabel : Clean (vm.block.items.headD 0).label) :
    vminfoSendEvents vm checks =
      if vmCheckTriggeredUsageThreshold (vm.block.items.headD 0) checks.diskUsagePerc then
        written (List.replicate vm.block.nstats (eventDocument _ hlabel, false))
      else [] := by
  rw [vminfoSendEvents_eq]
  split
  · rw [written, List.flatMap_def, List.map_replicate, vmSendEventBlock_eq]
    simp [eventDocument, Document.ofBody]
  · rfl

end Vmon
