import Vmon.VmInfo.Documents
import Vmon.VmInfo.Readback
import Vmon.VmInfo.Tags

/-!
# What of a record is shown

From the record that libvirt returns to the text that is written, `vminfo_parse` and
`vminfo_print_json` together. What gets through is the uuid of the domain and seven numbers,
each under the last parameter of its name: the cpu and balloon counters, and how many block
devices and interfaces there are. Nothing else does, whatever the record says of its vcpus and
devices, and none of that is lost (`vminfo_shown_iff`).

## Main definitions

* `shownNumbers` — the seven numbers.
* `Shows` — what a parse keeps of a record.
-/

namespace Vmon

variable {δ δ' : Type} {host : Host δ} {record : StatsRecord δ} {vm : VmInfo}

/-- The number under the name, zero where the record has none. -/
def shownUl (params : List TypedParameter) (name : String) : UInt64 := (lastUl params (lit name)).getD 0

def shownNumbers (params : List TypedParameter) : List UInt64 :=
  ["cpu.time", "cpu.user", "cpu.system", "balloon.current", "balloon.maximum", "block.count",
    "net.count"].map (shownUl params)

/-! ### After a parse -/

/-- What a record that was parsed leaves of itself. -/
structure Shows (uuid : Bytes) (params : List TypedParameter) (vm : VmInfo) : Prop where
  fits : vm.Fits
  zeroed : vm.Zeroed
  uuid : vm.uuid = uuid
  pcpu : vm.pcpu =
    ⟨shownUl params "cpu.time", shownUl params "cpu.user", shownUl params "cpu.system"⟩
  balloon : vm.balloon = ⟨shownUl params "balloon.current", shownUl params "balloon.maximum"⟩
  block : vm.block.nstats = (shownUl params "block.count").toNat
  iface : vm.iface.nstats = (shownUl params "net.count").toNat

theorem vminfoParse_shows {uuid : Bytes} (hc : host.Completes vminfoInit record)
    (huuid : host.uuidString record.dom = some uuid) :
    Shows uuid record.params (vminfoParse host vminfoInit record).2 := by
  obtain ⟨hsetup, -⟩ := completes_iff.mp hc
  have hparse : (vminfoParse host vminfoInit record).1 = 0 ∧
      (vminfoParse host vminfoInit record).2.uuid = uuid := by
    simp only [vminfoParse, hsetup, huuid, parseItems_eq, ne_eq, not_true_eq_false, if_false,
      and_self]
  have hstat := fun place (hp : place ∈ statPlaces) => vminfoParse_stat hc hp
  have hcount := fun place (hp : place ∈ countPlaces) =>
    vminfoParse_count host vminfoInit record hp
  simp only [statPlaces, countPlaces, List.forall_mem_cons, List.not_mem_nil, false_implies,
    implies_true, and_true] at hstat hcount
  obtain ⟨htime, huser, hsystem, hcurrent, hmaximum⟩ := hstat
  have hnumber : ∀ name : Bytes, lastCount record.params name 0 =
      ((lastUl record.params name).getD 0).toNat := by
    intro name
    unfold lastCount
    cases lastUl record.params name <;> rfl
  exact ⟨vminfoParse_fits host record hparse.1, (vminfoParse_zeroed host record).1, hparse.2,
    PCpuInfo.ext htime huser hsystem, BalloonInfo.ext hcurrent hmaximum,
    hcount.1.trans (hnumber _), hcount.2.1.trans (hnumber _)⟩

/-! ### In print -/

/-- Entries of zeros are told apart by their number only. -/
theorem StatsInfo.Zeroed.map_entries {S β : Type} {cap : ℕ} [Zero S] {x : StatsInfo S cap}
    (h : x.Zeroed) (hfits : x.Fits) (view : S → β) :
    x.entries.map view = List.replicate x.nstats (view 0) := by
  have hentries : x.entries = List.replicate x.nstats 0 :=
    List.eq_replicate_iff.mpr ⟨hfits.length_entries, h.entries⟩
  rw [hentries, List.map_replicate]

/-- No vcpu is present. -/
theorem VCpuInfo.printed_of_zeroed {vcpu : VCpuInfo} (h : vcpu.Zeroed) : vcpu.printed = [] := by
  rw [VCpuInfo.printed, List.filterMap_eq_nil_iff]
  intro p hp
  have hzero := h.entries p.1 (List.fst_mem_of_mem_zipIdx hp)
  rw [hzero, if_neg (by decide)]

theorem VmInfo.Zeroed.quoteless (h : vm.Zeroed) (huuid : 0x22 ∉ vm.uuid) : vm.QuotelessNames := by
  refine ⟨⟨huuid, ?_⟩, ?_⟩
  · intro stats hstats
    rw [h.block.entries stats hstats]
    decide
  · intro stats hstats
    rw [h.iface.entries stats hstats]
    decide

theorem Shows.print_eq_iff {uuid uuid' : Bytes} {params params' : List TypedParameter}
    {vm vm' : VmInfo} (h : Shows uuid params vm) (h' : Shows uuid' params' vm')
    (hquote : 0x22 ∉ uuid) (hquote' : 0x22 ∉ uuid') :
    vminfoPrintJson vm = vminfoPrintJson vm' ↔
      uuid = uuid' ∧ shownNumbers params = shownNumbers params' := by
  have hblock : vm.block.printed = vm'.block.printed ↔
      shownUl params "block.count" = shownUl params' "block.count" := by
    rw [BlockInfo.printed, BlockInfo.printed, h.zeroed.block.map_entries h.fits.block,
      h'.zeroed.block.map_entries h'.fits.block, List.replicate_left_inj, h.block, h'.block,
      UInt64.toNat_inj]
  have hiface : vm.iface.printed = vm'.iface.printed ↔
      shownUl params "net.count" = shownUl params' "net.count" := by
    rw [IfaceInfo.printed, IfaceInfo.printed, h.zeroed.iface.map_entries h.fits.iface,
      h'.zeroed.iface.map_entries h'.fits.iface, List.replicate_left_inj, h.iface, h'.iface,
      UInt64.toNat_inj]
  rw [vminfoPrintJson_eq_iff h.fits h'.fits (h.zeroed.quoteless (by rwa [h.uuid]))
    (h'.zeroed.quoteless (by rwa [h'.uuid])), hblock, hiface, h.uuid, h'.uuid, h.pcpu, h'.pcpu,
    h.balloon, h'.balloon, VCpuInfo.printed_of_zeroed h.zeroed.vcpu,
    VCpuInfo.printed_of_zeroed h'.zeroed.vcpu]
  simp only [PCpuInfo.mk.injEq, BalloonInfo.mk.injEq, shownNumbers, List.map_cons,
    List.map_nil, List.cons.injEq, and_true, true_and, and_assoc]

/-- **What is shown of a record.** Two records that are parsed to the end are printed as the same text
exactly when their domains have the same uuid and they give the same seven numbers. -/
theorem vminfo_shown_iff {host' : Host δ'} {record' : StatsRecord δ'}
    (hc : host.Completes vminfoInit record) (hc' : host'.Completes vminfoInit record')
    (hquote : ∀ uuid ∈ host.uuidString record.dom, 0x22 ∉ uuid)
    (hquote' : ∀ uuid ∈ host'.uuidString record'.dom, 0x22 ∉ uuid) :
    vminfoPrintJson (vminfoParse host vminfoInit record).2 =
        vminfoPrintJson (vminfoParse host' vminfoInit record').2 ↔
      host.uuidString record.dom = host'.uuidString record'.dom ∧
        shownNumbers record.params = shownNumbers record'.params := by
  obtain ⟨uuid, hdom⟩ := Option.isSome_iff_exists.mp (completes_iff.mp hc).2
  obtain ⟨uuid', hdom'⟩ := Option.isSome_iff_exists.mp (completes_iff.mp hc').2
  rw [hdom, hdom', Option.some.injEq]
  exact (vminfoParse_shows hc hdom).print_eq_iff (vminfoParse_shows hc' hdom') (hquote uuid hdom)
    (hquote' uuid' hdom')

/-- A machine whose vcpu has run for so long. -/
private def vcpuRecord (time : UInt64) : StatsRecord Unit :=
  ⟨(), [⟨lit "vcpu.current", ⟨1⟩⟩, ⟨lit "vcpu.maximum", ⟨1⟩⟩, ⟨lit "vcpu.0.time", ⟨time⟩⟩]⟩

/-- The time of a vcpu is not shown. -/
theorem vminfo_shown_iff_vcpu :
    let host : Host Unit := ⟨fun _ _ => true, fun _ => true, fun _ => some (lit "vm"), false, fun _ => []⟩
    vcpuRecord 0 ≠ vcpuRecord 1 ∧ vminfoPrintJson (vminfoParse host vminfoInit (vcpuRecord 0)).2 =
      vminfoPrintJson (vminfoParse host vminfoInit (vcpuRecord 1)).2 := by
  intro host
  have hc : ∀ record : StatsRecord Unit, host.Completes vminfoInit record :=
    fun record => ⟨fun _ => rfl, fun _ => rfl, fun _ => rfl, rfl⟩
  have hquote : ∀ uuid ∈ host.uuidString (), 0x22 ∉ uuid := by decide
  refine ⟨by decide, (vminfo_shown_iff (hc _) (hc _) hquote hquote).mpr ⟨rfl, ?_⟩⟩
  decide

end Vmon
