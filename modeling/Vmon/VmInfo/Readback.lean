import Vmon.Lib.Legible
import Vmon.VmInfo.Print

/-!
# What the text of the statistics tells

The text need not be JSON, but it can be read: where no name has a quote in it, two machines
print the same text exactly when they agree on everything that is printed
(`vminfoPrintJson_eq_iff`). The text tells a vcpu that is not present from one that is, the index
of each, and how many devices there are; it does not tell the flush counters of a block device.

## Main definitions

* `VCpuInfo.printed`, `BlockInfo.printed`, `IfaceInfo.printed` — what is printed of a table.
* `VmInfo.QuotelessNames` — no name that is printed has a quote in it.
-/

namespace Vmon

/-! ### Numbers and names -/

/-- No digit follows. -/
def EndsNumber (r : Bytes) : Prop := ∀ b ∈ r.head?, ¬isDigit b = true

/-- A constant text that does not start with a digit ends a number. -/
theorem endsNumber_lit {text : String} (h : (lit text).head?.any (fun b => !isDigit b) = true)
    (r : Bytes) : EndsNumber (lit text ++ r) := by
  cases htext : lit text with
  | nil => simp [htext] at h
  | cons b bs =>
    intro b' hb'
    obtain rfl : b = b' := by simpa using hb'
    simpa [htext] using h

theorem legible_decimal : Legible (fun _ => True) EndsNumber decimal := by
  have hrun := (Legible.run fun b : UInt8 => isDigit b = true).comap decimal_injective
  exact hrun.mono (fun n _ b hb => isDigit_of_mem_decimal hb) fun r hr => hr

theorem legible_uint64 : Legible (fun _ => True) EndsNumber fun n : UInt64 => decimal n.toNat :=
  legible_decimal.comap fun _ _ h => UInt64.toNat_inj.mp h

theorem legible_decimalInt : Legible (fun _ => True) EndsNumber decimalInt := by
  have hsign : ∀ (m n : ℕ) (r r' : Bytes), 0x2D :: decimal m ++ r ≠ decimal n ++ r' := by
    intro m n r r' heq
    cases hn : decimal n with
    | nil => exact decimal_ne_nil n hn
    | cons b ds =>
      rw [hn, List.cons_append, List.cons_append, List.cons.injEq] at heq
      have hdigit := isDigit_of_mem_decimal (n := n) (by rw [hn]; exact List.mem_cons_self)
      rw [← heq.1] at hdigit
      cases hdigit
  intro z z' r r' _ _ hr hr' heq
  unfold decimalInt at heq
  split at heq <;> split at heq
  · rw [List.cons_append, List.cons_append, List.cons.injEq] at heq
    obtain ⟨habs, hrest⟩ := legible_decimal trivial trivial hr hr' heq.2
    exact ⟨by omega, hrest⟩
  · exact absurd heq (hsign _ _ _ _)
  · exact absurd heq.symm (hsign _ _ _ _)
  · obtain ⟨habs, hrest⟩ := legible_decimal trivial trivial hr hr' heq
    exact ⟨by omega, hrest⟩

/-- A name, up to the quote that ends it. -/
theorem legible_name :
    Legible (fun name : Bytes => 0x22 ∉ name) (fun r => r.head? = some 0x22) fun name => name := by
  refine (Legible.run fun b : UInt8 => b ≠ 0x22).mono ?_ ?_
  · intro name hname b hb heq
    exact hname (heq ▸ hb)
  · intro r hr b hb
    rw [hr, Option.mem_some_iff] at hb
    exact not_not.mpr hb.symm

/-- Counters with the keys of one format string. -/
theorem legible_counters (keys : List String) :
    Legible (fun xs : List (String × UInt64) => xs.map Prod.fst = keys) EndsNumber counters := by
  intro xs ys r r' hxs hys hr hr' heq
  subst hxs
  induction xs generalizing ys with
  | nil =>
    rw [List.map_nil, List.map_eq_nil_iff] at hys
    subst hys
    exact ⟨rfl, heq⟩
  | cons x xs ih =>
    obtain ⟨y, ys, rfl, hkey, hkeys⟩ := List.map_eq_cons_iff.mp hys
    obtain ⟨key, m⟩ := x
    obtain ⟨key', n⟩ := y
    obtain rfl : key' = key := hkey
    cases xs with
    | nil =>
      rw [List.map_nil, List.map_eq_nil_iff] at hkeys
      subst hkeys
      simp only [counters, List.append_assoc, List.append_cancel_left_eq] at heq
      obtain ⟨rfl, hrest⟩ := legible_uint64 trivial trivial hr hr' heq
      exact ⟨rfl, hrest⟩
    | cons x xs =>
      obtain ⟨y, ys, rfl, -⟩ := List.map_eq_cons_iff.mp hkeys
      simp only [counters, List.append_assoc, List.append_cancel_left_eq] at heq
      have hcomma : ∀ r, EndsNumber (lit "," ++ r) := endsNumber_lit (by decide)
      obtain ⟨rfl, hrest⟩ := legible_uint64 trivial trivial (hcomma _) (hcomma _) heq
      obtain ⟨hxs, hrest⟩ := ih (List.append_cancel_left hrest) hkeys
      exact ⟨by rw [hxs], hrest⟩

/-! ### What is printed -/

/-- Each entry, and whether it is the one after which no comma stands. -/
def flagged {α : Type} (xs : List α) : List (α × Bool) :=
  xs.zipIdx.map fun p => (p.1, decide (p.2 = xs.length - 1))

theorem flagged_injective {α : Type} : Function.Injective (flagged (α := α)) := by
  intro xs ys h
  have hfst := congrArg (List.map Prod.fst) h
  simpa [flagged, Function.comp_def] using hfst

/-- The vcpus that are present: index, state, time, and whether the index is the last. -/
def VCpuInfo.printed (vcpu : VCpuInfo) : List ((ℕ × Int32 × UInt64) × Bool) :=
  vcpu.entries.zipIdx.filterMap fun p =>
    if p.1.present then some ((p.2, p.1.state, p.1.time), decide (p.2 = vcpu.nstats - 1)) else none

/-- The name of each device, and its counters. -/
def BlockInfo.printed (block : BlockInfo) : List (Bytes × List (String × UInt64)) :=
  block.entries.map fun stats => (stats.label, blockCounters stats)

def IfaceInfo.printed (iface : IfaceInfo) : List (Bytes × List (String × UInt64)) :=
  iface.entries.map fun stats => (stats.label, ifaceCounters stats)

/-- No name has a quote in it. -/
structure VmInfo.QuotelessNames (vm : VmInfo) : Prop extends Quoteless vm where
  iface : ∀ stats ∈ vm.iface.entries, 0x22 ∉ stats.label

/-- A comma, unless the entry is the last. -/
def flagText (last : Bool) : Bytes := if last then [] else lit ","

/-- The text of a device: its name, its counters, and the end of its object. -/
def deviceText (close : String) (e : (Bytes × List (String × UInt64)) × Bool) : Bytes :=
  lit " \"" ++ (e.1.1 ++ (lit "\": \x7b" ++ counters e.1.2 ++ lit close)) ++ flagText e.2

def vcpuText (e : (ℕ × Int32 × UInt64) × Bool) : Bytes :=
  lit " \"" ++ (decimal e.1.1 ++ (lit "\": \x7b \"state\": " ++ (decimalInt e.1.2.1.toInt ++
    (lit ", \"time\": " ++ decimal e.1.2.2.toNat ++ lit ", \x7d")))) ++ flagText e.2

theorem separator_flag (i nstats : ℕ) : separator i nstats = flagText (decide (i = nstats - 1)) := by
  by_cases h : i = nstats - 1 <;> simp [separator, flagText, h]

theorem vcpuPrintJson_printed (vcpu : VCpuInfo) :
    vcpuPrintJson vcpu = lit "\"vcpu\": \x7b" ++ vcpu.printed.flatMap vcpuText ++ lit " \x7d" := by
  have hentry : ∀ p : VCpuStats × ℕ, vcpuEntryJson vcpu.nstats p.2 p.1 =
      ((if p.1.present then some ((p.2, p.1.state, p.1.time), decide (p.2 = vcpu.nstats - 1))
        else none).map vcpuText).getD [] := by
    intro p
    cases hp : p.1.present with
    | false => simp [vcpuEntryJson, hp]
    | true =>
      have htime : counters [("time", p.1.time)] = lit " \"time\": " ++ decimal p.1.time.toNat := rfl
      have hcomma : lit ", \"time\": " = lit "," ++ lit " \"time\": " := rfl
      simp [vcpuEntryJson, hp, vcpuText, htime, hcomma, separator_flag]
  rw [vcpuPrintJson, StatsInfo.printEntries, VCpuInfo.printed]
  congr 2
  induction vcpu.entries.zipIdx with
  | nil => rfl
  | cons p ps ih =>
    rw [List.flatMap_cons, ih, hentry p, List.filterMap_cons]
    cases p.1.present <;> simp

/-- A loop that prints the name and the counters of each device. -/
theorem printEntries_printed {S : Type} {cap : ℕ} {x : StatsInfo S cap} (hfits : x.Fits)
    {entry : ℕ → S → Bytes} {view : S → Bytes × List (String × UInt64)} {close : String}
    (hentry : ∀ i stats, entry i stats =
      deviceText close (view stats, decide (i = x.nstats - 1))) :
    x.printEntries entry = (flagged (x.entries.map view)).flatMap (deviceText close) := by
  rw [StatsInfo.printEntries, flagged, List.zipIdx_map, List.map_map, List.flatMap_map,
    List.length_map, hfits.length_entries]
  simp only [hentry]
  rfl

theorem blockPrintJson_printed {block : BlockInfo} (hfits : block.Fits) : blockPrintJson block =
    lit "\"block\": \x7b" ++ (flagged block.printed).flatMap (deviceText "  \x7d") ++ lit " \x7d" := by
  have hentries : block.printEntries (blockEntryJson block.nstats) =
      (flagged block.printed).flatMap (deviceText "  \x7d") := by
    refine printEntries_printed hfits fun i stats => ?_
    simp [blockEntryJson, deviceText, separator_flag]
  rw [blockPrintJson, hentries]

theorem ifacePrintJson_printed {iface : IfaceInfo} (hfits : iface.Fits) : ifacePrintJson iface =
    lit "\"iface\": \x7b" ++ (flagged iface.printed).flatMap (deviceText ", \x7d") ++ lit " \x7d" := by
  have hentries : iface.printEntries (ifaceEntryJson iface.nstats) =
      (flagged iface.printed).flatMap (deviceText ", \x7d") := by
    refine printEntries_printed hfits fun i stats => ?_
    simp [ifaceEntryJson, deviceText, separator_flag]
  rw [ifacePrintJson, hentries]

/-! ### Reading it back -/

/-- What follows an entry: another one, or the end of its table. -/
def AfterEntry (r : Bytes) : Prop := r.head? = some 0x20

/-- The end of a table. -/
def EndsTable (r : Bytes) : Prop := ∃ rest, r = lit " \x7d" ++ rest

theorem EndsTable.afterEntry {r : Bytes} (h : EndsTable r) : AfterEntry r := by
  obtain ⟨rest, rfl⟩ := h
  rfl

/-- No entry starts like the end of a table. -/
theorem EndsTable.ne_entry {r entry : Bytes} (h : EndsTable r) : lit " \"" ++ entry ≠ r := by
  obtain ⟨rest, rfl⟩ := h
  intro heq
  exact absurd (congrArg (fun r => r[1]?) heq) (by simp [lit])

theorem legible_flag : Legible (fun _ => True) AfterEntry flagText := by
  refine (Legible.mark (0x2C : UInt8)).mono (fun _ _ => trivial) ?_
  intro r hr
  rw [hr]
  decide

/-- A device, whose counters have the keys of their format string. -/
theorem legible_device (keys : List String) {close : String}
    (hclose : (lit close).head?.any (fun b => !isDigit b) = true) :
    Legible (fun e : (Bytes × List (String × UInt64)) × Bool =>
      (0x22 ∉ e.1.1 ∧ e.1.2.map Prod.fst = keys) ∧ True) AfterEntry (deviceText close) := by
  have hcounters := ((legible_counters keys).prefixed (lit "\": \x7b")).suffixed (lit close)
    fun r (_ : True) => endsNumber_lit hclose r
  have hnamed := legible_name.pair hcounters fun _ _ _ _ => rfl
  exact (hnamed.prefixed (lit " \"")).pair legible_flag fun _ _ _ _ => trivial

theorem legible_vcpu :
    Legible (fun _ : (ℕ × Int32 × UInt64) × Bool => (True ∧ True ∧ True) ∧ True) AfterEntry
      vcpuText := by
  have hcomma : ∀ r, EndsNumber (lit ", \x7d" ++ r) := endsNumber_lit (by decide)
  have htime := (legible_uint64.suffixed (lit ", \x7d") fun r (_ : True) => hcomma r).prefixed
    (lit ", \"time\": ")
  have hstate := (legible_decimalInt.comap (e := Int32.toInt) fun _ _ h => Int32.toInt_inj.mp h).pair htime
    fun _ _ _ _ => show EndsNumber (lit ", \"time\": " ++ _) from endsNumber_lit (by decide) _
  have hindex := legible_decimal.pair (hstate.prefixed (lit "\": \x7b \"state\": "))
    fun _ _ _ _ => show EndsNumber (lit "\": \x7b \"state\": " ++ _) from endsNumber_lit (by decide) _
  exact (hindex.prefixed (lit " \"")).pair legible_flag fun _ _ _ _ => trivial

/-- The entries of a table, each of which starts with a name. -/
theorem legible_entries {α : Type} {P : α → Prop} {write : α → Bytes} (h : Legible P AfterEntry write)
    (hwrite : ∀ a, ∃ text, write a = lit " \"" ++ text) :
    Legible (fun as : List α => ∀ a ∈ as, P a) EndsTable fun as => as.flatMap write := by
  refine h.list ?_ (fun r hr => hr.afterEntry) ?_
  · intro a r _
    obtain ⟨text, htext⟩ := hwrite a
    rw [htext]
    rfl
  · intro a r r' _ hr'
    obtain ⟨text, htext⟩ := hwrite a
    rw [htext, List.append_assoc]
    exact hr'.ne_entry

theorem device_start (close : String) (e : (Bytes × List (String × UInt64)) × Bool) :
    ∃ text, deviceText close e = lit " \"" ++ text := by
  rw [deviceText, List.append_assoc]
  exact ⟨_, rfl⟩

theorem vcpu_start (e : (ℕ × Int32 × UInt64) × Bool) : ∃ text, vcpuText e = lit " \"" ++ text := by
  rw [vcpuText, List.append_assoc]
  exact ⟨_, rfl⟩

/-- The devices of a table whose names are free of quotes. -/
theorem devices_legible {printed : List (Bytes × List (String × UInt64))} {keys : List String}
    (h : ∀ e ∈ printed, 0x22 ∉ e.1 ∧ e.2.map Prod.fst = keys) :
    ∀ e ∈ flagged printed, (0x22 ∉ e.1.1 ∧ e.1.2.map Prod.fst = keys) ∧ True := by
  intro e he
  obtain ⟨p, hp, rfl⟩ := List.mem_map.mp he
  exact ⟨h p.1 (List.fst_mem_of_mem_zipIdx hp), trivial⟩

theorem block_legible {vm : VmInfo} (h : vm.QuotelessNames) :
    ∀ e ∈ flagged vm.block.printed, (0x22 ∉ e.1.1 ∧ e.1.2.map Prod.fst =
      (blockCounters 0).map Prod.fst) ∧ True := by
  refine devices_legible fun e he => ?_
  obtain ⟨stats, hstats, rfl⟩ := List.mem_map.mp he
  exact ⟨h.block stats hstats, rfl⟩

theorem iface_legible {vm : VmInfo} (h : vm.QuotelessNames) :
    ∀ e ∈ flagged vm.iface.printed, (0x22 ∉ e.1.1 ∧ e.1.2.map Prod.fst =
      (ifaceCounters 0).map Prod.fst) ∧ True := by
  refine devices_legible fun e he => ?_
  obtain ⟨stats, hstats, rfl⟩ := List.mem_map.mp he
  exact ⟨h.iface stats hstats, rfl⟩

theorem pcpu_keys (pcpu : PCpuInfo) :
    (pcpuCounters pcpu).map Prod.fst = ["cpu.time", "cpu.user", "cpu.system"] := rfl

theorem balloon_keys (balloon : BalloonInfo) :
    (balloonCounters balloon).map Prod.fst = ["balloon.current", "balloon.maximum"] := rfl

theorem pcpuCounters_injective : Function.Injective pcpuCounters := by
  rintro ⟨t, u, s⟩ ⟨t', u', s'⟩ h
  simp_all [pcpuCounters]

theorem balloonCounters_injective : Function.Injective balloonCounters := by
  rintro ⟨c, m⟩ ⟨c', m'⟩ h
  simp_all [balloonCounters]

/-- **What the text tells.** Two machines without quotes in their names print the same text
exactly when they agree on what is printed of them: the uuid, the cpu and balloon counters, the
vcpus that are present, with their indices, and the name and the counters of each device. -/
theorem vminfoPrintJson_eq_iff {vm vm' : VmInfo} (hfits : vm.Fits) (hfits' : vm'.Fits)
    (hnames : vm.QuotelessNames) (hnames' : vm'.QuotelessNames) :
    vminfoPrintJson vm = vminfoPrintJson vm' ↔
      vm.uuid = vm'.uuid ∧ vm.pcpu = vm'.pcpu ∧ vm.balloon = vm'.balloon ∧
      vm.vcpu.printed = vm'.vcpu.printed ∧ vm.block.printed = vm'.block.printed ∧
      vm.iface.printed = vm'.iface.printed := by
  rw [vminfoPrintJson, vminfoPrintJson, vcpuPrintJson_printed, vcpuPrintJson_printed,
    blockPrintJson_printed hfits.block, blockPrintJson_printed hfits'.block,
    ifacePrintJson_printed hfits.iface, ifacePrintJson_printed hfits'.iface]
  constructor
  · intro heq
    simp only [List.append_assoc, List.append_cancel_left_eq, pcpuPrintJson, balloonPrintJson] at heq
    obtain ⟨huuid, heq⟩ := legible_name hnames.uuid hnames'.uuid rfl rfl heq
    simp only [List.append_cancel_left_eq] at heq
    have hends : ∀ r, EndsNumber (lit " \x7d" ++ r) := endsNumber_lit (by decide)
    obtain ⟨hpcpu, heq⟩ := legible_counters _ (pcpu_keys vm.pcpu) (pcpu_keys vm'.pcpu) (hends _)
      (hends _) heq
    simp only [List.append_cancel_left_eq] at heq
    obtain ⟨hballoon, heq⟩ := legible_counters _ (balloon_keys vm.balloon)
      (balloon_keys vm'.balloon) (hends _) (hends _) heq
    simp only [List.append_cancel_left_eq] at heq
    obtain ⟨hvcpu, heq⟩ := legible_entries legible_vcpu vcpu_start
      (fun _ _ => ⟨⟨trivial, trivial, trivial⟩, trivial⟩)
      (fun _ _ => ⟨⟨trivial, trivial, trivial⟩, trivial⟩) ⟨_, rfl⟩ ⟨_, rfl⟩ heq
    simp only [List.append_cancel_left_eq] at heq
    obtain ⟨hblock, heq⟩ := legible_entries (legible_device _ (by decide)) (device_start _)
      (block_legible hnames) (block_legible hnames') ⟨_, rfl⟩ ⟨_, rfl⟩ heq
    simp only [List.append_cancel_left_eq] at heq
    obtain ⟨hiface, -⟩ := legible_entries (legible_device _ (by decide)) (device_start _)
      (iface_legible hnames) (iface_legible hnames') ⟨_, rfl⟩ ⟨_, rfl⟩ heq
    exact ⟨huuid, pcpuCounters_injective hpcpu, balloonCounters_injective hballoon, hvcpu,
      flagged_injective hblock, flagged_injective hiface⟩
  · rintro ⟨huuid, hpcpu, hballoon, hvcpu, hblock, hiface⟩
    rw [huuid, hpcpu, hballoon, hvcpu, hblock, hiface]

/-- A machine with one disk, of which `flushes` bytes were flushed. -/
private def diskVm (flushes : UInt64) : VmInfo :=
  { vminfoInit with
    uuid := lit "vm"
    block := {
      nstats := 1
      xstats := .null
      stats := { name := lit "vda", rdBytes := 512, flBytes := flushes } :: List.replicate 7 0
      stats_length := rfl } }

/-- The flush counters are not printed. -/
theorem vminfoPrintJson_eq_iff_flushes :
    vminfoPrintJson (diskVm 0) = vminfoPrintJson (diskVm 1) ∧
      (diskVm 0).block.entries ≠ (diskVm 1).block.entries := by
  have hfits : ∀ n, (diskVm n).Fits := fun n => ⟨Nat.zero_le _, by
    rw [StatsInfo.Fits]
    exact Nat.succ_le_succ (Nat.zero_le _), Nat.zero_le _⟩
  have hnames : ∀ n, (diskVm n).QuotelessNames := by
    intro n
    refine ⟨⟨?_, ?_⟩, ?_⟩
    · change 0x22 ∉ lit "vm"
      decide
    · intro stats hstats
      obtain rfl : stats = { name := lit "vda", rdBytes := 512, flBytes := n } := by
        simpa [diskVm, StatsInfo.entries, StatsInfo.items] using hstats
      change 0x22 ∉ lit "vda"
      decide
    · intro stats hstats
      simp [diskVm, vminfoInit, StatsInfo.init, StatsInfo.entries] at hstats
  refine ⟨(vminfoPrintJson_eq_iff (hfits 0) (hfits 1) (hnames 0) (hnames 1)).mpr
    ⟨rfl, rfl, rfl, rfl, rfl, rfl⟩, ?_⟩
  decide

end Vmon
