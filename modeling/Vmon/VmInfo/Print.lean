import Vmon.Lib.Json
import Vmon.VmInfo

/-!
# Printing statistics as JSON

The text `vminfoPrintJson` writes, the format strings with their conversions
expanded. Each of the three loops puts a comma after every entry except the one
with the last index; the vcpu and the interface entries also end in a comma of
their own, before the bracket that closes them, and no name is escaped.

## Main definitions

* `vminfoPrintJson` — the text.
* `Printable` — no vcpu present, no interface, and names that are proper strings.
-/

namespace Vmon

open Json

/-! ### The text -/

/-- The pieces ` "key": %llu` of a format string, with the commas between them. -/
def counters : List (String × UInt64) → Bytes
  | [] => []
  | [(key, n)] => lit " \"" ++ lit key ++ lit "\": " ++ decimal n.toNat
  | (key, n) :: x :: xs =>
    lit " \"" ++ lit key ++ lit "\": " ++ decimal n.toNat ++ lit "," ++ counters (x :: xs)

def pcpuCounters (pcpu : PCpuInfo) : List (String × UInt64) :=
  [("cpu.time", pcpu.time), ("cpu.user", pcpu.user), ("cpu.system", pcpu.system)]

def pcpuPrintJson (pcpu : PCpuInfo) : Bytes :=
  lit "\"pcpu\": \x7b" ++ counters (pcpuCounters pcpu) ++ lit " \x7d"

def balloonCounters (balloon : BalloonInfo) : List (String × UInt64) :=
  [("balloon.current", balloon.current), ("balloon.maximum", balloon.maximum)]

def balloonPrintJson (balloon : BalloonInfo) : Bytes :=
  lit "\"balloon\": \x7b" ++ counters (balloonCounters balloon) ++ lit " \x7d"

/-- The conversion at the end of an entry: no comma after the one with the last index. -/
def separator (i nstats : ℕ) : Bytes := if i = nstats - 1 then [] else lit ","

/-- A loop over a table that prints its entries. -/
def StatsInfo.printEntries {S : Type} {cap : ℕ} (x : StatsInfo S cap) (entry : ℕ → S → Bytes) :
    Bytes :=
  x.entries.zipIdx.flatMap fun p => entry p.2 p.1

def vcpuEntryJson (nstats i : ℕ) (stats : VCpuStats) : Bytes :=
  if !stats.present then []
  else
    lit " \"" ++ decimal i ++ lit "\": \x7b \"state\": " ++ decimalInt stats.state.toInt ++
    lit "," ++ counters [("time", stats.time)] ++ lit ", \x7d" ++ separator i nstats

def vcpuPrintJson (vcpu : VCpuInfo) : Bytes :=
  lit "\"vcpu\": \x7b" ++ vcpu.printEntries (vcpuEntryJson vcpu.nstats) ++ lit " \x7d"

/-- The counters of a block entry, in the order of its format string. -/
def blockCounters (stats : BlockStats) : List (String × UInt64) :=
  [("rd_bytes", stats.rdBytes), ("rd_operations", stats.rdReqs),
    ("rd_total_times", stats.rdTimes), ("wr_bytes", stats.wrBytes),
    ("wr_operations", stats.wrReqs), ("wr_total_times", stats.wrTimes),
    ("allocation", stats.allocation), ("capacity", stats.capacity), ("physical", stats.physical)]

def blockEntryJson (nstats i : ℕ) (stats : BlockStats) : Bytes :=
  lit " \"" ++ stats.label ++ lit "\": \x7b" ++ counters (blockCounters stats) ++ lit "  \x7d" ++
  separator i nstats

def blockPrintJson (block : BlockInfo) : Bytes :=
  lit "\"block\": \x7b" ++ block.printEntries (blockEntryJson block.nstats) ++ lit " \x7d"

/-- The counters of an interface entry, in the order of its format string. -/
def ifaceCounters (stats : IfaceStats) : List (String × UInt64) :=
  [("rx_bytes", stats.rxBytes), ("rx_pkts", stats.rxPkts), ("rx_errs", stats.rxErrs),
    ("rx_drop", stats.rxDrop), ("tx_bytes", stats.txBytes), ("tx_pkts", stats.txPkts),
    ("tx_errs", stats.txErrs), ("tx_drop", stats.txDrop)]

def ifaceEntryJson (nstats i : ℕ) (stats : IfaceStats) : Bytes :=
  lit " \"" ++ stats.label ++ lit "\": \x7b" ++ counters (ifaceCounters stats) ++ lit ", \x7d" ++
  separator i nstats

def ifacePrintJson (iface : IfaceInfo) : Bytes :=
  lit "\"iface\": \x7b" ++ iface.printEntries (ifaceEntryJson iface.nstats) ++ lit " \x7d"

def vminfoPrintJson (vm : VmInfo) : Bytes :=
  lit "\x7b \"vm-id\": \"" ++ vm.uuid ++ lit "\"," ++
  pcpuPrintJson vm.pcpu ++ lit ", " ++ balloonPrintJson vm.balloon ++ lit ", " ++
  vcpuPrintJson vm.vcpu ++ lit ", " ++ blockPrintJson vm.block ++ lit ", " ++
  ifacePrintJson vm.iface ++ lit " \x7d"

/-! ### What is well formed -/

/-- No loop but the one over blocks prints an entry. -/
structure NoEntries (vm : VmInfo) : Prop where
  vcpu : ∀ stats ∈ vm.vcpu.entries, stats.present = false
  iface : vm.iface.nstats = 0

/-- Besides, the uuid and the block names are bodies of JSON strings. -/
structure Printable (vm : VmInfo) : Prop extends NoEntries vm where
  uuid : Chars vm.uuid
  block : ∀ stats ∈ vm.block.entries, Chars stats.label

/-- Neither the uuid nor a block name has a quote in it. -/
structure Quoteless (vm : VmInfo) : Prop where
  uuid : 0x22 ∉ vm.uuid
  block : ∀ stats ∈ vm.block.entries, 0x22 ∉ stats.label

/-! ### Printable statistics are printed well -/

theorem counters_eq (xs : List (String × UInt64)) :
    counters xs = numberMembers (xs.map fun x => (lit x.1, x.2.toNat)) := by
  induction xs with
  | nil => rfl
  | cons x xs ih =>
    cases xs with
    | nil => simp [counters, numberMembers, lit]
    | cons y xs =>
      rw [List.map_cons] at ih ⊢
      rw [List.map_cons, numberMembers, ← ih]
      simp [counters, lit]

/-- Keys that stand for themselves between quotes. -/
def PlainKeys (xs : List (String × UInt64)) : Prop := ∀ x ∈ xs, ∀ b ∈ lit x.1, isPlain b = true

theorem plainKeys_of_map {xs : List (String × UInt64)} (keys : List String)
    (hkeys : xs.map Prod.fst = keys) (h : ∀ key ∈ keys, ∀ b ∈ lit key, isPlain b = true) :
    PlainKeys xs := by
  subst hkeys
  intro x hx b hb
  exact h x.1 (List.mem_map_of_mem hx) b hb

theorem PlainKeys.tail {x : String × UInt64} {xs : List (String × UInt64)}
    (h : PlainKeys (x :: xs)) : PlainKeys xs := fun y hy => h y (List.mem_cons_of_mem _ hy)

theorem plainKeys_block (stats : BlockStats) : PlainKeys (blockCounters stats) :=
  plainKeys_of_map ["rd_bytes", "rd_operations", "rd_total_times", "wr_bytes", "wr_operations",
    "wr_total_times", "allocation", "capacity", "physical"] rfl (by decide)

theorem plainKeys_iface (stats : IfaceStats) : PlainKeys (ifaceCounters stats) :=
  plainKeys_of_map ["rx_bytes", "rx_pkts", "rx_errs", "rx_drop", "tx_bytes", "tx_pkts", "tx_errs",
    "tx_drop"] rfl (by decide)

theorem plainKeys_pcpu (pcpu : PCpuInfo) : PlainKeys (pcpuCounters pcpu) :=
  plainKeys_of_map ["cpu.time", "cpu.user", "cpu.system"] rfl (by decide)

theorem plainKeys_balloon (balloon : BalloonInfo) : PlainKeys (balloonCounters balloon) :=
  plainKeys_of_map ["balloon.current", "balloon.maximum"] rfl (by decide)

/-- A member that is an object of counters. -/
theorem derives_counters {k pre r : Bytes} {xs : List (String × UInt64)} (hk : Chars k)
    (hpre : pre = 0x22 :: (k ++ [0x22, 0x3A, 0x20, 0x7B])) (hr : Ws r) (hne : xs ≠ [])
    (hplain : PlainKeys xs) : Derives .members (pre ++ counters xs ++ (r ++ [0x7D])) := by
  have hxs : (xs.map fun x => (lit x.1, x.2.toNat)).all (fun x => x.1.all isPlain) = true := by
    simp only [List.all_map, List.all_eq_true, Function.comp_apply]
    exact hplain
  have h := derives_numberObject hk (by simpa using hne) hxs hr
  rw [hpre, counters_eq]
  simpa using h

theorem derives_pcpu (pcpu : PCpuInfo) : Derives .members (pcpuPrintJson pcpu) :=
  derives_counters (k := lit "pcpu") (r := [0x20]) (chars_of_plain (by decide)) rfl (by decide)
    (List.cons_ne_nil _ _) (plainKeys_pcpu pcpu)

theorem derives_balloon (balloon : BalloonInfo) : Derives .members (balloonPrintJson balloon) :=
  derives_counters (k := lit "balloon") (r := [0x20]) (chars_of_plain (by decide)) rfl (by decide)
    (List.cons_ne_nil _ _) (plainKeys_balloon balloon)

/-- One block entry, its separator left out. -/
def blockEntry (stats : BlockStats) : Bytes :=
  lit " \"" ++ stats.label ++ lit "\": \x7b" ++ counters (blockCounters stats) ++ lit "  \x7d"

theorem derives_blockEntry {stats : BlockStats} (h : Chars stats.label) :
    Derives .members (blockEntry stats) := by
  have hentry : Derives .members (0x22 :: (stats.label ++ [0x22, 0x3A, 0x20, 0x7B]) ++
      counters (blockCounters stats) ++ ([0x20, 0x20] ++ [0x7D])) :=
    derives_counters h rfl (by decide) (List.cons_ne_nil _ _) (plainKeys_block stats)
  have hpad := hentry.pad rfl (l := [0x20]) (r := []) (by decide) (by decide)
  have hopen : lit " \"" = [0x20, 0x22] := rfl
  have hmid : lit "\": \x7b" = [0x22, 0x3A, 0x20, 0x7B] := rfl
  have hclose : lit "  \x7d" = [0x20, 0x20, 0x7D] := rfl
  simpa [blockEntry, hopen, hmid, hclose] using hpad

theorem derives_block {block : BlockInfo} (hfits : block.Fits)
    (h : ∀ stats ∈ block.entries, Chars stats.label) : Derives .members (blockPrintJson block) := by
  have heq : blockPrintJson block = 0x22 :: (lit "block" ++ 0x22 :: 0x3A :: 0x20 :: (0x7B ::
      ((block.entries.zipIdx.flatMap fun p =>
        blockEntry p.1 ++ if p.2 = 0 + block.entries.length - 1 then [] else [0x2C]) ++
        [0x20] ++ [0x7D]))) := by
    have hopen : lit "\"block\": \x7b" = 0x22 :: (lit "block" ++ [0x22, 0x3A, 0x20, 0x7B]) := rfl
    have hcomma : lit "," = [0x2C] := rfl
    have hclose : lit " \x7d" = [0x20, 0x7D] := rfl
    simp [blockPrintJson, StatsInfo.printEntries, blockEntryJson, blockEntry, separator,
      hfits.length_entries, hopen, hcomma, hclose]
  rw [heq]
  refine .field (chars_of_plain (by decide)) ?_
  by_cases hnil : block.entries = []
  · rw [hnil]
    exact .emptyObject (w := [0x20]) (by decide)
  · have hentries := derives_zipIdx (e := fun _ => blockEntry) (k := 0) hnil
      fun stats hs _ => derives_blockEntry (h stats hs)
    exact .object (hentries.pad rfl (l := []) (by decide) (by decide))

/-- A table whose loop prints nothing is an empty object. -/
theorem derives_empty {k : Bytes} (hk : Chars k) :
    Derives .members (0x22 :: (k ++ [0x22, 0x3A, 0x20, 0x7B, 0x20, 0x7D])) := by
  have := Derives.field hk (.emptyObject (w := [0x20]) (by decide))
  simpa using this

theorem derives_vcpu {vcpu : VCpuInfo} (h : ∀ stats ∈ vcpu.entries, stats.present = false) :
    Derives .members (vcpuPrintJson vcpu) := by
  have hnil : vcpu.printEntries (vcpuEntryJson vcpu.nstats) = [] := by
    rw [StatsInfo.printEntries, List.flatMap_eq_nil_iff]
    intro p hp
    have hmem : p.1 ∈ vcpu.entries := List.fst_mem_of_mem_zipIdx hp
    simp [vcpuEntryJson, h p.1 hmem]
  rw [vcpuPrintJson, hnil]
  exact derives_empty (k := lit "vcpu") (chars_of_plain (by decide))

theorem derives_iface {iface : IfaceInfo} (h : iface.nstats = 0) :
    Derives .members (ifacePrintJson iface) := by
  have hnil : iface.printEntries (ifaceEntryJson iface.nstats) = [] := by
    simp [StatsInfo.printEntries, StatsInfo.entries, h]
  rw [ifacePrintJson, hnil]
  exact derives_empty (k := lit "iface") (chars_of_plain (by decide))

/-- **Printable statistics make one JSON object.** -/
theorem isObject_of_printable {vm : VmInfo} (hfits : vm.Fits) (h : Printable vm) :
    IsObject (vminfoPrintJson vm) := by
  have hspace : Ws [0x20] := by decide
  have huuid := (Derives.field (k := lit "vm-id") (chars_of_plain (by decide))
    (.string h.uuid)).pad rfl hspace (r := []) (by decide)
  have hballoon := (derives_balloon vm.balloon).pad rfl hspace (r := []) (by decide)
  have hvcpu := (derives_vcpu h.vcpu).pad rfl hspace (r := []) (by decide)
  have hblock := (derives_block hfits.block h.block).pad rfl hspace (r := []) (by decide)
  have hiface := (derives_iface h.iface).pad rfl hspace hspace
  have hall := huuid.membersComma ((derives_pcpu vm.pcpu).membersComma (hballoon.membersComma
    (hvcpu.membersComma (hblock.membersComma hiface))))
  refine ⟨[], _, [], ?_, by decide, .inr hall, by decide⟩
  have hopen : lit "\x7b \"vm-id\": \"" =
      0x7B :: 0x20 :: 0x22 :: (lit "vm-id" ++ [0x22, 0x3A, 0x20, 0x22]) := rfl
  have hclose : lit " \x7d" = [0x20, 0x7D] := rfl
  have hcomma : lit ", " = [0x2C, 0x20] := rfl
  have hend : lit "\"," = [0x22, 0x2C] := rfl
  simp only [vminfoPrintJson, hopen, hclose, hcomma, hend, List.append_assoc, List.cons_append,
    List.nil_append, List.append_nil]

/-! ### What breaks -/

theorem run_decimal (n : ℕ) (comma : Bool) : (Mode.text comma).run (decimal n) = .text false :=
  (Passes.token (decimal_ne_nil n) fun _ hb =>
    isToken_of_isDigit (isDigit_of_mem_decimal hb)).run

theorem run_decimalInt (z : ℤ) (comma : Bool) :
    (Mode.text comma).run (decimalInt z) = .text false := by
  unfold decimalInt
  split
  · exact run_decimal _ false
  · exact run_decimal _ comma

/-- An ASCII name between quotes leaves the machine in front of its value. -/
theorem run_key {k : Bytes} (hk : ∀ b ∈ k, isPlain b = true) (comma : Bool) :
    (Mode.text comma).run (lit " \"" ++ k ++ lit "\": ") = .text false := by
  have hopen : (Mode.text comma).run (lit " \"") = .body [] := by cases comma <;> rfl
  rw [Mode.run_append, Mode.run_append, hopen, ((chars_of_plain hk).passes []).run]
  rfl

theorem run_counters {xs : List (String × UInt64)} (hne : xs ≠ [])
    (hplain : PlainKeys xs) (comma : Bool) :
    (Mode.text comma).run (counters xs) = .text false := by
  induction xs generalizing comma with
  | nil => exact absurd rfl hne
  | cons x xs ih =>
    obtain ⟨hx, hxs⟩ := List.forall_mem_cons.mp hplain
    have hkey := run_key hx comma
    cases xs with
    | nil => rw [counters, Mode.run_append, hkey, run_decimal]
    | cons y xs =>
      rw [counters, Mode.run_append, Mode.run_append, Mode.run_append, hkey, run_decimal]
      exact ih (List.cons_ne_nil y xs) hxs true

/-- The text after the uuid, a block name and an interface name. -/
theorem syncs_uuid : Syncs (lit "\",\"pcpu") (lit "pcpu") :=
  ⟨rfl, by decide, fun _ => rfl, fun _ => rfl⟩

theorem syncs_block : Syncs (lit "\": \x7b \"" ++ lit "rd_bytes") (lit "rd_bytes") :=
  ⟨rfl, by decide, fun _ => rfl, fun _ => rfl⟩

theorem syncs_iface : Syncs (lit "\": \x7b \"" ++ lit "rx_bytes") (lit "rx_bytes") :=
  ⟨rfl, by decide, fun _ => rfl, fun _ => rfl⟩

/-- After the first key of an entry its counters follow. -/
theorem run_counters_tail {k : Bytes} {n : UInt64} {xs : List (String × UInt64)}
    (hplain : PlainKeys xs) :
    (Mode.body k).run (lit "\": " ++ decimal n.toNat ++
      if xs = [] then [] else lit "," ++ counters xs) = .text false := by
  have hcolon : (Mode.body k).run (lit "\": ") = .text false := rfl
  rw [Mode.run_append, Mode.run_append, hcolon, run_decimal]
  split
  · rfl
  · next hne =>
    rw [Mode.run_append]
    exact run_counters hne hplain true

/-- **An entry that starts with a name**: unless the machine fails it ends outside strings,
and a name without quotes is a string body. -/
theorem passes_named {name : Bytes} {key : String} {n : UInt64} {xs : List (String × UInt64)}
    {comma : Bool} {m : Mode} (hs : Syncs (lit "\": \x7b \"" ++ lit key) (lit key))
    (hplain : PlainKeys xs)
    (h : Passes (.text comma) (lit " \"" ++ name ++ lit "\": \x7b" ++ counters ((key, n) :: xs)) m)
    (hm : m ≠ .bad) : m = .text false ∧ (0x22 ∉ name → Chars name) := by
  have hsplit : lit " \"" ++ name ++ lit "\": \x7b" ++ counters ((key, n) :: xs) =
      lit " \"" ++ ((name ++ (lit "\": \x7b \"" ++ lit key)) ++
        (lit "\": " ++ decimal n.toNat ++ if xs = [] then [] else lit "," ++ counters xs)) := by
    have hmid : lit "\": \x7b \"" = lit "\": \x7b" ++ lit " \"" := rfl
    rw [hmid]
    cases xs <;> simp [counters]
  rw [hsplit] at h
  obtain ⟨m1, h1, h⟩ := h.split
  obtain ⟨m2, h2, h3⟩ := h.split
  have hm1 : m1 = .body [] := by
    rw [← h1.run]
    cases comma <;> rfl
  subst hm1
  obtain ⟨rfl, hname⟩ := hs.name h2 (h3.ne_bad hm)
  exact ⟨h3.run.symm.trans (run_counters_tail hplain), hname⟩

theorem passes_separator {i nstats : ℕ} {m : Mode}
    (h : Passes (.text false) (separator i nstats) m) : ∃ c, m = .text c := by
  have hrun := h.run
  unfold separator at hrun
  split at hrun
  · exact ⟨false, hrun.symm⟩
  · exact ⟨true, hrun.symm⟩

theorem passes_blockEntry {nstats i : ℕ} {stats : BlockStats} {comma : Bool} {m : Mode}
    (h : Passes (.text comma) (blockEntryJson nstats i stats) m) (hm : m ≠ .bad) :
    (∃ c, m = .text c) ∧ (0x22 ∉ stats.label → Chars stats.label) := by
  obtain ⟨m1, h, h3⟩ := h.split
  obtain ⟨m2, h1, h2⟩ := h.split
  obtain ⟨rfl, hname⟩ := passes_named syncs_block (plainKeys_block stats).tail h1 (h2.ne_bad (h3.ne_bad hm))
  have hm1 : m1 = .text false := h2.run.symm
  subst hm1
  exact ⟨passes_separator h3, hname⟩

/-- **An interface entry** leads the machine to failure, whatever its name. -/
theorem passes_ifaceEntry {nstats i : ℕ} {stats : IfaceStats} {comma : Bool} {m : Mode}
    (h : Passes (.text comma) (ifaceEntryJson nstats i stats) m) : m = .bad := by
  by_contra hm
  obtain ⟨m1, h, h3⟩ := h.split
  obtain ⟨m2, h1, h2⟩ := h.split
  obtain ⟨rfl, -⟩ := passes_named syncs_iface (plainKeys_iface stats).tail h1 (h2.ne_bad (h3.ne_bad hm))
  exact h3.ne_bad hm h2.run.symm

/-- **A vcpu entry** leads the machine to failure. -/
theorem passes_vcpuEntry {nstats i : ℕ} {stats : VCpuStats} {comma : Bool} {m : Mode}
    (hp : stats.present = true)
    (h : Passes (.text comma) (vcpuEntryJson nstats i stats) m) : m = .bad := by
  have hkey : (Mode.text comma).run (lit " \"" ++ decimal i ++ lit "\": \x7b \"state\": ") =
      .text false := by
    have hopen : (Mode.text comma).run (lit " \"") = .body [] := by cases comma <;> rfl
    have hdigits : ∀ b ∈ decimal i, b ≠ 0x22 ∧ b ≠ 0x5C := by
      intro b hb
      have hd := isDigit_of_mem_decimal hb
      constructor <;> rintro rfl <;> exact absurd hd (by decide)
    rw [Mode.run_append, Mode.run_append, hopen, (Passes.plain [] hdigits).run]
    rfl
  have htime : (Mode.text true).run (counters [("time", stats.time)]) = .text false :=
    run_counters (List.cons_ne_nil _ _) (plainKeys_of_map ["time"] rfl (by decide)) true
  have hcomma : (Mode.text false).run (lit ",") = .text true := rfl
  have hclose : (Mode.text false).run (lit ", \x7d") = .bad := by decide
  have hrun := h.run
  rw [vcpuEntryJson, hp, Bool.not_true, if_neg Bool.false_ne_true] at hrun
  rw [← hrun]
  simp only [Mode.run_append] at hkey ⊢
  rw [hkey, run_decimalInt, hcomma, htime, hclose, Mode.run_bad]

/-- A member that is an object of counters leads back outside strings. -/
theorem run_counterObject {pre : Bytes} {xs : List (String × UInt64)} {m : Mode} (hne : xs ≠ [])
    (hplain : PlainKeys xs) (hpre : m.run pre = .text false) :
    m.run (pre ++ counters xs ++ lit " \x7d") = .text false := by
  rw [Mode.run_append, Mode.run_append, hpre, run_counters hne hplain false]
  rfl

/-- The loop over a table: what holds of every entry that does not fail the machine. -/
theorem passes_printEntries {S : Type} {cap : ℕ} {x : StatsInfo S cap} {entry : ℕ → S → Bytes}
    {P : S → Prop} {comma : Bool} {m : Mode}
    (hentry : ∀ stats i c m, Passes (.text c) (entry i stats) m → m ≠ .bad →
      (∃ c', m = .text c') ∧ P stats)
    (h : Passes (.text comma) (x.printEntries entry) m) (hm : m ≠ .bad) :
    (∃ c, m = .text c) ∧ ∀ stats ∈ x.entries, P stats := by
  obtain ⟨hc, hP⟩ := Passes.flatMap (P := fun p => P p.1)
    (fun p _ c m => hentry p.1 p.2 c m) h hm
  refine ⟨hc, ?_⟩
  intro stats hs
  rw [← List.zipIdx_map_fst 0 x.entries] at hs
  obtain ⟨p, hp, rfl⟩ := List.mem_map.mp hs
  exact hP p hp

/-- The text up to the balloon statistics. -/
theorem passes_head {vm : VmInfo} {m : Mode}
    (h : Passes (.text false) (lit "\x7b \"vm-id\": \"" ++ ((vm.uuid ++ lit "\",\"pcpu") ++
      ((lit "\": \x7b" ++ counters (pcpuCounters vm.pcpu) ++ lit " \x7d") ++
      (lit ", \"balloon\": \x7b" ++ counters (balloonCounters vm.balloon) ++ lit " \x7d")))) m)
    (hm : m ≠ .bad) : m = .text false ∧ (0x22 ∉ vm.uuid → Chars vm.uuid) := by
  obtain ⟨m1, h1, h⟩ := h.split
  obtain ⟨m2, h2, h⟩ := h.split
  obtain ⟨m3, h3, h4⟩ := h.split
  have hm1 : m1 = .body [] := h1.run.symm
  subst hm1
  obtain ⟨rfl, huuid⟩ := syncs_uuid.name h2 (h3.ne_bad (h4.ne_bad hm))
  have hm3 : m3 = .text false :=
    h3.run.symm.trans (run_counterObject (List.cons_ne_nil _ _) (plainKeys_pcpu vm.pcpu) rfl)
  subst hm3
  have hm4 : m = .text false :=
    h4.run.symm.trans (run_counterObject (List.cons_ne_nil _ _) (plainKeys_balloon vm.balloon) rfl)
  exact ⟨hm4, huuid⟩

theorem passes_vcpu {vcpu : VCpuInfo} {m : Mode}
    (h : Passes (.text false)
      (lit ", \"vcpu\": \x7b" ++ vcpu.printEntries (vcpuEntryJson vcpu.nstats)) m)
    (hm : m ≠ .bad) : (∃ c, m = .text c) ∧ ∀ stats ∈ vcpu.entries, stats.present = false := by
  obtain ⟨m1, h1, h2⟩ := h.split
  have hm1 : m1 = .text false := h1.run.symm
  subst hm1
  refine passes_printEntries ?_ h2 hm
  intro stats i c m hentry hne
  cases hp : stats.present with
  | true => exact absurd (passes_vcpuEntry hp hentry) hne
  | false =>
    have hnil : vcpuEntryJson vcpu.nstats i stats = [] := by simp [vcpuEntryJson, hp]
    rw [hnil] at hentry
    exact ⟨⟨c, hentry.run.symm⟩, rfl⟩

theorem passes_block {block : BlockInfo} {comma : Bool} {m : Mode}
    (h : Passes (.text comma)
      (lit " \x7d, \"block\": \x7b" ++ block.printEntries (blockEntryJson block.nstats)) m)
    (hm : m ≠ .bad) :
    (∃ c, m = .text c) ∧ ∀ stats ∈ block.entries, 0x22 ∉ stats.label → Chars stats.label := by
  obtain ⟨m1, h1, h2⟩ := h.split
  have hm1 : m1 = .text false := by
    cases comma with
    | false => exact h1.run.symm
    | true => exact absurd h1.run.symm (h2.ne_bad hm)
  subst hm1
  exact passes_printEntries (fun stats i c m hentry hne => passes_blockEntry hentry hne) h2 hm

theorem passes_iface {iface : IfaceInfo} {comma : Bool} {m : Mode}
    (h : Passes (.text comma)
      (lit " \x7d, \"iface\": \x7b" ++ iface.printEntries (ifaceEntryJson iface.nstats)) m)
    (hm : m ≠ .bad) : iface.entries = [] := by
  obtain ⟨m1, h1, h2⟩ := h.split
  have hm1 : m1 = .text false := by
    cases comma with
    | false => exact h1.run.symm
    | true => exact absurd h1.run.symm (h2.ne_bad hm)
  subst hm1
  have hnone := (passes_printEntries (P := fun _ => False)
    (fun stats i c m hentry hne => absurd (passes_ifaceEntry hentry) hne) h2 hm).2
  exact List.eq_nil_iff_forall_not_mem.mpr hnone

/-- **What the text of a well-formed object tells**: no loop but the one over blocks printed
an entry, and names without quotes are string bodies. -/
theorem of_isObject {vm : VmInfo} (hfits : vm.Fits) (h : IsObject (vminfoPrintJson vm)) :
    NoEntries vm ∧ (Quoteless vm → Printable vm) := by
  have hsplit : vminfoPrintJson vm =
      (lit "\x7b \"vm-id\": \"" ++ ((vm.uuid ++ lit "\",\"pcpu") ++
        ((lit "\": \x7b" ++ counters (pcpuCounters vm.pcpu) ++ lit " \x7d") ++
        (lit ", \"balloon\": \x7b" ++ counters (balloonCounters vm.balloon) ++ lit " \x7d")))) ++
      ((lit ", \"vcpu\": \x7b" ++ vm.vcpu.printEntries (vcpuEntryJson vm.vcpu.nstats)) ++
      ((lit " \x7d, \"block\": \x7b" ++
        vm.block.printEntries (blockEntryJson vm.block.nstats)) ++
      ((lit " \x7d, \"iface\": \x7b" ++
        vm.iface.printEntries (ifaceEntryJson vm.iface.nstats)) ++ lit " \x7d \x7d"))) := by
    have h1 : lit "\",\"pcpu" = lit "\"," ++ lit "\"pcpu" := rfl
    have h2 : lit "\"pcpu\": \x7b" = lit "\"pcpu" ++ lit "\": \x7b" := rfl
    have h3 : lit ", \"balloon\": \x7b" = lit ", " ++ lit "\"balloon\": \x7b" := rfl
    have h4 : lit ", \"vcpu\": \x7b" = lit ", " ++ lit "\"vcpu\": \x7b" := rfl
    have h5 : lit " \x7d, \"block\": \x7b" = lit " \x7d" ++ lit ", " ++ lit "\"block\": \x7b" :=
      rfl
    have h6 : lit " \x7d, \"iface\": \x7b" = lit " \x7d" ++ lit ", " ++ lit "\"iface\": \x7b" :=
      rfl
    have h7 : lit " \x7d \x7d" = lit " \x7d" ++ lit " \x7d" := rfl
    simp only [vminfoPrintJson, pcpuPrintJson, balloonPrintJson, vcpuPrintJson, blockPrintJson,
      ifacePrintJson, h1, h2, h3, h4, h5, h6, h7, List.append_assoc]
  have hp := h.passes
  rw [hsplit] at hp
  obtain ⟨m1, hhead, hp⟩ := hp.split
  obtain ⟨m2, hvcpu, hp⟩ := hp.split
  obtain ⟨m3, hblock, hp⟩ := hp.split
  obtain ⟨m4, hiface, hend⟩ := hp.split
  have hm4 : m4 ≠ .bad := hend.ne_bad (by decide)
  have hm3 : m3 ≠ .bad := hiface.ne_bad hm4
  have hm2 : m2 ≠ .bad := hblock.ne_bad hm3
  have hm1 : m1 ≠ .bad := hvcpu.ne_bad hm2
  obtain ⟨rfl, huuid⟩ := passes_head hhead hm1
  obtain ⟨⟨c2, rfl⟩, hpresent⟩ := passes_vcpu hvcpu hm2
  obtain ⟨⟨c3, rfl⟩, hlabel⟩ := passes_block hblock hm3
  have hnil := passes_iface hiface hm4
  have hnone : NoEntries vm := by
    refine ⟨hpresent, ?_⟩
    rw [← hfits.iface.length_entries, hnil]
    rfl
  refine ⟨hnone, ?_⟩
  intro hquote
  exact ⟨hnone, huuid hquote.uuid, fun stats hs => hlabel stats hs (hquote.block stats hs)⟩

/-- **When the text is well-formed JSON.** No present vcpu, no interface and names that are
string bodies are enough; the first two are necessary whatever the names, and all of it is
when no name has a quote in it. -/
theorem print_json_wellformed (vm : VmInfo) (hfits : vm.Fits) :
    (Printable vm → IsObject (vminfoPrintJson vm)) ∧
    (IsObject (vminfoPrintJson vm) → NoEntries vm) ∧
    (Quoteless vm → (IsObject (vminfoPrintJson vm) ↔ Printable vm)) := by
  refine ⟨isObject_of_printable hfits, fun h => (of_isObject hfits h).1, ?_⟩
  intro hquote
  exact ⟨fun h => (of_isObject hfits h).2 hquote, isObject_of_printable hfits⟩

/-! ### One machine -/

/-- A machine with a name, and nothing in its tables. -/
private def vm₁ : VmInfo := { vminfoInit with uuid := lit "vm" }

/-- A machine with one running vcpu. -/
private def vm₂ : VmInfo :=
  { vm₁ with vcpu := {
      nstats := 1
      xstats := .null
      stats := ⟨true, 1, 7⟩ :: List.replicate 15 0
      stats_length := rfl
      current := 1 } }

theorem print_json_wellformed_idle :
    (Printable vm₁ → IsObject (vminfoPrintJson vm₁)) ∧
    (IsObject (vminfoPrintJson vm₁) → NoEntries vm₁) ∧
    (Quoteless vm₁ → (IsObject (vminfoPrintJson vm₁) ↔ Printable vm₁)) :=
  print_json_wellformed vm₁ ⟨Nat.zero_le _, Nat.zero_le _, Nat.zero_le _⟩

/-- The comma after the time of the one vcpu is not JSON. -/
theorem print_json_wellformed_fails : vm₂.Fits ∧ ¬ IsObject (vminfoPrintJson vm₂) := by
  have hone : (1 : ℕ) ≤ vm₂.vcpu.items.length := by decide
  have hfits : vm₂.Fits := ⟨hone, Nat.zero_le _, Nat.zero_le _⟩
  refine ⟨hfits, ?_⟩
  intro h
  have hpresent := (of_isObject hfits h).1.vcpu ⟨true, 1, 7⟩ (by decide)
  exact absurd hpresent (by decide)

end Vmon
