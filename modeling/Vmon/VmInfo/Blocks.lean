import Vmon.Jsmn.Readings
import Vmon.VmInfo.Parse
import Vmon.VmInfo.Print

/-!
# Block statistics, from their fields to their text

`blockinfo_parse_field` stores a value under the suffix of its parameter, and `block_print_json`
prints it under a key of its own. `block_round_trip` says that the two tables agree: whatever
the updates, the text reads as the last values given to each slot.

## Main definitions

* `SlotUpdate`, `BlockInfo.update` — one call of `blockinfoParseField`.
* `blockKeys` — the printed keys, each with the suffix that stores its value.
* `lastValue`, `slotName`, `slotMember` — what was given to a slot.
-/

namespace Vmon

variable {δ : Type}

/-! ### Updates -/

/-- A parameter for slot `slot`, and what follows the index in its name. -/
structure SlotUpdate where
  slot : ℕ
  suffix : Bytes
  item : TypedParameter

def BlockStats.update (host : Host δ) (stats : BlockStats) (u : SlotUpdate) : BlockStats :=
  blockinfoParseField host stats u.suffix u.item

def BlockInfo.update (host : Host δ) (block : BlockInfo) (u : SlotUpdate) : BlockInfo :=
  block.modifyItem u.slot fun stats => stats.update host u

/-- The updates of slot `i`. -/
def forSlot (us : List SlotUpdate) (i : ℕ) : List SlotUpdate := us.filter fun u => u.slot = i

/-- The updates that give slot `i` something for `suffix`. -/
def givenTo (us : List SlotUpdate) (i : ℕ) (suffix : Bytes) : List SlotUpdate :=
  us.filter fun u => u.slot = i ∧ u.suffix = suffix

/-- The last value given to slot `i` for `suffix`, zero if none was. -/
def lastValue (us : List SlotUpdate) (i : ℕ) (suffix : Bytes) : UInt64 :=
  ((givenTo us i suffix).getLast?.map fun u => u.item.value.ul).getD 0

/-- The name given to slot `i`, empty if none was. -/
def slotName (host : Host δ) (us : List SlotUpdate) (i : ℕ) : Bytes :=
  ((givenTo us i (lit "name")).head?.map fun u => u.item.value.s host).getD []

/-- The printed keys, each with the suffix under which libvirt gives its value. -/
def blockKeys : List (String × String) :=
  [("rd_bytes", "rd.bytes"), ("rd_operations", "rd.reqs"), ("rd_total_times", "rd.times"),
    ("wr_bytes", "wr.bytes"), ("wr_operations", "wr.reqs"), ("wr_total_times", "wr.times"),
    ("allocation", "allocation"), ("capacity", "capacity"), ("physical", "physical")]

/-- The member of slot `i`: its name, and the last values given to it. -/
def slotMember (host : Host δ) (us : List SlotUpdate) (i : ℕ) : Bytes × Tree :=
  (slotName host us i, .object (blockKeys.map fun key =>
    (lit key.1, .primitive (decimal (lastValue us i (lit key.2)).toNat))))

/-- Updates of `n` slots: a name at most once for each, as it may stand between quotes. -/
structure SlotUpdates (host : Host δ) (n : ℕ) (us : List SlotUpdate) : Prop where
  slots : ∀ u ∈ us, u.slot < n
  once : ∀ i, (givenTo us i (lit "name")).length ≤ 1
  plain : ∀ u ∈ us, u.suffix = lit "name" →
    ∀ b ∈ u.item.value.s host, 0x20 ≤ b ∧ b ≠ quote ∧ b ≠ backslash
  copied : ∀ u ∈ us, u.suffix = lit "name" → host.strdup (u.item.value.s host) = true

/-! ### One update -/

/-- **One field goes to one counter**, the one printed under its key. -/
theorem blockCounters_update (host : Host δ) (stats : BlockStats) (u : SlotUpdate) :
    blockCounters (stats.update host u) = List.zipWith
      (fun key c => (key.1, if u.suffix = lit key.2 then u.item.value.ul else c.2))
      blockKeys (blockCounters stats) := by
  obtain ⟨slot, suffix, item⟩ := u
  by_cases hmem : suffix ∈ blockFields
  · simp only [blockFields, List.mem_cons, List.not_mem_nil, or_false] at hmem
    rcases hmem with rfl | rfl | rfl | rfl | rfl | rfl | rfl | rfl | rfl | rfl | rfl | rfl <;> rfl
  · have hkeys : ∀ key ∈ blockKeys, suffix ≠ lit key.2 := by
      have hall : ∀ key ∈ blockKeys, lit key.2 ∈ blockFields := by decide
      intro key hkey heq
      exact hmem (heq ▸ hall key hkey)
    simp only [blockKeys, List.forall_mem_cons] at hkeys
    simp [BlockStats.update, blockinfoParseField_unknown host hmem, blockCounters, blockKeys, hkeys]

/-- A field other than the name leaves the name. -/
theorem label_update (host : Host δ) (stats : BlockStats) {u : SlotUpdate}
    (h : u.suffix ≠ lit "name") : (stats.update host u).toStatsName = stats.toStatsName := by
  obtain ⟨slot, suffix, item⟩ := u
  by_cases hmem : suffix ∈ blockFields
  · simp only [blockFields, List.mem_cons, List.not_mem_nil, or_false] at hmem
    rcases hmem.resolve_left h with rfl | rfl | rfl | rfl | rfl | rfl | rfl | rfl | rfl | rfl | rfl <;>
      rfl
  · rw [BlockStats.update, blockinfoParseField_unknown host hmem]

/-- **A name of any length is printed**, inline or from the heap. -/
theorem label_setup {host : Host δ} {stats : StatsName} {s : Bytes} (hnone : stats.xname = none)
    (hdup : host.strdup s = true) : (stats.setup host s).label = s := by
  rw [StatsName.setup]
  split
  · simp [StatsName.label]
  · simp [StatsName.label, hnone]

/-! ### All updates of a slot -/

/-- The slot after its updates. -/
def BlockStats.updateAll (host : Host δ) (stats : BlockStats) (us : List SlotUpdate) : BlockStats :=
  us.foldl (BlockStats.update host) stats

theorem givenTo_append (us : List SlotUpdate) (u : SlotUpdate) (i : ℕ) (suffix : Bytes) :
    givenTo (us ++ [u]) i suffix =
      givenTo us i suffix ++ if u.slot = i ∧ u.suffix = suffix then [u] else [] := by
  simp only [givenTo, List.filter_append, List.filter_singleton]
  split_ifs with h <;> simp [h]

theorem lastValue_append (us : List SlotUpdate) (u : SlotUpdate) (i : ℕ) (suffix : Bytes) :
    lastValue (us ++ [u]) i suffix =
      if u.slot = i ∧ u.suffix = suffix then u.item.value.ul else lastValue us i suffix := by
  rw [lastValue, givenTo_append, lastValue]
  split_ifs <;> simp

theorem forSlot_append (us : List SlotUpdate) (u : SlotUpdate) (i : ℕ) :
    forSlot (us ++ [u]) i = if u.slot = i then forSlot us i ++ [u] else forSlot us i := by
  simp only [forSlot, List.filter_append, List.filter_singleton]
  split_ifs with h <;> simp [h]

/-- **The counters of a slot** are the last values given to it. -/
theorem blockCounters_updateAll (host : Host δ) (us : List SlotUpdate) (i : ℕ) :
    blockCounters (BlockStats.updateAll host 0 (forSlot us i)) =
      blockKeys.map fun key => (key.1, lastValue us i (lit key.2)) := by
  induction us using List.reverseRecOn with
  | nil => rfl
  | append_singleton us u ih =>
    rw [forSlot_append]
    by_cases hslot : u.slot = i
    · rw [if_pos hslot, BlockStats.updateAll, List.foldl_append, List.foldl_cons, List.foldl_nil,
        blockCounters_update]
      rw [BlockStats.updateAll] at ih
      rw [ih, List.zipWith_map_right, List.zipWith_self]
      simp only [lastValue_append, hslot, true_and]
    · rw [if_neg hslot, ih]
      simp only [lastValue_append, hslot, false_and, if_false]

/-- **The label of a slot** is the name given to it. -/
theorem label_updateAll {host : Host δ} {us : List SlotUpdate} {i : ℕ}
    (honce : (givenTo us i (lit "name")).length ≤ 1)
    (hcopied : ∀ u ∈ us, u.suffix = lit "name" → host.strdup (u.item.value.s host) = true) :
    (BlockStats.updateAll host 0 (forSlot us i)).label = slotName host us i ∧
      (givenTo us i (lit "name") = [] →
        (BlockStats.updateAll host 0 (forSlot us i)).toStatsName = {}) := by
  induction us using List.reverseRecOn with
  | nil => exact ⟨rfl, fun _ => rfl⟩
  | append_singleton us u ih =>
    rw [givenTo_append] at honce ⊢
    obtain ⟨hlabel, hfresh⟩ := ih (by rw [List.length_append] at honce; omega)
      fun v hv => hcopied v (List.mem_append_left _ hv)
    by_cases hname : u.slot = i ∧ u.suffix = lit "name"
    · -- no name came before
      rw [if_pos hname] at honce ⊢
      have hnil : givenTo us i (lit "name") = [] := by
        rw [List.length_append, List.length_singleton] at honce
        exact List.length_eq_zero_iff.mp (by omega)
      have hnone := congrArg StatsName.xname (hfresh hnil)
      have hdup := hcopied u (by simp) hname.2
      refine ⟨?_, by simp⟩
      rw [forSlot_append, if_pos hname.1, BlockStats.updateAll, List.foldl_append, List.foldl_cons,
        List.foldl_nil, BlockStats.update, blockinfoParseField, if_pos hname.2, slotName,
        givenTo_append, if_pos hname, hnil]
      exact label_setup hnone hdup
    · rw [if_neg hname, List.append_nil]
      have hsame : (BlockStats.updateAll host 0 (forSlot (us ++ [u]) i)).toStatsName =
          (BlockStats.updateAll host 0 (forSlot us i)).toStatsName := by
        rw [forSlot_append]
        by_cases hslot : u.slot = i
        · rw [if_pos hslot, BlockStats.updateAll, List.foldl_append, List.foldl_cons, List.foldl_nil,
            label_update host _ fun hsuffix => hname ⟨hslot, hsuffix⟩]
          rfl
        · rw [if_neg hslot]
      rw [hsame, slotName, givenTo_append, if_neg hname, List.append_nil]
      exact ⟨hlabel, hfresh⟩

/-! ### All updates of the table -/

theorem StatsInfo.items_modifyItem {S : Type} {cap : ℕ} (x : StatsInfo S cap) (i : ℕ) (f : S → S) :
    (x.modifyItem i f).nstats = x.nstats ∧ (x.modifyItem i f).items = x.items.modify i f := by
  obtain ⟨n, xs, st, hst⟩ := x
  cases xs <;> simp [modifyItem, items]

/-- An update of one entry. -/
theorem StatsInfo.Agrees.modifyItem {S : Type} {cap n : ℕ} {x : StatsInfo S cap} {ref : ℕ → S}
    (h : x.Agrees n ref) (i : ℕ) (f : S → S) :
    (x.modifyItem i f).Agrees n (Function.update ref i (f (ref i))) := by
  obtain ⟨hn, hitems⟩ := h
  obtain ⟨hn', hitems'⟩ := x.items_modifyItem i f
  refine ⟨hn'.trans hn, fun N hN => ?_⟩
  rw [hitems', List.getElem?_modify, hitems N hN, Option.map_eq_map, Option.map_some]
  by_cases h : i = N
  · subst h
    simp
  · rw [if_neg h, Function.update_of_ne (Ne.symm h)]

/-- **Each slot gets its updates**, in their order. -/
theorem agrees_updates {host : Host δ} {block : BlockInfo} {n : ℕ} {ref : ℕ → BlockStats}
    (h : block.Agrees n ref) (us : List SlotUpdate) :
    (us.foldl (BlockInfo.update host) block).Agrees n
      fun i => BlockStats.updateAll host (ref i) (forSlot us i) := by
  induction us generalizing block ref with
  | nil => exact h
  | cons u us ih =>
    have hslots : (fun i => BlockStats.updateAll host (ref i) (forSlot (u :: us) i)) = fun i =>
        BlockStats.updateAll host (Function.update ref u.slot ((ref u.slot).update host u) i)
          (forSlot us i) := by
      funext i
      by_cases hslot : u.slot = i
      · subst hslot
        simp [forSlot, BlockStats.updateAll]
      · simp [forSlot, hslot, Function.update_of_ne (Ne.symm hslot)]
    rw [hslots]
    exact ih (h.modifyItem u.slot fun stats => stats.update host u)

theorem StatsInfo.Agrees.entries_eq {S : Type} {cap n : ℕ} {x : StatsInfo S cap} {ref : ℕ → S}
    (h : x.Agrees n ref) : x.Fits ∧ x.entries = (List.range n).map ref := by
  obtain ⟨hn, hitems⟩ := h
  have hfits : x.Fits := by
    by_contra hlt
    rw [Fits, hn, not_le] at hlt
    have hlast := hitems _ hlt
    rw [List.getElem?_eq_none le_rfl] at hlast
    cases hlast
  refine ⟨hfits, List.ext_getElem? fun N => ?_⟩
  rw [entries, hn, List.getElem?_take, List.getElem?_map]
  by_cases hN : N < n
  · rw [if_pos hN, hitems N hN, List.getElem?_range hN, Option.map_some]
  · rw [if_neg hN, List.getElem?_eq_none (by simpa using hN), Option.map_none]

/-! ### The text -/

/-- The text of one counter. -/
def counterText (x : String × UInt64) : Bytes := lit " \"" ++ lit x.1 ++ lit "\": " ++ decimal x.2.toNat

theorem counters_intercalate (xs : List (String × UInt64)) :
    counters xs = [comma].intercalate (xs.map counterText) := by
  induction xs with
  | nil => rfl
  | cons x xs ih =>
    cases xs with
    | nil => simp [counters, counterText]
    | cons y xs =>
      have hcomma : lit "," = [comma] := rfl
      rw [counters, ih, hcomma]
      simp [List.intercalate_cons_cons, counterText]

/-- A loop that puts a comma after every entry but the last. -/
theorem zipIdx_intercalate {α : Type} (text : α → Bytes) (xs : List α) (k : ℕ) :
    ((xs.zipIdx k).flatMap fun p => text p.1 ++ separator p.2 (k + xs.length)) =
      [comma].intercalate (xs.map text) := by
  induction xs generalizing k with
  | nil => rfl
  | cons x xs ih =>
    have hrest := ih (k + 1)
    have hlen : k + 1 + xs.length = k + (x :: xs).length := by
      rw [List.length_cons]
      omega
    rw [hlen] at hrest
    rw [List.zipIdx_cons, List.flatMap_cons, hrest]
    cases xs with
    | nil => simp [separator]
    | cons y xs =>
      have hmore : k ≠ k + (x :: y :: xs).length - 1 := by
        simp only [List.length_cons]
        omega
      have hcomma : lit "," = [comma] := rfl
      rw [separator, if_neg hmore, hcomma]
      simp [List.intercalate_cons_cons]

theorem blockPrintJson_eq {block : BlockInfo} (hfits : block.Fits) :
    blockPrintJson block =
      lit "\"block\": \x7b" ++ [comma].intercalate (block.entries.map blockEntry) ++ lit " \x7d" := by
  have hentries := zipIdx_intercalate blockEntry block.entries 0
  rw [Nat.zero_add, hfits.length_entries] at hentries
  rw [blockPrintJson, StatsInfo.printEntries, ← hentries]
  rfl

/-! ### The reading -/

/-- The members of a block entry. -/
def statsMember (stats : BlockStats) : Bytes × Tree :=
  (stats.label, .object ((blockCounters stats).map fun x => (lit x.1, .primitive (decimal x.2.toNat))))

/-- A member whose value is an object, between its braces. -/
theorem spaced_objectMember {k open_ body close : Bytes} {ms : List (Bytes × Tree)}
    (hopen : Spaced [.string k, .mark colon, .mark braceOpen] open_)
    (hbody : Spaced (Tree.commas (ms.map memberText)) body) (hclose : Spaced [.mark braceClose] close) :
    Spaced (memberText (k, .object ms)) (open_ ++ body ++ close) := by
  have hall := (hopen.append hbody).append hclose
  simpa [memberText, Tree.lexemes, memberLexemes_eq] using hall

/-- The text ` "key": `. -/
theorem spaced_key {w k v : Bytes} {ls : List Lexeme} (hw : Json.Ws w)
    (hv : Spaced ls v) : Spaced (.string k :: .mark colon :: ls)
      (w ++ lit "\"" ++ k ++ lit "\": " ++ v) := by
  have hcolon := Spaced.cons (w := []) (l := .mark colon) (by decide) (hv.pad (w := [0x20]) (by decide))
  have hkey := Spaced.cons (l := .string k) hw hcolon
  have hquote : lit "\"" = [quote] := rfl
  have hend : lit "\": " = [quote, colon, 0x20] := rfl
  rw [hquote, hend]
  simpa [Lexeme.text] using hkey

/-- The text ` "key": ` and an opening brace. -/
theorem spaced_open {w k : Bytes} (hw : Json.Ws w) :
    Spaced [.string k, .mark colon, .mark braceOpen] (w ++ lit "\"" ++ k ++ lit "\": \x7b") := by
  have hkey := spaced_key (k := k) hw (spaced_compact [.mark braceOpen])
  have hsplit : lit "\": \x7b" = lit "\": " ++ [braceOpen] := rfl
  rw [hsplit, ← List.append_assoc]
  exact hkey

theorem spaced_counter (x : String × UInt64) :
    Spaced (memberText (lit x.1, .primitive (decimal x.2.toNat))) (counterText x) := by
  have hvalue : Spaced [.primitive (decimal x.2.toNat)] (decimal x.2.toNat) := by
    simpa [Lexeme.text] using spaced_compact [.primitive (decimal x.2.toNat)]
  exact spaced_key (w := [0x20]) (by decide) hvalue

theorem spaced_blockEntry (stats : BlockStats) :
    Spaced (memberText (statsMember stats)) (blockEntry stats) := by
  have hbody := spaced_commas fun x (_ : x ∈ blockCounters stats) => spaced_counter x
  have hclose : Spaced [.mark braceClose] (lit "  \x7d") :=
    (spaced_compact [.mark braceClose]).pad (w := [0x20, 0x20]) (by decide)
  rw [← counters_intercalate, ← Function.comp_def, ← List.map_map] at hbody
  exact spaced_objectMember (spaced_open (w := [0x20]) (by decide)) hbody hclose

theorem spaced_block {block : BlockInfo} (hfits : block.Fits) :
    Spaced (memberText (lit "block", .object (block.entries.map statsMember))) (blockPrintJson block) := by
  have hbody := spaced_commas fun stats (_ : stats ∈ block.entries) => spaced_blockEntry stats
  have hclose : Spaced [.mark braceClose] (lit " \x7d") :=
    (spaced_compact [.mark braceClose]).pad (w := [0x20]) (by decide)
  rw [← Function.comp_def, ← List.map_map] at hbody
  rw [blockPrintJson_eq hfits]
  exact spaced_objectMember (spaced_open (w := []) (by decide)) hbody hclose

theorem allMembers_iff {P Q : Bytes → Prop} {ms : List (Bytes × Tree)} :
    Tree.AllMembers P Q ms ↔ ∀ m ∈ ms, P m.1 ∧ m.2.All P Q := by
  induction ms with
  | nil => simp [Tree.AllMembers]
  | cons m ms ih => simp [Tree.AllMembers, ih, and_assoc]

/-- The keys and numbers of an entry are read, and so is its name if it has no quotes. -/
theorem readable_statsMember {stats : BlockStats} (hlabel : IsBody stats.label) :
    IsBody (statsMember stats).1 ∧ (statsMember stats).2.Readable := by
  refine ⟨hlabel, allMembers_iff.mpr ?_⟩
  intro m hm
  obtain ⟨x, hx, rfl⟩ := List.mem_map.mp hm
  refine ⟨isBody_chars (Json.chars_of_plain (plainKeys_block stats x hx)), ?_⟩
  exact Tree.primitive_of_scalar (.inr (Json.number_decimal _))

/-- **The text of a table** reads as its entries, and as nothing else. -/
theorem membersText_block {block : BlockInfo} (hfits : block.Fits)
    (hlabels : ∀ stats ∈ block.entries, IsBody stats.label) :
    MembersText [(lit "block", .object (block.entries.map statsMember))] (blockPrintJson block) := by
  constructor
  · refine ⟨isBody_plain (by decide), allMembers_iff.mpr ?_, trivial⟩
    intro m hm
    obtain ⟨stats, hstats, rfl⟩ := List.mem_map.mp hm
    exact readable_statsMember (hlabels stats hstats)
  · have hspaced := spaced_block hfits
    simpa [Tree.commas, memberLexemes_eq] using hspaced

/-! ### The round trip -/

/-- A slot after its updates, as a member. -/
theorem statsMember_updateAll {host : Host δ} {us : List SlotUpdate} {i : ℕ}
    (honce : (givenTo us i (lit "name")).length ≤ 1)
    (hcopied : ∀ u ∈ us, u.suffix = lit "name" → host.strdup (u.item.value.s host) = true) :
    statsMember (BlockStats.updateAll host 0 (forSlot us i)) = slotMember host us i := by
  rw [statsMember, (label_updateAll honce hcopied).1, blockCounters_updateAll, slotMember, List.map_map]
  rfl

/-- A name that was given, or none. -/
theorem slotName_induction {host : Host δ} {us : List SlotUpdate} {P : Bytes → Prop} (hnil : P [])
    (h : ∀ u ∈ us, u.suffix = lit "name" → P (u.item.value.s host)) (i : ℕ) :
    P (slotName host us i) := by
  rw [slotName]
  cases hhead : (givenTo us i (lit "name")).head? with
  | none => exact hnil
  | some u =>
    have hu := List.mem_of_mem_head? hhead
    simp only [givenTo, List.mem_filter, decide_eq_true_eq] at hu
    exact h u hu.1 hu.2.2

/-- **The statistics of blocks survive**: after any updates the text reads as one member whose
object has, in their order, the last values given to each slot. -/
theorem block_round_trip (host : Host δ) (block : BlockInfo) (us : List SlotUpdate)
    (hblock : block.Cleared) (hus : SlotUpdates host block.nstats us) :
    (∀ ms, MembersText ms (blockPrintJson (us.foldl (BlockInfo.update host) block)) ↔
      ms = [(lit "block", .object ((List.range block.nstats).map (slotMember host us)))]) ∧
    ((∀ u ∈ us, u.suffix = lit "name" →
        ∃ cs : List Char, u.item.value.s host = cs.flatMap String.utf8EncodeChar) →
      Json.Derives .members (blockPrintJson (us.foldl (BlockInfo.update host) block))) := by
  have hzero : block.Agrees block.nstats fun _ => 0 := ⟨rfl, hblock⟩
  obtain ⟨hfits, hentries⟩ := (@agrees_updates δ host block _ _ hzero us).entries_eq
  generalize us.foldl (BlockInfo.update host) block = after at hfits hentries ⊢
  have hlabels : ∀ {P : Bytes → Prop}, P [] → (∀ u ∈ us, u.suffix = lit "name" →
      P (u.item.value.s host)) → ∀ stats ∈ after.entries, P stats.label := by
    intro P hnil hnames stats hstats
    rw [hentries] at hstats
    obtain ⟨i, -, rfl⟩ := List.mem_map.mp hstats
    rw [(label_updateAll (hus.once i) hus.copied).1]
    exact slotName_induction hnil hnames i
  constructor
  · have hnames : ∀ u ∈ us, u.suffix = lit "name" → IsBody (u.item.value.s host) := by
      intro u hu hname
      apply isBody_plain
      intro b hb
      obtain ⟨hlow, hquote, hback⟩ := hus.plain u hu hname b hb
      refine ⟨?_, hquote, hback⟩
      rintro rfl
      exact absurd hlow (by decide)
    have htext := membersText_block hfits (hlabels (isBody_plain (by simp)) hnames)
    have hmembers : after.entries.map statsMember =
        (List.range block.nstats).map (slotMember host us) := by
      rw [hentries, List.map_map]
      apply List.map_congr_left
      intro i _
      exact statsMember_updateAll (hus.once i) hus.copied
    rw [hmembers] at htext
    intro ms
    constructor
    · intro hms
      exact hms.unique htext
    · rintro rfl
      exact htext
  · intro hutf
    refine derives_block hfits (hlabels .nil fun u hu hname => ?_)
    obtain ⟨cs, hcs⟩ := hutf u hu hname
    have hplain := hus.plain u hu hname
    rw [hcs] at hplain ⊢
    exact Json.chars_of_utf8 hplain

/-! ### One table -/

/-- Two slots in a table that is inline. -/
private def twoBlocks : BlockInfo := { (StatsInfo.init : BlockInfo) with nstats := 2 }

/-- A host with one string in its memory, too long for the inline buffer. -/
private def longNameHost : Host Unit where
  calloc _ _ := true
  strdup _ := true
  uuidString _ := none
  bigEndian := false
  string _ := List.replicate 128 0x61

private def twoUpdates : List SlotUpdate :=
  [⟨1, lit "name", ⟨lit "block.1.name", ⟨4096⟩⟩⟩, ⟨0, lit "rd.reqs", ⟨lit "block.0.rd.reqs", ⟨7⟩⟩⟩]

theorem block_round_trip_two :
    (∀ ms, MembersText ms (blockPrintJson (twoUpdates.foldl (BlockInfo.update longNameHost) twoBlocks)) ↔
      ms = [(lit "block", .object ((List.range 2).map (slotMember longNameHost twoUpdates)))]) ∧
    ((∀ u ∈ twoUpdates, u.suffix = lit "name" →
        ∃ cs : List Char, u.item.value.s longNameHost = cs.flatMap String.utf8EncodeChar) →
      Json.Derives .members
        (blockPrintJson (twoUpdates.foldl (BlockInfo.update longNameHost) twoBlocks))) := by
  have hcleared : twoBlocks.Cleared := by
    intro N hN
    exact List.getElem?_replicate_of_lt (lt_of_lt_of_le hN (by decide))
  refine block_round_trip longNameHost twoBlocks twoUpdates hcleared ⟨by decide, ?_, ?_, ?_⟩
  · intro i
    have hother : lit "rd.reqs" ≠ lit "name" := by decide
    by_cases hi : 1 = i <;> simp [givenTo, twoUpdates, hi, hother]
  · intro u _ _ b hb
    obtain rfl := List.eq_of_mem_replicate hb
    decide
  · intro u _ _
    rfl

end Vmon
