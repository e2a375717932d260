import Vmon.VmInfo.Order

/-!
# Values and their tags

A typed parameter has a tag that says which member of its value is set. `vminfo_parse` never looks
at the tag: it takes the member by the name, and for every number that is `ul`, all eight bytes. So
where libvirt gives an `int` or an `unsigned int`, the four bytes beside it become part of the
number.

`tagged_read_iff` says on which records this goes unnoticed: those where the last parameter of each
name that is read has a tag for all eight bytes.

## Main definitions

* `ParamType`, `TaggedParameter`, `TaggedRecord` — parameters with their tags.
* `SameMember`, `SameTagged` — equal up to the bytes that no tag selects.
* `countPlaces`, `statPlaces` — the names that are read, and what is set from them.
* `ReadsThroughTags` — the promise.
* `LastWide` — the last parameter of a name has a tag for all eight bytes.
-/

namespace Vmon

variable {δ : Type}

/-- The tag of a typed parameter. -/
inductive ParamType
  | int
  | uint
  | llong
  | ullong
  | string
  deriving DecidableEq

/-- The member that the tag selects has all eight bytes of the value. -/
def ParamType.wide : ParamType → Bool
  | .int | .uint => false
  | .llong | .ullong | .string => true

structure TaggedParameter extends TypedParameter where
  type : ParamType
  deriving DecidableEq

structure TaggedRecord (δ : Type) where
  dom : δ
  params : List TaggedParameter

/-- What the parser looks at. -/
def TaggedRecord.untag (record : TaggedRecord δ) : StatsRecord δ :=
  { dom := record.dom, params := record.params.map TaggedParameter.toTypedParameter }

/-- Member `ui`: the first four of the eight bytes. -/
def TypedValue.ui (host : Host δ) (v : TypedValue) : UInt32 :=
  if host.bigEndian then (v.word >>> 32).toUInt32 else v.word.toUInt32

/-- **The same name and tag, and the same member**; the bytes that the tag does not select may
differ. -/
structure SameMember (host : Host δ) (p p' : TaggedParameter) : Prop where
  field : p.field = p'.field
  type : p.type = p'.type
  wide : p.type.wide = true → p.value = p'.value
  narrow : p.type.wide = false → p.value.ui host = p'.value.ui host

structure SameTagged (host : Host δ) (record record' : TaggedRecord δ) : Prop where
  dom : record.dom = record'.dom
  params : List.Forall₂ (SameMember host) record.params record'.params

/-! ### What is read -/

/-- The parameter that a fold over the parameters takes last for a name. -/
def TaggedRecord.last (record : TaggedRecord δ) (name : Bytes) : Option TaggedParameter :=
  record.params.reverse.find? fun p => p.field = name

/-- The number that is read under a name, if one is. -/
def lastUl (params : List TypedParameter) (name : Bytes) : Option UInt64 :=
  (params.reverse.find? fun p => p.field = name).map fun p => p.value.ul

/-- The counts, by the names that they are read from. -/
def countPlaces : List (Bytes × (VmInfo → ℕ)) :=
  [(lit "block.count", fun vm => vm.block.nstats), (lit "net.count", fun vm => vm.iface.nstats),
    (lit "vcpu.current", fun vm => vm.vcpu.current), (lit "vcpu.maximum", fun vm => vm.vcpu.nstats)]

/-- The statistics that are not indexed, by the names that they are read from. -/
def statPlaces : List (Bytes × (VmInfo → UInt64)) :=
  [(lit "cpu.time", fun vm => vm.pcpu.time), (lit "cpu.user", fun vm => vm.pcpu.user),
    (lit "cpu.system", fun vm => vm.pcpu.system),
    (lit "balloon.current", fun vm => vm.balloon.current),
    (lit "balloon.maximum", fun vm => vm.balloon.maximum)]

/-- **The promise** for a record: nothing but the selected members has an effect, and a count that
is an `unsigned int` is that number. -/
structure ReadsThroughTags (host : Host δ) (vm : VmInfo) (record : TaggedRecord δ) : Prop where
  same : ∀ record', SameTagged host record record' →
    vminfoParse host vm record.untag = vminfoParse host vm record'.untag
  counts : ∀ place ∈ countPlaces, ∀ p, record.last place.1 = some p → p.type = .uint →
    place.2 (vminfoParse host vm record.untag).2 = (p.value.ui host).toNat

/-! ### When it is kept -/

/-- The last parameter of the name, if there is one, has a tag for all eight bytes. -/
def LastWide (record : TaggedRecord δ) (name : Bytes) : Prop :=
  ∀ p, record.last name = some p → p.type.wide = true

/-- The count that a record leaves, or the one that was there. -/
def lastCount (params : List TypedParameter) (name : Bytes) (old : ℕ) : ℕ :=
  ((lastUl params name).map UInt64.toNat).getD old

/-- The allocations that the counts ask for succeed, and the domain has a uuid. -/
structure Host.Completes (host : Host δ) (vm : VmInfo) (record : StatsRecord δ) : Prop where
  vcpu : vcpuStatsNum < lastCount record.params (lit "vcpu.maximum") vm.vcpu.nstats →
    host.calloc (lastCount record.params (lit "vcpu.maximum") vm.vcpu.nstats) vcpuInfoSize = true
  block : blockStatsNum < lastCount record.params (lit "block.count") vm.block.nstats →
    host.calloc (lastCount record.params (lit "block.count") vm.block.nstats) blockStatsSize = true
  iface : ifaceStatsNum < lastCount record.params (lit "net.count") vm.iface.nstats →
    host.calloc (lastCount record.params (lit "net.count") vm.iface.nstats) ifaceStatsSize = true
  uuid : (host.uuidString record.dom).isSome = true

section Folds

variable {params : List TypedParameter}

theorem lastUl_append (params : List TypedParameter) (p : TypedParameter) (name : Bytes) :
    lastUl (params ++ [p]) name = if p.field = name then some p.value.ul else lastUl params name := by
  by_cases h : p.field = name <;> simp [lastUl, h]

theorem lastUl_getD_append (params : List TypedParameter) (p : TypedParameter) (name : Bytes)
    (old : UInt64) :
    (lastUl (params ++ [p]) name).getD old =
      if p.field = name then p.value.ul else (lastUl params name).getD old := by
  rw [lastUl_append]
  split <;> rfl

theorem lastCount_append (params : List TypedParameter) (p : TypedParameter) (name : Bytes)
    (old : ℕ) :
    lastCount (params ++ [p]) name old =
      if p.field = name then p.value.ul.toNat else lastCount params name old := by
  rw [lastCount, lastUl_append]
  split <;> rfl

/-- **The loop of the first pass** leaves the counts that are given last. -/
theorem foldl_setupItem_eq (params : List TypedParameter) (vm : VmInfo) :
    params.foldl setupItem vm = { vm with
      block := { vm.block with nstats := lastCount params (lit "block.count") vm.block.nstats }
      iface := { vm.iface with nstats := lastCount params (lit "net.count") vm.iface.nstats }
      vcpu := { vm.vcpu with
        nstats := lastCount params (lit "vcpu.maximum") vm.vcpu.nstats
        current := lastCount params (lit "vcpu.current") vm.vcpu.current } } := by
  induction params using List.reverseRecOn with
  | nil => rfl
  | append_singleton params p ih =>
    rw [List.foldl_append, List.foldl_cons, List.foldl_nil, ih, setupItem_eq]
    simp only [lastCount_append]

/-- **The second pass** leaves the statistics that are given last. -/
theorem foldl_pcpuinfoParse_eq (params : List TypedParameter) (pcpu : PCpuInfo) :
    params.foldl (fun pcpu item => (pcpuinfoParse pcpu item).2) pcpu =
      { time := (lastUl params (lit "cpu.time")).getD pcpu.time
        user := (lastUl params (lit "cpu.user")).getD pcpu.user
        system := (lastUl params (lit "cpu.system")).getD pcpu.system } := by
  induction params using List.reverseRecOn with
  | nil => rfl
  | append_singleton params p ih =>
    rw [List.foldl_append, List.foldl_cons, List.foldl_nil, ih]
    ext : 1 <;>
      simp only [pcpuinfoParse_time, pcpuinfoParse_user, pcpuinfoParse_system, lastUl_getD_append]

theorem foldl_ballooninfoParse_eq (params : List TypedParameter) (balloon : BalloonInfo) :
    params.foldl (fun balloon item => (ballooninfoParse balloon item).2) balloon =
      { current := (lastUl params (lit "balloon.current")).getD balloon.current
        maximum := (lastUl params (lit "balloon.maximum")).getD balloon.maximum } := by
  induction params using List.reverseRecOn with
  | nil => rfl
  | append_singleton params p ih =>
    rw [List.foldl_append, List.foldl_cons, List.foldl_nil, ih]
    ext : 1 <;> simp only [ballooninfoParse_current, ballooninfoParse_maximum, lastUl_getD_append]

end Folds

/-! ### The two passes -/

section Passes

variable {host : Host δ} {vm : VmInfo} {record record' : StatsRecord δ}

theorem StatsInfo.allocXstats_eq_true {S : Type} {cap : ℕ} [Zero S] (x : StatsInfo S cap)
    (host : Host δ) (itemsize statsize : ℕ) :
    (x.allocXstats host itemsize statsize).1 = true ↔
      (cap < x.nstats → host.calloc x.nstats itemsize = true) := by
  unfold StatsInfo.allocXstats
  split_ifs with hcap hc
  · simp [hc]
  · simp [hcap, hc]
  · simp [hcap]

/-- What the first pass makes of the counts: it fails where an allocation does, and sets them in
any case; the other statistics it leaves. -/
theorem vminfoSetup_counts (host : Host δ) (vm : VmInfo) (record : StatsRecord δ) :
    (∀ place ∈ countPlaces,
      place.2 (vminfoSetup host vm record).2 = lastCount record.params place.1 (place.2 vm)) ∧
    (vminfoSetup host vm record).2.pcpu = vm.pcpu ∧
    (vminfoSetup host vm record).2.balloon = vm.balloon := by
  simp only [countPlaces, List.forall_mem_cons, List.not_mem_nil, false_implies, implies_true,
    and_true]
  simp only [vminfoSetup, foldl_setupItem_eq]
  split_ifs <;> simp [setupCleanup, StatsInfo.allocXstats_nstats]

/-- **When both passes are gone through.** -/
theorem completes_iff :
    host.Completes vm record ↔
      (vminfoSetup host vm record).1 = 0 ∧ (host.uuidString record.dom).isSome = true := by
  have hfold := foldl_setupItem_eq record.params vm
  have hvcpu := congrArg (fun vm : VmInfo => vm.vcpu.nstats) hfold
  have hblock := congrArg (fun vm : VmInfo => vm.block.nstats) hfold
  have hiface := congrArg (fun vm : VmInfo => vm.iface.nstats) hfold
  clear hfold
  generalize hvm : record.params.foldl setupItem vm = vm' at hvcpu hblock hiface
  have hv := vm'.vcpu.allocXstats_eq_true host vcpuInfoSize vcpuStatsSize
  have hb := vm'.block.allocXstats_eq_true host blockStatsSize blockStatsSize
  have hi := vm'.iface.allocXstats_eq_true host ifaceStatsSize ifaceStatsSize
  have hcode : (vminfoSetup host vm record).1 = 0 ↔
      (vm'.vcpu.allocXstats host vcpuInfoSize vcpuStatsSize).1 = true ∧
      (vm'.block.allocXstats host blockStatsSize blockStatsSize).1 = true ∧
      (vm'.iface.allocXstats host ifaceStatsSize ifaceStatsSize).1 = true := by
    simp only [vminfoSetup, hvm]
    split_ifs <;> simp_all
  rw [hcode, hv, hb, hi, hvcpu, hblock, hiface]
  constructor
  · rintro ⟨h1, h2, h3, h4⟩
    exact ⟨⟨h1, h2, h3⟩, h4⟩
  · rintro ⟨⟨h1, h2, h3⟩, h4⟩
    exact ⟨h1, h2, h3, h4⟩

/-- **The counts** that a record leaves. -/
theorem vminfoParse_count (host : Host δ) (vm : VmInfo) (record : StatsRecord δ)
    {place : Bytes × (VmInfo → ℕ)} (hp : place ∈ countPlaces) :
    place.2 (vminfoParse host vm record).2 = lastCount record.params place.1 (place.2 vm) := by
  have hsetup := (vminfoSetup_counts host vm record).1 place hp
  have hkeep : ∀ (vm' : VmInfo) (uuid : Bytes) (pcpu : PCpuInfo) (balloon : BalloonInfo),
      place.2 { vm' with uuid := uuid, pcpu := pcpu, balloon := balloon } = place.2 vm' := by
    intro vm' uuid pcpu balloon
    simp only [countPlaces, List.mem_cons, List.not_mem_nil, or_false] at hp
    rcases hp with rfl | rfl | rfl | rfl <;> rfl
  rw [← hsetup, vminfoParse]
  split
  next err vm' heq =>
  rw [heq]
  split
  · rfl
  · cases host.uuidString record.dom with
    | none => rfl
    | some uuid =>
      simp only [parseItems_eq]
      exact hkeep _ _ _ _

/-- **The statistics** that a record leaves. -/
theorem vminfoParse_stat (hc : host.Completes vm record) {place : Bytes × (VmInfo → UInt64)}
    (hp : place ∈ statPlaces) :
    place.2 (vminfoParse host vm record).2 = (lastUl record.params place.1).getD (place.2 vm) := by
  obtain ⟨hcode, huuid⟩ := completes_iff.mp hc
  obtain ⟨uuid, huuid⟩ := Option.isSome_iff_exists.mp huuid
  obtain ⟨-, hpcpu, hballoon⟩ := vminfoSetup_counts host vm record
  simp only [vminfoParse, hcode, huuid, parseItems_eq, foldl_pcpuinfoParse_eq,
    foldl_ballooninfoParse_eq, hpcpu, hballoon, ne_eq, not_true_eq_false, if_false]
  simp only [statPlaces, List.mem_cons, List.not_mem_nil, or_false] at hp
  rcases hp with rfl | rfl | rfl | rfl | rfl <;> rfl

/-- **What is read decides the result.** -/
theorem vminfoParse_congr (hdom : record.dom = record'.dom)
    (hcounts : ∀ place ∈ countPlaces,
      lastUl record.params place.1 = lastUl record'.params place.1)
    (hstats : host.Completes vm record → ∀ place ∈ statPlaces,
      lastUl record.params place.1 = lastUl record'.params place.1) :
    vminfoParse host vm record = vminfoParse host vm record' := by
  simp only [countPlaces, statPlaces, List.forall_mem_cons, List.not_mem_nil, false_implies,
    implies_true, and_true] at hcounts hstats
  obtain ⟨hblock, hiface, hcurrent, hvcpu⟩ := hcounts
  have hsetup : vminfoSetup host vm record = vminfoSetup host vm record' := by
    simp only [vminfoSetup, foldl_setupItem_eq, lastCount, hblock, hiface, hcurrent, hvcpu]
  by_cases hc : host.Completes vm record
  · obtain ⟨htime, huser, hsystem, hballoon, hmaximum⟩ := hstats hc
    simp only [vminfoParse, hsetup, hdom, parseItems_eq, foldl_pcpuinfoParse_eq,
      foldl_ballooninfoParse_eq, htime, huser, hsystem, hballoon, hmaximum]
  · rw [completes_iff, hsetup, hdom] at hc
    simp only [vminfoParse, hsetup, hdom]
    split
    · rfl
    · next hcode =>
      have hnone : host.uuidString record'.dom = none := by
        rw [← Option.not_isSome_iff_eq_none]
        intro hsome
        exact hc ⟨not_not.mp hcode, hsome⟩
      rw [hnone]

end Passes


/-! ### Bytes that no tag selects -/

section Tags

variable {host : Host δ} {vm : VmInfo} {record record' : TaggedRecord δ} {name : Bytes}

theorem lastUl_untag (record : TaggedRecord δ) (name : Bytes) :
    lastUl record.untag.params name = (record.last name).map fun p => p.value.ul := by
  rw [lastUl, TaggedRecord.untag, TaggedRecord.last, ← List.map_reverse, List.find?_map,
    Option.map_map]
  rfl

/-- Records with the same tags and members take the last parameter of a name at the same place. -/
theorem SameTagged.last (H : SameTagged host record record') (name : Bytes) :
    (record.last name = none ∧ record'.last name = none) ∨
      ∃ p p', record.last name = some p ∧ record'.last name = some p' ∧ SameMember host p p' := by
  have hrev : List.Forall₂ (SameMember host) record.params.reverse record'.params.reverse :=
    List.forall₂_reverse_iff.mpr H.params
  rw [TaggedRecord.last, TaggedRecord.last]
  generalize record.params.reverse = params, record'.params.reverse = params' at hrev
  induction hrev with
  | nil => exact .inl ⟨rfl, rfl⟩
  | @cons p p' ps ps' hsame _ ih =>
    by_cases hname : p.field = name
    · right
      have hname' : p'.field = name := hsame.field ▸ hname
      exact ⟨p, p', by simp [hname], by simp [hname'], hsame⟩
    · have hname' : p'.field ≠ name := hsame.field ▸ hname
      simpa [hname, hname'] using ih

/-- A name whose last parameter has a tag for all eight bytes is read alike. -/
theorem SameTagged.lastUl_eq (H : SameTagged host record record') (hw : LastWide record name) :
    lastUl record.untag.params name = lastUl record'.untag.params name := by
  rw [lastUl_untag, lastUl_untag]
  obtain ⟨h, h'⟩ | ⟨p, p', h, h', hsame⟩ := H.last name
  · rw [h, h']
  · rw [h, h', Option.map_some, Option.map_some, hsame.wide (hw p h)]

/-- A bit of the value that member `ui` does not have. -/
def strayBit (host : Host δ) : UInt64 := if host.bigEndian then 1 else 0x100000000

/-- Turn that bit in a parameter of the name whose tag does not select it. -/
def TaggedParameter.smudge (host : Host δ) (name : Bytes) (p : TaggedParameter) : TaggedParameter :=
  if p.field = name ∧ p.type.wide = false then
    { p with value := ⟨p.value.word ^^^ strayBit host⟩ } else p

def TaggedRecord.smudge (host : Host δ) (name : Bytes) (record : TaggedRecord δ) : TaggedRecord δ :=
  { record with params := record.params.map (TaggedParameter.smudge host name) }

theorem ui_stray (host : Host δ) (v : TypedValue) :
    TypedValue.ui host ⟨v.word ^^^ strayBit host⟩ = v.ui host := by
  unfold TypedValue.ui strayBit
  cases host.bigEndian with
  | true =>
    simp only [if_true]
    rw [UInt64.shiftRight_xor, UInt64.toUInt32_xor, show (1 : UInt64) >>> 32 = 0 from rfl]
    exact UInt32.xor_zero
  | false =>
    simp only [Bool.false_eq_true, if_false]
    rw [UInt64.toUInt32_xor, show (0x100000000 : UInt64).toUInt32 = 0 from rfl]
    exact UInt32.xor_zero

theorem ul_stray (host : Host δ) (v : TypedValue) :
    TypedValue.ul ⟨v.word ^^^ strayBit host⟩ ≠ v.ul := by
  intro h
  have hzero : strayBit host = 0 := by
    rw [← UInt64.xor_right_inj v.word, UInt64.xor_zero]
    exact h
  unfold strayBit at hzero
  split at hzero
  · exact absurd hzero (by decide)
  · exact absurd hzero (by decide)

theorem smudge_field (host : Host δ) (name : Bytes) (p : TaggedParameter) :
    (p.smudge host name).field = p.field := by
  unfold TaggedParameter.smudge
  split <;> rfl

theorem sameMember_smudge (host : Host δ) (name : Bytes) (p : TaggedParameter) :
    SameMember host p (p.smudge host name) := by
  unfold TaggedParameter.smudge
  split
  · next h => exact ⟨rfl, rfl, fun hw => by simp [h.2] at hw, fun _ => (ui_stray host p.value).symm⟩
  · exact ⟨rfl, rfl, fun _ => rfl, fun _ => rfl⟩

theorem sameTagged_smudge (host : Host δ) (name : Bytes) (record : TaggedRecord δ) :
    SameTagged host record (record.smudge host name) := by
  refine ⟨rfl, ?_⟩
  rw [TaggedRecord.smudge, List.forall₂_map_right_iff, List.forall₂_same]
  intro p _
  exact sameMember_smudge host name p

theorem last_smudge (host : Host δ) (name name' : Bytes) (record : TaggedRecord δ) :
    (record.smudge host name).last name' = (record.last name').map (·.smudge host name) := by
  rw [TaggedRecord.last, TaggedRecord.last, TaggedRecord.smudge, ← List.map_reverse, List.find?_map]
  simp only [Function.comp_def, smudge_field]

theorem field_last {p : TaggedParameter} (h : record.last name = some p) : p.field = name := by
  simpa using List.find?_some h

/-- Another name is read as before. -/
theorem lastUl_smudge_of_ne {name' : Bytes} (hne : name' ≠ name) :
    lastUl (record.smudge host name).untag.params name' = lastUl record.untag.params name' := by
  rw [lastUl_untag, lastUl_untag, last_smudge]
  cases h : record.last name' with
  | none => rfl
  | some p =>
    have hsame : p.smudge host name = p := by
      rw [TaggedParameter.smudge, if_neg]
      rw [field_last h]
      exact fun hc => hne hc.1
    rw [Option.map_some, hsame]

/-- **A narrow value that is read whole** is read with the bytes beside it. -/
theorem lastUl_smudge (host : Host δ) {p : TaggedParameter} (h : record.last name = some p)
    (hn : p.type.wide = false) :
    ∃ n n', lastUl record.untag.params name = some n ∧
      lastUl (record.smudge host name).untag.params name = some n' ∧ n' ≠ n := by
  have hsmudge : p.smudge host name = { p with value := ⟨p.value.word ^^^ strayBit host⟩ } :=
    if_pos ⟨field_last h, hn⟩
  refine ⟨_, _, by rw [lastUl_untag, h, Option.map_some],
    by rw [lastUl_untag, last_smudge, h, Option.map_some, Option.map_some], ?_⟩
  rw [hsmudge]
  exact ul_stray host p.value

/-- Where a statistic is read, it is still read after that. -/
theorem completes_smudge (hname : name ∉ countPlaces.map Prod.fst)
    (hc : host.Completes vm record.untag) :
    host.Completes vm (record.smudge host name).untag := by
  have hcount : ∀ place ∈ countPlaces.map Prod.fst, ∀ old : ℕ,
      lastCount (record.smudge host name).untag.params place old =
        lastCount record.untag.params place old := by
    intro place hp old
    rw [lastCount, lastCount, lastUl_smudge_of_ne]
    rintro rfl
    exact hname hp
  obtain ⟨hvcpu, hblock, hiface, huuid⟩ := hc
  constructor
  · rwa [hcount _ (by decide)]
  · rwa [hcount _ (by decide)]
  · rwa [hcount _ (by decide)]
  · exact huuid

end Tags

/-- **The tags are kept to exactly where they say eight bytes.** For either byte order, any
statistics to start from and any outcomes of the allocations: the last parameter of each count has a
tag for all eight bytes, and so has that of each other statistic that is not indexed, if the parser
gets so far as to read it. -/
theorem tagged_read_iff (host : Host δ) (vm : VmInfo) (record : TaggedRecord δ) :
    ReadsThroughTags host vm record ↔
      (∀ place ∈ countPlaces, LastWide record place.1) ∧
      (host.Completes vm record.untag → ∀ place ∈ statPlaces, LastWide record place.1) := by
  constructor
  · intro H
    constructor
    · intro place hp p hlast
      by_contra hn
      rw [Bool.not_eq_true] at hn
      obtain ⟨n, n', hn, hn', hne⟩ := lastUl_smudge host hlast hn
      have hsame := H.same _ (sameTagged_smudge host place.1 record)
      have hcount := vminfoParse_count host vm record.untag hp
      rw [hsame, vminfoParse_count host vm _ hp, lastCount, lastCount, hn, hn'] at hcount
      exact hne (UInt64.toNat_inj.mp hcount)
    · intro hc place hp p hlast
      by_contra hn
      rw [Bool.not_eq_true] at hn
      obtain ⟨n, n', hn, hn', hne⟩ := lastUl_smudge host hlast hn
      have hname : place.1 ∉ countPlaces.map Prod.fst := by
        have hapart : ∀ name ∈ statPlaces.map Prod.fst, name ∉ countPlaces.map Prod.fst := by decide
        exact hapart _ (List.mem_map_of_mem hp)
      have hsame := H.same _ (sameTagged_smudge host place.1 record)
      have hstat := vminfoParse_stat hc hp
      rw [hsame, vminfoParse_stat (completes_smudge hname hc) hp, hn, hn'] at hstat
      exact hne hstat
  · rintro ⟨hcounts, hstats⟩
    constructor
    · intro record' hsame
      apply vminfoParse_congr hsame.dom
      · intro place hp
        exact hsame.lastUl_eq (hcounts place hp)
      · intro hc place hp
        exact hsame.lastUl_eq (hstats hc place hp)
    · intro place hp p hlast huint
      have := hcounts place hp p hlast
      simp [huint, ParamType.wide] at this

/-- A host where everything succeeds. -/
private def host₆ : Host Unit :=
  { calloc := fun _ _ => true, strdup := fun _ => true, uuidString := fun _ => some (lit "vm"),
    bigEndian := false, string := fun _ => [] }

/-- One disk, as libvirt counts it, with something in the bytes beside the count. -/
private def oneDisk (stray : UInt64) : TaggedRecord Unit :=
  { dom := (), params := [⟨⟨lit "block.count", ⟨1 + 0x100000000 * stray⟩⟩, .uint⟩] }

/-- The count of the disks is not one. -/
theorem tagged_read_fails :
    ¬∀ (host : Host Unit) (vm : VmInfo) (record : TaggedRecord Unit),
      ReadsThroughTags host vm record := by
  intro hall
  have hcount := (hall host₆ vminfoInit (oneDisk 1)).counts
    (lit "block.count", fun vm => vm.block.nstats) (by simp [countPlaces]) _ rfl rfl
  rw [vminfoParse_count host₆ vminfoInit _ (by simp [countPlaces])] at hcount
  revert hcount
  decide

end Vmon
