import Vmon.VmInfo.Parse

/-!
# The order of the parameters

Each of the two passes of `vminfo_parse` is a fold over the parameters, and parameters with distinct
names write to distinct places. So the order is without effect (`vminfo_parse_perm`).

## Main results

* `foldl_perm` — a fold over distinct names, by the swap of two of its steps.
* `vminfo_parse_perm` — the law.
-/

namespace Vmon

variable {δ : Type}

section Swap

variable {x y : TypedParameter}

/-- One parameter sets the counts that have its name. -/
theorem setupItem_eq (vm : VmInfo) (item : TypedParameter) :
    setupItem vm item = { vm with
      block := { vm.block with
        nstats := if item.field = lit "block.count" then item.value.ul.toNat else vm.block.nstats }
      iface := { vm.iface with
        nstats := if item.field = lit "net.count" then item.value.ul.toNat else vm.iface.nstats }
      vcpu := { vm.vcpu with
        nstats := if item.field = lit "vcpu.maximum" then item.value.ul.toNat else vm.vcpu.nstats
        current :=
          if item.field = lit "vcpu.current" then item.value.ul.toNat else vm.vcpu.current } } := by
  have hne : lit "vcpu.current" ≠ lit "vcpu.maximum" := by decide
  by_cases hcurrent : item.field = lit "vcpu.current"
  · have hmaximum : item.field ≠ lit "vcpu.maximum" := fun h => hne (hcurrent.symm.trans h)
    simp only [setupItem, hcurrent, hne, if_true, if_false]
    split_ifs <;> rfl
  · simp only [setupItem, hcurrent, if_false]
    split_ifs <;> rfl

/-- Of two parameters with distinct names one at most sets the place of the name `f`. -/
theorem ite_comm_of_ne {α : Type} (h : x.field ≠ y.field) (f : Bytes) (a b c : α) :
    (if y.field = f then b else if x.field = f then a else c) =
      if x.field = f then a else if y.field = f then b else c := by
  by_cases hy : y.field = f
  · have hx : x.field ≠ f := fun hx => h (hx.trans hy.symm)
    simp only [hy, hx, if_true, if_false]
  · simp only [hy, if_false]

/-- Two counts set in either order. -/
theorem setupItem_comm (h : x.field ≠ y.field) (vm : VmInfo) :
    setupItem (setupItem vm x) y = setupItem (setupItem vm y) x := by
  simp only [setupItem_eq, ite_comm_of_ne h]

theorem pcpuinfoParse_comm (h : x.field ≠ y.field) (pcpu : PCpuInfo) :
    (pcpuinfoParse (pcpuinfoParse pcpu x).2 y).2 = (pcpuinfoParse (pcpuinfoParse pcpu y).2 x).2 := by
  ext <;> simp only [pcpuinfoParse_time, pcpuinfoParse_user, pcpuinfoParse_system, ite_comm_of_ne h]

theorem ballooninfoParse_comm (h : x.field ≠ y.field) (balloon : BalloonInfo) :
    (ballooninfoParse (ballooninfoParse balloon x).2 y).2 =
      (ballooninfoParse (ballooninfoParse balloon y).2 x).2 := by
  ext <;> simp only [ballooninfoParse_current, ballooninfoParse_maximum, ite_comm_of_ne h]

end Swap

section Perm

variable {params params' : List TypedParameter}

/-- **A fold over distinct names** does not depend on their order, where two parameters with
distinct names may be swapped. -/
theorem foldl_perm {σ : Type} (step : σ → TypedParameter → σ)
    (hd : (params.map TypedParameter.field).Nodup) (hperm : params.Perm params')
    (hcomm : ∀ (x y : TypedParameter), x.field ≠ y.field → ∀ s,
      step (step s x) y = step (step s y) x) (s : σ) :
    params.foldl step s = params'.foldl step s := by
  apply hperm.foldl_eq'
  intro x hx y hy s
  by_cases hxy : x.field = y.field
  · rw [List.inj_on_of_nodup_map hd hx hy hxy]
  · exact hcomm x y hxy s

variable {host : Host δ} {record record' : StatsRecord δ}

/-- The first pass. -/
theorem vminfoSetup_perm (hd : (record.params.map TypedParameter.field).Nodup)
    (hperm : record.params.Perm record'.params) (vm : VmInfo) :
    vminfoSetup host vm record = vminfoSetup host vm record' := by
  have hcounts := foldl_perm setupItem hd hperm (fun _ _ h vm => setupItem_comm h vm) vm
  simp only [vminfoSetup, hcounts]

/-- The second pass. -/
theorem parseItems_perm (hd : (params.map TypedParameter.field).Nodup)
    (hperm : params.Perm params') (vm : VmInfo) :
    parseItems host vm params = parseItems host vm params' := by
  have hpcpu := foldl_perm (fun pcpu item => (pcpuinfoParse pcpu item).2) hd hperm
    (fun _ _ h pcpu => pcpuinfoParse_comm h pcpu) vm.pcpu
  have hballoon := foldl_perm (fun balloon item => (ballooninfoParse balloon item).2) hd hperm
    (fun _ _ h balloon => ballooninfoParse_comm h balloon) vm.balloon
  rw [parseItems_eq, parseItems_eq, hpcpu, hballoon]

end Perm

/-- **The order of the parameters is without effect**: records with the same parameters in any
order, no name given twice, give the same code and the same statistics, where the domains have the
same uuid and the allocations end alike. -/
theorem vminfo_parse_perm (host : Host δ) (vm : VmInfo) {record record' : StatsRecord δ}
    (hd : (record.params.map TypedParameter.field).Nodup)
    (hperm : record.params.Perm record'.params)
    (huuid : host.uuidString record.dom = host.uuidString record'.dom) :
    vminfoParse host vm record = vminfoParse host vm record' := by
  rw [vminfoParse, vminfoParse, vminfoSetup_perm hd hperm, huuid]
  split
  next err vm' hsetup =>
  split
  · rfl
  · cases host.uuidString record'.dom with
    | none => rfl
    | some uuid => exact parseItems_perm hd hperm _

/-- A host where everything succeeds. -/
private def host₅ : Host Unit :=
  { calloc := fun _ _ => true, strdup := fun _ => true, uuidString := fun _ => some (lit "vm"),
    bigEndian := false, string := fun _ => [] }

/-- The count of the vcpus after what it announces, and before. -/
theorem vminfo_parse_perm_count :
    vminfoParse host₅ vminfoInit ⟨(), [⟨lit "vcpu.0.time", ⟨7⟩⟩, ⟨lit "vcpu.maximum", ⟨1⟩⟩]⟩ =
      vminfoParse host₅ vminfoInit ⟨(), [⟨lit "vcpu.maximum", ⟨1⟩⟩, ⟨lit "vcpu.0.time", ⟨7⟩⟩]⟩ :=
  vminfo_parse_perm host₅ vminfoInit (by decide) (by decide) rfl

end Vmon
