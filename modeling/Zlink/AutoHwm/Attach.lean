import Zlink.AutoHwm.Extension
import Mathlib.Data.List.Perm.Basic
import Mathlib.Data.List.Perm.Subperm

/-!
# Runs of plans and attachments

A registry is planned by a full replan and then extended any number of times as
pipes attach. The invariant of such a run is that the recorded plan describes
exactly the directions of the registry; from it every accepted extension agrees
with the full replan that it stands in for.
-/

namespace Zlink.AutoHwm

open Word64 WaterFill

namespace Registry

variable (registry : Registry)

theorem nodup_ids : (registry.records.map QueueRecord.queueId).Nodup := by
  rw [List.Nodup, List.pairwise_map]
  exact registry.sorted.imp fun h => UInt64.ne_of_lt h

theorem find?_eq_some_iff {id : UInt64} {record : QueueRecord} :
    registry.find? id = some record ↔ record ∈ registry.records ∧ record.queueId = id := by
  have hid : ∀ {r : QueueRecord}, registry.find? id = some r →
      r ∈ registry.records ∧ r.queueId = id := by
    intro r h
    rw [find?] at h
    exact ⟨List.mem_of_find?_eq_some h, by simpa using List.find?_some h⟩
  refine ⟨hid, ?_⟩
  rintro ⟨hmem, heq⟩
  rcases hfind : registry.find? id with - | found
  · have hnone := List.find?_eq_none.mp hfind record hmem
    simp [heq] at hnone
  · obtain ⟨hfound, hfoundId⟩ := hid hfind
    have hsame := List.inj_on_of_nodup_map registry.nodup_ids hfound hmem (hfoundId.trans heq.symm)
    rw [hsame]

theorem find?_modify (id other : UInt64)
    (f : QueueRecord → QueueRecord) (hid : ∀ r, (f r).queueId = r.queueId) :
    (registry.modify id f hid).find? other =
      (registry.find? other).map fun r => if r.queueId = id then f r else r := by
  have hpred : ((fun r : QueueRecord => r.queueId == other) ∘
      fun r => if r.queueId = id then f r else r) =
      fun r => r.queueId == other := by
    funext r
    simp only [Function.comp_apply]
    split
    · rw [hid]
    · rfl
  rw [find?, modify, mapRecords, List.find?_map, hpred]
  rfl

theorem find?_modify_self (id : UInt64)
    (f : QueueRecord → QueueRecord) (hid : ∀ r, (f r).queueId = r.queueId) :
    (registry.modify id f hid).find? id = (registry.find? id).map f := by
  rw [find?_modify]
  cases hfind : registry.find? id with
  | none => rfl
  | some r => simp [(registry.find?_eq_some_iff.mp hfind).2]

theorem find?_modify_of_ne {id other : UInt64}
    (hne : other ≠ id) (f : QueueRecord → QueueRecord) (hid : ∀ r, (f r).queueId = r.queueId) :
    (registry.modify id f hid).find? other = registry.find? other := by
  rw [find?_modify]
  cases hfind : registry.find? other with
  | none => rfl
  | some r => simp [(registry.find?_eq_some_iff.mp hfind).2, hne]

def target (id : UInt64) : Option UInt64 :=
  (registry.find? id).map QueueRecord.plannedHwm

end Registry

@[simp] theorem updateHwmTarget_plannedHwm (target : UInt64) (record : QueueRecord) :
    (record.updateHwmTarget target).plannedHwm = target := by
  simp only [QueueRecord.updateHwmTarget]
  split <;> rfl

theorem updateHwmTarget_planning (target : UInt64) (record : QueueRecord) :
    (record.updateHwmTarget target).liveApplication = record.liveApplication ∧
      ∀ profile, resolveDirection profile (record.updateHwmTarget target) =
        resolveDirection profile record := by
  simp only [QueueRecord.updateHwmTarget]
  split <;> exact ⟨rfl, fun _ => rfl⟩

variable (profile : Profile)

theorem plannedInputs_updateHwmTarget (registry : Registry) (id target : UInt64) :
    plannedInputs profile (registry.modify id (QueueRecord.updateHwmTarget target) (by simp)) =
      plannedInputs profile registry := by
  simp only [plannedInputs, Registry.modify, Registry.mapRecords, List.filterMap_map]
  apply List.filterMap_congr
  intro record _
  simp only [Function.comp_apply]
  split
  · rw [(updateHwmTarget_planning target record).1, (updateHwmTarget_planning target record).2,
      QueueRecord.updateHwmTarget_queueId]
  · rfl

theorem mem_plannedInputs (registry : Registry) (input : PlannedInput) :
    input ∈ plannedInputs profile registry ↔ ∃ record, registry.find? input.queueId = some record ∧
        record.liveApplication = true ∧ (resolveDirection profile record).planningEnabled = true ∧
        (resolveDirection profile record).role ≠ .none ∧
        input.resolved = resolveDirection profile record := by
  simp only [plannedInputs, List.mem_filterMap]
  constructor
  · rintro ⟨record, hmem, hsome⟩
    split at hsome
    case isTrue hguard =>
      cases hsome
      simp only [Bool.and_eq_true, bne_iff_ne, ne_eq] at hguard
      exact ⟨record, registry.find?_eq_some_iff.mpr ⟨hmem, rfl⟩, hguard.1.1,
        hguard.1.2, hguard.2, rfl⟩
    · cases hsome
  · rintro ⟨record, hfind, hlive, hplanning, hrole, hresolved⟩
    obtain ⟨hmem, hid⟩ := registry.find?_eq_some_iff.mp hfind
    refine ⟨record, hmem, ?_⟩
    obtain ⟨queueId, resolved⟩ := input
    simp only at hid hresolved
    simp [hlive, hplanning, hrole, hid, hresolved]

theorem plannedInputs_sorted (registry : Registry) :
    (plannedInputs profile registry).Pairwise fun i j => i.queueId < j.queueId := by
  rw [plannedInputs, List.pairwise_filterMap]
  refine registry.sorted.imp ?_
  intro r s hlt i hi j hj
  simp only at hi hj
  split at hi
  · split at hj
    · cases hi
      cases hj
      exact hlt
    · cases hj
  · cases hi

theorem plannedInputs_role {profile : Profile} {registry : Registry}
    {input : PlannedInput} (h : input ∈ plannedInputs profile registry) :
    input.resolved.role ≠ .none := by
  obtain ⟨record, -, -, -, hrole, hresolved⟩ :=
    (mem_plannedInputs profile registry input).mp h
  rwa [hresolved]

theorem publishTargets_spec (inputs : List PlannedInput)
    (plans : List SocketPlan) (registry : Registry) (context : ContextPlan)
    (total : UInt64) (hlength : inputs.length = plans.length)
    (hnodup : (inputs.map PlannedInput.queueId).Nodup) : ∃ registry' valid overflow total',
      publishTargets inputs plans registry context total = .ok (registry', { context with
          aggregateHwmValid := valid
          aggregateOverflow := overflow }, total') ∧
      (valid = true → context.aggregateHwmValid = true) ∧
      (overflow = false → context.aggregateOverflow = false) ∧
      (∀ profile, plannedInputs profile registry' = plannedInputs profile registry) ∧
      (∀ id, id ∉ inputs.map PlannedInput.queueId → registry'.find? id = registry.find? id) ∧
      (∀ (k : ℕ) input plan, inputs[k]? = some input → plans[k]? = some plan →
        registry'.target input.queueId =
          (registry.find? input.queueId).map fun _ => plan.sndhwm) := by
  induction inputs generalizing plans registry context total with
  | nil =>
    refine ⟨registry, context.aggregateHwmValid, context.aggregateOverflow,
      total, ?_, id, id, fun _ => rfl, fun _ _ => rfl, by simp⟩
    cases plans <;> rfl
  | cons input inputs ih =>
    cases plans with
    | nil => simp at hlength
    | cons plan plans =>
      rw [List.map_cons, List.nodup_cons] at hnodup
      have hhere := registry.find?_modify_self input.queueId
        (QueueRecord.updateHwmTarget plan.sndhwm) (by simp)
      set registry₁ := registry.modify input.queueId
        (QueueRecord.updateHwmTarget plan.sndhwm) (by simp) with hregistry₁
      set applied := ((registry₁.find? input.queueId).map
        QueueRecord.appliedHwm).getD 0 with happlied
      set context₁ : ContextPlan := if applied = 0 then
        { context with aggregateHwmValid := false } else context
      have hflag : context₁.aggregateOverflow = context.aggregateOverflow := by
        simp only [context₁]
        split <;> rfl
      have hvalid : context₁.aggregateHwmValid = true → context.aggregateHwmValid = true := by
        simp only [context₁]
        split <;> simp
      set bytes := if applied = 0 then plan.maximumHwmBytes else applied
        with hbytes
      have hadd := addSnapshotValue_sat total bytes context₁.aggregateOverflow
      rw [addSnapshotValue] at hadd
      set overflow₁ := context₁.aggregateOverflow ||
        overflows (total.toNat + bytes.toNat) with hoverflow₁
      obtain ⟨registry', valid, overflow, total', hrest, hrestValid,
        hrestFlag, hplanned, hframe, htargets⟩ := ih plans registry₁
          { context₁ with aggregateOverflow := overflow₁ }
          (sat (total.toNat + bytes.toNat)) (by simpa using hlength) hnodup.2
      refine ⟨registry', valid, overflow, total', ?_, ?_, ?_, ?_, ?_, ?_⟩
      · rw [publishTargets]
        simp only [← hregistry₁, ← happlied, ← hbytes]
        rw [show (if applied = 0 then
          { context with aggregateHwmValid := false } else context) =
          context₁ from rfl, hadd, ok_bind, hrest]
        simp only [context₁]
        split <;> rfl
      · intro h
        exact hvalid (hrestValid h)
      · intro h
        have hclear : overflow₁ = false := hrestFlag h
        rw [hoverflow₁, Bool.or_eq_false_iff] at hclear
        rw [← hflag]
        exact hclear.1
      · intro profile
        rw [hplanned, hregistry₁, plannedInputs_updateHwmTarget]
      · intro id hid
        rw [List.map_cons, List.mem_cons, not_or] at hid
        rw [hframe id hid.2, hregistry₁, Registry.find?_modify_of_ne registry hid.1]
      · intro k input' plan' hinput hplan
        cases k with
        | zero =>
          rw [List.getElem?_cons_zero] at hinput hplan
          cases hinput
          cases hplan
          rw [Registry.target, hframe _ hnodup.1, hhere, Option.map_map]
          congr 1
          funext r
          simp
        | succ k =>
          rw [List.getElem?_cons_succ] at hinput hplan
          have hne : input'.queueId ≠ input.queueId := fun heq =>
            hnodup.1 (heq ▸ List.mem_map_of_mem (List.mem_of_getElem? hinput))
          rw [htargets k input' plan' hinput hplan, hregistry₁,
            Registry.find?_modify_of_ne registry hne]

theorem publishLevel_spec (level maximum : UInt64) (ids : List UInt64)
    (out : Published) (hnodup : ids.Nodup) :
    ∃ out', publishLevel level maximum ids out = .ok out' ∧
      out'.maxQueueId = ids.foldl (fun id next =>
        if id < next then next else id) out.maxQueueId ∧
      (∀ profile, plannedInputs profile out'.registry = plannedInputs profile out.registry) ∧
      (∀ id, id ∉ ids → out'.registry.find? id = out.registry.find? id) ∧
      (∀ id ∈ ids, out'.registry.target id = (out.registry.find? id).map fun _ => level) := by
  induction ids generalizing out with
  | nil => exact ⟨out, rfl, rfl, fun _ => rfl, fun _ _ => rfl, by simp⟩
  | cons id ids ih =>
    rw [List.nodup_cons] at hnodup
    have hhere := out.registry.find?_modify_self id (QueueRecord.updateHwmTarget level) (by simp)
    set registry₁ := out.registry.modify id
      (QueueRecord.updateHwmTarget level) (by simp) with hregistry₁
    have hadd := addSnapshotValue_sat out.totalApplied
      (if ((registry₁.find? id).map QueueRecord.appliedHwm).getD 0 = 0 then
        maximum
      else ((registry₁.find? id).map QueueRecord.appliedHwm).getD 0)
      out.overflow
    obtain ⟨out', hrest, hmax, hplanned, hframe, htargets⟩ := ih
      { registry := registry₁
        totalApplied := _
        maxQueueId := if out.maxQueueId < id then id else out.maxQueueId
        aggregateHwmValid := out.aggregateHwmValid &&
          ((registry₁.find? id).map QueueRecord.appliedHwm).getD 0 != 0
        overflow := _ } hnodup.2
    refine ⟨out', ?_, hmax, ?_, ?_, ?_⟩
    · rw [publishLevel]
      simp only [← hregistry₁, hadd, ok_bind]
      exact hrest
    · intro profile
      rw [hplanned, hregistry₁, plannedInputs_updateHwmTarget]
    · intro other hother
      rw [List.mem_cons, not_or] at hother
      rw [hframe other hother.2, hregistry₁, Registry.find?_modify_of_ne out.registry hother.1]
    · intro other hother
      rcases List.mem_cons.mp hother with rfl | htail
      · rw [Registry.target, hframe _ hnodup.1, hhere, Option.map_map]
        congr 1
        funext r
        simp
      · have hne : other ≠ id := fun heq => hnodup.1 (heq ▸ htail)
        rw [htargets other htail, hregistry₁, Registry.find?_modify_of_ne out.registry hne]

theorem Registry.ext_records {registry registry' : Registry}
    (h : registry.records = registry'.records) : registry = registry' := by
  cases registry
  cases registry'
  cases h
  rfl

theorem Registry.modify_congr (registry : Registry) {id : UInt64}
    {f g : QueueRecord → QueueRecord} (hf : ∀ r, (f r).queueId = r.queueId)
    (hg : ∀ r, (g r).queueId = r.queueId) (h : ∀ r, registry.find? id = some r → f r = g r) :
    registry.modify id f hf = registry.modify id g hg := by
  apply Registry.ext_records
  simp only [Registry.modify, Registry.mapRecords]
  apply List.map_congr_left
  intro r hr
  split
  case isTrue hid => exact h r (registry.find?_eq_some_iff.mpr ⟨hr, hid⟩)
  · rfl

def storeOne (registry : Registry) (id : UInt64) (policy : EndpointPolicy) :
    Registry :=
  registry.modify id (fun r => if r.liveApplication then r.storePolicy policy else r)
    (queueId_storePolicy_ite policy)

theorem storePolicies_cons {registry : Registry} {policy : EndpointPolicy}
    {id : UInt64} (hid : policy.queue = some id) (policies : List EndpointPolicy) :
    storePolicies registry (policy :: policies) =
      storePolicies (storeOne registry id policy) policies := by
  simp only [storePolicies, List.foldl_cons, hid]
  rfl

theorem find?_storePolicies (registry : Registry) (policies : List EndpointPolicy)
    {id : UInt64} (h : some id ∉ policies.map EndpointPolicy.queue) :
    (storePolicies registry policies).find? id = registry.find? id := by
  induction policies generalizing registry with
  | nil => rfl
  | cons policy policies ih =>
    rw [List.map_cons, List.mem_cons, not_or] at h
    cases hqueue : policy.queue with
    | none =>
      have hskip : storePolicies registry (policy :: policies) =
          storePolicies registry policies := by
        simp only [storePolicies, List.foldl_cons, hqueue]
      rw [hskip, ih _ h.2]
    | some other =>
      have hne : id ≠ other := fun heq => h.1 (by rw [hqueue, heq])
      rw [storePolicies_cons hqueue, ih _ h.2, storeOne, Registry.find?_modify_of_ne registry hne]

theorem joinDirection_some {context : ContextPlan}
    {registry registry' : Registry} {joining joining' : Joining} {policy : EndpointPolicy}
    (h : joinDirection context registry joining policy = (registry', some joining')) : ∃ record,
      policy.queue = some record.queueId ∧ registry.find? record.queueId = some record ∧
      record.liveApplication = true ∧ context.maxPlannedQueueId < record.queueId ∧
      registry' = storeOne registry record.queueId policy ∧ (resolveDirection context.profile
        (record.storePolicy policy)).planningEnabled = true ∧ (resolveDirection context.profile
        (record.storePolicy policy)).role = context.applicationAutoRole ∧
      PlannedInput.manual ⟨record.queueId, resolveDirection context.profile
        (record.storePolicy policy)⟩ = false ∧ joining' =
        { extensions := joining.extensions ++ [record.queueId], addedSend := joining.addedSend +
            (if (resolveDirection context.profile
              (record.storePolicy policy)).writerSeen then 1 else 0)
          addedReceive := joining.addedReceive + (if (resolveDirection context.profile
              (record.storePolicy policy)).readerSeen then 1 else 0) } := by
  unfold joinDirection at h
  cases hjoinable : joinable context registry policy with
  | none =>
    rw [hjoinable] at h
    cases h
  | some record =>
    simp only [hjoinable] at h
    unfold joinable at hjoinable
    split at hjoinable
    · cases hjoinable
    case h_2 id hqueue =>
    split at hjoinable
    · cases hjoinable
    case h_2 found hfind =>
    split at hjoinable
    case isFalse => cases hjoinable
    case isTrue hguard =>
    cases hjoinable
    have hid := (registry.find?_eq_some_iff.mp hfind).2
    simp only [Bool.and_eq_true, decide_eq_true_eq] at hguard
    split at h
    · cases h
    case isFalse haccept =>
    simp only [Bool.or_eq_true, not_or, Bool.not_eq_true, Bool.not_eq_true',
      Bool.not_eq_false, bne_iff_ne, ne_eq, not_not] at haccept
    cases h
    refine ⟨record, by rw [hqueue, hid], by rw [hid]; exact hfind, hguard.1.2,
      hguard.2, ?_, haccept.1.1.1, haccept.2, ?_, rfl⟩
    · apply Registry.modify_congr
      intro r hr
      rw [hid, hfind] at hr
      cases hr
      rw [if_pos hguard.1.2]
    · simp [PlannedInput.manual, haccept.1.1.2, haccept.1.2]

theorem countInputs_cons (p : PlannedInput → Bool) (input : PlannedInput)
    (inputs : List PlannedInput) : countInputs p (input :: inputs) =
      (if p input then 1 else 0) + countInputs p inputs := by
  rw [countInputs, countInputs, List.countP_cons]
  cases p input <;> simp [UInt64.ofNat_add, UInt64.add_comm]

/-- What the loop over the attaching policies has established when it accepts
them all: the policies are stored as a full replan stores them, and each names
its own new automatic direction of the plan's role. -/
theorem joinDirections_some {context : ContextPlan}
    {registry registry' : Registry} {joining joining' : Joining}
    {policies : List EndpointPolicy}
    (hrole : context.applicationAutoRole ≠ .none)
    (hnodup : (policies.map EndpointPolicy.queue).Nodup)
    (h : joinDirections context registry joining policies = (registry', some joining')) :
    registry' = storePolicies registry policies ∧ ∃ entries : List PlannedInput,
        policies.map EndpointPolicy.queue = entries.map (fun e => some e.queueId) ∧
        (∀ e ∈ entries, e ∈ plannedInputs context.profile registry' ∧
          context.maxPlannedQueueId < e.queueId ∧
          e.resolved.role = context.applicationAutoRole ∧ e.manual = false) ∧
        joining'.extensions = joining.extensions ++ entries.map PlannedInput.queueId ∧
        joining'.addedSend = joining.addedSend +
          countInputs (fun i => i.resolved.writerSeen) entries ∧
        joining'.addedReceive = joining.addedReceive +
          countInputs (fun i => i.resolved.readerSeen) entries := by
  induction policies generalizing registry joining with
  | nil =>
    cases h
    exact ⟨rfl, [], rfl, by simp, by simp, by simp [countInputs], by simp [countInputs]⟩
  | cons policy policies ih =>
    rw [List.map_cons, List.nodup_cons] at hnodup
    rw [joinDirections] at h
    split at h
    · cases h
    case h_2 registry₁ joining₁ hjoin =>
    obtain ⟨record, hqueue, hfind, hlive, hmax, hstored, hplanning, hroleEq,
      hmanual, hjoining⟩ := joinDirection_some hjoin
    obtain ⟨hregistry, entries, hnames, hentries, hext, hsend, hreceive⟩ :=
      ih hnodup.2 h
    set resolved := resolveDirection context.profile (record.storePolicy policy) with hresolved
    have hfind' : registry'.find? record.queueId =
        some (record.storePolicy policy) := by
      rw [hregistry, find?_storePolicies _ _ (by rw [← hqueue]; exact hnodup.1),
        hstored, storeOne, Registry.find?_modify_self, hfind]
      simp [hlive]
    refine ⟨?_, ⟨record.queueId, resolved⟩ :: entries, ?_, ?_, ?_, ?_, ?_⟩
    · rw [hregistry, hstored, storePolicies_cons hqueue]
    · rw [List.map_cons, List.map_cons, hqueue, hnames]
    · intro e he
      rcases List.mem_cons.mp he with rfl | he
      · refine ⟨(mem_plannedInputs _ _ _).mpr ⟨_, hfind', ?_, hplanning, ?_,
          rfl⟩, hmax, hroleEq, hmanual⟩
        · unfold QueueRecord.storePolicy
          split <;> exact hlive
        · rw [← hresolved, hroleEq]
          exact hrole
      · exact hentries e he
    · rw [hext, hjoining, List.map_cons, List.append_assoc]
      rfl
    · rw [hsend, hjoining, countInputs_cons, UInt64.add_assoc]
    · rw [hreceive, hjoining, countInputs_cons, UInt64.add_assoc]

structure Accepted (context context' : ContextPlan)
    (registry registry' : Registry) (policies : List EndpointPolicy)
    (entries : List PlannedInput) (water : WaterLevel) : Prop where
  extensible : extensible context = true
  ne_nil : policies ≠ []
  length_le : policies.length ≤ extensionCapacity
  names : policies.map EndpointPolicy.queue = entries.map (fun e => some e.queueId)
  joined : ∀ e ∈ entries, e ∈ plannedInputs context.profile (storePolicies registry policies) ∧
      context.maxPlannedQueueId < e.queueId ∧
      e.resolved.role = context.applicationAutoRole ∧ e.manual = false
  levelled : waterLevel context (UInt64.ofNat entries.length) =
    .ok (some water)
  sendFits : context.activeSendQueueCount.toNat +
    (countInputs (fun i => i.resolved.writerSeen) entries).toNat < 2 ^ 64
  receiveFits : context.activeReceiveQueueCount.toNat +
    (countInputs (fun i => i.resolved.readerSeen) entries).toNat < 2 ^ 64
  record : ∃ totalApplied valid, context' =
    { context with
      effectiveCoreBudgetBytes := water.newBudget
      activeDirectionalQueueCount := water.newDirectionCount
      activeSendQueueCount := sat (context.activeSendQueueCount.toNat +
        (countInputs (fun i => i.resolved.writerSeen) entries).toNat)
      activeReceiveQueueCount := sat (context.activeReceiveQueueCount.toNat +
        (countInputs (fun i => i.resolved.readerSeen) entries).toNat)
      applicationAutoDirectionCount := water.newAutoCount
      maxPlannedQueueId := (entries.map PlannedInput.queueId).foldl
        (fun id next => if id < next then next else id)
        context.maxPlannedQueueId
      totalPlannedHwmBytes := water.newTotalPlanned
      totalAppliedHwmBytes := totalApplied
      aggregateHwmValid := valid }
  planned : ∀ profile, plannedInputs profile registry' =
    plannedInputs profile (storePolicies registry policies)
  kept : ∀ id, some id ∉ policies.map EndpointPolicy.queue → registry'.find? id = registry.find? id
  target : ∀ e ∈ entries, registry'.target e.queueId = some water.level

theorem extensible_role {context : ContextPlan}
    (h : extensible context = true) : context.applicationAutoRole ≠ .none := by
  simp only [extensible, Bool.and_eq_true, bne_iff_ne] at h
  exact h.1.2

theorem extendApplicationPlan_accepted {context context' : ContextPlan}
    {registry registry' : Registry} {policies : List EndpointPolicy}
    (hnodup : (policies.map EndpointPolicy.queue).Nodup)
    (h : extendApplicationPlan context registry policies = .ok (true, context', registry')) :
    ∃ entries water, Accepted context context' registry registry' policies entries water := by
  rw [extendApplicationPlan] at h
  split at h
  · cases h
  case isFalse hguard =>
  simp only [not_or, Nat.not_lt, Bool.not_eq_true', Bool.not_eq_false] at hguard
  obtain ⟨hne, hlength, hextensible⟩ := hguard
  have hrole := extensible_role hextensible
  split at h
  · cases h
  case h_2 registry₁ joining hjoin =>
  obtain ⟨hregistry, entries, hnames, hjoined, hext, hsend, hreceive⟩ :=
    joinDirections_some hrole hnodup hjoin
  rw [List.nil_append] at hext
  rw [UInt64.zero_add] at hsend hreceive
  cases hwater : waterLevel context (UInt64.ofNat joining.extensions.length) with
  | error fault =>
    rw [hwater] at h
    cases h
  | ok water? =>
  rw [hwater, ok_bind] at h
  cases water? with
  | none => cases h
  | some water =>
  simp only at h
  have hids : joining.extensions.Nodup := by
    rw [hnames] at hnodup
    have : entries.map (fun e => some e.queueId) =
        (entries.map PlannedInput.queueId).map some := by simp
    rw [this] at hnodup
    rw [hext]
    exact hnodup.of_map
  obtain ⟨out, hout, hmax, hplanned, hframe, htargets⟩ := publishLevel_spec
    water.level (profileMaximumBytes context.profile context.applicationAutoRole) joining.extensions
    { registry := registry₁
      totalApplied := context.totalAppliedHwmBytes
      maxQueueId := context.maxPlannedQueueId
      aggregateHwmValid := context.aggregateHwmValid
      overflow := false } hids
  simp only [hout, ok_bind, addSnapshotValue_sat, pure_eq_ok] at h
  split at h
  · cases h
  case isFalse hfit =>
  simp only [Bool.not_eq_true, Bool.or_eq_false_iff, overflows_eq_false_iff]
    at hfit
  cases h
  have hcount : entries.length = joining.extensions.length := by simp [hext]
  refine ⟨entries, water, ⟨hextensible, hne, hlength, hnames, ?_, ?_, ?_, ?_,
    ⟨out.totalApplied, out.aggregateHwmValid, ?_⟩, ?_, ?_, ?_⟩⟩
  · rw [← hregistry]
    exact hjoined
  · rw [hcount, hwater]
  · rw [← hsend]
    exact hfit.1.2
  · rw [← hreceive]
    exact hfit.2
  · rw [hsend, hreceive, hmax, hext]
  · intro profile
    rw [hplanned, hregistry]
  · intro id hid
    have hnot : id ∉ joining.extensions := by
      intro hmem
      rw [hext] at hmem
      obtain ⟨e, he, rfl⟩ := List.mem_map.mp hmem
      rw [hnames] at hid
      exact hid (List.mem_map_of_mem (f := fun e => some e.queueId) he)
    rw [hframe id hnot]
    simp only
    rw [hregistry, find?_storePolicies _ _ hid]
  · intro e he
    have hmem : e.queueId ∈ joining.extensions := by
      rw [hext]
      exact List.mem_map_of_mem he
    obtain ⟨record, hfind, -⟩ :=
      (mem_plannedInputs _ _ _).mp (hjoined e he).1
    rw [htargets _ hmem, hfind]
    rfl

/-- Attaching a pipe: apart from the directions that the policies name, a replan
would cover the directions it covered before. New records, the endpoint policies
of the attaching pipe and the ledgers of all queues are free to change. -/
def Attached (registry registry₁ : Registry) (policies : List EndpointPolicy) : Prop :=
  (plannedInputs profile registry₁).filter
      (fun i => some i.queueId ∉ policies.map EndpointPolicy.queue) =
    (plannedInputs profile registry).filter
      (fun i => some i.queueId ∉ policies.map EndpointPolicy.queue)

theorem eq_of_sorted {inputs inputs' : List PlannedInput}
    (h : inputs.Pairwise fun i j => i.queueId < j.queueId)
    (h' : inputs'.Pairwise fun i j => i.queueId < j.queueId)
    (hmem : ∀ i, i ∈ inputs ↔ i ∈ inputs') : inputs = inputs' := by
  have : Std.Irrefl fun i j : PlannedInput => i.queueId < j.queueId :=
    ⟨fun i => UInt64.lt_irrefl i.queueId⟩
  have : Std.Antisymm fun i j : PlannedInput => i.queueId < j.queueId :=
    ⟨fun i j hij hji => absurd (UInt64.lt_trans hij hji) (UInt64.lt_irrefl _)⟩
  exact h.eq_of_mem_iff h' hmem

theorem sorted_nodup {inputs : List PlannedInput}
    (h : inputs.Pairwise fun i j => i.queueId < j.queueId) :
    (inputs.map PlannedInput.queueId).Nodup := by
  rw [List.Nodup, List.pairwise_map]
  exact h.imp fun hlt => UInt64.ne_of_lt hlt

/-- Distinct 64-bit ids are at most `2 ^ 64` many. -/
theorem sorted_length_le {inputs : List PlannedInput}
    (h : inputs.Pairwise fun i j => i.queueId < j.queueId) :
    inputs.length ≤ 2 ^ 64 := by
  have hnodup : (inputs.map fun i => i.queueId.toNat).Nodup := by
    rw [List.Nodup, List.pairwise_map]
    exact h.imp fun hlt => Nat.ne_of_lt (UInt64.lt_iff_toNat_lt.mp hlt)
  have hsub : inputs.map (fun i => i.queueId.toNat) ⊆ List.range (2 ^ 64) := by
    intro n hn
    obtain ⟨i, -, rfl⟩ := List.mem_map.mp hn
    exact List.mem_range.mpr (toNat_lt_pow _)
  have hlength := (hnodup.subperm hsub).length_le
  rwa [List.length_map, List.length_range] at hlength

theorem le_foldl_max (ids : List UInt64) (start : UInt64) :
    start ≤ ids.foldl (fun id next => if id < next then next else id) start ∧ ∀ id ∈ ids,
        id ≤ ids.foldl (fun id next => if id < next then next else id) start := by
  induction ids generalizing start with
  | nil => simp
  | cons id ids ih =>
    rw [List.foldl_cons]
    obtain ⟨hstart, hids⟩ := ih (if start < id then id else start)
    have hstep : start ≤ (if start < id then id else start) ∧
        id ≤ (if start < id then id else start) := by
      split
      case isTrue hlt => exact ⟨UInt64.le_of_lt hlt, UInt64.le_refl _⟩
      case isFalse hge => exact ⟨UInt64.le_refl _, UInt64.not_lt.mp hge⟩
    refine ⟨UInt64.le_trans hstep.1 hstart, ?_⟩
    intro other hother
    rcases List.mem_cons.mp hother with rfl | htail
    · exact UInt64.le_trans hstep.2 hstart
    · exact hids other htail

theorem maxQueueId_eq_foldl (inputs : List PlannedInput) :
    maxQueueId inputs = (inputs.map PlannedInput.queueId).foldl
      (fun id next => if id < next then next else id) 0 := by
  rw [maxQueueId, List.foldl_map]

theorem toNat_countInputs (p : PlannedInput → Bool) {inputs : List PlannedInput}
    (h : inputs.length < 2 ^ 64) : (countInputs p inputs).toNat = inputs.countP p :=
  toNat_ofNat_of_lt (Nat.lt_of_le_of_lt List.countP_le_length h)

theorem countInputs_joined (p : PlannedInput → Bool)
    {known joined entries : List PlannedInput} (hperm : joined.Perm entries)
    (hfit : (known ++ joined).length < 2 ^ 64) :
    sat ((countInputs p known).toNat + (countInputs p entries).toNat) =
      countInputs p (known ++ joined) := by
  rw [List.length_append, hperm.length_eq] at hfit
  have hle : known.countP p + entries.countP p < 2 ^ 64 := by
    have := List.countP_le_length (p := p) (l := known)
    have := List.countP_le_length (p := p) (l := entries)
    omega
  rw [toNat_countInputs p (by omega), toNat_countInputs p (by omega),
    UInt64.ext_iff, toNat_sat_of_lt hle, countInputs, List.countP_append,
    hperm.countP_eq, toNat_ofNat_of_lt hle]

theorem maxQueueId_joined {known joined entries : List PlannedInput} (hperm : joined.Perm entries) :
    (entries.map PlannedInput.queueId).foldl
        (fun id next => if id < next then next else id) (maxQueueId known) =
      maxQueueId (known ++ joined) := by
  rw [maxQueueId_eq_foldl, maxQueueId_eq_foldl, List.map_append, List.foldl_append]
  refine (List.Perm.foldl_eq' (hperm.map _) ?_ _).symm
  intro x _ y _ z
  rw [UInt64.ext_iff]
  simp only [UInt64.lt_iff_toNat_lt, apply_ite UInt64.toNat]
  repeat' split
  all_goals omega

section Run

variable {fresh context context' : ContextPlan}
  {registry registry₁ registry' : Registry} {policies : List EndpointPolicy}
  {entries : List PlannedInput} {water : WaterLevel}

theorem Accepted.split (h : Accepted context context' registry₁ registry' policies entries water)
    (hnodup : (policies.map EndpointPolicy.queue).Nodup)
    (hsync : InSync fresh context (plannedInputs fresh.profile registry))
    (hattached : Attached fresh.profile registry registry₁ policies) : ∃ joined,
      plannedInputs fresh.profile (storePolicies registry₁ policies) =
        plannedInputs fresh.profile registry ++ joined ∧ joined.Perm entries := by
  set known := plannedInputs fresh.profile registry with hknown
  set all := plannedInputs fresh.profile (storePolicies registry₁ policies)
    with hall
  have hprofile := hsync.profile_eq
  have hnamed : ∀ i : PlannedInput,
      some i.queueId ∈ policies.map EndpointPolicy.queue ↔
        ∃ e ∈ entries, e.queueId = i.queueId := by
    intro i
    rw [h.names, List.mem_map]
    simp
  have hold : ∀ i ∈ known,
      some i.queueId ∉ policies.map EndpointPolicy.queue := by
    intro i hi hname
    obtain ⟨e, he, hid⟩ := (hnamed i).mp hname
    have hlt := (h.joined e he).2.1
    have hle := (le_foldl_max (known.map PlannedInput.queueId) 0).2 _ (List.mem_map_of_mem hi)
    rw [← maxQueueId_eq_foldl, ← hsync.maxId, ← hid] at hle
    exact absurd hlt (UInt64.not_lt.mpr hle)
  have hkept : all.filter
      (fun i => some i.queueId ∉ policies.map EndpointPolicy.queue) = known := by
    have hsame : all.filter (fun i => some i.queueId ∉ policies.map EndpointPolicy.queue) =
        (plannedInputs fresh.profile registry₁).filter
          (fun i => some i.queueId ∉ policies.map EndpointPolicy.queue) := by
      refine eq_of_sorted ((plannedInputs_sorted _ _).filter _)
        ((plannedInputs_sorted _ _).filter _) ?_
      intro i
      rw [List.mem_filter, List.mem_filter, hall, mem_plannedInputs,
        mem_plannedInputs, decide_eq_true_eq]
      refine and_congr_left fun hname => ?_
      rw [find?_storePolicies _ _ hname]
    rw [hsame, hattached, List.filter_eq_self]
    intro i hi
    rw [decide_eq_true_eq]
    exact hold i hi
  have hsorted : all.Pairwise fun i j => i.queueId < j.queueId :=
    plannedInputs_sorted _ _
  set joined := all.filter
    (fun i => some i.queueId ∈ policies.map EndpointPolicy.queue) with hjoined
  refine ⟨joined, ?_, ?_⟩
  · refine eq_of_sorted hsorted ?_ ?_
    · rw [List.pairwise_append]
      refine ⟨plannedInputs_sorted _ _, hsorted.filter _, ?_⟩
      intro i hi j hj
      rw [hjoined, List.mem_filter, decide_eq_true_eq] at hj
      obtain ⟨e, he, hid⟩ := (hnamed j).mp hj.2
      have hle := (le_foldl_max (known.map PlannedInput.queueId) 0).2 _ (List.mem_map_of_mem hi)
      rw [← maxQueueId_eq_foldl, ← hsync.maxId] at hle
      rw [← hid]
      exact UInt64.lt_of_le_of_lt hle (h.joined e he).2.1
    · intro i
      rw [List.mem_append, ← hkept, hjoined, List.mem_filter, List.mem_filter,
        decide_eq_true_eq, decide_eq_true_eq]
      tauto
  · have hentries : (entries.map PlannedInput.queueId).Nodup := by
      rw [h.names] at hnodup
      have hmap : entries.map (fun e => some e.queueId) =
          (entries.map PlannedInput.queueId).map some := by simp
      rw [hmap] at hnodup
      exact hnodup.of_map
    refine (List.perm_ext_iff_of_nodup ?_ hentries.of_map).mpr ?_
    · exact (sorted_nodup (hsorted.filter _)).of_map
    · intro i
      rw [hjoined, List.mem_filter, decide_eq_true_eq, hnamed]
      constructor
      · rintro ⟨hi, e, he, hid⟩
        have hmem : e ∈ all := by
          rw [hall, ← hprofile]
          exact (h.joined e he).1
        rwa [List.inj_on_of_nodup_map (sorted_nodup hsorted) hi hmem hid.symm]
      · intro hi
        refine ⟨?_, i, hi, rfl⟩
        rw [hall, ← hprofile]
        exact (h.joined i hi).1

theorem Accepted.joins {joined : List PlannedInput}
    (h : Accepted context context' registry₁ registry' policies entries water)
    (hsplit : plannedInputs fresh.profile (storePolicies registry₁ policies) =
      plannedInputs fresh.profile registry ++ joined) (hperm : joined.Perm entries) :
    Joins context.applicationAutoRole (plannedInputs fresh.profile registry) joined := by
  have hcount : joined.length = policies.length := by
    have hnames := congrArg List.length h.names
    rw [List.length_map, List.length_map] at hnames
    rw [hperm.length_eq, hnames]
  refine ⟨?_, hcount ▸ h.length_le, ?_, ?_⟩
  · rw [← List.length_pos_iff, hcount, List.length_pos_iff]
    exact h.ne_nil
  · rw [← List.length_append, ← hsplit]
    exact sorted_length_le (plannedInputs_sorted _ _)
  · intro input hinput
    exact (h.joined input (hperm.mem_iff.mp hinput)).2.2

theorem Accepted.inSync (h : Accepted context context' registry₁ registry' policies entries water)
    (hnodup : (policies.map EndpointPolicy.queue).Nodup) (hfresh : BudgetResolved fresh)
    (hsync : InSync fresh context (plannedInputs fresh.profile registry))
    (hattached : Attached fresh.profile registry registry₁ policies) :
    InSync fresh context' (plannedInputs fresh.profile registry') := by
  obtain ⟨joined, hsplit, hperm⟩ := h.split hnodup hsync hattached
  have hjoins := h.joins hsplit hperm
  have hrole := extensible_role h.extensible
  have hwater := h.levelled
  rw [← hperm.length_eq] at hwater
  obtain ⟨hdirections, hautos, hfit⟩ := hjoins.counts hsync hwater
  obtain ⟨-, hmanual, -, hunlimited⟩ := hjoins.tally hsync hrole hwater
  obtain ⟨budget, hresolve⟩ := resolveBudget_ok (tallied (resetContext fresh)
    (tally (preparedPlans fresh.profile (plannedInputs fresh.profile registry ++ joined))))
  have hsuff := (hjoins.sufficient hsync hrole hfresh hwater hresolve).2
  obtain ⟨totalApplied, valid, hrecord⟩ := h.record
  have huniform := hjoins.uniform hsync hrole
  rw [h.planned, hsplit, hrecord]
  refine ⟨hsync.options, ?_, ?_, ?_, ?_, huniform, ?_, hsuff.1, ?_, hunlimited⟩
  · rw [UInt64.ext_iff, hdirections, toNat_ofNat_of_lt hfit]
  · rw [← countInputs_joined _ hperm hfit, ← hsync.sendCount]
  · rw [← countInputs_joined _ hperm hfit, ← hsync.receiveCount]
  · rw [UInt64.ext_iff, hautos, toNat_countInputs _ hfit]
    rfl
  · simp only
    rw [hsync.maxId, maxQueueId_joined hperm]
  · simp only
    rw [hmanual, sat_toNat]

end Run

theorem commonRole_uniform {plans : List SocketPlan} (h : commonRole plans ≠ .none) :
    ∀ plan ∈ plans, plan.manualSndhwm = false → plan.role = commonRole plans := by
  intro plan hplan hmanual
  have hmem : plan ∈ plans.filter fun plan => !plan.manualSndhwm := by
    simp [hplan, hmanual]
  unfold commonRole at h ⊢
  cases hfilter : plans.filter fun plan => !plan.manualSndhwm with
  | nil => simp [hfilter] at hmem
  | cons first rest =>
    simp only [hfilter] at h hmem ⊢
    split at h
    case isTrue hall =>
      rw [if_pos hall]
      rcases List.mem_cons.mp hmem with rfl | hrest
      · rfl
      · have := List.all_eq_true.mp hall plan hrest
        simpa using (beq_iff_eq.mp this).symm
    · exact absurd rfl h

theorem commonRole_eq {plans : List SocketPlan} {role : Role}
    (h : ∀ plan ∈ plans, plan.manualSndhwm = false → plan.role = role)
    (hne : ∃ plan ∈ plans, plan.manualSndhwm = false) : commonRole plans = role := by
  unfold commonRole
  have hfiltered : ∀ plan ∈ plans.filter fun plan => !plan.manualSndhwm, plan.role = role := by
    intro plan hplan
    rw [List.mem_filter, Bool.not_eq_true'] at hplan
    exact h plan hplan.1 hplan.2
  cases hfilter : plans.filter fun plan => !plan.manualSndhwm with
  | nil =>
    obtain ⟨plan, hplan, hmanual⟩ := hne
    have : plan ∈ plans.filter fun plan => !plan.manualSndhwm := by
      simp [hplan, hmanual]
    simp [hfilter] at this
  | cons first rest =>
    rw [hfilter] at hfiltered
    have hfirst := hfiltered first List.mem_cons_self
    have hall : (rest.all fun plan => first.role == plan.role) = true := by
      rw [List.all_eq_true]
      intro plan hplan
      rw [hfirst, hfiltered plan (List.mem_cons_of_mem _ hplan), beq_self_eq_true]
    exact (if_pos hall).trans hfirst

theorem raised_role {profile : Profile} {inputs : List PlannedInput} {plans' : List SocketPlan}
    (h : List.Forall₂ RaisedPlan (preparedPlans profile inputs) plans') :
    List.Forall₂ (fun input plan => plan.role = input.resolved.role ∧
      plan.manualSndhwm = input.manual) inputs plans' := by
  rw [preparedPlans, List.map_map, List.forall₂_map_left_iff] at h
  refine h.imp ?_
  intro input plan hplan
  rw [hplan.shape]
  exact ⟨rfl, rfl⟩

theorem forall₂_mem_left {α β : Type} {R : α → β → Prop} {l : List α} {l' : List β}
    (h : List.Forall₂ R l l') {a : α} (ha : a ∈ l) : ∃ b ∈ l', R a b := by
  induction h with
  | nil => simp at ha
  | @cons a₁ b₁ _ _ hab _ ih =>
    rcases List.mem_cons.mp ha with rfl | ha
    · exact ⟨b₁, List.mem_cons_self, hab⟩
    · obtain ⟨b, hb, hr⟩ := ih ha
      exact ⟨b, List.mem_cons_of_mem _ hb, hr⟩

theorem forall₂_mem_right {α β : Type} {R : α → β → Prop} {l : List α} {l' : List β}
    (h : List.Forall₂ R l l') {b : β} (hb : b ∈ l') : ∃ a ∈ l, R a b := by
  obtain ⟨a, ha, hr⟩ := forall₂_mem_left (List.Forall₂.flip h) hb
  exact ⟨a, ha, hr⟩

theorem planApplicationQueues_eq {fresh final : ContextPlan}
    {registry : Registry} {policies : List EndpointPolicy}
    {inputs : List PlannedInput} {plans' : List SocketPlan} (henabled : fresh.enabled = true)
    (hinputs : plannedInputs fresh.profile (storePolicies registry policies) = inputs)
    (hfinal : contextFinalize fresh (inputs.map PlannedInput.plan) = .ok (final, plans'))
    (hlength : inputs.length = plans'.length) : ∃ registry' valid overflow totalApplied,
      planApplicationQueues fresh registry policies = .ok ({ final with
          activeSendQueueCount := countInputs (fun i => i.resolved.writerSeen) inputs
          activeReceiveQueueCount :=
            countInputs (fun i => i.resolved.readerSeen) inputs
          activeDirectionalQueueCount := UInt64.ofNat inputs.length
          totalAppliedHwmBytes := totalApplied
          aggregateHwmValid := valid
          aggregateOverflow := overflow
          budgetInsufficient := overflow || final.budgetInsufficient
          applicationAutoDirectionCount := countInputs (fun i => !i.manual) inputs
          applicationAutoRole := commonRole plans'
          maxPlannedQueueId := maxQueueId inputs }, registry') ∧
      (∀ profile, plannedInputs profile registry' =
        plannedInputs profile (storePolicies registry policies)) ∧
      (∀ (k : ℕ) input plan, inputs[k]? = some input → plans'[k]? = some plan →
        registry'.target input.queueId = some plan.sndhwm) := by
  have hsorted := plannedInputs_sorted fresh.profile (storePolicies registry policies)
  rw [hinputs] at hsorted
  obtain ⟨registry', valid, overflow, total, hpublish, -, -, hplanned, -,
    htargets⟩ := publishTargets_spec inputs plans' (storePolicies registry policies)
      { final with
        activeSendQueueCount := countInputs (fun i => i.resolved.writerSeen) inputs
        activeReceiveQueueCount :=
          countInputs (fun i => i.resolved.readerSeen) inputs
        activeDirectionalQueueCount := UInt64.ofNat plans'.length } 0 hlength
      (sorted_nodup hsorted)
  refine ⟨registry', valid, overflow, total, ?_, hplanned, ?_⟩
  · simp only [planApplicationQueues, henabled, Bool.not_true, Bool.false_eq_true,
      if_false, hinputs, hfinal, ok_bind, hpublish, pure_eq_ok, hlength]
  · intro k input plan hinput hplan
    rw [htargets k input plan hinput hplan]
    have hmem : input ∈ plannedInputs fresh.profile (storePolicies registry policies) := by
      rw [hinputs]
      exact List.mem_of_getElem? hinput
    obtain ⟨record, hfind, -⟩ := (mem_plannedInputs _ _ _).mp hmem
    rw [hfind]
    rfl

theorem sat_eq_zero_iff (n : ℕ) : sat n = 0 ↔ n = 0 := by
  rw [eq_zero_iff, toNat_sat]
  omega

theorem planApplicationQueues_inSync {fresh context : ContextPlan}
    {registry registry' : Registry} {policies : List EndpointPolicy}
    (h : planApplicationQueues fresh registry policies = .ok (context, registry'))
    (hextensible : extensible context = true) :
    InSync fresh context (plannedInputs fresh.profile registry') := by
  simp only [extensible, Bool.and_eq_true, Bool.not_eq_true', beq_iff_eq, bne_iff_ne] at hextensible
  obtain ⟨⟨⟨⟨⟨⟨hon, -⟩, hsufficient⟩, -⟩, hlimited⟩, hrole⟩, -⟩ := hextensible
  set inputs := plannedInputs fresh.profile (storePolicies registry policies)
    with hinputs
  obtain ⟨budget, -, hcases⟩ :=
    contextFinalize_spec fresh (inputs.map PlannedInput.plan)
  have henabled : fresh.enabled = true := by
    by_contra hoff
    rw [Bool.not_eq_true] at hoff
    simp only [planApplicationQueues, hoff, Bool.not_false, if_true] at h
    obtain ⟨budget', -, ⟨-, final, hfinal, hflag⟩ | ⟨-, plans', hfinal, -⟩⟩ :=
      contextFinalize_spec fresh []
    · rw [hfinal, ok_bind] at h
      cases h
      rw [hflag] at hsufficient
      cases hsufficient
    · rw [hfinal, ok_bind] at h
      cases h
      exact absurd (hoff.symm.trans hon) (by simp)
  have hprepared : (inputs.map PlannedInput.plan).map
      (preparePlan fresh.profile) = preparedPlans fresh.profile inputs := rfl
  rw [hprepared] at hcases
  rcases hcases with ⟨-, final, hfinal, hflag⟩ | ⟨hsuff, plans', hfinal, hraised, -, -⟩
  · obtain ⟨registry₁, valid, overflow, total, hplan, -, -⟩ :=
      planApplicationQueues_eq henabled hinputs.symm hfinal (by simp [preparedPlans])
    rw [hplan] at h
    cases h
    simp [hflag] at hsufficient
  · have hroles := raised_role hraised
    obtain ⟨registry₁, valid, overflow, total, hplan, hplanned, -⟩ :=
      planApplicationQueues_eq henabled hinputs.symm hfinal hroles.length_eq
    rw [hplan] at h
    cases h
    rw [hplanned, ← hinputs]
    refine ⟨rfl, rfl, rfl, rfl, rfl, ?_, rfl, hsuff.1, rfl, ?_⟩
    · intro input hinput
      refine ⟨plannedInputs_role hinput, fun hmanual => ?_⟩
      obtain ⟨plan, hmem, hroleEq, hmanualEq⟩ := forall₂_mem_left hroles hinput
      rw [← hroleEq]
      exact commonRole_uniform hrole plan hmem (hmanualEq.trans hmanual)
    · exact (sat_eq_zero_iff _).mp hlimited

inductive PlanRun (fresh : ContextPlan) : ContextPlan → Registry → Prop where
  | replan {context : ContextPlan} {registry registry' : Registry}
      {policies : List EndpointPolicy}
      (h : planApplicationQueues fresh registry policies = .ok (context, registry')) :
      PlanRun fresh context registry'
  | extend {context context' : ContextPlan}
      {registry registry₁ registry' : Registry} {policies : List EndpointPolicy}
      (run : PlanRun fresh context registry)
      (hattached : Attached fresh.profile registry registry₁ policies)
      (hnodup : (policies.map EndpointPolicy.queue).Nodup)
      (h : extendApplicationPlan context registry₁ policies = .ok (true, context', registry')) :
      PlanRun fresh context' registry'

theorem contextPlanMake_budgetResolved {input : BudgetInput}
    {fresh : ContextPlan} (h : contextPlanMake input = .ok fresh) : BudgetResolved fresh := by
  intro hne
  by_cases hpos : 0 < input.configuredCoreBudgetBytes
  · simp only [contextPlanMake, hpos, if_true, pure_eq_ok, ok_bind] at h
    cases h
    rfl
  · obtain ⟨budget, hbudget⟩ := profileEffectiveBudget_ok
      (normalizeProfile input.profile) (resolvedMemoryLimit input) 0
    simp only [contextPlanMake, hpos, if_false, hbudget, ok_bind] at h
    cases h
    rw [toNat_pos_iff] at hpos
    have hzero : input.configuredCoreBudgetBytes = 0 :=
      (eq_zero_iff _).mpr (by omega)
    exact absurd hzero hne

theorem PlanRun.inSync {fresh context : ContextPlan} {registry : Registry}
    (hfresh : BudgetResolved fresh) (run : PlanRun fresh context registry)
    (hextensible : extensible context = true) :
    InSync fresh context (plannedInputs fresh.profile registry) := by
  induction run with
  | replan h => exact planApplicationQueues_inSync h hextensible
  | extend run hattached hnodup h ih =>
    obtain ⟨entries, water, haccepted⟩ :=
      extendApplicationPlan_accepted hnodup h
    exact haccepted.inSync hnodup hfresh (ih haccepted.extensible) hattached

def divisionRemainder (context : ContextPlan) : ℕ :=
  (context.effectiveCoreBudgetBytes.toNat - context.manualReservedHwmBytes.toNat -
      (profileMinimumBytes context.profile context.applicationAutoRole).toNat *
        context.applicationAutoDirectionCount.toNat) %
    context.applicationAutoDirectionCount.toNat

/-- Past the prefix that takes the remainder, the shared slots are at the level
of the extension. -/
theorem uniformLevel_eq_level {context : ContextPlan} {added : UInt64}
    {water : WaterLevel} (hspec : water.Spec context added) {i : ℕ}
    (hpast : sharedBytes context water % water.newAutoCount.toNat ≤ i) : uniformLevel
      (profileMinimumBytes context.profile context.applicationAutoRole).toNat
      (profileMaximumBytes context.profile context.applicationAutoRole).toNat
      water.newAutoCount.toNat (sharedBytes context water) i = water.level.toNat := by
  rw [uniformLevel, if_neg (Nat.not_lt.mpr hpast), Nat.add_zero, hspec.level]
  rfl

/-- The extension stands in for the full replan. Take any plan that a full replan
and any number of accepted extensions have produced, and an extension that
accepts the directions of one more pipe. The full replan over the same registry
and the same policies succeeds, and the two agree on the whole plan record but
for what it says about applied HWMs. A joined direction has the target of the
full replan when it is the last one in id order, and every joined direction has
it when the division remainder does not reach past the automatic directions that
were planned before. Every other direction keeps its published target. -/
theorem extendApplicationPlan_agrees {input : BudgetInput} {fresh context context' : ContextPlan}
    {registry registry₁ registry' : Registry} {policies : List EndpointPolicy}
    (hfresh : contextPlanMake input = .ok fresh)
    (run : PlanRun fresh context registry)
    (hattached : Attached fresh.profile registry registry₁ policies)
    (hnodup : (policies.map EndpointPolicy.queue).Nodup)
    (h : extendApplicationPlan context registry₁ policies = .ok (true, context', registry')) :
    ∃ full fullRegistry, planApplicationQueues fresh registry₁ policies =
        .ok (full, fullRegistry) ∧
      context' =
        { full with
          totalAppliedHwmBytes := context'.totalAppliedHwmBytes
          aggregateHwmValid := context'.aggregateHwmValid
          aggregateOverflow := context'.aggregateOverflow
          budgetInsufficient := context'.budgetInsufficient } ∧
      (∀ id, some id ∈ policies.map EndpointPolicy.queue →
        ((∀ other, some other ∈ policies.map EndpointPolicy.queue → other ≤ id) ∨
          divisionRemainder full ≤ context.applicationAutoDirectionCount.toNat) →
        registry'.target id = fullRegistry.target id) ∧
      (∀ id, some id ∉ policies.map EndpointPolicy.queue →
        registry'.target id = registry₁.target id) := by
  have hresolved := contextPlanMake_budgetResolved hfresh
  obtain ⟨entries, water, haccepted⟩ := extendApplicationPlan_accepted hnodup h
  have hextensible := haccepted.extensible
  have hrole := extensible_role hextensible
  have hsync := run.inSync hresolved hextensible
  obtain ⟨joined, hsplit, hperm⟩ := haccepted.split hnodup hsync hattached
  have hjoins := haccepted.joins hsplit hperm
  have hwater := haccepted.levelled
  rw [← hperm.length_eq] at hwater
  have hspec := waterLevel_spec hwater
  have henabled : fresh.enabled = true := by
    rw [← hsync.enabled_eq]
    simp only [extensible, Bool.and_eq_true] at hextensible
    exact hextensible.1.1.1.1.1.1
  set known := plannedInputs fresh.profile registry with hknown
  obtain ⟨plans', hfinal, hraised, hslots⟩ :=
    hjoins.finalize hsync hrole hresolved henabled hwater
  have hroles := raised_role hraised
  obtain ⟨fullRegistry, valid, overflow, total, hplan, hplanned, htargets⟩ :=
    planApplicationQueues_eq henabled hsplit hfinal hroles.length_eq
  obtain ⟨totalApplied, valid', hrecord⟩ := haccepted.record
  have hcommon : commonRole plans' = context.applicationAutoRole := by
    apply commonRole_eq
    · intro plan hplan hmanual
      obtain ⟨i, hi, hroleEq, hmanualEq⟩ := forall₂_mem_right hroles hplan
      rw [hroleEq]
      exact ((hjoins.uniform hsync hrole) i hi).2 (hmanualEq.symm.trans hmanual)
    · obtain ⟨i, hi⟩ := List.exists_mem_of_ne_nil _ hjoins.ne_nil
      obtain ⟨plan, hplan, -, hmanualEq⟩ :=
        forall₂_mem_left hroles (List.mem_append_right known hi)
      exact ⟨plan, hplan, hmanualEq.trans (hjoins.auto i hi).2⟩
  obtain ⟨hdirections, hautos, hfit⟩ := hjoins.counts hsync hwater
  obtain ⟨-, hmanual, -, hunlimited⟩ := hjoins.tally hsync hrole hwater
  have hautoEq : water.newAutoCount = countInputs (fun i => !i.manual) (known ++ joined) := by
    rw [UInt64.ext_iff, hautos, toNat_countInputs _ hfit]
    rfl
  refine ⟨_, fullRegistry, hplan, ?_, ?_, ?_⟩
  · rw [hrecord]
    simp only [tallied, withBudget, resetContext, ContextPlan.mk.injEq, true_and, and_true]
    refine ⟨hsync.enabled_eq, hsync.profile_eq, hsync.limit_eq, hsync.memory_eq,
      hsync.configured_eq, ?_, ?_, ?_, ?_, ?_, hcommon.symm, hautoEq, ?_⟩
    · rw [hmanual, sat_toNat]
    · rw [UInt64.ext_iff, hdirections, toNat_ofNat_of_lt hfit]
    · rw [hsync.sendCount, countInputs_joined _ hperm hfit]
    · rw [hsync.receiveCount, countInputs_joined _ hperm hfit]
    · simp only [extensible, Bool.and_eq_true, beq_iff_eq] at hextensible
      rw [hunlimited, hextensible.1.1.2, sat_zero]
    · rw [hsync.maxId, maxQueueId_joined hperm]
  · intro id hid hcase
    obtain ⟨e, he, hidEq⟩ : ∃ e ∈ entries, e.queueId = id := by
      rw [haccepted.names, List.mem_map] at hid
      obtain ⟨e, he, heq⟩ := hid
      exact ⟨e, he, Option.some.inj heq⟩
    obtain ⟨j, hj, hjoinedAt⟩ := List.getElem_of_mem (hperm.mem_iff.mpr he)
    have hat : (known ++ joined)[known.length + j]? = some e := by
      rw [List.getElem?_append_right (Nat.le_add_right _ _),
        Nat.add_sub_cancel_left, List.getElem?_eq_getElem hj, hjoinedAt]
    have hbound : known.length + j < plans'.length := by
      rw [← hroles.length_eq, List.length_append]
      omega
    have hplanAt : plans'[known.length + j]? = some plans'[known.length + j] :=
      List.getElem?_eq_getElem hbound
    have htarget := hjoins.target hsync hrole hraised hslots hplanAt
    rw [uniformLevel_eq_level hspec] at htarget
    · rw [← hidEq, haccepted.target e he, htargets _ _ _ hat hplanAt, UInt64.ext_iff.mpr htarget]
    · have hcount : water.newAutoCount.toNat = autoCount known + joined.length := by
        rw [hautos, autoCount_append, autoCount_of_auto fun i hi => (hjoins.auto i hi).2]
      rcases hcase with hlast | hsmall
      · have hsorted : joined.Pairwise fun i j => i.queueId < j.queueId := by
          have hall := plannedInputs_sorted fresh.profile (storePolicies registry₁ policies)
          rw [hsplit, List.pairwise_append] at hall
          exact hall.2.1
        have hend : j + 1 = joined.length := by
          by_contra hne
          have hnext : j + 1 < joined.length := by omega
          have hlt := List.pairwise_iff_getElem.mp hsorted j (j + 1) hj hnext (Nat.lt_succ_self j)
          have hmem : joined[j + 1] ∈ entries :=
            hperm.mem_iff.mp (List.getElem_mem hnext)
          have hle := hlast joined[j + 1].queueId (by
            rw [haccepted.names]
            exact List.mem_map_of_mem (f := fun e => some e.queueId) hmem)
          rw [hjoinedAt, hidEq] at hlt
          exact absurd hlt (UInt64.not_lt.mpr hle)
        have hmod := Nat.mod_lt (sharedBytes context water) (hjoins.autoCount_pos hsync hwater)
        omega
      · simp only [divisionRemainder, tallied, withBudget, resetContext] at hsmall
        rw [hcommon, ← hautoEq, hmanual, sat_toNat, ← hsync.profile_eq,
          hsync.autoCount, toNat_countInputs _ (by
            rw [List.length_append] at hfit
            omega)] at hsmall
        exact hsmall.trans (Nat.le_add_right _ _)
  · intro id hid
    rw [Registry.target, haccepted.kept id hid]
    rfl

/-! ## One direction joins one direction

A core budget of two role minimums and ten bytes. Alone, the first direction may
hold all of it; once a second direction has joined, a full replan gives both the
same share. -/

namespace OneJoinsOne

def options : BudgetInput := ⟨true, .balanced, 0, 131082, 0, 0⟩

def absent : StoredEndpointPolicy := ⟨false, .none, false, false, 0⟩

def stored : StoredEndpointPolicy := ⟨true, .routed, false, true, 0⟩

def policy (id : UInt64) : EndpointPolicy := ⟨some id, .routed, true, false, true, 0⟩

def record (id hwm : UInt64) (writer : StoredEndpointPolicy) : QueueRecord :=
  ⟨id, .application, 2, hwm, hwm, 0, writer, absent⟩

def context (total applied count id : UInt64) (role : Role) : ContextPlan :=
  ⟨true, .balanced, 0, 0, 131082, 131082, total, applied, 0, count, count, 0, 0,
    role, count, id, false, true, false⟩

def start : Registry := ⟨[record 1 0 absent], by simp⟩

def planned : Registry := ⟨[record 1 131082 stored], by simp⟩

def attaching : Registry :=
  ⟨[record 1 131082 stored, record 2 0 absent], by
    rw [List.pairwise_pair]
    decide⟩

def extended : Registry :=
  ⟨[record 1 131082 stored, record 2 65541 stored], by
    rw [List.pairwise_pair]
    decide⟩

def replanned : Registry :=
  ⟨[record 1 65541 stored, record 2 65541 stored], by
    rw [List.pairwise_pair]
    decide⟩

theorem make_options : contextPlanMake options = .ok (context 0 0 0 0 .none) := by
  decide +kernel

theorem replan_start : planApplicationQueues (context 0 0 0 0 .none) start [policy 1] =
      .ok (context 131082 131082 1 1 .routed, planned) := by
  decide +kernel

theorem attached : Attached .balanced planned attaching [policy 2] := by
  unfold Attached
  decide +kernel

theorem extend_attaching : extendApplicationPlan (context 131082 131082 1 1 .routed) attaching
        [policy 2] = .ok (true, context 131082 196623 2 2 .routed, extended) := by
  decide +kernel

theorem replan_attaching : planApplicationQueues (context 0 0 0 0 .none) attaching [policy 2] =
      .ok (context 131082 131082 2 2 .routed, replanned) := by
  decide +kernel

end OneJoinsOne

/-- The second direction joins the plan of the first with the target that a full
replan gives it. -/
theorem extendApplicationPlan_agrees_oneJoinsOne : ∃ full fullRegistry,
      planApplicationQueues (OneJoinsOne.context 0 0 0 0 .none)
          OneJoinsOne.attaching [OneJoinsOne.policy 2] = .ok (full, fullRegistry) ∧
      full.totalPlannedHwmBytes = 131082 ∧
      OneJoinsOne.extended.target 2 = fullRegistry.target 2 := by
  obtain ⟨full, fullRegistry, hplan, hrecord, htarget, -⟩ :=
    extendApplicationPlan_agrees OneJoinsOne.make_options
      (PlanRun.replan OneJoinsOne.replan_start) OneJoinsOne.attached (by simp)
      OneJoinsOne.extend_attaching
  refine ⟨full, fullRegistry, hplan, ?_, ?_⟩
  · exact (congrArg ContextPlan.totalPlannedHwmBytes hrecord).symm
  · refine htarget 2 (by simp [OneJoinsOne.policy]) (Or.inl ?_)
    intro other hother
    simp only [OneJoinsOne.policy, List.map_cons, List.map_nil, List.mem_singleton,
      Option.some.injEq] at hother
    rw [hother]
    exact UInt64.le_refl _

/-- An accepted extension does not leave the full-plan targets of the existing
directions as they were: when the second direction joins, the full replan would
lower the first from 131082 to 65541 bytes. -/
theorem extension_moves_existing_target :
    ¬∀ (input : BudgetInput) (fresh context context' full : ContextPlan)
        (registry registry₁ registry' fullRegistry : Registry) (policies : List EndpointPolicy),
      contextPlanMake input = .ok fresh → PlanRun fresh context registry →
      Attached fresh.profile registry registry₁ policies →
      (policies.map EndpointPolicy.queue).Nodup → extendApplicationPlan context registry₁ policies =
        .ok (true, context', registry') → planApplicationQueues fresh registry₁ policies =
        .ok (full, fullRegistry) → ∀ id, some id ∉ policies.map EndpointPolicy.queue →
        fullRegistry.target id = registry₁.target id := by
  intro h
  have htarget := h _ _ _ _ _ _ _ _ _ _ OneJoinsOne.make_options
    (PlanRun.replan OneJoinsOne.replan_start) OneJoinsOne.attached (by simp)
    OneJoinsOne.extend_attaching OneJoinsOne.replan_attaching 1
    (by simp [OneJoinsOne.policy])
  exact absurd htarget (by decide +kernel)

end Zlink.AutoHwm
