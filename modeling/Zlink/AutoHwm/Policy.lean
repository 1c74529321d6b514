import Zlink.Lib.Word64

/-!
# Automatic HWM policy: profiles, roles and the memory budget

The constants of the four profiles, the bounds a profile gives to a role, and
the memory budget a context may spend. All byte counts are 64-bit words. The
raw additions, subtractions and multiplications of the source are the exact
word operations of `Word64`, so a definition here ends in `.ok` only when no
machine operation wrapped.
-/

namespace Zlink.AutoHwm

open Word64

inductive Role where
  | none
  | control
  | routed
  | fanout
  | recvIngress
  | connectionData
  | peerQueue
  | stream
  deriving DecidableEq

/-- The numeric value of a role, which the merge of two endpoint roles
compares. -/
def Role.code : Role → ℕ
  | .none => 0
  | .control => 1
  | .routed => 2
  | .fanout => 3
  | .recvIngress => 4
  | .connectionData => 5
  | .peerQueue => 6
  | .stream => 7

/-- The profile option of a context. `other` stands for every value outside the
four named profiles, which the source normalizes. -/
inductive Profile where
  | compact
  | lowLatency
  | balanced
  | throughput
  | other
  deriving DecidableEq

def normalizeProfile : Profile → Profile
  | .compact => .compact
  | .lowLatency => .lowLatency
  | .balanced => .balanced
  | .throughput => .throughput
  | .other => .balanced

def kib : UInt64 := 1024

def mib : UInt64 := 1024 * 1024

structure ProfileBudget where
  percent : UInt64
  fixedCap : UInt64
  dataMinimum : UInt64
  dataMaximum : UInt64
  streamMinimum : UInt64
  streamMaximum : UInt64

variable (profile : Profile)

def profileBudget : ProfileBudget :=
  match normalizeProfile profile with
  | .compact => ⟨2, 64 * mib, 32 * kib, 512 * kib, 8 * kib, 32 * kib⟩
  | .lowLatency => ⟨3, 256 * mib, 32 * kib, 2 * mib, 16 * kib, 64 * kib⟩
  | .throughput => ⟨8, 1024 * mib, 128 * kib, 8 * mib, 256 * kib, 512 * kib⟩
  | _ => ⟨5, 512 * mib, 64 * kib, 1 * mib, 64 * kib, 128 * kib⟩

def streamRole (role : Role) : Bool := role == .stream

def profileMinimumBytes (role : Role) : UInt64 :=
  if role = .none then 0
  else if streamRole role then (profileBudget profile).streamMinimum
  else (profileBudget profile).dataMinimum

def profileMaximumBytes (role : Role) : UInt64 :=
  if role = .none then 0
  else if normalizeProfile profile = .balanced ∧ role = .recvIngress then 2 * mib
  else if streamRole role then (profileBudget profile).streamMaximum
  else (profileBudget profile).dataMaximum

theorem profileMinimumBytes_le_maximum (role : Role) :
    profileMinimumBytes profile role ≤ profileMaximumBytes profile role := by
  cases profile <;> cases role <;> decide

theorem profileMinimumBytes_lt_maximum {role : Role} (hrole : role ≠ .none) :
    profileMinimumBytes profile role < profileMaximumBytes profile role := by
  cases profile <;> cases role <;> first | exact absurd rfl hrole | decide

/-- Addition that sticks at the largest word and raises the overflow flag. -/
def saturatingAdd (left right : UInt64) (overflow : Bool) : Except Fault (UInt64 × Bool) := do
  let room ← subExact maxWord left
  if room < right then
    pure (maxWord, true)
  else
    let sum ← addExact left right
    pure (sum, overflow)

def saturatingMultiply (left right : UInt64) (overflow : Bool) : Except Fault (UInt64 × Bool) := do
  if left ≠ 0 ∧ maxWord / left < right then
    pure (maxWord, true)
  else
    let product ← mulExact left right
    pure (product, overflow)

def applyProfilePercent (memoryBytes percent : UInt64) : Except Fault UInt64 := do
  let whole ← mulExact (memoryBytes / 100) percent
  let part ← mulExact (memoryBytes % 100) percent
  addExact whole (part / 100)

def profileEffectiveBudget (resolvedMemoryBytes queueCount : UInt64) : Except Fault UInt64 := do
  let budget := profileBudget profile
  let (queueFloor, _) ← saturatingMultiply queueCount budget.dataMinimum false
  let effectiveCap := max budget.fixedCap queueFloor
  let percentShare ← applyProfilePercent resolvedMemoryBytes budget.percent
  pure (min percentShare effectiveCap)

structure BudgetInput where
  enabled : Bool
  profile : Profile
  configuredMemoryLimitBytes : UInt64
  configuredCoreBudgetBytes : UInt64
  detectedHardLimitBytes : UInt64
  detectedPhysicalMemoryBytes : UInt64

def resolvedMemoryLimit (input : BudgetInput) : UInt64 :=
  if 0 < input.configuredMemoryLimitBytes then input.configuredMemoryLimitBytes
  else if 0 < input.detectedHardLimitBytes then input.detectedHardLimitBytes
  else input.detectedPhysicalMemoryBytes

/-- A saturating addition of two saturated values shows the saturated sum, and
raises the flag exactly when the sum does not fit. An operand that has already
overflowed must have raised the flag before. -/
theorem saturatingAdd_sat {a b : ℕ} (overflow : Bool)
    (ha : 2 ^ 64 ≤ a → overflow = true) (hb : 2 ^ 64 ≤ b → overflow = true) :
    saturatingAdd (sat a) (sat b) overflow =
      .ok (sat (a + b), overflow || overflows (a + b)) := by
  have hleft := toNat_sat a
  have hright := toNat_sat b
  obtain ⟨room, hroom, hroomNat⟩ :=
    subExact_of_le (a := maxWord) (b := sat a) (by rw [toNat_maxWord]; omega)
  rw [toNat_maxWord] at hroomNat
  by_cases hlt : room < sat b
  · have hbig : 2 ^ 64 ≤ a + b := by
      rw [UInt64.lt_iff_toNat_lt] at hlt
      omega
    simp [saturatingAdd, hroom, hlt, sat_of_ge hbig, (overflows_eq_true_iff _).mpr hbig]
  · have hle : (sat b).toNat ≤ room.toNat := by
      rwa [UInt64.lt_iff_toNat_lt, Nat.not_lt] at hlt
    obtain ⟨sum, hsum, hsumNat⟩ :=
      addExact_of_lt (a := sat a) (b := sat b) (by omega)
    have hsat : sum = sat (a + b) := by
      rw [UInt64.ext_iff, hsumNat, toNat_sat (a + b)]
      omega
    have hflag : overflow = true ∨ overflows (a + b) = false := by
      rw [overflows_eq_false_iff]
      by_cases hbigA : 2 ^ 64 ≤ a
      · exact Or.inl (ha hbigA)
      · by_cases hbigB : 2 ^ 64 ≤ b
        · exact Or.inl (hb hbigB)
        · exact Or.inr (by omega)
    rcases hflag with hflag | hflag <;>
      simp [saturatingAdd, hroom, hlt, hsum, hsat, hflag]

theorem saturatingAdd_of_lt (left right : UInt64) (overflow : Bool)
    (hfit : left.toNat + right.toNat < 2 ^ 64) :
    ∃ sum, saturatingAdd left right overflow = .ok (sum, overflow) ∧
      sum.toNat = left.toNat + right.toNat := by
  have hleft := toNat_lt_pow left
  have hright := toNat_lt_pow right
  have hadd := saturatingAdd_sat (a := left.toNat) (b := right.toNat) overflow (by omega) (by omega)
  rw [sat_toNat, sat_toNat, (overflows_eq_false_iff _).mpr hfit, Bool.or_false] at hadd
  exact ⟨_, hadd, toNat_sat_of_lt hfit⟩

theorem saturatingMultiply_sat (left right : UInt64) (overflow : Bool) :
    saturatingMultiply left right overflow =
      .ok (sat (left.toNat * right.toNat), overflow || overflows (left.toNat * right.toNat)) := by
  have hguard : (left ≠ 0 ∧ maxWord / left < right) ↔ 2 ^ 64 ≤ left.toNat * right.toNat := by
    rw [Ne, eq_zero_iff, UInt64.lt_iff_toNat_lt, UInt64.toNat_div, toNat_maxWord]
    by_cases hzero : left.toNat = 0
    · simp [hzero]
    · rw [Nat.div_lt_iff_lt_mul (Nat.pos_of_ne_zero hzero), Nat.mul_comm]
      omega
  by_cases hbig : 2 ^ 64 ≤ left.toNat * right.toNat
  · simp [saturatingMultiply, hguard.mpr hbig, sat_of_ge hbig, (overflows_eq_true_iff _).mpr hbig]
  · have hfit := Nat.not_le.mp hbig
    obtain ⟨product, hproduct, hproductNat⟩ := mulExact_of_lt hfit
    have hsat : product = sat (left.toNat * right.toNat) := by
      rw [UInt64.ext_iff, hproductNat, toNat_sat_of_lt hfit]
    simp [saturatingMultiply, mt hguard.mp hbig, hproduct, hsat,
      (overflows_eq_false_iff _).mpr hfit]

theorem profileBudget_percent_le : (profileBudget profile).percent.toNat ≤ 8 := by
  cases profile <;> decide

theorem applyProfilePercent_ok (memoryBytes : UInt64) (profile : Profile) :
    ∃ share, applyProfilePercent memoryBytes (profileBudget profile).percent = .ok share := by
  have hpercent := profileBudget_percent_le profile
  have hmemory := toNat_lt_pow memoryBytes
  have hdiv : (memoryBytes / 100).toNat = memoryBytes.toNat / 100 := by
    rw [UInt64.toNat_div]; rfl
  have hmod : (memoryBytes % 100).toNat = memoryBytes.toNat % 100 := by
    rw [UInt64.toNat_mod]; rfl
  set percent := (profileBudget profile).percent with hp
  have hwholeLe : memoryBytes.toNat / 100 * percent.toNat ≤
      memoryBytes.toNat / 100 * 8 := Nat.mul_le_mul_left _ hpercent
  have hpartLe : memoryBytes.toNat % 100 * percent.toNat ≤
      memoryBytes.toNat % 100 * 8 := Nat.mul_le_mul_left _ hpercent
  obtain ⟨whole, hwhole, hwholeNat⟩ :=
    mulExact_of_lt (a := memoryBytes / 100) (b := percent) (by rw [hdiv]; omega)
  obtain ⟨part, hpart, hpartNat⟩ :=
    mulExact_of_lt (a := memoryBytes % 100) (b := percent) (by rw [hmod]; omega)
  have hpartDiv : (part / 100).toNat = part.toNat / 100 := by
    rw [UInt64.toNat_div]; rfl
  obtain ⟨share, hshare, -⟩ :=
    addExact_of_lt (a := whole) (b := part / 100)
      (by rw [hpartDiv, hwholeNat, hpartNat, hdiv, hmod]; omega)
  exact ⟨share, by simp [applyProfilePercent, hwhole, hpart, hshare]⟩

theorem profileEffectiveBudget_ok (resolvedMemoryBytes queueCount : UInt64) :
    ∃ budget, profileEffectiveBudget profile resolvedMemoryBytes queueCount = .ok budget := by
  have hfloor :=
    saturatingMultiply_sat queueCount (profileBudget profile).dataMinimum false
  obtain ⟨share, hshare⟩ := applyProfilePercent_ok resolvedMemoryBytes profile
  refine ⟨min share (max (profileBudget profile).fixedCap (sat
    (queueCount.toNat * (profileBudget profile).dataMinimum.toNat))), ?_⟩
  simp [profileEffectiveBudget, hfloor, hshare]

end Zlink.AutoHwm
