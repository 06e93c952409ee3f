import GeoSvr.NeighManager
import GeoSvr.TimerLifetime

/-! # The delay of a rebroadcast

`wait_time` is 100 divided by a distance, cut to an integer, with 1000 in the place of 0.  The
distance is the one to the sender, or for a neighbour the one it has moved: 0 if it stands.

The delay is at most 1000 exactly above 100 / 1001, and it falls with the distance up to 100; there
it jumps from 1 to 1000.  The distances are arbitrary functions here (`scalarWith`). -/

namespace GeoSvr.Daemon

section scalar

variable {R : Type*} [Scalar R]

/-- The distance that `wait_time` measures. -/
def measured (env : Env R) (s : Node R) (pkt : NodePacket R) : R :=
  match neighListFind s pkt.saddr with
  | none => Scalar.distance env.longitude env.latitude pkt.longitude pkt.latitude
  | some nei => Scalar.distance nei.longitude nei.latitude pkt.longitude pkt.latitude

/-- The delay for a distance. -/
def delay (dist : R) : UInt64 :=
  let time := Scalar.toU64 (Scalar.ofNat 100 / dist)
  if time = 0 then 1000 else time

theorem waitTime_eq (env : Env R) (s : Node R) (pkt : NodePacket R) :
    waitTime env s pkt = delay (measured env s pkt) := rfl

end scalar

/-! ### The delay of a distance -/

/-- Nothing is divided by 0, the quotient has 64 bits, and the delay is from 1 to 1000. -/
structure DelayInRange (dist : ℝ) : Prop where
  nonzero : dist ≠ 0
  fits : 100 / dist < 2 ^ 64
  pos : 1 ≤ (delay dist).toNat
  le : (delay dist).toNat ≤ 1000

section delay

variable {d d' : ℝ}

theorem floor_le_iff (hd : 0 < d) (k : ℕ) : ⌊100 / d⌋₊ ≤ k ↔ 100 / (k + 1) < d := by
  rw [← Nat.lt_succ_iff, Nat.floor_lt (by positivity), Nat.cast_succ, div_lt_iff₀ hd,
    div_lt_iff₀ (by positivity), mul_comm]

theorem floor_eq_zero_iff (hd : 0 < d) : ⌊100 / d⌋₊ = 0 ↔ 100 < d := by
  rw [← Nat.le_zero, floor_le_iff hd]
  norm_num

theorem toNat_delay (hd : 0 < d) (hfits : 100 / d < 2 ^ 64) :
    (delay d).toNat = if 100 < d then 1000 else ⌊100 / d⌋₊ := by
  have hlt : ⌊100 / d⌋₊ < 2 ^ 64 := by
    rw [Nat.floor_lt (by positivity)]
    exact_mod_cast hfits
  have htime : (Scalar.toU64 (Scalar.ofNat 100 / d)).toNat = ⌊100 / d⌋₊ := by
    show (UInt64.ofNat ⌊((100 : ℕ) : ℝ) / d⌋₊).toNat = _
    rw [UInt64.toNat_ofNat', Nat.cast_ofNat, Nat.mod_eq_of_lt hlt]
  have hzero : Scalar.toU64 (Scalar.ofNat 100 / d) = 0 ↔ 100 < d := by
    rw [← UInt64.toNat_inj, htime, UInt64.toNat_zero, floor_eq_zero_iff hd]
  unfold delay
  simp only [hzero]
  split_ifs
  · rfl
  · exact htime

/-- The range of the delay. -/
theorem delayInRange_iff (hd : 0 ≤ d) : DelayInRange d ↔ 100 / 1001 < d := by
  constructor
  · rintro ⟨hne, hfits, -, hle⟩
    have hpos : 0 < d := lt_of_le_of_ne hd hne.symm
    rw [toNat_delay hpos hfits] at hle
    split_ifs at hle with hfar
    · exact lt_trans (by norm_num) hfar
    · have h := (floor_le_iff hpos 1000).mp hle
      norm_num at h
      exact h
  · intro h
    have hpos : 0 < d := lt_trans (by norm_num) h
    have hle : ⌊100 / d⌋₊ ≤ 1000 := (floor_le_iff hpos 1000).mpr (by norm_num; exact h)
    have hfits : 100 / d < 2 ^ 64 := by
      rw [div_lt_iff₀ hpos]
      linarith
    refine ⟨hpos.ne', hfits, ?_, ?_⟩ <;> rw [toNat_delay hpos hfits] <;> split_ifs with hfar
    · norm_num
    · exact Nat.one_le_iff_ne_zero.mpr (fun h0 => hfar ((floor_eq_zero_iff hpos).mp h0))
    · rfl
    · exact hle

/-- Where the delay does not grow with the distance. -/
theorem delay_le_iff (h : 100 / 1001 < d) (hdd : d ≤ d') :
    (delay d').toNat ≤ (delay d).toNat ↔ d' ≤ 100 ∨ 100 < d ∨ d ≤ 1 / 10 := by
  have hpos : 0 < d := lt_trans (by norm_num) h
  have hr := (delayInRange_iff hpos.le).mpr h
  have hr' := (delayInRange_iff (hpos.le.trans hdd)).mpr (h.trans_le hdd)
  rw [toNat_delay hpos hr.fits, toNat_delay (hpos.trans_le hdd) hr'.fits]
  by_cases hfar : 100 < d
  · simp [hfar, hfar.trans_le hdd]
  · by_cases hfar' : 100 < d'
    · have hten : (1000 : ℕ) ≤ ⌊100 / d⌋₊ ↔ d ≤ 1 / 10 := by
        rw [Nat.le_floor_iff (by positivity), le_div_iff₀ hpos]
        norm_num
        constructor <;> intro h' <;> linarith
      rw [if_pos hfar', if_neg hfar, hten]
      simp [hfar, hfar']
    · rw [if_neg hfar', if_neg hfar]
      exact iff_of_true (Nat.floor_le_floor (div_le_div_of_nonneg_left (by norm_num) hpos hdd))
        (Or.inl (not_lt.mp hfar'))

end delay

/-! ### Two packets -/

/-- **The delays of two packets**, of which the second comes from at least as far.  Both are in
range and the second is not greater exactly if the smaller distance is above 100 / 1001, and the
two are not on the two sides of the jump at 100. -/
theorem waitTime_iff (distance : ℝ → ℝ → ℝ → ℝ → ℝ) (line : ℝ → ℝ → ℝ → ℝ → ℝ → ℝ → ℝ)
    (hdist : ∀ xa ya xb yb, 0 ≤ distance xa ya xb yb) (env env' : Env ℝ) (s s' : Node ℝ)
    (pkt pkt' : NodePacket ℝ) :
    letI := scalarWith distance line
    measured env s pkt ≤ measured env' s' pkt' →
      ((DelayInRange (measured env s pkt) ∧ DelayInRange (measured env' s' pkt') ∧
          (waitTime env' s' pkt').toNat ≤ (waitTime env s pkt).toNat) ↔
        100 / 1001 < measured env s pkt ∧ (measured env' s' pkt' ≤ 100 ∨
          100 < measured env s pkt ∨ measured env s pkt ≤ 1 / 10)) := by
  intro hle
  let _ := scalarWith distance line
  have hnonneg : 0 ≤ measured env s pkt := by
    unfold measured
    split <;> exact hdist _ _ _ _
  rw [delayInRange_iff hnonneg, delayInRange_iff (hnonneg.trans hle)]
  constructor
  · rintro ⟨h, -, hd⟩
    exact ⟨h, (delay_le_iff h hle).mp hd⟩
  · rintro ⟨h, hd⟩
    exact ⟨h, h.trans_le hle, (delay_le_iff h hle).mpr hd⟩

/-- The distance of longitudes. -/
@[reducible] noncomputable def flatScalar : Scalar ℝ :=
  scalarWith (fun xa _ xb _ => |xb - xa|) (fun _ _ _ _ _ _ => 0)

/-- A beacon from the equator; the host is at the origin. -/
def packetAt (x : ℝ) : NodePacket ℝ := { samplePacket with latitude := 0, longitude := x }

theorem measured_packetAt {x : ℝ} (hx : 0 ≤ x) :
    letI := flatScalar
    measured sampleEnv (Node.init sampleConfig false false) (packetAt x) = x := by
  show |x - 0| = x
  rw [sub_zero, abs_of_nonneg hx]

theorem waitTime_iff_sample :
    letI := flatScalar
    DelayInRange (measured sampleEnv (Node.init sampleConfig false false) (packetAt 50)) ∧
      DelayInRange (measured sampleEnv (Node.init sampleConfig false false) (packetAt 60)) ∧
      (waitTime sampleEnv (Node.init sampleConfig false false) (packetAt 60)).toNat ≤
        (waitTime sampleEnv (Node.init sampleConfig false false) (packetAt 50)).toNat := by
  have h50 := @measured_packetAt 50 (by norm_num)
  have h60 := @measured_packetAt 60 (by norm_num)
  have h := waitTime_iff (fun xa _ xb _ => |xb - xa|) (fun _ _ _ _ _ _ => 0)
    (fun _ _ _ _ => abs_nonneg _) sampleEnv sampleEnv (Node.init sampleConfig false false)
    (Node.init sampleConfig false false) (packetAt 50) (packetAt 60)
  rw [h50, h60] at h
  rw [h50, h60]
  exact (h (by norm_num)).mpr ⟨by norm_num, Or.inl (by norm_num)⟩

/-- A neighbour that stands; and two senders, at 100 and at 101. -/
theorem waitTime_defects :
    (∃ s : Node ℝ, ¬ DelayInRange (measured sampleEnv s samplePacket)) ∧
    letI := flatScalar
    (waitTime sampleEnv (Node.init sampleConfig false false) (packetAt 100)).toNat = 1 ∧
      (waitTime sampleEnv (Node.init sampleConfig false false) (packetAt 101)).toNat = 1000 := by
  constructor
  · refine ⟨recvNode sampleConfig sampleEnv samplePacket (Node.init sampleConfig false false), ?_⟩
    intro h
    exact h.nonzero (Sphere.distance_self 1 1)
  · let _ := flatScalar
    have h100 := @measured_packetAt 100 (by norm_num)
    have h101 := @measured_packetAt 101 (by norm_num)
    rw [waitTime_eq, waitTime_eq, h100, h101]
    constructor
    · refine (@toNat_delay 100 (by norm_num) (by norm_num)).trans ?_
      norm_num
    · refine (@toNat_delay 101 (by norm_num) (by norm_num)).trans ?_
      norm_num

end GeoSvr.Daemon
