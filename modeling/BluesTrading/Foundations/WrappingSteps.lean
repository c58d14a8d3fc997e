import Mathlib.Data.Nat.ModEq
import Mathlib.Tactic.Ring

namespace BluesTrading.Foundations

variable {width start step value bound : ℕ}

theorem exists_wrapped_eq (hwidth : 0 < width) (h : start ≡ value [MOD step.gcd width]) :
    ∃ k, start + k * step ≡ value [MOD width] := by
  obtain ⟨x, hstep, hvalue⟩ := Nat.chineseRemainder' h
  rcases Nat.eq_zero_or_pos step with rfl | hpos
  · refine ⟨0, ?_⟩
    rw [Nat.modEq_zero_iff.mp hstep] at hvalue
    simpa using hvalue
  · -- another solution, which is not below the start
    have hlarge : start ≤ x + step * width * start :=
      (Nat.le_mul_of_pos_left start (Nat.mul_pos hpos hwidth)).trans (Nat.le_add_left _ _)
    have hsame : start ≡ x + step * width * start [MOD step] := by
      rw [mul_assoc]
      exact Nat.modEq_add_modulus_mul_iff.mpr hstep.symm
    obtain ⟨k, hk⟩ := (Nat.modEq_iff_dvd' hlarge).mp hsame
    refine ⟨k, ?_⟩
    rw [mul_comm, ← hk, Nat.add_sub_cancel' hlarge, mul_comm step, mul_assoc]
    exact Nat.add_modulus_mul_modEq_iff.mpr hvalue

/-- The largest value with the remainder of the start by a divisor of the width. -/
theorem mod_le_of_dvd {divisor : ℕ} (hdvd : divisor ∣ width) (hwidth : 0 < width)
    (h : value ≡ start [MOD divisor]) :
    value % width ≤ width - divisor + start % divisor := by
  have hdivisor : 0 < divisor := Nat.pos_of_dvd_of_pos hdvd hwidth
  have hquotient : value % width / divisor < width / divisor :=
    Nat.div_lt_div_of_lt_of_dvd hdvd (Nat.mod_lt value hwidth)
  have hremainder : value % width % divisor = start % divisor := by
    rw [Nat.mod_mod_of_dvd value hdvd]
    exact h
  have hle := Nat.mul_le_mul_left divisor hquotient
  rw [Nat.mul_div_cancel' hdvd, Nat.mul_succ] at hle
  have hsplit := Nat.div_add_mod (value % width) divisor
  omega

/-- A counter goes beyond a bound at some time just if its largest value does. -/
theorem exists_lt_wrapped_iff (hwidth : 0 < width) :
    (∃ k, bound < (start + k * step) % width) ↔
      bound < width - step.gcd width + start % step.gcd width := by
  have hdvd : step.gcd width ∣ width := Nat.gcd_dvd_right step width
  have hdivisor : 0 < step.gcd width := Nat.gcd_pos_of_pos_right step hwidth
  constructor
  · rintro ⟨k, hk⟩
    refine hk.trans_le (mod_le_of_dvd hdvd hwidth ?_)
    obtain ⟨c, hc⟩ := Nat.gcd_dvd_left step width
    have hmul : k * step = step.gcd width * (k * c) := by
      conv_lhs => rw [hc]
      ring
    rw [hmul]
    exact Nat.add_modulus_mul_modEq_iff.mpr rfl
  · intro hbound
    have hle : step.gcd width ≤ width := Nat.le_of_dvd hwidth hdvd
    have hremainder := Nat.mod_lt start hdivisor
    have hsame : start ≡ width - step.gcd width + start % step.gcd width
        [MOD step.gcd width] := by
      have hmultiple : step.gcd width ∣ width - step.gcd width := Nat.dvd_sub hdvd dvd_rfl
      obtain ⟨c, hc⟩ := hmultiple
      rw [hc]
      exact Nat.modEq_modulus_mul_add_iff.mpr (Nat.mod_modEq start _).symm
    obtain ⟨k, hk⟩ := exists_wrapped_eq hwidth hsame
    refine ⟨k, hbound.trans_eq (Eq.trans ?_ hk.symm)⟩
    exact (Nat.mod_eq_of_lt (by omega)).symm

end BluesTrading.Foundations
