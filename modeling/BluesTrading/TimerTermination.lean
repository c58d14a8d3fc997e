import BluesTrading.Foundations.WrappingSteps
import BluesTrading.TimerTrace
import Mathlib.Data.Set.Card

namespace BluesTrading.TimerTermination

open BluesTrading.Foundations
open BluesTrading.TimerProvider
open BluesTrading.TimerDelivery
open BluesTrading.TimerTrace

variable {σ : Type} {consumers : Consumers σ} {w : World σ} {t : TimerInfo} {timeInMs : ℕ}

theorem occurrence_advanced (info : TimerInfo) (n k : ℕ) :
    occurrence (advanced info n) k = occurrence info (n + k) := by
  simp only [occurrence, advanced, Nat.mod_add_mod]
  rw [Nat.add_mul, Nat.add_assoc]

theorem occurrence_zero (hfits : t.nextTriggerTime < 2 ^ 32) :
    occurrence t 0 = t.nextTriggerTime := by
  rw [occurrence, Nat.zero_mul, Nat.add_zero, Nat.mod_eq_of_lt hfits]

/-! ### What is left to deliver -/

/-- The deliveries that a timer is good for: those before its first time after the target. -/
def chances (timeInMs : ℕ) (t : TimerInfo) : Set ℕ :=
  { k | (t.isRepeat = false → k = 0) ∧ ∀ j ≤ k, occurrence t j ≤ timeInMs }

def pending (timeInMs : ℕ) (w : World σ) : Set ((ℕ × ℕ) × ℕ) :=
  { x | ∃ t, w.provider.timer x.1.1 x.1.2 = some t ∧ x.2 ∈ chances timeInMs t }

/-- Every repeating timer goes off after the target at some time. -/
def GetsPast (timeInMs : ℕ) (p : FakeTimerProvider) : Prop :=
  ∀ c e t, p.timer c e = some t → t.isRepeat = true → ∃ k, timeInMs < occurrence t k

theorem chances_finite (h : t.isRepeat = true → ∃ k, timeInMs < occurrence t k) :
    (chances timeInMs t).Finite := by
  cases hrepeat : t.isRepeat with
  | false => exact (Set.finite_singleton 0).subset fun k hk => hk.1 hrepeat
  | true =>
      obtain ⟨last, hlast⟩ := h hrepeat
      refine (Set.finite_Iio last).subset fun k hk => ?_
      by_contra hle
      exact absurd (hk.2 last (not_lt.mp hle)) (not_le.mpr hlast)

theorem pending_finite (hkeyed : w.provider.Keyed) (hpast : GetsPast timeInMs w.provider) :
    (pending timeInMs w).Finite := by
  have hall : ∀ t ∈ {t | t ∈ w.provider.allInfos},
      ((fun k => ((t.consumer, t.eventid), k)) '' chances timeInMs t).Finite := by
    intro t ht
    obtain ⟨c, e, ht⟩ := FakeTimerProvider.mem_allInfos.mp ht
    exact (chances_finite (hpast c e t ht)).image _
  refine (w.provider.allInfos.finite_toSet.biUnion hall).subset ?_
  rintro ⟨⟨c, e⟩, k⟩ ⟨t, ht, hk⟩
  obtain ⟨rfl, rfl, -⟩ := hkeyed c e t ht
  exact Set.mem_biUnion (FakeTimerProvider.mem_allInfos.mpr ⟨_, _, ht⟩) ⟨k, hk, rfl⟩

def shift (key : ℕ × ℕ) (x : (ℕ × ℕ) × ℕ) : (ℕ × ℕ) × ℕ :=
  if x.1 = key then (x.1, x.2 + 1) else x

theorem shift_injective (key : ℕ × ℕ) : Function.Injective (shift key) := by
  rintro ⟨c, k⟩ ⟨c', k'⟩ h
  unfold shift at h
  split_ifs at h <;> simp_all

theorem succ_mem_chances (hfits : t.nextTriggerTime < 2 ^ 32) (hrepeat : t.isRepeat = true)
    (hdue : t.nextTriggerTime ≤ timeInMs) {k : ℕ} (hk : k ∈ chances timeInMs (advanced t 1)) :
    k + 1 ∈ chances timeInMs t := by
  refine ⟨fun honce => absurd (hrepeat.symm.trans honce) (by decide), fun j hj => ?_⟩
  cases j with
  | zero => exact (occurrence_zero hfits).trans_le hdue
  | succ j =>
      have hj := hk.2 j (Nat.le_of_succ_le_succ hj)
      rwa [occurrence_advanced, Nat.add_comm] at hj

theorem pending_fireTimer (hidle : Idle consumers) (hkeyed : w.provider.Keyed)
    (hfits : w.provider.Fits) (hnext : w.provider.getNextTimer = some t)
    (hdue : t.nextTriggerTime ≤ timeInMs) :
    shift (t.consumer, t.eventid) '' pending timeInMs (fireTimer consumers w t) ⊂
      pending timeInMs w := by
  obtain ⟨⟨c', e', ht⟩, -⟩ := FakeTimerProvider.getNextTimer_spec hnext
  obtain ⟨rfl, rfl, -⟩ := hkeyed c' e' t ht
  have hfit := hfits _ _ t ht
  have hmem : ((t.consumer, t.eventid), 0) ∈ pending timeInMs w := by
    refine ⟨t, ht, fun _ => rfl, fun j hj => ?_⟩
    rw [Nat.le_zero.mp hj, occurrence_zero hfit]
    exact hdue
  refine (Set.ssubset_iff_of_subset ?_).mpr ⟨_, hmem, ?_⟩
  · rintro _ ⟨⟨⟨c, e⟩, k⟩, ⟨info, hinfo, hk⟩, rfl⟩
    rw [timer_fireTimer_wrapped hidle hkeyed hnext] at hinfo
    unfold shift
    split_ifs at hinfo with hkey hrepeat
    · obtain rfl := Option.some.inj hinfo
      obtain ⟨rfl, rfl⟩ : c = t.consumer ∧ e = t.eventid := hkey
      rw [if_pos rfl]
      exact ⟨t, ht, succ_mem_chances hfit hrepeat hdue hk⟩
    · rw [if_neg fun h => hkey (Prod.mk.inj h)]
      exact ⟨info, hinfo, hk⟩
  · rintro ⟨⟨key, k⟩, -, heq⟩
    unfold shift at heq
    split_ifs at heq with hkey
    · exact absurd (congrArg Prod.snd heq) k.succ_ne_zero
    · exact hkey (congrArg Prod.fst heq)

/-! ### The loop -/

theorem GetsPast.fireTimer (hidle : Idle consumers) (hkeyed : w.provider.Keyed)
    (hfits : w.provider.Fits) (hpast : GetsPast timeInMs w.provider)
    (hnext : w.provider.getNextTimer = some t) (hdue : t.nextTriggerTime ≤ timeInMs) :
    GetsPast timeInMs (fireTimer consumers w t).provider := by
  obtain ⟨⟨c', e', ht⟩, -⟩ := FakeTimerProvider.getNextTimer_spec hnext
  intro c e info hinfo hrepeat
  rw [timer_fireTimer_wrapped hidle hkeyed hnext] at hinfo
  split_ifs at hinfo with hkey hkind
  · obtain rfl := Option.some.inj hinfo
    obtain ⟨k, hk⟩ := hpast c' e' t ht hkind
    cases k with
    | zero =>
        rw [occurrence_zero (hfits c' e' t ht)] at hk
        omega
    | succ k => exact ⟨k, by rwa [occurrence_advanced, Nat.add_comm]⟩
  · exact hpast c e info hinfo hrepeat

theorem exists_advanceToTime_of_getsPast (hidle : Idle consumers) (hkeyed : w.provider.Keyed)
    (hfits : w.provider.Fits) (hpast : GetsPast timeInMs w.provider) :
    ∃ fuel w', advanceToTime consumers fuel timeInMs w = some w' := by
  let I (w : World σ) : Prop :=
    w.provider.Keyed ∧ w.provider.Fits ∧ GetsPast timeInMs w.provider
  have hturn : ∀ w, isDue timeInMs w = true → I w →
      I (fireNext consumers w) ∧
        (pending timeInMs (fireNext consumers w)).ncard < (pending timeInMs w).ncard := by
    rintro w hguard ⟨hkeyed, hfits, hpast⟩
    obtain ⟨t, hnext, hdue, hfire⟩ := fireNext_of_isDue consumers hguard
    rw [hfire]
    refine ⟨⟨(keptBySteps_keyed consumers).fireTimer w t hnext hkeyed,
      (keptBySteps_fits consumers).fireTimer w t hnext hfits,
      hpast.fireTimer hidle hkeyed hfits hnext hdue⟩, ?_⟩
    rw [← Set.ncard_image_of_injective _ (shift_injective (t.consumer, t.eventid))]
    exact Set.ncard_lt_ncard (pending_fireTimer hidle hkeyed hfits hnext hdue)
      (pending_finite hkeyed hpast)
  obtain ⟨v, hends⟩ := LoopEnds.exists_of_measure (fun w => (pending timeInMs w).ncard) hturn
    (show I w from ⟨hkeyed, hfits, hpast⟩)
  obtain ⟨fuel, hadvance⟩ := (exists_advanceToTime_iff consumers).mpr ⟨v, hends, rfl⟩
  exact ⟨fuel, _, hadvance⟩

/-- A repeating timer that is never late keeps the loop going. -/
theorem not_advanceToTime_of_never_late (hidle : Idle consumers) (hkeyed : w.provider.Keyed)
    {c e : ℕ} (ht : w.provider.timer c e = some t) (hrepeat : t.isRepeat = true)
    (hfits : t.nextTriggerTime < 2 ^ 32) (hnever : ∀ k, occurrence t k ≤ timeInMs)
    (fuel : ℕ) (w' : World σ) : advanceToTime consumers fuel timeInMs w ≠ some w' := by
  let I (w : World σ) : Prop :=
    w.provider.Keyed ∧ ∃ n, w.provider.timer c e = some (advanced t n)
  have hstart : I w := by
    refine ⟨hkeyed, 0, ?_⟩
    rw [ht, advanced, occurrence_zero hfits]
  have hguard : ∀ w, I w → isDue timeInMs w = true := by
    rintro w ⟨-, n, hn⟩
    exact isDue_of_timer hn (hnever n)
  have hturn : ∀ w, I w → I (fireNext consumers w) := by
    rintro w ⟨hkeyed, n, hn⟩
    obtain ⟨first, hnext, -, hfire⟩ := fireNext_of_isDue consumers (hguard w ⟨hkeyed, n, hn⟩)
    obtain ⟨⟨c', e', hfirst⟩, -⟩ := FakeTimerProvider.getNextTimer_spec hnext
    obtain ⟨rfl, rfl, -⟩ := hkeyed c' e' first hfirst
    rw [hfire]
    refine ⟨(keptBySteps_keyed consumers).fireTimer w first hnext hkeyed, ?_⟩
    rw [timer_fireTimer_wrapped hidle hkeyed hnext]
    by_cases hkey : c = first.consumer ∧ e = first.eventid
    · obtain rfl : first = advanced t n := by
        rw [hkey.1, hkey.2, hfirst] at hn
        exact Option.some.inj hn
      rw [if_pos hkey]
      refine ⟨n + 1, (if_pos hrepeat).trans (congrArg some ?_)⟩
      rw [advanced, occurrence_advanced]
      rfl
    · exact ⟨n, (if_neg hkey).trans hn⟩
  intro hadvance
  obtain ⟨v, hends, -⟩ := (exists_advanceToTime_iff consumers).mp ⟨fuel, hadvance⟩
  exact LoopEnds.not_of_invariant hguard hturn hstart v hends

/-- The last time of day at which a repeating timer ever goes off. -/
def latest (t : TimerInfo) : ℕ :=
  2 ^ 32 - t.interval.gcd (2 ^ 32) + t.nextTriggerTime % t.interval.gcd (2 ^ 32)

/-- With a table that any run has built, the clock can be advanced to a time just if every
repeating timer goes off after that time at some time. -/
theorem exists_advanceToTime_iff_latest {τ : Type} {builders : Consumers τ} {state : τ}
    {as : List Action} {v : World τ}
    (hrun : Run (step builders) (fun _ _ => True) (initial state) as v)
    (htable : w.provider = v.provider) (hidle : Idle consumers) :
    (∃ fuel w', advanceToTime consumers fuel timeInMs w = some w') ↔
      ∀ c e t, w.provider.timer c e = some t → t.isRepeat = true → timeInMs < latest t := by
  have hkeyed : w.provider.Keyed := htable ▸ keyed_of_run hrun
  have hfits : w.provider.Fits := htable ▸ fits_of_run hrun
  have hlatest : ∀ t, timeInMs < latest t ↔ ∃ k, timeInMs < occurrence t k :=
    fun t => (exists_lt_wrapped_iff (by decide)).symm
  simp only [hlatest]
  constructor
  · rintro ⟨fuel, w', hadvance⟩ c e t ht hrepeat
    by_contra hnever
    refine not_advanceToTime_of_never_late hidle hkeyed ht hrepeat (hfits c e t ht) ?_ fuel w'
      hadvance
    simpa using hnever
  · exact exists_advanceToTime_of_getsPast hidle hkeyed hfits

theorem idle_idle : Idle idle := fun _ _ _ _ => ⟨(), rfl⟩

theorem exists_advanceToTime_iff_latest_repeating :
    ∃ w, Run (step idle) (fun _ _ => True) (initial ())
        [.setTimer 1 7 10 true, .setTimer 2 3 20 false] w ∧
      ∃ fuel w', advanceToTime idle fuel 25 w = some w' := by
  let actions : List Action := [.setTimer 1 7 10 true, .setTimer 2 3 20 false]
  let w := (Run.execute (step idle) (fun _ _ => True) (initial ()) actions).get (by decide +kernel)
  have hrun : Run (step idle) (fun _ _ => True) (initial ()) actions w :=
    Run.of_execute (Option.some_get _).symm
  refine ⟨w, hrun, (exists_advanceToTime_iff_latest hrun rfl idle_idle).mpr ?_⟩
  intro c e t ht hrepeat
  have hmem : t ∈ w.provider.allInfos := FakeTimerProvider.mem_allInfos.mpr ⟨c, e, ht⟩
  have hall : ∀ t ∈ w.provider.allInfos, t.isRepeat = true → 25 < latest t := by decide +kernel
  exact hall t hmem hrepeat

/-- A timer that repeats with a delay of zero. -/
theorem not_exists_advanceToTime_zero :
    ∃ w, Run (step idle) (fun _ _ => True) (initial ()) [.setTimer 1 7 0 true] w ∧
      ∀ fuel w', advanceToTime idle fuel 25 w ≠ some w' := by
  let actions : List Action := [.setTimer 1 7 0 true]
  let w := (Run.execute (step idle) (fun _ _ => True) (initial ()) actions).get (by decide +kernel)
  have hrun : Run (step idle) (fun _ _ => True) (initial ()) actions w :=
    Run.of_execute (Option.some_get _).symm
  have ht : w.provider.timer 1 7 = some ⟨0, 1, 7, 0, 0, true⟩ := by decide +kernel
  refine ⟨w, hrun, not_advanceToTime_of_never_late idle_idle (keyed_of_run hrun) ht rfl
    (by decide) fun k => ?_⟩
  simp [occurrence]

end BluesTrading.TimerTermination
