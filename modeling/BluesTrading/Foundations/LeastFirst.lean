import BluesTrading.Foundations.WhileLoop
import Mathlib.Data.Set.Card

namespace BluesTrading.Foundations

universe u v

/-- While anything is pending, a turn puts out the least pending element, and just that element
is not pending any more. -/
structure TakesLeast {σ : Type u} {κ : Type v} [LinearOrder κ] (guard : σ → Bool) (body : σ → σ)
    (pending : σ → Set κ) (output : σ → List κ) (I : σ → Prop) : Prop where
  idle : ∀ s, I s → guard s = false → pending s = ∅
  turn : ∀ s, I s → guard s = true → I (body s) ∧ ∃ least ∈ pending s,
    (∀ k ∈ pending s, least ≤ k) ∧ pending (body s) = pending s \ {least} ∧
      output (body s) = output s ++ [least]

namespace TakesLeast

variable {σ : Type u} {κ : Type v} [LinearOrder κ] {guard : σ → Bool} {body : σ → σ}
  {pending : σ → Set κ} {output : σ → List κ} {I : σ → Prop}

/-- The loop ends, and its output is the sorted list of what was pending. -/
theorem loopEnds (h : TakesLeast guard body pending output I) {s : σ} (hs : I s)
    (hfinite : (pending s).Finite) :
    ∃ t, LoopEnds guard body s t ∧ I t ∧ pending t = ∅ ∧
      ∃ done, output t = output s ++ done ∧ done.Pairwise (· < ·) ∧
        ∀ k, k ∈ done ↔ k ∈ pending s := by
  generalize hcard : (pending s).ncard = n
  induction n generalizing s with
  | zero =>
      have hempty : pending s = ∅ := (Set.ncard_eq_zero hfinite).mp hcard
      cases hguard : guard s with
      | false =>
          exact ⟨s, .of_guard_eq_false hguard, hs, hempty, [], by simp, List.Pairwise.nil,
            by simp [hempty]⟩
      | true =>
          obtain ⟨-, least, hleast, -⟩ := h.turn s hs hguard
          rw [hempty] at hleast
          cases hleast
  | succ n ih =>
      cases hguard : guard s with
      | false =>
          rw [h.idle s hs hguard, Set.ncard_empty] at hcard
          cases hcard
      | true =>
          obtain ⟨hbody, least, hleast, hle, hrest, hout⟩ := h.turn s hs hguard
          have hfewer : (pending (body s)).ncard = n := by
            rw [hrest, Set.ncard_sdiff_singleton_of_mem hleast, hcard, Nat.add_sub_cancel]
          obtain ⟨t, hends, ht, hempty, done, hdone, hsorted, hmem⟩ :=
            ih hbody (hrest ▸ hfinite.sdiff) hfewer
          refine ⟨t, hends.head hguard, ht, hempty, least :: done, ?_, ?_, fun k => ?_⟩
          · rw [hdone, hout, List.append_assoc, List.singleton_append]
          · refine List.pairwise_cons.mpr ⟨fun k hk => ?_, hsorted⟩
            have hpending := (hmem k).mp hk
            rw [hrest] at hpending
            exact lt_of_le_of_ne (hle k hpending.1) (Ne.symm hpending.2)
          · rw [List.mem_cons, hmem k, hrest, Set.mem_sdiff_singleton]
            constructor
            · rintro (rfl | hk)
              · exact hleast
              · exact hk.1
            · intro hk
              by_cases heq : k = least
              · exact .inl heq
              · exact .inr ⟨hk, heq⟩

end TakesLeast

end BluesTrading.Foundations
