import Mathlib.Tactic.SplitIfs
import Mathlib.Data.Nat.Notation

namespace BluesTrading.Foundations

universe u

variable {σ : Type u}

/-- The state in which the guard fails first, if it does so within `fuel` tests. -/
def whileLoop (guard : σ → Bool) (body : σ → σ) : ℕ → σ → Option σ
  | 0, _ => none
  | fuel + 1, s => if guard s then whileLoop guard body fuel (body s) else some s

def LoopEnds (guard : σ → Bool) (body : σ → σ) (s t : σ) : Prop :=
  ∃ fuel, whileLoop guard body fuel s = some t

variable {guard : σ → Bool} {body : σ → σ} {s t u : σ}

theorem whileLoop_of_le {fuel fuel' : ℕ} (hle : fuel ≤ fuel')
    (h : whileLoop guard body fuel s = some t) : whileLoop guard body fuel' s = some t := by
  induction fuel generalizing fuel' s with
  | zero => cases h
  | succ fuel ih =>
      obtain ⟨fuel', rfl⟩ := Nat.exists_eq_add_of_lt hle
      rw [whileLoop] at h ⊢
      split_ifs at h ⊢ with hguard
      · exact ih (by omega) h
      · exact h

/-- What every turn keeps holds when the loop ends, and the guard does not. -/
theorem whileLoop_invariant {I : σ → Prop} (hbody : ∀ s, guard s = true → I s → I (body s))
    {fuel : ℕ} (h : whileLoop guard body fuel s = some t) (hs : I s) :
    I t ∧ guard t = false := by
  induction fuel generalizing s with
  | zero => cases h
  | succ fuel ih =>
      rw [whileLoop] at h
      split_ifs at h with hguard
      · exact ih h (hbody s hguard hs)
      · obtain rfl := Option.some.inj h
        exact ⟨hs, by simpa using hguard⟩

namespace LoopEnds

theorem unique (ht : LoopEnds guard body s t) (hu : LoopEnds guard body s u) : t = u := by
  obtain ⟨fuel, ht⟩ := ht
  obtain ⟨fuel', hu⟩ := hu
  have ht' := whileLoop_of_le (Nat.le_max_left fuel fuel') ht
  have hu' := whileLoop_of_le (Nat.le_max_right fuel fuel') hu
  exact Option.some.inj (ht'.symm.trans hu')

theorem of_guard_eq_false (h : guard s = false) : LoopEnds guard body s s :=
  ⟨1, by rw [whileLoop, h]; rfl⟩

theorem iff_of_guard (h : guard s = true) :
    LoopEnds guard body s t ↔ LoopEnds guard body (body s) t := by
  constructor
  · rintro ⟨fuel, hfuel⟩
    cases fuel with
    | zero => cases hfuel
    | succ fuel =>
        rw [whileLoop, if_pos h] at hfuel
        exact ⟨fuel, hfuel⟩
  · rintro ⟨fuel, hfuel⟩
    exact ⟨fuel + 1, by rw [whileLoop, if_pos h, hfuel]⟩

theorem head (hguard : guard s = true) (h : LoopEnds guard body (body s) t) :
    LoopEnds guard body s t :=
  (iff_of_guard hguard).mpr h

/-- A loop ends if every turn that keeps an invariant lowers a measure. -/
theorem exists_of_measure {I : σ → Prop} (measure : σ → ℕ)
    (hbody : ∀ s, guard s = true → I s → I (body s) ∧ measure (body s) < measure s) (hs : I s) :
    ∃ t, LoopEnds guard body s t := by
  generalize hn : measure s = n
  induction n using Nat.strongRecOn generalizing s with
  | ind n ih =>
      cases hguard : guard s with
      | false => exact ⟨s, of_guard_eq_false hguard⟩
      | true =>
          obtain ⟨hnext, hlt⟩ := hbody s hguard hs
          obtain ⟨t, ht⟩ := ih (measure (body s)) (hn ▸ hlt) hnext rfl
          exact ⟨t, ht.head hguard⟩

/-- A loop does not end if every turn keeps its guard true. -/
theorem not_of_invariant {I : σ → Prop} (hguard : ∀ s, I s → guard s = true)
    (hbody : ∀ s, I s → I (body s)) (hs : I s) (t : σ) : ¬ LoopEnds guard body s t := by
  rintro ⟨fuel, hfuel⟩
  obtain ⟨ht, hdone⟩ := whileLoop_invariant (fun s _ => hbody s) hfuel hs
  rw [hguard t ht] at hdone
  cases hdone

/-- A loop can be interrupted by a stronger guard and be taken up again. -/
theorem trans_iff {guard' : σ → Bool} (hguard : ∀ s, guard s = true → guard' s = true) :
    (∃ t, LoopEnds guard body s t ∧ LoopEnds guard' body t u) ↔ LoopEnds guard' body s u := by
  constructor
  · rintro ⟨t, ⟨fuel, hst⟩, htu⟩
    induction fuel generalizing s with
    | zero => cases hst
    | succ fuel ih =>
        rw [whileLoop] at hst
        split_ifs at hst with hs
        · exact (ih hst).head (hguard s hs)
        · exact Option.some.inj hst ▸ htu
  · rintro ⟨fuel, hsu⟩
    induction fuel generalizing s with
    | zero => cases hsu
    | succ fuel ih =>
        cases hs : guard s with
        | false => exact ⟨s, of_guard_eq_false hs, fuel + 1, hsu⟩
        | true =>
            rw [whileLoop, if_pos (hguard s hs)] at hsu
            obtain ⟨t, hst, htu⟩ := ih hsu
            exact ⟨t, hst.head hs, htu⟩

end LoopEnds

/-- The states that a loop comes to, whether it ends or not. -/
inductive LoopReaches (guard : σ → Bool) (body : σ → σ) (s : σ) : σ → Prop
  | start : LoopReaches guard body s s
  | turn {t : σ} : LoopReaches guard body s t → guard t = true →
      LoopReaches guard body s (body t)

theorem LoopReaches.invariant {I : σ → Prop} (hbody : ∀ s, guard s = true → I s → I (body s))
    (h : LoopReaches guard body s t) (hs : I s) : I t := by
  induction h with
  | start => exact hs
  | turn _ hguard ih => exact hbody _ hguard ih

end BluesTrading.Foundations
