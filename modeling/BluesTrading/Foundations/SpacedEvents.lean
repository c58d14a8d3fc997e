import Mathlib.Data.List.Basic
import Mathlib.Data.Nat.Notation
import Mathlib.Order.Basic
import Mathlib.Tactic.SplitIfs

namespace BluesTrading.Foundations

universe u

variable {κ : Type u} [DecidableEq κ]

def stamps (key : κ) (log : List (κ × ℕ)) : List ℕ := (log.filter (·.1 = key)).map (·.2)

/-- Any two events of the same key are at least `gap` apart. -/
def Spaced (gap : ℕ) (log : List (κ × ℕ)) : Prop :=
  ∀ key, (stamps key log).Pairwise fun t u => t + gap ≤ u

variable {key : κ} {log : List (κ × ℕ)} {gap now : ℕ}

@[simp] theorem stamps_nil (key : κ) : stamps key ([] : List (κ × ℕ)) = [] := rfl

theorem stamps_append_self (key : κ) (log : List (κ × ℕ)) (now : ℕ) :
    stamps key (log ++ [(key, now)]) = stamps key log ++ [now] := by
  simp [stamps]

theorem stamps_append_of_ne {key key' : κ} (h : key' ≠ key) (log : List (κ × ℕ)) (now : ℕ) :
    stamps key (log ++ [(key', now)]) = stamps key log := by
  simp [stamps, h]

theorem mem_of_mem_stamps {t : ℕ} (h : t ∈ stamps key log) : (key, t) ∈ log := by
  obtain ⟨⟨key', t'⟩, hmem, rfl⟩ := List.mem_map.mp h
  obtain ⟨hlog, hkey⟩ := List.mem_filter.mp hmem
  obtain rfl := of_decide_eq_true hkey
  exact hlog

theorem spaced_nil (gap : ℕ) : Spaced gap ([] : List (κ × ℕ)) := fun _ => List.Pairwise.nil

/-- What is remembered of a key: the time of its last event, and zero before the first. -/
structure Stamped (key : κ) (log : List (κ × ℕ)) (last : ℕ) : Prop where
  first : stamps key log = [] → last = 0
  mem : stamps key log ≠ [] → last ∈ stamps key log
  le : ∀ t ∈ stamps key log, t ≤ last

namespace Stamped

variable {last : ℕ}

theorem nil (key : κ) : Stamped key [] 0 := ⟨fun _ => rfl, fun h => absurd rfl h, by simp⟩

theorem append (h : Stamped key log last) (hnow : last ≤ now) :
    Stamped key (log ++ [(key, now)]) now := by
  have hstamps := stamps_append_self key log now
  refine ⟨fun hnil => ?_, fun _ => ?_, fun t ht => ?_⟩
  · simp [hstamps] at hnil
  · simp [hstamps]
  · rw [hstamps, List.mem_append, List.mem_singleton] at ht
    rcases ht with hold | rfl
    · exact Nat.le_trans (h.le t hold) hnow
    · exact Nat.le_refl t

theorem append_of_ne {key' : κ} (h : Stamped key log last) (hne : key' ≠ key) (now : ℕ) :
    Stamped key (log ++ [(key', now)]) last := by
  have hstamps := stamps_append_of_ne hne log now
  exact ⟨hstamps ▸ h.first, hstamps ▸ h.mem, hstamps ▸ h.le⟩

/-- An event may be added if it is late enough after the time that is remembered. -/
theorem spaced_append_iff (h : Stamped key log last) :
    Spaced gap (log ++ [(key, now)]) ↔
      Spaced gap log ∧ (stamps key log ≠ [] → last + gap ≤ now) := by
  constructor
  · intro hspaced
    refine ⟨fun key' => ?_, fun hne => ?_⟩
    · by_cases hkey : key' = key
      · have hown := hspaced key
        rw [stamps_append_self, List.pairwise_append] at hown
        exact hkey ▸ hown.1
      · have hother := hspaced key'
        rwa [stamps_append_of_ne (Ne.symm hkey)] at hother
    · have hown := hspaced key
      rw [stamps_append_self, List.pairwise_append] at hown
      exact hown.2.2 last (h.mem hne) now (List.mem_singleton_self now)
  · rintro ⟨hspaced, hlate⟩ key'
    by_cases hkey : key' = key
    · subst hkey
      rw [stamps_append_self, List.pairwise_append]
      refine ⟨hspaced key', List.pairwise_singleton _ now, fun t ht u hu => ?_⟩
      obtain rfl := List.mem_singleton.mp hu
      exact Nat.le_trans (Nat.add_le_add_right (h.le t ht) gap) (hlate (List.ne_nil_of_mem ht))
    · rw [stamps_append_of_ne (Ne.symm hkey)]
      exact hspaced key'

theorem append_replicate (h : Stamped key log last) (hnow : last ≤ now) (k : ℕ) :
    Stamped key (log ++ List.replicate k (key, now)) (if k = 0 then last else now) := by
  induction k with
  | zero => simpa using h
  | succ k ih =>
      have hle : (if k = 0 then last else now) ≤ now := by
        split_ifs
        · exact hnow
        · exact Nat.le_refl now
      rw [if_neg k.succ_ne_zero, List.replicate_succ', ← List.append_assoc]
      exact ih.append hle

theorem append_replicate_of_ne {key' : κ} (h : Stamped key log last) (hne : key' ≠ key)
    (now k : ℕ) : Stamped key (log ++ List.replicate k (key', now)) last := by
  induction k with
  | zero => simpa using h
  | succ k ih =>
      rw [List.replicate_succ', ← List.append_assoc]
      exact ih.append_of_ne hne now

theorem spaced_append_replicate_iff (h : Stamped key log last) (hnow : last ≤ now) (k : ℕ) :
    Spaced gap (log ++ List.replicate k (key, now)) ↔
      Spaced gap log ∧ (0 < k → stamps key log ≠ [] → last + gap ≤ now) ∧ (1 < k → gap = 0) := by
  induction k with
  | zero => simp
  | succ k ih =>
      rw [List.replicate_succ', ← List.append_assoc,
        (h.append_replicate hnow k).spaced_append_iff, ih]
      cases k with
      | zero => simp
      | succ k =>
          have hne : stamps key (log ++ List.replicate (k + 1) (key, now)) ≠ [] := by
            simp [stamps, List.filter_append, List.replicate_succ]
          rw [if_neg k.succ_ne_zero]
          constructor
          · rintro ⟨⟨hspaced, hlate, -⟩, hzero⟩
            have hgap := hzero hne
            exact ⟨hspaced, fun _ => hlate k.succ_pos, fun _ => by omega⟩
          · rintro ⟨hspaced, hlate, hzero⟩
            have hgap := hzero (by omega)
            exact ⟨⟨hspaced, fun _ => hlate (by omega), fun _ => hgap⟩, fun _ => by omega⟩

end Stamped

end BluesTrading.Foundations
