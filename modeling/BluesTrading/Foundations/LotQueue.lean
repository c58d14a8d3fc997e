import Mathlib

namespace BluesTrading.Foundations.LotQueue

universe u v

variable {α : Type u}

def units (q : List (α × ℕ)) : List α :=
  q.flatMap fun lot => List.replicate lot.2 lot.1

@[simp] theorem units_nil : units ([] : List (α × ℕ)) = [] := rfl

@[simp] theorem units_cons (lot : α × ℕ) (q : List (α × ℕ)) :
    units (lot :: q) = List.replicate lot.2 lot.1 ++ units q := rfl

@[simp] theorem units_append (q r : List (α × ℕ)) :
    units (q ++ r) = units q ++ units r :=
  List.flatMap_append

theorem length_units (q : List (α × ℕ)) :
    (units q).length = (q.map Prod.snd).sum := by
  induction q with
  | nil => rfl
  | cons lot q ih => simp [ih]

/-- Remove the `n` oldest units.  A lot that is used up leaves the queue, also
when it was empty already. -/
def consume : ℕ → List (α × ℕ) → List (α × ℕ)
  | _, [] => []
  | n, (a, k) :: q =>
      if n = 0 then (a, k) :: q
      else if k ≤ n then consume (n - k) q
      else (a, k - n) :: q

theorem units_consume (n : ℕ) (q : List (α × ℕ)) :
    units (consume n q) = (units q).drop n := by
  induction q generalizing n with
  | nil => simp [consume]
  | cons lot q ih =>
      obtain ⟨a, k⟩ := lot
      rw [consume]
      split_ifs with hzero hle
      · simp [hzero]
      · rw [ih, units_cons, List.drop_append]
        simp [hle]
      · have hlt : n ≤ k := by omega
        rw [units_cons, units_cons, List.drop_append]
        simp [Nat.sub_eq_zero_of_le hlt]

section Valuation

variable {A : Type v} [AddCommMonoid A]

theorem sum_map_units (f : α → A) (q : List (α × ℕ)) :
    ((units q).map f).sum = (q.map fun lot => lot.2 • f lot.1).sum := by
  induction q with
  | nil => rfl
  | cons lot q ih => simp [ih]

def matchedSum (f : α → A) : ℕ → List (α × ℕ) → A
  | _, [] => 0
  | n, (a, k) :: q =>
      if n = 0 then 0
      else if k ≤ n then k • f a + matchedSum f (n - k) q
      else n • f a

theorem matchedSum_eq (f : α → A) (n : ℕ) (q : List (α × ℕ)) :
    matchedSum f n q = (((units q).take n).map f).sum := by
  induction q generalizing n with
  | nil => simp [matchedSum]
  | cons lot q ih =>
      obtain ⟨a, k⟩ := lot
      rw [matchedSum, units_cons, List.take_append]
      split_ifs with hzero hle
      · simp [hzero]
      · simp [ih, hle]
      · have hlt : n ≤ k := by omega
        simp [hlt, Nat.sub_eq_zero_of_le hlt]

end Valuation

/-- Replacing the oldest units by units of one value, several times over, is
the same as doing it once for the total: the queue turns over without ever
running dry. -/
theorem foldl_turnover (p : α) (counts : List ℕ) (us : List α)
    (h : counts.sum ≤ us.length) :
    counts.foldl (fun us n => us.drop n ++ List.replicate n p) us =
      us.drop counts.sum ++ List.replicate counts.sum p := by
  induction counts using List.reverseRecOn with
  | nil => simp
  | append_singleton counts n ih =>
      have hsum : (counts ++ [n]).sum = counts.sum + n := by simp
      rw [hsum] at h ⊢
      rw [List.foldl_append, ih (by omega)]
      simp only [List.foldl_cons, List.foldl_nil]
      rw [List.drop_append, List.drop_drop, List.length_drop,
        Nat.sub_eq_zero_of_le (by omega), List.drop_zero, List.append_assoc,
        List.replicate_append_replicate]

end BluesTrading.Foundations.LotQueue
