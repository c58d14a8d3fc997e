import BluesTrading.Foundations.OrderedMap

namespace BluesTrading.Foundations.OrderedMap

universe u v

variable {κ : Type u} {ν : Type v} [LinearOrder κ]

def first? (m : OrderedMap κ ν) : Option κ := m.entries.head?.map Prod.fst

/-- The first key after another one. -/
def next? (m : OrderedMap κ ν) (k : κ) : Option κ :=
  (m.entries.find? fun e => decide (k < e.1)).map Prod.fst

def increment (m : OrderedMap κ ν) : Option κ → Option (Option κ)
  | none => none
  | some k => some (m.next? k)

section Split

variable {m : OrderedMap κ ν} {before after : List (κ × ν)} {k : κ} {x : ν}

theorem lt_of_split (h : m.entries = before ++ (k, x) :: after) :
    (∀ e ∈ before, e.1 < k) ∧ ∀ e ∈ after, k < e.1 := by
  obtain ⟨-, hafter, hbefore⟩ := List.pairwise_append.mp (h ▸ m.sorted)
  exact ⟨fun e he => hbefore e he (k, x) List.mem_cons_self, (List.pairwise_cons.mp hafter).1⟩

theorem find?_of_split (h : m.entries = before ++ (k, x) :: after) : m.find? k = some x := by
  rw [← mem_entries_iff, h]
  exact List.mem_append_right before List.mem_cons_self

theorem next?_of_split (h : m.entries = before ++ (k, x) :: after) :
    m.next? k = after.head?.map Prod.fst := by
  obtain ⟨hbefore, hafter⟩ := lt_of_split h
  have hnone : (before.find? fun e => decide (k < e.1)) = none :=
    List.find?_eq_none.mpr fun e he => by simpa using (hbefore e he).le
  rw [next?, h, List.find?_append, hnone, Option.none_or, List.find?_cons_of_neg (by simp)]
  cases after with
  | nil => rfl
  | cons e after =>
      rw [List.find?_cons_of_pos (by simpa using hafter e List.mem_cons_self)]
      rfl

theorem entries_erase_of_split (h : m.entries = before ++ (k, x) :: after) :
    (m.erase k).entries = before ++ after := by
  obtain ⟨hbefore, hafter⟩ := lt_of_split h
  have hkeep : ∀ l : List (κ × ν), (∀ e ∈ l, e.1 ≠ k) → (l.filter fun e => e.1 ≠ k) = l :=
    fun l hl => List.filter_eq_self.mpr fun e he => by simpa using hl e he
  change (m.entries.filter fun e => e.1 ≠ k) = before ++ after
  rw [h, List.filter_append, List.filter_cons_of_neg (by simp),
    hkeep before fun e he => (hbefore e he).ne, hkeep after fun e he => (hafter e he).ne']

end Split

end BluesTrading.Foundations.OrderedMap
