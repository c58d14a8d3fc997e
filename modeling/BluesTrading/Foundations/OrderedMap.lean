import Mathlib

/-!
Finite maps that are iterated in key order.  The entries are kept strictly
sorted, so two maps with the same lookups are equal and a traversal of the
entries is the traversal of a balanced search tree.
-/

namespace BluesTrading.Foundations

universe u v w

/-- A finite map with its entries in strictly ascending key order. -/
structure OrderedMap (κ : Type u) (ν : Type v) [LinearOrder κ] where
  entries : List (κ × ν)
  sorted : entries.Pairwise fun a b => a.1 < b.1

namespace OrderedMap

variable {κ : Type u} {ν : Type v} [LinearOrder κ]

instance [DecidableEq ν] : DecidableEq (OrderedMap κ ν) := fun m₁ m₂ =>
  decidable_of_iff (m₁.entries = m₂.entries) (by
    cases m₁
    cases m₂
    simp)

def empty : OrderedMap κ ν := ⟨[], List.Pairwise.nil⟩

instance : Inhabited (OrderedMap κ ν) := ⟨empty⟩

def find? (m : OrderedMap κ ν) (k : κ) : Option ν :=
  m.entries.lookup k

def keys (m : OrderedMap κ ν) : List κ := m.entries.map Prod.fst

def values (m : OrderedMap κ ν) : List ν := m.entries.map Prod.snd

/-- Sorted insertion; an entry under the same key is replaced. -/
def insertEntry (k : κ) (x : ν) : List (κ × ν) → List (κ × ν)
  | [] => [(k, x)]
  | (k', x') :: rest =>
      if k < k' then (k, x) :: (k', x') :: rest
      else if k = k' then (k, x) :: rest
      else (k', x') :: insertEntry k x rest

theorem mem_insertEntry {k : κ} {x : ν} {a : κ × ν} {l : List (κ × ν)} :
    a ∈ insertEntry k x l → a = (k, x) ∨ a ∈ l := by
  induction l with
  | nil => simp [insertEntry]
  | cons head tail ih =>
      obtain ⟨k', x'⟩ := head
      rw [insertEntry]
      split_ifs <;> grind

theorem insertEntry_sorted (k : κ) (x : ν) {l : List (κ × ν)}
    (h : l.Pairwise fun a b => a.1 < b.1) :
    (insertEntry k x l).Pairwise fun a b => a.1 < b.1 := by
  induction l with
  | nil => simp [insertEntry]
  | cons head tail ih =>
      obtain ⟨k', x'⟩ := head
      obtain ⟨hhead, htail⟩ := List.pairwise_cons.mp h
      rw [insertEntry]
      split_ifs with hlt heq
      · refine List.pairwise_cons.mpr ⟨?_, h⟩
        intro a ha
        rcases List.mem_cons.mp ha with rfl | ha
        · exact hlt
        · exact hlt.trans (hhead a ha)
      · subst heq
        exact List.pairwise_cons.mpr ⟨hhead, htail⟩
      · refine List.pairwise_cons.mpr ⟨?_, ih htail⟩
        intro a ha
        rcases mem_insertEntry ha with rfl | ha
        · exact lt_of_le_of_ne (not_lt.mp hlt) (Ne.symm heq)
        · exact hhead a ha

def insert (m : OrderedMap κ ν) (k : κ) (x : ν) : OrderedMap κ ν :=
  ⟨insertEntry k x m.entries, insertEntry_sorted k x m.sorted⟩

def erase (m : OrderedMap κ ν) (k : κ) : OrderedMap κ ν :=
  ⟨m.entries.filter fun e => e.1 ≠ k, m.sorted.filter _⟩

def mapValues {ω : Type w} (m : OrderedMap κ ν) (f : κ → ν → ω) : OrderedMap κ ω :=
  ⟨m.entries.map fun e => (e.1, f e.1 e.2), List.pairwise_map.mpr m.sorted⟩

theorem lookup_cons_ite (k j : κ) (y : ν) (l : List (κ × ν)) :
    ((j, y) :: l).lookup k = if k = j then some y else l.lookup k := by
  by_cases h : k = j
  · simp [h]
  · rw [List.lookup_cons, beq_false_of_ne h, if_neg h]

theorem lookup_insertEntry (k k' : κ) (x : ν) (l : List (κ × ν)) :
    (insertEntry k x l).lookup k' = if k' = k then some x else l.lookup k' := by
  induction l with
  | nil => simp [insertEntry, lookup_cons_ite]
  | cons head tail ih =>
      obtain ⟨j, y⟩ := head
      rw [insertEntry]
      split_ifs with hlt heq hself hself
      all_goals simp only [lookup_cons_ite, ih]
      all_goals grind

@[simp] theorem find?_empty (k : κ) : (empty : OrderedMap κ ν).find? k = none := rfl

theorem find?_insert (m : OrderedMap κ ν) (k k' : κ) (x : ν) :
    (m.insert k x).find? k' = if k' = k then some x else m.find? k' :=
  lookup_insertEntry k k' x m.entries

@[simp] theorem find?_insert_self (m : OrderedMap κ ν) (k : κ) (x : ν) :
    (m.insert k x).find? k = some x := by
  simp [find?_insert]

theorem find?_insert_of_ne (m : OrderedMap κ ν) {k k' : κ} (x : ν) (h : k' ≠ k) :
    (m.insert k x).find? k' = m.find? k' := by
  simp [find?_insert, h]

theorem lookup_eq_none_of_forall_lt {k : κ} {l : List (κ × ν)}
    (h : ∀ e ∈ l, k < e.1) : l.lookup k = none := by
  rw [List.lookup_eq_none_iff]
  intro e he
  simpa using (h e he).ne

theorem mem_entries_iff (m : OrderedMap κ ν) (k : κ) (x : ν) :
    (k, x) ∈ m.entries ↔ m.find? k = some x := by
  obtain ⟨l, hl⟩ := m
  simp only [find?]
  induction l with
  | nil => simp
  | cons head tail ih =>
      obtain ⟨j, y⟩ := head
      obtain ⟨hhead, htail⟩ := List.pairwise_cons.mp hl
      by_cases h : k = j
      · subst h
        have hnot : (k, x) ∉ tail := fun hmem => lt_irrefl k (hhead (k, x) hmem)
        simp [hnot, eq_comm]
      · simp [lookup_cons_ite, h, ih htail]

theorem find?_erase (m : OrderedMap κ ν) (k k' : κ) :
    (m.erase k).find? k' = if k' = k then none else m.find? k' := by
  ext x
  rw [← mem_entries_iff, erase, List.mem_filter, mem_entries_iff]
  split_ifs with h <;> simp [h]

theorem find?_mapValues {ω : Type w} (m : OrderedMap κ ν) (f : κ → ν → ω) (k : κ) :
    (m.mapValues f).find? k = (m.find? k).map (f k) := by
  obtain ⟨l, hl⟩ := m
  simp only [find?, mapValues]
  induction l with
  | nil => simp
  | cons head tail ih =>
      obtain ⟨j, y⟩ := head
      by_cases h : k = j
      · subst h
        simp
      · simp [lookup_cons_ite, h, ih (List.pairwise_cons.mp hl).2]

theorem keys_nodup (m : OrderedMap κ ν) : m.keys.Nodup :=
  List.pairwise_map.mpr (m.sorted.imp fun hlt => hlt.ne)

theorem eq_of_entries {m₁ m₂ : OrderedMap κ ν} (h : m₁.entries = m₂.entries) : m₁ = m₂ := by
  cases m₁
  cases m₂
  congr

@[ext] theorem ext {m₁ m₂ : OrderedMap κ ν} (h : ∀ k, m₁.find? k = m₂.find? k) :
    m₁ = m₂ := by
  have hmem : ∀ e, e ∈ m₁.entries ↔ e ∈ m₂.entries := by
    rintro ⟨k, x⟩
    rw [mem_entries_iff, mem_entries_iff, h]
  have hnodup : ∀ m : OrderedMap κ ν, m.entries.Nodup := fun m =>
    List.Nodup.of_map Prod.fst m.keys_nodup
  have hperm : m₁.entries.Perm m₂.entries :=
    (List.perm_ext_iff_of_nodup (hnodup m₁) (hnodup m₂)).mpr hmem
  have hentries : m₁.entries = m₂.entries :=
    hperm.eq_of_pairwise (fun a b _ _ hab hba => absurd hab hba.asymm) m₁.sorted m₂.sorted
  exact eq_of_entries hentries

theorem insert_insert (m : OrderedMap κ ν) (k : κ) (x y : ν) :
    (m.insert k x).insert k y = m.insert k y := by
  ext k' : 1
  rw [find?_insert, find?_insert, find?_insert]
  split_ifs <;> rfl

theorem find?_foldl_erase (m : OrderedMap κ ν) (ks : List κ) (k : κ) :
    (ks.foldl erase m).find? k = if k ∈ ks then none else m.find? k := by
  induction ks generalizing m with
  | nil => rfl
  | cons head tail ih =>
      rw [List.foldl_cons, ih, find?_erase]
      by_cases h : k = head
      · simp [h]
      · simp [h]

theorem foldl_erase_eq_empty (m : OrderedMap κ ν) {ks : List κ}
    (h : ∀ k x, m.find? k = some x → k ∈ ks) : ks.foldl erase m = empty := by
  ext k : 1
  rw [find?_foldl_erase, find?_empty]
  split_ifs with hk
  · rfl
  · cases hfound : m.find? k with
    | none => rfl
    | some x => exact absurd (h k x hfound) hk

theorem mapValues_insert {ω : Type w} (m : OrderedMap κ ν) (f : κ → ν → ω) (k : κ) (x : ν) :
    (m.insert k x).mapValues f = (m.mapValues f).insert k (f k x) := by
  ext1 j
  by_cases h : j = k
  · subst h
    simp [find?_mapValues]
  · simp [find?_mapValues, find?_insert, h]

/-- Assignments under the keys of a sorted list of entries, made one after the other. -/
theorem find?_foldl_insert (m : OrderedMap κ ν) (f : κ → ν → ν) {l : List (κ × ν)}
    (hl : l.Pairwise fun a b => a.1 < b.1) (k : κ) :
    (l.foldl (fun acc e => acc.insert e.1 (f e.1 e.2)) m).find? k =
      ((l.lookup k).map (f k)).or (m.find? k) := by
  induction l generalizing m with
  | nil => rfl
  | cons head tail ih =>
      obtain ⟨j, y⟩ := head
      obtain ⟨hhead, htail⟩ := List.pairwise_cons.mp hl
      rw [List.foldl_cons, ih _ htail, lookup_cons_ite, find?_insert]
      by_cases h : k = j
      · subst h
        have hnone : tail.lookup k = none := lookup_eq_none_of_forall_lt hhead
        rw [hnone, if_pos rfl, if_pos rfl]
        rfl
      · rw [if_neg h, if_neg h]

/-- A loop over the entries that assigns to each of them. -/
theorem foldl_insert_entries (m : OrderedMap κ ν) (f : κ → ν → ν) :
    m.entries.foldl (fun acc e => acc.insert e.1 (f e.1 e.2)) m = m.mapValues f := by
  ext1 k
  rw [find?_foldl_insert m f m.sorted, find?_mapValues, ← find?]
  cases m.find? k <;> rfl

/-! ### The entries under some keys -/

theorem filter_key {l : List (κ × ν)} (hl : l.Pairwise fun a b => a.1 < b.1) (k : κ) :
    l.filter (fun e => e.1 = k) = ((l.lookup k).map fun x => (k, x)).toList := by
  induction l with
  | nil => rfl
  | cons head tail ih =>
      obtain ⟨j, y⟩ := head
      obtain ⟨hhead, htail⟩ := List.pairwise_cons.mp hl
      rw [lookup_cons_ite]
      by_cases h : k = j
      · subst h
        have hnone : tail.lookup k = none := lookup_eq_none_of_forall_lt hhead
        rw [List.filter_cons_of_pos (by simp), ih htail, hnone, if_pos rfl]
        rfl
      · rw [List.filter_cons_of_neg (by simpa using Ne.symm h), ih htail, if_neg h]

/-- The entries under two keys are in the order of the keys. -/
theorem filter_keys {l : List (κ × ν)} (hl : l.Pairwise fun a b => a.1 < b.1) {j k : κ}
    (hlt : j < k) :
    l.filter (fun e => e.1 = j ∨ e.1 = k) =
      l.filter (fun e => e.1 = j) ++ l.filter fun e => e.1 = k := by
  induction l with
  | nil => rfl
  | cons head tail ih =>
      obtain ⟨i, y⟩ := head
      obtain ⟨hhead, htail⟩ := List.pairwise_cons.mp hl
      by_cases hj : i = j
      · have hk : i ≠ k := fun h => absurd (hj.symm.trans h) hlt.ne
        rw [List.filter_cons_of_pos (by simp [hj]), List.filter_cons_of_pos (by simp [hj]),
          List.filter_cons_of_neg (by simpa using hk), ih htail, List.cons_append]
      · by_cases hk : i = k
        · have hnone : tail.filter (fun e => e.1 = j) = [] := by
            rw [List.filter_eq_nil_iff]
            intro e he
            have hlater : i < e.1 := hhead e he
            simpa using (hlt.trans (hk ▸ hlater)).ne'
          rw [List.filter_cons_of_pos (by simp [hk]), List.filter_cons_of_neg (by simpa using hj),
            List.filter_cons_of_pos (by simp [hk]), ih htail, hnone]
          rfl
        · rw [List.filter_cons_of_neg (by simp [hj, hk]),
            List.filter_cons_of_neg (by simpa using hj),
            List.filter_cons_of_neg (by simpa using hk), ih htail]

section Sums

variable {A : Type w} [AddCommGroup A]

def sumEntries (m : OrderedMap κ ν) (g : κ → ν → A) : A :=
  (m.entries.map fun e => g e.1 e.2).sum

@[simp] theorem sumEntries_empty (g : κ → ν → A) :
    (empty : OrderedMap κ ν).sumEntries g = 0 := rfl

theorem sumEntries_mapValues {ω : Type v} (m : OrderedMap κ ν) (f : κ → ν → ω)
    (g : κ → ω → A) :
    (m.mapValues f).sumEntries g = m.sumEntries fun k x => g k (f k x) := by
  simp [sumEntries, mapValues, Function.comp_def]

theorem sumEntries_congr (m : OrderedMap κ ν) {g g' : κ → ν → A}
    (h : ∀ k x, m.find? k = some x → g k x = g' k x) :
    m.sumEntries g = m.sumEntries g' := by
  simp only [sumEntries]
  congr 1
  apply List.map_congr_left
  rintro ⟨k, x⟩ hmem
  exact h k x ((mem_entries_iff m k x).mp hmem)

theorem sumEntries_add (m : OrderedMap κ ν) (g g' : κ → ν → A) :
    (m.sumEntries fun k x => g k x + g' k x) = m.sumEntries g + m.sumEntries g' := by
  simp [sumEntries, List.sum_map_add]

theorem sum_insertEntry (k : κ) (x : ν) {g g' : κ → ν → A} {l : List (κ × ν)}
    (hl : l.Pairwise fun a b => a.1 < b.1)
    (hother : ∀ j y, j ≠ k → g' j y = g j y) :
    ((insertEntry k x l).map fun e => g' e.1 e.2).sum + (l.lookup k).elim 0 (g k) =
      (l.map fun e => g e.1 e.2).sum + g' k x := by
  have hmap : ∀ l : List (κ × ν), (∀ e ∈ l, e.1 ≠ k) →
      (l.map fun e => g' e.1 e.2) = l.map fun e => g e.1 e.2 := by
    intro l hne
    apply List.map_congr_left
    intro e he
    exact hother e.1 e.2 (hne e he)
  induction l with
  | nil => simp [insertEntry]
  | cons head tail ih =>
      obtain ⟨j, y⟩ := head
      obtain ⟨hhead, htail⟩ := List.pairwise_cons.mp hl
      rw [insertEntry]
      split_ifs with hlt heq
      · have hlast : ∀ e ∈ (j, y) :: tail, k < e.1 := by
          intro e he
          rcases List.mem_cons.mp he with rfl | he
          · exact hlt
          · exact hlt.trans (hhead e he)
        rw [lookup_eq_none_of_forall_lt hlast, List.map_cons, List.sum_cons,
          hmap _ fun e he => (hlast e he).ne']
        simp only [Option.elim_none]
        abel
      · subst heq
        rw [List.lookup_cons_self, List.map_cons, List.sum_cons,
          hmap tail fun e he => (hhead e he).ne']
        simp only [Option.elim_some, List.map_cons, List.sum_cons]
        abel
      · rw [lookup_cons_ite, if_neg heq, List.map_cons, List.sum_cons, List.map_cons,
          List.sum_cons, add_assoc, ih htail, hother j y (Ne.symm heq), add_assoc]

/-- A sum over the entries survives an assignment that keeps the summand at
the assigned key, an absent key counting as zero. -/
theorem sumEntries_insert_eq (m : OrderedMap κ ν) (k : κ) (x : ν) {g g' : κ → ν → A}
    (hother : ∀ j y, j ≠ k → g' j y = g j y)
    (hself : g' k x = (m.find? k).elim 0 (g k)) :
    (m.insert k x).sumEntries g' = m.sumEntries g := by
  have hsum : (m.insert k x).sumEntries g' + (m.find? k).elim 0 (g k) =
      m.sumEntries g + g' k x := sum_insertEntry k x m.sorted hother
  rw [hself] at hsum
  exact add_right_cancel hsum

end Sums

end OrderedMap

end BluesTrading.Foundations
