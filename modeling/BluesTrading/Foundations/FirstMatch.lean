import Mathlib.Data.List.Basic

namespace BluesTrading.Foundations

universe u v w

variable {α : Type u} {κ : Type v} {ν : Type w} [DecidableEq κ] (key : α → κ) (write : ν → α → α)

def writeFirst (l : List α) (a : κ × ν) : List α :=
  l.replaceF fun x => if key x = a.1 then some (write a.2 x) else none

/-- An element with the value that is written under its key, if there is one. -/
def assigned (writes : List (κ × ν)) (x : α) : α :=
  match writes.lookup (key x) with
  | some value => write value x
  | none => x

def assignFirst (writes : List (κ × ν)) : List κ → List α → List α
  | _, [] => []
  | seen, x :: l =>
      (if key x ∈ seen then x else assigned key write writes x) ::
        assignFirst writes (key x :: seen) l

variable {key write} {writes : List (κ × ν)}

theorem writeFirst_cons (x : α) (l : List α) (a : κ × ν) :
    writeFirst key write (x :: l) a =
      if key x = a.1 then write a.2 x :: l else x :: writeFirst key write l a := by
  rw [writeFirst, List.replaceF_cons]
  split_ifs
  · rfl
  · rfl

theorem map_key_writeFirst (hkey : ∀ value x, key (write value x) = key x) (l : List α)
    (a : κ × ν) : (writeFirst key write l a).map key = l.map key := by
  induction l with
  | nil => rfl
  | cons x l ih =>
      rw [writeFirst_cons]
      split_ifs
      · rw [List.map_cons, List.map_cons, hkey]
      · rw [List.map_cons, List.map_cons, ih]

@[simp] theorem assigned_nil (x : α) : assigned key write [] x = x := rfl

theorem assigned_cons (a : κ × ν) (x : α) :
    assigned key write (a :: writes) x =
      if key x = a.1 then write a.2 x else assigned key write writes x := by
  rw [assigned, List.lookup_cons]
  split_ifs with h
  · rw [beq_iff_eq.mpr h]
  · rw [beq_eq_false_iff_ne.mpr h]
    rfl

theorem assigned_of_not_mem {x : α} (h : key x ∉ writes.map Prod.fst) :
    assigned key write writes x = x := by
  induction writes with
  | nil => rfl
  | cons a writes ih =>
      rw [List.map_cons, List.mem_cons, not_or] at h
      rw [assigned_cons, if_neg h.1, ih h.2]

theorem assigned_eq_self_iff (hdistinct : (writes.map Prod.fst).Nodup) (x : α) :
    assigned key write writes x = x ↔ ∀ value, (key x, value) ∈ writes → write value x = x := by
  induction writes with
  | nil => simp
  | cons a writes ih =>
      rw [List.map_cons, List.nodup_cons] at hdistinct
      rw [assigned_cons]
      split_ifs with hx
      · constructor
        · intro hkeeps value hmem
          rcases List.mem_cons.mp hmem with rfl | hmem
          · exact hkeeps
          · exact absurd (List.mem_map_of_mem hmem) (hx ▸ hdistinct.1)
        · exact fun h => h a.2 (hx ▸ List.mem_cons_self)
      · rw [ih hdistinct.2]
        refine forall_congr' fun value => imp_congr_left ?_
        rw [List.mem_cons, or_iff_right]
        exact fun heq => hx (congrArg Prod.fst heq)

theorem assigned_filter (seen : List κ) (x : α) :
    assigned key write (writes.filter fun a => a.1 ∉ seen) x =
      if key x ∈ seen then x else assigned key write writes x := by
  induction writes with
  | nil => simp
  | cons a writes ih =>
      by_cases ha : a.1 ∈ seen
      · rw [List.filter_cons_of_neg (by simpa using ha), ih, assigned_cons]
        by_cases hx : key x ∈ seen
        · rw [if_pos hx, if_pos hx]
        · have hne : key x ≠ a.1 := fun heq => hx (heq ▸ ha)
          rw [if_neg hx, if_neg hx, if_neg hne]
      · rw [List.filter_cons_of_pos (by simpa using ha), assigned_cons, assigned_cons, ih]
        by_cases hx : key x ∈ seen
        · have hne : key x ≠ a.1 := fun heq => ha (heq ▸ hx)
          rw [if_pos hx, if_pos hx, if_neg hne]
        · rw [if_neg hx, if_neg hx]

theorem foldl_writeFirst_cons (hkey : ∀ value x, key (write value x) = key x)
    (hdistinct : (writes.map Prod.fst).Nodup) (x : α) (l : List α) :
    writes.foldl (writeFirst key write) (x :: l) =
      assigned key write writes x ::
        (writes.filter fun a => a.1 ∉ [key x]).foldl (writeFirst key write) l := by
  induction writes generalizing x l with
  | nil => rfl
  | cons a writes ih =>
      rw [List.map_cons, List.nodup_cons] at hdistinct
      rw [List.foldl_cons, assigned_cons, writeFirst_cons]
      split_ifs with hx
      · have hnone : key (write a.2 x) ∉ writes.map Prod.fst := by
          rw [hkey, hx]
          exact hdistinct.1
        rw [ih hdistinct.2, assigned_of_not_mem hnone, hkey,
          List.filter_cons_of_neg (by simp [hx])]
      · rw [ih hdistinct.2, List.filter_cons_of_pos (by simpa using Ne.symm hx), List.foldl_cons]

/-- After all writes, the first element with a key has the value that is written under it. -/
theorem foldl_writeFirst_eq (hkey : ∀ value x, key (write value x) = key x)
    (hdistinct : (writes.map Prod.fst).Nodup) (l : List α) :
    writes.foldl (writeFirst key write) l = assignFirst key write writes [] l := by
  have hseen : ∀ seen : List κ,
      (writes.filter fun a => a.1 ∉ seen).foldl (writeFirst key write) l =
        assignFirst key write writes seen l := by
    induction l with
    | nil =>
        intro seen
        generalize writes.filter (fun a => a.1 ∉ seen) = left
        induction left with
        | nil => rfl
        | cons a left ih => exact ih
    | cons x l ih =>
        intro seen
        have hfilter : (writes.filter fun a => a.1 ∉ seen).filter (fun a => a.1 ∉ [key x]) =
            writes.filter fun a => a.1 ∉ key x :: seen := by
          rw [List.filter_filter]
          refine List.filter_congr fun a _ => ?_
          simp
        have hleft : ((writes.filter fun a => a.1 ∉ seen).map Prod.fst).Nodup :=
          hdistinct.sublist (List.filter_sublist.map Prod.fst)
        rw [foldl_writeFirst_cons hkey hleft, assigned_filter, hfilter, ih, assignFirst]
  have hnil := hseen []
  rwa [List.filter_eq_self.mpr fun a _ => by simp] at hnil

theorem assignFirst_eq_map_iff (seen : List κ) (l : List α) :
    assignFirst key write writes seen l = l.map (assigned key write writes) ↔
      (∀ x ∈ l, key x ∈ seen → assigned key write writes x = x) ∧
        l.Pairwise fun x y => key x = key y → assigned key write writes y = y := by
  induction l generalizing seen with
  | nil => simp [assignFirst]
  | cons x l ih =>
      have hhead : (if key x ∈ seen then x else assigned key write writes x) =
          assigned key write writes x ↔ (key x ∈ seen → assigned key write writes x = x) := by
        split_ifs with hx
        · simp [hx, eq_comm]
        · simp [hx]
      rw [assignFirst, List.map_cons, List.cons.injEq, hhead, ih, List.pairwise_cons,
        List.forall_mem_cons]
      constructor
      · rintro ⟨hx, hl, hrest⟩
        exact ⟨⟨hx, fun y hy hmem => hl y hy (List.mem_cons_of_mem _ hmem)⟩,
          fun y hy heq => hl y hy (heq ▸ List.mem_cons_self), hrest⟩
      · rintro ⟨⟨hx, hl⟩, hlater, hrest⟩
        refine ⟨hx, fun y hy hmem => ?_, hrest⟩
        rcases List.mem_cons.mp hmem with heq | hmem
        · exact hlater y hy heq.symm
        · exact hl y hy hmem

/-- Every element with a key gets the value just if the later ones already have it. -/
theorem foldl_writeFirst_eq_map_iff (hkey : ∀ value x, key (write value x) = key x)
    (hdistinct : (writes.map Prod.fst).Nodup) (l : List α) :
    writes.foldl (writeFirst key write) l = l.map (assigned key write writes) ↔
      l.Pairwise fun x y => key x = key y → assigned key write writes y = y := by
  rw [foldl_writeFirst_eq hkey hdistinct, assignFirst_eq_map_iff]
  simp

end BluesTrading.Foundations
