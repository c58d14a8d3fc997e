import Mathlib.Data.Set.Lattice

namespace BluesTrading.Foundations

universe u v w x

variable {σ : Type u} {κ : Type v} {ν : Type w} {α : Type x}

/-- The keys of a set have their values afterwards, and the others have what they had. -/
def WritesOn (view : σ → κ → ν) (value : κ → ν) (keys : Set κ) (s t : σ) : Prop :=
  ∀ k, (k ∈ keys → view t k = value k) ∧ (k ∉ keys → view t k = view s k)

namespace WritesOn

variable {view : σ → κ → ν} {value : κ → ν} {keys keys' : Set κ} {s s' t t' u : σ}

theorem refl (view : σ → κ → ν) (value : κ → ν) (s : σ) : WritesOn view value ∅ s s :=
  fun _ => ⟨fun h => h.elim, fun _ => rfl⟩

theorem trans (h : WritesOn view value keys s t) (h' : WritesOn view value keys' t u) :
    WritesOn view value (keys ∪ keys') s u := by
  intro k
  by_cases hk' : k ∈ keys'
  · exact ⟨fun _ => (h' k).1 hk', fun hk => absurd (Or.inr hk') hk⟩
  · rw [(h' k).2 hk']
    exact ⟨fun hk => (h k).1 (hk.resolve_right hk'), fun hk => (h k).2 fun hmem => hk (.inl hmem)⟩

theorem congr_keys (h : WritesOn view value keys s t) (hkeys : ∀ k, k ∈ keys ↔ k ∈ keys') :
    WritesOn view value keys' s t :=
  Set.ext hkeys ▸ h

/-- States that look the same still do after the same keys have been written. -/
theorem view_eq (h : WritesOn view value keys s t) (h' : WritesOn view value keys s' t')
    (hview : ∀ k, view s k = view s' k) (k : κ) : view t k = view t' k := by
  by_cases hk : k ∈ keys
  · rw [(h k).1 hk, (h' k).1 hk]
  · rw [(h k).2 hk, (h' k).2 hk, hview]

/-- A loop of writes ends, and has written the keys of all its steps. -/
theorem exists_foldlM {f : σ → α → Option σ} {keysOf : α → Set κ} {l : List α}
    (hstep : ∀ a ∈ l, ∀ s, ∃ t, f s a = some t ∧ WritesOn view value (keysOf a) s t) (s : σ) :
    ∃ t, l.foldlM f s = some t ∧ WritesOn view value {k | ∃ a ∈ l, k ∈ keysOf a} s t := by
  induction l generalizing s with
  | nil => exact ⟨s, rfl, (refl view value s).congr_keys (by simp)⟩
  | cons a l ih =>
      obtain ⟨t, hfirst, hwrites⟩ := hstep a List.mem_cons_self s
      obtain ⟨u, hrest, hwrites'⟩ := ih (fun b hb => hstep b (List.mem_cons_of_mem a hb)) t
      refine ⟨u, ?_, (hwrites.trans hwrites').congr_keys fun k => ?_⟩
      · rw [List.foldlM_cons, hfirst]
        exact hrest
      · simp

end WritesOn

end BluesTrading.Foundations
