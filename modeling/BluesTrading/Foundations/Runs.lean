/-!
Finite runs of a partial step function.  A run carries a condition that each
of its steps meets, so that "in every run whose steps all meet the condition"
is a statement about `Run`, and invariants are proved for one step and used
for runs.
-/

namespace BluesTrading.Foundations

universe u v w

/-- A run that takes the given actions, each of them permitted by `C` in the
state it is taken from. -/
inductive Run {σ : Type u} {α : Type v} (step : σ → α → Option σ) (C : σ → α → Prop) :
    σ → List α → σ → Prop
  | nil (s : σ) : Run step C s [] s
  | cons {s t u : σ} {a : α} {as : List α} :
      C s a → step s a = some t → Run step C t as u → Run step C s (a :: as) u

namespace Run

variable {σ : Type u} {α : Type v} {step : σ → α → Option σ} {C D : σ → α → Prop}

/-- What every permitted step preserves holds at the end of every run. -/
theorem invariant {I : σ → Prop}
    (hstep : ∀ s a t, C s a → step s a = some t → I s → I t)
    {s u : σ} {as : List α} (hrun : Run step C s as u) (hs : I s) : I u := by
  induction hrun with
  | nil => exact hs
  | cons hpermit htake _ ih => exact ih (hstep _ _ _ hpermit htake hs)

theorem append {s t u : σ} {as bs : List α} (h : Run step C s as t) (h' : Run step C t bs u) :
    Run step C s (as ++ bs) u := by
  induction h with
  | nil => exact h'
  | cons hpermit htake _ ih => exact .cons hpermit htake (ih h')

theorem of_invariant {I : σ → Prop}
    (hstep : ∀ s a t, I s → C s a → step s a = some t → D s a ∧ I t)
    {s u : σ} {as : List α} (hrun : Run step C s as u) (hs : I s) : Run step D s as u := by
  induction hrun with
  | nil s => exact .nil s
  | cons hpermit htake _ ih =>
      obtain ⟨hpermit, ht⟩ := hstep _ _ _ hs hpermit htake
      exact .cons hpermit htake (ih ht)

theorem of_forall_mem {s u : σ} {as : List α} (hrun : Run step C s as u)
    (hD : ∀ s, ∀ a ∈ as, C s a → D s a) : Run step D s as u := by
  induction hrun with
  | nil s => exact .nil s
  | cons hpermit htake _ ih =>
      refine .cons (hD _ _ (List.mem_cons_self ..) hpermit) htake (ih fun s a ha => ?_)
      exact hD s a (List.mem_cons_of_mem _ ha)

theorem iff_of_invariant {I : σ → Prop}
    (hiff : ∀ s a t, I s → step s a = some t → (C s a ↔ D s a))
    (hstep : ∀ s a t, I s → C s a → step s a = some t → I t)
    {s u : σ} {as : List α} (hs : I s) : Run step C s as u ↔ Run step D s as u := by
  constructor
  · intro hrun
    refine hrun.of_invariant (fun s a t h hpermit htake => ?_) hs
    exact ⟨(hiff s a t h htake).mp hpermit, hstep s a t h hpermit htake⟩
  · intro hrun
    refine hrun.of_invariant (fun s a t h hpermit htake => ?_) hs
    have hpermit := (hiff s a t h htake).mpr hpermit
    exact ⟨hpermit, hstep s a t h hpermit htake⟩

/-- What no step repairs holds at the end of a run if and only if every step keeps it. -/
theorem good_iff {I G : σ → Prop}
    (hstep : ∀ s a t, I s → C s a → step s a = some t → I t ∧ (G t ↔ G s ∧ D s a))
    {s u : σ} {as : List α} (hrun : Run step C s as u) (hs : I s) :
    G u ↔ G s ∧ Run step (fun s a => C s a ∧ D s a) s as u := by
  induction hrun with
  | nil s => exact ⟨fun hgood => ⟨hgood, .nil s⟩, And.left⟩
  | cons hpermit htake _ ih =>
      obtain ⟨ht, hiff⟩ := hstep _ _ _ hs hpermit htake
      rw [ih ht, hiff]
      constructor
      · rintro ⟨⟨hgood, hkeeps⟩, hrest⟩
        exact ⟨hgood, .cons ⟨hpermit, hkeeps⟩ htake hrest⟩
      · rintro ⟨hgood, hkept⟩
        cases hkept with
        | cons hboth htake' hrest =>
            obtain rfl := Option.some.inj (htake.symm.trans htake')
            exact ⟨⟨hgood, hboth.2⟩, hrest⟩

theorem exists_of_enabled {I : σ → Prop} {as : List α}
    (henabled : ∀ s, I s → ∀ a ∈ as, C s a ∧ ∃ t, step s a = some t ∧ I t) {s : σ} (hs : I s) :
    ∃ u, Run step C s as u := by
  induction as generalizing s with
  | nil => exact ⟨s, .nil s⟩
  | cons a as ih =>
      obtain ⟨hpermit, t, htake, ht⟩ := henabled s hs a (List.mem_cons_self ..)
      obtain ⟨u, hrest⟩ := ih (fun s hs b hb => henabled s hs b (List.mem_cons_of_mem a hb)) ht
      exact ⟨u, .cons hpermit htake hrest⟩

theorem iff_foldlM {s u : σ} {as : List α} :
    Run step (fun _ _ => True) s as u ↔ as.foldlM step s = some u := by
  constructor
  · intro hrun
    induction hrun with
    | nil => rfl
    | cons _ htake _ ih => rw [List.foldlM_cons, htake, ← ih]; rfl
  · intro hfold
    induction as generalizing s with
    | nil =>
        obtain rfl := Option.some.inj hfold
        exact .nil s
    | cons a as ih =>
        rw [List.foldlM_cons] at hfold
        obtain ⟨t, htake, hrest⟩ := Option.bind_eq_some_iff.mp hfold
        exact .cons trivial htake (ih hrest)

def execute (step : σ → α → Option σ) (C : σ → α → Prop) [∀ s a, Decidable (C s a)] :
    σ → List α → Option σ
  | s, [] => some s
  | s, a :: as => if C s a then (step s a).bind fun t => execute step C t as else none

theorem of_execute [∀ s a, Decidable (C s a)] {s u : σ} {as : List α}
    (h : execute step C s as = some u) : Run step C s as u := by
  induction as generalizing s with
  | nil =>
      obtain rfl := Option.some.inj h
      exact .nil _
  | cons a as ih =>
      rw [execute] at h
      split at h
      next hpermit =>
        obtain ⟨t, htake, hrest⟩ := Option.bind_eq_some_iff.mp h
        exact .cons hpermit htake (ih hrest)
      next => cases h

theorem exists_of_execute [∀ s a, Decidable (C s a)] {s : σ} {as : List α}
    (h : (execute step C s as).isSome) : ∃ u, Run step C s as u :=
  (Option.isSome_iff_exists.mp h).imp fun _ => of_execute

theorem exists_of_execute_map [∀ s a, Decidable (C s a)] {β : Type w} {f : σ → β} {s : σ}
    {as : List α} {b : β} (h : (execute step C s as).map f = some b) :
    ∃ u, Run step C s as u ∧ f u = b :=
  (Option.map_eq_some_iff.mp h).imp fun _ => And.imp_left of_execute

end Run

end BluesTrading.Foundations
