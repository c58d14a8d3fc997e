import BluesTrading.Foundations.Runs
import Mathlib.Tactic.Choose
import Mathlib.Tactic.SplitIfs

/-!
Parts of a system that see some of its actions.  A relation links the states of the system to
those of the part; an action that the part sees is taken by both, any other leaves the part
where it is.  Then a run of the system is a run of each part over what the part sees, and a
family of parts that have a say in every action takes a run whenever each of them takes its own.
-/

namespace BluesTrading.Foundations

universe u v w z

section Part

variable {σ : Type u} {τ : Type w} {α : Type v} {step : σ → α → Option σ} {C : σ → α → Prop}
  {part : τ → α → Option τ} {D : τ → α → Prop} {sees : α → Bool} {R : σ → τ → Prop}

/-- The part follows the actions that it sees, and no other changes what it is linked to. -/
structure Projects (step : σ → α → Option σ) (C : σ → α → Prop) (part : τ → α → Option τ)
    (D : τ → α → Prop) (sees : α → Bool) (R : σ → τ → Prop) : Prop where
  seen : ∀ {s t a s'}, R s t → sees a = true → C s a → step s a = some s' →
    ∃ t', D t a ∧ part t a = some t' ∧ R s' t'
  unseen : ∀ {s t a s'}, R s t → sees a = false → C s a → step s a = some s' → R s' t

/-- A run of the system is a run of the part over what the part sees of it. -/
theorem Projects.run (h : Projects step C part D sees R) {s s' : σ} {t : τ} {as : List α}
    (hrun : Run step C s as s') (hlink : R s t) :
    ∃ t', Run part D t (as.filter sees) t' ∧ R s' t' := by
  induction hrun generalizing t with
  | nil s => exact ⟨t, .nil t, hlink⟩
  | @cons s _ _ a as hpermit htake _ ih =>
      cases hsees : sees a with
      | true =>
          obtain ⟨t₁, hpermit', htake', hlink₁⟩ := h.seen hlink hsees hpermit htake
          obtain ⟨t', hrest, hlink'⟩ := ih hlink₁
          rw [List.filter_cons_of_pos hsees]
          exact ⟨t', .cons hpermit' htake' hrest, hlink'⟩
      | false =>
          rw [List.filter_cons_of_neg (by simp [hsees])]
          exact ih (h.unseen hlink hsees hpermit htake)

end Part

theorem Run.unique {σ : Type u} {α : Type v} {step : σ → α → Option σ} {C D : σ → α → Prop}
    {s t t' : σ} {as : List α} (h : Run step C s as t) (h' : Run step D s as t') : t = t' := by
  induction h with
  | nil =>
      cases h' with
      | nil => rfl
  | cons _ htake _ ih =>
      cases h' with
      | cons _ htake' hrest =>
          obtain rfl := Option.some.inj (htake.symm.trans htake')
          exact ih hrest

section Family

variable {σ : Type u} {α : Type v} {ι : Type z} {τ : ι → Type w} {step : σ → α → Option σ}
  {C : σ → α → Prop} {part : ∀ i, τ i → α → Option (τ i)} {D : ∀ i, τ i → α → Prop}
  {sees : ι → α → Bool} {R : ∀ i, σ → τ i → Prop} {I : σ → Prop} {V : α → Prop}

/-- A family of parts decides which actions the system takes: those that are valid and that
every part which sees them takes. -/
structure Composes (step : σ → α → Option σ) (C : σ → α → Prop)
    (part : ∀ i, τ i → α → Option (τ i)) (D : ∀ i, τ i → α → Prop) (sees : ι → α → Bool)
    (R : ∀ i, σ → τ i → Prop) (I : σ → Prop) (V : α → Prop) : Prop where
  projects : ∀ i, Projects step C (part i) (D i) (sees i) (R i)
  keeps : ∀ {s a s'}, I s → C s a → step s a = some s' → I s'
  valid : ∀ {s a s'}, I s → C s a → step s a = some s' → V a
  takes : ∀ {s a} {t : ∀ i, τ i}, I s → V a → (∀ i, R i s (t i)) →
    (∀ i, sees i a = true → ∃ t', D i (t i) a ∧ part i (t i) a = some t') →
      C s a ∧ ∃ s', step s a = some s'

/-- The system has a run over some actions if and only if they are valid and each of the parts
has a run over those that it sees. -/
theorem Composes.exists_run_iff (h : Composes step C part D sees R I V) {s : σ}
    {t : ∀ i, τ i} (hinv : I s) (hlink : ∀ i, R i s (t i)) (as : List α) :
    (∃ s', Run step C s as s') ↔
      (∀ a ∈ as, V a) ∧ ∀ i, ∃ t', Run (part i) (D i) (t i) (as.filter (sees i)) t' := by
  constructor
  · rintro ⟨s', hrun⟩
    refine ⟨?_, fun i => ?_⟩
    · clear hlink
      induction hrun with
      | nil => simp
      | cons hpermit htake _ ih =>
          refine List.forall_mem_cons.mpr ⟨h.valid hinv hpermit htake, ih ?_⟩
          exact h.keeps hinv hpermit htake
    · obtain ⟨t', hpart, -⟩ := (h.projects i).run hrun (hlink i)
      exact ⟨t', hpart⟩
  · rintro ⟨hvalid, hparts⟩
    induction as generalizing s t with
    | nil => exact ⟨s, .nil s⟩
    | cons a as ih =>
        obtain ⟨hfirst, hothers⟩ := List.forall_mem_cons.mp hvalid
        have hown : ∀ i, sees i a = true → ∃ t', D i (t i) a ∧ part i (t i) a = some t' := by
          intro i hsees
          obtain ⟨t', hrun⟩ := hparts i
          rw [List.filter_cons_of_pos hsees] at hrun
          cases hrun with
          | cons hpermit htake _ => exact ⟨_, hpermit, htake⟩
        obtain ⟨hpermit, s₁, htake⟩ := h.takes hinv hfirst hlink hown
        -- the parts that see the action have moved, the others are where they were
        have hnext : ∀ i, ∃ t₁, R i s₁ t₁ ∧
            ∃ t', Run (part i) (D i) t₁ (as.filter (sees i)) t' := by
          intro i
          obtain ⟨t', hrun⟩ := hparts i
          cases hsees : sees i a with
          | true =>
              rw [List.filter_cons_of_pos hsees] at hrun
              obtain ⟨t₁, -, htake₁, hlink₁⟩ := (h.projects i).seen (hlink i) hsees hpermit htake
              cases hrun with
              | cons _ htake₂ hrest =>
                  obtain rfl := Option.some.inj (htake₁.symm.trans htake₂)
                  exact ⟨t₁, hlink₁, t', hrest⟩
          | false =>
              rw [List.filter_cons_of_neg (by simp [hsees])] at hrun
              exact ⟨t i, (h.projects i).unseen (hlink i) hsees hpermit htake, t', hrun⟩
        choose t₁ hlink₁ hrest using hnext
        obtain ⟨s', hrun⟩ := ih (h.keeps hinv hpermit htake) hlink₁ hothers hrest
        exact ⟨s', .cons hpermit htake hrun⟩

theorem Composes.run_iff (h : Composes step C part D sees R I V)
    (hfun : ∀ {i s x y}, R i s x → R i s y → x = y)
    (hinj : ∀ {s s'} {x : ∀ i, τ i}, (∀ i, R i s (x i)) → (∀ i, R i s' (x i)) → s = s')
    {s s' : σ} {t t' : ∀ i, τ i} (hinv : I s) (hlink : ∀ i, R i s (t i))
    (hlink' : ∀ i, R i s' (t' i)) (as : List α) :
    Run step C s as s' ↔
      (∀ a ∈ as, V a) ∧ ∀ i, Run (part i) (D i) (t i) (as.filter (sees i)) (t' i) := by
  have hpart : ∀ {u : σ}, Run step C s as u → ∀ i, ∃ x,
      Run (part i) (D i) (t i) (as.filter (sees i)) x ∧ R i u x :=
    fun hrun i => (h.projects i).run hrun (hlink i)
  constructor
  · intro hrun
    refine ⟨((h.exists_run_iff hinv hlink as).mp ⟨s', hrun⟩).1, fun i => ?_⟩
    obtain ⟨x, hown, hx⟩ := hpart hrun i
    obtain rfl := hfun hx (hlink' i)
    exact hown
  · rintro ⟨hvalid, hparts⟩
    obtain ⟨u, hrun⟩ :=
      (h.exists_run_iff hinv hlink as).mpr ⟨hvalid, fun i => ⟨t' i, hparts i⟩⟩
    have hu : ∀ i, R i u (t' i) := fun i => by
      obtain ⟨x, hown, hx⟩ := hpart hrun i
      obtain rfl := hown.unique (hparts i)
      exact hx
    obtain rfl := hinj hu hlink'
    exact hrun

/-- Actions in another order in which every part sees the same can be taken as well, and lead to
a state that is linked to the same states of the parts. -/
theorem Composes.exists_run_of_rearranged (h : Composes step C part D sees R I V) {s s₁ : σ}
    {t : ∀ i, τ i} (hinv : I s) (hlink : ∀ i, R i s (t i)) {as bs : List α}
    (hrun : Run step C s as s₁) (hvalid : ∀ b ∈ bs, V b)
    (hsame : ∀ i, bs.filter (sees i) = as.filter (sees i)) :
    ∃ s₂, Run step C s bs s₂ ∧ ∀ i, ∃ t', R i s₁ t' ∧ R i s₂ t' := by
  obtain ⟨-, hparts⟩ := (h.exists_run_iff hinv hlink as).mp ⟨s₁, hrun⟩
  have hexists : ∃ s₂, Run step C s bs s₂ := by
    refine (h.exists_run_iff hinv hlink bs).mpr ⟨hvalid, fun i => ?_⟩
    rw [hsame i]
    exact hparts i
  obtain ⟨s₂, hrun₂⟩ := hexists
  refine ⟨s₂, hrun₂, fun i => ?_⟩
  obtain ⟨t₁, hpart₁, hlink₁⟩ := (h.projects i).run hrun (hlink i)
  obtain ⟨t₂, hpart₂, hlink₂⟩ := (h.projects i).run hrun₂ (hlink i)
  rw [hsame i] at hpart₂
  obtain rfl := hpart₂.unique hpart₁
  exact ⟨t₂, hlink₁, hlink₂⟩

end Family

theorem Run.exists_of_rel {σ : Type u} {τ : Type w} {α : Type v} {step : σ → α → Option σ}
    {step' : τ → α → Option τ} {R : σ → τ → Prop}
    (hrel : ∀ s t a, R s t → Option.Rel R (step s a) (step' t a)) {s s' : σ} {t : τ}
    {as : List α} (hrun : Run step (fun _ _ => True) s as s') (h : R s t) :
    ∃ t', Run step' (fun _ _ => True) t as t' ∧ R s' t' := by
  induction hrun generalizing t with
  | nil s => exact ⟨t, .nil t, h⟩
  | @cons s _ _ a _ _ htake _ ih =>
      have hstep := hrel s t a h
      rw [htake] at hstep
      cases htake' : step' t a with
      | none =>
          rw [htake'] at hstep
          cases hstep
      | some t₁ =>
          rw [htake'] at hstep
          cases hstep with
          | some h₁ =>
              obtain ⟨t', hrest, hlast⟩ := ih h₁
              exact ⟨t', .cons trivial htake' hrest, hlast⟩

section Options

variable {α : Type u} {β : Type v} {γ : Type w} {δ : Type z} {R : α → β → Prop}
  {S : γ → δ → Prop}

theorem rel_bind {x : Option α} {y : Option β} {f : α → Option γ} {g : β → Option δ}
    (h : Option.Rel R x y) (hfg : ∀ a b, R a b → Option.Rel S (f a) (g b)) :
    Option.Rel S (x.bind f) (y.bind g) := by
  cases h with
  | none => exact .none
  | some hab => exact hfg _ _ hab

theorem rel_map_map {x : Option α} {y : Option β} {f : α → γ} {g : β → δ} (h : Option.Rel R x y)
    (hfg : ∀ a b, R a b → S (f a) (g b)) : Option.Rel S (x.map f) (y.map g) := by
  cases h with
  | none => exact .none
  | some hab => exact .some (hfg _ _ hab)

theorem rel_map {x : Option α} {f : α → γ} {g : α → δ} (h : ∀ a, S (f a) (g a)) :
    Option.Rel S (x.map f) (x.map g) := by
  cases x with
  | none => exact .none
  | some a => exact .some (h a)

theorem rel_ite {c : Prop} [Decidable c] {x x' : Option α} {y y' : Option β}
    (h : Option.Rel R x y) (h' : Option.Rel R x' y') :
    Option.Rel R (if c then x else x') (if c then y else y') := by
  split_ifs
  · exact h
  · exact h'

end Options

theorem eq_of_filter_key {α : Type u} {κ : Type v} [DecidableEq κ] {key : α → κ} {l r : List α}
    (hkeys : l.map key = r.map key)
    (hfilter : ∀ k, l.filter (fun a => key a = k) = r.filter fun a => key a = k) : l = r := by
  induction l generalizing r with
  | nil => exact (List.map_eq_nil_iff.mp hkeys.symm).symm
  | cons a l ih =>
      cases r with
      | nil => cases hkeys
      | cons b r =>
          obtain ⟨hkey, hrest⟩ := List.cons.inj hkeys
          have hhead := hfilter (key b)
          rw [List.filter_cons_of_pos (by simpa using hkey),
            List.filter_cons_of_pos (by simp)] at hhead
          obtain ⟨rfl, -⟩ := List.cons.inj hhead
          congr 1
          refine ih hrest fun k => ?_
          have hboth := hfilter k
          simp only [List.filter_cons] at hboth
          split_ifs at hboth
          · exact (List.cons.inj hboth).2
          · exact hboth

end BluesTrading.Foundations
