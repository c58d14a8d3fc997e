import Mathlib.Data.List.Sections
import Mathlib.Data.Nat.Factorization.Basic
import Mathlib.Data.Nat.GCD.BigOperators
import Mathlib.Data.Nat.ModEq

namespace BluesTrading.Foundations.CyclicSweep

def sweep (sizes : List ℕ) (i : ℕ) : List ℕ := sizes.map fun n => i % n

def choices (sizes : List ℕ) : List (List ℕ) := (sizes.map List.range).sections

def period (sizes : List ℕ) : ℕ := sizes.foldr Nat.lcm 1

/-- Any two positions are congruent modulo the greatest common divisor of their cycles. -/
def Compatible (sizes choice : List ℕ) : Prop :=
  (sizes.zip choice).Pairwise fun a b => a.2 ≡ b.2 [MOD a.1.gcd b.1]

instance (sizes choice : List ℕ) : Decidable (Compatible sizes choice) :=
  inferInstanceAs (Decidable (List.Pairwise _ _))

def compatibleChoices (sizes : List ℕ) : List (List ℕ) :=
  (choices sizes).filter fun choice => Compatible sizes choice

theorem gcd_lcm_eq {n a b : ℕ} (hn : n ≠ 0) (ha : a ≠ 0) (hb : b ≠ 0) :
    n.gcd (a.lcm b) = (n.gcd a).lcm (n.gcd b) := by
  have hna : n.gcd a ≠ 0 := Nat.gcd_ne_zero_left hn
  have hnb : n.gcd b ≠ 0 := Nat.gcd_ne_zero_left hn
  refine Nat.eq_of_factorization_eq (Nat.gcd_ne_zero_left hn) (Nat.lcm_ne_zero hna hnb) fun p => ?_
  rw [Nat.factorization_gcd hn (Nat.lcm_ne_zero ha hb), Nat.factorization_lcm ha hb,
    Nat.factorization_lcm hna hnb, Nat.factorization_gcd hn ha, Nat.factorization_gcd hn hb]
  simp only [Finsupp.inf_apply, Finsupp.sup_apply]
  exact inf_sup_left _ _ _

theorem period_pos {sizes : List ℕ} (hpos : ∀ n ∈ sizes, 0 < n) : 0 < period sizes := by
  induction sizes with
  | nil => exact Nat.one_pos
  | cons n sizes ih =>
      have hrest := ih fun m hm => hpos m (List.mem_cons_of_mem _ hm)
      exact Nat.lcm_pos (hpos n List.mem_cons_self) hrest

theorem prod_pos {sizes : List ℕ} (hpos : ∀ n ∈ sizes, 0 < n) : 0 < sizes.prod :=
  Nat.pos_of_ne_zero (List.prod_ne_zero fun hzero => absurd (hpos 0 hzero) (Nat.lt_irrefl 0))

theorem dvd_period {sizes : List ℕ} {n : ℕ} (hn : n ∈ sizes) : n ∣ period sizes := by
  induction sizes with
  | nil => cases hn
  | cons m sizes ih =>
      rcases List.mem_cons.mp hn with rfl | hn
      · exact Nat.dvd_lcm_left _ _
      · exact (ih hn).trans (Nat.dvd_lcm_right _ _)

theorem period_dvd_prod (sizes : List ℕ) : period sizes ∣ sizes.prod := by
  induction sizes with
  | nil => exact dvd_rfl
  | cons n sizes ih =>
      rw [List.prod_cons]
      exact Nat.lcm_dvd (Nat.dvd_mul_right n _) (ih.mul_left n)

/-! ### When a sweep repeats a row -/

theorem sweep_eq_iff (sizes : List ℕ) (i j : ℕ) :
    sweep sizes i = sweep sizes j ↔ i ≡ j [MOD period sizes] := by
  induction sizes with
  | nil => exact ⟨fun _ => Nat.modEq_one, fun _ => rfl⟩
  | cons n sizes ih =>
      have hcons : sweep (n :: sizes) i = sweep (n :: sizes) j ↔
          i ≡ j [MOD n] ∧ sweep sizes i = sweep sizes j := List.cons_eq_cons
      rw [hcons, ih]
      constructor
      · rintro ⟨hn, hrest⟩
        exact Nat.mod_lcm hn hrest
      · intro h
        exact ⟨h.of_dvd (Nat.dvd_lcm_left _ _), h.of_dvd (Nat.dvd_lcm_right _ _)⟩

theorem sweep_add_period (sizes : List ℕ) (i : ℕ) :
    sweep sizes (period sizes + i) = sweep sizes i := by
  rw [sweep_eq_iff, Nat.ModEq, Nat.add_mod_left]

theorem sweep_mem_choices {sizes : List ℕ} (hpos : ∀ n ∈ sizes, 0 < n) (i : ℕ) :
    sweep sizes i ∈ choices sizes := by
  rw [choices, List.mem_sections, sweep, List.forall₂_map_left_iff, List.forall₂_map_right_iff,
    List.forall₂_same]
  intro n hn
  exact List.mem_range.mpr (Nat.mod_lt i (hpos n hn))

theorem compatible_cons_sweep (sizes : List ℕ) (n c x : ℕ) :
    Compatible (n :: sizes) (c :: sweep sizes x) ↔
      (∀ m ∈ sizes, c ≡ x [MOD n.gcd m]) ∧ Compatible sizes (sweep sizes x) := by
  have hzip : sizes.zip (sweep sizes x) = sizes.map fun m => (m, x % m) :=
    List.map_prod_left_eq_zip.symm
  rw [Compatible, List.zip_cons_cons, List.pairwise_cons, Compatible, hzip]
  refine and_congr_left' ?_
  have hmod : ∀ m, x % m ≡ x [MOD n.gcd m] := fun m =>
    (Nat.mod_modEq x m).of_dvd (Nat.gcd_dvd_right n m)
  constructor
  · intro h m hm
    exact (h (m, x % m) (List.mem_map_of_mem hm)).trans (hmod m)
  · rintro h a ha
    obtain ⟨m, hm, rfl⟩ := List.mem_map.mp ha
    exact (h m hm).trans (hmod m).symm

theorem compatible_sweep (sizes : List ℕ) (i : ℕ) : Compatible sizes (sweep sizes i) := by
  induction sizes with
  | nil => exact List.Pairwise.nil
  | cons n sizes ih =>
      refine (compatible_cons_sweep sizes n (i % n) i).mpr ⟨fun m _ => ?_, ih⟩
      exact (Nat.mod_modEq i n).of_dvd (Nat.gcd_dvd_left n m)

theorem modEq_gcd_period {sizes : List ℕ} (hpos : ∀ n ∈ sizes, 0 < n) {n c x : ℕ} (hn : 0 < n)
    (h : ∀ m ∈ sizes, c ≡ x [MOD n.gcd m]) : c ≡ x [MOD n.gcd (period sizes)] := by
  induction sizes with
  | nil =>
      rw [period, List.foldr_nil, Nat.gcd_one_right]
      exact Nat.modEq_one
  | cons m sizes ih =>
      have hpos' := fun k hk => hpos k (List.mem_cons_of_mem m hk)
      have hm := hpos m List.mem_cons_self
      change c ≡ x [MOD n.gcd (m.lcm (period sizes))]
      rw [gcd_lcm_eq hn.ne' hm.ne' (period_pos hpos').ne']
      exact Nat.mod_lcm (h m List.mem_cons_self)
        (ih hpos' fun k hk => h k (List.mem_cons_of_mem m hk))

theorem exists_sweep_eq {sizes choice : List ℕ} (hpos : ∀ n ∈ sizes, 0 < n)
    (hchoice : choice ∈ choices sizes) (hcompatible : Compatible sizes choice) :
    ∃ i < period sizes, sweep sizes i = choice := by
  rw [choices, List.mem_sections] at hchoice
  induction sizes generalizing choice with
  | nil =>
      cases hchoice
      exact ⟨0, Nat.one_pos, rfl⟩
  | cons n sizes ih =>
      rw [List.map_cons] at hchoice
      cases hchoice with
      | @cons c _ choice _ hc hrest =>
          have hn := hpos n List.mem_cons_self
          have hpos' := fun k hk => hpos k (List.mem_cons_of_mem n hk)
          have htail : Compatible sizes choice := (List.pairwise_cons.mp hcompatible).2
          obtain ⟨x, -, rfl⟩ := ih hpos' hrest htail
          obtain ⟨hcx, -⟩ := (compatible_cons_sweep sizes n c x).mp hcompatible
          obtain ⟨k, hkc, hkx⟩ := Nat.chineseRemainder' (modEq_gcd_period hpos' hn hcx)
          have hperiod := period_pos hpos
          refine ⟨k % period (n :: sizes), Nat.mod_lt _ hperiod, ?_⟩
          rw [(sweep_eq_iff _ _ k).mpr (Nat.mod_modEq k _)]
          refine List.cons_eq_cons.mpr ⟨?_, (sweep_eq_iff sizes k x).mpr hkx⟩
          exact Eq.trans hkc (Nat.mod_eq_of_lt (List.mem_range.mp hc))

/-! ### Counting rows -/

theorem nodup_sections {α : Type*} {lists : List (List α)} (h : ∀ l ∈ lists, l.Nodup) :
    lists.sections.Nodup := by
  induction lists with
  | nil => exact List.nodup_singleton []
  | cons l lists ih =>
      have hrest := ih fun l' hl' => h l' (List.mem_cons_of_mem l hl')
      have hl := h l List.mem_cons_self
      refine List.nodup_flatMap.mpr ⟨fun s _ => ?_, ?_⟩
      · exact hl.map fun a b hab => (List.cons.inj hab).1
      · refine hrest.imp fun {s t} hst choice hs ht => ?_
        obtain ⟨a, -, rfl⟩ := List.mem_map.mp hs
        obtain ⟨b, -, heq⟩ := List.mem_map.mp ht
        exact hst (List.cons.inj heq).2.symm

theorem nodup_choices (sizes : List ℕ) : (choices sizes).Nodup := by
  refine nodup_sections fun l hl => ?_
  obtain ⟨n, -, rfl⟩ := List.mem_map.mp hl
  exact List.nodup_range

theorem perm_compatibleChoices {sizes : List ℕ} (hpos : ∀ n ∈ sizes, 0 < n) :
    ((List.range (period sizes)).map (sweep sizes)).Perm (compatibleChoices sizes) := by
  refine (List.perm_ext_iff_of_nodup ?_ ((nodup_choices sizes).filter _)).mpr fun choice => ?_
  · refine List.Nodup.map_on (fun i hi j hj hij => ?_) List.nodup_range
    exact Nat.ModEq.eq_of_lt_of_lt ((sweep_eq_iff sizes i j).mp hij) (List.mem_range.mp hi)
      (List.mem_range.mp hj)
  · simp only [List.mem_map, List.mem_range, List.mem_filter, decide_eq_true_eq]
    constructor
    · rintro ⟨i, -, rfl⟩
      exact ⟨sweep_mem_choices hpos i, compatible_sweep sizes i⟩
    · rintro ⟨hchoice, hcompatible⟩
      exact exists_sweep_eq hpos hchoice hcompatible

section Rows

variable {β : Type*} [DecidableEq β]

theorem count_periods (sizes : List ℕ) (g : List ℕ → β) (b : β) (q : ℕ) :
    ((List.range (q * period sizes)).map fun i => g (sweep sizes i)).count b =
      q * ((List.range (period sizes)).map fun i => g (sweep sizes i)).count b := by
  induction q with
  | zero => simp
  | succ q ih =>
      have hshift : ((fun i => g (sweep sizes i)) ∘ fun i => period sizes + i) =
          fun i => g (sweep sizes i) := by
        funext i
        exact congrArg g (sweep_add_period sizes i)
      rw [Nat.succ_mul, Nat.add_comm, List.range_add, List.map_append, List.map_map, hshift,
        List.count_append, ih, Nat.succ_mul, Nat.add_comm]

/-- Every value is selected by its share of the compatible choices. -/
def Balanced (sizes : List ℕ) (g : List ℕ → β) : Prop :=
  ∀ b, sizes.prod / period sizes * ((compatibleChoices sizes).map g).count b =
    ((choices sizes).map g).count b

theorem count_sweep {sizes : List ℕ} (hpos : ∀ n ∈ sizes, 0 < n) (g : List ℕ → β) (b : β) :
    ((List.range sizes.prod).map fun i => g (sweep sizes i)).count b =
      sizes.prod / period sizes * ((compatibleChoices sizes).map g).count b := by
  have hperiods := count_periods sizes g b (sizes.prod / period sizes)
  rw [Nat.div_mul_cancel (period_dvd_prod sizes)] at hperiods
  rw [hperiods, ← ((perm_compatibleChoices hpos).map g).count_eq b, List.map_map]
  rfl

/-- As many rows of the sweep as there are choices give every choice once if and only
if the compatible choices are a fair sample of all choices. -/
theorem perm_choices_iff {sizes : List ℕ} (hpos : ∀ n ∈ sizes, 0 < n) (g : List ℕ → β) :
    ((List.range sizes.prod).map fun i => g (sweep sizes i)).Perm ((choices sizes).map g) ↔
      Balanced sizes g := by
  rw [List.perm_iff_count]
  exact forall_congr' fun b => by rw [count_sweep hpos]

end Rows

/-! ### Coprime cycles -/

theorem period_eq_prod {sizes : List ℕ} (h : sizes.Pairwise Nat.Coprime) :
    period sizes = sizes.prod := by
  induction sizes with
  | nil => rfl
  | cons n sizes ih =>
      obtain ⟨hn, hrest⟩ := List.pairwise_cons.mp h
      have hcoprime : n.Coprime sizes.prod := Nat.coprime_list_prod_right_iff.mpr hn
      change n.lcm (period sizes) = _
      rw [ih hrest, hcoprime.lcm_eq_mul, List.prod_cons]

theorem pairwise_coprime_of_period_eq {sizes : List ℕ} (hpos : ∀ n ∈ sizes, 0 < n)
    (h : period sizes = sizes.prod) : sizes.Pairwise Nat.Coprime := by
  induction sizes with
  | nil => exact List.Pairwise.nil
  | cons n sizes ih =>
      have hn := hpos n List.mem_cons_self
      have hpos' := fun k hk => hpos k (List.mem_cons_of_mem n hk)
      have hperiod := period_pos hpos'
      change n.lcm (period sizes) = n * sizes.prod at h
      have hprod := prod_pos hpos'
      have hle : period sizes ≤ sizes.prod := Nat.le_of_dvd hprod (period_dvd_prod sizes)
      have hmul : n.gcd (period sizes) * (n * sizes.prod) = n * period sizes := by
        rw [← h, Nat.gcd_mul_lcm]
      have hgcd : n.gcd (period sizes) = 1 := by
        have hpos'' : 0 < n.gcd (period sizes) := Nat.gcd_pos_of_pos_left _ hn
        have hbound : n.gcd (period sizes) * (n * sizes.prod) ≤ 1 * (n * sizes.prod) := by
          rw [hmul, Nat.one_mul]
          exact Nat.mul_le_mul_left n hle
        have hone := Nat.le_of_mul_le_mul_right hbound (Nat.mul_pos hn hprod)
        omega
      rw [hgcd, Nat.one_mul] at hmul
      refine List.pairwise_cons.mpr ⟨fun m hm => ?_, ih hpos' ?_⟩
      · exact Nat.Coprime.coprime_dvd_right (dvd_period hm) hgcd
      · exact (Nat.eq_of_mul_eq_mul_left hn hmul).symm

section Coprime

variable {β : Type*} [DecidableEq β] {sizes : List ℕ} {g : List ℕ → β}

theorem balanced_of_coprime (hpos : ∀ n ∈ sizes, 0 < n) (h : sizes.Pairwise Nat.Coprime) :
    Balanced sizes g := by
  intro b
  have hall : compatibleChoices sizes = choices sizes := by
    refine List.filter_eq_self.mpr fun choice hchoice => decide_eq_true ?_
    have hlength : choice.length = sizes.length := by
      rw [List.mem_sections_length hchoice, List.length_map]
    have hzip : ((sizes.zip choice).map Prod.fst).Pairwise Nat.Coprime := by
      rwa [List.map_fst_zip hlength.ge]
    exact (List.pairwise_map.mp hzip).imp fun {a b} hab => by
      rw [hab.gcd_eq_one]
      exact Nat.modEq_one
  rw [period_eq_prod h, Nat.div_self (prod_pos hpos), Nat.one_mul, hall]

/-- If no two choices select the same value, only pairwise coprime lengths give
every choice once. -/
theorem pairwise_coprime_of_balanced (hpos : ∀ n ∈ sizes, 0 < n)
    (hinj : ∀ c ∈ choices sizes, ∀ d ∈ choices sizes, g c = g d → c = d)
    (h : Balanced sizes g) : sizes.Pairwise Nat.Coprime := by
  have hnodup : ((choices sizes).map g).Nodup := (nodup_choices sizes).map_on hinj
  have hzero := sweep_mem_choices hpos 0
  have hall : ((choices sizes).map g).count (g (sweep sizes 0)) = 1 :=
    List.count_eq_one_of_mem hnodup (List.mem_map_of_mem hzero)
  have hshare := h (g (sweep sizes 0))
  rw [hall, mul_eq_one] at hshare
  exact pairwise_coprime_of_period_eq hpos
    (Nat.eq_of_dvd_of_div_eq_one (period_dvd_prod sizes) hshare.1)

end Coprime

end BluesTrading.Foundations.CyclicSweep
