import BluesTrading.ConfigSpace
import Mathlib.Data.List.GetD

namespace BluesTrading.ConfigProduct

open ConfigSpace
open Foundations
open Foundations.CyclicSweep
open SourceText

section Entries

def entrySizes (entries : List (Str × List Str)) : List ℕ :=
  entries.map fun pair => pair.2.length

theorem sizes_eq (space : OrderedMap Str (List Str)) : sizes space = entrySizes space.entries := by
  rw [sizes, OrderedMap.values, List.map_map]
  rfl

theorem foldl_total (entries : List (Str × List Str)) (total : ℕ)
    (hpos : ∀ n ∈ entrySizes entries, 0 < n) (h : total * (entrySizes entries).prod < 2 ^ 32) :
    entries.foldl (fun total pair => total * pair.2.length % 2 ^ 32) total =
      total * (entrySizes entries).prod := by
  induction entries generalizing total with
  | nil => exact (Nat.mul_one total).symm
  | cons pair entries ih =>
      have hpos' : ∀ n ∈ entrySizes entries, 0 < n := fun n hn =>
        hpos n (List.mem_cons_of_mem _ hn)
      have hcons : total * (entrySizes (pair :: entries)).prod =
          total * pair.2.length * (entrySizes entries).prod := by
        rw [entrySizes, List.map_cons, List.prod_cons, Nat.mul_assoc]
        rfl
      rw [hcons] at h ⊢
      have hle := Nat.le_mul_of_pos_right (total * pair.2.length) (prod_pos hpos')
      rw [List.foldl_cons, Nat.mod_eq_of_lt (hle.trans_lt h)]
      exact ih _ hpos' h

theorem fillProp_map (n : ℕ) (f : ℕ → Config) (pair : Str × List Str) :
    fillProp ((List.range n).map f) pair =
      (List.range n).map fun i => (f i).insert pair.1 (pair.2.getD (i % pair.2.length) []) := by
  refine List.ext_getElem (by simp [fillProp]) fun i hi hi' => ?_
  simp [fillProp]

theorem foldl_fillProp (entries : List (Str × List Str)) (n : ℕ) (f : ℕ → Config) :
    entries.foldl fillProp ((List.range n).map f) =
      (List.range n).map fun i => assign entries (sweep (entrySizes entries) i) (f i) := by
  induction entries generalizing f with
  | nil => rfl
  | cons pair entries ih =>
      rw [List.foldl_cons, fillProp_map, ih]
      rfl

theorem find?_assign_of_not_mem {entries : List (Str × List Str)} {name : Str}
    (h : name ∉ entries.map Prod.fst) (choice : List ℕ) (config : Config) :
    (assign entries choice config).find? name = config.find? name := by
  induction entries generalizing choice config with
  | nil =>
      cases choice <;> rfl
  | cons pair entries ih =>
      rw [List.map_cons, List.mem_cons, not_or] at h
      cases choice with
      | nil => rfl
      | cons position choice =>
          rw [assign, ih h.2, OrderedMap.find?_insert_of_ne _ _ h.1]

theorem assign_inj {entries : List (Str × List Str)} (hkeys : (entries.map Prod.fst).Nodup)
    (hvalues : ∀ pair ∈ entries, pair.2.Nodup) {c d : List ℕ}
    (hc : c ∈ choices (entrySizes entries)) (hd : d ∈ choices (entrySizes entries))
    {config : Config} (h : assign entries c config = assign entries d config) : c = d := by
  rw [choices, List.mem_sections] at hc hd
  induction entries generalizing c d config with
  | nil =>
      cases hc
      cases hd
      rfl
  | cons pair entries ih =>
      rw [List.map_cons, List.nodup_cons] at hkeys
      rw [entrySizes, List.map_cons, List.map_cons] at hc hd
      cases hc with
      | @cons position _ c _ hposition hc =>
          cases hd with
          | @cons position' _ d _ hposition' hd =>
              rw [List.mem_range] at hposition hposition'
              have hvalue := congrArg (fun config => config.find? pair.1) h
              simp only [assign, find?_assign_of_not_mem hkeys.1, OrderedMap.find?_insert_self,
                Option.some.injEq, List.getD_eq_getElem _ _ hposition,
                List.getD_eq_getElem _ _ hposition'] at hvalue
              have hsame := (List.Nodup.getElem_inj_iff (hvalues pair List.mem_cons_self)).mp hvalue
              subst hsame
              rw [ih hkeys.2 (fun other hother => hvalues other (List.mem_cons_of_mem pair hother))
                hc hd h]

end Entries

section Space

variable {space : OrderedMap Str (List Str)}

theorem expand_eq (hpos : ∀ n ∈ sizes space, 0 < n) (h : (sizes space).prod < 2 ^ 31) :
    expand space =
      (List.range (sizes space).prod).map fun i => select space (sweep (sizes space) i) := by
  rw [sizes_eq] at hpos h ⊢
  have htotal : totalSpace space = (entrySizes space.entries).prod := by
    rw [totalSpace, foldl_total _ 1 hpos (by omega), Nat.one_mul]
  have hempty : List.replicate (entrySizes space.entries).prod (OrderedMap.empty : Config) =
      (List.range (entrySizes space.entries).prod).map fun _ => OrderedMap.empty := by
    rw [List.map_const', List.length_range]
  rw [expand, htotal, hempty, foldl_fillProp]
  rfl

end Space

/-- The configurations are the Cartesian product if and only if every combination of values
has its share among the compatible choices.  That is so for pairwise coprime numbers of
values, and without repeated values for these only. -/
theorem parserProps_perm_cartesianProduct_iff {V : Type} (type : ValueType V) (fuel : ℕ)
    (inputStr : Str) {space : OrderedMap Str (List Str)}
    (hspace : parserPropsSpace type fuel inputStr = .ok space)
    (hvalues : ∀ prop_values ∈ space.values, prop_values ≠ [])
    (hsmall : (sizes space).prod < 2 ^ 31) :
    ∃ ret, (∀ fuel' ≥ fuel, parserProps type fuel' inputStr = .ok ret) ∧
      (ret.Perm (cartesianProduct space) ↔ Balanced (sizes space) (select space)) ∧
      ((sizes space).Pairwise Nat.Coprime → ret.Perm (cartesianProduct space)) ∧
      ((∀ prop_values ∈ space.values, prop_values.Nodup) →
        ret.Perm (cartesianProduct space) → (sizes space).Pairwise Nat.Coprime) := by
  have hpos : ∀ n ∈ sizes space, 0 < n := by
    intro n hn
    obtain ⟨prop_values, hmem, rfl⟩ := List.mem_map.mp hn
    exact List.length_pos_of_ne_nil (hvalues prop_values hmem)
  have hiff : (expand space).Perm (cartesianProduct space) ↔
      Balanced (sizes space) (select space) := by
    rw [expand_eq hpos hsmall]
    exact perm_choices_iff hpos (select space)
  refine ⟨expand space, fun fuel' hfuel => ?_, hiff, ?_, ?_⟩
  · rw [parserProps, parserPropsSpace_of_le hfuel hspace]
    rfl
  · intro hcoprime
    exact hiff.mpr (balanced_of_coprime hpos hcoprime)
  · intro hnodup hperm
    refine pairwise_coprime_of_balanced hpos (fun c hc d hd hcd => ?_) (hiff.mp hperm)
    rw [sizes_eq] at hc hd
    exact assign_inj space.keys_nodup
      (fun pair hpair => hnodup _ (List.mem_map_of_mem hpair)) hc hd hcd

def twoProps (p q : List Str) : OrderedMap Str (List Str) :=
  (OrderedMap.empty.insert ['p'] p).insert ['q'] q

def coprimeText : Str := ['p', '=', '\x7b', 'a', ',', 'b', '\x7d', '\n',
  'q', '=', '\x7b', 'c', ',', 'd', ',', 'e', '\x7d', '\n']

theorem parserProps_perm_cartesianProduct_iff_coprime :
    ∃ space ret, parserPropsSpace intType 0 coprimeText = .ok space ∧
      sizes space = [2, 3] ∧ parserProps intType 0 coprimeText = .ok ret ∧
      ret.Perm (cartesianProduct space) := by
  have hspace : parserPropsSpace intType 0 coprimeText =
      .ok (twoProps [['a'], ['b']] [['c'], ['d'], ['e']]) := by rfl
  obtain ⟨ret, hret, -, hcoprime, -⟩ := parserProps_perm_cartesianProduct_iff intType 0 coprimeText
    hspace (by decide +kernel) (by decide +kernel)
  exact ⟨_, ret, hspace, by decide +kernel, hret 0 le_rfl, hcoprime (by decide +kernel)⟩

def squareText : Str := ['p', '=', '\x7b', 'a', ',', 'b', '\x7d', '\n',
  'q', '=', '\x7b', 'c', ',', 'd', '\x7d', '\n']

theorem not_parserProps_perm_cartesianProduct :
    ∃ space ret, parserPropsSpace intType 0 squareText = .ok space ∧
      (∀ prop_values ∈ space.values, prop_values ≠ []) ∧ (sizes space).prod < 2 ^ 31 ∧
      parserProps intType 0 squareText = .ok ret ∧ ¬ ret.Perm (cartesianProduct space) := by
  have hspace : parserPropsSpace intType 0 squareText =
      .ok (twoProps [['a'], ['b']] [['c'], ['d']]) := by rfl
  refine ⟨_, expand (twoProps [['a'], ['b']] [['c'], ['d']]), hspace, by decide +kernel,
    by decide +kernel, by rw [parserProps, hspace]; rfl, ?_⟩
  decide +kernel

end BluesTrading.ConfigProduct
