import Mathlib

/-!
Merging lists that are sorted by a key, where an element of the list that
arrives later goes before an element of the same key that is already there.
A sorted list is determined by its sublists of one key each, and on these a
merge is a concatenation, so the outcome of many merges depends on their order
exactly as far as these sublists fail to commute.
-/

namespace BluesTrading.Foundations.SortedMerge

universe u v w

variable {α : Type u} {κ : Type v} [LinearOrder κ] (key : α → κ)

def SortedBy (l : List α) : Prop := l.Pairwise fun a b => key a ≤ key b

def atKey (k : κ) (l : List α) : List α := l.filter fun a => key a = k

/-- Merge a sorted list into another; on equal keys the arriving list wins. -/
def mergeIn (all arriving : List α) : List α :=
  all.merge arriving fun a b => decide (key a < key b)

variable {key}

theorem sortedBy_mergeIn {all arriving : List α} (hall : SortedBy key all)
    (harriving : SortedBy key arriving) : SortedBy key (mergeIn key all arriving) := by
  unfold mergeIn
  induction all generalizing arriving with
  | nil => simpa using harriving
  | cons a all ihall =>
      induction arriving with
      | nil => simpa using hall
      | cons b arriving iharriving =>
          obtain ⟨hahead, hatail⟩ := List.pairwise_cons.mp hall
          obtain ⟨hbhead, hbtail⟩ := List.pairwise_cons.mp harriving
          by_cases hlt : key a < key b
          · rw [List.cons_merge_cons_pos _ _ _ (decide_eq_true hlt)]
            refine List.pairwise_cons.mpr ⟨?_, ihall hatail harriving⟩
            intro c hc
            rcases List.mem_merge.mp hc with hc | hc
            · exact hahead c hc
            · rcases List.mem_cons.mp hc with rfl | hc
              · exact hlt.le
              · exact hlt.le.trans (hbhead c hc)
          · have hle : key b ≤ key a := not_lt.mp hlt
            rw [List.cons_merge_cons_neg _ _ _ (by simpa using hle)]
            refine List.pairwise_cons.mpr ⟨?_, iharriving hbtail⟩
            intro c hc
            rcases List.mem_merge.mp hc with hc | hc
            · rcases List.mem_cons.mp hc with rfl | hc
              · exact hle
              · exact hle.trans (hahead c hc)
            · exact hbhead c hc

theorem atKey_eq_nil_of_lt {k : κ} {l : List α} (h : ∀ a ∈ l, k < key a) :
    atKey key k l = [] := by
  simp only [atKey, List.filter_eq_nil_iff, decide_eq_true_eq]
  exact fun a ha => (h a ha).ne'

theorem atKey_mergeIn {all arriving : List α} (harriving : SortedBy key arriving) (k : κ) :
    atKey key k (mergeIn key all arriving) = atKey key k arriving ++ atKey key k all := by
  unfold mergeIn
  induction all generalizing arriving with
  | nil => simp [atKey]
  | cons a all ihall =>
      induction arriving with
      | nil => simp [atKey]
      | cons b arriving iharriving =>
          obtain ⟨hbhead, hbtail⟩ := List.pairwise_cons.mp harriving
          by_cases hlt : key a < key b
          · rw [List.cons_merge_cons_pos _ _ _ (decide_eq_true hlt)]
            have hrest := ihall harriving
            by_cases hk : key a = k
            · have hnone : atKey key k (b :: arriving) = [] := by
                apply atKey_eq_nil_of_lt
                intro c hc
                rcases List.mem_cons.mp hc with rfl | hc
                · exact hk ▸ hlt
                · exact hk ▸ hlt.trans_le (hbhead c hc)
              rw [hnone, List.nil_append] at hrest ⊢
              simpa [atKey, hk] using hrest
            · simpa [atKey, hk] using hrest
          · rw [List.cons_merge_cons_neg _ _ _ (by simpa using not_lt.mp hlt)]
            have hrest := iharriving hbtail
            by_cases hk : key b = k
            · simpa [atKey, hk] using hrest
            · simpa [atKey, hk] using hrest

theorem SortedBy.ext {l r : List α} (hl : SortedBy key l) (hr : SortedBy key r)
    (h : ∀ k, atKey key k l = atKey key k r) : l = r := by
  induction l generalizing r with
  | nil =>
      cases r with
      | nil => rfl
      | cons b r => simpa [atKey] using h (key b)
  | cons a l ih =>
      obtain ⟨halow, hltail⟩ := List.pairwise_cons.mp hl
      have hmem : a ∈ r := by
        have ha : a ∈ atKey key (key a) r := by
          rw [← h (key a)]
          simp [atKey]
        exact List.mem_of_mem_filter ha
      cases r with
      | nil => cases hmem
      | cons b r =>
          obtain ⟨hblow, hrtail⟩ := List.pairwise_cons.mp hr
          have hbmem : b ∈ a :: l := by
            have hb : b ∈ atKey key (key b) (a :: l) := by
              rw [h (key b)]
              simp [atKey]
            exact List.mem_of_mem_filter hb
          have hab : key a ≤ key b := by
            rcases List.mem_cons.mp hbmem with rfl | hb
            · exact le_rfl
            · exact halow b hb
          have hba : key b ≤ key a := by
            rcases List.mem_cons.mp hmem with rfl | ha
            · exact le_rfl
            · exact hblow a ha
          have hkey : key a = key b := le_antisymm hab hba
          have hheads := h (key a)
          simp only [atKey, List.filter_cons, hkey, decide_true, if_true,
            List.cons.injEq] at hheads
          obtain ⟨rfl, -⟩ := hheads
          congr 1
          apply ih hltail hrtail
          intro k
          have hk := h k
          by_cases hak : key a = k <;> simpa [atKey, hak] using hk

section ManyMerges

variable {ι : Type w} (contents : ι → List α)

/-- Merge the contents of batches in the order in which the batches arrive. -/
def mergeAll (key : α → κ) (batches : List ι) : List α :=
  batches.foldl (fun all batch => mergeIn key all (contents batch)) []

/-- Two lists whose elements of each key may be exchanged as blocks. -/
def TiesCommute (key : α → κ) (l r : List α) : Prop :=
  ∀ k, atKey key k l ++ atKey key k r = atKey key k r ++ atKey key k l

variable {contents}

theorem sortedBy_mergeAll {batches : List ι}
    (hsorted : ∀ batch ∈ batches, SortedBy key (contents batch)) :
    SortedBy key (mergeAll contents key batches) := by
  unfold mergeAll
  generalize hall : ([] : List α) = all
  have hstart : SortedBy key all := hall ▸ List.Pairwise.nil
  clear hall
  induction batches generalizing all with
  | nil => exact hstart
  | cons batch batches ih =>
      exact ih (fun b hb => hsorted b (List.mem_cons_of_mem batch hb)) _
        (sortedBy_mergeIn hstart (hsorted batch List.mem_cons_self))

theorem atKey_mergeAll {batches : List ι}
    (hsorted : ∀ batch ∈ batches, SortedBy key (contents batch)) (k : κ) :
    atKey key k (mergeAll contents key batches) =
      (batches.reverse.map fun batch => atKey key k (contents batch)).flatten := by
  have hfold : ∀ all, atKey key k
      (batches.foldl (fun all batch => mergeIn key all (contents batch)) all) =
        (batches.reverse.map fun batch => atKey key k (contents batch)).flatten ++
          atKey key k all := by
    induction batches with
    | nil => simp
    | cons batch batches ih =>
        intro all
        rw [List.foldl_cons, ih fun b hb => hsorted b (List.mem_cons_of_mem batch hb),
          atKey_mergeIn (hsorted batch List.mem_cons_self)]
        simp
  rw [mergeAll, hfold]
  simp [atKey]

theorem flatten_map_perm {f : ι → List α} {l r : List ι} (hperm : l.Perm r)
    (hcomm : l.Pairwise fun a b => f a ++ f b = f b ++ f a) :
    (l.map f).flatten = (r.map f).flatten := by
  -- concatenation is the product of the free monoid
  have hprod : (l.map fun a => FreeMonoid.ofList (f a)).prod =
      (r.map fun a => FreeMonoid.ofList (f a)).prod := by
    refine (hperm.map _).prod_eq' (List.pairwise_map.mpr (hcomm.imp ?_))
    intro a b hab
    exact congrArg FreeMonoid.ofList hab
  have hlists := congrArg FreeMonoid.toList hprod
  simpa [FreeMonoid.toList_prod, Function.comp_def] using hlists

theorem mergeAll_perm {batches batches' : List ι} (hperm : batches.Perm batches')
    (hsorted : ∀ batch ∈ batches, SortedBy key (contents batch))
    (hties : batches.Pairwise fun a b => TiesCommute key (contents a) (contents b)) :
    mergeAll contents key batches = mergeAll contents key batches' := by
  have hsorted' : ∀ batch ∈ batches', SortedBy key (contents batch) :=
    fun batch hbatch => hsorted batch (hperm.mem_iff.mpr hbatch)
  refine (sortedBy_mergeAll hsorted).ext (sortedBy_mergeAll hsorted') ?_
  intro k
  have hreverse : batches.reverse.Perm batches'.reverse :=
    (List.reverse_perm batches).trans (hperm.trans (List.reverse_perm batches').symm)
  rw [atKey_mergeAll hsorted, atKey_mergeAll hsorted']
  apply flatten_map_perm hreverse
  rw [List.pairwise_reverse]
  exact hties.imp fun hab => (hab k).symm

/-- The order of arrival does not matter exactly when ties commute. -/
theorem mergeAll_eq_iff {batches : List ι}
    (hsorted : ∀ batch ∈ batches, SortedBy key (contents batch)) :
    (∀ p q : List ι, p.Perm batches → q.Perm batches →
        mergeAll contents key p = mergeAll contents key q) ↔
      batches.Pairwise fun a b => TiesCommute key (contents a) (contents b) := by
  constructor
  · intro h
    rw [List.pairwise_iff_forall_sublist]
    intro a b hsub k
    obtain ⟨rest, hperm⟩ := hsub.exists_perm_append
    have hfirst : (a :: b :: rest).Perm batches := hperm.symm
    have hswap : (b :: a :: rest).Perm batches := (List.Perm.swap a b rest).trans hfirst
    have hsame := congrArg (atKey key k) (h (a :: b :: rest) (b :: a :: rest) hfirst hswap)
    rw [atKey_mergeAll fun m hm => hsorted m (hfirst.mem_iff.mp hm),
      atKey_mergeAll fun m hm => hsorted m (hswap.mem_iff.mp hm)] at hsame
    simpa using hsame.symm
  · intro hties p q hp hq
    have hsymm : ∀ {a b : ι}, TiesCommute key (contents a) (contents b) →
        TiesCommute key (contents b) (contents a) := fun hab k => (hab k).symm
    exact mergeAll_perm (hp.trans hq.symm) (fun l hl => hsorted l (hp.mem_iff.mp hl))
      ((hp.pairwise_iff hsymm).mpr hties)

end ManyMerges

/-! ### Where the elements come from -/

/-- The list is made of the parts, each in its own order: its elements can be marked with the
part that they come from. -/
def Interleaves (parts : List (List α)) (l : List α) : Prop :=
  ∃ marked : List (α × ℕ), marked.map Prod.fst = l ∧
    (∀ x ∈ marked, x.2 < parts.length) ∧
    ∀ (i : ℕ) (hi : i < parts.length),
      (marked.filter fun x => x.2 = i).map Prod.fst = parts[i]

theorem interleaves_nil : Interleaves ([] : List (List α)) [] :=
  ⟨[], rfl, by simp, by simp⟩

theorem filter_merge_eq_left {le : α → α → Bool} {q : α → Bool} {l r : List α}
    (hr : ∀ b ∈ r, q b = false) : (l.merge r le).filter q = l.filter q := by
  induction l generalizing r with
  | nil => simpa using hr
  | cons a l ihl =>
      induction r with
      | nil => simp
      | cons b r ihr =>
          obtain ⟨hb, htail⟩ := List.forall_mem_cons.mp hr
          by_cases hle : le a b = true
          · rw [List.cons_merge_cons_pos _ _ _ hle, List.filter_cons, List.filter_cons, ihl hr]
          · rw [List.cons_merge_cons_neg _ _ _ hle, List.filter_cons, hb]
            exact ihr htail

theorem filter_merge_eq_right {le : α → α → Bool} {q : α → Bool} {l r : List α}
    (hl : ∀ a ∈ l, q a = false) : (l.merge r le).filter q = r.filter q := by
  induction l generalizing r with
  | nil => simp
  | cons a l ihl =>
      obtain ⟨ha, htail⟩ := List.forall_mem_cons.mp hl
      induction r with
      | nil => simpa using hl
      | cons b r ihr =>
          by_cases hle : le a b = true
          · rw [List.cons_merge_cons_pos _ _ _ hle, List.filter_cons, ha]
            exact ihl htail
          · rw [List.cons_merge_cons_neg _ _ _ hle, List.filter_cons, List.filter_cons, ihr]

theorem Interleaves.mergeIn {parts : List (List α)} {all : List α}
    (h : Interleaves parts all) (arriving : List α) :
    Interleaves (parts ++ [arriving]) (mergeIn key all arriving) := by
  obtain ⟨marked, rfl, hbound, hparts⟩ := h
  let new : List (α × ℕ) := arriving.map fun a => (a, parts.length)
  refine ⟨SortedMerge.mergeIn (fun x => key x.1) marked new, ?_, fun x hx => ?_, fun i hi => ?_⟩
  · have hnew : new.map Prod.fst = arriving := by simp [new, Function.comp_def]
    unfold SortedMerge.mergeIn
    rw [List.map_merge (f := Prod.fst) (s := fun a b => decide (key a < key b))
      fun _ _ _ _ => rfl, hnew]
  · rw [List.length_append, List.length_singleton]
    rcases List.mem_merge.mp hx with hx | hx
    · exact (hbound x hx).trans (Nat.lt_succ_self _)
    · obtain ⟨a, -, rfl⟩ := List.mem_map.mp hx
      exact Nat.lt_succ_self _
  · unfold SortedMerge.mergeIn
    rw [List.length_append, List.length_singleton, Nat.lt_succ_iff] at hi
    rcases hi.lt_or_eq with hi | rfl
    · rw [filter_merge_eq_left, hparts i hi, List.getElem_append_left hi]
      simp [new, hi.ne']
    · rw [filter_merge_eq_right]
      · simp [new, List.filter_map, Function.comp_def]
      · intro x hx
        simpa using (hbound x hx).ne

section Origins

variable {ι : Type w} {contents : ι → List α}

theorem mergeAll_concat (batches : List ι) (batch : ι) :
    mergeAll contents key (batches ++ [batch]) =
      mergeIn key (mergeAll contents key batches) (contents batch) := by
  simp [mergeAll]

theorem interleaves_mergeAll (batches : List ι) :
    Interleaves (batches.map contents) (mergeAll contents key batches) := by
  induction batches using List.reverseRecOn with
  | nil => exact interleaves_nil
  | append_singleton batches batch ih =>
      rw [mergeAll_concat, List.map_append]
      exact ih.mergeIn (contents batch)

theorem mergeAll_perm_flatMap (batches : List ι) :
    (mergeAll contents key batches).Perm (batches.flatMap contents) := by
  induction batches using List.reverseRecOn with
  | nil => exact List.Perm.refl _
  | append_singleton batches batch ih =>
      rw [mergeAll_concat, List.flatMap_append, List.flatMap_singleton]
      exact (List.merge_perm_append _).trans (ih.append_right (contents batch))

/-- What is chosen from a merge of batches of which at most one has something to choose. -/
theorem filter_mergeAll {q : α → Bool} {chosen : ι → Bool} {batches : List ι}
    (hq : ∀ batch ∈ batches, ∀ a ∈ contents batch, q a = chosen batch)
    (hone : (batches.filter chosen).length ≤ 1) :
    (mergeAll contents key batches).filter q = (batches.filter chosen).flatMap contents := by
  induction batches using List.reverseRecOn with
  | nil => rfl
  | append_singleton batches batch ih =>
      simp only [List.forall_mem_append, List.forall_mem_singleton] at hq
      obtain ⟨hbefore, hbatch⟩ := hq
      rw [List.filter_append, List.length_append] at hone
      have hrest := ih hbefore (by omega)
      rw [mergeAll_concat, mergeIn, List.filter_append, List.flatMap_append]
      cases hchosen : chosen batch with
      | true =>
          rw [List.filter_cons_of_pos hchosen, List.length_cons] at hone
          have hnone : batches.filter chosen = [] := List.eq_nil_of_length_eq_zero (by omega)
          rw [hnone, List.flatMap_nil, List.filter_eq_nil_iff] at hrest
          rw [filter_merge_eq_right fun a ha => by simpa using hrest a ha, hnone,
            List.filter_cons_of_pos hchosen, List.flatMap_nil, List.nil_append]
          simp only [List.filter_nil, List.flatMap_cons, List.flatMap_nil, List.append_nil]
          exact List.filter_eq_self.mpr fun a ha => (hbatch a ha).trans hchosen
      | false =>
          rw [filter_merge_eq_left fun a ha => (hbatch a ha).trans hchosen, hrest,
            List.filter_cons_of_neg (by simp [hchosen])]
          simp

end Origins

end BluesTrading.Foundations.SortedMerge
