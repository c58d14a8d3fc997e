import BluesTrading.Foundations.MapIterator
import BluesTrading.Foundations.WhileLoop
import BluesTrading.PortfolioConservation

namespace BluesTrading.EmptyPositions

open BluesTrading.Foundations
open BluesTrading.PortfolioConservation
open BluesTrading.PositionBook
open BluesTrading.PositionManager

universe u

/-! ### The loop -/

section Loop

variable {κ ν : Type u} [LinearOrder κ]

/-- The map and the iterator, which is `none` at the end. -/
structure LoopState (κ ν : Type u) [LinearOrder κ] where
  c : OrderedMap κ ν
  iter : Option κ

def turn (predfun : κ × ν → Bool) (s : LoopState κ ν) : Option (LoopState κ ν) := do
  let k ← s.iter
  let x ← s.c.find? k
  if predfun (k, x) then
    let next ← s.c.increment (some k)
    let c := s.c.erase k
    let iter ← c.increment next
    return ⟨c, iter⟩
  else
    let iter ← s.c.increment (some k)
    return ⟨s.c, iter⟩

/-- The condition of the loop.  There is no state after the iterator was moved past the end, and
no turn either. -/
def notAtEnd (s : Option (LoopState κ ν)) : Bool := s.any fun s => s.iter.isSome

def Ends (predfun : κ × ν → Bool) : (s s' : Option (LoopState κ ν)) → Prop :=
  LoopEnds notAtEnd fun s => s.bind (turn predfun)

def RemoveIfMap (predfun : κ × ν → Bool) (c : OrderedMap κ ν) (s : Option (LoopState κ ν)) : Prop :=
  Ends predfun (some ⟨c, c.first?⟩) s

/-- The iterator stays in the map, and what does not satisfy the predicate is left as it was. -/
def RemovesExactly (predfun : κ × ν → Bool) (c : OrderedMap κ ν) : Prop :=
  ∃ result, RemoveIfMap predfun c (some ⟨result, none⟩) ∧
    ∀ k x, result.find? k = some x ↔ c.find? k = some x ∧ predfun (k, x) = false

/-- An entry that satisfies the predicate is followed by one that does not. -/
def MatchesApart (predfun : κ × ν → Bool) (c : OrderedMap κ ν) : Prop :=
  ∀ k x, c.find? k = some x → predfun (k, x) = true →
    ∃ k' x', c.next? k = some k' ∧ c.find? k' = some x' ∧ predfun (k', x') = false

end Loop

/-! ### What is left -/

section Survivors

variable {α : Type u} (p : α → Bool)

/-- The elements that the loop leaves, if it does not run past the last one. -/
def survivors : List α → Option (List α)
  | [] => some []
  | [a] => if p a then none else some [a]
  | a :: b :: l => if p a then (survivors l).map (b :: ·) else (survivors (b :: l)).map (a :: ·)

def Apart : List α → Prop
  | [] => True
  | a :: l => (p a = true → ∃ b ∈ l.head?, p b = false) ∧ Apart l

variable {p}

theorem survivors_of_apart {l : List α} (h : Apart p l) :
    survivors p l = some (l.filter fun a => !p a) := by
  fun_induction survivors p l with
  | case1 => rfl
  | case2 a ha => simpa using h.1 ha
  | case3 a ha => simp [ha]
  | case4 a b l ha ih =>
      have hb : p b = false := by simpa using h.1 ha
      rw [ih h.2.2, Option.map_some, List.filter_cons_of_neg (by simp [ha]),
        List.filter_cons_of_pos (by simp [hb])]
  | case5 a b l ha ih =>
      have hfilter : ((a :: b :: l).filter fun a => !p a) = a :: (b :: l).filter fun a => !p a :=
        List.filter_cons_of_pos (by simp [ha])
      rw [ih h.2, Option.map_some, hfilter]

theorem apart_of_survivors {l kept : List α} (h : survivors p l = some kept)
    (hkept : ∀ a ∈ kept, p a = false) : Apart p l := by
  fun_induction survivors p l generalizing kept with
  | case1 => trivial
  | case2 a ha => cases h
  | case3 a ha => exact ⟨fun h => absurd h ha, trivial⟩
  | case4 a b l ha ih =>
      obtain ⟨kept, hrest, rfl⟩ := Option.map_eq_some_iff.mp h
      obtain ⟨hb, hkept⟩ := List.forall_mem_cons.mp hkept
      exact ⟨fun _ => ⟨b, rfl, hb⟩, fun h => absurd (h.symm.trans hb) (by decide), ih hrest hkept⟩
  | case5 a b l ha ih =>
      obtain ⟨kept, hrest, rfl⟩ := Option.map_eq_some_iff.mp h
      exact ⟨fun h => absurd h ha, ih hrest (List.forall_mem_cons.mp hkept).2⟩

end Survivors

/-! ### The loop leaves the survivors -/

section Loop

variable {κ ν : Type u} [LinearOrder κ] {predfun : κ × ν → Bool} {c : OrderedMap κ ν}
  {before after : List (κ × ν)} {k : κ} {x : ν}

theorem turn_keep (h : c.entries = before ++ (k, x) :: after) (hkeep : predfun (k, x) = false) :
    turn predfun ⟨c, some k⟩ = some ⟨c, after.head?.map Prod.fst⟩ := by
  simp [turn, OrderedMap.increment, OrderedMap.find?_of_split h, OrderedMap.next?_of_split h, hkeep]

theorem turn_last (h : c.entries = before ++ [(k, x)]) (herase : predfun (k, x) = true) :
    turn predfun ⟨c, some k⟩ = none := by
  simp [turn, OrderedMap.increment, OrderedMap.find?_of_split h, OrderedMap.next?_of_split h,
    herase]

theorem turn_erase {e : κ × ν} (h : c.entries = before ++ (k, x) :: e :: after)
    (herase : predfun (k, x) = true) :
    turn predfun ⟨c, some k⟩ = some ⟨c.erase k, after.head?.map Prod.fst⟩ := by
  have herased := OrderedMap.next?_of_split (OrderedMap.entries_erase_of_split h)
  simp [turn, OrderedMap.increment, OrderedMap.find?_of_split h, OrderedMap.next?_of_split h,
    herase, herased]

theorem ends_of_turn {s s' : Option (LoopState κ ν)}
    (hturn : turn predfun ⟨c, some k⟩ = s) (h : Ends predfun s s') :
    Ends predfun (some ⟨c, some k⟩) s' := by
  refine LoopEnds.head rfl ?_
  rwa [Option.bind_some, hturn]

theorem ends_survivors (predfun : κ × ν → Bool) (rest : List (κ × ν)) {c : OrderedMap κ ν}
    {before : List (κ × ν)} (h : c.entries = before ++ rest) :
    ∃ s, Ends predfun (some ⟨c, rest.head?.map Prod.fst⟩) s ∧
      s.map (fun s => (s.c.entries, s.iter)) =
        (survivors predfun rest).map fun kept => (before ++ kept, none) := by
  fun_induction survivors predfun rest generalizing c before with
  | case1 => exact ⟨_, .of_guard_eq_false rfl, by simp [h]⟩
  | case2 e herase =>
      exact ⟨none, ends_of_turn (turn_last h herase) (.of_guard_eq_false rfl), rfl⟩
  | case3 e hkeep =>
      have hturn := turn_keep h (Bool.eq_false_iff.mpr hkeep)
      exact ⟨some ⟨c, none⟩, ends_of_turn hturn (.of_guard_eq_false rfl), by simp [h]⟩
  | case4 e e' rest herase ih =>
      have hsplit : (c.erase e.1).entries = (before ++ [e']) ++ rest := by
        rw [OrderedMap.entries_erase_of_split h, List.append_assoc, List.singleton_append]
      obtain ⟨s, hends, hs⟩ := ih hsplit
      exact ⟨s, ends_of_turn (turn_erase h herase) hends, by simpa [Function.comp_def] using hs⟩
  | case5 e e' rest hkeep ih =>
      have hsplit : c.entries = (before ++ [e]) ++ e' :: rest := by
        rw [h, List.append_assoc, List.singleton_append]
      have hturn := turn_keep h (Bool.eq_false_iff.mpr hkeep)
      obtain ⟨s, hends, hs⟩ := ih hsplit
      exact ⟨s, ends_of_turn hturn hends, by simpa [Function.comp_def] using hs⟩

theorem removeIfMap_iff {result : OrderedMap κ ν} :
    RemoveIfMap predfun c (some ⟨result, none⟩) ↔
      survivors predfun c.entries = some result.entries := by
  obtain ⟨s, hends, hs⟩ := @ends_survivors κ ν _ predfun c.entries c [] rfl
  simp only [List.nil_append] at hs
  constructor
  · intro h
    obtain rfl := LoopEnds.unique h hends
    obtain ⟨kept, hkept, heq⟩ := Option.map_eq_some_iff.mp hs.symm
    rw [hkept, (Prod.mk.inj heq).1]
  · intro h
    rw [h, Option.map_some] at hs
    obtain ⟨⟨left, iter⟩, rfl, heq⟩ := Option.map_eq_some_iff.mp hs
    obtain ⟨hentries, rfl⟩ := Prod.mk.inj heq
    obtain rfl := OrderedMap.eq_of_entries hentries
    exact hends

theorem apart_iff_of_split {rest : List (κ × ν)} (h : c.entries = before ++ rest) :
    Apart predfun rest ↔ ∀ k x, (k, x) ∈ rest → predfun (k, x) = true →
      ∃ k' x', c.next? k = some k' ∧ c.find? k' = some x' ∧ predfun (k', x') = false := by
  induction rest generalizing before with
  | nil => simp [Apart]
  | cons e rest ih =>
      obtain ⟨k, x⟩ := e
      have hsplit : c.entries = (before ++ [(k, x)]) ++ rest := by
        rw [h, List.append_assoc, List.singleton_append]
      have hnext : (∃ b ∈ rest.head?, predfun b = false) ↔
          ∃ k' x', c.next? k = some k' ∧ c.find? k' = some x' ∧ predfun (k', x') = false := by
        rw [OrderedMap.next?_of_split h]
        cases rest with
        | nil => simp
        | cons e' rest => simp [OrderedMap.find?_of_split hsplit]
      rw [Apart, ih hsplit, hnext]
      simp only [List.mem_cons, Prod.mk.injEq]
      constructor
      · rintro ⟨hhead, hrest⟩ k' x' (⟨rfl, rfl⟩ | hmem)
        · exact hhead
        · exact hrest k' x' hmem
      · intro hall
        exact ⟨hall k x (.inl ⟨rfl, rfl⟩), fun k' x' hmem => hall k' x' (.inr hmem)⟩

theorem matchesApart_iff : MatchesApart predfun c ↔ Apart predfun c.entries := by
  rw [@apart_iff_of_split κ ν _ predfun c [] c.entries rfl, MatchesApart]
  simp only [OrderedMap.mem_entries_iff]

theorem exists_removeIfMap_iff :
    (∃ result, RemoveIfMap predfun c (some ⟨result, none⟩) ∧
        ∀ k x, result.find? k = some x → predfun (k, x) = false) ↔ MatchesApart predfun c := by
  simp only [removeIfMap_iff, ← OrderedMap.mem_entries_iff, matchesApart_iff]
  constructor
  · rintro ⟨result, hresult, hleft⟩
    exact apart_of_survivors hresult fun e he => hleft e.1 e.2 he
  · intro h
    refine ⟨⟨_, c.sorted.filter _⟩, survivors_of_apart h, fun k x hmem => ?_⟩
    simpa using (List.mem_filter.mp hmem).2

theorem removesExactly_iff : RemovesExactly predfun c ↔ MatchesApart predfun c := by
  constructor
  · rintro ⟨result, hresult, hleft⟩
    exact exists_removeIfMap_iff.mp ⟨result, hresult, fun k x hx => ((hleft k x).mp hx).2⟩
  · intro h
    rw [matchesApart_iff] at h
    refine ⟨⟨_, c.sorted.filter _⟩, removeIfMap_iff.mpr (survivors_of_apart h), fun k x => ?_⟩
    rw [← OrderedMap.mem_entries_iff, ← OrderedMap.mem_entries_iff, List.mem_filter]
    simp

end Loop

/-! ### The book -/

def isEmptyPos (posPair : ℕ × CPosition) : Bool :=
  let todayPos := posPair.2.getPositions .longToday
  let ystPos := posPair.2.getPositions .longYst
  todayPos.isEmpty && ystPos.isEmpty

def RemoveEmptyPosition (m m' : TestPositionManager) : Prop :=
  RemoveIfMap isEmptyPos m.allPositions (some ⟨m'.allPositions, none⟩) ∧ m'.cash = m.cash

def RemovesEmpty (m : TestPositionManager) : Prop :=
  ∃ m', RemoveEmptyPosition m m' ∧
    ∀ inst pos, m'.allPositions.find? inst = some pos → isEmptyPos (inst, pos) = false

theorem removesEmpty_iff {m : TestPositionManager} :
    RemovesEmpty m ↔ MatchesApart isEmptyPos m.allPositions := by
  rw [← exists_removeIfMap_iff]
  constructor
  · rintro ⟨m', ⟨hremove, -⟩, hleft⟩
    exact ⟨m'.allPositions, hremove, hleft⟩
  · rintro ⟨result, hremove, hleft⟩
    exact ⟨⟨result, m.cash⟩, ⟨hremove, rfl⟩, hleft⟩

/-- For every map and predicate, and for every book, the loop removes what it should just if each
match is followed by an entry that is none. -/
theorem removesExactly_and_removesEmpty_iff {κ ν : Type u} [LinearOrder κ]
    (predfun : κ × ν → Bool) (c : OrderedMap κ ν) (m : TestPositionManager) :
    (RemovesExactly predfun c ↔ MatchesApart predfun c) ∧
      (RemovesEmpty m ↔ MatchesApart isEmptyPos m.allPositions) :=
  ⟨removesExactly_iff, removesEmpty_iff⟩

def twoFlat : TestPositionManager :=
  (((TestPositionManager.init 0).getPosition 5200000).2.getPosition 5210000).2.onUpdateOrder
    (futureFill 5220000 1 100 .flagOpen .flagLong)

/-- The iterator is moved past the end of a map of one entry, and of two neighbours the second
one is left. -/
theorem not_removesExactly_and_removesEmpty :
    ¬ RemovesExactly (fun _ => true) (OrderedMap.empty.insert 5200000 ()) ∧
      (∃ m' pos, RemoveEmptyPosition twoFlat m' ∧ m'.allPositions.find? 5210000 = some pos ∧
        isEmptyPos (5210000, pos) = true) ∧ ¬ RemovesEmpty twoFlat := by
  have hremove : ∃ m' pos, RemoveEmptyPosition twoFlat m' ∧
      m'.allPositions.find? 5210000 = some pos ∧ isEmptyPos (5210000, pos) = true :=
    ⟨⟨twoFlat.allPositions.erase 5200000, 0⟩, _, ⟨removeIfMap_iff.mpr rfl, rfl⟩, rfl, rfl⟩
  refine ⟨?_, hremove, ?_⟩
  · rintro ⟨result, hresult, -⟩
    cases removeIfMap_iff.mp hresult
  · rintro ⟨left, ⟨hleft, -⟩, hnone⟩
    obtain ⟨m', pos, ⟨hm', -⟩, hpos, hempty⟩ := hremove
    obtain heq := (LoopState.mk.inj (Option.some.inj (LoopEnds.unique hleft hm'))).1
    have hfull := hnone 5210000 pos (heq ▸ hpos)
    rw [hempty] at hfull
    cases hfull

end BluesTrading.EmptyPositions
