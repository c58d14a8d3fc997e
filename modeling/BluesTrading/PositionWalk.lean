import BluesTrading.MarkPrice

/-!
The range-for of `resetPnl` walks a deque that its body pops and pushes.  Its iterators last as
long as the pushes leave the storage of the deque in place, and so long it visits the items that
were there when it started.
-/

namespace BluesTrading.PositionWalk

open BluesTrading.Foundations
open BluesTrading.MarkPrice
open BluesTrading.PositionBook
open BluesTrading.PositionManager
open BluesTrading.PositionUnits

/-- How many `push_back`s the deque of an instrument takes in place.  The source leaves it to the
library. -/
def Rooms := ℕ → PositionType → ℕ

/-- A range-for on its way: the items popped since it started, and the `push_back`s that its
iterators survive from here. -/
structure Walk where
  pos : CPosition
  popped : ℕ
  room : ℕ

/-- One pass, the iterator at the item that was the `place`-th when the loop started.  There is
no going on after a `push_back` that moves the storage, nor from an item popped before. -/
def walkItem (t : PositionType) (w : Walk) (place : ℕ) : Option Walk :=
  if place < w.popped ∨ w.room = 0 then none
  else (w.pos.getPositions t)[place - w.popped]?.map fun eachPos =>
    let reopened := CPosition.reopenItem t w.pos eachPos
    { pos := reopened
      popped := w.popped +
        ((w.pos.getPositions t).length + 1 - (reopened.getPositions t).length)
      room := w.room - 1 }

def walkBucket (room : ℕ) (t : PositionType) (pos : CPosition) : Option CPosition :=
  ((List.range (pos.getPositions t).length).foldlM (walkItem t) ⟨pos, 0, room⟩).map Walk.pos

def walkResetPnl (room : PositionType → ℕ) (pos : CPosition) : Option CPosition := do
  let pos₁ ← walkBucket (room .shortToday) .shortToday pos
  let pos₂ ← walkBucket (room .shortYst) .shortYst pos₁
  let pos₃ ← walkBucket (room .longToday) .longToday pos₂
  let pos₄ ← walkBucket (room .longYst) .longYst pos₃
  return { pos₄ with realizedPnL := 0 }

def walkEntry (rooms : Rooms) (m : TestPositionManager) (eachPos : ℕ × CPosition) :
    Option TestPositionManager :=
  (walkResetPnl (rooms eachPos.1) eachPos.2).map fun pos =>
    { allPositions := m.allPositions.insert eachPos.1 pos.resetTradeCount
      cash := m.cash + eachPos.2.getPositionPnl }

def walkOnStartDay (rooms : Rooms) (m : TestPositionManager) (_date : ℕ) :
    Option TestPositionManager :=
  let m' := m.resetPositionTodayToYst
  m'.allPositions.entries.foldlM (walkEntry rooms) m'

def walkBook (m : TestPositionManager) (event : Rooms × BookEvent) :
    Option TestPositionManager :=
  match event.2 with
  | .startDay date => walkOnStartDay event.1 m date
  | event => some (stepBook m event)

def runWalks (cash : ℚ) (events : List (Rooms × BookEvent)) : Option TestPositionManager :=
  events.foldlM walkBook (TestPositionManager.init cash)

/-! ### One bucket -/

theorem queue_tradeMatchPos_item (calcDiff : ℚ → ℚ → ℚ) (m : ℕ) (trade : TradeInfo) (r : ℚ)
    {zeros rest : List PositionItem} {item : PositionItem} (hzeros : ∀ z ∈ zeros, z.qty = 0)
    (hqty : trade.qty = item.qty) :
    (tradeMatchPos calcDiff m trade r (zeros ++ item :: rest)).queue =
      if item.qty = 0 then zeros ++ item :: rest else rest := by
  by_cases hzero : item.qty = 0
  · rw [if_pos hzero]
    cases zeros <;> simp [tradeMatchPos, hqty, hzero]
  · rw [if_neg hzero]
    induction zeros generalizing trade r with
    | nil =>
        cases rest <;> simp [tradeMatchPos, hqty, hzero]
    | cons z zeros ih =>
        obtain ⟨hz, hzeros⟩ := List.forall_mem_cons.mp hzeros
        simp only [List.cons_append, tradeMatchPos, hqty, hzero, hz, if_false, Nat.zero_min,
          Nat.sub_zero, if_true]
        exact ih _ _ hzeros rfl

theorem getPositions_addTrade_open (pos : CPosition) {trade : TradeInfo}
    (hopen : trade.isOpen = true) (t : PositionType) :
    (pos.addTrade trade).getPositions t =
      if t = trade.bucket then
        pos.getPositions t ++ [⟨trade.price, trade.qty, trade.isLong, trade.isToday⟩]
      else pos.getPositions t := by
  simp only [CPosition.addTrade, CPosition.addPosition, TradeInfo.bucket, hopen, if_true,
    getPositions_setPositions, getPositions_tradeCount]
  split_ifs with h
  · rw [h]
  · rfl

theorem getPositions_reopenItem_of_ne {t t' : PositionType} (h : t' ≠ t) (pos : CPosition)
    (item : PositionItem) :
    (CPosition.reopenItem t pos item).getPositions t' = pos.getPositions t' := by
  rw [CPosition.reopenItem, getPositions_addTrade_open _ rfl,
    getPositions_addTrade_close _ _ rfl]
  simp [TradeInfo.bucket, h]

theorem getPositions_reopenItem {t : PositionType} {pos : CPosition}
    {zeros rest : List PositionItem} {item : PositionItem}
    (hitems : pos.getPositions t = zeros ++ item :: rest) (hzeros : ∀ z ∈ zeros, z.qty = 0) :
    (CPosition.reopenItem t pos item).getPositions t =
      (if item.qty = 0 then zeros ++ [item] else []) ++ rest ++
        [⟨pos.lastPrice, item.qty, t.isLong, t.isToday⟩] := by
  rw [CPosition.reopenItem, getPositions_addTrade_open _ rfl,
    getPositions_addTrade_close _ _ rfl]
  simp only [TradeInfo.bucket, Bool.not_not, PositionType.ofFlags_flags, if_true,
    Bool.false_eq_true, if_false, CPosition.closeMatch, hitems]
  rw [queue_tradeMatchPos_item _ _ _ _ hzeros rfl]
  split_ifs <;> simp

theorem exists_walkItem {t : PositionType} {zeros rest : List PositionItem} {item : PositionItem}
    {w : Walk} (hitems : w.pos.getPositions t = zeros ++ item :: rest)
    (hzeros : ∀ z ∈ zeros, z.qty = 0) (hroom : w.room ≠ 0) :
    ∃ w' zeros' new, walkItem t w (w.popped + zeros.length) = some w' ∧
      w'.pos = CPosition.reopenItem t w.pos item ∧ w'.room = w.room - 1 ∧
      w'.pos.getPositions t = zeros' ++ (rest ++ [new]) ∧ (∀ z ∈ zeros', z.qty = 0) ∧
      w'.popped + zeros'.length = w.popped + zeros.length + 1 := by
  have hplace : ¬ (w.popped + zeros.length < w.popped ∨ w.room = 0) := by omega
  have hread : (w.pos.getPositions t)[w.popped + zeros.length - w.popped]? = some item := by
    simp [hitems]
  have hreopened := getPositions_reopenItem hitems hzeros
  refine ⟨_, if item.qty = 0 then zeros ++ [item] else [], _,
    by rw [walkItem, if_neg hplace, hread, Option.map_some], rfl, rfl,
    by simpa only [List.append_assoc] using hreopened, ?_, ?_⟩
  · intro z hz
    split_ifs at hz with hzero
    · rcases List.mem_append.mp hz with hz | hz
      · exact hzeros z hz
      · rw [List.mem_singleton.mp hz, hzero]
    · cases hz
  · simp only [hreopened, hitems, List.length_append, List.length_cons, List.length_nil]
    split_ifs <;> simp only [List.length_append, List.length_cons, List.length_nil] <;> omega

/-- The items that the walk has still to visit are in the queue behind empty ones, as many as the
iterator is ahead of the items popped. -/
theorem foldlM_walkItem_iff {t : PositionType} {zeros items rest : List PositionItem} {w : Walk}
    (hitems : w.pos.getPositions t = zeros ++ (items ++ rest)) (hzeros : ∀ z ∈ zeros, z.qty = 0)
    (pos' : CPosition) :
    ((List.range' (w.popped + zeros.length) items.length).foldlM (walkItem t) w).map Walk.pos =
        some pos' ↔
      items.length ≤ w.room ∧ pos' = items.foldl (CPosition.reopenItem t) w.pos := by
  induction items generalizing zeros rest w with
  | nil => simp [eq_comm]
  | cons item items ih =>
      rw [List.length_cons, List.range'_succ, List.foldlM_cons, List.foldl_cons]
      by_cases hroom : w.room = 0
      · have hnone : walkItem t w (w.popped + zeros.length) = none := if_pos (.inr hroom)
        simp [hnone, hroom]
      · obtain ⟨w', zeros', new, hstep, hpos, hleft, hitems', hzeros', hplace⟩ :=
          exists_walkItem hitems hzeros hroom
        have hrest := ih (hitems'.trans (congrArg (zeros' ++ ·) (List.append_assoc _ _ _))) hzeros'
        rw [hplace, hpos, hleft] at hrest
        rw [hstep, Option.bind_eq_bind, Option.bind_some, hrest]
        exact and_congr_left' (by omega)

/-- The loop ends exactly when every item of the bucket can be pushed in place, and then it has
reopened the items present when it started. -/
theorem walkBucket_iff {room : ℕ} {t : PositionType} {pos pos' : CPosition} :
    walkBucket room t pos = some pos' ↔
      (pos.getPositions t).length ≤ room ∧ pos' = pos.reopenBucket t := by
  have hitems : pos.getPositions t = [] ++ (pos.getPositions t ++ []) :=
    (List.append_nil _).symm
  have hwalk := foldlM_walkItem_iff (w := ⟨pos, 0, room⟩) hitems (List.forall_mem_nil _) pos'
  rwa [List.length_nil, Nat.add_zero, ← List.range_eq_range'] at hwalk

/-! ### A position and the book -/

theorem getPositions_reopenBucket_of_ne {t t' : PositionType} (h : t' ≠ t) (pos : CPosition) :
    (pos.reopenBucket t).getPositions t' = pos.getPositions t' := by
  have hfold : ∀ (items : List PositionItem) (pos : CPosition),
      (items.foldl (CPosition.reopenItem t) pos).getPositions t' = pos.getPositions t' := by
    intro items
    induction items with
    | nil => exact fun _ => rfl
    | cons item items ih =>
        exact fun pos => (ih _).trans (getPositions_reopenItem_of_ne h pos item)
  exact hfold _ pos

def Fits (room : PositionType → ℕ) (pos : CPosition) : Prop :=
  ∀ t, (pos.getPositions t).length ≤ room t

theorem walkResetPnl_iff {room : PositionType → ℕ} {pos pos' : CPosition} :
    walkResetPnl room pos = some pos' ↔ Fits room pos ∧ pos' = pos.resetPnl := by
  simp only [walkResetPnl, Option.bind_eq_bind, Option.bind_eq_some_iff, walkBucket_iff]
  constructor
  · rintro ⟨_, ⟨h₁, rfl⟩, _, ⟨h₂, rfl⟩, _, ⟨h₃, rfl⟩, _, ⟨h₄, rfl⟩, hpos⟩
    simp only [getPositions_reopenBucket_of_ne, ne_eq, reduceCtorEq, not_false_eq_true] at h₂ h₃ h₄
    refine ⟨fun t => ?_, (Option.some.inj hpos).symm⟩
    cases t <;> assumption
  · rintro ⟨hfits, rfl⟩
    refine ⟨_, ⟨hfits _, rfl⟩, _, ⟨?_, rfl⟩, _, ⟨?_, rfl⟩, _, ⟨?_, rfl⟩, rfl⟩
    all_goals
      simp only [getPositions_reopenBucket_of_ne, ne_eq, reduceCtorEq, not_false_eq_true]
      exact hfits _

theorem foldlM_walkEntry_iff {rooms : Rooms} {l : List (ℕ × CPosition)}
    {m m' : TestPositionManager} :
    l.foldlM (walkEntry rooms) m = some m' ↔
      (∀ e ∈ l, Fits (rooms e.1) e.2) ∧
        m' = { allPositions := l.foldl (fun acc e =>
                 acc.insert e.1 (TestPositionManager.startDayPosition e.2)) m.allPositions
               cash := m.cash + (l.map fun e => e.2.getPositionPnl).sum } := by
  induction l generalizing m with
  | nil => simp [eq_comm]
  | cons e l ih =>
      simp only [List.foldlM_cons, Option.bind_eq_bind, Option.bind_eq_some_iff, walkEntry,
        Option.map_eq_some_iff, walkResetPnl_iff, ih, List.forall_mem_cons, List.foldl_cons,
        List.map_cons, List.sum_cons, ← add_assoc]
      constructor
      · rintro ⟨_, ⟨_, ⟨hfits, rfl⟩, rfl⟩, hrest, hm'⟩
        exact ⟨⟨hfits, hrest⟩, hm'⟩
      · rintro ⟨⟨hfits, hrest⟩, hm'⟩
        exact ⟨_, ⟨_, ⟨hfits, rfl⟩, rfl⟩, hrest, hm'⟩

/-- The day starts exactly when every bucket can be walked, and then as it does with loops over
the items present when they start. -/
theorem walkOnStartDay_iff {rooms : Rooms} {m m' : TestPositionManager} {date : ℕ} :
    walkOnStartDay rooms m date = some m' ↔
      (∀ inst pos, m.allPositions.find? inst = some pos → Fits (rooms inst) pos) ∧
        m' = m.onStartDay date := by
  have hpositions := m.allPositions.foldl_insert_entries fun _ pos =>
    TestPositionManager.startDayPosition pos
  rw [walkOnStartDay, foldlM_walkEntry_iff, TestPositionManager.resetPositionTodayToYst,
    hpositions]
  simp only [Prod.forall, OrderedMap.mem_entries_iff]
  rfl

theorem eq_stepBook_of_walkBook {m m' : TestPositionManager} {event : Rooms × BookEvent}
    (h : walkBook m event = some m') : m' = stepBook m event.2 := by
  obtain ⟨rooms, event⟩ := event
  cases event with
  | startDay date =>
      have hstart : walkOnStartDay rooms m date = some m' := h
      exact (walkOnStartDay_iff.mp hstart).2
  | updateOrder order => exact (Option.some.inj h).symm
  | getPosition inst => exact (Option.some.inj h).symm
  | marketData tick => exact (Option.some.inj h).symm

/-- A run whose day starts all end is the run of the book. -/
theorem eq_runBook_of_runWalks {cash : ℚ} {events : List (Rooms × BookEvent)}
    {m : TestPositionManager} (h : runWalks cash events = some m) :
    m = runBook cash (events.map Prod.snd) := by
  induction events using List.reverseRecOn generalizing m with
  | nil => exact (Option.some.inj h).symm
  | append_singleton events event ih =>
      rw [runWalks, List.foldlM_append, Option.bind_eq_bind, Option.bind_eq_some_iff] at h
      obtain ⟨m', hrun, hstep⟩ := h
      rw [List.foldlM_cons, Option.bind_eq_bind, Option.bind_eq_some_iff] at hstep
      obtain ⟨_, hstep, hlast⟩ := hstep
      obtain rfl := Option.some.inj hlast
      rw [eq_stepBook_of_walkBook hstep, ih hrun, List.map_append, runBook, runBook,
        List.foldl_append]
      rfl

end BluesTrading.PositionWalk
