import BluesTrading.BookEntries
import BluesTrading.Foundations.Projections
import BluesTrading.StrategyLimit
import BluesTrading.StrategyTiming

/-!
The instruments of a strategy do not disturb each other.  What a callback does to one of them
is computed from that instrument, from the parameters and from the entry that the book has of
it, so a run of the strategy is a run of a strategy with that instrument alone, over the
callbacks that concern it.
-/

namespace BluesTrading.LegRuns

open BluesTrading.Foundations
open BluesTrading.BookEntries
open BluesTrading.OrderData
open BluesTrading.OrderManager
open BluesTrading.PositionManager
open BluesTrading.SingleStrategy
open BluesTrading.StrategyLedger
open BluesTrading.StrategyLimit
open BluesTrading.StrategyOrders
open BluesTrading.StrategyTiming

/-! ### A tick -/

section Tick

variable (byteOrder : ByteOrder) (libm : MathLibrary) (paras : StrategyParameters)
  (data : CTickData) (now : ℕ)

/-- The same instrument before two order managers that are related. -/
def Alike (R : FakeOrderManager → FakeOrderManager → Prop) (x y : Instrument × FakeOrderManager) :
    Prop :=
  y.1 = x.1 ∧ R x.2 y.2

/-- The orders of an instrument keep order managers related. -/
def KeptByOrdersOf (inst : ℕ) (R : FakeOrderManager → FakeOrderManager → Prop) : Prop :=
  ∀ mgr mgr' (request : FutureNewOrderRequest), request.instrumentID = inst → R mgr mgr' →
    R (mgr.submitRequest byteOrder (.futureNewOrder .shfe request)).2.1
      (mgr'.submitRequest byteOrder (.futureNewOrder .shfe request)).2.1

variable {R : FakeOrderManager → FakeOrderManager → Prop} {x y : Instrument × FakeOrderManager}

theorem Alike.submit (hR : KeptByOrdersOf byteOrder data.instIndex R) (h : Alike R x y)
    (b : Branch) :
    Option.Rel (Alike R) (b.submit byteOrder paras data now x)
      (b.submit byteOrder paras data now y) := by
  obtain ⟨leg, mgr⟩ := x
  obtain ⟨_, mgr'⟩ := y
  obtain ⟨rfl, hmgr⟩ := h
  unfold Branch.submit
  split_ifs
  · exact rel_map fun size => ⟨rfl, hR _ _ _ rfl hmgr⟩
  · exact rel_map fun size => ⟨rfl, hR _ _ _ rfl hmgr⟩

theorem Alike.visitAll (hR : KeptByOrdersOf byteOrder data.instIndex R)
    (signals : Instrument → Branch → Bool) (bs : List Branch) (h : Alike R x y) :
    Option.Rel (Alike R) (visitAll byteOrder paras data now signals bs x)
      (visitAll byteOrder paras data now signals bs y) := by
  induction bs generalizing x y with
  | nil => exact .some h
  | cons b bs ih =>
      rw [StrategyOrders.visitAll, StrategyOrders.visitAll]
      refine rel_bind ?_ fun _ _ hnext => ih hnext
      rw [visit, visit, h.1]
      exact rel_ite (h.submit byteOrder paras data now hR b) (.some h)

theorem Alike.onTick (hR : KeptByOrdersOf byteOrder data.instIndex R) (h : Alike R x y) :
    Option.Rel (Alike R) (onTick byteOrder libm paras data now x)
      (onTick byteOrder libm paras data now y) := by
  rw [SingleStrategy.onTick, SingleStrategy.onTick, h.1]
  cases observe libm paras data now x.1 with
  | mk leg goesOn =>
      have hobserved : Alike R (leg, x.2) (leg, y.2) := ⟨rfl, h.2⟩
      cases goesOn with
      | false => exact .some hobserved
      | true =>
          simp only [trade_eq]
          exact hobserved.visitAll byteOrder paras data now hR _ _

def SameEntryOf (inst : ℕ) (mgr mgr' : FakeOrderManager) : Prop :=
  SameEntry inst mgr.posMgr mgr'.posMgr

theorem keptByOrdersOf_sameEntryOf (inst : ℕ) :
    KeptByOrdersOf byteOrder inst (SameEntryOf inst) := by
  rintro mgr mgr' request rfl h
  exact SameEntry.submitRequest .shfe byteOrder h

theorem sameEntry_onTick {byteOrder : ByteOrder} {libm : MathLibrary}
    {paras : StrategyParameters} {data : CTickData} {now : ℕ} {inst : ℕ}
    (hne : data.instIndex ≠ inst) (htake : onTick byteOrder libm paras data now x = some y) :
    SameEntry inst x.2.posMgr y.2.posMgr := by
  rw [SingleStrategy.onTick] at htake
  cases hobserved : observe libm paras data now x.1 with
  | mk leg goesOn =>
      rw [hobserved] at htake
      cases goesOn with
      | false =>
          obtain rfl := Option.some.inj htake
          exact .refl inst _
      | true =>
          simp only [trade_eq] at htake
          refine visitAll_invariant (I := fun z => SameEntry inst x.2.posMgr z.2.posMgr)
            ?_ htake (.refl inst _)
          intro b state state' _ hsubmit hentry
          unfold Branch.submit at hsubmit
          split_ifs at hsubmit
          · obtain ⟨size, -, rfl⟩ := Option.map_eq_some_iff.mp hsubmit
            exact hentry.submitRequest_right byteOrder fun heq => hne (Option.some.inj heq)
          · obtain ⟨size, -, rfl⟩ := Option.map_eq_some_iff.mp hsubmit
            exact hentry.submitRequest_right byteOrder fun heq => hne (Option.some.inj heq)

theorem exists_of_onMarketData {byteOrder : ByteOrder} {libm : MathLibrary} {s s' : State}
    {data : CTickData} {now : ℕ} (htake : s.onMarketData byteOrder libm data now = some s') :
    ∃ leg leg', tickLeg s data.instIndex = some leg ∧
      onTick byteOrder libm s.globalParas data now (leg, s.orderManager) =
        some (leg', s'.orderManager) ∧
      s'.globalParas = s.globalParas ∧
      s'.pInstruments.map (·.instIndex) = s.pInstruments.map (·.instIndex) ∧
      ∀ inst, tickLeg s' inst = if inst = data.instIndex then some leg' else tickLeg s inst := by
  obtain ⟨i, hi, hrest⟩ := Option.bind_eq_some_iff.mp htake
  obtain ⟨leg, hleg, hlast⟩ := Option.bind_eq_some_iff.mp hrest
  obtain ⟨⟨leg', mgr⟩, htick, rfl⟩ := Option.map_eq_some_iff.mp hlast
  have hindex : leg'.instIndex = leg.instIndex := by
    rw [onTick_eq] at htick
    exact (instIndex_invariant byteOrder libm s.globalParas leg.instIndex).onTickBy htick rfl
  refine ⟨leg, leg', Option.bind_eq_some_iff.mpr ⟨i, hi, hleg⟩, htick, rfl,
    map_instIndex_set hleg hindex, fun inst => ?_⟩
  rw [tickLeg_eq_find?, find?_set_leg hi hleg hindex, tickLeg_eq_find?]

theorem exists_onMarketData {byteOrder : ByteOrder} {libm : MathLibrary} {s : State}
    {data : CTickData} {now : ℕ} {leg : Instrument} (hleg : tickLeg s data.instIndex = some leg)
    {z : Instrument × FakeOrderManager}
    (htick : onTick byteOrder libm s.globalParas data now (leg, s.orderManager) = some z) :
    ∃ s', s.onMarketData byteOrder libm data now = some s' := by
  obtain ⟨i, hi, hplace⟩ := Option.bind_eq_some_iff.mp hleg
  rw [State.onMarketData, hi, Option.bind_some, hplace, Option.bind_some, htick]
  exact ⟨_, rfl⟩

end Tick

/-! ### One instrument -/

/-- The callbacks that an instrument has a part in. -/
def concerns (inst : ℕ) : Action → Bool
  | .marketData data _ => data.instIndex = inst
  | .marketDataBook data => data.instIndex = inst
  | .otherRequest _ => false
  | _ => true

/-- The parameters apart from `total_pos_`, in which the positions of all instruments meet and
which nothing reads. -/
def apart (paras : StrategyParameters) : StrategyParameters := { paras with totalPos := 0 }

section Apart

variable {paras paras' : StrategyParameters} (h : apart paras' = apart paras)

theorem congr_of_apart {α : Type} {f : StrategyParameters → α}
    (hf : ∀ paras, f (apart paras) = f paras) (h : apart paras' = apart paras) :
    f paras' = f paras := by
  rw [← hf, h, hf]

include h

theorem onTick_congr (byteOrder : ByteOrder) (libm : MathLibrary) (data : CTickData) (now : ℕ) :
    onTick byteOrder libm paras' data now = onTick byteOrder libm paras data now :=
  congr_of_apart (f := (onTick byteOrder libm · data now)) (fun _ => rfl) h

theorem initInstrument_congr (leg : Instrument) :
    leg.initInstrument paras' = leg.initInstrument paras :=
  congr_of_apart (f := leg.initInstrument) (fun _ => rfl) h

theorem updatePrices_congr (libm : MathLibrary) (leg : Instrument) :
    updatePrices libm paras' leg = updatePrices libm paras leg :=
  congr_of_apart (f := (updatePrices libm · leg)) (fun _ => rfl) h

theorem updateVolatility_congr (leg : Instrument) :
    updateVolatility paras' leg = updateVolatility paras leg :=
  congr_of_apart (f := (updateVolatility · leg)) (fun _ => rfl) h

theorem counter_congr : paras'.counter = paras.counter :=
  congr_of_apart (f := StrategyParameters.counter) (fun _ => rfl) h

end Apart

/-- The second strategy has one of the instruments of the first and nothing else. -/
structure Alone (inst : ℕ) (s t : State) : Prop where
  globalParas : apart t.globalParas = apart s.globalParas
  leg : ∃ leg, tickLeg s inst = some leg ∧ t.pInstruments = [leg]
  entry : SameEntry inst s.orderManager.posMgr t.orderManager.posMgr

theorem instIndex_of_tickLeg {s : State} {inst : ℕ} {leg : Instrument}
    (h : tickLeg s inst = some leg) : leg ∈ s.pInstruments ∧ leg.instIndex = inst := by
  rw [tickLeg_eq_find?] at h
  have hindex := List.find?_some h
  exact ⟨List.mem_of_find?_eq_some h, of_decide_eq_true hindex⟩

theorem alone_single {s : State} {inst : ℕ} {leg : Instrument}
    (hleg : tickLeg s inst = some leg) {mgr : FakeOrderManager}
    (hentry : SameEntry inst s.orderManager.posMgr mgr.posMgr) :
    Alone inst s ⟨s.globalParas, [leg], mgr⟩ :=
  ⟨rfl, ⟨leg, hleg, rfl⟩, hentry⟩

theorem Alone.tickLeg_eq {s t : State} {inst : ℕ} (h : Alone inst s t) :
    tickLeg t inst = tickLeg s inst := by
  obtain ⟨leg, hleg, hlegs⟩ := h.leg
  rw [hleg, tickLeg_eq_find?, hlegs, List.find?_cons_of_pos]
  exact decide_eq_true (instIndex_of_tickLeg hleg).2

theorem Alone.map {s t s' t' : State} {inst : ℕ} (h : Alone inst s t) {f : Instrument → Instrument}
    (hf : ∀ leg, (f leg).instIndex = leg.instIndex)
    (hs : s'.pInstruments = s.pInstruments.map f) (ht : t'.pInstruments = t.pInstruments.map f)
    (hparas : apart t'.globalParas = apart s'.globalParas)
    (hentry : SameEntry inst s'.orderManager.posMgr t'.orderManager.posMgr) : Alone inst s' t' := by
  obtain ⟨leg, hleg, hlegs⟩ := h.leg
  refine ⟨hparas, ⟨f leg, ?_, ?_⟩, hentry⟩
  · rw [tickLeg_eq_find?, hs, find?_map_leg hf, ← tickLeg_eq_find?, hleg]
    rfl
  · rw [ht, hlegs]
    rfl

theorem Alone.book {s t s' t' : State} {inst : ℕ} (h : Alone inst s t)
    (hs : s'.globalParas = s.globalParas ∧ s'.pInstruments = s.pInstruments)
    (ht : t'.globalParas = t.globalParas ∧ t'.pInstruments = t.pInstruments)
    (hentry : SameEntry inst s'.orderManager.posMgr t'.orderManager.posMgr) : Alone inst s' t' :=
  h.map (f := id) (fun _ => rfl) (hs.2.trans (List.map_id _).symm)
    (ht.2.trans (List.map_id _).symm) (by rw [ht.1, hs.1, h.globalParas]) hentry

theorem find?_lookUps (legs : List Instrument) (m : TestPositionManager) (inst : ℕ) :
    (legs.foldl (fun m leg => (m.getPosition leg.instIndex).2) m).allPositions.find? inst =
      if inst ∈ legs.map (·.instIndex) then some (m.getPosition inst).1
      else m.allPositions.find? inst := by
  induction legs generalizing m with
  | nil => rfl
  | cons leg legs ih =>
      rw [List.foldl_cons, ih, TestPositionManager.getPosition_getPosition,
        TestPositionManager.find?_getPosition, List.map_cons]
      by_cases hsame : inst = leg.instIndex
      · simp [hsame]
      · simp [hsame]

/-- The sum differs, as the other instruments are not there. -/
theorem apart_updateMA {s t : State} (libm : MathLibrary)
    (h : apart t.globalParas = apart s.globalParas) :
    apart (t.updateMA libm).globalParas = apart (s.updateMA libm).globalParas := by
  have hupdate : ∀ s : State, apart (s.updateMA libm).globalParas =
      { apart s.globalParas with counter :=
          if s.globalParas.counter > 100 then 0 else s.globalParas.counter + 1 } := by
    intro s
    unfold State.updateMA
    dsimp only
    split_ifs <;> rfl
  rw [hupdate, hupdate, h, counter_congr h]

theorem Alone.onTimer {s t : State} {inst : ℕ} (libm : MathLibrary) (h : Alone inst s t)
    (eventID : ℕ) : Alone inst (s.onTimer libm eventID) (t.onTimer libm eventID) := by
  unfold State.onTimer
  split_ifs
  · refine h.map (fun leg => ?_) (s.pInstruments_updateMA libm) ?_
      (apart_updateMA libm h.globalParas) h.entry
    · refine standing_instIndex ?_
      split_ifs <;> simp
    · simp only [State.pInstruments_updateMA, updateVolatility_congr h.globalParas,
        updatePrices_congr h.globalParas, counter_congr h.globalParas]
  · exact h

theorem Alone.onMarketData {s t s' : State} {byteOrder : ByteOrder} {libm : MathLibrary}
    {data : CTickData} {now : ℕ} (self : ℕ) (h : Alone data.instIndex s t)
    (htake : s.onMarketData byteOrder libm data now = some s') :
    ∃ t', step byteOrder libm self t (.marketData data now) = some t' ∧
      Alone data.instIndex s' t' := by
  obtain ⟨leg, leg', hleg, htick, hparas, -, hfound⟩ := exists_of_onMarketData htake
  obtain ⟨only, honly, hlegs⟩ := h.leg
  obtain rfl := Option.some.inj (hleg.symm.trans honly)
  have hindex := (instIndex_of_tickLeg hleg).2
  have hrel := Alike.onTick (x := (leg, s.orderManager)) (y := (leg, t.orderManager))
    byteOrder libm s.globalParas data now (keptByOrdersOf_sameEntryOf byteOrder _) ⟨rfl, h.entry⟩
  rw [htick] at hrel
  cases htick' : onTick byteOrder libm s.globalParas data now (leg, t.orderManager) with
  | none =>
      rw [htick'] at hrel
      cases hrel
  | some z =>
      rw [htick'] at hrel
      cases hrel with
      | some halike =>
          obtain ⟨z, mgr⟩ := z
          obtain ⟨rfl, hentry⟩ := halike
          rw [← onTick_congr h.globalParas] at htick'
          refine ⟨_, step_single hlegs hindex htick', ?_⟩
          exact ⟨h.globalParas.trans (congrArg apart hparas.symm),
            ⟨z, by rw [hfound, if_pos rfl], rfl⟩, hentry⟩

section Projection

variable (byteOrder : ByteOrder) (libm : MathLibrary) (self inst : ℕ)

/-- A callback that concerns the instrument does the same to it in both strategies. -/
theorem Alone.seen {s t s' : State} {a : Action} (h : Alone inst s t)
    (hsees : concerns inst a = true) (htake : step byteOrder libm self s a = some s') :
    ∃ t', step byteOrder libm self t a = some t' ∧ Alone inst s' t' := by
  cases a with
  | startDay =>
      obtain rfl := Option.some.inj htake
      refine ⟨_, rfl, h.map (f := (·.initInstrument s.globalParas)) (fun leg => ?_) rfl ?_
        h.globalParas h.entry⟩
      · exact (instIndex_invariant byteOrder libm s.globalParas leg.instIndex).init leg rfl
      · simp only [State.onStartDay, initInstrument_congr h.globalParas]
  | startDayOrders date =>
      obtain rfl := Option.some.inj htake
      exact ⟨_, rfl, h.book ⟨rfl, rfl⟩ ⟨rfl, rfl⟩ h.entry⟩
  | startDayBook date =>
      obtain rfl := Option.some.inj htake
      exact ⟨_, rfl, h.book ⟨rfl, rfl⟩ ⟨rfl, rfl⟩ (h.entry.onStartDay date)⟩
  | marketData data now =>
      obtain rfl : data.instIndex = inst := of_decide_eq_true hsees
      exact h.onMarketData self htake
  | marketDataBook data =>
      obtain rfl := Option.some.inj htake
      exact ⟨_, rfl, h.book ⟨rfl, rfl⟩ ⟨rfl, rfl⟩ (h.entry.onMarketData data)⟩
  | timer eventID =>
      obtain rfl := Option.some.inj htake
      exact ⟨_, rfl, h.onTimer libm eventID⟩
  | endDay =>
      obtain rfl := Option.some.inj htake
      refine ⟨_, rfl, h.book ⟨rfl, rfl⟩ ⟨rfl, rfl⟩ ?_⟩
      obtain ⟨leg, hleg, hlegs⟩ := h.leg
      obtain ⟨hmem, hindex⟩ := instIndex_of_tickLeg hleg
      have hown : inst ∈ s.pInstruments.map (·.instIndex) :=
        List.mem_map.mpr ⟨leg, hmem, hindex⟩
      rw [SameEntry]
      simp only [State.onEndDay, find?_lookUps]
      rw [if_pos hown, hlegs, if_pos (by simp [hindex]), h.entry.getPosition]
  | otherRequest request => cases hsees

theorem Alone.unseen {s t s' : State} {a : Action} (h : Alone inst s t)
    (hsees : concerns inst a = false) (htake : step byteOrder libm self s a = some s') :
    Alone inst s' t := by
  obtain ⟨leg, hleg, hlegs⟩ := h.leg
  cases a with
  | marketData data now =>
      have hne : data.instIndex ≠ inst := of_decide_eq_false hsees
      obtain ⟨other, other', -, htick, hparas, -, hfound⟩ := exists_of_onMarketData htake
      refine ⟨h.globalParas.trans (congrArg apart hparas.symm), ⟨leg, ?_, hlegs⟩,
        (sameEntry_onTick hne htick).symm.trans h.entry⟩
      rw [hfound, if_neg hne.symm, hleg]
  | marketDataBook data =>
      have hne : data.instIndex ≠ inst := of_decide_eq_false hsees
      obtain rfl := Option.some.inj htake
      exact ⟨h.globalParas, ⟨leg, hleg, hlegs⟩, (h.entry.symm.onMarketData_right hne.symm).symm⟩
  | otherRequest request =>
      obtain ⟨hother, rfl⟩ := step_otherRequest htake
      obtain ⟨hmem, hindex⟩ := instIndex_of_tickLeg hleg
      have hne : requestInstrument request ≠ some inst := hindex ▸ hother leg hmem
      exact ⟨h.globalParas, ⟨leg, hleg, hlegs⟩,
        (h.entry.symm.submitRequest_right byteOrder hne).symm⟩
  | _ => cases hsees

theorem alone_projects : Projects (step byteOrder libm self) (fun _ _ => True)
    (step byteOrder libm self) (fun _ _ => True) (concerns inst) (Alone inst) where
  seen hlink hsees _ htake := by
    obtain ⟨t', htake', hlink'⟩ := hlink.seen byteOrder libm self inst hsees htake
    exact ⟨t', trivial, htake', hlink'⟩
  unseen hlink hsees _ htake := hlink.unseen byteOrder libm self inst hsees htake

end Projection

/-! ### All the instruments -/

/-- What a callback must be like to be taken at all: a tick is of an instrument of the strategy,
and the requests of somebody else are not. -/
def Addressed (indexes : List ℕ) : Action → Prop
  | .marketData data _ => data.instIndex ∈ indexes
  | .otherRequest request => ∀ inst ∈ indexes, requestInstrument request ≠ some inst
  | _ => True

theorem exists_tickLeg_iff (s : State) (inst : ℕ) :
    (∃ leg, tickLeg s inst = some leg) ↔ inst ∈ s.pInstruments.map (·.instIndex) := by
  rw [tickLeg_eq_find?, ← Option.isSome_iff_exists, List.find?_isSome]
  simp

section Composition

variable (byteOrder : ByteOrder) (libm : MathLibrary) (self : ℕ)

theorem indexes_step {s s' : State} {a : Action} (htake : step byteOrder libm self s a = some s') :
    s'.pInstruments.map (·.instIndex) = s.pInstruments.map (·.instIndex) := by
  have hmap : ∀ {f : Instrument → Instrument}, (∀ leg, (f leg).instIndex = leg.instIndex) →
      (s.pInstruments.map f).map (·.instIndex) = s.pInstruments.map (·.instIndex) := by
    intro f hf
    rw [List.map_map]
    exact List.map_congr_left fun leg _ => hf leg
  cases a with
  | startDay =>
      obtain rfl := Option.some.inj htake
      exact hmap fun leg =>
        (instIndex_invariant byteOrder libm s.globalParas leg.instIndex).init leg rfl
  | marketData data now =>
      obtain ⟨_, _, -, -, -, hindexes, -⟩ := exists_of_onMarketData htake
      exact hindexes
  | timer eventID =>
      obtain rfl := Option.some.inj htake
      unfold State.onTimer
      split_ifs
      · rw [State.pInstruments_updateMA]
        refine hmap fun leg => standing_instIndex ?_
        split_ifs <;> simp
      · rfl
  | otherRequest request =>
      obtain ⟨-, rfl⟩ := step_otherRequest htake
      rfl
  | _ =>
      obtain rfl := Option.some.inj htake
      rfl

/-- The strategy is made of its instruments: it takes what is addressed to it and what the
instruments that are concerned can take. -/
theorem alone_composes (indexes : List ℕ) :
    Composes (ι := { inst // inst ∈ indexes }) (step byteOrder libm self) (fun _ _ => True)
      (fun _ => step byteOrder libm self) (fun _ _ _ => True) (fun inst => concerns inst.1)
      (fun inst => Alone inst.1) (fun s => s.pInstruments.map (·.instIndex) = indexes)
      (Addressed indexes) where
  projects inst := alone_projects byteOrder libm self inst.1
  keeps hindexes _ htake := (indexes_step byteOrder libm self htake).trans hindexes
  valid {s a s'} hindexes _ htake := by
    cases a with
    | marketData data now =>
        obtain ⟨leg, _, hleg, -⟩ := exists_of_onMarketData htake
        rw [Addressed, ← hindexes, ← exists_tickLeg_iff]
        exact ⟨leg, hleg⟩
    | otherRequest request =>
        obtain ⟨hother, -⟩ := step_otherRequest htake
        rw [Addressed, ← hindexes]
        exact List.forall_mem_map.mpr hother
    | _ => trivial
  takes {s a t} hindexes haddressed hlinks htakes := by
    refine ⟨trivial, ?_⟩
    cases a with
    | marketData data now =>
        have hlink := hlinks ⟨data.instIndex, haddressed⟩
        obtain ⟨t', -, htake⟩ := htakes ⟨data.instIndex, haddressed⟩ (decide_eq_true rfl)
        obtain ⟨leg, leg', hleg, htick, -⟩ := exists_of_onMarketData htake
        rw [hlink.tickLeg_eq] at hleg
        have hrel := Alike.onTick (x := (leg, s.orderManager))
          (y := (leg, (t ⟨data.instIndex, haddressed⟩).orderManager)) byteOrder libm
          s.globalParas data now (keptByOrdersOf_sameEntryOf byteOrder _) ⟨rfl, hlink.entry⟩
        rw [← onTick_congr hlink.globalParas, htick] at hrel
        cases htick' : onTick byteOrder libm s.globalParas data now (leg, s.orderManager) with
        | none =>
            rw [onTick_congr hlink.globalParas, htick'] at hrel
            cases hrel
        | some z => exact exists_onMarketData hleg htick'
    | otherRequest request =>
        refine ⟨_, if_neg ?_⟩
        rintro ⟨leg, hleg, heq⟩
        exact haddressed leg.instIndex (hindexes ▸ List.mem_map.mpr ⟨leg, hleg, rfl⟩) heq
    | _ => exact ⟨_, rfl⟩

variable {byteOrder libm self}

/-- Each instrument fares as it would in a strategy of its own, over the callbacks that
concern it: so do the instrument, the parameters and the entry of the book. -/
theorem leg_alone_of_run {s s' : State} {actions : List Action}
    (hrun : Run (step byteOrder libm self) (fun _ _ => True) s actions s') {inst : ℕ}
    {leg : Instrument} (hleg : tickLeg s inst = some leg) {mgr : FakeOrderManager}
    (hentry : SameEntry inst s.orderManager.posMgr mgr.posMgr) :
    ∃ t', Run (step byteOrder libm self) (fun _ _ => True) ⟨s.globalParas, [leg], mgr⟩
        (actions.filter (concerns inst)) t' ∧
      Alone inst s' t' :=
  (alone_projects byteOrder libm self inst).run hrun (alone_single hleg hentry)

def pair : State :=
  .configured (dayParas true) [(['a'], oneLot), (['c', 'u'], oneLot)] (newManager 0)

def copperTick (bid : ℚ) : CTickData := { quoteTick bid with instIndex := 5240000 }

def pairDay : List Action :=
  [.startDay, .startDayBook 20150105, .marketData (quoteTick 100) 36000000,
    .marketData (copperTick 50000) 36000000, .marketDataBook (copperTick 50000), .timer 2,
    .marketData (copperTick 50100) 36000500, .marketData (quoteTick 101) 36000500,
    .marketDataBook (quoteTick 101), .endDay]

theorem leg_alone_of_run_pair :
    ∃ s' t', Run (step .littleEndian exactMath 0) (fun _ _ => True)
        ⟨pair.globalParas, pair.pInstruments.take 1, newManager 0⟩
        (pairDay.filter (concerns 10200000)) t' ∧
      Alone 10200000 s' t' ∧ sideTotal s'.orderManager.posMgr 10200000 false = 1 := by
  have hexecute : ((Run.execute (step .littleEndian exactMath 0) (fun _ _ => True) pair
      pairDay).map fun s => sideTotal s.orderManager.posMgr 10200000 false) = some 1 := by
    decide +kernel
  obtain ⟨s', hrun, hheld⟩ := Run.exists_of_execute_map hexecute
  obtain ⟨t', hpart, halone⟩ := leg_alone_of_run hrun (rfl : tickLeg pair 10200000 = _)
    (.refl 10200000 _)
  exact ⟨s', t', hpart, halone, hheld⟩

/-- A strategy has a run over some callbacks if and only if they are addressed to it and each of
its instruments alone has a run over those that concern it. -/
theorem exists_run_iff_legs (s : State) (mgr : ℕ → FakeOrderManager)
    (hentry : ∀ inst, SameEntry inst s.orderManager.posMgr (mgr inst).posMgr)
    (actions : List Action) :
    (∃ s', Run (step byteOrder libm self) (fun _ _ => True) s actions s') ↔
      (∀ a ∈ actions, Addressed (s.pInstruments.map (·.instIndex)) a) ∧
        ∀ inst leg, tickLeg s inst = some leg →
          ∃ t', Run (step byteOrder libm self) (fun _ _ => True)
            ⟨s.globalParas, [leg], mgr inst⟩ (actions.filter (concerns inst)) t' := by
  have hfound : ∀ inst : { inst // inst ∈ s.pInstruments.map (·.instIndex) },
      ∃ leg, tickLeg s inst.1 = some leg := fun inst => (exists_tickLeg_iff s inst.1).mpr inst.2
  choose legs hlegs using hfound
  rw [(alone_composes byteOrder libm self _).exists_run_iff rfl
    fun inst => alone_single (hlegs inst) (hentry inst.1)]
  refine and_congr_right fun _ => ?_
  constructor
  · intro hruns inst leg hleg
    have hmem := (exists_tickLeg_iff s inst).mp ⟨leg, hleg⟩
    obtain rfl := Option.some.inj ((hlegs ⟨inst, hmem⟩).symm.trans hleg)
    exact hruns ⟨inst, hmem⟩
  · exact fun hruns inst => hruns inst.1 (legs inst) (hlegs inst)

theorem exists_run_pair :
    ∃ s', Run (step .littleEndian exactMath 0) (fun _ _ => True) pair pairDay s' := by
  refine Run.exists_of_execute ?_
  decide +kernel

theorem exists_run_iff_legs_pair :
    ∃ t', Run (step .littleEndian exactMath 0) (fun _ _ => True)
      ⟨pair.globalParas, pair.pInstruments.drop 1, newManager 0⟩
      (pairDay.filter (concerns 5240000)) t' :=
  ((exists_run_iff_legs pair (fun _ => newManager 0) (fun inst => .refl inst _) pairDay).mp
    exists_run_pair).2 5240000 _ rfl

/-- The order of the callbacks matters within each instrument only.  Callbacks in another order
in which every instrument sees the same can be taken as well, and leave every instrument and its
entry in the book as they were left before. -/
theorem run_of_rearranged {s s₁ : State} {actions₁ actions₂ : List Action}
    (hrun : Run (step byteOrder libm self) (fun _ _ => True) s actions₁ s₁)
    (hsubset : actions₂ ⊆ actions₁)
    (hsame : ∀ inst ∈ s.pInstruments.map (·.instIndex),
      actions₂.filter (concerns inst) = actions₁.filter (concerns inst)) :
    ∃ s₂, Run (step byteOrder libm self) (fun _ _ => True) s actions₂ s₂ ∧
      ∀ inst ∈ s.pInstruments.map (·.instIndex), tickLeg s₂ inst = tickLeg s₁ inst ∧
        SameEntry inst s₁.orderManager.posMgr s₂.orderManager.posMgr := by
  have hfound : ∀ inst : { inst // inst ∈ s.pInstruments.map (·.instIndex) },
      ∃ leg, tickLeg s inst.1 = some leg := fun inst => (exists_tickLeg_iff s inst.1).mpr inst.2
  choose legs hlegs using hfound
  have hcomposes := alone_composes byteOrder libm self (s.pInstruments.map (·.instIndex))
  have halone : ∀ inst, Alone inst.1 s ⟨s.globalParas, [legs inst], s.orderManager⟩ :=
    fun inst => alone_single (hlegs inst) (.refl inst.1 _)
  obtain ⟨hvalid, -⟩ := (hcomposes.exists_run_iff rfl halone actions₁).mp ⟨s₁, hrun⟩
  obtain ⟨s₂, hrun₂, hlinked⟩ := hcomposes.exists_run_of_rearranged rfl halone hrun
    (fun a ha => hvalid a (hsubset ha)) fun inst => hsame inst.1 inst.2
  refine ⟨s₂, hrun₂, fun inst hinst => ?_⟩
  obtain ⟨t, halone₁, halone₂⟩ := hlinked ⟨inst, hinst⟩
  exact ⟨halone₂.tickLeg_eq.symm.trans halone₁.tickLeg_eq, halone₁.entry.trans halone₂.entry.symm⟩

def pairDaySwapped : List Action :=
  [.startDay, .startDayBook 20150105, .marketData (copperTick 50000) 36000000,
    .marketDataBook (copperTick 50000), .marketData (quoteTick 100) 36000000, .timer 2,
    .marketData (quoteTick 101) 36000500, .marketDataBook (quoteTick 101),
    .marketData (copperTick 50100) 36000500, .endDay]

theorem run_of_rearranged_pair :
    ∃ s₁ s₂, Run (step .littleEndian exactMath 0) (fun _ _ => True) pair pairDay s₁ ∧
      Run (step .littleEndian exactMath 0) (fun _ _ => True) pair pairDaySwapped s₂ ∧
      tickLeg s₂ 10200000 = tickLeg s₁ 10200000 := by
  obtain ⟨s₁, hrun⟩ := exists_run_pair
  have hsubset : pairDaySwapped ⊆ pairDay := by
    simp [pairDaySwapped, pairDay]
  have hsame : ∀ inst ∈ pair.pInstruments.map (·.instIndex),
      pairDaySwapped.filter (concerns inst) = pairDay.filter (concerns inst) := by
    have hindexes : pair.pInstruments.map (·.instIndex) = [10200000, 5240000] := by decide +kernel
    rw [hindexes]
    exact List.forall_mem_cons.mpr ⟨rfl, List.forall_mem_singleton.mpr rfl⟩
  obtain ⟨s₂, hrun₂, hlegs⟩ := run_of_rearranged hrun hsubset hsame
  exact ⟨s₁, s₂, hrun, hrun₂, (hlegs 10200000 (by decide +kernel)).1⟩

end Composition

end BluesTrading.LegRuns
