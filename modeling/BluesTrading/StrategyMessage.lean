import BluesTrading.ConfigChoice
import BluesTrading.Foundations.Projections
import BluesTrading.LegProperties
import BluesTrading.TickCsv

/-!
The message that configures a strategy.  Each property sets a parameter, makes the instruments or
sets one value of theirs, so what the message leaves is told by parameters and values one by one.
The order of the properties does not matter, as long as the instruments are made before their
values are set, and a message made from a configuration has them in such an order.
-/

namespace BluesTrading.StrategyMessage

open BluesTrading.ConfigChoice
open BluesTrading.ConfigSpace
open BluesTrading.Foundations
open BluesTrading.LegProperties
open BluesTrading.OrderManager
open BluesTrading.RequestDispatch
open BluesTrading.SingleStrategy
open BluesTrading.SourceText
open BluesTrading.TickCsv

/-! ### The parameters -/

/-- `boost::lexical_cast` to the types of the properties, none where it throws. -/
structure LexicalCasts where
  toDouble : Str → Option ℚ
  toBool : Str → Option Bool

inductive ParaType
  | time
  | double
  | int
  | bool

namespace ParaType

abbrev Value : ParaType → Type
  | time => ℕ
  | double => ℚ
  | int => ℤ
  | bool => Bool

end ParaType

inductive MessageError
  | leg (error : LegError)
  | badLexicalCast
  /-- A field of a time is read that the text does not have. -/
  | noField
  /-- `pInstruments_` has not been set. -/
  | noInstruments

def readPara (casts : LexicalCasts) (value : Str) :
    (type : ParaType) → Except MessageError type.Value
  | .time => (getTime value).elim (.error .noField) .ok
  | .double => (casts.toDouble value).elim (.error .badLexicalCast) .ok
  | .int => (lexicalCastInt value).elim (.error .badLexicalCast) .ok
  | .bool => (casts.toBool value).elim (.error .badLexicalCast) .ok

/-- The members of `strategyParameters`, in the order in which `onMessage` asks for them. -/
inductive GlobalPara
  | oppStartTime
  | openingTime
  | exitTime
  | liquidateTime
  | peeTime1
  | peeTimeEnd1
  | peeTime2
  | peeTimeEnd2
  | maWeight
  | volMAWeight
  | updateMAInterval
  | capRatio
  | isCheckingSizeBeforeTrade
  | isOverNight
  | isMaOvernight
  | isEquity
  | isOneSide
  | isZeroOppExit
  | isStopBp
  | isUsingSizeContrast
  | isOppBeforeDoenter
  | totalPos
  | counter
  | isVolAdj
  | vol
  | volSum
  | volMA
  | allInstrumentsActive
  | thresholdSelf
  | thresholdSelfExit
  | stopBp
  | backThreshold
  | tradingIntervalInMSec
  | isCapControl
  deriving DecidableEq

namespace GlobalPara

def type : GlobalPara → ParaType
  | oppStartTime | openingTime | exitTime | liquidateTime | peeTime1 | peeTimeEnd1 | peeTime2
  | peeTimeEnd2 => .time
  | maWeight | volMAWeight | updateMAInterval | capRatio | totalPos | vol | volSum | volMA
  | stopBp => .double
  | counter | thresholdSelf | thresholdSelfExit | backThreshold | tradingIntervalInMSec => .int
  | isCheckingSizeBeforeTrade | isOverNight | isMaOvernight | isEquity | isOneSide | isZeroOppExit
  | isStopBp | isUsingSizeContrast | isOppBeforeDoenter | isVolAdj | allInstrumentsActive
  | isCapControl => .bool

def propName : GlobalPara → Str
  | oppStartTime => "OppStartTime".toList
  | openingTime => "OpeningTime".toList
  | exitTime => "ExitTime".toList
  | liquidateTime => "LiquidateTime".toList
  | peeTime1 => "PeeTime1".toList
  | peeTimeEnd1 => "PeeTimeEnd1".toList
  | peeTime2 => "PeeTime2".toList
  | peeTimeEnd2 => "PeeTimeEnd2".toList
  | maWeight => "MAWeight".toList
  | volMAWeight => "VolMAWeight".toList
  | updateMAInterval => "UpdateMAInterval".toList
  | capRatio => "CapRatio".toList
  | isCheckingSizeBeforeTrade => "IsCheckingSizeBeforeTrade".toList
  | isOverNight => "IsOverNight".toList
  | isMaOvernight => "IsMAOverNight".toList
  | isEquity => "IsEquity".toList
  | isOneSide => "IsOneSide".toList
  | isZeroOppExit => "IsZeroOppExit".toList
  | isStopBp => "IsStopBp".toList
  | isUsingSizeContrast => "IsUsingSizeContrast".toList
  | isOppBeforeDoenter => "IsOppBeforeDoEnter".toList
  | totalPos => "TotalPos".toList
  | counter => "Counter".toList
  | isVolAdj => "IsVolAdj".toList
  | vol => "Vol".toList
  | volSum => "VolSum".toList
  | volMA => "VolMA".toList
  | allInstrumentsActive => "AllInstrumentActive".toList
  | thresholdSelf => "ThresholdSelf".toList
  | thresholdSelfExit => "ThresholdSelfExit".toList
  | stopBp => "StopBp".toList
  | backThreshold => "BackThreshold".toList
  | tradingIntervalInMSec => "TradingIntervalInMsec".toList
  | isCapControl => "IsCapControl".toList

def all : List GlobalPara :=
  [oppStartTime, openingTime, exitTime, liquidateTime, peeTime1, peeTimeEnd1, peeTime2,
    peeTimeEnd2, maWeight, volMAWeight, updateMAInterval, capRatio, isCheckingSizeBeforeTrade,
    isOverNight, isMaOvernight, isEquity, isOneSide, isZeroOppExit, isStopBp, isUsingSizeContrast,
    isOppBeforeDoenter, totalPos, counter, isVolAdj, vol, volSum, volMA, allInstrumentsActive,
    thresholdSelf, thresholdSelfExit, stopBp, backThreshold, tradingIntervalInMSec, isCapControl]

theorem mem_all (p : GlobalPara) : p ∈ all := by
  cases p <;> decide

theorem nodup_names : (all.map propName).Nodup := by
  decide +kernel

end GlobalPara

/-- The values of the parameters, as they are in memory. -/
abbrev Globals : Type := ∀ p : GlobalPara, p.type.Value

def paras (globals : Globals) : StrategyParameters where
  oppStartTime := globals .oppStartTime
  openingTime := globals .openingTime
  exitTime := globals .exitTime
  liquidateTime := globals .liquidateTime
  peeTime1 := globals .peeTime1
  peeTimeEnd1 := globals .peeTimeEnd1
  peeTime2 := globals .peeTime2
  peeTimeEnd2 := globals .peeTimeEnd2
  maWeight := globals .maWeight
  volMAWeight := globals .volMAWeight
  isCheckingSizeBeforeTrade := globals .isCheckingSizeBeforeTrade
  isOverNight := globals .isOverNight
  isMaOvernight := globals .isMaOvernight
  isEquity := globals .isEquity
  isUsingSizeContrast := globals .isUsingSizeContrast
  totalPos := globals .totalPos
  counter := globals .counter
  thresholdSelf := globals .thresholdSelf
  tradingIntervalInMSec := globals .tradingIntervalInMSec

/-! ### The message -/

/-- What messages set; the constructor sets neither the parameters nor the instruments. -/
structure Configured where
  globalParas : Globals
  pInstruments : Option (List NamedInstrument)

def unset (memory : Globals) : Configured := ⟨memory, none⟩

def addInstrumentName : Str := "ADDInstrument".toList

/-- The loop body of `onMessage`.  A name that is not known is reported and nothing is set. -/
def onProp (casts : LexicalCasts) (c : Configured) (prop : Str × Str) :
    Except MessageError Configured :=
  let (propName, propValue) := prop
  match GlobalPara.all.find? fun p => p.propName = propName with
  | some p => (readPara casts propValue p.type).map fun x =>
      { c with globalParas := Function.update c.globalParas p x }
  | none =>
      if propName = addInstrumentName then
        match addInstruments (propValue.splitOn '#') with
        | .ok instruments => .ok { c with pInstruments := some instruments }
        | .error error => .error (.leg error)
      else
        match LegProperty.all.find? fun property => property.propName = propName with
        | some property =>
            match c.pInstruments with
            | some instruments =>
                match setLegValue casts.toDouble property.member instruments propValue with
                | .ok instruments => .ok { c with pInstruments := some instruments }
                | .error error => .error (.leg error)
            | none => .error .noInstruments
        | none => .ok c

def onMessage (casts : LexicalCasts) (c : Configured) (msg : StrategyConfig) :
    Except MessageError Configured :=
  msg.props.foldlM (onProp casts) c

/-! ### The names of the properties -/

deriving instance DecidableEq for LegProperty

theorem mem_all (property : LegProperty) : property ∈ LegProperty.all := by
  cases property <;> decide

theorem nodup_legNames : (LegProperty.all.map LegProperty.propName).Nodup := by
  decide +kernel

theorem propName_ne_addInstrumentName (p : GlobalPara) : p.propName ≠ addInstrumentName := by
  have hall : ∀ p ∈ GlobalPara.all, p.propName ≠ addInstrumentName := by decide +kernel
  exact hall p p.mem_all

theorem legName_ne_addInstrumentName (property : LegProperty) :
    property.propName ≠ addInstrumentName := by
  cases property <;> decide +kernel

theorem propName_ne_legName (p : GlobalPara) (property : LegProperty) :
    p.propName ≠ property.propName := by
  have hall : ∀ p ∈ GlobalPara.all, ∀ property ∈ LegProperty.all,
      p.propName ≠ property.propName := by decide +kernel
  exact hall p p.mem_all property (mem_all property)

/-- What a property is about. -/
inductive Topic : Str → Prop
  | para (p : GlobalPara) : Topic p.propName
  | add : Topic addInstrumentName
  | leg (property : LegProperty) : Topic property.propName
  | unknown {name : Str} (hpara : ∀ p : GlobalPara, p.propName ≠ name)
      (hadd : name ≠ addInstrumentName)
      (hleg : ∀ property : LegProperty, property.propName ≠ name) : Topic name

theorem topic (name : Str) : Topic name := by
  by_cases hpara : ∃ p : GlobalPara, p.propName = name
  · obtain ⟨p, rfl⟩ := hpara
    exact .para p
  · by_cases hadd : name = addInstrumentName
    · exact hadd ▸ .add
    · by_cases hleg : ∃ property : LegProperty, property.propName = name
      · obtain ⟨property, rfl⟩ := hleg
        exact .leg property
      · exact .unknown (not_exists.mp hpara) hadd (not_exists.mp hleg)

theorem find?_key {α κ : Type} [DecidableEq κ] {key : α → κ} {l : List α}
    (hnodup : (l.map key).Nodup) {a : α} (ha : a ∈ l) :
    l.find? (fun b => key b = key a) = some a := by
  have hsome : (l.find? fun b => key b = key a).isSome :=
    List.find?_isSome.mpr ⟨a, ha, by simp⟩
  obtain ⟨b, hb⟩ := Option.isSome_iff_exists.mp hsome
  have hkey : key b = key a := by simpa using List.find?_some hb
  rwa [List.inj_on_of_nodup_map hnodup (List.mem_of_find?_eq_some hb) ha hkey] at hb

theorem find?_key_none {α κ : Type} [DecidableEq κ] {key : α → κ} {l : List α} {k : κ}
    (h : ∀ a, key a ≠ k) : l.find? (fun b => key b = k) = none :=
  List.find?_eq_none.mpr fun a _ => by simpa using h a

section Props

variable (casts : LexicalCasts) (c : Configured) (propValue : Str)

theorem onProp_para (p : GlobalPara) :
    onProp casts c (p.propName, propValue) = (readPara casts propValue p.type).map fun x =>
      { c with globalParas := Function.update c.globalParas p x } := by
  rw [onProp]
  simp only [find?_key GlobalPara.nodup_names p.mem_all]

theorem onProp_add :
    onProp casts c (addInstrumentName, propValue) =
      match addInstruments (propValue.splitOn '#') with
      | .ok instruments => .ok { c with pInstruments := some instruments }
      | .error error => .error (.leg error) := by
  rw [onProp]
  simp only [find?_key_none propName_ne_addInstrumentName, if_true]

theorem onProp_leg (property : LegProperty) :
    onProp casts c (property.propName, propValue) =
      match c.pInstruments with
      | some instruments =>
          match setLegValue casts.toDouble property.member instruments propValue with
          | .ok instruments => .ok { c with pInstruments := some instruments }
          | .error error => .error (.leg error)
      | none => .error .noInstruments := by
  rw [onProp]
  simp only [find?_key_none fun p => propName_ne_legName p property,
    find?_key nodup_legNames (mem_all property), if_neg (legName_ne_addInstrumentName property)]

theorem onProp_unknown {name : Str} (hpara : ∀ p : GlobalPara, p.propName ≠ name)
    (hadd : name ≠ addInstrumentName) (hleg : ∀ property : LegProperty, property.propName ≠ name) :
    onProp casts c (name, propValue) = .ok c := by
  rw [onProp]
  simp only [find?_key_none hpara, if_neg hadd, find?_key_none hleg]

end Props

/-! ### Setting values through a view -/

section Views

variable {A B V : Type} {lexicalCast : Str → Option V} {memberptr : Member A V}

theorem setOneLegValue_map {memberptr' : Member B V} {f : A → B}
    (hname : ∀ a, memberptr'.instrument (f a) = memberptr.instrument a)
    (hset : ∀ x a, f (memberptr.set x a) = memberptr'.set x (f a)) (leg value : Str)
    (instruments : List A) :
    setOneLegValue lexicalCast memberptr' (instruments.map f) leg value =
      (setOneLegValue lexicalCast memberptr instruments leg value).map (List.map f) := by
  induction instruments with
  | nil => rfl
  | cons a instruments ih =>
      rw [List.map_cons, setOneLegValue, setOneLegValue, hname, ih]
      split_ifs
      · cases lexicalCast value with
        | none => rfl
        | some x =>
            change Except.ok _ = Except.ok _
            rw [List.map_cons, hset]
      · cases setOneLegValue lexicalCast memberptr instruments leg value with
        | error error => rfl
        | ok next => rfl

theorem setLegValue_map {memberptr' : Member B V} {f : A → B}
    (hname : ∀ a, memberptr'.instrument (f a) = memberptr.instrument a)
    (hset : ∀ x a, f (memberptr.set x a) = memberptr'.set x (f a)) (value : Str)
    (instruments : List A) :
    setLegValue lexicalCast memberptr' (instruments.map f) value =
      (setLegValue lexicalCast memberptr instruments value).map (List.map f) := by
  rw [setLegValue, setLegValue]
  generalize value.splitOn '#' = parts
  induction parts generalizing instruments with
  | nil => rfl
  | cons part parts ih =>
      have hleg : setLeg lexicalCast memberptr' (instruments.map f) part =
          (setLeg lexicalCast memberptr instruments part).map (List.map f) := by
        rw [setLeg, setLeg]
        split
        · exact setOneLegValue_map hname hset _ _ instruments
        · rfl
      rw [List.foldlM_cons, List.foldlM_cons, hleg]
      cases setLeg lexicalCast memberptr instruments part with
      | error error => rfl
      | ok next => exact ih next

theorem map_setOneLegValue {f : A → B} (hset : ∀ x a, f (memberptr.set x a) = f a)
    {leg value : Str} {instruments next : List A}
    (h : setOneLegValue lexicalCast memberptr instruments leg value = .ok next) :
    next.map f = instruments.map f := by
  induction instruments generalizing next with
  | nil =>
      obtain rfl := Except.ok.inj h
      rfl
  | cons a instruments ih =>
      rw [setOneLegValue] at h
      split_ifs at h
      · cases hcast : lexicalCast value with
        | none =>
            rw [hcast] at h
            cases h
        | some x =>
            rw [hcast] at h
            obtain rfl := Except.ok.inj h
            rw [List.map_cons, List.map_cons, hset]
      · cases hrest : setOneLegValue lexicalCast memberptr instruments leg value with
        | error error =>
            rw [hrest] at h
            cases h
        | ok rest =>
            rw [hrest] at h
            obtain rfl := Except.ok.inj h
            rw [List.map_cons, List.map_cons, ih hrest]

theorem map_setLegValue {f : A → B} (hset : ∀ x a, f (memberptr.set x a) = f a) {value : Str}
    {instruments next : List A}
    (h : setLegValue lexicalCast memberptr instruments value = .ok next) :
    next.map f = instruments.map f := by
  rw [setLegValue] at h
  generalize value.splitOn '#' = parts at h
  induction parts generalizing instruments with
  | nil =>
      obtain rfl := Except.ok.inj h
      rfl
  | cons part parts ih =>
      rw [List.foldlM_cons] at h
      cases hleg : setLeg lexicalCast memberptr instruments part with
      | error error =>
          rw [hleg] at h
          cases h
      | ok first =>
          rw [hleg] at h
          have hfirst : first.map f = instruments.map f := by
            rw [setLeg] at hleg
            split at hleg
            · exact map_setOneLegValue hset hleg
            · cases hleg
          rw [ih h, hfirst]

end Views

/-! ### The slots -/

def named : Member (Str × ℚ) ℚ where
  instrument := Prod.fst
  get := Prod.snd
  set := fun x p => (p.1, x)
  instrument_set := fun _ _ => rfl
  get_set := fun _ _ => rfl
  set_get := fun _ => rfl

def view (property : LegProperty) (p : NamedInstrument) : Str × ℚ :=
  (p.instrument, property.member.get p)

def legValues (p : NamedInstrument) : LegValues where
  ppl := p.fields.ppl
  enterSig := p.fields.enterSig
  shapeFactor := p.fields.shapeFactor
  volMultiplier := p.fields.volMultiplier
  volatilityMA := p.fields.volatilityMA

/-- An instrument with the values that a new one has. -/
def blank (p : NamedInstrument) : NamedInstrument :=
  ⟨p.instrument, 1, (legValues ⟨[], 1, addInstrument []⟩).set p.fields⟩

theorem instrument_member (property : LegProperty) :
    property.member.instrument = NamedInstrument.instrument := by
  cases property <;> rfl

theorem view_set (property : LegProperty) (x : ℚ) (p : NamedInstrument) :
    view property (property.member.set x p) = named.set x (view property p) := by
  cases property <;> rfl

theorem setLegValue_view (lexicalCast : Str → Option ℚ) (property : LegProperty)
    (instruments : List NamedInstrument) (value : Str) :
    setLegValue lexicalCast named (instruments.map (view property)) value =
      (setLegValue lexicalCast property.member instruments value).map
        (List.map (view property)) := by
  refine setLegValue_map (fun p => ?_) (view_set property) value instruments
  rw [instrument_member]
  rfl

theorem view_set_of_ne {property other : LegProperty} (h : other ≠ property) (x : ℚ)
    (p : NamedInstrument) : view property (other.member.set x p) = view property p := by
  cases property <;> cases other <;> first | rfl | exact absurd rfl h

theorem blank_set (property : LegProperty) (x : ℚ) (p : NamedInstrument) :
    blank (property.member.set x p) = blank p := by
  cases property <;> rfl

theorem addInstruments_eq_ok_iff {insts : List Str} {instruments : List NamedInstrument} :
    addInstruments insts = .ok instruments ↔
      (∀ inst ∈ insts, HasRoom inst) ∧ newInstruments insts = instruments := by
  rw [addInstruments]
  split_ifs with hroom
  · rw [Except.ok.injEq, and_iff_right hroom]
  · exact iff_of_false (by simp) fun h => hroom h.1

theorem map_blank_newInstruments (insts : List Str) :
    (newInstruments insts).map blank = newInstruments insts := by
  rw [newInstruments, List.map_map]
  rfl

/-- An instrument is what a new one is, with its six values. -/
def restore (new : NamedInstrument) (value : LegProperty → ℚ) : NamedInstrument where
  instrument := new.instrument
  weight := value .weights
  fields := LegValues.set
    { ppl := value .ppl
      enterSig := value .enterSignal
      shapeFactor := value .shape
      volMultiplier := value .volMultiplier
      volatilityMA := value .volatilityMA } new.fields

theorem restore_blank (p : NamedInstrument) :
    restore (blank p) (fun property => (view property p).2) = p := rfl

theorem eq_of_map_views {l l' : List NamedInstrument} (hblank : l.map blank = l'.map blank)
    (hviews : ∀ property, l.map (view property) = l'.map (view property)) : l = l' := by
  induction l generalizing l' with
  | nil => exact (List.map_eq_nil_iff.mp hblank.symm).symm
  | cons p l ih =>
      cases l' with
      | nil => cases hblank
      | cons q l' =>
          have hvalues := fun property => List.cons.inj (hviews property)
          obtain ⟨hfirst, hrest⟩ := List.cons.inj hblank
          rw [ih hrest fun property => (hvalues property).2, ← restore_blank p, hfirst,
            funext fun property => congrArg Prod.snd (hvalues property).1, restore_blank]

/-- What a message changes, piece by piece. -/
inductive Slot
  | para (p : GlobalPara)
  | made
  | leg (property : LegProperty)

namespace Slot

abbrev Value : Slot → Type
  | para p => p.type.Value
  | made => Option (List NamedInstrument)
  | leg _ => Option (List (Str × ℚ))

def shown (c : Configured) : (slot : Slot) → slot.Value
  | para p => c.globalParas p
  | made => c.pInstruments.map (List.map blank)
  | leg property => c.pInstruments.map (List.map (view property))

def sees : Slot → Str × Str → Bool
  | para p, prop => prop.1 = p.propName
  | made, prop => prop.1 = addInstrumentName
  | leg property, prop => prop.1 = addInstrumentName ∨ prop.1 = property.propName

def step (casts : LexicalCasts) : (slot : Slot) → slot.Value → Str × Str → Option slot.Value
  | para p, _, prop => (readPara casts prop.2 p.type).toOption
  | made, _, prop => (addInstruments (prop.2.splitOn '#')).toOption.map some
  | leg property, instruments, prop =>
      if prop.1 = addInstrumentName then
        (addInstruments (prop.2.splitOn '#')).toOption.map fun instruments =>
          some (instruments.map (view property))
      else
        instruments.bind fun instruments =>
          (setLegValue casts.toDouble named instruments prop.2).toOption.map some

end Slot

theorem eq_of_shown {c c' : Configured} (h : ∀ slot : Slot, slot.shown c = slot.shown c') :
    c = c' := by
  obtain ⟨globalParas, pInstruments⟩ := c
  obtain ⟨globalParas', pInstruments'⟩ := c'
  obtain rfl : globalParas = globalParas' := funext fun p => h (.para p)
  congr 1
  cases pInstruments with
  | none =>
      cases pInstruments' with
      | none => rfl
      | some instruments' => cases h .made
  | some instruments =>
      cases pInstruments' with
      | none => cases h .made
      | some instruments' =>
          congr 1
          exact eq_of_map_views (Option.some.inj (h .made)) fun property =>
            Option.some.inj (h (.leg property))

section Steps

variable {casts : LexicalCasts} {c c' : Configured}

theorem exists_of_onProp_leg {property : LegProperty} {propValue : Str}
    (h : onProp casts c (property.propName, propValue) = .ok c') :
    ∃ instruments next, c.pInstruments = some instruments ∧
      setLegValue casts.toDouble property.member instruments propValue = .ok next ∧
      c' = { c with pInstruments := some next } := by
  rw [onProp_leg] at h
  cases hinsts : c.pInstruments with
  | none =>
      rw [hinsts] at h
      cases h
  | some instruments =>
      rw [hinsts] at h
      cases hset : setLegValue casts.toDouble property.member instruments propValue with
      | error error =>
          simp only [hset] at h
          cases h
      | ok next =>
          simp only [hset] at h
          exact ⟨instruments, next, rfl, hset, (Except.ok.inj h).symm⟩

theorem Slot.seen (c : Configured) {slot : Slot} {prop : Str × Str} (h : slot.sees prop = true) :
    (onProp casts c prop).toOption.map (fun c => slot.shown c) =
      slot.step casts (slot.shown c) prop := by
  obtain ⟨name, propValue⟩ := prop
  cases slot with
  | para p =>
      obtain rfl : name = p.propName := of_decide_eq_true h
      rw [onProp_para, Slot.step]
      cases readPara casts propValue p.type with
      | error error => rfl
      | ok x =>
          change some (Function.update c.globalParas p x p) = some x
          rw [Function.update_self]
  | made =>
      obtain rfl : name = addInstrumentName := of_decide_eq_true h
      rw [onProp_add, Slot.step]
      cases hadd : addInstruments (propValue.splitOn '#') with
      | error error => rfl
      | ok instruments =>
          obtain ⟨-, rfl⟩ := addInstruments_eq_ok_iff.mp hadd
          exact congrArg (fun l => some (some l)) (map_blank_newInstruments _)
  | leg property =>
      by_cases hadd : name = addInstrumentName
      · subst hadd
        rw [onProp_add, Slot.step, if_pos rfl]
        cases addInstruments (propValue.splitOn '#') with
        | error error => rfl
        | ok instruments => rfl
      · obtain rfl : name = property.propName := (of_decide_eq_true h).resolve_left hadd
        rw [onProp_leg, Slot.step, if_neg hadd, Slot.shown]
        cases c.pInstruments with
        | none => rfl
        | some instruments =>
            change _ = (setLegValue casts.toDouble named (instruments.map (view property))
              propValue).toOption.map some
            rw [setLegValue_view]
            cases hset : setLegValue casts.toDouble property.member instruments propValue with
            | error error =>
                simp only [hset]
                rfl
            | ok next =>
                simp only [hset]
                rfl

theorem Slot.unseen {slot : Slot} {prop : Str × Str} (h : slot.sees prop = false)
    (htake : onProp casts c prop = .ok c') : slot.shown c' = slot.shown c := by
  obtain ⟨name, propValue⟩ := prop
  cases topic name with
  | para p =>
      rw [onProp_para] at htake
      cases hread : readPara casts propValue p.type with
      | error error =>
          rw [hread] at htake
          cases htake
      | ok x =>
          rw [hread] at htake
          obtain rfl := Except.ok.inj htake
          cases slot with
          | para q =>
              have hne : q ≠ p := fun heq => of_decide_eq_false h (heq ▸ rfl)
              exact Function.update_of_ne hne x c.globalParas
          | made => rfl
          | leg property => rfl
  | add =>
      cases slot with
      | para q =>
          rw [onProp_add] at htake
          cases hadd : addInstruments (propValue.splitOn '#') with
          | error error =>
              rw [hadd] at htake
              cases htake
          | ok instruments =>
              rw [hadd] at htake
              obtain rfl := Except.ok.inj htake
              rfl
      | made => simp [Slot.sees] at h
      | leg property => simp [Slot.sees] at h
  | leg other =>
      obtain ⟨instruments, next, hinsts, hset, rfl⟩ := exists_of_onProp_leg htake
      cases slot with
      | para q => rfl
      | made =>
          rw [Slot.shown, Slot.shown, hinsts]
          exact congrArg some (map_setLegValue (blank_set other) hset)
      | leg property =>
          have hne : other ≠ property := by
            rintro rfl
            simp [Slot.sees] at h
          rw [Slot.shown, Slot.shown, hinsts]
          exact congrArg some (map_setLegValue (view_set_of_ne hne) hset)
  | unknown hpara hadd hleg =>
      rw [onProp_unknown casts c propValue hpara hadd hleg] at htake
      obtain rfl := Except.ok.inj htake
      rfl

end Steps

def take (casts : LexicalCasts) (c : Configured) (prop : Str × Str) : Option Configured :=
  (onProp casts c prop).toOption

theorem toOption_foldlM {σ α ε : Type} {f : σ → α → Except ε σ} (l : List α) (s : σ) :
    (l.foldlM f s).toOption = l.foldlM (fun s a => (f s a).toOption) s := by
  induction l generalizing s with
  | nil => rfl
  | cons a l ih =>
      rw [List.foldlM_cons, List.foldlM_cons]
      cases f s a with
      | error error => rfl
      | ok next => exact ih next

theorem toOption_eq_some_iff {α ε : Type} {x : Except ε α} {a : α} :
    x.toOption = some a ↔ x = .ok a := by
  cases x with
  | error error => simp [Except.toOption]
  | ok b => simp [Except.toOption]

theorem run_iff_onMessage {casts : LexicalCasts} {c c' : Configured} {msg : StrategyConfig} :
    Run (take casts) (fun _ _ => True) c msg.props c' ↔ onMessage casts c msg = .ok c' := by
  rw [Run.iff_foldlM, onMessage, ← toOption_eq_some_iff, toOption_foldlM]
  rfl

/-- The message is accepted by what its properties are about, and tells them apart. -/
theorem slots_compose (casts : LexicalCasts) :
    Composes (take casts) (fun _ _ => True) (fun slot : Slot => slot.step casts)
      (fun _ _ _ => True) Slot.sees (fun slot c x => slot.shown c = x) (fun _ => True)
      (fun _ => True) where
  projects slot :=
    { seen := by
        rintro c _ prop c' rfl hsees - htake
        refine ⟨slot.shown c', trivial, ?_, rfl⟩
        rw [← Slot.seen c hsees, ← take, htake]
        rfl
      unseen := by
        rintro c _ prop c' rfl hsees - htake
        exact Slot.unseen hsees (toOption_eq_some_iff.mp htake) }
  keeps _ _ _ := trivial
  valid _ _ _ := trivial
  takes {c prop x} _ _ hshown htakes := by
    refine ⟨trivial, ?_⟩
    have hown : ∀ slot : Slot, slot.sees prop = true → ∃ c', take casts c prop = some c' := by
      intro slot hsees
      obtain ⟨x', -, hstep⟩ := htakes slot hsees
      rw [← hshown slot, ← Slot.seen c hsees] at hstep
      obtain ⟨c', htake, -⟩ := Option.map_eq_some_iff.mp hstep
      exact ⟨c', htake⟩
    obtain ⟨name, propValue⟩ := prop
    cases topic name with
    | para p => exact hown (.para p) (decide_eq_true rfl)
    | add => exact hown .made (by simp [Slot.sees])
    | leg property => exact hown (.leg property) (decide_eq_true (.inr rfl))
    | unknown hpara hadd hleg =>
        rw [take, onProp_unknown casts c propValue hpara hadd hleg]
        exact ⟨c, rfl⟩

/-- A message leaves what each piece makes of the properties that it sees. -/
theorem onMessage_eq_ok_iff {casts : LexicalCasts} {c c' : Configured} {msg : StrategyConfig} :
    onMessage casts c msg = .ok c' ↔ ∀ slot : Slot, Run (slot.step casts) (fun _ _ => True)
      (slot.shown c) (msg.props.filter slot.sees) (slot.shown c') := by
  rw [← run_iff_onMessage, (slots_compose casts).run_iff (fun h h' => h.symm.trans h')
    (fun h h' => eq_of_shown fun slot => (h slot).trans (h' slot).symm) trivial
    (fun slot => rfl) fun slot => rfl]
  simp only [implies_true, true_and]

/-- The order of the properties does not matter, as long as each parameter and each value of the
instruments sees the same ones in the same order: both messages are refused, or both leave the
same. -/
theorem onMessage_of_rearranged (casts : LexicalCasts) (c : Configured) {msg msg' : StrategyConfig}
    (hsame : ∀ slot : Slot, msg'.props.filter slot.sees = msg.props.filter slot.sees) :
    (onMessage casts c msg').toOption = (onMessage casts c msg).toOption := by
  refine Option.ext fun c' => ?_
  rw [toOption_eq_some_iff, toOption_eq_some_iff, onMessage_eq_ok_iff, onMessage_eq_ok_iff]
  simp only [hsame]

def wholeCasts : LexicalCasts where
  toDouble := fun text => (lexicalCastInt text).map Int.cast
  toBool := fun text => (lexicalCastInt text).map fun x => decide (x ≠ 0)

def zeros : Globals := fun p =>
  match p.type with
  | .time => (0 : ℕ)
  | .double => (0 : ℚ)
  | .int => (0 : ℤ)
  | .bool => false

/-- The weight of an instrument, and a parameter that is set before it or after it. -/
theorem onMessage_of_rearranged_weight :
    (onMessage wholeCasts (unset zeros) ⟨[(addInstrumentName, "ag#cu".toList),
      ("Weights".toList, "cu:2".toList), ("ThresholdSelf".toList, "5".toList)]⟩).toOption =
    (onMessage wholeCasts (unset zeros) ⟨[("ThresholdSelf".toList, "5".toList),
      (addInstrumentName, "ag#cu".toList), ("Weights".toList, "cu:2".toList)]⟩).toOption := by
  refine onMessage_of_rearranged wholeCasts (unset zeros) fun slot => ?_
  cases slot with
  | para p => cases p <;> decide +kernel
  | made => decide +kernel
  | leg property => cases property <;> decide +kernel

/-! ### The message of a configuration -/

/-- What a strategy has after the message of a configuration: each parameter what its value in
the configuration reads, or what memory held, and the instruments of the configuration, each of
their values what its text alone sets.  Their names are not too long. -/
structure Configures (casts : LexicalCasts) (memory : Globals) (config : Config)
    (c : Configured) : Prop where
  given : ∀ p propValue, config.find? (GlobalPara.propName p) = some propValue →
    readPara casts propValue p.type = .ok (c.globalParas p)
  kept : ∀ p, config.find? (GlobalPara.propName p) = none → c.globalParas p = memory p
  rooms : ∀ insts, config.find? addInstrumentName = some insts →
    ∀ inst ∈ insts.splitOn '#', HasRoom inst
  made : c.pInstruments.map (List.map blank) =
    (config.find? addInstrumentName).map fun insts => newInstruments (insts.splitOn '#')
  set : ∀ property propValue, config.find? (LegProperty.propName property) = some propValue →
    ∃ insts next, config.find? addInstrumentName = some insts ∧
      setLegValue casts.toDouble property.member (newInstruments (insts.splitOn '#')) propValue =
        .ok next ∧
      c.pInstruments.map (List.map (view property)) = some (next.map (view property))
  unset : ∀ property, config.find? (LegProperty.propName property) = none →
    c.pInstruments.map (List.map (view property)) =
      (config.find? addInstrumentName).map fun insts =>
        (newInstruments (insts.splitOn '#')).map (view property)

theorem addInstrumentName_lt (property : LegProperty) :
    addInstrumentName < property.propName := by
  cases property <;> decide

theorem not_finds_of_sees {slot : Slot} {prop : Str × Str} (h : slot.sees prop = true) :
    finds prop.1 dataSrcPart = false := by
  have hparas : ∀ p ∈ GlobalPara.all, finds p.propName dataSrcPart = false := by decide +kernel
  have hadd : finds addInstrumentName dataSrcPart = false := by decide +kernel
  have hlegs : ∀ property : LegProperty, finds property.propName dataSrcPart = false := by
    intro property
    cases property <;> decide +kernel
  obtain ⟨name, propValue⟩ := prop
  cases slot with
  | para p =>
      obtain rfl : name = p.propName := of_decide_eq_true h
      exact hparas p p.mem_all
  | made =>
      obtain rfl : name = addInstrumentName := of_decide_eq_true h
      exact hadd
  | leg property =>
      rcases of_decide_eq_true h with rfl | rfl
      · exact hadd
      · exact hlegs property

theorem filter_configMessage (config : Config) (slot : Slot) :
    (configMessage config).props.filter slot.sees = config.entries.filter slot.sees := by
  rw [configMessage, List.filter_filter]
  refine List.filter_congr fun prop _ => ?_
  cases hsees : slot.sees prop with
  | true => rw [not_finds_of_sees hsees]; rfl
  | false => rfl

section Entries

variable {casts : LexicalCasts} {config : Config}

theorem run_para {p : GlobalPara} {x y : p.type.Value} :
    Run ((Slot.para p).step casts) (fun _ _ => True) x
        (config.entries.filter (Slot.para p).sees) y ↔
      (∀ propValue, config.find? p.propName = some propValue →
        readPara casts propValue p.type = .ok y) ∧
        (config.find? p.propName = none → y = x) := by
  have hfilter : config.entries.filter (Slot.para p).sees =
      ((config.find? p.propName).map fun propValue => (p.propName, propValue)).toList :=
    (List.filter_congr fun _ _ => decide_eq_decide.mpr Iff.rfl).trans
      (OrderedMap.filter_key config.sorted p.propName)
  rw [hfilter, Run.iff_foldlM]
  cases config.find? p.propName with
  | none =>
      change some x = some y ↔ _
      simp [eq_comm]
  | some propValue =>
      change ((readPara casts propValue p.type).toOption.bind some) = some y ↔ _
      rw [Option.bind_fun_some, toOption_eq_some_iff]
      simp

theorem run_made {y : Option (List NamedInstrument)} :
    Run (Slot.made.step casts) (fun _ _ => True) none (config.entries.filter Slot.made.sees) y ↔
      (∀ insts, config.find? addInstrumentName = some insts →
        ∀ inst ∈ insts.splitOn '#', HasRoom inst) ∧
        y = (config.find? addInstrumentName).map fun insts =>
          newInstruments (insts.splitOn '#') := by
  have hfilter : config.entries.filter Slot.made.sees =
      ((config.find? addInstrumentName).map fun insts => (addInstrumentName, insts)).toList :=
    (List.filter_congr fun _ _ => decide_eq_decide.mpr Iff.rfl).trans
      (OrderedMap.filter_key config.sorted addInstrumentName)
  rw [hfilter, Run.iff_foldlM]
  cases config.find? addInstrumentName with
  | none =>
      change some none = some y ↔ _
      simp [eq_comm]
  | some insts =>
      change ((addInstruments (insts.splitOn '#')).toOption.map some).bind some = some y ↔ _
      rw [Option.bind_fun_some, Option.map_eq_some_iff]
      simp only [toOption_eq_some_iff, addInstruments_eq_ok_iff, Option.some.injEq, forall_eq',
        Option.map_some]
      constructor
      · rintro ⟨_, ⟨hrooms, rfl⟩, rfl⟩
        exact ⟨hrooms, rfl⟩
      · rintro ⟨hrooms, rfl⟩
        exact ⟨_, ⟨hrooms, rfl⟩, rfl⟩

theorem step_leg_own {property : LegProperty} (instruments : Option (List (Str × ℚ)))
    (propValue : Str) :
    (Slot.leg property).step casts instruments (property.propName, propValue) =
      instruments.bind fun instruments =>
        (setLegValue casts.toDouble named instruments propValue).toOption.map some :=
  if_neg (legName_ne_addInstrumentName property)

theorem run_leg {property : LegProperty} {y : Option (List (Str × ℚ))}
    (hrooms : ∀ insts, config.find? addInstrumentName = some insts →
      ∀ inst ∈ insts.splitOn '#', HasRoom inst) :
    Run ((Slot.leg property).step casts) (fun _ _ => True) none
        (config.entries.filter (Slot.leg property).sees) y ↔
      (∀ propValue, config.find? property.propName = some propValue →
        ∃ insts next, config.find? addInstrumentName = some insts ∧
          setLegValue casts.toDouble property.member (newInstruments (insts.splitOn '#'))
            propValue = .ok next ∧ y = some (next.map (view property))) ∧
        (config.find? property.propName = none →
          y = (config.find? addInstrumentName).map fun insts =>
            (newInstruments (insts.splitOn '#')).map (view property)) := by
  have hfilter : config.entries.filter (Slot.leg property).sees =
      ((config.find? addInstrumentName).map fun insts => (addInstrumentName, insts)).toList ++
        ((config.find? property.propName).map fun x => (property.propName, x)).toList := by
    rw [OrderedMap.find?, OrderedMap.find?, ← OrderedMap.filter_key config.sorted,
      ← OrderedMap.filter_key config.sorted]
    exact (List.filter_congr fun _ _ => decide_eq_decide.mpr Iff.rfl).trans
      (OrderedMap.filter_keys config.sorted (addInstrumentName_lt property))
  rw [hfilter, Run.iff_foldlM]
  cases hinsts : config.find? addInstrumentName with
  | none =>
      cases config.find? property.propName with
      | none =>
          change some none = some y ↔ _
          simp [eq_comm]
      | some propValue =>
          change ((Slot.leg property).step casts none (property.propName, propValue)).bind some =
            some y ↔ _
          rw [Option.bind_fun_some, step_leg_own]
          simp
  | some insts =>
      have hadd := addInstruments_eq_ok_iff.mpr ⟨hrooms insts hinsts, rfl⟩
      have hfirst : (Slot.leg property).step casts none (addInstrumentName, insts) =
          some (some ((newInstruments (insts.splitOn '#')).map (view property))) := by
        rw [Slot.step, if_pos rfl, hadd]
        rfl
      cases config.find? property.propName with
      | none =>
          change ((Slot.leg property).step casts none (addInstrumentName, insts)).bind some =
            some y ↔ _
          rw [hfirst]
          simp [eq_comm]
      | some propValue =>
          change ((Slot.leg property).step casts none (addInstrumentName, insts)).bind
            (fun instruments => ((Slot.leg property).step casts instruments
              (property.propName, propValue)).bind some) = some y ↔ _
          rw [hfirst, Option.bind_some, Option.bind_fun_some, step_leg_own, Option.bind_some,
            setLegValue_view]
          cases hset : setLegValue casts.toDouble property.member
              (newInstruments (insts.splitOn '#')) propValue with
          | error error =>
              change none = some y ↔ _
              simp [hset]
          | ok next =>
              change some (some (next.map (view property))) = some y ↔ _
              simp [hset, eq_comm]

end Entries

/-- A configuration is accepted just if it can be read piece by piece, and the strategy then has
what it says. -/
theorem onMessage_configMessage_iff (casts : LexicalCasts) (memory : Globals) (config : Config)
    (c : Configured) :
    onMessage casts (unset memory) (configMessage config) = .ok c ↔
      Configures casts memory config c := by
  rw [onMessage_eq_ok_iff]
  simp only [filter_configMessage]
  constructor
  · intro h
    obtain ⟨hrooms, hmade⟩ := run_made.mp (h .made)
    exact
      { given := fun p => (run_para.mp (h (.para p))).1
        kept := fun p => (run_para.mp (h (.para p))).2
        rooms := hrooms
        made := hmade
        set := fun property => ((run_leg hrooms).mp (h (.leg property))).1
        unset := fun property => ((run_leg hrooms).mp (h (.leg property))).2 }
  · intro h slot
    cases slot with
    | para p => exact run_para.mpr ⟨h.given p, h.kept p⟩
    | made => exact run_made.mpr ⟨h.rooms, h.made⟩
    | leg property => exact (run_leg h.rooms).mpr ⟨h.set property, h.unset property⟩

/-- The strategy as it runs; it has no instruments to run with before a message makes them. -/
def strategy (c : Configured) (orderManager : FakeOrderManager) : Option State :=
  c.pInstruments.map fun instruments =>
    { globalParas := paras c.globalParas
      pInstruments := instruments.map NamedInstrument.fields
      orderManager := orderManager }

theorem exists_legs {instruments : List NamedInstrument} {names : List Str}
    (h : instruments.map blank = newInstruments names) :
    ∃ legs : List (Str × LegValues), legs.map Prod.fst = names ∧
      instruments.map NamedInstrument.fields =
        legs.map fun leg => leg.2.set (addInstrument leg.1) := by
  induction names generalizing instruments with
  | nil =>
      obtain rfl := List.map_eq_nil_iff.mp h
      exact ⟨[], rfl, rfl⟩
  | cons name names ih =>
      obtain ⟨p, instruments, rfl, hfirst, hrest⟩ := List.map_eq_cons_iff.mp h
      obtain ⟨legs, rfl, hfields⟩ := ih hrest
      refine ⟨(name, legValues p) :: legs, rfl, ?_⟩
      have hnew : (blank p).fields = addInstrument name := congrArg NamedInstrument.fields hfirst
      rw [List.map_cons, List.map_cons, hfields, ← hnew]
      rfl

/-- An accepted configuration leaves a configured strategy, with an instrument for each name. -/
theorem Configures.strategy_eq {casts : LexicalCasts} {memory : Globals} {config : Config}
    {c : Configured} (h : Configures casts memory config c) {insts : Str}
    (hinsts : config.find? addInstrumentName = some insts) (orderManager : FakeOrderManager) :
    ∃ legs, legs.map Prod.fst = insts.splitOn '#' ∧
      strategy c orderManager = some (.configured (paras c.globalParas) legs orderManager) := by
  have hmade := h.made
  rw [hinsts] at hmade
  obtain ⟨instruments, hsome, hblank⟩ := Option.map_eq_some_iff.mp hmade
  replace hblank : instruments.map blank = newInstruments (insts.splitOn '#') := hblank
  rw [strategy, hsome]
  generalize insts.splitOn '#' = names at hblank
  obtain ⟨legs, hnames, hfields⟩ := exists_legs hblank
  exact ⟨legs, hnames, congrArg (fun fields => some (State.mk _ fields _)) hfields⟩

end BluesTrading.StrategyMessage
