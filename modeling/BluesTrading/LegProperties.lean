import BluesTrading.Foundations.FirstMatch
import BluesTrading.SingleStrategy

namespace BluesTrading.LegProperties

open BluesTrading.Foundations
open BluesTrading.SingleStrategy
open BluesTrading.SourceText

/-! ### The templates -/

/-- The exceptions, `noField` where a field is read that the text does not have, and `overflow`
where a name is copied that there is no room for. -/
inductive LegError
  | noField
  | badLexicalCast
  | overflow
  deriving DecidableEq

/-- What a pointer to a member reads and writes, and the name of an instrument. -/
structure Member (InstrumentType ValueType : Type) where
  instrument : InstrumentType → Str
  get : InstrumentType → ValueType
  set : ValueType → InstrumentType → InstrumentType
  instrument_set : ∀ value p, instrument (set value p) = instrument p
  get_set : ∀ value p, get (set value p) = value
  set_get : ∀ p, set (get p) p = p

section Templates

variable {InstrumentType ValueType : Type} (lexicalCast : Str → Option ValueType)
  (memberptr : Member InstrumentType ValueType)

def setOneLegValue : List InstrumentType → Str → Str → Except LegError (List InstrumentType)
  | [], _, _ => .ok []
  | p :: instruments, leg, value =>
      if leg = memberptr.instrument p then
        match lexicalCast value with
        | some x => .ok (memberptr.set x p :: instruments)
        | none => .error .badLexicalCast
      else (setOneLegValue instruments leg value).map (p :: ·)

def setLeg (instruments : List InstrumentType) (inst : Str) :
    Except LegError (List InstrumentType) :=
  match inst.splitOn ':' with
  | leg :: value :: _ => setOneLegValue lexicalCast memberptr instruments leg value
  | _ => .error .noField

def setLegValue (instruments : List InstrumentType) (value : Str) :
    Except LegError (List InstrumentType) :=
  (value.splitOn '#').foldlM (setLeg lexicalCast memberptr) instruments

end Templates

/-! ### The properties of the strategy -/

/-- An instrument with what the strategy keeps of it besides, its name and its weight. -/
structure NamedInstrument where
  instrument : Str
  weight : ℚ
  fields : Instrument

/-- What `strcpy` copies, up to the first zero. -/
def cString (text : Str) : Str := text.takeWhile fun c => c ≠ '\x00'

/-- The 64 characters of `instrument_` take a name and the zero at its end. -/
def HasRoom (inst : Str) : Prop := (cString inst).length < 64

instance : DecidablePred HasRoom := fun _ => Nat.decLt _ _

def newInstruments (insts : List Str) : List NamedInstrument :=
  insts.map fun inst => ⟨cString inst, 1, addInstrument inst⟩

/-- `AddInstrument` with its array. -/
def addInstruments (insts : List Str) : Except LegError (List NamedInstrument) :=
  if ∀ inst ∈ insts, HasRoom inst then .ok (newInstruments insts) else .error .overflow

inductive LegProperty
  | weights
  | enterSignal
  | ppl
  | shape
  | volMultiplier
  | volatilityMA

namespace LegProperty

def propName : LegProperty → Str
  | weights => "Weights".toList
  | enterSignal => "EnterSignal".toList
  | ppl => "ppl".toList
  | shape => "Shape".toList
  | volMultiplier => "VolMultiplier".toList
  | volatilityMA => "VolatilityMA".toList

def weightMember : Member NamedInstrument ℚ where
  instrument := NamedInstrument.instrument
  get := NamedInstrument.weight
  set := fun x p => { p with weight := x }
  instrument_set := fun _ _ => rfl
  get_set := fun _ _ => rfl
  set_get := fun _ => rfl

def fieldMember (get : Instrument → ℚ) (set : ℚ → Instrument → Instrument)
    (get_set : ∀ x fields, get (set x fields) = x)
    (set_get : ∀ fields, set (get fields) fields = fields) : Member NamedInstrument ℚ where
  instrument := NamedInstrument.instrument
  get := fun p => get p.fields
  set := fun x p => { p with fields := set x p.fields }
  instrument_set := fun _ _ => rfl
  get_set := fun x p => get_set x p.fields
  set_get := fun p => by rw [set_get]

def member : LegProperty → Member NamedInstrument ℚ
  | weights => weightMember
  | enterSignal => fieldMember Instrument.enterSig (fun x p => { p with enterSig := x })
      (fun _ _ => rfl) fun _ => rfl
  | ppl => fieldMember Instrument.ppl (fun x p => { p with ppl := x })
      (fun _ _ => rfl) fun _ => rfl
  | shape => fieldMember Instrument.shapeFactor (fun x p => { p with shapeFactor := x })
      (fun _ _ => rfl) fun _ => rfl
  | volMultiplier => fieldMember Instrument.volMultiplier (fun x p => { p with volMultiplier := x })
      (fun _ _ => rfl) fun _ => rfl
  | volatilityMA => fieldMember Instrument.volatilityMA (fun x p => { p with volatilityMA := x })
      (fun _ _ => rfl) fun _ => rfl

def all : List LegProperty := [weights, enterSignal, ppl, shape, volMultiplier, volatilityMA]

end LegProperty

/-- The loop body of `onMessage`, as far as it concerns the instruments. -/
def onProp (lexicalCast : Str → Option ℚ) (instruments : List NamedInstrument)
    (propName propValue : Str) : Except LegError (List NamedInstrument) :=
  if propName = "ADDInstrument".toList then
    addInstruments (propValue.splitOn '#')
  else
    match LegProperty.all.find? fun property => property.propName = propName with
    | some property => setLegValue lexicalCast property.member instruments propValue
    | none => .ok instruments

theorem onProp_propName (lexicalCast : Str → Option ℚ) (property : LegProperty)
    (instruments : List NamedInstrument) (propValue : Str) :
    onProp lexicalCast instruments property.propName propValue =
      setLegValue lexicalCast property.member instruments propValue := by
  cases property <;> rfl

/-! ### What is read, and what is set -/

section Meaning

variable {InstrumentType ValueType : Type} (lexicalCast : Str → Option ValueType)
  (memberptr : Member InstrumentType ValueType) (instruments : List InstrumentType)

def IsWrite (part : Str) (write : Str × ValueType) : Prop :=
  ∃ text, part = write.1 ++ ':' :: text ∧ '#' ∉ part ∧ ':' ∉ write.1 ∧ ':' ∉ text ∧
    lexicalCast text = some write.2

/-- The text `leg1:v1#...#legk:vk` with distinct legs. -/
structure Assigns (value : Str) (writes : List (Str × ValueType)) : Prop where
  parts : ∃ parts, parts ≠ [] ∧ value = ['#'].intercalate parts ∧
    List.Forall₂ (IsWrite lexicalCast) parts writes
  distinct : (writes.map Prod.fst).Nodup

/-- The value of an instrument cannot be read, and an exception leaves `setLegValue`. -/
def Throws (part : Str) : Prop :=
  ∃ leg text rest, part.splitOn ':' = leg :: text :: rest ∧
    leg ∈ instruments.map memberptr.instrument ∧ lexicalCast text = none

def HasColons (value : Str) : Prop :=
  ∀ before part after, value.splitOn '#' = before ++ part :: after → ':' ∉ part →
    ∃ bad ∈ before, Throws lexicalCast memberptr instruments bad

/-- Of the instruments with a name that is given a value, those after the first have it. -/
def NamedOnce (value : Str) : Prop :=
  ∀ writes, Assigns lexicalCast value writes → instruments.Pairwise fun p q =>
    memberptr.instrument p = memberptr.instrument q →
      ∀ x, (memberptr.instrument q, x) ∈ writes → memberptr.get q = x

/-- No field is read that the text does not have, and legs with values are given these. -/
structure SetsLegs (value : Str) (result : Except LegError (List InstrumentType)) : Prop where
  reads : result ≠ .error .noField
  sets : ∀ writes, Assigns lexicalCast value writes →
    result = .ok (instruments.map (assigned memberptr.instrument memberptr.set writes))

end Meaning

section Reading

variable {InstrumentType ValueType : Type} {lexicalCast : Str → Option ValueType}
  {memberptr : Member InstrumentType ValueType} {instruments : List InstrumentType}

theorem setOneLegValue_of_cast {leg text : Str} {x : ValueType}
    (hcast : lexicalCast text = some x) :
    setOneLegValue lexicalCast memberptr instruments leg text =
      .ok (writeFirst memberptr.instrument memberptr.set instruments (leg, x)) := by
  induction instruments with
  | nil => rfl
  | cons p instruments ih =>
      rw [setOneLegValue, hcast, ih, writeFirst_cons]
      by_cases hleg : leg = memberptr.instrument p
      · rw [if_pos hleg, if_pos hleg.symm]
      · rw [if_neg hleg, if_neg (Ne.symm hleg)]
        rfl

theorem setOneLegValue_of_none {leg text : Str} (hcast : lexicalCast text = none) :
    setOneLegValue lexicalCast memberptr instruments leg text =
      if leg ∈ instruments.map memberptr.instrument then .error .badLexicalCast
      else .ok instruments := by
  induction instruments with
  | nil => rfl
  | cons p instruments ih =>
      rw [setOneLegValue, hcast, ih]
      by_cases hleg : leg = memberptr.instrument p
      · simp [hleg]
      · simp only [if_neg hleg, List.map_cons, List.mem_cons, or_iff_right hleg]
        split_ifs
        · rfl
        · rfl

theorem exists_fields {part : Str} (h : ':' ∈ part) :
    ∃ leg text rest, part.splitOn ':' = leg :: text :: rest := by
  obtain ⟨leg, t, rfl, hleg⟩ := List.eq_append_cons_of_mem h
  obtain ⟨text, rest, hsplit⟩ := List.exists_cons_of_ne_nil (List.splitOn_ne_nil ':' t)
  exact ⟨leg, text, rest, by rw [List.splitOn_append_cons_self_of_not_mem hleg, hsplit]⟩

theorem setLeg_cases (part : Str) :
    (':' ∉ part ∧ setLeg lexicalCast memberptr instruments part = .error .noField) ∨
      (':' ∈ part ∧ Throws lexicalCast memberptr instruments part ∧
        setLeg lexicalCast memberptr instruments part = .error .badLexicalCast) ∨
      (':' ∈ part ∧ ¬ Throws lexicalCast memberptr instruments part ∧
        ∃ next, setLeg lexicalCast memberptr instruments part = .ok next ∧
          next.map memberptr.instrument = instruments.map memberptr.instrument) := by
  by_cases hcolon : ':' ∈ part
  · obtain ⟨leg, text, rest, hsplit⟩ := exists_fields hcolon
    have hset : setLeg lexicalCast memberptr instruments part =
        setOneLegValue lexicalCast memberptr instruments leg text := by rw [setLeg, hsplit]
    have hthrows : Throws lexicalCast memberptr instruments part ↔
        leg ∈ instruments.map memberptr.instrument ∧ lexicalCast text = none := by
      refine ⟨fun ⟨leg', text', rest', hsplit', hthrow⟩ => ?_, fun h => ⟨_, _, _, hsplit, h⟩⟩
      obtain ⟨rfl, htail⟩ := List.cons.inj (hsplit.symm.trans hsplit')
      obtain ⟨rfl, -⟩ := List.cons.inj htail
      exact hthrow
    rw [hthrows, hset]
    cases hcast : lexicalCast text with
    | some x =>
        refine .inr (.inr ⟨hcolon, by simp, _, setOneLegValue_of_cast hcast, ?_⟩)
        exact map_key_writeFirst memberptr.instrument_set instruments (leg, x)
    | none =>
        rw [setOneLegValue_of_none hcast]
        by_cases hleg : leg ∈ instruments.map memberptr.instrument
        · exact .inr (.inl ⟨hcolon, ⟨hleg, rfl⟩, if_pos hleg⟩)
        · exact .inr (.inr ⟨hcolon, fun h => hleg h.1, instruments, if_neg hleg, rfl⟩)
  · exact .inl ⟨hcolon, by rw [setLeg, List.splitOn_eq_singleton hcolon]⟩

theorem reads_iff (parts : List Str) :
    parts.foldlM (setLeg lexicalCast memberptr) instruments ≠ .error .noField ↔
      ∀ before part after, parts = before ++ part :: after → ':' ∉ part →
        ∃ bad ∈ before, Throws lexicalCast memberptr instruments bad := by
  induction parts generalizing instruments with
  | nil => simp [pure, Except.pure]
  | cons first parts ih =>
      rw [List.foldlM_cons]
      rcases @setLeg_cases _ _ lexicalCast memberptr instruments first with
        ⟨hcolon, hset⟩ | ⟨hcolon, hthrows, hset⟩ | ⟨hcolon, hthrows, next, hset, hnames⟩
      · rw [hset]
        refine iff_of_false (fun h => h rfl) fun h => ?_
        obtain ⟨bad, hbad, -⟩ := h [] first parts rfl hcolon
        cases hbad
      · rw [hset]
        refine iff_of_true (by simp [bind, Except.bind]) fun before part after heq hpart => ?_
        cases before with
        | nil => exact absurd ((List.cons.inj heq).1 ▸ hcolon) hpart
        | cons bad before =>
            exact ⟨bad, List.mem_cons_self, (List.cons.inj heq).1 ▸ hthrows⟩
      · have hthrows' : ∀ bad, Throws lexicalCast memberptr next bad ↔
            Throws lexicalCast memberptr instruments bad := fun bad => by
          rw [Throws, Throws, hnames]
        rw [hset]
        change parts.foldlM (setLeg lexicalCast memberptr) next ≠ .error .noField ↔ _
        rw [ih]
        simp only [hthrows']
        constructor
        · intro h before part after heq hpart
          cases before with
          | nil => exact absurd ((List.cons.inj heq).1 ▸ hcolon) hpart
          | cons _ before =>
              obtain ⟨bad, hbad, hthrow⟩ := h before part after (List.cons.inj heq).2 hpart
              exact ⟨bad, List.mem_cons_of_mem _ hbad, hthrow⟩
        · intro h before part after heq hpart
          obtain ⟨bad, hbad, hthrow⟩ := h (first :: before) part after (by rw [heq]; rfl) hpart
          rcases List.mem_cons.mp hbad with rfl | hbad
          · exact absurd hthrow hthrows
          · exact ⟨bad, hbad, hthrow⟩

theorem foldlM_setLeg_of_isWrite {parts : List Str} {writes : List (Str × ValueType)}
    (h : List.Forall₂ (IsWrite lexicalCast) parts writes) :
    parts.foldlM (setLeg lexicalCast memberptr) instruments =
      .ok (writes.foldl (writeFirst memberptr.instrument memberptr.set) instruments) := by
  induction h generalizing instruments with
  | nil => rfl
  | @cons part write parts writes hwrite _ ih =>
      obtain ⟨text, rfl, -, hleg, htext, hcast⟩ := hwrite
      have hset : setLeg lexicalCast memberptr instruments (write.1 ++ ':' :: text) =
          .ok (writeFirst memberptr.instrument memberptr.set instruments write) := by
        rw [setLeg, List.splitOn_append_cons_self_of_not_mem hleg, List.splitOn_eq_singleton htext]
        exact setOneLegValue_of_cast hcast
      rw [List.foldlM_cons, hset, List.foldl_cons, ← ih]
      rfl

theorem not_mem_of_isWrite {parts : List Str} {writes : List (Str × ValueType)}
    (h : List.Forall₂ (IsWrite lexicalCast) parts writes) : ∀ part ∈ parts, '#' ∉ part := by
  induction h with
  | nil => simp
  | cons hwrite _ ih =>
      obtain ⟨text, -, hhash, -⟩ := hwrite
      exact List.forall_mem_cons.mpr ⟨hhash, ih⟩

theorem Assigns.setLegValue_eq {value : Str} {writes : List (Str × ValueType)}
    (h : Assigns lexicalCast value writes) :
    setLegValue lexicalCast memberptr instruments value =
      .ok (writes.foldl (writeFirst memberptr.instrument memberptr.set) instruments) := by
  obtain ⟨parts, hne, rfl, hwrites⟩ := h.parts
  rw [setLegValue, List.splitOn_intercalate '#' (not_mem_of_isWrite hwrites) hne]
  exact foldlM_setLeg_of_isWrite hwrites

theorem Member.set_eq_self_iff {x : ValueType} {p : InstrumentType} :
    memberptr.set x p = p ↔ memberptr.get p = x := by
  constructor
  · intro hset
    rw [← hset, memberptr.get_set]
  · rintro rfl
    exact memberptr.set_get p

/-- All instruments that are named are set, and they only, just if no name stands for several
instruments of which a later one has another value. -/
theorem sets_iff {value : Str} :
    (∀ writes, Assigns lexicalCast value writes →
      setLegValue lexicalCast memberptr instruments value =
        .ok (instruments.map (assigned memberptr.instrument memberptr.set writes))) ↔
      NamedOnce lexicalCast memberptr instruments value := by
  refine forall_congr' fun writes => forall_congr' fun h => ?_
  rw [h.setLegValue_eq, Except.ok.injEq,
    foldl_writeFirst_eq_map_iff memberptr.instrument_set h.distinct]
  simp only [assigned_eq_self_iff h.distinct, Member.set_eq_self_iff]

end Reading

/-- For each of the six properties, no field is read that the text does not have if and only if
each part has a colon, and the text sets what it names just if its names are unambiguous. -/
theorem setsLegs_iff (lexicalCast : Str → Option ℚ) (property : LegProperty)
    (instruments : List NamedInstrument) (propValue : Str) :
    SetsLegs lexicalCast property.member instruments propValue
        (onProp lexicalCast instruments property.propName propValue) ↔
      HasColons lexicalCast property.member instruments propValue ∧
        NamedOnce lexicalCast property.member instruments propValue := by
  rw [onProp_propName, HasColons, ← reads_iff, ← sets_iff]
  exact ⟨fun h => ⟨h.reads, h.sets⟩, fun h => ⟨h.1, h.2⟩⟩

/-- The line `ppl=1` of the sample configuration gives a value without a leg. -/
theorem not_setsLegs_ppl :
    ¬ SetsLegs (fun text => (lexicalCastInt text).map Int.cast) LegProperty.ppl.member
      (newInstruments [['a', 'g']]) ['1']
      (onProp (fun text => (lexicalCastInt text).map Int.cast) (newInstruments [['a', 'g']])
        ['p', 'p', 'l'] ['1']) :=
  fun h => h.reads rfl

end BluesTrading.LegProperties
