import BluesTrading.ConfigSpace
import BluesTrading.RequestDispatch

namespace BluesTrading.ConfigChoice

open BluesTrading.ConfigSpace
open BluesTrading.Foundations
open BluesTrading.RequestDispatch
open BluesTrading.SourceText

/-! ### The request -/

structure DataSrcInfo where
  instruments : List Str
  startDate : ℕ
  endDate : ℕ
  datasrcType : ℕ
  datasrcInfo : List Str
  deriving DecidableEq

def finds (s text : Str) : Bool := decide (text <:+: s)

def dataSrcPart : Str := "DataSrc_".toList

def readDataSrc (currentDataSrc : DataSrcInfo) (each_pair : Str × Str) : DataSrcInfo :=
  let (key_value, value) := each_pair
  if finds key_value dataSrcPart then
    let subkey := key_value.drop dataSrcPart.length
    if finds subkey "Instruments".toList then
      { currentDataSrc with instruments := value.splitOn '#' }
    else if finds subkey "StartDate".toList then
      { currentDataSrc with startDate := castUInt32 (atoi value) }
    else if finds subkey "EndDate".toList then
      { currentDataSrc with endDate := castUInt32 (atoi value) }
    else if finds subkey "Type".toList then
      { currentDataSrc with datasrcType := castUInt32 (atoi value) }
    else if finds subkey "Info".toList then
      { currentDataSrc with datasrcInfo := value.splitOn '#' }
    else currentDataSrc
  else currentDataSrc

/-- What `*config.begin()` gives is not defined if there is no configuration.  The numbers of the
data source are not initialised. -/
def getDataSrcInfo (startDate endDate datasrcType : ℕ) (config : List Config) :
    Option (List DataSrcInfo) :=
  config.head?.map fun first =>
    let currentDataSrc :=
      first.entries.foldl readDataSrc ⟨[], startDate, endDate, datasrcType, []⟩
    if currentDataSrc.instruments.length > 0 then [currentDataSrc] else []

def DataSrcInfo.message (each : DataSrcInfo) : DataSrc where
  instrument := each.instruments
  startDate := each.startDate
  endDate := each.endDate
  datasrcType := each.datasrcType
  datasrcInfo := each.datasrcInfo

def configMessage (config : Config) : StrategyConfig :=
  ⟨config.entries.filter fun each_pair => !finds each_pair.1 dataSrcPart⟩

/-- The request for what the files have; there is none if the data source is not defined. -/
def createTestRequest {V : Type} (type : ValueType V) (fuel startDate endDate datasrcType : ℕ)
    (dllbytes configText : Str) : Except ParseError (Option TestRequest) :=
  (parserProps type fuel configText).map fun allconfig =>
    (getDataSrcInfo startDate endDate datasrcType allconfig).map fun datasrcInfo =>
      { dllFile := dllbytes
        configSpace := allconfig.map configMessage
        datasrc := datasrcInfo.map DataSrcInfo.message }

/-! ### The numbers of values that a text declares -/

section Counts

variable {V : Type} (type : ValueType V)

inductive Turns (stop step : V) : V → ℕ → Prop
  | stop (value : V) : type.leEnd value stop = false → Turns stop step value 0
  | next (value next : V) (n : ℕ) : type.leEnd value stop = true →
      type.add value step = some next → Turns stop step next n → Turns stop step value (n + 1)

/-- The number of values of a range. -/
def RangeCount (start stop step : Str) (n : ℕ) : Prop :=
  ∃ startValue endValue stepValue, type.lexicalCast start = some startValue ∧
    type.lexicalCast stop = some endValue ∧ type.lexicalCast step = some stepValue ∧
    Turns type endValue stepValue startValue n

/-- The number of values that the right-hand side of a line declares. -/
def HasCount (prop_value : Str) (n : ℕ) : Prop :=
  if prop_value.head? = some '\x5b' then
    ∃ start stop step,
      splitCompress isSeparator (trimIf isBracket prop_value) = [start, stop, step] ∧
        if isInt start && isInt stop && isInt step then RangeCount intType start stop step n
        else RangeCount type start stop step n
  else if prop_value.head? = some '\x7b' then
    n = (trimIf isBracket prop_value).countP isSeparator + 1
  else n = 1

def property? (line : Str) : Option (Str × Str) :=
  if skipsLine line then none
  else
    match line.splitOnP (· == '=') with
    | [name, value] => some (trim name, trim value)
    | _ => none

def declare (properties : OrderedMap Str Str) (line : Str) : OrderedMap Str Str :=
  match property? line with
  | some each => properties.insert each.1 each.2
  | none => properties

/-- The properties of a text, each with the right-hand side of its last line. -/
def declared (configText : Str) : OrderedMap Str Str :=
  (lines configText).foldl declare OrderedMap.empty

/-- The numbers of values do not multiply to a multiple of 2^32, and so none of them is zero. -/
def HasCombination (configText : Str) : Prop :=
  ∃ count : Str → ℕ,
    (∀ each ∈ (declared configText).entries, HasCount type each.2 (count each.1)) ∧
      ¬ 2 ^ 32 ∣ ((declared configText).keys.map count).prod

end Counts

section Lengths

variable {V : Type} {type : ValueType V} {fuel : ℕ}

theorem length_splitOnP (p : Char → Bool) (s : Str) :
    (s.splitOnP p).length = s.countP p + 1 := by
  induction s with
  | nil => rfl
  | cons c s ih =>
      rw [List.splitOnP_cons_eq_if_modifyHead, List.countP_cons]
      split_ifs with hc
      · rw [List.length_cons, ih]
      · rw [List.length_modifyHead, ih]

theorem turns_of_parseSetLoop {stop step value : V} {values : List Str}
    (h : parseSetLoop type stop step fuel value = .ok values) :
    Turns type stop step value values.length := by
  induction fuel generalizing value values with
  | zero => cases h
  | succ fuel ih =>
      rw [parseSetLoop] at h
      split_ifs at h with hend
      · cases hnext : type.add value step with
        | none =>
            rw [hnext] at h
            cases h
        | some next =>
            simp only [hnext] at h
            obtain ⟨rest, hrest, rfl⟩ := map_eq_ok_iff.mp h
            exact .next value next rest.length hend hnext (ih hrest)
      · obtain rfl := Except.ok.inj h
        exact .stop value (by simpa using hend)

theorem turns_unique {stop step value : V} {m n : ℕ} (hm : Turns type stop step value m)
    (hn : Turns type stop step value n) : m = n := by
  induction hm generalizing n with
  | stop value hend =>
      cases hn with
      | stop => rfl
      | next _ _ _ hend' => cases hend.symm.trans hend'
  | next value next m hend hadd _ ih =>
      cases hn with
      | stop _ hend' => cases hend.symm.trans hend'
      | next _ next' n _ hadd' hrest =>
          obtain rfl := Option.some.inj (hadd.symm.trans hadd')
          rw [ih hrest]

theorem lexicalCast_eq_some {s : Str} {value : V} (h : lexicalCast type s = .ok value) :
    type.lexicalCast s = some value := by
  rw [lexicalCast] at h
  split at h
  next hcast => exact hcast.trans (congrArg some (Except.ok.inj h))
  next => cases h

theorem rangeCount_of_parseSet {start stop step : Str} {values : List Str}
    (h : parseSet type fuel start stop step = .ok values) :
    RangeCount type start stop step values.length := by
  obtain ⟨startValue, hstart, h⟩ := bind_eq_ok_iff.mp h
  obtain ⟨endValue, hstop, h⟩ := bind_eq_ok_iff.mp h
  obtain ⟨stepValue, hstep, h⟩ := bind_eq_ok_iff.mp h
  exact ⟨startValue, endValue, stepValue, lexicalCast_eq_some hstart, lexicalCast_eq_some hstop,
    lexicalCast_eq_some hstep, turns_of_parseSetLoop h⟩

theorem rangeCount_unique {start stop step : Str} {m n : ℕ}
    (hm : RangeCount type start stop step m) (hn : RangeCount type start stop step n) : m = n := by
  obtain ⟨startValue, endValue, stepValue, hstart, hstop, hstep, hm⟩ := hm
  obtain ⟨startValue', endValue', stepValue', hstart', hstop', hstep', hn⟩ := hn
  obtain rfl := Option.some.inj (hstart.symm.trans hstart')
  obtain rfl := Option.some.inj (hstop.symm.trans hstop')
  obtain rfl := Option.some.inj (hstep.symm.trans hstep')
  exact turns_unique hm hn

/-- A right-hand side gives as many values as it declares. -/
theorem hasCount_of_parseValues {prop_name prop_value : Str} {values : List Str}
    (h : parseValues type fuel prop_name prop_value = .ok values) :
    HasCount type prop_value values.length := by
  rw [parseValues] at h
  rw [HasCount]
  split_ifs at h ⊢
  · rw [parseRange] at h
    split at h
    next start stop step hsplit =>
      refine ⟨start, stop, step, hsplit, ?_⟩
      split_ifs at h ⊢
      · exact rangeCount_of_parseSet h
      · exact rangeCount_of_parseSet h
    next => cases h
  · rw [← Except.ok.inj h, length_splitOnP]
  · rw [← Except.ok.inj h, List.length_singleton]

theorem hasCount_unique {prop_value : Str} {m n : ℕ} (hm : HasCount type prop_value m)
    (hn : HasCount type prop_value n) : m = n := by
  rw [HasCount] at hm hn
  split_ifs at hm hn
  · obtain ⟨start, stop, step, hsplit, hm⟩ := hm
    obtain ⟨start', stop', step', hsplit', hn⟩ := hn
    rw [hsplit, List.cons.injEq, List.cons.injEq, List.cons.injEq] at hsplit'
    obtain ⟨rfl, rfl, rfl, -⟩ := hsplit'
    split_ifs at hm hn
    · exact rangeCount_unique hm hn
    · exact rangeCount_unique hm hn
  · exact hm.trans hn.symm
  · exact hm.trans hn.symm

end Lengths

section Space

variable {V : Type} {type : ValueType V} {fuel : ℕ}

structure Declares (type : ValueType V) (properties : OrderedMap Str Str)
    (space : OrderedMap Str (List Str)) : Prop where
  names : space.mapValues (fun _ _ => ()) = properties.mapValues fun _ _ => ()
  count : ∀ name value values, properties.find? name = some value →
    space.find? name = some values → HasCount type value values.length

theorem parseLine_eq (space : OrderedMap Str (List Str)) (line : Str) :
    parseLine type fuel space line =
      match property? line with
      | some each => (parseValues type fuel each.1 each.2).map (space.insert each.1)
      | none => .ok space := by
  rw [parseLine, property?]
  split_ifs
  · rfl
  · generalize line.splitOnP (· == '=') = fields
    rcases fields with _ | ⟨name, _ | ⟨value, _ | ⟨other, fields⟩⟩⟩
    all_goals rfl

theorem Declares.parseLine {properties : OrderedMap Str Str}
    {space space' : OrderedMap Str (List Str)} {line : Str} (h : Declares type properties space)
    (hline : parseLine type fuel space line = .ok space') :
    Declares type (declare properties line) space' := by
  rw [parseLine_eq] at hline
  rw [declare]
  cases hproperty : property? line with
  | none =>
      rw [hproperty] at hline
      exact Except.ok.inj hline ▸ h
  | some each =>
      rw [hproperty] at hline
      obtain ⟨values, hvalues, rfl⟩ := map_eq_ok_iff.mp hline
      refine ⟨?_, fun name' value' values' hvalue' hvalues' => ?_⟩
      · rw [OrderedMap.mapValues_insert, OrderedMap.mapValues_insert, h.names]
      · rw [OrderedMap.find?_insert] at hvalue' hvalues'
        split_ifs at hvalue' hvalues'
        · obtain rfl := Option.some.inj hvalue'
          obtain rfl := Option.some.inj hvalues'
          exact hasCount_of_parseValues hvalues
        · exact h.count name' value' values' hvalue' hvalues'

theorem declares_declared {configText : Str} {space : OrderedMap Str (List Str)}
    (h : parserPropsSpace type fuel configText = .ok space) :
    Declares type (declared configText) space := by
  have hfold : ∀ (text : List Str) (properties : OrderedMap Str Str)
      (start : OrderedMap Str (List Str)), Declares type properties start →
        text.foldlM (ConfigSpace.parseLine type fuel) start = .ok space →
          Declares type (text.foldl declare properties) space := by
    intro text
    induction text with
    | nil => exact fun properties start hstart hrun => Except.ok.inj hrun ▸ hstart
    | cons line text ih =>
        intro properties start hstart hrun
        rw [List.foldlM_cons] at hrun
        obtain ⟨next, hline, hrest⟩ := bind_eq_ok_iff.mp hrun
        exact ih _ next (hstart.parseLine hline) hrest
  refine hfold (lines configText) OrderedMap.empty OrderedMap.empty ⟨rfl, ?_⟩ h
  intro name value values hvalue
  cases hvalue

theorem totalSpace_eq (space : OrderedMap Str (List Str)) :
    totalSpace space = (sizes space).prod % 2 ^ 32 := by
  have hfold : ∀ (entries : List (Str × List Str)) (total : ℕ), total < 2 ^ 32 →
      entries.foldl (fun total pair => total * pair.2.length % 2 ^ 32) total =
        total * (entries.map fun pair => pair.2.length).prod % 2 ^ 32 := by
    intro entries
    induction entries with
    | nil =>
        intro total hlt
        rw [List.foldl_nil, List.map_nil, List.prod_nil, Nat.mul_one, Nat.mod_eq_of_lt hlt]
    | cons pair entries ih =>
        intro total hlt
        rw [List.foldl_cons, ih _ (Nat.mod_lt _ (by norm_num)), List.map_cons, List.prod_cons,
          Nat.mod_mul_mod, Nat.mul_assoc]
  rw [totalSpace, hfold _ _ (by norm_num), Nat.one_mul, sizes, OrderedMap.values, List.map_map]
  rfl

theorem length_expand (space : OrderedMap Str (List Str)) :
    (expand space).length = totalSpace space := by
  have hfold : ∀ (entries : List (Str × List Str)) (ret : List Config),
      (entries.foldl fillProp ret).length = ret.length := by
    intro entries
    induction entries with
    | nil => exact fun ret => rfl
    | cons pair entries ih =>
        intro ret
        rw [List.foldl_cons, ih, fillProp, List.length_mapIdx]
  rw [expand, hfold, List.length_replicate]

theorem Declares.keys_eq {properties : OrderedMap Str Str} {space : OrderedMap Str (List Str)}
    (h : Declares type properties space) : space.keys = properties.keys := by
  have hkeys := congrArg OrderedMap.keys h.names
  simp only [OrderedMap.keys, OrderedMap.mapValues, List.map_map] at hkeys
  exact hkeys

theorem Declares.sizes_eq {properties : OrderedMap Str Str} {space : OrderedMap Str (List Str)}
    (h : Declares type properties space) {count : Str → ℕ}
    (hcount : ∀ each ∈ properties.entries, HasCount type each.2 (count each.1)) :
    properties.keys.map count = sizes space := by
  rw [← h.keys_eq, OrderedMap.keys, sizes, OrderedMap.values, List.map_map, List.map_map]
  refine List.map_congr_left fun entry hentry => ?_
  obtain ⟨name, values⟩ := entry
  have hname : name ∈ properties.keys := h.keys_eq ▸ List.mem_map_of_mem hentry
  obtain ⟨⟨_, value⟩, hvalue, rfl⟩ := List.mem_map.mp hname
  exact hasCount_unique (hcount _ hvalue) (h.count _ value values
    ((properties.mem_entries_iff _ _).mp hvalue) ((space.mem_entries_iff _ _).mp hentry))

theorem hasCombination_iff {configText : Str} {space : OrderedMap Str (List Str)}
    (h : parserPropsSpace type fuel configText = .ok space) :
    HasCombination type configText ↔ ¬ 2 ^ 32 ∣ (sizes space).prod := by
  have hdeclares := declares_declared h
  constructor
  · rintro ⟨count, hcount, hprod⟩
    rwa [← hdeclares.sizes_eq hcount]
  · intro hprod
    let count : Str → ℕ := fun name => ((space.find? name).getD []).length
    have hcount : ∀ each ∈ (declared configText).entries,
        HasCount type each.2 (count each.1) := by
      intro each heach
      have hname : each.1 ∈ space.keys := hdeclares.keys_eq ▸ List.mem_map_of_mem heach
      obtain ⟨⟨name, values⟩, hvalues, hfst⟩ := List.mem_map.mp hname
      have hfind : space.find? each.1 = some values :=
        (space.mem_entries_iff _ _).mp (hfst ▸ hvalues)
      have hlength : count each.1 = values.length := by
        simp only [count, hfind, Option.getD_some]
      exact hlength ▸ hdeclares.count each.1 each.2 values
        (((declared configText).mem_entries_iff _ _).mp heach) hfind
    exact ⟨count, hcount, by rwa [hdeclares.sizes_eq hcount]⟩

end Space

/-- If the configurations are read, the data source is that of one of them just if the numbers of
values that the lines declare do not multiply to zero in 32 bits. -/
theorem createTestRequest_isSome_iff {V : Type} (type : ValueType V)
    (fuel startDate endDate datasrcType : ℕ) (dllbytes configText : Str) {allconfig : List Config}
    (h : parserProps type fuel configText = .ok allconfig) :
    (∃ request, createTestRequest type fuel startDate endDate datasrcType dllbytes configText =
        .ok (some request)) ↔ HasCombination type configText := by
  obtain ⟨space, hspace, rfl⟩ := map_eq_ok_iff.mp h
  have hsome : (∃ request, createTestRequest type fuel startDate endDate datasrcType dllbytes
      configText = .ok (some request)) ↔ expand space ≠ [] := by
    rw [createTestRequest, h]
    cases expand space with
    | nil => simp [Except.map, getDataSrcInfo]
    | cons config allconfig => simp [Except.map, getDataSrcInfo]
  have hlength : expand space = [] ↔ 2 ^ 32 ∣ (sizes space).prod := by
    rw [← List.length_eq_zero_iff, length_expand, totalSpace_eq, Nat.dvd_iff_mod_eq_zero]
  rw [hsome, hasCombination_iff hspace, ← hlength]

def rangeLine (start stop : Char) : Str := ['p', '=', '\x5b', start, ',', stop, ',', '1', '\x5d']

theorem createTestRequest_isSome_iff_pair :
    ∃ request, createTestRequest intType 9 0 0 0 [] (rangeLine '1' '2') = .ok (some request) := by
  have hspace : parserPropsSpace intType 9 (rangeLine '1' '2') =
      .ok (OrderedMap.empty.insert ['p'] [['1'], ['2']]) := rfl
  have hreturns : parserProps intType 9 (rangeLine '1' '2') =
      .ok (expand (OrderedMap.empty.insert ['p'] [['1'], ['2']])) := rfl
  refine (createTestRequest_isSome_iff intType 9 0 0 0 [] (rangeLine '1' '2') hreturns).mpr ?_
  rw [hasCombination_iff hspace]
  decide +kernel

/-- A range that starts after its end has no values, and leaves no configuration. -/
theorem not_createTestRequest_isSome :
    parserProps intType 1 (rangeLine '5' '1') = .ok [] ∧
      ¬ ∃ request,
        createTestRequest intType 1 0 0 0 [] (rangeLine '5' '1') = .ok (some request) := by
  have hnone : createTestRequest intType 1 0 0 0 [] (rangeLine '5' '1') = .ok none := rfl
  refine ⟨rfl, ?_⟩
  rintro ⟨request, hrequest⟩
  cases Except.ok.inj (hnone.symm.trans hrequest)

end BluesTrading.ConfigChoice
