import BluesTrading.SourceText
import BluesTrading.Foundations.CyclicSweep
import BluesTrading.Foundations.OrderedMap
import Mathlib.Data.Char
import Mathlib.Data.List.Lex

/-!
Strategy configurations.  A configuration text gives a list of values for every
property, and `parserProps` makes a list of configurations out of these by sweeping
all properties at once.
-/

namespace BluesTrading.ConfigSpace

open Foundations
open Foundations.CyclicSweep
open SourceText

/-- What `parse_set` needs of the type of its values. -/
structure ValueType (V : Type) where
  lexicalCast : Str → Option V
  toStr : V → Str
  /-- Whether a value is at most the end value, with a tolerance of a millionth. -/
  leEnd : V → V → Bool
  add : V → V → Option V

def intType : ValueType ℤ where
  lexicalCast := lexicalCastInt
  toStr := printInt
  leEnd := fun value endValue => value ≤ endValue
  add := fun a b => if isInt32 (a + b) then some (a + b) else none

inductive ParseError
  | stepPara (message : Str)
  | badLexicalCast
  | overflow
  | outOfFuel
  deriving DecidableEq

def stepParaMessage (prop_name prop_value : Str) (size : ℕ) : Str :=
  "ERROR Step Para Error ".toList ++ prop_name ++ "  ".toList ++ prop_value ++ ' ' :: digits size

section Parser

variable {V : Type} (type : ValueType V)

def lexicalCast (s : Str) : Except ParseError V :=
  match type.lexicalCast s with
  | some value => .ok value
  | none => .error .badLexicalCast

/-- The loop of `parse_set`; a step of zero never ends. -/
def parseSetLoop (endValue stepValue : V) : ℕ → V → Except ParseError (List Str)
  | 0, _ => .error .outOfFuel
  | fuel + 1, value =>
      if type.leEnd value endValue then
        match type.add value stepValue with
        | some next => (parseSetLoop endValue stepValue fuel next).map (type.toStr value :: ·)
        | none => .error .overflow
      else .ok []

def parseSet (fuel : ℕ) (startValueStr endValueStr stepValueStr : Str) :
    Except ParseError (List Str) := do
  let startIntValue ← lexicalCast type startValueStr
  let endIntValue ← lexicalCast type endValueStr
  let stepValue ← lexicalCast type stepValueStr
  parseSetLoop type endIntValue stepValue fuel startIntValue

def isBracket (c : Char) : Bool := c ∈ ['\x5b', '\x5d', '\x7b', '\x7d']

def isSeparator (c : Char) : Bool := c ∈ [',', ':', ' ']

def isInt (value : Str) : Bool := '.' ∉ value

/-- A range with a start, an end and a step.  Anything but these three fails an
assertion. -/
def parseRange (fuel : ℕ) (prop_name prop_value : Str) : Except ParseError (List Str) :=
  match splitCompress isSeparator prop_value with
  | [startValue, endValue, stepValue] =>
      if isInt startValue && isInt endValue && isInt stepValue then
        parseSet intType fuel startValue endValue stepValue
      else parseSet type fuel startValue endValue stepValue
  | para_step_vec =>
      .error (.stepPara (stepParaMessage prop_name prop_value para_step_vec.length))

/-- The values that a property can take: a range, a set or a single value. -/
def parseValues (fuel : ℕ) (prop_name prop_value : Str) : Except ParseError (List Str) :=
  if prop_value.head? = some '\x5b' then
    parseRange type fuel prop_name (trimIf isBracket prop_value)
  else if prop_value.head? = some '\x7b' then
    .ok ((trimIf isBracket prop_value).splitOnP isSeparator)
  else .ok [prop_value]

def skipsLine (line : Str) : Bool :=
  decide (line.length < 3) || line.head? == some '#' || line.take 2 == ['/', '/'] ||
    decide ('=' ∉ line)

/-- One line of the text.  A property that comes again replaces its values. -/
def parseLine (fuel : ℕ) (space : OrderedMap Str (List Str)) (line : Str) :
    Except ParseError (OrderedMap Str (List Str)) :=
  if skipsLine line then .ok space
  else
    match line.splitOnP (· == '=') with
    | [name, value] =>
        (parseValues type fuel (trim name) (trim value)).map fun prop_values =>
          space.insert (trim name) prop_values
    | _ => .ok space

def parserPropsSpace (fuel : ℕ) (inputStr : Str) :
    Except ParseError (OrderedMap Str (List Str)) :=
  (lines inputStr).foldlM (parseLine type fuel) OrderedMap.empty

end Parser

section Fuel

variable {V : Type} {type : ValueType V} {fuel fuel' : ℕ}

theorem map_eq_ok_iff {α β : Type} {f : α → β} {x : Except ParseError α} {b : β} :
    x.map f = .ok b ↔ ∃ a, x = .ok a ∧ f a = b := by
  cases x with
  | error => simp [Except.map]
  | ok a => simp [Except.map]

theorem bind_eq_ok_iff {α β : Type} {x : Except ParseError α} {f : α → Except ParseError β}
    {b : β} :
    x >>= f = .ok b ↔ ∃ a, x = .ok a ∧ f a = .ok b := by
  cases x with
  | error => simp [bind, Except.bind]
  | ok a => simp [bind, Except.bind]

theorem map_of_ok {α β : Type} {f : α → β} {x y : Except ParseError α} {b : β}
    (hxy : ∀ a, x = .ok a → y = .ok a) (h : x.map f = .ok b) : y.map f = .ok b := by
  obtain ⟨a, hx, hf⟩ := map_eq_ok_iff.mp h
  exact map_eq_ok_iff.mpr ⟨a, hxy a hx, hf⟩

theorem bind_of_ok {α β : Type} {f g : α → Except ParseError β} {x y : Except ParseError α}
    {b : β} (hxy : ∀ a, x = .ok a → y = .ok a) (hfg : ∀ a, f a = .ok b → g a = .ok b)
    (h : x >>= f = .ok b) : y >>= g = .ok b := by
  obtain ⟨a, hx, hf⟩ := bind_eq_ok_iff.mp h
  exact bind_eq_ok_iff.mpr ⟨a, hxy a hx, hfg a hf⟩

theorem parseSetLoop_of_le (hle : fuel ≤ fuel') {endValue stepValue value : V} {values : List Str}
    (h : parseSetLoop type endValue stepValue fuel value = .ok values) :
    parseSetLoop type endValue stepValue fuel' value = .ok values := by
  induction fuel generalizing fuel' value values with
  | zero => cases h
  | succ fuel ih =>
      obtain ⟨fuel', rfl⟩ := Nat.exists_eq_add_of_lt hle
      rw [parseSetLoop] at h ⊢
      split_ifs at h ⊢ with hend
      · cases hnext : type.add value stepValue with
        | none =>
            rw [hnext] at h
            cases h
        | some next =>
            simp only [hnext] at h ⊢
            exact map_of_ok (fun _ => ih (by omega)) h
      · exact h

theorem parseSet_of_le (hle : fuel ≤ fuel') {startValue endValue stepValue : Str}
    {values : List Str} (h : parseSet type fuel startValue endValue stepValue = .ok values) :
    parseSet type fuel' startValue endValue stepValue = .ok values :=
  bind_of_ok (fun _ => id) (fun _ => bind_of_ok (fun _ => id) fun _ =>
    bind_of_ok (fun _ => id) fun _ => parseSetLoop_of_le hle) h

theorem parseRange_of_le (hle : fuel ≤ fuel') {prop_name prop_value : Str} {values : List Str}
    (h : parseRange type fuel prop_name prop_value = .ok values) :
    parseRange type fuel' prop_name prop_value = .ok values := by
  unfold parseRange at h ⊢
  split at h
  · split_ifs at h ⊢
    · exact parseSet_of_le hle h
    · exact parseSet_of_le hle h
  · cases h

theorem parseValues_of_le (hle : fuel ≤ fuel') {prop_name prop_value : Str} {values : List Str}
    (h : parseValues type fuel prop_name prop_value = .ok values) :
    parseValues type fuel' prop_name prop_value = .ok values := by
  unfold parseValues at h ⊢
  split_ifs at h ⊢
  · exact parseRange_of_le hle h
  · exact h
  · exact h

theorem parseLine_of_le (hle : fuel ≤ fuel') {space space' : OrderedMap Str (List Str)}
    {line : Str} (h : parseLine type fuel space line = .ok space') :
    parseLine type fuel' space line = .ok space' := by
  unfold parseLine at h ⊢
  split_ifs at h ⊢
  · exact h
  · split at h
    · exact map_of_ok (fun _ => parseValues_of_le hle) h
    · exact h

/-- A space that is found with some fuel is found with any larger one. -/
theorem parserPropsSpace_of_le (hle : fuel ≤ fuel') {inputStr : Str}
    {space : OrderedMap Str (List Str)} (h : parserPropsSpace type fuel inputStr = .ok space) :
    parserPropsSpace type fuel' inputStr = .ok space := by
  unfold parserPropsSpace at h ⊢
  generalize lines inputStr = text at h ⊢
  generalize (OrderedMap.empty : OrderedMap Str (List Str)) = start at h ⊢
  induction text generalizing start with
  | nil => exact h
  | cons line text ih =>
      rw [List.foldlM_cons] at h ⊢
      exact bind_of_ok (fun _ => parseLine_of_le hle) (fun next => ih next) h

end Fuel

abbrev Config := OrderedMap Str Str

def totalSpace (space : OrderedMap Str (List Str)) : ℕ :=
  space.entries.foldl (fun total pair => total * pair.2.length % 2 ^ 32) 1

/-- Give a property its value in every configuration: the first value in the first one,
and so on round the values. -/
def fillProp (ret : List Config) (pair : Str × List Str) : List Config :=
  ret.mapIdx fun i config => config.insert pair.1 (pair.2.getD (i % pair.2.length) [])

def expand (space : OrderedMap Str (List Str)) : List Config :=
  space.entries.foldl fillProp (List.replicate (totalSpace space) OrderedMap.empty)

def parserProps {V : Type} (type : ValueType V) (fuel : ℕ) (inputStr : Str) :
    Except ParseError (List Config) :=
  (parserPropsSpace type fuel inputStr).map expand

/-! ### The product of a space -/

def sizes (space : OrderedMap Str (List Str)) : List ℕ := space.values.map List.length

def assign : List (Str × List Str) → List ℕ → Config → Config
  | pair :: entries, position :: choice, config =>
      assign entries choice (config.insert pair.1 (pair.2.getD position []))
  | _, _, config => config

def select (space : OrderedMap Str (List Str)) (choice : List ℕ) : Config :=
  assign space.entries choice OrderedMap.empty

/-- The configurations of all choices of one position for every property. -/
def cartesianProduct (space : OrderedMap Str (List Str)) : List Config :=
  (choices (sizes space)).map (select space)

end BluesTrading.ConfigSpace
