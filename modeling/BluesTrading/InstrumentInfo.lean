import BluesTrading.SourceText

namespace BluesTrading.InstrumentInfo

open SourceText

/-- The chain of name tests of `getInstrumentIndex`, in source order. -/
def instrumentIndexTable : List (Str × ℕ) :=
  [(['a'], 10200000), (['a', 'g'], 5200000), (['a', 'l'], 5210000), (['a', 'u'], 5220000),
    (['b', 'u'], 5230000), (['c'], 10230000), (['C', 'F'], 15200000), (['c', 's'], 10340000),
    (['c', 'u'], 5240000), (['F', 'G'], 15210000), (['h', 'c'], 5310000), (['i'], 10250000),
    (['j'], 10260000), (['j', 'd'], 10270000), (['j', 'm'], 10280000), (['l'], 10290000),
    (['m'], 10300000), (['M', 'A'], 15240000), (['n', 'i'], 5320000), (['p'], 10310000),
    (['p', 'p'], 10350000), (['r', 'b'], 5270000), (['R', 'M'], 15280000), (['r', 'u'], 5280000),
    (['S', 'R'], 15320000), (['T', 'A'], 15330000), (['y'], 10330000), (['z', 'n'], 5300000)]

/-- Every name outside the table gets index 0. -/
def getInstrumentIndex (instrument : Str) : ℕ :=
  (instrumentIndexTable.lookup instrument).getD 0

def getInstrumentUnitMultiplier (inst : ℕ) : ℕ :=
  if inst = 5320000 then 1
  else if inst ∈ [10350000, 10290000, 5210000, 15200000, 5240000, 15330000, 5300000] then 5
  else if inst ∈ [10330000, 5310000, 10340000, 10230000, 5230000, 10200000, 10300000, 15240000,
      10270000, 10310000, 5270000, 15320000, 15280000, 5280000] then 10
  else if inst = 5200000 then 15
  else if inst = 15210000 then 20
  else if inst = 10280000 then 60
  else if inst = 10250000 then 100
  else 100

def instrumentTickSizeTable : List (ℕ × ℚ) :=
  [(10200000, 1), (5200000, 1), (5210000, 5), (5220000, 1 / 20), (5230000, 2), (10230000, 1),
    (15200000, 5), (10340000, 1), (5240000, 10), (15210000, 1), (5310000, 2), (10250000, 1 / 2),
    (10260000, 1 / 2), (10270000, 1), (10280000, 1 / 2), (10290000, 5), (10300000, 1),
    (15240000, 1), (5320000, 10), (10310000, 2), (10350000, 1), (5270000, 1), (15280000, 1),
    (5280000, 5), (15320000, 1), (15330000, 2), (10330000, 2), (5300000, 5)]

def getInstrumentTickSize (inst : ℕ) : ℚ := (instrumentTickSizeTable.lookup inst).getD (1 / 100)

end BluesTrading.InstrumentInfo
