import Mathlib

namespace BluesTrading.SourceText

abbrev Str := List Char

def isSpace (c : Char) : Bool := c.toNat ∈ [9, 10, 11, 12, 13, 32]

def trimIf (p : Char → Bool) (s : Str) : Str := (s.dropWhile p).rdropWhile p

def trim (s : Str) : Str := trimIf isSpace s

/-- Keep the last one of adjacent separators. -/
def compress (p : Char → Bool) : Str → Str
  | [] => []
  | c :: rest => if p c && rest.head?.any p then compress p rest else c :: compress p rest

def splitCompress (p : Char → Bool) (s : Str) : List Str := (compress p s).splitOnP p

/-- The lines that are read one by one; there is none after a final line feed. -/
def lines (s : Str) : List Str :=
  let parts := s.splitOnP fun c => c.toNat == 10
  if parts.getLast? = some [] then parts.dropLast else parts

def digits (n : ℕ) : Str := Nat.toDigits 10 n

def printInt (n : ℤ) : Str := if n < 0 then '-' :: digits n.natAbs else digits n.natAbs

def digitsValue (s : Str) : ℕ := s.foldl (fun n c => n * 10 + (c.toNat - '0'.toNat)) 0

def splitSign : Str → Bool × Str
  | '-' :: s => (true, s)
  | '+' :: s => (false, s)
  | s => (false, s)

/-- The value of the leading digits after spaces and a sign, zero without any. -/
def atoi (s : Str) : ℤ :=
  let (negative, s) := splitSign (s.dropWhile isSpace)
  let n := digitsValue (s.takeWhile Char.isDigit)
  if negative then -(n : ℤ) else n

/-- The conversions to the fixed-width integers; signed arithmetic wraps as well. -/
def castUInt32 (n : ℤ) : ℕ := (n % 2 ^ 32).toNat

def castUInt64 (n : ℤ) : ℕ := (n % 2 ^ 64).toNat

def castInt32 (n : ℤ) : ℤ := n.bmod (2 ^ 32)

/-- The digits after a decimal point, and what follows them. -/
def splitFraction : Str → Str × Str
  | '.' :: s => (s.takeWhile Char.isDigit, s.dropWhile Char.isDigit)
  | s => ([], s)

def exponent : Str → ℤ
  | 'e' :: s | 'E' :: s =>
      let (negative, s) := splitSign s
      let n := digitsValue (s.takeWhile Char.isDigit)
      if negative then -(n : ℤ) else n
  | _ => 0

/-- The decimal number at the beginning of a text, exactly, and zero without digits.  Infinity,
NaN and hexadecimal numbers are not read. -/
def atof (s : Str) : ℚ :=
  let (negative, s) := splitSign (s.dropWhile isSpace)
  let whole := s.takeWhile Char.isDigit
  let (fraction, rest) := splitFraction (s.dropWhile Char.isDigit)
  let shift := if whole = [] ∧ fraction = [] then 0 else exponent rest - fraction.length
  let x := (digitsValue (whole ++ fraction) : ℚ) * 10 ^ shift
  if negative then -x else x

def isInt32 (n : ℤ) : Bool := -2 ^ 31 ≤ n && n < 2 ^ 31

/-- Nothing but a sign and digits is an integer, and only if it is not too large. -/
def lexicalCastInt (s : Str) : Option ℤ :=
  let (negative, s) := splitSign s
  let n : ℤ := if negative then -(digitsValue s : ℤ) else digitsValue s
  if s ≠ [] ∧ s.all Char.isDigit ∧ isInt32 n then some n else none

/-- A minus sign is read for an unsigned number as well, and negates it in 32 bits. -/
def lexicalCastUInt32 (s : Str) : Option ℕ :=
  let (negative, s) := splitSign s
  let n := digitsValue s
  if s ≠ [] ∧ s.all Char.isDigit ∧ n < 2 ^ 32 then
    some (castUInt32 (if negative then -(n : ℤ) else n))
  else none

end BluesTrading.SourceText
