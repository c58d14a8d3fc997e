import BluesTrading.SourceText

namespace BluesTrading.SourceText

/-- Digits, and at least one. -/
def IsNumeral (s : Str) : Prop := s ≠ [] ∧ ∀ c ∈ s, c.isDigit = true

instance (s : Str) : Decidable (IsNumeral s) :=
  inferInstanceAs (Decidable (s ≠ [] ∧ ∀ c ∈ s, c.isDigit = true))

theorem digitsValue_eq (s : Str) : digitsValue s = Nat.ofDigitChars 10 s 0 := by
  simp only [digitsValue, Nat.ofDigitChars_eq_foldl, Nat.mul_comm]

theorem digitsValue_append (s t : Str) :
    digitsValue (s ++ t) = 10 ^ t.length * digitsValue s + digitsValue t := by
  simp only [digitsValue_eq, Nat.ofDigitChars_append]
  exact Nat.ofDigitChars_eq_ofDigitChars_zero

theorem digitsValue_digits (n : ℕ) : digitsValue (digits n) = n := by
  rw [digitsValue_eq, digits, Nat.ofDigitChars_ten_toDigits]

theorem isNumeral_digits (n : ℕ) : IsNumeral (digits n) :=
  ⟨Nat.toDigits_ne_nil, fun _ hc => Nat.isDigit_of_mem_toDigits (by decide) le_rfl hc⟩

theorem digits_inj {m n : ℕ} (h : digits m = digits n) : m = n := by
  rw [← digitsValue_digits m, h, digitsValue_digits]

theorem toNat_of_isDigit {c : Char} (h : c.isDigit = true) : 48 ≤ c.toNat ∧ c.toNat ≤ 57 := by
  simp only [Char.isDigit, Bool.and_eq_true, decide_eq_true_eq, UInt32.le_iff_toNat_le] at h
  exact h

theorem isSpace_of_isDigit {c : Char} (h : c.isDigit = true) : isSpace c = false := by
  have hc := toNat_of_isDigit h
  simp only [isSpace, List.mem_cons, List.not_mem_nil, or_false, decide_eq_false_iff_not]
  omega

/-- A digit is none of these other characters. -/
theorem not_mem_of_isDigit {c : Char} {others : Str} (h : c.isDigit = true)
    (hothers : ∀ d ∈ others, d.isDigit = false) : c ∉ others := fun hmem =>
  absurd (h.symm.trans (hothers c hmem)) (by decide)

theorem not_separator {s separators : Str} (h : IsNumeral s)
    (hseparators : ∀ c ∈ separators, c.isDigit = false) :
    ∀ c ∈ s, decide (c ∈ separators) = false :=
  fun c hc => decide_eq_false (not_mem_of_isDigit (h.2 c hc) hseparators)

theorem splitSign_of_isDigit {c : Char} (h : c.isDigit = true) (s : Str) :
    splitSign (c :: s) = (false, c :: s) := by
  unfold splitSign
  split
  · next heq => exact absurd h ((List.cons.inj heq).1 ▸ by decide)
  · next heq => exact absurd h ((List.cons.inj heq).1 ▸ by decide)
  · rfl

theorem splitSign_of_isNumeral {s : Str} (h : IsNumeral s) (rest : Str) :
    splitSign (s ++ rest) = (false, s ++ rest) := by
  obtain ⟨c, s', rfl⟩ := List.exists_cons_of_ne_nil h.1
  exact splitSign_of_isDigit (h.2 c List.mem_cons_self) (s' ++ rest)

/-- Digits are read up to the first other character. -/
theorem takeWhile_isDigit {s rest : Str} (h : IsNumeral s)
    (hrest : ∀ c ∈ rest.head?, c.isDigit = false) :
    (s ++ rest).takeWhile Char.isDigit = s := by
  rw [List.takeWhile_append_of_pos h.2]
  cases rest with
  | nil => simp
  | cons c rest =>
      rw [List.takeWhile_cons_of_neg (by simpa using hrest c rfl), List.append_nil]

/-- Digits and what follows them are told apart by the first other character. -/
theorem numeral_append_inj {c : Char} (hc : c.isDigit = false) {s s' rest rest' : Str}
    (hs : IsNumeral s) (hs' : IsNumeral s') (h : s ++ c :: rest = s' ++ c :: rest') :
    s = s' ∧ rest = rest' := by
  have htake := congrArg (List.takeWhile Char.isDigit) h
  rw [takeWhile_isDigit hs (by simpa using hc), takeWhile_isDigit hs' (by simpa using hc)] at htake
  subst htake
  exact ⟨rfl, List.tail_eq_of_cons_eq (List.append_cancel_left h)⟩

theorem digits_append_inj {c : Char} (hc : c.isDigit = false) {m n : ℕ} {rest rest' : Str}
    (h : digits m ++ c :: rest = digits n ++ c :: rest') : m = n ∧ rest = rest' :=
  (numeral_append_inj hc (isNumeral_digits m) (isNumeral_digits n) h).imp_left digits_inj

theorem atoi_append {s rest : Str} (h : IsNumeral s)
    (hrest : ∀ c ∈ rest.head?, c.isDigit = false) : atoi (s ++ rest) = digitsValue s := by
  have hspace : (s ++ rest).dropWhile isSpace = s ++ rest := by
    obtain ⟨c, s', rfl⟩ := List.exists_cons_of_ne_nil h.1
    exact List.dropWhile_cons_of_neg (by simp [isSpace_of_isDigit (h.2 c List.mem_cons_self)])
  rw [atoi, hspace, splitSign_of_isNumeral h]
  simp only [takeWhile_isDigit h hrest, Bool.false_eq_true, if_false]

theorem atoi_of_isNumeral {s : Str} (h : IsNumeral s) : atoi s = digitsValue s := by
  have hatoi : atoi (s ++ []) = digitsValue s := atoi_append h (by simp)
  rwa [List.append_nil] at hatoi

/-! ### Unsigned numbers -/

theorem castUInt32_natCast (n : ℕ) : castUInt32 n = n % 2 ^ 32 := by
  rw [castUInt32, ← Nat.cast_ofNat, ← Nat.cast_pow, ← Int.natCast_mod, Int.toNat_natCast]

theorem castUInt32_of_lt {n : ℕ} (h : n < 2 ^ 32) : castUInt32 n = n := by
  rw [castUInt32_natCast, Nat.mod_eq_of_lt h]

/-- Digits after a sign, or without one. -/
def SignedNumeral (s : Str) : Prop := IsNumeral (splitSign s).2

instance (s : Str) : Decidable (SignedNumeral s) :=
  inferInstanceAs (Decidable (IsNumeral (splitSign s).2))

theorem splitSign_dropWhile_isSpace {s : Str} (h : SignedNumeral s) : s.dropWhile isSpace = s := by
  cases s with
  | nil => rfl
  | cons c s =>
      refine List.dropWhile_cons_of_neg ?_
      unfold SignedNumeral splitSign at h
      split at h
      · next heq => exact (List.cons.inj heq).1 ▸ by decide
      · next heq => exact (List.cons.inj heq).1 ▸ by decide
      · simp [isSpace_of_isDigit (h.2 c List.mem_cons_self)]

theorem isSome_lexicalCastUInt32_iff {s : Str} :
    (lexicalCastUInt32 s).isSome ↔ SignedNumeral s ∧ digitsValue (splitSign s).2 < 2 ^ 32 := by
  unfold lexicalCastUInt32 SignedNumeral IsNumeral
  rcases splitSign s with ⟨negative, s⟩
  simp only [Option.isSome_ite, List.all_eq_true, and_assoc]

/-- On a sign and digits, `atoi` and the cast read the same number. -/
theorem lexicalCastUInt32_eq_atoi {s : Str} {n : ℕ} (h : lexicalCastUInt32 s = some n) :
    castUInt32 (atoi s) = n := by
  have hsigned := (isSome_lexicalCastUInt32_iff.mp (Option.isSome_of_eq_some h)).1
  have htake : (splitSign s).2.takeWhile Char.isDigit = (splitSign s).2 :=
    List.takeWhile_eq_self_iff.mpr hsigned.2
  rw [lexicalCastUInt32] at h
  rw [atoi, splitSign_dropWhile_isSpace hsigned]
  generalize splitSign s = split at h htake ⊢
  obtain ⟨negative, s⟩ := split
  simp only [Option.ite_none_right_eq_some] at h
  simp only at htake ⊢
  rw [htake]
  exact Option.some.inj h.2

theorem lexicalCastUInt32_of_isNumeral {s : Str} (h : IsNumeral s)
    (hlt : digitsValue s < 2 ^ 32) : lexicalCastUInt32 s = some (digitsValue s) := by
  have hsign := splitSign_of_isNumeral h []
  rw [List.append_nil] at hsign
  unfold lexicalCastUInt32
  rw [hsign]
  simp only [Bool.false_eq_true, if_false, castUInt32_of_lt hlt]
  exact if_pos ⟨h.1, List.all_eq_true.mpr h.2, hlt⟩

/-! ### Numbers of a fixed width -/

def twoDigits (n : ℕ) : Str := [(n / 10).digitChar, (n % 10).digitChar]

def fourDigits (n : ℕ) : Str := twoDigits (n / 100) ++ twoDigits (n % 100)

theorem isNumeral_twoDigits {n : ℕ} (h : n < 100) : IsNumeral (twoDigits n) := by
  refine ⟨by simp [twoDigits], fun c hc => ?_⟩
  have hdigit : ∀ d < 10, (Nat.digitChar d).isDigit = true := by decide
  simp only [twoDigits, List.mem_cons, List.not_mem_nil, or_false] at hc
  rcases hc with rfl | rfl
  · exact hdigit _ (by omega)
  · exact hdigit _ (by omega)

theorem digitsValue_twoDigits {n : ℕ} (h : n < 100) : digitsValue (twoDigits n) = n := by
  rw [digitsValue_eq, twoDigits, Nat.ofDigitChars_cons_digitChar_of_lt_ten (by omega),
    Nat.ofDigitChars_cons_digitChar_of_lt_ten (by omega), Nat.ofDigitChars_nil]
  omega

theorem isNumeral_fourDigits {n : ℕ} (h : n < 10000) : IsNumeral (fourDigits n) := by
  refine ⟨by simp [fourDigits, twoDigits], fun c hc => ?_⟩
  rcases List.mem_append.mp hc with hc | hc
  · exact (isNumeral_twoDigits (by omega)).2 c hc
  · exact (isNumeral_twoDigits (by omega)).2 c hc

theorem digitsValue_fourDigits {n : ℕ} (h : n < 10000) : digitsValue (fourDigits n) = n := by
  rw [fourDigits, digitsValue_append, digitsValue_twoDigits (by omega),
    digitsValue_twoDigits (by omega)]
  simp only [twoDigits, List.length_cons, List.length_nil]
  omega

/-! ### Parts of a text -/

/-- A text begins with the first of its parts. -/
theorem head_splitOnP_prefix (p : Char → Bool) (s : Str) : (s.splitOnP p).getD 0 [] <+: s := by
  induction s with
  | nil => simp
  | cons c s ih =>
      rw [List.splitOnP_cons_eq_if_modifyHead]
      split_ifs with hc
      · exact List.nil_prefix
      · obtain ⟨part, parts, hparts⟩ := List.exists_cons_of_ne_nil (List.splitOnP_ne_nil p s)
        rw [hparts] at ih ⊢
        exact List.cons_prefix_cons.mpr ⟨rfl, ih⟩

end BluesTrading.SourceText
