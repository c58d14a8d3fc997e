import BluesTrading.ConfigSpace
import BluesTrading.Numerals

namespace BluesTrading.ConfigLines

open Foundations
open ConfigSpace
open SourceText

/-! ### Values and separators -/

section Separators

variable {p : Char → Bool}

/-- A value, and further ones with what stands before each of them. -/
def joined (value : Str) (rest : List (Str × Str)) : Str :=
  value ++ rest.flatMap fun q => q.1 ++ q.2

/-- The values are not empty, and runs of separators stand between them. -/
structure Separated (p : Char → Bool) (value : Str) (rest : List (Str × Str)) : Prop where
  values : ∀ w ∈ value :: rest.map Prod.snd, w ≠ [] ∧ ∀ c ∈ w, p c = false
  separators : ∀ q ∈ rest, q.1 ≠ [] ∧ ∀ c ∈ q.1, p c = true

theorem joined_cons (value sep w : Str) (rest : List (Str × Str)) :
    joined value ((sep, w) :: rest) = value ++ (sep ++ joined w rest) := by
  simp [joined]

theorem Separated.tail {value sep w : Str} {rest : List (Str × Str)}
    (h : Separated p value ((sep, w) :: rest)) : Separated p w rest :=
  ⟨fun v hv => h.values v (.tail _ hv), fun q hq => h.separators q (.tail _ hq)⟩

theorem Separated.head_joined {value : Str} {rest : List (Str × Str)} (h : Separated p value rest) :
    ∀ c ∈ (joined value rest).head?, p c = false := by
  have hvalue := h.values value List.mem_cons_self
  obtain ⟨c, value, rfl⟩ := List.exists_cons_of_ne_nil hvalue.1
  rintro d ⟨⟩
  exact hvalue.2 c List.mem_cons_self

theorem mem_joined {c : Char} {value : Str} {rest : List (Str × Str)} (h : c ∈ joined value rest) :
    (∃ w ∈ value :: rest.map Prod.snd, c ∈ w) ∨ ∃ q ∈ rest, c ∈ q.1 := by
  rcases List.mem_append.mp h with hc | hc
  · exact .inl ⟨value, List.mem_cons_self, hc⟩
  · obtain ⟨q, hq, hc⟩ := List.mem_flatMap.mp hc
    rcases List.mem_append.mp hc with hc | hc
    · exact .inr ⟨q, hq, hc⟩
    · exact .inl ⟨q.2, List.mem_cons_of_mem _ (List.mem_map_of_mem hq), hc⟩

theorem Separated.getLast_joined {value : Str} {rest : List (Str × Str)}
    (h : Separated p value rest) :
    ∀ c ∈ (joined value rest).getLast?, ∃ w ∈ value :: rest.map Prod.snd, c ∈ w := by
  induction rest generalizing value with
  | nil =>
      intro c hc
      rw [joined, List.flatMap_nil, List.append_nil] at hc
      exact ⟨value, List.mem_cons_self, List.mem_of_getLast? hc⟩
  | cons q rest ih =>
      obtain ⟨sep, w⟩ := q
      intro c hc
      have hne : joined w rest ≠ [] :=
        List.append_ne_nil_of_left_ne_nil (h.tail.values w List.mem_cons_self).1 _
      rw [joined_cons, ← List.append_assoc, List.getLast?_append_of_ne_nil _ hne] at hc
      obtain ⟨v, hv, hcv⟩ := ih h.tail c hc
      exact ⟨v, List.mem_cons_of_mem _ hv, hcv⟩

theorem splitOnP_separators {sep : Str} (hsep : ∀ c ∈ sep, p c = true) (s : Str) :
    (sep ++ s).splitOnP p = List.replicate sep.length [] ++ s.splitOnP p := by
  induction sep with
  | nil => rfl
  | cons c sep ih =>
      have hrest := ih fun d hd => hsep d (List.mem_cons_of_mem c hd)
      rw [List.cons_append, List.splitOnP_cons_eq_if_modifyHead,
        if_pos (hsep c List.mem_cons_self), hrest, List.length_cons, List.replicate_succ,
        List.cons_append]

theorem splitOnP_joined {value : Str} {rest : List (Str × Str)} (h : Separated p value rest) :
    (joined value rest).splitOnP p =
      value :: rest.flatMap fun q => List.replicate (q.1.length - 1) [] ++ [q.2] := by
  induction rest generalizing value with
  | nil =>
      rw [joined, List.flatMap_nil, List.append_nil, List.flatMap_nil]
      exact List.splitOnP_eq_singleton (h.values value List.mem_cons_self).2
  | cons q rest ih =>
      obtain ⟨sep, w⟩ := q
      obtain ⟨hne, hsep⟩ := h.separators (sep, w) List.mem_cons_self
      obtain ⟨c, sep, rfl⟩ := List.exists_cons_of_ne_nil hne
      rw [joined_cons, List.cons_append, List.splitOnP_append_cons_of_forall_mem
          (h.values value List.mem_cons_self).2 c (hsep c List.mem_cons_self),
        splitOnP_separators (fun d hd => hsep d (List.mem_cons_of_mem c hd)), ih h.tail]
      simp

theorem compress_append {s : Str} (hs : ∀ c ∈ s, p c = false) (t : Str) :
    compress p (s ++ t) = s ++ compress p t := by
  induction s with
  | nil => rfl
  | cons c s ih =>
      rw [List.cons_append, compress, hs c List.mem_cons_self, Bool.false_and,
        ih fun d hd => hs d (List.mem_cons_of_mem c hd)]
      rfl

theorem exists_compress_separators {sep : Str} (hne : sep ≠ []) (hsep : ∀ c ∈ sep, p c = true)
    {s : Str} (hs : ∀ c ∈ s.head?, p c = false) :
    ∃ c, p c = true ∧ compress p (sep ++ s) = c :: compress p s := by
  induction sep with
  | nil => exact absurd rfl hne
  | cons c sep ih =>
      rw [List.cons_append, compress, hsep c List.mem_cons_self, Bool.true_and]
      cases sep with
      | nil =>
          refine ⟨c, hsep c List.mem_cons_self, if_neg ?_⟩
          cases s with
          | nil => simp
          | cons d s => simpa using hs d rfl
      | cons d sep =>
          rw [if_pos (by simpa using hsep d (by simp))]
          exact ih (by simp) fun e he => hsep e (List.mem_cons_of_mem c he)

theorem splitCompress_joined {value : Str} {rest : List (Str × Str)} (h : Separated p value rest) :
    splitCompress p (joined value rest) = value :: rest.map Prod.snd := by
  induction rest generalizing value with
  | nil =>
      have hvalue := (h.values value List.mem_cons_self).2
      rw [joined, List.flatMap_nil, splitCompress, compress_append hvalue, compress,
        List.append_nil, List.splitOnP_eq_singleton hvalue, List.map_nil]
  | cons q rest ih =>
      obtain ⟨sep, w⟩ := q
      have hvalue := (h.values value List.mem_cons_self).2
      obtain ⟨hne, hsep⟩ := h.separators (sep, w) List.mem_cons_self
      obtain ⟨c, hc, hcompress⟩ := exists_compress_separators hne hsep h.tail.head_joined
      rw [joined_cons, splitCompress, compress_append hvalue, hcompress,
        List.splitOnP_append_cons_of_forall_mem hvalue c hc, ← splitCompress, ih h.tail,
        List.map_cons]

/-- Without compression, the parts are the values just if all runs are of one separator. -/
theorem splitOnP_joined_eq_iff {value : Str} {rest : List (Str × Str)}
    (h : Separated p value rest) :
    (joined value rest).splitOnP p = value :: rest.map Prod.snd ↔
      ∀ q ∈ rest, q.1.length = 1 := by
  rw [splitOnP_joined h, List.cons_inj_right]
  constructor
  · intro heq q hq
    by_contra hlong
    have hpos := List.length_pos_of_ne_nil (h.separators q hq).1
    have hempty : [] ∈ rest.map Prod.snd := by
      rw [← heq, List.mem_flatMap]
      exact ⟨q, hq, List.mem_append_left _ (List.mem_replicate.mpr ⟨by omega, rfl⟩)⟩
    exact (h.values [] (List.mem_cons_of_mem _ hempty)).1 rfl
  · intro hone
    rw [List.map_eq_flatMap]
    exact List.flatMap_congr fun q hq => by rw [hone q hq]; rfl

end Separators

/-! ### A text of one line -/

section Line

/-- The name of a property.  The line is not skipped, and the name ends at the equality sign. -/
structure IsName (name : Str) : Prop where
  noEquals : '=' ∉ name
  noComment : name.head? ≠ some '#' ∧ name.take 2 ≠ ['/', '/']

variable {name value text : Str}

theorem trimIf_eq_self {p : Char → Bool} {s : Str} (hhead : ∀ c ∈ s.head?, p c = false)
    (hlast : ∀ c ∈ s.getLast?, p c = false) : trimIf p s = s := by
  have hdrop : s.dropWhile p = s := by
    cases s with
    | nil => rfl
    | cons c s => exact List.dropWhile_cons_of_neg (by simp [hhead c rfl])
  rw [trimIf, hdrop]
  refine List.rdropWhile_eq_self_iff.mpr fun hne => ?_
  simp [hlast _ (List.getLast?_eq_some_getLast hne)]

theorem trimIf_enclosed {p : Char → Bool} {a b : Char} {s : Str} (ha : p a = true) (hb : p b = true)
    (hne : s ≠ []) (hhead : ∀ c ∈ s.head?, p c = false) (hlast : ∀ c ∈ s.getLast?, p c = false) :
    trimIf p (a :: (s ++ [b])) = s := by
  obtain ⟨c, t, rfl⟩ := List.exists_cons_of_ne_nil hne
  rw [trimIf, List.dropWhile_cons_of_pos ha, List.cons_append,
    List.dropWhile_cons_of_neg (by simp [hhead c rfl]), ← List.cons_append,
    List.rdropWhile_concat_pos _ _ _ hb]
  refine List.rdropWhile_eq_self_iff.mpr fun hne => ?_
  simp [hlast _ (List.getLast?_eq_some_getLast hne)]

theorem skipsLine_eq_false (hname : IsName name) (hlength : 2 ≤ value.length) :
    skipsLine (name ++ '=' :: value) = false := by
  obtain ⟨hsharp, hslashes⟩ := hname.noComment
  have hlong : ¬ (name ++ '=' :: value).length < 3 := by
    rw [List.length_append, List.length_cons]
    omega
  have hhead : ((name ++ '=' :: value).head? == some '#') = false := by
    cases name with
    | nil => rfl
    | cons c name => simpa using hsharp
  have htake : ((name ++ '=' :: value).take 2 == ['/', '/']) = false := by
    rcases name with _ | ⟨c, _ | ⟨d, name⟩⟩
    · simp
    · simp
    · simpa using hslashes
  rw [skipsLine, decide_eq_false hlong, hhead, htake]
  simp

/-- A line gives a property the values that are read on the right-hand side. -/
theorem parseLine_eq {V : Type} (type : ValueType V) (fuel : ℕ)
    (space : OrderedMap Str (List Str)) (hname : IsName name) (hvalue : '=' ∉ value)
    (hlength : 2 ≤ value.length) :
    parseLine type fuel space (name ++ '=' :: value) =
      (parseValues type fuel (trim name) (trim value)).map fun prop_values =>
        space.insert (trim name) prop_values := by
  have hsplit : (name ++ '=' :: value).splitOnP (· == '=') = [name, value] := by
    rw [List.splitOnP_append_cons_of_forall_mem _ _ (by decide), List.splitOnP_eq_singleton]
    · exact fun c hc => beq_eq_false_iff_ne.mpr fun heq => hvalue (heq ▸ hc)
    · exact fun c hc => beq_eq_false_iff_ne.mpr fun heq => hname.noEquals (heq ▸ hc)
  rw [parseLine, skipsLine_eq_false hname hlength, hsplit]
  rfl

theorem parserPropsSpace_line {V : Type} (type : ValueType V) (fuel : ℕ)
    (htext : lines text = [name ++ '=' :: value]) (hname : IsName name) (hvalue : '=' ∉ value)
    (hlength : 2 ≤ value.length) :
    parserPropsSpace type fuel text =
      (parseValues type fuel (trim name) (trim value)).map fun prop_values =>
        OrderedMap.empty.insert (trim name) prop_values := by
  rw [parserPropsSpace, htext, List.foldlM_cons, parseLine_eq type fuel _ hname hvalue hlength]
  cases parseValues type fuel (trim name) (trim value) with
  | error => rfl
  | ok => rfl

def Gives {V : Type} (type : ValueType V) (text name : Str) (values : List Str) : Prop :=
  ∃ fuel space, parserPropsSpace type fuel text = .ok space ∧ space.find? (trim name) = some values

theorem gives_iff {V : Type} {type : ValueType V} {values : List Str}
    (htext : lines text = [name ++ '=' :: value]) (hname : IsName name) (hvalue : '=' ∉ value)
    (hlength : 2 ≤ value.length) :
    Gives type text name values ↔
      ∃ fuel, parseValues type fuel (trim name) (trim value) = .ok values := by
  unfold Gives
  simp only [parserPropsSpace_line type _ htext hname hvalue hlength]
  constructor
  · rintro ⟨fuel, space, hparse, hfind⟩
    refine ⟨fuel, ?_⟩
    cases hvalues : parseValues type fuel (trim name) (trim value) with
    | error => rw [hvalues] at hparse; cases hparse
    | ok prop_values =>
        rw [hvalues] at hparse
        obtain rfl := Except.ok.inj hparse
        rw [OrderedMap.find?_insert_self] at hfind
        rw [Option.some.inj hfind]
  · rintro ⟨fuel, hvalues⟩
    exact ⟨fuel, OrderedMap.empty.insert (trim name) values, by rw [hvalues]; rfl,
      OrderedMap.find?_insert_self _ _ _⟩

end Line

/-! ### Sets -/

section Sets

variable {value : Str} {rest : List (Str × Str)}

/-- Neither brackets nor equality signs are in the values. -/
def IsPlain (value : Str) (rest : List (Str × Str)) : Prop :=
  ∀ w ∈ value :: rest.map Prod.snd, ∀ c ∈ w, isBracket c = false ∧ c ≠ '='

theorem equals_not_mem_joined (hseparated : Separated isSeparator value rest)
    (hplain : IsPlain value rest) : '=' ∉ joined value rest := by
  intro hmem
  rcases mem_joined hmem with ⟨w, hw, hc⟩ | ⟨q, hq, hc⟩
  · exact (hplain w hw _ hc).2 rfl
  · exact absurd ((hseparated.separators q hq).2 _ hc) (by decide)

theorem trimIf_isBracket_joined (hseparated : Separated isSeparator value rest)
    (hplain : IsPlain value rest) {a b : Char} (ha : isBracket a = true)
    (hb : isBracket b = true) :
    trimIf isBracket (a :: (joined value rest ++ [b])) = joined value rest := by
  have hvalue := (hseparated.values value List.mem_cons_self).1
  refine trimIf_enclosed ha hb (List.append_ne_nil_of_left_ne_nil hvalue _) ?_ ?_
  · intro c hc
    refine (hplain value List.mem_cons_self c ?_).1
    obtain ⟨d, value, rfl⟩ := List.exists_cons_of_ne_nil hvalue
    obtain rfl : d = c := by simpa [joined] using hc
    exact List.mem_cons_self
  · intro c hc
    obtain ⟨w, hw, hcw⟩ := hseparated.getLast_joined c hc
    exact (hplain w hw c hcw).1

theorem trim_enclosed {a b : Char} (ha : isSpace a = false) (hb : isSpace b = false) (s : Str) :
    trim (a :: (s ++ [b])) = a :: (s ++ [b]) := by
  refine trimIf_eq_self (by simpa using ha) ?_
  rw [← List.cons_append, List.getLast?_concat]
  simpa using hb

/-- A set gives its values just if one separator stands between any two of them. -/
theorem gives_set_iff {V : Type} (type : ValueType V) {name text : Str}
    (htext : lines text = [name ++ '=' :: '\x7b' :: (joined value rest ++ ['\x7d'])])
    (hname : IsName name) (hseparated : Separated isSeparator value rest)
    (hplain : IsPlain value rest) :
    Gives type text name (value :: rest.map Prod.snd) ↔ ∀ q ∈ rest, q.1.length = 1 := by
  have hequals : '=' ∉ '\x7b' :: (joined value rest ++ ['\x7d']) := by
    simpa using equals_not_mem_joined hseparated hplain
  have htrim := trim_enclosed (a := '\x7b') (b := '\x7d') (by decide) (by decide)
    (joined value rest)
  have hvalues : ∀ fuel, parseValues type fuel (trim name)
      (trim ('\x7b' :: (joined value rest ++ ['\x7d']))) =
        .ok ((joined value rest).splitOnP isSeparator) := by
    intro fuel
    rw [htrim, parseValues, if_neg (by simp), if_pos (by simp),
      trimIf_isBracket_joined hseparated hplain (by decide) (by decide)]
  rw [gives_iff htext hname hequals (by simp), ← splitOnP_joined_eq_iff hseparated]
  simp only [hvalues, Except.ok.injEq, exists_const]

/-- The line `p=` with the set of `a` and `b`, between which there is this separator. -/
def setText (sep : Str) : Str :=
  ['p', '=', '\x7b'] ++ joined ['a'] [(sep, ['b'])] ++ ['\x7d']

theorem isName_p : IsName ['p'] := ⟨by decide, by decide⟩

theorem gives_set_iff_comma : Gives intType (setText [',']) ['p'] [['a'], ['b']] := by
  have hseparated : Separated isSeparator ['a'] [([','], ['b'])] :=
    ⟨by simp [isSeparator], by simp [isSeparator]⟩
  have hplain : IsPlain ['a'] [([','], ['b'])] := by simp [IsPlain, isBracket]
  exact (gives_set_iff intType (by decide) isName_p hseparated hplain).mpr (by decide)

/-- A comma and a space add an empty value. -/
theorem not_gives_set_commaSpace :
    Gives intType (setText [',', ' ']) ['p'] [['a'], [], ['b']] ∧
      ¬ Gives intType (setText [',', ' ']) ['p'] [['a'], ['b']] := by
  have hparse : ∀ fuel, parserPropsSpace intType fuel (setText [',', ' ']) =
      .ok (OrderedMap.empty.insert ['p'] [['a'], [], ['b']]) := fun _ => rfl
  refine ⟨⟨0, _, hparse 0, by decide⟩, ?_⟩
  rintro ⟨fuel, space, hspace, hfind⟩
  obtain rfl := Except.ok.inj ((hparse fuel).symm.trans hspace)
  exact absurd hfind (by decide)

end Sets

/-! ### Ranges -/

section Ranges

def signedValue (s : Str) : ℤ :=
  if (splitSign s).1 then -(digitsValue (splitSign s).2 : ℤ) else digitsValue (splitSign s).2

theorem lexicalCastInt_of_signedNumeral {s : Str} (h : SignedNumeral s) :
    lexicalCastInt s = if isInt32 (signedValue s) then some (signedValue s) else none := by
  have hdigits : (splitSign s).2 ≠ [] ∧ (splitSign s).2.all Char.isDigit :=
    ⟨h.1, List.all_eq_true.mpr h.2⟩
  unfold lexicalCastInt signedValue
  simp only [hdigits, ne_eq, not_false_eq_true, true_and]

theorem mem_signedNumeral {s : Str} (h : SignedNumeral s) {c : Char} (hc : c ∈ s) :
    c = '-' ∨ c = '+' ∨ c.isDigit = true := by
  unfold SignedNumeral splitSign at h
  split at h
  · rcases List.mem_cons.mp hc with rfl | hc
    · exact .inl rfl
    · exact .inr (.inr (h.2 c hc))
  · rcases List.mem_cons.mp hc with rfl | hc
    · exact .inr (.inl rfl)
    · exact .inr (.inr (h.2 c hc))
  · exact .inr (.inr (h.2 c hc))

/-- The loop ends after `n` turns, and no addition has overflowed. -/
def Turns (finish step : ℤ) (n : ℕ) (start : ℤ) : Prop :=
  (∀ k < n, start + k * step ≤ finish ∧ isInt32 (start + (k + 1 : ℕ) * step)) ∧
    finish < start + n * step

variable {start finish step : ℤ}

theorem add_succ_mul (start step : ℤ) (k : ℕ) :
    start + (k + 1 : ℕ) * step = start + step + k * step := by
  push_cast
  ring

def progression (start step : ℤ) (n : ℕ) : List Str :=
  (List.range n).map fun k : ℕ => printInt (start + k * step)

theorem progression_succ (start step : ℤ) (n : ℕ) :
    progression start step (n + 1) = printInt start :: progression (start + step) step n := by
  simp only [progression, List.range_succ_eq_map, List.map_cons, List.map_map, Nat.cast_zero,
    zero_mul, add_zero, Function.comp_def, Nat.succ_eq_add_one, add_succ_mul]

theorem turns_zero : Turns finish step 0 start ↔ finish < start := by
  simp [Turns]

theorem turns_succ {n : ℕ} : Turns finish step (n + 1) start ↔
    start ≤ finish ∧ isInt32 (start + step) ∧ Turns finish step n (start + step) := by
  unfold Turns
  rw [Nat.forall_lt_succ_left, add_succ_mul start step n]
  simp only [add_succ_mul, Nat.cast_zero, zero_mul, add_zero, and_assoc]

theorem parseSetLoop_succ_eq_ok_iff {fuel : ℕ} {values : List Str} :
    parseSetLoop intType finish step (fuel + 1) start = .ok values ↔
      (finish < start ∧ values = []) ∨ (start ≤ finish ∧ isInt32 (start + step) ∧
        ∃ later, parseSetLoop intType finish step fuel (start + step) = .ok later ∧
          values = printInt start :: later) := by
  rw [parseSetLoop]
  by_cases hend : start ≤ finish
  · have hguard : intType.leEnd start finish = true := decide_eq_true hend
    have hnext : intType.add start step =
        if isInt32 (start + step) then some (start + step) else none := rfl
    rw [if_pos hguard, hnext]
    simp only [hend, true_and, hend.not_gt, false_and, false_or]
    by_cases hadd : isInt32 (start + step) = true
    · rw [if_pos hadd]
      simp only [hadd, true_and]
      generalize parseSetLoop intType finish step fuel (start + step) = loop
      cases loop with
      | error => simp [Except.map]
      | ok later =>
          constructor
          · intro h
            obtain rfl := Except.ok.inj h
            exact ⟨later, rfl, rfl⟩
          · rintro ⟨_, ⟨⟩, rfl⟩
            rfl
    · rw [if_neg hadd]
      simp [hadd]
  · have hguard : ¬ intType.leEnd start finish = true := by simpa [intType] using hend
    rw [if_neg hguard, Except.ok.injEq]
    simp only [hend, false_and, or_false, not_le.mp hend, true_and, eq_comm]

theorem parseSetLoop_eq_ok_iff {fuel : ℕ} {values : List Str} :
    parseSetLoop intType finish step fuel start = .ok values ↔
      ∃ n < fuel, Turns finish step n start ∧ values = progression start step n := by
  induction fuel generalizing start values with
  | zero =>
      simp only [Nat.not_lt_zero, false_and, exists_false, iff_false]
      intro h
      cases h
  | succ fuel ih =>
      rw [parseSetLoop_succ_eq_ok_iff]
      constructor
      · rintro (⟨hend, rfl⟩ | ⟨hle, hadd, later, hloop, rfl⟩)
        · exact ⟨0, Nat.succ_pos fuel, turns_zero.mpr hend, rfl⟩
        · obtain ⟨n, hn, hturns, rfl⟩ := ih.mp hloop
          exact ⟨n + 1, Nat.succ_lt_succ hn, turns_succ.mpr ⟨hle, hadd, hturns⟩,
            (progression_succ start step n).symm⟩
      · rintro ⟨_ | n, hn, hturns, rfl⟩
        · exact .inl ⟨turns_zero.mp hturns, rfl⟩
        · obtain ⟨hle, hadd, hturns⟩ := turns_succ.mp hturns
          exact .inr ⟨hle, hadd, _, ih.mpr ⟨n, Nat.lt_of_succ_lt_succ hn, hturns, rfl⟩,
            progression_succ start step n⟩

/-- The values are the numbers `start`, `start + step` and so on that do not exceed the end, in this
order. -/
def Enumerates (start finish step : ℤ) (values : List Str) : Prop :=
  ∃ ks : List ℕ, ks.Pairwise (· < ·) ∧ (∀ k : ℕ, k ∈ ks ↔ start + k * step ≤ finish) ∧
    values = ks.map fun k : ℕ => printInt (start + k * step)

/-- A range that is empty, or that grows up to its end without an overflow. -/
def Grows (start finish step : ℤ) : Prop :=
  0 ≤ step ∧
    (finish < start ∨ 0 < step ∧ start + ((finish - start) / step + 1) * step < 2 ^ 31)

theorem isInt32_iff {n : ℤ} : isInt32 n = true ↔ -2 ^ 31 ≤ n ∧ n < 2 ^ 31 := by
  simp [isInt32]

theorem Enumerates.grows_or_empty {values : List Str} (h : Enumerates start finish step values) :
    0 ≤ step ∧ (finish < start ∨ 0 < step) := by
  obtain ⟨ks, -, hmem, -⟩ := h
  obtain ⟨m, hm⟩ : ∃ m, ∀ k ∈ ks, k ≤ m := ⟨ks.sum, fun k hk => List.le_sum_of_mem hk⟩
  have hnonneg : 0 ≤ step := by
    by_contra hneg
    have hlarge : start + ((m + 1 + (start - finish).toNat : ℕ) : ℤ) * step ≤ finish := by
      have hmul := mul_le_mul_of_nonneg_left (show step ≤ -1 by omega)
        (Int.natCast_nonneg (m + 1 + (start - finish).toNat))
      omega
    have hle := hm _ ((hmem _).mpr hlarge)
    omega
  refine ⟨hnonneg, or_iff_not_imp_left.mpr fun hend => ?_⟩
  by_contra hzero
  obtain rfl : step = 0 := by omega
  have hle := hm (m + 1) ((hmem _).mpr (by omega))
  omega

theorem grows_of_turns {n : ℕ} (hturns : Turns finish step n start) {values : List Str}
    (hvalues : Enumerates start finish step values) : Grows start finish step := by
  obtain ⟨hnonneg, hend⟩ := hvalues.grows_or_empty
  rcases lt_or_ge finish start with hempty | hle
  · exact ⟨hnonneg, .inl hempty⟩
  · have hpos : 0 < step := hend.resolve_left hle.not_gt
    obtain ⟨hadds, hlast⟩ := hturns
    cases n with
    | zero =>
        rw [Nat.cast_zero, zero_mul, add_zero] at hlast
        exact absurd hlast hle.not_gt
    | succ n =>
        have hquot : (finish - start) / step < (n + 1 : ℕ) :=
          Int.ediv_lt_of_lt_mul hpos (by omega)
        have hmul := mul_le_mul_of_nonneg_right (Int.add_one_le_of_lt hquot) hnonneg
        have hadd := (isInt32_iff.mp (hadds n (Nat.lt_succ_self n)).2).2
        exact ⟨hnonneg, .inr ⟨hpos, by omega⟩⟩

theorem exists_turns (hstart : isInt32 start) (hgrows : Grows start finish step) :
    ∃ n, Turns finish step n start ∧ Enumerates start finish step (progression start step n) := by
  obtain ⟨hnonneg, hend⟩ := hgrows
  rcases lt_or_ge finish start with hempty | hle
  · refine ⟨0, turns_zero.mpr hempty, [], List.Pairwise.nil, fun k => ?_, rfl⟩
    have hmul := mul_nonneg (Int.natCast_nonneg k) hnonneg
    simp only [List.not_mem_nil, false_iff, not_le]
    omega
  · obtain ⟨hpos, hbound⟩ := hend.resolve_left hle.not_gt
    have hquot := Int.ediv_nonneg (show 0 ≤ finish - start by omega) hnonneg
    obtain ⟨n, hn⟩ := Int.eq_ofNat_of_zero_le (show 0 ≤ (finish - start) / step + 1 by omega)
    have hmem : ∀ k : ℕ, k < n ↔ start + k * step ≤ finish := by
      intro k
      have hle := Int.le_ediv_iff_mul_le (a := k) (b := finish - start) hpos
      omega
    refine ⟨n, ⟨fun k hk => ⟨(hmem k).mp hk, ?_⟩, ?_⟩, List.range n, List.pairwise_lt_range,
      fun k => List.mem_range.trans (hmem k), rfl⟩
    · have hlow := mul_nonneg (Int.natCast_nonneg (k + 1)) hnonneg
      have hhigh : ((k + 1 : ℕ) : ℤ) * step ≤ n * step :=
        mul_le_mul_of_nonneg_right (by omega) hnonneg
      rw [hn] at hbound
      have hbounds := isInt32_iff.mp hstart
      exact isInt32_iff.mpr ⟨by omega, by omega⟩
    · exact not_le.mp fun hlast => absurd ((hmem n).mpr hlast) (lt_irrefl n)

theorem lexicalCast_eq_ok_iff {s : Str} (h : SignedNumeral s) {n : ℤ} :
    lexicalCast intType s = .ok n ↔ isInt32 (signedValue s) ∧ n = signedValue s := by
  have hcast : intType.lexicalCast s =
      if isInt32 (signedValue s) then some (signedValue s) else none :=
    lexicalCastInt_of_signedNumeral h
  rw [lexicalCast, hcast]
  by_cases hint : isInt32 (signedValue s) = true
  · rw [if_pos hint]
    simp [hint, eq_comm]
  · rw [if_neg hint]
    simp [hint]

variable {s e d : Str}

theorem parseSet_eq_ok_iff (hs : SignedNumeral s) (he : SignedNumeral e) (hd : SignedNumeral d)
    {fuel : ℕ} {values : List Str} :
    parseSet intType fuel s e d = .ok values ↔
      (isInt32 (signedValue s) ∧ isInt32 (signedValue e) ∧ isInt32 (signedValue d)) ∧
        parseSetLoop intType (signedValue e) (signedValue d) fuel (signedValue s) = .ok values := by
  simp only [parseSet, bind_eq_ok_iff, lexicalCast_eq_ok_iff hs, lexicalCast_eq_ok_iff he,
    lexicalCast_eq_ok_iff hd]
  constructor
  · rintro ⟨_, ⟨hs, rfl⟩, _, ⟨he, rfl⟩, _, ⟨hd, rfl⟩, hloop⟩
    exact ⟨⟨hs, he, hd⟩, hloop⟩
  · rintro ⟨⟨hs, he, hd⟩, hloop⟩
    exact ⟨_, ⟨hs, rfl⟩, _, ⟨he, rfl⟩, _, ⟨hd, rfl⟩, hloop⟩

theorem of_mem_signedNumeral (h : SignedNumeral s) {c : Char} (hc : c ∈ s) :
    isSeparator c = false ∧ isBracket c = false ∧ c ≠ '=' ∧ c ≠ '.' := by
  rcases mem_signedNumeral h hc with rfl | rfl | hdigit
  · decide
  · decide
  · refine ⟨decide_eq_false ?_, decide_eq_false ?_, ?_, ?_⟩
    · exact not_mem_of_isDigit hdigit (by simp)
    · exact not_mem_of_isDigit hdigit (by simp)
    · exact List.ne_of_not_mem_cons (not_mem_of_isDigit hdigit (show ∀ d ∈ ['='], _ by simp))
    · exact List.ne_of_not_mem_cons (not_mem_of_isDigit hdigit (show ∀ d ∈ ['.'], _ by simp))

def rangeFields (s e d : Str) : Str := joined s [([','], e), ([','], d)]

theorem forall_rangeFields {P : Str → Prop} (hs : P s) (he : P e) (hd : P d) :
    ∀ w ∈ s :: [([','], e), ([','], d)].map Prod.snd, P w := by
  simpa using ⟨hs, he, hd⟩

theorem signedNumeral_ne_nil (h : SignedNumeral s) : s ≠ [] := by
  rintro rfl
  exact h.1 rfl

theorem separated_rangeFields (hs : SignedNumeral s) (he : SignedNumeral e)
    (hd : SignedNumeral d) : Separated isSeparator s [([','], e), ([','], d)] where
  values := forall_rangeFields
    ⟨signedNumeral_ne_nil hs, fun _ hc => (of_mem_signedNumeral hs hc).1⟩
    ⟨signedNumeral_ne_nil he, fun _ hc => (of_mem_signedNumeral he hc).1⟩
    ⟨signedNumeral_ne_nil hd, fun _ hc => (of_mem_signedNumeral hd hc).1⟩
  separators := by simp [isSeparator]

theorem isPlain_rangeFields (hs : SignedNumeral s) (he : SignedNumeral e)
    (hd : SignedNumeral d) : IsPlain s [([','], e), ([','], d)] :=
  forall_rangeFields
    (fun _ hc => ⟨(of_mem_signedNumeral hs hc).2.1, (of_mem_signedNumeral hs hc).2.2.1⟩)
    (fun _ hc => ⟨(of_mem_signedNumeral he hc).2.1, (of_mem_signedNumeral he hc).2.2.1⟩)
    (fun _ hc => ⟨(of_mem_signedNumeral hd hc).2.1, (of_mem_signedNumeral hd hc).2.2.1⟩)

theorem parseValues_range_eq_ok_iff {V : Type} (type : ValueType V) {prop_name : Str} {fuel : ℕ}
    {values : List Str} (hs : SignedNumeral s) (he : SignedNumeral e) (hd : SignedNumeral d) :
    parseValues type fuel prop_name ('\x5b' :: (rangeFields s e d ++ ['\x5d'])) = .ok values ↔
      (isInt32 (signedValue s) ∧ isInt32 (signedValue e) ∧ isInt32 (signedValue d)) ∧
        parseSetLoop intType (signedValue e) (signedValue d) fuel (signedValue s) = .ok values := by
  have hisInt : ∀ {w}, SignedNumeral w → isInt w = true := fun hw =>
    decide_eq_true fun hmem => (of_mem_signedNumeral hw hmem).2.2.2 rfl
  have htrim : trimIf isBracket ('\x5b' :: (rangeFields s e d ++ ['\x5d'])) = rangeFields s e d :=
    trimIf_isBracket_joined (separated_rangeFields hs he hd) (isPlain_rangeFields hs he hd)
      (by decide) (by decide)
  have hsplit : splitCompress isSeparator (rangeFields s e d) = [s, e, d] :=
    splitCompress_joined (separated_rangeFields hs he hd)
  rw [parseValues, if_pos (by simp), htrim, parseRange, hsplit, ← parseSet_eq_ok_iff hs he hd]
  simp only [hisInt hs, hisInt he, hisInt hd, Bool.and_self, if_true]

/-- A range is read and gives the values up to its end just if its numbers are of 32 bits, the step
is not negative, and the first value after the end is of 32 bits as well. -/
theorem gives_range_iff {V : Type} (type : ValueType V) {name text : Str}
    (htext : lines text = [name ++ '=' :: '\x5b' :: (s ++ ',' :: e ++ ',' :: d ++ ['\x5d'])])
    (hname : IsName name) (hs : SignedNumeral s) (he : SignedNumeral e) (hd : SignedNumeral d) :
    (∃ values, Gives type text name values ∧
        Enumerates (signedValue s) (signedValue e) (signedValue d) values) ↔
      (isInt32 (signedValue s) ∧ isInt32 (signedValue e) ∧ isInt32 (signedValue d)) ∧
        Grows (signedValue s) (signedValue e) (signedValue d) := by
  have hfields : s ++ ',' :: e ++ ',' :: d = rangeFields s e d := by
    simp [rangeFields, joined]
  rw [hfields] at htext
  have hnone : '=' ∉ rangeFields s e d :=
    equals_not_mem_joined (separated_rangeFields hs he hd) (isPlain_rangeFields hs he hd)
  have hequals : '=' ∉ '\x5b' :: (rangeFields s e d ++ ['\x5d']) := by simpa using hnone
  have htrim := trim_enclosed (a := '\x5b') (b := '\x5d') (by decide) (by decide)
    (rangeFields s e d)
  simp only [gives_iff htext hname hequals (by simp), htrim,
    parseValues_range_eq_ok_iff type hs he hd, parseSetLoop_eq_ok_iff]
  constructor
  · rintro ⟨values, ⟨fuel, hint, n, -, hturns, rfl⟩, hvalues⟩
    exact ⟨hint, grows_of_turns hturns hvalues⟩
  · rintro ⟨hint, hgrows⟩
    obtain ⟨n, hturns, hvalues⟩ := exists_turns hint.1 hgrows
    exact ⟨_, ⟨n + 1, hint, n, Nat.lt_succ_self n, hturns, rfl⟩, hvalues⟩

def rangeText (s e d : Str) : Str :=
  ['p', '=', '\x5b'] ++ (s ++ ',' :: e ++ ',' :: d) ++ ['\x5d']

theorem gives_range_iff_four :
    ∃ values, Gives intType (rangeText ['1'] ['9'] ['4']) ['p'] values ∧
      Enumerates (signedValue ['1']) (signedValue ['9']) (signedValue ['4']) values := by
  have hnumbers : SignedNumeral ['1'] ∧ SignedNumeral ['9'] ∧ SignedNumeral ['4'] := by
    simp [SignedNumeral, IsNumeral, splitSign]
  obtain ⟨hs, he, hd⟩ := hnumbers
  exact (gives_range_iff intType (by decide) isName_p hs he hd).mpr
    ⟨by decide, by decide, .inr (by decide)⟩

/-- With a step of zero, the loop never ends. -/
theorem not_gives_range_zero :
    (∀ fuel, parserPropsSpace intType fuel (rangeText ['1'] ['3'] ['0']) = .error .outOfFuel) ∧
      ¬ ∃ values, Gives intType (rangeText ['1'] ['3'] ['0']) ['p'] values ∧
        Enumerates (signedValue ['1']) (signedValue ['3']) (signedValue ['0']) values := by
  have hloop : ∀ fuel, parseSetLoop intType 3 0 fuel 1 = .error .outOfFuel := by
    intro fuel
    induction fuel with
    | zero => rfl
    | succ fuel ih =>
        have hturn : parseSetLoop intType 3 0 (fuel + 1) 1 =
          (parseSetLoop intType 3 0 fuel 1).map (['1'] :: ·) := rfl
        rw [hturn, ih]
        rfl
  have hline : lines (rangeText ['1'] ['3'] ['0']) =
      [['p'] ++ '=' :: ['\x5b', '1', ',', '3', ',', '0', '\x5d']] := rfl
  have hparse : ∀ fuel, parserPropsSpace intType fuel (rangeText ['1'] ['3'] ['0']) =
      .error .outOfFuel := by
    intro fuel
    have hvalues : parseValues intType fuel (trim ['p'])
        (trim ['\x5b', '1', ',', '3', ',', '0', '\x5d']) = parseSetLoop intType 3 0 fuel 1 := rfl
    rw [parserPropsSpace_line intType fuel hline isName_p (by decide) (by decide), hvalues, hloop]
    rfl
  refine ⟨hparse, ?_⟩
  rintro ⟨values, ⟨fuel, space, hspace, -⟩, -⟩
  cases (hparse fuel).symm.trans hspace

end Ranges

end BluesTrading.ConfigLines
