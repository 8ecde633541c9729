import Conform.Calendar.Moment
import Mathlib.Data.List.Induction
import Mathlib.Tactic.IntervalCases
import Mathlib.Tactic.SplitIfs

/-!
# Written dates and moments

Counting days and telling dates undo each other. A date of any year is read
back from its text, a moment only where its year has four digits: another year
is written with a sign, which no timestamp begins with.
-/

namespace Conform

namespace Text

theorem toNat_of_isDigit {c : Char} (h : c.isDigit = true) : 48 ≤ c.toNat ∧ c.toNat ≤ 57 := by
  simpa [Char.isDigit, UInt32.le_iff_toNat_le] using h

theorem isBlank_of_isDigit {c : Char} (h : c.isDigit = true) : isBlank c = false := by
  have hrange := toNat_of_isDigit h
  simp [isBlank]
  omega

/-- Without blanks there is nothing to trim. -/
theorem trimChars_eq {cs : List Char} (h : ∀ c ∈ cs, isBlank c = false) : trimChars cs = cs := by
  have hdrop : ∀ cs : List Char, (∀ c ∈ cs, isBlank c = false) → cs.dropWhile isBlank = cs := by
    intro cs hcs
    cases cs with
    | nil => rfl
    | cons c rest => exact List.dropWhile_cons_of_neg (by simp [hcs c List.mem_cons_self])
  unfold trimChars
  rw [hdrop cs h, hdrop cs.reverse fun c hc => h c (List.mem_reverse.mp hc), List.reverse_reverse]

end Text

namespace CalendarDate

variable {width n most : Nat} {rest : List Char}

theorem digitsValue_eq (cs : List Char) : Numeral.digitsValue cs = Nat.ofDigitChars 10 cs 0 := rfl

theorem isDigit_of_mem_padded {c : Char} (h : c ∈ padded width n) : c.isDigit = true := by
  rcases List.mem_append.mp h with h | h
  · rw [List.eq_of_mem_replicate h]
    rfl
  · exact Nat.isDigit_of_mem_toDigits (by decide) (by decide) h

theorem digitsValue_padded : Numeral.digitsValue (padded width n) = n := by
  rw [digitsValue_eq, padded, Nat.ofDigitChars_append, Nat.ofDigitChars_replicate_zero,
    Nat.mul_zero, Nat.ofDigitChars_ten_toDigits]

/-- Digits spell a number below the power of ten of their count. -/
theorem digitsValue_lt {cs : List Char} (h : ∀ c ∈ cs, c.isDigit = true) :
    Numeral.digitsValue cs < 10 ^ cs.length := by
  induction cs using List.reverseRecOn with
  | nil => decide
  | append_singleton cs c ih =>
    have hinit := ih fun c hc => h c (List.mem_append_left _ hc)
    have hrange := Text.toNat_of_isDigit (h c (by simp))
    have hdigit : c.toNat - '0'.toNat < 10 := by
      change c.toNat - 48 < 10
      omega
    unfold Numeral.digitsValue at hinit ⊢
    rw [List.foldl_append, List.foldl_cons, List.foldl_nil, List.length_append,
      List.length_singleton, Nat.pow_succ]
    omega

theorem le_length_padded (width n : Nat) : width ≤ (padded width n).length := by
  simp only [padded, List.length_append, List.length_replicate]
  omega

theorem length_padded (hpos : 0 < width) (h : n < 10 ^ width) : (padded width n).length = width := by
  have hdigits := (Nat.length_toDigits_le_iff (b := 10) (by decide) hpos).mpr h
  simp only [padded, List.length_append, List.length_replicate]
  omega

/-- No digit comes first. -/
def NoDigit (cs : List Char) : Prop := ∀ c ∈ cs.head?, c.isDigit = false

theorem takeWhile_padded (hrest : NoDigit rest) :
    (padded width n ++ rest).takeWhile Char.isDigit = padded width n := by
  rw [List.takeWhile_append_of_pos fun _ => isDigit_of_mem_padded]
  cases rest with
  | nil => exact List.append_nil _
  | cons c rest => rw [List.takeWhile_cons_of_neg (by simp [hrest c rfl]), List.append_nil]

theorem readNumber?_padded (hpos : 0 < width) (hrest : NoDigit rest)
    (hmost : (padded width n).length ≤ most) :
    readNumber? most (padded width n ++ rest) = some (n, rest) := by
  have hlength := le_length_padded width n
  have hne : padded width n ≠ [] := List.ne_nil_of_length_pos (Nat.lt_of_lt_of_le hpos hlength)
  unfold readNumber?
  rw [takeWhile_padded hrest, List.take_of_length_le hmost]
  simp [hne, digitsValue_padded]

theorem noDigit_nil : NoDigit [] := fun c h => by cases h

theorem noDigit_cons {c : Char} (h : c.isDigit = false) : NoDigit (c :: rest) := by
  intro first hfirst
  cases hfirst
  exact h

/-- Digits, followed by no digit, read as a number of their count. -/
theorem readNumber?_two (h : n < 100) (hrest : NoDigit rest) :
    readNumber? 2 (padded 2 n ++ rest) = some (n, rest) :=
  readNumber?_padded (by decide) hrest (Nat.le_of_eq (length_padded (by decide) h))

theorem readYear?_of_isDigit {c : Char} (h : c.isDigit = true) :
    readYear? (c :: rest) = (readNumber? 4 (c :: rest)).map fun (n, rest) => ((n : Int), rest) := by
  unfold readYear?
  split
  · next heq => cases heq; cases h
  · next heq => cases heq; cases h
  · rfl

theorem readYear?_yearChars {year : Int} (hrest : NoDigit rest) :
    readYear? (yearChars year ++ rest) = some (year, rest) := by
  have hsigned : ∀ n, readNumber? (padded 4 n ++ rest).length (padded 4 n ++ rest) =
      some (n, rest) := fun n => readNumber?_padded (by decide) hrest (by simp)
  unfold yearChars
  split
  · next h =>
    have hbounds : 0 ≤ year ∧ year ≤ 9999 := by simpa using h
    have hlength : (padded 4 year.toNat).length = 4 := length_padded (by decide) (by omega)
    have hread := readNumber?_padded (by decide) hrest (Nat.le_of_eq hlength)
    cases hchars : padded 4 year.toNat with
    | nil => rw [hchars] at hlength; cases hlength
    | cons c more =>
      have hdigit : c.isDigit = true :=
        isDigit_of_mem_padded (hchars ▸ List.mem_cons_self : c ∈ padded 4 year.toNat)
      rw [List.cons_append, readYear?_of_isDigit hdigit, ← List.cons_append, ← hchars, hread]
      simp [hbounds.1]
  · by_cases hneg : year < 0
    · rw [if_pos hneg, List.cons_append]
      simp only [readYear?, hsigned, Option.map_some, Option.some.injEq, Prod.mk.injEq, and_true]
      omega
    · rw [if_neg hneg, List.cons_append]
      simp only [readYear?, hsigned, Option.map_some, Option.some.injEq, Prod.mk.injEq, and_true]
      omega

theorem notBlank_yearChars {year : Int} : ∀ c ∈ yearChars year, Text.isBlank c = false := by
  intro c h
  unfold yearChars at h
  split at h
  · exact Text.isBlank_of_isDigit (isDigit_of_mem_padded h)
  · rcases List.mem_cons.mp h with rfl | h
    · split <;> rfl
    · exact Text.isBlank_of_isDigit (isDigit_of_mem_padded h)

theorem notBlank_chars {d : CalendarDate} : ∀ c ∈ d.chars, Text.isBlank c = false := by
  intro c h
  simp only [chars, List.append_assoc, List.cons_append, List.mem_append, List.mem_cons] at h
  rcases h with h | rfl | h | rfl | h
  · exact notBlank_yearChars c h
  · rfl
  · exact Text.isBlank_of_isDigit (isDigit_of_mem_padded h)
  · rfl
  · exact Text.isBlank_of_isDigit (isDigit_of_mem_padded h)

theorem dropWhile_isBlank {c : Char} (h : Text.isBlank c = false) :
    (c :: rest).dropWhile Text.isBlank = c :: rest :=
  List.dropWhile_cons_of_neg (by simp [h])

theorem dropWhile_padded (hpos : 0 < width) :
    (padded width n ++ rest).dropWhile Text.isBlank = padded width n ++ rest := by
  have hlength := le_length_padded width n
  cases hchars : padded width n with
  | nil =>
    rw [hchars] at hlength
    exact absurd hlength (Nat.not_le_of_lt hpos)
  | cons c more =>
    have hdigit : c.isDigit = true :=
      isDigit_of_mem_padded (hchars ▸ List.mem_cons_self : c ∈ padded width n)
    exact dropWhile_isBlank (Text.isBlank_of_isDigit hdigit)

theorem dropWhile_yearChars {year : Int} :
    (yearChars year ++ rest).dropWhile Text.isBlank = yearChars year ++ rest := by
  unfold yearChars
  split
  · exact dropWhile_padded (by decide)
  · exact dropWhile_isBlank (by split <;> rfl)

/-- The calendar has the date. -/
def Exists (d : CalendarDate) : Prop := of? d.year d.month d.day = some d

theorem exists_iff {d : CalendarDate} : d.Exists ↔
    (firstYear ≤ d.year ∧ d.year ≤ lastYear) ∧ (1 ≤ d.month ∧ d.month ≤ 12) ∧
      (1 ≤ d.day ∧ d.day ≤ daysInMonth d.year d.month) := by
  unfold Exists of?
  simp [and_assoc]

/-- A written date is read up to its end. -/
theorem readChars?_append {d : CalendarDate} (hmonth : d.month < 100) (hday : d.day < 100)
    (hrest : NoDigit rest) : readChars? (d.chars ++ rest) =
      if rest.isEmpty then of? d.year d.month d.day else none := by
  have hhyphen : ∀ rest, NoDigit ('-' :: rest) := fun _ => noDigit_cons (by decide)
  unfold readChars? chars
  simp only [List.append_assoc, List.cons_append, dropWhile_yearChars,
    readYear?_yearChars (hhyphen _), readHyphen?, dropWhile_padded (Nat.zero_lt_two),
    readNumber?_two hmonth (hhyphen _), readNumber?_two hday hrest, Option.bind_eq_bind,
    Option.bind_some]

theorem eq_of_of? {year : Int} {month day : Nat} {d : CalendarDate}
    (h : of? year month day = some d) : d = ⟨year, month, day⟩ := by
  unfold of? at h
  split at h
  · cases h
    rfl
  · cases h

theorem exists_of_of? {year : Int} {month day : Nat} {d : CalendarDate}
    (h : of? year month day = some d) : d.Exists := by
  have hparts := eq_of_of? h
  subst hparts
  exact h

theorem daysInMonth_le (year : Int) (month : Nat) : daysInMonth year month ≤ 31 := by
  unfold daysInMonth
  split_ifs <;> omega

theorem Exists.lt_hundred {d : CalendarDate} (h : d.Exists) : d.month < 100 ∧ d.day < 100 := by
  obtain ⟨-, ⟨-, hmonth⟩, -, hday⟩ := exists_iff.mp h
  have hdays := daysInMonth_le d.year d.month
  constructor <;> omega

theorem exists_of_readChars? {cs : List Char} {d : CalendarDate} (h : readChars? cs = some d) :
    d.Exists := by
  unfold readChars? at h
  obtain ⟨⟨year, _⟩, -, h⟩ := Option.bind_eq_some_iff.mp h
  obtain ⟨_, -, h⟩ := Option.bind_eq_some_iff.mp h
  obtain ⟨⟨month, _⟩, -, h⟩ := Option.bind_eq_some_iff.mp h
  obtain ⟨_, -, h⟩ := Option.bind_eq_some_iff.mp h
  obtain ⟨⟨day, _⟩, -, h⟩ := Option.bind_eq_some_iff.mp h
  dsimp only at h
  split at h
  · exact exists_of_of? h
  · cases h

theorem readChars?_chars {d : CalendarDate} (h : d.Exists) : readChars? d.chars = some d := by
  have hread := readChars?_append h.lt_hundred.1 h.lt_hundred.2 noDigit_nil
  rw [List.append_nil] at hread
  exact hread.trans h

/-- A day of an era, by its century, its cycle of four years, the year in it and the day in that. -/
structure EraDay (d c q k t : Int) : Prop where
  century : 0 ≤ c ∧ c ≤ 3
  cycle : 0 ≤ q ∧ q ≤ 24
  year : 0 ≤ k ∧ k ≤ 3
  day : 0 ≤ t ∧ t ≤ 365
  leap : t = 365 → k = 3 ∧ (q = 24 → c = 3)
  eq : d = 36524 * c + 1461 * q + 365 * k + t

theorem exists_eraDay {d : Int} (h0 : 0 ≤ d) (h1 : d < 146097) : ∃ c q k t, EraDay d c q k t := by
  have hcentury : ∃ c r : Int, d = 36524 * c + r ∧ 0 ≤ c ∧ c ≤ 3 ∧ 0 ≤ r ∧ r ≤ 36524 ∧
      (r = 36524 → c = 3) := by
    by_cases hlast : d = 146096
    · exact ⟨3, 36524, by omega, by omega, by omega, by omega, by omega, by omega⟩
    · exact ⟨d / 36524, d % 36524, by omega, by omega, by omega, by omega, by omega, by omega⟩
  obtain ⟨c, r, rfl, hc0, hc1, hr0, hr1, hr⟩ := hcentury
  have hyear : ∃ k t : Int, r % 1461 = 365 * k + t ∧ 0 ≤ k ∧ k ≤ 3 ∧ 0 ≤ t ∧ t ≤ 365 ∧
      (t = 365 → k = 3) := by
    by_cases hlast : r % 1461 = 1460
    · exact ⟨3, 365, by omega, by omega, by omega, by omega, by omega, by omega⟩
    · exact ⟨r % 1461 / 365, r % 1461 % 365, by omega, by omega, by omega, by omega, by omega,
        by omega⟩
  obtain ⟨k, t, hk, hk0, hk1, ht0, ht1, ht⟩ := hyear
  exact ⟨c, r / 1461, k, t, ⟨hc0, hc1⟩, by omega, ⟨hk0, hk1⟩, ⟨ht0, ht1⟩,
    fun h => ⟨ht h, by omega⟩, by omega⟩

theorem EraDay.yearOfEra {d c q k t : Int} (h : EraDay d c q k t) :
    (d - d / 1460 + d / 36524 - d / 146096) / 365 = 100 * c + 4 * q + k := by
  obtain ⟨hc, hq, hk, ht, hleap, heq⟩ := h
  -- blocks of 1460 days fall behind cycles of 1461 by less than one block in an era
  have hblock : d / 1460 = 25 * c + q + if 24 * c + q + 365 * k + t < 1460 then 0 else 1 := by
    split <;> omega
  by_cases hlast : d = 146096
  · omega
  · have hcentury : d / 36524 = c := by omega
    have hera : d / 146096 = 0 := by omega
    rw [hblock, hcentury, hera]
    split <;> omega

/-- The date of a day, told by its era and its place in it. -/
theorem ofDayNumber_eq {n e d c q k t : Int} (hn : n + 719468 = e * 146097 + d) (h0 : 0 ≤ d)
    (h1 : d < 146097) (h : EraDay d c q k t) :
    let month := (5 * t + 2) / 153
    let shown := if month < 10 then month + 3 else month - 9
    let year := 100 * c + 4 * q + k + e * 400
    ofDayNumber n = ⟨if shown ≤ 2 then year + 1 else year, shown.toNat,
      (t - (153 * month + 2) / 5 + 1).toNat⟩ := by
  have hera : (n + 719468) / 146097 = e := by omega
  have hday : n + 719468 - e * 146097 = d := by omega
  have hrest : d - (365 * (100 * c + 4 * q + k) + (100 * c + 4 * q + k) / 4 -
      (100 * c + 4 * q + k) / 100) = t := by
    obtain ⟨hc, hq, hk, ht, hleap, heq⟩ := h
    have hfours : (100 * c + 4 * q + k) / 4 = 25 * c + q := by omega
    have hhundreds : (100 * c + 4 * q + k) / 100 = c := by omega
    omega
  unfold ofDayNumber
  simp only [hera, hday, h.yearOfEra, hrest]

/-- The day of a date whose year and month are counted from March. -/
theorem dayNumber_eq {d : CalendarDate} (year month e : Int)
    (hyear : (if d.month ≤ 2 then d.year - 1 else d.year) = year + e * 400)
    (hmonth : (if d.month ≤ 2 then (d.month : Int) + 9 else d.month - 3) = month)
    (h0 : 0 ≤ year) (h1 : year < 400) : d.dayNumber =
      e * 146097 + (year * 365 + year / 4 - year / 100 + ((153 * month + 2) / 5 + d.day - 1)) -
        719468 := by
  have hera : (year + e * 400) / 400 = e := by omega
  have hrest : year + e * 400 - e * 400 = year := by omega
  unfold dayNumber
  simp only [hyear, hmonth, hera, hrest]

theorem dayNumber_ofDayNumber (n : Int) : (ofDayNumber n).dayNumber = n := by
  obtain ⟨c, q, k, t, h⟩ := exists_eraDay (d := (n + 719468) % 146097) (by omega) (by omega)
  rw [ofDayNumber_eq (e := (n + 719468) / 146097) (by omega) (by omega) (by omega) h]
  obtain ⟨hc, hq, hk, ht, hleap, heq⟩ := h
  have hfours : (100 * c + 4 * q + k) / 4 = 25 * c + q := by omega
  have hhundreds : (100 * c + 4 * q + k) / 100 = c := by omega
  have hmonth : 0 ≤ (5 * t + 2) / 153 ∧ (5 * t + 2) / 153 ≤ 11 := by omega
  have hstart : (153 * ((5 * t + 2) / 153) + 2) / 5 ≤ t := by omega
  generalize (5 * t + 2) / 153 = month at hmonth hstart
  rw [dayNumber_eq (100 * c + 4 * q + k) month ((n + 719468) / 146097) ?_ ?_ (by omega) (by omega)]
  · dsimp only
    omega
  · dsimp only
    split <;> split <;> omega
  · dsimp only
    split <;> split <;> omega

/-- Every day has its place in a month of its year. -/
theorem ofDayNumber_fits (n : Int) :
    (1 ≤ (ofDayNumber n).month ∧ (ofDayNumber n).month ≤ 12) ∧
      (1 ≤ (ofDayNumber n).day ∧
        (ofDayNumber n).day ≤ daysInMonth (ofDayNumber n).year (ofDayNumber n).month) := by
  obtain ⟨c, q, k, t, h⟩ := exists_eraDay (d := (n + 719468) % 146097) (by omega) (by omega)
  rw [ofDayNumber_eq (e := (n + 719468) / 146097) (by omega) (by omega) (by omega) h]
  obtain ⟨hc, hq, hk, ht, hleap, -⟩ := h
  generalize (n + 719468) / 146097 = e
  obtain ⟨h0, h11⟩ : 0 ≤ (5 * t + 2) / 153 ∧ (5 * t + 2) / 153 ≤ 11 := by omega
  generalize hm : (5 * t + 2) / 153 = month at h0 h11
  dsimp only
  refine ⟨by split <;> omega, ?_⟩
  unfold daysInMonth isLeapYear
  interval_cases month <;> simp <;> omega

theorem ofDayNumber_lt_hundred (n : Int) :
    (ofDayNumber n).month < 100 ∧ (ofDayNumber n).day < 100 := by
  obtain ⟨⟨-, hmonth⟩, -, hday⟩ := ofDayNumber_fits n
  have hdays := daysInMonth_le (ofDayNumber n).year (ofDayNumber n).month
  constructor <;> omega

end CalendarDate

namespace Moment

open CalendarDate

variable {m : Moment} {rest : List Char}

/-- A time of day; the nanoseconds only go on past a second in the last of a minute. -/
structure Proper (m : Moment) : Prop where
  second : m.second < 86400
  nano : m.nano < 2 * nanosPerSecond
  leap : nanosPerSecond ≤ m.nano → m.second % 60 = 59

/-- The year of the moment in UTC. -/
def year (m : Moment) : Int := (ofDayNumber m.day).year

theorem readDigits?_padded {width n : Nat} (hpos : 0 < width) (h : n < 10 ^ width) :
    readDigits? width (padded width n ++ rest) = some (n, rest) := by
  have hlength := length_padded hpos h
  have hdigits : (padded width n).all Char.isDigit = true :=
    List.all_eq_true.mpr fun c hc => isDigit_of_mem_padded hc
  unfold readDigits?
  rw [List.take_left' hlength, List.drop_left' hlength]
  simp [hlength, hdigits, digitsValue_padded]

theorem readFraction?_padded {width n : Nat} (hpos : 0 < width) (hnine : width ≤ 9)
    (h : n < 10 ^ width) :
    readFraction? ('.' :: (padded width n ++ ['Z'])) = some (n * tenTo (9 - width), ['Z']) := by
  have hlength := length_padded hpos h
  have hend : NoDigit ['Z'] := noDigit_cons (by decide)
  have hdrop : (padded width n ++ ['Z']).dropWhile Char.isDigit = ['Z'] := by
    rw [List.dropWhile_append_of_pos fun _ => isDigit_of_mem_padded]
    rfl
  have hne : padded width n ≠ [] := List.ne_nil_of_length_pos (by omega)
  unfold readFraction?
  simp only [takeWhile_padded hend, hdrop, List.take_of_length_le (hlength ▸ hnine), hlength,
    digitsValue_padded, List.isEmpty_eq_false_iff.mpr hne, Bool.false_eq_true, if_false]

theorem readFraction?_fractionChars {nano : Nat} (h : nano < nanosPerSecond) :
    readFraction? (fractionChars nano ++ ['Z']) = some (nano, ['Z']) := by
  unfold nanosPerSecond at h
  unfold fractionChars
  split_ifs with hzero hthree hsix
  · rw [hzero]
    rfl
  · rw [List.cons_append, readFraction?_padded (by decide) (by decide) (by omega)]
    have hexact : nano / 1000000 * tenTo 6 = nano := by
      change nano / 1000000 * 1000000 = nano
      omega
    rw [hexact]
  · rw [List.cons_append, readFraction?_padded (by decide) (by decide) (by omega)]
    have hexact : nano / 1000 * tenTo 3 = nano := by
      change nano / 1000 * 1000 = nano
      omega
    rw [hexact]
  · rw [List.cons_append, readFraction?_padded (by decide) (by decide) (by omega)]
    have hexact : nano * tenTo 0 = nano := Nat.mul_one nano
    rw [hexact]

/-- The characters of a moment. -/
theorem text_toList (m : Moment) : m.text.toList = (ofDayNumber m.day).chars ++
    'T' :: (padded 2 (m.second / 3600) ++ ':' :: (padded 2 (m.second / 60 % 60) ++
      ':' :: (padded 2 (m.second % 60 + m.nano / nanosPerSecond) ++
        (fractionChars (m.nano % nanosPerSecond) ++ ['Z'])))) := by
  simp [text]

theorem notBlank_text : ∀ c ∈ m.text.toList, Text.isBlank c = false := by
  have hpadded : ∀ width n, ∀ c ∈ padded width n, Text.isBlank c = false :=
    fun _ _ _ h => Text.isBlank_of_isDigit (isDigit_of_mem_padded h)
  have hfraction : ∀ n, ∀ c ∈ fractionChars n, Text.isBlank c = false := by
    intro n c h
    unfold fractionChars at h
    split_ifs at h
    · cases h
    all_goals
      rcases List.mem_cons.mp h with rfl | h
      · rfl
      · exact hpadded _ _ c h
  intro c h
  simp only [text_toList, List.mem_append, List.mem_cons, List.not_mem_nil, or_false] at h
  rcases h with h | rfl | h | rfl | h | rfl | h | h | rfl
  · exact notBlank_chars c h
  · rfl
  · exact hpadded _ _ c h
  · rfl
  · exact hpadded _ _ c h
  · rfl
  · exact hpadded _ _ c h
  · exact hfraction _ c h
  · rfl

theorem bind_of_some {α β : Type} {x : Option α} {a : α} (h : x = some a) {f : α → Option β} :
    (x >>= f) = f a := by
  rw [h]
  rfl

theorem readChar?_self (c : Char) : readChar? c (c :: rest) = some rest := if_pos rfl

theorem readTimestamp?_chars {year month day hour minute second nano : Nat} (hyear : year < 10 ^ 4)
    (hmonth : month < 10 ^ 2) (hday : day < 10 ^ 2) (hhour : hour < 10 ^ 2)
    (hminute : minute < 10 ^ 2) (hsecond : second < 10 ^ 2) (hnano : nano < nanosPerSecond) :
    readTimestamp? (padded 4 year ++ '-' :: (padded 2 month ++ '-' :: (padded 2 day ++
      'T' :: (padded 2 hour ++ ':' :: (padded 2 minute ++ ':' :: (padded 2 second ++
        (fractionChars nano ++ ['Z']))))))) =
      (of? year month day).bind fun date => ofLocal? date hour minute second nano 0 := by
  have htwo : 0 < 2 := by decide
  have hdivider : ∀ rest, readDivider? ('T' :: rest) = some rest := fun _ => rfl
  unfold readTimestamp?
  refine (bind_of_some (readDigits?_padded (by decide) hyear)).trans ?_
  refine (bind_of_some (readChar?_self '-')).trans ?_
  refine (bind_of_some (readDigits?_padded htwo hmonth)).trans ?_
  refine (bind_of_some (readChar?_self '-')).trans ?_
  refine (bind_of_some (readDigits?_padded htwo hday)).trans ?_
  refine (bind_of_some (hdivider _)).trans ?_
  refine (bind_of_some (readDigits?_padded htwo hhour)).trans ?_
  refine (bind_of_some (readChar?_self ':')).trans ?_
  refine (bind_of_some (readDigits?_padded htwo hminute)).trans ?_
  refine (bind_of_some (readChar?_self ':')).trans ?_
  refine (bind_of_some (readDigits?_padded htwo hsecond)).trans ?_
  refine (bind_of_some (readFraction?_fractionChars hnano)).trans ?_
  rfl

/-- The time of day that a moment shows is its own. -/
theorem ofLocal?_shown (hm : m.Proper) {date : CalendarDate} (hdate : date.dayNumber = m.day) :
    ofLocal? date (m.second / 3600) (m.second / 60 % 60)
      (m.second % 60 + m.nano / nanosPerSecond) (m.nano % nanosPerSecond) 0 = some m := by
  obtain ⟨hsecond, hnano, hleap⟩ := hm
  unfold nanosPerSecond at *
  have htime : ∀ shown, m.second / 3600 * 3600 + m.second / 60 % 60 * 60 + shown = m.second →
      ∀ total : Int, total = date.dayNumber * 86400 +
        (m.second / 3600 * 3600 + m.second / 60 % 60 * 60 + shown : Nat) - 0 * 60 →
      total / 86400 = m.day ∧ (total % 86400).toNat = m.second := by
    intro shown hshown total htotal
    rw [hshown, hdate] at htotal
    constructor <;> omega
  have hhour : ¬ 24 ≤ m.second / 3600 := by omega
  have hminute : ¬ 60 ≤ m.second / 60 % 60 := by omega
  unfold ofLocal? nanosPerSecond
  by_cases h : 1000000000 ≤ m.nano
  · -- a leap second is shown as one second more than its own
    have hshown : m.second % 60 + m.nano / 1000000000 = 60 := by
      have hlast := hleap h
      omega
    have hnanos : m.nano % 1000000000 + 1000000000 = m.nano := by omega
    obtain ⟨hday, hrest⟩ := htime 59 (by have hlast := hleap h; omega) _ rfl
    simp only [hhour, hminute, hshown, hnanos, hday, hrest, Nat.reduceLeDiff,
      decide_false, Bool.or_false, Bool.false_eq_true, if_false, if_true]
  · have hshown : m.second % 60 + m.nano / 1000000000 = m.second % 60 := by omega
    have hleast : ¬ 61 ≤ m.second % 60 ∧ m.second % 60 ≠ 60 := by omega
    have hnanos : m.nano % 1000000000 = m.nano := by omega
    obtain ⟨hday, hrest⟩ := htime (m.second % 60) (by omega) _ rfl
    simp only [hhour, hminute, hshown, hleast, hnanos, hday, hrest, Nat.add_zero, decide_false,
      Bool.or_false, Bool.false_eq_true, if_false]

/-- A moment of a year of four digits is read back from its text. -/
theorem readTimestamp?_text (hm : m.Proper) (hfirst : 0 ≤ m.year) (hlast : m.year ≤ 9999) :
    readTimestamp? m.text.toList = some m := by
  obtain ⟨hsecond, hnano, -⟩ := id hm
  have hdate : (ofDayNumber m.day).Exists := by
    refine exists_iff.mpr ⟨⟨?_, ?_⟩, ofDayNumber_fits m.day⟩
    · exact Int.le_trans (by decide) hfirst
    · exact Int.le_trans hlast (by decide)
  obtain ⟨hmonth, hday⟩ := ofDayNumber_lt_hundred m.day
  have hyear : (m.year.toNat : Int) = m.year := Int.toNat_of_nonneg hfirst
  have hchars : yearChars (ofDayNumber m.day).year = padded 4 m.year.toNat := by
    change yearChars m.year = _
    unfold yearChars
    rw [if_pos (by simp [hfirst, hlast])]
  have hof : of? (m.year.toNat : Int) (ofDayNumber m.day).month (ofDayNumber m.day).day =
      some (ofDayNumber m.day) := by
    rw [hyear]
    exact hdate
  have hlastSecond : m.second % 60 + m.nano / nanosPerSecond < 10 ^ 2 := by
    unfold nanosPerSecond at hnano ⊢
    omega
  rw [text_toList, chars, hchars]
  simp only [List.append_assoc, List.cons_append]
  rw [readTimestamp?_chars (by omega) hmonth hday (by omega) (by omega) hlastSecond
    (Nat.mod_lt _ (by decide)), hof, Option.bind_some]
  exact ofLocal?_shown hm (dayNumber_ofDayNumber m.day)

/-- A text that starts with a sign is no timestamp, and no date if a time of day follows. -/
theorem readChars?_text_of_signed (hm : ¬ (0 ≤ m.year ∧ m.year ≤ 9999)) :
    readChars? m.text.toList = none := by
  have hsign : ∃ sign more, (sign = '-' ∨ sign = '+') ∧ m.text.toList = sign :: more := by
    have hchars : yearChars (ofDayNumber m.day).year =
        (if m.year < 0 then '-' else '+') :: padded 4 m.year.natAbs :=
      if_neg (by rw [Bool.and_eq_true, decide_eq_true_iff, decide_eq_true_iff]; exact hm)
    rw [text_toList, chars, hchars]
    exact ⟨_, _, by split <;> simp, rfl⟩
  have htimestamp : readTimestamp? m.text.toList = none := by
    obtain ⟨sign, more, hsign, htext⟩ := hsign
    have hdigits : readDigits? 4 (sign :: more) = none := by
      have hno : sign.isDigit = false := by rcases hsign with rfl | rfl <;> rfl
      simp [readDigits?, hno]
    unfold readTimestamp?
    rw [htext, hdigits]
    rfl
  have hdated : CalendarDate.readChars? m.text.toList = none := by
    have hbounds := ofDayNumber_lt_hundred m.day
    rw [text_toList, readChars?_append hbounds.1 hbounds.2 (noDigit_cons (by decide))]
    rfl
  unfold readChars?
  rw [htimestamp, hdated]
  rfl

/-- Just the moments of years of four digits are read back from their texts. -/
theorem readChars?_text_iff (hm : m.Proper) {other : Moment} :
    readChars? m.text.toList = some other ↔ other = m ∧ 0 ≤ m.year ∧ m.year ≤ 9999 := by
  by_cases hyear : 0 ≤ m.year ∧ m.year ≤ 9999
  · unfold readChars?
    rw [readTimestamp?_text hm hyear.1 hyear.2, Option.some_or, Option.some.injEq]
    exact ⟨fun h => ⟨h.symm, hyear⟩, fun h => h.1.symm⟩
  · rw [readChars?_text_of_signed hyear]
    simp [hyear]

/-- Whatever a text writes is a time of day. -/
theorem proper_midnight (d : CalendarDate) : (midnight d).Proper where
  second := by simp [midnight]
  nano := by simp [midnight, nanosPerSecond]
  leap h := by simp [midnight, nanosPerSecond] at h

theorem proper_ofLocal? {date : CalendarDate} {hour minute second nano : Nat} {offset : Int}
    (hnano : nano < nanosPerSecond)
    (h : ofLocal? date hour minute second nano offset = some m) : m.Proper := by
  unfold nanosPerSecond at hnano
  unfold ofLocal? at h
  split at h
  · cases h
  · cases h
    refine ⟨?_, ?_, fun hleap => ?_⟩
    · dsimp only
      omega
    · unfold nanosPerSecond
      dsimp only
      split <;> omega
    · unfold nanosPerSecond at hleap
      dsimp only at hleap ⊢
      split at hleap
      · next h => simp only [h, if_true]; omega
      · omega

theorem readFraction?_lt {cs : List Char} {nano : Nat} (h : readFraction? cs = some (nano, rest)) :
    nano < nanosPerSecond := by
  unfold readFraction? at h
  split at h
  · next more =>
    dsimp only at h
    split at h
    · cases h
    · cases h
      have hdigits : ∀ c ∈ (more.takeWhile Char.isDigit).take 9, c.isDigit = true := fun c hc =>
        List.all_eq_true.mp List.all_takeWhile c (List.mem_of_mem_take hc)
      have hvalue := digitsValue_lt hdigits
      have hlength : ((more.takeWhile Char.isDigit).take 9).length ≤ 9 := List.length_take_le 9 _
      calc Numeral.digitsValue ((more.takeWhile Char.isDigit).take 9) *
            10 ^ (9 - ((more.takeWhile Char.isDigit).take 9).length)
          < 10 ^ ((more.takeWhile Char.isDigit).take 9).length *
            10 ^ (9 - ((more.takeWhile Char.isDigit).take 9).length) :=
              Nat.mul_lt_mul_of_pos_right hvalue (Nat.pow_pos (by decide))
        _ = 10 ^ 9 := by rw [← Nat.pow_add, Nat.add_sub_cancel' hlength]
  · cases h
    decide

theorem proper_readTimestamp? {cs : List Char} (h : readTimestamp? cs = some m) : m.Proper := by
  unfold readTimestamp? at h
  obtain ⟨_, -, h⟩ := Option.bind_eq_some_iff.mp h
  obtain ⟨_, -, h⟩ := Option.bind_eq_some_iff.mp h
  obtain ⟨_, -, h⟩ := Option.bind_eq_some_iff.mp h
  obtain ⟨_, -, h⟩ := Option.bind_eq_some_iff.mp h
  obtain ⟨_, -, h⟩ := Option.bind_eq_some_iff.mp h
  obtain ⟨_, -, h⟩ := Option.bind_eq_some_iff.mp h
  obtain ⟨_, -, h⟩ := Option.bind_eq_some_iff.mp h
  obtain ⟨_, -, h⟩ := Option.bind_eq_some_iff.mp h
  obtain ⟨_, -, h⟩ := Option.bind_eq_some_iff.mp h
  obtain ⟨_, -, h⟩ := Option.bind_eq_some_iff.mp h
  obtain ⟨_, -, h⟩ := Option.bind_eq_some_iff.mp h
  obtain ⟨_, hfraction, h⟩ := Option.bind_eq_some_iff.mp h
  obtain ⟨_, -, h⟩ := Option.bind_eq_some_iff.mp h
  obtain ⟨_, -, h⟩ := Option.bind_eq_some_iff.mp h
  exact proper_ofLocal? (readFraction?_lt hfraction) h

theorem proper_readChars? {cs : List Char} (h : readChars? cs = some m) : m.Proper := by
  rcases Option.or_eq_some_iff.mp h with h | ⟨-, h⟩
  · exact proper_readTimestamp? h
  · obtain ⟨d, -, rfl⟩ := Option.map_eq_some_iff.mp h
    exact proper_midnight d

theorem proper_ofMillis? {millis : Int} (h : ofMillis? millis = some m) : m.Proper := by
  unfold ofMillis? at h
  dsimp only at h
  split at h
  · cases h
    refine ⟨?_, ?_, fun hleap => ?_⟩
    · dsimp only
      omega
    · unfold nanosPerSecond
      dsimp only
      omega
    · unfold nanosPerSecond at hleap
      dsimp only at hleap
      omega
  · cases h

end Moment

end Conform
