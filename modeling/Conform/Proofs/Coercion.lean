import Conform.Coercion
import Conform.Proofs.Calendar
import Conform.Proofs.Simulation
import Mathlib.Data.List.Lemmas
import Mathlib.Tactic.Conv

/-!
# Coerced forms

What each coercion makes of a value, and what it makes of that. Every form goes
through its coercion unchanged but one: a timestamp of a year that needs a sign.
-/

namespace Conform

namespace Uuid

/-- 32 hexadecimal digits in lower case. -/
structure Proper (u : Uuid) : Prop where
  length : u.digits.length = 32
  digit : ∀ c ∈ u.digits, Text.isHexDigit c = true
  lower : ∀ c ∈ u.digits, c.toLower = c

variable {u : Uuid} {cs : List Char}

theorem toNat_of_isHexDigit {c : Char} (h : Text.isHexDigit c = true) :
    48 ≤ c.toNat ∧ c.toNat ≤ 57 ∨ 97 ≤ c.toNat ∧ c.toNat ≤ 102 ∨ 65 ≤ c.toNat ∧ c.toNat ≤ 70 := by
  simp only [Text.isHexDigit, Text.hexDigit?] at h
  split_ifs at h with hdigit hlower hupper
  · left
    simpa [Char.isDigit, UInt32.le_iff_toNat_le] using hdigit
  · right; left
    simpa [Char.le_def, UInt32.le_iff_toNat_le] using hlower
  · right; right
    simpa [Char.le_def, UInt32.le_iff_toNat_le] using hupper
  · cases h

theorem isHexDigit_toLower {c : Char} (h : Text.isHexDigit c = true) :
    Text.isHexDigit c.toLower = true ∧ c.toLower.toLower = c.toLower := by
  have hrange := toNat_of_isHexDigit h
  rw [← Char.ofNat_toNat c]
  generalize c.toNat = n at hrange
  rcases hrange with ⟨hlow, hhigh⟩ | ⟨hlow, hhigh⟩ | ⟨hlow, hhigh⟩ <;> interval_cases n <;> decide

theorem proper_ofDigits? (h : ofDigits? cs = some u) : u.Proper := by
  unfold ofDigits? at h
  split at h
  · next hcs =>
    rw [Bool.and_eq_true, decide_eq_true_iff, List.all_eq_true] at hcs
    cases h
    refine ⟨by rw [List.length_map]; exact hcs.1, ?_, ?_⟩
    · intro c hc
      obtain ⟨d, hd, rfl⟩ := List.mem_map.mp hc
      exact (isHexDigit_toLower (hcs.2 d hd)).1
    · intro c hc
      obtain ⟨d, hd, rfl⟩ := List.mem_map.mp hc
      exact (isHexDigit_toLower (hcs.2 d hd)).2
  · cases h

theorem proper_readChars? (h : readChars? cs = some u) : u.Proper := by
  have hhyphenated : ∀ {cs}, ofHyphenated? cs = some u → u.Proper := by
    intro cs h
    unfold ofHyphenated? at h
    split at h
    · exact proper_ofDigits? h
    · cases h
  unfold readChars? at h
  split_ifs at h
  · exact proper_ofDigits? h
  · exact hhyphenated h
  · exact hhyphenated h
  · exact hhyphenated h

theorem ofDigits?_digits (h : u.Proper) : ofDigits? u.digits = some u := by
  obtain ⟨digits⟩ := u
  obtain ⟨hlength, hdigit, hlower⟩ := h
  have hmap : digits.map Char.toLower = digits := by
    conv_rhs => rw [← List.map_id digits]
    exact List.map_congr_left hlower
  unfold ofDigits?
  rw [if_pos (by simp [hlength]; exact hdigit), hmap]

/-- Groups with hyphens between them read as the digits of the groups. -/
theorem ofHyphenated?_groups {a b c d e : List Char} (ha : a.length = 8) (hb : b.length = 4)
    (hc : c.length = 4) (hd : d.length = 4) (he : e.length = 12) :
    ofHyphenated? (a ++ '-' :: (b ++ '-' :: (c ++ '-' :: (d ++ '-' :: e)))) =
      ofDigits? (a ++ b ++ c ++ d ++ e) := by
  unfold ofHyphenated? hyphenPlaces
  rw [if_pos]
  · simp [List.drop_append, ha, hb, hc, hd, List.drop_of_length_le]
  · simp [List.getElem?_append, ha, hb, hc, hd, he]

theorem readChars?_text (h : u.Proper) : readChars? u.text.toList = some u := by
  obtain ⟨digits⟩ := u
  have hlength := h.length
  have htext : (text ⟨digits⟩).toList = digits.take 8 ++ '-' :: ((digits.drop 8).take 4 ++
      '-' :: ((digits.drop 12).take 4 ++ '-' :: ((digits.drop 16).take 4 ++
        '-' :: digits.drop 20))) := by
    simp [text]
  have hgroups : digits.take 8 ++ (digits.drop 8).take 4 ++ (digits.drop 12).take 4 ++
      (digits.drop 16).take 4 ++ digits.drop 20 = digits := by
    rw [← List.take_add, ← List.take_add, ← List.take_add, List.take_append_drop]
  have hhyphenated : ofHyphenated? (text ⟨digits⟩).toList = some ⟨digits⟩ := by
    rw [htext, ofHyphenated?_groups (by simp [hlength]) (by simp [hlength]) (by simp [hlength])
      (by simp [hlength]) (by simp [hlength]), hgroups]
    exact ofDigits?_digits h
  have hthirtySix : (text ⟨digits⟩).toList.length = 36 := by
    rw [htext]
    simp [hlength]
  unfold readChars?
  simp [hthirtySix, hhyphenated]

theorem notBlank_text (h : u.Proper) : ∀ c ∈ u.text.toList, Text.isBlank c = false := by
  have hdigit : ∀ c ∈ u.digits, Text.isBlank c = false := by
    intro c hc
    have hrange := toNat_of_isHexDigit (h.digit c hc)
    simp [Text.isBlank]
    omega
  intro c hc
  simp only [text, String.toList_ofList, List.append_assoc, List.cons_append, List.mem_append,
    List.mem_cons] at hc
  rcases hc with hc | rfl | hc | rfl | hc | rfl | hc | rfl | hc
  · exact hdigit c (List.mem_of_mem_take hc)
  · rfl
  · exact hdigit c (List.mem_of_mem_drop (List.mem_of_mem_take hc))
  · rfl
  · exact hdigit c (List.mem_of_mem_drop (List.mem_of_mem_take hc))
  · rfl
  · exact hdigit c (List.mem_of_mem_drop (List.mem_of_mem_take hc))
  · rfl
  · exact hdigit c (List.mem_of_mem_drop hc)

end Uuid

namespace Double

theorem twoTo_eq (n : Nat) : twoTo n = 2 ^ n := rfl

theorem roundQuotient_one (n : Nat) : roundQuotient n 1 = n := by
  simp [roundQuotient, Nat.mod_one]

theorem quotientLog_one {n : Nat} (h : n ≠ 0) : quotientLog n 1 = Nat.log2 n := by
  have hlog : Nat.log2 1 = 0 := by decide
  have hle : 2 ^ Nat.log2 n ≤ n := Nat.log2_self_le h
  simp [quotientLog, hlog, twoTo_eq, hle]

/-- The bits of a small integer: its binade, and the integer moved up to the start of it. -/
theorem nearestBits_one {n k : Nat} (hn : n ≠ 0) (hk : Nat.log2 n + k = 52) :
    nearestBits n 1 = (1022 + Nat.log2 n) * 2 ^ 52 + n * 2 ^ k := by
  unfold nearestBits
  rw [if_neg hn, quotientLog_one hn]
  have hgrid : max ((Nat.log2 n : Int) - 52) (-1074) = -(k : Int) := by omega
  simp only [hgrid]
  have hshift : (-(k : Int) + 1074).toNat = 1022 + Nat.log2 n := by omega
  rw [hshift, neg_neg, Int.toNat_natCast]
  split
  · have hzero : k = 0 := by omega
    subst hzero
    simp [roundQuotient_one, twoTo_eq]
  · rw [roundQuotient_one, twoTo_eq, twoTo_eq]

/-- What a double with these bits stands for. -/
theorem ratio_of_bits {x : Double} {e m k : Nat} (hbits : x.bits = (1022 + e) * 2 ^ 52 + m)
    (hk : e + k = 52) (hlow : 2 ^ 52 ≤ m) (hhigh : m < 2 * 2 ^ 52) : x.ratio = (m, 2 ^ k) := by
  have hbinade : x.bits / 2 ^ 52 = 1023 + e := by omega
  have hrest : x.bits % 2 ^ 52 = m - 2 ^ 52 := by omega
  have hsignificand : x.significand = m := by
    unfold significand
    rw [if_neg (by rw [twoTo_eq]; omega), twoTo_eq, hrest]
    omega
  have hexponent : x.exponent = -(k : Int) := by
    unfold exponent
    rw [twoTo_eq, hbinade]
    omega
  unfold ratio
  rw [hsignificand, hexponent]
  split
  · have hzero : k = 0 := by omega
    subst hzero
    rw [twoTo_eq]
    simp
  · rw [twoTo_eq, neg_neg, Int.toNat_natCast]

/-- A small integer is its nearest double. -/
theorem ofInt_ratio {i : Int} (hi : i ≠ 0) (h : i.natAbs < 2 ^ 53) :
    ∃ k, (ofInt i).ratio = (i.natAbs * 2 ^ k, 2 ^ k) := by
  have hn : i.natAbs ≠ 0 := Int.natAbs_ne_zero.mpr hi
  have hlog : Nat.log2 i.natAbs < 53 := (Nat.log2_lt hn).mpr h
  obtain ⟨k, hk⟩ := Nat.exists_eq_add_of_le (Nat.le_of_lt_succ hlog)
  have hbits := nearestBits_one hn hk.symm
  have hlow : 2 ^ 52 ≤ i.natAbs * 2 ^ k := by
    rw [hk, Nat.pow_add]
    exact Nat.mul_le_mul_right _ (Nat.log2_self_le hn)
  have hhigh : i.natAbs * 2 ^ k < 2 * 2 ^ 52 := by
    rw [hk, Nat.pow_add, ← Nat.mul_assoc, ← Nat.pow_succ']
    exact Nat.mul_lt_mul_of_pos_right Nat.lt_log2_self (Nat.pow_pos (by decide))
  have hfinite : nearestBits i.natAbs 1 < 2047 * twoTo 52 := by
    rw [hbits, twoTo_eq]
    omega
  refine ⟨k, ?_⟩
  unfold ofInt ofQuotient?
  rw [dif_pos hfinite]
  exact ratio_of_bits hbits hk.symm hlow hhigh

theorem isWhole_of_zero {x : Double} (h : x.bits = 0) : x.isWhole = true := by
  have hsignificand : x.significand = 0 := by
    unfold significand
    rw [h]
    exact if_pos (Nat.pow_pos (by decide))
  unfold isWhole ratio
  split <;> simp [hsignificand]

theorem isWhole_ofInt {i : Int} (h : i.natAbs < 2 ^ 53) : (ofInt i).isWhole = true := by
  by_cases hi : i = 0
  · have hbits : nearestBits i.natAbs 1 = 0 := if_pos (Int.natAbs_eq_zero.mpr hi)
    have hfinite : nearestBits i.natAbs 1 < 2047 * twoTo 52 := by
      rw [hbits]
      decide
    refine isWhole_of_zero ?_
    unfold ofInt ofQuotient?
    rw [dif_pos hfinite]
    exact hbits
  · obtain ⟨k, hratio⟩ := ofInt_ratio hi h
    simp [isWhole, hratio]

end Double

theorem CalendarDate.hyphen_mem_chars (d : CalendarDate) : '-' ∈ d.chars := by
  simp [chars]

/-- The texts that a format makes of values. -/
def Format.Writes : Option Format → String → Prop
  | none, _ => True
  | some .dateTime, text => ∃ m : Moment, m.Proper ∧ text = m.text
  | some .date, text => ∃ d : CalendarDate, d.Exists ∧ text = d.text
  | some .email, text => Email.isAddress text = true
  | some .url, text => Url.isAbsolute text = true
  | some .uuid, text => ∃ u : Uuid, u.Proper ∧ text = u.text

/-- The texts that a format makes of themselves: a timestamp needs a year of four digits. -/
def Format.Keeps : Option Format → String → Prop
  | some .dateTime, text =>
    ∃ m : Moment, m.Proper ∧ text = m.text ∧ 0 ≤ m.year ∧ m.year ≤ 9999
  | _, _ => True

namespace Coerce

variable {v : Json} {s text : String} {n : Number} {integer : Bool} {format : Option Format}

theorem bind_ok_iff {α β : Type} {x : Result α} {f : α → Result β} {b : β} :
    (x >>= f) = .ok b ↔ ∃ a, x = .ok a ∧ f a = .ok b := by
  constructor
  · exact exists_ok_of_bind
  · rintro ⟨a, rfl, h⟩
    exact h

theorem orReason_eq_ok_iff {α : Type} {reason : Reason} {found : Option α} {a : α} :
    orReason reason found = .ok a ↔ found = some a := by
  cases found <;> simp [orReason]

/-- A date is tried once more, to no effect. -/
theorem momentOf?_eq (cs : List Char) : momentOf? cs = Moment.readChars? cs := by
  unfold momentOf? Moment.readChars?
  rw [Option.or_assoc, Option.or_self]

theorem dateTime_writes (h : dateTime v = .ok text) : Format.Writes (some .dateTime) text := by
  unfold dateTime at h
  split at h
  · obtain ⟨m, hread, hm⟩ := bind_ok_iff.mp h
    rw [orReason_eq_ok_iff, momentOf?_eq] at hread
    cases hm
    exact ⟨m, Moment.proper_readChars? hread, rfl⟩
  · split at h
    · obtain ⟨m, hread, hm⟩ := bind_ok_iff.mp h
      rw [orReason_eq_ok_iff] at hread
      cases hm
      exact ⟨m, Moment.proper_ofMillis? hread, rfl⟩
    · cases h
  · cases h

/-- What a format makes of a value is one of its texts. -/
theorem formatted_writes (h : formatted format v = .ok text) : Format.Writes format text := by
  cases format with
  | none => trivial
  | some f =>
    cases f with
    | dateTime => exact dateTime_writes h
    | date =>
      obtain ⟨s, -, h⟩ := bind_ok_iff.mp h
      obtain ⟨d, hread, hd⟩ := bind_ok_iff.mp h
      rw [orReason_eq_ok_iff] at hread
      cases hd
      exact ⟨d, CalendarDate.exists_of_readChars? hread, rfl⟩
    | uuid =>
      obtain ⟨s, -, h⟩ := bind_ok_iff.mp h
      obtain ⟨u, hread, hu⟩ := bind_ok_iff.mp h
      rw [orReason_eq_ok_iff] at hread
      cases hu
      exact ⟨u, Uuid.proper_readChars? hread, rfl⟩
    | _ =>
      obtain ⟨s, -, h⟩ := bind_ok_iff.mp h
      unfold checked at h
      split at h
      · cases h
        assumption
      · cases h

theorem formatted_dateTime_str (s : String) : formatted (some .dateTime) (.str s) =
    orReason .invalidDate (momentOf? (Text.trimChars s.toList)) >>= fun m => .ok m.text := rfl

theorem formatted_date_str (s : String) : formatted (some .date) (.str s) =
    orReason .invalidDate (CalendarDate.readChars? (Text.trimChars s.toList)) >>=
      fun d => .ok d.text := rfl

theorem formatted_uuid_str (s : String) : formatted (some .uuid) (.str s) =
    orReason .invalidFormat (Uuid.readChars? (Text.trimChars s.toList)) >>=
      fun u => .ok u.text := rfl

/-- A text of a format comes out of it unchanged where the format keeps it. -/
theorem formatted_str_iff (h : Format.Writes format text) :
    formatted format (.str text) = .ok text ↔ Format.Keeps format text := by
  cases format with
  | none => exact ⟨fun _ => trivial, fun _ => rfl⟩
  | some f =>
    cases f with
    | dateTime =>
      obtain ⟨m, hm, rfl⟩ := h
      rw [formatted_dateTime_str, bind_ok_iff, Text.trimChars_eq Moment.notBlank_text, momentOf?_eq]
      constructor
      · rintro ⟨other, hread, -⟩
        rw [orReason_eq_ok_iff, Moment.readChars?_text_iff hm] at hread
        exact ⟨m, hm, rfl, hread.2⟩
      · rintro ⟨other, hother, htext, hyear⟩
        refine ⟨other, ?_, by rw [htext]⟩
        rw [orReason_eq_ok_iff, htext, Moment.readChars?_text_iff hother]
        exact ⟨rfl, hyear⟩
    | date =>
      obtain ⟨d, hd, rfl⟩ := h
      refine ⟨fun _ => trivial, fun _ => ?_⟩
      rw [formatted_date_str, bind_ok_iff]
      refine ⟨d, ?_, rfl⟩
      rw [orReason_eq_ok_iff, CalendarDate.text, String.toList_ofList,
        Text.trimChars_eq CalendarDate.notBlank_chars, CalendarDate.readChars?_chars hd]
    | uuid =>
      obtain ⟨u, hu, rfl⟩ := h
      refine ⟨fun _ => trivial, fun _ => ?_⟩
      rw [formatted_uuid_str, bind_ok_iff]
      refine ⟨u, ?_, rfl⟩
      rw [orReason_eq_ok_iff, Text.trimChars_eq (Uuid.notBlank_text hu), Uuid.readChars?_text hu]
    | email => exact ⟨fun _ => trivial, fun _ => if_pos h⟩
    | url => exact ⟨fun _ => trivial, fun _ => if_pos h⟩

theorem whole_ok_iff {x : Double} : whole integer x n = .ok n ↔
    (integer = true → x.isWhole = true) := by
  unfold whole
  split
  · next h => simpa using h
  · next h => simpa using h

/-- The number that a whole double is read as is whole. -/
theorem isWhole_numberOf {x : Double} (h : x.isWhole = true) :
    (numberOf x).toDouble.isWhole = true := by
  unfold numberOf
  split
  · next hsmall =>
    rw [Bool.and_eq_true, decide_eq_true_iff] at hsmall
    exact Double.isWhole_ofInt hsmall.2
  · exact h

theorem eq_of_whole {x : Double} {other : Number} (h : whole integer x other = .ok n) :
    other = n := by
  unfold whole at h
  split at h
  · cases h
  · cases h
    rfl

/-- An integer that was asked for is one. -/
theorem isWhole_of_number (h : number integer v = .ok n) :
    integer = true → n.toDouble.isWhole = true := by
  intro hinteger
  unfold number at h
  split at h
  · have heq := eq_of_whole h
    subst heq
    exact whole_ok_iff.mp h hinteger
  · obtain ⟨x, -, h⟩ := bind_ok_iff.mp h
    have heq := eq_of_whole h
    subst heq
    exact isWhole_numberOf (whole_ok_iff.mp h hinteger)
  · cases h

/-- A number goes through unchanged where it is whole, or need not be. -/
theorem number_num_iff : number integer (.num n) = .ok n ↔
    (integer = true → n.toDouble.isWhole = true) := whole_ok_iff

/-- A text with more than letters in it is not the one that stands for no value. -/
theorem ne_undefined {c : Char} (h : c.isAlpha = false) (hmem : c ∈ s.toList) :
    s ≠ "undefined" := by
  rintro rfl
  have hletters : "undefined".toList.all Char.isAlpha = true := by decide
  rw [List.all_eq_true.mp hletters c hmem] at h
  cases h

theorem natText_ne_undefined (n : Nat) : Nat.repr n ≠ "undefined" := by
  cases hdigits : Nat.toDigits 10 n with
  | nil => exact absurd hdigits Nat.toDigits_ne_nil
  | cons c rest =>
    have hmem : c ∈ Nat.toDigits 10 n := hdigits ▸ List.mem_cons_self
    have hrange := Text.toNat_of_isDigit (Nat.isDigit_of_mem_toDigits (by decide) (by decide) hmem)
    have halpha : c.isAlpha = false := by
      unfold Char.isAlpha Char.isUpper Char.isLower
      simp [UInt32.le_iff_toNat_le]
      omega
    refine ne_undefined halpha ?_
    simp [Nat.repr, hmem]

theorem intText_ne_undefined (i : Int) : toString i ≠ "undefined" := by
  cases i with
  | ofNat n => exact natText_ne_undefined n
  | negSucc n =>
    change "-" ++ Nat.repr (n + 1) ≠ "undefined"
    exact ne_undefined (by decide : '-'.isAlpha = false) (by simp)

theorem doubleText_ne_undefined (x : Double) : x.text ≠ "undefined" := by
  unfold Double.text
  dsimp only
  split
  · exact ne_undefined (by decide : '.'.isAlpha = false) (by simp)
  · by_cases hlead : (Decimal.shortest x).leadPower < 0
    · exact ne_undefined (by decide : '-'.isAlpha = false) (by simp [hlead])
    · exact ne_undefined (by decide : '+'.isAlpha = false) (by simp [hlead])

/-- Only the text that stands for no value is coerced to it. -/
theorem eq_of_formatted_undefined (h : formatted format v = .ok "undefined") :
    v = .str "undefined" := by
  have htext : ∀ {s}, text v = .ok s → s = "undefined" → v = .str "undefined" := by
    rintro s htext rfl
    cases v with
    | str s => cases htext; rfl
    | num n =>
      cases n with
      | int i => exact absurd (Except.ok.inj htext) (intText_ne_undefined i)
      | float x => exact absurd (Except.ok.inj htext) (doubleText_ne_undefined x)
    | bool b => cases b <;> exact absurd (Except.ok.inj htext) (by decide)
    | _ => cases htext
  have hwrites := formatted_writes h
  have hyphen : '-'.isAlpha = false := by decide
  cases format with
  | none => exact htext h rfl
  | some f =>
    cases f with
    | dateTime =>
      obtain ⟨m, -, heq⟩ := hwrites
      refine absurd heq.symm (ne_undefined hyphen ?_)
      rw [Moment.text_toList]
      exact List.mem_append_left _ (CalendarDate.hyphen_mem_chars _)
    | date =>
      obtain ⟨d, -, heq⟩ := hwrites
      refine absurd heq.symm (ne_undefined hyphen ?_)
      rw [CalendarDate.text, String.toList_ofList]
      exact CalendarDate.hyphen_mem_chars d
    | uuid =>
      obtain ⟨u, -, heq⟩ := hwrites
      exact absurd heq.symm (ne_undefined hyphen (by simp [Uuid.text]))
    | _ =>
      obtain ⟨s, hs, h⟩ := bind_ok_iff.mp h
      unfold checked at h
      split at h
      · cases h
        exact htext hs rfl
      · cases h

end Coerce

end Conform
