import Conform.Json.Printer
import Conform.Proofs.Calendar
import Conform.Proofs.Reading
import Mathlib.Data.List.TakeWhile

/-!
# Printed values are read back

The text of a value without floats is read as that value. Reading goes token
by token, so the machine is followed along the text: where a value may stand,
its text makes the machine deliver it to the container around it.
-/

namespace Conform

namespace Table

/-- What comes behind all keys is written at the end. -/
theorem insert_last {κ α : Type} [DecidableEq κ] [LT κ] [DecidableLT κ]
    [IsStrictTotalOrder κ (· < ·)] {k : κ} {v : α} {entries rest : List (κ × α)}
    (h : Ordered (entries ++ (k, v) :: rest)) : insert k v entries = entries ++ [(k, v)] := by
  induction entries with
  | nil => rfl
  | cons entry more ih =>
    obtain ⟨key, value⟩ := entry
    obtain ⟨hhead, hmore⟩ := List.pairwise_cons.mp h
    have hlt : key < k := hhead k (by simp)
    unfold insert
    rw [if_neg fun heq => irrefl k (heq ▸ hlt), if_neg (asymm hlt), ih hmore]
    rfl

end Table

namespace Json

/-- A value without floats, whose integers are in range and whose objects are in order. -/
inductive Plain : Json → Prop
  | null : Plain .null
  | bool (b : Bool) : Plain (.bool b)
  | int {n : Int} : Number.InRange n → Plain (.num (.int n))
  | str (text : String) : Plain (.str text)
  | arr {items : List Json} : (∀ item ∈ items, item.Plain) → Plain (.arr items)
  | obj {fields : List (String × Json)} : Table.Ordered fields →
      (∀ entry ∈ fields, entry.2.Plain) → Plain (.obj fields)

section Strings

theorem readString?_quote (rest : List Char) : readString? ('"' :: rest) = some ([], rest) := by
  rw [readString?.eq_def]
  exact if_pos rfl

theorem readString?_plain {c : Char} (hquote : c ≠ '"') (hslash : c ≠ '\\')
    (hcontrol : ¬ c.toNat < 32) (rest : List Char) :
    readString? (c :: rest) = (readString? rest).map fun (cs, rest) => (c :: cs, rest) := by
  rw [readString?.eq_def]
  dsimp only
  rw [if_neg hquote, if_neg hslash, if_neg hcontrol]

theorem readString?_simple {e c : Char} (hsimple : simpleEscape? e = some c) (hcode : e ≠ 'u')
    (rest : List Char) :
    readString? ('\\' :: e :: rest) = (readString? rest).map fun (cs, rest) => (c :: cs, rest) := by
  rw [readString?.eq_def]
  dsimp only
  rw [if_neg (by decide), if_pos rfl, if_neg hcode, hsimple]

/-- A control character is written by its number. -/
theorem readString?_code {n : Nat} (h : n < 32) (rest : List Char) :
    readString? ('\\' :: 'u' :: '0' :: '0' :: hexDigit (n / 16) :: hexDigit (n % 16) :: rest) =
      (readString? rest).map fun (cs, rest) => (Char.ofNat n :: cs, rest) := by
  have hdigits : ∀ n < 32,
      Text.number? 16 ['0', '0', hexDigit (n / 16), hexDigit (n % 16)] = some n := by decide
  rw [readString?.eq_def]
  dsimp only
  rw [if_neg (by decide), if_pos rfl, if_pos rfl, hdigits n h]
  dsimp only
  rw [if_neg (by simp; omega), if_neg (by simp; omega)]

/-- A character that is escaped where it must be is read as itself. -/
theorem readString?_escapeChar (c : Char) (rest : List Char) :
    readString? (escapeChar c ++ rest) =
      (readString? rest).map fun (cs, rest) => (c :: cs, rest) := by
  have hself : ∀ n, c.toNat = n → Char.ofNat n = c := fun n h => h ▸ Char.ofNat_toNat c
  unfold escapeChar
  split_ifs with hquote hslash hline hreturn htab hback hform hcontrol
  · subst hquote
    exact readString?_simple rfl (by decide) rest
  · subst hslash
    exact readString?_simple rfl (by decide) rest
  · subst hline
    exact readString?_simple rfl (by decide) rest
  · subst hreturn
    exact readString?_simple rfl (by decide) rest
  · subst htab
    exact readString?_simple rfl (by decide) rest
  · rw [← hself 8 hback]
    exact readString?_simple rfl (by decide) rest
  · rw [← hself 12 hform]
    exact readString?_simple rfl (by decide) rest
  · have hread := readString?_code hcontrol rest
    rw [hself c.toNat rfl] at hread
    exact hread
  · exact readString?_plain hquote hslash hcontrol rest

theorem readString?_escaped (cs rest : List Char) :
    readString? (cs.flatMap escapeChar ++ '"' :: rest) = some (cs, rest) := by
  induction cs with
  | nil => exact readString?_quote rest
  | cons c cs ih =>
    rw [List.flatMap_cons, List.append_assoc, readString?_escapeChar, ih]
    rfl

theorem quote_toList (s : String) :
    (quote s).toList = '"' :: (s.toList.flatMap escapeChar ++ ['"']) := String.toList_ofList

theorem readToken?_quote (s : String) (rest : List Char) :
    readToken? '"' (s.toList.flatMap escapeChar ++ '"' :: rest) = some (.scalar (.str s), rest) := by
  change (readString? _).map _ = _
  rw [readString?_escaped, Option.map_some]
  dsimp only
  rw [String.ofList_toList]

end Strings

section Numbers

open CalendarDate

variable {n : Nat} {ds rest : List Char}

/-- What follows cannot belong to a number. -/
def Ends (rest : List Char) : Prop :=
  ∀ c ∈ rest.head?, c.isDigit = false ∧ c ≠ '.' ∧ c ≠ 'e' ∧ c ≠ 'E'

theorem ends_nil : Ends [] := nofun

theorem ends_cons {c : Char} (h : c.isDigit = false ∧ c ≠ '.' ∧ c ≠ 'e' ∧ c ≠ 'E') :
    Ends (c :: rest) := by
  intro first hfirst
  cases hfirst
  exact h

theorem Ends.noDigit (h : Ends rest) : NoDigit rest := fun c hc => (h c hc).1

/-- The digits of a number, and nothing else. -/
theorem spanDigits_append (hds : ∀ c ∈ ds, c.isDigit = true) (hrest : NoDigit rest) :
    spanDigits (ds ++ rest) = (ds, rest) := by
  unfold spanDigits
  rw [List.takeWhile_append_of_pos hds, List.dropWhile_append_of_pos hds]
  cases rest with
  | nil => simp
  | cons c rest =>
    have hc : c.isDigit = false := hrest c rfl
    rw [List.takeWhile_cons_of_neg (by simp [hc]), List.dropWhile_cons_of_neg (by simp [hc]),
      List.append_nil]

theorem spanFraction_of_ends (h : Ends rest) : spanFraction rest = ([], rest) := by
  cases rest with
  | nil => rfl
  | cons c rest =>
    have hpoint : c ≠ '.' := (h c rfl).2.1
    unfold spanFraction
    split
    · next heq =>
      cases heq
      exact absurd rfl hpoint
    · rfl

theorem spanExponent_of_ends (h : Ends rest) : spanExponent rest = ([], rest) := by
  unfold spanExponent
  split
  · next mark sign rest =>
    have hmark := (h mark rfl).2.2
    rw [if_neg (by simpa using hmark)]
  · next mark =>
    have hmark := (h mark rfl).2.2
    rw [if_neg (by simpa using hmark)]
  · rfl

theorem ne_sign_of_isDigit {c : Char} (h : c.isDigit = true) : c ≠ '-' ∧ c ≠ '+' := by
  constructor <;> (rintro rfl; cases h)

theorem spanWhole_digits (hds : ∀ c ∈ ds, c.isDigit = true) (hne : ds ≠ []) (hrest : NoDigit rest) :
    spanWhole (ds ++ rest) = (ds, rest) := by
  cases ds with
  | nil => exact absurd rfl hne
  | cons d ds =>
    have hminus := (ne_sign_of_isDigit (hds d List.mem_cons_self)).1
    unfold spanWhole
    split
    · next heq =>
      cases heq
      exact absurd rfl hminus
    · exact spanDigits_append hds hrest

/-- A number ends where its digits end. -/
theorem spanNumber_digits (hds : ∀ c ∈ ds, c.isDigit = true) (hne : ds ≠ []) (hrest : Ends rest) :
    spanNumber (ds ++ rest) = (ds, rest) ∧ spanNumber ('-' :: (ds ++ rest)) = ('-' :: ds, rest) := by
  constructor
  · unfold spanNumber
    rw [spanWhole_digits hds hne hrest.noDigit]
    dsimp only
    rw [spanFraction_of_ends hrest]
    dsimp only
    rw [spanExponent_of_ends hrest]
    simp
  · have hwhole : spanWhole ('-' :: (ds ++ rest)) = ('-' :: ds, rest) := by
      change ('-' :: (spanDigits (ds ++ rest)).1, (spanDigits (ds ++ rest)).2) = _
      rw [spanDigits_append hds hrest.noDigit]
    unfold spanNumber
    rw [hwhole]
    dsimp only
    rw [spanFraction_of_ends hrest]
    dsimp only
    rw [spanExponent_of_ends hrest]
    simp

theorem isDigit_of_mem_toDigits {c : Char} (h : c ∈ Nat.toDigits 10 n) : c.isDigit = true :=
  Nat.isDigit_of_mem_toDigits (by decide) (by decide) h

/-- Only zero is written with a zero in front. -/
theorem toDigits_zero_cons (h : Nat.toDigits 10 n = '0' :: ds) : ds = [] := by
  have hvalue : Numeral.digitsValue ds = n := by
    have hall : Numeral.digitsValue ('0' :: ds) = n := by
      rw [← h, digitsValue_eq]
      exact Nat.ofDigitChars_ten_toDigits
    exact hall
  cases ds with
  | nil => rfl
  | cons d more =>
    have hdigits : ∀ c ∈ d :: more, c.isDigit = true := fun c hc =>
      isDigit_of_mem_toDigits (n := n) (h ▸ List.mem_cons_of_mem _ hc)
    have hlt := digitsValue_lt hdigits
    rw [hvalue] at hlt
    have hlength := (Nat.length_toDigits_le_iff (b := 10) (by decide) (Nat.succ_pos _)).mpr hlt
    rw [h] at hlength
    simp at hlength

/-- The numeral of an integer. -/
theorem readNumeral?_digits (n : Nat) :
    Numeral.read? (Nat.toDigits 10 n) = some ⟨none, Nat.toDigits 10 n, none, none⟩ ∧
    Numeral.read? ('-' :: Nat.toDigits 10 n) = some ⟨some '-', Nat.toDigits 10 n, none, none⟩ := by
  have hdigits : ∀ c ∈ Nat.toDigits 10 n, c.isDigit = true := fun _ => isDigit_of_mem_toDigits
  have htake : (Nat.toDigits 10 n).takeWhile Char.isDigit = Nat.toDigits 10 n :=
    List.takeWhile_eq_self_iff.mpr hdigits
  have hdrop : (Nat.toDigits 10 n).dropWhile Char.isDigit = [] :=
    List.dropWhile_eq_nil_iff.mpr hdigits
  have hsign : Numeral.takeSign (Nat.toDigits 10 n) = (none, Nat.toDigits 10 n) := by
    cases hcs : Nat.toDigits 10 n with
    | nil => rfl
    | cons d more =>
      obtain ⟨hminus, hplus⟩ := ne_sign_of_isDigit (hdigits d (hcs ▸ List.mem_cons_self))
      unfold Numeral.takeSign
      split
      · next heq =>
        cases heq
        exact absurd rfl hplus
      · next heq =>
        cases heq
        exact absurd rfl hminus
      · rfl
  have hne : (Nat.toDigits 10 n).isEmpty = false := List.isEmpty_eq_false_iff.mpr Nat.toDigits_ne_nil
  constructor
  · unfold Numeral.read?
    rw [hsign]
    simp [htake, hdrop, hne, Numeral.readExponent?]
  · unfold Numeral.read? Numeral.takeSign
    simp [htake, hdrop, hne, Numeral.readExponent?]

/-- The characters of an integer. -/
def intChars (i : Int) : List Char :=
  if i < 0 then '-' :: Nat.toDigits 10 i.natAbs else Nat.toDigits 10 i.natAbs

theorem toString_toList (i : Int) : (toString i).toList = intChars i := by
  cases i with
  | ofNat n =>
    change (Nat.repr n).toList = _
    simp [Nat.repr, intChars]
  | negSucc n =>
    change ("-" ++ Nat.repr (n + 1)).toList = _
    simp [Nat.repr, intChars, Int.negSucc_lt_zero]

/-- A numeral in the form of an integer stands for a number. -/
theorem readNumber?_of_numeral {cs : List Char} {m : Numeral} (h : Numeral.read? cs = some m)
    (hsign : m.sign ≠ some '+') (hwhole : m.whole ≠ []) (hzero : ∀ ds, m.whole = '0' :: ds → ds = [])
    (hfraction : m.fraction = none) : readNumber? cs = numberOf? m := by
  obtain ⟨sign, whole, fraction, exponent⟩ := m
  unfold readNumber?
  rw [h]
  cases whole with
  | nil => exact absurd rfl hwhole
  | cons c ds =>
    cases hfraction
    by_cases hc : c = '0'
    · subst hc
      cases hzero ds rfl
      exact if_pos (by simpa using hsign)
    · exact if_pos (by simpa [hc] using hsign)

theorem numberOf?_integer {m : Numeral} {i : Int} (hinteger : m.isInteger = true)
    (hint : m.toInt = i) (h : Number.InRange i) (hzero : m.negative = true → i ≠ 0) :
    numberOf? m = some (.int i) := by
  unfold numberOf?
  rw [hint]
  refine if_pos ?_
  cases hnegative : m.negative with
  | false => simp [hinteger, h]
  | true => simp [hinteger, h, hzero hnegative]

theorem readNumber?_intChars {i : Int} (h : Number.InRange i) :
    readNumber? (intChars i) = some (.int i) := by
  have hvalue : Numeral.digitsValue (Nat.toDigits 10 i.natAbs) = i.natAbs := by
    rw [digitsValue_eq]
    exact Nat.ofDigitChars_ten_toDigits
  have hzero : ∀ ds, Nat.toDigits 10 i.natAbs = '0' :: ds → ds = [] := fun _ => toDigits_zero_cons
  obtain ⟨hplain, hsigned⟩ := readNumeral?_digits i.natAbs
  unfold intChars
  split_ifs with hneg
  · rw [readNumber?_of_numeral hsigned (by simp) Nat.toDigits_ne_nil hzero rfl]
    refine numberOf?_integer rfl ?_ h fun _ => by omega
    change -(Numeral.digitsValue (Nat.toDigits 10 i.natAbs) : Int) = i
    omega
  · rw [readNumber?_of_numeral hplain (by simp) Nat.toDigits_ne_nil hzero rfl]
    refine numberOf?_integer rfl ?_ h nofun
    change (Numeral.digitsValue (Nat.toDigits 10 i.natAbs) : Int) = i
    omega

theorem readToken?_number {c : Char} {more number rest : List Char} {n : Number}
    (hc : c = '-' ∨ c.isDigit = true) (hspan : spanNumber (c :: more) = (number, rest))
    (hread : readNumber? number = some n) :
    isSpace c = false ∧ readToken? c more = some (.scalar (.num n), rest) := by
  have hplain : c ≠ '[' ∧ c ≠ ']' ∧ c ≠ '\x7b' ∧ c ≠ '\x7d' ∧ c ≠ ':' ∧ c ≠ ',' ∧ c ≠ '"' := by
    refine ⟨?_, ?_, ?_, ?_, ?_, ?_, ?_⟩ <;>
      (rintro rfl; rcases hc with hc | hc <;> revert hc <;> decide)
  obtain ⟨h1, h2, h3, h4, h5, h6, h7⟩ := hplain
  constructor
  · unfold isSpace
    simp only [Bool.or_eq_false_iff, beq_eq_false_iff_ne]
    refine ⟨⟨⟨?_, ?_⟩, ?_⟩, ?_⟩ <;> (rintro rfl; rcases hc with hc | hc <;> revert hc <;> decide)
  · unfold readToken?
    split
    · exact absurd rfl h1
    · exact absurd rfl h2
    · exact absurd rfl h3
    · exact absurd rfl h4
    · exact absurd rfl h5
    · exact absurd rfl h6
    · exact absurd rfl h7
    · rw [if_pos (by simpa using hc), hspan]
      dsimp only
      rw [hread]
      rfl

/-- An integer is one token. -/
theorem readToken?_intChars {i : Int} (h : Number.InRange i) (hrest : Ends rest) :
    ∃ c more, intChars i = c :: more ∧ isSpace c = false ∧
      readToken? c (more ++ rest) = some (.scalar (.num (.int i)), rest) := by
  have hdigits : ∀ c ∈ Nat.toDigits 10 i.natAbs, c.isDigit = true :=
    fun _ => isDigit_of_mem_toDigits
  obtain ⟨hplain, hsigned⟩ := spanNumber_digits hdigits Nat.toDigits_ne_nil hrest
  have hread := readNumber?_intChars h
  unfold intChars at hread ⊢
  split_ifs at hread ⊢ with hneg
  · exact ⟨'-', _, rfl, readToken?_number (Or.inl rfl) hsigned hread⟩
  · cases hcs : Nat.toDigits 10 i.natAbs with
    | nil => exact absurd hcs Nat.toDigits_ne_nil
    | cons d ds =>
      rw [hcs] at hplain hread
      have hd : d.isDigit = true := hdigits d (hcs ▸ List.mem_cons_self)
      exact ⟨d, ds, rfl, readToken?_number (Or.inr hd) hplain hread⟩

end Numbers

namespace Machine

variable {limit : Nat} {m next last : Machine} {c : Char} {rest more cs final : List Char}
  {token : Token} {stack : List Frame} {expect : Expect} {v : Json}

/-- Token after token, the machine comes from one place of a text to a later one. -/
inductive Goes (limit : Nat) : Machine → List Char → Machine → List Char → Prop
  | here (m : Machine) (cs : List Char) : Goes limit m cs m cs
  | token {m next last : Machine} {c : Char} {rest more cs : List Char} {token : Token} :
      m.result? = none → isSpace c = false → readToken? c rest = some (token, more) →
      more.length ≤ rest.length → m.step limit token = some next → Goes limit next more last cs →
      Goes limit m (c :: rest) last cs

theorem Goes.trans (h : Goes limit m cs next more) (hnext : Goes limit next more last final) :
    Goes limit m cs last final := by
  induction h with
  | here => exact hnext
  | token hresult hspace hread hshort hstep _ ih =>
    exact .token hresult hspace hread hshort hstep (ih hnext)

/-- A token that is written in one character. -/
theorem Goes.symbol (hresult : m.result? = none) (hspace : isSpace c = false)
    (hread : readToken? c rest = some (token, rest)) (hstep : m.step limit token = some next) :
    Goes limit m (c :: rest) next rest :=
  .token hresult hspace hread (Nat.le_refl _) hstep (.here _ _)

/-- Where the machine has a value, running it ends. -/
theorem Goes.run? (h : Goes limit m cs last final) (hlast : last.result? = some v) {fuel : Nat}
    (hfuel : cs.length < fuel) : m.run? limit fuel cs = some (v, final) := by
  induction h generalizing fuel with
  | here m cs =>
    obtain ⟨fuel, rfl⟩ : ∃ less, fuel = less + 1 := ⟨fuel - 1, by omega⟩
    unfold Machine.run?
    rw [hlast]
  | token hresult hspace hread hshort hstep _ ih =>
    obtain ⟨fuel, rfl⟩ : ∃ less, fuel = less + 1 := ⟨fuel - 1, by omega⟩
    rw [List.length_cons] at hfuel
    unfold Machine.run?
    rw [hresult]
    dsimp only
    rw [hspace, if_neg Bool.false_ne_true, hread]
    simp only [Option.bind_eq_bind, Option.bind_some, hstep]
    exact ih hlast (by omega)

/-- Where a value may stand. -/
inductive Takes : Expect → Prop
  | value : Takes .value
  | firstItem : Takes .firstItem

theorem Takes.result? (h : Takes expect) : (⟨stack, expect⟩ : Machine).result? = none := by
  cases h <;> rfl

theorem Takes.step_scalar (h : Takes expect) :
    (⟨stack, expect⟩ : Machine).step limit (.scalar v) = some (deliver v stack) := by
  cases h <;> rfl

theorem Takes.step_openArray (h : Takes expect) (hdepth : stack.length + 1 < limit) :
    (⟨stack, expect⟩ : Machine).step limit .openArray =
      some ⟨.array [] :: stack, .firstItem⟩ := by
  cases h <;> exact if_pos hdepth

theorem Takes.step_openObject (h : Takes expect) (hdepth : stack.length + 1 < limit) :
    (⟨stack, expect⟩ : Machine).step limit .openObject =
      some ⟨.object [] "" :: stack, .firstKey⟩ := by
  cases h <;> exact if_pos hdepth

/-- One token brings a value. -/
theorem Takes.goes_scalar (h : Takes expect) (hspace : isSpace c = false)
    (hread : readToken? c rest = some (.scalar v, more)) (hshort : more.length ≤ rest.length) :
    Goes limit ⟨stack, expect⟩ (c :: rest) (deliver v stack) more :=
  .token h.result? hspace hread hshort h.step_scalar (.here _ _)

/-- The texts of members, a comma before each. -/
def memberChars (members : List String) : List Char := members.flatMap fun m => ',' :: m.toList

theorem intercalate_toList (first : String) (members : List String) :
    (",".intercalate (first :: members)).toList = first.toList ++ memberChars members := by
  rw [String.toList_intercalate]
  induction members generalizing first with
  | nil => simp [memberChars]
  | cons next members ih =>
    rw [List.map_cons, List.map_cons, List.intercalate_cons_cons, ← List.map_cons, ih]
    simp [memberChars]

theorem ends_comma (rest : List Char) : Ends (',' :: rest) := ends_cons (by decide)

theorem ends_memberChars (members : List String) {closing : Char}
    (hclosing : closing.isDigit = false ∧ closing ≠ '.' ∧ closing ≠ 'e' ∧ closing ≠ 'E') :
    Ends (memberChars members ++ closing :: rest) := by
  cases members with
  | nil => exact ends_cons hclosing
  | cons first members => exact ends_comma _

/-- A key and its colon. -/
theorem goes_key {done : List (String × Json)} {old key : String}
    (hexpect : expect = .firstKey ∨ expect = .key) :
    Goes limit ⟨.object done old :: stack, expect⟩ ((quote key).toList ++ ':' :: rest)
      ⟨.object done key :: stack, .value⟩ rest := by
  rw [quote_toList]
  simp only [List.cons_append, List.append_assoc, List.nil_append]
  have hresult : (⟨.object done old :: stack, expect⟩ : Machine).result? = none := by
    rcases hexpect with rfl | rfl <;> rfl
  have hstep : (⟨.object done old :: stack, expect⟩ : Machine).step limit (.scalar (.str key)) =
      some ⟨.object done key :: stack, .colon⟩ := by
    rcases hexpect with rfl | rfl <;> rfl
  exact .token hresult rfl (readToken?_quote key (':' :: rest)) (by simp; omega) hstep
    (.symbol rfl rfl rfl rfl)

mutual

/-- The text of a value delivers the value. -/
theorem goes_compact : (v : Json) → v.Plain → ∀ {expect stack rest}, Takes expect →
    stack.length + v.depth < limit → Ends rest →
      Goes limit ⟨stack, expect⟩ (v.compact.toList ++ rest) (deliver v stack) rest
  | .null, _, _, _, _, htakes, _, _ => htakes.goes_scalar rfl rfl (by simp; omega)
  | .bool true, _, _, _, _, htakes, _, _ => htakes.goes_scalar rfl rfl (by simp; omega)
  | .bool false, _, _, _, _, htakes, _, _ => htakes.goes_scalar rfl rfl (by simp; omega)
  | .num (.int i), .int hrange, _, _, rest, htakes, _, hrest => by
    obtain ⟨c, more, hchars, hspace, hread⟩ := readToken?_intChars hrange hrest
    rw [compact, Number.text, toString_toList, hchars, List.cons_append]
    exact htakes.goes_scalar hspace hread (by simp)
  | .str s, _, _, _, rest, htakes, _, _ => by
    rw [compact, quote_toList]
    simp only [List.cons_append, List.append_assoc, List.nil_append]
    exact htakes.goes_scalar rfl (readToken?_quote s rest) (by simp; omega)
  | .arr [], _, _, stack, rest, htakes, hdepth, _ => by
    refine .trans (.symbol htakes.result? rfl rfl (htakes.step_openArray ?_)) ?_
    · exact hdepth
    · exact .symbol rfl rfl rfl rfl
  | .arr (first :: items), .arr hitems, _, stack, rest, htakes, hdepth, _ => by
    obtain ⟨hfirst, hmore⟩ := List.forall_mem_cons.mp hitems
    rw [depth, depthItems] at hdepth
    rw [compact, compactItems]
    simp only [String.toList_append, intercalate_toList, List.append_assoc]
    refine .trans (.symbol htakes.result? rfl rfl (htakes.step_openArray (by omega))) ?_
    refine .trans (goes_compact first hfirst .firstItem ?_ (ends_memberChars _ (by decide))) ?_
    · rw [List.length_cons]
      omega
    · exact goes_items items hmore [first] (by omega)
  | .obj [], _, _, stack, rest, htakes, hdepth, _ => by
    refine .trans (.symbol htakes.result? rfl rfl (htakes.step_openObject ?_)) ?_
    · exact hdepth
    · exact .symbol rfl rfl rfl rfl
  | .obj ((key, first) :: fields), .obj hordered hfields, _, stack, rest, htakes, hdepth, _ => by
    obtain ⟨hfirst, hmore⟩ := List.forall_mem_cons.mp hfields
    rw [depth, depthFields] at hdepth
    rw [compact, compactFields]
    simp only [String.toList_append, intercalate_toList, List.append_assoc]
    refine .trans (.symbol htakes.result? rfl rfl (htakes.step_openObject (by omega))) ?_
    refine .trans (goes_key (Or.inl rfl)) ?_
    refine .trans (goes_compact first hfirst .value ?_ (ends_memberChars _ (by decide))) ?_
    · rw [List.length_cons]
      omega
    · exact goes_fields fields hmore [(key, first)] key hordered (by omega)

/-- The rest of an array. -/
theorem goes_items : (items : List Json) → (∀ item ∈ items, item.Plain) → ∀ done {stack rest},
    stack.length + 1 + depthItems items < limit →
      Goes limit ⟨.array done :: stack, .next⟩
        (memberChars (compactItems items) ++ ']' :: rest)
        (deliver (.arr (done.reverse ++ items)) stack) rest
  | [], _, done, _, _, _ => by
    rw [List.append_nil]
    exact .symbol rfl rfl rfl rfl
  | item :: items, hitems, done, _, _, hdepth => by
    obtain ⟨hitem, hmore⟩ := List.forall_mem_cons.mp hitems
    rw [depthItems] at hdepth
    rw [compactItems, memberChars, List.flatMap_cons, ← memberChars]
    simp only [List.cons_append, List.append_assoc]
    refine .trans (.symbol rfl rfl rfl rfl) ?_
    refine .trans (goes_compact item hitem .value ?_ (ends_memberChars _ (by decide))) ?_
    · rw [List.length_cons]
      omega
    · rw [List.append_cons done.reverse item items, ← List.reverse_cons]
      exact goes_items items hmore (item :: done) (by omega)

/-- The rest of an object. -/
theorem goes_fields : (fields : List (String × Json)) → (∀ entry ∈ fields, entry.2.Plain) →
    ∀ done key {stack rest}, Table.Ordered (done ++ fields) →
    stack.length + 1 + depthFields fields < limit →
      Goes limit ⟨.object done key :: stack, .next⟩
        (memberChars (compactFields fields) ++ '\x7d' :: rest)
        (deliver (.obj (done ++ fields)) stack) rest
  | [], _, done, _, _, _, _, _ => by
    rw [List.append_nil]
    exact .symbol rfl rfl rfl rfl
  | (name, v) :: fields, hfields, done, _, stack, rest, hordered, hdepth => by
    obtain ⟨hfirst, hmore⟩ := List.forall_mem_cons.mp hfields
    rw [depthFields] at hdepth
    rw [compactFields, memberChars, List.flatMap_cons, ← memberChars]
    simp only [List.cons_append, List.append_assoc, String.toList_append]
    refine .trans (.symbol rfl rfl rfl rfl) ?_
    refine .trans (goes_key (Or.inr rfl)) ?_
    refine .trans (goes_compact v hfirst .value ?_ (ends_memberChars _ (by decide))) ?_
    · rw [List.length_cons]
      omega
    · change Goes limit ⟨.object (Table.insert name v done) name :: stack, .next⟩ _ _ _
      rw [Table.insert_last hordered, List.append_cons done (name, v) fields]
      rw [List.append_cons done (name, v) fields] at hordered
      exact goes_fields fields hmore _ name hordered (by omega)

end

end Machine

/-- A value without floats is read back from its text, if it is not nested too deep. -/
theorem read?_compact {v : Json} (hv : v.Plain) (hdepth : v.depth < depthLimit) :
    read? v.compact = some v := by
  have hgoes : Machine.Goes depthLimit Machine.start (v.compact.toList ++ [])
      (Machine.deliver v []) [] :=
    Machine.goes_compact v hv .value (by simpa using hdepth) ends_nil
  rw [List.append_nil] at hgoes
  unfold read? readWithin? readStart?
  rw [hgoes.run? rfl (Nat.lt_succ_self _)]
  rfl

/-- The same from the bytes of the text. -/
theorem readBytes?_compact {v : Json} (hv : v.Plain) (hdepth : v.depth < depthLimit) :
    readBytes? v.compact.toUTF8 = some v := by
  have hbytes : String.fromUTF8? v.compact.toUTF8 = some v.compact := by
    simp [String.fromUTF8?, String.isValidUTF8, String.fromUTF8]
  unfold readBytes?
  rw [hbytes]
  exact read?_compact hv hdepth

end Json

end Conform
