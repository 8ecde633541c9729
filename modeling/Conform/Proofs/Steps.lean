import Mathlib.Data.List.TakeWhile
import Conform.Proofs.Classes

/-!
# Steps of reading a pattern

Every step of reading takes characters from the front of what is left of a
pattern: repetitions with their bounds, groups with their flags and names,
classes, escapes and single characters.
-/

namespace Conform

namespace Pattern

section Bounds

variable {extended : Bool}

theorem dropWhile_isBlank_append (cs more : List Char) :
    (cs ++ ')' :: more).dropWhile Text.isBlank = cs.dropWhile Text.isBlank ++ ')' :: more := by
  induction cs with
  | nil => rfl
  | cons c cs ih =>
    rw [List.cons_append, List.dropWhile_cons, List.dropWhile_cons, ih]
    split <;> rfl

theorem local_dropBlanks : Local fun cs => some ((), cs.dropWhile Text.isBlank) where
  leaves h := by
    cases h
    exact List.dropWhile_suffix _
  stays cs := .apart rfl fun more => congrArg (fun rest => some ((), rest))
    (dropWhile_isBlank_append cs more)

/-- The count that digits write, if it is not too large; none without digits. -/
def countOf? (digits : List Char) : Option (Option Nat) :=
  if digits.isEmpty then some none
  else if Numeral.digitsValue digits < twoTo 32 then some (some (Numeral.digitsValue digits))
  else none

theorem local_readCount? : Local (readCount? extended) := by
  refine (local_dropBlanks.bind (g := fun _ cs => (some (takeAll extended Char.isDigit cs)).bind
      fun p => (some ((), p.2.dropWhile Text.isBlank)).bind fun q =>
        (countOf? p.1).map (·, skip extended q.2)) fun _ => ?_).congr fun cs => ?_
  · refine (local_takeAll (p := Char.isDigit) (by decide)).bind (g := fun digits cs =>
      (some ((), cs.dropWhile Text.isBlank)).bind fun q =>
        (countOf? digits).map (·, skip extended q.2)) fun digits => ?_
    refine local_dropBlanks.bind (g := fun _ cs => (countOf? digits).map (·, skip extended cs))
      fun _ => ?_
    cases countOf? digits with
    | none => exact local_none
    | some count => exact (local_skip extended).map fun _ => count
  · have hcount : ∀ digits rest : List Char, (if digits.isEmpty then some (none, rest)
        else if Numeral.digitsValue digits < twoTo 32 then
          some (some (Numeral.digitsValue digits), rest) else none) =
        (countOf? digits).map (·, rest) := by
      intro digits rest
      unfold countOf?
      split
      · rfl
      · split <;> rfl
    exact hcount (takeAll extended Char.isDigit (cs.dropWhile Text.isBlank)).1 _

/-- A mark of laziness is passed over. -/
def passLazy? : List Char → Option (Unit × List Char) :=
  ifNext '?' (fun rest => some ((), rest)) fun cs => some ((), cs)

theorem local_passLazy? : Local passLazy? :=
  local_ifNext (by decide) (local_pure ()) (local_pure ())

theorem passLazy?_eq {β : Type} (b : β) (cs : List Char) : some (b, match cs with
    | '?' :: rest => rest
    | rest => rest) = (passLazy? cs).map fun p => (b, p.2) := by
  unfold passLazy?
  split
  · rw [ifNext_self]
    rfl
  · next hne =>
    rw [ifNext_else hne]
    rfl

/-- A counted repetition from behind its closing brace on, if its bounds are in order. -/
def boundsClosed? (extended : Bool) (low : Nat) (high : Option Nat) (cs : List Char) :
    Option ((Nat × Option Nat) × List Char) :=
  if high.getD low < low then none
  else (passLazy? (skip extended cs)).map fun p => ((low, high), p.2)

theorem local_boundsClosed? (extended : Bool) (low : Nat) (high : Option Nat) :
    Local (boundsClosed? extended low high) := by
  unfold boundsClosed?
  split
  · exact local_none
  · exact ((local_skip extended).bind (g := fun _ cs => passLazy? cs)
      fun _ => local_passLazy?).map fun _ => (low, high)

/-- The end of a counted repetition: a closing brace. -/
def closeBounds? (extended : Bool) (low : Nat) (high : Option Nat) :
    List Char → Option ((Nat × Option Nat) × List Char) :=
  ifNext '\x7d' (boundsClosed? extended low high) fun _ => none

theorem local_closeBounds? (extended : Bool) (low : Nat) (high : Option Nat) :
    Local (closeBounds? extended low high) :=
  local_ifNext (by decide) (local_boundsClosed? extended low high) local_none

theorem closeBounds?_eq (extended : Bool) (low : Nat) (high : Option Nat) (cs : List Char) :
    (match cs with
      | '\x7d' :: rest =>
        let rest := match skip extended rest with
          | '?' :: rest => rest
          | rest => rest
        if (high.getD low) < low then none else some ((low, high), rest)
      | _ => none) = closeBounds? extended low high cs := by
  unfold closeBounds?
  split
  · rw [ifNext_self, boundsClosed?, ← passLazy?_eq]
  · next hne => rw [ifNext_else hne]

/-- The upper bound of a counted repetition, behind a comma. -/
def readHigh? (extended : Bool) (low : Nat) :
    List Char → Option ((Nat × Option Nat) × List Char) :=
  ifNext '\x7d' (boundsClosed? extended low none) fun cs =>
    (readCount? extended cs).bind fun p =>
      p.1.bind fun high => closeBounds? extended low (some high) p.2

theorem local_readHigh? (extended : Bool) (low : Nat) : Local (readHigh? extended low) := by
  refine local_ifNext (by decide) (local_boundsClosed? extended low none)
    (local_readCount?.bind (g := fun count cs =>
      count.bind fun high => closeBounds? extended low (some high) cs) fun count => ?_)
  cases count with
  | none => exact local_none
  | some high => exact local_closeBounds? extended low (some high)

/-- A counted repetition behind its lower bound. -/
def readBehindLow? (extended : Bool) (low : Nat) :
    List Char → Option ((Nat × Option Nat) × List Char) :=
  ifNext ',' (fun cs => (some ((), skip extended cs)).bind fun p => readHigh? extended low p.2)
    (closeBounds? extended low (some low))

theorem local_readBehindLow? (extended : Bool) (low : Nat) :
    Local (readBehindLow? extended low) :=
  local_ifNext (by decide) ((local_skip extended).bind (g := fun _ cs => readHigh? extended low cs)
    fun _ => local_readHigh? extended low) (local_closeBounds? extended low (some low))

/-- A counted repetition is read up to its closing brace in one way for all its forms. -/
theorem readBounds?_closed (extended : Bool) (cs : List Char) : readBounds? extended cs =
    (readCount? extended (skip extended cs)).bind fun p => p.1.bind fun low =>
      match p.2 with
      | ',' :: rest =>
        match skip extended rest with
        | '\x7d' :: rest => closeBounds? extended low none ('\x7d' :: rest)
        | rest => (readCount? extended rest).bind fun q =>
          q.1.bind fun high => closeBounds? extended low (some high) q.2
      | rest => closeBounds? extended low (some low) rest := by
  have hclose := funext fun low => funext fun high => funext fun cs =>
    closeBounds?_eq extended low high cs
  rw [← hclose]
  rfl

theorem readBounds?_eq (extended : Bool) (cs : List Char) : readBounds? extended cs =
    (readCount? extended (skip extended cs)).bind fun p =>
      p.1.bind fun low => readBehindLow? extended low p.2 := by
  rw [readBounds?_closed]
  refine congrArg _ (funext fun p => congrArg _ (funext fun low => ?_))
  unfold readBehindLow?
  split
  · next heq =>
    rw [heq, ifNext_self, Option.bind_some, readHigh?]
    split
    · next heq =>
      rw [heq, ifNext_self, closeBounds?, ifNext_self]
    · next hne => rw [ifNext_else hne]
  · next hne => rw [ifNext_else hne]

theorem local_readBounds? : Local (readBounds? extended) := by
  refine ((local_skip extended).bind (g := fun _ cs => (readCount? extended cs).bind fun p =>
    p.1.bind fun low => readBehindLow? extended low p.2) fun _ => ?_).congr (readBounds?_eq extended)
  refine local_readCount?.bind (g := fun count cs =>
    count.bind fun low => readBehindLow? extended low cs) fun count => ?_
  cases count with
  | none => exact local_none
  | some low => exact local_readBehindLow? extended low

end Bounds

section Groups

variable {r : Reading}

/-- What flags do to a reading: to the rest of the group, or to a group of their own. -/
def setFlags? (r : Reading) (flags : Flags) (isEmpty : Bool) (c : Char) (cs : List Char) :
    Option (Reading × List Char) :=
  if c = ')' then
    if isEmpty then none else some ({ r with flags, items := .flags :: r.items }, cs)
  else some (r.enter flags, cs)

theorem local_setFlags? (flags : Flags) (isEmpty : Bool) (c : Char) :
    Local (setFlags? r flags isEmpty c) := by
  unfold setFlags?
  split
  · split
    · exact local_none
    · exact local_pure _
  · exact local_pure _

/-- Flags up to a colon or a closing parenthesis. -/
def readSetting? (r : Reading) (f : Flags) (on : Bool) (seen cs : List Char) :
    Option (Reading × List Char) :=
  (readFlags? f on seen cs).bind fun p =>
    match p.2.2 with
    | [] => none
    | c :: rest => setFlags? r p.1 p.2.1 c rest

theorem readFlags?_cons (f : Flags) (on : Bool) (seen : List Char) (c : Char) (cs : List Char) :
    readFlags? f on seen (c :: cs) =
      if c = ':' || c = ')' then
        if seen.head? = some '-' then none else some (f, seen.isEmpty, c :: cs)
      else if seen.contains c then none
      else if c = '-' then readFlags? f false ('-' :: seen) cs
      else (setFlag? f on c).bind fun f => readFlags? f on (c :: seen) cs := by
  rw [readFlags?]
  cases setFlag? f on c <;> rfl

/-- A letter of a flag is taken, or no reading succeeds; an end is read as it is. -/
theorem readSetting?_cases (r : Reading) (f : Flags) (on : Bool) (seen : List Char) (c : Char) :
    (∀ cs, readSetting? r f on seen (c :: cs) = none) ∨
    (∀ cs, readSetting? r f on seen (c :: cs) = setFlags? r f seen.isEmpty c cs) ∨
    ∃ f' on' seen', c ≠ ')' ∧
      ∀ cs, readSetting? r f on seen (c :: cs) = readSetting? r f' on' seen' cs := by
  simp only [readSetting?, readFlags?_cons]
  by_cases hc : (c = ':' || c = ')') = true
  · simp only [if_pos hc]
    by_cases hseen : seen.head? = some '-'
    · simp only [if_pos hseen]
      exact .inl fun _ => rfl
    · simp only [if_neg hseen]
      exact .inr (.inl fun _ => rfl)
  · have hne : c ≠ ')' := by
      rintro rfl
      exact hc rfl
    simp only [if_neg hc]
    by_cases hseen : seen.contains c = true
    · simp only [if_pos hseen]
      exact .inl fun _ => rfl
    · simp only [if_neg hseen]
      by_cases hminus : c = '-'
      · simp only [if_pos hminus]
        exact .inr (.inr ⟨_, _, _, hne, fun _ => rfl⟩)
      · simp only [if_neg hminus]
        cases setFlag? f on c with
        | none => exact .inl fun _ => rfl
        | some f => exact .inr (.inr ⟨_, _, _, hne, fun _ => rfl⟩)

theorem local_readSetting? (f : Flags) (on : Bool) (seen : List Char) :
    Local (readSetting? r f on seen) where
  leaves {cs a rest} h := by
    induction cs generalizing f on seen with
    | nil => cases h
    | cons c cs ih =>
      obtain hnone | hset | ⟨f', on', seen', -, hletter⟩ := readSetting?_cases r f on seen c
      · cases (hnone cs).symm.trans h
      · exact ((local_setFlags? _ _ c).leaves ((hset cs).symm.trans h)).trans
          (List.suffix_cons c cs)
      · exact (ih _ _ _ ((hletter cs).symm.trans h)).trans (List.suffix_cons c cs)
  stays cs := by
    induction cs generalizing f on seen with
    | nil =>
      -- the closing parenthesis of the addition ends the flags
      refine .unfinished rfl fun more a rest h => ?_
      obtain hnone | hset | ⟨f', on', seen', hne, -⟩ := readSetting?_cases r f on seen ')'
      · cases (hnone more).symm.trans h
      · exact (local_setFlags? _ _ ')').leaves ((hset more).symm.trans h)
      · exact absurd rfl hne
    | cons c cs ih =>
      obtain hnone | hset | ⟨f', on', seen', -, hletter⟩ := readSetting?_cases r f on seen c
      · exact (local_none.stays cs).of_eq (hnone cs) fun more => hnone _
      · exact ((local_setFlags? _ _ c).stays cs).of_eq (hset cs) fun more => hset _
      · exact (ih f' on' seen').of_eq (hletter cs) fun more => hletter _

/-- The reading inside a group with a name, if that is one and is new. -/
def enterNamed? (r : Reading) : List Char → Option Reading
  | [] => none
  | first :: more =>
    if isNameChar true first && more.all (isNameChar false) && !r.names.contains (first :: more) then
      some ({ r with names := (first :: more) :: r.names }.enter r.flags)
    else none

theorem readName?_append {name : List Char} (h : '>' ∉ name) (rest : List Char) :
    readName? r (name ++ '>' :: rest) = (enterNamed? r name).map (·, rest) := by
  have hname : ∀ c ∈ name, (c != '>') = true := fun c hc => bne_iff_ne.mpr fun heq => h (heq ▸ hc)
  unfold readName?
  rw [List.dropWhile_append_of_pos hname, List.takeWhile_append_of_pos hname,
    List.dropWhile_cons_of_neg (by decide), List.takeWhile_cons_of_neg (by decide),
    List.append_nil]
  cases name with
  | nil => rfl
  | cons first more =>
    unfold enterNamed?
    dsimp only
    split <;> rfl

theorem readName?_open {cs : List Char} (h : '>' ∉ cs) : readName? r cs = none := by
  have hcs : ∀ c ∈ cs, (c != '>') = true := fun c hc => bne_iff_ne.mpr fun heq => h (heq ▸ hc)
  unfold readName?
  rw [List.dropWhile_eq_nil_iff.mpr hcs]
  cases cs.takeWhile (· != '>') <;> rfl

theorem readName?_leaves {cs rest : List Char} {r' : Reading}
    (h : readName? r cs = some (r', rest)) : ∃ name, cs = name ++ '>' :: rest ∧ '>' ∉ name := by
  by_cases hclosed : '>' ∈ cs
  · obtain ⟨name, left, rfl, hname⟩ := List.eq_append_cons_of_mem hclosed
    rw [readName?_append hname] at h
    obtain ⟨entered, -, heq⟩ := Option.map_eq_some_iff.mp h
    cases heq
    exact ⟨name, rfl, hname⟩
  · rw [readName?_open hclosed] at h
    cases h

theorem local_readName? : Local (readName? r) where
  leaves h := by
    obtain ⟨name, rfl, -⟩ := readName?_leaves h
    exact (List.suffix_cons _ _).trans (List.suffix_append _ _)
  stays cs := by
    by_cases hclosed : '>' ∈ cs
    · obtain ⟨name, left, rfl, hname⟩ := List.eq_append_cons_of_mem hclosed
      have hmore : ∀ more, readName? r (name ++ '>' :: left ++ ')' :: more) =
          (enterNamed? r name).map (·, left ++ ')' :: more) := fun more => by
        rw [List.append_assoc, List.cons_append, readName?_append hname]
      cases hentered : enterNamed? r name with
      | none =>
        refine .unfinished ?_ fun more a rest h => ?_
        · rw [readName?_append hname, hentered]
          rfl
        · rw [hmore, hentered] at h
          cases h
      | some entered =>
        have hown : readName? r (name ++ '>' :: left) = some (entered, left) := by
          rw [readName?_append hname, hentered]
          rfl
        refine .apart hown fun more => ?_
        rw [hmore, hentered]
        rfl
    · -- the closing angle, if there is one, is in the addition
      refine .unfinished (readName?_open hclosed) fun more a rest h => ?_
      obtain ⟨name, heq, -⟩ := readName?_leaves h
      obtain ⟨left, -, hsplit⟩ | ⟨left, hcs, hsplit⟩ := List.append_eq_append_iff.mp heq
      · cases left with
        | nil => cases hsplit
        | cons c left =>
          rw [(List.cons.inj hsplit).2]
          exact (List.suffix_cons _ _).trans (List.suffix_append _ _)
      · cases left with
        | nil => cases hsplit
        | cons c left =>
          cases hsplit
          exact absurd (hcs ▸ List.mem_append_right name (List.mem_cons_self ..)) hclosed

/-- A name in a group is no look to one side. -/
def behindAngle? (r : Reading) : List Char → Option (Reading × List Char) :=
  ifNext '=' (fun _ => none) (ifNext '!' (fun _ => none) (readName? r))

/-- A group from behind its question mark on. -/
def behindMark? (r : Reading) : List Char → Option (Reading × List Char) :=
  ifNext '=' (fun _ => none) (ifNext '!' (fun _ => none)
    (ifNext 'P' (ifNext '<' (readName? r) fun _ => none)
      (ifNext '<' (behindAngle? r) (readSetting? r r.flags true []))))

theorem local_behindMark? : Local (behindMark? r) := by
  have hangle : Local (behindAngle? r) :=
    local_ifNext (by decide) local_none (local_ifNext (by decide) local_none local_readName?)
  exact local_ifNext (by decide) local_none (local_ifNext (by decide) local_none
    (local_ifNext (by decide) (local_ifNext (by decide) local_readName? local_none)
      (local_ifNext (by decide) hangle (local_readSetting? _ _ _))))

theorem readSetting?_eq (cs : List Char) :
    ((readFlags? r.flags true [] cs).bind fun p => match p.2.2 with
      | ')' :: rest =>
        if p.2.1 then none else some ({ r with flags := p.1, items := .flags :: r.items }, rest)
      | _ :: rest => some (r.enter p.1, rest)
      | [] => none) = readSetting? r r.flags true [] cs := by
  refine congrArg _ (funext fun p => ?_)
  cases p.2.2 with
  | nil => rfl
  | cons c rest =>
    unfold setFlags?
    by_cases hc : c = ')'
    · subst hc
      rfl
    · dsimp only
      rw [if_neg hc]
      split
      · next heq => exact absurd (List.cons.inj heq).1 hc
      · next heq =>
        cases heq
        rfl
      · next heq => cases heq

theorem readGroup?_eq (cs : List Char) : readGroup? r cs =
    ifNext '?' (behindMark? r) (fun cs => some (r.enter r.flags, cs))
      (skip r.flags.extended cs) := by
  unfold readGroup?
  split
  case h_6 hequal hbang heq =>
    rw [heq, ifNext_self]
    change _ = behindAngle? r _
    rw [behindAngle?, ifNext_else hequal, ifNext_else hbang]
  case h_7 rest hequal hbang _ _ hname hangle heq =>
    rw [heq, ifNext_self, behindMark?, ifNext_else hequal, ifNext_else hbang]
    by_cases hp : ∃ tail, rest = 'P' :: tail
    · obtain ⟨tail, rfl⟩ := hp
      rw [ifNext_self, ifNext_else fun tail' h => hname tail' (h ▸ rfl)]
      rfl
    · rw [ifNext_else fun tail h => hp ⟨tail, h⟩, ifNext_else hangle]
      exact readSetting?_eq rest
  case h_8 hne => rw [ifNext_else hne]
  all_goals
    next heq =>
      rw [heq]
      rfl

theorem local_readGroup? : Local (readGroup? r) :=
  ((local_skip r.flags.extended).bind (g := fun _ cs =>
    ifNext '?' (behindMark? r) (fun cs => some (r.enter r.flags, cs)) cs)
    fun _ => local_ifNext (by decide) local_behindMark? (local_pure _)).congr readGroup?_eq

end Groups

section Steps

variable {r : Reading} {c : Char} {cs : List Char}

/-- An uncounted repetition, with a mark of laziness or without. -/
def uncounted? (r : Reading) (low : Nat) (high : Option Nat) (cs : List Char) :
    Option (Reading × List Char) :=
  (r.repeat? low high).bind fun r => (passLazy? cs).map fun p => (r, p.2)

theorem local_uncounted? (low : Nat) (high : Option Nat) : Local (uncounted? r low high) := by
  unfold uncounted?
  cases r.repeat? low high with
  | none => exact local_none
  | some r' => exact local_passLazy?.map fun _ => r'

theorem uncounted?_eq (low : Nat) (high : Option Nat) (cs : List Char) :
    ((r.repeat? low high).map fun r =>
      match cs, r with
      | '?' :: rest, r => (r, rest)
      | _, r => (r, cs)) = uncounted? r low high cs := by
  unfold uncounted? passLazy?
  cases r.repeat? low high with
  | none => rfl
  | some r' =>
    rw [Option.map_some, Option.bind_some]
    split
    · rw [ifNext_self]
      rfl
    · next hne =>
      rw [ifNext_else hne]
      rfl

/-- The characters that do not stand for themselves. -/
def isSpecial (c : Char) : Bool :=
  ['(', ')', '|', '[', '?', '*', '+', '\x7b', '\\', '.', '^', '$'].contains c

theorem isSpecial_cases (hc : isSpecial c = true) : c = '(' ∨ c = ')' ∨ c = '|' ∨ c = '[' ∨
    c = '?' ∨ c = '*' ∨ c = '+' ∨ c = '\x7b' ∨ c = '\\' ∨ c = '.' ∨ c = '^' ∨ c = '$' := by
  simpa [isSpecial] using hc

theorem step?_plain (hc : isSpecial c = false) (cs : List Char) :
    step? r c cs = (r.addAtom? (.literal c false)).map (·, cs) := by
  unfold step?
  split
  case h_13 => rfl
  all_goals cases hc

theorem step?_optional (cs : List Char) : step? r '?' cs = uncounted? r 0 (some 1) cs :=
  uncounted?_eq 0 (some 1) cs

theorem step?_any (cs : List Char) : step? r '*' cs = uncounted? r 0 none cs :=
  uncounted?_eq 0 none cs

theorem step?_some (cs : List Char) : step? r '+' cs = uncounted? r 1 none cs :=
  uncounted?_eq 1 none cs

theorem step?_class (cs : List Char) : step? r '[' cs =
    (Bracket.read? r.flags cs).map fun p => (r.addSet p.1, p.2) := by
  change ((Bracket.read? r.flags cs).bind fun p => some (r.addSet p.1, p.2)) = _
  cases Bracket.read? r.flags cs <;> rfl

theorem step?_bounds (cs : List Char) : step? r '\x7b' cs =
    (readBounds? r.flags.extended cs).bind fun p => (r.repeat? p.1.1 p.1.2).map (·, p.2) := by
  change ((readBounds? r.flags.extended cs).bind fun p =>
    (r.repeat? p.1.1 p.1.2).bind fun r => some (r, p.2)) = _
  refine congrArg _ (funext fun p => ?_)
  cases r.repeat? p.1.1 p.1.2 <;> rfl

theorem step?_escape (cs : List Char) : step? r '\\' cs =
    (readEscape? r.flags cs).bind fun p => (r.addAtom? p.1).map (·, p.2) := by
  change ((readEscape? r.flags cs).bind fun p => (r.addAtom? p.1).bind fun r => some (r, p.2)) = _
  refine congrArg _ (funext fun p => ?_)
  cases r.addAtom? p.1 <;> rfl

theorem local_step? (hc : c ≠ '\\') : Local (step? r c) := by
  cases hspecial : isSpecial c with
  | false => exact (local_giving _).congr (step?_plain hspecial)
  | true =>
    obtain rfl | rfl | rfl | rfl | rfl | rfl | rfl | rfl | rfl | rfl | rfl | rfl :=
      isSpecial_cases hspecial
    · exact local_readGroup?
    · exact local_giving r.leave?
    · exact local_pure r.alternate
    · exact ((Bracket.local_read? (f := r.flags)).map r.addSet).congr step?_class
    · exact (local_uncounted? 0 (some 1)).congr step?_optional
    · exact (local_uncounted? 0 none).congr step?_any
    · exact (local_uncounted? 1 none).congr step?_some
    · exact (local_readBounds?.choose fun p => r.repeat? p.1 p.2).congr step?_bounds
    · exact absurd rfl hc
    · exact local_giving r.dot?
    · exact local_pure r.lineStart
    · exact local_pure r.lineEnd

theorem step?_leaves {r' : Reading} {rest : List Char} (h : step? r c cs = some (r', rest)) :
    rest <:+ cs := by
  by_cases hc : c = '\\'
  · subst hc
    rw [step?_escape] at h
    obtain ⟨p, hp, h⟩ := Option.bind_eq_some_iff.mp h
    obtain ⟨r'', -, heq⟩ := Option.map_eq_some_iff.mp h
    cases heq
    cases cs with
    | nil => cases hp
    | cons d cs => exact (readEscape?_leaves hp).trans (List.suffix_cons d cs)
  · exact (local_step? hc).leaves h

/-- The sign of a boundary with a brace behind it that nothing but blanks follow. -/
def BraceOpen (extended : Bool) (c : Char) (cs : List Char) : Prop :=
  c = '\\' ∧ ∃ inner, cs = 'b' :: '\x7b' :: inner ∧ skip extended inner = []

/-- Every step but one minds an addition as little as a reader does. -/
theorem stays_step? (h : ¬ BraceOpen r.flags.extended c cs) : Stays (step? r c) cs := by
  by_cases hc : c = '\\'
  · subst hc
    refine (((?_ : Stays (readEscape? r.flags) cs).bind
      (g := fun a cs => (r.addAtom? a).map (·, cs)) (fun h => (local_giving _).leaves h)
      fun a rest _ => (local_giving _).stays rest)).of_eq (step?_escape cs) fun more =>
        step?_escape _
    cases cs with
    | nil =>
      refine .unfinished rfl fun more a rest h => ?_
      exact readEscape?_leaves h
    | cons d cs =>
      by_cases hd : d = 'b'
      · subst hd
        have hboundary : Stays (readBoundary? r.flags) cs :=
          stays_readBoundary? fun inner hcs hskip => h ⟨rfl, inner, hcs ▸ rfl, hskip⟩
        exact hboundary.of_eq rfl fun _ => rfl
      · exact ((local_readEscape? hd).stays cs).of_eq rfl fun _ => rfl
  · exact (local_step? hc).stays cs

end Steps

end Pattern

end Conform
