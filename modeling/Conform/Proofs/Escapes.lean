import Conform.Proofs.Taking

/-!
# Escapes and what comes behind

The readers of escapes mind a closing parenthesis behind a text as little as
other readers do, but for one: the sign of a boundary before a brace that only
blanks follow is unfinished, and plain once the parenthesis is there.
-/

namespace Conform

namespace Pattern

section Escapes

variable {α : Type} {extended : Bool}

/-- A reader that skips blanks and goes by whether a certain character is next. -/
theorem Local.afterSkip {f : List Char → Option (α × List Char)} (extended : Bool) (k : Char)
    (g h : List Char → Option (α × List Char)) (hk : k ≠ ')') (hg : Local g) (hh : Local h)
    (hnext : ∀ cs rest, skip extended cs = k :: rest → f cs = g rest)
    (helse : ∀ cs, (∀ rest, skip extended cs ≠ k :: rest) → f cs = h (skip extended cs)) :
    Local f := by
  refine ((local_skip extended).bind (g := fun _ cs => ifNext k g h cs)
    fun _ => local_ifNext hk hg hh).congr fun cs => ?_
  rw [Option.bind_some]
  by_cases hk : ∃ rest, skip extended cs = k :: rest
  · obtain ⟨rest, hskip⟩ := hk
    rw [hskip, ifNext_self]
    exact hnext cs rest hskip
  · have hne : ∀ rest, skip extended cs ≠ k :: rest := fun rest heq => hk ⟨rest, heq⟩
    rw [ifNext_else hne]
    exact helse cs hne

theorem local_readHex? (digits : Nat) : Local (readHex? extended digits) := by
  refine Local.afterSkip extended '\x7b'
    (fun cs => (takeBraced? extended cs).bind fun p =>
      if p.1.isEmpty || !p.1.all Text.isHexDigit then none
      else (charOfHex? p.1).bind fun c => some (.literal c false, skip extended p.2))
    (fun cs => (some (takeSkipping extended Text.isHexDigit digits cs)).bind fun p =>
      if p.1.length < digits then none
      else (charOfHex? p.1).bind fun c => some (.literal c (digits == 2), p.2))
    (by decide) ?_ ?_ (fun cs rest h => ?_) fun cs h => ?_
  · refine local_takeBraced?.bind (g := fun taken rest =>
      if taken.isEmpty || !taken.all Text.isHexDigit then none
      else (charOfHex? taken).bind fun c => some (Atom.literal c false, skip extended rest))
      fun taken => ?_
    split
    · exact local_none
    · cases charOfHex? taken with
      | none => exact local_none
      | some c => exact (local_skip extended).map fun _ => Atom.literal c false
  · refine (local_takeSkipping (p := Text.isHexDigit) (by decide) digits).bind (g := fun taken rest =>
      if taken.length < digits then none
      else (charOfHex? taken).bind fun c => some (Atom.literal c (digits == 2), rest))
      fun taken => ?_
    split
    · exact local_none
    · cases charOfHex? taken with
      | none => exact local_none
      | some c => exact local_pure (Atom.literal c (digits == 2))
  · unfold readHex?
    rw [h]
    rfl
  · unfold readHex?
    split
    · next rest heq => exact absurd heq (h rest)
    · rfl

/-- The class with the name or the equation in braces. -/
def propertyOf? (negated : Bool) (name : List Char) : Option Atom :=
  match cutAt ['!', '='] name with
  | some (property, value) => (CharSet.ofValue? property value).map (.unicodeSet · (!negated))
  | none =>
    match (cutAt [':'] name).or (cutAt ['='] name) with
    | some (property, value) => (CharSet.ofValue? property value).map (.unicodeSet · negated)
    | none => (CharSet.ofName? name).map (.unicodeSet · negated)

/-- The class with a single letter for its name. -/
def letterProperty? (extended negated : Bool) : List Char → Option (Atom × List Char)
  | [] => none
  | c :: rest =>
    if c = '\\' then none
    else (CharSet.ofName? [c]).map fun s => (.unicodeSet s negated, skip extended rest)

theorem local_letterProperty? (negated : Bool) : Local (letterProperty? extended negated) := by
  refine (Local.uncons (h := fun c rest => letterProperty? extended negated (c :: rest))
    fun c => ?_).congr fun cs => ?_
  · dsimp only [letterProperty?]
    split
    · exact local_none
    · cases CharSet.ofName? [c] with
      | none => exact local_none
      | some s => exact (local_skip extended).map fun _ => Atom.unicodeSet s negated
  · cases cs <;> rfl

theorem local_readProperty? (negated : Bool) : Local (readProperty? extended negated) := by
  refine Local.afterSkip extended '\x7b'
    (fun cs => (takeBraced? extended cs).bind fun p => (propertyOf? negated p.1).map (·, p.2))
    (letterProperty? extended negated) (by decide) (local_takeBraced?.choose (propertyOf? negated))
    (local_letterProperty? negated) (fun cs rest h => ?_) fun cs h => ?_
  · unfold readProperty?
    rw [h]
    dsimp only
    refine congrArg (Option.bind _) (funext fun p => ?_)
    unfold propertyOf?
    -- the braces hold an inequation, an equation or a name
    have hmap : ∀ (set : Option CharSet) (n : Bool),
        (set.map fun s => (Atom.unicodeSet s n, p.2)) = (set.map (.unicodeSet · n)).map (·, p.2) :=
      fun set n => (Option.map_map (·, p.2) (Atom.unicodeSet · n) set).symm
    cases cutAt ['!', '='] p.1 with
    | some inequation => exact hmap _ _
    | none =>
      cases (cutAt [':'] p.1).or (cutAt ['='] p.1) with
      | some equation => exact hmap _ _
      | none => exact hmap _ _
  · unfold readProperty?
    split
    · next rest heq => exact absurd heq (h rest)
    · next heq =>
      rw [heq]
      rfl
    · next c rest hbrace hne heq =>
      rw [heq]
      exact (if_neg fun (hc : c = '\\') => hne (hc ▸ rfl)).symm
    · next heq =>
      rw [heq]
      rfl

end Escapes

section Boundaries

variable {f : Flags}

def isKindChar (c : Char) : Bool := c.isAlpha || c == '-'

/-- The assertion that a word in braces stands for, behind the sign of a boundary. -/
def boundaryOf? (f : Flags) (word : List Char) : Option Atom :=
  match String.ofList word with
  | "start" => some (.look (.wordStart f.wordSet))
  | "end" => some (.look (.wordEnd f.wordSet))
  | "start-half" => some (.look (.wordStartHalf f.wordSet))
  | "end-half" => some (.look (.wordEndHalf f.wordSet))
  | _ => none

/-- A word up to a closing brace, and the assertion it stands for. -/
def readKind? (f : Flags) (cs : List Char) : Option (Atom × List Char) :=
  (some (takeAll f.extended isKindChar cs)).bind fun p =>
    ifNext '\x7d' (fun rest => (boundaryOf? f p.1).map (·, rest)) (fun _ => none) p.2

theorem local_readKind? : Local (readKind? f) :=
  (local_takeAll (p := isKindChar) (by decide)).bind (g := fun word =>
    ifNext '\x7d' (fun rest => (boundaryOf? f word).map (·, rest)) fun _ => none) fun _ =>
      local_ifNext (by decide) (local_giving _) local_none

/-- Without a word in braces, the sign of a boundary is read alone. -/
def plainBoundary (f : Flags) : Atom := .look (.wordBoundary f.wordSet)

theorem readBoundary?_plain {cs : List Char} (h : cs.head? ≠ some '\x7b') :
    readBoundary? f cs = some (plainBoundary f, cs) := by
  unfold readBoundary?
  split
  · exact absurd rfl h
  · rfl

/-- What a word and the text behind it are read as. -/
theorem kind_eq (f : Flags) (p : List Char × List Char) :
    (match p with
      | (word, '\x7d' :: rest) =>
        match String.ofList word with
        | "start" => some (Atom.look (.wordStart f.wordSet), rest)
        | "end" => some (.look (.wordEnd f.wordSet), rest)
        | "start-half" => some (.look (.wordStartHalf f.wordSet), rest)
        | "end-half" => some (.look (.wordEndHalf f.wordSet), rest)
        | _ => none
      | _ => none) =
    ifNext '\x7d' (fun rest => (boundaryOf? f p.1).map (·, rest)) (fun _ => none) p.2 := by
  split
  case h_1 word rest =>
    rw [ifNext_self]
    unfold boundaryOf?
    generalize String.ofList word = name
    split
    case h_5 => simp [*]
    all_goals rfl
  case h_2 word hne =>
    have hnext : ∀ rest, p.2 ≠ '\x7d' :: rest := fun rest heq => hne p.1 rest (heq ▸ rfl)
    rw [ifNext_else hnext]

theorem readBoundary?_braced {inner : List Char} : readBoundary? f ('\x7b' :: inner) =
    match skip f.extended inner with
    | [] => none
    | c :: rest =>
      if isKindChar c then readKind? f (c :: rest) else some (plainBoundary f, '\x7b' :: inner) := by
  unfold readBoundary?
  split
  case h_2 hne => exact absurd rfl (hne inner)
  case h_1 inner' heq =>
    cases heq
    cases skip f.extended inner with
    | nil => rfl
    | cons c rest =>
      dsimp only
      by_cases hc : isKindChar c = true
      · have hnot : (!(c.isAlpha || c == '-')) = false := congrArg (! ·) hc
        have htaken : takeSkipping f.extended (fun c => c.isAlpha || c == '-') (rest.length + 1)
            (c :: rest) = takeAll f.extended isKindChar (c :: rest) :=
          takeSkipping_enough (Nat.le_refl _) (Nat.le_succ _)
        rw [if_pos hc, hnot, if_neg Bool.false_ne_true, htaken]
        exact kind_eq f _
      · have hnot : (!(c.isAlpha || c == '-')) = true :=
          congrArg (! ·) (Bool.eq_false_iff.mpr hc)
        rw [if_neg hc, hnot, if_pos rfl]
        rfl

theorem readBoundary?_leaves {cs rest : List Char} {a : Atom}
    (h : readBoundary? f cs = some (a, rest)) : rest <:+ cs := by
  by_cases hhead : cs.head? = some '\x7b'
  · obtain ⟨inner, rfl⟩ := List.head?_eq_some_iff.mp hhead
    rw [readBoundary?_braced] at h
    have hskip := skip_suffix f.extended inner
    cases hinner : skip f.extended inner with
    | nil => rw [hinner] at h; cases h
    | cons c left =>
      rw [hinner] at h hskip
      dsimp only at h
      split at h
      · exact (local_readKind?.leaves h).trans (hskip.trans (List.suffix_cons _ _))
      · cases h
        exact List.suffix_rfl
  · rw [readBoundary?_plain hhead] at h
    cases h
    exact List.suffix_rfl

/-- The sign of a boundary minds an addition, if at all, only where a brace is left open behind it. -/
theorem stays_readBoundary? {cs : List Char}
    (h : ∀ inner, cs = '\x7b' :: inner → skip f.extended inner ≠ []) :
    Stays (readBoundary? f) cs := by
  by_cases hhead : cs.head? = some '\x7b'
  · obtain ⟨inner, rfl⟩ := List.head?_eq_some_iff.mp hhead
    have hne := h inner rfl
    obtain ⟨left, hown, hmore⟩ | ⟨hown, -⟩ := skip_cases f.extended inner
    · cases left with
      | nil => exact absurd hown hne
      | cons c rest =>
        by_cases hc : isKindChar c = true
        · refine ((local_readKind? (f := f)).stays (c :: rest)).of_eq ?_ fun more => ?_
          · rw [readBoundary?_braced, hown]
            exact if_pos hc
          · rw [List.cons_append, readBoundary?_braced, hmore]
            exact if_pos hc
        · have hplain : readBoundary? f ('\x7b' :: inner) =
              some (plainBoundary f, '\x7b' :: inner) := by
            rw [readBoundary?_braced, hown]
            exact if_neg hc
          refine .apart hplain fun more => ?_
          rw [List.cons_append, readBoundary?_braced, hmore]
          exact if_neg hc
    · exact absurd hown hne
  · refine .apart (readBoundary?_plain hhead) fun more => readBoundary?_plain ?_
    cases cs with
    | nil => exact fun h => absurd (Option.some.inj h) (by decide)
    | cons c cs => exact hhead

end Boundaries

section Letters

variable {f : Flags} {c : Char}

/-- Most escapes are one letter: they stand for something or nothing, and take no more. -/
theorem readEscape?_letter (h : c ∉ ['x', 'u', 'U', 'p', 'P', 'b']) (cs : List Char) :
    readEscape? f (c :: cs) = (readEscape? f [c]).map fun p => (p.1, cs) := by
  unfold readEscape?
  dsimp only
  split
  -- the letters behind which more is read
  case h_1 | h_2 | h_3 | h_4 | h_5 | h_20 => exact absurd (by decide) h
  case h_24 =>
    by_cases hc : (decide (c.toNat < 128) && !c.isAlphanum) = true <;> simp [*]
  all_goals rfl

theorem local_readEscape? (h : c ≠ 'b') : Local fun cs => readEscape? f (c :: cs) := by
  by_cases hletter : c ∈ ['x', 'u', 'U', 'p', 'P', 'b']
  · simp only [List.mem_cons, List.not_mem_nil, or_false] at hletter
    obtain rfl | rfl | rfl | rfl | rfl | rfl := hletter
    · exact local_readHex? 2
    · exact local_readHex? 4
    · exact local_readHex? 8
    · exact local_readProperty? false
    · exact local_readProperty? true
    · exact absurd rfl h
  · refine ((local_pure c).choose fun c => (readEscape? f [c]).map Prod.fst).congr fun cs => ?_
    rw [readEscape?_letter hletter cs, Option.bind_some, Option.map_map]
    rfl

theorem readEscape?_leaves {cs rest : List Char} {a : Atom}
    (h : readEscape? f (c :: cs) = some (a, rest)) : rest <:+ cs := by
  by_cases hc : c = 'b'
  · subst hc
    exact readBoundary?_leaves h
  · exact (local_readEscape? hc).leaves h

end Letters

end Pattern

end Conform
