import Mathlib.Data.List.TakeWhile
import Conform.Proofs.Escapes

/-!
# Parts of bracketed classes

The elements of a class, its beginning and its named classes are read alike
whatever stands behind a closing parenthesis.
-/

namespace Conform

namespace Pattern

namespace Bracket

variable {f : Flags}

section Members

/-- An element of a class stands for characters, not for a place. -/
def member? : Atom → Option Atom
  | .look _ => none
  | a => some a

/-- One element of a class. -/
def readMember? (f : Flags) (cs : List Char) : Option (Atom × List Char) :=
  (readAtom? f cs).bind fun p => (member? p.1).map (·, p.2)

theorem readBoundary?_look {cs rest : List Char} {a : Atom}
    (h : readBoundary? f cs = some (a, rest)) : ∃ look, a = .look look := by
  have hplain : ∀ {rest' : List Char}, some (plainBoundary f, rest') = some (a, rest) →
      ∃ look, a = .look look := fun heq => ⟨_, (congrArg Prod.fst (Option.some.inj heq)).symm⟩
  by_cases hhead : cs.head? = some '\x7b'
  · obtain ⟨inner, rfl⟩ := List.head?_eq_some_iff.mp hhead
    rw [readBoundary?_braced] at h
    split at h
    · cases h
    · split at h
      · obtain ⟨p, -, h⟩ := Option.bind_eq_some_iff.mp h
        obtain ⟨rest, -, h⟩ := ifNext_eq_some h
        obtain ⟨b, hb, heq⟩ := Option.map_eq_some_iff.mp h
        cases heq
        unfold boundaryOf? at hb
        split at hb <;> cases hb <;> exact ⟨_, rfl⟩
      · exact hplain h
  · exact hplain ((readBoundary?_plain hhead).symm.trans h)

theorem readMember?_plain {c : Char} (hc : c ≠ '\\') (cs : List Char) :
    readMember? f (c :: cs) = some (.literal c false, cs) := by
  unfold readMember? readAtom?
  split
  · next heq => cases heq
  · next heq => exact absurd (List.cons.inj heq).1 hc
  · next heq => cases heq; rfl

/-- A class has no boundary for an element. -/
theorem readMember?_boundary (cs : List Char) : readMember? f ('\\' :: 'b' :: cs) = none := by
  change ((readBoundary? f cs).bind fun p => (member? p.1).map (·, p.2)) = none
  cases hread : readBoundary? f cs with
  | none => rfl
  | some p =>
    obtain ⟨look, hlook⟩ := readBoundary?_look hread
    rw [Option.bind_some, hlook]
    rfl

theorem local_escapedMember? : Local fun cs => readMember? f ('\\' :: cs) := by
  refine (Local.uncons (h := fun d rest => readMember? f ('\\' :: d :: rest)) fun d => ?_).congr
    fun cs => ?_
  · by_cases hd : d = 'b'
    · exact local_none.congr fun cs => hd ▸ readMember?_boundary cs
    · exact (local_readEscape? hd).choose member?
  · cases cs <;> rfl

theorem local_readMember? : Local (readMember? f) := by
  refine (Local.uncons (h := fun c rest => readMember? f (c :: rest)) fun c => ?_).congr
    fun cs => ?_
  · by_cases hc : c = '\\'
    · exact hc ▸ local_escapedMember?
    · exact (local_pure _).congr (readMember?_plain hc)
  · cases cs <;> rfl

theorem readMember?_leaves {c : Char} {cs rest : List Char} {a : Atom}
    (h : readMember? f (c :: cs) = some (a, rest)) : rest <:+ cs := by
  obtain ⟨p, hp, h⟩ := Option.bind_eq_some_iff.mp h
  obtain ⟨b, -, hrest⟩ := Option.map_eq_some_iff.mp h
  cases hrest
  unfold readAtom? at hp
  split at hp
  · next heq => cases heq
  · next heq =>
    cases heq
    cases cs with
    | nil => cases hp
    | cons d cs => exact (readEscape?_leaves hp).trans (List.suffix_cons d cs)
  · next heq =>
    cases heq
    cases hp
    exact List.suffix_rfl

theorem readMember?_lt {cs rest : List Char} {a : Atom} (h : readMember? f cs = some (a, rest)) :
    rest.length < cs.length := by
  cases cs with
  | nil => cases h
  | cons c cs => exact Nat.lt_succ_of_le (readMember?_leaves h).length_le

end Members

end Bracket

namespace Bracket

variable {f : Flags}

section Openings

variable {extended : Bool}

theorem takeHyphens_cons (fuel : Nat) (b : Bracket) (c : Char) (cs : List Char) :
    takeHyphens extended (fuel + 1) b (c :: cs) =
      if c = '-' then takeHyphens extended fuel (b.add (.single '-')) (skip extended cs)
      else (b, c :: cs) := by
  by_cases hc : c = '-'
  · subst hc
    rfl
  · rw [if_neg hc]
    unfold takeHyphens
    split
    · next heq => exact absurd (List.cons.inj heq).1 hc
    · rfl

/-- More rounds than characters make no difference. -/
theorem takeHyphens_enough {fuel fuel' : Nat} {b : Bracket} {cs : List Char}
    (h : cs.length ≤ fuel) (h' : cs.length ≤ fuel') :
    takeHyphens extended fuel b cs = takeHyphens extended fuel' b cs := by
  induction fuel generalizing b cs fuel' with
  | zero =>
    cases List.length_eq_zero_iff.mp (Nat.le_zero.mp h)
    cases fuel' <;> rfl
  | succ fuel ih =>
    cases cs with
    | nil => cases fuel' <;> rfl
    | cons c cs =>
      cases fuel' with
      | zero => exact absurd h' (Nat.not_succ_le_zero _)
      | succ fuel' =>
        have hskip := (skip_suffix extended cs).length_le
        have h'' : (skip extended cs).length ≤ fuel' :=
          Nat.le_trans hskip (Nat.le_of_succ_le_succ h')
        rw [takeHyphens_cons, takeHyphens_cons,
          ih (Nat.le_trans hskip (Nat.le_of_succ_le_succ h)) h'']

/-- The leading hyphens of a class, in as many rounds as it takes. -/
def hyphens (extended : Bool) (b : Bracket) (cs : List Char) : Bracket × List Char :=
  takeHyphens extended cs.length b cs

theorem hyphens_cons (b : Bracket) (c : Char) (cs : List Char) : hyphens extended b (c :: cs) =
    if c = '-' then hyphens extended (b.add (.single '-')) (skip extended cs) else (b, c :: cs) := by
  rw [hyphens, List.length_cons, takeHyphens_cons,
    takeHyphens_enough (skip_suffix extended cs).length_le (Nat.le_refl _)]
  rfl

theorem hyphens_leaves {b b' : Bracket} {cs rest : List Char}
    (h : some (hyphens extended b cs) = some (b', rest)) : rest <:+ cs := by
  induction hn : cs.length using Nat.strongRecOn generalizing b cs with
  | ind n ih =>
    cases cs with
    | nil =>
      cases h
      exact List.suffix_rfl
    | cons c cs =>
      have hskip := skip_suffix extended cs
      rw [hyphens_cons] at h
      split at h
      · have hle := hskip.length_le
        rw [List.length_cons] at hn
        exact (ih _ (by omega) h rfl).trans (hskip.trans (List.suffix_cons c cs))
      · cases h
        exact List.suffix_rfl

theorem local_hyphens (b : Bracket) : Local fun cs => some (hyphens extended b cs) where
  leaves heq := hyphens_leaves heq
  stays cs := by
    induction hn : cs.length using Nat.strongRecOn generalizing b cs with
    | ind n ih =>
      cases cs with
      | nil =>
        refine .apart rfl fun more => ?_
        rw [List.nil_append, hyphens_cons, if_neg (by decide)]
      | cons c cs =>
        by_cases hc : c = '-'
        · have hnext : Stays
              (fun cs => some (hyphens extended (b.add (.single '-')) (skip extended cs))) cs :=
            Stays.next (g := fun cs => some (hyphens extended (b.add (.single '-')) cs))
              hyphens_leaves fun rest hle => ih rest.length (hn ▸ Nat.lt_succ_of_le hle) _ rest rfl
          refine hnext.of_eq ?_ fun more => ?_
          · rw [hyphens_cons, if_pos hc]
          · rw [List.cons_append, hyphens_cons, if_pos hc]
        · refine .apart (congrArg some ((hyphens_cons b c cs).trans (if_neg hc))) fun more => ?_
          rw [List.cons_append, hyphens_cons, if_neg hc]

/-- A closing bracket that nothing stands before is a member of the class. -/
def closingMember? (extended : Bool) (b : Bracket) : List Char → Option (Bracket × List Char) :=
  if b.items.isEmpty then
    ifNext ']' (fun rest => some (b.add (.single ']'), skip extended rest)) fun cs => some (b, cs)
  else fun cs => some (b, cs)

theorem local_closingMember? (b : Bracket) : Local (closingMember? extended b) := by
  unfold closingMember?
  split
  · exact local_ifNext (by decide) ((local_skip extended).map fun _ => b.add (.single ']'))
      (local_pure b)
  · exact local_pure b

/-- A class from behind its negation on. -/
def openClass? (extended negated : Bool) (cs : List Char) : Option (Bracket × List Char) :=
  (some (hyphens extended ⟨negated, none, []⟩ cs)).bind fun p => closingMember? extended p.1 p.2

theorem local_openClass? (extended negated : Bool) : Local (openClass? extended negated) :=
  (local_hyphens ⟨negated, none, []⟩).bind local_closingMember?

theorem closingMember?_eq (p : Bracket × List Char) : some (match p with
    | (b, ']' :: rest) =>
      if b.items.isEmpty then (b.add (.single ']'), skip extended rest) else (b, ']' :: rest)
    | result => result) = closingMember? extended p.1 p.2 := by
  obtain ⟨b, cs⟩ := p
  unfold closingMember?
  by_cases hempty : b.items.isEmpty = true
  · rw [if_pos hempty]
    split
    · next heq =>
      cases heq
      rw [ifNext_self, if_pos hempty]
    · next hne =>
      rw [ifNext_else fun rest heq => hne b rest (heq ▸ rfl)]
  · rw [if_neg hempty]
    split
    · next heq =>
      cases heq
      rw [if_neg hempty]
    · rfl

/-- Whether a class is negated, and what stands behind the sign for it. -/
def negation (extended : Bool) (cs : List Char) : Bool × List Char :=
  match cs with
  | '^' :: rest => (true, skip extended rest)
  | _ => (false, cs)

theorem start_eq (extended : Bool) (cs : List Char) : some (start extended cs) =
    openClass? extended (negation extended (skip extended cs)).1
      (negation extended (skip extended cs)).2 := closingMember?_eq _

theorem local_start (extended : Bool) : Local fun cs => some (start extended cs) := by
  refine Local.afterSkip extended '^'
    (fun cs => (some ((), skip extended cs)).bind fun p => openClass? extended true p.2)
    (openClass? extended false) (by decide)
    ((local_skip extended).bind (g := fun _ cs => openClass? extended true cs)
      fun _ => local_openClass? extended true)
    (local_openClass? extended false) (fun cs rest h => ?_) fun cs h => ?_
  · rw [start_eq, h]
    rfl
  · have hplain : negation extended (skip extended cs) = (false, skip extended cs) := by
      unfold negation
      split
      · next rest heq => exact absurd heq (h rest)
      · rfl
    rw [start_eq, hplain]

end Openings

end Bracket

namespace Bracket

variable {f : Flags}

section Names

theorem ofAsciiName?_paren {name : List Char} (h : ')' ∈ name) :
    CharSet.ofAsciiName? name = none := by
  unfold CharSet.ofAsciiName?
  split
  case h_15 => rfl
  all_goals
    next heq =>
      rw [← String.toList_ofList (l := name), heq] at h
      exact absurd h (by decide)

/-- The class named before a colon and a closing bracket. -/
def readNamed? (f : Flags) (negated : Bool) (cs : List Char) : Option (CharSet × List Char) :=
  match cs.dropWhile (· != ':') with
  | ':' :: ']' :: rest =>
    (CharSet.ofAsciiName? (cs.takeWhile (· != ':'))).bind fun set =>
      some (f.resolve set negated, rest)
  | _ => none

/-- The class whose name stands before a colon, if a closing bracket is behind that. -/
theorem readNamed?_append {negated : Bool} {name : List Char} (h : ':' ∉ name) (rest : List Char) :
    readNamed? f negated (name ++ ':' :: rest) =
      if rest.head? = some ']' then
        (CharSet.ofAsciiName? name).bind fun set => some (f.resolve set negated, rest.tail)
      else none := by
  have hname : ∀ c ∈ name, (c != ':') = true := fun c hc => bne_iff_ne.mpr fun heq => h (heq ▸ hc)
  unfold readNamed?
  rw [List.dropWhile_append_of_pos hname, List.takeWhile_append_of_pos hname,
    List.dropWhile_cons_of_neg (by decide), List.takeWhile_cons_of_neg (by decide),
    List.append_nil]
  cases rest with
  | nil => rfl
  | cons c rest =>
    by_cases hc : c = ']'
    · subst hc
      rfl
    · rw [List.head?_cons, if_neg fun heq => hc (Option.some.inj heq)]
      split
      · next heq => exact absurd (List.cons.inj (List.cons.inj heq).2).1 hc
      · rfl

/-- Without a colon there is no named class, and none with a parenthesis in its name. -/
theorem readNamed?_none (negated : Bool) {cs : List Char} (h : ':' ∉ cs) :
    readNamed? f negated cs = none ∧ ∀ more, readNamed? f negated (cs ++ ')' :: more) = none := by
  have hcs : ∀ c ∈ cs, (c != ':') = true := fun c hc => bne_iff_ne.mpr fun heq => h (heq ▸ hc)
  refine ⟨?_, fun more => ?_⟩
  · unfold readNamed?
    rw [List.dropWhile_eq_nil_iff.mpr hcs]
  · unfold readNamed?
    split
    · rw [List.takeWhile_append_of_pos hcs, ofAsciiName?_paren]
      · rfl
      · exact List.mem_append_right cs (List.mem_cons_self ..)
    · rfl

theorem readNamed?_stays (negated : Bool) (cs more : List Char) :
    readNamed? f negated (cs ++ ')' :: more) =
      (readNamed? f negated cs).map fun p => (p.1, p.2 ++ ')' :: more) := by
  by_cases hcolon : ':' ∈ cs
  · obtain ⟨name, rest, rfl, hname⟩ := List.eq_append_cons_of_mem hcolon
    rw [List.append_assoc, List.cons_append, readNamed?_append hname, readNamed?_append hname]
    cases rest with
    | nil => rfl
    | cons c rest =>
      rw [List.cons_append, List.head?_cons, List.head?_cons]
      by_cases hc : some c = some ']'
      · rw [if_pos hc, if_pos hc]
        cases CharSet.ofAsciiName? name <;> rfl
      · rw [if_neg hc, if_neg hc]
        rfl
  · obtain ⟨hnone, hmore⟩ := readNamed?_none (f := f) negated hcolon
    rw [hnone, hmore]
    rfl

theorem readNamed?_leaves {negated : Bool} {cs rest : List Char} {set : CharSet}
    (h : readNamed? f negated cs = some (set, rest)) : rest <:+ cs := by
  have hsuffix : cs.dropWhile (· != ':') <:+ cs := List.dropWhile_suffix _
  unfold readNamed? at h
  split at h
  · next heq =>
    obtain ⟨set', -, h⟩ := Option.bind_eq_some_iff.mp h
    cases h
    rw [heq] at hsuffix
    exact (List.suffix_cons _ _).trans ((List.suffix_cons _ _).trans hsuffix)
  · cases h

theorem readAscii?_other {c : Char} (hc : c ≠ ':') (cs : List Char) :
    readAscii? f (c :: cs) = none := by
  unfold readAscii?
  split
  · next heq => exact absurd (List.cons.inj heq).1 hc
  · rfl

theorem readAscii?_colon (cs : List Char) : readAscii? f (':' :: cs) =
    readNamed? f (negation false cs).1 (negation false cs).2 := rfl

theorem readAscii?_negated (cs : List Char) :
    readAscii? f (':' :: '^' :: cs) = readNamed? f true cs := rfl

theorem readAscii?_plain {cs : List Char} (h : cs.head? ≠ some '^') :
    readAscii? f (':' :: cs) = readNamed? f false cs := by
  have hplain : negation false cs = (false, cs) := by
    unfold negation
    split
    · exact absurd rfl h
    · rfl
  rw [readAscii?_colon, hplain]

theorem readAscii?_stays (cs more : List Char) :
    readAscii? f (cs ++ ')' :: more) =
      (readAscii? f cs).map fun p => (p.1, p.2 ++ ')' :: more) := by
  cases cs with
  | nil => exact readAscii?_other (by decide) more
  | cons c cs =>
    by_cases hc : c = ':'
    · subst hc
      by_cases hhead : cs.head? = some '^'
      · obtain ⟨rest, rfl⟩ := List.head?_eq_some_iff.mp hhead
        exact readNamed?_stays true rest more
      · have hmore : (cs ++ ')' :: more).head? ≠ some '^' := by
          cases cs with
          | nil => exact fun heq => absurd (Option.some.inj heq) (by decide)
          | cons d cs => exact hhead
        rw [List.cons_append, readAscii?_plain hmore, readAscii?_plain hhead]
        exact readNamed?_stays false cs more
    · rw [List.cons_append, readAscii?_other hc, readAscii?_other hc]
      rfl

theorem readAscii?_leaves {cs rest : List Char} {set : CharSet}
    (h : readAscii? f cs = some (set, rest)) : rest <:+ cs := by
  cases cs with
  | nil => cases h
  | cons c cs =>
    by_cases hc : c = ':'
    · subst hc
      by_cases hhead : cs.head? = some '^'
      · obtain ⟨tail, rfl⟩ := List.head?_eq_some_iff.mp hhead
        rw [readAscii?_negated] at h
        exact (readNamed?_leaves h).trans ((List.suffix_cons _ _).trans (List.suffix_cons _ _))
      · rw [readAscii?_plain hhead] at h
        exact (readNamed?_leaves h).trans (List.suffix_cons _ _)
    · rw [readAscii?_other hc] at h
      cases h

end Names

end Bracket

end Pattern

end Conform
