import Conform.Proofs.Brackets

/-!
# Bracketed classes and what comes behind

A class is read round by round, with the classes around it still open. It ends
with a closing bracket, and where none is there before a closing parenthesis is
put behind, the class can only end behind that.
-/

namespace Conform

namespace Pattern

namespace Bracket

variable {f : Flags}

section Rounds

/-- What reads on in a class that an element or a nested class has joined. -/
abbrev JoinOn := CharSet → List Char → Option (CharSet × List Char)

/-- What reads on inside open classes. -/
abbrev ReadOn := Bracket → List Bracket → List Char → Option (CharSet × List Char)

/-- The set of a range between two elements, if both are characters in order. -/
def rangeOf? (f : Flags) (low high : Atom) : Option CharSet :=
  (atomLiteral? f low).bind fun low => (atomLiteral? f high).bind fun high =>
    if low ≤ high then some (.range low.toNat high.toNat) else none

/-- Behind an element, blanks skipped: the rest of a range, or what the class goes on with. -/
def afterMember? (f : Flags) (k : JoinOn) (low : Atom) :
    List Char → Option (CharSet × List Char)
  | [] => none
  | c :: rest =>
    if c = '-' then
      if (skip f.extended rest).head? = some ']' || (skip f.extended rest).head? = some '-' then
        (atomSet? f low).bind fun set => k set (c :: rest)
      else
        (readMember? f (skip f.extended rest)).bind fun p =>
          (rangeOf? f low p.1).bind fun set => k set p.2
    else (atomSet? f low).bind fun set => k set (c :: rest)

theorem rangeOf?_look (low : Atom) (a : Assertion) : rangeOf? f low (.look a) = none := by
  unfold rangeOf?
  cases atomLiteral? f low <;> rfl

theorem afterMember?_look (k : JoinOn) (a : Assertion)
    (cs : List Char) : afterMember? f k (.look a) cs = none := by
  cases cs with
  | nil => rfl
  | cons c rest =>
    unfold afterMember?
    dsimp only
    split
    · split
      · rfl
      · exact Option.bind_eq_none_iff.mpr fun _ _ => rfl
    · rfl

/-- The upper end of a range, and what the class goes on with. -/
theorem rangeEnd_bind (k : JoinOn) (low : Atom) (next : List Char) :
    (((readAtom? f next).bind fun p => (atomLiteral? f low).bind fun low =>
      (atomLiteral? f p.1).bind fun high =>
        if low ≤ high then some (CharSet.range low.toNat high.toNat, p.2) else none).bind
          fun p => k p.1 p.2) =
      (readMember? f next).bind fun p => (rangeOf? f low p.1).bind fun set => k set p.2 := by
  unfold readMember?
  cases readAtom? f next with
  | none => rfl
  | some p =>
    obtain ⟨high, rest⟩ := p
    have hrange : ((atomLiteral? f low).bind fun low => (atomLiteral? f high).bind fun high =>
        if low ≤ high then some (CharSet.range low.toNat high.toNat, rest) else none) =
        (rangeOf? f low high).map (·, rest) := by
      unfold rangeOf?
      cases atomLiteral? f low with
      | none => rfl
      | some a =>
        cases atomLiteral? f high with
        | none => rfl
        | some b =>
          dsimp only [Option.bind_some]
          split <;> rfl
    rw [Option.bind_some, hrange]
    cases high with
    | look a =>
      rw [rangeOf?_look]
      rfl
    | _ => exact Option.bind_map

/-- What stands behind an element, and what the class goes on with. -/
theorem afterAtom_bind (k : JoinOn) (low : Atom) (cs : List Char) :
    ((match cs with
      | [] => none
      | '-' :: after =>
        let next := skip f.extended after
        if next.head? = some ']' || next.head? = some '-' then
          (atomSet? f low).bind fun set => some (set, '-' :: after)
        else
          (readAtom? f next).bind fun p => (atomLiteral? f low).bind fun low =>
            (atomLiteral? f p.1).bind fun high =>
              if low ≤ high then some (CharSet.range low.toNat high.toNat, p.2) else none
      | rest => (atomSet? f low).bind fun set => some (set, rest)).bind fun p => k p.1 p.2) =
    afterMember? f k low cs := by
  cases cs with
  | nil => rfl
  | cons c after =>
    unfold afterMember?
    dsimp only
    by_cases hc : c = '-'
    · rw [if_pos hc, hc]
      split
      case h_3 hne => exact absurd rfl (hne after)
      case h_1 heq => cases heq
      case h_2 heq =>
        cases heq
        split
        · cases atomSet? f low <;> rfl
        · exact rangeEnd_bind k low _
    · rw [if_neg hc]
      split
      case h_1 heq => cases heq
      case h_2 heq => exact absurd (List.cons.inj heq).1 hc
      case h_3 => cases atomSet? f low <;> rfl

theorem readRange?_bind (k : JoinOn) (cs : List Char) :
    ((readRange? f cs).bind fun p => k p.1 p.2) =
      (readMember? f cs).bind fun p => afterMember? f k p.1 (skip f.extended p.2) := by
  unfold readRange? readMember?
  cases readAtom? f cs with
  | none => rfl
  | some p =>
    obtain ⟨low, rest⟩ := p
    refine (afterAtom_bind k low (skip f.extended rest)).trans ?_
    cases low with
    | look a => exact afterMember?_look k a _
    | _ => rfl

/-- What joins the class is admitted first; then `k` reads on. -/
def joinOn (f : Flags) (k : ReadOn) (b : Bracket) (outer : List Bracket) : JoinOn :=
  fun set rest => (b.join? f set).bind fun b => k b outer rest

/-- A round that reads an element. -/
def memberRound (f : Flags) (k : ReadOn)
    (b : Bracket) (outer : List Bracket) (cs : List Char) : Option (CharSet × List Char) :=
  (readMember? f cs).bind fun p =>
    afterMember? f (joinOn f k b outer) p.1 (skip f.extended p.2)

/-- One round of reading inside open classes; `k` reads on. -/
def round (f : Flags) (k : ReadOn)
    (b : Bracket) (outer : List Bracket) : List Char → Option (CharSet × List Char)
  | [] => none
  | '[' :: rest =>
    match readAscii? f rest with
    | some (set, rest) => joinOn f k b outer set rest
    | none => k (start f.extended rest).1 (b :: outer) (start f.extended rest).2
  | ']' :: rest =>
    (b.close? f).bind fun set =>
      match outer with
      | [] => some (set, rest)
      | parent :: outer => k (parent.add set) outer rest
  | '&' :: '&' :: rest => k (b.operate f .inter) outer rest
  | '-' :: '-' :: rest => k (b.operate f .minus) outer rest
  | '~' :: '~' :: rest => k (b.operate f .xor) outer rest
  | cs => memberRound f k b outer cs

theorem round_else (f : Flags) (k : ReadOn) (b : Bracket) (outer : List Bracket) {cs : List Char}
    (hnil : cs = [] → False) (hopen : ∀ rest, cs = '[' :: rest → False)
    (hclose : ∀ rest, cs = ']' :: rest → False) (hand : ∀ rest, cs = '&' :: '&' :: rest → False)
    (hminus : ∀ rest, cs = '-' :: '-' :: rest → False)
    (htilde : ∀ rest, cs = '~' :: '~' :: rest → False) :
    round f k b outer cs = memberRound f k b outer cs := by
  unfold round
  split
  case h_1 => exact (hnil rfl).elim
  case h_2 => exact (hopen _ rfl).elim
  case h_3 => exact (hclose _ rfl).elim
  case h_4 => exact (hand _ rfl).elim
  case h_5 => exact (hminus _ rfl).elim
  case h_6 => exact (htilde _ rfl).elim
  case h_7 => rfl

theorem readOn?_succ (fuel : Nat) (b : Bracket) (outer : List Bracket) (cs : List Char) :
    readOn? f (fuel + 1) b outer cs = round f (readOn? f fuel) b outer (skip f.extended cs) := by
  rw [readOn?]
  generalize skip f.extended cs = rest
  split
  case h_7 hnil hopen hclose hand hminus htilde =>
    refine Eq.trans ?_ (round_else f _ b outer hnil hopen hclose hand hminus htilde).symm
    exact readRange?_bind (joinOn f (readOn? f fuel) b outer) rest
  all_goals rfl

end Rounds

end Bracket

namespace Bracket

variable {f : Flags}

section Loops

variable {k : ReadOn}
  {b : Bracket} {outer : List Bracket}

/-- Whether a class goes on with an operation, which is a character given twice. -/
def opens (c : Char) (cs : List Char) : Bool := cs.head? == some c && ['&', '-', '~'].contains c

/-- What joins the class is not admitted, or the class goes on with it. -/
theorem joinOn_cases (f : Flags) (b : Bracket) (outer : List Bracket) (set : CharSet)
    (rest : List Char) : (∀ k, joinOn f k b outer set rest = none) ∨
      ∃ b', ∀ k, joinOn f k b outer set rest = k b' outer rest := by
  unfold joinOn
  cases b.join? f set with
  | none => exact .inl fun _ => rfl
  | some b' => exact .inr ⟨b', fun _ => rfl⟩

theorem round_member {c : Char} {cs : List Char} (hopen : c ≠ '[') (hclose : c ≠ ']')
    (hop : opens c cs = false) :
    round f k b outer (c :: cs) = memberRound f k b outer (c :: cs) := by
  refine round_else f k b outer (fun heq => ?_) (fun rest heq => hopen (List.cons.inj heq).1)
    (fun rest heq => hclose (List.cons.inj heq).1) (fun rest heq => ?_) (fun rest heq => ?_)
    fun rest heq => ?_
  · cases heq
  all_goals
    cases heq
    cases hop

theorem round_operation {c : Char} {cs : List Char} (hop : opens c cs = true) :
    ∃ op rest, cs = c :: rest ∧ ∀ more (k : ReadOn) b outer,
        round f k b outer (c :: c :: more) = k (b.operate f op) outer more := by
  obtain ⟨hhead, hmem⟩ := Bool.and_eq_true_iff.mp hop
  obtain ⟨rest, rfl⟩ := List.head?_eq_some_iff.mp (beq_iff_eq.mp hhead)
  simp only [List.contains_eq_mem, List.mem_cons, List.not_mem_nil, or_false,
    decide_eq_true_eq] at hmem
  obtain rfl | rfl | rfl := hmem
  · exact ⟨.inter, rest, rfl, fun _ _ _ _ => rfl⟩
  · exact ⟨.minus, rest, rfl, fun _ _ _ _ => rfl⟩
  · exact ⟨.xor, rest, rfl, fun _ _ _ _ => rfl⟩

/-- Behind an element the class fails, or goes on with less. -/
theorem afterMember?_cases (f : Flags) (low : Atom) (cs : List Char) :
    (∀ k, afterMember? f k low cs = none) ∨
    ∃ set rest, rest <:+ cs ∧ ∀ k, afterMember? f k low cs = k set rest := by
  have halone : ∀ c rest,
      (∀ k : JoinOn, ((atomSet? f low).bind fun set => k set (c :: rest)) = none) ∨
      ∃ set left, left <:+ c :: rest ∧ ∀ k : JoinOn,
        ((atomSet? f low).bind fun set => k set (c :: rest)) = k set left := by
    intro c rest
    cases atomSet? f low with
    | none => exact .inl fun _ => rfl
    | some set => exact .inr ⟨set, c :: rest, List.suffix_rfl, fun _ => rfl⟩
  cases cs with
  | nil => exact .inl fun _ => rfl
  | cons c rest =>
    unfold afterMember?
    dsimp only
    split
    · split
      · exact halone c rest
      · cases hhigh : readMember? f (skip f.extended rest) with
        | none => exact .inl fun _ => rfl
        | some p =>
          cases hrange : rangeOf? f low p.1 with
          | none =>
            refine .inl fun k => ?_
            rw [Option.bind_some, hrange]
            rfl
          | some set =>
            have hskip := (skip_suffix f.extended rest).trans (List.suffix_cons c rest)
            refine .inr ⟨set, p.2, (local_readMember?.leaves hhigh).trans hskip, fun k => ?_⟩
            rw [Option.bind_some, hrange]
            rfl
    · exact halone c rest

/-- An element is none or not admitted, or the class goes on with it behind its first character. -/
theorem memberRound_cases (f : Flags) (b : Bracket) (outer : List Bracket) (c : Char)
    (cs : List Char) : (∀ k, memberRound f k b outer (c :: cs) = none) ∨
      ∃ b' rest, rest <:+ cs ∧ ∀ k, memberRound f k b outer (c :: cs) = k b' outer rest := by
  unfold memberRound
  cases hlow : readMember? f (c :: cs) with
  | none => exact .inl fun _ => rfl
  | some p =>
    have hskip : skip f.extended p.2 <:+ cs :=
      (skip_suffix f.extended p.2).trans (readMember?_leaves hlow)
    obtain hnone | ⟨set, rest, hrest, hafter⟩ :=
      afterMember?_cases f p.1 (skip f.extended p.2)
    · exact .inl fun k => hnone _
    · obtain hnone | ⟨b', hjoin⟩ := joinOn_cases f b outer set rest
      · exact .inl fun k => (hafter _).trans (hnone k)
      · exact .inr ⟨b', rest, hrest.trans hskip, fun k => (hafter _).trans (hjoin k)⟩

/-- A round fails, or closes the class, or reads on with less. -/
theorem round_cases (f : Flags) (b : Bracket) (outer : List Bracket) (cs : List Char) :
    (∀ k, round f k b outer cs = none) ∨
    (∃ set rest, cs = ']' :: rest ∧ ∀ k, round f k b outer cs = some (set, rest)) ∨
    ∃ b' outer' rest, rest <:+ cs ∧ rest.length < cs.length ∧
      ∀ k, round f k b outer cs = k b' outer' rest := by
  -- what a round takes ends behind its first character
  have hgoes : ∀ {c : Char} {tail rest : List Char} (b' : Bracket) (outer' : List Bracket),
      rest <:+ tail → (∀ k, round f k b outer (c :: tail) = k b' outer' rest) →
      ∃ b' outer' rest, rest <:+ c :: tail ∧ rest.length < (c :: tail).length ∧
        ∀ k, round f k b outer (c :: tail) = k b' outer' rest :=
    fun _ _ hsuffix h => ⟨_, _, _, hsuffix.trans (List.suffix_cons _ _),
      Nat.lt_succ_of_le hsuffix.length_le, h⟩
  cases cs with
  | nil => exact .inl fun _ => rfl
  | cons c cs =>
    by_cases hopen : c = '['
    · subst hopen
      cases hascii : readAscii? f cs with
      | some p =>
        have hround : ∀ k, round f k b outer ('[' :: cs) = joinOn f k b outer p.1 p.2 := by
          intro k
          rw [round, hascii]
        obtain hnone | ⟨b', hjoin⟩ := joinOn_cases f b outer p.1 p.2
        · exact .inl fun k => (hround k).trans (hnone k)
        · exact .inr (.inr (hgoes b' outer (readAscii?_leaves hascii)
            fun k => (hround k).trans (hjoin k)))
      | none =>
        have hstart : (start f.extended cs).2 <:+ cs := (local_start f.extended).leaves rfl
        refine .inr (.inr (hgoes (start f.extended cs).1 (b :: outer) hstart fun k => ?_))
        rw [round, hascii]
    · by_cases hclose : c = ']'
      · subst hclose
        cases hset : b.close? f with
        | none =>
          refine .inl fun k => ?_
          rw [round, hset]
          rfl
        | some set =>
          cases outer with
          | nil =>
            refine .inr (.inl ⟨set, cs, rfl, fun k => ?_⟩)
            rw [round, hset]
            rfl
          | cons parent outer =>
            refine .inr (.inr (hgoes (parent.add set) outer List.suffix_rfl fun k => ?_))
            rw [round, hset]
            rfl
      · cases hop : opens c cs with
        | true =>
          obtain ⟨op, rest, rfl, hround⟩ := round_operation (f := f) hop
          exact .inr (.inr (hgoes _ outer (List.suffix_cons c rest) fun k => hround rest k b outer))
        | false =>
          have hround : ∀ k, round f k b outer (c :: cs) = memberRound f k b outer (c :: cs) :=
            fun _ => round_member hopen hclose hop
          obtain hnone | ⟨b', rest, hrest, hmember⟩ := memberRound_cases f b outer c cs
          · exact .inl fun k => (hround k).trans (hnone k)
          · exact .inr (.inr (hgoes b' outer hrest fun k => (hround k).trans (hmember k)))

/-- More rounds than characters make no difference. -/
theorem readOn?_enough {fuel fuel' : Nat} {cs : List Char} (h : cs.length < fuel)
    (h' : cs.length < fuel') : readOn? f fuel b outer cs = readOn? f fuel' b outer cs := by
  induction fuel generalizing b outer cs fuel' with
  | zero => exact absurd h (Nat.not_lt_zero _)
  | succ fuel ih =>
    cases fuel' with
    | zero => exact absurd h' (Nat.not_lt_zero _)
    | succ fuel' =>
      have hskip := (skip_suffix f.extended cs).length_le
      rw [readOn?_succ, readOn?_succ]
      obtain hround | ⟨set, rest, -, hround⟩ | ⟨b', outer', rest, -, hlt, hround⟩ :=
        round_cases f b outer (skip f.extended cs)
      · rw [hround, hround]
      · rw [hround, hround]
      · rw [hround, hround, ih (by omega) (by omega : rest.length < fuel')]

/-- What is read inside open classes, in as many rounds as it takes. -/
def loop (f : Flags) (b : Bracket) (outer : List Bracket) (cs : List Char) :
    Option (CharSet × List Char) := readOn? f (cs.length + 1) b outer cs

theorem loop_eq (b : Bracket) (outer : List Bracket) (cs : List Char) :
    loop f b outer cs = round f (loop f) b outer (skip f.extended cs) := by
  have hskip := (skip_suffix f.extended cs).length_le
  rw [loop, readOn?_succ]
  obtain hround | ⟨set, rest, -, hround⟩ | ⟨b', outer', rest, -, hlt, hround⟩ :=
    round_cases f b outer (skip f.extended cs)
  · rw [hround, hround]
  · rw [hround, hround]
  · rw [hround, hround, readOn?_enough (by omega) (Nat.lt_succ_self _)]
    rfl

/-- A class ends with a closing bracket. -/
theorem loop_closed {cs rest : List Char} {set : CharSet}
    (h : loop f b outer cs = some (set, rest)) : ']' :: rest <:+ cs := by
  induction hn : cs.length using Nat.strongRecOn generalizing b outer cs with
  | ind n ih =>
    have hskip := skip_suffix f.extended cs
    rw [loop_eq] at h
    obtain hround | ⟨set, rest, hclosed, hround⟩ | ⟨b', outer', rest, hrest, hlt, hround⟩ :=
      round_cases f b outer (skip f.extended cs)
    · cases (hround _).symm.trans h
    · rw [hround] at h
      cases h
      exact hclosed ▸ hskip
    · rw [hround] at h
      have hle := hskip.length_le
      exact (ih _ (by omega) h rfl).trans (hrest.trans hskip)

theorem loop_leaves {cs rest : List Char} {set : CharSet}
    (h : loop f b outer cs = some (set, rest)) : rest <:+ cs :=
  (List.suffix_cons _ _).trans (loop_closed h)

theorem joinOn_closed {cs rest : List Char} {joined set : CharSet}
    (h : joinOn f (loop f) b outer joined cs = some (set, rest)) : ']' :: rest <:+ cs := by
  obtain ⟨b', -, h⟩ := Option.bind_eq_some_iff.mp h
  exact loop_closed h

theorem joinOn_leaves {cs rest : List Char} {joined set : CharSet}
    (h : joinOn f (loop f) b outer joined cs = some (set, rest)) : rest <:+ cs :=
  (List.suffix_cons _ _).trans (joinOn_closed h)

theorem afterMember?_leaves {low : Atom} {cs rest : List Char} {set : CharSet}
    (h : afterMember? f (joinOn f (loop f) b outer) low cs = some (set, rest)) : rest <:+ cs := by
  obtain hnone | ⟨joined, left, hleft, hafter⟩ := afterMember?_cases f low cs
  · cases (hnone _).symm.trans h
  · rw [hafter] at h
    exact (joinOn_leaves h).trans hleft

theorem round_closed {cs rest : List Char} {set : CharSet}
    (h : round f (loop f) b outer cs = some (set, rest)) : ']' :: rest <:+ cs := by
  obtain hround | ⟨set, rest, hclosed, hround⟩ | ⟨b', outer', rest, hrest, -, hround⟩ :=
    round_cases f b outer cs
  · cases (hround _).symm.trans h
  · rw [hround] at h
    cases h
    exact hclosed ▸ List.suffix_rfl
  · rw [hround] at h
    exact (loop_closed h).trans hrest

/-- An end behind a parenthesis is no end at it. -/
theorem spilled_of_closed {rest more : List Char} (h : ']' :: rest <:+ ')' :: more) :
    rest <:+ more := by
  obtain heq | h := List.suffix_cons_iff.mp h
  · cases heq
  · exact (List.suffix_cons _ _).trans h

/-- With nothing but blanks behind a hyphen, a class is not closed. -/
theorem joinOn_hyphen {cs : List Char} (h : skip f.extended cs = []) (set : CharSet) :
    joinOn f (loop f) b outer set ('-' :: cs) = none := by
  refine Option.bind_eq_none_iff.mpr fun b' _ => ?_
  have hkept : skip f.extended ('-' :: cs) = '-' :: cs := skip_kept (by decide) (by decide) _ cs
  have hop : opens '-' cs = false := by
    cases cs with
    | nil => rfl
    | cons c cs =>
      refine Bool.eq_false_iff.mpr fun hop => ?_
      obtain ⟨-, rest, heq, -⟩ := round_operation (f := f) hop
      cases heq
      unfold skip at h
      split at h <;> cases h
  rw [loop_eq, hkept, round_member (by decide) (by decide) hop, memberRound,
    readMember?_plain (by decide), Option.bind_some, h]
  rfl

end Loops

end Bracket

namespace Bracket

variable {f : Flags}

section Staying

variable {b : Bracket} {outer : List Bracket}

/-- What an element comes to is chosen first; then the class goes on. -/
theorem Stays.chosen {α : Type} (choice : Option α)
    {k : α → List Char → Option (CharSet × List Char)} {cs : List Char}
    (h : ∀ a, choice = some a → Stays (k a) cs) :
    Stays (fun cs => choice.bind fun a => k a cs) cs := by
  cases choice with
  | none => exact .unfinished rfl nofun
  | some a => exact h a rfl

/-- Behind an element and a hyphen, where blanks are skipped to `next`. -/
def afterHyphen? (f : Flags) (k : JoinOn) (low : Atom) (cs next : List Char) :
    Option (CharSet × List Char) :=
  if next.head? = some ']' || next.head? = some '-' then
    (atomSet? f low).bind fun set => k set ('-' :: cs)
  else
    (readMember? f next).bind fun p => (rangeOf? f low p.1).bind fun set => k set p.2

theorem afterMember?_hyphen (k : JoinOn) (low : Atom) (cs : List Char) :
    afterMember? f k low ('-' :: cs) = afterHyphen? f k low cs (skip f.extended cs) := by
  unfold afterMember?
  exact if_pos rfl

theorem stays_joinOn (b : Bracket) (set : CharSet) {cs : List Char}
    (h : ∀ b, Stays (loop f b outer) cs) : Stays (joinOn f (loop f) b outer set) cs :=
  Stays.chosen (b.join? f set) fun b _ => h b

section Chosen

variable {choice : Option CharSet} {cs rest : List Char} {set : CharSet}

theorem stays_chosen (b : Bracket) (choice : Option CharSet)
    (h : ∀ b, Stays (loop f b outer) cs) :
    Stays (fun cs => choice.bind fun set => joinOn f (loop f) b outer set cs) cs :=
  Stays.chosen choice fun set _ => stays_joinOn b set h

theorem chosen_closed
    (h : (choice.bind fun set => joinOn f (loop f) b outer set cs) = some (set, rest)) :
    ']' :: rest <:+ cs := by
  obtain ⟨joined, -, h⟩ := Option.bind_eq_some_iff.mp h
  exact joinOn_closed h

theorem chosen_leaves
    (h : (choice.bind fun set => joinOn f (loop f) b outer set cs) = some (set, rest)) :
    rest <:+ cs :=
  (List.suffix_cons _ _).trans (chosen_closed h)

end Chosen

section Hyphen

variable {low : Atom} {cs : List Char}

/-- What stands behind the hyphen ends a range, or the hyphen stands for itself before it. -/
theorem stays_hyphen {d : Char} {next : List Char}
    (ih : ∀ b cs', cs'.length ≤ cs.length + 1 → Stays (loop f b outer) cs')
    (hown : skip f.extended cs = d :: next)
    (hmore : ∀ more, skip f.extended (cs ++ ')' :: more) = d :: next ++ ')' :: more) :
    Stays (afterMember? f (joinOn f (loop f) b outer) low) ('-' :: cs) := by
  by_cases hend : ((d :: next).head? = some ']' || (d :: next).head? = some '-') = true
  · refine (stays_chosen b (atomSet? f low) fun b =>
      ih b ('-' :: cs) (Nat.le_refl _)).of_eq ?_ fun more => ?_
    · rw [afterMember?_hyphen, hown, afterHyphen?, if_pos hend]
    · rw [List.cons_append, afterMember?_hyphen, hmore]
      exact if_pos hend
  · refine (((local_readMember? (f := f)).stays (d :: next)).bind
      (g := fun high rest =>
        (rangeOf? f low high).bind fun set => joinOn f (loop f) b outer set rest)
      chosen_leaves fun high rest hhigh =>
        stays_chosen b _ fun b => ih b rest ?_).of_eq ?_ fun more => ?_
    · have hle := (hown ▸ skip_suffix f.extended cs : d :: next <:+ cs).length_le
      have hlt := readMember?_lt hhigh
      omega
    · rw [afterMember?_hyphen, hown, afterHyphen?, if_neg hend]
    · rw [List.cons_append, afterMember?_hyphen, hmore]
      exact if_neg hend

/-- Behind a last hyphen the range is open, and the parenthesis put behind it ends it. -/
theorem stays_lastHyphen (hown : skip f.extended cs = [])
    (hmore : ∀ more, skip f.extended (cs ++ ')' :: more) = ')' :: more) :
    Stays (afterMember? f (joinOn f (loop f) b outer) low) ('-' :: cs) := by
  refine .unfinished ?_ fun more set rest h => ?_
  · rw [afterMember?_hyphen, hown]
    rfl
  · rw [List.cons_append, afterMember?_hyphen, hmore, afterHyphen?,
      if_neg (by rw [List.head?_cons]; decide), readMember?_plain (by decide),
      Option.bind_some] at h
    exact chosen_leaves h

/-- Behind a hyphen and a comment the range is open, and what ends it stands in the addition. -/
theorem stays_hyphenComment (ih : ∀ b, Stays (loop f b outer) ('-' :: cs))
    (hown : skip f.extended cs = [])
    (hspilled : ∀ more, skip f.extended (cs ++ ')' :: more) <:+ more) :
    Stays (afterMember? f (joinOn f (loop f) b outer) low) ('-' :: cs) := by
  refine .unfinished ?_ fun more set rest h => ?_
  · rw [afterMember?_hyphen, hown]
    rfl
  · rw [List.cons_append, afterMember?_hyphen, afterHyphen?] at h
    split at h
    · obtain ⟨joined, -, h⟩ := Option.bind_eq_some_iff.mp h
      exact (stays_joinOn b joined ih).spilled (joinOn_hyphen hown joined) h
    · obtain ⟨p, hhigh, h⟩ := Option.bind_eq_some_iff.mp h
      exact (chosen_leaves h).trans ((local_readMember?.leaves hhigh).trans (hspilled more))

end Hyphen

theorem stays_afterMember? {low : Atom} {cs : List Char}
    (ih : ∀ b cs', cs'.length ≤ cs.length → Stays (loop f b outer) cs') :
    Stays (afterMember? f (joinOn f (loop f) b outer) low) cs := by
  cases cs with
  | nil => exact .unfinished rfl fun more set rest h => spilled_of_closed (chosen_closed h)
  | cons c cs =>
    by_cases hc : c = '-'
    · subst hc
      obtain ⟨next, hown, hmore⟩ | ⟨hown, -, hspilled⟩ := skip_cases f.extended cs
      · cases next with
        | nil => exact stays_lastHyphen hown hmore
        | cons d next => exact stays_hyphen ih hown hmore
      · exact stays_hyphenComment (fun b => ih b _ (Nat.le_refl _)) hown hspilled
    · exact (stays_chosen b (atomSet? f low) fun b => ih b (c :: cs) (Nat.le_refl _)).of_eq
        (if_neg hc) fun more => if_neg hc

theorem opens_append {c : Char} {cs more : List Char} :
    opens c (cs ++ ')' :: more) = opens c cs := by
  cases cs with
  | nil =>
    by_cases hc : c = ')'
    · subst hc
      rfl
    · have hne : (some ')' == some c) = false := beq_eq_false_iff_ne.mpr
        fun heq => hc (Option.some.inj heq).symm
      exact (congrArg (· && _) hne).trans (Bool.false_and _)
  | cons d cs => rfl

theorem stays_round {cs : List Char}
    (ih : ∀ b outer cs', cs'.length < cs.length → Stays (loop f b outer) cs') :
    Stays (round f (loop f) b outer) cs := by
  cases cs with
  | nil => exact .unfinished rfl fun more set rest h => spilled_of_closed (round_closed h)
  | cons c cs =>
    by_cases hopen : c = '['
    · subst hopen
      cases hascii : readAscii? f cs with
      | some p =>
        have hlt : p.2.length < ('[' :: cs).length :=
          Nat.lt_succ_of_le (readAscii?_leaves hascii).length_le
        refine (stays_joinOn b p.1 fun b => ih b outer p.2 hlt).of_eq ?_
          fun more => ?_
        · rw [round, hascii]
        · rw [List.cons_append, round, readAscii?_stays, hascii]
          rfl
      | none =>
        refine (((local_start f.extended).stays cs).bind
          (g := fun inner rest => loop f inner (b :: outer) rest) loop_leaves
          fun inner rest hstart => ih inner (b :: outer) rest
            (Nat.lt_succ_of_le ((local_start f.extended).leaves hstart).length_le)).of_eq ?_
          fun more => ?_
        · rw [round, hascii]
          rfl
        · rw [List.cons_append, round, readAscii?_stays, hascii]
          rfl
    · by_cases hclose : c = ']'
      · subst hclose
        refine (Stays.chosen (b.close? f) (k := fun set cs => match outer with
          | [] => some (set, cs)
          | parent :: outer => loop f (parent.add set) outer cs) fun set _ => ?_).of_eq rfl
          fun _ => rfl
        cases outer with
        | nil => exact (local_pure set).stays cs
        | cons parent outer => exact ih (parent.add set) outer cs (Nat.lt_succ_self _)
      · cases hop : opens c cs with
        | true =>
          obtain ⟨op, rest, rfl, hround⟩ := round_operation (f := f) hop
          exact (ih (b.operate f op) outer rest (Nat.lt_succ_of_le (Nat.le_succ _))).of_eq
            (hround _ _ _ _) fun more => hround _ _ _ _
        | false =>
          refine ((local_readMember?.stays (c :: cs)).bind
            (g := fun low rest => (some ((), skip f.extended rest)).bind fun p =>
              afterMember? f (joinOn f (loop f) b outer) low p.2)
            (fun h => (afterMember?_leaves h).trans (skip_suffix f.extended _)) fun low rest hlow =>
              ((local_skip f.extended).stays rest).bind
                (g := fun _ rest => afterMember? f (joinOn f (loop f) b outer) low rest)
                afterMember?_leaves fun _ rest' hrest' => stays_afterMember? fun b cs' hle =>
                  ih b outer cs' ?_).of_eq
            (round_member hopen hclose hop) fun more => ?_
          · have hle' := ((local_skip f.extended).leaves hrest').length_le
            have hlt := readMember?_lt hlow
            omega
          · exact round_member hopen hclose (opens_append.trans hop)

theorem local_loop (b : Bracket) (outer : List Bracket) : Local (loop f b outer) where
  leaves := loop_leaves
  stays cs := by
    induction hn : cs.length using Nat.strongRecOn generalizing b outer cs with
    | ind n ih =>
      refine (((local_skip f.extended).stays cs).bind
        (g := fun _ rest => round f (loop f) b outer rest)
        (fun h => (List.suffix_cons _ _).trans (round_closed h)) fun _ rest hrest =>
          stays_round fun b outer cs' hlt => ?_).of_eq (loop_eq b outer cs)
        fun more => loop_eq b outer _
      have hle := ((local_skip f.extended).leaves hrest).length_le
      exact ih cs'.length (by omega) b outer cs' rfl

/-- Bracketed classes mind an addition as little as other readers do. -/
theorem local_read? : Local (read? f) := by
  refine ((local_start f.extended).bind (g := fun b rest => loop f b [] rest)
    fun b => local_loop b []).congr fun cs => ?_
  have hstart : (start f.extended cs).2.length ≤ cs.length :=
    ((local_start f.extended).leaves rfl).length_le
  have hloop : readOn? f (cs.length + 1) (start f.extended cs).1 [] (start f.extended cs).2 =
      loop f (start f.extended cs).1 [] (start f.extended cs).2 :=
    readOn?_enough (Nat.lt_succ_of_le hstart) (Nat.lt_succ_self _)
  exact hloop

end Staying

end Bracket

end Pattern

end Conform
