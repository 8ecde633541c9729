import Conform.Proofs.Steps

/-!
# A pattern inside a group

A pattern is put into a group: groups are open around it, and a closing
parenthesis stands behind it. It is read there as it is read alone, unless a
comment at its end takes the parenthesis in, or it closes the group itself.
-/

namespace Conform

namespace Pattern

section Frames

variable {r : Reading} {outer : List Frame} {c : Char} {cs : List Char}

/-- A reading inside further open groups. -/
def Reading.under (r : Reading) (outer : List Frame) : Reading :=
  { r with frames := r.frames ++ outer }

/-- The same for a reading with what is left of the text. -/
def under (outer : List Frame) (p : Reading × List Char) : Reading × List Char :=
  (p.1.under outer, p.2)

theorem addAtom?_under (a : Atom) :
    (r.under outer).addAtom? a = (r.addAtom? a).map (·.under outer) := by
  cases a with
  | look a => rfl
  | _ =>
    simp only [Reading.addAtom?, apply_ite (Option.map (Reading.under · outer))]
    rfl

theorem repeat?_under (low : Nat) (high : Option Nat) :
    (r.under outer).repeat? low high = (r.repeat? low high).map (·.under outer) := by
  obtain ⟨flags, alternatives, items, frames, names⟩ := r
  cases items with
  | nil => rfl
  | cons item items => cases item <;> rfl

theorem dot?_under : (r.under outer).dot? = r.dot?.map (·.under outer) := by
  unfold Reading.dot?
  simp only [apply_ite (Option.map (Reading.under · outer))]
  rfl

theorem leave?_under (h : r.frames ≠ []) :
    (r.under outer).leave? = r.leave?.map (·.under outer) := by
  obtain ⟨flags, alternatives, items, frames, names⟩ := r
  cases frames with
  | nil => exact absurd rfl h
  | cons frame frames => rfl

/-- Readers that agree under further open groups still do where a character decides. -/
theorem ifNext_under {f g f' g' : List Char → Option (Reading × List Char)} {k : Char}
    (hf : ∀ cs, f' cs = (f cs).map (under outer)) (hg : ∀ cs, g' cs = (g cs).map (under outer))
    (cs : List Char) : ifNext k f' g' cs = (ifNext k f g cs).map (under outer) := by
  by_cases hk : ∃ rest, cs = k :: rest
  · obtain ⟨rest, rfl⟩ := hk
    rw [ifNext_self, ifNext_self, hf]
  · rw [ifNext_else fun rest h => hk ⟨rest, h⟩, ifNext_else fun rest h => hk ⟨rest, h⟩, hg]

theorem enterNamed?_under (name : List Char) :
    enterNamed? (r.under outer) name = (enterNamed? r name).map (·.under outer) := by
  cases name with
  | nil => rfl
  | cons first more =>
    simp only [enterNamed?, apply_ite (Option.map (Reading.under · outer))]
    rfl

theorem readName?_under (cs : List Char) :
    readName? (r.under outer) cs = (readName? r cs).map (under outer) := by
  by_cases hclosed : '>' ∈ cs
  · obtain ⟨name, rest, rfl, hname⟩ := List.eq_append_cons_of_mem hclosed
    rw [readName?_append hname, readName?_append hname, enterNamed?_under]
    cases enterNamed? r name <;> rfl
  · rw [readName?_open hclosed, readName?_open hclosed]
    rfl

theorem readSetting?_under (f : Flags) (on : Bool) (seen cs : List Char) :
    readSetting? (r.under outer) f on seen cs =
      (readSetting? r f on seen cs).map (under outer) := by
  unfold readSetting?
  cases readFlags? f on seen cs with
  | none => rfl
  | some p =>
    rw [Option.bind_some, Option.bind_some]
    cases p.2.2 with
    | nil => rfl
    | cons c rest =>
      unfold setFlags?
      simp only [apply_ite (Option.map (under outer))]
      rfl

theorem readGroup?_under (cs : List Char) :
    readGroup? (r.under outer) cs = (readGroup? r cs).map (under outer) := by
  have hnone : ∀ cs : List Char,
      (none : Option (Reading × List Char)) = (none : Option (Reading × List Char)).map (under outer) :=
    fun _ => rfl
  have hangle : ∀ cs, behindAngle? (r.under outer) cs = (behindAngle? r cs).map (under outer) :=
    ifNext_under hnone (ifNext_under hnone readName?_under)
  have hmark : ∀ cs, behindMark? (r.under outer) cs = (behindMark? r cs).map (under outer) :=
    ifNext_under hnone (ifNext_under hnone (ifNext_under (ifNext_under readName?_under hnone)
      (ifNext_under hangle (readSetting?_under _ _ _))))
  have hplain : ∀ cs : List Char, some ((r.under outer).enter (r.under outer).flags, cs) =
      (some (r.enter r.flags, cs)).map (under outer) := fun _ => rfl
  rw [readGroup?_eq, readGroup?_eq]
  exact ifNext_under hmark hplain _

theorem uncounted?_under (low : Nat) (high : Option Nat) (cs : List Char) :
    uncounted? (r.under outer) low high cs = (uncounted? r low high cs).map (under outer) := by
  rw [uncounted?, uncounted?, repeat?_under]
  cases r.repeat? low high with
  | none => rfl
  | some r' => cases passLazy? cs <;> rfl

/-- What is open around a group stays as it is while the group is read. -/
theorem step?_under (h : c = ')' → r.frames ≠ []) (cs : List Char) :
    step? (r.under outer) c cs = (step? r c cs).map (under outer) := by
  have hgiving : ∀ (a : Option Reading) (cs : List Char),
      (a.map (·.under outer)).map (·, cs) = (a.map (·, cs)).map (under outer) := fun a cs => by
    cases a <;> rfl
  cases hspecial : isSpecial c with
  | false =>
    rw [step?_plain hspecial, step?_plain hspecial, addAtom?_under]
    exact hgiving _ cs
  | true =>
    obtain rfl | rfl | rfl | rfl | rfl | rfl | rfl | rfl | rfl | rfl | rfl | rfl :=
      isSpecial_cases hspecial
    · exact readGroup?_under cs
    · exact (congrArg (Option.map (·, cs)) (leave?_under (h rfl))).trans (hgiving _ _)
    · rfl
    · rw [step?_class, step?_class, Option.map_map]
      rfl
    · rw [step?_optional, step?_optional, uncounted?_under]
    · rw [step?_any, step?_any, uncounted?_under]
    · rw [step?_some, step?_some, uncounted?_under]
    · rw [step?_bounds, step?_bounds, Option.map_bind]
      refine congrArg _ (funext fun p => ?_)
      exact (congrArg (Option.map (·, p.2)) (repeat?_under _ _)).trans (hgiving _ _)
    · rw [step?_escape, step?_escape, Option.map_bind]
      refine congrArg _ (funext fun p => ?_)
      exact (congrArg (Option.map (·, p.2)) (addAtom?_under _)).trans (hgiving _ _)
    · exact (congrArg (Option.map (·, cs)) dot?_under).trans (hgiving _ _)
    · rfl
    · rfl

end Frames

section Parsing

variable {r r' : Reading} {outer : List Frame} {cs : List Char}

/-- What is read at the end of a text, if no group is open. -/
def Reading.finish? (r : Reading) : Option Expr := if r.frames.isEmpty then some r.body else none

theorem finish?_open (h : r.frames ≠ []) : r.finish? = none :=
  if_neg (mt List.isEmpty_iff.mp h)

theorem readOn?_succ (fuel : Nat) (r : Reading) (cs : List Char) : readOn? (fuel + 1) r cs =
    match skip r.flags.extended cs with
    | [] => r.finish?
    | c :: rest => (step? r c rest).bind fun p => readOn? fuel p.1 p.2 := rfl

/-- More rounds than characters make no difference. -/
theorem readOn?_enough {fuel fuel' : Nat} (h : cs.length < fuel) (h' : cs.length < fuel') :
    readOn? fuel r cs = readOn? fuel' r cs := by
  induction fuel generalizing r cs fuel' with
  | zero => exact absurd h (Nat.not_lt_zero _)
  | succ fuel ih =>
    cases fuel' with
    | zero => exact absurd h' (Nat.not_lt_zero _)
    | succ fuel' =>
      have hskip := (skip_suffix r.flags.extended cs).length_le
      rw [readOn?_succ, readOn?_succ]
      cases hrest : skip r.flags.extended cs with
      | nil => rfl
      | cons c rest =>
        dsimp only
        cases hstep : step? r c rest with
        | none => rfl
        | some p =>
          have hle := (step?_leaves hstep).length_le
          rw [hrest, List.length_cons] at hskip
          exact ih (by omega) (by omega)

/-- What a reading comes to at the end of a text, in as many rounds as it takes. -/
def Reading.parse? (r : Reading) (cs : List Char) : Option Expr := readOn? (cs.length + 1) r cs

theorem parse?_eq (r : Reading) (cs : List Char) : r.parse? cs =
    match skip r.flags.extended cs with
    | [] => r.finish?
    | c :: rest => (step? r c rest).bind fun p => p.1.parse? p.2 := by
  have hskip := (skip_suffix r.flags.extended cs).length_le
  rw [Reading.parse?, readOn?_succ]
  cases hrest : skip r.flags.extended cs with
  | nil => rfl
  | cons c rest =>
    dsimp only
    cases hstep : step? r c rest with
    | none => rfl
    | some p =>
      have hle := (step?_leaves hstep).length_le
      rw [hrest, List.length_cons] at hskip
      exact readOn?_enough (by omega) (Nat.lt_succ_self _)

theorem parse?_nil (h : skip r.flags.extended cs = []) : r.parse? cs = r.finish? := by
  rw [parse?_eq, h]

theorem parse?_cons {c : Char} {rest : List Char} (h : skip r.flags.extended cs = c :: rest) :
    r.parse? cs = (step? r c rest).bind fun p => p.1.parse? p.2 := by
  rw [parse?_eq, h]

theorem parse?_congr {cs' : List Char}
    (h : skip r.flags.extended cs = skip r.flags.extended cs') : r.parse? cs = r.parse? cs' := by
  rw [parse?_eq, parse?_eq, h]

/-- Without a closing parenthesis, what is open stays open. -/
theorem parse?_open (hframes : r.frames ≠ []) (hcs : ')' ∉ cs) : r.parse? cs = none := by
  induction hn : cs.length using Nat.strongRecOn generalizing r cs with
  | ind n ih =>
    have hskip := skip_suffix r.flags.extended cs
    cases hrest : skip r.flags.extended cs with
    | nil =>
      rw [parse?_nil hrest, finish?_open hframes]
    | cons c rest =>
      rw [parse?_cons hrest]
      rw [hrest] at hskip
      have hmem : ∀ d ∈ c :: rest, d ≠ ')' := fun d hd h => hcs (h ▸ hskip.subset hd)
      -- the open groups can be taken off, and put back after the step
      have hunder : r = Reading.under { r with frames := [] } r.frames := rfl
      cases hstep : step? r c rest with
      | none => rfl
      | some p =>
        rw [hunder, step?_under fun hc => absurd hc (hmem c (List.mem_cons_self ..))] at hstep
        obtain ⟨q, hq, rfl⟩ := Option.map_eq_some_iff.mp hstep
        have hleaves := step?_leaves hq
        have hle := hskip.length_le
        have hle' := hleaves.length_le
        rw [List.length_cons] at hle
        refine ih q.2.length (by omega) ?_ (fun hp => ?_) rfl
        · exact List.append_ne_nil_of_right_ne_nil _ hframes
        · exact hmem _ (List.mem_cons_of_mem c (hleaves.subset hp)) rfl

end Parsing

section Courses

variable {r r' : Reading} {outer : List Frame} {c : Char} {cs rest : List Char}

/-- A text is read up to its end, whatever stands behind a closing parenthesis after it. -/
structure ReadsTo (r : Reading) (cs : List Char) (r' : Reading) : Prop where
  own : r.parse? cs = r'.finish?
  added : ∀ outer more,
    (r.under outer).parse? (cs ++ ')' :: more) = (r'.under outer).parse? (')' :: more)

/-- What becomes of the reading of a text when a closing parenthesis and more are put behind. -/
inductive Course (r : Reading) (cs : List Char) : Prop
  /-- The addition is read behind the text. -/
  | apart {q : Reading} : ReadsTo r cs q → Course r cs
  /-- A comment at the end takes the addition in. -/
  | swallowed {q : Reading} :
      r.parse? cs = q.finish? →
      (∀ outer more, '\n' ∉ more →
        (r.under outer).parse? (cs ++ ')' :: more) = (q.under outer).finish?) → Course r cs
  /-- The text is not read, and no addition helps that closes no other group. -/
  | broken :
      r.parse? cs = none →
      (∀ outer more, outer ≠ [] → '\n' ∉ more → ')' ∉ more →
        (r.under outer).parse? (cs ++ ')' :: more) = none) → Course r cs
  /-- The text itself closes a group that is not open in it. -/
  | closes {front back : List Char} {q : Reading} :
      cs = front ++ ')' :: back → ReadsTo r front q → q.frames = [] → Course r cs

theorem skip_nil (extended : Bool) : skip extended [] = [] := by
  cases extended <;> rfl

theorem skip_paren (extended : Bool) (cs : List Char) : skip extended (')' :: cs) = ')' :: cs :=
  skip_kept (by decide) (by decide) extended cs

/-- Nothing but blanks behind an opening brace makes no bounds. -/
theorem step?_brace (h : skip r.flags.extended cs = []) : step? r '\x7b' cs = none := by
  rw [step?_bounds, readBounds?_eq, h]
  cases r.flags.extended <;> rfl

/-- Behind an open brace the sign of a boundary is read alone, or up to some place in the addition. -/
theorem step?_braceOpen (h : BraceOpen r.flags.extended c cs) :
    step? r c cs = none ∧ ∀ more r' rest, step? r c (cs ++ ')' :: more) = some (r', rest) →
      rest <:+ more ∨ r'.flags = r.flags ∧ ∃ inner, cs = 'b' :: '\x7b' :: inner ∧
        skip r.flags.extended inner = [] ∧ rest = '\x7b' :: (inner ++ ')' :: more) := by
  obtain ⟨rfl, inner, rfl, hskip⟩ := h
  have hread : ∀ tail, step? r '\\' ('b' :: '\x7b' :: tail) =
      (match skip r.flags.extended tail with
        | [] => none
        | d :: rest =>
          if isKindChar d then readKind? r.flags (d :: rest)
          else some (plainBoundary r.flags, '\x7b' :: tail)).bind fun p =>
            (r.addAtom? p.1).map (·, p.2) := fun tail => by
    rw [step?_escape]
    exact congrArg (Option.bind · _) readBoundary?_braced
  refine ⟨by rw [hread, hskip]; rfl, fun more r' rest h => ?_⟩
  rw [List.cons_append, List.cons_append, hread] at h
  obtain ⟨p, hp, h⟩ := Option.bind_eq_some_iff.mp h
  obtain ⟨added, hadded, heq⟩ := Option.map_eq_some_iff.mp h
  cases heq
  split at hp
  · cases hp
  · next d tail htail =>
    split at hp
    · next hkind =>
      obtain ⟨left, hown, hmore⟩ | ⟨-, -, hspilled⟩ := skip_cases r.flags.extended inner
      · cases hown.symm.trans hskip
        rw [hmore] at htail
        cases htail
        cases hkind
      · exact .inl ((local_readKind?.leaves hp).trans (htail ▸ hspilled more))
    · cases hp
      cases hadded
      exact .inr ⟨rfl, inner, rfl, hskip, rfl⟩

/-- A step that had no end in a text leads to nothing inside an open group. -/
theorem step?_spilled {more : List Char} (hclose : c = ')' → r.frames ≠ [])
    (hstep : step? r c cs = none) (houter : outer ≠ []) (hmore : ')' ∉ more) :
    ((step? (r.under outer) c (cs ++ ')' :: more)).bind fun p => p.1.parse? p.2) = none := by
  have hopen : ∀ (q : Reading) (rest : List Char), rest <:+ more →
      (q.under outer).parse? rest = none := fun q rest hrest =>
    parse?_open (List.append_ne_nil_of_right_ne_nil _ houter) fun hp => hmore (hrest.subset hp)
  rw [step?_under hclose]
  cases hadded : step? r c (cs ++ ')' :: more) with
  | none => rfl
  | some p =>
    obtain ⟨q, rest⟩ := p
    change (q.under outer).parse? rest = none
    by_cases hbrace : BraceOpen r.flags.extended c cs
    · obtain hrest | ⟨hflags, inner, -, hskip, rfl⟩ := (step?_braceOpen hbrace).2 _ _ _ hadded
      · exact hopen q rest hrest
      · rw [parse?_cons (skip_kept (by decide) (by decide) _ _),
          step?_under fun hc => absurd hc (by decide)]
        cases hbounds : step? q '\x7b' (inner ++ ')' :: more) with
        | none => rfl
        | some p' =>
          have hnone := step?_brace (r := q) (hflags ▸ hskip)
          exact hopen p'.1 p'.2 (((local_step? (by decide)).stays inner).spilled hnone hbounds)
    · exact hopen q rest ((stays_step? hbrace).spilled hstep hadded)

theorem not_suffix_of_longer {front back : List Char} : ¬ (front ++ ')' :: back <:+ back) := by
  intro h
  have hle := h.length_le
  rw [List.length_append, List.length_cons] at hle
  omega

/-- A step on a text that goes on with a closing parenthesis is a step up to there. -/
theorem ReadsTo.step {r₁ : Reading} {front back : List Char} (hread : ReadsTo r₁ front r')
    (hframes : r'.frames = []) (hstep : step? r c cs = some (r₁, front ++ ')' :: back)) :
    ∃ front', cs = front' ++ ')' :: back ∧ step? r c front' = some (r₁, front) ∧
      ∀ more, step? r c (front' ++ ')' :: more) = some (r₁, front ++ ')' :: more) := by
  obtain ⟨taken, htaken⟩ := step?_leaves hstep
  have hcs : cs = (taken ++ front) ++ ')' :: back := by
    rw [← htaken, List.append_assoc]
  subst hcs
  refine ⟨taken ++ front, rfl, ?_⟩
  by_cases hbrace : BraceOpen r.flags.extended c (taken ++ front)
  · obtain hrest | ⟨hflags, inner, -, hskip, heq⟩ := (step?_braceOpen hbrace).2 _ _ _ hstep
    · exact absurd hrest not_suffix_of_longer
    · have hfront : front = '\x7b' :: inner := List.append_cancel_right heq
      subst hfront
      have hown := hread.own
      rw [parse?_cons (skip_kept (by decide) (by decide) _ _), step?_brace (hflags ▸ hskip),
        Reading.finish?, hframes] at hown
      cases hown
  · cases stays_step? hbrace with
    | apart hown hadded =>
      rw [hadded] at hstep
      obtain ⟨rfl, heq⟩ := Prod.mk.inj (Option.some.inj hstep)
      cases List.append_cancel_right heq
      exact ⟨hown, hadded⟩
    | swallowed _ _ hspilled => exact absurd (hspilled _ _ _ hstep) not_suffix_of_longer
    | unfinished _ hspilled => exact absurd (hspilled _ _ _ hstep) not_suffix_of_longer

section Step

variable {blanks left : List Char} {q : Reading}

/-- A step, and what is left to it, are the same inside further groups. -/
theorem parse?_step (hskip : ∀ tail, skip r.flags.extended (blanks ++ c :: tail) = c :: tail)
    (hclose : c = ')' → r.frames ≠ []) (hstep : step? r c rest = some (q, left))
    (outer : List Frame) :
    (r.under outer).parse? (blanks ++ c :: rest) = (q.under outer).parse? left := by
  have hunder : step? (r.under outer) c rest = (step? r c rest).map (under outer) :=
    step?_under hclose rest
  rw [hstep] at hunder
  rw [parse?_cons (r := r.under outer) (hskip rest), hunder]
  rfl

/-- After a step the reading takes the course it takes from there. -/
theorem Course.of_step (hskip : ∀ tail, skip r.flags.extended (blanks ++ c :: tail) = c :: tail)
    (hclose : c = ')' → r.frames ≠ []) (hstep : step? r c rest = some (q, left))
    (h : Course q left) : Course r (blanks ++ c :: rest) := by
  have howned : r.parse? (blanks ++ c :: rest) = q.parse? left := by
    rw [parse?_cons (hskip rest), hstep]
    rfl
  have hbrace : ¬ BraceOpen r.flags.extended c rest := fun hopen => by
    cases (step?_braceOpen hopen).1.symm.trans hstep
  cases stays_step? hbrace with
  | unfinished hnone => cases hnone.symm.trans hstep
  | swallowed hsome hadded =>
    cases hsome.symm.trans hstep
    refine .swallowed (q := q) (howned.trans (parse?_nil (skip_nil _))) fun outer more hline => ?_
    rw [List.append_assoc, List.cons_append, parse?_step hskip hclose (hadded more hline)]
    exact parse?_nil (skip_nil _)
  | apart hsome hadded =>
    cases hsome.symm.trans hstep
    have hon : ∀ outer more, (r.under outer).parse? (blanks ++ c :: rest ++ ')' :: more) =
        (q.under outer).parse? (left ++ ')' :: more) := fun outer more => by
      rw [List.append_assoc, List.cons_append]
      exact parse?_step hskip hclose (hadded more) outer
    cases h with
    | apart hread =>
      exact .apart ⟨howned.trans hread.own, fun outer more =>
        (hon outer more).trans (hread.added outer more)⟩
    | swallowed hfinish hmore =>
      exact .swallowed (howned.trans hfinish) fun outer more hline =>
        (hon outer more).trans (hmore outer more hline)
    | broken hnone hmore =>
      exact .broken (howned.trans hnone) fun outer more houter hline hparen =>
        (hon outer more).trans (hmore outer more houter hline hparen)
    | @closes front back r' hleft hread hframes =>
      subst hleft
      obtain ⟨front', rfl, hfront, hmore⟩ := hread.step hframes hstep
      have hsplit : blanks ++ c :: (front' ++ ')' :: back) =
          (blanks ++ c :: front') ++ ')' :: back := by
        rw [List.append_assoc, List.cons_append]
      refine .closes hsplit ⟨?_, fun outer more => ?_⟩ hframes
      · rw [parse?_cons (hskip front'), hfront]
        exact hread.own
      · rw [List.append_assoc, List.cons_append, parse?_step hskip hclose (hmore more)]
        exact hread.added outer more

end Step

/-- Whatever a text is, its reading takes one of the four courses. -/
theorem course (r : Reading) (cs : List Char) : Course r cs := by
  induction hn : cs.length using Nat.strongRecOn generalizing r cs with
  | ind n ih =>
    obtain ⟨rest, hown, hmore⟩ | ⟨hown, hmore, -⟩ := skip_cases r.flags.extended cs
    · cases rest with
      | nil =>
        exact .apart (q := r) ⟨parse?_nil hown, fun outer more =>
          parse?_congr ((hmore more).trans (skip_paren _ more).symm)⟩
      | cons c rest =>
        obtain ⟨blanks, rfl, hblanks, hskip⟩ := skip_eq_cons hown
        by_cases hclose : c = ')' ∧ r.frames = []
        · obtain ⟨rfl, hframes⟩ := hclose
          exact .closes rfl ⟨parse?_nil hblanks, fun outer more =>
            parse?_congr ((hskip more).trans (skip_paren _ more).symm)⟩ hframes
        · have hclose' : c = ')' → r.frames ≠ [] := fun hc hframes => hclose ⟨hc, hframes⟩
          cases hstep : step? r c rest with
          | none =>
            refine .broken ?_ fun outer more houter _ hparen => ?_
            · rw [parse?_cons hown, hstep]
              rfl
            · rw [List.append_assoc, List.cons_append, parse?_cons (r := r.under outer) (hskip _)]
              exact step?_spilled hclose' hstep houter hparen
          | some p =>
            have hleft := (step?_leaves hstep).length_le
            rw [List.length_append, List.length_cons] at hn
            exact .of_step hskip hclose' hstep (ih p.2.length (by omega) p.1 p.2 rfl)
    · exact .swallowed (q := r) (parse?_nil hown) fun outer more hline =>
        parse?_nil (hmore more hline)

end Courses

end Pattern

end Conform
