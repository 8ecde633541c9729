import Conform.Pattern.Reader

/-!
# Readers and what comes behind

A reader takes characters from the front of a text and leaves the rest. Put a
closing parenthesis behind the text, and whatever after that: either the reader
takes what it took and leaves the addition as well, or a comment at the end of
the text takes the addition in, or the reader had no end in the text and can
only end behind the parenthesis.
-/

namespace Conform

namespace Pattern

section Readers

variable {α β : Type}

/-- What becomes of a reader's work on a text when a closing parenthesis and more are put behind. -/
inductive Stays (f : List Char → Option (α × List Char)) (cs : List Char) : Prop where
  /-- The addition is left alone. -/
  | apart {a : α} {rest : List Char} :
      f cs = some (a, rest) →
      (∀ more, f (cs ++ ')' :: more) = some (a, rest ++ ')' :: more)) → Stays f cs
  /-- A comment at the end takes the addition in, at least to the end of its line. -/
  | swallowed {a : α} :
      f cs = some (a, []) →
      (∀ more, '\n' ∉ more → f (cs ++ ')' :: more) = some (a, [])) →
      (∀ more b rest, f (cs ++ ')' :: more) = some (b, rest) → rest <:+ more) → Stays f cs
  /-- There was no end in the text; if there is one now, it is in the addition. -/
  | unfinished :
      f cs = none →
      (∀ more b rest, f (cs ++ ')' :: more) = some (b, rest) → rest <:+ more) → Stays f cs

/-- A reader that leaves a part of its text, and minds an addition as little as that. -/
structure Local (f : List Char → Option (α × List Char)) : Prop where
  leaves : ∀ {cs a rest}, f cs = some (a, rest) → rest <:+ cs
  stays : ∀ cs, Stays f cs

variable {f : List Char → Option (α × List Char)} {g : α → List Char → Option (β × List Char)}

/-- Readers that agree on a text, with the addition and without, do the same there. -/
theorem Stays.of_eq {f' : List Char → Option (α × List Char)} {cs cs' : List Char}
    (h : Stays f cs) (hown : f' cs' = f cs)
    (hadded : ∀ more, f' (cs' ++ ')' :: more) = f (cs ++ ')' :: more)) : Stays f' cs' := by
  cases h with
  | apart heq hmore => exact .apart (hown.trans heq) fun more => (hadded more).trans (hmore more)
  | swallowed heq hmore hspilled =>
    exact .swallowed (hown.trans heq) (fun more hline => (hadded more).trans (hmore more hline))
      fun more b rest h => hspilled more b rest ((hadded more).symm.trans h)
  | unfinished heq hspilled =>
    exact .unfinished (hown.trans heq)
      fun more b rest h => hspilled more b rest ((hadded more).symm.trans h)

/-- Where there was no end in the text, an end is in the addition. -/
theorem Stays.spilled {cs more rest : List Char} {a : α} (h : Stays f cs) (hnone : f cs = none)
    (hsome : f (cs ++ ')' :: more) = some (a, rest)) : rest <:+ more := by
  cases h with
  | apart heq => cases heq.symm.trans hnone
  | swallowed heq => cases heq.symm.trans hnone
  | unfinished _ hspilled => exact hspilled more a rest hsome

theorem Local.congr {f' : List Char → Option (α × List Char)} (hf : Local f)
    (h : ∀ cs, f' cs = f cs) : Local f' := by
  have heq : f' = f := funext h
  exact heq ▸ hf

theorem local_pure (a : α) : Local fun cs => some (a, cs) where
  leaves h := by
    cases h
    exact List.suffix_rfl
  stays cs := .apart rfl fun _ => rfl

theorem local_none : Local fun _ => (none : Option (α × List Char)) where
  leaves h := by cases h
  stays cs := .unfinished rfl nofun

/-- What is given already, or not at all, is given at any text. -/
theorem local_giving (a : Option α) : Local fun cs => a.map (·, cs) := by
  cases a with
  | none => exact local_none
  | some a => exact local_pure a

/-- One reader after another, at one text. -/
theorem Stays.bind {cs : List Char} (hf : Stays f cs)
    (hleaves : ∀ {a cs b rest}, g a cs = some (b, rest) → rest <:+ cs)
    (hg : ∀ a rest, f cs = some (a, rest) → Stays (g a) rest) :
    Stays (fun cs => (f cs).bind fun p => g p.1 p.2) cs := by
  -- what the first reader leaves in the addition, the second leaves there
  have hbehind : (∀ more a rest, f (cs ++ ')' :: more) = some (a, rest) → rest <:+ more) →
      ∀ more b rest, ((f (cs ++ ')' :: more)).bind fun p => g p.1 p.2) = some (b, rest) →
        rest <:+ more := by
    intro hspilled more b rest h
    obtain ⟨p, hp, h⟩ := Option.bind_eq_some_iff.mp h
    exact (hleaves h).trans (hspilled more p.1 p.2 hp)
  cases hf with
  | @apart a rest hfirst hadded =>
    refine (hg a rest hfirst).of_eq ?_ fun more => ?_
    · rw [hfirst, Option.bind_some]
    · rw [hadded, Option.bind_some]
  | @swallowed a hfirst hadded hspilled =>
    cases hsecond : g a [] with
    | none =>
      refine .unfinished ?_ (hbehind hspilled)
      rw [hfirst, Option.bind_some, hsecond]
    | some p =>
      obtain ⟨b, rest⟩ := p
      cases List.suffix_nil.mp (hleaves hsecond)
      refine .swallowed (a := b) ?_ (fun more hmore => ?_) (hbehind hspilled)
      · rw [hfirst, Option.bind_some, hsecond]
      · rw [hadded more hmore, Option.bind_some, hsecond]
  | unfinished hfirst hspilled =>
    refine .unfinished ?_ (hbehind hspilled)
    rw [hfirst, Option.bind_none]

theorem Local.bind (hf : Local f) (hg : ∀ a, Local (g a)) :
    Local fun cs => (f cs).bind fun p => g p.1 p.2 where
  leaves h := by
    obtain ⟨p, hp, h⟩ := Option.bind_eq_some_iff.mp h
    exact ((hg p.1).leaves h).trans (hf.leaves hp)
  stays cs := (hf.stays cs).bind (hg _).leaves fun a rest _ => (hg a).stays rest

/-- What a reader gives may be refused, or made into something else. -/
theorem Local.choose (hf : Local f) (choice : α → Option β) :
    Local fun cs => (f cs).bind fun p => (choice p.1).map (·, p.2) :=
  hf.bind (g := fun a cs => (choice a).map (·, cs)) fun a => local_giving (choice a)

theorem Stays.map {cs : List Char} (hf : Stays f cs) (h : α → β) :
    Stays (fun cs => (f cs).map fun p => (h p.1, p.2)) cs := by
  refine (hf.bind (g := fun a cs => some (h a, cs)) (fun heq => ?_) fun a rest _ => ?_).of_eq ?_
    fun more => ?_
  · exact (local_pure _).leaves heq
  · exact (local_pure (h a)).stays rest
  · cases f cs <;> rfl
  · cases f (cs ++ ')' :: more) <;> rfl

theorem Local.map (hf : Local f) (h : α → β) :
    Local fun cs => (f cs).map fun p => (h p.1, p.2) where
  leaves {cs b rest} heq := by
    obtain ⟨p, hp, heq⟩ := Option.map_eq_some_iff.mp heq
    cases heq
    exact hf.leaves hp
  stays cs := (hf.stays cs).map h

variable {h : Char → List Char → Option (α × List Char)}

/-- A reader that goes by the first character. -/
theorem Local.uncons (hh : ∀ c, Local (h c)) :
    Local fun cs => match cs with
      | [] => none
      | c :: rest => h c rest where
  leaves {cs a rest} heq := by
    cases cs with
    | nil => cases heq
    | cons c cs => exact ((hh c).leaves heq).trans (List.suffix_cons c cs)
  stays cs := by
    cases cs with
    | nil => exact .unfinished rfl fun more b rest heq => (hh ')').leaves heq
    | cons c cs => exact ((hh c).stays cs).of_eq rfl fun _ => rfl

/-- One reader behind a certain character, another at any other place. -/
def ifNext (k : Char) (f g : List Char → Option (α × List Char)) :
    List Char → Option (α × List Char)
  | [] => g []
  | c :: rest => if c = k then f rest else g (c :: rest)

theorem ifNext_self (k : Char) (f g : List Char → Option (α × List Char)) (cs : List Char) :
    ifNext k f g (k :: cs) = f cs := if_pos rfl

theorem ifNext_else {k : Char} {cs : List Char} (hk : ∀ rest, cs ≠ k :: rest)
    (f g : List Char → Option (α × List Char)) : ifNext k f g cs = g cs := by
  cases cs with
  | nil => rfl
  | cons c rest => exact if_neg fun (hc : c = k) => hk rest (hc ▸ rfl)

/-- Where nothing is read but behind a character, that character is next. -/
theorem ifNext_eq_some {k : Char} {cs : List Char} {p : α × List Char}
    (h : ifNext k f (fun _ => none) cs = some p) : ∃ rest, cs = k :: rest ∧ f rest = some p := by
  cases cs with
  | nil => cases h
  | cons c rest =>
    unfold ifNext at h
    dsimp only at h
    split at h
    · next hc => exact ⟨rest, hc ▸ rfl, h⟩
    · cases h

theorem local_ifNext {g : List Char → Option (α × List Char)} {k : Char} (hk : k ≠ ')')
    (hf : Local f) (hg : Local g) : Local (ifNext k f g) where
  leaves {cs a rest} heq := by
    cases cs with
    | nil => exact hg.leaves heq
    | cons c cs =>
      by_cases hc : c = k
      · rw [hc, ifNext_self] at heq
        exact (hf.leaves heq).trans (List.suffix_cons c cs)
      · exact hg.leaves ((if_neg hc).symm.trans heq)
  stays cs := by
    cases cs with
    | nil => exact (hg.stays []).of_eq rfl fun _ => if_neg (Ne.symm hk)
    | cons c cs =>
      by_cases hc : c = k
      · exact (hf.stays cs).of_eq (if_pos hc) fun _ => if_pos hc
      · exact (hg.stays (c :: cs)).of_eq (if_neg hc) fun _ => if_neg hc

end Readers

section Blanks

variable {extended : Bool}

theorem dropBlank_suffix (comment : Bool) (cs : List Char) : dropBlank comment cs <:+ cs := by
  induction cs generalizing comment with
  | nil => cases comment <;> exact List.suffix_rfl
  | cons c cs ih =>
    cases comment with
    | true => exact (ih _).trans (List.suffix_cons c cs)
    | false =>
      unfold dropBlank
      split
      · exact (ih _).trans (List.suffix_cons c cs)
      · split
        · exact (ih _).trans (List.suffix_cons c cs)
        · exact List.suffix_rfl

theorem skip_suffix (extended : Bool) (cs : List Char) : skip extended cs <:+ cs := by
  unfold skip
  split
  · exact dropBlank_suffix false cs
  · exact List.suffix_rfl

/-- A comment goes on to the end of its line. -/
theorem dropBlank_comment {cs : List Char} (h : '\n' ∉ cs) : dropBlank true cs = [] := by
  induction cs with
  | nil => rfl
  | cons c cs ih =>
    obtain ⟨hne, hcs⟩ := not_or.mp (mt List.mem_cons.mpr h)
    have hstill : (c != '\n') = true := bne_iff_ne.mpr (Ne.symm hne)
    rw [dropBlank, hstill]
    exact ih hcs

theorem dropBlank_kept {c : Char} (hblank : ¬ Text.isBlank c = true) (hhash : c ≠ '#')
    (cs : List Char) : dropBlank false (c :: cs) = c :: cs :=
  (if_neg hblank).trans (if_neg hhash)

/-- What is no blank, and begins no comment, is not skipped. -/
theorem skip_kept {c : Char} (hblank : ¬ Text.isBlank c = true) (hhash : c ≠ '#')
    (extended : Bool) (cs : List Char) : skip extended (c :: cs) = c :: cs := by
  cases extended with
  | true => exact dropBlank_kept hblank hhash cs
  | false => rfl

theorem local_dropBlank (comment : Bool) : Local fun cs => some ((), dropBlank comment cs) where
  leaves {cs a rest} heq := by
    cases heq
    exact dropBlank_suffix comment cs
  stays cs := by
    induction cs generalizing comment with
    | nil =>
      cases comment with
      | true =>
        refine .swallowed rfl (fun more hmore => ?_) fun more b rest heq => ?_
        · change some ((), dropBlank true more) = _
          rw [dropBlank_comment hmore]
        · cases heq
          exact dropBlank_suffix true more
      | false => exact .apart rfl fun more => rfl
    | cons c cs ih =>
      have hstep : ∀ comment', (∀ cs, dropBlank comment (c :: cs) = dropBlank comment' cs) →
          Stays (fun cs => some ((), dropBlank comment cs)) (c :: cs) := fun comment' heq =>
        (ih comment').of_eq (congrArg (fun rest => some ((), rest)) (heq cs))
          fun more => congrArg (fun rest => some ((), rest)) (heq (cs ++ ')' :: more))
      cases comment with
      | true => exact hstep (c != '\n') fun _ => rfl
      | false =>
        by_cases hblank : Text.isBlank c = true
        · exact hstep false fun _ => if_pos hblank
        · by_cases hhash : c = '#'
          · exact hstep true fun _ => (if_neg hblank).trans (if_pos hhash)
          · have hkept := dropBlank_kept hblank hhash
            exact .apart (congrArg (fun rest => some ((), rest)) (hkept cs))
              fun more => congrArg (fun rest => some ((), rest)) (hkept (cs ++ ')' :: more))

theorem local_skip (extended : Bool) : Local fun cs => some ((), skip extended cs) := by
  cases extended with
  | true => exact local_dropBlank false
  | false => exact local_pure ()

/-- Blanks are skipped alike with the addition behind them, unless a comment takes it in. -/
theorem skip_cases (extended : Bool) (cs : List Char) :
    (∃ rest, skip extended cs = rest ∧
      ∀ more, skip extended (cs ++ ')' :: more) = rest ++ ')' :: more) ∨
    (skip extended cs = [] ∧
      (∀ more, '\n' ∉ more → skip extended (cs ++ ')' :: more) = []) ∧
      ∀ more, skip extended (cs ++ ')' :: more) <:+ more) := by
  have hrest : ∀ {a : Unit} {rest rest' : List Char}, some ((), rest') = some (a, rest) →
      rest' = rest := fun h => congrArg Prod.snd (Option.some.inj h)
  cases (local_skip extended).stays cs with
  | apart hown hmore => exact .inl ⟨_, hrest hown, fun more => hrest (hmore more)⟩
  | swallowed hown hmore hspilled =>
    exact .inr ⟨hrest hown, fun more hline => hrest (hmore more hline),
      fun more => hspilled more () _ rfl⟩
  | unfinished hown => cases hown

/-- What blanks are skipped to decides nothing about them. -/
theorem dropBlank_eq_cons {comment : Bool} {c : Char} {cs rest : List Char}
    (h : dropBlank comment cs = c :: rest) :
    ∃ blanks, cs = blanks ++ c :: rest ∧ dropBlank comment blanks = [] ∧
      ∀ rest', dropBlank comment (blanks ++ c :: rest') = c :: rest' := by
  induction cs generalizing comment with
  | nil => cases comment <;> cases h
  | cons d cs ih =>
    have hblank : ∀ comment', (∀ tail, dropBlank comment (d :: tail) = dropBlank comment' tail) →
        ∃ blanks, d :: cs = blanks ++ c :: rest ∧ dropBlank comment blanks = [] ∧
          ∀ rest', dropBlank comment (blanks ++ c :: rest') = c :: rest' := by
      intro comment' hstep
      obtain ⟨blanks, rfl, hnil, hcons⟩ := ih ((hstep cs).symm.trans h)
      exact ⟨d :: blanks, rfl, (hstep blanks).trans hnil, fun rest' => (hstep _).trans (hcons rest')⟩
    cases comment with
    | true => exact hblank (d != '\n') fun _ => rfl
    | false =>
      by_cases hspace : Text.isBlank d = true
      · exact hblank false fun _ => if_pos hspace
      · by_cases hhash : d = '#'
        · exact hblank true fun _ => (if_neg hspace).trans (if_pos hhash)
        · have hkept := dropBlank_kept hspace hhash
          obtain ⟨rfl, rfl⟩ := List.cons.inj ((hkept cs).symm.trans h)
          exact ⟨[], rfl, rfl, hkept⟩

theorem skip_eq_cons {c : Char} {cs rest : List Char} (h : skip extended cs = c :: rest) :
    ∃ blanks, cs = blanks ++ c :: rest ∧ skip extended blanks = [] ∧
      ∀ rest', skip extended (blanks ++ c :: rest') = c :: rest' := by
  cases extended with
  | true => exact dropBlank_eq_cons h
  | false => exact ⟨[], h, rfl, fun _ => rfl⟩

/-- Blanks are skipped, and the reader goes on with no longer a text. -/
theorem Stays.next {α : Type} {g : List Char → Option (α × List Char)} {cs : List Char}
    (hleaves : ∀ {cs a rest}, g cs = some (a, rest) → rest <:+ cs)
    (ih : ∀ rest, rest.length ≤ cs.length → Stays g rest) :
    Stays (fun cs => g (skip extended cs)) cs :=
  ((local_skip extended).stays cs).bind (g := fun _ cs => g cs) hleaves fun _ rest hrest =>
    ih rest ((local_skip extended).leaves hrest).length_le

end Blanks

section Runs

variable {extended : Bool} {p : Char → Bool}

theorem takeSkipping_suffix (fuel : Nat) (cs : List Char) :
    (takeSkipping extended p fuel cs).2 <:+ cs := by
  induction fuel generalizing cs with
  | zero => exact List.suffix_rfl
  | succ fuel ih =>
    cases cs with
    | nil => exact List.suffix_rfl
    | cons c cs =>
      unfold takeSkipping
      split
      · exact (ih _).trans ((skip_suffix extended cs).trans (List.suffix_cons c cs))
      · exact List.suffix_rfl

theorem takeSkipping_cons (fuel : Nat) (c : Char) (cs : List Char) :
    takeSkipping extended p (fuel + 1) (c :: cs) =
      if p c then (c :: (takeSkipping extended p fuel (skip extended cs)).1,
        (takeSkipping extended p fuel (skip extended cs)).2)
      else ([], c :: cs) := rfl

/-- More rounds than characters make no difference. -/
theorem takeSkipping_enough {fuel fuel' : Nat} {cs : List Char} (h : cs.length ≤ fuel)
    (h' : cs.length ≤ fuel') : takeSkipping extended p fuel cs = takeSkipping extended p fuel' cs := by
  induction fuel generalizing cs fuel' with
  | zero =>
    cases List.length_eq_zero_iff.mp (Nat.le_zero.mp h)
    cases fuel' <;> rfl
  | succ fuel ih =>
    cases cs with
    | nil => cases fuel' <;> rfl
    | cons c cs =>
      cases fuel' with
      | zero => exact absurd h' (Nat.not_succ_le_zero _)
      | succ fuel' =>
        have hskip := (skip_suffix extended cs).length_le
        have h'' : (skip extended cs).length ≤ fuel' := Nat.le_trans hskip (Nat.le_of_succ_le_succ h')
        rw [takeSkipping_cons, takeSkipping_cons,
          ih (Nat.le_trans hskip (Nat.le_of_succ_le_succ h)) h'']

/-- As many rounds as it takes. -/
def takeAll (extended : Bool) (p : Char → Bool) (cs : List Char) : List Char × List Char :=
  takeSkipping extended p (cs.length + 1) cs

theorem takeAll_cons (c : Char) (cs : List Char) : takeAll extended p (c :: cs) =
    if p c then (c :: (takeAll extended p (skip extended cs)).1,
      (takeAll extended p (skip extended cs)).2)
    else ([], c :: cs) := by
  have hskip := (skip_suffix extended cs).length_le
  have henough : takeSkipping extended p (cs.length + 1) (skip extended cs) =
      takeAll extended p (skip extended cs) := takeSkipping_enough (by omega) (by omega)
  rw [takeAll, List.length_cons, takeSkipping_cons, henough]

theorem takeSkipping_leaves {fuel : Nat} {cs taken rest : List Char}
    (h : some (takeSkipping extended p fuel cs) = some (taken, rest)) : rest <:+ cs := by
  have hrest : (takeSkipping extended p fuel cs).2 = rest := congrArg Prod.snd (Option.some.inj h)
  exact hrest ▸ takeSkipping_suffix fuel cs

/-- Characters are taken alike whatever stands behind one that is not to be taken. -/
theorem local_takeSkipping (hp : p ')' = false) (fuel : Nat) :
    Local fun cs => some (takeSkipping extended p fuel cs) where
  leaves heq := takeSkipping_leaves heq
  stays cs := by
    induction fuel generalizing cs with
    | zero => exact (local_pure []).stays cs
    | succ fuel ih =>
      cases cs with
      | nil =>
        refine .apart rfl fun more => ?_
        rw [List.nil_append, takeSkipping_cons, hp]
        rfl
      | cons c cs =>
        by_cases hc : p c = true
        · have hnext : Stays (fun cs => some (takeSkipping extended p fuel (skip extended cs))) cs :=
            Stays.next (g := fun cs => some (takeSkipping extended p fuel cs)) takeSkipping_leaves
              fun rest _ => ih rest
          refine (hnext.map (c :: ·)).of_eq ?_ fun more => ?_
          · rw [takeSkipping_cons, if_pos hc]
            rfl
          · rw [List.cons_append, takeSkipping_cons, if_pos hc]
            rfl
        · refine .apart (congrArg some ((takeSkipping_cons fuel c cs).trans (if_neg hc)))
            fun more => ?_
          rw [List.cons_append, takeSkipping_cons, if_neg hc]

theorem takeAll_suffix (cs : List Char) : (takeAll extended p cs).2 <:+ cs :=
  takeSkipping_suffix _ cs

theorem takeAll_leaves {cs taken rest : List Char}
    (h : some (takeAll extended p cs) = some (taken, rest)) : rest <:+ cs := takeSkipping_leaves h

theorem local_takeAll (hp : p ')' = false) : Local fun cs => some (takeAll extended p cs) where
  leaves heq := takeAll_leaves heq
  stays cs := by
    induction hn : cs.length using Nat.strongRecOn generalizing cs with
    | ind n ih =>
      cases cs with
      | nil =>
        refine .apart rfl fun more => ?_
        rw [List.nil_append, takeAll_cons, hp]
        rfl
      | cons c cs =>
        by_cases hc : p c = true
        · have hnext : Stays (fun cs => some (takeAll extended p (skip extended cs))) cs :=
            Stays.next (g := fun cs => some (takeAll extended p cs)) takeAll_leaves fun rest hle =>
              ih rest.length (hn ▸ Nat.lt_succ_of_le hle) rest rfl
          refine (hnext.map (c :: ·)).of_eq ?_ fun more => ?_
          · rw [takeAll_cons, if_pos hc]
            rfl
          · rw [List.cons_append, takeAll_cons, if_pos hc]
            rfl
        · refine .apart (congrArg some ((takeAll_cons c cs).trans (if_neg hc))) fun more => ?_
          rw [List.cons_append, takeAll_cons, if_neg hc]

/-- What stands before the first closing brace, and what behind it. -/
def cutBrace? (extended : Bool) (cs : List Char) : Option (List Char × List Char) :=
  match takeAll extended (· != '\x7d') cs with
  | (taken, _ :: rest) => some (taken, rest)
  | _ => none

theorem cutBrace?_cons (c : Char) (cs : List Char) : cutBrace? extended (c :: cs) =
    if c = '\x7d' then some ([], cs)
    else (cutBrace? extended (skip extended cs)).map fun q => (c :: q.1, q.2) := by
  unfold cutBrace?
  by_cases hc : c = '\x7d'
  · rw [takeAll_cons, if_pos hc, hc]
    rfl
  · rw [takeAll_cons, if_neg hc, if_pos (bne_iff_ne.mpr hc)]
    cases takeAll extended (· != '\x7d') (skip extended cs) with
    | mk taken rest => cases rest <;> rfl

theorem cutBrace?_leaves {cs taken rest : List Char}
    (h : cutBrace? extended cs = some (taken, rest)) : rest <:+ cs := by
  have hsuffix : (takeAll extended (· != '\x7d') cs).2 <:+ cs := takeAll_suffix cs
  unfold cutBrace? at h
  split at h
  · next heq =>
    cases h
    rw [heq] at hsuffix
    exact (List.suffix_cons _ _).trans hsuffix
  · cases h

theorem local_cutBrace? : Local (cutBrace? extended) where
  leaves := cutBrace?_leaves
  stays cs := by
    induction hn : cs.length using Nat.strongRecOn generalizing cs with
    | ind n ih =>
      cases cs with
      | nil =>
        refine .unfinished rfl fun more taken rest h => ?_
        rw [List.nil_append, cutBrace?_cons, if_neg (by decide)] at h
        obtain ⟨q, hq, heq⟩ := Option.map_eq_some_iff.mp h
        cases heq
        exact (cutBrace?_leaves hq).trans (skip_suffix extended more)
      | cons c cs =>
        by_cases hc : c = '\x7d'
        · refine .apart ((cutBrace?_cons c cs).trans (if_pos hc)) fun more => ?_
          rw [List.cons_append, cutBrace?_cons, if_pos hc]
        · have hnext : Stays (fun cs => cutBrace? extended (skip extended cs)) cs :=
            Stays.next cutBrace?_leaves fun rest hle =>
              ih rest.length (hn ▸ Nat.lt_succ_of_le hle) rest rfl
          refine (hnext.map (c :: ·)).of_eq ?_ fun more => ?_
          · rw [cutBrace?_cons, if_neg hc]
          · rw [List.cons_append, cutBrace?_cons, if_neg hc]

theorem local_takeBraced? : Local (takeBraced? extended) :=
  ((local_skip extended).bind (g := fun _ cs => cutBrace? extended cs) fun _ => local_cutBrace?).congr
    fun _ => rfl

end Runs

end Pattern

end Conform
