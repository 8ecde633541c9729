import Conform.Compilation
import Conform.Proofs.Courses
import Conform.Proofs.Searching

/-!
# Patterns as full-value matches

A pattern is put between the ends of the text as a piece of text. Where it stays
inside the group around it, the rule takes it as the language of the whole
value. A comment at its end takes the group's parenthesis in, and a parenthesis
of its own may close the group.
-/

namespace Conform

namespace Pattern

section Wrapping

variable {pattern : String} {e : Expr} {r : Reading}

/-- The expression that a pattern writes, however large it is. -/
def parse? (pattern : String) : Option Expr := ({} : Reading).parse? pattern.toList

/-- An expression is not nested too deeply, and its program is not too large. -/
def Expr.Fits (e : Expr) : Prop := e.nesting ≤ nestingLimit ∧ e.programSize ≤ sizeLimit

instance (e : Expr) : Decidable e.Fits := inferInstanceAs (Decidable (_ ∧ _))

theorem read?_eq_some_iff : read? pattern = some e ↔ parse? pattern = some e ∧ e.Fits := by
  have hread : read? pattern = (parse? pattern).bind fun e =>
      if e.nesting ≤ nestingLimit && e.programSize ≤ sizeLimit then some e else none := rfl
  have hfits : ∀ e : Expr, (e.nesting ≤ nestingLimit && e.programSize ≤ sizeLimit) = true ↔
      e.Fits := fun e => by
    simp [Expr.Fits]
  rw [hread, Option.bind_eq_some_iff]
  constructor
  · rintro ⟨a, ha, h⟩
    split at h
    · next hle =>
      cases h
      exact ⟨ha, (hfits e).mp hle⟩
    · cases h
  · rintro ⟨he, hle⟩
    exact ⟨e, he, if_pos ((hfits e).mpr hle)⟩

theorem nesting_whole (e : Expr) : e.whole.nesting = e.nesting + 2 := by
  simp [Expr.whole, Expr.nesting, Expr.nestingSeq]

theorem programSize_whole (e : Expr) : e.whole.programSize = e.programSize + 96 := by
  simp only [Expr.whole, Expr.programSize]
  omega

theorem Expr.Fits.of_whole (h : e.whole.Fits) : e.Fits := by
  rw [Expr.Fits, nesting_whole, programSize_whole] at h
  exact ⟨by omega, by omega⟩

/-- A pattern ends in a comment if a closing parenthesis behind it is part of it. -/
def EndsInComment (pattern : String) : Prop :=
  (parse? pattern).isSome ∧ (parse? (pattern ++ ")")).isSome

/-- What is open where a pattern begins that is read between the ends of the text. -/
def wrapper : Frame := ⟨{}, [], [.expr (.look .textStart)]⟩

theorem under_nil (r : Reading) : r.under [] = r := by
  obtain ⟨flags, alternatives, items, frames, names⟩ := r
  exact congrArg (Reading.mk flags alternatives items · names) (List.append_nil frames)

theorem skip_plain (c : Char) (cs : List Char) : skip false (c :: cs) = c :: cs := rfl

/-- Between the ends of the text a pattern is read inside a group. -/
theorem parse?_wrapped (pattern : String) : parse? ("^(?:" ++ pattern ++ ")$") =
    (({} : Reading).under [wrapper]).parse? (pattern.toList ++ ')' :: ['$']) := by
  have htext : ("^(?:" ++ pattern ++ ")$").toList =
      '^' :: '(' :: '?' :: ':' :: (pattern.toList ++ ')' :: ['$']) := by
    rw [String.toList_append, String.toList_append]
    rfl
  have hstart : step? {} '^' ('(' :: '?' :: ':' :: (pattern.toList ++ ')' :: ['$'])) =
      some (Reading.lineStart {}, '(' :: '?' :: ':' :: (pattern.toList ++ ')' :: ['$'])) := rfl
  have hgroup : step? (Reading.lineStart {}) '(' ('?' :: ':' :: (pattern.toList ++ ')' :: ['$'])) =
      some (({} : Reading).under [wrapper], pattern.toList ++ ')' :: ['$']) := rfl
  rw [parse?, htext, parse?_cons (skip_plain ..), hstart, Option.bind_some,
    parse?_cons (skip_plain ..), hgroup, Option.bind_some]

/-- The reading behind the group of a pattern. -/
def leaving (r : Reading) : Reading where
  items := [.expr (.group r.body), .expr (.look .textStart)]
  names := r.names

/-- Behind a pattern its group is left, and the end of the text is asked for. -/
theorem parse?_leaving (r : Reading) :
    (r.under [wrapper]).parse? (')' :: ['$']) = r.finish?.map Expr.whole := by
  by_cases hframes : r.frames = []
  · have hleave : step? (r.under [wrapper]) ')' ['$'] = some (leaving r, ['$']) := by
      obtain ⟨flags, alternatives, items, frames, names⟩ := r
      cases hframes
      rfl
    have hend : step? (leaving r) '$' [] = some ((leaving r).lineEnd, []) := rfl
    rw [parse?_cons (skip_paren _ _), hleave, Option.bind_some, parse?_cons (skip_plain ..), hend,
      Option.bind_some, parse?_nil (skip_nil _), Reading.finish?, Reading.finish?, hframes]
    rfl
  · rw [finish?_open hframes, parse?_cons (skip_paren _ _), step?_under fun _ => hframes]
    cases hstep : step? r ')' ['$'] with
    | none => rfl
    | some p =>
      have hleft : p.2 = ['$'] := by
        obtain ⟨left, -, heq⟩ := Option.map_eq_some_iff.mp hstep
        exact (congrArg Prod.snd heq).symm
      change (p.1.under [wrapper]).parse? p.2 = none
      rw [hleft]
      exact parse?_open (List.append_ne_nil_of_right_ne_nil _ (List.cons_ne_nil _ _)) (by decide)

/-- A closing parenthesis closes nothing where nothing is open. -/
theorem parse?_closing (h : r.frames = []) (more : List Char) : r.parse? (')' :: more) = none := by
  have hleave : r.leave? = none := by
    unfold Reading.leave?
    rw [h]
  have hstep : step? r ')' more = r.leave?.map (·, more) := rfl
  rw [parse?_cons (skip_paren _ _), hstep, hleave]
  rfl

theorem ReadsTo.parse?_added {cs : List Char} (h : ReadsTo {} cs r) (hframes : r.frames = [])
    (more : List Char) : ({} : Reading).parse? (cs ++ ')' :: more) = none := by
  have hadded := h.added [] more
  rw [under_nil, under_nil] at hadded
  exact hadded.trans (parse?_closing hframes more)

theorem parse?_ofList (cs : List Char) : parse? (String.ofList cs) = ({} : Reading).parse? cs :=
  congrArg _ String.toList_ofList

/-- A part that is read up to where nothing is open is a pattern without a comment at its end. -/
theorem ReadsTo.valid {cs : List Char} (h : ReadsTo {} cs r) (hframes : r.frames = []) :
    parse? (String.ofList cs) = some r.body ∧ ¬ EndsInComment (String.ofList cs) := by
  have htext : (String.ofList cs ++ ")").toList = cs ++ [')'] := by
    rw [String.toList_append, String.toList_ofList]
    rfl
  constructor
  · rw [parse?_ofList, h.own, Reading.finish?, hframes]
    rfl
  · rintro ⟨-, hparen⟩
    rw [parse?, htext, h.parse?_added hframes] at hparen
    cases hparen

/-- What is read with a comment at its end that takes a closing parenthesis in. -/
theorem endsInComment_of_swallowed (hown : parse? pattern = r.finish?)
    (hadded : ∀ outer more, '\n' ∉ more →
      (Reading.under {} outer).parse? (pattern.toList ++ ')' :: more) = (r.under outer).finish?)
    (h : (parse? pattern).isSome) : EndsInComment pattern := by
  have hparen := hadded [] [] (by decide)
  rw [under_nil, under_nil, ← hown] at hparen
  refine ⟨h, ?_⟩
  rw [parse?, String.toList_append]
  exact (congrArg Option.isSome hparen).trans h

/-- A pattern without a comment at its end is read up to its end, where nothing is open. -/
theorem exists_readsTo (h : (parse? pattern).isSome) (hcomment : ¬ EndsInComment pattern) :
    ∃ r, ReadsTo {} pattern.toList r ∧ r.frames = [] := by
  cases course {} pattern.toList with
  | @apart r hread =>
    refine ⟨r, hread, Decidable.byContradiction fun hframes => ?_⟩
    rw [parse?, hread.own, finish?_open hframes] at h
    cases h
  | swallowed hown hadded => exact absurd (endsInComment_of_swallowed hown hadded h) hcomment
  | broken hown =>
    rw [parse?, hown] at h
    cases h
  | closes heq hread hframes =>
    rw [parse?, heq, hread.parse?_added hframes] at h
    cases h

/--
A pattern between the ends of the text is read as a group around the pattern, or not at all: if it is
no pattern by itself, or ends in a comment. It may be read as anything else only where a part at its
beginning is a pattern and a closing parenthesis follows that part.
-/
theorem wrapped_cases (pattern : String) :
    (∃ e, parse? pattern = some e ∧ ¬ EndsInComment pattern ∧
      parse? ("^(?:" ++ pattern ++ ")$") = some e.whole) ∨
    (EndsInComment pattern ∧ parse? ("^(?:" ++ pattern ++ ")$") = none) ∨
    (parse? pattern = none ∧ parse? ("^(?:" ++ pattern ++ ")$") = none) ∨
    (parse? pattern = none ∧ ∃ front back, pattern = front ++ ")" ++ back ∧
      (parse? front).isSome ∧ ¬ EndsInComment front) := by
  have htext : String.ofList pattern.toList = pattern := String.ofList_toList
  rw [parse?_wrapped]
  cases course {} pattern.toList with
  | @apart r hread =>
    rw [hread.added, parse?_leaving]
    by_cases hframes : r.frames = []
    · obtain ⟨hparse, hcomment⟩ := hread.valid hframes
      rw [htext] at hparse hcomment
      refine .inl ⟨r.body, hparse, hcomment, ?_⟩
      rw [Reading.finish?, hframes]
      rfl
    · refine .inr (.inr (.inl ⟨hread.own.trans (finish?_open hframes), ?_⟩))
      rw [finish?_open hframes]
      rfl
  | @swallowed r hown hadded =>
    have hnone : (r.under [wrapper]).finish? = none :=
      finish?_open (List.append_ne_nil_of_right_ne_nil _ (List.cons_ne_nil _ _))
    rw [hadded [wrapper] ['$'] (by decide), hnone]
    cases hfinish : r.finish? with
    | none => exact .inr (.inr (.inl ⟨hown.trans hfinish, rfl⟩))
    | some e =>
      refine .inr (.inl ⟨endsInComment_of_swallowed hown hadded ?_, rfl⟩)
      rw [parse?, hown, hfinish]
      rfl
  | broken hown hadded =>
    have hnone := hadded [wrapper] ['$'] (List.cons_ne_nil _ _) (by decide) (by decide)
    exact .inr (.inr (.inl ⟨hown, hnone⟩))
  | @closes front back r heq hread hframes =>
    refine .inr (.inr (.inr ⟨?_, String.ofList front, String.ofList back, ?_, ?_, ?_⟩))
    · rw [parse?, heq]
      exact hread.parse?_added hframes back
    · rw [← htext, heq, String.ofList_append, String.ofList_cons, String.append_assoc]
      rfl
    · rw [(hread.valid hframes).1]
      rfl
    · exact (hread.valid hframes).2

/--
A pattern breaks out of its group if a pattern at its beginning is followed by a closing parenthesis,
and it is read between the ends of the text all the same.
-/
def BreaksOut (pattern : String) : Prop :=
  (readWhole? pattern).isSome ∧ ∃ front back, pattern = front ++ ")" ++ back ∧
    (parse? front).isSome ∧ ¬ EndsInComment front

theorem readWhole?_eq_some_iff :
    readWhole? pattern = some e ↔ parse? ("^(?:" ++ pattern ++ ")$") = some e ∧ e.Fits :=
  read?_eq_some_iff

/-- A pattern with a closing parenthesis and more behind it is none. -/
theorem parse?_closed {front : String} (h : (parse? front).isSome) (hcomment : ¬ EndsInComment front)
    (back : String) : parse? (front ++ ")" ++ back) = none := by
  have htext : (front ++ ")" ++ back).toList = front.toList ++ ')' :: back.toList := by
    rw [String.toList_append, String.toList_append, List.append_assoc]
    rfl
  obtain ⟨r, hread, hframes⟩ := exists_readsTo h hcomment
  rw [parse?, htext]
  exact hread.parse?_added hframes _

/-- A pattern that is read between the ends of the text stands there as a group. -/
theorem readWhole?_of_valid {e' : Expr} (hread : read? pattern = some e)
    (hwhole : readWhole? pattern = some e') :
    ¬ EndsInComment pattern ∧ e' = e.whole ∧ e.whole.Fits := by
  obtain ⟨hparse, -⟩ := read?_eq_some_iff.mp hread
  obtain ⟨hwrapped, hfits⟩ := readWhole?_eq_some_iff.mp hwhole
  obtain ⟨a, ha, hcomment, hgroup⟩ | ⟨-, hnone⟩ | ⟨hnone, -⟩ | ⟨hnone, -⟩ := wrapped_cases pattern
  · cases ha.symm.trans hparse
    cases hgroup.symm.trans hwrapped
    exact ⟨hcomment, rfl, hfits⟩
  · cases hnone.symm.trans hwrapped
  · cases hnone.symm.trans hparse
  · cases hnone.symm.trans hparse

theorem readWhole?_whole (hread : read? pattern = some e) (hcomment : ¬ EndsInComment pattern)
    (hfits : e.whole.Fits) : readWhole? pattern = some e.whole := by
  obtain ⟨hparse, -⟩ := read?_eq_some_iff.mp hread
  refine readWhole?_eq_some_iff.mpr ⟨?_, hfits⟩
  obtain ⟨a, ha, -, hgroup⟩ | ⟨hends, -⟩ | ⟨hnone, -⟩ | ⟨hnone, -⟩ := wrapped_cases pattern
  · cases ha.symm.trans hparse
    exact hgroup
  · exact absurd hends hcomment
  · cases hnone.symm.trans hparse
  · cases hnone.symm.trans hparse

/-- What is no pattern by itself is read between the ends of the text only if it breaks out. -/
theorem breaksOut_of_invalid (hread : read? pattern = none) (hwhole : (readWhole? pattern).isSome) :
    BreaksOut pattern := by
  obtain ⟨e, he⟩ := Option.isSome_iff_exists.mp hwhole
  obtain ⟨hwrapped, hfits⟩ := readWhole?_eq_some_iff.mp he
  obtain ⟨a, ha, -, hgroup⟩ | ⟨-, hnone⟩ | ⟨-, hnone⟩ | ⟨-, front, back, rfl, hfront⟩ :=
    wrapped_cases pattern
  · cases hgroup.symm.trans hwrapped
    cases hread.symm.trans (read?_eq_some_iff.mpr ⟨ha, hfits.of_whole⟩)
  · cases hnone.symm.trans hwrapped
  · cases hnone.symm.trans hwrapped
  · exact ⟨hwhole, front, back, rfl, hfront⟩

end Wrapping

end Pattern

namespace StringRule

variable {r : StringRule} {text : String}

/-- A text passes the check of a rule's pattern. -/
def Matched (r : StringRule) (text : String) : Prop :=
  ∀ path v, ∀ issue ∈ r.broken path v text, issue.code ≠ .patternMismatch

/-- A text passes if the expression of the pattern is found in it. -/
theorem matched_iff {source : String} {e : Pattern.Expr} (h : r.pattern = some (source, e)) :
    r.Matched text ↔ e.isIn text = true := by
  constructor
  · intro hmatched
    refine Decidable.byContradiction fun hnot => ?_
    have hissue : Issue.broken ⟨[]⟩ .patternMismatch ("match of " ++ source) .null
        ("must match pattern " ++ source) ∈ r.broken ⟨[]⟩ .null text := by
      refine List.mem_append_right _ ?_
      rw [h]
      dsimp only
      rw [if_neg hnot]
      exact List.mem_singleton_self _
    exact hmatched _ _ _ hissue rfl
  · intro hfound path v issue hissue
    rw [broken, List.mem_append, List.mem_append] at hissue
    obtain (hshort | hlong) | hunmatched := hissue
    · split at hshort
      · split at hshort
        · cases List.mem_singleton.mp hshort
          nofun
        · cases hshort
      · cases hshort
    · split at hlong
      · split at hlong
        · cases List.mem_singleton.mp hlong
          nofun
        · cases hlong
      · cases hlong
    · rw [h] at hunmatched
      dsimp only at hunmatched
      rw [if_pos hfound] at hunmatched
      cases hunmatched

end StringRule

namespace Primitive

open Pattern

variable {p : Primitive} {source : String}

/-- A rule is built from a pattern if that is an expression, and the texts that pass are its language. -/
def TakesWhole (p : Primitive) (source : String) : Prop :=
  ∀ location,
    (∀ e, read? source = some e → ∃ r : StringRule, p.rule location = .ok (.string r) ∧
      ∀ text, r.Matched text ↔ e.Matches [] text.toList text.toList.reverse []) ∧
    (read? source = none → p.rule location = .error (.invalidPattern source location))

theorem rule_of_readWhole? {e : Expr} (location : String) (hkind : p.kind = .string)
    (hpattern : p.constraints.pattern = some source) (h : readWhole? source = some e) :
    ∃ r : StringRule, p.rule location = .ok (.string r) ∧ r.pattern = some (source, e) := by
  refine ⟨⟨p.format, p.constraints.minLength, p.constraints.maxLength, some (source, e)⟩, ?_, rfl⟩
  unfold rule
  dsimp only
  rw [hkind, hpattern]
  dsimp only
  rw [h]

theorem rule_of_readWhole?_none {location : String} (hkind : p.kind = .string)
    (hpattern : p.constraints.pattern = some source) (h : readWhole? source = none) :
    p.rule location = .error (.invalidPattern source location) := by
  unfold rule
  dsimp only
  rw [hkind, hpattern]
  dsimp only
  rw [h]

/--
A pattern is taken as a full-value match, and turned down if it is no expression, exactly where its
text stays inside the group that it is put into: it may not end in a comment, it may not be as large
as an expression can be, and it may not break out of the group.
-/
theorem takes_whole_iff (hkind : p.kind = .string) (hpattern : p.constraints.pattern = some source) :
    p.TakesWhole source ↔
      (∀ e, read? source = some e → ¬ EndsInComment source ∧ e.whole.Fits) ∧ ¬ BreaksOut source := by
  constructor
  · intro h
    refine ⟨fun e he => ?_, ?_⟩
    · obtain ⟨r, hrule, -⟩ := (h "").1 e he
      cases hwhole : readWhole? source with
      | none => cases (rule_of_readWhole?_none hkind hpattern hwhole).symm.trans hrule
      | some e' =>
        obtain ⟨hcomment, -, hfits⟩ := readWhole?_of_valid he hwhole
        exact ⟨hcomment, hfits⟩
    · rintro ⟨hwhole, front, back, rfl, hfront, hcomment⟩
      obtain ⟨e, he⟩ := Option.isSome_iff_exists.mp hwhole
      obtain ⟨r, hrule, -⟩ := rule_of_readWhole? "" hkind hpattern he
      have hnone : read? (front ++ ")" ++ back) = none := Option.eq_none_iff_forall_not_mem.mpr
        fun a ha => by
          cases (parse?_closed hfront hcomment back).symm.trans (read?_eq_some_iff.mp ha).1
      cases ((h "").2 hnone).symm.trans hrule
  · rintro ⟨hvalid, hbreaks⟩ location
    refine ⟨fun e he => ?_, fun hnone => ?_⟩
    · obtain ⟨hcomment, hfits⟩ := hvalid e he
      obtain ⟨r, hrule, hrulePattern⟩ := rule_of_readWhole? location hkind hpattern
        (readWhole?_whole he hcomment hfits)
      exact ⟨r, hrule, fun text => (StringRule.matched_iff hrulePattern).trans Expr.whole_isIn_iff⟩
    · cases hwhole : readWhole? source with
      | none => exact rule_of_readWhole?_none hkind hpattern hwhole
      | some e =>
        exact absurd (breaksOut_of_invalid hnone (by rw [hwhole]; rfl)) hbreaks

section Example

/-- Texts that a pattern describes. -/
def matching (source : String) : Primitive := ⟨.string, none, { pattern := some source }⟩

/-- Ten digits are taken as the pattern of a full value. -/
theorem ten_digits_taken_whole : (matching "[0-9]{10}").kind = .string ∧
    (matching "[0-9]{10}").constraints.pattern = some "[0-9]{10}" ∧
    (matching "[0-9]{10}").TakesWhole "[0-9]{10}" := by
  refine ⟨rfl, rfl, (takes_whole_iff rfl rfl).mpr ⟨fun e he => ⟨?_, ?_⟩, ?_⟩⟩
  · rintro ⟨-, hcomment⟩
    exact absurd hcomment (by decide +kernel)
  · have hfits : ∀ e ∈ read? "[0-9]{10}", e.whole.Fits := by decide +kernel
    exact hfits e he
  · rintro ⟨-, front, back, heq, -⟩
    have hparen : ')' ∈ (front ++ ")" ++ back).toList := by
      rw [String.toList_append, String.toList_append]
      exact List.mem_append_left _ (List.mem_append_right _ (by decide))
    rw [← heq] at hparen
    exact absurd hparen (by decide)

/--
A pattern that closes the group around it is none by itself and yet accepted, and lets a text pass
that goes on behind a match. A pattern that ends in a comment is one by itself and yet turned down.
-/
theorem spliced_patterns_mistaken :
    (read? "a)|(?:b" = none ∧
      ∃ r, (matching "a)|(?:b").rule "" = .ok (.string r) ∧ r.Matched "axx") ∧
    (∃ e, read? "(?x)a#b" = some e ∧ e.Matches [] ['a'] ['a'] []) ∧
      (matching "(?x)a#b").rule "" = .error (.invalidPattern "(?x)a#b" "") := by
  refine ⟨⟨by decide +kernel, ?_⟩, ?_, ?_⟩
  · have hwhole : ∃ e ∈ readWhole? "a)|(?:b", e.isIn "axx" = true := by decide +kernel
    obtain ⟨e, he, hfound⟩ := hwhole
    obtain ⟨r, hrule, hpattern⟩ := rule_of_readWhole? (p := matching "a)|(?:b") "" rfl rfl he
    exact ⟨r, hrule, (StringRule.matched_iff hpattern).mpr hfound⟩
  · exact ⟨.seq .empty (.char (.single 'a')), by decide +kernel,
      .seq (.empty _ _) (.char (by decide))⟩
  · exact rule_of_readWhole?_none rfl rfl (by decide +kernel)

end Example

end Primitive

end Conform
