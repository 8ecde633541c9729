import Conform.Proofs.QueryForm

/-!
# Keys with brackets

A key is cut at its first opening bracket, and what follows has to be brackets
to its end. A segment runs to the next closing bracket. What lies in between is
not looked at, and neither is what comes before the first opening bracket, so
keys are cut in which a bracket stands alone.
-/

namespace Conform

namespace Query

variable {cs read key name : List Char} {segments : List (List Char)}

/-- The key is a name and one or more segments in brackets, and no part of it has a bracket inside. -/
structure InGrammar (key name : List Char) (segments : List (List Char)) : Prop where
  written : key = keyOf (name :: segments)
  named : name ≠ []
  led : segments ≠ []
  plain : ∀ part ∈ name :: segments, '[' ∉ part ∧ ']' ∉ part

/-- The same, where a part only has to be free of the bracket that ends it. -/
structure Cuts (key name : List Char) (segments : List (List Char)) : Prop where
  written : key = keyOf (name :: segments)
  named : name ≠ []
  led : segments ≠ []
  opens : '[' ∉ name
  closes : ∀ segment ∈ segments, ']' ∉ segment

/-- No part has the other bracket inside either. -/
structure Unmixed (name : List Char) (segments : List (List Char)) : Prop where
  closes : ']' ∉ name
  opens : ∀ segment ∈ segments, '[' ∉ segment

/-- A key of the grammar is cut into its parts, and every other key is a name as it stands. -/
structure ReadByGrammar (key : List Char) : Prop where
  cut : ∀ name segments,
    (keyPath key = (name, segments) ∧ segments ≠ []) ↔ InGrammar key name segments
  literal : (∀ name segments, ¬ InGrammar key name segments) → keyPath key = (key, [])

theorem inGrammar_iff : InGrammar key name segments ↔
    Cuts key name segments ∧ Unmixed name segments := by
  constructor
  · rintro ⟨hwritten, hnamed, hled, hplain⟩
    obtain ⟨hname, hsegments⟩ := List.forall_mem_cons.mp hplain
    exact ⟨⟨hwritten, hnamed, hled, hname.1, fun s hs => (hsegments s hs).2⟩,
      ⟨hname.2, fun s hs => (hsegments s hs).1⟩⟩
  · rintro ⟨⟨hwritten, hnamed, hled, hopens, hcloses⟩, hunmixed⟩
    exact ⟨hwritten, hnamed, hled, List.forall_mem_cons.mpr
      ⟨⟨hopens, hunmixed.closes⟩, fun s hs => ⟨hunmixed.opens s hs, hcloses s hs⟩⟩⟩

mutual

/-- A run of brackets that is read is written by its segments. -/
theorem bracketed_of_segments? : ∀ (cs : List Char) {segments : List (List Char)},
    segments? cs = some segments →
      cs = bracketed segments ∧ ∀ segment ∈ segments, ']' ∉ segment
  | [], _, h => by
    cases h
    exact ⟨rfl, List.forall_mem_nil _⟩
  | c :: rest, segments, h => by
    rw [segments?] at h
    split at h
    · next hopen =>
      obtain ⟨first, more, rfl, hrest, hcloses⟩ := bracketed_of_inside? rest h
      refine ⟨?_, List.forall_mem_cons.mpr hcloses⟩
      rw [hopen, hrest]
      simp [bracketed]
    · cases h

/-- So is one that begins inside a bracket, of whose segment some characters were read before. -/
theorem bracketed_of_inside? : ∀ (cs : List Char) {read : List Char}
    {segments : List (List Char)}, inside? read cs = some segments →
      ∃ first more, segments = (read.reverse ++ first) :: more ∧
        cs = first ++ ']' :: bracketed more ∧ ']' ∉ first ∧ ∀ segment ∈ more, ']' ∉ segment
  | [], _, _, h => by cases h
  | c :: rest, read, segments, h => by
    rw [inside?] at h
    split at h
    · next hclose =>
      obtain ⟨more, hmore, rfl⟩ := Option.map_eq_some_iff.mp h
      obtain ⟨hrest, hcloses⟩ := bracketed_of_segments? rest hmore
      refine ⟨[], more, by rw [List.append_nil], ?_, List.not_mem_nil, hcloses⟩
      rw [hclose, hrest, List.nil_append]
    · next hother =>
      obtain ⟨first, more, rfl, hrest, hfirst, hmore⟩ := bracketed_of_inside? rest h
      refine ⟨c :: first, more, ?_, ?_, ?_, hmore⟩
      · rw [List.reverse_cons, List.append_assoc, List.singleton_append]
      · rw [hrest, List.cons_append]
      · exact List.not_mem_cons_of_ne_of_not_mem (Ne.symm hother) hfirst

end

/-- Runs of brackets are read exactly where no segment has a closing bracket inside. -/
theorem segments?_eq_some_iff : segments? cs = some segments ↔
    cs = bracketed segments ∧ ∀ segment ∈ segments, ']' ∉ segment := by
  constructor
  · exact bracketed_of_segments? cs
  · rintro ⟨rfl, h⟩
    exact segments?_bracketed h

/-- A key is cut into parts that spell it, or is a name as it stands. -/
theorem cuts_or_literal (key : List Char) :
    Cuts key (keyPath key).1 (keyPath key).2 ∨ keyPath key = (key, []) := by
  have hsplit := List.takeWhile_append_dropWhile (p := (· != '[')) (l := key)
  unfold keyPath
  dsimp only
  split
  · exact .inr rfl
  · exact .inr rfl
  · next segments hsegments hnamed =>
    obtain ⟨hrest, hcloses⟩ := segments?_eq_some_iff.mp hsegments
    rw [hrest] at hsplit
    cases segments with
    | nil => exact .inr (Prod.ext ((List.append_nil _).symm.trans hsplit) rfl)
    | cons segment more =>
      refine .inl ⟨hsplit.symm, hnamed, List.cons_ne_nil _ _, fun hmem => ?_, hcloses⟩
      exact absurd (List.all_eq_true.mp List.all_takeWhile _ hmem) (by decide)

theorem keyPath_eq_iff :
    (keyPath key = (name, segments) ∧ segments ≠ []) ↔ Cuts key name segments := by
  constructor
  · rintro ⟨hpath, hled⟩
    rcases cuts_or_literal key with hcuts | hliteral
    · rw [hpath] at hcuts
      exact hcuts
    · cases hliteral.symm.trans hpath
      exact absurd rfl hled
  · intro h
    rw [h.written]
    exact ⟨keyPath_keyOf h.named h.opens h.closes, h.led⟩

theorem keyPath_literal (h : ∀ name segments, ¬ Cuts key name segments) :
    keyPath key = (key, []) :=
  (cuts_or_literal key).resolve_left (h _ _)

/--
A key is cut exactly where its name is followed by brackets to its end, each segment up to the next
closing bracket, and is a name as it stands where it cannot be cut so. That is the grammar for the
keys, and only for those, whose parts have no other bracket inside either.
-/
theorem keys_read_by_grammar_iff (key : List Char) :
    (∀ name segments,
      (keyPath key = (name, segments) ∧ segments ≠ []) ↔ Cuts key name segments) ∧
    ((∀ name segments, ¬ Cuts key name segments) → keyPath key = (key, [])) ∧
    (ReadByGrammar key ↔ ∀ name segments, Cuts key name segments → Unmixed name segments) := by
  refine ⟨fun _ _ => keyPath_eq_iff, keyPath_literal, ?_, ?_⟩
  · intro h name segments hcuts
    have hgrammar := (h.cut name segments).mp (keyPath_eq_iff.mpr hcuts)
    exact (inGrammar_iff.mp hgrammar).2
  · intro h
    have hsame (name : List Char) (segments : List (List Char)) :
        Cuts key name segments ↔ InGrammar key name segments :=
      ⟨fun hcuts => inGrammar_iff.mpr ⟨hcuts, h name segments hcuts⟩,
        fun hgrammar => (inGrammar_iff.mp hgrammar).1⟩
    refine ⟨fun name segments => keyPath_eq_iff.trans (hsame name segments), fun hnone => ?_⟩
    exact keyPath_literal fun name segments hcuts => hnone name segments ((hsame _ _).mp hcuts)

/-- The second opening bracket stands inside a segment, and the key is cut all the same. -/
theorem nested_bracket_cut : keyPath "a[b[c]".toList = ("a".toList, ["b[c".toList]) ∧
    ¬ ReadByGrammar "a[b[c]".toList := by
  have hpath : keyPath "a[b[c]".toList = ("a".toList, ["b[c".toList]) := by decide
  refine ⟨hpath, fun h => ?_⟩
  have hgrammar := (h.cut _ _).mp ⟨hpath, List.cons_ne_nil _ _⟩
  exact absurd (hgrammar.plain "b[c".toList (by decide)).1 (by decide)

example : keyPath "a[b][]".toList = ("a".toList, ["b".toList, []]) := by decide

example : keyPath "d[e]f".toList = ("d[e]f".toList, []) := by decide

end Query

end Conform
