import Conform.Proofs.Bracketing
import Conform.Proofs.Spelling
import Mathlib.Data.List.Perm.Subperm

/-!
# Texts gathered from a query

The way of a key leads through objects to the place where its text ends. A text
that ends where something is held joins it in a list. A way that leads on through
a place where an earlier text ended puts an object there instead, and what was
held is lost. Whether that happens is seen from the keys alone.
-/

namespace Conform

namespace Json

mutual

/-- The texts among the leaves of a value. -/
def texts : Json → List String
  | .str text => [text]
  | .arr items => textsOfItems items
  | .obj fields => textsOfFields fields
  | _ => []

def textsOfItems : List Json → List String
  | [] => []
  | v :: rest => v.texts ++ textsOfItems rest

def textsOfFields : List (String × Json) → List String
  | [] => []
  | (_, v) :: rest => v.texts ++ textsOfFields rest

end

/-- The texts of what a key holds, which may be nothing. -/
def textsHeld : Option Json → List String
  | none => []
  | some v => v.texts

theorem textsOfItems_append (items more : List Json) :
    textsOfItems (items ++ more) = textsOfItems items ++ textsOfItems more := by
  induction items with
  | nil => rfl
  | cons v rest ih => rw [List.cons_append, textsOfItems, textsOfItems, ih, List.append_assoc]

variable {fields : List (String × Json)}

/-- The texts of an object are those under a key and those under the others. -/
theorem textsOfFields_perm (h : (Table.keys fields).Nodup) (key : String) :
    (textsOfFields fields).Perm
      (textsHeld (Table.get? key fields) ++ textsOfFields (Table.erase key fields)) := by
  induction fields with
  | nil => exact List.Perm.refl _
  | cons entry rest ih =>
    obtain ⟨other, v⟩ := entry
    obtain ⟨hfresh, hrest⟩ := List.nodup_cons.mp h
    rw [Table.get?_cons, Table.erase, textsOfFields]
    split
    · next heq =>
      subst heq
      rw [Table.erase_of_none (Table.get?_eq_none_iff.mpr hfresh)]
      exact List.Perm.refl _
    · rw [textsOfFields]
      exact ((ih hrest).append_left _).trans (List.perm_append_comm_assoc _ _ _)

/-- The same once a value is written under the key. -/
theorem textsOfFields_insert (h : Table.Ordered fields) (key : String) (v : Json) :
    (textsOfFields (Table.insert key v fields)).Perm
      (v.texts ++ textsOfFields (Table.erase key fields)) := by
  have hperm := textsOfFields_perm (h.insert key v).nodup key
  have herase : Table.erase key (Table.insert key v fields) = Table.erase key fields :=
    ((h.insert key v).erase key).ext (h.erase key) fun other => by
      by_cases hother : other = key
      · rw [hother, Table.get?_erase_self, Table.get?_erase_self]
      · rw [Table.get?_erase_of_ne hother, Table.get?_erase_of_ne hother,
          Table.get?_insert_of_ne hother]
  rwa [Table.get?_insert_self, herase] at hperm

end Json

namespace Query

open Json

/-- The names that a way leads through, up to its end or to empty brackets. -/
def place (route : List (List Char)) : List (List Char) := route.takeWhile (· ≠ [])

/-- A way leads on through the place where another ends. -/
def Passes (route other : List (List Char)) : Prop :=
  place other <+: place route ∧ place other ≠ place route

/-- On its way, a route meets something that is held and no object. -/
def Meets : Option Json → List (List Char) → Prop
  | _, [] => False
  | _, [] :: _ => False
  | held, (c :: name) :: segments => (∃ v ∈ held, v.fields? = none) ∨
      Meets (Table.get? (String.ofList (c :: name)) (nested held)) segments

/-- A way is at its end, or at empty brackets, behind which nothing counts, or at a name. -/
@[elab_as_elim]
theorem route_induction {motive : List (List Char) → Prop} (ended : motive [])
    (listed : ∀ more, motive ([] :: more))
    (led : ∀ c name segments, motive segments → motive ((c :: name) :: segments))
    (route : List (List Char)) : motive route := by
  induction route with
  | nil => exact ended
  | cons name segments ih =>
    cases name with
    | nil => exact listed segments
    | cons c name => exact led c name segments ih

/-- What texts make up: a text, a list that one of them ended, or an object in order of such. -/
inductive Gathered : Json → Prop
  | text (text : String) : Gathered (.str text)
  | list (items : List Json) (text : String) : Gathered (.arr (items ++ [.str text]))
  | object {fields : List (String × Json)} : Table.Ordered fields →
      (∀ entry ∈ fields, Gathered entry.2) → Gathered (.obj fields)

section Slots

variable {held : Option Json} {r : Routed} {text : String}

theorem gather_gathered (text : String) (held : Option Json) : Gathered (gather text held) := by
  unfold gather
  split
  · exact .text text
  · exact .list _ text
  · exact .list [_] text

theorem texts_gather (text : String) (held : Option Json) :
    (gather text held).texts.Perm (text :: textsHeld held) := by
  unfold gather
  split
  · exact List.Perm.refl _
  · rw [texts, textsOfItems_append]
    exact List.perm_append_singleton _ _
  · exact List.perm_append_singleton _ _

theorem texts_gatherList (text : String) (held : Option Json) :
    (gatherList text held).texts.Perm (text :: textsHeld held) := by
  refine (texts_gather text _).trans ?_
  cases held <;> exact List.Perm.refl _

theorem slot_named (name : List Char) (segments : List (List Char)) (text : String)
    (held : Option Json) (hname : name ≠ []) : slot held (name :: segments, text) =
      .obj (Table.insert (String.ofList name)
        (slot (Table.get? (String.ofList name) (nested held)) (segments, text)) (nested held)) := by
  rw [← put_cons]
  cases name with
  | nil => exact absurd rfl hname
  | cons c name => rfl

/-- What is held stays such as texts make up. -/
theorem slot_gathered (text : String) (route : List (List Char))
    (h : ∀ v ∈ held, Gathered v) : Gathered (slot held (route, text)) := by
  induction route using route_induction generalizing held with
  | ended => exact gather_gathered text held
  | listed => exact gather_gathered text _
  | led c name segments ih =>
    have hnested : Table.Ordered (nested held) ∧ ∀ entry ∈ nested held, Gathered entry.2 := by
      cases held with
      | none => exact ⟨List.Pairwise.nil, nofun⟩
      | some v =>
        cases h v rfl with
        | text => exact ⟨List.Pairwise.nil, nofun⟩
        | list => exact ⟨List.Pairwise.nil, nofun⟩
        | object hordered hvalues => exact ⟨hordered, hvalues⟩
    rw [slot_named _ _ _ _ (List.cons_ne_nil c name)]
    refine .object (hnested.1.insert _ _) fun entry hentry => ?_
    rcases Table.mem_insert hentry with rfl | hentry
    · exact ih fun v hv => hnested.2 _ (Table.mem_of_get? hv)
    · exact hnested.2 entry hentry

theorem not_meets_none (route : List (List Char)) : ¬ Meets none route := by
  induction route using route_induction with
  | ended => exact id
  | listed => exact id
  | led c name segments ih =>
    rintro (⟨v, hv, -⟩ | hmeets)
    · cases hv
    · exact ih hmeets

/-- Where nothing is held, a text stands alone, however it is led to. -/
theorem texts_slot_none (text : String) (route : List (List Char)) :
    (slot none (route, text)).texts.Perm [text] := by
  induction route using route_induction with
  | ended => exact List.Perm.refl _
  | listed => exact List.Perm.refl _
  | led c name segments ih =>
    rw [slot_named _ _ _ _ (List.cons_ne_nil c name), texts]
    exact (@textsOfFields_insert [] List.Pairwise.nil _ _).trans (ih.append_right _)

/--
A text joins those that are kept. Some are lost exactly where its way meets something that is held
and no object.
-/
theorem texts_slot (text : String) (route : List (List Char)) (h : ∀ v ∈ held, Gathered v) :
    ∃ lost kept, (textsHeld held).Perm (lost ++ kept) ∧
      (slot held (route, text)).texts.Perm (text :: kept) ∧ (lost ≠ [] ↔ Meets held route) := by
  induction route using route_induction generalizing held with
  | ended => exact ⟨[], _, List.Perm.refl _, texts_gather text held, by simp [Meets]⟩
  | listed => exact ⟨[], _, List.Perm.refl _, texts_gatherList text held, by simp [Meets]⟩
  | led c name segments ih =>
    -- A way that is led through no object goes on as if nothing were held.
    have halone := texts_slot_none text ((c :: name) :: segments)
    rw [Meets]
    cases held with
    | none => exact ⟨[], [], List.Perm.refl _, halone, by simp [nested, not_meets_none]⟩
    | some v =>
      cases h v rfl with
      | text other => exact ⟨[other], [], List.Perm.refl _, halone, by simp [fields?]⟩
      | list items other =>
        refine ⟨textsHeld (some (.arr (items ++ [.str other]))), [], ?_, halone, ?_⟩
        · rw [List.append_nil]
        · simp [fields?, textsHeld, texts, textsOfItems_append, textsOfItems]
      | @object fields hordered hvalues =>
        obtain ⟨lost, kept, hheld, htexts, hmeets⟩ :=
          @ih (Table.get? (String.ofList (c :: name)) fields)
            fun v hv => hvalues _ (Table.mem_of_get? hv)
        refine ⟨lost, kept ++ textsOfFields (Table.erase (String.ofList (c :: name)) fields),
          ?_, ?_, hmeets.trans ?_⟩
        · rw [← List.append_assoc]
          exact (textsOfFields_perm hordered.nodup _).trans (hheld.append_right _)
        · rw [slot_named _ _ _ _ (List.cons_ne_nil c name), texts]
          exact (textsOfFields_insert hordered _ _).trans (htexts.append_right _)
        · simp [nested, fields?]

theorem place_cons {name : List Char} (hname : name ≠ []) (segments : List (List Char)) :
    place (name :: segments) = name :: place segments :=
  List.takeWhile_cons_of_pos (decide_eq_true hname)

theorem passes_cons_iff {name other : List Char} {segments route : List (List Char)}
    (hname : name ≠ []) (hother : other ≠ []) :
    Passes (name :: segments) (other :: route) ↔ other = name ∧ Passes segments route := by
  rw [Passes, Passes, place_cons hname, place_cons hother, List.cons_prefix_cons]
  constructor
  · rintro ⟨⟨rfl, hleads⟩, hne⟩
    exact ⟨rfl, hleads, fun heq => hne (congrArg _ heq)⟩
  · rintro ⟨rfl, hleads, hne⟩
    exact ⟨⟨rfl, hleads⟩, fun heq => hne (List.cons_inj_right _ |>.mp heq)⟩

/-- All ways that lead on pass a place where none leads on. -/
theorem passes_of_place_nil {route other : List (List Char)} (h : place route = []) :
    Passes other route ↔ place other ≠ [] := by
  rw [Passes, h, ne_comm]
  exact and_iff_right List.nil_prefix

theorem not_passes_of_place_nil {route other : List (List Char)} (h : place other = []) :
    ¬ Passes other route := by
  rintro ⟨hleads, hne⟩
  rw [h] at hleads hne
  exact hne (List.prefix_nil.mp hleads)

theorem meets_gather_iff (text : String) (held : Option Json) (route : List (List Char)) :
    Meets (some (gather text held)) route ↔ place route ≠ [] := by
  have hfields : (gather text held).fields? = none := by
    unfold gather
    split <;> rfl
  cases route using route_induction with
  | ended => simp [Meets, place]
  | listed => simp [Meets, place]
  | led => simp [Meets, place, hfields]

theorem Meets.place_ne_nil {route : List (List Char)} (h : Meets held route) : place route ≠ [] := by
  cases route using route_induction with
  | ended => cases h
  | listed => cases h
  | led => simp [place]

/-- Where a text ends, ways are met that lead on, among them all that met something before. -/
theorem meets_end_iff {route : List (List Char)} (text : String) (added : Option Json)
    (other : List (List Char)) (hplace : place route = []) :
    Meets (some (gather text added)) other ↔ Meets held other ∨ Passes other route := by
  rw [meets_gather_iff, passes_of_place_nil hplace]
  exact ⟨Or.inr, fun h => h.elim Meets.place_ne_nil id⟩

/--
What a text leaves on its way, if it met nothing there, is met by the ways that met something before
and by those that pass the place where it ends.
-/
theorem meets_slot_iff {route : List (List Char)} (text : String) (other : List (List Char))
    (hmeets : ¬ Meets held route) :
    Meets (some (slot held (route, text))) other ↔ Meets held other ∨ Passes other route := by
  induction route using route_induction generalizing held other with
  | ended => exact meets_end_iff text held other rfl
  | listed => exact meets_end_iff text _ other rfl
  | led c name segments ih =>
    obtain ⟨hopen, hfree⟩ := not_or.mp hmeets
    rw [slot_named _ _ _ _ (List.cons_ne_nil c name)]
    cases other using route_induction with
    | ended => exact ⟨nofun, fun h => h.elim id (not_passes_of_place_nil rfl)⟩
    | listed => exact ⟨nofun, fun h => h.elim id (not_passes_of_place_nil rfl)⟩
    | led d first more =>
      rw [passes_cons_iff (List.cons_ne_nil d first) (List.cons_ne_nil c name), Meets, Meets,
        or_iff_right (by simp [fields?]), or_iff_right hopen]
      change Meets (Table.get? _ (Table.insert _ _ (nested held))) more ↔ _
      rw [Table.get?_insert]
      by_cases hsame : c :: name = d :: first
      · rw [← hsame, if_pos rfl, ih more hfree, and_iff_right rfl]
      · have hkey : String.ofList (d :: first) ≠ String.ofList (c :: name) := fun heq =>
          hsame (String.ofList_injective heq).symm
        rw [if_neg hkey]
        exact ⟨Or.inl, fun h => h.elim id fun hpasses => absurd hpasses.1 hsame⟩

end Slots

section Runs

variable {given : List Routed}

/-- No text ends where the way of a later one leads on. -/
def KeepsClear (given : List Routed) : Prop :=
  given.Pairwise fun earlier later => ¬ Passes later.1 earlier.1

/-- What is known of what texts make up when they come after one another to nothing but an object. -/
structure Run (given : List Routed) (v : Json) : Prop where
  gathered : Gathered v
  within : v.texts.Subperm (given.map Prod.snd)
  kept : v.texts.Perm (given.map Prod.snd) ↔ KeepsClear given
  meets : KeepsClear given → ∀ route, Meets (some v) route ↔ ∃ r ∈ given, Passes route r.1

theorem keepsClear_append_iff {r : Routed} : KeepsClear (given ++ [r]) ↔
    KeepsClear given ∧ ¬ ∃ earlier ∈ given, Passes r.1 earlier.1 := by
  simp [KeepsClear, List.pairwise_append]

theorem Run.nil : Run [] (.obj []) where
  gathered := .object List.Pairwise.nil nofun
  within := List.Subperm.refl _
  kept := ⟨fun _ => List.Pairwise.nil, fun _ => List.Perm.refl _⟩
  meets _ route := by
    cases route using route_induction with
    | ended => simp [Meets]
    | listed => simp [Meets]
    | led => simp [Meets, fields?, nested, not_meets_none]

/-- A text that comes next leaves all in place exactly where its way passes the end of none. -/
theorem Run.kept_iff {v : Json} {lost kept : List String} {route : List (List Char)}
    (h : Run given v) (hsplit : v.texts.Perm (lost ++ kept))
    (hlost : lost ≠ [] ↔ Meets (some v) route) : kept.Perm (given.map Prod.snd) ↔
      KeepsClear given ∧ ¬ ∃ earlier ∈ given, Passes route earlier.1 := by
  constructor
  · intro hperm
    -- As many are kept as came, so none were lost.
    have hcount := h.within.length_le
    rw [hsplit.length_eq, List.length_append, ← hperm.length_eq] at hcount
    obtain rfl : lost = [] := List.length_eq_zero_iff.mp (by omega)
    have hclear := h.kept.mp (hsplit.trans hperm)
    refine ⟨hclear, fun hpasses => hlost.mpr ?_ rfl⟩
    exact (h.meets hclear route).mpr hpasses
  · rintro ⟨hclear, hpasses⟩
    have hnone : lost = [] := by
      by_contra hsome
      exact hpasses ((h.meets hclear route).mp (hlost.mp hsome))
    rw [hnone, List.nil_append] at hsplit
    exact hsplit.symm.trans (h.kept.mpr hclear)

theorem Run.append {v : Json} (h : Run given v) (r : Routed) :
    Run (given ++ [r]) (slot (some v) r) := by
  obtain ⟨route, text⟩ := r
  have hheld : ∀ w ∈ some v, Gathered w := by
    rintro w ⟨⟩
    exact h.gathered
  obtain ⟨lost, kept, hsplit, htexts, hlost⟩ := texts_slot text route hheld
  change v.texts.Perm (lost ++ kept) at hsplit
  have hmap : ((given ++ [(route, text)]).map Prod.snd).Perm (text :: given.map Prod.snd) := by
    rw [List.map_append]
    exact List.perm_append_singleton _ _
  refine ⟨slot_gathered text route hheld, ?_, ?_, ?_⟩
  · have hkept : kept.Subperm (given.map Prod.snd) :=
      (List.sublist_append_right lost kept).subperm.trans (hsplit.symm.subperm.trans h.within)
    exact htexts.subperm.trans (((List.subperm_cons text).mpr hkept).trans hmap.symm.subperm)
  · have hadded : (slot (some v) (route, text)).texts.Perm
        ((given ++ [(route, text)]).map Prod.snd) ↔ kept.Perm (given.map Prod.snd) :=
      ⟨fun hperm => ((htexts.symm.trans hperm).trans hmap).cons_inv,
        fun hperm => (htexts.trans (hperm.cons text)).trans hmap.symm⟩
    rw [hadded, keepsClear_append_iff]
    exact h.kept_iff hsplit hlost
  · intro hclear other
    obtain ⟨hclear, hpasses⟩ := keepsClear_append_iff.mp hclear
    have hfree : ¬ Meets (some v) route := fun hmeets => hpasses ((h.meets hclear route).mp hmeets)
    rw [meets_slot_iff text other hfree, h.meets hclear]
    simp [or_and_right, exists_or]

theorem run_foldl (given : List Routed) : ∃ v, given.foldl fill (some (.obj [])) = some v ∧
    Run given v := by
  induction given using List.reverseRecOn with
  | nil => exact ⟨_, rfl, .nil⟩
  | append_singleton given r ih =>
    obtain ⟨v, hfold, hrun⟩ := ih
    refine ⟨_, ?_, hrun.append r⟩
    rw [List.foldl_append, hfold]
    rfl

end Runs

section Pairs

variable {key : List Char}

/-- The name of a key that has one is not empty. -/
theorem keyPath_named (h : key ≠ []) : (keyPath key).1 ≠ [] := by
  rcases cuts_or_literal key with hcuts | hliteral
  · exact hcuts.named
  · rw [hliteral]
    exact h

/-- The pairs that count, which are those with a key. -/
def counted (given : List (List Char × String)) : List (List Char × String) :=
  given.filter fun pair => pair.1 ≠ []

/-- The way that a key leads. -/
def way (key : List Char) : List (List Char) := (keyPath key).1 :: (keyPath key).2

/--
A query makes up no texts, and it keeps all of those whose pairs have a key exactly where no key
leads on through the place at which an earlier one ends.
-/
theorem ofPairs_keeps_texts_iff (given : List (List Char × String)) :
    (ofPairs given).texts.Subperm ((counted given).map Prod.snd) ∧
    ((ofPairs given).texts.Perm ((counted given).map Prod.snd) ↔
      (counted given).Pairwise fun earlier later => ¬ Passes (way later.1) (way earlier.1)) := by
  obtain ⟨v, hfold, hrun⟩ := run_foldl (routed given)
  have hnamed : ∀ r ∈ routed given, ∃ name segments, r.1 = name :: segments ∧ name ≠ [] := by
    intro r hr
    obtain ⟨pair, hpair, rfl⟩ := List.mem_map.mp hr
    exact ⟨_, _, rfl, keyPath_named (of_decide_eq_true (List.mem_filter.mp hpair).2)⟩
  have hobject : ofPairs given = v := by
    rw [ofPairs, foldl_insertPair]
    refine Option.some.inj (Eq.trans ?_ hfold)
    by_cases hnil : routed given = []
    · rw [hnil]
      rfl
    · exact (@foldl_fill_named _ (some (.obj [])) hnil hnamed).symm
  have htexts : (routed given).map Prod.snd = (counted given).map Prod.snd := List.map_map
  have hclear : KeepsClear (routed given) ↔
      (counted given).Pairwise fun earlier later => ¬ Passes (way later.1) (way earlier.1) :=
    List.pairwise_map
  rw [hobject, ← htexts, ← hclear]
  exact ⟨hrun.within, hrun.kept⟩

/-- The text of the first pair is replaced by the object that the second one leads through. -/
theorem overwritten_text_lost :
    ofPairs [("a".toList, "1"), ("a[b]".toList, "2")] = .obj [("a", .obj [("b", .str "2")])] ∧
    ¬ (ofPairs [("a".toList, "1"), ("a[b]".toList, "2")]).texts.Perm
      ((counted [("a".toList, "1"), ("a[b]".toList, "2")]).map Prod.snd) := by
  have hobject : ofPairs [("a".toList, "1"), ("a[b]".toList, "2")] =
      .obj [("a", .obj [("b", .str "2")])] := by decide +kernel
  rw [hobject]
  exact ⟨rfl, by decide⟩

end Pairs

end Query

end Conform
