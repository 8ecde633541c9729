import Conform.Proofs.Table
import Conform.Query

/-!
# Written queries

An object of texts is written as one pair for each text, its key the way to
the text. The pairs may come in any order in which the items of a list stay in
theirs: each pair changes what is held under its own key and nothing else, so
what a key holds in the end depends on the pairs of that key alone.
-/

namespace Conform

namespace Query

/-- A name that can stand before brackets and inside them. -/
structure IsName (name : String) : Prop where
  nonempty : name.toList ≠ []
  opens : '[' ∉ name.toList
  closes : ']' ∉ name.toList

instance (name : String) : Decidable (IsName name) :=
  decidable_of_iff (name.toList ≠ [] ∧ '[' ∉ name.toList ∧ ']' ∉ name.toList)
    ⟨fun ⟨hnonempty, hopens, hcloses⟩ => ⟨hnonempty, hopens, hcloses⟩,
      fun h => ⟨h.nonempty, h.opens, h.closes⟩⟩

/-- A text, or a list of texts or an object of such values that holds something. -/
inductive Writable : Json → Prop
  | text (text : String) : Writable (.str text)
  | texts {texts : List String} : texts ≠ [] → Writable (.arr (texts.map .str))
  | object {fields : List (String × Json)} : fields ≠ [] → Table.Ordered fields →
      (∀ entry ∈ fields, IsName entry.1) → (∀ entry ∈ fields, Writable entry.2) →
      Writable (.obj fields)

/-- The fields of an object that a query string can write, which may be none. -/
structure IsForm (fields : List (String × Json)) : Prop where
  ordered : Table.Ordered fields
  names : ∀ entry ∈ fields, IsName entry.1
  values : ∀ entry ∈ fields, Writable entry.2

/-- A text behind the segments that lead to it. -/
abbrev Routed := List (List Char) × String

mutual

/-- The texts of a value; the items of a list are behind an empty segment. -/
def routes : Json → List Routed
  | .str text => [([], text)]
  | .arr items => (items.filterMap Json.text?).map fun text => ([[]], text)
  | .obj fields => routesOf fields
  | _ => []

def routesOf : List (String × Json) → List Routed
  | [] => []
  | (name, v) :: rest => (routes v).map (fun r => (name.toList :: r.1, r.2)) ++ routesOf rest

end

/-- Segments in brackets. -/
def bracketed (segments : List (List Char)) : List Char :=
  segments.flatMap fun segment => '[' :: (segment ++ [']'])

/-- The key of a text: the first segment, and the others in brackets. -/
def keyOf : List (List Char) → List Char
  | [] => []
  | name :: segments => name ++ bracketed segments

/-- One pair for each text of an object. -/
def write (fields : List (String × Json)) : List (List Char × String) :=
  (routesOf fields).map fun r => (keyOf r.1, r.2)

/--
The pairs come in some order, in which those of one list keep theirs; the ending of a key tells that
it is the key of the items of a list.
-/
structure Reorders {α : Type} [DecidableEq α] (ending : List α)
    (given written : List (List α × String)) : Prop where
  perm : given.Perm written
  items : ∀ key, (given.filter fun pair => pair.1 = key ++ ending) =
    written.filter fun pair => pair.1 = key ++ ending

/-- It is enough to look at the keys that are written. -/
theorem Reorders.of_keys {α : Type} [DecidableEq α] {ending : List α}
    {given written : List (List α × String)} (hperm : given.Perm written)
    (h : ∀ key ∈ written.map Prod.fst,
      (given.filter fun pair => pair.1 = key) = written.filter fun pair => pair.1 = key) :
    Reorders ending given written := by
  refine ⟨hperm, fun key => ?_⟩
  by_cases hkey : key ++ ending ∈ written.map Prod.fst
  · exact h _ hkey
  · have hnone : ∀ pair ∈ written, ¬ decide (pair.1 = key ++ ending) = true :=
      fun pair hpair heq => hkey (of_decide_eq_true heq ▸ List.mem_map_of_mem hpair)
    rw [List.filter_eq_nil_iff.mpr fun pair hpair => hnone pair (hperm.mem_iff.mp hpair),
      List.filter_eq_nil_iff.mpr hnone]

section Keys

variable {segment : List Char} {segments : List (List Char)} {name rest : List Char}

/-- A segment is read up to its closing bracket. -/
theorem inside?_segment (h : ']' ∉ segment) (read : List Char) :
    inside? read (segment ++ ']' :: rest) =
      (segments? rest).map ((read.reverse ++ segment) :: ·) := by
  induction segment generalizing read with
  | nil => simp [inside?]
  | cons c segment ih =>
    obtain ⟨hc, h⟩ := not_or.mp (mt List.mem_cons.mpr h)
    rw [List.cons_append, inside?, if_neg (Ne.symm hc), ih h, List.reverse_cons,
      List.append_assoc, List.singleton_append]

theorem segments?_bracketed (h : ∀ segment ∈ segments, ']' ∉ segment) :
    segments? (bracketed segments) = some segments := by
  induction segments with
  | nil => simp [bracketed, segments?]
  | cons segment rest ih =>
    obtain ⟨hsegment, h⟩ := List.forall_mem_cons.mp h
    have hread : bracketed (segment :: rest) = '[' :: (segment ++ ']' :: bracketed rest) := by
      simp [bracketed]
    rw [hread, segments?, if_pos rfl, inside?_segment hsegment, ih h]
    rfl

/-- The way to a text is read back from its key. -/
theorem keyPath_keyOf (hnonempty : name ≠ []) (hname : '[' ∉ name)
    (h : ∀ segment ∈ segments, ']' ∉ segment) :
    keyPath (keyOf (name :: segments)) = (name, segments) := by
  have hplain : ∀ c ∈ name, (c != '[') = true := by
    intro c hc
    rw [bne_iff_ne]
    rintro rfl
    exact hname hc
  have hopens : (bracketed segments).takeWhile (· != '[') = [] ∧
      (bracketed segments).dropWhile (· != '[') = bracketed segments := by
    cases segments <;> simp [bracketed]
  rw [keyPath, keyOf, List.takeWhile_append_of_pos hplain, List.dropWhile_append_of_pos hplain,
    hopens.1, hopens.2, segments?_bracketed h, List.append_nil]
  cases name with
  | nil => exact absurd rfl hnonempty
  | cons c rest => rfl

end Keys

section Slots

/-- What a key holds after one more text. -/
def slot (held : Option Json) : Routed → Json
  | ([], text) => gather text held
  | ([] :: _, text) => gatherList text held
  | (name :: segments, text) => .obj (insertAt text name segments (nested held))

/-- The same, a key that holds nothing before included. -/
def fill (held : Option Json) (r : Routed) : Option Json := some (slot held r)

/-- The fields after one more text. -/
def put (fields : List (String × Json)) : Routed → List (String × Json)
  | ([], _) => fields
  | (name :: segments, text) => insertAt text name segments fields

/-- The texts under a name, behind the segments after it. -/
def below (name : String) (given : List Routed) : List Routed :=
  (given.filter fun r => r.1.head? = some name.toList).map fun r => (r.1.tail, r.2)

variable {fields : List (String × Json)} {given : List Routed} {r : Routed} {name : String}
  {held : Option Json}

/-- A text changes what is held under the first of its segments. -/
theorem put_cons (name : List Char) (segments : List (List Char)) (text : String)
    (fields : List (String × Json)) : put fields (name :: segments, text) =
      Table.insert (String.ofList name)
        (slot (Table.get? (String.ofList name) fields) (segments, text)) fields := by
  cases segments with
  | nil => rfl
  | cons next rest => cases next <;> rfl

theorem get?_put (hroute : r.1 ≠ []) : Table.get? name (put fields r) =
    (below name [r]).foldl fill (Table.get? name fields) := by
  obtain ⟨route, text⟩ := r
  cases route with
  | nil => exact absurd rfl hroute
  | cons first segments =>
    rw [put_cons, Table.get?_insert]
    by_cases h : first = name.toList
    · simp [below, h, fill]
    · have hne : name ≠ String.ofList first := by
        rintro rfl
        exact h String.toList_ofList.symm
      simp [below, h, hne]

theorem below_append (name : String) (given more : List Routed) :
    below name (given ++ more) = below name given ++ below name more := by
  rw [below, below, below, List.filter_append, List.map_append]

/-- What a name holds in the end depends on the texts under the name alone. -/
theorem get?_foldl_put (hgiven : ∀ r ∈ given, r.1 ≠ []) (name : String) :
    Table.get? name (given.foldl put fields) =
      (below name given).foldl fill (Table.get? name fields) := by
  induction given generalizing fields with
  | nil => rfl
  | cons r rest ih =>
    obtain ⟨hroute, hrest⟩ := List.forall_mem_cons.mp hgiven
    rw [List.foldl_cons, ih hrest, get?_put hroute, ← List.foldl_append, ← below_append,
      List.singleton_append]

theorem foldl_put_ordered (h : Table.Ordered fields) : Table.Ordered (given.foldl put fields) := by
  induction given generalizing fields with
  | nil => exact h
  | cons r rest ih =>
    refine ih ?_
    obtain ⟨route, text⟩ := r
    cases route with
    | nil => exact h
    | cons name segments =>
      rw [put_cons]
      exact h.insert _ _

/-- A list grows by each text that comes behind an empty segment. -/
theorem foldl_fill_texts (texts : List String) (items : List Json) :
    (texts.map fun text => ([[]], text)).foldl fill (some (.arr items)) =
      some (.arr (items ++ texts.map .str)) := by
  induction texts generalizing items with
  | nil => rw [List.map_nil, List.map_nil, List.append_nil, List.foldl_nil]
  | cons text rest ih =>
    have hone : fill (some (.arr items)) ([[]], text) = some (.arr (items ++ [.str text])) := rfl
    rw [List.map_cons, List.foldl_cons, hone, ih, List.map_cons, List.append_assoc,
      List.singleton_append]

/-- Texts behind names gather in an object. -/
theorem foldl_fill_named (hnonempty : given ≠ [])
    (hgiven : ∀ r ∈ given, ∃ name segments, r.1 = name :: segments ∧ name ≠ []) :
    given.foldl fill held = some (.obj (given.foldl put (nested held))) := by
  induction given generalizing held with
  | nil => exact absurd rfl hnonempty
  | cons r rest ih =>
    obtain ⟨⟨name, segments, hroute, hname⟩, hrest⟩ := List.forall_mem_cons.mp hgiven
    have hfill : fill held r = some (.obj (put (nested held) r)) := by
      obtain ⟨route, text⟩ := r
      cases hroute
      cases name with
      | nil => exact absurd rfl hname
      | cons c name => rfl
    rw [List.foldl_cons, List.foldl_cons, hfill]
    cases rest with
    | nil => rfl
    | cons next more => exact ih (List.cons_ne_nil _ _) hrest

end Slots

section Routes

variable {fields : List (String × Json)} {given written : List Routed} {name : String} {v : Json}

theorem routes_texts (texts : List String) :
    routes (.arr (texts.map .str)) = texts.map fun text => ([[]], text) := by
  rw [routes, List.filterMap_map]
  have hall : (Json.text? ∘ Json.str) = some := rfl
  rw [hall, List.filterMap_some]

/-- The texts under a name are those of its value. -/
theorem below_routesOf (h : (Table.keys fields).Nodup) (name : String) :
    below name (routesOf fields) = ((Table.get? name fields).map routes).getD [] := by
  have hone : ∀ (key : String) (v : Json),
      below name ((routes v).map fun r => (key.toList :: r.1, r.2)) =
        if key = name then routes v else [] := by
    intro key v
    rw [below, List.filter_map, List.map_map]
    by_cases hkey : key = name
    · simp [Function.comp_def, hkey]
    · have hchars : key.toList ≠ name.toList := fun heq => hkey (String.toList_inj.mp heq)
      simp [Function.comp_def, hkey, hchars]
  induction fields with
  | nil => rfl
  | cons entry rest ih =>
    obtain ⟨key, v⟩ := entry
    obtain ⟨hfresh, hrest⟩ := List.nodup_cons.mp h
    rw [routesOf, below_append, hone, ih hrest, Table.get?_cons]
    by_cases hkey : key = name
    · subst hkey
      rw [if_pos rfl, if_pos rfl, Table.get?_eq_none_iff.mpr hfresh]
      exact List.append_nil _
    · rw [if_neg hkey, if_neg hkey, List.nil_append]

theorem Reorders.below (h : Reorders [[]] given written) (name : String) :
    Reorders [[]] (below name given) (below name written) where
  perm := (h.perm.filter _).map _
  items key := by
    have hroute (route : List (List Char)) :
        route.tail = key ++ [[]] ∧ route.head? = some name.toList ↔
          route = (name.toList :: key) ++ [[]] := by
      cases route <;> simp [and_comm]
    have hbelow (given : List Routed) :
        ((Query.below name given).filter fun r => r.1 = key ++ [[]]) =
          (given.filter fun r => r.1 = (name.toList :: key) ++ [[]]).map
            fun r => (r.1.tail, r.2) := by
      rw [Query.below, List.filter_map, List.filter_filter]
      refine congrArg _ (List.filter_congr fun r _ => ?_)
      rw [Bool.eq_iff_iff]
      simpa using hroute r.1
    rw [hbelow, hbelow, h.items]

theorem mem_routesOf {r : Routed} (h : r ∈ routesOf fields) :
    ∃ entry ∈ fields, ∃ s ∈ routes entry.2, r = (entry.1.toList :: s.1, s.2) := by
  induction fields with
  | nil => cases h
  | cons entry rest ih =>
    rcases List.mem_append.mp h with h | h
    · obtain ⟨s, hs, rfl⟩ := List.mem_map.mp h
      exact ⟨entry, List.mem_cons_self, s, hs, rfl⟩
    · obtain ⟨other, hother, hs⟩ := ih h
      exact ⟨other, List.mem_cons_of_mem _ hother, hs⟩

/-- The texts of an object are behind the names of its fields. -/
theorem named_of_mem_routesOf (hnames : ∀ entry ∈ fields, IsName entry.1) :
    ∀ r ∈ routesOf fields, ∃ name segments, r.1 = name :: segments ∧ name ≠ [] := by
  intro r hr
  obtain ⟨entry, hentry, s, -, rfl⟩ := mem_routesOf hr
  exact ⟨_, _, rfl, (hnames entry hentry).nonempty⟩

theorem Writable.routes_ne_nil (h : Writable v) : routes v ≠ [] := by
  induction h with
  | text text => exact List.cons_ne_nil _ _
  | texts hnonempty =>
    rw [routes_texts]
    exact mt List.map_eq_nil_iff.mp hnonempty
  | @object fields hnonempty _ _ _ ih =>
    cases fields with
    | nil => exact absurd rfl hnonempty
    | cons entry rest =>
      rw [routes, routesOf]
      intro hnil
      have hfirst := (List.append_eq_nil_iff.mp hnil).1
      exact ih entry List.mem_cons_self (List.map_eq_nil_iff.mp hfirst)

/-- An object is put together from its texts if each of its values is. -/
theorem foldl_put_routesOf (h : Table.Ordered fields) (hnames : ∀ entry ∈ fields, IsName entry.1)
    (hvalues : ∀ entry ∈ fields, ∀ given, Reorders [[]] given (routes entry.2) →
      given.foldl fill none = some entry.2)
    (hgiven : Reorders [[]] given (routesOf fields)) : given.foldl put [] = fields := by
  refine Table.Ordered.ext (foldl_put_ordered List.Pairwise.nil) h fun name => ?_
  have hroutes : ∀ r ∈ given, r.1 ≠ [] := by
    intro r hr
    obtain ⟨first, segments, hroute, -⟩ :=
      named_of_mem_routesOf hnames r (hgiven.perm.mem_iff.mp hr)
    exact hroute ▸ List.cons_ne_nil _ _
  rw [get?_foldl_put hroutes]
  have hbelow := hgiven.below name
  rw [below_routesOf h.nodup] at hbelow
  cases hget : Table.get? name fields with
  | none =>
    rw [hget] at hbelow
    rw [List.Perm.eq_nil hbelow.perm]
    rfl
  | some v =>
    rw [hget] at hbelow
    exact hvalues (name, v) (Table.mem_of_get? hget) _ hbelow

/-- The texts of a value make it up, in any order that keeps the items of lists in theirs. -/
theorem Writable.foldl_fill (h : Writable v) :
    ∀ given, Reorders [[]] given (routes v) → given.foldl fill none = some v := by
  induction h with
  | text text =>
    intro given hgiven
    rw [routes] at hgiven
    rw [List.perm_singleton.mp hgiven.perm]
    rfl
  | @texts texts hnonempty =>
    intro given hgiven
    rw [routes_texts] at hgiven
    have hall : ∀ r ∈ texts.map fun text => (([[]], text) : Routed),
        decide (r.1 = [] ++ [[]]) = true := by simp
    -- all texts have the key of the items, so their order is the one that is kept
    have hsame := hgiven.items []
    rw [List.filter_eq_self.mpr hall,
      List.filter_eq_self.mpr fun r hr => hall r (hgiven.perm.mem_iff.mp hr)] at hsame
    rw [hsame]
    cases texts with
    | nil => exact absurd rfl hnonempty
    | cons text rest => exact foldl_fill_texts rest [.str text]
  | @object fields hnonempty hordered hnames hvalues ih =>
    intro given hgiven
    have hwritten := (Writable.object hnonempty hordered hnames hvalues).routes_ne_nil
    rw [routes] at hgiven hwritten
    rw [foldl_fill_named]
    · exact congrArg (some ∘ Json.obj) (foldl_put_routesOf hordered hnames ih hgiven)
    · rintro rfl
      exact hwritten (List.nil_perm.mp hgiven.perm)
    · exact fun r hr => named_of_mem_routesOf hnames r (hgiven.perm.mem_iff.mp hr)

theorem Writable.closes (h : Writable v) : ∀ r ∈ routes v, ∀ segment ∈ r.1, ']' ∉ segment := by
  induction h with
  | text text => simp [routes]
  | texts _ => simp [routes_texts]
  | object _ _ hnames _ ih =>
    intro r hr
    rw [routes] at hr
    obtain ⟨entry, hentry, s, hs, rfl⟩ := mem_routesOf hr
    exact List.forall_mem_cons.mpr ⟨(hnames entry hentry).closes, ih entry hentry s hs⟩

end Routes

section Pairs

variable {fields : List (String × Json)} {given : List (List Char × String)} {r : Routed}

/-- The pair that is written for a text. -/
def encoded (r : Routed) : List Char × String := (keyOf r.1, r.2)

/-- The text that a pair stands for. -/
def decoded (pair : List Char × String) : Routed :=
  ((keyPath pair.1).1 :: (keyPath pair.1).2, pair.2)

theorem IsForm.decoded_encoded (h : IsForm fields) (hr : r ∈ routesOf fields) :
    decoded (encoded r) = r := by
  obtain ⟨entry, hentry, s, hs, rfl⟩ := mem_routesOf hr
  have hname := h.names entry hentry
  have hpath := keyPath_keyOf hname.nonempty hname.opens ((h.values entry hentry).closes s hs)
  rw [decoded, encoded, hpath]

/-- Texts with one key are behind the same segments. -/
theorem IsForm.keyOf_inj (h : IsForm fields) {s : Routed} (hr : r ∈ routesOf fields)
    (hs : s ∈ routesOf fields) (hkey : keyOf r.1 = keyOf s.1) : r.1 = s.1 := by
  have hread := congrArg (fun key => (keyPath key).1 :: (keyPath key).2) hkey
  have hrouted := congrArg Prod.fst (h.decoded_encoded hr)
  exact hrouted.symm.trans (hread.trans (congrArg Prod.fst (h.decoded_encoded hs)))

/-- The key of an item of a list has an ending of its own. -/
theorem keyOf_items {route : List (List Char)} (h : route ≠ []) :
    keyOf (route ++ [[]]) = keyOf route ++ ['[', ']'] := by
  cases route with
  | nil => exact absurd rfl h
  | cons name segments => simp [keyOf, bracketed]

theorem insertPair_eq {fields : List (String × Json)} {pair : List Char × String}
    (h : pair.1 ≠ []) : insertPair fields pair = put fields (decoded pair) := by
  obtain ⟨key, text⟩ := pair
  cases key with
  | nil => exact absurd rfl h
  | cons c rest => rfl

theorem IsForm.map_decoded (h : IsForm fields) : (write fields).map decoded = routesOf fields := by
  rw [write, List.map_map]
  exact (List.map_congr_left fun r hr => h.decoded_encoded hr).trans (List.map_id _)

/-- Of written pairs, those with the key of a text stand for those behind its segments. -/
theorem IsForm.filter_decoded (h : IsForm fields) (hr : r ∈ routesOf fields)
    (hgiven : ∀ pair ∈ given, pair ∈ write fields) :
    ((given.map decoded).filter fun s => s.1 = r.1) =
      (given.filter fun pair => pair.1 = keyOf r.1).map decoded := by
  rw [List.filter_map]
  refine congrArg _ (List.filter_congr fun pair hpair => ?_)
  obtain ⟨s, hs, rfl⟩ := List.mem_map.mp (hgiven pair hpair)
  have hdecoded : decoded (keyOf s.1, s.2) = s := h.decoded_encoded hs
  rw [Function.comp_apply, hdecoded, Bool.eq_iff_iff, decide_eq_true_iff, decide_eq_true_iff]
  exact ⟨fun heq => congrArg keyOf heq, h.keyOf_inj hs hr⟩

/-- Pairs in some order stand for the texts in such an order. -/
theorem IsForm.reorders_decoded (h : IsForm fields)
    (hgiven : Reorders ['[', ']'] given (write fields)) :
    Reorders [[]] (given.map decoded) (routesOf fields) := by
  have hperm : (given.map decoded).Perm (routesOf fields) := h.map_decoded ▸ hgiven.perm.map decoded
  refine ⟨hperm, fun route => ?_⟩
  by_cases hroute : ∃ r ∈ routesOf fields, r.1 = route ++ [[]]
  · obtain ⟨r, hr, hroute⟩ := hroute
    have hnonempty : route ≠ [] := by
      rintro rfl
      obtain ⟨name, segments, hnamed, hname⟩ := named_of_mem_routesOf h.names r hr
      cases hroute.symm.trans hnamed
      exact hname rfl
    rw [← hroute, h.filter_decoded hr fun pair hpair => hgiven.perm.mem_iff.mp hpair, hroute,
      keyOf_items hnonempty, hgiven.items, ← keyOf_items hnonempty, ← hroute,
      ← h.filter_decoded hr fun pair hpair => hpair, h.map_decoded]
  · have hnone : ∀ r ∈ routesOf fields, ¬ decide (r.1 = route ++ [[]]) = true :=
      fun r hr heq => hroute ⟨r, hr, of_decide_eq_true heq⟩
    rw [List.filter_eq_nil_iff.mpr fun r hr => hnone r (hperm.mem_iff.mp hr),
      List.filter_eq_nil_iff.mpr hnone]

/--
Whatever the order of the pairs that are written for an object, if only the items of each list stay
in theirs, the object is read back from them.
-/
theorem ofPairs_reordered (h : IsForm fields)
    (hgiven : Reorders ['[', ']'] given (write fields)) :
    ofPairs given = .obj fields ∧ ∀ text, pairs text = given → read text = .obj fields := by
  have hkeys : ∀ pair ∈ given, pair.1 ≠ [] := by
    intro pair hpair
    obtain ⟨r, hr, rfl⟩ := List.mem_map.mp (hgiven.perm.mem_iff.mp hpair)
    obtain ⟨name, segments, hroute, hname⟩ := named_of_mem_routesOf h.names r hr
    rw [hroute]
    exact List.append_ne_nil_of_left_ne_nil hname _
  have hfold : ∀ start, given.foldl insertPair start = (given.map decoded).foldl put start := by
    intro start
    rw [List.foldl_map]
    exact List.foldl_ext _ _ _ fun fields pair hpair => insertPair_eq (hkeys pair hpair)
  have hobject : ofPairs given = .obj fields := by
    rw [ofPairs, hfold]
    exact congrArg Json.obj (foldl_put_routesOf h.ordered h.names
      (fun entry hentry => (h.values entry hentry).foldl_fill) (h.reorders_decoded hgiven))
  refine ⟨hobject, ?_⟩
  rintro text rfl
  exact hobject

/-- A text beside an object with another object and a list in it. -/
def filterFields : List (String × Json) :=
  [("filter", .obj [("age", .obj [("min", .str "3")]), ("tags", .arr [.str "a", .str "b"])]),
    ("page", .str "2")]

theorem filterFields_isForm : IsForm filterFields where
  ordered := by decide
  names := by decide
  values := by
    have hage : Writable (.obj [("min", .str "3")]) :=
      .object (List.cons_ne_nil _ _) (by decide) (by decide)
        (List.forall_mem_singleton.mpr (.text "3"))
    have htags : Writable (.arr (["a", "b"].map .str)) := .texts (List.cons_ne_nil _ _)
    have hfilter : Writable
        (.obj [("age", .obj [("min", .str "3")]), ("tags", .arr (["a", "b"].map .str))]) :=
      .object (List.cons_ne_nil _ _) (by decide) (by decide)
        (List.forall_mem_cons.mpr ⟨hage, List.forall_mem_singleton.mpr htags⟩)
    exact List.forall_mem_cons.mpr ⟨hfilter, List.forall_mem_singleton.mpr (.text "2")⟩

/-- The items of the list come apart, and the object is read all the same. -/
theorem filter_query_read : IsForm filterFields ∧
    Reorders ['[', ']'] [("filter[tags][]".toList, "a"), ("page".toList, "2"),
      ("filter[age][min]".toList, "3"), ("filter[tags][]".toList, "b")] (write filterFields) ∧
    read "filter[tags][]=a&page=2&filter[age][min]=3&filter%5Btags%5D%5B%5D=b" =
      .obj filterFields := by
  have hreorders : Reorders ['[', ']'] [("filter[tags][]".toList, "a"), ("page".toList, "2"),
      ("filter[age][min]".toList, "3"), ("filter[tags][]".toList, "b")] (write filterFields) :=
    .of_keys (by decide) (by decide)
  obtain ⟨-, hread⟩ := ofPairs_reordered filterFields_isForm hreorders
  exact ⟨filterFields_isForm, hreorders, hread _ (by decide +kernel)⟩

end Pairs

end Query

end Conform
