import Conform.Proofs.Fresh
import Conform.Proofs.Ordered
import Conform.Proofs.QueryForm

/-!
# Spellings of lists

A list in a query is written with brackets behind its name, or as the name
again and again. Both give the same object, except that a single text stands
there without its list. An array rule puts that list around it, so the two
objects are checked alike.
-/

namespace Conform

open Cache

namespace Query

/-- Whether the key of a pair leads to a name. -/
def leadsTo (name : String) (pair : List Char × String) : Bool :=
  (keyPath pair.1).1 = name.toList

/-- A query gives the texts to a name, by the name with an ending, and has other pairs besides. -/
structure Spells (name : String) (ending : List Char) (texts : List String)
    (others : List (List Char × String)) (query : String) : Prop where
  own : (pairs query).filter (leadsTo name) = texts.map fun text => (name.toList ++ ending, text)
  others : (pairs query).filter (fun pair => !leadsTo name pair) = others

/-- The texts that pairs stand for; a pair without a key does not count. -/
def routed (given : List (List Char × String)) : List Routed :=
  (given.filter fun pair => pair.1 ≠ []).map decoded

variable {name : String} {given : List (List Char × String)} {texts : List String}
  {others : List (List Char × String)} {query : String} {ending : List Char}

theorem foldl_insertPair (given : List (List Char × String)) (fields : List (String × Json)) :
    given.foldl insertPair fields = (routed given).foldl put fields := by
  induction given generalizing fields with
  | nil => rfl
  | cons pair rest ih =>
    rw [List.foldl_cons, ih]
    obtain ⟨key, text⟩ := pair
    cases key with
    | nil => rfl
    | cons c key => rfl

/-- The fields that a query gives. -/
def fieldsOf (query : String) : List (String × Json) := (routed (pairs query)).foldl put []

theorem read_eq (query : String) : read query = .obj (fieldsOf query) :=
  congrArg Json.obj (foldl_insertPair (pairs query) [])

theorem fieldsOf_ordered (query : String) : Table.Ordered (fieldsOf query) :=
  foldl_put_ordered List.Pairwise.nil

theorem get?_fieldsOf (query name : String) :
    Table.get? name (fieldsOf query) = (below name (routed (pairs query))).foldl fill none := by
  refine get?_foldl_put (fun r hr => ?_) name
  obtain ⟨pair, -, rfl⟩ := List.mem_map.mp hr
  exact List.cons_ne_nil _ _

/-- The texts under a name come from the pairs that lead to it. -/
theorem below_routed (name : String) (given : List (List Char × String)) :
    below name (routed given) =
      ((given.filter (leadsTo name)).filter fun pair => pair.1 ≠ []).map
        fun pair => ((keyPath pair.1).2, pair.2) := by
  rw [below, routed, List.filter_map, List.map_map, List.filter_filter, List.filter_filter]
  refine congrArg _ (List.filter_congr fun pair _ => ?_)
  simp [decoded, leadsTo, Bool.and_comm]

/-- What a name holds in the end comes from the pairs that lead to it. -/
theorem get?_fieldsOf_congr {other : String}
    (h : (pairs query).filter (leadsTo name) = (pairs other).filter (leadsTo name)) :
    Table.get? name (fieldsOf query) = Table.get? name (fieldsOf other) := by
  rw [get?_fieldsOf, get?_fieldsOf, below_routed, below_routed, h]

/-- Two names are not led to by one pair. -/
theorem Spells.elsewhere {ending' : List Char} {other key : String}
    (h : Spells name ending texts others query) (h' : Spells name ending' texts others other)
    (hkey : key ≠ name) : Table.get? key (fieldsOf query) = Table.get? key (fieldsOf other) := by
  have hfilter (given : List (List Char × String)) :
      given.filter (leadsTo key) =
        (given.filter fun pair => !leadsTo name pair).filter (leadsTo key) := by
    rw [List.filter_filter]
    refine List.filter_congr fun pair _ => ?_
    have hnot : leadsTo key pair = true → leadsTo name pair = false := by
      intro hleads
      have hchars := of_decide_eq_true hleads
      exact decide_eq_false fun hname => hkey (String.toList_inj.mp (hchars.symm.trans hname))
    cases hleads : leadsTo key pair with
    | false => rfl
    | true => rw [hnot hleads]; rfl
  exact get?_fieldsOf_congr (by rw [hfilter, h.others, hfilter (pairs other), h'.others])

/-- Of a name without brackets, what the texts make up is what it holds. -/
theorem Spells.own_fold (h : Spells name ending texts others query) (hname : name.toList ≠ [])
    {segments : List (List Char)} (hpath : keyPath (name.toList ++ ending) = (name.toList, segments)) :
    Table.get? name (fieldsOf query) =
      (texts.map fun text => (segments, text)).foldl fill none := by
  rw [get?_fieldsOf, below_routed, h.own, List.filter_eq_self.mpr, List.map_map]
  · refine congrArg (List.foldl fill none) (List.map_congr_left fun text _ => ?_)
    rw [Function.comp_apply, hpath]
  · intro pair hpair
    obtain ⟨text, -, rfl⟩ := List.mem_map.mp hpair
    simp [hname]

/-- A list grows by each text that comes under its name. -/
theorem foldl_fill_repeated (texts : List String) (items : List Json) :
    (texts.map fun text => (([] : List (List Char)), text)).foldl fill (some (.arr items)) =
      some (.arr (items ++ texts.map .str)) := by
  induction texts generalizing items with
  | nil => rw [List.map_nil, List.map_nil, List.append_nil, List.foldl_nil]
  | cons text rest ih =>
    have hone : fill (some (.arr items)) ([], text) = some (.arr (items ++ [.str text])) := rfl
    rw [List.map_cons, List.foldl_cons, hone, ih, List.map_cons, List.append_assoc,
      List.singleton_append]

/-- What a name holds that stands for itself: a single text, or the list of all texts. -/
def repeated : List String → Json
  | [text] => .str text
  | texts => .arr (texts.map .str)

theorem Spells.repeated (h : Spells name [] texts others query) (hname : name.toList ≠ [])
    (hopens : '[' ∉ name.toList) (htexts : texts ≠ []) :
    Table.get? name (fieldsOf query) = some (Query.repeated texts) := by
  have hpath : keyPath (keyOf [name.toList]) = (name.toList, []) :=
    keyPath_keyOf hname hopens nofun
  rw [h.own_fold hname hpath]
  cases texts with
  | nil => exact absurd rfl htexts
  | cons text rest =>
    cases rest with
    | nil => rfl
    | cons next more => exact foldl_fill_repeated more [.str text, .str next]

theorem Spells.listed (h : Spells name ['[', ']'] texts others query) (hname : name.toList ≠ [])
    (hopens : '[' ∉ name.toList) (htexts : texts ≠ []) :
    Table.get? name (fieldsOf query) = some (.arr (texts.map .str)) := by
  have hpath : keyPath (keyOf [name.toList, []]) = (name.toList, [[]]) :=
    keyPath_keyOf hname hopens (by simp)
  rw [h.own_fold hname hpath]
  cases texts with
  | nil => exact absurd rfl htexts
  | cons text rest => exact foldl_fill_texts rest [.str text]

end Query

namespace Issue

/-- Where an issue is, and what it is about. -/
def spot (issue : Issue) : FieldPath × Reason := (issue.path, issue.code)

end Issue

/-- Reports of the same issues at the same places, which may show other values. -/
def Report.SameSpots (r r' : Report) : Prop :=
  r.channel = r'.channel ∧ r.target = r'.target ∧
    r.issues.map Issue.spot = r'.issues.map Issue.spot

/-- Two tables in order that have the same under some keys. -/
structure Json.AgreeOn (good : String → Prop) (fields fields' : List (String × Json)) : Prop where
  ordered : Table.Ordered fields
  ordered' : Table.Ordered fields'
  same : ∀ key, good key → Table.get? key fields = Table.get? key fields'

namespace Json

variable {good : String → Prop} {fields fields' : List (String × Json)} {o o' : Outcome}

theorem AgreeOn.eq (h : AgreeOn good fields fields') (hall : ∀ key, good key) : fields = fields' :=
  h.ordered.ext h.ordered' fun key => h.same key (hall key)

theorem put_ordered (name : String) (o : Outcome) (h : Table.Ordered fields) :
    Table.Ordered (Check.put name o fields) := by
  unfold Check.put
  split
  · exact h.insert _ _
  · exact h.erase _

/-- What is put in under a name agrees from then on. -/
theorem AgreeOn.put (h : AgreeOn good fields fields') (ho : o.output = o'.output) (name : String) :
    AgreeOn (fun key => good key ∨ key = name) (Check.put name o fields)
      (Check.put name o' fields') := by
  refine ⟨put_ordered name o h.ordered, put_ordered name o' h.ordered', fun key hkey => ?_⟩
  rw [Check.get?_put, Check.get?_put, ho]
  split
  · rfl
  · next hne => exact h.same key (hkey.resolve_right hne)

end Json

namespace Outcome

/-- The same output, and issues at the same places. -/
structure SameSpots (o o' : Outcome) : Prop where
  output : o.output = o'.output
  spots : o.issues.map Issue.spot = o'.issues.map Issue.spot

variable {o o' : Outcome}

theorem SameSpots.refl (o : Outcome) : o.SameSpots o := ⟨rfl, rfl⟩

theorem SameSpots.accepted (h : o.SameSpots o') : o.accepted = o'.accepted := by
  have hlength := congrArg List.isEmpty h.spots
  simpa [Outcome.accepted] using hlength

end Outcome

namespace Verdict

theorem agree_of_sameSpots {channel : Channel} {label : String} {x y : Option Outcome}
    (h : Option.Rel Outcome.SameSpots x y) :
    Agree Report.SameSpots (ofOutcome channel label x) (ofOutcome channel label y) := by
  cases h with
  | none => exact .endless
  | @some o o' h =>
    cases haccepted : o.accepted with
    | true =>
      rw [ofOutcome_accepted haccepted, ofOutcome_accepted (h.accepted ▸ haccepted), h.output]
      exact .accepted
    | false =>
      rw [ofOutcome_rejected haccepted, ofOutcome_rejected (h.accepted ▸ haccepted)]
      exact .rejected ⟨rfl, rfl, h.spots⟩

end Verdict

namespace Cache

variable {c : Cache} {hops : Nat} {path : FieldPath} {text : String} {element : Validator}
  {low high : Option Nat} {rule : Rule}

/-- The rule that a rule comes to, through the names of types. -/
inductive Denotes (c : Cache) : Rule → Rule → Prop
  | self (rule : Rule) : Denotes c rule rule
  | named {name : TypeName} {validator : Validator} {rule : Rule} :
      c.get? name = some validator → Denotes c validator.rule rule → Denotes c (.named name) rule

/-- The rule is that of an object, one of whose fields has the rule of an array. -/
def HasListField (c : Cache) (rule : Rule) (name : String) : Prop :=
  ∃ fields, c.Denotes rule (.object fields) ∧ name ∈ Table.keys fields ∧
    ∀ field, (name, field) ∈ fields →
      ∃ element low high, c.Denotes field.rule (.array element low high)

/-- The rule that a rule comes to through at most so many names. -/
def follow (c : Cache) : Nat → Rule → Option Rule
  | hops + 1, .named name => (c.get? name).bind fun validator => c.follow hops validator.rule
  | 0, .named _ => none
  | _, rule => some rule

/-- Whether the rule is seen to be that of an object with a field that is a list. -/
def showsListField (c : Cache) (rule : Rule) (name : String) : Bool :=
  match c.follow c.size rule with
  | some (.object fields) =>
    (Table.keys fields).contains name && fields.all fun entry => entry.1 != name ||
      match c.follow c.size entry.2.rule with
      | some (.array _ _ _) => true
      | _ => false
  | _ => false

theorem denotes_of_follow {found : Rule} (h : c.follow hops rule = some found) :
    c.Denotes rule found := by
  induction hops generalizing rule with
  | zero =>
    cases rule with
    | named => cases h
    | _ => cases h; exact .self _
  | succ hops ih =>
    cases rule with
    | named name =>
      obtain ⟨validator, hget, h⟩ := Option.bind_eq_some_iff.mp h
      exact .named hget (ih h)
    | _ => cases h; exact .self _

theorem hasListField_of_shows {name : String} (h : c.showsListField rule name = true) :
    c.HasListField rule name := by
  unfold showsListField at h
  split at h
  · next fields hfields =>
    obtain ⟨hname, hall⟩ := (Bool.and_eq_true _ _).mp h
    refine ⟨fields, denotes_of_follow hfields, List.contains_iff_mem.mp hname, fun field hfield => ?_⟩
    have hentry := List.all_eq_true.mp hall _ hfield
    simp only [bne_self_eq_false, Bool.false_or] at hentry
    split at hentry
    · next element low high hfound => exact ⟨element, low, high, denotes_of_follow hfound⟩
    · cases hentry
  · cases h

theorem brokenCounts_spots (low high : Option Nat) (count : Nat) (path : FieldPath) (v w : Json) :
    (Check.brokenCounts low high count path v).map Issue.spot =
      (Check.brokenCounts low high count path w).map Issue.spot := by
  have hfew (condition : Prop) [Decidable condition] (code : Reason) (expected message : String) :
      (if condition then [Issue.broken path code expected v message] else []).map Issue.spot =
        (if condition then [Issue.broken path code expected w message] else []).map Issue.spot := by
    split <;> rfl
  unfold Check.brokenCounts
  rw [List.map_append, List.map_append]
  congr 1
  · cases low with
    | none => rfl
    | some n => exact hfew _ _ _ _
  · cases high with
    | none => rfl
    | some n => exact hfew _ _ _ _

/-- On a string channel an array rule sees a text as the list of that text. -/
theorem check_array_text (hop : Hop Option) :
    Option.Rel Outcome.SameSpots
      ((Rule.array element low high).check hop true path (.str text))
      ((Rule.array element low high).check hop true path (.arr [.str text])) := by
  have hitems : Check.items? true (.str text) = some [.str text] := rfl
  have hlist : Check.items? true (.arr [.str text]) = some [.str text] := rfl
  rw [Rule.check, Rule.check, hitems, hlist]
  dsimp only
  cases Check.elements (fun path item => element.apply hop true path (some item)) path 0
      [.str text] with
  | none => exact .none
  | some outcomes =>
    refine .some ⟨rfl, ?_⟩
    change List.map _ (_ ++ _) = List.map _ (_ ++ _)
    rw [List.map_append, List.map_append, brokenCounts_spots]

theorem Denotes.check_text (h : c.Denotes rule (.array element low high)) :
    Option.Rel Outcome.SameSpots (rule.check (c.hop true hops) true path (.str text))
      (rule.check (c.hop true hops) true path (.arr [.str text])) := by
  generalize harray : Rule.array element low high = array at h
  induction h generalizing hops with
  | self =>
    subst harray
    exact check_array_text _
  | @named name validator rule hget _ ih =>
    cases hops with
    | zero => exact .none
    | succ hops =>
      change Option.Rel _ (c.hop true (hops + 1) name path _) (c.hop true (hops + 1) name path _)
      rw [hop_of_cached hget, hop_of_cached hget]
      exact ih harray

theorem Denotes.apply_text {validator : Validator}
    (h : c.Denotes validator.rule (.array element low high)) (htext : text ≠ "undefined") :
    Option.Rel Outcome.SameSpots
      (validator.apply (c.hop true hops) true path (some (.str text)))
      (validator.apply (c.hop true hops) true path (some (.arr [.str text]))) := by
  obtain ⟨required, nullable, rule⟩ := validator
  rw [Validator.apply_of_counts (Json.counts_str_iff.mpr fun _ => htext),
    Validator.apply_of_counts (v := .arr [.str text]) (Json.counts_of_kind nofun nofun)]
  exact h.check_text

section Fields

variable {name : String} {given given' output output' : List (String × Json)}
  {fields : List (String × Validator)} {hop : Hop Option} {good : String → Prop}

/-- Two checks of all fields end alike: their objects agree under the keys, their issues in place. -/
def EndAlike (good : String → Prop) :
    Option (List (String × Json) × List Issue) → Option (List (String × Json) × List Issue) → Prop :=
  Option.Rel fun result result' =>
    Json.AgreeOn good result.1 result'.1 ∧ result.2.map Issue.spot = result'.2.map Issue.spot

/--
If every field comes to the same in both objects, so do the objects, as far as they agreed before
and under the names of the fields.
-/
theorem checkFields_sameSpots
    (hfields : ∀ entry ∈ fields, Option.Rel Outcome.SameSpots
      (entry.2.apply hop true (path.push (.key entry.1)) (Table.get? entry.1 given))
      (entry.2.apply hop true (path.push (.key entry.1)) (Table.get? entry.1 given')))
    (houtput : Json.AgreeOn good output output') :
    EndAlike (fun key => good key ∨ key ∈ Table.keys fields)
      (Rule.checkFields hop true fields path given output)
      (Rule.checkFields hop true fields path given' output') := by
  induction fields generalizing good output output' with
  | nil =>
    refine .some ⟨⟨houtput.ordered, houtput.ordered', fun key hkey => ?_⟩, rfl⟩
    exact houtput.same key (hkey.resolve_right List.not_mem_nil)
  | cons entry rest ih =>
    obtain ⟨name, field⟩ := entry
    obtain ⟨hfield, hrest⟩ := List.forall_mem_cons.mp hfields
    rw [Rule.checkFields, Rule.checkFields]
    generalize field.apply hop true (path.push (.key name)) (Table.get? name given) = x at hfield ⊢
    generalize field.apply hop true (path.push (.key name)) (Table.get? name given') = y at hfield ⊢
    cases hfield with
    | none => exact .none
    | @some o o' ho =>
      have hmore := ih hrest (houtput.put ho.output name)
      change EndAlike _ (Option.bind (Rule.checkFields _ _ _ _ _ (Check.put name o output)) _)
        (Option.bind (Rule.checkFields _ _ _ _ _ (Check.put name o' output')) _)
      generalize Rule.checkFields hop true rest path given (Check.put name o output) = x at hmore ⊢
      generalize Rule.checkFields hop true rest path given' (Check.put name o' output') = y
        at hmore ⊢
      cases hmore with
      | none => exact .none
      | some h =>
        refine .some ⟨⟨h.1.ordered, h.1.ordered', fun key hkey => h.1.same key ?_⟩, ?_⟩
        · simpa [Table.keys, or_assoc] using hkey
        · change List.map _ (_ ++ _) = List.map _ (_ ++ _)
          rw [List.map_append, List.map_append, ho.spots, h.2]

/-- Two objects that differ under one name, where one has a text and the other its list. -/
structure Unlisted (name : String) (given given' : List (String × Json)) : Prop where
  agree : Json.AgreeOn (· ≠ name) given given'
  own : ∃ text, text ≠ "undefined" ∧ Table.get? name given = some (.str text) ∧
    Table.get? name given' = some (.arr [.str text])

/-- Where the name is that of a list, such objects are checked alike. -/
theorem Denotes.check_unlisted {rule : Rule} (h : c.Denotes rule (.object fields))
    (hgiven : Unlisted name given given') (hname : name ∈ Table.keys fields)
    (hlist : ∀ field, (name, field) ∈ fields →
      ∃ element low high, c.Denotes field.rule (.array element low high)) :
    Option.Rel Outcome.SameSpots (rule.check (c.hop true hops) true path (.obj given))
      (rule.check (c.hop true hops) true path (.obj given')) := by
  generalize hobject : Rule.object fields = object at h
  induction h generalizing hops with
  | self =>
    subst hobject
    have hfields : ∀ entry ∈ fields, Option.Rel Outcome.SameSpots
        (entry.2.apply (c.hop true hops) true (path.push (.key entry.1))
          (Table.get? entry.1 given))
        (entry.2.apply (c.hop true hops) true (path.push (.key entry.1))
          (Table.get? entry.1 given')) := by
      rintro ⟨key, field⟩ hentry
      by_cases hkey : key = name
      · subst hkey
        obtain ⟨text, htext, hown, hown'⟩ := hgiven.own
        obtain ⟨element, low, high, hdenotes⟩ := hlist field hentry
        rw [hown, hown']
        exact hdenotes.apply_text htext
      · rw [hgiven.agree.same key hkey]
        cases field.apply (c.hop true hops) true (path.push (.key key)) (Table.get? key given') with
        | none => exact .none
        | some o => exact .some (.refl o)
    have hends := checkFields_sameSpots hfields hgiven.agree
    rw [Rule.check, Rule.check]
    change Option.Rel _ (Option.bind (Rule.checkFields _ _ _ _ given given) _)
      (Option.bind (Rule.checkFields _ _ _ _ given' given') _)
    generalize Rule.checkFields (c.hop true hops) true fields path given given = x at hends ⊢
    generalize Rule.checkFields (c.hop true hops) true fields path given' given' = y at hends ⊢
    cases hends with
    | none => exact .none
    | some hresult =>
      obtain ⟨hagree, hspots⟩ := hresult
      have hall : ∀ key, key ≠ name ∨ key ∈ Table.keys fields := by
        intro key
        by_cases hkey : key = name
        · exact Or.inr (hkey ▸ hname)
        · exact Or.inl hkey
      exact .some ⟨congrArg (some ∘ Json.obj) (hagree.eq hall), hspots⟩
  | @named callee validator rule hget _ ih =>
    cases hops with
    | zero => exact .none
    | succ hops =>
      change Option.Rel _ (c.hop true (hops + 1) callee path _) (c.hop true (hops + 1) callee path _)
      rw [hop_of_cached hget, hop_of_cached hget]
      exact ih hobject

theorem outcome_unlisted {validator : Validator} (h : c.HasListField validator.rule name)
    (hgiven : Unlisted name given given') :
    Option.Rel Outcome.SameSpots (c.outcome? validator true (.obj given))
      (c.outcome? validator true (.obj given')) := by
  obtain ⟨fields, hobject, hname, hlist⟩ := h
  let hops := max (c.hopLimit (.obj given)) (c.hopLimit (.obj given'))
  unfold outcome?
  rw [← apply_hops validator (Nat.le_max_left _ _ : c.hopLimit (.obj given) ≤ hops),
    ← apply_hops validator (Nat.le_max_right _ _ : c.hopLimit (.obj given') ≤ hops)]
  obtain ⟨required, nullable, rule⟩ := validator
  rw [Validator.apply_of_counts (v := .obj given) (Json.counts_of_kind nofun nofun),
    Validator.apply_of_counts (v := .obj given') (Json.counts_of_kind nofun nofun)]
  exact hobject.check_unlisted hgiven hname hlist

end Fields

end Cache

namespace Session

variable {store : Store} {calls : List Call} {target : Target} {validator : Validator} {t : Session}
  {name : String} {texts : List String} {others : List (List Char × String)} {query query' : String}

/--
A name without an opening bracket may be given its texts in either spelling: validated as an object
whose field of that name is a list, both come to the same value, or to issues at the same places.
-/
theorem spellings_agree
    (hfor : (after store calls).validatorFor target (locationOf .query) = (.ok validator, t))
    (hfield : t.cache.HasListField validator.rule name)
    (hname : name.toList ≠ []) (hopens : '[' ∉ name.toList)
    (htexts : texts ≠ []) (hdefined : "undefined" ∉ texts)
    (hrepeated : Query.Spells name [] texts others query)
    (hlisted : Query.Spells name ['[', ']'] texts others query') :
    Verdict.Agree Report.SameSpots
      ((after store calls).validate (Query.read query) target .query).1
      ((after store calls).validate (Query.read query') target .query).1 := by
  rw [validate_of_validatorFor hfor, validate_of_validatorFor hfor, Query.read_eq, Query.read_eq]
  have hagree : Json.AgreeOn (· ≠ name) (Query.fieldsOf query) (Query.fieldsOf query') :=
    ⟨Query.fieldsOf_ordered query, Query.fieldsOf_ordered query',
      fun key hkey => hrepeated.elsewhere hlisted hkey⟩
  have hheld := hrepeated.repeated hname hopens htexts
  have hheld' := hlisted.listed hname hopens htexts
  by_cases hone : ∃ text, texts = [text]
  · obtain ⟨text, rfl⟩ := hone
    have htext : text ≠ "undefined" := fun heq => hdefined (List.mem_singleton.mpr heq.symm)
    exact Verdict.agree_of_sameSpots (outcome_unlisted hfield ⟨hagree, text, htext, hheld, hheld'⟩)
  · -- more than one text makes a list in either spelling
    have hsame : Query.fieldsOf query = Query.fieldsOf query' := by
      refine hagree.ordered.ext hagree.ordered' fun key => ?_
      by_cases hkey : key = name
      · rw [hkey, hheld, hheld']
        cases texts with
        | nil => exact absurd rfl htexts
        | cons text rest =>
          cases rest with
          | nil => exact absurd ⟨text, rfl⟩ hone
          | cons next more => rfl
      · exact hagree.same key hkey
    rw [hsame]
    exact Verdict.Agree.refl (fun _ => ⟨rfl, rfl, rfl⟩) _

/-- The name of a list of integers. -/
def idsName : TypeName := ⟨"Ids", by decide⟩

/-- The name of an object with one field. -/
def listingName : TypeName := ⟨"UserListQuery", by decide⟩

/-- An object that requires a field, and whose fields are lists of integers by their type. -/
def listingDefinition (fields : List String) (required : String) : Definition where
  keywords := { kinds := some (.one "object"), required := some (.names [required]) }
  properties := some
    (fields.map fun field => (field, plainDefinition { reference := some idsName.toReference }))

def listingStore (fields : List String) (required : String) : Store where
  document :=
    { definitions :=
        [(idsName,
            { keywords := { kinds := some (.one "array") }, items := some integerDefinition }),
          (listingName, listingDefinition fields required)],
      operations := Operations.empty }
  fields := FieldTable.empty
  exclusions := Exclusions.empty

/-- A session over an object with such fields. -/
def listingSession (fields : List String) (required : String) : Session :=
  after (listingStore fields required) []

/-- What the object compiles to has the list, if it shows. -/
theorem exists_listing (fields : List String) (required field : String)
    (h : (match (listingSession fields required).validatorFor (.named listingName)
        (locationOf .query) with
      | (.ok validator, t) => t.cache.showsListField validator.rule field
      | _ => false) = true) :
    ∃ validator t, (listingSession fields required).validatorFor (.named listingName)
        (locationOf .query) = (.ok validator, t) ∧ t.cache.HasListField validator.rule field := by
  split at h
  · next validator t hfor => exact ⟨validator, t, hfor, hasListField_of_shows h⟩
  · cases h

/-- A single id with its list around it or without; the list is a type of its own. -/
theorem ids_spelled_alike : ∃ validator t,
    (after (listingStore ["ids"] "ids") []).validatorFor (.named listingName) (locationOf .query) =
      (.ok validator, t) ∧
    t.cache.HasListField validator.rule "ids" ∧
    Query.Spells "ids" [] ["7"] [("page".toList, "2")] "page=2&ids=7" ∧
    Query.Spells "ids" ['[', ']'] ["7"] [("page".toList, "2")] "ids%5B%5D=7&page=2" ∧
    Verdict.Agree Report.SameSpots
      ((after (listingStore ["ids"] "ids") []).validate (Query.read "page=2&ids=7")
        (.named listingName) .query).1
      ((after (listingStore ["ids"] "ids") []).validate (Query.read "ids%5B%5D=7&page=2")
        (.named listingName) .query).1 := by
  have hrepeated : Query.Spells "ids" [] ["7"] [("page".toList, "2")] "page=2&ids=7" :=
    ⟨by decide +kernel, by decide +kernel⟩
  have hlisted : Query.Spells "ids" ['[', ']'] ["7"] [("page".toList, "2")] "ids%5B%5D=7&page=2" :=
    ⟨by decide +kernel, by decide +kernel⟩
  obtain ⟨validator, t, hfor, hfield⟩ := exists_listing ["ids"] "ids" "ids" (by decide +kernel)
  exact ⟨validator, t, hfor, hfield, hrepeated, hlisted, spellings_agree hfor hfield (by decide)
    (by decide) (by decide) (by decide) hrepeated hlisted⟩

/--
A bracket in the name of the list, or no name at all, tells the spellings apart: the brackets
behind it lead elsewhere.
-/
theorem bracketed_name_told_apart :
    ((∃ validator t, (listingSession ["a[b"] "a[b").validatorFor (.named listingName)
          (locationOf .query) = (.ok validator, t) ∧ t.cache.HasListField validator.rule "a[b") ∧
      Query.pairs "a%5Bb=7" = [("a[b".toList, "7")] ∧
      Query.pairs "a%5Bb%5B%5D=7" = [("a[b".toList ++ ['[', ']'], "7")] ∧
      ¬ Verdict.Agree Report.SameSpots
        ((listingSession ["a[b"] "a[b").validate (Query.read "a%5Bb=7") (.named listingName)
          .query).1
        ((listingSession ["a[b"] "a[b").validate (Query.read "a%5Bb%5B%5D=7") (.named listingName)
          .query).1) ∧
    ((∃ validator t, (listingSession ["", "[]"] "[]").validatorFor (.named listingName)
          (locationOf .query) = (.ok validator, t) ∧ t.cache.HasListField validator.rule "") ∧
      Query.pairs "=7" = [([], "7")] ∧
      Query.pairs "%5B%5D=7" = [([] ++ ['[', ']'], "7")] ∧
      ¬ Verdict.Agree Report.SameSpots
        ((listingSession ["", "[]"] "[]").validate (Query.read "=7") (.named listingName) .query).1
        ((listingSession ["", "[]"] "[]").validate (Query.read "%5B%5D=7") (.named listingName)
          .query).1) := by
  refine ⟨⟨exists_listing _ _ "a[b" (by decide +kernel), by decide +kernel, by decide +kernel,
      fun hagree => ?bracketed⟩,
    ⟨exists_listing _ _ "" (by decide +kernel), by decide +kernel, by decide +kernel,
      fun hagree => ?unnamed⟩⟩
  case bracketed => exact absurd hagree.isAccepted_eq (by decide +kernel)
  case unnamed => exact absurd hagree.isAccepted_eq (by decide +kernel)

end Session

end Conform
