import Conform.Proofs.Descent
import Conform.Proofs.Ending
import Conform.Proofs.Placement

/-!
# Siblings

The fields of an object and the items of an array are checked one after
another, with one list of issues and one output. Each of them still has its own
outcome, which nothing around it changes: the issues at its place and below it,
and what stands there in the output, are those of its own check.
-/

namespace Conform

open Cache Relation

/-- The issue stands at the path or below it. -/
def Issue.Under (path : FieldPath) (issue : Issue) : Prop :=
  path.segments <+: issue.path.segments

instance (path : FieldPath) (issue : Issue) : Decidable (issue.Under path) :=
  inferInstanceAs (Decidable (_ <+: _))

namespace Outcome

/-- The issues at a path and below it. -/
def issuesUnder (o : Outcome) (path : FieldPath) : List Issue :=
  o.issues.filter fun issue => issue.Under path

/-- What the outcome keeps behind a step down. -/
def kept? (o : Outcome) (segment : Segment) : Option Json :=
  match o.output, segment with
  | some (.obj fields), .key name => Table.get? name fields
  | some (.arr items), .index i => items[i]?
  | _, _ => none

end Outcome

section Apart

variable (c : Cache) (encoded : Bool)

/-- What becomes of a field of an object, and what is complained of there, is up to that field. -/
structure Rule.FieldsApart (fields : List (String × Validator)) : Prop where
  /-- Objects that agree on a field, declared or not, agree on what comes of it. -/
  alike : ∀ {path given given' o o' name},
    (Rule.object fields).EndsWith c encoded path (.obj given) o →
    (Rule.object fields).EndsWith c encoded path (.obj given') o' →
    Table.get? name given = Table.get? name given' →
      o.issuesUnder (path.push (.key name)) = o'.issuesUnder (path.push (.key name)) ∧
        o.kept? (.key name) = o'.kept? (.key name)
  /-- A missing field is complained of just once if it is required, and else not at all. -/
  missing : ∀ {path given o name field},
    (Rule.object fields).EndsWith c encoded path (.obj given) o → (name, field) ∈ fields →
    Check.present encoded (Table.get? name given) = none →
      o.issuesUnder (path.push (.key name)) = if field.required then
        [Issue.mismatch (path.push (.key name)) .required field.rule.expected none] else []
  accepts : ∀ {path given}, (Rule.object fields).Accepts c encoded path (.obj given) ↔
    ∀ entry ∈ fields,
      entry.2.Accepts c encoded (path.push (.key entry.1)) (Table.get? entry.1 given)

/-- The same of the items that an array rule sees. -/
structure Rule.ItemsApart (element : Validator) (low high : Option Nat) : Prop where
  alike : ∀ {path v v' items items' o o' i},
    Check.items? encoded v = some items → Check.items? encoded v' = some items' →
    (Rule.array element low high).EndsWith c encoded path v o →
    (Rule.array element low high).EndsWith c encoded path v' o' → items[i]? = items'[i]? →
      o.issuesUnder (path.push (.index i)) = o'.issuesUnder (path.push (.index i)) ∧
        o.kept? (.index i) = o'.kept? (.index i)
  accepts : ∀ {path v items}, Check.items? encoded v = some items →
    ((Rule.array element low high).Accepts c encoded path v ↔
      (∀ i item, items[i]? = some item →
        element.Accepts c encoded (path.push (.index i)) (some item)) ∧
      (∀ n ∈ low, n ≤ items.length) ∧ ∀ n ∈ high, items.length ≤ n)

end Apart

section Parts

variable {α : Type} {path : FieldPath} {segment : Segment} {issue : Issue} {place : α → Segment}
  {entries : List α} {outcomes : List Outcome} {R : α → Outcome → Prop}

theorem Issue.under_push_iff : issue.Under (path.push segment) ↔ issue.Behind path segment := by
  constructor
  · rintro ⟨rest, hrest⟩
    exact ⟨rest, by simp [← hrest]⟩
  · rintro ⟨rest, hrest⟩
    exact ⟨rest, by simp [hrest]⟩

/-- No issue stands behind two different steps. -/
theorem Issue.Behind.segment_eq {other : Segment} (h : issue.Behind path segment)
    (hother : issue.Behind path other) : segment = other := by
  by_contra hne
  exact h.differs hother hne ⟨rfl, rfl⟩

/-- The outcomes of the parts of a value complain of nothing behind a step to no part. -/
theorem issuesUnder_of_not_mem (h : List.Forall₂ R entries outcomes)
    (hbehind : ∀ e o, R e o → ∀ issue ∈ o.issues, issue.Behind path (place e))
    (hnot : segment ∉ entries.map place) :
    (outcomes.flatMap Outcome.issues).filter (fun issue => issue.Under (path.push segment)) =
      [] := by
  rw [List.filter_eq_nil_iff]
  intro issue hissue
  obtain ⟨o, ho, hissue⟩ := List.mem_flatMap.mp hissue
  obtain ⟨e, he, hR⟩ := exists_of_forall₂ h ho
  rw [decide_eq_true_eq, Issue.under_push_iff]
  intro hunder
  refine hnot (List.mem_map.mpr ⟨e, he, ?_⟩)
  exact (hbehind e o hR issue hissue).segment_eq hunder

/-- Of the outcomes of the parts, one has just the issues that stand behind the step to its part. -/
theorem exists_issuesUnder (h : List.Forall₂ R entries outcomes)
    (hbehind : ∀ e o, R e o → ∀ issue ∈ o.issues, issue.Behind path (place e))
    (hdistinct : (entries.map place).Nodup) {e : α} (he : e ∈ entries) :
    ∃ o, R e o ∧ (outcomes.flatMap Outcome.issues).filter
      (fun issue => issue.Under (path.push (place e))) = o.issues := by
  induction h with
  | nil => cases he
  | @cons first o entries outcomes hfirst hrest ih =>
    obtain ⟨hnew, hdistinct⟩ := List.nodup_cons.mp hdistinct
    rw [List.flatMap_cons, List.filter_append]
    rcases List.mem_cons.mp he with rfl | he
    · refine ⟨o, hfirst, ?_⟩
      have hown : o.issues.filter (fun issue => issue.Under (path.push (place e))) = o.issues := by
        rw [List.filter_eq_self]
        intro issue hissue
        rw [decide_eq_true_eq, Issue.under_push_iff]
        exact hbehind e o hfirst issue hissue
      rw [hown, issuesUnder_of_not_mem hrest hbehind hnew, List.append_nil]
    · obtain ⟨own, hR, hown⟩ := ih hdistinct he
      refine ⟨own, hR, ?_⟩
      have hother : place e ∉ [first].map place := by
        rw [List.map_singleton, List.mem_singleton]
        intro heq
        exact hnew (List.mem_map.mpr ⟨e, he, heq⟩)
      have hnone := issuesUnder_of_not_mem (.cons hfirst .nil) hbehind hother
      rw [List.flatMap_singleton] at hnone
      rw [hnone, hown, List.nil_append]

/-- Partners stand at the same index. -/
theorem exists_getElem?_of_forall₂ {β : Type} {R : α → β → Prop} {as : List α} {bs : List β}
    (h : List.Forall₂ R as bs) {i : Nat} {a : α} (ha : as[i]? = some a) :
    ∃ b, bs[i]? = some b ∧ R a b := by
  induction h generalizing i with
  | nil => cases ha
  | @cons a' b as bs hhead _ ih =>
    cases i with
    | zero =>
      cases ha
      exact ⟨b, rfl, hhead⟩
    | succ i =>
      rw [List.getElem?_cons_succ] at ha ⊢
      exact ih ha

/-- Parts have outcomes that are all accepted just if each part has one. -/
theorem exists_outcomes_iff : (∃ outcomes, List.Forall₂ R entries outcomes ∧
      ∀ o ∈ outcomes, o.accepted = true) ↔ ∀ e ∈ entries, ∃ o, R e o ∧ o.accepted = true := by
  constructor
  · rintro ⟨outcomes, h, haccepted⟩ e he
    obtain ⟨o, ho, hR⟩ := exists_of_forall₂ h.flip he
    exact ⟨o, hR, haccepted o ho⟩
  · intro h
    obtain ⟨outcomes, houtcomes⟩ := exists_forall₂ h
    refine ⟨outcomes, houtcomes.imp fun _ _ hboth => hboth.1, fun o ho => ?_⟩
    obtain ⟨e, -, -, haccepted⟩ := exists_of_forall₂ houtcomes ho
    exact haccepted

end Parts

section Checking

variable {c : Cache} {encoded : Bool} {path : FieldPath} {segment : Segment} {o : Outcome}

/-- The issues of a part stand behind the step to it. -/
theorem Validator.EndsWith.behind {validator : Validator} {found : Option Json}
    (h : validator.EndsWith c encoded (path.push segment) found o) :
    ∀ issue ∈ o.issues, issue.Behind path segment := by
  obtain ⟨hops, h⟩ := h
  have hhop : Hop.ChecksBelow encoded False (c.hop encoded hops) := hop_below nofun hops
  have hbelow := Validator.apply_below (Rule.check_below hhop validator.rule nofun) h
  exact fun issue hissue => (hbelow.shows issue hissue).behind

section Objects

variable {fields : List (String × Validator)} {given : List (String × Json)} {name : String}
  {field : Validator}

/-- Whether the rule checks a value field by field. -/
def Rule.isObject : Rule → Bool
  | .object _ => true
  | _ => false

theorem Rule.exists_fields {rule : Rule} (h : rule.isObject = true) :
    ∃ fields, rule = .object fields := by
  cases rule with
  | object fields => exact ⟨fields, rfl⟩
  | _ => cases h

theorem Rule.nodup_places (hdistinct : (Table.keys fields).Nodup) :
    (fields.map fun entry => Segment.key entry.1).Nodup := by
  have hnodup := hdistinct.map (f := Segment.key) fun _ _ => Segment.key.inj
  rwa [Table.keys, List.map_map] at hnodup

/-- A declared field has an outcome of its own, and that is what the object shows of it. -/
theorem Rule.EndsWith.declared (hdistinct : (Table.keys fields).Nodup)
    (h : (Rule.object fields).EndsWith c encoded path (.obj given) o)
    (hmem : (name, field) ∈ fields) :
    ∃ own, field.EndsWith c encoded (path.push (.key name)) (Table.get? name given) own ∧
      o.issuesUnder (path.push (.key name)) = own.issues ∧ o.kept? (.key name) = own.output := by
  obtain ⟨outcomes, hchecked, heq⟩ := Rule.endsWith_object.mp h
  obtain ⟨own, hown, hissues⟩ := exists_issuesUnder hchecked
    (fun entry o (ho : entry.2.EndsWith _ _ _ _ _) => ho.behind) (Rule.nodup_places hdistinct) hmem
  refine ⟨own, hown, ?_, ?_⟩
  · rw [heq]
    exact hissues
  · obtain ⟨hops, h⟩ := h
    rcases Rule.check_object_cases h with ⟨given, output, _, ⟨⟩, rfl, -, hkeys⟩ | rfl
    · obtain ⟨own', -, hown', houtput⟩ :=
        (hkeys name).2 field (Table.get?_ofList_of_mem hdistinct hmem)
      rw [hown.unique ⟨hops, hown'⟩]
      exact houtput
    · cases heq

/-- What is not declared is kept, and not complained of. -/
theorem Rule.EndsWith.undeclared
    (h : (Rule.object fields).EndsWith c encoded path (.obj given) o)
    (hnot : name ∉ Table.keys fields) :
    o.issuesUnder (path.push (.key name)) = [] ∧ o.kept? (.key name) = Table.get? name given := by
  obtain ⟨outcomes, hchecked, heq⟩ := Rule.endsWith_object.mp h
  constructor
  · have hplace : Segment.key name ∉ fields.map fun entry => Segment.key entry.1 := by
      intro hmem
      obtain ⟨entry, hentry, hkey⟩ := List.mem_map.mp hmem
      cases hkey
      exact hnot (List.mem_map_of_mem hentry)
    rw [heq]
    exact issuesUnder_of_not_mem hchecked
      (fun entry o (ho : entry.2.EndsWith _ _ _ _ _) => ho.behind) hplace
  · obtain ⟨hops, h⟩ := h
    rcases Rule.check_object_cases h with ⟨given, output, _, ⟨⟩, rfl, -, hkeys⟩ | rfl
    · exact (hkeys name).1 (Table.get?_ofList_eq_none_iff.mpr hnot)
    · cases heq

theorem Rule.fieldsApart (hdistinct : (Table.keys fields).Nodup) :
    Rule.FieldsApart c encoded fields where
  alike := by
    intro path given given' o o' name h h' hget
    by_cases hmem : name ∈ Table.keys fields
    · obtain ⟨⟨_, field⟩, hentry, rfl⟩ := List.mem_map.mp hmem
      obtain ⟨own, hown, hissues, hkept⟩ := h.declared hdistinct hentry
      obtain ⟨own', hown', hissues', hkept'⟩ := h'.declared hdistinct hentry
      dsimp only at hget
      rw [← hget] at hown'
      cases hown.unique hown'
      exact ⟨hissues.trans hissues'.symm, hkept.trans hkept'.symm⟩
    · obtain ⟨hissues, hkept⟩ := h.undeclared hmem
      obtain ⟨hissues', hkept'⟩ := h'.undeclared hmem
      exact ⟨hissues.trans hissues'.symm, by rw [hkept, hkept', hget]⟩
  missing := by
    intro path given o name field h hmem habsent
    obtain ⟨own, hown, hissues, -⟩ := h.declared hdistinct hmem
    rw [hissues, (Validator.endsWith_of_absent habsent).mp hown, Check.missing]
    cases field.required <;> rfl
  accepts := by
    intro path given
    refine Iff.trans ?_ exists_outcomes_iff
    constructor
    · rintro ⟨o, h, haccepted⟩
      obtain ⟨outcomes, hchecked, rfl⟩ := Rule.endsWith_object.mp h
      exact ⟨outcomes, hchecked, Outcome.all_accepted_iff.mp haccepted⟩
    · rintro ⟨outcomes, hchecked, hclean⟩
      exact ⟨_, Rule.endsWith_object.mpr ⟨outcomes, hchecked, rfl⟩,
        Outcome.all_accepted_iff.mpr hclean⟩

end Objects

section Arrays

variable {element : Validator} {low high : Option Nat} {v item : Json} {items : List Json} {i : Nat}

/-- The outcomes of items stand at the places of the items. -/
theorem Rule.EndsWith.gathered (hitems : Check.items? encoded v = some items)
    (h : (Rule.array element low high).EndsWith c encoded path v o) :
    ∃ outcomes, List.Forall₂ (fun entry o => element.EndsWith c encoded
        (path.push (.index entry.2)) (some entry.1) o) items.zipIdx outcomes ∧
      o.output = some (.arr (outcomes.map fun o => .orNull o.output)) ∧
      ∀ i, o.issuesUnder (path.push (.index i)) = (outcomes.flatMap Outcome.issues).filter
        fun issue => issue.Under (path.push (.index i)) := by
  obtain ⟨outcomes, hchecked, rfl⟩ := (Rule.endsWith_array hitems).mp h
  refine ⟨outcomes, hchecked, rfl, fun i => ?_⟩
  have hcounts : (Check.brokenCounts low high items.length path v).filter
      (fun issue => issue.Under (path.push (.index i))) = [] := by
    rw [List.filter_eq_nil_iff]
    intro issue hissue
    rw [decide_eq_true_eq, Issue.under_push_iff]
    exact fun hbehind => hbehind.path_ne ((Check.brokenCounts_here low high _).place issue hissue)
  rw [Outcome.issuesUnder, Check.gather, List.filter_append, hcounts, List.nil_append]

/-- An item has an outcome of its own, and that is what the array shows of it. -/
theorem Rule.EndsWith.at_index (hitems : Check.items? encoded v = some items)
    (h : (Rule.array element low high).EndsWith c encoded path v o) (hitem : items[i]? = some item) :
    ∃ own, element.EndsWith c encoded (path.push (.index i)) (some item) own ∧
      o.issuesUnder (path.push (.index i)) = own.issues ∧
      o.kept? (.index i) = some (.orNull own.output) := by
  obtain ⟨outcomes, hchecked, houtput, hissues⟩ := h.gathered hitems
  have hdistinct : (items.zipIdx.map fun entry => Segment.index entry.2).Nodup := by
    have hnodup := (List.nodup_range' (s := 0) (n := items.length)).map (f := Segment.index)
      fun _ _ => Segment.index.inj
    rwa [← List.zipIdx_map_snd, List.map_map] at hnodup
  have hentry : items.zipIdx[i]? = some (item, i) := by simp [List.getElem?_zipIdx, hitem]
  obtain ⟨own, hown, hunder⟩ := exists_issuesUnder hchecked
    (fun entry o (ho : element.EndsWith _ _ _ _ _) => ho.behind) hdistinct
    (List.mem_of_getElem? hentry)
  obtain ⟨own', hown', hends⟩ := exists_getElem?_of_forall₂ hchecked hentry
  cases hown.unique hends
  refine ⟨own, hown, (hissues i).trans hunder, ?_⟩
  simp [Outcome.kept?, houtput, hown']

/-- Nothing stands behind the last item. -/
theorem Rule.EndsWith.past_end (hitems : Check.items? encoded v = some items)
    (h : (Rule.array element low high).EndsWith c encoded path v o) (hend : items[i]? = none) :
    o.issuesUnder (path.push (.index i)) = [] ∧ o.kept? (.index i) = none := by
  obtain ⟨outcomes, hchecked, houtput, hissues⟩ := h.gathered hitems
  have hlength := hchecked.length_eq
  rw [List.length_zipIdx] at hlength
  have hle := List.getElem?_eq_none_iff.mp hend
  constructor
  · have hplace : Segment.index i ∉ items.zipIdx.map fun entry => Segment.index entry.2 := by
      intro hmem
      obtain ⟨entry, hentry, hindex⟩ := List.mem_map.mp hmem
      cases hindex
      have hfound := List.mem_zipIdx_iff_getElem?.mp hentry
      rw [hend] at hfound
      cases hfound
    rw [hissues]
    exact issuesUnder_of_not_mem hchecked
      (fun entry o (ho : element.EndsWith _ _ _ _ _) => ho.behind) hplace
  · simp [Outcome.kept?, houtput, hlength ▸ hle]

theorem Rule.itemsApart : Rule.ItemsApart c encoded element low high where
  alike := by
    intro path v v' items items' o o' i hitems hitems' h h' hget
    cases hitem : items[i]? with
    | none =>
      obtain ⟨hissues, hkept⟩ := h.past_end hitems hitem
      obtain ⟨hissues', hkept'⟩ := h'.past_end hitems' (hget ▸ hitem)
      exact ⟨hissues.trans hissues'.symm, hkept.trans hkept'.symm⟩
    | some item =>
      obtain ⟨own, hown, hissues, hkept⟩ := h.at_index hitems hitem
      obtain ⟨own', hown', hissues', hkept'⟩ := h'.at_index hitems' (hget ▸ hitem)
      cases hown.unique hown'
      exact ⟨hissues.trans hissues'.symm, hkept.trans hkept'.symm⟩
  accepts := by
    intro path v items hitems
    have hentries : (∀ entry ∈ items.zipIdx,
          element.Accepts c encoded (path.push (.index entry.2)) (some entry.1)) ↔
        ∀ i item, items[i]? = some item →
          element.Accepts c encoded (path.push (.index i)) (some item) := by
      constructor
      · exact fun h i item hitem => h (item, i) (List.mem_zipIdx_iff_getElem?.mpr hitem)
      · exact fun h entry hentry => h _ _ (List.mem_zipIdx_iff_getElem?.mp hentry)
    have hbroken : Check.brokenCounts low high items.length path v = [] ↔
        (∀ n ∈ low, n ≤ items.length) ∧ ∀ n ∈ high, items.length ≤ n :=
      Check.brokenCounts_eq_nil_iff
    rw [← hentries, ← hbroken]
    constructor
    · rintro ⟨o, h, haccepted⟩
      obtain ⟨outcomes, hchecked, rfl⟩ := (Rule.endsWith_array hitems).mp h
      obtain ⟨hcounts, hclean⟩ := Check.gather_accepted_iff.mp haccepted
      exact ⟨exists_outcomes_iff.mp ⟨outcomes, hchecked, hclean⟩, hcounts⟩
    · rintro ⟨haccepts, hcounts⟩
      obtain ⟨outcomes, hchecked, hclean⟩ := exists_outcomes_iff.mpr haccepts
      exact ⟨_, (Rule.endsWith_array hitems).mpr ⟨outcomes, hchecked, rfl⟩,
        Check.gather_accepted_iff.mpr ⟨hcounts, hclean⟩⟩

end Arrays

end Checking

namespace Session

variable {store : Store} {calls : List Call} {target : Target} {channel : Channel} {t : Session}
  {validator : Validator}

/--
After any calls: a verdict is what checking the value ends with, if it ends. Wherever such a check
comes to an object or an array, each field and each item is checked as if it were alone.
-/
theorem validate_siblings_apart (hstore : store.Ordered) (htarget : target.Ordered)
    (hfor : (after store calls).validatorFor target (locationOf channel) = (.ok validator, t)) :
    (∀ v, ∃ found,
      (∀ o, found = some o ↔
        validator.EndsWith t.cache channel.stringEncoded .root (some v) o) ∧
      ((after store calls).validate v target channel).1 =
        Verdict.ofOutcome channel target.label found) ∧
    ∀ rule, ReflTransGen (Rule.Leads t.cache) validator.rule rule →
      (∀ fields, rule = .object fields →
        Rule.FieldsApart t.cache channel.stringEncoded fields) ∧
      ∀ element low high, rule = .array element low high →
        Rule.ItemsApart t.cache channel.stringEncoded element low high := by
  obtain ⟨hcompiled, hcoherent⟩ := validatorFor_after hfor
  constructor
  · intro v
    refine ⟨t.cache.outcome? validator channel.stringEncoded v,
      fun o => Validator.endsWith_iff_outcome.symm, ?_⟩
    rw [validate_of_validatorFor hfor]
  · intro rule hreached
    have hdistinct : rule.All Rule.Distinct :=
      Rule.all_of_reached (hstore.distinct_of_coherent hcoherent)
        (Validator.all_rule
          (hstore.distinct_of_compileTarget htarget (after_coherent store calls) hcompiled))
        hreached
    constructor
    · rintro fields rfl
      exact Rule.fieldsApart hdistinct.1
    · rintro element low high rfl
      exact Rule.itemsApart

/-- Of a query, whether the counts are wrong or missing, the note is complained of alike. -/
theorem query_tally_siblings_apart :
    let verdict := fun given => ((after Store.empty []).validate (.obj given)
      (.inline tallyDefinition) .query).1
    ∃ o o', verdict [("counts", .str "many"), ("note", .arr [])] =
        Verdict.ofOutcome .query "inline schema" (some o) ∧
      verdict [("note", .arr [])] = Verdict.ofOutcome .query "inline schema" (some o') ∧
      o.issuesUnder ⟨[.key "note"]⟩ = o'.issuesUnder ⟨[.key "note"]⟩ := by
  intro verdict
  have hobject : ((after Store.empty []).validatorFor (.inline tallyDefinition)
      (locationOf .query)).1.toOption.any (fun validator => validator.rule.isObject) = true := by
    decide +kernel
  have hwrong : (verdict [("counts", .str "many"), ("note", .arr [])]).report?.isSome = true := by
    decide +kernel
  have hmissing : (verdict [("note", .arr [])]).report?.isSome = true := by decide +kernel
  cases hfor : (after Store.empty []).validatorFor (.inline tallyDefinition)
      (locationOf .query) with
  | mk answer t =>
    rw [hfor] at hobject
    cases answer with
    | error e => cases hobject
    | ok validator =>
      have hstore : Store.empty.Ordered := ⟨nofun, nofun⟩
      have htarget : (Target.inline tallyDefinition).Ordered := tallyDefinition_ordered
      obtain ⟨hverdict, hapart⟩ := validate_siblings_apart hstore htarget hfor
      obtain ⟨fields, hfields⟩ : ∃ fields, validator.rule = .object fields := by
        exact Rule.exists_fields hobject
      have hends : ∀ given, (verdict given).report?.isSome = true → ∃ o,
          (Rule.object fields).EndsWith t.cache true .root (.obj given) o ∧
            verdict given = Verdict.ofOutcome .query "inline schema" (some o) := by
        intro given hrejected
        obtain ⟨found, hfound, heq⟩ := hverdict (.obj given)
        cases found with
        | none =>
          have hendless : verdict given = .endless := heq
          rw [hendless] at hrejected
          cases hrejected
        | some o =>
          have hcounts : (Json.obj given).Counts Channel.query.stringEncoded :=
            Json.counts_of_kind nofun nofun
          have hends := (Validator.endsWith_of_counts hcounts).mp ((hfound o).mp rfl)
          rw [hfields] at hends
          exact ⟨o, hends, heq⟩
      obtain ⟨o, ho, hsaid⟩ := hends _ hwrong
      obtain ⟨o', ho', hsaid'⟩ := hends _ hmissing
      exact ⟨o, o', hsaid, hsaid',
        (((hapart _ .refl).1 fields hfields).alike ho ho' (by decide)).1⟩

end Session

end Conform
