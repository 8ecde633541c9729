import Conform.Proofs.Shape

/-!
# Where issues stand

Every issue of a report names a place of the checked value by its path, and
shows what is found there. No place is given the same code twice, since the
fields of an object have names of their own, the items of an array have
indices, and the constraints of a rule have codes.
-/

namespace Conform

open Cache

namespace Json

/--
What one step down from a value finds, if there is such a step; a key may find nothing. On a string
channel a scalar is its own first item.
-/
def step? (encoded : Bool) : Json → Segment → Option (Option Json)
  | .obj fields, .key name => some (Table.get? name fields)
  | .arr items, .index i => items[i]?.map some
  | v, .index 0 => if encoded && v.isScalar then some (some v) else none
  | _, _ => none

/-- What a path finds. There is no step down from nothing. -/
def at? (encoded : Bool) : Option Json → List Segment → Option (Option Json)
  | found, [] => some found
  | none, _ :: _ => none
  | some v, segment :: rest => (v.step? encoded segment).bind fun part => at? encoded part rest

variable {encoded : Bool} {v : Json} {segment : Segment} {part : Option Json}

theorem at?_nil (found : Option Json) : at? encoded found [] = some found := by
  rw [at?]

theorem at?_cons (h : v.step? encoded segment = some part) (rest : List Segment) :
    at? encoded (some v) (segment :: rest) = at? encoded part rest := by
  rw [at?, h, Option.bind_some]

/-- The items that an array rule sees are found at their indices. -/
theorem step?_items {items : List Json} (hv : v ≠ .null) (h : Check.items? encoded v = some items)
    {entry : Json × Nat} (hentry : entry ∈ items.zipIdx) :
    v.step? encoded (.index entry.2) = some (some entry.1) := by
  rcases Check.items?_cases hv h with rfl | ⟨rfl, hscalar, rfl⟩
  · rw [step?, List.mem_zipIdx_iff_getElem?.mp hentry, Option.map_some]
  · cases List.mem_singleton.mp hentry
    cases v with
    | bool _ => rfl
    | num _ => rfl
    | str _ => rfl
    | _ => cases hscalar

end Json

namespace Issue

/-- The issue stands in what is found at a path, and shows what is found where it stands. -/
def Shows (encoded : Bool) (path : FieldPath) (found : Option Json) (issue : Issue) : Prop :=
  ∃ rest part, issue.path.segments = path.segments ++ rest ∧
    Json.at? encoded found rest = some part ∧ issue.received = Conform.received part

/-- The issue stands below a path, behind a step down. -/
def Behind (path : FieldPath) (segment : Segment) (issue : Issue) : Prop :=
  ∃ rest, issue.path.segments = path.segments ++ segment :: rest

/-- The issues differ in their place or in their code. -/
def Differs (a b : Issue) : Prop := ¬ (a.path = b.path ∧ a.code = b.code)

variable {encoded : Bool} {path : FieldPath} {v : Json} {segment other : Segment}
  {part : Option Json} {a b : Issue}

theorem Shows.of_step (hstep : v.step? encoded segment = some part)
    (h : a.Shows encoded (path.push segment) part) : a.Shows encoded path (some v) := by
  obtain ⟨rest, shown, hpath, hat, hshown⟩ := h
  refine ⟨segment :: rest, shown, ?_, (Json.at?_cons hstep rest).trans hat, hshown⟩
  rw [hpath, FieldPath.segments_push, List.append_assoc, List.singleton_append]

theorem Shows.behind (h : a.Shows encoded (path.push segment) part) : a.Behind path segment := by
  obtain ⟨rest, -, hpath, -⟩ := h
  refine ⟨rest, ?_⟩
  rw [hpath, FieldPath.segments_push, List.append_assoc, List.singleton_append]

theorem Behind.path_ne (h : a.Behind path segment) : a.path ≠ path := by
  obtain ⟨rest, hpath⟩ := h
  intro heq
  rw [heq] at hpath
  exact List.cons_ne_nil _ _ (List.append_right_eq_self.mp hpath.symm)

theorem Behind.differs (ha : a.Behind path segment) (hb : b.Behind path other)
    (h : segment ≠ other) : a.Differs b := by
  obtain ⟨_, ha⟩ := ha
  obtain ⟨_, hb⟩ := hb
  rintro ⟨heq, -⟩
  rw [heq, hb] at ha
  exact h (List.cons.inj (List.append_cancel_left ha)).1.symm

end Issue

/-- Issues of one place, each with another of the codes. -/
structure IssuesHere (codes : List Reason) (path : FieldPath) (found : Option Json)
    (issues : List Issue) : Prop where
  place : ∀ issue ∈ issues, issue.path = path
  shown : ∀ issue ∈ issues, issue.received = received found
  codes : (issues.map Issue.code).Sublist codes

/-- Issues that stand in what is found at a path; if all is tidy, no two of them say the same. -/
structure IssuesBelow (encoded : Bool) (tidy : Prop) (path : FieldPath) (found : Option Json)
    (issues : List Issue) : Prop where
  shows : ∀ issue ∈ issues, issue.Shows encoded path found
  differ : tidy → issues.Pairwise Issue.Differs

section Lists

variable {encoded : Bool} {tidy : Prop} {path : FieldPath} {found : Option Json} {v : Json}
  {codes : List Reason} {issues more : List Issue}

namespace IssuesHere

theorem nil : IssuesHere codes path found [] := ⟨nofun, nofun, List.nil_sublist _⟩

theorem mismatch {shown : Option Json} (h : received shown = received found) (code : Reason)
    (expected : String) :
    IssuesHere [code] path found (Outcome.mismatch path code expected shown).issues where
  place := List.forall_mem_singleton.mpr rfl
  shown := List.forall_mem_singleton.mpr h
  codes := List.Sublist.refl _

/-- A constraint is broken or it is not. -/
theorem broken (condition : Prop) [Decidable condition] (code : Reason)
    (expected message : String) : IssuesHere [code] path (some v)
      (if condition then [Issue.broken path code expected v message] else []) := by
  split
  · exact ⟨List.forall_mem_singleton.mpr rfl, List.forall_mem_singleton.mpr rfl, .refl _⟩
  · exact nil

theorem append (codes others : List Reason) (h : IssuesHere codes path found issues)
    (hmore : IssuesHere others path found more) :
    IssuesHere (codes ++ others) path found (issues ++ more) where
  place := List.forall_mem_append.mpr ⟨h.place, hmore.place⟩
  shown := List.forall_mem_append.mpr ⟨h.shown, hmore.shown⟩
  codes := by
    rw [List.map_append]
    exact h.codes.append hmore.codes

theorem below (h : IssuesHere codes path found issues) (hcodes : codes.Nodup) :
    IssuesBelow encoded tidy path found issues where
  shows issue hissue := by
    refine ⟨[], found, ?_, Json.at?_nil found, h.shown issue hissue⟩
    rw [h.place issue hissue, List.append_nil]
  differ _ := (List.pairwise_map.mp (h.codes.nodup hcodes)).imp fun hne hsame => hne hsame.2

end IssuesHere

namespace IssuesBelow

theorem nil : IssuesBelow encoded tidy path found [] := ⟨nofun, fun _ => .nil⟩

theorem mismatch (code : Reason) (expected : String) :
    IssuesBelow encoded tidy path found (Outcome.mismatch path code expected found).issues :=
  (IssuesHere.mismatch rfl code expected).below (List.nodup_singleton code)

theorem append (h : IssuesBelow encoded tidy path found issues)
    (hmore : IssuesBelow encoded tidy path found more)
    (hdiffer : tidy → ∀ a ∈ issues, ∀ b ∈ more, a.Differs b) :
    IssuesBelow encoded tidy path found (issues ++ more) where
  shows := List.forall_mem_append.mpr ⟨h.shows, hmore.shows⟩
  differ htidy := List.pairwise_append.mpr ⟨h.differ htidy, hmore.differ htidy, hdiffer htidy⟩

end IssuesBelow

/-- A step down finds something, and the issues of the outcome stand in it. -/
def Json.StepPlaced (encoded : Bool) (tidy : Prop) (path : FieldPath) (v : Json) (segment : Segment)
    (o : Outcome) : Prop :=
  ∃ part, v.step? encoded segment = some part ∧
    IssuesBelow encoded tidy (path.push segment) part o.issues

theorem behind_of_mem_flatMap {segments : List Segment} {outcomes : List Outcome} {issue : Issue}
    (h : List.Forall₂ (v.StepPlaced encoded tidy path) segments outcomes)
    (hissue : issue ∈ outcomes.flatMap Outcome.issues) :
    ∃ segment ∈ segments, issue.Behind path segment := by
  obtain ⟨o, ho, hissue⟩ := List.mem_flatMap.mp hissue
  obtain ⟨segment, hsegment, part, -, hbelow⟩ := exists_of_forall₂ h ho
  exact ⟨segment, hsegment, (hbelow.shows issue hissue).behind⟩

/-- Issues behind different steps do not meet. -/
theorem IssuesBelow.flatMap {segments : List Segment} {outcomes : List Outcome}
    (h : List.Forall₂ (v.StepPlaced encoded tidy path) segments outcomes)
    (hdistinct : tidy → segments.Nodup) :
    IssuesBelow encoded tidy path (some v) (outcomes.flatMap Outcome.issues) := by
  induction h with
  | nil => exact .nil
  | cons hfirst hrest ih =>
    obtain ⟨part, hstep, hbelow⟩ := hfirst
    have hhere : IssuesBelow encoded tidy path (some v) _ :=
      ⟨fun issue hissue => (hbelow.shows issue hissue).of_step hstep, hbelow.differ⟩
    refine hhere.append (ih fun htidy => (List.nodup_cons.mp (hdistinct htidy)).2) ?_
    intro htidy a ha b hb
    obtain ⟨other, hother, hbehind⟩ := behind_of_mem_flatMap hrest hb
    refine (hbelow.shows a ha).behind.differs hbehind ?_
    rintro rfl
    exact (List.nodup_cons.mp (hdistinct htidy)).1 hother

end Lists

section Leaves

variable {encoded : Bool} {tidy : Prop} {path : FieldPath} {v : Json}

theorem StringRule.broken_here (r : StringRule) (text : String) :
    IssuesHere [.tooShort, .tooLong, .patternMismatch] path (some v) (r.broken path v text) := by
  obtain ⟨format, minLength, maxLength, pattern⟩ := r
  refine .append [.tooShort, .tooLong] [.patternMismatch]
    (.append [.tooShort] [.tooLong] ?short ?long) ?unmatched
  case short =>
    cases minLength with
    | none => exact .nil
    | some n => exact .broken _ _ _ _
  case long =>
    cases maxLength with
    | none => exact .nil
    | some n => exact .broken _ _ _ _
  case unmatched =>
    cases pattern with
    | none => exact .nil
    | some pattern =>
      dsimp only
      rw [← ite_not]
      exact .broken _ _ _ _

theorem NumberRule.broken_here (r : NumberRule) (x : Double) :
    IssuesHere [.tooSmall, .tooBig] path (some v) (r.broken path v x) := by
  obtain ⟨integer, minimum, maximum⟩ := r
  refine .append [.tooSmall] [.tooBig] ?small ?big
  case small =>
    cases minimum with
    | none => exact .nil
    | some low => exact .broken _ _ _ _
  case big =>
    cases maximum with
    | none => exact .nil
    | some high => exact .broken _ _ _ _

theorem Check.brokenCounts_here (low high : Option Nat) (count : Nat) :
    IssuesHere [.tooFewItems, .tooManyItems] path (some v)
      (brokenCounts low high count path v) := by
  refine .append [.tooFewItems] [.tooManyItems] ?few ?many
  case few =>
    cases low with
    | none => exact .nil
    | some n => exact .broken _ _ _ _
  case many =>
    cases high with
    | none => exact .nil
    | some n => exact .broken _ _ _ _

theorem StringRule.check_below (r : StringRule) :
    IssuesBelow encoded tidy path (some v) (r.check path v).issues := by
  rw [check]
  split
  · exact (r.broken_here _).below (by decide)
  · exact .mismatch _ _

theorem NumberRule.check_below (r : NumberRule) :
    IssuesBelow encoded tidy path (some v) (r.check path v).issues := by
  rw [check]
  split
  · exact (r.broken_here _).below (by decide)
  · exact .mismatch _ _

theorem Check.boolean_below :
    IssuesBelow encoded tidy path (some v) (Check.boolean path v).issues := by
  rw [Check.boolean]
  split
  · exact .nil
  · exact .mismatch _ _

theorem Check.enum_below (values : List String) :
    IssuesBelow encoded tidy path (some v) (Check.enum values path v).issues := by
  cases v with
  | str text =>
    rw [Check.enum]
    split
    · exact .nil
    · exact .mismatch _ _
  | _ => exact .mismatch _ _

end Leaves

section Checking

variable {c : Cache} {encoded : Bool} {tidy : Prop} {hop : Hop Option} {path : FieldPath} {v : Json}
  {o : Outcome}

/-- The issues of a rule stand in the value that it checks, at every place. -/
def Rule.ChecksBelow (encoded : Bool) (tidy : Prop) (hop : Hop Option) (rule : Rule) : Prop :=
  ∀ path v o, v.Counts encoded → rule.check hop encoded path v = some o →
    IssuesBelow encoded tidy path (some v) o.issues

theorem Validator.apply_below {validator : Validator} {found : Option Json}
    (hrule : validator.rule.ChecksBelow encoded tidy hop)
    (h : validator.apply hop encoded path found = some o) :
    IssuesBelow encoded tidy path found o.issues := by
  rcases Validator.apply_cases h with ⟨v, rfl, hv, hcheck⟩ | ⟨rfl, -, rfl⟩ | ⟨-, shown, hshown, rfl⟩
  · exact hrule path v o hv hcheck
  · exact .nil
  · cases hrequired : validator.required with
    | true => exact (IssuesHere.mismatch hshown _ _).below (List.nodup_singleton _)
    | false => exact .nil

theorem Rule.check_union_below {branches : List Validator} :
    (Rule.union branches).ChecksBelow encoded tidy hop := by
  intro path v o _ h
  rcases Rule.check_union_cases h with ⟨branch, -, -, haccepted⟩ | rfl
  · rw [List.isEmpty_iff.mp haccepted]
    exact .nil
  · exact .mismatch _ _

theorem Rule.check_array_below {element : Validator} {low high : Option Nat}
    (hrule : element.rule.ChecksBelow encoded tidy hop) :
    (Rule.array element low high).ChecksBelow encoded tidy hop := by
  intro path v o hv h
  rcases Rule.check_array_cases h with ⟨items, outcomes, hitems, hchecked, rfl⟩ | rfl
  · have hplaced : List.Forall₂ (v.StepPlaced encoded tidy path)
        ((items.zipIdx.map Prod.snd).map .index) outcomes := by
      rw [List.forall₂_map_left_iff, List.forall₂_map_left_iff]
      refine ((List.forall₂_and_left _ _).mpr ⟨fun _ hmem => hmem, hchecked⟩).imp ?_
      rintro entry o ⟨hentry, happly⟩
      exact ⟨_, Json.step?_items hv.notNull hitems hentry, Validator.apply_below hrule happly⟩
    have hdistinct : ((items.zipIdx.map Prod.snd).map Segment.index).Nodup := by
      rw [List.zipIdx_map_snd]
      exact (List.nodup_range' _).map fun _ _ => Segment.index.inj
    have hcounts : IssuesHere _ path (some v) _ := Check.brokenCounts_here low high items.length
    refine (hcounts.below (by decide)).append (.flatMap hplaced fun _ => hdistinct) ?_
    -- a broken count stands at the array, every other issue behind an index
    rintro - a ha b hb ⟨heq, -⟩
    obtain ⟨segment, -, hbehind⟩ := behind_of_mem_flatMap hplaced hb
    exact hbehind.path_ne (heq ▸ hcounts.place a ha)
  · exact .mismatch _ _

theorem Rule.check_object_below {fields : List (String × Validator)}
    (hdistinct : tidy → (Table.keys fields).Nodup)
    (hrules : ∀ entry ∈ fields, entry.2.rule.ChecksBelow encoded tidy hop) :
    (Rule.object fields).ChecksBelow encoded tidy hop := by
  intro path v o hv h
  rcases Rule.check_object_cases h with ⟨given, output, outcomes, rfl, rfl, hchecked, -⟩ | rfl
  · have hplaced : List.Forall₂ (Json.StepPlaced encoded tidy path (.obj given))
        ((Table.keys fields).map .key) outcomes := by
      rw [Table.keys, List.forall₂_map_left_iff, List.forall₂_map_left_iff]
      refine ((List.forall₂_and_left _ _).mpr ⟨fun _ hmem => hmem, hchecked⟩).imp ?_
      rintro entry o ⟨hentry, happly⟩
      exact ⟨_, rfl, Validator.apply_below (hrules entry hentry) happly⟩
    exact .flatMap hplaced fun htidy => (hdistinct htidy).map fun _ _ => Segment.key.inj
  · exact .mismatch _ _

/-- What hopping to a type complains of stands in the value. -/
def Hop.ChecksBelow (encoded : Bool) (tidy : Prop) (hop : Hop Option) : Prop :=
  ∀ name, (Rule.named name).ChecksBelow encoded tidy hop

theorem Rule.check_below (hhop : Hop.ChecksBelow encoded tidy hop) (rule : Rule)
    (hdistinct : tidy → rule.All Rule.Distinct) : rule.ChecksBelow encoded tidy hop := by
  induction rule using Rule.induction with
  | step rule ih =>
    cases rule with
    | union branches => exact Rule.check_union_below
    | array element low high =>
      exact Rule.check_array_below
        (ih element List.mem_cons_self fun htidy => Validator.all_rule (hdistinct htidy).2)
    | object fields =>
      refine Rule.check_object_below (fun htidy => (hdistinct htidy).1) fun entry hentry => ?_
      refine ih entry.2 (List.mem_map_of_mem hentry) fun htidy => ?_
      exact Validator.all_rule (Validator.all_of_mem_fields (hdistinct htidy).2 hentry)
    | named name => exact hhop name
    | accept excluded =>
      rintro path v o - ⟨⟩
      exact .nil
    | string r =>
      rintro path v o - ⟨⟩
      exact r.check_below
    | number r =>
      rintro path v o - ⟨⟩
      exact r.check_below
    | boolean =>
      rintro path v o - ⟨⟩
      exact Check.boolean_below
    | enum values =>
      rintro path v o - ⟨⟩
      exact Check.enum_below values

end Checking

namespace Cache

variable {c : Cache} {encoded : Bool} {tidy : Prop} {validator : Validator} {v : Json} {o : Outcome}

/-- However many hops there are, they leave the issues where they stand. -/
theorem hop_below (hdistinct : tidy → c.Distinct) (hops : Nat) :
    Hop.ChecksBelow encoded tidy (c.hop encoded hops) := by
  induction hops with
  | zero => exact fun name path v o _ h => nomatch h
  | succ hops ih =>
    intro name path v o hv h
    rw [Rule.check] at h
    rcases hop_cases h with rfl | ⟨target, hget, h⟩
    · exact .mismatch _ _
    · have hrule : target.rule.ChecksBelow encoded tidy (c.hop encoded hops) :=
        Rule.check_below ih target.rule fun htidy =>
          Validator.all_rule (hdistinct htidy name target hget)
      exact hrule path v o hv h

theorem outcome_below (hdistinct : tidy → c.Distinct) (hall : tidy → validator.All Rule.Distinct)
    (ho : c.outcome? validator encoded v = some o) :
    IssuesBelow encoded tidy .root (some v) o.issues :=
  Validator.apply_below (Rule.check_below (hop_below hdistinct _) validator.rule fun htidy =>
    Validator.all_rule (hall htidy)) ho

end Cache

/-- The report of a verdict that rejects. -/
def Verdict.report? : Verdict → Option Report
  | .rejected report => some report
  | _ => none

theorem Verdict.eq_rejected {verdict : Verdict} {report : Report}
    (h : verdict.report? = some report) : verdict = .rejected report := by
  cases verdict with
  | rejected found =>
    cases h
    rfl
  | _ => cases h

namespace Session

variable {s : Session} {target : Target} {channel : Channel} {v : Json} {report : Report}

/-- A rejected value has a validator, and its report has the issues of the outcome. -/
theorem exists_outcome_of_rejected (h : (s.validate v target channel).1 = .rejected report) :
    ∃ validator t, s.validatorFor target (locationOf channel) = (.ok validator, t) ∧
      ∃ o, t.cache.outcome? validator channel.stringEncoded v = some o ∧
        report.issues = o.issues := by
  cases hfor : s.validatorFor target (locationOf channel) with
  | mk answer t =>
    cases answer with
    | error e =>
      rw [validate, hfor] at h
      cases h
    | ok validator =>
      rw [validate_of_validatorFor hfor] at h
      refine ⟨validator, t, rfl, ?_⟩
      cases ho : t.cache.outcome? validator channel.stringEncoded v with
      | none =>
        rw [ho] at h
        cases h
      | some o =>
        rw [ho, Verdict.ofOutcome] at h
        split at h
        · cases h
        · cases h
          exact ⟨o, rfl, rfl⟩

/--
After any calls, every issue of a rejected value shows what its path finds in the value, and no two
issues have one path and one code.
-/
theorem validate_places_issues (store : Store) (calls : List Call)
    (h : ((after store calls).validate v target channel).1 = .rejected report) :
    (∀ issue ∈ report.issues, ∃ part,
      Json.at? channel.stringEncoded (some v) issue.path.segments = some part ∧
        issue.received = received part) ∧
    (store.Ordered → target.Ordered → report.issues.Pairwise Issue.Differs) := by
  obtain ⟨validator, t, hfor, o, ho, hissues⟩ := exists_outcome_of_rejected h
  obtain ⟨hcompiled, hcoherent⟩ := validatorFor_after hfor
  have hbelow : IssuesBelow channel.stringEncoded (store.Ordered ∧ target.Ordered) .root (some v)
      o.issues := by
    refine outcome_below (fun ⟨hstore, _⟩ => ?_) (fun ⟨hstore, htarget⟩ => ?_) ho
    · exact hstore.distinct_of_coherent hcoherent
    · exact hstore.distinct_of_compileTarget htarget (after_coherent store calls) hcompiled
  rw [hissues]
  refine ⟨fun issue hissue => ?_, fun hstore htarget => hbelow.differ ⟨hstore, htarget⟩⟩
  obtain ⟨rest, part, hpath, hat, hshown⟩ := hbelow.shows issue hissue
  exact ⟨part, hpath ▸ hat, hshown⟩

theorem tallyDefinition_ordered : tallyDefinition.Ordered := by
  have hplain (k : Keywords) : (plainDefinition k).Ordered :=
    .mk nofun nofun nofun nofun nofun nofun
  have hlist (k : Keywords) :
      ({ keywords := k, items := some integerDefinition } : Definition).Ordered := by
    refine .mk nofun nofun nofun (fun e he => ?_) nofun nofun
    cases he
    exact hplain _
  refine .mk nofun nofun nofun nofun (fun ps hps => ?_) fun ps hps => ?_
  · cases hps
    decide
  · cases hps
    exact List.forall_mem_cons.mpr ⟨hlist _, List.forall_mem_singleton.mpr (hplain _)⟩

/-- Of a query, a count that is no number is its own first item, and a list is no note. -/
theorem query_tally_issues_placed :
    let given := Json.obj [("counts", .str "many"), ("note", .arr [])]
    let report : Report := ⟨.query, "inline schema", [
      Issue.mismatch ⟨[.key "counts", .index 0]⟩ .invalidType "integer" (some (.str "many")),
      Issue.mismatch ⟨[.key "note"]⟩ .invalidType "string" (some (.arr []))]⟩
    ((after Store.empty []).validate given (.inline tallyDefinition) .query).1 = .rejected report ∧
      (∀ issue ∈ report.issues, ∃ part,
        Json.at? true (some given) issue.path.segments = some part ∧
          issue.received = received part) ∧
      report.issues.Pairwise Issue.Differs := by
  intro given report
  have hrejected : ((after Store.empty []).validate given (.inline tallyDefinition) .query).1 =
      .rejected report := Verdict.eq_rejected (by decide +kernel)
  obtain ⟨hplaced, hdiffer⟩ := validate_places_issues Store.empty [] hrejected
  exact ⟨hrejected, hplaced, hdiffer ⟨nofun, nofun⟩ tallyDefinition_ordered⟩

end Session

end Conform
