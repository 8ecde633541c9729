import Conform.Proofs.Ending
import Conform.Proofs.Fresh
import Conform.Proofs.Placement

/-!
# Alternatives

A union tries its branches in order and takes the first that accepts. Each
branch comes to what it comes to alone: neither the branches tried before nor
the cache that the branches share shows in its verdict. So the verdict of a
union is told by those of its branches, in the order in which they are listed.
-/

namespace Conform

open Cache

namespace Verdict

/-- Of verdicts in order, the first that does not reject; what is left over if all of them do. -/
def firstOf (leftover : Verdict) : List Verdict → Verdict
  | [] => leftover
  | .rejected _ :: rest => firstOf leftover rest
  | verdict :: _ => verdict

variable {verdicts more : List Verdict} {leftover other verdict : Verdict} {report : Report}
  {w : Json}

/-- If the verdict at the head does not reject, it is the first that does not. -/
theorem split_at_first_iff (hfirst : ∀ r, verdict ≠ .rejected r) :
    (∃ before after, verdict :: verdicts = before ++ .accepted w :: after ∧
      ∀ b ∈ before, ∃ r, b = .rejected r) ↔ verdict = .accepted w := by
  constructor
  · rintro ⟨before, after, heq, hbefore⟩
    cases before with
    | nil =>
      cases heq
      rfl
    | cons b before =>
      cases heq
      obtain ⟨r, hr⟩ := hbefore verdict List.mem_cons_self
      exact absurd hr (hfirst r)
  · rintro rfl
    exact ⟨[], verdicts, rfl, List.forall_mem_nil _⟩

/-- The first verdict that does not reject accepts, and those before it reject. -/
theorem firstOf_eq_accepted_iff (hleftover : leftover = .rejected report) :
    firstOf leftover verdicts = .accepted w ↔ ∃ before after,
      verdicts = before ++ .accepted w :: after ∧ ∀ b ∈ before, ∃ r, b = .rejected r := by
  induction verdicts with
  | nil => simp [firstOf, hleftover]
  | cons first rest ih =>
    cases first with
    | rejected r =>
      rw [firstOf, ih]
      constructor
      · rintro ⟨before, after, rfl, hbefore⟩
        exact ⟨.rejected r :: before, after, rfl, List.forall_mem_cons.mpr ⟨⟨r, rfl⟩, hbefore⟩⟩
      · rintro ⟨before, after, heq, hbefore⟩
        cases before with
        | nil => cases heq
        | cons b before =>
          cases heq
          exact ⟨before, after, rfl, (List.forall_mem_cons.mp hbefore).2⟩
    | _ => exact (split_at_first_iff fun _ => Verdict.noConfusion).symm

/-- A verdict has been come to: the target compiles, and the check ends. -/
def Decides : Verdict → Prop
  | .accepted _ | .rejected _ => True
  | .uncompiled _ | .endless => False

/-- Where all verdicts have been come to, one accepts as soon as any does. -/
theorem firstOf_isAccepted (hleftover : leftover = .rejected report)
    (hdecides : ∀ v ∈ verdicts, v.Decides) :
    (firstOf leftover verdicts).isAccepted = verdicts.any isAccepted := by
  induction verdicts with
  | nil =>
    rw [firstOf, hleftover]
    rfl
  | cons first rest ih =>
    obtain ⟨hfirst, hrest⟩ := List.forall_mem_cons.mp hdecides
    cases first with
    | accepted v => rfl
    | rejected r => exact ih hrest
    | _ => exact hfirst.elim

/-- Only what is left over rejects. -/
theorem eq_leftover_of_rejected {r : Report} (h : firstOf leftover verdicts = .rejected r) :
    leftover = .rejected r := by
  induction verdicts with
  | nil => exact h
  | cons first rest ih =>
    cases first with
    | rejected _ => exact ih h
    | _ => cases h

theorem firstOf_append (h : firstOf leftover verdicts = .accepted w)
    (hleftover : leftover = .rejected report) :
    firstOf other (verdicts ++ more) = .accepted w := by
  induction verdicts with
  | nil =>
    rw [firstOf, hleftover] at h
    cases h
  | cons first rest ih =>
    cases first with
    | rejected _ => exact ih h
    | _ => exact h

end Verdict

section Branches

variable {c : Cache} {encoded : Bool} {channel : Channel} {label : String} {value : Json}

/-- Trying branches comes to the first of their verdicts that does not reject, or to what is left. -/
theorem Verdict.ofOutcome_firstAccepted (branches : List Validator) (leftover : Outcome) :
    ofOutcome channel label
        ((Rule.firstAccepted (c.hop encoded (c.hopLimit value)) encoded branches .root value).map
          fun found => found.getD leftover) =
      firstOf (ofOutcome channel label (some leftover))
        (branches.map fun branch => ofOutcome channel label (c.outcome? branch encoded value)) := by
  induction branches with
  | nil => rfl
  | cons branch rest ih =>
    have hbranch : branch.apply (c.hop encoded (c.hopLimit value)) encoded .root (some value) =
        c.outcome? branch encoded value := rfl
    rw [Rule.firstAccepted, hbranch, List.map_cons]
    cases c.outcome? branch encoded value with
    | none => rfl
    | some o =>
      cases haccepted : o.accepted with
      | true =>
        rw [ofOutcome_accepted haccepted]
        simp [haccepted, firstOf, ofOutcome_accepted]
      | false =>
        rw [ofOutcome_rejected haccepted, firstOf, ← ih]
        simp [haccepted]

/-- The verdict of a union is the first of its branches' that does not reject, or its own. -/
theorem Verdict.ofOutcome_union {required nullable : Bool} {branches : List Validator}
    (hvalue : value.Counts encoded) :
    ofOutcome channel label (c.outcome? ⟨required, nullable, .union branches⟩ encoded value) =
      firstOf (.rejected ⟨channel, label, [Issue.mismatch .root .noMatchingBranch
          (Rule.union branches).expected (some value)]⟩)
        (branches.map fun branch => ofOutcome channel label (c.outcome? branch encoded value)) := by
  have hcheck : c.outcome? ⟨required, nullable, .union branches⟩ encoded value =
      (Rule.firstAccepted (c.hop encoded (c.hopLimit value)) encoded branches .root value).map
        fun found => found.getD (Outcome.mismatch .root .noMatchingBranch
          (Rule.union branches).expected (some value)) := by
    rw [outcome?, Validator.apply_of_counts hvalue, Rule.check]
    cases Rule.firstAccepted (c.hop encoded (c.hopLimit value)) encoded branches .root value with
    | none => rfl
    | some found => cases found <;> rfl
  rw [hcheck, ofOutcome_firstAccepted]
  rfl

end Branches

namespace Definition

variable {d : Definition} {ds : List Definition} {location : String} {i : Nat} {node : Node}
  {nodes : List Node}

/-- Numbered branches lower as each of them does. -/
theorem numbered_ok_iff : Lower.numbered location i (ds.map lower) = .ok nodes ↔
    List.Forall₂ (fun e node => ∀ place, e.lower .unspecified place = .ok node) ds nodes := by
  induction ds generalizing i nodes with
  | nil =>
    constructor
    · rintro ⟨⟩
      exact .nil
    · intro h
      cases h
      rfl
  | cons e rest ih =>
    rw [List.map_cons, Lower.numbered]
    constructor
    · intro h
      obtain ⟨node, hnode, h⟩ := exists_ok_of_bind h
      obtain ⟨more, hmore, h⟩ := exists_ok_of_bind h
      cases h
      exact .cons (lower_ok_at hnode) (ih.mp hmore)
    · intro h
      cases h with
      | cons hnode hmore =>
        rw [hnode, ih.mpr hmore]
        rfl

/-- A union of several branches that are not null-only lowers as each of them does. -/
theorem lower_union_ok_iff (hd : d.branches? = some ds) (htwo : 2 ≤ (proper ds).length) :
    d.lower .unspecified location = .ok node ↔ ∃ nodes,
      List.Forall₂ (fun e node => ∀ place, e.lower .unspecified place = .ok node) (proper ds) nodes ∧
        node = Node.of (.union nodes) (d.keywords.nullableSet || ds.any isNullOnly) := by
  have hlower : d.lower .unspecified location = (do
      .ok (Node.of (.union (← Lower.numbered location 0 ((proper ds).map lower)))
        (d.keywords.nullableSet || ds.any isNullOnly))) := by
    rw [lower_eq, Lower.Parts.lower, parts, hd]
    dsimp only [Option.map_some]
    cases hproper : proper ds with
    | nil => simp [hproper] at htwo
    | cons first rest =>
      cases rest with
      | nil => simp [hproper] at htwo
      | cons second rest => rfl
  rw [hlower]
  constructor
  · intro h
    obtain ⟨nodes, hnodes, h⟩ := exists_ok_of_bind h
    cases h
    exact ⟨nodes, numbered_ok_iff.mp hnodes, rfl⟩
  · rintro ⟨nodes, hnodes, rfl⟩
    rw [numbered_ok_iff.mpr hnodes]
    rfl

theorem proper_append (ds more : List Definition) :
    proper (ds ++ more) = proper ds ++ proper more := List.filter_append ds more

/-- Null-only branches, and the order of the branches, do not show in which others there are. -/
theorem proper_perm {ds' nulls : List Definition} (hnulls : ∀ e ∈ nulls, e.isNullOnly = true)
    (hperm : ds'.Perm (nulls ++ ds)) : (proper ds').Perm (proper ds) := by
  have hnone : proper nulls = [] := by
    simpa [proper, List.filter_eq_nil_iff] using hnulls
  have hproper : (proper ds').Perm (proper (nulls ++ ds)) := hperm.filter _
  rwa [proper_append, hnone] at hproper

end Definition

section Compiling

variable {s : Store} {d : Definition} {ds : List Definition} {nodes : List Node} {nullable : Bool}
  {c : Cache} {v : Validator} {f : TypeName → Bool}

theorem Node.mem_branchReferences_iff {name : TypeName} :
    name ∈ Node.branchReferences nodes ↔ ∃ node ∈ nodes, name ∈ node.references := by
  induction nodes with
  | nil => simp [Node.branchReferences]
  | cons node rest ih => simp [Node.branchReferences, ih]

theorem Node.mem_branchPatterns_iff {source : String} :
    source ∈ Node.branchPatterns nodes ↔ ∃ node ∈ nodes, source ∈ node.patterns := by
  induction nodes with
  | nil => simp [Node.branchPatterns]
  | cons node rest ih => simp [Node.branchPatterns, ih]

/-- A union compiles just if each of its branches that are not null-only does. -/
theorem Store.canCompile_union_iff (hd : d.branches? = some ds)
    (htwo : 2 ≤ (Definition.proper ds).length) :
    s.CanCompile (.inline d) ↔ ∀ e ∈ Definition.proper ds, s.CanCompile (.inline e) := by
  constructor
  · rintro ⟨node, hlower, hread, hsound⟩ e he
    obtain ⟨nodes, hnodes, rfl⟩ := (Definition.lower_union_ok_iff hd htwo).mp (hlower "")
    obtain ⟨branch, hbranch, hplaces⟩ := exists_of_forall₂ hnodes.flip he
    refine ⟨branch, hplaces, fun source hsource => ?_, fun name hname => ?_⟩
    · exact hread source (Node.mem_branchPatterns_iff.mpr ⟨branch, hbranch, hsource⟩)
    · obtain ⟨start, hstart, hreaches⟩ := hname
      exact hsound name
        ⟨start, Node.mem_branchReferences_iff.mpr ⟨branch, hbranch, hstart⟩, hreaches⟩
  · intro hall
    obtain ⟨nodes, hnodes⟩ := exists_forall₂ hall
    refine ⟨Node.of (.union nodes) (d.keywords.nullableSet || ds.any Definition.isNullOnly),
      fun location => ?_, fun source hsource => ?_, fun name hname => ?_⟩
    · exact (Definition.lower_union_ok_iff hd htwo).mpr
        ⟨nodes, hnodes.imp fun _ _ h => h.1, rfl⟩
    · obtain ⟨branch, hbranch, hsource⟩ := Node.mem_branchPatterns_iff.mp hsource
      obtain ⟨e, -, -, hread, -⟩ := exists_of_forall₂ hnodes hbranch
      exact hread source hsource
    · obtain ⟨start, hstart, hreaches⟩ := hname
      obtain ⟨branch, hbranch, hstart⟩ := Node.mem_branchReferences_iff.mp hstart
      obtain ⟨e, -, -, -, hsound⟩ := exists_of_forall₂ hnodes hbranch
      exact hsound name ⟨start, hstart, hreaches⟩

theorem Node.BuildsBranches.forall₂ : {branches : List Node} → {vs : List Validator} →
    Node.BuildsBranches s f branches vs → List.Forall₂ (fun node v => node.Builds s f true v) branches vs
  | _, _, .nil => .nil
  | _, _, .cons hbranch hrest => .cons hbranch hrest.forall₂

theorem Validator.mem_branchCalls {branches : List Validator} {branch : Validator} {name : TypeName}
    (hbranch : branch ∈ branches) (hname : name ∈ branch.calls) :
    name ∈ Validator.branchCalls branches := by
  induction branches with
  | nil => cases hbranch
  | cons first rest ih =>
    rw [Validator.branchCalls, List.mem_append]
    rcases List.mem_cons.mp hbranch with rfl | hbranch
    · exact Or.inl hname
    · exact Or.inr (ih hbranch)

/-- The branches of a union that is freshly compiled are freshly compiled with it. -/
theorem Store.Freshly.branches (h : s.Freshly (Node.of (.union nodes) nullable) v c) :
    ∃ kept vs, v = ⟨true, kept, .union vs⟩ ∧
      List.Forall₂ (fun node branch => s.Freshly node branch c) nodes vs := by
  obtain ⟨hliteral, hbuilds, hcalls⟩ := h
  cases hbuilds with
  | mk hshape =>
    cases hshape with
    | @union _ vs hbranches =>
      refine ⟨_, vs, rfl, ?_⟩
      have hpairs := (List.forall₂_and_left _ _).mpr ⟨fun _ hmem => hmem, hbranches.forall₂.flip⟩
      refine hpairs.flip.imp fun node branch ⟨hmem, hbuilt⟩ => ?_
      exact ⟨hliteral, hbuilt, fun callee hcallee =>
        hcalls callee (Validator.mem_branchCalls hmem hcallee)⟩

end Compiling

namespace Session

/-- The verdict on a value for a schema object alone, of a fresh session. -/
def alone (store : Store) (value : Json) (channel : Channel) (d : Definition) : Verdict :=
  ((ofStore store).validate value (.inline d) channel).1

section Laws

variable (store : Store) (value : Json) (channel : Channel) (d : Definition) (ds : List Definition)

/-- How a union and its branches, those that are not null-only, judge one and the same value. -/
structure UnionLaw : Prop where
  /-- The output is that of the first branch listed that accepts the value. -/
  accepted_iff : ∀ w, alone store value channel d = .accepted w ↔ ∃ before e after,
    Definition.proper ds = before ++ e :: after ∧
      (∀ other ∈ before, ∃ r, alone store value channel other = .rejected r) ∧
      alone store value channel e = .accepted w
  /-- If every branch comes to an end, the union accepts just what some branch accepts. -/
  accepts_iff :
    (∀ e ∈ Definition.proper ds, alone store value channel e ≠ .endless) →
    ((alone store value channel d).isAccepted = true ↔
      ∃ e ∈ Definition.proper ds, (alone store value channel e).isAccepted = true)
  /-- Neither the order of the branches matters to that nor are null-only ones that are added. -/
  reordered :
    (∀ e ∈ Definition.proper ds, alone store value channel e ≠ .endless) →
    ∀ d' ds' nulls, d'.branches? = some ds' → (∀ e ∈ nulls, e.isNullOnly = true) →
      ds'.Perm (nulls ++ ds) →
      (alone store value channel d').isAccepted = (alone store value channel d).isAccepted
  /-- What is accepted stays accepted, and comes out the same, if branches are added at the end. -/
  appended : ∀ d' more, d'.branches? = some (ds ++ more) →
    (∀ error, alone store value channel d' ≠ .uncompiled error) →
    ∀ w, alone store value channel d = .accepted w → alone store value channel d' = .accepted w
  /-- Nothing that a branch complains of is reported. -/
  rejected : ∀ r, alone store value channel d = .rejected r →
    ∃ issue, r.issues = [issue] ∧ issue.path = .root ∧ issue.code = .noMatchingBranch

end Laws

section Unions

variable {store : Store} {value : Json} {channel : Channel} {d e : Definition}
  {ds : List Definition} {node : Node} {v : Validator} {c : Cache}

theorem ofOutcome_ne_uncompiled (channel : Channel) (label : String) (found : Option Outcome)
    (error : CompileError) : Verdict.ofOutcome channel label found ≠ .uncompiled error := by
  cases found with
  | none => exact nofun
  | some o => cases haccepted : o.accepted <;> simp [Verdict.ofOutcome, haccepted]

theorem canCompile_iff : store.CanCompile (.inline d) ↔
    ∀ error, alone store value channel d ≠ .uncompiled error := by
  rw [← Store.compileTarget_succeeds_iff (Coherent.empty store) _ (locationOf channel), alone,
    validate_ofStore]
  cases store.compileTarget Cache.empty (.inline d) (locationOf channel) with
  | error e => simp [verdictOf]
  | ok last =>
    refine ⟨fun _ error => ofOutcome_ne_uncompiled _ _ _ error, fun _ => ⟨last.1, last.2, rfl⟩⟩

/-- What a node was freshly compiled to tells the verdict on every value. -/
theorem alone_of_freshly (hcan : store.CanCompile (.inline e))
    (hlower : ∀ place, e.lower .unspecified place = .ok node) (h : store.Freshly node v c) :
    alone store value channel e = Verdict.ofOutcome channel "inline schema"
      (c.outcome? v channel.stringEncoded value) := by
  obtain ⟨w, c', hcompiled⟩ :=
    (Store.compileTarget_succeeds_iff (Coherent.empty store) _ (locationOf channel)).mpr hcan
  obtain ⟨node', hlower', hfreshly⟩ := Store.compileInline_freshly hcompiled
  rw [hlower] at hlower'
  cases hlower'
  rw [alone, validate_ofStore, hcompiled, h.outcome_eq hfreshly]
  rfl

/-- The verdict of a union is the first of its branches' verdicts that does not reject. -/
theorem alone_union (hd : d.branches? = some ds) (htwo : 2 ≤ (Definition.proper ds).length)
    (hcan : store.CanCompile (.inline d)) (hvalue : value.Counts channel.stringEncoded) :
    ∃ expected, alone store value channel d =
      Verdict.firstOf (.rejected ⟨channel, "inline schema",
          [Issue.mismatch .root .noMatchingBranch expected (some value)]⟩)
        ((Definition.proper ds).map (alone store value channel)) := by
  have hbranches := (Store.canCompile_union_iff hd htwo).mp hcan
  obtain ⟨v, c, hcompiled⟩ :=
    (Store.compileTarget_succeeds_iff (Coherent.empty store) _ (locationOf channel)).mpr hcan
  obtain ⟨node, hlower, hfreshly⟩ := Store.compileInline_freshly hcompiled
  obtain ⟨nodes, hnodes, rfl⟩ := (Definition.lower_union_ok_iff hd htwo).mp hlower
  obtain ⟨kept, vs, rfl, hvs⟩ := hfreshly.branches
  have hverdicts : (Definition.proper ds).map (alone store value channel) =
      vs.map fun branch => Verdict.ofOutcome channel "inline schema"
        (c.outcome? branch channel.stringEncoded value) := by
    rw [← List.forall₂_eq_eq_eq, List.forall₂_map_left_iff, List.forall₂_map_right_iff]
    refine forall₂_of_common hnodes.flip hvs ?_
    exact fun node _ e he branch hplaces hbranch =>
      alone_of_freshly (hbranches e he) hplaces hbranch
  refine ⟨(Rule.union vs).expected, ?_⟩
  rw [hverdicts, ← Verdict.ofOutcome_union hvalue, alone, validate_ofStore, hcompiled]
  rfl

/-- Where every branch comes to an end, a union accepts as soon as any branch does. -/
theorem alone_union_isAccepted (hd : d.branches? = some ds)
    (htwo : 2 ≤ (Definition.proper ds).length) (hcan : store.CanCompile (.inline d))
    (hvalue : value.Counts channel.stringEncoded)
    (hends : ∀ e ∈ Definition.proper ds, alone store value channel e ≠ .endless) :
    (alone store value channel d).isAccepted =
      (Definition.proper ds).any fun e => (alone store value channel e).isAccepted := by
  obtain ⟨expected, hunion⟩ := alone_union hd htwo hcan hvalue
  have hdecides : ∀ verdict ∈ (Definition.proper ds).map (alone store value channel),
      verdict.Decides := by
    intro verdict hverdict
    obtain ⟨e, he, rfl⟩ := List.mem_map.mp hverdict
    have hcompiles : ∀ error, alone store value channel e ≠ .uncompiled error :=
      canCompile_iff.mp ((Store.canCompile_union_iff hd htwo).mp hcan e he)
    cases halone : alone store value channel e with
    | accepted w => trivial
    | rejected r => trivial
    | uncompiled error => exact hcompiles error halone
    | endless => exact hends e he halone
  rw [hunion, Verdict.firstOf_isAccepted rfl hdecides, List.any_map]
  rfl

/--
On fresh sessions over any store, a union with several branches that are not null-only judges a
value by its branches alone, in the order in which they are listed.
-/
theorem union_judged_by_branches (hd : d.branches? = some ds)
    (htwo : 2 ≤ (Definition.proper ds).length)
    (hcompiles : ∀ error, alone store value channel d ≠ .uncompiled error)
    (hvalue : value.Counts channel.stringEncoded) : UnionLaw store value channel d ds := by
  have hcan : store.CanCompile (.inline d) := canCompile_iff.mpr hcompiles
  obtain ⟨expected, hunion⟩ := alone_union hd htwo hcan hvalue
  constructor
  case accepted_iff =>
    intro w
    rw [hunion, Verdict.firstOf_eq_accepted_iff rfl]
    constructor
    · rintro ⟨before, after, heq, hbefore⟩
      obtain ⟨earlier, rest, hsplit, rfl, hrest⟩ := List.map_eq_append_iff.mp heq
      obtain ⟨e, later, rfl, he, rfl⟩ := List.map_eq_cons_iff.mp hrest
      exact ⟨earlier, e, later, hsplit, fun other hother => hbefore _ (List.mem_map_of_mem hother), he⟩
    · rintro ⟨earlier, e, later, hsplit, hearlier, he⟩
      refine ⟨earlier.map (alone store value channel), later.map (alone store value channel),
        by rw [hsplit, List.map_append, List.map_cons, he], fun b hb => ?_⟩
      obtain ⟨other, hother, rfl⟩ := List.mem_map.mp hb
      exact hearlier other hother
  case accepts_iff =>
    intro hends
    rw [alone_union_isAccepted hd htwo hcan hvalue hends, List.any_eq_true]
  case reordered =>
    intro hends d' ds' nulls hd' hnulls hperm
    have hproper := Definition.proper_perm hnulls hperm
    have htwo' : 2 ≤ (Definition.proper ds').length := hproper.length_eq ▸ htwo
    have hcan' : store.CanCompile (.inline d') := (Store.canCompile_union_iff hd' htwo').mpr
      fun e he => (Store.canCompile_union_iff hd htwo).mp hcan e (hproper.mem_iff.mp he)
    rw [alone_union_isAccepted hd htwo hcan hvalue hends,
      alone_union_isAccepted hd' htwo' hcan' hvalue fun e he => hends e (hproper.mem_iff.mp he)]
    exact hproper.any_eq
  case appended =>
    intro d' more hd' hcompiles' w haccepted
    have htwo' : 2 ≤ (Definition.proper (ds ++ more)).length := by
      rw [Definition.proper_append, List.length_append]
      omega
    obtain ⟨expected', hunion'⟩ := alone_union hd' htwo' (canCompile_iff.mpr hcompiles') hvalue
    rw [hunion', Definition.proper_append, List.map_append]
    exact Verdict.firstOf_append (hunion.symm.trans haccepted) rfl
  case rejected =>
    intro r hrejected
    cases Verdict.eq_leftover_of_rejected (hunion.symm.trans hrejected)
    exact ⟨_, rfl, rfl, rfl⟩

end Unions

/-- Branches that ask for an integer and for a boolean. -/
def answerBranches : List Definition :=
  [plainDefinition { kinds := some (.one "integer") }, plainDefinition { kinds := some (.one "boolean") }]

/-- No integer, but a boolean as any text is: the second branch judges the first answer. -/
theorem answer_judged_by_branches :
    UnionLaw Store.empty (.str "no") .query { oneOf := some answerBranches } answerBranches ∧
      alone Store.empty (.str "no") .query { oneOf := some answerBranches } =
        .accepted (.bool false) := by
  have haccepted : alone Store.empty (.str "no") .query { oneOf := some answerBranches } =
      .accepted (.bool false) := Verdict.eq_accepted (by decide +kernel)
  refine ⟨union_judged_by_branches rfl (by decide) (fun error herror => ?_) ?_, haccepted⟩
  · cases haccepted.symm.trans herror
  · exact Json.counts_str_iff.mpr fun _ => by decide

/-- Branches that ask for numbers, and one whose only kind is null but which lists a text. -/
def listedBranches : List Definition :=
  [plainDefinition { kinds := some (.one "integer") }, plainDefinition { kinds := some (.one "number") },
    plainDefinition { kinds := some (.one "null"), enumValues := some [.str "x"] }]

/-- Alone that last branch accepts its text. In the union it only says that null is kept. -/
theorem listed_text_left_out :
    let verdict := alone Store.empty (.str "x") .body
    let union : Definition := { oneOf := some listedBranches }
    2 ≤ (Definition.proper listedBranches).length ∧ (∀ error, verdict union ≠ .uncompiled error) ∧
      ¬ ((verdict union).isAccepted = true ↔
        ∃ e ∈ listedBranches, (verdict e).isAccepted = true) := by
  intro verdict union
  have hbranch : (listedBranches.any fun e => (verdict e).isAccepted) = true := by decide +kernel
  have hunion : (verdict union).report?.isSome = true := by decide +kernel
  cases hverdict : verdict union with
  | rejected report =>
    refine ⟨by decide, nofun, fun hsame => ?_⟩
    have haccepted := hsame.mpr (List.any_eq_true.mp hbranch)
    cases haccepted
  | _ =>
    rw [hverdict] at hunion
    cases hunion

end Session

end Conform
