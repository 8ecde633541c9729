import Conform.Proofs.Resting
import Mathlib.Data.Fintype.Card
import Mathlib.Data.Set.Finite.Basic

/-!
# Descent

Checking hands a value on as it is from a type to its rule, from a union to a
branch and, on a string channel, from an array to its element; all other steps
go down into the value. Where no rule comes back to itself without going down,
checking therefore ends, however the types refer to each other.
-/

namespace Conform

open Cache Relation

section Steps

variable (c : Cache) (encoded : Bool)

/-- The rule leads to another one, which is checked on the value or on a part of it. -/
inductive Rule.Leads : Rule → Rule → Prop
  | named {name : TypeName} {v : Validator} : c.get? name = some v → Rule.Leads (.named name) v.rule
  | branch {branches : List Validator} {branch : Validator} :
      branch ∈ branches → Rule.Leads (.union branches) branch.rule
  | element {element : Validator} {low high : Option Nat} :
      Rule.Leads (.array element low high) element.rule
  | field {fields : List (String × Validator)} {entry : String × Validator} :
      entry ∈ fields → Rule.Leads (.object fields) entry.2.rule

/-- The rule may ask another one for the value itself; of a scalar on a string channel, an array does. -/
inductive Rule.Asks : Rule → Rule → Prop
  | named {name : TypeName} {v : Validator} : c.get? name = some v → Rule.Asks (.named name) v.rule
  | branch {branches : List Validator} {branch : Validator} :
      branch ∈ branches → Rule.Asks (.union branches) branch.rule
  | element {element : Validator} {low high : Option Nat} :
      encoded = true → Rule.Asks (.array element low high) element.rule

/--
No rule comes back to itself for one and the same value, of all that the given one leads to: by
name, as a branch, as an element or as a field.
-/
def Rule.Descends (rule : Rule) : Prop :=
  ∀ reached, ReflTransGen (Rule.Leads c) rule reached → ¬ TransGen (Rule.Asks c encoded) reached reached

/-- From some number of hops on, the rule answers for the value, wherever that stands. -/
def Rule.Answers (rule : Rule) (v : Json) : Prop :=
  ∃ least, ∀ hops, least ≤ hops → ∀ path,
    ∃ o, rule.check (c.hop encoded hops) encoded path v = some o

end Steps

section Answering

variable {c : Cache} {encoded : Bool} {hop : Hop Option} {path : FieldPath} {v : Json}

theorem Rule.Asks.leads {rule next : Rule} (h : rule.Asks c encoded next) : rule.Leads c next := by
  cases h with
  | named hget => exact .named hget
  | branch hmem => exact .branch hmem
  | element => exact .element

theorem Validator.apply_answers {validator : Validator} {found : Option Json}
    (h : ∀ w, found = some w → ∃ o, validator.rule.check hop encoded path w = some o) :
    ∃ o, validator.apply hop encoded path found = some o := by
  obtain ⟨required, nullable, rule⟩ := validator
  unfold Validator.apply
  split
  · exact ⟨_, rfl⟩
  · exact ⟨_, rfl⟩
  · next w _ hpresent => exact h w (Check.eq_of_present hpresent)

theorem Rule.firstAccepted_answers {branches : List Validator}
    (h : ∀ branch ∈ branches, ∃ o, branch.apply hop encoded path (some v) = some o) :
    ∃ found, Rule.firstAccepted hop encoded branches path v = some found := by
  induction branches with
  | nil => exact ⟨none, rfl⟩
  | cons branch rest ih =>
    obtain ⟨o, ho⟩ := h branch List.mem_cons_self
    obtain ⟨found, hfound⟩ := ih fun other hother => h other (List.mem_cons_of_mem _ hother)
    unfold Rule.firstAccepted
    rw [ho]
    cases haccepted : o.accepted with
    | true => exact ⟨some o, by simp [haccepted]⟩
    | false => exact ⟨found, by simp [haccepted, hfound]⟩

theorem Check.elements_answers {check : FieldPath → Json → Option Outcome} {items : List Json}
    (h : ∀ item ∈ items, ∀ p, ∃ o, check p item = some o) (i : Nat) :
    ∃ outcomes, elements check path i items = some outcomes := by
  induction items generalizing i with
  | nil => exact ⟨[], rfl⟩
  | cons item rest ih =>
    obtain ⟨o, ho⟩ := h item List.mem_cons_self (path.push (.index i))
    obtain ⟨more, hmore⟩ :=
      ih (fun other hother => h other (List.mem_cons_of_mem _ hother)) (i + 1)
    refine ⟨o :: more, ?_⟩
    unfold elements
    rw [ho, hmore]
    rfl

theorem Rule.checkFields_answers {fields : List (String × Validator)}
    {given output : List (String × Json)}
    (h : ∀ entry ∈ fields, ∀ p, ∃ o,
      entry.2.apply hop encoded p (Table.get? entry.1 given) = some o) :
    ∃ last, Rule.checkFields hop encoded fields path given output = some last := by
  induction fields generalizing output with
  | nil => exact ⟨_, rfl⟩
  | cons entry rest ih =>
    obtain ⟨name, field⟩ := entry
    obtain ⟨o, ho⟩ := h _ List.mem_cons_self (path.push (.key name))
    obtain ⟨last, hlast⟩ := @ih (Check.put name o output)
      fun other hother => h other (List.mem_cons_of_mem _ hother)
    refine ⟨(last.1, o.issues ++ last.2), ?_⟩
    dsimp only at ho
    unfold Rule.checkFields
    rw [ho]
    dsimp only [bind, Option.bind]
    rw [hlast]
    rfl

theorem Rule.answers_union {branches : List Validator}
    (h : ∀ branch ∈ branches, branch.rule.Answers c encoded v) :
    (Rule.union branches).Answers c encoded v := by
  obtain ⟨least, hleast⟩ := exists_common h
  refine ⟨least, fun hops hle path => ?_⟩
  have hbranches : ∀ branch ∈ branches, ∃ o,
      branch.apply (c.hop encoded hops) encoded path (some v) = some o := by
    intro branch hmem
    refine Validator.apply_answers fun w hw => ?_
    cases hw
    exact hleast hops hle branch hmem path
  obtain ⟨found, hfound⟩ := Rule.firstAccepted_answers hbranches
  unfold Rule.check
  rw [hfound]
  cases found with
  | some o => exact ⟨o, rfl⟩
  | none => exact ⟨_, rfl⟩

theorem Rule.answers_array {element : Validator} {low high : Option Nat}
    (h : ∀ items, Check.items? encoded v = some items →
      ∀ item ∈ items, element.rule.Answers c encoded item) :
    (Rule.array element low high).Answers c encoded v := by
  cases hitems : Check.items? encoded v with
  | none =>
    refine ⟨0, fun hops _ path => ?_⟩
    unfold Rule.check
    rw [hitems]
    exact ⟨_, rfl⟩
  | some items =>
    obtain ⟨least, hleast⟩ := exists_common (h items hitems)
    refine ⟨least, fun hops hle path => ?_⟩
    have hall : ∀ item ∈ items, ∀ p, ∃ o,
        element.apply (c.hop encoded hops) encoded p (some item) = some o := by
      intro item hmem p
      refine Validator.apply_answers fun w hw => ?_
      cases hw
      exact hleast hops hle item hmem p
    obtain ⟨outcomes, houtcomes⟩ : ∃ outcomes, Check.elements (fun p item =>
        element.apply (c.hop encoded hops) encoded p (some item)) path 0 items = some outcomes :=
      Check.elements_answers hall 0
    unfold Rule.check
    rw [hitems]
    dsimp only
    rw [houtcomes]
    exact ⟨_, rfl⟩

theorem Rule.answers_object {fields : List (String × Validator)} {given : List (String × Json)}
    (h : ∀ entry ∈ fields, ∀ w, Table.get? entry.1 given = some w →
      entry.2.rule.Answers c encoded w) :
    (Rule.object fields).Answers c encoded (.obj given) := by
  have hfields : ∀ entry ∈ fields, ∃ least, ∀ hops, least ≤ hops → ∀ path, ∃ o,
      entry.2.apply (c.hop encoded hops) encoded path (Table.get? entry.1 given) = some o := by
    intro entry hmem
    cases hget : Table.get? entry.1 given with
    | none => exact ⟨0, fun _ _ _ => Validator.apply_answers nofun⟩
    | some w =>
      obtain ⟨least, hleast⟩ := h entry hmem w hget
      refine ⟨least, fun hops hle path => Validator.apply_answers fun w' hw' => ?_⟩
      cases hw'
      exact hleast hops hle path
  obtain ⟨least, hleast⟩ := exists_common hfields
  refine ⟨least, fun hops hle path => ?_⟩
  obtain ⟨last, hlast⟩ : ∃ last,
      Rule.checkFields (c.hop encoded hops) encoded fields path given given = some last :=
    Rule.checkFields_answers fun entry hmem p => hleast hops hle entry hmem p
  unfold Rule.check
  dsimp only
  rw [hlast]
  exact ⟨_, rfl⟩

theorem Rule.answers_named {name : TypeName}
    (h : ∀ target, c.get? name = some target → target.rule.Answers c encoded v) :
    (Rule.named name).Answers c encoded v := by
  cases hget : c.get? name with
  | none =>
    refine ⟨1, fun hops hle path => ?_⟩
    obtain ⟨hops, rfl⟩ : ∃ fewer, hops = fewer + 1 := ⟨hops - 1, by omega⟩
    unfold Rule.check
    rw [hop_of_missing hget]
    exact ⟨_, rfl⟩
  | some target =>
    obtain ⟨least, hleast⟩ := h target hget
    refine ⟨least + 1, fun hops hle path => ?_⟩
    obtain ⟨hops, rfl⟩ : ∃ fewer, hops = fewer + 1 := ⟨hops - 1, by omega⟩
    unfold Rule.check
    rw [hop_of_cached hget]
    exact hleast hops (by omega) path

/-- A rule answers for a value where all that it asks does, and all it leads to does below the value. -/
theorem Rule.answers_of_next {rule : Rule}
    (hsame : ∀ next, rule.Asks c encoded next → next.Answers c encoded v)
    (hbelow : ∀ next part, rule.Leads c next → part.depth < v.depth → next.Answers c encoded part) :
    rule.Answers c encoded v := by
  cases rule with
  | union branches => exact Rule.answers_union fun branch hmem => hsame _ (.branch hmem)
  | array element low high =>
    refine Rule.answers_array fun items hitems item hmem => ?_
    rcases Check.items_below hitems hmem with hless | ⟨hencoded, rfl⟩
    · exact hbelow _ item .element hless
    · -- the scalar stands for its own list
      exact hsame _ (.element hencoded)
  | object fields =>
    cases v with
    | obj given =>
      exact Rule.answers_object fun entry hmem w hget =>
        hbelow _ w (.field hmem) (Json.depth_lt_obj hget)
    | _ => exact ⟨0, fun _ _ _ => ⟨_, rfl⟩⟩
  | named name => exact Rule.answers_named fun target hget => hsame _ (.named hget)
  | _ => exact ⟨0, fun _ _ _ => ⟨_, rfl⟩⟩

end Answering

mutual

/-- The rules of a validator, at any depth. -/
def Validator.rules : Validator → List Rule
  | ⟨_, _, rule⟩ => rule.rules

def Rule.rules : Rule → List Rule
  | .union branches => .union branches :: Validator.branchRules branches
  | .array element low high => .array element low high :: element.rules
  | .object fields => .object fields :: Validator.fieldRules fields
  | rule => [rule]

def Validator.branchRules : List Validator → List Rule
  | [] => []
  | branch :: rest => branch.rules ++ Validator.branchRules rest

def Validator.fieldRules : List (String × Validator) → List Rule
  | [] => []
  | (_, field) :: rest => field.rules ++ Validator.fieldRules rest

end

section Finite

variable {P : Rule → Prop} {c : Cache} {encoded : Bool} {rule next : Rule}

mutual

theorem Validator.all_of_rules : (validator : Validator) → (∀ r ∈ validator.rules, P r) →
    validator.All P
  | ⟨_, _, rule⟩, h => Rule.all_of_rules rule h

theorem Rule.all_of_rules : (rule : Rule) → (∀ r ∈ rule.rules, P r) → rule.All P
  | .union branches, h =>
    ⟨h _ List.mem_cons_self, Validator.allBranches_of_rules branches fun r hr =>
      h r (List.mem_cons_of_mem _ hr)⟩
  | .array element _ _, h =>
    ⟨h _ List.mem_cons_self, Validator.all_of_rules element fun r hr =>
      h r (List.mem_cons_of_mem _ hr)⟩
  | .object fields, h =>
    ⟨h _ List.mem_cons_self, Validator.allFields_of_rules fields fun r hr =>
      h r (List.mem_cons_of_mem _ hr)⟩
  | .accept _, h => h _ List.mem_cons_self
  | .string _, h => h _ List.mem_cons_self
  | .number _, h => h _ List.mem_cons_self
  | .boolean, h => h _ List.mem_cons_self
  | .enum _, h => h _ List.mem_cons_self
  | .named _, h => h _ List.mem_cons_self

theorem Validator.allBranches_of_rules : (branches : List Validator) →
    (∀ r ∈ Validator.branchRules branches, P r) → Validator.AllBranches P branches
  | [], _ => trivial
  | branch :: rest, h =>
    ⟨Validator.all_of_rules branch fun r hr => h r (List.mem_append_left _ hr),
      Validator.allBranches_of_rules rest fun r hr => h r (List.mem_append_right _ hr)⟩

theorem Validator.allFields_of_rules : (fields : List (String × Validator)) →
    (∀ r ∈ Validator.fieldRules fields, P r) → Validator.AllFields P fields
  | [], _ => trivial
  | (_, field) :: rest, h =>
    ⟨Validator.all_of_rules field fun r hr => h r (List.mem_append_left _ hr),
      Validator.allFields_of_rules rest fun r hr => h r (List.mem_append_right _ hr)⟩

end

theorem Rule.All.self (h : rule.All P) : P rule := by
  cases rule with
  | union branches => exact h.1
  | array element low high => exact h.1
  | object fields => exact h.1
  | _ => exact h

/-- Leading on keeps a property that all rules of the cache have. -/
theorem Rule.Leads.all (hcached : ∀ name v, c.get? name = some v → v.All P) (h : rule.Leads c next)
    (hall : rule.All P) : next.All P := by
  cases h with
  | named hget => exact Validator.all_rule (hcached _ _ hget)
  | branch hmem => exact Validator.all_rule (Validator.all_of_mem hall.2 hmem)
  | element => exact Validator.all_rule hall.2
  | field hmem => exact Validator.all_rule (Validator.all_of_mem_fields hall.2 hmem)

/-- What all rules of a rule and of the cache have, all that the rule leads to has. -/
theorem Rule.all_of_reached (hcached : ∀ name v, c.get? name = some v → v.All P)
    (hall : rule.All P) (h : ReflTransGen (Rule.Leads c) rule next) : next.All P := by
  induction h with
  | refl => exact hall
  | tail _ hleads ih => exact hleads.all hcached ih

/-- The rules of which the given one is made, and those that are cached. -/
def Rule.known (c : Cache) (rule : Rule) : List Rule :=
  rule.rules ++ c.entries.flatMap fun entry => entry.2.rules

/-- The rules that the given one leads to. -/
abbrev Rule.Reached (c : Cache) (rule : Rule) := {reached // ReflTransGen (Rule.Leads c) rule reached}

/-- All that a rule leads to is known. -/
theorem Rule.reached_known (h : ReflTransGen (Rule.Leads c) rule next) : next ∈ rule.known c := by
  have hcached : ∀ name v, c.get? name = some v → v.All (· ∈ rule.known c) := by
    intro name v hget
    refine Validator.all_of_rules v fun r hr => List.mem_append_right _ ?_
    exact List.mem_flatMap.mpr ⟨_, Table.mem_of_get? hget, hr⟩
  have hall : rule.All (· ∈ rule.known c) :=
    Rule.all_of_rules rule fun r hr => List.mem_append_left _ hr
  exact (Rule.all_of_reached hcached hall h).self

/-- The rule leads to no union. -/
def Rule.Unionless (c : Cache) (rule : Rule) : Prop :=
  ∀ branches, ¬ ReflTransGen (Rule.Leads c) rule (.union branches)

theorem Rule.Unionless.leads (h : rule.Unionless c) (hleads : rule.Leads c next) :
    next.Unionless c :=
  fun branches hreached => h branches (.head hleads hreached)

def Rule.isUnion : Rule → Bool
  | .union _ => true
  | _ => false

/-- It suffices to look at the rules that are known. -/
theorem Rule.unionless_of_known (h : (rule.known c).all (fun r => !r.isUnion) = true) :
    rule.Unionless c := by
  intro branches hreached
  have hunion := List.all_eq_true.mp h _ (Rule.reached_known hreached)
  cases hunion

theorem Rule.reached_finite (c : Cache) (rule : Rule) : Finite (rule.Reached c) :=
  ((List.finite_toSet (rule.known c)).subset fun _ h => Rule.reached_known h).to_subtype

/-- The one rule may be asked, at some step, for the value that the other one is asked for. -/
def Rule.AskedAfter (c : Cache) (encoded : Bool) (rule : Rule) (next before : rule.Reached c) : Prop :=
  TransGen (Rule.Asks c encoded) before.1 next.1

/-- Where no rule comes back to itself, asking on comes to an end. -/
theorem Rule.Descends.wellFounded (h : rule.Descends c encoded) :
    WellFounded fun next before : rule.Reached c => before.1.Asks c encoded next.1 := by
  have hfinite : Finite (rule.Reached c) := rule.reached_finite c
  have htrans : IsTrans (rule.Reached c) (Rule.AskedAfter c encoded rule) :=
    ⟨fun _ _ _ hab hbc => TransGen.trans hbc hab⟩
  have hirrefl : Std.Irrefl (Rule.AskedAfter c encoded rule) :=
    ⟨fun reached => h reached.1 reached.2⟩
  have hwf := Finite.wellFounded_of_trans_of_irrefl (Rule.AskedAfter c encoded rule)
  exact Subrelation.wf (fun hasks => TransGen.single hasks) hwf

/-- The rules that are reached answer for all values: induction on the depth, then on the asking. -/
theorem Rule.Descends.answers (h : rule.Descends c encoded) (v : Json) :
    ∀ reached, ReflTransGen (Rule.Leads c) rule reached → reached.Answers c encoded v := by
  induction hdepth : v.depth using Nat.strong_induction_on generalizing v with
  | h depth ih =>
    suffices hall : ∀ reached : rule.Reached c, reached.1.Answers c encoded v from
      fun reached hreached => hall ⟨reached, hreached⟩
    intro reached
    induction reached using h.wellFounded.induction with
    | h reached asked =>
      -- at the value itself the asking falls, below it any rule may follow
      refine Rule.answers_of_next (fun next hasks => ?_) fun next part hleads hless => ?_
      · exact asked ⟨next, reached.2.tail hasks.leads⟩ hasks
      · exact ih part.depth (hdepth ▸ hless) part rfl next (reached.2.tail hleads)

end Finite

/-- Checking by a rule that descends ends, however many hops more it is given. -/
theorem Cache.apply_of_descends {c : Cache} {encoded : Bool} {validator : Validator}
    (h : validator.rule.Descends c encoded) (v : Json) :
    ∃ o, ∀ hops, c.hopLimit v ≤ hops →
      validator.apply (c.hop encoded hops) encoded FieldPath.root (some v) = some o := by
  obtain ⟨least, hleast⟩ := h.answers v _ .refl
  obtain ⟨o, ho⟩ : ∃ o, validator.apply (c.hop encoded (max least (c.hopLimit v))) encoded
      FieldPath.root (some v) = some o := by
    refine Validator.apply_answers fun w hw => ?_
    cases hw
    exact hleast _ (Nat.le_max_left _ _) FieldPath.root
  refine ⟨o, fun hops hle => ?_⟩
  rw [apply_hops validator hle, ← apply_hops validator (Nat.le_max_right least _)]
  exact ho

mutual

/-- How many unions and arrays lie around the lowest object or reference; a reference lies on objects. -/
def Validator.height : Validator → Nat
  | ⟨_, _, rule⟩ => rule.height

def Rule.height : Rule → Nat
  | .union branches => Validator.branchHeight branches + 1
  | .array element _ _ => element.height + 1
  | .named _ => 1
  | _ => 0

def Validator.branchHeight : List Validator → Nat
  | [] => 0
  | branch :: rest => max branch.height (Validator.branchHeight rest)

end

theorem Validator.rule_height (validator : Validator) : validator.rule.height = validator.height := by
  cases validator
  rfl

theorem Validator.height_le_branchHeight {branches : List Validator} {branch : Validator}
    (hmem : branch ∈ branches) : branch.height ≤ Validator.branchHeight branches := by
  induction branches with
  | nil => cases hmem
  | cons first rest ih =>
    unfold Validator.branchHeight
    rcases List.mem_cons.mp hmem with rfl | hmem
    · exact Nat.le_max_left _ _
    · exact (ih hmem).trans (Nat.le_max_right _ _)

namespace Cache

/-- Whether no cached type asks another rule for its value, as an object or a text does not. -/
def isFlat (c : Cache) : Bool := c.entries.all fun entry => entry.2.height == 0

/-- Where no type hands on its value, each cycle of types goes down into the value. -/
theorem descends_of_flat {c : Cache} (h : c.isFlat = true) (rule : Rule) (encoded : Bool) :
    rule.Descends c encoded := by
  have hstep : ∀ before next, Rule.Asks c encoded before next → next.height < before.height := by
    intro before next hasks
    cases hasks with
    | @named name v hget =>
      have hzero := beq_iff_eq.mp (List.all_eq_true.mp h _ (Table.mem_of_get? hget))
      rw [Validator.rule_height]
      exact Nat.lt_of_le_of_lt (Nat.le_of_eq hzero) Nat.zero_lt_one
    | branch hmem =>
      rw [Validator.rule_height]
      exact Nat.lt_succ_of_le (Validator.height_le_branchHeight hmem)
    | element =>
      rw [Validator.rule_height]
      exact Nat.lt_succ_self _
  have hsteps : ∀ before next, TransGen (Rule.Asks c encoded) before next →
      next.height < before.height := by
    intro before next hasks
    induction hasks with
    | single hasks => exact hstep _ _ hasks
    | tail _ hasks ih => exact (hstep _ _ hasks).trans ih
  exact fun reached _ hcycle => Nat.lt_irrefl _ (hsteps reached reached hcycle)

end Cache

namespace Session

variable {s t : Session} {target : Target} {channel : Channel} {validator : Validator}

/-- What the target compiles to descends, if it compiles. -/
def Descends (s : Session) (target : Target) (channel : Channel) : Prop :=
  ∀ validator t, s.validatorFor target (locationOf channel) = (.ok validator, t) →
    validator.rule.Descends t.cache channel.stringEncoded

theorem descends_of_flat
    (h : (s.validatorFor target (locationOf channel)).2.cache.isFlat = true) :
    s.Descends target channel := by
  intro validator t hfor
  rw [hfor] at h
  exact Cache.descends_of_flat h validator.rule channel.stringEncoded

/--
Where every cycle that the validator of a target leads to goes down into the value, checking any
value ends, and the verdict is what it ends with.
-/
theorem validate_ends (hfor : s.validatorFor target (locationOf channel) = (.ok validator, t))
    (hdescends : validator.rule.Descends t.cache channel.stringEncoded) (value : Json) :
    ∃ o, (∀ hops, t.cache.hopLimit value ≤ hops →
        validator.apply (t.cache.hop channel.stringEncoded hops) channel.stringEncoded
          FieldPath.root (some value) = some o) ∧
      (s.validate value target channel).1 = Verdict.ofOutcome channel target.label (some o) := by
  obtain ⟨o, ho⟩ := Cache.apply_of_descends hdescends value
  refine ⟨o, ho, ?_⟩
  have houtcome : t.cache.outcome? validator channel.stringEncoded value = some o :=
    ho _ (Nat.le_refl _)
  unfold validate
  rw [hfor]
  dsimp only
  rw [houtcome]

/-- Validating by a target that descends ends. -/
theorem Descends.ends (h : s.Descends target channel) (value : Json) :
    (s.validate value target channel).1 ≠ .endless := by
  intro hendless
  cases hfor : s.validatorFor target (locationOf channel) with
  | mk answer t =>
    cases answer with
    | error e =>
      unfold validate at hendless
      rw [hfor] at hendless
      cases hendless
    | ok validator =>
      obtain ⟨o, -, hverdict⟩ := validate_ends hfor (h validator t hfor) value
      rw [hverdict, Verdict.ofOutcome] at hendless
      split_ifs at hendless

def treeName : TypeName := ⟨"Tree", by decide⟩

/-- An object whose children are of its own type. -/
def treeDefinition : Definition where
  keywords := { kinds := some (.one "object") }
  properties := some [("children",
    { keywords := { kinds := some (.one "array") }
      items := some (plainDefinition { reference := some treeName.toReference }) })]

def treeStore : Store where
  document := { definitions := [(treeName, treeDefinition)], operations := Operations.empty }
  fields := FieldTable.empty
  exclusions := Exclusions.empty

/-- On a string channel one child is a list of children, and checking it ends as well. -/
theorem tree_check_ends : ∃ validator t,
    (ofStore treeStore).validatorFor (.named treeName) (locationOf .query) = (.ok validator, t) ∧
      validator.rule.Descends t.cache Channel.query.stringEncoded ∧
      ∃ o, ((ofStore treeStore).validate (.obj [("children", .str "x")]) (.named treeName) .query).1 =
        Verdict.ofOutcome .query treeName.text (some o) := by
  have hok : ((ofStore treeStore).validatorFor (.named treeName) (locationOf .query)).1.toBool =
      true := by decide +kernel
  have hflat : ((ofStore treeStore).validatorFor (.named treeName)
      (locationOf .query)).2.cache.isFlat = true := by decide +kernel
  cases hfor : (ofStore treeStore).validatorFor (.named treeName) (locationOf .query) with
  | mk answer t =>
    rw [hfor] at hok hflat
    cases answer with
    | error e => cases hok
    | ok validator =>
      have hdescends := Cache.descends_of_flat hflat validator.rule Channel.query.stringEncoded
      obtain ⟨o, -, hverdict⟩ := validate_ends hfor hdescends (.obj [("children", .str "x")])
      exact ⟨validator, t, rfl, hdescends, o, hverdict⟩

end Session

end Conform
