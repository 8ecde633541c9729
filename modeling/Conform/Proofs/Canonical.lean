import Conform.Proofs.Checking
import Conform.Proofs.Descent

/-!
# Canonical values

A canonical value has everywhere the form that checking would bring it into:
the kind of JSON that its rule is about, texts as their formats write them, all
that is required and no null where none is kept. Off the string channels, and
where no union may choose, just these values come out as they are. Nothing is
assumed of the types that name one another: a type that only ever names another
has no canonical value, and checking one by it never comes to an end.
-/

namespace Conform

open Cache Relation

/-- A date, timestamp or UUID is written as the format itself writes it; an address is one. -/
def Format.Canonical : Option Format → String → Prop
  | none, _ => True
  | some .dateTime, text => Coerce.dateTime (.str text) = .ok text
  | some .date, text => Coerce.date text = .ok text
  | some .uuid, text => Coerce.uuid text = .ok text
  | some .email, text => Email.isAddress text = true
  | some .url, text => Url.isAbsolute text = true

/-- The text is canonical in its format, within its bounds and matched by the pattern. -/
structure StringRule.Canonical (r : StringRule) (text : String) : Prop where
  format : Format.Canonical r.format text
  long : ∀ n ∈ r.minLength, n ≤ text.length
  short : ∀ n ∈ r.maxLength, text.length ≤ n
  pattern : ∀ p ∈ r.pattern, p.2.isIn text = true

section

variable (c : Cache)

mutual

/-- The value has the form that the validator brings values into. -/
inductive Validator.Canonical : Validator → Json → Prop
  | null {required : Bool} {rule : Rule} : Validator.Canonical ⟨required, true, rule⟩ .null
  | value {required nullable : Bool} {rule : Rule} {v : Json} :
      v ≠ .null → rule.Canonical v → Validator.Canonical ⟨required, nullable, rule⟩ v

/-- The same of a rule, for a value other than null. -/
inductive Rule.Canonical : Rule → Json → Prop
  | accept {excluded : TypeName} {v : Json} : Rule.Canonical (.accept excluded) v
  | string {r : StringRule} {text : String} : r.Canonical text → Rule.Canonical (.string r) (.str text)
  | number {r : NumberRule} {n : Number} : r.Meets n → Rule.Canonical (.number r) (.num n)
  | boolean {b : Bool} : Rule.Canonical .boolean (.bool b)
  | enum {values : List String} {s : String} : s ∈ values → Rule.Canonical (.enum values) (.str s)
  | array {element : Validator} {low high : Option Nat} {items : List Json} :
      (∀ n ∈ low, n ≤ items.length) → (∀ n ∈ high, items.length ≤ n) →
      (∀ item ∈ items, element.Canonical item) → Rule.Canonical (.array element low high) (.arr items)
  | object {fields : List (String × Validator)} {given : List (String × Json)} :
      (∀ name field, (name, field) ∈ fields → field.required = true →
        ∃ v, Table.get? name given = some v) →
      (∀ name field, (name, field) ∈ fields → ∀ v, Table.get? name given = some v →
        field.Canonical v) →
      Rule.Canonical (.object fields) (.obj given)
  | named {name : TypeName} {target : Validator} {v : Json} :
      c.get? name = some target → target.rule.Canonical v → Rule.Canonical (.named name) v

end

end

section Kept

variable {format : Option Format} {r : StringRule} {text : String} {v : Json} {path : FieldPath}

theorem Json.counts_of_not_null (hnull : v ≠ .null) : v.Counts false := by
  by_contra hcounts
  cases ((not_counts_iff hnull).mp hcounts).1

/-- The canonical texts of a format are those that it makes of themselves. -/
theorem Format.canonical_iff :
    Format.Canonical format text ↔ Coerce.formatted format (.str text) = .ok text := by
  have hchecked : ∀ holds : String → Bool,
      Coerce.checked holds text = .ok text ↔ holds text = true := by
    intro holds
    cases hholds : holds text <;> simp [Coerce.checked, hholds]
  cases format with
  | none => simp [Format.Canonical, Coerce.formatted, Coerce.text]
  | some f =>
    cases f with
    | email => exact (hchecked Email.isAddress).symm
    | url => exact (hchecked Url.isAbsolute).symm
    | _ => exact Iff.rfl

theorem StringRule.Canonical.kept (h : r.Canonical text) (path : FieldPath) :
    r.check path (.str text) = Outcome.kept (.str text) := by
  have hformatted := Format.canonical_iff.mp h.format
  have hwrites := Coerce.formatted_writes hformatted
  exact check_kept ⟨hwrites, h.long, h.short, h.pattern⟩
    ((Coerce.formatted_str_iff hwrites).mp hformatted) path

/-- Only a canonical text comes out as it was. -/
theorem StringRule.canonical_of_kept (haccepted : (r.check path v).accepted = true)
    (hkept : (r.check path v).output = some v) : ∃ text, v = .str text ∧ r.Canonical text := by
  rw [check] at haccepted hkept
  cases hformatted : Coerce.formatted r.format v with
  | error reason =>
    rw [hformatted] at hkept
    cases hkept
  | ok text =>
    rw [hformatted] at haccepted hkept
    have hbroken : r.broken path v text = [] := List.isEmpty_iff.mp haccepted
    simp only [Outcome.keptUnless, hbroken] at hkept
    cases hkept
    obtain ⟨hlong, hshort, hpattern⟩ := r.broken_eq_nil_iff.mp hbroken
    exact ⟨text, rfl, Format.canonical_iff.mpr hformatted, hlong, hshort, hpattern⟩

end Kept

section Settling

variable {c : Cache}

mutual

/-- A canonical value is handed on as it is. -/
theorem Validator.Canonical.settles (hdistinct : c.Distinct) : {validator : Validator} →
    {v : Json} → validator.Canonical c v → validator.All Rule.Distinct → v.Ordered →
      validator.Settles c false v
  | _, _, .null, _, _ => Validator.settles_null
  | _, _, .value hnull hrule, hall, hordered =>
    Validator.settles_of_counts (Json.counts_of_not_null hnull)
      (Rule.Canonical.settles hdistinct hrule hall hordered)

theorem Rule.Canonical.settles (hdistinct : c.Distinct) : {rule : Rule} → {v : Json} →
    rule.Canonical c v → rule.All Rule.Distinct → v.Ordered → rule.Settles c false v
  | _, _, .accept, _, _ => Rule.settles_of_check fun _ _ => rfl
  | _, _, .string htext, _, _ =>
    Rule.settles_of_check fun _ path => congrArg some (htext.kept path)
  | _, _, .number hmeets, _, _ =>
    Rule.settles_of_check fun _ path => congrArg some (NumberRule.check_kept hmeets path)
  | _, _, .boolean, _, _ => Rule.settles_of_check fun _ _ => rfl
  | _, _, .enum hmem, _, _ =>
    Rule.settles_of_check fun _ path => congrArg some (Check.enum_kept hmem path)
  | _, _, .array hlow hhigh hitems, ⟨_, hall⟩, .arr hordered => by
    refine Rule.settles_array hlow hhigh fun item hitem => ?_
    exact Validator.Canonical.settles hdistinct (hitems item hitem) hall (hordered item hitem)
  | .object fields, .obj given, .object hrequired hfields, ⟨_, hall⟩, hordered => by
    have hkeys : Table.Ordered given := by
      cases hordered with
      | obj hkeys _ => exact hkeys
    refine Rule.settles_object hkeys ?_
    rintro ⟨name, field⟩ hmem
    constructor
    · intro habsent
      cases hneeded : field.required with
      | false => rfl
      | true =>
        obtain ⟨v, hv⟩ := hrequired name field hmem hneeded
        rw [habsent] at hv
        cases hv
    · intro v hv
      exact Validator.Canonical.settles hdistinct (hfields name field hmem v hv)
        (Validator.all_of_mem_fields hall hmem) (hordered.get? hv)
  | _, _, .named hget hrule, _, hordered =>
    Rule.settles_named hget
      (Rule.Canonical.settles hdistinct hrule (Validator.all_rule (hdistinct _ _ hget)) hordered)

end

end Settling

section Fixing

variable {c : Cache} {hops : Nat} {rule : Rule} {validator : Validator} {path : FieldPath} {v : Json}
  {o : Outcome}

/-- Where no union is reached, only canonical values come out of the rule as they are. -/
def Rule.Fixes (c : Cache) (hops : Nat) (rule : Rule) : Prop :=
  rule.Unionless c → ∀ path v o, v ≠ .null →
    rule.check (c.hop false hops) false path v = some o → o.accepted = true → o.output = some v →
      rule.Canonical c v

theorem Validator.canonical_of_kept (hrule : validator.rule.Fixes c hops)
    (hunionless : validator.rule.Unionless c)
    (h : validator.apply (c.hop false hops) false path (some v) = some o)
    (haccepted : o.accepted = true) (hkept : o.output = some v) : validator.Canonical c v := by
  obtain ⟨required, nullable, rule⟩ := validator
  rcases apply_cases h with ⟨w, ⟨⟩, hcounts, hcheck⟩ | ⟨⟨⟩, hnullable, -⟩ | ⟨-, shown, -, rfl⟩
  · exact .value hcounts.notNull (hrule hunionless path v o hcounts.notNull hcheck haccepted hkept)
  · cases hnullable
    exact .null
  · cases required with
    | true => cases haccepted
    | false => cases hkept

theorem Rule.fixes_array {element : Validator} {low high : Option Nat} (htight : c.Tight)
    (hall : element.All Rule.Tight) (hrequired : element.required = true)
    (h : element.rule.Fixes c hops) : (array element low high).Fixes c hops := by
  intro hunionless path v o hnull hcheck haccepted hkept
  rcases check_array_cases hcheck with ⟨items, outcomes, hitems, hchecked, rfl⟩ | rfl
  · rcases Check.items?_cases hnull hitems with rfl | ⟨⟨⟩, -⟩
    obtain ⟨hcounts, hall_clean⟩ := Check.gather_accepted_iff.mp haccepted
    obtain ⟨hlow, hhigh⟩ := Check.brokenCounts_eq_nil_iff.mp hcounts
    have hitemwise : List.Forall₂ (fun item o => ∃ p,
        element.apply (c.hop false hops) false p (some item) = some o) items outcomes := by
      rw [← List.zipIdx_map_fst 0 items, List.forall₂_map_left_iff]
      exact hchecked.imp fun _ _ happly => ⟨_, happly⟩
    have houtputs : outcomes.map (fun o => Json.orNull o.output) = items := by
      cases hkept
      rfl
    rw [← houtputs, List.forall₂_map_left_iff, List.forall₂_same] at hitemwise
    refine .array hlow hhigh fun item hitem => ?_
    rw [← houtputs] at hitem
    obtain ⟨o, ho, rfl⟩ := List.mem_map.mp hitem
    obtain ⟨p, happly⟩ := hitemwise o ho
    have hclean := hall_clean o ho
    -- an item is required, so it is not a null that stands for an item left out
    obtain ⟨w, hw⟩ := (Validator.apply_conforms (hop_conforms htight _) element hall happly
      hclean).2 hrequired
    rw [hw] at happly ⊢
    exact Validator.canonical_of_kept h (hunionless.leads .element) happly hclean hw
  · cases haccepted

theorem Rule.fixes_object {fields : List (String × Validator)}
    (hnodup : (Table.keys fields).Nodup) (h : ∀ entry ∈ fields, entry.2.rule.Fixes c hops) :
    (object fields).Fixes c hops := by
  intro hunionless path v o _ hcheck haccepted hkept
  rcases check_object_cases hcheck with ⟨given, output, outcomes, rfl, rfl, -, hkeys⟩ | rfl
  · cases hkept
    have hfield : ∀ name field, (name, field) ∈ fields → ∃ o, o.accepted = true ∧
        field.apply (c.hop false hops) false (path.push (.key name)) (Table.get? name given) =
          some o ∧ Table.get? name given = o.output := by
      intro name field hmem
      obtain ⟨o, ho, happly, houtput⟩ :=
        (hkeys name).2 field (Table.get?_ofList_of_mem hnodup hmem)
      exact ⟨o, Outcome.all_accepted_iff.mp haccepted o ho, happly, houtput⟩
    constructor
    · intro name field hmem hrequired
      obtain ⟨o, hclean, happly, houtput⟩ := hfield name field hmem
      cases hget : Table.get? name given with
      | some v => exact ⟨v, rfl⟩
      | none =>
        obtain ⟨required, nullable, rule⟩ := field
        cases hrequired
        rw [hget, Validator.apply_absent] at happly
        cases happly
        cases hclean
    · intro name field hmem v hget
      obtain ⟨o, hclean, happly, houtput⟩ := hfield name field hmem
      rw [hget] at happly houtput
      exact Validator.canonical_of_kept (h _ hmem) (hunionless.leads (.field hmem)) happly hclean
        houtput.symm
  · cases haccepted

/-- Every rule fixes just canonical values, if the rules of the types that it hops to do. -/
theorem Rule.fixes_of_hops (htight : c.Tight) (hhop : ∀ name, (named name).Fixes c hops)
    (rule : Rule) (htightly : rule.All Rule.Tight) (hdistinctly : rule.All Rule.Distinct) :
    rule.Fixes c hops := by
  induction rule using Rule.induction with
  | step rule ih =>
    cases rule with
    | union branches => exact fun hunionless => absurd .refl (hunionless branches)
    | array element low high =>
      exact fixes_array htight htightly.2 htightly.1
        (ih element List.mem_cons_self (Validator.all_rule htightly.2)
          (Validator.all_rule hdistinctly.2))
    | object fields =>
      refine fixes_object hdistinctly.1 fun entry hentry => ?_
      exact ih entry.2 (List.mem_map_of_mem hentry)
        (Validator.all_rule (Validator.all_of_mem_fields htightly.2 hentry))
        (Validator.all_rule (Validator.all_of_mem_fields hdistinctly.2 hentry))
    | named name => exact hhop name
    | accept excluded => exact fun _ _ _ _ _ _ _ _ => .accept
    | string r =>
      rintro - path v o - ⟨⟩ haccepted hkept
      obtain ⟨text, rfl, htext⟩ := StringRule.canonical_of_kept haccepted hkept
      exact .string htext
    | number r =>
      rintro - path v o - ⟨⟩ haccepted hkept
      obtain ⟨w, hw, n, rfl, hmeets⟩ := r.check_yields haccepted
      rw [hkept] at hw
      cases hw
      exact .number hmeets
    | boolean =>
      rintro - path v o - ⟨⟩ haccepted hkept
      obtain ⟨w, hw, b, rfl⟩ := Check.boolean_yields haccepted
      rw [hkept] at hw
      cases hw
      exact .boolean
    | enum values =>
      rintro - path v o - ⟨⟩ haccepted hkept
      obtain ⟨w, -, rfl, s, hs, rfl⟩ := Check.enum_yields values haccepted
      exact .enum hs

end Fixing

namespace Cache

variable {c : Cache} {validator : Validator} {v : Json}

theorem hop_fixes (htight : c.Tight) (hdistinct : c.Distinct) (hops : Nat) (name : TypeName) :
    (Rule.named name).Fixes c hops := by
  induction hops generalizing name with
  | zero =>
    intro _ path v o _ hcheck
    cases hcheck
  | succ hops ih =>
    intro hunionless path v o hnull hcheck haccepted hkept
    rcases hop_cases hcheck with rfl | ⟨target, hget, hcheck⟩
    · cases haccepted
    · have hfixes : target.rule.Fixes c hops := Rule.fixes_of_hops htight ih target.rule
        (Validator.all_rule (htight _ _ hget)) (Validator.all_rule (hdistinct _ _ hget))
      exact .named hget
        (hfixes (hunionless.leads (.named hget)) path v o hnull hcheck haccepted hkept)

/-- Where no union is reached, the values that are handed on as they are are the canonical ones. -/
theorem outcome_kept_iff_canonical (htight : c.Tight) (hdistinct : c.Distinct)
    (htightly : validator.All Rule.Tight) (hdistinctly : validator.All Rule.Distinct)
    (hunionless : validator.rule.Unionless c) (hordered : v.Ordered) :
    (∃ o, c.outcome? validator false v = some o ∧ o.accepted = true ∧ o.output = some v) ↔
      validator.Canonical c v := by
  constructor
  · rintro ⟨o, ho, haccepted, hkept⟩
    refine Validator.canonical_of_kept ?_ hunionless ho haccepted hkept
    exact Rule.fixes_of_hops htight (hop_fixes htight hdistinct _) validator.rule
      (Validator.all_rule htightly) (Validator.all_rule hdistinctly)
  · intro hcanonical
    exact ⟨_, outcome_of_settles (hcanonical.settles hdistinct hdistinctly hordered), rfl, rfl⟩

end Cache

namespace Session

variable {store : Store} {calls : List Call} {target : Target} {channel : Channel} {t : Session}
  {validator : Validator} {v : Json}

/--
After any calls, where the target leads to no union, a value on a channel that is not string-encoded
is accepted as it is just if it is canonical.
-/
theorem accepted_as_given_iff_canonical (hstore : store.Ordered) (htarget : target.Ordered)
    (hordered : v.Ordered) (hchannel : channel.stringEncoded = false)
    (hfor : (after store calls).validatorFor target (locationOf channel) = (.ok validator, t))
    (hunionless : validator.rule.Unionless t.cache) :
    ((after store calls).validate v target channel).1 = .accepted v ↔
      validator.Canonical t.cache v := by
  obtain ⟨hcompiled, hcoherent⟩ := validatorFor_after hfor
  have hbefore := after_coherent store calls
  obtain ⟨hrequired, htightly⟩ := Store.tight_of_compileTarget hbefore hcompiled
  have htight := Store.tight_of_coherent hcoherent
  rw [← outcome_kept_iff_canonical htight (hstore.distinct_of_coherent hcoherent) htightly
    (hstore.distinct_of_compileTarget htarget hbefore hcompiled) hunionless hordered,
    validate_of_validatorFor hfor, hchannel, Verdict.ofOutcome_eq_accepted_iff]
  constructor
  · rintro ⟨o, ho, haccepted, hv⟩
    obtain ⟨w, hw⟩ := (validator.apply_conforms (hop_conforms htight _) htightly ho haccepted).2
      hrequired
    rw [hw] at hv
    exact ⟨o, ho, haccepted, by rw [hw, hv]; rfl⟩
  · rintro ⟨o, ho, haccepted, hkept⟩
    exact ⟨o, ho, haccepted, by rw [hkept]; rfl⟩

theorem treeStore_ordered : treeStore.Ordered where
  definition := by
    intro name d hd
    have hmem : (name, d) ∈ [(treeName, treeDefinition)] := Table.mem_of_get? hd
    cases List.mem_singleton.mp hmem
    refine .mk nofun nofun nofun nofun (fun ps hps => ?_) fun ps hps => ?_
    · cases hps
      decide
    · cases hps
      refine List.forall_mem_singleton.mpr (.mk nofun nofun nofun (fun e he => ?_) nofun nofun)
      cases he
      exact .mk nofun nofun nofun nofun nofun nofun
  fields := nofun

/-- A tree with two children, one of which does not list its own, is canonical. -/
theorem nested_tree_canonical :
    let tree := Json.obj [("children", .arr [.obj [("children", .arr [])], .obj []])]
    ∃ validator t,
      (after treeStore []).validatorFor (.named treeName) (locationOf .body) = (.ok validator, t) ∧
      ((after treeStore []).validate tree (.named treeName) .body).1 = .accepted tree ∧
      validator.Canonical t.cache tree := by
  intro tree
  have haccepted : ((after treeStore []).validate tree (.named treeName) .body).1 =
      .accepted tree := Verdict.eq_accepted (by decide +kernel)
  have hordered : tree.Ordered := by
    have hleaf : (Json.obj []).Ordered := .obj (by decide) nofun
    have hparent : (Json.obj [("children", .arr [])]).Ordered :=
      .obj (by decide) (List.forall_mem_singleton.mpr (.arr nofun))
    refine .obj (by decide) (List.forall_mem_singleton.mpr (.arr ?_))
    exact List.forall_mem_cons.mpr ⟨hparent, List.forall_mem_singleton.mpr hleaf⟩
  have hunions : ((after treeStore []).validatorFor (.named treeName) (locationOf .body)).1.toOption.any
      (fun validator => (validator.rule.known ((after treeStore []).validatorFor (.named treeName)
        (locationOf .body)).2.cache).all fun r => !r.isUnion) = true := by decide +kernel
  cases hfor : (after treeStore []).validatorFor (.named treeName) (locationOf .body) with
  | mk answer t =>
    rw [hfor] at hunions
    cases answer with
    | error e => cases hunions
    | ok validator =>
      refine ⟨validator, t, rfl, haccepted, ?_⟩
      have htarget : (Target.named treeName).Ordered := trivial
      exact (accepted_as_given_iff_canonical treeStore_ordered htarget hordered rfl hfor
        (Rule.unionless_of_known hunions)).mp haccepted

end Session

end Conform
