import Conform.Proofs.Resting
import Conform.Proofs.WarmUp

/-!
# Validating again

A session that validates its own answer compiles the target once more, with a
fuller cache. References can only turn out more nullable there, so the answer
still conforms; it comes back as it is just if it rests.
-/

namespace Conform

open Cache

section Growing

variable {c c' : Cache} {encoded : Bool}

mutual

/-- What conforms goes on to conform when more types are cached. -/
theorem Validator.Conforms.grow (hc : c.Extends c') : {validator : Validator} → {w : Json} →
    validator.Conforms c encoded w → validator.Conforms c' encoded w
  | _, _, .null => .null
  | _, _, .value hcounts hrule => .value hcounts (Rule.Conforms.grow hc hrule)

theorem Rule.Conforms.grow (hc : c.Extends c') : {rule : Rule} → {w : Json} →
    rule.Conforms c encoded w → rule.Conforms c' encoded w
  | _, _, .accept => .accept
  | _, _, .string hmeets => .string hmeets
  | _, _, .number hmeets => .number hmeets
  | _, _, .boolean => .boolean
  | _, _, .enum hmem => .enum hmem
  | _, _, .union hmem hbranch => .union hmem (Validator.Conforms.grow hc hbranch)
  | _, _, .array hlow hhigh hitems =>
    .array hlow hhigh fun item hitem => Validator.Conforms.grow hc (hitems item hitem)
  | _, _, .object hrequired hfields =>
    .object hrequired fun name field hfield w hw =>
      Validator.Conforms.grow hc (hfields name field hfield w hw)
  | _, _, .named hget hrule => .named (hc _ _ hget) (Rule.Conforms.grow hc hrule)

end

theorem Validator.conforms_iff {required nullable : Bool} {rule : Rule} {w : Json} :
    Validator.Conforms c encoded ⟨required, nullable, rule⟩ w ↔
      nullable = true ∧ w = .null ∨ w.Counts encoded ∧ rule.Conforms c encoded w := by
  constructor
  · intro h
    cases h with
    | null => exact Or.inl ⟨rfl, rfl⟩
    | value hcounts hrule => exact Or.inr ⟨hcounts, hrule⟩
  · rintro (⟨rfl, rfl⟩ | ⟨hcounts, hrule⟩)
    · exact .null
    · exact .value hcounts hrule

end Growing

section Relaxing

variable {s : Store} {f g : TypeName → Bool} {c : Cache} {encoded : Bool}

/-- Every validated type that the one function calls nullable, the other does too. -/
def Store.Relaxes (s : Store) (f g : TypeName → Bool) : Prop :=
  ∀ name, s.isExcluded name = false → f name = true → g name = true

theorem Node.admitsNull_relax (hfg : s.Relaxes f g) {node : Node}
    (h : node.admitsNull s f = true) : node.admitsNull s g = true := by
  obtain ⟨shape, nullable, pinned⟩ := node
  cases shape with
  | reference name =>
    have hname := hfg name
    unfold admitsNull NodeShape.inherits at h ⊢
    cases hexcluded : s.isExcluded name with
    | true => simpa [hexcluded] using h
    | false =>
      cases hf : f name with
      | true => simp_all
      | false =>
        have hown : nullable = true := by simpa [hf] using h
        simp [hown]
  | _ => exact h

mutual

/-- What conforms to a node goes on to conform where more types are nullable. -/
theorem Node.Builds.relax (hfg : s.Relaxes f g) : (node : Node) → ∀ {required v v' w},
    node.Builds s f required v → node.Builds s g required v' → v.Conforms c encoded w →
      v'.Conforms c encoded w
  | ⟨shape, nullable, pinned⟩, _, _, _, w, .mk h, .mk h', hconforms => by
    rw [Validator.conforms_iff] at hconforms ⊢
    rcases hconforms with ⟨hnull, rfl⟩ | ⟨hcounts, hrule⟩
    · exact Or.inl ⟨Node.admitsNull_relax hfg hnull, rfl⟩
    · exact Or.inr ⟨hcounts, NodeShape.Builds.relax hfg shape h h' hrule⟩

theorem NodeShape.Builds.relax (hfg : s.Relaxes f g) : (shape : NodeShape) → ∀ {rule rule' w},
    shape.Builds s f rule → shape.Builds s g rule' → rule.Conforms c encoded w →
      rule'.Conforms c encoded w
  | .primitive p, _, _, _, .primitive h, .primitive h', hconforms => by
    rw [← Primitive.rule_unique h h']
    exact hconforms
  | .enum _, _, _, _, .enum, .enum, hconforms => hconforms
  | .union branches, _, _, _, .union h, .union h', .union hmem hbranch => by
    obtain ⟨branch, hmem', hbranch'⟩ := Node.BuildsBranches.relax hfg branches h h' hmem hbranch
    exact .union hmem' hbranch'
  | .array element _ _, _, _, _, .array h, .array h', .array hlow hhigh hitems =>
    .array hlow hhigh fun item hitem => Node.Builds.relax hfg element h h' (hitems item hitem)
  | .object fields, _, _, _, .object h, .object h', .object hrequired hfields => by
    refine .object ?_ ?_
    · intro name field hfield hneeded
      obtain ⟨first, hfirst, hsame, -⟩ := Node.BuildsFields.relax hfg fields h h' name hfield
      exact hrequired name first hfirst (hsame.trans hneeded)
    · intro name field hfield w hw
      obtain ⟨first, hfirst, -, hrelax⟩ := Node.BuildsFields.relax hfg fields h h' name hfield
      exact hrelax w (hfields name first hfirst w hw)
  | .reference _, _, _, _, .accept _, .accept _, hconforms => hconforms
  | .reference _, _, _, _, .accept hname, .named hname', _ => by
    rw [hname] at hname'
    cases hname'
  | .reference _, _, _, _, .named hname, .accept hname', _ => by
    rw [hname] at hname'
    cases hname'
  | .reference _, _, _, _, .named _, .named _, hconforms => hconforms

theorem Node.BuildsBranches.relax (hfg : s.Relaxes f g) : (branches : List Node) →
    ∀ {vs vs' branch w}, Node.BuildsBranches s f branches vs →
      Node.BuildsBranches s g branches vs' → branch ∈ vs → branch.Conforms c encoded w →
      ∃ branch' ∈ vs', branch'.Conforms c encoded w
  | [], _, _, _, _, .nil, _, hmem, _ => by cases hmem
  | first :: rest, _, _, branch, w, .cons h hrest, .cons h' hrest', hmem, hconforms => by
    rcases List.mem_cons.mp hmem with rfl | hmem
    · exact ⟨_, List.mem_cons_self, Node.Builds.relax hfg first h h' hconforms⟩
    · obtain ⟨branch', hmem', hconforms'⟩ :=
        Node.BuildsBranches.relax hfg rest hrest hrest' hmem hconforms
      exact ⟨branch', List.mem_cons_of_mem _ hmem', hconforms'⟩

theorem Node.BuildsFields.relax (hfg : s.Relaxes f g) : (fields : List (String × NodeField)) →
    ∀ {vs vs'}, Node.BuildsFields s f fields vs → Node.BuildsFields s g fields vs' →
      ∀ name {field'}, Table.get? name (Table.ofList vs') = some field' →
      ∃ field, Table.get? name (Table.ofList vs) = some field ∧
        field.required = field'.required ∧
        ∀ w, field.Conforms c encoded w → field'.Conforms c encoded w
  | [], _, _, .nil, .nil, name, field', hfield' => by cases hfield'
  | (key, ⟨required, node⟩) :: rest, _, _, .cons h hrest, .cons h' hrest', name, field',
      hfield' => by
    rw [Table.get?_ofList_cons] at hfield' ⊢
    rcases Option.or_eq_some_iff.mp hfield' with hlater | ⟨hlater, hfirst⟩
    · obtain ⟨field, hfield, hsame, hrelax⟩ :=
        Node.BuildsFields.relax hfg rest hrest hrest' name hlater
      exact ⟨field, Option.or_eq_some_iff.mpr (Or.inl hfield), hsame, hrelax⟩
    · split at hfirst
      · next hname =>
        cases hfirst
        have hnone : Table.get? name (Table.ofList _) = none :=
          Table.get?_ofList_eq_none_iff.mpr (hrest.keys ▸ hrest'.keys ▸
            Table.get?_ofList_eq_none_iff.mp hlater)
        refine ⟨_, Option.or_eq_some_iff.mpr (Or.inr ⟨hnone, if_pos hname⟩), ?_, ?_⟩
        · exact h.required.trans h'.required.symm
        · exact fun w hw => Node.Builds.relax hfg node h h' hw
      · cases hfirst

end

end Relaxing

namespace Store

variable {s : Store} {c c' last : Cache} {target : Target} {location : String}
  {v v' : Validator} {encoded : Bool} {w : Json}

/-- References are as nullable in a fuller cache. -/
theorem relaxes_inherited (hother : Coherent s c') (h : c.Extends c') :
    s.Relaxes (c.inherited · s) (c'.inherited · s) := by
  intro name hname hnullable
  dsimp only at hnullable ⊢
  unfold Cache.inherited at hnullable ⊢
  cases hget : c.get? name with
  | some v =>
    rw [hget] at hnullable
    rw [h name v hget]
    exact hnullable
  | none =>
    rw [hget] at hnullable
    cases hget' : c'.get? name with
    | none => exact hnullable
    | some v =>
      obtain ⟨inherited, node, noted, hlowers, hrun⟩ := hother.ideal hget' hname
      obtain ⟨-, -, -, hadmits⟩ := ideal_reads hrun
      rw [hlowers.ownNullable] at hnullable
      dsimp only at hnullable ⊢
      rw [hadmits, Node.admitsNull, hnullable, Bool.true_or]

/-- What conforms to a target conforms to it once more when it is compiled again. -/
theorem conforms_again (hc : Coherent s c) (h : s.compileTarget c target location = .ok (v, c'))
    (hagain : s.compileTarget c' target location = .ok (v', last))
    (hconforms : v.Conforms c' encoded w) : v'.Conforms last encoded w := by
  have hgrows : c'.Extends last := (compileTarget_ok hagain).1.extends
  refine Validator.Conforms.grow hgrows ?_
  cases target with
  | named name =>
    obtain ⟨-, hget⟩ := compileNamed_ok h
    have hcached := (compileNamed_cached hget).symm.trans hagain
    cases hcached
    exact hconforms
  | inline d =>
    have hupdate := (compileTarget_ok h).1
    obtain ⟨node, hlower, hbuilds⟩ := compileInline_builds h
    obtain ⟨node', hlower', hbuilds'⟩ := compileInline_builds hagain
    cases hlower.symm.trans hlower'
    have hrelaxes := relaxes_inherited (hupdate.coherent hc) hupdate.extends
    exact Node.Builds.relax hrelaxes node hbuilds hbuilds' hconforms

end Store

namespace Session

variable {s : Session} {target : Target} {channel : Channel} {v w : Json}

theorem validate_snd (s : Session) (v : Json) (target : Target) (channel : Channel) :
    (s.validate v target channel).2 = (s.validatorFor target (locationOf channel)).2 := by
  unfold validate
  split
  · next hfor => rw [hfor]
  · next hfor => rw [hfor]

/-- A target that has accepted a value compiles again, to what the value conforms to. -/
theorem conforms_again (hs : Coherent s.store s.cache)
    (h : (s.validate v target channel).1 = .accepted w) :
    ∃ validator, (s.validate v target channel).2.validatorFor target (locationOf channel) =
        (.ok validator, ((s.validate v target channel).2.validate w target channel).2) ∧
      validator.Conforms ((s.validate v target channel).2.validate w target channel).2.cache
        channel.stringEncoded w := by
  obtain ⟨validator, hfor, -, hconforms⟩ := conforms_of_accepted hs h
  generalize (s.validate v target channel).2 = first at hfor hconforms ⊢
  have hadvances := validatorFor_advances s target (locationOf channel)
  rw [hfor] at hadvances
  have hcompiles : first.store.CanCompile target := by
    rw [hadvances.store]
    exact (validatorFor_succeeds_iff hs target _).mp ⟨validator, by rw [hfor]⟩
  obtain ⟨validator', hvalidator'⟩ :=
    (validatorFor_succeeds_iff (hadvances.coherent hs) target (locationOf channel)).mpr hcompiles
  have hagain : first.validatorFor target (locationOf channel) =
      (.ok validator', (first.validate w target channel).2) :=
    Prod.ext hvalidator' (validate_snd first w target channel).symm
  refine ⟨validator', hagain, ?_⟩
  have hsecond := validatorFor_ok hagain
  rw [hadvances.store] at hsecond
  exact Store.conforms_again hs (validatorFor_ok hfor) hsecond hconforms

/-- What is accepted is in order if the value was. -/
theorem ordered_of_accepted (hv : v.Ordered) (h : (s.validate v target channel).1 = .accepted w) :
    w.Ordered := by
  obtain ⟨validator, -, o, ho, -, rfl⟩ := exists_outcome_of_accepted h
  have hordered := outcome_ordered hv ho
  cases houtput : o.output with
  | none => exact .null
  | some w => exact hordered w houtput

/-- After any calls, an accepted answer is accepted again, as it is, just if it rests. -/
theorem validate_again_iff (store : Store) (hstore : store.Ordered) (calls : List Call)
    (htarget : target.Ordered) (hv : v.Ordered)
    (h : ((after store calls).validate v target channel).1 = .accepted w) :
    let first := (after store calls).validate v target channel
    let again := first.2.validate w target channel
    ∃ validator, first.2.validatorFor target (locationOf channel) = (.ok validator, again.2) ∧
      validator.Conforms again.2.cache channel.stringEncoded w ∧
      (validator.Keeps again.2.cache channel.stringEncoded w →
        (again.1 = .accepted w ↔ validator.Rests again.2.cache channel.stringEncoded w)) := by
  intro first again
  have hfirst : (after store calls).Advances first.2 := validate_advances _ v target channel
  have hagain : first.2.Advances again.2 := validate_advances _ w target channel
  have hbefore : Coherent (after store calls).store (after store calls).cache :=
    (after_advances store calls).coherent (Coherent.empty store)
  have hbetween := hfirst.coherent hbefore
  have hcoherent := hagain.coherent hbetween
  obtain ⟨validator, hfor, hconforms⟩ := conforms_again hbefore h
  refine ⟨validator, hfor, hconforms, fun hkeeps => ?_⟩
  have htarget' := validatorFor_ok hfor
  obtain ⟨hrequired, htightly⟩ := Store.tight_of_compileTarget hbetween htarget'
  have htight := Store.tight_of_coherent hcoherent
  have hordered : first.2.store.Ordered := by
    rw [hfirst.store, after_store]
    exact hstore
  have hdistinct : again.2.cache.Distinct := by
    refine Store.Ordered.distinct_of_coherent ?_ hcoherent
    rw [hagain.store]
    exact hordered
  have hdistinctly := hordered.distinct_of_compileTarget htarget hbetween htarget'
  have hkept := outcome_kept_iff htight hdistinct htightly hdistinctly
    (ordered_of_accepted hv h) hconforms hkeeps
  have hverdict : again.1 = Verdict.ofOutcome channel target.label
      (again.2.cache.outcome? validator channel.stringEncoded w) :=
    congrArg Prod.fst (validate_of_validatorFor hfor)
  rw [← hkept, hverdict, Verdict.ofOutcome_eq_accepted_iff]
  constructor
  · rintro ⟨o, ho, haccepted, heq⟩
    obtain ⟨w', hw', -⟩ := outcome_conforms htight htightly hrequired ho haccepted
    obtain ⟨output, issues⟩ := o
    cases hw'
    cases List.isEmpty_iff.mp haccepted
    cases heq
    exact ho
  · intro ho
    exact ⟨_, ho, rfl, rfl⟩

/-- A union of schema objects that ask for one kind each. -/
def kindUnion (kinds : List String) : Definition where
  oneOf := some (kinds.map fun kind => plainDefinition { kinds := some (.one kind) })

theorem kindUnion_ordered (kinds : List String) : (kindUnion kinds).Ordered := by
  refine .mk ?_ nofun nofun nofun nofun nofun
  rintro ds ⟨⟩ e he
  obtain ⟨kind, -, rfl⟩ := List.mem_map.mp he
  exact .mk nofun nofun nofun nofun nofun nofun

/-- A number that is accepted as a text is a text ever after. -/
theorem validate_text_again :
    let target := Target.inline (kindUnion ["string", "boolean"])
    let first := (after Store.empty []).validate (.num (.int 1)) target .body
    first.1 = .accepted (.str "1") ∧
      (first.2.validate (.str "1") target .body).1 = .accepted (.str "1") := by
  intro target first
  have haccepted : first.1 = .accepted (.str "1") := Verdict.eq_accepted (by decide +kernel)
  refine ⟨haccepted, ?_⟩
  have hstore : Store.empty.Ordered := ⟨nofun, nofun⟩
  have htarget : target.Ordered := kindUnion_ordered ["string", "boolean"]
  obtain ⟨validator, hfor, -, hagain⟩ :=
    validate_again_iff Store.empty hstore [] htarget (.num _) haccepted
  let text : Rule := .string ⟨none, none, none, none⟩
  have hvalidator : (first.2.validatorFor target (locationOf .body)).1 =
      .ok ⟨true, false, .union [⟨true, false, text⟩, ⟨true, false, .boolean⟩]⟩ := rfl
  have heq : validator = ⟨true, false, .union [⟨true, false, text⟩, ⟨true, false, .boolean⟩]⟩ := by
    rw [hfor] at hvalidator
    exact Except.ok.inj hvalidator
  subst heq
  have hmeets : StringRule.Meets ⟨none, none, none, none⟩ "1" :=
    ⟨trivial, nofun, nofun, nofun⟩
  refine (hagain ?_).mpr ?_
  · refine .value (.union fun branch hbranch hconforms => ?_)
    rcases List.mem_pair.mp hbranch with rfl | rfl
    · exact .value (.string trivial)
    · exact .value .boolean
  · have hconforms : Validator.Conforms (first.2.validate (.str "1") target .body).2.cache false
        ⟨true, false, text⟩ (.str "1") :=
      .value (Json.counts_str_iff.mpr nofun) (.string hmeets)
    have hfirst : Rule.Rests (first.2.validate (.str "1") target .body).2.cache false
        (.union ([] ++ ⟨true, false, text⟩ :: [⟨true, false, .boolean⟩])) (.str "1") :=
      .union (fun _ hmem => absurd hmem List.not_mem_nil) hconforms (.value .string)
    exact .value hfirst

/-- A number that is accepted as a text, behind a branch that takes any text for a boolean. -/
theorem validate_text_differs :
    let target := Target.inline (kindUnion ["boolean", "string"])
    let first := (after Store.empty []).validate (.num (.int 1)) target .body
    first.1 = .accepted (.str "1") ∧
      (first.2.validate (.str "1") target .body).1 = .accepted (.bool false) := by
  intro target first
  constructor
  · exact Verdict.eq_accepted (by decide +kernel)
  · exact Verdict.eq_accepted (by decide +kernel)

end Session

end Conform
