import Conform.Proofs.Checking
import Conform.Proofs.Ordered

/-!
# The shape of accepted values

What is accepted comes out in the shape that it went in: objects with their
keys, arrays with their length, scalars as scalars. A key goes only where its
value may be left out, and what a validator declares no field for stays as it
is. On a string channel a scalar may come out inside lists of one.
-/

namespace Conform

open Cache

section

variable (encoded : Bool)

/-- A scalar or, on a string channel, a list of just one such value. -/
inductive Json.HoldsScalar : Json → Prop
  | scalar {w : Json} : w.isScalar = true → Json.HoldsScalar w
  | list {w : Json} : encoded = true → Json.HoldsScalar w → Json.HoldsScalar (.arr [w])

/-- The first value comes out as the second, in the same shape at every depth. -/
inductive Json.Retains : Json → Json → Prop
  | null : Json.Retains .null .null
  | scalar {v w : Json} : v.isScalar = true → w.HoldsScalar encoded → Json.Retains v w
  | arr {items values : List Json} : items.length = values.length →
      (∀ (i : Nat) item value, items[i]? = some item → values[i]? = some value →
        Json.Retains item value) → Json.Retains (.arr items) (.arr values)
  /-- No key comes in, a key goes only where its value may be left out, and all others stay. -/
  | obj {given output : List (String × Json)} :
      (∀ key w, Table.get? key output = some w → ∃ v, Table.get? key given = some v) →
      (∀ key v, Table.get? key given = some v → Table.get? key output = none →
        v.Omittable encoded) →
      (∀ key v w, Table.get? key given = some v → Table.get? key output = some w →
        Json.Retains v w) → Json.Retains (.obj given) (.obj output)

end

/-- The rule takes scalars alone and looks at nothing inside them. -/
def Rule.isLeaf : Rule → Bool
  | .string _ | .number _ | .boolean | .enum _ => true
  | _ => false

section

variable (c : Cache) (encoded : Bool)

mutual

/-- The value comes out as the other one, and what the validator does not declare is as it was. -/
inductive Validator.Carries : Validator → Json → Json → Prop
  | null {required : Bool} {rule : Rule} : Validator.Carries ⟨required, true, rule⟩ .null .null
  | value {required nullable : Bool} {rule : Rule} {v w : Json} :
      rule.Carries v w → Validator.Carries ⟨required, nullable, rule⟩ v w

inductive Rule.Carries : Rule → Json → Json → Prop
  | accept {excluded : TypeName} {v : Json} : Rule.Carries (.accept excluded) v v
  | leaf {rule : Rule} {v w : Json} : rule.isLeaf = true → v.isScalar = true →
      w.isScalar = true → Rule.Carries rule v w
  | union {branches : List Validator} {branch : Validator} {v w : Json} :
      branch ∈ branches → branch.Carries v w → Rule.Carries (.union branches) v w
  | array {element : Validator} {low high : Option Nat} {items values : List Json} :
      items.length = values.length →
      (∀ (i : Nat) item value, items[i]? = some item → values[i]? = some value →
        element.Carries item value) →
      Rule.Carries (.array element low high) (.arr items) (.arr values)
  | only {element : Validator} {low high : Option Nat} {v w : Json} :
      encoded = true → v.isScalar = true → element.Carries v w →
      Rule.Carries (.array element low high) v (.arr [w])
  /-- Undeclared keys keep their values; of fields with one name, the last one counts. -/
  | object {fields : List (String × Validator)} {given output : List (String × Json)} :
      (∀ key, key ∉ Table.keys fields → Table.get? key output = Table.get? key given) →
      (∀ key w, Table.get? key output = some w → ∃ v, Table.get? key given = some v) →
      (∀ key v, Table.get? key given = some v → Table.get? key output = none →
        v.Omittable encoded) →
      (∀ key field v w, Table.get? key (Table.ofList fields) = some field →
        Table.get? key given = some v → Table.get? key output = some w → field.Carries v w) →
      Rule.Carries (.object fields) (.obj given) (.obj output)
  | named {name : TypeName} {target : Validator} {v w : Json} :
      c.get? name = some target → target.rule.Carries v w → Rule.Carries (.named name) v w

end

end

namespace Json

variable {encoded : Bool} {v w : Json}

mutual

theorem Retains.refl : (v : Json) → v.Retains encoded v
  | .null => .null
  | .bool _ => .scalar rfl (.scalar rfl)
  | .num _ => .scalar rfl (.scalar rfl)
  | .str _ => .scalar rfl (.scalar rfl)
  | .arr items => by
    refine .arr rfl fun i item value hitem hvalue => ?_
    cases hitem.symm.trans hvalue
    exact Retains.refl_items items item (List.mem_of_getElem? hitem)
  | .obj fields => by
    refine .obj (fun key v hv => ⟨v, hv⟩) (fun key v hv hnone => ?_) fun key v w hv hw => ?_
    · rw [hv] at hnone
      cases hnone
    · cases hv.symm.trans hw
      exact Retains.refl_fields fields _ (Table.mem_of_get? hv)

theorem Retains.refl_items : (items : List Json) → ∀ item ∈ items, item.Retains encoded item
  | [], _, h => absurd h List.not_mem_nil
  | first :: rest, item, h => by
    rcases List.mem_cons.mp h with heq | h
    · rw [heq]
      exact Retains.refl first
    · exact Retains.refl_items rest item h

theorem Retains.refl_fields : (fields : List (String × Json)) →
    ∀ entry ∈ fields, entry.2.Retains encoded entry.2
  | [], _, h => absurd h List.not_mem_nil
  | (key, first) :: rest, entry, h => by
    rcases List.mem_cons.mp h with heq | h
    · rw [heq]
      exact Retains.refl first
    · exact Retains.refl_fields rest entry h

end

theorem Retains.holdsScalar (h : v.Retains encoded w) (hv : v.isScalar = true) :
    w.HoldsScalar encoded := by
  cases h with
  | scalar _ hw => exact hw
  | _ => cases hv

end Json

section

variable {c : Cache} {encoded : Bool}

mutual

/-- What a validator carries over retains its shape, whatever the validator. -/
theorem Validator.Carries.retains : {validator : Validator} → {v w : Json} →
    validator.Carries c encoded v w → v.Retains encoded w
  | _, _, _, .null => .null
  | _, _, _, .value h => Rule.Carries.retains h

theorem Rule.Carries.retains : {rule : Rule} → {v w : Json} →
    rule.Carries c encoded v w → v.Retains encoded w
  | _, v, _, .accept => Json.Retains.refl v
  | _, _, _, .leaf _ hv hw => .scalar hv (.scalar hw)
  | _, _, _, .union _ h => Validator.Carries.retains h
  | _, _, _, .array hlength hitems =>
    .arr hlength fun i item value hitem hvalue =>
      Validator.Carries.retains (hitems i item value hitem hvalue)
  | _, _, _, .only hencoded hv h =>
    .scalar hv (.list hencoded ((Validator.Carries.retains h).holdsScalar hv))
  | .object fields, .obj given, .obj output, .object hundeclared hcame hwent hkept => by
    refine .obj hcame hwent fun key v w hv hw => ?_
    cases hfield : Table.get? key (Table.ofList fields) with
    | some field => exact Validator.Carries.retains (hkept key field v w hfield hv hw)
    | none =>
      have hsame := hundeclared key (Table.get?_ofList_eq_none_iff.mp hfield)
      rw [hw, hv] at hsame
      cases hsame
      exact Json.Retains.refl v
  | _, _, _, .named _ h => Rule.Carries.retains h

end

end

namespace Coerce

variable {v : Json} {text : String} {n : Number} {b : Bool}

/-- Only of a scalar is there a text in any format. -/
theorem isScalar_of_formatted {format : Option Format} (h : formatted format v = .ok text) :
    v.isScalar = true := by
  cases v with
  | bool _ => rfl
  | num _ => rfl
  | str _ => rfl
  | _ =>
    cases format with
    | none => cases h
    | some format => cases format <;> cases h

theorem isScalar_of_number {integer : Bool} (h : number integer v = .ok n) : v.isScalar = true := by
  cases v with
  | num _ => rfl
  | str _ => rfl
  | _ => cases h

theorem isScalar_of_flag (h : flag v = .ok b) : v.isScalar = true := by
  cases v with
  | bool _ => rfl
  | str _ => rfl
  | _ => cases h

end Coerce

section Leaves

variable {path : FieldPath} {v : Json}

/-- The value and what comes out of it are scalars. -/
def Json.Scalars (v w : Json) : Prop := v.isScalar = true ∧ w.isScalar = true

theorem StringRule.check_scalars (r : StringRule) : (r.check path v).Yields v.Scalars := by
  rw [check]
  cases hcoerced : Coerce.formatted r.format v with
  | error reason => exact Outcome.yields_mismatch _ _ _ _
  | ok text => exact Outcome.yields_keptUnless fun _ => ⟨Coerce.isScalar_of_formatted hcoerced, rfl⟩

theorem NumberRule.check_scalars (r : NumberRule) : (r.check path v).Yields v.Scalars := by
  rw [check]
  cases hcoerced : Coerce.number r.integer v with
  | error reason => exact Outcome.yields_mismatch _ _ _ _
  | ok n => exact Outcome.yields_keptUnless fun _ => ⟨Coerce.isScalar_of_number hcoerced, rfl⟩

theorem Check.boolean_scalars : (Check.boolean path v).Yields v.Scalars := by
  rw [Check.boolean]
  cases hcoerced : Coerce.flag v with
  | error reason => exact Outcome.yields_mismatch _ _ _ _
  | ok b => exact Outcome.yields_kept ⟨Coerce.isScalar_of_flag hcoerced, rfl⟩

theorem Check.enum_scalars (values : List String) :
    (Check.enum values path v).Yields v.Scalars := by
  refine (Check.enum_yields values).mono ?_
  rintro w ⟨rfl, s, -, rfl⟩
  exact ⟨rfl, rfl⟩

end Leaves

section Checking

variable {c : Cache} {encoded : Bool} {hop : Hop Option} {path : FieldPath} {v : Json} {o : Outcome}

/-- What hopping to a type accepts is carried over by the rule of the type. -/
def Cache.HopCarries (c : Cache) (encoded : Bool) (hop : Hop Option) : Prop :=
  ∀ name path v o, v.Counts encoded → hop name path v = some o →
    o.Yields ((Rule.named name).Carries c encoded v)

/-- What a rule accepts it carries over, at every place. -/
def Rule.ChecksCarried (c : Cache) (encoded : Bool) (hop : Hop Option) (rule : Rule) : Prop :=
  ∀ path v o, v.Counts encoded → rule.check hop encoded path v = some o →
    o.Yields (rule.Carries c encoded v)

/-- Accepted, a value is carried over; it goes only where it may be left out. -/
theorem Validator.apply_carries {validator : Validator} {found : Option Json}
    (hrule : validator.rule.ChecksCarried c encoded hop)
    (h : validator.apply hop encoded path found = some o) (haccepted : o.accepted = true) :
    (∀ w, o.output = some w → ∃ v, found = some v ∧ validator.Carries c encoded v w) ∧
      (o.output = none → validator.required = false ∧
        ∀ v, found = some v → v.Omittable encoded) := by
  obtain ⟨required, nullable, rule⟩ := validator
  rcases Validator.apply_cases h with ⟨v, rfl, hv, hcheck⟩ | ⟨rfl, hnullable, rfl⟩ |
      ⟨homittable, shown, -, rfl⟩
  · obtain ⟨w, hw, hcarries⟩ := hrule path v o hv hcheck haccepted
    rw [hw]
    refine ⟨fun w' hw' => ?_, nofun⟩
    cases hw'
    exact ⟨v, rfl, .value hcarries⟩
  · cases hnullable
    refine ⟨fun w hw => ?_, nofun⟩
    cases hw
    exact ⟨.null, rfl, .null⟩
  · cases required with
    | true => cases haccepted
    | false => exact ⟨nofun, fun _ => ⟨rfl, homittable⟩⟩

/-- Gathered without an issue, the items of an array are carried over one by one. -/
theorem Check.gather_carries {element : Validator} {items : List Json} {outcomes : List Outcome}
    {broken : List Issue} (hrequired : element.required = true)
    (hrule : element.rule.ChecksCarried c encoded hop)
    (hchecked : List.Forall₂ (fun entry o => element.apply hop encoded
      (path.push (.index entry.2)) (some entry.1) = some o) items.zipIdx outcomes) :
    (gather outcomes broken).Yields fun w => ∃ values, w = .arr values ∧
      items.length = values.length ∧ ∀ (i : Nat) item value, items[i]? = some item →
        values[i]? = some value → element.Carries c encoded item value := by
  intro haccepted
  obtain ⟨-, hall_clean⟩ := gather_accepted_iff.mp haccepted
  have hlength := hchecked.length_eq
  rw [List.length_zipIdx] at hlength
  refine ⟨_, rfl, _, rfl, by rw [List.length_map, hlength], fun i item value hitem hvalue => ?_⟩
  rw [List.getElem?_map] at hvalue
  obtain ⟨o, ho, rfl⟩ := Option.map_eq_some_iff.mp hvalue
  obtain ⟨hlow, hitem⟩ := List.getElem?_eq_some_iff.mp hitem
  obtain ⟨hhigh, ho⟩ := List.getElem?_eq_some_iff.mp ho
  have happly := hchecked.get (i := i) (by rwa [List.length_zipIdx]) hhigh
  simp only [List.get_eq_getElem, List.getElem_zipIdx, hitem, ho] at happly
  have hclean : o.accepted = true := hall_clean o (ho ▸ List.getElem_mem hhigh)
  obtain ⟨hkept, hnone⟩ := Validator.apply_carries hrule happly hclean
  cases hw : o.output with
  | none =>
    have hoptional := (hnone hw).1
    rw [hrequired] at hoptional
    cases hoptional
  | some w =>
    obtain ⟨v, hv, hcarries⟩ := hkept w hw
    cases hv
    exact hcarries

theorem Rule.check_union_carries {branches : List Validator}
    (hrules : ∀ branch ∈ branches, branch.rule.ChecksCarried c encoded hop) :
    (Rule.union branches).ChecksCarried c encoded hop := by
  intro path v o hv h
  rcases Rule.check_union_cases h with ⟨branch, hbranch, happly, -⟩ | rfl
  · have hrule := hrules branch hbranch
    obtain ⟨required, nullable, rule⟩ := branch
    rw [Validator.apply_of_counts hv] at happly
    exact (hrule path v o hv happly).mono fun w hw => .union hbranch (.value hw)
  · exact Outcome.yields_mismatch _ _ _ _

theorem Rule.check_array_carries {element : Validator} {low high : Option Nat}
    (hrequired : element.required = true) (hrule : element.rule.ChecksCarried c encoded hop) :
    (Rule.array element low high).ChecksCarried c encoded hop := by
  intro path v o hv h
  rcases Rule.check_array_cases h with ⟨items, outcomes, hitems, hchecked, rfl⟩ | rfl
  · refine (Check.gather_carries hrequired hrule hchecked).mono ?_
    rintro w ⟨values, rfl, hlength, hvalues⟩
    rcases Check.items?_cases hv.notNull hitems with rfl | ⟨hencoded, hscalar, rfl⟩
    · exact .array hlength hvalues
    · obtain ⟨w, rfl⟩ := List.length_eq_one_iff.mp hlength.symm
      exact .only hencoded hscalar (hvalues 0 v w rfl rfl)
  · exact Outcome.yields_mismatch _ _ _ _

theorem Rule.check_object_carries {fields : List (String × Validator)}
    (hrules : ∀ entry ∈ fields, entry.2.rule.ChecksCarried c encoded hop) :
    (Rule.object fields).ChecksCarried c encoded hop := by
  intro path v o hv h
  rcases Rule.check_object_cases h with ⟨given, output, outcomes, rfl, rfl, -, hkeys⟩ | rfl
  · intro haccepted
    have hclean := Outcome.all_accepted_iff.mp haccepted
    have hundeclared : ∀ key, Table.get? key (Table.ofList fields) = none →
        Table.get? key output = Table.get? key given := fun key => (hkeys key).1
    -- what becomes of a declared key is what its field says
    have hdeclared : ∀ key field, Table.get? key (Table.ofList fields) = some field →
        (∀ w, Table.get? key output = some w →
          ∃ v, Table.get? key given = some v ∧ field.Carries c encoded v w) ∧
        (Table.get? key output = none →
          ∀ v, Table.get? key given = some v → v.Omittable encoded) := by
      intro key field hfield
      obtain ⟨o, ho, happly, hfound⟩ := (hkeys key).2 field hfield
      have hrule := hrules _ (Table.mem_of_get?_ofList hfield)
      obtain ⟨hkept, hnone⟩ := Validator.apply_carries hrule happly (hclean o ho)
      rw [hfound]
      exact ⟨hkept, fun hw => (hnone hw).2⟩
    refine ⟨_, rfl, .object (fun key hkey => ?_) (fun key w hw => ?_) (fun key v hv hw => ?_)
      fun key field v w hfield hv hw => ?_⟩
    · exact hundeclared key (Table.get?_ofList_eq_none_iff.mpr hkey)
    · cases hfield : Table.get? key (Table.ofList fields) with
      | none => exact ⟨w, (hundeclared key hfield).symm.trans hw⟩
      | some field =>
        obtain ⟨v, hv, -⟩ := (hdeclared key field hfield).1 w hw
        exact ⟨v, hv⟩
    · cases hfield : Table.get? key (Table.ofList fields) with
      | none =>
        rw [hundeclared key hfield, hv] at hw
        cases hw
      | some field => exact (hdeclared key field hfield).2 hw v hv
    · obtain ⟨v', hv', hcarries⟩ := (hdeclared key field hfield).1 w hw
      cases hv.symm.trans hv'
      exact hcarries
  · exact Outcome.yields_mismatch _ _ _ _

theorem Rule.check_carries (hhop : c.HopCarries encoded hop) (rule : Rule)
    (htight : rule.All Rule.Tight) : rule.ChecksCarried c encoded hop := by
  induction rule using Rule.induction with
  | step rule ih =>
    cases rule with
    | union branches =>
      exact Rule.check_union_carries fun branch hbranch =>
        ih branch hbranch (Validator.all_rule (Validator.all_of_mem htight.2 hbranch))
    | array element low high =>
      exact Rule.check_array_carries htight.1
        (ih element List.mem_cons_self (Validator.all_rule htight.2))
    | object fields =>
      exact Rule.check_object_carries fun entry hentry =>
        ih entry.2 (List.mem_map_of_mem hentry)
          (Validator.all_rule (Validator.all_of_mem_fields htight.2 hentry))
    | named name => exact hhop name
    | accept excluded =>
      rintro path v o - ⟨⟩
      exact Outcome.yields_kept .accept
    | string r =>
      rintro path v o - ⟨⟩
      exact r.check_scalars.mono fun w hw => .leaf rfl hw.1 hw.2
    | number r =>
      rintro path v o - ⟨⟩
      exact r.check_scalars.mono fun w hw => .leaf rfl hw.1 hw.2
    | boolean =>
      rintro path v o - ⟨⟩
      exact Check.boolean_scalars.mono fun w hw => .leaf rfl hw.1 hw.2
    | enum values =>
      rintro path v o - ⟨⟩
      exact (Check.enum_scalars values).mono fun w hw => .leaf rfl hw.1 hw.2

end Checking

namespace Cache

variable {c : Cache} {encoded : Bool} {validator : Validator} {v : Json} {o : Outcome}

/-- However many hops there are, they carry over what they accept. -/
theorem hop_carries (htight : c.Tight) (hops : Nat) :
    c.HopCarries encoded (c.hop encoded hops) := by
  induction hops with
  | zero => exact fun name path v o _ h => nomatch h
  | succ hops ih =>
    intro name path v o hv h
    rcases hop_cases h with rfl | ⟨target, hget, h⟩
    · exact Outcome.yields_mismatch _ _ _ _
    · have hrule := Rule.check_carries ih target.rule (Validator.all_rule (htight name _ hget))
      exact (hrule path v o hv h).mono fun w hw => .named hget hw

/-- What a required validator accepts it carries over. -/
theorem outcome_carries (htight : c.Tight) (hall : validator.All Rule.Tight)
    (hrequired : validator.required = true) (ho : c.outcome? validator encoded v = some o) :
    o.Yields (validator.Carries c encoded v) := by
  intro haccepted
  have hrule : validator.rule.ChecksCarried c encoded (c.hop encoded (c.hopLimit v)) :=
    Rule.check_carries (hop_carries htight _) validator.rule (Validator.all_rule hall)
  obtain ⟨hkept, hnone⟩ := Validator.apply_carries hrule ho haccepted
  cases hw : o.output with
  | none =>
    have hoptional := (hnone hw).1
    rw [hrequired] at hoptional
    cases hoptional
  | some w =>
    obtain ⟨v', hv', hcarries⟩ := hkept w hw
    cases hv'
    exact ⟨w, rfl, hcarries⟩

end Cache

namespace Session

variable {target : Target} {channel : Channel} {v w : Json}

/--
After any calls, what validating a value answers has the shape of the value at every depth, its
objects are in order if those of the value are, and it differs from the value nowhere that the
compiled target declares nothing.
-/
theorem validate_retains_shape (store : Store) (calls : List Call)
    (h : ((after store calls).validate v target channel).1 = .accepted w) :
    v.Retains channel.stringEncoded w ∧ (v.Ordered → w.Ordered) ∧
    ∃ validator, (after store calls).validatorFor target (locationOf channel) =
        (.ok validator, ((after store calls).validate v target channel).2) ∧
      validator.Carries ((after store calls).validate v target channel).2.cache
        channel.stringEncoded v w := by
  obtain ⟨validator, hfor, o, ho, haccepted, rfl⟩ := exists_outcome_of_accepted h
  obtain ⟨hcompiled, hcoherent⟩ := validatorFor_after hfor
  obtain ⟨hrequired, hall⟩ := Store.tight_of_compileTarget (after_coherent store calls) hcompiled
  have htight := Store.tight_of_coherent hcoherent
  obtain ⟨w, hw, hcarries⟩ := outcome_carries htight hall hrequired ho haccepted
  rw [hw]
  exact ⟨hcarries.retains, fun hv => outcome_ordered hv ho w hw, validator, hfor, hcarries⟩

/-- A list of integers, and optional text beside it. -/
def tallyDefinition : Definition where
  keywords := { kinds := some (.one "object"), required := some (.names ["counts"]) }
  properties := some [
    ("counts", { keywords := { kinds := some (.one "array") }, items := some integerDefinition }),
    ("note", plainDefinition { kinds := some (.one "string") })]

/-- Of a query, one count comes out in a list, a note that is `undefined` goes, all else stays. -/
theorem query_tally_retained :
    let given := Json.obj [("counts", .str "3"), ("note", .str "undefined"), ("page", .str "2")]
    let output := Json.obj [("counts", .arr [.num (.int 3)]), ("page", .str "2")]
    ((after Store.empty []).validate given (.inline tallyDefinition) .query).1 =
        .accepted output ∧ given.Retains true output := by
  intro given output
  have haccepted : ((after Store.empty []).validate given (.inline tallyDefinition) .query).1 =
      .accepted output := Verdict.eq_accepted (by decide +kernel)
  exact ⟨haccepted, (validate_retains_shape Store.empty [] haccepted).1⟩

end Session

end Conform
