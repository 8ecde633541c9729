import Conform.Proofs.Conformance
import Conform.Proofs.Lowered

/-!
# Tables in order

Objects are tables, so are the properties of a definition and the declared
fields of a type. A check keeps the objects of its value in order. What is
lowered from tables declares no field twice, and neither do the validators.
-/

namespace Conform

open Cache

/-- Every object in the value has its keys in order. -/
inductive Json.Ordered : Json → Prop
  | null : Json.Ordered .null
  | bool (b : Bool) : Json.Ordered (.bool b)
  | num (n : Number) : Json.Ordered (.num n)
  | str (text : String) : Json.Ordered (.str text)
  | arr {items : List Json} : (∀ item ∈ items, item.Ordered) → Json.Ordered (.arr items)
  | obj {fields : List (String × Json)} : Table.Ordered fields →
      (∀ entry ∈ fields, entry.2.Ordered) → Json.Ordered (.obj fields)

namespace Outcome

/-- A value that the outcome keeps is in order. -/
def Ordered (o : Outcome) : Prop := ∀ w, o.output = some w → w.Ordered

variable {v : Json}

theorem ordered_kept (h : v.Ordered) : (kept v).Ordered := by
  intro w hw
  cases hw
  exact h

theorem ordered_mismatch (path : FieldPath) (code : Reason) (expected : String)
    (found : Option Json) : (mismatch path code expected found).Ordered := by
  intro w hw
  cases hw

theorem ordered_keptUnless (h : v.Ordered) (issues : List Issue) :
    (keptUnless v issues).Ordered := by
  intro w hw
  unfold keptUnless at hw
  dsimp only at hw
  split at hw
  · cases hw
    exact h
  · cases hw

theorem ordered_missing (required : Bool) (expected : String) (path : FieldPath)
    (found : Option Json) : (Check.missing required expected path found).Ordered := by
  unfold Check.missing
  split
  · exact ordered_mismatch _ _ _ _
  · intro w hw
    cases hw

end Outcome

namespace Json

variable {given : List (String × Json)} {name : String} {v : Json}

theorem Ordered.get? (h : (Json.obj given).Ordered) (hget : Table.get? name given = some v) :
    v.Ordered := by
  cases h with
  | obj _ hentries => exact hentries _ (Table.mem_of_get? hget)

theorem Ordered.put (h : (Json.obj given).Ordered) {o : Outcome} (ho : o.Ordered) :
    (Json.obj (Check.put name o given)).Ordered := by
  cases h with
  | obj hordered hentries =>
    unfold Check.put
    split
    · next w hw =>
      refine .obj (hordered.insert name w) fun entry hentry => ?_
      rcases Table.mem_insert hentry with rfl | hentry
      · exact ho w hw
      · exact hentries entry hentry
    · refine .obj (hordered.erase name) fun entry hentry => ?_
      exact hentries entry ((Table.erase_sublist name given).subset hentry)

theorem Ordered.items? {encoded : Bool} {items : List Json} (h : v.Ordered)
    (hitems : Check.items? encoded v = some items) : ∀ item ∈ items, item.Ordered := by
  cases h with
  | arr hall =>
    cases hitems
    exact hall
  | obj => cases hitems
  | _ =>
    cases encoded with
    | true =>
      cases hitems
      intro item hitem
      cases List.mem_singleton.mp hitem
      constructor
    | false => cases hitems

end Json

/-- What hopping to a type keeps is in order. -/
def Hop.Ordered (hop : Hop Option) : Prop :=
  ∀ name path v o, v.Ordered → hop name path v = some o → o.Ordered

theorem Check.gather_ordered {outcomes : List Outcome} {broken : List Issue}
    (h : ∀ o ∈ outcomes, o.Ordered) : (gather outcomes broken).Ordered := by
  intro w hw
  cases hw
  refine .arr fun item hitem => ?_
  obtain ⟨o, ho, rfl⟩ := List.mem_map.mp hitem
  cases houtput : o.output with
  | none => exact .null
  | some w => exact h o ho w houtput

section Checking

variable {hop : Hop Option} {encoded : Bool}

mutual

theorem Validator.apply_ordered (hhop : Hop.Ordered hop) : (validator : Validator) →
    ∀ {path found o}, (∀ v, found = some v → v.Ordered) →
      validator.apply hop encoded path found = some o → o.Ordered
  | ⟨required, nullable, rule⟩, path, found, o, hfound, h => by
    unfold Validator.apply at h
    split at h
    · cases h
      exact Outcome.ordered_missing _ _ _ _
    · cases h
      split
      · exact Outcome.ordered_kept .null
      · exact Outcome.ordered_missing _ _ _ _
    · next v _ hpresent =>
      exact Rule.check_ordered hhop rule (hfound v (Check.eq_of_present hpresent)) h

theorem Rule.check_ordered (hhop : Hop.Ordered hop) : (rule : Rule) → ∀ {path v o}, v.Ordered →
    rule.check hop encoded path v = some o → o.Ordered
  | .accept _, path, v, o, hv, h => by
    unfold Rule.check at h
    cases h
    exact Outcome.ordered_kept hv
  | .string r, path, v, o, hv, h => by
    unfold Rule.check StringRule.check at h
    cases h
    split
    · exact Outcome.ordered_keptUnless (.str _) _
    · exact Outcome.ordered_mismatch _ _ _ _
  | .number r, path, v, o, hv, h => by
    unfold Rule.check NumberRule.check at h
    cases h
    split
    · exact Outcome.ordered_keptUnless (.num _) _
    · exact Outcome.ordered_mismatch _ _ _ _
  | .boolean, path, v, o, hv, h => by
    unfold Rule.check Check.boolean at h
    cases h
    split
    · exact Outcome.ordered_kept (.bool _)
    · exact Outcome.ordered_mismatch _ _ _ _
  | .enum values, path, v, o, hv, h => by
    unfold Rule.check Check.enum at h
    cases h
    split
    · split
      · exact Outcome.ordered_kept hv
      · exact Outcome.ordered_mismatch _ _ _ _
    · exact Outcome.ordered_mismatch _ _ _ _
  | .union branches, path, v, o, hv, h => by
    unfold Rule.check at h
    obtain ⟨found, hfound, h⟩ := Option.bind_eq_some_iff.mp h
    cases found with
    | none =>
      cases h
      exact Outcome.ordered_mismatch _ _ _ _
    | some outcome =>
      cases h
      exact Rule.firstAccepted_ordered hhop branches hv hfound
  | .array element low high, path, v, o, hv, h => by
    unfold Rule.check at h
    split at h
    · cases h
      exact Outcome.ordered_mismatch _ _ _ _
    · next items hitems =>
      obtain ⟨outcomes, houtcomes, h⟩ := Option.bind_eq_some_iff.mp h
      cases h
      refine Check.gather_ordered fun o ho => ?_
      obtain ⟨item, hitem, p, happly⟩ := exists_of_forall₂ (Check.elements_some houtcomes) ho
      refine Validator.apply_ordered hhop element (fun w hw => ?_) happly
      cases hw
      exact hv.items? hitems item hitem
  | .object fields, path, v, o, hv, h => by
    unfold Rule.check at h
    split at h
    · next given =>
      obtain ⟨result, hfields, h⟩ := Option.bind_eq_some_iff.mp h
      cases h
      intro w hw
      cases hw
      exact Rule.checkFields_ordered hhop fields hv hv hfields
    · cases h
      exact Outcome.ordered_mismatch _ _ _ _
  | .named name, path, v, o, hv, h => by
    unfold Rule.check at h
    exact hhop name path v o hv h

theorem Rule.firstAccepted_ordered (hhop : Hop.Ordered hop) : (branches : List Validator) →
    ∀ {path v o}, v.Ordered → Rule.firstAccepted hop encoded branches path v = some (some o) →
      o.Ordered
  | [], path, v, o, _, h => by
    unfold Rule.firstAccepted at h
    cases h
  | branch :: rest, path, v, o, hv, h => by
    unfold Rule.firstAccepted at h
    obtain ⟨outcome, happly, h⟩ := Option.bind_eq_some_iff.mp h
    split at h
    · cases h
      exact Validator.apply_ordered hhop branch (fun w hw => by cases hw; exact hv) happly
    · exact Rule.firstAccepted_ordered hhop rest hv h

theorem Rule.checkFields_ordered (hhop : Hop.Ordered hop) : (fields : List (String × Validator)) →
    ∀ {path given output result}, (Json.obj given).Ordered → (Json.obj output).Ordered →
      Rule.checkFields hop encoded fields path given output = some result →
        (Json.obj result.1).Ordered
  | [], path, given, output, result, _, houtput, h => by
    unfold Rule.checkFields at h
    cases h
    exact houtput
  | (name, field) :: rest, path, given, output, result, hgiven, houtput, h => by
    unfold Rule.checkFields at h
    obtain ⟨o, happly, h⟩ := Option.bind_eq_some_iff.mp h
    obtain ⟨more, hrest, h⟩ := Option.bind_eq_some_iff.mp h
    cases h
    have ho := Validator.apply_ordered hhop field (fun w hw => hgiven.get? hw) happly
    have hmore := Rule.checkFields_ordered hhop rest hgiven (houtput.put ho) hrest
    exact hmore

end

end Checking

namespace Cache

variable {c : Cache} {encoded : Bool} {validator : Validator} {v w : Json} {o : Outcome}

theorem hop_ordered (hops : Nat) : Hop.Ordered (c.hop encoded hops) := by
  induction hops with
  | zero =>
    intro name path v o _ h
    cases h
  | succ hops ih =>
    intro name path v o hv h
    rcases hop_cases h with rfl | ⟨target, -, h⟩
    · exact Outcome.ordered_mismatch _ _ _ _
    · exact Rule.check_ordered ih target.rule hv h

/-- Validating keeps the objects of a value in order. -/
theorem outcome_ordered (hv : v.Ordered) (ho : c.outcome? validator encoded v = some o) :
    o.Ordered :=
  validator.apply_ordered (hop_ordered _) (fun w hw => by cases hw; exact hv) ho

end Cache

/-- Tables of properties are in order at every depth. -/
inductive Definition.Ordered : Definition → Prop
  | mk {d : Definition} : (∀ ds, d.oneOf = some ds → ∀ e ∈ ds, e.Ordered) →
      (∀ ds, d.anyOf = some ds → ∀ e ∈ ds, e.Ordered) →
      (∀ ds, d.allOf = some ds → ∀ e ∈ ds, e.Ordered) →
      (∀ e, d.items = some e → e.Ordered) →
      (∀ ps, d.properties = some ps → Table.Ordered ps) →
      (∀ ps, d.properties = some ps → ∀ entry ∈ ps, entry.2.Ordered) → Definition.Ordered d

/-- Declared fields are in order at every depth. -/
inductive FieldShape.Ordered : FieldShape → Prop
  | unspecified : FieldShape.Ordered .unspecified
  | scalar (kind : Scalar) : FieldShape.Ordered (.scalar kind)
  | named (name : TypeName) : FieldShape.Ordered (.named name)
  | inline {fields : TypeFields} : Table.Ordered fields →
      (∀ entry ∈ fields, entry.2.shape.Ordered) → FieldShape.Ordered (.inline fields)
  | array {element : FieldShape} : element.Ordered → FieldShape.Ordered (.array element)

/-- What the store holds as tables is in order. -/
structure Store.Ordered (s : Store) : Prop where
  definition : ∀ name d, s.definition? name = some d → d.Ordered
  fields : ∀ name fields, s.fields? name = some fields → (FieldShape.inline fields).Ordered

/-- No field is declared twice. -/
def NodeShape.Distinct : NodeShape → Prop
  | .object fields => (Table.keys fields).Nodup
  | _ => True

/-- A lowering that declares no field twice, at any depth. -/
def Lowering.Distinct (lowering : Lowering) : Prop :=
  ∀ shape location node, shape.Ordered → lowering shape location = .ok node →
    node.All NodeShape.Distinct

theorem Node.all_iff {Q : NodeShape → Prop} {node : Node} : node.All Q ↔ node.shape.All Q := by
  obtain ⟨shape, nullable, pinned⟩ := node
  exact Iff.rfl

namespace Lower

variable {k : Keywords} {lowering : Lowering} {lowerings : List Lowering} {shape : FieldShape}
  {properties : List (String × Lowering)} {fields : List (String × NodeField)}
  {declared : Option TypeFields} {nullable : Bool} {location : String} {node : Node} {p : Parts}

theorem element_ordered (h : shape.Ordered) : (shape.element?.getD .unspecified).Ordered := by
  cases h with
  | array helement => exact helement
  | _ => exact .unspecified

theorem array_distinct (hlowering : lowering.Distinct) (hshape : shape.Ordered)
    (h : array k lowering shape nullable location = .ok node) : node.All NodeShape.Distinct := by
  obtain ⟨element, helement, rfl⟩ := array_node h
  exact ⟨trivial, hlowering _ _ _ (element_ordered hshape) helement⟩

theorem declaredFields_distinct (hproperties : ∀ entry ∈ properties, Lowering.Distinct entry.2)
    {declared : TypeFields} (hshapes : ∀ entry ∈ declared, entry.2.shape.Ordered)
    (h : declaredFields properties location declared = .ok fields) :
    Table.keys fields = Table.keys declared ∧ Node.AllFields NodeShape.Distinct fields := by
  induction declared generalizing fields with
  | nil =>
    cases h
    exact ⟨rfl, trivial⟩
  | cons entry rest ih =>
    obtain ⟨name, rule⟩ := entry
    obtain ⟨property, node, more, hget, hnode, hmore, rfl⟩ := declaredFields_cons h
    obtain ⟨hkeys, hall⟩ := ih (fun entry hentry => hshapes entry (List.mem_cons_of_mem _ hentry)) hmore
    have hnode := hproperties _ (Table.mem_of_get? hget) _ _ _ (hshapes _ List.mem_cons_self) hnode
    refine ⟨congrArg (name :: ·) hkeys, ?_⟩
    unfold pin
    split
    · exact ⟨Node.all_iff.mp hnode, hall⟩
    · exact ⟨hnode, hall⟩

theorem allFields_distinct (hproperties : ∀ entry ∈ properties, Lowering.Distinct entry.2)
    (h : allFields k location properties = .ok fields) :
    Table.keys fields = Table.keys properties ∧ Node.AllFields NodeShape.Distinct fields := by
  induction properties generalizing fields with
  | nil =>
    cases h
    exact ⟨rfl, trivial⟩
  | cons entry rest ih =>
    obtain ⟨name, property⟩ := entry
    obtain ⟨node, hnode, h⟩ := exists_ok_of_bind h
    obtain ⟨more, hmore, h⟩ := exists_ok_of_bind h
    cases h
    obtain ⟨hkeys, hall⟩ := ih (fun entry hentry => hproperties entry
      (List.mem_cons_of_mem _ hentry)) hmore
    have hnode := hproperties _ List.mem_cons_self _ _ _ .unspecified hnode
    exact ⟨congrArg (name :: ·) hkeys, hnode, hall⟩

theorem object_distinct (hdistinct : (Table.keys properties).Nodup)
    (hproperties : ∀ entry ∈ properties, Lowering.Distinct entry.2)
    (hdeclared : ∀ fields, declared = some fields → (FieldShape.inline fields).Ordered)
    (h : object k properties declared nullable location = .ok node) :
    node.All NodeShape.Distinct := by
  obtain ⟨fields, hfields, rfl⟩ := object_node h
  cases declared with
  | some declared =>
    cases hdeclared declared rfl with
    | inline hordered hshapes =>
      obtain ⟨hkeys, hall⟩ := declaredFields_distinct hproperties hshapes hfields
      have hnodup := hordered.nodup
      rw [← hkeys] at hnodup
      exact ⟨hnodup, hall⟩
  | none =>
    obtain ⟨hkeys, hall⟩ := allFields_distinct hproperties hfields
    rw [← hkeys] at hdistinct
    exact ⟨hdistinct, hall⟩

theorem object_distinct_nil
    (hdeclared : ∀ fields, declared = some fields → (FieldShape.inline fields).Ordered)
    (h : object k [] declared nullable location = .ok node) : node.All NodeShape.Distinct := by
  have hnone : (Table.keys ([] : List (String × Lowering))).Nodup := List.nodup_nil
  exact object_distinct hnone (fun _ hentry => absurd hentry List.not_mem_nil) hdeclared h

theorem shapeAlone_distinct : Lowering.Distinct shapeAlone
  | .unspecified, _, _, _, h => by cases h
  | .scalar _, _, _, _, h => by
    obtain ⟨p, -, -, -, -, rfl⟩ := scalar_node h
    trivial
  | .named _, _, _, _, h => by
    cases h
    trivial
  | .inline fields, _, _, hshape, h => by
    refine object_distinct_nil ?_ h
    rintro _ ⟨⟩
    exact hshape
  | .array element, location, _, hshape, h => by
    obtain ⟨inner, hinner, h⟩ := exists_ok_of_bind h
    cases h
    cases hshape with
    | array hshape => exact ⟨trivial, shapeAlone_distinct element _ _ hshape hinner⟩

theorem numbered_distinct (hall : ∀ lowering ∈ lowerings, Lowering.Distinct lowering) {i : Nat}
    {nodes : List Node} (h : numbered location i lowerings = .ok nodes) :
    Node.AllBranches NodeShape.Distinct nodes := by
  induction lowerings generalizing i nodes with
  | nil =>
    cases h
    trivial
  | cons branch rest ih =>
    obtain ⟨node, hnode, h⟩ := exists_ok_of_bind h
    obtain ⟨more, hmore, h⟩ := exists_ok_of_bind h
    cases h
    exact ⟨hall branch List.mem_cons_self _ _ _ .unspecified hnode,
      ih (fun later hlater => hall later (List.mem_cons_of_mem _ hlater)) hmore⟩

theorem orNull_distinct (h : node.All NodeShape.Distinct) (nullable : Bool) :
    (node.orNull nullable).All NodeShape.Distinct := by
  rw [Node.all_iff] at h ⊢
  exact h

theorem fields_ordered (h : shape.Ordered) :
    ∀ fields, shape.fields? = some fields → (FieldShape.inline fields).Ordered := by
  intro fields hfields
  cases h with
  | inline hordered hshapes =>
    cases hfields
    exact .inline hordered hshapes
  | _ => cases hfields

namespace Parts

/-- The properties are tables of their own. -/
def Distinct (p : Parts) : Prop := ∀ ps, p.properties = some ps → (Table.keys ps).Nodup

theorem All.distinct_object (hall : p.All Lowering.Distinct) (hdistinct : p.Distinct)
    (hshape : shape.Ordered)
    (h : object k (p.properties.getD []) shape.fields? nullable location = .ok node) :
    node.All NodeShape.Distinct := by
  cases hproperties : p.properties with
  | none =>
    rw [hproperties] at h
    exact object_distinct_nil (fields_ordered hshape) h
  | some ps =>
    rw [hproperties] at h
    exact object_distinct (hdistinct ps hproperties) (hall.properties ps hproperties)
      (fields_ordered hshape) h

theorem All.distinct (hall : p.All Lowering.Distinct) (hdistinct : p.Distinct) :
    Lowering.Distinct p.lower := by
  intro shape location node hshape h
  cases yields_of_lower h with
  | part nullable hpart hinner =>
    exact orNull_distinct (hpart _ hall shape location _ hshape hinner) nullable
  | union nullable hbranches hnodes => exact ⟨trivial, numbered_distinct (hbranches _ hall) hnodes⟩
  | alone hread =>
    cases hread with
    | reference hdecision => trivial
    | enum strings => trivial
    | array h => exact array_distinct (hall.itemsOrShape shapeAlone_distinct) hshape h
    | object h => exact hall.distinct_object hdistinct hshape h
    | primitive p => trivial

end Parts

end Lower

/-- An ordered definition lowers to a node that declares no field twice. -/
theorem Definition.Ordered.lower_distinct {d : Definition} (h : d.Ordered) : d.lower.Distinct := by
  revert h
  refine Definition.induction (Q := fun d => d.Ordered → d.lower.Distinct) (fun d hinside h => ?_) d
  cases h with
  | mk honeOf hanyOf hallOf hitems htables hproperties =>
    rw [Definition.lower_eq]
    refine Lower.Parts.All.distinct (Definition.all_parts ⟨?_, ?_, ?_, ?_, ?_⟩) ?_
    · exact fun ds hds e he => hinside.oneOf ds hds e he (honeOf ds hds e he)
    · exact fun ds hds e he => hinside.anyOf ds hds e he (hanyOf ds hds e he)
    · exact fun ds hds e he => hinside.allOf ds hds e he (hallOf ds hds e he)
    · exact fun e he => hinside.items e he (hitems e he)
    · exact fun ps hps entry hentry =>
        hinside.properties ps hps entry hentry (hproperties ps hps entry hentry)
    · intro found hfound
      obtain ⟨ps, hps, rfl⟩ := Option.map_eq_some_iff.mp hfound
      rw [Table.keys_mapValues]
      exact (htables ps hps).nodup

/-- No field is declared twice. -/
def Rule.Distinct : Rule → Prop
  | .object fields => (Table.keys fields).Nodup
  | _ => True

/-- No cached validator declares a field twice. -/
def Cache.Distinct (c : Cache) : Prop :=
  ∀ name validator, c.get? name = some validator → validator.All Rule.Distinct

theorem Node.BuildsFields.keys {s : Store} {inherited : TypeName → Bool}
    {fields : List (String × NodeField)} {vs : List (String × Validator)}
    (h : Node.BuildsFields s inherited fields vs) : Table.keys vs = Table.keys fields := by
  induction fields generalizing vs with
  | nil =>
    cases h
    rfl
  | cons entry rest ih =>
    cases h with
    | cons _ hrest => exact congrArg (_ :: ·) (ih hrest)

/-- What a target compiles is in order. -/
def Target.Ordered : Target → Prop
  | .named _ => True
  | .inline d => d.Ordered

namespace Store

variable {s : Store} {c c' : Cache} {inherited : TypeName → Bool} {name : TypeName} {node : Node}
  {target : Target} {location : String} {v : Validator}

/-- The node of a type of an ordered store declares no field twice. -/
theorem Ordered.lowers_distinct (hs : s.Ordered) (h : s.Lowers name node) :
    node.All NodeShape.Distinct := by
  unfold Lowers lower at h
  cases hd : s.definition? name with
  | none => rw [hd] at h; cases h
  | some d =>
    rw [hd] at h
    have hordered := hs.definition name d hd
    dsimp only at h
    split at h
    · rw [Definition.lowerTable_eq] at h
      cases hordered with
      | mk _ _ _ _ htables hproperties =>
        cases hps : d.properties with
        | none =>
          rw [hps] at h
          exact Lower.object_distinct_nil (hs.fields name) h
        | some ps =>
          rw [hps] at h
          refine Lower.object_distinct ?_ ?_ (hs.fields name) h
          · rw [Table.keys_mapValues]
            exact (htables ps hps).nodup
          · intro entry hentry
            obtain ⟨property, hproperty, rfl⟩ := List.mem_map.mp hentry
            exact (hproperties ps hps property hproperty).lower_distinct
    · exact hordered.lower_distinct _ _ _ .unspecified h

theorem distinct_of_builds {required : Bool} (h : node.Builds s inherited required v)
    (hnode : node.All NodeShape.Distinct) : v.All Rule.Distinct := by
  refine Node.Builds.all (fun shape rule hbuilds hdistinct => ?_) node h hnode
  cases hbuilds with
  | object hfields =>
    have hkeys := hfields.keys
    have hnodup : (Table.keys _).Nodup := hdistinct
    rw [← hkeys] at hnodup
    exact hnodup
  | primitive hp => rcases Primitive.rule_kind hp with ⟨r, rfl⟩ | ⟨r, rfl⟩ | rfl <;> trivial
  | _ => trivial

theorem Ordered.distinct_of_coherent (hs : s.Ordered) (hc : Coherent s c) : c.Distinct := by
  intro name v hget
  rcases builds_of_cached hc hget with rfl | ⟨inherited, node, hlowers, hbuilds⟩
  · trivial
  · exact distinct_of_builds hbuilds (hs.lowers_distinct hlowers)

theorem Ordered.distinct_of_compileTarget (hs : s.Ordered) (htarget : target.Ordered)
    (hc : Coherent s c) (h : s.compileTarget c target location = .ok (v, c')) :
    v.All Rule.Distinct := by
  cases target with
  | named name =>
    obtain ⟨hupdate, hget⟩ := compileNamed_ok h
    exact hs.distinct_of_coherent (hupdate.coherent hc) name v hget
  | inline d =>
    obtain ⟨node, hlower, hbuilds⟩ := compileInline_builds h
    exact distinct_of_builds hbuilds (htarget.lower_distinct _ _ _ .unspecified hlower)

end Store

end Conform
