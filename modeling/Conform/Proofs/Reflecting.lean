import Conform.Proofs.Lowered

/-!
# Nodes that reflect their definitions

What a definition lowers to has, at every depth, what the definition says:
unions of its branches, enums of its values, primitives whose constraints suit
their kind, and objects with just its properties or those of them that are
declared. Nullability is pinned where it is declared, and nowhere else.
-/

namespace Conform

namespace Definition

/--
What a definition is read as. A wrapper around one member stands for that, and so does a union that
has one branch besides the null-only ones; all else stands for itself.
-/
inductive StandsFor : Definition → Definition → Prop
  | itself {d : Definition} : d.branches? = none → d.allOf = none → StandsFor d d
  | union {d : Definition} {ds : List Definition} :
      d.branches? = some ds → 2 ≤ (proper ds).length → StandsFor d d
  | branch {d b e : Definition} {ds : List Definition} :
      d.branches? = some ds → proper ds = [b] → StandsFor b e → StandsFor d e
  | member {d m e : Definition} :
      d.branches? = none → d.allOf = some [m] → StandsFor m e → StandsFor d e

/-- A definition is read as one thing only. -/
theorem StandsFor.unique {d e other : Definition} (h : d.StandsFor e) (hother : d.StandsFor other) :
    e = other := by
  -- the ways of reading ask for branches and members that exclude one another
  induction h with
  | itself hunion hwrapper => cases hother <;> simp_all
  | union hunion htwo => cases hother <;> simp_all
  | branch hunion hone _ ih => cases hother <;> simp_all
  | member hunion hwrapper _ ih => cases hother <;> simp_all

/--
What the fields of an object are made of: the names with what is declared for them and the properties
they stand for. If nothing is declared these are the properties themselves, required as listed.
-/
def planned (d : Definition) : Option TypeFields → List (String × FieldRule × Option Definition)
  | some declared => declared.map fun (name, rule) => (name, rule, d.property? name)
  | none => (d.properties.getD []).map fun (name, property) =>
      (name, ⟨d.requires name, none, .unspecified⟩, some property)

end Definition

/-- The constraints and the format of a primitive may stand on its kind. -/
structure Primitive.Allowed (p : Primitive) : Prop where
  bounds : p.constraints.minimum.isSome ∨ p.constraints.maximum.isSome →
    p.kind = .number ∨ p.kind = .integer
  lengths : p.constraints.minLength.isSome ∨ p.constraints.maxLength.isSome → p.kind = .string
  pattern : p.constraints.pattern.isSome → p.kind = .string
  format : p.format.isSome → p.kind = .string

/-- The strings are the given values, each once, in the order in which they first occur. -/
structure Lists (given : List Json) (strings : List String) : Prop where
  nodup : strings.Nodup
  mem_iff : ∀ v, v ∈ given ↔ ∃ text ∈ strings, v = .str text
  ordered : strings.Pairwise fun text later => given.idxOf (.str text) < given.idxOf (.str later)

mutual

/-- A node is made as a definition says, for a declared shape; whether it is pinned is told. -/
def Node.Reflects (d : Definition) (shape : FieldShape) (pinned : Bool) : Node → Prop
  | ⟨built, _, marked⟩ => marked = pinned ∧ ∃ e, d.StandsFor e ∧ built.Reflects e shape

/-- A shape is that of a definition which stands for itself. -/
def NodeShape.Reflects (d : Definition) (shape : FieldShape) : NodeShape → Prop
  | .primitive p => p.Allowed
  | .enum strings =>
    strings ≠ [] ∧ ∃ given, d.keywords.enumValues = some given ∧ Lists given strings
  | .union branches => 2 ≤ branches.length ∧
    ∃ ds, d.branches? = some ds ∧ Node.ReflectAll (Definition.proper ds) branches
  | .array element _ _ =>
    element.Reflects (d.items.getD .empty) (shape.element?.getD .unspecified) false
  | .object fields => NodeField.ReflectAll (d.planned shape.fields?) fields
  | .reference _ => True

/-- The branches are made as the definitions say, in the same order. -/
def Node.ReflectAll : List Definition → List Node → Prop
  | [], [] => True
  | d :: rest, node :: more => node.Reflects d .unspecified false ∧ Node.ReflectAll rest more
  | _, _ => False

/-- A field is required as planned, and pinned just if the plan says whether it accepts null. -/
def NodeField.Reflects (rule : FieldRule) (property : Option Definition) : NodeField → Prop
  | ⟨required, node⟩ => required = rule.required ∧
    ∃ d, property = some d ∧ node.Reflects d rule.shape rule.nullable.isSome

/-- The fields are those planned, in the same order. -/
def NodeField.ReflectAll : List (String × FieldRule × Option Definition) →
    List (String × NodeField) → Prop
  | [], [] => True
  | (name, rule, property) :: rest, (key, field) :: more =>
    key = name ∧ field.Reflects rule property ∧ NodeField.ReflectAll rest more
  | _, _ => False

end

/-- All nodes of a lowering are made as a definition says. -/
def Lowering.Reflects (d : Definition) (lowering : Lowering) : Prop :=
  ∀ shape location node, lowering shape location = .ok node → node.Reflects d shape false

/--
A node is made as the definition of a type says, with the fields that are declared for the type if
they are checked one by one.
-/
def Store.Reflects (s : Store) (name : TypeName) (node : Node) : Prop :=
  ∃ d, s.definition? name = some d ∧
    if s.isObject name d then
      ∃ fields, node = Node.of (.object fields) d.admitsNull ∧
        NodeField.ReflectAll (d.planned (s.fields? name)) fields
    else node.Reflects d .unspecified false

namespace Lists

variable {given : List Json} {strings : List String} {text : String}

theorem nil : Lists [] [] where
  nodup := List.nodup_nil
  mem_iff := by simp
  ordered := .nil

theorem mem_given (h : Lists given strings) (hmem : text ∈ strings) : Json.str text ∈ given :=
  (h.mem_iff _).mpr ⟨text, hmem, rfl⟩

theorem ordered_append (h : Lists given strings) (more : List Json) :
    strings.Pairwise fun text later =>
      (given ++ more).idxOf (.str text) < (given ++ more).idxOf (.str later) := by
  refine h.ordered.imp_of_mem fun {text later} htext hlater hlt => ?_
  rwa [List.idxOf_append_of_mem (h.mem_given htext), List.idxOf_append_of_mem (h.mem_given hlater)]

/-- A value that occurred before is passed over. -/
theorem repeated (h : Lists given strings) (hmem : text ∈ strings) :
    Lists (given ++ [.str text]) strings where
  nodup := h.nodup
  mem_iff v := by
    rw [List.mem_append, List.mem_singleton, h.mem_iff]
    exact or_iff_left_of_imp fun hv => ⟨text, hmem, hv⟩
  ordered := h.ordered_append _

/-- A value that did not occur comes last. -/
theorem added (h : Lists given strings) (hnew : text ∉ strings) :
    Lists (given ++ [.str text]) (strings ++ [text]) where
  nodup := by
    rw [← List.concat_eq_append]
    exact h.nodup.concat hnew
  mem_iff v := by
    rw [List.mem_append, h.mem_iff]
    simp [or_and_right, exists_or]
  ordered := by
    have hlast : Json.str text ∉ given := fun hmem => by
      obtain ⟨other, hother, heq⟩ := (h.mem_iff _).mp hmem
      cases heq
      exact hnew hother
    refine List.pairwise_append.mpr
      ⟨h.ordered_append _, List.pairwise_singleton _ _, fun first hfirst later hlater => ?_⟩
    cases List.mem_singleton.mp hlater
    have hmem := h.mem_given hfirst
    rw [List.idxOf_append_of_mem hmem, List.idxOf_append_of_notMem hlast]
    exact Nat.lt_add_right _ (List.idxOf_lt_length_of_mem hmem)

/-- A fold that adds each value unless it is there lists the values that it passes. -/
theorem of_foldlM {ε : Type} {f : List String → Json → Except ε (List String)} {rest : List Json}
    {last : List String} (h : Lists given strings)
    (hstep : ∀ gathered value next, f gathered value = .ok next → ∃ text, value = .str text ∧
      next = if gathered.contains text then gathered else gathered ++ [text])
    (hfold : rest.foldlM f strings = .ok last) : Lists (given ++ rest) last := by
  induction rest generalizing given strings with
  | nil =>
    cases hfold
    rwa [List.append_nil]
  | cons value rest ih =>
    rw [List.foldlM_cons] at hfold
    obtain ⟨next, hnext, hrest⟩ := exists_ok_of_bind hfold
    obtain ⟨text, rfl, rfl⟩ := hstep strings value next hnext
    rw [List.append_cons]
    refine ih ?_ hrest
    split
    · next hmem => exact h.repeated (List.contains_iff_mem.mp hmem)
    · next hnew => exact h.added fun hmem => hnew (List.contains_iff_mem.mpr hmem)

end Lists

/-- Constraints that stand on a kind suit it, and a format stands on strings alone. -/
theorem Primitive.allowed_of_build {kind : PrimitiveKind} {format : Option Format} {c : Constraints}
    {location : String} {p : Primitive} (h : build kind format c location = .ok p) : p.Allowed := by
  unfold build at h
  cases hplaced : c.misplaced? kind with
  | some keyword =>
    rw [hplaced] at h
    cases h
  | none =>
    rw [hplaced] at h
    have hp : p = { kind, format, constraints := c } ∧ (format.isSome → kind = .string) := by
      cases format with
      | none =>
        cases h
        exact ⟨rfl, nofun⟩
      | some f =>
        dsimp only at h
        split at h
        · next hstring =>
          cases h
          exact ⟨rfl, fun _ => hstring⟩
        · cases h
    obtain ⟨rfl, hformat⟩ := hp
    have hsuits := List.findSome?_eq_none_iff.mp hplaced
    simp only [List.forall_mem_cons] at hsuits
    constructor <;> cases kind <;> simp_all [PrimitiveKind.isNumeric]

namespace Node

variable {d b : Definition} {shape : FieldShape} {pinned nullable : Bool} {node : Node}
  {built : NodeShape}

theorem Reflects.of (hself : d.StandsFor d) (h : built.Reflects d shape) :
    (Node.of built nullable).Reflects d shape false := ⟨rfl, d, hself, h⟩

/-- What reflects a definition reflects whatever stands for the same, null accepted or not. -/
theorem Reflects.orNull (hthrough : ∀ e, b.StandsFor e → d.StandsFor e)
    (h : node.Reflects b shape pinned) (nullable : Bool) :
    (node.orNull nullable).Reflects d shape pinned := by
  obtain ⟨built, accepted, marked⟩ := node
  obtain ⟨hmarked, e, he, hbuilt⟩ := h
  exact ⟨hmarked, e, hthrough e he, hbuilt⟩

theorem ReflectAll.length_eq : {ds : List Definition} → {nodes : List Node} →
    ReflectAll ds nodes → nodes.length = ds.length
  | [], [], _ => rfl
  | _ :: _, _ :: _, ⟨_, hrest⟩ => congrArg (· + 1) hrest.length_eq

end Node

namespace Lower

variable {d : Definition} {ds : List Definition} {ps : List (String × Definition)} {k : Keywords}
  {lowering : Lowering} {shape : FieldShape} {nullable : Bool} {location : String} {node : Node}

theorem pin_reflects {rule : FieldRule} (h : node.Reflects d rule.shape false) :
    (pin rule node).Reflects rule (some d) := by
  obtain ⟨built, accepted, marked⟩ := node
  obtain ⟨rfl, hbuilt⟩ := h
  obtain ⟨required, declared, shape⟩ := rule
  cases declared with
  | none => exact ⟨rfl, d, rfl, rfl, hbuilt⟩
  | some accepted => exact ⟨rfl, d, rfl, rfl, hbuilt⟩

theorem enumStrings_lists {given : List Json} {strings : List String}
    (h : enumStrings given location = .ok strings) : strings ≠ [] ∧ Lists given strings := by
  unfold enumStrings at h
  split at h
  · cases h
  · next hgiven =>
    have hlists : Lists given strings := by
      refine Lists.nil.of_foldlM (fun gathered value next hnext => ?_) h
      cases value with
      | str text =>
        cases hnext
        exact ⟨text, rfl, rfl⟩
      | _ => cases hnext
    refine ⟨?_, hlists⟩
    rintro rfl
    obtain ⟨v, hv⟩ := List.exists_mem_of_ne_nil given (by simpa using hgiven)
    simpa using (hlists.mem_iff v).mp hv

theorem declaredFields_reflect (hps : ∀ entry ∈ ps, Lowering.Reflects entry.2 entry.2.lower)
    {declared : TypeFields} {fields : List (String × NodeField)}
    (h : declaredFields (Table.mapValues Definition.lower ps) location declared = .ok fields) :
    NodeField.ReflectAll (declared.map fun (name, rule) => (name, rule, Table.get? name ps))
      fields := by
  induction declared generalizing fields with
  | nil =>
    cases h
    trivial
  | cons entry rest ih =>
    obtain ⟨name, rule⟩ := entry
    obtain ⟨lowering, node, more, hget, hnode, hmore, rfl⟩ := declaredFields_cons h
    rw [Table.get?_mapValues] at hget
    obtain ⟨property, hproperty, rfl⟩ := Option.map_eq_some_iff.mp hget
    refine ⟨rfl, ?_, ih hmore⟩
    rw [hproperty]
    exact pin_reflects (hps _ (Table.mem_of_get? hproperty) _ _ _ hnode)

theorem allFields_reflect (hps : ∀ entry ∈ ps, Lowering.Reflects entry.2 entry.2.lower)
    {fields : List (String × NodeField)}
    (h : allFields k location (Table.mapValues Definition.lower ps) = .ok fields) :
    NodeField.ReflectAll (ps.map fun (name, property) =>
      (name, ⟨k.requiredNames.contains name, none, .unspecified⟩, some property)) fields := by
  induction ps generalizing fields with
  | nil =>
    cases h
    trivial
  | cons entry rest ih =>
    obtain ⟨name, property⟩ := entry
    obtain ⟨node, hnode, h⟩ := exists_ok_of_bind h
    obtain ⟨more, hmore, h⟩ := exists_ok_of_bind h
    cases h
    have hfirst := hps (name, property) List.mem_cons_self _ _ _ hnode
    exact ⟨rfl, ⟨rfl, property, rfl, hfirst⟩,
      ih (fun later hlater => hps later (List.mem_cons_of_mem _ hlater)) hmore⟩

/-- An object has the fields that are planned for it. -/
theorem object_reflects
    (hproperties : ∀ entry ∈ d.properties.getD [], Lowering.Reflects entry.2 entry.2.lower)
    {declared : Option TypeFields}
    (h : object d.keywords (Table.mapValues Definition.lower (d.properties.getD [])) declared nullable
      location = .ok node) :
    ∃ fields, node = Node.of (.object fields) nullable ∧
      NodeField.ReflectAll (d.planned declared) fields := by
  obtain ⟨fields, hfields, rfl⟩ := object_node h
  refine ⟨fields, rfl, ?_⟩
  cases declared with
  | none => exact allFields_reflect hproperties hfields
  | some declared =>
    have hget (name : String) : d.property? name = Table.get? name (d.properties.getD []) := by
      unfold Definition.property?
      cases d.properties <;> rfl
    simp only [Definition.planned, hget]
    exact declaredFields_reflect hproperties hfields

theorem array_reflects (hself : d.StandsFor d)
    (hitems : Lowering.Reflects (d.items.getD .empty) lowering)
    (h : array k lowering shape nullable location = .ok node) : node.Reflects d shape false := by
  obtain ⟨element, helement, rfl⟩ := array_node h
  exact .of hself (hitems _ _ _ helement)

theorem primitive_reflects (hself : d.StandsFor d) {p : Primitive} {kind : PrimitiveKind}
    {format : Option Format} {c : Constraints} (h : Primitive.build kind format c location = .ok p) :
    (Node.of (.primitive p) nullable).Reflects d shape false :=
  .of hself (Primitive.allowed_of_build h)

theorem empty_standsFor : Definition.empty.StandsFor .empty := .itself rfl rfl

/-- What a shape alone says is said of the schema object that says nothing. -/
theorem shapeAlone_reflects : Lowering.Reflects .empty shapeAlone
  | .unspecified, _, _, h => by cases h
  | .scalar _, _, _, h => by
    obtain ⟨p, kind, format, c, hbuilt, rfl⟩ := scalar_node h
    exact primitive_reflects empty_standsFor hbuilt
  | .named _, _, _, h => by
    cases h
    exact .of empty_standsFor trivial
  | .inline declared, location, node, h => by
    have hnone : ∀ entry ∈ Definition.empty.properties.getD [],
        Lowering.Reflects entry.2 entry.2.lower := fun _ hentry => absurd hentry List.not_mem_nil
    obtain ⟨fields, rfl, hfields⟩ := object_reflects hnone h
    exact .of empty_standsFor hfields
  | .array element, location, node, h => by
    obtain ⟨item, hitem, h⟩ := exists_ok_of_bind h
    cases h
    exact .of empty_standsFor (shapeAlone_reflects element _ item hitem)

theorem numbered_reflects (hall : ∀ e ∈ ds, Lowering.Reflects e e.lower) {i : Nat}
    {nodes : List Node} (h : numbered location i (ds.map Definition.lower) = .ok nodes) :
    Node.ReflectAll ds nodes := by
  induction ds generalizing i nodes with
  | nil =>
    cases h
    trivial
  | cons branch rest ih =>
    obtain ⟨node, hnode, h⟩ := exists_ok_of_bind h
    obtain ⟨more, hmore, h⟩ := exists_ok_of_bind h
    cases h
    exact ⟨hall branch List.mem_cons_self _ _ _ hnode,
      ih (fun later hlater => hall later (List.mem_cons_of_mem _ hlater)) hmore⟩

theorem union_reflects (hd : d.branches? = some ds)
    (hall : ∀ e ∈ Definition.proper ds, Lowering.Reflects e e.lower)
    (h : union ((Definition.proper ds).map Definition.lower) nullable shape location = .ok node) :
    node.Reflects d shape false := by
  cases hproper : Definition.proper ds with
  | nil =>
    rw [hproper] at h
    cases h
  | cons branch rest =>
    rw [hproper] at h hall
    cases rest with
    | nil =>
      obtain ⟨inner, hinner, h⟩ := exists_ok_of_bind h
      cases h
      have hbranch := hall branch (List.mem_singleton_self branch) _ _ _ hinner
      exact hbranch.orNull (fun _ => .branch hd hproper) nullable
    | cons second rest =>
      obtain ⟨nodes, hnodes, h⟩ := exists_ok_of_bind h
      cases h
      have hbranches := numbered_reflects hall hnodes
      have htwo : 2 ≤ nodes.length := by simp [hbranches.length_eq]
      refine .of (.union hd (by simp [hproper])) ⟨htwo, ds, hd, ?_⟩
      rwa [hproper]

theorem wrapper_reflects (hunion : d.branches? = none) (hd : d.allOf = some ds)
    (hall : ∀ e ∈ ds, Lowering.Reflects e e.lower)
    (h : wrapper (ds.map Definition.lower) nullable shape location = .ok node) :
    node.Reflects d shape false := by
  match ds with
  | [] => cases h
  | [member] =>
    obtain ⟨inner, hinner, h⟩ := exists_ok_of_bind h
    cases h
    have hmember := hall member (List.mem_singleton_self member) _ _ _ hinner
    exact hmember.orNull (fun _ => .member hunion hd) nullable
  | _ :: _ :: _ => cases h

theorem simple_reflects (hinside : d.Inside fun e => Lowering.Reflects e e.lower)
    (hself : d.StandsFor d) (h : d.parts.simple shape location = .ok node) :
    node.Reflects d shape false := by
  rw [Parts.simple_eq] at h
  cases hdecision : d.parts.decision shape location with
  | refused error =>
    rw [hdecision] at h
    cases h
  | reference name =>
    rw [hdecision] at h
    cases h
    exact .of hself trivial
  | enum given =>
    rw [hdecision] at h
    obtain ⟨-, -, h⟩ := exists_ok_of_bind h
    obtain ⟨strings, hstrings, h⟩ := exists_ok_of_bind h
    cases h
    obtain ⟨hsome, hlists⟩ := enumStrings_lists hstrings
    exact .of hself ⟨hsome, given, Parts.decision_enum hdecision, hlists⟩
  | array =>
    rw [hdecision] at h
    refine array_reflects hself ?_ h
    -- without items the shape alone says what the elements are
    unfold Parts.itemsOrShape Definition.parts
    cases hitems : d.items with
    | none => exact shapeAlone_reflects
    | some e => exact hinside.items e hitems
  | object properties =>
    rw [hdecision, Parts.decision_object hdecision] at h
    have hproperties : d.parts.properties.getD [] =
        Table.mapValues Definition.lower (d.properties.getD []) := by
      unfold Definition.parts
      cases d.properties <;> rfl
    rw [hproperties] at h
    obtain ⟨fields, rfl, hfields⟩ := object_reflects hinside.getD_properties h
    exact .of hself hfields
  | primitive kind fallback =>
    rw [hdecision] at h
    obtain ⟨p, format, c, hbuilt, rfl⟩ := primitive_node h
    exact primitive_reflects hself hbuilt

end Lower

namespace Definition

theorem lower_reflects (d : Definition) : Lowering.Reflects d d.lower := by
  refine induction (Q := fun d => Lowering.Reflects d d.lower) (fun d hinside => ?_) d
  intro shape location node h
  cases hunion : d.branches? with
  | some ds =>
    simp only [lower_eq, Lower.Parts.lower, parts, hunion, Option.map_some] at h
    have hproper : ∀ e ∈ proper ds, Lowering.Reflects e e.lower := fun e he =>
      hinside.branches hunion e (List.mem_filter.mp he).1
    exact Lower.union_reflects hunion hproper h
  | none =>
    cases hwrapper : d.allOf with
    | some ds =>
      simp only [lower_eq, Lower.Parts.lower, parts, hunion, hwrapper, Option.map_none,
        Option.map_some] at h
      exact Lower.wrapper_reflects hunion hwrapper (hinside.allOf ds hwrapper) h
    | none =>
      rw [lower_simple hunion hwrapper] at h
      exact Lower.simple_reflects hinside (.itself hunion hwrapper) h

end Definition

namespace Store

theorem lower_reflects {s : Store} {name : TypeName} {location : String} {node : Node}
    (h : s.lower name location = .ok node) : s.Reflects name node := by
  unfold lower at h
  cases hd : s.definition? name with
  | none =>
    rw [hd] at h
    cases h
  | some d =>
    rw [hd] at h
    dsimp only at h
    refine ⟨d, hd, ?_⟩
    split at h
    · next hobject =>
      rw [if_pos hobject]
      rw [Definition.lowerTable_eq] at h
      exact Lower.object_reflects (fun entry _ => entry.2.lower_reflects) h
    · next hobject =>
      rw [if_neg hobject]
      exact d.lower_reflects _ _ _ h

/--
What a definition lowers to, for any declared shape and at any place, is made as the definition says,
at every depth, and so is what a name lowers to in any store.
-/
theorem nodes_reflect_definitions :
    (∀ (d : Definition) (shape : FieldShape) (location : String) (node : Node),
      d.lower shape location = .ok node → node.Reflects d shape false) ∧
    ∀ (s : Store) (name : TypeName) (location : String) (node : Node),
      s.lower name location = .ok node → s.Reflects name node :=
  ⟨Definition.lower_reflects, fun _ _ _ _ => lower_reflects⟩

def ticketName : TypeName := ⟨"Ticket", by decide⟩

/-- A ticket has rows of a count and a word, and its state is a word, a count or null. -/
def ticketDefinition : Definition where
  keywords := { required := some (.names ["state"]) }
  properties :=
    let count : Definition :=
      { keywords := { kinds := some (.one "integer"), minimum := some Double.zero } }
    let word : Definition :=
      { keywords := { enumValues := some [.str "new", .str "old", .str "new"] } }
    let null : Definition := { keywords := { kinds := some (.one "null") } }
    some
      [("rows", { allOf := some [{
          items := some { properties := some [("n", count), ("word", word)] } }] }),
        ("state", { oneOf := some [word, null, count] })]

/-- Of the rows one field is declared, and null in place of them. -/
def ticketStore : Store where
  document := { definitions := [(ticketName, ticketDefinition)], operations := Operations.empty }
  fields := FieldTable.empty.declare ticketName
    [("rows", ⟨false, some true, .array (.inline [("n", ⟨true, none, .unspecified⟩)])⟩)]
  exclusions := Exclusions.empty

def ticketCount : Node := Node.of (.primitive ⟨.integer, none, { minimum := some Double.zero }⟩) false

def ticketWord : Node := Node.of (.enum ["new", "old"]) false

/-- What the definition alone makes of a ticket. -/
def ticketNode : Node :=
  let row := Node.of (.object [("n", ⟨false, ticketCount⟩), ("word", ⟨false, ticketWord⟩)]) false
  Node.of (.object
    [("rows", ⟨false, Node.of (.array row none none) false⟩),
      ("state", ⟨true, Node.of (.union [ticketWord, ticketCount]) true⟩)]) false

/-- What the store makes of it. -/
def declaredTicketNode : Node :=
  let row := Node.of (.object [("n", ⟨true, ticketCount⟩)]) false
  Node.of (.object [("rows", ⟨false, ⟨.array row none none, true, true⟩⟩)]) false

/-- A ticket is made as its definition says, alone and with the field that the store declares. -/
theorem ticket_reflects_definition :
    ticketDefinition.lower .unspecified "Ticket" = .ok ticketNode ∧
      ticketNode.Reflects ticketDefinition .unspecified false ∧
      ticketStore.lower ticketName "Query" = .ok declaredTicketNode ∧
      ticketStore.Reflects ticketName declaredTicketNode := by
  have halone : ticketDefinition.lower .unspecified "Ticket" = .ok ticketNode := rfl
  have hstored : ticketStore.lower ticketName "Query" = .ok declaredTicketNode := rfl
  exact ⟨halone, nodes_reflect_definitions.1 _ _ _ _ halone, hstored,
    nodes_reflect_definitions.2 _ _ _ _ hstored⟩

end Store

end Conform
