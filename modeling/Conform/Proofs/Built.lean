import Conform.Proofs.Runs

/-!
# What validators are built like

Compiling a node alone, told which types are nullable, builds a validator of
the same structure: every branch and every item is required, every field keeps
its name, and only a reference may be more nullable than its node. Whatever
holds of each rule that a shape builds thus holds at every depth.
-/

namespace Conform

theorem Primitive.rule_kind {p : Primitive} {location : String} {rule : Rule}
    (h : p.rule location = .ok rule) :
    (∃ r, rule = .string r) ∨ (∃ r, rule = .number r) ∨ rule = .boolean := by
  obtain ⟨kind, format, constraints⟩ := p
  unfold Primitive.rule at h
  cases kind with
  | string =>
    dsimp only at h
    split at h
    · cases h
      exact Or.inl ⟨_, rfl⟩
    · split at h
      · cases h
        exact Or.inl ⟨_, rfl⟩
      · cases h
  | number =>
    cases h
    exact Or.inr (Or.inl ⟨_, rfl⟩)
  | integer =>
    cases h
    exact Or.inr (Or.inl ⟨_, rfl⟩)
  | boolean =>
    cases h
    exact Or.inr (Or.inr rfl)

/-- Only errors depend on where a primitive stands. -/
theorem Primitive.rule_unique {p : Primitive} {location other : String} {rule rule' : Rule}
    (h : p.rule location = .ok rule) (h' : p.rule other = .ok rule') : rule = rule' := by
  unfold Primitive.rule at h h'
  cases hkind : p.kind with
  | string =>
    rw [hkind] at h h'
    dsimp only at h h'
    cases hpattern : p.constraints.pattern with
    | none =>
      rw [hpattern] at h h'
      cases h
      cases h'
      rfl
    | some source =>
      rw [hpattern] at h h'
      dsimp only at h h'
      cases hread : Pattern.readWhole? source with
      | none => rw [hread] at h; cases h
      | some expr =>
        rw [hread] at h h'
        cases h
        cases h'
        rfl
  | _ =>
    rw [hkind] at h h'
    cases h
    cases h'
    rfl

/-- A reference taken at its word, where nobody takes notes. -/
def Store.told (s : Store) (inherited : TypeName → Bool) : Resolve (Except CompileError) :=
  fun name _ =>
    if s.isExcluded name then .ok (.accept name, false) else .ok (.named name, inherited name)

/-- Noting the needed types makes no difference to what is built. -/
def Ideal.valued : Simulation Ideal (Except CompileError) where
  rel x y := ∀ noted, (StateT.run x noted).map Prod.fst = y
  pure _ _ := rfl
  bind {α β x y f g} hxy hfg noted := by
    rw [StateT.run_bind, ← hxy noted]
    cases StateT.run x noted with
    | error e => rfl
    | ok last => exact hfg last.1 last.2

theorem Store.ideal_valued (s : Store) (inherited : TypeName → Bool) (name : TypeName)
    (location : String) :
    Ideal.valued.rel (s.ideal inherited name location) (s.told inherited name location) := by
  intro noted
  unfold ideal told
  cases s.isExcluded name <;> rfl

section

variable (s : Store) (inherited : TypeName → Bool)

mutual

/-- The validator that a node builds, told which types are nullable. -/
inductive Node.Builds : Node → Bool → Validator → Prop
  | mk {shape : NodeShape} {nullable pinned required : Bool} {rule : Rule} :
      shape.Builds rule → Node.Builds ⟨shape, nullable, pinned⟩ required
        ⟨required, Node.admitsNull s inherited ⟨shape, nullable, pinned⟩, rule⟩

inductive NodeShape.Builds : NodeShape → Rule → Prop
  | primitive {p : Primitive} {location : String} {rule : Rule} :
      p.rule location = .ok rule → NodeShape.Builds (.primitive p) rule
  | enum {values : List String} : NodeShape.Builds (.enum values) (.enum values)
  | union {branches : List Node} {vs : List Validator} :
      Node.BuildsBranches branches vs → NodeShape.Builds (.union branches) (.union vs)
  | array {element : Node} {v : Validator} {low high : Option Nat} :
      element.Builds true v → NodeShape.Builds (.array element low high) (.array v low high)
  | object {fields : List (String × NodeField)} {vs : List (String × Validator)} :
      Node.BuildsFields fields vs → NodeShape.Builds (.object fields) (.object vs)
  | accept {name : TypeName} :
      s.isExcluded name = true → NodeShape.Builds (.reference name) (.accept name)
  | named {name : TypeName} :
      s.isExcluded name = false → NodeShape.Builds (.reference name) (.named name)

inductive Node.BuildsBranches : List Node → List Validator → Prop
  | nil : Node.BuildsBranches [] []
  | cons {branch : Node} {v : Validator} {rest : List Node} {vs : List Validator} :
      branch.Builds true v → Node.BuildsBranches rest vs →
        Node.BuildsBranches (branch :: rest) (v :: vs)

inductive Node.BuildsFields : List (String × NodeField) → List (String × Validator) → Prop
  | nil : Node.BuildsFields [] []
  | cons {name : String} {required : Bool} {node : Node} {v : Validator}
      {rest : List (String × NodeField)} {vs : List (String × Validator)} :
      node.Builds required v → Node.BuildsFields rest vs →
        Node.BuildsFields ((name, ⟨required, node⟩) :: rest) ((name, v) :: vs)

end

end

section

variable {s : Store} {inherited : TypeName → Bool}

mutual

theorem Node.builds_of_told : (node : Node) → ∀ {required location v},
    node.compile (s.told inherited) required location = .ok v →
      node.Builds s inherited required v
  | ⟨shape, nullable, pinned⟩, required, location, v, h => by
    unfold Node.compile at h
    obtain ⟨answer, hshape, h⟩ := exists_ok_of_bind h
    obtain ⟨hrule, hinherits⟩ := NodeShape.builds_of_told shape hshape
    cases h
    rw [hinherits]
    exact .mk hrule

theorem NodeShape.builds_of_told : (shape : NodeShape) → ∀ {location answer},
    shape.compile (s.told inherited) location = .ok answer →
      shape.Builds s inherited answer.1 ∧ answer.2 = shape.inherits s inherited
  | .primitive p, location, answer, h => by
    unfold NodeShape.compile at h
    obtain ⟨rule, hrule, h⟩ := exists_ok_of_bind h
    cases h
    refine ⟨@NodeShape.Builds.primitive s inherited p location _ ?_, rfl⟩
    cases hp : p.rule location with
    | error e => rw [hp] at hrule; cases hrule
    | ok rule' => rw [hp] at hrule; cases hrule; rfl
  | .enum values, location, answer, h => by
    unfold NodeShape.compile at h
    cases h
    exact ⟨.enum, rfl⟩
  | .union branches, location, answer, h => by
    unfold NodeShape.compile at h
    obtain ⟨vs, hbranches, h⟩ := exists_ok_of_bind h
    cases h
    exact ⟨.union (Node.branches_builds_of_told branches hbranches), rfl⟩
  | .array element low high, location, answer, h => by
    unfold NodeShape.compile at h
    obtain ⟨v, helement, h⟩ := exists_ok_of_bind h
    cases h
    exact ⟨.array (Node.builds_of_told element helement), rfl⟩
  | .object fields, location, answer, h => by
    unfold NodeShape.compile at h
    obtain ⟨vs, hfields, h⟩ := exists_ok_of_bind h
    cases h
    exact ⟨.object (Node.fields_builds_of_told fields hfields), rfl⟩
  | .reference name, location, answer, h => by
    unfold NodeShape.compile Store.told at h
    cases hname : s.isExcluded name with
    | true =>
      rw [hname] at h
      cases h
      exact ⟨.accept hname, by simp [NodeShape.inherits, hname]⟩
    | false =>
      rw [hname] at h
      cases h
      exact ⟨.named hname, by simp [NodeShape.inherits, hname]⟩

theorem Node.branches_builds_of_told : (branches : List Node) → ∀ {i location vs},
    Node.compileBranches (s.told inherited) i branches location = .ok vs →
      Node.BuildsBranches s inherited branches vs
  | [], i, location, vs, h => by
    unfold Node.compileBranches at h
    cases h
    exact .nil
  | branch :: rest, i, location, vs, h => by
    unfold Node.compileBranches at h
    obtain ⟨v, hbranch, h⟩ := exists_ok_of_bind h
    obtain ⟨more, hrest, h⟩ := exists_ok_of_bind h
    cases h
    exact .cons (Node.builds_of_told branch hbranch) (Node.branches_builds_of_told rest hrest)

theorem Node.fields_builds_of_told : (fields : List (String × NodeField)) → ∀ {location vs},
    Node.compileFields (s.told inherited) fields location = .ok vs →
      Node.BuildsFields s inherited fields vs
  | [], location, vs, h => by
    unfold Node.compileFields at h
    cases h
    exact .nil
  | (name, ⟨required, node⟩) :: rest, location, vs, h => by
    unfold Node.compileFields at h
    obtain ⟨v, hnode, h⟩ := exists_ok_of_bind h
    obtain ⟨more, hrest, h⟩ := exists_ok_of_bind h
    cases h
    exact .cons (Node.builds_of_told node hnode) (Node.fields_builds_of_told rest hrest)

end

/-- What an ideal compilation comes to is what its node builds. -/
theorem Node.builds_of_ideal {node : Node} {required : Bool} {location : String} {v : Validator}
    {noted more : List TypeName}
    (h : StateT.run (node.compile (s.ideal inherited) required location) noted = .ok (v, more)) :
    node.Builds s inherited required v := by
  have hkeeps : Ideal.valued.KeepsFailure := fun e noted => rfl
  have hvalued := Node.compile_simulated hkeeps node
    (fun name _ location => s.ideal_valued inherited name location) required location noted
  rw [h] at hvalued
  exact Node.builds_of_told node hvalued.symm

theorem Node.Builds.required {node : Node} {required : Bool} {v : Validator}
    (h : node.Builds s inherited required v) : v.required = required := by
  cases h
  rfl

theorem Node.Builds.nullable {node : Node} {required : Bool} {v : Validator}
    (h : node.Builds s inherited required v) : v.nullable = node.admitsNull s inherited := by
  cases h
  rfl

theorem Node.Builds.rule {node : Node} {required : Bool} {v : Validator}
    (h : node.Builds s inherited required v) : node.shape.Builds s inherited v.rule := by
  cases h with
  | mk hrule => exact hrule

mutual

/-- A node builds one validator. -/
theorem Node.Builds.unique : (node : Node) → ∀ {required v w},
    node.Builds s inherited required v → node.Builds s inherited required w → v = w
  | ⟨shape, _, _⟩, _, _, _, .mk h, .mk h' => by rw [NodeShape.Builds.unique shape h h']

theorem NodeShape.Builds.unique : (shape : NodeShape) → ∀ {rule rule'},
    shape.Builds s inherited rule → shape.Builds s inherited rule' → rule = rule'
  | .primitive _, _, _, .primitive h, .primitive h' => Primitive.rule_unique h h'
  | .enum _, _, _, .enum, .enum => rfl
  | .union branches, _, _, .union h, .union h' => by
    rw [Node.BuildsBranches.unique branches h h']
  | .array element _ _, _, _, .array h, .array h' => by rw [Node.Builds.unique element h h']
  | .object fields, _, _, .object h, .object h' => by rw [Node.BuildsFields.unique fields h h']
  | .reference _, _, _, .accept _, .accept _ => rfl
  | .reference _, _, _, .accept hname, .named hname' => by rw [hname] at hname'; cases hname'
  | .reference _, _, _, .named hname, .accept hname' => by rw [hname] at hname'; cases hname'
  | .reference _, _, _, .named _, .named _ => rfl

theorem Node.BuildsBranches.unique : (branches : List Node) → ∀ {vs ws},
    Node.BuildsBranches s inherited branches vs → Node.BuildsBranches s inherited branches ws →
      vs = ws
  | [], _, _, .nil, .nil => rfl
  | branch :: rest, _, _, .cons h hrest, .cons h' hrest' => by
    rw [Node.Builds.unique branch h h', Node.BuildsBranches.unique rest hrest hrest']

theorem Node.BuildsFields.unique : (fields : List (String × NodeField)) → ∀ {vs ws},
    Node.BuildsFields s inherited fields vs → Node.BuildsFields s inherited fields ws → vs = ws
  | [], _, _, .nil, .nil => rfl
  | (_, ⟨_, node⟩) :: rest, _, _, .cons h hrest, .cons h' hrest' => by
    rw [Node.Builds.unique node h h', Node.BuildsFields.unique rest hrest hrest']

end

theorem Cache.IsIdeal.builds {name : TypeName} {v : Validator}
    (h : Cache.IsIdeal s inherited name v) :
    ∃ node, s.Lowers name node ∧ node.Builds s inherited true v := by
  obtain ⟨node, noted, hlowers, hrun⟩ := h
  exact ⟨node, hlowers, Node.builds_of_ideal hrun⟩

end

mutual

/-- Every shape of a node has a property, at any depth. -/
def Node.All (Q : NodeShape → Prop) : Node → Prop
  | ⟨shape, _, _⟩ => shape.All Q

def NodeShape.All (Q : NodeShape → Prop) : NodeShape → Prop
  | .union branches => Q (.union branches) ∧ Node.AllBranches Q branches
  | .array element low high => Q (.array element low high) ∧ element.All Q
  | .object fields => Q (.object fields) ∧ Node.AllFields Q fields
  | shape => Q shape

def Node.AllBranches (Q : NodeShape → Prop) : List Node → Prop
  | [] => True
  | branch :: rest => branch.All Q ∧ Node.AllBranches Q rest

def Node.AllFields (Q : NodeShape → Prop) : List (String × NodeField) → Prop
  | [] => True
  | (_, ⟨_, node⟩) :: rest => node.All Q ∧ Node.AllFields Q rest

end

mutual

/-- Every rule of a validator has a property, at any depth. -/
def Validator.All (P : Rule → Prop) : Validator → Prop
  | ⟨_, _, rule⟩ => rule.All P

def Rule.All (P : Rule → Prop) : Rule → Prop
  | .union branches => P (.union branches) ∧ Validator.AllBranches P branches
  | .array element low high => P (.array element low high) ∧ element.All P
  | .object fields => P (.object fields) ∧ Validator.AllFields P fields
  | rule => P rule

def Validator.AllBranches (P : Rule → Prop) : List Validator → Prop
  | [] => True
  | branch :: rest => branch.All P ∧ Validator.AllBranches P rest

def Validator.AllFields (P : Rule → Prop) : List (String × Validator) → Prop
  | [] => True
  | (_, field) :: rest => field.All P ∧ Validator.AllFields P rest

end

section

variable {P : Rule → Prop}

theorem Validator.all_rule {validator : Validator} (h : validator.All P) : validator.rule.All P := by
  obtain ⟨required, nullable, rule⟩ := validator
  exact h

theorem Validator.all_of_mem {branches : List Validator} {branch : Validator}
    (h : Validator.AllBranches P branches) (hmem : branch ∈ branches) : branch.All P := by
  induction branches with
  | nil => cases hmem
  | cons first rest ih =>
    rcases List.mem_cons.mp hmem with rfl | hmem
    · exact h.1
    · exact ih h.2 hmem

theorem Validator.all_of_mem_fields {fields : List (String × Validator)} {name : String}
    {field : Validator} (h : Validator.AllFields P fields) (hmem : (name, field) ∈ fields) :
    field.All P := by
  induction fields with
  | nil => cases hmem
  | cons first rest ih =>
    obtain ⟨key, first⟩ := first
    rcases List.mem_cons.mp hmem with heq | hmem
    · cases heq
      exact h.1
    · exact ih h.2 hmem

end

section

variable {s : Store} {inherited : TypeName → Bool} {Q : NodeShape → Prop} {P : Rule → Prop}

mutual

theorem Node.all_of_forall (h : ∀ shape, Q shape) : (node : Node) → node.All Q
  | ⟨shape, _, _⟩ => NodeShape.all_of_forall h shape

theorem NodeShape.all_of_forall (h : ∀ shape, Q shape) : (shape : NodeShape) → shape.All Q
  | .primitive p => h (.primitive p)
  | .enum values => h (.enum values)
  | .union branches => ⟨h _, Node.allBranches_of_forall h branches⟩
  | .array element _ _ => ⟨h _, Node.all_of_forall h element⟩
  | .object fields => ⟨h _, Node.allFields_of_forall h fields⟩
  | .reference name => h (.reference name)

theorem Node.allBranches_of_forall (h : ∀ shape, Q shape) :
    (branches : List Node) → Node.AllBranches Q branches
  | [] => trivial
  | branch :: rest => ⟨Node.all_of_forall h branch, Node.allBranches_of_forall h rest⟩

theorem Node.allFields_of_forall (h : ∀ shape, Q shape) :
    (fields : List (String × NodeField)) → Node.AllFields Q fields
  | [] => trivial
  | (_, ⟨_, node⟩) :: rest => ⟨Node.all_of_forall h node, Node.allFields_of_forall h rest⟩

end

mutual

/-- A property of the rules that shapes build is one of whole validators. -/
theorem Node.Builds.all (hrule : ∀ shape rule, shape.Builds s inherited rule → Q shape → P rule) :
    (node : Node) → ∀ {required v}, node.Builds s inherited required v → node.All Q → v.All P
  | ⟨shape, _, _⟩, _, _, .mk h, hall => NodeShape.Builds.all hrule shape h hall

theorem NodeShape.Builds.all
    (hrule : ∀ shape rule, shape.Builds s inherited rule → Q shape → P rule) :
    (shape : NodeShape) → ∀ {rule}, shape.Builds s inherited rule → shape.All Q → rule.All P
  | .primitive p, rule, h, hall => by
    have hP := hrule _ _ h hall
    cases h with
    | primitive hp =>
      rcases Primitive.rule_kind hp with ⟨r, rfl⟩ | ⟨r, rfl⟩ | rfl <;> exact hP
  | .enum values, _, .enum, hall => hrule _ _ .enum hall
  | .union branches, _, .union h, ⟨hQ, hall⟩ =>
    ⟨hrule _ _ (.union h) hQ, Node.BuildsBranches.all hrule branches h hall⟩
  | .array element low high, _, .array h, ⟨hQ, hall⟩ =>
    ⟨hrule _ _ (.array h) hQ, Node.Builds.all hrule element h hall⟩
  | .object fields, _, .object h, ⟨hQ, hall⟩ =>
    ⟨hrule _ _ (.object h) hQ, Node.BuildsFields.all hrule fields h hall⟩
  | .reference name, _, .accept h, hall => hrule _ _ (.accept h) hall
  | .reference name, _, .named h, hall => hrule _ _ (.named h) hall

theorem Node.BuildsBranches.all
    (hrule : ∀ shape rule, shape.Builds s inherited rule → Q shape → P rule) :
    (branches : List Node) → ∀ {vs}, Node.BuildsBranches s inherited branches vs →
      Node.AllBranches Q branches → Validator.AllBranches P vs
  | [], _, .nil, _ => trivial
  | branch :: rest, _, .cons h hrest, ⟨hbranch, hall⟩ =>
    ⟨Node.Builds.all hrule branch h hbranch, Node.BuildsBranches.all hrule rest hrest hall⟩

theorem Node.BuildsFields.all
    (hrule : ∀ shape rule, shape.Builds s inherited rule → Q shape → P rule) :
    (fields : List (String × NodeField)) → ∀ {vs}, Node.BuildsFields s inherited fields vs →
      Node.AllFields Q fields → Validator.AllFields P vs
  | [], _, .nil, _ => trivial
  | (_, ⟨_, node⟩) :: rest, _, .cons h hrest, ⟨hnode, hall⟩ =>
    ⟨Node.Builds.all hrule node h hnode, Node.BuildsFields.all hrule rest hrest hall⟩

end

end

namespace Store

variable {s : Store} {c c' : Cache} {d : Definition} {name : TypeName} {location : String}
  {v : Validator}

/-- A schema object without a name builds what its node does, told what the cache says. -/
theorem compileInline_builds (h : s.compileInline c d location = .ok (v, c')) :
    ∃ node, d.lower .unspecified location = .ok node ∧
      node.Builds s (c.inherited · s) true v := by
  rw [compileInline_eq] at h
  obtain ⟨node, hlower, h⟩ := exists_ok_of_bind h
  refine ⟨node, hlower, ?_⟩
  have hends := compile_ends_needed s c node location
  cases hrun : StateT.run (node.compile (m := Compile)
      (s.resolve c.lookup (s.require c.lookup s.depthLimit)) true location) [] with
  | error e => rw [hrun] at h; cases h
  | ok last =>
    rw [hrun] at h hends
    cases h
    cases hideal : StateT.run (node.compile (s.ideal (c.inherited · s)) true location) [] with
    | error e => rw [hideal] at hends; exact hends.elim
    | ok ideal =>
      rw [hideal] at hends
      obtain ⟨heq, -⟩ := hends
      rw [heq]
      exact Node.builds_of_ideal hideal

/-- A cached validator accepts everything, or is built from the node of its type. -/
theorem builds_of_cached (hc : Cache.Coherent s c) (hget : c.get? name = some v) :
    v = acceptAll name ∨ ∃ inherited node, s.Lowers name node ∧ node.Builds s inherited true v := by
  cases hname : s.isExcluded name with
  | true => exact Or.inl (hc.excluded hget hname)
  | false =>
    obtain ⟨inherited, hideal⟩ := hc.ideal hget hname
    exact Or.inr ⟨inherited, hideal.builds⟩

end Store

namespace Session

variable {store : Store} {calls : List Call} {name : TypeName} {v : Validator}

/-- After any calls, what a validated type compiles to is built from the node of the type. -/
theorem compiled_builds (hname : store.isExcluded name = false)
    (h : ((after store calls).compiled name).1 = .ok v) :
    ∃ inherited node, store.Lowers name node ∧ node.Builds store inherited true v := by
  have hrun : (after store calls).validatorFor (.named name) name.text =
      (.ok v, ((after store calls).compiled name).2) := Prod.ext h rfl
  obtain ⟨hcompiled, hcoherent⟩ := validatorFor_after hrun
  obtain ⟨-, hget⟩ := Store.compileNamed_ok hcompiled
  obtain ⟨inherited, hideal⟩ := hcoherent.ideal hget hname
  exact ⟨inherited, hideal.builds⟩

end Session

end Conform
