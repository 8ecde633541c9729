import Conform.Proofs.Conformance
import Conform.Proofs.Decision
import Conform.Proofs.Lowered

/-!
# Limits on values

A schema object that is read by its own keywords keeps each limit that is set
on it, or one of them is refused. Unions, wrappers and objects behind which a
declared type stands are read by something else, and their limits are not
looked at: whatever is set, they lower to the same node.
-/

namespace Conform

/-- A limit on the values of a schema object. -/
inductive Limit where
  | minimum (bound : Double)
  | maximum (bound : Double)
  | minLength (count : Nat)
  | maxLength (count : Nat)
  | pattern (text : String)
  | minItems (count : Nat)
  | maxItems (count : Nat)
  deriving DecidableEq

namespace Limit

/-- The keyword that sets it. -/
def keyword : Limit → String
  | minimum _ => "minimum"
  | maximum _ => "maximum"
  | minLength _ => "minLength"
  | maxLength _ => "maxLength"
  | pattern _ => "pattern"
  | minItems _ => "minItems"
  | maxItems _ => "maxItems"

/-- The limits on the number of items. -/
def onItems (low high : Option Nat) : List Limit :=
  (low.map minItems).toList ++ (high.map maxItems).toList

end Limit

/-- The limits among the constraints of a primitive. -/
def Constraints.limits (c : Constraints) : List Limit :=
  (c.minimum.map .minimum).toList ++ (c.maximum.map .maximum).toList ++
    (c.minLength.map .minLength).toList ++ (c.maxLength.map .maxLength).toList ++
      (c.pattern.map .pattern).toList

namespace Keywords

/-- The keywords that may constrain a primitive. -/
def constraints (k : Keywords) : Constraints where
  minimum := k.minimum
  maximum := k.maximum
  minLength := k.minLength
  maxLength := k.maxLength
  pattern := k.pattern

/-- The limits that are set. -/
def limits (k : Keywords) : List Limit := k.constraints.limits ++ Limit.onItems k.minItems k.maxItems

/-- The keywords with the given limits in place of their own. -/
def limitedTo (k : Keywords) (c : Constraints) (low high : Option Nat) : Keywords :=
  { k with
    minimum := c.minimum, maximum := c.maximum, minLength := c.minLength, maxLength := c.maxLength,
    pattern := c.pattern, minItems := low, maxItems := high }

end Keywords

/-- The limits that a shape has checked. -/
def NodeShape.limits : NodeShape → List Limit
  | .primitive p => p.constraints.limits
  | .array _ low high => Limit.onItems low high
  | _ => []

/-- No shape has all limits checked. -/
theorem NodeShape.exists_not_mem_limits (shape : NodeShape) :
    ∃ count, Limit.minItems count ∉ shape.limits := by
  cases shape with
  | array element low high =>
    cases low with
    | none => exact ⟨0, by simp [limits, Limit.onItems]⟩
    | some count => exact ⟨count + 1, by simp [limits, Limit.onItems]⟩
  | primitive p => exact ⟨0, by simp [limits, Constraints.limits]⟩
  | _ => exact ⟨0, List.not_mem_nil⟩

namespace Lower

variable {k : Keywords} {kind : PrimitiveKind} {format : Option Format} {c : Constraints}
  {low high : Option Nat} {location : String} {primitive : Primitive} {lowering : Lowering}
  {nullable : Bool} {shape : FieldShape} {node : Node} {p : Parts}

/-- A result has the limits that are set checked, or one of them is refused. -/
def KeepsOrRefuses (limits : List Limit) (location : String) (result : Except CompileError Node) :
    Prop :=
  (∃ node, result = .ok node ∧ node.shape.limits = limits) ∨
    ∃ limit ∈ limits, ∃ kind, result = .error (.notApplicable limit.keyword kind location)

theorem mem_constraintKeywords (k : Keywords) (keyword : String) :
    (keyword, true) ∈ constraintKeywords k ↔ ∃ limit ∈ k.limits, limit.keyword = keyword := by
  simp [constraintKeywords, Keywords.limits, Keywords.constraints, Constraints.limits, Limit.onItems,
    Limit.keyword, Option.isSome_iff_exists, or_and_right, exists_or, @eq_comm _ keyword, and_comm]

/-- The keywords that are refused are set; where none is refused, all that are set are allowed. -/
theorem refuseForeign_cases (k : Keywords) (allowed : List String) (kind location : String) :
    (refuseForeign k allowed kind location = .ok () ∧ ∀ limit ∈ k.limits, limit.keyword ∈ allowed) ∨
    ∃ limit ∈ k.limits,
      refuseForeign k allowed kind location = .error (.notApplicable limit.keyword kind location) := by
  unfold refuseForeign
  split
  · next keyword isSet hfound =>
    have hforeign := List.find?_some hfound
    dsimp only at hforeign
    obtain ⟨rfl, -⟩ := Bool.and_eq_true_iff.mp hforeign
    obtain ⟨limit, hlimit, rfl⟩ :=
      (mem_constraintKeywords k _).mp (List.mem_of_find?_eq_some hfound)
    exact Or.inr ⟨limit, hlimit, rfl⟩
  · next hfound =>
    refine Or.inl ⟨rfl, fun limit hlimit => ?_⟩
    have hset := (mem_constraintKeywords k _).mpr ⟨limit, hlimit, rfl⟩
    simpa using List.find?_eq_none.mp hfound _ hset

/-- A constraint that is misplaced is one that is set. -/
theorem misplaced?_mem {keyword : String} (h : c.misplaced? kind = some keyword) :
    ∃ limit ∈ c.limits, limit.keyword = keyword := by
  obtain ⟨⟨word, misplaced⟩, hmem, hsome⟩ := List.exists_of_findSome?_eq_some h
  cases misplaced with
  | false => cases hsome
  | true =>
    cases hsome
    simp only [List.mem_cons, List.not_mem_nil, or_false, Prod.mk.injEq, Bool.true_eq, Bool.and_eq_true,
      Option.isSome_iff_exists] at hmem
    rcases hmem with ⟨rfl, ⟨bound, hset⟩, -⟩ | ⟨rfl, ⟨bound, hset⟩, -⟩ | ⟨rfl, ⟨count, hset⟩, -⟩ |
      ⟨rfl, ⟨count, hset⟩, -⟩ | ⟨rfl, ⟨text, hset⟩, -⟩
    · exact ⟨.minimum bound, by simp [Constraints.limits, hset], rfl⟩
    · exact ⟨.maximum bound, by simp [Constraints.limits, hset], rfl⟩
    · exact ⟨.minLength count, by simp [Constraints.limits, hset], rfl⟩
    · exact ⟨.maxLength count, by simp [Constraints.limits, hset], rfl⟩
    · exact ⟨.pattern text, by simp [Constraints.limits, hset], rfl⟩

/-- The format of a primitive suits its kind, whatever the constraints are. -/
theorem build_eq_ok (h : Primitive.build kind format c location = .ok primitive) {other : Constraints}
    (hplaced : other.misplaced? kind = none) :
    Primitive.build kind format other location = .ok { kind, format, constraints := other } := by
  unfold Primitive.build at h ⊢
  rw [hplaced]
  cases hmisplaced : c.misplaced? kind with
  | some keyword =>
    rw [hmisplaced] at h
    cases h
  | none =>
    rw [hmisplaced] at h
    cases format with
    | none => rfl
    | some f =>
      dsimp only at h ⊢
      split at h
      · next hstring => rw [if_pos hstring]
      · cases h

/-- Without limits on items a primitive is built, in a format that its constraints have no say in. -/
theorem primitive_limitedTo (k : Keywords) (kind : PrimitiveKind) (fallback : Option Format)
    (nullable : Bool) (location : String) :
    ∃ format, ∀ c, Lower.primitive (k.limitedTo c none none) kind fallback nullable location =
      (Primitive.build kind format c location >>= fun p => .ok (Node.of (.primitive p) nullable)) := by
  cases hformat : k.format with
  | none => exact ⟨fallback, fun c => by simp [Lower.primitive, Keywords.limitedTo, hformat]⟩
  | some word =>
    exact ⟨Format.ofKeyword? word, fun c => by simp [Lower.primitive, Keywords.limitedTo, hformat]⟩

theorem primitive_itemless {fallback : Option Format}
    (h : Lower.primitive k kind fallback nullable location = .ok node) :
    Lower.primitive (k.limitedTo k.constraints none none) kind fallback nullable location =
      .ok node := by
  unfold Lower.primitive at h
  split at h
  · cases h
  · split at h
    · cases h
    · exact h

theorem primitive_keeps {fallback : Option Format}
    (h : Lower.primitive k kind fallback nullable location = .ok node) (c : Constraints)
    (low high : Option Nat) :
    KeepsOrRefuses (k.limitedTo c low high).limits location
      (Lower.primitive (k.limitedTo c low high) kind fallback nullable location) := by
  have hlimits : (k.limitedTo c low high).limits = c.limits ++ Limit.onItems low high := rfl
  rw [hlimits]
  match low, high with
  | some count, _ =>
    exact Or.inr ⟨.minItems count, List.mem_append_right _ List.mem_cons_self, kind.keyword, rfl⟩
  | none, some count =>
    exact Or.inr ⟨.maxItems count, List.mem_append_right _ List.mem_cons_self, kind.keyword, rfl⟩
  | none, none =>
    obtain ⟨format, hprimitive⟩ := primitive_limitedTo k kind fallback nullable location
    have hok := primitive_itemless h
    rw [hprimitive] at hok ⊢
    obtain ⟨built, hbuilt, -⟩ := exists_ok_of_bind hok
    cases hplaced : c.misplaced? kind with
    | none =>
      rw [build_eq_ok hbuilt hplaced]
      exact Or.inl ⟨_, rfl, (List.append_nil _).symm⟩
    | some keyword =>
      obtain ⟨limit, hlimit, rfl⟩ := misplaced?_mem hplaced
      rw [Primitive.build.eq_def, hplaced]
      exact Or.inr ⟨limit, List.mem_append_left _ hlimit, kind.keyword, rfl⟩

/-- Where only limits on items are allowed, only those are set. -/
theorem limits_of_items (h : ∀ limit ∈ k.limits, limit.keyword ∈ ["minItems", "maxItems"]) :
    k.limits = Limit.onItems k.minItems k.maxItems := by
  have hnone : k.constraints.limits = [] := by
    refine List.eq_nil_iff_forall_not_mem.mpr fun limit hlimit => ?_
    have hallowed := h limit (List.mem_append_left _ hlimit)
    cases limit <;> simp [Limit.keyword, Constraints.limits] at hallowed hlimit
  rw [Keywords.limits, hnone, List.nil_append]

theorem array_keeps (h : array k lowering shape nullable location = .ok node) (c : Constraints)
    (low high : Option Nat) :
    KeepsOrRefuses (k.limitedTo c low high).limits location
      (array (k.limitedTo c low high) lowering shape nullable location) := by
  obtain ⟨element, helement, -⟩ := array_node h
  unfold array
  rcases refuseForeign_cases (k.limitedTo c low high) ["minItems", "maxItems"] "array" location with
    ⟨hok, hallowed⟩ | ⟨limit, hlimit, herror⟩
  · rw [hok, helement]
    exact Or.inl ⟨_, rfl, (limits_of_items hallowed).symm⟩
  · rw [herror]
    exact Or.inr ⟨limit, hlimit, _, rfl⟩

/-- What is allowed no limit keeps none. -/
theorem keeps_none {α : Type} {kind : String} {x : Except CompileError α} {f : α → Node} {a : α}
    (hx : x = .ok a) (hf : (f a).shape.limits = []) :
    KeepsOrRefuses k.limits location
      (refuseForeign k [] kind location >>= fun _ => x >>= fun a => .ok (f a)) := by
  rcases refuseForeign_cases k [] kind location with ⟨hok, hallowed⟩ | ⟨limit, hlimit, herror⟩
  · have hnone : k.limits = [] :=
      List.eq_nil_iff_forall_not_mem.mpr fun limit hlimit => List.not_mem_nil (hallowed limit hlimit)
    rw [hok, hx, hnone]
    exact Or.inl ⟨_, rfl, hf⟩
  · rw [herror]
    exact Or.inr ⟨limit, hlimit, kind, rfl⟩

namespace Decision

/-- What is no reference keeps the limits or refuses one of them, if it lowers with any at all. -/
theorem node_keeps {decision : Decision} (hdecision : ∀ name, decision ≠ .reference name)
    (h : decision.node p nullable shape location = .ok node) (c : Constraints)
    (low high : Option Nat) :
    KeepsOrRefuses (p.keywords.limitedTo c low high).limits location
      (decision.node { p with keywords := p.keywords.limitedTo c low high } nullable shape
        location) := by
  cases decision with
  | reference name => exact absurd rfl (hdecision name)
  | refused error => cases h
  | primitive kind fallback => exact primitive_keeps h c low high
  | array => exact array_keeps h c low high
  | enum values =>
    obtain ⟨-, -, h⟩ := exists_ok_of_bind h
    obtain ⟨strings, hstrings, -⟩ := exists_ok_of_bind h
    exact keeps_none hstrings rfl
  | object properties =>
    obtain ⟨fields, hfields, -⟩ := object_node h
    have hrequired : (p.keywords.limitedTo c low high).requiredNames = p.keywords.requiredNames := rfl
    rw [← objectFields_congr hrequired] at hfields
    exact keeps_none hfields rfl

end Decision

end Lower

namespace Definition

variable {d : Definition} {shape : FieldShape} {location : String} {node : Node}

/-- The definition with the given limits in place of its own. -/
def limitedTo (d : Definition) (c : Constraints) (low high : Option Nat) : Definition :=
  { d with keywords := d.keywords.limitedTo c low high }

/--
Whether the definition is read by its own keywords: it is neither a union nor a wrapper, and the
declared shape puts no type behind it.
-/
structure ReadsItself (d : Definition) (shape : FieldShape) : Prop where
  branches : d.branches? = none
  members : d.allOf = none
  behind : Lower.typeBehind? d.keywords shape = none

theorem lower_keeps (hself : d.ReadsItself shape) (hreference : d.keywords.reference = none)
    (h : d.lower shape location = .ok node) (c : Constraints) (low high : Option Nat) :
    Lower.KeepsOrRefuses (d.keywords.limitedTo c low high).limits location
      ((d.limitedTo c low high).lower shape location) := by
  have hlimited : (d.limitedTo c low high).lower = (d.limitedTo c low high).parts.simple :=
    lower_simple hself.branches hself.members
  rw [lower_simple hself.branches hself.members, Lower.Parts.simple_eq] at h
  rw [hlimited, Lower.Parts.simple_eq]
  -- the limits have no say in the decision
  exact Lower.Decision.node_keeps
    (Lower.Parts.decision_ne_reference hself.behind hreference) h c low high

/-- A schema object behind which a declared type stands is a reference to it. -/
theorem lower_of_typeBehind {name : TypeName} (hunion : d.branches? = none) (hwrapper : d.allOf = none)
    (hbehind : Lower.typeBehind? d.keywords shape = some name) :
    d.lower shape location = .ok (Node.of (.reference name) d.admitsNull) := by
  have hdecision : d.parts.decision shape location = .reference name := by
    have hparts : Lower.typeBehind? d.parts.keywords shape = some name := hbehind
    rw [Lower.Parts.decision, hparts]
  rw [lower_simple hunion hwrapper, Lower.Parts.simple_eq, hdecision]
  rfl

/-- What is not read by its own keywords lowers alike whatever limits are set. -/
theorem lower_limitedTo (hself : ¬ d.ReadsItself shape) (c : Constraints) (low high : Option Nat) :
    (d.limitedTo c low high).lower shape location = d.lower shape location := by
  cases hunion : d.branches? with
  | some ds =>
    have hlimited : (d.limitedTo c low high).branches? = some ds := hunion
    simp only [lower_eq, Lower.Parts.lower, parts, hunion, hlimited, Option.map_some]
    rfl
  | none =>
    have hlimited : (d.limitedTo c low high).branches? = none := hunion
    cases hwrapper : d.allOf with
    | some ds =>
      have hlimited' : (d.limitedTo c low high).allOf = some ds := hwrapper
      simp only [lower_eq, Lower.Parts.lower, parts, hunion, hlimited, hwrapper, hlimited',
        Option.map_none, Option.map_some]
      rfl
    | none =>
      have hlimited' : (d.limitedTo c low high).allOf = none := hwrapper
      have hsome : Lower.typeBehind? d.keywords shape ≠ none := fun hnone =>
        hself ⟨hunion, hwrapper, hnone⟩
      obtain ⟨name, hbehind⟩ := Option.ne_none_iff_exists'.mp hsome
      rw [lower_of_typeBehind hunion hwrapper hbehind]
      exact lower_of_typeBehind hlimited hlimited' hbehind

/--
A definition that lowers keeps each limit that is set, whichever is, just where it is read by its own
keywords. There it has exactly its own limits checked, and with any others it has those checked or
one of them is refused at its place; anywhere else limits change nothing.
-/
theorem limits_kept_iff (hreference : d.keywords.reference = none)
    (h : d.lower shape location = .ok node) :
    (d.ReadsItself shape ↔ ∀ c low high other,
      (d.limitedTo c low high).lower shape location = .ok other →
        ∀ limit ∈ (d.limitedTo c low high).keywords.limits, limit ∈ other.shape.limits) ∧
    (d.ReadsItself shape → node.shape.limits = d.keywords.limits ∧ ∀ c low high,
      Lower.KeepsOrRefuses (d.limitedTo c low high).keywords.limits location
        ((d.limitedTo c low high).lower shape location)) ∧
    (¬ d.ReadsItself shape → ∀ c low high,
      (d.limitedTo c low high).lower shape location = .ok node) := by
  have hdropped (hself : ¬ d.ReadsItself shape) (c : Constraints) (low high : Option Nat) :
      (d.limitedTo c low high).lower shape location = .ok node :=
    (lower_limitedTo hself c low high).trans h
  have hkept (hself : d.ReadsItself shape) (c : Constraints) (low high : Option Nat) (other : Node)
      (hother : (d.limitedTo c low high).lower shape location = .ok other) :
      other.shape.limits = (d.limitedTo c low high).keywords.limits := by
    rcases lower_keeps hself hreference h c low high with ⟨kept, hok, hlimits⟩ | ⟨_, _, _, herror⟩
    · cases hother.symm.trans hok
      exact hlimits
    · cases hother.symm.trans herror
  refine ⟨⟨fun hself c low high other hother limit hlimit => ?_, fun hall => ?_⟩,
    fun hself => ⟨?_, lower_keeps hself hreference h⟩, hdropped⟩
  · rw [hkept hself c low high other hother]
    exact hlimit
  · by_contra hself
    obtain ⟨count, hcount⟩ := node.shape.exists_not_mem_limits
    refine hcount (hall {} (some count) none node (hdropped hself _ _ _) _ ?_)
    exact List.mem_append_right _ List.mem_cons_self
  · have hown : d.limitedTo d.keywords.constraints d.keywords.minItems d.keywords.maxItems = d := by
      cases d
      rfl
    exact hkept hself d.keywords.constraints d.keywords.minItems d.keywords.maxItems node
      (by rw [hown, h])

open Session (plainDefinition integerDefinition maybeName)

/-- A count from zero on. -/
def countDefinition : Definition :=
  plainDefinition { kinds := some (.one "integer"), minimum := some Double.zero }

/-- A count keeps its bound, and a pattern in place of it is refused. -/
theorem counts_keep_limits :
    let d := countDefinition
    d.keywords.reference = none ∧ ∃ node, d.lower .unspecified "Item.count" = .ok node ∧
      node.shape.limits = [.minimum Double.zero] ∧
      ∃ kind, (d.limitedTo { pattern := some "[0-9]+" } none none).lower .unspecified "Item.count" =
        .error (.notApplicable "pattern" kind "Item.count") := by
  intro d
  have hself : d.ReadsItself .unspecified := ⟨rfl, rfl, rfl⟩
  obtain ⟨node, h⟩ : ∃ node, d.lower .unspecified "Item.count" = .ok node := ⟨_, rfl⟩
  obtain ⟨-, hkept, -⟩ := limits_kept_iff rfl h
  obtain ⟨hown, hothers⟩ := hkept hself
  refine ⟨rfl, node, h, hown, ?_⟩
  rcases hothers { pattern := some "[0-9]+" } none none with ⟨other, hok, -⟩ | ⟨limit, hlimit, kind, herror⟩
  · cases hok
  · cases List.mem_singleton.mp hlimit
    exact ⟨kind, herror⟩

/-- Schema objects with a limit each, and shapes that may be declared for them. -/
def limitedByOthers : List (Definition × FieldShape) :=
  let word := plainDefinition { kinds := some (.one "string") }
  [({ keywords := { minimum := some Double.zero }, oneOf := some [integerDefinition, word] },
      .unspecified),
    ({ keywords := { maxLength := some 3 }, oneOf := some [word] }, .unspecified),
    ({ keywords := { pattern := some "a" }, anyOf := some [word] }, .unspecified),
    ({ keywords := { maximum := some Double.zero }, allOf := some [integerDefinition] }, .unspecified),
    (plainDefinition { kinds := some (.one "object"), minItems := some 1 }, .named maybeName),
    (plainDefinition { maxItems := some 1 }, .named maybeName),
    ({ keywords := { minLength := some 1 }, properties := some [] }, .named maybeName)]

/-- Each of them lowers to a node that has not the limit checked. -/
theorem limited_by_others_unchecked : limitedByOthers.Forall fun (d, shape) =>
    d.keywords.reference = none ∧ ∃ node, d.lower shape "T.f" = .ok node ∧
      ∃ limit ∈ d.keywords.limits, limit ∉ node.shape.limits := by
  have hchecked : ∀ entry ∈ limitedByOthers, entry.1.keywords.reference = none ∧
      (entry.1.lower entry.2 "T.f").toOption.map (fun node => node.shape.limits) = some [] ∧
        entry.1.keywords.limits ≠ [] := by
    decide +kernel
  refine List.forall_iff_forall_mem.mpr fun entry hentry => ?_
  obtain ⟨hreference, hlowered, hset⟩ := hchecked entry hentry
  obtain ⟨node, hnode, hnone⟩ := Option.map_eq_some_iff.mp hlowered
  obtain ⟨limit, hlimit⟩ := List.exists_mem_of_ne_nil _ hset
  refine ⟨hreference, node, ?_, limit, hlimit, ?_⟩
  · cases hlower : entry.1.lower entry.2 "T.f" with
    | error e => simp [hlower, Except.toOption] at hnode
    | ok other => simpa [hlower, Except.toOption] using hnode
  · rw [hnone]
    exact List.not_mem_nil

end Definition

end Conform
