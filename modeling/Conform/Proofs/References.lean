import Conform.Compilation

/-!
# References

The types a node refers to, the patterns its strings must match, and the types
a validator reaches by name.
-/

namespace Conform

/-- The pattern that the texts of a primitive must match. -/
def Primitive.patterns (p : Primitive) : List String :=
  match p.kind with
  | .string => p.constraints.pattern.toList
  | _ => []

mutual

/-- The types a node refers to, in the order it is compiled. -/
def Node.references : Node → List TypeName
  | ⟨shape, _, _⟩ => shape.references

def NodeShape.references : NodeShape → List TypeName
  | .primitive _ => []
  | .enum _ => []
  | .union branches => Node.branchReferences branches
  | .array element _ _ => element.references
  | .object fields => Node.fieldReferences fields
  | .reference name => [name]

def Node.branchReferences : List Node → List TypeName
  | [] => []
  | branch :: rest => branch.references ++ Node.branchReferences rest

def Node.fieldReferences : List (String × NodeField) → List TypeName
  | [] => []
  | (_, ⟨_, node⟩) :: rest => node.references ++ Node.fieldReferences rest

end

mutual

/-- The patterns that stand anywhere in a node. -/
def Node.patterns : Node → List String
  | ⟨shape, _, _⟩ => shape.patterns

def NodeShape.patterns : NodeShape → List String
  | .primitive p => p.patterns
  | .enum _ => []
  | .union branches => Node.branchPatterns branches
  | .array element _ _ => element.patterns
  | .object fields => Node.fieldPatterns fields
  | .reference _ => []

def Node.branchPatterns : List Node → List String
  | [] => []
  | branch :: rest => branch.patterns ++ Node.branchPatterns rest

def Node.fieldPatterns : List (String × NodeField) → List String
  | [] => []
  | (_, ⟨_, node⟩) :: rest => node.patterns ++ Node.fieldPatterns rest

end

/--
Every pattern of a node, put between the ends of a full match, reads as an expression. This is the
check that compilation makes. It is not the same as that the pattern alone reads as one:
`Proofs/Wrapping` says where the two differ.
-/
def Node.PatternsRead (node : Node) : Prop :=
  ∀ source ∈ node.patterns, (Pattern.readWhole? source).isSome = true

mutual

/-- The types a validator reaches by name. -/
def Validator.calls : Validator → List TypeName
  | ⟨_, _, rule⟩ => rule.calls

def Rule.calls : Rule → List TypeName
  | .accept _ => []
  | .string _ => []
  | .number _ => []
  | .boolean => []
  | .enum _ => []
  | .union branches => Validator.branchCalls branches
  | .array element _ _ => element.calls
  | .object fields => Validator.fieldCalls fields
  | .named name => [name]

def Validator.branchCalls : List Validator → List TypeName
  | [] => []
  | branch :: rest => branch.calls ++ Validator.branchCalls rest

def Validator.fieldCalls : List (String × Validator) → List TypeName
  | [] => []
  | (_, field) :: rest => field.calls ++ Validator.fieldCalls rest

end

end Conform
