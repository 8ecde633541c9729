import Conform.Lowering
import Conform.Validator

/-!
# Compilation

Nodes become validators. A reference becomes a call by name, and the named
type is compiled once. While it is being compiled its name is pending, so a
reference back to it stops there, and recursive types compile in finite time.
Only a compilation that succeeds as a whole reaches the cache.
-/

namespace Conform

/-- The validators of named types. -/
structure Cache where
  entries : List (TypeName × Validator)

namespace Cache

def empty : Cache := ⟨[]⟩

def get? (c : Cache) (name : TypeName) : Option Validator := Table.get? name c.entries

def contains (c : Cache) (name : TypeName) : Bool := Table.contains name c.entries

def names (c : Cache) : List TypeName := Table.keys c.entries

def size (c : Cache) : Nat := c.entries.length

/-- Store a validator, unless the name has one already. -/
def insert (c : Cache) (name : TypeName) (v : Validator) : Cache :=
  ⟨Table.insertNew name v c.entries⟩

end Cache

/-- A named type of a compilation that is under way; its validator is missing until it is done. -/
structure Pending where
  nullable : Bool
  validator : Option Validator

abbrev PendingTable := List (TypeName × Pending)

/-- A step of a compilation. -/
abbrev Compile := StateT PendingTable (Except CompileError)

/-- What a compilation comes to, with the types it has compiled. -/
def Compile.run {α : Type} (x : Compile α) : Except CompileError (α × PendingTable) :=
  StateT.run x []

/-- How a compilation looks into the cache. -/
structure Lookup (m : Type → Type) where
  get? : TypeName → m (Option Validator)
  contains : TypeName → m Bool

/-- A cache that nothing changes while it is looked into. -/
def Cache.lookup {m : Type → Type} [Monad m] (c : Cache) : Lookup m :=
  ⟨fun name => pure (c.get? name), fun name => pure (c.contains name)⟩

/-- What a reference at a location compiles to: its rule, and whether the type is nullable itself. -/
abbrev Resolve (m : Type → Type) := TypeName → String → m (Rule × Bool)

variable {m : Type → Type} [Monad m] [MonadExceptOf CompileError m]

/-- The rule of a primitive; its pattern must be valid. -/
def Primitive.rule (p : Primitive) (location : String) : Except CompileError Rule :=
  let c := p.constraints
  match p.kind with
  | .string =>
    match c.pattern with
    | none => .ok (.string ⟨p.format, c.minLength, c.maxLength, none⟩)
    | some source =>
      match Pattern.readWhole? source with
      | some expr => .ok (.string ⟨p.format, c.minLength, c.maxLength, some (source, expr)⟩)
      | none => .error (.invalidPattern source location)
  | .number => .ok (.number ⟨false, c.minimum, c.maximum⟩)
  | .integer => .ok (.number ⟨true, c.minimum, c.maximum⟩)
  | .boolean => .ok .boolean

mutual

/-- The validator of a node. A reference is nullable where the type it names is, unless pinned. -/
def Node.compile (resolve : Resolve m) : Node → Bool → String → m Validator
  | ⟨shape, nullable, pinned⟩, required, location => do
    let (rule, inherited) ← shape.compile resolve location
    pure ⟨required, nullable || (!pinned && inherited), rule⟩

def NodeShape.compile (resolve : Resolve m) : NodeShape → String → m (Rule × Bool)
  | .primitive p, location => do pure (← MonadExcept.ofExcept (p.rule location), false)
  | .enum values, _ => pure (.enum values, false)
  | .union branches, location => do
    pure (.union (← Node.compileBranches resolve 0 branches location), false)
  | .array element low high, location => do
    pure (.array (← element.compile resolve true (location ++ "[]")) low high, false)
  | .object fields, location => do
    pure (.object (← Node.compileFields resolve fields location), false)
  | .reference name, location => resolve name location

def Node.compileBranches (resolve : Resolve m) : Nat → List Node → String → m (List Validator)
  | _, [], _ => pure []
  | i, branch :: rest, location => do
    let v ← branch.compile resolve true (location ++ ".oneOf[" ++ toString i ++ "]")
    pure (v :: (← Node.compileBranches resolve (i + 1) rest location))

def Node.compileFields (resolve : Resolve m) :
    List (String × NodeField) → String → m (List (String × Validator))
  | [], _ => pure []
  | (name, ⟨required, node⟩) :: rest, location => do
    let v ← node.compile resolve required (location ++ "." ++ name)
    pure ((name, v) :: (← Node.compileFields resolve rest location))

end

namespace Store

variable [MonadStateOf PendingTable m]

/-- Whether a name needs no compiling: it is pending or cached. -/
def isKnown (cache : Lookup m) (name : TypeName) : m Bool := do
  if Table.contains name (← getThe PendingTable) then pure true else cache.contains name

/-- Whether a known type is nullable itself. -/
def isNullable (cache : Lookup m) (name : TypeName) : m Bool := do
  match Table.get? name (← getThe PendingTable) with
  | some p => pure p.nullable
  | none =>
    match ← cache.get? name with
    | some v => pure v.nullable
    | none => pure false

/-- What a reference compiles to, with a function that sees to it that its type is known. -/
def resolve (s : Store) (cache : Lookup m) (require : TypeName → String → m Unit) : Resolve m :=
  fun name location =>
    if s.isExcluded name then pure (.accept name, false)
    else do
      require name location
      pure (.named name, ← isNullable cache name)

/--
Compile a named type unless it is known. Each type that is being compiled is
defined and pending, so as many steps down as there are definitions, every
name that is not known is not defined either.
-/
def require (s : Store) (cache : Lookup m) : Nat → TypeName → String → m Unit
  | 0, name, location => do
    if ← isKnown cache name then pure () else throw (.unknownType name.text location)
  | depth + 1, name, location => do
    if ← isKnown cache name then pure ()
    else
      let node ← MonadExcept.ofExcept (s.lower name location)
      modifyThe PendingTable (Table.insert name ⟨node.nullable, none⟩)
      let v ← node.compile (s.resolve cache (require s cache depth)) true name.text
      modifyThe PendingTable (Table.insert name ⟨node.nullable, some v⟩)

/-- How far down requiring can go. -/
def depthLimit (s : Store) : Nat := s.document.size

end Store

namespace Cache

/-- The cache with every type that has been compiled. -/
def commit (c : Cache) (pending : PendingTable) : Cache :=
  pending.foldl (fun c (name, p) =>
    match p.validator with
    | some v => c.insert name v
    | none => c) c

end Cache

namespace Store

/-- What stands for a type that is left unvalidated. -/
def acceptAll (name : TypeName) : Validator := ⟨true, true, .accept name⟩

/-- The validator of a named type, and the cache with all types it needs. -/
def compileNamed (s : Store) (cache : Cache) (name : TypeName) :
    Except CompileError (Validator × Cache) :=
  match cache.get? name with
  | some v => .ok (v, cache)
  | none =>
    if s.isExcluded name then .ok (acceptAll name, cache.insert name (acceptAll name))
    else do
      let (_, pending) ← Compile.run (s.require cache.lookup s.depthLimit name name.text)
      let cache := cache.commit pending
      match cache.get? name with
      | some v => .ok (v, cache)
      | none => .error (.unknownType name.text name.text)

/-- The validator of a schema object without a name, and the cache with all types it needs. -/
def compileInline (s : Store) (cache : Cache) (d : Definition) (location : String) :
    Except CompileError (Validator × Cache) := do
  let node ← d.lower .unspecified location
  let (v, pending) ←
    Compile.run (node.compile (s.resolve cache.lookup (s.require cache.lookup s.depthLimit)) true location)
  .ok (v, cache.commit pending)

/-- The validator of a target, and the cache with all types it needs. -/
def compileTarget (s : Store) (cache : Cache) (target : Target) (location : String) :
    Except CompileError (Validator × Cache) :=
  match target with
  | .named name => s.compileNamed cache name
  | .inline d => s.compileInline cache d location

end Store

end Conform
