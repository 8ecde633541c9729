import Conform.Session

/-!
# Shared caches

Clones of a session work on one cache at the same time. Every operation on the
cache is one step of a clone; between two of its steps the others may take
theirs. What a pass has compiled is published one name after the other.
-/

namespace Conform

/-- What is left to do on a cache, one operation at a time. -/
inductive Work (α : Type) where
  | done (a : α)
  | get (name : TypeName) (next : Option Validator → Work α)
  | contains (name : TypeName) (next : Bool → Work α)
  /-- Store a validator, unless the name has one already; the answer is the one cached then. -/
  | insert (name : TypeName) (v : Validator) (next : Validator → Work α)

namespace Work

variable {α β : Type}

def bind : Work α → (α → Work β) → Work β
  | done a, f => f a
  | get name next, f => get name fun found => (next found).bind f
  | contains name next, f => contains name fun found => (next found).bind f
  | insert name v next, f => insert name v fun cached => (next cached).bind f

instance : Monad Work where
  pure := done
  bind := bind

/-- One step on a cache. -/
def step (c : Cache) : Work α → Work α × Cache
  | done a => (done a, c)
  | get name next => (next (c.get? name), c)
  | contains name next => (next (c.contains name), c)
  | insert name v next => (next (((c.insert name v).get? name).getD v), c.insert name v)

/-- All steps, without anyone in between. -/
def alone : Work α → Cache → α × Cache
  | done a, c => (a, c)
  | get name next, c => (next (c.get? name)).alone c
  | contains name next, c => (next (c.contains name)).alone c
  | insert name v next, c =>
    (next (((c.insert name v).get? name).getD v)).alone (c.insert name v)

/-- A step of a compilation on a shared cache. -/
abbrev Compiling := StateT PendingTable (ExceptT CompileError Work)

/-- How a compilation looks into a shared cache. -/
def lookup : Lookup Compiling where
  get? name := StateT.lift (ExceptT.lift (get name done))
  contains name := StateT.lift (ExceptT.lift (contains name done))

theorem run_lookup (name : TypeName) (f : Option Validator → Compiling β) (pending : PendingTable) :
    ExceptT.run (StateT.run (lookup.get? name >>= f) pending) =
      get name fun found => ExceptT.run (StateT.run (f found) pending) := rfl

theorem run_pending (f : PendingTable → Compiling β) (pending : PendingTable) :
    ExceptT.run (StateT.run (getThe PendingTable >>= f) pending) =
      ExceptT.run (StateT.run (f pending) pending) := rfl

/-- A compilation that goes on with what is cached. -/
theorem run_get (name : TypeName) (f : Option Validator → ExceptT CompileError Work β) :
    ExceptT.run (ExceptT.lift (get name done) >>= f) = get name fun found => ExceptT.run (f found) :=
  rfl

/-- A check that goes on with what is cached. -/
theorem check_get (name : TypeName) (f : Option Validator → OptionT Work β) :
    OptionT.run (OptionT.lift (get name done) >>= f) = get name fun found => OptionT.run (f found) :=
  rfl

/-- Publish what a pass has compiled, in name order; the answer is what is cached then. -/
def commit : PendingTable → Work (List (TypeName × Validator))
  | [] => pure []
  | (name, ⟨_, some v⟩) :: rest => do
    let cached ← insert name v done
    pure ((name, cached) :: (← commit rest))
  | (_, ⟨_, none⟩) :: rest => commit rest

/-- The validator of a named type that has to be compiled. -/
def compileFresh (s : Store) (name : TypeName) : ExceptT CompileError Work Validator := do
  let (_, pending) ← StateT.run (s.require lookup s.depthLimit name name.text) []
  match Table.get? name (← ExceptT.lift (commit pending)) with
  | some v => pure v
  | none =>
    match ← ExceptT.lift (get name done) with
    | some v => pure v
    | none => throw (.unknownType name.text name.text)

/-- The validator of a named type. -/
def compileNamed (s : Store) (name : TypeName) : ExceptT CompileError Work Validator := do
  match ← ExceptT.lift (get name done) with
  | some v => pure v
  | none =>
    if s.isExcluded name then ExceptT.lift (insert name (Store.acceptAll name) done)
    else compileFresh s name

/-- The validator of a schema object without a name. -/
def compileInline (s : Store) (d : Definition) (location : String) :
    ExceptT CompileError Work Validator := do
  let node ← MonadExcept.ofExcept (d.lower .unspecified location)
  let (v, pending) ←
    StateT.run (node.compile (s.resolve lookup (s.require lookup s.depthLimit)) true location) []
  let _ ← ExceptT.lift (commit pending)
  pure v

def compileTarget (s : Store) (target : Target) (location : String) :
    ExceptT CompileError Work Validator :=
  match target with
  | .named name => compileNamed s name
  | .inline d => compileInline s d location

/-- Check a value by the rule of a named type, looking into the shared cache for it. -/
def hop (encoded : Bool) : Nat → Hop (OptionT Work)
  | 0, _, _, _ => OptionT.fail
  | hops + 1, name, path, v => do
    match ← OptionT.lift (get name done) with
    | some validator => validator.rule.check (hop encoded hops) encoded path v
    | none => pure (Outcome.mismatch path .unresolvedType name.text (some v))

/-- Validate a value that arrived on a channel, within a bound on the hops. -/
def validate (s : Store) (hops : Nat) (v : Json) (target : Target) (channel : Channel) :
    Work Verdict := do
  match ← (compileTarget s target (Session.locationOf channel)).run with
  | .error e => pure (.uncompiled e)
  | .ok validator =>
    let outcome ← (validator.apply (hop channel.stringEncoded hops) channel.stringEncoded
      FieldPath.root (some v)).run
    pure (Verdict.ofOutcome channel target.label outcome)

end Work

/-- A value to be validated. -/
structure Request where
  value : Json
  target : Target
  channel : Channel

/-- Clones at work on one cache. -/
structure Clones (ι : Type) where
  works : ι → Work Verdict
  cache : Cache

namespace Clones

variable {ι : Type}

/-- Clones of a session that are about to validate, each with its bound on the hops. -/
def start (s : Session) (requests : ι → Request) (hops : ι → Nat) : Clones ι where
  works := fun i => Work.validate s.store (hops i) (requests i).value (requests i).target
    (requests i).channel
  cache := s.cache

/-- What a clone that is done has answered. -/
def answer? (cs : Clones ι) (i : ι) : Option Verdict :=
  match cs.works i with
  | .done verdict => some verdict
  | _ => none

variable [DecidableEq ι]

/-- One clone takes a step. -/
def step (cs : Clones ι) (i : ι) : Clones ι where
  works := fun j => if j = i then ((cs.works i).step cs.cache).1 else cs.works j
  cache := ((cs.works i).step cs.cache).2

/-- The clones take turns. -/
def run (cs : Clones ι) (turns : List ι) : Clones ι := turns.foldl step cs

/-- The clones after the first turns of an endless order of turns. -/
def upTo (cs : Clones ι) (turn : Nat → ι) (n : Nat) : Clones ι := cs.run ((List.range n).map turn)

end Clones

end Conform
