import Conform.Compilation

/-!
# Sessions

A store together with the validators compiled so far. Validating a value finds
the validator of its target, compiling it on first use, and answers with the
coerced value or with a report of every failing place.
-/

namespace Conform

namespace Cache

/-- Check a value by the rule of a named type. There is no answer once the hops are used up. -/
def hop (c : Cache) (encoded : Bool) : Nat → Hop Option
  | 0, _, _, _ => none
  | hops + 1, name, path, v =>
    match c.get? name with
    | some validator => validator.rule.check (hop c encoded hops) encoded path v
    | none => some (Outcome.mismatch path .unresolvedType name.text (some v))

/--
The hops that checking a value can take. Between two steps down into the value
no name comes twice, unless checking never ends.
-/
def hopLimit (c : Cache) (v : Json) : Nat := (c.size + 1) * (v.depth + 1)

/-- The outcome for a value, unless checking it never ends. -/
def outcome? (c : Cache) (validator : Validator) (encoded : Bool) (v : Json) : Option Outcome :=
  validator.apply (c.hop encoded (c.hopLimit v)) encoded FieldPath.root (some v)

end Cache

/-- What validating a value comes to. -/
inductive Verdict where
  | accepted (value : Json)
  | rejected (report : Report)
  /-- The target does not compile. -/
  | uncompiled (error : CompileError)
  /-- A cycle of types asks for the same value again and again. -/
  | endless

namespace Verdict

/-- The verdict on a value from its outcome. -/
def ofOutcome (channel : Channel) (target : String) : Option Outcome → Verdict
  | none => endless
  | some outcome =>
    if outcome.accepted then accepted (.orNull outcome.output)
    else rejected ⟨channel, target, outcome.issues⟩

end Verdict

structure Session where
  store : Store
  cache : Cache

namespace Session

/-- A session that has compiled nothing yet. -/
def ofStore (store : Store) : Session := ⟨store, Cache.empty⟩

/-- Keep the cache of a compilation that succeeded. -/
def keep (s : Session) {α : Type} :
    Except CompileError (α × Cache) → Except CompileError α × Session
  | .ok (a, cache) => (.ok a, { s with cache })
  | .error e => (.error e, s)

/-- The validator of a named type. -/
def compiled (s : Session) (name : TypeName) : Except CompileError Validator × Session :=
  s.keep (s.store.compileNamed s.cache name)

/-- The validator of a target that is used at a location. -/
def validatorFor (s : Session) (target : Target) (location : String) :
    Except CompileError Validator × Session :=
  s.keep (s.store.compileTarget s.cache target location)

/-- What a target that came with a value is called in errors. -/
def locationOf (channel : Channel) : String := "(" ++ channel.name ++ " schema)"

/-- Validate a value that arrived on a channel. -/
def validate (s : Session) (v : Json) (target : Target) (channel : Channel) : Verdict × Session :=
  match s.validatorFor target (locationOf channel) with
  | (.error e, s) => (.uncompiled e, s)
  | (.ok validator, s) =>
    (Verdict.ofOutcome channel target.label (s.cache.outcome? validator channel.stringEncoded v), s)

/-- Compile targets in order until one fails. -/
def compileAll (s : Session) : List (String × Target) → Except CompileError Unit × Session
  | [] => (.ok (), s)
  | (location, target) :: rest =>
    match s.validatorFor target location with
    | (.ok _, s) => s.compileAll rest
    | (.error e, s) => (.error e, s)

/-- The names that warming up compiles. -/
def validatedNames (store : Store) : List TypeName :=
  store.names.filter fun name => !store.isExcluded name

/-- What warming up compiles: the types in name order, then the targets of all operations. -/
def warmUpTargets (store : Store) : List (String × Target) :=
  (validatedNames store).map (fun name => (name.text, Target.named name)) ++
    store.document.operations.targets

/-- Compile everything the store knows; the number of types is the answer. -/
def warmUp (s : Session) : Except CompileError Nat × Session :=
  match s.compileAll (warmUpTargets s.store) with
  | (.ok (), s) => (.ok (validatedNames s.store).length, s)
  | (.error e, s) => (.error e, s)

end Session

end Conform
