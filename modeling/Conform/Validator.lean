import Conform.Coercion
import Conform.Pattern.Reader
import Conform.Pattern.Search

/-!
# Validators

The executable form of a node: what becomes of an absent value and of null,
and the rule for any other. Checking goes on behind a failure, so that every
failing place is found. Named types are reached by a function, since only a
cache knows their rules; how its answer comes about, or whether it comes at
all, is left to the monad it answers in.
-/

namespace Conform

/-- What becomes of a value: its coerced form, if one is kept, and every failing place. -/
structure Outcome where
  output : Option Json
  issues : List Issue

namespace Outcome

def kept (v : Json) : Outcome := ⟨some v, []⟩

def omitted : Outcome := ⟨none, []⟩

def failed (issue : Issue) : Outcome := ⟨none, [issue]⟩

/-- Kept if no place fails. -/
def keptUnless (v : Json) (issues : List Issue) : Outcome :=
  ⟨if issues.isEmpty then some v else none, issues⟩

def accepted (o : Outcome) : Bool := o.issues.isEmpty

/-- A value of another kind than expected. -/
def mismatch (path : FieldPath) (code : Reason) (expected : String) (found : Option Json) :
    Outcome :=
  failed (Issue.mismatch path code expected found)

end Outcome

/-- The rule for texts. A pattern is kept with its source. -/
structure StringRule where
  format : Option Format
  minLength : Option Nat
  maxLength : Option Nat
  pattern : Option (String × Pattern.Expr)
  deriving DecidableEq

namespace StringRule

def expected (r : StringRule) : String :=
  match r.format with
  | some f => f.keyword
  | none => "string"

/-- The bounds and the pattern that a text of a value breaks. -/
def broken (r : StringRule) (path : FieldPath) (v : Json) (text : String) : List Issue :=
  let short := match r.minLength with
    | some n =>
      if text.length < n then
        [Issue.broken path .tooShort
          (r.expected ++ " of at least " ++ toString n ++ " characters") v
          ("must contain at least " ++ toString n ++ " characters")]
      else []
    | none => []
  let long := match r.maxLength with
    | some n =>
      if n < text.length then
        [Issue.broken path .tooLong
          (r.expected ++ " of at most " ++ toString n ++ " characters") v
          ("must contain at most " ++ toString n ++ " characters")]
      else []
    | none => []
  let unmatched := match r.pattern with
    | some (source, expr) =>
      if expr.isIn text then []
      else
        [Issue.broken path .patternMismatch ("match of " ++ source) v
          ("must match pattern " ++ source)]
    | none => []
  short ++ long ++ unmatched

def check (r : StringRule) (path : FieldPath) (v : Json) : Outcome :=
  match Coerce.formatted r.format v with
  | .ok text => Outcome.keptUnless (.str text) (r.broken path v text)
  | .error reason => Outcome.mismatch path reason r.expected (some v)

end StringRule

/-- The rule for numbers; bounds are inclusive. -/
structure NumberRule where
  integer : Bool
  minimum : Option Double
  maximum : Option Double
  deriving DecidableEq

namespace NumberRule

def expected (r : NumberRule) : String := if r.integer then "integer" else "number"

/-- The bounds that a number breaks. -/
def broken (r : NumberRule) (path : FieldPath) (v : Json) (x : Double) : List Issue :=
  let small := match r.minimum with
    | some low =>
      if x.lt low then
        [Issue.broken path .tooSmall (r.expected ++ " >= " ++ low.plainText) v
          ("must be greater than or equal to " ++ low.plainText)]
      else []
    | none => []
  let big := match r.maximum with
    | some high =>
      if high.lt x then
        [Issue.broken path .tooBig (r.expected ++ " <= " ++ high.plainText) v
          ("must be less than or equal to " ++ high.plainText)]
      else []
    | none => []
  small ++ big

def check (r : NumberRule) (path : FieldPath) (v : Json) : Outcome :=
  match Coerce.number r.integer v with
  | .ok n => Outcome.keptUnless (.num n) (r.broken path v n.toDouble)
  | .error reason => Outcome.mismatch path reason r.expected (some v)

end NumberRule

mutual

structure Validator where
  /-- Whether a missing value fails. -/
  required : Bool
  /-- Whether null is kept. -/
  nullable : Bool
  rule : Rule

inductive Rule where
  /-- Anything, for a type that is left unvalidated. -/
  | accept (excluded : TypeName)
  | string (r : StringRule)
  | number (r : NumberRule)
  | boolean
  | enum (values : List String)
  | union (branches : List Validator)
  | array (element : Validator) (minItems maxItems : Option Nat)
  | object (fields : List (String × Validator))
  /-- The rule of a named type. -/
  | named (name : TypeName)

end

mutual

/-- Equality of validators, decided part by part. -/
def Validator.same : Validator → Validator → Bool
  | ⟨required, nullable, rule⟩, ⟨required', nullable', rule'⟩ =>
    required == required' && nullable == nullable' && rule.same rule'

def Rule.same : Rule → Rule → Bool
  | .accept a, .accept b => a == b
  | .string a, .string b => a == b
  | .number a, .number b => a == b
  | .boolean, .boolean => true
  | .enum a, .enum b => a == b
  | .union a, .union b => Validator.sameBranches a b
  | .array a low high, .array b low' high' => a.same b && low == low' && high == high'
  | .object a, .object b => Validator.sameFields a b
  | .named a, .named b => a == b
  | _, _ => false

def Validator.sameBranches : List Validator → List Validator → Bool
  | [], [] => true
  | a :: as, b :: bs => a.same b && Validator.sameBranches as bs
  | _, _ => false

def Validator.sameFields : List (String × Validator) → List (String × Validator) → Bool
  | [], [] => true
  | (j, a) :: as, (k, b) :: bs => j == k && a.same b && Validator.sameFields as bs
  | _, _ => false

end

mutual

theorem Validator.same_iff : (a b : Validator) → (a.same b = true ↔ a = b)
  | ⟨required, nullable, rule⟩, ⟨required', nullable', rule'⟩ => by
    simp [Validator.same, Rule.same_iff rule rule', and_assoc]

theorem Rule.same_iff : (a b : Rule) → (a.same b = true ↔ a = b)
  | .accept a, b => by cases b <;> simp [Rule.same]
  | .string a, b => by cases b <;> simp [Rule.same]
  | .number a, b => by cases b <;> simp [Rule.same]
  | .boolean, b => by cases b <;> simp [Rule.same]
  | .enum a, b => by cases b <;> simp [Rule.same]
  | .union a, b => by
    cases b with
    | union b => simpa [Rule.same] using Validator.sameBranches_iff a b
    | _ => simp [Rule.same]
  | .array a low high, b => by
    cases b with
    | array b low' high' => simp [Rule.same, Validator.same_iff a b, and_assoc]
    | _ => simp [Rule.same]
  | .object a, b => by
    cases b with
    | object b => simpa [Rule.same] using Validator.sameFields_iff a b
    | _ => simp [Rule.same]
  | .named a, b => by cases b <;> simp [Rule.same]

theorem Validator.sameBranches_iff : (a b : List Validator) →
    (Validator.sameBranches a b = true ↔ a = b)
  | [], b => by cases b <;> simp [Validator.sameBranches]
  | x :: xs, b => by
    cases b with
    | nil => simp [Validator.sameBranches]
    | cons y ys =>
      simp [Validator.sameBranches, Validator.same_iff x y, Validator.sameBranches_iff xs ys]

theorem Validator.sameFields_iff : (a b : List (String × Validator)) →
    (Validator.sameFields a b = true ↔ a = b)
  | [], b => by cases b <;> simp [Validator.sameFields]
  | (k, x) :: xs, b => by
    cases b with
    | nil => simp [Validator.sameFields]
    | cons y ys =>
      obtain ⟨j, y⟩ := y
      simp [Validator.sameFields, Validator.same_iff x y, Validator.sameFields_iff xs ys, and_assoc]

end

instance : DecidableEq Validator := fun a b =>
  decidable_of_iff (a.same b = true) (a.same_iff b)

instance : DecidableEq Rule := fun a b =>
  decidable_of_iff (a.same b = true) (a.same_iff b)

mutual

/-- A short description of the expected value. -/
def Validator.expected : Validator → String
  | ⟨_, _, rule⟩ => rule.expected

def Rule.expected : Rule → String
  | .accept excluded => excluded.text
  | .string r => r.expected
  | .number r => r.expected
  | .boolean => "boolean"
  | .enum values => " | ".intercalate (values.map fun v => "'" ++ v ++ "'")
  | .union branches => " | ".intercalate (Validator.expectedAll branches)
  | .array element _ _ => element.expected ++ "[]"
  | .object _ => "object"
  | .named name => name.text

def Validator.expectedAll : List Validator → List String
  | [] => []
  | v :: rest => v.expected :: Validator.expectedAll rest

end

namespace Validator

/-- Whether any value is accepted. -/
def acceptsAnything (v : Validator) : Bool :=
  match v.rule with
  | .accept _ => true
  | _ => false

end Validator

/-- How a value is checked by the rule of a named type. -/
abbrev Hop (m : Type → Type) := TypeName → FieldPath → Json → m Outcome

variable {m : Type → Type} [Monad m]

namespace Check

/-- The value that counts as present: on a string channel the text `undefined` does not. -/
def present (encoded : Bool) (found : Option Json) : Option Json :=
  match found with
  | some (.str s) => if encoded && s == "undefined" then none else found
  | _ => found

/-- A value that is missing, or null where null is not kept. -/
def missing (required : Bool) (expected : String) (path : FieldPath) (found : Option Json) :
    Outcome :=
  if required then Outcome.mismatch path .required expected found else Outcome.omitted

/-- A boolean, or a text that spells one. -/
def boolean (path : FieldPath) (v : Json) : Outcome :=
  match Coerce.flag v with
  | .ok b => Outcome.kept (.bool b)
  | .error reason => Outcome.mismatch path reason "boolean" (some v)

/-- One of the listed texts. -/
def enum (values : List String) (path : FieldPath) (v : Json) : Outcome :=
  match v with
  | .str s =>
    if values.contains s then Outcome.kept v
    else Outcome.mismatch path .invalidEnumValue (Rule.enum values).expected (some v)
  | _ => Outcome.mismatch path .invalidEnumValue (Rule.enum values).expected (some v)

/-- The items that an array rule sees: on a string channel a scalar is an array of itself. -/
def items? (encoded : Bool) : Json → Option (List Json)
  | .arr items => some items
  | .obj _ => none
  | scalar => if encoded then some [scalar] else none

/-- The bounds on the number of items that an array breaks. -/
def brokenCounts (minItems maxItems : Option Nat) (count : Nat) (path : FieldPath) (v : Json) :
    List Issue :=
  let few := match minItems with
    | some n =>
      if count < n then
        [Issue.broken path .tooFewItems ("at least " ++ toString n ++ " items") v
          ("must contain at least " ++ toString n ++ " items, found " ++ toString count)]
      else []
    | none => []
  let many := match maxItems with
    | some n =>
      if n < count then
        [Issue.broken path .tooManyItems ("at most " ++ toString n ++ " items") v
          ("must contain at most " ++ toString n ++ " items, found " ++ toString count)]
      else []
    | none => []
  few ++ many

/-- The outcomes of the items from an index on. -/
def elements (check : FieldPath → Json → m Outcome) (path : FieldPath) :
    Nat → List Json → m (List Outcome)
  | _, [] => pure []
  | i, item :: rest => do
    let outcome ← check (path.push (.index i)) item
    pure (outcome :: (← elements check path (i + 1) rest))

/-- The array that the outcomes of its items make up. -/
def gather (outcomes : List Outcome) (broken : List Issue) : Outcome :=
  ⟨some (.arr (outcomes.map fun o => .orNull o.output)), broken ++ outcomes.flatMap Outcome.issues⟩

/-- The fields of an object with the outcome of one of them put in. -/
def put (name : String) (outcome : Outcome) (fields : List (String × Json)) : List (String × Json) :=
  match outcome.output with
  | some v => Table.insert name v fields
  | none => Table.erase name fields

end Check

mutual

/-- The outcome for a value that may be absent or null. -/
def Validator.apply (hop : Hop m) (encoded : Bool) :
    Validator → FieldPath → Option Json → m Outcome
  | ⟨required, nullable, rule⟩, path, found =>
    match Check.present encoded found with
    | none => pure (Check.missing required rule.expected path none)
    | some .null =>
      pure (if nullable then Outcome.kept .null
        else Check.missing required rule.expected path (some .null))
    | some v => rule.check hop encoded path v

/-- The outcome for a value that is present and not null. -/
def Rule.check (hop : Hop m) (encoded : Bool) : Rule → FieldPath → Json → m Outcome
  | .accept _, _, v => pure (Outcome.kept v)
  | .string r, path, v => pure (r.check path v)
  | .number r, path, v => pure (r.check path v)
  | .boolean, path, v => pure (Check.boolean path v)
  | .enum values, path, v => pure (Check.enum values path v)
  | .union branches, path, v => do
    match ← Rule.firstAccepted hop encoded branches path v with
    | some outcome => pure outcome
    | none =>
      pure (Outcome.mismatch path .noMatchingBranch (Rule.union branches).expected (some v))
  | .array element low high, path, v =>
    match Check.items? encoded v with
    | none => pure (Outcome.mismatch path .invalidType (element.expected ++ "[]") (some v))
    | some items => do
      let outcomes ← Check.elements (fun path item => element.apply hop encoded path (some item))
        path 0 items
      pure (Check.gather outcomes (Check.brokenCounts low high items.length path v))
  | .object fields, path, v =>
    match v with
    | .obj given => do
      let (output, issues) ← Rule.checkFields hop encoded fields path given given
      pure ⟨some (.obj output), issues⟩
    | _ => pure (Outcome.mismatch path .invalidType "object" (some v))
  | .named name, path, v => hop name path v

/-- The outcome of the first branch that accepts, if one does. -/
def Rule.firstAccepted (hop : Hop m) (encoded : Bool) :
    List Validator → FieldPath → Json → m (Option Outcome)
  | [], _, _ => pure none
  | branch :: rest, path, v => do
    let outcome ← branch.apply hop encoded path (some v)
    if outcome.accepted then pure (some outcome)
    else Rule.firstAccepted hop encoded rest path v

/-- The object with every declared field coerced, undeclared ones as given, and the failing places. -/
def Rule.checkFields (hop : Hop m) (encoded : Bool) :
    List (String × Validator) → FieldPath → List (String × Json) → List (String × Json) →
      m (List (String × Json) × List Issue)
  | [], _, _, output => pure (output, [])
  | (name, field) :: rest, path, given, output => do
    let outcome ← field.apply hop encoded (path.push (.key name)) (Table.get? name given)
    let (output, issues) ← Rule.checkFields hop encoded rest path given (Check.put name outcome output)
    pure (output, outcome.issues ++ issues)

end

end Conform
