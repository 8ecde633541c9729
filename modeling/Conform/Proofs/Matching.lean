import Conform.Proofs.Simulation
import Mathlib.Data.List.Forall2

/-!
# Matching issues

What a check answers depends on its place only where its issues say so, and a
rule never complains of a type that cannot be found. Both follow from one
induction over two checks of the same value whose issues correspond.
-/

namespace Conform

namespace Coerce

variable {α β : Type} {x : Result α} {f : α → Result β} {reason : Reason}

/-- A reason that a coercion may give. -/
def Gives (x : Result α) : Prop := ∀ reason, x = .error reason → reason ≠ .unresolvedType

theorem gives_ok (a : α) : Gives (.ok a : Result α) := fun _ h => by cases h

theorem gives_error (h : reason ≠ .unresolvedType) : Gives (.error reason : Result α) := by
  intro other hother
  cases hother
  exact h

theorem gives_orReason (h : reason ≠ .unresolvedType) (found : Option α) :
    Gives (orReason reason found) := by
  cases found with
  | none => exact gives_error h
  | some a => exact gives_ok a

theorem Gives.bind (hx : Gives x) (hf : ∀ a, Gives (f a)) : Gives (x >>= f) := by
  cases x with
  | error reason => exact gives_error (hx reason rfl)
  | ok a => exact hf a

theorem gives_text (v : Json) : Gives (text v) := by
  cases v <;> first | exact gives_ok _ | exact gives_error (by decide)

theorem gives_whole (integer : Bool) (x : Double) (n : Number) : Gives (whole integer x n) := by
  unfold whole
  split
  · exact gives_error (by decide)
  · exact gives_ok n

theorem gives_number (integer : Bool) (v : Json) : Gives (number integer v) := by
  cases v with
  | num n => exact gives_whole _ _ n
  | str s => exact (gives_orReason (by decide) _).bind fun x => gives_whole _ x _
  | _ => exact gives_error (by decide)

theorem gives_flag (v : Json) : Gives (flag v) := by
  cases v <;> first | exact gives_ok _ | exact gives_error (by decide)

theorem gives_dateTime (v : Json) : Gives (dateTime v) := by
  unfold dateTime
  split
  · exact (gives_orReason (by decide) _).bind fun _ => gives_ok _
  · split
    · exact (gives_orReason (by decide) _).bind fun _ => gives_ok _
    · exact gives_error (by decide)
  · exact gives_error (by decide)

theorem gives_checked (holds : String → Bool) (s : String) : Gives (checked holds s) := by
  unfold checked
  split
  · exact gives_ok s
  · exact gives_error (by decide)

theorem gives_formatted (format : Option Format) (v : Json) : Gives (formatted format v) := by
  unfold formatted
  split
  · exact gives_text v
  · exact gives_dateTime v
  · exact (gives_text v).bind fun s => (gives_orReason (by decide) _).bind fun _ => gives_ok _
  · exact (gives_text v).bind fun s => gives_checked _ s
  · exact (gives_text v).bind fun s => gives_checked _ s
  · exact (gives_text v).bind fun s => (gives_orReason (by decide) _).bind fun _ => gives_ok _

end Coerce

/-- How the issues of two checks correspond, told how their places do. -/
structure Matching where
  place : FieldPath → FieldPath → Prop
  issue : Issue → Issue → Prop
  push {p q : FieldPath} (segment : Segment) : place p q → place (p.push segment) (q.push segment)
  mismatch {p q : FieldPath} {code : Reason} (expected : String) (found : Option Json) :
    place p q → code ≠ .unresolvedType →
      issue (Issue.mismatch p code expected found) (Issue.mismatch q code expected found)
  broken {p q : FieldPath} {code : Reason} (expected : String) (found : Json) (message : String) :
    place p q → code ≠ .unresolvedType →
      issue (Issue.broken p code expected found message) (Issue.broken q code expected found message)

namespace Matching

variable (μ : Matching)

/-- The same output, and issues that correspond. -/
structure Outcomes (o o' : Outcome) : Prop where
  output : o.output = o'.output
  issues : List.Forall₂ μ.issue o.issues o'.issues

/-- Both checks end and their outcomes match, or neither ends. -/
def Ends : Option Outcome → Option Outcome → Prop := Option.Rel μ.Outcomes

/-- Hops to any of the names from places that correspond end alike. -/
def Hops (hop hop' : Hop Option) (names : List TypeName) (v : Json) : Prop :=
  ∀ name ∈ names, ∀ p q, μ.place p q → ∀ part, part.Within v →
    μ.Ends (hop name p part) (hop' name q part)

variable {μ} {p q : FieldPath} {o o' : Outcome}

theorem Outcomes.accepted (h : μ.Outcomes o o') : o.accepted = o'.accepted := by
  obtain ⟨output, issues⟩ := o
  obtain ⟨output', issues'⟩ := o'
  obtain ⟨-, hissues⟩ := h
  unfold Outcome.accepted
  cases hissues <;> rfl

theorem Ends.isSome {x y : Option Outcome} (h : μ.Ends x y) : x.isSome = y.isSome := by
  cases h <;> rfl

theorem outcomes_kept (v : Json) : μ.Outcomes (Outcome.kept v) (Outcome.kept v) := ⟨rfl, .nil⟩

theorem outcomes_mismatch (hplace : μ.place p q) {code : Reason} (hcode : code ≠ .unresolvedType)
    (expected : String) (found : Option Json) :
    μ.Outcomes (Outcome.mismatch p code expected found) (Outcome.mismatch q code expected found) :=
  ⟨rfl, .cons (μ.mismatch expected found hplace hcode) .nil⟩

theorem outcomes_keptUnless (v : Json) {issues issues' : List Issue}
    (h : List.Forall₂ μ.issue issues issues') :
    μ.Outcomes (Outcome.keptUnless v issues) (Outcome.keptUnless v issues') := by
  refine ⟨?_, h⟩
  unfold Outcome.keptUnless
  cases h <;> rfl

theorem outcomes_missing (hplace : μ.place p q) (required : Bool) (expected : String)
    (found : Option Json) : μ.Outcomes (Check.missing required expected p found)
      (Check.missing required expected q found) := by
  unfold Check.missing
  split
  · exact outcomes_mismatch hplace (by decide) expected found
  · exact ⟨rfl, .nil⟩

theorem broken_if (hplace : μ.place p q) {code : Reason} (hcode : code ≠ .unresolvedType)
    (condition : Prop) [Decidable condition] (expected : String) (found : Json) (message : String) :
    List.Forall₂ μ.issue
      (if condition then [Issue.broken p code expected found message] else [])
      (if condition then [Issue.broken q code expected found message] else []) := by
  split
  · exact .cons (μ.broken expected found message hplace hcode) .nil
  · exact .nil

theorem string_matched (r : StringRule) (hplace : μ.place p q) (v : Json) :
    μ.Outcomes (r.check p v) (r.check q v) := by
  unfold StringRule.check
  cases hcoerced : Coerce.formatted r.format v with
  | error reason =>
    exact outcomes_mismatch hplace (Coerce.gives_formatted _ v reason hcoerced) _ _
  | ok text =>
    refine outcomes_keptUnless _ ?_
    obtain ⟨format, minLength, maxLength, pattern⟩ := r
    refine List.rel_append (List.rel_append ?_ ?_) ?_
    · cases minLength with
      | none => exact .nil
      | some n => exact broken_if hplace (by decide) _ _ _ _
    · cases maxLength with
      | none => exact .nil
      | some n => exact broken_if hplace (by decide) _ _ _ _
    · cases pattern with
      | none => exact .nil
      | some entry =>
        dsimp only
        split
        · exact .nil
        · exact .cons (μ.broken _ _ _ hplace (by decide)) .nil

theorem number_matched (r : NumberRule) (hplace : μ.place p q) (v : Json) :
    μ.Outcomes (r.check p v) (r.check q v) := by
  unfold NumberRule.check
  cases hcoerced : Coerce.number r.integer v with
  | error reason =>
    exact outcomes_mismatch hplace (Coerce.gives_number _ v reason hcoerced) _ _
  | ok n =>
    refine outcomes_keptUnless _ ?_
    obtain ⟨integer, minimum, maximum⟩ := r
    refine List.rel_append ?_ ?_
    · cases minimum with
      | none => exact .nil
      | some low => exact broken_if hplace (by decide) _ _ _ _
    · cases maximum with
      | none => exact .nil
      | some high => exact broken_if hplace (by decide) _ _ _ _

theorem boolean_matched (hplace : μ.place p q) (v : Json) :
    μ.Outcomes (Check.boolean p v) (Check.boolean q v) := by
  unfold Check.boolean
  cases hcoerced : Coerce.flag v with
  | error reason => exact outcomes_mismatch hplace (Coerce.gives_flag v reason hcoerced) _ _
  | ok b => exact outcomes_kept _

theorem enum_matched (values : List String) (hplace : μ.place p q) (v : Json) :
    μ.Outcomes (Check.enum values p v) (Check.enum values q v) := by
  unfold Check.enum
  split
  · split
    · exact outcomes_kept _
    · exact outcomes_mismatch hplace (by decide) _ _
  · exact outcomes_mismatch hplace (by decide) _ _

theorem brokenCounts_matched (low high : Option Nat) (count : Nat) (hplace : μ.place p q)
    (v : Json) : List.Forall₂ μ.issue (Check.brokenCounts low high count p v)
      (Check.brokenCounts low high count q v) := by
  refine List.rel_append ?_ ?_
  · cases low with
    | none => exact .nil
    | some n => exact broken_if hplace (by decide) _ _ _ _
  · cases high with
    | none => exact .nil
    | some n => exact broken_if hplace (by decide) _ _ _ _

theorem gather_matched {outcomes outcomes' : List Outcome} {broken broken' : List Issue}
    (h : List.Forall₂ μ.Outcomes outcomes outcomes')
    (hbroken : List.Forall₂ μ.issue broken broken') :
    μ.Outcomes (Check.gather outcomes broken) (Check.gather outcomes' broken') where
  output := by
    have houtputs : outcomes.map Outcome.output = outcomes'.map Outcome.output := by
      induction h with
      | nil => rfl
      | cons hhead _ ih => rw [List.map_cons, List.map_cons, hhead.output, ih]
    have hvalues := congrArg (List.map Json.orNull) houtputs
    rw [List.map_map, List.map_map] at hvalues
    exact congrArg (fun values => some (Json.arr values)) hvalues
  issues := List.rel_append hbroken (List.rel_flatMap h fun _ _ hmatched => hmatched.issues)

theorem rel_bind {α α' β β' : Type} {R : α → α' → Prop} {S : β → β' → Prop} {x : Option α}
    {x' : Option α'} {f : α → Option β} {f' : α' → Option β'} (hx : Option.Rel R x x')
    (hf : ∀ a a', R a a' → Option.Rel S (f a) (f' a')) : Option.Rel S (x >>= f) (x' >>= f') := by
  cases hx with
  | none => exact .none
  | some ha => exact hf _ _ ha

section Checking

variable {hop hop' : Hop Option} {names more : List TypeName} {v w : Json}

theorem Hops.left (h : μ.Hops hop hop' (names ++ more) v) : μ.Hops hop hop' names v :=
  fun name hname => h name (List.mem_append_left _ hname)

theorem Hops.right (h : μ.Hops hop hop' (names ++ more) v) : μ.Hops hop hop' more v :=
  fun name hname => h name (List.mem_append_right _ hname)

theorem Hops.below (h : μ.Hops hop hop' names v) (hw : w.Within v) : μ.Hops hop hop' names w :=
  fun name hname p q hplace part hpart => h name hname p q hplace part (hpart.trans hw)

theorem elements_matched {check check' : FieldPath → Json → Option Outcome} {items : List Json}
    (h : ∀ item ∈ items, ∀ p q, μ.place p q → μ.Ends (check p item) (check' q item))
    (hplace : μ.place p q) (i : Nat) :
    Option.Rel (List.Forall₂ μ.Outcomes) (Check.elements check p i items)
      (Check.elements check' q i items) := by
  induction items generalizing i with
  | nil => exact .some .nil
  | cons item rest ih =>
    have hhead := h item List.mem_cons_self _ _ (μ.push (.index i) hplace)
    have hrest := ih (fun other hother => h other (List.mem_cons_of_mem _ hother)) (i + 1)
    exact rel_bind hhead fun _ _ hmatched => rel_bind hrest fun _ _ hmore =>
      .some (.cons hmatched hmore)

mutual

theorem apply_matched (encoded : Bool) : (validator : Validator) → (found : Option Json) →
    (∀ v ∈ found, μ.Hops hop hop' validator.calls v) → ∀ p q, μ.place p q →
    μ.Ends (validator.apply hop encoded p found) (validator.apply hop' encoded q found)
  | ⟨required, nullable, rule⟩, found, h, p, q, hplace => by
    unfold Validator.apply
    split
    · exact .some (outcomes_missing hplace required _ none)
    · refine .some ?_
      split
      · exact outcomes_kept .null
      · exact outcomes_missing hplace required _ (some .null)
    · next v _ hpresent =>
      exact check_matched encoded rule v (h v (Check.eq_of_present hpresent)) p q hplace

theorem check_matched (encoded : Bool) : (rule : Rule) → (v : Json) →
    μ.Hops hop hop' rule.calls v → ∀ p q, μ.place p q →
    μ.Ends (rule.check hop encoded p v) (rule.check hop' encoded q v)
  | .accept _, v, _, p, q, _ => by unfold Rule.check; exact .some (outcomes_kept v)
  | .string r, v, _, p, q, hplace => by
    unfold Rule.check
    exact .some (string_matched r hplace v)
  | .number r, v, _, p, q, hplace => by
    unfold Rule.check
    exact .some (number_matched r hplace v)
  | .boolean, v, _, p, q, hplace => by unfold Rule.check; exact .some (boolean_matched hplace v)
  | .enum values, v, _, p, q, hplace => by
    unfold Rule.check
    exact .some (enum_matched values hplace v)
  | .union branches, v, h, p, q, hplace => by
    unfold Rule.check
    have hbranches := firstAccepted_matched encoded branches v h p q hplace
    refine rel_bind hbranches fun found found' hfound => ?_
    cases hfound with
    | none => exact .some (outcomes_mismatch hplace (by decide) _ _)
    | some hmatched => exact .some hmatched
  | .array element low high, v, h, p, q, hplace => by
    unfold Rule.check
    split
    · exact .some (outcomes_mismatch hplace (by decide) _ _)
    · next items hitems =>
      have helements := elements_matched (fun item hitem p q hplace =>
        apply_matched encoded element (some item) (fun w hw => by
          cases hw
          exact h.below (Check.within_items hitems hitem)) p q hplace) hplace 0
      exact rel_bind helements fun _ _ hmatched =>
        .some (gather_matched hmatched (brokenCounts_matched low high _ hplace v))
  | .object fields, v, h, p, q, hplace => by
    unfold Rule.check
    split
    · next given =>
      have hfields := checkFields_matched encoded fields given h p q hplace given
      refine rel_bind hfields fun _ _ hpair => ?_
      exact .some ⟨congrArg (fun output => some (Json.obj output)) hpair.1, hpair.2⟩
    · exact .some (outcomes_mismatch hplace (by decide) _ _)
  | .named name, v, h, p, q, hplace => by
    unfold Rule.check
    exact h name (List.mem_singleton_self name) p q hplace v (Json.Within.refl v)

theorem firstAccepted_matched (encoded : Bool) : (branches : List Validator) → (v : Json) →
    μ.Hops hop hop' (Validator.branchCalls branches) v → ∀ p q, μ.place p q →
    Option.Rel (Option.Rel μ.Outcomes) (Rule.firstAccepted hop encoded branches p v)
      (Rule.firstAccepted hop' encoded branches q v)
  | [], v, _, p, q, _ => by unfold Rule.firstAccepted; exact .some .none
  | branch :: rest, v, h, p, q, hplace => by
    unfold Rule.firstAccepted
    have hbranch := apply_matched encoded branch (some v) (fun w hw => by cases hw; exact h.left)
      p q hplace
    refine rel_bind hbranch fun o o' hmatched => ?_
    rw [hmatched.accepted]
    split
    · exact .some (.some hmatched)
    · exact firstAccepted_matched encoded rest v h.right p q hplace

theorem checkFields_matched (encoded : Bool) : (fields : List (String × Validator)) →
    (given : List (String × Json)) → μ.Hops hop hop' (Validator.fieldCalls fields) (.obj given) →
    ∀ p q, μ.place p q → ∀ output,
    Option.Rel (fun x y => x.1 = y.1 ∧ List.Forall₂ μ.issue x.2 y.2)
      (Rule.checkFields hop encoded fields p given output)
      (Rule.checkFields hop' encoded fields q given output)
  | [], given, _, p, q, _, output => by unfold Rule.checkFields; exact .some ⟨rfl, .nil⟩
  | (name, field) :: rest, given, h, p, q, hplace, output => by
    unfold Rule.checkFields
    have hfield := apply_matched encoded field (Table.get? name given)
      (fun w hw => h.left.below (Json.within_obj hw)) _ _ (μ.push (.key name) hplace)
    refine rel_bind hfield fun o o' hmatched => ?_
    have hput : Check.put name o output = Check.put name o' output := by
      unfold Check.put
      rw [hmatched.output]
    rw [hput]
    exact rel_bind (checkFields_matched encoded rest given h.right p q hplace _) fun _ _ hpair =>
      .some ⟨hpair.1, List.rel_append hmatched.issues hpair.2⟩

end

end Checking

end Matching

end Conform
