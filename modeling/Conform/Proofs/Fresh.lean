import Conform.Proofs.History
import Conform.Proofs.NullAdmission
import Conform.Proofs.WarmUp

/-!
# Fresh sessions

On an empty cache every reference finds its type as nullable as the type is
marked, so what a target compiles to is told by its node alone. Two targets of
one node get one verdict, whatever they are called.
-/

namespace Conform

open Cache

/-- Verdicts that come to the same: one value, or reports that match. -/
inductive Verdict.Agree (matching : Report → Report → Prop) : Verdict → Verdict → Prop
  | accepted {w : Json} : Agree matching (.accepted w) (.accepted w)
  | rejected {r r' : Report} : matching r r' → Agree matching (.rejected r) (.rejected r')
  | uncompiled {e e' : CompileError} : Agree matching (.uncompiled e) (.uncompiled e')
  | endless : Agree matching .endless .endless

/-- Reports of the same issues, whatever the target is called. -/
def Report.SameIssues (r r' : Report) : Prop := r.channel = r'.channel ∧ r.issues = r'.issues

namespace Verdict

variable {matching more : Report → Report → Prop} {verdict other : Verdict} {channel : Channel}
  {label label' : String} {o o' : Outcome}

theorem Agree.refl (h : ∀ r, matching r r) (verdict : Verdict) : Agree matching verdict verdict := by
  cases verdict with
  | accepted => exact .accepted
  | rejected r => exact .rejected (h r)
  | uncompiled => exact .uncompiled
  | endless => exact .endless

theorem Agree.mono (h : Agree matching verdict other) (hmore : ∀ r r', matching r r' → more r r') :
    Agree more verdict other := by
  cases h with
  | accepted => exact .accepted
  | rejected hreports => exact .rejected (hmore _ _ hreports)
  | uncompiled => exact .uncompiled
  | endless => exact .endless

theorem Agree.isAccepted_eq (h : Agree matching verdict other) :
    verdict.isAccepted = other.isAccepted := by
  cases h <;> rfl

theorem ofOutcome_accepted (h : o.accepted = true) :
    ofOutcome channel label (some o) = .accepted (.orNull o.output) := by
  simp [ofOutcome, h]

theorem ofOutcome_rejected (h : o.accepted = false) :
    ofOutcome channel label (some o) = .rejected ⟨channel, label, o.issues⟩ := by
  simp [ofOutcome, h]

theorem agree_ofOutcome (found : Option Outcome) :
    Agree Report.SameIssues (ofOutcome channel label found) (ofOutcome channel label' found) := by
  cases found with
  | none => exact .endless
  | some o =>
    cases h : o.accepted with
    | true =>
      rw [ofOutcome_accepted h, ofOutcome_accepted h]
      exact .accepted
    | false =>
      rw [ofOutcome_rejected h, ofOutcome_rejected h]
      exact .rejected ⟨rfl, rfl⟩

end Verdict

namespace Store

variable {s : Store} {c c' : Cache} {name : TypeName} {node : Node} {d : Definition}
  {location : String} {target : Target} {v w : Validator}

/-- A cache that one compilation has filled is literal. -/
theorem literal_of_fresh (h : Update s Cache.empty c) : Literal s c where
  coherent := h.coherent (Coherent.empty s)
  own {k w} hget hk := by
    cases h with
    | same => cases hget
    | accept hexcluded =>
      rcases get?_insert_cases hget with hnone | ⟨rfl, rfl⟩
      · cases hnone
      · rw [hexcluded] at hk
        cases hk
    | commit hpass hgrows =>
      rcases get?_commit_cases hpass hgrows hget with hnone | ⟨_, -, -, hideal⟩
      · cases hnone
      · exact hideal

/-- A node has been compiled on an empty cache. -/
structure Freshly (s : Store) (node : Node) (v : Validator) (c : Cache) : Prop where
  literal : Literal s c
  builds : node.Builds s s.ownNullable true v
  calls : ∀ callee ∈ v.calls, c.contains callee = true

theorem compileNamed_freshly (hname : s.isExcluded name = false)
    (h : s.compileNamed Cache.empty name = .ok (v, c)) :
    c.get? name = some v ∧ ∃ node, s.Lowers name node ∧ s.Freshly node v c := by
  obtain ⟨hupdate, hget⟩ := compileNamed_ok h
  have hliteral := literal_of_fresh hupdate
  obtain ⟨node, hlowers, hbuilds⟩ := (hliteral.own hget hname).builds
  exact ⟨hget, node, hlowers, hliteral, hbuilds, fun _ => hliteral.coherent.calls hget⟩

theorem compileInline_freshly (h : s.compileInline Cache.empty d location = .ok (v, c)) :
    ∃ node, d.lower .unspecified location = .ok node ∧ s.Freshly node v c := by
  obtain ⟨hupdate, hcalls⟩ := compileInline_ok h
  obtain ⟨node, hlower, hbuilds⟩ := compileInline_builds h
  exact ⟨node, hlower, literal_of_fresh hupdate, hbuilds, hcalls⟩

/-- One node checks alike wherever it was compiled. -/
theorem Freshly.outcome_eq (h : s.Freshly node v c) (h' : s.Freshly node w c') (encoded : Bool)
    (value : Json) : c.outcome? v encoded value = c'.outcome? w encoded value := by
  cases Node.Builds.unique node h.builds h'.builds
  exact Session.outcome_of_literal h.literal h'.literal h.calls h'.calls encoded value

/-- A type compiles where its node does. -/
theorem compilable_iff : s.Compilable name ↔
    ∃ node, s.Lowers name node ∧ node.PatternsRead ∧ ∀ other, s.Needs node other → s.IsSound other := by
  constructor
  · intro h
    obtain ⟨node, hlowers, hread⟩ := h.isSound
    refine ⟨node, hlowers, hread, ?_⟩
    rintro other ⟨start, hstart, hvalidated, hreach⟩
    exact h other (hreach.head (hlowers.edge_iff.mpr ⟨hstart, hvalidated⟩))
  · rintro ⟨node, hlowers, hread, hneeded⟩ other hreach
    rcases hreach.cases_head with rfl | ⟨start, hedge, hreach⟩
    · exact ⟨node, hlowers, hread⟩
    · obtain ⟨hstart, hvalidated⟩ := hlowers.edge_iff.mp hedge
      exact hneeded other ⟨start, hstart, hvalidated, hreach⟩

end Store

namespace Session

variable {store : Store} {target other : Target} {channel : Channel} {value : Json}

/-- The verdict on a value whose target compiles to this. -/
def verdictOf (value : Json) (target : Target) (channel : Channel) :
    Except CompileError (Validator × Cache) → Verdict
  | .ok (v, c) => Verdict.ofOutcome channel target.label (c.outcome? v channel.stringEncoded value)
  | .error e => .uncompiled e

theorem validate_ofStore (store : Store) (value : Json) (target : Target) (channel : Channel) :
    ((ofStore store).validate value target channel).1 = verdictOf value target channel
      (store.compileTarget Cache.empty target (locationOf channel)) := by
  unfold validate validatorFor
  cases h : store.compileTarget Cache.empty target (locationOf channel) with
  | error e => simp [ofStore, h, keep, verdictOf]
  | ok last => simp [ofStore, h, keep, verdictOf]

/-- Fresh verdicts agree where neither target compiles, or both do and what they compile to agrees. -/
theorem agree_of_fresh {matching : Report → Report → Prop}
    (hcan : store.CanCompile target ↔ store.CanCompile other)
    (hagree : ∀ v c v' c', store.compileTarget Cache.empty target (locationOf channel) = .ok (v, c) →
      store.compileTarget Cache.empty other (locationOf channel) = .ok (v', c') →
      Verdict.Agree matching (verdictOf value target channel (.ok (v, c)))
        (verdictOf value other channel (.ok (v', c')))) :
    Verdict.Agree matching ((ofStore store).validate value target channel).1
      ((ofStore store).validate value other channel).1 := by
  have hcompiles := Store.compileTarget_succeeds_iff (Coherent.empty store) target (locationOf channel)
  have hcompiles' := Store.compileTarget_succeeds_iff (Coherent.empty store) other (locationOf channel)
  rw [← hcan] at hcompiles'
  rw [validate_ofStore, validate_ofStore]
  cases hrun : store.compileTarget Cache.empty target (locationOf channel) with
  | ok last =>
    obtain ⟨v', c', hrun'⟩ := hcompiles'.mpr (hcompiles.mp ⟨last.1, last.2, hrun⟩)
    rw [hrun']
    exact hagree last.1 last.2 v' c' hrun hrun'
  | error e =>
    cases hrun' : store.compileTarget Cache.empty other (locationOf channel) with
    | error e' => exact .uncompiled
    | ok last =>
      obtain ⟨v, c, hok⟩ := hcompiles.mpr (hcompiles'.mp ⟨last.1, last.2, hrun'⟩)
      rw [hrun] at hok
      cases hok

end Session

end Conform
