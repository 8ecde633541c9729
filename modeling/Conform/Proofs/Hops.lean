import Conform.Proofs.Coherence
import Conform.Proofs.Matching
import Conform.Session

/-!
# Hops

Checking a value hops from type to type. Below a value, hopping has settled;
at the value itself each further hop either lets one more type answer or
changes nothing from then on, so the bound on hops is no bound on checking.
-/

namespace Conform

/-- Two runs that come to the same. -/
def Simulation.same (m : Type → Type) [Monad m] : Simulation m m where
  rel x y := x = y
  pure _ := rfl
  bind hxy hfg := by rw [hxy, funext hfg]

/-- What the one check answers, the other answers too. -/
def Simulation.refines : Simulation Option Option where
  rel x y := ∀ a, x = some a → y = some a
  pure _ _ h := h
  bind {α β x y f g} hxy hfg b h := by
    obtain ⟨a, hx, hf⟩ := Option.bind_eq_some_iff.mp h
    exact Option.bind_eq_some_iff.mpr ⟨a, hxy a hx, hfg a b hf⟩

/-- The same check at another place. -/
def Matching.elsewhere : Matching where
  place _ _ := True
  issue i j := { i with path := j.path } = j
  push _ _ := trivial
  mismatch _ _ _ _ := rfl
  broken _ _ _ _ _ := rfl

/-- The same check, which complains of no type that cannot be found. -/
def Matching.resolved : Matching where
  place p q := p = q
  issue i j := i = j ∧ i.code ≠ .unresolvedType
  push _ h := by rw [h]
  mismatch _ _ h hcode := ⟨by rw [h], hcode⟩
  broken _ _ _ h hcode := ⟨by rw [h], hcode⟩

/-- A growing chain of parts of a finite set stands still somewhere among so many steps. -/
theorem exists_still {α : Type} {chain : Nat → Finset α} {whole : Finset α}
    (hgrow : ∀ k, chain k ⊆ chain (k + 1)) (hwhole : ∀ k, chain k ⊆ whole) (start : Nat) :
    ∃ k, start ≤ k ∧ k ≤ start + whole.card ∧ chain (k + 1) ⊆ chain k := by
  by_contra hnone
  have hcount : ∀ i, i ≤ whole.card + 1 → i ≤ (chain (start + i)).card := by
    intro i
    induction i with
    | zero => exact fun _ => Nat.zero_le _
    | succ i ih =>
      intro hi
      have hmoves : ¬ chain (start + i + 1) ⊆ chain (start + i) :=
        fun hstill => hnone ⟨start + i, by omega, by omega, hstill⟩
      have hless := Finset.card_lt_card ⟨hgrow (start + i), hmoves⟩
      have hbefore := ih (by omega)
      rw [← Nat.add_assoc]
      omega
  have htoo := hcount (whole.card + 1) (Nat.le_refl _)
  have hmost := Finset.card_le_card (hwhole (start + (whole.card + 1)))
  omega

theorem Validator.calls_rule (validator : Validator) : validator.rule.calls = validator.calls := by
  cases validator
  rfl

namespace Cache

variable {c other : Cache} {encoded : Bool} {name : TypeName} {path : FieldPath} {v : Json}
  {o : Outcome} {hops more : Nat} {good : TypeName → Prop} {μ : Matching}

theorem hop_of_cached {validator : Validator} (h : c.get? name = some validator) (hops : Nat)
    (path : FieldPath) (v : Json) : c.hop encoded (hops + 1) name path v =
      validator.rule.check (c.hop encoded hops) encoded path v := by
  rw [hop, h]

theorem hop_of_missing (h : c.get? name = none) (hops : Nat) (path : FieldPath) (v : Json) :
    c.hop encoded (hops + 1) name path v =
      some (Outcome.mismatch path .unresolvedType name.text (some v)) := by
  rw [hop, h]

/-- A hop that answers has not found the name, or checks by the rule that it has found. -/
theorem hop_cases (h : c.hop encoded (hops + 1) name path v = some o) :
    o = Outcome.mismatch path .unresolvedType name.text (some v) ∨
    ∃ target, c.get? name = some target ∧
      target.rule.check (c.hop encoded hops) encoded path v = some o := by
  cases hget : c.get? name with
  | none =>
    rw [hop_of_missing hget] at h
    exact Or.inl (Option.some.inj h).symm
  | some target =>
    rw [hop_of_cached hget] at h
    exact Or.inr ⟨target, rfl, h⟩

/-- The names are closed under the calls of the validators that the cache has for them. -/
def Closes (c : Cache) (good : TypeName → Prop) : Prop :=
  ∀ {name validator}, good name → c.get? name = some validator →
    ∀ callee ∈ validator.calls, good callee

theorem hop_matched (hcloses : c.Closes good)
    (hmissing : ∀ name, good name → c.get? name = none → ∀ p q v, μ.place p q →
      μ.Outcomes (Outcome.mismatch p .unresolvedType name.text (some v))
        (Outcome.mismatch q .unresolvedType name.text (some v)))
    (hops : Nat) : ∀ name, good name → ∀ p q, μ.place p q → ∀ v,
      μ.Ends (c.hop encoded hops name p v) (c.hop encoded hops name q v) := by
  induction hops with
  | zero => exact fun _ _ _ _ _ _ => .none
  | succ hops ih =>
    intro name hname p q hplace v
    cases hget : c.get? name with
    | none =>
      rw [hop_of_missing hget, hop_of_missing hget]
      exact .some (hmissing name hname hget p q v hplace)
    | some validator =>
      rw [hop_of_cached hget, hop_of_cached hget]
      refine Matching.check_matched encoded validator.rule v ?_ p q hplace
      intro callee hcallee p q hplace part _
      rw [Validator.calls_rule] at hcallee
      exact ih callee (hcloses hname hget callee hcallee) p q hplace part

/-- A hop does the same at every place. -/
theorem hop_elsewhere (hops : Nat) (name : TypeName) (p q : FieldPath) (v : Json) :
    Matching.elsewhere.Ends (c.hop encoded hops name p v) (c.hop encoded hops name q v) := by
  have hcloses : c.Closes fun _ => True := fun _ _ _ _ => trivial
  exact hop_matched hcloses (fun _ _ _ _ _ _ _ => ⟨rfl, .cons rfl .nil⟩) hops name trivial p q
    trivial v

/-- Whether a hop ends does not depend on the place. -/
theorem hop_isSome (hops : Nat) (name : TypeName) (p q : FieldPath) (v : Json) :
    (c.hop encoded hops name p v).isSome = (c.hop encoded hops name q v).isSome :=
  (hop_elsewhere hops name p q v).isSome

/-- A check does the same at every place. -/
theorem apply_elsewhere (validator : Validator) (hops : Nat) (p q : FieldPath) (v : Json) :
    Matching.elsewhere.Ends (validator.apply (c.hop encoded hops) encoded p (some v))
      (validator.apply (c.hop encoded hops) encoded q (some v)) := by
  refine Matching.apply_matched encoded validator (some v) ?_ p q trivial
  intro _ _ name _ p q _ part _
  exact hop_elsewhere hops name p q part

/-- A further hop keeps every answer. -/
theorem hop_grows (hops : Nat) : ∀ name path v, c.hop encoded hops name path v = some o →
    c.hop encoded (hops + 1) name path v = some o := by
  induction hops generalizing o with
  | zero => intro name path v h; cases h
  | succ hops ih =>
    intro name path v h
    cases hget : c.get? name with
    | none =>
      rw [hop_of_missing hget] at h ⊢
      exact h
    | some validator =>
      rw [hop_of_cached hget] at h ⊢
      exact Rule.check_simulated (σ := Simulation.refines) encoded validator.rule v
        (fun callee _ path part _ o ho => ih callee path part ho) path o h

/-- With this many hops, checking the value or what lies below it has settled. -/
def Settled (c : Cache) (encoded : Bool) (v : Json) (hops : Nat) : Prop :=
  ∀ more, hops ≤ more → ∀ name path part, part.Within v →
    c.hop encoded more name path part = c.hop encoded hops name path part

theorem Settled.mono (h : c.Settled encoded v hops) (hle : hops ≤ more) :
    c.Settled encoded v more := by
  intro last hlast name path part hpart
  rw [h last (hle.trans hlast) name path part hpart, h more hle name path part hpart]

/-- Once a further hop changes nothing, none does. -/
theorem settled_of_still (hbelow : ∀ w, w.depth < v.depth → c.Settled encoded w hops)
    (hstill : ∀ name path,
      c.hop encoded (hops + 1) name path v = c.hop encoded hops name path v) :
    c.Settled encoded v hops := by
  have hsteps : ∀ d name path part, part.Within v →
      c.hop encoded (hops + d) name path part = c.hop encoded hops name path part := by
    intro d
    induction d with
    | zero => exact fun _ _ _ _ => rfl
    | succ d ih =>
      intro name path part hpart
      rcases hpart with rfl | hless
      · rw [← hstill, ← Nat.add_assoc]
        cases hget : c.get? name with
        | none => rw [hop_of_missing hget, hop_of_missing hget]
        | some validator =>
          rw [hop_of_cached hget, hop_of_cached hget]
          exact Rule.check_simulated (σ := Simulation.same Option) encoded validator.rule part
            (fun callee _ => ih callee) path
      · exact hbelow part hless _ (Nat.le_add_right hops _) name path part (Json.Within.refl part)
  intro more hmore name path part hpart
  obtain ⟨d, rfl⟩ := Nat.exists_eq_add_of_le hmore
  exact hsteps d name path part hpart

/-- The types whose rules answer for the value within so many hops. -/
def answering (c : Cache) (encoded : Bool) (v : Json) (hops : Nat) : Finset TypeName :=
  c.names.toFinset.filter fun name => (c.hop encoded hops name FieldPath.root v).isSome = true

theorem answering_grows (hops : Nat) :
    c.answering encoded v hops ⊆ c.answering encoded v (hops + 1) := by
  intro name hname
  obtain ⟨hcached, hanswers⟩ := Finset.mem_filter.mp hname
  obtain ⟨o, ho⟩ := Option.isSome_iff_exists.mp hanswers
  exact Finset.mem_filter.mpr ⟨hcached, by rw [hop_grows hops name _ v ho]; rfl⟩

theorem still_of_answering (hpos : 0 < hops)
    (h : c.answering encoded v (hops + 1) ⊆ c.answering encoded v hops) (name : TypeName)
    (path : FieldPath) :
    c.hop encoded (hops + 1) name path v = c.hop encoded hops name path v := by
  cases hget : c.get? name with
  | none =>
    obtain ⟨before, rfl⟩ := Nat.exists_eq_succ_of_ne_zero (Nat.ne_of_gt hpos)
    rw [hop_of_missing hget, hop_of_missing hget]
  | some validator =>
    cases hnow : c.hop encoded hops name path v with
    | some o => exact hop_grows hops name path v hnow
    | none =>
      cases hnext : c.hop encoded (hops + 1) name path v with
      | none => rfl
      | some o =>
        -- it would answer at the root too, and so have answered before
        have hroot : (c.hop encoded (hops + 1) name path v).isSome =
            (c.hop encoded (hops + 1) name FieldPath.root v).isSome := hop_isSome _ _ _ _ _
        rw [hnext] at hroot
        have hcached : name ∈ c.names.toFinset :=
          List.mem_toFinset.mpr (Table.mem_keys_iff.mpr (Table.contains_of_get? hget))
        have hmem := h (Finset.mem_filter.mpr ⟨hcached, hroot.symm⟩)
        have hanswers := (Finset.mem_filter.mp hmem).2
        rw [hop_isSome hops name FieldPath.root path v, hnow] at hanswers
        cases hanswers

theorem card_answering_le : c.names.toFinset.card ≤ c.size :=
  (List.toFinset_card_le c.names).trans (Nat.le_of_eq (List.length_map _))

/-- The bound on hops suffices for every value. -/
theorem settled_hopLimit (v : Json) : c.Settled encoded v (c.hopLimit v) := by
  induction hdepth : v.depth using Nat.strong_induction_on generalizing v with
  | h depth ih =>
    have hbelow : ∀ w, w.depth < v.depth → c.Settled encoded w ((c.size + 1) * v.depth) := by
      intro w hw
      have hsettled := ih w.depth (hdepth ▸ hw) w rfl
      exact hsettled.mono (Nat.mul_le_mul_left _ hw)
    have hgrow : ∀ hops, c.answering encoded v hops ⊆ c.answering encoded v (hops + 1) :=
      answering_grows
    obtain ⟨hops, hfrom, hto, hstill⟩ := exists_still hgrow
      (fun _ => Finset.filter_subset _ _) ((c.size + 1) * v.depth + 1)
    have hsettled := settled_of_still (fun w hw => (hbelow w hw).mono (by omega))
      (still_of_answering (by omega) hstill)
    refine hsettled.mono ?_
    have hcard := card_answering_le (c := c)
    unfold hopLimit
    rw [Nat.mul_add, Nat.mul_one]
    omega

/-- More hops than the bound change no outcome. -/
theorem apply_hops (validator : Validator) (hle : c.hopLimit v ≤ hops) :
    validator.apply (c.hop encoded hops) encoded path (some v) =
      validator.apply (c.hop encoded (c.hopLimit v)) encoded path (some v) := by
  refine Validator.apply_simulated (σ := Simulation.same Option) encoded validator (some v) ?_ path
  intro w hw name _ path part hpart
  cases hw
  exact settled_hopLimit v hops hle name path part hpart

theorem hop_agrees (hcloses : c.Closes good)
    (hagree : ∀ name, good name → c.get? name = other.get? name) (hops : Nat) : ∀ name, good name → ∀ path v,
      c.hop encoded hops name path v = other.hop encoded hops name path v := by
  induction hops with
  | zero => exact fun _ _ _ _ => rfl
  | succ hops ih =>
    intro name hname path v
    have hsame := hagree name hname
    cases hget : c.get? name with
    | none =>
      rw [hget] at hsame
      rw [hop_of_missing hget, hop_of_missing hsame.symm]
    | some validator =>
      rw [hget] at hsame
      rw [hop_of_cached hget, hop_of_cached hsame.symm]
      refine Rule.check_simulated (σ := Simulation.same Option) encoded validator.rule v ?_ path
      intro callee hcallee path part _
      rw [Validator.calls_rule] at hcallee
      exact ih callee (hcloses hname hget callee hcallee) path part

/-- Caches that have the same for all that a validator leads to check alike. -/
theorem outcome_agrees {validator : Validator} (hcloses : c.Closes good)
    (hagree : ∀ name, good name → c.get? name = other.get? name)
    (hcalls : ∀ callee ∈ validator.calls, good callee) :
    c.outcome? validator encoded v = other.outcome? validator encoded v := by
  unfold outcome?
  let hops := max (c.hopLimit v) (other.hopLimit v)
  rw [← apply_hops validator (Nat.le_max_left _ _ : c.hopLimit v ≤ hops),
    ← apply_hops validator (Nat.le_max_right _ _ : other.hopLimit v ≤ hops)]
  refine Validator.apply_simulated (σ := Simulation.same Option) encoded validator (some v) ?_ _
  intro w _ callee hcallee path part _
  exact hop_agrees hcloses hagree hops callee (hcalls callee hcallee) path part

/-- Where all that a validator leads to is cached, no issue is about a type that cannot be found. -/
theorem outcome_resolved {validator : Validator} (hcloses : c.Closes (c.contains · = true))
    (hcalls : ∀ callee ∈ validator.calls, c.contains callee = true)
    (ho : c.outcome? validator encoded v = some o) :
    ∀ issue ∈ o.issues, issue.code ≠ .unresolvedType := by
  have hends : Matching.resolved.Ends (c.outcome? validator encoded v)
      (c.outcome? validator encoded v) := by
    refine Matching.apply_matched encoded validator (some v) ?_ _ _ rfl
    intro w _ callee hcallee p q hplace part _
    refine hop_matched hcloses ?_ _ callee (hcalls callee hcallee) p q hplace part
    intro name hname hnone
    obtain ⟨found, hfound⟩ := contains_iff.mp hname
    rw [hnone] at hfound
    cases hfound
  rw [ho] at hends
  cases hends with
  | some hmatched =>
    intro issue hissue
    obtain ⟨_, hother⟩ := List.forall₂_iff_get.mp hmatched.issues
    obtain ⟨i, hi, rfl⟩ := List.getElem_of_mem hissue
    exact (hother i hi hi).2

end Cache

end Conform
