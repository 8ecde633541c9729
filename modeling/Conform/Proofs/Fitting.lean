import Conform.Proofs.Bounds
import Conform.Proofs.Decoding
import Conform.Proofs.Finding
import Conform.Proofs.Gathering

/-!
# Accepted values as records

A handler reads its request from the value that validation hands on. Ids and
dates, role names and lists are read wherever they are accepted. A number that
is handed on as it came is read only if it came as an integer: a whole number
written as a float is accepted and then turned down.
-/

namespace Conform

namespace Double

variable {x : Double} {i : ℤ}

theorem bits_ofInt_large (h : 2 ^ 53 ≤ i.natAbs) : 1076 * 2 ^ 52 ≤ (ofInt i).bits := by
  have hlog : 53 ≤ Nat.log2 i.natAbs := (Nat.le_log2 (by omega)).mpr h
  obtain ⟨e, he⟩ := Nat.exists_eq_add_of_le (Nat.le_of_succ_le hlog)
  obtain ⟨hbits, hlow, -⟩ := nearestBits_large he
  have hfound : 1076 * 2 ^ 52 ≤ nearestBits i.natAbs 1 := by
    rw [hbits]
    omega
  unfold ofInt ofQuotient?
  dsimp only
  split
  · exact hfound
  · cases decide (i < 0) <;> decide

/-- An integer of more than 53 bits is as large as a double, however large it is. -/
theorem le_value_ofInt (h : 2 ^ 53 ≤ i) : 2 ^ 53 ≤ (ofInt i).value := by
  have hunits : units (1076 * 2 ^ 52) = 2 ^ 53 * 2 ^ 1074 := by decide +kernel
  have hpow : (0 : ℚ) < 2 ^ 1074 := pow_pos (by decide) _
  have hle : 2 ^ 53 * 2 ^ 1074 ≤ units (ofInt i).bits :=
    hunits ▸ units_strictMono.monotone (bits_ofInt_large (by omega))
  rw [value, negative_ofInt, decide_eq_false (by omega), if_neg Bool.false_ne_true, magnitude_eq,
    le_div_iff₀ hpow]
  exact_mod_cast hle

theorem natAbs_truncate_le {n : Nat} (h : x.magnitude ≤ n) : x.truncate.natAbs ≤ n := by
  have hquotient : x.ratio.1 / x.ratio.2 ≤ n := by
    refine Nat.div_le_of_le_mul ?_
    have hden : (0 : ℚ) < x.ratio.2 := Nat.cast_pos.mpr x.denominator_pos
    have hproduct : (x.ratio.1 : ℚ) ≤ n * x.ratio.2 := (div_le_iff₀ hden).mp h
    rw [Nat.mul_comm]
    exact_mod_cast hproduct
  unfold truncate
  dsimp only
  split
  · rw [Int.natAbs_neg, Int.natAbs_natCast]
    exact hquotient
  · rw [Int.natAbs_natCast]
    exact hquotient

theorem magnitude_of_nonneg (h : 0 ≤ x.value) : x.magnitude = x.value := by
  have hmagnitude := x.magnitude_nonneg
  unfold value at h ⊢
  split at h
  · next hnegative =>
    rw [if_pos hnegative]
    linarith
  · next hpositive => rw [if_neg hpositive]

end Double

/-- What a text comes to is an integer, if it is whole and not too large. -/
theorem Coerce.exists_int_of_text {s : String} {n : Number} {b : Nat}
    (h : number true (.str s) = .ok n) (hlow : 0 ≤ n.toDouble.value)
    (hhigh : n.toDouble.value ≤ b) (hb : b < exactLimit) : ∃ i, n = .int i := by
  obtain ⟨x, -, hwhole⟩ := bind_ok_iff.mp h
  obtain rfl := eq_of_whole hwhole
  have hx : x.isWhole = true := whole_ok_iff.mp hwhole rfl
  by_cases hsmall : x.truncate.natAbs < exactLimit
  · refine ⟨x.truncate, ?_⟩
    rw [numberOf, hx, decide_eq_true hsmall]
    rfl
  · have hfloat : numberOf x = .float x := by
      rw [numberOf, decide_eq_false hsmall, Bool.and_false]
      rfl
    rw [hfloat] at hlow hhigh
    change 0 ≤ x.value at hlow
    change x.value ≤ b at hhigh
    have hmagnitude := Double.natAbs_truncate_le ((Double.magnitude_of_nonneg hlow).trans_le hhigh)
    exact absurd (Nat.lt_of_le_of_lt hmagnitude hb) hsmall

/-- An accepted number is what the coercion has made of the value, and meets the rule. -/
theorem NumberRule.check_accepted {r : NumberRule} {path : FieldPath} {v : Json}
    (h : (r.check path v).accepted = true) : ∃ n, Coerce.number r.integer v = .ok n ∧
      (r.check path v).output = some (.num n) ∧ r.Meets n := by
  unfold check at h ⊢
  cases hcoerced : Coerce.number r.integer v with
  | error reason =>
    rw [hcoerced] at h
    cases h
  | ok n =>
    rw [hcoerced] at h
    have hbroken : r.broken path v n.toDouble = [] := List.isEmpty_iff.mp h
    obtain ⟨hlow, hhigh⟩ := r.broken_eq_nil_iff.mp hbroken
    refine ⟨n, rfl, ?_, Coerce.isWhole_of_number hcoerced, hlow, hhigh⟩
    dsimp only
    rw [hbroken]
    rfl

namespace Description

/-- What is read of an accepted whole number that may be left out. -/
structure FitsInteger (found output : Option Json) : Prop where
  /-- It comes out as a float exactly if it was given as one. -/
  float : ∀ x, output = some (.num (.float x)) ↔ found = some (.num (.float x))
  reads : ∀ w, output = some w → (∀ x, w ≠ .num (.float x)) →
    ∃ i, Decode.optional Decode.signed w = .ok i

theorem fitsInteger_of_accepted {low high : Nat} {hop : Hop Option} {encoded : Bool}
    {path : FieldPath} {found : Option Json} {o : Outcome} (hlow : low < 2 ^ 53)
    (hhigh : high < 2 ^ 53)
    (h : (optionalInteger (some (.ofInt low)) (some (.ofInt high))).apply hop encoded path found =
      some o) (haccepted : o.accepted = true) : FitsInteger found o.output := by
  rcases Validator.apply_cases h with ⟨v, rfl, -, hcheck⟩ | ⟨rfl, -, rfl⟩ | ⟨homitted, shown, -, rfl⟩
  · rw [optionalInteger, Rule.check] at hcheck
    cases hcheck
    obtain ⟨n, hcoerced, houtput, hmeets⟩ := NumberRule.check_accepted haccepted
    have habove : (low : ℚ) ≤ n.toDouble.value := by
      have hle := Double.not_lt_iff_value.mp (hmeets.low _ rfl)
      rw [Double.value_ofInt_small (by omega)] at hle
      exact_mod_cast hle
    have hbelow : n.toDouble.value ≤ high := by
      have hle := Double.not_lt_iff_value.mp (hmeets.high _ rfl)
      rw [Double.value_ofInt_small (by omega)] at hle
      exact_mod_cast hle
    have hread : ∀ i, n = .int i → ∃ j, Decode.optional Decode.signed (.num n) = .ok j := by
      rintro i rfl
      have hsmall : i < twoTo 63 := by
        by_contra hlarge
        have hlimit : (twoTo 63 : ℤ) = 2 ^ 63 := by decide
        have hvalue : 2 ^ 53 ≤ (Double.ofInt i).value := Double.le_value_ofInt (by omega)
        have hbound : (high : ℚ) < 2 ^ 53 := by exact_mod_cast hhigh
        exact absurd (hvalue.trans hbelow) (not_le.mpr hbound)
      exact ⟨some i, Decode.optional_signed hsmall⟩
    rw [houtput]
    refine ⟨fun x => ?_, fun w hw hfloat => ?_⟩
    · cases v with
      | num m =>
        rw [Coerce.eq_of_whole hcoerced]
      | str s =>
        obtain ⟨i, rfl⟩ :=
          Coerce.exists_int_of_text hcoerced (le_trans (Nat.cast_nonneg low) habove) hbelow hhigh
        constructor <;> rintro ⟨⟩
      | _ => cases hcoerced
    · cases hw
      cases n with
      | int i => exact hread i rfl
      | float x => exact absurd rfl (hfloat x)
  · refine ⟨fun x => ?_, fun w hw _ => ?_⟩
    · constructor <;> rintro ⟨⟩
    · cases hw
      exact ⟨none, rfl⟩
  · refine ⟨fun x => ?_, fun w hw => by cases hw⟩
    constructor
    · rintro ⟨⟩
    · intro hfound
      rcases homitted _ hfound with hnull | ⟨-, htext⟩
      · cases hnull
      · cases htext

end Description

namespace Description

variable {name : TypeName} {validator target : Validator} {c : Cache} {encoded : Bool} {v w : Json}
  {o : Outcome} {texts : List String}

/-- What a type of the description accepts conforms to it. -/
theorem Compiles.conforms (h : Compiles name validator c)
    (ho : c.outcome? validator encoded v = some o) (haccepted : o.accepted = true) :
    ∃ w, o.output = some w ∧ validator.Conforms c encoded w := by
  obtain ⟨hupdate, hget⟩ := Store.compileNamed_ok h
  have hcoherent := hupdate.coherent (Cache.Coherent.empty store)
  obtain ⟨hrequired, hall⟩ := Store.tight_of_cached hcoherent hget
  exact Cache.outcome_conforms (Store.tight_of_coherent hcoherent) hall hrequired ho haccepted

/-- A value of required fields is an object that has them all, and each of them conforms. -/
theorem object_conforms {fields : List (String × Validator)}
    (h : Validator.Conforms c encoded ⟨true, false, .object fields⟩ w) :
    ∃ output, w = .obj output ∧ ∀ key field, Table.get? key (Table.ofList fields) = some field →
      (field.required = true → ∃ w, Table.get? key output = some w) ∧
        ∀ w, Table.get? key output = some w → field.Conforms c encoded w := by
  cases h with
  | value _ hrule =>
    cases hrule with
    | @object _ output hneeded hconforms =>
      exact ⟨output, rfl, fun key field hfield => ⟨hneeded key field hfield, hconforms key field hfield⟩⟩

theorem text_conforms {required : Bool} {r : StringRule}
    (h : Validator.Conforms c encoded ⟨required, false, .string r⟩ w) :
    ∃ text, w = .str text ∧ r.Meets text := by
  cases h with
  | value _ hrule =>
    cases hrule with
    | string hmeets => exact ⟨_, rfl, hmeets⟩

theorem listed_conforms {nullable : Bool} {required : Bool} (hget : c.get? name = some target)
    (hlisted : target.rule = .enum texts)
    (h : Validator.Conforms c encoded ⟨required, nullable, .named name⟩ w) :
    (nullable = true ∧ w = .null) ∨ ∃ s ∈ texts, w = .str s := by
  cases h with
  | null => exact Or.inl ⟨rfl, rfl⟩
  | value _ hrule =>
    cases hrule with
    | named hfound hconforms =>
      cases hget.symm.trans hfound
      rw [hlisted] at hconforms
      cases hconforms with
      | enum hs => exact Or.inr ⟨_, hs, rfl⟩

theorem items_conforms {required nullable : Bool} {element : Validator} {low high : Option Nat}
    (h : Validator.Conforms c encoded ⟨required, nullable, .array element low high⟩ w) :
    (nullable = true ∧ w = .null) ∨
      ∃ items, w = .arr items ∧ ∀ item ∈ items, element.Conforms c encoded item := by
  cases h with
  | null => exact Or.inl ⟨rfl, rfl⟩
  | value _ hrule =>
    cases hrule with
    | array _ _ hitems => exact Or.inr ⟨_, rfl, hitems⟩

end Description

namespace Description

def userQueryFields : List (String × Validator) :=
  [("ids", ⟨false, true, .array (anyText (some .uuid)) none none⟩),
    ("limit", optionalInteger (some (.ofInt 1)) (some (.ofInt 100))),
    ("role", ⟨false, true, .named roleName⟩)]

theorem alone_userQuery :
    alone userQueryName = some (⟨true, false, .object userQueryFields⟩, some roleValidator) := by
  decide +kernel

theorem uuid_conforms {required : Bool} {c : Cache} {encoded : Bool} {w : Json}
    (h : Validator.Conforms c encoded ⟨required, false, .string ⟨some .uuid, none, none, none⟩⟩ w) :
    ∃ id, Uuid.decode w = .ok id := by
  obtain ⟨text, rfl, hmeets⟩ := text_conforms h
  obtain ⟨id, hid, rfl⟩ := hmeets.format
  exact ⟨id, Uuid.decode_text hid⟩

end Description

section Conforming

open Description

variable {c : Cache} {encoded : Bool} {w : Json}

theorem NewUser.typed_of_conforms (hrole : c.get? roleName = some roleValidator)
    (h : Validator.Conforms c encoded ⟨true, false, .object newUserFields⟩ w) :
    ∃ fields, w = .obj fields ∧ Typed fields := by
  obtain ⟨fields, rfl, hfields⟩ := object_conforms h
  have htext : ∀ {key : String} {r : StringRule},
      Table.get? key (Table.ofList newUserFields) = some ⟨true, false, .string r⟩ →
      ∃ s, Table.get? key fields = some (.str s) := by
    intro key r hfield
    obtain ⟨hneeded, hconforms⟩ := hfields key _ hfield
    obtain ⟨w, hw⟩ := hneeded rfl
    obtain ⟨s, rfl, -⟩ := text_conforms (hconforms w hw)
    exact ⟨s, hw⟩
  refine ⟨fields, rfl, htext rfl, htext rfl, fun w hw => ?_, fun w hw => ?_⟩
  · rcases items_conforms ((hfields "roles" _ rfl).2 w hw) with ⟨hnull, -⟩ | ⟨items, rfl, hitems⟩
    · cases hnull
    · refine exists_mapM_ok fun item hitem => ?_
      rcases listed_conforms hrole rfl (hitems item hitem) with ⟨hnull, -⟩ | ⟨s, hs, rfl⟩
      · cases hnull
      · exact Role.exists_decode hs
  · cases (hfields "born_on" _ rfl).2 w hw with
    | null => exact ⟨none, rfl⟩
    | value _ hrule =>
      cases hrule with
      | string hmeets =>
        obtain ⟨d, hd, rfl⟩ := hmeets.format
        refine ⟨some d, ?_⟩
        change (CalendarDate.decode _).map some = _
        rw [CalendarDate.decode_text hd]
        rfl

theorem UserQuery.typed_of_conforms (hrole : c.get? roleName = some roleValidator)
    (h : Validator.Conforms c encoded ⟨true, false, .object userQueryFields⟩ w) :
    ∃ fields, w = .obj fields ∧ Typed fields := by
  obtain ⟨fields, rfl, hfields⟩ := object_conforms h
  refine ⟨fields, rfl, fun w hw => ?_, fun w hw => ?_⟩
  · rcases listed_conforms hrole rfl ((hfields "role" _ rfl).2 w hw) with ⟨-, rfl⟩ | ⟨s, hs, rfl⟩
    · exact ⟨none, rfl⟩
    · obtain ⟨r, hr⟩ := Role.exists_decode hs
      refine ⟨some r, ?_⟩
      change (Role.decode _).map some = _
      rw [hr]
      rfl
  · rcases items_conforms ((hfields "ids" _ rfl).2 w hw) with ⟨-, rfl⟩ | ⟨items, rfl, hitems⟩
    · exact ⟨none, rfl⟩
    · obtain ⟨ids, hids⟩ := exists_mapM_ok fun item hitem => uuid_conforms (hitems item hitem)
      refine ⟨some ids, ?_⟩
      change (items.mapM Uuid.decode).map some = _
      rw [hids]
      rfl

theorem UserPath.exists_decode_of_conforms
    (h : Validator.Conforms c encoded ⟨true, false, .object userPathFields⟩ w)
    (hordered : w.Ordered) : ∃ p, UserPath.decode w = .ok p := by
  obtain ⟨fields, rfl, hfields⟩ := object_conforms h
  obtain ⟨hneeded, hconforms⟩ := hfields "id" _ rfl
  obtain ⟨v, hv⟩ := hneeded rfl
  obtain ⟨id, hid⟩ := uuid_conforms (hconforms v hv)
  cases hordered with
  | obj hkeys _ => exact UserPath.exists_decode hv hid hkeys

end Conforming

namespace Query

variable {held : Option Json} {query name : String} {v : Json}

/-- What every text leaves behind holds of all that a query gives. -/
theorem fieldsOf_induction {P : Json → Prop}
    (hslot : ∀ (held : Option Json) (r : Routed), (∀ v ∈ held, P v) → P (slot held r))
    (h : Table.get? name (fieldsOf query) = some v) : P v := by
  have hfold : ∀ (given : List Routed) (held : Option Json), (∀ v ∈ held, P v) →
      ∀ v ∈ given.foldl fill held, P v := by
    intro given
    induction given with
    | nil => exact fun _ hheld => hheld
    | cons r rest ih =>
      intro held hheld
      refine ih (fill held r) fun w hw => ?_
      cases hw
      exact hslot held r hheld
  rw [get?_fieldsOf] at h
  exact hfold _ none nofun v h

theorem gather_ordered (text : String) (h : ∀ v ∈ held, v.Ordered) : (gather text held).Ordered := by
  unfold gather
  split
  · exact .str text
  · cases h _ rfl with
    | arr hitems =>
      refine .arr fun item hitem => ?_
      rcases List.mem_append.mp hitem with hitem | hitem
      · exact hitems item hitem
      · cases List.mem_singleton.mp hitem
        exact .str text
  · refine .arr ?_
    simp only [List.forall_mem_cons]
    exact ⟨h _ rfl, .str text, nofun⟩

theorem slot_ordered (r : Routed) (h : ∀ v ∈ held, v.Ordered) : (slot held r).Ordered := by
  obtain ⟨route, text⟩ := r
  induction route using route_induction generalizing held with
  | ended => exact gather_ordered text h
  | listed =>
    refine gather_ordered text fun v hv => ?_
    cases hv
    cases held with
    | none => exact .arr nofun
    | some w => exact h w rfl
  | led c name segments ih =>
    have hnested : Table.Ordered (nested held) ∧ ∀ entry ∈ nested held, entry.2.Ordered := by
      cases held with
      | none => exact ⟨List.Pairwise.nil, nofun⟩
      | some v =>
        cases h v rfl with
        | obj hkeys hvalues => exact ⟨hkeys, hvalues⟩
        | _ => exact ⟨List.Pairwise.nil, nofun⟩
    rw [slot_named _ _ _ _ (List.cons_ne_nil c name)]
    refine .obj (hnested.1.insert _ _) fun entry hentry => ?_
    rcases Table.mem_insert hentry with rfl | hentry
    · exact ih fun v hv => hnested.2 _ (Table.mem_of_get? hv)
    · exact hnested.2 entry hentry

/-- The object of a query is in order. -/
theorem read_ordered (query : String) : (read query).Ordered := by
  rw [read_eq]
  refine .obj (fieldsOf_ordered query) fun entry hentry => ?_
  exact fieldsOf_induction (fun held r => slot_ordered r)
    ((fieldsOf_ordered query).get?_of_mem hentry)

end Query

/-- The value is an object that gives a float under a name. -/
def Json.GivesFloat (name : String) (v : Json) : Prop :=
  ∃ fields x, v = .obj fields ∧ Table.get? name fields = some (.num (.float x))

/-- No query gives a float, since all that it gives are texts. -/
theorem Query.not_givesFloat (query name : String) : ¬ (read query).GivesFloat name := by
  rintro ⟨fields, x, hread, hget⟩
  rw [read_eq] at hread
  cases hread
  have hgathered := fieldsOf_induction (P := Gathered)
    (fun held r hheld => slot_gathered r.2 r.1 hheld) hget
  cases hgathered

namespace Session

open Description

variable {s : Session} {name : TypeName} {validator : Validator} {c : Cache} {channel : Channel}
  {v w : Json}

/-- The session accepts the value. -/
def Accepts (s : Session) (name : TypeName) (channel : Channel) (v : Json) : Prop :=
  ∃ w, (s.validate v (.named name) channel).1 = .accepted w

/-- What is handed on of an accepted value conforms to the type and is in order. -/
theorem IsDescribed.outcome_of_accepted (hs : s.IsDescribed) (hcompiles : Compiles name validator c)
    (hv : v.Ordered) (h : (s.validate v (.named name) channel).1 = .accepted w) :
    ∃ o, c.outcome? validator channel.stringEncoded v = some o ∧ o.accepted = true ∧
      o.output = some w ∧ w.Ordered ∧ validator.Conforms c channel.stringEncoded w := by
  rw [hs.verdict hcompiles, Verdict.ofOutcome_eq_accepted_iff] at h
  obtain ⟨o, ho, haccepted, rfl⟩ := h
  obtain ⟨w, hw, hconforms⟩ := hcompiles.conforms ho haccepted
  refine ⟨o, ho, haccepted, ?_⟩
  rw [hw]
  exact ⟨rfl, Cache.outcome_ordered hv ho w hw, hconforms⟩

end Session

/-- An accepted object keeps a whole number that may be left out as it was given, or reads it. -/
theorem Description.fitsInteger_of_object {c : Cache} {encoded : Bool} {v : Json} {o : Outcome}
    {fields : List (String × Validator)} (key : String) (low high : Nat) (hlow : low < 2 ^ 53)
    (hhigh : high < 2 ^ 53)
    (hfield : Table.get? key (Table.ofList fields) =
      some (optionalInteger (some (.ofInt low)) (some (.ofInt high))))
    (h : c.outcome? ⟨true, false, .object fields⟩ encoded v = some o) (haccepted : o.accepted = true) :
    ∃ given output, v = .obj given ∧ o.output = some (.obj output) ∧
      FitsInteger (Table.get? key given) (Table.get? key output) := by
  obtain ⟨v, hv, -, hcheck⟩ := Validator.apply_required h haccepted
  cases hv
  obtain ⟨given, output, rfl, houtput, hkeys⟩ := Rule.object_accepted hcheck haccepted
  obtain ⟨o, happly, haccepted, hkept⟩ := hkeys key _ hfield
  exact ⟨given, output, rfl, houtput,
    hkept ▸ fitsInteger_of_accepted hlow hhigh happly haccepted⟩

namespace Session

open Description

variable {s : Session} {v w : Json}

/-- What is accepted as a new user is read as one, if the age is not a float. -/
theorem IsDescribed.exists_newUser_iff (hs : s.IsDescribed) (hv : v.Ordered)
    (h : (s.validate v (.named newUserName) .body).1 = .accepted w) :
    (∃ u, NewUser.decode w = .ok u) ↔ ¬ v.GivesFloat "age" := by
  obtain ⟨c, hcompiles, hrole⟩ := exists_compiles alone_types.1
  obtain ⟨o, ho, haccepted, houtput, hordered, hconforms⟩ := hs.outcome_of_accepted hcompiles hv h
  obtain ⟨given, output, rfl, hkept, hage⟩ := fitsInteger_of_object "age" 0 150 (by decide)
    (by decide) rfl ho haccepted
  cases houtput.symm.trans hkept
  obtain ⟨fields, heq, htyped⟩ := NewUser.typed_of_conforms hrole hconforms
  cases heq
  cases hordered with
  | obj hkeys _ =>
    constructor
    · rintro ⟨u, hread⟩ ⟨fields, x, heq, hfloat⟩
      cases heq
      exact NewUser.decode_ne_ok_of_float ((hage.float x).mpr hfloat) hread
    · intro hnone
      refine htyped.exists_decode hkeys fun w hw => hage.reads w hw ?_
      rintro x rfl
      exact hnone ⟨given, x, rfl, (hage.float x).mp hw⟩

/-- What is accepted as a query for users is read as one, if the limit is not a float. -/
theorem IsDescribed.exists_userQuery_iff (hs : s.IsDescribed) (hv : v.Ordered)
    (h : (s.validate v (.named userQueryName) .query).1 = .accepted w) :
    (∃ q, UserQuery.decode w = .ok q) ↔ ¬ v.GivesFloat "limit" := by
  obtain ⟨c, hcompiles, hrole⟩ := exists_compiles alone_userQuery
  obtain ⟨o, ho, haccepted, houtput, hordered, hconforms⟩ := hs.outcome_of_accepted hcompiles hv h
  obtain ⟨given, output, rfl, hkept, hlimit⟩ := fitsInteger_of_object "limit" 1 100
    (by decide) (by decide) rfl ho haccepted
  cases houtput.symm.trans hkept
  obtain ⟨fields, heq, htyped⟩ := UserQuery.typed_of_conforms hrole hconforms
  cases heq
  cases hordered with
  | obj hkeys _ =>
    constructor
    · rintro ⟨q, hread⟩ ⟨fields, x, heq, hfloat⟩
      cases heq
      exact UserQuery.decode_ne_ok_of_float ((hlimit.float x).mpr hfloat) hread
    · intro hnone
      refine htyped.exists_decode hkeys fun w hw => hlimit.reads w hw ?_
      rintro x rfl
      exact hnone ⟨given, x, rfl, (hlimit.float x).mp hw⟩

theorem IsDescribed.exists_userPath (hs : s.IsDescribed) (hv : v.Ordered)
    (h : (s.validate v (.named userPathName) .path).1 = .accepted w) :
    ∃ p, UserPath.decode w = .ok p := by
  obtain ⟨c, hcompiles, -⟩ := exists_compiles alone_types.2.2.1
  obtain ⟨o, -, -, -, hordered, hconforms⟩ := hs.outcome_of_accepted hcompiles hv h
  exact UserPath.exists_decode_of_conforms hconforms hordered

end Session

namespace Gate

open Description

variable {α : Type} {g : Gate Session} {s : Session} {decode : Json → Decode.Result α}
  {name : TypeName} {channel : Channel}

/-- Of the values that are accepted as a type, those that fit are received, and no others. -/
def ReceivesFitting (g : Gate Session) (s : Session) (name : TypeName) (channel : Channel)
    (decode : Json → Decode.Result α) (fits : Json → Prop) : Prop :=
  ∀ v : Json, v.Ordered → s.Accepts name channel v →
    ((∃ a, (g.receive name.text decode v channel).1 = some (.ok a)) ↔ fits v) ∧
    ((∃ message, (g.receive name.text decode v channel).1 = some (.error (.badRequest message))) ↔
      ¬ fits v)

theorem receivesFitting_of_reads {fits : Json → Prop} (hready : g.slot = some s)
    (h : ∀ v w : Json, v.Ordered → (s.validate v (.named name) channel).1 = .accepted w →
      ((∃ a, decode w = .ok a) ↔ fits v)) : g.ReceivesFitting s name channel decode fits := by
  rintro v hv ⟨w, haccepted⟩
  rw [receive_accepted name hready haccepted, ← h v w hv haccepted]
  simp only [Option.some.injEq]
  unfold Session.readAs
  cases decode w with
  | ok a => exact ⟨⟨fun _ => ⟨a, rfl⟩, fun _ => ⟨a, rfl⟩⟩, nofun, fun hnone => absurd ⟨a, rfl⟩ hnone⟩
  | error e => exact ⟨⟨nofun, nofun⟩, fun _ => nofun, fun _ => ⟨_, rfl⟩⟩

/--
The handlers about users receive what has been accepted for them, except for a new user whose age
and a query whose limit is a number written as a float: these are turned down after all. A query
string writes no numbers, so the object of a query string is received whenever it is accepted.
-/
theorem accepted_received_iff (hready : g.slot = some s) (hs : s.IsDescribed) :
    g.ReceivesFitting s newUserName .body NewUser.decode (fun v => ¬ v.GivesFloat "age") ∧
    g.ReceivesFitting s userQueryName .query UserQuery.decode (fun v => ¬ v.GivesFloat "limit") ∧
    g.ReceivesFitting s userPathName .path UserPath.decode (fun _ => True) ∧
    ∀ query, s.Accepts userQueryName .query (Query.read query) →
      ∃ q, (g.receive userQueryName.text UserQuery.decode (Query.read query) .query).1 =
        some (.ok q) := by
  have hqueries : g.ReceivesFitting s userQueryName .query UserQuery.decode
      (fun v => ¬ v.GivesFloat "limit") :=
    receivesFitting_of_reads hready fun v w hv h => hs.exists_userQuery_iff hv h
  refine ⟨receivesFitting_of_reads hready fun v w hv h => hs.exists_newUser_iff hv h, hqueries,
    receivesFitting_of_reads hready fun v w hv h => ?_, fun query haccepted => ?_⟩
  · exact iff_of_true (hs.exists_userPath hv h) trivial
  · exact (hqueries _ (Query.read_ordered query) haccepted).1.mpr (Query.not_givesFloat query _)

section Example

/-- The start of the application. -/
def newSession : Session := .ofStore store

theorem isDescribed_newSession : newSession.IsDescribed := .refl _

/-- A new user with a number for the age. -/
def aged (age : Number) : Json :=
  .obj [("age", .num age), ("email", .str "ann@example.org"), ("name", .str "Ann")]

theorem aged_ordered (age : Number) : (aged age).Ordered := by
  refine .obj ?_ ?_
  · change List.Pairwise (· < ·) ["age", "email", "name"]
    decide
  · simp only [List.forall_mem_cons]
    exact ⟨.num age, .str _, .str _, nofun⟩

theorem aged_accepted : newSession.Accepts newUserName .body (aged (.int 5)) ∧
    newSession.Accepts newUserName .body (aged (.float (.ofInt 5))) := by
  have hboth : (newSession.validate (aged (.int 5)) (.named newUserName) .body).1.value?.isSome ∧
      (newSession.validate (aged (.float (.ofInt 5))) (.named newUserName) .body).1.value?.isSome := by
    decide +kernel
  obtain ⟨v, hv⟩ := Option.isSome_iff_exists.mp hboth.1
  obtain ⟨w, hw⟩ := Option.isSome_iff_exists.mp hboth.2
  exact ⟨⟨v, Verdict.eq_accepted hv⟩, w, Verdict.eq_accepted hw⟩

/-- An age of 5.0 is accepted and turned down. -/
theorem float_age_turned_down :
    newSession.Accepts newUserName .body (aged (.float (.ofInt 5))) ∧
    ∃ message, ((Gate.ready newSession).receive newUserName.text NewUser.decode
      (aged (.float (.ofInt 5))) .body).1 = some (.error (.badRequest message)) := by
  have haccepted := aged_accepted.2
  have hreceives : (Gate.ready newSession).ReceivesFitting newSession newUserName .body
      NewUser.decode (fun v => ¬ v.GivesFloat "age") :=
    receivesFitting_of_reads rfl fun v w hv h => isDescribed_newSession.exists_newUser_iff hv h
  refine ⟨haccepted, (hreceives _ (aged_ordered _) haccepted).2.mpr (not_not.mpr ?_)⟩
  exact ⟨_, _, rfl, rfl⟩

/-- An age of 5 is received. -/
theorem integer_age_received : (Gate.ready newSession).slot = some newSession ∧
    newSession.IsDescribed ∧ newSession.Accepts newUserName .body (aged (.int 5)) ∧
    ∃ u, ((Gate.ready newSession).receive newUserName.text NewUser.decode (aged (.int 5)) .body).1 =
      some (.ok u) := by
  have haccepted := aged_accepted.1
  refine ⟨rfl, isDescribed_newSession, haccepted, ?_⟩
  have hreceives := (accepted_received_iff (g := .ready newSession) rfl isDescribed_newSession).1
  refine (hreceives _ (aged_ordered _) haccepted).1.mpr ?_
  rintro ⟨fields, x, heq, hfloat⟩
  cases heq
  cases hfloat

end Example

end Gate

end Conform
