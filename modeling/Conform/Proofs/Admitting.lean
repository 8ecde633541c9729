import Conform.Proofs.BuiltIn
import Conform.Proofs.Checking
import Conform.Proofs.Extent
import Conform.Proofs.Needing
import Conform.Proofs.Ordered

/-!
# New users that are admitted

What the fields of a new user are like once its value has been accepted and
read: a short name, an age that counts whole years, a date that exists, and no
more text in the rest than there was in the value.
-/

namespace Conform

section Accepted

variable {c : Cache} {hop : Hop Option} {encoded : Bool} {hops : Nat} {path : FieldPath}
  {v w : Json} {o : Outcome} {rule : Rule} {found : Option Json} {nullable : Bool}

/-- What is required and not null is there, and the rule accepts it. -/
theorem Validator.apply_required (h : Validator.apply hop encoded ⟨true, false, rule⟩ path found = some o)
    (haccepted : o.accepted = true) :
    ∃ v, found = some v ∧ v.Counts encoded ∧ rule.check hop encoded path v = some o := by
  rcases Validator.apply_cases h with hpresent | ⟨-, hnull, -⟩ | ⟨-, shown, -, rfl⟩
  · exact hpresent
  · cases hnull
  · cases haccepted

/-- What is kept of an optional value is null, or the rule accepts the value. -/
theorem Validator.apply_optional
    (h : Validator.apply hop encoded ⟨false, nullable, rule⟩ path found = some o)
    (houtput : o.output = some w) :
    (found = some .null ∧ nullable = true ∧ w = .null) ∨
    ∃ v, found = some v ∧ v.Counts encoded ∧ rule.check hop encoded path v = some o := by
  rcases Validator.apply_cases h with hpresent | ⟨hfound, hnull, rfl⟩ | ⟨-, shown, -, rfl⟩
  · exact Or.inr hpresent
  · cases houtput
    exact Or.inl ⟨hfound, hnull, rfl⟩
  · cases houtput

/-- An accepted object has every declared field accepted. -/
theorem Rule.object_accepted {fields : List (String × Validator)}
    (h : (Rule.object fields).check hop encoded path v = some o) (haccepted : o.accepted = true) :
    ∃ given output, v = .obj given ∧ o.output = some (.obj output) ∧
      ∀ key field, Table.get? key (Table.ofList fields) = some field → ∃ o,
        field.apply hop encoded (path.push (.key key)) (Table.get? key given) = some o ∧
          o.accepted = true ∧ Table.get? key output = o.output := by
  rcases Rule.check_object_cases h with ⟨given, output, outcomes, rfl, rfl, -, hkeys⟩ | rfl
  · refine ⟨given, output, rfl, rfl, fun key field hfield => ?_⟩
    obtain ⟨o, hmem, happly, hkept⟩ := (hkeys key).2 field hfield
    exact ⟨o, happly, Outcome.all_accepted_iff.mp haccepted o hmem, hkept⟩
  · cases haccepted

/-- An accepted text is what the format has made of the value, and meets the rule. -/
theorem StringRule.check_accepted {r : StringRule} (h : (r.check path v).accepted = true) :
    ∃ text, Coerce.formatted r.format v = .ok text ∧ (r.check path v).output = some (.str text) ∧
      r.Meets text := by
  unfold check at h ⊢
  cases hcoerced : Coerce.formatted r.format v with
  | error reason =>
    rw [hcoerced] at h
    cases h
  | ok text =>
    rw [hcoerced] at h
    have hbroken : r.broken path v text = [] := List.isEmpty_iff.mp h
    obtain ⟨hlong, hshort, hpattern⟩ := r.broken_eq_nil_iff.mp hbroken
    refine ⟨text, rfl, ?_, Coerce.formatted_writes hcoerced, hlong, hshort, hpattern⟩
    dsimp only
    rw [hbroken]
    rfl

/-- A type that lists texts hands on the text it accepts. -/
theorem Cache.hop_listed {name : TypeName} {target : Validator} {values : List String}
    (hget : c.get? name = some target) (hrule : target.rule = .enum values)
    (h : c.hop encoded hops name path v = some o) (haccepted : o.accepted = true) :
    o.output = some v ∧ ∃ s ∈ values, v = .str s := by
  cases hops with
  | zero => cases h
  | succ hops =>
    rcases Cache.hop_cases h with rfl | ⟨found, hfound, hcheck⟩
    · cases haccepted
    · cases hget.symm.trans hfound
      rw [hrule] at hcheck
      cases hcheck
      unfold Check.enum at haccepted ⊢
      split at haccepted
      · next s =>
        split at haccepted
        · next hmem =>
          rw [if_pos hmem]
          exact ⟨rfl, s, List.contains_iff_mem.mp hmem, rfl⟩
        · cases haccepted
      · cases haccepted

/-- So does an array of them. -/
theorem Rule.listed_array {name : TypeName} {target : Validator} {values : List String}
    {low high : Option Nat} (hget : c.get? name = some target) (hrule : target.rule = .enum values)
    (hv : v ≠ .null)
    (h : (Rule.array ⟨true, false, .named name⟩ low high).check (c.hop false hops) false path v =
      some o) (haccepted : o.accepted = true) :
    o.output = some v ∧ ∃ items, v = .arr items ∧ ∀ item ∈ items, ∃ s ∈ values, item = .str s := by
  have hkept : ∀ (entries : List (Json × Nat)) (outcomes : List Outcome),
      List.Forall₂ (fun entry o => Validator.apply (c.hop false hops) false
        ⟨true, false, .named name⟩ (path.push (.index entry.2)) (some entry.1) = some o)
        entries outcomes →
      outcomes.flatMap Outcome.issues = [] →
      outcomes.map (fun o => Json.orNull o.output) = entries.map Prod.fst ∧
        ∀ item ∈ entries.map Prod.fst, ∃ s ∈ values, item = .str s := by
    intro entries outcomes houtcomes
    induction houtcomes with
    | nil => exact fun _ => ⟨rfl, nofun⟩
    | @cons entry o entries outcomes happly _ ih =>
      intro hnone
      obtain ⟨hfirst, hrest⟩ := List.append_eq_nil_iff.mp hnone
      have haccepted := List.isEmpty_iff.mpr hfirst
      obtain ⟨item, hitem, -, hcheck⟩ := Validator.apply_required happly haccepted
      cases hitem
      rw [Rule.check] at hcheck
      obtain ⟨houtput, hlisted⟩ := Cache.hop_listed hget hrule hcheck haccepted
      obtain ⟨houtputs, hall⟩ := ih hrest
      refine ⟨?_, List.forall_mem_cons.mpr ⟨hlisted, hall⟩⟩
      rw [List.map_cons, List.map_cons, houtput, houtputs]
      rfl
  rcases Rule.check_array_cases h with ⟨items, outcomes, hitems, houtcomes, rfl⟩ | rfl
  · obtain rfl | ⟨hfalse, -⟩ := Check.items?_cases hv hitems
    · have hclean := (List.append_eq_nil_iff.mp (List.isEmpty_iff.mp haccepted)).2
      obtain ⟨houtputs, hall⟩ := hkept items.zipIdx outcomes houtcomes hclean
      rw [List.zipIdx_map_fst] at houtputs hall
      refine ⟨?_, items, rfl, hall⟩
      rw [Check.gather, houtputs]
    · cases hfalse
  · cases haccepted

end Accepted

namespace Double

theorem nearestBits_pos {n : Nat} (hn : n ≠ 0) : 0 < nearestBits n 1 := by
  unfold nearestBits
  rw [if_neg hn, quotientLog_one hn]
  dsimp only
  rw [twoTo_eq]
  omega

/-- A negative integer is below zero as a double as well. -/
theorem lt_zero_of_neg {i : Int} (h : i < 0) : (ofInt i).lt (ofInt 0) = true := by
  have hzero : (ofInt 0).rank = 0 := by decide +kernel
  have hbits := nearestBits_pos (Int.natAbs_ne_zero.mpr (Int.ne_of_lt h))
  rw [lt_iff, hzero]
  unfold ofInt ofQuotient?
  dsimp only
  rw [decide_eq_true h]
  split
  · unfold rank
    rw [Option.getD_some]
    dsimp only
    rw [if_pos rfl]
    omega
  · decide

end Double

namespace NewUser

open Description

/-- What is known of an accepted object that describes a new user, and of the object it was. -/
structure Accepted (given output : List (String × Json)) : Prop where
  name : ∀ s, Table.get? "name" output = some (.str s) → s.length ≤ 64
  email : ∀ s, Table.get? "email" output = some (.str s) →
    Table.get? "email" given = some (.str s)
  age : ∀ i, Table.get? "age" output = some (.num (.int i)) →
    0 ≤ i ∧ (Double.ofInt i).isWhole = true
  roles : ∀ w, Table.get? "roles" output = some w → Table.get? "roles" given = some w ∧
    ∃ items, w = .arr items ∧ ∀ item ∈ items, ∃ s ∈ Role.all.map Role.name, item = .str s

variable {c : Cache} {v w : Json} {o : Outcome} {path : FieldPath} {found : Option Json}

theorem email_accepted {hop : Hop Option} {text : String}
    (h : Validator.apply hop false
      ⟨true, false, .string ⟨none, none, none, some (addressSource, addressPattern)⟩⟩ path found =
      some o) (haccepted : o.accepted = true) (houtput : o.output = some (.str text)) :
    found = some (.str text) := by
  obtain ⟨v, rfl, -, hcheck⟩ := Validator.apply_required h haccepted
  rw [Rule.check] at hcheck
  cases hcheck
  obtain ⟨other, htext, hkept, hmeets⟩ := StringRule.check_accepted haccepted
  cases hkept.symm.trans houtput
  have hneeds : addressPattern.needs '@' = true := by decide +kernel
  have hat := Pattern.Expr.mem_of_isIn hneeds (hmeets.pattern _ rfl)
  cases v with
  | str s =>
    cases htext
    rfl
  | num n =>
    cases htext
    cases Number.isNumeric_text hat
  | bool b =>
    cases htext
    cases b <;> revert hat <;> decide
  | _ => cases htext

theorem exists_accepted (hrole : c.get? roleName = some roleValidator)
    (h : c.outcome? ⟨true, false, .object newUserFields⟩ false v = some o)
    (haccepted : o.accepted = true) :
    ∃ given output, v = .obj given ∧ o.output = some (.obj output) ∧ Accepted given output := by
  obtain ⟨v, hv, -, hcheck⟩ := Validator.apply_required h haccepted
  cases hv
  obtain ⟨given, output, rfl, houtput, hkeys⟩ := Rule.object_accepted hcheck haccepted
  refine ⟨given, output, rfl, houtput, ?_, ?_, ?_, ?_⟩
  · intro s hs
    obtain ⟨o, happly, haccepted, hkept⟩ := hkeys "name" _ rfl
    obtain ⟨v, -, -, hcheck⟩ := Validator.apply_required happly haccepted
    rw [Rule.check] at hcheck
    cases hcheck
    obtain ⟨text, -, htext, hmeets⟩ := StringRule.check_accepted haccepted
    cases hs.symm.trans (hkept.trans htext)
    exact hmeets.short 64 rfl
  · intro s hs
    obtain ⟨o, happly, haccepted, hkept⟩ := hkeys "email" _ rfl
    exact email_accepted happly haccepted (hkept.symm.trans hs)
  · intro i hi
    obtain ⟨o, happly, haccepted, hkept⟩ := hkeys "age" _ rfl
    rcases Validator.apply_optional happly (hkept.symm.trans hi) with ⟨-, -, hnull⟩ | ⟨v, -, -, hcheck⟩
    · cases hnull
    · rw [Rule.check] at hcheck
      cases hcheck
      obtain ⟨w, hw, n, rfl, hmeets⟩ := NumberRule.check_yields _ haccepted
      cases hi.symm.trans (hkept.trans hw)
      refine ⟨?_, hmeets.whole rfl⟩
      by_contra hneg
      have hlow := hmeets.low _ rfl
      have hbelow := Double.lt_zero_of_neg (Int.not_le.mp hneg)
      exact absurd (hbelow.symm.trans hlow) (by decide)
  · intro w hw
    obtain ⟨o, happly, haccepted, hkept⟩ := hkeys "roles" _ rfl
    rcases Validator.apply_optional happly (hkept.symm.trans hw) with
      ⟨-, hnull, -⟩ | ⟨v, hfound, hcounts, hcheck⟩
    · cases hnull
    · obtain ⟨hsame, hlisted⟩ :=
        Rule.listed_array hrole rfl hcounts.notNull hcheck haccepted
      cases hw.symm.trans (hkept.trans hsame)
      exact ⟨hfound, hlisted⟩

/-- Every field that is set comes from an entry. -/
structure Draft.Comes (fields : List (String × Json)) (d : Draft) : Prop where
  name : ∀ s, d.name = some s → ("name", .str s) ∈ fields
  email : ∀ s, d.email = some s → ("email", .str s) ∈ fields
  age : ∀ i, d.age = some (some i) → ("age", .num (.int i)) ∈ fields ∧ i < twoTo 63
  roles : ∀ rs, d.roles = some rs →
    ∃ items, ("roles", .arr items) ∈ fields ∧ items.mapM Role.decode = .ok rs
  bornOn : ∀ date, d.bornOn = some (some date) → date.Exists

theorem text_of_decode {s : String} (h : Decode.text v = .ok s) : v = .str s := by
  unfold Decode.text at h
  split at h
  · cases h
    rfl
  · cases h

theorem integer_of_decode {i : Int} (h : Decode.optional Decode.signed v = .ok (some i)) :
    v = .num (.int i) ∧ i < twoTo 63 := by
  unfold Decode.optional at h
  split at h
  · cases h
  · unfold Decode.signed at h
    split at h
    · split at h
      · next hlt =>
        cases h
        exact ⟨rfl, hlt⟩
      · cases h
    · cases h

theorem items_of_decode {rs : List Role} (h : Decode.list Role.decode v = .ok rs) :
    ∃ items, v = .arr items ∧ items.mapM Role.decode = .ok rs := by
  unfold Decode.list at h
  split at h
  · next items => exact ⟨items, rfl, h⟩
  · cases h

theorem exists_of_ofField {cs : List Char} {date : CalendarDate}
    (h : CalendarDate.ofField cs = .ok date) : date.Exists := by
  unfold CalendarDate.ofField at h
  obtain ⟨⟨year, _⟩, -, h⟩ := exists_ok_of_bind h
  obtain ⟨_, -, h⟩ := exists_ok_of_bind h
  obtain ⟨⟨month, _⟩, -, h⟩ := exists_ok_of_bind h
  obtain ⟨_, -, h⟩ := exists_ok_of_bind h
  obtain ⟨⟨day, _⟩, -, h⟩ := exists_ok_of_bind h
  dsimp only at h
  split at h
  · cases h
  · split at h
    · next found hfound =>
      cases h
      exact CalendarDate.exists_of_of? hfound
    · cases h

theorem date_of_decode {date : CalendarDate}
    (h : Decode.optional CalendarDate.decode v = .ok (some date)) : date.Exists := by
  unfold Decode.optional at h
  split at h
  · cases h
  · unfold CalendarDate.decode at h
    split at h
    · split at h
      · next found hfound =>
        cases h
        exact exists_of_ofField hfound
      · cases h
    · cases h

theorem comes_start {fields : List (String × Json)} : Draft.Comes fields {} where
  name _ h := by cases h
  email _ h := by cases h
  age _ h := by cases h
  roles _ h := by cases h
  bornOn _ h := by cases h

theorem Draft.set_comes {fields : List (String × Json)} {d next : Draft} {key : String}
    (hd : d.Comes fields) (hmem : (key, v) ∈ fields) (h : d.set key v = .ok next) :
    next.Comes fields := by
  unfold Draft.set at h
  split at h
  · obtain ⟨s, hs, h⟩ := exists_ok_of_bind h
    cases h
    cases text_of_decode hs
    exact { hd with name := fun t ht => by cases ht; exact hmem }
  · obtain ⟨s, hs, h⟩ := exists_ok_of_bind h
    cases h
    cases text_of_decode hs
    exact { hd with email := fun t ht => by cases ht; exact hmem }
  · obtain ⟨age, hage, h⟩ := exists_ok_of_bind h
    cases h
    refine { hd with age := fun i hi => ?_ }
    cases hi
    obtain ⟨rfl, hlt⟩ := integer_of_decode hage
    exact ⟨hmem, hlt⟩
  · obtain ⟨rs, hroles, h⟩ := exists_ok_of_bind h
    cases h
    refine { hd with roles := fun given hgiven => ?_ }
    cases hgiven
    obtain ⟨items, rfl, hitems⟩ := items_of_decode hroles
    exact ⟨items, hmem, hitems⟩
  · obtain ⟨date, hdate, h⟩ := exists_ok_of_bind h
    cases h
    refine { hd with bornOn := fun found hfound => ?_ }
    cases hfound
    exact date_of_decode hdate
  · cases h
    exact hd

/-- A new user that is read from an object is made of a draft whose fields come from its entries. -/
theorem exists_draft {fields : List (String × Json)} {u : NewUser}
    (h : NewUser.decode (.obj fields) = .ok u) :
    ∃ d : Draft, d.Comes fields ∧ d.finish .named = .ok u := by
  obtain ⟨⟨entries, written⟩, hentries, h⟩ := exists_ok_of_bind h
  cases hentries
  obtain ⟨d, hdraft, h⟩ := exists_ok_of_bind h
  obtain ⟨u', hfinish, h⟩ := exists_ok_of_bind h
  obtain ⟨_, -, h⟩ := exists_ok_of_bind h
  cases h
  refine ⟨d, ?_, hfinish⟩
  exact foldlM_preserves (P := Draft.Comes fields) (Q := (· ∈ fields))
    (fun d entry next hd hentry hset => Draft.set_comes hd hentry hset)
    comes_start (fun entry hentry => List.mem_of_mem_filter hentry) hdraft

theorem role_of_decode {s : String} {r : Role} (h : Role.decode (.str s) = .ok r) : r.name = s := by
  change Decode.variant.find _ s = .ok r at h
  unfold Decode.variant.find at h
  split at h
  · next found hfound =>
    cases h
    obtain ⟨other, -, hother⟩ := List.mem_map.mp (Table.mem_of_get? hfound)
    cases hother
    rfl
  · cases h

/-- Roles that are read from texts have these texts for names. -/
theorem weight_of_roles {items : List Json} {rs : List Role}
    (hitems : ∀ item ∈ items, ∃ s ∈ Role.all.map Role.name, item = .str s)
    (h : items.mapM Role.decode = .ok rs) :
    (rs.map fun r => r.name.length).sum = Json.weightItems items := by
  induction items generalizing rs with
  | nil =>
    cases h
    rfl
  | cons item rest ih =>
    obtain ⟨⟨s, -, rfl⟩, hrest⟩ := List.forall_mem_cons.mp hitems
    rw [List.mapM_cons] at h
    obtain ⟨r, hr, h⟩ := exists_ok_of_bind h
    obtain ⟨more, hmore, h⟩ := exists_ok_of_bind h
    cases h
    rw [List.map_cons, List.sum_cons, ih hrest hmore, role_of_decode hr, Json.weightItems,
      Json.weight]

/-- What finishing a draft takes from it. -/
theorem Draft.finish_named {d : Draft} {u : NewUser} (h : d.finish .named = .ok u) :
    d.name = some u.name ∧ d.email = some u.email ∧ (∀ i ∈ u.age, d.age = some (some i)) ∧
      u.roles = d.roles.getD [] ∧ ∀ date ∈ u.bornOn, d.bornOn = some (some date) := by
  have hneeded : ∀ {α : Type} {name : String} {found : Option α} {a : α},
      layout.require name .named found = .ok a → found = some a := by
    intro α name found a h
    cases found with
    | none => cases h
    | some b =>
      cases h
      rfl
  have hleft : ∀ {α : Type} {name : String} {found : Option (Option α)} {a : Option α},
      layout.perhaps name .named found = .ok a → ∀ b ∈ a, found = some (some b) := by
    intro α name found a h b hb
    cases hb
    cases found with
    | none => cases h
    | some b =>
      cases h
      rfl
  unfold Draft.finish at h
  obtain ⟨name, hname, h⟩ := exists_ok_of_bind h
  obtain ⟨email, hemail, h⟩ := exists_ok_of_bind h
  obtain ⟨age, hage, h⟩ := exists_ok_of_bind h
  obtain ⟨bornOn, hbornOn, h⟩ := exists_ok_of_bind h
  cases h
  exact ⟨hneeded hname, hneeded hemail, hleft hage, rfl, hleft hbornOn⟩

/-- A new user whose fields are as they were validated, in no more text than a request may have. -/
structure Admitted (u : NewUser) : Prop where
  name : u.name.length ≤ 64
  age : ∀ i ∈ u.age, Number.InRange i ∧ (Double.ofInt i).isWhole = true
  bornOn : ∀ date ∈ u.bornOn, date.Exists
  short : u.email.length + (u.roles.map fun r => r.name.length).sum ≤ Http.Request.bodyLimit

theorem Accepted.admitted {given output : List (String × Json)} {u : NewUser}
    (haccepted : Accepted given output) (hordered : Table.Ordered output)
    (hshort : Json.weightFields given ≤ Http.Request.bodyLimit)
    (h : NewUser.decode (.obj output) = .ok u) : u.Admitted := by
  obtain ⟨d, hd, hfinish⟩ := exists_draft h
  obtain ⟨hname, hemail, hage, hroles, hbornOn⟩ := d.finish_named hfinish
  have hgiven := haccepted.email u.email (hordered.get?_of_mem (hd.email _ hemail))
  refine ⟨haccepted.name _ (hordered.get?_of_mem (hd.name _ hname)), ?_,
    fun date hdate => hd.bornOn date (hbornOn date hdate), ?_⟩
  · intro i hi
    obtain ⟨hmem, hlt⟩ := hd.age i (hage i hi)
    obtain ⟨hlow, hwhole⟩ := haccepted.age i (hordered.get?_of_mem hmem)
    refine ⟨⟨?_, ?_⟩, hwhole⟩
    · exact Int.le_trans (by decide) hlow
    · exact Int.lt_trans hlt (by decide)
  · cases hset : d.roles with
    | none =>
      rw [hroles, hset]
      exact Nat.le_trans (Json.weight_le_of_get? hgiven) hshort
    | some rs =>
      obtain ⟨items, hmem, hitems⟩ := hd.roles rs hset
      obtain ⟨hsame, _, heq, hlisted⟩ := haccepted.roles _ (hordered.get?_of_mem hmem)
      cases heq
      have hboth := Json.weight_add_le_of_get? (by decide) hgiven hsame
      rw [hroles, hset, Option.getD_some, weight_of_roles hlisted hitems]
      exact Nat.le_trans hboth hshort

end NewUser

/-- A new user that a session of the description accepts is admitted. -/
theorem Session.IsDescribed.admitted {s : Session} {v w : Json} {u : NewUser} (hs : s.IsDescribed)
    (hordered : v.Ordered) (hshort : v.weight ≤ Http.Request.bodyLimit)
    (haccepted : (s.validate v (.named Description.newUserName) .body).1 = .accepted w)
    (h : NewUser.decode w = .ok u) : u.Admitted := by
  obtain ⟨c, hcompiles, hrole⟩ := Description.exists_compiles Description.alone_types.1
  rw [hs.verdict hcompiles] at haccepted
  obtain ⟨o, ho, hclean, rfl⟩ := Verdict.ofOutcome_eq_accepted_iff.mp haccepted
  obtain ⟨given, output, rfl, houtput, hfields⟩ := NewUser.exists_accepted hrole ho hclean
  rw [houtput] at h
  have hresult := Cache.outcome_ordered hordered ho _ houtput
  cases hresult with
  | obj hkeys _ => exact hfields.admitted hkeys hshort h

end Conform
