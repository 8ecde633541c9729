import Conform.Proofs.Admitting
import Conform.Proofs.Release
import Conform.Proofs.Resting

/-!
# Users that can be shown

A stored user is a value that its own schema accepts and hands on as it is,
and its text is read back and is not too long, so no answer that shows one is
withheld.
-/

namespace Conform

/-- An object with the declared fields and no others settles where every field does. -/
theorem Rule.settles_record {c : Cache} {encoded : Bool} {fields : List (String × Validator)}
    {given : List (String × Json)} (hordered : Table.Ordered given)
    (h : List.Forall₂ (fun field entry => field.1 = entry.1 ∧
      field.2.Settles c encoded entry.2) fields given) :
    (Rule.object fields).Settles c encoded (.obj given) := by
  refine Rule.settles_object hordered fun field hfield => ?_
  obtain ⟨entry, hentry, hname, hsettles⟩ := exists_of_forall₂ h.flip hfield
  have hget : Table.get? field.1 given = some entry.2 := by
    rw [hname]
    exact hordered.get?_of_mem hentry
  refine ⟨fun hnone => ?_, fun w hw => ?_⟩
  · cases hnone.symm.trans hget
  · cases hw.symm.trans hget
    exact hsettles

namespace User

/-- The fields of a user in the order of their keys. -/
def shown (u : User) : List (String × Json) :=
  [("age", .orNull (u.age.map fun n => .num (.int n))),
    ("born_on", .orNull (u.bornOn.map fun d => .str d.text)),
    ("created_at", .str u.createdAt.text),
    ("email", .str u.email),
    ("id", .str u.id.text),
    ("name", .str u.name),
    ("roles", .arr (u.roles.map Role.toJson))]

theorem shown_ordered (u : User) : Table.Ordered u.shown := by
  change List.Pairwise (· < ·) ["age", "born_on", "created_at", "email", "id", "name", "roles"]
  decide

theorem toJson_eq (u : User) : u.toJson = .obj u.shown :=
  congrArg Json.obj (Table.ofList_of_perm (by unfold shown; grind) u.shown_ordered)

/-- A user whose fields are as its schema has them, and whose text is not too long. -/
structure Showable (u : User) : Prop where
  id : u.id.Proper
  age : ∀ i ∈ u.age, Number.InRange i ∧ (Double.ofInt i).isWhole = true
  bornOn : ∀ date ∈ u.bornOn, date.Exists
  createdAt : u.createdAt.Proper
  firstYear : 0 ≤ u.createdAt.year
  lastYear : u.createdAt.year ≤ 9999
  short : u.toJson.extent ≤ Session.releaseLimit

variable {u : User} {c : Cache}

theorem toJson_depth (u : User) : u.toJson.depth < Json.depthLimit := by
  have hroles : Json.depthItems (u.roles.map Role.toJson) = 0 := by
    refine Nat.le_zero.mp (Json.depthItems_le fun item hitem => ?_)
    obtain ⟨role, -, rfl⟩ := List.mem_map.mp hitem
    exact Nat.le_refl 0
  rw [toJson_eq, shown]
  simp only [Json.depth, Json.depthFields, hroles]
  cases u.age <;> cases u.bornOn <;> simp [Json.orNull, Json.depth, Json.depthLimit]

theorem Showable.plain (h : u.Showable) : u.toJson.Plain := by
  rw [toJson_eq]
  refine .obj u.shown_ordered ?_
  simp only [shown, List.forall_mem_cons]
  refine ⟨?_, ?_, .str _, .str _, .str _, .str _, .arr fun item hitem => ?_, nofun⟩
  · cases hage : u.age with
    | none => exact .null
    | some i => exact .int (h.age i hage).1
  · cases u.bornOn with
    | none => exact .null
    | some date => exact .str _
  · obtain ⟨role, -, rfl⟩ := List.mem_map.mp hitem
    exact .str _

open Description

theorem settles_text {r : StringRule} {text : String} {required nullable : Bool}
    (hmeets : r.Meets text) (hkeeps : Format.Keeps r.format text) :
    Validator.Settles c false ⟨required, nullable, .string r⟩ (.str text) := by
  refine Validator.settles_of_counts (Json.counts_str_iff.mpr nofun) ?_
  exact Rule.settles_of_check fun _ path => congrArg some (StringRule.check_kept hmeets hkeeps path)

/-- Without bounds and pattern a text only has to be of the format. -/
theorem meets_of_writes {format : Option Format} {text : String}
    (h : Format.Writes format text) : StringRule.Meets ⟨format, none, none, none⟩ text :=
  ⟨h, nofun, nofun, nofun⟩

theorem settles_roles (hrole : c.get? roleName = some roleValidator) (rs : List Role) :
    (Description.roles true).Settles c false (.arr (rs.map Role.toJson)) := by
  refine Validator.settles_of_counts (Json.counts_of_kind nofun nofun) ?_
  refine Rule.settles_array nofun nofun fun item hitem => ?_
  obtain ⟨role, -, rfl⟩ := List.mem_map.mp hitem
  refine Validator.settles_of_counts (Json.counts_str_iff.mpr nofun) ?_
  refine Rule.settles_named hrole (Rule.settles_of_check fun _ path => congrArg some ?_)
  refine Check.enum_kept (List.mem_map_of_mem ?_) path
  cases role <;> decide

theorem Showable.settles (h : u.Showable) (hrole : c.get? roleName = some roleValidator) :
    Validator.Settles c false ⟨true, false, .object userFields⟩ u.toJson := by
  have hage : (optionalInteger none none).Settles c false
      (.orNull (u.age.map fun n => .num (.int n))) := by
    cases hage : u.age with
    | none => exact Validator.settles_null
    | some i =>
      refine Validator.settles_of_counts (Json.counts_of_kind nofun nofun) ?_
      refine Rule.settles_of_check fun _ path => congrArg some (NumberRule.check_kept ?_ path)
      exact ⟨fun _ => (h.age i hage).2, nofun, nofun⟩
  have hbornOn : optionalDate.Settles c false (.orNull (u.bornOn.map fun d => .str d.text)) := by
    cases hdate : u.bornOn with
    | none => exact Validator.settles_null
    | some date => exact settles_text (meets_of_writes ⟨date, h.bornOn date hdate, rfl⟩) trivial
  have hcreated : (anyText (some .dateTime)).Settles c false (.str u.createdAt.text) :=
    settles_text (meets_of_writes ⟨u.createdAt, h.createdAt, rfl⟩)
      ⟨u.createdAt, h.createdAt, rfl, h.firstYear, h.lastYear⟩
  have hid : (anyText (some .uuid)).Settles c false (.str u.id.text) :=
    settles_text (meets_of_writes ⟨u.id, h.id, rfl⟩) trivial
  have hany : ∀ text, (anyText none).Settles c false (.str text) :=
    fun text => settles_text (meets_of_writes trivial) trivial
  rw [toJson_eq]
  refine Validator.settles_of_counts (Json.counts_of_kind nofun nofun) ?_
  refine Rule.settles_record u.shown_ordered ?_
  exact .cons ⟨rfl, hage⟩ <| .cons ⟨rfl, hbornOn⟩ <| .cons ⟨rfl, hcreated⟩ <|
    .cons ⟨rfl, hany _⟩ <| .cons ⟨rfl, hid⟩ <| .cons ⟨rfl, hany _⟩ <|
    .cons ⟨rfl, settles_roles hrole _⟩ .nil

/-- A session of the description accepts the answer that shows the user, and hands it on as it is. -/
theorem Showable.accepted (h : u.Showable) {s : Session} (hs : s.IsDescribed) :
    (s.validate u.toJson (.named userName) .response).1 = .accepted u.toJson := by
  obtain ⟨c, hcompiles, hrole⟩ := exists_compiles alone_types.2.1
  rw [hs.verdict hcompiles]
  exact Verdict.ofOutcome_eq_accepted_iff.mpr
    ⟨Outcome.kept u.toJson, Cache.outcome_of_settles (h.settles hrole), rfl, rfl⟩

/-- The most that a role takes besides its quotes and its comma. -/
theorem extent_roles (rs : List Role) : Json.extentItems (rs.map Role.toJson) ≤
    7 * (rs.map fun r => r.name.length).sum := by
  have hname : ∀ r : Role, 3 ≤ r.name.length := by
    intro r
    cases r <;> decide
  induction rs with
  | nil => exact Nat.le_refl 0
  | cons r rest ih =>
    have hlong := hname r
    rw [List.map_cons, List.map_cons, List.sum_cons, Json.extentItems, Role.toJson, Json.extent]
    omega

end User

theorem Uuid.length_text {u : Uuid} (h : u.Proper) : u.text.length = 36 := by
  have hlength := h.length
  rw [← String.length_toList]
  simp [Uuid.text, hlength]

namespace CalendarDate

theorem length_padded_le (width : Nat) {n : Nat} (h : n < 10 ^ 9) :
    (padded width n).length ≤ width + 9 := by
  have hdigits := (Nat.length_toDigits_le_iff (b := 10) (by decide) (by decide)).mpr h
  simp only [padded, List.length_append, List.length_replicate]
  omega

theorem length_yearChars_le {year : Int} (h : year.natAbs < 10 ^ 9) :
    (yearChars year).length ≤ 14 := by
  unfold yearChars
  split
  · exact Nat.le_succ_of_le (length_padded_le 4 (by omega))
  · exact Nat.succ_le_succ (length_padded_le 4 h)

theorem length_chars_le {d : CalendarDate} (hyear : d.year.natAbs < 10 ^ 9) (hmonth : d.month < 100)
    (hday : d.day < 100) : d.chars.length ≤ 38 := by
  have hfirst := length_yearChars_le hyear
  have hsecond := length_padded_le 2 (Nat.lt_trans hmonth (by decide : 100 < 10 ^ 9))
  have hthird := length_padded_le 2 (Nat.lt_trans hday (by decide : 100 < 10 ^ 9))
  simp only [chars, List.length_append, List.length_cons]
  omega

theorem length_text_le {d : CalendarDate} (h : d.Exists) : d.text.length ≤ 38 := by
  obtain ⟨⟨hfirst, hlast⟩, -⟩ := exists_iff.mp h
  obtain ⟨hmonth, hday⟩ := h.lt_hundred
  unfold firstYear at hfirst
  unfold lastYear at hlast
  rw [text, String.length_ofList]
  exact length_chars_le (by omega) hmonth hday

end CalendarDate

namespace Moment

open CalendarDate

theorem length_fractionChars_le {nano : Nat} (h : nano < nanosPerSecond) :
    (fractionChars nano).length ≤ 19 := by
  unfold nanosPerSecond at h
  unfold fractionChars
  split_ifs
  · exact Nat.zero_le _
  · exact Nat.succ_le_succ (Nat.le_trans (length_padded_le 3 (by omega)) (by decide))
  · exact Nat.succ_le_succ (Nat.le_trans (length_padded_le 6 (by omega)) (by decide))
  · exact Nat.succ_le_succ (length_padded_le 9 h)

theorem length_text_le {m : Moment} (hm : m.Proper) (hfirst : 0 ≤ m.year) (hlast : m.year ≤ 9999) :
    m.text.length ≤ 94 := by
  obtain ⟨hmonth, hday⟩ := ofDayNumber_lt_hundred m.day
  have hyear : (ofDayNumber m.day).year.natAbs < 10 ^ 9 := by
    unfold year at hfirst hlast
    omega
  have hnano := hm.nano
  have hsecond := hm.second
  have hdate := length_chars_le hyear hmonth hday
  have hhours : (padded 2 (m.second / 3600)).length ≤ 11 := length_padded_le 2 (by omega)
  have hminutes : (padded 2 (m.second / 60 % 60)).length ≤ 11 := length_padded_le 2 (by omega)
  have hseconds : (padded 2 (m.second % 60 + m.nano / nanosPerSecond)).length ≤ 11 := by
    refine length_padded_le 2 ?_
    unfold nanosPerSecond at hnano ⊢
    omega
  have hfraction := length_fractionChars_le (Nat.mod_lt m.nano (by decide : 0 < nanosPerSecond))
  rw [← String.length_toList, text_toList]
  simp only [List.length_append, List.length_cons, List.length_nil]
  omega

end Moment

theorem Number.size_text_le {i : Int} (h : InRange i) : (int i).text.utf8ByteSize ≤ 84 := by
  have hbytes : ∀ cs : List Char, (String.ofList cs).utf8ByteSize ≤ 4 * cs.length := by
    intro cs
    induction cs with
    | nil => exact Nat.le_refl 0
    | cons c rest ih =>
      have hfour := c.utf8Size_le_four
      rw [String.ofList_cons, String.utf8ByteSize_append, String.utf8ByteSize_singleton,
        List.length_cons]
      omega
  have hdigits : (Nat.toDigits 10 i.natAbs).length ≤ 20 := by
    obtain ⟨hlow, hhigh⟩ := h
    simp only [Double.twoTo_eq] at hlow hhigh
    exact (Nat.length_toDigits_le_iff (b := 10) (by decide) (by decide)).mpr (by omega)
  have hchars : (Json.intChars i).length ≤ 21 := by
    unfold Json.intChars
    split
    · exact Nat.succ_le_succ hdigits
    · exact Nat.le_succ_of_le hdigits
  have hsize := hbytes (toString i).toList
  rw [String.ofList_toList, Json.toString_toList] at hsize
  exact Nat.le_trans hsize (Nat.mul_le_mul_left 4 hchars)

/-- What a request is given is as the rest of the service expects it. -/
structure Fresh.Timely (fresh : Fresh) : Prop where
  id : fresh.id.Proper
  time : fresh.time.Proper
  firstYear : 0 ≤ fresh.time.year
  lastYear : fresh.time.year ≤ 9999

/-- The user that is made of an admitted new user can be shown. -/
theorem NewUser.Admitted.showable {n : NewUser} (hn : n.Admitted) {fresh : Fresh}
    (hfresh : fresh.Timely) : (User.create fresh.id fresh.time n).Showable where
  id := hfresh.id
  age := hn.age
  bornOn := hn.bornOn
  createdAt := hfresh.time
  firstYear := hfresh.firstYear
  lastYear := hfresh.lastYear
  short := by
    have hage : (Json.orNull (n.age.map fun i => .num (.int i))).extent ≤ 84 := by
      cases hset : n.age with
      | none => decide
      | some i => exact Number.size_text_le (hn.age i hset).1
    have hbornOn : (Json.orNull (n.bornOn.map fun d => .str d.text)).extent ≤ 230 := by
      cases hset : n.bornOn with
      | none => decide
      | some date =>
        have hdate := CalendarDate.length_text_le (hn.bornOn date hset)
        simp only [Option.map_some, Json.orNull, Json.extent]
        omega
    have hid := Uuid.length_text hfresh.id
    have htime := Moment.length_text_le hfresh.time hfresh.firstYear hfresh.lastYear
    have hname := hn.name
    have hroles := User.extent_roles n.roles
    have hshort := hn.short
    have hkeys : "age".length = 3 ∧ "born_on".length = 7 ∧ "created_at".length = 10 ∧
        "email".length = 5 ∧ "id".length = 2 ∧ "name".length = 4 ∧ "roles".length = 5 := by
      decide
    rw [User.toJson_eq]
    unfold Http.Request.bodyLimit at hshort
    simp only [User.shown, User.create, Json.extent, Json.extentFields, Session.releaseLimit, hid,
      hkeys]
    omega

end Conform
