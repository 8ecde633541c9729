import Conform.Proofs.Coercion
import Conform.Proofs.Reading
import Conform.Users

/-!
# Reading requests

Which fields of an object a request about users is read from. A record is read
as soon as each of its fields is, whatever else the object has; texts that the
coercions write for ids and dates are read, and so are the names of roles.
-/

namespace Conform

namespace CalendarDate

variable {most low high n : Nat} {year : Int} {cs rest : List Char} {d : CalendarDate}

theorem takeNumber_of_read (h : readNumber? most cs = some (n, rest)) :
    takeNumber most cs = .ok (n, rest) := by
  unfold takeNumber
  rw [h]

theorem takeBounded_of_read (h : readNumber? 2 cs = some (n, rest)) (hn : low ≤ n ∧ n ≤ high) :
    takeBounded low high cs = .ok (n, rest) := by
  unfold takeBounded
  rw [takeNumber_of_read h]
  exact if_pos (by simpa using hn)

theorem takeYear_of_read (h : readYear? cs = some (year, rest)) (hyear : isWritable year = true) :
    takeYear cs = .ok (year, rest) := by
  unfold readYear? at h
  unfold takeYear
  split at h
  all_goals
    obtain ⟨⟨n, more⟩, hread, heq⟩ := Option.map_eq_some_iff.mp h
    cases heq
    simp only [takeNumber_of_read hread, Except.map, bind, Except.bind, hyear, if_true]

/-- Before a hyphen there are no blanks to skip. -/
theorem takeHyphen_of_read (h : readHyphen? cs = some rest) :
    takeHyphen (skipBlanks cs) = .ok rest := by
  unfold readHyphen? at h
  split at h
  · cases h
    rfl
  · cases h

theorem Exists.isWritable (h : d.Exists) : isWritable d.year = true := by
  obtain ⟨⟨hlow, hhigh⟩, -⟩ := exists_iff.mp h
  have hlimit : (twoTo 31 : Int) = 2147483648 := by decide
  unfold firstYear at hlow
  unfold lastYear at hhigh
  unfold CalendarDate.isWritable
  rw [Bool.and_eq_true, decide_eq_true_iff, decide_eq_true_iff]
  omega

/-- A field reads a date that the coercion reads. -/
theorem ofField_of_readChars? (h : readChars? cs = some d) : ofField cs = .ok d := by
  have hdate := exists_of_readChars? h
  unfold readChars? at h
  obtain ⟨⟨year, afterYear⟩, hyear, h⟩ := Option.bind_eq_some_iff.mp h
  obtain ⟨toMonth, hfirst, h⟩ := Option.bind_eq_some_iff.mp h
  obtain ⟨⟨month, afterMonth⟩, hmonth, h⟩ := Option.bind_eq_some_iff.mp h
  obtain ⟨toDay, hsecond, h⟩ := Option.bind_eq_some_iff.mp h
  obtain ⟨⟨day, rest⟩, hday, h⟩ := Option.bind_eq_some_iff.mp h
  dsimp only at h
  split at h
  · next hempty =>
    cases eq_of_of? h
    obtain ⟨-, hmonths, hdays⟩ := exists_iff.mp hdate
    have hlast := hdays.2.trans (daysInMonth_le _ _)
    have hyear : takeYear (skipBlanks cs) = .ok (year, afterYear) :=
      takeYear_of_read hyear hdate.isWritable
    have hmonth : takeBounded 1 12 (skipBlanks toMonth) = .ok (month, afterMonth) :=
      takeBounded_of_read hmonth hmonths
    have hday : takeBounded 1 31 (skipBlanks toDay) = .ok (day, rest) :=
      takeBounded_of_read hday ⟨hdays.1, hlast⟩
    have hend : (skipBlanks rest).isEmpty = true := by
      rw [List.isEmpty_iff.mp hempty]
      rfl
    unfold ofField
    simp only [hyear, takeHyphen_of_read hfirst, hmonth, takeHyphen_of_read hsecond, hday, hend, h,
      bind, Except.bind]
    rfl
  · cases h

theorem decode_text {d : CalendarDate} (h : d.Exists) : decode (.str d.text) = .ok d := by
  have hread : ofField d.text.toList = .ok d := by
    rw [text, String.toList_ofList]
    exact ofField_of_readChars? (readChars?_chars h)
  unfold decode
  dsimp only
  rw [hread]

end CalendarDate

theorem Uuid.decode_text {u : Uuid} (h : u.Proper) : Uuid.decode (.str u.text) = .ok u := by
  unfold Uuid.decode Uuid.read?
  dsimp only
  rw [Uuid.readChars?_text h]

/-- A name of a role is read as the role. -/
theorem Role.exists_decode {s : String} (h : s ∈ Role.all.map Role.name) :
    ∃ r, Role.decode (.str s) = .ok r := by
  simp only [Role.all, List.map_cons, List.map_nil, List.mem_cons, List.not_mem_nil, or_false] at h
  rcases h with rfl | rfl | rfl
  · exact ⟨.admin, rfl⟩
  · exact ⟨.member, rfl⟩
  · exact ⟨.guest, rfl⟩

section Folds

variable {ε α β : Type} {f : β → α → Except ε β} {items : List α} {a : α} {b last : β}

theorem exists_foldlM_ok (h : ∀ a ∈ items, ∀ b, ∃ next, f b a = .ok next) (b : β) :
    ∃ last, items.foldlM f b = .ok last := by
  induction items generalizing b with
  | nil => exact ⟨b, rfl⟩
  | cons a rest ih =>
    obtain ⟨ha, hrest⟩ := List.forall_mem_cons.mp h
    obtain ⟨next, hnext⟩ := ha b
    obtain ⟨last, hlast⟩ := ih hrest next
    refine ⟨last, ?_⟩
    rw [List.foldlM_cons, hnext]
    exact hlast

/-- What the step of one item reaches and all steps preserve holds in the end. -/
theorem foldlM_reaches {P : β → Prop} (hkeep : ∀ b a next, P b → f b a = .ok next → P next)
    (hreach : ∀ b next, f b a = .ok next → P next) (ha : a ∈ items)
    (h : items.foldlM f b = .ok last) : P last := by
  obtain ⟨before, after, rfl⟩ := List.append_of_mem ha
  rw [List.foldlM_append] at h
  obtain ⟨middle, -, h⟩ := exists_ok_of_bind h
  obtain ⟨next, hnext, h⟩ := exists_ok_of_bind h
  exact foldlM_preserves (Q := fun _ => True) (fun b a next hb _ => hkeep b a next hb)
    (hreach _ _ hnext) (fun _ _ => trivial) h

theorem exists_mapM_ok {g : α → Except ε β} (h : ∀ a ∈ items, ∃ b, g a = .ok b) :
    ∃ bs, items.mapM g = .ok bs := by
  induction items with
  | nil => exact ⟨[], rfl⟩
  | cons a rest ih =>
    obtain ⟨⟨b, hb⟩, hrest⟩ := List.forall_mem_cons.mp h
    obtain ⟨bs, hbs⟩ := ih hrest
    refine ⟨b :: bs, ?_⟩
    rw [List.mapM_cons, hb]
    change (rest.mapM g >>= _) = _
    rw [hbs]
    rfl

end Folds

namespace Decode

section Records

variable {α β : Type} {layout : Layout} {start : α} {set : α → String → Json → Result α}
  {finish : α → Written → Result β} {fields : List (String × Json)} {b : β}

theorem Layout.read_obj (record : α)
    (hset : (fields.filter fun entry => layout.fields.contains entry.1).foldlM
      (fun record entry => set record entry.1 entry.2) start = .ok record)
    (hfinish : finish record .named = .ok b) : layout.read start set finish (.obj fields) = .ok b := by
  unfold read entries
  change ((List.foldlM _ _ _ : Result α) >>= _) = _
  rw [hset]
  change (finish record .named >>= _) = _
  rw [hfinish]
  rfl

/-- A record is read from an object whose declared fields are all set and finish it. -/
theorem Layout.exists_read
    (hset : ∀ entry ∈ fields, entry.1 ∈ layout.fields → ∀ record, ∃ next,
      set record entry.1 entry.2 = .ok next)
    (hfinish : ∀ record,
      (fields.filter fun entry => layout.fields.contains entry.1).foldlM
        (fun record entry => set record entry.1 entry.2) start = .ok record →
      ∃ b, finish record .named = .ok b) :
    ∃ b, layout.read start set finish (.obj fields) = .ok b := by
  have hsets : ∀ entry ∈ fields.filter fun entry => layout.fields.contains entry.1,
      ∀ record, ∃ next, set record entry.1 entry.2 = .ok next := by
    intro entry hentry
    obtain ⟨hmem, hdeclared⟩ := List.mem_filter.mp hentry
    exact hset entry hmem (List.contains_iff_mem.mp hdeclared)
  obtain ⟨record, hrecord⟩ := exists_foldlM_ok hsets start
  obtain ⟨b, hb⟩ := hfinish record hrecord
  exact ⟨b, read_obj record hrecord hb⟩

/-- A field that is not read leaves the record unread. -/
theorem Layout.exists_set_of_read {name : String} {v : Json}
    (h : layout.read start set finish (.obj fields) = .ok b) (hdeclared : name ∈ layout.fields)
    (hmem : (name, v) ∈ fields) : ∃ before after, set before name v = .ok after := by
  obtain ⟨⟨entries, written⟩, hentries, h⟩ := exists_ok_of_bind h
  cases hentries
  obtain ⟨record, hrecord, -⟩ := exists_ok_of_bind h
  exact exists_step_of_foldlM hrecord (name, v)
    (List.mem_filter.mpr ⟨hmem, List.contains_iff_mem.mpr hdeclared⟩)

end Records

theorem optional_signed {i : ℤ} (h : i < twoTo 63) :
    optional signed (.num (.int i)) = .ok (some i) := by
  change (signed (.num (.int i))).map some = _
  unfold signed
  dsimp only
  rw [if_pos h]
  rfl

end Decode

namespace NewUser

variable {fields : List (String × Json)} {v : Json}

/-- The fields, the age aside, are as the type has them. -/
structure Typed (fields : List (String × Json)) : Prop where
  name : ∃ s, Table.get? "name" fields = some (.str s)
  email : ∃ s, Table.get? "email" fields = some (.str s)
  roles : ∀ w, Table.get? "roles" fields = some w → ∃ rs, Decode.list Role.decode w = .ok rs
  bornOn : ∀ w, Table.get? "born_on" fields = some w →
    ∃ d, Decode.optional CalendarDate.decode w = .ok d

theorem Draft.set_keeps {d next : Draft} {key : String} (h : d.set key v = .ok next) :
    (d.name.isSome = true → next.name.isSome = true) ∧
      (d.email.isSome = true → next.email.isSome = true) := by
  unfold Draft.set at h
  split at h
  all_goals
    first
    | (obtain ⟨_, -, h⟩ := exists_ok_of_bind h; cases h; simp)
    | (cases h; simp)

/-- Such fields are read as a new user, if the age is. -/
theorem Typed.exists_decode (h : Typed fields) (hordered : Table.Ordered fields)
    (hage : ∀ w, Table.get? "age" fields = some w →
      ∃ i, Decode.optional Decode.signed w = .ok i) : ∃ u, decode (.obj fields) = .ok u := by
  obtain ⟨name, hname⟩ := h.name
  obtain ⟨email, hemail⟩ := h.email
  have hdeclared : ∀ {key : String} {w : Json}, key ∈ layout.fields →
      Table.get? key fields = some w →
      (key, w) ∈ fields.filter fun entry => layout.fields.contains entry.1 := fun hkey hw =>
    List.mem_filter.mpr ⟨Table.mem_of_get? hw, List.contains_iff_mem.mpr hkey⟩
  refine Decode.Layout.exists_read ?_ ?_
  · rintro ⟨key, w⟩ hmem hkey d
    have hw := hordered.get?_of_mem hmem
    dsimp only at hkey ⊢
    simp only [layout, List.mem_cons, List.not_mem_nil, or_false] at hkey
    rcases hkey with rfl | rfl | rfl | rfl | rfl
    · cases hname.symm.trans hw
      exact ⟨_, rfl⟩
    · cases hemail.symm.trans hw
      exact ⟨_, rfl⟩
    · obtain ⟨i, hi⟩ := hage w hw
      exact ⟨{ d with age := some i }, by simp only [Draft.set, hi]; rfl⟩
    · obtain ⟨rs, hrs⟩ := h.roles w hw
      exact ⟨{ d with roles := some rs }, by simp only [Draft.set, hrs]; rfl⟩
    · obtain ⟨date, hdate⟩ := h.bornOn w hw
      exact ⟨{ d with bornOn := some date }, by simp only [Draft.set, hdate]; rfl⟩
  · intro d hd
    have hnamed : d.name.isSome = true := by
      refine foldlM_reaches (P := fun d : Draft => d.name.isSome = true)
        (fun b entry next hb hset => (Draft.set_keeps hset).1 hb) (fun b next hset => ?_)
        (hdeclared (by decide) hname) hd
      cases hset
      rfl
    have hmailed : d.email.isSome = true := by
      refine foldlM_reaches (P := fun d : Draft => d.email.isSome = true)
        (fun b entry next hb hset => (Draft.set_keeps hset).2 hb) (fun b next hset => ?_)
        (hdeclared (by decide) hemail) hd
      cases hset
      rfl
    obtain ⟨dname, demail, dage, droles, dborn⟩ := d
    obtain ⟨dname, rfl⟩ := Option.isSome_iff_exists.mp hnamed
    obtain ⟨demail, rfl⟩ := Option.isSome_iff_exists.mp hmailed
    cases dage <;> cases dborn <;> exact ⟨_, rfl⟩

/-- A float is not read as an age. -/
theorem decode_ne_ok_of_float {x : Double} {u : NewUser}
    (h : Table.get? "age" fields = some (.num (.float x))) : decode (.obj fields) ≠ .ok u := by
  intro hread
  obtain ⟨before, after, hset⟩ :=
    Decode.Layout.exists_set_of_read hread (by decide) (Table.mem_of_get? h)
  cases hset

end NewUser

namespace UserQuery

variable {fields : List (String × Json)}

/-- The fields, the limit aside, are as the type has them. -/
structure Typed (fields : List (String × Json)) : Prop where
  role : ∀ w, Table.get? "role" fields = some w →
    ∃ r, Decode.optional Role.decode w = .ok r
  ids : ∀ w, Table.get? "ids" fields = some w →
    ∃ ids, Decode.optional (Decode.list Uuid.decode) w = .ok ids

/-- Such fields are read as a query, if the limit is. -/
theorem Typed.exists_decode (h : Typed fields) (hordered : Table.Ordered fields)
    (hlimit : ∀ w, Table.get? "limit" fields = some w →
      ∃ i, Decode.optional Decode.signed w = .ok i) : ∃ q, decode (.obj fields) = .ok q := by
  refine Decode.Layout.exists_read ?_ ?_
  · rintro ⟨key, w⟩ hmem hkey d
    have hw := hordered.get?_of_mem hmem
    dsimp only at hkey ⊢
    simp only [layout, List.mem_cons, List.not_mem_nil, or_false] at hkey
    rcases hkey with rfl | rfl | rfl
    · obtain ⟨i, hi⟩ := hlimit w hw
      exact ⟨{ d with limit := some i }, by simp only [Draft.set, hi]; rfl⟩
    · obtain ⟨r, hr⟩ := h.role w hw
      exact ⟨{ d with role := some r }, by simp only [Draft.set, hr]; rfl⟩
    · obtain ⟨ids, hids⟩ := h.ids w hw
      exact ⟨{ d with ids := some ids }, by simp only [Draft.set, hids]; rfl⟩
  · rintro ⟨limit, role, ids⟩ -
    cases limit <;> cases role <;> cases ids <;> exact ⟨_, rfl⟩

/-- A float is not read as a limit. -/
theorem decode_ne_ok_of_float {x : Double} {q : UserQuery}
    (h : Table.get? "limit" fields = some (.num (.float x))) : decode (.obj fields) ≠ .ok q := by
  intro hread
  obtain ⟨before, after, hset⟩ :=
    Decode.Layout.exists_set_of_read hread (by decide) (Table.mem_of_get? h)
  cases hset

end UserQuery

/-- A path is read from its id. -/
theorem UserPath.exists_decode {fields : List (String × Json)} {v : Json} {id : Uuid}
    (hv : Table.get? "id" fields = some v) (hid : Uuid.decode v = .ok id)
    (hordered : Table.Ordered fields) : ∃ p, decode (.obj fields) = .ok p := by
  refine Decode.Layout.exists_read ?_ ?_
  · rintro ⟨key, w⟩ hmem hkey found
    have hw := hordered.get?_of_mem hmem
    dsimp only at hkey ⊢
    simp only [layout, List.mem_singleton] at hkey
    subst hkey
    cases hv.symm.trans hw
    exact ⟨some id, by rw [if_pos rfl, hid]; rfl⟩
  · intro found hfound
    have hset : ∀ {w : Json} {next : Option Uuid}, (Uuid.decode w).map some = .ok next →
        next.isSome = true := by
      intro w next hnext
      cases hdecode : Uuid.decode w with
      | error e =>
        rw [hdecode] at hnext
        cases hnext
      | ok id =>
        rw [hdecode] at hnext
        cases hnext
        rfl
    have hmem : ("id", v) ∈ fields.filter fun entry => layout.fields.contains entry.1 :=
      List.mem_filter.mpr ⟨Table.mem_of_get? hv, List.contains_iff_mem.mpr List.mem_cons_self⟩
    have hread : found.isSome = true := by
      refine foldlM_reaches (P := fun found : Option Uuid => found.isSome = true)
        (fun b entry next hb hnext => ?_) (fun b next hnext => ?_) hmem hfound
      · split at hnext
        · exact hset hnext
        · cases hnext
          exact hb
      · rw [if_pos rfl] at hnext
        exact hset hnext
    obtain ⟨id, rfl⟩ := Option.isSome_iff_exists.mp hread
    exact ⟨⟨id⟩, rfl⟩

end Conform
