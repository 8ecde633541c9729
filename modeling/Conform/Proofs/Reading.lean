import Conform.Json.Reader
import Conform.Proofs.Ordered

/-!
# What is read is in order

The objects of a value that is read from a text are in order, and so are the
tables of the definitions and the declared fields that are decoded from it.
-/

namespace Conform

namespace Json

/-- What an open container holds is in order. -/
def Frame.Ordered : Frame → Prop
  | .array done => ∀ item ∈ done, item.Ordered
  | .object done _ => (Json.obj done).Ordered

/-- A machine that holds nothing but values in order. -/
structure Machine.Ordered (m : Machine) : Prop where
  stack : ∀ frame ∈ m.stack, frame.Ordered
  result : ∀ v, m.expect = .nothing v → v.Ordered

/-- A value that a token brings is in order. -/
def Token.Ordered (token : Token) : Prop := ∀ v, token = .scalar v → v.Ordered

theorem Ordered.insert {fields : List (String × Json)} {v : Json} (h : (Json.obj fields).Ordered)
    (key : String) (hv : v.Ordered) : (Json.obj (Table.insert key v fields)).Ordered := by
  cases h with
  | obj hordered hentries =>
    refine .obj (hordered.insert key v) fun entry hentry => ?_
    rcases Table.mem_insert hentry with rfl | hentry
    · exact hv
    · exact hentries entry hentry

theorem obj_nil_ordered : (obj []).Ordered := .obj List.Pairwise.nil nofun

theorem readToken?_ordered {c : Char} {rest : List Char} {token : Token} {more : List Char}
    (h : readToken? c rest = some (token, more)) : token.Ordered := by
  rintro v rfl
  unfold readToken? at h
  split at h
  · cases h
  · cases h
  · cases h
  · cases h
  · cases h
  · cases h
  · obtain ⟨_, -, h⟩ := Option.map_eq_some_iff.mp h
    cases h
    exact .str _
  · dsimp only at h
    split at h
    · obtain ⟨n, -, h⟩ := Option.map_eq_some_iff.mp h
      cases h
      exact .num n
    · obtain ⟨⟨v, rest⟩, hword, h⟩ := Option.map_eq_some_iff.mp h
      cases h
      unfold readWord? at hword
      split at hword
      · cases hword
        exact .bool true
      · cases hword
        exact .bool false
      · cases hword
        exact .null
      · cases hword

namespace Machine

variable {m next : Machine} {v : Json} {stack : List Frame} {limit : Nat} {token : Token}

theorem start_ordered : start.Ordered := ⟨nofun, nofun⟩

theorem deliver_ordered (hv : v.Ordered) (hstack : ∀ frame ∈ stack, frame.Ordered) :
    (deliver v stack).Ordered := by
  cases stack with
  | nil =>
    refine ⟨nofun, fun w hw => ?_⟩
    cases hw
    exact hv
  | cons frame rest =>
    obtain ⟨hframe, hrest⟩ := List.forall_mem_cons.mp hstack
    cases frame with
    | array done =>
      refine ⟨List.forall_mem_cons.mpr ⟨?_, hrest⟩, nofun⟩
      exact List.forall_mem_cons.mpr ⟨hv, hframe⟩
    | object done key =>
      refine ⟨List.forall_mem_cons.mpr ⟨?_, hrest⟩, nofun⟩
      exact Json.Ordered.insert hframe key hv

theorem enter_ordered {frame : Frame} {expect : Expect}
    (h : enter limit frame expect stack = some next) (hexpect : ∀ v, expect ≠ .nothing v)
    (hframe : frame.Ordered) (hstack : ∀ frame ∈ stack, frame.Ordered) : next.Ordered := by
  unfold enter at h
  split at h
  · cases h
    exact ⟨List.forall_mem_cons.mpr ⟨hframe, hstack⟩, fun v hv => absurd hv (hexpect v)⟩
  · cases h

/-- A step keeps what the machine holds in order. -/
theorem step_ordered (hm : m.Ordered) (htoken : token.Ordered)
    (h : m.step limit token = some next) : next.Ordered := by
  have hopen : ∀ {frame stack}, m.stack = frame :: stack →
      frame.Ordered ∧ ∀ other ∈ stack, other.Ordered :=
    fun heq => List.forall_mem_cons.mp (heq ▸ hm.stack)
  unfold step at h
  split at h
  -- a scalar where a value may stand
  · cases h
    exact deliver_ordered (htoken _ rfl) hm.stack
  · cases h
    exact deliver_ordered (htoken _ rfl) hm.stack
  -- an array or an object opened there
  · exact enter_ordered h nofun (fun _ hitem => absurd hitem List.not_mem_nil) hm.stack
  · exact enter_ordered h nofun (fun _ hitem => absurd hitem List.not_mem_nil) hm.stack
  · exact enter_ordered h nofun obj_nil_ordered hm.stack
  · exact enter_ordered h nofun obj_nil_ordered hm.stack
  -- an empty container closed
  · next heq =>
    cases h
    exact deliver_ordered (.arr nofun) (hopen heq).2
  · next heq =>
    cases h
    exact deliver_ordered obj_nil_ordered (hopen heq).2
  -- a key, a colon, a comma
  · next heq =>
    cases h
    obtain ⟨hfields, hrest⟩ := hopen heq
    exact ⟨List.forall_mem_cons.mpr ⟨hfields, hrest⟩, nofun⟩
  · next heq =>
    cases h
    obtain ⟨hfields, hrest⟩ := hopen heq
    exact ⟨List.forall_mem_cons.mpr ⟨hfields, hrest⟩, nofun⟩
  · cases h
    exact ⟨hm.stack, nofun⟩
  · next heq =>
    cases h
    exact ⟨List.forall_mem_cons.mpr (hopen heq), nofun⟩
  · next heq =>
    cases h
    exact ⟨List.forall_mem_cons.mpr (hopen heq), nofun⟩
  -- a container closed
  · next heq =>
    cases h
    obtain ⟨hitems, hrest⟩ := hopen heq
    exact deliver_ordered (.arr fun item hitem => hitems item (List.mem_reverse.mp hitem)) hrest
  · next heq =>
    cases h
    obtain ⟨hfields, hrest⟩ := hopen heq
    exact deliver_ordered hfields hrest
  · cases h

/-- A machine in order reads a value in order. -/
theorem run?_ordered {fuel : Nat} {cs rest : List Char} (hm : m.Ordered)
    (h : m.run? limit fuel cs = some (v, rest)) : v.Ordered := by
  induction fuel generalizing m cs with
  | zero => cases h
  | succ fuel ih =>
    unfold run? at h
    split at h
    · next w _ hresult =>
      cases h
      unfold result? at hresult
      split at hresult
      · next v hexpect =>
        cases hresult
        exact hm.result v hexpect
      · cases hresult
    · cases h
    · split at h
      · exact ih hm h
      · obtain ⟨⟨token, rest⟩, htoken, h⟩ := Option.bind_eq_some_iff.mp h
        obtain ⟨next, hnext, h⟩ := Option.bind_eq_some_iff.mp h
        exact ih (step_ordered hm (readToken?_ordered htoken) hnext) h

end Machine

/-- The value of a text is in order. -/
theorem read?_ordered {text : String} {v : Json} (h : read? text = some v) : v.Ordered := by
  obtain ⟨⟨w, rest⟩, hstart, h⟩ := Option.bind_eq_some_iff.mp h
  dsimp only at h
  split at h
  · cases h
    exact Machine.run?_ordered Machine.start_ordered hstart
  · cases h

end Json

namespace Definition

variable {d : Definition} {k : Keywords}

theorem empty_ordered : ({} : Definition).Ordered := .mk nofun nofun nofun nofun nofun nofun

theorem Ordered.keywords (h : d.Ordered) : ({ d with keywords := k } : Definition).Ordered := by
  cases h with
  | mk honeOf hanyOf hallOf hitems htables hproperties =>
    exact .mk honeOf hanyOf hallOf hitems htables hproperties

theorem Ordered.oneOf (h : d.Ordered) {ds : List Definition} (hds : ∀ e ∈ ds, e.Ordered) :
    ({ d with oneOf := some ds } : Definition).Ordered := by
  cases h with
  | mk _ hanyOf hallOf hitems htables hproperties =>
    refine .mk ?_ hanyOf hallOf hitems htables hproperties
    rintro _ ⟨⟩
    exact hds

theorem Ordered.anyOf (h : d.Ordered) {ds : List Definition} (hds : ∀ e ∈ ds, e.Ordered) :
    ({ d with anyOf := some ds } : Definition).Ordered := by
  cases h with
  | mk honeOf _ hallOf hitems htables hproperties =>
    refine .mk honeOf ?_ hallOf hitems htables hproperties
    rintro _ ⟨⟩
    exact hds

theorem Ordered.allOf (h : d.Ordered) {ds : List Definition} (hds : ∀ e ∈ ds, e.Ordered) :
    ({ d with allOf := some ds } : Definition).Ordered := by
  cases h with
  | mk honeOf hanyOf _ hitems htables hproperties =>
    refine .mk honeOf hanyOf ?_ hitems htables hproperties
    rintro _ ⟨⟩
    exact hds

theorem Ordered.items (h : d.Ordered) {e : Definition} (he : e.Ordered) :
    ({ d with items := some e } : Definition).Ordered := by
  cases h with
  | mk honeOf hanyOf hallOf _ htables hproperties =>
    refine .mk honeOf hanyOf hallOf ?_ htables hproperties
    rintro _ ⟨⟩
    exact he

theorem Ordered.properties (h : d.Ordered) {ps : List (String × Definition)}
    (hps : Table.Ordered ps) (hall : ∀ entry ∈ ps, entry.2.Ordered) :
    ({ d with properties := some ps } : Definition).Ordered := by
  cases h with
  | mk honeOf hanyOf hallOf hitems _ _ =>
    refine .mk honeOf hanyOf hallOf hitems ?_ ?_
    · rintro _ ⟨⟩
      exact hps
    · rintro _ ⟨⟩
      exact hall

/-- A scalar sets no keyword that holds a schema object. -/
theorem decodeScalar_ordered {v : Json} {name : String} {e : Definition}
    (harr : ∀ items, v ≠ .arr items) (hobj : ∀ fields, v ≠ .obj fields) (hd : d.Ordered)
    (h : decodeField d name v = .ok e) : e.Ordered := by
  cases v with
  | null =>
    unfold decodeField at h
    cases h
    exact hd
  | arr items => exact absurd rfl (harr items)
  | obj fields => exact absurd rfl (hobj fields)
  | _ =>
    unfold decodeField at h
    split at h
    · cases h
    · cases h
    · cases h
    · cases h
    · cases h
    · obtain ⟨k, -, h⟩ := exists_ok_of_bind h
      cases h
      exact hd.keywords

mutual

/-- A definition decoded from a value in order is in order. -/
theorem decode_ordered : (v : Json) → ∀ {d}, v.Ordered → decode v = .ok d → d.Ordered
  | .obj fields, d, .obj _ hentries, h => by
    unfold decode at h
    exact decodeFields_ordered fields hentries empty_ordered h
  | .arr items, d, .arr hitems, h => by
    unfold decode at h
    obtain ⟨e, he, h⟩ := exists_ok_of_bind h
    obtain ⟨_, -, h⟩ := exists_ok_of_bind h
    cases h
    exact decodeItems_ordered _ items hitems empty_ordered he
  | .null, d, _, h => by cases h
  | .bool _, d, _, h => by cases h
  | .num _, d, _, h => by cases h
  | .str _, d, _, h => by cases h

theorem decodeFields_ordered : (fields : List (String × Json)) → ∀ {d e},
    (∀ entry ∈ fields, entry.2.Ordered) → d.Ordered → decodeFields fields d = .ok e → e.Ordered
  | [], d, e, _, hd, h => by
    unfold decodeFields at h
    cases h
    exact hd
  | (name, v) :: rest, d, e, hentries, hd, h => by
    unfold decodeFields at h
    obtain ⟨next, hnext, h⟩ := exists_ok_of_bind h
    obtain ⟨hv, hrest⟩ := List.forall_mem_cons.mp hentries
    exact decodeFields_ordered rest hrest (decodeField_ordered v hv hd hnext) h

theorem decodeItems_ordered : (names : List String) → (items : List Json) → ∀ {d e},
    (∀ item ∈ items, item.Ordered) → d.Ordered → decodeItems names items d = .ok e → e.Ordered
  | name :: names, v :: rest, d, e, hitems, hd, h => by
    unfold decodeItems at h
    obtain ⟨next, hnext, h⟩ := exists_ok_of_bind h
    obtain ⟨hv, hrest⟩ := List.forall_mem_cons.mp hitems
    exact decodeItems_ordered names rest hrest (decodeField_ordered v hv hd hnext) h
  | [], items, d, e, _, hd, h => by
    unfold decodeItems at h
    cases h
    exact hd
  | _ :: _, [], d, e, _, hd, h => by
    unfold decodeItems at h
    cases h
    exact hd

theorem decodeField_ordered : (v : Json) → ∀ {name d e}, v.Ordered → d.Ordered →
    decodeField d name v = .ok e → e.Ordered
  | .null, name, d, e, _, hd, h => decodeScalar_ordered (by simp) (by simp) hd h
  | .arr items, name, d, e, .arr hitems, hd, h => by
    unfold decodeField at h
    split at h
    · obtain ⟨ds, hds, h⟩ := exists_ok_of_bind h
      cases h
      exact hd.oneOf (decodeList_ordered items hitems hds)
    · obtain ⟨ds, hds, h⟩ := exists_ok_of_bind h
      cases h
      exact hd.anyOf (decodeList_ordered items hitems hds)
    · obtain ⟨ds, hds, h⟩ := exists_ok_of_bind h
      cases h
      exact hd.allOf (decodeList_ordered items hitems hds)
    · obtain ⟨item, hitem, h⟩ := exists_ok_of_bind h
      obtain ⟨_, -, h⟩ := exists_ok_of_bind h
      cases h
      exact hd.items (decodeItems_ordered _ items hitems empty_ordered hitem)
    · cases h
    · obtain ⟨k, -, h⟩ := exists_ok_of_bind h
      cases h
      exact hd.keywords
  | .obj fields, name, d, e, .obj hordered hentries, hd, h => by
    unfold decodeField at h
    split at h
    · cases h
    · cases h
    · cases h
    · obtain ⟨item, hitem, h⟩ := exists_ok_of_bind h
      cases h
      exact hd.items (decodeFields_ordered fields hentries empty_ordered hitem)
    · obtain ⟨ps, hps, h⟩ := exists_ok_of_bind h
      cases h
      obtain ⟨hkeys, hall⟩ := decodeTable_ordered fields hentries hps
      exact hd.properties (hkeys ▸ hordered : (Table.keys ps).Pairwise (· < ·)) hall
    · obtain ⟨k, -, h⟩ := exists_ok_of_bind h
      cases h
      exact hd.keywords
  | .bool b, name, d, e, _, hd, h => decodeScalar_ordered (by simp) (by simp) hd h
  | .num n, name, d, e, _, hd, h => decodeScalar_ordered (by simp) (by simp) hd h
  | .str s, name, d, e, _, hd, h => decodeScalar_ordered (by simp) (by simp) hd h

theorem decodeList_ordered : (items : List Json) → ∀ {ds}, (∀ item ∈ items, item.Ordered) →
    decodeList items = .ok ds → ∀ e ∈ ds, e.Ordered
  | [], ds, _, h => by
    unfold decodeList at h
    cases h
    exact nofun
  | v :: rest, ds, hitems, h => by
    unfold decodeList at h
    obtain ⟨d, hd, h⟩ := exists_ok_of_bind h
    obtain ⟨more, hmore, h⟩ := exists_ok_of_bind h
    cases h
    obtain ⟨hv, hrest⟩ := List.forall_mem_cons.mp hitems
    exact List.forall_mem_cons.mpr ⟨decode_ordered v hv hd, decodeList_ordered rest hrest hmore⟩

theorem decodeTable_ordered : (fields : List (String × Json)) → ∀ {ps},
    (∀ entry ∈ fields, entry.2.Ordered) → decodeTable fields = .ok ps →
      Table.keys ps = Table.keys fields ∧ ∀ entry ∈ ps, entry.2.Ordered
  | [], ps, _, h => by
    unfold decodeTable at h
    cases h
    exact ⟨rfl, nofun⟩
  | (name, v) :: rest, ps, hentries, h => by
    unfold decodeTable at h
    obtain ⟨d, hd, h⟩ := exists_ok_of_bind h
    obtain ⟨more, hmore, h⟩ := exists_ok_of_bind h
    cases h
    obtain ⟨hv, hrest⟩ := List.forall_mem_cons.mp hentries
    obtain ⟨hkeys, hall⟩ := decodeTable_ordered rest hrest hmore
    exact ⟨congrArg (name :: ·) hkeys, List.forall_mem_cons.mpr ⟨decode_ordered v hv hd, hall⟩⟩

end

end Definition

section Declared

theorem FieldShape.ofWord_ordered {word : String} {shape : FieldShape}
    (h : FieldShape.ofWord word = .ok shape) : shape.Ordered := by
  unfold ofWord at h
  split at h
  any_goals
    cases h
    exact .scalar _
  any_goals
    cases h
    exact .unspecified
  split at h
  · cases h
    exact .named _
  · cases h

mutual

/-- A shape decoded from a value in order is in order. -/
theorem FieldShape.decode_ordered : (v : Json) → ∀ {shape}, v.Ordered →
    FieldShape.decode v = .ok shape → shape.Ordered
  | .str word, shape, _, h => by
    unfold FieldShape.decode at h
    exact FieldShape.ofWord_ordered h
  | .arr items, shape, .arr hitems, h => by
    unfold FieldShape.decode at h
    split at h
    · next element hshapes =>
      cases h
      exact .array (decodeShapes_ordered items hitems hshapes element (List.mem_singleton_self _))
    · cases h
    · cases h
  | .obj fields, shape, .obj hordered hentries, h => by
    unfold FieldShape.decode at h
    split at h
    · next rules hrules =>
      cases h
      obtain ⟨hkeys, hall⟩ := decodeRules_ordered fields hentries hrules
      exact .inline (hkeys ▸ hordered : (Table.keys rules).Pairwise (· < ·)) hall
    · cases h
  | .null, shape, _, h => by cases h
  | .bool _, shape, _, h => by cases h
  | .num _, shape, _, h => by cases h

theorem decodeShapes_ordered : (items : List Json) → ∀ {shapes}, (∀ item ∈ items, item.Ordered) →
    decodeShapes items = .ok shapes → ∀ shape ∈ shapes, shape.Ordered
  | [], shapes, _, h => by
    unfold decodeShapes at h
    cases h
    exact nofun
  | v :: rest, shapes, hitems, h => by
    unfold decodeShapes at h
    obtain ⟨shape, hshape, h⟩ := exists_ok_of_bind h
    obtain ⟨more, hmore, h⟩ := exists_ok_of_bind h
    cases h
    obtain ⟨hv, hrest⟩ := List.forall_mem_cons.mp hitems
    exact List.forall_mem_cons.mpr
      ⟨FieldShape.decode_ordered v hv hshape, decodeShapes_ordered rest hrest hmore⟩

theorem decodeRules_ordered : (fields : List (String × Json)) → ∀ {rules},
    (∀ entry ∈ fields, entry.2.Ordered) → decodeRules fields = .ok rules →
      Table.keys rules = Table.keys fields ∧ ∀ entry ∈ rules, entry.2.shape.Ordered
  | [], rules, _, h => by
    unfold decodeRules at h
    cases h
    exact ⟨rfl, nofun⟩
  | (name, v) :: rest, rules, hentries, h => by
    unfold decodeRules at h
    obtain ⟨rule, hrule, h⟩ := exists_ok_of_bind h
    obtain ⟨more, hmore, h⟩ := exists_ok_of_bind h
    cases h
    obtain ⟨hv, hrest⟩ := List.forall_mem_cons.mp hentries
    obtain ⟨hkeys, hall⟩ := decodeRules_ordered rest hrest hmore
    exact ⟨congrArg (name :: ·) hkeys,
      List.forall_mem_cons.mpr ⟨FieldRule.decode_ordered v hv hrule, hall⟩⟩

theorem FieldRule.decode_ordered : (v : Json) → ∀ {rule}, v.Ordered →
    FieldRule.decode v = .ok rule → rule.shape.Ordered
  | .obj fields, rule, .obj _ hentries, h => by
    unfold FieldRule.decode at h
    exact decodeRuleFields_ordered fields hentries .unspecified h
  | .arr items, rule, .arr hitems, h => by
    unfold FieldRule.decode at h
    obtain ⟨_, hrule, h⟩ := exists_ok_of_bind h
    obtain ⟨_, -, h⟩ := exists_ok_of_bind h
    cases h
    exact decodeRuleItems_ordered _ items hitems .unspecified hrule
  | .null, rule, _, h => by cases h
  | .bool _, rule, _, h => by cases h
  | .num _, rule, _, h => by cases h
  | .str _, rule, _, h => by cases h

theorem decodeRuleFields_ordered : (fields : List (String × Json)) → ∀ {rule rule'},
    (∀ entry ∈ fields, entry.2.Ordered) → rule.shape.Ordered →
    decodeRuleFields fields rule = .ok rule' → rule'.shape.Ordered
  | [], rule, rule', _, hrule, h => by
    unfold decodeRuleFields at h
    cases h
    exact hrule
  | (name, v) :: rest, rule, rule', hentries, hrule, h => by
    obtain ⟨hv, hrest⟩ := List.forall_mem_cons.mp hentries
    unfold decodeRuleFields at h
    split at h
    · obtain ⟨_, -, h⟩ := exists_ok_of_bind h
      refine decodeRuleFields_ordered rest hrest ?_ h
      exact hrule
    · obtain ⟨_, -, h⟩ := exists_ok_of_bind h
      refine decodeRuleFields_ordered rest hrest ?_ h
      exact hrule
    · obtain ⟨shape, hshape, h⟩ := exists_ok_of_bind h
      exact decodeRuleFields_ordered rest hrest (FieldShape.decode_ordered v hv hshape) h
    · exact decodeRuleFields_ordered rest hrest hrule h

theorem decodeRuleItems_ordered : (names : List String) → (items : List Json) → ∀ {rule rule'},
    (∀ item ∈ items, item.Ordered) → rule.shape.Ordered →
    decodeRuleItems names items rule = .ok rule' → rule'.shape.Ordered
  | name :: names, v :: rest, rule, rule', hitems, hrule, h => by
    obtain ⟨hv, hrest⟩ := List.forall_mem_cons.mp hitems
    unfold decodeRuleItems at h
    split at h
    · obtain ⟨_, -, h⟩ := exists_ok_of_bind h
      refine decodeRuleItems_ordered names rest hrest ?_ h
      exact hrule
    · obtain ⟨_, -, h⟩ := exists_ok_of_bind h
      refine decodeRuleItems_ordered names rest hrest ?_ h
      exact hrule
    · obtain ⟨shape, hshape, h⟩ := exists_ok_of_bind h
      exact decodeRuleItems_ordered names rest hrest (FieldShape.decode_ordered v hv hshape) h
  | [], items, rule, rule', _, hrule, h => by
    unfold decodeRuleItems at h
    cases h
    exact hrule
  | _ :: _, [], rule, rule', _, hrule, h => by
    unfold decodeRuleItems at h
    cases h
    exact hrule

end

theorem TypeFields.decode_ordered {v : Json} {fields : TypeFields} (hv : v.Ordered)
    (h : TypeFields.decode v = .ok fields) : (FieldShape.inline fields).Ordered := by
  cases hv with
  | obj hordered hentries =>
    obtain ⟨hkeys, hall⟩ := decodeRules_ordered _ hentries h
    exact .inline (hkeys ▸ hordered : (Table.keys fields).Pairwise (· < ·)) hall
  | _ => cases h

end Declared

/-- What one step of a fold preserves, the whole fold preserves. -/
theorem foldlM_preserves {ε α β : Type} {f : β → α → Except ε β} {P : β → Prop} {Q : α → Prop}
    (hstep : ∀ b a next, P b → Q a → f b a = .ok next → P next) {items : List α} {b last : β}
    (hb : P b) (hitems : ∀ a ∈ items, Q a) (h : items.foldlM f b = .ok last) : P last := by
  induction items generalizing b with
  | nil =>
    cases h
    exact hb
  | cons a rest ih =>
    obtain ⟨next, hnext, h⟩ := exists_ok_of_bind h
    obtain ⟨ha, hrest⟩ := List.forall_mem_cons.mp hitems
    exact ih (hstep b a next hb ha hnext) hrest h

namespace Document

theorem readDefinitions_ordered {schemas : List (String × Json)}
    {definitions : List (TypeName × Definition)} (hschemas : ∀ entry ∈ schemas, entry.2.Ordered)
    (h : readDefinitions schemas = .ok definitions) (name : TypeName) (d : Definition)
    (hd : Table.get? name definitions = some d) : d.Ordered := by
  refine foldlM_preserves (P := fun table => ∀ name d, Table.get? name table = some d → d.Ordered)
    (Q := fun entry : String × Json => entry.2.Ordered) ?_ nofun hschemas h name d hd
  rintro table ⟨key, raw⟩ next htable hraw hnext name d hd
  dsimp only at hraw hnext
  split at hnext
  · cases hnext
  · split at hnext
    · cases hnext
    · next e he =>
      cases hnext
      rw [Table.get?_insert] at hd
      split at hd
      · cases hd
        exact Definition.decode_ordered raw hraw he
      · exact htable name d hd

theorem rawSchemas_ordered {root schemas : List (String × Json)} (hroot : (Json.obj root).Ordered)
    (h : rawSchemas root = .ok schemas) : (Json.obj schemas).Ordered := by
  unfold rawSchemas at h
  split at h
  · next hschemas =>
    cases h
    obtain ⟨components, hcomponents, hget⟩ := Option.bind_eq_some_iff.mp hschemas
    have hordered := hroot.get? hcomponents
    cases components with
    | obj fields => exact hordered.get? hget
    | _ => cases hget
  · cases h
  · cases h
    exact Json.obj_nil_ordered

/-- All definitions of a document that is read from a value in order are in order. -/
theorem ofJson_ordered {v : Json} {doc : Document} (hv : v.Ordered) (h : ofJson v = .ok doc)
    (name : TypeName) (d : Definition) (hd : doc.definition? name = some d) : d.Ordered := by
  unfold ofJson at h
  split at h
  · next root =>
    split at h
    · obtain ⟨schemas, hschemas, h⟩ := exists_ok_of_bind h
      obtain ⟨definitions, hdefinitions, h⟩ := exists_ok_of_bind h
      have hdoc : doc.definitions = definitions := by
        dsimp only at h
        split at h
        · obtain ⟨operations, -, h⟩ := exists_ok_of_bind h
          cases h
          rfl
        · cases h
          rfl
      unfold definition? at hd
      rw [hdoc] at hd
      cases rawSchemas_ordered hv hschemas with
      | obj _ hentries => exact readDefinitions_ordered hentries hdefinitions name d hd
    · obtain ⟨definitions, hdefinitions, h⟩ := exists_ok_of_bind h
      cases h
      cases hv with
      | obj _ hentries => exact readDefinitions_ordered hentries hdefinitions name d hd
  · cases h

end Document

/-- The declared fields of a table that is read from a value in order are in order. -/
theorem FieldTable.ofJson_ordered {v : Json} {table : FieldTable} (hv : v.Ordered)
    (h : FieldTable.ofJson v = .ok table) (name : TypeName) (fields : TypeFields)
    (hfields : table.fields? name = some fields) : (FieldShape.inline fields).Ordered := by
  unfold ofJson at h
  split at h
  · next root =>
    have hroot : ∀ entry ∈ root, entry.2.Ordered := by
      cases hv with
      | obj _ hentries => exact hentries
    have hempty : ∀ name fields, FieldTable.empty.fields? name = some fields →
        (FieldShape.inline fields).Ordered := by
      intro name fields hfields
      cases hfields
    refine foldlM_preserves (P := fun table : FieldTable => ∀ name fields,
        table.fields? name = some fields → (FieldShape.inline fields).Ordered)
      (Q := fun entry : String × Json => entry.2.Ordered) ?_ hempty hroot h name fields hfields
    rintro table ⟨key, raw⟩ next htable hraw hnext name fields hfields
    dsimp only at hraw hnext
    split at hnext
    · cases hnext
    · split at hnext
      · cases hnext
      · next declared hdeclared =>
        cases hnext
        unfold FieldTable.fields? declare at hfields
        rw [Table.get?_insert] at hfields
        split at hfields
        · cases hfields
          exact TypeFields.decode_ordered hraw hdeclared
        · exact htable name fields hfields
  · cases h

end Conform
