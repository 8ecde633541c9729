import Conform.CommandLine
import Conform.Proofs.Reading
import Conform.Proofs.Responding

/-!
# What is loaded is in order

Texts of files are JSON or YAML, and the objects of both come in order. So are
the tables of every store that a program loads, the schemas of its operations
and the value that a command validates: what is shown of values and stores in
order holds of all that is read from files.
-/

namespace Conform

namespace Json

mutual

/-- Whether every object in the value has its keys in order. -/
def isOrdered : Json → Bool
  | arr items => areOrdered items
  | obj fields => decide ((Table.keys fields).Pairwise (· < ·)) && fieldsOrdered fields
  | _ => true

def areOrdered : List Json → Bool
  | [] => true
  | v :: rest => v.isOrdered && areOrdered rest

def fieldsOrdered : List (String × Json) → Bool
  | [] => true
  | (_, v) :: rest => v.isOrdered && fieldsOrdered rest

end

mutual

theorem ordered_of_isOrdered : (v : Json) → v.isOrdered = true → v.Ordered
  | null, _ => .null
  | bool b, _ => .bool b
  | num n, _ => .num n
  | str text, _ => .str text
  | arr items, h => .arr (ordered_of_areOrdered items h)
  | obj fields, h => by
    obtain ⟨hkeys, hfields⟩ := (Bool.and_eq_true _ _).mp h
    exact .obj (of_decide_eq_true hkeys) (ordered_of_fieldsOrdered fields hfields)

theorem ordered_of_areOrdered : (items : List Json) → areOrdered items = true →
    ∀ item ∈ items, item.Ordered
  | [], _ => List.forall_mem_nil _
  | v :: rest, h => by
    obtain ⟨hv, hrest⟩ := (Bool.and_eq_true _ _).mp h
    exact List.forall_mem_cons.mpr ⟨ordered_of_isOrdered v hv, ordered_of_areOrdered rest hrest⟩

theorem ordered_of_fieldsOrdered : (fields : List (String × Json)) →
    fieldsOrdered fields = true → ∀ entry ∈ fields, entry.2.Ordered
  | [], _ => List.forall_mem_nil _
  | (key, v) :: rest, h => by
    obtain ⟨hv, hrest⟩ := (Bool.and_eq_true _ _).mp h
    exact List.forall_mem_cons.mpr
      ⟨ordered_of_isOrdered v hv, ordered_of_fieldsOrdered rest hrest⟩

end

end Json

theorem Json.object_ordered {fields : List (String × Json)}
    (h : ∀ entry ∈ fields, entry.2.Ordered) : (Json.object fields).Ordered := by
  refine .obj (Table.ordered_ofList fields) fun entry hentry => ?_
  exact h entry (Table.mem_of_get?_ofList ((Table.ordered_ofList fields).get?_of_mem hentry))

theorem Json.Ordered.fields? {v : Json} {fields : List (String × Json)} (h : v.Ordered)
    (hfields : v.fields? = some fields) : (Json.obj fields).Ordered := by
  cases v <;> cases hfields
  exact h

theorem Json.Ordered.member {v w : Json} {key : String} (h : v.Ordered)
    (hget : v.get? key = some w) : w.Ordered := by
  cases v with
  | obj fields => exact Json.Ordered.get? h hget
  | _ => cases hget

namespace Yaml

variable {text tag : String} {v : Json}

theorem ofInteger?_ordered {n : Int} (h : ofInteger? n = some v) : v.Ordered := by
  unfold ofInteger? at h
  split at h
  · cases h
    exact .num _
  · cases h

theorem floatOrText_ordered (text : String) : (floatOrText text).Ordered := by
  unfold floatOrText
  dsimp only
  split_ifs
  · exact .null
  · exact .null
  · exact .str text
  · split
    · exact .num _
    · exact .str text

theorem plainValue?_ordered (h : plainValue? text = some v) : v.Ordered := by
  unfold plainValue? at h
  split at h
  · cases h
    exact .null
  · split at h
    · cases h
      exact .bool _
    · split at h
      · split at h
        · exact ofInteger?_ordered h
        · cases h
          exact floatOrText_ordered text
      · cases h
        exact floatOrText_ordered text

theorem taggedValue?_ordered (h : taggedValue? tag text = some v) : v.Ordered := by
  unfold taggedValue? at h
  split at h
  · obtain ⟨b, -, rfl⟩ := Option.map_eq_some_iff.mp h
    exact .bool b
  split at h
  · obtain ⟨n, -, hn⟩ := Option.bind_eq_some_iff.mp h
    exact ofInteger?_ordered hn
  split at h
  · have hfloat := floatOrText_ordered text
    split at h
    · cases h
    · cases h
      exact hfloat
  split at h
  · split at h
    · cases h
      exact .null
    · cases h
  split at h
  · cases h
  · cases h
    exact .str text

namespace Node

mutual

theorem value?_ordered : (n : Node) → ∀ {v}, n.value? = some v → v.Ordered
  | scalar text _ (some tag), v, h => by
    rw [value?] at h
    exact taggedValue?_ordered h
  | scalar text plain none, v, h => by
    rw [value?] at h
    split at h
    · exact plainValue?_ordered h
    · cases h
      exact .str text
  | list items tag, v, h => by
    rw [value?] at h
    split at h
    · cases h
    · obtain ⟨vs, hvs, h⟩ := Option.bind_eq_some_iff.mp h
      cases h
      exact .arr (valueList?_ordered items hvs)
  | table entries tag, v, h => by
    rw [value?] at h
    split at h
    · cases h
    · obtain ⟨fields, hfields, h⟩ := Option.bind_eq_some_iff.mp h
      cases h
      exact Json.object_ordered (valueTable?_ordered entries hfields)
  | link target _, v, h => by
    rw [value?] at h
    exact value?_ordered target h

theorem valueList?_ordered : (items : List Node) → ∀ {vs}, valueList? items = some vs →
    ∀ v ∈ vs, v.Ordered
  | [], vs, h => by
    cases h
    exact List.forall_mem_nil _
  | n :: rest, vs, h => by
    obtain ⟨v, hv, h⟩ := Option.bind_eq_some_iff.mp h
    obtain ⟨more, hmore, h⟩ := Option.bind_eq_some_iff.mp h
    cases h
    exact List.forall_mem_cons.mpr ⟨value?_ordered n hv, valueList?_ordered rest hmore⟩

theorem valueTable?_ordered : (entries : List (Node × Node)) → ∀ {fields},
    valueTable? entries = some fields → ∀ entry ∈ fields, entry.2.Ordered
  | [], fields, h => by
    cases h
    exact List.forall_mem_nil _
  | (key, n) :: rest, fields, h => by
    obtain ⟨text, -, h⟩ := Option.bind_eq_some_iff.mp h
    obtain ⟨v, hv, h⟩ := Option.bind_eq_some_iff.mp h
    obtain ⟨more, hmore, h⟩ := Option.bind_eq_some_iff.mp h
    cases h
    exact List.forall_mem_cons.mpr ⟨value?_ordered n hv, valueTable?_ordered rest hmore⟩

end

end Node

theorem read?_ordered (h : read? text = some v) : v.Ordered := by
  unfold read? at h
  obtain ⟨places, -, h⟩ := Option.bind_eq_some_iff.mp h
  obtain ⟨tokens, -, h⟩ := Option.bind_eq_some_iff.mp h
  obtain ⟨node, -, h⟩ := Option.bind_eq_some_iff.mp h
  split at h
  · cases h
  · obtain ⟨w, hw, h⟩ := Option.bind_eq_some_iff.mp h
    split at h
    · cases h
      exact node.value?_ordered hw
    · cases h

end Yaml

namespace SourceFormat

variable {format : SourceFormat} {files : ReadFile} {text origin path : String} {v : Json}

theorem read_ordered (h : format.read text origin = .ok v) : v.Ordered := by
  unfold read at h
  cases format with
  | json =>
    dsimp only at h
    split at h
    · next hread =>
      cases h
      exact Json.read?_ordered hread
    · cases h
  | yaml =>
    dsimp only at h
    split at h
    · next hread =>
      cases h
      exact Yaml.read?_ordered hread
    · cases h

/-- The value in a file is in order. -/
theorem load_ordered (h : load files path = .ok v) : v.Ordered := by
  unfold load at h
  split at h
  · cases h
  · exact read_ordered h

end SourceFormat

/-- All that an operation declares is in order. -/
structure Operation.Ordered (operation : Operation) : Prop where
  requestBody : ∀ target ∈ operation.requestBody, target.Ordered
  responses : ∀ entry ∈ operation.responses, entry.2.Ordered

namespace Operations

variable {holder schema operation item : Json} {origin template : String} {target : Target}
  {kept : Operation} {table last : List (OperationKey × Operation)} {ops : Operations}

theorem jsonSchema?_ordered (hholder : holder.Ordered) (h : jsonSchema? holder = some schema) :
    schema.Ordered := by
  obtain ⟨content, hcontent, h⟩ := Option.bind_eq_some_iff.mp h
  obtain ⟨fields, hfields, h⟩ := Option.bind_eq_some_iff.mp h
  obtain ⟨⟨key, media⟩, hmedia, h⟩ := Option.bind_eq_some_iff.mp h
  cases (hholder.member hcontent).fields? hfields with
  | obj _ hentries => exact (hentries _ (List.mem_of_find?_eq_some hmedia)).member h

theorem readTarget_ordered (hschema : schema.Ordered) (h : readTarget origin schema = .ok target) :
    target.Ordered := by
  obtain ⟨d, hd, rfl⟩ := readTarget_ok h
  have hordered := Definition.decode_ordered schema hschema hd
  unfold Target.ofDefinition
  split
  · split
    · trivial
    · exact hordered
  · exact hordered

theorem readOperation_ordered (hoperation : operation.Ordered)
    (h : readOperation origin operation = .ok kept) : kept.Ordered := by
  unfold readOperation at h
  obtain ⟨body, hbody, h⟩ := exists_ok_of_bind h
  obtain ⟨responses, hresponses, h⟩ := exists_ok_of_bind h
  cases h
  constructor
  · rintro target rfl
    cases hschema : (operation.get? "requestBody").bind jsonSchema? with
    | none =>
      rw [hschema] at hbody
      cases hbody
    | some schema =>
      rw [hschema, Option.mapM_some] at hbody
      obtain ⟨read, hread, hbody⟩ := exists_ok_of_bind hbody
      cases hbody
      obtain ⟨holder, hholder, hschema⟩ := Option.bind_eq_some_iff.mp hschema
      exact readTarget_ordered (jsonSchema?_ordered (hoperation.member hholder) hschema) hread
  · have hdeclared : ∀ entry ∈ ((operation.get? "responses").bind Json.fields?).getD [],
        entry.2.Ordered := by
      cases hfields : (operation.get? "responses").bind Json.fields? with
      | none => exact List.forall_mem_nil _
      | some fields =>
        obtain ⟨holder, hholder, hfields⟩ := Option.bind_eq_some_iff.mp hfields
        cases (hoperation.member hholder).fields? hfields with
        | obj _ hentries => exact hentries
    refine foldlM_preserves (P := fun table : List (String × Target) =>
      ∀ entry ∈ table, entry.2.Ordered) ?_ (List.forall_mem_nil _) hdeclared hresponses
    rintro table ⟨status, response⟩ next htable hresponse hnext
    dsimp only at hresponse hnext
    split at hnext
    · next schema hschema =>
      obtain ⟨target, htarget, hnext⟩ := exists_ok_of_bind hnext
      cases hnext
      intro entry hentry
      rcases Table.mem_insert hentry with rfl | hentry
      · exact readTarget_ordered (jsonSchema?_ordered hresponse hschema) htarget
      · exact htable entry hentry
    · cases hnext
      exact htable

theorem readPath_ordered (hitem : item.Ordered) (htable : ∀ entry ∈ table, entry.2.Ordered)
    (h : readPath template item table = .ok last) : ∀ entry ∈ last, entry.2.Ordered := by
  refine foldlM_preserves (P := fun table : List (OperationKey × Operation) =>
    ∀ entry ∈ table, entry.2.Ordered) (Q := fun _ => True) ?_ htable (fun _ _ => trivial) h
  intro table method next htable _ hnext
  dsimp only at hnext
  split at hnext
  · next operation hoperation =>
    obtain ⟨kept, hkept, hnext⟩ := exists_ok_of_bind hnext
    cases hnext
    intro entry hentry
    rcases Table.mem_insert hentry with rfl | hentry
    · exact readOperation_ordered (hitem.member hoperation) hkept
    · exact htable entry hentry
  · cases hnext
    exact htable

/-- The operations of a value in order declare nothing but schemas in order. -/
theorem ofPaths_ordered {v : Json} (hv : v.Ordered) (h : ofPaths v = .ok ops) :
    ∀ entry ∈ ops.targets, entry.2.Ordered := by
  unfold ofPaths at h
  split at h
  · next paths =>
    obtain ⟨entries, hentries, h⟩ := exists_ok_of_bind h
    cases h
    have hpaths : ∀ entry ∈ paths, entry.2.Ordered := by
      cases hv with
      | obj _ hpaths => exact hpaths
    have hkept : ∀ entry ∈ entries, entry.2.Ordered :=
      foldlM_preserves (P := fun table : List (OperationKey × Operation) =>
          ∀ entry ∈ table, entry.2.Ordered)
        (fun table entry next htable hitem hnext => readPath_ordered hitem htable hnext)
        (List.forall_mem_nil _) hpaths hentries
    rintro ⟨label, target⟩ htarget
    obtain ⟨⟨key, operation⟩, hmem, htarget⟩ := List.mem_flatMap.mp htarget
    rcases List.mem_append.mp htarget with hbody | hresponse
    · obtain ⟨body, hbody, heq⟩ := Option.map_eq_some_iff.mp (Option.mem_toList.mp hbody)
      cases heq
      exact (hkept _ hmem).requestBody _ hbody
    · obtain ⟨entry, hentry, heq⟩ := List.mem_map.mp hresponse
      cases heq
      exact (hkept _ hmem).responses entry hentry
  · cases h

end Operations

section Loaded

variable {files : ReadFile} {path : String} {v : Json} {doc : Document} {table : FieldTable}
  {store : Store}

/-- All that a document defines or declares is in order. -/
structure Document.Ordered (doc : Document) : Prop where
  definition : ∀ name d, doc.definition? name = some d → d.Ordered
  targets : ∀ entry ∈ doc.operations.targets, entry.2.Ordered

/-- All fields that a table declares are in order. -/
def FieldTable.Ordered (table : FieldTable) : Prop :=
  ∀ name fields, table.fields? name = some fields → (FieldShape.inline fields).Ordered

theorem Document.ordered_of_ofJson (hv : v.Ordered) (h : ofJson v = .ok doc) : doc.Ordered where
  definition := ofJson_ordered hv h
  targets := by
    unfold ofJson at h
    split at h
    · next root =>
      split at h
      · obtain ⟨schemas, -, h⟩ := exists_ok_of_bind h
        obtain ⟨definitions, -, h⟩ := exists_ok_of_bind h
        dsimp only at h
        split at h
        · next paths hpaths =>
          obtain ⟨operations, hoperations, h⟩ := exists_ok_of_bind h
          cases h
          exact Operations.ofPaths_ordered (hv.get? hpaths) hoperations
        · cases h
          exact List.forall_mem_nil _
      · obtain ⟨definitions, -, h⟩ := exists_ok_of_bind h
        cases h
        exact List.forall_mem_nil _
    · cases h

theorem Document.load_ordered (h : Document.load files path = .ok doc) : doc.Ordered := by
  obtain ⟨v, hv, h⟩ := exists_ok_of_bind h
  exact Document.ordered_of_ofJson (SourceFormat.load_ordered hv) h

theorem FieldTable.load_ordered (h : FieldTable.load files path = .ok table) : table.Ordered := by
  obtain ⟨v, hv, h⟩ := exists_ok_of_bind h
  exact FieldTable.ofJson_ordered (SourceFormat.load_ordered hv) h

theorem FieldTable.empty_ordered : FieldTable.empty.Ordered := nofun

theorem ok_of_mapError {ε ε' α : Type} {tell : ε → ε'} {x : Except ε α} {a : α}
    (h : x.mapError tell = .ok a) : x = .ok a := by
  cases x with
  | error e => cases h
  | ok b =>
    cases h
    rfl

/-- A store is well read if its tables are in order, and so is all that its operations declare. -/
structure Store.WellRead (s : Store) : Prop where
  ordered : s.Ordered
  targets : ∀ entry ∈ s.document.operations.targets, entry.2.Ordered

theorem Store.WellRead.of_parts (hdoc : doc.Ordered) (htable : table.Ordered)
    (exclusions : Exclusions) : Store.WellRead ⟨doc, table, exclusions⟩ where
  ordered := ⟨hdoc.definition, htable⟩
  targets := hdoc.targets

/-- The description itself is in order. -/
theorem Description.document_ordered : document.Ordered :=
  Json.ordered_of_isOrdered _ (by decide +kernel)

theorem Startup.loadDocument_ordered {config : Config} {exclusions : Exclusions}
    (h : loadDocument files config = .ok (doc, exclusions)) : doc.Ordered := by
  unfold loadDocument at h
  split at h
  · obtain ⟨loaded, hloaded, h⟩ := exists_ok_of_bind h
    cases h
    exact Document.load_ordered (ok_of_mapError hloaded)
  · obtain ⟨exclusions, -, h⟩ := exists_ok_of_bind h
    obtain ⟨loaded, hloaded, h⟩ := exists_ok_of_bind h
    cases h
    exact Document.ordered_of_ofJson Description.document_ordered (ok_of_mapError hloaded)

/-- Every store that the service starts with is well read. -/
theorem Startup.loadStore_wellRead {config : Config} (h : loadStore files config = .ok store) :
    store.WellRead := by
  obtain ⟨⟨doc, excluded⟩, hdocument, h⟩ := exists_ok_of_bind h
  have hdoc := loadDocument_ordered hdocument
  dsimp only at h
  split at h
  · obtain ⟨table, htable, h⟩ := exists_ok_of_bind h
    obtain ⟨exclusions, -, h⟩ := exists_ok_of_bind h
    cases h
    exact .of_parts hdoc (FieldTable.load_ordered (ok_of_mapError htable)) exclusions
  · obtain ⟨table, htable, h⟩ := exists_ok_of_bind h
    obtain ⟨exclusions, -, h⟩ := exists_ok_of_bind h
    cases htable
    cases h
    exact .of_parts hdoc FieldTable.empty_ordered exclusions

namespace CommandLine

/-- Every store that a command loads is well read. -/
theorem Inputs.loadStore_wellRead {inputs : Inputs} (h : inputs.loadStore files = .ok store) :
    store.WellRead := by
  obtain ⟨doc, hdocument, h⟩ := exists_ok_of_bind h
  have hdoc := Document.load_ordered (ok_of_mapError hdocument)
  dsimp only at h
  split at h
  · obtain ⟨table, htable, h⟩ := exists_ok_of_bind h
    obtain ⟨names, -, h⟩ := exists_ok_of_bind h
    cases h
    exact .of_parts hdoc (FieldTable.load_ordered (ok_of_mapError htable)) _
  · obtain ⟨table, htable, h⟩ := exists_ok_of_bind h
    obtain ⟨names, -, h⟩ := exists_ok_of_bind h
    cases htable
    cases h
    exact .of_parts hdoc FieldTable.empty_ordered _

/-- The value that a command validates is in order. -/
theorem loadValue_ordered (h : loadValue files path = .ok v) : v.Ordered := by
  unfold loadValue at h
  split at h
  · cases h
  · exact SourceFormat.read_ordered (ok_of_mapError h)

end CommandLine

end Loaded

end Conform
