import Conform.Proofs.Simulation
import Conform.Proofs.Table
import Conform.Schema.Operations

/-!
# The response that decides

A status is looked for under its own key, then under that of its range, then
under the default. Only responses with a JSON schema are kept for that, and a
schema is taken from the first JSON media type alone. So a status whose response
is declared without such a schema falls through to a less specific response.
-/

namespace Conform

namespace Operations

/-- The operation declared for a method, in any case, and a template. -/
def declaredAt? (paths : List (String × Json)) (method template : String) : Option Json :=
  if Text.lowerAscii method ∈ methods then
    (Table.get? template paths).bind fun item => item.get? (Text.lowerAscii method)
  else none

/-- The responses of an operation under the keys they are declared with. -/
def responsesOf (operation : Json) : List (String × Json) :=
  ((operation.get? "responses").bind Json.fields?).getD []

/-- The responses declared for a method and a template, none without an operation. -/
def responsesAt (paths : List (String × Json)) (method template : String) : List (String × Json) :=
  ((declaredAt? paths method template).map responsesOf).getD []

/-- The keys of a status in upper case, the most specific first. -/
def statusKeys (status : Nat) : List String :=
  [toString status, toString (status / 100) ++ "XX", "DEFAULT"]

/-- The responses under a key, in any case. -/
def under (key : String) (responses : List (String × Json)) : List Json :=
  (responses.filter fun entry => Text.upperAscii entry.1 = key).map Prod.snd

/-- The schemas of those JSON media types of a response that have one. -/
def schemas (response : Json) : List Json :=
  (((response.get? "content").bind Json.fields?).getD []).filterMap fun entry =>
    if MediaType.saysJson entry.1 then entry.2.get? "schema" else none

/-- The responses under the most specific key that has any. -/
def specific (responses : List (String × Json)) : List String → List Json
  | [] => []
  | key :: keys =>
    if under key responses = [] then specific responses keys else under key responses

/-- A response declares the target of one of its JSON schemas, or none if it has no such schema. -/
inductive Declares (response : Json) : Option Target → Prop
  | target {schema : Json} {d : Definition} : schema ∈ schemas response →
      Definition.decode schema = .ok d → Declares response (some (Target.ofDefinition d))
  | nothing : schemas response = [] → Declares response none

/-- The answer is what a most specific response declares. Where none is declared there is none. -/
inductive DecidedBySpecific (responses : List (String × Json)) (keys : List String) :
    Option Target → Prop
  | declared {response : Json} {answer : Option Target} : response ∈ specific responses keys →
      Declares response answer → DecidedBySpecific responses keys answer
  | undeclared : specific responses keys = [] → DecidedBySpecific responses keys none

/-- The target of the first JSON media type of a response. -/
def targetOf? (response : Json) : Option Target :=
  (jsonSchema? response).bind fun schema =>
    (Definition.decode schema).toOption.map Target.ofDefinition

/-- What is kept under a key; of several responses the last that has a target. -/
def kept? (responses : List (String × Json)) (key : String) : Option Target :=
  (under key responses).reverse.findSome? targetOf?

/-- What is kept under the keys behind the most specific one that has any responses. -/
def lesser? (responses : List (String × Json)) : List String → Option Target
  | [] => none
  | key :: keys =>
    if under key responses = [] then lesser? responses keys else keys.findSome? (kept? responses)

/--
A most specific response has a schema at its first JSON media type, or declares just what is found
without it.
-/
def Settles (responses : List (String × Json)) (keys : List String) : Prop :=
  specific responses keys = [] ∨ (∃ response ∈ specific responses keys, jsonSchema? response ≠ none) ∨
    ∃ response ∈ specific responses keys, Declares response (lesser? responses keys)

/-- The schemas at the first JSON media types can be read. -/
def Readable (responses : List (String × Json)) : Prop :=
  ∀ entry ∈ responses, ∀ schema, jsonSchema? entry.2 = some schema →
    ∃ d, Definition.decode schema = .ok d

section Folds

variable {ε α κ β : Type} {items : List α} {f : List (κ × β) → α → Except ε (List (κ × β))}
  {table last : List (κ × β)}

/-- If a step writes its own value under a key or leaves the key alone, the last value written stays. -/
theorem get?_of_foldlM [DecidableEq κ] {key : κ} {own : α → Option β}
    (hstep : ∀ a ∈ items, ∀ before after, f before a = .ok after →
      Table.get? key after = (own a).or (Table.get? key before))
    (h : items.foldlM f table = .ok last) :
    Table.get? key last = (items.reverse.findSome? own).or (Table.get? key table) := by
  induction items generalizing table with
  | nil =>
    cases h
    rfl
  | cons a rest ih =>
    rw [List.foldlM_cons] at h
    obtain ⟨next, hfirst, hrest⟩ := exists_ok_of_bind h
    obtain ⟨hown, hothers⟩ := List.forall_mem_cons.mp hstep
    rw [ih hothers hrest, hown _ _ hfirst, List.reverse_cons, List.findSome?_append,
      List.findSome?_singleton, Option.or_assoc]

/-- Of distinct keys only one entry is found under a key, from whichever end. -/
theorem findSome?_reverse_of_nodup [DecidableEq κ] {γ : Type} {entries : List (κ × β)}
    (h : (Table.keys entries).Nodup) (key : κ) (g : β → Option γ) :
    entries.reverse.findSome? (fun entry => if entry.1 = key then g entry.2 else none) =
      (Table.get? key entries).bind g := by
  induction entries with
  | nil => rfl
  | cons entry rest ih =>
    obtain ⟨hfresh, hrest⟩ := List.nodup_cons.mp h
    rw [List.reverse_cons, List.findSome?_append, ih hrest, List.findSome?_singleton,
      Table.get?_cons]
    split
    · next heq =>
      rw [Table.get?_eq_none_iff.mpr (heq ▸ hfresh)]
      rfl
    · exact Option.or_none

end Folds

section Reading

variable {responses : List (String × Json)} {operation item response schema : Json}
  {origin template : String} {target : Target} {kept : Operation}

theorem readTarget_ok (h : readTarget origin schema = .ok target) :
    ∃ d, Definition.decode schema = .ok d ∧ target = Target.ofDefinition d := by
  unfold readTarget at h
  split at h
  · next d hd =>
    cases h
    exact ⟨d, hd, rfl⟩
  · cases h

theorem targetOf?_of_readTarget (hschema : jsonSchema? response = some schema)
    (h : readTarget origin schema = .ok target) : targetOf? response = some target := by
  obtain ⟨d, hd, rfl⟩ := readTarget_ok h
  unfold targetOf?
  rw [hschema, Option.bind_some, hd]
  rfl

/-- The last of the responses under a key, said of all responses. -/
theorem kept?_eq (responses : List (String × Json)) (key : String) : kept? responses key =
    responses.reverse.findSome? fun entry =>
      if Text.upperAscii entry.1 = key then targetOf? entry.2 else none := by
  unfold kept? under
  induction responses with
  | nil => rfl
  | cons entry rest ih =>
    rw [List.reverse_cons, List.findSome?_append, ← ih, List.findSome?_singleton, List.filter_cons]
    by_cases hkey : Text.upperAscii entry.1 = key
    · rw [if_pos (decide_eq_true hkey), if_pos hkey, List.map_cons, List.reverse_cons,
        List.findSome?_append, List.findSome?_singleton]
    · rw [if_neg (by simpa using hkey), if_neg hkey, Option.or_none]

/-- What is kept of an operation are the targets of its responses, all of which can be read. -/
theorem readOperation_ok (h : readOperation origin operation = .ok kept) :
    Readable (responsesOf operation) ∧
      ∀ key, Table.get? key kept.responses = kept? (responsesOf operation) key := by
  unfold readOperation at h
  obtain ⟨body, -, h⟩ := exists_ok_of_bind h
  obtain ⟨table, hfold, h⟩ := exists_ok_of_bind h
  cases h
  constructor
  · rintro ⟨status, response⟩ hentry schema hschema
    obtain ⟨before, after, hstep⟩ := exists_step_of_foldlM hfold _ hentry
    dsimp only at hstep hschema
    rw [hschema] at hstep
    obtain ⟨target, htarget, -⟩ := exists_ok_of_bind hstep
    obtain ⟨d, hd, -⟩ := readTarget_ok htarget
    exact ⟨d, hd⟩
  · intro key
    rw [kept?_eq]
    refine (get?_of_foldlM (fun entry _ before after hstep => ?_) hfold).trans Option.or_none
    obtain ⟨status, response⟩ := entry
    dsimp only at hstep ⊢
    cases hschema : jsonSchema? response with
    | none =>
      rw [hschema] at hstep
      cases hstep
      simp [targetOf?, hschema]
    | some schema =>
      rw [hschema] at hstep
      obtain ⟨target, htarget, hstep⟩ := exists_ok_of_bind hstep
      cases hstep
      rw [Table.get?_insert, targetOf?_of_readTarget hschema htarget]
      simp only [eq_comm (a := key)]
      split <;> rfl

end Reading

section Indexing

variable {paths : List (String × Json)} {item operation : Json} {template method : String}
  {table last : List (OperationKey × Operation)} {ops : Operations} {key : OperationKey}

/-- What is kept of an operation under the key it is declared for. -/
def keptAt? (key : OperationKey) (item : Json) : Option Operation :=
  (item.get? key.method).bind fun operation => (readOperation key.label operation).toOption

theorem findSome?_methods (key : OperationKey) (template : String) (found : Option Operation)
    (names : List String) :
    names.findSome? (fun method => if (⟨method, template⟩ : OperationKey) = key then found else none) =
      if template = key.template ∧ key.method ∈ names then found else none := by
  obtain ⟨method, place⟩ := key
  induction names with
  | nil => simp
  | cons name rest ih =>
    rw [List.findSome?_cons, ih]
    by_cases hplace : template = place <;> by_cases hname : name = method <;>
      cases found <;> simp [hplace, hname, eq_comm (a := method)]

theorem readPath_step {before after : List (OperationKey × Operation)}
    (h : (match item.get? method with
      | some operation =>
        let key : OperationKey := ⟨method, template⟩
        do .ok (Table.insert key (← readOperation key.label operation) before)
      | none => .ok before) = Except.ok after) :
    (∀ operation, item.get? method = some operation →
      ∃ kept, readOperation (OperationKey.label ⟨method, template⟩) operation = .ok kept) ∧
    ∀ key, Table.get? key after =
      (if (⟨method, template⟩ : OperationKey) = key then keptAt? key item else none).or
        (Table.get? key before) := by
  cases hitem : item.get? method with
  | none =>
    rw [hitem] at h
    cases h
    refine ⟨nofun, fun key => ?_⟩
    split
    · next hkey =>
      subst hkey
      simp [keptAt?, hitem]
    · rfl
  | some operation =>
    rw [hitem] at h
    obtain ⟨kept, hkept, h⟩ := exists_ok_of_bind h
    cases h
    refine ⟨?_, fun key => ?_⟩
    · rintro _ ⟨⟩
      exact ⟨kept, hkept⟩
    · rw [Table.get?_insert]
      simp only [eq_comm (a := key)]
      split
      · next hkey =>
        subst hkey
        simp [keptAt?, hitem, hkept, Except.toOption]
      · rfl

theorem get?_readPath (h : readPath template item table = .ok last) :
    Table.get? key last = (if template = key.template ∧ key.method ∈ methods then
      keptAt? key item else none).or (Table.get? key table) := by
  unfold readPath at h
  have hlast : Table.get? key last = (methods.reverse.findSome? fun method =>
      if (⟨method, template⟩ : OperationKey) = key then keptAt? key item else none).or
        (Table.get? key table) := by
    refine get?_of_foldlM (fun method _ before after hstep => ?_) h
    exact (readPath_step hstep).2 key
  rw [hlast, findSome?_methods]
  simp only [List.mem_reverse]

/-- Every operation that is declared can be read. -/
theorem readOperation_of_readPath {before after : List (OperationKey × Operation)}
    (h : readPath template item before = .ok after) (hmethod : method ∈ methods)
    (hoperation : item.get? method = some operation) :
    ∃ kept, readOperation (OperationKey.label ⟨method, template⟩) operation = .ok kept := by
  unfold readPath at h
  obtain ⟨first, next, hstep⟩ := exists_step_of_foldlM h method hmethod
  exact (readPath_step hstep).1 operation hoperation

/-- An operation is found exactly where it is declared. -/
theorem find?_of_ofPaths (h : ofPaths (.obj paths) = .ok ops) (hkeys : (Table.keys paths).Nodup)
    (method template : String) :
    (declaredAt? paths method template = none ∧ ops.find? method template = none) ∨
      ∃ operation kept, declaredAt? paths method template = some operation ∧
        ops.find? method template = some kept ∧
        readOperation (OperationKey.label ⟨Text.lowerAscii method, template⟩) operation =
          .ok kept := by
  obtain ⟨table, hfold, hops⟩ := exists_ok_of_bind h
  cases hops
  have htable : Table.get? ⟨Text.lowerAscii method, template⟩ table =
      (paths.reverse.findSome? fun entry => if entry.1 = template ∧ Text.lowerAscii method ∈ methods
        then keptAt? ⟨Text.lowerAscii method, template⟩ entry.2 else none).or none := by
    refine get?_of_foldlM (fun entry _ before after hstep => ?_) hfold
    exact get?_readPath hstep
  have hfind : (Operations.mk table).find? method template =
      Table.get? ⟨Text.lowerAscii method, template⟩ table := rfl
  rw [hfind, htable, Option.or_none]
  unfold declaredAt?
  by_cases hmethod : Text.lowerAscii method ∈ methods
  · simp only [and_iff_left hmethod, if_pos hmethod]
    rw [findSome?_reverse_of_nodup hkeys template (keptAt? ⟨Text.lowerAscii method, template⟩)]
    cases hitem : Table.get? template paths with
    | none => exact .inl ⟨rfl, rfl⟩
    | some item =>
      rw [Option.bind_some, Option.bind_some]
      cases hoperation : item.get? (Text.lowerAscii method) with
      | none => exact .inl ⟨rfl, by simp [keptAt?, hoperation]⟩
      | some operation =>
        obtain ⟨before, after, hstep⟩ := exists_step_of_foldlM hfold _ (Table.mem_of_get? hitem)
        obtain ⟨kept, hkept⟩ := readOperation_of_readPath hstep hmethod hoperation
        exact .inr ⟨operation, kept, rfl, by simp [keptAt?, hoperation, hkept, Except.toOption],
          hkept⟩
  · refine .inl ⟨if_neg hmethod, ?_⟩
    simp [hmethod]

/-- A status has the target that is kept under the most specific of its keys that has one. -/
theorem responseTarget?_eq (h : ofPaths (.obj paths) = .ok ops) (hkeys : (Table.keys paths).Nodup)
    (method template : String) (status : Nat) :
    Readable (responsesAt paths method template) ∧ ops.responseTarget? method template status =
      (statusKeys status).findSome? (kept? (responsesAt paths method template)) := by
  unfold responseTarget? responsesAt
  rcases find?_of_ofPaths h hkeys method template with
    ⟨hdeclared, hfind⟩ | ⟨operation, kept, hdeclared, hfind, hread⟩
  · rw [hdeclared, hfind]
    exact ⟨nofun, rfl⟩
  · rw [hdeclared, hfind]
    obtain ⟨hreadable, hkept⟩ := readOperation_ok hread
    refine ⟨hreadable, ?_⟩
    change (Table.get? _ kept.responses).or
      ((Table.get? _ kept.responses).or (Table.get? _ kept.responses)) = _
    simp only [hkept, statusKeys, Option.map_some, Option.getD_some, List.findSome?_cons,
      List.findSome?_nil]
    cases kept? (responsesOf operation) (toString status) with
    | some target => rfl
    | none => cases kept? (responsesOf operation) (toString (status / 100) ++ "XX") with
      | some target => rfl
      | none => cases kept? (responsesOf operation) "DEFAULT" <;> rfl

end Indexing

section Deciding

variable {responses : List (String × Json)} {response : Json} {keys : List String} {key : String}

theorem schema_mem_schemas {schema : Json} (h : jsonSchema? response = some schema) :
    schema ∈ schemas response := by
  obtain ⟨content, hcontent, h⟩ := Option.bind_eq_some_iff.mp h
  obtain ⟨fields, hfields, h⟩ := Option.bind_eq_some_iff.mp h
  obtain ⟨⟨media, holder⟩, hfind, hschema⟩ := Option.bind_eq_some_iff.mp h
  have hsays := List.find?_some hfind
  dsimp only at hsays
  unfold schemas
  rw [hcontent, Option.bind_some, hfields, Option.getD_some, List.mem_filterMap]
  refine ⟨(media, holder), List.mem_of_find?_eq_some hfind, ?_⟩
  rw [if_pos hsays]
  exact hschema

/-- What is kept of a response is a target that it declares. -/
theorem declares_of_targetOf? {target : Target} (h : targetOf? response = some target) :
    Declares response (some target) ∧ jsonSchema? response ≠ none := by
  obtain ⟨schema, hschema, h⟩ := Option.bind_eq_some_iff.mp h
  obtain ⟨d, hd, rfl⟩ := Option.map_eq_some_iff.mp h
  refine ⟨.target (schema_mem_schemas hschema) ?_, by rw [hschema]; exact nofun⟩
  cases hdecode : Definition.decode schema with
  | error e => rw [hdecode] at hd; cases hd
  | ok other =>
    rw [hdecode] at hd
    cases hd
    rfl

theorem targetOf?_ne_none_iff (hreadable : Readable responses)
    (hresponse : response ∈ under key responses) :
    targetOf? response ≠ none ↔ jsonSchema? response ≠ none := by
  obtain ⟨entry, hentry, rfl⟩ := List.mem_map.mp hresponse
  unfold targetOf?
  cases hschema : jsonSchema? entry.2 with
  | none => simp
  | some schema =>
    obtain ⟨d, hd⟩ := hreadable entry (List.mem_filter.mp hentry).1 schema hschema
    simp [hd, Except.toOption]

/-- Under a key a target is kept if one of the responses there has a schema to keep. -/
theorem kept?_of_schema (hreadable : Readable responses)
    (h : ∃ response ∈ under key responses, jsonSchema? response ≠ none) :
    ∃ response ∈ under key responses, ∃ target, kept? responses key = some target ∧
      Declares response (some target) := by
  obtain ⟨response, hresponse, hschema⟩ := h
  have hsome : (kept? responses key).isSome := by
    unfold kept?
    rw [List.findSome?_isSome_iff]
    have htarget := (targetOf?_ne_none_iff hreadable hresponse).mpr hschema
    exact ⟨response, List.mem_reverse.mpr hresponse, Option.isSome_iff_ne_none.mpr htarget⟩
  obtain ⟨target, htarget⟩ := Option.isSome_iff_exists.mp hsome
  obtain ⟨other, hother, hdeclares⟩ := List.exists_of_findSome?_eq_some htarget
  exact ⟨other, List.mem_reverse.mp hother, target, htarget, (declares_of_targetOf? hdeclares).1⟩

theorem kept?_eq_none (h : ∀ response ∈ under key responses, jsonSchema? response = none) :
    kept? responses key = none := by
  unfold kept?
  rw [List.findSome?_eq_none_iff]
  intro response hresponse
  unfold targetOf?
  rw [h response (List.mem_reverse.mp hresponse)]
  rfl

/--
Of what is kept under the keys, a target comes from a most specific response with a schema to keep.
Without such a response it is what is kept under the keys behind.
-/
theorem findSome?_kept (hreadable : Readable responses) (keys : List String) :
    (specific responses keys = [] → keys.findSome? (kept? responses) = none) ∧
    ((∃ response ∈ specific responses keys, jsonSchema? response ≠ none) →
      ∃ response ∈ specific responses keys, Declares response (keys.findSome? (kept? responses))) ∧
    ((∀ response ∈ specific responses keys, jsonSchema? response = none) →
      keys.findSome? (kept? responses) = lesser? responses keys) := by
  induction keys with
  | nil => exact ⟨fun _ => rfl, nofun, fun _ => rfl⟩
  | cons key keys ih =>
    rw [specific, lesser?, List.findSome?_cons]
    split_ifs with hunder
    · have hkept : kept? responses key = none := kept?_eq_none (by rw [hunder]; exact nofun)
      rw [hkept]
      exact ih
    · refine ⟨fun hnone => absurd hnone hunder, fun hschema => ?_, fun hnone => ?_⟩
      · obtain ⟨response, hresponse, target, htarget, hdeclares⟩ := kept?_of_schema hreadable hschema
        rw [htarget]
        exact ⟨response, hresponse, hdeclares⟩
      · rw [kept?_eq_none hnone]

/-- The most specific responses decide exactly where they settle what is kept. -/
theorem decidedBySpecific_iff (hreadable : Readable responses) (keys : List String) :
    DecidedBySpecific responses keys (keys.findSome? (kept? responses)) ↔ Settles responses keys := by
  obtain ⟨hnone, hsome, hlesser⟩ := findSome?_kept hreadable keys
  by_cases hschema : ∃ response ∈ specific responses keys, jsonSchema? response ≠ none
  · obtain ⟨response, hresponse, hdeclares⟩ := hsome hschema
    exact iff_of_true (.declared hresponse hdeclares) (.inr (.inl hschema))
  · have hbare : ∀ response ∈ specific responses keys, jsonSchema? response = none :=
      fun response hresponse => by_contra fun hne => hschema ⟨response, hresponse, hne⟩
    constructor
    · intro h
      rw [hlesser hbare] at h
      generalize hanswer : lesser? responses keys = answer at h
      cases h with
      | declared hresponse hdeclares => exact .inr (.inr ⟨_, hresponse, hanswer ▸ hdeclares⟩)
      | undeclared hempty => exact .inl hempty
    · rintro (hempty | hnow | ⟨response, hresponse, hdeclares⟩)
      · rw [hnone hempty]
        exact .undeclared hempty
      · exact absurd hnow hschema
      · rw [hlesser hbare]
        exact .declared hresponse hdeclares

/--
The target of a status is the one that is kept under the most specific of its keys that has one. It
is what a most specific response declares exactly where such a response has a schema at its first
JSON media type, or else declares just what is kept under the keys behind.
-/
theorem most_specific_decides_iff (paths : List (String × Json)) (ops : Operations)
    (h : ofPaths (.obj paths) = .ok ops) (hkeys : (Table.keys paths).Nodup)
    (method template : String) (status : Nat) :
    ops.responseTarget? method template status =
      (statusKeys status).findSome? (kept? (responsesAt paths method template)) ∧
    (DecidedBySpecific (responsesAt paths method template) (statusKeys status)
        (ops.responseTarget? method template status) ↔
      Settles (responsesAt paths method template) (statusKeys status)) := by
  obtain ⟨hreadable, htarget⟩ := responseTarget?_eq h hkeys method template status
  refine ⟨htarget, ?_⟩
  rw [htarget]
  exact decidedBySpecific_iff hreadable _

/-- An operation with the given responses. -/
def getting (responses : List (String × Json)) : List (String × Json) :=
  [("/a", .object [("get", .object [("responses", .object responses)])])]

/-- A response of a media type, with a reference to a type as its schema. -/
def referring (media name : String) : Json :=
  .object [("content", .object [(media, .object [("schema",
    .object [("$ref", .str ("#/components/schemas/" ++ name))])])])]

/-- A range has no content type but one that ends in JSON, and the default has no content. -/
def rangedPaths : List (String × Json) :=
  getting [("2xx", referring "application/problem+json; charset=utf-8" "Reply"),
    ("default", .object [])]

/-- The range decides for a status without a response of its own. -/
theorem range_decides : ∃ ops, ofPaths (.obj rangedPaths) = .ok ops ∧
    (Table.keys rangedPaths).Nodup ∧
    DecidedBySpecific (responsesAt rangedPaths "GET" "/a") (statusKeys 204)
      (ops.responseTarget? "GET" "/a" 204) := by
  have hkeys : (Table.keys rangedPaths).Nodup := by decide
  have hsettles : Settles (responsesAt rangedPaths "GET" "/a") (statusKeys 204) :=
    .inr (.inl (by decide +kernel))
  have hread : (ofPaths (.obj rangedPaths)).isOk = true := by decide +kernel
  cases hops : ofPaths (.obj rangedPaths) with
  | error e =>
    rw [hops] at hread
    cases hread
  | ok ops =>
    exact ⟨ops, rfl, hkeys, (most_specific_decides_iff _ _ hops hkeys "GET" "/a" 204).2.mpr hsettles⟩

/-- A status is declared without content beside a default with a schema. -/
def barePaths : List (String × Json) :=
  getting [("404", .object []), ("default", referring "application/json" "Problem")]

/-- The schema of the default is taken for the status that is declared without content. -/
theorem bare_response_overruled : ∃ ops, ofPaths (.obj barePaths) = .ok ops ∧
    ops.responseTarget? "GET" "/a" 404 ≠ none ∧
    ¬ DecidedBySpecific (responsesAt barePaths "GET" "/a") (statusKeys 404)
      (ops.responseTarget? "GET" "/a" 404) := by
  have hfound : (ofPaths (.obj barePaths)).toOption.map
      (fun ops => (ops.responseTarget? "GET" "/a" 404).isSome) = some true := by decide +kernel
  have hspecific : specific (responsesAt barePaths "GET" "/a") (statusKeys 404) = [.obj []] := by
    decide +kernel
  cases hops : ofPaths (.obj barePaths) with
  | error e =>
    rw [hops] at hfound
    cases hfound
  | ok ops =>
    rw [hops] at hfound
    have htarget := Option.isSome_iff_ne_none.mp (Option.some.inj hfound)
    refine ⟨ops, rfl, htarget, fun h => ?_⟩
    generalize ops.responseTarget? "GET" "/a" 404 = answer at htarget h
    cases h with
    | declared hresponse hdeclares =>
      rw [hspecific, List.mem_singleton] at hresponse
      subst hresponse
      cases hdeclares with
      | target hschema _ => cases hschema
      | nothing _ => exact htarget rfl
    | undeclared _ => exact htarget rfl

end Deciding

end Operations

end Conform
