import Conform.Proofs.Answering
import Conform.Proofs.Decoding

/-!
# Users that are found

A path to a user names it by any text that the path validation reads as its
id. The answer shows the stored user, or says that there is none.
-/

namespace Conform

/-- What the body tells where something is not found. -/
theorem Failure.body_notFound (what : String) : (notFound what).body = .obj [("error", .obj
    [("code", .str "NOT_FOUND"), ("message", .str ("not found: " ++ what))])] := by
  have hordered : Table.Ordered
      [("code", Json.str "NOT_FOUND"), ("message", Json.str ("not found: " ++ what))] := by
    change List.Pairwise (· < ·) ["code", "message"]
    decide
  exact congrArg (fun fields => Json.obj [("error", .obj fields)])
    (Table.ofList_of_perm (List.Perm.refl _) hordered)

namespace Session

open Description

variable {s : Session} {c : Cache} {text : String} {id : Uuid} {w : Json}

/-- The parameters of a path to a user. -/
def pathTo (text : String) : Json := .obj [("id", .str text)]

/-- A text that writes an id is replaced by the text of the id. -/
theorem outcome_pathTo (h : Uuid.readChars? (Text.trimChars text.toList) = some id) :
    c.outcome? ⟨true, false, .object userPathFields⟩ true (pathTo text) =
      some (Outcome.kept (pathTo id.text)) := by
  have hcounts : text ≠ "undefined" := by
    rintro rfl
    have hnothing : Uuid.readChars? (Text.trimChars "undefined".toList) = none := by decide +kernel
    rw [hnothing] at h
    cases h
  have hformatted : Coerce.formatted (some .uuid) (.str text) = .ok id.text := by
    rw [Coerce.formatted_uuid_str, h]
    rfl
  have hcheck : ∀ path, StringRule.check ⟨some .uuid, none, none, none⟩ path (.str text) =
      Outcome.kept (.str id.text) := by
    intro path
    unfold StringRule.check
    rw [hformatted]
    rfl
  have hfield : ∀ (hop : Hop Option) path, (anyText (some .uuid)).apply hop true path
      (some (.str text)) = some (Outcome.kept (.str id.text)) := by
    intro hop path
    rw [anyText, Validator.apply_of_counts (Json.counts_str_iff.mpr fun _ => hcounts), Rule.check,
      hcheck]
    rfl
  change Rule.check _ true (.object userPathFields) _ (pathTo text) = _
  unfold Rule.check pathTo
  dsimp only
  rw [userPathFields, Rule.checkFields]
  change ((anyText (some .uuid)).apply _ true _ (some (.str text)) >>= _) >>= _ = _
  rw [hfield]
  rfl

/-- A path to a user is accepted for any text that writes an id, as the path of that id. -/
theorem IsDescribed.validate_pathTo (h : s.IsDescribed) (text : String) (w : Json) :
    (s.validate (pathTo text) (.named userPathName) .path).1 = .accepted w ↔
      ∃ id, Uuid.readChars? (Text.trimChars text.toList) = some id ∧ w = pathTo id.text := by
  obtain ⟨c, hcompiles, -⟩ := exists_compiles alone_types.2.2.1
  rw [h.verdict hcompiles, Verdict.ofOutcome_eq_accepted_iff]
  constructor
  · rintro ⟨o, ho, haccepted, rfl⟩
    obtain ⟨v, hv, -, hcheck⟩ := Validator.apply_required ho haccepted
    cases hv
    obtain ⟨given, output, hgiven, -, hfields⟩ := Rule.object_accepted hcheck haccepted
    cases hgiven
    obtain ⟨field, happly, hclean, -⟩ := hfields "id" _ rfl
    obtain ⟨v, hv, -, hfield⟩ := Validator.apply_required happly hclean
    cases hv
    rw [Rule.check] at hfield
    cases hfield
    obtain ⟨written, hformatted, -⟩ := StringRule.check_accepted hclean
    rw [Coerce.formatted_uuid_str] at hformatted
    obtain ⟨id, hread, -⟩ := Coerce.bind_ok_iff.mp hformatted
    rw [Coerce.orReason_eq_ok_iff] at hread
    refine ⟨id, hread, ?_⟩
    have hkept := ho.symm.trans (outcome_pathTo hread)
    cases hkept
    rfl
  · rintro ⟨id, hread, rfl⟩
    exact ⟨_, outcome_pathTo hread, rfl, rfl⟩

/-- The answer that there is no such user is let out as it is. -/
theorem IsDescribed.release_unknown (h : s.IsDescribed) (hid : id.Proper) :
    (s.release "GET" (Http.template Endpoint.user.route)
      (Failure.notFound ("user " ++ id.text)).reply).1 =
        some (Failure.notFound ("user " ++ id.text)).reply := by
  have hbody := Failure.body_notFound ("user " ++ id.text)
  change (s.release _ _ (.json 404 (Failure.notFound ("user " ++ id.text)).body)).1 = _
  rw [hbody]
  have hlength : ("not found: " ++ ("user " ++ id.text)).length = 52 := by
    rw [String.length_append, String.length_append, Uuid.length_text hid]
    rfl
  rw [release_kept (h.declares declared_responses.2.2)]
  · rw [← hbody]
    rfl
  -- the body is read back: it is plain, and neither deep nor long
  · refine .obj (List.pairwise_singleton _ _) fun entry hentry => ?_
    cases List.mem_singleton.mp hentry
    refine .obj ?_ ?_
    · change List.Pairwise (· < ·) ["code", "message"]
      decide
    simp only [List.forall_mem_cons]
    exact ⟨.str _, .str _, List.forall_mem_nil _⟩
  · simp [Json.depth, Json.depthFields, Json.depthLimit]
  · simp only [Json.extent, Json.extentFields, hlength, releaseLimit]
    decide
  -- the type of errors is excluded, so it accepts anything
  · obtain ⟨c, hcompiles, -⟩ := exists_compiles alone_types.2.2.2
    rw [h.verdict hcompiles, Verdict.ofOutcome_eq_accepted_iff]
    refine ⟨Outcome.kept _, Cache.outcome_of_settles ?_, rfl, rfl⟩
    refine Validator.settles_of_counts (Json.counts_of_kind (by simp) (by simp)) ?_
    exact Rule.settles_of_check fun _ path => rfl

end Session

theorem UserPath.decode_pathTo {id : Uuid} (h : id.Proper) :
    UserPath.decode (Session.pathTo id.text) = .ok ⟨id⟩ := by
  change (((Uuid.decode (.str id.text)).map some >>= Except.ok) >>= _) = _
  rw [Uuid.decode_text h]
  rfl

/-- The text that a segment of a path stands for. -/
def Http.segmentText? (raw : String) : Option String :=
  (Utf8.decode? (Utf8.percentDecode (Utf8.encode raw.toList))).map String.ofList

namespace Service

variable {s : Service} {fresh : Fresh} {r : Http.Request} {ready : Session} {raw text : String}
  {id : Uuid}

theorem pathObject_segment (h : Http.segmentText? raw = some text) :
    pathObject [("id", raw.toList)] = .ok (Session.pathTo text) := by
  obtain ⟨cs, hcs, rfl⟩ := Option.map_eq_some_iff.mp h
  unfold pathObject
  rw [List.mapM_cons]
  dsimp only
  rw [hcs]
  rfl

/-- What is said of the user of an id. -/
def shownReply (s : Service) (id : Uuid) : Http.Reply :=
  match s.users.get? id with
  | some u => .json 200 u.toJson
  | none => (Failure.notFound ("user " ++ id.text)).reply

theorem showUser_eq (hready : s.gate.slot = some ready) (hdescribed : ready.IsDescribed)
    (htext : Http.segmentText? raw = some text)
    (hread : Uuid.readChars? (Text.trimChars text.toList) = some id) :
    (s.showUser [("id", raw.toList)]).1 = some (s.shownReply id) ∧
      (s.showUser [("id", raw.toList)]).2.Described := by
  refine ⟨?_, (showUser_leaves [("id", raw.toList)] hready hdescribed).2⟩
  have haccepted := (hdescribed.validate_pathTo text _).mpr ⟨id, hread, rfl⟩
  have hreceived : (s.gate.receive "UserPath" UserPath.decode (Session.pathTo text) .path).1 =
      some (.ok ⟨id⟩) :=
    Gate.receive_of_accepted Description.userPathName hready haccepted
      (UserPath.decode_pathTo (Uuid.proper_readChars? hread))
  unfold showUser shownReply
  rw [pathObject_segment htext]
  dsimp only
  rw [received_ok hreceived]
  dsimp only
  cases s.users.get? id <;> rfl

/-- A request for a user by a text that writes its id is answered by what there is of it. -/
theorem handle_show (hready : s.gate.slot = some ready) (hdescribed : ready.IsDescribed)
    (hshowable : ∀ u, s.users.get? id = some u → u.Showable) (hmethod : r.method = "GET")
    (hpath : r.path = "/v1/users/" ++ raw) (hslash : '/' ∉ raw.toList) (hne : raw ≠ "")
    (htext : Http.segmentText? raw = some text)
    (hread : Uuid.readChars? (Text.trimChars text.toList) = some id) :
    (s.handle fresh r).1 = some (s.shownReply id) := by
  obtain ⟨hreply, session, hsession, hstill⟩ := showUser_eq hready hdescribed htext hread
  have hanswer : s.answer fresh r .user [("id", raw.toList)] =
      s.guarded "GET" Endpoint.user.route fun s => s.showUser [("id", raw.toList)] := by
    have hreads : r.reads = true := by
      unfold Http.Request.reads
      rw [hmethod]
      rfl
    unfold answer aboutUsers
    simp only [hreads, hmethod, if_true]
  unfold handle
  rw [hpath, Endpoint.find?_user hslash hne]
  dsimp only
  rw [hanswer, guarded_eq hready hreply hsession]
  simp only [hmethod, String.reduceEq, if_false, Option.map_id']
  unfold shownReply
  cases hfound : s.users.get? id with
  | some u => exact hstill.release_user Description.declared_responses.2.1 (hshowable u hfound)
  | none => exact hstill.release_unknown (Uuid.proper_readChars? hread)

end Service

end Conform
