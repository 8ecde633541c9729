import Conform.Proofs.Showing

/-!
# Answers about users

What one request does to the users: it stores the one that its answer shows,
or none. An answer that shows a stored user goes out as it is, since no
schema of the description finds anything to change in it.
-/

namespace Conform

namespace Text

variable {separator : Char} {cs rest : List Char}

theorem splitChars_of_notMem (h : separator ∉ cs) : splitChars separator cs = [cs] := by
  induction cs with
  | nil => rfl
  | cons c cs ih =>
    obtain ⟨hne, hcs⟩ := not_or.mp (mt List.mem_cons.mpr h)
    unfold splitChars
    rw [ih hcs]
    exact if_neg (Ne.symm hne)

theorem splitChars_append (h : separator ∉ cs) :
    splitChars separator (cs ++ separator :: rest) = cs :: splitChars separator rest := by
  induction cs with
  | nil => exact if_pos rfl
  | cons c cs ih =>
    obtain ⟨hne, hcs⟩ := not_or.mp (mt List.mem_cons.mpr h)
    rw [List.cons_append, splitChars, ih hcs]
    exact if_neg (Ne.symm hne)

/-- The pieces of a text make up the text. -/
theorem intercalate_splitChars (separator : Char) (cs : List Char) :
    [separator].intercalate (splitChars separator cs) = cs := by
  induction cs with
  | nil => rfl
  | cons c cs ih =>
    unfold splitChars
    cases hpieces : splitChars separator cs with
    | nil => exact absurd hpieces (splitChars_ne_nil separator cs)
    | cons piece pieces =>
      rw [hpieces] at ih
      dsimp only
      split
      · next heq =>
        rw [List.intercalate_cons_cons, ih, heq]
        rfl
      · cases pieces with
        | nil =>
          rw [List.intercalate_singleton] at ih ⊢
          rw [ih]
        | cons next pieces =>
          rw [List.intercalate_cons_cons] at ih ⊢
          rw [List.cons_append, List.cons_append, ih]

end Text

namespace Endpoint

theorem find?_users : find? "/v1/users" = some (.users, []) := by
  decide +kernel

/-- Pieces without parameters are met by their own texts. -/
theorem eq_of_match?_literals {texts segments : List (List Char)}
    {parameters : List (String × List Char)}
    (h : Http.Piece.match? (texts.map .literal) segments = some parameters) : segments = texts := by
  induction texts generalizing segments with
  | nil =>
    cases segments with
    | nil => rfl
    | cons => cases h
  | cons text rest ih =>
    cases segments with
    | nil => cases h
    | cons segment more =>
      rw [List.map_cons, Http.Piece.match?] at h
      split at h
      · next heq => rw [heq, ih h]
      · cases h

/-- Users are created and listed at one path only. -/
theorem path_of_find?_users {path : String} {parameters : List (String × List Char)}
    (h : find? path = some (.users, parameters)) : path = "/v1/users" := by
  obtain ⟨e, -, he⟩ := List.exists_of_findSome?_eq_some h
  obtain ⟨found, hfound, heq⟩ := Option.map_eq_some_iff.mp he
  cases heq
  have hpieces : (Text.splitChars '/' Endpoint.users.route.toList).map Http.Piece.ofSegment =
      [[], "v1".toList, "users".toList].map .literal := by
    decide +kernel
  unfold Http.match? at hfound
  rw [hpieces] at hfound
  have hpath := Text.intercalate_splitChars '/' path.toList
  rw [eq_of_match?_literals hfound] at hpath
  exact String.toList_inj.mp hpath.symm

theorem find?_user {raw : String} (hraw : '/' ∉ raw.toList) (hne : raw ≠ "") :
    find? ("/v1/users/" ++ raw) = some (.user, [("id", raw.toList)]) := by
  have hsegments : Text.splitChars '/' ("/v1/users/" ++ raw).toList =
      [[], "v1".toList, "users".toList, raw.toList] := by
    have hlist : ("/v1/users/" ++ raw).toList =
        [] ++ '/' :: ("v1".toList ++ '/' :: ("users".toList ++ '/' :: raw.toList)) := by
      rw [String.toList_append]
      rfl
    rw [hlist, Text.splitChars_append List.not_mem_nil, Text.splitChars_append (by decide),
      Text.splitChars_append (by decide), Text.splitChars_of_notMem hraw]
  have hsome : ∃ c cs, raw.toList = c :: cs := by
    cases hlist : raw.toList with
    | nil => exact absurd (String.toList_inj.mp hlist) hne
    | cons c cs => exact ⟨c, cs, rfl⟩
  obtain ⟨c, cs, hcs⟩ := hsome
  unfold find? Http.match?
  rw [hsegments, hcs]
  rfl

end Endpoint

namespace Session

variable {s : Session} {method template : String} {status : Nat} {v : Json} {target : Target}

/-- Whatever goes out keeps its status or tells of a failure inside. -/
theorem release_status {reply out : Http.Reply}
    (hout : (s.release method template reply).1 = some out) :
    out.status = reply.status ∨ out.status = 500 := by
  cases releases_iff.mpr hout with
  | undeclared h => exact Or.inl rfl
  | otherwise h => exact Or.inl rfl
  | empty h => exact Or.inl rfl
  | coerced h hsize hread haccepted => exact Or.inl rfl
  | oversized h hsize => exact Or.inr rfl
  | unreadable h hread => exact Or.inr rfl
  | refused h hread hrefused => exact Or.inr rfl

/-- A JSON reply whose value is accepted as it is goes out as it is. -/
theorem release_kept (hdeclared :
      s.store.document.operations.responseTarget? method template status = some target)
    (hv : v.Plain) (hdepth : v.depth < Json.depthLimit) (hsize : v.extent ≤ releaseLimit)
    (haccepted : (s.validate v target .response).1 = .accepted v) :
    s.release method template (.json status v) =
      (some (.json status v), (s.validate v target .response).2) := by
  have hread := Json.readBytes?_compact hv hdepth
  have hjson : (Http.Reply.json status v).carriesJson = true := by
    change (Http.Reply.json 200 .null).carriesJson = true
    decide +kernel
  have hnonempty : v.compact.toUTF8.isEmpty = false := by
    rw [← Bool.not_eq_true]
    intro hempty
    have htext : v.compact = "" :=
      String.utf8ByteSize_eq_zero_iff.mp (by simpa [ByteArray.isEmpty] using hempty)
    have hnothing : Json.readBytes? "".toUTF8 = none := by decide +kernel
    rw [htext, hnothing] at hread
    cases hread
  have hdeclares : s.Declares method template (.json status v) target :=
    ⟨hdeclared, hjson, hnonempty⟩
  rw [hdeclares.release_coerced (Nat.le_trans (Json.compact_size v) hsize) hread haccepted]
  rfl

theorem IsDescribed.release (h : s.IsDescribed) (method template : String) (reply : Http.Reply) :
    (s.release method template reply).2.IsDescribed := by
  unfold Session.release
  split
  · exact h
  · next target _ =>
    split
    · exact h
    · split
      · exact h
      · split
        · exact h
        · next v _ =>
          have hvalidated := h.validate v target .response
          dsimp only
          split <;> exact hvalidated

/-- A session of the description lets something out in place of every reply. -/
theorem IsDescribed.release_answers (h : s.IsDescribed) (method template : String)
    (reply : Http.Reply) : ∃ out, (s.release method template reply).1 = some out := by
  obtain ⟨out, hout, -⟩ | ⟨-, target, v, hdeclares, -, -, hendless⟩ :=
    s.release_cases method template reply
  · exact ⟨out, hout⟩
  · exact absurd hendless (h.response_ends hdeclares.declared v)

/-- What the description declares is declared for the session. -/
theorem IsDescribed.declares (h : s.IsDescribed) {name : TypeName}
    (hdeclared : Description.isDeclaredAs method template status name = true) :
    s.store.document.operations.responseTarget? method template status = some (.named name) := by
  have hstore : s.store = Description.store := h.store
  rw [hstore]
  exact Description.responseTarget?_of_isDeclaredAs hdeclared

/-- An answer that is declared to show a user goes out as it is. -/
theorem IsDescribed.release_user (h : s.IsDescribed)
    (hdeclared : Description.isDeclaredAs method template status Description.userName = true)
    {u : User} (hu : u.Showable) :
    (s.release method template (.json status u.toJson)).1 = some (.json status u.toJson) := by
  rw [release_kept (h.declares hdeclared) hu.plain u.toJson_depth hu.short (hu.accepted h)]

end Session

/-- What a request brings is in order, and its strings are no longer than its body may be. -/
theorem Http.Request.json_admitted {r : Http.Request} {v : Json} (h : r.json = .ok v) :
    v.Ordered ∧ v.weight ≤ Http.Request.bodyLimit := by
  unfold Http.Request.json at h
  split at h
  · cases h
  · split at h
    · cases h
    · next hsize =>
      split at h
      · next w hread =>
        cases h
        exact ⟨Json.readFirst?_ordered hread,
          Nat.le_trans (Json.readFirst?_weight hread) (Nat.not_lt.mp hsize)⟩
      · cases h

theorem Failure.status_ne (f : Failure) : f.reply.status ≠ 201 := by
  change f.status ≠ 201
  cases f <;> exact nofun

namespace Gate

variable {α : Type} {g : Gate Session} {decode : Json → Decode.Result α} {v : Json}
  {channel : Channel} {ready : Session}

theorem receive_eq (name : TypeName) (decode : Json → Decode.Result α) (v : Json)
    (channel : Channel) (hready : g.slot = some ready) : g.receive name.text decode v channel =
      ((ready.validate v (.named name) channel).1.result?.map fun checked =>
          checked.bind (Session.readAs name.text decode channel),
        .ready (ready.validate v (.named name) channel).2) := by
  unfold receive Session.validateAs
  rw [hready, TypeName.ofText_text]

/-- What is received has been accepted by the session of the gate, and read. -/
theorem receive_ok (name : TypeName) {a : α} (hready : g.slot = some ready)
    (h : (g.receive name.text decode v channel).1 = some (.ok a)) :
    ∃ w, (ready.validate v (.named name) channel).1 = .accepted w ∧ decode w = .ok a := by
  rw [receive_eq name decode v channel hready] at h
  obtain ⟨checked, hchecked, hread⟩ := Option.map_eq_some_iff.mp h
  cases checked with
  | error failure => cases hread
  | ok w =>
    refine ⟨w, Verdict.result?_eq_ok_iff.mp hchecked, ?_⟩
    change Session.readAs _ decode channel w = .ok a at hread
    unfold Session.readAs at hread
    split at hread
    · next found hfound =>
      cases hread
      exact hfound
    · cases hread

/-- What is accepted is received or turned down as a bad request, as it is read. -/
theorem receive_accepted (name : TypeName) {w : Json} (hready : g.slot = some ready)
    (haccepted : (ready.validate v (.named name) channel).1 = .accepted w) :
    (g.receive name.text decode v channel).1 =
      some (Session.readAs name.text decode channel w) := by
  rw [receive_eq name decode v channel hready, haccepted]
  rfl

theorem receive_of_accepted (name : TypeName) {w : Json} {a : α} (hready : g.slot = some ready)
    (haccepted : (ready.validate v (.named name) channel).1 = .accepted w)
    (hdecode : decode w = .ok a) : (g.receive name.text decode v channel).1 = some (.ok a) := by
  rw [receive_accepted name hready haccepted]
  unfold Session.readAs
  rw [hdecode]

/-- Something is received, or turned down, where validating ends. -/
theorem receive_answers (name : TypeName) (decode : Json → Decode.Result α)
    (hready : g.slot = some ready) (hends : (ready.validate v (.named name) channel).1 ≠ .endless) :
    ∃ result, (g.receive name.text decode v channel).1 = some result := by
  rw [receive_eq name decode v channel hready]
  cases hresult : (ready.validate v (.named name) channel).1.result? with
  | none => exact absurd (Verdict.result?_eq_none_iff.mp hresult) hends
  | some checked => exact ⟨_, rfl⟩

end Gate

namespace Service

variable {s : Service} {fresh : Fresh} {r : Http.Request} {ready : Session}

/-- The gate holds a session of the description. -/
def Described (s : Service) : Prop :=
  ∃ session, s.gate.slot = some session ∧ session.IsDescribed

/-- The users stay as they are, and there is a reply that does not say otherwise. -/
structure Leaves (s : Service) (answer : Option Http.Reply × Service) : Prop where
  reply : ∃ reply, answer.1 = some reply ∧ reply.status ≠ 201
  users : answer.2.users = s.users

/-- The reply shows the user that has been stored. -/
structure Stores (s : Service) (fresh : Fresh) (n : NewUser)
    (answer : Option Http.Reply × Service) : Prop where
  admitted : n.Admitted
  reply : answer.1 = some (.json 201 (User.create fresh.id fresh.time n).toJson)
  users : answer.2.users = s.users.insert fresh.id (User.create fresh.id fresh.time n)

theorem leaves_of_reply {reply : Http.Reply} {t : Service} (hstatus : reply.status ≠ 201)
    (husers : t.users = s.users) : s.Leaves (some reply, t) := ⟨⟨reply, rfl, hstatus⟩, husers⟩

theorem leaves_of_failure (failure : Failure) {t : Service} (h : t.users = s.users) :
    s.Leaves (some failure.reply, t) := leaves_of_reply failure.status_ne h

section Received

variable {α : Type} {next : α → Service → Option Http.Reply × Service}
  {given : Option (Except Failure α) × Gate Session}

theorem received_ok {a : α} (h : given.1 = some (.ok a)) :
    s.received next given = next a { s with gate := given.2 } := by
  obtain ⟨result, gate⟩ := given
  cases h
  rfl

theorem received_error {failure : Failure} (h : given.1 = some (.error failure)) :
    s.received next given = (some failure.reply, { s with gate := given.2 }) := by
  obtain ⟨result, gate⟩ := given
  cases h
  rfl

end Received

/--
A session of the description turns a value down, which is answered at once, or accepts it and
hands it on as it is read.
-/
theorem received_described {α : Type} (name : TypeName) (type : String) (htype : type = name.text)
    (decode : Json → Decode.Result α) (v : Json) {channel : Channel}
    (hready : s.gate.slot = some ready) (hdescribed : ready.IsDescribed)
    (hflat : Description.isFlat (.named name) channel = true) :
    ∃ gate : Gate Session, (∃ session, gate.slot = some session ∧ session.IsDescribed) ∧
      ((∃ failure : Failure, ∀ next : α → Service → Option Http.Reply × Service,
        s.received next (s.gate.receive type decode v channel) =
          (some failure.reply, { s with gate })) ∨
      ∃ a w, (ready.validate v (.named name) channel).1 = .accepted w ∧ decode w = .ok a ∧
        ∀ next : α → Service → Option Http.Reply × Service,
          s.received next (s.gate.receive type decode v channel) = next a { s with gate }) := by
  subst htype
  have hgate : (s.gate.receive name.text decode v channel).2 =
      .ready (ready.validate v (.named name) channel).2 := by
    rw [Gate.receive_eq name decode v channel hready]
  refine ⟨_, ⟨_, congrArg Gate.slot hgate, hdescribed.validate v _ channel⟩, ?_⟩
  obtain ⟨checked, hchecked⟩ :=
    Gate.receive_answers name decode hready (hdescribed.ends hflat v)
  cases checked with
  | error failure => exact Or.inl ⟨failure, fun _ => received_error hchecked⟩
  | ok a =>
    obtain ⟨w, haccepted, hdecode⟩ := Gate.receive_ok name hready hchecked
    exact Or.inr ⟨a, w, haccepted, hdecode, fun _ => received_ok hchecked⟩

theorem createUser_cases (fresh : Fresh) (r : Http.Request) (hready : s.gate.slot = some ready)
    (hdescribed : ready.IsDescribed) :
    ((∃ n, s.Stores fresh n (s.createUser fresh r)) ∨ s.Leaves (s.createUser fresh r)) ∧
      (s.createUser fresh r).2.Described := by
  unfold createUser
  cases hbody : r.json with
  | error failure => exact ⟨Or.inr (leaves_of_failure failure rfl), ready, hready, hdescribed⟩
  | ok v =>
    dsimp only
    obtain ⟨gate, hstill, ⟨failure, heq⟩ | ⟨n, w, haccepted, hdecode, heq⟩⟩ :=
      received_described Description.newUserName "CreateUser" rfl NewUser.decode v hready
        hdescribed Description.requests_flat.1
    · rw [heq]
      exact ⟨Or.inr (leaves_of_failure failure rfl), hstill⟩
    · obtain ⟨hordered, hshort⟩ := Http.Request.json_admitted hbody
      rw [heq]
      exact ⟨Or.inl ⟨n, hdescribed.admitted hordered hshort haccepted hdecode, rfl, rfl⟩, hstill⟩

theorem listUsers_leaves (r : Http.Request) (hready : s.gate.slot = some ready)
    (hdescribed : ready.IsDescribed) : s.Leaves (s.listUsers r) ∧ (s.listUsers r).2.Described := by
  unfold listUsers
  obtain ⟨gate, hstill, ⟨failure, heq⟩ | ⟨query, w, -, -, heq⟩⟩ :=
    received_described Description.userQueryName "UserListQuery" rfl UserQuery.decode
      (Query.read r.query) hready hdescribed Description.requests_flat.2.1
  · rw [heq]
    exact ⟨leaves_of_failure failure rfl, hstill⟩
  · rw [heq]
    exact ⟨leaves_of_reply nofun rfl, hstill⟩

theorem showUser_leaves (parameters : List (String × List Char))
    (hready : s.gate.slot = some ready) (hdescribed : ready.IsDescribed) :
    s.Leaves (s.showUser parameters) ∧ (s.showUser parameters).2.Described := by
  unfold showUser
  cases pathObject parameters with
  | error failure => exact ⟨leaves_of_failure failure rfl, ready, hready, hdescribed⟩
  | ok v =>
    dsimp only
    obtain ⟨gate, hstill, ⟨failure, heq⟩ | ⟨path, w, -, -, heq⟩⟩ :=
      received_described Description.userPathName "UserPath" rfl UserPath.decode v hready
        hdescribed Description.requests_flat.2.2
    · rw [heq]
      exact ⟨leaves_of_failure failure rfl, hstill⟩
    · rw [heq]
      dsimp only
      cases s.users.get? path.id with
      | none => exact ⟨leaves_of_failure _ rfl, hstill⟩
      | some user => exact ⟨leaves_of_reply nofun rfl, hstill⟩

/-- A user is stored by a `POST` to the path of all users and by nothing else. -/
theorem aboutUsers_cases (fresh : Fresh) (r : Http.Request) (e : Endpoint)
    (parameters : List (String × List Char)) (hready : s.gate.slot = some ready)
    (hdescribed : ready.IsDescribed) :
    ((e = .users ∧ r.method = "POST" ∧ ∃ n, s.Stores fresh n (s.aboutUsers fresh r e parameters)) ∨
      s.Leaves (s.aboutUsers fresh r e parameters)) ∧
      (s.aboutUsers fresh r e parameters).2.Described := by
  unfold aboutUsers
  cases e with
  | users =>
    dsimp only
    split_ifs with hreads hpost
    · obtain ⟨hleaves, hstill⟩ := listUsers_leaves r hready hdescribed
      exact ⟨Or.inr hleaves, hstill⟩
    · obtain ⟨hstores | hleaves, hstill⟩ := createUser_cases fresh r hready hdescribed
      · exact ⟨Or.inl ⟨rfl, hpost, hstores⟩, hstill⟩
      · exact ⟨Or.inr hleaves, hstill⟩
    · exact ⟨Or.inr (leaves_of_reply nofun rfl), ready, hready, hdescribed⟩
  | user =>
    dsimp only
    split_ifs
    · obtain ⟨hleaves, hstill⟩ := showUser_leaves parameters hready hdescribed
      exact ⟨Or.inr hleaves, hstill⟩
    · exact ⟨Or.inr (leaves_of_reply nofun rfl), ready, hready, hdescribed⟩
  | _ => exact ⟨Or.inr (leaves_of_reply nofun rfl), ready, hready, hdescribed⟩

section Guarded

variable {method route : String} {handler : Service → Option Http.Reply × Service}

theorem guarded_described {reply : Http.Reply} (hready : s.gate.slot = some ready)
    (hreply : (handler s).1 = some reply) (h : (handler s).2.Described) :
    (s.guarded method route handler).2.Described := by
  obtain ⟨session, hsession, hdescribed⟩ := h
  rw [guarded_eq hready hreply hsession]
  exact ⟨_, rfl, hdescribed.release method (Http.template route) reply⟩

theorem guarded_leaves (hready : s.gate.slot = some ready) (h : (handler s).2.Described)
    (hleaves : s.Leaves (handler s)) :
    s.Leaves (s.guarded method route handler) ∧ (s.guarded method route handler).2.Described := by
  obtain ⟨⟨reply, hreply, hstatus⟩, husers⟩ := hleaves
  refine ⟨?_, guarded_described hready hreply h⟩
  obtain ⟨session, hsession, hdescribed⟩ := h
  obtain ⟨out, hout⟩ := hdescribed.release_answers method (Http.template route) reply
  rw [guarded_eq hready hreply hsession, hout]
  refine leaves_of_reply ?_ husers
  rcases Session.release_status hout with hsame | hfailed
  · exact hsame ▸ hstatus
  · exact hfailed ▸ nofun

/-- A user that has been stored is shown. -/
theorem guarded_stores (hready : s.gate.slot = some ready) (h : (handler s).2.Described)
    (hfresh : fresh.Timely) {n : NewUser} (hstores : s.Stores fresh n (handler s)) :
    s.Stores fresh n (s.guarded "POST" Endpoint.users.route handler) ∧
      (s.guarded "POST" Endpoint.users.route handler).2.Described := by
  refine ⟨?_, guarded_described hready hstores.reply h⟩
  obtain ⟨session, hsession, hdescribed⟩ := h
  rw [guarded_eq hready hstores.reply hsession]
  refine ⟨hstores.admitted, ?_, hstores.users⟩
  exact hdescribed.release_user Description.declared_responses.1 (hstores.admitted.showable hfresh)

end Guarded

/-- The request asks for a new user, and the reply says that there is one. -/
def Creates (r : Http.Request) (reply : Http.Reply) : Prop :=
  r.method = "POST" ∧ r.path = "/v1/users" ∧ reply.status = 201

instance (r : Http.Request) (reply : Http.Reply) : Decidable (Creates r reply) :=
  inferInstanceAs (Decidable (_ ∧ _ ∧ _))

/--
The request is answered, and it has stored the user that its reply shows, or it has left the users
alone.
-/
def Accounts (s : Service) (fresh : Fresh) (r : Http.Request)
    (answer : Option Http.Reply × Service) : Prop :=
  ∃ reply, answer.1 = some reply ∧
    ((∃ n, s.Stores fresh n answer ∧ Creates r reply) ∨
      (answer.2.users = s.users ∧ ¬ Creates r reply))

theorem Leaves.accounts {answer : Option Http.Reply × Service} (h : s.Leaves answer)
    (fresh : Fresh) (r : Http.Request) : s.Accounts fresh r answer := by
  obtain ⟨⟨reply, hreply, hstatus⟩, husers⟩ := h
  exact ⟨reply, hreply, Or.inr ⟨husers, fun hcreates => hstatus hcreates.2.2⟩⟩

/-- An answer to another path than that of all users does not matter. -/
theorem accounts_elsewhere (hpath : r.path ≠ "/v1/users") (fresh : Fresh) (reply : Http.Reply) :
    s.Accounts fresh r (some reply, s) :=
  ⟨reply, rfl, Or.inr ⟨rfl, fun hcreates => hpath hcreates.2.1⟩⟩

/-- The gate is not ready, or holds a session of the description. -/
def Sound (s : Service) : Prop := s.gate.slot = none ∨ s.Described

/-- What goes out of the handler of an endpoint about users accounts for what it has done. -/
theorem guarded_accounts (h : s.Sound) (hfresh : fresh.Timely) {e : Endpoint}
    {parameters : List (String × List Char)}
    (hfind : Endpoint.find? r.path = some (e, parameters)) :
    s.Accounts fresh r
        (s.guarded r.method e.route fun s => s.aboutUsers fresh r e parameters) ∧
      (s.guarded r.method e.route fun s => s.aboutUsers fresh r e parameters).2.Sound := by
  obtain hunready | ⟨ready, hready, hdescribed⟩ := h
  · rw [guarded_of_unready hunready]
    exact ⟨(leaves_of_failure .notReady rfl).accounts fresh r, Or.inl hunready⟩
  · obtain ⟨⟨rfl, hpost, n, hstores⟩ | hleaves, hstill⟩ :=
      aboutUsers_cases fresh r e parameters hready hdescribed
    · rw [hpost]
      have hout : s.Stores fresh n (s.guarded "POST" Endpoint.users.route fun s =>
          s.aboutUsers fresh r .users parameters) ∧ _ :=
        guarded_stores hready hstill hfresh hstores
      have hcreates : Creates r (.json 201 (User.create fresh.id fresh.time n).toJson) :=
        ⟨hpost, Endpoint.path_of_find?_users hfind, rfl⟩
      exact ⟨⟨_, hout.1.reply, Or.inl ⟨n, hout.1, hcreates⟩⟩, Or.inr hout.2⟩
    · have hout : s.Leaves (s.guarded r.method e.route fun s => s.aboutUsers fresh r e parameters) ∧
          _ :=
        guarded_leaves hready hstill hleaves
      exact ⟨hout.1.accounts fresh r, Or.inr hout.2⟩

theorem answer_accounts (h : s.Sound) (hfresh : fresh.Timely) {e : Endpoint}
    {parameters : List (String × List Char)}
    (hfind : Endpoint.find? r.path = some (e, parameters)) :
    s.Accounts fresh r (s.answer fresh r e parameters) ∧
      (s.answer fresh r e parameters).2.Sound := by
  have helsewhere : e ≠ .users → r.path ≠ "/v1/users" := by
    intro hne hpath
    rw [hpath, Endpoint.find?_users] at hfind
    cases hfind
    exact hne rfl
  cases e with
  | users => exact guarded_accounts h hfresh hfind
  | user => exact guarded_accounts h hfresh hfind
  | liveness => exact ⟨accounts_elsewhere (helsewhere nofun) fresh _, h⟩
  | readiness => exact ⟨accounts_elsewhere (helsewhere nofun) fresh _, h⟩
  | description => exact ⟨accounts_elsewhere (helsewhere nofun) fresh _, h⟩

/-- One request stores the user that its answer shows as created, or leaves the users alone. -/
theorem handle_accounts (h : s.Sound) (hfresh : fresh.Timely) (r : Http.Request) :
    s.Accounts fresh r (s.handle fresh r) ∧ (s.handle fresh r).2.Sound := by
  unfold handle
  cases hfind : Endpoint.find? r.path with
  | none =>
    have hpath : r.path ≠ "/v1/users" := by
      intro hpath
      rw [hpath, Endpoint.find?_users] at hfind
      cases hfind
    exact ⟨accounts_elsewhere hpath fresh _, h⟩
  | some found =>
    obtain ⟨e, parameters⟩ := found
    obtain ⟨⟨reply, hreply, hcases⟩, hstill⟩ := answer_accounts h hfresh hfind
    refine ⟨?_, hstill⟩
    dsimp only
    rw [hreply]
    by_cases hhead : r.method = "HEAD"
    · have hpost : r.method ≠ "POST" := by
        rw [hhead]
        decide
      obtain ⟨n, -, hcreates⟩ | ⟨husers, -⟩ := hcases
      · exact absurd hcreates.1 hpost
      · exact ⟨_, rfl, Or.inr ⟨husers, fun hcreates => hpost hcreates.1⟩⟩
    · refine ⟨reply, by rw [Option.map_some, if_neg hhead], ?_⟩
      obtain ⟨n, hstores, hcreates⟩ | ⟨husers, hnot⟩ := hcases
      · refine Or.inl ⟨n, ⟨hstores.admitted, ?_, hstores.users⟩, hcreates⟩
        rw [← hstores.reply, hreply, Option.map_some, if_neg hhead]
      · exact Or.inr ⟨husers, hnot⟩

end Service

end Conform
