import Conform.Proofs.Finding

/-!
# Users that are kept

The users of a service are the ones that its answers have shown as created. A
service keeps a list of users if its records hold these and no others; each
event adds the user that it is answered with, or none.
-/

namespace Conform

namespace Service

/-- What happens to a service. -/
inductive Event where
  /-- A session is installed. -/
  | install
  | request (fresh : Fresh) (r : Http.Request)

namespace Event

/-- What the event brings along for a request. -/
def fresh? : Event → Option Fresh
  | install => none
  | request fresh _ => some fresh

/-- What the event brings along is as the service expects it. -/
def Timely (e : Event) : Prop := ∀ fresh ∈ e.fresh?, fresh.Timely

/-- The ids that events bring along. -/
def ids (events : List Event) : List Uuid :=
  (events.filterMap fresh?).map Fresh.id

end Event

variable (session : Session)

/-- The service after an event. -/
def next (s : Service) : Event → Service
  | .install => (s.install session).2
  | .request fresh r => (s.handle fresh r).2

/-- The service after events. -/
def after (s : Service) (events : List Event) : Service := events.foldl (next session) s

/-- The answer to an event, if it says that there is a new user. -/
def created? (s : Service) : Event → Option Http.Reply
  | .install => none
  | .request fresh r => (s.handle fresh r).1.filter fun reply => decide (Creates r reply)

/-- The answers to events that say that there is a new user. -/
def created : Service → List Event → List Http.Reply
  | _, [] => []
  | s, e :: rest => (s.created? e).toList ++ created (s.next session e) rest

/-- The answer that a user has been created. -/
def creationOf (u : User) : Http.Reply := .json 201 u.toJson

/-- The records of the service are the users, each under its id. -/
structure Keeps (s : Service) (users : List User) : Prop where
  sound : s.Sound
  showable : ∀ u ∈ users, u.Showable
  distinct : (users.map User.id).Nodup
  records : s.users.entries.Perm (users.map fun u => (u.id, u))

variable {session} {s t : Service} {users : List User} {e : Event} {events : List Event}

theorem keeps_cold : cold.Keeps [] where
  sound := Or.inl rfl
  showable _ h := nomatch h
  distinct := List.nodup_nil
  records := List.Perm.refl []

theorem Keeps.same (h : s.Keeps users) (hsound : t.Sound) (husers : t.users = s.users) :
    t.Keeps users :=
  ⟨hsound, h.showable, h.distinct, husers ▸ h.records⟩

theorem Keeps.keys (h : s.Keeps users) :
    (Table.keys s.users.entries).Perm (users.map User.id) := by
  have hkeys := h.records.map Prod.fst
  rwa [List.map_map] at hkeys

/-- Every user that is kept is found. -/
theorem Keeps.get?_of_mem (h : s.Keeps users) {u : User} (hu : u ∈ users) :
    s.users.get? u.id = some u := by
  refine Table.get?_of_mem (h.keys.nodup_iff.mpr h.distinct) ?_
  exact h.records.mem_iff.mpr (List.mem_map_of_mem hu)

/-- Nothing else is found. -/
theorem Keeps.mem_of_get? (h : s.Keeps users) {u : User} {id : Uuid}
    (hget : s.users.get? id = some u) : u ∈ users ∧ u.id = id := by
  obtain ⟨other, hother, heq⟩ := List.mem_map.mp (h.records.mem_iff.mp (Table.mem_of_get? hget))
  cases heq
  exact ⟨hother, rfl⟩

theorem Keeps.get?_eq_none (h : s.Keeps users) {id : Uuid} (hid : id ∉ users.map User.id) :
    s.users.get? id = none :=
  Table.get?_eq_none_iff.mpr fun hmem => hid (h.keys.mem_iff.mp hmem)

/-- Storing a user under a new id adds it to the users that are kept. -/
theorem Keeps.add (h : s.Keeps users) {u : User} (hsound : t.Sound) (hu : u.Showable)
    (hid : u.id ∉ users.map User.id) (husers : t.users = s.users.insert u.id u) :
    t.Keeps (users ++ [u]) where
  sound := hsound
  showable := by
    simp only [List.mem_append, List.mem_singleton]
    rintro v (hv | rfl)
    · exact h.showable v hv
    · exact hu
  distinct := by
    rw [List.map_append]
    exact List.nodup_append.mpr ⟨h.distinct, List.nodup_singleton _, fun a ha b hb heq => by
      cases List.mem_singleton.mp hb
      exact hid (heq ▸ ha)⟩
  records := by
    have hnew : u.id ∉ Table.keys s.users.entries := fun hmem => hid (h.keys.mem_iff.mp hmem)
    rw [husers, List.map_append]
    refine (Table.insert_perm hnew).trans ?_
    exact (h.records.cons _).trans (List.perm_append_singleton _ _).symm

theorem install_sound (h : s.Sound) (hsession : session.IsDescribed) :
    (s.install session).2.Sound ∧ (s.install session).2.users = s.users := by
  unfold install Gate.install
  cases hslot : s.gate.slot with
  | none => exact ⟨Or.inr ⟨session, rfl, hsession⟩, rfl⟩
  | some ready => exact ⟨by simpa [Sound, Described, hslot] using h, rfl⟩

/-- An event adds the user that it is answered with, or none. -/
theorem Keeps.step (h : s.Keeps users) (hsession : session.IsDescribed) (he : e.Timely) :
    (s.created? e = none ∧ (s.next session e).users = s.users ∧ (s.next session e).Keeps users) ∨
      ∃ u, s.created? e = some (creationOf u) ∧ e.fresh?.map Fresh.id = some u.id ∧
        (u.id ∉ users.map User.id → (s.next session e).Keeps (users ++ [u])) := by
  cases e with
  | install =>
    obtain ⟨hsound, husers⟩ := install_sound h.sound hsession
    exact Or.inl ⟨rfl, husers, h.same hsound husers⟩
  | request fresh r =>
    have hfresh := he fresh rfl
    obtain ⟨⟨reply, hreply, hcases⟩, hsound⟩ := handle_accounts h.sound hfresh r
    have hcreated : s.created? (.request fresh r) = if Creates r reply then some reply else none := by
      unfold created?
      dsimp only
      rw [hreply, Option.filter_some]
      simp only [decide_eq_true_eq]
    obtain ⟨n, hstores, hcreates⟩ | ⟨husers, hnot⟩ := hcases
    · refine Or.inr ⟨User.create fresh.id fresh.time n, ?_, rfl, fun hid => ?_⟩
      · rw [hcreated, if_pos hcreates, ← hreply]
        exact hstores.reply
      · exact h.add hsound (hstores.admitted.showable hfresh) hid hstores.users
    · exact Or.inl ⟨hcreated.trans (if_neg hnot), husers, h.same hsound husers⟩

/-- Events add the users that they are answered with, in their order. -/
theorem Keeps.run (hsession : session.IsDescribed) (h : s.Keeps users)
    (htimely : ∀ e ∈ events, e.Timely) (hdistinct : (users.map User.id ++ Event.ids events).Nodup) :
    ∃ more : List User, s.created session events = more.map creationOf ∧
      (s.after session events).Keeps (users ++ more) := by
  induction events generalizing s users with
  | nil => exact ⟨[], rfl, by rwa [List.append_nil]⟩
  | cons e rest ih =>
    obtain ⟨he, hrest⟩ := List.forall_mem_cons.mp htimely
    obtain ⟨hnone, -, hkeeps⟩ | ⟨u, hsome, hid, hkeeps⟩ := h.step hsession he
    · have hids : (users.map User.id ++ Event.ids rest).Nodup := by
        refine hdistinct.sublist ((List.Sublist.refl _).append ?_)
        exact ((List.sublist_cons_self e rest).filterMap _).map _
      obtain ⟨more, hmore, hafter⟩ := ih hkeeps hrest hids
      refine ⟨more, ?_, hafter⟩
      rw [created, hnone, hmore]
      rfl
    · obtain ⟨fresh, hfresh, hsame⟩ := Option.map_eq_some_iff.mp hid
      have hids : Event.ids (e :: rest) = u.id :: Event.ids rest := by
        unfold Event.ids
        rw [List.filterMap_cons_some hfresh, List.map_cons, hsame]
      rw [hids] at hdistinct
      have hnew : u.id ∉ users.map User.id := fun hmem =>
        (List.nodup_append.mp hdistinct).2.2 u.id hmem u.id List.mem_cons_self rfl
      obtain ⟨more, hmore, hafter⟩ := ih (hkeeps hnew) hrest (by simpa using hdistinct)
      refine ⟨u :: more, ?_, by simpa [after] using hafter⟩
      rw [created, hsome, hmore]
      rfl

/-- The request asks for one user, by a text in its path. -/
def AsksBy (r : Http.Request) (text : String) : Prop :=
  r.method = "GET" ∧ ∃ raw, r.path = "/v1/users/" ++ raw ∧ '/' ∉ raw.toList ∧ raw ≠ "" ∧
    Http.segmentText? raw = some text

/--
The records of the service are the users, every request is answered, and once the service is ready
it shows these users and no others.
-/
structure AnswersFor (s : Service) (users : List User) : Prop where
  distinct : (users.map User.id).Nodup
  records : s.users.entries.Perm (users.map fun u => (u.id, u))
  answers : ∀ fresh, fresh.Timely → ∀ r, ∃ reply, (s.handle fresh r).1 = some reply
  /-- The path validation accepts the texts that write an id. -/
  accepts : ∀ ready, s.gate.slot = some ready → ∀ text w,
    (ready.validate (Session.pathTo text) (.named Description.userPathName) .path).1 =
      .accepted w ↔
    ∃ id, Uuid.readChars? (Text.trimChars text.toList) = some id ∧ w = Session.pathTo id.text
  shows : s.gate.isReady = true → ∀ fresh r text, AsksBy r text → ∀ u ∈ users,
    Uuid.readChars? (Text.trimChars text.toList) = some u.id →
    (s.handle fresh r).1 = some (.json 200 u.toJson)
  misses : s.gate.isReady = true → ∀ fresh r text, AsksBy r text → ∀ id ∉ users.map User.id,
    Uuid.readChars? (Text.trimChars text.toList) = some id →
    (s.handle fresh r).1 = some (.json 404 (Failure.notFound ("user " ++ id.text)).body)

theorem Keeps.described (h : s.Keeps users) {ready : Session} (hready : s.gate.slot = some ready) :
    ready.IsDescribed := by
  obtain hnone | ⟨other, hother, hdescribed⟩ := h.sound
  · cases hnone.symm.trans hready
  · cases hother.symm.trans hready
    exact hdescribed

theorem Keeps.handle_show (h : s.Keeps users) (hready : s.gate.isReady = true) {fresh : Fresh}
    {r : Http.Request} {text : String} (hasks : AsksBy r text) {id : Uuid}
    (hread : Uuid.readChars? (Text.trimChars text.toList) = some id) :
    (s.handle fresh r).1 = some (s.shownReply id) := by
  obtain ⟨ready, hslot⟩ := Option.isSome_iff_exists.mp hready
  obtain ⟨hmethod, raw, hpath, hslash, hne, htext⟩ := hasks
  exact Service.handle_show hslot (h.described hslot)
    (fun u hu => h.showable u (h.mem_of_get? hu).1) hmethod hpath hslash hne htext hread

theorem Keeps.answersFor (h : s.Keeps users) : s.AnswersFor users where
  distinct := h.distinct
  records := h.records
  answers fresh hfresh r := by
    obtain ⟨⟨reply, hreply, -⟩, -⟩ := handle_accounts h.sound hfresh r
    exact ⟨reply, hreply⟩
  accepts ready hready text w := (h.described hready).validate_pathTo text w
  shows hready fresh r text hasks u hu hread := by
    rw [h.handle_show hready hasks hread, shownReply, h.get?_of_mem hu]
  misses hready fresh r text hasks id hid hread := by
    rw [h.handle_show hready hasks hread, shownReply, h.get?_eq_none hid]
    rfl

/--
The users of a service of the description are those that its answers have shown as created. An
event that is not answered so leaves the users as they are.
-/
theorem users_as_created {files : ReadFile} {port : Nat}
    (hloaded : Startup.loadSession files ⟨port, none, none, []⟩ = .ok session)
    (htimely : ∀ e ∈ events, e.Timely) (hdistinct : (Event.ids events).Nodup) :
    ∃ users : List User, cold.created session events = users.map creationOf ∧
      (cold.after session events).AnswersFor users ∧
      ∀ e : Event, e.Timely → (cold.after session events).created? e = none →
        ((cold.after session events).next session e).users =
          (cold.after session events).users := by
  have hsession := Session.isDescribed_of_loaded hloaded
  obtain ⟨users, hcreated, hkeeps⟩ := keeps_cold.run hsession htimely hdistinct
  refine ⟨users, hcreated, hkeeps.answersFor, fun e he hnone => ?_⟩
  obtain ⟨-, husers, -⟩ | ⟨u, hsome, -⟩ := hkeeps.step hsession he
  · exact husers
  · cases hnone.symm.trans hsome

/-- Noon on a day in 2024. -/
def noon : Moment := ⟨20000, 43200, 0⟩

/-- A request for a new user at noon. -/
def requestFor (id : List Char) (body : String) : Event :=
  .request ⟨⟨id⟩, noon⟩
    ⟨"POST", "/v1/users", "", some "application/json", body.toUTF8⟩

theorem timely_requestFor {id : List Char} (h : Uuid.ofDigits? id = some ⟨id⟩) (body : String) :
    (requestFor id body).Timely := by
  rintro fresh hfresh
  cases hfresh
  have hnoon : noon.Proper := ⟨by decide, by decide, by decide⟩
  have hyear : 0 ≤ noon.year ∧ noon.year ≤ 9999 := by decide
  exact ⟨Uuid.proper_ofDigits? h, hnoon, hyear.1, hyear.2⟩

/-- The same request before there is a session, and after that. -/
def twoRequests : List Event :=
  [requestFor (List.replicate 32 '1') "\x7b\"name\":\"Ann\",\"email\":\"ann@example.com\"\x7d",
    .install,
    requestFor (List.replicate 32 '2') "\x7b\"name\":\"Ann\",\"email\":\"ann@example.com\"\x7d"]

/-- Of the two requests one is answered by a new user, and that is the user who is kept. -/
theorem one_user_created : ∃ session,
    Startup.loadSession (fun path => .error path) ⟨Config.defaultPort, none, none, []⟩ =
      .ok session ∧
    ∃ users : List User, users.length = 1 ∧
      cold.created session twoRequests = users.map creationOf ∧
      (cold.after session twoRequests).AnswersFor users := by
  have hone : ((Startup.loadSession (fun path => .error path)
      ⟨Config.defaultPort, none, none, []⟩).toOption.map fun session =>
        (cold.created session twoRequests).length) = some 1 := by
    decide +kernel
  obtain ⟨session, hsession, hlength⟩ := Option.map_eq_some_iff.mp hone
  have hloaded : Startup.loadSession (fun path => .error path)
      ⟨Config.defaultPort, none, none, []⟩ = .ok session := by
    cases hload : Startup.loadSession (fun path => .error path)
        ⟨Config.defaultPort, none, none, []⟩ with
    | error e =>
      rw [hload] at hsession
      cases hsession
    | ok loaded =>
      rw [hload] at hsession
      cases hsession
      rfl
  have htimely : ∀ e ∈ twoRequests, e.Timely := by
    unfold twoRequests
    simp only [List.forall_mem_cons]
    exact ⟨timely_requestFor (by decide) _, nofun, timely_requestFor (by decide) _, nofun⟩
  obtain ⟨users, hcreated, hanswers, -⟩ := users_as_created hloaded htimely (by decide)
  rw [hcreated, List.length_map] at hlength
  exact ⟨session, hloaded, users, hlength, hcreated, hanswers⟩

end Service

end Conform
