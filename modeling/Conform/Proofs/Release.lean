import Conform.Proofs.Conformance
import Conform.Proofs.Descent
import Conform.Service

/-!
# What the gate lets out

A handler behind the gate answers for nothing that its document declares: the
body it replies with is let out once it is valid, and then as what validating
made of it. Everything else that may go out in its place is known beforehand,
and nothing goes out at all only where validating the body does not end.
-/

namespace Conform

namespace Verdict

variable {verdict : Verdict} {w : Json}

/-- The value is turned down, or what it should be does not compile. -/
inductive Refuses : Verdict → Prop
  | rejected (report : Report) : Refuses (.rejected report)
  | uncompiled (error : CompileError) : Refuses (.uncompiled error)

theorem result?_eq_ok_iff : verdict.result? = some (.ok w) ↔ verdict = .accepted w := by
  cases verdict <;> simp [result?]

theorem refuses_iff : verdict.Refuses ↔ ∃ failure, verdict.result? = some (.error failure) := by
  constructor
  · rintro (⟨report⟩ | ⟨error⟩)
    · exact ⟨_, rfl⟩
    · exact ⟨_, rfl⟩
  · rintro ⟨failure, h⟩
    cases verdict with
    | rejected report => exact .rejected report
    | uncompiled error => exact .uncompiled error
    | _ => cases h

theorem result?_eq_none_iff : verdict.result? = none ↔ verdict = .endless := by
  cases verdict <;> simp [result?]

end Verdict

/-- The reply that tells of a failure inside, and of nothing else. -/
def Http.Reply.concealed : Http.Reply :=
  .json 500 (.obj [("error", .obj
    [("code", .str "INTERNAL_ERROR"), ("message", .str "An internal error occurred")])])

namespace Failure

/-- The reason of an internal failure is not in its body. -/
theorem body_internal (reason : String) : (internal reason).body =
    .obj [("error", .obj
      [("code", .str "INTERNAL_ERROR"), ("message", .str "An internal error occurred")])] := by
  simp only [body, code, publicMessage, details, List.append_nil]
  decide +kernel

theorem reply_internal (reason : String) : (internal reason).reply = .concealed := by
  unfold reply
  rw [body_internal]
  rfl

theorem reply_ofReport {report : Report} (h : report.channel = .response) :
    (ofReport report).reply = .concealed := by
  rw [ofReport, if_pos h, reply_internal]

theorem reply_ofCompileError (error : CompileError) :
    (ofCompileError error).reply = .concealed := reply_internal _

end Failure

namespace Session

variable {s : Session} {method template : String} {reply out : Http.Reply} {target : Target}
  {channel : Channel} {report : Report} {v w : Json}

/-- A reply that has to be validated: its response is declared, and it carries a JSON value. -/
structure Declares (s : Session) (method template : String) (reply : Http.Reply)
    (target : Target) : Prop where
  declared : s.store.document.operations.responseTarget? method template reply.status = some target
  json : reply.carriesJson = true
  nonempty : reply.body.isEmpty = false

/-- What may go out in place of a reply. -/
inductive Releases (s : Session) (method template : String) (reply : Http.Reply) :
    Http.Reply → Prop
  | undeclared
      (h : s.store.document.operations.responseTarget? method template reply.status = none) :
      Releases s method template reply reply
  | otherwise (h : reply.carriesJson = false) : Releases s method template reply reply
  | empty (h : reply.body.isEmpty = true) : Releases s method template reply reply
  | coerced {target : Target} {v w : Json} (h : s.Declares method template reply target)
      (hsize : reply.body.size ≤ releaseLimit) (hread : Json.readBytes? reply.body = some v)
      (haccepted : (s.validate v target .response).1 = .accepted w) :
      Releases s method template reply (reply.withValue w)
  | oversized {target : Target} (h : s.Declares method template reply target)
      (hsize : releaseLimit < reply.body.size) : Releases s method template reply .concealed
  | unreadable {target : Target} (h : s.Declares method template reply target)
      (hread : Json.readBytes? reply.body = none) : Releases s method template reply .concealed
  | refused {target : Target} {v : Json} (h : s.Declares method template reply target)
      (hread : Json.readBytes? reply.body = some v)
      (hrefused : (s.validate v target .response).1.Refuses) :
      Releases s method template reply .concealed

/-- A reply in whose place nothing goes out, since validating its body does not end. -/
def Withholds (s : Session) (method template : String) (reply : Http.Reply) : Prop :=
  ∃ target v, s.Declares method template reply target ∧ reply.body.size ≤ releaseLimit ∧
    Json.readBytes? reply.body = some v ∧ (s.validate v target .response).1 = .endless

theorem channel_of_rejected (h : (s.validate v target channel).1 = .rejected report) :
    report.channel = channel := by
  unfold validate at h
  split at h
  · cases h
  · next validator t _ =>
    cases hfound : t.cache.outcome? validator channel.stringEncoded v with
    | none =>
      rw [hfound] at h
      cases h
    | some o =>
      simp only [hfound, Verdict.ofOutcome] at h
      split at h <;> cases h
      rfl

/-- A response that is not accepted is a failure inside, whatever is wrong with it. -/
theorem reply_of_refused {failure : Failure}
    (h : (s.validate v target .response).1.result? = some (.error failure)) :
    failure.reply = .concealed := by
  cases hverdict : (s.validate v target .response).1 with
  | accepted w =>
    rw [hverdict] at h
    cases h
  | rejected report =>
    rw [hverdict] at h
    cases h
    exact Failure.reply_ofReport (channel_of_rejected hverdict)
  | uncompiled error =>
    rw [hverdict] at h
    cases h
    exact Failure.reply_ofCompileError error
  | endless =>
    rw [hverdict] at h
    cases h

theorem release_of_passed (h : s.releaseTarget? method template reply = none) :
    s.release method template reply = (some reply, s) := by
  unfold release
  rw [h]

theorem release_undeclared
    (h : s.store.document.operations.responseTarget? method template reply.status = none) :
    s.release method template reply = (some reply, s) := by
  refine release_of_passed ?_
  unfold releaseTarget?
  rw [h]

theorem release_otherwise (h : reply.carriesJson = false) :
    s.release method template reply = (some reply, s) := by
  refine release_of_passed ?_
  unfold releaseTarget?
  cases s.store.document.operations.responseTarget? method template reply.status with
  | none => rfl
  | some target => simp [h]

theorem release_empty (h : reply.body.isEmpty = true) :
    s.release method template reply = (some reply, s) := by
  have hsize : reply.body.size = 0 := by simpa [ByteArray.isEmpty] using h
  unfold release
  split
  · rfl
  · rw [if_neg (by omega), if_pos h]

namespace Declares

variable (h : s.Declares method template reply target)

include h

theorem releaseTarget? : s.releaseTarget? method template reply = some target := by
  unfold Session.releaseTarget?
  rw [h.declared]
  exact if_pos h.json

theorem release_oversized (hsize : releaseLimit < reply.body.size) :
    (s.release method template reply).1 = some .concealed := by
  unfold Session.release
  rw [h.releaseTarget?]
  dsimp only
  rw [if_pos hsize]
  exact congrArg some (Failure.reply_internal _)

/-- A reply of a size that is validated goes out as its value allows. -/
theorem release_sized (hsize : reply.body.size ≤ releaseLimit) :
    s.release method template reply =
      match Json.readBytes? reply.body with
      | none => (some (Failure.internal "handler produced invalid JSON").reply, s)
      | some v =>
        match (s.validate v target .response).1.result? with
        | some (.ok w) => (some (reply.withValue w), (s.validate v target .response).2)
        | some (.error failure) => (some failure.reply, (s.validate v target .response).2)
        | none => (none, (s.validate v target .response).2) := by
  unfold Session.release
  rw [h.releaseTarget?]
  dsimp only
  rw [if_neg (Nat.not_lt.mpr hsize)]
  exact if_neg (by rw [h.nonempty]; exact Bool.false_ne_true)

theorem release_unreadable (hread : Json.readBytes? reply.body = none) :
    (s.release method template reply).1 = some .concealed := by
  by_cases hsize : reply.body.size ≤ releaseLimit
  · rw [h.release_sized hsize, hread]
    exact congrArg some (Failure.reply_internal _)
  · exact h.release_oversized (Nat.lt_of_not_le hsize)

theorem release_coerced (hsize : reply.body.size ≤ releaseLimit)
    (hread : Json.readBytes? reply.body = some v)
    (haccepted : (s.validate v target .response).1 = .accepted w) :
    s.release method template reply =
      (some (reply.withValue w), (s.validate v target .response).2) := by
  rw [h.release_sized hsize, hread]
  dsimp only
  rw [Verdict.result?_eq_ok_iff.mpr haccepted]

theorem release_refused (hread : Json.readBytes? reply.body = some v)
    (hrefused : (s.validate v target .response).1.Refuses) :
    (s.release method template reply).1 = some .concealed := by
  by_cases hsize : reply.body.size ≤ releaseLimit
  · obtain ⟨failure, hfailure⟩ := Verdict.refuses_iff.mp hrefused
    rw [h.release_sized hsize, hread]
    dsimp only
    rw [hfailure]
    exact congrArg some (reply_of_refused hfailure)
  · exact h.release_oversized (Nat.lt_of_not_le hsize)

theorem release_withheld (hsize : reply.body.size ≤ releaseLimit)
    (hread : Json.readBytes? reply.body = some v)
    (hendless : (s.validate v target .response).1 = .endless) :
    (s.release method template reply).1 = none := by
  rw [h.release_sized hsize, hread]
  dsimp only
  rw [Verdict.result?_eq_none_iff.mpr hendless]

end Declares

/-- A reply that has to be validated goes out coerced or concealed, or nothing goes out. -/
theorem Declares.release_cases (h : s.Declares method template reply target) :
    (∃ out, (s.release method template reply).1 = some out ∧
      s.Releases method template reply out) ∨
    ((s.release method template reply).1 = none ∧ s.Withholds method template reply) := by
  by_cases hsize : reply.body.size ≤ releaseLimit
  · cases hread : Json.readBytes? reply.body with
    | none => exact Or.inl ⟨_, h.release_unreadable hread, .unreadable h hread⟩
    | some v =>
      cases hverdict : (s.validate v target .response).1 with
      | accepted w =>
        refine Or.inl ⟨_, ?_, .coerced h hsize hread hverdict⟩
        rw [h.release_coerced hsize hread hverdict]
      | rejected report =>
        have hrefused : (s.validate v target .response).1.Refuses := hverdict ▸ .rejected report
        exact Or.inl ⟨_, h.release_refused hread hrefused, .refused h hread hrefused⟩
      | uncompiled error =>
        have hrefused : (s.validate v target .response).1.Refuses := hverdict ▸ .uncompiled error
        exact Or.inl ⟨_, h.release_refused hread hrefused, .refused h hread hrefused⟩
      | endless =>
        exact Or.inr ⟨h.release_withheld hsize hread hverdict,
          target, v, h, hsize, hread, hverdict⟩
  · have hover := Nat.lt_of_not_le hsize
    exact Or.inl ⟨_, h.release_oversized hover, .oversized h hover⟩

theorem release_cases (s : Session) (method template : String) (reply : Http.Reply) :
    (∃ out, (s.release method template reply).1 = some out ∧
      s.Releases method template reply out) ∨
    ((s.release method template reply).1 = none ∧ s.Withholds method template reply) := by
  cases hdeclared :
      s.store.document.operations.responseTarget? method template reply.status with
  | none =>
    refine Or.inl ⟨reply, ?_, .undeclared hdeclared⟩
    rw [release_undeclared hdeclared]
  | some target =>
    cases hjson : reply.carriesJson with
    | false =>
      refine Or.inl ⟨reply, ?_, .otherwise hjson⟩
      rw [release_otherwise hjson]
    | true =>
      cases hempty : reply.body.isEmpty with
      | true =>
        refine Or.inl ⟨reply, ?_, .empty hempty⟩
        rw [release_empty hempty]
      | false => exact Declares.release_cases ⟨hdeclared, hjson, hempty⟩

/-- What goes out is what may go out, and nothing else is. -/
theorem releases_iff : s.Releases method template reply out ↔
    (s.release method template reply).1 = some out := by
  constructor
  · intro h
    cases h with
    | undeclared h => rw [release_undeclared h]
    | otherwise h => rw [release_otherwise h]
    | empty h => rw [release_empty h]
    | coerced h hsize hread haccepted => rw [h.release_coerced hsize hread haccepted]
    | oversized h hsize => exact h.release_oversized hsize
    | unreadable h hread => exact h.release_unreadable hread
    | refused h hread hrefused => exact h.release_refused hread hrefused
  · intro hout
    obtain ⟨other, hother, hreleases⟩ | ⟨hnone, -⟩ := s.release_cases method template reply
    · cases hother.symm.trans hout
      exact hreleases
    · cases hnone.symm.trans hout

theorem withholds_iff : s.Withholds method template reply ↔
    (s.release method template reply).1 = none := by
  constructor
  · rintro ⟨target, v, h, hsize, hread, hendless⟩
    exact h.release_withheld hsize hread hendless
  · intro hnone
    obtain ⟨out, hout, -⟩ | ⟨-, hwithholds⟩ := s.release_cases method template reply
    · cases hout.symm.trans hnone
    · exact hwithholds

/-- Every declared response ends the checking of a body. -/
def ResponsesEnd (s : Session) (method template : String) (status : Nat) : Prop :=
  ∀ target, s.store.document.operations.responseTarget? method template status = some target →
    s.Descends target .response

theorem ResponsesEnd.release (h : s.ResponsesEnd method template reply.status) :
    ∃ out, (s.release method template reply).1 = some out := by
  obtain ⟨out, hout, -⟩ | ⟨-, target, v, hdeclares, -, -, hendless⟩ :=
    s.release_cases method template reply
  · exact ⟨out, hout⟩
  · exact absurd hendless ((h target hdeclares.declared).ends v)

end Session

namespace Service

variable {s : Service} {method route : String} {handler : Service → Option Http.Reply × Service}

theorem guarded_of_unready (h : s.gate.slot = none) :
    s.guarded method route handler = (some Failure.notReady.reply, s) := by
  unfold guarded
  rw [h]

/-- The guard passes on what the session of the gate releases in place of the reply. -/
theorem guarded_eq {ready session : Session} {reply : Http.Reply}
    (hready : s.gate.slot = some ready) (hreply : (handler s).1 = some reply)
    (hsession : (handler s).2.gate.slot = some session) :
    s.guarded method route handler =
      ((session.release method (Http.template route) reply).1,
        { (handler s).2 with
          gate := .ready (session.release method (Http.template route) reply).2 }) := by
  unfold guarded Gate.release
  rw [hready]
  cases hhandler : handler s with
  | mk answer t =>
    rw [hhandler] at hreply hsession
    subst hreply
    dsimp only
    rw [hsession]

/--
Until the gate is ready the handler is not run and its absence is told. From then on, what goes
out in place of its reply is what may go out, whatever the handler does. Nothing goes out exactly
where validating the body of the reply does not end, and it ends for all responses whose types
go down into the value.
-/
theorem guarded_releases (s : Service) (method route : String)
    (handler : Service → Option Http.Reply × Service) :
    (s.gate.slot = none → s.guarded method route handler = (some Failure.notReady.reply, s)) ∧
    Failure.notReady.reply.status = 503 ∧
    ∀ ready session reply, s.gate.slot = some ready → (handler s).1 = some reply →
      (handler s).2.gate.slot = some session →
      (∀ out, session.Releases method (Http.template route) reply out ↔
        (s.guarded method route handler).1 = some out) ∧
      (session.Withholds method (Http.template route) reply ↔
        (s.guarded method route handler).1 = none) ∧
      (session.ResponsesEnd method (Http.template route) reply.status →
        ∃ out, (s.guarded method route handler).1 = some out) := by
  refine ⟨guarded_of_unready, rfl, fun ready session reply hready hreply hsession => ?_⟩
  rw [guarded_eq hready hreply hsession]
  exact ⟨fun _ => Session.releases_iff, Session.withholds_iff, Session.ResponsesEnd.release⟩

/-- A store that declares one response, an integer. -/
def counterStore : Store where
  document :=
    { definitions := []
      operations := ⟨[(⟨"get", "/counters/\x7bname\x7d"⟩,
        ⟨none, [("2XX", .inline Session.integerDefinition)]⟩)]⟩ }
  fields := FieldTable.empty
  exclusions := Exclusions.empty

/-- A reply of three bytes that are meant for a number. -/
def counterReply (body : String) : Http.Reply :=
  ⟨200, [("content-type", "application/json"), ("content-length", "3")], body.toUTF8⟩

/-- A number in quotes goes out without them, and another text does not go out. -/
theorem counter_released :
    (ofSession (.ofStore counterStore)).gate.slot = some (.ofStore counterStore) ∧
    (Session.ofStore counterStore).Releases "GET" (Http.template "/counters/:name")
      (counterReply "\"7\"") ⟨200, [("content-type", "application/json")], "7".toUTF8⟩ ∧
    (Session.ofStore counterStore).Releases "GET" (Http.template "/counters/:name")
      (counterReply "\"x\"") .concealed := by
  have hreleases (body : String) (out : Http.Reply)
      (hout : ((ofSession (.ofStore counterStore)).guarded "GET" "/counters/:name"
        fun s => (some (counterReply body), s)).1 = some out) :
      (Session.ofStore counterStore).Releases "GET" (Http.template "/counters/:name")
        (counterReply body) out :=
    ((guarded_releases (ofSession (.ofStore counterStore)) "GET" "/counters/:name"
      fun s => (some (counterReply body), s)).2.2 _ _ _ rfl rfl rfl).1 out |>.mpr hout
  exact ⟨rfl, hreleases _ _ (by decide +kernel), hreleases _ _ (by decide +kernel)⟩

/-- A store with one response, of a type that is another name of itself by way of a second one. -/
def circularStore : Store where
  document :=
    { definitions :=
        [(⟨"Left", by decide⟩, Session.plainDefinition
            { reference := some "#/components/schemas/Right" }),
          (⟨"Right", by decide⟩, Session.plainDefinition
            { reference := some "#/components/schemas/Left" })]
      operations := ⟨[(⟨"get", "/counters/\x7bname\x7d"⟩,
        ⟨none, [("2XX", .named ⟨"Left", by decide⟩)]⟩)]⟩ }
  fields := FieldTable.empty
  exclusions := Exclusions.empty

/-- A reply of that type is held back, since checking its body does not end. -/
example : ((ofSession (.ofStore circularStore)).guarded "GET" "/counters/:name" fun s =>
    (some (counterReply "\"7\""), s)).1.isNone = true := by
  decide +kernel

end Service

end Conform
