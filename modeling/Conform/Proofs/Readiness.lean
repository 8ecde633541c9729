import Conform.Gate
import Mathlib.Data.List.Induction

/-!
# Readiness under every schedule

Callers of a gate take their atomic steps in any order. Who steps first among
those that install decides what the gate holds from then on. One invariant says
where each caller may stand once that is decided; it also says that nobody is
parked behind a notification that was sent already.
-/

namespace Conform

variable {α : Type}

namespace Gate

/-- What the first step of a call at a place sets. -/
def Call.sets? (i : Nat) : Call α → Option (Nat × α)
  | install value => some (i, value)
  | _ => none

/-- The first of a schedule to set the slot: its place and its value. -/
def firstSet? (calls : List (Call α)) (schedule : List Nat) : Option (Nat × α) :=
  schedule.findSome? fun i => calls[i]?.bind (Call.sets? i)

theorem firstSet?_append (calls : List (Call α)) (before after : List Nat) :
    firstSet? calls (before ++ after) = (firstSet? calls before).or (firstSet? calls after) :=
  List.findSome?_append

theorem install_of_firstSet? {calls : List (Call α)} {schedule : List Nat} {i : Nat} {v : α}
    (h : firstSet? calls schedule = some (i, v)) : calls[i]? = some (.install v) := by
  obtain ⟨j, -, hj⟩ := List.exists_of_findSome?_eq_some h
  obtain ⟨call, hcall, hsets⟩ := Option.bind_eq_some_iff.mp hj
  cases call <;> cases hsets
  exact hcall

end Gate

namespace Caller

/-- Two steps of an installing caller come to what `install` answers, whatever happens between them. -/
theorem next_installing (gate : Gate α) (value : α) (found : Option α) :
    ((installing value).next gate.slot).notify.next found = installed (gate.install value).1 := by
  obtain ⟨slot⟩ := gate
  cases slot <;> rfl

/-- Where the caller at a place may stand, given who was first to set the slot. -/
inductive Stands (first : Option (Nat × α)) (i : Nat) : Gate.Call α → Caller α → Prop where
  | installing {value : α} (h : ∀ w, first ≠ some (i, w)) :
      Stands first i (.install value) (installing value)
  | notifying {value : α} (h : first = some (i, value)) : Stands first i (.install value) notifying
  | succeeded {value : α} (h : first = some (i, value)) :
      Stands first i (.install value) (installed true)
  | refused {value w : α} {j : Nat} (h : first = some (j, w)) (hne : j ≠ i) :
      Stands first i (.install value) (installed false)
  | looking : Stands first i .look looking
  | looked {found : Option α} (h : ∀ w, found = some w → ∃ j, first = some (j, w)) :
      Stands first i .look (looked found)
  | waiting : Stands first i .wait waiting
  | subscribed (notified : Bool) : Stands first i .wait (subscribed notified)
  | unserved (notified : Bool) : Stands first i .wait (unserved notified)
  | parked (notified : Bool) : Stands first i .wait (parked notified)
  | received {w : α} {j : Nat} (h : first = some (j, w)) : Stands first i .wait (received w)

/-- Whether the caller has found the slot empty and no notification has reached it since. -/
def isAsleep : Caller α → Bool
  | unserved false | parked false => true
  | _ => false

variable {first set : Option (Nat × α)} {i : Nat} {call : Gate.Call α} {caller : Caller α}

theorem Stands.start (i : Nat) (call : Gate.Call α) : Stands none i call call.start := by
  cases call with
  | install value => exact .installing fun w h => nomatch h
  | look => exact .looking
  | wait => exact .waiting

theorem Stands.notify (h : Stands first i call caller) : Stands first i call caller.notify := by
  cases h with
  | subscribed => exact .subscribed true
  | unserved => exact .unserved true
  | parked => exact .parked true
  | installing h => exact .installing h
  | notifying h => exact .notifying h
  | succeeded h => exact .succeeded h
  | refused h hne => exact .refused h hne
  | looking => exact .looking
  | looked h => exact .looked h
  | waiting => exact .waiting
  | received h => exact .received h

/-- Where a caller stands while another one sets the slot, unless it is set. -/
theorem Stands.elsewhere (h : Stands first i call caller)
    (hset : ∀ j w, set = some (j, w) → j ≠ i) : Stands (first.or set) i call caller := by
  cases first with
  | some first => simpa using h
  | none =>
    cases h with
    | installing h => exact .installing fun w hw => hset i w (by simpa using hw) rfl
    | notifying h => cases h
    | succeeded h => cases h
    | refused h hne => cases h
    | received h => cases h
    | looking => exact .looking
    | looked h =>
      refine .looked fun w hw => ?_
      obtain ⟨j, hj⟩ := h w hw
      cases hj
    | waiting => exact .waiting
    | subscribed notified => exact .subscribed notified
    | unserved notified => exact .unserved notified
    | parked notified => exact .parked notified

/-- Where a caller stands after its own step. -/
theorem Stands.next (h : Stands first i call caller) :
    Stands (first.or (call.sets? i)) i call (caller.next (first.map Prod.snd)) := by
  cases h with
  | @installing value h =>
    cases first with
    | none => exact .notifying rfl
    | some first => exact .refused (j := first.1) (w := first.2) rfl fun heq => h first.2 (by rw [← heq])
  | notifying h => subst h; exact .succeeded rfl
  | succeeded h => subst h; exact .succeeded rfl
  | refused h hne => subst h; exact .refused rfl hne
  | looking =>
    refine .looked fun w hw => ?_
    obtain ⟨⟨j, w'⟩, hfirst, rfl⟩ := Option.map_eq_some_iff.mp hw
    exact ⟨j, by rw [hfirst]; rfl⟩
  | looked h =>
    refine .looked fun w hw => ?_
    obtain ⟨j, hj⟩ := h w hw
    exact ⟨j, by rw [hj]; rfl⟩
  | waiting => exact .subscribed false
  | subscribed notified =>
    cases first with
    | none => exact .unserved notified
    | some first => exact .received (j := first.1) rfl
  | unserved notified => cases notified <;> [exact .parked false; exact .waiting]
  | parked notified => cases notified <;> [exact .parked false; exact .waiting]
  | received h => subst h; exact .received rfl

/-- What the gate holds after a step of a caller. -/
theorem Stands.fill {gate : Gate α} (h : Stands first i call caller)
    (hslot : gate.slot = first.map Prod.snd) :
    (caller.fill gate).slot = (first.or (call.sets? i)).map Prod.snd := by
  cases h with
  | installing h => cases first <;> simp [Caller.fill, Gate.install, hslot, Gate.Call.sets?]
  | notifying h => simp [Caller.fill, hslot, h]
  | succeeded h => simp [Caller.fill, hslot, h]
  | refused h hne => simp [Caller.fill, hslot, h]
  | looking => simp [Caller.fill, hslot, Gate.Call.sets?]
  | looked h => simp [Caller.fill, hslot, Gate.Call.sets?]
  | waiting => simp [Caller.fill, hslot, Gate.Call.sets?]
  | subscribed => simp [Caller.fill, hslot, Gate.Call.sets?]
  | unserved => simp [Caller.fill, hslot, Gate.Call.sets?]
  | parked => simp [Caller.fill, hslot, Gate.Call.sets?]
  | received h => simp [Caller.fill, hslot, h]

/-- Who sets the slot when nobody was first before. -/
theorem Stands.of_none {j : Nat} {w : α} (h : Stands none i call caller)
    (hset : call.sets? i = some (j, w)) : j = i ∧ caller = Caller.installing w := by
  cases h with
  | installing h => cases hset; exact ⟨rfl, rfl⟩
  | notifying h => cases h
  | succeeded h => cases h
  | refused h hne => cases h
  | _ => cases hset

theorem isAsleep_notify (caller : Caller α) : caller.notify.isAsleep = false := by
  cases caller <;> rfl

theorem isAsleep_next (h : caller.isAsleep = false) (value : α) :
    (caller.next (some value)).isAsleep = false := by
  cases caller with
  | unserved notified => cases notified <;> simp_all [isAsleep, next]
  | parked notified => cases notified <;> simp_all [isAsleep, next]
  | _ => rfl

/-- The steps that a caller takes at most until it has received what the gate holds. -/
def turnsLeft : Caller α → Nat
  | unserved _ | parked _ => 3
  | waiting => 2
  | subscribed _ => 1
  | _ => 0

theorem turnsLeft_le (caller : Caller α) : caller.turnsLeft ≤ 3 := by
  cases caller <;> simp [turnsLeft]

theorem turnsLeft_notify (caller : Caller α) : caller.notify.turnsLeft = caller.turnsLeft := by
  cases caller <;> rfl

theorem turnsLeft_next (h : caller.isAsleep = false) (value : α) :
    (caller.next (some value)).turnsLeft = caller.turnsLeft - 1 := by
  cases caller with
  | unserved notified => cases notified <;> simp_all [isAsleep, next, turnsLeft]
  | parked notified => cases notified <;> simp_all [isAsleep, next, turnsLeft]
  | _ => rfl

theorem Stands.received_of_turnsLeft (h : Stands first i .wait caller) (hturns : caller.turnsLeft = 0) :
    ∃ j w, first = some (j, w) ∧ caller = Caller.received w := by
  cases h with
  | received h => exact ⟨_, _, h, rfl⟩
  | _ => cases hturns

end Caller

namespace Crowd

open Caller

variable {c : Crowd α} {calls : List (Gate.Call α)} {first : Option (Nat × α)} {i j : Nat}
  {caller : Caller α} {v : α}

theorem step_none (h : c.callers[i]? = none) : c.step i = c := by
  simp [step, h]

theorem step_gate (h : c.callers[i]? = some caller) : (c.step i).gate = caller.fill c.gate := by
  simp [step, h]

theorem length_step (c : Crowd α) (i : Nat) : (c.step i).callers.length = c.callers.length := by
  unfold step
  split
  · split <;> simp
  · rfl

theorem step_self (h : c.callers[i]? = some caller) :
    (c.step i).callers[i]? = some (caller.next c.gate.slot) := by
  obtain ⟨hi, -⟩ := List.getElem?_eq_some_iff.mp h
  have hlength : i < (if caller.notifies then c.callers.map notify else c.callers).length := by
    split <;> simpa using hi
  simp [step, h, List.getElem?_set_self hlength]

theorem step_elsewhere (h : c.callers[i]? = some caller) (hne : j ≠ i) :
    (c.step i).callers[j]? =
      if caller.notifies then c.callers[j]?.map notify else c.callers[j]? := by
  simp only [step, h, List.getElem?_set_ne hne.symm]
  split <;> simp

/-- A caller that installs and is left alone ends with the answer and the gate of `install`. -/
theorem run_install (gate : Gate α) (value : α) :
    run ⟨gate, [.installing value]⟩ [0, 0] =
      ⟨(gate.install value).2, [.installed (gate.install value).1]⟩ := by
  obtain ⟨slot⟩ := gate
  cases slot <;> rfl

/-- A crowd that started with the calls, when it is known who was first to set the slot. -/
structure Follows (calls : List (Gate.Call α)) (first : Option (Nat × α)) (c : Crowd α) : Prop where
  slot : c.gate.slot = first.map Prod.snd
  length : c.callers.length = calls.length
  stands : ∀ i call caller, calls[i]? = some call → c.callers[i]? = some caller →
    Stands first i call caller
  /-- Once the first has notified, nobody who found the slot empty misses it. -/
  awake : ∀ j w, first = some (j, w) → c.callers[j]? ≠ some .notifying →
    ∀ (i : Nat) (caller : Caller α), c.callers[i]? = some caller → caller.isAsleep = false

theorem Follows.start (calls : List (Gate.Call α)) : (ofCalls calls).Follows calls none where
  slot := rfl
  length := List.length_map _
  stands i call caller hcall hcaller := by
    simp only [ofCalls, List.getElem?_map, hcall, Option.map_some, Option.some.injEq] at hcaller
    subst hcaller
    exact .start i call
  awake j w h := nomatch h

theorem Follows.exists_call (h : c.Follows calls first) (hcaller : c.callers[i]? = some caller) :
    ∃ call, calls[i]? = some call ∧ Stands first i call caller := by
  obtain ⟨hi, -⟩ := List.getElem?_eq_some_iff.mp hcaller
  have hcall := List.getElem?_eq_getElem (h.length ▸ hi)
  exact ⟨_, hcall, h.stands i _ _ hcall hcaller⟩

theorem Follows.exists_caller (h : c.Follows calls first) {call : Gate.Call α}
    (hcall : calls[i]? = some call) :
    ∃ caller, c.callers[i]? = some caller ∧ Stands first i call caller := by
  obtain ⟨hi, -⟩ := List.getElem?_eq_some_iff.mp hcall
  have hcaller := List.getElem?_eq_getElem (h.length.symm ▸ hi)
  exact ⟨_, hcaller, h.stands i _ _ hcall hcaller⟩

/-- After the step of a caller nobody is asleep, unless the slot is empty or about to be notified. -/
theorem Follows.awake_step (h : c.Follows calls first) {call : Gate.Call α}
    (hcall : calls[i]? = some call) (hcaller : c.callers[i]? = some caller) {w : α}
    (hfirst : first.or (call.sets? i) = some (j, w))
    (hdone : (c.step i).callers[j]? ≠ some .notifying) {k : Nat} {other : Caller α}
    (hother : (c.step i).callers[k]? = some other) : other.isAsleep = false := by
  have hself := step_self hcaller
  by_cases hnotifies : caller.notifies = true
  · -- A notification has just gone out.
    by_cases hk : k = i
    · subst hk
      obtain rfl : caller.next c.gate.slot = other := by simpa [hself] using hother
      cases caller <;> first | rfl | cases hnotifies
    · rw [step_elsewhere hcaller hk, if_pos hnotifies] at hother
      obtain ⟨caller, -, rfl⟩ := Option.map_eq_some_iff.mp hother
      exact isAsleep_notify caller
  · cases first with
    | none =>
      -- The slot has just been set.
      obtain ⟨rfl, rfl⟩ := (h.stands i call caller hcall hcaller).of_none hfirst
      exact absurd (by simpa [h.slot, next] using hself) hdone
    | some first =>
      obtain rfl : first = (j, w) := by simpa using hfirst
      have hslot : c.gate.slot = some w := h.slot
      have hbefore : c.callers[j]? ≠ some .notifying := by
        by_cases hji : j = i
        · subst hji
          rw [hcaller]
          rintro ⟨⟩
          exact hnotifies rfl
        · rwa [step_elsewhere hcaller hji, if_neg hnotifies] at hdone
      have hawake := h.awake j w rfl hbefore
      by_cases hk : k = i
      · subst hk
        obtain rfl : caller.next c.gate.slot = other := by simpa [hself] using hother
        rw [hslot]
        exact isAsleep_next (hawake k caller hcaller) w
      · rw [step_elsewhere hcaller hk, if_neg hnotifies] at hother
        exact hawake k other hother

theorem Follows.step (h : c.Follows calls first) (i : Nat) :
    (c.step i).Follows calls (first.or (calls[i]?.bind (Gate.Call.sets? i))) := by
  cases hcaller : c.callers[i]? with
  | none =>
    have hcall : calls[i]? = none := by
      rw [List.getElem?_eq_none_iff] at hcaller ⊢
      exact h.length ▸ hcaller
    simpa [step_none hcaller, hcall] using h
  | some caller =>
    obtain ⟨call, hcall, hstands⟩ := h.exists_call hcaller
    rw [hcall, Option.bind_some]
    refine ⟨?_, (length_step c i).trans h.length, fun j other caller' hother hcaller' => ?_,
      fun j w hfirst hdone k other => h.awake_step hcall hcaller hfirst hdone⟩
    · rw [step_gate hcaller]
      exact hstands.fill h.slot
    · by_cases hj : j = i
      · subst hj
        obtain rfl : call = other := by simpa [hcall] using hother
        obtain rfl : caller.next c.gate.slot = caller' := by
          simpa [step_self hcaller] using hcaller'
        rw [h.slot]
        exact hstands.next
      · have hset : ∀ k w, call.sets? i = some (k, w) → k ≠ j := by
          intro k w hset
          cases call <;> cases hset
          exact Ne.symm hj
        rw [step_elsewhere hcaller hj] at hcaller'
        split at hcaller'
        · obtain ⟨before, hbefore, rfl⟩ := Option.map_eq_some_iff.mp hcaller'
          exact ((h.stands j other before hother hbefore).elsewhere hset).notify
        · exact (h.stands j other caller' hother hcaller').elsewhere hset

theorem Follows.run (h : c.Follows calls first) (schedule : List Nat) :
    (c.run schedule).Follows calls (first.or (Gate.firstSet? calls schedule)) := by
  induction schedule generalizing c first with
  | nil => simpa [Crowd.run, Gate.firstSet?] using h
  | cons i schedule ih =>
    have hrest := ih (h.step i)
    rw [Option.or_assoc] at hrest
    have hfirst : Gate.firstSet? calls (i :: schedule) =
        (calls[i]?.bind (Gate.Call.sets? i)).or (Gate.firstSet? calls schedule) := by
      rw [Gate.firstSet?, List.findSome?_cons]
      cases calls[i]?.bind (Gate.Call.sets? i) <;> rfl
    rwa [hfirst]

theorem follows_run (calls : List (Gate.Call α)) (schedule : List Nat) :
    ((ofCalls calls).run schedule).Follows calls (Gate.firstSet? calls schedule) := by
  simpa using (Follows.start calls).run schedule

theorem run_append (c : Crowd α) (before after : List Nat) :
    c.run (before ++ after) = (c.run before).run after :=
  List.foldl_append

/-- The filled slot, and a caller that sees what is in it if it looks from now on. -/
structure Shows (v : α) (i : Nat) (c : Crowd α) : Prop where
  slot : c.gate.slot = some v
  looks : c.callers[i]? = some .looking ∨ c.callers[i]? = some (.looked (some v))

theorem slot_step (h : c.gate.slot = some v) (i : Nat) : (c.step i).gate.slot = some v := by
  cases hcaller : c.callers[i]? with
  | none => rw [step_none hcaller, h]
  | some caller =>
    rw [step_gate hcaller]
    cases caller <;> simp [fill, Gate.install, h]

theorem Shows.step (h : Shows v i c) (j : Nat) : Shows v i (c.step j) := by
  refine ⟨slot_step h.slot j, ?_⟩
  cases hcaller : c.callers[j]? with
  | none => rw [step_none hcaller]; exact h.looks
  | some caller =>
    by_cases hij : i = j
    · subst hij
      right
      rw [step_self hcaller, h.slot]
      rcases h.looks with hlooks | hlooks <;>
        obtain rfl := Option.some.inj (hcaller.symm.trans hlooks) <;> rfl
    · rw [step_elsewhere hcaller hij]
      rcases h.looks with hlooks | hlooks <;> simp [hlooks, notify]

theorem Shows.run (h : Shows v i c) (schedule : List Nat) : Shows v i (c.run schedule) := by
  induction schedule generalizing c with
  | nil => exact h
  | cons j schedule ih => exact ih (h.step j)

/-- The first installer has notified, and a waiting caller has at most so many steps to go. -/
structure Serves (calls : List (Gate.Call α)) (first : Nat × α) (j turns : Nat) (c : Crowd α) :
    Prop where
  follows : c.Follows calls (some first)
  done : c.callers[first.1]? = some (.installed true)
  waits : calls[j]? = some .wait
  turns : ∃ caller, c.callers[j]? = some caller ∧ caller.turnsLeft ≤ turns

theorem Serves.awake {place : Nat × α} {turns : Nat} (h : c.Serves calls place j turns)
    (hcaller : c.callers[i]? = some caller) : caller.isAsleep = false :=
  h.follows.awake place.1 place.2 rfl (by rw [h.done]; nofun) i caller hcaller

theorem Serves.step {place : Nat × α} {turns : Nat} (h : c.Serves calls place j turns) (i : Nat) :
    (c.step i).Serves calls place j (turns - if i = j then 1 else 0) := by
  cases hcaller : c.callers[i]? with
  | none =>
    have hne : i ≠ j := by
      rintro rfl
      obtain ⟨caller, hj, -⟩ := h.turns
      exact absurd hj (by rw [hcaller]; nofun)
    simpa [step_none hcaller, hne] using h
  | some caller =>
    refine ⟨by simpa using h.follows.step i, ?_, h.waits, ?_⟩
    · by_cases hi : place.1 = i
      · obtain rfl : caller = .installed true :=
          Option.some.inj (hcaller.symm.trans (hi ▸ h.done))
        rw [hi, step_self hcaller]
        rfl
      · rw [step_elsewhere hcaller hi, h.done]
        split <;> rfl
    · obtain ⟨waiter, hwaiter, hturns⟩ := h.turns
      by_cases hj : j = i
      · subst hj
        obtain rfl := Option.some.inj (hcaller.symm.trans hwaiter)
        refine ⟨_, step_self hcaller, ?_⟩
        rw [h.follows.slot, Option.map_some, turnsLeft_next (h.awake hcaller), if_pos rfl]
        omega
      · rw [step_elsewhere hcaller hj, hwaiter, if_neg (Ne.symm hj)]
        split
        · exact ⟨_, rfl, by rwa [turnsLeft_notify]⟩
        · exact ⟨_, rfl, hturns⟩

theorem Serves.run {place : Nat × α} {turns : Nat} (h : c.Serves calls place j turns)
    (schedule : List Nat) : (c.run schedule).Serves calls place j (turns - schedule.count j) := by
  induction schedule generalizing c turns with
  | nil => exact h
  | cons i schedule ih =>
    have hrest := ih (h.step i)
    rw [List.count_cons]
    rw [Nat.sub_sub, Nat.add_comm] at hrest
    simpa [Crowd.run] using hrest

theorem Serves.received {place : Nat × α} (h : c.Serves calls place j 0) :
    c.callers[j]? = some (.received place.2) := by
  obtain ⟨caller, hcaller, hturns⟩ := h.turns
  obtain ⟨k, w, hfirst, rfl⟩ := (h.follows.stands j _ caller h.waits hcaller).received_of_turnsLeft
    (Nat.le_zero.mp hturns)
  cases hfirst
  exact hcaller

/--
Whatever the order of the steps: the gate holds what was set first, from then on; only who set it
is told so; whoever looks or waits gets that value and no other; and once the notification has
gone out nobody is parked without it, but every waiting caller is served by three more steps.
-/
theorem run_decided_by_first (calls : List (Gate.Call α)) (before after : List Nat) :
    let now := (ofCalls calls).run before
    let later := (ofCalls calls).run (before ++ after)
    let first := Gate.firstSet? calls before
    now.gate.slot = first.map Prod.snd ∧
    (∀ (i : Nat) (v : α), first = some (i, v) →
      now.callers[i]? = some .notifying ∨ now.callers[i]? = some (.installed true)) ∧
    (∀ (i : Nat) (success : Bool), now.callers[i]? = some (.installed success) →
      (success = true ↔ first.map Prod.fst = some i)) ∧
    (∀ (i : Nat) (w : α),
      now.callers[i]? = some (.looked (some w)) ∨ now.callers[i]? = some (.received w) →
      now.gate.slot = some w) ∧
    (∀ v, now.gate.slot = some v → later.gate.slot = some v ∧
      (∀ (i : Nat) (found : Option α), now.callers[i]? = some .looking →
        later.callers[i]? = some (.looked found) → found = some v) ∧
      ∀ (i : Nat) (w : α), later.callers[i]? = some (.received w) → w = v) ∧
    (∀ i : Nat, now.callers[i]? = some (.installed true) →
      (∀ j : Nat, now.callers[j]? ≠ some (.parked false)) ∧
      ∀ j : Nat, calls[j]? = some .wait → 3 ≤ after.count j →
        ∃ v, now.gate.slot = some v ∧ later.callers[j]? = some (.received v)) := by
  intro now later first
  have hnow : now.Follows calls first := follows_run calls before
  have hlater : later.Follows calls (first.or (Gate.firstSet? calls after)) :=
    Gate.firstSet?_append calls before after ▸ follows_run calls (before ++ after)
  have hrun : later = now.run after := run_append _ before after
  have hfirst : ∀ {v}, now.gate.slot = some v → ∃ i, first = some (i, v) := by
    intro v hslot
    obtain ⟨⟨i, w⟩, hplace, rfl⟩ := Option.map_eq_some_iff.mp (hnow.slot ▸ hslot)
    exact ⟨i, hplace⟩
  refine ⟨hnow.slot, fun i v hplace => ?_, fun i success hcaller => ?_, fun i w hcaller => ?_,
    fun v hslot => ?_, fun i hcaller => ?_⟩
  · obtain ⟨caller, hcaller, hstands⟩ := hnow.exists_caller (Gate.install_of_firstSet? hplace)
    cases hstands with
    | installing h => exact absurd hplace (h v)
    | notifying h => exact .inl hcaller
    | succeeded h => exact .inr hcaller
    | refused h hne => exact absurd (congrArg Prod.fst (Option.some.inj (h.symm.trans hplace))) hne
  · obtain ⟨call, -, hstands⟩ := hnow.exists_call hcaller
    cases hstands with
    | succeeded h => simp [h]
    | refused h hne => simp [h, hne]
  · rw [hnow.slot]
    rcases hcaller with hcaller | hcaller <;> obtain ⟨call, -, hstands⟩ := hnow.exists_call hcaller
    · cases hstands with
      | looked h =>
        obtain ⟨j, hplace⟩ := h w rfl
        rw [hplace, Option.map_some]
    · cases hstands with
      | received h => rw [h, Option.map_some]
  · obtain ⟨j, hplace⟩ := hfirst hslot
    refine ⟨by simp [hlater.slot, hplace], fun i found hlooking hlooked => ?_, fun i w hcaller => ?_⟩
    · rw [hrun] at hlooked
      rcases (Shows.run ⟨hslot, .inl hlooking⟩ after).looks with hlooks | hlooks
      · rw [hlooks] at hlooked
        cases hlooked
      · rw [hlooks] at hlooked
        cases hlooked
        rfl
    · obtain ⟨call, -, hstands⟩ := hlater.exists_call hcaller
      cases hstands with
      | received h =>
        rw [hplace, Option.some_or] at h
        cases h
        rfl
  · obtain ⟨call, -, hstands⟩ := hnow.exists_call hcaller
    cases hstands with
    | @succeeded v hplace =>
      refine ⟨fun j hparked => ?_, fun j hcall hcount => ⟨v, by simp [hnow.slot, hplace], ?_⟩⟩
      · exact absurd (hnow.awake i v hplace (by rw [hcaller]; nofun) j _ hparked) nofun
      · obtain ⟨waiter, hwaiter, -⟩ := hnow.exists_caller hcall
        have hserves : now.Serves calls (i, v) j 3 :=
          ⟨hplace ▸ hnow, hcaller, hcall, waiter, hwaiter, waiter.turnsLeft_le⟩
        have hserved := hserves.run after
        rw [Nat.sub_eq_zero_of_le hcount] at hserved
        exact hrun ▸ hserved.received

/-- The waiting caller has found the slot empty but is not parked yet when it is notified. -/
example : ((ofCalls [.wait, .install 7]).run [0, 0, 1, 1, 0, 0, 0]).callers =
    [.received 7, .installed true] := by
  decide

end Crowd

end Conform
