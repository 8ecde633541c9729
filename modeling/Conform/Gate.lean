/-!
# Gates

A slot that is filled once and never emptied. Callers that need its content
either look at it or wait for it. Besides the gate itself there is the crowd
of callers around it, each at one of the atomic steps that it goes through.
-/

namespace Conform

variable {α : Type}

/-- A slot that is filled at most once. -/
structure Gate (α : Type) where
  slot : Option α

namespace Gate

def empty : Gate α := ⟨none⟩

/-- A gate that is filled from the start. -/
def ready (value : α) : Gate α := ⟨some value⟩

def isReady (g : Gate α) : Bool := g.slot.isSome

/-- Fill the slot unless it is full; whether it was filled is the answer. -/
def install (g : Gate α) (value : α) : Bool × Gate α :=
  match g.slot with
  | none => (true, ⟨some value⟩)
  | some _ => (false, g)

/-- What a caller asks of a gate. -/
inductive Call (α : Type) where
  | install (value : α)
  | look
  | wait

end Gate

/-- Where a caller of a gate stands. -/
inductive Caller (α : Type) where
  /-- About to fill the slot. -/
  | installing (value : α)
  /-- Has filled the slot and is about to notify those who wait. -/
  | notifying
  | installed (success : Bool)
  /-- About to look into the slot. -/
  | looking
  | looked (found : Option α)
  /-- About to subscribe to the notification. -/
  | waiting
  /-- Has subscribed and is about to look into the slot. -/
  | subscribed (notified : Bool)
  /-- Found the slot empty and is about to park. -/
  | unserved (notified : Bool)
  /-- Goes on once notified. -/
  | parked (notified : Bool)
  | received (value : α)
  deriving DecidableEq, Repr

/-- Where a caller starts. -/
def Gate.Call.start : Gate.Call α → Caller α
  | install value => .installing value
  | look => .looking
  | wait => .waiting

namespace Caller

/-- The caller once a notification is sent; it reaches those who have subscribed. -/
def notify : Caller α → Caller α
  | subscribed _ => subscribed true
  | unserved _ => unserved true
  | parked _ => parked true
  | caller => caller

/-- The gate after the next step of the caller. -/
def fill : Caller α → Gate α → Gate α
  | installing value, gate => (gate.install value).2
  | _, gate => gate

/-- Where the caller stands after its next step, given what it finds in the slot. -/
def next : Caller α → Option α → Caller α
  | installing _, none => notifying
  | installing _, some _ => installed false
  | notifying, _ => installed true
  | looking, found => looked found
  | waiting, _ => subscribed false
  | subscribed _, some value => received value
  | subscribed notified, none => unserved notified
  | unserved false, _ => parked false
  | unserved true, _ => waiting
  | parked true, _ => waiting
  | caller, _ => caller

/-- Whether the next step of the caller notifies the others. -/
def notifies : Caller α → Bool
  | notifying => true
  | _ => false

end Caller

/-- A gate and the callers around it. -/
structure Crowd (α : Type) where
  gate : Gate α
  callers : List (Caller α)

namespace Crowd

/-- Callers around a gate that is not filled yet. -/
def ofCalls (calls : List (Gate.Call α)) : Crowd α := ⟨.empty, calls.map Gate.Call.start⟩

/-- One atomic step of the caller at a place. -/
def step (c : Crowd α) (i : Nat) : Crowd α :=
  match c.callers[i]? with
  | some caller =>
    let callers := if caller.notifies then c.callers.map Caller.notify else c.callers
    ⟨caller.fill c.gate, callers.set i (caller.next c.gate.slot)⟩
  | none => c

/-- The steps of a schedule, which names the caller of each. -/
def run (c : Crowd α) (schedule : List Nat) : Crowd α := schedule.foldl step c

end Crowd

end Conform
