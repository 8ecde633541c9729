import Conform.CommandLine
import Conform.Proofs.Simulation

/-!
# The check foretells the start

The check of a document and the start of a service with it load a store each,
and have their own words for what goes wrong. Step by step they come to the
same, so the check ends as the start would: with everything compiled, with the
first thing that does not compile, or with the file or name that is no good.
-/

namespace Conform

namespace CommandLine

/-- The failure of a command and the failure of a start that are one, told in different words. -/
inductive Matches : CommandError → StartupError → Prop
  | document (path : String) (e : DocumentError) : Matches (.document path e) (.document e)
  | metadata (path : String) (e : DocumentError) : Matches (.metadata path e) (.document e)
  | badExclusion (name : String) (e : NameError) :
      Matches (.badExclusion name e) (.badExclusion name e)

/-- A command and a start come to one value or to one failure. -/
inductive Alike {α : Type} : Except CommandError α → Except StartupError α → Prop
  | ok (a : α) : Alike (.ok a) (.ok a)
  | error {e : CommandError} {e' : StartupError} : Matches e e' → Alike (.error e) (.error e')

theorem Alike.cases {α : Type} {x : Except CommandError α} {y : Except StartupError α}
    (h : Alike x y) : (∃ a, x = .ok a ∧ y = .ok a) ∨
      ∃ e e', Matches e e' ∧ x = .error e ∧ y = .error e' := by
  cases h with
  | ok a => exact .inl ⟨a, rfl, rfl⟩
  | error h => exact .inr ⟨_, _, h, rfl, rfl⟩

/-- What is alike step by step is alike in the end. -/
def alike : Simulation (Except CommandError) (Except StartupError) where
  rel := Alike
  pure := .ok
  bind h hnext := by
    cases h with
    | ok a => exact hnext a
    | error h => exact .error h

theorem alike_mapError {ε α : Type} {tell : ε → CommandError} {tell' : ε → StartupError}
    (h : ∀ e, Matches (tell e) (tell' e)) (x : Except ε α) :
    alike.rel (x.mapError tell) (x.mapError tell') := by
  cases x with
  | ok a => exact .ok a
  | error e => exact .error (h e)

/-- Names are excluded one by one as they are read, or all at once behind the last. -/
theorem alike_excludeAll (names : List String) (exclusions : Exclusions) :
    alike.rel
      (names.mapM (readName .badExclusion) >>= fun read => .ok (exclusions.registerAll read))
      (Startup.excludeAll exclusions names) := by
  induction names generalizing exclusions with
  | nil => exact .ok exclusions
  | cons name rest ih =>
    unfold Startup.excludeAll
    rw [List.mapM_cons, List.foldlM_cons, readName]
    cases TypeName.ofText name with
    | error e => exact .error (.badExclusion name e)
    | ok typeName =>
      change alike.rel
        ((rest.mapM (readName .badExclusion) >>= fun read => pure (typeName :: read)) >>= _) _
      rw [bind_assoc]
      exact ih (exclusions.register typeName)

namespace Inputs

variable (files : ReadFile) (inputs : Inputs) (port : Nat)

/-- A service that starts with the same files and names. -/
def config (inputs : Inputs) (port : Nat) : Config where
  port := port
  document := some inputs.document
  metadata := inputs.metadata
  exclude := inputs.exclude

/-- The check and the start load one store, or fail at one file or name. -/
theorem alike_loadStore :
    alike.rel (inputs.loadStore files) (Startup.loadStore files (inputs.config port)) := by
  have hexclude (document : Document) (fields : FieldTable) : alike.rel
      (inputs.exclude.mapM (readName .badExclusion) >>= fun names =>
        .ok (Store.mk document fields (Exclusions.empty.registerAll names)))
      (Startup.excludeAll Exclusions.empty inputs.exclude >>= fun exclusions =>
        .ok (Store.mk document fields exclusions)) := by
    have hstore := alike.bind (alike_excludeAll inputs.exclude Exclusions.empty)
      fun exclusions => Alike.ok (Store.mk document fields exclusions)
    rwa [bind_assoc] at hstore
  unfold loadStore Startup.loadStore Startup.loadDocument
  dsimp only [config]
  rw [bind_assoc]
  refine alike.bind (alike_mapError (.document inputs.document) _) fun document => ?_
  cases inputs.metadata with
  | none => exact hexclude document FieldTable.empty
  | some path => exact alike.bind (alike_mapError (.metadata path) _) (hexclude document)

end Inputs

/-- A service starts with a store unless something in it does not compile. -/
theorem warmSession_cases (store : Store) :
    (∃ compiled session, (Session.ofStore store).warmUp = (.ok compiled, session) ∧
      Startup.warmSession store = .ok session ∧ (checkStore store).exit = 0) ∨
    ∃ e, (Session.ofStore store).warmUp.1 = .error e ∧
      Startup.warmSession store = .error (.uncompiled e) ∧
      checkStore store = .printed 1 ("FAIL: " ++ e.message) := by
  unfold Startup.warmSession checkStore
  match (Session.ofStore store).warmUp with
  | (.ok compiled, session) => exact .inl ⟨compiled, session, rfl, rfl, rfl⟩
  | (.error e, session) => exact .inr ⟨e, rfl, rfl, rfl⟩

/-- The check and the start load one store and then compile it, or neither comes so far. -/
theorem check_cases (files : ReadFile) (inputs : Inputs) (port : Nat) :
    (∃ store, inputs.loadStore files = .ok store ∧
      Startup.loadStore files (inputs.config port) = .ok store ∧
      runCheck files inputs = .ok (checkStore store) ∧
      Startup.loadSession files (inputs.config port) = Startup.warmSession store) ∨
    ∃ e e', Matches e e' ∧ inputs.loadStore files = .error e ∧ runCheck files inputs = .error e ∧
      Startup.loadSession files (inputs.config port) = .error e' := by
  have hcheck : runCheck files inputs =
      inputs.loadStore files >>= fun store => .ok (checkStore store) := rfl
  have hstart : Startup.loadSession files (inputs.config port) =
      Startup.loadStore files (inputs.config port) >>= Startup.warmSession := rfl
  rw [hcheck, hstart]
  rcases (inputs.alike_loadStore files port).cases with
    ⟨store, hloads, hloads'⟩ | ⟨e, e', hmatches, hloads, hloads'⟩
  · rw [hloads, hloads']
    exact .inl ⟨store, rfl, rfl, rfl, rfl⟩
  · rw [hloads, hloads']
    exact .inr ⟨e, e', hmatches, rfl, rfl, rfl⟩

/-- What the check of a document says of the start of a service. -/
structure Foretells (files : ReadFile) (inputs : Inputs) (config : Config) : Prop where
  /-- The check passes just where the service starts. -/
  passes : (∃ output, runCheck files inputs = .ok output ∧ output.exit = 0) ↔
    ∃ session, Startup.loadSession files config = .ok session
  /-- It objects just where something does not compile. -/
  objects : (∃ output, runCheck files inputs = .ok output ∧ output.exit = 1) ↔
    ∃ e, Startup.loadSession files config = .error (.uncompiled e)
  /-- The service stops at the failure that the check comes to and prints. -/
  object (e : CompileError) : Startup.loadSession files config = .error (.uncompiled e) ↔
    ∃ store, inputs.loadStore files = .ok store ∧ (Session.ofStore store).warmUp.1 = .error e ∧
      runCheck files inputs = .ok (.printed 1 ("FAIL: " ++ e.message))
  /-- It is not carried out just where the service fails before anything is compiled. -/
  fails : (∃ e, runCheck files inputs = .error e) ↔
    ∃ e, Startup.loadSession files config = .error e ∧ ∀ e', e ≠ .uncompiled e'
  /-- Then both fail at one file or name. -/
  failure (e : CommandError) (e' : StartupError) :
    runCheck files inputs = .error e → Startup.loadSession files config = .error e' → Matches e e'
  /-- Both look at one store. -/
  store (store store' : Store) : inputs.loadStore files = .ok store →
    Startup.loadStore files config = .ok store' → store = store'

/-- Whatever the files hold, the check of a document foretells the start of a service with it. -/
theorem check_foretells (files : ReadFile) (inputs : Inputs) (port : Nat) :
    Foretells files inputs (inputs.config port) := by
  rcases check_cases files inputs port with
    ⟨store, hloads, hloads', hcheck, hstart⟩ | ⟨e, e', hmatches, hloads, hcheck, hstart⟩
  · rcases warmSession_cases store with ⟨compiled, session, hwarm, hsession, hexit⟩ |
      ⟨e, hwarm, hsession, hprinted⟩
    · rw [hsession] at hstart
      exact {
        passes := by simp [hcheck, hstart, hexit]
        objects := by simp [hcheck, hstart, hexit]
        object _ := by simp [hstart, hloads, hwarm]
        fails := by simp [hcheck, hstart]
        failure := by simp [hcheck]
        store := by simp [hloads, hloads'] }
    · rw [hsession] at hstart
      rw [hprinted] at hcheck
      exact {
        passes := by simp [hcheck, hstart, Output.printed]
        objects := by simp [hcheck, hstart, Output.printed]
        object other := by
          constructor
          · intro hother
            cases hstart.symm.trans hother
            exact ⟨store, hloads, hwarm, hcheck⟩
          · rintro ⟨found, hfound, hother, -⟩
            cases hloads.symm.trans hfound
            cases hwarm.symm.trans hother
            exact hstart
        fails := by simp [hcheck, hstart]
        failure := by simp [hcheck]
        store := by simp [hloads, hloads'] }
  · -- what goes wrong before anything is compiled is no failure to compile
    have hloading : ∀ other, e' ≠ .uncompiled other := by cases hmatches <;> nofun
    exact {
      passes := by simp [hcheck, hstart]
      objects := by simp [hcheck, hstart, hloading]
      object _ := by simp [hstart, hloads, hloading]
      fails := by simp [hcheck, hstart, hloading]
      failure := by simp [hcheck, hstart, hmatches]
      store := by simp [hloads] }

end CommandLine

end Conform
