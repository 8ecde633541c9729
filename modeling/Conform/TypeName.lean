import Conform.Text.Blank

/-!
# Type names

The name of a component schema, and the references that point to one. A name
is not empty and holds neither a slash nor a blank; a reference is local and
names the type in its last segment.
-/

namespace Conform

/-- Why a text is no type name or no reference. -/
inductive NameError where
  | badName (text : String)
  | badReference (text : String)
  deriving DecidableEq, Repr

namespace NameError

def message : NameError → String
  | badName text =>
    "invalid type name: \"" ++ text ++
      "\" (expected a non-empty component key without '/' or whitespace)"
  | badReference text =>
    "invalid schema reference: \"" ++ text ++ "\" (expected #/components/schemas/<TypeName>)"

end NameError

/-- The name of a component schema. -/
structure TypeName where
  text : String
  valid : text ≠ "" ∧ text.toList.all (fun c => c != '/' && !Text.isBlank c) = true
  deriving DecidableEq

namespace TypeName

instance : LT TypeName := ⟨fun a b => a.text < b.text⟩

instance : DecidableLT TypeName := fun a b => inferInstanceAs (Decidable (a.text < b.text))

instance : Repr TypeName := ⟨fun name _ => repr name.text⟩

/-- The name that a text is. -/
def ofText (text : String) : Except NameError TypeName :=
  if valid : text ≠ "" ∧ text.toList.all (fun c => c != '/' && !Text.isBlank c) = true then
    .ok ⟨text, valid⟩
  else .error (.badName text)

/-- What stands before the name in a canonical reference. -/
def referenceStart : String := "#/components/schemas/"

/-- The canonical reference to a name. -/
def toReference (name : TypeName) : String := referenceStart ++ name.text

/-- The characters behind the last slash. -/
def lastSegment (cs : List Char) : List Char :=
  (cs.reverse.takeWhile (· != '/')).reverse

/-- The name a local reference points to; only its last segment counts. -/
def ofReference (reference : String) : Except NameError TypeName :=
  match reference.toList with
  | '#' :: '/' :: pointer =>
    match ofText (String.ofList (lastSegment pointer)) with
    | .ok name => .ok name
    | .error _ => .error (.badReference reference)
  | _ => .error (.badReference reference)

theorem ofText_text (name : TypeName) : ofText name.text = .ok name := by
  simp [ofText, name.valid]

theorem text_of_ofText {text : String} {name : TypeName} (h : ofText text = .ok name) :
    name.text = text := by
  unfold ofText at h
  split at h
  · cases h; rfl
  · cases h

theorem lastSegment_append {before cs : List Char} (h : ∀ c ∈ cs, c ≠ '/') :
    lastSegment (before ++ '/' :: cs) = cs := by
  have hstop : ∀ c ∈ cs.reverse, (c != '/') = true := by
    intro c hc
    exact bne_iff_ne.mpr (h c (List.mem_reverse.mp hc))
  unfold lastSegment
  rw [List.reverse_append, List.reverse_cons, List.append_assoc, List.takeWhile_append_of_pos hstop]
  simp

/-- The canonical reference to a name points to it. -/
theorem ofReference_toReference (name : TypeName) : ofReference name.toReference = .ok name := by
  have hchars : ∀ c ∈ name.text.toList, c ≠ '/' := by
    intro c hc
    have hvalid := List.all_eq_true.mp name.valid.2 c hc
    rw [Bool.and_eq_true] at hvalid
    exact bne_iff_ne.mp hvalid.1
  have hlist : name.toReference.toList =
      '#' :: '/' :: ("components/schemas".toList ++ '/' :: name.text.toList) := by
    unfold toReference referenceStart
    rw [String.toList_append]
    rfl
  unfold ofReference
  rw [hlist]
  simp only [lastSegment_append hchars, String.ofList_toList, ofText_text]

end TypeName

end Conform
