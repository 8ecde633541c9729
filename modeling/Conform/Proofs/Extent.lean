import Conform.Proofs.Printing

/-!
# How long texts are

A value that is read holds no more characters in its strings than there were
in the text. A value that is written takes at most six bytes for each of them,
besides its punctuation.
-/

namespace Conform

namespace Json

mutual

/-- How many characters the strings in a value have; keys do not count. -/
def weight : Json → Nat
  | str s => s.length
  | arr items => weightItems items
  | obj fields => weightFields fields
  | _ => 0

def weightItems : List Json → Nat
  | [] => 0
  | v :: rest => v.weight + weightItems rest

def weightFields : List (String × Json) → Nat
  | [] => 0
  | (_, v) :: rest => v.weight + weightFields rest

end

theorem weightItems_append (items more : List Json) :
    weightItems (items ++ more) = weightItems items + weightItems more := by
  induction items with
  | nil => exact (Nat.zero_add _).symm
  | cons item rest ih =>
    rw [List.cons_append, weightItems, weightItems, ih, Nat.add_assoc]

theorem weightItems_reverse (items : List Json) : weightItems items.reverse = weightItems items := by
  induction items with
  | nil => rfl
  | cons item rest ih =>
    rw [List.reverse_cons, weightItems_append, ih, weightItems, weightItems, weightItems]
    omega

theorem weightFields_insert (key : String) (v : Json) (fields : List (String × Json)) :
    weightFields (Table.insert key v fields) ≤ v.weight + weightFields fields := by
  induction fields with
  | nil => exact Nat.le_refl _
  | cons entry rest ih =>
    obtain ⟨name, w⟩ := entry
    unfold Table.insert
    split
    · simp only [weightFields]
      omega
    · split
      · exact Nat.le_refl _
      · simp only [weightFields]
        omega

theorem weight_le_of_get? {key : String} {v : Json} {fields : List (String × Json)}
    (h : Table.get? key fields = some v) : v.weight ≤ weightFields fields := by
  induction fields with
  | nil => cases h
  | cons entry rest ih =>
    obtain ⟨name, w⟩ := entry
    rw [Table.get?_cons] at h
    rw [weightFields]
    split at h
    · cases h
      exact Nat.le_add_right _ _
    · exact Nat.le_add_left_of_le (ih h)

/-- Two fields have room for both values. -/
theorem weight_add_le_of_get? {key other : String} {v w : Json} {fields : List (String × Json)}
    (hne : key ≠ other) (hv : Table.get? key fields = some v)
    (hw : Table.get? other fields = some w) : v.weight + w.weight ≤ weightFields fields := by
  induction fields with
  | nil => cases hv
  | cons entry rest ih =>
    obtain ⟨name, first⟩ := entry
    rw [Table.get?_cons] at hv hw
    rw [weightFields]
    split at hv
    · next hname =>
      cases hv
      rw [if_neg fun hother => hne (hname.symm.trans hother)] at hw
      exact Nat.add_le_add_left (weight_le_of_get? hw) _
    · split at hw
      · cases hw
        have hrest := weight_le_of_get? hv
        omega
      · exact Nat.le_add_left_of_le (ih hv hw)

section Reading

variable {cs text rest more : List Char} {c : Char} {token : Token}

/-- A character of a string is taken for at least one of the text. -/
theorem readString?_length (h : readString? cs = some (text, more)) :
    text.length + more.length < cs.length := by
  have hround : ∀ {c rest text more},
      (∀ {text more}, readString? rest = some (text, more) →
        text.length + more.length < rest.length) →
      (readString? rest).map (fun found => (c :: found.1, found.2)) = some (text, more) →
      text.length + more.length ≤ rest.length := by
    intro c rest text more ih h
    obtain ⟨found, hread, h⟩ := Option.map_eq_some_iff.mp h
    cases h
    have hshort : found.1.length + found.2.length < rest.length := ih hread
    rw [List.length_cons]
    omega
  fun_induction readString? cs generalizing text more
  case case2 =>
    cases h
    simp
  case case6 ih | case10 ih | case13 ih =>
    have hshort := hround ih h
    simp only [List.length_cons]
    omega
  case case15 ih => exact Nat.lt_succ_of_le (hround ih h)
  all_goals cases h

theorem spanDigits_length (cs : List Char) : (spanDigits cs).2.length ≤ cs.length :=
  List.length_dropWhile_le _ _

theorem spanWhole_length (cs : List Char) : (spanWhole cs).2.length ≤ cs.length := by
  unfold spanWhole
  split
  · exact Nat.le_succ_of_le (spanDigits_length _)
  · exact spanDigits_length _

theorem spanFraction_length (cs : List Char) : (spanFraction cs).2.length ≤ cs.length := by
  unfold spanFraction
  split
  · exact Nat.le_succ_of_le (spanDigits_length _)
  · exact Nat.le_refl _

theorem spanExponent_length (cs : List Char) : (spanExponent cs).2.length ≤ cs.length := by
  unfold spanExponent
  split
  · next sign rest =>
    split
    · split
      · exact Nat.le_succ_of_le (Nat.le_succ_of_le (spanDigits_length rest))
      · exact Nat.le_succ_of_le (spanDigits_length (sign :: rest))
    · exact Nat.le_refl _
  · split
    · exact Nat.zero_le _
    · exact Nat.le_refl _
  · exact Nat.le_refl _

theorem spanNumber_length (cs : List Char) : (spanNumber cs).2.length ≤ cs.length :=
  calc (spanExponent (spanFraction (spanWhole cs).2).2).2.length
    _ ≤ (spanFraction (spanWhole cs).2).2.length := spanExponent_length _
    _ ≤ (spanWhole cs).2.length := spanFraction_length _
    _ ≤ cs.length := spanWhole_length cs

theorem readWord?_length {v : Json} (h : readWord? cs = some (v, more)) :
    v.weight = 0 ∧ more.length ≤ cs.length := by
  unfold readWord? at h
  split at h
  · cases h
    exact ⟨rfl, Nat.le_add_right _ 4⟩
  · cases h
    exact ⟨rfl, Nat.le_add_right _ 5⟩
  · cases h
    exact ⟨rfl, Nat.le_add_right _ 4⟩
  · cases h

/-- The characters in the strings of a token. -/
def Token.weight : Token → Nat
  | .scalar v => v.weight
  | _ => 0

/-- What a token brings and what follows it come from the characters it was read from. -/
theorem readToken?_length (h : readToken? c rest = some (token, more)) :
    token.weight + more.length ≤ rest.length + 1 := by
  have hsymbol : ∀ {symbol : Token}, symbol.weight = 0 → some (symbol, rest) = some (token, more) →
      token.weight + more.length ≤ rest.length + 1 := by
    rintro symbol hweight h
    cases h
    omega
  unfold readToken? at h
  split at h
  · exact hsymbol rfl h
  · exact hsymbol rfl h
  · exact hsymbol rfl h
  · exact hsymbol rfl h
  · exact hsymbol rfl h
  · exact hsymbol rfl h
  · obtain ⟨⟨text, later⟩, hread, h⟩ := Option.map_eq_some_iff.mp h
    cases h
    have hshort := readString?_length hread
    rw [Token.weight, weight, String.length_ofList]
    omega
  · dsimp only at h
    split at h
    · obtain ⟨n, -, h⟩ := Option.map_eq_some_iff.mp h
      cases h
      have hshort := spanNumber_length (c :: rest)
      exact (Nat.zero_add _).symm ▸ hshort
    · obtain ⟨⟨v, later⟩, hword, h⟩ := Option.map_eq_some_iff.mp h
      cases h
      obtain ⟨hweight, hshort⟩ := readWord?_length hword
      rw [Token.weight, hweight, Nat.zero_add]
      exact hshort

end Reading

/-- The characters in the strings that an open container holds. -/
def Frame.weight : Frame → Nat
  | .array done => weightItems done
  | .object done _ => weightFields done

/-- The characters in the strings of the value that has been read. -/
def Expect.weight : Expect → Nat
  | .nothing v => v.weight
  | _ => 0

namespace Machine

/-- The characters in the strings that a machine holds. -/
def weight (m : Machine) : Nat := (m.stack.map Frame.weight).sum + m.expect.weight

variable {m next : Machine} {v : Json} {stack : List Frame} {limit : Nat} {token : Token}

theorem weight_cons (frame : Frame) (stack : List Frame) (expect : Expect) :
    weight ⟨frame :: stack, expect⟩ =
      frame.weight + (stack.map Frame.weight).sum + expect.weight := by
  rw [weight, List.map_cons, List.sum_cons]

theorem deliver_weight (v : Json) (stack : List Frame) :
    (deliver v stack).weight ≤ v.weight + (stack.map Frame.weight).sum := by
  cases stack with
  | nil =>
    rw [deliver, weight, Expect.weight]
    exact Nat.le_of_eq (Nat.add_comm _ _)
  | cons frame rest =>
    rw [List.map_cons, List.sum_cons]
    cases frame with
    | array done =>
      rw [deliver, weight_cons, Expect.weight, Frame.weight, Frame.weight, weightItems]
      · omega
      · exact nofun
    | object done key =>
      have hinsert := weightFields_insert key v done
      rw [deliver, weight_cons, Expect.weight, Frame.weight, Frame.weight]
      · omega
      · exact nofun

theorem enter_weight {frame : Frame} {expect : Expect}
    (h : enter limit frame expect stack = some next) (hframe : frame.weight = 0)
    (hexpect : expect.weight = 0) : next.weight = (stack.map Frame.weight).sum := by
  unfold enter at h
  split at h
  · cases h
    rw [weight_cons, hframe, hexpect, Nat.add_zero, Nat.zero_add]
  · cases h

/-- A step adds no more than its token brings. -/
theorem step_weight (h : m.step limit token = some next) :
    next.weight ≤ m.weight + token.weight := by
  have hstack : (m.stack.map Frame.weight).sum ≤ m.weight := Nat.le_add_right _ _
  have hopen : ∀ {frame stack}, m.stack = frame :: stack →
      frame.weight + (stack.map Frame.weight).sum ≤ m.weight := by
    intro frame stack heq
    rw [heq, List.map_cons, List.sum_cons] at hstack
    exact hstack
  have hscalar : ∀ {v}, (deliver v m.stack).weight ≤ m.weight + v.weight := by
    intro v
    have hdeliver := deliver_weight v m.stack
    omega
  have henter : ∀ {frame expect}, enter limit frame expect m.stack = some next →
      frame.weight = 0 → expect.weight = 0 → next.weight ≤ m.weight + token.weight := by
    intro frame expect h hframe hexpect
    rw [enter_weight h hframe hexpect]
    omega
  have hclose : ∀ {v frame stack}, m.stack = frame :: stack → v.weight ≤ frame.weight →
      (deliver v stack).weight ≤ m.weight + token.weight := by
    intro v frame stack heq hv
    have hdeliver := deliver_weight v stack
    have hheld := hopen heq
    omega
  have hmove : ∀ {frame other stack} {expect : Expect}, m.stack = frame :: stack →
      other.weight = frame.weight → expect.weight = 0 →
      weight ⟨other :: stack, expect⟩ ≤ m.weight + token.weight := by
    intro frame other stack expect heq hframe hexpect
    have hheld := hopen heq
    rw [weight_cons, hframe, hexpect]
    omega
  unfold step at h
  split at h
  -- a scalar where a value may stand
  · cases h
    exact hscalar
  · cases h
    exact hscalar
  -- an array or an object opened there
  · exact henter h rfl rfl
  · exact henter h rfl rfl
  · exact henter h rfl rfl
  · exact henter h rfl rfl
  -- an empty container closed
  · next heq =>
    cases h
    exact hclose heq (Nat.zero_le _)
  · next heq =>
    cases h
    exact hclose heq (Nat.zero_le _)
  -- a key, a colon, a comma
  · next heq =>
    cases h
    exact hmove heq rfl rfl
  · next heq =>
    cases h
    exact hmove heq rfl rfl
  · cases h
    exact Nat.le_add_right_of_le hstack
  · next heq =>
    cases h
    exact hmove heq rfl rfl
  · next heq =>
    cases h
    exact hmove heq rfl rfl
  -- a container closed
  · next done _ _ heq =>
    cases h
    exact hclose heq (Nat.le_of_eq (weightItems_reverse done))
  · next heq =>
    cases h
    exact hclose heq (Nat.le_refl _)
  · cases h

/-- A value holds no more than the machine did that went on to read it, and the text it read. -/
theorem run?_weight {fuel : Nat} {cs rest : List Char}
    (h : m.run? limit fuel cs = some (v, rest)) :
    v.weight + rest.length ≤ m.weight + cs.length := by
  induction fuel generalizing m cs with
  | zero => cases h
  | succ fuel ih =>
    unfold run? at h
    split at h
    · next w _ hresult =>
      cases h
      unfold result? at hresult
      split at hresult
      · next v hexpect =>
        cases hresult
        rw [weight, hexpect, Expect.weight]
        omega
      · cases hresult
    · cases h
    · split at h
      · exact Nat.le_succ_of_le (ih h)
      · obtain ⟨⟨token, rest⟩, htoken, h⟩ := Option.bind_eq_some_iff.mp h
        obtain ⟨next, hnext, h⟩ := Option.bind_eq_some_iff.mp h
        have htaken := readToken?_length htoken
        have hstep := step_weight hnext
        have hread := ih h
        rw [List.length_cons]
        omega

end Machine

end Json

theorem Utf8.startFrom_length (bytes : ByteArray) (fuel place : Nat) :
    (startFrom bytes fuel place).length ≤ fuel := by
  induction fuel generalizing place with
  | zero => exact Nat.le_refl _
  | succ fuel ih =>
    unfold startFrom
    split
    · exact Nat.succ_le_succ (ih _)
    · exact Nat.zero_le _

namespace Json

/-- The strings of a value that bytes start with have no more characters than there are bytes. -/
theorem readFirst?_weight {bytes : ByteArray} {v : Json} (h : readFirst? bytes = some v) :
    v.weight ≤ bytes.size := by
  obtain ⟨⟨w, rest⟩, hstart, rfl⟩ := Option.map_eq_some_iff.mp h
  have hrun := Machine.run?_weight hstart
  have hchars := Utf8.startFrom_length bytes bytes.size 0
  have hmachine : Machine.start.weight = 0 := rfl
  unfold Utf8.start at hrun
  dsimp only
  omega

theorem readFirst?_ordered {bytes : ByteArray} {v : Json} (h : readFirst? bytes = some v) :
    v.Ordered := by
  obtain ⟨⟨w, rest⟩, hstart, rfl⟩ := Option.map_eq_some_iff.mp h
  exact Machine.run?_ordered Machine.start_ordered hstart

/-- An escaped character takes at most the six bytes of a code in hexadecimal digits. -/
theorem escapeChar_size (c : Char) : (String.ofList (escapeChar c)).utf8ByteSize ≤ 6 := by
  have hcode : ∀ n < 32, (String.ofList
      ['\\', 'u', '0', '0', hexDigit (n / 16), hexDigit (n % 16)]).utf8ByteSize ≤ 6 := by
    decide
  unfold escapeChar
  split_ifs with _ _ _ _ _ _ _ hcontrol
  · decide
  · decide
  · decide
  · decide
  · decide
  · decide
  · decide
  · exact hcode c.toNat hcontrol
  · have hsize : (String.ofList [c]).utf8ByteSize = c.utf8Size := by
      rw [String.ofList_cons, String.utf8ByteSize_append, String.utf8ByteSize_singleton]
      rfl
    have hfour := c.utf8Size_le_four
    omega

theorem quote_size (s : String) : (quote s).utf8ByteSize ≤ 6 * s.length + 2 := by
  have hinside : ∀ cs : List Char,
      (String.ofList (cs.flatMap escapeChar)).utf8ByteSize ≤ 6 * cs.length := by
    intro cs
    induction cs with
    | nil => exact Nat.le_refl 0
    | cons c rest ih =>
      have hfirst := escapeChar_size c
      rw [List.flatMap_cons, String.ofList_append, String.utf8ByteSize_append, List.length_cons]
      omega
  have hquote : (String.ofList ['"']).utf8ByteSize = 1 := by decide
  have hchars := hinside s.toList
  rw [String.length_toList] at hchars
  rw [quote, String.ofList_cons, String.ofList_append, String.utf8ByteSize_append,
    String.utf8ByteSize_append, hquote]
  change 1 + _ ≤ _
  omega

mutual

/-- As many bytes as the text of a value can take. -/
def extent : Json → Nat
  | null => 4
  | bool _ => 5
  | num n => n.text.utf8ByteSize
  | str s => 6 * s.length + 2
  | arr items => extentItems items + 2
  | obj fields => extentFields fields + 2

def extentItems : List Json → Nat
  | [] => 0
  | v :: rest => v.extent + 1 + extentItems rest

def extentFields : List (String × Json) → Nat
  | [] => 0
  | (k, v) :: rest => 6 * k.length + 3 + v.extent + 1 + extentFields rest

end

theorem intercalate_size (members : List String) : (",".intercalate members).utf8ByteSize ≤
    (members.map fun m => m.utf8ByteSize + 1).sum := by
  have hcomma : ",".utf8ByteSize = 1 := by decide
  induction members with
  | nil => exact Nat.zero_le _
  | cons first rest ih =>
    rw [List.map_cons, List.sum_cons]
    cases rest with
    | nil =>
      rw [String.intercalate_singleton]
      omega
    | cons next rest =>
      rw [String.intercalate_cons_cons, String.utf8ByteSize_append, String.utf8ByteSize_append,
        hcomma]
      omega

mutual

theorem compact_size : (v : Json) → v.compact.utf8ByteSize ≤ v.extent
  | null => by decide
  | bool true => by decide
  | bool false => by decide
  | num _ => Nat.le_refl _
  | str s => quote_size s
  | arr items => by
    have hitems := Nat.le_trans (intercalate_size (compactItems items)) (compactItems_size items)
    rw [compact, String.utf8ByteSize_append, String.utf8ByteSize_append, extent]
    have hopen : "[".utf8ByteSize = 1 := by decide
    have hclose : "]".utf8ByteSize = 1 := by decide
    omega
  | obj fields => by
    have hfields :=
      Nat.le_trans (intercalate_size (compactFields fields)) (compactFields_size fields)
    rw [compact, String.utf8ByteSize_append, String.utf8ByteSize_append, extent]
    have hopen : "\x7b".utf8ByteSize = 1 := by decide
    have hclose : "\x7d".utf8ByteSize = 1 := by decide
    omega

theorem compactItems_size : (items : List Json) →
    ((compactItems items).map fun m => m.utf8ByteSize + 1).sum ≤ extentItems items
  | [] => Nat.le_refl 0
  | v :: rest => by
    have hv := compact_size v
    have hrest := compactItems_size rest
    rw [compactItems, List.map_cons, List.sum_cons, extentItems]
    omega

theorem compactFields_size : (fields : List (String × Json)) →
    ((compactFields fields).map fun m => m.utf8ByteSize + 1).sum ≤ extentFields fields
  | [] => Nat.le_refl 0
  | (k, v) :: rest => by
    have hk := quote_size k
    have hv := compact_size v
    have hrest := compactFields_size rest
    have hcolon : ":".utf8ByteSize = 1 := by decide
    rw [compactFields, List.map_cons, List.sum_cons, extentFields, String.utf8ByteSize_append,
      String.utf8ByteSize_append]
    omega

end

end Json

end Conform
