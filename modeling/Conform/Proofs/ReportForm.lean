import Conform.Report
import Conform.Proofs.Decoding
import Conform.Proofs.Printing

/-!
# The JSON form of reports

Positions are written as numbers and keys as texts, so a key of digits stays a
key. Every part of a report is read back from what is written of it, the
report from its value tree and from the text of that.
-/

namespace Conform

/-- A list is read back where each of its items is. -/
theorem Decode.list_map {α : Type} {read : Json → Decode.Result α} {write : α → Json}
    {items : List α} (h : ∀ a ∈ items, read (write a) = .ok a) :
    Decode.list read (.arr (items.map write)) = .ok items := by
  change (items.map write).mapM read = .ok items
  induction items with
  | nil => rfl
  | cons a rest ih =>
    obtain ⟨ha, hrest⟩ := List.forall_mem_cons.mp h
    rw [List.map_cons, List.mapM_cons, ha]
    change (((rest.map write).mapM read) >>= _) = _
    rw [ih hrest]
    rfl

theorem Reason.decode_code (r : Reason) : Reason.decode (.str r.code) = .ok r := by
  cases r <;> rfl

theorem Channel.decode_name (c : Channel) : Channel.decode (.str c.name) = .ok c := by
  cases c <;> rfl

theorem Segment.decode_toJson (s : Segment) : Segment.decode s.toJson = .ok s := by
  cases s with
  | key name => rfl
  | index position =>
    have hposition : (0 : Int) ≤ position := Int.natCast_nonneg position
    unfold toJson decode Json.ofNat
    dsimp only
    rw [if_pos hposition]
    rfl

theorem FieldPath.decode_toJson (p : FieldPath) : FieldPath.decode p.toJson = .ok p := by
  unfold FieldPath.decode FieldPath.toJson
  rw [Decode.list_map fun s _ => s.decode_toJson]
  rfl

/-- A position is a number of 64 bits, as a place in memory is. -/
def Segment.Sized : Segment → Prop
  | .index position => position < twoTo 64
  | .key _ => True

instance : DecidablePred Segment.Sized
  | .index _ => inferInstanceAs (Decidable (_ < _))
  | .key _ => inferInstanceAs (Decidable True)

theorem Segment.Sized.plain {s : Segment} (h : s.Sized) : s.toJson.Plain := by
  cases s with
  | key name => exact .str name
  | index position =>
    have hlow : -(twoTo 63 : Int) ≤ 0 := by decide
    exact .int ⟨hlow.trans (Int.natCast_nonneg position), Int.ofNat_lt.mpr h⟩

theorem FieldPath.plain_toJson {p : FieldPath} (h : ∀ s ∈ p.segments, s.Sized) : p.toJson.Plain := by
  refine .arr fun item hitem => ?_
  obtain ⟨s, hs, rfl⟩ := List.mem_map.mp hitem
  exact (h s hs).plain

theorem FieldPath.depth_toJson (p : FieldPath) : p.toJson.depth ≤ 1 := by
  refine Nat.succ_le_succ (Json.depthItems_le fun item hitem => ?_)
  obtain ⟨s, -, rfl⟩ := List.mem_map.mp hitem
  cases s <;> exact Nat.le_refl 0

namespace Issue

/-- The fields of an issue in the order of their keys. -/
def shown (i : Issue) : List (String × Json) :=
  [("code", .str i.code.code), ("expected", .str i.expected), ("message", .str i.message),
    ("path", i.path.toJson), ("received", .str i.received)]

theorem shown_ordered (i : Issue) : Table.Ordered i.shown := by
  change List.Pairwise (· < ·) ["code", "expected", "message", "path", "received"]
  decide

theorem toJson_eq (i : Issue) : i.toJson = .obj i.shown :=
  congrArg Json.obj (Table.ofList_of_perm (by unfold shown; grind) i.shown_ordered)

theorem decode_toJson (i : Issue) : decode i.toJson = .ok i := by
  rw [toJson_eq]
  refine Decode.Layout.read_obj ⟨i.path, i.code, i.expected, i.received, i.message⟩ ?_ rfl
  change List.foldlM _ _ i.shown = _
  simp only [shown, List.foldlM_cons, List.foldlM_nil, Draft.set, Reason.decode_code,
    FieldPath.decode_toJson]
  rfl

theorem plain_toJson {i : Issue} (h : ∀ s ∈ i.path.segments, s.Sized) : i.toJson.Plain := by
  rw [toJson_eq]
  refine .obj i.shown_ordered ?_
  simp only [shown, List.forall_mem_cons]
  exact ⟨.str _, .str _, .str _, FieldPath.plain_toJson h, .str _, nofun⟩

theorem depth_toJson (i : Issue) : i.toJson.depth ≤ 2 := by
  have hpath := i.path.depth_toJson
  rw [toJson_eq, shown]
  simp only [Json.depth, Json.depthFields]
  omega

end Issue

namespace Report

/-- The fields of a report in the order of their keys. -/
def shown (r : Report) : List (String × Json) :=
  [("channel", .str r.channel.name), ("issues", .arr (r.issues.map Issue.toJson)),
    ("target", .str r.target)]

theorem shown_ordered (r : Report) : Table.Ordered r.shown := by
  change List.Pairwise (· < ·) ["channel", "issues", "target"]
  decide

theorem toJson_eq (r : Report) : r.toJson = .obj r.shown :=
  congrArg Json.obj (Table.ofList_of_perm (by unfold shown; grind) r.shown_ordered)

theorem decode_toJson (r : Report) : decode r.toJson = .ok r := by
  rw [toJson_eq]
  refine Decode.Layout.read_obj ⟨r.channel, r.target, r.issues⟩ ?_ rfl
  change List.foldlM _ _ r.shown = _
  simp only [shown, List.foldlM_cons, List.foldlM_nil, Draft.set, Channel.decode_name,
    Decode.list_map fun i _ => Issue.decode_toJson i]
  rfl

/-- Every position in a path is a number of 64 bits. -/
def Sized (r : Report) : Prop := ∀ i ∈ r.issues, ∀ s ∈ i.path.segments, s.Sized

instance : DecidablePred Sized :=
  fun r => inferInstanceAs (Decidable (∀ i ∈ r.issues, ∀ s ∈ i.path.segments, s.Sized))

theorem Sized.plain {r : Report} (h : r.Sized) : r.toJson.Plain := by
  rw [toJson_eq]
  refine .obj r.shown_ordered ?_
  simp only [shown, List.forall_mem_cons]
  refine ⟨.str _, .arr fun item hitem => ?_, .str _, nofun⟩
  obtain ⟨i, hi, rfl⟩ := List.mem_map.mp hitem
  exact Issue.plain_toJson (h i hi)

theorem depth_toJson (r : Report) : r.toJson.depth ≤ 4 := by
  have hissues : Json.depthItems (r.issues.map Issue.toJson) ≤ 2 := by
    refine Json.depthItems_le fun item hitem => ?_
    obtain ⟨i, -, rfl⟩ := List.mem_map.mp hitem
    exact i.depth_toJson
  rw [toJson_eq, shown]
  simp only [Json.depth, Json.depthFields]
  omega

/--
Every report is read back from its JSON value, and if its positions are such as values in memory can
have, also from the text of that.
-/
theorem reads_back (r : Report) : decode r.toJson = .ok r ∧
    (r.Sized → ∃ v, Json.readBytes? r.toJson.compact.toUTF8 = some v ∧ decode v = .ok r) := by
  refine ⟨r.decode_toJson, fun hsized => ⟨r.toJson, ?_, r.decode_toJson⟩⟩
  have hdepth : r.toJson.depth < Json.depthLimit := lt_of_le_of_lt r.depth_toJson (by decide)
  exact Json.readBytes?_compact hsized.plain hdepth

/-- A report on an item of a list that stands under a key of digits, the target put between quotes. -/
def digitReport : Report where
  channel := .response
  target := "\"Page\""
  issues := [⟨⟨[.key "0", .index 0]⟩, .invalidType, "number", "x", "expected number, received x"⟩]

theorem digit_report_reads_back : digitReport.Sized ∧
    ∃ v, Json.readBytes? digitReport.toJson.compact.toUTF8 = some v ∧ decode v = .ok digitReport := by
  have hsized : digitReport.Sized := by decide
  exact ⟨hsized, (reads_back digitReport).2 hsized⟩

/-- The key is written between quotes and the position is not. -/
example : (FieldPath.mk [.key "0", .index 0]).toJson.compact = "[\"0\",0]" := by decide

end Report

end Conform
