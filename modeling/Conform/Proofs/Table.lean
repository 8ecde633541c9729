import Conform.TypeName
import Conform.Table
import Mathlib.Data.List.Induction
import Mathlib.Data.List.Nodup
import Mathlib.Data.String.Basic
import Mathlib.Order.RelClasses

/-!
# Entries and order of tables

A write changes what is found under its own key and nothing else, and it keeps
the keys in order.
-/

namespace Conform

instance : IsStrictTotalOrder TypeName (· < ·) where
  irrefl a := lt_irrefl a.text
  trans a b c := lt_trans (a := a.text) (b := b.text) (c := c.text)
  trichotomous a b hab hba := by
    have htext : a.text = b.text :=
      le_antisymm (not_lt.mp hba) (not_lt.mp hab)
    cases a
    cases b
    cases htext
    rfl

namespace Table

variable {κ α : Type} [DecidableEq κ] {j k : κ} {v : α} {entries : List (κ × α)}

theorem contains_iff : contains k entries = true ↔ ∃ v, get? k entries = some v :=
  Option.isSome_iff_exists

theorem contains_eq_false_iff : contains k entries = false ↔ get? k entries = none := by
  simp [contains]

theorem contains_of_get? (h : get? k entries = some v) : contains k entries = true :=
  contains_iff.mpr ⟨v, h⟩

theorem get?_eq_none_iff : get? k entries = none ↔ k ∉ keys entries := by
  induction entries with
  | nil => simp [keys]
  | cons entry rest ih =>
    obtain ⟨key, value⟩ := entry
    by_cases h : key = k
    · simp [get?, keys, h]
    · have hne : ¬ k = key := fun heq => h heq.symm
      simpa [get?, keys, h, hne] using ih

theorem mem_keys_iff : k ∈ keys entries ↔ contains k entries = true := by
  rw [← not_iff_not, ← get?_eq_none_iff, Bool.not_eq_true, contains_eq_false_iff]

omit [DecidableEq κ] in
@[simp] theorem keys_mapValues {β : Type} (f : α → β) : keys (mapValues f entries) = keys entries := by
  unfold keys mapValues
  rw [List.map_map]
  rfl

theorem mem_of_get? (h : get? k entries = some v) : (k, v) ∈ entries := by
  induction entries with
  | nil => cases h
  | cons entry rest ih =>
    obtain ⟨key, value⟩ := entry
    rw [get?_cons] at h
    split at h
    · next heq =>
      cases h
      rw [heq]
      exact List.mem_cons_self
    · exact List.mem_cons_of_mem _ (ih h)

/-- Under distinct keys every entry is found. -/
theorem get?_of_mem (hdistinct : (keys entries).Nodup) (h : (k, v) ∈ entries) :
    get? k entries = some v := by
  cases hget : get? k entries with
  | none => exact absurd (List.mem_map_of_mem h) (get?_eq_none_iff.mp hget)
  | some w =>
    have heq := List.inj_on_of_nodup_map hdistinct (mem_of_get? hget) h rfl
    cases heq
    rfl

theorem erase_of_none (h : get? k entries = none) : erase k entries = entries := by
  induction entries with
  | nil => rfl
  | cons entry rest ih =>
    obtain ⟨key, value⟩ := entry
    rw [get?_cons] at h
    split at h
    · cases h
    · next hne => rw [erase, if_neg hne, ih h]

theorem erase_sublist (k : κ) (entries : List (κ × α)) : (erase k entries).Sublist entries := by
  induction entries with
  | nil => exact List.Sublist.refl []
  | cons entry rest ih =>
    obtain ⟨key, value⟩ := entry
    unfold erase
    split
    · exact ih.cons _
    · exact ih.cons_cons _

section Ordered

variable [LT κ]

theorem Ordered.erase (k : κ) (h : Ordered entries) : Ordered (erase k entries) :=
  h.sublist ((erase_sublist k entries).map Prod.fst)

variable [DecidableLT κ]

instance (entries : List (κ × α)) : Decidable (Ordered entries) :=
  inferInstanceAs (Decidable ((keys entries).Pairwise (· < ·)))

theorem get?_insert : get? j (insert k v entries) = if j = k then some v else get? j entries := by
  by_cases h : j = k
  · rw [if_pos h, h, get?_insert_self]
  · rw [if_neg h, get?_insert_of_ne h]

theorem contains_insert :
    contains j (insert k v entries) = (decide (j = k) || contains j entries) := by
  unfold contains
  rw [get?_insert]
  by_cases h : j = k <;> simp [h]

theorem get?_insertNew :
    get? j (insertNew k v entries) =
      (get? j entries).or (if j = k then some v else none) := by
  by_cases hc : contains k entries = true
  · rw [insertNew, if_pos hc]
    obtain ⟨w, hw⟩ := contains_iff.mp hc
    by_cases h : j = k
    · rw [h, hw, Option.some_or]
    · rw [if_neg h, Option.or_none]
  · rw [insertNew, if_neg hc, get?_insert]
    have hnone : get? k entries = none := contains_eq_false_iff.mp (Bool.not_eq_true _ ▸ hc)
    by_cases h : j = k
    · rw [if_pos h, if_pos h, h, hnone, Option.none_or]
    · rw [if_neg h, if_neg h, Option.or_none]

theorem keys_insert : ∀ i, i ∈ keys (insert k v entries) ↔ i = k ∨ i ∈ keys entries := by
  intro i
  rw [mem_keys_iff, mem_keys_iff, contains_insert, Bool.or_eq_true, decide_eq_true_iff]

/-- A new key adds one entry. -/
theorem insert_perm (h : k ∉ keys entries) : (insert k v entries).Perm ((k, v) :: entries) := by
  induction entries with
  | nil => exact List.Perm.refl _
  | cons entry rest ih =>
    obtain ⟨key, value⟩ := entry
    obtain ⟨hne, hrest⟩ := not_or.mp (mt List.mem_cons.mpr h)
    unfold insert
    rw [if_neg (Ne.symm hne)]
    split
    · exact List.Perm.refl _
    · exact ((ih hrest).cons _).trans (List.Perm.swap _ _ _)

theorem mem_insert {entry : κ × α} (h : entry ∈ insert k v entries) :
    entry = (k, v) ∨ entry ∈ entries := by
  induction entries with
  | nil => exact Or.inl (List.mem_singleton.mp h)
  | cons first rest ih =>
    obtain ⟨key, value⟩ := first
    unfold insert at h
    split at h
    · rcases List.mem_cons.mp h with heq | h
      · exact Or.inl heq
      · exact Or.inr (List.mem_cons_of_mem _ h)
    · split at h
      · rcases List.mem_cons.mp h with heq | h
        · exact Or.inl heq
        · exact Or.inr h
      · rcases List.mem_cons.mp h with rfl | h
        · exact Or.inr List.mem_cons_self
        · exact (ih h).imp_right (List.mem_cons_of_mem _)

theorem get?_foldl_insert (table : List (κ × α)) :
    get? k (entries.foldl (fun table entry => insert entry.1 entry.2 table) table) =
      (get? k (ofList entries)).or (get? k table) := by
  unfold ofList
  induction entries using List.reverseRecOn with
  | nil => rfl
  | append_singleton entries entry ih =>
    rw [List.foldl_append, List.foldl_append, List.foldl_cons, List.foldl_cons, List.foldl_nil,
      List.foldl_nil, get?_insert, get?_insert, ih]
    split <;> simp

/-- An entry is found in a table made of a list if no later one has its key. -/
theorem get?_ofList_cons (key : κ) (value : α) : get? k (ofList ((key, value) :: entries)) =
    (get? k (ofList entries)).or (if k = key then some value else none) := by
  rw [ofList, List.foldl_cons, get?_foldl_insert, get?_insert, get?_nil]

theorem get?_ofList_eq_none_iff : get? k (ofList entries) = none ↔ k ∉ keys entries := by
  induction entries with
  | nil => simp [ofList, keys]
  | cons entry rest ih =>
    obtain ⟨key, value⟩ := entry
    rw [get?_ofList_cons, Option.or_eq_none_iff, ih]
    simp [keys, and_comm]

/-- Of distinct keys, every entry is found. -/
theorem get?_ofList_of_mem (hdistinct : (keys entries).Nodup) (h : (k, v) ∈ entries) :
    get? k (ofList entries) = some v := by
  induction entries with
  | nil => cases h
  | cons entry rest ih =>
    obtain ⟨key, value⟩ := entry
    obtain ⟨hhead, hrest⟩ := List.nodup_cons.mp hdistinct
    rw [get?_ofList_cons]
    rcases List.mem_cons.mp h with heq | h
    · cases heq
      rw [get?_ofList_eq_none_iff.mpr hhead, if_pos rfl, Option.none_or]
    · rw [ih hrest h, Option.some_or]

/-- What is found in a table made of a list is an entry of the list. -/
theorem mem_of_get?_ofList (h : get? k (ofList entries) = some v) : (k, v) ∈ entries := by
  induction entries with
  | nil => cases h
  | cons entry rest ih =>
    obtain ⟨key, value⟩ := entry
    rw [get?_ofList_cons, Option.or_eq_some_iff] at h
    rcases h with h | ⟨-, h⟩
    · exact List.mem_cons_of_mem _ (ih h)
    · split at h
      · next heq =>
        cases h
        rw [heq]
        exact List.mem_cons_self
      · cases h

variable [IsStrictTotalOrder κ (· < ·)]

omit [DecidableEq κ] [DecidableLT κ] in
theorem Ordered.nodup (h : Ordered entries) : (keys entries).Nodup := by
  refine h.imp fun {a b} hlt heq => ?_
  rw [heq] at hlt
  exact irrefl b hlt

/-- Writing what is there changes nothing. -/
theorem insert_of_some (hordered : Ordered entries) (h : get? k entries = some v) :
    insert k v entries = entries := by
  induction entries with
  | nil => cases h
  | cons entry rest ih =>
    obtain ⟨key, value⟩ := entry
    obtain ⟨hhead, hrest⟩ := List.pairwise_cons.mp hordered
    rw [get?_cons] at h
    unfold insert
    split at h
    · next heq =>
      cases h
      rw [if_pos heq, heq]
    · next hne =>
      have hmem : k ∈ keys rest := mem_keys_iff.mpr (contains_of_get? h)
      have hlater := hhead k hmem
      rw [if_neg hne, if_neg fun hlt => asymm hlt hlater, ih hrest h]

theorem Ordered.insert (k : κ) (v : α) {entries : List (κ × α)} (h : Ordered entries) :
    Ordered (insert k v entries) := by
  induction entries with
  | nil => exact List.pairwise_singleton _ k
  | cons entry rest ih =>
    obtain ⟨key, value⟩ := entry
    obtain ⟨hhead, hrest⟩ := List.pairwise_cons.mp h
    unfold Table.insert
    split_ifs with heq hlt
    · subst heq
      exact List.pairwise_cons.mpr ⟨hhead, hrest⟩
    · refine List.pairwise_cons.mpr ⟨?_, h⟩
      intro i hi
      rcases List.mem_cons.mp hi with rfl | hi
      · exact hlt
      · exact IsTrans.trans _ _ _ hlt (hhead i hi)
    · refine List.pairwise_cons.mpr ⟨?_, ih hrest⟩
      intro i hi
      rcases (keys_insert i).mp hi with rfl | hi
      · exact ((trichotomous_of (· < ·) key i).resolve_right
          (fun hor => hor.elim heq hlt))
      · exact hhead i hi

omit [DecidableLT κ] in
theorem Ordered.get?_of_mem (h : Ordered entries) (hmem : (k, v) ∈ entries) :
    get? k entries = some v := by
  induction entries with
  | nil => cases hmem
  | cons entry rest ih =>
    obtain ⟨key, value⟩ := entry
    obtain ⟨hhead, hrest⟩ := List.pairwise_cons.mp h
    rw [get?_cons]
    rcases List.mem_cons.mp hmem with heq | hmem
    · cases heq
      exact if_pos rfl
    · have hlater : key < k := hhead k (List.mem_map_of_mem hmem)
      rw [if_neg fun heq => irrefl k (heq ▸ hlater), ih hrest hmem]

omit [DecidableLT κ] in
/-- Tables in order are equal if every key finds the same in both. -/
theorem Ordered.ext {others : List (κ × α)} (h : Ordered entries) (h' : Ordered others)
    (hsame : ∀ k, get? k entries = get? k others) : entries = others := by
  refine List.Perm.eq_of_pairwise ?_ (List.pairwise_map.mp h) (List.pairwise_map.mp h') ?_
  · intro a b _ _ hab hba
    exact absurd hba (asymm hab)
  · rw [List.perm_ext_iff_of_nodup (List.Nodup.of_map _ h.nodup) (List.Nodup.of_map _ h'.nodup)]
    rintro ⟨key, value⟩
    constructor
    · exact fun hmem => mem_of_get? ((hsame key).symm.trans (h.get?_of_mem hmem))
    · exact fun hmem => mem_of_get? ((hsame key).trans (h'.get?_of_mem hmem))

theorem ordered_ofList (entries : List (κ × α)) : Ordered (ofList entries) := by
  unfold ofList
  induction entries using List.reverseRecOn with
  | nil => exact List.Pairwise.nil
  | append_singleton entries entry ih =>
    rw [List.foldl_append]
    exact ih.insert entry.1 entry.2

/-- A table in order is the table of its entries, however these are listed. -/
theorem ofList_of_perm {table : List (κ × α)} (hperm : table.Perm entries) (h : Ordered table) :
    ofList entries = table := by
  have hkeys : (keys table).Perm (keys entries) := hperm.map Prod.fst
  refine (ordered_ofList entries).ext h fun k => ?_
  cases hget : get? k table with
  | some v =>
    exact get?_ofList_of_mem (hkeys.nodup_iff.mp h.nodup) (hperm.mem_iff.mp (mem_of_get? hget))
  | none =>
    rw [get?_ofList_eq_none_iff, ← hkeys.mem_iff]
    exact get?_eq_none_iff.mp hget

end Ordered

end Table

end Conform
