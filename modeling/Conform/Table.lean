/-!
# Ordered tables

A table is a list of entries whose keys strictly increase. Entries are found
by key, and a written entry lands at its place in the order.
-/

namespace Conform

namespace Table

variable {κ α β : Type} [DecidableEq κ]

/-- The value stored under a key. -/
def get? (k : κ) : List (κ × α) → Option α
  | [] => none
  | (key, value) :: rest => if key = k then some value else get? k rest

/-- The keys, in order. -/
def keys (entries : List (κ × α)) : List κ :=
  entries.map Prod.fst

/-- Whether a key is present. -/
def contains (k : κ) (entries : List (κ × α)) : Bool :=
  (get? k entries).isSome

/-- The table without the entry of a key. -/
def erase (k : κ) : List (κ × α) → List (κ × α)
  | [] => []
  | (key, value) :: rest =>
    if key = k then erase k rest else (key, value) :: erase k rest

/-- Every value replaced by its image. -/
def mapValues (f : α → β) (entries : List (κ × α)) : List (κ × β) :=
  entries.map fun entry => (entry.1, f entry.2)

section Ordered

variable [LT κ] [DecidableLT κ]

/-- The table with a value stored under a key, replacing any earlier one. -/
def insert (k : κ) (v : α) : List (κ × α) → List (κ × α)
  | [] => [(k, v)]
  | (key, value) :: rest =>
    if key = k then (k, v) :: rest
    else if k < key then (k, v) :: (key, value) :: rest
    else (key, value) :: insert k v rest

/-- The table with a value stored under a key that was free; a taken key keeps its value. -/
def insertNew (k : κ) (v : α) (entries : List (κ × α)) : List (κ × α) :=
  if contains k entries then entries else insert k v entries

/-- The table holding every entry; of repeated keys the last wins. -/
def ofList (entries : List (κ × α)) : List (κ × α) :=
  entries.foldl (fun table entry => insert entry.1 entry.2 table) []

/-- Keys strictly increase along the table. -/
def Ordered (entries : List (κ × α)) : Prop :=
  (keys entries).Pairwise (· < ·)

end Ordered

section Lemmas

variable {k j : κ} {v : α} {entries : List (κ × α)}

@[simp] theorem get?_nil : get? k ([] : List (κ × α)) = none := rfl

theorem get?_cons (key : κ) (value : α) (rest : List (κ × α)) :
    get? k ((key, value) :: rest) = if key = k then some value else get? k rest := rfl

theorem get?_erase_self : get? k (erase k entries) = none := by
  induction entries with
  | nil => rfl
  | cons entry rest ih =>
    obtain ⟨key, value⟩ := entry
    by_cases h : key = k <;> simp [erase, get?, h, ih]

theorem get?_erase_of_ne (h : j ≠ k) : get? j (erase k entries) = get? j entries := by
  induction entries with
  | nil => rfl
  | cons entry rest ih =>
    obtain ⟨key, value⟩ := entry
    by_cases hk : key = k
    · subst hk
      simp [erase, get?, ih, Ne.symm h]
    · simp [erase, get?, hk, ih]

theorem get?_mapValues (f : α → β) :
    get? k (mapValues f entries) = (get? k entries).map f := by
  induction entries with
  | nil => rfl
  | cons entry rest ih =>
    obtain ⟨key, value⟩ := entry
    by_cases h : key = k
    · simp [mapValues, get?, h]
    · simpa [mapValues, get?, h] using ih

variable [LT κ] [DecidableLT κ]

theorem get?_insert_self : get? k (insert k v entries) = some v := by
  induction entries with
  | nil => simp [insert, get?]
  | cons entry rest ih =>
    obtain ⟨key, value⟩ := entry
    by_cases h : key = k
    · simp [insert, get?, h]
    · by_cases hlt : k < key <;> simp [insert, get?, h, hlt, ih]

theorem get?_insert_of_ne (h : j ≠ k) : get? j (insert k v entries) = get? j entries := by
  induction entries with
  | nil => simp [insert, get?, Ne.symm h]
  | cons entry rest ih =>
    obtain ⟨key, value⟩ := entry
    by_cases hk : key = k
    · subst hk
      simp [insert, get?, Ne.symm h]
    · by_cases hlt : k < key
      · simp [insert, get?, hk, hlt, Ne.symm h]
      · simp [insert, get?, hk, hlt, ih]

end Lemmas

end Table

end Conform
