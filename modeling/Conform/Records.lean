import Conform.Table
import Conform.Uuid

/-!
# Records

Values stored under UUIDs.
-/

namespace Conform

namespace Uuid

instance : LT Uuid := ⟨fun a b => a.digits < b.digits⟩

instance (a b : Uuid) : Decidable (a < b) := inferInstanceAs (Decidable (a.digits < b.digits))

end Uuid

structure Records (α : Type) where
  entries : List (Uuid × α)

namespace Records

variable {α : Type}

def empty : Records α := ⟨[]⟩

def get? (r : Records α) (id : Uuid) : Option α := Table.get? id r.entries

/-- Store a value, replacing an earlier one. -/
def insert (r : Records α) (id : Uuid) (value : α) : Records α :=
  ⟨Table.insert id value r.entries⟩

def values (r : Records α) : List α := r.entries.map Prod.snd

def size (r : Records α) : Nat := r.entries.length

end Records

end Conform
