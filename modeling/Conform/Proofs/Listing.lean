import Conform.Users
import Mathlib.Data.List.Pairwise

/-!
# Listing users

No two users share an id, so creation and id put any users into one strict
order. A list of users is cut out of that order behind both filters: it is
settled by the query and the stored users, and not by the order in which these
are yielded.
-/

namespace Conform

namespace Uuid

variable {a b c : Uuid}

theorem lt_irrefl (a : Uuid) : ¬ a < a := List.lt_irrefl a.digits

theorem lt_trans (hab : a < b) (hbc : b < c) : a < c := List.lt_trans hab hbc

/-- Of two different ids one is the smaller. -/
theorem eq_of_not_lt (hab : ¬ a < b) (hba : ¬ b < a) : a = b := by
  obtain ⟨a⟩ := a
  obtain ⟨b⟩ := b
  exact congrArg Uuid.mk (List.le_antisymm hba hab)

end Uuid

namespace Moment

variable {a b c : Moment}

theorem lt_def : a < b ↔ a.day < b.day ∨
    a.day = b.day ∧ (a.second < b.second ∨ a.second = b.second ∧ a.nano < b.nano) := Iff.rfl

theorem lt_irrefl (a : Moment) : ¬ a < a := by
  rw [lt_def]
  omega

theorem lt_trans (hab : a < b) (hbc : b < c) : a < c := by
  rw [lt_def] at *
  omega

theorem lt_trichotomy (a b : Moment) : a < b ∨ a = b ∨ b < a := by
  rw [lt_def, lt_def, Moment.mk.injEq]
  omega

end Moment

namespace User

variable {a b c : User} {users : List User}

/-- Strictly earlier in lists: created before, or at the same time and with the smaller id. -/
def Precedes (a b : User) : Prop :=
  a.createdAt < b.createdAt ∨ a.createdAt = b.createdAt ∧ a.id < b.id

instance (a b : User) : Decidable (a.Precedes b) := inferInstanceAs (Decidable (_ ∨ _))

theorem Precedes.irrefl (a : User) : ¬ a.Precedes a := by
  rintro (hlt | ⟨-, hlt⟩)
  · exact Moment.lt_irrefl _ hlt
  · exact Uuid.lt_irrefl _ hlt

theorem Precedes.trans (hab : a.Precedes b) (hbc : b.Precedes c) : a.Precedes c := by
  rcases hab with hab | ⟨hab, hids⟩
  · rcases hbc with hbc | ⟨hbc, -⟩
    · exact Or.inl (Moment.lt_trans hab hbc)
    · exact Or.inl (hbc ▸ hab)
  · rcases hbc with hbc | ⟨hbc, hmore⟩
    · exact Or.inl (hab ▸ hbc)
    · exact Or.inr ⟨hab.trans hbc, Uuid.lt_trans hids hmore⟩

theorem precedes_total (a b : User) : a.Precedes b ∨ b.Precedes a ∨
    a.createdAt = b.createdAt ∧ a.id = b.id := by
  rcases Moment.lt_trichotomy a.createdAt b.createdAt with hlt | heq | hlt
  · exact Or.inl (Or.inl hlt)
  · by_cases hab : a.id < b.id
    · exact Or.inl (Or.inr ⟨heq, hab⟩)
    · by_cases hba : b.id < a.id
      · exact Or.inr (Or.inl (Or.inr ⟨heq.symm, hba⟩))
      · exact Or.inr (Or.inr ⟨heq, Uuid.eq_of_not_lt hab hba⟩)
  · exact Or.inr (Or.inl (Or.inl hlt))

/-- The comparison that lists are sorted by fails exactly where the other user is the earlier. -/
theorem before_iff : before a b = true ↔ ¬ b.Precedes a := by
  simp only [before, Precedes, Bool.or_eq_true, Bool.and_eq_true, decide_eq_true_eq, beq_iff_eq,
    Bool.not_eq_true', decide_eq_false_iff_not, not_or, not_and]
  constructor
  · rintro (hlt | ⟨heq, hids⟩)
    · refine ⟨fun hgt => Moment.lt_irrefl _ (Moment.lt_trans hlt hgt), fun heq => ?_⟩
      exact absurd hlt (heq ▸ Moment.lt_irrefl _)
    · exact ⟨heq ▸ Moment.lt_irrefl _, fun _ => hids⟩
  · rintro ⟨hle, hids⟩
    rcases Moment.lt_trichotomy a.createdAt b.createdAt with hlt | heq | hlt
    · exact Or.inl hlt
    · exact Or.inr ⟨heq, hids heq.symm⟩
    · exact absurd hlt hle

theorem before_trans (a b c : User) (hab : before a b = true) (hbc : before b c = true) :
    before a c = true := by
  rw [before_iff] at *
  intro hca
  rcases precedes_total a b with hlt | hlt | ⟨htime, hid⟩
  · exact hbc (hca.trans hlt)
  · exact hab hlt
  · refine hbc ?_
    unfold Precedes at hca ⊢
    rwa [htime, hid] at hca

theorem before_total (a b : User) : (before a b || before b a) = true := by
  rw [Bool.or_eq_true, before_iff, before_iff]
  by_cases hab : a.Precedes b
  · exact Or.inl fun hba => Precedes.irrefl a (hab.trans hba)
  · exact Or.inr hab

/-- Users with ids of their own are sorted strictly. -/
theorem mergeSort_precedes (hids : (users.map User.id).Nodup) :
    (users.mergeSort before).Pairwise Precedes := by
  have hsorted := List.pairwise_mergeSort before_trans before_total users
  have hperm := (List.mergeSort_perm users before).map User.id
  have hapart : (users.mergeSort before).Pairwise fun a b => a.id ≠ b.id :=
    List.pairwise_map.mp (hperm.nodup_iff.mpr hids)
  refine hsorted.imp₂ (fun a b hbefore hne => ?_) hapart
  rcases precedes_total a b with hlt | hlt | ⟨-, hid⟩
  · exact hlt
  · exact absurd hlt (before_iff.mp hbefore)
  · exact absurd hid hne

/-- A strict order of the same users is the same list. -/
theorem eq_of_precedes {found other : List User} (hperm : found.Perm other)
    (hfound : found.Pairwise Precedes) (hother : other.Pairwise Precedes) : found = other :=
  hperm.eq_of_pairwise
    (fun a _ _ _ hab hba => absurd (hab.trans hba) (Precedes.irrefl a)) hfound hother

end User

namespace UserQuery

variable {q : UserQuery} {u : User} {stored yielded : List User}

/-- What a query asks of a user: the role, if there is one, and an id out of the list, if there is one. -/
structure AsksFor (q : UserQuery) (u : User) : Prop where
  role : ∀ role ∈ q.role, role ∈ u.roles
  ids : ∀ ids ∈ q.ids, u.id ∈ ids

theorem selects_iff : q.selects u = true ↔ q.AsksFor u := by
  obtain ⟨limit, role, ids⟩ := q
  constructor
  · intro h
    constructor <;> rintro _ ⟨⟩ <;> simp_all [selects]
  · rintro ⟨hrole, hids⟩
    cases role <;> cases ids <;> simp_all [selects]

/-- All users that a query asks for, in the order of lists. -/
def found (q : UserQuery) (users : List User) : List User :=
  (users.filter q.selects).mergeSort User.before

theorem mem_found_iff : u ∈ q.found stored ↔ u ∈ stored ∧ q.AsksFor u := by
  unfold found
  rw [(List.mergeSort_perm _ _).mem_iff, List.mem_filter, selects_iff]

theorem found_precedes (hids : (stored.map User.id).Nodup) :
    (q.found stored).Pairwise User.Precedes :=
  User.mergeSort_precedes (hids.sublist (List.filter_sublist.map _))

/-- The order in which stored users are yielded makes no difference. -/
theorem found_congr (hids : (stored.map User.id).Nodup) (horder : yielded.Perm stored) :
    q.found yielded = q.found stored := by
  have hperm : (q.found yielded).Perm (q.found stored) :=
    (List.mergeSort_perm _ _).trans
      ((horder.filter _).trans (List.mergeSort_perm _ _).symm)
  have hyielded : (yielded.map User.id).Nodup := (horder.map User.id).nodup_iff.mpr hids
  exact User.eq_of_precedes hperm (found_precedes hyielded) (found_precedes hids)

theorem list_eq (q : UserQuery) (users : List User) :
    q.list users = (q.limit.elim (q.found users) fun n => (q.found users).take n.toNat) := by
  unfold list
  cases q.limit <;> rfl

theorem list_sublist (q : UserQuery) (users : List User) :
    (q.list users).Sublist (q.found users) := by
  rw [list_eq]
  cases q.limit with
  | none => exact List.Sublist.refl _
  | some n => exact List.take_sublist _ _

/--
Of stored users with ids of their own a list shows those that the query asks for, in the order of
creation and id: all of them if no more are found than the limit allows, and otherwise as many as
it allows from the start. The order in which the users are yielded makes no difference.
-/
theorem list_exact (q : UserQuery) (stored : List User) (hids : (stored.map User.id).Nodup)
    (hlimit : ∀ n ∈ q.limit, 0 ≤ n) :
    ∃ found : List User, found.Pairwise User.Precedes ∧
      (∀ u, u ∈ found ↔ u ∈ stored ∧ q.AsksFor u) ∧
      ∀ yielded : List User, yielded.Perm stored →
        (q.list yielded).Pairwise User.Precedes ∧
        (∀ u ∈ q.list yielded, u ∈ stored ∧ q.AsksFor u) ∧
        ((∀ n ∈ q.limit, found.length ≤ n) → q.list yielded = found) ∧
        ∀ n ∈ q.limit, n < found.length →
          q.list yielded = found.take n.toNat ∧ (q.list yielded).length = n := by
  refine ⟨q.found stored, found_precedes hids, fun _ => mem_found_iff, fun yielded horder => ?_⟩
  have hsame := found_congr (q := q) hids horder
  have hsub := hsame ▸ q.list_sublist yielded
  refine ⟨(found_precedes hids).sublist hsub, fun u hu => mem_found_iff.mp (hsub.mem hu), ?_, ?_⟩
  · intro hroom
    rw [list_eq, hsame]
    cases hq : q.limit with
    | none => rfl
    | some n =>
      have hfits := hroom n hq
      exact List.take_of_length_le (by omega)
  · intro n hn hmore
    have hnonneg := hlimit n hn
    have htaken : q.list yielded = (q.found stored).take n.toNat := by
      rw [list_eq, hsame, hn]
      rfl
    refine ⟨htaken, ?_⟩
    rw [htaken, List.length_take]
    omega

section Example

/-- A user by one digit of the id, the nanosecond of its creation, and its roles. -/
def userAt (digit : Char) (nano : Nat) (roles : List Role) : User :=
  ⟨⟨List.replicate 32 digit⟩, "Ann", "ann@example.org", none, roles, none, ⟨0, 0, nano⟩⟩

/-- A member created last, a guest, and two members created at once. -/
def fourUsers : List User :=
  [userAt 'a' 9 [.member], userAt 'b' 1 [.guest], userAt 'd' 5 [.member], userAt 'c' 5 [.member]]

/-- A query for two members. -/
def twoMembers : UserQuery := ⟨some 2, some .member, none⟩

/-- However four users are yielded, two members are listed, the one with the smaller id first. -/
theorem two_members_listed : (fourUsers.map User.id).Nodup ∧ (∀ n ∈ twoMembers.limit, 0 ≤ n) ∧
    ∀ yielded : List User, yielded.Perm fourUsers →
      twoMembers.list yielded = [userAt 'c' 5 [.member], userAt 'd' 5 [.member]] := by
  have hids : (fourUsers.map User.id).Nodup := by decide
  have hlimit : ∀ n ∈ twoMembers.limit, 0 ≤ n := by
    rintro n ⟨⟩
    decide
  have hmembers : twoMembers.found fourUsers =
      [userAt 'c' 5 [.member], userAt 'd' 5 [.member], userAt 'a' 9 [.member]] :=
    User.eq_of_precedes ((List.mergeSort_perm _ _).trans (by decide)) (found_precedes hids)
      (by decide)
  have hlisted : twoMembers.list fourUsers = [userAt 'c' 5 [.member], userAt 'd' 5 [.member]] := by
    rw [list_eq, hmembers]
    rfl
  refine ⟨hids, hlimit, fun yielded horder => ?_⟩
  obtain ⟨found, -, -, hlist⟩ := list_exact twoMembers fourUsers hids hlimit
  obtain ⟨-, -, -, hcut⟩ := hlist yielded horder
  obtain ⟨-, -, hwhole, hcut'⟩ := hlist fourUsers (List.Perm.refl _)
  rcases Nat.lt_or_ge 2 found.length with hmore | hfits
  · rw [(hcut 2 rfl (by omega)).1, ← (hcut' 2 rfl (by omega)).1, hlisted]
  · have hsame := hwhole (by rintro n ⟨⟩; omega)
    rw [(hlist yielded horder).2.2.1 (by rintro n ⟨⟩; omega), ← hsame, hlisted]

end Example

end UserQuery

end Conform
