import Mathlib.Order.Defs.Unbundled
import Mathlib.Tactic.ByContra
import Mathlib.Tactic.SplitIfs
import SasLayout.Grammar.Relation

set_option autoImplicit false

/-! What ordered dictionaries and sets hold after an insertion, and that they stay in order. -/
namespace SasLayout

variable {κ α : Type} [DecidableEq κ] [LT κ] [DecidableLT κ]

omit [DecidableEq κ] [DecidableLT κ] in
/-- Lists that ascend by the same key are the same when they have the same elements. -/
theorem eq_of_ascending [IsStrictTotalOrder κ (· < ·)] (key : α → κ) {xs ys : List α}
    (left : xs.Pairwise (key · < key ·)) (right : ys.Pairwise (key · < key ·))
    (same : ∀ x, x ∈ xs ↔ x ∈ ys) : xs = ys := by
  have distinct : ∀ x y, key x < key y → x ≠ y :=
    fun _ y below equal => Std.Irrefl.irrefl (r := (· < ·)) (key y) (equal ▸ below)
  have perm : xs.Perm ys :=
    (List.perm_ext_iff_of_nodup (left.imp fun {x y} => distinct x y)
      (right.imp fun {x y} => distinct x y)).mpr same
  exact perm.eq_of_pairwise (fun x y _ _ below above =>
    absurd (IsTrans.trans (r := (· < ·)) (key x) (key y) (key x) below above)
      (Std.Irrefl.irrefl (r := (· < ·)) (key x))) left right

omit [LT κ] [DecidableLT κ] in
theorem mem_of_lookup {entries : List (κ × α)} {key : κ} {value : α}
    (found : entries.lookup key = some value) : (key, value) ∈ entries := by
  obtain ⟨front, back, split, -⟩ := List.lookup_eq_some_iff.mp found
  rw [split]
  simp

namespace Dict

omit [LT κ] [DecidableLT κ] in
@[simp] theorem find?_empty (key : κ) : (empty : Dict κ α).find? key = none := rfl

omit [LT κ] [DecidableLT κ] in
theorem mem_of_find? {d : Dict κ α} {key : κ} {value : α} (found : d.find? key = some value) :
    (key, value) ∈ d.entries :=
  mem_of_lookup found

theorem lookup_insertEntry (key other : κ) (value : α) (entries : List (κ × α)) :
    (insertEntry key value entries).lookup other =
      if other = key then some value else entries.lookup other := by
  induction entries with
  | nil => grind [insertEntry]
  | cons entry rest ih =>
    obtain ⟨k, v⟩ := entry
    rw [insertEntry]
    split_ifs with replaced before same <;> grind

theorem find?_insert (d : Dict κ α) (key other : κ) (value : α) :
    (d.insert key value).find? other = if other = key then some value else d.find? other :=
  lookup_insertEntry key other value d.entries

theorem mem_insertEntry {key : κ} {value : α} {entries : List (κ × α)} {entry : κ × α}
    (member : entry ∈ insertEntry key value entries) : entry = (key, value) ∨ entry ∈ entries := by
  induction entries with
  | nil => simpa [insertEntry] using member
  | cons first rest ih =>
    rw [insertEntry] at member
    split_ifs at member <;> grind

/-- The keys ascend strictly. -/
def Sorted (d : Dict κ α) : Prop :=
  d.entries.Pairwise (·.1 < ·.1)

omit [DecidableEq κ] [DecidableLT κ] in
theorem Sorted.empty : (empty : Dict κ α).Sorted :=
  List.Pairwise.nil

variable [IsStrictTotalOrder κ (· < ·)]

theorem insertEntry_sorted {entries : List (κ × α)} (sorted : entries.Pairwise (·.1 < ·.1))
    (key : κ) (value : α) : (insertEntry key value entries).Pairwise (·.1 < ·.1) := by
  induction sorted with
  | nil => simp [insertEntry]
  | @cons first rest below rest_sorted ih =>
    rw [insertEntry]
    split_ifs with replaced before
    · subst replaced
      exact List.pairwise_cons.mpr ⟨below, rest_sorted⟩
    · refine List.pairwise_cons.mpr ⟨?_, List.pairwise_cons.mpr ⟨below, rest_sorted⟩⟩
      intro entry member
      obtain rfl | later := List.mem_cons.mp member
      · exact before
      · exact IsTrans.trans _ _ _ before (below entry later)
    · refine List.pairwise_cons.mpr ⟨?_, ih⟩
      intro entry member
      obtain rfl | old := mem_insertEntry member
      · by_contra unordered
        exact replaced (Std.Trichotomous.trichotomous (r := (· < ·)) _ _ before unordered)
      · exact below entry old

theorem Sorted.insert {d : Dict κ α} (sorted : d.Sorted) (key : κ) (value : α) :
    (d.insert key value).Sorted :=
  insertEntry_sorted sorted key value

omit [DecidableLT κ] in
theorem Sorted.find?_iff {d : Dict κ α} (sorted : d.Sorted) {key : κ} {value : α} :
    d.find? key = some value ↔ (key, value) ∈ d.entries := by
  refine ⟨mem_of_find?, fun member => ?_⟩
  obtain ⟨front, back, split⟩ := List.append_of_mem member
  refine List.lookup_eq_some_iff.mpr ⟨front, back, split, fun entry before => ?_⟩
  unfold Sorted at sorted
  rw [split, List.pairwise_append] at sorted
  have below : entry.1 < key := sorted.2.2 entry before (key, value) List.mem_cons_self
  have differ : key ≠ entry.1 := fun same => Std.Irrefl.irrefl (r := (· < ·)) key (same ▸ below)
  simpa using differ

omit [LT κ] [DecidableLT κ] [IsStrictTotalOrder κ (· < ·)] in
theorem find?_mapValues {β : Type} (f : κ → α → β) (d : Dict κ α) (key : κ) :
    (d.mapValues f).find? key = (d.find? key).map (f key) := by
  obtain ⟨entries⟩ := d
  unfold mapValues find?
  induction entries with
  | nil => rfl
  | cons entry rest ih => grind

omit [DecidableEq κ] [DecidableLT κ] [IsStrictTotalOrder κ (· < ·)] in
theorem Sorted.mapValues {β : Type} {d : Dict κ α} (sorted : d.Sorted) (f : κ → α → β) :
    (d.mapValues f).Sorted :=
  List.pairwise_map.mpr sorted

omit [DecidableLT κ] in
/-- Dictionaries in order that find the same have the same entries. -/
theorem Sorted.ext {d e : Dict κ α} (left : d.Sorted) (right : e.Sorted)
    (same : ∀ key, d.find? key = e.find? key) : d = e := by
  have entries : d.entries = e.entries :=
    eq_of_ascending Prod.fst left right fun entry => by
      rw [← left.find?_iff, ← right.find?_iff, same]
  cases d
  cases e
  exact congrArg _ entries

end Dict

namespace Relations

omit [LT κ] [DecidableLT κ] in
@[simp] theorem find?_empty (a b : κ) : (empty : Relations κ).find? a b = none := rfl

theorem find?_insert (rs : Relations κ) (a b x y : κ) (r : Relation) :
    (rs.insert a b r).find? x y = if x = a ∧ y = b then some r else rs.find? x y := by
  unfold find? insert
  rw [Dict.find?_insert]
  by_cases row : x = a
  · subst row
    simp only [if_true, true_and, Option.bind_some, Dict.find?_insert]
    cases rs.rows.find? x <;> simp
  · simp [row]

/-- The rows are in ascending order, and so is each of them. -/
structure Sorted (rs : Relations κ) : Prop where
  rows : rs.rows.Sorted
  row : ∀ a row, rs.rows.find? a = some row → row.Sorted

omit [DecidableLT κ] in
theorem Sorted.empty : (empty : Relations κ).Sorted :=
  ⟨Dict.Sorted.empty, fun _ _ found => nomatch found⟩

variable [IsStrictTotalOrder κ (· < ·)]

theorem Sorted.insert {rs : Relations κ} (sorted : rs.Sorted) (a b : κ) (r : Relation) :
    (rs.insert a b r).Sorted := by
  refine ⟨sorted.rows.insert .., fun x row found => ?_⟩
  unfold Relations.insert at found
  rw [Dict.find?_insert] at found
  split_ifs at found with same
  · obtain rfl := Option.some.inj found
    cases old : rs.rows.find? a with
    | none => exact Dict.Sorted.empty.insert b r
    | some row => exact (sorted.row a row old).insert b r
  · exact sorted.row x row found

omit [DecidableLT κ] in
theorem Sorted.mem_toList {rs : Relations κ} (sorted : rs.Sorted) {a b : κ} {r : Relation} :
    (a, b, r) ∈ rs.toList ↔ rs.find? a b = some r := by
  unfold toList find?
  simp only [List.mem_flatMap, List.mem_map, Prod.mk.injEq, Prod.exists, Option.bind_eq_some_iff]
  constructor
  · rintro ⟨x, row, member, y, q, entry, rfl, rfl, rfl⟩
    have found := sorted.rows.find?_iff.mpr member
    exact ⟨row, found, (sorted.row x row found).find?_iff.mpr entry⟩
  · rintro ⟨row, found, inner⟩
    exact ⟨a, row, Dict.mem_of_find? found, b, r, Dict.mem_of_find? inner, rfl, rfl, rfl⟩

end Relations

namespace Ascending

@[simp] theorem mem_insert {x y : κ} {xs : List κ} : y ∈ insert x xs ↔ y = x ∨ y ∈ xs := by
  induction xs with
  | nil => simp [insert]
  | cons first rest ih =>
    rw [insert]
    split_ifs <;> grind

@[simp] theorem mem_union {x : κ} {xs ys : List κ} : x ∈ union xs ys ↔ x ∈ xs ∨ x ∈ ys := by
  fun_induction union xs ys <;> grind

@[simp] theorem mem_ofList {x : κ} {xs : List κ} : x ∈ ofList xs ↔ x ∈ xs := by
  have grown : ∀ found : List κ,
      x ∈ xs.foldl (fun found x => insert x found) found ↔ x ∈ found ∨ x ∈ xs := by
    induction xs with
    | nil => simp
    | cons first rest ih => intro found; rw [List.foldl_cons, ih]; grind [mem_insert]
  exact (grown []).trans (by simp)

variable [IsStrictTotalOrder κ (· < ·)]

theorem insert_sorted {xs : List κ} (sorted : xs.Pairwise (· < ·)) (x : κ) :
    (insert x xs).Pairwise (· < ·) := by
  induction sorted with
  | nil => simp [insert]
  | @cons first rest below rest_sorted ih =>
    rw [insert]
    split_ifs with same before
    · exact List.pairwise_cons.mpr ⟨below, rest_sorted⟩
    · refine List.pairwise_cons.mpr ⟨?_, List.pairwise_cons.mpr ⟨below, rest_sorted⟩⟩
      intro y member
      obtain rfl | later := List.mem_cons.mp member
      · exact before
      · exact IsTrans.trans _ _ _ before (below y later)
    · refine List.pairwise_cons.mpr ⟨?_, ih⟩
      intro y member
      obtain rfl | old := mem_insert.mp member
      · by_contra unordered
        exact same (Std.Trichotomous.trichotomous (r := (· < ·)) _ _ before unordered)
      · exact below y old

theorem union_sorted {xs ys : List κ} (left : xs.Pairwise (· < ·)) (right : ys.Pairwise (· < ·)) :
    (union xs ys).Pairwise (· < ·) := by
  fun_induction union xs ys with
  | case1 ys => exact right
  | case2 xs => exact left
  | case3 x xs ys ih =>
    rw [List.pairwise_cons] at left right ⊢
    refine ⟨fun z member => ?_, ih left.2 right.2⟩
    exact (mem_union.mp member).elim (left.1 z) (right.1 z)
  | case4 x xs y ys differ before ih =>
    have below := List.pairwise_cons.mp left
    refine List.pairwise_cons.mpr ⟨fun z member => ?_, ih below.2 right⟩
    obtain old | member := mem_union.mp member
    · exact below.1 z old
    · obtain rfl | later := List.mem_cons.mp member
      · exact before
      · exact IsTrans.trans _ _ _ before ((List.pairwise_cons.mp right).1 z later)
  | case5 x xs y ys differ after ih =>
    have above := List.pairwise_cons.mp right
    have before : y < x := by
      by_contra unordered
      exact differ (Std.Trichotomous.trichotomous (r := (· < ·)) _ _ after unordered)
    refine List.pairwise_cons.mpr ⟨fun z member => ?_, ih left above.2⟩
    obtain member | old := mem_union.mp member
    · obtain rfl | later := List.mem_cons.mp member
      · exact before
      · exact IsTrans.trans _ _ _ before ((List.pairwise_cons.mp left).1 z later)
    · exact above.1 z old

theorem ofList_sorted (xs : List κ) : (ofList xs).Pairwise (· < ·) := by
  have kept : ∀ found : List κ, found.Pairwise (· < ·) →
      (xs.foldl (fun found x => insert x found) found).Pairwise (· < ·) := by
    induction xs with
    | nil => exact fun _ sorted => sorted
    | cons first rest ih => exact fun found sorted => ih _ (insert_sorted sorted first)
  exact kept [] List.Pairwise.nil

end Ascending
end SasLayout
