import Mathlib.Order.Lattice
import Mathlib.Tactic.Common

/-!
# Binary search

The search for a key in a list whose keys increase strictly, over a half-open interval of indices
and with an early exit. The bound that `search` carries along says that every index it reads is
inside the list; the numbers are natural numbers, so `lo + hi` does not wrap.
-/

namespace SyscallMonitor.Lib

universe u v

variable {α : Type u} {κ : Type v} [LinearOrder κ] {key : α → κ} {table : List α} {k : κ}

/-- Search `table` for the key `k` among the indices from `lo` up to `hi`. -/
def search (key : α → κ) (table : List α) (k : κ) (lo hi : ℕ) (hhi : hi ≤ table.length) :
    Option α :=
  if h : lo < hi then
    let mid := (lo + hi) / 2
    have hmid : mid < table.length := by omega
    if key table[mid] = k then some table[mid]
    else if key table[mid] < k then search key table k (mid + 1) hi hhi
    else search key table k lo mid (by omega)
  else none
termination_by hi - lo

/-- The keys increase strictly. -/
def Increasing (key : α → κ) (table : List α) : Prop := table.Pairwise fun a b => key a < key b

instance (key : α → κ) (table : List α) : Decidable (Increasing key table) :=
  inferInstanceAs (Decidable (table.Pairwise _))

/-- A key that occurs at all occurs between `lo` and `hi`. -/
def Within (key : α → κ) (table : List α) (k : κ) (lo hi : ℕ) : Prop :=
  ∀ i, ∀ hi' : i < table.length, key table[i] = k → lo ≤ i ∧ i < hi

lemma Increasing.lt (hinc : Increasing key table) {i j : ℕ} (hi : i < table.length)
    (hj : j < table.length) (hij : i < j) : key table[i] < key table[j] :=
  List.pairwise_iff_getElem.mp hinc i j hi hj hij

/-- The upper half remains if the key in the middle is too small. -/
lemma Within.upper (hinc : Increasing key table) {lo hi mid : ℕ} (hw : Within key table k lo hi)
    (hmid : mid < table.length) (hlt : key table[mid] < k) : Within key table k (mid + 1) hi := by
  intro i hi' hk
  refine ⟨?_, (hw i hi' hk).2⟩
  by_contra hle
  rcases Nat.lt_or_eq_of_le (Nat.not_lt.mp hle) with hlt' | rfl
  · have hkey := hinc.lt hi' hmid hlt'
    rw [hk] at hkey
    exact lt_asymm hlt hkey
  · rw [hk] at hlt
    exact lt_irrefl k hlt

/-- The lower half remains if it is too large. -/
lemma Within.lower (hinc : Increasing key table) {lo hi mid : ℕ} (hw : Within key table k lo hi)
    (hmid : mid < table.length) (hlt : k < key table[mid]) : Within key table k lo mid := by
  intro i hi' hk
  refine ⟨(hw i hi' hk).1, ?_⟩
  by_contra hle
  rcases Nat.lt_or_eq_of_le (Nat.not_lt.mp hle) with hlt' | rfl
  · have hkey := hinc.lt hmid hi' hlt'
    rw [hk] at hkey
    exact lt_asymm hlt hkey
  · rw [hk] at hlt
    exact lt_irrefl k hlt

/-- What the search returns has the key, and if it returns nothing the key does not occur. -/
theorem search_spec (hinc : Increasing key table) {lo hi : ℕ} (hhi : hi ≤ table.length)
    (hw : Within key table k lo hi) :
    (∀ a, search key table k lo hi hhi = some a → a ∈ table ∧ key a = k) ∧
      (search key table k lo hi hhi = none → ∀ a ∈ table, key a ≠ k) := by
  induction lo, hi, hhi using search.induct key table k with
  | case1 lo hi hhi hlt mid hmid heq =>
    rw [search, dif_pos hlt]
    simp only [mid] at heq
    simp only [heq, ↓reduceIte]
    refine ⟨?_, by simp⟩
    rintro a ha
    obtain rfl := Option.some.inj ha
    exact ⟨List.getElem_mem _, heq⟩
  | case2 lo hi hhi hlt mid hmid hne hless ih =>
    rw [search, dif_pos hlt]
    simp only [mid] at hne hless ih
    simp only [hne, hless, ↓reduceIte]
    exact ih (hw.upper hinc hmid hless)
  | case3 lo hi hhi hlt mid hmid hne hless ih =>
    rw [search, dif_pos hlt]
    simp only [mid] at hne hless ih
    simp only [hne, hless, ↓reduceIte]
    have hgreater : k < key table[mid] := lt_of_le_of_ne (not_lt.mp hless) (Ne.symm hne)
    exact ih (hw.lower hinc hmid hgreater)
  | case4 lo hi hhi hge =>
    rw [search, dif_neg hge]
    refine ⟨by simp, fun _ a ha hk => ?_⟩
    -- the interval is empty
    obtain ⟨i, hi', rfl⟩ := List.mem_iff_getElem.mp ha
    obtain ⟨hlo, hhi'⟩ := hw i hi' hk
    exact hge (Nat.lt_of_le_of_lt hlo hhi')

/-- Keys that increase strictly are distinct. -/
lemma Increasing.eq_of_key_eq (hinc : Increasing key table) {a b : α} (ha : a ∈ table)
    (hb : b ∈ table) (hkey : key a = key b) : a = b := by
  obtain ⟨i, hi, rfl⟩ := List.mem_iff_getElem.mp ha
  obtain ⟨j, hj, rfl⟩ := List.mem_iff_getElem.mp hb
  rcases Nat.lt_trichotomy i j with hij | rfl | hji
  · exact absurd hkey (ne_of_lt (hinc.lt hi hj hij))
  · rfl
  · exact absurd hkey.symm (ne_of_lt (hinc.lt hj hi hji))

/-- The search over the whole list finds exactly the element of the key. -/
theorem search_eq_some_iff (hinc : Increasing key table) {a : α} :
    search key table k 0 table.length (Nat.le_refl _) = some a ↔ a ∈ table ∧ key a = k := by
  have hw : Within key table k 0 table.length := fun i hi _ => ⟨Nat.zero_le i, hi⟩
  obtain ⟨hsome, hnone⟩ := search_spec hinc (Nat.le_refl _) hw
  refine ⟨hsome a, ?_⟩
  rintro ⟨ha, hk⟩
  cases hres : search key table k 0 table.length (Nat.le_refl _) with
  | none => exact absurd hk (hnone hres a ha)
  | some b =>
    obtain ⟨hb, hkb⟩ := hsome b hres
    rw [hinc.eq_of_key_eq hb ha (hkb.trans hk.symm)]

theorem search_eq_none_iff (hinc : Increasing key table) :
    search key table k 0 table.length (Nat.le_refl _) = none ↔ ∀ a ∈ table, key a ≠ k := by
  have hw : Within key table k 0 table.length := fun i hi _ => ⟨Nat.zero_le i, hi⟩
  refine ⟨(search_spec hinc (Nat.le_refl _) hw).2, fun hne => ?_⟩
  cases hres : search key table k 0 table.length (Nat.le_refl _) with
  | none => rfl
  | some b =>
    obtain ⟨hb, hkb⟩ := (search_eq_some_iff hinc).mp hres
    exact absurd hkb (hne b hb)

end SyscallMonitor.Lib
