import Mathlib.Data.List.Forall2
import Mathlib.Tactic.Common

/-!
# Sequences of character classes

The regular expressions in which each class of characters stands once or is starred. They are
matched by backtracking, longest first; what is proved about a match is that it fits the pattern,
that there is one if any fits, and, where the pattern leaves no choice, what is left of a text when
all its matches are taken out.
-/

namespace SyscallMonitor.Lib.Regex

universe u v

variable {α : Type u} {β : Type v}

/-- A class of characters, once or any number of times. -/
inductive Atom (α : Type u) where
  | one (p : α → Bool)
  | many (p : α → Bool)

/-- The pieces of text an atom stands for. -/
def Atom.Fits : Atom α → List α → Prop
  | .one p, s  => ∃ c, p c ∧ s = [c]
  | .many p, s => ∀ c ∈ s, p c

/-- A text that is cut into pieces for the atoms. -/
def Matches (r : List (Atom α)) (s : List α) : Prop :=
  ∃ groups, List.Forall₂ Atom.Fits r groups ∧ s = groups.flatten

lemma fits_one_cons {p : α → Bool} {r : List (Atom α)} {groups : List (List α)} :
    List.Forall₂ Atom.Fits (.one p :: r) groups
      ↔ ∃ c gs, groups = [c] :: gs ∧ p c ∧ List.Forall₂ Atom.Fits r gs := by
  rw [List.forall₂_cons_left_iff]
  constructor
  · rintro ⟨_, gs, ⟨c, hc, rfl⟩, hgs, rfl⟩
    exact ⟨c, gs, rfl, hc, hgs⟩
  · rintro ⟨c, gs, rfl, hc, hgs⟩
    exact ⟨[c], gs, ⟨c, hc, rfl⟩, hgs, rfl⟩

lemma fits_many_cons {p : α → Bool} {r : List (Atom α)} {groups : List (List α)} :
    List.Forall₂ Atom.Fits (.many p :: r) groups
      ↔ ∃ g gs, groups = g :: gs ∧ (∀ c ∈ g, p c) ∧ List.Forall₂ Atom.Fits r gs := by
  rw [List.forall₂_cons_left_iff]
  constructor
  · rintro ⟨g, gs, hg, hgs, rfl⟩
    exact ⟨g, gs, rfl, hg, hgs⟩
  · rintro ⟨g, gs, rfl, hg, hgs⟩
    exact ⟨g, gs, hg, hgs, rfl⟩

/-- Two cuts of a text behind the longest beginning that is in a class are the same. -/
lemma append_cons_inj {p : α → Bool} {s s' t t' : List α} {c c' : α} (hs : ∀ d ∈ s, p d)
    (hs' : ∀ d ∈ s', p d) (hc : p c = false) (hc' : p c' = false)
    (h : s ++ c :: t = s' ++ c' :: t') : s = s' ∧ c = c' ∧ t = t' := by
  have hcut := congrArg (List.takeWhile p) h
  rw [List.takeWhile_append_of_pos hs, List.takeWhile_append_of_pos hs',
    List.takeWhile_cons_of_neg (by simp [hc]), List.takeWhile_cons_of_neg (by simp [hc']),
    List.append_nil, List.append_nil] at hcut
  rw [hcut, List.append_right_inj] at h
  exact ⟨hcut, List.cons.inj h⟩

/-! ### Backtracking -/

/-- As many characters of `p` as leave something that `k` accepts. -/
def star (p : α → Bool) (k : List α → Option β) : List α → Option (List α × β)
  | [] => (k []).map ([], ·)
  | c :: s =>
    (if p c then (star p k s).map fun m => (c :: m.1, m.2) else none).or
      ((k (c :: s)).map ([], ·))

/-- The pieces for the atoms at the beginning of a text, and what follows them. -/
def matchAt : List (Atom α) → List α → Option (List (List α) × List α)
  | [], s => some ([], s)
  | .one _ :: _, [] => none
  | .one p :: r, c :: s => if p c then (matchAt r s).map fun m => ([c] :: m.1, m.2) else none
  | .many p :: r, s => (star p (matchAt r) s).map fun m => (m.1 :: m.2.1, m.2.2)

/-- The leftmost match. -/
def search (r : List (Atom α)) : List α → Option (List (List α) × List α)
  | [] => matchAt r []
  | c :: s => (matchAt r (c :: s)).or (search r s)

lemma star_eq_some {p : α → Bool} {k : List α → Option β} {s g : List α} {m : β}
    (h : star p k s = some (g, m)) : ∃ t, s = g ++ t ∧ (∀ c ∈ g, p c) ∧ k t = some m := by
  induction s generalizing g with
  | nil =>
    obtain ⟨m', hm', heq⟩ := Option.map_eq_some_iff.mp h
    obtain ⟨rfl, rfl⟩ := Prod.mk.inj heq
    exact ⟨[], rfl, by simp, hm'⟩
  | cons c s ih =>
    rw [star, Option.or_eq_some_iff] at h
    obtain h | ⟨-, h⟩ := h
    · split_ifs at h with hc
      obtain ⟨⟨g', m'⟩, hm', heq⟩ := Option.map_eq_some_iff.mp h
      obtain ⟨rfl, rfl⟩ := Prod.mk.inj heq
      obtain ⟨t, rfl, hg', ht⟩ := ih hm'
      refine ⟨t, rfl, ?_, ht⟩
      rw [List.forall_mem_cons]
      exact ⟨hc, hg'⟩
    · obtain ⟨m', hm', heq⟩ := Option.map_eq_some_iff.mp h
      obtain ⟨rfl, rfl⟩ := Prod.mk.inj heq
      exact ⟨c :: s, rfl, by simp, hm'⟩

lemma isSome_star {p : α → Bool} {k : List α → Option β} {g t : List α} (hg : ∀ c ∈ g, p c)
    (ht : (k t).isSome) : (star p k (g ++ t)).isSome := by
  induction g with
  | nil => cases t <;> simp [star, ht]
  | cons c g ih =>
    rw [List.forall_mem_cons] at hg
    rw [List.cons_append, star, if_pos hg.1]
    simp [ih hg.2]

/-- A match fits the pattern. -/
theorem matchAt_eq_some {r : List (Atom α)} {s rest : List α} {groups : List (List α)}
    (h : matchAt r s = some (groups, rest)) :
    s = groups.flatten ++ rest ∧ List.Forall₂ Atom.Fits r groups := by
  induction r generalizing s groups with
  | nil =>
    obtain ⟨rfl, rfl⟩ := Prod.mk.inj (Option.some.inj h)
    exact ⟨rfl, .nil⟩
  | cons a r ih =>
    cases a with
    | one p =>
      cases s with
      | nil => cases h
      | cons c s =>
        rw [matchAt] at h
        split_ifs at h with hc
        obtain ⟨⟨groups', rest'⟩, hm, heq⟩ := Option.map_eq_some_iff.mp h
        obtain ⟨rfl, rfl⟩ := Prod.mk.inj heq
        obtain ⟨rfl, hfits⟩ := ih hm
        exact ⟨rfl, .cons ⟨c, hc, rfl⟩ hfits⟩
    | many p =>
      obtain ⟨⟨g, groups', rest'⟩, hm, heq⟩ := Option.map_eq_some_iff.mp h
      obtain ⟨rfl, rfl⟩ := Prod.mk.inj heq
      obtain ⟨t, rfl, hg, ht⟩ := star_eq_some hm
      obtain ⟨rfl, hfits⟩ := ih ht
      refine ⟨?_, .cons hg hfits⟩
      rw [List.flatten_cons, List.append_assoc]

/-- A match is found where there is one. -/
theorem isSome_matchAt {r : List (Atom α)} {groups : List (List α)}
    (h : List.Forall₂ Atom.Fits r groups) (rest : List α) :
    (matchAt r (groups.flatten ++ rest)).isSome := by
  induction h with
  | nil => rfl
  | @cons a g r groups hfits _ ih =>
    cases a with
    | one p =>
      obtain ⟨c, hc, rfl⟩ := hfits
      simp [matchAt, hc, ih]
    | many p =>
      rw [List.flatten_cons, List.append_assoc, matchAt, Option.isSome_map]
      exact isSome_star hfits ih

lemma matchAt_eq_none {r : List (Atom α)} {s : List α} :
    matchAt r s = none ↔ ∀ e, Matches r e → ¬ e <+: s := by
  constructor
  · rintro h - ⟨groups, hfits, rfl⟩ ⟨rest, rfl⟩
    have hsome := isSome_matchAt hfits rest
    rw [h] at hsome
    cases hsome
  · intro h
    rw [Option.eq_none_iff_forall_ne_some]
    rintro ⟨groups, rest⟩ hm
    obtain ⟨rfl, hfits⟩ := matchAt_eq_some hm
    exact h _ ⟨groups, hfits, rfl⟩ (List.prefix_append _ _)

/-- The leftmost match is a match. -/
lemma search_eq_some {r : List (Atom α)} {s : List α} {m : List (List α) × List α}
    (h : search r s = some m) : ∃ t, t <:+ s ∧ matchAt r t = some m := by
  induction s with
  | nil => exact ⟨[], List.suffix_rfl, h⟩
  | cons c s ih =>
    rw [search, Option.or_eq_some_iff] at h
    obtain h | ⟨-, h⟩ := h
    · exact ⟨c :: s, List.suffix_rfl, h⟩
    · obtain ⟨t, ht, hm⟩ := ih h
      exact ⟨t, ht.trans (List.suffix_cons c s), hm⟩

/-! ### Taking all matches out -/

/-- Behind a match, of which `n` more characters are to be left out. An empty match takes nothing
out. -/
def eraseFrom (r : List (Atom α)) : ℕ → List α → List α
  | _, [] => []
  | n + 1, _ :: s => eraseFrom r n s
  | 0, c :: s =>
    match matchAt r (c :: s) with
    | none => c :: eraseFrom r 0 s
    | some (groups, _) =>
      match groups.flatten with
      | [] => c :: eraseFrom r 0 s
      | _ :: e => eraseFrom r e.length s

/-- The text without the matches that are found from left to right. -/
def eraseAll (r : List (Atom α)) (s : List α) : List α := eraseFrom r 0 s

/-- The text on the right is the one on the left with the pieces that are in `M` taken out. -/
inductive Erased (M : List α → Prop) : List α → List α → Prop
  | nil : Erased M [] []
  | drop {e s t : List α} (he : M e) (h : Erased M s t) : Erased M (e ++ s) t
  | keep {c : α} {s t : List α} (hc : ∀ e, M e → ¬ e <+: c :: s) (h : Erased M s t) :
    Erased M (c :: s) (c :: t)

/-- Where pieces to be taken out begin, there is one choice, and it is not empty. -/
structure PrefixFree (M : List α → Prop) : Prop where
  ne_nil : ∀ e, M e → e ≠ []
  eq : ∀ e e' s, M e → M e' → e <+: s → e' <+: s → e = e'

lemma eraseFrom_append (r : List (Atom α)) (e s : List α) :
    eraseFrom r e.length (e ++ s) = eraseFrom r 0 s := by
  induction e with
  | nil => rfl
  | cons c e ih => exact ih

lemma Erased.eraseAll_eq {r : List (Atom α)} (hr : PrefixFree (Matches r)) {s t : List α}
    (h : Erased (Matches r) s t) : eraseAll r s = t := by
  induction h with
  | nil => rfl
  | @drop e s t he _ ih =>
    obtain ⟨m, hm⟩ : ∃ m, matchAt r (e ++ s) = some m := by
      obtain ⟨groups, hfits, rfl⟩ := he
      exact Option.isSome_iff_exists.mp (isSome_matchAt hfits s)
    obtain ⟨hs, hfits⟩ := matchAt_eq_some hm
    have hflat : m.1.flatten = e := by
      refine hr.eq _ _ (e ++ s) ⟨m.1, hfits, rfl⟩ he ?_ (List.prefix_append e s)
      rw [hs]
      exact List.prefix_append _ _
    cases e with
    | nil => exact absurd rfl (hr.ne_nil _ he)
    | cons c e =>
      rw [List.cons_append] at hm
      rw [eraseAll, List.cons_append, eraseFrom]
      simp only [hm, hflat, eraseFrom_append]
      exact ih
  | @keep c s t hc _ ih =>
    rw [eraseAll, eraseFrom, matchAt_eq_none.mpr hc]
    exact congrArg (c :: ·) ih

section Erased

variable {M : List α → Prop}

lemma exists_erased (hM : ∀ e, M e → e ≠ []) (s : List α) : ∃ t, Erased M s t := by
  induction hn : s.length using Nat.strongRecOn generalizing s with
  | _ n ih =>
    cases s with
    | nil => exact ⟨[], .nil⟩
    | cons c s =>
      by_cases hc : ∃ e, M e ∧ e <+: c :: s
      · obtain ⟨e, he, rest, hrest⟩ := hc
        have hpos := List.length_pos_of_ne_nil (hM e he)
        have hlen := congrArg List.length hrest
        rw [List.length_append] at hlen
        obtain ⟨t, ht⟩ := ih rest.length (by omega) rest rfl
        exact ⟨t, hrest ▸ .drop he ht⟩
      · obtain ⟨t, ht⟩ := ih s.length (by rw [← hn]; exact Nat.lt_succ_self _) s rfl
        exact ⟨c :: t, .keep (fun e he hpre => hc ⟨e, he, hpre⟩) ht⟩

/-- **Erasing.** Where the pattern leaves no choice, all its matches are taken out and nothing
else. -/
theorem erased_iff_eraseAll_eq {r : List (Atom α)} (hr : PrefixFree (Matches r)) {s t : List α} :
    Erased (Matches r) s t ↔ eraseAll r s = t := by
  constructor
  · exact Erased.eraseAll_eq hr
  · rintro rfl
    obtain ⟨t, ht⟩ := exists_erased hr.ne_nil s
    rwa [ht.eraseAll_eq hr]

/-- A piece without `b` that begins a text ends before the first `b`. -/
lemma prefix_of_prefix_append_cons {b : α} {e s t : List α} (hb : b ∉ e) (h : e <+: s ++ b :: t) :
    e <+: s := by
  obtain hpre | ⟨_ | ⟨d, x⟩, hx⟩ := List.prefix_or_prefix_of_prefix h (List.prefix_append s _)
  · exact hpre
  · rw [List.append_nil] at hx
    exact hx ▸ List.prefix_rfl
  · rw [← hx, List.prefix_append_right_inj, List.cons_prefix_cons] at h
    obtain ⟨rfl, -⟩ := h
    rw [← hx] at hb
    exact absurd (List.mem_append_right s List.mem_cons_self) hb

/-- What is in front of a character that is in no piece, and what is behind it, are erased on their
own. -/
theorem Erased.append_cons (hM : ∀ e, M e → e ≠ []) {b : α} (hb : ∀ e, M e → b ∉ e)
    {s t s' t' : List α} (h : Erased M s t) (h' : Erased M s' t') :
    Erased M (s ++ b :: s') (t ++ b :: t') := by
  induction h with
  | nil =>
    refine .keep (fun e he hpre => ?_) h'
    have hnil : e <+: [] := prefix_of_prefix_append_cons (s := []) (hb e he) hpre
    exact hM e he (List.prefix_nil.mp hnil)
  | drop he _ ih =>
    rw [List.append_assoc]
    exact .drop he ih
  | keep hc _ ih =>
    exact .keep (fun e he hpre => hc e he (prefix_of_prefix_append_cons (hb e he) hpre)) ih

/-- Text in which no piece begins stays as it is. -/
lemma Erased.append_of_forall_mem (hM : ∀ e, M e → e ≠ []) {x s t : List α}
    (hx : ∀ c ∈ x, ∀ e, M e → e.head? ≠ some c) (h : Erased M s t) :
    Erased M (x ++ s) (x ++ t) := by
  induction x with
  | nil => exact h
  | cons c x ih =>
    rw [List.forall_mem_cons] at hx
    refine .keep (fun e he hpre => ?_) (ih hx.2)
    cases e with
    | nil => exact hM _ he rfl
    | cons d e =>
      exact hx.1 _ he (congrArg some (List.cons_prefix_cons.mp hpre).1)

end Erased

end SyscallMonitor.Lib.Regex
