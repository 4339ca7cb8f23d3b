import Mathlib.Algebra.GroupWithZero.Nat
import Mathlib.Data.List.Nodup
import Mathlib.Order.Basic
import Mathlib.Tactic.Common

/-!
# Bounded queues with distinct keys

A `KeyedQueue key cap` lists at most `cap` elements, oldest first, no two with the same key. An
element leaves it in one of four ways: a newer element of its key supersedes it, it is the oldest
of a full queue when another key enters, it is answered under its key, or the whole queue is
flushed. Each operation returns the queue and what left it, in order.
-/

namespace SyscallMonitor.Lib

universe u v w u' w'

/-- How an element left the queue; an answer carries a value. -/
inductive Departure (ρ : Type w) where
  | superseded
  | evicted
  | answered (r : ρ)
  | flushed

/-- Another form of the answers. -/
def Departure.map {ρ : Type w} {ρ' : Type w'} (g : ρ → ρ') : Departure ρ → Departure ρ'
  | .superseded => .superseded
  | .evicted    => .evicted
  | .answered r => .answered (g r)
  | .flushed    => .flushed

/-- A queue of at most `cap` elements, oldest first, with distinct keys. -/
@[ext]
structure KeyedQueue {α : Type u} {κ : Type v} (key : α → κ) (cap : ℕ) where
  toList : List α
  nodup : (toList.map key).Nodup
  length_le : toList.length ≤ cap

namespace KeyedQueue

variable {α : Type u} {κ : Type v} {ρ : Type w} {key : α → κ} {cap : ℕ}

/-- The queue without elements. -/
def empty : KeyedQueue key cap := ⟨[], List.nodup_nil, Nat.zero_le cap⟩

@[simp] lemma toList_empty : (empty : KeyedQueue key cap).toList = [] := rfl

/-- The queue with a new youngest element. -/
def push (q : KeyedQueue key cap) (a : α) (hkey : key a ∉ q.toList.map key)
    (hroom : q.toList.length < cap) : KeyedQueue key cap where
  toList := q.toList ++ [a]
  nodup := by
    rw [List.map_append, List.map_singleton, ← List.concat_eq_append]
    exact q.nodup.concat hkey
  length_le := by
    rw [List.length_append, List.length_singleton]
    exact hroom

@[simp] lemma toList_push (q : KeyedQueue key cap) (a : α) (hkey : key a ∉ q.toList.map key)
    (hroom : q.toList.length < cap) : (q.push a hkey hroom).toList = q.toList ++ [a] := rfl

/-- The queue without its oldest element. -/
def dropOldest (q : KeyedQueue key cap) : KeyedQueue key cap where
  toList := q.toList.tail
  nodup := q.nodup.sublist ((List.tail_sublist _).map key)
  length_le := by
    rw [List.length_tail]
    exact Nat.le_trans (Nat.sub_le _ _) q.length_le

@[simp] lemma toList_dropOldest (q : KeyedQueue key cap) :
    q.dropOldest.toList = q.toList.tail := rfl

lemma not_mem_dropOldest {q : KeyedQueue key cap} {k : κ} (h : k ∉ q.toList.map key) :
    k ∉ q.dropOldest.toList.map key :=
  fun hmem => h (((List.tail_sublist _).map key).subset hmem)

lemma length_dropOldest_lt [NeZero cap] (q : KeyedQueue key cap) :
    q.dropOldest.toList.length < cap := by
  have hcap := Nat.pos_of_neZero cap
  have hlen := q.length_le
  rw [toList_dropOldest, List.length_tail]
  omega

variable [DecidableEq κ]

/-- The element of a key. -/
def lookup (q : KeyedQueue key cap) (k : κ) : Option α := q.toList.find? fun a => key a = k

lemma lookup_eq_none {q : KeyedQueue key cap} {k : κ} (h : q.lookup k = none) :
    k ∉ q.toList.map key := by
  intro hmem
  obtain ⟨a, ha, hk⟩ := List.mem_map.mp hmem
  have hne := List.find?_eq_none.mp h a ha
  simp [hk] at hne

lemma lookup_eq_some {q : KeyedQueue key cap} {k : κ} {a : α} (h : q.lookup k = some a) :
    a ∈ q.toList ∧ key a = k :=
  ⟨List.mem_of_find?_eq_some h, by simpa using List.find?_some h⟩

/-- Keys are distinct, so an element is found under its key. -/
lemma lookup_of_mem {q : KeyedQueue key cap} {a : α} (ha : a ∈ q.toList) :
    q.lookup (key a) = some a := by
  cases h : q.lookup (key a) with
  | none => exact absurd (List.mem_map_of_mem ha) (lookup_eq_none h)
  | some b =>
    obtain ⟨hb, hkey⟩ := lookup_eq_some h
    rw [List.inj_on_of_nodup_map q.nodup hb ha hkey]

/-- The queue without the element of a key. -/
def remove (q : KeyedQueue key cap) (k : κ) : KeyedQueue key cap where
  toList := q.toList.filter fun a => key a ≠ k
  nodup := q.nodup.sublist (List.filter_sublist.map key)
  length_le := Nat.le_trans (List.length_filter_le _ _) q.length_le

@[simp] lemma toList_remove (q : KeyedQueue key cap) (k : κ) :
    (q.remove k).toList = q.toList.filter fun a => key a ≠ k := rfl

lemma not_mem_remove (q : KeyedQueue key cap) (k : κ) : k ∉ (q.remove k).toList.map key := by
  simp

lemma length_remove_lt {q : KeyedQueue key cap} {k : κ} {a : α} (h : q.lookup k = some a) :
    (q.remove k).toList.length < cap := by
  obtain ⟨ha, hk⟩ := lookup_eq_some h
  refine Nat.lt_of_lt_of_le ?_ q.length_le
  exact List.length_filter_lt_length_iff_exists.mpr ⟨a, ha, by simp [hk]⟩

/-! ### Operations -/

/-- A new element supersedes the one of its key; if there is none and the queue is full, it evicts
the oldest. -/
def enter [NeZero cap] (q : KeyedQueue key cap) (a : α) :
    KeyedQueue key cap × List (α × Departure ρ) :=
  match h : q.lookup (key a) with
  | some b =>
    ((q.remove (key a)).push a (q.not_mem_remove _) (length_remove_lt h), [(b, .superseded)])
  | none =>
    if hroom : q.toList.length < cap then (q.push a (lookup_eq_none h) hroom, [])
    else
      (q.dropOldest.push a (not_mem_dropOldest (lookup_eq_none h)) q.length_dropOldest_lt,
        q.toList.head?.toList.map fun b => (b, .evicted))

/-- The element of a key leaves with an answer. -/
def answer (q : KeyedQueue key cap) (k : κ) (r : ρ) :
    KeyedQueue key cap × List (α × Departure ρ) :=
  match q.lookup k with
  | some b => (q.remove k, [(b, .answered r)])
  | none => (q, [])

/-- All elements leave, oldest first. -/
def flush (q : KeyedQueue key cap) : KeyedQueue key cap × List (α × Departure ρ) :=
  (empty, q.toList.map fun b => (b, .flushed))

section Enter

variable [NeZero cap] {q : KeyedQueue key cap} {a b : α}

lemma enter_of_some (h : q.lookup (key a) = some b) :
    q.enter a = ((q.remove (key a)).push a (q.not_mem_remove _) (length_remove_lt h),
      [(b, (.superseded : Departure ρ))]) := by
  rw [enter]
  split
  · rename_i c hc
    obtain rfl : b = c := Option.some.inj (h.symm.trans hc)
    rfl
  · rename_i hnone
    rw [h] at hnone
    cases hnone

lemma enter_of_none (h : q.lookup (key a) = none) :
    q.enter a =
      if hroom : q.toList.length < cap then
        (q.push a (lookup_eq_none h) hroom, ([] : List (α × Departure ρ)))
      else
        (q.dropOldest.push a (not_mem_dropOldest (lookup_eq_none h)) q.length_dropOldest_lt,
          q.toList.head?.toList.map fun b => (b, .evicted)) := by
  rw [enter]
  split
  · rename_i hc
    rw [h] at hc
    cases hc
  · rfl

lemma enter_of_room (h : q.lookup (key a) = none) (hroom : q.toList.length < cap) :
    q.enter a = (q.push a (lookup_eq_none h) hroom, ([] : List (α × Departure ρ))) := by
  rw [enter_of_none h, dif_pos hroom]

lemma enter_of_full (h : q.lookup (key a) = none) (hfull : q.toList.length = cap) :
    q.enter a =
      (q.dropOldest.push a (not_mem_dropOldest (lookup_eq_none h)) q.length_dropOldest_lt,
        q.toList.head?.toList.map fun b => (b, (.evicted : Departure ρ))) := by
  rw [enter_of_none h, dif_neg (Nat.not_lt.mpr (Nat.le_of_eq hfull.symm))]

/-- Only the oldest element of a full queue is evicted, and only by an element of another key. -/
theorem evicted_mem_enter (h : (b, (.evicted : Departure ρ)) ∈ (q.enter a).2) :
    q.toList.length = cap ∧ q.toList.head? = some b ∧ key a ∉ q.toList.map key := by
  cases hlook : q.lookup (key a) with
  | some c =>
    rw [enter_of_some hlook] at h
    simp at h
  | none =>
    rcases Nat.lt_or_eq_of_le q.length_le with hroom | hfull
    · rw [enter_of_room hlook hroom] at h
      simp at h
    · rw [enter_of_full hlook hfull] at h
      refine ⟨hfull, ?_, lookup_eq_none hlook⟩
      simpa using h

end Enter

lemma answer_of_some {q : KeyedQueue key cap} {k : κ} {b : α} (r : ρ) (h : q.lookup k = some b) :
    q.answer k r = (q.remove k, [(b, .answered r)]) := by
  simp only [answer, h]

lemma answer_of_none {q : KeyedQueue key cap} {k : κ} (r : ρ) (h : q.lookup k = none) :
    q.answer k r = (q, []) := by
  simp only [answer, h]

/-- What leaves by an answer carries it. -/
lemma answered_of_mem_answer {q : KeyedQueue key cap} {k : κ} {r : ρ} {b : α} {d : Departure ρ}
    (h : (b, d) ∈ (q.answer k r).2) : d = .answered r := by
  cases hlook : q.lookup k with
  | some c =>
    rw [answer_of_some r hlook, List.mem_singleton] at h
    exact (Prod.mk.inj h).2
  | none =>
    rw [answer_of_none r hlook] at h
    simp at h

/-! ### Another form of the elements

A map that keeps the keys commutes with the operations, so that the queue never looks at anything
else.
-/

section Map

variable {β : Type u'} {ρ' : Type w'} {key' : β → κ} (f : α → β)

/-- The queue with its elements in another form. -/
def map (hf : ∀ a, key' (f a) = key a) (q : KeyedQueue key cap) : KeyedQueue key' cap where
  toList := q.toList.map f
  nodup := by
    rw [List.map_map, show key' ∘ f = key from funext hf]
    exact q.nodup
  length_le := by
    rw [List.length_map]
    exact q.length_le

variable {f} {hf : ∀ a, key' (f a) = key a} (q : KeyedQueue key cap)

omit [DecidableEq κ] in
@[simp] lemma toList_map : (q.map f hf).toList = q.toList.map f := rfl

@[simp] lemma lookup_map (k : κ) : (q.map f hf).lookup k = (q.lookup k).map f := by
  simp only [lookup, toList_map, List.find?_map, Function.comp_def, hf]

lemma map_remove (k : κ) : (q.remove k).map f hf = (q.map f hf).remove k := by
  apply KeyedQueue.ext
  simp only [toList_map, toList_remove, List.filter_map, Function.comp_def, hf]

/-- What is put out by an operation, in another form. -/
abbrev mapOut (f : α → β) (g : ρ → ρ') (out : List (α × Departure ρ)) : List (β × Departure ρ') :=
  out.map (Prod.map f (Departure.map g))

theorem enter_map [NeZero cap] (g : ρ → ρ') (a : α) :
    (q.map f hf).enter (f a)
      = ((q.enter (ρ := ρ) a).1.map f hf, mapOut f g (q.enter (ρ := ρ) a).2) := by
  cases hlook : q.lookup (key a) with
  | some b =>
    have hlook' : (q.map f hf).lookup (key' (f a)) = some (f b) := by
      rw [lookup_map, hf, hlook, Option.map_some]
    rw [enter_of_some hlook, enter_of_some hlook']
    refine Prod.ext (KeyedQueue.ext ?_) rfl
    simp only [toList_push, toList_map, toList_remove, List.map_append, List.filter_map,
      Function.comp_def, hf, List.map_singleton]
  | none =>
    have hlook' : (q.map f hf).lookup (key' (f a)) = none := by
      rw [lookup_map, hf, hlook, Option.map_none]
    have hlength : (q.map f hf).toList.length = q.toList.length := List.length_map f
    rcases Nat.lt_or_eq_of_le q.length_le with hroom | hfull
    · rw [enter_of_room hlook hroom, enter_of_room hlook' (hlength.trans_lt hroom)]
      refine Prod.ext (KeyedQueue.ext ?_) rfl
      simp only [toList_push, toList_map, List.map_append, List.map_singleton]
    · rw [enter_of_full hlook hfull, enter_of_full hlook' (hlength.trans hfull)]
      refine Prod.ext (KeyedQueue.ext ?_) ?_
      · simp only [toList_push, toList_dropOldest, toList_map, List.map_append, List.map_tail,
          List.map_singleton]
      · simp only [toList_map, List.head?_map, mapOut]
        cases q.toList.head? <;> rfl

theorem answer_map (g : ρ → ρ') (k : κ) (r : ρ) :
    (q.map f hf).answer k (g r) = ((q.answer k r).1.map f hf, mapOut f g (q.answer k r).2) := by
  cases hlook : q.lookup k with
  | some b =>
    have hlook' : (q.map f hf).lookup k = some (f b) := by
      rw [lookup_map, hlook, Option.map_some]
    rw [answer_of_some r hlook, answer_of_some (g r) hlook', map_remove]
    rfl
  | none =>
    have hlook' : (q.map f hf).lookup k = none := by
      rw [lookup_map, hlook, Option.map_none]
    rw [answer_of_none r hlook, answer_of_none (g r) hlook']
    rfl

omit [DecidableEq κ] in
theorem flush_map (g : ρ → ρ') :
    (q.map f hf).flush = ((q.flush (ρ := ρ)).1.map f hf, mapOut f g (q.flush (ρ := ρ)).2) := by
  refine Prod.ext rfl ?_
  simp only [flush, toList_map, List.map_map]
  rfl

end Map

/-! ### Operations made twice -/

lemma lookup_enter_self [NeZero cap] (q : KeyedQueue key cap) (a : α) :
    ∃ l, (q.enter (ρ := ρ) a).1.toList = l ++ [a] ∧ key a ∉ l.map key := by
  cases hlook : q.lookup (key a) with
  | some b =>
    rw [enter_of_some hlook]
    exact ⟨_, rfl, q.not_mem_remove (key a)⟩
  | none =>
    have hnone := lookup_eq_none hlook
    rcases Nat.lt_or_eq_of_le q.length_le with hroom | hfull
    · rw [enter_of_room hlook hroom]
      exact ⟨_, rfl, hnone⟩
    · rw [enter_of_full hlook hfull]
      exact ⟨_, rfl, not_mem_dropOldest hnone⟩

/-- An element that enters again supersedes itself, and the queue stays as it is. -/
theorem enter_enter [NeZero cap] (q : KeyedQueue key cap) (a : α) :
    (q.enter (ρ := ρ) a).1.enter a
      = ((q.enter (ρ := ρ) a).1, [(a, (.superseded : Departure ρ))]) := by
  obtain ⟨l, hl, hkey⟩ := q.lookup_enter_self (ρ := ρ) a
  have hmem : a ∈ (q.enter (ρ := ρ) a).1.toList := by simp [hl]
  rw [enter_of_some (lookup_of_mem hmem)]
  refine Prod.ext (KeyedQueue.ext ?_) rfl
  have hrest : (l.filter fun b => key b ≠ key a) = l := by
    refine List.filter_eq_self.mpr fun b hb => ?_
    have hne : key b ≠ key a := fun hk => hkey (hk ▸ List.mem_map_of_mem hb)
    simpa using hne
  rw [toList_push, toList_remove, hl, List.filter_append, hrest]
  simp

/-- A second answer finds nothing. -/
theorem answer_answer (q : KeyedQueue key cap) (k : κ) (r r' : ρ) :
    (q.answer k r).1.answer k r' = ((q.answer k r).1, []) := by
  apply answer_of_none
  cases hlook : q.lookup k with
  | some b =>
    rw [answer_of_some r hlook]
    refine List.find?_eq_none.mpr fun a ha => ?_
    simpa using (List.mem_filter.mp ha).2
  | none => rw [answer_of_none r hlook, hlook]

omit [DecidableEq κ] in
/-- A second flush finds nothing. -/
theorem flush_flush (q : KeyedQueue key cap) :
    (q.flush (ρ := ρ)).1.flush = ((q.flush (ρ := ρ)).1, ([] : List (α × Departure ρ))) := rfl

end KeyedQueue

end SyscallMonitor.Lib
