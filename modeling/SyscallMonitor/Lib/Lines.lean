import Mathlib.Tactic.Common

/-!
# Terminated lines

A text is cut after each terminator `nl`; what follows the last one is not a line yet. Reading the
lines off one by one gives the same lines in the same order, whatever is appended in between.
-/

namespace SyscallMonitor.Lib

universe u

variable {α : Type u}

/-- A line: one terminator, at the end. -/
structure IsLine (nl : α) (l : List α) : Prop where
  terminated : ∃ body, l = body ++ [nl] ∧ nl ∉ body

variable [DecidableEq α] {nl : α}

/-- The first line of a text, with its terminator, and what follows it. -/
def nextLine (nl : α) : List α → Option (List α × List α)
  | [] => none
  | c :: s => if c = nl then some ([c], s) else (nextLine nl s).map fun r => (c :: r.1, r.2)

/-- All lines of a text, with their terminators. -/
def completeLines (nl : α) : List α → List (List α)
  | [] => []
  | c :: s =>
    if c = nl then [c] :: completeLines nl s
    else
      match completeLines nl s with
      | [] => []
      | l :: ls => (c :: l) :: ls

@[simp] lemma completeLines_nil : completeLines nl [] = [] := rfl

/-- The lines of a text are its first line and the lines of what follows. -/
theorem completeLines_eq (nl : α) (s : List α) :
    completeLines nl s
      = match nextLine nl s with
        | none => []
        | some (l, rest) => l :: completeLines nl rest := by
  induction s with
  | nil => rfl
  | cons c s ih =>
    rw [completeLines, nextLine]
    split_ifs with hc
    · rfl
    · rw [ih]
      cases nextLine nl s <;> rfl

lemma completeLines_of_none {s : List α} (h : nextLine nl s = none) : completeLines nl s = [] := by
  rw [completeLines_eq, h]

lemma completeLines_of_some {s l rest : List α} (h : nextLine nl s = some (l, rest)) :
    completeLines nl s = l :: completeLines nl rest := by
  rw [completeLines_eq, h]

/-- The first line is cut off the text. -/
lemma nextLine_eq_some {s l rest : List α} (h : nextLine nl s = some (l, rest)) :
    s = l ++ rest ∧ IsLine nl l := by
  induction s generalizing l with
  | nil => simp [nextLine] at h
  | cons c s ih =>
    rw [nextLine] at h
    split_ifs at h with hc
    · obtain ⟨rfl, rfl⟩ := Prod.mk.inj (Option.some.inj h)
      exact ⟨rfl, [], by rw [hc, List.nil_append], by simp⟩
    · obtain ⟨⟨l', rest'⟩, hl', heq⟩ := Option.map_eq_some_iff.mp h
      obtain ⟨rfl, rfl⟩ := Prod.mk.inj heq
      obtain ⟨rfl, body, rfl, hbody⟩ := ih hl'
      refine ⟨rfl, c :: body, rfl, ?_⟩
      rw [List.mem_cons, not_or]
      exact ⟨Ne.symm hc, hbody⟩

lemma nextLine_eq_none {s : List α} (h : nextLine nl s = none) : nl ∉ s := by
  induction s with
  | nil => simp
  | cons c s ih =>
    rw [nextLine] at h
    split_ifs at h with hc
    rw [List.mem_cons, not_or]
    exact ⟨Ne.symm hc, ih (Option.map_eq_none_iff.mp h)⟩

/-- A line at the beginning of a text is its first one. -/
lemma IsLine.nextLine {l : List α} (hl : IsLine nl l) (rest : List α) :
    nextLine nl (l ++ rest) = some (l, rest) := by
  obtain ⟨body, rfl, hbody⟩ := hl
  induction body with
  | nil => simp [Lib.nextLine]
  | cons c body ih =>
    rw [List.mem_cons, not_or] at hbody
    obtain ⟨hc, hbody⟩ := hbody
    rw [List.cons_append, List.cons_append, Lib.nextLine, if_neg (Ne.symm hc), ih hbody]
    rfl

/-- Lines that have been cut off come first among the lines of the text. -/
theorem completeLines_flatten_append {ls : List (List α)} (hls : ∀ l ∈ ls, IsLine nl l)
    (rest : List α) : completeLines nl (ls.flatten ++ rest) = ls ++ completeLines nl rest := by
  induction ls with
  | nil => rfl
  | cons l ls ih =>
    have hl := hls l List.mem_cons_self
    rw [List.flatten_cons, List.append_assoc, completeLines_of_some (hl.nextLine _),
      ih fun l' hl' => hls l' (List.mem_cons_of_mem l hl'), List.cons_append]

end SyscallMonitor.Lib
