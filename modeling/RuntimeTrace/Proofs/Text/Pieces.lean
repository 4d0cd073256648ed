import Mathlib.Data.List.Forall2
import RuntimeTrace.Text.Blank
import RuntimeTrace.Text.Column
import RuntimeTrace.Text.Line

/-!
# Pieces between separators

A list of names and a text of lines are both cut at a separator, the one between its pieces
and the other behind them.  Both cuts are the pieces of `List.splitOn`, and what is known of
these pieces need not be proved again: joined with separators they are the whole, and a piece
holds no separator.

For lines there is more to it.  The cut keeps the separator with its line and makes no line
where nothing stands behind the last separator; taking the ending off drops the separator and a
carriage return before it, but keeps a carriage return at the end of the last line.  So the
lines are the pieces, up to carriage returns at their ends and an empty piece at the end
(`forall₂_lines`).  A reader that trims lines and skips blank ones sees no difference.
-/

namespace RuntimeTrace
namespace Text

/-! ## Between separators -/

theorem splitChars_eq_splitOn (separator : Char) (cs : List Char) :
    splitChars separator cs = cs.splitOn separator := by
  induction cs with
  | nil => rfl
  | cons c rest ih =>
    rw [splitChars, List.splitOn_cons_eq_if_modifyHead, ih]
    by_cases h : c = separator
    · rw [if_pos h, if_pos (beq_iff_eq.mpr h)]
    · rw [if_neg h, if_neg (mt beq_iff_eq.mp h)]
      cases hpieces : rest.splitOn separator with
      | nil => exact absurd hpieces (List.splitOn_ne_nil separator rest)
      | cons piece pieces => rfl

/-- What stands before the first separator belongs to the first piece. -/
theorem splitOn_append_of_notMem {α : Type} [BEq α] [LawfulBEq α] {separator : α} {front : List α}
    (h : separator ∉ front) (rest : List α) :
    (front ++ rest).splitOn separator = (rest.splitOn separator).modifyHead (front ++ ·) := by
  induction front with
  | nil =>
    rw [List.nil_append]
    exact (congrFun List.modifyHead_id _).symm
  | cons a front ih =>
    rw [List.mem_cons, not_or] at h
    rw [List.cons_append, List.splitOn_cons_eq_if_modifyHead,
      if_neg (mt beq_iff_eq.mp (Ne.symm h.1)), ih h.2, List.modifyHead_modifyHead]
    rfl

/-- If not all pieces are good, there is a first that is not. -/
theorem exists_first {α : Type} {good : α → Prop} {pieces : List α}
    (h : ¬ ∀ piece ∈ pieces, good piece) :
    ∃ before piece after, pieces = before ++ piece :: after ∧ (∀ p ∈ before, good p) ∧
      ¬ good piece := by
  induction pieces with
  | nil => exact absurd (fun piece hmem => absurd hmem List.not_mem_nil) h
  | cons p pieces ih =>
    by_cases hp : good p
    · rw [List.forall_mem_cons, not_and] at h
      obtain ⟨before, piece, after, rfl, hbefore, hpiece⟩ := ih (h hp)
      exact ⟨p :: before, piece, after, rfl, List.forall_mem_cons.mpr ⟨hp, hbefore⟩, hpiece⟩
    · exact ⟨[], p, pieces, rfl, fun q hq => absurd hq List.not_mem_nil, hp⟩

/-! ## Lines -/

section Lines

variable {α : Type} [DecidableEq α] {feed carriage : α}

theorem cutAfter_append_cons {line : List α} (h : feed ∉ line) (rest : List α) :
    cutAfter feed (line ++ feed :: rest) = (line ++ [feed]) :: cutAfter feed rest := by
  induction line with
  | nil => rw [List.nil_append, cutAfter, if_pos rfl, List.nil_append]
  | cons a line ih =>
    rw [List.mem_cons, not_or] at h
    rw [List.cons_append, cutAfter, if_neg (Ne.symm h.1), ih h.2, List.cons_append]

theorem cutAfter_of_notMem {line : List α} (h : feed ∉ line) (hline : line ≠ []) :
    cutAfter feed line = [line] := by
  induction line with
  | nil => exact absurd rfl hline
  | cons a line ih =>
    rw [List.mem_cons, not_or] at h
    rw [cutAfter, if_neg (Ne.symm h.1)]
    cases line with
    | nil => rfl
    | cons b line => rw [ih h.2 (List.cons_ne_nil b line)]

theorem dropEnding_of_notMem {line : List α} (h : feed ∉ line) :
    dropEnding feed carriage line = line := by
  rw [dropEnding]
  split
  · rename_i hnil
    exact (List.reverse_eq_nil_iff.mp hnil).symm
  · rename_i a rest hcons
    have hmem : a ∈ line := by rw [← List.mem_reverse, hcons]; exact List.mem_cons_self
    exact if_neg fun heq : a = feed => h (heq ▸ hmem)

/-- A line feed goes with one carriage return, if there is one before it. -/
theorem dropEnding_append_feed (line : List α) :
    line = dropEnding feed carriage (line ++ [feed]) ∨
      line = dropEnding feed carriage (line ++ [feed]) ++ [carriage] := by
  rw [dropEnding, List.reverse_append, List.reverse_singleton, List.singleton_append]
  simp only [↓reduceIte]
  cases hline : line.reverse with
  | nil => exact Or.inl (List.reverse_eq_nil_iff.mp hline)
  | cons b more =>
    rw [List.reverse_eq_cons_iff] at hline
    by_cases hb : b = carriage
    · refine Or.inr ?_
      simp only [if_pos hb]
      rw [hline, hb]
    · refine Or.inl ?_
      simp only [if_neg hb, List.reverse_cons]
      exact hline

variable (feed carriage) in
/-- **The lines are the pieces between line feeds**, but that a piece may end in one carriage
return more, and that the last piece is no line if it is empty. -/
theorem forall₂_lines (as : List α) :
    ∃ pieces last, as.splitOn feed = pieces ++ last ∧ (last = [] ∨ last = [[]]) ∧
      List.Forall₂ (fun line piece => piece = line ∨ piece = line ++ [carriage])
        ((cutAfter feed as).map (dropEnding feed carriage)) pieces := by
  -- on the length, since a piece is taken off the front at once
  induction hn : as.length using Nat.strongRecOn generalizing as with
  | ind n ih =>
    by_cases hfeed : feed ∈ as
    · obtain ⟨line, rest, rfl, hline⟩ := List.eq_append_cons_of_mem hfeed
      have hshorter : rest.length < n := by
        rw [← hn, List.length_append, List.length_cons]
        omega
      obtain ⟨pieces, last, hsplit, hlast, hlines⟩ := ih rest.length hshorter rest rfl
      refine ⟨line :: pieces, last, ?_, hlast, ?_⟩
      · rw [List.splitOn_append_cons_self, List.splitOn_eq_singleton hline, hsplit]
        rfl
      · rw [cutAfter_append_cons hline, List.map_cons]
        exact List.Forall₂.cons (dropEnding_append_feed line) hlines
    · rw [List.splitOn_eq_singleton hfeed]
      by_cases hnil : as = []
      · subst hnil
        exact ⟨[], [[]], rfl, Or.inr rfl, List.Forall₂.nil⟩
      · refine ⟨[as], [], rfl, Or.inl rfl, ?_⟩
        rw [cutAfter_of_notMem hfeed hnil, List.map_singleton, dropEnding_of_notMem hfeed]
        exact List.Forall₂.cons (Or.inl rfl) List.Forall₂.nil

end Lines

/-! ## Blanks -/

/-- Blanks at the end are trimmed away. -/
theorem trimChars_append_of_blank (cs : List Char) {c : Char} (h : isBlank c = true) :
    trimChars (cs ++ [c]) = trimChars cs := by
  rw [trimChars, trimChars, List.dropWhile_append]
  by_cases hempty : (cs.dropWhile isBlank).isEmpty = true
  · rw [if_pos hempty, List.isEmpty_iff.mp hempty, List.dropWhile_cons_of_pos h]
    rfl
  · rw [if_neg hempty, List.reverse_append, List.reverse_singleton, List.singleton_append,
      List.dropWhile_cons_of_pos h]

end Text
end RuntimeTrace
