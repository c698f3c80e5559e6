import Mathlib.Data.List.TakeWhile
import PaciNet.Lib.Splitting
import PaciNet.Lib.Trimming
import PaciNet.Web.Templates

/-!
# What the composer takes of a template

Two nested loops cut the lines under `rules:` into blocks. A block ends where the next one begins or
where the rules end, so that **the blocks together are one run of lines (`flatten_ruleBlocks`)**:
from the first line that opens an item, up to the first one that stands as far left as `rules:`, all
of them moved by the indentation of the first.
-/

set_option autoImplicit false

namespace PaciNet.DeployPage

open Lib

variable {rulesIndent rounds n : Nat} {line : Text} {lines rest : List Text}

/-! ## Lines -/

theorem trimChars_eq_trim {s : Text} : trimChars s = Trimming.trim isSpace s := rfl

theorem isEmptyLine_iff : isEmptyLine line = true ↔ ∀ c ∈ line, isSpace c = true := by
  rw [isEmptyLine, beq_iff_eq, trimChars_eq_trim]
  constructor
  · intro h c hc
    by_contra hspace
    have hkept := Trimming.mem_trim hc (Bool.eq_false_iff.mpr hspace)
    rw [h] at hkept
    cases hkept
  · intro h
    rw [Trimming.trim, List.dropWhile_eq_nil_iff.mpr h]
    rfl

/-- A line that opens an item has a dash. -/
theorem not_isEmptyLine_of_startsItem (h : startsItem line = true) : isEmptyLine line = false := by
  rw [isEmptyLine, Bool.eq_false_iff]
  intro hempty
  rw [startsItem, beq_iff_eq.mp hempty] at h
  cases h

/-- White space in front is trimmed away. -/
theorem trimChars_append_of_spaces {s t : Text} (h : ∀ c ∈ s, isSpace c = true) :
    trimChars (s ++ t) = trimChars t := by
  rw [trimChars, List.dropWhile_append_of_pos h, trimChars]

theorem isSpace_of_mem_replicate {c : Char} (h : c ∈ List.replicate n ' ') : isSpace c = true := by
  rw [List.eq_of_mem_replicate h]
  decide

theorem trimChars_replicate_append {s : Text} :
    trimChars (List.replicate n ' ' ++ s) = trimChars s :=
  trimChars_append_of_spaces fun _ hc => isSpace_of_mem_replicate hc

theorem startsItem_replicate_append :
    startsItem (List.replicate n ' ' ++ line) = startsItem line := by
  rw [startsItem, trimChars_replicate_append, startsItem]

/-! ## Indentation -/

theorem leadingSpaces_replicate_append :
    leadingSpaces (List.replicate n ' ' ++ line) = n + leadingSpaces line := by
  rw [leadingSpaces, List.takeWhile_append_of_pos]
  · simp [leadingSpaces]
  · intro c hc
    simpa using List.eq_of_mem_replicate hc

/-- A line that is indented begins with the spaces it is indented by. -/
theorem replicate_append_drop (h : n ≤ leadingSpaces line) :
    List.replicate n ' ' ++ line.drop n = line := by
  induction n generalizing line with
  | zero => rfl
  | succ n ih =>
    cases line with
    | nil => exact absurd h (Nat.not_succ_le_zero n)
    | cons c line =>
      by_cases hc : c = ' '
      · subst hc
        have hlt : n ≤ leadingSpaces line := by simpa [leadingSpaces] using h
        rw [List.replicate_succ, List.cons_append, List.drop_succ_cons, ih hlt]
      · simp [leadingSpaces, hc] at h

theorem sliceFrom_replicate_append : sliceFrom n (List.replicate n ' ' ++ line) = line := by
  induction n with
  | zero => cases line <;> rfl
  | succ n ih =>
    rw [List.replicate_succ, List.cons_append, sliceFrom.eq_def]
    exact ih

theorem sliceFrom_of_le (h : n ≤ leadingSpaces line) : sliceFrom n line = line.drop n := by
  have hslice : sliceFrom n (List.replicate n ' ' ++ line.drop n) = line.drop n :=
    sliceFrom_replicate_append
  rwa [replicate_append_drop h] at hslice

/-! ## The loops -/

/-- The rules go on at this line. -/
def inside (rulesIndent : Nat) (line : Text) : Bool :=
  isEmptyLine line || rulesIndent < leadingSpaces line

/-- The outer loop passes over this line. -/
def passed (rulesIndent : Nat) (line : Text) : Bool :=
  isEmptyLine line || (rulesIndent < leadingSpaces line && !startsItem line)

/-- Lines moved by the indentation of the first. -/
def moved : List Text → List Text
  | [] => []
  | line :: lines => (line :: lines).map (normalize (leadingSpaces line))

theorem inside_of_inBlock (h : inBlock rulesIndent n line = true) :
    inside rulesIndent line = true := by
  simp only [inBlock, inside, Bool.or_eq_true, Bool.and_eq_true] at h ⊢
  exact h.imp_right And.left

/-- A block ends at a line of the item column that opens an item, or outside. -/
theorem of_not_inBlock (h : inBlock rulesIndent n line = false)
    (hin : inside rulesIndent line = true) :
    rulesIndent < leadingSpaces line ∧ leadingSpaces line = n ∧ startsItem line = true := by
  simp only [inBlock, inside, Bool.or_eq_false_iff, Bool.or_eq_true] at h hin
  rcases hin with hin | hin
  · rw [h.1] at hin
    cases hin
  · have hlt : rulesIndent < leadingSpaces line := by simpa using hin
    refine ⟨hlt, ?_⟩
    simpa [hlt] using h.2

theorem ruleBlocks_outside (h : inside rulesIndent line = false) :
    ruleBlocks rulesIndent rounds (line :: lines) = [] := by
  simp only [inside, Bool.or_eq_false_iff, decide_eq_false_iff_not, not_lt] at h
  cases rounds with
  | zero => rfl
  | succ rounds => simp [ruleBlocks, h.1, h.2]

/-- From a line that opens an item on, the blocks are the lines up to the end of the rules. -/
theorem flatten_ruleBlocks_item (hin : rulesIndent < leadingSpaces line)
    (hitem : startsItem line = true) (hrounds : lines.length < rounds) :
    (ruleBlocks rulesIndent rounds (line :: lines)).flatten =
      ((line :: lines).takeWhile (inside rulesIndent)).map (normalize (leadingSpaces line)) := by
  induction rounds generalizing line lines with
  | zero => omega
  | succ rounds ih =>
    obtain ⟨c, hc⟩ : ∃ c, leadingSpaces line = c := ⟨_, rfl⟩
    have hline : inside rulesIndent line = true := by simp [inside, hin]
    have hblock : ∀ l ∈ lines.takeWhile (inBlock rulesIndent c), inside rulesIndent l = true :=
      fun l hl => inside_of_inBlock (List.mem_takeWhile_imp hl)
    have hlines := List.takeWhile_append_dropWhile (p := inBlock rulesIndent c) (l := lines)
    rw [List.takeWhile_cons_of_pos hline, ruleBlocks, not_isEmptyLine_of_startsItem hitem,
      if_neg Bool.false_ne_true, if_neg (Nat.not_le.mpr hin), if_pos hitem, List.flatten_cons, hc]
    cases hrest : lines.dropWhile (inBlock rulesIndent c) with
    | nil =>
      rw [hrest, List.append_nil] at hlines
      rw [hlines] at hblock
      rw [hlines, List.takeWhile_eq_self_iff.mpr hblock]
      cases rounds <;> simp [ruleBlocks]
    | cons next rest =>
      have hnext : inBlock rulesIndent c next = false := by
        have hhead := List.head_dropWhile_not (inBlock rulesIndent c) (l := lines)
          (by rw [hrest]; exact List.cons_ne_nil _ _)
        simpa only [hrest, List.head_cons] using hhead
      have hall : lines.takeWhile (inside rulesIndent) =
          lines.takeWhile (inBlock rulesIndent c) ++
            (next :: rest).takeWhile (inside rulesIndent) := by
        rw [← List.takeWhile_append_of_pos hblock, ← hrest, hlines]
      have hlength : rest.length < rounds := by
        have hlen := congrArg List.length hlines
        rw [hrest, List.length_append, List.length_cons] at hlen
        omega
      rw [hall]
      cases hstop : inside rulesIndent next with
      | false =>
        rw [ruleBlocks_outside hstop, List.takeWhile_cons_of_neg (by simp [hstop])]
        simp
      | true =>
        obtain ⟨hlt, hcolumn, hopens⟩ := of_not_inBlock hnext hstop
        rw [ih hlt hopens hlength, hcolumn]
        simp

/-- **The blocks under `rules:` are one run of lines**, moved by the indentation of the first. -/
theorem flatten_ruleBlocks (h : lines.length ≤ rounds) :
    (ruleBlocks rulesIndent rounds lines).flatten =
      moved ((lines.dropWhile (passed rulesIndent)).takeWhile (inside rulesIndent)) := by
  induction rounds generalizing lines with
  | zero =>
    rw [List.eq_nil_of_length_eq_zero (Nat.le_zero.mp h)]
    rfl
  | succ rounds ih =>
    cases lines with
    | nil => rfl
    | cons line lines =>
      have hlength : lines.length ≤ rounds := Nat.le_of_succ_le_succ h
      cases hin : inside rulesIndent line with
      | false =>
        have hpassed : passed rulesIndent line = false := by
          simp only [inside, Bool.or_eq_false_iff] at hin
          simp [passed, hin.1, hin.2]
        rw [ruleBlocks_outside hin, List.dropWhile_cons_of_neg (by simp [hpassed]),
          List.takeWhile_cons_of_neg (by simp [hin])]
        rfl
      | true =>
        cases hpassed : passed rulesIndent line with
        | true =>
          rw [List.dropWhile_cons_of_pos hpassed, ← ih hlength]
          simp only [passed, inside, Bool.or_eq_true, Bool.and_eq_true] at hpassed hin
          by_cases hempty : isEmptyLine line = true
          · rw [ruleBlocks, if_pos hempty]
          · obtain ⟨hlt, hopens⟩ := hpassed.resolve_left hempty
            rw [ruleBlocks, if_neg hempty, if_neg (by simpa using hlt),
              if_neg (by simpa using hopens)]
        | false =>
          simp only [passed, Bool.or_eq_false_iff] at hpassed
          have hlt : rulesIndent < leadingSpaces line := by
            simpa [inside, hpassed.1] using hin
          have hopens : startsItem line = true := by simpa [hlt] using hpassed.2
          rw [List.dropWhile_cons_of_neg (by simp [passed, hpassed.1, hpassed.2]),
            flatten_ruleBlocks_item hlt hopens (Nat.lt_succ_of_le hlength),
            List.takeWhile_cons_of_pos hin]
          rfl

/-- No block is without lines. -/
theorem ne_nil_of_mem_ruleBlocks {block : List Text}
    (h : block ∈ ruleBlocks rulesIndent rounds lines) : block ≠ [] := by
  induction rounds generalizing lines with
  | zero => cases h
  | succ rounds ih =>
    cases lines with
    | nil => cases h
    | cons line lines =>
      rw [ruleBlocks] at h
      split_ifs at h
      · exact ih h
      · cases h
      · rcases List.mem_cons.mp h with rfl | h
        · simp
        · exact ih h
      · exact ih h

end PaciNet.DeployPage
