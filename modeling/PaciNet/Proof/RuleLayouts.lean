import PaciNet.Proof.RuleBlocks

/-!
# How YAML lays out a sequence of rules

A template has its rules as a block sequence under the key `rules`: items that each begin with a
dash in one column, which may be that of the key, with blank lines and comments anywhere. In the
draft the rules stand in another column. A line of a rule is moved there with the others; a blank
line or a comment between the rules only has to stay one, and to stay between them.
-/

set_option autoImplicit false

namespace PaciNet.DeployPage

open Lib

/-! ## Lines of YAML -/

/-- White space of YAML, and the carriage return that may end a line. -/
def isWhite (c : Char) : Bool := c == ' ' || c == '\t' || c == '\r'

def isBlank (line : Text) : Bool := line.all isWhite

def isComment (line : Text) : Bool := (line.dropWhile isWhite).head? == some '#'

def isTrivia (line : Text) : Bool := isBlank line || isComment line

/-- What may follow an indicator: nothing, or white space first. -/
def isApart (s : Text) : Bool := s.head?.all isWhite

/-- A blank line, or a comment that is not deeper than the items. A deeper one may be text of an
    item. -/
def isGap (column : Nat) (line : Text) : Bool :=
  isBlank line || (isComment line && leadingSpaces line ≤ column)

/-- Lines after the last item: what is deeper than the items is a comment after another one has
    ended the item. -/
def isTrailing (column : Nat) : List Text → Bool
  | [] => true
  | line :: lines =>
    if isBlank line then isTrailing column lines else isGap column line && lines.all isTrivia

/-- An item of a block sequence in the given column. -/
structure Item (column : Nat) where
  /-- What stands after the dash. -/
  content : Text
  apart : isApart content = true
  rest : List Text
  deeper : ∀ line ∈ rest, isTrivia line = true ∨ column < leadingSpaces line

def Item.first {column : Nat} (item : Item column) : Text :=
  List.replicate column ' ' ++ '-' :: item.content

def Item.lines {column : Nat} (item : Item column) : List Text := item.first :: item.rest

/-- A text with a block sequence under the key `rules`. -/
structure RulesLayout where
  before : List Text
  /-- The column of the key. -/
  column : Nat
  /-- What stands after the key: nothing, a comment, an anchor or a tag. -/
  ending : Text
  ending_apart : isApart ending = true
  ending_opens : (ending.dropWhile isWhite).head? ∈ [none, some '#', some '&', some '!']
  lead : List Text
  lead_trivia : ∀ line ∈ lead, isTrivia line = true
  itemColumn : Nat
  column_le : column ≤ itemColumn
  items : List (Item itemColumn)
  items_ne : items ≠ []
  after : List Text
  /-- The sequence ends at something that shows and is no item of it. -/
  after_ends : ∀ line ∈ after.head?, leadingSpaces line ≤ column ∧ isEmptyLine line = false ∧
    isComment line = false ∧ ∀ item : Item itemColumn, line ≠ item.first

namespace RulesLayout

variable (t : RulesLayout)

def header : Text :=
  List.replicate t.column ' ' ++ ['r', 'u', 'l', 'e', 's', ':'] ++ t.ending

/-- The lines of the items. -/
def ruleLines : List Text := t.items.flatMap Item.lines

def lines : List Text := t.before ++ t.header :: (t.lead ++ (t.ruleLines ++ t.after))

end RulesLayout

/-! ## Rules that are moved -/

/-- A line of a rule is moved from its column to the margin of the draft; a gap stays one. -/
def Shifted (column : Nat) (line line' : Text) : Prop :=
  (isGap column line = true → isGap margin.length line' = true) ∧
    (isGap column line = false → line' = margin ++ line.drop column)

/-- All rules of a template are in these lines, each once and in their order. Only what is after
    the last of them may be missing. -/
def Preserved (t : RulesLayout) (out : List Text) : Prop :=
  ∃ kept left, kept ++ left = t.ruleLines ∧ isTrailing t.itemColumn left = true ∧
    List.Forall₂ (Shifted t.itemColumn) kept out

/-! ## Facts about lines -/

variable {column n : Nat} {line : Text}

theorem isSpace_of_isWhite {c : Char} (h : isWhite c = true) : isSpace c = true := by
  simp only [isWhite, Bool.or_eq_true, beq_iff_eq] at h
  rcases h with (rfl | rfl) | rfl <;> decide

theorem isEmptyLine_of_isBlank (h : isBlank line = true) : isEmptyLine line = true := by
  rw [isEmptyLine_iff]
  intro c hc
  exact isSpace_of_isWhite (List.all_eq_true.mp h c hc)

/-- A comment is white space and then its sign. -/
theorem isComment_iff :
    isComment line = true ↔ ∃ s t, line = s ++ '#' :: t ∧ ∀ c ∈ s, isWhite c = true := by
  rw [isComment, beq_iff_eq]
  constructor
  · intro h
    obtain ⟨t, ht⟩ := List.head?_eq_some_iff.mp h
    refine ⟨line.takeWhile isWhite, t, ?_, fun c hc => List.mem_takeWhile_imp hc⟩
    rw [← ht, List.takeWhile_append_dropWhile]
  · rintro ⟨s, t, rfl, hs⟩
    rw [List.dropWhile_append_of_pos hs, List.dropWhile_cons_of_neg (by decide)]
    rfl

theorem not_isEmptyLine_of_isComment (h : isComment line = true) : isEmptyLine line = false := by
  obtain ⟨s, t, rfl, -⟩ := isComment_iff.mp h
  rw [Bool.eq_false_iff]
  intro hempty
  have hsign := isEmptyLine_iff.mp hempty '#' (by simp)
  revert hsign
  decide

theorem not_startsItem_of_isComment (h : isComment line = true) : startsItem line = false := by
  obtain ⟨s, t, rfl, hs⟩ := isComment_iff.mp h
  have hsign : isSpace '#' = false := by decide
  obtain ⟨u, hu⟩ : ∃ u, Trimming.trim isSpace ('#' :: t) = '#' :: u := Trimming.trim_cons hsign
  rw [startsItem, trimChars_append_of_spaces fun c hc => isSpace_of_isWhite (hs c hc),
    trimChars_eq_trim, hu]
  rfl

theorem not_startsItem_of_isTrivia (h : isTrivia line = true) : startsItem line = false := by
  rw [isTrivia, Bool.or_eq_true] at h
  rcases h with hblank | hcomment
  · rw [Bool.eq_false_iff]
    intro hitem
    have hempty := not_isEmptyLine_of_startsItem hitem
    rw [isEmptyLine_of_isBlank hblank] at hempty
    cases hempty
  · exact not_startsItem_of_isComment hcomment

/-- With spaces in front a line is what it was, only deeper. -/
theorem isGap_replicate_append :
    isGap (n + column) (List.replicate n ' ' ++ line) = isGap column line := by
  have hspaces : ∀ c ∈ List.replicate n ' ', isWhite c = true := by
    intro c hc
    rw [List.eq_of_mem_replicate hc]
    rfl
  rw [isGap, isBlank, isComment, List.all_append, List.all_eq_true.mpr hspaces,
    List.dropWhile_append_of_pos hspaces, leadingSpaces_replicate_append, Bool.true_and]
  simp [isGap, isBlank, isComment]

theorem leadingSpaces_replicate_cons {c : Char} (h : c ≠ ' ') :
    leadingSpaces (List.replicate n ' ' ++ c :: line) = n := by
  rw [leadingSpaces_replicate_append]
  simp [leadingSpaces, h]

/-- The first line of an item is no gap, and stands in the column of the items. -/
theorem Item.isGap_first (item : Item column) : isGap column item.first = false := by
  have hwhite : isWhite '-' = false := by decide
  show isGap (column + 0) (List.replicate column ' ' ++ '-' :: item.content) = false
  rw [isGap_replicate_append]
  simp [isGap, isBlank, isComment, hwhite]

/-- Nothing after the last item begins with an item. -/
theorem Item.not_isTrailing (item : Item column) (lines : List Text) :
    isTrailing column (item.first :: lines) = false := by
  have hgap := item.isGap_first
  have hblank : isBlank item.first = false := (Bool.or_eq_false_iff.mp hgap).1
  rw [isTrailing, hblank, hgap]
  rfl

theorem Item.leadingSpaces_first (item : Item column) : leadingSpaces item.first = column :=
  leadingSpaces_replicate_cons (by decide)

theorem Item.isGap_or_le (item : Item column) (h : line ∈ item.lines) :
    isGap column line = true ∨ column ≤ leadingSpaces line := by
  rcases List.mem_cons.mp h with rfl | h
  · exact .inr item.leadingSpaces_first.ge
  · rcases item.deeper line h with htrivia | hdeeper
    · by_cases hle : leadingSpaces line ≤ column
      · left
        simp only [isTrivia, Bool.or_eq_true] at htrivia
        simp only [isGap, Bool.or_eq_true, Bool.and_eq_true]
        exact htrivia.imp_right fun hcomment => ⟨hcomment, decide_eq_true hle⟩
      · exact .inr (Nat.le_of_not_le hle)
    · exact .inr hdeeper.le

/-- **What the composer may do to a line in moving it**: cut into a comment that is left of the
    items, and lose what shows nothing. -/
theorem shifted_normalize_iff (h : isGap column line = true ∨ column ≤ leadingSpaces line) :
    Shifted column line (normalize column line) ↔
      (isComment line = true → leadingSpaces line < column →
        isGap 0 (sliceFrom column line) = true) ∧
      (isEmptyLine line = true → isGap column line = true) := by
  cases hgap : isGap column line with
  | false =>
    have hle : column ≤ leadingSpaces line := h.resolve_left (by simp [hgap])
    rw [Shifted, hgap, normalize, sliceFrom_of_le hle]
    cases hempty : isEmptyLine line with
    | false => simp [Nat.not_lt.mpr hle]
    | true => simp [margin]
  | true =>
    have hshifted : Shifted column line (normalize column line) ↔
        isGap margin.length (normalize column line) = true := by
      simp [Shifted, hgap]
    rw [hshifted, normalize]
    cases hempty : isEmptyLine line with
    | true =>
      have hcomment : isComment line = false := by
        rw [Bool.eq_false_iff]
        intro hcomment
        rw [not_isEmptyLine_of_isComment hcomment] at hempty
        cases hempty
      simp [hcomment, isGap, isBlank]
    | false =>
      have hmargin : isGap margin.length (margin ++ sliceFrom column line) =
          isGap 0 (sliceFrom column line) := by
        show isGap (4 + 0) (List.replicate 4 ' ' ++ sliceFrom column line) = _
        rw [isGap_replicate_append]
      have hcomment : isComment line = true ∧ leadingSpaces line ≤ column := by
        rw [isGap, Bool.or_eq_true, Bool.and_eq_true, decide_eq_true_iff] at hgap
        refine hgap.resolve_left fun hblank => ?_
        rw [isEmptyLine_of_isBlank hblank] at hempty
        cases hempty
      rw [if_neg Bool.false_ne_true, hmargin]
      constructor
      · intro hcut
        exact ⟨fun _ _ => hcut, fun h => by cases h⟩
      · intro hcut
        rcases hcomment.2.lt_or_eq with hlt | heq
        · exact hcut.1 hcomment.1 hlt
        · -- in the column of the items nothing but spaces is cut off
          rw [sliceFrom_of_le heq.ge, ← isGap_replicate_append (n := column),
            replicate_append_drop heq.ge, Nat.add_zero, hgap]

end PaciNet.DeployPage
