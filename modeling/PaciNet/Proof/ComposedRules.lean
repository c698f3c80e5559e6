import PaciNet.Proof.RuleLayouts

/-!
# Which templates lose no rule in the draft

The composer finds the rules of a template if nothing else stands on the line of their key, if no
earlier line reads like it, if the items are deeper than the key and no comment above them is not,
and if something stands after the dash of the first. From there it takes every line up to the first
that is not deeper than the key, a comment among them. **So the draft has all rules of readable
templates, and no other template whose key is found, or that has no line like it, has all its rules
in the draft (`noRuleLost_iff_readable`).**

A template that is not readable may have a second key `rules` which is found instead; should the
same rules stand under it, the draft has them from there.
-/

set_option autoImplicit false

namespace PaciNet.DeployPage

open Lib

/-! ## What is asked for -/

/-- The blocks a template adds to the draft. -/
def templateBlocks (vars : Labels) (tpl : PolicyTemplateJson) : List (List Text) :=
  extractBlocks (substituteVars tpl.rulesYaml.toList vars).output

/-- The lines a template adds to the draft. -/
def templateLines (vars : Labels) (tpl : PolicyTemplateJson) : List Text :=
  (templateBlocks vars tpl).flatten

/-- The template has this layout once its variables are put in. -/
def LaidOut (vars : Labels) (tpl : PolicyTemplateJson) (t : RulesLayout) : Prop :=
  (substituteVars tpl.rulesYaml.toList vars).output.splitOn '\n' = t.lines

/-- A text of whole lines. -/
def unlines (lines : List Text) : Text := lines.flatMap (· ++ ['\n'])

/-- The draft has, under its own `rules:`, the rules of every template in turn and nothing else. -/
def NoRuleLost (templateVars : String) (details : List PolicyTemplateJson)
    (layouts : List RulesLayout) : Prop :=
  let vars := parseTemplateVariables templateVars
  (details ≠ [] → ∃ draft, composeFromTemplates templateVars details = some draft ∧
    draft.rulesYaml.toList = (preamble (mergeTemplates vars details).action).toList ++
      unlines (details.flatMap (templateLines vars))) ∧
  List.Forall₂ (fun tpl t => Preserved t (templateLines vars tpl)) details layouts

/-! ## When it holds -/

/-- The line of the key is the first that reads `rules:`. -/
structure KeyFound (t : RulesLayout) : Prop where
  alone : isRulesLine t.header = true
  first : ∀ line ∈ t.before, isRulesLine line = false

structure Readable (t : RulesLayout) : Prop where
  found : KeyFound t
  indented : t.column < t.itemColumn
  /-- No comment above the first item is as far left as the key. -/
  lead : ∀ line ∈ t.lead, isComment line = true → t.column < leadingSpaces line
  /-- Something stands after the dash of the first item. -/
  opens : ∀ line ∈ t.ruleLines.head?, startsItem line = true
  /-- No rule goes on after a comment as far left as the key. -/
  reaches : isTrailing t.itemColumn (t.ruleLines.dropWhile (inside t.column)) = true
  /-- What is left of a comment that is cut at the column of the items is no text. -/
  comments : ∀ line ∈ t.ruleLines.takeWhile (inside t.column), isComment line = true →
    leadingSpaces line < t.itemColumn → isGap 0 (sliceFrom t.itemColumn line) = true
  /-- No line of a rule is of other white space than YAML's alone. -/
  visible : ∀ line ∈ t.ruleLines.takeWhile (inside t.column), isEmptyLine line = true →
    isGap t.itemColumn line = true

/-- If any line reads `rules:`, the key is found. -/
def Unambiguous (t : RulesLayout) : Prop :=
  (∃ line ∈ t.lines, isRulesLine line = true) → KeyFound t

/-! ## One template -/

variable {t : RulesLayout} {yaml : Text}

theorem leadingSpaces_header : leadingSpaces t.header = t.column := by
  rw [RulesLayout.header, List.append_assoc]
  exact leadingSpaces_replicate_cons (by decide)

/-- The first line of the first item, and the others. -/
theorem RulesLayout.exists_ruleLines_eq (t : RulesLayout) :
    ∃ (item : Item t.itemColumn) (more : List Text), t.ruleLines = item.first :: more := by
  obtain ⟨item, items, hitems⟩ := List.exists_cons_of_ne_nil t.items_ne
  refine ⟨item, item.rest ++ items.flatMap Item.lines, ?_⟩
  rw [RulesLayout.ruleLines, hitems, List.flatMap_cons, Item.lines, List.cons_append]

theorem isGap_or_le_of_mem_ruleLines {line : Text} (h : line ∈ t.ruleLines) :
    isGap t.itemColumn line = true ∨ t.itemColumn ≤ leadingSpaces line := by
  obtain ⟨item, -, hline⟩ := List.mem_flatMap.mp h
  exact item.isGap_or_le hline

theorem extractBlocks_eq_nil (h : ∀ line ∈ yaml.splitOn '\n', isRulesLine line = false) :
    extractBlocks yaml = [] := by
  have hnone : (yaml.splitOn '\n').dropWhile (!isRulesLine ·) = [] := by
    rw [List.dropWhile_eq_nil_iff]
    intro line hline
    rw [h line hline]
    rfl
  rw [extractBlocks, hnone]

/-- What the composer sees of a template whose key is found. -/
def RulesLayout.seen (t : RulesLayout) : List Text :=
  ((t.lead ++ (t.ruleLines ++ t.after)).dropWhile (passed t.column)).takeWhile (inside t.column)

theorem flatten_extractBlocks (hlines : yaml.splitOn '\n' = t.lines) (hkey : KeyFound t) :
    (extractBlocks yaml).flatten = moved t.seen := by
  have habove : ∀ line ∈ t.before, (!isRulesLine line) = true := by
    intro line hline
    rw [hkey.first line hline]
    rfl
  have hbelow : (yaml.splitOn '\n').dropWhile (!isRulesLine ·) =
      t.header :: (t.lead ++ (t.ruleLines ++ t.after)) := by
    rw [hlines, RulesLayout.lines, List.dropWhile_append_of_pos habove,
      List.dropWhile_cons_of_neg (by simp [hkey.alone])]
  rw [extractBlocks, hbelow]
  show (ruleBlocks (leadingSpaces t.header) _ _).flatten = _
  rw [leadingSpaces_header, flatten_ruleBlocks (Nat.le_refl _)]
  rfl

/-- What follows the rules ends them for the composer too. -/
theorem takeWhile_inside_append_after (lines : List Text) :
    (lines ++ t.after).takeWhile (inside t.column) = lines.takeWhile (inside t.column) := by
  induction lines with
  | nil =>
    cases hafter : t.after with
    | nil => rfl
    | cons line after =>
      obtain ⟨hle, hshows, -⟩ := t.after_ends line (by rw [hafter]; rfl)
      have hout : inside t.column line = false := by
        simp [inside, hshows, hle]
      rw [List.nil_append, List.takeWhile_cons_of_neg (by simp [hout])]
      rfl
  | cons line lines ih =>
    rw [List.cons_append]
    cases hin : inside t.column line with
    | true => rw [List.takeWhile_cons_of_pos hin, List.takeWhile_cons_of_pos hin, ih]
    | false =>
      rw [List.takeWhile_cons_of_neg (by simp [hin]), List.takeWhile_cons_of_neg (by simp [hin])]

/-- A line above the first item that is not passed over is a comment too far left. -/
theorem passed_of_mem_lead (h : ∀ line ∈ t.lead, isComment line = true →
    t.column < leadingSpaces line) : ∀ line ∈ t.lead, passed t.column line = true := by
  intro line hline
  have htrivia := t.lead_trivia line hline
  rw [passed, not_startsItem_of_isTrivia htrivia]
  rw [isTrivia, Bool.or_eq_true] at htrivia
  rcases htrivia with hblank | hcomment
  · rw [isEmptyLine_of_isBlank hblank, Bool.true_or]
  · simp [h line hline hcomment]

/-- The composer sees the rules from the first item on. -/
theorem seen_eq (hlead : ∀ line ∈ t.lead, passed t.column line = true)
    (hopens : ∀ line ∈ t.ruleLines.head?, startsItem line = true) :
    t.seen = t.ruleLines.takeWhile (inside t.column) := by
  obtain ⟨item, more, hrules⟩ := t.exists_ruleLines_eq
  have hitem : startsItem item.first = true := hopens _ (by rw [hrules]; rfl)
  have hstop : passed t.column item.first = false := by
    simp [passed, hitem, not_isEmptyLine_of_startsItem hitem]
  rw [RulesLayout.seen, List.dropWhile_append_of_pos hlead, hrules, List.cons_append,
    List.dropWhile_cons_of_neg (by simp [hstop]), ← List.cons_append, takeWhile_inside_append_after]

/-- The first item is in the column of the items, and with it every other line is moved. -/
theorem moved_takeWhile_ruleLines (hindented : t.column < t.itemColumn) :
    moved (t.ruleLines.takeWhile (inside t.column)) =
      (t.ruleLines.takeWhile (inside t.column)).map (normalize t.itemColumn) := by
  obtain ⟨item, more, hrules⟩ := t.exists_ruleLines_eq
  have hin : inside t.column item.first = true := by
    simp [inside, item.leadingSpaces_first, hindented]
  rw [hrules, List.takeWhile_cons_of_pos hin, moved, item.leadingSpaces_first]

theorem forall₂_shifted_iff {lines : List Text} (h : ∀ line ∈ lines, line ∈ t.ruleLines) :
    List.Forall₂ (Shifted t.itemColumn) lines (lines.map (normalize t.itemColumn)) ↔
      ∀ line ∈ lines, (isComment line = true → leadingSpaces line < t.itemColumn →
        isGap 0 (sliceFrom t.itemColumn line) = true) ∧
        (isEmptyLine line = true → isGap t.itemColumn line = true) := by
  rw [List.forall₂_map_right_iff, List.forall₂_same]
  refine forall₂_congr fun line hline => ?_
  exact shifted_normalize_iff (isGap_or_le_of_mem_ruleLines (h line hline))

/-- **All rules of a readable template come into the draft.** -/
theorem Readable.preserved (h : Readable t) (hlines : yaml.splitOn '\n' = t.lines) :
    Preserved t (extractBlocks yaml).flatten := by
  rw [flatten_extractBlocks hlines h.found,
    seen_eq (passed_of_mem_lead h.lead) h.opens, moved_takeWhile_ruleLines h.indented]
  refine ⟨_, _, List.takeWhile_append_dropWhile, h.reaches, ?_⟩
  rw [forall₂_shifted_iff fun line hline => (List.takeWhile_prefix _).subset hline]
  exact fun line hline => ⟨h.comments line hline, h.visible line hline⟩

/-! ## Nothing else is preserved -/

/-- The first line in the draft is that of the first item. -/
theorem Preserved.exists_cons {out : List Text} (h : Preserved t out) :
    ∃ (item : Item t.itemColumn) (more out' : List Text), t.ruleLines = item.first :: more ∧
      out = (margin ++ item.first.drop t.itemColumn) :: out' := by
  obtain ⟨item, more, hrules⟩ := t.exists_ruleLines_eq
  obtain ⟨kept, left, happend, htrailing, hshifted⟩ := h
  rw [hrules] at happend
  cases hshifted with
  | nil =>
    rw [List.nil_append] at happend
    rw [happend, item.not_isTrailing] at htrailing
    cases htrailing
  | cons hfirst hrest =>
    obtain ⟨rfl, -⟩ := List.cons.inj happend
    exact ⟨item, more, _, hrules, by rw [hfirst.2 item.isGap_first]⟩

/-- What is moved to the front of the draft opens an item. -/
theorem exists_of_moved_seen {first : Text} {out : List Text} (h : moved t.seen = first :: out) :
    ∃ line rest, (t.lead ++ (t.ruleLines ++ t.after)).dropWhile (passed t.column) = line :: rest ∧
      inside t.column line = true ∧ startsItem line = true ∧
      first = margin ++ line.drop (leadingSpaces line) := by
  rw [RulesLayout.seen] at h
  cases hdrop : (t.lead ++ (t.ruleLines ++ t.after)).dropWhile (passed t.column) with
  | nil =>
    rw [hdrop] at h
    cases h
  | cons line rest =>
    have hstop : passed t.column line = false := by
      have hhead := List.head_dropWhile_not (passed t.column)
        (l := t.lead ++ (t.ruleLines ++ t.after)) (by rw [hdrop]; exact List.cons_ne_nil _ _)
      simpa only [hdrop, List.head_cons] using hhead
    rw [hdrop] at h
    cases hin : inside t.column line with
    | false =>
      rw [List.takeWhile_cons_of_neg (by simp [hin])] at h
      cases h
    | true =>
      rw [List.takeWhile_cons_of_pos hin] at h
      simp only [passed, Bool.or_eq_false_iff] at hstop
      have hlt : t.column < leadingSpaces line := by simpa [inside, hstop.1] using hin
      have hopens : startsItem line = true := by simpa [hlt] using hstop.2
      refine ⟨line, rest, rfl, hin, hopens, ?_⟩
      rw [← (List.cons.inj h).1, normalize, hstop.1, sliceFrom_of_le (Nat.le_refl _)]
      rfl

/-- Lines that are not passed over hide what is behind them. -/
theorem forall_passed_of_dropWhile {xs ys rest : List Text} {line : Text} {p : Text → Bool}
    (h : (xs ++ ys).dropWhile p = line :: rest) (hline : line ∉ xs) : ∀ x ∈ xs, p x = true := by
  by_contra hall
  have hne : xs.dropWhile p ≠ [] := fun hnil => hall (List.dropWhile_eq_nil_iff.mp hnil)
  rw [List.dropWhile_append, if_neg (by simpa using hne)] at h
  obtain ⟨x, xs', hx⟩ := List.exists_cons_of_ne_nil hne
  rw [hx, List.cons_append] at h
  apply hline
  rw [← (List.cons.inj h).1]
  exact (List.dropWhile_suffix p).subset (by rw [hx]; exact List.mem_cons_self)

/-- **No other template has all its rules in the draft**, unless the composer finds another key. -/
theorem Preserved.readable (h : Preserved t (extractBlocks yaml).flatten)
    (hlines : yaml.splitOn '\n' = t.lines) (hkey : Unambiguous t) : Readable t := by
  obtain ⟨item, more, out, hrules, hout⟩ := h.exists_cons
  have hfound : KeyFound t := by
    apply hkey
    by_contra hnone
    rw [extractBlocks_eq_nil fun line hline => Bool.eq_false_iff.mpr fun hrulesLine =>
      hnone ⟨line, hlines ▸ hline, hrulesLine⟩] at hout
    cases hout
  rw [flatten_extractBlocks hlines hfound] at h hout
  obtain ⟨line, rest, hdrop, hin, hitem, hfirst⟩ := exists_of_moved_seen hout
  have hpassed : ∀ l ∈ t.lead, passed t.column l = true := by
    refine forall_passed_of_dropWhile hdrop fun hmem => ?_
    rw [not_startsItem_of_isTrivia (t.lead_trivia line hmem)] at hitem
    cases hitem
  have hlead : ∀ l ∈ t.lead, isComment l = true → t.column < leadingSpaces l := by
    intro l hl hcomment
    have hover := hpassed l hl
    simp only [passed, not_isEmptyLine_of_isComment hcomment, Bool.false_or, Bool.and_eq_true,
      decide_eq_true_eq] at hover
    exact hover.1
  -- the two lines read the same from their first character on
  have hopens : startsItem item.first = true := by
    have hsame : item.first.drop t.itemColumn = line.drop (leadingSpaces line) :=
      List.append_cancel_left hfirst
    rw [← replicate_append_drop item.leadingSpaces_first.ge, startsItem_replicate_append, hsame,
      ← startsItem_replicate_append (n := leadingSpaces line),
      replicate_append_drop (Nat.le_refl _)]
    exact hitem
  have hindented : t.column < t.itemColumn := by
    have hstop : passed t.column item.first = false := by
      simp [passed, hopens, not_isEmptyLine_of_startsItem hopens]
    rw [List.dropWhile_append_of_pos hpassed, hrules, List.cons_append,
      List.dropWhile_cons_of_neg (by simp [hstop])] at hdrop
    rw [← (List.cons.inj hdrop).1, inside, not_isEmptyLine_of_startsItem hopens,
      item.leadingSpaces_first] at hin
    simpa using hin
  have hhead : ∀ l ∈ t.ruleLines.head?, startsItem l = true := by
    rw [hrules]
    rintro l ⟨⟩
    exact hopens
  rw [seen_eq hpassed hhead, moved_takeWhile_ruleLines hindented] at h
  obtain ⟨kept, left, happend, htrailing, hshifted⟩ := h
  have hlength : kept.length = (t.ruleLines.takeWhile (inside t.column)).length := by
    simpa using hshifted.length_eq
  obtain ⟨hkept, hleft⟩ := List.append_inj
    (happend.trans (List.takeWhile_append_dropWhile (p := inside t.column)).symm) hlength
  rw [hkept, forall₂_shifted_iff fun l hl => (List.takeWhile_prefix _).subset hl] at hshifted
  refine ⟨hfound, hindented, hlead, hhead, hleft ▸ htrailing, ?_, ?_⟩
  · exact fun l hl => (hshifted l hl).1
  · exact fun l hl => (hshifted l hl).2

/-! ## The draft -/

variable {vars : Labels}

theorem mergedRules_foldl_mergeRule (tpl : PolicyTemplateJson) (rules : List ExtractedRule)
    (s : Composing) : (rules.foldl (mergeRule tpl) s).mergedRules = s.mergedRules ++ rules := by
  induction rules generalizing s with
  | nil => exact (List.append_nil _).symm
  | cons rule rules ih =>
    rw [List.foldl_cons, ih]
    exact List.append_assoc s.mergedRules [rule] rules

theorem mergedRules_foldl_mergeTemplate (details : List PolicyTemplateJson) (s : Composing) :
    (details.foldl (mergeTemplate vars) s).mergedRules =
      s.mergedRules ++ (details.flatMap (templateBlocks vars)).map extractedRule := by
  induction details generalizing s with
  | nil => exact (List.append_nil _).symm
  | cons tpl details ih =>
    rw [List.foldl_cons, ih, List.flatMap_cons, List.map_append, ← List.append_assoc]
    congr 1
    exact mergedRules_foldl_mergeRule tpl _ _

theorem ne_nil_of_mem_extractBlocks {block : List Text} (h : block ∈ extractBlocks yaml) :
    block ≠ [] := by
  rw [extractBlocks] at h
  split at h
  · cases h
  · exact ne_nil_of_mem_ruleBlocks h

/-- A draft with rules has the lines of their blocks under its own `rules:`. -/
theorem toList_yaml {s : Composing} {blocks : List (List Text)}
    (hrules : s.mergedRules = blocks.map extractedRule) (hne : blocks ≠ [])
    (hlines : ∀ block ∈ blocks, block ≠ []) :
    s.yaml.toList = (preamble s.action).toList ++ unlines blocks.flatten := by
  have hlength : s.mergedRules.length > 0 := by
    rw [hrules, List.length_map]
    exact List.length_pos_of_ne_nil hne
  have hblocks : (s.mergedRules.map (·.block)).map String.toList =
      blocks.map ['\n'].intercalate := by
    rw [hrules, List.map_map, List.map_map]
    exact List.map_congr_left fun block _ => String.toList_ofList
  have hnewline : "\n".toList = ['\n'] := rfl
  rw [Composing.yaml, if_pos hlength, String.toList_append, String.toList_append,
    String.toList_intercalate, hblocks, hnewline,
    Splitting.intercalate_append_separator (by simpa using hne),
    Splitting.intercalate_map_intercalate hlines]
  rfl

theorem templateLines_flatMap (details : List PolicyTemplateJson) :
    (details.flatMap (templateBlocks vars)).flatten = details.flatMap (templateLines vars) := by
  induction details with
  | nil => rfl
  | cons tpl details ih =>
    rw [List.flatMap_cons, List.flatten_append, ih, List.flatMap_cons]
    rfl

/-- What the draft is made of, if any template adds to it. -/
theorem composeFromTemplates_eq {templateVars : String} {details : List PolicyTemplateJson}
    (hne : details.flatMap (templateBlocks (parseTemplateVariables templateVars)) ≠ []) :
    ∃ draft, composeFromTemplates templateVars details = some draft ∧
      draft.rulesYaml.toList =
        (preamble (mergeTemplates (parseTemplateVariables templateVars) details).action).toList ++
          unlines (details.flatMap (templateLines (parseTemplateVariables templateVars))) := by
  have hdetails : details.length ≠ 0 := by
    intro hlength
    rw [List.eq_nil_of_length_eq_zero hlength] at hne
    exact hne rfl
  refine ⟨_, if_neg hdetails, ?_⟩
  rw [← templateLines_flatMap]
  refine toList_yaml ?_ hne ?_
  · exact mergedRules_foldl_mergeTemplate details _
  · intro block hblock
    obtain ⟨tpl, -, htpl⟩ := List.mem_flatMap.mp hblock
    exact ne_nil_of_mem_extractBlocks htpl

/-- The draft is what the templates add to it. -/
theorem noRuleLost_iff_preserved {templateVars : String} {details : List PolicyTemplateJson}
    {layouts : List RulesLayout} :
    NoRuleLost templateVars details layouts ↔
      List.Forall₂ (fun tpl t => Preserved t
        (templateLines (parseTemplateVariables templateVars) tpl)) details layouts := by
  refine ⟨And.right, fun h => ⟨fun hne => composeFromTemplates_eq ?_, h⟩⟩
  intro hnil
  cases h with
  | nil => exact hne rfl
  | @cons tpl t details layouts hfirst hrest =>
    obtain ⟨item, more, out, -, hout⟩ := hfirst.exists_cons
    rw [List.flatMap_cons] at hnil
    have hblocks : templateBlocks (parseTemplateVariables templateVars) tpl = [] :=
      (List.append_eq_nil_iff.mp hnil).1
    rw [templateLines, hblocks] at hout
    cases hout

/-- **The draft has all rules of all templates when each of them is readable**, and of templates
    whose key is found, or that have no line like it, only then. -/
theorem noRuleLost_iff_readable (templateVars : String) {details : List PolicyTemplateJson}
    {layouts : List RulesLayout}
    (h : List.Forall₂ (LaidOut (parseTemplateVariables templateVars)) details layouts) :
    ((∀ t ∈ layouts, Readable t) → NoRuleLost templateVars details layouts) ∧
      ((∀ t ∈ layouts, Unambiguous t) → NoRuleLost templateVars details layouts →
        ∀ t ∈ layouts, Readable t) := by
  rw [noRuleLost_iff_preserved]
  constructor
  · intro hreadable
    induction h with
    | nil => exact .nil
    | cons hlaid _ ih =>
      refine .cons ((hreadable _ List.mem_cons_self).preserved hlaid) ?_
      exact ih fun t ht => hreadable t (List.mem_cons_of_mem _ ht)
  · intro hkeys hpreserved
    induction h with
    | nil => simp
    | cons hlaid _ ih =>
      obtain ⟨hfirst, hrest⟩ := List.forall₂_cons.mp hpreserved
      refine List.forall_mem_cons.mpr ⟨?_, ?_⟩
      · exact hfirst.readable hlaid (hkeys _ List.mem_cons_self)
      · exact ih (fun t ht => hkeys t (List.mem_cons_of_mem _ ht)) hrest

/-- Rules with a comment and a blank line between them. -/
def httpLayout : RulesLayout where
  before := ["defaults:".toList, "  action: pass".toList]
  column := 0
  ending := []
  ending_apart := rfl
  ending_opens := by decide
  lead := ["".toList, "  # the web".toList]
  lead_trivia := by decide +kernel
  itemColumn := 2
  column_le := by decide
  items :=
    [{ content := " name: http".toList
       apart := rfl
       rest := ["    port: 80".toList, "".toList, "  # note".toList]
       deeper := by decide +kernel },
     { content := " name: ssh".toList
       apart := rfl
       rest := ["".toList]
       deeper := by decide +kernel }]
  items_ne := List.cons_ne_nil _ _
  after := []
  after_ends := by simp

def httpTemplate : PolicyTemplateJson where
  name := "http"
  rulesYaml := "defaults:\n  action: pass\nrules:\n\n  # the web\n  - name: http\n" ++
    "    port: $\x7bport\x7d\n\n  # note\n  - name: ssh\n"

theorem noRuleLost_http : NoRuleLost "port=80" [httpTemplate] [httpLayout] := by
  have hlaid : LaidOut (parseTemplateVariables "port=80") httpTemplate httpLayout := by
    unfold LaidOut
    decide +kernel
  have hreadable : Readable httpLayout := by
    refine ⟨⟨?_, ?_⟩, ?_, ?_, ?_, ?_, ?_, ?_⟩
    all_goals decide +kernel
  apply (noRuleLost_iff_readable "port=80" (.cons hlaid .nil)).1
  intro t ht
  rw [List.mem_singleton.mp ht]
  exact hreadable

/-- An item in the column of `rules:`. -/
def flatLayout : RulesLayout where
  before := []
  column := 0
  ending := []
  ending_apart := rfl
  ending_opens := by decide
  lead := []
  lead_trivia := by simp
  itemColumn := 0
  column_le := Nat.le_refl _
  items := [{ content := " name: http".toList, apart := rfl, rest := [], deeper := by simp }]
  items_ne := List.cons_ne_nil _ _
  after := []
  after_ends := by simp

theorem not_noRuleLost_flat :
    ¬ ∀ (templateVars : String) (details : List PolicyTemplateJson) (layouts : List RulesLayout),
      List.Forall₂ (LaidOut (parseTemplateVariables templateVars)) details layouts →
        NoRuleLost templateVars details layouts := by
  intro hall
  let tpl : PolicyTemplateJson := ⟨"http", "rules:\n- name: http"⟩
  have hlaid : LaidOut (parseTemplateVariables "") tpl flatLayout := by
    unfold LaidOut
    decide +kernel
  have hnothing : templateLines (parseTemplateVariables "") tpl = [] := by decide +kernel
  obtain ⟨-, hpreserved⟩ := hall "" [tpl] [flatLayout] (.cons hlaid .nil)
  obtain ⟨hfirst, -⟩ := List.forall₂_cons.mp hpreserved
  obtain ⟨item, more, out, -, hout⟩ := hfirst.exists_cons
  rw [hnothing] at hout
  cases hout

end PaciNet.DeployPage
