import PaciNet.Web.DeployPage

/-!
# Policy diffs lose nothing

The page compares two versions of a policy line by line, at the same place in both. **After `i`
rounds of the loop the diff without its added lines is the first `i` lines of the old text, and
without its removed lines the first `i` lines of the new one (`diffUpTo_sides`)**, and the loop
goes on to the end of the longer text.
-/

set_option autoImplicit false

namespace PaciNet.DeployPage

/-- The lines of a diff that are not of the given kind. -/
def without (kind : DiffKind) (diff : List DiffLine) : List String :=
  (diff.filter (·.kind ≠ kind)).map (·.text)

@[simp] theorem without_nil {kind : DiffKind} : without kind [] = [] := rfl

@[simp] theorem without_append {kind : DiffKind} {d d' : List DiffLine} :
    without kind (d ++ d') = without kind d ++ without kind d' := by
  simp [without]

/-- One round adds the old line to the old side. -/
theorem without_added_diffAt {oldLine newLine : Option String} {out : List DiffLine} :
    without .added (diffAt oldLine newLine out) = without .added out ++ oldLine.toList := by
  by_cases h : oldLine = newLine
  · cases oldLine with
    | none => simp [diffAt, h.symm]
    | some line => simp [diffAt, h.symm, without]
  · cases oldLine <;> cases newLine <;> simp_all [diffAt, without]

/-- One round adds the new line to the new side. -/
theorem without_removed_diffAt {oldLine newLine : Option String} {out : List DiffLine} :
    without .removed (diffAt oldLine newLine out) = without .removed out ++ newLine.toList := by
  by_cases h : oldLine = newLine
  · cases newLine with
    | none => simp [diffAt, h]
    | some line => simp [diffAt, h, without]
  · cases oldLine <;> cases newLine <;> simp_all [diffAt, without]

/-- The diff after `i` rounds. -/
def diffUpTo (oldLines newLines : List String) (i : Nat) : List DiffLine :=
  (List.range i).foldl (fun out i => diffAt oldLines[i]? newLines[i]? out) []

theorem diffUpTo_succ {oldLines newLines : List String} {i : Nat} :
    diffUpTo oldLines newLines (i + 1) =
      diffAt oldLines[i]? newLines[i]? (diffUpTo oldLines newLines i) := by
  simp [diffUpTo, List.range_succ]

theorem diffUpTo_sides (oldLines newLines : List String) (i : Nat) :
    without .added (diffUpTo oldLines newLines i) = oldLines.take i ∧
      without .removed (diffUpTo oldLines newLines i) = newLines.take i := by
  induction i with
  | zero => exact ⟨rfl, rfl⟩
  | succ i ih =>
    rw [diffUpTo_succ, without_added_diffAt, without_removed_diffAt, ih.1, ih.2, List.take_add_one,
      List.take_add_one]
    exact ⟨rfl, rfl⟩

/-- **The diff is lossless**: without its added lines it is the old text, without its removed
    lines the new one. -/
theorem buildSimpleLineDiff_lossless (oldText newText : String) :
    without .added (buildSimpleLineDiff oldText newText) = split oldText '\n' ∧
      without .removed (buildSimpleLineDiff oldText newText) = split newText '\n' := by
  have hdiff : buildSimpleLineDiff oldText newText =
      diffUpTo (split oldText '\n') (split newText '\n')
        (max (split oldText '\n').length (split newText '\n').length) := rfl
  obtain ⟨hold, hnew⟩ := diffUpTo_sides (split oldText '\n') (split newText '\n')
    (max (split oldText '\n').length (split newText '\n').length)
  rw [hdiff, hold, hnew]
  constructor
  · apply List.take_of_length_le
    omega
  · apply List.take_of_length_le
    omega

example : buildSimpleLineDiff "a\nb" "a\nc\nd" =
    [⟨.context, "a"⟩, ⟨.removed, "b"⟩, ⟨.added, "c"⟩, ⟨.added, "d"⟩] := by decide

end PaciNet.DeployPage
