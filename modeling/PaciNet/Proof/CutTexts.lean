import PaciNet.Cli.Main

/-!
# Texts that the command line client cuts

The tables of the client cut long texts at a byte. **A table is printed unless a character of one
of its texts begins before the cut and ends after it (`Answer.shown_isSome_iff`)**: what is shorter
than the cut and what is ASCII is always printed, and one letter with an accent in the wrong place
ends the client.
-/

set_option autoImplicit false

namespace PaciNet.Cli

open Lib.ByteSlice

/-! ## One text -/

variable {n : Nat} {s : String}

theorem utf8Len_toList : String.utf8Len s.toList = s.utf8ByteSize := by
  have h := String.rawEndPos_ofList s.toList
  rw [String.ofList_toList] at h
  exact (congrArg String.Pos.Raw.byteIdx h).symm

theorem slice_isSome_iff (h : n < s.utf8ByteSize) :
    (slice n s).isSome ↔ ¬ Straddles n s.toList := by
  rw [slice, Option.isSome_map, Lib.ByteSlice.slice_isSome_iff (by rw [utf8Len_toList]; omega)]

theorem not_straddles_of_short (h : ¬ n < s.utf8ByteSize) : ¬ Straddles n s.toList := by
  apply not_straddles_of_le
  rw [utf8Len_toList]
  omega

theorem short_isSome_iff : (short n s).isSome ↔ ¬ Straddles n s.toList := by
  by_cases h : n < s.utf8ByteSize
  · rw [short, if_pos h, slice_isSome_iff h]
  · simp [short, h, not_straddles_of_short h]

theorem shortWithDots_isSome_iff : (shortWithDots n s).isSome ↔ ¬ Straddles n s.toList := by
  by_cases h : n < s.utf8ByteSize
  · rw [shortWithDots, if_pos h, Option.isSome_map, slice_isSome_iff h]
  · simp [shortWithDots, h, not_straddles_of_short h]

/-! ## Tables -/

theorem mapM_isSome_iff {α β : Type} {f : α → Option β} {as : List α} :
    (as.mapM f).isSome ↔ ∀ a ∈ as, (f a).isSome := by
  induction as with
  | nil => simp
  | cons a as ih =>
    rw [List.mapM_cons, List.forall_mem_cons, ← ih]
    cases f a <;> cases as.mapM f <;> simp

/-- A table is printed when each of its lines is. -/
theorem table_isSome_iff {α : Type} {empty header : String} {line : α → Option String}
    {entries : List α} :
    (table empty header line entries).isSome ↔ ∀ e ∈ entries, (line e).isSome := by
  cases entries with
  | nil => simp [table]
  | cons e es =>
    rw [← mapM_isSome_iff, table, if_neg (by simp), Option.isSome_map]

/-- The answers of the server that the client shows as tables with cut texts. -/
inductive Answer
  | auditLog (entries : List AuditEntryInfo)
  | templates (templates : List PolicyTemplateSummary)
  | policyHistory (nodeId : String) (versions : List PolicyVersionInfo)
  | deploymentHistory (nodeId : String) (deployments : List DeploymentInfo)

/-- The lines that the client prints, `none` where it panics. -/
def Answer.shown (chrono : Int → Option String) : Answer → Option (List String)
  | .auditLog es => handleAudit chrono es
  | .templates ts => handleTemplateList ts
  | .policyHistory nodeId versions => handlePolicyHistory chrono nodeId versions
  | .deploymentHistory nodeId deployments => handleDeployHistory chrono nodeId deployments

/-- The texts that may be cut, and where. -/
def Answer.cuts : Answer → List (Nat × String)
  | .auditLog es => es.map fun e => (40, e.details)
  | .templates ts => ts.map fun t => (28, t.description)
  | .policyHistory _ versions => versions.map fun v => (12, v.policyHash)
  | .deploymentHistory _ deployments => deployments.map fun d => (12, d.policyHash)

/-- **When a table is printed**: exactly when no character straddles the place of its cut. -/
theorem Answer.shown_isSome_iff (chrono : Int → Option String) (answer : Answer) :
    (answer.shown chrono).isSome ↔ ∀ cut ∈ answer.cuts, ¬ Straddles cut.1 cut.2.toList := by
  cases answer with
  | auditLog entries =>
    simp [shown, handleAudit, table_isSome_iff, cuts, auditLine, shortWithDots_isSome_iff]
  | templates ts =>
    simp [shown, handleTemplateList, table_isSome_iff, cuts, templateLine, shortWithDots_isSome_iff]
  | policyHistory nodeId versions =>
    simp [shown, handlePolicyHistory, table_isSome_iff, cuts, versionLine, short_isSome_iff]
  | deploymentHistory nodeId deployments =>
    simp [shown, handleDeployHistory, table_isSome_iff, cuts, deploymentLine, short_isSome_iff]

/-- A letter that takes two bytes, of which the cut leaves one. -/
theorem shown_panics :
    (Answer.auditLog [⟨none, "web", "deploy", "node", "n1",
        "012345678901234567890123456789012345678é0"⟩]).shown (fun _ => none) = none ∧
      (Answer.templates [⟨"edge", "012345678901234567890123456é0", []⟩]).shown (fun _ => none) =
        none ∧
      (Answer.deploymentHistory "n1" [⟨1, "01234567890é0", none, "success", ""⟩]).shown
        (fun _ => none) = none := by
  decide +kernel

end PaciNet.Cli
