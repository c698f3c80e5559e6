import Mathlib.Data.List.TakeWhile
import PaciNet.Proof.LabelQueries
import PaciNet.Storage.Trait
import PaciNet.Web.DeployPage

/-!
# Label filters of the deploy page

A batch deploy goes to the nodes that match a filter, and an empty filter matches every node. The
page reads its filter from a text: it skips the parts of which it makes nothing and reads no value
past a second `=`, where the server reads the rest of the part. **A text that is not blank gives a
filter that is not empty when one of its parts names a label, and the page and the server read the
same map when the last label of each key is plain (`narrow_iff`).**
-/

set_option autoImplicit false

namespace PaciNet.DeployPage

/-! ## Parts -/

/-- What stands before the first `=`. -/
def keyOf (part : String) : String := .ofList (part.toList.takeWhile (· ≠ '='))

/-- What stands between the first `=` and the next. -/
def valueOf (part : String) : String :=
  .ofList (((part.toList.dropWhile (· ≠ '=')).drop 1).takeWhile (· ≠ '='))

/-- The part names a label. -/
def Names (part : String) : Prop :=
  keyOf part ≠ "" ∧ valueOf part ≠ "" ∧ trim (keyOf part) ≠ "__proto__"

/-- The first part of a list ends at the first separator. -/
theorem splitOn_eq_takeWhile {c : Char} {s : List Char} :
    ∃ rest, s.splitOn c = s.takeWhile (· ≠ c) :: rest := by
  induction s with
  | nil => exact ⟨[], by simp⟩
  | cons d s ih =>
    obtain ⟨rest, hrest⟩ := ih
    rw [List.splitOn_cons_eq_if_modifyHead]
    by_cases hd : d = c
    · exact ⟨s.splitOn c, by simp [hd]⟩
    · exact ⟨rest, by simp [hd, hrest]⟩

theorem ne_of_not_mem {c : Char} {s : List Char} (h : c ∉ s) : ∀ d ∈ s, decide (d ≠ c) = true := by
  intro d hd
  simpa using ne_of_mem_of_not_mem hd h

/-- A part with `=` is the key, `=` and the rest. -/
theorem keyOf_append_dropWhile {s : List Char} (h : '=' ∈ s) :
    s = s.takeWhile (· ≠ '=') ++ '=' :: (s.dropWhile (· ≠ '=')).drop 1 := by
  induction s with
  | nil => simp at h
  | cons d s ih =>
    by_cases hd : d = '='
    · simp [hd]
    · have hs : '=' ∈ s := by
        simpa [Ne.symm hd] using h
      simpa [hd] using ih hs

/-- One round of the loop, by what stands around the signs. -/
theorem readPair_eq {filter : Labels} {part : String} :
    readPair filter part =
      if keyOf part ≠ "" ∧ valueOf part ≠ "" then
        assign filter (trim (keyOf part)) (trim (valueOf part))
      else filter := by
  by_cases h : '=' ∈ part.toList
  · obtain ⟨rest, hrest⟩ :=
      splitOn_eq_takeWhile (c := '=') (s := (part.toList.dropWhile (· ≠ '=')).drop 1)
    have hkey : '=' ∉ part.toList.takeWhile (· ≠ '=') := by
      intro hmem
      simpa using List.mem_takeWhile_imp hmem
    have hsplit : split part '=' = keyOf part :: valueOf part :: rest.map .ofList := by
      rw [split, keyOf_append_dropWhile h, List.splitOn_append_cons_self_of_not_mem hkey, hrest]
      rfl
    rw [readPair, hsplit]
  · have hsplit : split part '=' = [part] := by
      rw [split, List.splitOn_eq_singleton h]
      simp
    have hvalue : valueOf part = "" := by
      have hdrop : part.toList.dropWhile (· ≠ '=') = [] := by
        exact List.dropWhile_eq_nil_iff.2 (ne_of_not_mem h)
      rw [valueOf, hdrop]
      rfl
    rw [readPair, hsplit, if_neg (by simp [hvalue])]

/-- A part that names no label leaves the filter alone. -/
theorem readPair_of_not_names {filter : Labels} {part : String} (h : ¬ Names part) :
    readPair filter part = filter := by
  rw [readPair_eq]
  by_cases hread : keyOf part ≠ "" ∧ valueOf part ≠ ""
  · have hproto : trim (keyOf part) = "__proto__" := by
      by_contra hne
      exact h ⟨hread.1, hread.2, hne⟩
    rw [if_pos hread, assign, if_pos hproto]
  · rw [if_neg hread]

theorem readPair_of_names {filter : Labels} {part : String} (h : Names part) :
    readPair filter part = filter.insert (trim (keyOf part)) (trim (valueOf part)) := by
  rw [readPair_eq, if_pos ⟨h.1, h.2.1⟩, assign, if_neg h.2.2]

/-! ## Empty filters -/

theorem insert_ne_empty {filter : Labels} {k v : String} : filter.insert k v ≠ ∅ := by
  intro h
  have hmem : k ∈ filter.insert k v := (AList.mem_insert filter).2 (.inl rfl)
  rw [h] at hmem
  exact AList.notMem_empty k hmem

theorem foldl_readPair_ne_empty {parts : List String} {filter : Labels} :
    parts.foldl readPair filter ≠ ∅ ↔ filter ≠ ∅ ∨ ∃ part ∈ parts, Names part := by
  induction parts generalizing filter with
  | nil => simp
  | cons part parts ih =>
    rw [List.foldl_cons, ih]
    by_cases h : Names part
    · simp [readPair_of_names h, insert_ne_empty, h]
    · simp [readPair_of_not_names h, h]

/-- The filter of a text is empty when none of its parts names a label. -/
theorem parseLabelFilter_ne_empty {text : String} :
    parseLabelFilter text ≠ ∅ ↔ ∃ part ∈ split text ',', Names part := by
  rw [parseLabelFilter, foldl_readPair_ne_empty]
  simp

/-! ## Texts of labels -/

/-- A text without blanks around it. -/
def Unblanked (s : String) : Prop := trimChars s.toList = s.toList

instance {s : String} : Decidable (Unblanked s) :=
  inferInstanceAs (Decidable (trimChars s.toList = s.toList))

/-- A label that the page and the server read alike. -/
def Plain (label : Sigma fun _ : String => String) : Prop :=
  label.1 ≠ "" ∧ label.1 ≠ "__proto__" ∧ label.2 ≠ "" ∧ '=' ∉ label.2.toList

theorem Unblanked.trim_eq {s : String} (h : Unblanked s) : trim s = s := by
  rw [trim, h, String.ofList_toList]

theorem trimChars_sublist {s : List Char} : (trimChars s).Sublist s := by
  have hinner := (List.dropWhile_sublist (l := (s.dropWhile isSpace).reverse) isSpace).reverse
  rw [List.reverse_reverse] at hinner
  exact hinner.trans (List.dropWhile_sublist isSpace)

/-- A text without blanks around it does not begin with one. -/
theorem not_isSpace_of_trimChars {c : Char} {s : List Char} (h : trimChars (c :: s) = c :: s) :
    isSpace c = false := by
  cases hc : isSpace c with
  | false => rfl
  | true =>
    have hskip : trimChars (c :: s) = trimChars s := by
      rw [trimChars, List.dropWhile_cons_of_pos hc]
      rfl
    have hlen := (trimChars_sublist (s := s)).length_le
    rw [← hskip, h, List.length_cons] at hlen
    omega

/-- What does not begin with a blank is not trimmed away. -/
theorem trimChars_ne_nil {c : Char} {s : List Char} (h : isSpace c = false) :
    trimChars (c :: s) ≠ [] := by
  rw [trimChars, List.dropWhile_cons_of_neg (by simp [h]), ne_eq, List.reverse_eq_nil_iff,
    List.dropWhile_eq_nil_iff]
  intro hall
  have hc := hall c (by simp)
  rw [h] at hc
  cases hc

variable {label : Sigma fun _ : String => String}

theorem toList_labelText : (labelText label).toList = label.1.toList ++ '=' :: label.2.toList := by
  simp [labelText]

theorem keyOf_labelText (h : '=' ∉ label.1.toList) : keyOf (labelText label) = label.1 := by
  have htake : (label.1.toList ++ '=' :: label.2.toList).takeWhile (· ≠ '=') = label.1.toList := by
    rw [List.takeWhile_append_of_pos (ne_of_not_mem h)]
    simp
  rw [keyOf, toList_labelText, htake, String.ofList_toList]

theorem valueOf_labelText (h : '=' ∉ label.1.toList) :
    valueOf (labelText label) = .ofList (label.2.toList.takeWhile (· ≠ '=')) := by
  have hdrop : (label.1.toList ++ '=' :: label.2.toList).dropWhile (· ≠ '=') =
      '=' :: label.2.toList := by
    rw [List.dropWhile_append_of_pos (ne_of_not_mem h)]
    simp
  rw [valueOf, toList_labelText, hdrop, List.drop_one, List.tail_cons]

/-- What the page puts into its filter is plain. -/
theorem plain_of_names (hq : Queryable label) (hkey : Unblanked label.1)
    (hvalue : Unblanked label.2) (h : Names (labelText label)) :
    Plain ⟨trim (keyOf (labelText label)), trim (valueOf (labelText label))⟩ := by
  obtain ⟨hk, hv, hproto⟩ := h
  rw [keyOf_labelText hq.1.2] at hk hproto ⊢
  rw [valueOf_labelText hq.1.2] at hv ⊢
  rw [hkey.trim_eq] at hproto ⊢
  refine ⟨hk, hproto, ?_, ?_⟩
  · cases hchars : label.2.toList with
    | nil => simp [hchars] at hv
    | cons c s =>
      have hc : c ≠ '=' := by
        intro heq
        simp [hchars, heq] at hv
      rw [Unblanked, hchars] at hvalue
      have hne := trimChars_ne_nil (s := s.takeWhile (· ≠ '=')) (not_isSpace_of_trimChars hvalue)
      simpa [trim, hc] using hne
  · intro hmem
    rw [trim, String.toList_ofList, String.toList_ofList] at hmem
    simpa using List.mem_takeWhile_imp (trimChars_sublist.subset hmem)

theorem names_of_plain (hq : Queryable label) (hkey : Unblanked label.1) (h : Plain label) :
    Names (labelText label) := by
  obtain ⟨hk, hproto, hv, heq⟩ := h
  have htake : label.2.toList.takeWhile (· ≠ '=') = label.2.toList :=
    List.takeWhile_eq_self_iff.2 (ne_of_not_mem heq)
  refine ⟨?_, ?_, ?_⟩
  · rwa [keyOf_labelText hq.1.2]
  · rwa [valueOf_labelText hq.1.2, htake, String.ofList_toList]
  · rwa [keyOf_labelText hq.1.2, hkey.trim_eq]

/-! ## Maps -/

/-- What the page reads of a label. -/
def readLabel (filter : Labels) (label : Sigma fun _ : String => String) : Labels :=
  readPair filter (labelText label)

/-- The parts of a text of labels are the labels. -/
theorem parseLabelFilter_labelQuery {pairs : List (Sigma fun _ : String => String)}
    (h : ∀ e ∈ pairs, Queryable e) :
    parseLabelFilter (labelQuery pairs) = pairs.foldl readLabel ∅ := by
  have hsplit : split (labelQuery pairs) ',' = (labelQuery pairs).splitOn "," :=
    (Lib.Splitting.splitOn_singleton (c := ',')).symm
  rw [parseLabelFilter, hsplit]
  cases pairs with
  | nil =>
    rw [splitOn_labelQuery_nil]
    have hnone : ¬ Names "" := by simp [Names, keyOf]
    exact readPair_of_not_names hnone
  | cons e es =>
    rw [splitOn_labelQuery h (by simp), List.foldl_map]
    rfl

variable {pairs : List (Sigma fun _ : String => String)}

/-- A label of another key changes nothing for a key. -/
theorem lookup_readLabel_of_ne {filter : Labels} {key : String} (hq : Queryable label)
    (hkey : Unblanked label.1) (hne : label.1 ≠ key) :
    (readLabel filter label).lookup key = filter.lookup key := by
  by_cases h : Names (labelText label)
  · rw [readLabel, readPair_of_names h, keyOf_labelText hq.1.2, hkey.trim_eq]
    exact AList.lookup_insert_ne hne.symm
  · rw [readLabel, readPair_of_not_names h]

theorem lookup_foldl_readLabel_of_ne {filter : Labels} {key : String}
    (hpairs : ∀ e ∈ pairs, Queryable e ∧ Unblanked e.1) (hne : ∀ e ∈ pairs, e.1 ≠ key) :
    (pairs.foldl readLabel filter).lookup key = filter.lookup key := by
  induction pairs generalizing filter with
  | nil => rfl
  | cons e es ih =>
    rw [List.forall_mem_cons] at hpairs hne
    rw [List.foldl_cons, ih hpairs.2 hne.2,
      lookup_readLabel_of_ne hpairs.1.1 hpairs.1.2 hne.1]

theorem lookup_foldl_insert_of_ne {map : Labels} {key : String} (hne : ∀ e ∈ pairs, e.1 ≠ key) :
    (pairs.foldl (fun map e => map.insert e.1 e.2) map).lookup key = map.lookup key := by
  induction pairs generalizing map with
  | nil => rfl
  | cons e es ih =>
    rw [List.forall_mem_cons] at hne
    rw [List.foldl_cons, ih hne.2, AList.lookup_insert_ne hne.1.symm]

/-- Every label in the filter of the page is plain. -/
theorem plain_of_mem_foldl_readLabel {filter : Labels}
    (hpairs : ∀ e ∈ pairs, Queryable e ∧ Unblanked e.1 ∧ Unblanked e.2)
    (hfilter : ∀ k v, filter.lookup k = some v → Plain ⟨k, v⟩) {k v : String}
    (h : (pairs.foldl readLabel filter).lookup k = some v) : Plain ⟨k, v⟩ := by
  induction pairs generalizing filter with
  | nil => exact hfilter k v h
  | cons e es ih =>
    rw [List.forall_mem_cons] at hpairs
    refine ih hpairs.2 ?_ h
    intro k' v' hlookup
    by_cases hnames : Names (labelText e)
    · have hplain := plain_of_names hpairs.1.1 hpairs.1.2.1 hpairs.1.2.2 hnames
      rw [readLabel, readPair_of_names hnames] at hlookup
      by_cases hk : k' = trim (keyOf (labelText e))
      · rw [hk, AList.lookup_insert] at hlookup
        rw [hk, ← Option.some.inj hlookup]
        exact hplain
      · rw [AList.lookup_insert_ne hk] at hlookup
        exact hfilter k' v' hlookup
    · rw [readLabel, readPair_of_not_names hnames] at hlookup
      exact hfilter k' v' hlookup

/-- What the server reads of a key is its last value. -/
theorem lookup_server {l r : List (Sigma fun _ : String => String)}
    (hpairs : ∀ e ∈ l ++ label :: r, Queryable e) (hlast : ∀ e ∈ r, e.1 ≠ label.1) :
    (PaciNet.parseLabelFilter (some (labelQuery (l ++ label :: r)))).lookup label.1 =
      some label.2 := by
  rw [PaciNet.parseLabelFilter_labelQuery hpairs, List.foldl_append, List.foldl_cons,
    lookup_foldl_insert_of_ne hlast, AList.lookup_insert]

/-- The last label of a key, when it is plain, is what the page reads of the key. -/
theorem lookup_page {l r : List (Sigma fun _ : String => String)}
    (hpairs : ∀ e ∈ l ++ label :: r, Queryable e ∧ Unblanked e.1 ∧ Unblanked e.2)
    (hlast : ∀ e ∈ r, e.1 ≠ label.1) (hplain : Plain label) :
    (parseLabelFilter (labelQuery (l ++ label :: r))).lookup label.1 = some label.2 := by
  have hr : ∀ e ∈ r, Queryable e ∧ Unblanked e.1 := by
    intro e he
    have h := hpairs e (by simp [he])
    exact ⟨h.1, h.2.1⟩
  obtain ⟨hq, hkey, hvalue⟩ := hpairs label (by simp)
  have heq : '=' ∉ label.2.toList := hplain.2.2.2
  have htake : label.2.toList.takeWhile (· ≠ '=') = label.2.toList :=
    List.takeWhile_eq_self_iff.2 (ne_of_not_mem heq)
  rw [parseLabelFilter_labelQuery fun e he => (hpairs e he).1, List.foldl_append, List.foldl_cons,
    lookup_foldl_readLabel_of_ne hr hlast, readLabel,
    readPair_of_names (names_of_plain hq hkey hplain), keyOf_labelText hq.1.2, hkey.trim_eq,
    AList.lookup_insert, valueOf_labelText hq.1.2, htake, String.ofList_toList, hvalue.trim_eq]

/-- A key that no label has is in neither map; the last label of any other is found. -/
theorem last_label (pairs : List (Sigma fun _ : String => String)) (key : String) :
    (∀ e ∈ pairs, e.1 ≠ key) ∨
      ∃ l label r, pairs = l ++ label :: r ∧ label.1 = key ∧ ∀ e ∈ r, e.1 ≠ key := by
  induction pairs with
  | nil => exact .inl (by simp)
  | cons e es ih =>
    rcases ih with hnone | ⟨l, label, r, rfl, hkey, hlast⟩
    · by_cases he : e.1 = key
      · exact .inr ⟨[], e, es, rfl, he, hnone⟩
      · exact .inl (by simpa [he] using hnone)
    · exact .inr ⟨e :: l, label, r, rfl, hkey, hlast⟩

/-! ## Nodes -/

/-- The page looks at the nodes that match its filter, as the server does. -/
theorem fleetTargets_eq {nodes : List Node} {text : String} :
    fleetTargets nodes text = nodes.filter (·.matchesLabels (parseLabelFilter text)) := by
  rw [fleetTargets]
  by_cases h : (parseLabelFilter text).entries.length > 0
  · rw [if_pos h]
    rfl
  · have hempty : (parseLabelFilter text).entries = [] := by
      apply List.eq_nil_of_length_eq_zero
      omega
    rw [if_neg h]
    simp [Node.matchesLabels, hempty]

/-! ## Deploys -/

/-- A batch deploy goes where its filter text says. -/
structure Narrow (page : Page) : Prop where
  /-- A text that is not blank narrows the deploy. -/
  notEmpty : trim page.labelFilter ≠ "" →
    ∀ request, handleDeploy page = some (.batchDeploy request) → request.labelFilter ≠ ∅
  /-- The page and the server read a text of labels alike. -/
  agrees : ∀ pairs, (∀ e ∈ pairs, Queryable e ∧ Unblanked e.1 ∧ Unblanked e.2) →
    page.labelFilter = labelQuery pairs →
    ∀ key, (parseLabelFilter page.labelFilter).lookup key =
      (PaciNet.parseLabelFilter (some page.labelFilter)).lookup key
  /-- The nodes the page looks at are those the server deploys to. -/
  previewed : ∀ request, handleDeploy page = some (.batchDeploy request) →
    ∀ nodes, fleetTargets nodes page.labelFilter =
      nodes.filter (·.matchesLabels request.labelFilter)

/-- A batch deploy with a text that is not blank has a part that names a label. -/
def NamesLabel (page : Page) : Prop :=
  page.mode = .batch → page.rulesYaml ≠ "" → trim page.labelFilter ≠ "" →
    ∃ part ∈ split page.labelFilter ',', Names part

/-- In a text of labels the last label of each key is plain. -/
def LastPlain (text : String) : Prop :=
  ∀ pairs, (∀ e ∈ pairs, Queryable e ∧ Unblanked e.1 ∧ Unblanked e.2) → text = labelQuery pairs →
    ∀ l label r, pairs = l ++ label :: r → (∀ e ∈ r, e.1 ≠ label.1) → Plain label

theorem handleDeploy_eq_batch {page : Page} {request : BatchDeployRequest} :
    handleDeploy page = some (.batchDeploy request) ↔
      page.mode = .batch ∧ page.rulesYaml ≠ "" ∧
        request = ⟨parseLabelFilter page.labelFilter, page.rulesYaml, page.options, false⟩ := by
  cases hmode : page.mode with
  | single =>
    rw [handleDeploy, hmode]
    by_cases h : page.nodeId = "" ∨ page.rulesYaml = ""
    · simp [h]
    · simp [h]
  | batch =>
    rw [handleDeploy, hmode]
    by_cases h : page.rulesYaml = ""
    · simp [h]
    · simp [h, eq_comm]

/-- The page and the server agree on a text of labels exactly when the last ones are plain. -/
theorem agree_iff {pairs : List (Sigma fun _ : String => String)}
    (hpairs : ∀ e ∈ pairs, Queryable e ∧ Unblanked e.1 ∧ Unblanked e.2) :
    (∀ key, (parseLabelFilter (labelQuery pairs)).lookup key =
        (PaciNet.parseLabelFilter (some (labelQuery pairs))).lookup key) ↔
      ∀ l label r, pairs = l ++ label :: r → (∀ e ∈ r, e.1 ≠ label.1) → Plain label := by
  have hq : ∀ e ∈ pairs, Queryable e := fun e he => (hpairs e he).1
  constructor
  · rintro h l label r rfl hlast
    have hpage := h label.1
    rw [lookup_server hq hlast, parseLabelFilter_labelQuery hq] at hpage
    refine plain_of_mem_foldl_readLabel hpairs ?_ hpage
    intro k v hnone
    simp at hnone
  · intro h key
    rcases last_label pairs key with hnone | ⟨l, label, r, rfl, rfl, hlast⟩
    · have hkeys : ∀ e ∈ pairs, Queryable e ∧ Unblanked e.1 :=
        fun e he => ⟨hq e he, (hpairs e he).2.1⟩
      rw [parseLabelFilter_labelQuery hq, PaciNet.parseLabelFilter_labelQuery hq,
        lookup_foldl_readLabel_of_ne hkeys hnone, lookup_foldl_insert_of_ne hnone]
    · rw [lookup_server hq hlast, lookup_page hpairs hlast (h l label r rfl hlast)]

/-- **When a filter text is read as it is written.** -/
theorem narrow_iff (page : Page) :
    Narrow page ↔ NamesLabel page ∧ LastPlain page.labelFilter := by
  constructor
  · intro h
    constructor
    · intro hmode hrules htext
      exact parseLabelFilter_ne_empty.1
        (h.notEmpty htext _ (handleDeploy_eq_batch.2 ⟨hmode, hrules, rfl⟩))
    · intro pairs hpairs htext
      have hagrees := h.agrees pairs hpairs htext
      rw [htext] at hagrees
      exact (agree_iff hpairs).1 hagrees
  · rintro ⟨hnames, hplain⟩
    refine ⟨?_, ?_, ?_⟩
    · intro htext request hsent
      obtain ⟨hmode, hrules, rfl⟩ := handleDeploy_eq_batch.1 hsent
      exact parseLabelFilter_ne_empty.2 (hnames hmode hrules htext)
    · intro pairs hpairs htext
      rw [htext]
      exact (agree_iff hpairs).2 (hplain pairs hpairs htext)
    · intro request hsent nodes
      obtain ⟨-, -, rfl⟩ := handleDeploy_eq_batch.1 hsent
      exact fleetTargets_eq

/-- A key without a value sends the policy to every node, and the page drops the end of a value. -/
theorem not_narrow :
    ¬ Narrow ⟨.batch, "", "site", "pacgate:", .default⟩ ∧
      ¬ Narrow ⟨.batch, "", "note=a=b", "pacgate:", .default⟩ := by
  constructor
  · intro h
    exact h.notEmpty (by decide) _ rfl (by decide)
  · intro h
    have hsame := h.agrees [⟨"note", "a=b"⟩] (by decide) rfl "note"
    rw [show "note=a=b" = labelQuery [⟨"note", "a=b"⟩] from rfl,
      PaciNet.parseLabelFilter_labelQuery (by decide)] at hsame
    revert hsame
    decide

end PaciNet.DeployPage
