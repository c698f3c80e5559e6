import PaciNet.Lib.Splitting
import PaciNet.Server.Methods

/-!
# Label queries

A list of nodes is asked for with a text of labels, `key=value` joined by commas. **What
`parse_label_filter` reads from such a text is the entries put into a map one after the other
(`parseLabelFilter_labelQuery`)**, so the last entry of a key wins and the text of a map reads back
as that map, in whichever order its entries are written.
-/

set_option autoImplicit false

namespace PaciNet

/-- One label as a query writes it. -/
def labelText (label : Sigma fun _ : String => String) : String := label.1 ++ "=" ++ label.2

/-- The text of a query. -/
def labelQuery (entries : List (Sigma fun _ : String => String)) : String :=
  ",".intercalate (entries.map labelText)

/-- A label whose text can be told apart: the value may contain `=`. -/
def Queryable (label : Sigma fun _ : String => String) : Prop :=
  (',' ∉ label.1.toList ∧ '=' ∉ label.1.toList) ∧ ',' ∉ label.2.toList

instance (label : Sigma fun _ : String => String) : Decidable (Queryable label) :=
  inferInstanceAs (Decidable (_ ∧ _))

/-- What the loop of `parse_label_filter` does with one part. -/
def insertPair (map : Labels) (pair : String) : Labels :=
  match pair.splitOn "=" with
  | k :: v :: vs => map.insert k ("=".intercalate (v :: vs))
  | _ => map

theorem parseLabelFilter_some (s : String) :
    parseLabelFilter (some s) = (s.splitOn ",").foldl insertPair ∅ := rfl

theorem insertPair_labelText {map : Labels} {label : Sigma fun _ : String => String}
    (h : '=' ∉ label.1.toList) : insertPair map (labelText label) = map.insert label.1 label.2 := by
  have hsplit : (labelText label).splitOn "=" = label.1 :: label.2.splitOn "=" :=
    Lib.Splitting.splitOn_append (c := '=') h
  have hjoin : "=".intercalate (label.2.splitOn "=") = label.2 :=
    Lib.Splitting.intercalate_splitOn (c := '=')
  rw [insertPair, hsplit]
  cases hv : label.2.splitOn "=" with
  | nil => exact absurd hv (Lib.Splitting.splitOn_ne_nil (c := '='))
  | cons v vs =>
    rw [hv] at hjoin
    simp only [hjoin]

/-- A part without `=` is no label. -/
theorem insertPair_of_not_mem {map : Labels} {pair : String} (h : '=' ∉ pair.toList) :
    insertPair map pair = map := by
  have hsplit : pair.splitOn "=" = [pair] := Lib.Splitting.splitOn_of_not_mem (c := '=') h
  rw [insertPair, hsplit]

theorem labelText_no_comma {label : Sigma fun _ : String => String} (h : Queryable label) :
    ',' ∉ (labelText label).toList := by
  simp [labelText, h.1.1, h.2]

/-- The parts of a text of labels are the labels. -/
theorem splitOn_labelQuery {entries : List (Sigma fun _ : String => String)}
    (h : ∀ e ∈ entries, Queryable e) (hne : entries ≠ []) :
    (labelQuery entries).splitOn "," = entries.map labelText := by
  refine Lib.Splitting.splitOn_intercalate (c := ',') ?_ (by simpa using hne)
  intro p hp
  obtain ⟨label, hlabel, rfl⟩ := List.mem_map.1 hp
  exact labelText_no_comma (h label hlabel)

theorem splitOn_labelQuery_nil : (labelQuery []).splitOn "," = [""] :=
  Lib.Splitting.splitOn_of_not_mem (c := ',') (by simp [labelQuery])

/-- The entries of the text are put into the map one after the other. -/
theorem parseLabelFilter_labelQuery {entries : List (Sigma fun _ : String => String)}
    (h : ∀ e ∈ entries, Queryable e) :
    parseLabelFilter (some (labelQuery entries)) =
      entries.foldl (fun map e => map.insert e.1 e.2) ∅ := by
  rw [parseLabelFilter_some]
  cases entries with
  | nil =>
    rw [splitOn_labelQuery_nil]
    exact insertPair_of_not_mem (by simp)
  | cons e es =>
    rw [splitOn_labelQuery h (by simp), List.foldl_map]
    refine List.foldl_ext _ _ _ ?_
    intro map label hlabel
    exact insertPair_labelText (h label hlabel).1.2

/-- Entries of different keys all stay. -/
theorem entries_foldl_insert {es : List (Sigma fun _ : String => String)} {map : Labels}
    (h : (es.reverse ++ map.entries).NodupKeys) :
    (es.foldl (fun map e => map.insert e.1 e.2) map).entries = es.reverse ++ map.entries := by
  induction es generalizing map with
  | nil => rfl
  | cons e es ih =>
    have hperm : (es.reverse ++ (e :: map.entries)).NodupKeys := by
      simpa using h
    have hnew : e.1 ∉ map := by
      have hsub : (e :: map.entries).NodupKeys :=
        hperm.sublist (List.sublist_append_right es.reverse _)
      simpa [AList.mem_keys, AList.keys] using (List.nodupKeys_cons.1 hsub).1
    have hentries : (map.insert e.1 e.2).entries = e :: map.entries :=
      AList.entries_insert_of_notMem hnew
    rw [List.foldl_cons, ih (by rw [hentries]; exact hperm), hentries]
    simp

/-- **Label queries read back**: the text of a map's entries, in whichever order, is read as that
    map. -/
theorem labelQuery_roundTrip {labels : Labels} {written : List (Sigma fun _ : String => String)}
    (hlabels : ∀ e ∈ labels.entries, Queryable e) (hwritten : written.Perm labels.entries) :
    (parseLabelFilter (some (labelQuery written))).entries.Perm labels.entries := by
  have hq : ∀ e ∈ written, Queryable e := by
    intro e he
    exact hlabels e (hwritten.subset he)
  have hkeys : (written.reverse ++ (∅ : Labels).entries).NodupKeys := by
    have hreverse : written.reverse.Perm labels.entries := written.reverse_perm.trans hwritten
    simpa using (List.perm_nodupKeys hreverse).2 labels.nodupKeys
  rw [parseLabelFilter_labelQuery hq, entries_foldl_insert hkeys]
  simpa using written.reverse_perm.trans hwritten

/-- Two labels; the value of one holds the sign that ends a key. -/
def sampleLabels : Labels := ((∅ : Labels).insert "role" "core").insert "note" "a=b"

theorem labelQuery_roundTrip_sample :
    labelQuery [⟨"role", "core"⟩, ⟨"note", "a=b"⟩] = "role=core,note=a=b" ∧
      (parseLabelFilter (some (labelQuery [⟨"role", "core"⟩, ⟨"note", "a=b"⟩]))).entries.Perm
        sampleLabels.entries :=
  ⟨rfl, labelQuery_roundTrip (by decide) (by decide)⟩

end PaciNet
