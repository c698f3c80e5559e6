import Mathlib.Data.List.Nodup
import Mathlib.Data.List.Basic

/-!
# Self-describing documents

A document as a parser hands it on, and how a structure is read from it and written to it.

A structure with named fields is read from a mapping, where fields it does not know are passed
over, or from a sequence that gives its fields in their order. A field that may be missing reads
as `none` when it is missing or null. Written, a structure is a mapping with a key for each field;
one without a value is written as null or left out.

**What is read back is what was written**, field by field (`optional_get_struct`): the two ways to
write a field without a value read alike.
-/

set_option autoImplicit false

namespace Lib

/-- A document whose numbers with a fraction are of type `φ`. -/
inductive Content (φ : Type) where
  | null
  | bool (b : Bool)
  | int (n : Int)
  | float (x : φ)
  | str (s : String)
  | seq (vs : List (Content φ))
  | map (entries : List (String × Content φ))

namespace Content

variable {φ α : Type}

/-! ## Reading -/

/-- The fields a structure with these field names finds. A known field must not occur twice. -/
def fields (names : List String) : Content φ → Option (List (String × Content φ))
  | .map entries =>
    if ((entries.map Prod.fst).filter fun k => names.contains k).Nodup then some entries else none
  | .seq vs => if vs.length ≤ names.length then some (names.zip vs) else none
  | _ => none

/-- The value of a field, if there is one. -/
def get (names : List String) (k : String) (c : Content φ) : Option (Content φ) :=
  (c.fields names).bind fun entries => entries.lookup k

/-- Read a field that may be missing or null. The reader may use that it reads a field. -/
def optionalOf (o : Option (Content φ)) (read : (c : Content φ) → o = some c → Option α) :
    Option (Option α) :=
  match o with
  | none => some none
  | some .null => some none
  | some c => (read c rfl).map some

def optional (read : Content φ → Option α) (o : Option (Content φ)) : Option (Option α) :=
  optionalOf o fun c _ => read c

theorem optional_some {read : Content φ → Option α} {c : Content φ} (h : c ≠ .null) :
    optional read (some c) = (read c).map some := by
  cases c with
  | null => exact absurd rfl h
  | _ => rfl

/-- Read a sequence, where the reader may use that it reads an element of it. -/
def listOf [SizeOf φ] (c : Content φ) (read : (v : Content φ) → sizeOf v < sizeOf c → Option α) :
    Option (List α) :=
  match c with
  | .seq vs => vs.attach.mapM fun v => read v.1 (by
      have := List.sizeOf_lt_of_mem v.2
      rw [seq.sizeOf_spec]
      omega)
  | _ => none

theorem mem_of_lookup {entries : List (String × Content φ)} {k : String} {v : Content φ}
    (h : entries.lookup k = some v) : (k, v) ∈ entries := by
  induction entries with
  | nil => exact absurd h (by simp)
  | cons e entries ih =>
    rw [List.lookup_cons] at h
    split at h
    · rename_i he
      obtain rfl := Option.some.inj h
      rw [beq_iff_eq.1 he]
      exact List.mem_cons_self
    · exact List.mem_cons_of_mem _ (ih h)

/-- A field is a smaller document. -/
theorem sizeOf_get [SizeOf φ] {names : List String} {k : String} {c v : Content φ}
    (h : c.get names k = some v) : sizeOf v < sizeOf c := by
  obtain ⟨entries, hf, hv⟩ := Option.bind_eq_some_iff.1 h
  have hmem := mem_of_lookup hv
  cases c with
  | map es =>
    simp only [fields] at hf
    split at hf
    · obtain rfl := Option.some.inj hf
      have := List.sizeOf_lt_of_mem hmem
      rw [map.sizeOf_spec]
      rw [Prod.mk.sizeOf_spec] at this
      omega
    · cases hf
  | seq vs =>
    simp only [fields] at hf
    split at hf
    · obtain rfl := Option.some.inj hf
      have := List.sizeOf_lt_of_mem (List.of_mem_zip hmem).2
      rw [seq.sizeOf_spec]
      omega
    · cases hf
  | null => cases hf
  | bool b => cases hf
  | int n => cases hf
  | float x => cases hf
  | str s => cases hf

/-! ## Writing -/

/-- The entry of a field: one without a value has none, or null. -/
def entry (nulls : Bool) : String × Option (Content φ) → Option (String × Content φ)
  | (k, some v) => some (k, v)
  | (k, none) => if nulls then some (k, .null) else none

/-- A structure as a mapping. -/
def struct (nulls : Bool) (fs : List (String × Option (Content φ))) : Content φ :=
  .map (fs.filterMap (entry nulls))

theorem entry_fst {nulls : Bool} {f : String × Option (Content φ)} {e : String × Content φ}
    (h : entry nulls f = some e) : e.1 = f.1 := by
  obtain ⟨k, o⟩ := f
  cases o with
  | some v =>
    cases h
    rfl
  | none =>
    simp only [entry] at h
    split at h
    · cases h
      rfl
    · cases h

/-- The keys that are written are names of fields, in their order. -/
theorem keys_sublist (nulls : Bool) (fs : List (String × Option (Content φ))) :
    ((fs.filterMap (entry nulls)).map Prod.fst).Sublist (fs.map Prod.fst) := by
  induction fs with
  | nil => exact .slnil
  | cons f fs ih =>
    rw [List.filterMap_cons]
    cases he : entry nulls f with
    | none => exact ih.cons _
    | some e =>
      rw [List.map_cons, List.map_cons, entry_fst he]
      exact ih.cons_cons _

variable {nulls : Bool} {fs : List (String × Option (Content φ))}

/-- A structure written with different names has no known field twice, whatever is known. -/
theorem fields_struct (hnd : (fs.map Prod.fst).Nodup) (names : List String) :
    (struct nulls fs).fields names = some (fs.filterMap (entry nulls)) :=
  if_pos ((hnd.sublist (keys_sublist nulls fs)).filter _)

/-- A name no field has finds nothing. -/
theorem get_struct_of_notMem {k : String} (hnd : (fs.map Prod.fst).Nodup)
    (hk : k ∉ fs.map Prod.fst) (names : List String) : (struct nulls fs).get names k = none := by
  rw [get, fields_struct hnd, Option.bind_some, List.lookup_eq_none_iff]
  intro e he
  have : e.1 ∈ fs.map Prod.fst := (keys_sublist nulls fs).subset (List.mem_map_of_mem he)
  simpa using fun h : k = e.1 => hk (h ▸ this)

/-- A field with a value is found with that value. -/
theorem get_struct_some {k : String} {v : Content φ} (hnd : (fs.map Prod.fst).Nodup)
    (hk : (k, some v) ∈ fs) (names : List String) : (struct nulls fs).get names k = some v := by
  rw [get, fields_struct hnd, Option.bind_some]
  induction fs with
  | nil => exact absurd hk List.not_mem_nil
  | cons f fs ih =>
    rw [List.map_cons, List.nodup_cons] at hnd
    rw [List.filterMap_cons]
    rcases List.mem_cons.1 hk with rfl | hk
    · exact List.lookup_cons_self
    · have hne : k ≠ f.1 := fun h => hnd.1 (h ▸ List.mem_map_of_mem hk)
      cases he : entry nulls f with
      | none => exact ih hnd.2 hk
      | some e =>
        rw [List.lookup_cons, beq_false_of_ne (entry_fst he ▸ hne)]
        exact ih hnd.2 hk

/-- A field without a value is missing or null. -/
theorem get_struct_none {k : String} (hnd : (fs.map Prod.fst).Nodup) (hk : (k, none) ∈ fs)
    (names : List String) :
    (struct nulls fs).get names k = if nulls then some .null else none := by
  rw [get, fields_struct hnd, Option.bind_some]
  induction fs with
  | nil => exact absurd hk List.not_mem_nil
  | cons f fs ih =>
    rw [List.map_cons, List.nodup_cons] at hnd
    rw [List.filterMap_cons]
    rcases List.mem_cons.1 hk with rfl | hk
    · cases nulls with
      | true => exact List.lookup_cons_self
      | false =>
        refine List.lookup_eq_none_iff.2 fun e he => ?_
        have : e.1 ∈ fs.map Prod.fst :=
          (keys_sublist false fs).subset (List.mem_map_of_mem he)
        simpa using fun h : k = e.1 => hnd.1 (h ▸ this)
    · have hne : k ≠ f.1 := fun h => hnd.1 (h ▸ List.mem_map_of_mem hk)
      cases he : entry nulls f with
      | none => exact ih hnd.2 hk
      | some e =>
        rw [List.lookup_cons, beq_false_of_ne (entry_fst he ▸ hne)]
        exact ih hnd.2 hk

/-- A field reads back as the value it was written from. -/
theorem optional_get_struct {k : String} {o : Option α} {write : α → Content φ}
    {read : Content φ → Option α} (hnd : (fs.map Prod.fst).Nodup) (hk : (k, o.map write) ∈ fs)
    (names : List String) (hread : ∀ a ∈ o, read (write a) = some a)
    (hnull : ∀ a ∈ o, write a ≠ .null) :
    optional read ((struct nulls fs).get names k) = some o := by
  cases o with
  | none =>
    rw [get_struct_none hnd hk]
    cases nulls <;> rfl
  | some a =>
    rw [get_struct_some hnd hk, optional_some (hnull a rfl), hread a rfl]
    rfl

end Content

end Lib
