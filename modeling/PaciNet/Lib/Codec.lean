import Mathlib.Data.List.AList
import Mathlib.Logic.Equiv.Defs
import PaciNet.Lib.Content

/-!
# Codecs of structures

How a type is written as a document and read from one, put together the way a derived
implementation does it: from the codecs of texts and numbers, of lists and of maps with text
keys, and of records, whose fields are required, optional or have a default.

A document that is stored as text need not come back as it was: the text of a float may be read
as another float. **A record comes back if and only if each of its fields does**
(`survives_record`), and what has no float in it always does (`Faithful`).
-/

set_option autoImplicit false

namespace Lib

namespace Content

variable {φ : Type}

/-! ## Floats that are read anew -/

mutual

/-- The document with `f` applied to every float. -/
def mapFloats (f : φ → φ) : Content φ → Content φ
  | .null => .null
  | .bool b => .bool b
  | .int n => .int n
  | .float x => .float (f x)
  | .str s => .str s
  | .seq vs => .seq (mapFloatsAll f vs)
  | .map entries => .map (mapFloatsEntries f entries)

def mapFloatsAll (f : φ → φ) : List (Content φ) → List (Content φ)
  | [] => []
  | v :: vs => mapFloats f v :: mapFloatsAll f vs

def mapFloatsEntries (f : φ → φ) : List (String × Content φ) → List (String × Content φ)
  | [] => []
  | (k, v) :: entries => (k, mapFloats f v) :: mapFloatsEntries f entries

end

theorem mapFloatsAll_eq (f : φ → φ) (vs : List (Content φ)) :
    mapFloatsAll f vs = vs.map (mapFloats f) := by
  induction vs with
  | nil => simp [mapFloatsAll]
  | cons v vs ih => simp [mapFloatsAll, ih]

theorem mapFloatsEntries_eq (f : φ → φ) (entries : List (String × Content φ)) :
    mapFloatsEntries f entries = entries.map fun e => (e.1, mapFloats f e.2) := by
  induction entries with
  | nil => simp [mapFloatsEntries]
  | cons e entries ih => simp [mapFloatsEntries, ih]

@[simp] theorem mapFloats_seq (f : φ → φ) (vs : List (Content φ)) :
    (seq vs).mapFloats f = .seq (vs.map (mapFloats f)) := by
  rw [mapFloats, mapFloatsAll_eq]

@[simp] theorem mapFloats_map (f : φ → φ) (entries : List (String × Content φ)) :
    (map entries).mapFloats f = .map (entries.map fun e => (e.1, mapFloats f e.2)) := by
  rw [mapFloats, mapFloatsEntries_eq]

attribute [simp] mapFloats.eq_1 mapFloats.eq_2 mapFloats.eq_3 mapFloats.eq_4 mapFloats.eq_5

theorem mapFloats_eq_null {f : φ → φ} {c : Content φ} : c.mapFloats f = .null ↔ c = .null := by
  cases c <;> simp

/-- A structure keeps its fields. -/
theorem mapFloats_struct (f : φ → φ) (nulls : Bool) (fs : List (String × Option (Content φ))) :
    (struct nulls fs).mapFloats f =
      .struct nulls (fs.map fun e => (e.1, e.2.map (mapFloats f))) := by
  rw [struct, mapFloats_map, struct, List.map_filterMap, List.filterMap_map]
  congr 1
  refine List.filterMap_congr fun e _ => ?_
  obtain ⟨k, o⟩ := e
  cases o with
  | some v => rfl
  | none => cases nulls <;> simp [entry]

end Content

/-! ## Codecs -/

/-- How a type is written and read. Null is left to a value that is missing. -/
structure Codec (φ α : Type) where
  write : α → Content φ
  read : Content φ → Option α
  write_ne_null : ∀ a, write a ≠ .null

namespace Codec

variable {φ α β : Type}

/-- The value is read from some document. -/
def Readable (c : Codec φ α) (a : α) : Prop := ∃ v, c.read v = some a

/-- The value is what is read from the document it is written as, once `f` was applied to every
    float in that document. -/
def Survives (f : φ → φ) (c : Codec φ α) (a : α) : Prop :=
  c.read ((c.write a).mapFloats f) = some a

/-- Every value that is read from a document survives. -/
def Faithful (f : φ → φ) (c : Codec φ α) : Prop := ∀ a, c.Readable a → c.Survives f a

/-! ### Texts and numbers -/

def text : Codec φ String where
  write s := .str s
  read
    | .str s => some s
    | _ => none
  write_ne_null _ := by simp

def bool : Codec φ Bool where
  write b := .bool b
  read
    | .bool b => some b
    | _ => none
  write_ne_null _ := by simp

/-- The numbers below the limit. -/
def nat (limit : Nat) : Codec φ Nat where
  write n := .int n
  read
    | .int n => if 0 ≤ n ∧ n < limit then some n.toNat else none
    | _ => none
  write_ne_null _ := by simp

theorem text_survives (f : φ → φ) (s : String) : text.Survives f s := rfl

theorem bool_survives (f : φ → φ) (b : Bool) : bool.Survives f b := rfl

theorem nat_survives (f : φ → φ) {limit n : Nat} (h : n < limit) : (nat limit).Survives f n := by
  have hin : 0 ≤ (n : Int) ∧ (n : Int) < limit := by omega
  rw [Survives, nat, Content.mapFloats]
  simp only [if_pos hin, Int.toNat_natCast]

theorem lt_of_readable {limit n : Nat} (h : (nat limit : Codec φ Nat).Readable n) : n < limit := by
  obtain ⟨v, hv⟩ := h
  cases v with
  | int m =>
    simp only [nat] at hv
    split at hv
    · rename_i hin
      obtain rfl := Option.some.inj hv
      omega
    · cases hv
  | _ => cases hv

theorem text_faithful (f : φ → φ) : Faithful f text := fun s _ => text_survives f s

theorem bool_faithful (f : φ → φ) : Faithful f bool := fun b _ => bool_survives f b

theorem nat_faithful (f : φ → φ) (limit : Nat) : Faithful f (nat limit) := by
  intro n hn
  exact nat_survives f (lt_of_readable hn)

/-! ### Lists -/

/-- `mapM` gives the values that are read from the elements. -/
theorem mapM_eq_some {γ : Type} {g : γ → Option α} {xs : List γ} {as : List α} :
    xs.mapM g = some as ↔ List.Forall₂ (fun x a => g x = some a) xs as := by
  induction xs generalizing as with
  | nil => simp [eq_comm]
  | cons x xs ih =>
    simp only [List.mapM_cons, Option.bind_eq_bind, Option.pure_def, Option.bind_eq_some_iff,
      Option.some.injEq, List.forall₂_cons_left_iff, ih]
    constructor
    · intro h
      obtain ⟨a, ha, as', has, rfl⟩ := h
      exact ⟨a, as', ha, has, rfl⟩
    · intro h
      obtain ⟨a, as', ha, has, rfl⟩ := h
      exact ⟨a, ha, as', has, rfl⟩

def list (c : Codec φ α) : Codec φ (List α) where
  write as := .seq (as.map c.write)
  read
    | .seq vs => vs.mapM c.read
    | _ => none
  write_ne_null _ := by simp

/-- A list survives if its elements do. -/
theorem list_survives {f : φ → φ} {c : Codec φ α} {as : List α} :
    c.list.Survives f as ↔ ∀ a ∈ as, c.Survives f a := by
  rw [Survives, list, Content.mapFloats_seq]
  simp only [mapM_eq_some, List.map_map, List.forall₂_map_left_iff, List.forall₂_same]
  rfl

/-! ### Maps with text keys -/

/-- The map of these entries; of two entries with one key the later one counts. -/
def ofEntries (es : List ((_ : String) × α)) : AList fun _ : String => α :=
  es.foldr (fun e m => if e.1 ∈ m then m else m.insert e.1 e.2) ∅

theorem ofEntries_cons (e : (_ : String) × α) (es : List ((_ : String) × α)) :
    ofEntries (e :: es) =
      if e.1 ∈ ofEntries es then ofEntries es else (ofEntries es).insert e.1 e.2 := rfl

theorem entries_ofEntries {es : List ((_ : String) × α)} (h : es.NodupKeys) :
    (ofEntries es).entries = es := by
  induction es with
  | nil => rfl
  | cons e es ih =>
    obtain ⟨hnew, hrest⟩ := List.nodupKeys_cons.1 h
    have hes := ih hrest
    have hmem : e.1 ∉ ofEntries es := by
      rw [AList.mem_keys, AList.keys, hes]
      exact hnew
    rw [ofEntries_cons, if_neg hmem, AList.entries_insert_of_notMem hmem, hes]

/-- Every entry of the map is one of them. -/
theorem mem_of_mem_ofEntries {es : List ((_ : String) × α)} {e : (_ : String) × α}
    (h : e ∈ (ofEntries es).entries) : e ∈ es := by
  induction es with
  | nil => cases h
  | cons e' es ih =>
    rw [ofEntries_cons] at h
    split at h
    · exact List.mem_cons_of_mem _ (ih h)
    · rename_i hmem
      rw [AList.entries_insert_of_notMem hmem] at h
      rcases List.mem_cons.1 h with rfl | h
      · exact List.mem_cons_self
      · exact List.mem_cons_of_mem _ (ih h)

/-- Read the value of an entry. -/
def readEntry (c : Codec φ α) (e : String × Content φ) : Option ((_ : String) × α) :=
  (c.read e.2).map (Sigma.mk e.1)

theorem readEntry_eq_some {c : Codec φ α} {v : Content φ} {a : α} (k : String)
    (h : c.read v = some a) : c.readEntry (k, v) = some ⟨k, a⟩ := by
  rw [readEntry, h]
  rfl

def dict (c : Codec φ α) : Codec φ (AList fun _ : String => α) where
  write m := .map (m.entries.map fun e => (e.1, c.write e.2))
  read
    | .map es => (es.mapM c.readEntry).map ofEntries
    | _ => none
  write_ne_null _ := by simp

/-- A map survives if its values do. -/
theorem dict_survives {f : φ → φ} {c : Codec φ α} {m : AList fun _ : String => α} :
    c.dict.Survives f m ↔ ∀ e ∈ m.entries, c.Survives f e.2 := by
  have hread (es : List ((_ : String) × α)) :
      (m.entries.map fun e => (e.1, (c.write e.2).mapFloats f)).mapM c.readEntry = some es ↔
        List.Forall₂ (fun e e' =>
          (c.read ((c.write e.2).mapFloats f)).map (Sigma.mk e.1) = some e') m.entries es := by
    rw [mapM_eq_some, List.forall₂_map_left_iff]
    rfl
  have hsurvives : c.dict.Survives f m ↔ ∃ es,
      (m.entries.map fun e => (e.1, (c.write e.2).mapFloats f)).mapM c.readEntry = some es ∧
        ofEntries es = m := by
    rw [Survives, dict, Content.mapFloats_map, List.map_map]
    exact Option.map_eq_some_iff
  rw [hsurvives]
  constructor
  · intro h
    obtain ⟨es, hes, hm⟩ := h
    have hall := (hread es).1 hes
    -- the keys are those of the map, so no entry gives way to another
    have hkeys : m.entries.keys = es.keys := by
      refine List.forall₂_eq_eq_eq ▸ List.forall₂_map_left_iff.2 (List.forall₂_map_right_iff.2 ?_)
      refine hall.imp fun e e' he => ?_
      obtain ⟨a, -, rfl⟩ := Option.map_eq_some_iff.1 he
      rfl
    have hnodup : es.NodupKeys := by
      rw [List.NodupKeys, ← hkeys]
      exact m.nodupKeys
    have hsame : es = m.entries := by rw [← hm, entries_ofEntries hnodup]
    rw [hsame, List.forall₂_same] at hall
    intro e he
    obtain ⟨a, ha, heq⟩ := Option.map_eq_some_iff.1 (hall e he)
    have hvalue : a = e.2 := congrArg Sigma.snd heq
    rw [Survives, ha, hvalue]
  · intro h
    refine ⟨m.entries, (hread _).2 ?_, ?_⟩
    · rw [List.forall₂_same]
      intro e he
      rw [h e he]
      rfl
    · exact AList.ext (entries_ofEntries m.nodupKeys)

theorem readable_of_dict {c : Codec φ α} {m : AList fun _ : String => α}
    (h : c.dict.Readable m) : ∀ e ∈ m.entries, c.Readable e.2 := by
  obtain ⟨v, hv⟩ := h
  cases v with
  | map es =>
    obtain ⟨es', hes, rfl⟩ := Option.map_eq_some_iff.1 hv
    have hall : ∀ e ∈ es', c.Readable e.2 := by
      have hall := mapM_eq_some.1 hes
      clear hes hv
      induction hall with
      | nil => simp
      | cons hx _ ih =>
        intro e he
        rcases List.mem_cons.1 he with rfl | he
        · obtain ⟨a, ha, heq⟩ := Option.map_eq_some_iff.1 hx
          rw [← heq]
          exact ⟨_, ha⟩
        · exact ih e he
    exact fun e he => hall e (mem_of_mem_ofEntries he)
  | _ => cases hv

theorem dict_faithful {f : φ → φ} {c : Codec φ α} (h : c.Faithful f) : c.dict.Faithful f := by
  intro m hm
  exact dict_survives.2 fun e he => h e.2 (readable_of_dict hm e he)

end Codec

/-! ## Fields -/

/-- A field of a record: what is written under its key, and what is read of what stands there. -/
structure Field (φ β : Type) where
  write : β → Option (Content φ)
  read : Option (Content φ) → Option β

namespace Field

variable {φ α β : Type}

/-- A field that has to be there. -/
def required (c : Codec φ β) : Field φ β where
  write b := some (c.write b)
  read o := o.bind c.read

/-- A field that may be missing or null. -/
def optional (c : Codec φ β) : Field φ (Option β) where
  write o := o.map c.write
  read := Content.optional c.read

/-- A field that is `d` when it is missing. -/
def orDefault (d : β) (c : Codec φ β) : Field φ β where
  write b := some (c.write b)
  read
    | none => some d
    | some v => c.read v

/-- The field holds what is read of some document. -/
def Readable (fld : Field φ β) (b : β) : Prop := ∃ o, fld.read o = some b

/-- The value is what is read from what is written under the key, null where nothing is, once `f`
    was applied to every float. -/
def Survives (f : φ → φ) (fld : Field φ β) (b : β) : Prop :=
  fld.read (some (((fld.write b).getD .null).mapFloats f)) = some b

def Faithful (f : φ → φ) (fld : Field φ β) : Prop := ∀ b, fld.Readable b → fld.Survives f b

variable {f : φ → φ} {c : Codec φ β}

theorem required_survives {b : β} : (required c).Survives f b ↔ c.Survives f b := Iff.rfl

theorem orDefault_survives {d b : β} : (orDefault d c).Survives f b ↔ c.Survives f b := Iff.rfl

theorem optional_survives {o : Option β} :
    (optional c).Survives f o ↔ ∀ b ∈ o, c.Survives f b := by
  cases o with
  | none => exact iff_of_true rfl (by simp)
  | some b =>
    have hvalue : (c.write b).mapFloats f ≠ .null := fun h =>
      c.write_ne_null b (Content.mapFloats_eq_null.1 h)
    show Content.optional c.read (some ((c.write b).mapFloats f)) = some (some b) ↔ _
    rw [Content.optional_some hvalue]
    simp [Codec.Survives]

theorem readable_of_required {b : β} (h : (required c).Readable b) : c.Readable b := by
  obtain ⟨o, ho⟩ := h
  obtain ⟨v, -, hv⟩ := Option.bind_eq_some_iff.1 ho
  exact ⟨v, hv⟩

theorem readable_of_optional {o : Option β} (h : (optional c).Readable o) :
    ∀ b ∈ o, c.Readable b := by
  intro b hb
  obtain ⟨v, hv⟩ := h
  cases v with
  | none =>
    cases hv
    cases hb
  | some v =>
    by_cases hnull : v = .null
    · subst hnull
      cases hv
      cases hb
    · have hread : (c.read v).map some = some o := (Content.optional_some hnull).symm.trans hv
      obtain ⟨b', hb', rfl⟩ := Option.map_eq_some_iff.1 hread
      cases hb
      exact ⟨v, hb'⟩

theorem readable_of_orDefault {d b : β} (h : (orDefault d c).Readable b) :
    b = d ∨ c.Readable b := by
  obtain ⟨o, ho⟩ := h
  cases o with
  | none => exact .inl (Option.some.inj ho).symm
  | some v => exact .inr ⟨v, ho⟩

theorem required_faithful (h : c.Faithful f) : (required c).Faithful f := by
  intro b hb
  exact h b (readable_of_required hb)

theorem optional_faithful (h : c.Faithful f) : (optional c).Faithful f := by
  intro o ho
  exact optional_survives.2 fun b hb => h b (readable_of_optional ho b hb)

theorem orDefault_faithful {d : β} (hd : c.Survives f d) (h : c.Faithful f) :
    (orDefault d c).Faithful f := by
  intro b hb
  rcases readable_of_orDefault hb with rfl | hb
  · exact hd
  · exact h b hb

end Field

/-- The fields of a record, in the order of their declaration. -/
inductive Fields (φ : Type) : Type → Type 1 where
  | nil : Fields φ Unit
  | cons {α β : Type} (k : String) (fld : Field φ β) (rest : Fields φ α) : Fields φ (β × α)

namespace Fields

variable {φ : Type}

def names : {α : Type} → Fields φ α → List String
  | _, nil => []
  | _, cons k _ rest => k :: rest.names

def write : {α : Type} → Fields φ α → α → List (String × Option (Content φ))
  | _, nil, _ => []
  | _, cons k fld rest, a => (k, fld.write a.1) :: rest.write a.2

/-- Read the fields, given what stands under each key. -/
def read : {α : Type} → Fields φ α → (String → Option (Content φ)) → Option α
  | _, nil, _ => some ()
  | _, cons k fld rest, get => do
    let b ← fld.read (get k)
    let a ← rest.read get
    pure (b, a)

/-- Every field is read as its value from what stands under its key. -/
def Reads (get : String → Option (Content φ)) : {α : Type} → Fields φ α → α → Prop
  | _, nil, _ => True
  | _, cons k fld rest, a => fld.read (get k) = some a.1 ∧ rest.Reads get a.2

/-- Every field holds what is read of some document. -/
def Readable : {α : Type} → Fields φ α → α → Prop
  | _, nil, _ => True
  | _, cons _ fld rest, a => fld.Readable a.1 ∧ rest.Readable a.2

/-- Every field survives. -/
def Survives (f : φ → φ) : {α : Type} → Fields φ α → α → Prop
  | _, nil, _ => True
  | _, cons _ fld rest, a => fld.Survives f a.1 ∧ rest.Survives f a.2

/-- Every field is faithful. -/
def Faithful (f : φ → φ) : {α : Type} → Fields φ α → Prop
  | _, nil => True
  | _, cons _ fld rest => fld.Faithful f ∧ rest.Faithful f

variable {α : Type} {f : φ → φ}

theorem map_fst_write (fs : Fields φ α) (a : α) : (fs.write a).map Prod.fst = fs.names := by
  induction fs with
  | nil => rfl
  | cons k fld rest ih => rw [write, List.map_cons, ih, names]

/-- A record is read field by field. -/
theorem read_eq_some_iff {get : String → Option (Content φ)} {fs : Fields φ α} {a : α} :
    fs.read get = some a ↔ fs.Reads get a := by
  induction fs with
  | nil => exact iff_of_true rfl trivial
  | cons k fld rest ih =>
    obtain ⟨b, a⟩ := a
    simp only [read, Option.bind_eq_bind, Option.pure_def, Option.bind_eq_some_iff,
      Option.some.injEq, Prod.mk.injEq, Reads, ← ih]
    constructor
    · intro h
      obtain ⟨b', hb', a', ha', rfl, rfl⟩ := h
      exact ⟨hb', ha'⟩
    · intro h
      exact ⟨b, h.1, a, h.2, rfl, rfl⟩

/-- Reading finds what was written if every field does. -/
theorem reads_iff_survives {get : String → Option (Content φ)} {fs : Fields φ α} {a : α}
    (hget : ∀ e ∈ fs.write a, get e.1 = some ((e.2.getD .null).mapFloats f)) :
    fs.Reads get a ↔ fs.Survives f a := by
  induction fs with
  | nil => exact Iff.rfl
  | cons k fld rest ih =>
    have hfirst : get k = some (((fld.write a.1).getD .null).mapFloats f) :=
      hget _ List.mem_cons_self
    have hrest := ih fun e he => hget e (List.mem_cons_of_mem _ he)
    rw [Reads, hfirst, hrest]
    rfl

theorem Reads.readable {get : String → Option (Content φ)} {fs : Fields φ α} {a : α}
    (h : fs.Reads get a) : fs.Readable a := by
  induction fs with
  | nil => trivial
  | cons k fld rest ih => exact ⟨⟨_, h.1⟩, ih h.2⟩

theorem Faithful.survives {fs : Fields φ α} (h : fs.Faithful f) {a : α} (ha : fs.Readable a) :
    fs.Survives f a := by
  induction fs with
  | nil => trivial
  | cons k fld rest ih => exact ⟨h.1 _ ha.1, ih h.2 ha.2⟩

end Fields

/-! ## Records -/

namespace Codec

variable {φ α β : Type}

/-- A record whose fields, in their order, are told by `e`. A field without a value is written as
    null. -/
def record (fs : Fields φ β) (e : α ≃ β) : Codec φ α where
  write a := .struct true (fs.write (e a))
  read c := do
    let _ ← c.fields fs.names
    let b ← fs.read fun k => c.get fs.names k
    pure (e.symm b)
  write_ne_null a := by simp [Content.struct]

variable {f : φ → φ} {fs : Fields φ β} {e : α ≃ β} {a : α}

/-- **A record survives if and only if its fields do.** -/
theorem survives_record (hnames : fs.names.Nodup) :
    (record fs e).Survives f a ↔ fs.Survives f (e a) := by
  have hkeys : (((fs.write (e a)).map fun e => (e.1, e.2.map (Content.mapFloats f))).map
      Prod.fst).Nodup := by
    rw [List.map_map]
    show ((fs.write (e a)).map Prod.fst).Nodup
    rw [fs.map_fst_write]
    exact hnames
  rw [Survives, record]
  simp only [Content.mapFloats_struct, Content.fields_struct hkeys, Option.bind_eq_bind,
    Option.bind_some, Option.pure_def, Option.bind_eq_some_iff, Option.some.injEq,
    Equiv.symm_apply_eq, exists_eq_right]
  refine Fields.read_eq_some_iff.trans (Fields.reads_iff_survives fun entry hentry => ?_)
  have hmem := List.mem_map_of_mem (f := fun e => (e.1, e.2.map (Content.mapFloats f))) hentry
  obtain ⟨k, o⟩ := entry
  cases o with
  | some v => exact Content.get_struct_some hkeys hmem _
  | none => exact Content.get_struct_none hkeys hmem _

/-- A mapping without repeated keys is read if its fields are. -/
theorem read_record {entries : List (String × Content φ)} (hkeys : (entries.map Prod.fst).Nodup)
    (h : fs.Reads (fun k => entries.lookup k) (e a)) :
    (record fs e).read (.map entries) = some a := by
  have hfields : (Content.map entries).fields fs.names = some entries :=
    if_pos (hkeys.filter _)
  have hread : fs.read (fun k => (Content.map entries).get fs.names k) = some (e a) := by
    simp only [Content.get, hfields, Option.bind_some]
    exact Fields.read_eq_some_iff.2 h
  simp only [record, hfields, hread, Option.bind_eq_bind, Option.bind_some, Option.pure_def,
    Equiv.symm_apply_apply]

theorem readable_of_record (h : (record fs e).Readable a) : fs.Readable (e a) := by
  obtain ⟨c, hc⟩ := h
  simp only [record, Option.bind_eq_bind, Option.pure_def, Option.bind_eq_some_iff,
    Option.some.injEq] at hc
  obtain ⟨-, -, b, hb, rfl⟩ := hc
  rw [Equiv.apply_symm_apply]
  exact (Fields.read_eq_some_iff.1 hb).readable

theorem record_faithful (hnames : fs.names.Nodup) (h : fs.Faithful f) :
    (record fs e).Faithful f := by
  intro a ha
  exact (survives_record hnames).2 (h.survives (readable_of_record ha))

end Codec

end Lib
