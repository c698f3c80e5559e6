import Mathlib.Data.List.Basic

/-!
# Form url-encoding

A query is a list of pairs of a name and a value, written as `name=value` with `&` in between.
Letters, digits and `* - . _` stand for themselves; a space is written `+`, and every other byte
of the UTF-8 text as `%` and two hexadecimal digits.

**Two texts are never written alike** (`encode_injective`), and **a text is written as itself
exactly if all its characters stand for themselves** (`encode_eq_iff`): to take what is written
for what was meant is right for these texts only.
-/

set_option autoImplicit false

namespace Lib.Form

/-! ## Writing -/

/-- The letters, digits and punctuation that stand for themselves. -/
def unreserved (b : UInt8) : Bool :=
  (48 ≤ b && b ≤ 57) || (65 ≤ b && b ≤ 90) || (97 ≤ b && b ≤ 122) ||
    b == 42 || b == 45 || b == 46 || b == 95

/-- The uppercase digit of a value below sixteen. -/
def hexDigit (n : Nat) : Char :=
  if n < 10 then Char.ofNat (48 + n) else Char.ofNat (55 + n)

def encodeByte (b : UInt8) : List Char :=
  if b = 32 then ['+']
  else if unreserved b then [Char.ofNat b.toNat]
  else ['%', hexDigit (b.toNat / 16), hexDigit (b.toNat % 16)]

def encodeChar (c : Char) : List Char :=
  (String.utf8EncodeChar c).flatMap encodeByte

def encodeText (s : List Char) : List Char :=
  s.flatMap encodeChar

def encode (s : String) : String :=
  String.ofList (encodeText s.toList)

/-- A pair, as it is written. -/
def pair (p : String × String) : List Char :=
  encodeText p.1.toList ++ '=' :: encodeText p.2.toList

/-- The query of the pairs. -/
def serialize (params : List (String × String)) : String :=
  String.ofList (['&'].intercalate (params.map pair))

/-- Give a name a value: the first pair of that name gets it, and the others go. -/
def set : List (String × String) → String → String → List (String × String)
  | [], name, value => [(name, value)]
  | p :: rest, name, value =>
    if p.1 = name then (name, value) :: rest.filter (·.1 ≠ name) else p :: set rest name value

/-! ## Texts are written apart -/

/-- The value of a hexadecimal digit. -/
def hexValue (c : Char) : Nat :=
  if c.toNat < 58 then c.toNat - 48 else c.toNat - 55

/-- Read one byte back. -/
def decodeByte : List Char → Option (Nat × List Char)
  | '+' :: rest => some (32, rest)
  | '%' :: high :: low :: rest => some (hexValue high * 16 + hexValue low, rest)
  | c :: rest => some (c.toNat, rest)
  | [] => none

theorem hexValue_hexDigit : ∀ n < 16, hexValue (hexDigit n) = n := by
  decide

theorem unreserved_spec : ∀ n < 256, unreserved (UInt8.ofNat n) = true →
    (Char.ofNat n).toNat = n ∧ Char.ofNat n ≠ '+' ∧ Char.ofNat n ≠ '%' := by
  decide +kernel

theorem decodeByte_encodeByte (b : UInt8) (rest : List Char) :
    decodeByte (encodeByte b ++ rest) = some (b.toNat, rest) := by
  have hlt : b.toNat < 256 := b.toNat_lt
  unfold encodeByte
  by_cases hspace : b = 32
  · rw [if_pos hspace, hspace]
    rfl
  · rw [if_neg hspace]
    by_cases hplain : unreserved b = true
    · rw [if_pos hplain]
      obtain ⟨hnat, hplus, hpercent⟩ :=
        unreserved_spec b.toNat hlt (by rw [UInt8.ofNat_toNat]; exact hplain)
      rw [List.singleton_append]
      unfold decodeByte
      split <;> simp_all
    · rw [if_neg hplain]
      show some (hexValue (hexDigit (b.toNat / 16)) * 16 + hexValue (hexDigit (b.toNat % 16)),
        rest) = _
      rw [hexValue_hexDigit _ (by omega), hexValue_hexDigit _ (by omega)]
      congr 2
      omega

/-- The first byte written, and where it ends, can be told. -/
theorem encodeByte_append_inj {b b' : UInt8} {rest rest' : List Char}
    (h : encodeByte b ++ rest = encodeByte b' ++ rest') : b = b' ∧ rest = rest' := by
  have hread := congrArg decodeByte h
  rw [decodeByte_encodeByte, decodeByte_encodeByte] at hread
  obtain ⟨hb, hrest⟩ := Prod.mk.inj (Option.some.inj hread)
  exact ⟨UInt8.toNat_inj.mp hb, hrest⟩

theorem flatMap_encodeByte_injective :
    Function.Injective fun bytes : List UInt8 => bytes.flatMap encodeByte := by
  have hne (b : UInt8) (rest : List Char) : encodeByte b ++ rest ≠ [] := by
    intro h
    have hread := decodeByte_encodeByte b rest
    rw [h] at hread
    exact absurd hread (by simp [decodeByte])
  intro bytes
  induction bytes with
  | nil =>
    intro bytes' h
    cases bytes' with
    | nil => rfl
    | cons b' rest' => exact absurd h.symm (hne b' _)
  | cons b rest ih =>
    intro bytes' h
    cases bytes' with
    | nil => exact absurd h (hne b _)
    | cons b' rest' =>
      obtain ⟨rfl, hrest⟩ := encodeByte_append_inj h
      rw [ih hrest]

theorem encodeText_eq (s : List Char) :
    encodeText s = (s.flatMap String.utf8EncodeChar).flatMap encodeByte := by
  rw [List.flatMap_assoc]
  rfl

theorem encodeText_injective : Function.Injective encodeText := by
  intro s t h
  rw [encodeText_eq, encodeText_eq] at h
  have hbytes : s.utf8Encode = t.utf8Encode :=
    List.toByteArray_inj.mpr (flatMap_encodeByte_injective h)
  rw [← String.toByteArray_ofList, ← String.toByteArray_ofList, String.toByteArray_inj] at hbytes
  rw [← String.toList_ofList (l := s), ← String.toList_ofList (l := t), hbytes]

theorem encode_injective : Function.Injective encode := by
  intro s t h
  unfold encode at h
  have htext := congrArg String.toList h
  rw [String.toList_ofList, String.toList_ofList] at htext
  exact String.toList_inj.mp (encodeText_injective htext)

/-! ## Texts that are written as themselves -/

/-- The character stands for itself. -/
def Plain (c : Char) : Prop :=
  c.toNat < 128 ∧ unreserved (UInt8.ofNat c.toNat) = true

instance (c : Char) : Decidable (Plain c) := by
  unfold Plain
  infer_instance

theorem encodeChar_of_lt {c : Char} (h : c.toNat < 128) :
    encodeChar c = encodeByte (UInt8.ofNat c.toNat) := by
  have hsize : c.utf8Size = 1 := by
    rw [Char.utf8Size_eq_one_iff, UInt32.le_iff_toNat_le]
    show c.toNat ≤ 127
    omega
  unfold encodeChar
  rw [String.utf8EncodeChar_eq_singleton hsize, List.flatMap_singleton]
  rfl

theorem encodeByte_pos (b : UInt8) : 1 ≤ (encodeByte b).length := by
  unfold encodeByte
  split
  · simp
  · split <;> simp

theorem length_le_flatMap {α β : Type} {f : α → List β} (hf : ∀ a, 1 ≤ (f a).length) (l : List α) :
    l.length ≤ (l.flatMap f).length := by
  induction l with
  | nil => simp
  | cons a l ih =>
    have ha := hf a
    rw [List.flatMap_cons, List.length_append, List.length_cons]
    omega

theorem encodeChar_pos (c : Char) : 1 ≤ (encodeChar c).length := by
  refine Nat.le_trans ?_ (length_le_flatMap encodeByte_pos _)
  rw [String.length_utf8EncodeChar]
  exact Char.utf8Size_pos c

/-- A character is written as itself, is the space, or takes more than one. -/
theorem encodeChar_cases (c : Char) :
    (Plain c ∧ encodeChar c = [c]) ∨ (c = ' ' ∧ encodeChar c = ['+']) ∨
      (¬Plain c ∧ c ≠ ' ' ∧ 2 ≤ (encodeChar c).length) := by
  by_cases hlt : c.toNat < 128
  · have hnat : (UInt8.ofNat c.toNat).toNat = c.toNat := by
      rw [UInt8.toNat_ofNat']
      omega
    rw [encodeChar_of_lt hlt]
    unfold encodeByte
    by_cases hspace : UInt8.ofNat c.toNat = 32
    · right
      left
      rw [if_pos hspace]
      refine ⟨?_, rfl⟩
      have h32 : c.toNat = 32 := by
        rw [← hnat, hspace]
        rfl
      exact Char.toNat_inj.mp h32
    · rw [if_neg hspace]
      by_cases hplain : unreserved (UInt8.ofNat c.toNat) = true
      · left
        rw [if_pos hplain, hnat, Char.ofNat_toNat]
        exact ⟨⟨hlt, hplain⟩, rfl⟩
      · right
        right
        rw [if_neg hplain]
        refine ⟨fun h => hplain h.2, ?_, by simp⟩
        rintro rfl
        exact hspace rfl
  · right
    right
    refine ⟨fun h => hlt h.1, ?_, ?_⟩
    · rintro rfl
      exact hlt (by decide)
    · refine Nat.le_trans ?_ (length_le_flatMap encodeByte_pos _)
      rw [String.length_utf8EncodeChar]
      have hone : c.utf8Size ≠ 1 := by
        rw [Ne, Char.utf8Size_eq_one_iff, UInt32.le_iff_toNat_le]
        show ¬c.toNat ≤ 127
        omega
      have hpos := Char.utf8Size_pos c
      omega

/-- **A text is written as itself** exactly if all its characters stand for themselves. -/
theorem encodeText_eq_self_iff {s : List Char} : encodeText s = s ↔ ∀ c ∈ s, Plain c := by
  induction s with
  | nil => simp [encodeText]
  | cons c s ih =>
    show encodeChar c ++ encodeText s = c :: s ↔ _
    rw [List.forall_mem_cons]
    rcases encodeChar_cases c with ⟨hplain, heq⟩ | ⟨rfl, heq⟩ | ⟨hplain, -, hlong⟩
    · rw [heq, List.singleton_append, List.cons_inj_right, ih]
      exact ⟨fun h => ⟨hplain, h⟩, fun h => h.2⟩
    · rw [heq]
      refine iff_of_false (by simp) fun h => absurd h.1 (by decide)
    · refine iff_of_false (fun h => ?_) fun h => hplain h.1
      have hlength := congrArg List.length h
      have hle : s.length ≤ (encodeText s).length := length_le_flatMap encodeChar_pos s
      rw [List.length_append, List.length_cons] at hlength
      omega

theorem encode_eq_iff {s : String} : encode s = s ↔ ∀ c ∈ s.toList, Plain c := by
  rw [← encodeText_eq_self_iff, ← String.toList_inj]
  unfold encode
  rw [String.toList_ofList]

/-! ## Reading a query without decoding it -/

theorem separator_not_mem_encodeByte : ∀ n < 256,
    '&' ∉ encodeByte (UInt8.ofNat n) ∧ '=' ∉ encodeByte (UInt8.ofNat n) := by
  decide +kernel

theorem separator_not_mem (s : List Char) : '&' ∉ encodeText s ∧ '=' ∉ encodeText s := by
  rw [encodeText_eq]
  have hbyte (b : UInt8) : '&' ∉ encodeByte b ∧ '=' ∉ encodeByte b := by
    have h := separator_not_mem_encodeByte b.toNat b.toNat_lt
    rwa [UInt8.ofNat_toNat] at h
  constructor
  · intro hmem
    obtain ⟨b, -, hb⟩ := List.mem_flatMap.mp hmem
    exact (hbyte b).1 hb
  · intro hmem
    obtain ⟨b, -, hb⟩ := List.mem_flatMap.mp hmem
    exact (hbyte b).2 hb

theorem splitOn_serialize {params : List (String × String)} (h : params ≠ []) :
    (serialize params).toList.splitOn '&' = params.map pair := by
  unfold serialize
  rw [String.toList_ofList]
  refine List.splitOn_intercalate _ (fun l hl => ?_) (by simpa using h)
  obtain ⟨p, -, rfl⟩ := List.mem_map.mp hl
  intro hmem
  rcases List.mem_append.mp hmem with hname | hvalue
  · exact (separator_not_mem _).1 hname
  · rcases List.mem_cons.mp hvalue with heq | hvalue
    · exact absurd heq (by decide)
    · exact (separator_not_mem _).1 hvalue

/-- Without the separator in them, names are told by their prefixes. -/
theorem prefix_pair_iff {α : Type} [DecidableEq α] {x : α} {name e v : List α} (hname : x ∉ name)
    (he : x ∉ e) : name ++ [x] <+: e ++ x :: v ↔ e = name := by
  constructor
  · intro h
    induction name generalizing e with
    | nil =>
      cases e with
      | nil => rfl
      | cons y e => exact absurd (List.prefix_cons_iff.mp h) (by simp_all)
    | cons y name ih =>
      cases e with
      | nil =>
        rw [List.nil_append, List.cons_append, List.cons_prefix_cons] at h
        exact absurd h.1.symm (by simp_all)
      | cons z e =>
        rw [List.cons_append, List.cons_append, List.cons_prefix_cons] at h
        rw [h.1, ih (by simp_all) (by simp_all) h.2]
  · rintro rfl
    rw [List.append_cons e x v]
    exact List.prefix_append _ _

/-- The part of the query that starts with a name is what was written for the name. -/
theorem prefix_pair {name : String} (hname : encode name = name) (p : String × String) :
    name.toList ++ ['='] <+: pair p ↔ p.1 = name := by
  have hself : encodeText name.toList = name.toList :=
    encodeText_eq_self_iff.mpr (encode_eq_iff.mp hname)
  have hnot : '=' ∉ name.toList := by
    rw [← hself]
    exact (separator_not_mem _).2
  unfold pair
  rw [prefix_pair_iff hnot (separator_not_mem _).2]
  constructor
  · intro h
    rw [← hself] at h
    exact String.toList_inj.mp (encodeText_injective h)
  · intro h
    rw [h, hself]

/-! ## Giving a name a value -/

theorem set_ne_nil (params : List (String × String)) (name value : String) :
    set params name value ≠ [] := by
  cases params with
  | nil => simp [set]
  | cons p rest =>
    unfold set
    split <;> simp

/-- **What is found under the name** is the value it was given. -/
theorem find?_set (params : List (String × String)) (name value : String) :
    (set params name value).find? (fun p => decide (p.1 = name)) = some (name, value) := by
  induction params with
  | nil => simp [set]
  | cons p rest ih =>
    unfold set
    by_cases h : p.1 = name
    · rw [if_pos h]
      simp
    · rw [if_neg h, List.find?_cons_of_neg (by simpa using h)]
      exact ih

/-- **The first part of a query that starts with a name**, if it is written as itself, is what was
    written for the value the name was given. -/
theorem find?_serialize_set {name : String} (hname : encode name = name)
    (params : List (String × String)) (value : String) :
    ((serialize (set params name value)).toList.splitOn '&').find?
        (fun part => (name.toList ++ ['=']).isPrefixOf part) = some (pair (name, value)) := by
  rw [splitOn_serialize (set_ne_nil _ _ _), List.find?_map]
  have htest : (fun part : List Char => (name.toList ++ ['=']).isPrefixOf part) ∘ pair =
      fun p => decide (p.1 = name) := by
    funext p
    rw [Bool.eq_iff_iff, Function.comp_apply, List.isPrefixOf_iff_prefix, prefix_pair hname,
      decide_eq_true_iff]
  rw [htest, find?_set]
  rfl

end Lib.Form
