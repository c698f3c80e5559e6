import Mathlib.Data.List.TakeWhile
import Mathlib.Data.String.Basic

/-!
# Reading UTF-8 that may be broken

A lossy reader of UTF-8 puts a replacement character where bytes are no text: one for a character
that breaks off and one for each byte that begins none. A text that arrives in chunks, each of which
is read by itself, is broken wherever a chunk begins inside a character. **Such a character comes
out as two or more replacement characters, and every other as itself (`lossy_chunks`).**
-/

set_option autoImplicit false

namespace Lib.LossyUtf8

open String

/-! ## The reader -/

/-- What stands for bytes that are no text, U+FFFD. -/
def replacement : Char := '\uFFFD'

/-- A character of which some bytes have been read: its value so far, the number of bytes to come,
    and the bounds of the next one. -/
structure Pending where
  value : Nat
  missing : Nat
  lower : Nat
  upper : Nat

/-- Read the first byte of a character. -/
def start (b : UInt8) : List Char × Option Pending :=
  let n := b.toNat
  if n < 0x80 then ([Char.ofNat n], none)
  else if n < 0xC2 then ([replacement], none)
  else if n < 0xE0 then ([], some ⟨n - 0xC0, 1, 0x80, 0xBF⟩)
  else if n < 0xF0 then
    ([], some ⟨n - 0xE0, 2, if n = 0xE0 then 0xA0 else 0x80, if n = 0xED then 0x9F else 0xBF⟩)
  else if n < 0xF5 then
    ([], some ⟨n - 0xF0, 3, if n = 0xF0 then 0x90 else 0x80, if n = 0xF4 then 0x8F else 0xBF⟩)
  else ([replacement], none)

/-- Read one more byte. One that does not belong to the character ends it, and is read anew. -/
def next : Option Pending → UInt8 → List Char × Option Pending
  | none, b => start b
  | some p, b =>
    if p.lower ≤ b.toNat ∧ b.toNat ≤ p.upper then
      let value := p.value * 64 + (b.toNat - 0x80)
      if p.missing = 1 then ([Char.ofNat value], none)
      else ([], some ⟨value, p.missing - 1, 0x80, 0xBF⟩)
    else (replacement :: (start b).1, (start b).2)

/-- A character that breaks off. -/
def flush : Option Pending → List Char
  | none => []
  | some _ => [replacement]

def readFrom : Option Pending → List UInt8 → List Char
  | pending, [] => flush pending
  | pending, b :: bs => (next pending b).1 ++ readFrom (next pending b).2 bs

/-- `String::from_utf8_lossy`. -/
def fromUtf8Lossy (bs : List UInt8) : List Char := readFrom none bs

/-! ## Chunks -/

/-- For each byte of the chunks, whether a chunk begins with it. -/
def chunkStarts (chunks : List (List UInt8)) : List Bool :=
  chunks.flatMap fun
    | [] => []
    | _ :: bs => true :: bs.map fun _ => false

/-- A character that arrives in chunks, and how many of its bytes come after the first chunk that
    ends inside it. -/
structure Piece where
  char : Char
  late : Nat
  whole : char.utf8Size = 1 → late = 0

/-- What is read of it. -/
def Piece.read (p : Piece) : List Char :=
  if p.late = 0 then [p.char] else List.replicate (p.late + 1) replacement

/-- The characters of a text, given which of its bytes begin a chunk. -/
def pieces : List Bool → List Char → List Piece
  | _, [] => []
  | starts, c :: cs => {
      char := c
      late := ((starts.take c.utf8Size).tail.dropWhile (!·)).length
      whole := by
        intro h
        rw [h]
        cases starts <;> simp } :: pieces (starts.drop c.utf8Size) cs

theorem map_char_pieces (starts : List Bool) (cs : List Char) :
    (pieces starts cs).map Piece.char = cs := by
  induction cs generalizing starts with
  | nil => rfl
  | cons c cs ih =>
    rw [pieces, List.map_cons, ih]

/-! ## Marked bytes -/

/-- The bytes of the chunks, with a mark on each that begins a chunk. -/
def marked (chunks : List (List UInt8)) : List (Bool × UInt8) :=
  chunks.flatMap fun
    | [] => []
    | b :: bs => (true, b) :: bs.map (false, ·)

/-- Read marked bytes; what is pending at a mark breaks off there. -/
def readMarked : Option Pending → List (Bool × UInt8) → List Char
  | pending, [] => flush pending
  | pending, (true, b) :: bs => flush pending ++ ((start b).1 ++ readMarked (start b).2 bs)
  | pending, (false, b) :: bs => (next pending b).1 ++ readMarked (next pending b).2 bs

theorem map_fst_marked (chunks : List (List UInt8)) :
    (marked chunks).map Prod.fst = chunkStarts chunks := by
  rw [marked, chunkStarts, List.map_flatMap]
  congr 1
  funext chunk
  cases chunk with
  | nil => rfl
  | cons b bs => simp

theorem map_snd_marked (chunks : List (List UInt8)) :
    (marked chunks).map Prod.snd = chunks.flatten := by
  rw [marked, List.map_flatMap, ← List.flatMap_id]
  congr 1
  funext chunk
  cases chunk with
  | nil => rfl
  | cons b bs => simp

/-- What is pending before a chunk breaks off. -/
theorem readMarked_marked (pending : Option Pending) (chunks : List (List UInt8)) :
    readMarked pending (marked chunks) = flush pending ++ readMarked none (marked chunks) := by
  induction chunks with
  | nil => simp [marked, readMarked, flush]
  | cons chunk chunks ih =>
    cases chunk with
    | nil => exact ih
    | cons b bs => simp [marked, readMarked, flush]

theorem readMarked_chunk (pending : Option Pending) (bs : List UInt8)
    (chunks : List (List UInt8)) :
    readMarked pending (bs.map (false, ·) ++ marked chunks) =
      readFrom pending bs ++ readMarked none (marked chunks) := by
  induction bs generalizing pending with
  | nil => exact readMarked_marked pending chunks
  | cons b bs ih =>
    rw [List.map_cons, List.cons_append, readMarked, ih, readFrom, List.append_assoc]

/-- Reading the chunks by themselves is reading the marked bytes. -/
theorem flatMap_fromUtf8Lossy (chunks : List (List UInt8)) :
    chunks.flatMap fromUtf8Lossy = readMarked none (marked chunks) := by
  induction chunks with
  | nil => rfl
  | cons chunk chunks ih =>
    rw [List.flatMap_cons, ih]
    cases chunk with
    | nil => rfl
    | cons b bs =>
      have hchunk := readMarked_chunk (start b).2 bs chunks
      simp only [marked, List.flatMap_cons, List.cons_append] at hchunk ⊢
      rw [readMarked, hchunk, fromUtf8Lossy, readFrom, next]
      simp [flush]

/-! ## Reading a character -/

/-- The bytes bring a pending character to its end. -/
def Completes (c : Char) : Pending → List UInt8 → Prop
  | _, [] => False
  | p, [b] => next (some p) b = ([c], none)
  | p, b :: bs => ∃ q, next (some p) b = ([], some q) ∧ Completes c q bs

/-- How many bytes there are from the first mark on. -/
def late (marks : List (Bool × UInt8)) : Nat := ((marks.map Prod.fst).dropWhile (!·)).length

/-- Bytes that begin no character are replaced each. -/
theorem readMarked_replaced (bs rest : List (Bool × UInt8))
    (h : ∀ b ∈ bs, start b.2 = ([replacement], none)) :
    readMarked none (bs ++ rest) =
      List.replicate bs.length replacement ++ readMarked none rest := by
  induction bs with
  | nil => rfl
  | cons b bs ih =>
    obtain ⟨mark, b⟩ := b
    have hb : start b = ([replacement], none) := h _ List.mem_cons_self
    have hrest := ih fun b' hb' => h b' (List.mem_cons_of_mem _ hb')
    rw [List.length_cons, List.replicate_succ]
    cases mark with
    | true => simp [readMarked, flush, hb, hrest]
    | false => simp [readMarked, next, hb, hrest]

/-- **A pending character comes to its end unless one of its bytes is marked.** -/
theorem readMarked_pending {c : Char} {p : Pending} {bs rest : List (Bool × UInt8)}
    (hends : Completes c p (bs.map Prod.snd))
    (h : ∀ b ∈ bs, start b.2 = ([replacement], none)) :
    readMarked (some p) (bs ++ rest) =
      (if late bs = 0 then [c] else List.replicate (late bs + 1) replacement) ++
        readMarked none rest := by
  induction bs generalizing p with
  | nil => cases hends
  | cons b bs ih =>
    obtain ⟨mark, b⟩ := b
    have hb : start b = ([replacement], none) := h _ List.mem_cons_self
    have hbs : ∀ b' ∈ bs, start b'.2 = ([replacement], none) :=
      fun b' hb' => h b' (List.mem_cons_of_mem _ hb')
    cases mark with
    | true =>
      have hlate : late ((true, b) :: bs) = bs.length + 1 := by simp [late]
      rw [hlate, List.cons_append, readMarked, hb, readMarked_replaced bs rest hbs]
      simp [flush, List.replicate_succ]
    | false =>
      have hlate : late ((false, b) :: bs) = late bs := by simp [late]
      rw [hlate, List.cons_append, readMarked]
      cases bs with
      | nil =>
        have hnext : next (some p) b = ([c], none) := hends
        rw [hnext]
        simp [late]
      | cons b' bs =>
        obtain ⟨q, hnext, hq⟩ : ∃ q, next (some p) b = ([], some q) ∧
            Completes c q ((b' :: bs).map Prod.snd) := hends
        rw [hnext, List.nil_append]
        exact ih hq hbs

/-! ## The bytes of a character -/

section Bytes

variable {n : Nat}

/-- The first byte of a character of one byte. -/
theorem start_one (h : n < 0x80) : start (UInt8.ofNat n) = ([Char.ofNat n], none) := by
  have hn : (UInt8.ofNat n).toNat = n := by
    rw [UInt8.toNat_ofNat']
    omega
  rw [start, hn, if_pos h]

/-- A byte in the range of those that continue a character begins none. -/
theorem start_replaced (h : n < 0x40) :
    start (UInt8.ofNat (n + 0x80)) = ([replacement], none) := by
  have hn : (UInt8.ofNat (n + 0x80)).toNat = n + 0x80 := by
    rw [UInt8.toNat_ofNat']
    omega
  rw [start, hn, if_neg (by omega), if_pos (by omega)]

theorem start_two (h : 2 ≤ n) (h' : n < 0x20) :
    start (UInt8.ofNat (n + 0xC0)) = ([], some ⟨n, 1, 0x80, 0xBF⟩) := by
  have hn : (UInt8.ofNat (n + 0xC0)).toNat = n + 0xC0 := by
    rw [UInt8.toNat_ofNat']
    omega
  rw [start, hn, if_neg (by omega), if_neg (by omega), if_pos (by omega), Nat.add_sub_cancel]

theorem start_three (h : n < 0x10) :
    start (UInt8.ofNat (n + 0xE0)) = ([], some ⟨n, 2, if n = 0 then 0xA0 else 0x80,
      if n = 0xD then 0x9F else 0xBF⟩) := by
  have hn : (UInt8.ofNat (n + 0xE0)).toNat = n + 0xE0 := by
    rw [UInt8.toNat_ofNat']
    omega
  rw [start, hn, if_neg (by omega), if_neg (by omega), if_neg (by omega), if_pos (by omega),
    Nat.add_sub_cancel]
  simp

theorem start_four (h : n < 5) :
    start (UInt8.ofNat (n + 0xF0)) = ([], some ⟨n, 3, if n = 0 then 0x90 else 0x80,
      if n = 4 then 0x8F else 0xBF⟩) := by
  have hn : (UInt8.ofNat (n + 0xF0)).toNat = n + 0xF0 := by
    rw [UInt8.toNat_ofNat']
    omega
  rw [start, hn, if_neg (by omega), if_neg (by omega), if_neg (by omega), if_neg (by omega),
    if_pos (by omega), Nat.add_sub_cancel]
  simp

variable {p : Pending} (h : p.lower ≤ n + 0x80) (h' : n + 0x80 ≤ p.upper) (hn : n < 0x40)
include h h' hn

theorem next_within : next (some p) (UInt8.ofNat (n + 0x80)) =
    if p.missing = 1 then ([Char.ofNat (p.value * 64 + n)], none)
    else ([], some ⟨p.value * 64 + n, p.missing - 1, 0x80, 0xBF⟩) := by
  have hbyte : (UInt8.ofNat (n + 0x80)).toNat = n + 0x80 := by
    rw [UInt8.toNat_ofNat']
    omega
  rw [next, hbyte, if_pos ⟨h, h'⟩, Nat.add_sub_cancel]

theorem next_last (hlast : p.missing = 1) :
    next (some p) (UInt8.ofNat (n + 0x80)) = ([Char.ofNat (p.value * 64 + n)], none) := by
  rw [next_within h h' hn, if_pos hlast]

theorem next_inner (hinner : p.missing ≠ 1) :
    next (some p) (UInt8.ofNat (n + 0x80)) =
      ([], some ⟨p.value * 64 + n, p.missing - 1, 0x80, 0xBF⟩) := by
  rw [next_within h h' hn, if_neg hinner]

end Bytes

/-- A character of one byte is read at once. -/
theorem start_of_size_one {c : Char} (h : c.utf8Size = 1) :
    ∃ b, utf8EncodeChar c = [b] ∧ start b = ([c], none) := by
  have hv : c.val.toNat ≤ 0x7F := Char.utf8Size_eq_one_iff.mp h
  refine ⟨UInt8.ofNat c.val.toNat, if_pos hv, ?_⟩
  rw [start_one (by omega)]
  exact congrArg (fun c => ([c], none)) (Char.ofNat_toNat c)

/-- A character is pending after its first byte, the others bring it to its end, and none of them
    begins a character. -/
def ReadInSteps (c : Char) : Prop :=
  ∃ b bs p, utf8EncodeChar c = b :: bs ∧ start b = ([], some p) ∧ Completes c p bs ∧
    ∀ b' ∈ bs, start b' = ([replacement], none)

section Longer

variable {c : Char} (hlong : ¬ c.val.toNat ≤ 0x7F)
include hlong

theorem readInSteps_two (h : c.val.toNat ≤ 0x7FF) : ReadInSteps c := by
  have hc : Char.ofNat c.val.toNat = c := Char.ofNat_toNat c
  have henc : utf8EncodeChar c = [UInt8.ofNat (c.val.toNat / 64 % 0x20 + 0xC0),
      UInt8.ofNat (c.val.toNat % 0x40 + 0x80)] := (if_neg hlong).trans (if_pos h)
  generalize c.val.toNat = v at *
  have hlast : v % 0x40 < 0x40 := Nat.mod_lt v (by omega)
  refine ⟨_, _, _, henc, start_two (by omega) (by omega), ?_, ?_⟩
  · show next _ _ = _
    rw [next_last (by simp) (by simp; omega) hlast rfl]
    have hv : v / 64 % 0x20 * 64 + v % 0x40 = v := by omega
    rw [hv, hc]
  · intro b hb
    rw [List.mem_singleton.mp hb]
    exact start_replaced hlast

theorem readInSteps_three (h : ¬ c.val.toNat ≤ 0x7FF) (h' : c.val.toNat ≤ 0xFFFF) :
    ReadInSteps c := by
  have hc : Char.ofNat c.val.toNat = c := Char.ofNat_toNat c
  -- the bounds of the second byte keep out shorter encodings and surrogates
  have hvalid : c.val.toNat < 0xD800 ∨ 0xDFFF < c.val.toNat ∧ c.val.toNat < 0x110000 := c.valid
  have henc : utf8EncodeChar c = [UInt8.ofNat (c.val.toNat / 4096 % 0x10 + 0xE0),
      UInt8.ofNat (c.val.toNat / 64 % 0x40 + 0x80), UInt8.ofNat (c.val.toNat % 0x40 + 0x80)] :=
    (if_neg hlong).trans ((if_neg h).trans (if_pos h'))
  generalize c.val.toNat = v at *
  have hlast : v % 0x40 < 0x40 := Nat.mod_lt v (by omega)
  have hmiddle : v / 64 % 0x40 < 0x40 := Nat.mod_lt _ (by omega)
  refine ⟨_, _, _, henc, start_three (by omega), ?_, ?_⟩
  · refine ⟨_, next_inner ?_ ?_ hmiddle (by simp), ?_⟩
    · show (if _ then _ else _) ≤ _
      split
      · omega
      · omega
    · show _ ≤ (if _ then _ else _)
      split
      · omega
      · omega
    · show next _ _ = _
      rw [next_last (by simp) (by simp; omega) hlast rfl]
      have hv : (v / 4096 % 0x10 * 64 + v / 64 % 0x40) * 64 + v % 0x40 = v := by omega
      rw [hv, hc]
  · intro b hb
    rcases List.mem_pair.mp hb with rfl | rfl
    · exact start_replaced hmiddle
    · exact start_replaced hlast

theorem readInSteps_four (h : ¬ c.val.toNat ≤ 0x7FF) (h' : ¬ c.val.toNat ≤ 0xFFFF) :
    ReadInSteps c := by
  have hc : Char.ofNat c.val.toNat = c := Char.ofNat_toNat c
  have hvalid : c.val.toNat < 0xD800 ∨ 0xDFFF < c.val.toNat ∧ c.val.toNat < 0x110000 := c.valid
  have henc : utf8EncodeChar c = [UInt8.ofNat (c.val.toNat / 262144 % 0x08 + 0xF0),
      UInt8.ofNat (c.val.toNat / 4096 % 0x40 + 0x80), UInt8.ofNat (c.val.toNat / 64 % 0x40 + 0x80),
      UInt8.ofNat (c.val.toNat % 0x40 + 0x80)] :=
    (if_neg hlong).trans ((if_neg h).trans (if_neg h'))
  generalize c.val.toNat = v at *
  have hlast : v % 0x40 < 0x40 := Nat.mod_lt v (by omega)
  have hthird : v / 64 % 0x40 < 0x40 := Nat.mod_lt _ (by omega)
  have hsecond : v / 4096 % 0x40 < 0x40 := Nat.mod_lt _ (by omega)
  refine ⟨_, _, _, henc, start_four (by omega), ?_, ?_⟩
  · refine ⟨_, next_inner ?_ ?_ hsecond (by simp), _,
      next_inner (by simp) (by simp; omega) hthird (by simp), ?_⟩
    · show (if _ then _ else _) ≤ _
      split
      · omega
      · omega
    · show _ ≤ (if _ then _ else _)
      split
      · omega
      · omega
    · show next _ _ = _
      rw [next_last (by simp) (by simp; omega) hlast rfl]
      have hv : ((v / 262144 % 0x08 * 64 + v / 4096 % 0x40) * 64 + v / 64 % 0x40) * 64 +
          v % 0x40 = v := by omega
      rw [hv, hc]
  · intro b hb
    rcases List.mem_cons.mp hb with rfl | hb
    · exact start_replaced hsecond
    · rcases List.mem_pair.mp hb with rfl | rfl
      · exact start_replaced hthird
      · exact start_replaced hlast

end Longer

theorem readInSteps_of_size_ne_one {c : Char} (h : c.utf8Size ≠ 1) : ReadInSteps c := by
  have hlong : ¬ c.val.toNat ≤ 0x7F := fun hv => h (Char.utf8Size_eq_one_iff.mpr hv)
  by_cases htwo : c.val.toNat ≤ 0x7FF
  · exact readInSteps_two hlong htwo
  · by_cases hthree : c.val.toNat ≤ 0xFFFF
    · exact readInSteps_three hlong htwo hthree
    · exact readInSteps_four hlong htwo hthree

/-! ## Reading a text -/

/-- The bytes of a character are read as its piece. -/
theorem readMarked_char {c : Char} {bs rest : List (Bool × UInt8)}
    (h : bs.map Prod.snd = utf8EncodeChar c) :
    readMarked none (bs ++ rest) =
      (if late bs.tail = 0 then [c] else List.replicate (late bs.tail + 1) replacement) ++
        readMarked none rest := by
  by_cases hone : c.utf8Size = 1
  · obtain ⟨b, henc, hb⟩ := start_of_size_one hone
    obtain ⟨⟨mark, b'⟩, rfl, rfl⟩ := List.map_eq_singleton_iff.mp (h.trans henc)
    cases mark with
    | true => simp [readMarked, flush, hb, late]
    | false => simp [readMarked, next, hb, late]
  · obtain ⟨b, bs', p, henc, hb, hends, hbs⟩ := readInSteps_of_size_ne_one hone
    obtain ⟨⟨mark, b'⟩, bs, rfl, rfl, rfl⟩ := List.map_eq_cons_iff.mp (h.trans henc)
    have hstart : ∀ m ∈ bs, start m.2 = ([replacement], none) :=
      fun m hm => hbs m.2 (List.mem_map_of_mem hm)
    have hread : readMarked (some p) (bs ++ rest) = _ := readMarked_pending hends hstart
    cases mark with
    | true =>
      rw [List.cons_append, readMarked, hb]
      exact hread
    | false =>
      rw [List.cons_append, readMarked, next, hb]
      exact hread

theorem readMarked_text {bs : List (Bool × UInt8)} {cs : List Char}
    (h : bs.map Prod.snd = cs.flatMap utf8EncodeChar) :
    readMarked none bs = (pieces (bs.map Prod.fst) cs).flatMap Piece.read := by
  induction cs generalizing bs with
  | nil =>
    obtain rfl := List.map_eq_nil_iff.mp h
    rfl
  | cons c cs ih =>
    obtain ⟨bs₁, bs₂, rfl, h₁, h₂⟩ := List.map_eq_append_iff.mp h
    have hlength : bs₁.length = c.utf8Size := by
      rw [← length_utf8EncodeChar, ← h₁, List.length_map]
    have htake : ((bs₁ ++ bs₂).map Prod.fst).take c.utf8Size = bs₁.map Prod.fst := by
      rw [List.map_append, List.take_left' (by simpa using hlength)]
    have hdrop : ((bs₁ ++ bs₂).map Prod.fst).drop c.utf8Size = bs₂.map Prod.fst := by
      rw [List.map_append, List.drop_left' (by simpa using hlength)]
    rw [readMarked_char h₁, ih h₂, pieces, List.flatMap_cons, hdrop]
    simp only [Piece.read, htake, late, List.map_tail]

/-- **A text that arrives in chunks is read piece by piece**: a character that no chunk begins in
    as itself, any other as two or more replacement characters. -/
theorem lossy_chunks {chunks : List (List UInt8)} {cs : List Char}
    (h : chunks.flatten = cs.flatMap utf8EncodeChar) :
    chunks.flatMap fromUtf8Lossy = (pieces (chunkStarts chunks) cs).flatMap Piece.read := by
  rw [flatMap_fromUtf8Lossy, ← map_fst_marked]
  exact readMarked_text ((map_snd_marked chunks).trans h)

theorem flatMap_read_pieces {starts : List Bool} (cs : List Char)
    (h : ∀ b ∈ starts, b = false) : (pieces starts cs).flatMap Piece.read = cs := by
  induction cs generalizing starts with
  | nil => rfl
  | cons c cs ih =>
    have hlate : (starts.take c.utf8Size).tail.dropWhile (!·) = [] := by
      rw [List.dropWhile_eq_nil_iff]
      intro b hb
      rw [h b (List.mem_of_mem_take (List.mem_of_mem_tail hb))]
      rfl
    rw [pieces, List.flatMap_cons, ih fun b hb => h b (List.mem_of_mem_drop hb)]
    simp [Piece.read, hlate]

/-- A text that arrives whole is read as itself. -/
theorem fromUtf8Lossy_encode (cs : List Char) :
    fromUtf8Lossy (cs.flatMap utf8EncodeChar) = cs := by
  have hunmarked := readMarked_chunk none (cs.flatMap utf8EncodeChar) []
  have hbytes : ((cs.flatMap utf8EncodeChar).map (false, ·)).map Prod.snd =
      cs.flatMap utf8EncodeChar := by simp
  have hread := readMarked_text hbytes
  simp only [marked, List.flatMap_nil, List.append_nil, readMarked, flush] at hunmarked
  rw [fromUtf8Lossy, ← hunmarked, hread]
  exact flatMap_read_pieces cs (by simp)

/-- A character that breaks off is replaced once, and the byte after it is read anew. -/
example : fromUtf8Lossy [0x48, 0xF0, 0x90, 0x80, 0x57, 0xE0, 0x80] =
    ['H', replacement, 'W', replacement, replacement] := by decide

end Lib.LossyUtf8
