import Mathlib.Algebra.Order.BigOperators.Group.List
import Mathlib.Algebra.Order.Ring.Nat
import PaciNet.Lib.Splitting
import PaciNet.Lib.Trimming
import PaciNet.Sim.Main

/-!
# Events out of chunks

The proxy keeps what follows the last newline for the next chunk, so lines are put together
however they are cut. But it reads every chunk as UTF-8 by itself. **The events do not depend on the
chunks if and only if no chunk begins inside a character of a line that is passed on**
(`chunkIndependent_iff`): a line with data, or the last that names the event, of a block that is
ended by a blank line. A character that is cut comes out as two or more others, and no trimming
makes up for it.
-/

set_option autoImplicit false

namespace PaciNet.Sim

open Lib.LossyUtf8 Lib.Splitting Lib.Trimming

/-! ## The law -/

/-- The chunks give the events of the text they make up. -/
def ChunkIndependent (text : List Char) (chunks : List (List UInt8)) : Prop :=
  proxyPacinetSse (chunks.map .ok) = proxyPacinetSse [.ok (text.flatMap String.utf8EncodeChar)]

/-- The characters of a line begin with a field name. -/
def HasField (name : String) (line : List Piece) : Prop := name.toList <+: line.map Piece.char

instance (name : String) : DecidablePred (HasField name) := fun line =>
  inferInstanceAs (Decidable (name.toList <+: line.map Piece.char))

/-- The lines that have ended, without the carriage returns before the newline. -/
def endedLines (ps : List Piece) : List (List Piece) :=
  (ps.splitOnP (·.char == '\n')).dropLast.map (List.rdropWhile (·.char == '\r'))

/-- The blocks that a blank line has ended. -/
def endedBlocks (ps : List Piece) : List (List (List Piece)) :=
  ((endedLines ps).splitOnP List.isEmpty).dropLast

/-- The lines of a block that are passed on. -/
def passedOnLines (block : List (List Piece)) : List (List Piece) :=
  block.filter (HasField "data:" ·) ++ (block.filter (HasField "event:" ·)).getLast?.toList

/-- No chunk begins inside a character that is passed on. -/
def PassedOnWhole (text : List Char) (chunks : List (List UInt8)) : Prop :=
  ∀ block ∈ endedBlocks (pieces (chunkStarts chunks) text), ∀ line ∈ passedOnLines block,
    ∀ p ∈ line, p.late = 0

/-! ## Chunks are texts -/

theorem readLines_append (s : SseProxy) (lines lines' : List (List Char)) :
    readLines s (lines ++ lines') =
      ((readLines s lines).1 ++ (readLines (readLines s lines).2 lines').1,
        (readLines (readLines s lines).2 lines').2) := by
  induction lines generalizing s with
  | nil => simp [readLines]
  | cons line lines ih => simp [readLines, ih]

/-- The lines do not look at the buffer. -/
theorem readLine_buffer (s : SseProxy) (line buffer : List Char) :
    readLine { s with buffer := buffer } line =
      ((readLine s line).1, { (readLine s line).2 with buffer := buffer }) := by
  unfold readLine
  split
  · split <;> rfl
  · split
    · rfl
    · split <;> rfl

theorem readLines_buffer (s : SseProxy) (lines : List (List Char)) (buffer : List Char) :
    readLines { s with buffer := buffer } lines =
      ((readLines s lines).1, { (readLines s lines).2 with buffer := buffer }) := by
  induction lines generalizing s with
  | nil => rfl
  | cons line lines ih => simp [readLines, readLine_buffer, ih]

/-- What is read in two texts is what is read in both together. -/
theorem readText_append (s : SseProxy) (text text' : List Char) :
    readText s (text ++ text') =
      ((readText s text).1 ++ (readText (readText s text).2 text').1,
        (readText (readText s text).2 text').2) := by
  have hne (l : List Char) : l.splitOn '\n' ≠ [] := List.splitOn_ne_nil _ _
  have hparts : (s.buffer ++ (text ++ text')).splitOn '\n' =
      ((s.buffer ++ text).splitOn '\n').dropLast ++
        (((s.buffer ++ text).splitOn '\n').getLastD [] ++ text').splitOn '\n' := by
    simp only [List.splitOn_eq_splitOnP]
    rw [← List.append_assoc]
    exact splitOnP_append
  have hlast (l l' : List (List Char)) (h : l' ≠ []) : (l ++ l').getLastD [] = l'.getLastD [] := by
    rw [List.getLastD_eq_getLast?, List.getLastD_eq_getLast?, List.getLast?_append_of_ne_nil _ h]
  simp only [readText, hparts, List.dropLast_append_of_ne_nil (hne _), hlast _ _ (hne _),
    readLines_append, readLines_buffer]

/-- What stays in the buffer has no newline. -/
theorem newline_notMem_buffer (s : SseProxy) (text : List Char) :
    '\n' ∉ (readText s text).2.buffer := by
  have hlast : ((s.buffer ++ text).splitOn '\n').getLastD [] ∈ (s.buffer ++ text).splitOn '\n' := by
    rw [List.getLastD_eq_getLast?, List.getLast?_eq_some_getLast (List.splitOn_ne_nil _ _)]
    exact List.getLast_mem _
  simp only [readText, readLines_buffer]
  intro hmem
  rw [List.splitOn_eq_splitOnP] at hlast hmem
  simpa using forall_of_mem_splitOnP hlast _ hmem

theorem readText_nil {s : SseProxy} (h : '\n' ∉ s.buffer) : (readText s []).1 = [] := by
  simp [readText, List.splitOn_eq_singleton h, readLines]

/-- **The events are those of what the chunks are read as, put together.** -/
theorem proxyFrom_chunks {s : SseProxy} (h : '\n' ∉ s.buffer) (chunks : List (List UInt8)) :
    proxyFrom s (chunks.map .ok) = (readText s (chunks.flatMap fromUtf8Lossy)).1 := by
  induction chunks generalizing s with
  | nil => exact (readText_nil h).symm
  | cons chunk chunks ih =>
    rw [List.flatMap_cons, readText_append, ← ih (newline_notMem_buffer s _)]
    rfl

theorem proxyPacinetSse_chunks (chunks : List (List UInt8)) :
    proxyPacinetSse (chunks.map .ok) = (readText .new (chunks.flatMap fromUtf8Lossy)).1 :=
  proxyFrom_chunks (by simp [SseProxy.new]) chunks

/-! ## Blocks -/

/-- The name a line gives to the event, and the data it adds. -/
def nameOf (line : List Char) : Option (List Char) :=
  (stripPrefix ['e', 'v', 'e', 'n', 't', ':'] line).map trim

def dataOf (line : List Char) : Option (List Char) :=
  match nameOf line with
  | some _ => none
  | none => (stripPrefix ['d', 'a', 't', 'a', ':'] line).map trimStart

/-- The variables after the lines of a block. -/
def afterLines (block : List (List Char)) : SseProxy :=
  ⟨[], block.filterMap dataOf, (block.filterMap nameOf).getLast?⟩

/-- The event of a block that has ended, if it says anything. -/
def eventOf (block : List (List Char)) : Option Event :=
  if (afterLines block).dataLines ≠ [] ∨ (afterLines block).eventName.isSome then
    some (afterLines block).toEvent
  else none

theorem readLine_blank (block : List (List Char)) :
    readLine (afterLines block) [] = ((eventOf block).toList, afterLines []) := by
  unfold readLine eventOf
  rw [if_pos rfl]
  by_cases h : (afterLines block).dataLines ≠ [] ∨ (afterLines block).eventName.isSome
  · rw [if_pos h, if_pos h]
    rfl
  · rw [if_neg h, if_neg h]
    have hdata : (afterLines block).dataLines = [] := by
      by_contra hne
      exact h (.inl hne)
    have hname : (afterLines block).eventName = none := by
      cases hlast : (afterLines block).eventName with
      | none => rfl
      | some name => exact absurd (.inr (by rw [hlast]; rfl)) h
    have hsame : afterLines block =
        ⟨[], (afterLines block).dataLines, (afterLines block).eventName⟩ := rfl
    rw [hsame, hdata, hname]
    rfl

theorem readLine_line (block : List (List Char)) {line : List Char} (h : line ≠ []) :
    readLine (afterLines block) line = ([], afterLines (block ++ [line])) := by
  unfold readLine afterLines
  rw [if_neg h, List.filterMap_append, List.filterMap_append]
  cases hname : stripPrefix ['e', 'v', 'e', 'n', 't', ':'] line with
  | some rest => simp [nameOf, dataOf, hname]
  | none =>
    cases hdata : stripPrefix ['d', 'a', 't', 'a', ':'] line with
    | some rest => simp [nameOf, dataOf, hname, hdata]
    | none => simp [nameOf, dataOf, hname, hdata]

/-- **Each block that has ended gives its event.** -/
theorem readLines_blocks (block lines : List (List Char)) :
    (readLines (afterLines block) lines).1 =
      (((lines.map trimReturns).splitOnP List.isEmpty).modifyHead (block ++ ·)).dropLast.filterMap
        eventOf := by
  induction lines generalizing block with
  | nil => simp [readLines]
  | cons line lines ih =>
    obtain ⟨first, blocks, hblocks⟩ := List.exists_cons_of_ne_nil
      (List.splitOnP_ne_nil List.isEmpty (lines.map trimReturns))
    simp only [readLines, List.map_cons, List.splitOnP_cons_eq_if_modifyHead]
    by_cases hblank : trimReturns line = []
    · have hrest := ih []
      rw [hblocks] at hrest ⊢
      rw [hblank, readLine_blank, hrest]
      cases hevent : eventOf block with
      | none => simp [hevent]
      | some e => simp [hevent]
    · have hrest := ih (block ++ [trimReturns line])
      rw [hblocks] at hrest ⊢
      rw [readLine_line block hblank, hrest]
      simp [List.isEmpty_iff, hblank]

/-- The events of a text. -/
theorem readText_new (text : List Char) :
    (readText .new text).1 =
      (((text.splitOn '\n').dropLast.map trimReturns).splitOnP List.isEmpty).dropLast.filterMap
        eventOf := by
  have hlines := readLines_blocks [] (text.splitOn '\n').dropLast
  obtain ⟨first, blocks, hblocks⟩ := List.exists_cons_of_ne_nil
    (List.splitOnP_ne_nil List.isEmpty ((text.splitOn '\n').dropLast.map trimReturns))
  rw [hblocks] at hlines ⊢
  show (readLines { afterLines [] with buffer := _ } (text.splitOn '\n').dropLast).1 = _
  rw [readLines_buffer]
  exact hlines

/-! ## Pieces written out -/

/-- A way to write pieces out that keeps the characters of one byte and writes no others as such. -/
structure Rendering (f : Piece → List Char) : Prop where
  ascii : ∀ p, p.char.utf8Size = 1 → f p = [p.char]
  other : ∀ p, p.char.utf8Size ≠ 1 → f p ≠ [] ∧ ∀ c ∈ f p, c.utf8Size ≠ 1

theorem rendering_char : Rendering fun p => [p.char] where
  ascii _ _ := rfl
  other p h := by simpa using h

theorem rendering_read : Rendering Piece.read where
  ascii p h := by simp [Piece.read, p.whole h]
  other p h := by
    unfold Piece.read
    split
    · simpa using h
    · refine ⟨by simp, fun c hc => ?_⟩
      rw [List.eq_of_mem_replicate hc]
      decide

section Rendering

variable {f : Piece → List Char} (hf : Rendering f)
include hf

theorem Rendering.ne_nil (p : Piece) : f p ≠ [] := by
  by_cases h : p.char.utf8Size = 1
  · rw [hf.ascii p h]
    exact List.cons_ne_nil _ _
  · exact (hf.other p h).1

theorem Rendering.flatMap_eq_nil {ps : List Piece} : ps.flatMap f = [] ↔ ps = [] := by
  rw [List.flatMap_eq_nil_iff]
  constructor
  · intro h
    exact List.eq_nil_iff_forall_not_mem.mpr fun p hp => hf.ne_nil p (h p hp)
  · rintro rfl p hp
    cases hp

/-- A character of one byte is written where it is read, and nowhere else. -/
theorem Rendering.beq {c : Char} (hc : c.utf8Size = 1) (p : Piece) :
    ∀ d ∈ f p, (d == c) = (p.char == c) := by
  intro d hd
  by_cases h : p.char.utf8Size = 1
  · rw [hf.ascii p h, List.mem_singleton] at hd
    rw [hd]
  · have hpc : p.char ≠ c := fun heq => h (heq ▸ hc)
    have hdc : d ≠ c := fun heq => (hf.other p h).2 d hd (heq ▸ hc)
    simp [hpc, hdc]

theorem Rendering.splitOn (ps : List Piece) :
    (ps.flatMap f).splitOn '\n' = (ps.splitOnP (·.char == '\n')).map (List.flatMap f) := by
  rw [List.splitOn_eq_splitOnP]
  refine splitOnP_flatMap (fun p hp => ?_) (fun p hp d hd => ?_) ps
  · have hchar : p.char = '\n' := by simpa using hp
    refine ⟨'\n', ?_, by simp⟩
    rw [hf.ascii p (by rw [hchar]; decide), hchar]
  · rw [hf.beq (by decide) p d hd]
    exact hp

theorem Rendering.trimReturns (ps : List Piece) :
    trimReturns (ps.flatMap f) = (ps.rdropWhile (·.char == '\r')).flatMap f :=
  rdropWhile_flatMap (hf.beq (by decide)) hf.ne_nil ps

theorem Rendering.stripPrefix {pre : List Char} (hpre : ∀ c ∈ pre, c.utf8Size = 1)
    (ps : List Piece) :
    stripPrefix pre (ps.flatMap f) =
      if pre <+: ps.map Piece.char then some ((ps.drop pre.length).flatMap f) else none := by
  induction pre generalizing ps with
  | nil => simp [Sim.stripPrefix]
  | cons c pre ih =>
    have hc : c.utf8Size = 1 := hpre c List.mem_cons_self
    have hrest := ih fun c' hc' => hpre c' (List.mem_cons_of_mem _ hc')
    cases ps with
    | nil => simp [Sim.stripPrefix]
    | cons p ps =>
      rw [List.length_cons, List.drop_succ_cons, List.flatMap_cons]
      obtain ⟨d, ds, hd⟩ := List.exists_cons_of_ne_nil (hf.ne_nil p)
      have hbeq : (d == c) = (p.char == c) := hf.beq hc p d (by rw [hd]; exact List.mem_cons_self)
      by_cases hp : p.char = c
      · have hsingle : f p = [c] := by rw [hf.ascii p (hp ▸ hc), hp]
        simp [hsingle, Sim.stripPrefix, hrest, hp, List.cons_prefix_cons]
      · have hdc : d ≠ c := by simpa [hp] using hbeq
        have hcp : c ≠ p.char := fun h => hp h.symm
        simp [hd, Sim.stripPrefix, hdc, hcp, List.cons_prefix_cons]

/-- The events of pieces, however they are written out. -/
theorem Rendering.events (ps : List Piece) :
    (readText .new (ps.flatMap f)).1 =
      (endedBlocks ps).filterMap fun block => eventOf (block.map (List.flatMap f)) := by
  have hlines : (((ps.flatMap f).splitOn '\n').dropLast.map Sim.trimReturns) =
      (endedLines ps).map (List.flatMap f) := by
    rw [hf.splitOn, ← List.map_dropLast, endedLines, List.map_map, List.map_map]
    congr 1
    funext line
    exact hf.trimReturns line
  have hblank : (fun line : List Piece => (line.flatMap f).isEmpty) = List.isEmpty := by
    funext line
    rw [Bool.eq_iff_iff, List.isEmpty_iff, List.isEmpty_iff, hf.flatMap_eq_nil]
  rw [readText_new, hlines, splitOnP_map, hblank, ← List.map_dropLast, List.filterMap_map]
  rfl

end Rendering

/-! ## What a cut does -/

/-- White space that no chunk begins in. -/
def wholeSpace (p : Piece) : Bool := p.late == 0 && isWhitespace p.char

theorem isWhitespace_read (p : Piece) : ∀ c ∈ p.read, isWhitespace c = wholeSpace p := by
  intro c hc
  unfold Piece.read at hc
  split at hc
  · rename_i hwhole
    rw [List.mem_singleton.mp hc]
    simp [wholeSpace, hwhole]
  · rename_i hlate
    have hreplaced : isWhitespace replacement = false := by decide
    rw [List.eq_of_mem_replicate hc, hreplaced]
    simp [wholeSpace, hlate]

theorem isWhitespace_char (p : Piece) : ∀ c ∈ [p.char], isWhitespace c = isWhitespace p.char := by
  intro c hc
  rw [List.mem_singleton.mp hc]

theorem isWhitespace_of_space (p : Piece) (h : wholeSpace p = true) : isWhitespace p.char = true :=
  (Bool.and_eq_true_iff.mp h).2

section Cut

variable {ps : List Piece}

theorem one_lt_length_read {p : Piece} (h : p.late ≠ 0) : 1 < p.read.length := by
  rw [Piece.read, if_neg h, List.length_replicate]
  omega

theorem flatMap_read_of_whole (h : ∀ p ∈ ps, p.late = 0) :
    ps.flatMap Piece.read = ps.flatMap fun p => [p.char] := by
  induction ps with
  | nil => rfl
  | cons p ps ih =>
    rw [List.flatMap_cons, List.flatMap_cons, ih fun p' hp' => h p' (List.mem_cons_of_mem _ hp'),
      Piece.read, if_pos (h p List.mem_cons_self)]

theorem length_flatMap_char (ps : List Piece) :
    (ps.flatMap fun p => [p.char]).length = ps.length := by
  rw [← List.map_eq_flatMap, List.length_map]

/-- **What is left after trimming is longer if a character has been cut**, even where that one
    would have been trimmed. -/
theorem length_trimStart_lt {p : Piece} (hp : p ∈ ps) (hlate : p.late ≠ 0) :
    (trimStart (ps.flatMap fun p => [p.char])).length <
      (trimStart (ps.flatMap Piece.read)).length := by
  have hread : trimStart (ps.flatMap Piece.read) = (ps.dropWhile wholeSpace).flatMap Piece.read :=
    dropWhile_flatMap isWhitespace_read rendering_read.ne_nil ps
  have hchar : trimStart (ps.flatMap fun p => [p.char]) =
      (ps.dropWhile fun p => isWhitespace p.char).flatMap fun p => [p.char] :=
    dropWhile_flatMap isWhitespace_char rendering_char.ne_nil ps
  have hless := (dropWhile_sublist_dropWhile isWhitespace_of_space ps).length_le
  have hspace : wholeSpace p = false := by simp [wholeSpace, hlate]
  have hlonger := length_lt_flatMap rendering_read.ne_nil (mem_dropWhile hp hspace)
    (one_lt_length_read hlate)
  rw [hread, hchar, length_flatMap_char]
  exact Nat.lt_of_le_of_lt hless hlonger

theorem length_trim_lt {p : Piece} (hp : p ∈ ps) (hlate : p.late ≠ 0) :
    (PaciNet.trim (ps.flatMap fun p => [p.char])).length <
      (PaciNet.trim (ps.flatMap Piece.read)).length := by
  have hread : PaciNet.trim (ps.flatMap Piece.read) =
      (Lib.Trimming.trim wholeSpace ps).flatMap Piece.read :=
    trim_flatMap isWhitespace_read rendering_read.ne_nil ps
  have hchar : PaciNet.trim (ps.flatMap fun p => [p.char]) =
      (Lib.Trimming.trim (fun p => isWhitespace p.char) ps).flatMap fun p => [p.char] :=
    trim_flatMap isWhitespace_char rendering_char.ne_nil ps
  have hless := (trim_sublist_trim isWhitespace_of_space ps).length_le
  have hspace : wholeSpace p = false := by simp [wholeSpace, hlate]
  have hlonger := length_lt_flatMap rendering_read.ne_nil (mem_trim hp hspace)
    (one_lt_length_read hlate)
  rw [hread, hchar, length_flatMap_char]
  exact Nat.lt_of_le_of_lt hless hlonger

theorem length_trimStart_le (ps : List Piece) :
    (trimStart (ps.flatMap fun p => [p.char])).length ≤
      (trimStart (ps.flatMap Piece.read)).length := by
  by_cases h : ∃ p ∈ ps, p.late ≠ 0
  · obtain ⟨p, hp, hlate⟩ := h
    exact (length_trimStart_lt hp hlate).le
  · push Not at h
    rw [flatMap_read_of_whole h]

end Cut

/-! ## Events -/

theorem filterMap_ite {α β : Type} (P : α → Prop) [DecidablePred P] (g : α → β) (xs : List α) :
    (xs.filterMap fun x => if P x then some (g x) else none) = (xs.filter (P ·)).map g := by
  induction xs with
  | nil => rfl
  | cons x xs ih =>
    by_cases h : P x
    · simp [h, ih]
    · simp [h, ih]

/-- A line has one field. -/
theorem not_hasField_data {line : List Piece} (h : HasField "event:" line) :
    ¬ HasField "data:" line := by
  intro hdata
  cases line with
  | nil => exact absurd (List.prefix_nil.mp h) (by decide)
  | cons p line =>
    have hevent : 'e' = p.char := (List.cons_prefix_cons.mp h).1
    have hd : 'd' = p.char := (List.cons_prefix_cons.mp hdata).1
    exact absurd (hevent.trans hd.symm) (by decide)

/-- The names of fields are in letters of one byte. -/
theorem eventLetters : ∀ c ∈ "event:".toList, c.utf8Size = 1 := by
  simp [Char.utf8Size]

theorem dataLetters : ∀ c ∈ "data:".toList, c.utf8Size = 1 := by
  simp [Char.utf8Size]

section Events

variable {f : Piece → List Char} (hf : Rendering f)
include hf

theorem Rendering.nameOf (line : List Piece) :
    nameOf (line.flatMap f) =
      if HasField "event:" line then some (PaciNet.trim ((line.drop 6).flatMap f)) else none := by
  have hstrip := hf.stripPrefix eventLetters line
  show (Sim.stripPrefix "event:".toList (line.flatMap f)).map PaciNet.trim = _
  rw [hstrip, apply_ite (Option.map PaciNet.trim)]
  rfl

theorem Rendering.dataOf (line : List Piece) :
    dataOf (line.flatMap f) =
      if HasField "data:" line then some (trimStart ((line.drop 5).flatMap f)) else none := by
  have hstrip := hf.stripPrefix dataLetters line
  rw [Sim.dataOf, hf.nameOf]
  by_cases hname : HasField "event:" line
  · simp [hname, not_hasField_data hname]
  · rw [if_neg hname]
    show (Sim.stripPrefix "data:".toList (line.flatMap f)).map trimStart = _
    rw [hstrip, apply_ite (Option.map trimStart)]
    rfl

/-- The lines of a block with data, and the last that names the event. -/
def dataLinesOf (block : List (List Piece)) : List (List Piece) :=
  block.filter (HasField "data:" ·)

def nameLineOf (block : List (List Piece)) : Option (List Piece) :=
  (block.filter (HasField "event:" ·)).getLast?

theorem Rendering.eventOf (block : List (List Piece)) :
    eventOf (block.map (List.flatMap f)) =
      if dataLinesOf block ≠ [] ∨ (nameLineOf block).isSome then some {
        event := (nameLineOf block).map fun line =>
          .ofList (PaciNet.trim ((line.drop 6).flatMap f))
        data := .ofList (['\n'].intercalate
          ((dataLinesOf block).map fun line => trimStart ((line.drop 5).flatMap f))) }
      else none := by
  have hdata : (block.map (List.flatMap f)).filterMap Sim.dataOf =
      (dataLinesOf block).map fun line => trimStart ((line.drop 5).flatMap f) := by
    rw [List.filterMap_map, dataLinesOf, ← filterMap_ite]
    congr 1
    funext line
    exact hf.dataOf line
  have hname : (block.map (List.flatMap f)).filterMap Sim.nameOf =
      (block.filter (HasField "event:" ·)).map fun line =>
        PaciNet.trim ((line.drop 6).flatMap f) := by
    rw [List.filterMap_map, ← filterMap_ite]
    congr 1
    funext line
    exact hf.nameOf line
  simp only [Sim.eventOf, afterLines, SseProxy.toEvent, hdata, hname, List.getLast?_map,
    Option.isSome_map, Option.map_map, ne_eq, List.map_eq_nil_iff, nameLineOf]
  rfl

end Events

section Block

variable {block : List (List Piece)} {line : List Piece}

theorem passedOnLines_eq (block : List (List Piece)) :
    passedOnLines block = dataLinesOf block ++ (nameLineOf block).toList := rfl

/-- A piece that a chunk begins in does not belong to the name of a field. -/
theorem mem_drop_of_late {name : String} (hname : ∀ c ∈ name.toList, c.utf8Size = 1)
    (hfield : HasField name line) {p : Piece} (hp : p ∈ line) (hlate : p.late ≠ 0) :
    p ∈ line.drop name.toList.length := by
  rw [← List.take_append_drop name.toList.length line] at hp
  rcases List.mem_append.mp hp with hp | hp
  · have hchars : (line.take name.toList.length).map Piece.char = name.toList := by
      rw [List.map_take]
      exact (List.prefix_iff_eq_take.mp hfield).symm
    have hchar : p.char ∈ name.toList := by
      rw [← hchars]
      exact List.mem_map_of_mem hp
    exact absurd (p.whole (hname _ hchar)) hlate
  · exact hp

/-- The lines of data are joined with a newline each. -/
theorem length_join (lines : List (List Char)) (h : lines ≠ []) :
    (['\n'].intercalate lines).length + 1 = (lines.map fun l => l.length + 1).sum := by
  induction lines with
  | nil => exact absurd rfl h
  | cons line lines ih =>
    cases lines with
    | nil => simp
    | cons line' lines =>
      have hrest := ih (List.cons_ne_nil _ _)
      rw [List.intercalate_cons_cons, List.map_cons, List.sum_cons, ← hrest]
      simp only [List.length_append, List.length_singleton]
      omega

/-- Data with a cut line is longer. -/
theorem join_ne_of_cut {lines : List (List Piece)} {line : List Piece} (hline : line ∈ lines)
    {p : Piece} (hp : p ∈ line.drop 5) (hlate : p.late ≠ 0) :
    ['\n'].intercalate (lines.map fun line => trimStart ((line.drop 5).flatMap Piece.read)) ≠
      ['\n'].intercalate (lines.map fun line =>
        trimStart ((line.drop 5).flatMap fun p => [p.char])) := by
  intro heq
  have hne (g : List Piece → List Char) : lines.map g ≠ [] := by
    simpa using List.ne_nil_of_mem hline
  have hread := length_join _ (hne fun line => trimStart ((line.drop 5).flatMap Piece.read))
  have hchar := length_join _ (hne fun line => trimStart ((line.drop 5).flatMap fun p => [p.char]))
  rw [heq, hchar, List.map_map, List.map_map] at hread
  refine absurd hread (Nat.ne_of_lt (List.sum_lt_sum _ _ ?_ ⟨line, hline, ?_⟩))
  · intro line _
    exact Nat.succ_le_succ (length_trimStart_le _)
  · exact Nat.succ_lt_succ (length_trimStart_lt hp hlate)

/-- **The event of a block comes out the same if and only if no chunk begins inside a character of
    a line that is passed on.** -/
theorem eventOf_read_iff :
    eventOf (block.map (List.flatMap Piece.read)) =
        eventOf (block.map (List.flatMap fun p => [p.char])) ↔
      ∀ line ∈ passedOnLines block, ∀ p ∈ line, p.late = 0 := by
  rw [rendering_read.eventOf, rendering_char.eventOf, passedOnLines_eq]
  constructor
  · intro h line hline p hp
    by_contra hlate
    have hsays : dataLinesOf block ≠ [] ∨ (nameLineOf block).isSome := by
      rcases List.mem_append.mp hline with hline | hline
      · exact .inl (List.ne_nil_of_mem hline)
      · rw [Option.mem_toList] at hline
        exact .inr (Option.isSome_of_mem hline)
    rw [if_pos hsays, if_pos hsays] at h
    obtain ⟨hname, hdata⟩ := Event.mk.inj (Option.some.inj h)
    rcases List.mem_append.mp hline with hline | hline
    · have hfield : HasField "data:" line := of_decide_eq_true (List.mem_filter.mp hline).2
      have hdrop : p ∈ line.drop 5 := mem_drop_of_late dataLetters hfield hp hlate
      exact join_ne_of_cut hline hdrop hlate (String.ofList_injective hdata)
    · have hlast : nameLineOf block = some line := Option.mem_toList.mp hline
      have hfield : HasField "event:" line :=
        of_decide_eq_true (List.mem_filter.mp (List.mem_of_getLast? hlast)).2
      have hdrop : p ∈ line.drop 6 := mem_drop_of_late eventLetters hfield hp hlate
      rw [hlast] at hname
      have hlength := congrArg List.length (String.ofList_injective (Option.some.inj hname))
      exact absurd hlength (Nat.ne_of_gt (length_trim_lt hdrop hlate))
  · intro h
    have hwhole (n : Nat) {line : List Piece}
        (hline : line ∈ dataLinesOf block ++ (nameLineOf block).toList) :
        (line.drop n).flatMap Piece.read = (line.drop n).flatMap fun p => [p.char] :=
      flatMap_read_of_whole fun p hp => h line hline p (List.mem_of_mem_drop hp)
    have hdata : (dataLinesOf block).map (fun line =>
        trimStart ((line.drop 5).flatMap Piece.read)) = (dataLinesOf block).map fun line =>
          trimStart ((line.drop 5).flatMap fun p => [p.char]) :=
      List.map_congr_left fun line hline => by rw [hwhole 5 (List.mem_append_left _ hline)]
    have hname : (nameLineOf block).map (fun line =>
        String.ofList (PaciNet.trim ((line.drop 6).flatMap Piece.read))) =
          (nameLineOf block).map fun line =>
            String.ofList (PaciNet.trim ((line.drop 6).flatMap fun p => [p.char])) :=
      Option.map_congr fun line hline => by
        rw [hwhole 6 (List.mem_append_right _ (Option.mem_toList.mpr hline))]
    rw [hdata, hname]

end Block

/-- Lists of what is there agree if and only if what is there does, element by element. -/
theorem filterMap_eq_iff {α β : Type} {g g' : α → Option β} {xs : List α}
    (hsome : ∀ x ∈ xs, (g x).isSome = (g' x).isSome) :
    xs.filterMap g = xs.filterMap g' ↔ ∀ x ∈ xs, g x = g' x := by
  induction xs with
  | nil => simp
  | cons x xs ih =>
    have hrest := ih fun x' hx' => hsome x' (List.mem_cons_of_mem _ hx')
    have hx := hsome x List.mem_cons_self
    cases hg : g x with
    | none =>
      have hg' : g' x = none := by simpa [hg] using hx.symm
      simp [hg, hg', hrest]
    | some y =>
      obtain ⟨y', hg'⟩ : ∃ y', g' x = some y' := by
        rw [← Option.isSome_iff_exists, ← hx, hg]
        rfl
      simp [hg, hg', hrest]

/-- **For every text and every way it can arrive in chunks, the events do not depend on the chunks
    if and only if no chunk begins inside a character that is passed on.** -/
theorem chunkIndependent_iff {text : List Char} {chunks : List (List UInt8)}
    (h : chunks.flatten = text.flatMap String.utf8EncodeChar) :
    ChunkIndependent text chunks ↔ PassedOnWhole text chunks := by
  have hchunks : proxyPacinetSse (chunks.map .ok) =
      (endedBlocks (pieces (chunkStarts chunks) text)).filterMap fun block =>
        eventOf (block.map (List.flatMap Piece.read)) := by
    rw [proxyPacinetSse_chunks, lossy_chunks h, rendering_read.events]
  have hwhole : proxyPacinetSse [.ok (text.flatMap String.utf8EncodeChar)] =
      (endedBlocks (pieces (chunkStarts chunks) text)).filterMap fun block =>
        eventOf (block.map (List.flatMap fun p => [p.char])) := by
    have hone := proxyPacinetSse_chunks [text.flatMap String.utf8EncodeChar]
    rw [List.flatMap_singleton, fromUtf8Lossy_encode] at hone
    rw [← rendering_char.events, ← List.map_eq_flatMap, map_char_pieces]
    exact hone
  rw [ChunkIndependent, hchunks, hwhole, filterMap_eq_iff, PassedOnWhole]
  · exact forall₂_congr fun block _ => eventOf_read_iff
  · intro block _
    rw [rendering_read.eventOf, rendering_char.eventOf]
    split <;> rfl

/-- A comment is cut inside a character, a carriage return is cut from its newline, and the event
    is the same. -/
theorem chunkIndependent_cutComment : ChunkIndependent ":é\r\ndata: x\r\n\r\n".toList
    [[0x3A, 0xC3], [0xA9, 0x0D, 0x0A, 0x64], [0x61, 0x74, 0x61, 0x3A, 0x20, 0x78, 0x0D],
      [0x0A, 0x0D], [], [0x0A]] := by
  refine (chunkIndependent_iff (by decide +kernel)).mpr ?_
  unfold PassedOnWhole
  decide +kernel

/-- A chunk begins inside the data: two replacement characters stand for it. -/
theorem not_chunkIndependent : ∃ text chunks,
    chunks.flatten = text.flatMap String.utf8EncodeChar ∧ ¬ ChunkIndependent text chunks := by
  refine ⟨"data: é\n\n".toList,
    [[0x64, 0x61, 0x74, 0x61, 0x3A, 0x20, 0xC3], [0xA9, 0x0A, 0x0A]], by decide +kernel, ?_⟩
  unfold ChunkIndependent
  decide +kernel

end PaciNet.Sim
