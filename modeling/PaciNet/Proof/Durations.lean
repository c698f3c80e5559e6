import PaciNet.Core.Fsm.Duration

/-!
# What a duration text says

A duration text is a sequence of terms, each of them ASCII digits and a unit, and what it says is
the sum of its terms in seconds (`DurationTerm`). The parser is compared with that: it should
accept a text that says a positive number of seconds a `u64` has room for, with that number, and
refuse every other text.

**`parse_duration` is exact unless a prefix of the text, each number of it in range, says 2^64
seconds or more** (`parseDuration_exact_iff`). A number out of range is refused where it is read,
but a product or a sum out of range is not: the debug build panics there, and the release build
goes on with the rest of the division by 2^64.
-/

set_option autoImplicit false

namespace PaciNet

/-! ## Terms -/

/-- A number and its unit, as they are written. -/
structure DurationTerm where
  digits : List Char
  unit : Char
  scale : Nat
  digits_ne_nil : digits ≠ []
  isDigit_of_mem : ∀ d ∈ digits, d.isDigit = true
  unitSeconds_unit : unitSeconds unit = some scale

namespace DurationTerm

/-- The characters of a term. -/
def text (t : DurationTerm) : List Char := t.digits ++ [t.unit]

/-- The seconds a term says. -/
def seconds (t : DurationTerm) : Nat := digitsValue t.digits * t.scale

/-- The number of the term is one `str::parse::<u64>` reads. -/
def Readable (t : DurationTerm) : Prop := digitsValue t.digits < 2 ^ 64

/-- The characters of a sequence of terms. -/
def textOf (ts : List DurationTerm) : List Char := ts.flatMap text

/-- The seconds a sequence of terms says. -/
def total (ts : List DurationTerm) : Nat := (ts.map seconds).sum

@[simp] theorem textOf_nil : textOf [] = [] := rfl

@[simp] theorem textOf_cons (t : DurationTerm) (ts : List DurationTerm) :
    textOf (t :: ts) = t.digits ++ t.unit :: textOf ts := by
  simp [textOf, text]

@[simp] theorem total_nil : total [] = 0 := rfl

@[simp] theorem total_cons (t : DurationTerm) (ts : List DurationTerm) :
    total (t :: ts) = t.seconds + total ts := by
  simp [total]

theorem textOf_ne_nil {ts : List DurationTerm} (h : ts ≠ []) : textOf ts ≠ [] := by
  cases ts with
  | nil => exact absurd rfl h
  | cons t ts => simp

theorem scale_pos (t : DurationTerm) : 0 < t.scale := by
  have h := t.unitSeconds_unit
  unfold unitSeconds at h
  split at h <;> simp_all <;> omega

theorem unit_not_digit (t : DurationTerm) : t.unit.isDigit = false := by
  have h := t.unitSeconds_unit
  unfold unitSeconds at h
  split at h <;> simp_all

/-- A term that says less than 2^64 seconds has a number in range. -/
theorem readable_of_seconds_lt {t : DurationTerm} (h : t.seconds < 2 ^ 64) : t.Readable :=
  (Nat.le_mul_of_pos_right _ t.scale_pos).trans_lt h

end DurationTerm

open DurationTerm

/-! ## The arithmetic of the debug build -/

theorem checkedU64_of_lt {n : Nat} (h : n < 2 ^ 64) : checkedU64 n = some n := if_pos h

theorem checkedU64_of_le {n : Nat} (h : 2 ^ 64 ≤ n) : checkedU64 n = none :=
  if_neg (Nat.not_lt.mpr h)

theorem asU64_of_lt {n : Nat} (h : n < 2 ^ 64) : asU64 n = n := Nat.mod_eq_of_lt h

/-- The debug build adds a term to the total and goes on, if it has room for it. -/
def addTerm (secs : Nat) (t : DurationTerm) (rest : List Char) : Option (Except String Nat) :=
  (checkedU64 t.seconds).bind fun s =>
    (checkedU64 (secs + s)).bind fun total => parseDurationLoopDebug total [] rest

theorem addTerm_of_lt {secs : Nat} {t : DurationTerm} (h : secs + t.seconds < 2 ^ 64)
    (rest : List Char) : addTerm secs t rest = parseDurationLoopDebug (secs + t.seconds) [] rest := by
  rw [addTerm, checkedU64_of_lt (by omega), Option.bind_some, checkedU64_of_lt h, Option.bind_some]

theorem addTerm_of_le {secs : Nat} {t : DurationTerm} (h : 2 ^ 64 ≤ secs + t.seconds)
    (rest : List Char) : addTerm secs t rest = none := by
  rw [addTerm]
  by_cases hprod : t.seconds < 2 ^ 64
  · rw [checkedU64_of_lt hprod, Option.bind_some, checkedU64_of_le h, Option.bind_none]
  · rw [checkedU64_of_le (Nat.le_of_not_lt hprod), Option.bind_none]

/-! ## One turn of the loop -/

section

variable {secs n : Nat} {cur cs rest : List Char}

/-- The end of the text: a total, or a number without unit, or nothing. -/
theorem loop_nil (secs : Nat) (cur : List Char) :
    (cur = [] ∧ 0 < secs ∧ parseDurationLoopDebug secs cur [] = some (.ok secs) ∧
        parseDurationLoop secs cur [] = .ok secs) ∨
      ∃ e, parseDurationLoopDebug secs cur [] = some (.error e) ∧
        parseDurationLoop secs cur [] = .error e := by
  rw [parseDurationLoopDebug, parseDurationLoop]
  by_cases hcur : cur = []
  · rw [if_neg (not_not.mpr hcur), if_neg (not_not.mpr hcur)]
    by_cases hzero : secs = 0
    · exact .inr ⟨_, if_pos hzero, if_pos hzero⟩
    · exact .inl ⟨hcur, Nat.pos_of_ne_zero hzero, if_neg hzero, if_neg hzero⟩
  · exact .inr ⟨_, if_pos hcur, if_pos hcur⟩

/-- One character: a digit, the unit of a readable term, or an error. -/
theorem loop_cons (hcur : ∀ d ∈ cur, d.isDigit = true) (secs : Nat) (ch : Char)
    (rest : List Char) :
    (ch.isDigit = true ∧
        parseDurationLoopDebug secs cur (ch :: rest) =
          parseDurationLoopDebug secs (cur ++ [ch]) rest ∧
        parseDurationLoop secs cur (ch :: rest) = parseDurationLoop secs (cur ++ [ch]) rest) ∨
      (∃ t : DurationTerm, t.digits = cur ∧ t.unit = ch ∧ t.Readable ∧
        parseDurationLoopDebug secs cur (ch :: rest) = addTerm secs t rest ∧
        parseDurationLoop secs cur (ch :: rest) =
          parseDurationLoop (asU64 (secs + asU64 t.seconds)) [] rest) ∨
      ∃ e, parseDurationLoopDebug secs cur (ch :: rest) = some (.error e) ∧
        parseDurationLoop secs cur (ch :: rest) = .error e := by
  rw [parseDurationLoopDebug, parseDurationLoop]
  by_cases hch : ch.isDigit = true
  · exact .inl ⟨hch, if_pos hch, if_pos hch⟩
  · rw [if_neg hch, if_neg hch]
    by_cases hne : cur = []
    · exact .inr (.inr ⟨_, if_pos hne, if_pos hne⟩)
    · rw [if_neg hne, if_neg hne, parseU64]
      by_cases hread : digitsValue cur < 2 ^ 64
      · rw [if_pos hread]
        cases hunit : unitSeconds ch with
        | none => exact .inr (.inr ⟨_, rfl, rfl⟩)
        | some unit =>
          let t : DurationTerm := ⟨cur, ch, unit, hne, hcur, hunit⟩
          exact .inr (.inl ⟨t, rfl, rfl, hread, rfl, rfl⟩)
      · rw [if_neg hread]
        exact .inr (.inr ⟨_, rfl, rfl⟩)

theorem isDigit_concat {ch : Char} (hcur : ∀ d ∈ cur, d.isDigit = true)
    (hch : ch.isDigit = true) : ∀ d ∈ cur ++ [ch], d.isDigit = true := by
  simpa [or_imp, forall_and] using ⟨hcur, hch⟩

/-! ## Terms that are read -/

theorem loop_digits {ds : List Char} (h : ∀ d ∈ ds, d.isDigit = true) (secs : Nat)
    (hcur : ∀ d ∈ cur, d.isDigit = true) (rest : List Char) :
    parseDurationLoopDebug secs cur (ds ++ rest) =
      parseDurationLoopDebug secs (cur ++ ds) rest := by
  induction ds generalizing cur with
  | nil => simp
  | cons d ds ih =>
    have hd : d.isDigit = true := h d List.mem_cons_self
    have hds : ∀ x ∈ ds, x.isDigit = true := fun x hx => h x (List.mem_cons_of_mem _ hx)
    have hstep : parseDurationLoopDebug secs cur (d :: (ds ++ rest)) =
        parseDurationLoopDebug secs (cur ++ [d]) (ds ++ rest) := if_pos hd
    rw [List.cons_append, hstep, ih hds (isDigit_concat hcur hd), List.append_assoc,
      List.singleton_append]

theorem loop_term (t : DurationTerm) (h : t.Readable) (secs : Nat) (rest : List Char) :
    parseDurationLoopDebug secs [] (t.digits ++ t.unit :: rest) = addTerm secs t rest := by
  rw [loop_digits t.isDigit_of_mem secs (by simp), List.nil_append]
  have hread : parseU64 t.digits = .ok (digitsValue t.digits) := if_pos h
  rw [parseDurationLoopDebug, if_neg (by simp [t.unit_not_digit]), if_neg t.digits_ne_nil, hread,
    t.unitSeconds_unit]
  rfl

/-- Terms that fit are added up. -/
theorem loop_terms (ts : List DurationTerm) (rest : List Char) (h : secs + total ts < 2 ^ 64) :
    parseDurationLoopDebug secs [] (textOf ts ++ rest) =
      parseDurationLoopDebug (secs + total ts) [] rest := by
  induction ts generalizing secs with
  | nil => simp
  | cons t ts ih =>
    rw [total_cons] at h
    have ht : t.Readable := readable_of_seconds_lt (by omega)
    rw [textOf_cons, List.append_assoc, List.cons_append, loop_term t ht,
      addTerm_of_lt (by omega), ih (by omega), total_cons, Nat.add_assoc]

/-- Readable terms that do not fit make the loop panic, whatever follows them. -/
theorem loop_panics {ts : List DurationTerm} (hts : ∀ t ∈ ts, t.Readable) (rest : List Char)
    (hsecs : secs < 2 ^ 64) (h : 2 ^ 64 ≤ secs + total ts) :
    parseDurationLoopDebug secs [] (textOf ts ++ rest) = none := by
  induction ts generalizing secs with
  | nil =>
    rw [total_nil] at h
    omega
  | cons t ts ih =>
    rw [total_cons] at h
    have ht : t.Readable := hts t List.mem_cons_self
    rw [textOf_cons, List.append_assoc, List.cons_append, loop_term t ht]
    by_cases hsum : secs + t.seconds < 2 ^ 64
    · rw [addTerm_of_lt hsum]
      exact ih (fun x hx => hts x (List.mem_cons_of_mem _ hx)) hsum (by omega)
    · exact addTerm_of_le (Nat.le_of_not_lt hsum) _

/-! ## What has been read -/

/-- The loop answers with a number only for terms, and then with what they say. -/
theorem loop_ok (hcur : ∀ d ∈ cur, d.isDigit = true) (hsecs : secs < 2 ^ 64)
    (h : parseDurationLoopDebug secs cur cs = some (.ok n)) :
    (0 < n ∧ n < 2 ^ 64) ∧
      ∃ ts : List DurationTerm, cur ++ cs = textOf ts ∧ n = secs + total ts := by
  induction cs generalizing secs cur with
  | nil =>
    rcases loop_nil secs cur with ⟨rfl, hpos, hok, -⟩ | ⟨e, herror, -⟩
    · obtain rfl : secs = n := by
        rw [hok] at h
        exact Except.ok.inj (Option.some.inj h)
      exact ⟨⟨hpos, hsecs⟩, [], rfl, rfl⟩
    · rw [herror] at h
      cases h
  | cons ch rest ih =>
    rcases loop_cons hcur secs ch rest with
      ⟨hch, hdigit, -⟩ | ⟨t, rfl, rfl, -, hterm, -⟩ | ⟨e, herror, -⟩
    · obtain ⟨hn, ts, htext, htotal⟩ := ih (isDigit_concat hcur hch) hsecs (hdigit ▸ h)
      exact ⟨hn, ts, by simpa using htext, htotal⟩
    · rw [hterm] at h
      by_cases hsum : secs + t.seconds < 2 ^ 64
      · rw [addTerm_of_lt hsum] at h
        obtain ⟨hn, ts, htext, htotal⟩ := ih (by simp) hsum h
        refine ⟨hn, t :: ts, ?_, ?_⟩
        · rw [textOf_cons, ← htext]
          rfl
        · rw [total_cons, htotal, Nat.add_assoc]
      · rw [addTerm_of_le (Nat.le_of_not_lt hsum)] at h
        cases h
    · rw [herror] at h
      cases h

/-- The loop panics only after readable terms that do not fit. -/
theorem loop_eq_none (hcur : ∀ d ∈ cur, d.isDigit = true)
    (h : parseDurationLoopDebug secs cur cs = none) :
    ∃ (ts : List DurationTerm) (rest : List Char), cur ++ cs = textOf ts ++ rest ∧
      (∀ t ∈ ts, t.Readable) ∧ 2 ^ 64 ≤ secs + total ts := by
  induction cs generalizing secs cur with
  | nil =>
    rcases loop_nil secs cur with ⟨-, -, hok, -⟩ | ⟨e, herror, -⟩
    · rw [hok] at h
      cases h
    · rw [herror] at h
      cases h
  | cons ch rest ih =>
    rcases loop_cons hcur secs ch rest with
      ⟨hch, hdigit, -⟩ | ⟨t, rfl, rfl, ht, hterm, -⟩ | ⟨e, herror, -⟩
    · obtain ⟨ts, rest', htext, h'⟩ := ih (isDigit_concat hcur hch) (hdigit ▸ h)
      exact ⟨ts, rest', by simpa using htext, h'⟩
    · rw [hterm] at h
      by_cases hsum : secs + t.seconds < 2 ^ 64
      · rw [addTerm_of_lt hsum] at h
        obtain ⟨ts, rest', htext, hts, hover⟩ := ih (by simp) h
        refine ⟨t :: ts, rest', ?_, ?_, ?_⟩
        · rw [textOf_cons, List.append_assoc, List.cons_append, ← htext]
          rfl
        · simpa using ⟨ht, hts⟩
        · rw [total_cons]
          omega
      · refine ⟨[t], rest, by simp, by simpa using ht, ?_⟩
        rw [total_cons, total_nil]
        exact Nat.le_of_not_lt hsum
    · rw [herror] at h
      cases h

/-- Where the debug build does not panic, the release build answers the same. -/
theorem parseDurationLoop_of_debug {r : Except String Nat} (hcur : ∀ d ∈ cur, d.isDigit = true)
    (h : parseDurationLoopDebug secs cur cs = some r) : parseDurationLoop secs cur cs = r := by
  induction cs generalizing secs cur with
  | nil =>
    rcases loop_nil secs cur with ⟨-, -, hok, hrelease⟩ | ⟨e, herror, hrelease⟩
    · rw [hrelease, Option.some.inj (hok.symm.trans h)]
    · rw [hrelease, Option.some.inj (herror.symm.trans h)]
  | cons ch rest ih =>
    rcases loop_cons hcur secs ch rest with
      ⟨hch, hdigit, hrelease⟩ | ⟨t, rfl, rfl, -, hterm, hrelease⟩ | ⟨e, herror, hrelease⟩
    · rw [hrelease]
      exact ih (isDigit_concat hcur hch) (hdigit ▸ h)
    · rw [hterm] at h
      by_cases hsum : secs + t.seconds < 2 ^ 64
      · rw [addTerm_of_lt hsum] at h
        have hprod : t.seconds < 2 ^ 64 := by omega
        rw [hrelease, asU64_of_lt hprod, asU64_of_lt hsum]
        exact ih (by simp) h
      · rw [addTerm_of_le (Nat.le_of_not_lt hsum)] at h
        cases h
    · rw [hrelease, Option.some.inj (herror.symm.trans h)]

end

/-! ## Both builds -/

/-- The text, trimmed, is a sequence of terms that say so many seconds. -/
def SaysDuration (s : String) (n : Nat) : Prop :=
  ∃ ts : List DurationTerm, ts ≠ [] ∧ trim s.toList = textOf ts ∧ n = total ts

/-- The parser accepts exactly the texts that say a positive duration in the range of `u64`, with
    that duration, in either build, and does not panic. -/
structure ParsesExactly (s : String) : Prop where
  release : ∀ n, parseDuration s = .ok n ↔ SaysDuration s n ∧ 0 < n ∧ n < 2 ^ 64
  debug : ∃ r, parseDurationDebug s = some r ∧
    ∀ n, r = .ok n ↔ SaysDuration s n ∧ 0 < n ∧ n < 2 ^ 64

/-- The text, trimmed, begins with terms whose numbers are in the range of `u64` and whose sum is
    not. -/
def OverflowsDuration (s : String) : Prop :=
  ∃ (ts : List DurationTerm) (rest : List Char), trim s.toList = textOf ts ++ rest ∧
    (∀ t ∈ ts, t.Readable) ∧ 2 ^ 64 ≤ total ts

theorem parseDurationDebug_eq_none {s : String} :
    parseDurationDebug s = none ↔ OverflowsDuration s := by
  unfold parseDurationDebug
  constructor
  · intro h
    simp only at h
    split at h
    · cases h
    · obtain ⟨ts, rest, htext, hts, hover⟩ := loop_eq_none (by simp) h
      exact ⟨ts, rest, by simpa using htext, hts, by simpa using hover⟩
  · rintro ⟨ts, rest, htext, hts, hover⟩
    have hne : trim s.toList ≠ [] := by
      intro hnil
      have hnone : ts = [] := by
        by_contra hne
        exact textOf_ne_nil hne (List.append_eq_nil_iff.mp (htext.symm.trans hnil)).1
      rw [hnone, total_nil] at hover
      omega
    simp only [if_neg hne]
    rw [htext]
    exact loop_panics hts rest (by omega) (by simpa using hover)

theorem parseDuration_of_debug {s : String} {r : Except String Nat}
    (h : parseDurationDebug s = some r) : parseDuration s = r := by
  unfold parseDurationDebug at h
  unfold parseDuration
  simp only at h ⊢
  split at h
  · next hnil => rw [if_pos hnil, Option.some.inj h]
  · next hne => rw [if_neg hne, parseDurationLoop_of_debug (by simp) h]

/-- Where the debug build does not panic, it accepts what it should. -/
theorem parseDurationDebug_ok {s : String} {r : Except String Nat}
    (h : parseDurationDebug s = some r) (n : Nat) :
    r = .ok n ↔ SaysDuration s n ∧ 0 < n ∧ n < 2 ^ 64 := by
  unfold parseDurationDebug at h
  simp only at h
  constructor
  · rintro rfl
    split at h
    · cases h
    · obtain ⟨hn, ts, htext, htotal⟩ := loop_ok (by simp) (by simp) h
      rw [Nat.zero_add] at htotal
      refine ⟨⟨ts, ?_, by simpa using htext, htotal⟩, hn⟩
      rintro rfl
      rw [total_nil] at htotal
      omega
  · rintro ⟨⟨ts, hts, htext, rfl⟩, hpos, hlt⟩
    have hne : trim s.toList ≠ [] := by
      rw [htext]
      exact textOf_ne_nil hts
    have hrun : parseDurationLoopDebug 0 [] (trim s.toList) = some (.ok (total ts)) := by
      have hfits : 0 + total ts < 2 ^ 64 := by simpa using hlt
      have hloop := loop_terms ts [] hfits
      rw [List.append_nil, Nat.zero_add] at hloop
      rw [htext, hloop, parseDurationLoopDebug, if_neg (by simp), if_neg (by omega)]
    rw [if_neg hne, hrun] at h
    exact (Option.some.inj h).symm

/-- **The parser is exact exactly where no prefix overflows.** -/
theorem parseDuration_exact_iff (s : String) : ParsesExactly s ↔ ¬ OverflowsDuration s := by
  rw [← parseDurationDebug_eq_none]
  constructor
  · rintro ⟨-, r, hr, -⟩ hnone
    rw [hnone] at hr
    cases hr
  · intro hsome
    obtain ⟨r, hr⟩ := Option.ne_none_iff_exists'.mp hsome
    refine ⟨?_, r, hr, parseDurationDebug_ok hr⟩
    rw [parseDuration_of_debug hr]
    exact parseDurationDebug_ok hr

/-- The largest number of seconds and two more: the release build reads one second, the debug build
    panics. -/
theorem not_parsesExactly :
    parseDuration "18446744073709551615s2s" = .ok 1 ∧
      parseDurationDebug "18446744073709551615s2s" = none ∧ ¬ ∀ s, ParsesExactly s := by
  have hpanic : parseDurationDebug "18446744073709551615s2s" = none := by decide +kernel
  refine ⟨by decide +kernel, hpanic, ?_⟩
  intro h
  obtain ⟨-, r, hr, -⟩ := h "18446744073709551615s2s"
  rw [hpanic] at hr
  cases hr

end PaciNet
