import PaciNet.Lib.FixedWidth
import PaciNet.Lib.Gregorian
import PaciNet.Storage.Sqlite

/-!
# Instants as text

An instant is a number of seconds and of nanoseconds; in a leap second the nanoseconds run to two
billion. Its text has the date and the time in fields of fixed widths, then a fraction of as few
digits as are exact, then the offset. SQLite compares such texts character by character.

**If the years have four digits, texts compare as the instants do** (`toRfc3339_lt_iff`). So the
comparisons of SQLite are those of the instants, which is what `Rfc3339` asks for.
-/

set_option autoImplicit false

namespace PaciNet

open Lib

/-- An instant of UTC: seconds since 1970 and nanoseconds. A leap second is the 59th, continued. -/
@[ext] structure UtcInstant where
  seconds : Int
  nanos : Nat
  valid : nanos < 1000000000 ∨ seconds % 60 = 59 ∧ nanos < 2 * 1000000000

instance : LT UtcInstant where
  lt a b := a.seconds < b.seconds ∨ a.seconds = b.seconds ∧ a.nanos < b.nanos

namespace UtcInstant

variable (t : UtcInstant)

/-! ## The fields -/

/-- The day, counted from the first of January of the year 0. -/
def day : Int := t.seconds / 86400 + 719528

def year : Int := Gregorian.yearOf t.day

def hour : Nat := (t.seconds % 86400 / 3600).toNat

def minute : Nat := (t.seconds % 3600 / 60).toNat

/-- A leap second is the 60th of its minute. -/
def sec : Nat := (t.seconds % 60).toNat + t.nanos / 1000000000

/-- A year of four digits, or of a sign and at least four. -/
def yearText (year : Int) : List Char :=
  if 0 ≤ year ∧ year ≤ 9999 then digits 4 year.toNat
  else (if year < 0 then '-' else '+') ::
    if year.natAbs < 10000 then digits 4 year.natAbs else (toString year.natAbs).toList

/-- What follows the year. -/
def afterYear : List Char :=
  '-' :: (digits 2 (Gregorian.monthOf t.day) ++ ('-' :: (digits 2 (Gregorian.dayOf t.day) ++
    ('T' :: (digits 2 t.hour ++ (':' :: (digits 2 t.minute ++ (':' :: (digits 2 t.sec ++
      (fraction (t.nanos % 1000000000) ++ '+' :: "00:00".toList))))))))))

/-- `to_rfc3339`. -/
def toRfc3339 : String := String.ofList (yearText t.year ++ t.afterYear)

/-- The year has four digits. -/
def FourDigits : Prop := 0 ≤ t.year ∧ t.year ≤ 9999

/-! ## Instants compare by their fields -/

/-- A number and what follows it, told by two numbers and what follows them. -/
theorem lex_split {x y : Int} {u v u' v' : Int} {r : Prop}
    (hlt : x < y ↔ u < u' ∨ u = u' ∧ v < v') (heq : x = y ↔ u = u' ∧ v = v') :
    (x < y ∨ x = y ∧ r) ↔ u < u' ∨ u = u' ∧ (v < v' ∨ v = v' ∧ r) := by
  rw [hlt, heq]
  tauto

theorem lex_assoc {p p' q q' r r' s : Prop} :
    (p ∨ p' ∧ (q ∨ q' ∧ (r ∨ r' ∧ s))) ↔ (p ∨ p' ∧ (q ∨ q' ∧ r)) ∨ (p' ∧ q' ∧ r') ∧ s := by
  by_cases hp : p' <;> by_cases hq : q' <;> by_cases hr : r' <;>
    simp only [hp, hq, hr, true_and, false_and, or_false, or_assoc]

/-- In a minute, a leap second is the last. -/
theorem sec_lt_iff (a b : UtcInstant) :
    (a.seconds % 60 < b.seconds % 60 ∨ a.seconds % 60 = b.seconds % 60 ∧ a.nanos < b.nanos) ↔
      a.sec < b.sec ∨ a.sec = b.sec ∧ a.nanos % 1000000000 < b.nanos % 1000000000 := by
  have ha := a.valid
  have hb := b.valid
  unfold sec
  omega

theorem lt_iff (a b : UtcInstant) :
    a < b ↔ a.day < b.day ∨ a.day = b.day ∧
      (a.hour < b.hour ∨ a.hour = b.hour ∧ (a.minute < b.minute ∨ a.minute = b.minute ∧
        (a.sec < b.sec ∨ a.sec = b.sec ∧ a.nanos % 1000000000 < b.nanos % 1000000000))) := by
  show (a.seconds < b.seconds ∨ a.seconds = b.seconds ∧ a.nanos < b.nanos) ↔ _
  rw [← sec_lt_iff]
  generalize (a.nanos < b.nanos) = r
  unfold day hour minute
  generalize a.seconds = x
  generalize b.seconds = y
  have hday : (x < y ∨ x = y ∧ r) ↔ x / 86400 < y / 86400 ∨ x / 86400 = y / 86400 ∧
      (x % 86400 < y % 86400 ∨ x % 86400 = y % 86400 ∧ r) :=
    lex_split (by omega) (by omega)
  have hhour : (x % 86400 < y % 86400 ∨ x % 86400 = y % 86400 ∧ r) ↔
      x % 86400 / 3600 < y % 86400 / 3600 ∨ x % 86400 / 3600 = y % 86400 / 3600 ∧
        (x % 3600 < y % 3600 ∨ x % 3600 = y % 3600 ∧ r) :=
    lex_split (by omega) (by omega)
  have hminute : (x % 3600 < y % 3600 ∨ x % 3600 = y % 3600 ∧ r) ↔
      x % 3600 / 60 < y % 3600 / 60 ∨ x % 3600 / 60 = y % 3600 / 60 ∧
        (x % 60 < y % 60 ∨ x % 60 = y % 60 ∧ r) :=
    lex_split (by omega) (by omega)
  have hlt {u v : Int} (hu : 0 ≤ u) (hv : 0 ≤ v) : u.toNat < v.toNat ↔ u < v := by omega
  have heq {u v : Int} (hu : 0 ≤ u) (hv : 0 ≤ v) : u.toNat = v.toNat ↔ u = v := by omega
  rw [hday, hhour, hminute, hlt (by omega) (by omega), heq (by omega) (by omega),
    hlt (by omega) (by omega), heq (by omega) (by omega), Int.add_lt_add_iff_right,
    Int.add_left_inj]

theorem hour_lt : t.hour < 100 := by
  unfold hour
  omega

theorem minute_lt : t.minute < 100 := by
  unfold minute
  omega

theorem sec_lt : t.sec < 100 := by
  have h := t.valid
  unfold sec
  omega

/-! ## Texts compare by their fields -/

/-- What follows the year compares field by field. -/
theorem afterYear_lt_iff (a b : UtcInstant) :
    a.afterYear < b.afterYear ↔
      Gregorian.monthOf a.day < Gregorian.monthOf b.day ∨
        Gregorian.monthOf a.day = Gregorian.monthOf b.day ∧
      (Gregorian.dayOf a.day < Gregorian.dayOf b.day ∨
        Gregorian.dayOf a.day = Gregorian.dayOf b.day ∧
      (a.hour < b.hour ∨ a.hour = b.hour ∧ (a.minute < b.minute ∨ a.minute = b.minute ∧
        (a.sec < b.sec ∨ a.sec = b.sec ∧ a.nanos % 1000000000 < b.nanos % 1000000000)))) := by
  have hnanos (t : UtcInstant) : t.nanos % 1000000000 < 1000000000 := Nat.mod_lt _ (by decide)
  unfold afterYear
  rw [cons_lt_cons_same, field_lt_iff (Gregorian.monthOf_lt _) (Gregorian.monthOf_lt _),
    cons_lt_cons_same, field_lt_iff (Gregorian.dayOf_lt _) (Gregorian.dayOf_lt _),
    cons_lt_cons_same, field_lt_iff a.hour_lt b.hour_lt,
    cons_lt_cons_same, field_lt_iff a.minute_lt b.minute_lt,
    cons_lt_cons_same, field_lt_iff a.sec_lt b.sec_lt,
    fraction_lt_iff (by decide) (hnanos a) (hnanos b)]

theorem yearText_eq {year : Int} (h : 0 ≤ year ∧ year ≤ 9999) :
    yearText year = digits 4 year.toNat :=
  if_pos h

/-- **Texts compare as the instants do.** -/
theorem toRfc3339_lt_iff {a b : UtcInstant} (ha : a.FourDigits) (hb : b.FourDigits) :
    a.toRfc3339 < b.toRfc3339 ↔ a < b := by
  have hyear (t : UtcInstant) (ht : t.FourDigits) : t.year.toNat < 10000 := by
    have h := ht.2
    omega
  have hlt : a.year.toNat < b.year.toNat ↔ a.year < b.year := by
    have h := ha.1
    omega
  have heq : a.year.toNat = b.year.toNat ↔ a.year = b.year := by
    have h := ha.1
    have h' := hb.1
    omega
  unfold toRfc3339
  rw [yearText_eq ha, yearText_eq hb, String.lt_iff, String.toList_ofList, String.toList_ofList,
    field_lt_iff (hyear a ha) (hyear b hb), afterYear_lt_iff, lt_iff, hlt, heq,
    @Gregorian.days_lt_iff a.day b.day, @Gregorian.days_eq_iff a.day b.day]
  exact lex_assoc

/-! ## The instants of the store -/

/-- The instant of so many nanoseconds. -/
def ofDateTime (t : DateTime) : UtcInstant where
  seconds := t / second
  nanos := (t % second).toNat
  valid := by
    left
    unfold second
    omega

theorem ofDateTime_lt_iff {t u : DateTime} : ofDateTime t < ofDateTime u ↔ t < u := by
  have hsplit (x y : Int) : (x / 1000000000 < y / 1000000000 ∨
      x / 1000000000 = y / 1000000000 ∧
        (x % 1000000000).toNat < (y % 1000000000).toNat) ↔ x < y := by
    omega
  exact hsplit t u

theorem yearOf_range {x : Int} (hlow : -62167219200 * 1000000000 ≤ x)
    (hhigh : x < 253402300800 * 1000000000) :
    0 ≤ Gregorian.yearOf (x / 1000000000 / 86400 + 719528) ∧
      Gregorian.yearOf (x / 1000000000 / 86400 + 719528) ≤ 9999 := by
  have hnot : ¬10000 ≤ Gregorian.yearOf (x / 1000000000 / 86400 + 719528) := by
    rw [Gregorian.le_yearOf_iff]
    unfold Gregorian.daysBefore
    omega
  refine ⟨?_, by omega⟩
  rw [Gregorian.le_yearOf_iff]
  unfold Gregorian.daysBefore
  omega

/-- An instant reads back if its year has four digits. -/
theorem fourDigits_ofDateTime {t : DateTime} (h : isRfc3339 t = true) :
    (ofDateTime t).FourDigits := by
  unfold isRfc3339 at h
  rw [Bool.and_eq_true, decide_eq_true_iff, decide_eq_true_iff] at h
  exact yearOf_range h.1 h.2

/-- The text of an instant, to the digit. -/
example :
    (ofDateTime 1709251199250000000).toRfc3339 = "2024-02-29T23:59:59.250+00:00" := by
  decide +kernel

end UtcInstant

/-- **SQLite compares the texts of instants**, character by character. -/
@[reducible] def Rfc3339.textual : Rfc3339 where
  lt t u := decide ((UtcInstant.ofDateTime t).toRfc3339 < (UtcInstant.ofDateTime u).toRfc3339)
  lt_eq t u ht hu := by
    rw [decide_eq_decide, UtcInstant.toRfc3339_lt_iff (UtcInstant.fourDigits_ofDateTime ht)
      (UtcInstant.fourDigits_ofDateTime hu), UtcInstant.ofDateTime_lt_iff]

end PaciNet
