import Kurul.Runtime

/-!
# Kurul.IsoDate

`toISOString` writes two points in time that a `Date` can hold as the same text only if they are one.

* `civilFromDays_inj` — a day has its own year, month and day of the month.
* `padded_inj`, `isoYear_inj` — numbers that fit in their digits, and years.
* `toISOString_inj`   — whole texts.
-/

namespace Kurul

/-- A `Date` that is valid holds at most 8.64e15 milliseconds, before or after the epoch. -/
def IsDate (t : Instant) : Prop := -8640000000000000 ≤ t ∧ t ≤ 8640000000000000

/-! ## The calendar -/

section Calendar

/-- Within a century, and `e` centuries behind the start of the era. -/
theorem yearOfCentury_spec {e r q y : Nat} (he : e ≤ 3) (hr : r ≤ 36523) (hq : q = (24 * e + r) / 1460)
    (hy : y = (r - q) / 365) :
    y ≤ 99 ∧ 365 * y + y / 4 ≤ r ∧ r < 365 * y + y / 4 + 366 := by
  have hqr : q ≤ 25 := by omega
  have hlow : 365 * y ≤ r - q := by omega
  have hhigh : r - q < 365 * y + 365 := by omega
  have hle : y / 4 ≤ q ∨ r < 1460 := by omega
  have hge : q ≤ y / 4 + 1 := by omega
  refine ⟨by omega, by omega, by omega⟩

/-- The year of an era of 400 that a day of it is in, and what is left of the day. -/
theorem yearOfEra_spec (doe : Nat) {yoe : Nat} (hdoe : doe < 146097)
    (hyoe : yoe = (doe - doe / 1460 + doe / 36524 - doe / 146096) / 365) :
    yoe < 400 ∧ 365 * yoe + yoe / 4 - yoe / 100 ≤ doe ∧
      doe - (365 * yoe + yoe / 4 - yoe / 100) < 366 := by
  by_cases hlast : doe = 146096
  · subst hlast
    omega
  · -- the day `r` of the century `e`
    obtain ⟨e, r, hr, rfl⟩ : ∃ e r, r ≤ 36523 ∧ doe = 36524 * e + r :=
      ⟨doe / 36524, doe % 36524, by omega, by omega⟩
    have he : e ≤ 3 := by omega
    obtain ⟨hy, hlow, hhigh⟩ := yearOfCentury_spec he hr rfl rfl
    have hcentury : (36524 * e + r) / 36524 = e := by omega
    have hera : (36524 * e + r) / 146096 = 0 := by omega
    have hfour : (36524 * e + r) / 1460 = 25 * e + (24 * e + r) / 1460 := by omega
    rw [hcentury, hera, hfour] at hyoe
    generalize hq : (24 * e + r) / 1460 = q at hy hlow hhigh hyoe
    have hqr : q ≤ r := by omega
    have hyear : yoe = 100 * e + (r - q) / 365 := by omega
    generalize (r - q) / 365 = y at hy hlow hhigh hyear
    have hhundred : yoe / 100 = e := by omega
    have hquarter : yoe / 4 = 25 * e + y / 4 := by omega
    omega

/-- A day of a year that starts in March has its own month and day of the month. -/
theorem monthOfYear_spec {doy mp : Nat} (hdoy : doy < 366) (hmp : mp = (5 * doy + 2) / 153) :
    mp ≤ 11 ∧ (153 * mp + 2) / 5 ≤ doy ∧ doy - (153 * mp + 2) / 5 < 31 := by
  omega

/-- A day is of one era of 400 years, one year of that, and one month and day of that, counted from
March on. -/
theorem civilFromDays_spec (days : Int) : ∃ (era : Int) (yoe doy mp : Nat),
    days + 719468 = era * 146097 + (365 * yoe + yoe / 4 - yoe / 100 + doy : Nat) ∧ yoe < 400 ∧
    doy < 366 ∧ mp ≤ 11 ∧ (153 * mp + 2) / 5 ≤ doy ∧ doy - (153 * mp + 2) / 5 < 31 ∧
    civilFromDays days = (yoe + era * 400 + (if mp < 10 then 0 else 1),
      if mp < 10 then mp + 3 else mp - 9, doy - (153 * mp + 2) / 5 + 1) := by
  obtain ⟨hyoe, hle, hrest⟩ := yearOfEra_spec ((days + 719468) % 146097).toNat (by omega) rfl
  obtain ⟨hmp, hmonth, hday⟩ := monthOfYear_spec hrest rfl
  refine ⟨(days + 719468) / 146097, _, _, _, ?_, hyoe, hrest, hmp, hmonth, hday, ?_⟩
  · generalize ((days + 719468) % 146097).toNat - ((days + 719468) % 146097).toNat / 1460 +
      ((days + 719468) % 146097).toNat / 36524 - ((days + 719468) % 146097).toNat / 146096 = x at *
    omega
  · unfold civilFromDays
    dsimp only
    congr 2
    split <;> split <;> omega

/-- Two days with one year, month and day of the month are one day. -/
theorem civilFromDays_inj {days days' : Int} (h : civilFromDays days = civilFromDays days') :
    days = days' := by
  obtain ⟨era, yoe, doy, mp, hdays, hyoe, hdoy, hmp, hmonth, hday, heq⟩ := civilFromDays_spec days
  obtain ⟨era', yoe', doy', mp', hdays', hyoe', hdoy', hmp', hmonth', hday', heq'⟩ :=
    civilFromDays_spec days'
  rw [heq, heq'] at h
  obtain ⟨hy, hm, hd⟩ : _ ∧ _ ∧ _ := by simpa only [Prod.mk.injEq] using h
  have hmps : mp = mp' := by
    split at hm <;> split at hm <;> omega
  subst hmps
  have hdoys : doy = doy' := by omega
  have hyears : yoe = yoe' ∧ era = era' := by omega
  obtain ⟨rfl, rfl⟩ := hyears
  omega

theorem civilFromDays_bounds (days : Int) :
    (civilFromDays days).2.1 ≤ 12 ∧ (civilFromDays days).2.2 ≤ 31 ∧
      400 * (days + 719468) ≤ 146097 * ((civilFromDays days).1 + 1) ∧
      146097 * ((civilFromDays days).1 - 401) ≤ 400 * (days + 719468) := by
  obtain ⟨era, yoe, doy, mp, hdays, hyoe, hdoy, hmp, hmonth, hday, heq⟩ := civilFromDays_spec days
  rw [heq]
  dsimp only
  refine ⟨?_, by omega, ?_, ?_⟩
  · split <;> omega
  · split <;> omega
  · split <;> omega

end Calendar

/-! ## The text -/

section Text

variable {n m w : Nat} {y y' : Int} {t t' : Instant}

theorem digit_inj {a b : Nat} (ha : a < 10) (hb : b < 10)
    (h : Fin.ofNat 65536 (48 + a) = Fin.ofNat 65536 (48 + b)) : a = b := by
  have hval := congrArg Fin.val h
  simp only [Fin.ofNat] at hval
  omega

@[simp] theorem length_digitsRev (w n : Nat) : (digitsRev w n).length = w := by
  induction w generalizing n with
  | zero => rfl
  | succ w ih => simp [digitsRev, ih]

@[simp] theorem length_padded (w n : Nat) : (padded w n).length = w := by
  simp [padded]

theorem digitsRev_inj (hn : n < 10 ^ w) (hm : m < 10 ^ w) (h : digitsRev w n = digitsRev w m) :
    n = m := by
  induction w generalizing n m with
  | zero => omega
  | succ w ih =>
    obtain ⟨hdigit, hrest⟩ := List.cons.inj h
    have hlast := digit_inj (Nat.mod_lt n (by omega)) (Nat.mod_lt m (by omega)) hdigit
    rw [Nat.pow_succ] at hn hm
    have hmore := ih (by omega) (by omega) hrest
    omega

/-- A number that fits in its digits is read off them. -/
theorem padded_inj (hn : n < 10 ^ w) (hm : m < 10 ^ w) (h : padded w n = padded w m) : n = m :=
  digitsRev_inj hn hm (List.reverse_injective h)

theorem isoYear_short (h : 0 ≤ y ∧ y ≤ 9999) : isoYear y = padded 4 y.toNat := if_pos h

theorem isoYear_long (h : ¬ (0 ≤ y ∧ y ≤ 9999)) :
    isoYear y = js (if y < 0 then "-" else "+") ++ padded 6 y.natAbs := if_neg h

theorem length_sign (y : Int) : (js (if y < 0 then "-" else "+")).length = 1 := by
  split <;> rfl

theorem isoYear_inj (hy : -1000000 < y ∧ y < 1000000) (hy' : -1000000 < y' ∧ y' < 1000000)
    (h : isoYear y = isoYear y') : y = y' := by
  have hlen := congrArg List.length h
  by_cases hfour : 0 ≤ y ∧ y ≤ 9999 <;> by_cases hfour' : 0 ≤ y' ∧ y' ≤ 9999
  · rw [isoYear_short hfour, isoYear_short hfour'] at h
    have hnat := padded_inj (by omega) (by omega) h
    omega
  · rw [isoYear_short hfour, isoYear_long hfour'] at hlen
    simp [length_sign] at hlen
  · rw [isoYear_long hfour, isoYear_short hfour'] at hlen
    simp [length_sign] at hlen
  · rw [isoYear_long hfour, isoYear_long hfour'] at h
    obtain ⟨hsign, hdigits⟩ := List.append_inj h (by rw [length_sign, length_sign])
    have habs := padded_inj (by omega) (by omega) hdigits
    have hneg : y < 0 ↔ y' < 0 := by
      by_cases hpos : y < 0 <;> by_cases hpos' : y' < 0 <;> simp [hpos, hpos', js] at hsign ⊢
    omega

/-- The text of a valid date says which it is. -/
theorem toISOString_inj (ht : IsDate t) (ht' : IsDate t') (h : toISOString t = toISOString t') :
    t = t' := by
  obtain ⟨hmonth, hday, hlow, hhigh⟩ := civilFromDays_bounds (t / 86400000)
  obtain ⟨hmonth', hday', hlow', hhigh'⟩ := civilFromDays_bounds (t' / 86400000)
  obtain ⟨hmin, hmax⟩ : (-8640000000000000 : Int) ≤ t ∧ (8640000000000000 : Int) ≥ t := ht
  obtain ⟨hmin', hmax'⟩ : (-8640000000000000 : Int) ≤ t' ∧ (8640000000000000 : Int) ≥ t' := ht'
  unfold toISOString at h
  dsimp only at h
  -- from the right every part is as long as its counterpart
  obtain ⟨h, -⟩ := List.append_inj' h rfl
  obtain ⟨h, hms⟩ := List.append_inj' h (by simp)
  obtain ⟨h, -⟩ := List.append_inj' h rfl
  obtain ⟨h, hsec⟩ := List.append_inj' h (by simp)
  obtain ⟨h, -⟩ := List.append_inj' h rfl
  obtain ⟨h, hminute⟩ := List.append_inj' h (by simp)
  obtain ⟨h, -⟩ := List.append_inj' h rfl
  obtain ⟨h, hhour⟩ := List.append_inj' h (by simp)
  obtain ⟨h, -⟩ := List.append_inj' h rfl
  obtain ⟨h, hd⟩ := List.append_inj' h (by simp)
  obtain ⟨h, -⟩ := List.append_inj' h rfl
  obtain ⟨h, hm⟩ := List.append_inj' h (by simp)
  obtain ⟨hy, -⟩ := List.append_inj' h rfl
  have hms := padded_inj (by omega) (by omega) hms
  have hsec := padded_inj (by omega) (by omega) hsec
  have hminute := padded_inj (by omega) (by omega) hminute
  have hhour := padded_inj (by omega) (by omega) hhour
  have hd := padded_inj (by omega) (by omega) hd
  have hm := padded_inj (by omega) (by omega) hm
  have hy := isoYear_inj (by omega) (by omega) hy
  have hdays := civilFromDays_inj (Prod.ext hy (Prod.ext hm hd))
  change @Eq Int t t'
  omega

end Text

end Kurul
