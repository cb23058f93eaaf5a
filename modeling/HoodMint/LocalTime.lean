/-
Mint times as the operator types them: wall clocks in GMT+7, and the instants they denote.

* `gmt7LocalToUtc`, `utcToGmt7LocalInput` — the two conversions, over `dateUTC` and
  `toISOString`, the calendar arithmetic of the language;
* `LocalDatetime` — what the pattern of a wall clock matches; `localDatetime_eq_some`: it matches
  the texts that are written so;
* `gmt7LocalToUtc_eq_some` — a wall clock is accepted when the time exists and its year is none of
  the first hundred, which `Date.UTC` takes for years of the twentieth century;
* `wallClock_iff` — the two conversions are inverse but for the years out of reach of one of them;
* `gmt7LocalToUtc_eq` — the creators of plans read the same instants.
-/
import HoodMint.CreatorEffects
import HoodMint.Lib.Calendar
import HoodMint.Lib.FixedWidth
import Mathlib.Algebra.Order.Group.Abs
import Mathlib.Algebra.Order.Group.Unbundled.Int

namespace MintTarget

open Calendar FixedWidth

/-! ### Dates of the language -/

/-- The time value of a `Date`; `none` is `NaN`. -/
abbrev Date := Option ℤ

/-- `TimeClip`. -/
def timeClip (t : ℤ) : Date := if |t| ≤ 8640000000000000 then some t else none

/-- The time value of a wall clock that reads UTC. -/
def timeOf (c : Civil) (hour minute second : ℕ) : ℤ :=
  (((makeDay c * 24 + hour) * 60 + minute) * 60 + second) * 1000

/-- `MakeFullYear`: a year of two digits is one of the twentieth century. -/
def fullYear (year : ℕ) : ℕ := if year ≤ 99 then 1900 + year else year

/-- `Date.UTC`, of one of the twelve months. -/
def dateUTC (year month date hour minute second : ℕ) : Date :=
  timeClip (timeOf ⟨fullYear year, month, date⟩ hour minute second)

/-- `getUTCFullYear`, `getUTCMonth` and `getUTCDate`. -/
def dateOf (t : ℤ) : Civil := civil (t / 86400000)

/-- `getUTCHours`. -/
def hourOf (t : ℤ) : ℕ := (t / 3600000 % 24).toNat

/-- `getUTCMinutes`. -/
def minuteOf (t : ℤ) : ℕ := (t / 60000 % 60).toNat

/-- `getUTCSeconds`. -/
def secondOf (t : ℤ) : ℕ := (t / 1000 % 60).toNat

/-- A year in an ISO string: four digits, or a sign and six. -/
def yearText (year : ℤ) : List Char :=
  if 0 ≤ year ∧ year ≤ 9999 then padded 4 year.toNat
  else (if year < 0 then '-' else '+') :: padded 6 year.natAbs

/-- `date.toISOString()`; a `RangeError` of an invalid date is `none`. -/
def toISOString (date : Date) : Option (List Char) :=
  date.map fun t =>
    yearText (dateOf t).year ++ '-' :: (padded 2 ((dateOf t).month + 1) ++
      '-' :: (padded 2 (dateOf t).date ++ 'T' :: (padded 2 (hourOf t) ++
        ':' :: (padded 2 (minuteOf t) ++ ':' :: (padded 2 (secondOf t) ++
          '.' :: (padded 3 (t % 1000).toNat ++ ['Z']))))))

/-! ### The conversions -/

/-- `GMT7_OFFSET_MS`. -/
def gmt7OffsetMs : ℤ := 7 * 60 * 60000

/-- The groups that `LOCAL_DATETIME_RE` captures. -/
structure LocalDatetime where
  year : ℕ
  month : ℕ
  day : ℕ
  hour : ℕ
  minute : ℕ
  second : Option ℕ
deriving DecidableEq

/-- `LOCAL_DATETIME_RE.exec`. -/
def localDatetime (cs : List Char) : Option LocalDatetime := do
  let (year, cs) ← readNumber 4 cs
  let cs ← readChar '-' cs
  let (month, cs) ← readNumber 2 cs
  let cs ← readChar '-' cs
  let (day, cs) ← readNumber 2 cs
  let cs ← readChar 'T' cs
  let (hour, cs) ← readNumber 2 cs
  let cs ← readChar ':' cs
  let (minute, cs) ← readNumber 2 cs
  if cs = [] then some ⟨year, month, day, hour, minute, none⟩
  else
    let cs ← readChar ':' cs
    let (second, cs) ← readNumber 2 cs
    if cs = [] then some ⟨year, month, day, hour, minute, some second⟩ else none

/-- `gmt7LocalToUtc`. -/
def gmt7LocalToUtc (value : String) : Option Date := do
  let m ← localDatetime (Text.trim value).toList
  let second := m.second.getD 0
  if m.month < 1 ∨ m.month > 12 ∨ m.day < 1 ∨ m.day > 31 ∨ m.hour > 23 ∨ m.minute > 59 ∨
      second > 59 then none
  else
    -- the parts of an invalid date are `NaN`, and differ from those typed
    let asUtcWallClock ← dateUTC m.year (m.month - 1) m.day m.hour m.minute second
    let roundTrip := dateOf asUtcWallClock
    if roundTrip.year ≠ m.year ∨ roundTrip.month ≠ m.month - 1 ∨ roundTrip.date ≠ m.day then none
    else some (timeClip (asUtcWallClock - gmt7OffsetMs))

/-- `utcToGmt7LocalInput`, of a `Date`; `none` is the `RangeError` of `toISOString`. -/
def utcToGmt7LocalInput (date : Date) : Option String :=
  match date with
  | none => some ""
  | some t => (toISOString (timeClip (t + gmt7OffsetMs))).map fun iso => String.ofList (iso.take 16)

example : gmt7LocalToUtc "2026-09-01T20:30:45" = some (some 1788269445000) := by decide

example : utcToGmt7LocalInput (some 1788269445000) = some "2026-09-01T20:30" := by decide

/-! ### What the pattern matches -/

/-- Each group is as wide as the pattern has it. -/
def LocalDatetime.Fits (m : LocalDatetime) : Prop :=
  m.year < 10000 ∧ m.month < 100 ∧ m.day < 100 ∧ m.hour < 100 ∧ m.minute < 100 ∧
    m.second.getD 0 < 100

/-- The text of a wall clock. -/
def LocalDatetime.text (m : LocalDatetime) : List Char :=
  padded 4 m.year ++ '-' :: (padded 2 m.month ++ '-' :: (padded 2 m.day ++
    'T' :: (padded 2 m.hour ++ ':' :: (padded 2 m.minute ++
      m.second.elim [] fun second => ':' :: padded 2 second))))

/-- **The pattern** matches what is written as a wall clock. -/
theorem localDatetime_eq_some {cs : List Char} {m : LocalDatetime} :
    localDatetime cs = some m ↔ m.Fits ∧ cs = m.text := by
  constructor
  · intro h
    obtain ⟨year, _, ⟨hyear, rfl⟩, h₁⟩ := bind_readNumber_eq_some.mp h
    obtain ⟨_, rfl, h₂⟩ := bind_readChar_eq_some.mp h₁
    obtain ⟨month, _, ⟨hmonth, rfl⟩, h₃⟩ := bind_readNumber_eq_some.mp h₂
    obtain ⟨_, rfl, h₄⟩ := bind_readChar_eq_some.mp h₃
    obtain ⟨day, _, ⟨hday, rfl⟩, h₅⟩ := bind_readNumber_eq_some.mp h₄
    obtain ⟨_, rfl, h₆⟩ := bind_readChar_eq_some.mp h₅
    obtain ⟨hour, _, ⟨hhour, rfl⟩, h₇⟩ := bind_readNumber_eq_some.mp h₆
    obtain ⟨_, rfl, h₈⟩ := bind_readChar_eq_some.mp h₇
    obtain ⟨minute, rest, ⟨hminute, rfl⟩, h₉⟩ := bind_readNumber_eq_some.mp h₈
    clear h h₁ h₂ h₃ h₄ h₅ h₆ h₇ h₈
    dsimp only at h₉
    split at h₉
    · next hend =>
      obtain rfl := hend
      obtain rfl := Option.some_inj.mp h₉
      exact ⟨⟨hyear, hmonth, hday, hhour, hminute, Nat.succ_pos 99⟩, rfl⟩
    · obtain ⟨_, rfl, h₁⟩ := bind_readChar_eq_some.mp h₉
      obtain ⟨second, rest, ⟨hsecond, rfl⟩, h₂⟩ := bind_readNumber_eq_some.mp h₁
      clear h₉ h₁
      dsimp only at h₂
      split at h₂
      · next hend =>
        obtain rfl := hend
        obtain rfl := Option.some_inj.mp h₂
        refine ⟨⟨hyear, hmonth, hday, hhour, hminute, hsecond⟩, ?_⟩
        rw [List.append_nil]
        rfl
      · cases h₂
  · rintro ⟨⟨hyear, hmonth, hday, hhour, hminute, hsecond⟩, rfl⟩
    refine bind_readNumber_eq_some.mpr ⟨m.year, _, ⟨hyear, rfl⟩, ?_⟩
    refine bind_readChar_eq_some.mpr ⟨_, rfl, ?_⟩
    refine bind_readNumber_eq_some.mpr ⟨m.month, _, ⟨hmonth, rfl⟩, ?_⟩
    refine bind_readChar_eq_some.mpr ⟨_, rfl, ?_⟩
    refine bind_readNumber_eq_some.mpr ⟨m.day, _, ⟨hday, rfl⟩, ?_⟩
    refine bind_readChar_eq_some.mpr ⟨_, rfl, ?_⟩
    refine bind_readNumber_eq_some.mpr ⟨m.hour, _, ⟨hhour, rfl⟩, ?_⟩
    refine bind_readChar_eq_some.mpr ⟨_, rfl, ?_⟩
    refine bind_readNumber_eq_some.mpr ⟨m.minute, _, ⟨hminute, rfl⟩, ?_⟩
    obtain ⟨year, month, day, hour, minute, second⟩ := m
    cases second with
    | none => rfl
    | some second =>
      dsimp only [Option.elim_some]
      rw [if_neg (List.cons_ne_nil _ _)]
      refine bind_readChar_eq_some.mpr ⟨_, rfl, ?_⟩
      exact bind_readNumber_eq_some.mpr
        ⟨second, [], ⟨hsecond, (List.append_nil _).symm⟩, rfl⟩

/-! ### Times that exist -/

/-- The date of a wall clock. -/
def LocalDatetime.civil (m : LocalDatetime) : Civil := ⟨m.year, m.month - 1, m.day⟩

/-- The calendar has the date, and the day has the time. -/
def LocalDatetime.Exists (m : LocalDatetime) : Prop :=
  1 ≤ m.month ∧ m.civil.Exists ∧ m.hour ≤ 23 ∧ m.minute ≤ 59 ∧ m.second.getD 0 ≤ 59

instance : DecidablePred LocalDatetime.Exists := fun m =>
  (inferInstance : Decidable (1 ≤ m.month ∧ m.civil.Exists ∧ m.hour ≤ 23 ∧ m.minute ≤ 59 ∧
    m.second.getD 0 ≤ 59))

/-- The instant of a wall clock in GMT+7. -/
def LocalDatetime.instant (m : LocalDatetime) : ℤ :=
  timeOf m.civil m.hour m.minute (m.second.getD 0) - gmt7OffsetMs

/-- The months of the calendar. -/
theorem exists_bounds {c : Civil} (h : c.Exists) : c.month < 12 ∧ 1 ≤ c.date ∧ c.date ≤ 31 := by
  obtain ⟨hdate, days, hdays, hle⟩ := h
  obtain ⟨hlt, rfl⟩ := List.getElem?_eq_some_iff.mp hdays
  have hlong : ∀ days ∈ monthDays (isLeap c.year), days ≤ 31 := by
    cases isLeap c.year <;> decide
  exact ⟨hlt, hdate, hle.trans (hlong _ (List.getElem_mem hlt))⟩

/-- A time of day does not reach into the next. -/
theorem dateOf_timeOf (c : Civil) {hour minute second : ℕ} (hhour : hour ≤ 23)
    (hminute : minute ≤ 59) (hsecond : second ≤ 59) :
    dateOf (timeOf c hour minute second) = Calendar.civil (makeDay c) := by
  rw [dateOf, timeOf]
  congr 1
  omega

theorem eq_of_timeClip {t u : ℤ} (h : timeClip t = some u) : t = u := by
  rw [timeClip] at h
  split at h
  · exact Option.some_inj.mp h
  · cases h

theorem timeClip_of_abs_le {t : ℤ} (h : -8640000000000000 ≤ t ∧ t ≤ 8640000000000000) :
    timeClip t = some t := by
  rw [timeClip, if_pos (abs_le.mpr h)]

/-- The instants of the years of up to four digits are far from the last ones. -/
theorem bounds_of_year {t : ℤ} (h : 0 ≤ (dateOf t).year ∧ (dateOf t).year ≤ 9999) :
    -100000000000000 ≤ t ∧ t ≤ 300000000000000 := by
  obtain ⟨hle, hlt⟩ := yearFromDay_spec (t / 86400000)
  change 0 ≤ yearFromDay (t / 86400000) ∧ yearFromDay (t / 86400000) ≤ 9999 at h
  rw [dayFromYear] at hle hlt
  omega

/-- A wall clock that exists, and whose year has four digits, reads its own date. -/
theorem LocalDatetime.Exists.dateOf_timeOf {m : LocalDatetime} (h : m.Exists) :
    dateOf (timeOf m.civil m.hour m.minute (m.second.getD 0)) = m.civil := by
  obtain ⟨-, hexists, hhour, hminute, hsecond⟩ := h
  rw [MintTarget.dateOf_timeOf _ hhour hminute hsecond, civil_makeDay hexists]

theorem LocalDatetime.Exists.timeOf_bounds {m : LocalDatetime} (h : m.Exists)
    (hyear : m.year < 10000) :
    -100000000000000 ≤ timeOf m.civil m.hour m.minute (m.second.getD 0) ∧
      timeOf m.civil m.hour m.minute (m.second.getD 0) ≤ 300000000000000 := by
  apply bounds_of_year
  rw [h.dateOf_timeOf]
  show (0 : ℤ) ≤ m.year ∧ (m.year : ℤ) ≤ 9999
  omega

/-- The date that is read back is the one typed. -/
theorem civil_fullYear_iff {m : LocalDatetime} (hday : 1 ≤ m.day) :
    Calendar.civil (makeDay ⟨fullYear m.year, m.month - 1, m.day⟩) = m.civil ↔
      m.civil.Exists ∧ 100 ≤ m.year := by
  rw [fullYear]
  split
  · next hsmall =>
    -- the day lies in the year that `Date.UTC` has taken, or behind
    refine iff_of_false (fun h => ?_) (by omega)
    have hstart : dayFromYear ((1900 + m.year : ℕ) : ℤ) ≤
        makeDay ⟨(1900 + m.year : ℕ), m.month - 1, m.day⟩ := by
      show dayFromYear _ ≤ dayFromYear ((1900 + m.year : ℕ) : ℤ) + _ + (m.day : ℤ) - 1
      omega
    have hyear : yearFromDay (makeDay ⟨(1900 + m.year : ℕ), m.month - 1, m.day⟩) = m.year :=
      congrArg Civil.year h
    have hle := le_yearFromDay hstart
    omega
  · next hlarge =>
    rw [and_iff_left (by omega)]
    exact civil_makeDay_iff

/-- **What is accepted** is a wall clock of a time that exists, in a year from 100 on. -/
theorem gmt7LocalToUtc_eq_some {value : String} {date : Date} :
    gmt7LocalToUtc value = some date ↔
      ∃ m, localDatetime (Text.trim value).toList = some m ∧ m.Exists ∧ 100 ≤ m.year ∧
        date = some m.instant := by
  rw [gmt7LocalToUtc, Option.bind_eq_bind, Option.bind_eq_some_iff]
  refine exists_congr fun m => and_congr_right fun hread => ?_
  obtain ⟨⟨hfits, -⟩, -⟩ := localDatetime_eq_some.mp hread
  dsimp only
  -- a date that exists lies within the range of instants
  have hclip (h : m.Exists) : timeClip (timeOf m.civil m.hour m.minute (m.second.getD 0) -
      gmt7OffsetMs) = some m.instant := by
    have hbounds := h.timeOf_bounds hfits
    apply timeClip_of_abs_le
    rw [gmt7OffsetMs]
    omega
  constructor
  · intro h
    split at h
    · cases h
    next hrange =>
    simp only [not_or, not_lt] at hrange
    obtain ⟨hmonth, -, hday, -, hhour, hminute, hsecond⟩ := hrange
    obtain ⟨t, hutc, h⟩ := Option.bind_eq_some_iff.mp h
    obtain rfl := eq_of_timeClip hutc
    split at h
    · cases h
    next hround =>
    simp only [not_or, not_not, dateOf_timeOf _ hhour hminute hsecond] at hround
    obtain ⟨hyear', hmonth', hday'⟩ := hround
    -- the round trip through `Date.UTC` finds days that do not exist
    obtain ⟨hexists, hyear⟩ := (civil_fullYear_iff hday).mp (Civil.ext hyear' hmonth' hday')
    have hm : m.Exists := ⟨hmonth, hexists, hhour, hminute, hsecond⟩
    have hfull : fullYear m.year = m.year := if_neg (by omega)
    rw [hfull] at h
    exact ⟨hm, hyear, (Option.some_inj.mp h).symm.trans (hclip hm)⟩
  · rintro ⟨hm, hyear, rfl⟩
    have hfull : fullYear m.year = m.year := if_neg (by omega)
    have hbounds := hm.timeOf_bounds hfits
    have hutc : dateUTC m.year (m.month - 1) m.day m.hour m.minute (m.second.getD 0) =
        some (timeOf m.civil m.hour m.minute (m.second.getD 0)) := by
      rw [dateUTC, hfull]
      apply timeClip_of_abs_le
      rw [LocalDatetime.civil] at hbounds
      omega
    have hdate := hm.dateOf_timeOf
    have hround : ¬ ((dateOf (timeOf m.civil m.hour m.minute (m.second.getD 0))).year ≠ m.year ∨
        (dateOf (timeOf m.civil m.hour m.minute (m.second.getD 0))).month ≠ m.month - 1 ∨
          (dateOf (timeOf m.civil m.hour m.minute (m.second.getD 0))).date ≠ m.day) := by
      rw [hdate]
      simp [LocalDatetime.civil]
    have hmclip := hclip hm
    obtain ⟨hmonth, hexists, hhour, hminute, hsecond⟩ := hm
    obtain ⟨hmonths, hday, hdays⟩ := exists_bounds hexists
    simp only [LocalDatetime.civil] at hmonths hday hdays
    rw [if_neg (by omega), hutc, Option.bind_eq_bind, Option.bind_some, if_neg hround, hmclip]

/-! ### The text of an instant -/

/-- The wall clock of an instant, down to the minute. -/
def LocalDatetime.ofInstant (t : ℤ) : LocalDatetime :=
  ⟨(dateOf t).year.toNat, (dateOf t).month + 1, (dateOf t).date, hourOf t, minuteOf t, none⟩

/-- The year of an instant can be written with four digits. -/
def FourDigitYear (t : ℤ) : Prop := 0 ≤ (dateOf t).year ∧ (dateOf t).year ≤ 9999

theorem ofInstant_civil {t : ℤ} (h : 0 ≤ (dateOf t).year) :
    (LocalDatetime.ofInstant t).civil = dateOf t :=
  Civil.ext (Int.toNat_of_nonneg h) (Nat.add_sub_cancel _ _) rfl

theorem ofInstant_exists {t : ℤ} (h : 0 ≤ (dateOf t).year) :
    (LocalDatetime.ofInstant t).Exists := by
  refine ⟨Nat.succ_pos _, ?_, ?_, ?_, Nat.zero_le _⟩
  · rw [ofInstant_civil h]
    exact (makeDay_civil _).1
  · show (t / 3600000 % 24).toNat ≤ 23
    omega
  · show (t / 60000 % 60).toNat ≤ 59
    omega

theorem ofInstant_fits {t : ℤ} (h : FourDigitYear t) : (LocalDatetime.ofInstant t).Fits := by
  obtain ⟨-, hexists, hhour, hminute, -⟩ := ofInstant_exists h.1
  obtain ⟨hmonth, -, hday⟩ := exists_bounds hexists
  refine ⟨?_, ?_, hday.trans_lt (by decide), hhour.trans_lt (by decide),
    hminute.trans_lt (by decide), Nat.succ_pos 99⟩
  · show (dateOf t).year.toNat < 10000
    have hyear := h.2
    omega
  · exact (Nat.le_add_of_sub_le hmonth.le).trans_lt (by decide)

/-- The wall clock of an instant is where the minute of the instant begins. -/
theorem instant_ofInstant {t : ℤ} (h : 0 ≤ (dateOf t).year) :
    (LocalDatetime.ofInstant t).instant = t - t % 60000 - gmt7OffsetMs := by
  rw [LocalDatetime.instant, ofInstant_civil h]
  show timeOf (Calendar.civil (t / 86400000)) (t / 3600000 % 24).toNat (t / 60000 % 60).toNat 0 -
    gmt7OffsetMs = _
  rw [timeOf, (makeDay_civil _).2]
  omega

/-- A wall clock that exists, and has no seconds, is that of its instant. -/
theorem ofInstant_timeOf {m : LocalDatetime} (h : m.Exists) (hsecond : m.second = none) :
    LocalDatetime.ofInstant (timeOf m.civil m.hour m.minute (m.second.getD 0)) = m := by
  have hdate := h.dateOf_timeOf
  obtain ⟨hmonth, -, hhour, hminute, -⟩ := h
  obtain ⟨year, month, day, hour, minute, second⟩ := m
  obtain rfl : second = none := hsecond
  rw [LocalDatetime.ofInstant, hdate, LocalDatetime.mk.injEq]
  refine ⟨Int.toNat_natCast year, Nat.sub_add_cancel hmonth, rfl, ?_, ?_, rfl⟩
  · show (timeOf _ hour minute 0 / 3600000 % 24).toNat = hour
    rw [timeOf]
    change hour ≤ 23 at hhour
    change minute ≤ 59 at hminute
    omega
  · show (timeOf _ hour minute 0 / 60000 % 60).toNat = minute
    rw [timeOf]
    change minute ≤ 59 at hminute
    omega

/-- **What is shown** of an instant is its wall clock in GMT+7. -/
theorem utcToGmt7LocalInput_eq {t : ℤ} (h : FourDigitYear (t + gmt7OffsetMs)) :
    utcToGmt7LocalInput (some t) =
      some (String.ofList (LocalDatetime.ofInstant (t + gmt7OffsetMs)).text) := by
  obtain ⟨hlow, hhigh⟩ := bounds_of_year h
  have hclip : timeClip (t + gmt7OffsetMs) = some (t + gmt7OffsetMs) :=
    timeClip_of_abs_le ⟨by omega, by omega⟩
  show (toISOString (timeClip (t + gmt7OffsetMs))).map _ = _
  rw [hclip, toISOString, Option.map_some, Option.map_some, yearText, if_pos ⟨h.1, h.2⟩]
  rfl

theorem isSpace_of_isDigit {c : Char} (h : c.isDigit = true) : Text.isSpace c = false := by
  have hc : 48 ≤ c.toNat ∧ c.toNat ≤ 57 := Char.isDigit_iff_toNat.mp h
  simp [Text.isSpace]
  omega

theorem isSpace_of_mem_padded {width n : ℕ} (h : n < 10 ^ width) :
    ∀ c ∈ padded width n, Text.isSpace c = false :=
  fun _ hc => isSpace_of_isDigit (isDigit_of_mem_padded h hc)

theorem trim_text {m : LocalDatetime} (h : m.Fits) :
    Text.trim (String.ofList m.text) = String.ofList m.text := by
  obtain ⟨hyear, hmonth, hday, hhour, hminute, hsecond⟩ := h
  apply Text.trim_of_not_isSpace
  intro c hc
  simp only [String.toList_ofList, LocalDatetime.text, List.mem_append, List.mem_cons] at hc
  rcases hc with hc | rfl | hc | rfl | hc | rfl | hc | rfl | hc | hc
  · exact isSpace_of_mem_padded (show m.year < 10 ^ 4 from hyear) c hc
  · rfl
  · exact isSpace_of_mem_padded (show m.month < 10 ^ 2 from hmonth) c hc
  · rfl
  · exact isSpace_of_mem_padded (show m.day < 10 ^ 2 from hday) c hc
  · rfl
  · exact isSpace_of_mem_padded (show m.hour < 10 ^ 2 from hhour) c hc
  · rfl
  · exact isSpace_of_mem_padded (show m.minute < 10 ^ 2 from hminute) c hc
  · cases hs : m.second with
    | none =>
      rw [hs] at hc
      cases hc
    | some second =>
      rw [hs] at hc hsecond
      rcases List.mem_cons.mp hc with rfl | hc
      · rfl
      · exact isSpace_of_mem_padded (show second < 10 ^ 2 from hsecond) c hc

/-- What is shown of an instant is read back. -/
theorem localDatetime_shown {t : ℤ} (h : FourDigitYear t) :
    localDatetime (Text.trim (String.ofList (LocalDatetime.ofInstant t).text)).toList =
      some (LocalDatetime.ofInstant t) := by
  rw [trim_text (ofInstant_fits h), String.toList_ofList]
  exact localDatetime_eq_some.mpr ⟨ofInstant_fits h, rfl⟩

/-- A text with a sign in front is none of a wall clock. -/
theorem localDatetime_signed {c : Char} (hspace : Text.isSpace c = false)
    (hdigit : c.isDigit = false) (rest : List Char) :
    localDatetime (Text.trim (String.ofList (c :: rest))).toList = none := by
  by_contra hread
  obtain ⟨m, hm⟩ := Option.ne_none_iff_exists'.mp hread
  obtain ⟨⟨hyear, -⟩, htext⟩ := localDatetime_eq_some.mp hm
  have hstart : (Text.trim (String.ofList (c :: rest))).toList <+: c :: rest := by
    rw [Text.trim, String.toList_ofList, String.toList_ofList,
      List.dropWhile_cons_of_neg (by simp [hspace])]
    exact List.rdropWhile_prefix _ _
  rw [htext] at hstart
  -- the text of a wall clock starts with a digit
  obtain ⟨hfirst, -⟩ := List.cons_prefix_cons.mp
    (show Nat.digitChar (m.year / 10 ^ 3) :: _ <+: c :: rest from hstart)
  have hd := isDigit_digitChar (show m.year / 10 ^ 3 < 10 by omega)
  rw [hfirst, hdigit] at hd
  cases hd

/-- An instant of a year without four digits is not read back. -/
theorem not_shown {t : ℤ} (h : ¬ FourDigitYear (t + gmt7OffsetMs)) {text : String}
    (hshown : utcToGmt7LocalInput (some t) = some text) : gmt7LocalToUtc text = none := by
  obtain ⟨iso, hiso, rfl⟩ := Option.map_eq_some_iff.mp hshown
  obtain ⟨u, hclip, rfl⟩ := Option.map_eq_some_iff.mp hiso
  obtain rfl := eq_of_timeClip hclip
  have hyear : yearText (dateOf (t + gmt7OffsetMs)).year =
      (if (dateOf (t + gmt7OffsetMs)).year < 0 then '-' else '+') ::
        padded 6 (dateOf (t + gmt7OffsetMs)).year.natAbs := if_neg h
  rw [gmt7LocalToUtc, hyear, List.cons_append, List.take_succ_cons]
  split <;> rw [localDatetime_signed rfl rfl] <;> rfl

/-- **Instants go round** when their years have four digits, and are not taken for years of the
twentieth century. -/
theorem shown_iff (t : ℤ) :
    (∃ text, utcToGmt7LocalInput (some t) = some text ∧
        gmt7LocalToUtc text = some (some (t - t % 60000))) ↔
      100 ≤ (dateOf (t + gmt7OffsetMs)).year ∧ (dateOf (t + gmt7OffsetMs)).year ≤ 9999 := by
  constructor
  · rintro ⟨text, hshown, hback⟩
    have hfour : FourDigitYear (t + gmt7OffsetMs) := by
      by_contra hfour
      rw [not_shown hfour hshown] at hback
      cases hback
    rw [utcToGmt7LocalInput_eq hfour, Option.some_inj] at hshown
    obtain ⟨m, hread, -, hyear, -⟩ := gmt7LocalToUtc_eq_some.mp hback
    rw [← hshown, localDatetime_shown hfour] at hread
    obtain rfl := Option.some_inj.mp hread
    refine ⟨?_, hfour.2⟩
    change 100 ≤ (dateOf (t + gmt7OffsetMs)).year.toNat at hyear
    omega
  · rintro ⟨hlow, hhigh⟩
    have hfour : FourDigitYear (t + gmt7OffsetMs) := ⟨by omega, hhigh⟩
    refine ⟨_, utcToGmt7LocalInput_eq hfour, gmt7LocalToUtc_eq_some.mpr
      ⟨_, localDatetime_shown hfour, ofInstant_exists hfour.1, ?_, ?_⟩⟩
    · show 100 ≤ (dateOf (t + gmt7OffsetMs)).year.toNat
      omega
    · rw [instant_ofInstant hfour.1, Option.some_inj, gmt7OffsetMs]
      omega

/-- **Wall clocks go round**: what is accepted without seconds is shown as it was typed. -/
theorem shown_of_accepted {value : String} {date : Date} {m : LocalDatetime}
    (hread : localDatetime (Text.trim value).toList = some m) (hsecond : m.second = none)
    (haccepted : gmt7LocalToUtc value = some date) :
    utcToGmt7LocalInput date = some (Text.trim value) := by
  obtain ⟨m', hread', hexists, -, rfl⟩ := gmt7LocalToUtc_eq_some.mp haccepted
  obtain rfl : m = m' := Option.some_inj.mp (hread.symm.trans hread')
  obtain ⟨⟨hyear, -⟩, htext⟩ := localDatetime_eq_some.mp hread
  have hback : m.instant + gmt7OffsetMs = timeOf m.civil m.hour m.minute (m.second.getD 0) :=
    sub_add_cancel _ _
  have hfour : FourDigitYear (m.instant + gmt7OffsetMs) := by
    rw [hback, FourDigitYear, hexists.dateOf_timeOf]
    show (0 : ℤ) ≤ m.year ∧ (m.year : ℤ) ≤ 9999
    omega
  rw [utcToGmt7LocalInput_eq hfour, hback, ofInstant_timeOf hexists hsecond, ← htext,
    String.ofList_toList]

/-- **Typed and shown times.** What is accepted without seconds is shown as it was typed; an
instant that is shown is read back as the start of its minute, and a wall clock is accepted when
its time exists, as long as the years are those that both conversions reach. -/
theorem wallClock_iff (value : String) (t : ℤ) :
    (∀ m date, localDatetime (Text.trim value).toList = some m → m.second = none →
        gmt7LocalToUtc value = some date → utcToGmt7LocalInput date = some (Text.trim value)) ∧
      ((∃ text, utcToGmt7LocalInput (some t) = some text ∧
          gmt7LocalToUtc text = some (some (t - t % 60000))) ↔
        100 ≤ (dateOf (t + gmt7OffsetMs)).year ∧ (dateOf (t + gmt7OffsetMs)).year ≤ 9999) ∧
      ∀ m, localDatetime (Text.trim value).toList = some m →
        (((∃ date, gmt7LocalToUtc value = some date) ↔ m.Exists) ↔ (m.Exists → 100 ≤ m.year)) := by
  refine ⟨fun m date hread hsecond haccepted => shown_of_accepted hread hsecond haccepted,
    shown_iff t, fun m hread => ?_⟩
  have haccepted : (∃ date, gmt7LocalToUtc value = some date) ↔ m.Exists ∧ 100 ≤ m.year := by
    constructor
    · rintro ⟨date, hdate⟩
      obtain ⟨m', hread', hexists, hyear, -⟩ := gmt7LocalToUtc_eq_some.mp hdate
      obtain rfl : m = m' := Option.some_inj.mp (hread.symm.trans hread')
      exact ⟨hexists, hyear⟩
    · rintro ⟨hexists, hyear⟩
      exact ⟨_, gmt7LocalToUtc_eq_some.mpr ⟨m, hread, hexists, hyear, rfl⟩⟩
  rw [haccepted]
  constructor
  · intro h hexists
    exact (h.mpr hexists).2
  · intro h
    exact ⟨And.left, fun hexists => ⟨hexists, h hexists⟩⟩

/-- The first minute of the year 50 is rejected; and the last one of the year 9999 in UTC, which is
a later year in GMT+7, is not read back. -/
theorem year_fifty_rejected :
    (localDatetime (Text.trim "0050-01-01T00:00").toList = some ⟨50, 1, 1, 0, 0, none⟩ ∧
        (⟨50, 1, 1, 0, 0, none⟩ : LocalDatetime).Exists ∧
        gmt7LocalToUtc "0050-01-01T00:00" = none) ∧
      (dateOf 253402300740000).year = 9999 ∧
      utcToGmt7LocalInput (some 253402300740000) = some "+010000-01-01T06" ∧
      gmt7LocalToUtc "+010000-01-01T06" = none := by
  refine ⟨⟨?_, ?_, ?_⟩, ?_, ?_, ?_⟩ <;> decide

/-- A new year's morning in GMT+7, which is the evening of the old year in UTC. -/
theorem wallClock_new_year :
    utcToGmt7LocalInput (some 1798758000000) = some (Text.trim " 2027-01-01T06:00") :=
  (wallClock_iff " 2027-01-01T06:00" 0).1 ⟨2027, 1, 1, 6, 0, none⟩ (some 1798758000000)
    (by decide) rfl (by decide)

/-! ### The creators of plans -/

section PlanCreators

open PlanCreators hiding gmt7LocalToUtc

/-- The first day of a month, as it is counted in years that start in March. -/
theorem daysToMonth_eq (year : ℕ) {month : ℕ} (h : 1 ≤ month ∧ month ≤ 12) :
    daysToMonth year month = makeDay ⟨year, month - 1, 1⟩ := by
  obtain ⟨hlow, hhigh⟩ := h
  have hleap := leapDays_eq year
  have hmarch : daysToMonth year month = 365 * (if month ≤ 2 then (year : ℤ) - 1 else year) +
      leapDays (if month ≤ 2 then (year : ℤ) - 1 else year) +
        ((153 * ((month + 9) % 12 : ℤ) + 2) / 5 - 719468) := by
    rw [daysToMonth, leapDays]
    omega
  rw [hmarch, makeDay, dayFromYear_eq]
  show _ = 365 * ((year : ℤ) - 1) + leapDays (year - 1) - 719162 +
    (((monthDays (isLeap year)).take (month - 1)).sum : ℕ) + (1 : ℕ) - 1
  cases hl : isLeap year with
  | false =>
    rw [hl, if_neg (by decide)] at hleap
    interval_cases month <;> simp [monthDays] <;> omega
  | true =>
    rw [hl, if_pos rfl] at hleap
    interval_cases month <;> simp [monthDays] <;> omega

/-- The first day behind a month. -/
theorem nextMonth_eq (year : ℕ) {month days : ℕ} (hlow : 1 ≤ month)
    (hdays : (monthDays (isLeap year))[month - 1]? = some days) :
    (if month = 12 then daysToMonth (year + 1) 1 else daysToMonth year (month + 1)) =
      daysToMonth year month + days := by
  obtain ⟨hlt, hmonth⟩ := List.getElem?_eq_some_iff.mp hdays
  have hhigh : month - 1 < 12 := hlt
  have hsum := congrArg List.sum (List.take_concat_get' (monthDays (isLeap year)) (month - 1) hlt)
  rw [List.sum_append, List.sum_singleton, hmonth, Nat.sub_add_cancel hlow] at hsum
  rw [daysToMonth_eq year ⟨hlow, by omega⟩]
  split
  · next hlast =>
    have hyear := dayFromYear_succ year
    have hall : (monthDays (isLeap year)).take month = monthDays (isLeap year) :=
      List.take_of_length_le (by rw [hlast]; rfl)
    rw [hall, sum_monthDays] at hsum
    rw [daysToMonth_eq (year + 1) ⟨le_rfl, by decide⟩, makeDay, makeDay]
    show dayFromYear (year + 1 : ℕ) + (0 : ℕ) + (1 : ℕ) - 1 =
      dayFromYear year + (((monthDays (isLeap year)).take (month - 1)).sum : ℕ) + (1 : ℕ) - 1 + days
    rw [Nat.cast_succ, hyear]
    split_ifs at hsum ⊢ <;> omega
  · next hlast =>
    rw [daysToMonth_eq year ⟨by omega, by omega⟩, makeDay, makeDay]
    show dayFromYear year + (((monthDays (isLeap year)).take month).sum : ℕ) + (1 : ℕ) - 1 =
      dayFromYear year + (((monthDays (isLeap year)).take (month - 1)).sum : ℕ) + (1 : ℕ) - 1 + days
    omega

theorem gmt7Instant_eq_some {m : LocalDatetime} {t : ℤ} :
    gmt7Instant m.year m.month m.day m.hour m.minute (m.second.getD 0) = some t ↔
      m.Exists ∧ 100 ≤ m.year ∧ t = m.instant := by
  rw [gmt7Instant]
  dsimp only
  constructor
  · intro h
    split at h
    · cases h
    next hrange =>
    simp only [not_or, not_lt] at hrange
    obtain ⟨hmonth, hmonths, hday, -, hhour, hminute, hsecond⟩ := hrange
    have hlt : m.month - 1 < (monthDays (isLeap m.year)).length :=
      show m.month - 1 < 12 by omega
    rw [nextMonth_eq m.year hmonth (List.getElem?_eq_getElem hlt)] at h
    split at h
    · cases h
    next hexists =>
    refine ⟨⟨hmonth, ⟨hday, _, List.getElem?_eq_getElem hlt, ?_⟩, hhour, hminute, hsecond⟩, ?_, ?_⟩
    · show m.day ≤ (monthDays (isLeap m.year))[m.month - 1]
      omega
    · omega
    · obtain rfl := Option.some_inj.mp h
      rw [daysToMonth_eq m.year ⟨hmonth, hmonths⟩, LocalDatetime.instant, timeOf, gmt7OffsetMs]
      simp only [LocalDatetime.civil, makeDay]
      omega
  · rintro ⟨⟨hmonth, hexists, hhour, hminute, hsecond⟩, hyear, rfl⟩
    obtain ⟨hmonths, -, hdays⟩ := exists_bounds hexists
    obtain ⟨hday, days, hget, hle⟩ := hexists
    change m.month - 1 < 12 at hmonths
    change 1 ≤ m.day at hday
    change m.day ≤ 31 at hdays
    change m.day ≤ days at hle
    rw [if_neg (by omega), nextMonth_eq m.year hmonth hget, if_neg (by omega),
      daysToMonth_eq m.year ⟨hmonth, by omega⟩, LocalDatetime.instant, timeOf, gmt7OffsetMs]
    simp only [LocalDatetime.civil, makeDay]
    congr 1
    omega

theorem padded_two (n : ℕ) : padded 2 n = [Nat.digitChar (n / 10), Nat.digitChar (n % 10)] := by
  simp [padded]

theorem padded_four (n : ℕ) : padded 4 n = padded 2 (n / 100) ++ padded 2 (n % 100) := by
  rw [padded_two, padded_two]
  simp only [padded, List.cons_append, List.nil_append]
  rw [show n / 10 ^ 3 = n / 100 / 10 by omega, show n % 10 ^ 3 / 10 ^ 2 = n / 100 % 10 by omega,
    show n % 10 ^ 3 % 10 ^ 2 / 10 ^ 1 = n % 100 / 10 by omega,
    show n % 10 ^ 3 % 10 ^ 2 % 10 ^ 1 / 10 ^ 0 = n % 100 % 10 by omega]

theorem twoDigits_padded {n : ℕ} (h : n < 100) :
    twoDigits (Nat.digitChar (n / 10)) (Nat.digitChar (n % 10)) = some n := by
  have hl := digitChar_toNat (show n / 10 < 10 by omega)
  have hr := digitChar_toNat (show n % 10 < 10 by omega)
  rw [twoDigits, if_pos ⟨isDigit_digitChar (by omega), isDigit_digitChar (by omega)⟩]
  simp only [AutoMint.digits, List.foldl_cons, List.foldl_nil, hl, hr]
  congr 1
  omega

theorem eq_padded_of_twoDigits {a b : Char} {n : ℕ} (h : twoDigits a b = some n) :
    n < 100 ∧ [a, b] = padded 2 n := by
  have hread : readNumber 2 [a, b] = some (n, []) := by
    rw [twoDigits] at h
    split at h
    · next hdigits =>
      obtain rfl := Option.some_inj.mp h
      simp [readNumber, hdigits.1, hdigits.2, AutoMint.digits, Nat.mul_comm]
    · cases h
  simpa using readNumber_eq_some.mp hread

/-- What the creators of plans read is what the pattern matches. -/
theorem instant_eq_some {value : String} {t : ℤ} :
    PlanCreators.gmt7LocalToUtc value = some t ↔
      ∃ m, localDatetime (Text.trim value).toList = some m ∧
        gmt7Instant m.year m.month m.day m.hour m.minute (m.second.getD 0) = some t := by
  rw [PlanCreators.gmt7LocalToUtc]
  constructor
  · intro h
    split at h
    · next y₁ y₂ y₃ y₄ m₁ m₂ d₁ d₂ h₁ h₂ n₁ n₂ seconds hvalue =>
      simp only [Option.bind_eq_bind, Option.bind_eq_some_iff] at h
      obtain ⟨century, hcentury, year, hyear, month, hmonth, day, hday, hour, hhour, minute,
        hminute, h⟩ := h
      obtain ⟨hc, hcentury⟩ := eq_padded_of_twoDigits hcentury
      obtain ⟨hy, hyear⟩ := eq_padded_of_twoDigits hyear
      obtain ⟨hm, hmonth⟩ := eq_padded_of_twoDigits hmonth
      obtain ⟨hd, hday⟩ := eq_padded_of_twoDigits hday
      obtain ⟨hh, hhour⟩ := eq_padded_of_twoDigits hhour
      obtain ⟨hn, hminute⟩ := eq_padded_of_twoDigits hminute
      -- the year is read two digits at a time
      have hfour : padded 4 (100 * century + year) = [y₁, y₂, y₃, y₄] := by
        rw [padded_four, show (100 * century + year) / 100 = century by omega,
          show (100 * century + year) % 100 = year by omega, ← hcentury, ← hyear]
        rfl
      split at h
      · refine ⟨⟨100 * century + year, month, day, hour, minute, none⟩, ?_, h⟩
        refine localDatetime_eq_some.mpr ⟨⟨?_, hm, hd, hh, hn, Nat.succ_pos 99⟩, ?_⟩
        · show 100 * century + year < 10000
          omega
        · rw [hvalue, LocalDatetime.text, hfour, ← hmonth, ← hday, ← hhour, ← hminute]
          rfl
      · next s₁ s₂ =>
        obtain ⟨second, hsecond, h⟩ := Option.bind_eq_some_iff.mp h
        refine ⟨⟨100 * century + year, month, day, hour, minute, some second⟩, ?_, h⟩
        obtain ⟨hs, hsecond⟩ := eq_padded_of_twoDigits hsecond
        refine localDatetime_eq_some.mpr ⟨⟨?_, hm, hd, hh, hn, hs⟩, ?_⟩
        · show 100 * century + year < 10000
          omega
        · rw [hvalue, LocalDatetime.text, hfour, ← hmonth, ← hday, ← hhour, ← hminute,
            Option.elim_some, ← hsecond]
          rfl
      · cases h
    · cases h
  · rintro ⟨m, hread, h⟩
    obtain ⟨⟨hyear, hmonth, hday, hhour, hminute, hsecond⟩, htext⟩ := localDatetime_eq_some.mp hread
    rw [htext, LocalDatetime.text, padded_four, padded_two, padded_two, padded_two, padded_two,
      padded_two, padded_two]
    simp only [List.cons_append, List.nil_append,
      twoDigits_padded (show m.year / 100 < 100 by omega),
      twoDigits_padded (show m.year % 100 < 100 by omega), twoDigits_padded hmonth,
      twoDigits_padded hday, twoDigits_padded hhour, twoDigits_padded hminute, Option.bind_eq_bind,
      Option.bind_some, Nat.div_add_mod]
    cases hs : m.second with
    | none =>
      rw [hs] at h
      exact h
    | some second =>
      rw [hs] at h hsecond
      simp only [Option.elim_some, padded_two, twoDigits_padded (show second < 100 from hsecond),
        Option.bind_some]
      exact h

/-- **One conversion.** The creators of plans read the instants that `gmt7LocalToUtc` reads. -/
theorem gmt7LocalToUtc_eq (value : String) :
    gmt7LocalToUtc value = (PlanCreators.gmt7LocalToUtc value).map some := by
  ext date
  rw [gmt7LocalToUtc_eq_some, Option.map_eq_some_iff]
  constructor
  · rintro ⟨m, hread, hexists, hyear, rfl⟩
    exact ⟨m.instant, instant_eq_some.mpr ⟨m, hread, gmt7Instant_eq_some.mpr ⟨hexists, hyear, rfl⟩⟩,
      rfl⟩
  · rintro ⟨t, ht, rfl⟩
    obtain ⟨m, hread, hm⟩ := instant_eq_some.mp ht
    obtain ⟨hexists, hyear, rfl⟩ := gmt7Instant_eq_some.mp hm
    exact ⟨m, hread, hexists, hyear, rfl⟩

end PlanCreators

end MintTarget
