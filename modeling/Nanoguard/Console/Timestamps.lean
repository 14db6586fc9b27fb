import Mathlib.Data.Nat.Find
import Nanoguard.Console.LoginRows

/-!
# Times as texts

`to_rfc3339` of chrono for the years 0 to 9999: the Gregorian date, the time of day, a fraction of 0, 3,
6 or 9 digits and the offset. Every field has a fixed width but the fraction, and there the sign of the
offset is less than the point and than every digit.
-/

namespace Nanoguard.Console

open List

/-! ## The calendar -/

def isLeapYear (y : Nat) : Bool := y % 4 = 0 && (y % 100 ≠ 0 || y % 400 = 0)

/-- The days from the start of the year 0 to the start of a year. -/
def daysBeforeYear (y : Nat) : Nat := 365 * y + (y + 3) / 4 - (y + 99) / 100 + (y + 399) / 400

/-- The days of a year before a month. Months count from 0. -/
def daysBeforeMonth (leap : Bool) (m : Nat) : Nat :=
  [0, 31, 59, 90, 120, 151, 181, 212, 243, 273, 304, 334].getD m 365 +
    if leap && 2 ≤ m then 1 else 0

def yearOf (days : Nat) : Nat := Nat.findGreatest (fun y => daysBeforeYear y ≤ days) (days / 365)

def monthOf (leap : Bool) (day : Nat) : Nat :=
  Nat.findGreatest (fun m => daysBeforeMonth leap m ≤ day) 11

theorem daysBeforeYear_succ (y : Nat) :
    daysBeforeYear (y + 1) = daysBeforeYear y + daysBeforeMonth (isLeapYear y) 12 := by
  have hfour : (y + 1 + 3) / 4 = (y + 3) / 4 + if y % 4 = 0 then 1 else 0 := by
    split <;> omega
  have hhundred : (y + 1 + 99) / 100 = (y + 99) / 100 + if y % 100 = 0 then 1 else 0 := by
    split <;> omega
  have hcycle : (y + 1 + 399) / 400 = (y + 399) / 400 + if y % 400 = 0 then 1 else 0 := by
    split <;> omega
  have hdvd : y % 400 = 0 → y % 100 = 0 := by omega
  have hdvd' : y % 100 = 0 → y % 4 = 0 := by omega
  unfold daysBeforeYear
  rw [hhundred, hcycle]
  by_cases h4 : y % 4 = 0 <;> by_cases h100 : y % 100 = 0 <;> by_cases h400 : y % 400 = 0 <;>
    simp [isLeapYear, h100, h400, daysBeforeMonth] at hdvd hdvd' ⊢ <;> omega

theorem yearOf_spec (days : Nat) :
    daysBeforeYear (yearOf days) ≤ days ∧ days < daysBeforeYear (yearOf days + 1) := by
  refine ⟨Nat.findGreatest_spec (P := fun y => daysBeforeYear y ≤ days) (Nat.zero_le _)
    (Nat.zero_le days), ?_⟩
  by_contra hle
  have hlower : 365 * (yearOf days + 1) ≤ daysBeforeYear (yearOf days + 1) := by
    unfold daysBeforeYear
    omega
  have hmore : yearOf days + 1 ≤ yearOf days :=
    Nat.le_findGreatest (P := fun y => daysBeforeYear y ≤ days) (by omega) (Nat.not_lt.1 hle)
  omega

theorem monthOf_spec {leap : Bool} {day : Nat} (h : day < daysBeforeMonth leap 12) :
    daysBeforeMonth leap (monthOf leap day) ≤ day ∧
      day < daysBeforeMonth leap (monthOf leap day + 1) ∧ monthOf leap day ≤ 11 := by
  have hle : monthOf leap day ≤ 11 := Nat.findGreatest_le 11
  have hzero : daysBeforeMonth leap 0 ≤ day := by cases leap <;> exact Nat.zero_le day
  refine ⟨Nat.findGreatest_spec (P := fun m => daysBeforeMonth leap m ≤ day) (Nat.zero_le _) hzero,
    ?_, hle⟩
  rcases Nat.lt_or_eq_of_le hle with hlt | heq
  · exact Nat.not_le.1 (Nat.findGreatest_is_greatest (P := fun m => daysBeforeMonth leap m ≤ day)
      (Nat.lt_succ_self _) hlt)
  · rw [heq]
    exact h

/-- On a staircase the step decides, on one step the place on it, and at one place something else. -/
theorem step_lt_iff {before : Nat → Nat} {k k' n n' : Nat} {p : Prop}
    (h : k < k' → before (k + 1) ≤ before k') (h' : k' < k → before (k' + 1) ≤ before k)
    (hn : before k ≤ n ∧ n < before (k + 1)) (hn' : before k' ≤ n' ∧ n' < before (k' + 1)) :
    n < n' ∨ n = n' ∧ p ↔
      k < k' ∨ k = k' ∧ (n - before k < n' - before k' ∨ n - before k = n' - before k' ∧ p) := by
  rcases Nat.lt_trichotomy k k' with hlt | rfl | hgt
  · exact iff_of_true (.inl (by omega)) (.inl hlt)
  · have hplace : n < n' ↔ n - before k < n' - before k := by omega
    have hsame : n = n' ↔ n - before k = n' - before k := by omega
    simp [hplace, hsame]
  · exact iff_of_false (by omega) (by omega)

theorem daysBeforeYear_mono : Monotone daysBeforeYear :=
  monotone_nat_of_le_succ fun y => by rw [daysBeforeYear_succ]; exact Nat.le_add_right _ _

theorem daysBeforeMonth_step :
    ∀ leap, ∀ m' ≤ 11, ∀ m < m', daysBeforeMonth leap (m + 1) ≤ daysBeforeMonth leap m' := by decide

/-! ## The text -/

def offset : Text := "+00:00".toList

def fraction (nanos : Nat) : Text :=
  if nanos = 0 then offset
  else if nanos % 10 ^ 6 = 0 then '.' :: (padded 3 (nanos / 10 ^ 6) ++ offset)
  else if nanos % 10 ^ 3 = 0 then '.' :: (padded 6 (nanos / 10 ^ 3) ++ offset)
  else '.' :: (padded 9 nanos ++ offset)

def clockText (nanos : Nat) : Text :=
  let inHour := nanos % (3600 * 10 ^ 9)
  let inMinute := inHour % (60 * 10 ^ 9)
  padded 2 (nanos / (3600 * 10 ^ 9)) ++ ':' :: (padded 2 (inHour / (60 * 10 ^ 9)) ++
    ':' :: (padded 2 (inMinute / 10 ^ 9) ++ fraction (inMinute % 10 ^ 9)))

def dateText (days : Nat) (rest : Text) : Text :=
  let year := yearOf days
  let dayOfYear := days - daysBeforeYear year
  let month := monthOf (isLeapYear year) dayOfYear
  padded 4 year ++ '-' :: (padded 2 (month + 1) ++
    '-' :: (padded 2 (dayOfYear - daysBeforeMonth (isLeapYear year) month + 1) ++ rest))

/-- `to_rfc3339` of an instant in the years 0 to 9999. -/
def rfc3339 (t : Int) : Text :=
  let nanos := (t - yearZero).toNat
  dateText (nanos / (86400 * 10 ^ 9)) ('T' :: clockText (nanos % (86400 * 10 ^ 9)))

example : rfc3339 (951782399 * 10 ^ 9 + 120 * 10 ^ 6) = "2000-02-28T23:59:59.120+00:00".toList := by
  decide +kernel

/-! ## The order of the texts -/

theorem cons_lt_cons_self {c : Char} {x y : Text} : c :: x < c :: y ↔ x < y := by
  simp

theorem group_lt {w d r r' : Nat} {x y : Text} (hr : r < d * 10 ^ w) (hr' : r' < d * 10 ^ w)
    (hxy : x < y ↔ r % d < r' % d) : padded w (r / d) ++ x < padded w (r' / d) ++ y ↔ r < r' := by
  rw [padded_append_lt (Nat.div_lt_of_lt_mul hr) (Nat.div_lt_of_lt_mul hr'), hxy, ← lt_iff_div_mod]

theorem padded_add {w v n : Nat} (hn : n < 10 ^ (w + v)) :
    padded (w + v) n = padded w (n / 10 ^ v) ++ padded v (n % 10 ^ v) := by
  induction w generalizing n with
  | zero =>
    rw [Nat.zero_add] at hn ⊢
    rw [Nat.mod_eq_of_lt hn, padded, nil_append]
  | succ w ih =>
    have hdiv : n % 10 ^ (w + v) / 10 ^ v = n / 10 ^ v % 10 ^ w := by
      rw [Nat.add_comm w v, Nat.pow_add, Nat.mod_mul_right_div_self]
    have hmod : n % 10 ^ (w + v) % 10 ^ v = n % 10 ^ v :=
      Nat.mod_mod_of_dvd n (Nat.pow_dvd_pow 10 (Nat.le_add_left v w))
    rw [Nat.add_right_comm, padded, padded, ih (Nat.mod_lt _ (Nat.pow_pos (by omega))), hdiv, hmod,
      Nat.div_div_eq_div_mul, ← Nat.pow_add, Nat.add_comm v w, cons_append]

/-- Groups of three digits up to the last that is not zero. -/
def groups : Nat → Nat → Text
  | 0, _ => offset
  | k + 1, n => if n = 0 then offset else padded 3 (n / 1000 ^ k) ++ groups k (n % 1000 ^ k)

theorem fraction_eq {nanos : Nat} (h : nanos < 10 ^ 9) :
    fraction nanos = if nanos = 0 then offset else '.' :: groups 3 nanos := by
  unfold fraction
  by_cases hzero : nanos = 0
  · rw [if_pos hzero, if_pos hzero]
  have hnine : padded 9 nanos = padded 3 (nanos / 10 ^ 6) ++ padded 6 (nanos % 10 ^ 6) :=
    padded_add (w := 3) (v := 6) h
  have hsix (n : Nat) (hn : n < 10 ^ 6) :
      padded 6 n = padded 3 (n / 10 ^ 3) ++ padded 3 (n % 10 ^ 3) := padded_add (w := 3) (v := 3) hn
  have hrest := Nat.mod_lt nanos (show 0 < 10 ^ 6 by decide)
  have hsame : nanos / 10 ^ 3 / 10 ^ 3 = nanos / 10 ^ 6 := Nat.div_div_eq_div_mul nanos _ _
  have hmiddle : nanos % 10 ^ 6 / 10 ^ 3 = nanos / 10 ^ 3 % 10 ^ 3 := by omega
  rw [hnine, hsix _ hrest, hsix _ (by omega), hsame, ← hmiddle]
  simp only [groups]
  split_ifs <;> first | omega | simp

theorem offset_lt_padded {w n : Nat} (hn : n < 10 ^ (w + 1)) (x : Text) :
    offset < padded (w + 1) n ++ x := by
  have hdigits : ∀ d < 10, '+' < d.digitChar := by decide
  exact cons_lt_cons_iff.2 (.inl (hdigits _ (Nat.div_lt_of_lt_mul hn)))

theorem ite_zero_lt {n n' : Nat} {x y : Text} (hx : offset < x) (hy : offset < y)
    (hxy : x < y ↔ n < n') :
    (if n = 0 then offset else x) < (if n' = 0 then offset else y) ↔ n < n' := by
  by_cases hz : n = 0 <;> by_cases hz' : n' = 0
  · simp [hz, hz']
  · rw [if_pos hz, if_neg hz']
    exact iff_of_true hy (by omega)
  · rw [if_neg hz, if_pos hz']
    exact iff_of_false (List.lt_asymm hx) (by omega)
  · rw [if_neg hz, if_neg hz', hxy]

theorem groups_lt {k n n' : Nat} (hn : n < 1000 ^ k) (hn' : n' < 1000 ^ k) :
    groups k n < groups k n' ↔ n < n' := by
  induction k generalizing n n' with
  | zero =>
    have hoffset : ¬ offset < offset := List.lt_irrefl _
    simp only [groups, hoffset, false_iff]
    omega
  | succ k ih =>
    have hpos : 0 < 1000 ^ k := Nat.pow_pos (by omega)
    exact ite_zero_lt (offset_lt_padded (Nat.div_lt_of_lt_mul hn) _)
      (offset_lt_padded (Nat.div_lt_of_lt_mul hn') _)
      (group_lt hn hn' (ih (Nat.mod_lt _ hpos) (Nat.mod_lt _ hpos)))

theorem fraction_lt {n n' : Nat} (hn : n < 10 ^ 9) (hn' : n' < 10 ^ 9) :
    fraction n < fraction n' ↔ n < n' := by
  have hpoint (x : Text) : offset < '.' :: x := cons_lt_cons_iff.2 (.inl (by decide))
  rw [fraction_eq hn, fraction_eq hn']
  exact ite_zero_lt (hpoint _) (hpoint _) (cons_lt_cons_self.trans (groups_lt hn hn'))

theorem clockText_lt {n n' : Nat} (hn : n < 86400 * 10 ^ 9) (hn' : n' < 86400 * 10 ^ 9) :
    clockText n < clockText n' ↔ n < n' := by
  have hminute (m : Nat) := Nat.mod_lt m (show 0 < 60 * 10 ^ 9 by decide)
  refine group_lt (by omega) (by omega) ?_
  rw [cons_lt_cons_self]
  refine group_lt (by omega) (by omega) ?_
  rw [cons_lt_cons_self]
  exact group_lt (Nat.lt_trans (hminute _) (by decide)) (Nat.lt_trans (hminute _) (by decide))
    (fraction_lt (Nat.mod_lt _ (by decide)) (Nat.mod_lt _ (by decide)))

theorem date_fits {days : Nat} (h : days < daysBeforeYear 10000) :
    let leap := isLeapYear (yearOf days)
    let day := days - daysBeforeYear (yearOf days)
    yearOf days < 10 ^ 4 ∧ day < daysBeforeMonth leap 12 ∧ monthOf leap day + 1 < 10 ^ 2 ∧
      day - daysBeforeMonth leap (monthOf leap day) + 1 < 10 ^ 2 := by
  intro leap day
  have hlength : ∀ leap, ∀ m ≤ 11, daysBeforeMonth leap (m + 1) ≤ daysBeforeMonth leap m + 31 := by
    decide
  have hyear := yearOf_spec days
  have hfour : yearOf days < 10 ^ 4 := by
    by_contra hle
    have hfirst : daysBeforeYear 10000 ≤ daysBeforeYear (yearOf days) :=
      daysBeforeYear_mono (Nat.not_lt.1 hle)
    omega
  rw [daysBeforeYear_succ] at hyear
  have hday : day < daysBeforeMonth leap 12 := Nat.sub_lt_left_of_lt_add hyear.1 hyear.2
  have hmonth := monthOf_spec hday
  have := hlength leap _ hmonth.2.2
  exact ⟨hfour, hday, by omega, by omega⟩

theorem dateText_lt {days days' : Nat} (h : days < daysBeforeYear 10000)
    (h' : days' < daysBeforeYear 10000) (x y : Text) :
    dateText days x < dateText days' y ↔ days < days' ∨ days = days' ∧ x < y := by
  obtain ⟨hyear, hday, hmonth, hplace⟩ := date_fits h
  obtain ⟨hyear', hday', hmonth', hplace'⟩ := date_fits h'
  have hs := yearOf_spec days
  have hs' := yearOf_spec days'
  unfold dateText
  rw [padded_append_lt hyear hyear', cons_lt_cons_self, padded_append_lt hmonth hmonth',
    cons_lt_cons_self, padded_append_lt hplace hplace']
  generalize yearOf days = year at *
  rw [step_lt_iff (fun h => daysBeforeYear_mono h) (fun h => daysBeforeYear_mono h) hs hs']
  refine or_congr_right (and_congr_right fun heq => ?_)
  subst heq
  -- in one year the months are the steps
  have hm := monthOf_spec hday
  have hm' := monthOf_spec hday'
  rw [step_lt_iff (daysBeforeMonth_step _ _ hm'.2.2 _) (daysBeforeMonth_step _ _ hm.2.2 _)
    ⟨hm.1, hm.2.1⟩ ⟨hm'.1, hm'.2.1⟩, Nat.add_lt_add_iff_right, Nat.add_right_cancel_iff,
    Nat.add_lt_add_iff_right, Nat.add_right_cancel_iff]

theorem rfc3339_lt_iff {s t : Int} (hs : FourDigitYear s) (ht : FourDigitYear t) :
    rfc3339 s < rfc3339 t ↔ s < t := by
  have hend : daysBeforeYear 10000 = 3652425 := by decide
  have hnanos {t : Int} (ht : FourDigitYear t) :
      (t - yearZero).toNat / (86400 * 10 ^ 9) < daysBeforeYear 10000 ∧
        ((t - yearZero).toNat : Int) = t - yearZero := by
    unfold FourDigitYear at ht
    unfold yearZero
    omega
  obtain ⟨hdays, hcast⟩ := hnanos hs
  obtain ⟨hdays', hcast'⟩ := hnanos ht
  have hday (n : Nat) := Nat.mod_lt n (show 0 < 86400 * 10 ^ 9 by decide)
  unfold rfc3339
  rw [dateText_lt hdays hdays', cons_lt_cons_self, clockText_lt (hday _) (hday _)]
  omega

/-! ## The statements that compare times -/

/-- A column holds the texts of instants. -/
def Stamped {α : Type} (rows : List α) (column : α → Text) (time : α → Int) : Prop :=
  ∀ row ∈ rows, FourDigitYear (time row) ∧ column row = rfc3339 (time row)

theorem Stamped.decide_lt {α : Type} {rows : List α} {column : α → Text} {time : α → Int}
    (h : Stamped rows column time) {t : Int} (ht : FourDigitYear t) {row : α} (hrow : row ∈ rows) :
    decide (column row < rfc3339 t) = decide (time row < t) ∧
      decide (rfc3339 t < column row) = decide (t < time row) := by
  obtain ⟨hyear, htext⟩ := h row hrow
  rw [htext]
  exact ⟨decide_eq_decide.2 (rfc3339_lt_iff hyear ht), decide_eq_decide.2 (rfc3339_lt_iff ht hyear)⟩

namespace LoginDb

variable {db : LoginDb}

theorem deleteSessions_congr {p q : Session → Bool} (h : ∀ s ∈ db.sessions, p s = q s) :
    db.deleteSessions p = db.deleteSessions q := by
  have hfilter : (db.sessions.filter fun s => !p s) = db.sessions.filter fun s => !q s :=
    filter_congr fun s hs => by rw [h s hs]
  unfold deleteSessions
  simp only [hfilter]

theorem deleteAttempts_congr {p q : LoginAttempt → Bool} (h : ∀ a ∈ db.attempts, p a = q a) :
    db.deleteAttempts p = db.deleteAttempts q := by
  have hfilter : (db.attempts.filter fun a => !p a) = db.attempts.filter fun a => !q a :=
    filter_congr fun a ha => by rw [h a ha]
  unfold deleteAttempts
  simp only [hfilter]

theorem countAttempts_stamped {attempted : LoginAttempt → Int} {t : Int}
    (h : Stamped db.attempts LoginAttempt.attemptedAt attempted) (ht : FourDigitYear t)
    (hok : db.attemptsError = none) (p : LoginAttempt → Bool) :
    db.countAttempts p (rfc3339 t) =
      .ok (db.attempts.countP fun a => p a && decide (t < attempted a)) := by
  unfold countAttempts
  rw [hok]
  refine congrArg Except.ok (countP_congr fun a ha => ?_)
  rw [(h.decide_lt ht ha).2]

end LoginDb

/-- **Stored times compare as texts like instants**, so that the statements with a time in their
condition delete and count the rows whose instants meet it. -/
theorem timestamps_compare_like_instants :
    (∀ s t, FourDigitYear s → FourDigitYear t → (rfc3339 s < rfc3339 t ↔ s < t)) ∧
    ∀ (db : LoginDb) (t : Int), FourDigitYear t →
      (∀ expiry, Stamped db.sessions Session.expiresAt expiry →
        db.pruneExpiredSessions (rfc3339 t) = db.deleteSessions fun s => decide (expiry s < t)) ∧
      (∀ lastSeen, Stamped db.sessions Session.lastSeenAt lastSeen →
        db.pruneIdleSessions (rfc3339 t) = db.deleteSessions fun s => decide (lastSeen s < t)) ∧
      ∀ attempted, Stamped db.attempts LoginAttempt.attemptedAt attempted →
        db.pruneOldLoginAttempts (rfc3339 t) =
          (db.deleteAttempts fun a => decide (attempted a < t)) ∧
        (db.attemptsError = none → ∀ username,
          db.countRecentLoginAttempts username (rfc3339 t) =
            .ok (db.attempts.countP fun a => decide (a.username = username) && decide (t < attempted a))) ∧
        (db.attemptsError = none → ∀ ip,
          db.countRecentLoginAttemptsByIp ip (rfc3339 t) =
            .ok (db.attempts.countP fun a => decide (a.ip = some ip) && decide (t < attempted a))) := by
  refine ⟨fun s t hs ht => rfc3339_lt_iff hs ht, fun db t ht => ⟨fun expiry h => ?_,
    fun lastSeen h => ?_, fun attempted h => ⟨?_, fun hok username => ?_, fun hok ip => ?_⟩⟩⟩
  · exact LoginDb.deleteSessions_congr fun s hs => (h.decide_lt ht hs).1
  · exact LoginDb.deleteSessions_congr fun s hs => (h.decide_lt ht hs).1
  · exact LoginDb.deleteAttempts_congr fun a ha => (h.decide_lt ht ha).1
  · exact LoginDb.countAttempts_stamped h ht hok _
  · exact LoginDb.countAttempts_stamped h ht hok _

end Nanoguard.Console
