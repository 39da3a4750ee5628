import EntitySearch.Instant.Rfc3339
import EntitySearch.Proofs.Calendar
import Mathlib.Data.List.TakeWhile
/-!
RFC 3339 timestamps. Their grammar is given apart from the reader, and what a timestamp shows is
what clocks at its offset show; the reader takes exactly the texts of the grammar, each for the
instant at which clocks show so.
-/
namespace EntitySearch.Instant
open Calendar

section Numerals

/-- `ds` are the digits of `n` on `width` places. -/
structure Numeral (width n : Nat) (ds : List Char) : Prop where
  length_eq : ds.length = width
  digits : ∀ d ∈ ds, d.isDigit = true
  value_eq : Nat.ofDigitChars 10 ds 0 = n

theorem ofDigitChars_cons_zero (c : Char) (ds : List Char) :
    Nat.ofDigitChars 10 (c :: ds) 0 =
      (c.toNat - 48) * 10 ^ ds.length + Nat.ofDigitChars 10 ds 0 := by
  rw [Nat.ofDigitChars_cons, Nat.ofDigitChars_eq_ofDigitChars_zero, Nat.mul_zero, Nat.zero_add,
    Nat.mul_comm]
  rfl

theorem digit?_eq_some_iff {c : Char} {d : Nat} :
    digit? c = some d ↔ c.isDigit = true ∧ c.toNat - 48 = d := by
  rw [digit?, Option.ite_none_right_eq_some, Option.some.injEq]

theorem number?_succ {width n : Nat} {c : Char} {cs rest : List Char} :
    number? (width + 1) (c :: cs) = some (n, rest) ↔ c.isDigit = true ∧
      ∃ m, number? width cs = some (m, rest) ∧ (c.toNat - 48) * 10 ^ width + m = n := by
  simp only [number?, Option.bind_eq_bind, Option.bind_eq_some_iff, digit?_eq_some_iff,
    Option.pure_def, Option.some.injEq, Prod.mk.injEq, Prod.exists, Nat.pow_eq]
  constructor
  · rintro ⟨_, ⟨hdigit, rfl⟩, m, _, hm, hn, rfl⟩
    exact ⟨hdigit, m, hm, hn⟩
  · rintro ⟨hdigit, m, hm, hn⟩
    exact ⟨_, ⟨hdigit, rfl⟩, m, _, hm, hn, rfl⟩

theorem number?_eq_some_iff {width n : Nat} {cs rest : List Char} :
    number? width cs = some (n, rest) ↔ ∃ ds, Numeral width n ds ∧ cs = ds ++ rest := by
  induction width generalizing n cs with
  | zero =>
    rw [number?, Option.some.injEq, Prod.mk.injEq]
    constructor
    · rintro ⟨rfl, rfl⟩
      exact ⟨[], ⟨rfl, List.forall_mem_nil _, rfl⟩, rfl⟩
    · rintro ⟨ds, ⟨hlength, -, rfl⟩, rfl⟩
      obtain rfl := List.length_eq_zero_iff.mp hlength
      exact ⟨rfl, rfl⟩
  | succ width ih =>
    cases cs with
    | nil =>
      simp only [number?, reduceCtorEq, false_iff]
      rintro ⟨ds, ⟨hlength, -, -⟩, hds⟩
      obtain ⟨rfl, -⟩ := List.append_eq_nil_iff.mp hds.symm
      simp at hlength
    | cons c cs =>
      rw [number?_succ]
      constructor
      · rintro ⟨hdigit, m, hm, rfl⟩
        obtain ⟨ds, ⟨rfl, hdigits, rfl⟩, rfl⟩ := ih.mp hm
        exact ⟨c :: ds, ⟨rfl, List.forall_mem_cons.mpr ⟨hdigit, hdigits⟩,
          ofDigitChars_cons_zero c ds⟩, rfl⟩
      · rintro ⟨ds, ⟨hlength, hdigits, rfl⟩, hds⟩
        cases ds with
        | nil => simp at hlength
        | cons d ds =>
          obtain ⟨rfl, rfl⟩ := List.cons.inj hds
          obtain ⟨hdigit, hdigits⟩ := List.forall_mem_cons.mp hdigits
          obtain rfl : ds.length = width := Nat.succ.inj hlength
          exact ⟨hdigit, _, ih.mpr ⟨ds, ⟨rfl, hdigits, rfl⟩, rfl⟩,
            (ofDigitChars_cons_zero c ds).symm⟩

theorem mark?_eq_some_iff {ok : Char → Bool} {cs rest : List Char} :
    mark? ok cs = some rest ↔ ∃ c, ok c = true ∧ cs = c :: rest := by
  cases cs with
  | nil => simp [mark?]
  | cons c cs =>
    rw [mark?, Option.ite_none_right_eq_some, Option.some.injEq]
    constructor
    · rintro ⟨hc, rfl⟩
      exact ⟨c, hc, rfl⟩
    · rintro ⟨d, hd, h⟩
      obtain ⟨rfl, rfl⟩ := List.cons.inj h
      exact ⟨hd, rfl⟩

theorem numeral_padded {width n : Nat} (hwidth : 0 < width) (h : n < 10 ^ width) :
    Numeral width n (padded width n).toList := by
  have hlength : (Nat.toDigits 10 n).length ≤ width :=
    (Nat.length_toDigits_le_iff (by decide) hwidth).mpr h
  have hlist : (padded width n).toList =
      List.replicate (width - (Nat.toDigits 10 n).length) '0' ++ Nat.toDigits 10 n := by
    show (String.ofList (List.replicate (width - n.repr.length) '0') ++ n.repr).toList = _
    rw [String.toList_append, String.toList_ofList, ← String.length_toList, Nat.toList_repr]
  rw [hlist]
  refine ⟨?_, ?_, ?_⟩
  · rw [List.length_append, List.length_replicate]
    omega
  · intro d hd
    rcases List.mem_append.mp hd with hd | hd
    · rw [(List.mem_replicate.mp hd).2]
      rfl
    · exact Nat.isDigit_of_mem_toDigits (by decide) (by decide) hd
  · rw [Nat.ofDigitChars_append, Nat.ofDigitChars_replicate_zero, Nat.mul_zero,
      Nat.ofDigitChars_ten_toDigits]

end Numerals

section Fractions

/-- Nanoseconds written as digits after a point, if there are any; after the ninth digit they do not
count. -/
inductive Fraction : Nat → List Char → Prop
  | none : Fraction 0 []
  | digits {ds : List Char} : ds ≠ [] → (∀ d ∈ ds, d.isDigit = true) →
      Fraction (Nat.ofDigitChars 10 ((ds ++ List.replicate 9 '0').take 9) 0) ('.' :: ds)

theorem nanoOf_eq (ds : List Char) :
    nanoOf ds = Nat.ofDigitChars 10 ((ds ++ List.replicate 9 '0').take 9) 0 := by
  have hfold : (ds.take 9).foldl (fun n d => n * 10 + (d.toNat - 48)) 0 =
      Nat.ofDigitChars 10 (ds.take 9) 0 := by
    simp only [Nat.ofDigitChars, Nat.mul_comm]
    rfl
  rw [nanoOf, hfold, List.take_append, Nat.ofDigitChars_append, List.take_replicate,
    Nat.ofDigitChars_replicate_zero]
  simp [Nat.mul_comm]

/-- What may follow a fraction: neither a digit nor a point. -/
def EndsFraction (rest : List Char) : Prop := ∀ c ∈ rest.head?, c.isDigit = false ∧ c ≠ '.'

theorem fraction?_eq_some_iff {n : Nat} {cs rest : List Char} (hrest : EndsFraction rest) :
    fraction? cs = some (n, rest) ↔ ∃ f, Fraction n f ∧ cs = f ++ rest := by
  constructor
  · intro h
    unfold fraction? at h
    split at h
    next cs =>
      obtain ⟨hne, h⟩ := Option.ite_none_left_eq_some.mp h
      obtain ⟨rfl, rfl⟩ := Prod.mk.inj (Option.some.inj h)
      rw [nanoOf_eq]
      refine ⟨_, .digits (by simpa using hne) fun d hd => List.mem_takeWhile_imp hd, ?_⟩
      rw [List.cons_append, List.takeWhile_append_dropWhile]
    next =>
      obtain ⟨rfl, rfl⟩ := Prod.mk.inj (Option.some.inj h)
      exact ⟨[], .none, rfl⟩
  · rintro ⟨f, hf, rfl⟩
    cases hf with
    | none =>
      unfold fraction?
      split
      next h => exact absurd rfl (hrest '.' (by simp [show rest = '.' :: _ from h])).2
      next => rfl
    | @digits ds hne hdigits =>
      have hstop : rest.takeWhile Char.isDigit = [] ∧ rest.dropWhile Char.isDigit = rest := by
        cases rest with
        | nil => exact ⟨rfl, rfl⟩
        | cons c rest => simp [(hrest c rfl).1]
      have htake : (ds ++ rest).takeWhile Char.isDigit = ds := by
        rw [List.takeWhile_append_of_pos hdigits, hstop.1, List.append_nil]
      have hdrop : (ds ++ rest).dropWhile Char.isDigit = rest := by
        rw [List.dropWhile_append_of_pos hdigits, hstop.2]
      simp only [fraction?, List.cons_append, htake, hdrop]
      simp [hne, nanoOf_eq]

theorem fraction_padded {places n : Nat} (hplaces : 0 < places ∧ places ≤ 9)
    (h : n < 10 ^ places) : Fraction (n * 10 ^ (9 - places)) ('.' :: (padded places n).toList) := by
  obtain ⟨hlength, hdigits, hvalue⟩ := numeral_padded hplaces.1 h
  have hne : (padded places n).toList ≠ [] :=
    List.ne_nil_of_length_pos (by rw [hlength]; exact hplaces.1)
  have hfraction := Fraction.digits hne hdigits
  rw [List.take_append, List.take_of_length_le (by omega), hlength, List.take_replicate,
    Nat.ofDigitChars_append, Nat.ofDigitChars_replicate_zero, hvalue, Nat.mul_comm] at hfraction
  simpa using hfraction

/-- The places that are left out would hold zeros. -/
theorem fractionPlaces_cases (t : Instant) :
    (t.fractionPlaces = 0 ∧ t.nano % 1000000000 = 0) ∨
      ((0 < t.fractionPlaces ∧ t.fractionPlaces ≤ 9) ∧
        10 ^ (9 - t.fractionPlaces) ∣ t.nano % 1000000000) := by
  unfold fractionPlaces
  dsimp only
  split
  next h => exact .inl ⟨rfl, h⟩
  next =>
    right
    split
    next h => exact ⟨by decide, Nat.dvd_of_mod_eq_zero h⟩
    next =>
      split
      next h => exact ⟨by decide, Nat.dvd_of_mod_eq_zero h⟩
      next => exact ⟨by decide, Nat.one_dvd _⟩

theorem fraction_text (t : Instant) : Fraction (t.nano % 1000000000)
    (if t.fractionPlaces = 0 then "" else t.fractionText t.fractionPlaces).toList := by
  have hlt : t.nano % 1000000000 < 10 ^ 9 := Nat.mod_lt _ (by decide)
  rcases t.fractionPlaces_cases with ⟨hnone, hzero⟩ | ⟨hplaces, hdvd⟩
  · rw [if_pos hnone, hzero]
    exact .none
  · have htext : (t.fractionText t.fractionPlaces).toList = '.' :: (padded t.fractionPlaces
        (t.nano % 1000000000 / 10 ^ (9 - t.fractionPlaces))).toList := by
      rw [fractionText, String.toList_append]
      rfl
    have hfits : t.nano % 1000000000 / 10 ^ (9 - t.fractionPlaces) < 10 ^ t.fractionPlaces := by
      apply Nat.div_lt_of_lt_mul
      rwa [← Nat.pow_add, Nat.sub_add_cancel hplaces.2]
    have hfraction := fraction_padded hplaces hfits
    rw [Nat.div_mul_cancel hdvd, ← htext] at hfraction
    rwa [if_neg (by omega)]

end Fractions

section Zones

/-- An offset from universal time, in minutes: none, or hours and minutes after a sign. -/
inductive Zone : Int → List Char → Prop
  | utc {c : Char} : c = 'Z' ∨ c = 'z' → Zone 0 [c]
  | ahead {h m : Nat} {hs ms : List Char} : Numeral 2 h hs → Numeral 2 m ms → h ≤ 23 → m ≤ 59 →
      Zone (h * 60 + m) ('+' :: hs ++ ':' :: ms)
  | behind {c : Char} {h m : Nat} {hs ms : List Char} : c = '-' ∨ c = '−' → Numeral 2 h hs →
      Numeral 2 m ms → h ≤ 23 → m ≤ 59 → Zone (-(h * 60 + m)) (c :: hs ++ ':' :: ms)

theorem Zone.endsFraction {offset : Int} {zone : List Char} (h : Zone offset zone) :
    EndsFraction zone := by
  intro c hc
  cases h with
  | utc hz =>
    obtain rfl := Option.some.inj hc
    rcases hz with rfl | rfl <;> decide
  | ahead =>
    obtain rfl := Option.some.inj hc
    decide
  | behind hsign =>
    obtain rfl := Option.some.inj hc
    rcases hsign with rfl | rfl <;> decide

theorem offset?_eq_some_iff {offset : Int} {cs : List Char} :
    offset? cs = some offset ↔ Zone offset cs := by
  constructor
  · intro h
    cases cs with
    | nil => simp [offset?] at h
    | cons c cs =>
      simp only [offset?] at h
      split at h
      next hz =>
        obtain ⟨hnil, ho⟩ := Option.ite_none_right_eq_some.mp h
        obtain rfl := List.isEmpty_iff.mp hnil
        obtain rfl := Option.some.inj ho
        exact .utc (by simpa using hz)
      next =>
        obtain ⟨hsign, h⟩ := Option.ite_none_right_eq_some.mp h
        obtain ⟨⟨hour, _⟩, hhour, h⟩ := Option.bind_eq_some_iff.mp h
        obtain ⟨_, hcolon, h⟩ := Option.bind_eq_some_iff.mp h
        obtain ⟨⟨minute, _⟩, hminute, h⟩ := Option.bind_eq_some_iff.mp h
        obtain ⟨hend, ho⟩ := Option.ite_none_right_eq_some.mp h
        simp only [Bool.and_eq_true, List.isEmpty_iff, decide_eq_true_eq] at hend
        obtain ⟨⟨rfl, hh⟩, hm⟩ := hend
        obtain ⟨hs, hhs, rfl⟩ := number?_eq_some_iff.mp hhour
        obtain ⟨d, hd, rfl⟩ := mark?_eq_some_iff.mp hcolon
        obtain ⟨ms, hms, rfl⟩ := number?_eq_some_iff.mp hminute
        obtain rfl := beq_iff_eq.mp hd
        obtain rfl := Option.some.inj ho
        rw [List.append_nil]
        simp only [Bool.or_eq_true, beq_iff_eq] at hsign
        rcases hsign with (rfl | rfl) | rfl
        · exact .ahead hhs hms hh hm
        · exact .behind (.inl rfl) hhs hms hh hm
        · exact .behind (.inr rfl) hhs hms hh hm
  · intro h
    cases h with
    | utc hz => rcases hz with rfl | rfl <;> rfl
    | @ahead hour minute hs ms hhs hms hh hm =>
      have hhour : number? 2 (hs ++ ':' :: ms) = some (hour, ':' :: ms) :=
        number?_eq_some_iff.mpr ⟨hs, hhs, rfl⟩
      have hminute : number? 2 ms = some (minute, []) :=
        number?_eq_some_iff.mpr ⟨ms, hms, (List.append_nil ms).symm⟩
      simp [offset?, hhour, mark?, hminute, hh, hm]
    | @behind c hour minute hs ms hsign hhs hms hh hm =>
      have hhour : number? 2 (hs ++ ':' :: ms) = some (hour, ':' :: ms) :=
        number?_eq_some_iff.mpr ⟨hs, hhs, rfl⟩
      have hminute : number? 2 ms = some (minute, []) :=
        number?_eq_some_iff.mpr ⟨ms, hms, (List.append_nil ms).symm⟩
      rcases hsign with rfl | rfl <;> simp [offset?, hhour, mark?, hminute, hh, hm]

theorem exists_zone {offset : Int} (h : -1440 < offset ∧ offset < 1440) :
    ∃ zone, Zone offset zone := by
  have hhour : Numeral 2 (offset.natAbs / 60) (padded 2 (offset.natAbs / 60)).toList :=
    numeral_padded (by decide) (by omega)
  have hminute : Numeral 2 (offset.natAbs % 60) (padded 2 (offset.natAbs % 60)).toList :=
    numeral_padded (by decide) (by omega)
  have hahead := Zone.ahead hhour hminute (by omega) (by omega)
  have hbehind := Zone.behind (.inl rfl) hhour hminute (by omega) (by omega)
  have hsum : ((offset.natAbs / 60 : Nat) : Int) * 60 + (offset.natAbs % 60 : Nat) =
      offset.natAbs := by
    omega
  rw [hsum] at hahead hbehind
  rcases Int.le_total 0 offset with hsign | hsign
  · rw [Int.natAbs_of_nonneg hsign] at hahead
    exact ⟨_, hahead⟩
  · rw [Int.ofNat_natAbs_of_nonpos hsign, Int.neg_neg] at hbehind
    exact ⟨_, hbehind⟩

end Zones

namespace Local

/-- The grammar of timestamps: a date, a time of day and an offset. -/
inductive Spelled (l : Local) : List Char → Prop
  | intro {y : Nat} {year month day hour minute second fraction zone : List Char} {mark : Char} :
      l.date.year = y → Numeral 4 y year → Numeral 2 l.date.month month →
      Numeral 2 l.date.day day → mark = 'T' ∨ mark = 't' ∨ mark = ' ' → Numeral 2 l.hour hour →
      Numeral 2 l.minute minute → Numeral 2 l.second second → Fraction l.nano fraction →
      Zone l.offset zone →
      Spelled l (year ++ '-' :: (month ++ '-' :: (day ++ mark ::
        (hour ++ ':' :: (minute ++ ':' :: (second ++ (fraction ++ zone)))))))

theorem valid_iff {l : Local} : l.valid = true ↔ l.date.valid = true ∧ l.hour ≤ 23 ∧
    l.minute ≤ 59 ∧ l.second ≤ 60 ∧ l.nano < 1000000000 := by
  simp [valid, and_assoc]

/-- Numbers are filled up with zeros. -/
theorem spelled_padded {l : Local} (hvalid : l.valid = true)
    (hyear : 0 ≤ l.date.year ∧ l.date.year ≤ 9999) {fraction zone : List Char}
    (hfraction : Fraction l.nano fraction) (hzone : Zone l.offset zone) :
    l.Spelled ((padded 4 l.date.year.toNat).toList ++ '-' :: ((padded 2 l.date.month).toList ++
      '-' :: ((padded 2 l.date.day).toList ++ 'T' :: ((padded 2 l.hour).toList ++
      ':' :: ((padded 2 l.minute).toList ++ ':' :: ((padded 2 l.second).toList ++
      (fraction ++ zone))))))) := by
  obtain ⟨hdate, hhour, hminute, hsecond, -⟩ := valid_iff.mp hvalid
  obtain ⟨⟨-, hmonth⟩, -, hday⟩ := Calendar.valid_iff.mp hdate
  have hlast := daysInMonth_le l.date.year l.date.month
  have hnumeral {n : Nat} (h : n < 100) : Numeral 2 n (padded 2 n).toList :=
    numeral_padded (by decide) h
  exact .intro (Int.toNat_of_nonneg hyear.1).symm (numeral_padded (by decide) (by omega))
    (hnumeral (by omega)) (hnumeral (by omega)) (.inl rfl) (hnumeral (by omega))
    (hnumeral (by omega)) (hnumeral (by omega)) hfraction hzone

end Local

theorem local?_eq_some_iff {l : Local} {cs : List Char} : local? cs = some l ↔ l.Spelled cs := by
  simp only [local?, Option.bind_eq_bind, Option.bind_eq_some_iff, Prod.exists,
    number?_eq_some_iff, mark?_eq_some_iff, beq_iff_eq, Bool.or_eq_true, offset?_eq_some_iff,
    Option.pure_def, Option.some.injEq]
  constructor
  · rintro ⟨year, _, ⟨ys, hys, rfl⟩, _, ⟨_, rfl, rfl⟩, month, _, ⟨ms, hms, rfl⟩, _, ⟨_, rfl, rfl⟩,
      day, _, ⟨ds, hds, rfl⟩, _, ⟨mark, hmark, rfl⟩, hour, _, ⟨hs, hhs, rfl⟩, _, ⟨_, rfl, rfl⟩,
      minute, _, ⟨ns, hns, rfl⟩, _, ⟨_, rfl, rfl⟩, second, _, ⟨ss, hss, rfl⟩, nano, zone, hfraction,
      offset, hzone, rfl⟩
    obtain ⟨f, hf, rfl⟩ := (fraction?_eq_some_iff hzone.endsFraction).mp hfraction
    exact .intro rfl hys hms hds (or_assoc.mp hmark) hhs hns hss hf hzone
  · rintro ⟨hyear, hys, hms, hds, hmark, hhs, hns, hss, hf, hzone⟩
    obtain ⟨⟨year, month, day⟩, hour, minute, second, nano, offset⟩ := l
    obtain rfl := hyear
    exact ⟨_, _, ⟨_, hys, rfl⟩, _, ⟨_, rfl, rfl⟩, _, _, ⟨_, hms, rfl⟩, _, ⟨_, rfl, rfl⟩,
      _, _, ⟨_, hds, rfl⟩, _, ⟨_, or_assoc.mpr hmark, rfl⟩, _, _, ⟨_, hhs, rfl⟩, _, ⟨_, rfl, rfl⟩,
      _, _, ⟨_, hns, rfl⟩, _, ⟨_, rfl, rfl⟩, _, _, ⟨_, hss, rfl⟩, _, _,
      (fraction?_eq_some_iff hzone.endsFraction).mpr ⟨_, hf, rfl⟩, _, hzone, rfl⟩

/-- What clocks at an offset, in minutes, show at an instant. -/
def localAt (t : Instant) (offset : Int) : Local :=
  let second := t.second + offset * 60
  let s := (second % 86400).toNat
  ⟨Date.ofDays (second / 86400), s / 3600, s / 60 % 60, s % 60 + t.nano / 1000000000,
    t.nano % 1000000000, offset⟩

/-- A leap second comes after the last second of a minute. -/
def Regular (t : Instant) : Prop := 1000000000 ≤ t.nano → t.second % 60 = 59

theorem valid_localAt (t : Instant) (offset : Int) : (t.localAt offset).valid = true := by
  have := t.nano_lt
  rw [Local.valid_iff]
  refine ⟨valid_ofDays _, ?_⟩
  simp only [localAt]
  omega

section Reading
variable {l : Local} {t : Instant} {offset : Int} {text : String}

theorem regular_of_toInstant? (h : l.toInstant? = some t) : t.Regular := by
  unfold Local.toInstant? at h
  split at h
  next hvalid =>
    obtain ⟨-, hhour, hminute, hsecond, hnano⟩ := Local.valid_iff.mp hvalid
    obtain rfl := Option.some.inj h
    unfold Regular
    dsimp only
    split <;> omega
  next => simp at h

theorem localAt_of_toInstant? (h : l.toInstant? = some t) : t.localAt l.offset = l := by
  unfold Local.toInstant? at h
  split at h
  next hvalid =>
    obtain ⟨hdate, hhour, hminute, hsecond, hnano⟩ := Local.valid_iff.mp hvalid
    obtain rfl := Option.some.inj h
    obtain ⟨date, hour, minute, second, nano, offset⟩ := l
    dsimp only at *
    generalize hclock : hour * 3600 + minute * 60 + min second 59 = clock
    have hback : date.toDays * 86400 + (clock : Int) - offset * 60 + offset * 60 =
        date.toDays * 86400 + clock := by omega
    have hday : (date.toDays * 86400 + (clock : Int)) / 86400 = date.toDays := by omega
    have hrest : ((date.toDays * 86400 + (clock : Int)) % 86400).toNat = clock := by omega
    simp only [localAt, hback, hday, hrest, ofDays_toDays hdate, Local.mk.injEq, true_and, and_true]
    by_cases hleap : second = 60
    · simp only [if_pos hleap]
      omega
    · simp only [if_neg hleap]
      omega
  next => simp at h

theorem toInstant?_of_localAt (h : t.Regular) (hl : t.localAt l.offset = l) :
    l.toInstant? = some t := by
  have hvalid : l.valid = true := hl ▸ t.valid_localAt l.offset
  have hlt := t.nano_lt
  obtain ⟨s, nano, _⟩ := t
  obtain ⟨date, hour, minute, second, rest, offset⟩ := l
  unfold Regular at h
  dsimp only at h hlt
  simp only [localAt, Local.mk.injEq, and_true] at hl
  obtain ⟨rfl, rfl, rfl, rfl, rfl⟩ := hl
  unfold Local.toInstant?
  rw [dif_pos hvalid]
  simp only [toDays_ofDays, Option.some.injEq, Instant.mk.injEq]
  -- only at the end of a minute do nanoseconds beyond a second show as its 60th second
  constructor
  · omega
  · split <;> omega

/-- The timestamps of an instant at an offset. -/
structure WrittenAt (t : Instant) (offset : Int) (text : String) : Prop where
  regular : t.Regular
  spelled : (t.localAt offset).Spelled text.toList

/-- A text is read as the instant that it is a timestamp of. -/
theorem read?_eq_some_iff : read? text = some t ↔ ∃ offset, t.WrittenAt offset text := by
  rw [read?, Option.bind_eq_some_iff]
  simp only [local?_eq_some_iff]
  constructor
  · rintro ⟨l, hl, h⟩
    exact ⟨l.offset, regular_of_toInstant? h, by rwa [localAt_of_toInstant? h]⟩
  · rintro ⟨offset, hregular, hspelled⟩
    exact ⟨_, hspelled, toInstant?_of_localAt hregular rfl⟩

/-- A text that spells no date and time of day is not read. -/
theorem read?_eq_none_iff :
    read? text = none ↔ ∀ l : Local, l.valid = true → ¬ l.Spelled text.toList := by
  rw [read?, Option.bind_eq_none_iff]
  simp only [local?_eq_some_iff]
  constructor
  · intro h l hvalid hspelled
    have hnone := h l hspelled
    simp [Local.toInstant?, hvalid] at hnone
  · intro h l hspelled
    exact dif_neg fun hvalid => h l hvalid hspelled

/-- An instant has a timestamp wherever clocks show a year of four digits. -/
theorem exists_writtenAt (hregular : t.Regular) (hoffset : -1440 < offset ∧ offset < 1440)
    (hyear : 0 ≤ (t.localAt offset).date.year ∧ (t.localAt offset).date.year ≤ 9999) :
    ∃ text, t.WrittenAt offset text := by
  have hvalid := t.valid_localAt offset
  obtain ⟨zone, hzone⟩ := exists_zone hoffset
  have hfraction : Fraction (t.localAt offset).nano
      ('.' :: (padded 9 (t.localAt offset).nano).toList) := by
    have hnine := fraction_padded (by decide : 0 < 9 ∧ 9 ≤ 9) (Local.valid_iff.mp hvalid).2.2.2.2
    simpa using hnine
  have hspelled := Local.spelled_padded hvalid hyear hfraction hzone
  exact ⟨String.ofList _, hregular, by rwa [String.toList_ofList]⟩

/-- The text that an instant travels as is a timestamp of it in universal time. -/
theorem writtenAt_text (hregular : t.Regular) (hyear : 0 ≤ t.date.year ∧ t.date.year ≤ 9999) :
    t.WrittenAt 0 t.text := by
  have hdate : (t.localAt 0).date = t.date := by simp [localAt, date]
  have hspelled := Local.spelled_padded (t.valid_localAt 0) (hdate ▸ hyear) t.fraction_text
    (.utc (.inl rfl))
  refine ⟨hregular, ?_⟩
  rw [hdate] at hspelled
  simpa [text, textWith, dateText, clockText, yearText, hyear, localAt] using hspelled

end Reading
end EntitySearch.Instant
