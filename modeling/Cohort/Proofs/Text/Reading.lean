import Mathlib.Data.List.TakeWhile
import Cohort.Text.Blank
import Cohort.Text.Numeral
/-
  What is READ of a text: trimming and numerals, said without the functions that do it.

  1. **Trimming.**  `Trims cs core` says that `core` is `cs` without blanks at either end.  There is
     just one such core, and it is the one that `trimList` finds (`trims_iff`).

  2. **Numerals.**  `Denotes cs n` is the grammar of numerals: an optional plus sign, digits, at
     least one of them.  Reading accepts exactly the numerals of numbers within the limit
     (`readList_eq_ok_iff`).  It gives up as soon as the digits so far are too large, which decides
     nothing, because digits never make a number smaller (`le_ofDigitChars`).

  3. **Printing.**  The digits that a number is printed by are a numeral of it, without blanks
     (`denotes_toDigits`), so a number within the limit is read back.
-/

namespace Cohort.Text

/-! ## Trimming -/

/-- `core` is what is left of `cs` when all blanks are cut off both ends. -/
structure Trims (cs core : List Char) : Prop where
  cut : ∃ before after, (∀ c ∈ before, isBlank c = true) ∧ (∀ c ∈ after, isBlank c = true) ∧
    cs = before ++ core ++ after
  head : ∀ c, core.head? = some c → isBlank c = false
  last : ∀ c, core.getLast? = some c → isBlank c = false

section

variable {cs core before after : List Char}

/-- Blanks in front of something that is none are cut off. -/
theorem dropWhile_blanks (hbefore : ∀ c ∈ before, isBlank c = true)
    (hhead : ∀ c, core.head? = some c → isBlank c = false) :
    (before ++ core).dropWhile isBlank = core := by
  rw [List.dropWhile_append_of_pos hbefore]
  cases core with
  | nil => rfl
  | cons c core => exact List.dropWhile_cons_of_neg (Bool.eq_false_iff.mp (hhead c rfl))

/-- What is left once blanks are cut off the front does not begin with one. -/
theorem head_dropWhile_blanks (cs : List Char) :
    ∀ c, (cs.dropWhile isBlank).head? = some c → isBlank c = false := by
  intro c hc
  have hhead := List.head?_dropWhile_not isBlank cs
  rw [hc] at hhead
  exact hhead

/-- **Trimming finds the core.** -/
theorem trims_trimList (cs : List Char) : Trims cs (trimList cs) := by
  have hfront := List.takeWhile_append_dropWhile (p := isBlank) (l := cs)
  have hback := List.takeWhile_append_dropWhile (p := isBlank) (l := (cs.dropWhile isBlank).reverse)
  refine ⟨⟨cs.takeWhile isBlank, ((cs.dropWhile isBlank).reverse.takeWhile isBlank).reverse,
    fun c => List.mem_takeWhile_imp, fun c hc => ?_, ?_⟩, fun c hc => ?_, fun c hc => ?_⟩
  · exact List.mem_takeWhile_imp (List.mem_reverse.mp hc)
  · rw [trimList, List.append_assoc, ← List.reverse_append, hback, List.reverse_reverse, hfront]
  · -- the front of what is left is the front of what trimming the back started from
    have hpart : trimList cs <+: cs.dropWhile isBlank := by
      rw [trimList, ← List.reverse_suffix, List.reverse_reverse]
      exact List.dropWhile_suffix isBlank
    obtain ⟨rest, hrest⟩ := hpart
    refine head_dropWhile_blanks cs c ?_
    rw [← hrest, List.head?_append, hc]
    rfl
  · rw [trimList, List.getLast?_reverse] at hc
    exact head_dropWhile_blanks _ c hc

/-- **A text has one core**, which trimming finds. -/
theorem trims_iff : Trims cs core ↔ trimList cs = core := by
  constructor
  · rintro ⟨⟨before, after, hbefore, hafter, rfl⟩, hhead, hlast⟩
    cases hcore : core with
    | nil =>
      have hblank : ∀ c ∈ before ++ [] ++ after, isBlank c = true := by
        intro c hc
        rw [List.append_nil] at hc
        exact (List.mem_append.mp hc).elim (hbefore c) (hafter c)
      rw [trimList, List.dropWhile_eq_nil_iff.mpr hblank]
      rfl
    | cons d ds =>
      have hfront : (before ++ core ++ after).dropWhile isBlank = core ++ after := by
        rw [List.append_assoc]
        refine dropWhile_blanks hbefore fun c hc => hhead c ?_
        rw [hcore] at hc ⊢
        exact hc
      have hback : (core ++ after).reverse.dropWhile isBlank = core.reverse := by
        rw [List.reverse_append]
        refine dropWhile_blanks (fun c hc => hafter c (List.mem_reverse.mp hc)) fun c hc => ?_
        rw [List.head?_reverse] at hc
        exact hlast c hc
      rw [← hcore, trimList, hfront, hback, List.reverse_reverse]
  · rintro rfl
    exact trims_trimList cs

/-- What has no blanks is its own core. -/
theorem trims_self (h : ∀ c ∈ cs, isBlank c = false) : Trims cs cs :=
  ⟨⟨[], [], nofun, nofun, by rw [List.nil_append, List.append_nil]⟩,
    fun c hc => h c (List.mem_of_head? hc), fun c hc => h c (List.mem_of_getLast? hc)⟩

end

/-! ## Numerals -/

namespace Numeral

/-- `Denotes cs n`: the characters are a numeral of the number `n`. -/
def Denotes (cs : List Char) (n : Nat) : Prop :=
  ∃ ds, ds ≠ [] ∧ (∀ d ∈ ds, d.isDigit = true) ∧ (cs = ds ∨ cs = '+' :: ds) ∧
    Nat.ofDigitChars 10 ds 0 = n

theorem isDigit_iff (c : Char) : c.isDigit = true ↔ 48 ≤ c.toNat ∧ c.toNat ≤ 57 := by
  rw [Char.isDigit, Bool.and_eq_true, decide_eq_true_eq, decide_eq_true_eq]
  exact Iff.rfl

theorem digit?_of_isDigit {c : Char} (h : c.isDigit = true) : digit? c = some (c.toNat - 48) :=
  if_pos ((isDigit_iff c).mp h)

theorem digit?_of_not_isDigit {c : Char} (h : ¬c.isDigit = true) : digit? c = none :=
  if_neg fun hc => h ((isDigit_iff c).mpr hc)

/-- A digit is no blank. -/
theorem isBlank_of_isDigit {c : Char} (h : c.isDigit = true) : isBlank c = false := by
  have hdigit := (isDigit_iff c).mp h
  rw [isBlank, List.any_eq_false]
  intro r hr
  rw [Bool.and_eq_true, decide_eq_true_eq, decide_eq_true_eq]
  simp only [blankRanges, List.mem_cons, List.not_mem_nil, or_false] at hr
  rcases hr with rfl | rfl | rfl | rfl | rfl | rfl | rfl | rfl | rfl | rfl <;> dsimp only <;> omega

/-- Digits never make a number smaller. -/
theorem le_ofDigitChars (ds : List Char) (value : Nat) : value ≤ Nat.ofDigitChars 10 ds value := by
  induction ds generalizing value with
  | nil => exact Nat.le_of_eq Nat.ofDigitChars_nil.symm
  | cons d ds ih =>
    rw [Nat.ofDigitChars_cons]
    have hmore := ih (10 * value + (d.toNat - '0'.toNat))
    omega

/-- **Reading digits** succeeds exactly if they are digits, and denote a number within the limit. -/
theorem readDigits_eq_ok_iff {limit value n : Nat} {cs : List Char} (hvalue : value ≤ limit) :
    readDigits limit value cs = .ok n ↔
      (∀ c ∈ cs, c.isDigit = true) ∧ Nat.ofDigitChars 10 cs value = n ∧ n ≤ limit := by
  induction cs generalizing value with
  | nil =>
    rw [readDigits, Nat.ofDigitChars_nil, Except.ok.injEq]
    constructor
    · rintro rfl
      exact ⟨fun c hc => absurd hc List.not_mem_nil, rfl, hvalue⟩
    · exact fun h => h.2.1
  | cons c cs ih =>
    rw [readDigits, List.forall_mem_cons, Nat.ofDigitChars_cons]
    by_cases hc : c.isDigit = true
    · rw [digit?_of_isDigit hc]
      dsimp only
      by_cases hlarge : limit < 10 * value + (c.toNat - 48)
      · -- whatever follows, the number is too large by now
        rw [if_pos hlarge]
        refine iff_of_false (by rintro ⟨⟩) fun h => ?_
        have hmore := le_ofDigitChars cs (10 * value + (c.toNat - '0'.toNat))
        rw [h.2.1] at hmore
        exact absurd (Nat.le_trans hmore h.2.2) (Nat.not_le.mpr hlarge)
      · rw [if_neg hlarge, ih (Nat.not_lt.mp hlarge)]
        exact ⟨fun h => ⟨⟨hc, h.1⟩, h.2⟩, fun h => ⟨h.1.2, h.2⟩⟩
    · rw [digit?_of_not_isDigit hc]
      exact iff_of_false (by rintro ⟨⟩) fun h => hc h.1.1

/-- **Reading** accepts exactly the numerals of numbers within the limit. -/
theorem readList_eq_ok_iff {limit n : Nat} {cs : List Char} :
    readList limit cs = .ok n ↔ Denotes cs n ∧ n ≤ limit := by
  have hdigits : ∀ ds : List Char, ds ≠ [] →
      (readDigits limit 0 ds = .ok n ↔
        (ds ≠ [] ∧ (∀ d ∈ ds, d.isDigit = true) ∧ Nat.ofDigitChars 10 ds 0 = n) ∧ n ≤ limit) := by
    intro ds hne
    rw [readDigits_eq_ok_iff (Nat.zero_le limit)]
    constructor
    · rintro ⟨hall, hn, hle⟩
      exact ⟨⟨hne, hall, hn⟩, hle⟩
    · rintro ⟨⟨-, hall, hn⟩, hle⟩
      exact ⟨hall, hn, hle⟩
  have hplus : ¬('+' : Char).isDigit = true := by decide
  fun_cases readList limit cs with
  | case1 =>
    refine iff_of_false nofun ?_
    rintro ⟨⟨ds, hne, -, rfl | h, -⟩, -⟩
    · exact hne rfl
    · cases h
  | case2 =>
    refine iff_of_false nofun ?_
    rintro ⟨⟨ds, hne, hall, rfl | h, -⟩, -⟩
    · exact hplus (hall '+' List.mem_cons_self)
    · cases h
      exact hne rfl
  | case3 cs hcs =>
    rw [hdigits cs hcs]
    refine and_congr_left fun _ => ?_
    constructor
    · rintro ⟨hne, hall, hn⟩
      exact ⟨cs, hne, hall, Or.inr rfl, hn⟩
    · rintro ⟨ds, hne, hall, rfl | h, hn⟩
      · exact absurd (hall '+' List.mem_cons_self) hplus
      · cases h
        exact ⟨hne, hall, hn⟩
  | case4 cs hnil hsign hmore =>
    rw [hdigits cs hnil]
    refine and_congr_left fun _ => ?_
    constructor
    · rintro ⟨hne, hall, hn⟩
      exact ⟨cs, hne, hall, Or.inl rfl, hn⟩
    · rintro ⟨ds, hne, hall, rfl | rfl, hn⟩
      · exact ⟨hne, hall, hn⟩
      · exact absurd rfl (hmore ds)

/-- A numeral denotes one number. -/
theorem Denotes.unique {cs : List Char} {m n : Nat} (hm : Denotes cs m) (hn : Denotes cs n) :
    m = n := by
  have hreadm := readList_eq_ok_iff.mpr ⟨hm, Nat.le_max_left m n⟩
  have hreadn := readList_eq_ok_iff.mpr ⟨hn, Nat.le_max_right m n⟩
  rw [hreadm] at hreadn
  exact Except.ok.inj hreadn

/-! ## Printing -/

theorem isDigit_of_mem_toDigits {n : Nat} {c : Char} (h : c ∈ Nat.toDigits 10 n) :
    c.isDigit = true :=
  Nat.isDigit_of_mem_toDigits (by decide) (by decide) h

/-- A number is printed by a numeral of it. -/
theorem denotes_toDigits (n : Nat) : Denotes (Nat.toDigits 10 n) n :=
  ⟨Nat.toDigits 10 n, Nat.toDigits_ne_nil, fun _ => isDigit_of_mem_toDigits, Or.inl rfl,
    Nat.ofDigitChars_ten_toDigits⟩

/-- A printed number has no blanks to be cut off. -/
theorem trims_toDigits (n : Nat) : Trims (toString n).toList (Nat.toDigits 10 n) := by
  rw [Nat.toString_eq_ofList_toDigits, String.toList_ofList]
  exact trims_self fun c hc => isBlank_of_isDigit (isDigit_of_mem_toDigits hc)

end Numeral
end Cohort.Text
