import Mathlib.Algebra.Group.Units.Equiv
import Mathlib.Data.Int.GCD
import Mathlib.Data.Nat.Prime.Basic
import Mathlib.Data.UInt
import Mathlib.Logic.Function.Iterate
import Cohort.Scalar.Hash
/-
  Combining hashes LOSES NOTHING of any one of them.

  1. **The mixer.**  It is made of two steps, each a bijection of the 64-bit words.  To fold high
     bits down by `s` places is undone by doing it again often enough: `2 ^ k` folds are one fold by
     `2 ^ k * s` places (`iterate_foldDown`), and a fold by 64 places is none.  To multiply by an
     odd word is undone by its inverse modulo `2 ^ 64`.

  2. **Combining.**  With one side held fixed, `combine` is the mixer after an addition, hence a
     bijection of the other side.

  3. **Lists of hashes.**  A difference that has come in at one place goes through every later
     `combine`, by induction on the hashes that follow.  So the combined hash is a bijection of the
     hash at any one place.
-/

namespace Cohort.Hash

open Function

/-! ## The steps of the mixer -/

/-- A word with its bits from place `s` on folded onto those at its bottom. -/
def foldDown (s : Nat) (x : UInt64) : UInt64 := ⟨x.toBitVec ^^^ x.toBitVec >>> s⟩

/-- Folding twice folds once by twice as many places, since what is folded on twice cancels. -/
theorem foldDown_foldDown (s : Nat) (x : UInt64) :
    foldDown s (foldDown s x) = foldDown (s + s) x := by
  apply UInt64.toBitVec_inj.mp
  show (x.toBitVec ^^^ x.toBitVec >>> s) ^^^ (x.toBitVec ^^^ x.toBitVec >>> s) >>> s =
    x.toBitVec ^^^ x.toBitVec >>> (s + s)
  rw [BitVec.ushiftRight_xor_distrib, ← BitVec.shiftRight_add, BitVec.xor_assoc,
    ← BitVec.xor_assoc (x.toBitVec >>> s), BitVec.xor_self, BitVec.zero_xor]

theorem iterate_foldDown (s k : Nat) : (foldDown s)^[2 ^ k] = foldDown (2 ^ k * s) := by
  induction k with
  | zero => rw [Nat.pow_zero, Nat.one_mul, iterate_one]
  | succ k ih =>
    rw [Nat.pow_succ, iterate_mul, ih, Nat.mul_right_comm, Nat.mul_two]
    funext x
    exact foldDown_foldDown (2 ^ k * s) x

/-- No place of a word lies 64 places above another one. -/
theorem foldDown_of_le {s : Nat} (hs : 64 ≤ s) : foldDown s = id := by
  funext x
  apply UInt64.toBitVec_inj.mp
  show x.toBitVec ^^^ x.toBitVec >>> s = x.toBitVec
  rw [BitVec.ushiftRight_eq_zero hs, BitVec.xor_zero]

theorem foldDown_bijective {s : Nat} (hs : 0 < s) : Bijective (foldDown s) := by
  have hround : (foldDown s)^[64] = id := by
    rw [show 64 = 2 ^ 6 from rfl, iterate_foldDown]
    exact foldDown_of_le (by omega)
  -- the round of 64 folds has `foldDown s` as its first fold and as its last one
  have hfirst : (foldDown s)^[63] ∘ foldDown s = id := hround
  have hlast : foldDown s ∘ (foldDown s)^[63] = id :=
    (iterate_succ' (foldDown s) 63).symm.trans hround
  exact bijective_iff_has_inverse.mpr ⟨(foldDown s)^[63], congrFun hfirst, congrFun hlast⟩

/-- An odd word has an inverse modulo `2 ^ 64`. -/
theorem isUnit_of_odd {m : UInt64} (hm : m.toNat % 2 = 1) : IsUnit m := by
  have hcoprime : m.toNat.Coprime (2 ^ 64) :=
    Nat.Coprime.pow_right 64 (Nat.coprime_two_right.mpr (Nat.odd_iff.mpr hm))
  obtain ⟨n, hn, hmul⟩ := Nat.exists_mul_mod_eq_one_of_coprime hcoprime (by decide)
  refine .of_mul_eq_one (.ofNat n) (UInt64.toNat_inj.mp ?_)
  rw [UInt64.toNat_mul, UInt64.toNat_ofNat_of_lt' hn, hmul]
  rfl

theorem mix_eq :
    mix = foldDown 28 ∘ (· * mixFactor) ∘ foldDown 32 ∘ (· * mixFactor) ∘ foldDown 32 := rfl

/-- **The mixer permutes the words.** -/
theorem mix_bijective : Bijective mix := by
  have hfold : Bijective (foldDown 32) := foldDown_bijective (by decide)
  have hmul : Bijective (· * mixFactor) :=
    IsUnit.isUnit_iff_mulRight_bijective.mp (isUnit_of_odd (by decide))
  have hlast : Bijective (foldDown 28) := foldDown_bijective (by decide)
  rw [mix_eq]
  exact hlast.comp (hmul.comp (hfold.comp (hmul.comp hfold)))

/-! ## Combining -/

/-- **Nothing of the next hash is lost.** -/
theorem combine_bijective (before : UInt64) : Bijective (combine before) := by
  show Bijective (mix ∘ (mix before + 0x9E3779B9 + ·))
  exact mix_bijective.comp (AddGroup.addLeft_bijective _)

/-- **Nothing of the hashes before is lost.** -/
theorem combine_left_bijective (next : UInt64) : Bijective (combine · next) := by
  show Bijective (mix ∘ (· + next) ∘ (· + 0x9E3779B9) ∘ mix)
  exact mix_bijective.comp ((AddGroup.addRight_bijective next).comp
    ((AddGroup.addRight_bijective 0x9E3779B9).comp mix_bijective))

/-! ## Lists of hashes -/

/-- The combined hash of a list of hashes. -/
def ofHashes : List UInt64 → UInt64
  | [] => ofNoValues
  | h :: hs => hs.foldl combine h

/-- The hash of a list of values looks at the hashes of the values only. -/
theorem ofValues_eq (hashValue : Scalar → UInt64) (vs : List Scalar) :
    ofValues hashValue vs = ofHashes (vs.map hashValue) := by
  cases vs with
  | nil => rfl
  | cons v vs =>
    rw [ofValues, List.map_cons, ofHashes, List.foldl_map]

/-- A difference goes through all hashes that follow. -/
theorem foldl_combine_bijective (hs : List UInt64) : Bijective fun h => hs.foldl combine h := by
  induction hs with
  | nil => exact bijective_id
  | cons next hs ih => exact ih.comp (combine_left_bijective next)

theorem ofHashes_append_cons (hs hs' : List UInt64) (h : UInt64) (hne : hs ≠ []) :
    ofHashes (hs ++ h :: hs') = hs'.foldl combine (combine (ofHashes hs) h) := by
  cases hs with
  | nil => exact absurd rfl hne
  | cons first hs => rw [List.cons_append, ofHashes, ofHashes, List.foldl_append, List.foldl_cons]

theorem ofHashes_append_cons_bijective (hs hs' : List UInt64) :
    Bijective fun h => ofHashes (hs ++ h :: hs') := by
  by_cases hne : hs = []
  · subst hne
    exact foldl_combine_bijective hs'
  · simp only [ofHashes_append_cons hs hs' _ hne]
    exact (foldl_combine_bijective hs').comp (combine_bijective (ofHashes hs))

/-- **Nothing of the hash at one place is lost**, whichever place that is. -/
theorem ofHashes_set_bijective {hs : List UInt64} {i : Nat} (hi : i < hs.length) :
    Bijective fun h => ofHashes (hs.set i h) := by
  simp only [List.set_eq_take_append_cons_drop, if_pos hi]
  exact ofHashes_append_cons_bijective (hs.take i) (hs.drop (i + 1))

/-- A list that differs from another one at no place but `i` is the other one with place `i` set. -/
theorem eq_set_of_differ_at {hs ks : List UInt64} {i : Nat} (hlen : hs.length = ks.length)
    (hi : i < ks.length) (h : ∀ j, hs[j]? ≠ ks[j]? → j = i) : ks = hs.set i ks[i] := by
  apply List.ext_getElem?
  intro j
  rw [List.getElem?_set]
  by_cases hij : i = j
  · subst hij
    rw [if_pos rfl, if_pos (hlen ▸ hi), List.getElem?_eq_getElem hi]
  · rw [if_neg hij]
    by_contra hne
    exact hij (h j fun heq => hne heq.symm).symm

theorem ofHashes_ne {hs ks : List UInt64} (hlen : hs.length = ks.length)
    (hone : ∃! i : Nat, hs[i]? ≠ ks[i]?) : ofHashes hs ≠ ofHashes ks := by
  obtain ⟨i, hdiffer, honly⟩ := hone
  have hi : i < hs.length := by
    by_contra hpast
    rw [Nat.not_lt] at hpast
    exact hdiffer ((List.getElem?_eq_none hpast).trans (List.getElem?_eq_none (hlen ▸ hpast)).symm)
  have hks : ks = hs.set i ks[i] := eq_set_of_differ_at hlen (hlen ▸ hi) honly
  intro heq
  -- both lists are `hs` with a hash set at place `i`
  have hset : ofHashes (hs.set i hs[i]) = ofHashes (hs.set i ks[i]) := by
    rw [List.set_getElem_self, ← hks, heq]
  have hsame : hs[i] = ks[i] := (ofHashes_set_bijective hi).injective hset
  exact hdiffer (by rw [List.getElem?_eq_getElem hi, List.getElem?_eq_getElem (hlen ▸ hi), hsame])

/-- **Combining hashes loses nothing of any single column.**

    With either side held fixed, `combine` is a bijection of the 64-bit words in the other side; so
    is, with all other hashes held fixed, the combined hash of a list in the hash at one place.
    Therefore, however single values are hashed, two lists of as many values have different hashes
    if the hashes of their values differ at exactly one place. -/
theorem combine_loses_nothing :
    (∀ before, Bijective (combine before)) ∧
    (∀ next, Bijective (combine · next)) ∧
    (∀ (hs : List UInt64) (i : Nat), i < hs.length → Bijective fun h => ofHashes (hs.set i h)) ∧
    ∀ (hashValue : Scalar → UInt64) (vs ws : List Scalar), vs.length = ws.length →
      (∃! i : Nat, (vs.map hashValue)[i]? ≠ (ws.map hashValue)[i]?) →
      ofValues hashValue vs ≠ ofValues hashValue ws := by
  refine ⟨combine_bijective, combine_left_bijective, fun hs i hi => ofHashes_set_bijective hi,
    fun hashValue vs ws hlen hone => ?_⟩
  rw [ofValues_eq, ofValues_eq]
  exact ofHashes_ne (by rw [List.length_map, List.length_map, hlen]) hone

/-- NULL against a number in the middle of three values. -/
theorem combine_loses_nothing_sample :
    let vs : List Scalar := [.boolean true, .null, .int (-7)]
    let ws : List Scalar := [.boolean true, .int 5, .int (-7)]
    ofValues ofScalar vs ≠ ofValues ofScalar ws ∧
      Bijective fun h => ofHashes ([1, 2, 3].set 1 h) := by
  intro vs ws
  have hone : ∃! i : Nat, (vs.map ofScalar)[i]? ≠ (ws.map ofScalar)[i]? := by
    refine ⟨1, by decide, fun i hi => ?_⟩
    match i, hi with
    | 0, hi => exact absurd rfl hi
    | 1, _ => rfl
    | 2, hi => exact absurd rfl hi
    | i + 3, hi => exact absurd rfl hi
  exact ⟨combine_loses_nothing.2.2.2 ofScalar vs ws rfl hone,
    combine_loses_nothing.2.2.1 [1, 2, 3] 1 (by decide)⟩

end Cohort.Hash
