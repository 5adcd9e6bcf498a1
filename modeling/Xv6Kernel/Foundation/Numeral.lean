import Mathlib.Data.Nat.Digits.Lemmas

/-!
# Positional numerals

Numbers written in a base, most significant digit first and without leading zeros.
-/

namespace Xv6Kernel.Foundation

/-- The number that digits denote, most significant first. -/
def valueOf (b : Nat) (ds : List Nat) : Nat := ds.foldl (fun n d => n * b + d) 0

def numeral (b n : Nat) : List Nat := if n = 0 then [0] else (b.digits n).reverse

/-- Digits of the base, at least one, and no zero in front of others. -/
structure Proper (b : Nat) (ds : List Nat) : Prop where
  digit : ∀ d ∈ ds, d < b
  ne_nil : ds ≠ []
  lead : ds.head? = some 0 → ds = [0]

variable {b n k : Nat} {ds : List Nat}

theorem valueOf_snoc (d : Nat) : valueOf b (ds ++ [d]) = valueOf b ds * b + d := by
  simp [valueOf]

theorem valueOf_eq_ofDigits : valueOf b ds = Nat.ofDigits b ds.reverse := by
  induction ds using List.reverseRecOn with
  | nil => rfl
  | append_singleton ds d ih =>
      rw [valueOf_snoc, ih, List.reverse_append, List.reverse_singleton, List.singleton_append,
        Nat.ofDigits_cons, Nat.mul_comm, Nat.add_comm]

/-- Every numeral but `0` ends in the remainder, after the numeral of the quotient. -/
theorem numeral_step (hb : 2 ≤ b) (n : Nat) :
    numeral b n = (if n / b = 0 then [] else numeral b (n / b)) ++ [n % b] := by
  by_cases hn : n = 0
  · simp [numeral, hn]
  · have hdigits := Nat.digits_eq_cons_digits_div hb hn
    by_cases hdiv : n / b = 0
    · simp [numeral, hn, hdigits, hdiv]
    · simp [numeral, hn, hdigits, hdiv]

theorem valueOf_numeral (b n : Nat) : valueOf b (numeral b n) = n := by
  unfold numeral
  split
  · next hn => simp [valueOf, hn]
  · rw [valueOf_eq_ofDigits, List.reverse_reverse, Nat.ofDigits_digits]

theorem proper_numeral (hb : 2 ≤ b) (n : Nat) : Proper b (numeral b n) := by
  by_cases hn : n = 0
  · simp only [numeral, hn, if_true]
    exact ⟨by simp; omega, by simp, fun _ => rfl⟩
  · have hlast := Nat.getLast_digit_ne_zero b hn
    simp only [numeral, hn, if_false]
    refine ⟨fun d hd => Nat.digits_lt_base hb (List.mem_reverse.mp hd), ?_, fun hhead => ?_⟩
    · simpa using Nat.digits_ne_nil_iff_ne_zero.mpr hn
    · rw [List.head?_reverse, List.getLast?_eq_some_getLast (Nat.digits_ne_nil_iff_ne_zero.mpr hn),
        Option.some_inj] at hhead
      exact absurd hhead hlast

theorem Proper.eq_numeral (proper : Proper b ds) (hb : 2 ≤ b) :
    ds = numeral b (valueOf b ds) := by
  by_cases hzero : ds.head? = some 0
  · rw [proper.lead hzero]
    simp [valueOf, numeral]
  · have hdigits : b.digits (valueOf b ds) = ds.reverse := by
      rw [valueOf_eq_ofDigits]
      refine Nat.digits_ofDigits b hb _ (fun d hd => proper.digit d (List.mem_reverse.mp hd))
        fun hne hlast => hzero ?_
      rw [← hlast, ← List.getLast?_eq_some_getLast, List.getLast?_reverse]
    have hne : valueOf b ds ≠ 0 := by
      intro heq
      rw [heq, Nat.digits_zero] at hdigits
      exact proper.ne_nil (List.reverse_eq_nil_iff.mp hdigits.symm)
    rw [numeral, if_neg hne, hdigits, List.reverse_reverse]

theorem length_numeral_le (hb : 2 ≤ b) (hk : 1 ≤ k) :
    (numeral b n).length ≤ k ↔ n < b ^ k := by
  unfold numeral
  split
  · next hn =>
    subst hn
    exact iff_of_true hk (Nat.pow_pos (by omega))
  · rw [List.length_reverse, Nat.digits_length_le_iff hb]

end Xv6Kernel.Foundation
