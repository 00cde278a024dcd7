/-!
# Rounding a quotient half to even

`divHalfEven n d` is the integer nearest to `n / d`, and of two equally near the even one.
`divHalfEven_near` bounds the error by half a unit, `divHalfEven_even` says where a tie goes.
-/

namespace ExprLang

/-- The integer nearest to `n / d`; a tie goes to the even neighbour. -/
def divHalfEven (n d : Nat) : Nat :=
  let q := n / d
  let r := n % d
  if 2 * r < d then q
  else if d < 2 * r then q + 1
  else q + q % 2

/-- The error of `divHalfEven` is at most half a unit. -/
theorem divHalfEven_near (n : Nat) {d : Nat} (hd : 0 < d) :
    2 * n ≤ 2 * (divHalfEven n d * d) + d ∧ 2 * (divHalfEven n d * d) ≤ 2 * n + d := by
  have hn := Nat.div_add_mod n d
  have hr := Nat.mod_lt n hd
  have hmul : d * (n / d) = n / d * d := Nat.mul_comm _ _
  simp only [divHalfEven]
  split
  · omega
  split
  · rw [Nat.add_mul]; omega
  · rcases Nat.mod_two_eq_zero_or_one (n / d) with h | h <;> simp only [h, Nat.add_mul] <;> omega

/-- Half way between two integers, `divHalfEven` gives an even one. -/
theorem divHalfEven_even {n d : Nat} (h : 2 * (n % d) = d) : divHalfEven n d % 2 = 0 := by
  simp only [divHalfEven, h, Nat.lt_irrefl, if_false]
  omega

end ExprLang
