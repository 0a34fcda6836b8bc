/-!
Numbers in decimal. The digits of a number can be read back, so they tell it from
every other number; a sign tells the negative ones from the others.
-/
namespace Mis

theorem natRepr_injective {m n : Nat} (h : m.repr = n.repr) : m = n := by
  have hdigits := congrArg String.toList h
  rw [Nat.toList_repr, Nat.toList_repr] at hdigits
  rw [← @Nat.ofDigitChars_ten_toDigits m, hdigits, Nat.ofDigitChars_ten_toDigits]

theorem natRepr_ne_minus (m : Nat) (s : String) : m.repr ≠ "-" ++ s := by
  intro h
  have hlist := congrArg String.toList h
  rw [Nat.toList_repr, String.toList_append] at hlist
  have hminus : '-' ∈ Nat.toDigits 10 m := hlist ▸ List.mem_append_left _ List.mem_cons_self
  exact absurd (Nat.isDigit_of_mem_toDigits (by decide) (by decide) hminus) (by decide)

theorem intRepr_injective {m n : Int} (h : m.repr = n.repr) : m = n := by
  cases m with
  | ofNat m =>
      cases n with
      | ofNat n => exact congrArg Int.ofNat (natRepr_injective h)
      | negSucc n => exact absurd h (natRepr_ne_minus m _)
  | negSucc m =>
      cases n with
      | ofNat n => exact absurd h.symm (natRepr_ne_minus n _)
      | negSucc n =>
          have hsucc := natRepr_injective ((String.append_right_inj "-").mp h)
          exact congrArg Int.negSucc (Nat.succ.inj hsucc)

end Mis
