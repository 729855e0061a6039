/-! Decimal texts of whole numbers: of which characters they are made, and that they tell numbers apart. -/

namespace Rehearsal.Text
set_option autoImplicit false

theorem mem_toString_nat {n : Nat} {c : Char} (h : c ∈ (toString n).toList) : c.isDigit := by
  rw [Nat.toString_eq_ofList_toDigits, String.toList_ofList] at h
  exact Nat.isDigit_of_mem_toDigits (by decide) (by decide) h

theorem toString_negSucc (n : Nat) : toString (Int.negSucc n) = "-" ++ toString (n + 1) := rfl

theorem mem_toString_int {n : Int} {c : Char} (h : c ∈ (toString n).toList) : c = '-' ∨ c.isDigit := by
  cases n with
  | ofNat n => exact .inr (mem_toString_nat h)
  | negSucc n =>
    rw [toString_negSucc, String.toList_append, List.mem_append] at h
    rcases h with hsign | hdigits
    · exact .inl (by simpa using hsign)
    · exact .inr (mem_toString_nat hdigits)

theorem not_mem_toString_int {c : Char} (hsign : c ≠ '-') (hdigit : c.isDigit = false) (n : Int) :
    c ∉ (toString n).toList := by
  intro h
  rcases mem_toString_int h with rfl | hc
  · exact hsign rfl
  · simp [hdigit] at hc

theorem toString_nat_inj {m n : Nat} (h : toString m = toString n) : m = n := by
  rw [Nat.toString_eq_ofList_toDigits, Nat.toString_eq_ofList_toDigits] at h
  have hdigits : Nat.toDigits 10 m = Nat.toDigits 10 n := String.ofList_injective h
  calc
    m = Nat.ofDigitChars 10 (Nat.toDigits 10 m) 0 := Nat.ofDigitChars_ten_toDigits.symm
    _ = Nat.ofDigitChars 10 (Nat.toDigits 10 n) 0 := by rw [hdigits]
    _ = n := Nat.ofDigitChars_ten_toDigits

theorem sign_mem_negSucc (n : Nat) : '-' ∈ (toString (Int.negSucc n)).toList := by
  rw [toString_negSucc, String.toList_append]
  exact List.mem_append_left _ (by decide)

theorem sign_not_mem_nat (n : Nat) : '-' ∉ (toString (Int.ofNat n)).toList := fun h => by
  simpa using mem_toString_nat (n := n) h

theorem toString_int_inj {m n : Int} (h : toString m = toString n) : m = n := by
  cases m with
  | ofNat m =>
    cases n with
    | ofNat n => exact congrArg Int.ofNat (toString_nat_inj h)
    | negSucc n => exact absurd (sign_mem_negSucc n) (h ▸ sign_not_mem_nat m)
  | negSucc m =>
    cases n with
    | ofNat n => exact absurd (sign_mem_negSucc m) (h ▸ sign_not_mem_nat n)
    | negSucc n =>
      rw [toString_negSucc, toString_negSucc] at h
      have hsucc := toString_nat_inj ((String.append_right_inj "-").1 h)
      rw [Nat.succ.inj hsucc]

end Rehearsal.Text
