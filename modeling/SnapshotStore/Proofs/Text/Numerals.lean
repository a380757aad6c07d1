import Mathlib.Data.List.Induction

namespace SnapshotStore.Text

-- One or more decimal digits, and the number that they denote.
inductive Numeral : List Char → Nat → Prop where
  | digit {d : Nat} : d < 10 → Numeral [Nat.digitChar d] d
  | snoc {digits : List Char} {n d : Nat} : Numeral digits n → d < 10 →
      Numeral (digits ++ [Nat.digitChar d]) (10 * n + d)

theorem exists_digitChar {c : Char} (hc : c.isDigit = true) : ∃ d < 10, c = Nat.digitChar d := by
  obtain ⟨hleast, hgreatest⟩ := Char.isDigit_iff_toNat.mp hc
  have hleast : 48 ≤ c.toNat := hleast
  have hgreatest : c.toNat ≤ 57 := hgreatest
  have hlt : c.toNat - 48 < 10 := by omega
  refine ⟨c.toNat - 48, hlt, Char.toNat_inj.mp ?_⟩
  rw [Nat.toNat_digitChar_of_lt_ten hlt]
  omega

theorem ofDigitChars_snoc (digits : List Char) {d : Nat} (hd : d < 10) :
    Nat.ofDigitChars 10 (digits ++ [Nat.digitChar d]) 0 =
      10 * Nat.ofDigitChars 10 digits 0 + d := by
  rw [Nat.ofDigitChars_append, Nat.ofDigitChars_cons, Nat.ofDigitChars_nil]
  have hvalue := Nat.toNat_digitChar_sub_48_of_lt_ten hd
  change 10 * _ + ((Nat.digitChar d).toNat - 48) = _
  rw [hvalue]

namespace Numeral

variable {digits : List Char} {n : Nat}

theorem ne_nil (h : Numeral digits n) : digits ≠ [] := by
  cases h <;> simp

theorem isDigit (h : Numeral digits n) : ∀ c ∈ digits, c.isDigit = true := by
  induction h with
  | digit hd =>
      rw [List.forall_mem_singleton, Nat.isDigit_digitChar]
      exact decide_eq_true hd
  | snoc _ hd ih =>
      rw [List.forall_mem_append, List.forall_mem_singleton, Nat.isDigit_digitChar]
      exact ⟨ih, decide_eq_true hd⟩

theorem eq_ofDigitChars (h : Numeral digits n) : n = Nat.ofDigitChars 10 digits 0 := by
  induction h with
  | digit hd =>
      have hvalue := ofDigitChars_snoc [] hd
      simpa using hvalue.symm
  | snoc _ hd ih => rw [ofDigitChars_snoc _ hd, ← ih]

-- The induction takes the digits away from the end, as the number is computed from the front.
theorem of_isDigit (hne : digits ≠ []) (hdigits : ∀ c ∈ digits, c.isDigit = true) :
    Numeral digits (Nat.ofDigitChars 10 digits 0) := by
  induction digits using List.reverseRecOn with
  | nil => exact absurd rfl hne
  | append_singleton front c ih =>
      rw [List.forall_mem_append, List.forall_mem_singleton] at hdigits
      obtain ⟨d, hd, rfl⟩ := exists_digitChar hdigits.2
      rw [ofDigitChars_snoc front hd]
      by_cases hfront : front = []
      · subst hfront
        simpa using Numeral.digit hd
      · exact .snoc (ih hfront hdigits.1) hd

theorem eq_zero_iff (h : Numeral digits n) : n = 0 ↔ ∀ c ∈ digits, c = '0' := by
  induction h with
  | digit hd => simp
  | @snoc digits n d _ _ ih =>
      have hsum : 10 * n + d = 0 ↔ n = 0 ∧ d = 0 := by omega
      rw [hsum, List.forall_mem_append, List.forall_mem_singleton, ih, Nat.digitChar_eq_zero]

-- The text in which a number is written.
theorem toDigits (n : Nat) : Numeral (Nat.toDigits 10 n) n := by
  have hdigits : ∀ c ∈ Nat.toDigits 10 n, c.isDigit = true := fun c hc =>
    Nat.isDigit_of_mem_toDigits (by decide) (by decide) hc
  have h := of_isDigit Nat.toDigits_ne_nil hdigits
  rwa [Nat.ofDigitChars_ten_toDigits] at h

-- Of the texts that denote a number, it is written in the one that has no spare zero in front.
theorem toDigits_eq_iff (h : Numeral digits n) :
    Nat.toDigits 10 n = digits ↔ ¬∃ c rest, digits = '0' :: c :: rest := by
  induction h with
  | digit hd => simp [Nat.toDigits_of_lt_base hd]
  | @snoc digits n d hdigits hd ih =>
      have hfront := hdigits.ne_nil
      by_cases hn : n = 0
      · -- All digits but the last one are zeros.
        have hzeros := hdigits.eq_zero_iff.mp hn
        obtain ⟨c, rest, rfl⟩ := List.exists_cons_of_ne_nil hfront
        obtain rfl := hzeros c List.mem_cons_self
        subst hn
        rw [Nat.mul_zero, Nat.zero_add, Nat.toDigits_of_lt_base hd]
        cases rest with
        | nil => simp
        | cons c rest => simp
      · have hpositive : 0 < n := Nat.pos_of_ne_zero hn
        rw [← Nat.toDigits_append_toDigits (by decide) hpositive hd, Nat.toDigits_of_lt_base hd,
          List.append_left_inj, ih]
        match digits, hfront with
        | [c], _ =>
            have hc : c ≠ '0' := fun hc => hn (hdigits.eq_zero_iff.mpr (by simpa using hc))
            simp [hc]
        | c :: c' :: rest, _ => simp

end Numeral

end SnapshotStore.Text
