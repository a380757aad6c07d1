import Mathlib.Data.Set.Function
import SnapshotStore.KeyCodec
import SnapshotStore.Proofs.Text.Numerals

namespace SnapshotStore.IntegerFormat

open Text (Numeral)

-- What a text stands for, whether or not the format has room for it.
inductive Denotes (format : IntegerFormat) : List Char → Int → Prop where
  | plain {digits : List Char} {n : Nat} : Numeral digits n → Denotes format digits n
  | negated {digits : List Char} {n : Nat} : format.signed = true → Numeral digits n →
      Denotes format ('-' :: digits) (-n)

-- The key that a machine word of the format's width stands for.
def value (format : IntegerFormat) (word : BitVec format.bits) : Int :=
  if format.signed then word.toInt else word.toNat

-- What is left of a text without its sign.
def digitsOf : List Char → List Char
  | '-' :: digits => digits
  | digits => digits

def HasSpareZero (text : List Char) : Prop :=
  ∃ c rest, digitsOf text = '0' :: c :: rest

def IsNegativeZero (text : List Char) : Prop :=
  ∃ zeros, text = '-' :: zeros ∧ ∀ c ∈ zeros, c = '0'

variable {format : IntegerFormat} {text digits : List Char} {n : Int}

theorem magnitude?_eq_some_iff {m : Nat} : magnitude? digits = some m ↔ Numeral digits m := by
  unfold magnitude?
  constructor
  · intro h
    rw [Option.ite_none_left_eq_some] at h
    obtain ⟨hdigits, hvalue⟩ := h
    obtain rfl := Option.some.inj hvalue
    simp only [Bool.or_eq_true, List.isEmpty_iff, Bool.not_eq_true', not_or,
      Bool.not_eq_false, List.all_eq_true] at hdigits
    exact .of_isDigit hdigits.1 hdigits.2
  · intro h
    have hall : digits.all Char.isDigit = true := List.all_eq_true.mpr h.isDigit
    have hempty : digits.isEmpty = false := List.isEmpty_eq_false_iff.mpr h.ne_nil
    simp [hall, hempty, h.eq_ofDigitChars]

-- A numeral has no sign of its own.
theorem not_numeral_minus {m : Nat} : ¬Numeral ('-' :: digits) m := by
  intro h
  have hdigit := h.isDigit '-' List.mem_cons_self
  exact absurd hdigit (by decide)

theorem number?_eq_some_iff : format.number? text = some n ↔ format.Denotes text n := by
  constructor
  · intro h
    unfold number? at h
    split at h
    · rw [Option.ite_none_right_eq_some, Option.map_eq_some_iff] at h
      obtain ⟨hsigned, value, hvalue, rfl⟩ := h
      obtain ⟨m, hm, hcast⟩ := Option.bind_eq_some_iff.mp hvalue
      obtain rfl := Option.some.inj hcast
      exact .negated hsigned (magnitude?_eq_some_iff.mp hm)
    · obtain ⟨m, hm, rfl⟩ := Option.map_eq_some_iff.mp h
      exact .plain (magnitude?_eq_some_iff.mp hm)
  · intro h
    unfold number?
    cases h with
    | plain hnumeral =>
        have hm := magnitude?_eq_some_iff.mpr hnumeral
        split
        · exact absurd hnumeral not_numeral_minus
        · rw [hm]
          rfl
    | negated hsigned hnumeral =>
        have hm := magnitude?_eq_some_iff.mpr hnumeral
        simp [hsigned, hm]

theorem decode_eq_ok_iff {text : String} :
    format.decode text = .ok n ↔ format.Denotes text.toList n ∧ format.Holds n := by
  rw [← number?_eq_some_iff]
  unfold decode
  cases format.number? text.toList with
  | none => simp
  | some m =>
      by_cases hm : format.Holds m
      · simp only [hm, if_true, Except.ok.injEq, Option.some.injEq]
        constructor
        · rintro rfl
          exact ⟨rfl, hm⟩
        · exact fun h => h.1
      · simp only [hm, if_false, reduceCtorEq, Option.some.injEq, false_iff, not_and]
        rintro rfl
        exact hm

-- There is only one way to fail.
theorem decode_cases (format : IntegerFormat) (text : String) :
    (∃ n, format.decode text = .ok n) ∨
      format.decode text = .error (.deserialize (.integerKey text)) := by
  unfold decode
  split
  · split
    · exact .inl ⟨_, rfl⟩
    · exact .inr rfl
  · exact .inr rfl

theorem toList_encode_natCast (m : Nat) : (encode m).toList = Nat.toDigits 10 m :=
  String.toList_ofList

theorem toList_encode_neg {m : Nat} (hm : 0 < m) :
    (encode (-m)).toList = '-' :: Nat.toDigits 10 m := by
  obtain ⟨k, rfl⟩ := Nat.exists_eq_add_of_lt hm
  rw [Nat.zero_add]
  exact String.toList_ofList

theorem denotes_encode (h : 0 ≤ n ∨ format.signed = true) :
    format.Denotes (encode n).toList n := by
  by_cases hn : 0 ≤ n
  · obtain ⟨m, rfl⟩ := Int.eq_ofNat_of_zero_le hn
    rw [toList_encode_natCast]
    exact .plain (.toDigits m)
  · obtain ⟨m, rfl⟩ : ∃ m : Nat, n = -m := ⟨n.natAbs, by omega⟩
    rw [toList_encode_neg (by omega)]
    exact .negated (h.resolve_left hn) (.toDigits m)

theorem encode_injective : Function.Injective encode := by
  intro a b hab
  have hread : ∀ n, i64.number? (encode n).toList = some n := fun n =>
    number?_eq_some_iff.mpr (denotes_encode (.inr rfl))
  have ha := hread a
  rw [hab, hread b] at ha
  exact (Option.some.inj ha).symm

theorem encode_eq_iff (h : format.Denotes text n) :
    (encode n).toList = text ↔ ¬HasSpareZero text ∧ ¬IsNegativeZero text := by
  cases h with
  | @plain _ m hnumeral =>
      have hdigits : digitsOf text = text := by
        unfold digitsOf
        split
        · exact absurd hnumeral not_numeral_minus
        · rfl
      have hsign : ¬IsNegativeZero text := by
        rintro ⟨zeros, rfl, -⟩
        exact not_numeral_minus hnumeral
      rw [toList_encode_natCast, hnumeral.toDigits_eq_iff, HasSpareZero, hdigits]
      exact (and_iff_left hsign).symm
  | @negated digits m hsigned hnumeral =>
      have hzero : IsNegativeZero ('-' :: digits) ↔ m = 0 := by
        rw [hnumeral.eq_zero_iff]
        simp [IsNegativeZero]
      rw [hzero]
      by_cases hm : m = 0
      · -- Zero is written without a sign.
        subst hm
        have hwritten : (encode (-(0 : Nat))).toList = ['0'] := rfl
        rw [hwritten]
        simp
      · rw [toList_encode_neg (Nat.pos_of_ne_zero hm), List.cons_inj_right,
          hnumeral.toDigits_eq_iff]
        exact (and_iff_left hm).symm

theorem holds_iff (hbits : 0 < format.bits) :
    format.Holds n ↔ ∃ word, format.value word = n := by
  unfold Holds least greatest value
  have hpow : ∀ k : Nat, Int.pow 2 k = 2 ^ k := fun _ => rfl
  cases hsigned : format.signed with
  | true =>
      simp only [if_true, hpow]
      constructor
      · rintro ⟨hleast, hgreatest⟩
        exact ⟨.ofInt _ n, BitVec.toInt_ofInt_eq_self hbits hleast (by omega)⟩
      · rintro ⟨word, rfl⟩
        have hleast := word.le_toInt
        have hgreatest := word.toInt_lt
        omega
  | false =>
      simp only [Bool.false_eq_true, if_false, hpow]
      constructor
      · rintro ⟨hleast, hgreatest⟩
        obtain ⟨m, rfl⟩ := Int.eq_ofNat_of_zero_le hleast
        have hlt : m < 2 ^ format.bits := by
          have hcast : (m : Int) < 2 ^ format.bits := by omega
          exact_mod_cast hcast
        exact ⟨.ofNatLT m hlt, by simp⟩
      · rintro ⟨word, rfl⟩
        have hlt : (word.toNat : Int) < 2 ^ format.bits := by exact_mod_cast word.isLt
        omega

theorem Holds.sign (h : format.Holds n) : 0 ≤ n ∨ format.signed = true := by
  cases hsigned : format.signed with
  | true => exact .inr rfl
  | false =>
      have hleast : format.least = 0 := by simp [least, hsigned]
      exact .inl (hleast ▸ h.1)

theorem decode_encode (h : format.Holds n) : format.decode (encode n) = .ok n :=
  decode_eq_ok_iff.mpr ⟨denotes_encode h.sign, h⟩

-- Keys of any width that is not zero, signed or not.
theorem integer_keys_are_numerals (hbits : 0 < format.bits) :
    -- every key is read back from the text that is written for it
    (∀ word, format.decode (encode (format.value word)) = .ok (format.value word)) ∧
    -- the texts that are read, and the keys that they give
    (∀ (text : String) (n : Int), format.decode text = .ok n ↔
      format.Denotes text.toList n ∧ ∃ word, format.value word = n) ∧
    -- what becomes of all other texts
    (∀ text : String, (∀ word, ¬format.Denotes text.toList (format.value word)) →
      ∃ error, format.decode text = .error error ∧ error.kind = .deserialize ∧
        error.message = "invalid integer key: '" ++ text ++ "'") ∧
    -- the texts that are written again as they were read
    (∀ (text : String) (n : Int), format.decode text = .ok n →
      (encode n = text ↔ ¬HasSpareZero text.toList ∧ ¬IsNegativeZero text.toList)) ∧
    -- nothing is confused with anything else
    Function.Injective encode ∧
    Set.InjOn format.decode (Set.range fun word => encode (format.value word)) := by
  have hread : ∀ word, format.decode (encode (format.value word)) = .ok (format.value word) :=
    fun word => decode_encode ((holds_iff hbits).mpr ⟨word, rfl⟩)
  refine ⟨hread, ?_, ?_, ?_, encode_injective, ?_⟩
  · intro text n
    rw [decode_eq_ok_iff, holds_iff hbits]
  · intro text hnone
    refine ⟨_, (format.decode_cases text).resolve_left ?_, rfl, rfl⟩
    rintro ⟨n, hn⟩
    obtain ⟨hdenotes, hholds⟩ := decode_eq_ok_iff.mp hn
    obtain ⟨word, rfl⟩ := (holds_iff hbits).mp hholds
    exact hnone word hdenotes
  · intro text n hn
    rw [← encode_eq_iff (decode_eq_ok_iff.mp hn).1, String.toList_inj]
  · rintro _ ⟨a, rfl⟩ _ ⟨b, rfl⟩ hab
    simp only [hread, Except.ok.injEq] at hab
    exact congrArg encode hab

-- A signed byte: the least key, the text of the number below it, and a text that is read but
-- never written.
theorem integer_keys_are_numerals_of_bytes :
    0 < i8.bits ∧
    i8.value 0x80#8 = -128 ∧ i8.decode (encode (-128)) = .ok (-128) ∧
    (∀ word, ¬i8.Denotes "-129".toList (i8.value word)) ∧
    (∃ error, i8.decode "-129" = .error error ∧ error.kind = .deserialize ∧
      error.message = "invalid integer key: '-129'") ∧
    i8.decode "-007" = .ok (-7) ∧ i8.Denotes "-007".toList (-7) ∧
    HasSpareZero "-007".toList ∧ encode (-7) ≠ "-007" := by
  obtain ⟨hread, haccepted, hrefused, hwritten, -, -⟩ :=
    integer_keys_are_numerals (show 0 < i8.bits by decide)
  have hbelow : ∀ word, ¬i8.Denotes "-129".toList (i8.value word) := by
    intro word hdenotes
    have hok := (haccepted "-129" _).mpr ⟨hdenotes, word, rfl⟩
    have herror : i8.decode "-129" = .error (.deserialize (.integerKey "-129")) := rfl
    cases herror.symm.trans hok
  have hseven : i8.decode "-007" = .ok (-7) := rfl
  have hspare : HasSpareZero "-007".toList := ⟨'0', ['7'], rfl⟩
  refine ⟨by decide, rfl, hread 0x80#8, hbelow, hrefused "-129" hbelow, hseven,
    ((haccepted "-007" _).mp hseven).1, hspare, fun hsame => ?_⟩
  exact ((hwritten "-007" _ hseven).mp hsame).1 hspare

end SnapshotStore.IntegerFormat
