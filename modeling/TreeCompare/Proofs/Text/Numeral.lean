import Mathlib.Algebra.Ring.Nat
import TreeCompare.Text.Numeral

/-!
# Numerals can be read back

A hexadecimal numeral of a fixed width gives back its number, and so does a decimal,
which consists of decimal digits only.
-/
namespace TreeCompare.Numeral

@[simp] theorem length_hexDigits (width n : Nat) : (hexDigits width n).length = width := by
  induction width generalizing n with
  | zero => rfl
  | succ width ih => rw [hexDigits, List.length_append, ih, List.length_singleton]

theorem mem_hexDigits {width n : Nat} {c : Char} (h : c ∈ hexDigits width n) :
    ∃ d < 16, c = Nat.digitChar d := by
  induction width generalizing n with
  | zero => cases h
  | succ width ih =>
      rcases List.mem_append.1 h with h | h
      · exact ih h
      · exact ⟨n % 16, Nat.mod_lt _ (by decide), List.mem_singleton.1 h⟩

/-- The value of a lowercase hexadecimal digit. -/
def digitValue (c : Char) : Nat := if c.isDigit then c.toNat - 0x30 else c.toNat - 0x57

/-- The number that hexadecimal digits spell. -/
def hexValue (digits : List Char) : Nat := digits.foldl (fun n c => n * 16 + digitValue c) 0

theorem digitValue_digitChar : ∀ d < 16, digitValue (Nat.digitChar d) = d := by decide

theorem hexValue_hexDigits {width n : Nat} (h : n < 16 ^ width) :
    hexValue (hexDigits width n) = n := by
  induction width generalizing n with
  | zero =>
      rw [Nat.pow_zero] at h
      rw [Nat.lt_one_iff.1 h]
      rfl
  | succ width ih =>
      rw [Nat.pow_succ] at h
      have hquot : hexValue (hexDigits width (n / 16)) = n / 16 :=
        ih (Nat.div_lt_of_lt_mul (by omega))
      have hrem : digitValue (Nat.digitChar (n % 16)) = n % 16 :=
        digitValue_digitChar _ (Nat.mod_lt _ (by decide))
      unfold hexValue at hquot ⊢
      rw [hexDigits, List.foldl_append, hquot, List.foldl_cons, hrem, List.foldl_nil]
      omega

theorem toDigits_inj {m n : Nat} (h : Nat.toDigits 10 m = Nat.toDigits 10 n) : m = n := by
  have hread := congrArg (Nat.ofDigitChars 10 · 0) h
  simpa using hread

theorem append_cons_inj {α : Type} {a : α} {x y s t : List α} (hx : a ∉ x) (hy : a ∉ y)
    (h : x ++ a :: s = y ++ a :: t) : x = y ∧ s = t := by
  induction x generalizing y with
  | nil =>
      cases y with
      | nil => exact ⟨rfl, List.tail_eq_of_cons_eq h⟩
      | cons b y => exact absurd (List.cons.inj h).1 (fun e => hy (e ▸ List.mem_cons_self))
  | cons b x ih =>
      cases y with
      | nil => exact absurd (List.cons.inj h).1 (fun e => hx (e ▸ List.mem_cons_self))
      | cons c y =>
          obtain ⟨rfl, hrest⟩ := List.cons.inj h
          obtain ⟨rfl, rfl⟩ := ih (mt (List.mem_cons_of_mem _) hx)
            (mt (List.mem_cons_of_mem _) hy) hrest
          exact ⟨rfl, rfl⟩

theorem isDigit_of_mem_decimal {n : Nat} {c : Char} (h : c ∈ (decimal n).toList) :
    c.isDigit := by
  rw [decimal, String.toList_ofList] at h
  exact Nat.isDigit_of_mem_toDigits (by decide) (by decide) h

/-- A decimal ends at the first character that is no digit. -/
theorem decimal_append_inj {m n : Nat} {c : Char} {s t : List Char} (hc : c.isDigit = false)
    (h : (decimal m).toList ++ c :: s = (decimal n).toList ++ c :: t) : m = n ∧ s = t := by
  have hout (k : Nat) : c ∉ (decimal k).toList := by
    intro hm
    rw [isDigit_of_mem_decimal hm] at hc
    cases hc
  obtain ⟨hdigits, hrest⟩ := append_cons_inj (hout m) (hout n) h
  rw [decimal, decimal, String.toList_ofList, String.toList_ofList] at hdigits
  exact ⟨toDigits_inj hdigits, hrest⟩

end TreeCompare.Numeral
