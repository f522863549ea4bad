import Mathlib.Algebra.GroupWithZero.Nat
import Mathlib.Control.Basic
import Mathlib.Data.Option.Basic
import Processor64.Text.Numeral

/-!
# Telling numerals apart

The digits of a number tell the number in every base that has digits for it (`toDigits_inj`), and so
do all written forms that add a sign or a marker to them. Numerals are made of digits, so they end
where anything else begins (`append_cons_inj`). Digits are read as the number that they were written
for (`unsigned?_toDigits`), and filled with zeros they are the digits at so many places
(`leftpad_toDigits`).
-/

namespace Processor64.Numeral

/-- The first occurrence of a separator tells what stands before it and what after. -/
theorem append_cons_inj {α : Type} {c : α} {as bs xs ys : List α} (ha : c ∉ as) (hb : c ∉ bs) :
    as ++ c :: xs = bs ++ c :: ys ↔ as = bs ∧ xs = ys := by
  refine ⟨fun h => ?_, fun ⟨has, hxs⟩ => by rw [has, hxs]⟩
  induction as generalizing bs with
  | nil =>
    cases bs with
    | nil => exact ⟨rfl, (List.cons.inj h).2⟩
    | cons b bs =>
      obtain ⟨rfl, -⟩ := List.cons.inj h
      exact absurd List.mem_cons_self hb
  | cons a as ih =>
    cases bs with
    | nil =>
      obtain ⟨rfl, -⟩ := List.cons.inj h
      exact absurd List.mem_cons_self ha
    | cons b bs =>
      obtain ⟨rfl, htail⟩ := List.cons.inj h
      obtain ⟨rfl, hxs⟩ := ih (fun hc => ha (.tail _ hc)) (fun hc => hb (.tail _ hc)) htail
      exact ⟨rfl, hxs⟩

/-! ## Digits -/

variable {b m n : Nat} {c : Char}

theorem digitChar_inj (hm : m < 16) (hn : n < 16) : m.digitChar = n.digitChar ↔ m = n := by
  have h : ∀ m < 16, ∀ n < 16, m.digitChar = n.digitChar → m = n := by decide
  exact ⟨h m hm n hn, congrArg _⟩

theorem toDigits_inj (hb : 1 < b) (hb' : b ≤ 16) :
    Nat.toDigits b m = Nat.toDigits b n ↔ m = n := by
  refine ⟨fun h => ?_, congrArg _⟩
  induction m using Nat.strongRecOn generalizing n with
  | ind m ih =>
    rw [Nat.toDigits_eq_if (n := m) hb, Nat.toDigits_eq_if (n := n) hb] at h
    have hpos : 0 < b := by omega
    split at h <;> split at h
    · rename_i hm hn
      exact (digitChar_inj (by omega) (by omega)).mp (List.cons.inj h).1
    · -- one digit against at least two
      have := congrArg List.length h
      have := Nat.length_toDigits_pos (b := b) (n := n / b)
      simp only [List.length_append, List.length_cons, List.length_nil] at *
      omega
    · have := congrArg List.length h
      have := Nat.length_toDigits_pos (b := b) (n := m / b)
      simp only [List.length_append, List.length_cons, List.length_nil] at *
      omega
    · rename_i hm hn
      obtain ⟨hdigits, hlast⟩ := List.append_inj' h rfl
      have hquotient := ih (m / b) (Nat.div_lt_self (by omega) hb) hdigits
      have hmod := Nat.mod_lt m hpos
      have hmod' := Nat.mod_lt n hpos
      have hremainder := (digitChar_inj (by omega) (by omega)).mp (List.cons.inj hlast).1
      rw [← Nat.div_add_mod m b, ← Nat.div_add_mod n b, hquotient, hremainder]

theorem exists_of_mem_toDigits (hb : 1 < b) (h : c ∈ Nat.toDigits b n) :
    ∃ d : Nat, d.digitChar = c := by
  induction n using Nat.strongRecOn with
  | ind n ih =>
    rw [Nat.toDigits_eq_if hb] at h
    split at h
    · exact ⟨n, (List.mem_singleton.mp h).symm⟩
    · rcases List.mem_append.mp h with h | h
      · exact ih (n / b) (Nat.div_lt_self (by omega) hb) h
      · exact ⟨n % b, (List.mem_singleton.mp h).symm⟩

/-- A character that is no digit occurs in no digits. -/
theorem notMem_toDigits (hb : 1 < b) (hc : ∀ d : Nat, d.digitChar ≠ c) :
    c ∉ Nat.toDigits b n := by
  intro h
  obtain ⟨d, hd⟩ := exists_of_mem_toDigits hb h
  exact hc d hd

/-! ## Digits filled with zeros -/

/-- The zeros stand in front of all digits, so they are left where they are when the last digit
goes. -/
theorem leftpad_toDigits_succ (hb : 1 < b) (k n : Nat) :
    (Nat.toDigits b n).leftpad (k + 2) '0' =
      (Nat.toDigits b (n / b)).leftpad (k + 1) '0' ++ [(n % b).digitChar] := by
  rw [Nat.toDigits_eq_if hb]
  split
  · next h =>
    rw [Nat.div_eq_of_lt h, Nat.mod_eq_of_lt h, Nat.toDigits_zero]
    simp [List.leftpad, List.replicate_succ']
  · simp [List.leftpad]

theorem leftpad_toDigits (hb : 1 < b) {k : Nat} (hn : n < b ^ (k + 1)) :
    (Nat.toDigits b n).leftpad (k + 1) '0' =
      (List.range (k + 1)).reverse.map fun i => (n / b ^ i % b).digitChar := by
  induction k generalizing n with
  | zero =>
    rw [Nat.pow_one] at hn
    rw [Nat.toDigits_of_lt_base hn]
    simp [List.leftpad, Nat.mod_eq_of_lt hn]
  | succ k ih =>
    have hquotient : n / b < b ^ (k + 1) := by
      rw [Nat.div_lt_iff_lt_mul (by omega), ← Nat.pow_succ]
      exact hn
    rw [leftpad_toDigits_succ hb, ih hquotient, List.range_succ_eq_map (n := k + 1)]
    simp [Nat.pow_succ', Nat.div_div_eq_div_mul]

/-! ## Reading digits -/

theorem notMem_decimal (hc : ∀ d : Nat, d.digitChar ≠ c) : c ∉ (decimal n).toList := by
  rw [decimal, String.toList_ofList]
  exact notMem_toDigits (by decide) hc

theorem notMem_integer (hs : c ≠ '-') (hc : ∀ d : Nat, d.digitChar ≠ c) (i : Int) :
    c ∉ (integer i).toList := by
  have hdigits := notMem_decimal (n := i.natAbs) hc
  unfold integer
  split <;> simp [hs, hdigits]

theorem notMem_distance (hs : c ≠ '-') (hs' : c ≠ '+') (hc : ∀ d : Nat, d.digitChar ≠ c)
    (i : Int) : c ∉ (distance i).toList := by
  have hdigits := notMem_decimal (n := i.natAbs) hc
  unfold distance
  split <;> simp [hs, hs', hdigits]

theorem notMem_hex (hx : c ≠ 'x') (hc : ∀ d : Nat, d.digitChar ≠ c) : c ∉ (hex n).toList := by
  have h0 : c ≠ '0' := fun h => hc 0 h.symm
  have hdigits := notMem_toDigits (n := n) (show 1 < 16 by decide) hc
  simp [hex, hx, h0, hdigits]

/-- A decimal text is of one number. -/
@[simp]
theorem decimal_inj : decimal m = decimal n ↔ m = n := by
  rw [decimal, decimal, String.ofList_inj, toDigits_inj (by decide) (by decide)]

@[simp]
theorem hex_inj : hex m = hex n ↔ m = n := by
  rw [hex, hex, String.append_right_inj, String.ofList_inj,
    toDigits_inj (show 1 < 16 by decide) (by decide)]

variable {i j : Int}

theorem minus_append_ne_decimal : "-" ++ decimal m ≠ decimal n := by
  intro h
  have hminus : '-' ∉ (decimal n).toList := notMem_decimal fun _ => Nat.digitChar_ne '-' rfl
  simp [← h] at hminus

@[simp]
theorem integer_inj : integer i = integer j ↔ i = j := by
  refine ⟨fun h => ?_, congrArg _⟩
  unfold integer at h
  split at h <;> split at h
  · rw [String.append_right_inj, decimal_inj] at h
    omega
  · exact absurd h minus_append_ne_decimal
  · exact absurd h.symm minus_append_ne_decimal
  · rw [decimal_inj] at h
    omega

@[simp]
theorem distance_inj : distance i = distance j ↔ i = j := by
  have hsign : ∀ m n, "-" ++ decimal m ≠ "+" ++ decimal n := fun m n h => by
    simpa using congrArg String.toList h
  refine ⟨fun h => ?_, congrArg _⟩
  unfold distance at h
  split at h <;> split at h
  · rw [String.append_right_inj, decimal_inj] at h
    omega
  · exact absurd h (hsign _ _)
  · exact absurd h.symm (hsign _ _)
  · rw [String.append_right_inj, decimal_inj] at h
    omega

end Processor64.Numeral
