import ChipEight.Text.Numeral
import ChipEight.Text.NumeralReader
import Mathlib.Algebra.Group.Nat.Defs

namespace ChipEight

def Legible (base : Nat) (spell : Char → Char) : Prop :=
  ∀ d < base, digit? base (spell d.digitChar) = some d

theorem legible_upper : Legible 16 Char.toUpper := by
  unfold Legible
  decide

theorem legible_lower : Legible 16 id := by
  unfold Legible
  decide

variable {base bound n : Nat} {excess : NumeralError} {spell : Char → Char}

theorem induction_on_digits {motive : Nat → Prop} (hbase : 1 < base)
    (digit : ∀ d < base, motive d) (further : ∀ n, base ≤ n → motive (n / base) → motive n)
    (n : Nat) : motive n := by
  induction n using Nat.strongRecOn with
  | ind n ih =>
    rcases Nat.lt_or_ge n base with hlt | hge
    · exact digit n hlt
    · exact further n hge (ih _ (Nat.div_lt_self (by omega) hbase))

theorem forall_mem_toDigits {P : Char → Prop} (hbase : 1 < base)
    (hdigit : ∀ d < base, P d.digitChar) (n : Nat) : ∀ c ∈ Nat.toDigits base n, P c := by
  induction n using induction_on_digits hbase with
  | digit d hd =>
    rw [Nat.toDigits_of_lt_base hd]
    exact List.forall_mem_singleton.2 (hdigit d hd)
  | further n hn ih =>
    rw [Nat.toDigits_of_base_le hbase hn]
    refine List.forall_mem_append.2 ⟨ih, ?_⟩
    exact List.forall_mem_singleton.2 (hdigit _ (Nat.mod_lt n (by omega)))

theorem readDigits_append (value : Nat) (xs ys : List Char) :
    readDigits base bound excess value (xs ++ ys) =
      (readDigits base bound excess value xs).bind fun value =>
        readDigits base bound excess value ys := by
  induction xs generalizing value with
  | nil => rfl
  | cons c xs ih =>
    rw [List.cons_append, readDigits, readDigits]
    cases digit? base c with
    | none => rfl
    | some d =>
      simp only
      split
      · rfl
      · exact ih _

theorem readDigits_singleton {c : Char} {d : Nat} (hc : digit? base c = some d) {value : Nat}
    (hbound : value * base + d ≤ bound) :
    readDigits base bound excess value [c] = .ok (value * base + d) := by
  rw [readDigits, hc]
  exact if_neg (Nat.not_lt.2 hbound)

theorem readDigits_toDigits (hbase : 1 < base) (hspell : Legible base spell) (hn : n ≤ bound) :
    readDigits base bound excess 0 ((Nat.toDigits base n).map spell) = .ok n := by
  induction n using induction_on_digits hbase with
  | digit d hd =>
    rw [Nat.toDigits_of_lt_base hd, List.map_singleton,
      readDigits_singleton (hspell d hd) (by omega), Nat.zero_mul, Nat.zero_add]
  | further n hge ih =>
    have hlast : n % base < base := Nat.mod_lt n (by omega)
    have hwhole : n / base * base + n % base = n := Nat.div_add_mod' n base
    have hbound : n / base * base + n % base ≤ bound := Nat.le_trans (Nat.le_of_eq hwhole) hn
    rw [Nat.toDigits_of_base_le hbase hge, List.map_append, readDigits_append,
      ih (Nat.le_trans (Nat.div_le_self n base) hn), List.map_singleton]
    change readDigits base bound excess (n / base) _ = _
    rw [readDigits_singleton (hspell _ hlast) hbound, hwhole]

theorem readDigits_zeros (hbase : 0 < base) (count : Nat) (digits : List Char) :
    readDigits base bound excess 0 (List.replicate count '0' ++ digits) =
      readDigits base bound excess 0 digits := by
  have hzero : digit? base '0' = some 0 := by simp [digit?, digitValue, hbase]
  induction count with
  | zero => rfl
  | succ count ih =>
    rw [List.replicate_succ, List.cons_append, readDigits, hzero]
    simpa using ih

theorem readMagnitude_of_ne_nil {digits : List Char} (h : digits ≠ []) :
    readMagnitude base bound excess digits = readDigits base bound excess 0 digits := by
  cases digits with
  | nil => exact absurd rfl h
  | cons c rest => rfl

def spelledDigits (spell : Char → Char) (width n : Nat) : List Char :=
  ((Nat.toDigits 16 n).map spell).leftpad width '0'

theorem upperDigits_eq (width n : Nat) : upperDigits width n = spelledDigits Char.toUpper width n :=
  rfl

theorem lowerDigits_eq (width n : Nat) : lowerDigits width n = spelledDigits id width n := by
  rw [spelledDigits, List.map_id, lowerDigits]

theorem spelledDigits_ne_nil (spell : Char → Char) (width n : Nat) :
    spelledDigits spell width n ≠ [] := by
  rw [spelledDigits, List.leftpad]
  exact List.append_ne_nil_of_right_ne_nil _ (mt List.map_eq_nil_iff.1 Nat.toDigits_ne_nil)

theorem readMagnitude_spelledDigits (hspell : Legible 16 spell) (width : Nat) (hn : n ≤ bound) :
    readMagnitude 16 bound excess (spelledDigits spell width n) = .ok n := by
  rw [readMagnitude_of_ne_nil (spelledDigits_ne_nil spell width n), spelledDigits, List.leftpad,
    readDigits_zeros (by decide), readDigits_toDigits (by decide) hspell hn]

theorem readMagnitude_upperDigits (width : Nat) (hn : n ≤ bound) :
    readMagnitude 16 bound excess (upperDigits width n) = .ok n :=
  readMagnitude_spelledDigits legible_upper width hn

theorem length_spelledDigits {width : Nat} (hwidth : 0 < width) (hn : n < 16 ^ width) :
    (spelledDigits spell width n).length = width := by
  rw [spelledDigits, List.length_leftpad, List.length_map]
  exact Nat.max_eq_left ((Nat.length_toDigits_le_iff (by decide) hwidth).2 hn)

theorem upperDigits_inj {width m n : Nat} (h : upperDigits width m = upperDigits width n) :
    m = n := by
  have hm : readMagnitude 16 (max m n) .tooLarge (upperDigits width m) = .ok m :=
    readMagnitude_upperDigits width (Nat.le_max_left m n)
  have hn : readMagnitude 16 (max m n) .tooLarge (upperDigits width n) = .ok n :=
    readMagnitude_upperDigits width (Nat.le_max_right m n)
  rw [h, hn] at hm
  exact (Except.ok.inj hm).symm

theorem forall_mem_spelledDigits {P : Char → Prop} (hzero : P '0')
    (hdigit : ∀ d < 16, P (spell d.digitChar)) (width n : Nat) :
    ∀ c ∈ spelledDigits spell width n, P c := by
  rw [spelledDigits, List.leftpad]
  refine List.forall_mem_append.2 ⟨fun c hc => ?_, ?_⟩
  · rw [List.eq_of_mem_replicate hc]
    exact hzero
  · exact List.forall_mem_map.2 (forall_mem_toDigits (by decide) hdigit n)

theorem forall_mem_upperDigits {P : Char → Prop} (hdigit : ∀ d < 16, P d.digitChar.toUpper)
    (width n : Nat) : ∀ c ∈ upperDigits width n, P c :=
  forall_mem_spelledDigits (hdigit 0 (by decide)) hdigit width n

theorem forall_mem_lowerDigits {P : Char → Prop} (hdigit : ∀ d < 16, P d.digitChar)
    (width n : Nat) : ∀ c ∈ lowerDigits width n, P c := by
  rw [lowerDigits_eq]
  exact forall_mem_spelledDigits (hdigit 0 (by decide)) hdigit width n

theorem not_mem_toDigits {c : Char} (hbase : 1 < base) (hdigit : ∀ d < base, d.digitChar ≠ c)
    (n : Nat) : c ∉ Nat.toDigits base n :=
  fun h => forall_mem_toDigits (P := (· ≠ c)) hbase hdigit n c h rfl

theorem not_mem_upperDigits {c : Char} (hdigit : ∀ d < 16, d.digitChar.toUpper ≠ c)
    (width n : Nat) : c ∉ upperDigits width n :=
  fun h => forall_mem_upperDigits (P := (· ≠ c)) hdigit width n c h rfl

theorem not_mem_lowerDigits {c : Char} (hdigit : ∀ d < 16, d.digitChar ≠ c)
    (width n : Nat) : c ∉ lowerDigits width n :=
  fun h => forall_mem_lowerDigits (P := (· ≠ c)) hdigit width n c h rfl

def readCell (width : Nat) (cell : List Char) : Option Nat :=
  if cell.length = width then (readMagnitude 16 (16 ^ width - 1) .tooLarge cell).toOption else none

theorem readCell_spelledDigits (hspell : Legible 16 spell) {width : Nat} (hwidth : 0 < width)
    (hn : n < 16 ^ width) : readCell width (spelledDigits spell width n) = some n := by
  rw [readCell, if_pos (length_spelledDigits hwidth hn),
    readMagnitude_spelledDigits hspell width (Nat.le_sub_one_of_lt hn)]
  rfl

theorem toList_paddedWord (n : Nat) : (paddedWord n).toList = '0' :: 'x' :: upperDigits 4 n := by
  simp [paddedWord, prefixedHex]

theorem paddedWord_inj {m n : Nat} (h : (paddedWord m).toList = (paddedWord n).toList) :
    m = n := by
  rw [toList_paddedWord, toList_paddedWord, List.cons.injEq, List.cons.injEq] at h
  exact upperDigits_inj h.2.2

theorem not_mem_paddedWord {c : Char} (hc : c ≠ 'x') (hdigit : ∀ d < 16, d.digitChar.toUpper ≠ c)
    (n : Nat) : c ∉ (paddedWord n).toList := by
  have hzero : c ≠ '0' := (hdigit 0 (by decide)).symm
  rw [toList_paddedWord, List.mem_cons, List.mem_cons]
  rintro (h | h | h)
  · exact hzero h
  · exact hc h
  · exact not_mem_upperDigits hdigit 4 n h

def readWord : List Char → Option Nat
  | '0' :: 'x' :: digits => (readMagnitude 16 (UInt16.size - 1) .tooLarge digits).toOption
  | _ => none

theorem readWord_paddedWord (h : n < UInt16.size) : readWord (paddedWord n).toList = some n := by
  rw [toList_paddedWord, readWord, readMagnitude_upperDigits 4 (Nat.le_sub_one_of_lt h)]
  rfl

end ChipEight
