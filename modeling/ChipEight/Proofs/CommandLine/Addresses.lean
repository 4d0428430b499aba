import ChipEight.CommandLine.Address
import ChipEight.Proofs.Text.Numerals
import Mathlib.Data.List.Induction

namespace ChipEight

def Spells (c : Char) (d : Nat) : Prop :=
  d < 16 ∧ (c = d.digitChar ∨ c = d.digitChar.toUpper)

instance (c : Char) (d : Nat) : Decidable (Spells c d) :=
  inferInstanceAs (Decidable (_ ∧ _))

inductive Denotes : List Char → Nat → Prop where
  | digit {c : Char} {d : Nat} (h : Spells c d) : Denotes [c] d
  | snoc {digits : List Char} {n : Nat} {c : Char} {d : Nat} (hdigits : Denotes digits n)
      (h : Spells c d) : Denotes (digits ++ [c]) (n * 16 + d)

variable {c : Char} {d n width bound : Nat} {excess : NumeralError} {digits text : List Char}

theorem toNat_lt_of_digitValue (h : digitValue c = some d) : c.toNat < 128 := by
  unfold digitValue at h
  split at h
  · next hc => exact Nat.lt_of_le_of_lt hc.2 (by decide)
  split at h
  · next hc => exact Nat.lt_of_le_of_lt hc.2 (by decide)
  split at h
  · next hc => exact Nat.lt_of_le_of_lt hc.2 (by decide)
  · cases h

theorem spells_of_code :
    ∀ code < 128, ∀ d < 16, digitValue (Char.ofNat code) = some d → Spells (Char.ofNat code) d := by
  decide +kernel

theorem spells_of_digitValue (h : digitValue c = some d) (hd : d < 16) : Spells c d := by
  have hcode := spells_of_code c.toNat (toNat_lt_of_digitValue h) d hd
  rw [Char.ofNat_toNat] at hcode
  exact hcode h

theorem digit?_eq_some_iff : digit? 16 c = some d ↔ Spells c d := by
  constructor
  · intro h
    obtain ⟨hvalue, hd⟩ := Option.filter_eq_some_iff.1 h
    exact spells_of_digitValue hvalue (by simpa using hd)
  · rintro ⟨hd, rfl | rfl⟩
    · exact legible_lower d hd
    · exact legible_upper d hd

theorem readDigits_singleton_eq_ok_iff {value : Nat} :
    readDigits 16 bound excess value [c] = .ok n ↔
      ∃ d, Spells c d ∧ n = value * 16 + d ∧ n ≤ bound := by
  rw [readDigits]
  cases hc : digit? 16 c with
  | none =>
    have hnot (d : Nat) : ¬Spells c d := fun h => by simp [digit?_eq_some_iff.2 h] at hc
    simp [hnot]
  | some d =>
    have hunique (e : Nat) : Spells c e ↔ d = e := by
      rw [← digit?_eq_some_iff, hc, Option.some.injEq]
    simp only [hunique, exists_eq_left']
    split
    · next hover =>
      have hnot : ¬(n = value * 16 + d ∧ n ≤ bound) := by omega
      simp [hnot]
    · next hfits =>
      have hread : n = value * 16 + d ∧ n ≤ bound ↔ value * 16 + d = n := by omega
      simp [hread, readDigits]

theorem Denotes.ne_nil (h : Denotes digits n) : digits ≠ [] := by
  cases h <;> simp

theorem Denotes.spells_of_mem (h : Denotes digits n) (hc : c ∈ digits) : ∃ d, Spells c d := by
  induction h with
  | digit h => exact ⟨_, List.mem_singleton.1 hc ▸ h⟩
  | snoc hdigits h ih =>
    rcases List.mem_append.1 hc with hc | hc
    · exact ih hc
    · exact ⟨_, List.mem_singleton.1 hc ▸ h⟩

theorem Denotes.readDigits_eq (h : Denotes digits n) (hn : n ≤ bound) :
    readDigits 16 bound excess 0 digits = .ok n := by
  induction h with
  | digit h => exact readDigits_singleton_eq_ok_iff.2 ⟨_, h, by simp, hn⟩
  | snoc hdigits h ih =>
    rw [readDigits_append, ih (by omega)]
    exact readDigits_singleton_eq_ok_iff.2 ⟨_, h, rfl, hn⟩

theorem Denotes.readDigits_of_lt (h : Denotes digits n) (hn : bound < n) :
    readDigits 16 bound excess 0 digits = .error excess := by
  induction h with
  | digit h => simpa [readDigits, digit?_eq_some_iff.2 h] using hn
  | @snoc digits n c d hdigits h ih =>
    rw [readDigits_append]
    rcases Nat.lt_or_ge bound n with hover | hfits
    · rw [ih hover]
      rfl
    · rw [hdigits.readDigits_eq hfits]
      change readDigits 16 bound excess n [c] = _
      rw [readDigits, digit?_eq_some_iff.2 h]
      exact if_pos hn

theorem denotes_of_readDigits (hne : digits ≠ [])
    (h : readDigits 16 bound excess 0 digits = .ok n) : Denotes digits n ∧ n ≤ bound := by
  induction digits using List.reverseRecOn generalizing n with
  | nil => exact absurd rfl hne
  | append_singleton digits c ih =>
    rw [readDigits_append] at h
    cases hfront : readDigits 16 bound excess 0 digits with
    | error e => simp [hfront, Except.bind] at h
    | ok value =>
      rw [hfront] at h
      obtain ⟨d, hd, rfl, hle⟩ := readDigits_singleton_eq_ok_iff.1 h
      refine ⟨?_, hle⟩
      rcases eq_or_ne digits [] with rfl | hdigits
      · obtain rfl : 0 = value := Except.ok.inj hfront
        simpa using Denotes.digit hd
      · exact (ih hdigits hfront).1.snoc hd

theorem readMagnitude_eq_ok_iff :
    readMagnitude 16 bound excess digits = .ok n ↔ Denotes digits n ∧ n ≤ bound := by
  constructor
  · intro h
    have hne : digits ≠ [] := by
      rintro rfl
      cases h
    rw [readMagnitude_of_ne_nil hne] at h
    exact denotes_of_readDigits hne h
  · rintro ⟨h, hn⟩
    rw [readMagnitude_of_ne_nil h.ne_nil]
    exact h.readDigits_eq hn

theorem denotes_spelledDigits {spell : Char → Char} (hspell : Legible 16 spell) (width n : Nat) :
    Denotes (spelledDigits spell width n) n := by
  have hread : readMagnitude 16 n .tooLarge (spelledDigits spell width n) = .ok n :=
    readMagnitude_spelledDigits hspell width (Nat.le_refl n)
  exact (readMagnitude_eq_ok_iff.1 hread).1

theorem denotes_upperDigits (width n : Nat) : Denotes (upperDigits width n) n :=
  denotes_spelledDigits legible_upper width n

theorem denotes_lowerDigits (width n : Nat) : Denotes (lowerDigits width n) n := by
  rw [lowerDigits_eq]
  exact denotes_spelledDigits legible_lower width n

theorem Denotes.not_mem (h : Denotes digits n) (hc : digit? 16 c = none) : c ∉ digits := by
  intro hmem
  obtain ⟨d, hd⟩ := h.spells_of_mem hmem
  simp [digit?_eq_some_iff.2 hd] at hc

theorem Denotes.readMagnitude_of_lt (h : Denotes digits n) (hn : bound < n) :
    readMagnitude 16 bound excess digits = .error excess := by
  rw [readMagnitude_of_ne_nil h.ne_nil]
  exact h.readDigits_of_lt hn

inductive Signed : List Char → Nat → Prop where
  | bare {digits : List Char} {n : Nat} (h : Denotes digits n) : Signed digits n
  | plus {digits : List Char} {n : Nat} (h : Denotes digits n) : Signed ('+' :: digits) n

theorem Signed.not_mem (h : Signed text n) (hplus : c ≠ '+') (hc : digit? 16 c = none) :
    c ∉ text := by
  cases h with
  | bare h => exact h.not_mem hc
  | plus h => simp [hplus, h.not_mem hc]

theorem readUnsigned_of_ne_plus (hplus : '+' ∉ digits) (hne : digits ≠ []) :
    readUnsigned 16 bound digits = readMagnitude 16 bound .tooLarge digits := by
  unfold readUnsigned
  split <;> simp_all

theorem Signed.exists_digits (h : Signed text n) :
    ∃ digits, Denotes digits n ∧
      ∀ bound, readUnsigned 16 bound text = readMagnitude 16 bound .tooLarge digits := by
  cases h with
  | bare h => exact ⟨text, h, fun _ => readUnsigned_of_ne_plus (h.not_mem rfl) h.ne_nil⟩
  | @plus digits _ h => exact ⟨digits, h, fun _ => rfl⟩

theorem readUnsigned_eq_ok_iff :
    readUnsigned 16 bound text = .ok n ↔ Signed text n ∧ n ≤ bound := by
  constructor
  · intro h
    unfold readUnsigned at h
    split at h
    · cases h
    · exact (readMagnitude_eq_ok_iff.1 h).imp_left .plus
    · exact (readMagnitude_eq_ok_iff.1 h).imp_left .bare
  · rintro ⟨h, hn⟩
    obtain ⟨digits, hdigits, hread⟩ := h.exists_digits
    rw [hread]
    exact readMagnitude_eq_ok_iff.2 ⟨hdigits, hn⟩

theorem Signed.readUnsigned_of_lt (h : Signed text n) (hn : bound < n) :
    readUnsigned 16 bound text = .error .tooLarge := by
  obtain ⟨digits, hdigits, hread⟩ := h.exists_digits
  rw [hread]
  exact hdigits.readMagnitude_of_lt hn

namespace Address

inductive Written : List Char → Nat → Prop where
  | bare {text : List Char} {n : Nat} (h : Signed text n) : Written text n
  | lower {text : List Char} {n : Nat} (h : Signed text n) : Written ('0' :: 'x' :: text) n
  | upper {text : List Char} {n : Nat} (h : Signed text n) : Written ('0' :: 'X' :: text) n

theorem dropMarker_of_not_mem (hlower : 'x' ∉ text) (hupper : 'X' ∉ text) :
    dropMarker text = text := by
  unfold dropMarker
  split <;> simp_all

theorem written_iff : Written text n ↔ Signed (dropMarker text) n := by
  constructor
  · intro h
    cases h with
    | bare h =>
      rw [dropMarker_of_not_mem (h.not_mem (by decide) rfl) (h.not_mem (by decide) rfl)]
      exact h
    | lower h | upper h => exact h
  · intro h
    unfold dropMarker at h
    split at h
    · exact .lower h
    · exact .upper h
    · exact .bare h

theorem parse_eq_ok_iff {s : String} {v : UInt16} :
    parse s = .ok v ↔ Written s.toList v.toNat := by
  have hv : v.toNat ≤ 0xFFFF := Nat.le_of_lt_succ v.toNat_lt
  have hread : Written s.toList v.toNat ↔
      readUnsigned 16 0xFFFF (dropMarker s.toList) = .ok v.toNat := by
    simp [written_iff, readUnsigned_eq_ok_iff, hv]
  rw [hread, parse]
  cases hvalue : readUnsigned 16 0xFFFF (dropMarker s.toList) with
  | error e => simp [Except.map]
  | ok n =>
    have hn : n ≤ 0xFFFF := (readUnsigned_eq_ok_iff.1 hvalue).2
    have hkept : (UInt16.ofNat n).toNat = n := UInt16.toNat_ofNat_of_lt' (Nat.lt_succ_of_le hn)
    simp [Except.map, ← UInt16.toNat_inj, hkept]

theorem Written.parse_of_lt {s : String} (h : Written s.toList n) (hn : 0xFFFF < n) :
    parse s = .error .tooLarge := by
  rw [parse, (written_iff.1 h).readUnsigned_of_lt hn]
  rfl

theorem address_grammar :
    (∀ (s : String) (v : UInt16), parse s = .ok v ↔ Written s.toList v.toNat) ∧
    (∀ (s : String) (n : Nat), Written s.toList n → 0xFFFF < n → parse s = .error .tooLarge) ∧
    ∀ v : UInt16, parse (shortAddress v.toNat) = .ok v ∧
      ∀ width, parse (upperHex width v.toNat) = .ok v ∧ parse (lowerHex width v.toNat) = .ok v := by
  refine ⟨fun s v => parse_eq_ok_iff, fun s n h hn => h.parse_of_lt hn,
    fun v => ⟨?_, fun width => ⟨?_, ?_⟩⟩⟩
  · have htext : (shortAddress v.toNat).toList = '0' :: 'x' :: upperDigits 3 v.toNat := by
      simp [shortAddress, prefixedHex]
    rw [parse_eq_ok_iff, htext]
    exact .lower (.bare (denotes_upperDigits 3 _))
  · rw [parse_eq_ok_iff, toList_upperHex]
    exact .bare (.bare (denotes_upperDigits width _))
  · rw [parse_eq_ok_iff, toList_lowerHex]
    exact .bare (.bare (denotes_lowerDigits width _))

theorem address_grammar_excess :
    Written "0X+00010000".toList 0x10000 ∧ 0xFFFF < 0x10000 ∧
      parse "0X+00010000" = .error .tooLarge := by
  have hdigits : "0X+00010000".toList = '0' :: 'X' :: '+' :: upperDigits 8 0x10000 := by
    decide +kernel
  have hwritten : Written "0X+00010000".toList 0x10000 := by
    rw [hdigits]
    exact .upper (.plus (denotes_upperDigits 8 0x10000))
  exact ⟨hwritten, by decide, address_grammar.2.1 "0X+00010000" 0x10000 hwritten (by decide)⟩

end Address

end ChipEight
