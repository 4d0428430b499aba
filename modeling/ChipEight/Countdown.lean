namespace ChipEight

def countDown (level amount : UInt8) : UInt8 :=
  if amount ≤ level then level - amount else 0

@[simp]
theorem toNat_countDown (level amount : UInt8) :
    (countDown level amount).toNat = level.toNat - amount.toNat := by
  unfold countDown
  split
  · next h => rw [UInt8.toNat_sub_of_le _ _ h]
  · next h =>
    have : level.toNat < amount.toNat := by simpa [UInt8.le_iff_toNat_le] using h
    simp
    omega

end ChipEight
