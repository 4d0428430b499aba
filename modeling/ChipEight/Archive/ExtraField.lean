import ChipEight.Archive.Failure

namespace ChipEight

def littleEndian : List UInt8 → Nat
  | [] => 0
  | byte :: rest => byte.toNat + 0x100 * littleEndian rest

structure AesField where
  version : Nat
  vendor : Nat
  strength : Nat
  method : Nat
  deriving DecidableEq, Repr

namespace AesField

def size : Nat := 7

def vendorCode : Nat := 0x4541

def ofBytes? : List UInt8 → Option AesField
  | v₀ :: v₁ :: n₀ :: n₁ :: strength :: m₀ :: m₁ :: _ =>
    some
      { version := littleEndian [v₀, v₁]
        vendor := littleEndian [n₀, n₁]
        strength := strength.toNat
        method := littleEndian [m₀, m₁] }
  | _ => none

def check (f : AesField) : Except ArchiveFailure Unit := do
  if f.vendor ≠ vendorCode then throw .badAesVendor
  if ¬(f.version = 1 ∨ f.version = 2) then throw .badAesVersion
  if ¬(1 ≤ f.strength ∧ f.strength ≤ 3) then throw .badAesStrength

end AesField

namespace ExtraField

def aesKind : Nat := 0x9901

def findAes (found : Option AesField) : List UInt8 → Except ArchiveFailure (Option AesField)
  | k₀ :: k₁ :: l₀ :: l₁ :: rest =>
    let length := littleEndian [l₀, l₁]
    if littleEndian [k₀, k₁] = aesKind then
      if length ≠ AesField.size then .error .badAesFieldLength
      else match AesField.ofBytes? rest with
        | none => .ok found
        | some field =>
          match field.check with
          | .error e => .error e
          -- As many bytes as the field has are skipped once more behind it.
          | .ok () => findAes (some field) (rest.drop (2 * AesField.size))
    else findAes found (rest.drop length)
  | _ => .ok found
  termination_by bytes => bytes.length
  decreasing_by all_goals simp only [List.length_drop, List.length_cons]; omega

end ExtraField

end ChipEight
