/-
# StubRelease.Archive.Number -- numbers in archives

Archives hold numbers of a fixed width, the lowest byte first. Main statement: reading what was written
gives the number modulo what fits (`ofLittle_little`).
-/
import StubRelease.Bytes

namespace StubRelease.Archive

/-- The lowest bytes of a number, lowest first. -/
def little : Nat → Nat → Bytes
  | 0, _ => []
  | width + 1, n => (n % 256).toUInt8 :: little width (n / 256)

/-- The number that bytes stand for, the lowest first. -/
def ofLittle : Bytes → Nat
  | [] => 0
  | b :: rest => b.toNat + 256 * ofLittle rest

/-- The number that bytes stand for, the highest first. -/
def ofBig (bs : Bytes) : Nat := bs.foldl (fun n b => 256 * n + b.toNat) 0

/-- Some bytes from an offset on. -/
def slice? (bs : Bytes) (offset size : Nat) : Option Bytes :=
  if offset + size ≤ bs.length then some ((bs.drop offset).take size) else none

/-- The number written at an offset. -/
def numberAt? (bs : Bytes) (offset size : Nat) : Option Nat := (slice? bs offset size).map ofLittle

/-- Writing a number and reading it back gives it modulo what fits. -/
theorem ofLittle_little (width n : Nat) : ofLittle (little width n) = n % Nat.pow 256 width := by
  induction width generalizing n with
  | zero => simp [little, ofLittle, Nat.mod_one]
  | succ w ih =>
    have hb : (n % 256).toUInt8.toNat = n % 256 := by
      simp [Nat.toUInt8, UInt8.toNat_ofNat']
    have hpow : Nat.pow 256 (w + 1) = Nat.pow 256 w * 256 := rfl
    rw [little, ofLittle, ih, hb, hpow, Nat.mul_comm (Nat.pow 256 w), Nat.mod_mul]

end StubRelease.Archive
