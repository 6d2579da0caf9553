import QemuTest.Lib.Text

/-!
# Util — Net

`NetConfig` of `util.rs`, and the MAC addresses `generate_mac` makes.
-/

namespace QemuTest

open Text

/-- A digit of `{:x}`. -/
def hexDigit (n : Nat) : Char := (Nat.digitChar n)

/-- `{:02x}` of a byte. -/
def hexByte (b : UInt8) : Str := [hexDigit (b.toNat / 16), hexDigit (b.toNat % 16)]

/-- `generate_mac`, from the random bytes it draws. -/
def generateMac (b₀ b₁ b₂ : UInt8) : Str :=
  lit "52:54:00:" ++ hexByte b₀ ++ lit ":" ++ hexByte b₁ ++ lit ":" ++ hexByte b₂

inductive NetConfig where
  | UserNet (mac : Str)
  | Tap (mac ifname guest_ip gateway : Str)
  deriving DecidableEq

def NetConfig.mac : NetConfig → Str
  | .UserNet mac => mac
  | .Tap mac _ _ _ => mac

end QemuTest
