import ManagedCode.Text.Blank
import ManagedCode.Text.Numeral

/-!
# Metadata tokens

A token is a 32-bit number by which code bytes name a string, member or type of their module. It is
written in hexadecimal with eight digits and read in hexadecimal or decimal.
-/

namespace ManagedCode

/-- The number of a string, member or type. -/
structure Token where
  /-- The number. -/
  value : UInt32
  deriving DecidableEq, Repr, Inhabited

namespace Token

/-- The written form, such as `0x70000001`. -/
def text (token : Token) : String := "0x" ++ Text.hexText 8 token.value.toNat

/-- Reads a token: digits in hexadecimal behind `0x` or `0X`, otherwise in decimal. Blanks around it
do not count. -/
def parse? (cs : List Char) : Option Token :=
  let value? :=
    match Text.trim cs with
    | '0' :: 'x' :: digits | '0' :: 'X' :: digits => Text.readNat? 16 32 digits
    | digits => Text.readNat? 10 32 digits
  value?.map fun n => ⟨n.toUInt32⟩

end Token

end ManagedCode
