/-! Hexadecimal numbers.

Addresses, sizes and transfer masks are written in base sixteen with lower-case
digits, no leading zero and the mark `0x`. -/
namespace GuestMachine.Text

/-- The digits alone; zero has one digit. -/
def hexDigits (n : Nat) : String :=
  String.ofList (Nat.toDigits 16 n)

def hex (n : Nat) : String :=
  "0x" ++ hexDigits n

end GuestMachine.Text
