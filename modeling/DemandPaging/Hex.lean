import DemandPaging.Word

/-!
# Hexadecimal text

The written forms of a word in base sixteen, with lower-case digits and without leading zeros
unless a width asks for them.
-/

namespace DemandPaging
namespace Hex

def plain (w : UInt64) : String :=
  String.ofList (Nat.toDigits 16 w.toNat)

def tagged (w : UInt64) : String :=
  "0x" ++ plain w

def padLeft (c : Char) (width : Nat) (text : String) : String :=
  String.ofList (List.replicate (width - text.length) c) ++ text

end Hex
end DemandPaging
