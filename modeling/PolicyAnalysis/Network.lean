import PolicyAnalysis.Address.Text
import PolicyAnalysis.Error
import PolicyAnalysis.Text.Blank

/-!
# Networks

A network is an address and the number of its leading bits that all hosts share. `Network.of` takes only
networks whose host bits are clear; the type itself admits others, since one may come from a file.
-/

namespace PolicyAnalysis

structure Network where
  address : Address
  /-- The number of leading bits that name the network. -/
  bits : UInt8
deriving DecidableEq

namespace Network

instance : Ord Network :=
  ordByKey fun n => (n.address, n.bits)

instance : Std.TransOrd Network :=
  transOrd_ordByKey _

instance : Std.LawfulEqOrd Network :=
  lawfulEqOrd_ordByKey _ fun a b h => by
    cases a; cases b; simp_all

def text (n : Network) : String :=
  n.address.text ++ "/" ++ toString n.bits.toNat

def HostBitsClear (n : Network) : Prop :=
  n.address.toNat % (1 <<< (n.address.width - n.bits.toNat)) = 0

instance (n : Network) : Decidable n.HostBitsClear :=
  inferInstanceAs (Decidable (_ = _))

def of (address : Address) (bits : UInt8) : Except PolicyError Network :=
  let network := Network.mk address bits
  if bits.toNat ≤ address.width ∧ network.HostBitsClear then .ok network
  else .error (.badNetwork network.text)

/-- A number below 256, in decimal digits after an optional plus sign. -/
def byteOfText? (s : String) : Option UInt8 :=
  let digits := match s.toList with
    | '+' :: rest => rest
    | cs => cs
  if digits.isEmpty || !digits.all Char.isDigit then none
  else
    let n := Nat.ofDigitChars 10 digits 0
    if n < 256 then some (.ofNat n) else none

/-- Reads an address and a number of bits around the first slash, each with blanks around it. -/
def ofText (s : String) : Except PolicyError Network :=
  let address := s.toList.takeWhile (· != '/')
  match s.toList.dropWhile (· != '/') with
  | [] => .error (.badNetwork s)
  | _ :: bits =>
    match Address.ofText? (String.ofList (Text.trimChars address)),
      byteOfText? (String.ofList (Text.trimChars bits)) with
    | some address, some bits => Network.of address bits
    | _, _ => .error (.badNetwork s)

end Network

end PolicyAnalysis
