import PolicyAnalysis.Network

/-!
# Networks by words

Whether the host bits of a network are clear can be told by a mask, in words of 128 bits. A step that leaves its word
has no result: one that shifts by all bits of a word or more, or that takes more from a word than it holds.
-/

namespace PolicyAnalysis

/-- The bits of an address, at the end of a word. -/
def Address.word : Address → BitVec 128
  | v4 bits => bits.setWidth 128
  | v6 bits => bits

namespace Network

variable {width : Nat}

def shiftLeft? (word : BitVec width) (amount : Nat) : Option (BitVec width) :=
  if amount < width then some (word <<< amount) else none

def sub? (a b : BitVec width) : Option (BitVec width) :=
  if b ≤ a then some (a - b) else none

def hostMask? (count : Nat) : Option (BitVec 128) :=
  if 128 ≤ count then some (.allOnes 128) else do sub? (← shiftLeft? 1 count) 1

/-- `Network.of`, step by step. -/
def ofWords? (address : Address) (bits : UInt8) : Option (Except PolicyError Network) :=
  let most : UInt8 := .ofNat address.width
  let refused := .error (.badNetwork (Network.mk address bits).text)
  if most < bits then some refused
  else do
    let hostBits ← sub? most.toBitVec bits.toBitVec
    let mask ← hostMask? hostBits.toNat
    return if address.word &&& mask = 0 then .ok ⟨address, bits⟩ else refused

end Network

end PolicyAnalysis
