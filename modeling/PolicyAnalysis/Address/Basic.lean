import PolicyAnalysis.Order

/-!
# Internet addresses

An address is a number of 32 or of 128 bits. Addresses of version 4 come before those of version 6.
-/

namespace PolicyAnalysis

inductive Address where
  | v4 (bits : BitVec 32)
  | v6 (bits : BitVec 128)
deriving DecidableEq

namespace Address

def width : Address → Nat
  | v4 _ => 32
  | v6 _ => 128

def version : Address → Nat
  | v4 _ => 4
  | v6 _ => 6

def toNat : Address → Nat
  | v4 bits => bits.toNat
  | v6 bits => bits.toNat

theorem eq_of_version_of_toNat {a b : Address} (hv : a.version = b.version)
    (hn : a.toNat = b.toNat) : a = b := by
  cases a <;> cases b <;> simp_all [version, toNat, BitVec.toNat_inj]

instance : Ord Address :=
  ordByKey fun a => (a.version, a.toNat)

instance : Std.TransOrd Address :=
  transOrd_ordByKey _

instance : Std.LawfulEqOrd Address :=
  lawfulEqOrd_ordByKey _ fun _ _ h =>
    eq_of_version_of_toNat (congrArg Prod.fst h) (congrArg Prod.snd h)

end Address

/-- The eight groups of sixteen bits of an address of version 6, highest first. -/
def Address.groups (bits : BitVec 128) : List Nat :=
  [112, 96, 80, 64, 48, 32, 16, 0].map fun shift => (bits.toNat >>> shift) % 0x10000

def Address.bytes (bits : BitVec 32) : List Nat :=
  [24, 16, 8, 0].map fun shift => (bits.toNat >>> shift) % 0x100

/-- The number that digits in a base stand for, highest first. -/
def Address.ofGroups (base : Nat) (groups : List Nat) : Nat :=
  groups.foldl (fun n group => n * base + group) 0

end PolicyAnalysis
