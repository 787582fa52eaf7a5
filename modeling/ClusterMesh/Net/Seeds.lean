import ClusterMesh.Identity

/-! The seeds of a node in a simulation, the two halves of a hash of its name. -/
namespace ClusterMesh.Net

abbrev Hash := UInt32 → UInt64 → UInt64

def rotateLeft (x : UInt64) (n : UInt64) : UInt64 := (x <<< n) ||| (x >>> (64 - n))

def swapBytes (x : UInt32) : UInt32 :=
  let middle : UInt32 := 0xff00
  (x <<< 24) ||| ((x &&& middle) <<< 8) ||| ((x >>> 8) &&& middle) ||| (x >>> 24)

def mixShort (h : UInt64) (length : UInt64) : UInt64 :=
  let h := h ^^^ rotateLeft h 49 ^^^ rotateLeft h 24
  let h := h * 0x9fb21c651e98df25
  let h := h ^^^ ((h >>> 35) + length)
  let h := h * 0x9fb21c651e98df25
  h ^^^ (h >>> 28)

/-- XXH3 for four bytes. The two constants are bytes 8 to 23 of its default secret. -/
def hashWord (word : UInt32) (seed : UInt64) : UInt64 :=
  let seed := seed ^^^ ((swapBytes seed.toUInt32).toUInt64 <<< 32)
  let flip := ((0x1cad21f72c81017c : UInt64) ^^^ 0xdb979083e96dd4de) - seed
  let input := word.toUInt64 + (word.toUInt64 <<< 32)
  mixShort (input ^^^ flip) 4

def nonzero (w : UInt32) : UInt32 := max w 1

def nodeSeeds (seed : UInt64) (id : NodeId) (hash : Hash := hashWord) : UInt32 × UInt32 :=
  let h := hash id seed
  (nonzero h.toUInt32, nonzero (h >>> 32).toUInt32)

end ClusterMesh.Net
