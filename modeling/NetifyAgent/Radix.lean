import NetifyAgent.Addr
import Mathlib.Data.BitVec

/-! The radix tree of `radix_tree.hpp` over network entries. A network is a
`bitset` of the width of its family and a prefix length; the tree works on it
through `radix_length`, `radix_substr` and `radix_join`. An inner node is kept
with its key, its depth and its children in the order of their keys, a leaf has
the empty key; what a pointer to the parent reaches is kept as the list of the
ancestors that a search passed. -/
namespace NetifyAgent

/-! ## Addresses -/

/-- `ndAddr::IsValid`. -/
def Addr.isValid (a : Addr) : Bool := a.family != .unspec

/-- `ndAddr::IsIP`. -/
def Addr.isIP (a : Addr) : Bool := a.family == .inet || a.family == .inet6

/-- `ndAddr::IsIPv4`. -/
def Addr.isIPv4 (a : Addr) : Bool := a.family == .inet

/-- `ndAddr::IsIPv6`. -/
def Addr.isIPv6 (a : Addr) : Bool := a.family == .inet6

/-- `ntohl` of four bytes of storage. -/
def ntohl : List UInt8 → Nat
  | [a, b, c, d] => ((a.toNat * 256 + b.toNat) * 256 + c.toNat) * 256 + d.toNat
  | _ => 0

/-! ## Bit sets -/

section
variable {N : Nat}

/-- An `int` as a `size_t`. -/
def sizeOfInt (i : Int) : Nat := (i % 2 ^ 64).toNat

/-- `bitset::operator<<`: a shift by the width or more leaves no bit. -/
def shl (x : BitVec N) (n : Nat) : BitVec N := if n < N then x <<< n else 0

/-- `bitset::operator>>`. -/
def shr (x : BitVec N) (n : Nat) : BitVec N := if n < N then x >>> n else 0

/-- `x[i] = b`. -/
def setBit (x : BitVec N) (i : Nat) (b : Bool) : BitVec N :=
  if b then x ||| BitVec.twoPow N i else x &&& ~~~ BitVec.twoPow N i

/-- One bit of the subtraction: the borrow and the bits so far. -/
def minusStep (y : BitVec N) (s : Bool × BitVec N) (i : Nat) : Bool × BitVec N :=
  let bit := y.getLsbD i
  if s.1 then
    if s.2.getLsbD i then (bit, setBit s.2 i bit) else (true, setBit s.2 i !bit)
  else
    if s.2.getLsbD i then (false, setBit s.2 i !bit) else (bit, setBit s.2 i bit)

/-- `operator-=`. -/
def minusEq (x y : BitVec N) : BitVec N := ((List.range N).foldl (minusStep y) (false, x)).2

end

/-- `ndRadixNetworkEntry<N>`. -/
structure RadixNetworkEntry (N : Nat) where
  addr : BitVec N := 0
  /-- `size_t prefix_len`. -/
  prefixLen : Nat := 0
  deriving DecidableEq, Repr

namespace RadixNetworkEntry
variable {N : Nat}

/-- `operator[]`, from the most significant bit on. -/
def bit (entry : RadixNetworkEntry N) (n : Int) : Bool := entry.addr.getMsbD n.toNat

/-- `operator<`; bit sets compare from the most significant bit on. -/
def less (x y : RadixNetworkEntry N) : Bool :=
  if x.addr = y.addr then x.prefixLen < y.prefixLen else x.addr < y.addr

/-- `ndRadixNetworkEntry::Create`, given how the address of this width is read.
The mask has all bits set but the lowest ones that the prefix leaves free. -/
def create (read : Addr → BitVec N) (addr : Addr) : Option (RadixNetworkEntry N) :=
  if addr.isValid then
    let prefixLen := if addr.prefixLen = 0 then N else addr.prefixLen
    if N < prefixLen then none
    else some ⟨read addr &&& shl (BitVec.allOnes N) (N - prefixLen), prefixLen⟩
  else none

/-- `ndRadixNetworkEntry::CreateQuery`. -/
def createQuery (read : Addr → BitVec N) (addr : Addr) : Option (RadixNetworkEntry N) :=
  if addr.isValid then some ⟨read addr, N⟩ else none

/-- The case of `AF_INET`. -/
def read4 (addr : Addr) : BitVec 32 := BitVec.ofNat 32 (ntohl addr.sinAddr)

/-- The case of `AF_INET6`: the four words one by one. -/
def read6 (addr : Addr) : BitVec 128 :=
  let word (k : Nat) := BitVec.ofNat 128 (ntohl ((addr.sin6Addr.drop (4 * k)).take 4))
  shl (shl (shl (word 0) 32 ||| word 1) 32 ||| word 2) 32 ||| word 3

end RadixNetworkEntry

section
variable {N : Nat}

/-- `radix_length`. -/
def radixLength (entry : RadixNetworkEntry N) : Int := Int.bmod entry.prefixLen (2 ^ 32)

/-- `radix_substr`. -/
def radixSubstr (entry : RadixNetworkEntry N) (offset length : Int) : RadixNetworkEntry N :=
  let mask : BitVec N := if length = N then 0 else shl 1 (sizeOfInt length)
  let mask := minusEq mask 1
  let mask := shl mask (sizeOfInt (N - length - offset))
  ⟨shl (entry.addr &&& mask) (sizeOfInt offset), sizeOfInt length⟩

/-- `radix_join`. -/
def radixJoin (x y : RadixNetworkEntry N) : RadixNetworkEntry N :=
  ⟨x.addr ||| shr y.addr x.prefixLen, (x.prefixLen + y.prefixLen) % 2 ^ 64⟩

/-- `radix_substr(key, 0, 0)`, the key of every leaf. -/
def nul : RadixNetworkEntry N := {}

end

/-! ## Nodes -/

/-- `m_children`: the leaf, whose key is empty, and the inner nodes with their
key and depth, in the order of the keys. -/
inductive RadixChildren (N : Nat) (T : Type) where
  | nil
  | leaf (value : RadixNetworkEntry N × T) (rest : RadixChildren N T)
  | inner (key : RadixNetworkEntry N) (depth : Int) (children rest : RadixChildren N T)
  deriving DecidableEq

/-- An inner node of `radix_tree_node`. -/
structure RadixNode (N : Nat) (T : Type) where
  key : RadixNetworkEntry N := nul
  depth : Int := 0
  children : RadixChildren N T := .nil
  deriving DecidableEq

/-- What `find_node` returns. -/
inductive RadixFound (N : Nat) (T : Type) where
  | leaf (value : RadixNetworkEntry N × T)
  | inner (node : RadixNode N T)

namespace RadixChildren
variable {N : Nat} {T : Type}

/-- `m_children[nul]` as a leaf: no key is less than the empty one. -/
def putLeaf (value : RadixNetworkEntry N × T) : RadixChildren N T → RadixChildren N T
  | nil => leaf value nil
  | leaf _ rest => leaf value rest
  | inner key depth children rest =>
    if key = nul then leaf value rest else leaf value (inner key depth children rest)

/-- `m_children[key]` as an inner node. -/
def put (node : RadixNode N T) : RadixChildren N T → RadixChildren N T
  | nil => inner node.key node.depth node.children nil
  | leaf value rest =>
    if node.key = nul then inner node.key node.depth node.children rest
    else leaf value (rest.put node)
  | inner key depth children rest =>
    if node.key.less key then
      inner node.key node.depth node.children (inner key depth children rest)
    else if key.less node.key then inner key depth children (rest.put node)
    else inner node.key node.depth node.children rest

/-- `m_children.erase(key)`. -/
def remove (erased : RadixNetworkEntry N) : RadixChildren N T → RadixChildren N T
  | nil => nil
  | leaf value rest => if erased = nul then rest else leaf value (rest.remove erased)
  | inner key depth children rest =>
    if key = erased then rest else inner key depth children (rest.remove erased)

/-- `m_children.find(nul)`, if that is a leaf. -/
def nulLeaf : RadixChildren N T → Option (RadixNetworkEntry N × T)
  | nil => none
  | leaf value _ => some value
  | inner _ _ _ rest => rest.nulLeaf

/-- `m_children.size()`. -/
def size : RadixChildren N T → Nat
  | nil => 0
  | leaf _ rest => rest.size + 1
  | inner _ _ _ rest => rest.size + 1

/-- The loop of `find_node` over the children of a node: the node that is found
and its ancestors, the parent first. -/
def findIn (key : RadixNetworkEntry N) : RadixChildren N T → Int → RadixNode N T →
    List (RadixNode N T) → RadixFound N T × List (RadixNode N T)
  | nil, _, self, parents => (.inner self, parents)
  | leaf value rest, depth, self, parents =>
    if radixLength key - depth = 0 then (.leaf value, self :: parents)
    else rest.findIn key depth self parents
  | inner k d children rest, depth, self, parents =>
    if radixLength key - depth ≠ 0 ∧ key.bit depth = k.bit 0 then
      if radixSubstr key depth (radixLength k) = k then
        children.findIn key (depth + radixLength k) ⟨k, d, children⟩ (self :: parents)
      else (.inner ⟨k, d, children⟩, self :: parents)
    else rest.findIn key depth self parents

end RadixChildren

/-! ## The tree -/

namespace RadixNode
variable {N : Nat} {T : Type}

/-- `find_node(key, m_root, 0)`. -/
def findNode (root : RadixNode N T) (key : RadixNetworkEntry N) :
    RadixFound N T × List (RadixNode N T) :=
  root.children.findIn key 0 root []

/-- The root once a node, which keeps its key, has changed. -/
def rebuild (node : RadixNode N T) : List (RadixNode N T) → RadixNode N T
  | [] => node
  | parent :: up => rebuild { parent with children := parent.children.put node } up

/-- `append`: the parent afterwards. -/
def append (parent : RadixNode N T) (val : RadixNetworkEntry N × T) : RadixNode N T :=
  let depth := parent.depth + radixLength parent.key
  let len := radixLength val.1 - depth
  if len = 0 then { parent with children := parent.children.putLeaf val }
  else
    let child := ⟨radixSubstr val.1 depth len, depth, .leaf val .nil⟩
    { parent with children := parent.children.put child }

/-- The loop of `prepend`: how many bits of a key and of an entry from a depth
on agree. -/
def agree (key entry : RadixNetworkEntry N) (depth : Int) : Nat → Nat → Nat
  | 0, count => count
  | left + 1, count =>
    if key.bit count = entry.bit (count + depth) then agree key entry depth left (count + 1)
    else count

/-- `prepend`: the parent of the node afterwards. -/
def prepend (node parent : RadixNode N T) (val : RadixNetworkEntry N × T) :
    Except String (RadixNode N T) :=
  let len1 := radixLength node.key
  let len2 := radixLength val.1 - node.depth
  let count := agree node.key val.1 node.depth (min len1 len2).toNat 0
  if count = 0 then .error "overlapping network detected"
  else
    let below : RadixNode N T :=
      ⟨radixSubstr node.key count (len1 - count), node.depth + count, node.children⟩
    let children := RadixChildren.nil.put below
    let children :=
      if (count : Int) = len2 then children.putLeaf val
      else children.put
        ⟨radixSubstr val.1 below.depth (len2 - count), below.depth, .leaf val .nil⟩
    .ok { parent with
      children := (parent.children.remove node.key).put
        ⟨radixSubstr node.key 0 count, node.depth, children⟩ }

end RadixNode

/-- `radix_tree`, with `m_root`. -/
structure RadixTree (N : Nat) (T : Type) where
  root : Option (RadixNode N T) := none
  deriving DecidableEq

namespace RadixTree
variable {N : Nat} {T : Type}

/-- `insert` once `find_node` has found an inner node: the root afterwards. -/
def insertAt (val : RadixNetworkEntry N × T) (node : RadixNode N T) :
    List (RadixNode N T) → Except String (RadixNode N T)
  | [] => .ok (node.append val)
  | parent :: up =>
    if radixSubstr val.1 node.depth (radixLength node.key) = node.key then
      .ok ((node.append val).rebuild (parent :: up))
    else (node.prepend parent val).map (RadixNode.rebuild · up)

/-- `operator[]` and the assignment to what it returns, once `find_node` has
ended: `find`, and `insert` if there is no leaf. -/
def assignAt (root : RadixNode N T) (key : RadixNetworkEntry N) (value : T) :
    RadixFound N T × List (RadixNode N T) → Except String (RadixNode N T)
  | (.leaf (found, _), parent :: up) =>
    .ok (RadixNode.rebuild
      { parent with children := parent.children.putLeaf (found, value) } up)
  | (.leaf _, []) => .ok root
  | (.inner node, parents) => insertAt (key, value) node parents

/-- `operator[]` and the assignment to what it returns. -/
def assign (tree : RadixTree N T) (key : RadixNetworkEntry N) (value : T) :
    Except String (RadixTree N T) :=
  let root := tree.root.getD {}
  (assignAt root key value (root.findNode key)).map fun root => ⟨some root⟩

/-- `find`. -/
def find (tree : RadixTree N T) (key : RadixNetworkEntry N) : Option (RadixNetworkEntry N × T) :=
  tree.root.bind fun root =>
    match root.findNode key with
    | (.leaf value, _) => some value
    | (.inner _, _) => none

/-- The nodes whose keys a search has passed, the last one first. -/
def passed (key : RadixNetworkEntry N) :
    RadixFound N T × List (RadixNode N T) → List (RadixNode N T)
  | (.leaf _, parents) => parents
  | (.inner node, parents) =>
    if radixSubstr key node.depth (radixLength node.key) = node.key then node :: parents
    else parents

/-- `longest_match`. -/
def longestMatch (tree : RadixTree N T) (key : RadixNetworkEntry N) :
    Option (RadixNetworkEntry N × T) :=
  tree.root.bind fun root =>
    match root.findNode key with
    | (.leaf value, _) => some value
    | (.inner node, parents) =>
      (passed key (.inner node, parents)).findSome? fun node => node.children.nulLeaf

/-- The end of `erase`: a node with one inner node left is joined with it. -/
def merge (grandparent : RadixNode N T) : List (RadixNode N T) → RadixNode N T
  | [] => grandparent
  | above :: up =>
    match grandparent.children with
    | .inner key _ children .nil =>
      let uncle : RadixNode N T := ⟨radixJoin grandparent.key key, grandparent.depth, children⟩
      RadixNode.rebuild
        { above with children := (above.children.remove grandparent.key).put uncle } up
    | _ => grandparent.rebuild (above :: up)

/-- `erase` once the leaf is found, with the leaf's ancestors. -/
def eraseLeaf (parent : RadixNode N T) (up : List (RadixNode N T)) : RadixNode N T :=
  let parent := { parent with children := parent.children.remove nul }
  match up with
  | [] => parent
  | grandparent :: above =>
    if 1 < parent.children.size then parent.rebuild (grandparent :: above)
    else if parent.children.size = 0 then
      merge { grandparent with children := grandparent.children.remove parent.key } above
    else merge parent (grandparent :: above)

/-- `erase`, and whether there was such a key. -/
def erase (tree : RadixTree N T) (key : RadixNetworkEntry N) : RadixTree N T × Bool :=
  match tree.root.map (RadixNode.findNode · key) with
  | some (.leaf _, parent :: up) => (⟨some (eraseLeaf parent up)⟩, true)
  | _ => (tree, false)

end RadixTree

end NetifyAgent
