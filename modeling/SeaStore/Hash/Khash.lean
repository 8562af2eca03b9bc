import SeaStore.Hash.Flags
import SeaStore.Hash.Probe

/-!
The hash table of `khash.h`, for any type of keys with a hash function. Buckets
are looked through by triangular steps; a deleted bucket is passed over by a
lookup and used again by a put; a table that is too full is rehashed in place,
every key kicking out the one that it finds in its new bucket. What is outside
an array can neither be read nor written, and a loop that goes on for too long
has no result.
-/
namespace SeaStore.Hash

structure KHash (K V : Type) where
  nBuckets : UInt32
  size : UInt32
  nOccupied : UInt32
  upperBound : UInt32
  flags : List UInt32
  keys : List K
  vals : List V

/-- The outcomes of the five allocations of a resize, and what the memory held
that it gets. The last two are those for fewer buckets. -/
structure Alloc (K V : Type) where
  flags : Bool
  keys : Bool
  vals : Bool
  cutKeys : Bool
  cutVals : Bool
  key : ℕ → K
  val : ℕ → V

/-- One step of `kroundup32`. -/
def smear (s x : UInt32) : UInt32 := x ||| x >>> s

/-- The next power of two, or zero where that is not a number of 32 bits. -/
def kroundup32 (x : UInt32) : UInt32 :=
  smear 16 (smear 8 (smear 4 (smear 2 (smear 1 (x - 1))))) + 1

/-- `(khint_t)(n * __ac_HASH_UPPER + 0.5)`. For a power of two the product is
exact, and the sum is never so near a whole number that rounding matters. -/
def upperBoundOf (n : UInt32) : UInt32 := UInt32.ofNat ((77 * n.toNat + 50) / 100)

/-- `krealloc`: what fits of the old elements is kept. -/
def krealloc {α : Type} (xs : List α) (n : ℕ) (fresh : ℕ → α) : List α :=
  (List.range n).map fun i => xs.getD i (fresh i)

variable {K V : Type} [DecidableEq K]

/-- `kh_init`: everything is zero, and there is no array. -/
def khInit : KHash K V := ⟨0, 0, 0, 0, [], [], []⟩

def khEnd (h : KHash K V) : UInt32 := h.nBuckets

/-- `kh_value`, read. -/
def khValue (h : KHash K V) (x : UInt32) : Option V := h.vals[x.toNat]?

/-- `kh_value`, written. -/
def khSetValue (h : KHash K V) (x : UInt32) (v : V) : Option (KHash K V) :=
  (h.vals[x.toNat]?).map fun _ => { h with vals := h.vals.set x.toNat v }

/-- `kh_clear`: without flags there is nothing to clear. -/
def khClear (h : KHash K V) : KHash K V :=
  if h.flags = [] then h
  else { h with flags := emptyFlags h.nBuckets, size := 0, nOccupied := 0 }

/-- The condition on which the loops over the buckets go on. -/
def probing (h : KHash K V) (key : K) (i : UInt32) : Option Bool := do
  if ← acIsempty h.flags i then return false
  if ← acIsdel h.flags i then return true
  return (← h.keys[i.toNat]?) ≠ key

/-- The loop of a lookup; `last` is the bucket that it has started at. -/
def getLoop (h : KHash K V) (key : K) (mask last : UInt32) (i step : UInt32) :
    ℕ → Option UInt32
  | 0 => none
  | fuel + 1 => do
    if ← probing h key i then
      let i := (i + (step + 1)) &&& mask
      if i = last then return h.nBuckets
      getLoop h key mask last i (step + 1) fuel
    else
      return if ← acIseither h.flags i then h.nBuckets else i

variable (hash : K → UInt32)

def khGet (h : KHash K V) (key : K) : Option UInt32 :=
  if h.nBuckets ≠ 0 then
    let mask := h.nBuckets - 1
    let i := hash key &&& mask
    getLoop h key mask i i 0 (2 * h.nBuckets.toNat)
  else some 0

/-- The loop of a put: the bucket `x` if it is decided, the one where the loop
has ended, and the last deleted one that it has passed. -/
def putLoop (h : KHash K V) (key : K) (mask last : UInt32) (i step site : UInt32) :
    ℕ → Option (UInt32 × UInt32 × UInt32)
  | 0 => none
  | fuel + 1 => do
    if ← probing h key i then
      let site := if ← acIsdel h.flags i then i else site
      let i := (i + (step + 1)) &&& mask
      if i = last then return (site, i, site)
      putLoop h key mask last i (step + 1) site fuel
    else
      return (h.nBuckets, i, site)

/-- The bucket of a put. -/
def putBucket (h : KHash K V) (key : K) : Option UInt32 := do
  let mask := h.nBuckets - 1
  let i := hash key &&& mask
  if ← acIsempty h.flags i then return i
  let (x, i, site) ← putLoop h key mask i i 0 h.nBuckets (2 * h.nBuckets.toNat)
  if x = h.nBuckets then
    if (← acIsempty h.flags i) ∧ site ≠ h.nBuckets then return site
    return i
  return x

/-- The end of a put: the bucket, and what is stored in `ret`. -/
def storeKey (h : KHash K V) (key : K) (x : UInt32) : Option (UInt32 × Int32 × KHash K V) := do
  if ← acIsempty h.flags x then
    let _ ← h.keys[x.toNat]?
    let flags ← acSetIsbothFalse h.flags x
    return (x, 1, { h with
      keys := h.keys.set x.toNat key, flags := flags, size := h.size + 1,
      nOccupied := h.nOccupied + 1 })
  if ← acIsdel h.flags x then
    let _ ← h.keys[x.toNat]?
    let flags ← acSetIsbothFalse h.flags x
    return (x, 2, { h with
      keys := h.keys.set x.toNat key, flags := flags, size := h.size + 1 })
  return (x, 0, h)

/-- The flags of the old and the new buckets, and the arrays that they share. -/
structure Rehash (K V : Type) where
  flags : List UInt32
  newFlags : List UInt32
  keys : List K
  vals : List V

/-- The first bucket that is still empty, on the way of a key. -/
def freeBucket (newFlags : List UInt32) (newMask : UInt32) (i step : UInt32) : ℕ → Option UInt32
  | 0 => none
  | fuel + 1 => do
    if ← acIsempty newFlags i then return i
    freeBucket newFlags newMask ((i + (step + 1)) &&& newMask) (step + 1) fuel

/-- Where a key goes, the key that was there goes on to its own new bucket. -/
def kickOut (nBuckets newMask : UInt32) (s : Rehash K V) (key : K) (val : V) :
    ℕ → Option (Rehash K V)
  | 0 => none
  | fuel + 1 => do
    let i ← freeBucket s.newFlags newMask (hash key &&& newMask) 0 (newMask.toNat + 1)
    let newFlags ← acSetIsemptyFalse s.newFlags i
    let occupied ← if i < nBuckets then (acIseither s.flags i).map (!·) else some false
    let oldKey ← s.keys[i.toNat]?
    let oldVal ← s.vals[i.toNat]?
    let keys := s.keys.set i.toNat key
    let vals := s.vals.set i.toNat val
    if occupied then
      let flags ← acSetIsdelTrue s.flags i
      kickOut nBuckets newMask ⟨flags, newFlags, keys, vals⟩ oldKey oldVal fuel
    else
      return ⟨s.flags, newFlags, keys, vals⟩

/-- The loop over the old buckets. -/
def rehashLoop (nBuckets newMask : UInt32) (s : Rehash K V) (j : UInt32) :
    ℕ → Option (Rehash K V)
  | 0 => none
  | fuel + 1 =>
    if j = nBuckets then some s
    else do
      if ← acIseither s.flags j then
        rehashLoop nBuckets newMask s (j + 1) fuel
      else
        let key ← s.keys[j.toNat]?
        let val ← s.vals[j.toNat]?
        let flags ← acSetIsdelTrue s.flags j
        let s ← kickOut hash nBuckets newMask { s with flags := flags } key val
          (nBuckets.toNat + 1)
        rehashLoop nBuckets newMask s (j + 1) fuel

/-- The arrays of keys and values for more buckets, as far as memory goes. -/
def expandArrays (alloc : Alloc K V) (h : KHash K V) (n : UInt32) : Bool × KHash K V :=
  if alloc.keys then
    let h := { h with keys := krealloc h.keys n.toNat alloc.key }
    if alloc.vals then (true, { h with vals := krealloc h.vals n.toNat alloc.val }) else (false, h)
  else (false, h)

/-- An array for fewer buckets. Where there is no memory for it, the null pointer
is stored all the same. -/
def cutArray {α : Type} (enough : Bool) (xs : List α) (n : UInt32) : List α :=
  if enough then xs.take n.toNat else []

/-- The table with the new flags. -/
def finishResize (alloc : Alloc K V) (h : KHash K V) (n : UInt32) (s : Rehash K V) :
    KHash K V where
  nBuckets := n
  size := h.size
  nOccupied := h.size
  upperBound := upperBoundOf n
  flags := s.newFlags
  keys := if n < h.nBuckets then cutArray alloc.cutKeys s.keys n else s.keys
  vals := if n < h.nBuckets then cutArray alloc.cutVals s.vals n else s.vals

/-- The number of buckets that a resize is for. -/
def resizeTo (newNBuckets : UInt32) : UInt32 :=
  if kroundup32 newNBuckets < 4 then 4 else kroundup32 newNBuckets

def khResize (alloc : Alloc K V) (h : KHash K V) (newNBuckets : UInt32) :
    Option (Int32 × KHash K V) :=
  let n := resizeTo newNBuckets
  if upperBoundOf n ≤ h.size then some (0, h)
  else if alloc.flags = false then some (-1, h)
  else
    match if h.nBuckets < n then expandArrays alloc h n else (true, h) with
    | (false, h) => some (-1, h)
    | (true, h) =>
      (rehashLoop hash h.nBuckets (n - 1) ⟨h.flags, emptyFlags n, h.keys, h.vals⟩ 0
        (h.nBuckets.toNat + 1)).map fun s => (0, finishResize alloc h n s)

/-- The resize that a put begins with when too many buckets are in use. -/
def makeRoom (alloc : Alloc K V) (h : KHash K V) : Option (Int32 × KHash K V) :=
  if h.upperBound ≤ h.nOccupied then
    if h.size <<< 1 < h.nBuckets then khResize hash alloc h (h.nBuckets - 1)
    else khResize hash alloc h (h.nBuckets + 1)
  else some (0, h)

def khPut (alloc : Alloc K V) (h : KHash K V) (key : K) :
    Option (UInt32 × Int32 × KHash K V) := do
  let (rc, h) ← makeRoom hash alloc h
  if rc < 0 then return (h.nBuckets, -1, h)
  let x ← putBucket hash h key
  storeKey h key x

omit [DecidableEq K] in
def khDel (h : KHash K V) (x : UInt32) : Option (KHash K V) := do
  if x = h.nBuckets then return h
  if ← acIseither h.flags x then return h
  let flags ← acSetIsdelTrue h.flags x
  return { h with flags := flags, size := h.size - 1 }

def khInt64HashFunc (key : UInt64) : UInt32 := (key >>> 33 ^^^ key ^^^ key <<< 11).toUInt32

end SeaStore.Hash
