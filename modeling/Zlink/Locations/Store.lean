import Zlink.Lib.Cursors
import Zlink.Lib.Decimal
import Zlink.Lib.Ordered

/-!
# The location store in memory

A location store keeps values under keys. A write is applied when all its conditions hold, and
gives every value that it puts a new version. A scan takes a snapshot of the entries with a prefix
and hands it out in pages: a cursor names the epoch of the store, the snapshot and the offset of
the next page. A snapshot goes with its last page, or when there are too many of them.

Texts and keys are lists of bytes, in the order of `std::string`. Times are nanoseconds of the
system clock, which every call reads anew, so it may also go back. The numbers of snapshots and
versions are counted without a bound; the code counts them in 64 bits.
-/

namespace Zlink.Locations

open Decimal Cursors
open scoped Decimal

abbrev Text := List UInt8

structure StoreValue where
  bytes : List UInt8
  version : Text
  expiresAt : Option ℤ
  storeNow : ℤ

inductive StoreCondition where
  | missing (key : Text)
  | version (key expected : Text)
  | value (key : Text) (expected : List UInt8)

/-- `store_mutation_t`, with the retention in milliseconds. -/
inductive StoreMutation where
  | put (key : Text) (bytes : List UInt8) (retention : Option ℤ)
  | delete (key : Text)

structure StoreWriteRequest where
  conditions : List StoreCondition
  mutations : List StoreMutation

structure StoreScanRequest where
  keyPrefix : Text
  cursor : Option Text
  limit : ℕ

structure StoreScanItem where
  key : Text
  value : StoreValue

inductive StoreReadResult where
  | missing (storeNow : ℤ)
  | found (value : StoreValue)

inductive StoreWriteResult where
  | applied (putVersions : List (Text × Text)) (storeNow : ℤ)
  | conflict (storeNow : ℤ)

inductive StoreScanResult where
  | page (items : List StoreScanItem) (nextCursor : Option Text) (storeNow : ℤ)
  | expired

def StoreCondition.key : StoreCondition → Text
  | .missing key => key
  | .version key _ => key
  | .value key _ => key

def StoreMutation.key : StoreMutation → Text
  | .put key _ _ => key
  | .delete key => key

namespace LocationStoreLimits

def keyBytes : ℕ := 1024
def writeKeys : ℕ := 2048
def valueBytes : ℕ := 1024 * 1024
def writeBytes : ℕ := 4 * 1024 * 1024

end LocationStoreLimits

def locationPageItemLimit : ℕ := 1000

def maxScanSnapshots : ℕ := 128

/-- `descriptorPageBytes` of the protocol. -/
def maxScanPageBytes : ℕ := 4194304

def authorityStoreVersionBytes : ℕ := 4096

def validateKey (key : Text) : Except String Unit :=
  if key = [] ∨ LocationStoreLimits.keyBytes < key.length
  then throw "location store key must contain 1..1024 bytes" else pure ()

def validatePrefix (keyPrefix : Text) : Except String Unit :=
  if LocationStoreLimits.keyBytes < keyPrefix.length
  then throw "location scan prefix must contain at most 1024 bytes" else pure ()

/-- What `validate_write` has gathered on its way. -/
structure WriteExtent where
  conditions : List Text
  mutations : List Text
  encodedSize : ℕ

def WriteExtent.keys (extent : WriteExtent) : ℕ :=
  (extent.conditions ++ extent.mutations).dedup.length

def validateCondition (extent : WriteExtent) (condition : StoreCondition) :
    Except String WriteExtent := do
  validateKey condition.key
  if condition.key ∈ extent.conditions then throw "location write repeats a condition key"
  let size ← match condition with
    | .missing _ => pure 0
    | .version _ expected =>
      if expected = [] ∨ authorityStoreVersionBytes < expected.length
      then throw "location version condition requires 1..4096 bytes" else pure expected.length
    | .value _ expected =>
      if LocationStoreLimits.valueBytes < expected.length
      then throw "location value condition exceeds 1 MiB" else pure expected.length
  return ⟨condition.key :: extent.conditions, extent.mutations,
    extent.encodedSize + condition.key.length + size⟩

def validateMutation (extent : WriteExtent) (mutation : StoreMutation) :
    Except String WriteExtent := do
  validateKey mutation.key
  if mutation.key ∈ extent.mutations then throw "location write repeats a mutation key"
  let size ← match mutation with
    | .delete _ => pure 0
    | .put _ bytes retention =>
      if LocationStoreLimits.valueBytes < bytes.length then
        throw "location value exceeds 1 MiB"
      else if retention.any fun r => r ≤ 0 then
        throw "location retention must be positive"
      else pure bytes.length
  return ⟨extent.conditions, mutation.key :: extent.mutations,
    extent.encodedSize + mutation.key.length + size⟩

def validateWrite (request : StoreWriteRequest) : Except String Unit := do
  let extent ← request.conditions.foldlM validateCondition ⟨[], [], 0⟩
  let extent ← request.mutations.foldlM validateMutation extent
  if LocationStoreLimits.writeKeys < extent.keys then
    throw "location write exceeds 2048 unique keys"
  if LocationStoreLimits.writeBytes < extent.encodedSize then
    throw "location write exceeds 4 MiB"

structure InMemoryLocationStore where
  values : OrderedMap Text StoreValue
  snapshots : OrderedMap ℕ (List StoreScanItem)
  scanEpoch : UInt64
  nextVersion : ℕ
  nextSnapshot : ℕ

def expired (value : StoreValue) (now : ℤ) : Bool :=
  value.expiresAt.any fun at_ => at_ ≤ now

def encodedScanItemSize (item : StoreScanItem) : ℕ :=
  item.key.length + item.value.version.length + item.value.bytes.length

namespace InMemoryLocationStore

def new (scanEpoch : UInt64) : InMemoryLocationStore :=
  ⟨.empty, .empty, scanEpoch, 0, 0⟩

variable (s : InMemoryLocationStore)

def expire (key : Text) (now : ℤ) : InMemoryLocationStore :=
  if (s.values.find key).any fun value => expired value now
  then { s with values := s.values.erase key } else s

def read (s : InMemoryLocationStore) (now : ℤ) (key : Text) :
    Except String (InMemoryLocationStore × StoreReadResult) := do
  validateKey key
  let s := s.expire key now
  match s.values.find key with
  | none => return (s, .missing now)
  | some value =>
    let value := { value with storeNow := now }
    return ({ s with values := s.values.insertOrAssign key value }, .found value)

def holds : StoreCondition → Bool
  | .missing key => (s.values.find key).isNone
  | .version key expected => (s.values.find key).any fun value => value.version = expected
  | .value key expected => (s.values.find key).any fun value => value.bytes = expected

def mutate (now : ℤ) : StoreMutation → InMemoryLocationStore × List (Text × Text)
  | .put key bytes retention =>
    let version := decimal (s.nextVersion + 1)
    let expiresAt := retention.map fun r => now + r * 1000000
    ({ s with
        values := s.values.insertOrAssign key ⟨bytes, version, expiresAt, now⟩
        nextVersion := s.nextVersion + 1 }, [(key, version)])
  | .delete key => ({ s with values := s.values.erase key }, [])

def mutateAll (s : InMemoryLocationStore) (now : ℤ) :
    List StoreMutation → InMemoryLocationStore × List (Text × Text)
  | [] => (s, [])
  | mutation :: mutations =>
    let (s, version) := s.mutate now mutation
    let (s, versions) := s.mutateAll now mutations
    (s, version ++ versions)

def write (now : ℤ) (request : StoreWriteRequest) :
    Except String (InMemoryLocationStore × StoreWriteResult) := do
  validateWrite request
  let s := request.conditions.foldl (fun s condition => s.expire condition.key now) s
  if request.conditions.all s.holds then
    let (s, versions) := s.mutateAll now request.mutations
    return (s, .applied versions now)
  else return (s, .conflict now)

end InMemoryLocationStore

def scanCursor (epoch : UInt64) (id offset : ℕ) : Text :=
  decimal epoch.toNat ++ 0x3A :: (decimal id ++ 0x3A :: decimal offset)

def parseScanCursor (epoch : UInt64) (cursor : Text) : Option (ℕ × ℕ) := do
  let (first, rest) ← cutAt 0x3A cursor
  let (second, third) ← cutAt 0x3A rest
  let found ← stoull first
  guard (found = epoch.toNat)
  let id ← stoull second
  let offset ← stoull third
  return (id, offset)

namespace InMemoryLocationStore

variable (s : InMemoryLocationStore)

/-- Make room for one more snapshot: the oldest one goes. -/
def evict : InMemoryLocationStore :=
  if maxScanSnapshots ≤ s.snapshots.entries.length
  then { s with snapshots := ⟨s.snapshots.entries.tail, s.snapshots.sorted.tail⟩ } else s

def live (now : ℤ) (keyPrefix : Text) : List StoreScanItem :=
  (s.values.entries.filter fun e => !expired e.2 now && keyPrefix.isPrefixOf e.1).map
    fun e => ⟨e.1, e.2⟩

def takeSnapshot (now : ℤ) (keyPrefix : Text) :
    InMemoryLocationStore :=
  let s := s.evict
  { s with
    values := s.values.filter fun e => !expired e.2 now
    snapshots := s.snapshots.insertOrAssign (s.nextSnapshot + 1) (s.live now keyPrefix)
    nextSnapshot := s.nextSnapshot + 1 }

def pageAt (now : ℤ) (limit id offset : ℕ) : InMemoryLocationStore × StoreScanResult :=
  match s.snapshots.find id with
  | none => (s, .expired)
  | some items =>
    if items.length < offset then (s, .expired)
    else
      let stop := offset +
        pageEnd encodedScanItemSize limit maxScanPageBytes 0 0 (items.drop offset)
      let page := (items.take stop).drop offset
      if stop < items.length
      then (s, .page page (some (scanCursor s.scanEpoch id stop)) now)
      else ({ s with snapshots := s.snapshots.erase id }, .page page none now)

def resume (s : InMemoryLocationStore) (now : ℤ) (limit : ℕ) (cursor : Text) :
    InMemoryLocationStore × StoreScanResult :=
  match parseScanCursor s.scanEpoch cursor with
  | none => (s, .expired)
  | some (id, offset) => s.pageAt now limit id offset

def validateScan (request : StoreScanRequest) : Except String Unit := do
  validatePrefix request.keyPrefix
  if request.limit = 0 ∨ locationPageItemLimit < request.limit then
    throw "location scan limit must be 1..1000"

def scan (now : ℤ) (request : StoreScanRequest) :
    Except String (InMemoryLocationStore × StoreScanResult) := do
  validateScan request
  match request.cursor with
  | none =>
    let s := s.takeSnapshot now request.keyPrefix
    return s.pageAt now request.limit s.nextSnapshot 0
  | some cursor => return s.resume now request.limit cursor

end InMemoryLocationStore

inductive StoreCall where
  | read (now : ℤ) (key : Text)
  | write (now : ℤ) (request : StoreWriteRequest)
  | scan (now : ℤ) (request : StoreScanRequest)

namespace InMemoryLocationStore

def step (s : InMemoryLocationStore) : StoreCall → InMemoryLocationStore
  | .read now key => ((s.read now key).toOption.map Prod.fst).getD s
  | .write now request => ((s.write now request).toOption.map Prod.fst).getD s
  | .scan now request => ((s.scan now request).toOption.map Prod.fst).getD s

def run (s : InMemoryLocationStore) (calls : List StoreCall) : InMemoryLocationStore :=
  calls.foldl step s

end InMemoryLocationStore

end Zlink.Locations
