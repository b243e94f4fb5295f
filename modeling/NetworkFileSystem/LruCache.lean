import NetworkFileSystem.Trie
import NetworkFileSystem.Library.Machine

/-!
# The lookup cache of the naming server

`lru_cache.c`, with its nodes in an explicit heap. A node that was freed is no longer in the heap,
and an address is never handed out twice, so that a pointer to a freed node stays recognizable.
Every operation is undefined (`none`) when it follows a pointer to a freed node.
-/

namespace NetworkFileSystem

abbrev lruCacheSize : ℕ := 100

abbrev Ptr := ℕ

structure LruCacheNode where
  path : Path
  ssInfo : StorageServerInfo
  prev : Option Ptr
  next : Option Ptr

structure LruCache where
  heap : Ptr → Option LruCacheNode
  /-- The address that the next successful `malloc` returns. -/
  fresh : Ptr
  head : Option Ptr
  tail : Option Ptr
  map : Fin lruCacheSize → Option Ptr
  count : ℤ

/-- A `char` is signed: a byte above 127 is added as a negative number. -/
def hashPath (path : Path) : Fin lruCacheSize :=
  Fin.ofNat _ (path.foldl (fun hash c => hash * 31 + c.toInt8.toInt32.toUInt32) (0 : UInt32)).toNat

namespace LruCache

def lruInit : LruCache where
  heap := fun _ => none
  fresh := 0
  head := none
  tail := none
  map := fun _ => none
  count := 0

/-- Write to the node at `p`. -/
def modify (cache : LruCache) (f : LruCacheNode → LruCacheNode) (p : Ptr) : Option LruCache :=
  (cache.heap p).map fun node =>
    { cache with heap := Function.update cache.heap p (some (f node)) }

def setPrev (cache : LruCache) (prev : Option Ptr) (p : Ptr) : Option LruCache :=
  cache.modify (fun node => { node with prev := prev }) p

def setNext (cache : LruCache) (next : Option Ptr) (p : Ptr) : Option LruCache :=
  cache.modify (fun node => { node with next := next }) p

def setInfo (cache : LruCache) (ssInfo : StorageServerInfo) (p : Ptr) : Option LruCache :=
  cache.modify (fun node => { node with ssInfo := ssInfo }) p

/-- `if (p) { ... }` around a write through `p`. -/
def whenLinked (cache : LruCache) (write : LruCache → Ptr → Option LruCache) :
    Option Ptr → Option LruCache
  | none => some cache
  | some p => write cache p

def free (cache : LruCache) (p : Ptr) : LruCache :=
  { cache with heap := Function.update cache.heap p none }

/-- Let the neighbours of a node refer to each other. -/
def unlinkNode (cache : LruCache) (p : Ptr) : Option LruCache := do
  let node ← cache.heap p
  let cache ← cache.whenLinked (·.setNext node.next) node.prev
  let node ← cache.heap p
  cache.whenLinked (·.setPrev node.prev) node.next

/-- Link a node in front of the list. -/
def linkFront (cache : LruCache) (p : Ptr) : Option LruCache := do
  let cache ← cache.setPrev none p
  let cache ← cache.setNext cache.head p
  let cache ← cache.whenLinked (·.setPrev (some p)) cache.head
  some { cache with head := some p, tail := cache.tail.or (some p) }

/-- Make the node before a last node the tail. -/
def cutTail (cache : LruCache) (p : Ptr) : Option LruCache :=
  if cache.tail = some p then do
    let node ← cache.heap p
    { cache with tail := node.prev }.whenLinked (·.setNext none) node.prev
  else some cache

def moveToFront (cache : LruCache) (p : Ptr) : Option LruCache :=
  if cache.head = some p then some cache
  else do
    let cache ← cache.cutTail p
    let cache ← cache.unlinkNode p
    cache.linkFront p

/-- The scan from a slot along the `next` pointers: the node visited before, and the first node
that stores the path. A walk visits each allocated node at most once, which bounds the loop. -/
def scanFrom (cache : LruCache) (path : Path) :
    ℕ → Option Ptr → Option Ptr → Option (Option Ptr × Option Ptr)
  | _, prevNode, none => some (prevNode, none)
  | 0, _, some _ => none
  | fuel + 1, prevNode, some p => do
    let node ← cache.heap p
    if node.path = path then some (prevNode, some p)
    else scanFrom cache path fuel (some p) node.next

def scan (cache : LruCache) (path : Path) : Option (Option Ptr × Option Ptr) :=
  cache.scanFrom path (cache.fresh + 1) none (cache.map (hashPath path))

def lruGet (cache : LruCache) (path : Path) : Option (LruCache × Option StorageServerInfo) := do
  match ← cache.scan path with
  | (_, none) => some (cache, none)
  | (_, some p) => do
    let cache ← cache.moveToFront p
    let node ← cache.heap p
    some (cache, some node.ssInfo)

/-- Let the slot refer to no node if it refers to this one. -/
def clearSlot (cache : LruCache) (index : Fin lruCacheSize) (p : Ptr) : LruCache :=
  { cache with
    map := if cache.map index = some p then Function.update cache.map index none else cache.map }

/-- Drop the least recently used node. -/
def evict (cache : LruCache) : Option LruCache :=
  match cache.tail with
  | none => some cache
  | some temp => do
    let node ← cache.heap temp
    let cache := cache.clearSlot (hashPath node.path) temp
    let cache ← { cache with tail := node.prev }.whenLinked (·.setNext none) node.prev
    some { cache.free temp with count := cache.count - 1 }

/-- Evict if the cache is full. -/
def makeRoom (cache : LruCache) : Option LruCache :=
  if cache.count = lruCacheSize then cache.evict else some cache

/-- Link a newly allocated node in front and let its slot refer to it. -/
def insertNode (cache : LruCache) (path : Path) (ssInfo : StorageServerInfo) :
    Option LruCache := do
  let node := cache.fresh
  let cache ← { cache with
    heap := Function.update cache.heap node (some ⟨path, ssInfo, none, none⟩)
    fresh := node + 1 }.linkFront node
  some { cache with
    count := cache.count + 1
    map := Function.update cache.map (hashPath path) (some node) }

/-- `malloc` tells whether the allocation of a new node succeeds. -/
def lruPut (cache : LruCache) (path : Path) (ssInfo : StorageServerInfo) (malloc : Bool) :
    Option LruCache := do
  match ← cache.scan path with
  | (_, some p) => do
    let cache ← cache.setInfo ssInfo p
    cache.moveToFront p
  | (_, none) => do
    let cache ← cache.makeRoom
    if malloc then cache.insertNode path ssInfo else some cache

/-- Take a node off the search that starts at a slot. -/
def unlinkFromSlot (cache : LruCache) (index : Fin lruCacheSize) (next : Option Ptr) :
    Option Ptr → Option LruCache
  | some prevNode => cache.setNext next prevNode
  | none => some { cache with map := Function.update cache.map index next }

def lruRemove (cache : LruCache) (path : Path) : Option LruCache := do
  match ← cache.scan path with
  | (_, none) => some cache
  | (prevNode, some p) => do
    let node ← cache.heap p
    let cache ← cache.unlinkFromSlot (hashPath path) node.next prevNode
    let cache ← cache.unlinkNode p
    let node ← cache.heap p
    some { cache.free p with
      head := if cache.head = some p then node.next else cache.head
      tail := if cache.tail = some p then node.prev else cache.tail
      count := cache.count - 1 }

end LruCache

/-- A call of one of the cache operations. -/
inductive LruOp
  | put (path : Path) (ssInfo : StorageServerInfo) (malloc : Bool)
  | get (path : Path)
  | remove (path : Path)

namespace LruOp

def path : LruOp → Path
  | put path _ _ => path
  | get path => path
  | remove path => path

end LruOp

namespace LruCache

def apply (cache : LruCache) : LruOp → Option LruCache
  | .put path ssInfo malloc => cache.lruPut path ssInfo malloc
  | .get path => (cache.lruGet path).map Prod.fst
  | .remove path => cache.lruRemove path

end LruCache
end NetworkFileSystem
