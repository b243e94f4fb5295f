import NetworkFileSystem.Common
import Mathlib.Data.List.FinRange
import Mathlib.Logic.Function.Basic

/-!
# The path trie

`trie.c` and the `StorageServerInfo` record of `trie.h`. A node is reached byte by byte along the
path; it stores a pointer to the server of the path that ends there. Deleting a path only clears
this pointer. The operations act on the trie as on a partial map from paths to servers.
-/

namespace NetworkFileSystem

structure StorageServerInfo where
  ip : CString
  nmPort : Int32
  clientPort : Int32
  accessiblePaths : List.Vector Path maxAccessiblePaths
  numAccessiblePaths : Fin (maxAccessiblePaths + 1)
  deriving DecidableEq

/-- A node with its array of optional children; `α` is the type of pointers to servers. -/
inductive TrieNode (α : Type)
  | node (ssInfo : Option α) (children : UInt8 → Option (TrieNode α))

/-- The state of a traversal: the shared path buffer and the paths stored so far. -/
structure PathCollection where
  currentPath : ℕ → UInt8
  paths : List Path

variable {α : Type}

def createTrieNode : TrieNode α := .node none fun _ => none

namespace TrieNode

def trieInsert (ssInfo : α) : Path → TrieNode α → TrieNode α
  | [], node _ children => node (some ssInfo) children
  | c :: path, node info children =>
    node info (Function.update children c
      (some (trieInsert ssInfo path ((children c).getD createTrieNode))))

def trieSearch : Path → TrieNode α → Option α
  | [], node info _ => info
  | c :: path, node _ children => (children c).bind fun child => trieSearch path child

def trieDelete : Path → TrieNode α → TrieNode α
  | [], node _ children => node none children
  | c :: path, node info children =>
    node info (Function.update children c ((children c).map fun child => trieDelete path child))

/-- Store the path that ends at this level: terminate the buffer and copy it up to its first
zero, unless the result is full. -/
def storePath (ssInfo : Option α) (level : ℕ) (acc : PathCollection) : PathCollection :=
  if ssInfo.isSome ∧ acc.paths.length < maxAccessiblePaths then
    let buffer := Function.update acc.currentPath level 0
    { currentPath := buffer
      paths := acc.paths ++ [((List.range level).map buffer).takeWhile (· ≠ 0)] }
  else acc

mutual

def trieCollectPathsRecursive : TrieNode α → ℕ → PathCollection → PathCollection
  | node info children, level, acc =>
    (List.finRange 256).foldl
      (fun acc i => collectChild (children (UInt8.ofFin i)) (UInt8.ofFin i) level acc)
      (storePath info level acc)

def collectChild : Option (TrieNode α) → UInt8 → ℕ → PathCollection → PathCollection
  | none, _, _, acc => acc
  | some child, i, level, acc =>
    trieCollectPathsRecursive child (level + 1)
      { acc with currentPath := Function.update acc.currentPath level i }

end

/-- The collected paths, for a path buffer that starts with the contents `buffer`. -/
def trieCollectPaths (root : TrieNode α) (buffer : ℕ → UInt8) : List Path :=
  (trieCollectPathsRecursive root 0 ⟨buffer, []⟩).paths

@[simp] theorem trieSearch_create (path : Path) :
    trieSearch path (createTrieNode : TrieNode α) = none := by
  cases path <;> rfl

theorem trieSearch_trieInsert (ssInfo : α) (p q : Path) (t : TrieNode α) :
    trieSearch q (trieInsert ssInfo p t) = if q = p then some ssInfo else trieSearch q t := by
  induction p generalizing q t with
  | nil =>
      cases t
      cases q <;> simp [trieInsert, trieSearch]
  | cons c p ih =>
      obtain ⟨info, children⟩ := t
      cases q with
      | nil => simp [trieInsert, trieSearch]
      | cons d q =>
          by_cases hdc : d = c
          · subst d
            simp only [trieInsert, trieSearch, Function.update_self, Option.bind_some, ih,
              List.cons.injEq, true_and]
            cases children c <;> simp
          · simp [trieInsert, trieSearch, hdc]

theorem trieSearch_trieDelete (p q : Path) (t : TrieNode α) :
    trieSearch q (trieDelete p t) = if q = p then none else trieSearch q t := by
  induction p generalizing q t with
  | nil =>
      cases t
      cases q <;> simp [trieDelete, trieSearch]
  | cons c p ih =>
      obtain ⟨info, children⟩ := t
      cases q with
      | nil => simp [trieDelete, trieSearch]
      | cons d q =>
          by_cases hdc : d = c
          · subst d
            simp only [trieDelete, trieSearch, Function.update_self, List.cons.injEq, true_and]
            cases children c with
            | none => simp
            | some child => simp [ih]
          · simp [trieDelete, trieSearch, hdc]

example : (trieInsert 1 [97] (trieInsert 0 [97, 98] createTrieNode)).trieCollectPaths
    (fun _ => 7) = [[97], [97, 98]] := by decide +kernel

end TrieNode
end NetworkFileSystem
