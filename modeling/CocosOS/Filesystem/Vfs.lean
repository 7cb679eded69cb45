import CocosOS.Library.CString
import CocosOS.Library.OwnedHeap

/-!
# The virtual file system

`filesystem/vfs.c` over a heap. A file is a `vfs_node_t` of 44 bytes that is linked into a list:
its name in the first 32 bytes, then `size`, `data` and `next`. The list begins at the file-scope
pointer `root`. Everything is read and stored through the heap, byte by byte, so the model has no
result where the heap refuses an access.

An integer that a function returns is given by its 32 bits. The name, the data and the buffer of a
call belong to the caller. They are sequences of bytes here, the name up to its zero; a buffer may
be `NULL`. The loop of `vfs_find` gets as many rounds as there are addresses. The other loops count
up to a bound, or run along a name, and so they get their rounds from there.
-/

set_option autoImplicit false

namespace CocosOS.Filesystem

open Library.ByteMemory Library.CString

/-! ## The functions -/

/-- `MAX_NAME` -/
def maxName : ℕ := 32

namespace VfsNode

/-- `sizeof(vfs_node_t)` on the 32-bit target. -/
def sizeof : Word := 44

/-! The offsets of the fields behind the name. -/

def size : Word := 32

def data : Word := 36

def next : Word := 40

end VfsNode

/-- The file-scope variable of `vfs.c`, and the heap. -/
structure Vfs (σ : Type) where
  root : Word
  heap : σ

section Functions

variable {σ : Type} (H : HeapCalls σ)

/-- `vfs_init` -/
def vfsInit (heap : σ) : Vfs σ := ⟨0, heap⟩

/-- The inner loop of `vfs_find`: the index at which it stops. -/
def matchLoop (name : Bytes) (node : Word) (s : σ) : ℕ → ℕ → Option ℕ
  | 0, _ => none
  | rounds + 1, i =>
    if name i = 0 then some i
    else do
      let char ← H.load8 (node + BitVec.ofNat 32 i) s
      if char ≠ 0 ∧ name i = char then matchLoop name node s rounds (i + 1) else some i

/-- The body of the outer loop of `vfs_find`: whether the node has the name. -/
def nameMatches (name : Terminated) (node : Word) (s : σ) : Option Bool := do
  let i ← matchLoop H name.bytes node s (name.length + 1) 0
  if name.bytes i = 0 then
    let char ← H.load8 (node + BitVec.ofNat 32 i) s
    return char = 0
  else return false

/-- The outer loop of `vfs_find`. -/
def findLoop (name : Terminated) (s : σ) : ℕ → Word → Option Word
  | 0, _ => none
  | rounds + 1, node =>
    if node ≠ 0 then do
      let found ← nameMatches H name node s
      if found then some node
      else do
        let next ← H.load32 (node + VfsNode.next) s
        findLoop name s rounds next
    else some 0

/-- `vfs_find`: the first node with the name, or `NULL`. -/
def vfsFind (name : Terminated) (v : Vfs σ) : Option Word :=
  findLoop H name v.heap (2 ^ 32) v.root

/-- The loop of `vfs_create`: the index at which it stops. -/
def nameLoop (name : Bytes) (node : Word) : ℕ → ℕ → σ → Option (ℕ × σ)
  | 0, i, s => some (i, s)
  | rounds + 1, i, s =>
    if name i ≠ 0 then do
      let s ← H.store8 (node + BitVec.ofNat 32 i) (name i) s
      nameLoop name node rounds (i + 1) s
    else some (i, s)

/-- `vfs_create` -/
def vfsCreate (name : Terminated) (v : Vfs σ) : Option (Word × Vfs σ) := do
  let (node, s) ← H.alloc VfsNode.sizeof v.heap
  if node = 0 then return (0, { v with heap := s })
  else
    let (i, s) ← nameLoop H name.bytes node (maxName - 1) 0 s
    let s ← H.store8 (node + BitVec.ofNat 32 i) 0 s
    let s ← H.store32 (node + VfsNode.size) 0 s
    let s ← H.store32 (node + VfsNode.data) 0 s
    let s ← H.store32 (node + VfsNode.next) v.root s
    return (1, ⟨node, s⟩)

/-- The release of the old data in `vfs_write`. -/
def releaseData (node : Word) (s : σ) : Option σ := do
  let data ← H.load32 (node + VfsNode.data) s
  if data ≠ 0 then
    let data ← H.load32 (node + VfsNode.data) s
    H.free data s
  else return s

/-- The loop of `vfs_write`. Every round reads `node->data`. -/
def writeLoop (node : Word) (data : Bytes) : ℕ → ℕ → σ → Option σ
  | 0, _, s => some s
  | rounds + 1, i, s => do
    let dst ← H.load32 (node + VfsNode.data) s
    let s ← H.store8 (dst + BitVec.ofNat 32 i) (data i) s
    writeLoop node data rounds (i + 1) s

/-- `vfs_write` behind the release: what it returns, and the heap. -/
def storeData (node : Word) (data : Bytes) (size : Word) (s : σ) : Option (Word × σ) := do
  let (block, s) ← H.alloc size s
  let s ← H.store32 (node + VfsNode.data) block s
  let dst ← H.load32 (node + VfsNode.data) s
  if dst = 0 then
    let s ← H.store32 (node + VfsNode.size) 0 s
    return (0, s)
  else
    let s ← writeLoop H node data size.toNat 0 s
    let s ← H.store32 (node + VfsNode.size) size s
    return (size, s)

/-- `vfs_write` -/
def vfsWrite (name : Terminated) (data : Bytes) (size : Word) (v : Vfs σ) :
    Option (Word × Vfs σ) := do
  let node ← vfsFind H name v
  if node = 0 then return (0, v)
  else
    let s ← releaseData H node v.heap
    let (answer, s) ← storeData H node data size s
    return (answer, { v with heap := s })

/-- The loop of `vfs_read`. -/
def readLoop (node : Word) (s : σ) : ℕ → ℕ → Bytes → Option Bytes
  | 0, _, buffer => some buffer
  | rounds + 1, i, buffer => do
    let src ← H.load32 (node + VfsNode.data) s
    let byte ← H.load8 (src + BitVec.ofNat 32 i) s
    readLoop node s rounds (i + 1) (Function.update buffer i byte)

/-- `vfs_read`: what it returns, and the buffer. -/
def vfsRead (name : Terminated) (buffer : Option Bytes) (size : Word) (v : Vfs σ) :
    Option (Word × Option Bytes) := do
  let node ← vfsFind H name v
  if node = 0 then return (0, buffer)
  else
    match buffer with
    | none => return (0, none)
    | some bytes =>
      let data ← H.load32 (node + VfsNode.data) v.heap
      if data = 0 then return (0, some bytes)
      else
        let held ← H.load32 (node + VfsNode.size) v.heap
        let size := if held < size then held else size
        let bytes ← readLoop H node v.heap size.toNat 0 bytes
        return (size, some bytes)

end Functions

/-! ## Runs -/

inductive VfsCall where
  | create (name : Terminated)
  | write (name : Terminated) (data : Bytes) (size : Word)
  | read (name : Terminated) (buffer : Option Bytes) (size : Word)

section Runs

variable {σ : Type} (H : HeapCalls σ)

/-- The state after a call that returns. -/
def VfsCall.perform : VfsCall → Vfs σ → Option (Vfs σ)
  | .create name, v => (vfsCreate H name v).map Prod.snd
  | .write name data size, v => (vfsWrite H name data size v).map Prod.snd
  | .read name buffer size, v => (vfsRead H name buffer size v).map fun _ => v

/-- The state after calls one by one that all return. -/
def vfsRun : List VfsCall → Vfs σ → Option (Vfs σ)
  | [], v => some v
  | call :: calls, v => (call.perform H v).bind (vfsRun calls)

end Runs

/-! ## Heaps that follow each other -/

section Follows

variable {σ τ : Type} {H : HeapCalls σ} {K : HeapCalls τ} {f : σ → τ}

/-- The same state over the other heap. -/
def Vfs.map (f : σ → τ) (v : Vfs σ) : Vfs τ := ⟨v.root, f v.heap⟩

variable (follows : H.Follows K f)
include follows

theorem matchLoop_follows {name : Bytes} {node : Word} {s : σ} {rounds i stop : ℕ}
    (answer : matchLoop H name node s rounds i = some stop) :
    matchLoop K name node (f s) rounds i = some stop := by
  induction rounds generalizing i with
  | zero => exact answer
  | succ rounds ih =>
      rw [matchLoop] at answer ⊢
      split_ifs at answer ⊢ with ended
      · exact answer
      · simp only [Option.bind_eq_bind, Option.bind_eq_some_iff] at answer ⊢
        obtain ⟨char, loaded, rest⟩ := answer
        refine ⟨char, follows.load8 loaded, ?_⟩
        split_ifs at rest ⊢ with equal
        · exact ih rest
        · exact rest

theorem nameMatches_follows {name : Terminated} {node : Word} {s : σ} {found : Bool}
    (answer : nameMatches H name node s = some found) :
    nameMatches K name node (f s) = some found := by
  simp only [nameMatches, Option.bind_eq_bind, Option.bind_eq_some_iff] at answer ⊢
  obtain ⟨stop, loop, rest⟩ := answer
  refine ⟨stop, matchLoop_follows follows loop, ?_⟩
  split_ifs at rest ⊢ with ended
  · rw [Option.bind_eq_some_iff] at rest ⊢
    obtain ⟨char, loaded, rest⟩ := rest
    exact ⟨char, follows.load8 loaded, rest⟩
  · exact rest

theorem findLoop_follows {name : Terminated} {s : σ} {rounds : ℕ} {first node : Word}
    (answer : findLoop H name s rounds first = some node) :
    findLoop K name (f s) rounds first = some node := by
  induction rounds generalizing first with
  | zero => exact answer
  | succ rounds ih =>
      rw [findLoop] at answer ⊢
      split_ifs at answer ⊢ with nonnull
      · simp only [Option.bind_eq_bind, Option.bind_eq_some_iff] at answer ⊢
        obtain ⟨found, compared, rest⟩ := answer
        refine ⟨found, nameMatches_follows follows compared, ?_⟩
        split_ifs at rest ⊢ with same
        · exact rest
        · rw [Option.bind_eq_some_iff] at rest ⊢
          obtain ⟨next, loaded, rest⟩ := rest
          exact ⟨next, follows.load32 loaded, ih rest⟩
      · exact answer

theorem vfsFind_follows {name : Terminated} {v : Vfs σ} {node : Word}
    (answer : vfsFind H name v = some node) : vfsFind K name (v.map f) = some node :=
  findLoop_follows follows answer

theorem nameLoop_follows {name : Bytes} {node : Word} {rounds i stop : ℕ} {s s' : σ}
    (answer : nameLoop H name node rounds i s = some (stop, s')) :
    nameLoop K name node rounds i (f s) = some (stop, f s') := by
  induction rounds generalizing i s with
  | zero =>
      obtain ⟨rfl, rfl⟩ := Prod.mk.inj (Option.some.inj answer)
      rfl
  | succ rounds ih =>
      rw [nameLoop] at answer ⊢
      split_ifs at answer ⊢ with more
      · simp only [Option.bind_eq_bind, Option.bind_eq_some_iff] at answer ⊢
        obtain ⟨s1, stored, rest⟩ := answer
        exact ⟨f s1, follows.store8 stored, ih rest⟩
      · obtain ⟨rfl, rfl⟩ := Prod.mk.inj (Option.some.inj answer)
        rfl

theorem vfsCreate_follows {name : Terminated} {v v' : Vfs σ} {answer : Word}
    (call : vfsCreate H name v = some (answer, v')) :
    vfsCreate K name (v.map f) = some (answer, v'.map f) := by
  simp only [vfsCreate, Option.bind_eq_bind, Option.bind_eq_some_iff] at call ⊢
  obtain ⟨⟨node, s⟩, allocated, rest⟩ := call
  refine ⟨(node, f s), follows.alloc allocated, ?_⟩
  split_ifs at rest ⊢ with null
  · obtain ⟨rfl, rfl⟩ := Prod.mk.inj (Option.some.inj rest)
    rfl
  · simp only [Option.bind_eq_some_iff] at rest ⊢
    obtain ⟨⟨stop, s1⟩, loop, s2, ended, s3, size, s4, data, s5, next, rest⟩ := rest
    obtain ⟨rfl, rfl⟩ := Prod.mk.inj (Option.some.inj rest)
    exact ⟨(stop, f s1), nameLoop_follows follows loop, f s2, follows.store8 ended, f s3,
      follows.store32 size, f s4, follows.store32 data, f s5, follows.store32 next, rfl⟩

theorem releaseData_follows {node : Word} {s s' : σ} (call : releaseData H node s = some s') :
    releaseData K node (f s) = some (f s') := by
  simp only [releaseData, Option.bind_eq_bind, Option.bind_eq_some_iff] at call ⊢
  obtain ⟨data, loaded, rest⟩ := call
  refine ⟨data, follows.load32 loaded, ?_⟩
  split_ifs at rest ⊢ with nonnull
  · rw [Option.bind_eq_some_iff] at rest ⊢
    obtain ⟨old, again, freed⟩ := rest
    exact ⟨old, follows.load32 again, follows.free freed⟩
  · exact congrArg (some ∘ f) (Option.some.inj rest)

theorem writeLoop_follows {node : Word} {data : Bytes} {rounds i : ℕ} {s s' : σ}
    (answer : writeLoop H node data rounds i s = some s') :
    writeLoop K node data rounds i (f s) = some (f s') := by
  induction rounds generalizing i s with
  | zero => exact congrArg (some ∘ f) (Option.some.inj answer)
  | succ rounds ih =>
      simp only [writeLoop, Option.bind_eq_bind, Option.bind_eq_some_iff] at answer ⊢
      obtain ⟨dst, loaded, s1, stored, rest⟩ := answer
      exact ⟨dst, follows.load32 loaded, f s1, follows.store8 stored, ih rest⟩

theorem storeData_follows {node size answer : Word} {data : Bytes} {s s' : σ}
    (call : storeData H node data size s = some (answer, s')) :
    storeData K node data size (f s) = some (answer, f s') := by
  simp only [storeData, Option.bind_eq_bind, Option.bind_eq_some_iff] at call ⊢
  obtain ⟨⟨block, s1⟩, allocated, s2, stored, dst, loaded, rest⟩ := call
  refine ⟨(block, f s1), follows.alloc allocated, f s2, follows.store32 stored, dst,
    follows.load32 loaded, ?_⟩
  split_ifs at rest ⊢ with null
  · rw [Option.bind_eq_some_iff] at rest ⊢
    obtain ⟨s3, sized, rest⟩ := rest
    obtain ⟨rfl, rfl⟩ := Prod.mk.inj (Option.some.inj rest)
    exact ⟨f s3, follows.store32 sized, rfl⟩
  · simp only [Option.bind_eq_some_iff] at rest ⊢
    obtain ⟨s3, loop, s4, sized, rest⟩ := rest
    obtain ⟨rfl, rfl⟩ := Prod.mk.inj (Option.some.inj rest)
    exact ⟨f s3, writeLoop_follows follows loop, f s4, follows.store32 sized, rfl⟩

theorem vfsWrite_follows {name : Terminated} {data : Bytes} {size answer : Word} {v v' : Vfs σ}
    (call : vfsWrite H name data size v = some (answer, v')) :
    vfsWrite K name data size (v.map f) = some (answer, v'.map f) := by
  simp only [vfsWrite, Option.bind_eq_bind, Option.bind_eq_some_iff] at call ⊢
  obtain ⟨node, found, rest⟩ := call
  refine ⟨node, vfsFind_follows follows found, ?_⟩
  split_ifs at rest ⊢ with null
  · obtain ⟨rfl, rfl⟩ := Prod.mk.inj (Option.some.inj rest)
    rfl
  · simp only [Option.bind_eq_some_iff] at rest ⊢
    obtain ⟨s1, released, ⟨count, s2⟩, stored, rest⟩ := rest
    obtain ⟨rfl, rfl⟩ := Prod.mk.inj (Option.some.inj rest)
    exact ⟨f s1, releaseData_follows follows released, (count, f s2),
      storeData_follows follows stored, rfl⟩

theorem readLoop_follows {node : Word} {s : σ} {rounds i : ℕ} {buffer buffer' : Bytes}
    (answer : readLoop H node s rounds i buffer = some buffer') :
    readLoop K node (f s) rounds i buffer = some buffer' := by
  induction rounds generalizing i buffer with
  | zero => exact answer
  | succ rounds ih =>
      simp only [readLoop, Option.bind_eq_bind, Option.bind_eq_some_iff] at answer ⊢
      obtain ⟨src, loaded, byte, read, rest⟩ := answer
      exact ⟨src, follows.load32 loaded, byte, follows.load8 read, ih rest⟩

theorem vfsRead_follows {name : Terminated} {buffer : Option Bytes} {size : Word} {v : Vfs σ}
    {answer : Word × Option Bytes} (call : vfsRead H name buffer size v = some answer) :
    vfsRead K name buffer size (v.map f) = some answer := by
  simp only [vfsRead, Option.bind_eq_bind, Option.bind_eq_some_iff] at call ⊢
  obtain ⟨node, found, rest⟩ := call
  refine ⟨node, vfsFind_follows follows found, ?_⟩
  split_ifs at rest ⊢ with null
  · exact rest
  · cases buffer with
    | none => exact rest
    | some bytes =>
        simp only [Option.bind_eq_some_iff] at rest ⊢
        obtain ⟨data, loaded, rest⟩ := rest
        refine ⟨data, follows.load32 loaded, ?_⟩
        split_ifs at rest ⊢ with empty
        · exact rest
        · simp only [Option.bind_eq_some_iff] at rest ⊢
          obtain ⟨held, sized, bytes', loop, rest⟩ := rest
          exact ⟨held, follows.load32 sized, bytes', readLoop_follows follows loop, rest⟩

theorem perform_follows {call : VfsCall} {v v' : Vfs σ} (answer : call.perform H v = some v') :
    call.perform K (v.map f) = some (v'.map f) := by
  cases call with
  | create name =>
      obtain ⟨result, called, rfl⟩ := Option.map_eq_some_iff.mp answer
      exact Option.map_eq_some_iff.mpr ⟨_, vfsCreate_follows follows called, rfl⟩
  | write name data size =>
      obtain ⟨result, called, rfl⟩ := Option.map_eq_some_iff.mp answer
      exact Option.map_eq_some_iff.mpr ⟨_, vfsWrite_follows follows called, rfl⟩
  | read name buffer size =>
      obtain ⟨result, called, rfl⟩ := Option.map_eq_some_iff.mp answer
      exact Option.map_eq_some_iff.mpr ⟨_, vfsRead_follows follows called, rfl⟩

/-- **A run over a heap is a run over every heap that follows it.** -/
theorem vfsRun_follows {calls : List VfsCall} {v v' : Vfs σ}
    (run : vfsRun H calls v = some v') : vfsRun K calls (v.map f) = some (v'.map f) := by
  induction calls generalizing v with
  | nil =>
      obtain rfl := Option.some.inj run
      rfl
  | cons call calls ih =>
      obtain ⟨w, first, rest⟩ := Option.bind_eq_some_iff.mp run
      rw [vfsRun, perform_follows follows first]
      exact ih rest

end Follows

end CocosOS.Filesystem
