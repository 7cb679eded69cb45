import CocosOS.Filesystem.VfsRuns

/-!
# The file system on the heap of the kernel

The heap belongs to the whole kernel. Between the calls of the file system, others request blocks,
store into them or outside the heap, and release them; `vfs_init` may be called again
(`KernelCall`). A run has no result where others use a block that is not theirs.

What others hold is apart from what the file system holds, and so the file system has the heap to
itself (`OwnedHeap.beside`). The blocks of a list that `vfs_init` forgets stay handed out, and
nobody uses them again. In every state of a run the list holds some files
(`KernelState.Holds.run`), and a call of the file system does to them what the answer of the heap
makes of it.
-/

set_option autoImplicit false

namespace CocosOS.Filesystem

open Library.ByteMemory Library.BlockList Library.CString Library.LinkedList Kernel.Memory

/-! ## Runs -/

/-- The file system, and the blocks that others hold. -/
structure KernelState where
  vfs : Vfs (HeapBounds × Mem)
  others : List Extent

/-- A call of the file system, or what others do with memory. -/
inductive KernelCall where
  | init
  | vfs (call : VfsCall)
  | alloc (n : Word)
  | free (b : Extent)
  | store (x : Word) (byte : Byte)

namespace KernelState

/-- The state after `Memory_init`. -/
def boot (start size : Word) (mem : Mem) : KernelState :=
  ⟨vfsInit (memoryInit start size mem), []⟩

def withHeap (t : KernelState) (heap : HeapBounds × Mem) : KernelState :=
  { t with vfs := { t.vfs with heap := heap } }

/-- Others may store at an address in a block of theirs and outside the heap. -/
def MayStore (t : KernelState) (x : Word) : Prop :=
  (∃ b ∈ t.others, Covers b.addr b.length x) ∨
    x.toNat < t.vfs.heap.1.heapStart.toNat ∨ t.vfs.heap.1.heapEnd.toNat ≤ x.toNat

instance (t : KernelState) (x : Word) : Decidable (t.MayStore x) :=
  inferInstanceAs (Decidable ((∃ b ∈ t.others, _) ∨ _))

end KernelState

namespace KernelCall

/-- The state after a call that returns. -/
def perform : KernelCall → KernelState → Option KernelState
  | .init, t => some { t with vfs := vfsInit t.vfs.heap }
  | .vfs call, t => (call.perform bareHeap t.vfs).map fun v => { t with vfs := v }
  | .alloc n, t =>
    (bareHeap.alloc n t.vfs.heap).map fun (p, heap) =>
      { t.withHeap heap with
        others := if p = 0 then t.others else ⟨p, (roundSize n).toNat⟩ :: t.others }
  | .free b, t =>
    if b ∈ t.others then
      (bareHeap.free b.addr t.vfs.heap).map fun heap =>
        { t.withHeap heap with others := t.others.erase b }
    else none
  | .store x byte, t =>
    if t.MayStore x then (bareHeap.store8 x byte t.vfs.heap).map t.withHeap else none

/-- Data that lies beside a heap in memory is no longer than this. -/
def Small : KernelCall → Prop
  | .vfs (.write _ _ count) => count.toNat ≤ 2 ^ 32 - 4
  | _ => True

end KernelCall

/-- The state after calls one by one that all return. -/
def kernelRun : List KernelCall → KernelState → Option KernelState
  | [], t => some t
  | call :: calls, t => (call.perform t).bind (kernelRun calls)

/-- The heap can supply a block for new data of the file: as it is, or as it is once the old data
is released. -/
def Supplies (name : Terminated) (count : Word) (v : Vfs (HeapBounds × Mem)) : Prop :=
  (∃ p heap, bareHeap.alloc count v.heap = some (p, heap) ∧ p ≠ 0) ∨
    ∃ node released p heap, vfsFind bareHeap name v = some node ∧ node ≠ 0 ∧
      releaseData bareHeap node v.heap = some released ∧
      bareHeap.alloc count released = some (p, heap) ∧ p ≠ 0

/-! ## The files in memory -/

/-- The list holds the nodes, in memory as the kernel has it, beside blocks of others. -/
def BareHolds (start size : Word) (blocks : List Extent) (v : Vfs (HeapBounds × Mem))
    (nodes : List FileNode) : Prop :=
  ∃ w : Vfs HeapState, w.map HeapState.bare = v ∧
    Holds ((memoryHeap start size).beside blocks) w nodes

/-- Others may have done what they want with blocks of theirs. -/
theorem Holds.beside {σ : Type} {H : OwnedHeap σ} {others others' : List Extent} {v : Vfs σ}
    {nodes : List FileNode} (holds : Holds (H.beside others) v nodes) {s : σ}
    (owns : H.Owns (nodes.flatMap FileNode.blocks ++ others') s)
    (same : ∀ b ∈ nodes.flatMap FileNode.blocks, b.SameOn (H.bytes v.heap) (H.bytes s)) :
    Holds (H.beside others') { v with heap := s } nodes := by
  obtain ⟨here, links⟩ := nodes_congr ((H.beside others).fits holds.owns) same holds.here
  exact ⟨holds.linked.congr links, here, owns⟩

/-- A release changes nothing or is a call of `Memory_free`. -/
theorem releaseData_cases {σ : Type} {H : HeapCalls σ} {node : Word} {s s' : σ}
    (call : releaseData H node s = some s') : s' = s ∨ ∃ p, H.free p s = some s' := by
  simp only [releaseData, Option.bind_eq_bind, Option.bind_eq_some_iff] at call
  obtain ⟨data, -, rest⟩ := call
  split_ifs at rest with nonnull
  · rw [Option.bind_eq_some_iff] at rest
    obtain ⟨old, -, freed⟩ := rest
    exact Or.inr ⟨old, freed⟩
  · exact Or.inl (Option.some.inj rest).symm

/-- A write is given memory if the heap can supply it. -/
theorem supplied {start size : Word} {blocks : List Extent} {w : Vfs HeapState}
    (owns : (memoryHeap start size).Owns blocks w.heap) {name : Terminated} {count node p : Word}
    {s s' : HeapState} (find : vfsFind watchedHeap name w = some node)
    (released : releaseData watchedHeap node w.heap = some s)
    (request : watchedHeap.alloc count s = some (p, s'))
    (supplies : Supplies name count (w.map HeapState.bare)) : p ≠ 0 := by
  have follows := watchedHeap_follows
  have answer : bareHeap.alloc count s.bare = some (p, s'.bare) := follows.alloc request
  rcases supplies with ⟨q, heap, before, given⟩ |
    ⟨other, freed, q, heap, find', -, freed', after, given⟩
  · change bareHeap.alloc count w.heap.bare = some (q, heap) at before
    rcases releaseData_cases released with rfl | ⟨old, free⟩
    · rw [before, Option.some.injEq, Prod.mk.injEq] at answer
      exact answer.1 ▸ given
    · obtain ⟨bs, inv, owned⟩ := owns
      simp only [watchedHeap, Option.ite_none_right_eq_some, Option.map_eq_some_iff] at free
      obtain ⟨live, mem, call, rfl⟩ := free
      obtain ⟨⟨_, taken⟩, first, same⟩ := Option.map_eq_some_iff.mp before
      obtain ⟨rfl, -⟩ := Prod.mk.inj same
      obtain ⟨⟨_, taken'⟩, second, same⟩ := Option.map_eq_some_iff.mp answer
      obtain ⟨rfl, -⟩ := Prod.mk.inj same
      exact inv.alloc_after_free live first given call second
  · obtain rfl : other = node :=
      Option.some.inj (find'.symm.trans (vfsFind_follows follows find))
    obtain rfl : freed = s.bare :=
      Option.some.inj (freed'.symm.trans (releaseData_follows follows released))
    rw [after, Option.some.injEq, Prod.mk.injEq] at answer
    exact answer.1 ▸ given

/-- Every call returns, whether it is given memory or not. -/
theorem exists_performed {start size : Word} {blocks : List Extent} {w : Vfs HeapState}
    {nodes : List FileNode} (held : Holds ((memoryHeap start size).beside blocks) w nodes)
    (call : VfsCall) (small : (KernelCall.vfs call).Small) :
    ∃ w', call.perform watchedHeap w = some w' := by
  have answers : ∀ n : Word, n.toNat ≤ 2 ^ 32 - 4 →
      ((memoryHeap start size).beside blocks).Answers n :=
    fun n short => OwnedHeap.Answers.beside (answers_memoryHeap start size short) blocks
  refine perform_isSome held (answers _ (by decide)) fun name bytes count write => ?_
  subst write
  exact answers count small

namespace BareHolds

variable {start size : Word} {blocks : List Extent} {v v' : Vfs (HeapBounds × Mem)}
  {nodes : List FileNode} (holds : BareHolds start size blocks v nodes)
include holds

theorem find_eq (name : Terminated) :
    vfsFind bareHeap name v = some (((lookup name.chars nodes).map FileNode.addr).getD 0) := by
  obtain ⟨w, rfl, held⟩ := holds
  exact vfsFind_follows watchedHeap_follows (vfsFind_eq held name)

/-- A name reads as its content. -/
theorem reads (name : Terminated) :
    Reads bareHeap v name ((contentOf name.chars nodes).getD []) := by
  obtain ⟨w, rfl, held⟩ := holds
  intro buffer count
  obtain ⟨answer, read, least⟩ := vfsRead_eq held name count buffer
  exact ⟨answer, vfsRead_follows watchedHeap_follows read, least⟩

/-- What a name reads as depends only on its content, and an empty file reads as one that is not
there. -/
theorem read_congr {blocks' : List Extent} {nodes' : List FileNode}
    (holds' : BareHolds start size blocks' v' nodes') {name : Terminated}
    (same : (contentOf name.chars nodes').getD [] = (contentOf name.chars nodes).getD [])
    (buffer : Option Bytes) (count : Word) :
    vfsRead bareHeap name buffer count v' = vfsRead bareHeap name buffer count v := by
  cases buffer with
  | none =>
      obtain ⟨w, rfl, held⟩ := holds
      obtain ⟨w', rfl, held'⟩ := holds'
      rw [vfsRead_follows watchedHeap_follows (vfsRead_null held name count),
        vfsRead_follows watchedHeap_follows (vfsRead_null held' name count)]
  | some bytes =>
      obtain ⟨answer, read, least⟩ := holds.reads name bytes count
      obtain ⟨answer', read', least'⟩ := holds'.reads name bytes count
      rw [same, ← least] at least'
      rw [read, read', same, BitVec.eq_of_toNat_eq least']

/-- **A call keeps the list**, whether it is given memory or not. -/
theorem perform {call : VfsCall} (small : (KernelCall.vfs call).Small)
    (answer : call.perform bareHeap v = some v') :
    ∃ nodes' p, BareHolds start size blocks v' nodes' ∧
      (contentOf · nodes') = call.outcome p (contentOf · nodes) := by
  obtain ⟨w, rfl, held⟩ := holds
  obtain ⟨w', performed⟩ := exists_performed held call small
  obtain rfl : w'.map HeapState.bare = v' :=
    Option.some.inj ((perform_follows watchedHeap_follows performed).symm.trans answer)
  obtain ⟨nodes', p, held', contents, -⟩ := perform_outcome held performed
  exact ⟨nodes', p, ⟨w', rfl, held'⟩, contents⟩

/-- `vfs_create` returns. -/
theorem create_isSome (name : Terminated) :
    ∃ answer v', vfsCreate bareHeap name v = some (answer, v') := by
  obtain ⟨w, rfl, held⟩ := holds
  obtain ⟨_, performed⟩ := exists_performed held (.create name) trivial
  obtain ⟨⟨answer, w'⟩, called, -⟩ := Option.map_eq_some_iff.mp performed
  exact ⟨answer, _, vfsCreate_follows watchedHeap_follows called⟩

/-- `vfs_create` returns 1 if it puts the name into the list. -/
theorem create {name : Terminated} {answer : Word}
    (call : vfsCreate bareHeap name v = some (answer, v')) :
    ∃ nodes' p, BareHolds start size blocks v' nodes' ∧
      (contentOf · nodes') = (VfsCall.create name).outcome p (contentOf · nodes) ∧
      answer = if p = 0 then 0 else 1 := by
  obtain ⟨w, rfl, held⟩ := holds
  obtain ⟨_, performed⟩ := exists_performed held (.create name) trivial
  obtain ⟨⟨count, w'⟩, called, -⟩ := Option.map_eq_some_iff.mp performed
  obtain ⟨rfl, rfl⟩ := Prod.mk.inj
    (Option.some.inj ((vfsCreate_follows watchedHeap_follows called).symm.trans call))
  obtain ⟨nodes', q, held', contents, returned, -⟩ := vfsCreate_outcome held called
  exact ⟨nodes', q, ⟨w', rfl, held'⟩, contents, returned⟩

/-- **`vfs_write` returns**. It does nothing if there is no such name; if there is one, the file
has the new data if memory is given for it, and it is given if the heap can supply it. -/
theorem write (name : Terminated) (data : Bytes) {count : Word} (small : count.toNat ≤ 2 ^ 32 - 4) :
    (contentOf name.chars nodes = none ∧ vfsWrite bareHeap name data count v = some (0, v)) ∨
      ∃ v' nodes' p, (contentOf name.chars nodes).isSome ∧
        vfsWrite bareHeap name data count v = some (if p = 0 then 0 else count, v') ∧
        BareHolds start size blocks v' nodes' ∧
        (contentOf · nodes') = (VfsCall.write name data count).outcome p (contentOf · nodes) ∧
        (Supplies name count v → p ≠ 0) := by
  obtain ⟨w, rfl, held⟩ := holds
  obtain ⟨_, performed⟩ := exists_performed held (.write name data count) small
  obtain ⟨⟨answer, w'⟩, called, -⟩ := Option.map_eq_some_iff.mp performed
  have call := vfsWrite_follows watchedHeap_follows called
  rcases vfsWrite_outcome held called with ⟨missing, rfl, rfl⟩ |
    ⟨nodes', p, there, held', contents, rfl, node, s, s1, find, -, released, request⟩
  · exact Or.inl ⟨missing, call⟩
  · exact Or.inr ⟨_, nodes', p, there, call, ⟨w', rfl, held'⟩, contents,
      supplied held.owns find released request⟩

end BareHolds

/-! ## Every state of a run -/

/-- The list holds the nodes, beside what others hold and what is lost. -/
def KernelState.Holds (start size : Word) (t : KernelState) (nodes : List FileNode) : Prop :=
  ∃ lost, BareHolds start size (t.others ++ lost) t.vfs nodes

namespace KernelState.Holds

variable {start size : Word} {t t' : KernelState} {nodes : List FileNode}

theorem boot (low : 16 ≤ start.toNat) (room : 12 < size.toNat)
    (fits : start.toNat + size.toNat < 2 ^ 32) (mem : Mem) :
    (KernelState.boot start size mem).Holds start size [] :=
  ⟨[], vfsInit (HeapState.init start size mem), rfl, holds_vfsInit (owns_init low room fits mem)⟩

variable (holds : t.Holds start size nodes)
include holds

/-- `vfs_init` leaves an empty list, and the blocks of the old one are lost. -/
theorem init : ({ t with vfs := vfsInit t.vfs.heap } : KernelState).Holds start size [] := by
  obtain ⟨lost, w, same, held⟩ := holds
  refine ⟨nodes.flatMap FileNode.blocks ++ lost, vfsInit w.heap, ?_, holds_vfsInit ?_⟩
  · rw [← same]
    rfl
  · exact (memoryHeap start size).perm held.owns (List.perm_append_comm_assoc _ _ _)

theorem vfs {call : VfsCall} (small : (KernelCall.vfs call).Small) {v : Vfs (HeapBounds × Mem)}
    (answer : call.perform bareHeap t.vfs = some v) :
    ∃ nodes' p, ({ t with vfs := v } : KernelState).Holds start size nodes' ∧
      (contentOf · nodes') = call.outcome p (contentOf · nodes) := by
  obtain ⟨lost, held⟩ := holds
  obtain ⟨nodes', p, held', contents⟩ := held.perform small answer
  exact ⟨nodes', p, ⟨lost, held'⟩, contents⟩

theorem alloc {n : Word} (answer : (KernelCall.alloc n).perform t = some t') :
    t'.Holds start size nodes := by
  obtain ⟨⟨root, heap⟩, blocks⟩ := t
  obtain ⟨lost, ⟨first, s⟩, same, held⟩ := holds
  obtain ⟨rfl, rfl⟩ := Vfs.mk.inj same
  obtain ⟨⟨_, heap⟩, request, rfl⟩ := Option.map_eq_some_iff.mp answer
  obtain ⟨⟨p, mem'⟩, call, equal⟩ := Option.map_eq_some_iff.mp request
  obtain ⟨rfl, rfl⟩ := Prod.mk.inj equal
  obtain ⟨owns, kept⟩ := owns_memoryAlloc held.owns call
  refine ⟨lost, ⟨first, ⟨s.bounds, mem', if p = 0 then s.live else p :: s.live⟩⟩, rfl,
    held.beside ?_ fun b member => kept b (List.mem_append_left _ member)⟩
  dsimp only
  split_ifs at owns ⊢ with null
  · exact owns
  · exact (memoryHeap start size).perm owns List.perm_middle.symm

theorem free {b : Extent} (answer : (KernelCall.free b).perform t = some t') :
    t'.Holds start size nodes := by
  obtain ⟨⟨root, heap⟩, blocks⟩ := t
  obtain ⟨lost, ⟨first, s⟩, same, held⟩ := holds
  obtain ⟨rfl, rfl⟩ := Vfs.mk.inj same
  simp only [KernelCall.perform, Option.ite_none_right_eq_some] at answer
  obtain ⟨member, answer⟩ := answer
  obtain ⟨heap, released, rfl⟩ := Option.map_eq_some_iff.mp answer
  have front : (nodes.flatMap FileNode.blocks ++ (blocks ++ lost)).Perm
      (b :: (nodes.flatMap FileNode.blocks ++ (blocks.erase b ++ lost))) :=
    (((List.perm_cons_erase member).append_right lost).append_left _).trans List.perm_middle
  obtain ⟨s', freed, owns, kept⟩ :=
    (memoryHeap start size).release ((memoryHeap start size).perm held.owns front)
  obtain rfl : heap = s'.bare :=
    Option.some.inj (released.symm.trans (watchedHeap_follows.free freed))
  exact ⟨lost, ⟨first, s'⟩, rfl,
    held.beside owns fun b member => kept b (List.mem_append_left _ member)⟩

theorem store {x : Word} {byte : Byte} (answer : (KernelCall.store x byte).perform t = some t') :
    t'.Holds start size nodes := by
  obtain ⟨⟨root, heap⟩, blocks⟩ := t
  obtain ⟨lost, ⟨first, s⟩, same, held⟩ := holds
  obtain ⟨rfl, rfl⟩ := Vfs.mk.inj same
  have owns : (memoryHeap start size).Owns (nodes.flatMap FileNode.blocks ++ (blocks ++ lost)) s :=
    held.owns
  simp only [KernelCall.perform, Option.ite_none_right_eq_some] at answer
  obtain ⟨allowed, answer⟩ := answer
  obtain ⟨heap, stored, rfl⟩ := Option.map_eq_some_iff.mp answer
  obtain rfl := Option.some.inj stored
  rcases allowed with ⟨b, theirs, inside⟩ | outside
  · have member : b ∈ blocks ++ lost := List.mem_append_left lost theirs
    obtain ⟨s', stored, owns', bytes⟩ :=
      (memoryHeap start size).store owns b (List.mem_append_right _ member) inside byte
    have same : (s.bare.1, store8 s.bare.2 x byte) = s'.bare :=
      Option.some.inj (watchedHeap_follows.store8 stored)
    have apart := (List.pairwise_append.mp ((memoryHeap start size).apart owns)).2.2
    refine ⟨lost, ⟨first, s'⟩, congrArg (Vfs.mk first) same.symm, held.beside owns' ?_⟩
    rw [bytes]
    exact fun c own => sameOn_store8 fun covered => apart c own b member x covered inside
  · obtain ⟨owns', kept⟩ := owns_store_outside owns outside byte
    exact ⟨lost, ⟨first, { s with mem := store8 s.mem x byte }⟩, rfl,
      held.beside owns' fun b member => kept b (List.mem_append_left _ member)⟩

/-- **Every call keeps a list of files**, and only `vfs_init` takes a name from it. -/
theorem perform {call : KernelCall} (small : call.Small) (answer : call.perform t = some t') :
    ∃ nodes', t'.Holds start size nodes' ∧
      (call ≠ .init → ∀ key, (contentOf key nodes).isSome → (contentOf key nodes').isSome) := by
  cases call with
  | init =>
      obtain rfl := Option.some.inj answer
      exact ⟨[], holds.init, fun other => absurd rfl other⟩
  | vfs call =>
      obtain ⟨v, performed, rfl⟩ := Option.map_eq_some_iff.mp answer
      obtain ⟨nodes', p, holds', contents⟩ := holds.vfs small performed
      refine ⟨nodes', holds', fun _ key there => ?_⟩
      rw [congrFun contents key]
      exact VfsCall.outcome_isSome there
  | alloc n => exact ⟨nodes, holds.alloc answer, fun _ _ there => there⟩
  | free b => exact ⟨nodes, holds.free answer, fun _ _ there => there⟩
  | store x byte => exact ⟨nodes, holds.store answer, fun _ _ there => there⟩

/-- **In every state of a run the list holds some files**, and a name stays in the list until
`vfs_init` is called. -/
theorem run {calls : List KernelCall} (small : ∀ call ∈ calls, call.Small)
    (run : kernelRun calls t = some t') :
    ∃ nodes', t'.Holds start size nodes' ∧ (KernelCall.init ∉ calls →
      ∀ key, (contentOf key nodes).isSome → (contentOf key nodes').isSome) := by
  induction calls generalizing t nodes with
  | nil =>
      obtain rfl := Option.some.inj run
      exact ⟨nodes, holds, fun _ _ there => there⟩
  | cons call calls ih =>
      obtain ⟨middle, first, rest⟩ := Option.bind_eq_some_iff.mp run
      obtain ⟨nodes1, holds1, kept1⟩ := holds.perform (small call List.mem_cons_self) first
      obtain ⟨nodes2, holds2, kept2⟩ := ih holds1
        (fun other member => small other (List.mem_cons_of_mem _ member)) rest
      refine ⟨nodes2, holds2, fun never key there => ?_⟩
      rw [List.mem_cons, not_or] at never
      exact kept2 never.2 key (kept1 (Ne.symm never.1) key there)

end KernelState.Holds

end CocosOS.Filesystem
