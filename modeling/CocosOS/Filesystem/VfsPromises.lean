import CocosOS.Filesystem.SharedHeap

/-!
# What callers of the file system may count on

The results are about every state of a run on the heap of the kernel.

`vfs_write` releases the old data before it asks for a block for the new data. Where it returns 0
for want of memory, the file is left empty. So a failed write leaves every file as it was exactly
if the file held no bytes before (`failed_write_keeps_iff`).

`vfs_create` cuts a name off to 31 characters and returns 1 all the same, and `vfs_find` compares
the name whole. So a created file can be written and read again exactly if its name is shorter than
`MAX_NAME` (`created_found_iff`).

`vfs_create` puts its node before the others without looking whether the name is there already, and
so hides what the name held (`creation_keeps_iff`).

A write never concerns a file of another name.
-/

set_option autoImplicit false

namespace CocosOS.Filesystem

open Library.ByteMemory Library.BlockList Library.CString Library.LinkedList Kernel.Memory

/-- The file that is found under the name, if there is one, has no bytes. -/
def HoldsNothing (name : Terminated) (v : Vfs (HeapBounds × Mem)) : Prop :=
  ∀ node, vfsFind bareHeap name v = some node → node ≠ 0 →
    load32 v.heap.2 (node + VfsNode.size) = 0

/-- The heap can supply a node. -/
def SuppliesNode (v : Vfs (HeapBounds × Mem)) : Prop :=
  ∃ p heap, bareHeap.alloc VfsNode.sizeof v.heap = some (p, heap) ∧ p ≠ 0

/-- `vfs_create` returns 0 exactly if the heap cannot supply a node. -/
theorem supplies_iff_of_create {name : Terminated} {v v' : Vfs (HeapBounds × Mem)} {answer : Word}
    (call : vfsCreate bareHeap name v = some (answer, v')) : SuppliesNode v ↔ answer ≠ 0 := by
  simp only [vfsCreate, Option.bind_eq_bind, Option.bind_eq_some_iff] at call
  obtain ⟨⟨p, heap⟩, request, rest⟩ := call
  by_cases null : p = 0
  · rw [if_pos null] at rest
    obtain ⟨zero, -⟩ := Prod.mk.inj (Option.some.inj rest)
    refine iff_of_false ?_ (fun nonzero => nonzero zero.symm)
    rintro ⟨q, heap', request', nonnull⟩
    rw [request, Option.some.injEq, Prod.mk.injEq] at request'
    exact nonnull (request'.1 ▸ null)
  · rw [if_neg null] at rest
    simp only [Option.bind_eq_some_iff] at rest
    obtain ⟨_, _, _, _, _, _, _, _, _, _, same⟩ := rest
    obtain ⟨one, -⟩ := Prod.mk.inj (Option.some.inj same)
    refine iff_of_true ⟨p, heap, request, null⟩ ?_
    rw [← one]
    decide

namespace BareHolds

variable {start size : Word} {blocks : List Extent} {v v' : Vfs (HeapBounds × Mem)}
  {nodes : List FileNode} (holds : BareHolds start size blocks v nodes)
include holds

theorem holdsNothing_iff (name : Terminated) :
    HoldsNothing name v ↔ (contentOf name.chars nodes).getD [] = [] := by
  have find := holds.find_eq name
  obtain ⟨w, rfl, held⟩ := holds
  unfold HoldsNothing
  rw [find, contentOf]
  cases found : lookup name.chars nodes with
  | none =>
      refine iff_of_true (fun node same nonnull => ?_) rfl
      exact absurd (Option.some.inj same).symm nonnull
  | some node =>
      have member : node ∈ nodes := List.mem_of_find?_eq_some found
      have length : (load32 w.heap.mem (node.addr + VfsNode.size)).toNat = node.content.length :=
        (held.here node member).size
      have nonnull : node.addr ≠ 0 :=
        ((memoryHeap start size).beside blocks).nonnull held.owns _ (Holds.block_mem member)
      constructor
      · intro nothing
        have zero : load32 w.heap.mem (node.addr + VfsNode.size) = 0 := nothing _ rfl nonnull
        rw [zero] at length
        exact List.eq_nil_of_length_eq_zero length.symm
      · intro empty other same _
        obtain rfl : node.addr = other := Option.some.inj same
        have none : node.content = [] := empty
        rw [none] at length
        exact BitVec.eq_of_toNat_eq length

/-- A name in the list is shorter than `MAX_NAME`. -/
theorem length_lt_of_isSome {name : Terminated} (there : (contentOf name.chars nodes).isSome) :
    name.length < maxName := by
  rw [contentOf, Option.isSome_map] at there
  obtain ⟨node, found⟩ := Option.isSome_iff_exists.mp there
  obtain ⟨w, -, held⟩ := holds
  have same : node.name.chars = name.chars := by simpa using List.find?_some found
  have short := (held.here node (List.mem_of_find?_eq_some found)).short
  rw [← node.name.length_chars, same, name.length_chars] at short
  exact short

/-- **A write does not concern other names.** -/
theorem write_elsewhere {name other : Terminated} {data : Bytes} {count answer : Word}
    (small : count.toNat ≤ 2 ^ 32 - 4)
    (call : vfsWrite bareHeap name data count v = some (answer, v'))
    (differ : name.chars ≠ other.chars) (buffer : Option Bytes) (n : Word) :
    vfsRead bareHeap other buffer n v' = vfsRead bareHeap other buffer n v := by
  rcases holds.write name data small with ⟨-, made⟩ | ⟨w, nodes', p, -, made, held', contents, -⟩
  · obtain ⟨-, rfl⟩ := Prod.mk.inj (Option.some.inj (made.symm.trans call))
    rfl
  · obtain ⟨-, rfl⟩ := Prod.mk.inj (Option.some.inj (made.symm.trans call))
    refine holds.read_congr held' ?_ buffer n
    rw [congrFun contents other.chars, VfsCall.outcome, Function.update_of_ne (Ne.symm differ)]

/-- A write that fails leaves the file without data. -/
theorem write_failed {name : Terminated} {data : Bytes} {count : Word} (nonempty : count ≠ 0)
    (small : count.toNat ≤ 2 ^ 32 - 4)
    (failed : vfsWrite bareHeap name data count v = some (0, v')) :
    ∃ nodes', BareHolds start size blocks v' nodes' ∧
      contentOf name.chars nodes' = (contentOf name.chars nodes).map fun _ => [] := by
  rcases holds.write name data small with ⟨missing, made⟩ |
    ⟨w, nodes', p, -, made, held', contents, -⟩
  · obtain ⟨-, rfl⟩ := Prod.mk.inj (Option.some.inj (made.symm.trans failed))
    exact ⟨nodes, holds, by rw [missing]; rfl⟩
  · obtain ⟨zero, rfl⟩ := Prod.mk.inj (Option.some.inj (made.symm.trans failed))
    have null : p = 0 := by
      by_contra given
      rw [if_neg given] at zero
      exact nonempty zero
    refine ⟨nodes', held', ?_⟩
    rw [congrFun contents name.chars, VfsCall.outcome, Function.update_self, if_pos null]

/-- A write to a name in the list is what the name reads as, if the heap can supply the block. -/
theorem write_supplied {name : Terminated} (data : Bytes) {count : Word}
    (small : count.toNat ≤ 2 ^ 32 - 4) (there : (contentOf name.chars nodes).isSome)
    (supplies : Supplies name count v) :
    ∃ v', vfsWrite bareHeap name data count v = some (count, v') ∧
      Reads bareHeap v' name ((List.range count.toNat).map data) := by
  rcases holds.write name data small with ⟨missing, -⟩ |
    ⟨w, nodes', p, -, made, held', contents, given⟩
  · rw [missing] at there
    exact absurd there (by decide)
  · have nonnull := given supplies
    rw [if_neg nonnull] at made
    refine ⟨w, made, ?_⟩
    have content : contentOf name.chars nodes' = some ((List.range count.toNat).map data) := by
      rw [congrFun contents name.chars, VfsCall.outcome, Function.update_self, if_neg nonnull]
      obtain ⟨old, here⟩ := Option.isSome_iff_exists.mp there
      rw [here]
      rfl
    have reads := held'.reads name
    rw [content] at reads
    exact reads

/-- A name that reads as it does once it has no bytes had none. -/
theorem empty_of_kept {blocks' : List Extent} {nodes' : List FileNode}
    (holds' : BareHolds start size blocks' v' nodes') {name : Terminated}
    (kept : ∀ buffer n, vfsRead bareHeap name buffer n v' = vfsRead bareHeap name buffer n v)
    (nothing : (contentOf name.chars nodes').getD [] = []) :
    (contentOf name.chars nodes).getD [] = [] := by
  -- as many bytes are read as before, and now there are none
  obtain ⟨before, read, length⟩ := holds.reads name (fun _ => 0) (BitVec.allOnes 32)
  obtain ⟨after, read', length'⟩ := holds'.reads name (fun _ => 0) (BitVec.allOnes 32)
  have same := kept (some fun _ => 0) (BitVec.allOnes 32)
  rw [read, read', Option.some.injEq, Prod.mk.injEq] at same
  rw [same.1, length, nothing] at length'
  have many : 0 < (BitVec.allOnes 32).toNat := by decide
  apply List.eq_nil_of_length_eq_zero
  rw [List.length_nil, Nat.min_zero] at length'
  omega

/-- A creation that returns 1 puts the first 31 characters of the name into the list. -/
theorem created_isSome {name : Terminated} (created : vfsCreate bareHeap name v = some (1, v')) :
    ∃ nodes', BareHolds start size blocks v' nodes' ∧
      (contentOf (name.take (maxName - 1)).chars nodes').isSome := by
  obtain ⟨nodes', p, held', contents, one⟩ := holds.create created
  have nonnull : p ≠ 0 := by
    intro null
    rw [if_pos null] at one
    exact absurd one (by decide)
  refine ⟨nodes', held', ?_⟩
  rw [congrFun contents _, VfsCall.outcome, if_neg nonnull, Function.update_self]
  rfl

/-- **A creation returns.** It does nothing to the list without a node, and with one it puts the
name into the list as an empty file. -/
theorem create_cases {name : Terminated} (short : name.length < maxName) :
    ∃ answer v' nodes', vfsCreate bareHeap name v = some (answer, v') ∧
      BareHolds start size blocks v' nodes' ∧
      (¬ SuppliesNode v ∧ (contentOf · nodes') = (contentOf · nodes) ∨
        SuppliesNode v ∧
          (contentOf · nodes') = Function.update (contentOf · nodes) name.chars (some [])) := by
  obtain ⟨answer, v', call⟩ := holds.create_isSome name
  obtain ⟨nodes', p, held', contents, one⟩ := holds.create call
  have supplies := supplies_iff_of_create call
  refine ⟨answer, v', nodes', call, held', ?_⟩
  by_cases null : p = 0
  · rw [if_pos null] at one
    left
    refine ⟨fun given => supplies.mp given one, ?_⟩
    rw [contents, VfsCall.outcome, if_pos null]
  · rw [if_neg null] at one
    right
    refine ⟨supplies.mpr (by rw [one]; decide), ?_⟩
    rw [contents, VfsCall.outcome, if_neg null,
      Terminated.chars_take (Nat.le_sub_one_of_lt short)]

end BareHolds

/-! ## Failed writes -/

/-- **A failed write leaves every file as it was exactly if the file held no bytes**, in every state
of every run. It leaves every other file as it was in any case. -/
theorem failed_write_keeps_iff {start size : Word} (low : 16 ≤ start.toNat)
    (room : 12 < size.toNat) (fits : start.toNat + size.toNat < 2 ^ 32) (mem : Mem)
    {calls : List KernelCall} (small : ∀ call ∈ calls, call.Small) {t : KernelState}
    (run : kernelRun calls (KernelState.boot start size mem) = some t) {name : Terminated}
    {data : Bytes} {count : Word} (nonempty : count ≠ 0) (short : count.toNat ≤ 2 ^ 32 - 4)
    {v' : Vfs (HeapBounds × Mem)}
    (failed : vfsWrite bareHeap name data count t.vfs = some (0, v')) :
    ((∀ other buffer n,
        vfsRead bareHeap other buffer n v' = vfsRead bareHeap other buffer n t.vfs) ↔
      HoldsNothing name t.vfs) ∧
    ∀ other : Terminated, name.chars ≠ other.chars → ∀ buffer n,
      vfsRead bareHeap other buffer n v' = vfsRead bareHeap other buffer n t.vfs := by
  obtain ⟨nodes, ⟨lost, held⟩, -⟩ := (KernelState.Holds.boot low room fits mem).run small run
  obtain ⟨nodes', held', emptied⟩ := held.write_failed nonempty short failed
  have elsewhere : ∀ other : Terminated, name.chars ≠ other.chars → ∀ buffer n,
      vfsRead bareHeap other buffer n v' = vfsRead bareHeap other buffer n t.vfs :=
    fun other differ => held.write_elsewhere short failed differ
  refine ⟨?_, elsewhere⟩
  rw [held.holdsNothing_iff]
  constructor
  · intro kept
    refine held.empty_of_kept held' (kept name) ?_
    rw [emptied]
    cases contentOf name.chars nodes <;> rfl
  · intro empty other buffer n
    by_cases same : name.chars = other.chars
    · refine held.read_congr held' ?_ buffer n
      rw [← same, emptied, empty]
      cases contentOf name.chars nodes <;> rfl
    · exact elsewhere other same buffer n

/-- A heap of 1 MiB at 1 MiB. -/
def kernelBoot : KernelState := KernelState.boot 0x100000 0x100000 fun _ => 0

/-- Two MiB do not fit, but they take nothing away from an empty file. -/
theorem failed_write_keeps_empty :
    ∃ t v', kernelRun [.vfs (.create nameA)] kernelBoot = some t ∧
      vfsWrite bareHeap nameA (fun _ => 6) 0x200000 t.vfs = some (0, v') ∧
      ∀ other buffer n,
        vfsRead bareHeap other buffer n v' = vfsRead bareHeap other buffer n t.vfs := by
  have runs : ((kernelRun [.vfs (.create nameA)] kernelBoot).bind fun t =>
      (vfsWrite bareHeap nameA (fun _ => 6) 0x200000 t.vfs).bind fun result =>
        (vfsFind bareHeap nameA t.vfs).map fun node =>
          (result.1, load32 t.vfs.heap.2 (node + VfsNode.size))) = some (0, 0) := by
    decide +kernel
  obtain ⟨t, run, rest⟩ := Option.bind_eq_some_iff.mp runs
  obtain ⟨⟨answer, v'⟩, call, rest⟩ := Option.bind_eq_some_iff.mp rest
  obtain ⟨node, find, same⟩ := Option.map_eq_some_iff.mp rest
  obtain ⟨rfl, empty⟩ := Prod.mk.inj same
  refine ⟨t, v', run, call, ?_⟩
  refine (failed_write_keeps_iff (by decide) (by decide) (by decide) (fun _ => 0) ?_ run
    (by decide) (by decide) call).1.mpr ?_
  · intro other member
    rw [List.mem_singleton.mp member]
    trivial
  · intro other found _
    rw [find, Option.some.injEq] at found
    exact found ▸ empty

/-- The byte of a file is lost when a write of 2 MiB fails. -/
theorem failed_write_loses_data :
    ∃ t v', kernelRun [.vfs (.create nameA), .vfs (.write nameA (fun _ => 5) 1)] kernelBoot =
        some t ∧
      vfsWrite bareHeap nameA (fun _ => 6) 0x200000 t.vfs = some (0, v') ∧
      (vfsRead bareHeap nameA (some fun _ => 0) 1 t.vfs).map Prod.fst = some 1 ∧
      (vfsRead bareHeap nameA (some fun _ => 0) 1 v').map Prod.fst = some 0 := by
  have runs : ((kernelRun [.vfs (.create nameA), .vfs (.write nameA (fun _ => 5) 1)]
      kernelBoot).bind fun t =>
        (vfsWrite bareHeap nameA (fun _ => 6) 0x200000 t.vfs).map fun result =>
          (result.1, (vfsRead bareHeap nameA (some fun _ => 0) 1 t.vfs).map Prod.fst,
            (vfsRead bareHeap nameA (some fun _ => 0) 1 result.2).map Prod.fst)) =
      some (0, some 1, some 0) := by
    decide +kernel
  obtain ⟨t, run, rest⟩ := Option.bind_eq_some_iff.mp runs
  obtain ⟨⟨answer, v'⟩, call, same⟩ := Option.map_eq_some_iff.mp rest
  obtain ⟨rfl, reads⟩ := Prod.mk.inj same
  obtain ⟨before, after⟩ := Prod.mk.inj reads
  exact ⟨t, v', run, call, before, after⟩

/-! ## Created files -/

/-- **A created file can be written and read exactly if its name is shorter than `MAX_NAME`**, at
any time before the next `vfs_init` at which the heap can supply the data. And in every state of
every run, writing to a name never changes what another name reads as. -/
theorem created_found_iff {start size : Word} (low : 16 ≤ start.toNat)
    (room : 12 < size.toNat) (fits : start.toNat + size.toNat < 2 ^ 32) (mem : Mem)
    {calls : List KernelCall} (small : ∀ call ∈ calls, call.Small) {t : KernelState}
    (run : kernelRun calls (KernelState.boot start size mem) = some t) :
    (∀ (name : Terminated) (v : Vfs (HeapBounds × Mem)) (rest : List KernelCall)
        (t' : KernelState) (data : Bytes) (count : Word),
      vfsCreate bareHeap name t.vfs = some (1, v) → (∀ call ∈ rest, call.Small) →
      KernelCall.init ∉ rest → kernelRun rest { t with vfs := v } = some t' →
      count ≠ 0 → count.toNat ≤ 2 ^ 32 - 4 → Supplies name count t'.vfs →
        ((∃ v', vfsWrite bareHeap name data count t'.vfs = some (count, v') ∧
          Reads bareHeap v' name ((List.range count.toNat).map data)) ↔ name.length < maxName)) ∧
    ∀ (name other : Terminated) (data : Bytes) (count answer : Word)
        (v' : Vfs (HeapBounds × Mem)),
      name.chars ≠ other.chars → count.toNat ≤ 2 ^ 32 - 4 →
      vfsWrite bareHeap name data count t.vfs = some (answer, v') →
        ∀ buffer n, vfsRead bareHeap other buffer n v' = vfsRead bareHeap other buffer n t.vfs := by
  obtain ⟨nodes, ⟨lost, held⟩, -⟩ := (KernelState.Holds.boot low room fits mem).run small run
  refine ⟨?_, fun name other data count answer v' differ short call =>
    held.write_elsewhere short call differ⟩
  intro name v rest t' data count created small' never run' nonempty short supplies
  obtain ⟨nodes1, held1, there⟩ := held.created_isSome created
  have holds1 : ({ t with vfs := v } : KernelState).Holds start size nodes1 := ⟨lost, held1⟩
  obtain ⟨nodes2, ⟨lost2, held2⟩, kept⟩ := holds1.run small' run'
  constructor
  · -- what a write goes to is in the list, and so its name is short
    rintro ⟨v', call, -⟩
    rcases held2.write name data short with ⟨-, made⟩ | ⟨w, nodes', q, found, -⟩
    · obtain ⟨zero, -⟩ := Prod.mk.inj (Option.some.inj (made.symm.trans call))
      exact absurd zero.symm nonempty
    · exact held2.length_lt_of_isSome found
  · intro fitting
    have whole : (name.take (maxName - 1)).chars = name.chars :=
      Terminated.chars_take (Nat.le_of_lt_succ fitting)
    rw [whole] at there
    exact held2.write_supplied data short (kept never name.chars there) supplies

theorem created_found_short :
    ∃ v v', vfsCreate bareHeap nameA kernelBoot.vfs = some (1, v) ∧
      vfsWrite bareHeap nameA (fun i => if i = 0 then 5 else 6) 2 v = some (2, v') ∧
      Reads bareHeap v' nameA [5, 6] := by
  have runs : ((vfsCreate bareHeap nameA kernelBoot.vfs).bind fun result =>
      (bareHeap.alloc 2 result.2.heap).map fun given => (result.1, given.1)) =
        some (1, 0x100044) := by
    decide +kernel
  obtain ⟨⟨one, v⟩, created, rest⟩ := Option.bind_eq_some_iff.mp runs
  obtain ⟨⟨p, heap⟩, request, same⟩ := Option.map_eq_some_iff.mp rest
  obtain ⟨rfl, given⟩ := Prod.mk.inj same
  have nonnull : p ≠ 0 := by
    rintro rfl
    exact absurd (show (0 : Word) = 0x100044 from given) (by decide)
  obtain ⟨v', call, reads⟩ := ((created_found_iff (by decide) (by decide) (by decide)
    (fun _ => 0) (fun _ member => absurd member List.not_mem_nil) (rfl : _ = some kernelBoot)).1
      nameA v [] { kernelBoot with vfs := v } (fun i => if i = 0 then 5 else 6) 2 created
      (fun _ member => absurd member List.not_mem_nil) List.not_mem_nil rfl (by decide) (by decide)
      (Or.inl ⟨p, heap, request, nonnull⟩)).mpr (by decide)
  exact ⟨v, v', created, call, reads⟩

/-- A name of 32 characters. -/
def longName : Terminated :=
  ⟨fun i => if i < 32 then 97 else 0, 32, by decide, rfl⟩

/-- The file of a name of 32 characters is created, and no byte can be written to it. -/
theorem long_name_not_found :
    ∃ v v', vfsCreate bareHeap longName kernelBoot.vfs = some (1, v) ∧ Supplies longName 1 v ∧
      vfsWrite bareHeap longName (fun _ => 5) 1 v = some (0, v') := by
  have runs : ((vfsCreate bareHeap longName kernelBoot.vfs).bind fun result =>
      (bareHeap.alloc 1 result.2.heap).bind fun given =>
        (vfsWrite bareHeap longName (fun _ => 5) 1 result.2).map fun written =>
          (result.1, given.1, written.1)) = some (1, 0x100044, 0) := by
    decide +kernel
  obtain ⟨⟨one, v⟩, created, rest⟩ := Option.bind_eq_some_iff.mp runs
  obtain ⟨⟨p, heap⟩, request, rest⟩ := Option.bind_eq_some_iff.mp rest
  obtain ⟨⟨zero, v'⟩, call, same⟩ := Option.map_eq_some_iff.mp rest
  obtain ⟨rfl, others⟩ := Prod.mk.inj same
  obtain ⟨given, rfl⟩ := Prod.mk.inj others
  have nonnull : p ≠ 0 := by
    rintro rfl
    exact absurd (show (0 : Word) = 0x100044 from given) (by decide)
  exact ⟨v, v', created, Or.inl ⟨p, heap, request, nonnull⟩, call⟩

/-! ## Creations -/

/-- **A creation hides data exactly if the name has data and there is memory for a node**, in every
state of every run: `vfs_find` meets the new node before the old one. What other names read is
left alone in any case. -/
theorem creation_keeps_iff {start size : Word} (low : 16 ≤ start.toNat)
    (room : 12 < size.toNat) (fits : start.toNat + size.toNat < 2 ^ 32) (mem : Mem)
    {calls : List KernelCall} (small : ∀ call ∈ calls, call.Small) {t : KernelState}
    (run : kernelRun calls (KernelState.boot start size mem) = some t) {name : Terminated}
    (short : name.length < maxName) :
    ∃ answer v', vfsCreate bareHeap name t.vfs = some (answer, v') ∧
      ((∀ other buffer n,
          vfsRead bareHeap other buffer n v' = vfsRead bareHeap other buffer n t.vfs) ↔
        HoldsNothing name t.vfs ∨ ¬ SuppliesNode t.vfs) ∧
      ∀ other : Terminated, name.chars ≠ other.chars → ∀ buffer n,
        vfsRead bareHeap other buffer n v' = vfsRead bareHeap other buffer n t.vfs := by
  obtain ⟨nodes, ⟨lost, held⟩, -⟩ := (KernelState.Holds.boot low room fits mem).run small run
  obtain ⟨answer, v', nodes', call, held', ⟨none, same⟩ | ⟨given, contents⟩⟩ :=
    held.create_cases short
  · have kept : ∀ other buffer n,
        vfsRead bareHeap other buffer n v' = vfsRead bareHeap other buffer n t.vfs :=
      fun other buffer n => held.read_congr held'
        (congrArg (Option.getD · []) (congrFun same other.chars)) buffer n
    exact ⟨answer, v', call, iff_of_true kept (Or.inr none), fun other _ => kept other⟩
  · have elsewhere : ∀ other : Terminated, name.chars ≠ other.chars → ∀ buffer n,
        vfsRead bareHeap other buffer n v' = vfsRead bareHeap other buffer n t.vfs := by
      intro other differ buffer n
      refine held.read_congr held' ?_ buffer n
      rw [congrFun contents other.chars, Function.update_of_ne (Ne.symm differ)]
    refine ⟨answer, v', call, ?_, elsewhere⟩
    have emptied : contentOf name.chars nodes' = some [] := by
      rw [congrFun contents name.chars, Function.update_self]
    rw [held.holdsNothing_iff, or_iff_left (not_not.mpr given)]
    constructor
    · intro kept
      exact held.empty_of_kept held' (kept name) (by rw [emptied]; rfl)
    · intro empty other buffer n
      by_cases same : name.chars = other.chars
      · refine held.read_congr held' ?_ buffer n
        rw [← same, emptied, empty]
        rfl
      · exact elsewhere other same buffer n

/-- A file without data may be created again. -/
theorem creation_keeps_empty :
    ∃ t answer v', kernelRun [.vfs (.create nameA)] kernelBoot = some t ∧
      vfsCreate bareHeap nameA t.vfs = some (answer, v') ∧
      ∀ other buffer n,
        vfsRead bareHeap other buffer n v' = vfsRead bareHeap other buffer n t.vfs := by
  have runs : ((kernelRun [.vfs (.create nameA)] kernelBoot).bind fun t =>
      (vfsFind bareHeap nameA t.vfs).map fun node =>
        load32 t.vfs.heap.2 (node + VfsNode.size)) = some 0 := by
    decide +kernel
  obtain ⟨t, run, rest⟩ := Option.bind_eq_some_iff.mp runs
  obtain ⟨node, find, empty⟩ := Option.map_eq_some_iff.mp rest
  have small : ∀ call ∈ [KernelCall.vfs (.create nameA)], call.Small := by
    intro other member
    rw [List.mem_singleton.mp member]
    trivial
  obtain ⟨answer, v', call, keeps, -⟩ := creation_keeps_iff (by decide) (by decide) (by decide)
    (fun _ => 0) small run
    (show nameA.length < maxName by decide)
  refine ⟨t, answer, v', run, call, keeps.mpr (Or.inl fun other found _ => ?_)⟩
  rw [find, Option.some.injEq] at found
  exact found ▸ empty

/-- The byte of a file is lost when the file is created again. -/
theorem creation_hides_data :
    ∃ t v', kernelRun [.vfs (.create nameA), .vfs (.write nameA (fun _ => 5) 1)] kernelBoot =
        some t ∧
      vfsCreate bareHeap nameA t.vfs = some (1, v') ∧
      (vfsRead bareHeap nameA (some fun _ => 0) 1 t.vfs).map Prod.fst = some 1 ∧
      (vfsRead bareHeap nameA (some fun _ => 0) 1 v').map Prod.fst = some 0 := by
  have runs : ((kernelRun [.vfs (.create nameA), .vfs (.write nameA (fun _ => 5) 1)]
      kernelBoot).bind fun t =>
        (vfsCreate bareHeap nameA t.vfs).map fun result =>
          (result.1, (vfsRead bareHeap nameA (some fun _ => 0) 1 t.vfs).map Prod.fst,
            (vfsRead bareHeap nameA (some fun _ => 0) 1 result.2).map Prod.fst)) =
      some (1, some 1, some 0) := by
    decide +kernel
  obtain ⟨t, run, rest⟩ := Option.bind_eq_some_iff.mp runs
  obtain ⟨⟨answer, v'⟩, call, same⟩ := Option.map_eq_some_iff.mp rest
  obtain ⟨rfl, reads⟩ := Prod.mk.inj same
  obtain ⟨before, after⟩ := Prod.mk.inj reads
  exact ⟨t, v', run, call, before, after⟩

end CocosOS.Filesystem
