import CocosOS.Filesystem.Vfs
import CocosOS.Library.LinkedList
import CocosOS.Library.WordArithmetic

/-!
# The files in memory

`Holds` says of a state which nodes are in the list and what is in them, and that the heap has
handed out the nodes and their data and nothing else. Every function keeps it. `vfs_find` finds the
first node with the name (`vfsFind_eq`), `vfs_create` puts a node without data in front
(`vfsCreate_spec`), `vfs_write` gives the first node with the name new data (`vfsWrite_spec`),
and `vfs_read` copies from the data of that node (`vfsRead_eq`).
-/

set_option autoImplicit false

namespace CocosOS.Filesystem

open Library.ByteMemory Library.CString Library.LinkedList Library.WordArithmetic

/-! ## Nodes -/

/-- The block of a node. -/
def nodeBlock (addr : Word) : Extent := ⟨addr, VfsNode.sizeof.toNat⟩

/-- A node of the list: where it is, its name, where its data is, and the data. -/
structure FileNode where
  addr : Word
  name : Terminated
  data : Word
  content : List Byte

namespace FileNode

/-- The block of the data, if there is one. -/
def dataBlocks (node : FileNode) : List Extent :=
  if node.data = 0 then [] else [⟨node.data, node.content.length⟩]

def blocks (node : FileNode) : List Extent := nodeBlock node.addr :: node.dataBlocks

theorem blocks_of_null {node : FileNode} (null : node.data = 0) :
    node.blocks = [nodeBlock node.addr] := by
  rw [blocks, dataBlocks, if_pos null]

theorem blocks_of_ne {node : FileNode} (nonnull : node.data ≠ 0) :
    node.blocks = [nodeBlock node.addr, ⟨node.data, node.content.length⟩] := by
  rw [blocks, dataBlocks, if_neg nonnull]

/-- What is in memory where the node is. -/
structure At (m : Mem) (node : FileNode) : Prop where
  short : node.name.length < maxName
  name : ∀ i ≤ node.name.length, m (node.addr + BitVec.ofNat 32 i) = node.name.bytes i
  size : (load32 m (node.addr + VfsNode.size)).toNat = node.content.length
  data : load32 m (node.addr + VfsNode.data) = node.data
  empty : node.data = 0 → node.content = []
  content : ∀ i, (inside : i < node.content.length) →
    m (node.data + BitVec.ofNat 32 i) = node.content[i]

/-- A node depends only on its blocks. -/
theorem At.congr {m m' : Mem} {node : FileNode} (here : At m node)
    (fits : ∀ b ∈ node.blocks, b.Fits) (same : ∀ b ∈ node.blocks, b.SameOn m m') :
    At m' node := by
  have fit : node.addr.toNat + 44 ≤ 2 ^ 32 := fits _ List.mem_cons_self
  have kept : SameOn node.addr 44 m m' := same _ List.mem_cons_self
  have short := here.short
  unfold maxName at short
  refine ⟨here.short, fun i inside => ?_, ?_, ?_, here.empty, fun i inside => ?_⟩
  · rw [kept _ (covers_add fit (by omega)), here.name i inside]
  · rw [load32_add_congr fit kept (by decide), here.size]
  · rw [load32_add_congr fit kept (by decide), here.data]
  · have nonnull : node.data ≠ 0 := by
      intro null
      rw [here.empty null] at inside
      exact absurd inside (Nat.not_lt_zero i)
    have member : ⟨node.data, node.content.length⟩ ∈ node.blocks := by
      rw [blocks_of_ne nonnull]
      exact List.mem_cons_of_mem _ List.mem_cons_self
    have covered := covers_add (fits _ member) inside
    rw [same _ member _ covered, here.content i inside]

end FileNode

/-- The link of a node in memory. -/
def nextIn (m : Mem) (node : Word) : Word := load32 m (node + VfsNode.next)

/-- The first node with a name. -/
def lookup (name : List Byte) (nodes : List FileNode) : Option FileNode :=
  nodes.find? fun node => node.name.chars = name

/-- The content of the first node with the name. -/
def contentOf (name : List Byte) (nodes : List FileNode) : Option (List Byte) :=
  (lookup name nodes).map FileNode.content

/-- The list holds the nodes, and the heap has handed out what belongs to them. -/
structure Holds {σ : Type} (H : OwnedHeap σ) (v : Vfs σ) (nodes : List FileNode) : Prop where
  linked : Segment (nextIn (H.bytes v.heap)) v.root (nodes.map FileNode.addr) 0
  here : ∀ node ∈ nodes, node.At (H.bytes v.heap)
  owns : H.Owns (nodes.flatMap FileNode.blocks) v.heap

/-- Nodes and links depend only on the blocks of the nodes. -/
theorem nodes_congr {m m' : Mem} {nodes : List FileNode}
    (fits : ∀ b ∈ nodes.flatMap FileNode.blocks, b.Fits)
    (same : ∀ b ∈ nodes.flatMap FileNode.blocks, b.SameOn m m')
    (here : ∀ node ∈ nodes, node.At m) :
    (∀ node ∈ nodes, node.At m') ∧
      ∀ addr ∈ nodes.map FileNode.addr, nextIn m' addr = nextIn m addr := by
  have part : ∀ node ∈ nodes, ∀ b ∈ node.blocks, b ∈ nodes.flatMap FileNode.blocks :=
    fun node member b inside => List.mem_flatMap.mpr ⟨node, member, inside⟩
  constructor
  · intro node member
    exact (here node member).congr (fun b inside => fits b (part node member b inside))
      fun b inside => same b (part node member b inside)
  · intro addr inside
    obtain ⟨node, member, rfl⟩ := List.mem_map.mp inside
    have first := part node member _ List.mem_cons_self
    exact load32_add_congr (fits _ first) (same _ first) (Nat.le_refl 44)

namespace Holds

variable {σ : Type} {H : OwnedHeap σ} {v : Vfs σ} {nodes : List FileNode}
  (holds : Holds H v nodes)
include holds

omit holds in
theorem block_mem {node : FileNode} (member : node ∈ nodes) :
    nodeBlock node.addr ∈ nodes.flatMap FileNode.blocks :=
  List.mem_flatMap.mpr ⟨node, member, List.mem_cons_self⟩

theorem nonnull : (0 : Word) ∉ nodes.map FileNode.addr := by
  intro member
  obtain ⟨node, inside, null⟩ := List.mem_map.mp member
  exact H.nonnull holds.owns _ (block_mem inside) null

theorem length_lt : nodes.length < 2 ^ 32 := by
  rw [← List.length_map FileNode.addr]
  exact length_lt_of_nodup (holds.linked.nodup holds.nonnull) holds.nonnull

end Holds

/-! ## Stores into a node -/

section Stores

variable {addr : Word} (fit : addr.toNat + 44 ≤ 2 ^ 32)
include fit

/-- A field is read behind a store into another field. -/
theorem load_storeField {m : Mem} {offset other value : Word} (inside : offset.toNat + 4 ≤ 44)
    (inside' : other.toNat + 4 ≤ 44)
    (apart : offset.toNat + 4 ≤ other.toNat ∨ other.toNat + 4 ≤ offset.toNat) :
    load32 (store32 m (addr + offset) value) (addr + other) = load32 m (addr + other) := by
  have place := toNat_add_of_fits fit (i := offset) (by omega)
  have place' := toNat_add_of_fits fit (i := other) (by omega)
  exact load32_store32_of_apart (by omega) (by omega) (by omega)

/-- The name is read behind a store into a field. -/
theorem name_storeField {m : Mem} {offset value : Word} {i : ℕ} (inside : offset.toNat + 4 ≤ 44)
    (below : i < offset.toNat) :
    store32 m (addr + offset) value (addr + BitVec.ofNat 32 i) = m (addr + BitVec.ofNat 32 i) := by
  have place := toNat_add_of_fits fit (i := offset) (by omega)
  have place' := toNat_add_ofNat fit (i := i) (by omega)
  exact store32_apply_of_not_covers (by omega) (not_covers_iff.mpr (by omega))

/-- What `vfs_create` stores is a node without data in front of the list. -/
theorem at_created {m m' : Mem} {name : Terminated} {root : Word}
    (made : m' = store32 (store32 (store32 (store8
        (copyBytes m addr name.bytes 0 (name.take (maxName - 1)).length)
        (addr + BitVec.ofNat 32 (name.take (maxName - 1)).length) 0)
        (addr + VfsNode.size) 0) (addr + VfsNode.data) 0) (addr + VfsNode.next) root) :
    FileNode.At m' ⟨addr, name.take (maxName - 1), 0, []⟩ ∧ nextIn m' addr = root ∧
      ∀ x, ¬ Covers addr 44 x → m' x = m x := by
  have short : (name.take (maxName - 1)).length ≤ 31 := Nat.min_le_left _ _
  have place := toNat_add_ofNat fit (i := (name.take (maxName - 1)).length) (by omega)
  refine ⟨⟨Nat.lt_succ_of_le short, fun i inside => ?_, ?_, ?_, fun _ => rfl,
    fun i inside => absurd inside (Nat.not_lt_zero i)⟩, ?_, fun x outside => ?_⟩
  · have below : i < 32 := by
      dsimp only at inside
      omega
    have place' := toNat_add_ofNat fit (i := i) (by omega)
    rw [made, name_storeField fit (by decide) (Nat.lt_trans below (by decide)),
      name_storeField fit (by decide) (Nat.lt_trans below (by decide)),
      name_storeField fit (by decide) below]
    rcases Nat.lt_or_eq_of_le inside with (less : i < (name.take (maxName - 1)).length) | last
    · have differ : addr + BitVec.ofNat 32 i ≠
          addr + BitVec.ofNat 32 (name.take (maxName - 1)).length := by
        intro same
        rw [same] at place'
        omega
      rw [store8_apply_of_ne differ, copyBytes_add (by omega) _ _ (Nat.zero_le i) less,
        Terminated.take_bytes_of_lt (Nat.lt_of_lt_of_le less (Nat.min_le_left _ _))]
    · rw [last, store8_apply_self, Terminated.terminator]
  · rw [made, load_storeField fit (by decide) (by decide) (by decide),
      load_storeField fit (by decide) (by decide) (by decide), load32_store32]
    rfl
  · rw [made, load_storeField fit (by decide) (by decide) (by decide), load32_store32]
  · rw [made, nextIn, load32_store32]
  · have apart : x ≠ addr + BitVec.ofNat 32 (name.take (maxName - 1)).length := by
      rintro rfl
      exact outside (covers_add fit (by omega))
    rw [made, store32_add_apply fit (by decide) outside, store32_add_apply fit (by decide) outside,
      store32_add_apply fit (by decide) outside, store8_apply_of_ne apart]
    refine copyBytes_of_not_covers fun inside => outside ⟨inside.1, ?_⟩
    exact Nat.lt_of_lt_of_le inside.2 (by omega)

/-- What `vfs_write` stores is the node with new data. -/
theorem at_written {m m' : Mem} {name : Terminated} {p count : Word} {data : Bytes}
    (short : name.length < maxName)
    (named : ∀ i ≤ name.length, m (addr + BitVec.ofNat 32 i) = name.bytes i)
    (room : p.toNat + count.toNat ≤ 2 ^ 32) (apart : Apart addr 44 p count.toNat)
    (null : p = 0 → count = 0)
    (made : m' = store32 (copyBytes (store32 m (addr + VfsNode.data) p) p data 0 count.toNat)
      (addr + VfsNode.size) count) :
    FileNode.At m' ⟨addr, name, p, (List.range count.toNat).map data⟩ ∧
      nextIn m' addr = nextIn m addr ∧
      ∀ x, ¬ Covers addr 44 x → ¬ Covers p count.toNat x → m' x = m x := by
  unfold maxName at short
  -- the copy reaches no byte of the node
  have kept : SameOn addr 44 (store32 m (addr + VfsNode.data) p)
      (copyBytes (store32 m (addr + VfsNode.data) p) p data 0 count.toNat) :=
    fun x inside => copyBytes_of_not_covers (apart x inside)
  refine ⟨⟨short, fun i inside => ?_, ?_, ?_, fun zero => ?_, fun i inside => ?_⟩, ?_,
    fun x outside outside' => ?_⟩
  · have below : i < 32 := Nat.lt_of_le_of_lt inside short
    rw [made, name_storeField fit (by decide) below, kept _ (covers_add fit (by omega)),
      name_storeField fit (by decide) (Nat.lt_trans below (by decide)), named i inside]
  · rw [made, load32_store32, List.length_map, List.length_range]
  · rw [made, load_storeField fit (by decide) (by decide) (by decide),
      load32_add_congr fit kept (by decide), load32_store32]
  · rw [null zero]
    rfl
  · have bound : i < count.toNat := by simpa using inside
    rw [made, store32_add_apply fit (by decide) fun covered =>
        apart _ covered (covers_add room bound), copyBytes_add room _ _ (Nat.zero_le i) bound]
    simp
  · rw [nextIn, nextIn, made, load_storeField fit (by decide) (by decide) (by decide),
      load32_add_congr fit kept (by decide),
      load_storeField fit (by decide) (by decide) (by decide)]
  · rw [made, store32_add_apply fit (by decide) outside, copyBytes_of_not_covers outside',
      store32_add_apply fit (by decide) outside]

end Stores

section Fields

variable {σ : Type} {H : OwnedHeap σ} {s : σ} {blocks : List Extent} {addr : Word}
  (owns : H.Owns blocks s) (member : nodeBlock addr ∈ blocks)
include owns member

theorem nodeBlock_fits : addr.toNat + 44 ≤ 2 ^ 32 := H.fits owns _ member

/-- A field of a node is read. -/
theorem loadField (offset : Word) (inside : offset.toNat + 4 ≤ 44) :
    H.load32 (addr + offset) s = some (load32 (H.bytes s) (addr + offset)) :=
  OwnedHeap.load32_eq owns member inside

/-- A field of a node is stored. -/
theorem storeField (offset : Word) (inside : offset.toNat + 4 ≤ 44) (value : Word) :
    ∃ s', H.store32 (addr + offset) value s = some s' ∧ H.Owns blocks s' ∧
      H.bytes s' = store32 (H.bytes s) (addr + offset) value :=
  OwnedHeap.store32_spec owns member inside value

end Fields

/-! ## `vfs_find` -/

section Find

variable {σ : Type} {H : OwnedHeap σ} {s : σ} {blocks : List Extent}

/-- The inner loop stops where the name ends or differs from the name of the node. -/
theorem matchLoop_spec (owns : H.Owns blocks s) {node : FileNode}
    (member : nodeBlock node.addr ∈ blocks) (here : node.At (H.bytes s)) (name : Terminated) :
    ∀ (rounds i : ℕ), i ≤ node.name.length → name.length < i + rounds →
      (∀ j < i, name.bytes j = node.name.bytes j) →
      ∃ stop ≤ node.name.length,
        matchLoop H.toHeapCalls name.bytes node.addr s rounds i = some stop ∧
        (∀ j < stop, name.bytes j = node.name.bytes j) ∧
        (name.bytes stop = 0 ∨ node.name.bytes stop = 0 ∨
          name.bytes stop ≠ node.name.bytes stop)
  | 0, i, short, enough, same => by
      -- the name has ended before
      refine absurd ((same _ enough).symm.trans name.terminator) (node.name.nonzero _ ?_)
      exact Nat.lt_of_lt_of_le enough short
  | rounds + 1, i, short, enough, same => by
      have fit := nodeBlock_fits owns member
      have bound := here.short
      unfold maxName at bound
      have char := H.load owns _ member (covers_add fit (i := i) (by omega))
      rw [here.name i short] at char
      by_cases ended : name.bytes i = 0
      · exact ⟨i, short, by rw [matchLoop, if_pos ended], same, Or.inl ended⟩
      · by_cases equal : node.name.bytes i ≠ 0 ∧ name.bytes i = node.name.bytes i
        · have inside : i < node.name.length := by
            refine Nat.lt_of_le_of_ne short fun last => equal.1 ?_
            rw [last]
            exact node.name.terminator
          obtain ⟨stop, small, answer, before, stopped⟩ := matchLoop_spec owns member here name
            rounds (i + 1) inside (by omega) fun j earlier => by
              rcases Nat.lt_or_eq_of_le (Nat.le_of_lt_succ earlier) with less | rfl
              · exact same j less
              · exact equal.2
          refine ⟨stop, small, ?_, before, stopped⟩
          rw [matchLoop, if_neg ended, char]
          exact (if_pos equal).trans answer
        · refine ⟨i, short, ?_, same, ?_⟩
          · rw [matchLoop, if_neg ended, char]
            exact if_neg equal
          · rw [not_and_or, not_not] at equal
            exact Or.inr equal

/-- **The body of the outer loop compares the names.** -/
theorem nameMatches_eq (owns : H.Owns blocks s) {node : FileNode}
    (member : nodeBlock node.addr ∈ blocks) (here : node.At (H.bytes s)) (name : Terminated) :
    nameMatches H.toHeapCalls name node.addr s =
      some (decide (node.name.chars = name.chars)) := by
  obtain ⟨stop, short, answer, before, stopped⟩ := matchLoop_spec owns member here name
    (name.length + 1) 0 (Nat.zero_le _) (by omega) fun j less => absurd less (Nat.not_lt_zero j)
  have fit := nodeBlock_fits owns member
  have bound := here.short
  unfold maxName at bound
  have char := H.load owns _ member (covers_add fit (i := stop) (by omega))
  rw [here.name stop short] at char
  simp only [nameMatches, answer, char, Option.bind_eq_bind, Option.bind_some]
  split_ifs with ended
  · refine congrArg some (decide_eq_decide.mpr ?_)
    rw [eq_comm (a := node.name.chars), Terminated.chars_eq_iff]
    constructor
    · intro zero index inside
      have last : stop = node.name.length := by
        by_contra early
        exact node.name.nonzero stop (Nat.lt_of_le_of_ne short early) zero
      rcases Nat.lt_or_eq_of_le inside with less | rfl
      · exact before index (last ▸ less)
      · rw [← last, ended, zero]
    · intro same
      rw [← same stop short, ended]
  · refine congrArg some (decide_eq_false fun same => ?_).symm
    have equal := (Terminated.chars_eq_iff name node.name).mp same.symm stop short
    rcases stopped with zero | zero | differ
    · exact ended zero
    · exact ended (equal.trans zero)
    · exact differ equal

/-- The outer loop ends at the first node with the name, or at the end of the list. -/
theorem findLoop_eq (owns : H.Owns blocks s) (name : Terminated) :
    ∀ {nodes : List FileNode} {rounds : ℕ} {first : Word},
      Segment (nextIn (H.bytes s)) first (nodes.map FileNode.addr) 0 →
      (∀ node ∈ nodes, node.At (H.bytes s) ∧ nodeBlock node.addr ∈ blocks) → nodes.length < rounds →
      findLoop H.toHeapCalls name s rounds first =
        some (((lookup name.chars nodes).map FileNode.addr).getD 0)
  | [], rounds + 1, first, linked, _, _ => by
      have null : first = 0 := linked
      rw [findLoop, if_neg (not_not.mpr null)]
      rfl
  | node :: nodes, rounds + 1, first, linked, here, enough => by
      obtain ⟨rfl, rest⟩ := linked
      obtain ⟨present, member⟩ := here node List.mem_cons_self
      have link := loadField owns member VfsNode.next (Nat.le_refl 44)
      have nonnull : node.addr ≠ 0 := H.nonnull owns _ member
      rw [findLoop, if_pos nonnull, nameMatches_eq owns member present, lookup]
      by_cases same : node.name.chars = name.chars
      · simp [same]
      · have later := findLoop_eq owns name rest
          (fun other inside => here other (List.mem_cons_of_mem _ inside))
          (Nat.lt_of_succ_lt_succ enough)
        rw [List.find?_cons_of_neg (by simpa using same)]
        simp only [same, decide_false, link, Option.bind_eq_bind, Option.bind_some]
        exact later

end Find

/-- **`vfs_find` finds the first node with the name.** -/
theorem vfsFind_eq {σ : Type} {H : OwnedHeap σ} {v : Vfs σ} {nodes : List FileNode}
    (holds : Holds H v nodes) (name : Terminated) :
    vfsFind H.toHeapCalls name v =
      some (((lookup name.chars nodes).map FileNode.addr).getD 0) :=
  findLoop_eq holds.owns name holds.linked
    (fun node member => ⟨holds.here node member, Holds.block_mem member⟩) holds.length_lt

/-! ## `vfs_create` -/

section Create

variable {σ : Type} {H : OwnedHeap σ} {blocks : List Extent} {addr : Word}

/-- The loop copies the name, 31 characters at most. -/
theorem nameLoop_spec (member : nodeBlock addr ∈ blocks) (name : Terminated) :
    ∀ (rounds i : ℕ) {s : σ}, H.Owns blocks s → i + rounds = maxName - 1 → i ≤ name.length →
      ∃ s', nameLoop H.toHeapCalls name.bytes addr rounds i s =
          some ((name.take (maxName - 1)).length, s') ∧ H.Owns blocks s' ∧
        H.bytes s' = copyBytes (H.bytes s) addr name.bytes i (name.take (maxName - 1)).length
  | 0, i, s, owns, full, short => by
      have stop : (name.take (maxName - 1)).length = i := by
        rw [Terminated.length_take, ← full, Nat.add_zero, Nat.min_eq_left short]
      rw [stop, copyBytes_self]
      exact ⟨s, rfl, owns, rfl⟩
  | rounds + 1, i, s, owns, full, short => by
      by_cases ended : name.bytes i = 0
      · have last : i = name.length := by
          by_contra early
          exact name.nonzero i (Nat.lt_of_le_of_ne short early) ended
        have stop : (name.take (maxName - 1)).length = i := by
          rw [Terminated.length_take, ← last]
          exact Nat.min_eq_right (by omega)
        rw [stop, copyBytes_self]
        exact ⟨s, if_neg (not_not.mpr ended), owns, rfl⟩
      · have less : i < name.length := by
          refine Nat.lt_of_le_of_ne short fun last => ended ?_
          rw [last]
          exact name.terminator
        have bound : (name.take (maxName - 1)).length ≤ 44 :=
          (Nat.min_le_left _ _).trans (by decide)
        have inside : i < (name.take (maxName - 1)).length := by
          rw [Terminated.length_take]
          omega
        have fit := nodeBlock_fits owns member
        obtain ⟨s1, stored, owns1, bytes1⟩ :=
          H.store owns _ member (covers_add fit (i := i) (by omega)) (name.bytes i)
        obtain ⟨s', answer, owns', bytes'⟩ := nameLoop_spec member name rounds (i + 1)
          owns1 (by omega) less
        refine ⟨s', ?_, owns', ?_⟩
        · rw [nameLoop, if_pos ended, stored]
          exact answer
        · rw [bytes', bytes1, copyBytes_step (by omega) _ _ inside]

/-- **`vfs_create` puts a node without data in front**, unless there is no room for it. -/
theorem vfsCreate_spec {v : Vfs σ} {nodes : List FileNode} (holds : Holds H v nodes)
    (name : Terminated) {p : Word} {s : σ}
    (call : H.alloc VfsNode.sizeof v.heap = some (p, s)) :
    (p = 0 ∧ vfsCreate H.toHeapCalls name v = some (0, { v with heap := s }) ∧
        Holds H { v with heap := s } nodes) ∨
      ∃ s', vfsCreate H.toHeapCalls name v = some (1, ⟨p, s'⟩) ∧
        Holds H ⟨p, s'⟩ (⟨p, name.take (maxName - 1), 0, []⟩ :: nodes) := by
  obtain ⟨owns, kept⟩ := H.fresh holds.owns call
  have fits := H.fits holds.owns
  by_cases null : p = 0
  · left
    rw [if_pos null] at owns
    obtain ⟨here, links⟩ := nodes_congr fits kept holds.here
    refine ⟨null, ?_, holds.linked.congr links, here, owns⟩
    simp only [vfsCreate, call, Option.bind_eq_bind, Option.bind_some, if_pos null]
    rfl
  · right
    rw [if_neg null] at owns
    have member : nodeBlock p ∈ nodeBlock p :: nodes.flatMap FileNode.blocks :=
      List.mem_cons_self
    have fit : p.toNat + 44 ≤ 2 ^ 32 := nodeBlock_fits owns member
    have short : (name.take (maxName - 1)).length ≤ 31 := Nat.min_le_left _ _
    obtain ⟨s1, loop, owns1, bytes1⟩ := nameLoop_spec member name (maxName - 1) 0 owns
      (Nat.zero_add _) (Nat.zero_le _)
    obtain ⟨s2, ended, owns2, bytes2⟩ := H.store owns1 _ member
      (covers_add fit (i := (name.take (maxName - 1)).length) (by omega)) 0
    obtain ⟨s3, size, owns3, bytes3⟩ := storeField owns2 member VfsNode.size
      (by decide) 0
    obtain ⟨s4, data, owns4, bytes4⟩ := storeField owns3 member VfsNode.data
      (by decide) 0
    obtain ⟨s5, next, owns5, bytes5⟩ := storeField owns4 member VfsNode.next
      (by decide) v.root
    rw [bytes4, bytes3, bytes2, bytes1] at bytes5
    obtain ⟨created, link, frame⟩ := at_created fit bytes5
    have apart := (List.pairwise_cons.mp (H.apart owns)).1
    have same : ∀ b ∈ nodes.flatMap FileNode.blocks, b.SameOn (H.bytes v.heap) (H.bytes s5) :=
      fun b inside => (kept b inside).trans ((apart b inside).sameOn frame)
    obtain ⟨here, links⟩ := nodes_congr fits same holds.here
    refine ⟨s5, ?_, ⟨rfl, ?_⟩, ?_, owns5⟩
    · simp only [vfsCreate, call, loop, ended, size, data, next, Option.bind_eq_bind,
        Option.bind_some, if_neg null]
      rfl
    · rw [link]
      exact holds.linked.congr links
    · intro node inside
      rcases List.mem_cons.mp inside with rfl | old
      · exact created
      · exact here node old

end Create

/-! ## `vfs_write` -/

section Write

variable {σ : Type} {H : OwnedHeap σ}

/-- The old data is released. -/
theorem releaseData_spec {node : FileNode} {rest : List Extent} {s : σ}
    (owns : H.Owns (node.blocks ++ rest) s) (here : node.At (H.bytes s)) :
    ∃ s', releaseData H.toHeapCalls node.addr s = some s' ∧
      H.Owns (nodeBlock node.addr :: rest) s' ∧
      ∀ b ∈ nodeBlock node.addr :: rest, b.SameOn (H.bytes s) (H.bytes s') := by
  have data := loadField owns (List.mem_cons_self (a := nodeBlock node.addr))
    VfsNode.data (by decide)
  rw [here.data] at data
  simp only [releaseData, data, Option.bind_eq_bind, Option.bind_some]
  by_cases null : node.data = 0
  · rw [FileNode.blocks_of_null null] at owns
    exact ⟨s, if_neg (not_not.mpr null), owns, fun _ _ _ _ => rfl⟩
  · rw [FileNode.blocks_of_ne null] at owns
    obtain ⟨s', released, owns', same⟩ := H.release (H.perm owns (List.Perm.swap _ _ rest))
    exact ⟨s', (if_pos null).trans released, owns', same⟩

/-- The loop copies the data. -/
theorem writeLoop_spec {addr p : Word} {n : ℕ} {blocks : List Extent}
    (member : nodeBlock addr ∈ blocks) (target : ⟨p, n⟩ ∈ blocks) (apart : Apart addr 44 p n)
    (data : Bytes) :
    ∀ (rounds i : ℕ) {s : σ}, H.Owns blocks s →
      load32 (H.bytes s) (addr + VfsNode.data) = p → i + rounds = n →
      ∃ s', writeLoop H.toHeapCalls addr data rounds i s = some s' ∧ H.Owns blocks s' ∧
        H.bytes s' = copyBytes (H.bytes s) p data i n
  | 0, i, s, owns, _, full => by
      rw [← full, Nat.add_zero, copyBytes_self]
      exact ⟨s, rfl, owns, rfl⟩
  | rounds + 1, i, s, owns, pointer, full => by
      have fit := nodeBlock_fits owns member
      have room : p.toNat + n ≤ 2 ^ 32 := H.fits owns _ target
      have inside : i < n := by omega
      have dst := loadField owns member VfsNode.data (by decide)
      rw [pointer] at dst
      obtain ⟨s1, stored, owns1, bytes1⟩ :=
        H.store owns _ target (covers_add room inside) (data i)
      have pointer1 : load32 (H.bytes s1) (addr + VfsNode.data) = p := by
        have kept : SameOn addr 44 (H.bytes s) (H.bytes s1) := by
          rw [bytes1]
          exact sameOn_store8 fun covered => apart _ covered (covers_add room inside)
        rw [load32_add_congr fit kept (by decide), pointer]
      obtain ⟨s', answer, owns', bytes'⟩ := writeLoop_spec member target apart data
        rounds (i + 1) owns1 pointer1 (by omega)
      refine ⟨s', ?_, owns', ?_⟩
      · simp only [writeLoop, dst, stored, Option.bind_eq_bind, Option.bind_some]
        exact answer
      · rw [bytes', bytes1, copyBytes_step room _ _ inside]

/-- A node with new data, or without data if there is no room for it. -/
def FileNode.rewrite (node : FileNode) (p size : Word) (data : Bytes) : FileNode :=
  { node with
    data := p
    content := if p = 0 then [] else (List.range size.toNat).map data }

/-- Without a new block, the node is left without data. -/
theorem storeData_null {node : FileNode} {rest : List Extent} {s s1 : σ} {size : Word}
    (owns : H.Owns (nodeBlock node.addr :: rest) s1) (short : node.name.length < maxName)
    (named : ∀ i ≤ node.name.length,
      H.bytes s1 (node.addr + BitVec.ofNat 32 i) = node.name.bytes i)
    (data : Bytes) (call : H.alloc size s = some (0, s1)) :
    ∃ s', storeData H.toHeapCalls node.addr data size s = some (0, s') ∧
      H.Owns ((node.rewrite 0 size data).blocks ++ rest) s' ∧
      (node.rewrite 0 size data).At (H.bytes s') ∧
      nextIn (H.bytes s') node.addr = nextIn (H.bytes s1) node.addr ∧
      ∀ b ∈ rest, b.SameOn (H.bytes s1) (H.bytes s') := by
  have member : nodeBlock node.addr ∈ nodeBlock node.addr :: rest := List.mem_cons_self
  have fit := nodeBlock_fits owns member
  obtain ⟨s2, stored, owns2, bytes2⟩ := storeField owns member VfsNode.data (by decide) 0
  have dst := loadField owns2 member VfsNode.data (by decide)
  rw [bytes2, load32_store32] at dst
  obtain ⟨s3, sized, owns3, bytes3⟩ := storeField owns2 member VfsNode.size (by decide) 0
  have made : H.bytes s3 = store32 (copyBytes (store32 (H.bytes s1) (node.addr + VfsNode.data) 0)
      0 data 0 (0 : Word).toNat) (node.addr + VfsNode.size) 0 := by
    rw [bytes3, bytes2]
    exact congrArg (store32 · _ 0) (copyBytes_self ..).symm
  have nowhere : ∀ x, ¬ Covers 0 (0 : Word).toNat x :=
    fun x inside => Nat.not_lt_of_le inside.1 inside.2
  obtain ⟨written, link, frame⟩ := at_written fit short named (by decide)
    (fun x _ => nowhere x) (fun _ => rfl) made
  have apart := (List.pairwise_cons.mp (H.apart owns)).1
  refine ⟨s3, ?_, ?_, ?_, link, fun b inside => (apart b inside).sameOn ?_⟩
  · simp only [storeData, call, stored, dst, sized, Option.bind_eq_bind, Option.bind_some,
      if_true]
    rfl
  · have blocks : (node.rewrite 0 size data).blocks = [nodeBlock node.addr] :=
      FileNode.blocks_of_null rfl
    rw [blocks]
    exact owns3
  · rw [FileNode.rewrite, if_pos rfl]
    exact written
  · exact fun x outside => frame x outside (nowhere x)

/-- A new block becomes the data of the node. -/
theorem storeData_block {node : FileNode} {rest : List Extent} {s s1 : σ} {size p : Word}
    (nonnull : p ≠ 0) (owns : H.Owns (⟨p, size.toNat⟩ :: nodeBlock node.addr :: rest) s1)
    (short : node.name.length < maxName)
    (named : ∀ i ≤ node.name.length,
      H.bytes s1 (node.addr + BitVec.ofNat 32 i) = node.name.bytes i)
    (data : Bytes) (call : H.alloc size s = some (p, s1)) :
    ∃ s', storeData H.toHeapCalls node.addr data size s = some (size, s') ∧
      H.Owns ((node.rewrite p size data).blocks ++ rest) s' ∧
      (node.rewrite p size data).At (H.bytes s') ∧
      nextIn (H.bytes s') node.addr = nextIn (H.bytes s1) node.addr ∧
      ∀ b ∈ rest, b.SameOn (H.bytes s1) (H.bytes s') := by
  have member : nodeBlock node.addr ∈ ⟨p, size.toNat⟩ :: nodeBlock node.addr :: rest :=
    List.mem_cons_of_mem _ List.mem_cons_self
  have target : ⟨p, size.toNat⟩ ∈ (⟨p, size.toNat⟩ : Extent) :: nodeBlock node.addr :: rest :=
    List.mem_cons_self
  have fit := nodeBlock_fits owns member
  obtain ⟨fresh, others⟩ := List.pairwise_cons.mp (H.apart owns)
  have apart : Apart node.addr 44 p size.toNat := (fresh _ List.mem_cons_self).symm
  have room : p.toNat + size.toNat ≤ 2 ^ 32 := H.fits owns _ target
  obtain ⟨s2, stored, owns2, bytes2⟩ := storeField owns member VfsNode.data (by decide) p
  have dst := loadField owns2 member VfsNode.data (by decide)
  rw [bytes2, load32_store32] at dst
  obtain ⟨s3, loop, owns3, bytes3⟩ := writeLoop_spec member target apart data
    size.toNat 0 owns2 (by rw [bytes2, load32_store32]) (Nat.zero_add size.toNat)
  obtain ⟨s4, sized, owns4, bytes4⟩ := storeField owns3 member VfsNode.size (by decide) size
  rw [bytes3, bytes2] at bytes4
  obtain ⟨written, link, frame⟩ := at_written fit short named room apart
    (fun zero => absurd zero nonnull) bytes4
  refine ⟨s4, ?_, ?_, ?_, link, fun b inside x covered => ?_⟩
  · simp only [storeData, call, stored, dst, loop, sized, Option.bind_eq_bind,
      Option.bind_some, if_neg nonnull]
    rfl
  · have blocks : (node.rewrite p size data).blocks =
        [nodeBlock node.addr, ⟨p, size.toNat⟩] := by
      rw [FileNode.blocks_of_ne nonnull, FileNode.rewrite, if_neg nonnull, List.length_map,
        List.length_range]
    rw [blocks]
    exact H.perm owns4 (List.Perm.swap _ _ rest)
  · rw [FileNode.rewrite, if_neg nonnull]
    exact written
  · exact frame x (fun own => (List.pairwise_cons.mp others).1 b inside x own covered)
      (fun own => fresh b (List.mem_cons_of_mem _ inside) x own covered)

/-- The new data is stored. -/
theorem storeData_spec {node : FileNode} {rest : List Extent} {s s1 : σ} {size p : Word}
    (owns : H.Owns (nodeBlock node.addr :: rest) s) (short : node.name.length < maxName)
    (named : ∀ i ≤ node.name.length,
      H.bytes s (node.addr + BitVec.ofNat 32 i) = node.name.bytes i)
    (data : Bytes) (call : H.alloc size s = some (p, s1)) :
    ∃ s', storeData H.toHeapCalls node.addr data size s =
        some (if p = 0 then 0 else size, s') ∧
      H.Owns ((node.rewrite p size data).blocks ++ rest) s' ∧
      (node.rewrite p size data).At (H.bytes s') ∧
      nextIn (H.bytes s') node.addr = nextIn (H.bytes s) node.addr ∧
      ∀ b ∈ rest, b.SameOn (H.bytes s) (H.bytes s') := by
  obtain ⟨owns1, kept⟩ := H.fresh owns call
  have fit := nodeBlock_fits owns List.mem_cons_self
  have link : nextIn (H.bytes s1) node.addr = nextIn (H.bytes s) node.addr :=
    load32_add_congr fit (kept _ List.mem_cons_self) (Nat.le_refl 44)
  have named1 : ∀ i ≤ node.name.length,
      H.bytes s1 (node.addr + BitVec.ofNat 32 i) = node.name.bytes i := by
    intro i inside
    unfold maxName at short
    rw [kept _ List.mem_cons_self _ (covers_add fit (by omega)), named i inside]
  by_cases null : p = 0
  · subst null
    rw [if_pos rfl] at owns1 ⊢
    obtain ⟨s', stored, owns', written, link', others⟩ :=
      storeData_null owns1 short named1 data call
    exact ⟨s', stored, owns', written, link'.trans link,
      fun b inside => (kept b (List.mem_cons_of_mem _ inside)).trans (others b inside)⟩
  · rw [if_neg null] at owns1 ⊢
    obtain ⟨s', stored, owns', written, link', others⟩ :=
      storeData_block null owns1 short named1 data call
    exact ⟨s', stored, owns', written, link'.trans link,
      fun b inside => (kept b (List.mem_cons_of_mem _ inside)).trans (others b inside)⟩

/-- A node in the middle is taken to the front, with its blocks. -/
theorem blocks_perm (front back : List FileNode) (node : FileNode) :
    ((front ++ node :: back).flatMap FileNode.blocks).Perm
      (node.blocks ++ (front ++ back).flatMap FileNode.blocks) := by
  rw [List.flatMap_append, List.flatMap_cons, List.flatMap_append]
  exact List.perm_append_comm_assoc _ _ _

/-- The nodes are held if one of them has new data and the others are left alone. -/
theorem Holds.rewrite {v : Vfs σ} {front back : List FileNode} {node : FileNode} {p size : Word}
    {data : Bytes} {s' : σ} (holds : Holds H v (front ++ node :: back))
    (owns : H.Owns ((node.rewrite p size data).blocks ++
      (front ++ back).flatMap FileNode.blocks) s')
    (written : (node.rewrite p size data).At (H.bytes s'))
    (own : nextIn (H.bytes s') node.addr = nextIn (H.bytes v.heap) node.addr)
    (rest : ∀ b ∈ (front ++ back).flatMap FileNode.blocks,
      b.SameOn (H.bytes v.heap) (H.bytes s')) :
    Holds H { v with heap := s' } (front ++ node.rewrite p size data :: back) := by
  have before := H.perm holds.owns (blocks_perm front back node)
  obtain ⟨present, links⟩ := nodes_congr
    (fun b member => H.fits before b (List.mem_append_right _ member)) rest
    fun other member => holds.here other (List.perm_middle.mem_iff.mpr
      (List.mem_cons_of_mem node member))
  refine ⟨?_, fun other member => ?_, H.perm owns (blocks_perm front back _).symm⟩
  · have addrs : (front ++ node.rewrite p size data :: back).map FileNode.addr =
        (front ++ node :: back).map FileNode.addr := by
      simp [FileNode.rewrite]
    rw [addrs]
    refine holds.linked.congr fun addr member => ?_
    rw [List.map_append, List.map_cons] at member
    rcases List.mem_cons.mp (List.perm_middle.mem_iff.mp member) with rfl | other
    · exact own
    · exact links addr (by rw [List.map_append]; exact other)
  · rcases List.mem_cons.mp (List.perm_middle.mem_iff.mp member) with rfl | old
    · exact written
    · exact present other old

/-- **`vfs_write` gives the first node with the name new data**, if there is such a node. -/
theorem vfsWrite_spec {v : Vfs σ} {nodes : List FileNode} (holds : Holds H v nodes)
    (name : Terminated) (data : Bytes) (size : Word) :
    (lookup name.chars nodes = none ∧ vfsWrite H.toHeapCalls name data size v = some (0, v)) ∨
      ∃ (front : List FileNode) (node : FileNode) (back : List FileNode) (s : σ),
        nodes = front ++ node :: back ∧ (∀ other ∈ front, other.name.chars ≠ name.chars) ∧
        node.name.chars = name.chars ∧
        (∃ owned, H.Owns owned s) ∧
        (vfsFind H.toHeapCalls name v = some node.addr ∧ node.addr ≠ 0 ∧
          releaseData H.toHeapCalls node.addr v.heap = some s) ∧
        (H.alloc size s = none → vfsWrite H.toHeapCalls name data size v = none) ∧
        ∀ p s1, H.alloc size s = some (p, s1) → ∃ s',
          vfsWrite H.toHeapCalls name data size v =
            some (if p = 0 then 0 else size, { v with heap := s' }) ∧
          Holds H { v with heap := s' } (front ++ node.rewrite p size data :: back) := by
  cases found : lookup name.chars nodes with
  | none =>
      left
      refine ⟨rfl, ?_⟩
      simp only [vfsWrite, vfsFind_eq holds, found, Option.bind_eq_bind, Option.bind_some]
      rfl
  | some node =>
      right
      obtain ⟨same, front, back, rfl, before⟩ := List.find?_eq_some_iff_append.mp found
      have inside : node ∈ front ++ node :: back := by simp
      have here := holds.here node inside
      have owns := H.perm holds.owns (blocks_perm front back node)
      have nonnull : node.addr ≠ 0 := H.nonnull holds.owns _ (Holds.block_mem inside)
      obtain ⟨s, released, owns1, kept⟩ := releaseData_spec owns here
      have fit := nodeBlock_fits owns1 List.mem_cons_self
      have find : vfsFind H.toHeapCalls name v = some node.addr := by
        rw [vfsFind_eq holds, found]
        rfl
      refine ⟨front, node, back, s, rfl, fun other earlier => by simpa using before other earlier,
        by simpa using same, ⟨_, owns1⟩, ⟨find, nonnull, released⟩, fun refused => ?_,
        fun p s1 call => ?_⟩
      · simp only [vfsWrite, find, released, storeData, refused, Option.bind_eq_bind,
          Option.bind_some, if_neg nonnull]
        rfl
      · obtain ⟨s', stored, owns', written, link, others⟩ := storeData_spec owns1 here.short
          (fun i less => by
            have short := here.short
            unfold maxName at short
            rw [kept _ List.mem_cons_self _ (covers_add fit (by omega)), here.name i less])
          data call
        have rest : ∀ b ∈ (front ++ back).flatMap FileNode.blocks,
            b.SameOn (H.bytes v.heap) (H.bytes s') :=
          fun b member => (kept b (List.mem_cons_of_mem _ member)).trans (others b member)
        have own : nextIn (H.bytes s') node.addr = nextIn (H.bytes v.heap) node.addr :=
          link.trans (load32_add_congr fit (kept _ List.mem_cons_self) (Nat.le_refl 44))
        refine ⟨s', ?_, holds.rewrite owns' written own rest⟩
        simp only [vfsWrite, find, released, stored, Option.bind_eq_bind, Option.bind_some,
          if_neg nonnull]
        rfl

end Write

/-! ## `vfs_read` -/

section Read

variable {σ : Type} {H : OwnedHeap σ}

/-- The loop copies from the data of the node. -/
theorem readLoop_spec {node : FileNode} {blocks : List Extent} {s : σ} (owns : H.Owns blocks s)
    (parts : ∀ b ∈ node.blocks, b ∈ blocks) (here : node.At (H.bytes s))
    (nonnull : node.data ≠ 0) :
    ∀ (rounds i : ℕ) (buffer : Bytes), i + rounds ≤ node.content.length →
      ∃ buffer', readLoop H.toHeapCalls node.addr s rounds i buffer = some buffer' ∧
        ∀ j, buffer' j = if i ≤ j ∧ j < i + rounds then node.content.getD j 0 else buffer j
  | 0, i, buffer, _ => ⟨buffer, rfl, fun j => (if_neg (by omega)).symm⟩
  | rounds + 1, i, buffer, bound => by
      rw [FileNode.blocks_of_ne nonnull] at parts
      have member := parts _ List.mem_cons_self
      have target := parts _ (List.mem_cons_of_mem _ List.mem_cons_self)
      have room : node.data.toNat + node.content.length ≤ 2 ^ 32 := H.fits owns _ target
      have src := loadField owns member VfsNode.data (by decide)
      rw [here.data] at src
      have inside : i < node.content.length := by omega
      have byte := H.load owns _ target (covers_add room inside)
      rw [here.content i inside] at byte
      obtain ⟨buffer', answer, result⟩ := readLoop_spec owns (by
        rw [FileNode.blocks_of_ne nonnull]
        exact parts) here nonnull rounds (i + 1)
        (Function.update buffer i node.content[i]) (by omega)
      refine ⟨buffer', ?_, fun j => ?_⟩
      · simp only [readLoop, src, byte, Option.bind_eq_bind, Option.bind_some]
        exact answer
      · rw [result]
        by_cases first : j = i
        · rw [first, if_neg (by omega), if_pos (by omega), Function.update_self,
            List.getD_eq_getElem _ _ inside]
        · rw [Function.update_of_ne first]
          exact if_congr (by omega) rfl rfl

/-- What a read of `count` bytes from the content of a file makes of a buffer. -/
def overwrite (buffer : Bytes) (content : List Byte) (count : ℕ) : Bytes := fun i =>
  if i < count then content.getD i 0 else buffer i

@[simp] theorem overwrite_zero (buffer : Bytes) (content : List Byte) :
    overwrite buffer content 0 = buffer :=
  funext fun i => if_neg (Nat.not_lt_zero i)

variable {v : Vfs σ} {nodes : List FileNode} (holds : Holds H v nodes) (name : Terminated)
  (size : Word)
include holds

/-- **`vfs_read` copies from the content of the first node with the name**, and what it returns is
how much. -/
theorem vfsRead_eq (buffer : Bytes) :
    ∃ answer : Word,
      vfsRead H.toHeapCalls name (some buffer) size v = some (answer,
        some (overwrite buffer ((contentOf name.chars nodes).getD []) answer.toNat)) ∧
      answer.toNat = min size.toNat ((contentOf name.chars nodes).getD []).length := by
  cases found : lookup name.chars nodes with
  | none =>
      refine ⟨0, ?_, ?_⟩
      · simp only [vfsRead, vfsFind_eq holds, found, Option.bind_eq_bind, Option.bind_some]
        exact congrArg (fun bytes => some (0, some bytes)) (overwrite_zero ..).symm
      · rw [contentOf, found]
        exact (Nat.min_zero _).symm
  | some node =>
      have inside : node ∈ nodes := List.mem_of_find?_eq_some found
      have here := holds.here node inside
      have parts : ∀ b ∈ node.blocks, b ∈ nodes.flatMap FileNode.blocks :=
        fun b member => List.mem_flatMap.mpr ⟨node, inside, member⟩
      have member := parts _ List.mem_cons_self
      have nonnull : node.addr ≠ 0 := H.nonnull holds.owns _ member
      have find : vfsFind H.toHeapCalls name v = some node.addr := by
        rw [vfsFind_eq holds, found]
        rfl
      have data := loadField holds.owns member VfsNode.data (by decide)
      rw [here.data] at data
      have content : (contentOf name.chars nodes).getD [] = node.content := by
        rw [contentOf, found]
        rfl
      rw [content]
      by_cases null : node.data = 0
      · refine ⟨0, ?_, ?_⟩
        · simp only [vfsRead, find, data, Option.bind_eq_bind, Option.bind_some, if_neg nonnull,
            if_pos null]
          exact congrArg (fun bytes => some (0, some bytes)) (overwrite_zero ..).symm
        · rw [here.empty null]
          exact (Nat.min_zero _).symm
      · have held := loadField holds.owns member VfsNode.size (by decide)
        have length := here.size
        generalize load32 (H.bytes v.heap) (node.addr + VfsNode.size) = count at held length
        have least : (if count < size then count else size).toNat =
            min size.toNat node.content.length := by
          rw [toNat_ite_lt, length]
        obtain ⟨buffer', loop, copied⟩ := readLoop_spec holds.owns parts here null
          (if count < size then count else size).toNat 0 buffer
          (by rw [least]; exact (Nat.zero_add _).trans_le (Nat.min_le_right _ _))
        refine ⟨if count < size then count else size, ?_, least⟩
        have result : buffer' = overwrite buffer node.content
            (if count < size then count else size).toNat := by
          funext j
          rw [copied, overwrite]
          exact if_congr (by omega) rfl rfl
        simp only [vfsRead, find, data, held, loop, result, Option.bind_eq_bind,
          Option.bind_some, if_neg nonnull, if_neg null]
        rfl

/-- Without a buffer, `vfs_read` returns 0. -/
theorem vfsRead_null : vfsRead H.toHeapCalls name none size v = some (0, none) := by
  simp only [vfsRead, vfsFind_eq holds, Option.bind_eq_bind, Option.bind_some]
  exact ite_self _

end Read

end CocosOS.Filesystem
