import CocosOS.Filesystem.VfsNodes
import CocosOS.Kernel.Memory.HeapOwnership

/-!
# Runs of the virtual file system

A run begins with `vfs_init` and goes on with calls of `vfs_create`, `vfs_write` and `vfs_read` in
any order. What the calls are meant to do is said on a map from names to contents (`FileMap`):
`VfsCall.effect` is what a call does to it, and `VfsCall.outcome` what the answer of the heap makes
of the call (`perform_outcome`). As long as every request for memory is answered, the list in memory
holds the map that is meant (`contentOf_run`), so that a name reads as the last data written to it
since it was last created (`reads_since_created`); where no name is created twice, that is the last
data written to it after its creation (`vfs_reads_last_write`).

Over the kernel heap, requests may fail. Still every call returns, and what is handed out is the
nodes of the list and their data, at all times (`vfs_owns_heap`).
-/

set_option autoImplicit false

namespace CocosOS.Filesystem

open Library.ByteMemory Library.BlockList Library.CString Library.LinkedList Kernel.Memory

/-! ## A map from names to contents -/

abbrev FileMap := List Byte → Option (List Byte)

namespace VfsCall

/-- What a call does to the map. A write to a name that is not there does nothing. -/
def effect : VfsCall → FileMap → FileMap
  | .create name, files => Function.update files name.chars (some [])
  | .write name data size, files =>
    Function.update files name.chars
      ((files name.chars).map fun _ => (List.range size.toNat).map data)
  | .read .., files => files

/-- The call creates the name or writes to it. -/
def Changes (key : List Byte) : VfsCall → Prop
  | .create name => name.chars = key
  | .write name .. => name.chars = key
  | .read .. => False

/-- The call writes to the name. -/
def Writes (key : List Byte) : VfsCall → Prop
  | .write name .. => name.chars = key
  | .create _ | .read .. => False

/-- The name that the call creates. -/
def creates : VfsCall → Option (List Byte)
  | .create name => some name.chars
  | .write .. | .read .. => none

theorem changes_iff {call : VfsCall} {key : List Byte} :
    call.Changes key ↔ call.creates = some key ∨ call.Writes key := by
  cases call with
  | create name => simp [Changes, creates, Writes]
  | write name data size => simp [Changes, creates, Writes]
  | read name buffer size => simp [Changes, creates, Writes]

/-- The call creates no name that has to be cut off. -/
def Short : VfsCall → Prop
  | .create name => name.length < maxName
  | _ => True

/-- What a call does to the map, if the heap answers its request with the given address. A name is
cut off to 31 characters, and a file whose new data finds no room is left without data. -/
def outcome (p : Word) : VfsCall → FileMap → FileMap
  | .create name, files =>
    if p = 0 then files else Function.update files (name.take (maxName - 1)).chars (some [])
  | .write name data size, files =>
    Function.update files name.chars
      ((files name.chars).map fun _ => if p = 0 then [] else (List.range size.toNat).map data)
  | .read .., files => files

/-- No call takes a name out of the map. -/
theorem outcome_isSome {call : VfsCall} {p : Word} {files : FileMap} {key : List Byte}
    (there : (files key).isSome) : (call.outcome p files key).isSome := by
  cases call with
  | create name =>
      rw [outcome]
      split_ifs
      · exact there
      · by_cases same : key = (name.take (maxName - 1)).chars
        · rw [same, Function.update_self]
          rfl
        · rw [Function.update_of_ne same]
          exact there
  | write name data size =>
      rw [outcome]
      by_cases same : key = name.chars
      · rw [same] at there ⊢
        rw [Function.update_self, Option.isSome_map]
        exact there
      · rw [Function.update_of_ne same]
        exact there
  | read name buffer size => exact there

/-- A call whose request is answered does to the map what it is meant to. -/
theorem outcome_eq_effect {call : VfsCall} {p : Word} (short : call.Short)
    (given : p = 0 → ∃ name data, call = .write name data 0) (files : FileMap) :
    call.outcome p files = call.effect files := by
  cases call with
  | create name =>
      have nonnull : p ≠ 0 := fun null => by
        obtain ⟨other, data, write⟩ := given null
        cases write
      have whole : (name.take (maxName - 1)).chars = name.chars :=
        Terminated.chars_take (Nat.le_of_lt_succ short)
      rw [outcome, if_neg nonnull, whole, effect]
  | write name data size =>
      rw [outcome, effect]
      split_ifs with null
      · obtain ⟨other, bytes, write⟩ := given null
        cases write
        rfl
      · rfl
  | read name buffer size => rfl

theorem effect_of_not_changes {call : VfsCall} {key : List Byte} (other : ¬ call.Changes key)
    (files : FileMap) : call.effect files key = files key := by
  cases call with
  | create name => exact Function.update_of_ne (Ne.symm other) _ _
  | write name data size => exact Function.update_of_ne (Ne.symm other) _ _
  | read name buffer size => rfl

end VfsCall

/-- The map after calls, the first of them on the empty map. -/
def filesAfter (calls : List VfsCall) : FileMap :=
  calls.foldl (fun files call => call.effect files) fun _ => none

section FilesAfter

variable {key : List Byte}

theorem filesAfter_concat (calls : List VfsCall) (call : VfsCall) :
    filesAfter (calls ++ [call]) = call.effect (filesAfter calls) := by
  rw [filesAfter, List.foldl_append]
  rfl

/-- Calls about other names leave a name alone. -/
theorem filesAfter_append {before after : List VfsCall}
    (others : ∀ call ∈ after, ¬ call.Changes key) :
    filesAfter (before ++ after) key = filesAfter before key := by
  induction after using List.reverseRecOn with
  | nil => rw [List.append_nil]
  | append_singleton after call ih =>
      rw [← List.append_assoc, filesAfter_concat,
        VfsCall.effect_of_not_changes (others call (by simp))]
      exact ih fun call member => others call (List.mem_append_left _ member)

/-- The names in the map are those that were created. -/
theorem filesAfter_isSome_iff (calls : List VfsCall) :
    (filesAfter calls key).isSome ↔ ∃ name, .create name ∈ calls ∧ name.chars = key := by
  induction calls using List.reverseRecOn with
  | nil => simp [filesAfter]
  | append_singleton calls call ih =>
      rw [filesAfter_concat]
      cases call with
      | create name =>
          by_cases same : name.chars = key
          · refine iff_of_true ?_ ⟨name, by simp, same⟩
            rw [VfsCall.effect, same, Function.update_self]
            rfl
          · rw [VfsCall.effect, Function.update_of_ne (Ne.symm same), ih]
            refine exists_congr fun other => and_congr_left fun named => ?_
            have differ : other ≠ name := fun equal => same (equal ▸ named)
            simp [differ]
      | write name data size =>
          by_cases same : name.chars = key
          · rw [VfsCall.effect, same, Function.update_self, Option.isSome_map, ih]
            simp
          · rw [VfsCall.effect, Function.update_of_ne (Ne.symm same), ih]
            simp
      | read name buffer size =>
          rw [VfsCall.effect, ih]
          simp

end FilesAfter

/-! ## The list holds the map -/

section Steps

variable {σ : Type} {H : OwnedHeap σ} {v v' : Vfs σ} {nodes : List FileNode}

theorem contentOf_cons (node : FileNode) (nodes : List FileNode) :
    (contentOf · (node :: nodes)) =
      Function.update (contentOf · nodes) node.name.chars (some node.content) := by
  funext key
  by_cases same : key = node.name.chars
  · rw [same, Function.update_self, contentOf, lookup, List.find?_cons_of_pos (by simp)]
    rfl
  · rw [Function.update_of_ne same, contentOf, lookup,
      List.find?_cons_of_neg (by simpa using Ne.symm same)]
    rfl

theorem contentOf_rewrite {front back : List FileNode} {node : FileNode}
    (before : ∀ other ∈ front, other.name.chars ≠ node.name.chars) (p size : Word)
    (data : Bytes) :
    (contentOf · (front ++ node.rewrite p size data :: back)) =
      Function.update (contentOf · (front ++ node :: back)) node.name.chars
        (some (node.rewrite p size data).content) := by
  induction front with
  | nil =>
      rw [List.nil_append, List.nil_append, contentOf_cons, contentOf_cons,
        Function.update_idem]
      rfl
  | cons other front ih =>
      rw [List.cons_append, List.cons_append, contentOf_cons, contentOf_cons,
        ih fun node member => before node (List.mem_cons_of_mem _ member),
        Function.update_comm (before other List.mem_cons_self)]

theorem contentOf_isSome_of_mem {node : FileNode} (member : node ∈ nodes) :
    (contentOf node.name.chars nodes).isSome := by
  rw [contentOf, Option.isSome_map, lookup, List.find?_isSome]
  exact ⟨node, member, decide_eq_true rfl⟩

/-- **A creation that returns does to the contents what the answer of the heap makes of it**, and
it returns 1 if it is given memory. -/
theorem vfsCreate_outcome (holds : Holds H v nodes) {name : Terminated} {answer : Word}
    (call : vfsCreate H.toHeapCalls name v = some (answer, v')) :
    ∃ nodes' p, Holds H v' nodes' ∧
      (contentOf · nodes') = (VfsCall.create name).outcome p (contentOf · nodes) ∧
      answer = (if p = 0 then 0 else 1) ∧ (H.NeverNull → p ≠ 0) := by
  cases request : H.alloc VfsNode.sizeof v.heap with
  | none =>
      simp only [vfsCreate, request, Option.bind_eq_bind, Option.bind_none] at call
      exact absurd call (Option.some_ne_none _).symm
  | some result =>
      obtain ⟨p, s⟩ := result
      have answered : H.NeverNull → p ≠ 0 := fun never => never request (by decide)
      rcases vfsCreate_spec holds name request with ⟨null, made, kept⟩ | ⟨s', made, kept⟩
      · obtain ⟨rfl, rfl⟩ := Prod.mk.inj (Option.some.inj (made.symm.trans call))
        refine ⟨nodes, p, kept, ?_, (if_pos null).symm, answered⟩
        rw [VfsCall.outcome, if_pos null]
      · obtain ⟨rfl, rfl⟩ := Prod.mk.inj (Option.some.inj (made.symm.trans call))
        have nonnull : p ≠ 0 := H.nonnull kept.owns _ (Holds.block_mem List.mem_cons_self)
        refine ⟨_, p, kept, ?_, (if_neg nonnull).symm, answered⟩
        rw [contentOf_cons, VfsCall.outcome, if_neg nonnull]

/-- **A write that returns does nothing if there is no such name.** If there is one, it gives the
file what the answer of the heap makes of the data, and the heap was asked when the old data had
been released. -/
theorem vfsWrite_outcome (holds : Holds H v nodes) {name : Terminated} {data : Bytes}
    {size answer : Word} (call : vfsWrite H.toHeapCalls name data size v = some (answer, v')) :
    (contentOf name.chars nodes = none ∧ answer = 0 ∧ v' = v) ∨
      ∃ nodes' p, (contentOf name.chars nodes).isSome ∧ Holds H v' nodes' ∧
        (contentOf · nodes') = (VfsCall.write name data size).outcome p (contentOf · nodes) ∧
        answer = (if p = 0 then 0 else size) ∧
        ∃ node s s1, vfsFind H.toHeapCalls name v = some node ∧ node ≠ 0 ∧
          releaseData H.toHeapCalls node v.heap = some s ∧ H.alloc size s = some (p, s1) := by
  rcases vfsWrite_spec holds name data size with ⟨missing, made⟩ |
    ⟨front, node, back, s, rfl, before, named, -, ⟨find, nonnull, released⟩, refused, written⟩
  · obtain ⟨rfl, rfl⟩ := Prod.mk.inj (Option.some.inj (made.symm.trans call))
    left
    rw [contentOf, missing]
    exact ⟨rfl, rfl, rfl⟩
  · right
    cases request : H.alloc size s with
    | none => exact absurd ((refused request).symm.trans call) (Option.some_ne_none _).symm
    | some result =>
        obtain ⟨p, s1⟩ := result
        obtain ⟨s', made, kept⟩ := written p s1 request
        obtain ⟨rfl, rfl⟩ := Prod.mk.inj (Option.some.inj (made.symm.trans call))
        have there : (contentOf name.chars (front ++ node :: back)).isSome :=
          named ▸ contentOf_isSome_of_mem (by simp)
        refine ⟨_, p, there, kept, ?_, rfl, node.addr, s, s1, find, nonnull, released, request⟩
        rw [contentOf_rewrite fun other member => named ▸ before other member, named,
          VfsCall.outcome]
        obtain ⟨old, held⟩ := Option.isSome_iff_exists.mp there
        rw [held]
        rfl

/-- **A call that returns keeps the list**, and does to its contents what the answer of the heap
makes of it. -/
theorem perform_outcome (holds : Holds H v nodes) {call : VfsCall}
    (answer : call.perform H.toHeapCalls v = some v') :
    ∃ nodes' p, Holds H v' nodes' ∧ (contentOf · nodes') = call.outcome p (contentOf · nodes) ∧
      (H.NeverNull → p = 0 → ∃ name data, call = .write name data 0) := by
  cases call with
  | create name =>
      obtain ⟨⟨count, w⟩, called, rfl⟩ := Option.map_eq_some_iff.mp answer
      obtain ⟨nodes', p, kept, contents, -, answered⟩ := vfsCreate_outcome holds called
      exact ⟨nodes', p, kept, contents, fun never null => absurd null (answered never)⟩
  | write name data size =>
      obtain ⟨⟨count, w⟩, called, rfl⟩ := Option.map_eq_some_iff.mp answer
      rcases vfsWrite_outcome holds called with ⟨missing, -, rfl⟩ |
        ⟨nodes', p, -, kept, contents, -, node, s, s1, -, -, -, request⟩
      · refine ⟨nodes, 1, holds, ?_, fun _ null => absurd null (by decide)⟩
        rw [VfsCall.outcome, missing]
        exact (Function.update_eq_self_iff.mpr missing.symm).symm
      · refine ⟨nodes', p, kept, contents, fun never null => ?_⟩
        by_cases empty : size = 0
        · exact ⟨name, data, by rw [empty]⟩
        · exact absurd null (never request empty)
  | read name buffer size =>
      obtain ⟨result, called, rfl⟩ := Option.map_eq_some_iff.mp answer
      exact ⟨nodes, 1, holds, rfl, fun _ null => absurd null (by decide)⟩

/-- **A call that returns keeps the list**, and does to its contents what it does to a map. -/
theorem perform_spec (holds : Holds H v nodes) {call : VfsCall}
    (answer : call.perform H.toHeapCalls v = some v') :
    ∃ nodes', Holds H v' nodes' ∧ (H.NeverNull → call.Short →
      (contentOf · nodes') = call.effect (contentOf · nodes)) := by
  obtain ⟨nodes', p, kept, contents, answered⟩ := perform_outcome holds answer
  exact ⟨nodes', kept, fun never short =>
    contents.trans (VfsCall.outcome_eq_effect short (answered never) _)⟩

/-- A call returns if what it requests is answered. -/
theorem perform_isSome (holds : Holds H v nodes) {call : VfsCall}
    (node : H.Answers VfsNode.sizeof)
    (data : ∀ name bytes size, call = .write name bytes size → H.Answers size) :
    ∃ v', call.perform H.toHeapCalls v = some v' := by
  cases call with
  | create name =>
      obtain ⟨p, s, request⟩ := node holds.owns
      rcases vfsCreate_spec holds name request with ⟨-, made, -⟩ | ⟨s', made, -⟩
      · exact ⟨_, Option.map_eq_some_iff.mpr ⟨_, made, rfl⟩⟩
      · exact ⟨_, Option.map_eq_some_iff.mpr ⟨_, made, rfl⟩⟩
  | write name bytes size =>
      rcases vfsWrite_spec holds name bytes size with ⟨-, made⟩ |
        ⟨front, node, back, s, -, -, -, ⟨owned, owns⟩, -, -, written⟩
      · exact ⟨_, Option.map_eq_some_iff.mpr ⟨_, made, rfl⟩⟩
      · obtain ⟨p, s1, request⟩ := data name bytes size rfl owns
        obtain ⟨s', made, -⟩ := written p s1 request
        exact ⟨_, Option.map_eq_some_iff.mpr ⟨_, made, rfl⟩⟩
  | read name buffer size =>
      cases buffer with
      | none => exact ⟨v, Option.map_eq_some_iff.mpr ⟨_, vfsRead_null holds name size, rfl⟩⟩
      | some bytes =>
          obtain ⟨answer, read, -⟩ := vfsRead_eq holds name size bytes
          exact ⟨v, Option.map_eq_some_iff.mpr ⟨_, read, rfl⟩⟩

/-- The list is empty after `vfs_init`. -/
theorem holds_vfsInit {s : σ} (owns : H.Owns [] s) : Holds H (vfsInit s) [] :=
  ⟨rfl, fun _ member => absurd member List.not_mem_nil, owns⟩

/-- **In every state of a run the list holds the map**, if no request is answered with `NULL`. -/
theorem contentOf_run (never : H.NeverNull) {calls : List VfsCall}
    (short : ∀ call ∈ calls, call.Short) (holds : Holds H v nodes)
    (run : vfsRun H.toHeapCalls calls v = some v') :
    ∃ nodes', Holds H v' nodes' ∧ (contentOf · nodes') =
      calls.foldl (fun files call => call.effect files) (contentOf · nodes) := by
  induction calls generalizing v nodes with
  | nil =>
      obtain rfl := Option.some.inj run
      exact ⟨nodes, holds, rfl⟩
  | cons call calls ih =>
      obtain ⟨w, first, rest⟩ := Option.bind_eq_some_iff.mp run
      obtain ⟨nodes', holds', effect⟩ := perform_spec holds first
      rw [List.foldl_cons, ← effect never (short call List.mem_cons_self)]
      exact ih (fun other member => short other (List.mem_cons_of_mem _ member)) holds' rest

/-- **Every run goes on**, if the requests are answered in one way or the other. -/
theorem exists_run {calls : List VfsCall} (node : H.Answers VfsNode.sizeof)
    (data : ∀ name bytes size, .write name bytes size ∈ calls → H.Answers size)
    (holds : Holds H v nodes) :
    ∃ v' nodes', vfsRun H.toHeapCalls calls v = some v' ∧ Holds H v' nodes' := by
  induction calls generalizing v nodes with
  | nil => exact ⟨v, nodes, rfl, holds⟩
  | cons call calls ih =>
      obtain ⟨w, first⟩ := perform_isSome holds node fun name bytes size same =>
        data name bytes size (same ▸ List.mem_cons_self)
      obtain ⟨middle, holds', -⟩ := perform_spec holds first
      obtain ⟨v', nodes', run, final⟩ := ih
        (fun name bytes size member => data name bytes size (List.mem_cons_of_mem _ member)) holds'
      refine ⟨v', nodes', ?_, final⟩
      rw [vfsRun, first]
      exact run

end Steps

/-! ## What a name reads as -/

/-- A read of the name copies from the given content, as much as is asked for and is there. -/
def Reads {σ : Type} (H : HeapCalls σ) (v : Vfs σ) (name : Terminated) (content : List Byte) :
    Prop :=
  ∀ (buffer : Bytes) (size : Word), ∃ answer : Word,
    vfsRead H name (some buffer) size v =
      some (answer, some (overwrite buffer content answer.toNat)) ∧
    answer.toNat = min size.toNat content.length

/-- What `vfs_read` does depends only on the content of the name. -/
theorem vfsRead_congr {σ : Type} {H : OwnedHeap σ} {v v' : Vfs σ} {nodes nodes' : List FileNode}
    (holds : Holds H v nodes) (holds' : Holds H v' nodes') (name : Terminated)
    (same : contentOf name.chars nodes' = contentOf name.chars nodes) (buffer : Option Bytes)
    (size : Word) :
    vfsRead H.toHeapCalls name buffer size v' = vfsRead H.toHeapCalls name buffer size v := by
  cases buffer with
  | none => rw [vfsRead_null holds, vfsRead_null holds']
  | some bytes =>
      obtain ⟨answer, read, count⟩ := vfsRead_eq holds name size bytes
      obtain ⟨answer', read', count'⟩ := vfsRead_eq holds' name size bytes
      rw [same, ← count] at count'
      rw [read, read', same, BitVec.eq_of_toNat_eq count']

/-- No name is created twice. -/
def CreatedOnce (calls : List VfsCall) : Prop := (calls.filterMap VfsCall.creates).Nodup

/-- Behind its creation, calls change a name by writes only. -/
theorem CreatedOnce.not_changes {front back : List VfsCall} {key : List Byte}
    (once : CreatedOnce (front ++ back)) (created : key ∈ front.filterMap VfsCall.creates)
    (unwritten : ∀ call ∈ back, ¬ call.Writes key) : ∀ call ∈ back, ¬ call.Changes key := by
  intro call member changes
  rcases VfsCall.changes_iff.mp changes with creates | writes
  · rw [CreatedOnce, List.filterMap_append] at once
    exact List.disjoint_of_nodup_append once created
      (List.mem_filterMap.mpr ⟨call, member, creates⟩)
  · exact unwritten call member writes

theorem mem_creates {calls : List VfsCall} {created name : Terminated}
    (member : .create created ∈ calls) (same : created.chars = name.chars) :
    name.chars ∈ calls.filterMap VfsCall.creates :=
  List.mem_filterMap.mpr ⟨_, member, congrArg some same⟩

section LastWrite

variable {σ : Type}

/-- Over a heap that answers every request, a name reads as the data of the last `vfs_write` to it
since it was last created, as nothing if there is none or if it was never created, and no call about
another name changes what it reads as. -/
theorem reads_since_created (H : OwnedHeap σ) (never : H.NeverNull) {s : σ} (owns : H.Owns [] s)
    {calls : List VfsCall} (short : ∀ call ∈ calls, call.Short) {v : Vfs σ}
    (run : vfsRun H.toHeapCalls calls (vfsInit s) = some v) (name : Terminated) :
    (∀ (before after : List VfsCall) (written : Terminated) (data : Bytes) (size : Word),
      calls = before ++ .write written data size :: after → written.chars = name.chars →
      (∃ created, .create created ∈ before ∧ created.chars = name.chars) →
      (∀ call ∈ after, ¬ call.Changes name.chars) →
        Reads H.toHeapCalls v name ((List.range size.toNat).map data)) ∧
    (∀ (before after : List VfsCall) (created : Terminated),
      calls = before ++ .create created :: after → created.chars = name.chars →
      (∀ call ∈ after, ¬ call.Changes name.chars) → Reads H.toHeapCalls v name []) ∧
    ((∀ created, .create created ∈ calls → created.chars ≠ name.chars) →
      Reads H.toHeapCalls v name []) ∧
    ∀ (call : VfsCall) (v' : Vfs σ), call.perform H.toHeapCalls v = some v' → call.Short →
      ¬ call.Changes name.chars → ∀ buffer size, vfsRead H.toHeapCalls name buffer size v' =
        vfsRead H.toHeapCalls name buffer size v := by
  obtain ⟨nodes, holds, contents⟩ := contentOf_run never short (holds_vfsInit owns) run
  have reads : Reads H.toHeapCalls v name ((filesAfter calls name.chars).getD []) := by
    intro buffer size
    have map : contentOf name.chars nodes = filesAfter calls name.chars := congrFun contents _
    rw [← map]
    exact vfsRead_eq holds name size buffer
  refine ⟨?_, ?_, fun missing => ?_, fun call v' answer short_call other buffer size => ?_⟩
  · rintro before after written data size rfl same created others
    obtain ⟨old, there⟩ := Option.isSome_iff_exists.mp ((filesAfter_isSome_iff before).mpr created)
    have content : filesAfter (before ++ .write written data size :: after) name.chars =
        some ((List.range size.toNat).map data) := by
      rw [List.append_cons, filesAfter_append others, filesAfter_concat, VfsCall.effect, same,
        Function.update_self, there]
      rfl
    rw [content] at reads
    exact reads
  · rintro before after created rfl same others
    have content : filesAfter (before ++ .create created :: after) name.chars = some [] := by
      rw [List.append_cons, filesAfter_append others, filesAfter_concat, VfsCall.effect, same,
        Function.update_self]
    rw [content] at reads
    exact reads
  · have content : filesAfter calls name.chars = none := by
      rw [← Option.not_isSome_iff_eq_none, filesAfter_isSome_iff]
      rintro ⟨created, member, same⟩
      exact missing created member same
    rw [content] at reads
    exact reads
  · obtain ⟨nodes', holds', effect⟩ := perform_spec holds answer
    refine vfsRead_congr holds holds' name ?_ buffer size
    exact (congrFun (effect never short_call) name.chars).trans
      (VfsCall.effect_of_not_changes other _)

/-- Over a heap that answers every request, and in a run that creates no name twice, **a name reads
as the data of the last `vfs_write` made to it after it was created**, as nothing if there is none
or if it was never created, and no call about another name changes what it reads as. -/
theorem vfs_reads_last_write (H : OwnedHeap σ) (never : H.NeverNull) {s : σ} (owns : H.Owns [] s)
    {calls : List VfsCall} (short : ∀ call ∈ calls, call.Short) (once : CreatedOnce calls)
    {v : Vfs σ} (run : vfsRun H.toHeapCalls calls (vfsInit s) = some v) (name : Terminated) :
    (∀ (before after : List VfsCall) (written : Terminated) (data : Bytes) (size : Word),
      calls = before ++ .write written data size :: after → written.chars = name.chars →
      (∃ created, .create created ∈ before ∧ created.chars = name.chars) →
      (∀ call ∈ after, ¬ call.Writes name.chars) →
        Reads H.toHeapCalls v name ((List.range size.toNat).map data)) ∧
    (∀ (before after : List VfsCall) (created : Terminated),
      calls = before ++ .create created :: after → created.chars = name.chars →
      (∀ call ∈ after, ¬ call.Writes name.chars) → Reads H.toHeapCalls v name []) ∧
    ((∀ created, .create created ∈ calls → created.chars ≠ name.chars) →
      Reads H.toHeapCalls v name []) ∧
    ∀ (call : VfsCall) (v' : Vfs σ), call.perform H.toHeapCalls v = some v' → call.Short →
      ¬ call.Changes name.chars → ∀ buffer size, vfsRead H.toHeapCalls name buffer size v' =
        vfsRead H.toHeapCalls name buffer size v := by
  obtain ⟨written, unwritten, missing, others⟩ := reads_since_created H never owns short run name
  refine ⟨?_, ?_, missing, others⟩
  · intro before after other data size split same created last
    refine written before after other data size split same created ?_
    obtain ⟨first, member, named⟩ := created
    rw [split, List.append_cons] at once
    exact once.not_changes (mem_creates (List.mem_append_left _ member) named) last
  · intro before after created split same last
    refine unwritten before after created split same ?_
    rw [split, List.append_cons] at once
    exact once.not_changes
      (mem_creates (List.mem_append_right _ (List.mem_singleton_self _)) same) last

end LastWrite

theorem letterA_ne_zero : (97 : BitVec 8) ≠ 0 := by decide

/-- The name `a`. -/
def nameA : Terminated := .single 97 letterA_ne_zero

/-- A name that was created and written. -/
theorem reads_created_and_written :
    ∃ v, vfsRun OwnedHeap.bump.strict.toHeapCalls
        [.create nameA, .write nameA (fun i => if i = 0 then 5 else 6) 2]
        (vfsInit (fun _ => 0, 16)) = some v ∧
      Reads OwnedHeap.bump.strict.toHeapCalls v nameA [5, 6] := by
  have returns : (vfsRun OwnedHeap.bump.strict.toHeapCalls
      [.create nameA, .write nameA (fun i => if i = 0 then 5 else 6) 2]
      (vfsInit (fun _ => 0, 16))).isSome := by decide +kernel
  obtain ⟨v, run⟩ := Option.isSome_iff_exists.mp returns
  have owns : OwnedHeap.bump.strict.Owns [] (fun _ => 0, 16) :=
    ⟨by decide, List.Pairwise.nil, fun _ member => absurd member List.not_mem_nil⟩
  have short : ∀ call ∈ [VfsCall.create nameA, .write nameA (fun i => if i = 0 then 5 else 6) 2],
      call.Short := by
    intro call member
    rcases List.mem_cons.mp member with rfl | member
    · show 1 < 32
      decide
    · rw [List.mem_singleton.mp member]
      trivial
  exact ⟨v, run, (vfs_reads_last_write OwnedHeap.bump.strict (OwnedHeap.neverNull_strict _) owns
    short (List.nodup_singleton _) run nameA).1 [.create nameA] [] nameA _ 2 rfl rfl
    ⟨nameA, List.mem_cons_self, rfl⟩ fun _ member => absurd member List.not_mem_nil⟩

/-- A write to a name that does not exist yet is lost. -/
theorem write_before_create_is_lost :
    ∃ v, vfsRun OwnedHeap.bump.strict.toHeapCalls [.write nameA (fun _ => 5) 1, .create nameA]
        (vfsInit (fun _ => 0, 16)) = some v ∧
      ¬ Reads OwnedHeap.bump.strict.toHeapCalls v nameA [5] := by
  have returns : ((vfsRun OwnedHeap.bump.strict.toHeapCalls
      [.write nameA (fun _ => 5) 1, .create nameA] (vfsInit (fun _ => 0, 16))).bind fun v =>
        (vfsRead OwnedHeap.bump.strict.toHeapCalls nameA (some fun _ => 0) 1 v).map Prod.fst) =
      some 0 := by decide +kernel
  obtain ⟨v, run, read⟩ := Option.bind_eq_some_iff.mp returns
  refine ⟨v, run, fun reads => ?_⟩
  obtain ⟨answer, copied, count⟩ := reads (fun _ => 0) 1
  rw [copied, Option.map_some] at read
  obtain rfl : answer = 0 := Option.some.inj read
  exact absurd count (by decide)

/-! ## What is handed out -/

/-- The data of the nodes, where it is not `NULL`. -/
def buffersIn (m : Mem) (nodes : List Word) : List Word :=
  (nodes.map fun node => load32 m (node + VfsNode.data)).filter (· ≠ 0)

/-- **The live blocks of the heap are the nodes of the list and their data**, and these are long
enough for what they hold. -/
structure OwnsHeap (v : Vfs HeapState) (nodes : List Word) (bs : List Block) : Prop where
  list : Segment (nextIn v.heap.mem) v.root nodes 0
  heap : heapBlocks v.heap.bounds v.heap.mem = some bs
  live : v.heap.live.Perm (nodes ++ buffersIn v.heap.mem nodes)
  blocks : ((usedBlocks bs).map heapLayout.payload).Perm
    ((nodes ++ buffersIn v.heap.mem nodes).map BitVec.toNat)
  distinct : (nodes ++ buffersIn v.heap.mem nodes).Nodup
  node_room : ∀ node ∈ nodes, VfsNode.sizeof.toNat ≤ payloadSize v.heap.mem node
  data_room : ∀ node ∈ nodes, load32 v.heap.mem (node + VfsNode.data) ≠ 0 →
    (load32 v.heap.mem (node + VfsNode.size)).toNat ≤
      payloadSize v.heap.mem (load32 v.heap.mem (node + VfsNode.data))
  empty : ∀ node ∈ nodes, load32 v.heap.mem (node + VfsNode.data) = 0 →
    load32 v.heap.mem (node + VfsNode.size) = 0

/-- The addresses of the blocks of nodes. -/
theorem addrs_blocks {m : Mem} {nodes : List FileNode} (here : ∀ node ∈ nodes, node.At m) :
    ((nodes.flatMap FileNode.blocks).map Extent.addr).Perm
      (nodes.map FileNode.addr ++ buffersIn m (nodes.map FileNode.addr)) := by
  induction nodes with
  | nil => exact List.Perm.nil
  | cons node nodes ih =>
      have first := here node List.mem_cons_self
      have rest := ih fun other member => here other (List.mem_cons_of_mem _ member)
      have data : load32 m (node.addr + VfsNode.data) = node.data := first.data
      rw [List.flatMap_cons, List.map_append, List.map_cons, buffersIn, List.map_cons, data]
      by_cases null : node.data = 0
      · rw [FileNode.blocks_of_null null, List.filter_cons_of_neg (by simp [null])]
        exact rest.cons node.addr
      · rw [FileNode.blocks_of_ne null, List.filter_cons_of_pos (by simpa using null)]
        exact ((rest.cons node.data).trans List.perm_middle.symm).cons node.addr

theorem ownsHeap_of_holds {start size : Word} {v : Vfs HeapState} {nodes : List FileNode}
    (holds : Holds (memoryHeap start size) v nodes) :
    ∃ bs, OwnsHeap v (nodes.map FileNode.addr) bs := by
  obtain ⟨bs, inv, owned⟩ := holds.owns
  have live := owned.1.trans (addrs_blocks holds.here)
  have parts : ∀ node ∈ nodes, ∀ b ∈ node.blocks, b ∈ nodes.flatMap FileNode.blocks :=
    fun node member b inside => List.mem_flatMap.mpr ⟨node, member, inside⟩
  refine ⟨bs, holds.linked, inv.heapBlocks_eq, live, inv.owners.symm.trans (live.map _),
    live.nodup_iff.mp inv.live_nodup, ?_, ?_, ?_⟩
  · intro addr member
    obtain ⟨node, inside, rfl⟩ := List.mem_map.mp member
    exact owned.2 _ (parts node inside _ List.mem_cons_self)
  · intro addr member nonnull
    obtain ⟨node, inside, rfl⟩ := List.mem_map.mp member
    have here := holds.here node inside
    have data : load32 v.heap.mem (node.addr + VfsNode.data) = node.data := here.data
    have count : (load32 v.heap.mem (node.addr + VfsNode.size)).toNat = node.content.length :=
      here.size
    rw [data] at nonnull ⊢
    rw [count]
    refine owned.2 ⟨node.data, node.content.length⟩ (parts node inside _ ?_)
    rw [FileNode.blocks_of_ne nonnull]
    exact List.mem_cons_of_mem _ List.mem_cons_self
  · intro addr member null
    obtain ⟨node, inside, rfl⟩ := List.mem_map.mp member
    have here := holds.here node inside
    have data : load32 v.heap.mem (node.addr + VfsNode.data) = node.data := here.data
    have count : (load32 v.heap.mem (node.addr + VfsNode.size)).toNat = node.content.length :=
      here.size
    rw [here.empty (data.symm.trans null)] at count
    exact BitVec.eq_of_toNat_eq count

/-- **The file system owns the heap.** After `Memory_init` and `vfs_init`, every call returns,
whether its requests are answered or not. No call reads or stores outside a live block or releases
what is not live, and the live blocks are the nodes of the list and their data. -/
theorem vfs_owns_heap {start size : Word} (low : 16 ≤ start.toNat) (room : 12 < size.toNat)
    (fits : start.toNat + size.toNat < 2 ^ 32) (mem : Mem) {calls : List VfsCall}
    (sizes : ∀ name data count, .write name data count ∈ calls → count.toNat ≤ 2 ^ 32 - 4) :
    ∃ (v : Vfs HeapState) (nodes : List Word) (bs : List Block),
      vfsRun watchedHeap calls (vfsInit (HeapState.init start size mem)) = some v ∧
      vfsRun bareHeap calls (vfsInit (memoryInit start size mem)) = some (v.map HeapState.bare) ∧
      OwnsHeap v nodes bs := by
  obtain ⟨v, nodes, run, holds⟩ := exists_run (H := memoryHeap start size)
    (answers_memoryHeap start size (by decide))
    (fun name data count member => answers_memoryHeap start size (sizes name data count member))
    (holds_vfsInit (owns_init low room fits mem))
  obtain ⟨bs, owns⟩ := ownsHeap_of_holds holds
  exact ⟨v, _, bs, run, vfsRun_follows watchedHeap_follows run, owns⟩

theorem vfs_owns_kernel_heap :
    ∃ (v : Vfs HeapState) (nodes : List Word) (bs : List Block),
      vfsRun watchedHeap [.create nameA, .write nameA (fun _ => 5) 2, .write nameA (fun _ => 6) 9]
        (vfsInit (HeapState.init 0x100000 0x100000 fun _ => 0)) = some v ∧
      vfsRun bareHeap [.create nameA, .write nameA (fun _ => 5) 2, .write nameA (fun _ => 6) 9]
        (vfsInit (memoryInit 0x100000 0x100000 fun _ => 0)) = some (v.map HeapState.bare) ∧
      OwnsHeap v nodes bs :=
  vfs_owns_heap (by decide) (by decide) (by decide) (fun _ => 0) fun name data count member => by
    simp only [List.mem_cons, reduceCtorEq, VfsCall.write.injEq, List.not_mem_nil, or_false,
      false_or] at member
    rcases member with ⟨-, -, rfl⟩ | ⟨-, -, rfl⟩
    · decide
    · decide

end CocosOS.Filesystem
