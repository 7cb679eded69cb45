import CocosOS.Library.ByteMemory
import CocosOS.Library.LinkedList

/-!
# The list of network cards

`kernel/drivers/net/nic.c` links the devices it is given into a list, the newest first, and
`net_poll` asks each device of the list for a packet. A device carries its own link. What a
driver's `init` makes of its device and what it returns is told with each call; what a driver's
`recv` returns only shows in the log, which is left out. The `init` is given the whole device, so
that it may change the link as well (`nicRegisterWith`). In this module it leaves the link to the
list (`nicRegister`); an `init` that forges it can send `net_poll` anywhere.

`nic_register` links a device in before its `init` has succeeded, and does not look whether the
device is there already. So the list is finite and names each device once, and `net_poll` ends
and asks each device at most once, exactly if no device was registered twice (`nic_list_iff`).
After a second registration the list runs in a ring for good.
-/

set_option autoImplicit false

namespace CocosOS.Kernel.Drivers.Nic

open Library.ByteMemory Library.LinkedList

/-! ## The calls -/

/-- What `nic_register` and `net_poll` read of a `nic_device_t`, but for its link. A null function
pointer is 0. -/
structure NicDevice where
  initialized : Bool
  linkUp : Bool
  init : Word
  recv : Word

/-- The devices in memory with their links, `nic_list` and `default_nic`. -/
structure NicState where
  devices : Word → NicDevice
  next : Word → Word
  nicList : Word
  defaultNic : Word

/-- `net_init`. -/
def netInit (nic : NicState) : NicState := { nic with nicList := 0, defaultNic := 0 }

/-- A call of `nic_register`: the device, what its `init` returns if it has one, and what it makes
of the device but for the link. -/
structure Registration where
  dev : Word
  res : ℤ
  initDevice : NicDevice → NicDevice

/-- `nic_register`, with what it returns. The `init` makes `initNext` of the link that it finds. -/
def nicRegisterWith (initNext : Word → Word) (call : Registration) (nic : NicState) :
    ℤ × NicState :=
  if call.dev = 0 then (-1, nic)
  else
    let nic := { nic with
      next := Function.update nic.next call.dev nic.nicList
      nicList := call.dev }
    if (nic.devices call.dev).init ≠ 0 then
      let nic := { nic with
        devices := Function.update nic.devices call.dev
          (call.initDevice (nic.devices call.dev))
        next := Function.update nic.next call.dev (initNext (nic.next call.dev)) }
      if call.res ≠ 0 then (call.res, nic)
      else (0, if nic.defaultNic = 0 then { nic with defaultNic := call.dev } else nic)
    else (0, if nic.defaultNic = 0 then { nic with defaultNic := call.dev } else nic)

/-- `nic_register` of a device whose `init` leaves the link alone. -/
def nicRegister (call : Registration) (nic : NicState) : ℤ × NicState :=
  nicRegisterWith id call nic

/-- The loop of `net_poll`: the devices whose `recv` it calls, if it ends within the rounds. -/
def pollLoop (nic : NicState) : ℕ → Word → Option (List Word)
  | 0, _ => none
  | fuel + 1, current =>
    if current = 0 then some []
    else if (nic.devices current).recv ≠ 0 then
      (pollLoop nic fuel (nic.next current)).map (current :: ·)
    else pollLoop nic fuel (nic.next current)

/-- `net_poll`. -/
def netPoll (fuel : ℕ) (nic : NicState) : Option (List Word) := pollLoop nic fuel nic.nicList

/-- The state after `net_init` and calls of `nic_register`, the first one first. -/
def afterCalls (nic : NicState) (calls : List Registration) : NicState :=
  calls.foldl (fun nic call => (nicRegister call nic).2) (netInit nic)

theorem afterCalls_concat (nic : NicState) (calls : List Registration) (call : Registration) :
    afterCalls nic (calls ++ [call]) = (nicRegister call (afterCalls nic calls)).2 := by
  simp [afterCalls]

/-- The list is a list: it ends and names each device once, and so `net_poll` ends and asks no
device twice. -/
structure IsNicList (nic : NicState) : Prop where
  ends : ∃ nodes, Segment nic.next nic.nicList nodes 0 ∧ 0 ∉ nodes ∧ nodes.Nodup
  polls : ∃ fuel received, netPoll fuel nic = some received ∧ received.Nodup

/-! ## Registered devices -/

/-- The devices that calls link in. -/
def registered (calls : List Registration) : List Word :=
  (calls.map Registration.dev).filter (· ≠ 0)

theorem registered_concat (calls : List Registration) (call : Registration) :
    registered (calls ++ [call]) =
      registered calls ++ if call.dev = 0 then [] else [call.dev] := by
  rw [registered, List.map_append, List.filter_append, registered]
  congr 1
  split_ifs with null
  · exact List.filter_eq_nil_iff.mpr fun dev member => by simp_all
  · exact List.filter_eq_self.mpr fun dev member => by simp_all

theorem zero_not_mem_registered (calls : List Registration) : 0 ∉ registered calls := by
  simp [registered]

/-- The link with which a registration leaves the device. -/
def linkLeft (initNext : Word → Word) (call : Registration) (nic : NicState) : Word :=
  if (nic.devices call.dev).init ≠ 0 then initNext nic.nicList else nic.nicList

theorem nicRegisterWith_null {call : Registration} (null : call.dev = 0) (initNext : Word → Word)
    (nic : NicState) : nicRegisterWith initNext call nic = (-1, nic) := if_pos null

/-- **A device is linked in**, whatever becomes of its `init`. -/
theorem nicRegisterWith_links {call : Registration} (nonnull : call.dev ≠ 0)
    (initNext : Word → Word) (nic : NicState) :
    (nicRegisterWith initNext call nic).2.next =
        Function.update nic.next call.dev (linkLeft initNext call nic) ∧
      (nicRegisterWith initNext call nic).2.nicList = call.dev := by
  rw [nicRegisterWith, if_neg nonnull, linkLeft]
  dsimp only
  rw [Function.update_self, Function.update_idem]
  split_ifs <;> exact ⟨rfl, rfl⟩

theorem linkLeft_id (call : Registration) (nic : NicState) :
    linkLeft id call nic = nic.nicList := ite_self _

/-- **The list is that of the registered devices, newest first, or it never ends.** -/
theorem segment_or_avoids (nic : NicState) (calls : List Registration) :
    ((registered calls).Nodup ∧ Segment (afterCalls nic calls).next (afterCalls nic calls).nicList
      (registered calls).reverse 0) ∨
    (¬ (registered calls).Nodup ∧
      Avoids (afterCalls nic calls).next (afterCalls nic calls).nicList 0) := by
  induction calls using List.reverseRecOn with
  | nil => exact Or.inl ⟨List.nodup_nil, rfl⟩
  | append_singleton calls call ih =>
      rw [registered_concat, afterCalls_concat]
      by_cases null : call.dev = 0
      · rw [if_pos null, List.append_nil, nicRegister, nicRegisterWith_null null]
        exact ih
      obtain ⟨next, nicList⟩ := nicRegisterWith_links null id (afterCalls nic calls)
      rw [linkLeft_id] at next
      rw [if_neg null, nicRegister, next, nicList]
      rcases ih with ⟨nodup, segment⟩ | ⟨again, avoids⟩
      · by_cases member : call.dev ∈ registered calls
        · right
          refine ⟨fun nodup' => ?_, segment.avoids_of_push ?_ (List.mem_reverse.mpr member)⟩
          · exact (List.nodup_append.mp nodup').2.2 _ member _ List.mem_cons_self rfl
          · exact fun zero => zero_not_mem_registered calls (List.mem_reverse.mp zero)
        · left
          rw [List.reverse_append, List.reverse_singleton, List.singleton_append]
          refine ⟨nodup.append (List.nodup_singleton _) ?_, segment.push ?_⟩
          · exact List.disjoint_singleton.mpr member
          · exact fun inside => member (List.mem_reverse.mp inside)
      · right
        exact ⟨fun nodup => again (List.nodup_append.mp nodup).1, avoids.push null⟩

/-! ## Polling -/

/-- On a list that ends, the loop asks the devices with a `recv`, in order. -/
theorem pollLoop_of_segment (nic : NicState) {first : Word} {nodes : List Word}
    (segment : Segment nic.next first nodes 0) (nonnull : 0 ∉ nodes) :
    pollLoop nic (nodes.length + 1) first =
      some (nodes.filter fun node => (nic.devices node).recv ≠ 0) := by
  induction nodes generalizing first with
  | nil => exact if_pos segment
  | cons node nodes ih =>
      obtain ⟨rfl, tail⟩ := segment
      have here : first ≠ 0 := fun zero => nonnull (zero ▸ List.mem_cons_self)
      have rest := ih tail (List.not_mem_of_not_mem_cons nonnull)
      rw [List.length_cons, pollLoop, if_neg here, rest, List.filter_cons]
      by_cases receives : (nic.devices first).recv ≠ 0
      · rw [if_pos receives, if_pos (decide_eq_true receives), Option.map_some]
      · rw [if_neg receives, if_neg (by simpa using receives)]

theorem pollLoop_of_avoids (nic : NicState) {first : Word} (avoids : Avoids nic.next first 0)
    (fuel : ℕ) : pollLoop nic fuel first = none := by
  induction fuel generalizing first with
  | zero => rfl
  | succ fuel ih =>
      rw [pollLoop, if_neg avoids.ne, ih avoids.step]
      split_ifs <;> rfl

/-- **The list stays a list exactly if no device was registered twice.** -/
theorem nic_list_iff (nic : NicState) (calls : List Registration) :
    IsNicList (afterCalls nic calls) ↔ (registered calls).Nodup := by
  rcases segment_or_avoids nic calls with ⟨nodup, segment⟩ | ⟨again, avoids⟩
  · refine iff_of_true ?_ nodup
    have once := List.nodup_reverse.mpr nodup
    have nonnull : 0 ∉ (registered calls).reverse := fun zero =>
      zero_not_mem_registered calls (List.mem_reverse.mp zero)
    exact ⟨⟨_, segment, nonnull, once⟩,
      ⟨_, _, pollLoop_of_segment _ segment nonnull, once.filter _⟩⟩
  · refine iff_of_false (fun list => ?_) again
    obtain ⟨nodes, segment, _⟩ := list.ends
    exact avoids.not_segment nodes segment

/-- A device whose `init` failed is registered again. -/
theorem registered_again : ¬ ∀ nic calls, IsNicList (afterCalls nic calls) := by
  intro isList
  let nic : NicState := ⟨fun _ => ⟨false, false, 0x1000, 0x2000⟩, fun _ => 0, 0, 0⟩
  let calls : List Registration := [⟨0x3000, -1, id⟩, ⟨0x3000, 0, id⟩]
  obtain ⟨fuel, received, polled, _⟩ := (isList nic calls).polls
  have ring : Avoids (afterCalls nic calls).next (afterCalls nic calls).nicList 0 := by
    refine ⟨{0x3000}, rfl, by decide, ?_⟩
    rintro _ rfl
    rfl
  rw [netPoll, pollLoop_of_avoids _ ring] at polled
  exact absurd polled nofun

end CocosOS.Kernel.Drivers.Nic
