import CocosOS.Kernel.Drivers.Nic

/-!
# Failed registrations

`nic_register` links a device in before it calls its `init`, and returns at once where `init` fails.
So the default card is left alone, but the device stays in the list, in front of it, and
`net_poll` asks it for packets if it has a `recv`. Where the device was in the list already, the
devices behind it are lost.

The `init` may change its device as it likes, the link included. A failed registration leaves the
set of devices that `net_poll` asks as it was exactly if it is `Harmless`; where the `init` leaves
the link alone, nothing that is asked may lie behind the device for that
(`harmless_iff_of_linkLeft`). In a run whose failed registrations are all harmless, and in which no
other `init` forges a link, `net_poll` only asks devices that were registered with success
(`failures_harmless_iff`).
-/

set_option autoImplicit false

namespace CocosOS.Kernel.Drivers.Nic

open Library.ByteMemory Library.LinkedList

/-! ## Polled devices -/

/-- The devices whose `recv` the loop of `net_poll` calls within the rounds. -/
def pollCalls (nic : NicState) : ℕ → Word → List Word
  | 0, _ => []
  | fuel + 1, current =>
    if current = 0 then []
    else if (nic.devices current).recv ≠ 0 then
      current :: pollCalls nic fuel (nic.next current)
    else pollCalls nic fuel (nic.next current)

/-- `net_poll` calls the `recv` of the device sooner or later. -/
def Polled (nic : NicState) (dev : Word) : Prop := ∃ fuel, dev ∈ pollCalls nic fuel nic.nicList

/-- The device is in the list. -/
def Listed (nic : NicState) (dev : Word) : Prop := dev ≠ 0 ∧ LeadsTo nic.next {0} nic.nicList dev

/-- The device is in the list, and only the link of the other one leads to it. -/
def Behind (nic : NicState) (dev other : Word) : Prop :=
  Listed nic other ∧ ¬ LeadsTo nic.next {dev, 0} nic.nicList other

/-- A loop that ends made the calls of its rounds, and makes no others in more rounds. -/
theorem pollCalls_of_pollLoop {nic : NicState} {fuel : ℕ} {first : Word} {received : List Word}
    (ends : pollLoop nic fuel first = some received) :
    pollCalls nic fuel first = received ∧ ∀ rounds, pollCalls nic rounds first ⊆ received := by
  induction fuel generalizing first received with
  | zero => exact absurd ends nofun
  | succ fuel ih =>
      rw [pollLoop] at ends
      rw [pollCalls]
      split_ifs at ends ⊢ with null receives
      · refine ⟨Option.some.inj ends, fun rounds => ?_⟩
        cases rounds with
        | zero => exact List.nil_subset _
        | succ rounds =>
            rw [pollCalls, if_pos null]
            exact List.nil_subset _
      · obtain ⟨later, rest, rfl⟩ := Option.map_eq_some_iff.mp ends
        obtain ⟨same, subset⟩ := ih rest
        refine ⟨congrArg _ same, fun rounds => ?_⟩
        cases rounds with
        | zero => exact List.nil_subset _
        | succ rounds =>
            rw [pollCalls, if_neg null, if_pos receives]
            exact List.cons_subset_cons _ (subset rounds)
      · obtain ⟨same, subset⟩ := ih ends
        refine ⟨same, fun rounds => ?_⟩
        cases rounds with
        | zero => exact List.nil_subset _
        | succ rounds =>
            rw [pollCalls, if_neg null, if_neg receives]
            exact subset rounds

/-- **Where `net_poll` ends, it asked the polled devices.** -/
theorem mem_received_iff {nic : NicState} {fuel : ℕ} {received : List Word}
    (ends : netPoll fuel nic = some received) (dev : Word) : dev ∈ received ↔ Polled nic dev := by
  obtain ⟨same, subset⟩ := pollCalls_of_pollLoop ends
  constructor
  · exact fun member => ⟨fuel, same ▸ member⟩
  · rintro ⟨rounds, member⟩
    exact subset rounds member

theorem mem_pollCalls_iff (nic : NicState) (first dev : Word) :
    (∃ fuel, dev ∈ pollCalls nic fuel first) ↔
      (nic.devices dev).recv ≠ 0 ∧ dev ≠ 0 ∧ LeadsTo nic.next {0} first dev := by
  constructor
  · rintro ⟨fuel, member⟩
    induction fuel generalizing first with
    | zero => exact absurd member List.not_mem_nil
    | succ fuel ih =>
        have step : first ≠ 0 → (nic.devices dev).recv ≠ 0 ∧ dev ≠ 0 ∧
            LeadsTo nic.next {0} (nic.next first) dev →
            (nic.devices dev).recv ≠ 0 ∧ dev ≠ 0 ∧ LeadsTo nic.next {0} first dev := by
          rintro nonnull ⟨receives, notNull, front, segment, clear⟩
          refine ⟨receives, notNull, first :: front, ⟨rfl, segment⟩, fun other inside => ?_⟩
          rcases List.mem_cons.mp inside with rfl | within
          · exact nonnull
          · exact clear other within
        rw [pollCalls] at member
        split_ifs at member with null receives
        · exact absurd member List.not_mem_nil
        · rcases List.mem_cons.mp member with rfl | later
          · exact ⟨receives, null, [], rfl, fun _ inside => absurd inside List.not_mem_nil⟩
          · exact step null (ih _ later)
        · exact step null (ih _ member)
  · rintro ⟨receives, notNull, front, segment, clear⟩
    refine ⟨front.length + 1, ?_⟩
    induction front generalizing first with
    | nil =>
        obtain rfl : first = dev := segment
        rw [pollCalls, if_neg notNull, if_pos receives]
        exact List.mem_cons_self
    | cons head front ih =>
        obtain ⟨rfl, tail⟩ := segment
        have later := ih (nic.next first) tail fun other inside =>
          clear other (List.mem_cons_of_mem _ inside)
        have null : ¬ first = 0 := clear first List.mem_cons_self
        rw [List.length_cons, pollCalls, if_neg null]
        split_ifs
        · exact List.mem_cons_of_mem _ later
        · exact later

/-- **`net_poll` asks the devices of the list that have a `recv`.** -/
theorem polled_iff (nic : NicState) (dev : Word) :
    Polled nic dev ↔ (nic.devices dev).recv ≠ 0 ∧ Listed nic dev := mem_pollCalls_iff ..

/-! ## Registrations -/

/-- A call of `nic_register` whose `init` may also change the link of its device. -/
structure FreeRegistration extends Registration where
  initNext : Word → Word

/-- `nic_register`. -/
def FreeRegistration.perform (call : FreeRegistration) (nic : NicState) : ℤ × NicState :=
  nicRegisterWith call.initNext call.toRegistration nic

/-- The link with which the call leaves its device. -/
def FreeRegistration.link (call : FreeRegistration) (nic : NicState) : Word :=
  linkLeft call.initNext call.toRegistration nic

/-- The state after `net_init` and calls of `nic_register`, the first one first. -/
def afterFree (nic : NicState) (calls : List FreeRegistration) : NicState :=
  calls.foldl (fun nic call => (call.perform nic).2) (netInit nic)

theorem afterFree_concat (nic : NicState) (calls : List FreeRegistration)
    (call : FreeRegistration) :
    afterFree nic (calls ++ [call]) = (call.perform (afterFree nic calls)).2 := by
  simp [afterFree]

section Registering

variable {nic : NicState} {call : FreeRegistration} {dev : Word}

/-- The link of the device leads to another one, without coming back to the device before. -/
def Reaches (nic : NicState) (call : FreeRegistration) (other : Word) : Prop :=
  other ≠ 0 ∧ LeadsTo nic.next {call.dev, 0} (call.link nic) other

/-- **After a registration the list holds the device, and what its link leads to without it.** -/
theorem listed_perform (nonnull : call.dev ≠ 0) (dev : Word) :
    Listed (call.perform nic).2 dev ↔ dev = call.dev ∨ Reaches nic call dev := by
  obtain ⟨next, nicList⟩ := nicRegisterWith_links nonnull call.initNext nic
  have outside : call.dev ∉ ({0} : Set Word) := nonnull
  rw [FreeRegistration.perform, Listed, next, nicList, LeadsTo.push_iff outside]
  constructor
  · rintro ⟨notNull, same | leads⟩
    · exact Or.inl same
    · exact Or.inr ⟨notNull, leads⟩
  · rintro (same | ⟨notNull, leads⟩)
    · exact ⟨same ▸ nonnull, Or.inl same⟩
    · exact ⟨notNull, Or.inr leads⟩

/-- A registration leaves the other devices as they are. -/
theorem devices_perform (differ : dev ≠ call.dev) :
    (call.perform nic).2.devices dev = nic.devices dev := by
  rw [FreeRegistration.perform, nicRegisterWith]
  split_ifs
  · rfl
  all_goals
    dsimp only
    split_ifs <;> first | rfl | exact Function.update_of_ne differ _ _

/-- A device that an untouched link leads to is in the list. -/
theorem Reaches.listed {other : Word} (reaches : Reaches nic call other)
    (untouched : call.link nic = nic.nicList) : Listed nic other := by
  obtain ⟨notNull, leads⟩ := reaches
  rw [untouched] at leads
  exact ⟨notNull, leads.mono (Set.subset_insert _ _)⟩

end Registering

/-! ## Failed registrations -/

/-- The device has an `init`, and it fails. -/
def Fails (nic : NicState) (call : FreeRegistration) : Prop :=
  call.dev ≠ 0 ∧ (nic.devices call.dev).init ≠ 0 ∧ call.res ≠ 0

/-- The `init` leaves the device with a `recv` exactly if the device was asked for packets before,
and with a link that leads to exactly those of the other devices with a `recv` that were in the
list. -/
def Harmless (nic : NicState) (call : FreeRegistration) : Prop :=
  ((call.initDevice (nic.devices call.dev)).recv ≠ 0 ↔ Polled nic call.dev) ∧
    ∀ other, other ≠ call.dev → (nic.devices other).recv ≠ 0 →
      (Reaches nic call other ↔ Listed nic other)

/-- One of the calls was for the device, and did not fail. -/
def RegisteredOk (nic : NicState) (calls : List FreeRegistration) (dev : Word) : Prop :=
  ∃ before call, before ++ [call] <+: calls ∧ call.dev = dev ∧ ¬ Fails (afterFree nic before) call

/-- The `init` succeeds and forges the link, so that it leads to a device with a `recv` that was
not registered with success in the calls before. -/
def Forges (nic : NicState) (before : List FreeRegistration) (call : FreeRegistration) : Prop :=
  call.dev ≠ 0 ∧ ¬ Fails (afterFree nic before) call ∧
    call.link (afterFree nic before) ≠ (afterFree nic before).nicList ∧
    ∃ other, other ≠ call.dev ∧ ((afterFree nic before).devices other).recv ≠ 0 ∧
      Reaches (afterFree nic before) call other ∧ ¬ RegisteredOk nic before other

/-- In a run, failed registrations have no effect, and only devices that were registered with
success are asked for packets. -/
structure FailuresHarmless (nic : NicState) (calls : List FreeRegistration) : Prop where
  failed : ∀ before call, before ++ [call] <+: calls → Fails (afterFree nic before) call →
    (call.perform (afterFree nic before)).1 = call.res ∧
    (call.perform (afterFree nic before)).2.defaultNic = (afterFree nic before).defaultNic ∧
    ∀ dev, Polled (call.perform (afterFree nic before)).2 dev ↔ Polled (afterFree nic before) dev
  polls : ∀ before, before <+: calls → ∀ dev, Polled (afterFree nic before) dev →
    RegisteredOk nic before dev

section Failing

variable {nic : NicState} {call : FreeRegistration} {dev : Word}

theorem perform_of_fails (fails : Fails nic call) :
    (call.perform nic).1 = call.res ∧ (call.perform nic).2.defaultNic = nic.defaultNic ∧
      (call.perform nic).2.devices call.dev = call.initDevice (nic.devices call.dev) := by
  obtain ⟨nonnull, init, res⟩ := fails
  rw [FreeRegistration.perform, nicRegisterWith, if_neg nonnull]
  dsimp only
  rw [if_pos init, if_pos res]
  exact ⟨rfl, rfl, Function.update_self ..⟩

/-- **A failed registration leaves the polled devices alone exactly if it is harmless.** -/
theorem polled_of_fails_iff (fails : Fails nic call) :
    (∀ dev, Polled (call.perform nic).2 dev ↔ Polled nic dev) ↔ Harmless nic call := by
  have here : Polled (call.perform nic).2 call.dev ↔
      (call.initDevice (nic.devices call.dev)).recv ≠ 0 := by
    rw [polled_iff, listed_perform fails.1, (perform_of_fails fails).2.2,
      and_iff_left (Or.inl rfl)]
  have there : ∀ other, other ≠ call.dev → (Polled (call.perform nic).2 other ↔
      (nic.devices other).recv ≠ 0 ∧ Reaches nic call other) := by
    intro other differ
    rw [polled_iff, devices_perform differ, listed_perform fails.1, or_iff_right differ]
  constructor
  · intro same
    refine ⟨here.symm.trans (same call.dev), fun other differ receives => ?_⟩
    have asked := (there other differ).symm.trans ((same other).trans (polled_iff nic other))
    rwa [and_iff_right receives, and_iff_right receives] at asked
  · rintro ⟨own, others⟩ dev
    by_cases same : dev = call.dev
    · rw [same, here, own]
    · rw [there dev same, polled_iff]
      exact and_congr_right fun receives => others dev same receives

/-- **Where the `init` leaves the link alone, a failed registration is harmless** exactly if the
device has a `recv` just when it was asked for packets, and no device with a `recv` lies behind
it. -/
theorem harmless_iff_of_linkLeft (untouched : call.link nic = nic.nicList) :
    Harmless nic call ↔
      ((call.initDevice (nic.devices call.dev)).recv ≠ 0 ↔ Polled nic call.dev) ∧
        ∀ other, Behind nic call.dev other → (nic.devices other).recv = 0 := by
  refine and_congr_right fun _ => ?_
  constructor
  · intro others other behind
    by_contra receives
    have differ : other ≠ call.dev := by
      rintro rfl
      -- no device lies behind its own link
      exact behind.2 behind.1.2.direct
    have leads := ((others other differ receives).mpr behind.1).2
    rw [untouched] at leads
    exact behind.2 leads
  · intro nothing other differ receives
    refine ⟨fun reaches => reaches.listed untouched, fun listed => ⟨listed.1, ?_⟩⟩
    rw [untouched]
    by_contra apart
    exact receives (nothing other ⟨listed, apart⟩)

/-- Nothing is polled before the first registration. -/
theorem not_polled_netInit (nic : NicState) (dev : Word) : ¬ Polled (netInit nic) dev := by
  rw [polled_iff]
  rintro ⟨-, nonnull, front, segment, clear⟩
  cases front with
  | nil => exact nonnull segment.symm
  | cons head front => exact clear head List.mem_cons_self segment.1.symm

theorem RegisteredOk.mono {calls more : List FreeRegistration}
    (ok : RegisteredOk nic calls dev) (inside : calls <+: more) : RegisteredOk nic more dev := by
  obtain ⟨before, call, early, rest⟩ := ok
  exact ⟨before, call, early.trans inside, rest⟩

/-- A device that was registered with success by the last call or before, if it is another one. -/
theorem RegisteredOk.of_concat {before : List FreeRegistration}
    (ok : RegisteredOk nic (before ++ [call]) dev) (differ : dev ≠ call.dev) :
    RegisteredOk nic before dev := by
  obtain ⟨front, last, part, same, returned⟩ := ok
  rcases List.prefix_concat_iff.mp part with whole | shorter
  · obtain ⟨rfl, lasts⟩ := List.append_inj' whole rfl
    rw [List.singleton_inj] at lasts
    exact absurd (lasts ▸ same).symm differ
  · exact ⟨front, last, shorter, same, returned⟩

/-- A registration that neither fails nor forges a link keeps to devices that were registered with
success. -/
theorem registeredOk_of_polled {before : List FreeRegistration}
    (earlier : ∀ dev, Polled (afterFree nic before) dev → RegisteredOk nic before dev)
    (succeeds : ¬ Fails (afterFree nic before) call) (honest : ¬ Forges nic before call)
    (polled : Polled (call.perform (afterFree nic before)).2 dev) :
    RegisteredOk nic (before ++ [call]) dev := by
  have longer : before <+: before ++ [call] := List.prefix_append before [call]
  by_cases null : call.dev = 0
  · rw [FreeRegistration.perform, nicRegisterWith_null null] at polled
    exact (earlier dev polled).mono longer
  by_cases same : dev = call.dev
  · exact ⟨before, call, List.prefix_rfl, same.symm, succeeds⟩
  rw [polled_iff, devices_perform same, listed_perform null, or_iff_right same] at polled
  obtain ⟨receives, reaches⟩ := polled
  refine RegisteredOk.mono ?_ longer
  by_cases untouched : call.link (afterFree nic before) = (afterFree nic before).nicList
  · exact earlier dev ((polled_iff _ dev).mpr ⟨receives, reaches.listed untouched⟩)
  · by_contra unknown
    exact honest ⟨null, succeeds, untouched, dev, same, receives, reaches, unknown⟩

end Failing

/-- **Failed registrations have no effect in a run exactly if each of them is harmless**, and then
`net_poll` only asks devices that were registered with success, unless a successful `init` forged
a link. -/
theorem failures_harmless_iff (nic : NicState) (calls : List FreeRegistration) :
    FailuresHarmless nic calls ↔
      ∀ before call, before ++ [call] <+: calls →
        (Fails (afterFree nic before) call → Harmless (afterFree nic before) call) ∧
        ¬ Forges nic before call := by
  constructor
  · intro run before call inside
    refine ⟨fun fails => ?_, ?_⟩
    · exact (polled_of_fails_iff fails).mp (run.failed before call inside fails).2.2
    · rintro ⟨nonnull, -, -, other, differ, receives, reaches, unknown⟩
      refine unknown ((run.polls (before ++ [call]) inside other ?_).of_concat differ)
      rw [afterFree_concat, polled_iff, devices_perform differ, listed_perform nonnull]
      exact ⟨receives, Or.inr reaches⟩
  · intro conditions
    constructor
    · intro before call inside fails
      obtain ⟨returned, default, -⟩ := perform_of_fails fails
      exact ⟨returned, default,
        (polled_of_fails_iff fails).mpr ((conditions before call inside).1 fails)⟩
    · intro before
      induction before using List.reverseRecOn with
      | nil => exact fun _ dev polled => absurd polled (not_polled_netInit nic dev)
      | append_singleton before call ih =>
          intro inside dev polled
          have longer : before <+: before ++ [call] := List.prefix_append before [call]
          have earlier := ih (longer.trans inside)
          obtain ⟨harmless, honest⟩ := conditions before call inside
          rw [afterFree_concat] at polled
          by_cases fails : Fails (afterFree nic before) call
          · -- a harmless failure leaves the polled devices as they were
            have kept := (polled_of_fails_iff fails).mpr (harmless fails)
            exact (earlier dev ((kept dev).mp polled)).mono longer
          · exact registeredOk_of_polled earlier fails honest polled

/-- A card with a `recv` whose `init` fails is asked for packets. -/
theorem failed_device_polled :
    ¬ ∀ nic calls, FailuresHarmless nic calls := by
  intro harmless
  let nic : NicState := ⟨fun _ => ⟨false, false, 0x1000, 0x2000⟩, fun _ => 0, 0, 0⟩
  let call : FreeRegistration := ⟨⟨0x3000, -1, id⟩, id⟩
  have run := (harmless nic [call]).failed [] call List.prefix_rfl
    ⟨by decide, by decide, by decide⟩
  have polled : Polled (call.perform (afterFree nic [])).2 0x3000 := ⟨1, by decide⟩
  exact not_polled_netInit nic _ ((run.2.2 _).mp polled)

end CocosOS.Kernel.Drivers.Nic
