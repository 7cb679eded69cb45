import CocosOS.Library.FilePath
import CocosOS.Library.ByteMemory

/-!
# The path check of Blade

`blade_check` is to say whether a path lies in `/apps`. It looks whether the bytes start with
`/apps`, so it takes a name that only starts like that, and it knows nothing of `..`, `.` and
doubled slashes. Before that it insists on UTF-8, and aborts where a path is not.

It is right for UTF-8 paths of three kinds (`confines_iff`): the first component is `apps` and the
path stays below it; or the first component begins with `apps`, and the path comes back to the root
and enters `apps` for good; or it begins otherwise, and does not stay in `apps`.
-/

set_option autoImplicit false

namespace CocosOS.Blade

open Library.ByteMemory Library.CString Library.FilePath Library.PathWalk

/-! ## UTF-8 -/

/-- What a prefix of UTF-8 allows next: so many more bytes of a character, and the bounds of the
next one. -/
structure Utf8 where
  owed : ℕ
  least : Byte
  greatest : Byte

def Utf8.start : Utf8 := ⟨0, 0x80, 0xBF⟩

/-- The first byte of a character. -/
def Utf8.first (byte : Byte) : Option Utf8 :=
  if byte ≤ 0x7F then some .start
  else if 0xC2 ≤ byte ∧ byte ≤ 0xDF then some ⟨1, 0x80, 0xBF⟩
  else if byte = 0xE0 then some ⟨2, 0xA0, 0xBF⟩
  else if byte = 0xED then some ⟨2, 0x80, 0x9F⟩
  else if 0xE1 ≤ byte ∧ byte ≤ 0xEF then some ⟨2, 0x80, 0xBF⟩
  else if byte = 0xF0 then some ⟨3, 0x90, 0xBF⟩
  else if 0xF1 ≤ byte ∧ byte ≤ 0xF3 then some ⟨3, 0x80, 0xBF⟩
  else if byte = 0xF4 then some ⟨3, 0x80, 0x8F⟩
  else none

def Utf8.step (utf8 : Utf8) (byte : Byte) : Option Utf8 :=
  if utf8.owed = 0 then Utf8.first byte
  else if utf8.least ≤ byte ∧ byte ≤ utf8.greatest then some ⟨utf8.owed - 1, 0x80, 0xBF⟩
  else none

/-- The text is UTF-8. -/
def IsUtf8 (text : Text) : Prop :=
  ((text.foldlM Utf8.step .start).map Utf8.owed) = some 0

instance : DecidablePred IsUtf8 := fun _ => inferInstanceAs (Decidable (_ = _))

example : IsUtf8 [0xC3, 0xB1] ∧ ¬ IsUtf8 [0xF1] := by decide

/-! ## The check -/

/-- `path_c.to_str().unwrap()`, which aborts where the text is not UTF-8. -/
def toStr (text : Text) : Option Text := if IsUtf8 text then some text else none

/-- `blade_check_path`. -/
def bladeCheckPath (path : Terminated) : Option ℤ :=
  (toStr path.chars).map fun pathStr => if literal "/apps" <+: pathStr then 1 else 0

/-- `blade_check`. -/
def bladeCheck (path : Terminated) : Option ℤ := bladeCheckPath path

/-- The check answers, and it answers 1 exactly for what lies in `/apps`. -/
def Confines (path : Terminated) : Prop :=
  ∃ answer, bladeCheck path = some answer ∧ (answer = 1 ↔ InDirectory (literal "apps") path.chars)

/-! ## What it confines -/

theorem bladeCheck_of_utf8 {path : Terminated} (utf8 : IsUtf8 path.chars) :
    bladeCheck path = some (if literal "/apps" <+: path.chars then 1 else 0) := by
  rw [bladeCheck, bladeCheckPath, toStr, if_pos utf8]
  rfl

theorem bladeCheck_of_not_utf8 {path : Terminated} (other : ¬ IsUtf8 path.chars) :
    bladeCheck path = none := by
  rw [bladeCheck, bladeCheckPath, toStr, if_neg other]
  rfl

/-- The answer is 1 for the paths that start with the bytes. -/
theorem answer_eq_one_iff (text : Text) :
    (if literal "/apps" <+: text then (1 : ℤ) else 0) = 1 ↔ literal "/apps" <+: text := by
  split_ifs with starts
  · exact iff_of_true rfl starts
  · exact iff_of_false (by decide) starts

/-! ## The three kinds of paths -/

/-- `apps`. -/
def apps : Text := literal "apps"

/-- The first component is `apps`, and the names behind it never go up more often than down. -/
def StaysInside (path : Text) : Prop :=
  ∃ rest, Opens path apps rest ∧ Stays dotdot (names rest)

/-- The first component begins with `apps`. The path comes back to the root and enters `apps`, and
the names behind that never go up more often than down. -/
def ComesBack (path : Text) : Prop :=
  ∃ tail rest front back, Opens path (apps ++ tail) rest ∧ names rest = front ++ apps :: back ∧
    level dotdot ((apps ++ tail) :: front) = 0 ∧ Stays dotdot back

/-- The path does not begin with a slash and a component that begins with `apps`. Where it enters
`apps` from the root, the names behind that go up more often than down at some point. -/
def KeepsOut (path : Text) : Prop :=
  (∀ tail rest, ¬ Opens path (apps ++ tail) rest) ∧
    ∀ front back, names path = front ++ apps :: back → level dotdot front = 0 → ¬ Stays dotdot back

theorem starts_iff (path : Text) :
    literal "/apps" <+: path ↔ ∃ tail rest, Opens path (apps ++ tail) rest :=
  prefix_iff_opens (by decide) path

/-- The names of a path whose first component begins with `apps`. -/
theorem settles_iff_of_opens {path tail rest : Text} (opens : Opens path (apps ++ tail) rest) :
    Settles apps path ↔ apps ++ tail = apps ∧ Stays dotdot (names rest) ∨
      ∃ front back, names rest = front ++ apps :: back ∧
        level dotdot ((apps ++ tail) :: front) = 0 ∧ Stays dotdot back := by
  refine settles_cons_iff (opens.names (List.cons_ne_nil _ _) fun same => ?_) (by decide)
  exact absurd (List.cons.inj same).1 (by decide)

theorem StaysInside.settles {path : Text} (inside : StaysInside path) :
    literal "/apps" <+: path ∧ Settles apps path := by
  obtain ⟨rest, opens, stays⟩ := inside
  rw [← List.append_nil apps] at opens
  exact ⟨(starts_iff path).mpr ⟨[], rest, opens⟩,
    (settles_iff_of_opens opens).mpr (.inl ⟨List.append_nil apps, stays⟩)⟩

theorem ComesBack.settles {path : Text} (comes : ComesBack path) :
    literal "/apps" <+: path ∧ Settles apps path := by
  obtain ⟨tail, rest, front, back, opens, split, root, stays⟩ := comes
  exact ⟨(starts_iff path).mpr ⟨tail, rest, opens⟩,
    (settles_iff_of_opens opens).mpr (.inr ⟨front, back, split, root, stays⟩)⟩

theorem KeepsOut.not_settles {path : Text} (out : KeepsOut path) :
    ¬ literal "/apps" <+: path ∧ ¬ Settles apps path := by
  refine ⟨fun starts => ?_, fun ⟨front, back, split, _, root, stays⟩ => ?_⟩
  · obtain ⟨tail, rest, opens⟩ := (starts_iff path).mp starts
    exact out.1 tail rest opens
  · exact out.2 front back split root stays

/-- The first bytes tell whether a path settles in `apps` for the paths of the three kinds. -/
theorem starts_iff_settles (path : Text) : (literal "/apps" <+: path ↔ Settles apps path) ↔
    StaysInside path ∨ ComesBack path ∨ KeepsOut path := by
  constructor
  · intro tells
    by_cases starts : literal "/apps" <+: path
    · obtain ⟨tail, rest, opens⟩ := (starts_iff path).mp starts
      rcases (settles_iff_of_opens opens).mp (tells.mp starts) with
        ⟨whole, stays⟩ | ⟨front, back, split, root, stays⟩
      · exact .inl ⟨rest, whole ▸ opens, stays⟩
      · exact .inr (.inl ⟨tail, rest, front, back, opens, split, root, stays⟩)
    · refine .inr (.inr ⟨fun tail rest opens => ?_, fun front back split root stays => ?_⟩)
      · exact starts ((starts_iff path).mpr ⟨tail, rest, opens⟩)
      · exact starts (tells.mpr ⟨front, back, split, by decide, root, stays⟩)
  · rintro (inside | comes | out)
    · exact iff_of_true inside.settles.1 inside.settles.2
    · exact iff_of_true comes.settles.1 comes.settles.2
    · exact iff_of_false out.not_settles.1 out.not_settles.2

/-- **The check confines a path to `/apps` exactly if the path is UTF-8 and of one of the three
kinds:** it opens with `apps` and stays inside, it opens with a name that begins so and comes back,
or it opens otherwise and keeps out. -/
theorem confines_iff (path : Terminated) : Confines path ↔
    IsUtf8 path.chars ∧
      (StaysInside path.chars ∨ ComesBack path.chars ∨ KeepsOut path.chars) := by
  by_cases utf8 : IsUtf8 path.chars
  · rw [Confines, bladeCheck_of_utf8 utf8, and_iff_right utf8, ← starts_iff_settles, apps,
      ← inDirectory_iff]
    constructor
    · rintro ⟨answer, same, right⟩
      obtain rfl := Option.some.inj same
      rwa [answer_eq_one_iff] at right
    · intro right
      exact ⟨_, rfl, (answer_eq_one_iff _).trans right⟩
  · refine iff_of_false ?_ fun both => utf8 both.1
    rintro ⟨answer, same, -⟩
    rw [bladeCheck_of_not_utf8 utf8] at same
    exact absurd same nofun

/-- A path with the bytes `/apps/..` behind which nothing follows. -/
def outside : Terminated where
  bytes := fun index => (literal "/apps/..").getD index 0
  length := 8
  nonzero := by decide
  terminator := rfl

/-- `/apps/..` is the root, and the check takes it. -/
theorem outside_taken : ¬ ∀ path, Confines path := by
  intro confines
  obtain ⟨answer, same, right⟩ := confines outside
  obtain rfl := Option.some.inj same
  exact absurd right (by decide)

end CocosOS.Blade
