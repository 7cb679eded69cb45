import CocosOS.Library.CScan
import CocosOS.Library.Collect

/-!
# The systems that the installer finds

`detect_operating_systems` reads the devices of `/proc/partitions`, asks `blkid` about those whose
name has a `1` or a `2` in it, and takes what stands behind the first `TYPE="` of the answer for the
type of the file system. So a device whose number has neither digit is missed, and a key that ends
in `TYPE`, such as `SEC_TYPE` or `PTTYPE`, is taken for the type.

The devices for which it is right are told exactly (`installer_finds_iff`).
-/

set_option autoImplicit false

namespace CocosOS.Installer

open Library.CString Library.Collect

/-! ## The source -/

/-- `detected_os_t`, with its arrays of characters as texts. -/
structure DetectedOs where
  name : Chars
  device : Chars
  type : Chars
  size : BitVec 64

/-- The characters of an array up to the zero. -/
def cString (bytes : Chars) : Chars := bytes.takeWhile (· ≠ 0)

/-- `sscanf(line, " %*d %*d %llu %31s", &size, name)`, where it reads both. -/
def scanPartition (line : Chars) : Option (BitVec 64 × Chars) := do
  let (_, _, line) ← scanInt (skipSpaces line)
  let (_, _, line) ← scanInt (skipSpaces line)
  let (size, line) ← scanUnsigned (skipSpaces line)
  let (name, _) ← scanWord 31 (skipSpaces line)
  return (size, name)

/-- `strchr(name, '1') || strchr(name, '2')`. -/
def Numbered (name : Chars) : Prop := 49 ∈ name ∨ 50 ∈ name

instance : DecidablePred Numbered := fun _ => inferInstanceAs (Decidable (_ ∨ _))

/-- The line for the shell, in an array of 256 bytes. -/
def blkidCommand (name : Chars) : Chars :=
  (literal "blkid /dev/" ++ name ++ literal " 2>/dev/null").take 255

/-- What stands behind `TYPE="` in what `blkid` writes, up to the next quote. -/
def scanType (output : Chars) : Option Chars := do
  let line ← (fgetsLines 255 [] output).head?
  let fsType ← behind (literal "TYPE=\"") (cString line)
  upTo 34 fsType

/-- The name of a system with such a file system. -/
def systemName (fsType : Chars) : Chars :=
  if fsType = literal "ntfs" then literal "Windows"
  else if literal "ext" <:+: fsType then literal "Linux"
  else literal "Unknown"

/-- The body of the loop, where `popen` is what the shell lets a line write. -/
def detectLine (popen : Chars → Option Chars) (line : Chars) : Option DetectedOs := do
  let (size, name) ← scanPartition (cString line)
  if Numbered name then
    let output ← popen (blkidCommand name)
    let fsType ← scanType output
    return { name := (systemName fsType).take 63
             device := name.take 31
             type := fsType.take 15
             size := size * 1024 }
  else none

/-- `detect_operating_systems`, where `partitions` is what can be read of `/proc/partitions`. -/
def detectOperatingSystems (partitions : Option Chars) (popen : Chars → Option Chars)
    (maxCount : ℤ) : List DetectedOs :=
  match partitions with
  | none => []
  | some content => collect (detectLine popen) maxCount (fgetsLines 255 [] content) []

/-! ## Devices and their file systems -/

/-- A device, in a line of `/proc/partitions` that is short enough. -/
structure Device where
  major : ℕ
  minor : ℕ
  blocks : ℕ
  name : Chars
  fits : blocks < 2 ^ 64
  nonempty : name ≠ []
  short : name.length ≤ 31
  plain : ∀ c ∈ name, isSpace c = false ∧ c ≠ 0 ∧ c ≠ 34

/-- The line of a device, as the kernel writes it. -/
def Device.line (device : Device) : Chars :=
  padded 4 (decimal device.major) ++ literal "  " ++ padded 7 (decimal device.minor) ++
    literal " " ++ padded 10 (decimal device.blocks) ++ literal " " ++ device.name

/-- `/proc/partitions`. -/
def partitions (devices : List Device) : Chars :=
  literal "major minor  #blocks  name" ++ [10, 10] ++
    devices.flatMap fun device => device.line ++ [10]

/-- A field `KEY="value"` of what `blkid` writes. -/
structure Field where
  key : Chars
  value : Chars
  plain : ∀ c ∈ key ++ value, c ≠ 34 ∧ c ≠ 10 ∧ c ≠ 0

def Field.text (field : Field) : Chars :=
  literal " " ++ field.key ++ literal "=" ++ 34 :: (field.value ++ [34])

/-- What `blkid` writes about a device with these fields. -/
def blkidLine (name : Chars) (fields : List Field) : Chars :=
  literal "/dev/" ++ name ++ literal ":" ++ fields.flatMap Field.text

/-- The shell lets `blkid` write what it knows about the device, or nothing. -/
def Answers (popen : Chars → Option Chars) (report : Chars → Option (List Field)) (name : Chars) :
    Prop :=
  match report name with
  | none => popen (blkidCommand name) = none ∨ popen (blkidCommand name) = some []
  | some fields => popen (blkidCommand name) = some (blkidLine name fields ++ [10])

/-- The value of the field `TYPE`. -/
def typeField (fields : List Field) : Option Chars :=
  (fields.find? fun field => field.key = literal "TYPE").map Field.value

/-- An entry as it should be: the device, the type and the size in bytes. -/
structure Entry where
  device : Chars
  type : Chars
  size : ℕ

/-- The entry of a device whose file system is known. -/
def fileSystem (report : Chars → Option (List Field)) (device : Device) : Option Entry :=
  ((report device.name).bind typeField).map fun value =>
    ⟨device.name, value.take 15, device.blocks * 1024⟩

def DetectedOs.entry (found : DetectedOs) : Entry := ⟨found.device, found.type, found.size.toNat⟩

/-- What is behind the first `TYPE="` of the fields up to the next quote: the value of the first
field whose key ends in `TYPE`. If a value in front of it ends in `TYPE=`, its quote is taken for
the opening one. -/
def shown : List Field → Option Chars
  | [] => none
  | field :: rest =>
    if literal "TYPE" <:+ field.key then some field.value
    else if literal "TYPE=" <:+ field.value then
      rest.head?.map fun next => literal " " ++ next.key ++ literal "="
    else shown rest

/-- A device without the field `TYPE` shows none, or has no number with a `1` or a `2`. One with the
field has such a number, shows the same first 15 characters, and its size fits. -/
def Right (report : Chars → Option (List Field)) (device : Device) : Prop :=
  match report device.name with
  | none => True
  | some fields =>
    match typeField fields with
    | none => Numbered device.name → shown fields = none
    | some value => Numbered device.name ∧
        (∃ text, shown fields = some text ∧ text.take 15 = value.take 15) ∧
        device.blocks * 1024 < 2 ^ 64

/-! ## Lines -/

theorem cString_of_notMem {bytes : Chars} (whole : 0 ∉ bytes) : cString bytes = bytes := by
  refine List.takeWhile_eq_self_iff.mpr fun c member => ?_
  rw [decide_eq_true_iff]
  exact fun zero => whole (zero ▸ member)

/-- A character of a line. -/
def Printed (c : BitVec 8) : Prop := c ≠ 10 ∧ c ≠ 0

instance : DecidablePred Printed := fun _ => inferInstanceAs (Decidable (_ ∧ _))

/-- A line is whole up to its end. -/
theorem newline_notMem {line : Chars} (printed : ∀ c ∈ line, Printed c) : 10 ∉ line :=
  fun member => (printed 10 member).1 rfl

/-- A line has no zero, so it is read as a whole. -/
theorem cString_line {line : Chars} (printed : ∀ c ∈ line, Printed c) :
    cString (line ++ [10]) = line ++ [10] := by
  refine cString_of_notMem fun member => ?_
  rcases List.mem_append.mp member with inside | last
  · exact (printed 0 inside).2 rfl
  · exact absurd last (by decide)

theorem printed_padded (width n : ℕ) : ∀ c ∈ padded width (decimal n), Printed c := by
  intro c member
  rcases List.mem_append.mp member with blank | digit
  · rw [List.eq_of_mem_replicate blank]
    exact ⟨by decide, by decide⟩
  · have digit := isDigit_of_mem_decimal digit
    refine ⟨?_, ?_⟩
    · rintro rfl
      exact absurd digit (by decide)
    · rintro rfl
      exact absurd digit (by decide)

theorem Device.printed_name (device : Device) : ∀ c ∈ device.name, Printed c := by
  intro c member
  obtain ⟨space, zero, -⟩ := device.plain c member
  refine ⟨?_, zero⟩
  rintro rfl
  exact absurd space (by decide)

theorem Device.printed (device : Device) : ∀ c ∈ device.line, Printed c := by
  have blank : ∀ c ∈ literal " ", Printed c := by decide
  have blanks : ∀ c ∈ literal "  ", Printed c := by decide
  intro c member
  simp only [Device.line, List.mem_append] at member
  rcases member with (((((major | two) | minor) | one) | blocks) | last) | name
  · exact printed_padded _ _ c major
  · exact blanks c two
  · exact printed_padded _ _ c minor
  · exact blank c one
  · exact printed_padded _ _ c blocks
  · exact blank c last
  · exact device.printed_name c name

/-- What begins with a blank begins with no digit. -/
theorem isDigit_head {s : Chars} (first : s.head? = some 32) :
    ∀ c, s.head? = some c → isDigit c = false := by
  intro c same
  obtain rfl := Option.some.inj (first.symm.trans same)
  rfl

theorem isSpace_blanks {front : Chars} (only : ∀ c ∈ front, isSpace c = true) (count : ℕ) :
    ∀ c ∈ front ++ List.replicate count 32, isSpace c = true := by
  intro c member
  rcases List.mem_append.mp member with first | second
  · exact only c first
  · exact isSpace_replicate count c second

/-- **The line of a device is read back.** -/
theorem scanPartition_line (device : Device) :
    scanPartition (device.line ++ [10]) = some (.ofNat 64 device.blocks, device.name) := by
  let atName := literal " " ++ (device.name ++ [10])
  let atBlocks := literal " " ++ List.replicate (10 - (decimal device.blocks).length) 32 ++
    (decimal device.blocks ++ atName)
  let atMinor := literal "  " ++ List.replicate (7 - (decimal device.minor).length) 32 ++
    (decimal device.minor ++ atBlocks)
  have split : device.line ++ [10] = List.replicate (4 - (decimal device.major).length) 32 ++
      (decimal device.major ++ atMinor) := by
    simp [Device.line, padded, atMinor, atBlocks, atName]
  have major : scanInt (device.line ++ [10]) = some (false, device.major, atMinor) := by
    rw [split]
    exact scanInt_decimal (isSpace_replicate _) _ (isDigit_head rfl)
  have minor : scanInt atMinor = some (false, device.minor, atBlocks) :=
    scanInt_decimal (isSpace_blanks (by decide) _) _ (isDigit_head rfl)
  have blocks : scanUnsigned atBlocks = some (.ofNat 64 device.blocks, atName) :=
    scanUnsigned_decimal (isSpace_blanks (by decide) _) device.fits (isDigit_head rfl)
  have name : scanWord 31 atName = some (device.name, [10]) :=
    scanWord_append (by decide) device.nonempty device.short
      (fun c member => (device.plain c member).1) fun c same => by
        obtain rfl := Option.some.inj same
        rfl
  simp only [scanPartition, scanInt_skipSpaces, scanUnsigned_skipSpaces, scanWord_skipSpaces, major,
    minor, blocks, name, Option.bind_eq_bind, Option.bind_some]
  rfl

/-! ## Fields -/

/-- The last characters in front of a quote tell whether the key ends in `TYPE`. -/
theorem suffix_key_iff (lead key : Chars) :
    literal "TYPE=" <:+ lead ++ literal " " ++ key ++ literal "=" ↔ literal "TYPE" <:+ key := by
  have pattern : literal "TYPE=" = literal "TYPE" ++ literal "=" := rfl
  have blank : (32 : BitVec 8) ∉ literal "TYPE" := by decide
  have text : lead ++ literal " " ++ key = lead ++ 32 :: key := by
    rw [List.append_assoc]
    rfl
  rw [pattern, List.suffix_append_self_iff, text, suffix_append_cons_iff blank]

/-- No quote is in front of the value of a field. -/
theorem notMem_front {lead : Chars} (plain : 34 ∉ lead) (field : Field) :
    34 ∉ lead ++ literal " " ++ field.key ++ literal "=" := by
  intro member
  simp only [List.mem_append] at member
  rcases member with ((first | blank) | key) | equal
  · exact plain first
  · exact absurd blank (by decide)
  · exact (field.plain 34 (List.mem_append_left _ key)).1 rfl
  · exact absurd equal (by decide)

/-- **What stands behind the first `TYPE="` up to the next quote is shown.** -/
theorem behind_fields {lead : Chars} (plain : 34 ∉ lead) (fields : List Field) :
    (behind (literal "TYPE=\"") (lead ++ (fields.flatMap Field.text ++ [10]))).bind (upTo 34) =
      shown fields := by
  have pattern : literal "TYPE=\"" = literal "TYPE=" ++ [34] := rfl
  have noQuote : (34 : BitVec 8) ∉ literal "TYPE=" := by decide
  rw [pattern]
  induction fields generalizing lead with
  | nil =>
      have none : (34 : BitVec 8) ∉ lead ++ ([] ++ [10]) := by simpa using plain
      rw [List.flatMap_nil, behind_of_notMem _ none]
      rfl
  | cons field rest ih =>
      have value : (34 : BitVec 8) ∉ field.value := fun member =>
        (field.plain 34 (List.mem_append_right _ member)).1 rfl
      have split : lead ++ ((field :: rest).flatMap Field.text ++ [10]) =
          lead ++ literal " " ++ field.key ++ literal "=" ++
            34 :: (field.value ++ 34 :: (rest.flatMap Field.text ++ [10])) := by
        simp [Field.text]
      rw [split, behind_append_cons noQuote (notMem_front plain field), shown]
      by_cases keyEnds : literal "TYPE" <:+ field.key
      · rw [if_pos ((suffix_key_iff _ _).mpr keyEnds), if_pos keyEnds, Option.bind_some,
          upTo_append_cons value]
      · rw [if_neg (mt (suffix_key_iff _ _).mp keyEnds), if_neg keyEnds,
          behind_append_cons noQuote value]
        by_cases valueEnds : literal "TYPE=" <:+ field.value
        · -- the closing quote is taken for an opening one
          rw [if_pos valueEnds, if_pos valueEnds, Option.bind_some]
          cases rest with
          | nil => exact upTo_of_notMem (by decide)
          | cons next rest =>
              have nextKey : (34 : BitVec 8) ∉ literal " " ++ next.key ++ literal "=" :=
                notMem_front List.not_mem_nil next
              have split : (next :: rest).flatMap Field.text ++ [10] =
                  literal " " ++ next.key ++ literal "=" ++
                    34 :: (next.value ++ 34 :: (rest.flatMap Field.text ++ [10])) := by
                simp [Field.text]
              rw [split, upTo_append_cons nextKey]
              rfl
        · rw [if_neg valueEnds, if_neg valueEnds]
          have later := ih (List.not_mem_nil : 34 ∉ ([] : Chars))
          exact later

theorem Field.printed (field : Field) : ∀ c ∈ field.text, Printed c := by
  intro c member
  simp only [Field.text, List.mem_append, List.mem_cons, List.not_mem_nil, or_false] at member
  rcases member with ((blank | key) | equal) | (rfl | value | rfl)
  · exact (by decide : ∀ c ∈ literal " ", Printed c) c blank
  · exact (field.plain c (List.mem_append_left _ key)).2
  · exact (by decide : ∀ c ∈ literal "=", Printed c) c equal
  · exact ⟨by decide, by decide⟩
  · exact (field.plain c (List.mem_append_right _ value)).2
  · exact ⟨by decide, by decide⟩

/-- **Of a line of `blkid` the shown text is read.** -/
theorem scanType_blkidLine (device : Device) {fields : List Field}
    (short : (blkidLine device.name fields).length < 255) :
    scanType (blkidLine device.name fields ++ [10]) = shown fields := by
  have printed : ∀ c ∈ blkidLine device.name fields, Printed c := by
    intro c member
    simp only [blkidLine, List.mem_append, List.mem_flatMap] at member
    rcases member with ((dev | inside) | colon) | ⟨field, -, inside⟩
    · exact (by decide : ∀ c ∈ literal "/dev/", Printed c) c dev
    · exact device.printed_name c inside
    · exact (by decide : ∀ c ∈ literal ":", Printed c) c colon
    · exact field.printed c inside
  have line : (fgetsLines 255 [] (blkidLine device.name fields ++ [10])).head? =
      some (blkidLine device.name fields ++ [10]) := by
    rw [fgetsLines_line (newline_notMem printed) [] [] (by simpa using short)]
    rfl
  have lead : 34 ∉ literal "/dev/" ++ device.name ++ literal ":" := by
    intro member
    simp only [List.mem_append] at member
    rcases member with (dev | inside) | colon
    · exact absurd dev (by decide)
    · exact (device.plain 34 inside).2.2 rfl
    · exact absurd colon (by decide)
  rw [scanType, line, Option.bind_eq_bind, Option.bind_some, cString_line printed, blkidLine,
    List.append_assoc]
  exact behind_fields lead fields

/-- The entry that the loop makes for a device. -/
def shownEntry (report : Chars → Option (List Field)) (device : Device) : Option Entry :=
  if Numbered device.name then
    ((report device.name).bind shown).map fun text =>
      ⟨device.name, text.take 15, (BitVec.ofNat 64 device.blocks * 1024).toNat⟩
  else none

section

variable {popen : Chars → Option Chars} {report : Chars → Option (List Field)}

/-- **The body of the loop makes this entry of the line of a device.** -/
theorem detectLine_line {device : Device} (answers : Answers popen report device.name)
    (short : ∀ fields, report device.name = some fields →
      (blkidLine device.name fields).length < 255) :
    (detectLine popen (device.line ++ [10])).map DetectedOs.entry = shownEntry report device := by
  rw [detectLine, cString_line device.printed, scanPartition_line, shownEntry]
  simp only [Option.bind_eq_bind, Option.bind_some]
  split_ifs with numbered
  swap
  · rfl
  rw [Answers] at answers
  cases known : report device.name with
  | none =>
      rw [known] at answers
      rcases answers with none | empty
      · rw [none]
        rfl
      · rw [empty]
        rfl
  | some fields =>
      rw [known] at answers
      dsimp only at answers
      rw [answers, Option.bind_some, Option.bind_some,
        scanType_blkidLine device (short fields known)]
      cases shown fields with
      | none => rfl
      | some text =>
          have whole : device.name.take 31 = device.name := List.take_of_length_le device.short
          simp [DetectedOs.entry, whole]

/-- The lines of `/proc/partitions`. -/
theorem fgetsLines_partitions {devices : List Device}
    (lines : ∀ device ∈ devices, device.line.length < 255) :
    fgetsLines 255 [] (partitions devices) =
      (literal "major minor  #blocks  name" ++ [10]) :: [10] ::
        devices.map fun device => device.line ++ [10] := by
  have rest : fgetsLines 255 [] (devices.flatMap fun device => device.line ++ [10]) =
      devices.map fun device => device.line ++ [10] := by
    induction devices with
    | nil => rfl
    | cons device devices ih =>
        have split : ((device :: devices).flatMap fun device => device.line ++ [10]) =
            device.line ++ 10 :: devices.flatMap fun device => device.line ++ [10] := by simp
        rw [split, fgetsLines_line (newline_notMem device.printed) _ _
            (by simpa using lines device List.mem_cons_self),
          ih fun other member => lines other (List.mem_cons_of_mem _ member)]
        rfl
  have split : partitions devices = literal "major minor  #blocks  name" ++
      10 :: ([] ++ 10 :: devices.flatMap fun device => device.line ++ [10]) := by
    simp [partitions]
  rw [split, fgetsLines_line (by decide) _ _ (by decide),
    fgetsLines_line List.not_mem_nil _ _ (by decide), rest]
  rfl

theorem detectLine_header (popen : Chars → Option Chars) :
    detectLine popen (literal "major minor  #blocks  name" ++ [10]) = none := by
  have scanned : scanPartition (cString (literal "major minor  #blocks  name" ++ [10])) = none := by
    decide
  rw [detectLine, scanned]
  rfl

theorem detectLine_blank (popen : Chars → Option Chars) : detectLine popen [10] = none := by
  have scanned : scanPartition (cString [10]) = none := by decide
  rw [detectLine, scanned]
  rfl

/-- **The installer finds the first entries that the loop makes.** -/
theorem detectOperatingSystems_partitions {devices : List Device}
    (answers : ∀ device ∈ devices, Answers popen report device.name)
    (lines : ∀ device ∈ devices, device.line.length < 255)
    (short : ∀ device ∈ devices, ∀ fields, report device.name = some fields →
      (blkidLine device.name fields).length < 255) (maxCount : ℤ) :
    (detectOperatingSystems (some (partitions devices)) popen maxCount).map DetectedOs.entry =
      (devices.filterMap (shownEntry report)).take maxCount.toNat := by
  have collected (content : Chars) : detectOperatingSystems (some content) popen maxCount =
      ((fgetsLines 255 [] content).filterMap (detectLine popen)).take maxCount.toNat :=
    collect_eq (detectLine popen) maxCount (fgetsLines 255 [] content) (Nat.zero_le _)
  rw [collected, fgetsLines_partitions lines, List.filterMap_cons_none (detectLine_header popen),
    List.filterMap_cons_none (detectLine_blank popen), List.map_take, List.map_filterMap,
    List.filterMap_map]
  refine congrArg (List.take maxCount.toNat) (List.filterMap_congr fun device member => ?_)
  rw [Function.comp_apply]
  exact detectLine_line (answers device member) (short device member)

end

/-! ## The devices for which it is right -/

theorem entry_mk_iff {name type type' : Chars} {size size' : ℕ} :
    Entry.mk name type size = Entry.mk name type' size' ↔ type = type' ∧ size = size' := by
  rw [Entry.mk.injEq]
  exact and_iff_right rfl

theorem size_eq_iff {blocks : ℕ} :
    (BitVec.ofNat 64 blocks * 1024).toNat = blocks * 1024 ↔ blocks * 1024 < 2 ^ 64 := by
  rw [BitVec.toNat_mul, BitVec.toNat_ofNat]
  have thousand : (1024 : BitVec 64).toNat = 1024 := rfl
  rw [thousand, Nat.mod_mul_mod]
  exact Nat.mod_eq_iff_lt (by decide)

/-- **A device has the entry it should have exactly if it is right.** -/
theorem shownEntry_eq_iff (report : Chars → Option (List Field)) (device : Device) :
    shownEntry report device = fileSystem report device ↔ Right report device := by
  rw [shownEntry, fileSystem, Right]
  cases report device.name with
  | none =>
      refine iff_of_true ?_ trivial
      split_ifs <;> rfl
  | some fields =>
      rw [Option.bind_some, Option.bind_some]
      dsimp only
      cases typeField fields with
      | none =>
          by_cases numbered : Numbered device.name
          · simp [numbered]
          · simp [numbered]
      | some value =>
          by_cases numbered : Numbered device.name
          · cases shown fields with
            | none => simp
            | some text =>
                rw [if_pos numbered, Option.map_some, Option.map_some, Option.some.injEq,
                  entry_mk_iff, size_eq_iff]
                simp only [numbered, true_and, Option.some.injEq, exists_eq_left']
          · simp [numbered]

/-- **The installer finds exactly the file systems that are there, if and only if each device that
comes before the list is full is right.** -/
theorem installer_finds_iff {devices : List Device} {popen : Chars → Option Chars}
    {report : Chars → Option (List Field)}
    (answers : ∀ device ∈ devices, Answers popen report device.name)
    (lines : ∀ device ∈ devices, device.line.length < 255)
    (short : ∀ device ∈ devices, ∀ fields, report device.name = some fields →
      (blkidLine device.name fields).length < 255) (maxCount : ℤ) :
    (detectOperatingSystems (some (partitions devices)) popen maxCount).map DetectedOs.entry =
        (devices.filterMap (fileSystem report)).take maxCount.toNat ↔
      ∀ before device after, devices = before ++ device :: after →
        (before.filterMap (fileSystem report)).length < maxCount.toNat → Right report device := by
  have taggedShown (device : Device) (entry : Entry)
      (here : shownEntry report device = some entry) : entry.device = device.name := by
    rw [shownEntry] at here
    split_ifs at here
    obtain ⟨text, -, rfl⟩ := Option.map_eq_some_iff.mp here
    rfl
  have taggedThere (device : Device) (entry : Entry)
      (here : fileSystem report device = some entry) : entry.device = device.name := by
    obtain ⟨value, -, rfl⟩ := Option.map_eq_some_iff.mp here
    rfl
  have toldShown (device other : Device) (same : device.name = other.name)
      (here : (shownEntry report device).isSome) : (shownEntry report other).isSome := by
    rw [shownEntry] at here ⊢
    rw [← same]
    split_ifs at here ⊢
    · rw [Option.isSome_map] at here ⊢
      exact here
    · exact here
  have toldThere (device other : Device) (same : device.name = other.name)
      (here : (fileSystem report device).isSome) : (fileSystem report other).isSome := by
    rw [fileSystem, Option.isSome_map] at here ⊢
    rw [← same]
    exact here
  rw [detectOperatingSystems_partitions answers lines short,
    take_filterMap_eq_iff taggedShown taggedThere toldShown toldThere]
  simp only [shownEntry_eq_iff]

/-! ## Two devices -/

def sda1 : Device where
  major := 8
  minor := 1
  blocks := 524288
  name := literal "sda1"
  fits := by decide
  nonempty := List.cons_ne_nil _ _
  short := by decide
  plain := by decide

def sda3 : Device where
  major := 8
  minor := 3
  blocks := 1048576
  name := literal "sda3"
  fits := by decide
  nonempty := List.cons_ne_nil _ _
  short := by decide
  plain := by decide

def uuid : Field := ⟨literal "UUID", literal "6b1f-09c2", by decide⟩

def ext4 : Field := ⟨literal "TYPE", literal "ext4", by decide⟩

/-- One device has a file system, the other has none. -/
def oneKnown (name : Chars) : Option (List Field) :=
  if name = sda1.name then some [uuid, ext4] else none

def blkidOneKnown (command : Chars) : Option Chars :=
  if command = blkidCommand sda1.name then some (blkidLine sda1.name [uuid, ext4] ++ [10])
  else some []

/-- The file system of `sda1` is found. -/
theorem sda1_found :
    (detectOperatingSystems (some (partitions [sda3, sda1])) blkidOneKnown 16).map
        DetectedOs.entry = [⟨literal "sda1", literal "ext4", 536870912⟩] := by
  have answers : ∀ device ∈ [sda3, sda1], Answers blkidOneKnown oneKnown device.name := by
    intro device member
    rcases List.mem_pair.mp member with rfl | rfl
    · exact .inr rfl
    · exact rfl
  refine ((installer_finds_iff answers (by decide) ?_ 16).mpr ?_).trans rfl
  · intro device member fields known
    rcases List.mem_pair.mp member with rfl | rfl
    · exact absurd known nofun
    · obtain rfl := Option.some.inj known
      decide
  · intro before device after split _
    have member : device ∈ [sda3, sda1] := split ▸ List.mem_append_right _ List.mem_cons_self
    rcases List.mem_pair.mp member with rfl | rfl
    · exact trivial
    · exact ⟨by decide, ⟨_, rfl, rfl⟩, by decide⟩

/-- The file system of `sda3` is not. -/
theorem sda3_not_found :
    ¬ ∀ (devices : List Device) (popen : Chars → Option Chars)
      (report : Chars → Option (List Field)),
      (∀ device ∈ devices, Answers popen report device.name) →
      (∀ device ∈ devices, device.line.length < 255) →
      (∀ device ∈ devices, ∀ fields, report device.name = some fields →
        (blkidLine device.name fields).length < 255) →
      ∀ maxCount : ℤ,
        (detectOperatingSystems (some (partitions devices)) popen maxCount).map DetectedOs.entry =
          (devices.filterMap (fileSystem report)).take maxCount.toNat := by
  intro finds
  let popen (_ : Chars) : Option Chars := some (blkidLine sda3.name [uuid, ext4] ++ [10])
  let report (_ : Chars) : Option (List Field) := some [uuid, ext4]
  have answers : ∀ device ∈ [sda3], Answers popen report device.name := by
    intro device member
    rw [List.mem_singleton.mp member]
    exact rfl
  have short : ∀ device ∈ [sda3], ∀ fields, report device.name = some fields →
      (blkidLine device.name fields).length < 255 := by
    intro device member fields known
    obtain rfl := Option.some.inj known
    rw [List.mem_singleton.mp member]
    decide
  have found := finds [sda3] popen report answers (by decide) short 16
  rw [detectOperatingSystems_partitions answers (by decide) short] at found
  exact absurd (congrArg List.length found) (by decide)

end CocosOS.Installer
