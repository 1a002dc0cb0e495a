import StreamHouse.Core.Record

/-!
# Object keys as text

`S3Key` keeps the parts of a key apart; here they are put together as `roll_segment`
and the compaction do, and taken apart as `reconcile_from_s3` does, by cutting the
path at its slashes. A key of `roll_segment` is read back exactly if the topic's name
has no slash in it.
-/

namespace StreamHouse

open List Option S3Key

/-- `{}` of an unsigned number. -/
def digits (n : Nat) : List Char := Nat.toDigits 10 n

/-- `{:020}`. -/
def padded (n : Nat) : List Char := replicate (20 - (digits n).length) '0' ++ digits n

def DataPrefix.path : DataPrefix → List Char
  | .data => "data".toList
  | .org id => "org-".toList ++ (id.toList ++ "/data".toList)

def S3Key.dataPrefix : S3Key → DataPrefix
  | .segment dir _ _ _ => dir
  | .compacted dir _ _ _ => dir

def S3Key.topic : S3Key → String
  | .segment _ topic _ _ => topic
  | .compacted _ topic _ _ => topic

def S3Key.partitionId : S3Key → Nat
  | .segment _ _ partitionId _ => partitionId
  | .compacted _ _ partitionId _ => partitionId

/-- The key that is put into the object store. -/
def S3Key.path : S3Key → List Char
  | .segment dir topic partitionId baseOffset =>
    dir.path ++ '/' :: (topic.toList ++ '/' :: (digits partitionId ++ '/' :: (padded baseOffset ++ ".seg".toList)))
  | .compacted dir topic partitionId baseOffset =>
    dir.path ++ '/' :: (topic.toList ++ '/' :: (digits partitionId ++
      '/' :: ("seg_".toList ++ (digits baseOffset ++ "_compacted.bin".toList))))

/-- `key.ends_with(".seg")`. -/
def endsWithSeg (key : List Char) : Bool := ".seg".toList.isSuffixOf key

/-- The text behind an optional plus sign. -/
def unsigned : List Char → List Char
  | '+' :: rest => rest
  | text => text

/-- `str::parse` into an unsigned type of `bound` values. -/
def parseUnsigned (bound : Nat) (text : List Char) : Option Nat :=
  let number := unsigned text
  if number ≠ [] ∧ number.all Char.isDigit ∧ Nat.ofDigitChars 10 number 0 < bound then some (Nat.ofDigitChars 10 number 0)
  else none

/-- `trim_end_matches(".seg")` on the reversed text. -/
def trimSegReversed : List Char → List Char
  | 'g' :: 'e' :: 's' :: '.' :: rest => trimSegReversed rest
  | text => text

def trimSeg (text : List Char) : List Char := (trimSegReversed text.reverse).reverse

/-- `key.strip_prefix(..).unwrap_or(&key)`. -/
def stripPrefix (front key : List Char) : List Char := if front.isPrefixOf key then key.drop front.length else key

/-- The parse of a key in `reconcile_from_s3`: topic, partition and base offset. -/
def parseKey (dir : DataPrefix) (key : List Char) : Option (String × Nat × Nat) :=
  match (stripPrefix (dir.path ++ ['/']) key).splitOn '/' with
  | topic :: partition :: file :: _ => do
    let partitionId ← parseUnsigned (2 ^ 32) partition
    let baseOffset ← parseUnsigned (2 ^ 64) (trimSeg file)
    some (String.ofList topic, partitionId, baseOffset)
  | _ => none

theorem isDigit_of_mem_digits {n : Nat} {c : Char} (member : c ∈ digits n) : c.isDigit = true :=
  Nat.isDigit_of_mem_toDigits (by decide) (by decide) member

theorem isDigit_of_mem_padded {n : Nat} {c : Char} (member : c ∈ padded n) : c.isDigit = true := by
  obtain zero | digit := mem_append.1 member
  · obtain rfl := eq_of_mem_replicate zero
    decide
  · exact isDigit_of_mem_digits digit

/-- A text of digits is read as its value. -/
theorem parseUnsigned_of_digits {bound : Nat} {text : List Char} (present : text ≠ []) (numeric : ∀ c ∈ text, c.isDigit = true)
    (fits : Nat.ofDigitChars 10 text 0 < bound) : parseUnsigned bound text = some (Nat.ofDigitChars 10 text 0) := by
  have whole : unsigned text = text := by
    unfold unsigned
    split
    · exact absurd (numeric '+' mem_cons_self) (by decide)
    · rfl
  have all : text.all Char.isDigit = true := all_eq_true.2 numeric
  unfold parseUnsigned
  rw [whole]
  exact if_pos ⟨present, all, fits⟩

theorem parseUnsigned_digits {bound n : Nat} (fits : n < bound) : parseUnsigned bound (digits n) = some n := by
  have value : Nat.ofDigitChars 10 (digits n) 0 = n := Nat.ofDigitChars_ten_toDigits
  have read : parseUnsigned bound (digits n) = some (Nat.ofDigitChars 10 (digits n) 0) :=
    parseUnsigned_of_digits Nat.toDigits_ne_nil (fun c member => isDigit_of_mem_digits member) (by rw [value]; exact fits)
  rw [read, value]

theorem parseUnsigned_padded {bound n : Nat} (fits : n < bound) : parseUnsigned bound (padded n) = some n := by
  have value : Nat.ofDigitChars 10 (padded n) 0 = n := by
    rw [padded, Nat.ofDigitChars_append, Nat.ofDigitChars_replicate_zero, Nat.mul_zero]
    exact Nat.ofDigitChars_ten_toDigits
  have present : padded n ≠ [] := append_ne_nil_of_right_ne_nil _ Nat.toDigits_ne_nil
  have read : parseUnsigned bound (padded n) = some (Nat.ofDigitChars 10 (padded n) 0) :=
    parseUnsigned_of_digits present (fun c member => isDigit_of_mem_padded member) (by rw [value]; exact fits)
  rw [read, value]

/-- The suffix is trimmed once: behind it stands a digit. -/
theorem trimSeg_padded (n : Nat) : trimSeg (padded n ++ ".seg".toList) = padded n := by
  have stops : trimSegReversed (padded n).reverse = (padded n).reverse := by
    cases reversed : (padded n).reverse with
    | nil => rfl
    | cons c rest =>
      have digit : c.isDigit = true := by
        apply isDigit_of_mem_padded (n := n)
        rw [← mem_reverse, reversed]
        exact mem_cons_self
      have other : c ≠ 'g' := by
        rintro rfl
        exact absurd digit (by decide)
      unfold trimSegReversed
      split
      · next same => exact absurd (cons.inj same).1 other
      · rfl
  have reversed : (padded n ++ ".seg".toList).reverse = 'g' :: 'e' :: 's' :: '.' :: (padded n).reverse := by
    rw [reverse_append]
    rfl
  rw [trimSeg, reversed, trimSegReversed, stops, reverse_reverse]

theorem slash_not_mem_digits (n : Nat) : '/' ∉ digits n := by
  intro member
  exact absurd (isDigit_of_mem_digits member) (by decide)

/-- The part of a key behind the scanned prefix. -/
theorem stripPrefix_path (dir : DataPrefix) (rest : List Char) :
    stripPrefix (dir.path ++ ['/']) (dir.path ++ '/' :: rest) = rest := by
  have split : dir.path ++ '/' :: rest = dir.path ++ ['/'] ++ rest := by simp
  have front : (dir.path ++ ['/']).isPrefixOf (dir.path ++ ['/'] ++ rest) = true := by
    rw [List.isPrefixOf_iff_prefix]
    exact prefix_append _ _
  rw [stripPrefix, split, if_pos front, drop_left]

/-- The first part of a path that is cut at its slashes has none. -/
theorem slash_not_mem_head {path topic : List Char} {rest : List (List Char)} (cut : path.splitOn '/' = topic :: rest) :
    '/' ∉ topic := by
  induction path generalizing topic rest with
  | nil =>
    obtain ⟨rfl, -⟩ := cons.inj cut
    exact not_mem_nil
  | cons c path ih =>
    rw [splitOn_cons_eq_if_modifyHead] at cut
    split at cut
    · obtain ⟨rfl, -⟩ := cons.inj cut
      exact not_mem_nil
    · next other =>
      obtain ⟨first, others, parts⟩ := exists_cons_of_ne_nil (splitOn_ne_nil '/' path)
      rw [parts] at cut
      obtain ⟨rfl, -⟩ := cons.inj cut
      have here : c ≠ '/' := by simpa using other
      intro member
      obtain same | later := mem_cons.1 member
      · exact here same.symm
      · exact ih parts later

theorem parseKey_topic {dir : DataPrefix} {key : List Char} {topic : String} {partitionId baseOffset : Nat}
    (parsed : parseKey dir key = some (topic, partitionId, baseOffset)) : '/' ∉ topic.toList := by
  unfold parseKey at parsed
  split at parsed
  · next first partition file rest cut =>
    obtain ⟨_, -, parsed⟩ := bind_eq_some_iff.1 parsed
    obtain ⟨_, -, parsed⟩ := bind_eq_some_iff.1 parsed
    obtain ⟨rfl, -⟩ := Prod.mk.inj (some.inj parsed)
    rw [String.toList_ofList]
    exact slash_not_mem_head cut
  · cases parsed

/-- A key of `roll_segment` is read back exactly if the topic has no slash. -/
theorem parseKey_segment {dir : DataPrefix} {topic : String} {partitionId baseOffset : Nat} (partition : partitionId < 2 ^ 32)
    (offset : baseOffset < 2 ^ 64) :
    parseKey dir (segment dir topic partitionId baseOffset).path = some (topic, partitionId, baseOffset) ↔
      '/' ∉ topic.toList := by
  constructor
  · exact parseKey_topic
  · intro plain
    have last : '/' ∉ padded baseOffset ++ ".seg".toList := by
      intro member
      obtain digit | suffix := mem_append.1 member
      · exact absurd (isDigit_of_mem_padded digit) (by decide)
      · exact absurd suffix (by decide)
    have cut : (topic.toList ++ '/' :: (digits partitionId ++ '/' :: (padded baseOffset ++ ".seg".toList))).splitOn '/' =
        [topic.toList, digits partitionId, padded baseOffset ++ ".seg".toList] := by
      rw [splitOn_append_cons_self_of_not_mem plain, splitOn_append_cons_self_of_not_mem (slash_not_mem_digits _),
        splitOn_eq_singleton last]
    unfold parseKey path
    rw [stripPrefix_path, cut]
    simp only [parseUnsigned_digits partition, trimSeg_padded, parseUnsigned_padded offset, bind_eq_bind,
      bind_some, String.ofList_toList]

theorem endsWithSeg_segment (dir : DataPrefix) (topic : String) (partitionId baseOffset : Nat) :
    endsWithSeg (segment dir topic partitionId baseOffset).path = true := by
  unfold endsWithSeg path
  rw [isSuffixOf_iff_suffix]
  refine ⟨dir.path ++ '/' :: (topic.toList ++ '/' :: (digits partitionId ++ '/' :: padded baseOffset)), ?_⟩
  simp

/-- What the compaction writes is not found by its suffix. -/
theorem endsWithSeg_compacted (dir : DataPrefix) (topic : String) (partitionId baseOffset : Nat) :
    endsWithSeg (compacted dir topic partitionId baseOffset).path = false := by
  rw [Bool.eq_false_iff]
  intro suffix
  unfold endsWithSeg path at suffix
  rw [isSuffixOf_iff_suffix] at suffix
  have other : "_compacted.bin".toList <:+ dir.path ++ '/' :: (topic.toList ++ '/' :: (digits partitionId ++
      '/' :: ("seg_".toList ++ (digits baseOffset ++ "_compacted.bin".toList)))) := by
    refine ⟨dir.path ++ '/' :: (topic.toList ++ '/' :: (digits partitionId ++ '/' :: ("seg_".toList ++ digits baseOffset))), ?_⟩
    simp
  have inside : ".seg".toList <:+ "_compacted.bin".toList := suffix_of_suffix_length_le suffix other (by decide)
  exact absurd inside (by decide)

end StreamHouse
