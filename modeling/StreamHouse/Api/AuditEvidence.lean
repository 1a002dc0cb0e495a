import Mathlib.Data.Set.Function
import StreamHouse.Api.AuditChain
import StreamHouse.Core.Record
import StreamHouse.Lib.Bytes
import StreamHouse.Lib.Delimited

/-!
# Audit records as evidence

The hash of a record is the SHA-256 of its number, the JSON text of its entry and the hash of the
record before it. The text ends where it ends whatever is behind it, so that two chains that are
verified and end in one hash have the same entries under the same numbers.
-/

namespace StreamHouse.Api

open Lib HashChain List StoredAuditRecord Delimited

structure StoredAuditEntry where
  requestId : Nat
  method : String
  path : String
  query : Option String
  apiKeyId : Option String
  organizationId : Option String
  statusCode : Nat
  durationMs : Nat
  operation : String
  clientIp : Option String
  userAgent : Option String
  success : Bool
  error : Option String
  timestamp : Int

open StoredAuditEntry

/-! ## The text of an entry -/

/-- The letter behind the backslash, for the characters that have one. -/
def shortEscape (c : Char) : Option Char :=
  if c = '"' then some '"'
  else if c = '\\' then some '\\'
  else if c = Char.ofNat 8 then some 'b'
  else if c = Char.ofNat 9 then some 't'
  else if c = Char.ofNat 10 then some 'n'
  else if c = Char.ofNat 12 then some 'f'
  else if c = Char.ofNat 13 then some 'r'
  else none

/-- A character in a string of `serde_json`. -/
def escapeChar (c : Char) : List Char :=
  match shortEscape c with
  | some letter => ['\\', letter]
  | none =>
    if c.toNat < 32 then ['\\', 'u', '0', '0', Nat.digitChar (c.toNat / 16), Nat.digitChar (c.toNat % 16)] else [c]

def jsonString (s : String) : List Char := '"' :: (s.toList.flatMap escapeChar ++ ['"'])

def jsonOption (s : Option String) : List Char := s.elim ['n', 'u', 'l', 'l'] jsonString

def jsonBool (b : Bool) : List Char := if b then ['t', 'r', 'u', 'e'] else ['f', 'a', 'l', 's', 'e']

/-- A value behind its key. -/
def field (key : String) (value : List Char) : List Char := key.toList ++ value

/-- `serde_json::to_string` of an entry. -/
def entryText (e : StoredAuditEntry) : List Char :=
  field "\x7b\"request_id\":" ((toString e.requestId).toList ++ [',']) ++
    field "\"method\":" (jsonString e.method) ++
    field ",\"path\":" (jsonString e.path) ++
    field ",\"query\":" (jsonOption e.query) ++
    field ",\"api_key_id\":" (jsonOption e.apiKeyId) ++
    field ",\"organization_id\":" (jsonOption e.organizationId) ++
    field ",\"status_code\":" ((toString e.statusCode).toList ++ [',']) ++
    field "\"duration_ms\":" ((toString e.durationMs).toList ++ [',']) ++
    field "\"operation\":" (jsonString e.operation) ++
    field ",\"client_ip\":" (jsonOption e.clientIp) ++
    field ",\"user_agent\":" (jsonOption e.userAgent) ++
    field ",\"success\":" (jsonBool e.success) ++
    field ",\"error\":" (jsonOption e.error) ++
    field ",\"timestamp\":" ((toString e.timestamp).toList ++ ['}'])

/-- The character that a letter behind the backslash is for. -/
def unescape (letter : Char) : Char :=
  if letter = 'b' then Char.ofNat 8
  else if letter = 't' then Char.ofNat 9
  else if letter = 'n' then Char.ofNat 10
  else if letter = 'f' then Char.ofNat 12
  else if letter = 'r' then Char.ofNat 13
  else letter

theorem unescape_of_shortEscape {c letter : Char} (short : shortEscape c = some letter) : unescape letter = c := by
  unfold shortEscape at short
  split_ifs at short with is is is is is is is
  all_goals
    obtain rfl := Option.some.inj short
    rw [is]
    decide

theorem shortEscape_inj {c d letter : Char} (first : shortEscape c = some letter) (second : shortEscape d = some letter) : c = d := by
  rw [← unescape_of_shortEscape first, unescape_of_shortEscape second]

theorem shortEscape_not_u (c : Char) : shortEscape c ≠ some 'u' := by
  unfold shortEscape
  grind

theorem digitChar_inj {m n : Nat} (first : m < 16) (second : n < 16) (same : Nat.digitChar m = Nat.digitChar n) : m = n := by
  have all : ∀ i j : Fin 16, Nat.digitChar i = Nat.digitChar j → i = j := by decide
  exact congrArg Fin.val (all ⟨m, first⟩ ⟨n, second⟩ same)

/-- No other character begins with a backslash. -/
theorem escapeChar_plain {c : Char} (long : shortEscape c = none) : c ≠ '\\' ∧ c ≠ '"' := by
  unfold shortEscape at long
  grind

theorem escapeChar_delimited : Delimited escapeChar id := by
  intro c d x y same
  unfold escapeChar at same
  cases first : shortEscape c with
  | some letter =>
    rw [first] at same
    cases second : shortEscape d with
    | some letter' =>
      rw [second] at same
      obtain ⟨rfl, rest⟩ := List.cons.inj (List.cons.inj same).2
      exact ⟨shortEscape_inj first second, rest⟩
    | none =>
      rw [second] at same
      dsimp only at same
      split_ifs at same
      · obtain ⟨rfl, -⟩ := List.cons.inj (List.cons.inj same).2
        exact absurd first (shortEscape_not_u c)
      · exact absurd (List.cons.inj same).1.symm (escapeChar_plain second).1
  | none =>
    rw [first] at same
    cases second : shortEscape d with
    | some letter =>
      rw [second] at same
      dsimp only at same
      split_ifs at same
      · obtain ⟨rfl, -⟩ := List.cons.inj (List.cons.inj same).2
        exact absurd second (shortEscape_not_u d)
      · exact absurd (List.cons.inj same).1 (escapeChar_plain first).1
    | none =>
      rw [second] at same
      dsimp only at same
      split_ifs at same with low low' low'
      · obtain ⟨high, rest⟩ := List.cons.inj (List.append_cancel_left (show ['\\', 'u', '0', '0'] ++ _ = ['\\', 'u', '0', '0'] ++ _ from same))
        obtain ⟨last, rest⟩ := List.cons.inj rest
        have one := digitChar_inj (by omega) (by omega) high
        have two := digitChar_inj (by omega) (by omega) last
        have same : c.toNat = d.toNat := by omega
        exact ⟨Char.toNat_inj.mp same, rest⟩
      · exact absurd (List.cons.inj same).1.symm (escapeChar_plain second).1
      · exact absurd (List.cons.inj same).1 (escapeChar_plain first).1
      · exact List.cons.inj same

theorem escapeChar_begins (c : Char) : ∃ d rest, escapeChar c = d :: rest ∧ d ≠ '"' := by
  unfold escapeChar
  cases short : shortEscape c with
  | some letter => exact ⟨_, _, rfl, by decide⟩
  | none =>
    dsimp only
    split_ifs
    · exact ⟨_, _, rfl, by decide⟩
    · exact ⟨_, _, rfl, (escapeChar_plain short).2⟩

theorem jsonString_delimited : Delimited jsonString id := by
  intro s t x y same
  have inner := (list escapeChar_delimited escapeChar_begins) s.toList t.toList x y (cons.inj same).2
  dsimp only at inner
  rw [map_id, map_id] at inner
  exact ⟨String.toList_inj.mp inner.1, inner.2⟩

example : String.ofList (jsonString "say \"hi\"\n\x01") = "\"say \\\"hi\\\"\\n\\u0001\"" := by decide

theorem jsonOption_delimited : Delimited jsonOption id := by
  have delimited : Delimited (fun s : Option String => s.elim ['n', 'u', 'l', 'l'] jsonString) fun s => s.map id :=
    option jsonString_delimited (fun s => ⟨_, rfl⟩) (by decide)
  intro a b x y same
  have both := delimited a b x y same
  simpa using both

theorem jsonBool_delimited : Delimited jsonBool id := by
  intro a b x y same
  cases a <;> cases b
  · exact ⟨rfl, append_cancel_left same⟩
  · exact absurd (cons.inj same).1 (by decide)
  · exact absurd (cons.inj same).1 (by decide)
  · exact ⟨rfl, append_cancel_left same⟩

/-- A number up to the symbol behind it. -/
theorem number_delimited (stop : Char) (other : stop.isDigit = false) (minus : stop ≠ '-') :
    Delimited (fun n : Int => (toString n).toList ++ [stop]) id :=
  stopped (notMem_toString other minus) fun _ _ same => toString_inj same

theorem natural_delimited : Delimited (fun n : Nat => (toString n).toList ++ [',']) id :=
  stopped (fun n => notMem_toString (by decide) (by decide) (n : Int)) fun m n same => Int.ofNat.inj (toString_inj (m := m) (n := n) same)

/-- **The text of an entry tells the entry, and where it ends.** -/
theorem entryText_delimited : Delimited entryText id := by
  have natural (key : String) (get : StoredAuditEntry → Nat) := (natural_delimited.comp get).behind key.toList
  have string (key : String) (get : StoredAuditEntry → String) := (jsonString_delimited.comp get).behind key.toList
  have option (key : String) (get : StoredAuditEntry → Option String) := (jsonOption_delimited.comp get).behind key.toList
  have success := (jsonBool_delimited.comp success).behind ",\"success\":".toList
  have timestamp := ((number_delimited '}' (by decide) (by decide)).comp timestamp).behind ",\"timestamp\":".toList
  have all := natural "\x7b\"request_id\":" requestId
    |>.append (string "\"method\":" method)
    |>.append (string ",\"path\":" path)
    |>.append (option ",\"query\":" query)
    |>.append (option ",\"api_key_id\":" apiKeyId)
    |>.append (option ",\"organization_id\":" organizationId)
    |>.append (natural ",\"status_code\":" statusCode)
    |>.append (natural "\"duration_ms\":" durationMs)
    |>.append (string "\"operation\":" operation)
    |>.append (option ",\"client_ip\":" clientIp)
    |>.append (option ",\"user_agent\":" userAgent)
    |>.append success
    |>.append (option ",\"error\":" error)
    |>.append timestamp
  intro a b x y same
  obtain ⟨fields, rest⟩ := all a b x y same
  cases a
  cases b
  simp only [Prod.mk.injEq, id] at fields
  exact ⟨by simp [fields], rest⟩

/-! ## The hash of a record -/

/-- `as_bytes`. -/
def utf8 (s : String) : Bytes := s.toUTF8.data.toList

/-- What SHA-256 gives. -/
abbrev Digest := { bytes : Bytes // bytes.length = 32 }

/-- `format!` with `x`. -/
def hexText (digest : Digest) : String :=
  String.ofList (digest.val.flatMap fun b => [Nat.digitChar (b.toNat / 16), Nat.digitChar (b.toNat % 16)])

/-- What is hashed for a record. -/
def hashInput (seq : Nat) (entry : StoredAuditEntry) (prevHash : String) : Bytes :=
  putLE 8 seq ++ utf8 (String.ofList (entryText entry)) ++ utf8 prevHash

/-- The format of the audit store, with `Sha256` and the length of a line. -/
def sha256Format (sha256 : Bytes → Digest) (lineLength : StoredAuditRecord StoredAuditEntry → Nat) : AuditFormat StoredAuditEntry where
  computeHash := fun seq entry prevHash => hexText (sha256 (hashInput seq entry prevHash))
  lineLength

theorem utf8_append (s t : String) : utf8 (s ++ t) = utf8 s ++ utf8 t := by
  unfold utf8
  rw [String.toUTF8, String.toByteArray_append, ByteArray.toList_data_append]
  rfl

theorem utf8_inj {s t : String} (same : utf8 s = utf8 t) : s = t := by
  apply String.toByteArray_inj.mp
  apply ByteArray.ext
  exact Array.toList_inj.mp same

theorem hexText_inj {d d' : Digest} (same : hexText d = hexText d') : d = d' := by
  have byte : Delimited (fun b : UInt8 => [Nat.digitChar (b.toNat / 16), Nat.digitChar (b.toNat % 16)]) id := by
    intro a b x y same
    obtain ⟨high, rest⟩ := cons.inj same
    obtain ⟨low, rest⟩ := cons.inj rest
    have boundA := a.toNat_lt
    have boundB := b.toNat_lt
    have one := digitChar_inj (by omega) (by omega) high
    have two := digitChar_inj (by omega) (by omega) low
    have same : a.toNat = b.toNat := by omega
    exact ⟨UInt8.toNat_inj.mp same, rest⟩
  have bytes := byte.flatMap_inj (fun _ => cons_ne_nil _ _) (String.ofList_injective same)
  rw [map_id, map_id] at bytes
  exact Subtype.ext bytes

theorem hexText_ne_empty (d : Digest) : hexText d ≠ "" := by
  intro empty
  obtain ⟨bytes, size⟩ := d
  cases bytes with
  | nil => cases size
  | cons b rest => exact absurd (congrArg String.toList empty) (by simp [hexText])

theorem hashInput_inj {seq seq' : Nat} {entry entry' : StoredAuditEntry} {prevHash prevHash' : String} (fits : seq < 2 ^ 64)
    (fits' : seq' < 2 ^ 64) (same : hashInput seq entry prevHash = hashInput seq' entry' prevHash') :
    seq = seq' ∧ entry = entry' ∧ prevHash = prevHash' := by
  unfold hashInput at same
  rw [append_assoc, append_assoc, ← utf8_append, ← utf8_append] at same
  obtain ⟨number, rest⟩ := append_inj same (by rw [putLE_length, putLE_length])
  have texts := congrArg String.toList (utf8_inj rest)
  rw [String.toList_append, String.toList_append, String.toList_ofList, String.toList_ofList] at texts
  obtain ⟨entries, behind⟩ := entryText_delimited entry entry' _ _ texts
  have numbers : valueLE (putLE 8 seq) = valueLE (putLE 8 seq') := congrArg valueLE number
  rw [valueLE_putLE fits, valueLE_putLE fits'] at numbers
  exact ⟨numbers, entries, String.toList_inj.mp behind⟩

/-! ## Two verified chains -/

/-- A list that passes is linked, and every record has the right hash. -/
theorem linked_of_verifyLoop {Entry : Type} {format : AuditFormat Entry} {records : List (StoredAuditRecord Entry)} {prevHash : String}
    {n : Nat} (valid : (format.verifyLoop prevHash n records).valid = true) :
    Linked StoredAuditRecord.prevHash StoredAuditRecord.hash prevHash records ∧ ∀ r ∈ records, format.verify r = true := by
  induction records generalizing prevHash n with
  | nil => exact ⟨trivial, by rintro _ ⟨⟩⟩
  | cons r rest ih =>
    unfold AuditFormat.verifyLoop at valid
    split_ifs at valid with broken wrong
    · obtain ⟨linked, verified⟩ := ih valid
      refine ⟨⟨not_not.mp broken, linked⟩, fun other inside => ?_⟩
      rcases mem_cons.mp inside with rfl | inside
      · exact wrong
      · exact verified other inside

/-- The hash at the end is the tip of the chain. -/
theorem tip_of_getLast? {Entry : Type} {records : List (StoredAuditRecord Entry)} {r : StoredAuditRecord Entry}
    (last : records.getLast? = some r) : tip hash "" records = r.hash := by
  obtain ⟨front, rfl⟩ := getLast?_eq_some_iff.mp last
  rw [tip_append, tip_singleton]

/-- What is hashed for a stored record. -/
def hashed (r : StoredAuditRecord StoredAuditEntry) : Bytes := hashInput r.seq r.entry r.prevHash

/-- **Two chains that pass the checks and end in one hash say the same.** -/
theorem audit_chain_evidence (sha256 : Bytes → Digest) (lineLength : StoredAuditRecord StoredAuditEntry → Nat)
    (records records' : List (StoredAuditRecord StoredAuditEntry)) (r r' : StoredAuditRecord StoredAuditEntry)
    (numbers : ∀ a ∈ records ++ records', a.seq < 2 ^ 64)
    (injective : Set.InjOn sha256 {input | ∃ a ∈ records ++ records', hashed a = input})
    (valid : ((sha256Format sha256 lineLength).verifyLoop "" 0 records).valid = true)
    (valid' : ((sha256Format sha256 lineLength).verifyLoop "" 0 records').valid = true)
    (last : records.getLast? = some r) (last' : records'.getLast? = some r') (same : r.hash = r'.hash) :
    records.length = records'.length ∧
      records.map (fun a => (a.seq, a.entry)) = records'.map fun a => (a.seq, a.entry) := by
  obtain ⟨linked, verified⟩ := linked_of_verifyLoop valid
  obtain ⟨linked', verified'⟩ := linked_of_verifyLoop valid'
  have computed {a : StoredAuditRecord StoredAuditEntry} (good : (sha256Format sha256 lineLength).verify a = true) :
      a.hash = hexText (sha256 (hashed a)) := of_decide_eq_true good
  have tells (a : StoredAuditRecord StoredAuditEntry) (inside : a ∈ records) (b : StoredAuditRecord StoredAuditEntry)
      (inside' : b ∈ records') (hashes : a.hash = b.hash) : (a.seq, a.entry) = (b.seq, b.entry) ∧ a.prevHash = b.prevHash := by
    rw [computed (verified a inside), computed (verified' b inside')] at hashes
    have left := mem_append_left records' inside
    have right := mem_append_right records inside'
    have inputs : hashed a = hashed b := injective ⟨a, left, rfl⟩ ⟨b, right, rfl⟩ (hexText_inj hashes)
    obtain ⟨seqs, entries, before⟩ := hashInput_inj (numbers a left) (numbers b right) inputs
    exact ⟨Prod.ext seqs entries, before⟩
  have begun (a : StoredAuditRecord StoredAuditEntry) (good : (sha256Format sha256 lineLength).verify a = true) : a.hash ≠ "" := by
    rw [computed good]
    exact hexText_ne_empty _
  have tips : tip hash "" records = tip hash "" records' := by
    rw [tip_of_getLast? last, tip_of_getLast? last', same]
  have contents := contents_eq_of_tip prevHash hash linked linked' tells
    (fun a inside => begun a (verified a inside)) (fun a inside => begun a (verified' a inside)) tips
  refine ⟨?_, contents⟩
  have lengths := congrArg List.length contents
  rwa [length_map, length_map] at lengths

/-! ## A chain of two records -/

def listTopics : StoredAuditEntry :=
  ⟨1, "GET", "/topics", none, none, none, 200, 3, "list", none, none, true, none, 1000⟩

def firstDigest : Digest :=
  ⟨[88, 81, 170, 197, 149, 150, 196, 252, 198, 230, 247, 253, 6, 132, 249, 83, 229, 106, 156, 220, 126, 74, 11, 75, 219, 96, 167, 125,
    218, 29, 209, 195], rfl⟩

def secondDigest : Digest :=
  ⟨[155, 15, 45, 222, 215, 196, 172, 126, 35, 114, 33, 18, 53, 119, 242, 204, 245, 191, 28, 123, 106, 92, 106, 123, 162, 146, 78, 83, 2, 233,
    112, 247], rfl⟩

/-- SHA-256 of the two inputs. -/
def sha256OfTwo (input : Bytes) : Digest := if input = hashInput 1 listTopics "" then firstDigest else secondDigest

/-- The records, stored at a time. -/
def twoRecords (storedAt : Int) : List (StoredAuditRecord StoredAuditEntry) :=
  [⟨1, storedAt, listTopics, "", hexText firstDigest⟩, ⟨2, storedAt, listTopics, hexText firstDigest, hexText secondDigest⟩]

theorem hashInput_two : hashInput 2 listTopics (hexText firstDigest) ≠ hashInput 1 listTopics "" := by
  intro same
  exact absurd (hashInput_inj (by decide) (by decide) same).1 (by decide)

theorem twoRecords_valid (lineLength : StoredAuditRecord StoredAuditEntry → Nat) (storedAt : Int) :
    ((sha256Format sha256OfTwo lineLength).verifyLoop "" 0 (twoRecords storedAt)).valid = true := by
  simp [AuditFormat.verifyLoop, AuditFormat.verify, sha256Format, twoRecords, sha256OfTwo, hashInput_two]

theorem audit_chain_evidence_two_copies : (twoRecords 10).map (fun a => (a.seq, a.entry)) = (twoRecords 20).map fun a => (a.seq, a.entry) := by
  have injective : Set.InjOn sha256OfTwo {input | ∃ a ∈ twoRecords 10 ++ twoRecords 20, hashed a = input} := by
    have differ : firstDigest ≠ secondDigest := by decide
    rintro _ ⟨a, inside, rfl⟩ _ ⟨b, inside', rfl⟩ same
    simp only [twoRecords, cons_append, nil_append, mem_cons, not_mem_nil, or_false] at inside inside'
    rcases inside with rfl | rfl | rfl | rfl <;> rcases inside' with rfl | rfl | rfl | rfl <;>
      simp_all [hashed, sha256OfTwo, eq_comm]
  exact (audit_chain_evidence sha256OfTwo (fun _ => 0) (twoRecords 10) (twoRecords 20) _ _ (by decide) injective
    (twoRecords_valid _ _) (twoRecords_valid _ _) rfl rfl rfl).2

end StreamHouse.Api
