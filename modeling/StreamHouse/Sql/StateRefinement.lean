import StreamHouse.Sql.StateStores

/-!
# The store in RocksDB refines the one in memory

`refines_of_kept` says in which runs of calls, at any times, every answer of the store in RocksDB is that of the store in
memory without its expired entries, and every checkpoint gives the store back as it would have been read.
-/

namespace StreamHouse.Sql.State

open Lib Lib.OrderedMap Lib.HashMaps List RocksDbStateStore OrderedMap TtlEntry

/-! ## Names in bytes -/

theorem zero_eq_ofNat {n : Nat} : (0 : UInt8) = UInt8.ofNat n ↔ n % 256 = 0 := by
  rw [← UInt8.toNat_inj, UInt8.toNat_ofNat']
  exact eq_comm

/-- Only the null character has a null byte. -/
theorem zero_mem_utf8EncodeChar {c : Char} : 0 ∈ String.utf8EncodeChar c ↔ c = Char.ofNat 0 := by
  constructor
  · intro inside
    have null : c.val.toNat = 0 := by
      unfold String.utf8EncodeChar at inside
      dsimp only at inside
      split_ifs at inside with one two three <;>
        simp only [mem_cons, not_mem_nil, or_false, zero_eq_ofNat] at inside <;> omega
    apply Char.ext
    exact UInt32.toNat_inj.mp null
  · rintro rfl
    decide

theorem fromUtf8_asBytes (s : String) : fromUtf8 (asBytes s) = some s := by
  have encoded : (asBytes s).toByteArray = s.toByteArray := String.utf8Encode_toList
  rw [fromUtf8, encoded, String.fromUTF8?, dif_pos s.isValidUTF8]
  rfl

@[simp] theorem fromUtf8Lossy_asBytes (s : String) : fromUtf8Lossy (asBytes s) = s := by
  rw [fromUtf8Lossy, fromUtf8_asBytes, Option.getD_some]

/-- The bytes before the first null byte are those of a name. -/
theorem takeWhile_prefixed (ns : String) (key : List UInt8) : (makePrefixedKey ns key).takeWhile (· ≠ 0) =
    asBytes (String.ofList (ns.toList.takeWhile (· ≠ Char.ofNat 0))) := by
  rw [makePrefixedKey, asBytes, asBytes, String.toList_ofList]
  induction ns.toList with
  | nil => simp
  | cons c l ih =>
    by_cases null : c = Char.ofNat 0
    · subst null
      rfl
    · have clear : ∀ b ∈ String.utf8EncodeChar c, decide (b ≠ 0) = true := by
        rintro b inside
        rw [decide_eq_true_eq]
        rintro rfl
        exact null (zero_mem_utf8EncodeChar.mp inside)
      rw [flatMap_cons, append_assoc, takeWhile_append_of_pos clear, ih,
        takeWhile_cons_of_pos (by simpa using null), flatMap_cons]

/-- A list with a null byte is cut at the first. -/
theorem cut_at_zero {bytes : List UInt8} (null : 0 ∈ bytes) :
    bytes.takeWhile (· ≠ 0) ++ 0 :: (bytes.dropWhile (· ≠ 0)).drop 1 = bytes := by
  induction bytes with
  | nil => exact absurd null not_mem_nil
  | cons b bytes ih =>
    by_cases here : b = 0
    · subst here
      rfl
    · have later := (mem_cons.mp null).resolve_left (Ne.symm here)
      rw [takeWhile_cons_of_pos (by simpa using here), dropWhile_cons_of_pos (by simpa using here), cons_append, ih later]

/-- A key of the database is made again of its parts. -/
theorem prefixed_parts (ns : String) (key : List UInt8) :
    makePrefixedKey (fromUtf8Lossy ((makePrefixedKey ns key).takeWhile (· ≠ 0))) (((makePrefixedKey ns key).dropWhile (· ≠ 0)).drop 1) =
      makePrefixedKey ns key := by
  have null : 0 ∈ makePrefixedKey ns key := by simp [makePrefixedKey]
  conv_rhs => rw [← cut_at_zero null]
  rw [makePrefixedKey, takeWhile_prefixed, fromUtf8Lossy_asBytes]

theorem prefixed_eq (ns : String) (key : List UInt8) : makePrefixedKey ns key = makePrefixedKey ns [] ++ key := by
  rw [makePrefixedKey, makePrefixedKey, append_assoc]
  rfl

theorem prefixed_inj {ns : String} {key key' : List UInt8} : makePrefixedKey ns key = makePrefixedKey ns key' ↔ key = key' := by
  rw [prefixed_eq, prefixed_eq ns key', append_cancel_left_eq]

theorem prefixed_starts {ns : String} {keyStart raw : List UInt8} :
    makePrefixedKey ns keyStart <+: raw ↔ ∃ key, keyStart <+: key ∧ raw = makePrefixedKey ns key := by
  constructor
  · rintro ⟨rest, rfl⟩
    refine ⟨keyStart ++ rest, prefix_append _ _, ?_⟩
    rw [prefixed_eq, prefixed_eq ns (keyStart ++ rest), append_assoc]
  · rintro ⟨_, ⟨rest, rfl⟩, rfl⟩
    refine ⟨rest, ?_⟩
    rw [prefixed_eq, prefixed_eq ns (keyStart ++ rest), append_assoc]

theorem drop_prefixed (ns : String) (key : List UInt8) : (makePrefixedKey ns key).drop (makePrefixedKey ns []).length = key := by
  have cut : (makePrefixedKey ns [] ++ key).drop (makePrefixedKey ns []).length = key := drop_left
  rwa [← prefixed_eq] at cut

/-! ## The database -/

namespace RocksDbStateStore

variable {store : RocksDbStateStore}

/-- The value of an entry that has not expired. -/
def live (now : Int) (entry : TtlEntry) : Option (List UInt8) := if entry.isExpired now then none else some entry.value

theorem get_eq (now : Int) (ns : String) (key : List UInt8) :
    store.get now ns key = (OrderedMap.get store.db (makePrefixedKey ns key)).bind (live now) := by
  unfold get
  cases OrderedMap.get store.db (makePrefixedKey ns key) <;> rfl

theorem mem_db {raw : List UInt8} {entry : TtlEntry} : (raw, entry) ∈ store.db ↔ OrderedMap.get store.db raw = some entry :=
  ⟨fun inside => store.ascending.get_of_mem inside, mem_of_get⟩

theorem scanPrefix_eq (now : Int) (ns : String) (keyStart : List UInt8) : store.scanPrefix now ns keyStart =
    (store.db.filter fun entry => (makePrefixedKey ns keyStart).isPrefixOf entry.1).filterMap fun entry =>
      (live now entry.2).map fun value => (entry.1.drop (makePrefixedKey ns []).length, value) := by
  rw [scanPrefix, scan_eq_filter store.ascending]
  refine filterMap_congr fun entry _ => ?_
  obtain ⟨rawKey, entry⟩ := entry
  dsimp only
  unfold live
  split_ifs <;> rfl

/-- A scan gives the keys with the prefix, with what is read of them. -/
theorem mem_scanPrefix {now : Int} {ns : String} {keyStart key value : List UInt8} :
    (key, value) ∈ store.scanPrefix now ns keyStart ↔ keyStart <+: key ∧ store.get now ns key = some value := by
  rw [get_eq, scanPrefix_eq, mem_filterMap, Option.bind_eq_some_iff]
  constructor
  · rintro ⟨⟨raw, entry⟩, inside, given⟩
    obtain ⟨there, starts⟩ := mem_filter.mp inside
    obtain ⟨key', starts', rfl⟩ := prefixed_starts.mp (List.isPrefixOf_iff_prefix.mp starts)
    obtain ⟨value', isLive, same⟩ := Option.map_eq_some_iff.mp given
    rw [drop_prefixed] at same
    obtain ⟨rfl, rfl⟩ := Prod.mk.inj same
    exact ⟨starts', entry, mem_db.mp there, isLive⟩
  · rintro ⟨starts, entry, there, isLive⟩
    refine ⟨(makePrefixedKey ns key, entry), mem_filter.mpr ⟨mem_db.mpr there, ?_⟩, ?_⟩
    · exact isPrefixOf_iff_prefix.mpr (prefixed_starts.mpr ⟨key, starts, rfl⟩)
    · rw [isLive, drop_prefixed]
      rfl

theorem scanPrefix_nodup (now : Int) (ns : String) (keyStart : List UInt8) : (store.scanPrefix now ns keyStart).Nodup := by
  rw [scanPrefix_eq]
  refine pairwise_filterMap.mpr (List.Pairwise.imp_of_mem ?_ (store.ascending.filter _))
  intro a b inA inB below x givenX y givenY same
  obtain ⟨keyA, -, isA⟩ := prefixed_starts.mp (List.isPrefixOf_iff_prefix.mp (mem_filter.mp inA).2)
  obtain ⟨keyB, -, isB⟩ := prefixed_starts.mp (List.isPrefixOf_iff_prefix.mp (mem_filter.mp inB).2)
  obtain ⟨_, -, rfl⟩ := Option.map_eq_some_iff.mp givenX
  obtain ⟨_, -, rfl⟩ := Option.map_eq_some_iff.mp givenY
  have keys := (Prod.mk.inj same).1
  rw [isA, isB, drop_prefixed, drop_prefixed] at keys
  rw [isA, isB, keys] at below
  exact lt_irrefl _ below

/-! ## Checkpoints -/

/-- Every key of the database is one of a namespace. -/
def Named (store : RocksDbStateStore) : Prop := ∀ entry ∈ store.db, ∃ ns key, entry.1 = makePrefixedKey ns key

theorem Named.putRaw (named : store.Named) (ns : String) (key : List UInt8) (entry : TtlEntry) :
    (store.putRaw (makePrefixedKey ns key) entry).Named := by
  intro other there
  obtain isKey | ⟨old, there, sameKey⟩ := key_of_mem_insert there
  · exact ⟨ns, key, isKey⟩
  · rw [← sameKey]
    exact named old there

/-- An entry that a restored checkpoint has. -/
def kept (now : Int) (entry : TtlEntry) : Option TtlEntry := (live now entry).map fun value => ⟨value, none⟩

theorem cleared (store : RocksDbStateStore) : ((store.db.map Prod.fst).foldl deleteRaw store).db = [] := by
  have erased (keys : List (List UInt8)) (store : RocksDbStateStore) :
      (keys.foldl deleteRaw store).db = keys.foldl (fun m key => erase key m) store.db := by
    induction keys generalizing store with
    | nil => rfl
    | cons key keys ih =>
      rw [foldl_cons, foldl_cons, ih]
      rfl
  rw [erased]
  exact erase_keys fun entry inside => mem_map_of_mem inside

theorem named_restore (other : RocksDbStateStore) (later : Int) (entries : List StateEntry) : (other.restore later entries).Named := by
  have inserted (s : RocksDbStateStore) (named : s.Named) :
      (entries.foldl (fun s e => s.putRaw (makePrefixedKey e.ns e.key) (.new later e.value none)) s).Named := by
    induction entries generalizing s with
    | nil => exact named
    | cons e entries ih => exact ih _ (named.putRaw e.ns e.key _)
  apply inserted
  intro entry there
  rw [cleared] at there
  exact absurd there not_mem_nil

/-- The entries that come back of a checkpoint, with the keys that they had. -/
theorem stateEntry_raw {ns : String} {key : List UInt8} (now later : Int) (entry : TtlEntry) :
    (stateEntry now (makePrefixedKey ns key, entry)).map (fun e => (makePrefixedKey e.ns e.key, new later e.value none)) =
      (kept now entry).map fun value => (makePrefixedKey ns key, value) := by
  have null : 0 ∈ makePrefixedKey ns key := by simp [makePrefixedKey]
  unfold stateEntry kept live
  dsimp only
  rw [if_pos null]
  split_ifs
  · rfl
  · simp only [Option.map_some, prefixed_parts]
    rfl

/-- A restored checkpoint has the entries that had not expired, without their times. -/
theorem db_restored (named : store.Named) (other : RocksDbStateStore) (now later : Int) :
    (other.restore later (store.checkpoint now)).db = filterMapValues (kept now) store.db := by
  have inserted (entries : List StateEntry) (s : RocksDbStateStore) :
      (entries.foldl (fun s e => s.putRaw (makePrefixedKey e.ns e.key) (.new later e.value none)) s).db =
        (entries.map fun e => (makePrefixedKey e.ns e.key, new later e.value none)).foldl
          (fun m entry => insert entry.1 entry.2 m) s.db := by
    induction entries generalizing s with
    | nil => rfl
    | cons e entries ih =>
      rw [foldl_cons, ih]
      rfl
  have raw : (store.checkpoint now).map (fun e => (makePrefixedKey e.ns e.key, new later e.value none)) =
      filterMapValues (kept now) store.db := by
    rw [checkpoint, map_filterMap]
    refine filterMap_congr fun entry inside => ?_
    obtain ⟨rawKey, entry⟩ := entry
    obtain ⟨ns, key, rfl⟩ := named _ inside
    exact stateEntry_raw now later entry
  rw [restore, inserted, cleared, raw]
  exact inserts_ascending (store.ascending.filterMapValues (kept now))

theorem get_restored (named : store.Named) (other : RocksDbStateStore) (now later : Int) (raw : List UInt8) :
    OrderedMap.get (other.restore later (store.checkpoint now)).db raw = (OrderedMap.get store.db raw).bind (kept now) := by
  rw [db_restored named, get_filterMapValues store.ascending]

end RocksDbStateStore

/-! ## The store in memory -/

namespace InMemoryStateStore

variable {V : Type} {store : InMemoryStateStore V}

theorem get_put (ns ns' : String) (key key' : List UInt8) (value : V) : (store.put ns key value).get ns' key' =
    if ns' = ns ∧ key' = key then some value else store.get ns' key' := by
  unfold get put
  by_cases same : ns' = ns
  · subst same
    rw [AList.lookup_insert, Option.bind_some]
    by_cases here : key' = key
    · subst here
      rw [AList.lookup_insert, if_pos ⟨rfl, rfl⟩]
    · rw [AList.lookup_insert_ne here, if_neg (fun both => here both.2)]
      cases store.data.lookup ns' <;> rfl
  · rw [AList.lookup_insert_ne same, if_neg (fun both => same both.1)]

theorem get_delete (ns ns' : String) (key key' : List UInt8) : (store.delete ns key).get ns' key' =
    if ns' = ns ∧ key' = key then none else store.get ns' key' := by
  unfold get delete
  cases there : store.data.lookup ns with
  | none =>
    split_ifs with both
    · rw [both.1, there]
      rfl
    · rfl
  | some entries =>
    dsimp only
    by_cases same : ns' = ns
    · subst same
      rw [AList.lookup_insert, Option.bind_some, there, Option.bind_some]
      by_cases here : key' = key
      · subst here
        rw [AList.lookup_erase, if_pos ⟨rfl, rfl⟩]
      · rw [AList.lookup_erase_ne here, if_neg (fun both => here both.2)]
    · rw [AList.lookup_insert_ne same, if_neg (fun both => same both.1)]

theorem mem_scanPrefix {ns : String} {keyStart key : List UInt8} {value : V} :
    (key, value) ∈ store.scanPrefix ns keyStart ↔ keyStart <+: key ∧ store.get ns key = some value := by
  unfold scanPrefix get
  cases store.data.lookup ns with
  | none => simp
  | some entries =>
    dsimp only
    rw [Option.bind_some, mem_map]
    constructor
    · rintro ⟨⟨k, v⟩, inside, same⟩
      obtain ⟨rfl, rfl⟩ := Prod.mk.inj same
      obtain ⟨there, starts⟩ := mem_filter.mp inside
      exact ⟨List.isPrefixOf_iff_prefix.mp starts, AList.mem_lookup_iff.mpr there⟩
    · rintro ⟨starts, found⟩
      exact ⟨⟨key, value⟩, mem_filter.mpr ⟨AList.mem_lookup_iff.mp found, isPrefixOf_iff_prefix.mpr starts⟩, rfl⟩

theorem scanPrefix_keys_nodup (ns : String) (keyStart : List UInt8) : ((store.scanPrefix ns keyStart).map Prod.fst).Nodup := by
  unfold scanPrefix
  cases store.data.lookup ns with
  | none => exact .nil
  | some entries =>
    dsimp only
    rw [map_map]
    exact entries.nodupKeys.sublist filter_sublist

theorem get_expiredRemoved (store : InMemoryStateStore TtlEntry) (now : Int) (ns : String) (key : List UInt8) :
    (store.expiredRemoved now).get ns key = (store.get ns key).filter fun entry => !entry.isExpired now := by
  unfold get expiredRemoved
  rw [lookup_mapValues]
  cases store.data.lookup ns with
  | none => rfl
  | some entries => exact lookup_filterValues _ entries key

end InMemoryStateStore

/-! ## Runs -/

inductive Call where
  | put (ns : String) (key value : List UInt8)
  | putWithTtl (ns : String) (key value : List UInt8) (ttlMs : Option Int)
  | delete (ns : String) (key : List UInt8)
  | get (ns : String) (key : List UInt8)
  | scanPrefix (ns : String) (keyStart : List UInt8)
  | checkpoint
  | restore (i : Nat)

/-- The namespace of a call. -/
def Call.ns : Call → Option String
  | .put ns _ _ => some ns
  | .putWithTtl ns _ _ _ => some ns
  | .delete ns _ => some ns
  | .get ns _ => some ns
  | .scanPrefix ns _ => some ns
  | .checkpoint => none
  | .restore _ => none

inductive Answer where
  | done
  | value (value : Option (List UInt8))
  | entries (entries : List (List UInt8 × List UInt8))

/-- Answers with the same entries in some order. -/
inductive Answer.Same : Answer → Answer → Prop where
  | done : Same .done .done
  | value (v : Option (List UInt8)) : Same (.value v) (.value v)
  | entries {a b : List (List UInt8 × List UInt8)} (perm : a.Perm b) : Same (.entries a) (.entries b)

/-- A store with the checkpoints that were taken of it. -/
structure Persistent where
  store : RocksDbStateStore
  checkpoints : List (List StateEntry)

/-- A call, with what the clock reads at it. -/
def Persistent.step (s : Persistent) : Call × Int → Answer × Persistent
  | (.put ns key value, now) => (.done, { s with store := s.store.put now ns key value })
  | (.putWithTtl ns key value ttlMs, now) => (.done, { s with store := s.store.putWithTtl now ns key value ttlMs })
  | (.delete ns key, _) => (.done, { s with store := s.store.delete ns key })
  | (.get ns key, now) => (.value (s.store.get now ns key), s)
  | (.scanPrefix ns keyStart, now) => (.entries (s.store.scanPrefix now ns keyStart), s)
  | (.checkpoint, now) => (.done, { s with checkpoints := s.checkpoints ++ [s.store.checkpoint now] })
  | (.restore i, now) => (.done, { s with store := (s.checkpoints[i]?).elim s.store (s.store.restore now) })

def Persistent.initial : Persistent := ⟨.opened, []⟩

/-- The store in memory with the times at which its entries expire: those that have expired are removed before it is
read or its checkpoint taken. -/
structure InMemory where
  store : InMemoryStateStore TtlEntry
  checkpoints : List (AList fun _ : String => AList fun _ : List UInt8 => TtlEntry)

def InMemory.step (s : InMemory) : Call × Int → Answer × InMemory
  | (.put ns key value, _) => (.done, { s with store := s.store.put ns key ⟨value, none⟩ })
  | (.putWithTtl ns key value ttlMs, now) => (.done, { s with store := s.store.put ns key ⟨value, ttlMs.map (now + ·)⟩ })
  | (.delete ns key, _) => (.done, { s with store := s.store.delete ns key })
  | (.get ns key, now) => (.value (((s.store.expiredRemoved now).get ns key).map value), s)
  | (.scanPrefix ns keyStart, now) =>
    (.entries (((s.store.expiredRemoved now).scanPrefix ns keyStart).map fun e => (e.1, e.2.value)), s)
  | (.checkpoint, now) => (.done, { s with checkpoints := s.checkpoints ++ [(s.store.expiredRemoved now).checkpoint] })
  | (.restore i, _) => (.done, { s with store := (s.checkpoints[i]?).elim s.store s.store.restore })

def InMemory.initial : InMemory := ⟨.new, []⟩

/-- A restored checkpoint is at every later time read like the store that it was taken of. -/
def LeftAlone (store : RocksDbStateStore) (now : Int) : Prop :=
  ∀ (other : RocksDbStateStore) (restored later : Int), now ≤ later → ∀ ns start,
    (other.restore restored (store.checkpoint now)).get later ns start = store.get later ns start ∧
    (other.restore restored (store.checkpoint now)).scanPrefix later ns start = store.scanPrefix later ns start

/-- All answers are those of the store in memory, and every checkpoint gives the store back. -/
structure Refines (calls : List (Call × Int)) : Prop where
  answers : Forall₂ Answer.Same (outputs Persistent.step .initial calls) (outputs InMemory.step .initial calls)
  checkpoints : ∀ before now after, calls = before ++ (.checkpoint, now) :: after →
    LeftAlone (run (fun s call => (s.step call).2) Persistent.initial before).store now

/-- The names with null bytes after them do not start each other. -/
def Apart (names : List String) : Prop := ∀ a ∈ names, ∀ b ∈ names, makePrefixedKey a [] <+: makePrefixedKey b [] → a = b

/-- No entry is to expire later. -/
def Timeless (store : RocksDbStateStore) (now : Int) : Prop :=
  ∀ entry ∈ store.db, entry.2.isExpired now = true ∨ entry.2.expiresAtMs = none

instance Timeless.decidable (store : RocksDbStateStore) (now : Int) : Decidable (Timeless store now) :=
  inferInstanceAs (Decidable (∀ entry ∈ store.db, _))

/-- Times of expiry are `i64`, and no entry is to expire after a checkpoint. -/
def Allowed (s : Persistent) : Call × Int → Prop
  | (.putWithTtl _ _ _ ttlMs, now) => ∀ ttl ∈ ttlMs, I64.Fits (now + ttl)
  | (.checkpoint, now) => Timeless s.store now
  | _ => True

/-- The namespaces of the run are apart, and each of its calls is allowed. -/
structure Kept (calls : List (Call × Int)) : Prop where
  apart : Apart (calls.filterMap fun call => call.1.ns)
  allowed : Meets (fun s call => (Persistent.step s call).2) Allowed .initial calls

/-! ## Steps -/

theorem Apart.prefixed {names : List String} (apart : Apart names) {a b : String} (inA : a ∈ names) (inB : b ∈ names)
    {key key' : List UInt8} : makePrefixedKey a key = makePrefixedKey b key' ↔ b = a ∧ key' = key := by
  constructor
  · intro same
    have startA : makePrefixedKey a [] <+: makePrefixedKey a key := prefixed_starts.mpr ⟨key, nil_prefix, rfl⟩
    have startB : makePrefixedKey b [] <+: makePrefixedKey a key := by
      rw [same]
      exact prefixed_starts.mpr ⟨key', nil_prefix, rfl⟩
    have names : b = a := by
      obtain first | second := prefix_or_prefix_of_prefix startA startB
      · exact (apart a inA b inB first).symm
      · exact apart b inB a inA second
    subst names
    exact ⟨rfl, (prefixed_inj.mp same).symm⟩
  · rintro ⟨rfl, rfl⟩
    rfl

/-- The stores have the same entries in the namespaces, and the database has no others. -/
structure Related (names : List String) (store : RocksDbStateStore) (memory : InMemoryStateStore TtlEntry) : Prop where
  same : ∀ ns ∈ names, ∀ key, get store.db (makePrefixedKey ns key) = memory.get ns key
  named : ∀ entry ∈ store.db, ∃ ns ∈ names, ∃ key, entry.1 = makePrefixedKey ns key

namespace Related

variable {names : List String} {store : RocksDbStateStore} {memory : InMemoryStateStore TtlEntry}

section

variable (related : Related names store memory)
include related

theorem put (apart : Apart names) {ns : String} (inside : ns ∈ names) (key : List UInt8)
    (entry : TtlEntry) : Related names (store.putRaw (makePrefixedKey ns key) entry) (memory.put ns key entry) where
  same := by
    intro ns' inside' key'
    rw [putRaw, get_insert, InMemoryStateStore.get_put, related.same ns' inside']
    simp only [apart.prefixed inside inside']
  named := by
    intro other there
    obtain isKey | ⟨old, there, sameKey⟩ := key_of_mem_insert there
    · exact ⟨ns, inside, key, isKey⟩
    · rw [← sameKey]
      exact related.named old there

theorem delete (apart : Apart names) {ns : String} (inside : ns ∈ names) (key : List UInt8) :
    Related names (store.delete ns key) (memory.delete ns key) where
  same := by
    intro ns' inside' key'
    rw [RocksDbStateStore.delete, RocksDbStateStore.deleteRaw, get_erase, InMemoryStateStore.get_delete, related.same ns' inside']
    simp only [apart.prefixed inside inside']
  named := fun other there => related.named other (mem_filter.mp there).1

/-- What is read is what the store in memory has after those that expired are removed. -/
theorem get {ns : String} (inside : ns ∈ names) (now : Int) (key : List UInt8) :
    store.get now ns key = ((memory.expiredRemoved now).get ns key).map value := by
  rw [get_eq, related.same ns inside, InMemoryStateStore.get_expiredRemoved]
  cases memory.get ns key with
  | none => rfl
  | some entry =>
    rw [Option.bind_some, live, Option.filter_some]
    cases entry.isExpired now <;> rfl

theorem scanPrefix {ns : String} (inside : ns ∈ names) (now : Int) (keyStart : List UInt8) :
    (store.scanPrefix now ns keyStart).Perm (((memory.expiredRemoved now).scanPrefix ns keyStart).map fun e => (e.1, e.2.value)) := by
  have keys := (memory.expiredRemoved now).scanPrefix_keys_nodup ns keyStart
  have distinct : (((memory.expiredRemoved now).scanPrefix ns keyStart).map fun e => (e.1, e.2.value)).Nodup := by
    refine Nodup.of_map Prod.fst ?_
    rwa [map_map]
  refine (perm_ext_iff_of_nodup (scanPrefix_nodup now ns keyStart) distinct).mpr fun ⟨key, value⟩ => ?_
  rw [mem_scanPrefix, related.get inside, Option.map_eq_some_iff, mem_map]
  constructor
  · rintro ⟨starts, entry, found, rfl⟩
    exact ⟨(key, entry), InMemoryStateStore.mem_scanPrefix.mpr ⟨starts, found⟩, rfl⟩
  · rintro ⟨⟨key', entry⟩, there, same⟩
    obtain ⟨rfl, rfl⟩ := Prod.mk.inj same
    obtain ⟨starts, found⟩ := InMemoryStateStore.mem_scanPrefix.mp there
    exact ⟨starts, entry, found, rfl⟩

theorem toNamed : store.Named := by
  intro entry there
  obtain ⟨ns, -, key, isKey⟩ := related.named entry there
  exact ⟨ns, key, isKey⟩


end
end Related

/-- An entry that is not to expire later is kept as it is. -/
theorem kept_of_timeless {now : Int} {entry : TtlEntry} (timeless : entry.isExpired now = true ∨ entry.expiresAtMs = none) :
    kept now entry = if entry.isExpired now then none else some entry := by
  rw [kept, live]
  split_ifs with expired
  · rfl
  · obtain ⟨value, expiresAtMs⟩ := entry
    obtain rfl : expiresAtMs = none := timeless.resolve_left expired
    rfl

theorem isExpired_mono {now later : Int} (order : now ≤ later) {entry : TtlEntry} (expired : entry.isExpired now = true) :
    entry.isExpired later = true := by
  obtain ⟨value, expiresAtMs⟩ := entry
  cases expiresAtMs with
  | none => cases expired
  | some exp =>
    have before : exp < now := of_decide_eq_true expired
    exact decide_eq_true (by omega)

/-- A restored checkpoint without times is read like the store. -/
theorem leftAlone {store : RocksDbStateStore} (named : store.Named) {now : Int} (timeless : Timeless store now) : LeftAlone store now := by
  have reads (later : Int) (order : now ≤ later) (entry : List UInt8 × TtlEntry) (there : entry ∈ store.db) :
      (kept now entry.2).bind (live later) = live later entry.2 := by
    rw [kept_of_timeless (timeless entry there)]
    split_ifs with expired
    · rw [live, if_pos (isExpired_mono order expired)]
      rfl
    · rfl
  intro other restored later order ns start
  constructor
  · rw [get_eq, get_eq, get_restored named]
    cases found : get store.db (makePrefixedKey ns start) with
    | none => rfl
    | some entry => exact reads later order _ (mem_of_get found)
  · rw [scanPrefix_eq, scanPrefix_eq, db_restored named, filterMap_filter,
      filterMap_filter, filterMapValues, filterMap_filterMap]
    refine filterMap_congr fun entry there => ?_
    rw [← reads later order entry there]
    cases kept now entry.2 <;> simp

/-- The checkpoints give related stores. -/
def Recovers (names : List String) (entries : List StateEntry)
    (snapshot : AList fun _ : String => AList fun _ : List UInt8 => TtlEntry) : Prop :=
  ∀ (other : RocksDbStateStore) (later : Int), Related names (other.restore later entries) ⟨snapshot⟩

theorem Related.checkpoint {names : List String} {store : RocksDbStateStore} {memory : InMemoryStateStore TtlEntry}
    (related : Related names store memory) {now : Int} (timeless : Timeless store now) :
    Recovers names (store.checkpoint now) (memory.expiredRemoved now).checkpoint := by
  refine fun other later => ⟨fun ns inside key => ?_, fun entry there => ?_⟩
  · have removed := memory.get_expiredRemoved now ns key
    rw [get_restored related.toNamed]
    rw [← related.same ns inside] at removed
    refine Eq.trans ?_ removed.symm
    cases found : OrderedMap.get store.db (makePrefixedKey ns key) with
    | none => rfl
    | some entry =>
      rw [Option.bind_some, kept_of_timeless (timeless _ (mem_of_get found)), Option.filter_some]
      cases entry.isExpired now <;> rfl
  · rw [db_restored related.toNamed] at there
    obtain ⟨old, inStore, sameKey⟩ := key_of_mem_filterMapValues there
    rw [← sameKey]
    exact related.named old inStore

/-- The stores are related, and so are those that the checkpoints give. -/
structure Simulates (names : List String) (s : Persistent) (t : InMemory) : Prop where
  store : Related names s.store t.store
  checkpoints : Forall₂ (Recovers names) s.checkpoints t.checkpoints

theorem Simulates.initial (names : List String) : Simulates names .initial .initial where
  store := ⟨fun _ _ _ => rfl, fun _ there => absurd there not_mem_nil⟩
  checkpoints := .nil

theorem new_eq {now : Int} {ttlMs : Option Int} (fits : ∀ ttl ∈ ttlMs, I64.Fits (now + ttl)) (value : List UInt8) :
    new now value ttlMs = ⟨value, ttlMs.map (now + ·)⟩ := by
  cases ttlMs with
  | none => rfl
  | some ttl => rw [new, Option.map_some, Option.map_some, I64.wrap_of_fits (fits ttl rfl)]

/-- The checkpoint of a number, if there is one. -/
theorem forall₂_getElem? {α β : Type} {R : α → β → Prop} {l : List α} {l' : List β} (all : Forall₂ R l l') (i : Nat) :
    (l[i]? = none ∧ l'[i]? = none) ∨ ∃ a b, l[i]? = some a ∧ l'[i]? = some b ∧ R a b := by
  induction all generalizing i with
  | nil => exact .inl ⟨rfl, rfl⟩
  | @cons a b l l' first _ ih =>
    cases i with
    | zero => exact .inr ⟨a, b, rfl, rfl, first⟩
    | succ i => exact ih i

/-- One call. -/
theorem Simulates.step {names : List String} (apart : Apart names) {s : Persistent} {t : InMemory} (simulates : Simulates names s t)
    {call : Call × Int} (allowed : Allowed s call) (named : ∀ ns ∈ call.1.ns, ns ∈ names) :
    (s.step call).1.Same (t.step call).1 ∧ Simulates names (s.step call).2 (t.step call).2 := by
  obtain ⟨store, checkpoints⟩ := simulates
  obtain ⟨call, now⟩ := call
  cases call with
  | put ns key value => exact ⟨.done, store.put apart (named ns rfl) key _, checkpoints⟩
  | putWithTtl ns key value ttlMs =>
    refine ⟨.done, ?_, checkpoints⟩
    have next := store.put apart (named ns rfl) key (new now value ttlMs)
    rw [new_eq allowed] at next
    dsimp only [Persistent.step, InMemory.step, putWithTtl]
    rwa [new_eq allowed]
  | delete ns key => exact ⟨.done, store.delete apart (named ns rfl) key, checkpoints⟩
  | get ns key =>
    refine ⟨?_, store, checkpoints⟩
    dsimp only [Persistent.step, InMemory.step]
    rw [store.get (named ns rfl)]
    exact .value _
  | scanPrefix ns keyStart => exact ⟨.entries (store.scanPrefix (named ns rfl) now keyStart), store, checkpoints⟩
  | checkpoint => exact ⟨.done, store, rel_append checkpoints (.cons (store.checkpoint allowed) .nil)⟩
  | restore i =>
    dsimp only [Persistent.step, InMemory.step]
    refine ⟨.done, ?_, checkpoints⟩
    obtain ⟨noneS, noneT⟩ | ⟨entries, snapshot, isS, isT, recovers⟩ := forall₂_getElem? checkpoints i
    · rw [noneS, noneT]
      exact store
    · rw [isS, isT]
      exact recovers s.store now

/-! ## Every run -/

/-- Every key of the database is one of a namespace, in every run. -/
theorem named_run (calls : List (Call × Int)) : (run (fun s call => (Persistent.step s call).2) .initial calls).store.Named := by
  refine run_invariant (fun s : Persistent => s.store.Named) ?_ (fun _ there => absurd there not_mem_nil) calls
  rintro s ⟨call, now⟩ named
  cases call with
  | put ns key value => exact named.putRaw ns key _
  | putWithTtl ns key value ttlMs => exact named.putRaw ns key _
  | delete ns key => exact fun entry there => named entry (mem_filter.mp there).1
  | get ns key => exact named
  | scanPrefix ns keyStart => exact named
  | checkpoint => exact named
  | restore i =>
    dsimp only [Persistent.step]
    cases s.checkpoints[i]? with
    | none => exact named
    | some entries => exact named_restore s.store now entries

/-- **The store in RocksDB refines the store in memory** in every run in which no namespace with a null byte after it
starts another, times of expiry are `i64` and checkpoints have no entries that are to expire. -/
theorem refines_of_kept {calls : List (Call × Int)} (kept : Kept calls) : Refines calls := by
  have inside : ∀ call ∈ calls, ∀ ns ∈ call.1.ns, ns ∈ calls.filterMap fun call => call.1.ns :=
    fun call there ns isName => mem_filterMap.mpr ⟨call, there, isName⟩
  have meets : Meets (fun s call => (Persistent.step s call).2)
      (fun s call => Allowed s call ∧ ∀ ns ∈ call.1.ns, ns ∈ calls.filterMap fun call => call.1.ns) .initial calls := by
    refine meets_iff_forall.mpr fun before call after cut => ⟨meets_iff_forall.mp kept.allowed before call after cut, inside call ?_⟩
    rw [cut]
    exact mem_append_right _ mem_cons_self
  have start := Simulates.initial (calls.filterMap fun call => call.1.ns)
  constructor
  · refine outputs_simulate (R := Simulates _) ?_ meets start
    exact fun s t call simulates both => simulates.step kept.apart both.1 both.2
  · intro before now after cut
    have timeless := meets_iff_forall.mp kept.allowed before (.checkpoint, now) after cut
    exact leftAlone (named_run before) timeless

/-! ## Runs that are refinements and runs that are none -/

/-- A session that expires before the checkpoint, and a count that stays. -/
def sessionRun : List (Call × Int) :=
  [(.put "counts" [1] [7], 0), (.putWithTtl "counts" [2] [8] (some 5), 0), (.scanPrefix "counts" [], 5), (.checkpoint, 6),
    (.delete "counts" [1], 7), (.restore 0, 8), (.get "counts" [1], 9)]

theorem sessionRun_refines : Refines sessionRun := by
  refine refines_of_kept ⟨?_, ?_⟩
  · intro a inA b inB _
    have isA : a = "counts" := by simpa [sessionRun, Call.ns] using inA
    have isB : b = "counts" := by simpa [sessionRun, Call.ns] using inB
    rw [isA, isB]
  · refine ⟨trivial, ?_, trivial, ?_, trivial, trivial, trivial, trivial⟩
    · rintro ttl isTtl
      obtain rfl := Option.some.inj isTtl
      decide
    · refine @of_decide_eq_true (Timeless _ 6) _ ?_
      decide

/-- A session that is to expire after the checkpoint. -/
def forgottenExpiry : List (Call × Int) :=
  [(.putWithTtl "sessions" [1] [7] (some 5), 0), (.checkpoint, 0), (.restore 0, 1), (.get "sessions" [1], 6)]

/-- The restored session does not expire. -/
theorem forgottenExpiry_outlives : ¬ Refines forgottenExpiry := by
  intro refines
  have named := named_run [(.putWithTtl "sessions" [1] [7] (some 5), 0)]
  have alone := refines.checkpoints [(.putWithTtl "sessions" [1] [7] (some 5), 0)] 0 _ rfl
  have reads := (alone .opened 1 6 (by decide) "sessions" [1]).1
  rw [get_eq, get_eq, get_restored named] at reads
  have entry : get (run (fun s call => (Persistent.step s call).2) Persistent.initial
      [(.putWithTtl "sessions" [1] [7] (some 5), 0)]).store.db (makePrefixedKey "sessions" [1]) = some (.new 0 [7] (some 5)) := by
    rw [run_cons, run_nil]
    exact (get_insert [] _ _ _).trans (if_pos rfl)
  rw [entry] at reads
  exact absurd reads (by decide)

end StreamHouse.Sql.State
