import StreamHouse.Sql.JoinMeaning

/-!
# The rows of a join

The join through an index and the join through a table have the pairs of the nested loops, and
where the stages do not get in each other's way the result is what the query means.
-/

namespace StreamHouse.Sql

open Lib OrderedMap List Joins

section Display

variable {display : Json → String}

/-! ## The join through an index -/

variable {leftPath rightPath : String} {messages : List MessageRow} {path : String} {msg : MessageRow}

variable {right : MessageRow} {key : String}

theorem keyed_iff {left : MessageRow} : keyed display leftPath rightPath left right = true ↔
      ∃ key, extractJoinKey display left leftPath = some key ∧ extractJoinKey display right rightPath = some key := by
  unfold keyed
  cases extractJoinKey display left leftPath with
  | none => simp
  | some a =>
    cases extractJoinKey display right rightPath with
    | none => simp
    | some b => simp [eq_comm]

/-- The positions of the messages of a key. -/
def positions (display : Json → String) (messages : List MessageRow) (path key : String) : List Nat :=
  (messages.zipIdx.filter fun (msg, _) => extractJoinKey display msg path = some key).map Prod.snd

theorem get_buildJoinIndex (messages : List MessageRow) (path key : String) :
    get (buildJoinIndex display messages path) key = listed (positions display messages path key) := by
  rw [buildJoinIndex, get_pushes, positions]
  congr 1
  generalize messages.zipIdx = entries
  induction entries with
  | nil => rfl
  | cons entry rest ih =>
    obtain ⟨msg, i⟩ := entry
    rw [filterMap_cons]
    cases named : extractJoinKey display msg path with
    | none => simpa [named] using ih
    | some other =>
      by_cases same : other = key
      · simpa [named, same] using ih
      · simpa [named, same] using ih

theorem mem_positions {i : Nat} (placed : (msg, i) ∈ messages.zipIdx) :
    i ∈ positions display messages path key ↔ extractJoinKey display msg path = some key := by
  unfold positions
  rw [mem_map]
  constructor
  · rintro ⟨⟨other, j⟩, listed, rfl⟩
    obtain ⟨inside, named⟩ := mem_filter.mp listed
    have here := mem_zipIdx_iff_getElem?.mp placed
    have there := mem_zipIdx_iff_getElem?.mp inside
    obtain rfl : msg = other := Option.some.inj (here.symm.trans there)
    simpa using named
  · intro named
    exact ⟨(msg, i), mem_filter.mpr ⟨placed, by simpa using named⟩, rfl⟩

/-- The messages at the positions of a key are those of the key. -/
theorem positions_messages (messages : List MessageRow) (path key : String) :
    (positions display messages path key).filterMap (fun i => messages[i]?) =
      messages.filter fun msg => extractJoinKey display msg path = some key := by
  have back : ∀ entry ∈ messages.zipIdx.filter fun (msg, _) => extractJoinKey display msg path = some key,
      messages[entry.2]? = some entry.1 := by
    intro entry inside
    exact mem_zipIdx_iff_getElem?.mp (mem_of_mem_filter inside)
  rw [positions, filterMap_map]
  change filterMap (fun entry : MessageRow × Nat => messages[entry.2]?) _ = _
  rw [filterMap_congr back]
  change filterMap (some ∘ Prod.fst) _ = _
  rw [filterMap_eq_map]
  conv_rhs => rw [← zipIdx_map_fst 0 messages, filter_map]
  rfl

theorem positions_eq_nil :
    positions display messages path key = [] ↔ ∀ msg ∈ messages, extractJoinKey display msg path ≠ some key := by
  have some : (positions display messages path key).length =
      (messages.filter fun msg => extractJoinKey display msg path = some key).length := by
    conv_rhs => rw [← zipIdx_map_fst 0 messages, filter_map]
    rw [positions, length_map, length_map]
    rfl
  rw [← length_eq_zero_iff, some, length_eq_zero_iff, filter_eq_nil_iff]
  simp only [decide_eq_true_eq, ne_eq]

/-- What the index gives for a message: the positions of its key. -/
def hits (display : Json → String) (rightMessages : List MessageRow) (leftPath rightPath : String) (msg : MessageRow) : Option (List Nat) :=
  (extractJoinKey display msg leftPath).bind (get (buildJoinIndex display rightMessages rightPath))

theorem hits_of_key {rightMessages : List MessageRow} (named : extractJoinKey display msg leftPath = some key) :
    hits display rightMessages leftPath rightPath msg = listed (positions display rightMessages rightPath key) := by
  rw [hits, named, Option.bind_some, get_buildJoinIndex]

theorem keyed_of_key {left : MessageRow} (named : extractJoinKey display left leftPath = some key) :
    keyed display leftPath rightPath left right = decide (extractJoinKey display right rightPath = some key) := by
  rw [Bool.eq_iff_iff, keyed_iff, decide_eq_true_eq, named]
  constructor
  · rintro ⟨other, same, matched⟩
    rw [same, matched]
  · exact fun matched => ⟨key, rfl, matched⟩

theorem keyed_of_none {left : MessageRow} (unnamed : extractJoinKey display left leftPath = none) :
    keyed display leftPath rightPath left right = false := by
  rw [keyed, unnamed]

/-- The rows of a left message and the places it finds. -/
def hitRows (rightMessages : List MessageRow) (joinType : JoinType) (msg : MessageRow) : Option (List Nat) → List JoinedRow
  | some indices => indices.filterMap fun i => rightMessages[i]?.map fun right => (some msg, some right)
  | none => if joinType.keepsLeft then [(some msg, none)] else []

/-- **The join through an index** is that of nested loops. -/
theorem performJoin_eq (leftMessages rightMessages : List MessageRow) (leftPath rightPath : String) (joinType : JoinType) :
    performJoin display leftMessages rightMessages (buildJoinIndex display rightMessages rightPath) leftPath joinType =
      join (keyed display leftPath rightPath) joinType.keepsLeft joinType.keepsRight leftMessages rightMessages := by
  have left (msg : MessageRow) : hitRows rightMessages joinType msg (hits display rightMessages leftPath rightPath msg) =
      leftPairs (keyed display leftPath rightPath) joinType.keepsLeft rightMessages msg := by
    unfold leftPairs
    cases named : extractJoinKey display msg leftPath with
    | none =>
      have none : rightMessages.any (keyed display leftPath rightPath msg) = false := by
        simp [keyed_of_none named]
      rw [none, hits, named, Option.bind_none]
      rfl
    | some key =>
      have related : keyed display leftPath rightPath msg = fun right => decide (extractJoinKey display right rightPath = some key) := by
        funext right
        exact keyed_of_key named
      rw [hits_of_key named, related]
      by_cases empty : positions display rightMessages rightPath key = []
      · have none : (rightMessages.any fun right => decide (extractJoinKey display right rightPath = some key)) = false := by
          simpa using positions_eq_nil.mp empty
        rw [none, empty]
        rfl
      · have some : (rightMessages.any fun right => decide (extractJoinKey display right rightPath = some key)) = true := by
          rw [← Bool.not_eq_false]
          intro none
          exact empty (positions_eq_nil.mpr (by simpa using none))
        rw [some, listed, if_neg empty, ← positions_messages, map_filterMap]
        rfl
  have right (entry : MessageRow × Nat) (placed : entry ∈ rightMessages.zipIdx) :
      decide (entry.2 ∉ leftMessages.flatMap fun msg => (hits display rightMessages leftPath rightPath msg).getD []) =
        !leftMessages.any (keyed display leftPath rightPath · entry.1) := by
    rw [decide_not, Bool.not_inj_iff, Bool.eq_iff_iff, decide_eq_true_eq, mem_flatMap, any_eq_true]
    refine exists_congr fun msg => and_congr_right fun _ => ?_
    cases named : extractJoinKey display msg leftPath with
    | none =>
      rw [keyed_of_none named, hits, named]
      simp
    | some key =>
      rw [keyed_of_key named, hits_of_key named, getD_listed, decide_eq_true_eq]
      exact mem_positions placed
  unfold performJoin join rightOnly
  dsimp only
  change (leftMessages.flatMap fun msg => hitRows rightMessages joinType msg (hits display rightMessages leftPath rightPath msg)) ++
    (if joinType.keepsRight then (rightMessages.zipIdx.filter fun entry =>
        decide (entry.2 ∉ leftMessages.flatMap fun msg => (hits display rightMessages leftPath rightPath msg).getD [])).map
          fun entry => (none, some entry.1) else []) = _
  congr 1
  · exact flatMap_congr fun msg _ => left msg
  · rw [filter_congr right]
    conv_rhs => rw [← zipIdx_map_fst 0 rightMessages, filter_map, map_map]
    rfl

/-! ## The join through a table -/

/-- The entries of a table: under each key the last message that has it. -/
theorem mem_buildTableState {entry : String × MessageRow} : entry ∈ buildTableState display messages path ↔
      (messages.filter fun msg => extractJoinKey display msg path = some entry.1).getLast? = some entry.2 := by
  have entries (key : String) : ((messages.filterMap fun msg => (extractJoinKey display msg path).map fun key => (key, msg)).filter
        fun entry => entry.1 = key).map Prod.snd = messages.filter fun msg => extractJoinKey display msg path = some key := by
    induction messages with
    | nil => rfl
    | cons msg rest ih =>
      rw [filterMap_cons]
      cases named : extractJoinKey display msg path with
      | none => simpa [named] using ih
      | some other => by_cases same : other = key <;> simpa [named, same] using ih
  have found (key : String) : get (buildTableState display messages path) key =
      (messages.filter fun msg => extractJoinKey display msg path = some key).getLast? := by
    rw [buildTableState, get_inserts, ← entries key, getLast?_map]
  rw [← found]
  constructor
  · exact (filled (fun _ entry => entry.2) _).1.get_of_mem
  · exact mem_of_get

theorem ascending_buildTableState (messages : List MessageRow) (path : String) :
    Ascending (buildTableState display messages path) :=
  (filled (fun _ entry => entry.2) _).1

theorem key_of_mem_table {entry : String × MessageRow}
    (inside : entry ∈ buildTableState display messages path) : extractJoinKey display entry.2 path = some entry.1 := by
  have listed := mem_of_getLast? (mem_buildTableState.mp inside)
  simpa using of_mem_filter listed

/-- The messages of a table are the latest of their keys. -/
theorem table_perm (messages : List MessageRow) (path : String) :
    ((buildTableState display messages path).map Prod.snd).Perm (latest (fun msg => extractJoinKey display msg path) messages) := by
  refine (perm_ext_iff_of_nodup ?_ ?_).mpr fun msg => ?_
  · refine List.Pairwise.map _ ?_ ((ascending_buildTableState messages path).imp_of_mem fun inA inB less same => ?_)
      (S := fun a b => a ≠ b) (R := fun a b => a.2 ≠ b.2)
    · exact fun a b differ => differ
    · have keyA := key_of_mem_table inA
      rw [same, key_of_mem_table inB] at keyA
      exact less.ne (Option.some.inj keyA).symm
  · exact (latest_pairwise messages).imp fun differ same => differ (by rw [same])
  · rw [mem_latest, mem_map]
    constructor
    · rintro ⟨entry, inside, rfl⟩
      exact ⟨entry.1, key_of_mem_table inside, mem_buildTableState.mp inside⟩
    · rintro ⟨key, -, isLast⟩
      exact ⟨(key, msg), mem_buildTableState.mpr isLast, rfl⟩

/-- What a table gives for a message: the entry of its key. -/
def hit (display : Json → String) (table : List (String × MessageRow)) (streamPath : String) (msg : MessageRow) : Option (String × MessageRow) :=
  (extractJoinKey display msg streamPath).bind fun key => (get table key).map fun row => (key, row)

theorem filter_keyed_table {streamPath : String} (msg : MessageRow) :
    ((buildTableState display messages path).filter fun entry => keyed display streamPath path msg entry.2) =
      (hit display (buildTableState display messages path) streamPath msg).toList := by
  unfold hit
  cases named : extractJoinKey display msg streamPath with
  | none => simp [keyed_of_none named]
  | some key =>
    rw [Option.bind_some, ← (ascending_buildTableState messages path).filter_key]
    refine filter_congr fun entry inside => ?_
    rw [keyed_of_key named, key_of_mem_table inside]
    simp

theorem any_of_filter {α : Type*} {p : α → Bool} {l : List α} {found : Option α} (only : l.filter p = found.toList) :
    l.any p = found.isSome := by
  rw [Bool.eq_iff_iff, any_eq_true]
  cases found with
  | none => simpa using filter_eq_nil_iff.mp only
  | some a =>
    refine iff_of_true ?_ rfl
    have inside : a ∈ l.filter p := by
      rw [only]
      exact mem_cons_self
    exact ⟨a, mem_of_mem_filter inside, of_mem_filter inside⟩

/-- The row of a stream message and the entry it finds. -/
def hitRow (joinType : JoinType) (msg : MessageRow) : Option (String × MessageRow) → List JoinedRow
  | some (_, row) => [(some msg, some row)]
  | none => if joinType.keepsLeft then [(some msg, none)] else []

/-- **The join through a table** is that of nested loops over the table's messages. -/
theorem performStreamTableJoin_perm (iteration : TableOrder) (streamMessages messages : List MessageRow) (streamPath path : String)
    (joinType : JoinType) :
    (performStreamTableJoin display iteration streamMessages (buildTableState display messages path) streamPath joinType).Perm
      (join (keyed display streamPath path) joinType.keepsLeft joinType.keepsRight streamMessages
        (latest (fun msg => extractJoinKey display msg path) messages)) := by
  generalize isTable : buildTableState display messages path = table
  have partners (msg : MessageRow) : (table.map Prod.snd).filter (keyed display streamPath path msg) =
      ((hit display table streamPath msg).map Prod.snd).toList := by
    rw [filter_map, ← isTable]
    change ((buildTableState display messages path).filter fun entry => keyed display streamPath path msg entry.2).map Prod.snd = _
    rw [filter_keyed_table]
    cases hit display (buildTableState display messages path) streamPath msg <;> rfl
  have left (msg : MessageRow) : hitRow joinType msg (hit display table streamPath msg) =
      leftPairs (keyed display streamPath path) joinType.keepsLeft (table.map Prod.snd) msg := by
    unfold leftPairs
    have related : (table.map Prod.snd).any (keyed display streamPath path msg) = (hit display table streamPath msg).isSome := by
      rw [any_of_filter (partners msg), Option.isSome_map]
    rw [related, partners]
    cases hit display table streamPath msg <;> rfl
  have right (entry : String × MessageRow) (inside : entry ∈ table) :
      decide (entry.1 ∉ streamMessages.filterMap fun msg => (hit display table streamPath msg).map Prod.fst) =
        !streamMessages.any (keyed display streamPath path · entry.2) := by
    rw [decide_not, Bool.not_inj_iff, Bool.eq_iff_iff, decide_eq_true_eq, mem_filterMap, any_eq_true]
    refine exists_congr fun msg => and_congr_right fun _ => ?_
    rw [keyed_iff]
    subst isTable
    rw [key_of_mem_table inside]
    have here := (ascending_buildTableState messages path).get_of_mem inside
    unfold hit
    cases named : extractJoinKey display msg streamPath with
    | none => simp
    | some key =>
      rw [Option.bind_some, Option.map_map]
      constructor
      · intro matched
        obtain ⟨row, -, same⟩ := Option.map_eq_some_iff.mp matched
        exact ⟨key, rfl, congrArg some same.symm⟩
      · rintro ⟨other, same, ofEntry⟩
        rw [same.trans ofEntry.symm |> Option.some.inj, here]
        rfl
  have unfolded : (performStreamTableJoin display iteration streamMessages table streamPath joinType).Perm
      (join (keyed display streamPath path) joinType.keepsLeft joinType.keepsRight streamMessages (table.map Prod.snd)) := by
    unfold performStreamTableJoin join rightOnly
    dsimp only
    change ((streamMessages.flatMap fun msg => hitRow joinType msg (hit display table streamPath msg)) ++
      (if joinType.keepsRight then ((iteration.order table).filter fun entry : String × MessageRow =>
          decide (entry.1 ∉ streamMessages.filterMap fun msg => (hit display table streamPath msg).map Prod.fst)).map
            fun entry : String × MessageRow => (none, some entry.2) else [])).Perm _
    refine Perm.append (.of_eq (flatMap_congr fun msg _ => left msg)) ?_
    split_ifs
    · refine (((iteration.reordered table).filter _).map _).trans (.of_eq ?_)
      rw [filter_congr right, filter_map, map_map]
      rfl
    · exact .refl _
  refine unfolded.trans (join_perm (.refl _) ?_)
  rw [← isTable]
  exact table_perm messages path

theorem keyed_swap (leftPath rightPath : String) :
    (fun left right => keyed display rightPath leftPath right left) = keyed display leftPath rightPath := by
  funext left right
  rw [Bool.eq_iff_iff, keyed_iff, keyed_iff]
  exact exists_congr fun key => and_comm

/-- **The join of a table with a stream**, which is run with the sides swapped. -/
theorem swappedStreamTableJoin_perm (iteration : TableOrder) (messages streamMessages : List MessageRow) (path streamPath : String)
    (joinType : JoinType) :
    ((performStreamTableJoin display iteration streamMessages (buildTableState display messages path) streamPath
      (swapJoinType joinType)).map Prod.swap).Perm
      (join (keyed display path streamPath) joinType.keepsLeft joinType.keepsRight
        (latest (fun msg => extractJoinKey display msg path) messages) streamMessages) := by
  have swapped := (@performStreamTableJoin_perm display iteration streamMessages messages streamPath path (swapJoinType joinType)).map Prod.swap
  have keeps : (swapJoinType joinType).keepsRight = joinType.keepsLeft ∧ (swapJoinType joinType).keepsLeft = joinType.keepsRight := by
    cases joinType <;> exact ⟨rfl, rfl⟩
  refine swapped.trans ((join_swap _ _).trans (.of_eq ?_))
  rw [keyed_swap, keeps.1, keeps.2]

/-! ## The stages -/

theorem applyPushdownFilter_eq {filter : Filter} {ref : TableRef} (applies : filterAppliesToSide filter ref = true) (msg : MessageRow) :
    applyPushdownFilter msg filter = msg.matchesFilter filter := by
  cases filter with
  | partitionEquals p => rfl
  | offsetGte o => exact decide_not.symm.trans (decide_eq_decide.mpr BitVec.not_lt)
  | offsetLt o => exact decide_not.symm.trans (decide_eq_decide.mpr BitVec.not_le)
  | offsetEquals o => rfl
  | timestampGte ts => exact decide_not.symm.trans (decide_eq_decide.mpr not_lt)
  | timestampLt ts => exact decide_not.symm.trans (decide_eq_decide.mpr not_le)
  | _ => cases applies

/-- The other filters let everything pass. -/
theorem applyPushdownFilters_others (query : JoinQuery) (msg : MessageRow) :
    applyPushdownFilters msg (query.filters.filter fun f => !filterAppliesToSide f query.left) = true := by
  refine all_eq_true.mpr fun filter listed => ?_
  have other : filterAppliesToSide filter query.left = false := by simpa using of_mem_filter listed
  cases filter <;> first | rfl | cases other

/-- The last message of each key. -/
def latestOf (display : Json → String) (path : String) (messages : List MessageRow) : List MessageRow :=
  latest (fun msg => extractJoinKey display msg path) messages

/-- The messages of the left topic after the filters that are applied before the join. -/
def JoinQuery.leftKept (query : JoinQuery) (messages : List MessageRow) : List MessageRow :=
  let filters := query.filters.filter fun f => filterAppliesToSide f query.left
  if filters = [] then messages else messages.filter fun msg => applyPushdownFilters msg filters

def JoinQuery.rightKept (query : JoinQuery) (messages : List MessageRow) : List MessageRow :=
  let filters := query.filters.filter fun f => !filterAppliesToSide f query.left
  if filters = [] then messages else messages.filter fun msg => applyPushdownFilters msg filters

/-- The left side of the join: next to a table it is a stream. -/
def JoinQuery.leftSide (display : Json → String) (query : JoinQuery) (messages : List MessageRow) : List MessageRow :=
  if query.left.isTable && !query.right.isTable then latestOf display query.condition.left.2 (query.leftKept messages) else query.leftKept messages

def JoinQuery.rightSide (display : Json → String) (query : JoinQuery) (messages : List MessageRow) : List MessageRow :=
  if query.right.isTable then latestOf display query.condition.right.2 (query.rightKept messages) else query.rightKept messages

/-- **The rows of `execute_join`** are those of the join of its two sides on their keys. -/
theorem joinedRows_perm (query : JoinQuery) (iteration : TableOrder) (leftTopic rightTopic : List MessageRow) :
    (joinedRows display query iteration leftTopic rightTopic).Perm
      (join (keyed display query.condition.left.2 query.condition.right.2) query.joinType.keepsLeft query.joinType.keepsRight
        (query.leftSide display leftTopic) (query.rightSide display rightTopic)) := by
  unfold JoinQuery.leftSide JoinQuery.rightSide
  cases right : query.right.isTable with
  | true =>
    have rows : joinedRows display query iteration leftTopic rightTopic = performStreamTableJoin display iteration (query.leftKept leftTopic)
        (buildTableState display (query.rightKept rightTopic) query.condition.right.2) query.condition.left.2 query.joinType := if_pos right
    rw [rows, Bool.not_true, Bool.and_false, if_neg Bool.false_ne_true, if_pos rfl]
    exact performStreamTableJoin_perm iteration _ _ _ _ _
  | false =>
    rw [Bool.not_false, Bool.and_true, if_neg Bool.false_ne_true]
    cases left : query.left.isTable with
    | true =>
      have rows : joinedRows display query iteration leftTopic rightTopic = (performStreamTableJoin display iteration (query.rightKept rightTopic)
          (buildTableState display (query.leftKept leftTopic) query.condition.left.2) query.condition.right.2
          (swapJoinType query.joinType)).map Prod.swap := (if_neg (by simp [right])).trans (if_pos left)
      rw [rows, if_pos rfl]
      exact swappedStreamTableJoin_perm iteration _ _ _ _ _
    | false =>
      have rows : joinedRows display query iteration leftTopic rightTopic = performJoin display (query.leftKept leftTopic)
          (query.rightKept rightTopic) (buildJoinIndex display (query.rightKept rightTopic) query.condition.right.2)
          query.condition.left.2 query.joinType := (if_neg (by simp [right])).trans (if_neg (by simp [left]))
      rw [rows, if_neg Bool.false_ne_true, performJoin_eq]

namespace JoinQuery

variable {query : JoinQuery}

theorem not_matches_of_not_pushed (stopped : query.pushed msg = false) : msg.matchesFilters query.filters = false := by
  unfold pushed applyPushdownFilters at stopped
  obtain ⟨filter, listed, fails⟩ := all_eq_false.mp stopped
  obtain ⟨inFilters, applies⟩ := mem_filter.mp listed
  rw [applyPushdownFilter_eq applies] at fails
  exact all_eq_false.mpr ⟨filter, inFilters, fails⟩

theorem leftKept_eq (messages : List MessageRow) : query.leftKept messages = messages.filter query.pushed := by
  unfold leftKept
  dsimp only
  split_ifs with empty
  · refine (filter_eq_self.mpr fun msg _ => ?_).symm
    rw [pushed, empty]
    rfl
  · rfl

theorem rightKept_eq (messages : List MessageRow) : query.rightKept messages = messages := by
  unfold rightKept
  dsimp only
  split_ifs with empty
  · rfl
  · exact filter_eq_self.mpr fun msg _ => applyPushdownFilters_others query msg

variable {toLowercase : String → String} {leftTopic rightTopic : List MessageRow}

theorem rowsOf_subset (side : Side) (ref : TableRef) (messages : List MessageRow) : query.rowsOf display side ref messages ⊆ messages := by
  unfold rowsOf
  split_ifs
  · exact (latest_sublist messages).subset
  · exact Subset.refl _

theorem taken_subset (messages : List MessageRow) : query.taken display messages ⊆ messages.filter query.pushed := by
  unfold taken
  split_ifs
  · exact (latest_sublist _).subset
  · exact Subset.refl _

/-- The sides are those of the query, or there is no row. -/
theorem Sound.join_sides (sound : query.Sound display toLowercase leftTopic rightTopic) :
    join (keyed display query.condition.left.2 query.condition.right.2) query.joinType.keepsLeft query.joinType.keepsRight
        (query.leftSide display leftTopic) (query.rightSide display rightTopic) =
      join (query.on display) query.joinType.keepsLeft query.joinType.keepsRight (query.taken display leftTopic)
        (query.rightRows display rightTopic) := by
  by_cases noRight : rightTopic = [] ∧ query.joinType.keepsLeft = false
  · obtain ⟨rfl, dropped⟩ := noRight
    have right : query.rightSide display [] = [] ∧ query.rightRows display [] = [] := by
      unfold rightSide rightRows rowsOf
      rw [rightKept_eq]
      cases query.right.isTable <;> exact ⟨rfl, rfl⟩
    rw [right.1, right.2, dropped, join_nil_right, join_nil_right]
  by_cases noLeft : leftTopic.filter query.pushed = [] ∧ query.joinType.keepsRight = false
  · obtain ⟨none, dropped⟩ := noLeft
    have left : query.leftSide display leftTopic = [] ∧ query.taken display leftTopic = [] := by
      unfold leftSide taken
      rw [leftKept_eq, none]
      split_ifs <;> exact ⟨rfl, rfl⟩
    rw [left.1, left.2, dropped, join_nil_left, join_nil_left]
  have left : query.leftSide display leftTopic = query.taken display leftTopic := by
    unfold leftSide taken
    rw [leftKept_eq]
    split_ifs with table
    · rw [Bool.and_eq_true, Bool.not_eq_true'] at table
      refine latest_congr (sound.leftKeys table.1 table.2 ?_)
      rwa [not_and_or, Bool.not_eq_false] at noRight
    · rfl
  have right : query.rightSide display rightTopic = query.rightRows display rightTopic := by
    unfold rightSide rightRows rowsOf
    rw [rightKept_eq]
    split_ifs with table
    · refine latest_congr (sound.rightKeys table ?_)
      rwa [not_and_or, Bool.not_eq_false] at noLeft
    · rfl
  rw [left, right]
  refine join_congr fun l inL r inR => ?_
  obtain ⟨listed, passes⟩ := mem_filter.mp (taken_subset leftTopic inL)
  exact sound.keys l listed passes r (rowsOf_subset _ _ rightTopic inR)

/-- **The joined rows are those that satisfy every filter**, where the stages are sound. -/
theorem Sound.joinedRows_perm (sound : query.Sound display toLowercase leftTopic rightTopic) (iteration : TableOrder) :
    (joinedRows display query iteration leftTopic rightTopic).Perm (query.selected display leftTopic rightTopic) := by
  have chosen : query.selected display leftTopic rightTopic = join (query.on display) query.joinType.keepsLeft query.joinType.keepsRight
      ((query.leftRows display leftTopic).filter query.pushed) (query.rightRows display rightTopic) := by
    rw [selected, joinOf]
    exact filter_join (fun left _ stopped right => not_matches_of_not_pushed stopped) sound.passes sound.cover
  refine (Sql.joinedRows_perm query iteration leftTopic rightTopic).trans ?_
  rw [sound.join_sides, chosen]
  cases table : query.left.isTable with
  | true =>
    obtain ⟨others, parts, idle⟩ := sound.replaced table
    exact (join_perm parts (.refl _)).trans (.of_eq (join_append_idle idle))
  | false =>
    have stream : query.taken display leftTopic = (query.leftRows display leftTopic).filter query.pushed := by
      rw [taken, leftRows, rowsOf, table]
      rfl
    rw [stream]

/-! ## The order -/

theorem pairwise_of_length_le_one {α : Type*} {r : α → α → Prop} {l : List α} (few : l.length ≤ 1) : l.Pairwise r := by
  match l with
  | [] => exact .nil
  | [a] => exact pairwise_singleton r a
  | _ :: _ :: l => exact absurd few (by simp)

theorem insertionSort_of_length_le_one {α : Type*} {r : α → α → Prop} [DecidableRel r] {l : List α} (few : l.length ≤ 1) :
    l.insertionSort r = l := by
  match l with
  | [] => rfl
  | [a] => rfl
  | _ :: _ :: l => exact absurd few (by simp)

/-- A sort orders a list if the relation is an order on its items. -/
theorem pairwise_insertionSort_of {α : Type*} {r : α → α → Prop} [DecidableRel r] {l : List α}
    (total : ∀ a ∈ l, ∀ b ∈ l, r a b ∨ r b a) (trans : ∀ a ∈ l, ∀ b ∈ l, ∀ c ∈ l, r a b → r b c → r a c) :
    (l.insertionSort r).Pairwise r := by
  have isTotal : Std.Total fun a b : {a // a ∈ l} => r a.1 b.1 := ⟨fun a b => total a.1 a.2 b.1 b.2⟩
  have isTrans : IsTrans {a // a ∈ l} fun a b => r a.1 b.1 := ⟨fun a b c => trans a.1 a.2 b.1 b.2 c.1 c.2⟩
  have sorted := pairwise_insertionSort (fun a b : {a // a ∈ l} => r a.1 b.1) l.attach
  have values := map_insertionSort (fun a b : {a // a ∈ l} => r a.1 b.1) r Subtype.val l.attach fun a _ b _ => Iff.rfl
  rw [attach_map_subtype_val] at values
  rw [← values]
  exact sorted.map _ fun a b related => related

theorem compareForSort_swap (display : Json → String) (a b : Json) : (compareForSort display a b).swap = compareForSort display b a := by
  unfold compareForSort
  cases a <;> cases b <;> exact cmp_swap _ _

theorem compareForSort_total (display : Json → String) (a b : Json) : compareForSort display a b ≠ .gt ∨ compareForSort display b a ≠ .gt := by
  rw [← compareForSort_swap display a b]
  cases compareForSort display a b <;> decide

/-- Texts are compared as they are ordered. -/
theorem comparable_strings {values : List Json} (strings : ∀ value ∈ values, ∃ s, value = .string s) : Comparable display values := by
  have upto (s t : String) : compareForSort display (.string s) (.string t) ≠ .gt ↔ s ≤ t := by
    rw [← not_lt, ← cmp_eq_gt_iff]
    rfl
  refine ⟨fun a inA b inB => ?_, fun a inA b inB c inC => ?_⟩
  · obtain ⟨s, rfl⟩ := strings a inA
    obtain ⟨t, rfl⟩ := strings b inB
    exact (upto s t).mp
  · obtain ⟨s, rfl⟩ := strings a inA
    obtain ⟨t, rfl⟩ := strings b inB
    obtain ⟨u, rfl⟩ := strings c inC
    rw [upto, upto, upto]
    exact le_trans

/-- Whether a row may stand before another. -/
def mayPrecede (display : Json → String) (toLowercase : String → String) (query : JoinQuery) (orderBy : OrderBy) (a b : JoinedRow) : Prop :=
  if orderBy.descending then
    compareForSort display (query.orderValue toLowercase orderBy b) (query.orderValue toLowercase orderBy a) ≠ .gt
  else compareForSort display (query.orderValue toLowercase orderBy a) (query.orderValue toLowercase orderBy b) ≠ .gt

instance (orderBy : OrderBy) : DecidableRel (mayPrecede display toLowercase query orderBy) := fun a b =>
  inferInstanceAs (Decidable (if orderBy.descending then
    compareForSort display (query.orderValue toLowercase orderBy b) (query.orderValue toLowercase orderBy a) ≠ .gt
  else compareForSort display (query.orderValue toLowercase orderBy a) (query.orderValue toLowercase orderBy b) ≠ .gt))

/-- The rows are sorted as their projections are. -/
theorem sortRows_map {orderBy : OrderBy} {index : Nat} (isIndex : orderIndex toLowercase query orderBy = some index) (rows : List JoinedRow) :
    sortRows display orderBy index (rows.map (projectJoinRow query)) =
      (rows.insertionSort (mayPrecede display toLowercase query orderBy)).map (projectJoinRow query) := by
  refine (map_insertionSort _ _ (projectJoinRow query) rows fun a _ b _ => ?_).symm
  have value (row : JoinedRow) : query.orderValue toLowercase orderBy row = (projectJoinRow query row).getD index .null := by
    rw [orderValue, isIndex]
  unfold mayPrecede
  rw [value a, value b]
  cases orderBy.descending with
  | false => rfl
  | true =>
    rw [if_pos rfl, ← compareForSort_swap]
    rfl

/-- The sorted rows are in an order that ORDER BY allows. -/
theorem ordered_insertionSort {orderBy : OrderBy} (isOrder : query.orderBy = some orderBy) {rows : List JoinedRow}
    (comparable : Comparable display (rows.map (query.orderValue toLowercase orderBy))) :
    query.Ordered display toLowercase (rows.insertionSort (mayPrecede display toLowercase query orderBy)) := by
  have value {row : JoinedRow} (inside : row ∈ rows) :
      query.orderValue toLowercase orderBy row ∈ rows.map (query.orderValue toLowercase orderBy) := mem_map.mpr ⟨row, inside, rfl⟩
  have sorted : (rows.insertionSort (mayPrecede display toLowercase query orderBy)).Pairwise (mayPrecede display toLowercase query orderBy) := by
    apply pairwise_insertionSort_of
    · intro a inA b inB
      unfold mayPrecede
      split_ifs
      · exact compareForSort_total _ _ _
      · exact compareForSort_total _ _ _
    · intro a inA b inB c inC
      unfold mayPrecede
      split_ifs
      · exact fun first second => comparable.trans _ (value inC) _ (value inB) _ (value inA) second first
      · exact fun first second => comparable.trans _ (value inA) _ (value inB) _ (value inC) first second
  intro other isOther
  obtain rfl : orderBy = other := Option.some.inj (isOrder.symm.trans isOther)
  refine sorted.imp_of_mem fun inA inB related => ?_
  have inA := mem_insertionSort _ |>.mp inA
  have inB := mem_insertionSort _ |>.mp inB
  unfold mayPrecede at related
  split_ifs at related ⊢
  · exact comparable.upto _ (value inB) _ (value inA) related
  · exact comparable.upto _ (value inA) _ (value inB) related

/-- Where nothing is cut off the limit takes all. -/
theorem limited_of_length_le {rows : List JoinedRow} (fits : rows.length ≤ min (query.limit.getD maxRows) maxRows) :
    query.limited rows = rows ∧ rows.take (min (query.limit.getD maxRows) maxRows) = rows := by
  refine ⟨?_, take_of_length_le fits⟩
  unfold limited
  cases isLimit : query.limit with
  | none => rfl
  | some limit =>
    rw [isLimit, Option.getD_some] at fits
    exact take_of_length_le (by omega)

end JoinQuery

open JoinQuery

/-- **A join returns what the query means**, where its stages do not get in each other's way. -/
theorem join_answers {toLowercase : String → String} {query : JoinQuery} {leftTopic rightTopic : List MessageRow}
    (sound : query.Sound display toLowercase leftTopic rightTopic) (iteration : TableOrder) :
    query.Answers display toLowercase leftTopic rightTopic (executeJoin display toLowercase query iteration leftTopic rightTopic) := by
  have rows := sound.joinedRows_perm iteration
  unfold executeJoin
  dsimp only
  cases isOrder : query.orderBy with
  | none =>
    have free : query.Ordered display toLowercase (joinedRows display query iteration leftTopic rightTopic) := by
      intro orderBy other
      rw [isOrder] at other
      cases other
    refine ⟨_, rows, free, ?_⟩
    dsimp only
    obtain fits | ⟨-, limit, small, isLimit⟩ := sound.uncut
    · rw [← rows.length_eq] at fits
      obtain ⟨limited, taken⟩ := limited_of_length_le fits
      rw [limited, taken]
    · rw [limited, isLimit, Option.getD_some, min_eq_left small]
  | some orderBy =>
    obtain fits | ⟨unordered, -⟩ := sound.uncut
    · rw [← rows.length_eq] at fits
      obtain ⟨-, taken⟩ := limited_of_length_le fits
      have sorted := perm_insertionSort (mayPrecede display toLowercase query orderBy)
        (joinedRows display query iteration leftTopic rightTopic)
      by_cases several : 1 < (query.selected display leftTopic rightTopic).length
      · obtain ⟨named, comparable⟩ := sound.ordered orderBy isOrder several
        obtain ⟨index, isIndex⟩ := Option.ne_none_iff_exists'.mp named
        have values : Comparable display ((joinedRows display query iteration leftTopic rightTopic).map
            (query.orderValue toLowercase orderBy)) := by
          have same (value : Json) := (rows.map (query.orderValue toLowercase orderBy)).mem_iff (a := value)
          exact ⟨fun a inA b inB => comparable.upto a ((same a).mp inA) b ((same b).mp inB),
            fun a inA b inB c inC => comparable.trans a ((same a).mp inA) b ((same b).mp inB) c ((same c).mp inC)⟩
        rw [← sorted.length_eq] at fits
        refine ⟨_, sorted.trans rows, ordered_insertionSort isOrder values, ?_⟩
        dsimp only
        rw [taken, (limited_of_length_le fits).1, isIndex]
        exact sortRows_map isIndex _
      · have few : (joinedRows display query iteration leftTopic rightTopic).length ≤ 1 := by
          rw [rows.length_eq]
          exact Nat.le_of_not_lt several
        refine ⟨_, rows, fun _ _ => pairwise_of_length_le_one few, ?_⟩
        dsimp only
        rw [taken, (limited_of_length_le fits).1]
        split
        · exact insertionSort_of_length_le_one (by rwa [length_map])
        · rfl
    · rw [isOrder] at unordered
      cases unordered

end Display

namespace JoinExample

def display (_ : Json) : String := ""

def message (topic key : String) (offset : BitVec 64) : MessageRow := ⟨topic, 0, offset, some ⟨key, none⟩, ⟨"", none⟩, 0⟩

/-- The orders with an offset below 2, the last key first, with the offsets of their users. -/
def ordersOfUsers : JoinQuery where
  left := ⟨"orders", some "o", false⟩
  right := ⟨"users", some "u", false⟩
  joinType := .left
  condition := ⟨("o", "key"), ("u", "key")⟩
  columns := [.qualifiedColumn "o" "key" none, .qualifiedColumn "u" "offset" none]
  filters := [.offsetLt 2]
  orderBy := some ⟨"o.key", true⟩
  limit := some 10

def orders : List MessageRow := [message "orders" "a" 0, message "orders" "b" 1, message "orders" "c" 2]

def users : List MessageRow := [message "users" "b" 5]

theorem joined : ordersOfUsers.joinOf display orders users =
    [(some (message "orders" "a" 0), none), (some (message "orders" "b" 1), some (message "users" "b" 5)),
      (some (message "orders" "c" 2), none)] := rfl

theorem selected : ordersOfUsers.selected display orders users =
    [(some (message "orders" "a" 0), none), (some (message "orders" "b" 1), some (message "users" "b" 5))] := rfl

theorem sound : ordersOfUsers.Sound display lowercase orders users where
  keys left inLeft _ right inRight := by
    simp only [orders, users, mem_cons, not_mem_nil, or_false] at inLeft inRight
    obtain rfl := inRight
    obtain rfl | rfl | rfl := inLeft
    · rfl
    · rfl
    · rfl
  leftKeys isTable := by cases isTable
  rightKeys isTable := by cases isTable
  replaced isTable := by cases isTable
  passes := by
    rw [joined]
    intro row inside passed
    simp only [mem_cons, not_mem_nil, or_false] at inside
    obtain rfl | rfl | rfl := inside
    · rfl
    · rfl
    · cases passed _ rfl
  cover kept := by cases kept
  uncut := .inl (by rw [selected]; decide)
  ordered orderBy isOrder _ := by
    obtain rfl := Option.some.inj isOrder
    refine ⟨by decide +kernel, ?_⟩
    rw [selected]
    have isIndex : orderIndex lowercase ordersOfUsers ⟨"o.key", true⟩ = some 0 := by decide +kernel
    simp only [map_cons, map_nil, JoinQuery.orderValue, isIndex]
    exact JoinQuery.comparable_strings fun value inside => by
      simp only [mem_cons, not_mem_nil, or_false] at inside
      obtain rfl | rfl := inside
      · exact ⟨"a", rfl⟩
      · exact ⟨"b", rfl⟩

/-- Orders and users with the user's id in their values. -/
def withUserId (id : String) : MessageRow := ⟨"orders", 0, 0, none, ⟨"", some (.object [("user_id", .string id)])⟩, 0⟩

def withId (id : String) : MessageRow := ⟨"users", 0, 0, none, ⟨"", some (.object [("id", .string id)])⟩, 0⟩

/-- `SELECT o.offset FROM orders o JOIN users u ON u.id = o.user_id`. -/
def reversed : JoinQuery where
  left := ⟨"orders", some "o", false⟩
  right := ⟨"users", some "u", false⟩
  joinType := .inner
  condition := ⟨("u", "$.id"), ("o", "$.user_id")⟩
  columns := [.qualifiedColumn "o" "offset" none]
  filters := []
  orderBy := none
  limit := none

def inOrder : TableOrder := ⟨id, fun table => .refl table⟩

end JoinExample

open JoinExample

theorem orders_of_users_answered : ordersOfUsers.Answers display lowercase orders users
    (executeJoin display lowercase ordersOfUsers inOrder orders users) :=
  join_answers sound inOrder

/-- The ids of the users are looked for in the orders, where the condition begins with the users. -/
theorem join_misses_reversed : ¬ ∀ (display : Json → String) (toLowercase : String → String) (query : JoinQuery) (iteration : TableOrder)
    (leftTopic rightTopic : List MessageRow),
    query.Answers display toLowercase leftTopic rightTopic (executeJoin display toLowercase query iteration leftTopic rightTopic) := by
  intro always
  obtain ⟨rows, selected, -, result⟩ := always display lowercase reversed inOrder
    [withUserId "7"] [withId "7"]
  have one : reversed.selected display [withUserId "7"] [withId "7"] =
      [(some (withUserId "7"), some (withId "7"))] := rfl
  have none : executeJoin display lowercase reversed inOrder [withUserId "7"]
      [withId "7"] = [] := rfl
  rw [one] at selected
  rw [none, perm_singleton.mp selected] at result
  cases result

end StreamHouse.Sql
