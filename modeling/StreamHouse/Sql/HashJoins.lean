import StreamHouse.Sql.JoinAnswers

/-!
# Hash joins and nested loops

The join through an index, the join of a stream with a table, and the latter with the sides swapped
have the rows of the nested loops, whatever the messages, the paths and the type of the join.
-/

namespace StreamHouse.Sql

open Lib Joins

section Display

variable (display : Json → String)

/-- The pairs of messages with one key, and of the sides that are kept each message without a partner. -/
def nestedLoopJoin (leftPath rightPath : String) (joinType : JoinType) (leftRows rightRows : List MessageRow) : List JoinedRow :=
  pairs (keyed display leftPath rightPath) leftRows rightRows ++
    (leftOnly (keyed display leftPath rightPath) joinType.keepsLeft leftRows rightRows ++
      rightOnly (keyed display leftPath rightPath) joinType.keepsRight leftRows rightRows)

variable {display}

theorem indexJoin_perm (leftMessages rightMessages : List MessageRow) (leftPath rightPath : String) (joinType : JoinType) :
    (performJoin display leftMessages rightMessages (buildJoinIndex display rightMessages rightPath) leftPath joinType).Perm
      (nestedLoopJoin display leftPath rightPath joinType leftMessages rightMessages) := by
  rw [performJoin_eq]
  exact join_parts leftMessages rightMessages

theorem streamTableJoin_perm (iteration : TableOrder) (leftMessages rightMessages : List MessageRow) (leftPath rightPath : String)
    (joinType : JoinType) :
    (performStreamTableJoin display iteration leftMessages (buildTableState display rightMessages rightPath) leftPath joinType).Perm
      (nestedLoopJoin display leftPath rightPath joinType leftMessages (latestOf display rightPath rightMessages)) :=
  (performStreamTableJoin_perm iteration leftMessages rightMessages leftPath rightPath joinType).trans
    (join_parts leftMessages _)

theorem tableStreamJoin_perm (iteration : TableOrder) (leftMessages rightMessages : List MessageRow) (leftPath rightPath : String)
    (joinType : JoinType) :
    ((performStreamTableJoin display iteration rightMessages (buildTableState display leftMessages leftPath) rightPath
      (swapJoinType joinType)).map Prod.swap).Perm
      (nestedLoopJoin display leftPath rightPath joinType (latestOf display leftPath leftMessages) rightMessages) :=
  (swappedStreamTableJoin_perm iteration leftMessages rightMessages leftPath rightPath joinType).trans
    (join_parts _ rightMessages)

/-- **The rows of `execute_join`** are those of the nested loops over its two sides. -/
theorem joinedRows_perm_nestedLoops (query : JoinQuery) (iteration : TableOrder) (leftTopic rightTopic : List MessageRow) :
    (joinedRows display query iteration leftTopic rightTopic).Perm
      (nestedLoopJoin display query.condition.left.2 query.condition.right.2 query.joinType (query.leftSide display leftTopic)
        (query.rightSide display rightTopic)) :=
  (joinedRows_perm query iteration leftTopic rightTopic).trans (join_parts _ _)

end Display

/-- **Hash joins are nested-loop joins**: through the index, of a stream with a table, of a table with a stream by swapped sides
and type, and as `execute_join` chooses among these. -/
theorem hash_joins_are_nested_loops (display : Json → String) (iteration : TableOrder) (leftMessages rightMessages : List MessageRow)
    (leftPath rightPath : String) (joinType : JoinType) :
    (performJoin display leftMessages rightMessages (buildJoinIndex display rightMessages rightPath) leftPath joinType).Perm
        (nestedLoopJoin display leftPath rightPath joinType leftMessages rightMessages) ∧
      (performStreamTableJoin display iteration leftMessages (buildTableState display rightMessages rightPath) leftPath joinType).Perm
        (nestedLoopJoin display leftPath rightPath joinType leftMessages (latestOf display rightPath rightMessages)) ∧
      ((performStreamTableJoin display iteration rightMessages (buildTableState display leftMessages leftPath) rightPath
        (swapJoinType joinType)).map Prod.swap).Perm
        (nestedLoopJoin display leftPath rightPath joinType (latestOf display leftPath leftMessages) rightMessages) ∧
      ∀ query : JoinQuery, (joinedRows display query iteration leftMessages rightMessages).Perm
        (nestedLoopJoin display query.condition.left.2 query.condition.right.2 query.joinType (query.leftSide display leftMessages)
          (query.rightSide display rightMessages)) :=
  ⟨indexJoin_perm leftMessages rightMessages leftPath rightPath joinType,
    streamTableJoin_perm iteration leftMessages rightMessages leftPath rightPath joinType,
    tableStreamJoin_perm iteration leftMessages rightMessages leftPath rightPath joinType,
    fun query => joinedRows_perm_nestedLoops query iteration leftMessages rightMessages⟩

end StreamHouse.Sql
