import Alkane.Core.Types

/-!
# `EntityStorage` の操作

ブロックの表（`find_blk`、`add_blk`、ポインタを通した書き換え）と、局所順序の待ち行列、
見たコマンドと提案したコマンドの集合の操作。`entity.h` はソースにないので、どれも仕様書 §3、§4.2
から写す。集合は重複のないリストとして持つ。
-/

namespace Alkane.Core

/-- 連想リストからブロックを引く。 -/
def lookupBlk (h : BlockHash) : List (BlockHash × Block) → Option Block
  | [] => none
  | (h', b) :: rest => if h' = h then some b else lookupBlk h rest

/-- 連想リストのブロックを書き換える。無いハッシュなら何もしない。 -/
def replaceBlk (h : BlockHash) (b : Block) (l : List (BlockHash × Block)) :
    List (BlockHash × Block) :=
  l.map fun p => if p.1 = h then (h, b) else p

@[simp] theorem lookupBlk_nil (h : BlockHash) : lookupBlk h [] = none := rfl

@[simp] theorem lookupBlk_cons (h h' : BlockHash) (b : Block) (l : List (BlockHash × Block)) :
    lookupBlk h ((h', b) :: l) = if h' = h then some b else lookupBlk h l := rfl

theorem lookupBlk_replaceBlk (h h' : BlockHash) (b : Block) (l : List (BlockHash × Block)) :
    lookupBlk h' (replaceBlk h b l) =
      if h = h' then (lookupBlk h l).map fun _ => b else lookupBlk h' l := by
  induction l with
  | nil => simp [replaceBlk]
  | cons p l ih =>
    obtain ⟨k, c⟩ := p
    simp only [replaceBlk, List.map_cons] at ih ⊢
    by_cases hk : k = h <;> by_cases hh : h = h' <;> simp_all

namespace EntityStorage

/-! ## ブロックの表 -/

/-- `find_blk(hash)`。 -/
def findBlk (st : EntityStorage) (h : BlockHash) : Option Block := lookupBlk h st.blkCache

/-- ポインタを通した書き換え（`blk->field = ...`）。 -/
def setBlk (st : EntityStorage) (h : BlockHash) (b : Block) : EntityStorage :=
  { st with blkCache := replaceBlk h b st.blkCache }

/-- Modelled from the spec: `add_blk(blk)`。同じハッシュのブロックがあればそれを使う。
新しいブロックなら表に加え、その局所順序に現れるコマンドを `proposed_cmds` と
`seen_execute_level` に入れる（提案されて、まだ確定していないコマンド）。 -/
def addBlk (st : EntityStorage) (h : BlockHash) (b : Block) : EntityStorage :=
  match st.findBlk h with
  | some _ => st
  | none =>
    let cmds := b.orders.flatMap (·.2)
    { st with
      blkCache := (h, b) :: st.blkCache
      proposedCmds := cmds.foldl (fun acc c => acc.insert c) st.proposedCmds
      seenExecuteLevel := cmds.foldl (fun acc c => acc.insert c) st.seenExecuteLevel }

@[simp] theorem findBlk_setBlk (st : EntityStorage) (h h' : BlockHash) (b : Block) :
    (st.setBlk h b).findBlk h' = if h = h' then (st.findBlk h).map fun _ => b else st.findBlk h' :=
  lookupBlk_replaceBlk h h' b st.blkCache

theorem findBlk_addBlk (st : EntityStorage) (h h' : BlockHash) (b : Block) :
    (st.addBlk h b).findBlk h' =
      if st.findBlk h = none ∧ h = h' then some b else st.findBlk h' := by
  unfold addBlk
  split <;> rename_i hf
  · simp [hf]
  · by_cases hh : h = h' <;> simp_all [findBlk]

theorem addBlk_of_findBlk {st : EntityStorage} {h : BlockHash} {b c : Block}
    (hf : st.findBlk h = some c) : st.addBlk h b = st := by
  simp [addBlk, hf]

@[simp] theorem setBlk_localOrderCache (st : EntityStorage) (h : BlockHash) (b : Block) :
    (st.setBlk h b).localOrderCache = st.localOrderCache := rfl

@[simp] theorem setBlk_proposedCmds (st : EntityStorage) (h : BlockHash) (b : Block) :
    (st.setBlk h b).proposedCmds = st.proposedCmds := rfl

@[simp] theorem addBlk_localOrderCache (st : EntityStorage) (h : BlockHash) (b : Block) :
    (st.addBlk h b).localOrderCache = st.localOrderCache := by
  unfold addBlk; split <;> rfl

/-! ## コマンドの集合 -/

/-- `update_local_order_seen(cmds)`：局所順序で見たコマンドを `seen_propose_level` に入れる。 -/
def updateLocalOrderSeen (st : EntityStorage) (cmds : List CmdHash) : EntityStorage :=
  { st with seenProposeLevel := cmds.foldl (fun acc c => acc.insert c) st.seenProposeLevel }

/-- `remove_local_order_seen_propose_level(cmd)`。 -/
def removeLocalOrderSeenProposeLevel (st : EntityStorage) (c : CmdHash) : EntityStorage :=
  { st with seenProposeLevel := st.seenProposeLevel.erase c }

/-- `remove_local_order_seen_execute_level(cmd)`。 -/
def removeLocalOrderSeenExecuteLevel (st : EntityStorage) (c : CmdHash) : EntityStorage :=
  { st with seenExecuteLevel := st.seenExecuteLevel.erase c }

/-- `remove_from_proposed_cmds_cache(cmd)`。 -/
def removeFromProposedCmdsCache (st : EntityStorage) (c : CmdHash) : EntityStorage :=
  { st with proposedCmds := st.proposedCmds.erase c }

/-- `is_cmd_proposed(cmd)`。 -/
def isCmdProposed (st : EntityStorage) (c : CmdHash) : Bool := c ∈ st.proposedCmds

@[simp] theorem removeLocalOrderSeenProposeLevel_blkCache (st : EntityStorage) (c : CmdHash) :
    (st.removeLocalOrderSeenProposeLevel c).blkCache = st.blkCache := rfl

@[simp] theorem removeLocalOrderSeenExecuteLevel_blkCache (st : EntityStorage) (c : CmdHash) :
    (st.removeLocalOrderSeenExecuteLevel c).blkCache = st.blkCache := rfl

@[simp] theorem removeFromProposedCmdsCache_blkCache (st : EntityStorage) (c : CmdHash) :
    (st.removeFromProposedCmdsCache c).blkCache = st.blkCache := rfl

@[simp] theorem updateLocalOrderSeen_blkCache (st : EntityStorage) (cmds : List CmdHash) :
    (st.updateLocalOrderSeen cmds).blkCache = st.blkCache := rfl

/-! ## 局所順序の待ち行列 -/

/-- レプリカの待ち行列（無ければ空）。 -/
def queueOf (st : EntityStorage) (r : ReplicaID) : List (List CmdHash) :=
  ((st.localOrderCache.find? (·.1 = r)).map (·.2)).getD []

/-- レプリカの待ち行列を置き換える。空になった行列は表から除く。 -/
def setQueue (st : EntityStorage) (r : ReplicaID) (q : List (List CmdHash)) : EntityStorage :=
  let rest := st.localOrderCache.filter (·.1 ≠ r)
  let cache :=
    if q = [] then rest
    else if st.localOrderCache.any (·.1 = r) then
      st.localOrderCache.map fun p => if p.1 = r then (r, q) else p
    else st.localOrderCache ++ [(r, q)]
  { st with localOrderCache := cache }

/-- `add_local_order(replica, cmds)`：列を待ち行列の末尾に置く。 -/
def addLocalOrder (st : EntityStorage) (r : ReplicaID) (cmds : List CmdHash) : EntityStorage :=
  st.setQueue r (st.queueOf r ++ [cmds])

/-- `get_ordered_hash_vector(replica)`：待ち行列の先頭の列。 -/
def getOrderedHashVector (st : EntityStorage) (r : ReplicaID) : List CmdHash :=
  (st.queueOf r).headD []

/-- `get_ordered_hash_replia_vector()`：待ち行列が空でないレプリカ（表の順）。 -/
def getOrderedHashRepliaVector (st : EntityStorage) : List ReplicaID :=
  (st.localOrderCache.filter (·.2 ≠ [])).map (·.1)

/-- `get_local_order_cache_size()`：局所順序を寄せているレプリカの数。 -/
def getLocalOrderCacheSize (st : EntityStorage) : Nat := st.getOrderedHashRepliaVector.length

/-- `clear_front_ordered_hash(replica)`：先頭の列を捨てる。 -/
def clearFrontOrderedHash (st : EntityStorage) (r : ReplicaID) : EntityStorage :=
  st.setQueue r (st.queueOf r).tail

/-- `add_ordered_hash_to_front(replica, cmds)`：列を待ち行列の先頭に置く。 -/
def addOrderedHashToFront (st : EntityStorage) (r : ReplicaID) (cmds : List CmdHash) :
    EntityStorage :=
  st.setQueue r (cmds :: st.queueOf r)

@[simp] theorem setQueue_blkCache (st : EntityStorage) (r : ReplicaID) (q : List (List CmdHash)) :
    (st.setQueue r q).blkCache = st.blkCache := rfl

@[simp] theorem addLocalOrder_blkCache (st : EntityStorage) (r : ReplicaID) (cmds : List CmdHash) :
    (st.addLocalOrder r cmds).blkCache = st.blkCache := rfl

@[simp] theorem clearFrontOrderedHash_blkCache (st : EntityStorage) (r : ReplicaID) :
    (st.clearFrontOrderedHash r).blkCache = st.blkCache := rfl

@[simp] theorem addOrderedHashToFront_blkCache (st : EntityStorage) (r : ReplicaID)
    (cmds : List CmdHash) : (st.addOrderedHashToFront r cmds).blkCache = st.blkCache := rfl

@[simp] theorem setQueue_proposedCmds (st : EntityStorage) (r : ReplicaID)
    (q : List (List CmdHash)) : (st.setQueue r q).proposedCmds = st.proposedCmds := rfl

end EntityStorage

end Alkane.Core
