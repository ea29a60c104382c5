import Alkane.Core.FairOrder

/-!
# `HotStuffCore` の操作

`consensus.cpp` の各メソッドを、状態を渡す関数として写す。例外は `Result.error`（それまでの
変更は残る）、未定義動作は `Result.undefined` になる。`parents[0]` をたどるループは、
高さが 1 ずつ減る列をたどるので、出発点の高さ + 1 回を燃料とする（燃料が尽きるのは
到達できない状態だけであることは `Lemmas/` で示す）。
-/

namespace Alkane.Core

namespace HotStuffCore

/-- ブロックを引く。 -/
def findBlk (s : HotStuffCore) (h : BlockHash) : Option Block := s.storage.findBlk h

/-- ブロックを書き換える。 -/
def setBlk (s : HotStuffCore) (h : BlockHash) (b : Block) : HotStuffCore :=
  { s with storage := s.storage.setBlk h b }

/-- `get_delivered_blk(hash)`：配送済みのブロック（無ければ `block not delivered` を投げる）。 -/
def getDeliveredBlk (s : HotStuffCore) (h : BlockHash) : Option Block :=
  match s.findBlk h with
  | some b => if b.delivered then some b else none
  | none => none

/-- ブロックが配送済みである。 -/
def isDelivered (s : HotStuffCore) (h : BlockHash) : Bool := (s.getDeliveredBlk h).isSome

/-- 生成直後から `add_replica` と `on_init(nfaulty, γ)` を終えた状態。`nmajority` は
`size_t` の引き算 `nreplicas - nfaulty`。 -/
def init (b0 : BlockHash) (id : ReplicaID) (replicas : List ReplicaID) (nfaulty : Nat)
    (γ : Float) : HotStuffCore where
  b0 := b0
  hqc := (b0, createQuorumCert b0)
  bLock := b0
  bExec := b0
  vheight := 0
  tails := [b0]
  config :=
    { nreplicas := replicas.dedup.length
      nmajority := (2 ^ 64 + replicas.dedup.length - nfaulty) % 2 ^ 64
      fairnessParameter := γ }
  qcWaiting := []
  voteDisabled := false
  id := id
  storage :=
    { blkCache := [(b0, Block.genesis b0 replicas)], localOrderCache := [],
      seenProposeLevel := [], seenExecuteLevel := [], proposedCmds := [] }

end HotStuffCore

open HotStuffCore

/-! ## 配送 -/

/-- `parent_hashes` を順に `get_delivered_blk` で解決し、最初に失敗するまでの部分。 -/
def deliveredPrefix (s : HotStuffCore) : List BlockHash → List BlockHash
  | [] => []
  | h :: rest => if s.isDelivered h then h :: deliveredPrefix s rest else []

/-- `on_deliver_blk(blk)`。 -/
def onDeliverBlk (s : HotStuffCore) (h : BlockHash) : Result Bool :=
  match s.findBlk h with
  | none => .undefined
  | some blk =>
    if blk.delivered then .ok false s []
    else
      let ps := deliveredPrefix s blk.parentHashes
      if ps.length < blk.parentHashes.length then
        .error "block not delivered" (s.setBlk h { blk with parents := ps }) []
      else
        match ps with
        | [] => .undefined
        | p :: _ =>
          match s.findBlk p with
          | none => .undefined
          | some pb =>
            let blk := { blk with parents := ps, height := (pb.height + 1) % u32 }
            let finish := fun (qcRef : Option BlockHash) =>
              Result.ok true
                ({ s with tails := (s.tails.filter (· ∉ ps)).insert h }.setBlk h
                  { blk with qcRef, delivered := true }) []
            match blk.qc with
            | none => finish blk.qcRef
            | some qc =>
              match s.findBlk qc.objHash with
              | none => .error "block referred by qc not fetched" (s.setBlk h blk) []
              | some _ => finish (some qc.objHash)

/-! ## 三連鎖の確定規則 -/

/-- `update_hqc(_hqc, qc)`。 -/
def updateHqc (s : HotStuffCore) (h : BlockHash) (qc : QuorumCert) : Result Unit :=
  match s.findBlk h, s.findBlk s.hqc.1 with
  | some b, some hb => if hb.height < b.height then .ok () { s with hqc := (h, qc) } [.resolveHqc]
      else .ok () s []
  | _, _ => .undefined

/-- `if (blk1->height > b_lock->height) b_lock = blk1;` -/
def lockStep (s : HotStuffCore) (h1 : BlockHash) (blk1 : Block) : Result Unit :=
  match s.findBlk s.bLock with
  | some bl => .ok () (if bl.height < blk1.height then { s with bLock := h1 } else s) []
  | none => .undefined

/-- `for (b = start; b->height > h; b = b->parents[0])` の止まったブロックと、通ったブロック
（`start` から順に）。`parents` が空のブロックを越えようとすると未定義動作（`none`）。 -/
def walkDown (st : EntityStorage) (h : Nat) : Nat → BlockHash → Option (BlockHash × List BlockHash)
  | 0, _ => none
  | fuel + 1, b =>
    match st.findBlk b with
    | none => none
    | some blk =>
      if h < blk.height then
        match blk.parents with
        | [] => none
        | p :: _ => (walkDown st h fuel p).map fun r => (r.1, b :: r.2)
      else some (b, [])

/-- 高さ `h` より上を `start` から下りる（燃料は `start` の高さ + 1）。 -/
def walkFrom (st : EntityStorage) (h : Nat) (start : BlockHash) :
    Option (BlockHash × List BlockHash) :=
  match st.findBlk start with
  | some b => walkDown st h (b.height + 1) start
  | none => none

/-- 確定したブロック一つ分の変更：`decision = 1`、各コマンドの `do_decide` と二つの集合からの
削除、`b_exec = blk`。 -/
def commitBlock (s : HotStuffCore) (bh : BlockHash) (blk : Block) (order : List CmdHash) :
    HotStuffCore × List Output :=
  let st := (s.storage.setBlk bh { blk with decision := true })
  let st := order.foldl (fun st c =>
    (st.removeLocalOrderSeenExecuteLevel c).removeFromProposedCmdsCache c) st
  ({ s with storage := st, bExec := bh },
    .doConsensus bh :: order.enum.map fun p =>
      .doDecide ⟨s.id, 1, p.1 % u32, blk.height, p.2, bh⟩)

/-- `commit_queue` を古い順に確定するループ。`fair_finalize` が空を返し、局所順序が空でなければ
そこで止まる（`break`）。 -/
def commitLoop (s : HotStuffCore) : List BlockHash → Result Unit
  | [] => .ok () s []
  | bh :: rest =>
    match s.findBlk bh with
    | none => .undefined
    | some blk =>
      match fairFinalize s.config.fairnessParameter blk.orders with
      | none => .undefined
      | some order =>
        if order = [] ∧ blk.orders ≠ [] then .ok () s []
        else
          let r := commitBlock s bh blk order
          (Result.ok () r.1 r.2).andThen fun _ s => commitLoop s rest

/-- 三連鎖がそろったときの確定：`b_exec` まで下りて、`b_exec` で止まらなければ
`safety breached` を投げる。 -/
def commit (s : HotStuffCore) (h0 : BlockHash) : Result Unit :=
  match s.findBlk s.bExec with
  | none => .undefined
  | some be =>
    match walkFrom s.storage be.height h0 with
    | none => .undefined
    | some (b, queue) =>
      if b ≠ s.bExec then .error "safety breached" s []
      else commitLoop s queue.reverse

/-- `update(nblk)`（三段の HotStuff）。 -/
def update (s : HotStuffCore) (nh : BlockHash) : Result Unit :=
  match s.findBlk nh with
  | none => .undefined
  | some nblk =>
    match nblk.orders with
    | [] => .undefined
    | (_, cmds) :: _ =>
      let s := { s with storage := cmds.foldl EntityStorage.removeLocalOrderSeenProposeLevel s.storage }
      match nblk.qcRef with
      | none => .ok () s []
      | some h2 =>
        match s.findBlk h2 with
        | none => .undefined
        | some blk2 =>
          if blk2.decision then .ok () s []
          else
            match nblk.qc with
            | none => .undefined
            | some qc =>
              (updateHqc s h2 qc).andThen fun _ s =>
              match blk2.qcRef with
              | none => .ok () s []
              | some h1 =>
                match s.findBlk h1 with
                | none => .undefined
                | some blk1 =>
                  if blk1.decision then .ok () s []
                  else
                    (lockStep s h1 blk1).andThen fun _ s =>
                    match blk1.qcRef with
                    | none => .ok () s []
                    | some h0 =>
                      match s.findBlk h0 with
                      | none => .undefined
                      | some blk =>
                        if blk.decision then .ok () s []
                        else
                          match blk2.parents with
                          | [] => .undefined
                          | p2 :: _ =>
                            if p2 ≠ h1 then .ok () s []
                            else
                              match blk1.parents with
                              | [] => .undefined
                              | p1 :: _ => if p1 ≠ h0 then .ok () s [] else commit s h0

/-! ## 提案と投票 -/

/-- `on_qc_finish(blk)`：待っている約束があれば解決して消す。 -/
def onQcFinish (s : HotStuffCore) (h : BlockHash) : HotStuffCore × List Output :=
  if h ∈ s.qcWaiting then ({ s with qcWaiting := s.qcWaiting.erase h }, [.resolveQc h])
  else (s, [])

/-- 投票するかどうか（`opinion`）。`qc_ref` が `b_lock` より高ければ投票し（活性の条件）、
そうでなければ `b_lock` の高さまで下りて `b_lock` に着くときに投票する（安全の条件）。 -/
def opinion (s : HotStuffCore) (bh : BlockHash) (bnew : Block) : Option Bool :=
  if s.vheight < bnew.height then
    match s.findBlk s.bLock with
    | none => none
    | some bl =>
      let live := match bnew.qcRef with
        | some q => match s.findBlk q with
          | some qb => decide (bl.height < qb.height)
          | none => false
        | none => false
      if live then some true
      else (walkFrom s.storage bl.height bh).map fun r => r.1 = s.bLock
  else some false

/-- `on_receive_proposal` の判断の後（ソースの 497–509 行）：投票するなら `vheight` を上げ、
自分の提案でなければ `qc_ref` の約束を解決し、`vote_disabled` でなければ投票する。 -/
def finishProposal (s : HotStuffCore) (prop : Proposal) (bnew : Block) (op : Bool) :
    Result Unit :=
  let s := if op then { s with vheight := bnew.height } else s
  let r := match bnew.qcRef with
    | some q => if prop.proposer = s.id then (s, []) else onQcFinish s q
    | none => (s, [])
  .ok () r.1 (r.2 ++ .resolveReceiveProposal prop ::
    if op ∧ !r.1.voteDisabled then [.doVote prop.proposer ⟨r.1.id, prop.blk⟩] else [])

/-- `on_receive_proposal(prop)`。 -/
def onReceiveProposal (s : HotStuffCore) (prop : Proposal) : Result Unit :=
  let pre : Result Unit :=
    if prop.proposer = s.id then .ok () s []
    else if s.isDelivered prop.blk then update s prop.blk
    else .error "block not delivered" s []
  pre.andThen fun _ s =>
  match s.findBlk prop.blk with
  | none => .undefined
  | some bnew =>
    match opinion s prop.blk bnew with
    | none => .undefined
    | some op => finishProposal s prop bnew op

/-- `on_propose` が作る新しいブロック。 -/
def proposedBlock (s : HotStuffCore) (orders : List (ReplicaID × List CmdHash))
    (parents : List BlockHash) (parentHeight : Nat) : Block :=
  { parentHashes := parents, parents, qc := some s.hqc.2, qcRef := some s.hqc.1, selfQc := none,
    orders, height := (parentHeight + 1) % u32, voted := [], delivered := false,
    decision := false }

/-- `on_propose` の前半（ソースの 380–413 行）：`tails` から親を除き、新しいブロックを
`add_blk` で表に入れ（同じハッシュがあればそれを使う）、`self_qc` を作る。 -/
def createBlock (s : HotStuffCore) (orders : List (ReplicaID × List CmdHash))
    (parents : List BlockHash) (p0 h : BlockHash) : Option HotStuffCore :=
  let s := { s with tails := s.tails.filter (· ∉ parents) }
  match s.findBlk p0 with
  | none => none
  | some pb =>
    let s := { s with storage := s.storage.addBlk h (proposedBlock s orders parents pb.height) }
    match s.findBlk h with
    | none => none
    | some b => some (s.setBlk h { b with selfQc := some (createQuorumCert h) })

/-- `on_propose(orders, parents, extra)`。新しいブロックのハッシュ `h`（ソースでは内容から
計算する）を引数に取る。 -/
def onPropose (s : HotStuffCore) (orders : List (ReplicaID × List CmdHash))
    (parents : List BlockHash) (h : BlockHash) : Result BlockHash :=
  match parents with
  | [] => .error "empty parents" s []
  | p0 :: _ =>
    match createBlock s orders parents p0 h with
    | none => .undefined
    | some s =>
      (onDeliverBlk s h).andThen fun _ s =>
      (update s h).andThen fun _ s =>
      match s.findBlk h with
      | none => .undefined
      | some bnew =>
        if bnew.height ≤ s.vheight then .error "new block should be higher than vheight" s []
        else
          (onReceiveProposal s ⟨s.id, h⟩).andThen fun _ s =>
          .ok h s [.resolvePropose ⟨s.id, h⟩, .doBroadcastProposal ⟨s.id, h⟩]

/-- 票を記録する：`voted` に加え、`self_qc` が無ければ作って部分証明を加える。 -/
def recordVote (s : HotStuffCore) (vote : Vote) (blk : Block) : HotStuffCore :=
  s.setBlk vote.blkHash { blk with
    voted := blk.voted ++ [vote.voter],
    selfQc := some ((blk.selfQc.getD (createQuorumCert vote.blkHash)).addPart vote.voter) }

/-- `on_receive_vote(vote)`。 -/
def onReceiveVote (s : HotStuffCore) (vote : Vote) : Result Unit :=
  match s.getDeliveredBlk vote.blkHash with
  | none => .error "block not delivered" s []
  | some blk =>
    if s.config.nmajority ≤ blk.voted.length then .ok () s []
    else if vote.voter ∈ blk.voted then .ok () s []
    else
      let s := recordVote s vote blk
      if blk.voted.length + 1 = s.config.nmajority then
        let qc := (blk.selfQc.getD (createQuorumCert vote.blkHash)).addPart vote.voter
        (Result.ok () s [.qcCompute vote.blkHash]).andThen fun _ s =>
        (updateHqc s vote.blkHash qc).andThen fun _ s =>
        let r := onQcFinish s vote.blkHash
        .ok () r.1 r.2
      else .ok () s []

/-- `async_qc_finish(blk)`：すでに `nmajority` 票あれば解決済みの約束（`true`）、なければ
`qc_waiting` に登録した約束（`false`）。 -/
def asyncQcFinish (s : HotStuffCore) (h : BlockHash) : Result Bool :=
  match s.findBlk h with
  | none => .undefined
  | some b =>
    if s.config.nmajority ≤ b.voted.length then .ok true s []
    else .ok false { s with qcWaiting := s.qcWaiting.insert h } []

/-! ## 局所順序 -/

/-- `on_local_order(proposer, order, is_reorder)`。`is_reorder` の分岐は中身がコメントアウト
されていて何もしない。 -/
def onLocalOrder (s : HotStuffCore) (proposer : ReplicaID) (order : List CmdHash) : Result Unit :=
  let s := { s with storage := s.storage.updateLocalOrderSeen order }
  if order = [] then .ok () s []
  else .ok () s [.doSendLocalOrder proposer ⟨s.id, order⟩]

/-- `on_receive_local_order` の中で、一つのレプリカの先頭の列から提案済みのコマンドを除く。 -/
def frontFilter (st : EntityStorage) (r : ReplicaID) : EntityStorage :=
  let front := st.getOrderedHashVector r
  let unproposed := front.filter fun c => !st.isCmdProposed c
  if unproposed.length < front.length then
    let st := st.clearFrontOrderedHash r
    if unproposed ≠ [] then st.addOrderedHashToFront r unproposed else st
  else st

/-- `on_receive_local_order(local_order, parents)`。`parents` は読まれない。 -/
def onReceiveLocalOrder (s : HotStuffCore) (lo : LocalOrder) : Result Bool :=
  let st := s.storage.addLocalOrder lo.initiator lo.orderedHashes
  if s.config.nmajority ≤ st.getLocalOrderCacheSize then
    let st := st.getOrderedHashRepliaVector.foldl frontFilter st
    .ok (s.config.nmajority ≤ st.getLocalOrderCacheSize) { s with storage := st } []
  else .ok false { s with storage := st } []

/-! ## 刈り込み -/

/-- Modelled from the spec: `try_release_blk(blk)`。どこからも参照されていなければ表から除く
（仕様書 §4.2 の release-if-unreferenced）。参照は、核の欄、`tails`、`qc_waiting`、スタックの
残り、表の他のブロックの `parents` と `qc_ref`。 -/
def tryReleaseBlk (s : HotStuffCore) (h : BlockHash) (stack : List BlockHash) : HotStuffCore :=
  let referenced :=
    h = s.b0 ∨ h = s.hqc.1 ∨ h = s.bLock ∨ h = s.bExec ∨ h ∈ s.tails ∨ h ∈ s.qcWaiting ∨
      h ∈ stack ∨ s.storage.blkCache.any fun p => p.1 ≠ h ∧ (h ∈ p.2.parents ∨ p.2.qcRef = some h)
  if referenced then s
  else { s with storage := { s.storage with blkCache := s.storage.blkCache.filter (·.1 ≠ h) } }

/-- `for (start = b_exec; staleness; staleness--, start = start->parents[0])`：`parents` が空の
ブロックに来たら `return`（`some none`）。 -/
def pruneSkip (st : EntityStorage) : Nat → BlockHash → Option (Option BlockHash)
  | 0, b => some (some b)
  | n + 1, b =>
    match st.findBlk b with
    | none => none
    | some blk =>
      match blk.parents with
      | [] => some none
      | p :: _ => pruneSkip st n p

/-- 表の `parents` の長さの和。 -/
def parentLinks (st : EntityStorage) : Nat := (st.blkCache.map fun p => p.2.parents.length).sum

/-- `while (!s.empty())` のループ。スタックの先頭がリストの先頭。 -/
def pruneLoop (s : HotStuffCore) : Nat → List BlockHash → Option HotStuffCore
  | _, [] => some s
  | 0, _ :: _ => none
  | fuel + 1, top :: rest =>
    match s.findBlk top with
    | none => none
    | some blk =>
      match blk.parents.getLast? with
      | none => pruneLoop (tryReleaseBlk s top rest) fuel rest
      | some p =>
        pruneLoop (s.setBlk top { blk with qcRef := none, parents := blk.parents.dropLast }) fuel
          (p :: top :: rest)

/-- `prune(staleness)`。ループの燃料は `2 × (parents の長さの和) + 1`：一回りごとにスタックが
一つ減るか、`parents` が一つ減ってスタックが一つ増える。 -/
def prune (s : HotStuffCore) (staleness : Nat) : Result Unit :=
  match pruneSkip s.storage staleness s.bExec with
  | none => .undefined
  | some none => .ok () s []
  | some (some start) =>
    match s.findBlk start with
    | none => .undefined
    | some sb =>
      let s := s.setBlk start { sb with qcRef := none }
      match pruneLoop s (2 * parentLinks s.storage + 1) [start] with
      | none => .undefined
      | some s => .ok () s []

end Alkane.Core
