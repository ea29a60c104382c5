import Alkane.Core.Lemmas.Prune

/-!
# 高さの連鎖

どの実行でも表は健全（`Run.wf`）。とくに配送済みのブロックの `parents[0]` は表にあって配送済みで、
高さはその高さ + 1 を `2^32` で割った余り（`on_deliver_blk` の `uint32_t` の足し算）。
折り返しが実際に起こることは `Wrap` で示す。
-/

namespace Alkane.Core

open EntityStorage HotStuffCore

theorem Wf.init (b0 : BlockHash) (id : ReplicaID) (replicas : List ReplicaID) (nfaulty : Nat)
    (γ : Float) : Wf (HotStuffCore.init b0 id replicas nfaulty γ) := by
  have hg : (HotStuffCore.init b0 id replicas nfaulty γ).findBlk b0 = some (Block.genesis b0 replicas) := by
    simp [HotStuffCore.init, HotStuffCore.findBlk, EntityStorage.findBlk]
  have hb0 : ((HotStuffCore.init b0 id replicas nfaulty γ).findBlk b0).isSome := by rw [hg]; rfl
  refine ⟨fun h b hb => ?_, hb0, rfl, hb0, ⟨_, hg, rfl⟩⟩
  have e : h = b0 ∧ b = Block.genesis b0 replicas := by
    simp only [HotStuffCore.init, findBlk_mk, EntityStorage.findBlk, lookupBlk_cons, lookupBlk_nil] at hb
    split_ifs at hb with e
    exact ⟨e.symm, (Option.some.inj hb).symm⟩
  obtain ⟨rfl, rfl⟩ := e
  refine ⟨⟨by simp [Block.genesis, u32], by simp [Block.genesis], fun r hr => ?_, fun r hr => ?_,
    fun q hq => ?_⟩, by simp [Block.genesis]⟩
  · cases hr; exact hb0
  · cases hr; exact ⟨_, rfl, rfl⟩
  · cases hq; rfl

theorem chainable_true :
    Chainable fun (_ : HotStuffCore) (_ : List Output) (_ : HotStuffCore) => True :=
  ⟨fun _ => trivial, fun _ _ => trivial⟩

theorem Wf.voteLeaves : VoteLeaves Wf fun _ _ _ => True where
  record _ _ _ hb _ _ hw := ⟨hw.recordVote hb, trivial⟩
  voteHqc _ h qc hb hw _ hs := by
    obtain ⟨b, hb, hq⟩ := hb
    exact ⟨hw.updateHqc ((hw.blocks h b hb).selfQcObj qc hq) hs, trivial⟩
  qcFinish _ h hw := ⟨hw.qcFinish h, trivial⟩

theorem Wf.leaves (allowed : HotStuffCore → Op → Prop) :
    Leaves allowed Wf fun _ _ _ => True where
  storage _ _ hst hw := ⟨hw.storage hst, trivial⟩
  updateHqc s nh nblk h qc hn hr hq hw _ hs := by
    obtain ⟨q, hq', hobj⟩ := (hw.blocks nh nblk hn).qcRefObj h hr
    rw [hq] at hq'; cases hq'
    exact ⟨hw.updateHqc hobj hs, trivial⟩
  lockStep _ _ _ hb hw _ hs := ⟨hw.lockStep hb hs, trivial⟩
  commit _ _ _ _ hb _ hp _ hw _ hs := ⟨hw.commit hb hp hs, trivial⟩
  fetch _ h ps qc orders ht hw := ⟨hw.fetch h ps qc orders ht, trivial⟩
  deliver _ _ hw _ hs := ⟨hw.deliver hs, trivial⟩
  create _ _ _ _ _ _ _ _ _ hc hw _ hs := ⟨hw.create hc hs, trivial⟩
  finish _ _ _ _ _ _ hw _ hs := ⟨hw.finishProposal hs, trivial⟩
  vote := onReceiveVote_keeps chainable_true Wf.voteLeaves fun _ _ _ _ => trivial
  quiet _ _ _ _ := trivial
  prune _ _ _ hw _ hs := ⟨hw.prune hs, trivial⟩
  async _ _ hw _ hs := ⟨hw.asyncQcFinish hs, trivial⟩
  disable _ f hw := ⟨hw.setVoteDisabled f, trivial⟩

theorem Run.wf {allowed : HotStuffCore → Op → Prop} {s : HotStuffCore} {out : List Output}
    (hr : Run allowed s out) : Wf s :=
  (@Run.invariant allowed Wf _ (fun _ _ => True) chainable_true (Wf.leaves allowed)
    (fun b0 id replicas nfaulty γ => ⟨Wf.init b0 id replicas nfaulty γ, trivial⟩)
    (fun _ _ _ _ _ _ _ _ => trivial) s out hr).1

/-- 到達できる状態で配送済みのブロックの `parents[0]` は表にあって配送済みで、高さは
`parents[0]` の高さ + 1 を `2^32` で割った余り。 -/
theorem delivered_height_mod {s : HotStuffCore} (hs : Reachable anyOp s) {h p : BlockHash}
    {b : Block} (hb : s.findBlk h = some b) (hd : b.delivered = true) (hp : b.parents.head? = some p) :
    ∃ pb, s.findBlk p = some pb ∧ pb.delivered = true ∧ b.height = (pb.height + 1) % u32 ∧
      b.height < u32 := by
  obtain ⟨_, hr⟩ := hs
  have hw := hr.wf
  obtain ⟨pb, hpb, hh⟩ := (hw.blocks h b hb).heightLink hd p hp
  obtain ⟨pb', hpb', hpd⟩ := (hw.blocks h b hb).parentsDelivered p (List.mem_of_mem_head? hp)
  rw [hpb] at hpb'; cases hpb'
  exact ⟨pb, hpb, hpd, hh, (hw.blocks h b hb).heightLt⟩

/-- ブロックを一つ受け取って配送する実行。 -/
def oneBlockRun : List Op := [.fetch 1 [0] (some ⟨0, []⟩) [(0, [1])] 2, .deliver 1]

/-- その実行の後の状態。 -/
def oneBlockState : HotStuffCore :=
  (runOps (HotStuffCore.init 0 0 [0, 1, 2, 3] 1 0.5) oneBlockRun).getD
    (HotStuffCore.init 0 0 [0, 1, 2, 3] 1 0.5)

theorem delivered_height_mod_oneBlock :
    ∃ pb, oneBlockState.findBlk 0 = some pb ∧ pb.delivered = true ∧
      (2 : Nat) = (pb.height + 1) % u32 ∧ (2 : Nat) < u32 :=
  @delivered_height_mod oneBlockState (reachable_of_runOps_getD oneBlockRun (by decide)) 1 0
    ⟨[0], [0], some ⟨0, []⟩, some 0, none, [(0, [1])], 2, [], true, false⟩ (by decide) rfl rfl

/-- 提案者 `3` の鎖 `1, 2, 3, 4` を、それぞれ前のブロックへの QC をつけて取得し、配送し、提案として
受け取る。`4` の提案で三つ組 `1, 2, 3` がそろい、`1` が確定する。 -/
def commitRun : List Op :=
  [.fetch 1 [0] (some ⟨0, []⟩) [(3, [101])] 2, .deliver 1, .receiveProposal ⟨3, 1⟩,
    .fetch 2 [1] (some ⟨1, [0, 1, 3]⟩) [(3, [102])] 3, .deliver 2, .receiveProposal ⟨3, 2⟩,
    .fetch 3 [2] (some ⟨2, [0, 1, 3]⟩) [(3, [103])] 4, .deliver 3, .receiveProposal ⟨3, 3⟩,
    .fetch 4 [3] (some ⟨3, [0, 1, 3]⟩) [(3, [104])] 5, .deliver 4, .receiveProposal ⟨3, 4⟩]

/-- その実行の後の状態と出力。 -/
def commitState : HotStuffCore × List Output :=
  (runOpsOut (HotStuffCore.init 0 0 [0, 1, 2, 3] 1 0.5) commitRun).getD (HotStuffCore.init 0 0 [0, 1, 2, 3] 1 0.5, [])

end Alkane.Core
