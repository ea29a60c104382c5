import Alkane.Core.Fair.Majority
import Alkane.Core.Lemmas.Ops

/-!
# 誠実なリーダーの実行

リーダーには局所順序と票が届き、リーダーは過半数のレプリカが局所順序を寄せたときに
`fair_propose()` を呼んで、返った `orders` で `on_propose` する（仕様書 §2 のデータの流れ）。この駆動は
ソースにないので仕様書から写し、`HotStuffCore` の操作の列に翻訳して `Run` につなぐ。

`update` は確定したコマンドを `proposed_cmds` から除くので、確定の後に届いた局所順序のコマンドは
`on_receive_local_order` の掃除を通り抜け、もう一度提案されて、もう一度 `do_decide` に渡る。
-/

namespace Alkane.Core

open HotStuffCore

/-! ## リーダーの出来事 -/

/-- Modelled from the spec: リーダーに届く出来事と、リーダー自身の提案。 -/
inductive LeaderEvent where
  /-- 局所順序が届く。 -/
  | localOrder (lo : LocalOrder)
  /-- 票が届く。 -/
  | vote (v : Vote)
  /-- `fair_propose()` を呼び、返った `orders` で `on_propose(orders, parents)`。 -/
  | propose (parents : List BlockHash) (h : BlockHash)
  deriving DecidableEq, Repr

namespace LeaderEvent

/-- Modelled from the spec: 出来事が呼ぶ `HotStuffCore` の操作。 -/
def ops (s : HotStuffCore) : LeaderEvent → List Op
  | localOrder lo => [.receiveLocalOrder lo]
  | vote v => [.receiveVote v]
  | propose ps h => [.fairPropose, .propose (fairPropose s.storage).1 ps h]

/-- Modelled from the spec: 提案するのは、過半数のレプリカが局所順序を寄せているときだけ。 -/
def ready (s : HotStuffCore) : LeaderEvent → Bool
  | propose _ _ => s.config.nmajority ≤ s.storage.getLocalOrderCacheSize
  | _ => true

end LeaderEvent

/-- Modelled from the spec: 出来事を順に処理した後のリーダーの状態と出力。提案の条件を満たさない
出来事か、未定義動作で止まる。 -/
def leaderRun (s : HotStuffCore) : List LeaderEvent → Option (HotStuffCore × List Output)
  | [] => some (s, [])
  | e :: es =>
    if e.ready s then
      (runOpsOut s (e.ops s)).bind fun p => (leaderRun p.1 es).map fun q => (q.1, p.2 ++ q.2)
    else none

theorem leaderRun_run : ∀ (es : List LeaderEvent) {s s' : HotStuffCore} {out out' : List Output},
    Run anyOp s out → leaderRun s es = some (s', out') → Run anyOp s' (out ++ out')
  | [], _, _, _, _, hr, h => by cases h; simpa using hr
  | e :: es, s, s', out, out', hr, h => by
    unfold leaderRun at h
    split at h
    · obtain ⟨⟨s₁, o₁⟩, h₁, h'⟩ := Option.bind_eq_some.mp h
      obtain ⟨⟨_, o₂⟩, h₂, he⟩ := Option.map_eq_some'.mp h'
      cases he
      simpa using leaderRun_run es (Run.runOpsOut _ (allowedAlong_anyOp _ _) hr h₁) h₂
    · cases h

theorem leaderRun_append (s : HotStuffCore) (es es' : List LeaderEvent) :
    leaderRun s (es ++ es') =
      (leaderRun s es).bind fun p => (leaderRun p.1 es').map fun q => (q.1, p.2 ++ q.2) := by
  induction es generalizing s with
  | nil => simp [leaderRun]
  | cons e es ih =>
    rw [List.cons_append, leaderRun.eq_2, leaderRun.eq_2]
    split
    · cases runOpsOut s (e.ops s) with
      | none => rfl
      | some p =>
        simp only [Option.some_bind, ih]
        cases leaderRun p.1 es with
        | none => rfl
        | some q => simp [Option.map_map, Function.comp_def]
    · rfl

/-- `do_decide` に渡した確定の列。 -/
def decisions (out : List Output) : List Finality :=
  out.filterMap fun
    | .doDecide f => some f
    | _ => none

@[simp] theorem decisions_append (o₁ o₂ : List Output) :
    decisions (o₁ ++ o₂) = decisions o₁ ++ decisions o₂ :=
  List.filterMap_append _ _ _

/-! ## 遅れて届いた局所順序 -/

/-- レプリカ `0, 1, 2` がコマンド `c` だけの局所順序を送り、リーダー `0` がそれを `parents = [p]` の
ブロック `h` として提案し、三つのレプリカが投票する一巡。 -/
def orderRound (p h c : Nat) : List LeaderEvent :=
  [.localOrder ⟨0, [c]⟩, .localOrder ⟨1, [c]⟩, .localOrder ⟨2, [c]⟩, .propose [p] h,
    .vote ⟨0, h⟩, .vote ⟨1, h⟩, .vote ⟨2, h⟩]

/-- レプリカ `{0, 1, 2, 3}`、`nfaulty = 1` のリーダー `0` の実行の、最後の提案の前まで。ブロック
`1` から `4` でコマンド `10` から `13` を提案し、`4` の提案でブロック `1` が確定する。その後に
レプリカ `3` の `10` の局所順序が届き、`0` と `1` の `14` とともにブロック `5` で提案される。
続いてブロック `6`、`7` を提案し、`8` のための局所順序がそろう。 -/
def lateOrderPrefix : List LeaderEvent :=
  orderRound 0 1 10 ++ orderRound 1 2 11 ++ orderRound 2 3 12 ++ orderRound 3 4 13 ++
    [.localOrder ⟨3, [10]⟩, .localOrder ⟨0, [14]⟩, .localOrder ⟨1, [14]⟩, .propose [4] 5,
      .vote ⟨0, 5⟩, .vote ⟨1, 5⟩, .vote ⟨2, 5⟩] ++
    orderRound 5 6 15 ++ orderRound 6 7 16 ++
    [.localOrder ⟨0, [17]⟩, .localOrder ⟨1, [17]⟩, .localOrder ⟨2, [17]⟩]

/-- 最後の提案の前の状態。 -/
def lateOrderState : HotStuffCore :=
  ((leaderRun (HotStuffCore.init 0 0 [0, 1, 2, 3] 1 0.5) lateOrderPrefix).map Prod.fst).getD
    (HotStuffCore.init 0 0 [0, 1, 2, 3] 1 0.5)

theorem leaderRun_lateOrderState_propose :
    ∃ s out, leaderRun lateOrderState [.propose [7] 8] = some (s, out) ∧
      (decisions out).map (fun f => (f.cmdHash, f.blkHash)) = [(14, 5), (10, 5)] := by
  set sQ : HotStuffCore := { lateOrderState with storage := (fairPropose lateOrderState.storage).2 }
  set o8 := (fairPropose lateOrderState.storage).1
  -- 新しいブロックを作って配送する
  set s₁ := (createBlock sQ o8 [7] 7 8).getD sQ
  have hc : createBlock sQ o8 [7] 7 8 = some s₁ :=
    (Option.getD_of_ne_none (Option.isSome_iff_ne_none.mp (by decide)) sQ).symm
  set s₂ := (onDeliverBlk s₁ 8).state?.getD sQ
  have hd : onDeliverBlk s₁ 8 = .ok true s₂ (onDeliverBlk s₁ 8).outputs := Result.eq_ok_of_value? (by decide) sQ
  -- `update(8)`：三連鎖 `5, 6, 7` がそろい、`b_lock` は `5` から `6` へ
  set B8 : Block :=
    ⟨[7], [7], some ⟨7, [0, 1, 2]⟩, some 7, some ⟨8, []⟩, [(0, [17]), (1, [17]), (2, [17])], 9, [], true, false⟩
  set B7 : Block := ⟨[6], [6], some ⟨6, [0, 1, 2]⟩, some 6, some ⟨7, [0, 1, 2]⟩, [(0, [16]), (1, [16]), (2, [16])],
    8, [0, 1, 2], true, false⟩
  set B6 : Block := ⟨[5], [5], some ⟨5, [0, 1, 2]⟩, some 5, some ⟨6, [0, 1, 2]⟩, [(0, [15]), (1, [15]), (2, [15])],
    7, [0, 1, 2], true, false⟩
  set B5 : Block := ⟨[4], [4], some ⟨4, [0, 1, 2]⟩, some 4, some ⟨5, [0, 1, 2]⟩,
    [(3, [10, 14]), (0, [14, 10]), (1, [14, 10])], 6, [0, 1, 2], true, false⟩
  obtain ⟨hb8, hb7, hb6, hb5, hq7, hl5⟩ : s₂.findBlk 8 = some B8 ∧ s₂.findBlk 7 = some B7 ∧
      s₂.findBlk 6 = some B6 ∧ s₂.findBlk 5 = some B5 ∧ s₂.hqc.1 = 7 ∧ s₂.bLock = 5 := by decide
  have hu₁ := update_eq_commit_of_lt hb8 rfl rfl rfl hb7 rfl rfl hb6 rfl rfl hb5 rfl rfl rfl (hq7 ▸ hb7) le_rfl
    (hl5 ▸ hb5) (by decide)
  set s₂c : HotStuffCore :=
    { s₂ with storage := [17].foldl EntityStorage.removeLocalOrderSeenProposeLevel s₂.storage, bLock := 6 }
  -- `b_exec`（ブロック `4`）まで下りる道はブロック `5` だけ
  have hcm := @commit_of_walk s₂c 5 _ [5]
    (by decide : s₂c.findBlk s₂c.bExec = some
      ⟨[3], [3], some ⟨3, [0, 1, 2]⟩, some 3, some ⟨4, [0, 1, 2]⟩, [(0, [13]), (1, [13]), (2, [13])], 5, [0, 1, 2],
        true, true⟩) (by decide)
  -- ブロック `5` の二つのコマンドは多数決で `14, 10` の順
  have hff : fairFinalize s₂c.config.fairnessParameter B5.orders = some [14, 10] :=
    (@fairFinalize_eq_insertionSort _ [10, 14] (by decide) (by decide) (by decide) (by decide) (by decide) _).trans
      (by decide)
  rw [List.reverse_singleton, @commitLoop_singleton s₂c 5 B5 _
    ((EntityStorage.findBlk_removeSeen [17] s₂.storage 5).trans hb5) hff (by decide)] at hcm
  -- 自分の提案を受け取って投票する
  have hp := onPropose_eq_ok hc hd (hu₁.trans hcm)
    (by
      rw [commitBlock_findBlk, if_neg (by decide)]
      exact (EntityStorage.findBlk_removeSeen [17] s₂.storage 8).trans hb8)
    (by decide) (Result.eq_ok_of_value? (by decide) sQ)
  rw [leaderRun, if_pos (by decide), LeaderEvent.ops, @runOpsOut_cons lateOrderState sQ .fairPropose _ trivial rfl,
    @runOpsOut_cons sQ _ (.propose o8 [7] 8) [] (by decide) (by rw [exec, hp]; rfl)]
  rw [show (exec sQ (.propose o8 [7] 8)).outputs = (onPropose sQ o8 [7] 8).outputs from Result.outputs_discard _, hp]
  exact ⟨_, _, rfl, by decide⟩

/-- 誠実なリーダーの実行で、確定したブロック `1` のコマンド `10` の局所順序がレプリカ `3` から遅れて
届くと、`10` はもう `proposed_cmds` に無いので掃除を通り抜け、ブロック `5` で再び提案される。ブロック
`5` が確定すると、リーダーは `10` を二度目に `do_decide` に渡す。 -/
theorem late_local_order_decided_twice :
    ∃ s out, leaderRun (HotStuffCore.init 0 0 [0, 1, 2, 3] 1 0.5) (lateOrderPrefix ++ [.propose [7] 8]) =
        some (s, out) ∧ Run anyOp s out ∧
      (decisions out).map (fun f => (f.cmdHash, f.blkHash)) =
        [(10, 1), (11, 2), (12, 3), (13, 4), (14, 5), (10, 5)] := by
  obtain ⟨⟨sP, oP⟩, hpre, hdP⟩ := Option.map_eq_some'.mp
    (show (leaderRun (HotStuffCore.init 0 0 [0, 1, 2, 3] 1 0.5) lateOrderPrefix).map
        (fun p => (decisions p.2).map fun f => (f.cmdHash, f.blkHash)) =
          some [(10, 1), (11, 2), (12, 3), (13, 4)] by decide)
  obtain rfl : sP = lateOrderState := by rw [lateOrderState, hpre]; rfl
  obtain ⟨s, out, hlast, hdL⟩ := leaderRun_lateOrderState_propose
  have hrun : leaderRun (HotStuffCore.init 0 0 [0, 1, 2, 3] 1 0.5) (lateOrderPrefix ++ [.propose [7] 8]) =
      some (s, oP ++ out) := by
    rw [leaderRun_append, hpre, Option.some_bind, hlast, Option.map_some']
  refine ⟨s, oP ++ out, hrun, by simpa using leaderRun_run _ (.init 0 0 [0, 1, 2, 3] 1 0.5) hrun, ?_⟩
  rw [decisions_append, List.map_append, hdP, hdL]
  rfl

end Alkane.Core
