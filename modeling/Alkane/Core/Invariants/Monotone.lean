import Alkane.Core.Lemmas.Steady

/-!
# 下がらない高さ

どの出来事でも、`vheight` と `b_exec` の高さは下がらない（`Rises`）。`vheight` を書くのは投票の
判断だけで、`vheight` より高いブロックの高さにしか上げない。`b_exec` を動かすのは確定だけで、
`b_exec` から高さが一つずつ増える道を上る。`prune` は高さを変えず、`b_exec` を放さない。

`hqc.first` と `b_lock` の高さは下がりうる：取得しただけで配送していないブロックが（配送済みの
ブロックの `qc_ref` として）`hqc` と `b_lock` になると、配送で送り手の書いた高さが書き換わる
（`hqc_lock_height_drop`）。`b_exec` の高さが `b_lock` の高さ以下であることは、高さが `2^32` で
折り返すと成り立たない（`Wrap` の `exec_above_lock_after_wrap`）。
-/

namespace Alkane.Core

open EntityStorage HotStuffCore

/-- 出来事一つの前後で `vheight` と `b_exec` の高さが下がらない。 -/
def Rises (s : HotStuffCore) (_ : List Output) (s' : HotStuffCore) : Prop :=
  s.vheight ≤ s'.vheight ∧
    ∀ be, s.findBlk s.bExec = some be → ∃ be', s'.findBlk s'.bExec = some be' ∧ be.height ≤ be'.height

theorem Rises.chainable : Chainable Rises where
  refl _ := ⟨le_rfl, fun be h => ⟨be, h, le_rfl⟩⟩
  trans := fun ⟨hv₁, he₁⟩ ⟨hv₂, he₂⟩ => ⟨hv₁.trans hv₂, fun be h => by
    obtain ⟨be', h', hle'⟩ := he₁ be h
    obtain ⟨be'', h'', hle''⟩ := he₂ be' h'
    exact ⟨be'', h'', hle'.trans hle''⟩⟩

section Leaves

variable {s s' : HotStuffCore}

theorem Rises.steady (hw : Wf s) (h : Steady s s') : Rises s [] s' := by
  refine ⟨h.vheight, fun be hbe => ?_⟩
  obtain ⟨b, hb, hd⟩ := hw.bExecDelivered
  rw [hbe] at hb
  cases hb
  obtain ⟨be', hbe', -, h'⟩ := h.kept _ be hbe
  exact ⟨be', h.bExec ▸ hbe', (h' hd).2.1.ge⟩

theorem Rises.commit (hw : Wf s) {h1 h0 : BlockHash} {blk1 : Block} (hb1 : s.findBlk h1 = some blk1)
    (hp : blk1.parents.head? = some h0) (hs : (commit s h0).state? = some s') :
    Rises s (commit s h0).outputs s' := by
  obtain ⟨l, ha, -, hf, hk⟩ := commit_effect hw hb1 hp hs
  have hv := congrArg HotStuffCore.vheight hf
  refine ⟨hv.ge, fun be hbe => ?_⟩
  obtain ⟨be', hbe', -⟩ := (hw.commit hb1 hp hs).bExecDelivered
  have hx : s'.findBlk s.bExec = some (if s.bExec ∈ l then { be with decision := true } else be) := by
    rw [hk, hbe]; rfl
  have hh : be'.height = be.height + l.length := by
    have := ha.height_eq hx hbe'
    split_ifs at this <;> exact this
  exact ⟨be', hbe', by omega⟩

theorem Rises.prune (hw : Wf s) {n : Nat} (hs : (prune s n).state? = some s') : Rises s [] s' := by
  have hp := Shrinks.prune hs
  have hv := congrArg HotStuffCore.vheight hp.1
  have he := congrArg HotStuffCore.bExec hp.1
  obtain ⟨be', hbe', -⟩ := (hw.prune hs).bExecDelivered
  refine ⟨hv.ge, fun be hbe => ?_⟩
  obtain ⟨b, hb, hh⟩ := hp.2 _ _ hbe'
  rw [show s'.bExec = s.bExec from he, hbe] at hb
  cases hb
  exact ⟨be', hbe', hh.ge⟩

end Leaves

theorem Rises.leaves : Leaves anyOp Wf Rises :=
  Leaves.of_steady Rises.chainable (fun _ h => h) (fun _ _ _ hw hw' h _ => ⟨hw', (Rises.steady hw h).1, (Rises.steady hw h).2⟩)
    (fun _ _ _ _ hb hp hw _ hs => ⟨hw.commit hb hp hs, Rises.commit hw hb hp hs⟩)
    (fun _ _ _ hw _ hs => ⟨hw.prune hs, Rises.prune hw hs⟩)

/-- 到達できる状態からのどの出来事でも、`vheight` と `b_exec` の高さは下がらない。 -/
theorem vheight_exec_height_mono {s : HotStuffCore} (hs : Reachable anyOp s) {op : Op} {s' : HotStuffCore}
    (hc : op.ContentAddressed s) (he : (exec s op).state? = some s') :
    s.vheight ≤ s'.vheight ∧
      ∀ be, s.findBlk s.bExec = some be → ∃ be', s'.findBlk s'.bExec = some be' ∧ be.height ≤ be'.height := by
  obtain ⟨_, hr⟩ := hs
  exact (exec_keeps Rises.chainable Rises.leaves trivial hc hr.wf s' he).2

/-- 提案者 `3` の鎖の実行で、最後の提案を受け取る前の状態。 -/
def commitPreState : HotStuffCore :=
  (runOps (HotStuffCore.init 0 0 [0, 1, 2, 3] 1 0.5) commitRun.dropLast).getD (HotStuffCore.init 0 0 [0, 1, 2, 3] 1 0.5)

/-- 最後の提案 `4` を受け取る一歩は、`4` に投票して `vheight` を `4` から `5` に上げ、`1` を確定して
`b_exec` を `b0` から `1` に移す。 -/
theorem vheight_exec_height_mono_commit :
    ∃ s', (exec commitPreState (.receiveProposal ⟨3, 4⟩)).state? = some s' ∧
      commitPreState.vheight = 4 ∧ s'.vheight = 5 ∧ commitPreState.bExec = 0 ∧ s'.bExec = 1 ∧
      commitPreState.vheight ≤ s'.vheight ∧
      ∀ be, commitPreState.findBlk commitPreState.bExec = some be →
        ∃ be', s'.findBlk s'.bExec = some be' ∧ be.height ≤ be'.height :=
  ⟨_, rfl, by decide, by decide, by decide, by decide,
    @vheight_exec_height_mono commitPreState (reachable_of_runOps_getD commitRun.dropLast (by decide))
      (.receiveProposal ⟨3, 4⟩) _ trivial rfl⟩

/-- 取得しただけで配送していない、送り手の書いた高さ `1000` のブロック `5` を `qc_ref` に持つ `6` と、
`6` を `qc_ref` に持つ `7` を配送し、提案として受け取る。`6` の提案の `update_hqc` が `5` を `hqc` に、
`7` の提案の `b_lock` の更新が `5` を `b_lock` にする。 -/
def lockDropRun : List Op :=
  [.fetch 5 [0] (some ⟨0, []⟩) [(3, [105])] 1000,
    .fetch 6 [0] (some ⟨5, []⟩) [(3, [106])] 2, .deliver 6,
    .fetch 7 [6] (some ⟨6, []⟩) [(3, [107])] 3, .deliver 7,
    .receiveProposal ⟨3, 6⟩, .receiveProposal ⟨3, 7⟩]

/-- その実行の後の状態。 -/
def lockDropState : HotStuffCore :=
  (runOps (HotStuffCore.init 0 0 [0, 1, 2, 3] 1 0.5) lockDropRun).getD (HotStuffCore.init 0 0 [0, 1, 2, 3] 1 0.5)

theorem hqc_lock_height_drop :
    Reachable anyOp lockDropState ∧ lockDropState.hqc.1 = 5 ∧ lockDropState.bLock = 5 ∧
      (lockDropState.findBlk 5).map Block.height = some 1000 ∧
      ∃ s', (exec lockDropState (.deliver 5)).state? = some s' ∧ s'.hqc.1 = 5 ∧ s'.bLock = 5 ∧
        (s'.findBlk 5).map Block.height = some 2 :=
  ⟨reachable_of_runOps_getD lockDropRun (by decide), by decide, by decide, by decide, _, rfl, by decide,
    by decide, by decide⟩

end Alkane.Core
