import Alkane.Core.Lemmas.Ops

/-!
# 局所順序の表の読み方

`update(nblk)` は `nblk->get_orders().begin()->second` を、`fair_finalize(blk)` は
`orders.begin()->second` とその長さ `len` を、表のどの列にも使う。表が空なら `begin()` は
`end()` で、`len` より短い列があれば `tmp[to]` は範囲の外（どちらも `Result.undefined`）。
-/

namespace Alkane.Core

open EntityStorage HotStuffCore

theorem fairFinalize_eq_none_of_short (γ : Float) (r : ReplicaID) (first : List CmdHash)
    (rest : List (ReplicaID × List CmdHash)) {o : ReplicaID × List CmdHash} (ho : o ∈ rest)
    (h2 : 2 ≤ first.length) (hlt : o.2.length < first.length) :
    fairFinalize γ ((r, first) :: rest) = none := by
  unfold fairFinalize
  dsimp only
  rw [if_neg]
  simp only [List.all_cons, Bool.and_eq_true, List.all_eq_true, not_and, not_forall]
  intro _
  exact ⟨o, ho, by simp [readsInBounds]; omega⟩

theorem fairFinalize_single (γ : Float) (r : ReplicaID) (c : CmdHash) :
    fairFinalize γ [(r, [c])] = some [c] := by
  simp [fairFinalize, readsInBounds, weightOrder, cmdWeightKeys, IsStrictWeakOn, pairLess]

theorem update_eq_undefined_of_orders_nil {s : HotStuffCore} {nh : BlockHash} {nblk : Block}
    (hn : s.findBlk nh = some nblk) (ho : nblk.orders = []) : update s nh = .undefined := by
  simp [update, hn, ho]

theorem onPropose_eq_undefined_of_orders_nil {s s₁ s₂ : HotStuffCore} {orders : List (ReplicaID × List CmdHash)}
    {p0 h : BlockHash} {ps : List BlockHash} {d : Bool} {o : List Output}
    (hc : createBlock s orders (p0 :: ps) p0 h = some s₁) (hd : onDeliverBlk s₁ h = .ok d s₂ o)
    (hb : (s₂.findBlk h).map Block.orders = some []) : onPropose s orders (p0 :: ps) h = .undefined := by
  obtain ⟨b, hb, ho⟩ := Option.map_eq_some'.mp hb
  simp [onPropose, hc, hd, update_eq_undefined_of_orders_nil hb ho]

theorem commitLoop_eq_undefined {s : HotStuffCore} {bh : BlockHash} {blk : Block} {rest : List BlockHash}
    (hb : s.findBlk bh = some blk) (hf : fairFinalize s.config.fairnessParameter blk.orders = none) :
    commitLoop s (bh :: rest) = .undefined := by
  simp [commitLoop, hb, hf]

theorem fairPropose_fst_eq_nil {st : EntityStorage} (h : st.getOrderedHashRepliaVector = []) :
    (fairPropose st).1 = [] := by
  simp [fairPropose, h]

/-- 長さの違う列の表を持つブロック 1 の上に三連鎖 2、3、4 を作る実行。 -/
def raggedRun : List Op :=
  [.fetch 1 [0] (some ⟨0, []⟩) [(0, [1, 2]), (1, [1])] 2, .deliver 1,
   .fetch 2 [1] (some ⟨1, []⟩) [(0, [3])] 3, .deliver 2,
   .fetch 3 [2] (some ⟨2, []⟩) [(0, [4])] 4, .deliver 3,
   .fetch 4 [3] (some ⟨3, []⟩) [(0, [5])] 5, .deliver 4]

/-- その実行の後の状態。 -/
def raggedState : HotStuffCore :=
  (runOps (HotStuffCore.init 0 0 [0, 1, 2, 3] 1 0.5) raggedRun).getD (HotStuffCore.init 0 0 [0, 1, 2, 3] 1 0.5)

/-- 誠実な提案者でも、局所順序が一つも届く前に `fair_propose` の表で `on_propose` すれば
`update` が空の表の `begin()` を読み、長さの違う列の表を持つブロックを確定しようとすれば
`fair_finalize` が範囲の外を読む。 -/
theorem orders_read_out_of_range :
    (fairPropose (HotStuffCore.init 0 0 [0, 1, 2, 3] 1 0.5).storage).1 = [] ∧
    (onPropose (HotStuffCore.init 0 0 [0, 1, 2, 3] 1 0.5)
      (fairPropose (HotStuffCore.init 0 0 [0, 1, 2, 3] 1 0.5).storage).1 [0] 1).isUndefined = true ∧
    ∃ s, Reachable anyOp s ∧
      ((s.findBlk 1).map fun b => (b.delivered, b.orders)) = some (true, [(0, [1, 2]), (1, [1])]) ∧
      (exec s (.receiveProposal ⟨3, 4⟩)).isUndefined = true := by
  have hp := @fairPropose_fst_eq_nil (HotStuffCore.init 0 0 [0, 1, 2, 3] 1 0.5).storage rfl
  have hu₀ : onPropose (HotStuffCore.init 0 0 [0, 1, 2, 3] 1 0.5) [] [0] 1 = .undefined :=
    onPropose_eq_undefined_of_orders_nil rfl rfl (by decide)
  refine ⟨hp, by rw [hp, hu₀]; rfl, raggedState, reachable_of_runOps_getD raggedRun (by decide), by decide, ?_⟩
  -- 提案 `4` の `update` は三連鎖 `4, 3, 2` をたどり、`hqc` を `3` に、`b_lock` を `2` に移して `1` から確定する
  set B1 : Block := ⟨[0], [0], some ⟨0, []⟩, some 0, none, [(0, [1, 2]), (1, [1])], 2, [], true, false⟩
  set B2 : Block := ⟨[1], [1], some ⟨1, []⟩, some 1, none, [(0, [3])], 3, [], true, false⟩
  set B3 : Block := ⟨[2], [2], some ⟨2, []⟩, some 2, none, [(0, [4])], 4, [], true, false⟩
  set B4 : Block := ⟨[3], [3], some ⟨3, []⟩, some 3, none, [(0, [5])], 5, [], true, false⟩
  set G := Block.genesis 0 [0, 1, 2, 3]
  have hG : raggedState.findBlk 0 = some G := by decide
  have h1 : raggedState.findBlk 1 = some B1 := by decide
  set s₀ : HotStuffCore :=
    { raggedState with storage := [5].foldl removeLocalOrderSeenProposeLevel raggedState.storage }
  set s₂ : HotStuffCore := { s₀ with hqc := (3, ⟨3, []⟩), bLock := 2 }
  have hf₀ : ∀ k, s₀.findBlk k = raggedState.findBlk k := fun _ => findBlk_removeSeen _ _ _
  have hU := @updateHqc_of_lt s₀ 3 ⟨3, []⟩ B3 G ((hf₀ 3).trans (by decide)) ((hf₀ 0).trans hG) (by decide)
  have hL : lockStep { s₀ with hqc := (3, ⟨3, []⟩) } 2 B2 = .ok () s₂ [] :=
    lockStep_of_lt ((hf₀ 0).trans hG) (by decide)
  have hu := update_eq_andThen_commit (by decide : raggedState.findBlk 4 = some B4) rfl rfl rfl
    (by decide : raggedState.findBlk 3 = some B3) rfl rfl (by decide : raggedState.findBlk 2 = some B2) rfl rfl
    h1 rfl rfl rfl hU hL hf₀ hf₀
  -- `b_exec`（`b0`）の高さまで下りる道は `1` だけで、その `fair_finalize` が範囲の外を読む
  have hc : commit s₂ 1 = commitLoop s₂ [1] := @commit_of_walk s₂ 1 G [1] ((hf₀ 0).trans hG) (by decide)
  have hl : commitLoop s₂ [1] = .undefined := @commitLoop_eq_undefined s₂ 1 B1 [] ((hf₀ 1).trans h1)
    (fairFinalize_eq_none_of_short 0.5 0 [1, 2] [(1, [1])] (List.mem_singleton_self _) (by decide) (by decide))
  have hd : raggedState.isDelivered 4 = true := by decide
  simp only [exec, onReceiveProposal, show (3 : ReplicaID) ≠ raggedState.id by decide, if_false, hd, if_true, hu,
    Result.ok_andThen, hc, hl]
  rfl

end Alkane.Core
