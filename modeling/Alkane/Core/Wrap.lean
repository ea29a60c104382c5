import Alkane.Core.Invariants.Monotone
import Alkane.Core.Lemmas.Orders

/-!
# 高さの折り返し

生成ブロック `b0`（高さ 1）の上に、ブロック `k` の親と `qc` がブロック `k - 1` であるような鎖を
作る。ブロック `k` の高さは `(k + 1) mod 2^32` なので、ブロック `2^32 - 1` で高さが 0 に戻る。
`2^32 + 1` 個のブロックを配送してから最後のブロックの提案を受け取ると、`update` は
ブロック `1` から `2^32 - 2` までを確定して `b_exec` を高さ `2^32 - 1` に移すが、`b_lock` は
`b0`（高さ 1）のまま、投票もしない。
-/

namespace Alkane.Core

open EntityStorage HotStuffCore

/-! ## 鎖 -/

/-- 初期状態：レプリカ 0、レプリカは 0 から 3、`nfaulty = 1`。 -/
def chainInit : HotStuffCore := HotStuffCore.init 0 0 [0, 1, 2, 3] 1 0.5

/-- 配送された鎖のブロック `k`（`k ≥ 1`）。 -/
def chainBlock (k : Nat) : Block :=
  { parentHashes := [k - 1], parents := [k - 1], qc := some ⟨k - 1, []⟩, qcRef := some (k - 1),
    selfQc := none, orders := [(0, [k])], height := (k + 1) % u32, voted := [], delivered := true,
    decision := false }

@[simp] theorem chainBlock_parents (k : Nat) : (chainBlock k).parents = [k - 1] := rfl

@[simp] theorem chainBlock_decision (k : Nat) : (chainBlock k).decision = false := rfl

/-- ブロック `n` まで配送した表（新しいものが先頭）。 -/
def chainCache : Nat → List (BlockHash × Block)
  | 0 => [(0, Block.genesis 0 [0, 1, 2, 3])]
  | n + 1 => (n + 1, chainBlock (n + 1)) :: chainCache n

/-- 提案されてまだ確定していないコマンド。 -/
def chainCmds : Nat → List CmdHash
  | 0 => []
  | n + 1 => (n + 1) :: chainCmds n

/-- ブロック `n` まで配送した状態。 -/
def chainState (n : Nat) : HotStuffCore :=
  { chainInit with
    tails := [n]
    storage := { blkCache := chainCache n, localOrderCache := [], seenProposeLevel := [],
                 seenExecuteLevel := chainCmds n, proposedCmds := chainCmds n } }

/-- ブロック `n + 1` の受信：送り手の書いた内容。 -/
def chainWire (n : Nat) : Block := Block.ofWire [n] (some ⟨n, []⟩) [(0, [n + 1])] (n + 2)

/-- ブロック `n + 1` を受け取る出来事。 -/
def chainFetch (n : Nat) : Op := .fetch (n + 1) [n] (some ⟨n, []⟩) [(0, [n + 1])] (n + 2)

theorem lookupBlk_chainCache (n k : Nat) :
    lookupBlk k (chainCache n) =
      if k = 0 then some (Block.genesis 0 [0, 1, 2, 3]) else if k ≤ n then some (chainBlock k)
      else none := by
  induction n with
  | zero => by_cases hk : k = 0 <;> simp [chainCache, hk, eq_comm]
  | succ n ih =>
    simp only [chainCache, lookupBlk_cons, ih]
    by_cases hk : n + 1 = k
    · subst hk; simp
    · by_cases h0 : k = 0
      · simp [hk, h0]
      · simp only [hk, h0, if_false]
        congr 1
        simp only [eq_iff_iff]
        omega

@[simp] theorem chainState_findBlk (n k : Nat) :
    (chainState n).findBlk k =
      if k = 0 then some (Block.genesis 0 [0, 1, 2, 3]) else if k ≤ n then some (chainBlock k)
      else none :=
  lookupBlk_chainCache n k

theorem chainState_findBlk_zero (n : Nat) :
    (chainState n).findBlk 0 = some (Block.genesis 0 [0, 1, 2, 3]) := by
  simp

theorem chainState_findBlk_of_le {n k : Nat} (h1 : 1 ≤ k) (h2 : k ≤ n) :
    (chainState n).findBlk k = some (chainBlock k) := by
  rw [chainState_findBlk, if_neg (by omega), if_pos h2]

theorem mem_chainCmds {n k : Nat} : k ∈ chainCmds n ↔ 1 ≤ k ∧ k ≤ n := by
  induction n with
  | zero => simp only [chainCmds, List.not_mem_nil, false_iff]; omega
  | succ n ih => simp only [chainCmds, List.mem_cons, ih]; omega

theorem replaceBlk_of_lookupBlk_none {h : BlockHash} {b : Block} :
    ∀ {l : List (BlockHash × Block)}, lookupBlk h l = none → replaceBlk h b l = l
  | [], _ => rfl
  | (k, c) :: l, hl => by
    simp only [lookupBlk_cons] at hl
    split_ifs at hl with e
    have ih := @replaceBlk_of_lookupBlk_none h b l hl
    simp only [replaceBlk, List.map_cons, e, if_false] at ih ⊢
    rw [ih]

theorem chainState_top (n : Nat) :
    ∃ b, (chainState n).findBlk n = some b ∧ b.delivered = true ∧ b.height = (n + 1) % u32 := by
  rcases n with _ | n
  · exact ⟨Block.genesis 0 [0, 1, 2, 3], by simp, rfl, by decide⟩
  · exact ⟨chainBlock (n + 1), by simp, rfl, rfl⟩

theorem chainState_addBlk (n : Nat) :
    (chainState n).storage.addBlk (n + 1) (chainWire n) =
      { blkCache := (n + 1, chainWire n) :: chainCache n,
        localOrderCache := [], seenProposeLevel := [], seenExecuteLevel := chainCmds (n + 1),
        proposedCmds := chainCmds (n + 1) } := by
  have hn : n + 1 ∉ chainCmds n := fun h => by have := mem_chainCmds.mp h; omega
  have hf : (chainState n).storage.findBlk (n + 1) = none := by simp
  simp only [addBlk, hf, chainWire, Block.ofWire, List.flatMap_cons, List.flatMap_nil, List.append_nil,
    List.foldl_cons, List.foldl_nil]
  simp only [chainState, chainCmds, List.insert_of_not_mem hn]

theorem runOps_chainState (n : Nat) :
    runOps (chainState n) [chainFetch n, .deliver (n + 1)] = some (chainState (n + 1)) := by
  obtain ⟨pb, hpb, hpd, hph⟩ := chainState_top n
  let s₁ : HotStuffCore := { chainState n with storage := (chainState n).storage.addBlk (n + 1) (chainWire n) }
  have hf : s₁.findBlk (n + 1) = some (chainWire n) := by simp [s₁, chainState_addBlk, EntityStorage.findBlk]
  have hp : s₁.findBlk n = some pb := by
    rw [← hpb]; simp [s₁, chainState_addBlk, EntityStorage.findBlk, lookupBlk_chainCache]
  have hd := onDeliverBlk_eq_ok hf rfl
    (by simp [deliveredPrefix, chainWire, Block.ofWire, isDelivered_iff, hp, hpd]) rfl hp rfl (by simp [hp])
  have hb : chainBlock (n + 1) =
      { parentHashes := [n], parents := [n], qc := some ⟨n, []⟩, qcRef := some n, selfQc := none,
        orders := [(0, [n + 1])], height := (pb.height + 1) % u32, voted := [], delivered := true,
        decision := false } := by
    simp [chainBlock, hph, Nat.mod_add_mod]
  have hc : replaceBlk (n + 1) (chainBlock (n + 1)) ((n + 1, chainWire n) :: chainCache n) =
      (n + 1, chainBlock (n + 1)) :: chainCache n := by
    simp only [replaceBlk, List.map_cons, if_true]
    exact congrArg _ (replaceBlk_of_lookupBlk_none (by simp [lookupBlk_chainCache]))
  rw [@runOps_cons _ s₁ (chainFetch n) _ trivial rfl,
    @runOps_cons _ _ (.deliver (n + 1)) _ trivial (by rw [exec, hd]; rfl), runOps]
  simp only [s₁, HotStuffCore.setBlk, EntityStorage.setBlk, chainState_addBlk, Option.some.injEq]
  simp [chainState, chainInit, chainWire, Block.ofWire, ← hb]
  exact hc

theorem chainState_reachable (n : Nat) : Reachable anyOp (chainState n) := by
  induction n with
  | zero => exact ⟨[], Run.init 0 0 [0, 1, 2, 3] 1 0.5⟩
  | succ n ih =>
    obtain ⟨_, hr⟩ := ih
    exact Run.reachable_runOps (fun _ _ => trivial) _ hr (runOps_chainState n)

/-- 鎖のブロック `2^32 - 1` の高さは 0 に折り返し、親（高さ `2^32 - 1`）の高さ + 1 ではない。 -/
theorem delivered_height_wraps :
    ∃ s, Reachable anyOp s ∧ ∃ b pb, s.findBlk (u32 - 1) = some b ∧ b.delivered = true ∧
      b.parents.head? = some (u32 - 2) ∧ s.findBlk (u32 - 2) = some pb ∧ pb.delivered = true ∧
      pb.height + 1 = u32 ∧ b.height = 0 :=
  ⟨chainState (u32 - 1), chainState_reachable _, chainBlock (u32 - 1), chainBlock (u32 - 2),
    chainState_findBlk_of_le (by decide) le_rfl, rfl, by decide,
    chainState_findBlk_of_le (by decide) (by decide), rfl, by decide, by decide⟩

/-! ## 確定のループ -/

theorem commitLoop_of_single : ∀ (q : List BlockHash) (s : HotStuffCore),
    (∀ bh ∈ q, ∃ b r c, s.findBlk bh = some b ∧ b.orders = [(r, [c])]) →
    ∃ s' out, commitLoop s q = .ok () s' out ∧ { s' with storage := s.storage, bExec := s.bExec } = s ∧
      s'.bExec = q.getLastD s.bExec ∧
      (∀ k, s'.findBlk k = (s.findBlk k).map fun b => if k ∈ q then { b with decision := true } else b) ∧
      ∀ o ∈ out, (∃ h, o = .doConsensus h) ∨ ∃ f, o = .doDecide f
  | [], s, _ => ⟨s, [], rfl, rfl, rfl, fun k => by simp, by simp⟩
  | bh :: rest, s, hq => by
    obtain ⟨b, r, c, hb, ho⟩ := hq bh (List.mem_cons_self _ _)
    let s₁ := (commitBlock s bh b [c]).1
    have hq₁ : ∀ x ∈ rest, ∃ b r c, s₁.findBlk x = some b ∧ b.orders = [(r, [c])] := by
      intro x hx
      obtain ⟨b', r', c', hb', ho'⟩ := hq x (List.mem_cons_of_mem _ hx)
      by_cases e : bh = x
      · subst e; exact ⟨{ b with decision := true }, r, c, by simp [s₁, hb], ho⟩
      · exact ⟨b', r', c', by simp [s₁, e, hb'], ho'⟩
    obtain ⟨s', out, hl, hf, he, hk, hout⟩ := commitLoop_of_single rest s₁ hq₁
    refine ⟨s', (commitBlock s bh b [c]).2 ++ out, ?_, ?_, he.trans (List.getLastD_cons _ _ _).symm,
      fun k => ?_, ?_⟩
    · rw [commitLoop, hb]
      simp only [ho, fairFinalize_single, List.cons_ne_nil, false_and, if_false, Result.ok_andThen]
      rw [hl]
    · exact frame_trans hf rfl
    · rw [hk]
      by_cases e : bh = k
      · subst e; simp [s₁, hb]
      · simp [s₁, e, List.mem_cons, Ne.symm e]
    · intro o ho
      rcases List.mem_append.mp ho with ho | ho
      · simp only [commitBlock, List.mem_cons, List.mem_map] at ho
        rcases ho with rfl | ⟨_, _, rfl⟩
        · exact .inl ⟨_, rfl⟩
        · exact .inr ⟨_, rfl⟩
      · exact hout o ho

/-! ## 鎖を下りる -/

section Walk

variable {st : EntityStorage} {n : Nat}

theorem walkDown_chain (hst : ∀ k, st.findBlk k = (chainState n).findBlk k) :
    ∀ k, k ≤ n → k + 2 ≤ u32 → walkDown st 1 (k + 2) k = some (0, (List.range' 1 k).reverse)
  | 0, _, _ => by simp [walkDown, hst, Block.genesis]
  | k + 1, hk, hu => by
    have hm : (k + 1 + 1) % u32 = k + 2 := Nat.mod_eq_of_lt (by omega)
    show walkDown st 1 (k + 2 + 1) (k + 1) = _
    rw [walkDown, hst, chainState_findBlk_of_le (by omega) hk]
    simp only [chainBlock, hm, Nat.add_sub_cancel, walkDown_chain hst k (by omega) (by omega)]
    simp [List.range'_concat, Nat.add_comm]

theorem below_chain (hp : ∀ k < n, st.parent0 (k + 1) = some k) :
    ∀ k ≤ n, Below st 0 k
  | 0, _ => .refl 0
  | k + 1, hk => .parent (hp k (by omega)) (below_chain hp k (by omega))

end Walk

/-! ## 折り返しの後の提案 -/

theorem update_chain :
    ∃ s' out, update (chainState (u32 + 1)) (u32 + 1) = .ok () s' out ∧
      { s' with storage := (chainState (u32 + 1)).storage, bExec := 0 } = chainState (u32 + 1) ∧
      s'.bExec = u32 - 2 ∧
      (∀ k, s'.findBlk k = ((chainState (u32 + 1)).findBlk k).map fun b =>
        if k ∈ List.range' 1 (u32 - 2) then { b with decision := true } else b) ∧
      ∀ o ∈ out, (∃ h, o = .doConsensus h) ∨ ∃ f, o = .doDecide f := by
  have hg : (chainState (u32 + 1)).findBlk 0 = some (Block.genesis 0 [0, 1, 2, 3]) :=
    chainState_findBlk_zero _
  have hu := update_eq_commit
    (chainState_findBlk_of_le (by decide) le_rfl : (chainState (u32 + 1)).findBlk (u32 + 1) = _) rfl rfl rfl
    (chainState_findBlk_of_le (by decide) (by decide) :
      (chainState (u32 + 1)).findBlk (u32 + 1 - 1) = some (chainBlock (u32 + 1 - 1))) rfl rfl
    (chainState_findBlk_of_le (by decide) (by decide) :
      (chainState (u32 + 1)).findBlk (u32 + 1 - 1 - 1) = some (chainBlock (u32 + 1 - 1 - 1))) rfl rfl
    (chainState_findBlk_of_le (by decide) (by decide) :
      (chainState (u32 + 1)).findBlk (u32 + 1 - 1 - 1 - 1) = some (chainBlock (u32 + 1 - 1 - 1 - 1))) rfl
    rfl rfl hg (by decide) hg (by decide)
  rw [hu, show u32 + 1 - 1 - 1 - 1 = u32 - 2 by decide]
  generalize hs₀ : ({ chainState (u32 + 1) with
    storage := [u32 + 1].foldl removeLocalOrderSeenProposeLevel (chainState (u32 + 1)).storage } :
      HotStuffCore) = s₀
  have hf₀ : ∀ k, s₀.findBlk k = (chainState (u32 + 1)).findBlk k := fun k => by
    rw [← hs₀]; exact findBlk_removeSeen _ _ k
  have hb₀ : s₀.bExec = 0 := by rw [← hs₀]; rfl
  have h0 : s₀.findBlk (u32 - 2) = some (chainBlock (u32 - 2)) := by
    rw [hf₀, chainState_findBlk_of_le (by decide) (by decide)]
  have hw := walkDown_chain hf₀ (u32 - 2) (by decide) (by decide)
  rw [show u32 - 2 + 2 = (chainBlock (u32 - 2)).height + 1 by decide, ← walkFrom_of_findBlk h0] at hw
  rw [commit_of_walk (by rw [hb₀, hf₀]; exact hg) (by rw [hb₀]; exact hw), List.reverse_reverse]
  have hq : ∀ bh ∈ List.range' 1 (u32 - 2), ∃ b r c, s₀.findBlk bh = some b ∧ b.orders = [(r, [c])] := by
    intro bh hb
    rw [List.mem_range'_1] at hb
    exact ⟨chainBlock bh, 0, bh, by rw [hf₀, chainState_findBlk_of_le (by omega) (by omega)], rfl⟩
  obtain ⟨s', out, hl, hf, he, hk, ho⟩ := commitLoop_of_single _ s₀ hq
  refine ⟨s', out, hl, ?_, ?_, fun k => by rw [hk, hf₀], ho⟩
  · exact @frame_trans (chainState (u32 + 1)) s₀ s' hf (by rw [← hs₀])
  · rw [he, show u32 - 2 = (u32 - 3) + 1 by decide, List.range'_concat, List.getLastD_concat]
    decide

theorem onReceiveProposal_chain :
    ∃ s out, onReceiveProposal (chainState (u32 + 1)) ⟨3, u32 + 1⟩ = .ok () s out ∧
      { s with storage := (chainState (u32 + 1)).storage, bExec := 0 } = chainState (u32 + 1) ∧
      s.bExec = u32 - 2 ∧
      (∀ k, s.findBlk k = ((chainState (u32 + 1)).findBlk k).map fun b =>
        if k ∈ List.range' 1 (u32 - 2) then { b with decision := true } else b) ∧
      ∀ o ∈ out, (∃ h, o = .doConsensus h) ∨ (∃ f, o = .doDecide f) ∨
        o = .resolveReceiveProposal ⟨3, u32 + 1⟩ := by
  obtain ⟨s, out, hu, hf, he, hk, ho⟩ := update_chain
  have hN : (chainState (u32 + 1)).findBlk (u32 + 1) = some (chainBlock (u32 + 1)) :=
    chainState_findBlk_of_le (by decide) le_rfl
  have hN' : s.findBlk (u32 + 1) = some (chainBlock (u32 + 1)) := by
    rw [hk, hN, Option.map_some', if_neg (by rw [List.mem_range'_1]; decide)]
  have hQ : s.findBlk (u32 + 1 - 1) = some (chainBlock (u32 + 1 - 1)) := by
    rw [hk, chainState_findBlk_of_le (by decide) (by decide), Option.map_some',
      if_neg (by rw [List.mem_range'_1]; decide)]
  have hG : s.findBlk s.bLock = some (Block.genesis 0 [0, 1, 2, 3]) := by
    rw [show s.bLock = 0 from congrArg HotStuffCore.bLock hf, hk, chainState_findBlk_zero, Option.map_some',
      if_neg (by rw [List.mem_range'_1]; decide)]
  have hw : walkFrom s.storage 1 (u32 + 1) =
      some (u32 + 1 - 1, [u32 + 1]) := by
    rw [walkFrom_of_findBlk hN', show (chainBlock (u32 + 1)).height + 1 = 1 + 1 + 1 by decide, walkDown,
      storage_findBlk, hN']
    dsimp only
    rw [if_pos (show 1 < (chainBlock (u32 + 1)).height by decide), chainBlock_parents]
    dsimp only
    rw [walkDown, storage_findBlk, hQ]
    dsimp only
    rw [if_neg (show ¬1 < (chainBlock (u32 + 1 - 1)).height by decide)]
    rfl
  have hv : s.vheight < (chainBlock (u32 + 1)).height := by
    rw [show s.vheight = 0 from congrArg HotStuffCore.vheight hf]; decide
  have hle : (chainBlock (u32 + 1 - 1)).height ≤ (Block.genesis 0 [0, 1, 2, 3]).height := by decide
  have hop := opinion_of_walk hv hG rfl hQ hle hw
  rw [@onReceiveProposal_of_update _ _ ⟨3, u32 + 1⟩ _ _ _ (by decide) ((isDelivered_iff _ _).mpr ⟨_, hN, rfl⟩) hu hN' hop,
    show decide (u32 + 1 - 1 = s.bLock) = false by
      rw [show s.bLock = 0 from congrArg HotStuffCore.bLock hf]; decide, Result.ok_andThen,
    finishProposal_false (fun q _ => by rw [show s.qcWaiting = [] from congrArg HotStuffCore.qcWaiting hf]; simp)]
  refine ⟨s, out ++ [.resolveReceiveProposal ⟨3, u32 + 1⟩], rfl, hf, he, hk, fun o h => ?_⟩
  rcases List.mem_append.mp h with h | h
  · rcases ho o h with h | h
    · exact .inl h
    · exact .inr (.inl h)
  · exact .inr (.inr (List.mem_singleton.mp h))

/-- 折り返しの後の提案では、`vote_disabled` は偽で、新しいブロックは配送済みで `vheight` より高く、
`update` の後の `b_lock`（`b0`）は新しいブロックの `parents[0]` の鎖の上にあるのに、投票せず、
`vheight` も上げない。 -/
theorem wrapped_chain_vote_withheld :
    Reachable anyOp (chainState (u32 + 1)) ∧ (chainBlock (u32 + 1)).delivered = true ∧
    ∃ s out, onReceiveProposal (chainState (u32 + 1)) ⟨3, u32 + 1⟩ = .ok () s out ∧
      s.voteDisabled = false ∧ s.vheight = 0 ∧ (chainBlock (u32 + 1)).height = 2 ∧
      s.findBlk (u32 + 1) = some (chainBlock (u32 + 1)) ∧ Below s.storage s.bLock (u32 + 1) ∧
      ∀ o ∈ out, ∀ p v, o ≠ .doVote p v := by
  obtain ⟨s, out, hr, hf, -, hk, ho⟩ := onReceiveProposal_chain
  have hp : ∀ k < u32 + 1, s.storage.parent0 (k + 1) = some k := fun k hk' => by
    rw [parent0, storage_findBlk, hk, chainState_findBlk_of_le (by omega) (by omega), Option.map_some']
    split_ifs <;> simp
  refine ⟨chainState_reachable _, rfl, s, out, hr, congrArg HotStuffCore.voteDisabled hf,
    congrArg HotStuffCore.vheight hf, by decide, ?_, ?_, fun o h p v => ?_⟩
  · rw [hk, chainState_findBlk_of_le (by decide) le_rfl, Option.map_some',
      if_neg (by rw [List.mem_range'_1]; decide)]
  · rw [show s.bLock = 0 from congrArg HotStuffCore.bLock hf]
    exact below_chain hp _ le_rfl
  · rcases ho o h with ⟨_, rfl⟩ | ⟨_, rfl⟩ | rfl <;> exact nofun

/-- 折り返しの後の提案を受け取った状態では、`b_exec`（高さ `2^32 - 1`）が `b_lock`（`b0`、高さ 1）
より高い。 -/
theorem exec_above_lock_after_wrap :
    ∃ s, Reachable anyOp s ∧ ∃ be bl, s.findBlk s.bExec = some be ∧ s.findBlk s.bLock = some bl ∧
      be.height = u32 - 1 ∧ bl.height = 1 := by
  obtain ⟨s, out, hr, hf, he, hk, -⟩ := onReceiveProposal_chain
  obtain ⟨_, hr₀⟩ := chainState_reachable (u32 + 1)
  have hs : (exec (chainState (u32 + 1)) (.receiveProposal ⟨3, u32 + 1⟩)).state? = some s := by
    rw [exec, hr]; rfl
  refine ⟨s, ⟨_, @Run.step anyOp _ _ (.receiveProposal ⟨3, u32 + 1⟩) s hr₀ trivial trivial hs⟩,
    { chainBlock (u32 - 2) with decision := true },
    Block.genesis 0 [0, 1, 2, 3], ?_, ?_, by decide, rfl⟩
  · rw [he, hk, chainState_findBlk_of_le (by decide) (by decide), Option.map_some',
      if_pos (by rw [List.mem_range'_1]; decide)]
  · rw [show s.bLock = 0 from congrArg HotStuffCore.bLock hf, hk, chainState_findBlk_zero, Option.map_some',
      if_neg (by rw [List.mem_range'_1]; decide)]

/-- 到達できる状態からの出来事で、`hqc.first` と `b_lock` の高さは下がりうる（取得しただけのブロックが
`hqc` と `b_lock` になり、配送で高さが書き換わる）。`b_exec` の高さは、高さが折り返すと `b_lock` の
高さを越える。 -/
theorem lock_heights_not_monotone :
    (Reachable anyOp lockDropState ∧ lockDropState.hqc.1 = 5 ∧ lockDropState.bLock = 5 ∧
      (lockDropState.findBlk 5).map Block.height = some 1000 ∧
      ∃ s', (exec lockDropState (.deliver 5)).state? = some s' ∧ s'.hqc.1 = 5 ∧ s'.bLock = 5 ∧
        (s'.findBlk 5).map Block.height = some 2) ∧
    ∃ s, Reachable anyOp s ∧ ∃ be bl, s.findBlk s.bExec = some be ∧ s.findBlk s.bLock = some bl ∧
      be.height = u32 - 1 ∧ bl.height = 1 :=
  ⟨hqc_lock_height_drop, exec_above_lock_after_wrap⟩

end Alkane.Core
