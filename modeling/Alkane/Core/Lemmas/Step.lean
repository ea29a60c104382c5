import Alkane.Core.Lemmas.Basic

/-!
# 操作の構造

不変条件 `I` と、出力つきの前後の関係 `R` について、`Keeps I R s r` は「`I` を満たす `s` から
得た結果 `r` の状態はどれも `I` を満たし、`s` と `R` の関係にある」ことをいう。

各操作について、どの部分操作をどの順に呼ぶかを一度だけ補題にする（`update_keeps` など）。
個々の不変条件は、末端の書き換え（集合の更新、`update_hqc`、`b_lock` の更新、確定、…）に
ついての事実を与えるだけでよい。
-/

namespace Alkane.Core

open HotStuffCore

variable {α β : Type}

/-- 出力をつないで合成できる前後の関係。 -/
structure Chainable (R : HotStuffCore → List Output → HotStuffCore → Prop) : Prop where
  refl : ∀ s, R s [] s
  trans : ∀ {s₁ s₂ s₃ o₁ o₂}, R s₁ o₁ s₂ → R s₂ o₂ s₃ → R s₁ (o₁ ++ o₂) s₃

/-- `I` のもとで、`r` の結果の状態は `I` を満たし、`s` と `R` の関係にある。 -/
def Keeps (I : HotStuffCore → Prop) (R : HotStuffCore → List Output → HotStuffCore → Prop)
    (s : HotStuffCore) (r : Result α) : Prop :=
  I s → ∀ s', r.state? = some s' → I s' ∧ R s r.outputs s'

section Keeps

variable {I : HotStuffCore → Prop} {R : HotStuffCore → List Output → HotStuffCore → Prop}
  {s : HotStuffCore}

theorem Keeps.undefined : Keeps I R s (Result.undefined : Result α) := by
  intro _ s' h; cases h

theorem Keeps.ok {a : α} {s' : HotStuffCore} {out : List Output} (h : I s → I s' ∧ R s out s') :
    Keeps I R s (.ok a s' out) := by
  intro hI s'' hs; cases hs; exact h hI

theorem Keeps.error {m : String} {s' : HotStuffCore} {out : List Output}
    (h : I s → I s' ∧ R s out s') : Keeps I R s (.error m s' out : Result α) := by
  intro hI s'' hs; cases hs; exact h hI

theorem Keeps.andThen (hR : Chainable R) {r : Result α} {f : α → HotStuffCore → Result β}
    (hr : Keeps I R s r) (hf : ∀ a s₁ out, r = .ok a s₁ out → Keeps I R s₁ (f a s₁)) :
    Keeps I R s (r.andThen f) := by
  intro hI s' hs
  cases r with
  | ok a s₁ out =>
    obtain ⟨hI₁, hR₁⟩ := hr hI s₁ rfl
    have hs₁ : (f a s₁).state? = some s' := by
      simp only [Result.ok_andThen] at hs; split at hs <;> simp_all [Result.state?]
    obtain ⟨hI', hR'⟩ := hf a s₁ out rfl hI₁ s' hs₁
    rw [Result.outputs_ok_andThen (by rw [hs]; rfl)]
    exact ⟨hI', hR.trans hR₁ hR'⟩
  | error m s₁ out => exact hr hI s' hs
  | undefined => cases hs

theorem Keeps.discard {r : Result α} (h : Keeps I R s r) : Keeps I R s r.discard := by
  intro hI s' hs
  rw [Result.state?_discard] at hs
  rw [Result.outputs_discard]
  exact h hI s' hs

theorem Keeps.pre (hR : Chainable R) {s₁ : HotStuffCore} {r : Result α}
    (h₁ : I s → I s₁ ∧ R s [] s₁) (h : Keeps I R s₁ r) : Keeps I R s r := by
  intro hI s' hs
  obtain ⟨hI₁, hR₁⟩ := h₁ hI
  obtain ⟨hI', hR'⟩ := h hI₁ s' hs
  exact ⟨hI', by simpa using hR.trans hR₁ hR'⟩

theorem Keeps.self (hR : Chainable R) {a : α} : Keeps I R s (.ok a s []) :=
  Keeps.ok fun hI => ⟨hI, hR.refl s⟩

end Keeps

/-! ## 各操作の構造 -/

section Structure

variable {I : HotStuffCore → Prop} {R : HotStuffCore → List Output → HotStuffCore → Prop}
  (hR : Chainable R)

/-- ブロックの表を変えないストレージの書き換えについての事実。 -/
def StorageStep (I : HotStuffCore → Prop) (R : HotStuffCore → List Output → HotStuffCore → Prop) :
    Prop :=
  ∀ s (st : EntityStorage), st.blkCache = s.storage.blkCache → I s →
    I { s with storage := st } ∧ R s [] { s with storage := st }

/-- `update` の末端の書き換えについての事実：`update_hqc` はブロックの `qc_ref` と `qc` の組で、
`b_lock` は表にあるブロックへ、確定は三連鎖がそろったときにだけ呼ばれる。 -/
structure UpdateLeaves (I : HotStuffCore → Prop) (R : HotStuffCore → List Output → HotStuffCore → Prop) :
    Prop where
  storage : StorageStep I R
  updateHqc : ∀ s nh nblk h qc, s.findBlk nh = some nblk → nblk.qcRef = some h → nblk.qc = some qc →
    Keeps I R s (updateHqc s h qc)
  lockStep : ∀ s h1 blk1, s.findBlk h1 = some blk1 → Keeps I R s (lockStep s h1 blk1)
  commit : ∀ s h1 blk1 h0, s.findBlk h1 = some blk1 → blk1.qcRef = some h0 →
    blk1.parents.head? = some h0 → (∀ bl, s.findBlk s.bLock = some bl → blk1.height ≤ bl.height) →
    Keeps I R s (commit s h0)

include hR in
theorem update_keeps (L : UpdateLeaves I R) (s : HotStuffCore) (nh : BlockHash) :
    Keeps I R s (update s nh) := by
  unfold update
  split
  · exact Keeps.undefined
  rename_i nblk hn
  split
  · exact Keeps.undefined
  rename_i cmds rest hord
  refine Keeps.pre hR
    (L.storage s (cmds.foldl EntityStorage.removeLocalOrderSeenProposeLevel s.storage) (by simp)) ?_
  dsimp only
  split
  · exact Keeps.self hR
  rename_i h2 hq2
  split
  · exact Keeps.undefined
  rename_i blk2 hb2
  split
  · exact Keeps.self hR
  split
  · exact Keeps.undefined
  rename_i qc hqc
  refine Keeps.andThen hR (L.updateHqc _ nh nblk _ _ (by simpa using hn) hq2 hqc) fun _ s₂ _ _ => ?_
  split
  · exact Keeps.self hR
  rename_i h1 hq1
  split
  · exact Keeps.undefined
  rename_i blk1 hb1
  split
  · exact Keeps.self hR
  refine Keeps.andThen hR (L.lockStep _ _ _ hb1) fun _ s₃ _ hl => ?_
  have hs₃ : s₃.storage = s₂.storage ∧
      ∀ bl, s₃.findBlk s₃.bLock = some bl → blk1.height ≤ bl.height := by
    unfold lockStep at hl
    split at hl
    · rename_i bl hbl
      simp only [Result.ok.injEq] at hl
      obtain ⟨-, rfl, -⟩ := hl
      split
      · exact ⟨rfl, fun bl' h => (Option.some.inj (hb1.symm.trans h)) ▸ le_refl _⟩
      · refine ⟨rfl, fun bl' h => ?_⟩
        cases hbl.symm.trans h
        omega
    · cases hl
  split
  · exact Keeps.self hR
  rename_i h0 hq0
  split
  · exact Keeps.undefined
  split
  · exact Keeps.self hR
  split
  · exact Keeps.undefined
  split
  · exact Keeps.self hR
  split
  · exact Keeps.undefined
  rename_i p1 _ hp1
  split
  · exact Keeps.self hR
  rename_i hp
  simp only [not_not] at hp
  subst hp
  exact L.commit s₃ h1 blk1 p1 (by rw [findBlk_eq, hs₃.1]; exact hb1) hq0 (by simp [hp1]) hs₃.2

/-- 状態を変えずに出す出力：`qc->compute()`、提案の約束と放送、局所順序の送信。 -/
def Output.Quiet : Output → Prop
  | .qcCompute _ | .resolvePropose _ | .doBroadcastProposal _ | .doSendLocalOrder _ _ => True
  | _ => False

/-- `on_receive_vote` の末端の書き換えについての事実：票の記録、`nmajority` 票目の `update_hqc` と
`on_qc_finish`。 -/
structure VoteLeaves (I : HotStuffCore → Prop) (R : HotStuffCore → List Output → HotStuffCore → Prop) :
    Prop where
  record : ∀ s vote blk, s.getDeliveredBlk vote.blkHash = some blk → vote.voter ∉ blk.voted →
    blk.voted.length < s.config.nmajority → I s →
    I (recordVote s vote blk) ∧ R s [] (recordVote s vote blk)
  voteHqc : ∀ s h qc, (∃ b, s.findBlk h = some b ∧ b.selfQc = some qc) →
    Keeps I R s (Alkane.Core.updateHqc s h qc)
  qcFinish : ∀ s h, I s → I (onQcFinish s h).1 ∧ R s (onQcFinish s h).2 (onQcFinish s h).1

/-- 残りの操作の末端の書き換えについての事実。`allowed` は実行が許す出来事。 -/
structure Leaves (allowed : HotStuffCore → Op → Prop) (I : HotStuffCore → Prop)
    (R : HotStuffCore → List Output → HotStuffCore → Prop) extends UpdateLeaves I R : Prop where
  fetch : ∀ s h ps qc orders ht, I s →
    I { s with storage := s.storage.addBlk h (Block.ofWire ps qc orders ht) } ∧
      R s [] { s with storage := s.storage.addBlk h (Block.ofWire ps qc orders ht) }
  deliver : ∀ s h, Keeps I R s (onDeliverBlk s h)
  /-- `on_propose` の前半（ブロックを作って配送する）。 -/
  create : ∀ s orders parents p0 h s₁, allowed s (.propose orders parents h) →
    (Op.propose orders parents h).ContentAddressed s → parents.head? = some p0 →
    createBlock s orders parents p0 h = some s₁ → Keeps I R s (onDeliverBlk s₁ h)
  finish : ∀ s prop bnew op, s.findBlk prop.blk = some bnew → opinion s prop.blk bnew = some op →
    Keeps I R s (finishProposal s prop bnew op)
  /-- `on_receive_vote` 全体（票の記録から `on_qc_finish` までは一つの出来事の中で起こる）。 -/
  vote : ∀ s vote, Keeps I R s (onReceiveVote s vote)
  /-- 状態を変えない出力（`qc->compute()`、提案の約束と放送、局所順序の送信）。 -/
  quiet : ∀ s o, I s → o.Quiet → R s [o] s
  prune : ∀ s n, allowed s (.prune n) → Keeps I R s (prune s n)
  async : ∀ s h, Keeps I R s (asyncQcFinish s h)
  disable : ∀ s f, I s → I { s with voteDisabled := f } ∧ R s [] { s with voteDisabled := f }

include hR in
theorem onReceiveProposal_keeps (L : UpdateLeaves I R) {prop : Proposal}
    (hfin : ∀ s bnew op, s.findBlk prop.blk = some bnew → opinion s prop.blk bnew = some op →
      Keeps I R s (finishProposal s prop bnew op)) (s : HotStuffCore) :
    Keeps I R s (onReceiveProposal s prop) := by
  unfold onReceiveProposal
  refine Keeps.andThen hR ?_ fun _ s₁ _ _ => ?_
  · split_ifs
    · exact Keeps.self hR
    · exact update_keeps hR L s prop.blk
    · exact Keeps.error fun hI => ⟨hI, hR.refl s⟩
  · split
    · exact Keeps.undefined
    rename_i bnew hb
    split
    · exact Keeps.undefined
    rename_i op hop
    exact hfin s₁ bnew op hb hop

include hR in
theorem onReceiveVote_keeps (L : VoteLeaves I R) (hq : ∀ s o, I s → o.Quiet → R s [o] s)
    (s : HotStuffCore) (vote : Vote) : Keeps I R s (onReceiveVote s vote) := by
  unfold onReceiveVote
  split
  · exact Keeps.error fun hI => ⟨hI, hR.refl s⟩
  rename_i blk hb
  split_ifs with hmaj hmem
  · exact Keeps.self hR
  · exact Keeps.self hR
  refine Keeps.pre hR (L.record s vote blk hb hmem (by omega)) ?_
  dsimp only
  split_ifs
  · refine Keeps.andThen hR
      (Keeps.ok fun hI => ⟨hI, hq _ (.qcCompute vote.blkHash) hI trivial⟩) ?_
    rintro _ s₂ _ ⟨⟩
    have hf : s.findBlk vote.blkHash = some blk := by
      unfold getDeliveredBlk at hb; split at hb <;> simp_all
    refine Keeps.andThen hR (L.voteHqc _ _ _ (by simp [recordVote, hf])) ?_
    exact fun _ s₃ _ _ => Keeps.ok (L.qcFinish s₃ vote.blkHash)
  · exact Keeps.self hR

include hR in
theorem onPropose_keeps {allowed : HotStuffCore → Op → Prop} (L : Leaves allowed I R)
    {s : HotStuffCore} {orders : List (ReplicaID × List CmdHash)} {parents : List BlockHash}
    {h : BlockHash} (ha : allowed s (.propose orders parents h))
    (hc : (Op.propose orders parents h).ContentAddressed s) :
    Keeps I R s (onPropose s orders parents h) := by
  unfold onPropose
  split
  · exact Keeps.error fun hI => ⟨hI, hR.refl s⟩
  rename_i p0 _
  split
  · exact Keeps.undefined
  rename_i s₁ hs₁
  refine Keeps.andThen hR (L.create s orders _ p0 h s₁ ha hc rfl hs₁) fun _ s₂ _ _ => ?_
  refine Keeps.andThen hR (update_keeps hR L.toUpdateLeaves s₂ h) fun _ s₃ _ _ => ?_
  split
  · exact Keeps.undefined
  split
  · exact Keeps.error fun hI => ⟨hI, hR.refl s₃⟩
  refine Keeps.andThen hR (onReceiveProposal_keeps hR L.toUpdateLeaves
    (fun s bnew op => L.finish s ⟨s₃.id, h⟩ bnew op) s₃) fun _ s₄ _ _ => ?_
  exact Keeps.ok fun hI => ⟨hI, by
    simpa using hR.trans (L.quiet s₄ (.resolvePropose ⟨s₄.id, h⟩) hI trivial)
      (L.quiet s₄ (.doBroadcastProposal ⟨s₄.id, h⟩) hI trivial)⟩

include hR in
theorem exec_keeps {allowed : HotStuffCore → Op → Prop} (L : Leaves allowed I R)
    {s : HotStuffCore} {op : Op} (ha : allowed s op) (hc : op.ContentAddressed s) :
    Keeps I R s (exec s op) := by
  cases op with
  | fetch h ps qc orders ht => exact Keeps.ok (L.fetch s h ps qc orders ht)
  | deliver h => exact (L.deliver s h).discard
  | propose orders parents h => exact (onPropose_keeps hR L ha hc).discard
  | receiveProposal prop =>
    exact onReceiveProposal_keeps hR L.toUpdateLeaves (fun s => L.finish s prop) s
  | receiveVote vote => exact L.vote s vote
  | localOrder proposer order =>
    unfold exec onLocalOrder
    dsimp only
    refine Keeps.pre hR (L.storage s (s.storage.updateLocalOrderSeen order) (by simp)) ?_
    split_ifs
    · exact Keeps.self hR
    · exact Keeps.ok fun hI => ⟨hI, L.quiet _ (.doSendLocalOrder proposer ⟨s.id, order⟩) hI trivial⟩
  | receiveLocalOrder lo =>
    unfold exec onReceiveLocalOrder
    dsimp only
    split_ifs
    · exact (Keeps.pre hR (L.storage s _ (by simp)) (Keeps.self hR)).discard
    · exact (Keeps.pre hR (L.storage s _ (by simp)) (Keeps.self hR)).discard
  | fairPropose => exact Keeps.pre hR (L.storage s (fairPropose s.storage).2 (by simp)) (Keeps.self hR)
  | prune n => exact L.prune s n ha
  | asyncQcFinish h => exact (L.async s h).discard
  | setVoteDisabled f => exact Keeps.ok (L.disable s f)

end Structure

/-! ## 実行についての帰納法 -/

theorem Run.invariant {allowed : HotStuffCore → Op → Prop} {I : HotStuffCore → Prop}
    {R : HotStuffCore → List Output → HotStuffCore → Prop} {J : HotStuffCore → List Output → Prop}
    (hR : Chainable R) (L : Leaves allowed I R)
    (hinit : ∀ b0 id replicas nfaulty γ,
      I (HotStuffCore.init b0 id replicas nfaulty γ) ∧ J (HotStuffCore.init b0 id replicas nfaulty γ) [])
    (hJ : ∀ s out o s', I s → J s out → R s o s' → I s' → J s' (out ++ o))
    {s : HotStuffCore} {out : List Output} (hr : Run allowed s out) : I s ∧ J s out := by
  induction hr with
  | init b0 id replicas nfaulty γ => exact hinit b0 id replicas nfaulty γ
  | step _ ha hc hs ih =>
    obtain ⟨hI', hR'⟩ := exec_keeps hR L ha hc ih.1 _ hs
    exact ⟨hI', hJ _ _ _ _ ih.1 ih.2 hR' hI'⟩

end Alkane.Core
