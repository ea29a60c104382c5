import Alkane.Core.Lemmas.Commit
import Alkane.Core.Invariants.Height

/-!
# 確定しない一歩

確定と `prune` のほかの書き換えは、表にあったブロックを残して `decision` を変えず、配送済みの
ブロックの高さと `parents` を変えず、新しく表に入るブロックは確定していない。`b_exec` と `b0` は
そのままで、`vheight` は下がらない（`Steady`）。ここでは各操作の末端の書き換えがそうであることと、
それらが `do_consensus` を呼ばないことを示す。
-/

namespace Alkane.Core

open EntityStorage HotStuffCore

/-- 確定しない一歩。 -/
structure Steady (s s' : HotStuffCore) : Prop where
  kept : ∀ k b, s.findBlk k = some b → ∃ b', s'.findBlk k = some b' ∧ b'.decision = b.decision ∧
    (b.delivered → b'.delivered ∧ b'.height = b.height ∧ b'.parents = b.parents)
  fresh : ∀ k b', s'.findBlk k = some b' → s.findBlk k = none → b'.decision = false
  bExec : s'.bExec = s.bExec
  b0 : s'.b0 = s.b0
  vheight : s.vheight ≤ s'.vheight

namespace Steady

variable {s s' s'' : HotStuffCore}

theorem settled (h : Steady s s') : Settled s.storage s'.storage := fun k b hb hd => by
  obtain ⟨b', hb', -, h'⟩ := h.kept k b hb
  exact ⟨b', hb', h' hd⟩

theorem refl (s : HotStuffCore) : Steady s s :=
  ⟨fun _ b hb => ⟨b, hb, rfl, fun hd => ⟨hd, rfl, rfl⟩⟩, fun _ _ hb hn => (by rw [hb] at hn; cases hn),
    rfl, rfl, le_rfl⟩

theorem trans (h₁ : Steady s s') (h₂ : Steady s' s'') : Steady s s'' := by
  refine ⟨fun k b hb => ?_, fun k b'' hb'' hn => ?_, h₂.bExec.trans h₁.bExec, h₂.b0.trans h₁.b0,
    h₁.vheight.trans h₂.vheight⟩
  · obtain ⟨b', hb', hd', hk'⟩ := h₁.kept k b hb
    obtain ⟨b'', hb'', hd'', hk''⟩ := h₂.kept k b' hb'
    refine ⟨b'', hb'', hd''.trans hd', fun hd => ?_⟩
    obtain ⟨hd₁, hh₁, hp₁⟩ := hk' hd
    obtain ⟨hd₂, hh₂, hp₂⟩ := hk'' hd₁
    exact ⟨hd₂, hh₂.trans hh₁, hp₂.trans hp₁⟩
  · cases hb' : s'.findBlk k with
    | none => exact h₂.fresh k b'' hb'' hb'
    | some b' =>
      obtain ⟨c, hc, hdc, -⟩ := h₂.kept k b' hb'
      rw [hb''] at hc; cases hc
      rw [hdc]; exact h₁.fresh k b' hb' hn

theorem of_findBlk_eq (hk : ∀ k, s'.findBlk k = s.findBlk k) (hb : s'.bExec = s.bExec) (h0 : s'.b0 = s.b0)
    (hv : s.vheight ≤ s'.vheight) : Steady s s' :=
  ⟨fun k b hkb => ⟨b, by rw [hk, hkb], rfl, fun hd => ⟨hd, rfl, rfl⟩⟩,
    fun k _ hkb hn => (by rw [hk, hn] at hkb; cases hkb), hb, h0, hv⟩

theorem setBlk {h : BlockHash} {b b' : Block} (hb : s.findBlk h = some b) (hd : b'.decision = b.decision)
    (hdel : b.delivered → b'.delivered ∧ b'.height = b.height ∧ b'.parents = b.parents) :
    Steady s (s.setBlk h b') := by
  refine ⟨fun k c hc => ?_, fun k c hc hn => ?_, rfl, rfl, le_rfl⟩
  · by_cases e : h = k
    · subst e; rw [hb] at hc; cases hc
      exact ⟨b', by simp [hb], hd, hdel⟩
    · exact ⟨c, by simp [e, hc], rfl, fun hd => ⟨hd, rfl, rfl⟩⟩
  · by_cases e : h = k
    · subst e; rw [hb] at hn; cases hn
    · simp [e, hn] at hc

theorem addBlk {h : BlockHash} {b : Block} (hd : b.decision = false) :
    Steady s { s with storage := s.storage.addBlk h b } := by
  refine ⟨fun k c hc => ⟨c, ?_, rfl, fun hd => ⟨hd, rfl, rfl⟩⟩, fun k c hc hn => ?_, rfl, rfl, le_rfl⟩
  · simp only [findBlk_mk, findBlk_addBlk, storage_findBlk]
    split_ifs with e
    · obtain ⟨hn, rfl⟩ := e; rw [hn] at hc; cases hc
    · exact hc
  · simp only [findBlk_mk, findBlk_addBlk, storage_findBlk, hn, true_and] at hc
    split_ifs at hc with e
    cases hc; exact hd

end Steady

/-! ## 各操作の末端 -/

section Leaves

variable {s s' : HotStuffCore}

theorem Steady.fetch (h : BlockHash) (ps : List BlockHash) (qc : Option QuorumCert)
    (orders : List (ReplicaID × List CmdHash)) (ht : Nat) :
    Steady s { s with storage := s.storage.addBlk h (Block.ofWire ps qc orders ht) } :=
  Steady.addBlk rfl

theorem Steady.deliver {h : BlockHash} (hs : (onDeliverBlk s h).state? = some s') : Steady s s' := by
  obtain ⟨blk, hb, ⟨-, rfl⟩ | ⟨hd, -, rfl⟩ | ⟨hd, -, -, -, -, -, -, rfl⟩ | ⟨hd, -, -, -, -, -, -, -, rfl⟩⟩ :=
    onDeliverBlk_state hs
  · exact Steady.refl _
  · exact Steady.setBlk hb rfl fun h' => absurd h' (by simp [hd])
  · exact Steady.setBlk hb rfl fun h' => absurd h' (by simp [hd])
  · refine Steady.trans ?_ (Steady.setBlk (by exact hb) (by rfl) fun h' => absurd h' (by simp [hd]))
    exact Steady.of_findBlk_eq (fun _ => rfl) rfl rfl le_rfl

theorem Steady.storage {st : EntityStorage} (hst : st.blkCache = s.storage.blkCache) :
    Steady s { s with storage := st } :=
  Steady.of_findBlk_eq (fun k => findBlk_of_blkCache hst k) rfl rfl le_rfl

theorem Steady.updateHqc {h : BlockHash} {qc : QuorumCert} (hs : (updateHqc s h qc).state? = some s') :
    Steady s s' := by
  unfold Alkane.Core.updateHqc at hs
  split at hs
  · split_ifs at hs <;> cases hs
    · exact Steady.of_findBlk_eq (fun _ => rfl) rfl rfl le_rfl
    · exact Steady.refl _
  · cases hs

theorem Steady.lockStep {h1 : BlockHash} {blk1 : Block} (hs : (lockStep s h1 blk1).state? = some s') :
    Steady s s' := by
  unfold Alkane.Core.lockStep at hs
  split at hs
  · cases hs
    split_ifs
    · exact Steady.of_findBlk_eq (fun _ => rfl) rfl rfl le_rfl
    · exact Steady.refl _
  · cases hs

theorem vheight_lt_of_opinion {bh : BlockHash} {bnew : Block} (h : opinion s bh bnew = some true) :
    s.vheight < bnew.height := by
  unfold opinion at h
  split_ifs at h with hv
  · exact hv
  · cases h

theorem Steady.finish {prop : Proposal} {bnew : Block} {op : Bool}
    (hop : opinion s prop.blk bnew = some op) (hs : (finishProposal s prop bnew op).state? = some s') :
    Steady s s' := by
  obtain ⟨w, rfl, -⟩ := finishProposal_state hs
  refine Steady.of_findBlk_eq (fun _ => rfl) rfl rfl ?_
  cases op
  · exact le_rfl
  · exact (vheight_lt_of_opinion hop).le

theorem Steady.recordVote {vote : Vote} {blk : Block} (hb : s.getDeliveredBlk vote.blkHash = some blk) :
    Steady s (recordVote s vote blk) :=
  Steady.setBlk (getDeliveredBlk_eq_some.mp hb).1 rfl fun hd => ⟨hd, rfl, rfl⟩

theorem Steady.qcFinish (h : BlockHash) : Steady s (onQcFinish s h).1 := by
  rw [onQcFinish_fst]
  exact Steady.of_findBlk_eq (fun _ => rfl) rfl rfl le_rfl

theorem Steady.async {h : BlockHash} (hs : (asyncQcFinish s h).state? = some s') : Steady s s' := by
  unfold Alkane.Core.asyncQcFinish at hs
  split at hs
  · cases hs
  · split_ifs at hs <;> cases hs
    · exact Steady.refl _
    · exact Steady.of_findBlk_eq (fun _ => rfl) rfl rfl le_rfl

theorem Steady.create {orders : List (ReplicaID × List CmdHash)} {parents : List BlockHash}
    {p0 h : BlockHash} {s₁ : HotStuffCore} (hc : createBlock s orders parents p0 h = some s₁)
    (hs : (onDeliverBlk s₁ h).state? = some s') : Steady s s' := by
  refine Steady.trans ?_ (Steady.deliver hs)
  have ht : Steady s { s with tails := s.tails.filter (· ∉ parents) } :=
    Steady.of_findBlk_eq (fun _ => rfl) rfl rfl le_rfl
  obtain ⟨pb, -, ⟨b, hb, rfl⟩ | ⟨hn, rfl⟩⟩ := createBlock_state hc
  · exact ht.trans (@Steady.setBlk _ h b _ hb rfl fun hd => ⟨hd, rfl, rfl⟩)
  · exact (ht.trans (Steady.addBlk rfl)).trans (@Steady.setBlk _ h (proposedBlock s orders parents pb.height) _
      (findBlk_addBlk_self hn) rfl fun hd => absurd hd (by simp [proposedBlock]))

theorem onDeliverBlk_outputs (s : HotStuffCore) (h : BlockHash) : (onDeliverBlk s h).outputs = [] := by
  unfold onDeliverBlk
  split
  · rfl
  dsimp only
  split_ifs
  · rfl
  · rfl
  split
  · rfl
  split
  · rfl
  split
  · rfl
  split <;> rfl

/-! ## `do_consensus` を呼ばない出力 -/

theorem consensusLog_updateHqc (s : HotStuffCore) (h : BlockHash) (qc : QuorumCert) :
    consensusLog (updateHqc s h qc).outputs = [] := by
  unfold updateHqc
  split
  · split_ifs <;> rfl
  · rfl

theorem consensusLog_lockStep (s : HotStuffCore) (h1 : BlockHash) (blk1 : Block) :
    consensusLog (lockStep s h1 blk1).outputs = [] := by
  unfold lockStep
  split <;> rfl

theorem consensusLog_onQcFinish (s : HotStuffCore) (h : BlockHash) :
    consensusLog (onQcFinish s h).2 = [] := by
  unfold onQcFinish
  split_ifs <;> rfl

theorem consensusLog_finishProposal (s : HotStuffCore) (prop : Proposal) (bnew : Block) (op : Bool) :
    consensusLog (finishProposal s prop bnew op).outputs = [] := by
  unfold finishProposal onQcFinish
  dsimp only
  split <;> split_ifs <;> rfl

theorem consensusLog_asyncQcFinish (s : HotStuffCore) (h : BlockHash) :
    consensusLog (asyncQcFinish s h).outputs = [] := by
  unfold asyncQcFinish
  split
  · rfl
  · split_ifs <;> rfl

theorem Output.Quiet.consensusLog {o : Output} (h : o.Quiet) : consensusLog [o] = [] := by
  cases o <;> first | rfl | cases h

end Leaves

/-! ## 末端の事実の組み立て -/

theorem Leaves.of_steady {allowed : HotStuffCore → Op → Prop} {I : HotStuffCore → Prop}
    {R : HotStuffCore → List Output → HotStuffCore → Prop} (hR : Chainable R) (hI : ∀ s, I s → Wf s)
    (hS : ∀ s o s', I s → Wf s' → Steady s s' → consensusLog o = [] → I s' ∧ R s o s')
    (hC : ∀ s h1 blk1 h0, s.findBlk h1 = some blk1 → blk1.parents.head? = some h0 →
      Keeps I R s (commit s h0))
    (hP : ∀ s n, allowed s (.prune n) → Keeps I R s (Alkane.Core.prune s n)) : Leaves allowed I R where
  storage s _ hst hs := hS s [] _ hs ((hI s hs).storage hst) (Steady.storage hst) rfl
  updateHqc s nh nblk h qc hn hr hq hs s' h' :=
    hS s _ s' hs ((Wf.leaves allowed).updateHqc s nh nblk h qc hn hr hq (hI s hs) s' h').1
      (Steady.updateHqc h') (consensusLog_updateHqc s h qc)
  lockStep s h1 blk1 hb hs s' h' :=
    hS s _ s' hs ((hI s hs).lockStep hb h') (Steady.lockStep h') (consensusLog_lockStep s h1 blk1)
  commit s h1 blk1 h0 hb _ hp _ := hC s h1 blk1 h0 hb hp
  fetch s h ps qc orders ht hs :=
    hS s [] _ hs ((hI s hs).fetch h ps qc orders ht) (Steady.fetch h ps qc orders ht) rfl
  deliver s h hs s' h' := hS s _ s' hs ((hI s hs).deliver h') (Steady.deliver h')
    (by rw [onDeliverBlk_outputs]; rfl)
  create s _ _ _ h _ _ _ _ hc hs s' h' := hS s _ s' hs ((hI s hs).create hc h') (Steady.create hc h')
    (by rw [onDeliverBlk_outputs]; rfl)
  finish s prop bnew op _ hop hs s' h' := hS s _ s' hs ((hI s hs).finishProposal h') (Steady.finish hop h')
    (consensusLog_finishProposal s prop bnew op)
  vote := onReceiveVote_keeps hR
    { record := fun s _ _ hb _ _ hs => hS s [] _ hs ((hI s hs).recordVote hb) (Steady.recordVote hb) rfl
      voteHqc := fun s h qc hb hs s' h' =>
        hS s _ s' hs (Wf.voteLeaves.voteHqc s h qc hb (hI s hs) s' h').1 (Steady.updateHqc h')
          (consensusLog_updateHqc s h qc)
      qcFinish := fun s h hs =>
        hS s _ _ hs ((hI s hs).qcFinish h) (Steady.qcFinish h) (consensusLog_onQcFinish s h) }
    fun s o hs ho => (hS s [o] s hs (hI s hs) (Steady.refl s) ho.consensusLog).2
  quiet s o hs ho := (hS s [o] s hs (hI s hs) (Steady.refl s) ho.consensusLog).2
  prune := hP
  async s h hs s' h' := hS s _ s' hs ((hI s hs).asyncQcFinish h') (Steady.async h')
    (consensusLog_asyncQcFinish s h)
  disable s f hs := hS s [] _ hs ((hI s hs).setVoteDisabled f) (Steady.of_findBlk_eq (fun _ => rfl) rfl rfl le_rfl) rfl

end Alkane.Core
