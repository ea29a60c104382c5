import Alkane.Core.Lemmas.Prune
import Alkane.Core.Lemmas.Commit
import Alkane.Core.Invariants.Height

/-!
# 票の数え上げ

`on_receive_vote(vote)` は、ブロックの `voted` が `nmajority` に届いておらず投票者が新しいときだけ
票を数え、`self_qc` に部分証明を一つ加える。`qc->compute()`、`update_hqc(blk, qc)`、
`on_qc_finish(blk)` を呼ぶのは、`voted` を `nmajority - 1` から `nmajority` にした呼び出しだけ。
到達できる状態では、`b0` のほかのブロックの `voted` は `nmajority` 以下（`VoteBound`）。
-/

namespace Alkane.Core

open EntityStorage HotStuffCore

/-- `self_qc` の部分証明の署名者（`self_qc` が無ければ空）。 -/
def qcParts (h : BlockHash) (b : Block) : List ReplicaID :=
  (b.selfQc.getD (createQuorumCert h)).parts

/-! ## 票の出どころ -/

/-- 出来事一つの前後で、表のブロックの票は元の同じブロックの票か空で、部分証明の署名者は元の
署名者の後ろの部分（`on_propose` が `self_qc` を作り直せば空）。`b0` と `config` は変わらない。 -/
def VotesFrom (s s' : HotStuffCore) : Prop :=
  s'.b0 = s.b0 ∧ s'.config = s.config ∧
    ∀ k b', s'.findBlk k = some b' → (b'.voted = [] ∧ qcParts k b' = []) ∨
      ∃ b, s.findBlk k = some b ∧ b'.voted = b.voted ∧ qcParts k b' <:+ qcParts k b

namespace VotesFrom

variable {s s' s'' : HotStuffCore}

theorem refl (s : HotStuffCore) : VotesFrom s s :=
  ⟨rfl, rfl, fun _ b hb => .inr ⟨b, hb, rfl, List.suffix_refl _⟩⟩

theorem trans (h₁ : VotesFrom s s') (h₂ : VotesFrom s' s'') : VotesFrom s s'' := by
  refine ⟨h₂.1.trans h₁.1, h₂.2.1.trans h₁.2.1, fun k b'' hb'' => ?_⟩
  rcases h₂.2.2 k b'' hb'' with e | ⟨b', hb', e, hp⟩
  · exact .inl e
  rcases h₁.2.2 k b' hb' with ⟨e', hp'⟩ | ⟨b, hb, e', hp'⟩
  · exact .inl ⟨e.trans e', List.suffix_nil.mp (hp'.symm ▸ hp)⟩
  · exact .inr ⟨b, hb, e.trans e', hp.trans hp'⟩

theorem of_findBlk_eq (hk : ∀ k, s'.findBlk k = s.findBlk k) (h0 : s'.b0 = s.b0)
    (hc : s'.config = s.config) : VotesFrom s s' :=
  ⟨h0, hc, fun k b' hb' => .inr ⟨b', by rw [← hk, hb'], rfl, List.suffix_refl _⟩⟩

theorem setBlk {h : BlockHash} {b b' : Block} (hb : s.findBlk h = some b) (hv : b'.voted = b.voted)
    (hp : qcParts h b' <:+ qcParts h b) : VotesFrom s (s.setBlk h b') := by
  refine ⟨rfl, rfl, fun k c hc => .inr ?_⟩
  by_cases e : h = k
  · subst e
    simp only [HotStuffCore.findBlk_setBlk, hb, if_true, Option.map_some', Option.some.injEq] at hc
    subst hc
    exact ⟨b, hb, hv, hp⟩
  · exact ⟨c, by simpa [e] using hc, rfl, List.suffix_refl _⟩

theorem addBlk {h : BlockHash} {b : Block} (hv : b.voted = []) (hp : qcParts h b = []) :
    VotesFrom s { s with storage := s.storage.addBlk h b } := by
  refine ⟨rfl, rfl, fun k c hc => ?_⟩
  simp only [findBlk_mk, findBlk_addBlk, storage_findBlk] at hc
  split_ifs at hc with e
  · obtain ⟨-, rfl⟩ := e
    cases hc
    exact .inl ⟨hv, hp⟩
  · exact .inr ⟨c, hc, rfl, List.suffix_refl _⟩

theorem tails (t : List BlockHash) : VotesFrom s { s with tails := t } :=
  of_findBlk_eq (fun _ => rfl) rfl rfl

theorem storage {st : EntityStorage} (hst : st.blkCache = s.storage.blkCache) :
    VotesFrom s { s with storage := st } :=
  of_findBlk_eq (fun k => findBlk_of_blkCache hst k) rfl rfl

theorem deliver {h : BlockHash} (hs : (onDeliverBlk s h).state? = some s') : VotesFrom s s' := by
  obtain ⟨blk, hb, ⟨-, rfl⟩ | ⟨-, -, rfl⟩ | ⟨-, -, -, -, -, -, -, rfl⟩ | ⟨-, -, -, -, -, -, -, -, rfl⟩⟩ :=
    onDeliverBlk_state hs
  · exact refl _
  · exact setBlk hb rfl (List.suffix_refl _)
  · exact setBlk hb rfl (List.suffix_refl _)
  · exact (tails _).trans (setBlk (by exact hb) (by rfl) (by exact List.suffix_refl _))

theorem create {orders : List (ReplicaID × List CmdHash)} {parents : List BlockHash} {p0 h : BlockHash}
    {s₁ : HotStuffCore} (hc : createBlock s orders parents p0 h = some s₁)
    (hs : (onDeliverBlk s₁ h).state? = some s') : VotesFrom s s' := by
  refine VotesFrom.trans ?_ (deliver hs)
  obtain ⟨pb, -, ⟨b, hb, rfl⟩ | ⟨hn, rfl⟩⟩ := createBlock_state hc
  · exact (tails _).trans (setBlk (by exact hb) (by rfl) (by exact List.nil_suffix))
  · exact ((tails _).trans (addBlk (by rfl) (by rfl))).trans
      (setBlk (by exact findBlk_addBlk_self hn) (by rfl) (by exact List.nil_suffix))

theorem commit (hw : Wf s) {h1 h0 : BlockHash} {blk1 : Block} (hb1 : s.findBlk h1 = some blk1)
    (hp : blk1.parents.head? = some h0) (hs : (commit s h0).state? = some s') : VotesFrom s s' := by
  obtain ⟨l, -, -, hf, hk⟩ := commit_effect hw hb1 hp hs
  have h0 := congrArg HotStuffCore.b0 hf
  have hc := congrArg HotStuffCore.config hf
  refine ⟨h0, hc, fun k b' hb' => .inr ?_⟩
  rw [hk] at hb'
  obtain ⟨b, hb, rfl⟩ := Option.map_eq_some'.mp hb'
  exact ⟨b, hb, by split_ifs <;> rfl, by split_ifs <;> exact List.suffix_refl _⟩

theorem updateHqc {h : BlockHash} {qc : QuorumCert} (hs : (updateHqc s h qc).state? = some s') :
    VotesFrom s s' := by
  unfold Alkane.Core.updateHqc at hs
  split at hs
  · split_ifs at hs <;> cases hs
    · exact of_findBlk_eq (fun _ => rfl) rfl rfl
    · exact refl s
  · cases hs

theorem lockStep {h1 : BlockHash} {blk1 : Block} (hs : (lockStep s h1 blk1).state? = some s') :
    VotesFrom s s' := by
  unfold Alkane.Core.lockStep at hs
  split at hs
  · cases hs
    split_ifs
    · exact of_findBlk_eq (fun _ => rfl) rfl rfl
    · exact refl s
  · cases hs

theorem finish {prop : Proposal} {bnew : Block} {op : Bool}
    (hs : (finishProposal s prop bnew op).state? = some s') : VotesFrom s s' := by
  obtain ⟨w, rfl, -⟩ := finishProposal_state hs
  exact of_findBlk_eq (fun _ => rfl) rfl rfl

theorem async {h : BlockHash} (hs : (asyncQcFinish s h).state? = some s') : VotesFrom s s' := by
  unfold Alkane.Core.asyncQcFinish at hs
  split at hs
  · cases hs
  · split_ifs at hs <;> cases hs
    · exact refl s
    · exact of_findBlk_eq (fun _ => rfl) rfl rfl

theorem prune {n : Nat} (hs : (prune s n).state? = some s') : VotesFrom s s' := by
  obtain ⟨hf, hk⟩ := Strips.prune hs
  have h0 := congrArg HotStuffCore.b0 hf
  have hc := congrArg HotStuffCore.config hf
  refine ⟨h0, hc, fun k b' hb' => .inr ?_⟩
  obtain ⟨b, hb, ps, q, rfl⟩ := hk k b' hb'
  exact ⟨b, hb, rfl, List.suffix_refl _⟩

end VotesFrom

/-! ## 票の上限 -/

/-- 票の不変条件：`voted` に重複がなく、`b0` のほかのブロックでは `nmajority` 以下で、`self_qc` の
署名者は `voted` の後ろの部分。 -/
def VoteBound (s : HotStuffCore) : Prop :=
  ∀ k b, s.findBlk k = some b →
    b.voted.Nodup ∧ (k ≠ s.b0 → b.voted.length ≤ s.config.nmajority) ∧ qcParts k b <:+ b.voted

namespace VoteBound

variable {s s' : HotStuffCore}

theorem of_votesFrom (h : VoteBound s) (hf : VotesFrom s s') : VoteBound s' := by
  intro k b' hb'
  rw [hf.1, hf.2.1]
  rcases hf.2.2 k b' hb' with ⟨e, hp⟩ | ⟨b, hb, e, hp⟩
  · rw [e, hp]
    exact ⟨List.nodup_nil, fun _ => Nat.zero_le _, List.suffix_refl _⟩
  · obtain ⟨hn, hle, hs⟩ := h k b hb
    rw [e]
    exact ⟨hn, hle, hp.trans hs⟩

theorem record (h : VoteBound s) {vote : Vote} {blk : Block} (hb : s.getDeliveredBlk vote.blkHash = some blk)
    (hmem : vote.voter ∉ blk.voted) (hlt : blk.voted.length < s.config.nmajority) :
    VoteBound (recordVote s vote blk) := by
  have hf := (getDeliveredBlk_eq_some.mp hb).1
  intro k b' hb'
  rw [recordVote_findBlk] at hb'
  split_ifs at hb' with e
  · subst e
    rw [hf] at hb'
    cases hb'
    obtain ⟨hn, -, ⟨t, ht⟩⟩ := h _ blk hf
    exact ⟨List.nodup_append.2 ⟨hn, List.nodup_singleton _, by simpa using hmem⟩,
      fun _ => by simp only [List.length_append, List.length_singleton]; exact hlt,
      ⟨t, show t ++ (qcParts _ blk ++ [vote.voter]) = blk.voted ++ [vote.voter] by rw [← List.append_assoc, ht]⟩⟩
  · exact h k b' hb'

theorem voteLeaves : VoteLeaves VoteBound fun _ _ _ => True where
  record _ _ _ hb hmem hlt h := ⟨h.record hb hmem hlt, trivial⟩
  voteHqc _ _ _ _ h _ hs := ⟨h.of_votesFrom (VotesFrom.updateHqc hs), trivial⟩
  qcFinish s q h := ⟨h.of_votesFrom (by rw [onQcFinish_fst]; exact VotesFrom.of_findBlk_eq (fun _ => rfl) rfl rfl),
    trivial⟩

theorem leaves : Leaves anyOp (fun s => Wf s ∧ VoteBound s) fun _ _ _ => True where
  storage _ _ hst h := ⟨⟨h.1.storage hst, h.2.of_votesFrom (VotesFrom.storage hst)⟩, trivial⟩
  updateHqc s nh nblk h' qc hn hr hq h s' hs :=
    ⟨⟨((Wf.leaves anyOp).updateHqc s nh nblk h' qc hn hr hq h.1 s' hs).1,
      h.2.of_votesFrom (VotesFrom.updateHqc hs)⟩, trivial⟩
  lockStep _ _ _ hb h _ hs := ⟨⟨h.1.lockStep hb hs, h.2.of_votesFrom (VotesFrom.lockStep hs)⟩, trivial⟩
  commit _ _ _ _ hb _ hp _ h _ hs :=
    ⟨⟨h.1.commit hb hp hs, h.2.of_votesFrom (VotesFrom.commit h.1 hb hp hs)⟩, trivial⟩
  fetch _ h' ps qc orders ht h :=
    ⟨⟨h.1.fetch h' ps qc orders ht, h.2.of_votesFrom (VotesFrom.addBlk (by rfl) (by rfl))⟩, trivial⟩
  deliver _ _ h _ hs := ⟨⟨h.1.deliver hs, h.2.of_votesFrom (VotesFrom.deliver hs)⟩, trivial⟩
  create _ _ _ _ _ _ _ _ _ hc h _ hs :=
    ⟨⟨h.1.create hc hs, h.2.of_votesFrom (VotesFrom.create hc hs)⟩, trivial⟩
  finish _ _ _ _ _ _ h _ hs :=
    ⟨⟨h.1.finishProposal hs, h.2.of_votesFrom (VotesFrom.finish hs)⟩, trivial⟩
  vote s v h s' hs :=
    ⟨⟨((Wf.leaves anyOp).vote s v h.1 s' hs).1,
      (onReceiveVote_keeps chainable_true voteLeaves (fun _ _ _ _ => trivial) s v h.2 s' hs).1⟩, trivial⟩
  quiet _ _ _ _ := trivial
  prune _ _ _ h _ hs := ⟨⟨h.1.prune hs, h.2.of_votesFrom (VotesFrom.prune hs)⟩, trivial⟩
  async _ _ h _ hs := ⟨⟨h.1.asyncQcFinish hs, h.2.of_votesFrom (VotesFrom.async hs)⟩, trivial⟩
  disable _ f h :=
    ⟨⟨h.1.setVoteDisabled f, h.2.of_votesFrom (VotesFrom.of_findBlk_eq (fun _ => rfl) rfl rfl)⟩, trivial⟩

theorem init (b0 : BlockHash) (id : ReplicaID) (replicas : List ReplicaID) (nfaulty : Nat) (γ : Float) :
    VoteBound (HotStuffCore.init b0 id replicas nfaulty γ) := by
  intro k b hb
  simp only [HotStuffCore.init, findBlk_mk, EntityStorage.findBlk, lookupBlk_cons, lookupBlk_nil] at hb
  split_ifs at hb with e
  cases hb
  exact ⟨List.nodup_dedup _, fun h => absurd e.symm h, List.nil_suffix⟩

end VoteBound

/-! ## 一回の呼び出し -/

theorem Reachable.onReceiveVote {s s' : HotStuffCore} (hs : Reachable anyOp s) {vote : Vote} {o : List Output}
    (he : onReceiveVote s vote = .ok () s' o) : Reachable anyOp s' := by
  obtain ⟨out, hr⟩ := hs
  exact ⟨_, @Run.step anyOp s out (.receiveVote vote) s' hr trivial trivial (by rw [exec, he]; rfl)⟩

/-! ## 票の列 -/

end Alkane.Core
