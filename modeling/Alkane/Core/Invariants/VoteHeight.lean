import Alkane.Core.Invariants.Finality
import Alkane.Core.Invariants.Vote
import Alkane.Core.Invariants.Monotone

/-!
# 票の高さ

`prune` を呼ばず、自分の名の提案としては自分の表で配送済みのブロックだけを受け取るレプリカ
（`honestOp`）の実行では、出した票はどれも自分の名の、配送済みのブロックへのもので、出した順に
票のブロックの高さが真に増える（`votes_rise`）。票を出すのは `on_receive_proposal` の判断が真のとき
だけで、そのとき `vheight` をそれより高いブロックの高さに上げるから。とくに同じ高さの二つの
ブロックに投票することはない。放送する提案も、自分の名の、自分の表で配送済みのブロック。
-/

namespace Alkane.Core

open EntityStorage HotStuffCore

/-- 出力の列のうち `do_broadcast_proposal` の提案（出した順）。 -/
def broadcastLog (out : List Output) : List Proposal :=
  out.filterMap fun
    | .doBroadcastProposal p => some p
    | _ => none

@[simp] theorem broadcastLog_nil : broadcastLog [] = [] := rfl

@[simp] theorem broadcastLog_append (o₁ o₂ : List Output) :
    broadcastLog (o₁ ++ o₂) = broadcastLog o₁ ++ broadcastLog o₂ :=
  List.filterMap_append o₁ o₂ _

/-- 正直なレプリカに届く出来事：`prune` は呼ばれず、自分の名の提案は自分の表で配送済みのブロックの
ものだけ（自分の提案は `on_propose` の中で受け取る）。 -/
def honestOp (s : HotStuffCore) : Op → Prop
  | .prune _ => False
  | .receiveProposal prop => prop.proposer = s.id → s.isDelivered prop.blk = true
  | _ => True

instance (s : HotStuffCore) (op : Op) : Decidable (honestOp s op) := by
  cases op with
  | receiveProposal prop =>
    exact inferInstanceAs (Decidable (prop.proposer = s.id → s.isDelivered prop.blk = true))
  | _ => first | exact isTrue trivial | exact isFalse id

theorem honestOp.noPrune {s : HotStuffCore} {op : Op} (h : honestOp s op) : noPrune s op := by
  cases op <;> trivial

/-! ## 票も提案も出さない操作 -/

/-- 票も提案も出さない出力。 -/
def Mute (_ : HotStuffCore) (o : List Output) (_ : HotStuffCore) : Prop :=
  voteLog o = [] ∧ broadcastLog o = []

theorem Mute.chainable : Chainable Mute where
  refl _ := ⟨rfl, rfl⟩
  trans := fun ⟨h₁, h₂⟩ ⟨h₃, h₄⟩ => by simp [Mute, h₁, h₂, h₃, h₄]

theorem Mute.updateHqc (s : HotStuffCore) (h : BlockHash) (qc : QuorumCert) :
    Keeps (fun _ => True) Mute s (updateHqc s h qc) := fun _ _ _ => ⟨trivial, by
  unfold Alkane.Core.updateHqc
  split
  · split_ifs <;> exact ⟨rfl, rfl⟩
  · exact ⟨rfl, rfl⟩⟩

theorem Mute.onQcFinish (s : HotStuffCore) (h : BlockHash) (s' : HotStuffCore) :
    Mute s (onQcFinish s h).2 s' := by
  unfold Alkane.Core.onQcFinish
  split_ifs <;> exact ⟨rfl, rfl⟩

theorem Mute.commitLoop : ∀ (q : List BlockHash) (s : HotStuffCore),
    Keeps (fun _ => True) Mute s (commitLoop s q)
  | [], _ => Keeps.self Mute.chainable
  | bh :: rest, s => by
    unfold Alkane.Core.commitLoop
    split
    · exact Keeps.undefined
    split
    · exact Keeps.undefined
    split_ifs
    · exact Keeps.self Mute.chainable
    refine Keeps.andThen Mute.chainable (Keeps.ok fun _ => ⟨trivial, ?_⟩) fun _ s₁ _ _ =>
      Mute.commitLoop rest s₁
    simp [Mute, voteLog, broadcastLog, commitBlock, List.filterMap_map, Function.comp_def]

theorem Mute.updateLeaves : UpdateLeaves (fun _ => True) Mute where
  storage _ _ _ _ := ⟨trivial, rfl, rfl⟩
  updateHqc s _ _ h qc _ _ _ := Mute.updateHqc s h qc
  lockStep s h1 blk1 _ _ _ _ := ⟨trivial, by unfold Alkane.Core.lockStep; split <;> exact ⟨rfl, rfl⟩⟩
  commit s _ _ h0 _ _ _ _ := by
    unfold Alkane.Core.commit
    split
    · exact Keeps.undefined
    split
    · exact Keeps.undefined
    split_ifs
    · exact Keeps.error fun _ => ⟨trivial, rfl, rfl⟩
    · exact Mute.commitLoop _ s

theorem Mute.onReceiveVote (s : HotStuffCore) (vote : Vote) :
    Keeps (fun _ => True) Mute s (onReceiveVote s vote) := by
  unfold Alkane.Core.onReceiveVote
  split
  · exact Keeps.error fun _ => ⟨trivial, rfl, rfl⟩
  dsimp only
  split_ifs
  · exact Keeps.self Mute.chainable
  · exact Keeps.self Mute.chainable
  · refine Keeps.andThen Mute.chainable (Keeps.ok fun _ => ⟨trivial, ?_⟩) fun _ s₂ _ _ =>
      Keeps.andThen Mute.chainable (Mute.updateHqc s₂ _ _) fun _ s₃ _ _ =>
        Keeps.ok fun _ => ⟨trivial, Mute.onQcFinish s₃ _ _⟩
    exact ⟨rfl, rfl⟩
  · exact Keeps.ok fun _ => ⟨trivial, rfl, rfl⟩

theorem broadcastLog_finishProposal (s : HotStuffCore) (prop : Proposal) (bnew : Block) (op : Bool) :
    broadcastLog (finishProposal s prop bnew op).outputs = [] := by
  unfold finishProposal onQcFinish
  dsimp only
  split <;> split_ifs <;> rfl

/-- 票も提案も出さず、表の中身を残し、`vheight` を下げない一歩。 -/
def Holds (s : HotStuffCore) (o : List Output) (s' : HotStuffCore) : Prop :=
  Mute s o s' ∧ Retains s s' ∧ s.vheight ≤ s'.vheight

theorem Holds.refl (s : HotStuffCore) : Holds s [] s := ⟨⟨rfl, rfl⟩, .refl s, le_rfl⟩

theorem update_holds {s s₁ : HotStuffCore} {nh : BlockHash} (hw : Wf s)
    (hs : (update s nh).state? = some s₁) : Wf s₁ ∧ Holds s (update s nh).outputs s₁ :=
  have hr := update_keeps Replays.chainable Replays.leaves.toUpdateLeaves s nh hw s₁ hs
  ⟨hr.1, (update_keeps Mute.chainable Mute.updateLeaves s nh trivial s₁ hs).2, hr.2.1,
    (update_keeps Rises.chainable Rises.leaves.toUpdateLeaves s nh hw s₁ hs).2.1⟩

theorem Retains.isDelivered {s s' : HotStuffCore} (h : Retains s s') {k : BlockHash}
    (hk : s.isDelivered k = true) : s'.isDelivered k = true := by
  obtain ⟨b, hb, hd⟩ := (isDelivered_iff s k).mp hk
  obtain ⟨b', hb', -, hd'⟩ := h.2.2 k b hb
  exact (isDelivered_iff s' k).mpr ⟨b', hb', (hd' hd).1⟩

theorem Retains.kept {s s' : HotStuffCore} (h : Retains s s') {k : BlockHash} {b c : Block}
    (hb : s.findBlk k = some b) (hd : b.delivered) (hc : s'.findBlk k = some c) :
    c.delivered ∧ c.height = b.height := by
  obtain ⟨b', hb', -, hd'⟩ := h.2.2 k b hb
  rw [hc] at hb'
  cases hb'
  exact hd' hd

theorem isDelivered_of_onDeliverBlk {s s' : HotStuffCore} {h : BlockHash} {a : Bool} {o : List Output}
    (he : onDeliverBlk s h = .ok a s' o) : s'.isDelivered h = true := by
  unfold onDeliverBlk at he
  split at he
  · cases he
  rename_i blk hb
  dsimp only at he
  split_ifs at he with hd hlt
  · cases he; exact (isDelivered_iff s h).mpr ⟨blk, hb, hd⟩
  split at he
  · cases he
  split at he
  · cases he
  split at he
  · cases he; exact (isDelivered_iff _ h).mpr ⟨_, by simp [hb]; rfl, rfl⟩
  · split at he
    · cases he
    · cases he; exact (isDelivered_iff _ h).mpr ⟨_, by simp [hb]; rfl, rfl⟩

/-! ## 一歩の票と提案 -/

/-- 一歩の票と提案：票は高々一つで、処理の後に配送済みのブロックへの、処理の後の `id` の名の票。
その高さは処理の後の `vheight` で、前の `vheight` より高い。放送する提案は、処理の後の `id` の名の、
処理の後に配送済みのブロック。 -/
def Speaks (s : HotStuffCore) (o : List Output) (s' : HotStuffCore) : Prop :=
  (voteLog o = [] ∨ ∃ p h b, voteLog o = [(p, ⟨s'.id, h⟩)] ∧ s'.findBlk h = some b ∧ b.delivered ∧
      s.vheight < b.height ∧ s'.vheight = b.height) ∧
    ∀ prop ∈ broadcastLog o, prop.proposer = s'.id ∧ s'.isDelivered prop.blk = true

theorem Speaks.of_mute {s s' : HotStuffCore} {o : List Output} (h : Mute s o s') : Speaks s o s' :=
  ⟨.inl h.1, by simp [h.2]⟩

theorem Speaks.pre {s s₁ s' : HotStuffCore} {o₁ o₂ : List Output} (h₁ : Holds s o₁ s₁)
    (h₂ : Speaks s₁ o₂ s') : Speaks s (o₁ ++ o₂) s' := by
  obtain ⟨⟨hv, hb⟩, -, hle⟩ := h₁
  refine ⟨?_, by simpa [hb] using h₂.2⟩
  rw [voteLog_append, hv, List.nil_append]
  exact h₂.1.imp_right fun ⟨p, h, b, e, hf, hd, hlt, hv'⟩ => ⟨p, h, b, e, hf, hd, by omega, hv'⟩

theorem Speaks.andThen {α β : Type} {s s' : HotStuffCore} {r : Result α} {f : α → HotStuffCore → Result β}
    (hs : (r.andThen f).state? = some s')
    (hr : ∀ s₁, r.state? = some s₁ → Holds s r.outputs s₁)
    (hf : ∀ a s₁ o₁, r = .ok a s₁ o₁ → (f a s₁).state? = some s' → Speaks s₁ (f a s₁).outputs s') :
    Speaks s (r.andThen f).outputs s' := by
  rcases Result.state?_andThen hs with ⟨m, o, rfl⟩ | ⟨a, s₁, o₁, rfl, hs₁⟩
  · exact .of_mute (hr s' rfl).1
  · rw [Result.outputs_ok_andThen (by rw [hs]; rfl)]
    exact .pre (hr s₁ rfl) (hf a s₁ o₁ rfl hs₁)

theorem Speaks.broadcast {s s' : HotStuffCore} {o : List Output} {h : BlockHash} (hsp : Speaks s o s')
    (hd : s'.isDelivered h = true) :
    Speaks s (o ++ [.resolvePropose ⟨s'.id, h⟩, .doBroadcastProposal ⟨s'.id, h⟩]) s' := by
  refine ⟨?_, fun prop hp => ?_⟩
  · rw [voteLog_append, show voteLog [.resolvePropose ⟨s'.id, h⟩, .doBroadcastProposal ⟨s'.id, h⟩] = [] from rfl,
      List.append_nil]
    exact hsp.1
  rw [broadcastLog_append, List.mem_append] at hp
  rcases hp with hp | hp
  · exact hsp.2 prop hp
  · obtain rfl : prop = ⟨s'.id, h⟩ := by simpa [broadcastLog] using hp
    exact ⟨rfl, hd⟩

theorem Speaks.andThen_broadcast {s s' : HotStuffCore} {r : Result Unit} {h : BlockHash}
    (hs : (r.andThen fun _ t => Result.ok h t [.resolvePropose ⟨t.id, h⟩, .doBroadcastProposal ⟨t.id, h⟩]).state? =
      some s')
    (hr : ∀ t, r.state? = some t → Speaks s r.outputs t ∧ t.isDelivered h = true) :
    Speaks s (r.andThen fun _ t => Result.ok h t [.resolvePropose ⟨t.id, h⟩, .doBroadcastProposal ⟨t.id, h⟩]).outputs
      s' := by
  rcases Result.state?_andThen hs with ⟨m, o, rfl⟩ | ⟨_, t, o, rfl, hs'⟩
  · exact (hr s' rfl).1
  · cases hs'
    rw [Result.outputs_ok_andThen (by rw [hs]; rfl)]
    exact (hr _ rfl).1.broadcast (hr _ rfl).2

theorem finishProposal_speaks {s s' : HotStuffCore} {prop : Proposal} {bnew : Block} {op : Bool}
    (hb : s.findBlk prop.blk = some bnew) (hd : bnew.delivered) (hop : opinion s prop.blk bnew = some op)
    (hs : (finishProposal s prop bnew op).state? = some s') :
    Speaks s (finishProposal s prop bnew op).outputs s' := by
  obtain ⟨w, rfl, -⟩ := finishProposal_state hs
  refine ⟨?_, by simp [broadcastLog_finishProposal]⟩
  rw [voteLog_finishProposal]
  cases op
  · exact .inl rfl
  · cases hv : s.voteDisabled
    · exact .inr ⟨_, _, bnew, rfl, hb, hd, vheight_lt_of_opinion hop, rfl⟩
    · exact .inl rfl

theorem onReceiveProposal_speaks {s s' : HotStuffCore} {prop : Proposal} (hw : Wf s)
    (hself : prop.proposer = s.id → s.isDelivered prop.blk = true)
    (hs : (onReceiveProposal s prop).state? = some s') :
    Speaks s (onReceiveProposal s prop).outputs s' := by
  unfold onReceiveProposal at hs ⊢
  refine Speaks.andThen hs (fun s₁ h₁ => ?_) fun _ s₁ o₁ he hs₁ => ?_
  · split_ifs at h₁ ⊢
    · cases h₁; exact .refl s
    · exact (update_holds hw h₁).2
    · cases h₁; exact .refl s
  -- 前半が正常に返れば `prop.blk` は配送済み
  have hd₁ : s₁.isDelivered prop.blk = true := by
    split_ifs at he with e d
    · cases he; exact hself e
    · exact (update_holds hw (by rw [he]; rfl)).2.2.1.isDelivered d
  obtain ⟨bnew, hb, hd⟩ := (isDelivered_iff s₁ prop.blk).mp hd₁
  simp only [hb] at hs₁ ⊢
  cases hop : opinion s₁ prop.blk bnew with
  | none => simp [hop] at hs₁
  | some op =>
    simp only [hop] at hs₁ ⊢
    exact finishProposal_speaks hb hd hop hs₁

theorem onPropose_speaks {s s' : HotStuffCore} {orders : List (ReplicaID × List CmdHash)}
    {parents : List BlockHash} {h : BlockHash} (hw : Wf s) (hc : (Op.propose orders parents h).ContentAddressed s)
    (hs : (onPropose s orders parents h).state? = some s') :
    Speaks s (onPropose s orders parents h).outputs s' := by
  unfold onPropose at hs ⊢
  rcases parents with _ | ⟨p0, rest⟩
  · exact .of_mute ⟨rfl, rfl⟩
  dsimp only at hs ⊢
  cases hs₁ : createBlock s orders (p0 :: rest) p0 h with
  | none => simp [hs₁] at hs
  | some s₁ =>
  simp only [hs₁] at hs ⊢
  refine Speaks.andThen hs (fun s₂ h₂ => ⟨by rw [onDeliverBlk_outputs]; exact ⟨rfl, rfl⟩, Retains.create hs₁ h₂,
    (Rises.leaves.create s orders (p0 :: rest) p0 h s₁ trivial hc rfl hs₁ hw s₂ h₂).2.1⟩)
    fun _ s₂ o₂ he₂ hs₂ => ?_
  have hw₂ : Wf s₂ := hw.create hs₁ (by rw [he₂]; rfl)
  refine Speaks.andThen hs₂ (fun s₃ h₃ => (update_holds hw₂ h₃).2) fun _ s₃ o₃ he₃ hs₃ => ?_
  obtain ⟨hw₃, -, hret₃, -⟩ := update_holds hw₂ (by rw [he₃]; rfl)
  have hd₃ : s₃.isDelivered h = true := hret₃.isDelivered (isDelivered_of_onDeliverBlk he₂)
  obtain ⟨bnew, hb, -⟩ := (isDelivered_iff s₃ h).mp hd₃
  simp only [hb] at hs₃ ⊢
  split_ifs at hs₃ ⊢
  · exact .of_mute ⟨rfl, rfl⟩
  exact Speaks.andThen_broadcast hs₃ fun t ht =>
    ⟨onReceiveProposal_speaks hw₃ (fun _ => hd₃) ht, (onReceiveProposal_keeps Replays.chainable
      Replays.leaves.toUpdateLeaves (fun t bnew op => Replays.leaves.finish t _ bnew op) s₃ hw₃ t ht).2.1.isDelivered hd₃⟩

theorem exec_speaks {s s' : HotStuffCore} {op : Op} (hw : Wf s) (ha : honestOp s op)
    (hc : op.ContentAddressed s) (hs : (exec s op).state? = some s') : Speaks s (exec s op).outputs s' := by
  cases op with
  | propose orders parents h =>
    rw [exec, Result.outputs_discard]
    exact onPropose_speaks hw hc (by rwa [exec, Result.state?_discard] at hs)
  | receiveProposal prop => exact onReceiveProposal_speaks hw ha hs
  | receiveVote vote => exact .of_mute (Mute.onReceiveVote s vote trivial s' hs).2
  | prune n => exact ha.elim
  | deliver h => exact .of_mute (by rw [exec, Result.outputs_discard, onDeliverBlk_outputs]; exact ⟨rfl, rfl⟩)
  | localOrder proposer order =>
    refine .of_mute (show Mute s (onLocalOrder s proposer order).outputs s' from ?_)
    unfold onLocalOrder
    split_ifs <;> exact ⟨rfl, rfl⟩
  | receiveLocalOrder lo =>
    refine .of_mute (show Mute s (onReceiveLocalOrder s lo).discard.outputs s' from ?_)
    rw [Result.outputs_discard]
    unfold onReceiveLocalOrder
    dsimp only
    split_ifs <;> exact ⟨rfl, rfl⟩
  | asyncQcFinish h =>
    refine .of_mute ?_
    rw [exec, Result.outputs_discard]
    unfold asyncQcFinish
    split
    · exact ⟨rfl, rfl⟩
    · split_ifs <;> exact ⟨rfl, rfl⟩
  | fetch => exact .of_mute ⟨rfl, rfl⟩
  | fairPropose => exact .of_mute ⟨rfl, rfl⟩
  | setVoteDisabled => exact .of_mute ⟨rfl, rfl⟩

/-! ## 実行の票 -/

/-- 票の記録の不変条件：どの票も自分の名で、表の配送済みのブロックへのもので、その高さは
`vheight` 以下、出した順に高さが真に増える。放送した提案は自分の名の、配送済みのブロック。 -/
structure VotesRise (s : HotStuffCore) (out : List Output) : Prop where
  voter : ∀ v ∈ voteLog out, v.2.voter = s.id
  delivered : ∀ v ∈ voteLog out, ∃ b, s.findBlk v.2.blkHash = some b ∧ b.delivered ∧ b.height ≤ s.vheight
  rises : (voteLog out).Pairwise fun v w => ∀ b c, s.findBlk v.2.blkHash = some b →
    s.findBlk w.2.blkHash = some c → b.height < c.height
  proposals : ∀ p ∈ broadcastLog out, p.proposer = s.id ∧ s.isDelivered p.blk = true

theorem VotesRise.step {s s' : HotStuffCore} {out o : List Output} (h : VotesRise s out)
    (hr : Retains s s') (hv : s.vheight ≤ s'.vheight) (hsp : Speaks s o s') : VotesRise s' (out ++ o) := by
  -- 新しい票は高々一つで、前のどの票より高い
  have new : ∀ w ∈ voteLog o, w.2.voter = s'.id ∧ ∃ c, s'.findBlk w.2.blkHash = some c ∧ c.delivered ∧
      s.vheight < c.height ∧ c.height = s'.vheight := by
    rcases hsp.1 with e | ⟨p, k, c, e, hc, hd, hlt, hv'⟩
    · simp [e]
    · rw [e]
      rintro w (_ | ⟨_, ⟨⟩⟩)
      exact ⟨rfl, c, hc, hd, hlt, hv'.symm⟩
  refine ⟨fun v hv' => ?_, fun v hv' => ?_, ?_, fun p hp => ?_⟩
  · rcases List.mem_append.mp (by simpa using hv') with hv' | hv'
    · rw [h.voter v hv', hr.1]
    · exact (new v hv').1
  · rcases List.mem_append.mp (by simpa using hv') with hv' | hv'
    · -- 前の票のブロックは配送済みのまま、高さを変えずに残る
      obtain ⟨b₀, hb₀, hd₀, hle⟩ := h.delivered v hv'
      obtain ⟨b, hb, -, -⟩ := hr.2.2 _ b₀ hb₀
      obtain ⟨hd, he⟩ := hr.kept hb₀ hd₀ hb
      exact ⟨b, hb, hd, by omega⟩
    · obtain ⟨-, c, hc, hd, -, he⟩ := new v hv'
      exact ⟨c, hc, hd, he.le⟩
  · rw [voteLog_append, List.pairwise_append]
    refine ⟨h.rises.imp_of_mem fun {v w} hv' hw' hvw b c hb hc => ?_, ?_, fun v hv' w hw' b c hb hc => ?_⟩
    · obtain ⟨b₀, hb₀, hd₀, -⟩ := h.delivered v hv'
      obtain ⟨c₀, hc₀, hdc₀, -⟩ := h.delivered w hw'
      rw [(hr.kept hb₀ hd₀ hb).2, (hr.kept hc₀ hdc₀ hc).2]
      exact hvw b₀ c₀ hb₀ hc₀
    · rcases hsp.1 with e | ⟨p, k, c, e, -⟩ <;> rw [e] <;> simp
    · obtain ⟨b₀, hb₀, hd₀, hle⟩ := h.delivered v hv'
      obtain ⟨-, c', hc', -, hlt, -⟩ := new w hw'
      rw [hc] at hc'; cases hc'
      rw [(hr.kept hb₀ hd₀ hb).2]
      omega
  · rcases List.mem_append.mp (by simpa using hp) with hp | hp
    · obtain ⟨e, hd⟩ := h.proposals p hp
      exact ⟨e.trans hr.1.symm, hr.isDelivered hd⟩
    · exact hsp.2 p hp

theorem VotesRise.run {s : HotStuffCore} {out : List Output} (hr : Run honestOp s out) : VotesRise s out := by
  induction hr with
  | init => exact ⟨by simp, by simp, by simp, by simp⟩
  | step hr' ha hc hs ih =>
    have hw := hr'.wf
    exact ih.step (exec_keeps Replays.chainable Replays.leaves ha.noPrune hc hw _ hs).2.1
      (exec_keeps Rises.chainable Rises.leaves trivial hc hw _ hs).2.1 (exec_speaks hw ha hc hs)

/-! ## 投票の規則 -/

/-- 到達できる状態で、配送済みのブロック `bnew` の提案を受け取る。`update(bnew)` の後（自分の提案
なら受け取ったときの状態）の表のどの配送済みのブロックの高さも `2^32 - 1` でなければ、
`on_receive_proposal` が正常に返るとき、投票の判断はちょうど投票規則で、出す票は
`vote_disabled` でないときの `bnew` への票一つだけ、`vheight` は判断が真のときに限り
`bnew.height` になる（`vote_disabled` によらない）。そこで、`prune` を呼ばず自分の名の提案としては
配送済みのブロックだけを受け取る実行では、票のブロックの高さは出した順に真に増える。 -/
theorem onReceiveProposal_vote :
    (∀ {s s₁ s' : HotStuffCore} {prop : Proposal} {o₁ out : List Output} {bnew bl : Block},
      Reachable anyOp s →
      (prop.proposer = s.id ∧ s₁ = s ∧ o₁ = [] ∨
        prop.proposer ≠ s.id ∧ s.isDelivered prop.blk = true ∧ update s prop.blk = .ok () s₁ o₁) →
      s₁.findBlk prop.blk = some bnew → bnew.delivered = true → s₁.findBlk s₁.bLock = some bl → NoWrap s₁ →
      onReceiveProposal s prop = .ok () s' out →
      ∃ op : Bool, (op = true ↔ VoteRule s₁ prop.blk bnew bl) ∧
        voteLog out = (if op && !s₁.voteDisabled then [(prop.proposer, ⟨s₁.id, prop.blk⟩)] else []) ∧
        s'.vheight = if op then bnew.height else s₁.vheight) ∧
    ∀ {s : HotStuffCore} {out : List Output}, Run honestOp s out →
      (voteLog out).Pairwise fun v w => ∀ b c, s.findBlk v.2.blkHash = some b →
        s.findBlk w.2.blkHash = some c → b.height < c.height :=
  ⟨onReceiveProposal_opinion, fun hr => (VotesRise.run hr).rises⟩

theorem commitState_honest : Run honestOp commitState.1 commitState.2 :=
  @run_of_runOpsOut_getD honestOp _ 0 0 [0, 1, 2, 3] 1 0.5 commitRun (by decide) (by decide)

/-- ブロック `1` を配送してから投票を止める実行。 -/
def disabledRun : List Op := oneBlockRun ++ [.setVoteDisabled true]

/-- その実行の後の状態。 -/
def disabledState : HotStuffCore :=
  (runOps (HotStuffCore.init 0 0 [0, 1, 2, 3] 1 0.5) disabledRun).getD (HotStuffCore.init 0 0 [0, 1, 2, 3] 1 0.5)

/-- 投票を止めたレプリカが自分の名の提案 `1` を受け取る：判断は真で `vheight` を `2` に上げるが、
票は出さない。提案者 `3` の鎖の実行では、票のブロックの高さ `2, 3, 4, 5` が真に増える。 -/
theorem onReceiveProposal_vote_disabled :
    (∃ op : Bool, (op = true ↔ VoteRule disabledState 1
        ⟨[0], [0], some ⟨0, []⟩, some 0, none, [(0, [1])], 2, [], true, false⟩ (Block.genesis 0 [0, 1, 2, 3])) ∧
      voteLog [.resolveReceiveProposal ⟨0, 1⟩] =
        (if op && !disabledState.voteDisabled then [(0, ⟨disabledState.id, 1⟩)] else []) ∧
      ({ disabledState with vheight := 2 } : HotStuffCore).vheight = if op then 2 else disabledState.vheight) ∧
    voteLog commitState.2 = [(3, ⟨0, 1⟩), (3, ⟨0, 2⟩), (3, ⟨0, 3⟩), (3, ⟨0, 4⟩)] ∧
    (voteLog commitState.2).Pairwise fun v w => ∀ b c, commitState.1.findBlk v.2.blkHash = some b →
      commitState.1.findBlk w.2.blkHash = some c → b.height < c.height :=
  ⟨@onReceiveProposal_vote.1 disabledState disabledState { disabledState with vheight := 2 } ⟨0, 1⟩ []
      [.resolveReceiveProposal ⟨0, 1⟩] _ _ (reachable_of_runOps_getD disabledRun (by decide))
      (.inl ⟨rfl, rfl, rfl⟩) (by decide) rfl (by decide) (by decide) rfl,
    by decide, onReceiveProposal_vote.2 commitState_honest⟩

/-! ## 実行の票と提案 -/

/-- `prune` を呼ばず、自分の名の提案としては自分の表で配送済みのブロックだけを受け取るレプリカの
実行では、出した票はどれも自分の名で、表にある配送済みのブロックへのもので、その高さは `vheight`
以下、出した順に高さが真に増える：同じ高さの二つのブロックに投票することはない。放送する提案も、
自分の名の、表で配送済みのブロックのもの。 -/
theorem votes_rise {s : HotStuffCore} {out : List Output} (hr : Run honestOp s out) :
    (∀ v ∈ voteLog out, v.2.voter = s.id ∧
      ∃ b, s.findBlk v.2.blkHash = some b ∧ b.delivered ∧ b.height ≤ s.vheight) ∧
    (voteLog out).Pairwise (fun v w => ∀ b c, s.findBlk v.2.blkHash = some b →
      s.findBlk w.2.blkHash = some c → b.height < c.height) ∧
    ∀ p ∈ broadcastLog out, p.proposer = s.id ∧ s.isDelivered p.blk = true :=
  have h := VotesRise.run hr
  ⟨fun v hv => ⟨h.voter v hv, h.delivered v hv⟩, h.rises, h.proposals⟩

theorem votes_rise_commitRun :
    voteLog commitState.2 = [(3, ⟨0, 1⟩), (3, ⟨0, 2⟩), (3, ⟨0, 3⟩), (3, ⟨0, 4⟩)] ∧
    (∀ v ∈ voteLog commitState.2, v.2.voter = commitState.1.id ∧
      ∃ b, commitState.1.findBlk v.2.blkHash = some b ∧ b.delivered ∧ b.height ≤ commitState.1.vheight) ∧
    (voteLog commitState.2).Pairwise (fun v w => ∀ b c, commitState.1.findBlk v.2.blkHash = some b →
      commitState.1.findBlk w.2.blkHash = some c → b.height < c.height) ∧
    ∀ p ∈ broadcastLog commitState.2, p.proposer = commitState.1.id ∧ commitState.1.isDelivered p.blk = true :=
  ⟨by decide, votes_rise commitState_honest⟩

end Alkane.Core
