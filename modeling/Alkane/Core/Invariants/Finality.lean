import Alkane.Core.Fair.Leader
import Alkane.Core.Fair.Finalize
import Alkane.Core.Invariants.Decided

/-!
# `do_decide` の列

`prune` の無い実行では、`do_decide` に渡した確定の列は、`do_consensus` に渡したブロックを順に
開いたもの（`blockDecisions`）：ブロックの局所順序の `fair_finalize` の並びの `i` 番目のコマンドに、
番号 `i`、ブロックの高さとハッシュを付けたもの。票や提案の出力が間に入っても、確定の列は確定した
ブロックの列と、最後の状態でのその中身だけで決まる。

確定したブロックの局所順序と高さは後の出来事で変わらない（`Retains`）。`do_consensus` の列に重複は
なく（`Decided`）、`fair_finalize` の並びにも重複はないので、同じブロックで同じコマンドを二度
確定することはない（別のブロックでは起こる：`Fair/Leader`）。
-/

namespace Alkane.Core

open EntityStorage HotStuffCore

open scoped List

/-! ## 確定したブロックの中身 -/

/-- 確定したブロック `bh` が `do_decide` に渡す確定：`fair_finalize` の並びの `i` 番目のコマンドに、
番号 `i`（`uint32_t`）、ブロックの高さとハッシュを付けたもの（`update` の確定のループ）。 -/
def blockDecisions (s : HotStuffCore) (bh : BlockHash) : List Finality :=
  match s.findBlk bh with
  | none => []
  | some b =>
    match fairFinalize s.config.fairnessParameter b.orders with
    | none => []
    | some order => order.enum.map fun p => ⟨s.id, 1, p.1 % u32, b.height, p.2, bh⟩

theorem blockDecisions_congr {s s' : HotStuffCore} {bh : BlockHash} {b b' : Block}
    (hid : s'.id = s.id) (hc : s'.config = s.config) (hb : s.findBlk bh = some b)
    (hb' : s'.findBlk bh = some b') (ho : b'.orders = b.orders) (hh : b'.height = b.height) :
    blockDecisions s' bh = blockDecisions s bh := by
  simp only [blockDecisions, hb, hb', ho, hh, hc, hid]

theorem decisions_commitBlock (s : HotStuffCore) (bh : BlockHash) (blk : Block) (order : List CmdHash) :
    decisions (commitBlock s bh blk order).2 =
      order.enum.map fun p => ⟨s.id, 1, p.1 % u32, blk.height, p.2, bh⟩ := by
  simp only [commitBlock, decisions, List.filterMap_cons, List.filterMap_map, Function.comp_def]
  exact congrFun (List.filterMap_eq_map _) _

/-! ## 確定しない出力 -/

theorem decisions_updateHqc (s : HotStuffCore) (h : BlockHash) (qc : QuorumCert) :
    decisions (updateHqc s h qc).outputs = [] := by
  unfold updateHqc
  split
  · split_ifs <;> rfl
  · rfl

theorem decisions_lockStep (s : HotStuffCore) (h1 : BlockHash) (blk1 : Block) :
    decisions (lockStep s h1 blk1).outputs = [] := by
  unfold lockStep
  split <;> rfl

theorem decisions_onQcFinish (s : HotStuffCore) (h : BlockHash) : decisions (onQcFinish s h).2 = [] := by
  unfold onQcFinish
  split_ifs <;> rfl

theorem decisions_finishProposal (s : HotStuffCore) (prop : Proposal) (bnew : Block) (op : Bool) :
    decisions (finishProposal s prop bnew op).outputs = [] := by
  unfold finishProposal onQcFinish
  dsimp only
  split <;> split_ifs <;> rfl

theorem decisions_asyncQcFinish (s : HotStuffCore) (h : BlockHash) :
    decisions (asyncQcFinish s h).outputs = [] := by
  unfold asyncQcFinish
  split
  · rfl
  · split_ifs <;> rfl

/-! ## 残る中身 -/

/-- 出来事一つの前後で、`id` と `config` は変わらず、表のブロックは残って局所順序を変えず、
配送済みなら配送済みのまま高さを変えない。 -/
def Retains (s s' : HotStuffCore) : Prop :=
  s'.id = s.id ∧ s'.config = s.config ∧
    ∀ k b, s.findBlk k = some b → ∃ b', s'.findBlk k = some b' ∧ b'.orders = b.orders ∧
      (b.delivered → b'.delivered ∧ b'.height = b.height)

namespace Retains

variable {s s' s'' : HotStuffCore}

theorem refl (s : HotStuffCore) : Retains s s := ⟨rfl, rfl, fun _ b hb => ⟨b, hb, rfl, fun hd => ⟨hd, rfl⟩⟩⟩

theorem trans (h₁ : Retains s s') (h₂ : Retains s' s'') : Retains s s'' := by
  refine ⟨h₂.1.trans h₁.1, h₂.2.1.trans h₁.2.1, fun k b hb => ?_⟩
  obtain ⟨b', hb', ho', hd'⟩ := h₁.2.2 k b hb
  obtain ⟨b'', hb'', ho'', hd''⟩ := h₂.2.2 k b' hb'
  refine ⟨b'', hb'', ho''.trans ho', fun hd => ?_⟩
  obtain ⟨hd₁, hh₁⟩ := hd' hd
  obtain ⟨hd₂, hh₂⟩ := hd'' hd₁
  exact ⟨hd₂, hh₂.trans hh₁⟩

theorem of_findBlk_eq (hk : ∀ k, s'.findBlk k = s.findBlk k) (hid : s'.id = s.id)
    (hc : s'.config = s.config) : Retains s s' :=
  ⟨hid, hc, fun k b hb => ⟨b, by rw [hk, hb], rfl, fun hd => ⟨hd, rfl⟩⟩⟩

theorem setBlk {h : BlockHash} {b b' : Block} (hb : s.findBlk h = some b) (ho : b'.orders = b.orders)
    (hd : b.delivered → b'.delivered ∧ b'.height = b.height) : Retains s (s.setBlk h b') := by
  refine ⟨rfl, rfl, fun k c hc => ?_⟩
  by_cases e : h = k
  · subst e; rw [hb] at hc; cases hc
    exact ⟨b', by simp [hb], ho, hd⟩
  · exact ⟨c, by simp [e, hc], rfl, fun hd => ⟨hd, rfl⟩⟩

theorem addBlk {h : BlockHash} {b : Block} : Retains s { s with storage := s.storage.addBlk h b } := by
  refine ⟨rfl, rfl, fun k c hc => ⟨c, ?_, rfl, fun hd => ⟨hd, rfl⟩⟩⟩
  simp only [findBlk_mk, findBlk_addBlk, storage_findBlk]
  split_ifs with e
  · obtain ⟨hn, rfl⟩ := e; rw [hn] at hc; cases hc
  · exact hc

theorem storage {st : EntityStorage} (hst : st.blkCache = s.storage.blkCache) :
    Retains s { s with storage := st } :=
  of_findBlk_eq (fun k => findBlk_of_blkCache hst k) rfl rfl

theorem deliver {h : BlockHash} (hs : (onDeliverBlk s h).state? = some s') : Retains s s' := by
  obtain ⟨blk, hb, ⟨-, rfl⟩ | ⟨hd, -, rfl⟩ | ⟨hd, -, -, -, -, -, -, rfl⟩ | ⟨hd, -, -, -, -, -, -, -, rfl⟩⟩ :=
    onDeliverBlk_state hs
  · exact refl _
  · exact setBlk hb rfl fun h' => absurd h' (by simp [hd])
  · exact setBlk hb rfl fun h' => absurd h' (by simp [hd])
  · exact (of_findBlk_eq (fun _ => rfl) rfl rfl).trans
      (setBlk (by exact hb) (by rfl) fun h' => absurd h' (by simp [hd]))

theorem create {orders : List (ReplicaID × List CmdHash)} {parents : List BlockHash} {p0 h : BlockHash}
    {s₁ : HotStuffCore} (hc : createBlock s orders parents p0 h = some s₁)
    (hs : (onDeliverBlk s₁ h).state? = some s') : Retains s s' := by
  refine Retains.trans ?_ (deliver hs)
  have ht : Retains s { s with tails := s.tails.filter (· ∉ parents) } := of_findBlk_eq (fun _ => rfl) rfl rfl
  obtain ⟨pb, -, ⟨b, hb, rfl⟩ | ⟨hn, rfl⟩⟩ := createBlock_state hc
  · exact ht.trans (@setBlk _ h b _ hb rfl fun hd => ⟨hd, rfl⟩)
  · exact (ht.trans addBlk).trans (setBlk (findBlk_addBlk_self hn) rfl fun hd => ⟨hd, rfl⟩)

theorem updateHqc {h : BlockHash} {qc : QuorumCert} (hs : (updateHqc s h qc).state? = some s') :
    Retains s s' := by
  unfold Alkane.Core.updateHqc at hs
  split at hs
  · split_ifs at hs <;> cases hs
    · exact of_findBlk_eq (fun _ => rfl) rfl rfl
    · exact refl s
  · cases hs

theorem lockStep {h1 : BlockHash} {blk1 : Block} (hs : (lockStep s h1 blk1).state? = some s') :
    Retains s s' := by
  unfold Alkane.Core.lockStep at hs
  split at hs
  · cases hs
    split_ifs
    · exact of_findBlk_eq (fun _ => rfl) rfl rfl
    · exact refl s
  · cases hs

theorem finish {prop : Proposal} {bnew : Block} {op : Bool}
    (hs : (finishProposal s prop bnew op).state? = some s') : Retains s s' := by
  obtain ⟨w, rfl, -⟩ := finishProposal_state hs
  exact of_findBlk_eq (fun _ => rfl) rfl rfl

theorem recordVote {vote : Vote} {blk : Block} (hb : s.getDeliveredBlk vote.blkHash = some blk) :
    Retains s (recordVote s vote blk) :=
  setBlk (getDeliveredBlk_eq_some.mp hb).1 rfl fun hd => ⟨hd, rfl⟩

theorem qcFinish (h : BlockHash) : Retains s (onQcFinish s h).1 := by
  rw [onQcFinish_fst]
  exact of_findBlk_eq (fun _ => rfl) rfl rfl

theorem async {h : BlockHash} (hs : (asyncQcFinish s h).state? = some s') : Retains s s' := by
  unfold Alkane.Core.asyncQcFinish at hs
  split at hs
  · cases hs
  · split_ifs at hs <;> cases hs
    · exact refl s
    · exact of_findBlk_eq (fun _ => rfl) rfl rfl

theorem commit (hw : Wf s) {h1 h0 : BlockHash} {blk1 : Block} (hb1 : s.findBlk h1 = some blk1)
    (hp : blk1.parents.head? = some h0) (hs : (commit s h0).state? = some s') : Retains s s' := by
  obtain ⟨l, -, -, hf, hk⟩ := commit_effect hw hb1 hp hs
  have hid := congrArg HotStuffCore.id hf
  have hc := congrArg HotStuffCore.config hf
  refine ⟨hid, hc, fun k b hb => ?_⟩
  rw [hk, hb]
  exact ⟨_, rfl, by split_ifs <;> rfl, fun hd => by split_ifs <;> exact ⟨hd, rfl⟩⟩

theorem commitBlock {bh : BlockHash} {blk : Block} (hb : s.findBlk bh = some blk) (order : List CmdHash) :
    Retains s (Alkane.Core.commitBlock s bh blk order).1 := by
  have hk : ∀ k, (Alkane.Core.commitBlock s bh blk order).1.findBlk k =
      (s.setBlk bh { blk with decision := true }).findBlk k :=
    fun k => findBlk_of_blkCache (EntityStorage.removeCommitted_blkCache _ _) k
  have h := @setBlk s bh blk { blk with decision := true } hb rfl fun hd => ⟨hd, rfl⟩
  exact ⟨rfl, rfl, fun k c hc => by rw [hk]; exact h.2.2 k c hc⟩

end Retains

/-! ## 確定の記録を開く -/

/-- 確定のループが開くブロック：表にあって配送済みで、`fair_finalize` が空でない並びを返す（空の並びなら
局所順序の表が空でない限り `break`、空の表なら未定義動作）。 -/
def Committable (s : HotStuffCore) (bh : BlockHash) : Prop :=
  ∃ b, s.findBlk bh = some b ∧ b.delivered ∧
    ∃ order, fairFinalize s.config.fairnessParameter b.orders = some order ∧ order ≠ []

theorem Committable.delivered {s : HotStuffCore} {bh : BlockHash} (h : Committable s bh) :
    ∃ b, s.findBlk bh = some b ∧ b.delivered :=
  let ⟨b, hb, hd, _⟩ := h
  ⟨b, hb, hd⟩

/-- 出来事一つの前後：中身は残り（`Retains`）、`do_consensus` に渡したブロックは配送済みで、
`do_decide` に渡した確定はそれらを順に `blockDecisions` で開いたもの。 -/
def Replays (s : HotStuffCore) (o : List Output) (s' : HotStuffCore) : Prop :=
  Retains s s' ∧ (∀ bh ∈ consensusLog o, Committable s' bh) ∧
    decisions o = (consensusLog o).flatMap (blockDecisions s')

theorem Retains.blockDecisions {s s' : HotStuffCore} (h : Retains s s') {bh : BlockHash}
    (hd : ∃ b, s.findBlk bh = some b ∧ b.delivered) :
    (∃ b, s'.findBlk bh = some b ∧ b.delivered) ∧ blockDecisions s' bh = blockDecisions s bh := by
  obtain ⟨b, hb, hbd⟩ := hd
  obtain ⟨b', hb', ho, hd'⟩ := h.2.2 bh b hb
  exact ⟨⟨b', hb', (hd' hbd).1⟩, blockDecisions_congr h.1 h.2.1 hb hb' ho (hd' hbd).2⟩

theorem Retains.committable {s s' : HotStuffCore} (h : Retains s s') {bh : BlockHash}
    (hc : Committable s bh) : Committable s' bh := by
  obtain ⟨b, hb, hd, order, hf, hne⟩ := hc
  obtain ⟨b', hb', ho, hd'⟩ := h.2.2 bh b hb
  exact ⟨b', hb', (hd' hd).1, order, by rw [h.2.1, ho]; exact hf, hne⟩

theorem Replays.chainable : Chainable Replays where
  refl s := ⟨Retains.refl s, by simp, rfl⟩
  trans := fun ⟨hr₁, hd₁, he₁⟩ ⟨hr₂, hd₂, he₂⟩ => by
    refine ⟨hr₁.trans hr₂, fun bh hbh => ?_, ?_⟩
    · rcases List.mem_append.mp (by simpa using hbh) with h | h
      · exact hr₂.committable (hd₁ bh h)
      · exact hd₂ bh h
    · rw [decisions_append, consensusLog_append, List.flatMap_append, he₁, he₂]
      congr 1
      exact List.flatMap_congr fun bh hbh => (hr₂.blockDecisions (hd₁ bh hbh).delivered).2.symm

theorem Replays.quiet {s s' : HotStuffCore} {o : List Output} (h : Retains s s') (hc : consensusLog o = [])
    (hd : decisions o = []) : Replays s o s' :=
  ⟨h, by simp [hc], by rw [hc, hd]; rfl⟩

theorem Replays.commitLoop : ∀ (q : List BlockHash) {s : HotStuffCore},
    (∀ bh ∈ q, ∃ b, s.findBlk bh = some b ∧ b.delivered) →
    Keeps (fun _ => True) Replays s (commitLoop s q)
  | [], _, _ => Keeps.self Replays.chainable
  | bh :: rest, s, hq => by
    unfold Alkane.Core.commitLoop
    split
    · exact Keeps.undefined
    rename_i blk hb
    split
    · exact Keeps.undefined
    rename_i order hf
    split_ifs with hbrk
    · exact Keeps.self Replays.chainable
    -- `break` しなければ並びは空でない：空の局所順序の表に `fair_finalize` は並びを返さない
    have hne : order ≠ [] := by
      rintro rfl
      rw [not_not.mp fun h => hbrk ⟨rfl, h⟩] at hf
      exact Option.noConfusion hf
    have hr := Retains.commitBlock hb order
    obtain ⟨b', hb', hbd⟩ := hq bh (.head _)
    rw [hb] at hb'; cases hb'
    refine Keeps.andThen Replays.chainable (Keeps.ok fun _ => ⟨trivial, hr, ?_, ?_⟩) fun _ s₁ _ he =>
      Replays.commitLoop rest fun k hk => ?_
    · intro k hk
      rw [consensusLog_commitBlock, List.mem_singleton] at hk
      subst hk
      exact hr.committable ⟨blk, hb, hbd, order, hf, hne⟩
    · rw [consensusLog_commitBlock, List.flatMap_singleton, decisions_commitBlock,
        (hr.blockDecisions ⟨blk, hb, hbd⟩).2]
      simp [blockDecisions, hb, hf]
    · cases he
      exact (hr.blockDecisions (hq k (.tail _ hk))).1

theorem Ascent.delivered {st : EntityStorage} {x z : BlockHash} {l : List BlockHash} (h : Ascent st x l z) :
    ∀ w ∈ l, ∃ b, st.findBlk w = some b ∧ b.delivered := by
  induction h with
  | nil => simp
  | cons _ _ hy hyd _ _ _ ih =>
    rintro w (_ | ⟨_, hw⟩)
    · exact ⟨_, hy, hyd⟩
    · exact ih w hw

theorem Replays.commit {s : HotStuffCore} (hw : Wf s) {h0 : BlockHash}
    (hh : ∃ b, s.findBlk h0 = some b ∧ b.delivered) : Keeps (fun _ => True) Replays s (commit s h0) := by
  unfold Alkane.Core.commit
  split
  · exact Keeps.undefined
  split
  · exact Keeps.undefined
  rename_i b queue hwalk
  split_ifs
  · exact Keeps.error fun _ => ⟨trivial, Replays.chainable.refl s⟩
  exact Replays.commitLoop _ ((walkFrom_path hwalk).ascent hw.blocks hh).delivered

theorem Output.Quiet.decisions {o : Output} (h : o.Quiet) : decisions [o] = [] := by
  cases o <;> first | rfl | cases h

theorem Replays.leaves : Leaves noPrune Wf Replays where
  storage _ _ hst hw := ⟨hw.storage hst, .quiet (.storage hst) rfl rfl⟩
  updateHqc s nh nblk h qc hn hr hq hw s' hs :=
    ⟨((Wf.leaves noPrune).updateHqc s nh nblk h qc hn hr hq hw s' hs).1,
      .quiet (.updateHqc hs) (consensusLog_updateHqc s h qc) (decisions_updateHqc s h qc)⟩
  lockStep s h1 blk1 hb hw _ hs :=
    ⟨hw.lockStep hb hs, .quiet (.lockStep hs) (consensusLog_lockStep s h1 blk1) (decisions_lockStep s h1 blk1)⟩
  commit s h1 blk1 h0 hb _ hp _ hw s' hs := ⟨hw.commit hb hp hs,
    (Replays.commit hw ((hw.blocks h1 blk1 hb).parentsDelivered h0 (List.mem_of_mem_head? hp)) trivial s' hs).2⟩
  fetch _ h ps qc orders ht hw := ⟨hw.fetch h ps qc orders ht, .quiet .addBlk rfl rfl⟩
  deliver s h hw _ hs := ⟨hw.deliver hs, .quiet (.deliver hs) (by rw [onDeliverBlk_outputs]; rfl)
    (by rw [onDeliverBlk_outputs]; rfl)⟩
  create _ _ _ _ h _ _ _ _ hc hw _ hs := ⟨hw.create hc hs, .quiet (.create hc hs)
    (by rw [onDeliverBlk_outputs]; rfl) (by rw [onDeliverBlk_outputs]; rfl)⟩
  finish s prop bnew op _ _ hw _ hs := ⟨hw.finishProposal hs, .quiet (.finish hs)
    (consensusLog_finishProposal s prop bnew op) (decisions_finishProposal s prop bnew op)⟩
  vote := onReceiveVote_keeps Replays.chainable
    { record := fun _ _ _ hb _ _ hw => ⟨hw.recordVote hb, .quiet (.recordVote hb) rfl rfl⟩
      voteHqc := fun s h qc hb hw s' hs => ⟨(Wf.voteLeaves.voteHqc s h qc hb hw s' hs).1,
        .quiet (.updateHqc hs) (consensusLog_updateHqc s h qc) (decisions_updateHqc s h qc)⟩
      qcFinish := fun s h hw => ⟨hw.qcFinish h,
        .quiet (.qcFinish h) (consensusLog_onQcFinish s h) (decisions_onQcFinish s h)⟩ }
    fun s _ _ ho => .quiet (.refl s) ho.consensusLog ho.decisions
  quiet s _ _ ho := .quiet (.refl s) ho.consensusLog ho.decisions
  prune _ _ h := h.elim
  async s h hw _ hs := ⟨hw.asyncQcFinish hs, .quiet (.async hs) (consensusLog_asyncQcFinish s h)
    (decisions_asyncQcFinish s h)⟩
  disable _ f hw := ⟨hw.setVoteDisabled f, .quiet (.of_findBlk_eq (fun _ => rfl) rfl rfl) rfl rfl⟩

theorem Replays.run {s : HotStuffCore} {out : List Output} (hr : Run noPrune s out) :
    ∃ s₀, Replays s₀ out s :=
  (@Run.invariant noPrune Wf Replays (fun s out => ∃ s₀, Replays s₀ out s) Replays.chainable
    Replays.leaves (fun b0 id replicas nfaulty γ => ⟨Wf.init b0 id replicas nfaulty γ, _, Replays.chainable.refl _⟩)
    (fun _ _ _ _ _ ⟨s₀, h⟩ hR _ => ⟨s₀, Replays.chainable.trans h hR⟩) s out hr).2

/-- `prune` の無い実行では、`do_decide` に渡した確定の列は、`do_consensus` に渡したブロックを順に、
最後の状態でのそのブロックの局所順序と高さで開いたもの（`blockDecisions`）。票、提案、局所順序の
出力がどう間に入っても、確定の列は確定したブロックの列とその中身だけで決まる。 -/
theorem decisions_replay_committed {s : HotStuffCore} {out : List Output} (hr : Run noPrune s out) :
    decisions out = (consensusLog out).flatMap (blockDecisions s) :=
  let ⟨_, _, _, h⟩ := Replays.run hr
  h

theorem decisions_replay_committed_commitRun :
    consensusLog commitState.2 = [1] ∧ decisions commitState.2 = [⟨0, 1, 0, 2, 101, 1⟩] ∧
      decisions commitState.2 = (consensusLog commitState.2).flatMap (blockDecisions commitState.1) :=
  ⟨by decide, by decide, decisions_replay_committed commitState_run⟩

/-! ## 重複のない確定 -/

theorem consensusLog_nodup {s : HotStuffCore} {out : List Output} (hr : Run noPrune s out) :
    (consensusLog out).Nodup :=
  (@Run.invariant noPrune _ _ (fun s out => Ascent s.storage s.b0 (consensusLog out) s.bExec)
    Extends.chainable Decided.leaves
    (fun b0 id replicas nfaulty γ => ⟨⟨Wf.init b0 id replicas nfaulty γ, Decided.init b0 id replicas nfaulty γ⟩, .nil _⟩)
    (fun _ _ _ _ _ ha ⟨hs, ha', h0⟩ _ => by
      dsimp only at ha ⊢
      rw [consensusLog_append, h0]
      exact (ha.settled hs).append ha') s out hr).2.nodup

theorem blockDecisions_pairs (s : HotStuffCore) (bh : BlockHash) :
    ∃ l : List CmdHash, l.Nodup ∧ (∀ c ∈ l, ∃ b, s.findBlk bh = some b ∧ ∃ o ∈ b.orders, c ∈ o.2) ∧
      (blockDecisions s bh).map (fun f => (f.cmdHash, f.blkHash)) = l.map (·, bh) := by
  unfold blockDecisions
  split
  · exact ⟨[], .nil, by simp, rfl⟩
  rename_i b hb
  split
  · exact ⟨[], .nil, by simp, rfl⟩
  rename_i order hf
  have hp := fairFinalize_perm_commands hf
  refine ⟨order, hp.nodup_iff.2 (List.nodup_dedup _), fun c hc => ⟨b, hb, ?_⟩, ?_⟩
  · simpa using hp.subset hc
  · conv_rhs => rw [← List.enum_map_snd order]
    simp only [List.map_map]
    rfl

/-- `prune` の無い実行で確定した（コマンド, ブロック）の組に重複はない：同じブロックを二度確定せず、
一つのブロックで同じコマンドを二度確定しない。確定したコマンドは、そのブロックの局所順序に現れる。 -/
theorem decided_pairs_nodup {s : HotStuffCore} {out : List Output} (hr : Run noPrune s out) :
    ((decisions out).map fun f => (f.cmdHash, f.blkHash)).Nodup ∧
      ∀ f ∈ decisions out, ∃ b, s.findBlk f.blkHash = some b ∧ ∃ o ∈ b.orders, f.cmdHash ∈ o.2 := by
  obtain ⟨_, -, -, he⟩ := Replays.run hr
  choose l hn hmem hl using blockDecisions_pairs s
  rw [he]
  refine ⟨?_, fun f hf => ?_⟩
  · rw [List.map_flatMap, List.nodup_flatMap]
    refine ⟨fun bh _ => by rw [hl]; exact (hn bh).map fun _ _ h => (Prod.mk.inj h).1, ?_⟩
    refine (consensusLog_nodup hr).imp fun {a b} hab p hpa hpb => hab ?_
    dsimp only at hpa hpb
    rw [hl] at hpa hpb
    obtain ⟨_, -, rfl⟩ := List.mem_map.1 hpa
    obtain ⟨_, -, he'⟩ := List.mem_map.1 hpb
    exact (Prod.mk.inj he').2.symm
  · obtain ⟨bh, -, hf⟩ := List.mem_flatMap.1 hf
    have hm : (f.cmdHash, f.blkHash) ∈ (l bh).map (·, bh) := hl bh ▸ List.mem_map_of_mem _ hf
    obtain ⟨c, hc, he'⟩ := List.mem_map.1 hm
    obtain ⟨rfl, rfl⟩ := Prod.mk.inj he'
    exact hmem _ _ hc

theorem decided_pairs_nodup_commitRun :
    (decisions commitState.2).map (fun f => (f.cmdHash, f.blkHash)) = [(101, 1)] ∧
      ((decisions commitState.2).map fun f => (f.cmdHash, f.blkHash)).Nodup ∧
      ∀ f ∈ decisions commitState.2, ∃ b, commitState.1.findBlk f.blkHash = some b ∧
        ∃ o ∈ b.orders, f.cmdHash ∈ o.2 :=
  ⟨by decide, decided_pairs_nodup commitState_run⟩

/-! ## 確定したブロックの局所順序 -/

/-- `prune` の無い実行で `do_consensus` に渡したブロックはどれも、`fair_finalize` が空でない並びを
返すブロックで、その局所順序の表はコマンドを一つは挙げる。表が空でなくどの列も空のブロックでは、
確定のループはいつも `break` するので、そのブロックは確定しない。確定は `b0` から `parents[0]` を
上る鎖なので、その上のブロックも確定しない。 -/
theorem committed_blocks_name_commands {s : HotStuffCore} {out : List Output} (hr : Run noPrune s out) :
    ∀ bh ∈ consensusLog out, ∃ b, s.findBlk bh = some b ∧
      (∃ order, fairFinalize s.config.fairnessParameter b.orders = some order ∧ order ≠ []) ∧
      ∃ o ∈ b.orders, o.2 ≠ [] := by
  obtain ⟨_, -, hc, -⟩ := Replays.run hr
  intro bh hbh
  obtain ⟨b, hb, -, order, hf, hne⟩ := hc bh hbh
  obtain ⟨c, hcm⟩ := List.exists_mem_of_ne_nil order hne
  obtain ⟨o, ho, hco⟩ := List.mem_flatMap.mp (List.mem_dedup.mp ((fairFinalize_perm_commands hf).subset hcm))
  exact ⟨b, hb, ⟨order, hf, hne⟩, o, ho, List.ne_nil_of_mem hco⟩

theorem committed_blocks_name_commands_commitRun :
    consensusLog commitState.2 = [1] ∧
      (consensusLog commitState.2).Forall fun bh => ∃ b, commitState.1.findBlk bh = some b ∧
        (∃ order, fairFinalize commitState.1.config.fairnessParameter b.orders = some order ∧ order ≠ []) ∧
        ∃ o ∈ b.orders, o.2 ≠ [] :=
  ⟨by decide, List.forall_iff_forall_mem.mpr (committed_blocks_name_commands commitState_run)⟩

end Alkane.Core
