import Alkane.Core.Lemmas.Commit
import Alkane.Core.Invariants.Height

/-!
# 待っている約束

`prune` の無い実行のどの状態でも、`qc_waiting` に登録されたブロックは表にあって票が
`nmajority` に届いておらず、`qc_waiting` に重複は無い（`QcWaitingOk`）。`qc_waiting` から外れる
ときはいつも同じ出来事の中で `resolveQc` を出す（`Resolves`）。そこで、`async_qc_finish(b)` が
返した約束は、`b` の票を `nmajority` 票目にする `on_receive_vote` の中で解決され、取りこぼされない。
-/

namespace Alkane.Core

open EntityStorage HotStuffCore

/-- `qc_waiting` の不変条件。 -/
structure QcWaitingOk (s : HotStuffCore) : Prop where
  /-- 待っているブロックは表にあって、票が `nmajority` に届いていない。 -/
  below : ∀ h ∈ s.qcWaiting, ∃ b, s.findBlk h = some b ∧ b.voted.length < s.config.nmajority
  nodup : s.qcWaiting.Nodup

/-- 出来事一つの前後で、`qc_waiting` から外れたブロックの約束はその出力で解決されている。 -/
def Resolves (s : HotStuffCore) (o : List Output) (s' : HotStuffCore) : Prop :=
  ∀ h ∈ s.qcWaiting, h ∉ s'.qcWaiting → Output.resolveQc h ∈ o

theorem Resolves.chainable : Chainable Resolves where
  refl _ _ h h' := absurd h h'
  trans {s₁ s₂ s₃ o₁ o₂} r₁ r₂ h h₁ h₃ := by
    by_cases h₂ : h ∈ s₂.qcWaiting
    · exact List.mem_append_right _ (r₂ h h₂ h₃)
    · exact List.mem_append_left _ (r₁ h h₁ h₂)

/-! ## 票を変えない書き換え -/

/-- `qc_waiting` と `config` を変えず、表のブロックを残してその票を変えない。 -/
def VotesKept (s s' : HotStuffCore) : Prop :=
  s'.qcWaiting = s.qcWaiting ∧ s'.config = s.config ∧
    ∀ k b, s.findBlk k = some b → ∃ b', s'.findBlk k = some b' ∧ b'.voted = b.voted

namespace VotesKept

variable {s s' s'' : HotStuffCore}

theorem refl (s : HotStuffCore) : VotesKept s s := ⟨rfl, rfl, fun _ b hb => ⟨b, hb, rfl⟩⟩

theorem trans (h₁ : VotesKept s s') (h₂ : VotesKept s' s'') : VotesKept s s'' := by
  refine ⟨h₂.1.trans h₁.1, h₂.2.1.trans h₁.2.1, fun k b hb => ?_⟩
  obtain ⟨b', hb', hv'⟩ := h₁.2.2 k b hb
  obtain ⟨b'', hb'', hv''⟩ := h₂.2.2 k b' hb'
  exact ⟨b'', hb'', hv''.trans hv'⟩

theorem of_findBlk_eq (hk : ∀ k, s'.findBlk k = s.findBlk k) (hq : s'.qcWaiting = s.qcWaiting)
    (hc : s'.config = s.config) : VotesKept s s' :=
  ⟨hq, hc, fun k b hb => ⟨b, by rw [hk, hb], rfl⟩⟩

theorem setBlk {h : BlockHash} {b b' : Block} (hb : s.findBlk h = some b) (hv : b'.voted = b.voted) :
    VotesKept s (s.setBlk h b') := by
  refine ⟨rfl, rfl, fun k c hc => ?_⟩
  by_cases e : h = k
  · subst e; rw [hb] at hc; cases hc
    exact ⟨b', by simp [hb], hv⟩
  · exact ⟨c, by simp [e, hc], rfl⟩

theorem addBlk {h : BlockHash} {b : Block} : VotesKept s { s with storage := s.storage.addBlk h b } := by
  refine ⟨rfl, rfl, fun k c hc => ⟨c, ?_, rfl⟩⟩
  simp only [findBlk_mk, findBlk_addBlk, storage_findBlk]
  split_ifs with e
  · obtain ⟨hn, rfl⟩ := e; rw [hn] at hc; cases hc
  · exact hc

theorem storage {st : EntityStorage} (hst : st.blkCache = s.storage.blkCache) :
    VotesKept s { s with storage := st } :=
  of_findBlk_eq (fun k => findBlk_of_blkCache hst k) rfl rfl

theorem tails (t : List BlockHash) : VotesKept s { s with tails := t } :=
  of_findBlk_eq (fun _ => rfl) rfl rfl

theorem deliver {h : BlockHash} (hs : (onDeliverBlk s h).state? = some s') : VotesKept s s' := by
  obtain ⟨blk, hb, ⟨-, rfl⟩ | ⟨-, -, rfl⟩ | ⟨-, -, -, -, -, -, -, rfl⟩ | ⟨-, -, -, -, -, -, -, -, rfl⟩⟩ :=
    onDeliverBlk_state hs
  · exact refl _
  · exact setBlk hb rfl
  · exact setBlk hb rfl
  · exact (tails _).trans (setBlk (by exact hb) (by rfl))

theorem create {orders : List (ReplicaID × List CmdHash)} {parents : List BlockHash} {p0 h : BlockHash}
    {s₁ : HotStuffCore} (hc : createBlock s orders parents p0 h = some s₁)
    (hs : (onDeliverBlk s₁ h).state? = some s') : VotesKept s s' := by
  refine VotesKept.trans ?_ (deliver hs)
  obtain ⟨pb, -, ⟨b, hb, rfl⟩ | ⟨hn, rfl⟩⟩ := createBlock_state hc
  · exact (tails _).trans (setBlk (by exact hb) (by rfl))
  · exact ((tails _).trans addBlk).trans (setBlk (by exact findBlk_addBlk_self hn) (by rfl))

theorem commit (hw : Wf s) {h1 h0 : BlockHash} {blk1 : Block} (hb1 : s.findBlk h1 = some blk1)
    (hp : blk1.parents.head? = some h0) (hs : (commit s h0).state? = some s') : VotesKept s s' := by
  obtain ⟨l, -, -, hf, hk⟩ := commit_effect hw hb1 hp hs
  have hq := congrArg HotStuffCore.qcWaiting hf
  have hc := congrArg HotStuffCore.config hf
  refine ⟨hq, hc, fun k b hb => ?_⟩
  rw [hk, hb]
  exact ⟨_, rfl, by split_ifs <;> rfl⟩

theorem updateHqc {h : BlockHash} {qc : QuorumCert} (hs : (updateHqc s h qc).state? = some s') :
    VotesKept s s' := by
  unfold Alkane.Core.updateHqc at hs
  split at hs
  · split_ifs at hs <;> cases hs
    · exact of_findBlk_eq (fun _ => rfl) rfl rfl
    · exact refl s
  · cases hs

theorem lockStep {h1 : BlockHash} {blk1 : Block} (hs : (lockStep s h1 blk1).state? = some s') :
    VotesKept s s' := by
  unfold Alkane.Core.lockStep at hs
  split at hs
  · cases hs
    split_ifs
    · exact of_findBlk_eq (fun _ => rfl) rfl rfl
    · exact refl s
  · cases hs

end VotesKept

theorem updateHqc_cases (s : HotStuffCore) (h : BlockHash) (qc : QuorumCert) :
    updateHqc s h qc = .undefined ∨ ∃ s₂ o₂, updateHqc s h qc = .ok () s₂ o₂ ∧ VotesKept s s₂ := by
  cases hu : updateHqc s h qc with
  | ok _ s₂ o₂ => exact .inr ⟨s₂, o₂, rfl, VotesKept.updateHqc (by rw [hu]; rfl)⟩
  | error =>
    unfold Alkane.Core.updateHqc at hu
    split at hu
    · split_ifs at hu
    · cases hu
  | undefined => exact .inl rfl

/-! ## 保たれること -/

section Preserve

variable {s s' : HotStuffCore}

theorem Resolves.mono {o o' : List Output} (h : Resolves s o s') (ho : o ⊆ o') : Resolves s o' s' :=
  fun x hx hx' => ho (h x hx hx')

theorem QcWaitingOk.kept (h : QcWaitingOk s) (hk : VotesKept s s') (o : List Output) :
    QcWaitingOk s' ∧ Resolves s o s' := by
  refine ⟨⟨fun x hx => ?_, by rw [hk.1]; exact h.nodup⟩, fun x hx hx' => absurd (by rw [hk.1]; exact hx) hx'⟩
  rw [hk.1] at hx
  obtain ⟨b, hb, hlt⟩ := h.below x hx
  obtain ⟨b', hb', hv⟩ := hk.2.2 x b hb
  exact ⟨b', hb', by rw [hv, hk.2.1]; exact hlt⟩

theorem QcWaitingOk.qcFinish_of_ne {h : BlockHash}
    (hb : ∀ x ∈ s.qcWaiting, x ≠ h → ∃ b, s.findBlk x = some b ∧ b.voted.length < s.config.nmajority)
    (hn : s.qcWaiting.Nodup) : QcWaitingOk (onQcFinish s h).1 ∧ Resolves s (onQcFinish s h).2 (onQcFinish s h).1 := by
  unfold onQcFinish
  split_ifs with hh
  · refine ⟨⟨fun x hx => ?_, hn.erase h⟩, fun x hx hx' => ?_⟩
    · obtain ⟨e, hx⟩ := hn.mem_erase_iff.mp hx
      exact hb x hx e
    · have e : x = h := by
        by_contra e
        exact hx' (hn.mem_erase_iff.mpr ⟨e, hx⟩)
      subst e
      exact List.mem_singleton_self _
  · refine ⟨⟨fun x hx => hb x hx fun e => hh (e ▸ hx), hn⟩, fun x hx hx' => absurd hx hx'⟩

theorem QcWaitingOk.qcFinish (h : QcWaitingOk s) (q : BlockHash) :
    QcWaitingOk (onQcFinish s q).1 ∧ Resolves s (onQcFinish s q).2 (onQcFinish s q).1 :=
  qcFinish_of_ne (fun x hx _ => h.below x hx) h.nodup

theorem QcWaitingOk.finish {prop : Proposal} {bnew : Block} {op : Bool} :
    Keeps QcWaitingOk Resolves s (finishProposal s prop bnew op) := by
  intro hI s' hs
  unfold finishProposal at hs ⊢
  simp only [Result.state?_ok, Option.some.injEq] at hs
  subst hs
  -- 投票の判断は `vheight` だけを書き、約束の解決は `on_qc_finish` に任せる
  suffices h : ∀ r : HotStuffCore × List Output, QcWaitingOk r.1 ∧ Resolves s r.2 r.1 →
      ∀ o, r.2 ⊆ o → QcWaitingOk r.1 ∧ Resolves s o r.1 by
    refine h _ ?_ _ (List.subset_append_left _ _)
    have hI' : QcWaitingOk { s with vheight := bnew.height } := ⟨hI.below, hI.nodup⟩
    cases op <;> simp only [Bool.false_eq_true, if_false, if_true] <;> split <;> (try split_ifs)
    all_goals first
      | exact ⟨hI, Resolves.chainable.refl s⟩
      | exact ⟨hI', Resolves.chainable.refl s⟩
      | exact hI.qcFinish _
      | exact hI'.qcFinish _
  exact fun r ⟨h₁, h₂⟩ o ho => ⟨h₁, h₂.mono ho⟩

theorem mem_qcWaiting_of_asyncQcFinish {s s' : HotStuffCore} {h : BlockHash} {o : List Output}
    (he : asyncQcFinish s h = .ok false s' o) : h ∈ s'.qcWaiting := by
  unfold asyncQcFinish at he
  split at he
  · cases he
  · split_ifs at he
    · cases he
    · obtain ⟨-, rfl, -⟩ := Result.ok.inj he
      exact List.mem_insert_self h s.qcWaiting

theorem QcWaitingOk.async {h : BlockHash} : Keeps QcWaitingOk Resolves s (asyncQcFinish s h) := by
  unfold asyncQcFinish
  split
  · exact Keeps.undefined
  rename_i b hb
  split_ifs with hmaj
  · exact Keeps.self Resolves.chainable
  · refine Keeps.ok fun hI =>
      ⟨⟨fun x hx => ?_, hI.nodup.insert⟩, fun x hx hx' => absurd (List.mem_insert_of_mem hx) hx'⟩
    rcases List.mem_insert_iff.mp hx with rfl | hx
    · exact ⟨b, hb, Nat.lt_of_not_le hmaj⟩
    · exact hI.below x hx

theorem QcWaitingOk.vote (vote : Vote) : Keeps QcWaitingOk Resolves s (onReceiveVote s vote) := by
  unfold onReceiveVote
  split
  · exact Keeps.error fun hI => ⟨hI, Resolves.chainable.refl s⟩
  rename_i blk hb
  have hf := (getDeliveredBlk_eq_some.mp hb).1
  -- 記録しても、ほかのブロックの票は変わらない
  have hrec : QcWaitingOk s → ∀ x ∈ s.qcWaiting, x ≠ vote.blkHash →
      ∃ b, (recordVote s vote blk).findBlk x = some b ∧ b.voted.length < s.config.nmajority :=
    fun hI x hx e => by
      obtain ⟨b, hb, hlt⟩ := hI.below x hx
      exact ⟨b, by rw [recordVote_findBlk, if_neg (Ne.symm e)]; exact hb, hlt⟩
  dsimp only
  split_ifs with hmaj hmem hq
  · exact Keeps.self Resolves.chainable
  · exact Keeps.self Resolves.chainable
  · intro hI s' hs
    generalize (blk.selfQc.getD (createQuorumCert vote.blkHash)).addPart vote.voter = qc at hs ⊢
    rcases updateHqc_cases (recordVote s vote blk) vote.blkHash qc with hu | ⟨s₂, o₂, hu, hk⟩
    · simp [hu, Result.state?] at hs
    simp only [Result.ok_andThen, hu, Result.state?_ok, Option.some.injEq] at hs ⊢
    subst hs
    obtain ⟨hI', hR⟩ := @QcWaitingOk.qcFinish_of_ne s₂ vote.blkHash (fun x hx e => by
      rw [hk.1] at hx
      obtain ⟨b, hb, hlt⟩ := hrec hI x hx e
      obtain ⟨b', hb', hv⟩ := hk.2.2 x b hb
      exact ⟨b', hb', by rw [hv, hk.2.1]; exact hlt⟩) (by rw [hk.1]; exact hI.nodup)
    have hR' : Resolves s (onQcFinish s₂ vote.blkHash).2 (onQcFinish s₂ vote.blkHash).1 :=
      fun x hx => hR x (by rw [hk.1]; exact hx)
    exact ⟨hI', hR'.mono ((List.subset_append_right _ _).trans (List.subset_append_right _ _))⟩
  · refine Keeps.ok fun hI => ⟨⟨fun x hx => ?_, hI.nodup⟩, fun x hx hx' => absurd hx hx'⟩
    by_cases e : x = vote.blkHash
    · subst e
      refine ⟨_, by rw [recordVote_findBlk, if_pos rfl, hf]; rfl, ?_⟩
      simp only [List.length_append, List.length_singleton]
      exact lt_of_le_of_ne (Nat.succ_le_of_lt (Nat.lt_of_not_le hmaj)) hq
    · exact hrec hI x hx e

end Preserve

theorem QcWaitingOk.leaves : Leaves noPrune (fun s => Wf s ∧ QcWaitingOk s) Resolves where
  storage _ _ hst h := let k := h.2.kept (VotesKept.storage hst) []; ⟨⟨h.1.storage hst, k.1⟩, k.2⟩
  updateHqc s nh nblk h' qc hn hr hq h s' hs :=
    let k := h.2.kept (VotesKept.updateHqc hs) _
    ⟨⟨((Wf.leaves noPrune).updateHqc s nh nblk h' qc hn hr hq h.1 s' hs).1, k.1⟩, k.2⟩
  lockStep _ _ _ hb h _ hs := let k := h.2.kept (VotesKept.lockStep hs) _; ⟨⟨h.1.lockStep hb hs, k.1⟩, k.2⟩
  commit _ _ _ _ hb _ hp _ h _ hs :=
    let k := h.2.kept (VotesKept.commit h.1 hb hp hs) _
    ⟨⟨h.1.commit hb hp hs, k.1⟩, k.2⟩
  fetch _ h' ps qc orders ht h := let k := h.2.kept VotesKept.addBlk []; ⟨⟨h.1.fetch h' ps qc orders ht, k.1⟩, k.2⟩
  deliver _ _ h _ hs := let k := h.2.kept (VotesKept.deliver hs) _; ⟨⟨h.1.deliver hs, k.1⟩, k.2⟩
  create _ _ _ _ _ _ _ _ _ hc h _ hs := let k := h.2.kept (VotesKept.create hc hs) _; ⟨⟨h.1.create hc hs, k.1⟩, k.2⟩
  finish _ _ _ _ _ _ h _ hs := let k := QcWaitingOk.finish h.2 _ hs; ⟨⟨h.1.finishProposal hs, k.1⟩, k.2⟩
  vote s v h s' hs :=
    let k := QcWaitingOk.vote v h.2 s' hs
    ⟨⟨((Wf.leaves noPrune).vote s v h.1 s' hs).1, k.1⟩, k.2⟩
  quiet _ _ _ _ _ hx hx' := absurd hx hx'
  prune _ _ h := h.elim
  async _ _ h _ hs := let k := QcWaitingOk.async h.2 _ hs; ⟨⟨h.1.asyncQcFinish hs, k.1⟩, k.2⟩
  disable _ f h := ⟨⟨h.1.setVoteDisabled f, h.2.below, h.2.nodup⟩, fun _ hx hx' => absurd hx hx'⟩

theorem QcWaitingOk.run {s : HotStuffCore} {out : List Output} (hr : Run noPrune s out) :
    Wf s ∧ QcWaitingOk s :=
  (@Run.invariant noPrune _ _ (fun _ _ => True) Resolves.chainable QcWaitingOk.leaves
    (fun b0 id replicas nfaulty γ => ⟨⟨Wf.init b0 id replicas nfaulty γ, ⟨nofun, List.nodup_nil⟩⟩, trivial⟩)
    (fun _ _ _ _ _ _ _ _ => trivial) s out hr).1

/-- `prune` の無い実行のどの状態でも、`qc_waiting` のブロックは表にあって票が `nmajority` に
届いておらず、重複は無い。`async_qc_finish(h)` が待つ約束を返せば `h` は `qc_waiting` に入り、
どの出来事でも、`qc_waiting` から外れたブロックの約束はその出来事の出力で解決される。とくに、
待っているブロックの票を `nmajority` にした出来事は、そのブロックを `qc_waiting` から外して約束を
解決している：待つ約束は取りこぼされない。 -/
theorem qcWaiting_below_majority {s : HotStuffCore} {out : List Output} (hr : Run noPrune s out) :
    (∀ h ∈ s.qcWaiting, ∃ b, s.findBlk h = some b ∧ b.voted.length < s.config.nmajority) ∧
      s.qcWaiting.Nodup ∧
      (∀ h s' o, asyncQcFinish s h = .ok false s' o → h ∈ s'.qcWaiting) ∧
      ∀ op s', noPrune s op → op.ContentAddressed s → (exec s op).state? = some s' → ∀ h ∈ s.qcWaiting,
        (h ∉ s'.qcWaiting → Output.resolveQc h ∈ (exec s op).outputs) ∧
        ∀ b', s'.findBlk h = some b' → s'.config.nmajority ≤ b'.voted.length →
          h ∉ s'.qcWaiting ∧ Output.resolveQc h ∈ (exec s op).outputs := by
  obtain ⟨hw, hq⟩ := QcWaitingOk.run hr
  refine ⟨hq.below, hq.nodup, fun _ _ _ => mem_qcWaiting_of_asyncQcFinish, fun op s' hop hc hs h hh => ?_⟩
  have hR := (exec_keeps Resolves.chainable QcWaitingOk.leaves hop hc ⟨hw, hq⟩ s' hs).2 h hh
  -- 次の状態でも待っているブロックの票は `nmajority` に届いていない
  have hn : ∀ b', s'.findBlk h = some b' → s'.config.nmajority ≤ b'.voted.length → h ∉ s'.qcWaiting :=
    fun b' hb' hle hh' => by
      obtain ⟨b, hb, hlt⟩ := (QcWaitingOk.run (hr.step hop hc hs)).2.below h hh'
      rw [hb'] at hb
      cases hb
      omega
  exact ⟨hR, fun b' hb' hle => ⟨hn b' hb' hle, hR (hn b' hb' hle)⟩⟩

/-- ブロック `1` を配送し、`async_qc_finish(1)` で待ってから `1` と `2` の票を受け取る。 -/
def qcWaitRun : List Op :=
  [.fetch 1 [0] (some ⟨0, []⟩) [(3, [101])] 2, .deliver 1, .asyncQcFinish 1, .receiveVote ⟨1, 1⟩,
    .receiveVote ⟨2, 1⟩]

/-- その実行の後の状態と出力。 -/
def qcWaitState : HotStuffCore × List Output :=
  (runOpsOut (HotStuffCore.init 0 0 [0, 1, 2, 3] 1 0.5) qcWaitRun).getD (HotStuffCore.init 0 0 [0, 1, 2, 3] 1 0.5, [])

/-- `1` は二票で待っていて、三票目 `3` の受け取りが約束を解決する。 -/
theorem qcWaiting_below_majority_qcWaitRun :
    qcWaitState.1.qcWaiting = [1] ∧ (qcWaitState.1.findBlk 1).map Block.voted = some [1, 2] ∧
      Output.resolveQc 1 ∈ (exec qcWaitState.1 (.receiveVote ⟨3, 1⟩)).outputs ∧
      (∀ h ∈ qcWaitState.1.qcWaiting,
        ∃ b, qcWaitState.1.findBlk h = some b ∧ b.voted.length < qcWaitState.1.config.nmajority) ∧
      qcWaitState.1.qcWaiting.Nodup ∧
      (∀ h s' o, asyncQcFinish qcWaitState.1 h = .ok false s' o → h ∈ s'.qcWaiting) ∧
      ∀ op s', noPrune qcWaitState.1 op → op.ContentAddressed qcWaitState.1 →
        (exec qcWaitState.1 op).state? = some s' → ∀ h ∈ qcWaitState.1.qcWaiting,
        (h ∉ s'.qcWaiting → Output.resolveQc h ∈ (exec qcWaitState.1 op).outputs) ∧
        ∀ b', s'.findBlk h = some b' → s'.config.nmajority ≤ b'.voted.length →
          h ∉ s'.qcWaiting ∧ Output.resolveQc h ∈ (exec qcWaitState.1 op).outputs :=
  ⟨by decide, by decide, by decide, qcWaiting_below_majority
    (@run_of_runOpsOut_getD noPrune _ 0 0 [0, 1, 2, 3] 1 0.5 qcWaitRun (by decide) (by decide))⟩

end Alkane.Core
