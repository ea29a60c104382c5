import Alkane.Core.Lemmas.Commit
import Alkane.Core.Invariants.Height

/-!
# 投票の規則

`on_receive_proposal` は `update(bnew)` の後で、`opinion` が真で `vote_disabled` でなければ
`bnew` に投票し、`opinion` が真なら `vheight` を `bnew.height` に上げる。`opinion` の安全の条件は
`b_lock` の高さまで `parents[0]` を下りて止まったブロックが `b_lock` であることで、表のどの
配送済みのブロックの高さも `2^32 - 1` でなければ（`NoWrap`）、それは `b_lock` が `bnew` の
`parents[0]` の鎖の上にあること（仕様書 P7、`VoteRule`）と同じ。高さが折り返した鎖では
同じでない（`Wrap` の `wrapped_chain_vote_withheld`）。
-/

namespace Alkane.Core

open EntityStorage HotStuffCore

/-! ## 投票の記録 -/

/-- 出力の列のうち `do_vote` の宛先と票（出した順）。 -/
def voteLog (out : List Output) : List (ReplicaID × Vote) :=
  out.filterMap fun
    | .doVote p v => some (p, v)
    | _ => none

@[simp] theorem voteLog_nil : voteLog [] = [] := rfl

@[simp] theorem voteLog_append (o₁ o₂ : List Output) : voteLog (o₁ ++ o₂) = voteLog o₁ ++ voteLog o₂ :=
  List.filterMap_append o₁ o₂ _

/-- 投票しない一歩。 -/
def NoVote (_ : HotStuffCore) (o : List Output) (_ : HotStuffCore) : Prop := voteLog o = []

theorem NoVote.chainable : Chainable NoVote where
  refl _ := rfl
  trans h₁ h₂ := by simp only [NoVote, voteLog_append] at *; rw [h₁, h₂]; rfl

theorem NoVote.commitLoop : ∀ (q : List BlockHash) (s : HotStuffCore),
    Keeps (fun _ => True) NoVote s (commitLoop s q)
  | [], _ => Keeps.self NoVote.chainable
  | bh :: rest, s => by
    unfold Alkane.Core.commitLoop
    split
    · exact Keeps.undefined
    split
    · exact Keeps.undefined
    split_ifs
    · exact Keeps.self NoVote.chainable
    refine Keeps.andThen NoVote.chainable (Keeps.ok fun _ => ⟨trivial, ?_⟩) fun _ s₁ _ _ =>
      NoVote.commitLoop rest s₁
    simp [NoVote, voteLog, commitBlock, List.filterMap_map, Function.comp_def]

theorem NoVote.updateLeaves : UpdateLeaves (fun _ => True) NoVote where
  storage _ _ _ _ := ⟨trivial, rfl⟩
  updateHqc s _ _ h qc _ _ _ _ _ _ := ⟨trivial, by
    show voteLog (updateHqc s h qc).outputs = []
    unfold updateHqc
    split
    · split_ifs <;> rfl
    · rfl⟩
  lockStep s h1 blk1 _ _ _ _ := ⟨trivial, by
    show voteLog (lockStep s h1 blk1).outputs = []
    unfold lockStep
    split <;> rfl⟩
  commit s _ _ h0 _ _ _ _ := by
    unfold Alkane.Core.commit
    split
    · exact Keeps.undefined
    split
    · exact Keeps.undefined
    split_ifs
    · exact Keeps.error fun _ => ⟨trivial, rfl⟩
    · exact NoVote.commitLoop _ s

theorem voteLog_update {s s₁ : HotStuffCore} {nh : BlockHash} {o : List Output}
    (hu : update s nh = .ok () s₁ o) : voteLog o = [] := by
  have h := (update_keeps NoVote.chainable NoVote.updateLeaves s nh trivial s₁ (by rw [hu]; rfl)).2
  rwa [hu] at h

@[simp] theorem voteLog_onQcFinish (s : HotStuffCore) (h : BlockHash) : voteLog (onQcFinish s h).2 = [] := by
  unfold onQcFinish
  split_ifs <;> rfl

theorem voteLog_finishProposal (s : HotStuffCore) (prop : Proposal) (bnew : Block) (op : Bool) :
    voteLog (finishProposal s prop bnew op).outputs =
      if op && !s.voteDisabled then [(prop.proposer, ⟨s.id, prop.blk⟩)] else [] := by
  -- 約束の解決は票を出さず、`vote_disabled` と `id` を変えない
  have key : ∀ r : HotStuffCore × List Output, voteLog r.2 = [] → r.1.voteDisabled = s.voteDisabled →
      r.1.id = s.id → voteLog (Result.ok () r.1 (r.2 ++ .resolveReceiveProposal prop ::
        if op = true ∧ (!r.1.voteDisabled) = true then [.doVote prop.proposer ⟨r.1.id, prop.blk⟩]
        else [])).outputs =
      if (op && !s.voteDisabled) = true then [(prop.proposer, ⟨s.id, prop.blk⟩)] else [] := by
    rintro ⟨t, o⟩ ho hv hi
    dsimp only at ho hv hi ⊢
    rw [Result.outputs_ok, voteLog_append, ho, hv, hi]
    cases op <;> cases s.voteDisabled <;> rfl
  unfold finishProposal
  apply key <;> split <;> (try split_ifs) <;> simp

/-! ## 下りる道が `b_lock` で止まること -/

/-- 表のどの配送済みのブロックの高さも `2^32 - 1` でない：`parents[0]` の高さ + 1 が折り返さない。 -/
def NoWrap (s : HotStuffCore) : Prop :=
  ∀ p ∈ s.storage.blkCache, p.2.delivered = true → p.2.height + 1 < u32

instance (s : HotStuffCore) : Decidable (NoWrap s) := by
  unfold NoWrap; infer_instance

theorem NoWrap.findBlk {s : HotStuffCore} (h : NoWrap s) {k : BlockHash} {b : Block}
    (hb : s.findBlk k = some b) (hd : b.delivered = true) : b.height + 1 < u32 :=
  h (k, b) (mem_of_lookupBlk hb) hd

section Walk

variable {st : EntityStorage} (hwf : ∀ k b, st.findBlk k = some b → BlockWf st k b)
  (hnw : ∀ k b, st.findBlk k = some b → b.delivered = true → b.height + 1 < u32)

include hwf hnw in
theorem Below.eq_or_height_lt {x y : BlockHash} {bx : Block} (hx : st.findBlk x = some bx)
    (h : Below st x y) : ∀ {b}, st.findBlk y = some b → b.delivered = true → x = y ∨ bx.height < b.height := by
  induction h with
  | refl => exact fun _ _ => .inl rfl
  | @parent y p hp _ ih =>
    intro b hb hd
    obtain ⟨b', hb', hp'⟩ := parent0_eq_some.mp hp
    rw [hb] at hb'
    cases hb'
    obtain ⟨pb, hpb, hpd⟩ := (hwf _ _ hb).parentsDelivered p (List.mem_of_mem_head? hp')
    obtain ⟨pb', hpb', hlink⟩ := (hwf _ _ hb).heightLink hd p hp'
    rw [hpb] at hpb'
    cases hpb'
    have hh : b.height = pb.height + 1 := by rw [hlink, Nat.mod_eq_of_lt (hnw p pb hpb hpd)]
    rcases ih hpb hpd with rfl | hlt
    · exact .inr (by rw [hx] at hpb; cases hpb; omega)
    · exact .inr (by omega)

theorem WalkPath.below_end {h : Nat} {b e x : BlockHash} {q : List BlockHash} {bx : Block}
    (hw : WalkPath st h b q e) (hx : st.findBlk x = some bx) (hle : bx.height ≤ h) :
    Below st x b → Below st x e := by
  induction hw with
  | stop => exact id
  | step hb hlt hp _ ih =>
    intro hxb
    rcases (Below.iff_parent (parent0_eq_some.mpr ⟨_, hb, hp⟩)).mp hxb with rfl | hxp
    · rw [hb] at hx; cases hx; omega
    · exact ih hxp

include hwf hnw in
theorem WalkPath.end_eq_iff {b e x : BlockHash} {q : List BlockHash} {bx : Block}
    (hw : WalkPath st bx.height b q e) (hb : ∃ blk, st.findBlk b = some blk ∧ blk.delivered)
    (hx : st.findBlk x = some bx) : e = x ↔ Below st x b := by
  refine ⟨fun he => he ▸ hw.end_below, fun hxb => ?_⟩
  obtain ⟨be, hbe, hle⟩ := hw.last
  obtain ⟨be', hbe', hed⟩ := Below.delivered hwf hw.end_below hb
  rw [hbe] at hbe'
  cases hbe'
  rcases Below.eq_or_height_lt hwf hnw hx (hw.below_end hx le_rfl hxb) hbe hed with he | hlt
  · exact he.symm
  · omega

end Walk

/-! ## `opinion` と投票の規則 -/

/-- 仕様書 P7 の投票規則：`vheight` より高く、`qc_ref` が `b_lock`（ブロック `bl`）より高いか、
`b_lock` が `parents[0]` の鎖の上にある。 -/
def VoteRule (s : HotStuffCore) (bh : BlockHash) (bnew bl : Block) : Prop :=
  s.vheight < bnew.height ∧
    ((∃ q qb, bnew.qcRef = some q ∧ s.findBlk q = some qb ∧ bl.height < qb.height) ∨ Below s.storage s.bLock bh)

theorem opinion_iff_voteRule {s : HotStuffCore} (hw : Wf s) (hnw : NoWrap s) {bh : BlockHash}
    {bnew bl : Block} {op : Bool} (hb : s.findBlk bh = some bnew) (hd : bnew.delivered = true)
    (hl : s.findBlk s.bLock = some bl) (ho : opinion s bh bnew = some op) :
    op = true ↔ VoteRule s bh bnew bl := by
  have key : ∀ e q, walkFrom s.storage bl.height bh = some (e, q) → (e = s.bLock ↔ Below s.storage s.bLock bh) :=
    fun e q hwk => (walkFrom_path hwk).end_eq_iff hw.blocks (fun _ _ => hnw.findBlk) ⟨bnew, hb, hd⟩ hl
  unfold opinion at ho
  by_cases hv : s.vheight < bnew.height
  swap
  · simp only [hv, if_false, Option.some.injEq] at ho
    subst ho
    simp [VoteRule, hv]
  simp only [hv, if_true, hl] at ho
  simp only [VoteRule, hv, true_and]
  cases hq : bnew.qcRef with
  | none =>
    simp only [hq, Bool.false_eq_true, if_false, Option.map_eq_some', Prod.exists] at ho
    obtain ⟨e, q, hwk, rfl⟩ := ho
    simp [key e q hwk]
  | some q =>
    cases hqb : s.findBlk q with
    | none =>
      simp only [hq, hqb, Bool.false_eq_true, if_false, Option.map_eq_some', Prod.exists] at ho
      obtain ⟨e, q', hwk, rfl⟩ := ho
      simp [key e q' hwk, hqb]
    | some qb =>
      by_cases hlt : bl.height < qb.height
      · simp only [hq, hqb, hlt, decide_True, if_true, Option.some.injEq] at ho
        subst ho
        simp only [true_iff]
        exact .inl ⟨q, qb, rfl, hqb, hlt⟩
      · simp only [hq, hqb, hlt, decide_False, Bool.false_eq_true, if_false, Option.map_eq_some',
          Prod.exists] at ho
        obtain ⟨e, q', hwk, rfl⟩ := ho
        simp [key e q' hwk, hqb, hlt]

/-! ## `on_receive_proposal` -/

theorem onReceiveProposal_finish {s s₁ s' : HotStuffCore} {prop : Proposal} {o₁ out : List Output}
    {bnew : Block}
    (hpre : prop.proposer = s.id ∧ s₁ = s ∧ o₁ = [] ∨
      prop.proposer ≠ s.id ∧ s.isDelivered prop.blk = true ∧ update s prop.blk = .ok () s₁ o₁)
    (hb : s₁.findBlk prop.blk = some bnew) (hr : onReceiveProposal s prop = .ok () s' out) :
    ∃ op o₂, opinion s₁ prop.blk bnew = some op ∧ finishProposal s₁ prop bnew op = .ok () s' o₂ ∧
      out = o₁ ++ o₂ := by
  have hpre' : (if prop.proposer = s.id then Result.ok () s []
      else if s.isDelivered prop.blk then update s prop.blk else .error "block not delivered" s []) =
      Result.ok () s₁ o₁ := by
    rcases hpre with ⟨hp, rfl, rfl⟩ | ⟨hp, hd, hu⟩
    · exact if_pos hp
    · rw [if_neg hp, if_pos hd, hu]
  simp only [onReceiveProposal, hpre', Result.ok_andThen, hb] at hr
  cases ho : opinion s₁ prop.blk bnew with
  | none => simp [ho] at hr
  | some op =>
    simp only [ho] at hr
    obtain ⟨t, o₂, hf⟩ : ∃ t o₂, finishProposal s₁ prop bnew op = .ok () t o₂ := ⟨_, _, rfl⟩
    rw [hf] at hr
    simp only [Result.ok.injEq] at hr
    obtain ⟨-, rfl, rfl⟩ := hr
    exact ⟨op, o₂, rfl, hf, rfl⟩

theorem onReceiveProposal_opinion {s s₁ s' : HotStuffCore} {prop : Proposal} {o₁ out : List Output}
    {bnew bl : Block} (hs : Reachable anyOp s)
    (hpre : prop.proposer = s.id ∧ s₁ = s ∧ o₁ = [] ∨
      prop.proposer ≠ s.id ∧ s.isDelivered prop.blk = true ∧ update s prop.blk = .ok () s₁ o₁)
    (hb : s₁.findBlk prop.blk = some bnew) (hd : bnew.delivered = true)
    (hl : s₁.findBlk s₁.bLock = some bl) (hnw : NoWrap s₁)
    (hr : onReceiveProposal s prop = .ok () s' out) :
    ∃ op : Bool, (op = true ↔ VoteRule s₁ prop.blk bnew bl) ∧
      voteLog out = (if op && !s₁.voteDisabled then [(prop.proposer, ⟨s₁.id, prop.blk⟩)] else []) ∧
      s'.vheight = if op then bnew.height else s₁.vheight := by
  obtain ⟨_, hrun⟩ := hs
  have hw₁ : Wf s₁ := by
    rcases hpre with ⟨-, rfl, -⟩ | ⟨-, -, hu⟩
    · exact hrun.wf
    · exact (update_keeps chainable_true (Wf.leaves anyOp).toUpdateLeaves s prop.blk hrun.wf s₁
        (by rw [hu]; rfl)).1
  have ho₁ : voteLog o₁ = [] := by
    rcases hpre with ⟨-, -, rfl⟩ | ⟨-, -, hu⟩
    · rfl
    · exact voteLog_update hu
  obtain ⟨op, o₂, hop, hf, rfl⟩ := onReceiveProposal_finish hpre hb hr
  refine ⟨op, opinion_iff_voteRule hw₁ hnw hb hd hl hop, ?_, ?_⟩
  · have hv := voteLog_finishProposal s₁ prop bnew op
    rw [hf, Result.outputs_ok] at hv
    rw [voteLog_append, ho₁, List.nil_append, hv]
  · obtain ⟨w, hs', -⟩ := finishProposal_state (by rw [hf]; rfl : (finishProposal s₁ prop bnew op).state? = some s')
    rw [hs']

end Alkane.Core
