import Alkane.Core.System
import Alkane.Core.Invariants.VoteHeight

/-!
# 系の実行：各レプリカへの射影と、二つの QC の共通の正直な投票者

系の実行で、各レプリカの状態と出力は、そのレプリカに届いた出来事だけを届いた順に処理したもの
（`run_project`）：レプリカどうしは出力を通してしか関わらない。
`prune` の届かない系の実行では、正直なレプリカは自分の名を持ち、その状態と出力は `honestOp` だけの
自分の実行のもの（`HonestRun`）：正直なレプリカが自分の名の提案を受け取るのは、自分が放送した
ときだけだから。正直なレプリカの数と、ビザンチンのレプリカの数の二倍の和が `nmajority` の二倍より
小さければ、`b0` でない異なるブロックへの有効な二つの QC には共通の正直な投票者がいて、その
レプリカの表で二つのブロックはどちらも配送済み、高さが異なる（`qc_common_voter_heights_differ`）。
-/

namespace Alkane.Core

namespace System

open EntityStorage HotStuffCore

/-! ## 各レプリカへの射影 -/

section Project

variable {replicas byz : List ReplicaID} {b0 : BlockHash}

theorem step_eq_some {σ σ' : System} {r : ReplicaID} {op : Op} (h : step replicas byz b0 σ r op = some σ') :
    op.ContentAddressed (σ.replica r) ∧ (exec (σ.replica r) op).state? = some (σ'.replica r) ∧
      (∀ r', r' ≠ r → σ'.replica r' = σ.replica r') ∧
      ∀ r', σ'.outputs r' = σ.outputs r' ++ if r = r' then (exec (σ.replica r) op).outputs else [] := by
  unfold System.step at h
  split_ifs at h with hc
  obtain ⟨s', hs', rfl⟩ := Option.map_eq_some'.mp h
  exact ⟨hc.2.2, by simpa using hs', fun r' e => Function.update_noteq e _ _, fun r' => outputs_mk _ _ _ _ _⟩

variable (replicas byz b0) in
/-- 系の実行で、各レプリカの状態と新しい出力は、そのレプリカに届いた出来事だけを届いた順に
`runOpsOut` で処理したもの：ほかのレプリカの出来事とどう交わっても変わらない。 -/
theorem run_project : ∀ (evs : List (ReplicaID × Op)) {σ σ' : System}, run replicas byz b0 σ evs = some σ' →
    ∀ r, ∃ o, runOpsOut (σ.replica r) ((evs.filter (·.1 = r)).map (·.2)) = some (σ'.replica r, o) ∧
      σ'.outputs r = σ.outputs r ++ o
  | [], _, _, h, r => by cases h; exact ⟨[], rfl, (List.append_nil _).symm⟩
  | (r₀, op) :: evs, σ, σ', h, r => by
    obtain ⟨σ₁, h₁, h'⟩ := Option.bind_eq_some.mp h
    obtain ⟨hc, he, hother, hout⟩ := step_eq_some h₁
    obtain ⟨o, ho, hσ'⟩ := run_project evs h' r
    by_cases e : r₀ = r
    · subst e
      refine ⟨(exec (σ.replica r₀) op).outputs ++ o, ?_, ?_⟩
      · rw [List.filter_cons_of_pos (by simp), List.map_cons, runOpsOut_cons _ hc he, ho]
        rfl
      · rw [hσ', hout, if_pos rfl, List.append_assoc]
    · refine ⟨o, ?_, ?_⟩
      · rw [List.filter_cons_of_neg (by simpa using e), ← hother r (Ne.symm e)]
        exact ho
      · rw [hσ', hout, if_neg e, List.append_nil]

end Project

/-! ## 二つの定足数 -/

theorem exists_common_not_mem {A B H Z : List ReplicaID} {m : Nat} (hA : A.Nodup) (hB : B.Nodup)
    (hmA : m ≤ A.length) (hmB : m ≤ B.length) (hAs : ∀ p ∈ A, p ∈ Z ∨ p ∈ H)
    (hBs : ∀ p ∈ B, p ∈ Z ∨ p ∈ H) (hq : H.dedup.length + 2 * Z.dedup.length < 2 * m) :
    ∃ p ∈ A, p ∈ B ∧ p ∉ Z := by
  by_contra hno
  push_neg at hno
  have sub : ∀ {C : List ReplicaID}, (∀ p ∈ C, p ∈ Z ∨ p ∈ H) → C.toFinset \ Z.toFinset ⊆ H.toFinset := by
    intro C hC p hp
    simp only [Finset.mem_sdiff, List.mem_toFinset] at hp ⊢
    exact (hC p hp.1).resolve_left hp.2
  have disj : (A.toFinset \ Z.toFinset) ∩ (B.toFinset \ Z.toFinset) = ∅ := by
    ext p
    simp only [Finset.mem_inter, Finset.mem_sdiff, List.mem_toFinset, Finset.not_mem_empty, iff_false]
    exact fun ⟨⟨ha, hz⟩, hb, _⟩ => hz (hno p ha hb)
  have hu := Finset.card_union_add_card_inter (A.toFinset \ Z.toFinset) (B.toFinset \ Z.toFinset)
  have ha := Finset.le_card_sdiff Z.toFinset A.toFinset
  have hb := Finset.le_card_sdiff Z.toFinset B.toFinset
  have hH := Finset.card_le_card (Finset.union_subset (sub hAs) (sub hBs))
  rw [disj, Finset.card_empty] at hu
  rw [List.toFinset_card_of_nodup hA, List.card_toFinset] at ha
  rw [List.toFinset_card_of_nodup hB, List.card_toFinset] at hb
  rw [List.card_toFinset] at hH
  omega

/-! ## 正直なレプリカの実行 -/

section Honest

variable {replicas byz : List ReplicaID} {b0 : BlockHash}

theorem mem_honest {r : ReplicaID} : r ∈ honest replicas byz ↔ r ∈ replicas ∧ r ∉ byz := by
  simp [honest]

theorem mem_outputs {σ : System} {x : ReplicaID × Output} (hx : x ∈ σ.sent) : x.2 ∈ σ.outputs x.1 :=
  List.mem_map.mpr ⟨x, List.mem_filter.mpr ⟨hx, decide_eq_true rfl⟩, rfl⟩

variable (replicas byz) in
/-- 系の実行の不変条件：正直なレプリカは自分の名を持ち、その状態と出力は `honestOp` だけの実行の
もので、出力を送ったのは正直なレプリカだけ。 -/
structure HonestRun (σ : System) : Prop where
  id : ∀ r ∈ honest replicas byz, (σ.replica r).id = r
  replicaRun : ∀ r ∈ honest replicas byz, Run honestOp (σ.replica r) (σ.outputs r)
  sender : ∀ x ∈ σ.sent, x.1 ∈ honest replicas byz

theorem HonestRun.init (nfaulty : Nat) (γ : Float) : HonestRun replicas byz (init replicas b0 nfaulty γ) where
  id _ _ := rfl
  replicaRun r _ := .init b0 r replicas nfaulty γ
  sender _ h := nomatch h

theorem HonestRun.broadcast {σ : System} (h : HonestRun replicas byz σ) {r : ReplicaID} {prop : Proposal}
    (hx : (r, Output.doBroadcastProposal prop) ∈ σ.sent) :
    prop.proposer = r ∧ (σ.replica r).isDelivered prop.blk = true := by
  have hr := h.sender _ hx
  have hp := (VotesRise.run (h.replicaRun r hr)).proposals prop
    (List.mem_filterMap.mpr ⟨_, mem_outputs hx, rfl⟩)
  rwa [h.id r hr] at hp

theorem HonestRun.vote {σ : System} (h : HonestRun replicas byz σ) {r x : ReplicaID} {v : Vote}
    (hx : (r, Output.doVote x v) ∈ σ.sent) :
    r ∈ honest replicas byz ∧ v.voter = r ∧ (x, v) ∈ voteLog (σ.outputs r) := by
  have hr := h.sender _ hx
  have hv : (x, v) ∈ voteLog (σ.outputs r) := List.mem_filterMap.mpr ⟨_, mem_outputs hx, rfl⟩
  exact ⟨hr, ((VotesRise.run (h.replicaRun r hr)).voter _ hv).trans (h.id r hr), hv⟩

theorem HonestRun.voted {σ : System} (h : HonestRun replicas byz σ) {p : ReplicaID} {k : BlockHash}
    (hv : voted byz σ p k = true) :
    p ∈ byz ∨ p ∈ honest replicas byz ∧ ∃ x, (x, ⟨p, k⟩) ∈ voteLog (σ.outputs p) := by
  simp only [System.voted, Bool.or_eq_true, decide_eq_true_eq, List.any_eq_true] at hv
  refine hv.imp_right fun ⟨⟨r, o⟩, hx, ho⟩ => ?_
  cases o with
  | doVote x v =>
    obtain rfl : v = ⟨p, k⟩ := by simpa using ho
    obtain ⟨hr, rfl, hv⟩ := h.vote hx
    exact ⟨hr, x, hv⟩
  | _ => cases ho

theorem HonestRun.honestOp {σ : System} (h : HonestRun replicas byz σ) {r : ReplicaID} {op : Op}
    (hr : r ∈ honest replicas byz) (hadm : admits replicas byz b0 σ r op = true) (hp : ∀ n, op ≠ .prune n) :
    Alkane.Core.honestOp (σ.replica r) op := by
  cases op with
  | prune n => exact hp n rfl
  | receiveProposal prop =>
    intro he
    rw [h.id r hr] at he
    simp only [admits, Bool.or_eq_true, decide_eq_true_eq, List.any_eq_true, beq_iff_eq] at hadm
    rcases hadm with hb | ⟨⟨r', o⟩, hx, rfl⟩
    · exact absurd hb (he ▸ (mem_honest.mp hr).2)
    · obtain ⟨e, hd⟩ := h.broadcast hx
      rwa [← e, he] at hd
  | _ => trivial

theorem HonestRun.step {σ σ' : System} (h : HonestRun replicas byz σ) {r : ReplicaID} {op : Op}
    (hp : ∀ n, op ≠ .prune n) (hs : step replicas byz b0 σ r op = some σ') : HonestRun replicas byz σ' := by
  unfold System.step at hs
  split_ifs at hs with hc
  obtain ⟨hr, hadm, hca⟩ := hc
  obtain ⟨s', hs', rfl⟩ := Option.map_eq_some'.mp hs
  have ha := h.honestOp hr hadm hp
  have hid : s'.id = (σ.replica r).id :=
    (exec_keeps Replays.chainable Replays.leaves ha.noPrune hca (h.replicaRun r hr).wf _ hs').2.1.1
  refine ⟨fun r' hr' => ?_, fun r' hr' => ?_, fun x hx => ?_⟩
  · by_cases e : r' = r
    · subst e; simpa [hid] using h.id r' hr'
    · simpa [Function.update_noteq e] using h.id r' hr'
  · rw [outputs_mk]
    by_cases e : r' = r
    · subst e; simpa using (h.replicaRun r' hr').step ha hca hs'
    · simpa [Function.update_noteq e, Ne.symm e] using h.replicaRun r' hr'
  · rcases List.mem_append.mp hx with hx | hx
    · exact h.sender x hx
    · obtain ⟨o, -, rfl⟩ := List.mem_map.mp hx
      exact hr

theorem HonestRun.run : ∀ (evs : List (ReplicaID × Op)) {σ σ' : System}, HonestRun replicas byz σ →
    (∀ r n, (r, Op.prune n) ∉ evs) → System.run replicas byz b0 σ evs = some σ' → HonestRun replicas byz σ'
  | [], _, _, h, _, hr => by cases hr; exact h
  | (r, op) :: evs, _, _, h, hp, hr => by
    obtain ⟨σ₁, h₁, h'⟩ := Option.bind_eq_some.mp hr
    refine HonestRun.run evs (h.step (fun n e => hp r n (e ▸ List.mem_cons_self _ _)) h₁)
      (fun r' n hm => hp r' n (List.mem_cons_of_mem _ hm)) h'

end Honest

/-! ## 二つの QC -/

theorem HonestRun.qcValid {replicas byz : List ReplicaID} {b0 : BlockHash} {m : Nat} {σ : System}
    {q : QuorumCert} (h : HonestRun replicas byz σ) (hv : qcValid byz b0 m σ q = true) (h0 : q.objHash ≠ b0) :
    q.parts.Nodup ∧ m ≤ q.parts.length ∧ ∀ p ∈ q.parts,
      p ∈ byz ∨ p ∈ honest replicas byz ∧ ∃ x, (x, ⟨p, q.objHash⟩) ∈ voteLog (σ.outputs p) := by
  simp only [System.qcValid, Bool.or_eq_true, beq_iff_eq, h0, false_or, Bool.and_eq_true,
    decide_eq_true_eq, List.all_eq_true] at hv
  exact ⟨hv.1.1, hv.1.2, fun p hp => h.voted (hv.2 p hp)⟩

theorem heights_differ_of_votes {s : HotStuffCore} {out : List Output} (hr : Run honestOp s out)
    {p x y : ReplicaID} {k k' : BlockHash} (hk : (x, ⟨p, k⟩) ∈ voteLog out) (hk' : (y, ⟨p, k'⟩) ∈ voteLog out)
    (hne : k ≠ k') :
    ∃ b c, s.findBlk k = some b ∧ s.findBlk k' = some c ∧ b.delivered ∧ c.delivered ∧ b.height ≠ c.height := by
  have hv := VotesRise.run hr
  obtain ⟨b, hb, hbd, -⟩ := hv.delivered _ hk
  obtain ⟨c, hc, hcd, -⟩ := hv.delivered _ hk'
  have hsym := (hv.rises.imp fun {v w} hvw => Or.inl hvw).forall
    (fun _ _ hvw => hvw.symm) hk hk' fun e => hne (congrArg (·.2.blkHash) e)
  refine ⟨b, c, hb, hc, hbd, hcd, fun e => ?_⟩
  rcases hsym with hlt | hlt
  · exact absurd (hlt b c hb hc) (by omega)
  · exact absurd (hlt c b hc hb) (by omega)

variable (replicas byz : List ReplicaID) (b0 : BlockHash)

/-- `prune` の届かない系の実行で、正直なレプリカの数とビザンチンのレプリカの数の二倍の和が `m` の
二倍より小さければ、`b0` でない異なるブロックへの有効な二つの QC には共通の正直な投票者がいて、
その表で二つのブロックはどちらも配送済み、高さが異なる：同じ高さの異なる二つのブロックに QC は
できない。 -/
theorem qc_common_voter_heights_differ {nfaulty : Nat} {γ : Float} {m : Nat} {evs : List (ReplicaID × Op)}
    {σ : System} {q q' : QuorumCert} (hq : (honest replicas byz).dedup.length + 2 * byz.dedup.length < 2 * m)
    (hp : ∀ r n, (r, Op.prune n) ∉ evs) (hrun : run replicas byz b0 (init replicas b0 nfaulty γ) evs = some σ)
    (hv : qcValid byz b0 m σ q = true) (hv' : qcValid byz b0 m σ q' = true) (h0 : q.objHash ≠ b0)
    (h0' : q'.objHash ≠ b0) (hne : q.objHash ≠ q'.objHash) :
    ∃ p ∈ honest replicas byz, ∃ b c, (σ.replica p).findBlk q.objHash = some b ∧
      (σ.replica p).findBlk q'.objHash = some c ∧ b.delivered ∧ c.delivered ∧ b.height ≠ c.height := by
  have h := HonestRun.run evs (HonestRun.init nfaulty γ) hp hrun
  obtain ⟨hn, hm, hparts⟩ := h.qcValid hv h0
  obtain ⟨hn', hm', hparts'⟩ := h.qcValid hv' h0'
  obtain ⟨p, hpA, hpB, hpz⟩ := exists_common_not_mem hn hn' hm hm'
    (fun p hp => (hparts p hp).imp_right (·.1)) (fun p hp => (hparts' p hp).imp_right (·.1)) hq
  obtain ⟨hph, x, hx⟩ := (hparts p hpA).resolve_left hpz
  obtain ⟨-, y, hy⟩ := (hparts' p hpB).resolve_left hpz
  exact ⟨p, hph, heights_differ_of_votes (h.replicaRun p hph) hx hy hne⟩

/-- レプリカ `0` と `1` が、ビザンチンのレプリカ `3` の提案するブロック `1` と `2` を同じ順に処理する。 -/
def twoProposals : List (ReplicaID × Op) :=
  (proposalOps 1 0 ⟨0, []⟩ 2 ++ proposalOps 2 1 (qcOf013 1) 3).flatMap fun op => [(0, op), (1, op)]

theorem qc_common_voter_heights_differ_two :
    ∃ σ, run [0, 1, 2, 3] [3] 0 (init [0, 1, 2, 3] 0 1 0.5) twoProposals = some σ ∧
      ∃ p ∈ honest [0, 1, 2, 3] [3], ∃ b c, (σ.replica p).findBlk 1 = some b ∧
        (σ.replica p).findBlk 2 = some c ∧ b.delivered ∧ c.delivered ∧ b.height ≠ c.height := by
  obtain ⟨σ, hrun, hv⟩ := Option.map_eq_some'.mp
    (show (run [0, 1, 2, 3] [3] 0 (init [0, 1, 2, 3] 0 1 0.5) twoProposals).map
        (fun σ => qcValid [3] 0 3 σ (qcOf013 1) && qcValid [3] 0 3 σ (qcOf013 2)) = some true by decide)
  simp only [Bool.and_eq_true] at hv
  exact ⟨σ, hrun, qc_common_voter_heights_differ [0, 1, 2, 3] [3] 0 (by decide)
    (by simp [twoProposals, proposalOps]) hrun hv.1 hv.2 (by decide) (by decide) (by decide)⟩

end System

end Alkane.Core
