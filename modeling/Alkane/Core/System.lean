import Alkane.Core.Exec

/-!
# レプリカの系

正直なレプリカはそれぞれ `HotStuffCore` を動かし、ビザンチンのレプリカ（`byz`）は自分の名で任意の
ブロック、提案、票、局所順序を送る。系の一歩は、正直なレプリカ一つが `Op` を一つ処理することで、
正直な送り手からのメッセージは、その送り手が実際に出力したものに限る。ブロックはハッシュで番地づけ
され、QC が名指すブロックは `b0`（全員が投票済み）か、`nmajority` 人の異なるレプリカが投票したもの。
各レプリカの状態と出力は、そのレプリカ自身の `Run` のもの（`System.run_replica`）。
-/

namespace Alkane.Core

/-- Modelled from the spec: 系の状態。正直なレプリカそれぞれの `HotStuffCore` と、正直なレプリカが
これまでに出した出力（出したレプリカと組にして）。 -/
structure System where
  replica : ReplicaID → HotStuffCore
  sent : List (ReplicaID × Output)

namespace System

/-- レプリカ `r` の出力。 -/
def outputs (σ : System) (r : ReplicaID) : List Output := (σ.sent.filter (·.1 = r)).map (·.2)

section Rules

variable (replicas byz : List ReplicaID) (b0 : BlockHash)

/-- 初期状態：どのレプリカも `on_init` の後で、まだ何も出力していない。 -/
def init (nfaulty : Nat) (γ : Float) : System :=
  ⟨fun id => HotStuffCore.init b0 id replicas nfaulty γ, []⟩

/-- 正直なレプリカ。 -/
def honest : List ReplicaID := replicas.filter (· ∉ byz)

/-- `p` が `h` への票を送った。ビザンチンのレプリカは何にでも送れる。 -/
def voted (σ : System) (p : ReplicaID) (h : BlockHash) : Bool :=
  p ∈ byz || σ.sent.any fun o => match o.2 with
    | .doVote _ v => v == ⟨p, h⟩
    | _ => false

/-- Modelled from the spec: QC が名指すブロックは `b0` か、名指す `nmajority` 人以上の異なるレプリカが
どれもそのブロックへの票を送ったもの。 -/
def qcValid (nmajority : Nat) (σ : System) (q : QuorumCert) : Bool :=
  q.objHash == b0 ||
    (decide q.parts.Nodup && nmajority ≤ q.parts.length && q.parts.all fun p => voted byz σ p q.objHash)

/-- ハッシュ `h` のブロックを正直なレプリカが持っていれば、届いた内容と同じ（ハッシュは内容から
決まる）。 -/
def sameContent (σ : System) (h : BlockHash) (ps : List BlockHash) (qc : Option QuorumCert)
    (orders : List (ReplicaID × List CmdHash)) : Bool :=
  (honest replicas byz).all fun r => ((σ.replica r).findBlk h).all fun b =>
    b.parentHashes == ps && b.qc == qc && b.orders == orders

/-- Modelled from the spec: レプリカ `r` に届いてよい出来事。ブロックは内容の番地づけに合い、QC が
有効なもの。票、提案、局所順序は、送り手がビザンチンか、送り手が実際に出力したもの。自分の操作は
いつでもよい。 -/
def admits (σ : System) (r : ReplicaID) : Op → Bool
  | .fetch h ps qc orders _ =>
    sameContent replicas byz σ h ps qc orders && qc.all (qcValid byz b0 (σ.replica r).config.nmajority σ)
  | .receiveVote v => voted byz σ v.voter v.blkHash
  | .receiveProposal prop => prop.proposer ∈ byz || σ.sent.any (·.2 == .doBroadcastProposal prop)
  | .receiveLocalOrder lo => lo.initiator ∈ byz || σ.sent.any fun o => match o.2 with
    | .doSendLocalOrder _ lo' => lo' == lo
    | _ => false
  | _ => true

/-- Modelled from the spec: 正直なレプリカ `r` が出来事 `op` を処理する。届いてはならない出来事、
内容の番地づけに反する提案、未定義動作では進まない。例外を投げた操作の後は進む。 -/
def step (σ : System) (r : ReplicaID) (op : Op) : Option System :=
  if r ∈ honest replicas byz ∧ admits replicas byz b0 σ r op = true ∧ op.ContentAddressed (σ.replica r) then
    (exec (σ.replica r) op).state?.map fun s' =>
      ⟨Function.update σ.replica r s', σ.sent ++ (exec (σ.replica r) op).outputs.map (r, ·)⟩
  else none

/-- Modelled from the spec: 出来事の列を、どの順でも、一つずつ処理する。 -/
def run (σ : System) : List (ReplicaID × Op) → Option System
  | [] => some σ
  | (r, op) :: evs => (step replicas byz b0 σ r op).bind fun σ' => run σ' evs

theorem outputs_mk (replica : ReplicaID → HotStuffCore) (sent : List (ReplicaID × Output)) (r r' : ReplicaID)
    (out : List Output) :
    outputs ⟨replica, sent ++ out.map (r, ·)⟩ r' = outputs ⟨replica, sent⟩ r' ++ if r = r' then out else [] := by
  by_cases e : r = r' <;> simp [outputs, e, List.filter_map, Function.comp_def]

theorem step_replica {σ σ' : System} {r : ReplicaID} {op : Op} (h : step replicas byz b0 σ r op = some σ')
    (hr : ∀ r, Run anyOp (σ.replica r) (σ.outputs r)) : ∀ r', Run anyOp (σ'.replica r') (σ'.outputs r') := by
  unfold step at h
  split_ifs at h with hc
  obtain ⟨s', hs', rfl⟩ := Option.map_eq_some'.mp h
  intro r'
  rw [outputs_mk]
  by_cases e : r' = r
  · subst e
    simpa using (hr r').step trivial hc.2.2 hs'
  · simpa [Function.update_noteq e, Ne.symm e] using hr r'

theorem run_replica : ∀ (evs : List (ReplicaID × Op)) {σ σ' : System},
    (∀ r, Run anyOp (σ.replica r) (σ.outputs r)) → run replicas byz b0 σ evs = some σ' →
      ∀ r, Run anyOp (σ'.replica r) (σ'.outputs r)
  | [], _, _, hr, h => by cases h; exact hr
  | (r, op) :: evs, σ, σ', hr, h => by
    obtain ⟨σ₁, h₁, h'⟩ := Option.bind_eq_some.mp h
    exact run_replica evs (step_replica replicas byz b0 h₁ hr) h'

end Rules

/-- Modelled from the spec (P2)：正直な二つのレプリカが `do_consensus` に渡したブロックは、高さが
同じなら同じ。 -/
def CommitAgreement (σ : System) : Prop :=
  ∀ r₁ r₂ h₁ h₂ b₁ b₂, (r₁, Output.doConsensus h₁) ∈ σ.sent → (r₂, Output.doConsensus h₂) ∈ σ.sent →
    (σ.replica r₁).findBlk h₁ = some b₁ → (σ.replica r₂).findBlk h₂ = some b₂ → b₁.height = b₂.height → h₁ = h₂

/-! ## 分かれた鎖 -/

/-- ビザンチンのレプリカ `3` がブロック `h`（親 `p`、QC `q`、コマンド `100 + h`、高さ `ht`）を送って
提案する：正直なレプリカは受け取り、配送し、提案として受け取る。 -/
def proposalOps (h p : BlockHash) (q : QuorumCert) (ht : Nat) : List Op :=
  [.fetch h [p] (some q) [(3, [100 + h])] ht, .deliver h, .receiveProposal ⟨3, h⟩]

/-- レプリカ `3` が提案せずに送るブロック（QC は `b0` のもの）：正直なレプリカは受け取って配送する。 -/
def relayOps (h p : BlockHash) (ht : Nat) : List Op :=
  [.fetch h [p] (some ⟨0, []⟩) [(3, [100 + h])] ht, .deliver h]

/-- ブロック `h` への `0, 1, 3` の票の QC。 -/
def qcOf013 (h : BlockHash) : QuorumCert := ⟨h, [0, 1, 3]⟩

/-- レプリカ `0` と `1` が同じ順に処理する出来事。主鎖 `1, 2, 3, 4`（`4` の提案でブロック `1` が
確定する）、`b0` から分かれた鎖 `11, 12, 13, 14`、その上のブロック `15`（QC は主鎖のブロック `3` の
もの）、`16`、`17`、`18`。`18` の提案はまだ届いていない。 -/
def forkOps : List Op :=
  proposalOps 1 0 ⟨0, []⟩ 2 ++ proposalOps 2 1 (qcOf013 1) 3 ++ proposalOps 3 2 (qcOf013 2) 4 ++
    proposalOps 4 3 (qcOf013 3) 5 ++ relayOps 11 0 2 ++ relayOps 12 11 3 ++ relayOps 13 12 4 ++
    relayOps 14 13 5 ++ proposalOps 15 14 (qcOf013 3) 6 ++ proposalOps 16 15 (qcOf013 15) 7 ++
    proposalOps 17 16 (qcOf013 16) 8 ++ [.fetch 18 [17] (some (qcOf013 17)) [(3, [118])] 9, .deliver 18]

/-- レプリカ `2` が処理する出来事：分かれた鎖だけを受け取り（ブロック `3` は `15` の QC のために取って
くるだけ）、`18` の提案を受け取る。 -/
def forkOnlyOps : List Op :=
  relayOps 11 0 2 ++ relayOps 12 11 3 ++ relayOps 13 12 4 ++ relayOps 14 13 5 ++
    [.fetch 3 [2] (some (qcOf013 2)) [(3, [103])] 4] ++
    [.fetch 15 [14] (some (qcOf013 3)) [(3, [115])] 6, .deliver 15,
      .fetch 16 [15] (some (qcOf013 15)) [(3, [116])] 7, .deliver 16,
      .fetch 17 [16] (some (qcOf013 16)) [(3, [117])] 8, .deliver 17,
      .fetch 18 [17] (some (qcOf013 17)) [(3, [118])] 9, .deliver 18, .receiveProposal ⟨3, 18⟩]

/-- レプリカ `{0, 1, 2, 3}`、`nfaulty = 1`、ビザンチンは `3` だけの系の実行。 -/
def forkAttack : List (ReplicaID × Op) :=
  forkOps.flatMap (fun op => [(0, op), (1, op)]) ++ forkOnlyOps.map (2, ·)

/-- ビザンチンのリーダー `3` は、主鎖のブロック `3` の QC を、分かれた鎖の上のブロック `15` に付けて
提案する。`on_receive_proposal` の活性の条件は `qc_ref` が `b_lock` より高いことだけを見て、`15` が
`qc_ref` の上にあるかを見ないので、ブロック `1` を確定したレプリカ `0` と `1` も `15`、`16`、`17` に
投票する。その QC で、主鎖を受け取っていないレプリカ `2` は分かれた鎖を確定し、高さ 2 でブロック `1`
ではなくブロック `11` を `do_consensus` に渡す。レプリカ `0` が `18` の提案を受け取ると、`update` は
`b_exec`（ブロック `1`）に着かずに `safety breached` を投げる。 -/
theorem byzantine_fork_breaks_safety :
    ∃ σ, System.run [0, 1, 2, 3] [3] 0 (System.init [0, 1, 2, 3] 0 1 0.5) forkAttack = some σ ∧
      ¬ σ.CommitAgreement ∧ System.admits [0, 1, 2, 3] [3] 0 σ 0 (.receiveProposal ⟨3, 18⟩) = true ∧
      ∃ s' o, exec (σ.replica 0) (.receiveProposal ⟨3, 18⟩) = .error "safety breached" s' o := by
  obtain ⟨σ, hrun, hσ⟩ := Option.map_eq_some'.mp
    (show (System.run [0, 1, 2, 3] [3] 0 (System.init [0, 1, 2, 3] 0 1 0.5) forkAttack).map
        (fun σ => (decide ((0, Output.doConsensus 1) ∈ σ.sent) && decide ((2, Output.doConsensus 11) ∈ σ.sent) &&
          ((σ.replica 0).findBlk 1).map Block.height == some 2 &&
          ((σ.replica 2).findBlk 11).map Block.height == some 2 &&
          System.admits [0, 1, 2, 3] [3] 0 σ 0 (.receiveProposal ⟨3, 18⟩) &&
          (exec (σ.replica 0) (.receiveProposal ⟨3, 18⟩)).error? == some "safety breached")) = some true by
      decide)
  simp only [Bool.and_eq_true, decide_eq_true_eq, beq_iff_eq] at hσ
  obtain ⟨⟨⟨⟨⟨h0, h2⟩, hb1⟩, hb11⟩, hadm⟩, herr⟩ := hσ
  obtain ⟨b1, hb1, ht1⟩ := Option.map_eq_some'.mp hb1
  obtain ⟨b11, hb11, ht11⟩ := Option.map_eq_some'.mp hb11
  exact ⟨σ, hrun, fun hA => absurd (hA 0 2 1 11 b1 b11 h0 h2 hb1 hb11 (ht1.trans ht11.symm)) (by decide), hadm,
    _, _, Result.eq_error_of_error? herr (σ.replica 0)⟩

end System

end Alkane.Core
