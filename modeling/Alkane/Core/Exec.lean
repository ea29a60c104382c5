import Alkane.Core.Consensus

/-!
# レプリカの実行

一つのレプリカに外から届く出来事（`Op`）と、それを処理する `exec`、初期状態からの実行
（`Run`）。ブロックの受信（`Proposal::unserialize` や取得による `add_blk`）も出来事の一つで、
送り手の書いた内容がそのまま届く。

`Run` は許される出来事を述語 `allowed` で制限できる。例外を投げた操作の後も実行は続き、
未定義動作の後には続かない。
-/

namespace Alkane.Core

namespace Result

variable {α : Type}

/-- 返り値を捨てる。 -/
def discard (r : Result α) : Result Unit :=
  match r with
  | ok _ s out => ok () s out
  | error m s out => error m s out
  | undefined => undefined

@[simp] theorem state?_discard (r : Result α) : r.discard.state? = r.state? := by
  cases r <;> rfl

@[simp] theorem outputs_discard (r : Result α) : r.discard.outputs = r.outputs := by
  cases r <;> rfl

/-- 正常に返った値（例外と未定義動作なら `none`）。 -/
def value? : Result α → Option α
  | ok a _ _ => some a
  | _ => none

/-- 投げた例外の文（正常に返ったときと未定義動作なら `none`）。 -/
def error? : Result α → Option String
  | error m _ _ => some m
  | _ => none

theorem eq_ok_of_value? {r : Result α} {a : α} (h : r.value? = some a) (d : HotStuffCore) :
    r = ok a (r.state?.getD d) r.outputs := by
  cases r <;> simp_all [value?, state?, outputs]

theorem eq_error_of_error? {r : Result α} {m : String} (h : r.error? = some m) (d : HotStuffCore) :
    r = error m (r.state?.getD d) r.outputs := by
  cases r <;> simp_all [error?, state?, outputs]

end Result

/-- レプリカに届く出来事。 -/
inductive Op where
  /-- 受け取ったブロックを表に入れる（`storage->add_blk`）。 -/
  | fetch (h : BlockHash) (parentHashes : List BlockHash) (qc : Option QuorumCert)
      (orders : List (ReplicaID × List CmdHash)) (height : Nat)
  | deliver (h : BlockHash)
  | propose (orders : List (ReplicaID × List CmdHash)) (parents : List BlockHash) (h : BlockHash)
  | receiveProposal (prop : Proposal)
  | receiveVote (vote : Vote)
  | localOrder (proposer : ReplicaID) (order : List CmdHash)
  | receiveLocalOrder (lo : LocalOrder)
  | fairPropose
  | prune (staleness : Nat)
  | asyncQcFinish (h : BlockHash)
  /-- 公開の `set_vote_disabled(f)`：投票を止める（または再開する）。 -/
  | setVoteDisabled (f : Bool)
  deriving DecidableEq, Repr

/-- 出来事を一つ処理する。 -/
def exec (s : HotStuffCore) : Op → Result Unit
  | .fetch h ps qc orders ht =>
    .ok () { s with storage := s.storage.addBlk h (Block.ofWire ps qc orders ht) } []
  | .deliver h => (onDeliverBlk s h).discard
  | .propose orders parents h => (onPropose s orders parents h).discard
  | .receiveProposal prop => onReceiveProposal s prop
  | .receiveVote vote => onReceiveVote s vote
  | .localOrder proposer order => onLocalOrder s proposer order
  | .receiveLocalOrder lo => (onReceiveLocalOrder s lo).discard
  | .fairPropose => .ok () { s with storage := (fairPropose s.storage).2 } []
  | .prune n => prune s n
  | .asyncQcFinish h => (asyncQcFinish s h).discard
  | .setVoteDisabled f => .ok () { s with voteDisabled := f } []

/-- ストレージは内容で番地づけされている：`on_propose` の新しいブロックのハッシュが表に
あれば、それは同じ内容のブロックである。 -/
def Op.ContentAddressed (s : HotStuffCore) : Op → Prop
  | .propose orders parents h =>
    ∀ b, s.findBlk h = some b → b.parentHashes = parents ∧ b.orders = orders ∧ b.qc = some s.hqc.2
  | _ => True

instance (s : HotStuffCore) (op : Op) : Decidable (op.ContentAddressed s) := by
  cases op with
  | propose orders parents h =>
    exact match hf : s.findBlk h with
      | none => isTrue fun b hb => by simp [hf] at hb
      | some b =>
        if hc : b.parentHashes = parents ∧ b.orders = orders ∧ b.qc = some s.hqc.2 then
          isTrue fun b' hb => by simp [hf] at hb; exact hb ▸ hc
        else isFalse fun hall => hc (hall b hf)
  | _ => exact isTrue trivial

/-- 初期状態から、`allowed` が許す出来事だけで進む実行。最後の状態と出力の列。 -/
inductive Run (allowed : HotStuffCore → Op → Prop) : HotStuffCore → List Output → Prop
  | init (b0 : BlockHash) (id : ReplicaID) (replicas : List ReplicaID) (nfaulty : Nat) (γ : Float) :
      Run allowed (HotStuffCore.init b0 id replicas nfaulty γ) []
  | step {s : HotStuffCore} {out : List Output} {op : Op} {s' : HotStuffCore} :
      Run allowed s out → allowed s op → op.ContentAddressed s →
      (exec s op).state? = some s' → Run allowed s' (out ++ (exec s op).outputs)

/-- 到達できる状態。 -/
def Reachable (allowed : HotStuffCore → Op → Prop) (s : HotStuffCore) : Prop :=
  ∃ out, Run allowed s out

/-- 出来事の列を順に処理した後の状態。未定義動作か、内容の番地づけに反する提案で止まる。 -/
def runOps (s : HotStuffCore) : List Op → Option HotStuffCore
  | [] => some s
  | op :: ops =>
    if op.ContentAddressed s then
      match (exec s op).state? with
      | some s' => runOps s' ops
      | none => none
    else none

/-- 出来事の列を順に処理した後の状態と、その間の出力。`runOps` と同じところで止まる。 -/
def runOpsOut (s : HotStuffCore) : List Op → Option (HotStuffCore × List Output)
  | [] => some (s, [])
  | op :: ops =>
    if op.ContentAddressed s then
      match (exec s op).state? with
      | some s' => (runOpsOut s' ops).map fun p => (p.1, (exec s op).outputs ++ p.2)
      | none => none
    else none

theorem runOpsOut_cons {s s' : HotStuffCore} {op : Op} (ops : List Op) (hc : op.ContentAddressed s)
    (he : (exec s op).state? = some s') :
    runOpsOut s (op :: ops) = (runOpsOut s' ops).map fun p => (p.1, (exec s op).outputs ++ p.2) := by
  simp [runOpsOut, hc, he]

/-- どの出来事も許す。 -/
def anyOp (_ : HotStuffCore) (_ : Op) : Prop := True

/-- `prune` 以外の出来事を許す。 -/
def noPrune (_ : HotStuffCore) : Op → Prop
  | .prune _ => False
  | _ => True

theorem Run.reachable_runOps {allowed : HotStuffCore → Op → Prop} (hall : ∀ s op, allowed s op) :
    ∀ (ops : List Op) {s s' : HotStuffCore} {out : List Output}, Run allowed s out →
      runOps s ops = some s' → Reachable allowed s'
  | [], _, _, _, hr, h => by cases h; exact ⟨_, hr⟩
  | op :: ops, s, s', out, hr, h => by
    unfold runOps at h
    split at h
    · rename_i hc
      split at h
      · rename_i s₁ h₁
        exact Run.reachable_runOps hall ops (hr.step (hall s op) hc h₁) h
      · cases h
    · cases h

instance (s : HotStuffCore) (op : Op) : Decidable (anyOp s op) := isTrue trivial

instance (s : HotStuffCore) (op : Op) : Decidable (noPrune s op) := by
  cases op <;> first | exact isTrue trivial | exact isFalse id

/-- 出来事の列を `runOpsOut` と同じ順に処理する間、どの出来事もその時の状態で `allowed` が許す。 -/
def allowedAlong (allowed : HotStuffCore → Op → Prop) [∀ s op, Decidable (allowed s op)]
    (s : HotStuffCore) : List Op → Bool
  | [] => true
  | op :: ops =>
    decide (allowed s op) &&
      match (exec s op).state? with
      | some s' => allowedAlong allowed s' ops
      | none => true

theorem allowedAlong_anyOp : ∀ (s : HotStuffCore) (ops : List Op), allowedAlong anyOp s ops = true
  | _, [] => rfl
  | s, op :: ops => by
    unfold allowedAlong
    split
    · exact allowedAlong_anyOp _ ops
    · rfl

theorem Run.runOpsOut {allowed : HotStuffCore → Op → Prop} [∀ s op, Decidable (allowed s op)] :
    ∀ (ops : List Op) {s s' : HotStuffCore} {out out' : List Output}, allowedAlong allowed s ops = true →
      Run allowed s out → runOpsOut s ops = some (s', out') → Run allowed s' (out ++ out')
  | [], _, _, _, _, _, hr, h => by cases h; simpa using hr
  | op :: ops, s, s', out, out', ha, hr, h => by
    unfold Alkane.Core.runOpsOut at h
    unfold allowedAlong at ha
    split at h
    · rename_i hc
      split at h
      · rename_i s₁ h₁
        obtain ⟨⟨_, o⟩, h', he⟩ := Option.map_eq_some'.mp h
        cases he
        rw [h₁, Bool.and_eq_true, decide_eq_true_iff] at ha
        simpa using Run.runOpsOut ops ha.2 (hr.step ha.1 hc h₁) h'
      · cases h
    · cases h

theorem run_of_runOpsOut_getD {allowed : HotStuffCore → Op → Prop} [∀ s op, Decidable (allowed s op)]
    {b0 : BlockHash} {id : ReplicaID} {replicas : List ReplicaID} {nfaulty : Nat} {γ : Float}
    (ops : List Op) (h : (runOpsOut (HotStuffCore.init b0 id replicas nfaulty γ) ops).isSome)
    (ha : allowedAlong allowed (HotStuffCore.init b0 id replicas nfaulty γ) ops = true) :
    Run allowed ((runOpsOut (HotStuffCore.init b0 id replicas nfaulty γ) ops).getD
        (HotStuffCore.init b0 id replicas nfaulty γ, [])).1
      ((runOpsOut (HotStuffCore.init b0 id replicas nfaulty γ) ops).getD
        (HotStuffCore.init b0 id replicas nfaulty γ, [])).2 := by
  obtain ⟨⟨s, out⟩, hs⟩ := Option.isSome_iff_exists.mp h
  rw [hs]
  simpa using Run.runOpsOut ops ha (Run.init b0 id replicas nfaulty γ) hs

theorem reachable_of_runOps {b0 : BlockHash} {id : ReplicaID} {replicas : List ReplicaID}
    {nfaulty : Nat} {γ : Float} (ops : List Op)
    (h : (runOps (HotStuffCore.init b0 id replicas nfaulty γ) ops).isSome) :
    Reachable anyOp ((runOps (HotStuffCore.init b0 id replicas nfaulty γ) ops).get h) :=
  Run.reachable_runOps (fun _ _ => trivial) ops (Run.init b0 id replicas nfaulty γ) (Option.some_get h).symm

theorem reachable_of_runOps_getD {b0 : BlockHash} {id : ReplicaID} {replicas : List ReplicaID}
    {nfaulty : Nat} {γ : Float} (ops : List Op)
    (h : (runOps (HotStuffCore.init b0 id replicas nfaulty γ) ops).isSome) :
    Reachable anyOp ((runOps (HotStuffCore.init b0 id replicas nfaulty γ) ops).getD
      (HotStuffCore.init b0 id replicas nfaulty γ)) := by
  rw [Option.getD_eq_iff.mpr (.inl (Option.some_get h).symm)]
  exact reachable_of_runOps ops h

end Alkane.Core
