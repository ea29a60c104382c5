import Alkane.Core.Exec

/-!
# 基本の補題

状態の書き換えとブロックの参照の関係、`Result.andThen` を通した状態と出力。
-/

namespace Alkane.Core

variable {α β : Type}

namespace HotStuffCore

theorem findBlk_eq (s : HotStuffCore) (h : BlockHash) : s.findBlk h = s.storage.findBlk h :=
  rfl

/-! 表を引くときは `s.findBlk` の形にそろえる。 -/

@[simp] theorem storage_findBlk (s : HotStuffCore) (h : BlockHash) :
    s.storage.findBlk h = s.findBlk h := rfl

@[simp] theorem findBlk_mk (b0 : BlockHash) (hqc : BlockHash × QuorumCert) (bLock bExec : BlockHash)
    (vheight : Nat) (tails : List BlockHash) (config : ReplicaConfig) (qcWaiting : List BlockHash)
    (voteDisabled : Bool) (id : ReplicaID) (storage : EntityStorage) (h : BlockHash) :
    (HotStuffCore.mk b0 hqc bLock bExec vheight tails config qcWaiting voteDisabled id storage).findBlk h =
      storage.findBlk h := rfl

@[simp] theorem findBlk_setBlk (s : HotStuffCore) (h k : BlockHash) (b : Block) :
    (s.setBlk h b).findBlk k = if h = k then (s.findBlk h).map fun _ => b else s.findBlk k :=
  EntityStorage.findBlk_setBlk s.storage h k b

@[simp] theorem setBlk_storage (s : HotStuffCore) (h : BlockHash) (b : Block) :
    (s.setBlk h b).storage = s.storage.setBlk h b := rfl

@[simp] theorem setBlk_b0 (s : HotStuffCore) (h : BlockHash) (b : Block) : (s.setBlk h b).b0 = s.b0 :=
  rfl

@[simp] theorem setBlk_bExec (s : HotStuffCore) (h : BlockHash) (b : Block) :
    (s.setBlk h b).bExec = s.bExec := rfl

@[simp] theorem setBlk_bLock (s : HotStuffCore) (h : BlockHash) (b : Block) :
    (s.setBlk h b).bLock = s.bLock := rfl

@[simp] theorem setBlk_hqc (s : HotStuffCore) (h : BlockHash) (b : Block) : (s.setBlk h b).hqc = s.hqc :=
  rfl

@[simp] theorem setBlk_vheight (s : HotStuffCore) (h : BlockHash) (b : Block) :
    (s.setBlk h b).vheight = s.vheight := rfl

@[simp] theorem setBlk_tails (s : HotStuffCore) (h : BlockHash) (b : Block) :
    (s.setBlk h b).tails = s.tails := rfl

@[simp] theorem setBlk_qcWaiting (s : HotStuffCore) (h : BlockHash) (b : Block) :
    (s.setBlk h b).qcWaiting = s.qcWaiting := rfl

@[simp] theorem setBlk_config (s : HotStuffCore) (h : BlockHash) (b : Block) :
    (s.setBlk h b).config = s.config := rfl

@[simp] theorem setBlk_id (s : HotStuffCore) (h : BlockHash) (b : Block) : (s.setBlk h b).id = s.id :=
  rfl

@[simp] theorem setBlk_voteDisabled (s : HotStuffCore) (h : BlockHash) (b : Block) :
    (s.setBlk h b).voteDisabled = s.voteDisabled := rfl

theorem frame_trans {s s₁ s' : HotStuffCore} (h' : { s' with storage := s₁.storage, bExec := s₁.bExec } = s₁)
    (h₁ : { s₁ with storage := s.storage, bExec := s.bExec } = s) :
    { s' with storage := s.storage, bExec := s.bExec } = s :=
  calc _ = { ({ s' with storage := s₁.storage, bExec := s₁.bExec } : HotStuffCore) with
          storage := s.storage, bExec := s.bExec } := rfl
    _ = s := by rw [h']; exact h₁

theorem isDelivered_iff (s : HotStuffCore) (h : BlockHash) :
    s.isDelivered h = true ↔ ∃ b, s.findBlk h = some b ∧ b.delivered = true := by
  unfold isDelivered getDeliveredBlk
  split <;> rename_i hf
  · split <;> simp_all
  · simp_all

end HotStuffCore

namespace EntityStorage

theorem foldl_blkCache {γ : Type} (f : EntityStorage → γ → EntityStorage)
    (hf : ∀ st c, (f st c).blkCache = st.blkCache) (l : List γ) (st : EntityStorage) :
    (l.foldl f st).blkCache = st.blkCache := by
  induction l generalizing st with
  | nil => rfl
  | cons c l ih => rw [List.foldl_cons, ih, hf]

@[simp] theorem removeSeen_blkCache (cmds : List CmdHash) (st : EntityStorage) :
    (cmds.foldl removeLocalOrderSeenProposeLevel st).blkCache = st.blkCache :=
  foldl_blkCache removeLocalOrderSeenProposeLevel (fun _ _ => rfl) cmds st

@[simp] theorem removeCommitted_blkCache (cmds : List CmdHash) (st : EntityStorage) :
    (cmds.foldl (fun st c => (st.removeLocalOrderSeenExecuteLevel c).removeFromProposedCmdsCache c)
      st).blkCache = st.blkCache :=
  foldl_blkCache (fun st c => (st.removeLocalOrderSeenExecuteLevel c).removeFromProposedCmdsCache c)
    (fun _ _ => rfl) cmds st

theorem findBlk_of_blkCache {st st' : EntityStorage} (h : st'.blkCache = st.blkCache)
    (k : BlockHash) : st'.findBlk k = st.findBlk k := by
  simp [findBlk, h]

@[simp] theorem findBlk_removeSeen (cmds : List CmdHash) (st : EntityStorage) (k : BlockHash) :
    (cmds.foldl removeLocalOrderSeenProposeLevel st).findBlk k = st.findBlk k :=
  findBlk_of_blkCache (removeSeen_blkCache cmds st) k

end EntityStorage

@[simp] theorem frontFilter_blkCache (st : EntityStorage) (r : ReplicaID) :
    (frontFilter st r).blkCache = st.blkCache := by
  unfold frontFilter; dsimp only; split_ifs <;> rfl

@[simp] theorem fairPropose_blkCache (st : EntityStorage) : (fairPropose st).2.blkCache = st.blkCache := by
  unfold fairPropose
  split
  · rfl
  · exact EntityStorage.foldl_blkCache EntityStorage.clearFrontOrderedHash (fun _ _ => rfl) _ _

@[simp] theorem foldl_frontFilter_blkCache (rs : List ReplicaID) (st : EntityStorage) :
    (rs.foldl frontFilter st).blkCache = st.blkCache :=
  EntityStorage.foldl_blkCache _ frontFilter_blkCache rs st

namespace Result

theorem state?_andThen {r : Result α} {f : α → HotStuffCore → Result β} {s' : HotStuffCore}
    (h : (r.andThen f).state? = some s') :
    (∃ m out, r = .error m s' out) ∨ ∃ a s₁ out, r = .ok a s₁ out ∧ (f a s₁).state? = some s' := by
  cases r with
  | ok a s₁ out =>
    refine .inr ⟨a, s₁, out, rfl, ?_⟩
    simp only [ok_andThen] at h
    split at h <;> simp_all [state?]
  | error m s₁ out => exact .inl ⟨m, out, by simp_all [state?]⟩
  | undefined => simp [state?] at h

@[simp] theorem ok_nil_andThen (a : α) (s : HotStuffCore) (f : α → HotStuffCore → Result β) :
    (ok a s []).andThen f = f a s := by
  rw [ok_andThen]; cases f a s <;> rfl

theorem outputs_ok_andThen {a : α} {s : HotStuffCore} {out : List Output}
    {f : α → HotStuffCore → Result β} (h : ((ok a s out).andThen f).state?.isSome) :
    ((ok a s out).andThen f).outputs = out ++ (f a s).outputs := by
  cases hf : f a s <;> simp_all [outputs, state?]

@[simp] theorem state?_ok (a : α) (s : HotStuffCore) (out : List Output) :
    (ok a s out).state? = some s := rfl

@[simp] theorem state?_error (m : String) (s : HotStuffCore) (out : List Output) :
    (error m s out : Result α).state? = some s := rfl

@[simp] theorem state?_undefined : (undefined : Result α).state? = none := rfl

@[simp] theorem outputs_ok (a : α) (s : HotStuffCore) (out : List Output) :
    (ok a s out).outputs = out := rfl

@[simp] theorem outputs_error (m : String) (s : HotStuffCore) (out : List Output) :
    (error m s out : Result α).outputs = out := rfl

end Result

theorem runOps_cons {s s₁ : HotStuffCore} {op : Op} (ops : List Op) (hc : op.ContentAddressed s)
    (h : (exec s op).state? = some s₁) : runOps s (op :: ops) = runOps s₁ ops := by
  simp [runOps, hc, h]

end Alkane.Core
