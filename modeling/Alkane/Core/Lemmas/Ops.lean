import Alkane.Core.Lemmas.Walk

/-!
# 操作の結果の形

ブロックを書き換える操作（`on_deliver_blk`、`on_propose` の前半、確定、票の記録）が、結果の状態で
何をしたかを一度だけ書き出す。不変条件の証明はこれを引き、操作の定義を開かない。
-/

namespace Alkane.Core

open EntityStorage HotStuffCore

/-! ## 表の書き換え -/

@[simp] theorem EntityStorage.findBlk_addBlk_self {st : EntityStorage} {h : BlockHash} {b : Block}
    (hn : st.findBlk h = none) : (st.addBlk h b).findBlk h = some b := by
  simp [findBlk_addBlk, hn]

theorem EntityStorage.findBlk_addBlk_ne {st : EntityStorage} {h k : BlockHash} {b : Block}
    (hk : h ≠ k) : (st.addBlk h b).findBlk k = st.findBlk k := by
  simp [findBlk_addBlk, hk]

/-! ## `on_deliver_blk` -/

theorem mem_deliveredPrefix {s : HotStuffCore} {x : BlockHash} :
    ∀ {l : List BlockHash}, x ∈ deliveredPrefix s l → s.isDelivered x = true
  | [], hx => by simp [deliveredPrefix] at hx
  | y :: l, hx => by
    unfold deliveredPrefix at hx
    split_ifs at hx with hy
    · rcases List.mem_cons.mp hx with rfl | hx
      · exact hy
      · exact mem_deliveredPrefix hx
    · simp at hx

theorem deliveredPrefix_eq_of_not_lt {s : HotStuffCore} :
    ∀ {l : List BlockHash}, ¬(deliveredPrefix s l).length < l.length → deliveredPrefix s l = l
  | [], _ => rfl
  | y :: l, hl => by
    unfold deliveredPrefix at hl ⊢
    split_ifs at hl ⊢ with hy
    · simp only [List.length_cons, Nat.add_lt_add_iff_right] at hl
      rw [deliveredPrefix_eq_of_not_lt hl]
    · simp at hl

/-- 配送されたブロックの `qc_ref`：`qc` があればその指すブロック（表にある）、なければ元のまま。 -/
def QcRefOnDeliver (s : HotStuffCore) (blk : Block) (qr : Option BlockHash) : Prop :=
  blk.qc = none ∧ qr = blk.qcRef ∨ ∃ q, blk.qc = some q ∧ (s.findBlk q.objHash).isSome ∧ qr = some q.objHash

theorem onDeliverBlk_state {s s' : HotStuffCore} {h : BlockHash}
    (hs : (onDeliverBlk s h).state? = some s') :
    ∃ blk, s.findBlk h = some blk ∧
      ((blk.delivered = true ∧ s' = s) ∨
       (blk.delivered = false ∧ (deliveredPrefix s blk.parentHashes).length < blk.parentHashes.length ∧
         s' = s.setBlk h { blk with parents := deliveredPrefix s blk.parentHashes }) ∨
       (blk.delivered = false ∧ deliveredPrefix s blk.parentHashes = blk.parentHashes ∧
         (∃ q, blk.qc = some q ∧ s.findBlk q.objHash = none) ∧
         ∃ p pb, blk.parentHashes.head? = some p ∧ s.findBlk p = some pb ∧
           s' = s.setBlk h { blk with parents := blk.parentHashes, height := (pb.height + 1) % u32 }) ∨
       (blk.delivered = false ∧ deliveredPrefix s blk.parentHashes = blk.parentHashes ∧
         ∃ p pb qr, blk.parentHashes.head? = some p ∧ s.findBlk p = some pb ∧
           QcRefOnDeliver s blk qr ∧
           s' = { s with tails := (s.tails.filter (· ∉ blk.parentHashes)).insert h }.setBlk h
             { blk with parents := blk.parentHashes, height := (pb.height + 1) % u32, qcRef := qr,
                        delivered := true })) := by
  unfold onDeliverBlk at hs
  split at hs
  · cases hs
  rename_i blk hb
  refine ⟨blk, hb, ?_⟩
  dsimp only at hs
  split_ifs at hs with hd hlt
  · exact .inl ⟨hd, (Option.some.inj hs).symm⟩
  · exact .inr (.inl ⟨by simpa using hd, hlt, (Option.some.inj hs).symm⟩)
  have hps := deliveredPrefix_eq_of_not_lt hlt
  have hd' : blk.delivered = false := by simpa using hd
  split at hs
  · cases hs
  rename_i p _ hpl
  have hp : blk.parentHashes.head? = some p := by rw [← hps, hpl]; rfl
  split at hs
  · cases hs
  rename_i pb hpb
  split at hs
  · rename_i hqc
    refine .inr (.inr (.inr ⟨hd', hps, p, pb, blk.qcRef, hp, hpb, .inl ⟨hqc, rfl⟩, ?_⟩))
    rw [← Option.some.inj hs, hpl, ← hps, hpl]
  · rename_i q hqc
    split at hs
    · rename_i hf
      refine .inr (.inr (.inl ⟨hd', hps, ⟨q, hqc, hf⟩, p, pb, hp, hpb, ?_⟩))
      rw [← Option.some.inj hs, hpl, ← hps, hpl]
    · rename_i qb hf
      refine .inr (.inr (.inr ⟨hd', hps, p, pb, some q.objHash, hp, hpb,
        .inr ⟨q, hqc, by rw [hf]; rfl, rfl⟩, ?_⟩))
      rw [← Option.some.inj hs, hpl, ← hps, hpl]

theorem onDeliverBlk_eq_ok {s : HotStuffCore} {h p : BlockHash} {blk pb : Block} {q : QuorumCert}
    (hb : s.findBlk h = some blk) (hnd : blk.delivered = false)
    (hall : deliveredPrefix s blk.parentHashes = blk.parentHashes)
    (hp : blk.parentHashes.head? = some p) (hpb : s.findBlk p = some pb) (hq : blk.qc = some q)
    (hqf : (s.findBlk q.objHash).isSome) :
    onDeliverBlk s h = .ok true
      ({ s with tails := (s.tails.filter (· ∉ blk.parentHashes)).insert h }.setBlk h
        { blk with parents := blk.parentHashes, height := (pb.height + 1) % u32,
                   qcRef := some q.objHash, delivered := true }) [] := by
  obtain ⟨qb, hqb⟩ := Option.isSome_iff_exists.mp hqf
  obtain ⟨ps, hps⟩ : ∃ ps, blk.parentHashes = p :: ps := by
    cases e : blk.parentHashes with
    | nil => rw [e] at hp; cases hp
    | cons p' ps => rw [e] at hp; cases hp; exact ⟨ps, rfl⟩
  rw [hps] at hall ⊢
  simp [onDeliverBlk, hb, hnd, hall, hps, hpb, hq, hqb]

/-! ## `on_propose` の前半 -/

theorem createBlock_state {s s₁ : HotStuffCore} {orders : List (ReplicaID × List CmdHash)}
    {parents : List BlockHash} {p0 h : BlockHash} (hc : createBlock s orders parents p0 h = some s₁) :
    ∃ pb, s.findBlk p0 = some pb ∧
      ((∃ b, s.findBlk h = some b ∧
        s₁ = { s with tails := s.tails.filter (· ∉ parents) }.setBlk h
          { b with selfQc := some (createQuorumCert h) }) ∨
       (s.findBlk h = none ∧
        s₁ = { s with
          tails := s.tails.filter (· ∉ parents)
          storage := s.storage.addBlk h (proposedBlock s orders parents pb.height) }.setBlk h
          { proposedBlock s orders parents pb.height with selfQc := some (createQuorumCert h) })) := by
  unfold createBlock at hc
  dsimp only at hc
  split at hc
  · cases hc
  rename_i pb hpb
  refine ⟨pb, hpb, ?_⟩
  split at hc
  · cases hc
  rename_i b hb
  cases hf : s.storage.findBlk h with
  | some b' =>
    rw [EntityStorage.addBlk_of_findBlk hf] at hb hc
    refine .inl ⟨b', hf, ?_⟩
    rw [findBlk_eq, hf] at hb
    cases hb
    exact (Option.some.inj hc).symm
  | none =>
    simp only [findBlk_eq, EntityStorage.findBlk_addBlk_self hf, Option.some.injEq] at hb
    subst hb
    exact .inr ⟨hf, (Option.some.inj hc).symm⟩

/-! ## 三連鎖の確定 -/

theorem updateHqc_of_le {s : HotStuffCore} {h : BlockHash} {qc : QuorumCert} {b hb : Block}
    (hf : s.findBlk h = some b) (hh : s.findBlk s.hqc.1 = some hb) (hle : b.height ≤ hb.height) :
    updateHqc s h qc = .ok () s [] := by
  simp [updateHqc, hf, hh, Nat.not_lt.mpr hle]

theorem lockStep_of_le {s : HotStuffCore} {h1 : BlockHash} {blk1 bl : Block}
    (hl : s.findBlk s.bLock = some bl) (hle : blk1.height ≤ bl.height) :
    lockStep s h1 blk1 = .ok () s [] := by
  simp [lockStep, hl, Nat.not_lt.mpr hle]

theorem walkFrom_of_findBlk {st : EntityStorage} {h start : BlockHash} {b : Block}
    (hb : st.findBlk start = some b) : walkFrom st h start = walkDown st h (b.height + 1) start := by
  simp [walkFrom, hb]

theorem commit_of_walk {s : HotStuffCore} {h0 : BlockHash} {be : Block} {queue : List BlockHash}
    (hbe : s.findBlk s.bExec = some be) (hw : walkFrom s.storage be.height h0 = some (s.bExec, queue)) :
    commit s h0 = commitLoop s queue.reverse := by
  simp [commit, hbe, hw]

theorem updateHqc_of_lt {s : HotStuffCore} {h : BlockHash} {qc : QuorumCert} {b hb : Block}
    (hf : s.findBlk h = some b) (hh : s.findBlk s.hqc.1 = some hb) (hlt : hb.height < b.height) :
    updateHqc s h qc = .ok () { s with hqc := (h, qc) } [.resolveHqc] := by
  simp [updateHqc, hf, hh, hlt]

theorem lockStep_of_lt {s : HotStuffCore} {h1 : BlockHash} {blk1 bl : Block}
    (hl : s.findBlk s.bLock = some bl) (hlt : bl.height < blk1.height) :
    lockStep s h1 blk1 = .ok () { s with bLock := h1 } [] := by
  simp [lockStep, hl, hlt]

theorem update_eq_andThen_commit {s s₁ s₂ : HotStuffCore} {nh h2 h1 h0 : BlockHash} {nblk blk2 blk1 blk : Block}
    {r : ReplicaID} {cmds : List CmdHash} {rest : List (ReplicaID × List CmdHash)} {qc : QuorumCert}
    {ps2 ps1 : List BlockHash} {o₁ o₂ : List Output}
    (hn : s.findBlk nh = some nblk) (ho : nblk.orders = (r, cmds) :: rest) (hr : nblk.qcRef = some h2)
    (hq : nblk.qc = some qc) (h2f : s.findBlk h2 = some blk2) (d2 : blk2.decision = false)
    (r2 : blk2.qcRef = some h1) (h1f : s.findBlk h1 = some blk1) (d1 : blk1.decision = false)
    (r1 : blk1.qcRef = some h0) (h0f : s.findBlk h0 = some blk) (d0 : blk.decision = false)
    (p2 : blk2.parents = h1 :: ps2) (p1 : blk1.parents = h0 :: ps1)
    (hU : updateHqc { s with storage := cmds.foldl removeLocalOrderSeenProposeLevel s.storage } h2 qc =
      .ok () s₁ o₁)
    (hL : lockStep s₁ h1 blk1 = .ok () s₂ o₂) (hf₁ : ∀ k, s₁.findBlk k = s.findBlk k)
    (hf₂ : ∀ k, s₂.findBlk k = s.findBlk k) :
    update s nh = (Result.ok () s₂ (o₁ ++ o₂)).andThen fun _ s => commit s h0 := by
  simp only [update, hn, ho, hr, hq, findBlk_mk, findBlk_removeSeen, storage_findBlk, h2f, d2, r2, hU, hf₁,
    h1f, d1, hL, hf₂, r1, h0f, d0, p2, p1, Bool.false_eq_true, if_false, Result.ok_andThen, ne_eq,
    not_true_eq_false]
  cases commit s₂ h0 <;> simp

theorem update_eq_commit {s : HotStuffCore} {nh h2 h1 h0 : BlockHash} {nblk blk2 blk1 blk hb bl : Block}
    {r : ReplicaID} {cmds : List CmdHash} {rest : List (ReplicaID × List CmdHash)} {qc : QuorumCert}
    {ps2 ps1 : List BlockHash}
    (hn : s.findBlk nh = some nblk) (ho : nblk.orders = (r, cmds) :: rest) (hr : nblk.qcRef = some h2)
    (hq : nblk.qc = some qc) (h2f : s.findBlk h2 = some blk2) (d2 : blk2.decision = false)
    (r2 : blk2.qcRef = some h1) (h1f : s.findBlk h1 = some blk1) (d1 : blk1.decision = false)
    (r1 : blk1.qcRef = some h0) (h0f : s.findBlk h0 = some blk) (d0 : blk.decision = false)
    (p2 : blk2.parents = h1 :: ps2) (p1 : blk1.parents = h0 :: ps1)
    (hhq : s.findBlk s.hqc.1 = some hb) (hle2 : blk2.height ≤ hb.height)
    (hbl : s.findBlk s.bLock = some bl) (hle1 : blk1.height ≤ bl.height) :
    update s nh = commit { s with storage := cmds.foldl removeLocalOrderSeenProposeLevel s.storage } h0 :=
  (update_eq_andThen_commit hn ho hr hq h2f d2 r2 h1f d1 r1 h0f d0 p2 p1
    (updateHqc_of_le (by simpa using h2f) (by simpa using hhq) hle2) (lockStep_of_le (by simpa using hbl) hle1)
    (fun _ => findBlk_removeSeen _ _ _) (fun _ => findBlk_removeSeen _ _ _)).trans (Result.ok_nil_andThen _ _ _)

theorem update_eq_commit_of_lt {s : HotStuffCore} {nh h2 h1 h0 : BlockHash} {nblk blk2 blk1 blk hb bl : Block}
    {r : ReplicaID} {cmds : List CmdHash} {rest : List (ReplicaID × List CmdHash)} {qc : QuorumCert}
    {ps2 ps1 : List BlockHash}
    (hn : s.findBlk nh = some nblk) (ho : nblk.orders = (r, cmds) :: rest) (hr : nblk.qcRef = some h2)
    (hq : nblk.qc = some qc) (h2f : s.findBlk h2 = some blk2) (d2 : blk2.decision = false)
    (r2 : blk2.qcRef = some h1) (h1f : s.findBlk h1 = some blk1) (d1 : blk1.decision = false)
    (r1 : blk1.qcRef = some h0) (h0f : s.findBlk h0 = some blk) (d0 : blk.decision = false)
    (p2 : blk2.parents = h1 :: ps2) (p1 : blk1.parents = h0 :: ps1)
    (hhq : s.findBlk s.hqc.1 = some hb) (hle2 : blk2.height ≤ hb.height)
    (hbl : s.findBlk s.bLock = some bl) (hlt1 : bl.height < blk1.height) :
    update s nh =
      commit { s with storage := cmds.foldl removeLocalOrderSeenProposeLevel s.storage, bLock := h1 } h0 :=
  (update_eq_andThen_commit hn ho hr hq h2f d2 r2 h1f d1 r1 h0f d0 p2 p1
    (updateHqc_of_le (by simpa using h2f) (by simpa using hhq) hle2) (lockStep_of_lt (by simpa using hbl) hlt1)
    (fun _ => findBlk_removeSeen _ _ _) (fun _ => findBlk_removeSeen _ _ _)).trans (Result.ok_nil_andThen _ _ _)

theorem commitLoop_singleton {s : HotStuffCore} {bh : BlockHash} {blk : Block} {order : List CmdHash}
    (hb : s.findBlk bh = some blk) (hf : fairFinalize s.config.fairnessParameter blk.orders = some order)
    (hne : order ≠ []) :
    commitLoop s [bh] = .ok () (commitBlock s bh blk order).1 (commitBlock s bh blk order).2 := by
  simp [commitLoop, hb, hf, hne]

/-! ## 提案 -/

theorem onPropose_eq_ok {s s₁ s₂ s₃ s₄ : HotStuffCore} {orders : List (ReplicaID × List CmdHash)}
    {p0 h : BlockHash} {ps : List BlockHash} {d : Bool} {o₂ o₃ o₄ : List Output} {bnew : Block}
    (hc : createBlock s orders (p0 :: ps) p0 h = some s₁) (hd : onDeliverBlk s₁ h = .ok d s₂ o₂)
    (hu : update s₂ h = .ok () s₃ o₃) (hb : s₃.findBlk h = some bnew) (hv : s₃.vheight < bnew.height)
    (hr : onReceiveProposal s₃ ⟨s₃.id, h⟩ = .ok () s₄ o₄) :
    onPropose s orders (p0 :: ps) h = .ok h s₄
      (o₂ ++ (o₃ ++ (o₄ ++ [.resolvePropose ⟨s₄.id, h⟩, .doBroadcastProposal ⟨s₄.id, h⟩]))) := by
  simp [onPropose, hc, hd, hu, hb, Nat.not_le.mpr hv, hr]

/-! ## 提案の受信 -/

theorem onReceiveProposal_of_update {s s₁ : HotStuffCore} {prop : Proposal} {out : List Output}
    {bnew : Block} {op : Bool} (hp : prop.proposer ≠ s.id) (hd : s.isDelivered prop.blk = true)
    (hu : update s prop.blk = .ok () s₁ out) (hb : s₁.findBlk prop.blk = some bnew)
    (ho : opinion s₁ prop.blk bnew = some op) :
    onReceiveProposal s prop = (Result.ok () s₁ out).andThen fun _ s => finishProposal s prop bnew op := by
  simp [onReceiveProposal, hp, hd, hu, hb, ho]

theorem opinion_of_walk {s : HotStuffCore} {bh q e : BlockHash} {bnew bl qb : Block}
    {queue : List BlockHash} (hv : s.vheight < bnew.height) (hl : s.findBlk s.bLock = some bl)
    (hq : bnew.qcRef = some q) (hqb : s.findBlk q = some qb) (hle : qb.height ≤ bl.height)
    (hw : walkFrom s.storage bl.height bh = some (e, queue)) :
    opinion s bh bnew = some (decide (e = s.bLock)) := by
  simp [opinion, hv, hl, hq, hqb, Nat.not_lt.mpr hle, hw]

theorem finishProposal_false {s : HotStuffCore} {prop : Proposal} {bnew : Block}
    (hw : ∀ q, bnew.qcRef = some q → q ∉ s.qcWaiting) :
    finishProposal s prop bnew false = .ok () s [.resolveReceiveProposal prop] := by
  unfold finishProposal
  cases hq : bnew.qcRef with
  | none => rfl
  | some q =>
    have hq' := hw q hq
    by_cases hp : prop.proposer = s.id <;> simp [hp, onQcFinish, hq']

/-! ## 確定と票 -/

@[simp] theorem commitBlock_findBlk (s : HotStuffCore) (bh : BlockHash) (blk : Block)
    (order : List CmdHash) (k : BlockHash) :
    (commitBlock s bh blk order).1.findBlk k =
      if bh = k then (s.findBlk bh).map fun _ => { blk with decision := true }
      else s.findBlk k := by
  simp [commitBlock, EntityStorage.findBlk_of_blkCache (EntityStorage.removeCommitted_blkCache _ _)]

@[simp] theorem commitBlock_bExec (s : HotStuffCore) (bh : BlockHash) (blk : Block)
    (order : List CmdHash) : (commitBlock s bh blk order).1.bExec = bh := rfl

@[simp] theorem commitBlock_hqc (s : HotStuffCore) (bh : BlockHash) (blk : Block)
    (order : List CmdHash) : (commitBlock s bh blk order).1.hqc = s.hqc := rfl

@[simp] theorem commitBlock_bLock (s : HotStuffCore) (bh : BlockHash) (blk : Block)
    (order : List CmdHash) : (commitBlock s bh blk order).1.bLock = s.bLock := rfl

@[simp] theorem commitBlock_vheight (s : HotStuffCore) (bh : BlockHash) (blk : Block)
    (order : List CmdHash) : (commitBlock s bh blk order).1.vheight = s.vheight := rfl

@[simp] theorem commitBlock_tails (s : HotStuffCore) (bh : BlockHash) (blk : Block)
    (order : List CmdHash) : (commitBlock s bh blk order).1.tails = s.tails := rfl

@[simp] theorem commitBlock_qcWaiting (s : HotStuffCore) (bh : BlockHash) (blk : Block)
    (order : List CmdHash) : (commitBlock s bh blk order).1.qcWaiting = s.qcWaiting := rfl

@[simp] theorem commitBlock_config (s : HotStuffCore) (bh : BlockHash) (blk : Block)
    (order : List CmdHash) : (commitBlock s bh blk order).1.config = s.config := rfl

theorem getDeliveredBlk_eq_some {s : HotStuffCore} {h : BlockHash} {b : Block} :
    s.getDeliveredBlk h = some b ↔ s.findBlk h = some b ∧ b.delivered = true := by
  unfold getDeliveredBlk
  cases s.findBlk h with
  | none => simp
  | some b' =>
    dsimp only
    split_ifs with hd
    · exact ⟨by rintro ⟨⟩; exact ⟨rfl, hd⟩, fun e => e.1⟩
    · exact ⟨nofun, by rintro ⟨⟨⟩, h2⟩; exact absurd h2 hd⟩

@[simp] theorem recordVote_findBlk (s : HotStuffCore) (vote : Vote) (blk : Block) (k : BlockHash) :
    (recordVote s vote blk).findBlk k =
      if vote.blkHash = k then (s.findBlk vote.blkHash).map fun _ =>
        { blk with voted := blk.voted ++ [vote.voter],
                   selfQc := some ((blk.selfQc.getD (createQuorumCert vote.blkHash)).addPart vote.voter) }
      else s.findBlk k := by
  simp [recordVote]

@[simp] theorem onQcFinish_fst (s : HotStuffCore) (h : BlockHash) :
    (onQcFinish s h).1 =
      { s with qcWaiting := if h ∈ s.qcWaiting then s.qcWaiting.erase h else s.qcWaiting } := by
  unfold onQcFinish; split_ifs <;> rfl

theorem finishProposal_state {s s' : HotStuffCore} {prop : Proposal} {bnew : Block} {op : Bool}
    (hs : (finishProposal s prop bnew op).state? = some s') :
    ∃ w, s' = { s with vheight := if op then bnew.height else s.vheight, qcWaiting := w } ∧
      ∀ x ∈ w, x ∈ s.qcWaiting := by
  unfold finishProposal at hs
  simp only [Result.state?_ok, Option.some.injEq] at hs
  subst hs
  -- 約束を解決するなら `qc_waiting` から一つ除き、そうでなければそのまま
  have erase : ∀ (t : HotStuffCore) (q : BlockHash), t.qcWaiting = s.qcWaiting →
      ∀ x ∈ (if q ∈ t.qcWaiting then t.qcWaiting.erase q else t.qcWaiting), x ∈ s.qcWaiting := by
    intro t q ht x hx
    split_ifs at hx
    · exact ht ▸ List.mem_of_mem_erase hx
    · exact ht ▸ hx
  cases op <;> simp only [Bool.false_eq_true, if_false, if_true] <;> split <;> (try split_ifs) <;>
    first
    | exact ⟨_, rfl, fun x hx => hx⟩
    | exact ⟨_, onQcFinish_fst _ _, erase _ _ rfl⟩

end Alkane.Core
