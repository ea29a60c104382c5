import Alkane.Core.Lemmas.Ops

/-!
# 表の健全さ

どの実行でも、表のブロックは次を満たす（`BlockWf`）：高さは `uint32_t` に収まり、`parents` は
配送済みのブロックで、配送済みのブロックの高さは `parents[0]` の高さ + 1（`2^32` の剰余）、
`qc_ref` は表にあって `qc` の指すブロック、`self_qc` は自分を指す。`hqc` と `b_lock` は表にあり、
`b_exec` は配送済み（`Wf`）。ここでは `prune` 以外の書き換えがこれを保つことを示す。
-/

namespace Alkane.Core

open EntityStorage HotStuffCore

/-- 表のブロック一つの形。`parents` が配送済みであることは `BlockWf` で加える。 -/
structure BlockShape (st : EntityStorage) (h : BlockHash) (b : Block) : Prop where
  heightLt : b.height < u32
  heightLink : b.delivered → ∀ p, b.parents.head? = some p →
    ∃ pb, st.findBlk p = some pb ∧ b.height = (pb.height + 1) % u32
  qcRefFound : ∀ r, b.qcRef = some r → (st.findBlk r).isSome
  qcRefObj : ∀ r, b.qcRef = some r → ∃ q, b.qc = some q ∧ q.objHash = r
  selfQcObj : ∀ q, b.selfQc = some q → q.objHash = h

/-- 表のブロック一つの健全さ。 -/
structure BlockWf (st : EntityStorage) (h : BlockHash) (b : Block) extends BlockShape st h b :
    Prop where
  parentsDelivered : ∀ p ∈ b.parents, ∃ pb, st.findBlk p = some pb ∧ pb.delivered

/-- 状態の健全さ。 -/
structure Wf (s : HotStuffCore) : Prop where
  blocks : ∀ h b, s.findBlk h = some b → BlockWf s.storage h b
  hqcFound : (s.findBlk s.hqc.1).isSome
  hqcObj : s.hqc.2.objHash = s.hqc.1
  bLockFound : (s.findBlk s.bLock).isSome
  bExecDelivered : ∃ b, s.findBlk s.bExec = some b ∧ b.delivered

/-- 表にあったブロックは残り、配送済みのものは配送済みのまま高さも変わらない。 -/
def Persist (st st' : EntityStorage) : Prop :=
  ∀ k b, st.findBlk k = some b → ∃ b', st'.findBlk k = some b' ∧ (b.delivered → b'.delivered ∧ b'.height = b.height)

namespace Persist

variable {st st' : EntityStorage}

theorem found (hp : Persist st st') {k : BlockHash} (hk : (st.findBlk k).isSome) :
    (st'.findBlk k).isSome := by
  obtain ⟨b, hb⟩ := Option.isSome_iff_exists.mp hk
  obtain ⟨b', hb', -⟩ := hp k b hb
  simp [hb']

theorem delivered (hp : Persist st st') {k : BlockHash} {b : Block} (hb : st.findBlk k = some b)
    (hd : b.delivered) : ∃ b', st'.findBlk k = some b' ∧ b'.delivered ∧ b'.height = b.height := by
  obtain ⟨b', hb', h'⟩ := hp k b hb
  exact ⟨b', hb', h' hd⟩

theorem of_findBlk (h : BlockHash) (b' : Block)
    (hk : ∀ k, k ≠ h → st'.findBlk k = st.findBlk k) (hh : st'.findBlk h = some b')
    (hb : ∀ b, st.findBlk h = some b → b.delivered → b'.delivered ∧ b'.height = b.height) :
    Persist st st' := by
  intro k b hkb
  by_cases e : k = h
  · subst e; exact ⟨b', hh, hb b hkb⟩
  · exact ⟨b, by rw [hk k e, hkb], fun hd => ⟨hd, rfl⟩⟩

theorem of_eq (hk : ∀ k, st'.findBlk k = st.findBlk k) : Persist st st' :=
  fun k b hb => ⟨b, by rw [hk, hb], fun hd => ⟨hd, rfl⟩⟩

end Persist

theorem BlockWf.persist {st st' : EntityStorage} {h : BlockHash} {b : Block} (hb : BlockWf st h b)
    (hp : Persist st st') : BlockWf st' h b where
  heightLt := hb.heightLt
  heightLink hd p hp0 := by
    obtain ⟨pb, hpb, hh⟩ := hb.heightLink hd p hp0
    obtain ⟨_, hpd⟩ := hb.parentsDelivered p (List.mem_of_mem_head? hp0) |>.imp fun _ x => x
    obtain ⟨pb', hpb', -, he⟩ := hp.delivered hpb (by
      obtain ⟨pb₁, h₁, h₂⟩ := hb.parentsDelivered p (List.mem_of_mem_head? hp0)
      rw [hpb] at h₁; cases h₁; exact h₂)
    exact ⟨pb', hpb', he ▸ hh⟩
  qcRefFound r hr := hp.found (hb.qcRefFound r hr)
  qcRefObj := hb.qcRefObj
  selfQcObj := hb.selfQcObj
  parentsDelivered p hpm := by
    obtain ⟨pb, hpb, hd⟩ := hb.parentsDelivered p hpm
    obtain ⟨pb', hpb', hd', -⟩ := hp.delivered hpb hd
    exact ⟨pb', hpb', hd'⟩

theorem BlockWf.decide {st : EntityStorage} {h : BlockHash} {b : Block} (hb : BlockWf st h b) :
    BlockWf st h { b with decision := true } :=
  ⟨⟨hb.heightLt, hb.heightLink, hb.qcRefFound, hb.qcRefObj, hb.selfQcObj⟩, hb.parentsDelivered⟩

theorem BlockWf.selfQc {st : EntityStorage} {h : BlockHash} {b : Block} (hb : BlockWf st h b)
    {q : QuorumCert} (hq : q.objHash = h) : BlockWf st h { b with selfQc := some q } :=
  ⟨⟨hb.heightLt, hb.heightLink, hb.qcRefFound, hb.qcRefObj, fun _ e => by cases e; exact hq⟩,
    hb.parentsDelivered⟩

theorem BlockWf.vote {st : EntityStorage} {h : BlockHash} {b : Block} (hb : BlockWf st h b)
    (v : List ReplicaID) {q : QuorumCert} (hq : q.objHash = h) :
    BlockWf st h { b with voted := v, selfQc := some q } :=
  ⟨⟨hb.heightLt, hb.heightLink, hb.qcRefFound, hb.qcRefObj, fun _ e => by cases e; exact hq⟩,
    hb.parentsDelivered⟩

theorem Wf.blocks_of_persist {s s' : HotStuffCore} (hw : Wf s) (hp : Persist s.storage s'.storage)
    (hb : ∀ k b', s'.findBlk k = some b' → s.findBlk k = some b' ∨ BlockWf s'.storage k b') :
    ∀ k b', s'.findBlk k = some b' → BlockWf s'.storage k b' := by
  intro k b' hk
  rcases hb k b' hk with h | h
  · exact (hw.blocks k b' h).persist hp
  · exact h

theorem Wf.bExec_persist {s s' : HotStuffCore} (hw : Wf s) (hp : Persist s.storage s'.storage)
    (he : s'.bExec = s.bExec) : ∃ b, s'.findBlk s'.bExec = some b ∧ b.delivered := by
  obtain ⟨b, hb, hd⟩ := hw.bExecDelivered
  obtain ⟨b', hb', hd', -⟩ := hp.delivered hb hd
  exact ⟨b', he ▸ hb', hd'⟩

theorem Wf.of_persist {s s' : HotStuffCore} (hw : Wf s) (hp : Persist s.storage s'.storage)
    (hb : ∀ k b', s'.findBlk k = some b' → s.findBlk k = some b' ∨ BlockWf s'.storage k b')
    (hq : s'.hqc = s.hqc) (hl : s'.bLock = s.bLock) (he : s'.bExec = s.bExec) : Wf s' where
  blocks := hw.blocks_of_persist hp hb
  hqcFound := hq ▸ hp.found hw.hqcFound
  hqcObj := hq ▸ hw.hqcObj
  bLockFound := hl ▸ hp.found hw.bLockFound
  bExecDelivered := hw.bExec_persist hp he

theorem Wf.of_findBlk_eq {s s' : HotStuffCore} (hw : Wf s) (hk : ∀ k, s'.findBlk k = s.findBlk k)
    (hq : s'.hqc = s.hqc) (hl : s'.bLock = s.bLock) (he : s'.bExec = s.bExec) : Wf s' :=
  hw.of_persist (Persist.of_eq hk) (fun k b' h => .inl (by rw [← hk]; exact h)) hq hl he

/-! ## 末端の書き換え -/

section Leaves

variable {s s' : HotStuffCore}

theorem Wf.storage (hw : Wf s) {st : EntityStorage} (hst : st.blkCache = s.storage.blkCache) :
    Wf { s with storage := st } :=
  hw.of_findBlk_eq (fun k => findBlk_of_blkCache hst k) rfl rfl rfl

theorem Wf.setVoteDisabled (hw : Wf s) (f : Bool) : Wf { s with voteDisabled := f } :=
  ⟨hw.blocks, hw.hqcFound, hw.hqcObj, hw.bLockFound, hw.bExecDelivered⟩

theorem Wf.updateHqc (hw : Wf s) {h : BlockHash} {qc : QuorumCert} (hobj : qc.objHash = h)
    (hs : (updateHqc s h qc).state? = some s') : Wf s' := by
  unfold Alkane.Core.updateHqc at hs
  split at hs
  · split_ifs at hs
    · cases hs
      exact ⟨hw.blocks, by simp_all, hobj, hw.bLockFound, hw.bExecDelivered⟩
    · cases hs; exact hw
  · cases hs

theorem Wf.lockStep (hw : Wf s) {h1 : BlockHash} {blk1 : Block} (hb : s.findBlk h1 = some blk1)
    (hs : (lockStep s h1 blk1).state? = some s') : Wf s' := by
  unfold Alkane.Core.lockStep at hs
  split at hs
  · cases hs
    split_ifs
    · exact ⟨hw.blocks, hw.hqcFound, hw.hqcObj, by simp_all, hw.bExecDelivered⟩
    · exact hw
  · cases hs

theorem Wf.commitBlock (hw : Wf s) {bh : BlockHash} {blk : Block} (order : List CmdHash)
    (hb : s.findBlk bh = some blk) (hd : blk.delivered) : Wf (commitBlock s bh blk order).1 := by
  have hk : ∀ k, k ≠ bh → (Alkane.Core.commitBlock s bh blk order).1.findBlk k = s.findBlk k := by
    intro k hk; simp [Ne.symm hk]
  have hh : (Alkane.Core.commitBlock s bh blk order).1.findBlk bh = some { blk with decision := true } := by
    simp [hb]
  have hp : Persist s.storage (Alkane.Core.commitBlock s bh blk order).1.storage :=
    Persist.of_findBlk bh { blk with decision := true } hk hh
      (fun b hb' _ => by rw [findBlk_eq, hb'] at hb; cases hb; exact ⟨hd, rfl⟩)
  refine ⟨hw.blocks_of_persist hp fun k b' hk' => ?_, ?_, ?_, ?_, ⟨_, hh, hd⟩⟩
  · by_cases e : k = bh
    · subst e; rw [hh] at hk'; cases hk'
      exact .inr (((hw.blocks _ _ hb).persist hp).decide)
    · exact .inl (by rw [← hk k e]; exact hk')
  · simpa using hp.found hw.hqcFound
  · simpa using hw.hqcObj
  · simpa using hp.found hw.bLockFound

theorem Wf.commitLoop : ∀ (queue : List BlockHash) {s s' : HotStuffCore}, Wf s →
    (∀ x ∈ queue, ∃ b, s.findBlk x = some b ∧ b.delivered) →
    (commitLoop s queue).state? = some s' → Wf s'
  | [], s, s', hw, _, hs => by cases hs; exact hw
  | bh :: rest, s, s', hw, hq, hs => by
    unfold Alkane.Core.commitLoop at hs
    split at hs
    · cases hs
    rename_i blk hb
    split at hs
    · cases hs
    split_ifs at hs
    · cases hs; exact hw
    obtain ⟨b, hb', hd⟩ := hq bh (by simp)
    rw [hb] at hb'; cases hb'
    dsimp only at hs
    rcases Result.state?_andThen hs with ⟨_, _, he⟩ | ⟨_, s₁, _, he, hs₁⟩
    · cases he
    cases he
    refine Wf.commitLoop rest (hw.commitBlock _ hb hd) (fun x hx => ?_) hs₁
    obtain ⟨c, hc, hcd⟩ := hq x (by simp [hx])
    by_cases e : bh = x
    · subst e; rw [hb] at hc; cases hc; exact ⟨{ blk with decision := true }, by simp [hb], hcd⟩
    · exact ⟨c, by simp [e, hc], hcd⟩

theorem WalkPath.delivered {st : EntityStorage} {h : Nat} {b e : BlockHash} {q : List BlockHash}
    (hw : WalkPath st h b q e) (hwf : ∀ k blk, st.findBlk k = some blk → BlockWf st k blk)
    (hb : ∃ blk, st.findBlk b = some blk ∧ blk.delivered) :
    ∀ x ∈ q, ∃ blk, st.findBlk x = some blk ∧ blk.delivered := by
  induction hw with
  | stop => simp
  | step hfb _ hp _ ih =>
    obtain ⟨blk, hblk, hd⟩ := hb
    rw [hfb] at hblk; cases hblk
    rintro x (_ | ⟨_, hx⟩)
    · exact ⟨_, hfb, hd⟩
    · exact ih ((hwf _ _ hfb).parentsDelivered _ (List.mem_of_mem_head? hp)) x hx

theorem Wf.commit (hw : Wf s) {h1 h0 : BlockHash} {blk1 : Block} (hb1 : s.findBlk h1 = some blk1)
    (hp : blk1.parents.head? = some h0) (hs : (commit s h0).state? = some s') : Wf s' := by
  unfold Alkane.Core.commit at hs
  split at hs
  · cases hs
  rename_i be hbe
  split at hs
  · cases hs
  rename_i b queue hwalk
  split_ifs at hs
  · cases hs; exact hw
  refine hw.commitLoop queue.reverse (fun x hx => ?_) hs
  exact (walkFrom_path hwalk).delivered (fun k blk hk => hw.blocks k blk hk)
    ((hw.blocks h1 blk1 hb1).parentsDelivered h0 (List.mem_of_mem_head? hp)) x (List.mem_reverse.mp hx)

theorem Wf.fetch (hw : Wf s) (h : BlockHash) (ps : List BlockHash) (qc : Option QuorumCert)
    (orders : List (ReplicaID × List CmdHash)) (ht : Nat) :
    Wf { s with storage := s.storage.addBlk h (Block.ofWire ps qc orders ht) } := by
  by_cases hn : s.storage.findBlk h = none
  · have hk : ∀ k, k ≠ h → (s.storage.addBlk h (Block.ofWire ps qc orders ht)).findBlk k =
        s.storage.findBlk k := fun k e => findBlk_addBlk_ne (Ne.symm e)
    have hp := Persist.of_findBlk h _ hk (findBlk_addBlk_self hn) (by simp [hn])
    refine hw.of_persist hp (fun k b' hk' => ?_) rfl rfl rfl
    by_cases e : k = h
    · subst e
      simp only [findBlk_eq, findBlk_addBlk_self hn, Option.some.injEq] at hk'
      subst hk'
      exact .inr ⟨⟨Nat.mod_lt _ (by decide), by simp [Block.ofWire], by simp [Block.ofWire],
        by simp [Block.ofWire], by simp [Block.ofWire]⟩, by simp [Block.ofWire]⟩
    · exact .inl (by simpa [hk k e] using hk')
  · obtain ⟨b, hb⟩ := Option.ne_none_iff_exists'.mp hn
    rw [addBlk_of_findBlk hb]
    exact hw

theorem Wf.deliver_of_shape {h : BlockHash} {blk : Block}
    (hblocks : ∀ k b, k ≠ h → s.findBlk k = some b → BlockWf s.storage k b)
    (hh : s.findBlk h = some blk) (hshape : BlockShape s.storage h blk) (hnd : blk.delivered = false)
    (hqcF : (s.findBlk s.hqc.1).isSome) (hqcO : s.hqc.2.objHash = s.hqc.1)
    (hlF : (s.findBlk s.bLock).isSome) (heD : ∃ b, s.findBlk s.bExec = some b ∧ b.delivered)
    (hs : (onDeliverBlk s h).state? = some s') : Wf s' := by
  obtain ⟨blk', hblk', hcases⟩ := onDeliverBlk_state hs
  rw [hh] at hblk'; cases hblk'
  -- どの場合も `h` だけを書き換え、他のブロックと核の欄はそのまま
  have key : ∀ (t : List BlockHash) (b' : Block), s' = { s with tails := t }.setBlk h b' →
      (∀ p ∈ b'.parents, s.isDelivered p) →
      (b'.delivered → ∀ p, b'.parents.head? = some p →
        ∃ pb, s.findBlk p = some pb ∧ b'.height = (pb.height + 1) % u32) →
      b'.height < u32 → (∀ r, b'.qcRef = some r → (s.findBlk r).isSome) →
      (∀ r, b'.qcRef = some r → ∃ q, b'.qc = some q ∧ q.objHash = r) → b'.selfQc = blk.selfQc →
      Wf s' := by
    intro t b' e hpar hlink hlt hqr hqo hsq
    subst e
    have hk : ∀ k, k ≠ h → ({ s with tails := t }.setBlk h b').findBlk k = s.findBlk k := by
      intro k hk; simp [Ne.symm hk]
    have hhh : ({ s with tails := t }.setBlk h b').findBlk h = some b' := by simp [hh]
    have hp : Persist s.storage ({ s with tails := t }.setBlk h b').storage :=
      Persist.of_findBlk h b' (fun k e => by simpa using hk k e) (by simpa using hhh)
        (fun b hb hd => by rw [storage_findBlk, hh] at hb; cases hb; simp [hnd] at hd)
    have hdel : ∀ p, s.isDelivered p → p ≠ h ∧ ∃ pb, s.findBlk p = some pb ∧ pb.delivered := by
      intro p hp'
      obtain ⟨pb, hpb, hd⟩ := (isDelivered_iff s p).mp hp'
      refine ⟨fun e => ?_, pb, hpb, hd⟩
      subst e; rw [hh] at hpb; cases hpb; simp [hnd] at hd
    refine ⟨fun k b'' hk'' => ?_, by simpa using hp.found hqcF, by simpa using hqcO,
      by simpa using hp.found hlF, ?_⟩
    · by_cases e : k = h
      · subst e; rw [hhh] at hk''; cases hk''
        refine ⟨⟨hlt, fun hd p hp0 => ?_, fun r hr => hp.found (hqr r hr), hqo,
          fun q hq => hshape.selfQcObj q (hsq ▸ hq)⟩, fun p hpm => ?_⟩
        · obtain ⟨pb, hpb, hht⟩ := hlink hd p hp0
          obtain ⟨-, pb₁, hpb₁, hpd⟩ := hdel p (hpar p (List.mem_of_mem_head? hp0))
          rw [hpb] at hpb₁; cases hpb₁
          obtain ⟨pb', hpb', -, he⟩ := hp.delivered hpb hpd
          exact ⟨pb', hpb', he ▸ hht⟩
        · obtain ⟨-, pb, hpb, hpd⟩ := hdel p (hpar p hpm)
          obtain ⟨pb', hpb', hd', -⟩ := hp.delivered hpb hpd
          exact ⟨pb', hpb', hd'⟩
      · rw [hk k e] at hk''
        exact (hblocks k b'' e hk'').persist hp
    · obtain ⟨b, hb, hd⟩ := heD
      have : s.bExec ≠ h := fun e => by rw [e, hh] at hb; cases hb; simp [hnd] at hd
      obtain ⟨b', hb', hd', -⟩ := hp.delivered hb hd
      exact ⟨b', by simpa using hb', hd'⟩
  rcases hcases with ⟨hd, -⟩ | ⟨-, -, e⟩ | ⟨-, hps, -, p, pb, hp0, hpb, e⟩ | ⟨-, hps, p, pb, qr, hp0, hpb, hqr, e⟩
  · simp [hnd] at hd
  · exact key s.tails _ e (fun p hp => mem_deliveredPrefix hp) (by simp [hnd]) hshape.heightLt
      hshape.qcRefFound hshape.qcRefObj rfl
  · exact key s.tails _ e (fun p hp => mem_deliveredPrefix (hps ▸ hp)) (by simp [hnd])
      (Nat.mod_lt _ (by decide)) hshape.qcRefFound hshape.qcRefObj rfl
  · refine key _ _ e (fun p hp => mem_deliveredPrefix (hps ▸ hp))
      (fun _ p' hp' => ⟨pb, by simp only at hp'; rw [hp0] at hp'; cases hp'; exact hpb, rfl⟩)
      (Nat.mod_lt _ (by decide)) (fun r hr => ?_) (fun r hr => ?_) rfl
    · rcases hqr with ⟨-, rfl⟩ | ⟨q, -, hf, rfl⟩
      · exact hshape.qcRefFound r hr
      · simp only [Option.some.injEq] at hr; subst hr; exact hf
    · rcases hqr with ⟨hqn, rfl⟩ | ⟨q, hq, -, rfl⟩
      · obtain ⟨q, hq, -⟩ := hshape.qcRefObj r hr
        rw [hqn] at hq; cases hq
      · simp only [Option.some.injEq] at hr; subst hr; exact ⟨q, hq, rfl⟩

theorem Wf.deliver (hw : Wf s) {h : BlockHash} (hs : (onDeliverBlk s h).state? = some s') : Wf s' := by
  obtain ⟨blk, hh, hcases⟩ := onDeliverBlk_state hs
  by_cases hd : blk.delivered
  · rcases hcases with ⟨-, rfl⟩ | ⟨hnd, -⟩ | ⟨hnd, -⟩ | ⟨hnd, -⟩ <;> simp_all
  · exact Wf.deliver_of_shape (fun k b _ hk => hw.blocks k b hk) hh (hw.blocks h blk hh).toBlockShape
      (by simpa using hd) hw.hqcFound hw.hqcObj hw.bLockFound hw.bExecDelivered hs

theorem Wf.tails (hw : Wf s) (t : List BlockHash) : Wf { s with tails := t } :=
  hw.of_findBlk_eq (fun _ => rfl) rfl rfl rfl

theorem Wf.setBlk (hw : Wf s) {h : BlockHash} {b b' : Block} (hb : s.findBlk h = some b)
    (hb' : BlockWf s.storage h b') (hd : b.delivered → b'.delivered ∧ b'.height = b.height) :
    Wf (s.setBlk h b') := by
  have hp : Persist s.storage (s.setBlk h b').storage :=
    Persist.of_findBlk h b' (fun k e => by simp [Ne.symm e]) (by simp [hb])
      (fun c hc => by rw [storage_findBlk, hb] at hc; cases hc; exact hd)
  refine hw.of_persist hp (fun k c hk => ?_) rfl rfl rfl
  by_cases e : k = h
  · subst e; simp only [HotStuffCore.findBlk_setBlk, hb, if_true, Option.map_some', Option.some.injEq] at hk
    subst hk; exact .inr (hb'.persist hp)
  · exact .inl (by simpa [Ne.symm e] using hk)

theorem Wf.recordVote (hw : Wf s) {vote : Vote} {blk : Block}
    (hb : s.getDeliveredBlk vote.blkHash = some blk) : Wf (recordVote s vote blk) := by
  have hf := (getDeliveredBlk_eq_some.mp hb).1
  refine hw.setBlk hf ((hw.blocks _ _ hf).vote _ ?_) fun hd => ⟨hd, rfl⟩
  cases hq : blk.selfQc with
  | none => rfl
  | some q => exact (hw.blocks _ _ hf).selfQcObj q hq

theorem Wf.finishProposal (hw : Wf s) {prop : Proposal} {bnew : Block} {op : Bool}
    (hs : (finishProposal s prop bnew op).state? = some s') : Wf s' := by
  obtain ⟨w, rfl, -⟩ := finishProposal_state hs
  exact hw.of_findBlk_eq (fun _ => rfl) rfl rfl rfl

theorem Wf.qcFinish (hw : Wf s) (h : BlockHash) : Wf (onQcFinish s h).1 := by
  rw [onQcFinish_fst]
  exact hw.of_findBlk_eq (fun _ => rfl) rfl rfl rfl

theorem Wf.asyncQcFinish (hw : Wf s) {h : BlockHash} (hs : (asyncQcFinish s h).state? = some s') :
    Wf s' := by
  unfold Alkane.Core.asyncQcFinish at hs
  split at hs
  · cases hs
  · split_ifs at hs <;> cases hs
    · exact hw
    · exact hw.of_findBlk_eq (fun _ => rfl) rfl rfl rfl

theorem Wf.create (hw : Wf s) {orders : List (ReplicaID × List CmdHash)} {parents : List BlockHash}
    {p0 h : BlockHash} {s₁ : HotStuffCore} (hc : createBlock s orders parents p0 h = some s₁)
    (hs : (onDeliverBlk s₁ h).state? = some s') : Wf s' := by
  obtain ⟨pb, -, ⟨b, hb, rfl⟩ | ⟨hn, rfl⟩⟩ := createBlock_state hc
  · have hw₁ : Wf ({ s with tails := s.tails.filter (· ∉ parents) }.setBlk h
        { b with selfQc := some (createQuorumCert h) }) :=
      (hw.tails _).setBlk hb ((hw.blocks h b hb).selfQc rfl) fun hd => ⟨hd, rfl⟩
    exact hw₁.deliver hs
  · -- 新しいブロック：`h` のほかは元の表のまま
    set P := { proposedBlock s orders parents pb.height with selfQc := some (createQuorumCert h) }
    set s₁ := { s with tails := s.tails.filter (· ∉ parents),
                       storage := s.storage.addBlk h (proposedBlock s orders parents pb.height) }.setBlk h P
    have hk : ∀ k, k ≠ h → s₁.findBlk k = s.findBlk k := fun k e => by
      simp [s₁, Ne.symm e, findBlk_addBlk_ne (Ne.symm e)]
    have hh : s₁.findBlk h = some P := by simp [s₁, findBlk_addBlk_self hn]
    have hp : Persist s.storage s₁.storage :=
      Persist.of_findBlk h P hk hh (fun b hb => by rw [storage_findBlk, hn] at hb; cases hb)
    obtain ⟨be, hbe, hbd⟩ := hw.bExecDelivered
    obtain ⟨be', hbe', hbd', -⟩ := hp.delivered hbe hbd
    refine Wf.deliver_of_shape (fun k b e hkb => ?_) hh ⟨Nat.mod_lt _ (by decide), nofun,
      fun r hr => ?_, fun r hr => ?_, fun q hq => ?_⟩ rfl (hp.found hw.hqcFound) hw.hqcObj
      (hp.found hw.bLockFound) ⟨be', hbe', hbd'⟩ hs
    · rw [hk k e] at hkb; exact (hw.blocks k b hkb).persist hp
    · cases hr; exact hp.found hw.hqcFound
    · cases hr; exact ⟨_, rfl, hw.hqcObj⟩
    · cases hq; rfl

end Leaves

end Alkane.Core
