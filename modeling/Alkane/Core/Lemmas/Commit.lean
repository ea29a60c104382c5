import Alkane.Core.Lemmas.Wf

/-!
# 確定の形

`commit` は `b_exec` の高さまで下りた道を古い順に確定する。下りた道を逆にすると `b_exec` から
上る道（`Ascent`）で、確定するのはその始めの部分（`fair_finalize` が空を返して止まるまで）。
確定で変わるのは `decision` と `b_exec` だけで、配送済みのブロックの高さと `parents` は変わらない
（`Settled`）。
-/

namespace Alkane.Core

open EntityStorage HotStuffCore

/-! ## `do_consensus` の記録 -/

/-- 出力の列のうち `do_consensus` に渡したブロック（渡した順）。 -/
def consensusLog (out : List Output) : List BlockHash :=
  out.filterMap fun
    | .doConsensus h => some h
    | _ => none

@[simp] theorem consensusLog_nil : consensusLog [] = [] := rfl

@[simp] theorem consensusLog_append (o₁ o₂ : List Output) :
    consensusLog (o₁ ++ o₂) = consensusLog o₁ ++ consensusLog o₂ :=
  List.filterMap_append o₁ o₂ _

@[simp] theorem consensusLog_commitBlock (s : HotStuffCore) (bh : BlockHash) (blk : Block)
    (order : List CmdHash) : consensusLog (commitBlock s bh blk order).2 = [bh] := by
  simp [commitBlock, consensusLog, List.filterMap_map, Function.comp_def]

/-! ## 配送済みの部分 -/

/-- 配送済みのブロックは表に残り、配送済みのまま高さと `parents` を変えない。 -/
def Settled (st st' : EntityStorage) : Prop :=
  ∀ k b, st.findBlk k = some b → b.delivered →
    ∃ b', st'.findBlk k = some b' ∧ b'.delivered ∧ b'.height = b.height ∧ b'.parents = b.parents

namespace Settled

variable {st st' st'' : EntityStorage}

theorem refl (st : EntityStorage) : Settled st st := fun _ b hb hd => ⟨b, hb, hd, rfl, rfl⟩

theorem trans (h₁ : Settled st st') (h₂ : Settled st' st'') : Settled st st'' := by
  intro k b hb hd
  obtain ⟨b', hb', hd', hh', hp'⟩ := h₁ k b hb hd
  obtain ⟨b'', hb'', hd'', hh'', hp''⟩ := h₂ k b' hb' hd'
  exact ⟨b'', hb'', hd'', hh''.trans hh', hp''.trans hp'⟩

theorem of_findBlk_eq (hk : ∀ k, st'.findBlk k = st.findBlk k) : Settled st st' :=
  fun k b hb hd => ⟨b, by rw [hk, hb], hd, rfl, rfl⟩

theorem of_findBlk (h : BlockHash) (b' : Block) (hk : ∀ k, k ≠ h → st'.findBlk k = st.findBlk k)
    (hh : st'.findBlk h = some b')
    (hb : ∀ b, st.findBlk h = some b → b.delivered →
      b'.delivered ∧ b'.height = b.height ∧ b'.parents = b.parents) : Settled st st' := by
  intro k b hkb hd
  by_cases e : k = h
  · subst e; exact ⟨b', hh, hb b hkb hd⟩
  · exact ⟨b, by rw [hk k e, hkb], hd, rfl, rfl⟩

theorem of_decision {p : BlockHash → Prop} [DecidablePred p] (hk : ∀ k, st'.findBlk k =
    (st.findBlk k).map fun b => if p k then { b with decision := true } else b) : Settled st st' := by
  intro k b hb hd
  refine ⟨_, by rw [hk, hb]; rfl, ?_⟩
  split_ifs <;> exact ⟨hd, rfl, rfl⟩

end Settled

theorem Ascent.settled {st st' : EntityStorage} (hs : Settled st st') {x z : BlockHash}
    {l : List BlockHash} (h : Ascent st x l z) : Ascent st' x l z := by
  induction h with
  | nil => exact .nil _
  | cons hx hxd hy hyd hp hh _ ih =>
    obtain ⟨bx', hx', hxd', hxh, -⟩ := hs _ _ hx hxd
    obtain ⟨b', hy', hyd', hyh, hyp⟩ := hs _ _ hy hyd
    exact .cons hx' hxd' hy' hyd' (hyp ▸ hp) (by rw [hyh, hxh, hh]) ih

/-! ## 配送済みの鎖 -/

section Chain

variable {st : EntityStorage} (hwf : ∀ k b, st.findBlk k = some b → BlockWf st k b)
include hwf

theorem Below.delivered {x y : BlockHash} (h : Below st x y) :
    (∃ b, st.findBlk y = some b ∧ b.delivered) → ∃ b, st.findBlk x = some b ∧ b.delivered := by
  induction h with
  | refl => exact id
  | parent hp _ ih =>
    rintro ⟨b, hb, -⟩
    obtain ⟨b', hb', hp'⟩ := parent0_eq_some.mp hp
    rw [hb] at hb'; cases hb'
    exact ih ((hwf _ _ hb).parentsDelivered _ (List.mem_of_mem_head? hp'))

theorem Below.settled_iff {st' : EntityStorage} (hs : Settled st st') {x y : BlockHash}
    (hy : ∃ b, st.findBlk y = some b ∧ b.delivered) : Below st' x y ↔ Below st x y := by
  -- `parents[0]` の一歩は、配送済みのブロックでは二つの表で同じ
  have step : ∀ {y p}, (∃ b, st.findBlk y = some b ∧ b.delivered) →
      (st'.parent0 y = some p ↔ st.parent0 y = some p) ∧
      (st.parent0 y = some p → ∃ b, st.findBlk p = some b ∧ b.delivered) := by
    rintro y p ⟨b, hb, hd⟩
    obtain ⟨b', hb', -, -, hp⟩ := hs y b hb hd
    refine ⟨by simp [parent0, hb, hb', hp], fun h => ?_⟩
    obtain ⟨_, hb'', hp'⟩ := parent0_eq_some.mp h
    rw [hb] at hb''; cases hb''
    exact (hwf _ _ hb).parentsDelivered _ (List.mem_of_mem_head? hp')
  constructor
  · intro h
    revert hy
    induction h with
    | refl => exact fun _ => .refl _
    | parent hp _ ih =>
      intro hy
      have hp' := (step hy).1.mp hp
      exact .parent hp' (ih ((step hy).2 hp'))
  · intro h
    revert hy
    induction h with
    | refl => exact fun _ => .refl _
    | parent hp _ ih =>
      intro hy
      exact .parent ((step hy).1.mpr hp) (ih ((step hy).2 hp))

theorem WalkPath.ascent {h : Nat} {b e : BlockHash} {q : List BlockHash} (hw : WalkPath st h b q e) :
    (∃ blk, st.findBlk b = some blk ∧ blk.delivered) → Ascent st e q.reverse b := by
  induction hw with
  | stop => exact fun _ => .nil _
  | @step b p e blk q hb hlt hp _ ih =>
    rintro ⟨blk', hb', hd⟩
    rw [hb] at hb'; cases hb'
    obtain ⟨pb, hpb, hpd⟩ := (hwf _ _ hb).parentsDelivered _ (List.mem_of_mem_head? hp)
    obtain ⟨pb', hpb', hlink⟩ := (hwf _ _ hb).heightLink hd _ hp
    rw [hpb] at hpb'; cases hpb'
    have hlt' := (hwf _ _ hpb).heightLt
    have hh : blk.height = pb.height + 1 := by
      rcases Nat.lt_or_ge (pb.height + 1) u32 with h' | h'
      · rw [hlink, Nat.mod_eq_of_lt h']
      · rw [hlink, show pb.height + 1 = u32 by omega, Nat.mod_self] at hlt; omega
    rw [List.reverse_cons]
    exact (ih ⟨pb, hpb, hpd⟩).append (.cons hpb hpd hb hd hp hh (.nil _))

end Chain

/-! ## 確定のループと `commit` -/

theorem commitLoop_state : ∀ (q : List BlockHash) {s s' : HotStuffCore},
    (commitLoop s q).state? = some s' →
    ∃ n, { s' with storage := s.storage, bExec := s.bExec } = s ∧
      s'.bExec = (q.take n).getLastD s.bExec ∧
      (∀ k, s'.findBlk k = (s.findBlk k).map fun b => if k ∈ q.take n then { b with decision := true } else b) ∧
      consensusLog (commitLoop s q).outputs = q.take n
  | [], s, s', hs => by
    cases hs; exact ⟨0, rfl, rfl, fun k => by simp, rfl⟩
  | bh :: rest, s, s', hs => by
    unfold commitLoop at hs ⊢
    split at hs
    · cases hs
    rename_i blk hb
    split at hs
    · cases hs
    rename_i order _
    split_ifs at hs ⊢ with hbrk
    · cases hs
      exact ⟨0, rfl, rfl, fun k => by simp, rfl⟩
    dsimp only at hs ⊢
    rcases Result.state?_andThen hs with ⟨_, _, he⟩ | ⟨_, s₁, _, he, hs₁⟩
    · cases he
    cases he
    obtain ⟨n, hf, he, hk, hl⟩ := commitLoop_state rest hs₁
    refine ⟨n + 1, ?_, by rw [he, List.take_succ_cons, List.getLastD_cons]; rfl, fun k => ?_, ?_⟩
    · exact frame_trans hf rfl
    · rw [hk]
      by_cases e : bh = k
      · subst e; simp [hb]
      · simp [e, List.mem_cons, Ne.symm e]
    · rw [Result.outputs_ok_andThen (by rw [hs]; rfl), consensusLog_append, consensusLog_commitBlock, hl]
      rfl

theorem commit_cases {s s' : HotStuffCore} {h0 : BlockHash} (hs : (commit s h0).state? = some s') :
    ((commit s h0).outputs = [] ∧ s' = s) ∨
    ∃ be queue, s.findBlk s.bExec = some be ∧ walkFrom s.storage be.height h0 = some (s.bExec, queue) ∧
      commit s h0 = commitLoop s queue.reverse := by
  unfold commit at hs ⊢
  split at hs
  · cases hs
  rename_i be hbe
  split at hs
  · cases hs
  rename_i b queue hwalk
  split_ifs at hs ⊢ with hb
  · cases hs; exact .inl ⟨rfl, rfl⟩
  · simp only [not_not] at hb
    subst hb
    exact .inr ⟨be, queue, hbe, hwalk, rfl⟩

theorem commit_effect {s s' : HotStuffCore} (hw : Wf s) {h1 h0 : BlockHash} {blk1 : Block}
    (hb1 : s.findBlk h1 = some blk1) (hp : blk1.parents.head? = some h0)
    (hs : (commit s h0).state? = some s') :
    ∃ l, Ascent s'.storage s.bExec l s'.bExec ∧ consensusLog (commit s h0).outputs = l ∧
      { s' with storage := s.storage, bExec := s.bExec } = s ∧
      ∀ k, s'.findBlk k = (s.findBlk k).map fun b => if k ∈ l then { b with decision := true } else b := by
  rcases commit_cases hs with ⟨ho, rfl⟩ | ⟨be, queue, hbe, hwalk, heq⟩
  · exact ⟨[], .nil _, by rw [ho]; rfl, rfl, fun k => by simp⟩
  rw [heq] at hs ⊢
  obtain ⟨n, hf, he, hk, hl⟩ := commitLoop_state _ hs
  have hwf : ∀ k b, s.storage.findBlk k = some b → BlockWf s.storage k b := hw.blocks
  have ha := (((walkFrom_path hwalk).ascent hwf
    ((hw.blocks h1 blk1 hb1).parentsDelivered h0 (List.mem_of_mem_head? hp))).take n).settled
    (Settled.of_decision hk)
  exact ⟨_, he ▸ ha, hl, hf, hk⟩

end Alkane.Core
