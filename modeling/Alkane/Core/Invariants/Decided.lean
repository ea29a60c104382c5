import Alkane.Core.Lemmas.Steady

/-!
# 確定したブロック

`prune` の無い実行では、`decision = 1` のブロックはちょうど `b_exec` から `parents[0]` をたどって
着くブロックで、`b_exec` は `b0` の上にある（`Decided`）。`do_consensus` に渡したブロックの列は
`b0` から `b_exec` へ上る道（`Ascent`）で、一つの出来事はその道を `b_exec` から先へ延ばすだけ。
-/

namespace Alkane.Core

open EntityStorage HotStuffCore

/-- 確定しているのは `b_exec` の下にあるブロックだけ。 -/
def Decided (s : HotStuffCore) : Prop :=
  ∀ k b, s.findBlk k = some b → (b.decision = true ↔ Below s.storage k s.bExec)

/-- 出来事一つの前後：配送済みの部分は変わらず、`b_exec` は `do_consensus` に渡したブロックを
順にたどって上り、`b0` は変わらない。 -/
def Extends (s : HotStuffCore) (o : List Output) (s' : HotStuffCore) : Prop :=
  Settled s.storage s'.storage ∧ Ascent s'.storage s.bExec (consensusLog o) s'.bExec ∧ s'.b0 = s.b0

theorem Extends.chainable : Chainable Extends where
  refl s := ⟨Settled.refl _, .nil _, rfl⟩
  trans := fun ⟨hs₁, ha₁, h0₁⟩ ⟨hs₂, ha₂, h0₂⟩ => by
    refine ⟨hs₁.trans hs₂, ?_, h0₂.trans h0₁⟩
    rw [consensusLog_append]
    exact (ha₁.settled hs₂).append ha₂

section Preserve

variable {s s' : HotStuffCore}

theorem Decided.steady (hw : Wf s) (hd : Decided s) (h : Steady s s') : Decided s' := by
  intro k b' hk
  rw [h.bExec, Below.settled_iff hw.blocks h.settled hw.bExecDelivered]
  cases hb : s.findBlk k with
  | none =>
    rw [h.fresh k b' hk hb]
    refine ⟨nofun, fun hbl => ?_⟩
    obtain ⟨_, hb', -⟩ := Below.delivered hw.blocks hbl hw.bExecDelivered
    rw [← findBlk_eq, hb] at hb'
    cases hb'
  | some b =>
    obtain ⟨b'', hb'', hdec, -⟩ := h.kept k b hb
    rw [hk] at hb''
    cases hb''
    rw [hdec]
    exact hd k b hb

theorem Decided.commit (hw : Wf s) (hd : Decided s) {l : List BlockHash}
    (ha : Ascent s'.storage s.bExec l s'.bExec)
    (hk : ∀ k, s'.findBlk k = (s.findBlk k).map fun b => if k ∈ l then { b with decision := true } else b) :
    Decided s' := by
  intro k b' hk'
  rw [ha.below_iff, Below.settled_iff hw.blocks (Settled.of_decision hk) hw.bExecDelivered]
  rw [hk] at hk'
  obtain ⟨b, hb, rfl⟩ := Option.map_eq_some'.mp hk'
  rw [← hd k b hb]
  split_ifs with hl <;> simp [hl]

end Preserve

theorem Decided.leaves :
    Leaves noPrune (fun s => Wf s ∧ Decided s) Extends :=
  Leaves.of_steady Extends.chainable (fun _ h => h.1)
    (fun _ o _ ⟨hw, hd⟩ hw' h hc => ⟨⟨hw', hd.steady hw h⟩, h.settled, by rw [hc, h.bExec]; exact .nil _, h.b0⟩)
    (fun s _ _ _ hb hp ⟨hw, hd⟩ s' hs => by
      obtain ⟨l, ha, hl, hf, hk⟩ := commit_effect hw hb hp hs
      have h0 := congrArg HotStuffCore.b0 hf
      exact ⟨⟨hw.commit hb hp hs, hd.commit hw ha hk⟩, Settled.of_decision hk, hl ▸ ha, h0⟩)
    (fun _ _ h => h.elim)

theorem Decided.init (b0 : BlockHash) (id : ReplicaID) (replicas : List ReplicaID) (nfaulty : Nat)
    (γ : Float) : Decided (HotStuffCore.init b0 id replicas nfaulty γ) := by
  intro k b hb
  have e : k = b0 ∧ b = Block.genesis b0 replicas := by
    simp only [HotStuffCore.init, findBlk_mk, EntityStorage.findBlk, lookupBlk_cons, lookupBlk_nil] at hb
    split_ifs at hb with e
    exact ⟨e.symm, (Option.some.inj hb).symm⟩
  obtain ⟨rfl, rfl⟩ := e
  exact ⟨fun _ => .refl _, fun _ => rfl⟩

/-- `prune` の無い実行のどの状態でも、確定しているのはちょうど `b_exec` の下にあるブロックで、
`b_exec` は `b0` の上にある。`do_consensus` に渡したブロックの列は `b0` から `b_exec` へ上る道
（高さが一つずつ増える `parents[0]` の鎖）で、同じブロックを二度渡さない。出来事一つは、
`b_exec` から `do_consensus` に渡したブロックを順にたどって新しい `b_exec` へ上る。 -/
theorem decided_iff_below_exec {s : HotStuffCore} {out : List Output} (hr : Run noPrune s out) :
    (∀ k b, s.findBlk k = some b → (b.decision = true ↔ Below s.storage k s.bExec)) ∧
      Below s.storage s.b0 s.bExec ∧ Ascent s.storage s.b0 (consensusLog out) s.bExec ∧
      (consensusLog out).Nodup ∧
      ∀ op s', noPrune s op → op.ContentAddressed s → (exec s op).state? = some s' →
        Ascent s'.storage s.bExec (consensusLog (exec s op).outputs) s'.bExec := by
  obtain ⟨⟨hw, hd⟩, ha⟩ := @Run.invariant noPrune _ _ (fun s out => Ascent s.storage s.b0 (consensusLog out) s.bExec)
    Extends.chainable Decided.leaves
    (fun b0 id replicas nfaulty γ => ⟨⟨Wf.init b0 id replicas nfaulty γ, Decided.init b0 id replicas nfaulty γ⟩, .nil _⟩)
    (fun _ _ _ _ _ ha ⟨hs, ha', h0⟩ _ => by
      dsimp only at ha ⊢
      rw [consensusLog_append, h0]
      exact (ha.settled hs).append ha') s out hr
  refine ⟨hd, ha.toBelow, ha, ha.nodup, fun op s' hop hc hs => ?_⟩
  exact (exec_keeps Extends.chainable Decided.leaves hop hc ⟨hw, hd⟩ s' hs).2.2.1

theorem commitState_run : Run noPrune commitState.1 commitState.2 :=
  @run_of_runOpsOut_getD noPrune _ 0 0 [0, 1, 2, 3] 1 0.5 commitRun (by decide) (by decide)

theorem decided_iff_below_exec_commitRun :
    commitState.1.bExec = 1 ∧ consensusLog commitState.2 = [1] ∧
      (∀ k b, commitState.1.findBlk k = some b → (b.decision = true ↔ Below commitState.1.storage k commitState.1.bExec)) ∧
      Below commitState.1.storage commitState.1.b0 commitState.1.bExec ∧
      Ascent commitState.1.storage commitState.1.b0 (consensusLog commitState.2) commitState.1.bExec ∧
      (consensusLog commitState.2).Nodup ∧
      ∀ op s', noPrune commitState.1 op → op.ContentAddressed commitState.1 → (exec commitState.1 op).state? = some s' →
        Ascent s'.storage commitState.1.bExec (consensusLog (exec commitState.1 op).outputs) s'.bExec :=
  ⟨by decide, by decide, decided_iff_below_exec commitState_run⟩

end Alkane.Core
