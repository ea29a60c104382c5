import Alkane.Core.Lemmas.Wf

/-!
# `prune` と表の健全さ

`prune` の深さ優先の探索は、スタックの先頭のブロックの `parents` を末尾から一つずつ外して
スタックに積み、`parents` が空になったブロックを `try_release_blk` に渡す。外しても
`parents[0]` は最後まで残るか空になるだけで、放すのはどこからも参照されないブロックだけなので、
健全さは保たれる。
-/

namespace Alkane.Core

open EntityStorage HotStuffCore

/-! ## 表からの削除 -/

theorem lookupBlk_filter_ne (h k : BlockHash) (l : List (BlockHash × Block)) :
    lookupBlk k (l.filter (·.1 ≠ h)) = if k = h then none else lookupBlk k l := by
  induction l with
  | nil => simp
  | cons p l ih =>
    obtain ⟨k', b⟩ := p
    by_cases e : k' = h <;> by_cases e' : k' = k <;> simp_all [List.filter_cons]

theorem mem_of_lookupBlk {k : BlockHash} {b : Block} :
    ∀ {l : List (BlockHash × Block)}, lookupBlk k l = some b → (k, b) ∈ l
  | [], hl => by simp at hl
  | (k', b') :: l, hl => by
    simp only [lookupBlk_cons] at hl
    split_ifs at hl with e
    · cases hl; subst e; exact List.mem_cons_self _ _
    · exact List.mem_cons_of_mem _ (mem_of_lookupBlk hl)

theorem BlockWf.mono {st st' : EntityStorage} {k : BlockHash} {b : Block} (hb : BlockWf st k b)
    (hx : ∀ x, (x ∈ b.parents ∨ b.qcRef = some x) → st'.findBlk x = st.findBlk x) :
    BlockWf st' k b where
  heightLt := hb.heightLt
  heightLink hd p hp := by
    rw [hx p (.inl (List.mem_of_mem_head? hp))]; exact hb.heightLink hd p hp
  qcRefFound r hr := by rw [hx r (.inr hr)]; exact hb.qcRefFound r hr
  qcRefObj := hb.qcRefObj
  selfQcObj := hb.selfQcObj
  parentsDelivered p hp := by rw [hx p (.inl hp)]; exact hb.parentsDelivered p hp

theorem Wf.tryReleaseBlk {s : HotStuffCore} (hw : Wf s) (h : BlockHash) (stack : List BlockHash) :
    Wf (tryReleaseBlk s h stack) := by
  unfold Alkane.Core.tryReleaseBlk
  dsimp only
  split_ifs with href
  · exact hw
  simp only [not_or, List.any_eq_true, not_exists, not_and, Bool.not_eq_true, decide_eq_false_iff_not,
    ne_eq] at href
  obtain ⟨-, hq, hl, he, -, -, -, hrest⟩ := href
  have hk : ∀ k, ({ s with storage := { s.storage with
      blkCache := s.storage.blkCache.filter (·.1 ≠ h) } } : HotStuffCore).findBlk k =
      if k = h then none else s.findBlk k := fun k => lookupBlk_filter_ne h k _
  -- 他のブロックは `h` を指さない
  have hnot : ∀ k b, s.findBlk k = some b → k ≠ h → ∀ x, (x ∈ b.parents ∨ b.qcRef = some x) → x ≠ h := by
    intro k b hb hkh x hx e
    subst e
    have := hrest (k, b) (mem_of_lookupBlk hb) hkh
    simp_all
  refine ⟨fun k b hb => ?_, ?_, hw.hqcObj, ?_, ?_⟩
  · rw [hk] at hb
    split_ifs at hb with e
    exact (hw.blocks k b hb).mono fun x hx => by
      simp only [findBlk_mk, storage_findBlk] at hk ⊢
      rw [show ({ s.storage with blkCache := _ } : EntityStorage).findBlk x =
        if x = h then none else s.findBlk x from hk x, if_neg (hnot k b hb e x hx)]
  · rw [hk, if_neg (Ne.symm hq)]; exact hw.hqcFound
  · rw [hk, if_neg (Ne.symm hl)]; exact hw.bLockFound
  · rw [hk, if_neg (Ne.symm he)]; exact hw.bExecDelivered

theorem head?_dropLast {l : List BlockHash} {p : BlockHash} (h : l.dropLast.head? = some p) :
    l.head? = some p := by
  match l, h with
  | _ :: _ :: _, h => simpa using h

theorem BlockWf.dropLast {st : EntityStorage} {k : BlockHash} {b : Block} (hb : BlockWf st k b) :
    BlockWf st k { b with qcRef := none, parents := b.parents.dropLast } where
  heightLt := hb.heightLt
  heightLink hd p hp := hb.heightLink hd p (head?_dropLast hp)
  qcRefFound _ h := by cases h
  qcRefObj _ h := by cases h
  selfQcObj := hb.selfQcObj
  parentsDelivered p hp := hb.parentsDelivered p (List.dropLast_subset _ hp)

theorem Wf.pruneLoop : ∀ (fuel : Nat) (stack : List BlockHash) {s s' : HotStuffCore}, Wf s →
    pruneLoop s fuel stack = some s' → Wf s'
  | _, [], _, _, hw, hs => by simp only [Alkane.Core.pruneLoop, Option.some.injEq] at hs; exact hs ▸ hw
  | 0, _ :: _, _, _, _, hs => by cases hs
  | fuel + 1, top :: rest, s, s', hw, hs => by
    unfold Alkane.Core.pruneLoop at hs
    split at hs
    · cases hs
    rename_i blk hb
    split at hs
    · exact Wf.pruneLoop fuel rest (hw.tryReleaseBlk top rest) hs
    · exact Wf.pruneLoop fuel _ (hw.setBlk hb (hw.blocks top blk hb).dropLast fun hd => ⟨hd, rfl⟩) hs

theorem Wf.prune {s s' : HotStuffCore} (hw : Wf s) {n : Nat} (hs : (prune s n).state? = some s') :
    Wf s' := by
  unfold Alkane.Core.prune at hs
  split at hs
  · cases hs
  · cases hs; exact hw
  split at hs
  · cases hs
  rename_i sb hsb
  dsimp only at hs
  split at hs
  · cases hs
  · cases hs
    rename_i hl
    have hb : BlockWf s.storage _ { sb with qcRef := none } :=
      ⟨⟨(hw.blocks _ _ hsb).heightLt, (hw.blocks _ _ hsb).heightLink, nofun, nofun,
        (hw.blocks _ _ hsb).selfQcObj⟩, (hw.blocks _ _ hsb).parentsDelivered⟩
    exact Wf.pruneLoop _ _ (hw.setBlk hsb hb fun hd => ⟨hd, rfl⟩) hl

/-! ## 放すことと外すことだけ -/

/-- 表だけを書き換え、残ったブロックは `parents` と `qc_ref` のほかは元のまま（`prune` の一歩）。 -/
def Strips (s s' : HotStuffCore) : Prop :=
  { s' with storage := s.storage } = s ∧
    ∀ k b', s'.findBlk k = some b' → ∃ b, s.findBlk k = some b ∧ ∃ ps q, b' = { b with parents := ps, qcRef := q }

namespace Strips

variable {s s' s'' : HotStuffCore}

theorem refl (s : HotStuffCore) : Strips s s := ⟨rfl, fun _ b hb => ⟨b, hb, b.parents, b.qcRef, rfl⟩⟩

theorem trans (h₁ : Strips s s') (h₂ : Strips s' s'') : Strips s s'' := by
  refine ⟨?_, fun k b'' hb'' => ?_⟩
  · calc { s'' with storage := s.storage }
        = { ({ s'' with storage := s'.storage } : HotStuffCore) with storage := s.storage } := rfl
      _ = s := by rw [h₂.1]; exact h₁.1
  · obtain ⟨b', hb', ps, q, rfl⟩ := h₂.2 k b'' hb''
    obtain ⟨b, hb, -, -, rfl⟩ := h₁.2 k b' hb'
    exact ⟨b, hb, ps, q, rfl⟩

theorem tryReleaseBlk (h : BlockHash) (stack : List BlockHash) : Strips s (tryReleaseBlk s h stack) := by
  unfold Alkane.Core.tryReleaseBlk
  dsimp only
  split_ifs
  · exact refl s
  · refine ⟨rfl, fun k b' hb' => ⟨b', ?_, b'.parents, b'.qcRef, rfl⟩⟩
    have hk : ({ s with storage := { s.storage with
        blkCache := s.storage.blkCache.filter (·.1 ≠ h) } } : HotStuffCore).findBlk k =
        if k = h then none else s.findBlk k := lookupBlk_filter_ne h k _
    rw [hk] at hb'
    split_ifs at hb'
    exact hb'

theorem setBlk {h : BlockHash} {b b' : Block} (hb : s.findBlk h = some b)
    (hv : ∃ ps q, b' = { b with parents := ps, qcRef := q }) : Strips s (s.setBlk h b') := by
  refine ⟨rfl, fun k c hc => ?_⟩
  by_cases e : h = k
  · subst e
    simp only [HotStuffCore.findBlk_setBlk, hb, if_true, Option.map_some', Option.some.injEq] at hc
    subst hc
    exact ⟨b, hb, hv⟩
  · exact ⟨c, by simpa [e] using hc, c.parents, c.qcRef, rfl⟩

theorem pruneLoop : ∀ (fuel : Nat) (stack : List BlockHash) {s s' : HotStuffCore},
    pruneLoop s fuel stack = some s' → Strips s s'
  | _, [], _, _, hs => by simp only [Alkane.Core.pruneLoop, Option.some.injEq] at hs; exact hs ▸ refl _
  | 0, _ :: _, _, _, hs => by cases hs
  | fuel + 1, top :: rest, s, s', hs => by
    unfold Alkane.Core.pruneLoop at hs
    split at hs
    · cases hs
    rename_i blk hb
    split at hs
    · exact (tryReleaseBlk top rest).trans (Strips.pruneLoop fuel rest hs)
    · exact (setBlk hb ⟨_, _, rfl⟩).trans (Strips.pruneLoop fuel _ hs)

theorem prune {n : Nat} (hs : (prune s n).state? = some s') : Strips s s' := by
  unfold Alkane.Core.prune at hs
  split at hs
  · cases hs
  · cases hs; exact refl s
  split at hs
  · cases hs
  rename_i sb hsb
  dsimp only at hs
  split at hs
  · cases hs
  · cases hs
    rename_i hl
    exact (setBlk hsb ⟨_, _, rfl⟩).trans (Strips.pruneLoop _ _ hl)

end Strips

/-- 表だけを書き換え、残ったブロックの高さは元のまま（`prune` の一歩）。 -/
def Shrinks (s s' : HotStuffCore) : Prop :=
  { s' with storage := s.storage } = s ∧
    ∀ k b', s'.findBlk k = some b' → ∃ b, s.findBlk k = some b ∧ b'.height = b.height

theorem Shrinks.prune {s s' : HotStuffCore} {n : Nat} (hs : (prune s n).state? = some s') : Shrinks s s' := by
  obtain ⟨h₁, h₂⟩ := Strips.prune hs
  refine ⟨h₁, fun k b' hb' => ?_⟩
  obtain ⟨b, hb, ps, q, rfl⟩ := h₂ k b' hb'
  exact ⟨b, hb, rfl⟩

/-! ## 叔父をたどる刈り込み -/

/-- 生成ブロックの上の鎖 11、12、13 と、`parents = [b0, 13]` のブロック 1 の上の鎖 2、3、4、
13 の上の鎖 21、22。ブロック 4 の提案で三連鎖がそろい、ブロック 1 を確定する。 -/
def uncleRun : List Op :=
  [.fetch 11 [0] (some ⟨0, []⟩) [(3, [11])] 2, .deliver 11,
   .fetch 12 [11] (some ⟨0, []⟩) [(3, [12])] 3, .deliver 12,
   .fetch 13 [12] (some ⟨0, []⟩) [(3, [13])] 4, .deliver 13,
   .fetch 1 [0, 13] (some ⟨0, []⟩) [(3, [1])] 2, .deliver 1,
   .fetch 2 [1] (some ⟨1, []⟩) [(3, [2])] 3, .deliver 2,
   .fetch 3 [2] (some ⟨2, []⟩) [(3, [3])] 4, .deliver 3,
   .fetch 4 [3] (some ⟨3, []⟩) [(3, [4])] 5, .deliver 4,
   .fetch 21 [13] (some ⟨0, []⟩) [(3, [21])] 5, .deliver 21,
   .fetch 22 [21] (some ⟨0, []⟩) [(3, [22])] 6, .deliver 22,
   .receiveProposal ⟨3, 4⟩]

/-- `prune(0)` の深さ優先の探索は `b_exec`（ブロック 1、高さ 2）の叔父 13 をたどり、高さ 4 の
ブロック 13 の `parents` を空にする。その後、13 を通る鎖の先 22 の提案を受け取ると、`b_lock` への
下りの途中で空の `parents[0]` を読む。 -/
theorem prune_empties_block_above_exec :
    ∃ s, Reachable anyOp s ∧ s.bExec = 1 ∧ (s.findBlk 1).map (·.height) = some 2 ∧
      ((s.findBlk 13).map fun b => (b.height, b.parents)) = some (4, [12]) ∧
      ((exec s (.prune 0)).state?.map fun s' =>
        ((s'.findBlk 13).map (·.parents), (exec s' (.receiveProposal ⟨3, 22⟩)).isUndefined)) =
        some (some [], true) :=
  ⟨_, @reachable_of_runOps_getD 0 0 [0, 1, 2, 3] 1 0.5 uncleRun (by decide), by decide, by decide,
    by decide, by decide⟩

end Alkane.Core
