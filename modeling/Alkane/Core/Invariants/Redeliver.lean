import Alkane.Core.Lemmas.Ops

/-!
# 配送のやり直し

`on_deliver_blk(blk)` が例外を投げるとき（親のハッシュが配送済みでないか、`qc` の指すブロックが
無いとき）、書き換わるのは `blk` の `parents` と `height` だけで、`tails` と配送済みの印は変わらない。
成功する配送は `parents` と `height` を書き直し、`qc_ref` は前の試みが触れていないので、後で成功する
配送の結果は、前に失敗した試みがあってもなくても同じ。
-/

namespace Alkane.Core

open HotStuffCore

/-! ## 書き換えの重ね合わせ -/

theorem replaceBlk_replaceBlk (h : BlockHash) (b b' : Block) (l : List (BlockHash × Block)) :
    replaceBlk h b' (replaceBlk h b l) = replaceBlk h b' l := by
  simp only [replaceBlk, List.map_map]
  congr 1
  funext p
  by_cases e : p.1 = h <;> simp [e]

theorem isDelivered_setBlk {s : HotStuffCore} {h : BlockHash} {b b' : Block} (hb : s.findBlk h = some b)
    (hd : b'.delivered = b.delivered) (k : BlockHash) : (s.setBlk h b').isDelivered k = s.isDelivered k := by
  simp only [isDelivered, getDeliveredBlk, findBlk_setBlk]
  split_ifs with e
  · subst e
    simp only [hb, Option.map_some', hd]
    split <;> rfl
  · rfl

theorem deliveredPrefix_congr {s s' : HotStuffCore} (hd : ∀ k, s'.isDelivered k = s.isDelivered k) :
    ∀ l : List BlockHash, deliveredPrefix s' l = deliveredPrefix s l
  | [] => rfl
  | k :: l => by simp only [deliveredPrefix, hd k, deliveredPrefix_congr hd l]

/-! ## 失敗した試みの残り -/

theorem onDeliverBlk_residue {t : HotStuffCore} {h : BlockHash} {tb : Block} (hb : t.findBlk h = some tb)
    (ps : List BlockHash) (ht : Nat) (t' : HotStuffCore) (o : List Output) :
    onDeliverBlk (t.setBlk h { tb with parents := ps, height := ht }) h = .ok true t' o ↔
      onDeliverBlk t h = .ok true t' o := by
  have hb' : (t.setBlk h { tb with parents := ps, height := ht }).findBlk h =
      some { tb with parents := ps, height := ht } := by simp [hb]
  have hpre := deliveredPrefix_congr (@isDelivered_setBlk t h tb { tb with parents := ps, height := ht } hb rfl)
  unfold onDeliverBlk
  rw [hb, hb']
  dsimp only
  rw [hpre]
  by_cases hd : tb.delivered = true
  · simp [hd]
  split_ifs with hlt
  · simp
  -- 親はすべて配送済みで、`blk` は配送済みでないので、最初の親は `blk` ではない
  have hne : ∀ p ∈ deliveredPrefix t tb.parentHashes, h ≠ p := fun p hp e => by
    have := mem_deliveredPrefix hp
    rw [← e, isDelivered_iff] at this
    obtain ⟨b, hb₂, hd₂⟩ := this
    rw [hb] at hb₂
    cases hb₂
    exact hd hd₂
  split
  · rfl
  rename_i p _ hpl
  rw [findBlk_setBlk, if_neg (hne p (by rw [hpl]; exact .head _))]
  split
  · rfl
  rename_i pb _
  split
  · simp only [HotStuffCore.setBlk, EntityStorage.setBlk, replaceBlk_replaceBlk]
  rename_i q _
  rw [findBlk_setBlk]
  split_ifs with e
  · subst e
    simp only [hb, Option.map_some', HotStuffCore.setBlk, EntityStorage.setBlk, replaceBlk_replaceBlk]
  · split <;> simp [HotStuffCore.setBlk, EntityStorage.setBlk, replaceBlk_replaceBlk]

/-! ## 失敗した配送 -/

theorem onDeliverBlk_error_state {s s₁ : HotStuffCore} {h : BlockHash} {m : String} {o : List Output}
    (he : onDeliverBlk s h = .error m s₁ o) :
    ∃ blk ps ht, s.findBlk h = some blk ∧ blk.delivered = false ∧
      s₁ = s.setBlk h { blk with parents := ps, height := ht } := by
  unfold onDeliverBlk at he
  split at he
  · cases he
  rename_i blk hb
  dsimp only at he
  split_ifs at he with hd hlt
  · cases he
    exact ⟨blk, _, blk.height, hb, by simpa using hd, rfl⟩
  split at he
  · cases he
  split at he
  · cases he
  split at he
  · cases he
  split at he
  · cases he
    exact ⟨blk, _, _, hb, by simpa using hd, rfl⟩
  · cases he

/-- 例外を投げた `on_deliver_blk(blk)` は `tails` と配送済みの印を変えず、`blk` の `parents` と
`height` に残りを置くだけ。その後のどの状態でも、`blk` のその二つの残りは、成功する配送の結果
（`parents`、`height`、`qc_ref`、`tails`、配送済みの印を含む状態全体と出力）を変えない。 -/
theorem onDeliverBlk_error_retry {s s₁ : HotStuffCore} {h : BlockHash} {m : String} {o : List Output}
    (he : onDeliverBlk s h = .error m s₁ o) :
    s₁.tails = s.tails ∧ (∀ k, s₁.isDelivered k = s.isDelivered k) ∧
      (∃ blk ps ht, s.findBlk h = some blk ∧ s₁ = s.setBlk h { blk with parents := ps, height := ht }) ∧
      ∀ (t : HotStuffCore) (tb : Block), t.findBlk h = some tb → ∀ (ps : List BlockHash) (ht : Nat) t' o',
        onDeliverBlk (t.setBlk h { tb with parents := ps, height := ht }) h = .ok true t' o' ↔
          onDeliverBlk t h = .ok true t' o' := by
  obtain ⟨blk, ps, ht, hb, -, rfl⟩ := onDeliverBlk_error_state he
  exact ⟨rfl, isDelivered_setBlk hb rfl, ⟨blk, ps, ht, hb, rfl⟩,
    fun t tb htb ps ht t' o' => onDeliverBlk_residue htb ps ht t' o'⟩

/-- 親 `5` が表に無いブロック `2` を受け取っただけの状態。 -/
def orphanState : HotStuffCore :=
  { HotStuffCore.init 0 0 [0, 1, 2, 3] 1 0.5 with
    storage := (HotStuffCore.init 0 0 [0, 1, 2, 3] 1 0.5).storage.addBlk 2 (Block.ofWire [5] none [] 3) }

theorem onDeliverBlk_error_retry_orphan :
    (orphanState.setBlk 2 { Block.ofWire [5] none [] 3 with parents := [] }).tails = orphanState.tails ∧
      (∀ k, (orphanState.setBlk 2 { Block.ofWire [5] none [] 3 with parents := [] }).isDelivered k =
        orphanState.isDelivered k) ∧
      (∃ blk ps ht, orphanState.findBlk 2 = some blk ∧
        orphanState.setBlk 2 { Block.ofWire [5] none [] 3 with parents := [] } =
          orphanState.setBlk 2 { blk with parents := ps, height := ht }) ∧
      ∀ (t : HotStuffCore) (tb : Block), t.findBlk 2 = some tb → ∀ (ps : List BlockHash) (ht : Nat) t' o',
        onDeliverBlk (t.setBlk 2 { tb with parents := ps, height := ht }) 2 = .ok true t' o' ↔
          onDeliverBlk t 2 = .ok true t' o' :=
  @onDeliverBlk_error_retry orphanState (orphanState.setBlk 2 { Block.ofWire [5] none [] 3 with parents := [] }) 2
    "block not delivered" [] rfl

end Alkane.Core
