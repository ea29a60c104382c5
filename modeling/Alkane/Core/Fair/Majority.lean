import Alkane.Core.FairOrder

/-!
# 多数決の比較子

`fair_finalize` の二つ目の `std::sort` の比較子は、`weight_count[a][b]`（各列の先頭 `len` 個の中で
`a` が `b` より前にある組の数、`u_int16_t`）を比べ、同数ならハッシュの小さい方を先にする。
列がどれも一つのコマンドの集合の重複のない並べ替えなら、`weight_count[a][b]` は `a` を `b` より前に
置く列の数を `2^16` で割った余りで、列が `2^16` 個より少なければ比較子は多数決の関係そのもの。

多数決の関係は推移的とは限らない。三つの列が循環すると比較子は狭義弱順序でなく、`std::sort` は
未定義動作になる。推移的なら、`fair_finalize` は多数決で整列したただ一つの並びを返し、それは `γ`、
重みによる最初の整列、表の列挙順によらない。
-/

namespace Alkane.Core

open scoped List

/-! ## 多数決の関係 -/

/-- Modelled from the spec: `a` を `b` より前に置く列の数。 -/
def beforeCount (orders : List (ReplicaID × List CmdHash)) (a b : CmdHash) : Nat :=
  orders.countP fun o => [a, b] <+ o.2

/-- Modelled from the spec: 多数決の関係。`a` を `b` より前に置く列が `b` を `a` より前に置く列
より多ければ `a` が先、同数ならハッシュの小さい方が先。 -/
def majorityBefore (orders : List (ReplicaID × List CmdHash)) (a b : CmdHash) : Bool :=
  if beforeCount orders a b = beforeCount orders b a then a < b
  else beforeCount orders a b > beforeCount orders b a

theorem majorityBefore_eq_pairLess (orders : List (ReplicaID × List CmdHash)) :
    majorityBefore orders = pairLess (beforeCount orders) := rfl

theorem majorityBefore_of_perm {orders orders' : List (ReplicaID × List CmdHash)}
    (h : orders' ~ orders) : majorityBefore orders' = majorityBefore orders := by
  have hc : beforeCount orders' = beforeCount orders := by
    funext a b
    exact h.countP_eq _
  rw [majorityBefore_eq_pairLess, majorityBefore_eq_pairLess, hc]

/-! ## 比較子の性質 -/

section PairLess

variable (wc : CmdHash → CmdHash → Nat)

theorem pairLess_irrefl (a : CmdHash) : pairLess wc a a = false := by
  simp [pairLess]

theorem pairLess_asymm {a b : CmdHash} (h : pairLess wc a b) : pairLess wc b a = false := by
  unfold pairLess at h ⊢
  by_cases e : wc a b = wc b a
  · rw [if_pos e, decide_eq_true_eq] at h
    rw [if_pos e.symm, decide_eq_false_iff_not]
    exact Nat.lt_asymm h
  · rw [if_neg e, decide_eq_true_eq] at h
    rw [if_neg (Ne.symm e), decide_eq_false_iff_not]
    exact Nat.lt_asymm h

theorem pairLess_total {a b : CmdHash} (hab : a ≠ b) : pairLess wc a b ∨ pairLess wc b a := by
  unfold pairLess
  by_cases e : wc a b = wc b a
  · rw [if_pos e, if_pos e.symm, decide_eq_true_eq, decide_eq_true_eq]
    exact Nat.lt_or_gt_of_ne hab
  · rw [if_neg e, if_neg (Ne.symm e), decide_eq_true_eq, decide_eq_true_eq]
    exact Nat.lt_or_gt_of_ne (Ne.symm e)

end PairLess

theorem all_eq_of_perm {l l' : List CmdHash} (h : l ~ l') (p : CmdHash → Bool) :
    l.all p = l'.all p := by
  exact Bool.eq_iff_iff.2 (by simp only [List.all_eq_true, h.mem_iff])

theorem isStrictWeakOn_perm (lt : CmdHash → CmdHash → Bool) {l l' : List CmdHash} (h : l ~ l') :
    IsStrictWeakOn lt l = IsStrictWeakOn lt l' := by
  simp only [IsStrictWeakOn, all_eq_of_perm h]

theorem isStrictWeakOn_of_total {lt : CmdHash → CmdHash → Bool} {l : List CmdHash}
    (hirr : ∀ a ∈ l, lt a a = false) (htot : ∀ a ∈ l, ∀ b ∈ l, a ≠ b → lt a b ∨ lt b a)
    (htr : ∀ a ∈ l, ∀ b ∈ l, ∀ c ∈ l, lt a b → lt b c → lt a c) : IsStrictWeakOn lt l = true := by
  unfold IsStrictWeakOn
  simp only [Bool.and_eq_true, List.all_eq_true]
  refine ⟨⟨fun a ha => by simp [hirr a ha], fun a ha b hb c hc => ?_⟩, fun a ha b hb c hc => ?_⟩
  · have key := htr a ha b hb c hc
    revert key
    cases lt a b <;> cases lt b c <;> cases lt a c <;> simp
  -- 比べられない二つは等しい
  · by_cases h : (!lt a b && !lt b a) = true
    · obtain rfl : a = b := by
        by_contra e
        rcases htot a ha b hb e with h' | h' <;> simp [h'] at h
      generalize (!lt a c && !lt c a) = x
      cases x <;> simp
    · simp [h]

/-! ## 重みとキー -/

theorem cmdWeightKeys_perm {orders : List (ReplicaID × List CmdHash)} {C : List CmdHash}
    (hne : orders ≠ []) (hC : C.Nodup) (hp : ∀ o ∈ orders, o.2 ~ C) : cmdWeightKeys orders ~ C := by
  unfold cmdWeightKeys
  refine (List.perm_insertionSort _ _).trans ((List.perm_ext_iff_of_nodup (List.nodup_dedup _) hC).2
    fun c => ?_)
  simp only [List.mem_dedup, List.mem_flatMap]
  constructor
  · rintro ⟨o, ho, hc⟩
    exact (hp o ho).subset hc
  · intro hc
    obtain ⟨o, ho⟩ := List.exists_mem_of_ne_nil _ hne
    exact ⟨o, ho, (hp o ho).symm.subset hc⟩

theorem weightOrder_perm (γ : Float) (orders : List (ReplicaID × List CmdHash)) :
    weightOrder γ orders ~ cmdWeightKeys orders := by
  have h := (List.perm_insertionSort (fun a b : CmdHash × Float => a.2 < b.2)
    ((cmdWeightKeys orders).map fun c => (c, cmdWeight γ orders c))).map Prod.fst
  simpa only [List.map_map, Function.comp_def, List.map_id'] using h

/-! ## 数え上げ -/

theorem pairsBefore_of_nodup (a b : CmdHash) :
    ∀ {l : List CmdHash}, l.Nodup → pairsBefore a b l = if [a, b] <+ l then 1 else 0
  | [], _ => by simp [pairsBefore]
  | x :: rest, hl => by
    obtain ⟨hx, hr⟩ := List.nodup_cons.mp hl
    rw [pairsBefore, pairsBefore_of_nodup a b hr, List.count_eq_of_nodup hr]
    by_cases e : x = a
    · subst e
      have hn : ¬[x, b] <+ rest := fun h => hx (h.subset (List.mem_cons_self _ _))
      simp [hn, List.sublist_cons_iff]
    · simp [e, List.sublist_cons_iff, Ne.symm e]

theorem weightCount_eq {len : Nat} {orders : List (ReplicaID × List CmdHash)}
    (hl : ∀ o ∈ orders, o.2.length ≤ len) (hn : ∀ o ∈ orders, o.2.Nodup) (a b : CmdHash) :
    weightCount len orders a b = beforeCount orders a b % 2 ^ 16 := by
  unfold weightCount beforeCount
  congr 1
  induction orders with
  | nil => rfl
  | cons o os ih =>
    rw [List.map_cons, List.sum_cons, List.countP_cons,
      ih (fun o h => hl o (.tail _ h)) (fun o h => hn o (.tail _ h)),
      List.take_of_length_le (hl o (.head _)), pairsBefore_of_nodup a b (hn o (.head _))]
    simp only [decide_eq_true_eq]
    omega

theorem pairLess_weightCount {len : Nat} {orders : List (ReplicaID × List CmdHash)}
    (hl : ∀ o ∈ orders, o.2.length ≤ len) (hn : ∀ o ∈ orders, o.2.Nodup) (hs : orders.length < 2 ^ 16) :
    pairLess (weightCount len orders) = majorityBefore orders := by
  have hc : weightCount len orders = beforeCount orders := by
    funext a b
    have hlt : beforeCount orders a b < 2 ^ 16 := lt_of_le_of_lt (List.countP_le_length _) hs
    rw [weightCount_eq hl hn, Nat.mod_eq_of_lt hlt]
  rw [hc, majorityBefore_eq_pairLess]

theorem fairFinalize_eq_none_of_not_strictWeak {γ : Float} {orders : List (ReplicaID × List CmdHash)}
    {r : ReplicaID} {first : List CmdHash} {rest : List (ReplicaID × List CmdHash)}
    (ho : orders = (r, first) :: rest)
    (h : IsStrictWeakOn (pairLess (weightCount first.length orders)) (weightOrder γ orders) = false) :
    fairFinalize γ orders = none := by
  subst ho
  unfold fairFinalize
  simp [h]

theorem fairFinalize_eq_some {γ : Float} {orders : List (ReplicaID × List CmdHash)}
    {r : ReplicaID} {first : List CmdHash} {rest : List (ReplicaID × List CmdHash)}
    (ho : orders = (r, first) :: rest) (hb : ∀ o ∈ orders, readsInBounds first.length o.2)
    (h : IsStrictWeakOn (pairLess (weightCount first.length orders)) (weightOrder γ orders)) :
    fairFinalize γ orders =
      some ((weightOrder γ orders).insertionSort fun a b => pairLess (weightCount first.length orders) a b) := by
  subst ho
  unfold fairFinalize
  dsimp only
  rw [if_pos (List.all_eq_true.2 hb), if_pos h]

/-! ## 三つの列の循環 -/

/-- どれも `[1, 2, 3]` の並べ替えで、多数決が `1 → 2 → 3 → 1` と循環する三つの列。 -/
def condorcetOrders : List (ReplicaID × List CmdHash) :=
  [(0, [1, 2, 3]), (1, [2, 3, 1]), (2, [3, 1, 2])]

/-- 三つの列が循環すると、比較子は `1 < 2`、`2 < 3`、`3 < 1` で `1 < 3` でなく、推移的でない。
`std::sort` の要件に反するので、`fair_finalize` は重みの並びによらず未定義動作になる。 -/
theorem condorcet_comparator_cycle (γ : Float) :
    (∀ o ∈ condorcetOrders, o.2 ~ [1, 2, 3]) ∧
      pairLess (weightCount 3 condorcetOrders) 1 2 = true ∧
      pairLess (weightCount 3 condorcetOrders) 2 3 = true ∧
      pairLess (weightCount 3 condorcetOrders) 3 1 = true ∧
      pairLess (weightCount 3 condorcetOrders) 1 3 = false ∧
      fairFinalize γ condorcetOrders = none := by
  refine ⟨by decide, by decide, by decide, by decide, by decide, ?_⟩
  have hw : weightOrder γ condorcetOrders ~ [1, 2, 3] := (weightOrder_perm γ _).trans (by decide)
  refine @fairFinalize_eq_none_of_not_strictWeak γ condorcetOrders 0 [1, 2, 3] _ rfl ?_
  rw [isStrictWeakOn_perm _ hw]
  decide

/-! ## 挿入整列 -/

section InsertionSort

variable {α : Type} {r : α → α → Prop} [DecidableRel r]

theorem pairwise_orderedInsert {a : α} : ∀ {l : List α}, l.Pairwise r → (∀ b ∈ l, r a b ∨ r b a) →
    (∀ b ∈ l, ∀ c ∈ l, r a b → r b c → r a c) → (l.orderedInsert r a).Pairwise r
  | [], _, _, _ => List.pairwise_singleton r a
  | b :: l, hl, htot, htr => by
    rw [List.orderedInsert]
    split_ifs with hab
    · exact .cons (List.forall_mem_cons.2 ⟨hab, fun c hc =>
        htr b (.head _) c (.tail _ hc) hab (List.rel_of_pairwise_cons hl hc)⟩) hl
    · refine .cons (fun c hc => ?_) (pairwise_orderedInsert hl.of_cons (fun c hc => htot c (.tail _ hc))
        fun c hc d hd => htr c (.tail _ hc) d (.tail _ hd))
      rcases (List.mem_orderedInsert r).1 hc with rfl | hc
      · exact (htot b (.head _)).resolve_left hab
      · exact List.rel_of_pairwise_cons hl hc

theorem sorted_insertionSort_of_total : ∀ {l : List α}, l.Nodup →
    (∀ a ∈ l, ∀ b ∈ l, a ≠ b → r a b ∨ r b a) → (∀ a ∈ l, ∀ b ∈ l, ∀ c ∈ l, r a b → r b c → r a c) →
    (l.insertionSort r).Sorted r
  | [], _, _, _ => List.sorted_nil
  | a :: l, hn, htot, htr => by
    obtain ⟨ha, hn⟩ := List.nodup_cons.mp hn
    have hm : ∀ {x}, x ∈ l.insertionSort r → x ∈ l := (List.mem_insertionSort r).1
    refine pairwise_orderedInsert (sorted_insertionSort_of_total hn
      (fun x hx y hy => htot x (.tail _ hx) y (.tail _ hy))
      fun x hx y hy z hz => htr x (.tail _ hx) y (.tail _ hy) z (.tail _ hz))
      (fun b hb => htot a (.head _) b (.tail _ (hm hb)) fun e => ha (e ▸ hm hb))
      fun b hb c hc => htr a (.head _) b (.tail _ (hm hb)) c (.tail _ (hm hc))

end InsertionSort

/-! ## 多数決で整列した並び -/

section Finalize

variable {orders : List (ReplicaID × List CmdHash)} {C : List CmdHash}

theorem eq_of_perm_of_sorted_majority {l l' : List CmdHash} (hp : l ~ l')
    (hs : l.Sorted fun a b => majorityBefore orders a b) (hs' : l'.Sorted fun a b => majorityBefore orders a b) :
    l = l' := by
  haveI : IsAntisymm CmdHash fun a b => majorityBefore orders a b = true :=
    ⟨fun a b h₁ h₂ => by
      rw [majorityBefore_eq_pairLess] at h₁ h₂
      simp [pairLess_asymm _ h₁] at h₂⟩
  exact List.eq_of_perm_of_sorted hp hs hs'

theorem sorted_majority {order : List CmdHash} (hC : C.Nodup) (hp : order ~ C)
    (htr : ∀ a ∈ C, ∀ b ∈ C, ∀ c ∈ C,
      majorityBefore orders a b → majorityBefore orders b c → majorityBefore orders a c) :
    (order.insertionSort fun a b => majorityBefore orders a b).Sorted fun a b => majorityBefore orders a b :=
  sorted_insertionSort_of_total (hp.nodup_iff.2 hC) (fun _ _ _ _ hab => pairLess_total _ hab)
    fun a ha b hb c hc => htr a (hp.subset ha) b (hp.subset hb) c (hp.subset hc)

theorem fairFinalize_eq_insertionSort (hne : orders ≠ []) (hs : orders.length < 2 ^ 16) (hC : C.Nodup)
    (hp : ∀ o ∈ orders, o.2 ~ C)
    (htr : ∀ a ∈ C, ∀ b ∈ C, ∀ c ∈ C,
      majorityBefore orders a b → majorityBefore orders b c → majorityBefore orders a c) (γ : Float) :
    fairFinalize γ orders = some (C.insertionSort fun a b => majorityBefore orders a b) := by
  obtain ⟨⟨r, first⟩, rest, rfl⟩ := List.exists_cons_of_ne_nil hne
  have hlen : ∀ o ∈ (r, first) :: rest, o.2.length = C.length := fun o ho => (hp o ho).length_eq
  have hlt := pairLess_weightCount (fun o ho => (hlen o ho).le)
    (fun o ho => (hp o ho).nodup_iff.2 hC) hs
  have hw : weightOrder γ ((r, first) :: rest) ~ C := (weightOrder_perm γ _).trans (cmdWeightKeys_perm hne hC hp)
  have hsw : IsStrictWeakOn (majorityBefore ((r, first) :: rest)) (weightOrder γ ((r, first) :: rest)) :=
    (isStrictWeakOn_perm _ hw).trans (isStrictWeakOn_of_total (fun a _ => pairLess_irrefl _ a)
      (fun _ _ _ _ hab => pairLess_total _ hab) htr)
  unfold fairFinalize
  dsimp only
  rw [hlen _ (.head _), hlt, if_pos (List.all_eq_true.2 fun o ho => by simp [readsInBounds, hlen o ho]),
    if_pos hsw]
  exact congrArg some (eq_of_perm_of_sorted_majority
    ((List.perm_insertionSort _ _).trans (hw.trans (List.perm_insertionSort _ _).symm))
    (sorted_majority hC hw htr) (sorted_majority hC (.refl C) htr))

/-- 列がどれも一つのコマンドの集合 `C` の重複のない並べ替えで、`2^16` 個より少なく、多数決の関係が
`C` の上で推移的なら、`fair_finalize` は `C` を多数決で整列したただ一つの並びを返す。重みによる
最初の整列がどう並べても二つ目の整列の結果は同じで、`γ` にも表の列挙順にもよらない。 -/
theorem fairFinalize_majority_sort (hne : orders ≠ []) (hs : orders.length < 2 ^ 16) (hC : C.Nodup)
    (hp : ∀ o ∈ orders, o.2 ~ C)
    (htr : ∀ a ∈ C, ∀ b ∈ C, ∀ c ∈ C,
      majorityBefore orders a b → majorityBefore orders b c → majorityBefore orders a c) (γ : Float) :
    ∃ l, fairFinalize γ orders = some l ∧ l ~ C ∧ (l.Sorted fun a b => majorityBefore orders a b) ∧
      (∀ l', l' ~ C → (l'.Sorted fun a b => majorityBefore orders a b) → l' = l) ∧
      (∀ order, order ~ C →
        (order.insertionSort fun a b => pairLess (weightCount C.length orders) a b) = l) ∧
      ∀ γ' orders', orders' ~ orders → fairFinalize γ' orders' = some l := by
  have hl := sorted_majority hC (.refl C) htr
  refine ⟨_, fairFinalize_eq_insertionSort hne hs hC hp htr γ, List.perm_insertionSort _ _, hl,
    fun l' hp' hs' => eq_of_perm_of_sorted_majority (hp'.trans (List.perm_insertionSort _ _).symm) hs' hl,
    fun order ho => ?_, fun γ' orders' ho => ?_⟩
  · have hlen : ∀ o ∈ orders, o.2.length ≤ C.length := fun o h => (hp o h).length_eq.le
    rw [pairLess_weightCount hlen (fun o h => (hp o h).nodup_iff.2 hC) hs]
    exact eq_of_perm_of_sorted_majority
      ((List.perm_insertionSort _ _).trans (ho.trans (List.perm_insertionSort _ _).symm))
      (sorted_majority hC ho htr) hl
  -- 列挙順を変えても、多数決の関係は変わらない
  · have hm := majorityBefore_of_perm ho
    rw [fairFinalize_eq_insertionSort (fun e => hne (e ▸ ho).nil_eq.symm) (ho.length_eq ▸ hs) hC
      (fun o h => hp o (ho.subset h)) (by rwa [hm]) γ', hm]

/-- 二つの列が `1` を、一つの列が `2` を先に置く表。 -/
def threeOrders : List (ReplicaID × List CmdHash) := [(0, [1, 2]), (1, [1, 2]), (2, [2, 1])]

theorem fairFinalize_majority_sort_three :
    ∃ l, fairFinalize 0.5 threeOrders = some l ∧ l ~ [1, 2] ∧
      (l.Sorted fun a b => majorityBefore threeOrders a b) ∧
      (∀ l', l' ~ [1, 2] → (l'.Sorted fun a b => majorityBefore threeOrders a b) → l' = l) ∧
      (∀ order, order ~ [1, 2] →
        (order.insertionSort fun a b => pairLess (weightCount [1, 2].length threeOrders) a b) = l) ∧
      ∀ γ' orders', orders' ~ threeOrders → fairFinalize γ' orders' = some l :=
  fairFinalize_majority_sort (by decide) (by decide) (by decide) (by decide) (by decide) 0.5

end Finalize

/-! ## 数が `2^16` で回る -/

/-- `2^16` 個のレプリカがどれも `[2, 1]` を送った表。 -/
def wrapOrders : List (ReplicaID × List CmdHash) := (List.range (2 ^ 16)).map fun r => (r, [2, 1])

theorem wrapOrders_snd {o : ReplicaID × List CmdHash} (ho : o ∈ wrapOrders) : o.2 = [2, 1] := by
  obtain ⟨r, -, rfl⟩ := List.mem_map.1 ho
  rfl

theorem length_wrapOrders : wrapOrders.length = 2 ^ 16 := by
  rw [wrapOrders, List.length_map, List.length_range]

theorem weightCount_wrapOrders : weightCount 2 wrapOrders = fun _ _ => 0 := by
  funext a b
  rw [weightCount_eq (fun o ho => by rw [wrapOrders_snd ho]; rfl) (fun o ho => by rw [wrapOrders_snd ho]; decide)]
  unfold beforeCount
  by_cases hab : [a, b] <+ [2, 1]
  · rw [List.countP_eq_length.2 fun o ho => by simp [wrapOrders_snd ho, hab], length_wrapOrders, Nat.mod_self]
  · rw [List.countP_eq_zero.2 fun o ho => by simp [wrapOrders_snd ho, hab], Nat.zero_mod]

/-- `2^16` 個の列がどれも `2` を `1` より前に置いても、数が `0` に回って同数になり、`fair_finalize`
はハッシュの順の `[1, 2]` を返す。 -/
theorem fairFinalize_count_wraps :
    wrapOrders.length = 2 ^ 16 ∧ (∀ o ∈ wrapOrders, o.2 ~ [1, 2]) ∧
      majorityBefore wrapOrders 2 1 = true ∧ fairFinalize 0.5 wrapOrders = some [1, 2] := by
  have hp : ∀ o ∈ wrapOrders, o.2 ~ [1, 2] := fun o ho => by rw [wrapOrders_snd ho]; decide
  have hbc : beforeCount wrapOrders 2 1 = 2 ^ 16 := by
    rw [beforeCount, List.countP_eq_length.2 fun o ho => by simp [wrapOrders_snd ho], length_wrapOrders]
  have hcb : beforeCount wrapOrders 1 2 = 0 :=
    List.countP_eq_zero.2 fun o ho => by rw [wrapOrders_snd ho]; decide
  have hne : wrapOrders ≠ [] := fun e => by simpa [e] using length_wrapOrders
  have hperm : weightOrder 0.5 wrapOrders ~ [1, 2] :=
    (weightOrder_perm 0.5 _).trans (cmdWeightKeys_perm hne (by decide) hp)
  -- 比較子はハッシュの比較になる
  have hlt : pairLess (weightCount 2 wrapOrders) = fun a b => decide (a < b) := by
    rw [weightCount_wrapOrders]
    funext a b
    simp [pairLess]
  have hhead : wrapOrders = (0, [2, 1]) :: ((List.range 65535).map Nat.succ).map fun r => (r, [2, 1]) := by
    rw [wrapOrders, show 2 ^ 16 = 65535 + 1 from rfl, List.range_succ_eq_map, List.map_cons]
  refine ⟨length_wrapOrders, hp, ?_, ?_⟩
  · rw [majorityBefore, hbc, hcb, if_neg (by norm_num)]
    decide
  rw [@fairFinalize_eq_some 0.5 wrapOrders 0 [2, 1] _ hhead
    (fun o ho => by simp [wrapOrders_snd ho, readsInBounds])
    (by rw [List.length_cons, List.length_singleton, hlt, isStrictWeakOn_perm _ hperm]; decide)]
  rw [List.length_cons, List.length_singleton, hlt]
  haveI : IsAntisymm CmdHash fun a b => decide (a < b) = true :=
    ⟨fun a b h₁ h₂ => absurd (of_decide_eq_true h₂) (Nat.lt_asymm (of_decide_eq_true h₁))⟩
  exact congrArg some (List.eq_of_perm_of_sorted ((List.perm_insertionSort _ _).trans hperm)
    (sorted_insertionSort_of_total (hperm.nodup_iff.2 (by decide))
      (fun a _ b _ hab => (Nat.lt_or_gt_of_ne hab).imp decide_eq_true decide_eq_true)
      fun a _ b _ c _ h₁ h₂ => decide_eq_true (Nat.lt_trans (of_decide_eq_true h₁) (of_decide_eq_true h₂)))
    (by decide))

end Alkane.Core
