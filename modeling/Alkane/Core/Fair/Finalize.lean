import Alkane.Core.Fair.Majority

/-!
# `fair_finalize` の返す並び

`fair_finalize` が並びを返すなら、それはブロックの局所順序に現れるコマンドを一度ずつ並べたもので、
どの順になるかは公平さの引数 `γ` によらない。重みによる最初の整列はキーを並べ替えるだけで、
二つ目の整列の比較子は異なる二つのコマンドのどちらかを必ず先にするので、比較子が狭義弱順序なら
（`std::sort` の要件、満たさなければ未定義動作で `none`）整列した並べ替えは一つしかない。
-/

namespace Alkane.Core

open scoped List

theorem cmdWeightKeys_perm_dedup (orders : List (ReplicaID × List CmdHash)) :
    cmdWeightKeys orders ~ (orders.flatMap (·.2)).dedup :=
  List.perm_insertionSort _ _

theorem trans_of_isStrictWeakOn {lt : CmdHash → CmdHash → Bool} {l : List CmdHash}
    (h : IsStrictWeakOn lt l = true) : ∀ a ∈ l, ∀ b ∈ l, ∀ c ∈ l, lt a b → lt b c → lt a c := by
  intro a ha b hb c hc hab hbc
  simp only [IsStrictWeakOn, Bool.and_eq_true, List.all_eq_true] at h
  simpa [hab, hbc] using h.1.2 a ha b hb c hc

theorem eq_of_perm_of_sorted_pairLess (wc : CmdHash → CmdHash → Nat) {l l' : List CmdHash}
    (hp : l ~ l') (hs : l.Sorted fun a b => pairLess wc a b)
    (hs' : l'.Sorted fun a b => pairLess wc a b) : l = l' := by
  haveI : IsAntisymm CmdHash fun a b => pairLess wc a b = true :=
    ⟨fun a b h₁ h₂ => by simp [pairLess_asymm _ h₁] at h₂⟩
  exact List.eq_of_perm_of_sorted hp hs hs'

theorem insertionSort_pairLess_of_perm (wc : CmdHash → CmdHash → Nat) {l l' : List CmdHash}
    (hp : l ~ l') (hn : l'.Nodup) (hs : IsStrictWeakOn (pairLess wc) l' = true) :
    l.insertionSort (fun a b => pairLess wc a b) = l'.insertionSort fun a b => pairLess wc a b := by
  have sorted : ∀ {m : List CmdHash}, m ~ l' →
      (m.insertionSort fun a b => pairLess wc a b).Sorted fun a b => pairLess wc a b :=
    fun hm => sorted_insertionSort_of_total (hm.nodup_iff.2 hn) (fun _ _ _ _ hab => pairLess_total _ hab)
      fun a ha b hb c hc => trans_of_isStrictWeakOn hs a (hm.subset ha) b (hm.subset hb) c (hm.subset hc)
  exact eq_of_perm_of_sorted_pairLess wc
    ((List.perm_insertionSort _ _).trans (hp.trans (List.perm_insertionSort _ _).symm)) (sorted hp)
    (sorted (.refl l'))

/-- `fair_finalize` の結果は公平さの引数 `γ` によらない：`γ` を読むのは重みによる最初の整列だけで、
二つ目の整列がその並びを消す。 -/
theorem fairFinalize_fairness_irrelevant (γ γ' : Float) (orders : List (ReplicaID × List CmdHash)) :
    fairFinalize γ orders = fairFinalize γ' orders := by
  rcases orders with _ | ⟨⟨r, first⟩, rest⟩
  · rfl
  have hp : weightOrder γ ((r, first) :: rest) ~ weightOrder γ' ((r, first) :: rest) :=
    (weightOrder_perm γ _).trans (weightOrder_perm γ' _).symm
  have hn : (weightOrder γ' ((r, first) :: rest)).Nodup :=
    (weightOrder_perm γ' _).nodup_iff.2 ((cmdWeightKeys_perm_dedup _).nodup_iff.2 (List.nodup_dedup _))
  unfold fairFinalize
  dsimp only
  rw [isStrictWeakOn_perm _ hp]
  split_ifs with _ hs
  · exact congrArg some (insertionSort_pairLess_of_perm _ hp hn hs)
  all_goals rfl

theorem fairFinalize_perm_commands {γ : Float} {orders : List (ReplicaID × List CmdHash)}
    {order : List CmdHash} (h : fairFinalize γ orders = some order) :
    order ~ (orders.flatMap (·.2)).dedup := by
  rcases orders with _ | ⟨⟨r, first⟩, rest⟩
  · cases h
  unfold fairFinalize at h
  dsimp only at h
  split_ifs at h
  cases h
  exact (List.perm_insertionSort _ _).trans ((weightOrder_perm γ _).trans (cmdWeightKeys_perm_dedup _))

end Alkane.Core
