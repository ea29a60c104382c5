import Alkane.Core.FairOrder

/-!
# 局所順序の併合

`fair_propose` は、先頭のレプリカ `r0` の列に、ほかのレプリカの列のまだ無いコマンドを出会った順に
足し（一つ目のループ、`vc` はレプリカごとに取り直す）、次にほかの各レプリカの列に、併合した列の
まだ無いコマンドをその順に足す（二つ目のループ）。各レプリカの先頭の列に重複がなければ、どの列も
自分の先頭の列で始まり、重複がなく、先頭の列すべての和集合をちょうど持つ。
-/

namespace Alkane.Core

open scoped List

/-! ## 一つ目のループ -/

section MergeFirst

variable (front : ReplicaID → List CmdHash)

theorem prefix_mergeFirst : ∀ (o0 : List CmdHash) (rs : List ReplicaID), o0 <+: mergeFirst front o0 rs
  | _, [] => List.prefix_refl _
  | _, _ :: rs => (List.prefix_append _ _).trans (prefix_mergeFirst _ rs)

theorem mem_mergeFirst {c : CmdHash} :
    ∀ (o0 : List CmdHash) (rs : List ReplicaID), c ∈ mergeFirst front o0 rs ↔ c ∈ o0 ∨ ∃ r ∈ rs, c ∈ front r
  | _, [] => by simp [mergeFirst]
  | o0, r :: rs => by
    rw [mergeFirst, mem_mergeFirst _ rs]
    by_cases h : c ∈ o0 <;> simp [h]

theorem nodup_append_filter {l m : List CmdHash} (hl : l.Nodup) (hm : m.Nodup) :
    (l ++ m.filter (· ∉ l)).Nodup :=
  List.Nodup.append hl (hm.filter _) fun c hc hc' => by simp_all

theorem nodup_mergeFirst : ∀ {o0 : List CmdHash} (rs : List ReplicaID), (∀ r ∈ rs, (front r).Nodup) →
    o0.Nodup → (mergeFirst front o0 rs).Nodup
  | _, [], _, h => h
  | _, _ :: rs, hf, h =>
    nodup_mergeFirst rs (fun r h' => hf r (.tail _ h')) (nodup_append_filter h (hf _ (.head _)))

end MergeFirst

/-! ## 二つ目のループ -/

theorem mem_extendWith {merged own : List CmdHash} (hsub : own ⊆ merged) (c : CmdHash) :
    c ∈ extendWith merged own ↔ c ∈ merged := by
  unfold extendWith
  by_cases h : c ∈ own
  · simp [h, hsub h]
  · simp [h]

/-! ## 併合の結果 -/

/-- 局所順序を寄せたレプリカが `r0 :: rest` で、どの先頭の列にも重複がなければ、`fair_propose` の
表のキーはちょうど `r0 :: rest` で、各レプリカの列は自分の先頭の列で始まり、重複がなく、先頭の列
すべての和集合をちょうど持つ。したがって、どの二つの列も互いの並べ替え。 -/
theorem fairPropose_union {st : EntityStorage} {r0 : ReplicaID} {rest : List ReplicaID}
    (hr : st.getOrderedHashRepliaVector = r0 :: rest)
    (hf : ∀ r ∈ r0 :: rest, (st.getOrderedHashVector r).Nodup) :
    (fairPropose st).1.map Prod.fst = r0 :: rest ∧
      (∀ p ∈ (fairPropose st).1, st.getOrderedHashVector p.1 <+: p.2 ∧ p.2.Nodup ∧
        ∀ c, c ∈ p.2 ↔ ∃ r ∈ r0 :: rest, c ∈ st.getOrderedHashVector r) ∧
      ∀ p ∈ (fairPropose st).1, ∀ q ∈ (fairPropose st).1, p.2 ~ q.2 := by
  set front := st.getOrderedHashVector
  set merged := mergeFirst front (front r0) rest
  -- 併合した列は、先頭の列すべての和集合をちょうど持ち、重複がない
  have hm : ∀ c, c ∈ merged ↔ ∃ r ∈ r0 :: rest, c ∈ front r := fun c => by
    simp [merged, mem_mergeFirst]
  have hmn : merged.Nodup := nodup_mergeFirst front rest (fun r h => hf r (.tail _ h)) (hf r0 (.head _))
  have hres : (fairPropose st).1 = (r0, merged) :: rest.map fun r => (r, extendWith merged (front r)) := by
    simp only [fairPropose, hr]
  -- どの列も、その性質を持つ
  have hall : ∀ p ∈ (fairPropose st).1, front p.1 <+: p.2 ∧ p.2.Nodup ∧
      ∀ c, c ∈ p.2 ↔ ∃ r ∈ r0 :: rest, c ∈ front r := by
    rw [hres]
    rintro p (_ | ⟨_, hp⟩)
    · exact ⟨prefix_mergeFirst front _ _, hmn, hm⟩
    · obtain ⟨r, hr', rfl⟩ := List.mem_map.1 hp
      have hsub : front r ⊆ merged := fun c hc => (hm c).2 ⟨r, List.mem_cons_of_mem _ hr', hc⟩
      exact ⟨List.prefix_append _ _, nodup_append_filter (hf r (List.mem_cons_of_mem _ hr')) hmn,
        fun c => (mem_extendWith hsub c).trans (hm c)⟩
  refine ⟨by rw [hres]; simp [Function.comp_def], hall, fun p hp q hq => ?_⟩
  obtain ⟨-, hpn, hpm⟩ := hall p hp
  obtain ⟨-, hqn, hqm⟩ := hall q hq
  exact (List.perm_ext_iff_of_nodup hpn hqn).2 fun c => (hpm c).trans (hqm c).symm

/-- レプリカ `0` と `1` がそれぞれ `[1, 2]` と `[2, 3]` を寄せたストレージ。 -/
def twoQueues : EntityStorage :=
  { blkCache := [], localOrderCache := [(0, [[1, 2]]), (1, [[2, 3]])], seenProposeLevel := [],
    seenExecuteLevel := [], proposedCmds := [] }

theorem fairPropose_union_twoQueues :
    (fairPropose twoQueues).1.map Prod.fst = [0, 1] ∧
      (∀ p ∈ (fairPropose twoQueues).1, twoQueues.getOrderedHashVector p.1 <+: p.2 ∧ p.2.Nodup ∧
        ∀ c, c ∈ p.2 ↔ ∃ r ∈ [0, 1], c ∈ twoQueues.getOrderedHashVector r) ∧
      ∀ p ∈ (fairPropose twoQueues).1, ∀ q ∈ (fairPropose twoQueues).1, p.2 ~ q.2 :=
  fairPropose_union (by decide) (by decide)

end Alkane.Core
