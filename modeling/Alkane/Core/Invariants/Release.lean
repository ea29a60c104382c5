import Alkane.Core.Lemmas.Prune
import Alkane.Core.Invariants.Height

/-!
# `prune` のループの停止と解放

`prune` のスタックのループは、一回りごとにスタックが一つ減るか、`parents` の参照が一つ減って
スタックが一つ増える。表のブロックの `parents` の長さの和の二倍とスタックの長さの和が一つずつ減るので、
燃料 `2 × (parents の長さの和) + 1` で止まる。止まったとき、`start` から `parents` をたどって届いた
ブロックはどれも `try_release_blk` に渡され、表に残っていれば `parents` が空になっている。
共有された祖先と叔父は、何度スタックに積まれても `parents` は一度しか外されない。
-/

namespace Alkane.Core

open HotStuffCore

/-! ## 解放の記録 -/

/-- `pruneLoop` と同じ一回りで、`try_release_blk` に渡したブロックを渡した順に記録する。 -/
def pruneLoopTrace (s : HotStuffCore) : Nat → List BlockHash → Option (HotStuffCore × List BlockHash)
  | _, [] => some (s, [])
  | 0, _ :: _ => none
  | fuel + 1, top :: rest =>
    match s.findBlk top with
    | none => none
    | some blk =>
      match blk.parents.getLast? with
      | none => (pruneLoopTrace (tryReleaseBlk s top rest) fuel rest).map fun r => (r.1, top :: r.2)
      | some p =>
        pruneLoopTrace (s.setBlk top { blk with qcRef := none, parents := blk.parents.dropLast }) fuel
          (p :: top :: rest)

theorem pruneLoop_eq_trace : ∀ (fuel : Nat) (s : HotStuffCore) (stack : List BlockHash),
    pruneLoop s fuel stack = (pruneLoopTrace s fuel stack).map Prod.fst
  | _, _, [] => by simp [pruneLoop, pruneLoopTrace]
  | 0, _, _ :: _ => rfl
  | fuel + 1, s, top :: rest => by
    simp only [pruneLoop, pruneLoopTrace]
    cases s.findBlk top with
    | none => rfl
    | some blk =>
      dsimp only
      cases blk.parents.getLast? with
      | none =>
        dsimp only
        rw [pruneLoop_eq_trace fuel, Option.map_map]
        rfl
      | some p => exact pruneLoop_eq_trace fuel _ _

/-! ## `parents` をたどって届くブロック -/

/-- スタックのブロックから `parents` をたどって届くブロック。 -/
inductive ReachFrom (s : HotStuffCore) (stack : List BlockHash) : BlockHash → Prop
  | mem {k : BlockHash} : k ∈ stack → ReachFrom s stack k
  | parent {j k : BlockHash} {b : Block} : ReachFrom s stack j → s.findBlk j = some b → k ∈ b.parents →
      ReachFrom s stack k

/-- 届くブロックはどれも表にある。 -/
def Closed (s : HotStuffCore) (stack : List BlockHash) : Prop :=
  ∀ k, ReachFrom s stack k → (s.findBlk k).isSome

/-- 表に無いか、`parents` が空。 -/
def Emptied (s : HotStuffCore) (k : BlockHash) : Prop :=
  ∀ b, s.findBlk k = some b → b.parents = []

namespace ReachFrom

variable {s s' : HotStuffCore} {stack stack' : List BlockHash} {k : BlockHash}

theorem mono (h : ReachFrom s stack k) (hs : stack ⊆ stack') : ReachFrom s stack' k := by
  induction h with
  | mem hk => exact .mem (hs hk)
  | parent _ hb hk ih => exact .parent ih hb hk

theorem of_sub (h : ReachFrom s' stack k) (hsub : ∀ j b, s'.findBlk j = some b → s.findBlk j = some b) :
    ReachFrom s stack k := by
  induction h with
  | mem hk => exact .mem hk
  | parent _ hb hk ih => exact .parent ih (hsub _ _ hb) hk

theorem of_cons_empty {top : BlockHash} {rest : List BlockHash} {blk : Block} (hb : s.findBlk top = some blk)
    (he : blk.parents = []) (h : ReachFrom s (top :: rest) k) : k = top ∨ ReachFrom s rest k := by
  induction h with
  | mem hk => exact (List.mem_cons.mp hk).imp id .mem
  | parent _ hb' hk ih =>
    rcases ih with rfl | ih
    · rw [hb] at hb'
      cases hb'
      simp [he] at hk
    · exact .inr (.parent ih hb' hk)

end ReachFrom

theorem Wf.closed {s : HotStuffCore} (hw : Wf s) {start : BlockHash} (hs : (s.findBlk start).isSome) :
    Closed s [start] := by
  intro k h
  induction h with
  | mem hk => rwa [List.mem_singleton.mp hk]
  | parent _ hb hk _ =>
    obtain ⟨pb, hpb, -⟩ := (hw.blocks _ _ hb).parentsDelivered _ hk
    simp [findBlk_eq, hpb]

/-! ## 一回り -/

section Step

variable {s : HotStuffCore} {top : BlockHash} {rest : List BlockHash} {blk : Block}

theorem reachFrom_push {p : BlockHash} (hb : s.findBlk top = some blk) (hp : blk.parents.getLast? = some p)
    (k : BlockHash) :
    ReachFrom s (top :: rest) k ↔
      ReachFrom (s.setBlk top { blk with qcRef := none, parents := blk.parents.dropLast }) (p :: top :: rest) k := by
  have hsplit : blk.parents = blk.parents.dropLast ++ [p] := (List.dropLast_append_getLast?  _ hp).symm
  have hb' : (s.setBlk top { blk with qcRef := none, parents := blk.parents.dropLast }).findBlk top =
      some { blk with qcRef := none, parents := blk.parents.dropLast } := by simp [hb]
  constructor
  · intro h
    induction h with
    | mem hk => exact .mem (List.mem_cons_of_mem _ hk)
    | @parent j k b _ hj hk ih =>
      by_cases e : j = top
      · subst e
        rw [hb] at hj
        cases hj
        rw [hsplit, List.mem_append, List.mem_singleton] at hk
        rcases hk with hk | rfl
        · exact .parent ih hb' hk
        · exact .mem (.head _)
      · exact .parent ih (by rw [findBlk_setBlk, if_neg (Ne.symm e)]; exact hj) hk
  · intro h
    induction h with
    | mem hk =>
      rcases List.mem_cons.mp hk with rfl | hk
      · exact .parent (.mem (.head _)) hb (by rw [hsplit]; simp)
      · exact .mem hk
    | @parent j k b _ hj hk ih =>
      by_cases e : j = top
      · subst e
        rw [hb'] at hj
        cases hj
        exact .parent ih hb (List.dropLast_subset _ hk)
      · rw [findBlk_setBlk, if_neg (Ne.symm e)] at hj
        exact .parent ih hj hk

theorem tryReleaseBlk_cases (s : HotStuffCore) (h : BlockHash) (stack : List BlockHash) :
    tryReleaseBlk s h stack = s ∨
      (h ∉ stack ∧ (∀ k b, s.findBlk k = some b → k ≠ h → h ∉ b.parents) ∧
        ∀ k, (tryReleaseBlk s h stack).findBlk k = if k = h then none else s.findBlk k) := by
  unfold tryReleaseBlk
  dsimp only
  split_ifs with href
  · exact .inl rfl
  simp only [not_or, List.any_eq_true, not_exists, not_and, Bool.not_eq_true, decide_eq_false_iff_not,
    ne_eq] at href
  obtain ⟨-, -, -, -, -, -, hst, hrest⟩ := href
  refine .inr ⟨hst, fun k b hb hk hp => ?_, fun k => lookupBlk_filter_ne h k _⟩
  have := hrest (k, b) (mem_of_lookupBlk hb) hk
  simp_all

theorem reachFrom_release (hb : s.findBlk top = some blk) (he : blk.parents = []) (hc : Closed s (top :: rest)) :
    (∀ k, ReachFrom s (top :: rest) k → k = top ∨ ReachFrom (tryReleaseBlk s top rest) rest k) ∧
      Closed (tryReleaseBlk s top rest) rest := by
  rcases tryReleaseBlk_cases s top rest with hr | ⟨hst, hpar, hk⟩
  · rw [hr]
    exact ⟨fun k h => h.of_cons_empty hb he, fun k h => hc k (h.mono (List.subset_cons_self _ _))⟩
  -- 放したなら、残りのスタックから届くブロックは `top` でなく、表の中身も同じ
  have hsub : ∀ j b, (tryReleaseBlk s top rest).findBlk j = some b → s.findBlk j = some b := fun j b h => by
    rw [hk] at h
    split_ifs at h
    exact h
  have hne : ∀ k, ReachFrom s rest k → k ≠ top := fun k h => by
    cases h with
    | mem hk' => exact fun e => hst (e ▸ hk')
    | parent hj hb' hk' =>
      rename_i j _
      by_cases e : j = top
      · subst e
        rw [hb] at hb'
        cases hb'
        simp [he] at hk'
      · exact fun e' => hpar _ _ hb' e (e' ▸ hk')
  have hfwd : ∀ k, ReachFrom s rest k → ReachFrom (tryReleaseBlk s top rest) rest k := fun k h => by
    induction h with
    | mem hk' => exact .mem hk'
    | @parent j _ b hj hb' hk' ih =>
      exact .parent ih (by rw [hk, if_neg (hne j hj)]; exact hb') hk'
  refine ⟨fun k h => (h.of_cons_empty hb he).imp_right (hfwd k), fun k h => ?_⟩
  have h' := h.of_sub hsub
  rw [hk, if_neg (hne k h')]
  exact hc k (h'.mono (List.subset_cons_self _ _))

end Step

/-! ## 燃料 -/

/-- 鍵の集合 `D` のブロックの `parents` の長さの和。 -/
def linkWeight (D : Finset BlockHash) (s : HotStuffCore) : Nat :=
  ∑ k ∈ D, ((s.findBlk k).map fun b => b.parents.length).getD 0

theorem sum_lookupBlk_le : ∀ (l : List (BlockHash × Block)) (D : Finset BlockHash),
    ∑ k ∈ D, ((lookupBlk k l).map fun b => b.parents.length).getD 0 ≤ (l.map fun p => p.2.parents.length).sum
  | [], D => by simp
  | (k₀, b₀) :: l, D => by
    have hrest : ∀ D' : Finset BlockHash, k₀ ∉ D' →
        ∑ k ∈ D', ((lookupBlk k ((k₀, b₀) :: l)).map fun b => b.parents.length).getD 0 =
          ∑ k ∈ D', ((lookupBlk k l).map fun b => b.parents.length).getD 0 :=
      fun D' h => Finset.sum_congr rfl fun k hk => by
        rw [lookupBlk_cons, if_neg fun (e : k₀ = k) => h (e ▸ hk)]
    rw [List.map_cons, List.sum_cons]
    by_cases hk : k₀ ∈ D
    · rw [← Finset.add_sum_erase D _ hk, hrest _ (Finset.not_mem_erase k₀ D), lookupBlk_cons, if_pos rfl]
      exact Nat.add_le_add (le_refl _) (sum_lookupBlk_le l _)
    · rw [hrest D hk]
      exact (sum_lookupBlk_le l D).trans (Nat.le_add_left _ _)

theorem isSome_findBlk_setBlk (s : HotStuffCore) (h k : BlockHash) (b : Block) :
    ((s.setBlk h b).findBlk k).isSome = (s.findBlk k).isSome := by
  rw [findBlk_setBlk]
  split_ifs with e
  · subst e
    cases s.findBlk h <;> rfl
  · rfl

theorem findBlk_tryReleaseBlk {s : HotStuffCore} {h k : BlockHash} {stack : List BlockHash} {b : Block}
    (hk : (tryReleaseBlk s h stack).findBlk k = some b) : s.findBlk k = some b := by
  rcases tryReleaseBlk_cases s h stack with hr | ⟨-, -, hf⟩
  · rwa [hr] at hk
  · rw [hf] at hk
    split_ifs at hk
    exact hk

section Step

variable {s : HotStuffCore} {top : BlockHash} {rest : List BlockHash} {blk : Block} {D : Finset BlockHash}

theorem linkWeight_push {p : BlockHash} (hD : top ∈ D) (hb : s.findBlk top = some blk)
    (hp : blk.parents.getLast? = some p) :
    linkWeight D (s.setBlk top { blk with qcRef := none, parents := blk.parents.dropLast }) + 1 =
      linkWeight D s := by
  unfold linkWeight
  rw [← Finset.add_sum_erase D _ hD, ← Finset.add_sum_erase D _ hD,
    Finset.sum_congr rfl fun k hk => by rw [findBlk_setBlk, if_neg (Finset.ne_of_mem_erase hk).symm],
    findBlk_setBlk, if_pos rfl, hb]
  have hne : blk.parents ≠ [] := fun e => by simp [e] at hp
  have hlen := List.length_pos.2 hne
  simp only [Option.map_some', Option.getD_some, List.length_dropLast]
  omega

theorem linkWeight_release : linkWeight D (tryReleaseBlk s top rest) ≤ linkWeight D s := by
  refine Finset.sum_le_sum fun k _ => ?_
  cases hk : (tryReleaseBlk s top rest).findBlk k with
  | none => exact Nat.zero_le _
  | some b => rw [findBlk_tryReleaseBlk hk]

end Step

/-! ## ループ全体 -/

theorem ReachFrom.not_nil {s : HotStuffCore} {k : BlockHash} (h : ReachFrom s [] k) : False := by
  induction h with
  | mem hk => exact List.not_mem_nil _ hk
  | parent _ _ _ ih => exact ih

theorem pruneLoopTrace_releases (D : Finset BlockHash) : ∀ (fuel : Nat) (s : HotStuffCore) (stack : List BlockHash),
    (∀ k, (s.findBlk k).isSome → k ∈ D) → Closed s stack → 2 * linkWeight D s + stack.length ≤ fuel →
    ∃ s' released, pruneLoopTrace s fuel stack = some (s', released) ∧
      (∀ k, ReachFrom s stack k → k ∈ released ∧ Emptied s' k) ∧ ∀ k, Emptied s k → Emptied s' k
  | fuel, s, [], _, _, _ =>
    ⟨s, [], by cases fuel <;> rfl, fun _ h => h.not_nil.elim, fun _ h => h⟩
  | 0, _, _ :: _, _, _, hf => absurd hf (by simp)
  | fuel + 1, s, top :: rest, hD, hc, hf => by
    obtain ⟨blk, hb⟩ := Option.isSome_iff_exists.1 (hc top (.mem (.head _)))
    simp only [List.length_cons] at hf
    cases hp : blk.parents.getLast? with
    | none =>
      -- 先頭の `parents` は空：`try_release_blk` に渡して降ろす
      have he : blk.parents = [] := List.getLast?_eq_none_iff.1 hp
      obtain ⟨hreach, hc'⟩ := reachFrom_release hb he hc
      have hkeep : ∀ k, Emptied s k → Emptied (tryReleaseBlk s top rest) k :=
        fun k hk b hb' => hk b (findBlk_tryReleaseBlk hb')
      have hemp : Emptied (tryReleaseBlk s top rest) top := fun b hb' => by
        rw [findBlk_tryReleaseBlk hb'] at hb
        cases hb
        exact he
      obtain ⟨s', rel, ht, hcov, hmono⟩ := pruneLoopTrace_releases D fuel _ rest
        (fun k hk => hD k (by
          obtain ⟨b, hb'⟩ := Option.isSome_iff_exists.1 hk
          rw [findBlk_tryReleaseBlk hb']; rfl))
        hc' (by have := @linkWeight_release s top rest D; omega)
      refine ⟨s', top :: rel, by simp only [pruneLoopTrace, hb, hp, ht]; rfl, fun k hk => ?_,
        fun k hk => hmono k (hkeep k hk)⟩
      rcases hreach k hk with rfl | hk
      · exact ⟨.head _, hmono _ hemp⟩
      · exact (hcov k hk).imp (List.mem_cons_of_mem _) id
    | some p =>
      -- 先頭の `parents` の末尾 `p` を外して積む
      have hw := linkWeight_push (hD top (by rw [hb]; rfl)) hb hp
      obtain ⟨s', rel, ht, hcov, hmono⟩ := pruneLoopTrace_releases D fuel
        (s.setBlk top { blk with qcRef := none, parents := blk.parents.dropLast }) (p :: top :: rest)
        (fun k hk => hD k (by rwa [isSome_findBlk_setBlk] at hk))
        (fun k hk => by rw [isSome_findBlk_setBlk]; exact hc k ((reachFrom_push hb hp k).2 hk))
        (by simp only [List.length_cons]; omega)
      refine ⟨s', rel, by simp only [pruneLoopTrace, hb, hp]; exact ht,
        fun k hk => hcov k ((reachFrom_push hb hp k).1 hk), fun k hk => hmono k fun b hb' => ?_⟩
      by_cases e : k = top
      · subst e
        simp [hk blk hb] at hp
      · rw [findBlk_setBlk, if_neg (Ne.symm e)] at hb'
        exact hk b hb'

theorem ReachFrom.of_parents {s s' : HotStuffCore} {stack : List BlockHash} {k : BlockHash}
    (h : ReachFrom s stack k) (hp : ∀ j, (s.findBlk j).map Block.parents = (s'.findBlk j).map Block.parents) :
    ReachFrom s' stack k := by
  induction h with
  | mem hk => exact .mem hk
  | @parent j _ b _ hb hk ih =>
    obtain ⟨b', hb', he⟩ := Option.map_eq_some'.1 ((hp j).symm.trans (by rw [hb]; rfl))
    exact .parent ih hb' (he ▸ hk)

theorem parents_setBlk {s : HotStuffCore} {h : BlockHash} {b b' : Block} (hb : s.findBlk h = some b)
    (hp : b'.parents = b.parents) (j : BlockHash) :
    ((s.setBlk h b').findBlk j).map Block.parents = (s.findBlk j).map Block.parents := by
  rw [findBlk_setBlk]
  split_ifs with e
  · subst e
    simp [hb, hp]
  · rfl

/-- `prune(staleness)` が `b_exec` から `staleness` 段下りて選んだ `start` から `parents` をたどって
届くブロックがどれも表にあれば、スタックのループは燃料を使い切らずに止まり、`prune` は終わる。
そのとき、`start` から届いたブロックはどれも `try_release_blk` に渡されていて、表に残っていれば
`parents` が空。 -/
theorem prune_releases_reachable {s : HotStuffCore} {staleness : Nat} {start : BlockHash}
    (hskip : pruneSkip s.storage staleness s.bExec = some (some start)) (hc : Closed s [start]) :
    ∃ s' released, prune s staleness = .ok () s' [] ∧
      (∃ sb, s.findBlk start = some sb ∧
        pruneLoopTrace (s.setBlk start { sb with qcRef := none })
          (2 * parentLinks (s.setBlk start { sb with qcRef := none }).storage + 1) [start] = some (s', released)) ∧
      ∀ k, ReachFrom s [start] k → k ∈ released ∧ ∀ b, s'.findBlk k = some b → b.parents = [] := by
  obtain ⟨sb, hsb⟩ := Option.isSome_iff_exists.1 (hc start (.mem (.head _)))
  set s₀ := s.setBlk start { sb with qcRef := none }
  -- `qc_ref` を消しても `parents` は同じ
  have hpar := @parents_setBlk s start sb { sb with qcRef := none } hsb rfl
  set D := (s₀.storage.blkCache.map Prod.fst).toFinset
  have hD : ∀ k, (s₀.findBlk k).isSome → k ∈ D := fun k hk => by
    obtain ⟨b, hb⟩ := Option.isSome_iff_exists.1 hk
    exact List.mem_toFinset.2 (List.mem_map.2 ⟨_, mem_of_lookupBlk hb, rfl⟩)
  have hf : 2 * linkWeight D s₀ + [start].length ≤ 2 * parentLinks s₀.storage + 1 := by
    have := sum_lookupBlk_le s₀.storage.blkCache D
    simp only [linkWeight, parentLinks, List.length_singleton, findBlk_eq, EntityStorage.findBlk]
    omega
  obtain ⟨s', rel, ht, hcov, -⟩ := pruneLoopTrace_releases D _ s₀ [start] hD
    (fun k hk => by rw [isSome_findBlk_setBlk]; exact hc k (hk.of_parents hpar)) hf
  refine ⟨s', rel, ?_, ⟨sb, hsb, ht⟩, fun k hk => hcov k (hk.of_parents fun j => (hpar j).symm)⟩
  simp only [prune, hskip, hsb, pruneLoop_eq_trace, ht]
  rfl

/-- 叔父をたどる実行の後の状態。`b_exec` はブロック 1 で、その `parents` は `[b0, 13]`。 -/
def uncleState : HotStuffCore :=
  (runOps (HotStuffCore.init 0 0 [0, 1, 2, 3] 1 0.5) uncleRun).getD (HotStuffCore.init 0 0 [0, 1, 2, 3] 1 0.5)

theorem prune_releases_reachable_uncle :
    ∃ s' released, prune uncleState 0 = .ok () s' [] ∧
      (∃ sb, uncleState.findBlk 1 = some sb ∧
        pruneLoopTrace (uncleState.setBlk 1 { sb with qcRef := none })
          (2 * parentLinks (uncleState.setBlk 1 { sb with qcRef := none }).storage + 1) [1] = some (s', released)) ∧
      ∀ k, ReachFrom uncleState [1] k → k ∈ released ∧ ∀ b, s'.findBlk k = some b → b.parents = [] :=
  @prune_releases_reachable uncleState 0 1 (by decide) (by
    obtain ⟨_, hr⟩ := @reachable_of_runOps_getD 0 0 [0, 1, 2, 3] 1 0.5 uncleRun (by decide)
    exact Wf.closed hr.wf (by decide))

end Alkane.Core
