import Alkane.Core.Consensus

/-!
# 局所順序の待ち行列

`on_receive_local_order` は届いた列を送り手の待ち行列の末尾に置き、過半数のレプリカが列を寄せて
いれば各レプリカの先頭の列から提案済みのコマンドを除く。まだ提案されていないコマンドは一つも
落とさず、順も変えない：各レプリカの待ち行列の提案されていないコマンドは、届いた列のものを末尾に
足しただけ（`onReceiveLocalOrder_keeps_unproposed`）。ストレージのほかの部分は変えない。
`fair_propose` は、表の鍵に重複がなければ、どのレプリカの待ち行列からもちょうど先頭の列を一つ
捨てる（`fairPropose_pops_fronts`）。
-/

namespace Alkane.Core

namespace EntityStorage

/-- レプリカ `r` の待ち行列にある、まだ提案されていないコマンド（列の順に）。 -/
def pending (st : EntityStorage) (r : ReplicaID) : List CmdHash :=
  (st.queueOf r).flatten.filter fun c => !st.isCmdProposed c

theorem queueOf_setQueue (st : EntityStorage) (r r' : ReplicaID) (q : List (List CmdHash)) :
    (st.setQueue r q).queueOf r' = if r' = r then q else st.queueOf r' := by
  -- 書き換えは鍵を変えない
  have hkey : ((fun p : ReplicaID × List (List CmdHash) => decide (p.1 = r')) ∘
      fun p => if p.1 = r then (r, q) else p) = fun p => decide (p.1 = r') := by
    funext p
    by_cases h : p.1 = r <;> simp [h]
  unfold queueOf setQueue
  dsimp only
  by_cases e : r' = r
  · subst e
    rw [if_pos rfl]
    split_ifs with hq ha
    · rw [List.find?_filter, List.find?_eq_none.mpr (by simp), hq]
      rfl
    · rw [List.find?_map, hkey]
      cases hf : st.localOrderCache.find? (·.1 = r') with
      | none => exact absurd (List.find?_isSome.mpr (List.any_eq_true.mp ha)) (by simp [hf])
      | some p =>
        have hp := List.find?_some hf
        simp only [decide_eq_true_eq] at hp
        simp [hp]
    · rw [List.find?_append, List.find?_eq_none.mpr fun x hx e => ha (List.any_eq_true.mpr ⟨x, hx, e⟩)]
      simp
  · rw [if_neg e]
    split_ifs with hq ha
    · rw [List.find?_filter]
      congr 3
      funext p
      by_cases hp : p.1 = r' <;> simp [hp, e]
    · rw [List.find?_map, hkey, Option.map_map]
      cases hf : st.localOrderCache.find? (·.1 = r') with
      | none => rfl
      | some p =>
        have hp := List.find?_some hf
        simp only [decide_eq_true_eq] at hp
        simp [hp, e]
    · rw [List.find?_append]
      simp [Ne.symm e]

theorem setQueue_restore (st : EntityStorage) (r : ReplicaID) (q : List (List CmdHash)) :
    { st.setQueue r q with localOrderCache := st.localOrderCache } = st := rfl

theorem pending_addLocalOrder (st : EntityStorage) (r r' : ReplicaID) (cmds : List CmdHash) :
    (st.addLocalOrder r cmds).pending r' =
      st.pending r' ++ if r' = r then cmds.filter (fun c => !st.isCmdProposed c) else [] := by
  unfold pending addLocalOrder
  rw [queueOf_setQueue]
  split_ifs with e
  · subst e
    simp only [List.flatten_append, List.flatten_singleton, List.filter_append]
    rfl
  · exact (List.append_nil _).symm

end EntityStorage

open EntityStorage

theorem frontFilter_restore (st : EntityStorage) (r : ReplicaID) :
    { frontFilter st r with localOrderCache := st.localOrderCache } = st := by
  unfold frontFilter
  dsimp only
  split_ifs <;> rfl

theorem pending_frontFilter (st : EntityStorage) (r r' : ReplicaID) :
    (frontFilter st r).pending r' = st.pending r' := by
  have hc := congrArg EntityStorage.proposedCmds (frontFilter_restore st r)
  have hp : (frontFilter st r).isCmdProposed = st.isCmdProposed := by
    unfold isCmdProposed
    rw [show (frontFilter st r).proposedCmds = st.proposedCmds from hc]
  unfold pending
  rw [hp]
  unfold frontFilter getOrderedHashVector
  dsimp only
  by_cases e : r' = r
  · subst e
    rcases hq : st.queueOf r' with _ | ⟨f, t⟩
    · simp [hq]
    simp only [List.headD_cons]
    split_ifs with hlt hne
    · simp only [addOrderedHashToFront, clearFrontOrderedHash, queueOf_setQueue, if_pos, hq, List.tail_cons,
        List.flatten_cons, List.filter_append, List.filter_filter, Bool.and_self]
    · simp only [clearFrontOrderedHash, queueOf_setQueue, if_pos, hq, List.tail_cons, List.flatten_cons,
        List.filter_append, not_not.mp hne, List.nil_append]
    · rw [hq]
  · split_ifs <;> simp only [addOrderedHashToFront, clearFrontOrderedHash, queueOf_setQueue, if_neg e]

theorem foldl_restore {f : EntityStorage → ReplicaID → EntityStorage}
    (hf : ∀ st r, { f st r with localOrderCache := st.localOrderCache } = st) :
    ∀ (rs : List ReplicaID) (st : EntityStorage), { rs.foldl f st with localOrderCache := st.localOrderCache } = st
  | [], _ => rfl
  | r :: rs, st =>
    calc { (r :: rs).foldl f st with localOrderCache := st.localOrderCache }
        = { { rs.foldl f (f st r) with localOrderCache := (f st r).localOrderCache } with
            localOrderCache := st.localOrderCache } := rfl
      _ = st := by rw [foldl_restore hf rs, hf]

theorem pending_foldl_frontFilter : ∀ (rs : List ReplicaID) (st : EntityStorage) (r' : ReplicaID),
    (rs.foldl frontFilter st).pending r' = st.pending r'
  | [], _, _ => rfl
  | r :: rs, st, r' => (pending_foldl_frontFilter rs _ r').trans (pending_frontFilter st r r')

/-- `on_receive_local_order` はいつも正常に返り、出力は無く、ストレージの局所順序の表だけを
変える。どのレプリカの待ち行列でも、まだ提案されていないコマンドは一つも落とさず、順も変えず、
送り手の待ち行列には届いた列の提案されていないコマンドを末尾に足す：除くのは提案済みのコマンド
だけ。返す値は、処理の後に列を寄せているレプリカが `nmajority` 以上いるか。 -/
theorem onReceiveLocalOrder_keeps_unproposed (s : HotStuffCore) (lo : LocalOrder) :
    ∃ st, onReceiveLocalOrder s lo =
        .ok (decide (s.config.nmajority ≤ st.getLocalOrderCacheSize)) { s with storage := st } [] ∧
      { st with localOrderCache := s.storage.localOrderCache } = s.storage ∧
      ∀ r, st.pending r = s.storage.pending r ++
        if r = lo.initiator then lo.orderedHashes.filter (fun c => !s.storage.isCmdProposed c) else [] := by
  unfold onReceiveLocalOrder
  dsimp only
  split_ifs with h
  · refine ⟨_, rfl, ?_, fun r => by rw [pending_foldl_frontFilter, pending_addLocalOrder]⟩
    exact (congrArg (fun st' => { st' with localOrderCache := s.storage.localOrderCache })
      (foldl_restore frontFilter_restore _ _)).trans (setQueue_restore _ _ _)
  · exact ⟨s.storage.addLocalOrder lo.initiator lo.orderedHashes, by simp only [h]; rfl, setQueue_restore _ _ _, fun r => pending_addLocalOrder _ _ _ _⟩

/-! ## `fair_propose` が捨てる列 -/

namespace EntityStorage

theorem setQueue_keys_nodup {st : EntityStorage} (hk : (st.localOrderCache.map (·.1)).Nodup)
    (r : ReplicaID) (q : List (List CmdHash)) : ((st.setQueue r q).localOrderCache.map (·.1)).Nodup := by
  unfold setQueue
  dsimp only
  split_ifs with hq ha
  · exact ((List.filter_sublist _).map _).nodup hk
  · rwa [List.map_map, show ((·.1) ∘ fun p : ReplicaID × List (List CmdHash) =>
      if p.1 = r then (r, q) else p) = (·.1) from funext fun p => by by_cases h : p.1 = r <;> simp [h]]
  · rw [List.map_append, List.nodup_append]
    refine ⟨hk, List.nodup_singleton _, fun x hx hx' => ha ?_⟩
    obtain ⟨p, hp, rfl⟩ := List.mem_map.mp hx
    exact List.any_eq_true.mpr ⟨p, hp, by simpa using hx'⟩

theorem getOrderedHashRepliaVector_nodup {st : EntityStorage} (hk : (st.localOrderCache.map (·.1)).Nodup) :
    st.getOrderedHashRepliaVector.Nodup :=
  ((List.filter_sublist _).map _).nodup hk

theorem queueOf_eq_nil_of_not_mem {st : EntityStorage} {r : ReplicaID}
    (h : r ∉ st.getOrderedHashRepliaVector) : st.queueOf r = [] := by
  unfold queueOf
  cases hf : st.localOrderCache.find? (·.1 = r) with
  | none => rfl
  | some p =>
    have hr : p.1 = r := by simpa using List.find?_some hf
    by_contra hq
    exact h (List.mem_map.mpr ⟨p, List.mem_filter.mpr ⟨List.mem_of_find?_eq_some hf, by simpa using hq⟩, hr⟩)

theorem queueOf_foldl_clearFront : ∀ {rs : List ReplicaID}, rs.Nodup → ∀ (st : EntityStorage) (r : ReplicaID),
    (rs.foldl clearFrontOrderedHash st).queueOf r = if r ∈ rs then (st.queueOf r).tail else st.queueOf r
  | [], _, _, _ => rfl
  | r₀ :: rs, hn, st, r => by
    rw [List.foldl_cons, queueOf_foldl_clearFront (List.nodup_cons.mp hn).2, clearFrontOrderedHash,
      queueOf_setQueue]
    by_cases e : r = r₀
    · subst e
      simp [(List.nodup_cons.mp hn).1]
    · simp [e]

end EntityStorage

/-- 表の鍵に重複がなければ、`fair_propose` は局所順序を寄せたどのレプリカの待ち行列からもちょうど
先頭の列を捨て（寄せていないレプリカの待ち行列は空のまま）、局所順序の表のほかは変えず、鍵の重複も
生まない。捨てた先頭の列は、返す表の各レプリカの列の始まり。 -/
theorem fairPropose_pops_fronts {st : EntityStorage} (hk : (st.localOrderCache.map (·.1)).Nodup) :
    { (fairPropose st).2 with localOrderCache := st.localOrderCache } = st ∧
      ((fairPropose st).2.localOrderCache.map (·.1)).Nodup ∧
      ∀ r, (fairPropose st).2.queueOf r = (st.queueOf r).tail := by
  have hkeys : ∀ (rs : List ReplicaID) (st' : EntityStorage), (st'.localOrderCache.map (·.1)).Nodup →
      ((rs.foldl clearFrontOrderedHash st').localOrderCache.map (·.1)).Nodup := fun rs => by
    induction rs with
    | nil => exact fun _ h => h
    | cons r rs ih => exact fun st' h => ih _ (setQueue_keys_nodup h r _)
  unfold fairPropose
  split
  · rename_i hv
    refine ⟨rfl, hk, fun r => ?_⟩
    rw [queueOf_eq_nil_of_not_mem (by simp [hv])]
    rfl
  · rename_i r₀ rest hv
    refine ⟨foldl_restore (fun _ _ => setQueue_restore _ _ _) _ _, hkeys _ _ hk, fun r => ?_⟩
    rw [queueOf_foldl_clearFront (hv ▸ getOrderedHashRepliaVector_nodup hk)]
    split_ifs with hm
    · rfl
    · rw [queueOf_eq_nil_of_not_mem (hv ▸ hm)]
      rfl

/-- レプリカ `0` が `[1, 2]` と `[4]` を、レプリカ `1` が `[2, 3]` を寄せたストレージ。 -/
def queuedOrders : EntityStorage :=
  { blkCache := [], localOrderCache := [(0, [[1, 2], [4]]), (1, [[2, 3]])], seenProposeLevel := [],
    seenExecuteLevel := [], proposedCmds := [] }

theorem fairPropose_pops_fronts_queued :
    (queuedOrders.localOrderCache.map (·.1)).Nodup ∧
      { (fairPropose queuedOrders).2 with localOrderCache := queuedOrders.localOrderCache } = queuedOrders ∧
      ((fairPropose queuedOrders).2.localOrderCache.map (·.1)).Nodup ∧
      ∀ r, (fairPropose queuedOrders).2.queueOf r = (queuedOrders.queueOf r).tail :=
  ⟨by decide, fairPropose_pops_fronts (by decide)⟩

end Alkane.Core
