import Alkane.Core.Lemmas.Commit
import Alkane.Core.Invariants.Height

/-!
# `tails`

`prune` が無く、`on_propose` の親がどれも配送済みの実行では、`tails` はちょうど、どの配送済みの
ブロックの `parents` にも無い配送済みのブロック（`TailsExact`）。`tails` を書き換えるのは配送の
成功と `on_propose` の前半だけで、どちらも配送済みのブロックの `parents` の表（`delivView`）と
同じだけ動かす。配送の失敗（例外）は配送されていないブロックしか書き換えない。
-/

namespace Alkane.Core

open EntityStorage HotStuffCore

/-! ## 配送済みのブロックの表 -/

/-- 配送済みのブロックの `parents` と `parent_hashes`（配送されていなければ `none`）。 -/
def delivView (s : HotStuffCore) (k : BlockHash) : Option (List BlockHash × List BlockHash) :=
  (s.findBlk k).bind fun b => if b.delivered then some (b.parents, b.parentHashes) else none

section View

variable {s s' : HotStuffCore}

theorem delivView_eq_some {k : BlockHash} {v : List BlockHash × List BlockHash} :
    delivView s k = some v ↔ ∃ b, s.findBlk k = some b ∧ b.delivered = true ∧ v = (b.parents, b.parentHashes) := by
  unfold delivView
  cases s.findBlk k with
  | none => simp
  | some b =>
    by_cases hd : b.delivered = true
    · simp only [hd, if_true, Option.some_bind, Option.some.injEq, exists_eq_left', true_and]
      exact eq_comm
    · simp [hd]

theorem delivView_isSome {k : BlockHash} :
    (delivView s k).isSome ↔ ∃ b, s.findBlk k = some b ∧ b.delivered = true := by
  rw [Option.isSome_iff_exists]
  simp only [delivView_eq_some]
  exact ⟨fun ⟨_, b, hb, hd, _⟩ => ⟨b, hb, hd⟩, fun ⟨b, hb, hd⟩ => ⟨_, b, hb, hd, rfl⟩⟩

theorem isDelivered_eq_of_delivView (hv : ∀ k, delivView s' k = delivView s k) (p : BlockHash) :
    s'.isDelivered p = s.isDelivered p := by
  rw [Bool.eq_iff_iff, isDelivered_iff, isDelivered_iff, ← delivView_isSome, ← delivView_isSome, hv]

theorem delivView_of_findBlk_eq (hk : ∀ k, s'.findBlk k = s.findBlk k) (k : BlockHash) :
    delivView s' k = delivView s k := by
  unfold delivView; rw [hk]

theorem delivView_of_decision {p : BlockHash → Prop} [DecidablePred p]
    (hk : ∀ k, s'.findBlk k = (s.findBlk k).map fun b => if p k then { b with decision := true } else b)
    (k : BlockHash) : delivView s' k = delivView s k := by
  unfold delivView
  rw [hk]
  cases s.findBlk k with
  | none => rfl
  | some b => dsimp only [Option.map_some', Option.some_bind]; split_ifs <;> rfl

theorem delivView_setBlk {h : BlockHash} {b b' : Block} (hb : s.findBlk h = some b)
    (hd : b'.delivered = b.delivered)
    (hp : b.delivered = true → b'.parents = b.parents ∧ b'.parentHashes = b.parentHashes) (k : BlockHash) :
    delivView (s.setBlk h b') k = delivView s k := by
  unfold delivView
  rw [HotStuffCore.findBlk_setBlk]
  split_ifs with e
  · subst e
    rw [hb, Option.map_some', Option.some_bind, Option.some_bind, hd]
    split_ifs with hdb
    · rw [(hp hdb).1, (hp hdb).2]
    · rfl
  · rfl

theorem delivView_addBlk {h : BlockHash} {b : Block} (hd : b.delivered = false) (k : BlockHash) :
    delivView { s with storage := s.storage.addBlk h b } k = delivView s k := by
  unfold delivView
  rw [findBlk_mk, findBlk_addBlk]
  split_ifs with e
  · obtain ⟨hn, rfl⟩ := e
    rw [storage_findBlk] at hn
    simp [hn, hd]
  · rfl

end View

/-! ## 不変条件 -/

/-- `tails` についての不変条件。 -/
structure TailsExact (s : HotStuffCore) : Prop where
  /-- 配送済みのブロックの `parents` は `parent_hashes` そのもの。 -/
  parents : ∀ k v, delivView s k = some v → v.1 = v.2
  /-- 配送済みのブロックの `parents` は配送済み。 -/
  closed : ∀ k v, delivView s k = some v → ∀ p ∈ v.1, (delivView s p).isSome
  /-- `tails` は、どの配送済みのブロックの `parents` にも無い配送済みのブロック。 -/
  tails : ∀ x, x ∈ s.tails ↔ (delivView s x).isSome ∧ ∀ k v, delivView s k = some v → x ∉ v.1

section Preserve

variable {s s' : HotStuffCore}

theorem TailsExact.congr (h : TailsExact s) (ht : ∀ x, x ∈ s'.tails ↔ x ∈ s.tails)
    (hv : ∀ k, delivView s' k = delivView s k) : TailsExact s' where
  parents k v h' := h.parents k v (by rwa [← hv])
  closed k v h' p hp := by rw [hv]; exact h.closed k v (by rwa [← hv]) p hp
  tails x := by rw [ht, h.tails x]; simp only [hv]

theorem TailsExact.table (h : TailsExact s) (hst : s'.storage = s.storage) (ht : s'.tails = s.tails) :
    TailsExact s' :=
  h.congr (fun _ => by rw [ht]) (delivView_of_findBlk_eq fun k => by rw [findBlk_eq, hst]; rfl)

theorem TailsExact.deliver_ok (hT : TailsExact s) {h : BlockHash} {blk : Block}
    (hb : s.findBlk h = some blk) (hnd : blk.delivered = false)
    (hps : ∀ p ∈ blk.parentHashes, s.isDelivered p = true) (t : List BlockHash)
    (ht : ∀ x, x ∈ t ↔ x = h ∨ x ∈ s.tails ∧ x ∉ blk.parentHashes) (b' : Block)
    (hb' : b'.delivered = true ∧ b'.parents = blk.parentHashes ∧ b'.parentHashes = blk.parentHashes) :
    TailsExact ({ s with tails := t }.setBlk h b') := by
  have hv : ∀ k, delivView ({ s with tails := t }.setBlk h b') k =
      if h = k then some (blk.parentHashes, blk.parentHashes) else delivView s k := by
    intro k
    unfold delivView
    rw [HotStuffCore.findBlk_setBlk]
    split_ifs with e
    · subst e
      rw [findBlk_mk, storage_findBlk, hb, Option.map_some', Option.some_bind, if_pos hb'.1, hb'.2.1, hb'.2.2]
    · rfl
  have hh : delivView s h = none := by simp [delivView, hb, hnd]
  have hpsd : ∀ p ∈ blk.parentHashes, (delivView s p).isSome := fun p hp =>
    delivView_isSome.mpr ((isDelivered_iff s p).mp (hps p hp))
  -- `h` はまだ誰の親でもない
  have hnp : ∀ k v, delivView s k = some v → h ∉ v.1 := fun k v hk hm => by
    have := hT.closed k v hk h hm
    rw [hh] at this
    cases this
  have hnps : h ∉ blk.parentHashes := fun hm => by
    have := hpsd h hm
    rw [hh] at this
    cases this
  have hsome : ∀ x, (delivView ({ s with tails := t }.setBlk h b') x).isSome ↔
      x = h ∨ (delivView s x).isSome := fun x => by
    rw [hv]
    split_ifs with e
    · simp [e]
    · simp [Ne.symm e]
  have hchild : ∀ x, (∀ k v, delivView ({ s with tails := t }.setBlk h b') k = some v → x ∉ v.1) ↔
      x ∉ blk.parentHashes ∧ ∀ k v, delivView s k = some v → x ∉ v.1 := fun x => by
    constructor
    · intro hx
      refine ⟨hx h _ (by rw [hv, if_pos rfl]), fun k v hk => hx k v ?_⟩
      rw [hv, if_neg (fun e => by rw [← e, hh] at hk; cases hk), hk]
    · rintro ⟨hx₁, hx₂⟩ k v hk
      rw [hv] at hk
      split_ifs at hk
      · cases hk; exact hx₁
      · exact hx₂ k v hk
  refine ⟨fun k v hk => ?_, fun k v hk p hp => ?_, fun x => ?_⟩
  · rw [hv] at hk
    split_ifs at hk
    · cases hk; rfl
    · exact hT.parents k v hk
  · rw [hsome]
    rw [hv] at hk
    split_ifs at hk
    · cases hk; exact .inr (hpsd p hp)
    · exact .inr (hT.closed k v hk p hp)
  · change x ∈ t ↔ _
    rw [ht, hsome, hchild, hT.tails x]
    by_cases e : x = h
    · subst e
      exact ⟨fun _ => ⟨.inl rfl, hnps, hnp⟩, fun _ => .inl rfl⟩
    · simp only [e, false_or]
      tauto

theorem deliveredPrefix_eq_self {s : HotStuffCore} :
    ∀ {l : List BlockHash}, (∀ p ∈ l, s.isDelivered p = true) → deliveredPrefix s l = l
  | [], _ => rfl
  | p :: l, h => by
    rw [deliveredPrefix, if_pos (h p (List.mem_cons_self _ _)),
      deliveredPrefix_eq_self fun q hq => h q (List.mem_cons_of_mem _ hq)]

theorem TailsExact.deliver (hT : TailsExact s) {h : BlockHash} (hs : (onDeliverBlk s h).state? = some s') :
    TailsExact s' := by
  obtain ⟨blk, hb, ⟨-, rfl⟩ | ⟨hnd, -, rfl⟩ | ⟨hnd, -, -, -, -, -, -, rfl⟩ | ⟨hnd, hps, -, -, -, -, -, -, rfl⟩⟩ :=
    onDeliverBlk_state hs
  · exact hT
  · exact hT.congr (fun _ => Iff.rfl) (delivView_setBlk hb rfl (by simp [hnd]))
  · exact hT.congr (fun _ => Iff.rfl) (delivView_setBlk hb rfl (by simp [hnd]))
  · exact hT.deliver_ok hb hnd (fun p hp => mem_deliveredPrefix (hps ▸ hp)) _
      (fun x => by simp [List.mem_insert_iff, List.mem_filter]) _ ⟨rfl, rfl, rfl⟩

theorem TailsExact.deliver_filtered (hT : TailsExact s) {h : BlockHash} {X : Block}
    {parents : List BlockHash} (hX : s.findBlk h = some X) (hXp : X.parentHashes = parents)
    (hpd : ∀ p ∈ parents, s.isDelivered p = true)
    (hqc : ∃ q, X.qc = some q ∧ (s.findBlk q.objHash).isSome)
    (hs : (onDeliverBlk { s with tails := s.tails.filter (· ∉ parents) } h).state? = some s') :
    TailsExact s' := by
  obtain ⟨blk, hb, hcases⟩ := onDeliverBlk_state hs
  rw [findBlk_mk, storage_findBlk, hX] at hb
  cases hb
  have hall : deliveredPrefix { s with tails := s.tails.filter (· ∉ parents) } X.parentHashes = X.parentHashes :=
    deliveredPrefix_eq_self (hXp ▸ hpd)
  rcases hcases with ⟨hd, rfl⟩ | ⟨-, hlt, -⟩ | ⟨-, -, ⟨q, hq, hn⟩, -⟩ | ⟨hnd, -, -, -, -, -, -, -, rfl⟩
  · refine hT.congr (fun x => ?_) fun _ => rfl
    rw [List.mem_filter]
    refine ⟨fun hx => hx.1, fun hx => ⟨hx, ?_⟩⟩
    have hv : delivView s h = some (X.parents, X.parentHashes) := delivView_eq_some.mpr ⟨X, hX, hd, rfl⟩
    have hpar := hT.parents h _ hv
    simp only at hpar
    simpa [← hXp, ← hpar] using ((hT.tails x).mp hx).2 h _ hv
  · rw [hall] at hlt
    exact absurd hlt (lt_irrefl _)
  · obtain ⟨q', hq', hf⟩ := hqc
    rw [hq] at hq'
    cases hq'
    rw [findBlk_mk, storage_findBlk] at hn
    rw [hn] at hf
    cases hf
  · exact hT.deliver_ok hX hnd (hXp ▸ hpd) _ (fun x => by simp [List.mem_insert_iff, List.mem_filter, hXp])
      _ ⟨rfl, rfl, rfl⟩

end Preserve

/-! ## 末端の書き換え -/

/-- `prune` が無く、`on_propose` の親がどれも配送済みの実行。 -/
def proposeDelivered (s : HotStuffCore) : Op → Prop
  | .prune _ => False
  | .propose _ parents _ => ∀ p ∈ parents, s.isDelivered p = true
  | _ => True

instance (s : HotStuffCore) (op : Op) : Decidable (proposeDelivered s op) := by
  cases op with
  | propose _ parents _ => exact inferInstanceAs (Decidable (∀ p ∈ parents, s.isDelivered p = true))
  | _ => first | exact isTrue trivial | exact isFalse id

section Leaves

variable {s s' : HotStuffCore}

theorem TailsExact.updateHqc (hT : TailsExact s) {h : BlockHash} {qc : QuorumCert}
    (hs : (updateHqc s h qc).state? = some s') : TailsExact s' := by
  unfold Alkane.Core.updateHqc at hs
  split at hs
  · split_ifs at hs <;> cases hs
    · exact hT.table rfl rfl
    · exact hT
  · cases hs

theorem TailsExact.lockStep (hT : TailsExact s) {h1 : BlockHash} {blk1 : Block}
    (hs : (lockStep s h1 blk1).state? = some s') : TailsExact s' := by
  unfold Alkane.Core.lockStep at hs
  split at hs
  · cases hs
    split_ifs
    · exact hT.table rfl rfl
    · exact hT
  · cases hs

theorem TailsExact.async (hT : TailsExact s) {h : BlockHash} (hs : (asyncQcFinish s h).state? = some s') :
    TailsExact s' := by
  unfold Alkane.Core.asyncQcFinish at hs
  split at hs
  · cases hs
  · split_ifs at hs <;> cases hs
    · exact hT
    · exact hT.table rfl rfl

theorem TailsExact.create (hw : Wf s) (hT : TailsExact s) {orders : List (ReplicaID × List CmdHash)}
    {parents : List BlockHash} {p0 h : BlockHash} {s₁ : HotStuffCore}
    (ha : ∀ p ∈ parents, s.isDelivered p = true) (hca : (Op.propose orders parents h).ContentAddressed s)
    (hc : createBlock s orders parents p0 h = some s₁) (hs : (onDeliverBlk s₁ h).state? = some s') :
    TailsExact s' := by
  obtain ⟨q, hq, hqf⟩ : ∃ b, s.findBlk s.hqc.1 = some b ∧ s.hqc.2.objHash = s.hqc.1 :=
    ⟨_, (Option.some_get hw.hqcFound).symm, hw.hqcObj⟩
  obtain ⟨pb, -, ⟨b, hb, rfl⟩ | ⟨hn, rfl⟩⟩ := createBlock_state hc
  · -- 同じハッシュのブロックがあれば、`self_qc` だけを書き換える
    obtain ⟨hbp, -, hbq⟩ := hca b hb
    set X := { b with selfQc := some (createQuorumCert h) }
    have hv : ∀ k, delivView (s.setBlk h X) k = delivView s k := delivView_setBlk hb rfl fun _ => ⟨rfl, rfl⟩
    have hT₀ : TailsExact (s.setBlk h X) := hT.congr (fun _ => Iff.rfl) hv
    refine @TailsExact.deliver_filtered (s.setBlk h X) s' hT₀ h X parents (by simp [hb]) hbp
      (fun p hp => by rw [isDelivered_eq_of_delivView hv]; exact ha p hp) ⟨_, hbq, ?_⟩ hs
    rw [hqf, HotStuffCore.findBlk_setBlk]
    split_ifs <;> simp [hb, hq]
  · -- 新しいブロックは配送されていない
    set P := proposedBlock s orders parents pb.height
    set X := { P with selfQc := some (createQuorumCert h) }
    set s₀ : HotStuffCore := { s with storage := s.storage.addBlk h P }
    have hP : s₀.findBlk h = some P := findBlk_addBlk_self hn
    have hPd : P.delivered = false := rfl
    have hv : ∀ k, delivView (s₀.setBlk h X) k = delivView s k := fun k =>
      (@delivView_setBlk s₀ h P X hP rfl (fun h' => absurd h' (by rw [hPd]; exact Bool.false_ne_true)) k).trans
        (delivView_addBlk hPd k)
    have hT₀ : TailsExact (s₀.setBlk h X) := hT.congr (fun _ => Iff.rfl) hv
    refine @TailsExact.deliver_filtered (s₀.setBlk h X) s' hT₀ h X parents (by simp [hP]) rfl
      (fun p hp => by rw [isDelivered_eq_of_delivView hv]; exact ha p hp) ⟨_, rfl, ?_⟩ hs
    rw [hqf, HotStuffCore.findBlk_setBlk]
    split_ifs with e
    · simp [hP]
    · show ((s.storage.addBlk h P).findBlk s.hqc.1).isSome
      rw [findBlk_addBlk_ne e, storage_findBlk, hq]
      rfl

end Leaves

theorem TailsExact.leaves :
    Leaves proposeDelivered (fun s => Wf s ∧ TailsExact s) fun _ _ _ => True where
  storage s _ hst h := ⟨⟨h.1.storage hst, h.2.congr (fun _ => Iff.rfl)
    (delivView_of_findBlk_eq fun k => findBlk_of_blkCache hst k)⟩, trivial⟩
  updateHqc s nh nblk h' qc hn hr hq h s' hs :=
    ⟨⟨((Wf.leaves proposeDelivered).updateHqc s nh nblk h' qc hn hr hq h.1 s' hs).1, h.2.updateHqc hs⟩, trivial⟩
  lockStep _ _ _ hb h _ hs := ⟨⟨h.1.lockStep hb hs, h.2.lockStep hs⟩, trivial⟩
  commit _ _ _ _ hb _ hp _ h _ hs := by
    obtain ⟨_, -, -, hf, hk⟩ := commit_effect h.1 hb hp hs
    exact ⟨⟨h.1.commit hb hp hs, h.2.congr (fun _ => by rw [← congrArg HotStuffCore.tails hf])
      (delivView_of_decision hk)⟩, trivial⟩
  fetch _ h ps qc orders ht hI := ⟨⟨hI.1.fetch h ps qc orders ht, hI.2.congr (fun _ => Iff.rfl)
    (delivView_addBlk rfl)⟩, trivial⟩
  deliver _ _ h _ hs := ⟨⟨h.1.deliver hs, h.2.deliver hs⟩, trivial⟩
  create _ _ _ _ _ _ ha hca _ hc h _ hs := ⟨⟨h.1.create hc hs, h.2.create h.1 ha hca hc hs⟩, trivial⟩
  finish _ _ _ _ _ _ h _ hs := by
    obtain ⟨w, rfl, -⟩ := finishProposal_state hs
    exact ⟨⟨h.1.finishProposal hs, h.2.table rfl rfl⟩, trivial⟩
  vote := onReceiveVote_keeps chainable_true
    { record := fun _ _ _ hb _ _ h => ⟨⟨h.1.recordVote hb, h.2.congr (fun _ => Iff.rfl)
        (delivView_setBlk (getDeliveredBlk_eq_some.mp hb).1 rfl fun _ => ⟨rfl, rfl⟩)⟩, trivial⟩
      voteHqc := fun s h' qc hb h s' hs =>
        ⟨⟨(Wf.voteLeaves.voteHqc s h' qc hb h.1 s' hs).1, h.2.updateHqc hs⟩, trivial⟩
      qcFinish := fun _ h' h =>
        ⟨⟨h.1.qcFinish h', h.2.table (by rw [onQcFinish_fst]) (by rw [onQcFinish_fst])⟩, trivial⟩ }
    fun _ _ _ _ => trivial
  quiet _ _ _ _ := trivial
  prune _ _ h := h.elim
  async _ _ h _ hs := ⟨⟨h.1.asyncQcFinish hs, h.2.async hs⟩, trivial⟩
  disable _ f h := ⟨⟨h.1.setVoteDisabled f, h.2.table rfl rfl⟩, trivial⟩

theorem TailsExact.init (b0 : BlockHash) (id : ReplicaID) (replicas : List ReplicaID) (nfaulty : Nat)
    (γ : Float) : TailsExact (HotStuffCore.init b0 id replicas nfaulty γ) := by
  have hv : ∀ k, delivView (HotStuffCore.init b0 id replicas nfaulty γ) k = if k = b0 then some ([], []) else none := by
    intro k
    simp only [delivView, HotStuffCore.init, findBlk_mk, EntityStorage.findBlk, lookupBlk_cons, lookupBlk_nil]
    split_ifs with e e' e'
    · rfl
    · exact absurd e.symm e'
    · exact absurd e'.symm e
    · rfl
  refine ⟨fun k v hk => ?_, fun k v hk p hp => ?_, fun x => ?_⟩
  · rw [hv] at hk; split_ifs at hk; cases hk; rfl
  · rw [hv] at hk; split_ifs at hk; cases hk; cases hp
  · simp only [hv]
    by_cases e : x = b0
    · subst e
      simp only [HotStuffCore.init, List.mem_singleton, if_true, Option.isSome_some, true_and, true_iff]
      intro k v hk
      split_ifs at hk
      · cases hk; exact List.not_mem_nil _
    · simp [HotStuffCore.init, e]

/-- `prune` が無く、`on_propose` の親がどれも配送済みの実行のどの状態でも（配送が例外を投げたり
繰り返されたりしても）、`tails` はちょうど、どの配送済みのブロックの `parents` にも無い配送済みの
ブロック。 -/
theorem tails_exact {s : HotStuffCore} {out : List Output} (hr : Run proposeDelivered s out) (x : BlockHash) :
    x ∈ s.tails ↔ (∃ b, s.findBlk x = some b ∧ b.delivered = true) ∧
      ∀ k bk, s.findBlk k = some bk → bk.delivered = true → x ∉ bk.parents := by
  have hT := (@Run.invariant proposeDelivered _ _ (fun _ _ => True) chainable_true TailsExact.leaves
    (fun b0 id replicas nfaulty γ => ⟨⟨Wf.init b0 id replicas nfaulty γ, TailsExact.init b0 id replicas nfaulty γ⟩,
      trivial⟩) (fun _ _ _ _ _ _ _ _ => trivial) s out hr).1.2
  rw [hT.tails x, delivView_isSome]
  refine and_congr_right fun _ => ⟨fun h k bk hk hd => h k _ (delivView_eq_some.mpr ⟨bk, hk, hd, rfl⟩),
    fun h k v hk => ?_⟩
  obtain ⟨bk, hbk, hd, rfl⟩ := delivView_eq_some.mp hk
  exact h k bk hbk hd

/-- 親のまだ無いブロック `2` の配送が例外を投げ、`1` を二度配送してから `2` を配送し直し、`0` の上に
`3` を足して、配送済みの `2` の上に提案 `4` を作る。 -/
def tailsRun : List Op :=
  [.fetch 2 [1] (some ⟨1, []⟩) [(3, [102])] 3, .deliver 2, .fetch 1 [0] (some ⟨0, []⟩) [(3, [101])] 2,
    .deliver 1, .deliver 1, .deliver 2, .fetch 3 [0] (some ⟨0, []⟩) [(3, [103])] 2, .deliver 3,
    .propose [(0, [5])] [2] 4]

/-- その実行の後の状態と出力。 -/
def tailsState : HotStuffCore × List Output :=
  (runOpsOut (HotStuffCore.init 0 0 [0, 1, 2, 3] 1 0.5) tailsRun).getD (HotStuffCore.init 0 0 [0, 1, 2, 3] 1 0.5, [])

theorem tails_exact_tailsRun :
    tailsState.1.tails = [4, 3] ∧
      (2 ∈ tailsState.1.tails ↔ (∃ b, tailsState.1.findBlk 2 = some b ∧ b.delivered = true) ∧
        ∀ k bk, tailsState.1.findBlk k = some bk → bk.delivered = true → 2 ∉ bk.parents) ∧
      (3 ∈ tailsState.1.tails ↔ (∃ b, tailsState.1.findBlk 3 = some b ∧ b.delivered = true) ∧
        ∀ k bk, tailsState.1.findBlk k = some bk → bk.delivered = true → 3 ∉ bk.parents) :=
  have hr : Run proposeDelivered tailsState.1 tailsState.2 :=
    @run_of_runOpsOut_getD proposeDelivered _ 0 0 [0, 1, 2, 3] 1 0.5 tailsRun (by decide) (by decide)
  ⟨by decide, tails_exact hr 2, tails_exact hr 3⟩

end Alkane.Core
