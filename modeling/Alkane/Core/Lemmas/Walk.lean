import Alkane.Core.Lemmas.Step

/-!
# `parents[0]` をたどる道

`parents[0]` の関係（`Below`）、`walkDown` が通る道（`WalkPath`）、確定した列のように
下から上へ高さが増えていく道（`Ascent`）。
-/

namespace Alkane.Core

namespace EntityStorage

/-- ブロックの `parents[0]`。 -/
def parent0 (st : EntityStorage) (h : BlockHash) : Option BlockHash :=
  (st.findBlk h).bind (·.parents.head?)

/-- ブロックの高さ。 -/
def heightOf (st : EntityStorage) (h : BlockHash) : Option Nat := (st.findBlk h).map (·.height)

theorem parent0_eq_some {st : EntityStorage} {h p : BlockHash} :
    st.parent0 h = some p ↔ ∃ b, st.findBlk h = some b ∧ b.parents.head? = some p := by
  simp [parent0, Option.bind_eq_some]

end EntityStorage

open EntityStorage

/-! ## `parents[0]` の関係 -/

/-- `x` は `y` から `parents[0]` をたどって着くブロック（`y` 自身を含む）。 -/
inductive Below (st : EntityStorage) : BlockHash → BlockHash → Prop
  | refl (h : BlockHash) : Below st h h
  | parent {x y p : BlockHash} : st.parent0 y = some p → Below st x p → Below st x y

namespace Below

variable {st : EntityStorage}

theorem trans {x y z : BlockHash} (hxy : Below st x y) (hyz : Below st y z) : Below st x z := by
  induction hyz with
  | refl => exact hxy
  | parent hp _ ih => exact .parent hp ih

theorem iff_parent {x y p : BlockHash} (hp : st.parent0 y = some p) :
    Below st x y ↔ x = y ∨ Below st x p := by
  constructor
  · rintro (_ | ⟨hp', h⟩)
    · exact .inl rfl
    · exact .inr (Option.some.inj (hp'.symm.trans hp) ▸ h)
  · rintro (rfl | h)
    · exact .refl _
    · exact .parent hp h

end Below

/-! ## `walkDown` の道 -/

/-- `walkDown st h` が `b` から下りて、`b` から順に `q` を通り `e` で止まる。 -/
inductive WalkPath (st : EntityStorage) (h : Nat) : BlockHash → List BlockHash → BlockHash → Prop
  | stop {b : BlockHash} {blk : Block} : st.findBlk b = some blk → blk.height ≤ h → WalkPath st h b [] b
  | step {b p e : BlockHash} {blk : Block} {q : List BlockHash} : st.findBlk b = some blk →
      h < blk.height → blk.parents.head? = some p → WalkPath st h p q e → WalkPath st h b (b :: q) e

theorem walkDown_path {st : EntityStorage} {h : Nat} :
    ∀ {fuel : Nat} {b e : BlockHash} {q : List BlockHash},
      walkDown st h fuel b = some (e, q) → WalkPath st h b q e
  | 0, _, _, _, hw => by simp [walkDown] at hw
  | fuel + 1, b, e, q, hw => by
    unfold walkDown at hw
    split at hw
    · cases hw
    rename_i blk hb
    split_ifs at hw with hlt
    · split at hw
      · cases hw
      rename_i p _ hps
      obtain ⟨⟨e', q'⟩, hw', he⟩ := Option.map_eq_some'.mp hw
      cases he
      exact .step hb hlt (by simp [hps]) (walkDown_path hw')
    · cases hw
      exact .stop hb (by omega)

theorem walkFrom_path {st : EntityStorage} {h : Nat} {b e : BlockHash} {q : List BlockHash}
    (hw : walkFrom st h b = some (e, q)) : WalkPath st h b q e := by
  unfold walkFrom at hw
  split at hw
  · exact walkDown_path hw
  · cases hw

namespace WalkPath

variable {st : EntityStorage} {h : Nat}

theorem last {b e : BlockHash} {q : List BlockHash} (hw : WalkPath st h b q e) :
    ∃ blk, st.findBlk e = some blk ∧ blk.height ≤ h := by
  induction hw with
  | stop hb hle => exact ⟨_, hb, hle⟩
  | step _ _ _ _ ih => exact ih

theorem mem {b e : BlockHash} {q : List BlockHash} (hw : WalkPath st h b q e) :
    ∀ x ∈ q, ∃ blk, st.findBlk x = some blk ∧ h < blk.height := by
  induction hw with
  | stop => simp
  | step hb hlt _ _ ih =>
    rintro x (_ | ⟨_, hx⟩)
    · exact ⟨_, hb, hlt⟩
    · exact ih x hx

theorem end_below {b e : BlockHash} {q : List BlockHash} (hw : WalkPath st h b q e) : Below st e b := by
  induction hw with
  | stop => exact .refl _
  | step hb _ hp _ ih => exact .parent (parent0_eq_some.mpr ⟨_, hb, hp⟩) ih

end WalkPath

/-! ## 上る道 -/

/-- `x` から、`parents[0]` が一つ前のブロックで高さが一つ上の配送済みのブロックを `l` の順に
たどって `z` に着く（確定したブロックの列の形）。 -/
inductive Ascent (st : EntityStorage) : BlockHash → List BlockHash → BlockHash → Prop
  | nil (x : BlockHash) : Ascent st x [] x
  | cons {x y z : BlockHash} {l : List BlockHash} {bx b : Block} : st.findBlk x = some bx →
      bx.delivered → st.findBlk y = some b → b.delivered → b.parents.head? = some x →
      b.height = bx.height + 1 → Ascent st y l z → Ascent st x (y :: l) z

namespace Ascent

variable {st : EntityStorage}

theorem append {x y z : BlockHash} {l l' : List BlockHash} (h₁ : Ascent st x l y)
    (h₂ : Ascent st y l' z) : Ascent st x (l ++ l') z := by
  induction h₁ with
  | nil => exact h₂
  | cons hx hxd hy hyd hp hh _ ih => exact .cons hx hxd hy hyd hp hh (ih h₂)

theorem toBelow {x z : BlockHash} {l : List BlockHash} (h : Ascent st x l z) : Below st x z := by
  induction h with
  | nil => exact .refl _
  | cons _ _ hy _ hp _ _ ih => exact (Below.parent (parent0_eq_some.mpr ⟨_, hy, hp⟩) (.refl _)).trans ih

theorem mem_height {x z : BlockHash} {l : List BlockHash} (h : Ascent st x l z) {bx : Block}
    (hx : st.findBlk x = some bx) : ∀ w ∈ l, ∃ bw, st.findBlk w = some bw ∧ bx.height < bw.height := by
  induction h generalizing bx with
  | nil => simp
  | cons hx' _ hy _ _ hh _ ih =>
    rw [hx] at hx'; cases hx'
    rintro w (_ | ⟨_, hw⟩)
    · exact ⟨_, hy, by omega⟩
    · obtain ⟨bw, hbw, hlt⟩ := ih hy w hw
      exact ⟨bw, hbw, by omega⟩

theorem nodup {x z : BlockHash} {l : List BlockHash} (h : Ascent st x l z) : l.Nodup := by
  induction h with
  | nil => exact List.nodup_nil
  | cons _ _ hy _ _ _ hrest ih =>
    refine List.nodup_cons.mpr ⟨fun hm => ?_, ih⟩
    obtain ⟨bw, hbw, hlt⟩ := hrest.mem_height hy _ hm
    rw [hy] at hbw; cases hbw
    omega

theorem height_eq {x z : BlockHash} {l : List BlockHash} (h : Ascent st x l z) {bx bz : Block}
    (hx : st.findBlk x = some bx) (hz : st.findBlk z = some bz) : bz.height = bx.height + l.length := by
  induction h generalizing bx with
  | nil => rw [hx] at hz; cases hz; rfl
  | cons hx' _ hy _ _ hh _ ih =>
    rw [hx] at hx'; cases hx'
    rw [ih hy hz, List.length_cons]
    omega

theorem below_iff {x z k : BlockHash} {l : List BlockHash} (h : Ascent st x l z) :
    Below st k z ↔ k ∈ l ∨ Below st k x := by
  induction h with
  | nil => simp
  | cons _ _ hy _ hp _ _ ih =>
    rw [ih, Below.iff_parent (parent0_eq_some.mpr ⟨_, hy, hp⟩), List.mem_cons, or_assoc, or_left_comm]

theorem take {x z : BlockHash} {l : List BlockHash} (h : Ascent st x l z) :
    ∀ n, Ascent st x (l.take n) ((l.take n).getLastD x) := by
  induction h with
  | nil => intro n; simpa using Ascent.nil _
  | cons hx hxd hy hyd hp hh _ ih =>
    rintro (_ | n)
    · exact .nil _
    · rw [List.take_succ_cons, List.getLastD_cons]
      exact .cons hx hxd hy hyd hp hh (ih n)

end Ascent

end Alkane.Core
