import Alkane.Core.Storage

/-!
# 公平な順序づけ

`fair_finalize`（確定したブロックの局所順序から全順序を作る）と `fair_propose`（リーダーが
局所順序を併合して提案の `orders` を作る）。

`fair_finalize` は三段で計算する。重み（`double`）で並べ、組ごとの先後の数（`u_int16_t`）の
比較子で並べ直す。`orders.begin()` を空の表で参照すること、列の長さを超えて `tmp[from]` を読む
こと、比較子が狭義弱順序でないまま `std::sort` に渡すことは未定義動作で、`none` を返す。
-/

namespace Alkane.Core

/-! ## `fair_finalize` -/

/-- `cmd_weight` のキー：どれかの列に現れるコマンドを小さい順に（`std::map` の順）。 -/
def cmdWeightKeys (orders : List (ReplicaID × List CmdHash)) : List CmdHash :=
  ((orders.flatMap (·.2)).dedup).insertionSort (· ≤ ·)

/-- `cmd_weight[cmd]`：列 `o` の位置 `i`（1 から）に `cmd` があるたびに `1 - pow(γ, i)` を足す。
足す順は `for(auto o:orders)` と列の順。 -/
def cmdWeight (γ : Float) (orders : List (ReplicaID × List CmdHash)) (c : CmdHash) : Float :=
  orders.foldl (fun w o => o.2.enum.foldl
    (fun w p => if p.2 = c then w + (1 - Float.pow γ (Float.ofNat (p.1 + 1))) else w) w) 0

/-- 一つ目の `std::sort(vec, cmp)` の後の `order`：重みの小さい順。`std::sort` は等しい重みの
並びを決めないので、そのうちの一つ（安定な挿入整列）を取る。二つ目の整列がこの並びによらない
ことは別に示す。 -/
def weightOrder (γ : Float) (orders : List (ReplicaID × List CmdHash)) : List CmdHash :=
  (((cmdWeightKeys orders).map fun c => (c, cmdWeight γ orders c)).insertionSort
    (fun a b => a.2 < b.2)).map (·.1)

/-- 列の中で `a` が `b` より前にある位置の組の数。 -/
def pairsBefore (a b : CmdHash) : List CmdHash → Nat
  | [] => 0
  | x :: rest => (if x = a then rest.count b else 0) + pairsBefore a b rest

/-- `weight_count[a][b]`：各列の先頭 `len` 個の中で `a` が `b` より前にある組の数。
`u_int16_t` なので `2^16` で回る。 -/
def weightCount (len : Nat) (orders : List (ReplicaID × List CmdHash)) (a b : CmdHash) : Nat :=
  (orders.map fun o => pairsBefore a b (o.2.take len)).sum % 2 ^ 16

/-- `from < to < len` の `tmp[from]`、`tmp[to]` がどれも列の中にある。 -/
def readsInBounds (len : Nat) (tmp : List CmdHash) : Bool := len < 2 || len ≤ tmp.length

/-- 二つ目の `std::sort` の比較子。 -/
def pairLess (wc : CmdHash → CmdHash → Nat) (a b : CmdHash) : Bool :=
  if wc a b = wc b a then a < b else wc a b > wc b a

/-- 比較子が列の要素の上で狭義弱順序である（`std::sort` の要件）。 -/
def IsStrictWeakOn (lt : CmdHash → CmdHash → Bool) (l : List CmdHash) : Bool :=
  let incomp := fun a b => !lt a b && !lt b a
  l.all (fun a => !lt a a) &&
  l.all (fun a => l.all fun b => l.all fun c => !(lt a b && lt b c) || lt a c) &&
  l.all (fun a => l.all fun b => l.all fun c => !(incomp a b && incomp b c) || incomp a c)

/-- `fair_finalize(blk)`。 -/
def fairFinalize (γ : Float) (orders : List (ReplicaID × List CmdHash)) :
    Option (List CmdHash) :=
  match orders with
  | [] => none
  | (_, first) :: _ =>
    let order := weightOrder γ orders
    let len := first.length
    if orders.all (fun o => readsInBounds len o.2) then
      let lt := pairLess (weightCount len orders)
      if IsStrictWeakOn lt order then some (order.insertionSort fun a b => lt a b) else none
    else none

/-! ## `fair_propose` -/

/-- 一つ目のループ：各レプリカの列のうち、そのレプリカを見る前の `orders[replicas[0]]`
（`vc`）に無いコマンドを順に足す。 -/
def mergeFirst (front : ReplicaID → List CmdHash) (o0 : List CmdHash) :
    List ReplicaID → List CmdHash
  | [] => o0
  | r :: rest => mergeFirst front (o0 ++ (front r).filter (· ∉ o0)) rest

/-- 二つ目のループ：`orders[replicas[j]]` に、併合した列のうち無いコマンドを足す。 -/
def extendWith (merged own : List CmdHash) : List CmdHash := own ++ merged.filter (· ∉ own)

/-- `fair_propose()`：併合した `orders`（`replicas` の順）と、先頭の列を捨てた後のストレージ。 -/
def fairPropose (st : EntityStorage) : List (ReplicaID × List CmdHash) × EntityStorage :=
  match st.getOrderedHashRepliaVector with
  | [] => ([], st)
  | r0 :: rest =>
    let front := st.getOrderedHashVector
    let merged := mergeFirst front (front r0) rest
    ((r0, merged) :: rest.map (fun r => (r, extendWith merged (front r))),
      (r0 :: rest).foldl EntityStorage.clearFrontOrderedHash st)

end Alkane.Core
