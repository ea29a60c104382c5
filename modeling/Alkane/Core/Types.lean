import Mathlib

/-!
# レプリカの状態の型

`consensus.h` の `HotStuffCore` と、それが読み書きするブロック、証明書、メッセージ、`EntityStorage`
を写す。ブロックはポインタではなくハッシュで指す。ストレージは内容で番地づけされているので、
同じハッシュのブロックは同じ実体である。

`entity.h` はソースにないので、`Block` の既定値と `EntityStorage` の中身は仕様書から写す
（`Block.ofWire`、`Block.genesis`、`EntityStorage` の文書を見よ）。
-/

namespace Alkane.Core

/-- `ReplicaID`。 -/
abbrev ReplicaID := Nat

/-- ブロックのハッシュ（`uint256_t`）。 -/
abbrev BlockHash := Nat

/-- コマンドのハッシュ（`uint256_t`）。 -/
abbrev CmdHash := Nat

/-- `uint32_t` の値の数。高さと `vheight` はこの剰余で計算される。 -/
def u32 : Nat := 2 ^ 32

/-- `quorum_cert_bt`。対象のハッシュ（`get_obj_hash`）と、`add_part` で加えた部分証明の署名者。
署名そのものは核が中を見ないので持たない。 -/
structure QuorumCert where
  objHash : BlockHash
  parts : List ReplicaID
  deriving DecidableEq, Repr

/-- `create_quorum_cert(hash)`：部分証明のない証明書。 -/
def createQuorumCert (h : BlockHash) : QuorumCert := ⟨h, []⟩

/-- `qc->add_part(voter, cert)`。 -/
def QuorumCert.addPart (qc : QuorumCert) (voter : ReplicaID) : QuorumCert :=
  { qc with parts := qc.parts ++ [voter] }

/-- ブロックの局所的な状態。`parents` と `qc_ref` は配送で解決される参照、`orders` は
各レプリカの局所順序（`unordered_map` の列挙順の列）。`extra` はどの関数も読まないので持たない。 -/
structure Block where
  parentHashes : List BlockHash
  parents : List BlockHash
  qc : Option QuorumCert
  qcRef : Option BlockHash
  selfQc : Option QuorumCert
  orders : List (ReplicaID × List CmdHash)
  height : Nat
  voted : List ReplicaID
  delivered : Bool
  decision : Bool
  deriving DecidableEq, Repr

/-- Modelled from the spec: `Block::unserialize` の直後のブロック（`entity.cpp` はソースにない）。
仕様書 §6 に従い、高さは送り手が書いた値（`uint32_t`）をそのまま持つ。 -/
def Block.ofWire (parentHashes : List BlockHash) (qc : Option QuorumCert)
    (orders : List (ReplicaID × List CmdHash)) (height : Nat) : Block :=
  { parentHashes, parents := [], qc, qcRef := none, selfQc := none, orders,
    height := height % u32, voted := [], delivered := false, decision := false }

/-- Modelled from the spec: 生成ブロック `b0` の `on_init` の後の状態。`Block(true, 1)` は配送済みで
確定済み、高さは仕様書 §3 の 1。`add_replica` で全レプリカが投票済みになり、`qc_ref` は自分自身。 -/
def Block.genesis (b0 : BlockHash) (replicas : List ReplicaID) : Block :=
  { parentHashes := [], parents := [], qc := some (createQuorumCert b0), qcRef := some b0,
    selfQc := some (createQuorumCert b0), orders := [], height := 1, voted := replicas.dedup,
    delivered := true, decision := true }

/-- `ReplicaConfig` のうち核が読む部分。公開鍵とピアの表は読まれないので持たない。 -/
structure ReplicaConfig where
  nreplicas : Nat
  nmajority : Nat
  fairnessParameter : Float

/-- `Vote`。部分証明は核が中を見ないので持たない。 -/
structure Vote where
  voter : ReplicaID
  blkHash : BlockHash
  deriving DecidableEq, Repr

/-- `Proposal`。 -/
structure Proposal where
  proposer : ReplicaID
  blk : BlockHash
  deriving DecidableEq, Repr

/-- `LocalOrder`。 -/
structure LocalOrder where
  initiator : ReplicaID
  orderedHashes : List CmdHash
  deriving DecidableEq, Repr

/-- `Finality`。`decision` は `int8_t`、`cmd_idx` と `cmd_height` は `uint32_t`。 -/
structure Finality where
  rid : ReplicaID
  decision : Int
  cmdIdx : Nat
  cmdHeight : Nat
  cmdHash : CmdHash
  blkHash : BlockHash
  deriving DecidableEq, Repr

/-- Modelled from the spec: `EntityStorage`（`entity.h` はソースにない）。ブロックの表は
ハッシュからブロックへの連想リスト。局所順序の表は、レプリカごとに受け取った列を古い順に並べた
待ち行列で、先頭の列が次の提案の候補である（仕様書 §3、§4.2）。 -/
structure EntityStorage where
  blkCache : List (BlockHash × Block)
  localOrderCache : List (ReplicaID × List (List CmdHash))
  seenProposeLevel : List CmdHash
  seenExecuteLevel : List CmdHash
  proposedCmds : List CmdHash

/-- `HotStuffCore` の状態。約束（promise）は出力の列に置き換え、`qc_waiting` は待っている
ブロックの集合として持つ。 -/
structure HotStuffCore where
  b0 : BlockHash
  hqc : BlockHash × QuorumCert
  bLock : BlockHash
  bExec : BlockHash
  vheight : Nat
  tails : List BlockHash
  config : ReplicaConfig
  qcWaiting : List BlockHash
  voteDisabled : Bool
  id : ReplicaID
  storage : EntityStorage

/-- 核が外に出す出来事：仮想関数 `do_*` の呼び出しと、約束の解決と、`qc->compute()`。 -/
inductive Output where
  | doDecide (fin : Finality)
  | doConsensus (blk : BlockHash)
  | doBroadcastProposal (prop : Proposal)
  | doVote (proposer : ReplicaID) (vote : Vote)
  | doSendLocalOrder (proposer : ReplicaID) (lo : LocalOrder)
  | resolveQc (blk : BlockHash)
  | resolveHqc
  | resolvePropose (prop : Proposal)
  | resolveReceiveProposal (prop : Proposal)
  | qcCompute (blk : BlockHash)
  deriving DecidableEq, Repr

/-- 操作の結果。`error` は `std::runtime_error` が投げられたときで、それまでの変更は残る。
`undefined` は未定義動作（空の列の先頭や範囲外の要素を読む）。 -/
inductive Result (α : Type) where
  | ok (a : α) (s : HotStuffCore) (out : List Output)
  | error (msg : String) (s : HotStuffCore) (out : List Output)
  | undefined

namespace Result

variable {α β : Type}

/-- 続けて実行する。先の出力を後の出力の前に置く。 -/
def andThen (r : Result α) (f : α → HotStuffCore → Result β) : Result β :=
  match r with
  | ok a s out =>
      match f a s with
      | ok b s' out' => ok b s' (out ++ out')
      | error m s' out' => error m s' (out ++ out')
      | undefined => undefined
  | error m s out => error m s out
  | undefined => undefined

@[simp] theorem ok_andThen (a : α) (s : HotStuffCore) (out : List Output)
    (f : α → HotStuffCore → Result β) :
    (ok a s out).andThen f =
      match f a s with
      | ok b s' out' => ok b s' (out ++ out')
      | error m s' out' => error m s' (out ++ out')
      | undefined => undefined := rfl

@[simp] theorem error_andThen (m : String) (s : HotStuffCore) (out : List Output)
    (f : α → HotStuffCore → Result β) : (error m s out).andThen f = error m s out := rfl

@[simp] theorem undefined_andThen (f : α → HotStuffCore → Result β) :
    (undefined : Result α).andThen f = undefined := rfl

/-- 結果の状態（未定義動作なら `none`）。例外の後の状態も含む。 -/
def state? : Result α → Option HotStuffCore
  | ok _ s _ => some s
  | error _ s _ => some s
  | undefined => none

/-- 未定義動作に至った。 -/
def isUndefined : Result α → Bool
  | undefined => true
  | _ => false

/-- 結果の出力。 -/
def outputs : Result α → List Output
  | ok _ _ out => out
  | error _ _ out => out
  | undefined => []

end Result

end Alkane.Core
