import Alkane.Core.Wire.Stream

/-!
# 局所順序と確定の直列化

`LocalOrder` と `Finality` の `serialize` と `unserialize`（`consensus.h`）。`LocalOrder` は
`initiator`、`htole` した `uint32_t` の個数、ハッシュの列を書く。`Finality` は `decision` が 1 の
ときだけ `blk_hash` を書き、読む側も同じ条件で読む。`ReplicaID` の幅はソースにないので
`ridBytes` バイトとする。値の範囲（`ReplicaID`、`uint32_t`、`uint256_t`）は仮定に書く。
-/

namespace Alkane.Core

section Messages

variable (bigEndian : Bool) (ridBytes : Nat)

/-! ## ハッシュの列 -/

/-- `for (const auto &h: ordered_hashes) s << h;` -/
def putHashes (hs : List CmdHash) (s : DataStream) : DataStream :=
  hs.foldl (fun s h => putHash h s) s

/-- `ordered_hashes.resize(size); for (auto &hashes: ordered_hashes) s >> hashes;` -/
def getHashes : Nat → DataStream → Option (List CmdHash × DataStream)
  | 0, s => some ([], s)
  | n + 1, s => do
    let (h, s) ← getHash s
    let (hs, s) ← getHashes n s
    pure (h :: hs, s)

theorem putHashes_eq (hs : List CmdHash) (s : DataStream) :
    putHashes hs s = s ++ hs.flatMap (toLE 32) := by
  induction hs generalizing s with
  | nil => simp [putHashes]
  | cons h hs ih =>
    rw [putHashes, List.foldl_cons, ← putHashes, ih, putHash, List.flatMap_cons, List.append_assoc]

theorem getHashes_flatMap {hs : List CmdHash} (hh : ∀ c ∈ hs, c < 2 ^ 256) (rest : DataStream) :
    getHashes hs.length (hs.flatMap (toLE 32) ++ rest) = some (hs, rest) := by
  induction hs with
  | nil => rfl
  | cons h hs ih =>
    rw [List.length_cons, getHashes, List.flatMap_cons, List.append_assoc, getHash_toLE,
      Nat.mod_eq_of_lt (hh h (.head _))]
    simp only [Option.bind_eq_bind, Option.some_bind, ih fun c hc => hh c (.tail _ hc)]
    rfl

/-! ## `LocalOrder` -/

/-- `LocalOrder::serialize`。 -/
def LocalOrder.serialize (x : LocalOrder) (s : DataStream) : DataStream :=
  let s := putInt bigEndian ridBytes x.initiator s
  let s := putInt bigEndian 4 (htole bigEndian 4 (x.orderedHashes.length % 2 ^ 32)) s
  putHashes x.orderedHashes s

/-- `LocalOrder::unserialize`。 -/
def LocalOrder.unserialize (s : DataStream) : Option (LocalOrder × DataStream) := do
  let (initiator, s) ← getInt bigEndian ridBytes s
  let (size, s) ← getInt bigEndian 4 s
  let size := letoh bigEndian 4 size
  let (orderedHashes, s) ← getHashes size s
  pure (⟨initiator, orderedHashes⟩, s)

theorem LocalOrder.unserialize_serialize {x : LocalOrder} (hi : x.initiator < 256 ^ ridBytes)
    (hn : x.orderedHashes.length < 2 ^ 32) (hh : ∀ c ∈ x.orderedHashes, c < 2 ^ 256) (rest : DataStream) :
    LocalOrder.unserialize bigEndian ridBytes (x.serialize bigEndian ridBytes [] ++ rest) = some (x, rest) := by
  -- 個数は `htole` して書き、読んで `letoh` すれば戻る
  have hc : letoh bigEndian 4 (htole bigEndian 4 (x.orderedHashes.length % 2 ^ 32) % 256 ^ 4) =
      x.orderedHashes.length := by
    rw [Nat.mod_eq_of_lt (htole_lt bigEndian 4 _), letoh_htole, Nat.mod_mod_of_dvd _ (by norm_num),
      Nat.mod_eq_of_lt (hn.trans_eq (by norm_num))]
  simp only [LocalOrder.serialize, LocalOrder.unserialize, putInt, putHashes_eq, List.nil_append,
    List.append_assoc, getInt_hostBytes, Nat.mod_eq_of_lt hi, Option.bind_eq_bind, Option.some_bind, hc,
    getHashes_flatMap hh]
  rfl

/-! ## `Finality` -/

/-- `Finality::serialize`。 -/
def Finality.serialize (f : Finality) (s : DataStream) : DataStream :=
  let s := putInt bigEndian ridBytes f.rid s
  let s := putInt8 f.decision s
  let s := putInt bigEndian 4 f.cmdIdx s
  let s := putInt bigEndian 4 f.cmdHeight s
  let s := putHash f.cmdHash s
  if f.decision = 1 then putHash f.blkHash s else s

/-- `Finality::unserialize`：読み込む先の `self` の `blk_hash` は、`decision` が 1 のときだけ
書き換わる。 -/
def Finality.unserialize (self : Finality) (s : DataStream) : Option (Finality × DataStream) := do
  let (rid, s) ← getInt bigEndian ridBytes s
  let (decision, s) ← getInt8 s
  let (cmdIdx, s) ← getInt bigEndian 4 s
  let (cmdHeight, s) ← getInt bigEndian 4 s
  let (cmdHash, s) ← getHash s
  if decision = 1 then
    let (blkHash, s) ← getHash s
    pure (⟨rid, decision, cmdIdx, cmdHeight, cmdHash, blkHash⟩, s)
  else pure (⟨rid, decision, cmdIdx, cmdHeight, cmdHash, self.blkHash⟩, s)

theorem Finality.serialize_eq (f : Finality) :
    f.serialize bigEndian ridBytes [] =
      hostBytes bigEndian ridBytes f.rid ++ (putInt8 f.decision [] ++ (hostBytes bigEndian 4 f.cmdIdx ++
        (hostBytes bigEndian 4 f.cmdHeight ++ (toLE 32 f.cmdHash ++
          if f.decision = 1 then toLE 32 f.blkHash else [])))) := by
  simp only [Finality.serialize, putInt, putHash, putInt8, List.nil_append, List.append_assoc]
  split_ifs <;> simp

theorem Finality.unserialize_serialize {f : Finality} (hr : f.rid < 256 ^ ridBytes) (hlo : -128 ≤ f.decision)
    (hhi : f.decision < 128) (hi : f.cmdIdx < 2 ^ 32) (hh : f.cmdHeight < 2 ^ 32) (hc : f.cmdHash < 2 ^ 256)
    (hb : f.decision = 1 → f.blkHash < 2 ^ 256) (self : Finality) (rest : DataStream) :
    Finality.unserialize bigEndian ridBytes self (f.serialize bigEndian ridBytes [] ++ rest) =
      some ({ f with blkHash := if f.decision = 1 then f.blkHash else self.blkHash }, rest) := by
  have h4 : (256 : Nat) ^ 4 = 2 ^ 32 := by norm_num
  rw [Finality.serialize_eq]
  simp only [Finality.unserialize, List.append_assoc, getInt_hostBytes, Nat.mod_eq_of_lt hr,
    getInt8_putInt8 hlo hhi, h4, Nat.mod_eq_of_lt hi, Nat.mod_eq_of_lt hh, getHash_toLE,
    Nat.mod_eq_of_lt hc, Option.bind_eq_bind, Option.some_bind]
  by_cases hd : f.decision = 1
  · simp only [hd, if_true, getHash_toLE, Nat.mod_eq_of_lt (hb hd), List.append_nil]
    rfl
  · simp only [hd, if_false, List.nil_append]
    rfl

end Messages

/-- どちらのバイト順のホストでも、どの `ReplicaID` の幅でも、個数が `2^32` 未満の `LocalOrder` と、
`decision` が 1 の `Finality` は、値がそれぞれの型に収まれば、書いて続く列をつないだものを読むと
元に戻り、続く列がちょうど残る。 -/
theorem unserialize_serialize_round_trip (bigEndian : Bool) (ridBytes : Nat) :
    (∀ (x : LocalOrder) (rest : DataStream), x.initiator < 256 ^ ridBytes → x.orderedHashes.length < 2 ^ 32 →
      (∀ c ∈ x.orderedHashes, c < 2 ^ 256) →
      LocalOrder.unserialize bigEndian ridBytes (x.serialize bigEndian ridBytes [] ++ rest) = some (x, rest)) ∧
    ∀ (f self : Finality) (rest : DataStream), f.decision = 1 → f.rid < 256 ^ ridBytes → f.cmdIdx < 2 ^ 32 →
      f.cmdHeight < 2 ^ 32 → f.cmdHash < 2 ^ 256 → f.blkHash < 2 ^ 256 →
      Finality.unserialize bigEndian ridBytes self (f.serialize bigEndian ridBytes [] ++ rest) = some (f, rest) := by
  refine ⟨fun x rest hi hn hh => LocalOrder.unserialize_serialize bigEndian ridBytes hi hn hh rest,
    fun f self rest hd hr hi hh hc hb => ?_⟩
  have := Finality.unserialize_serialize bigEndian ridBytes hr (by omega) (by omega) hi hh hc (fun _ => hb) self rest
  rwa [if_pos hd] at this

/-- little-endian のホストで `[7, 9]` を運ぶ局所順序と、big-endian のホストで `decision = 1` の確定
（`ReplicaID` は 2 バイト）。 -/
theorem unserialize_serialize_round_trip_sample :
    LocalOrder.unserialize false 2 ((⟨1, [7, 9]⟩ : LocalOrder).serialize false 2 [] ++ [5]) =
        some (⟨1, [7, 9]⟩, [5]) ∧
      Finality.unserialize true 2 ⟨0, 0, 0, 0, 0, 0⟩ ((⟨3, 1, 4, 5, 8, 6⟩ : Finality).serialize true 2 [] ++ [5]) =
        some (⟨3, 1, 4, 5, 8, 6⟩, [5]) :=
  ⟨(unserialize_serialize_round_trip false 2).1 _ _ (by decide) (by decide) (by decide),
    (unserialize_serialize_round_trip true 2).2 _ _ _ rfl (by decide) (by decide) (by decide) (by decide)
      (by decide)⟩

end Alkane.Core
