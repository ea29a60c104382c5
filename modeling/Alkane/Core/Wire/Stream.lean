import Alkane.Core.Types

/-!
# バイト列の読み書き

`DataStream`（salticidae）はソースにないので、仕様書 §6 から写す。整数の `<<` はホストのメモリ上の
表現を末尾に書き、`>>` は先頭から同じ幅を読む（足りなければ失敗）。`htole` と `letoh` はホストの
表現と little-endian の並びを入れ替え、little-endian のホストでは何もしない。`uint256_t` は
32 バイトの並びで、ホストのバイト順によらない。
-/

namespace Alkane.Core

/-- Modelled from the spec: `DataStream`。書いたバイトの列で、読むと先頭から減る。 -/
abbrev DataStream := List UInt8

/-! ## little-endian の並び -/

/-- `n` の下位 `w` バイトを、小さい方から並べる。 -/
def toLE : Nat → Nat → List UInt8
  | 0, _ => []
  | w + 1, n => UInt8.ofNat (n % 256) :: toLE w (n / 256)

/-- 小さい方から並んだバイトの表す数。 -/
def ofLE : List UInt8 → Nat
  | [] => 0
  | b :: bs => b.toNat + 256 * ofLE bs

@[simp] theorem length_toLE (w n : Nat) : (toLE w n).length = w := by
  induction w generalizing n with
  | zero => rfl
  | succ w ih => simp only [toLE, List.length_cons, ih]

theorem ofLE_toLE (w n : Nat) : ofLE (toLE w n) = n % 256 ^ w := by
  induction w generalizing n with
  | zero => simp only [toLE, ofLE, pow_zero, Nat.mod_one]
  | succ w ih =>
    have h : (UInt8.ofNat (n % 256)).toNat = n % 256 := by
      show n % 256 % 256 = n % 256
      exact Nat.mod_mod _ _
    rw [toLE, ofLE, ih, h, pow_succ', Nat.mod_mul]

theorem ofLE_lt (l : List UInt8) : ofLE l < 256 ^ l.length := by
  induction l with
  | nil => simp only [ofLE, List.length_nil, pow_zero, Nat.lt_one_iff]
  | cons b bs ih =>
    rw [ofLE, List.length_cons, pow_succ]
    have hb : b.toNat < 256 := b.toNat_lt
    omega

theorem toLE_ofLE (l : List UInt8) : toLE l.length (ofLE l) = l := by
  induction l with
  | nil => rfl
  | cons b bs ih =>
    have hb : b.toNat < 256 := b.toNat_lt
    rw [List.length_cons, toLE, ofLE]
    congr 1
    · refine UInt8.ext ?_
      show (b.toNat + 256 * ofLE bs) % 256 % 256 = b.toNat
      rw [Nat.mod_mod, Nat.add_mul_mod_self_left, Nat.mod_eq_of_lt hb]
    · rw [Nat.add_mul_div_left _ _ (by norm_num), Nat.div_eq_of_lt hb, Nat.zero_add, ih]

/-! ## ホストの表現 -/

section Host

variable (bigEndian : Bool)

/-- Modelled from the spec: `w` バイトの整数 `n` のホストのメモリ上の表現。 -/
def hostBytes (w n : Nat) : List UInt8 := if bigEndian then (toLE w n).reverse else toLE w n

/-- ホストの表現として読んだバイトの表す数。 -/
def ofHostBytes (l : List UInt8) : Nat := if bigEndian then ofLE l.reverse else ofLE l

/-- Modelled from the spec: `htole(n)`：ホストの表現が `n` の little-endian の並びになる値。 -/
def htole (w n : Nat) : Nat := ofHostBytes bigEndian (toLE w n)

/-- Modelled from the spec: `letoh(n)`：ホストの表現を little-endian の並びとして読んだ値。 -/
def letoh (w n : Nat) : Nat := ofLE (hostBytes bigEndian w n)

/-- `s << n`（`w` バイトの整数）。 -/
def putInt (w n : Nat) (s : DataStream) : DataStream := s ++ hostBytes bigEndian w n

/-- `s >> n`（`w` バイトの整数）。 -/
def getInt (w : Nat) (s : DataStream) : Option (Nat × DataStream) :=
  if w ≤ s.length then some (ofHostBytes bigEndian (s.take w), s.drop w) else none

@[simp] theorem length_hostBytes (w n : Nat) : (hostBytes bigEndian w n).length = w := by
  unfold hostBytes
  split <;> simp

theorem ofHostBytes_hostBytes (w n : Nat) : ofHostBytes bigEndian (hostBytes bigEndian w n) = n % 256 ^ w := by
  unfold ofHostBytes hostBytes
  split <;> simp [ofLE_toLE]

theorem hostBytes_ofHostBytes {w : Nat} {l : List UInt8} (hl : l.length = w) :
    hostBytes bigEndian w (ofHostBytes bigEndian l) = l := by
  unfold ofHostBytes hostBytes
  subst hl
  split
  · simpa using congrArg List.reverse (toLE_ofLE l.reverse)
  · exact toLE_ofLE l

theorem ofHostBytes_lt (l : List UInt8) : ofHostBytes bigEndian l < 256 ^ l.length := by
  unfold ofHostBytes
  split
  · simpa using ofLE_lt l.reverse
  · exact ofLE_lt l

theorem letoh_htole (w n : Nat) : letoh bigEndian w (htole bigEndian w n) = n % 256 ^ w := by
  unfold letoh htole
  rw [hostBytes_ofHostBytes bigEndian (length_toLE w n), ofLE_toLE]

theorem htole_lt (w n : Nat) : htole bigEndian w n < 256 ^ w := by
  simpa using ofHostBytes_lt bigEndian (toLE w n)

theorem getInt_hostBytes (w n : Nat) (rest : DataStream) :
    getInt bigEndian w (hostBytes bigEndian w n ++ rest) = some (n % 256 ^ w, rest) := by
  have hl := length_hostBytes bigEndian w n
  rw [getInt, if_pos (by simp [hl]), List.take_left' hl, List.drop_left' hl, ofHostBytes_hostBytes]

end Host

/-! ## 一バイトの整数とハッシュ -/

/-- `s << d`（`int8_t`、二の補数）。 -/
def putInt8 (d : Int) (s : DataStream) : DataStream := s ++ [UInt8.ofNat (d % 256).toNat]

/-- `s >> d`（`int8_t`）。 -/
def getInt8 : DataStream → Option (Int × DataStream)
  | [] => none
  | b :: s => some (if b.toNat < 128 then b.toNat else (b.toNat : Int) - 256, s)

/-- `s << h`（`uint256_t`）。 -/
def putHash (h : Nat) (s : DataStream) : DataStream := s ++ toLE 32 h

/-- `s >> h`（`uint256_t`）。 -/
def getHash (s : DataStream) : Option (Nat × DataStream) :=
  if 32 ≤ s.length then some (ofLE (s.take 32), s.drop 32) else none

theorem getInt8_putInt8 {d : Int} (hlo : -128 ≤ d) (hhi : d < 128) (rest : DataStream) :
    getInt8 (putInt8 d [] ++ rest) = some (d, rest) := by
  simp only [putInt8, List.nil_append, List.singleton_append, getInt8, Option.some.injEq, Prod.mk.injEq,
    and_true]
  show (if (d % 256).toNat % 256 < 128 then ((d % 256).toNat % 256 : Int)
    else ((d % 256).toNat % 256 : Int) - 256) = d
  split_ifs <;> omega

theorem getHash_toLE (h : Nat) (rest : DataStream) : getHash (toLE 32 h ++ rest) = some (h % 2 ^ 256, rest) := by
  have hl := length_toLE 32 h
  rw [getHash, if_pos (by simp [hl]), List.take_left' hl, List.drop_left' hl, ofLE_toLE]
  norm_num

end Alkane.Core
