import Mathlib.Data.List.Dedup
import Mathlib.Data.List.Nodup
import Mathlib.Data.Set.Function
import TexGovernance.Lib.PyBytes

/-!
# SHA-2 and HMAC

The hash of FIPS 180-4 over bytes, with 32-bit words as naturals below
`2 ^ 32`. A digest carries its length. Nothing is assumed of the function
here: where a result needs that two inputs do not collide, it says which
inputs these are.
-/

namespace Sha256
open PyStr PyBytes

structure Digest where
  bytes : Bytes
  length_eq : bytes.length = 32
  deriving DecidableEq

instance : Inhabited Digest := ⟨⟨List.replicate 32 0, List.length_replicate⟩⟩

theorem Digest.ext_bytes (a b : Digest) (h : a.bytes = b.bytes) : a = b := by
  cases a
  cases b
  simp only [Digest.mk.injEq]
  exact h

def rotr (x n : ℕ) : ℕ := (x >>> n) ||| ((x <<< (32 - n)) % 2 ^ 32)

def roundConstants : List ℕ := [
  0x428a2f98, 0x71374491, 0xb5c0fbcf, 0xe9b5dba5, 0x3956c25b, 0x59f111f1, 0x923f82a4, 0xab1c5ed5,
  0xd807aa98, 0x12835b01, 0x243185be, 0x550c7dc3, 0x72be5d74, 0x80deb1fe, 0x9bdc06a7, 0xc19bf174,
  0xe49b69c1, 0xefbe4786, 0x0fc19dc6, 0x240ca1cc, 0x2de92c6f, 0x4a7484aa, 0x5cb0a9dc, 0x76f988da,
  0x983e5152, 0xa831c66d, 0xb00327c8, 0xbf597fc7, 0xc6e00bf3, 0xd5a79147, 0x06ca6351, 0x14292967,
  0x27b70a85, 0x2e1b2138, 0x4d2c6dfc, 0x53380d13, 0x650a7354, 0x766a0abb, 0x81c2c92e, 0x92722c85,
  0xa2bfe8a1, 0xa81a664b, 0xc24b8b70, 0xc76c51a3, 0xd192e819, 0xd6990624, 0xf40e3585, 0x106aa070,
  0x19a4c116, 0x1e376c08, 0x2748774c, 0x34b0bcb5, 0x391c0cb3, 0x4ed8aa4a, 0x5b9cca4f, 0x682e6ff3,
  0x748f82ee, 0x78a5636f, 0x84c87814, 0x8cc70208, 0x90befffa, 0xa4506ceb, 0xbef9a3f7, 0xc67178f2]

def smallSigma0 (x : ℕ) : ℕ := rotr x 7 ^^^ rotr x 18 ^^^ (x >>> 3)

def smallSigma1 (x : ℕ) : ℕ := rotr x 17 ^^^ rotr x 19 ^^^ (x >>> 10)

def bigSigma0 (x : ℕ) : ℕ := rotr x 2 ^^^ rotr x 13 ^^^ rotr x 22

def bigSigma1 (x : ℕ) : ℕ := rotr x 6 ^^^ rotr x 11 ^^^ rotr x 25

def choose (e f g : ℕ) : ℕ := (e &&& f) ^^^ ((2 ^ 32 - 1 - e) &&& g)

def majority (a b c : ℕ) : ℕ := (a &&& b) ^^^ (a &&& c) ^^^ (b &&& c)

structure Regs where
  a : ℕ
  b : ℕ
  c : ℕ
  d : ℕ
  e : ℕ
  f : ℕ
  g : ℕ
  h : ℕ

def initialRegs : Regs :=
  ⟨0x6a09e667, 0xbb67ae85, 0x3c6ef372, 0xa54ff53a, 0x510e527f, 0x9b05688c, 0x1f83d9ab, 0x5be0cd19⟩

def round (s : Regs) (k w : ℕ) : Regs :=
  let t1 := s.h + bigSigma1 s.e + choose s.e s.f s.g + k + w
  let t2 := bigSigma0 s.a + majority s.a s.b s.c
  ⟨(t1 + t2) % 2 ^ 32, s.a, s.b, s.c, (s.d + t1) % 2 ^ 32, s.e, s.f, s.g⟩

/-- One round per constant; `window` holds the next sixteen words of the
message schedule. -/
def rounds : List ℕ → List ℕ → Regs → Regs
  | [], _, s => s
  | _ :: _, [], s => s
  | k :: ks, w :: rest, s =>
    let next := (smallSigma1 (rest.getD 13 0) + rest.getD 8 0 + smallSigma0 (rest.getD 0 0) + w)
      % 2 ^ 32
    rounds ks (rest ++ [next]) (round s k w)

def addRegs (x y : Regs) : Regs :=
  ⟨(x.a + y.a) % 2 ^ 32, (x.b + y.b) % 2 ^ 32, (x.c + y.c) % 2 ^ 32, (x.d + y.d) % 2 ^ 32,
    (x.e + y.e) % 2 ^ 32, (x.f + y.f) % 2 ^ 32, (x.g + y.g) % 2 ^ 32, (x.h + y.h) % 2 ^ 32⟩

def words : Bytes → List ℕ
  | a :: b :: c :: d :: rest =>
    (((a.val * 256 + b.val) * 256 + c.val) * 256 + d.val) :: words rest
  | _ => []

def compress : ℕ → Bytes → Regs → Regs
  | 0, _, s => s
  | n + 1, bs, s =>
    compress n (bs.drop 64) (addRegs s (rounds roundConstants (words (bs.take 64)) s))

def pad (m : Bytes) : Bytes :=
  m ++ byte 0x80 :: List.replicate ((119 - m.length % 64) % 64) 0 ++ toBytesBig 8 (8 * m.length)

def output (s : Regs) : Bytes :=
  toBytesBig 4 s.a ++ toBytesBig 4 s.b ++ toBytesBig 4 s.c ++ toBytesBig 4 s.d ++
    toBytesBig 4 s.e ++ toBytesBig 4 s.f ++ toBytesBig 4 s.g ++ toBytesBig 4 s.h

theorem length_output (s : Regs) : (output s).length = 32 := by
  simp only [output, List.length_append, length_toBytesBig]

def sha256 (m : Bytes) : Digest :=
  ⟨output (compress ((pad m).length / 64) (pad m) initialRegs), length_output _⟩

set_option maxRecDepth 10000 in
example : hex (sha256 [97, 98, 99]).bytes = lit
    ['b', 'a', '7', '8', '1', '6', 'b', 'f', '8', 'f', '0', '1', 'c', 'f', 'e', 'a',
     '4', '1', '4', '1', '4', '0', 'd', 'e', '5', 'd', 'a', 'e', '2', '2', '2', '3',
     'b', '0', '0', '3', '6', '1', 'a', '3', '9', '6', '1', '7', '7', 'a', '9', 'c',
     'b', '4', '1', '0', 'f', 'f', '6', '1', 'f', '2', '0', '0', '1', '5', 'a', 'd'] := by
  decide

theorem injOn_of_nodup (inputs : List Bytes) (h : (inputs.map sha256).Nodup) :
    Set.InjOn sha256 {x | x ∈ inputs} :=
  List.inj_on_of_nodup_map h

theorem injOn_of_dedup (inputs : List Bytes) (h : (inputs.dedup.map sha256).Nodup) :
    Set.InjOn sha256 {x | x ∈ inputs} :=
  (injOn_of_nodup _ h).mono fun _ hx => List.mem_dedup.mpr hx

end Sha256

/-!
## SHA-512

The hash of FIPS 180-4 with 64-bit words as naturals below `2 ^ 64`; its rounds
are those of SHA-256 with other constants.
-/

namespace Sha512
open PyStr PyBytes
open Sha256 (Regs)

def rotr (x n : ℕ) : ℕ := (x >>> n) ||| ((x <<< (64 - n)) % 2 ^ 64)

def roundConstants : List ℕ := [
  0x428a2f98d728ae22, 0x7137449123ef65cd, 0xb5c0fbcfec4d3b2f, 0xe9b5dba58189dbbc,
  0x3956c25bf348b538, 0x59f111f1b605d019, 0x923f82a4af194f9b, 0xab1c5ed5da6d8118,
  0xd807aa98a3030242, 0x12835b0145706fbe, 0x243185be4ee4b28c, 0x550c7dc3d5ffb4e2,
  0x72be5d74f27b896f, 0x80deb1fe3b1696b1, 0x9bdc06a725c71235, 0xc19bf174cf692694,
  0xe49b69c19ef14ad2, 0xefbe4786384f25e3, 0x0fc19dc68b8cd5b5, 0x240ca1cc77ac9c65,
  0x2de92c6f592b0275, 0x4a7484aa6ea6e483, 0x5cb0a9dcbd41fbd4, 0x76f988da831153b5,
  0x983e5152ee66dfab, 0xa831c66d2db43210, 0xb00327c898fb213f, 0xbf597fc7beef0ee4,
  0xc6e00bf33da88fc2, 0xd5a79147930aa725, 0x06ca6351e003826f, 0x142929670a0e6e70,
  0x27b70a8546d22ffc, 0x2e1b21385c26c926, 0x4d2c6dfc5ac42aed, 0x53380d139d95b3df,
  0x650a73548baf63de, 0x766a0abb3c77b2a8, 0x81c2c92e47edaee6, 0x92722c851482353b,
  0xa2bfe8a14cf10364, 0xa81a664bbc423001, 0xc24b8b70d0f89791, 0xc76c51a30654be30,
  0xd192e819d6ef5218, 0xd69906245565a910, 0xf40e35855771202a, 0x106aa07032bbd1b8,
  0x19a4c116b8d2d0c8, 0x1e376c085141ab53, 0x2748774cdf8eeb99, 0x34b0bcb5e19b48a8,
  0x391c0cb3c5c95a63, 0x4ed8aa4ae3418acb, 0x5b9cca4f7763e373, 0x682e6ff3d6b2b8a3,
  0x748f82ee5defb2fc, 0x78a5636f43172f60, 0x84c87814a1f0ab72, 0x8cc702081a6439ec,
  0x90befffa23631e28, 0xa4506cebde82bde9, 0xbef9a3f7b2c67915, 0xc67178f2e372532b,
  0xca273eceea26619c, 0xd186b8c721c0c207, 0xeada7dd6cde0eb1e, 0xf57d4f7fee6ed178,
  0x06f067aa72176fba, 0x0a637dc5a2c898a6, 0x113f9804bef90dae, 0x1b710b35131c471b,
  0x28db77f523047d84, 0x32caab7b40c72493, 0x3c9ebe0a15c9bebc, 0x431d67c49c100d4c,
  0x4cc5d4becb3e42b6, 0x597f299cfc657e2a, 0x5fcb6fab3ad6faec, 0x6c44198c4a475817]

def smallSigma0 (x : ℕ) : ℕ := rotr x 1 ^^^ rotr x 8 ^^^ (x >>> 7)

def smallSigma1 (x : ℕ) : ℕ := rotr x 19 ^^^ rotr x 61 ^^^ (x >>> 6)

def bigSigma0 (x : ℕ) : ℕ := rotr x 28 ^^^ rotr x 34 ^^^ rotr x 39

def bigSigma1 (x : ℕ) : ℕ := rotr x 14 ^^^ rotr x 18 ^^^ rotr x 41

def choose (e f g : ℕ) : ℕ := (e &&& f) ^^^ ((2 ^ 64 - 1 - e) &&& g)

def initialRegs : Regs :=
  ⟨0x6a09e667f3bcc908, 0xbb67ae8584caa73b, 0x3c6ef372fe94f82b, 0xa54ff53a5f1d36f1,
    0x510e527fade682d1, 0x9b05688c2b3e6c1f, 0x1f83d9abfb41bd6b, 0x5be0cd19137e2179⟩

def round (s : Regs) (k w : ℕ) : Regs :=
  let t1 := s.h + bigSigma1 s.e + choose s.e s.f s.g + k + w
  let t2 := bigSigma0 s.a + Sha256.majority s.a s.b s.c
  ⟨(t1 + t2) % 2 ^ 64, s.a, s.b, s.c, (s.d + t1) % 2 ^ 64, s.e, s.f, s.g⟩

def rounds : List ℕ → List ℕ → Regs → Regs
  | [], _, s => s
  | _ :: _, [], s => s
  | k :: ks, w :: rest, s =>
    let next := (smallSigma1 (rest.getD 13 0) + rest.getD 8 0 + smallSigma0 (rest.getD 0 0) + w)
      % 2 ^ 64
    rounds ks (rest ++ [next]) (round s k w)

def addRegs (x y : Regs) : Regs :=
  ⟨(x.a + y.a) % 2 ^ 64, (x.b + y.b) % 2 ^ 64, (x.c + y.c) % 2 ^ 64, (x.d + y.d) % 2 ^ 64,
    (x.e + y.e) % 2 ^ 64, (x.f + y.f) % 2 ^ 64, (x.g + y.g) % 2 ^ 64, (x.h + y.h) % 2 ^ 64⟩

def words : List ℕ → List ℕ
  | hi :: lo :: rest => (hi * 2 ^ 32 + lo) :: words rest
  | _ => []

def compress : ℕ → Bytes → Regs → Regs
  | 0, _, s => s
  | n + 1, bs, s =>
    compress n (bs.drop 128)
      (addRegs s (rounds roundConstants (words (Sha256.words (bs.take 128))) s))

def pad (m : Bytes) : Bytes :=
  m ++ byte 0x80 :: List.replicate ((239 - m.length % 128) % 128) 0 ++ toBytesBig 16 (8 * m.length)

def output (s : Regs) : Bytes :=
  toBytesBig 8 s.a ++ toBytesBig 8 s.b ++ toBytesBig 8 s.c ++ toBytesBig 8 s.d ++
    toBytesBig 8 s.e ++ toBytesBig 8 s.f ++ toBytesBig 8 s.g ++ toBytesBig 8 s.h

def sha512 (m : Bytes) : Bytes := output (compress ((pad m).length / 128) (pad m) initialRegs)

set_option maxRecDepth 10000 in
example : hex (sha512 [97, 98, 99]) = lit
    ['d', 'd', 'a', 'f', '3', '5', 'a', '1', '9', '3', '6', '1', '7', 'a', 'b', 'a',
     'c', 'c', '4', '1', '7', '3', '4', '9', 'a', 'e', '2', '0', '4', '1', '3', '1',
     '1', '2', 'e', '6', 'f', 'a', '4', 'e', '8', '9', 'a', '9', '7', 'e', 'a', '2',
     '0', 'a', '9', 'e', 'e', 'e', 'e', '6', '4', 'b', '5', '5', 'd', '3', '9', 'a',
     '2', '1', '9', '2', '9', '9', '2', 'a', '2', '7', '4', 'f', 'c', '1', 'a', '8',
     '3', '6', 'b', 'a', '3', 'c', '2', '3', 'a', '3', 'f', 'e', 'e', 'b', 'b', 'd',
     '4', '5', '4', 'd', '4', '4', '2', '3', '6', '4', '3', 'c', 'e', '8', '0', 'e',
     '2', 'a', '9', 'a', 'c', '9', '4', 'f', 'a', '5', '4', 'c', 'a', '4', '9', 'f'] := by
  decide

end Sha512

/-!
## HMAC with SHA-256

`hmac.new(key, message, hashlib.sha256)`; a block has 64 bytes.
-/

namespace Hmac
open PyStr PyBytes Sha256

def blockKey (key : Bytes) : Bytes :=
  let short := if 64 < key.length then (sha256 key).bytes else key
  short ++ List.replicate (64 - short.length) 0

def mask (n : ℕ) (key : Bytes) : Bytes := key.map fun b => byte (b.val ^^^ n)

def hmacSha256 (key message : Bytes) : Digest :=
  sha256 (mask 0x5c (blockKey key) ++ (sha256 (mask 0x36 (blockKey key) ++ message)).bytes)

def innerInput (key message : Bytes) : Bytes := mask 0x36 (blockKey key) ++ message

def outerInput (key message : Bytes) : Bytes :=
  mask 0x5c (blockKey key) ++ (sha256 (innerInput key message)).bytes

def inputs (key message : Bytes) : List Bytes := [innerInput key message, outerInput key message]

theorem hmacSha256_inj {used : Set Bytes} (hinj : Set.InjOn sha256 used) {key message message' : Bytes}
    (hused : ∀ x ∈ inputs key message, x ∈ used) (hused' : ∀ x ∈ inputs key message', x ∈ used)
    (h : hmacSha256 key message = hmacSha256 key message') : message = message' := by
  obtain ⟨hinner, houter⟩ := List.forall_mem_cons.mp hused
  obtain ⟨hinner', houter'⟩ := List.forall_mem_cons.mp hused'
  have hbytes := hinj (houter _ List.mem_cons_self) (houter' _ List.mem_cons_self) h
  have hdigest := Digest.ext_bytes _ _ (List.append_cancel_left hbytes)
  exact List.append_cancel_left (hinj hinner hinner' hdigest)

set_option maxRecDepth 10000 in
example : (hex (hmacSha256 (List.replicate 20 0x0b) [72, 105, 32, 84, 104, 101, 114, 101]).bytes).take 8 =
    lit ['b', '0', '3', '4', '4', 'c', '6', '1'] := by
  decide

end Hmac
