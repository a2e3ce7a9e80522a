/-! # Random draws

A random source gives three kinds of draws: a coin, a fraction in `[0, 1)` and a number below a
positive bound.  `RandomSource` asks no more of them, so what is proved of a search that draws from
one holds for every source.

Every stream of 32-bit words is a random source: a coin is the top bit of a word, a fraction has
53 bits of a word pair, and a number below `n` is the high half of `word * n`, with one more word
drawn to correct it when the low half is too close to its end.

There are two streams.  `ChaCha` has the words of the blocks number 0, 1, 2, … of the ChaCha
function with four double rounds; its key is spread from a 64-bit seed by a small linear generator,
and the nonce is zero.  `Replay` repeats a fixed list of words for ever. -/

namespace Clausal

/-! ### Sources -/

/-- A state from which random values can be drawn, each draw giving the next state. -/
class RandomSource (σ : Type) where
  coin : σ → Bool × σ
  /-- A number that is at least zero and less than one. -/
  fraction : σ → Float × σ
  below : (n : Nat) → 0 < n → σ → Fin n × σ

/-- A stream of 32-bit words. -/
class WordStream (σ : Type) where
  next : σ → UInt32 × σ

namespace WordStream

variable {σ : Type} [WordStream σ]

/-- Two words, the low half first. -/
def next64 (g : σ) : UInt64 × σ :=
  let (low, g) := next g
  let (high, g) := next g
  (high.toUInt64 <<< 32 ||| low.toUInt64, g)

def coin (g : σ) : Bool × σ :=
  let (w, g) := next g
  (w >>> 31 == 1, g)

/-- The upper 53 bits of a word pair as a fraction. -/
def fraction (g : σ) : Float × σ :=
  let (w, g) := next64 g
  ((w >>> 11).toFloat * Float.scaleB 1 (-53), g)

/-- The number of values of a word. -/
def wordCount : Nat := 4294967296

theorem scaled_lt {n : Nat} (hn : 0 < n) (w : UInt32) : w.toNat * n / wordCount < n := by
  rw [Nat.div_lt_iff_lt_mul (by decide), Nat.mul_comm n]
  exact Nat.mul_lt_mul_of_pos_right w.toNat_lt hn

/-- The correction does not lead out of the range. -/
theorem scaled_succ_lt {n : Nat} (hn : 0 < n) (w : UInt32)
    (h : wordCount < w.toNat * n % wordCount + n) : w.toNat * n / wordCount + 1 < n := by
  have hlt := scaled_lt hn w
  have hdiv := Nat.div_add_mod (w.toNat * n) wordCount
  have hw : (w.toNat + 1) * n ≤ wordCount * n := Nat.mul_le_mul_right n w.toNat_lt
  rw [Nat.add_mul, Nat.one_mul] at hw
  refine Nat.lt_of_le_of_ne hlt fun heq => ?_
  have hmul : wordCount * n = wordCount * (w.toNat * n / wordCount) + wordCount := by
    rw [← Nat.mul_add_one, heq]
  omega

/-- A number below `n`: the high half of `word * n`, and one more where the low half of a second
product carries over. -/
def below (n : Nat) (hn : 0 < n) (g : σ) : Fin n × σ :=
  let (w, g) := next g
  if h : wordCount < w.toNat * n % wordCount + n then
    let (u, g) := next g
    if wordCount ≤ w.toNat * n % wordCount + u.toNat * n / wordCount then
      (⟨w.toNat * n / wordCount + 1, scaled_succ_lt hn w h⟩, g)
    else (⟨w.toNat * n / wordCount, scaled_lt hn w⟩, g)
  else (⟨w.toNat * n / wordCount, scaled_lt hn w⟩, g)

end WordStream

instance {σ : Type} [WordStream σ] : RandomSource σ where
  coin := WordStream.coin
  fraction := WordStream.fraction
  below := WordStream.below

/-! ### The ChaCha stream with eight rounds -/

/-- A place in the ChaCha stream of a key. -/
structure ChaCha where
  key : Vector UInt32 8
  /-- Number of the block after the pending words. -/
  counter : UInt64
  /-- Words of the last block that have not been drawn. -/
  pending : List UInt32

namespace ChaCha

def rotateLeft (w : UInt32) (n : UInt32) : UInt32 := w <<< n ||| w >>> (32 - n)

/-- Mix four words of a block. -/
def quarterRound (v : Vector UInt32 16) (a b c d : Fin 16) : Vector UInt32 16 :=
  let v := v.set a (v[a] + v[b])
  let v := v.set d (rotateLeft (v[d] ^^^ v[a]) 16)
  let v := v.set c (v[c] + v[d])
  let v := v.set b (rotateLeft (v[b] ^^^ v[c]) 12)
  let v := v.set a (v[a] + v[b])
  let v := v.set d (rotateLeft (v[d] ^^^ v[a]) 8)
  let v := v.set c (v[c] + v[d])
  v.set b (rotateLeft (v[b] ^^^ v[c]) 7)

/-- A round over the columns of the block and a round over its diagonals. -/
def doubleRound (v : Vector UInt32 16) : Vector UInt32 16 :=
  let v := quarterRound v 0 4 8 12
  let v := quarterRound v 1 5 9 13
  let v := quarterRound v 2 6 10 14
  let v := quarterRound v 3 7 11 15
  let v := quarterRound v 0 5 10 15
  let v := quarterRound v 1 6 11 12
  let v := quarterRound v 2 7 8 13
  quarterRound v 3 4 9 14

/-- The block of a key and a counter. -/
def block (key : Vector UInt32 8) (counter : UInt64) : Vector UInt32 16 :=
  let constants : Vector UInt32 4 := #v[0x61707865, 0x3320646e, 0x79622d32, 0x6b206574]
  let tail : Vector UInt32 4 := #v[counter.toUInt32, (counter >>> 32).toUInt32, 0, 0]
  let start : Vector UInt32 16 := constants ++ key ++ tail
  let mixed := doubleRound (doubleRound (doubleRound (doubleRound start)))
  mixed.zipWith (· + ·) start

/-- Words of the key, spread from the state `s` of the linear generator. -/
def keyWords : Nat → UInt64 → List UInt32
  | 0, _ => []
  | n + 1, s =>
      let s := s * 6364136223846793005 + 11634580027462260723
      let mixed := (((s >>> 18) ^^^ s) >>> 27).toUInt32
      let turn := (s >>> 59).toUInt32
      (mixed >>> turn ||| mixed <<< ((32 - turn) % 32)) :: keyWords n s

theorem length_keyWords (n : Nat) (s : UInt64) : (keyWords n s).length = n := by
  induction n generalizing s with
  | zero => rfl
  | succ n ih => rw [keyWords, List.length_cons, ih]

/-- The beginning of the stream of a seed. -/
def ofSeed (seed : UInt64) : ChaCha where
  key := ⟨(keyWords 8 seed).toArray, by rw [List.size_toArray, length_keyWords]⟩
  counter := 0
  pending := []

instance : WordStream ChaCha where
  next g :=
    match g.pending with
    | w :: ws => (w, { g with pending := ws })
    | [] =>
        let v := block g.key g.counter
        (v[0], { g with counter := g.counter + 1, pending := v.toList.tail })

end ChaCha

/-! ### Replayed words -/

/-- A list of words that is read round and round. -/
structure Replay where
  words : Array UInt32
  /-- Number of words drawn so far. -/
  drawn : Nat

/-- The replay of a list before its first word. -/
def Replay.ofList (ws : List UInt32) : Replay := ⟨ws.toArray, 0⟩

instance : WordStream Replay where
  next g := (g.words.getD (g.drawn % g.words.size) 0, { g with drawn := g.drawn + 1 })

end Clausal
