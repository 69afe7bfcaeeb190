import Sodex.CtrMode
import Mathlib.Tactic.IntervalCases

/-!
# The random generator of `ssh_crypto.c`

Each block of 32 bytes is the keystream of AES-CTR under a counter that comes from the
seed by exclusive-or with the number of the call, and it takes two counters. The state
records the counters that have been encrypted; the source has no such field.
-/
namespace Sodex.Ssh.Random

open CtrMode List

def SSH_CRYPTO_SEED_BYTES : ℕ := 32
def SSH_RANDOM_BLOCK_BYTES : ℕ := 32

/-- `struct ssh_random_state`, with the counters encrypted so far. -/
structure RandomState where
  seed : ℕ → UInt8
  counter : UInt32
  seeded : Bool
  literalPending : Bool
  literalSeed : ℕ → UInt8
  used : List (BitVec 128)

/-- AES under a key of 16 bytes: the cipher text byte by byte. -/
abbrev Aes := (ℕ → UInt8) → BitVec 128 → ℕ → UInt8

/-- The counter of 16 bytes, most significant byte first. -/
def ofBytes (bytes : List UInt8) : ℕ := bytes.foldl (fun acc b => acc * 256 + b.toNat) 0

/-- The start counter of a block in bytes: the second half of the seed, its last four
bytes combined with the number of the call. -/
def ivBytes (seed : ℕ → UInt8) (counter : UInt32) : ℕ → UInt8 :=
  let iv : ℕ → UInt8 := fun i => seed (16 + i)
  let iv := Function.update iv 12 (iv 12 ^^^ (counter >>> 24).toUInt8)
  let iv := Function.update iv 13 (iv 13 ^^^ (counter >>> 16).toUInt8)
  let iv := Function.update iv 14 (iv 14 ^^^ (counter >>> 8).toUInt8)
  Function.update iv 15 (iv 15 ^^^ counter.toUInt8)

def blockIv (seed : ℕ → UInt8) (counter : UInt32) : BitVec 128 :=
  BitVec.ofNat 128 (ofBytes ((range 16).map (ivBytes seed counter)))

def randomBlock (aes : Aes) (st : RandomState) : List UInt8 × RandomState :=
  let iv := blockIv st.seed st.counter
  let out := replicate SSH_RANDOM_BLOCK_BYTES 0
  ((xcrypt (aes st.seed) iv out).1,
    { st with counter := st.counter + 1,
              used := st.used ++ counters iv SSH_RANDOM_BLOCK_BYTES })

def randomSeed (st : RandomState) (seed : ℕ → UInt8) : RandomState :=
  { st with seed := seed, counter := 0, seeded := true, literalPending := false, used := [] }

/-- The loop of `randombytes`, one block a turn until nothing is missing. -/
def fillLoop (aes : Aes) : ℕ → RandomState → ℕ → List UInt8 × RandomState
  | 0, st, _ => ([], st)
  | fuel + 1, st, missing =>
    if missing = 0 then ([], st)
    else
      let block := randomBlock aes st
      let copyLen := min missing SSH_RANDOM_BLOCK_BYTES
      let rest := fillLoop aes fuel block.2 (missing - copyLen)
      (block.1.take copyLen ++ rest.1, rest.2)

/-- `randombytes` into a buffer that is not null. -/
def randombytes (aes : Aes) (st : RandomState) (len : ℕ) : List UInt8 × RandomState :=
  if !st.seeded then (replicate len 0, st)
  else if st.literalPending then
    let copyLen := min len SSH_CRYPTO_SEED_BYTES
    let rest := fillLoop aes len { st with literalPending := false } (len - copyLen)
    ((range copyLen).map st.literalSeed ++ rest.1, rest.2)
  else fillLoop aes len st len

def randomFill (aes : Aes) (st : RandomState) (len : ℕ) : List UInt8 × RandomState :=
  randombytes aes st len

/-- A sequence of requests; the outputs are dropped. -/
def fillAll (aes : Aes) (st : RandomState) (requests : List ℕ) : RandomState :=
  requests.foldl (fun st len => (randomFill aes st len).2) st

section Counters

variable {aes : Aes} {st : RandomState}

/-- Blocks that a request of `len` bytes needs. -/
def blocksFor (len : ℕ) : ℕ := (len + 31) / 32

/-- The counters of block number `k`. -/
def pair (seed : ℕ → UInt8) (k : UInt32) : List (BitVec 128) := [blockIv seed k, blockIv seed k + 1]

/-- The counters of the first `n` blocks. -/
def pairs (seed : ℕ → UInt8) (n : ℕ) : List (BitVec 128) :=
  (range n).flatMap fun k => pair seed k.toUInt32

theorem pairs_succ (seed : ℕ → UInt8) (n : ℕ) :
    pairs seed (n + 1) = pairs seed n ++ pair seed n.toUInt32 := by
  simp [pairs, range_succ]

/-- The state after `n` blocks since the seed. -/
structure Produced (seed : ℕ → UInt8) (n : ℕ) (st : RandomState) : Prop where
  seed_eq : st.seed = seed
  seeded : st.seeded = true
  literal : st.literalPending = false
  counter : st.counter = n.toUInt32
  used : st.used = pairs seed n

variable {seed : ℕ → UInt8} {n : ℕ}

theorem produced_seed (st : RandomState) (seed : ℕ → UInt8) :
    Produced seed 0 (randomSeed st seed) := ⟨rfl, rfl, rfl, rfl, rfl⟩

theorem counters_block (iv : BitVec 128) : counters iv SSH_RANDOM_BLOCK_BYTES = [iv, iv + 1] := by
  simp [counters, blocks, SSH_RANDOM_BLOCK_BYTES, range_succ]

theorem Produced.block (aes : Aes) (h : Produced seed n st) :
    Produced seed (n + 1) (randomBlock aes st).2 := by
  constructor
  · exact h.seed_eq
  · exact h.seeded
  · exact h.literal
  · show st.counter + 1 = (n + 1).toUInt32
    rw [h.counter]
    apply UInt32.toNat_inj.mp
    simp
  · show st.used ++ counters (blockIv st.seed st.counter) SSH_RANDOM_BLOCK_BYTES = _
    rw [h.used, h.seed_eq, h.counter, counters_block, pairs_succ]
    rfl

theorem Produced.loop (aes : Aes) (fuel missing : ℕ) (hfuel : missing ≤ fuel) (h : Produced seed n st) :
    Produced seed (n + blocksFor missing) (fillLoop aes fuel st missing).2 := by
  induction fuel generalizing n st missing with
  | zero =>
    obtain rfl : missing = 0 := by omega
    exact h
  | succ fuel ih =>
    unfold fillLoop
    by_cases hzero : missing = 0
    · subst hzero
      exact h
    · rw [if_neg hzero]
      have hrest := ih (missing - min missing SSH_RANDOM_BLOCK_BYTES)
        (by simp only [SSH_RANDOM_BLOCK_BYTES]; omega) (h.block aes)
      have hcount : n + 1 + blocksFor (missing - min missing SSH_RANDOM_BLOCK_BYTES) =
          n + blocksFor missing := by
        simp only [blocksFor, SSH_RANDOM_BLOCK_BYTES]
        omega
      rw [hcount] at hrest
      exact hrest

theorem Produced.fill (aes : Aes) (h : Produced seed n st) (len : ℕ) :
    Produced seed (n + blocksFor len) (randomFill aes st len).2 := by
  unfold randomFill randombytes
  simp only [h.seeded, h.literal]
  exact h.loop aes len len (le_refl len)

theorem Produced.fillAll (aes : Aes) (requests : List ℕ) (h : Produced seed n st) :
    Produced seed (n + (requests.map blocksFor).sum) (fillAll aes st requests) := by
  induction requests generalizing n st with
  | nil => exact h
  | cons len requests ih =>
    have hrest := ih (h.fill aes len)
    rw [map_cons, sum_cons, ← Nat.add_assoc]
    exact hrest

theorem ofBytes_append (bytes : List UInt8) (b : UInt8) :
    ofBytes (bytes ++ [b]) = ofBytes bytes * 256 + b.toNat := by
  simp [ofBytes]

theorem blockIv_eq (seed : ℕ → UInt8) (counter : UInt32) :
    blockIv seed counter = BitVec.ofNat 128 (ofBytes ((range 15).map (ivBytes seed counter)) *
      256 + (ivBytes seed counter 15).toNat) := by
  rw [blockIv, range_succ, map_append, map_singleton, ofBytes_append]

/-- The call numbers 0 and 1 leave all bytes but the lowest one alone. -/
theorem ivBytes_of_lt {counter : UInt32} (h : counter = 0 ∨ counter = 1) {i : ℕ} (hi : i < 15) :
    ivBytes seed counter i = seed (16 + i) := by
  have hzero : (counter >>> 24).toUInt8 = 0 ∧ (counter >>> 16).toUInt8 = 0 ∧
      (counter >>> 8).toUInt8 = 0 := by
    rcases h with rfl | rfl <;> decide
  obtain ⟨h₀, h₁, h₂⟩ := hzero
  unfold ivBytes
  simp only [h₀, h₁, h₂, UInt8.xor_zero, Function.update_apply]
  split_ifs <;> simp_all

theorem ivBytes_last (seed : ℕ → UInt8) (counter : UInt32) :
    ivBytes seed counter 15 = seed 31 ^^^ counter.toUInt8 := by
  simp [ivBytes]

/-- Flipping the lowest bit of a byte is a step by one, up or down. -/
theorem xor_one_toNat (b : UInt8) :
    (b ^^^ 1).toNat = b.toNat + 1 ∨ b.toNat = (b ^^^ 1).toNat + 1 := by
  obtain ⟨⟨b⟩⟩ := b
  revert b
  decide +kernel

/-- So the second block starts at the second counter of the first one, or ends at the
first. -/
theorem blocks_zero_one_meet (seed : ℕ → UInt8) :
    blockIv seed 1 = blockIv seed 0 + 1 ∨ blockIv seed 0 = blockIv seed 1 + 1 := by
  have hhigh : (range 15).map (ivBytes seed 1) = (range 15).map (ivBytes seed 0) := by
    apply map_congr_left
    intro i hi
    have hi : i < 15 := mem_range.mp hi
    rw [ivBytes_of_lt (.inr rfl) hi, ivBytes_of_lt (.inl rfl) hi]
  have hlast₀ : ivBytes seed 0 15 = seed 31 := by rw [ivBytes_last]; exact UInt8.xor_zero
  have hlast₁ : ivBytes seed 1 15 = seed 31 ^^^ 1 := ivBytes_last seed 1
  rw [blockIv_eq, blockIv_eq, hhigh, hlast₀, hlast₁]
  rcases xor_one_toNat (seed 31) with h | h
  · left
    rw [h, ← add_assoc, BitVec.ofNat_add]
    rfl
  · right
    rw [h, ← add_assoc, BitVec.ofNat_add]
    rfl

theorem not_nodup_two_pairs (seed : ℕ → UInt8) : ¬(pair seed 0 ++ pair seed 1).Nodup := by
  rcases blocks_zero_one_meet seed with h | h
  · simp [pair, h]
  · simp [pair, h]

/-- The counters of the first two blocks are among those of `n ≥ 2` blocks. -/
theorem pairs_two_sublist {n : ℕ} (hn : 2 ≤ n) :
    (pair seed 0 ++ pair seed 1).Sublist (pairs seed n) := by
  induction n, hn using Nat.le_induction with
  | base => exact List.Sublist.refl _
  | succ n _ ih =>
    rw [pairs_succ]
    exact ih.trans (sublist_append_left _ _)

/-- The counters encrypted since the seed are pairwise distinct exactly when the requests
together need at most one block. -/
theorem counters_distinct_iff_one_block (aes : Aes) (st : RandomState) (seed : ℕ → UInt8)
    (requests : List ℕ) :
    (fillAll aes (randomSeed st seed) requests).used.Nodup ↔
      (requests.map blocksFor).sum ≤ 1 := by
  have h := (produced_seed st seed).fillAll aes requests
  rw [h.used, zero_add]
  generalize (requests.map blocksFor).sum = n
  constructor
  · intro hnodup
    by_contra hn
    exact not_nodup_two_pairs seed (hnodup.sublist (pairs_two_sublist (by omega)))
  · intro hn
    interval_cases n
    · exact nodup_nil
    · simp [pairs, pair]

/-- Two requests of one byte each: the second block repeats a counter of the first. -/
theorem two_bytes_repeat_counter :
    ¬(fillAll (fun _ _ _ => 0) (randomSeed ⟨fun _ => 0, 0, false, false, fun _ => 0, []⟩
      fun _ => 0) [1, 1]).used.Nodup := by
  decide +kernel

end Counters

end Sodex.Ssh.Random
