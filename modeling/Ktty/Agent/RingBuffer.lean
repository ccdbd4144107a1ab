import Ktty.Wire.Json

/-!
# Ring buffer

`ring_buffer.rs`: the queue of recent packets, bounded by the sum of their sizes. `push` appends and
then evicts from the front while the byte count is above the bound; `packetsSince` filters by sequence
number and reports the gap in front of the oldest packet.

What `push` keeps is a suffix of the packets with the new one behind them (`push_buf`).
-/

set_option autoImplicit false

namespace Ktty.Agent

open Ktty.Wire

/-- `RING_BUFFER_SIZE`: 2 MB. -/
def RING_BUFFER_SIZE : Nat := 2 * 1024 * 1024

structure Packet where
  seq : Nat
  msgType : Text
  payload : Bytes
  deriving DecidableEq

/-- `byte_size`: type, payload and 16 bytes of overhead. -/
def Packet.byteSize (p : Packet) : Nat := byteLen p.msgType + p.payload.length + 16

structure RingBuffer where
  buf : List Packet
  maxBytes : Nat
  currentBytes : Nat
  deriving DecidableEq

namespace RingBuffer

def new : RingBuffer := { buf := [], maxBytes := RING_BUFFER_SIZE, currentBytes := 0 }

/-- The eviction loop of `push`: pop the oldest packet while the byte count exceeds the bound. -/
def evict (maxBytes : Nat) : List Packet → Nat → List Packet × Nat
  | [], current => ([], current)
  | old :: rest, current =>
      -- the packet just pushed goes as well when it is above the bound alone:
      if maxBytes < current then evict maxBytes rest (current - old.byteSize)
      else (old :: rest, current)

def push (rb : RingBuffer) (packet : Packet) : RingBuffer :=
  let r := evict rb.maxBytes (rb.buf ++ [packet]) (rb.currentBytes + packet.byteSize)
  { rb with buf := r.1, currentBytes := r.2 }

def oldestSeq (rb : RingBuffer) : Option Nat := rb.buf.head?.map (·.seq)

/-- `last_seq + 1` on a `u64` in a release build, where the addition wraps. -/
def u64Succ (n : Nat) : Nat := (n + 1) % 2 ^ 64

/-- The packets after `lastSeq` and the range of dropped numbers in front of the oldest packet. -/
def packetsSince (rb : RingBuffer) (lastSeq : Nat) : List Packet × Option (Nat × Nat) :=
  let dropped :=
    match rb.oldestSeq with
    | some oldest => if u64Succ lastSeq < oldest then some (u64Succ lastSeq, oldest - 1) else none
    | none => none
  (rb.buf.filter fun p => lastSeq < p.seq, dropped)

def clear (rb : RingBuffer) : RingBuffer := { rb with buf := [], currentBytes := 0 }

/-! ## What `push` keeps -/

theorem evict_suffix (maxBytes : Nat) (l : List Packet) (current : Nat) :
    (evict maxBytes l current).1 <:+ l := by
  induction l generalizing current with
  | nil => exact List.suffix_refl []
  | cons old rest ih =>
    rw [evict]
    split
    · exact (ih _).trans (List.suffix_cons old rest)
    · exact List.suffix_refl _

/-- `push` keeps a suffix of the packets with the new one behind them. -/
theorem push_buf (rb : RingBuffer) (packet : Packet) :
    (rb.push packet).buf <:+ rb.buf ++ [packet] :=
  evict_suffix _ _ _

/-! ## The byte count -/

/-- The bytes of a list of packets. -/
def bytesOf (l : List Packet) : Nat := (l.map Packet.byteSize).sum

/-- The counter is the size of the contents. -/
def Sized (rb : RingBuffer) : Prop := rb.currentBytes = bytesOf rb.buf

theorem sized_new : new.Sized := rfl

/-- Eviction keeps the count right, and it stops before a last packet that fits. -/
theorem evict_last (maxBytes : Nat) (l : List Packet) {p : Packet} (hp : p.byteSize ≤ maxBytes) :
    (evict maxBytes (l ++ [p]) (bytesOf (l ++ [p]))).2 =
        bytesOf (evict maxBytes (l ++ [p]) (bytesOf (l ++ [p]))).1 ∧
      (evict maxBytes (l ++ [p]) (bytesOf (l ++ [p]))).1 ≠ [] := by
  induction l with
  | nil =>
    have hsize : bytesOf ([] ++ [p]) = p.byteSize := by simp [bytesOf]
    have hkeep : ¬ maxBytes < p.byteSize := by omega
    -- alone in the buffer, a packet that fits is not evicted
    rw [hsize, List.nil_append, evict, if_neg hkeep]
    refine ⟨by simp [bytesOf], List.cons_ne_nil _ _⟩
  | cons old rest ih =>
    rw [List.cons_append, evict]
    -- the count of the list splits off its oldest packet:
    have hcons : bytesOf (old :: (rest ++ [p])) = old.byteSize + bytesOf (rest ++ [p]) := by
      rw [bytesOf, List.map_cons, List.sum_cons, ← bytesOf]
    split
    · -- the oldest packet is evicted, and its size is taken off the count
      rw [hcons, Nat.add_sub_cancel_left]
      exact ih
    · exact ⟨rfl, List.cons_ne_nil _ _⟩

/-- A packet that fits stays in the buffer when it is pushed, and the count stays right. -/
theorem push_sized {rb : RingBuffer} (h : rb.Sized) {packet : Packet}
    (hp : packet.byteSize ≤ rb.maxBytes) : (rb.push packet).Sized ∧ (rb.push packet).buf ≠ [] := by
  have hcount : rb.currentBytes + packet.byteSize = bytesOf (rb.buf ++ [packet]) := by
    rw [h, bytesOf, bytesOf, List.map_append, List.sum_append]
    simp
  have hlast := evict_last rb.maxBytes rb.buf hp
  rw [← hcount] at hlast
  exact hlast

/-! ## Consecutive numbers -/

/-- The packets are numbered consecutively from `first` on. -/
def Block (first : Nat) (l : List Packet) : Prop := l.map Packet.seq = List.range' first l.length

section Block

variable {first d n : Nat} {l : List Packet} {rb : RingBuffer}

theorem block_cons {p : Packet} : Block first (p :: l) ↔ p.seq = first ∧ Block (first + 1) l := by
  simp [Block, List.range'_succ]

theorem Block.drop (h : Block first l) (d : Nat) : Block (first + d) (l.drop d) := by
  rw [Block, List.map_drop, h, List.length_drop, List.drop_range', Nat.mul_one]

theorem Block.mem_seq (h : Block first l) :
    n ∈ l.map Packet.seq ↔ first ≤ n ∧ n < first + l.length := by
  rw [h, List.mem_range'_1]

theorem Block.increasing (h : Block first l) : (l.map Packet.seq).Pairwise (· < ·) := by
  rw [h]
  exact List.pairwise_lt_range'

/-- The packets above `n` are what is left behind the first ones. -/
theorem Block.filter (h : Block first l) (n : Nat) :
    l.filter (fun p => n < p.seq) = l.drop (n + 1 - first) := by
  induction l generalizing first with
  | nil => simp
  | cons p l ih =>
      obtain ⟨hp, hl⟩ := block_cons.1 h
      rw [List.filter_cons, ih hl]
      by_cases hlt : n < p.seq
      · -- with the first packet all of them are above `n`
        rw [if_pos (decide_eq_true hlt), show n + 1 - first = 0 by omega,
          show n + 1 - (first + 1) = 0 by omega, List.drop_zero, List.drop_zero]
      · rw [if_neg (by simpa using hlt), show n + 1 - first = n + 1 - (first + 1) + 1 by omega,
          List.drop_succ_cons]

theorem Block.oldestSeq (h : Block first rb.buf) (hne : rb.buf ≠ []) :
    rb.oldestSeq = some first := by
  obtain ⟨p, rest, hbuf⟩ := List.exists_cons_of_ne_nil hne
  rw [hbuf, block_cons] at h
  simp [RingBuffer.oldestSeq, hbuf, h.1]

/-- The answer of a buffer that holds the packets behind the first `d`: what it holds above `n`, and
the numbers in between as dropped. -/
theorem Block.packetsSince (h : Block (d + 1) rb.buf) (hne : rb.buf ≠ []) (hn : n + 1 < 2 ^ 64) :
    rb.packetsSince n = (rb.buf.drop (n - d), if n < d then some (n + 1, d) else none) := by
  have hsucc : u64Succ n = n + 1 := Nat.mod_eq_of_lt hn
  have hgap : (n + 1 < d + 1) = (n < d) := by simp
  rw [RingBuffer.packetsSince, h.oldestSeq hne, h.filter n, hsucc]
  simp only [hgap, Nat.add_sub_cancel, Nat.add_sub_add_right]

end Block

end RingBuffer

end Ktty.Agent
