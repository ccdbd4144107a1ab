import Ktty.Agent.RingBuffer
import Ktty.Lib.Window

/-!
# What the ring buffer retains

A buffer of any capacity under pushes and clears. `Retains` is the invariant of the buffer: its counter is
the size of what it stores, and what it stores is the window of the pushed packets that fits its
capacity. Every operation keeps it, and the subtractions of the eviction loop never underflow
(`ring_buffer_retains`).

For a stream of packets with the numbers `1, …, n`, the buffer then holds a block of consecutive numbers
that ends at `n`. `HidesNothing` is what a client needs to know about the answer of `packets_since`. It
holds unless `last_seq + 1` overflows or the buffer has evicted the last packet together with all others:
an empty buffer has no oldest number to compare with (`hidesNothing_iff`).
-/

set_option autoImplicit false

namespace Ktty.Agent

open Ktty.Wire Ktty.Lib.Window

/-! ## Operations -/

inductive RingOp where
  | push (packet : Packet)
  | clear

/-- The packets pushed since the last `clear`, oldest first. -/
def RingOp.record (pushed : List Packet) : RingOp → List Packet
  | .push packet => pushed ++ [packet]
  | .clear => []

def pushedBy (ops : List RingOp) : List Packet := ops.foldl RingOp.record []

namespace RingBuffer

/-- A new buffer of the given capacity. -/
def empty (maxBytes : Nat) : RingBuffer := { buf := [], maxBytes := maxBytes, currentBytes := 0 }

def apply (rb : RingBuffer) : RingOp → RingBuffer
  | .push packet => rb.push packet
  | .clear => rb.clear

def run (rb : RingBuffer) (ops : List RingOp) : RingBuffer := ops.foldl apply rb

/-! ## Eviction -/

/-- The subtractions of the eviction loop do not underflow. -/
def EvictsSafely (maxBytes : Nat) : List Packet → Nat → Prop
  | [], _ => True
  | old :: rest, current =>
      maxBytes < current →
        old.byteSize ≤ current ∧ EvictsSafely maxBytes rest (current - old.byteSize)

/-- With the right count, the loop computes the window that fits, and its size. -/
theorem evict_eq_trim (maxBytes : Nat) (l : List Packet) :
    evict maxBytes l (total Packet.byteSize l) =
      (trim Packet.byteSize maxBytes l, total Packet.byteSize (trim Packet.byteSize maxBytes l)) := by
  induction l with
  | nil => rfl
  | cons old rest ih =>
      rw [evict, trim]
      split
      · rw [total_cons, Nat.add_sub_cancel_left]
        exact ih
      · rfl

theorem evictsSafely_total (maxBytes : Nat) (l : List Packet) :
    EvictsSafely maxBytes l (total Packet.byteSize l) := by
  induction l with
  | nil => exact trivial
  | cons old rest ih =>
      intro _
      rw [total_cons, Nat.add_sub_cancel_left]
      exact ⟨Nat.le_add_right _ _, ih⟩

/-! ## The invariant -/

/-- The buffer stores the packets of `pushed` that fit its capacity, and counts their bytes. -/
structure Retains (maxBytes : Nat) (pushed : List Packet) (rb : RingBuffer) : Prop where
  capacity : rb.maxBytes = maxBytes
  count : rb.currentBytes = bytesOf rb.buf
  window : LongestSuffix Packet.byteSize maxBytes pushed rb.buf

section Retains

variable {maxBytes : Nat} {pushed : List Packet} {rb : RingBuffer}

theorem retains_nil (maxBytes : Nat) : Retains maxBytes [] (empty maxBytes) where
  capacity := rfl
  count := rfl
  window := trim_longest Packet.byteSize maxBytes []

/-- The count that a push starts its eviction with. -/
theorem Retains.count_push (h : Retains maxBytes pushed rb) (packet : Packet) :
    rb.currentBytes + packet.byteSize = total Packet.byteSize (rb.buf ++ [packet]) := by
  rw [h.count, total_append, total_cons, total_nil]
  rfl

theorem Retains.push (h : Retains maxBytes pushed rb) (packet : Packet) :
    Retains maxBytes (pushed ++ [packet]) (rb.push packet) := by
  have hevict : evict rb.maxBytes (rb.buf ++ [packet]) (rb.currentBytes + packet.byteSize) = _ :=
    h.count_push packet ▸ evict_eq_trim rb.maxBytes (rb.buf ++ [packet])
  constructor
  · exact h.capacity
  · rw [RingBuffer.push, hevict]
    rfl
  · rw [RingBuffer.push, hevict, h.capacity]
    exact h.window.append (trim_longest _ _ _)

theorem Retains.apply (h : Retains maxBytes pushed rb) (op : RingOp) :
    Retains maxBytes (op.record pushed) (rb.apply op) := by
  cases op with
  | push packet => exact h.push packet
  | clear => exact ⟨h.capacity, rfl, trim_longest _ _ []⟩

theorem Retains.run (h : Retains maxBytes pushed rb) (ops : List RingOp) :
    Retains maxBytes (ops.foldl RingOp.record pushed) (rb.run ops) := by
  induction ops generalizing pushed rb with
  | nil => exact h
  | cons op ops ih => exact ih (h.apply op)

end Retains

/-- After every sequence of operations on a buffer of any capacity the counter is the size of the stored
packets and within the capacity, the stored packets are the longest suffix of the pushed ones that fits,
and no further push underflows. -/
theorem ring_buffer_retains (maxBytes : Nat) (ops : List RingOp) :
    ((empty maxBytes).run ops).currentBytes = bytesOf ((empty maxBytes).run ops).buf ∧
      ((empty maxBytes).run ops).currentBytes ≤ maxBytes ∧
      LongestSuffix Packet.byteSize maxBytes (pushedBy ops) ((empty maxBytes).run ops).buf ∧
      ∀ packet, EvictsSafely maxBytes (((empty maxBytes).run ops).buf ++ [packet])
        (((empty maxBytes).run ops).currentBytes + packet.byteSize) := by
  have h : Retains maxBytes (pushedBy ops) ((empty maxBytes).run ops) := (retains_nil maxBytes).run ops
  refine ⟨h.count, ?_, h.window, fun packet => ?_⟩
  · rw [h.count]
    exact h.window.fits
  · rw [h.count_push packet]
    exact evictsSafely_total maxBytes _

/-! ## A numbered stream -/

/-- The packets of the contents with the numbers `1, 2, …`. -/
def numbered (contents : List (Text × Bytes)) : List Packet :=
  contents.mapIdx fun i c => { seq := i + 1, msgType := c.1, payload := c.2 }

/-- The buffer into which they have been pushed. -/
def filled (maxBytes : Nat) (contents : List (Text × Bytes)) : RingBuffer :=
  (empty maxBytes).run ((numbered contents).map .push)

/-- A pushed number that is no longer in the buffer. -/
def Evicted (rb : RingBuffer) (n seq : Nat) : Prop :=
  1 ≤ seq ∧ seq ≤ n ∧ seq ∉ rb.buf.map Packet.seq

/-- The answer for `lastSeq` after the numbers `1, …, n`: the sum does not overflow, the packets are the
stored ones above `lastSeq` in their order, and the dropped range is the evicted numbers above
`lastSeq`, missing only if there are none. -/
structure HidesNothing (rb : RingBuffer) (n lastSeq : Nat) : Prop where
  /-- `last_seq + 1` is evaluated when there is an oldest packet. -/
  noOverflow : rb.oldestSeq.isSome = true → lastSeq + 1 < 2 ^ 64
  increasing : ((rb.packetsSince lastSeq).1.map Packet.seq).Pairwise (· < ·)
  packets : ∀ p, p ∈ (rb.packetsSince lastSeq).1 ↔ p ∈ rb.buf ∧ lastSeq < p.seq
  none_dropped : (rb.packetsSince lastSeq).2 = none → ∀ seq, Evicted rb n seq → seq ≤ lastSeq
  dropped : ∀ start stop, (rb.packetsSince lastSeq).2 = some (start, stop) →
    ∀ seq, (start ≤ seq ∧ seq ≤ stop ↔ Evicted rb n seq ∧ lastSeq < seq)

/-- The condition on the contents and the request: `last_seq + 1` fits a `u64` if the last packet fits
the buffer, and without a last packet that fits everything asked for lies ahead. -/
def Reportable (maxBytes : Nat) (contents : List (Text × Bytes)) (lastSeq : Nat) : Prop :=
  if ∃ p ∈ (numbered contents).getLast?, p.byteSize ≤ maxBytes then lastSeq + 1 < 2 ^ 64
  else contents.length ≤ lastSeq

section Numbered

variable (maxBytes : Nat) (contents : List (Text × Bytes))

theorem length_numbered : (numbered contents).length = contents.length := by
  rw [numbered, List.length_mapIdx]

theorem block_numbered : Block 1 (numbered contents) := by
  apply List.ext_getElem
  · simp
  · intro i hi hi'
    simp [numbered, Nat.add_comm]

theorem pushedBy_map_push (l : List Packet) : pushedBy (l.map .push) = l := by
  have hfold : ∀ (l pushed : List Packet), (l.map RingOp.push).foldl RingOp.record pushed =
      pushed ++ l := by
    intro l
    induction l with
    | nil => intro pushed; simp
    | cons p l ih => intro pushed; simp [RingOp.record, ih]
  exact hfold l []

theorem retains_filled : Retains maxBytes (numbered contents) (filled maxBytes contents) := by
  have h := (retains_nil maxBytes).run ((numbered contents).map .push)
  have hpushed := pushedBy_map_push (numbered contents)
  rw [pushedBy] at hpushed
  rwa [hpushed] at h

/-- The buffer holds the packets behind the first `d`. -/
theorem exists_block_filled : ∃ d, d ≤ contents.length ∧
    (filled maxBytes contents).buf.length = contents.length - d ∧
    Block (d + 1) (filled maxBytes contents).buf := by
  obtain ⟨older, hsplit⟩ := (retains_filled maxBytes contents).window.suffix
  have hlen : older.length + (filled maxBytes contents).buf.length = contents.length := by
    rw [← List.length_append, hsplit, length_numbered]
  have hbuf : (filled maxBytes contents).buf = (numbered contents).drop older.length := by
    rw [← hsplit, List.drop_left]
  refine ⟨older.length, by omega, by omega, ?_⟩
  rw [hbuf, Nat.add_comm]
  exact (block_numbered contents).drop older.length

/-- The buffer is empty unless the last packet fits. -/
theorem filled_ne_nil_iff : (filled maxBytes contents).buf ≠ [] ↔
    ∃ p ∈ (numbered contents).getLast?, p.byteSize ≤ maxBytes := by
  rw [ne_eq, (retains_filled maxBytes contents).window.eq_nil_iff]
  push Not
  rfl

/-- The evicted numbers are those in front of the block. -/
theorem evicted_iff {rb : RingBuffer} {d n seq : Nat} (h : Block (d + 1) rb.buf) (hd : d ≤ n)
    (hlen : rb.buf.length = n - d) : Evicted rb n seq ↔ 1 ≤ seq ∧ seq ≤ d := by
  rw [Evicted, h.mem_seq, hlen]
  omega

/-- An empty buffer reports nothing, so everything asked for has to lie ahead. -/
theorem hidesNothing_of_nil {rb : RingBuffer} {n lastSeq : Nat} (h : rb.buf = []) :
    HidesNothing rb n lastSeq ↔ n ≤ lastSeq := by
  have hsince : rb.packetsSince lastSeq = ([], none) := by
    simp [packetsSince, oldestSeq, h]
  constructor
  · intro hides
    by_contra hlt
    -- the last number has been evicted
    have hlast : Evicted rb n n := ⟨by omega, le_rfl, by simp [h]⟩
    have hle := hides.none_dropped (by rw [hsince]) n hlast
    omega
  · intro hle
    refine ⟨by simp [oldestSeq, h], by simp [hsince], by simp [hsince, h], ?_, by simp [hsince]⟩
    intro _ seq hseq
    exact hseq.2.1.trans hle

/-- A buffer with packets reports exactly what is lost, if the sum fits. -/
theorem hidesNothing_of_block {rb : RingBuffer} {d n lastSeq : Nat} (h : Block (d + 1) rb.buf)
    (hne : rb.buf ≠ []) (hd : d ≤ n) (hlen : rb.buf.length = n - d) :
    HidesNothing rb n lastSeq ↔ lastSeq + 1 < 2 ^ 64 := by
  constructor
  · intro hides
    apply hides.noOverflow
    rw [h.oldestSeq hne]
    rfl
  · intro hfits
    have hsince := h.packetsSince hne hfits
    refine ⟨fun _ => hfits, ?_, ?_, ?_, ?_⟩
    · rw [hsince]
      exact (h.drop (lastSeq - d)).increasing
    · intro p
      rw [packetsSince, List.mem_filter, decide_eq_true_eq]
    · intro hnone seq hseq
      rw [hsince] at hnone
      rw [evicted_iff h hd hlen] at hseq
      by_contra hlt
      -- an evicted number above the request makes the range
      rw [if_pos (by omega)] at hnone
      cases hnone
    · intro start stop hsome seq
      rw [hsince] at hsome
      rw [evicted_iff h hd hlen]
      split_ifs at hsome with hlost
      obtain ⟨rfl, rfl⟩ := Prod.mk.inj (Option.some.inj hsome)
      omega

end Numbered

/-- The answer of `packets_since` hides nothing exactly under the condition. -/
theorem hidesNothing_iff (maxBytes : Nat) (contents : List (Text × Bytes)) (lastSeq : Nat) :
    HidesNothing (filled maxBytes contents) contents.length lastSeq ↔
      Reportable maxBytes contents lastSeq := by
  obtain ⟨d, hd, hlen, hblock⟩ := exists_block_filled maxBytes contents
  rw [Reportable]
  split_ifs with hlast
  · exact hidesNothing_of_block hblock ((filled_ne_nil_iff maxBytes contents).2 hlast) hd hlen
  · apply hidesNothing_of_nil
    by_contra hne
    exact hlast ((filled_ne_nil_iff maxBytes contents).1 hne)

/-- With one packet in the buffer of the agent, the request for what follows the last number of a `u64`
overflows. -/
theorem last_number_overflows :
    ¬ HidesNothing (filled RING_BUFFER_SIZE [("pty".toList, [120])]) 1 (2 ^ 64 - 1) := by
  intro h
  have hlt := h.noOverflow (by decide)
  omega

/-- A buffer of 20 bytes evicts both packets when the second one is larger, and then reports no gap. -/
theorem emptied_reports_nothing :
    ¬ HidesNothing (filled 20 [("pty".toList, []), ("pty".toList, [1, 2])]) 2 0 := by
  intro h
  have hle := h.none_dropped (by decide) 1 ⟨le_rfl, by omega, by decide⟩
  omega

end RingBuffer

end Ktty.Agent
